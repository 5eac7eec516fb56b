import JellyBench.Benchmark
/-!
# The workload

The writes of a run are drawn one after the other from the generator, and
nothing else is drawn in the loop. So which writes a run makes depends on neither
the clock, the rate nor the backend: only how many of them it makes does.
-/
open JellyBench.WriteBenchmark JellyBench.Benchmark

namespace JellyBench.Workload

/-! ## Drawing writes -/

/-- `n` writes drawn from `g`, numbered from `seq` on. -/
def draws {σ : Type} (next : Supply σ) : ℕ → UInt32 → σ → Except Stop (List SetCall × σ)
  | 0, _, g => .ok ([], g)
  | n + 1, seq, g =>
    match next g with
    | .error stop => .error stop
    | .ok ((key, blob), g) =>
      match draws next n (seq + 1) g with
      | .error stop => .error stop
      | .ok (cs, g) => .ok (⟨key, seq, blob, true⟩ :: cs, g)

section
variable {σ : Type} {next : Supply σ}

theorem draws_succ {n : ℕ} {seq : UInt32} {g g' : σ} {cs : List SetCall} :
    draws next (n + 1) seq g = .ok (cs, g') ↔ ∃ key blob g₁ cs₁, next g = .ok ((key, blob), g₁) ∧
      draws next n (seq + 1) g₁ = .ok (cs₁, g') ∧ cs = ⟨key, seq, blob, true⟩ :: cs₁ := by
  rw [draws]
  cases hn : next g with
  | error stop => simp
  | ok r =>
    obtain ⟨⟨key, blob⟩, g₁⟩ := r
    cases hd : draws next n (seq + 1) g₁ with
    | error stop => simp [hd]
    | ok p =>
      obtain ⟨cs₁, g₂⟩ := p
      simp only [hd, Except.ok.injEq, Prod.mk.injEq]
      constructor
      · rintro ⟨rfl, rfl⟩
        exact ⟨key, blob, g₁, cs₁, ⟨⟨rfl, rfl⟩, rfl⟩, by simp [hd], rfl⟩
      · rintro ⟨key', blob', g₃, cs₃, ⟨⟨rfl, rfl⟩, rfl⟩, hd', rfl⟩
        cases hd.symm.trans hd'
        exact ⟨rfl, rfl⟩

theorem draws_snoc {n : ℕ} {seq : UInt32} {g g₁ g' : σ} {cs : List SetCall} {key : UInt32} {blob : Bytes}
    (h : draws next n seq g = .ok (cs, g₁)) (hn : next g₁ = .ok ((key, blob), g')) :
    draws next (n + 1) seq g = .ok (cs ++ [⟨key, seq + UInt32.ofNat n, blob, true⟩], g') := by
  induction n generalizing seq g cs with
  | zero =>
    cases h
    exact draws_succ.2 ⟨key, blob, g', [], hn, rfl, by simp⟩
  | succ n ih =>
    obtain ⟨key₁, blob₁, g₂, cs₂, hn₂, hd₂, rfl⟩ := draws_succ.1 h
    refine draws_succ.2 ⟨key₁, blob₁, g₂, _, hn₂, ih hd₂, ?_⟩
    have hseq : seq + 1 + UInt32.ofNat n = seq + UInt32.ofNat (n + 1) := by
      rw [UInt32.add_assoc, UInt32.add_comm 1, UInt32.ofNat_add]
      rfl
    rw [List.cons_append, hseq]

/-- More writes drawn are the same ones, and more. -/
theorem draws_prefix {n m : ℕ} {seq : UInt32} {g g₁ g₂ : σ} {cs cs' : List SetCall}
    (h : draws next n seq g = .ok (cs, g₁)) (h' : draws next m seq g = .ok (cs', g₂)) (hle : n ≤ m) : cs <+: cs' := by
  induction n generalizing m seq g cs cs' with
  | zero =>
    cases h
    exact List.nil_prefix
  | succ n ih =>
    obtain ⟨m, rfl⟩ := Nat.exists_eq_add_of_le' (Nat.le_trans (Nat.le_add_left 1 n) hle)
    obtain ⟨key, blob, g₃, cs₁, hn, hd, rfl⟩ := draws_succ.1 h
    obtain ⟨key', blob', g₄, cs₂, hn', hd', rfl⟩ := draws_succ.1 h'
    cases hn.symm.trans hn'
    exact (List.prefix_cons_inj _).2 (ih hd hd' (by omega))

/-- Fewer writes can be drawn where more can. -/
theorem draws_take {n m : ℕ} {seq : UInt32} {g g' : σ} {cs : List SetCall} (h : draws next m seq g = .ok (cs, g'))
    (hle : n ≤ m) : ∃ cs' g'', draws next n seq g = .ok (cs', g'') := by
  induction n generalizing m seq g cs with
  | zero => exact ⟨[], g, rfl⟩
  | succ n ih =>
    obtain ⟨m, rfl⟩ := Nat.exists_eq_add_of_le' (Nat.le_trans (Nat.le_add_left 1 n) hle)
    obtain ⟨key, blob, g₁, cs₁, hn, hd, rfl⟩ := draws_succ.1 h
    obtain ⟨cs', g'', hd'⟩ := ih hd (by omega)
    exact ⟨_, g'', draws_succ.2 ⟨key, blob, g₁, cs', hn, hd', rfl⟩⟩

theorem draws_length {n : ℕ} {seq : UInt32} {g g' : σ} {cs : List SetCall} (h : draws next n seq g = .ok (cs, g')) :
    cs.length = n := by
  induction n generalizing seq g cs with
  | zero =>
    cases h
    rfl
  | succ n ih =>
    obtain ⟨key, blob, g₁, cs₁, -, hd, rfl⟩ := draws_succ.1 h
    rw [List.length_cons, ih hd]

/-! ## The writes of a run -/

variable {rnd : ℚ → ℚ} {config : Config}

/-- The writes so far are drawn from `g`, and what is left is the supply. -/
structure Drawn (next : Supply σ) (g : σ) (s : State σ) : Prop where
  numWrites : s.numWrites = UInt32.ofNat s.sets.length
  draws : draws next s.sets.length 0 g = .ok (s.sets, s.random)

theorem drawn_write {g : σ} {s s' : State σ} (hs : Drawn next g s) (h : write rnd next s = .ok s') :
    Drawn next g s' := by
  obtain ⟨key, blob, random, hn, rfl⟩ := write_ok h
  have hnum := hs.numWrites
  have hsnoc := draws_snoc hs.draws hn
  rw [UInt32.zero_add, ← hnum] at hsnoc
  refine ⟨?_, ?_⟩
  · simp only [State.sets, issued_snoc_set, List.length_append, List.length_singleton] at hnum ⊢
    rw [hnum, UInt32.ofNat_add]
    rfl
  · simp only [State.sets, issued_snoc_set, List.length_append, List.length_singleton] at hsnoc ⊢
    exact hsnoc

theorem drawn_run {fuel : Nat} {startTime : Int} {g : σ} {ticks : List Tick} {s : State σ}
    (h : Lib.run (iteration rnd next config fuel) (start startTime g) ticks = .ok s) : Drawn next g s := by
  refine Lib.run_history (fun _ s => Drawn next g s) ⟨rfl, rfl⟩ ?_ h
  intro _ s tick s' hs hi
  refine iteration_induct (fun s s' hs _ hw => drawn_write hs hw) ?_ ?_ hi hs
  · intro s tick hs
    exact ⟨hs.numWrites, hs.draws⟩
  · intro s tick hs
    have hsets : State.sets (State.sample { s with calls := s.calls ++ [.update] } tick) = s.sets :=
      issued_snoc_update s.calls
    exact ⟨by rw [hsets]; exact hs.numWrites, by rw [hsets]; exact hs.draws⟩

end

/-! ## What the writes depend on -/

/-- The options that a draw looks at agree. -/
structure SameDraws (config config' : Config) : Prop where
  minBlobSize : config'.minBlobSize = config.minBlobSize
  maxBlobSize : config'.maxBlobSize = config.maxBlobSize
  randomBlobCacheSize : config'.randomBlobCacheSize = config.randomBlobCacheSize
  blobKeyCount : config'.blobKeyCount = config.blobKeyCount

section
variable {distribution : UniformInt} {config config' : Config}

theorem build_same (h : SameDraws config config') (n : ℕ) (cache : RandomBlobCache) (random : Random) :
    RandomBlobCache.build distribution config' n cache random = RandomBlobCache.build distribution config n cache random := by
  have hmake : RandomBlobCache.makeBlob distribution config' = RandomBlobCache.makeBlob distribution config := by
    funext random
    unfold RandomBlobCache.makeBlob
    rw [h.minBlobSize, h.maxBlobSize]
  induction n generalizing cache random with
  | zero => rfl
  | succ n ih =>
    rw [RandomBlobCache.build_succ, RandomBlobCache.build_succ, hmake]
    cases RandomBlobCache.makeBlob distribution config random with
    | error stop => rfl
    | ok r =>
      cases hp : cache.pushBack r.1 with
      | error stop => simp only [hp]
      | ok cache₁ =>
        simp only [hp]
        exact ih cache₁ r.2

theorem init_same (h : SameDraws config config') (random : Random) :
    RandomBlobCache.init distribution config' random = RandomBlobCache.init distribution config random := by
  unfold RandomBlobCache.init
  rw [h.minBlobSize, h.maxBlobSize, h.randomBlobCacheSize, build_same h]

theorem nextWrite_same (h : SameDraws config config') (cache : RandomBlobCache) :
    nextWrite distribution config' cache = nextWrite distribution config cache := by
  funext random
  unfold nextWrite
  rw [h.blobKeyCount]

/-! ## The cache -/

theorem fill_lt (n : ℕ) (random : Random) : ∀ x ∈ (RandomBlobCache.fill n random).1, x < 64 := by
  induction n generalizing random with
  | zero => simp [RandomBlobCache.fill]
  | succ n ih =>
    intro x hx
    rcases List.mem_cons.1 hx with rfl | hx
    · rw [UInt8.lt_iff_toNat_lt, UInt8.toNat_ofNat']
      have hmod := Nat.mod_lt (random.next.1.toNat) (show 0 < 64 by omega)
      have h64 : (64 : UInt8).toNat = 64 := rfl
      omega
    · exact ih _ x hx

/-- The blobs added are made of small bytes. -/
theorem build_lt {n : ℕ} {cache cache' : RandomBlobCache} {random random' : Random}
    (h : RandomBlobCache.build distribution config n cache random = .ok (cache', random'))
    (hcache : ∀ blob ∈ cache.blobs, ∀ x ∈ blob, x < 64) : ∀ blob ∈ cache'.blobs, ∀ x ∈ blob, x < 64 := by
  induction n generalizing cache random with
  | zero =>
    cases h
    exact hcache
  | succ n ih =>
    rw [RandomBlobCache.build_succ] at h
    cases hm : RandomBlobCache.makeBlob distribution config random with
    | error stop => rw [hm] at h; cases h
    | ok r =>
      obtain ⟨blob, random₁⟩ := r
      cases hp : cache.pushBack blob with
      | error stop => simp only [hm, hp] at h; cases h
      | ok cache₁ =>
        simp only [hm, hp] at h
        apply ih h
        rw [RandomBlobCache.pushBack_ok hp]
        intro b hb
        rcases List.mem_append.1 hb with hb | hb
        · exact hcache b hb
        · rw [List.mem_singleton.1 hb]
          unfold RandomBlobCache.makeBlob at hm
          simp only at hm
          split_ifs at hm
          have hfill := fill_lt (distribution.draw config.minBlobSize config.maxBlobSize random).1.toNat
            (distribution.draw config.minBlobSize config.maxBlobSize random).2
          rw [Except.ok.inj hm] at hfill
          exact hfill

/-- The blobs a run can write: none, where the cache is not built. -/
def cacheBlobs (distribution : UniformInt) (config : Config) (random : Random) : List Bytes :=
  match RandomBlobCache.init distribution config random with
  | .ok (cache, _) => cache.blobs
  | .error _ => []

theorem cacheBlobs_spec (distribution : UniformInt) (config : Config) (random : Random) :
    (cacheBlobs distribution config random).length ≤ config.randomBlobCacheSize.toNat ∧
      ∀ blob ∈ cacheBlobs distribution config random, ∀ x ∈ blob, x < 64 := by
  unfold cacheBlobs
  cases hi : RandomBlobCache.init distribution config random with
  | error stop => simp
  | ok r =>
    obtain ⟨cache, random'⟩ := r
    unfold RandomBlobCache.init at hi
    split_ifs at hi with hle
    obtain ⟨blobs, hblobs, hlen, -⟩ := RandomBlobCache.build_ok hle hi
    refine ⟨?_, build_lt hi (by simp)⟩
    show cache.blobs.length ≤ _
    rw [hblobs, List.nil_append, hlen]

/-! ## Every run -/

/-- Write `i` of any run. -/
def nthWrite (distribution : UniformInt) (config : Config) (random : Random) (i : ℕ) : Option SetCall :=
  match RandomBlobCache.init distribution config random with
  | .error _ => none
  | .ok (cache, random) =>
    match draws (nextWrite distribution config cache) (i + 1) 0 random with
    | .error _ => none
    | .ok (cs, _) => cs[i]?

theorem nthWrite_same (h : SameDraws config config') (random : Random) :
    nthWrite distribution config' random = nthWrite distribution config random := by
  funext i
  unfold nthWrite
  rw [init_same h]
  cases RandomBlobCache.init distribution config random with
  | error stop => rfl
  | ok r => simp only [nextWrite_same h]

theorem drawn_sets {fuel : Nat} {startTime : Int} {random : Random} {ticks : List Tick} {s : State Random}
    (h : writeBenchmark distribution config fuel startTime random ticks = .ok s) {i : ℕ} (hi : i < s.sets.length) :
    s.sets[i]? = nthWrite distribution config random i := by
  obtain ⟨cache, random', hinit, hloop⟩ := writeBenchmark_ok h
  have hdrawn := (drawn_run hloop).draws
  obtain ⟨cs, g, hcs⟩ := draws_take hdrawn (show i + 1 ≤ s.sets.length from hi)
  have hpre := draws_prefix hcs hdrawn hi
  have hlen := draws_length hcs
  simp only [nthWrite, hinit, hcs]
  rw [List.getElem?_eq_getElem hi, List.getElem?_eq_getElem (by omega), hpre.getElem]

end

/-- The generator, the blob sizes, the size of the cache and the number of keys
fix one sequence of writes, whose blobs come from one list. A run with any
backend, rate, length and clock makes a prefix of it. -/
theorem writes_are_fixed (distribution : UniformInt) (config : Config) (random : Random) :
    (cacheBlobs distribution config random).length ≤ config.randomBlobCacheSize.toNat ∧
    (∀ blob ∈ cacheBlobs distribution config random, ∀ x ∈ blob, x < 64) ∧
    ∀ {β : Type} (config' : Config) (backend : IWriteBackend β) (fuel : Nat) (startTime : Int) (ticks : List Tick)
      (b b' : β) (s : State Random), SameDraws config config' →
      writeBenchmarkOn distribution config' backend fuel startTime random ticks b = .ok (s, b') →
        (∀ i < s.sets.length, s.sets[i]? = nthWrite distribution config random i) ∧
        ∀ c ∈ s.sets, c.blob ∈ cacheBlobs distribution config random := by
  obtain ⟨hlen, hbytes⟩ := cacheBlobs_spec distribution config random
  refine ⟨hlen, hbytes, ?_⟩
  intro β config' backend fuel startTime ticks b b' s hsame hrun
  obtain ⟨hrun, -⟩ := writeBenchmarkOn_ok_iff.1 hrun
  refine ⟨fun i hi => ?_, ?_⟩
  · rw [drawn_sets hrun hi, nthWrite_same hsame]
  · obtain ⟨cache, random', hinit, hloop⟩ := writeBenchmark_ok hrun
    rw [init_same hsame] at hinit
    have hblobs : cacheBlobs distribution config random = cache.blobs := by
      unfold cacheBlobs
      rw [hinit]
    rw [hblobs]
    exact (traced_run (G := fun _ => True) (P := fun _ blob => blob ∈ cache.blobs)
      (fun _ _ _ _ _ hn => ⟨(nextWrite_ok hn).2, trivial⟩) trivial hloop).drawn

end JellyBench.Workload
