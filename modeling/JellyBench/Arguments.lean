import JellyBench.Main
import JellyBench.WriteBenchmark
/-!
# Accepted command lines and undefined operations

`atoi` and a cast are all that stands between an argument and the four
operations that are not defined for every value. `WellFormed` are the
configurations for which a run gets to none of them.
-/
open JellyBench.WriteBenchmark JellyBench.Main

namespace JellyBench.Arguments

/-- A `Set` with a key that was in range before it was narrowed, and a blob of
one of the sizes asked for. -/
structure InRange (config : Config) (c : SetCall) : Prop where
  key : Narrowed config c.key
  minBlobSize : config.minBlobSize.toNat ≤ c.blob.length
  maxBlobSize : c.blob.length ≤ config.maxBlobSize.toNat

/-- No run gets to an undefined operation, whatever the generator gives and the
clock shows, and every `Set` is in range. -/
def Defined (distribution : UniformInt) (config : Config) : Prop :=
  ∀ fuel startTime random ticks, Steady startTime ticks →
    match writeBenchmark distribution config fuel startTime random ticks with
    | .ok s => ∀ c ∈ s.sets, InRange config c
    | .error stop => ∀ u, stop ≠ .undefined u

/-- The vectors cannot get as large as asked for: the constructor throws. -/
def Oversized (config : Config) : Prop :=
  (config.randomBlobCacheSize ≠ 0 ∧ 2 ^ 63 ≤ config.minBlobSize.toNat) ∨ 2 ^ 60 ≤ config.randomBlobCacheSize.toNat

structure WellFormed (config : Config) : Prop where
  sizes : config.minBlobSize ≤ config.maxBlobSize
  writes : config.writeRunSeconds = 0 ∨ Oversized config ∨
    (config.randomBlobCacheSize ≠ 0 ∧ config.blobKeyCount ≠ 0 ∧ config.minBlobSize ≠ 0)

/-! ## Building the cache -/

theorem init_error {size : UniformInt} {config : Config} (h : config.minBlobSize ≤ config.maxBlobSize)
    {random : Random} {stop : Stop} (hi : RandomBlobCache.init size config random = .error stop) :
    stop = .exception "std::length_error" := by
  unfold RandomBlobCache.init at hi
  rw [if_pos h] at hi
  exact RandomBlobCache.build_error hi

theorem init_ok {size : UniformInt} {config : Config} {random random' : Random} {cache : RandomBlobCache}
    (hi : RandomBlobCache.init size config random = .ok (cache, random')) :
    ¬ Oversized config ∧ cache.blobs.length = config.randomBlobCacheSize.toNat ∧ ∀ blob ∈ cache.blobs,
      config.minBlobSize.toNat ≤ blob.length ∧ blob.length ≤ config.maxBlobSize.toNat := by
  unfold RandomBlobCache.init at hi
  split_ifs at hi with h
  obtain ⟨blobs, hblobs, hlen, hall⟩ := RandomBlobCache.build_ok h hi
  rw [List.nil_append] at hblobs
  subst hblobs
  refine ⟨?_, hlen, fun blob hb => ⟨(hall blob hb).1, (hall blob hb).2.1⟩⟩
  have hsize := cache.size_lt
  rintro (⟨hne, hbig⟩ | hbig)
  · have hpos : 0 < cache.blobs.length := by
      rw [hlen]
      exact Nat.pos_of_ne_zero fun h0 => hne (UInt64.toNat_inj.1 h0)
    obtain ⟨hge, -, hlt⟩ := hall _ (List.getElem_mem hpos)
    omega
  · omega

/-- A cache can come out with smallest blobs only. -/
theorem init_min (size : UniformInt) {config : Config} (h : config.minBlobSize ≤ config.maxBlobSize)
    (hover : ¬ Oversized config) : ∃ random random' cache,
      RandomBlobCache.init size config random = .ok (cache, random') ∧
      cache.blobs.length = config.randomBlobCacheSize.toNat ∧
      ∀ blob ∈ cache.blobs, blob.length = config.minBlobSize.toNat := by
  unfold Oversized at hover
  simp only [not_or, not_and, not_le] at hover
  obtain ⟨hmin, hsize⟩ := hover
  have hlt : 0 < config.randomBlobCacheSize.toNat → config.minBlobSize.toNat < 2 ^ 63 := by
    intro hpos
    apply hmin
    rintro h0
    rw [h0] at hpos
    exact absurd hpos (by decide)
  obtain ⟨random, hbuild⟩ := RandomBlobCache.build_min size h hlt fun _ => 0
  obtain ⟨cache, blobs, hb, hblobs, hlen, hall⟩ := hbuild ⟨[], by simp⟩ (by simpa using hsize)
  rw [List.nil_append] at hblobs
  subst hblobs
  refine ⟨random, fun _ => 0, cache, ?_, hlen, hall⟩
  unfold RandomBlobCache.init
  rw [if_pos h, hb]

/-! ## Runs -/

theorem due_pos {config : Config} (h : config.writeRate = 10000) : 0 < binary64 (0 + credit binary64 config 1) := by
  have hpos : ∀ {x : ℚ}, 0 < x → 0 < binary64 x := fun hx => Lib.roundTo_pos (by omega) hx
  rw [zero_add]
  refine hpos (hpos (mul_pos (hpos ?_) (hpos ?_)))
  · exact div_pos (by exact_mod_cast show 0 < (1 : UInt32).toNat by decide) (by norm_num)
  · rw [h]
    exact_mod_cast show 0 < (10000 : UInt64).toNat by decide

/-- The first write of a run that has a microsecond comes to the supply. -/
theorem loop_stuck {σ : Type} {next : Supply σ} {config : Config} (h : config.writeRate = 10000)
    (hsecs : config.writeRunSeconds ≠ 0) {random : σ} {stop : Stop} (hn : next random = .error stop) :
    loop binary64 next config 1 0 random [⟨1000, none, none⟩] = .error stop := by
  have hpos : 0 < config.writeRunSeconds.toNat := Nat.pos_of_ne_zero fun h0 => hsecs (UInt32.toNat_inj.1 h0)
  have hturns : turns config 0 [⟨1000, none, none⟩] = [⟨1000, none, none⟩] := by
    apply turns_eq_self
    intro tick ht
    rw [List.mem_singleton] at ht
    subst ht
    unfold endTime
    simp only
    omega
  have hdue : 0 < due binary64 config (start 0 random) ⟨1000, none, none⟩ := due_pos h
  have hiter : iteration binary64 next config 1 (start 0 random) ⟨1000, none, none⟩ = .error stop := by
    unfold iteration
    rw [drain, if_pos hdue]
    simp only [write, start, hn]
  unfold loop
  rw [hturns]
  exact Lib.run_cons_error hiter []

theorem turns_none {config : Config} (h : config.writeRunSeconds = 0) {startTime : Int} {ticks : List Tick}
    (hs : Steady startTime ticks) : turns config startTime ticks = [] := by
  cases ticks with
  | nil => rfl
  | cons tick ticks =>
    have hle : endTime config startTime ≤ tick.currentTime := by
      unfold endTime
      rw [h]
      simpa using hs.1
    unfold turns
    rw [List.takeWhile_cons_of_neg (by simpa using hle)]

theorem WellFormed.defined {config : Config} (h : WellFormed config) (distribution : UniformInt) :
    Defined distribution config := by
  intro fuel startTime random ticks hsteady
  rw [writeBenchmark_eq]
  cases hi : RandomBlobCache.init distribution config random with
  | error stop =>
    rintro u rfl
    cases init_error h.sizes hi
  | ok r =>
    obtain ⟨cache, random'⟩ := r
    obtain ⟨hover, hlen, hall⟩ := init_ok hi
    simp only
    cases hl : loop binary64 (nextWrite distribution config cache) config fuel startTime random' ticks with
    | ok s =>
      intro c hc
      have hnext : Draws (nextWrite distribution config cache) (fun _ => True) fun key blob =>
          Narrowed config key ∧ blob ∈ cache.blobs := fun _ _ _ _ _ hn => ⟨nextWrite_ok hn, trivial⟩
      obtain ⟨hkey, hmem⟩ := (traced_run hnext trivial hl).drawn c hc
      exact ⟨hkey, (hall _ hmem).1, (hall _ hmem).2⟩
    | error stop =>
      rintro u rfl
      -- No turn, no cache, or a supply that never stops.
      rcases h.writes with hzero | hbig | ⟨hsize, hkeys, hmin⟩
      · unfold loop at hl
        rw [turns_none hzero hsteady] at hl
        cases hl
      · exact hover hbig
      · rcases run_stop hl with hrun | ⟨g, hg⟩
        · cases hrun
        · have hminpos : 0 < config.minBlobSize.toNat := Nat.pos_of_ne_zero fun h0 => hmin (UInt64.toNat_inj.1 h0)
          refine (nextWrite_error hg).2 ⟨?_, ?_, hkeys⟩
          · intro hnil
            rw [hnil, List.length_nil] at hlen
            exact hsize (UInt64.toNat_inj.1 hlen.symm)
          · rintro blob hmem rfl
            have := (hall _ hmem).1
            simp only [List.length_nil] at this
            omega

theorem Defined.wellFormed {config : Config} (hrate : config.writeRate = 10000) {distribution : UniformInt}
    (h : Defined distribution config) : WellFormed config := by
  have hsizes : config.minBlobSize ≤ config.maxBlobSize := by
    by_contra hlt
    have hd := h 0 0 (fun _ => 0) [] trivial
    have hi : RandomBlobCache.init distribution config (fun _ => 0) = .error (.undefined .distributionBounds) := by
      unfold RandomBlobCache.init
      rw [if_neg hlt]
    rw [writeBenchmark_eq, hi] at hd
    exact hd _ rfl
  refine ⟨hsizes, ?_⟩
  by_contra hwrites
  simp only [not_or, not_and, not_not] at hwrites
  obtain ⟨hsecs, hover, hkeys⟩ := hwrites
  obtain ⟨random, random', cache, hi, hlen, hall⟩ := init_min distribution hsizes hover
  have hstuck : cache.blobs = [] ∨ config.blobKeyCount = 0 ∨ ∀ blob ∈ cache.blobs, blob = [] := by
    by_cases hsize : config.randomBlobCacheSize = 0
    · rw [hsize] at hlen
      exact .inl (List.eq_nil_of_length_eq_zero hlen)
    · by_cases hkey : config.blobKeyCount = 0
      · exact .inr (.inl hkey)
      · refine .inr (.inr fun blob hb => List.eq_nil_of_length_eq_zero ?_)
        rw [hall blob hb, hkeys hsize hkey]
        rfl
  -- One microsecond is enough to come to the first write.
  obtain ⟨u, hu⟩ := nextWrite_stuck distribution hstuck random'
  have hrun : writeBenchmark distribution config 1 0 random [⟨1000, none, none⟩] = .error (.undefined u) := by
    rw [writeBenchmark_eq, hi]
    exact loop_stuck hrate hsecs hu
  have hd := h 1 0 random [⟨1000, none, none⟩] ⟨by simp, trivial⟩
  rw [hrun] at hd
  exact hd u rfl

/-- A run gets to no undefined operation exactly for the well-formed configurations. -/
theorem defined_iff (atoi : String → Int32) (distribution : UniformInt) (build : Build) (args : List String)
    (config : Config) (writeBackend : WriteBackend) (h : main atoi build args = .ok (config, writeBackend)) :
    Defined distribution config ↔ WellFormed config := by
  obtain ⟨asked, -, rfl⟩ := main_config h
  exact ⟨Defined.wellFormed rfl, fun hw => hw.defined distribution⟩

theorem defined_one_byte :
    ∃ config writeBackend, main atoi ⟨false, ⟨.noCompression⟩⟩ ["-min_blob_size", "1"] = .ok (config, writeBackend) ∧
      Defined .reduce config :=
  ⟨_, _, rfl, (defined_iff atoi .reduce ⟨false, ⟨.noCompression⟩⟩ ["-min_blob_size", "1"] _ _ rfl).2
    ⟨by decide, .inr (.inr (by decide))⟩⟩

/-- The smallest size is above the largest. -/
theorem min_above_max : ¬ ∀ (atoi : String → Int32) (distribution : UniformInt) (build : Build) (args : List String)
    (config : Config) (writeBackend : WriteBackend), main atoi build args = .ok (config, writeBackend) →
    Defined distribution config := by
  intro h
  have hd := h atoi .reduce ⟨false, ⟨.noCompression⟩⟩ ["-min_blob_size", "5", "-max_blob_size", "1"] _ _ rfl
  exact absurd (Defined.wellFormed rfl hd).sizes (by decide)

end JellyBench.Arguments
