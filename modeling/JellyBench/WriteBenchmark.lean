import JellyBench.Backend
import JellyBench.RandomBlobCache
import JellyBench.Lib.Rounding
import JellyBench.Lib.Runs
import Mathlib.Data.List.TakeWhile
/-!
# The write benchmark

Each turn of the loop reads the clock, adds the writes that are due to
`pending`, issues one `Set` after the other until `pending` is used up, and
calls `Update`. `pending` is a `double`: `rnd` rounds the result of an operation,
and is the identity where `pending` is read as an exact number. Where a write's
key and blob come from is a parameter of the loop.
-/
namespace JellyBench

/-- A call of the write backend. -/
inductive BackendCall where
  | set (c : SetCall)
  | update
  deriving DecidableEq, Repr

/-- The `Set` calls among the calls of the backend, in order. -/
def issued (calls : List BackendCall) : List SetCall :=
  calls.filterMap fun
    | .set c => some c
    | .update => none

@[simp] theorem issued_nil : issued [] = [] := rfl

@[simp] theorem issued_snoc_set (calls : List BackendCall) (c : SetCall) :
    issued (calls ++ [.set c]) = issued calls ++ [c] := by simp [issued]

@[simp] theorem issued_snoc_update (calls : List BackendCall) : issued (calls ++ [.update]) = issued calls := by
  simp [issued]

namespace WriteBenchmark

/-- What a turn of the loop reads: the clock, in nanoseconds, and memory and disk
usage if their timers have expired. -/
structure Tick where
  currentTime : Int
  memory : Option UInt64
  disk : Option UInt64

/-- The variables that change. `σ` is what the writes are drawn from. -/
structure State (σ : Type) where
  pending : ℚ
  prevTime : Int
  numWrites : UInt32
  maxMemoryUsage : UInt64
  maxDiskUsage : UInt64
  random : σ
  calls : List BackendCall

/-- The `Set` calls issued so far. -/
def State.sets {σ : Type} (s : State σ) : List SetCall := issued s.calls

def State.sample {σ : Type} (s : State σ) (tick : Tick) : State σ :=
  { s with
    maxMemoryUsage := tick.memory.elim s.maxMemoryUsage (max s.maxMemoryUsage)
    maxDiskUsage := tick.disk.elim s.maxDiskUsage (max s.maxDiskUsage) }

/-- `(uint32_t)duration_cast<microseconds>(duration).count()` -/
def microseconds (duration : Int) : UInt32 := .ofInt (duration.tdiv 1000)

/-- Where the keys and blobs of writes come from. -/
abbrev Supply (σ : Type) := σ → Except Stop ((UInt32 × Bytes) × σ)

section
variable {σ : Type} (rnd : ℚ → ℚ) (next : Supply σ) (config : Config)

/-- `((double)passed / 1000000.0) * (double)aConfig->m_writeRate`. Every
`uint32_t` is a `double`. -/
def credit (passed : UInt32) : ℚ := rnd (rnd (passed.toNat / 1000000) * rnd config.writeRate.toNat)

/-- The body of the inner loop. -/
def write (s : State σ) : Except Stop (State σ) :=
  match next s.random with
  | .error stop => .error stop
  | .ok ((key, blob), random) => .ok { s with
      calls := s.calls ++ [.set ⟨key, s.numWrites, blob, true⟩]
      pending := rnd (s.pending - 1)
      numWrites := s.numWrites + 1
      random }

/-- The inner loop, for `fuel` turns at most. -/
def drain : Nat → State σ → Except Stop (State σ)
  | 0, s => if 0 < s.pending then .error .running else .ok s
  | fuel + 1, s =>
    if 0 < s.pending then
      match write rnd next s with
      | .error stop => .error stop
      | .ok s => drain fuel s
    else .ok s

/-- `pending` before the inner loop. -/
def due (s : State σ) (tick : Tick) : ℚ :=
  rnd (s.pending + credit rnd config (microseconds (tick.currentTime - s.prevTime)))

/-- The body of the outer loop after its check of the clock. -/
def iteration (fuel : Nat) (s : State σ) (tick : Tick) : Except Stop (State σ) :=
  match drain rnd next fuel { s with prevTime := tick.currentTime, pending := due rnd config s tick } with
  | .error stop => .error stop
  | .ok s => .ok (State.sample { s with calls := s.calls ++ [.update] } tick)

def start (startTime : Int) (random : σ) : State σ := ⟨0, startTime, 0, 0, 0, random, []⟩

def endTime (startTime : Int) : Int := startTime + config.writeRunSeconds.toNat * 1000000000

/-- The turns of the outer loop: the first reading at or past the end breaks it. -/
def turns (startTime : Int) (ticks : List Tick) : List Tick :=
  ticks.takeWhile fun tick => tick.currentTime < endTime config startTime

/-- The outer loop. -/
def loop (fuel : Nat) (startTime : Int) (random : σ) (ticks : List Tick) : Except Stop (State σ) :=
  Lib.run (iteration rnd next config fuel) (start startTime random) (turns config startTime ticks)

end

/-- The key and the blob of a write. -/
def nextWrite (distribution : UniformInt) (config : Config) (cache : RandomBlobCache) : Supply Random := fun random => do
  let (randomBlob, random) ← cache.getRandomBlob distribution random
  if config.blobKeyCount = 0 then .error (.undefined .zeroDivisor)
  else
    let (x, random) := random.next
    let key := x.toUInt64 % config.blobKeyCount
    -- &randomBlob[0]
    if randomBlob = [] then .error (.undefined .emptyFront)
    else .ok ((key.toUInt32, randomBlob), random)

/-- A `double` has 53 significant bits. -/
def binary64 : ℚ → ℚ := Lib.roundTo 53

/-- `WriteBenchmark`, with the clock readings and samples of its turns. -/
def writeBenchmark (distribution : UniformInt) (config : Config) (fuel : Nat) (startTime : Int) (random : Random)
    (ticks : List Tick) : Except Stop (State Random) := do
  let (cache, random) ← RandomBlobCache.init distribution config random
  loop binary64 (nextWrite distribution config cache) config fuel startTime random ticks

theorem writeBenchmark_eq (distribution : UniformInt) (config : Config) (fuel : Nat) (startTime : Int) (random : Random)
    (ticks : List Tick) :
    writeBenchmark distribution config fuel startTime random ticks =
      match RandomBlobCache.init distribution config random with
      | .error stop => .error stop
      | .ok (cache, random) => loop binary64 (nextWrite distribution config cache) config fuel startTime random ticks := by
  unfold writeBenchmark
  cases RandomBlobCache.init distribution config random <;> rfl

theorem writeBenchmark_ok {distribution : UniformInt} {config : Config} {fuel : Nat} {startTime : Int} {random : Random}
    {ticks : List Tick} {s : State Random}
    (h : writeBenchmark distribution config fuel startTime random ticks = .ok s) :
    ∃ cache random', RandomBlobCache.init distribution config random = .ok (cache, random') ∧
      loop binary64 (nextWrite distribution config cache) config fuel startTime random' ticks = .ok s := by
  rw [writeBenchmark_eq] at h
  cases hi : RandomBlobCache.init distribution config random with
  | error stop => rw [hi] at h; cases h
  | ok r =>
    rw [hi] at h
    exact ⟨r.1, r.2, rfl, h⟩

/-! ## Time -/

/-- The `passed` of each turn. -/
def passedTimes (prevTime : Int) : List Tick → List UInt32
  | [] => []
  | tick :: ticks => microseconds (tick.currentTime - prevTime) :: passedTimes tick.currentTime ticks

def total (passed : List UInt32) : ℕ := (passed.map (·.toNat)).sum

/-- The clock does not go back. -/
def Steady (prevTime : Int) : List Tick → Prop
  | [] => True
  | tick :: ticks => prevTime ≤ tick.currentTime ∧ Steady tick.currentTime ticks

theorem total_cons (p : UInt32) (passed : List UInt32) : total (p :: passed) = p.toNat + total passed := rfl

theorem toNat_microseconds (duration : Int) :
    ((microseconds duration).toNat : Int) = duration.tdiv 1000 % 2 ^ 32 := by
  unfold microseconds UInt32.ofInt
  rw [UInt32.toNat_ofNat']
  omega

theorem microseconds_mul (p : UInt32) : microseconds (1000 * p.toNat) = p := by
  have hp := p.toNat_lt
  have h := toNat_microseconds (1000 * p.toNat)
  rw [Int.mul_tdiv_cancel_left _ (by omega), Int.emod_eq_of_lt (by omega) (by omega)] at h
  exact UInt32.toNat_inj.1 (by omega)

/-- No more time is credited than passes. -/
theorem total_le {prevTime last : Int} {ticks : List Tick} (h : Steady prevTime ticks) (hlast : prevTime ≤ last)
    (hall : ∀ tick ∈ ticks, tick.currentTime ≤ last) :
    1000 * (total (passedTimes prevTime ticks) : Int) ≤ last - prevTime := by
  induction ticks generalizing prevTime with
  | nil => simpa [passedTimes, total] using hlast
  | cons tick ticks ih =>
    obtain ⟨hle, hsteady⟩ := h
    have hrest := ih hsteady (hall tick (by simp)) fun t ht => hall t (List.mem_cons_of_mem _ ht)
    have hmicro := toNat_microseconds (tick.currentTime - prevTime)
    rw [Int.tdiv_eq_ediv_of_nonneg (by omega)] at hmicro
    rw [passedTimes, total_cons]
    push_cast
    omega

theorem steady_turns {prevTime startTime : Int} {ticks : List Tick} (config : Config) (h : Steady prevTime ticks) :
    Steady prevTime (turns config startTime ticks) := by
  unfold turns
  induction ticks generalizing prevTime with
  | nil => exact h
  | cons tick ticks ih =>
    rw [List.takeWhile_cons]
    split
    · exact ⟨h.1, ih h.2⟩
    · trivial

theorem lt_of_mem_turns {config : Config} {startTime : Int} {ticks : List Tick} {tick : Tick}
    (h : tick ∈ turns config startTime ticks) : tick.currentTime < endTime config startTime := by
  simpa using List.mem_takeWhile_imp h

theorem turns_eq_self {config : Config} {startTime : Int} {ticks : List Tick}
    (h : ∀ tick ∈ ticks, tick.currentTime < endTime config startTime) : turns config startTime ticks = ticks :=
  List.takeWhile_eq_self_iff.2 fun tick ht => by simpa using h tick ht

/-! ## What writes are drawn -/

/-- There are blobs, none of them empty, and keys. -/
structure Usable (config : Config) (cache : RandomBlobCache) : Prop where
  blobs : cache.blobs ≠ []
  nonempty : ∀ blob ∈ cache.blobs, blob ≠ []
  keys : config.blobKeyCount ≠ 0

/-- `key` is the remainder it was narrowed from. -/
def Narrowed (config : Config) (key : UInt32) : Prop :=
  key.toUInt64 < config.blobKeyCount ∧ ∃ x : UInt32, key.toUInt64 = x.toUInt64 % config.blobKeyCount

theorem narrowed_mod {config : Config} (h : config.blobKeyCount ≠ 0) (x : UInt32) :
    Narrowed config (x.toUInt64 % config.blobKeyCount).toUInt32 := by
  have hpos : 0 < config.blobKeyCount.toNat := by
    apply Nat.pos_of_ne_zero
    exact fun h0 => h (UInt64.toNat_inj.1 h0)
  have hlt : x.toNat % config.blobKeyCount.toNat < 2 ^ 32 := Nat.lt_of_le_of_lt (Nat.mod_le _ _) x.toNat_lt
  have hwide : (x.toUInt64 % config.blobKeyCount).toUInt32.toUInt64 = x.toUInt64 % config.blobKeyCount := by
    apply UInt64.toNat_inj.1
    simp only [UInt32.toNat_toUInt64, UInt64.toNat_toUInt32, UInt64.toNat_mod]
    exact Nat.mod_eq_of_lt hlt
  refine ⟨?_, x, hwide⟩
  rw [hwide, UInt64.lt_iff_toNat_lt, UInt64.toNat_mod]
  exact Nat.mod_lt _ hpos

theorem nextWrite_ok {distribution : UniformInt} {config : Config} {cache : RandomBlobCache} {random random' : Random}
    {key : UInt32} {blob : Bytes} (h : nextWrite distribution config cache random = .ok ((key, blob), random')) :
    Narrowed config key ∧ blob ∈ cache.blobs := by
  unfold nextWrite at h
  by_cases hb : cache.blobs = []
  · simp [RandomBlobCache.getRandomBlob, hb, Bind.bind, Except.bind] at h
  obtain ⟨blob', hmem, random₁, hget⟩ := RandomBlobCache.getRandomBlob_ok distribution hb random
  rw [hget] at h
  simp only [Bind.bind, Except.bind] at h
  split_ifs at h with hk hnil
  cases h
  exact ⟨narrowed_mod hk _, hmem⟩

theorem nextWrite_stuck (distribution : UniformInt) {config : Config} {cache : RandomBlobCache}
    (h : cache.blobs = [] ∨ config.blobKeyCount = 0 ∨ ∀ blob ∈ cache.blobs, blob = []) (random : Random) :
    ∃ u, nextWrite distribution config cache random = .error (.undefined u) := by
  unfold nextWrite
  by_cases hb : cache.blobs = []
  · exact ⟨.noBlobs, by simp [RandomBlobCache.getRandomBlob, hb, Bind.bind, Except.bind]⟩
  obtain ⟨blob, hmem, random₁, hget⟩ := RandomBlobCache.getRandomBlob_ok distribution hb random
  rw [hget]
  simp only [Bind.bind, Except.bind]
  by_cases hk : config.blobKeyCount = 0
  · exact ⟨.zeroDivisor, if_pos hk⟩
  · rcases h with h | h | h
    · exact absurd h hb
    · exact absurd h hk
    · exact ⟨.emptyFront, by rw [if_neg hk, if_pos (h blob hmem)]⟩

/-- Nothing can be drawn, or what is drawn cannot be used. -/
theorem nextWrite_error {distribution : UniformInt} {config : Config} {cache : RandomBlobCache} {random : Random}
    {stop : Stop} (h : nextWrite distribution config cache random = .error stop) :
    (∃ u, stop = .undefined u) ∧ ¬ Usable config cache := by
  unfold nextWrite at h
  by_cases hb : cache.blobs = []
  · simp only [RandomBlobCache.getRandomBlob, hb, List.length_nil, if_true, Bind.bind, Except.bind] at h
    exact ⟨⟨_, (Except.error.inj h).symm⟩, fun hu => hu.blobs hb⟩
  obtain ⟨blob, hmem, random₁, hget⟩ := RandomBlobCache.getRandomBlob_ok distribution hb random
  rw [hget] at h
  simp only [Bind.bind, Except.bind] at h
  split_ifs at h with hk hnil
  · exact ⟨⟨_, (Except.error.inj h).symm⟩, fun hu => hu.keys hk⟩
  · exact ⟨⟨_, (Except.error.inj h).symm⟩, fun hu => hu.nonempty blob hmem hnil⟩

/-! ## The inner loop -/

section
variable {σ : Type} {rnd : ℚ → ℚ} {next : Supply σ} {config : Config}

theorem write_ok {s s' : State σ} (h : write rnd next s = .ok s') :
    ∃ key blob random, next s.random = .ok ((key, blob), random) ∧ s' = { s with
      calls := s.calls ++ [.set ⟨key, s.numWrites, blob, true⟩]
      pending := rnd (s.pending - 1)
      numWrites := s.numWrites + 1
      random } := by
  unfold write at h
  cases hn : next s.random with
  | error stop => rw [hn] at h; cases h
  | ok r =>
    obtain ⟨⟨key, blob⟩, random⟩ := r
    rw [hn] at h
    exact ⟨key, blob, random, rfl, (Except.ok.inj h).symm⟩

theorem write_error {s : State σ} {stop : Stop} (h : write rnd next s = .error stop) : next s.random = .error stop := by
  unfold write at h
  cases hn : next s.random with
  | error stop' => rw [hn] at h; exact congrArg Except.error (Except.error.inj h)
  | ok r => rw [hn] at h; cases h

/-- What every write keeps holds after the inner loop, and nothing is due then. -/
theorem drain_induct {I : State σ → Prop}
    (hI : ∀ s s', I s → 0 < s.pending → write rnd next s = .ok s' → I s') {fuel : Nat} {s s' : State σ}
    (h : drain rnd next fuel s = .ok s') (hs : I s) : I s' ∧ s'.pending ≤ 0 := by
  fun_induction drain rnd next fuel s with
  | case1 s hp => cases h
  | case2 s hp => cases h; exact ⟨hs, not_lt.1 hp⟩
  | case3 fuel s hp stop hw => cases h
  | case4 fuel s hp s₁ hw ih => exact ih h (hI s s₁ hs hp hw)
  | case5 fuel s hp => cases h; exact ⟨hs, not_lt.1 hp⟩

/-- What every write and `Update` keep holds after a turn of the outer loop. -/
theorem iteration_induct {I : State σ → Prop}
    (hwrite : ∀ s s', I s → 0 < s.pending → write rnd next s = .ok s' → I s')
    (hdue : ∀ s tick, I s → I { s with prevTime := tick.currentTime, pending := due rnd config s tick })
    (hupdate : ∀ s tick, I s → I (State.sample { s with calls := s.calls ++ [.update] } tick)) {fuel : Nat}
    {s s' : State σ} {tick : Tick} (h : iteration rnd next config fuel s tick = .ok s') (hs : I s) : I s' := by
  unfold iteration at h
  cases hd : drain rnd next fuel { s with prevTime := tick.currentTime, pending := due rnd config s tick } with
  | error stop => rw [hd] at h; cases h
  | ok t =>
    rw [hd] at h
    rw [← Except.ok.inj h]
    exact hupdate t tick (drain_induct hwrite hd (hdue s tick hs)).1

/-- The next turn starts from the reading itself. -/
theorem iteration_prevTime {fuel : Nat} {s s' : State σ} {tick : Tick}
    (h : iteration rnd next config fuel s tick = .ok s') : s'.prevTime = tick.currentTime := by
  unfold iteration at h
  cases hd : drain rnd next fuel { s with prevTime := tick.currentTime, pending := due rnd config s tick } with
  | error stop => rw [hd] at h; cases h
  | ok t =>
    rw [hd] at h
    obtain rfl := Except.ok.inj h
    have hkeep : ∀ t u : State σ, t.prevTime = tick.currentTime → 0 < t.pending → write rnd next t = .ok u →
        u.prevTime = tick.currentTime := by
      rintro t u ht - hw
      obtain ⟨_, _, _, -, rfl⟩ := write_ok hw
      exact ht
    exact (drain_induct hkeep hd rfl).1

/-- Only the supply stops a run, or a lack of turns. -/
theorem drain_error {fuel : Nat} {s : State σ} {stop : Stop} (h : drain rnd next fuel s = .error stop) :
    stop = .running ∨ ∃ g, next g = .error stop := by
  fun_induction drain rnd next fuel s with
  | case1 s hp => exact .inl (Except.error.inj h).symm
  | case2 s hp => cases h
  | case3 fuel s hp stop' hw =>
    rw [Except.error.inj h] at hw
    exact .inr ⟨_, write_error hw⟩
  | case4 fuel s hp s₁ hw ih => exact ih h
  | case5 fuel s hp => cases h

theorem run_stop {fuel : Nat} {s : State σ} {ticks : List Tick} {stop : Stop}
    (h : Lib.run (iteration rnd next config fuel) s ticks = .error stop) :
    stop = .running ∨ ∃ g, next g = .error stop := by
  obtain ⟨_, tick, _, t, -, -, hi⟩ := Lib.run_error h
  unfold iteration at hi
  cases hd : drain rnd next fuel { t with prevTime := tick.currentTime, pending := due rnd config t tick } with
  | error stop' =>
    rw [hd] at hi
    rw [← Except.error.inj hi]
    exact drain_error hd
  | ok t' => rw [hd] at hi; cases hi

/-! ## The trace -/

/-- The `Set` calls carry the values of the counter, one after the other. `G` is
kept by the supply, and `P` holds of all that is drawn. -/
structure Traced (G : σ → Prop) (P : UInt32 → Bytes → Prop) (s : State σ) : Prop where
  numWrites : s.numWrites = UInt32.ofNat s.sets.length
  seqs : s.sets.map (·.seq) = (List.range s.sets.length).map UInt32.ofNat
  drawn : ∀ c ∈ s.sets, P c.key c.blob
  supply : G s.random

def Draws (next : Supply σ) (G : σ → Prop) (P : UInt32 → Bytes → Prop) : Prop :=
  ∀ g key blob g', G g → next g = .ok ((key, blob), g') → P key blob ∧ G g'

theorem traced_write {G : σ → Prop} {P : UInt32 → Bytes → Prop} (hnext : Draws next G P) {s s' : State σ}
    (hs : Traced G P s) (h : write rnd next s = .ok s') : Traced G P s' := by
  obtain ⟨key, blob, random, hn, rfl⟩ := write_ok h
  obtain ⟨hP, hG⟩ := hnext _ _ _ _ hs.supply hn
  have hnum := hs.numWrites
  have hseq := hs.seqs
  unfold State.sets at hnum hseq
  refine ⟨?_, ?_, ?_, hG⟩
  · simp [State.sets, hnum]
  · simp [State.sets, hnum, hseq, List.range_succ]
  · intro c hc
    simp only [State.sets, issued_snoc_set, List.mem_append, List.mem_singleton] at hc
    rcases hc with hc | rfl
    · exact hs.drawn c hc
    · exact hP

theorem traced_iteration {G : σ → Prop} {P : UInt32 → Bytes → Prop} (hnext : Draws next G P) {fuel : Nat}
    {s s' : State σ} {tick : Tick} (hs : Traced G P s) (h : iteration rnd next config fuel s tick = .ok s') :
    Traced G P s' := by
  refine iteration_induct (fun s s' hs _ hw => traced_write hnext hs hw) ?_ ?_ h hs
  · intro s tick hs
    exact ⟨hs.numWrites, hs.seqs, hs.drawn, hs.supply⟩
  · intro s tick hs
    have hsets : State.sets (State.sample { s with calls := s.calls ++ [.update] } tick) = s.sets :=
      issued_snoc_update s.calls
    exact ⟨by rw [hsets]; exact hs.numWrites, by rw [hsets]; exact hs.seqs, by rw [hsets]; exact hs.drawn, hs.supply⟩

/-- The trace of any run of the loop. -/
theorem traced_run {G : σ → Prop} {P : UInt32 → Bytes → Prop} (hnext : Draws next G P) {fuel : Nat} {startTime : Int}
    {random : σ} (hG : G random) {ticks : List Tick} {s : State σ}
    (h : Lib.run (iteration rnd next config fuel) (start startTime random) ticks = .ok s) : Traced G P s :=
  Lib.run_history (fun _ s => Traced G P s) ⟨rfl, rfl, by simp [start, State.sets], hG⟩
    (fun _ _ _ _ hs hi => traced_iteration hnext hs hi) h

/-- Whatever is drawn, the numbers are those of the counter. -/
theorem numbered_run {fuel : Nat} {startTime : Int} {random : σ} {ticks : List Tick} {s : State σ}
    (h : Lib.run (iteration rnd next config fuel) (start startTime random) ticks = .ok s) :
    Traced (fun _ => True) (fun _ _ => True) s :=
  traced_run (fun _ _ _ _ _ _ => ⟨trivial, trivial⟩) trivial h

/-! ## Pacing -/

/-- `rnd` is off by `δ` at most when a write is taken off `pending`, which never
gets above `B`. -/
structure Paced (rnd : ℚ → ℚ) (config : Config) (B δ : ℚ) : Prop where
  due_le : ∀ p ≤ 0, ∀ passed, rnd (p + credit rnd config passed) ≤ B
  near : ∀ p, 0 < p → p ≤ B → |rnd (p - 1) - (p - 1)| ≤ δ
  small : δ ≤ 1 / 2

/-- After enough turns the inner loop has ended, or there was nothing to write. -/
theorem drain_ends (next : Supply σ) {B δ : ℚ} (h : Paced rnd config B δ) {n : ℕ} {s : State σ} (hB : s.pending ≤ B)
    (hn : s.pending ≤ n / 2) : ∃ r, (∀ fuel ≥ n, drain rnd next fuel s = r) ∧
      ∀ stop, r = .error stop → ∃ g, next g = .error stop := by
  induction n generalizing s with
  | zero =>
    have hp : ¬ 0 < s.pending := by simpa using hn
    refine ⟨.ok s, fun fuel _ => ?_, fun stop hs => nomatch hs⟩
    cases fuel <;> simp [drain, hp]
  | succ n ih =>
    -- Every write takes at least a half off `pending`.
    by_cases hp : 0 < s.pending
    · cases hw : write rnd next s with
      | error stop =>
        refine ⟨.error stop, fun fuel hf => ?_, fun stop' hs => ⟨s.random, ?_⟩⟩
        · obtain ⟨fuel, rfl⟩ := Nat.exists_eq_add_of_le' (Nat.le_trans (Nat.le_add_left 1 n) hf)
          simp [drain, hp, hw]
        · rw [← Except.error.inj hs]
          exact write_error hw
      | ok t =>
        have ht : t.pending = rnd (s.pending - 1) := by
          obtain ⟨_, _, _, _, rfl⟩ := write_ok hw
          rfl
        have hnear := abs_le.1 (h.near s.pending hp hB)
        have hsmall := h.small
        push_cast at hn
        obtain ⟨r, hr, herr⟩ := ih (s := t) (by rw [ht]; linarith) (by rw [ht]; linarith)
        refine ⟨r, fun fuel hf => ?_, herr⟩
        obtain ⟨fuel, rfl⟩ := Nat.exists_eq_add_of_le' (Nat.le_trans (Nat.le_add_left 1 n) hf)
        rw [drain, if_pos hp, hw]
        exact hr fuel (by omega)
    · refine ⟨.ok s, fun fuel _ => ?_, fun stop hs => nomatch hs⟩
      cases fuel <;> simp [drain, hp]

/-- What a turn comes to: `n` writes, taken off what was due. -/
structure Turn (rnd : ℚ → ℚ) (config : Config) (δ : ℚ) (s s' : State σ) (tick : Tick) (n : ℕ) : Prop where
  prevTime : s'.prevTime = tick.currentTime
  sets : s'.sets.length = s.sets.length + n
  taken : |s'.pending + n - due rnd config s tick| ≤ n * δ
  used : s'.pending ≤ 0
  left : s'.pending = due rnd config s tick ∨ -1 - δ < s'.pending
  rounded : ∃ x, s'.pending = rnd x

theorem iteration_turn {B δ : ℚ} (h : Paced rnd config B δ) {fuel : Nat} {s s' : State σ} {tick : Tick}
    (hs : s.pending ≤ 0) (hi : iteration rnd next config fuel s tick = .ok s') :
    ∃ n, Turn rnd config δ s s' tick n := by
  unfold iteration at hi
  cases hd : drain rnd next fuel { s with prevTime := tick.currentTime, pending := due rnd config s tick } with
  | error stop => rw [hd] at hi; cases hi
  | ok t =>
    rw [hd] at hi
    obtain rfl := Except.ok.inj hi
    -- `n` counts the writes of this turn.
    have hI := drain_induct (I := fun t => t.prevTime = tick.currentTime ∧ t.pending ≤ B ∧ (∃ x, t.pending = rnd x) ∧
      (t.pending = due rnd config s tick ∨ -1 - δ < t.pending) ∧
      ∃ n : ℕ, t.sets.length = s.sets.length + n ∧ |t.pending + n - due rnd config s tick| ≤ n * δ) ?_ hd ?_
    · obtain ⟨⟨hprev, -, hx, hleft, n, hn, htaken⟩, hused⟩ := hI
      exact ⟨n, hprev, (congrArg List.length (issued_snoc_update t.calls)).trans hn, htaken, hused, hleft, hx⟩
    · rintro t u ⟨hprev, hB, -, -, n, hn, htaken⟩ hp hw
      obtain ⟨key, blob, random, -, rfl⟩ := write_ok hw
      have hnear := abs_le.1 (h.near t.pending hp hB)
      have hsmall := h.small
      refine ⟨hprev, ?_, ⟨_, rfl⟩, .inr ?_, n + 1, ?_, ?_⟩
      · show rnd (t.pending - 1) ≤ B
        linarith
      · show -1 - δ < rnd (t.pending - 1)
        linarith
      · simp only [State.sets, issued_snoc_set, List.length_append, List.length_singleton] at hn ⊢
        omega
      · show |rnd (t.pending - 1) + (n + 1 : ℕ) - due rnd config s tick| ≤ (n + 1 : ℕ) * δ
        have ht := abs_le.1 htaken
        push_cast
        rw [abs_le]
        constructor <;> linarith
    · exact ⟨rfl, h.due_le _ hs _, ⟨_, rfl⟩, .inl rfl, 0, rfl, by simp⟩

theorem iteration_ends (next : Supply σ) {B δ : ℚ} (h : Paced rnd config B δ) {N : ℕ} (hN : B ≤ N / 2)
    {s : State σ} (hs : s.pending ≤ 0) (tick : Tick) : ∃ r, (∀ fuel ≥ N, iteration rnd next config fuel s tick = r) ∧
      ∀ stop, r = .error stop → ∃ g, next g = .error stop := by
  have hB := h.due_le s.pending hs (microseconds (tick.currentTime - s.prevTime))
  obtain ⟨r, hr, herr⟩ := drain_ends next h (n := N)
    (s := { s with prevTime := tick.currentTime, pending := due rnd config s tick }) hB (hB.trans hN)
  cases r with
  | error stop =>
    exact ⟨.error stop, fun fuel hf => by unfold iteration; rw [hr fuel hf], fun stop' he => herr stop' he⟩
  | ok t => exact ⟨_, fun fuel hf => by unfold iteration; rw [hr fuel hf], fun stop he => by cases he⟩

/-- With enough turns for every inner loop, a run ends as runs with more do. -/
theorem run_ends (next : Supply σ) {B δ : ℚ} (h : Paced rnd config B δ) {N : ℕ} (hN : B ≤ N / 2)
    (ticks : List Tick) {s : State σ} (hs : s.pending ≤ 0) : ∃ r, (∀ fuel ≥ N, Lib.run (iteration rnd next config fuel) s ticks = r) ∧
      ∀ stop, r = .error stop → ∃ g, next g = .error stop := by
  induction ticks generalizing s with
  | nil => exact ⟨.ok s, fun _ _ => rfl, fun stop he => nomatch he⟩
  | cons tick ticks ih =>
    obtain ⟨r, hr, herr⟩ := iteration_ends next h hN hs tick
    cases r with
    | error stop => exact ⟨.error stop, fun fuel hf => Lib.run_cons_error (hr fuel hf) ticks, herr⟩
    | ok t =>
      obtain ⟨n, hn⟩ := iteration_turn h hs (hr N (le_refl N))
      obtain ⟨r, hr', herr'⟩ := ih hn.used
      exact ⟨r, fun fuel hf => by rw [Lib.run_cons_ok (hr fuel hf), hr' fuel hf], herr'⟩

end

end WriteBenchmark

end JellyBench
