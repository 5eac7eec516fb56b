import JellyBench.Main
import JellyBench.SQLiteBlobNode
import JellyBench.WriteBenchmark
/-!
# Sequence numbers over a run

The sequence number of a write is the value of a 32-bit counter, and the stores
refuse a number they have seen. The counter wraps after 2^32 writes: `pending`
follows the exact number of writes due closely enough, rounding included, to say
which run lengths get there.
-/
open JellyBench.WriteBenchmark JellyBench.Main

namespace JellyBench.Sequence

/-! ## Writes that replace -/

/-- `P` holds of each `Set` and the calls before it. -/
def EverySet (calls : List NodeCall) (P : List NodeCall → SetCall → Prop) : Prop :=
  ∀ pre c post, calls = pre ++ .set c :: post → P pre c

/-- The numbers of each key increase, and with `Flush` calls anywhere both stores
take every `Set` and then hold its blob. -/
structure NoneRefused (cs : List SetCall) : Prop where
  increasing : Increasing cs
  rocksdb : ∀ calls, sets calls = cs → EverySet calls fun pre c =>
    ∀ db, RocksDBBlobNode.run pre = .ok db → RocksDBBlobNode.refuses .done db c = .ok false ∧
      ∀ db', RocksDBBlobNode.call db (.set c) = .ok db' → RocksDBBlobNode.blobAt db' c.key = some c.blob
  sqlite : ∀ (L : SQLite.Limits) calls, sets calls = cs → EverySet calls fun pre c =>
    ∀ node, SQLiteBlobNode.run L pre = .ok node →
      (∀ old, node.sqlite.visible c.key.toNat = some old →
        (SQLiteBlobNode.doUpdate old (SQLiteBlobNode.rowOf c)).data = some (SQLiteBlobNode.rowOf c).data) ∧
      ∀ node', SQLiteBlobNode.call L node (.set c) = .ok node' →
        node'.sqlite.visible c.key.toNat = some (SQLiteBlobNode.rowOf c)

theorem increasing_at {pre post : List NodeCall} {c : SetCall} (h : Increasing (sets (pre ++ .set c :: post))) :
    Increasing (sets pre) ∧ ∀ d ∈ sets pre, d.key = c.key → d.stamp < c.stamp := by
  rw [List.append_cons, sets, List.filterMap_append] at h
  have hsnoc : Increasing (sets (pre ++ [.set c])) := h.of_append
  rw [sets_snoc_set] at hsnoc
  exact increasing_snoc.1 hsnoc

theorem rocksdb_replaces {pre post : List NodeCall} {c : SetCall} (h : Increasing (sets (pre ++ .set c :: post)))
    {db : RocksDB.Columns} (hdb : RocksDBBlobNode.run pre = .ok db) :
    RocksDBBlobNode.refuses .done db c = .ok false ∧
      ∀ db', RocksDBBlobNode.call db (.set c) = .ok db' → RocksDBBlobNode.blobAt db' c.key = some c.blob := by
  obtain ⟨-, hnew⟩ := increasing_at h
  rw [RocksDBBlobNode.run_eq] at hdb
  obtain rfl := Except.ok.inj hdb
  have hstale : ¬ RocksDBBlobNode.Stale (RocksDBBlobNode.registers (sets pre)) c := by
    rintro ⟨d, hd, hle⟩
    rcases Lib.registers_spec SetCall.stamp (sets pre) c.key with ⟨hn, -⟩ | ⟨e, he, hw⟩
    · exact absurd (hd.symm.trans hn) (Option.some_ne_none d)
    · obtain rfl : d = e := Option.some.inj (hd.symm.trans he)
      exact absurd hle (Nat.not_le_of_lt (hnew d hw.mem.1 hw.mem.2))
  refine ⟨by rw [RocksDBBlobNode.refuses_done]; simp [hstale], fun db' hdb' => ?_⟩
  change RocksDBBlobNode.set .allDone _ c = _ at hdb'
  rw [RocksDBBlobNode.set_allDone, RocksDBBlobNode.registers_snoc, if_neg hstale] at hdb'
  rw [← Except.ok.inj hdb', RocksDBBlobNode.encode_blob, Function.update_self]
  rfl

theorem sqlite_replaces {L : SQLite.Limits} {pre post : List NodeCall} {c : SetCall}
    (h : Increasing (sets (pre ++ .set c :: post))) {node : SQLiteBlobNode} (hnode : SQLiteBlobNode.run L pre = .ok node) :
    (∀ old, node.sqlite.visible c.key.toNat = some old →
        (SQLiteBlobNode.doUpdate old (SQLiteBlobNode.rowOf c)).data = some (SQLiteBlobNode.rowOf c).data) ∧
      ∀ node', SQLiteBlobNode.call L node (.set c) = .ok node' →
        node'.sqlite.visible c.key.toNat = some (SQLiteBlobNode.rowOf c) := by
  obtain ⟨hpre, hnew⟩ := increasing_at h
  obtain ⟨hh, -⟩ := SQLiteBlobNode.run_holds hnode
  rw [← SQLiteBlobNode.newer_tableOf hpre, ← hh.visible] at hnew
  constructor
  · intro old hold
    exact if_pos (hnew old hold)
  · intro node' hset
    obtain ⟨-, -, rfl⟩ := (SQLiteBlobNode.set_ok L hh.ready c).1 hset
    exact Function.update_self _ _ _

theorem noneRefused {cs : List SetCall} (h : Increasing cs) : NoneRefused cs where
  increasing := h
  rocksdb := by
    rintro calls rfl pre c post rfl db hdb
    exact rocksdb_replaces h hdb
  sqlite := by
    rintro L calls rfl pre c post rfl node hnode
    exact sqlite_replaces h hnode

/-! ## The counter -/

theorem increasing_of_seqs {cs : List SetCall} (h : cs.map (·.seq) = (List.range cs.length).map UInt32.ofNat)
    (hlen : cs.length ≤ 2 ^ 32) : Increasing cs := by
  have hrange : ((List.range cs.length).map UInt32.ofNat).Pairwise fun x y => x.toNat < y.toNat := by
    rw [List.pairwise_map]
    refine List.Pairwise.imp_of_mem (fun {i j} hi hj hij => ?_) List.pairwise_lt_range
    rw [List.mem_range] at hi hj
    rw [UInt32.toNat_ofNat', UInt32.toNat_ofNat', Nat.mod_eq_of_lt (by omega), Nat.mod_eq_of_lt (by omega)]
    exact hij
  rw [← h, List.pairwise_map] at hrange
  apply hrange.imp
  intro c d hlt _
  exact hlt

/-- After 2^32 writes to one key the number 0 comes again. -/
theorem not_increasing_of_seqs {cs : List SetCall} {key : UInt32}
    (h : cs.map (·.seq) = (List.range cs.length).map UInt32.ofNat) (hkey : ∀ c ∈ cs, c.key = key)
    (hlen : 2 ^ 32 < cs.length) : ¬ Increasing cs := by
  intro hi
  have hseq : ∀ i (hlt : i < cs.length), cs[i].seq = UInt32.ofNat i := by
    intro i hlt
    have := List.getElem_of_eq h (i := i) (by simpa using hlt)
    simpa using this
  have hlt := List.pairwise_iff_getElem.1 hi 0 (2 ^ 32) (by omega) hlen (by omega)
    (by rw [hkey _ (List.getElem_mem _), hkey _ (List.getElem_mem _)])
  unfold SetCall.stamp at hlt
  rw [hseq 0 (by omega), hseq (2 ^ 32) hlen] at hlt
  exact absurd hlt (by decide)

/-! ## Rounded pacing

`main` sets the rate to 10000. -/

theorem binary64_error (x : ℚ) : |binary64 x - x| ≤ |x| / 2 ^ 53 := Lib.roundTo_error 53 x

theorem binary64_rate {config : Config} (h : config.writeRate = 10000) : binary64 config.writeRate.toNat = 10000 := by
  rw [h]
  exact Lib.roundTo_eq_self (by omega) (Lib.representable_natCast (n := 10000) (by norm_num))

theorem credit_near {config : Config} (h : config.writeRate = 10000) (passed : UInt32) :
    0 ≤ credit binary64 config passed ∧
      |credit binary64 config passed - passed.toNat / 100| ≤ passed.toNat / 100 / 2 ^ 50 := by
  have hp : (0 : ℚ) ≤ passed.toNat / 1000000 := by positivity
  unfold credit
  rw [binary64_rate h]
  -- Both operations are off by 2^-53 of their result.
  have hdiv := binary64_error (passed.toNat / 1000000)
  rw [abs_of_nonneg hp, abs_le] at hdiv
  have ha : 0 ≤ binary64 (passed.toNat / 1000000) := by linarith
  have hmul := binary64_error (binary64 (passed.toNat / 1000000) * 10000)
  rw [abs_of_nonneg (by linarith : 0 ≤ binary64 (passed.toNat / 1000000) * 10000), abs_le] at hmul
  rw [abs_le]
  refine ⟨by linarith, ?_, ?_⟩ <;> linarith

/-- Where `pending` is between two turns. -/
structure Between (p : ℚ) : Prop where
  rounded : Lib.Representable 53 p
  ge : -2 ≤ p
  le : p ≤ 0

/-- What is due is what was pending and what the time is worth. -/
theorem due_near {config : Config} (h : config.writeRate = 10000) {p : ℚ} (hp : Between p) (passed : UInt32) :
    p ≤ binary64 (p + credit binary64 config passed) ∧
      |binary64 (p + credit binary64 config passed) - (p + passed.toNat / 100)| ≤ passed.toNat / 100 / 2 ^ 40 := by
  obtain ⟨hc, hnear⟩ := credit_near h passed
  have hge := hp.ge
  have hle := hp.le
  rcases Nat.eq_zero_or_pos passed.toNat with h0 | hpos
  · -- No time, and nothing is rounded.
    rw [h0] at hnear ⊢
    have hc0 : credit binary64 config passed = 0 := by simpa using hnear
    rw [hc0, add_zero, binary64, Lib.roundTo_eq_self (by omega) hp.rounded]
    simp
  · have h1 : (1 : ℚ) ≤ passed.toNat := by exact_mod_cast hpos
    have herr := binary64_error (p + credit binary64 config passed)
    have habs : |p + credit binary64 config passed| ≤ 2 + credit binary64 config passed := by
      rw [abs_le]
      constructor <;> linarith
    have herr' := abs_le.1 (herr.trans (div_le_div_of_nonneg_right habs (by positivity)))
    rw [abs_le] at hnear ⊢
    refine ⟨by linarith, ?_, ?_⟩ <;> linarith

theorem paced_binary64 {config : Config} (h : config.writeRate = 10000) : Paced binary64 config (2 ^ 26) (1 / 2 ^ 27) where
  due_le p hp passed := by
    obtain ⟨hc, hnear⟩ := credit_near h passed
    have hlt : (passed.toNat : ℚ) ≤ 4294967296 := by exact_mod_cast passed.toNat_lt.le
    have herr := abs_le.1 (binary64_error (p + credit binary64 config passed))
    rw [abs_le] at hnear
    rcases abs_cases (p + credit binary64 config passed) with ⟨habs, -⟩ | ⟨habs, -⟩ <;> rw [habs] at herr <;> linarith
  near p hpos hle := by
    apply (binary64_error (p - 1)).trans
    have habs : |p - 1| ≤ 2 ^ 26 := by
      rw [abs_le]
      constructor <;> linarith
    linarith
  small := by norm_num

section
variable {σ : Type} {next : Supply σ} {config : Config}

/-- A turn issues what its time is worth, almost. -/
theorem turn_near (h : config.writeRate = 10000) {s s' : State σ} {tick : Tick} {n : ℕ} (hs : Between s.pending)
    (ht : Turn binary64 config (1 / 2 ^ 27) s s' tick n) :
    Between s'.pending ∧
      |s'.pending + s'.sets.length - (s.pending + s.sets.length) -
        (microseconds (tick.currentTime - s.prevTime)).toNat / 100| ≤
      (microseconds (tick.currentTime - s.prevTime)).toNat / 100 / 2 ^ 40 + n / 2 ^ 27 := by
  obtain ⟨hge, hnear⟩ := due_near h hs (microseconds (tick.currentTime - s.prevTime))
  have htaken := ht.taken
  have hleft := ht.left
  unfold due at htaken hleft
  constructor
  · refine ⟨?_, ?_, ht.used⟩
    · obtain ⟨x, hx⟩ := ht.rounded
      rw [hx]
      exact Lib.roundTo_representable 53 x
    · have hs2 := hs.ge
      rcases hleft with hleft | hleft <;> linarith
  · rw [abs_le] at hnear htaken ⊢
    rw [ht.sets, Nat.cast_add]
    constructor <;> linarith

theorem run_near (h : config.writeRate = 10000) {fuel : Nat} {ticks : List Tick} {s s' : State σ} (hs : Between s.pending)
    (hrun : Lib.run (iteration binary64 next config fuel) s ticks = .ok s') :
    Between s'.pending ∧ s.sets.length ≤ s'.sets.length ∧
      |s'.pending + s'.sets.length - (s.pending + s.sets.length) - total (passedTimes s.prevTime ticks) / 100| ≤
      total (passedTimes s.prevTime ticks) / 100 / 2 ^ 40 + (s'.sets.length - s.sets.length) / 2 ^ 27 := by
  induction ticks generalizing s with
  | nil =>
    cases hrun
    exact ⟨hs, le_refl _, by simp [passedTimes, total]⟩
  | cons tick ticks ih =>
    cases hi : iteration binary64 next config fuel s tick with
    | error stop => rw [Lib.run_cons_error hi] at hrun; cases hrun
    | ok t =>
      rw [Lib.run_cons_ok hi] at hrun
      obtain ⟨n, hn⟩ := iteration_turn (paced_binary64 h) hs.le hi
      obtain ⟨ht, hturn⟩ := turn_near h hs hn
      obtain ⟨hs', hlen, hrest⟩ := ih ht hrun
      have hsets := hn.sets
      refine ⟨hs', by omega, ?_⟩
      have hcast : (t.sets.length : ℚ) = s.sets.length + n := by rw [hsets, Nat.cast_add]
      rw [hn.prevTime] at hrest
      rw [abs_le] at hturn hrest ⊢
      rw [passedTimes, total_cons, Nat.cast_add]
      constructor <;> linarith

theorem between_start (startTime : Int) (random : σ) : Between (start startTime random).pending :=
  ⟨Lib.representable_natCast (n := 0) (by norm_num), by simp [start], by simp [start]⟩

/-- The number of writes of a run that starts at the beginning. -/
theorem start_near (h : config.writeRate = 10000) {fuel : Nat} {startTime : Int} {random : σ} {ticks : List Tick}
    {s : State σ} (hrun : Lib.run (iteration binary64 next config fuel) (start startTime random) ticks = .ok s) :
    Between s.pending ∧ |s.pending + s.sets.length - total (passedTimes startTime ticks) / 100| ≤
      total (passedTimes startTime ticks) / 100 / 2 ^ 40 + s.sets.length / 2 ^ 27 := by
  obtain ⟨hs, -, hnear⟩ := run_near h (between_start startTime random) hrun
  have hpending : (start startTime random).pending = 0 := rfl
  have hsets : (start startTime random).sets.length = 0 := rfl
  rw [hpending, hsets] at hnear
  simp only [Nat.cast_zero, add_zero, sub_zero] at hnear
  exact ⟨hs, hnear⟩

/-- In 429496 seconds the counter does not wrap. -/
theorem loop_increasing (h : config.writeRate = 10000) (hsecs : config.writeRunSeconds.toNat ≤ 429496) {fuel : Nat}
    {startTime : Int} {random : σ} {ticks : List Tick} (hsteady : Steady startTime ticks) {s : State σ}
    (hrun : loop binary64 next config fuel startTime random ticks = .ok s) : Increasing s.sets := by
  obtain ⟨hs, hnear⟩ := start_near h hrun
  have hend : startTime ≤ endTime config startTime := by unfold endTime; omega
  have htotal := total_le (steady_turns config hsteady) hend fun tick ht => (lt_of_mem_turns ht).le
  have hS : total (passedTimes startTime (turns config startTime ticks)) ≤ 429496000000 := by
    unfold endTime at htotal
    omega
  have hS' : (total (passedTimes startTime (turns config startTime ticks)) : ℚ) ≤ 429496000000 := by exact_mod_cast hS
  have hge := hs.ge
  rw [abs_le] at hnear
  have hlen : (s.sets.length : ℚ) ≤ 4294967296 := by linarith
  apply increasing_of_seqs (numbered_run hrun).seqs
  exact_mod_cast hlen

end

/-! ## Every admitted configuration -/

structure Draw where
  key : UInt32
  blob : Bytes
  nonempty : blob ≠ []

/-- Any keys and non-empty blobs. -/
def nextDraw : Supply (Nat → Draw) := fun draws => .ok (((draws 0).key, (draws 0).blob), fun n => draws (n + 1))

/-- Every run ends its turns, and no store refuses a write of it. -/
def Unrefused (config : Config) : Prop :=
  ∀ (draws : Nat → Draw) (startTime : Int) (ticks : List Tick), Steady startTime ticks →
    ∃ N, ∀ fuel ≥ N, ∃ s, loop binary64 nextDraw config fuel startTime draws ticks = .ok s ∧ NoneRefused s.sets

/-- Readings of the clock at equal distances. -/
def steps (prevTime gap : Int) : ℕ → List Tick
  | 0 => []
  | n + 1 => ⟨prevTime + gap, none, none⟩ :: steps (prevTime + gap) gap n

theorem passedTimes_steps (prevTime gap : Int) (n : ℕ) :
    passedTimes prevTime (steps prevTime gap n) = List.replicate n (microseconds gap) := by
  induction n generalizing prevTime with
  | zero => rfl
  | succ n ih => rw [steps, passedTimes, ih, add_sub_cancel_left, List.replicate_succ]

theorem steady_steps (prevTime : Int) {gap : Int} (h : 0 ≤ gap) (n : ℕ) : Steady prevTime (steps prevTime gap n) := by
  induction n generalizing prevTime with
  | zero => trivial
  | succ n ih => exact ⟨by simp [h], ih (prevTime + gap)⟩

theorem steps_le {prevTime gap : Int} (h : 0 ≤ gap) {n : ℕ} {tick : Tick} (ht : tick ∈ steps prevTime gap n) :
    tick.currentTime ≤ prevTime + n * gap := by
  induction n generalizing prevTime with
  | zero => cases ht
  | succ n ih =>
    have hn : 0 ≤ n * gap := mul_nonneg (Int.natCast_nonneg n) h
    rcases List.mem_cons.1 ht with rfl | ht
    · push_cast; linarith
    · have := ih ht
      push_cast; linarith

theorem loop_ends {config : Config} (h : config.writeRate = 10000) (draws : Nat → Draw) (startTime : Int)
    (ticks : List Tick) : ∃ N s, ∀ fuel ≥ N, loop binary64 nextDraw config fuel startTime draws ticks = .ok s := by
  obtain ⟨r, hr, herr⟩ := run_ends nextDraw (paced_binary64 h) (N := 2 ^ 27) (by norm_num)
    (turns config startTime ticks) (s := start startTime draws) (by simp [start])
  cases r with
  | error stop =>
    obtain ⟨g, hg⟩ := herr stop rfl
    cases hg
  | ok s => exact ⟨2 ^ 27, s, hr⟩

theorem unrefused_of_short_run {config : Config} (h : config.writeRate = 10000)
    (hsecs : config.writeRunSeconds.toNat ≤ 429496) : Unrefused config := by
  intro draws startTime ticks hsteady
  obtain ⟨N, s, hs⟩ := loop_ends h draws startTime ticks
  exact ⟨N, fun fuel hf => ⟨s, hs fuel hf, noneRefused (loop_increasing h hsecs hsteady (hs fuel hf))⟩⟩

/-- With one key and readings 3435.974 seconds apart, the counter has wrapped
after 429496.75 seconds. -/
theorem refused_of_long_run {config : Config} (h : config.writeRate = 10000)
    (hsecs : 429497 ≤ config.writeRunSeconds.toNat) : ¬ Unrefused config := by
  intro hall
  have hgap : (0 : Int) ≤ 3435974000000 := by omega
  let draw : Draw := ⟨0, [0], by simp⟩
  obtain ⟨N, hN⟩ := hall (fun _ => draw) 0 (steps 0 3435974000000 125) (steady_steps 0 hgap 125)
  obtain ⟨s, hrun, hnone⟩ := hN N (le_refl N)
  have hturns : turns config 0 (steps 0 3435974000000 125) = steps 0 3435974000000 125 := by
    apply turns_eq_self
    intro tick ht
    have hle := steps_le hgap ht
    unfold endTime
    omega
  -- More than 2^32 writes come from these 125 turns.
  obtain ⟨hs, hnear⟩ := start_near h hrun
  have hmicro : (microseconds 3435974000000).toNat = 3435974000 := by decide
  have htotal : total (passedTimes 0 (steps 0 3435974000000 125)) = 429496750000 := by
    rw [passedTimes_steps, total, List.map_replicate, List.sum_replicate, hmicro]
    rfl
  rw [hturns, htotal] at hnear
  rw [abs_le] at hnear
  have hle := hs.le
  have hlen : (4294967296 : ℚ) < s.sets.length := by
    push_cast at hnear
    linarith
  -- The supply stays the same, so every write is to key 0.
  have htraced := traced_run (G := fun g => g = fun _ => draw) (P := fun key _ => key = 0) ?_ rfl hrun
  · exact not_increasing_of_seqs htraced.seqs htraced.drawn (by exact_mod_cast hlen) hnone.increasing
  · rintro g key blob g' rfl hg
    cases hg
    exact ⟨rfl, rfl⟩

/-- No write is refused exactly when the run is not longer than 429496 seconds. -/
theorem unrefused_iff (atoi : String → Int32) (build : Build) (args : List String) (config : Config)
    (writeBackend : WriteBackend) (h : main atoi build args = .ok (config, writeBackend)) :
    Unrefused config ↔ config.writeRunSeconds.toNat ≤ 429496 := by
  obtain ⟨asked, -, rfl⟩ := main_config h
  constructor
  · intro hall
    by_contra hlong
    exact refused_of_long_run rfl (by omega) hall
  · exact unrefused_of_short_run rfl

theorem unrefused_two_minutes :
    ∃ config writeBackend, main atoi ⟨false, ⟨.noCompression⟩⟩ ["-write_run_seconds", "120"] = .ok (config, writeBackend) ∧
      Unrefused config :=
  ⟨_, _, rfl, (unrefused_iff atoi ⟨false, ⟨.noCompression⟩⟩ ["-write_run_seconds", "120"] _ _ rfl).2 (by decide)⟩

/-- Five days. -/
theorem long_run_refused : ¬ ∀ (atoi : String → Int32) (build : Build) (args : List String) (config : Config)
    (writeBackend : WriteBackend), main atoi build args = .ok (config, writeBackend) → Unrefused config := by
  intro h
  refine refused_of_long_run ?_ ?_ (h atoi ⟨false, ⟨.noCompression⟩⟩ ["-write_run_seconds", "432000"] _ _ rfl)
  · rfl
  · decide

end JellyBench.Sequence
