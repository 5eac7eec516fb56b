import JellyBench.WriteBenchmark
/-!
# Pacing

Read as an exact number, `pending` plus the number of writes is the number of
writes due: every turn adds to both sides what its time is worth. `pending` is
between -1 and 0 after a turn, so the number of writes is the number due, rounded
up, however the time was cut into turns.
-/
open JellyBench.WriteBenchmark

namespace JellyBench.Pacing

/-- The number of writes due after the times in `passed`. -/
def writesDue (config : Config) (passed : List UInt32) : ℚ := config.writeRate.toNat * total passed / 1000000

structure Due {σ : Type} (config : Config) (passed : List UInt32) (s : State σ) : Prop where
  pending_gt : -1 < s.pending
  pending_le : s.pending ≤ 0
  issued : (s.sets.length : ℤ) = ⌈writesDue config passed⌉
  counted : s.numWrites = UInt32.ofNat s.sets.length

/-- Any times can pass. -/
theorem exists_ticks (passed : List UInt32) (startTime : Int) : ∃ ticks, passedTimes startTime ticks = passed := by
  induction passed generalizing startTime with
  | nil => exact ⟨[], rfl⟩
  | cons p passed ih =>
    obtain ⟨ticks, ht⟩ := ih (startTime + 1000 * p.toNat)
    refine ⟨⟨startTime + 1000 * p.toNat, none, none⟩ :: ticks, ?_⟩
    rw [passedTimes, ht, add_sub_cancel_left, microseconds_mul]

/-! ## Exact arithmetic -/

section
variable {σ : Type} {next : Supply σ} {config : Config}

theorem credit_exact (passed : UInt32) : credit id config passed = config.writeRate.toNat * passed.toNat / 1000000 := by
  unfold credit
  simp only [id]
  ring

theorem credit_nonneg (config : Config) (passed : UInt32) : 0 ≤ credit id config passed := by
  rw [credit_exact]
  positivity

theorem paced_exact (config : Config) : Paced id config (config.writeRate.toNat * 4294967296 / 1000000) 0 where
  due_le p hp passed := by
    have hlt : (passed.toNat : ℚ) ≤ 4294967296 := by exact_mod_cast passed.toNat_lt.le
    have hle : config.writeRate.toNat * (passed.toNat : ℚ) ≤ config.writeRate.toNat * 4294967296 :=
      mul_le_mul_of_nonneg_left hlt (Nat.cast_nonneg _)
    rw [credit_exact]
    simp only [id]
    linarith
  near p _ _ := by simp
  small := by norm_num

/-- Every turn adds what its time is worth. -/
theorem turn_exact {s s' : State σ} {tick : Tick} {n : ℕ} (h : Turn id config 0 s s' tick n) (hs : -1 < s.pending) :
    s'.pending + s'.sets.length =
      s.pending + s.sets.length + credit id config (microseconds (tick.currentTime - s.prevTime)) ∧
      -1 < s'.pending := by
  have hc := credit_nonneg config (microseconds (tick.currentTime - s.prevTime))
  have htaken := h.taken
  have hleft := h.left
  unfold due at htaken hleft
  rw [mul_zero, abs_nonpos_iff] at htaken
  simp only [id] at htaken hleft
  rw [h.sets, Nat.cast_add]
  refine ⟨by linarith, ?_⟩
  rcases hleft with hleft | hleft <;> linarith

/-- What is pending and what is issued make up what is due. -/
theorem run_exact {fuel : Nat} {s s' : State σ} {ticks : List Tick}
    (h : Lib.run (iteration id next config fuel) s ticks = .ok s') (hgt : -1 < s.pending) (hle : s.pending ≤ 0) :
    s'.pending + s'.sets.length = s.pending + s.sets.length + writesDue config (passedTimes s.prevTime ticks) ∧
      -1 < s'.pending ∧ s'.pending ≤ 0 := by
  induction ticks generalizing s with
  | nil =>
    cases h
    simp [passedTimes, writesDue, total, hgt, hle]
  | cons tick ticks ih =>
    cases hi : iteration id next config fuel s tick with
    | error stop => rw [Lib.run_cons_error hi] at h; cases h
    | ok t =>
      rw [Lib.run_cons_ok hi] at h
      obtain ⟨n, hn⟩ := iteration_turn (paced_exact config) hle hi
      obtain ⟨hsum, hgt'⟩ := turn_exact hn hgt
      obtain ⟨hrun, hres⟩ := ih h hgt' hn.used
      refine ⟨?_, hres⟩
      have hdue : writesDue config (passedTimes s.prevTime (tick :: ticks)) =
          credit id config (microseconds (tick.currentTime - s.prevTime)) +
            writesDue config (passedTimes tick.currentTime ticks) := by
        rw [credit_exact, passedTimes, writesDue, writesDue, total, List.map_cons, List.sum_cons, ← total]
        push_cast
        ring
      rw [hrun, hsum, hdue, hn.prevTime]
      ring

theorem run_due {fuel : Nat} {startTime : Int} {random : σ} {ticks : List Tick} {s : State σ}
    (h : Lib.run (iteration id next config fuel) (start startTime random) ticks = .ok s) :
    Due config (passedTimes startTime ticks) s := by
  obtain ⟨hsum, hgt, hle⟩ := run_exact h (by simp [start]) (by simp [start])
  have hsum' : s.pending + s.sets.length = writesDue config (passedTimes startTime ticks) := by
    simpa [start, State.sets] using hsum
  refine ⟨hgt, hle, ?_, (numbered_run h).numWrites⟩
  rw [eq_comm, Int.ceil_eq_iff, ← hsum', Int.cast_natCast]
  constructor <;> linarith

end

/-! ## Two runs -/

/-- Turns of the loop, with `pending` an exact number. -/
def exactRun (distribution : UniformInt) (config : Config) (cache : RandomBlobCache) (fuel : Nat) (startTime : Int)
    (random : Random) (ticks : List Tick) : Except Stop (State Random) :=
  Lib.run (iteration id (nextWrite distribution config cache) config fuel) (start startTime random) ticks

/-- With enough turns for every inner loop a run issues what is due, or comes to
a draw that is not defined. -/
theorem exactRun_ends (distribution : UniformInt) (config : Config) (cache : RandomBlobCache) (startTime : Int)
    (random : Random) (ticks : List Tick) : ∃ N, ∀ fuel ≥ N,
      match exactRun distribution config cache fuel startTime random ticks with
      | .ok s => Due config (passedTimes startTime ticks) s
      | .error stop => (∃ u, stop = .undefined u) ∧ ¬ Usable config cache := by
  have hN : (config.writeRate.toNat * 4294967296 / 1000000 : ℚ) ≤ (config.writeRate.toNat * 8590 : ℕ) / 2 := by
    -- No turn credits more than a `uint32_t` of microseconds is worth.
    have hrate : (0 : ℚ) ≤ config.writeRate.toNat := Nat.cast_nonneg _
    push_cast
    linarith
  obtain ⟨r, hr, herr⟩ := run_ends (nextWrite distribution config cache) (paced_exact config) hN ticks
    (s := start startTime random) (by simp [start])
  refine ⟨config.writeRate.toNat * 8590, fun fuel hf => ?_⟩
  have hrun : exactRun distribution config cache fuel startTime random ticks = r := hr fuel hf
  rw [hrun]
  cases r with
  | ok s => exact run_due hrun
  | error stop =>
    obtain ⟨g, hg⟩ := herr stop rfl
    exact nextWrite_error hg

/-- Only the sum of the times matters. -/
theorem Due.sets_length {σ : Type} {config : Config} {passed passed' : List UInt32} {s s' : State σ}
    (hs : Due config passed s) (hs' : Due config passed' s') (ht : total passed' = total passed) :
    s.sets.length = s'.sets.length := by
  have heq : (s.sets.length : ℤ) = s'.sets.length := by
    rw [hs.issued, hs'.issued, writesDue, writesDue, ht]
  exact_mod_cast heq

/-- Whatever times pass, every inner loop ends, and the writes due have been
issued and counted, unless there is nothing to write. A run with the same total
has issued the same number. -/
theorem writes_are_due (distribution : UniformInt) (config : Config) (cache : RandomBlobCache) (startTime : Int)
    (random : Random) (passed : List UInt32) :
    (∃ ticks, passedTimes startTime ticks = passed) ∧
    ∀ ticks, passedTimes startTime ticks = passed →
      (∃ N, ∀ fuel ≥ N,
        match exactRun distribution config cache fuel startTime random ticks with
        | .ok s => Due config passed s
        | .error stop => (∃ u, stop = .undefined u) ∧ ¬ Usable config cache) ∧
      ∀ cache' startTime' random' ticks', total (passedTimes startTime' ticks') = total passed →
        ∀ fuel fuel' s s', exactRun distribution config cache fuel startTime random ticks = .ok s →
          exactRun distribution config cache' fuel' startTime' random' ticks' = .ok s' →
          s.sets.length = s'.sets.length := by
  refine ⟨exists_ticks passed startTime, ?_⟩
  rintro ticks rfl
  refine ⟨exactRun_ends distribution config cache startTime random ticks, ?_⟩
  intro cache' startTime' random' ticks' ht fuel fuel' s s' hs hs'
  exact (run_due hs).sets_length (run_due hs') ht

end JellyBench.Pacing
