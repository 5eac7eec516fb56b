import JellyBench.Drain
import JellyBench.Elapsed
import JellyBench.Pacing
/-!
# The rate

Every turn makes the writes its time is worth, but for what it leaves pending
and for rounding. So between any two turns of a run as many writes are made as
the rate says, up to one: roundings add up to less than a part in 2^30, and the
nanoseconds that `passed` cuts off to less than a part in 1000.
-/
open JellyBench.WriteBenchmark JellyBench.Sequence JellyBench.Drain JellyBench.Elapsed JellyBench.Pacing

namespace JellyBench.SteadyRate

/-! ## One turn -/

/-- What `passed` is worth, and how far off it is computed. -/
theorem credit_error (config : Config) (passed : UInt32) :
    |credit binary64 config passed - writesDue config [passed]| ≤ writesDue config [passed] / 2 ^ 51 := by
  have hdue : writesDue config [passed] = passed.toNat / 1000000 * config.writeRate.toNat := by
    simp [writesDue, total]
    ring
  rw [hdue]
  unfold credit
  generalize hp : (passed.toNat / 1000000 : ℚ) = p
  generalize hr : (config.writeRate.toNat : ℚ) = r
  have hp0 : 0 ≤ p := hp ▸ by positivity
  have hr0 : 0 ≤ r := hr ▸ by positivity
  have hp1 := binary64_error p
  have hr1 := binary64_error r
  rw [abs_of_nonneg hp0, abs_le] at hp1
  rw [abs_of_nonneg hr0, abs_le] at hr1
  -- The product of the two rounded operands.
  have hlo : p * (1 - 1 / 2 ^ 53) * (r * (1 - 1 / 2 ^ 53)) ≤ binary64 p * binary64 r := by
    apply mul_le_mul
    · linarith
    · linarith
    · exact mul_nonneg hr0 (by norm_num)
    · linarith
  have hhi : binary64 p * binary64 r ≤ p * (1 + 1 / 2 ^ 53) * (r * (1 + 1 / 2 ^ 53)) := by
    apply mul_le_mul
    · linarith
    · linarith
    · linarith
    · exact mul_nonneg hp0 (by norm_num)
  have hpr : 0 ≤ p * r := mul_nonneg hp0 hr0
  have hprod : 0 ≤ binary64 p * binary64 r := mul_nonneg (by linarith) (by linarith)
  have hmul := binary64_error (binary64 p * binary64 r)
  rw [abs_of_nonneg hprod, abs_le] at hmul
  rw [abs_le]
  constructor <;> linarith

/-- The last write takes `d` down to between -1 and 0. -/
theorem sub_ceil {d : ℚ} (h : -1 ≤ d) : -1 ≤ d - ⌈d⌉.toNat ∧ d - ⌈d⌉.toNat ≤ 0 := by
  rcases le_or_gt d 0 with h0 | h0
  · rw [nothing_due h0]
    simp [h, h0]
  · have hceil : ((⌈d⌉.toNat : ℕ) : ℚ) = ⌈d⌉ := by
      exact_mod_cast Int.toNat_of_nonneg (Int.ceil_nonneg h0.le)
    have hle := Int.le_ceil d
    have hlt := Int.ceil_lt_add_one d
    rw [hceil]
    constructor <;> linarith

theorem settle_rest (config : Config) {p : ℚ} (h : Rest p) (passed : UInt32) : Rest (settle config p passed).1 := by
  obtain ⟨hge, hle⟩ := sub_ceil (h.due config passed).1
  exact ⟨representable_binary64 _, neg_one_le hge, nonpos hle⟩

theorem writesDue_nonneg (config : Config) (passed : List UInt32) : 0 ≤ writesDue config passed := by
  unfold writesDue
  positivity

/-- A turn makes the writes its time is worth, almost. -/
theorem settle_near (config : Config) {p : ℚ} (h : Rest p) (passed : UInt32) :
    |(settle config p passed).1 + (settle config p passed).2 - (p + writesDue config [passed])| ≤
      writesDue config [passed] / 2 ^ 30 := by
  have hdue := writesDue_nonneg config [passed]
  have hcredit := credit_error config passed
  have hge := h.ge
  have hle := h.le
  by_cases h0 : writesDue config [passed] = 0
  · -- Nothing is due, and nothing is rounded.
    rw [h0] at hcredit ⊢
    have hc : credit binary64 config passed = 0 := by simpa using hcredit
    have hsettle : settle config p passed = (p, 0) := by
      unfold settle
      simp only
      rw [hc, add_zero, binary64_eq_self h.rounded, nothing_left h.rounded hle, nothing_due hle]
    simp [hsettle]
  · -- A microsecond and a write a second, at least.
    have hleast : 1 / 1000000 ≤ writesDue config [passed] := by
      have hmul : 1 ≤ config.writeRate.toNat * passed.toNat := by
        apply Nat.one_le_iff_ne_zero.2
        intro hz
        apply h0
        have hz' : (config.writeRate.toNat : ℚ) * passed.toNat = 0 := by exact_mod_cast hz
        simp [writesDue, total, hz']
      have hcast : (1 : ℚ) ≤ config.writeRate.toNat * passed.toNat := by exact_mod_cast hmul
      have hsum : (total [passed] : ℚ) = passed.toNat := by simp [total]
      unfold writesDue
      rw [hsum]
      exact div_le_div_of_nonneg_right hcast (by norm_num)
    have hc0 := Drain.credit_nonneg config passed
    unfold settle
    simp only
    have hsum := binary64_error (p + credit binary64 config passed)
    have habs : |p + credit binary64 config passed| ≤ 1 + credit binary64 config passed := by
      rw [abs_le]
      constructor <;> linarith
    have hsum' := abs_le.1 (hsum.trans (div_le_div_of_nonneg_right habs (by positivity)))
    obtain ⟨hlo, hhi⟩ := sub_ceil (h.due config passed).1
    have hlast := binary64_error (binary64 (p + credit binary64 config passed) -
      ⌈binary64 (p + credit binary64 config passed)⌉.toNat)
    rw [abs_of_nonpos hhi, abs_le] at hlast
    rw [abs_le] at hcredit ⊢
    constructor <;> linarith

/-! ## Turns -/

theorem writesDue_cons (config : Config) (p : UInt32) (passed : List UInt32) :
    writesDue config (p :: passed) = writesDue config [p] + writesDue config passed := by
  unfold writesDue
  rw [total_cons]
  simp [total]
  ring

theorem settles_near (config : Config) {p : ℚ} (h : Rest p) (passed : List UInt32) :
    |(settles config p passed).1 + (settles config p passed).2 - (p + writesDue config passed)| ≤
      writesDue config passed / 2 ^ 30 := by
  induction passed generalizing p with
  | nil => simp [settles, writesDue, total]
  | cons passed rest ih =>
    have hturn := settle_near config h passed
    have hlater := ih (settle_rest config h passed)
    rw [writesDue_cons, settles]
    simp only
    rw [abs_le] at hturn hlater ⊢
    push_cast
    constructor <;> linarith

/-! ## Time -/

/-- What the time between two readings is worth, in nanoseconds. -/
def worth (config : Config) (duration : Int) : ℚ := config.writeRate.toNat * duration / 1000000000

/-- Gaps of a millisecond lose less than a thousandth of the time. -/
theorem lost_le {gs : List Int} (h : ∀ gap ∈ gs, 1000000 ≤ gap ∧ gap < 2 ^ 32 * 1000) :
    1000000 * (gs.map lost).sum ≤ 999 * gs.sum := by
  induction gs with
  | nil => simp
  | cons gap gs ih =>
    rw [List.forall_mem_cons] at h
    obtain ⟨⟨hlo, hhi⟩, hrest⟩ := h
    have hlater := ih hrest
    have hlost : lost gap = gap % 1000 := by
      unfold lost
      omega
    rw [List.map_cons, List.sum_cons, List.sum_cons, hlost]
    omega

theorem sum_gaps (prevTime : Int) (ticks : List Tick) : (gaps prevTime ticks).sum = lastTime prevTime ticks - prevTime := by
  induction ticks generalizing prevTime with
  | nil => simp [gaps, lastTime]
  | cons tick ticks ih =>
    rw [gaps, List.sum_cons, ih, lastTime]
    omega

/-- No more time is credited than there is between two readings. -/
theorem writesDue_le (config : Config) {prevTime : Int} {ticks : List Tick} (hsteady : Steady prevTime ticks) :
    writesDue config (passedTimes prevTime ticks) ≤ worth config (lastTime prevTime ticks - prevTime) := by
  have htotal := total_lost hsteady
  have hlost : 0 ≤ ((gaps prevTime ticks).map lost).sum := by
    apply List.sum_nonneg
    intro x hx
    obtain ⟨gap, hg, rfl⟩ := List.mem_map.1 hx
    exact lost_nonneg (gaps_nonneg hsteady gap hg)
  have hle : 1000 * (total (passedTimes prevTime ticks) : Int) ≤ lastTime prevTime ticks - prevTime := by omega
  have hle' : (1000 * total (passedTimes prevTime ticks) : ℚ) ≤ (lastTime prevTime ticks - prevTime : Int) := by
    exact_mod_cast hle
  have hmul := mul_le_mul_of_nonneg_left hle' (show (0 : ℚ) ≤ config.writeRate.toNat from Nat.cast_nonneg _)
  unfold worth writesDue
  linarith

/-- With gaps of a millisecond most of it is credited. -/
theorem le_writesDue (config : Config) {prevTime : Int} {ticks : List Tick} (hsteady : Steady prevTime ticks)
    (hgaps : ∀ gap ∈ gaps prevTime ticks, 1000000 ≤ gap ∧ gap < 2 ^ 32 * 1000) :
    worth config (lastTime prevTime ticks - prevTime) * (1 - 999 / 1000000) ≤
      writesDue config (passedTimes prevTime ticks) := by
  have htotal := total_lost hsteady
  have hlost := lost_le hgaps
  rw [sum_gaps] at hlost
  have hle : (lastTime prevTime ticks - prevTime) * (1000000 - 999) ≤
      1000000 * (1000 * (total (passedTimes prevTime ticks) : Int)) := by omega
  have hle' : ((lastTime prevTime ticks - prevTime : Int) : ℚ) * (1000000 - 999) ≤
      1000000 * (1000 * total (passedTimes prevTime ticks)) := by exact_mod_cast hle
  have hmul := mul_le_mul_of_nonneg_left hle' (show (0 : ℚ) ≤ config.writeRate.toNat from Nat.cast_nonneg _)
  unfold worth writesDue
  linarith

/-! ## Every window -/

section
variable {σ : Type} {next : Supply σ} {config : Config}

/-- What a run makes of the turns in `ticks` is what their time is worth. -/
theorem window_near {fuel : Nat} {ticks : List Tick} {s s' : State σ} (hs : Rest s.pending)
    (hsmall : ∀ passed ∈ passedTimes s.prevTime ticks, credit binary64 config passed ≤ 2 ^ 53)
    (h : Lib.run (iteration binary64 next config fuel) s ticks = .ok s') :
    s.sets.length ≤ s'.sets.length ∧
      |((s'.sets.length : ℚ) - s.sets.length) - writesDue config (passedTimes s.prevTime ticks)| ≤
        1 + writesDue config (passedTimes s.prevTime ticks) / 2 ^ 30 := by
  obtain ⟨hsettles, hle, hs'⟩ := run_settles hs hsmall h
  have hnear := settles_near config hs (passedTimes s.prevTime ticks)
  rw [hsettles, Nat.cast_sub hle] at hnear
  have h1 := hs.ge
  have h2 := hs.le
  have h3 := hs'.ge
  have h4 := hs'.le
  rw [abs_le] at hnear ⊢
  refine ⟨hle, ?_⟩
  constructor <;> linarith

theorem run_prevTime {fuel : Nat} {ticks : List Tick} {s s' : State σ} (hs : Rest s.pending)
    (h : Lib.run (iteration binary64 next config fuel) s ticks = .ok s') :
    Rest s'.pending ∧ s'.prevTime = lastTime s.prevTime ticks := by
  induction ticks generalizing s with
  | nil =>
    cases h
    exact ⟨hs, rfl⟩
  | cons tick ticks ih =>
    cases hi : iteration binary64 next config fuel s tick with
    | error stop => rw [Lib.run_cons_error hi] at h; cases h
    | ok t =>
      rw [Lib.run_cons_ok hi] at h
      obtain ⟨ht, hprev⟩ := iteration_rest hs hi
      obtain ⟨hs', hlast⟩ := ih ht h
      exact ⟨hs', by rw [hlast, hprev, lastTime]⟩

end

theorem steady_append {prevTime : Int} {pre post : List Tick} (h : Steady prevTime (pre ++ post)) :
    Steady prevTime pre ∧ Steady (lastTime prevTime pre) post := by
  induction pre generalizing prevTime with
  | nil => exact ⟨trivial, h⟩
  | cons tick pre ih =>
    obtain ⟨hle, hrest⟩ := h
    obtain ⟨hpre, hpost⟩ := ih hrest
    exact ⟨⟨hle, hpre⟩, hpost⟩

theorem passedTimes_append (prevTime : Int) (pre post : List Tick) :
    passedTimes prevTime (pre ++ post) = passedTimes prevTime pre ++ passedTimes (lastTime prevTime pre) post := by
  induction pre generalizing prevTime with
  | nil => rfl
  | cons tick pre ih => rw [List.cons_append, passedTimes, ih, passedTimes, lastTime, List.cons_append]

/-- What a run leaves for the turns after it. -/
theorem window_ready {σ : Type} {next : Supply σ} {config : Config}
    (hsmall : credit binary64 config (mostPassed config) ≤ 2 ^ 53) {fuel : Nat} {startTime : Int} {random : σ}
    {pre window : List Tick} (hsteady : Steady startTime (pre ++ window))
    (hend : ∀ tick ∈ pre ++ window, tick.currentTime < endTime config startTime) {s : State σ}
    (hs : Lib.run (iteration binary64 next config fuel) (start startTime random) pre = .ok s) :
    Rest s.pending ∧ Steady s.prevTime window ∧
      ∀ passed ∈ passedTimes s.prevTime window, credit binary64 config passed ≤ 2 ^ 53 := by
  obtain ⟨hrest, hprev⟩ := run_prevTime (s := start startTime random) rest_zero hs
  rw [hprev]
  refine ⟨hrest, (steady_append hsteady).2, ?_⟩
  intro passed hp
  have hall := passed_le (le_refl startTime) hsteady hend
  rw [passedTimes_append] at hall
  exact (credit_mono config (hall passed (List.mem_append_right _ hp))).trans hsmall

/-- Turns make no more writes than their time is worth, and one. -/
theorem window_le {σ : Type} {next : Supply σ} {config : Config} {fuel : Nat} {window : List Tick} {s s' : State σ}
    (hrest : Rest s.pending) (hsteady : Steady s.prevTime window)
    (hpassed : ∀ passed ∈ passedTimes s.prevTime window, credit binary64 config passed ≤ 2 ^ 53)
    (h : Lib.run (iteration binary64 next config fuel) s window = .ok s') :
    (s'.sets.length : ℚ) - s.sets.length ≤ (1 + 1 / 2 ^ 30) * worth config (s'.prevTime - s.prevTime) + 1 := by
  obtain ⟨-, hlast⟩ := run_prevTime hrest h
  obtain ⟨-, hnear⟩ := window_near hrest hpassed h
  have hdue := writesDue_le config hsteady
  rw [← hlast] at hdue
  rw [abs_le] at hnear
  linarith

/-- Turns a millisecond or more apart make the writes their time is worth. -/
theorem window_ge {σ : Type} {next : Supply σ} {config : Config} {fuel : Nat} {window : List Tick} {s s' : State σ}
    (hrest : Rest s.pending) (hsteady : Steady s.prevTime window)
    (hpassed : ∀ passed ∈ passedTimes s.prevTime window, credit binary64 config passed ≤ 2 ^ 53)
    (hgaps : ∀ gap ∈ gaps s.prevTime window, 1000000 ≤ gap ∧ gap < 2 ^ 32 * 1000)
    (h : Lib.run (iteration binary64 next config fuel) s window = .ok s') :
    999 / 1000 * worth config (s'.prevTime - s.prevTime) - 1 ≤ (s'.sets.length : ℚ) - s.sets.length := by
  obtain ⟨-, hlast⟩ := run_prevTime hrest h
  obtain ⟨-, hnear⟩ := window_near hrest hpassed h
  have hdue := writesDue_le config hsteady
  have hcredited := le_writesDue config hsteady hgaps
  rw [← hlast] at hdue hcredited
  have hworth : 0 ≤ worth config (s'.prevTime - s.prevTime) := (writesDue_nonneg _ _).trans hdue
  rw [abs_le] at hnear
  linarith

/-- After any turns of a run, any further turns a millisecond or more apart, and
less than 2^32 microseconds, make as many writes as the rate says for the time
they take, up to a thousandth and one write less. -/
theorem steady_rate {σ : Type} (next : Supply σ) (config : Config)
    (hsmall : credit binary64 config (mostPassed config) ≤ 2 ^ 53) (fuel : Nat) (startTime : Int) (random : σ)
    (pre window : List Tick) (hsteady : Steady startTime (pre ++ window))
    (hend : ∀ tick ∈ pre ++ window, tick.currentTime < endTime config startTime) (s s' : State σ)
    (hs : Lib.run (iteration binary64 next config fuel) (start startTime random) pre = .ok s)
    (hs' : Lib.run (iteration binary64 next config fuel) s window = .ok s')
    (hgaps : ∀ gap ∈ gaps s.prevTime window, 1000000 ≤ gap ∧ gap < 2 ^ 32 * 1000) :
    999 / 1000 * worth config (s'.prevTime - s.prevTime) - 1 ≤ (s'.sets.length : ℚ) - s.sets.length ∧
      (s'.sets.length : ℚ) - s.sets.length ≤ (1 + 1 / 2 ^ 30) * worth config (s'.prevTime - s.prevTime) + 1 := by
  obtain ⟨hrest, hwindow, hpassed⟩ := window_ready hsmall hsteady hend hs
  exact ⟨window_ge hrest hwindow hpassed hgaps hs', window_le hrest hwindow hpassed hs'⟩

/-- The second of two turns of a millisecond. -/
theorem steady_rate_second_turn :
    let config : Config := { writeRate := 10000 }
    ∃ N s s', Lib.run (iteration binary64 nextDraw config N) (start 0 fun _ => ⟨7, [1], by simp⟩) [⟨1000000, none, none⟩] =
        .ok s ∧
      Lib.run (iteration binary64 nextDraw config N) s [⟨2000000, none, none⟩] = .ok s' ∧
      999 / 1000 * worth config (s'.prevTime - s.prevTime) - 1 ≤ (s'.sets.length : ℚ) - s.sets.length ∧
        (s'.sets.length : ℚ) - s.sets.length ≤ (1 + 1 / 2 ^ 30) * worth config (s'.prevTime - s.prevTime) + 1 := by
  intro config
  have hrate : config.writeRate = 10000 := rfl
  obtain ⟨N, s', hrun⟩ := loop_ends hrate (fun _ => ⟨7, [1], by simp⟩) 0 [⟨1000000, none, none⟩, ⟨2000000, none, none⟩]
  have hend : ∀ tick ∈ ([⟨1000000, none, none⟩, ⟨2000000, none, none⟩] : List Tick),
      tick.currentTime < endTime config 0 := by decide
  have hloop := hrun N (le_refl N)
  unfold loop at hloop
  rw [turns_eq_self hend] at hloop
  rw [show ([⟨1000000, none, none⟩, ⟨2000000, none, none⟩] : List Tick) =
    [⟨1000000, none, none⟩] ++ [⟨2000000, none, none⟩] from rfl] at hloop
  obtain ⟨s, hs, hs'⟩ := Lib.run_append_ok.1 hloop
  have hprev : s.prevTime = 1000000 := (run_prevTime (s := start 0 _) rest_zero hs).2
  refine ⟨N, s, s', hs, hs', ?_⟩
  apply steady_rate nextDraw config (credit_small hrate _) N 0 _ [⟨1000000, none, none⟩] [⟨2000000, none, none⟩]
    ⟨by decide, by decide, trivial⟩ hend s s' hs hs'
  rw [hprev]
  decide

end JellyBench.SteadyRate
