import JellyBench.WriteBenchmark
/-!
# Credited time

A turn credits the whole microseconds since the reading before it, modulo 2^32,
and the next turn starts from the reading itself: what a gap loses is not made
up for later. The credited time is right as long as the losses add up to less
than a microsecond.
-/
open JellyBench.WriteBenchmark

namespace JellyBench.Elapsed

/-! ## Gaps -/

/-- The times from one reading to the next, in nanoseconds. -/
def gaps (prevTime : Int) : List Tick → List Int
  | [] => []
  | tick :: ticks => (tick.currentTime - prevTime) :: gaps tick.currentTime ticks

/-- The last reading. -/
def lastTime (prevTime : Int) : List Tick → Int
  | [] => prevTime
  | tick :: ticks => lastTime tick.currentTime ticks

/-- What a gap loses: the part below a microsecond, and whole wraps. -/
def lost (gap : Int) : Int := gap % 1000 + 2 ^ 32 * 1000 * (gap / (2 ^ 32 * 1000))

theorem gaps_nonneg {prevTime : Int} {ticks : List Tick} (h : Steady prevTime ticks) :
    ∀ gap ∈ gaps prevTime ticks, 0 ≤ gap := by
  induction ticks generalizing prevTime with
  | nil => simp [gaps]
  | cons tick ticks ih =>
    obtain ⟨hle, hrest⟩ := h
    exact List.forall_mem_cons.2 ⟨by omega, ih hrest⟩

theorem microseconds_lost {gap : Int} (h : 0 ≤ gap) : 1000 * ((microseconds gap).toNat : Int) = gap - lost gap := by
  rw [toNat_microseconds, Int.tdiv_eq_ediv_of_nonneg h]
  unfold lost
  omega

theorem lost_nonneg {gap : Int} (h : 0 ≤ gap) : 0 ≤ lost gap := by
  unfold lost
  omega

/-- A wrap alone is more than a microsecond. -/
theorem short_of_lost {gap : Int} (hl : lost gap < 1000) : gap < 2 ^ 32 * 1000 := by
  unfold lost at hl
  omega

/-- What is credited and what is lost is the time that has passed. -/
theorem total_lost {prevTime : Int} {ticks : List Tick} (h : Steady prevTime ticks) :
    1000 * (total (passedTimes prevTime ticks) : Int) + ((gaps prevTime ticks).map lost).sum =
      lastTime prevTime ticks - prevTime := by
  induction ticks generalizing prevTime with
  | nil => simp [passedTimes, gaps, lastTime, total]
  | cons tick ticks ih =>
    obtain ⟨hle, hrest⟩ := h
    have hgap := microseconds_lost (show 0 ≤ tick.currentTime - prevTime by omega)
    have hsum := ih hrest
    rw [passedTimes, total_cons, gaps, List.map_cons, List.sum_cons, lastTime]
    push_cast
    omega

/-! ## When no time is lost -/

/-- The time credited is the time that has passed, less than a microsecond off. -/
def Credited (startTime : Int) (ticks : List Tick) : Prop :=
  |(total (passedTimes startTime ticks) : ℚ) - ((lastTime startTime ticks - startTime : Int) : ℚ) / 1000| < 1

/-- No gap wraps, and the parts below a microsecond make up less than one. -/
structure Kept (gs : List Int) : Prop where
  short : ∀ gap ∈ gs, gap < 2 ^ 32 * 1000
  remainders : (gs.map fun gap => gap % 1000).sum < 1000

theorem kept_iff {gs : List Int} (h : ∀ gap ∈ gs, 0 ≤ gap) : Kept gs ↔ (gs.map lost).sum < 1000 := by
  have hsame : (∀ gap ∈ gs, gap < 2 ^ 32 * 1000) → gs.map lost = gs.map fun gap => gap % 1000 := by
    intro hshort
    apply List.map_congr_left
    intro gap hg
    have hpos := h gap hg
    have hlt := hshort gap hg
    unfold lost
    omega
  constructor
  · rintro ⟨hshort, hsum⟩
    rw [hsame hshort]
    exact hsum
  · intro hsum
    have hshort : ∀ gap ∈ gs, gap < 2 ^ 32 * 1000 := by
      intro gap hg
      have hle : lost gap ≤ (gs.map lost).sum := by
        apply List.single_le_sum
        · intro x hx
          obtain ⟨gap', hg', rfl⟩ := List.mem_map.1 hx
          exact lost_nonneg (h gap' hg')
        · exact List.mem_map_of_mem hg
      exact short_of_lost (lt_of_le_of_lt hle hsum)
    exact ⟨hshort, by rw [← hsame hshort]; exact hsum⟩

theorem credited_iff_lost {startTime : Int} {ticks : List Tick} (h : Steady startTime ticks) :
    Credited startTime ticks ↔ ((gaps startTime ticks).map lost).sum < 1000 := by
  have hnonneg : 0 ≤ ((gaps startTime ticks).map lost).sum := by
    apply List.sum_nonneg
    intro x hx
    obtain ⟨gap, hg, rfl⟩ := List.mem_map.1 hx
    exact lost_nonneg (gaps_nonneg h gap hg)
  have hoff : (total (passedTimes startTime ticks) : ℚ) - ((lastTime startTime ticks - startTime : Int) : ℚ) / 1000 =
      -(((gaps startTime ticks).map lost).sum / 1000) := by
    rw [← total_lost h]
    push_cast
    ring
  unfold Credited
  rw [hoff, abs_neg, abs_of_nonneg (by positivity), div_lt_one (by norm_num)]
  exact_mod_cast Iff.rfl

/-! ## The loop -/

section
variable {σ : Type} (rnd : ℚ → ℚ) (next : Supply σ) (config : Config)

/-- `passed`, in a turn: the time whose credit `due` adds. -/
def passed (s : State σ) (tick : Tick) : UInt32 := microseconds (tick.currentTime - s.prevTime)

/-- The values `passed` has in the turns of a run, up to the turn it stops in. -/
def passedAlong (fuel : Nat) : State σ → List Tick → List UInt32
  | _, [] => []
  | s, tick :: ticks => passed s tick ::
    match iteration rnd next config fuel s tick with
    | .error _ => []
    | .ok s' => passedAlong fuel s' ticks

variable {rnd next config}

theorem passedAlong_le (fuel : Nat) (s : State σ) (ticks : List Tick) :
    passedAlong rnd next config fuel s ticks <+: passedTimes s.prevTime ticks := by
  induction ticks generalizing s with
  | nil => exact List.prefix_refl _
  | cons tick ticks ih =>
    refine List.cons_prefix_cons.2 ⟨rfl, ?_⟩
    cases hi : iteration rnd next config fuel s tick with
    | error stop => exact List.nil_prefix
    | ok t =>
      rw [← iteration_prevTime hi]
      exact ih t

/-- In a run that ends no turn is left out. -/
theorem passedAlong_run {fuel : Nat} {s s' : State σ} {ticks : List Tick}
    (h : Lib.run (iteration rnd next config fuel) s ticks = .ok s') :
    passedAlong rnd next config fuel s ticks = passedTimes s.prevTime ticks := by
  induction ticks generalizing s with
  | nil => rfl
  | cons tick ticks ih =>
    cases hi : iteration rnd next config fuel s tick with
    | error stop => rw [Lib.run_cons_error hi] at h; cases h
    | ok t =>
      rw [Lib.run_cons_ok hi] at h
      simp only [passedAlong, passedTimes, passed, hi, ih h, iteration_prevTime hi]

end

/-- The loop credits the time that passes until a reading exactly when no gap
before it was too long, and the remainders of the gaps are less than a
microsecond together. The values it computes for `passed` are those credited, or
the first of them where it stops. -/
theorem credited_iff (config : Config) (startTime : Int) (ticks : List Tick) (h : Steady startTime ticks) :
    (Credited startTime (turns config startTime ticks) ↔ Kept (gaps startTime (turns config startTime ticks))) ∧
    ∀ {σ : Type} (rnd : ℚ → ℚ) (next : Supply σ) (fuel : Nat) (random : σ),
      passedAlong rnd next config fuel (start startTime random) (turns config startTime ticks) <+:
        passedTimes startTime (turns config startTime ticks) ∧
      ∀ s, loop rnd next config fuel startTime random ticks = .ok s →
        passedAlong rnd next config fuel (start startTime random) (turns config startTime ticks) =
          passedTimes startTime (turns config startTime ticks) := by
  have hs : Steady startTime (turns config startTime ticks) := steady_turns config h
  refine ⟨?_, fun rnd next fuel random => ⟨passedAlong_le _ _ _, fun s hloop => passedAlong_run hloop⟩⟩
  rw [credited_iff_lost hs, kept_iff (gaps_nonneg hs)]

/-- Two gaps of 1000.4 and 1000.5 microseconds, and nothing to write. -/
theorem credited_iff_two_readings :
    Credited 0 (turns { writeRate := 0 } 0 [⟨1000400, none, none⟩, ⟨2000900, none, none⟩]) ∧
      passedAlong id (fun _ : Unit => .error .running) { writeRate := 0 } 0 (start 0 ())
          (turns { writeRate := 0 } 0 [⟨1000400, none, none⟩, ⟨2000900, none, none⟩]) =
        passedTimes 0 (turns { writeRate := 0 } 0 [⟨1000400, none, none⟩, ⟨2000900, none, none⟩]) := by
  have hloop : loop id (fun _ : Unit => .error .running) { writeRate := 0 } 0 0 ()
      [⟨1000400, none, none⟩, ⟨2000900, none, none⟩] = .ok ⟨0, 2000900, 0, 0, 0, (), [.update, .update]⟩ := by
    simp [loop, turns, endTime, Lib.run, iteration, drain, due, credit, start, State.sample]
  obtain ⟨hiff, hpassed⟩ := credited_iff { writeRate := 0 } 0 [⟨1000400, none, none⟩, ⟨2000900, none, none⟩]
    ⟨by decide, by decide, trivial⟩
  exact ⟨hiff.2 ⟨by decide, by decide⟩, (hpassed _ _ _ _).2 _ hloop⟩

/-- Two gaps of 1000.5 microseconds: 2000 of 2001 microseconds are credited. -/
theorem half_microseconds_lost : ¬ ∀ (config : Config) (startTime : Int) (ticks : List Tick), Steady startTime ticks →
    Credited startTime (turns config startTime ticks) := by
  intro h
  have hs : Steady 0 [⟨1000500, none, none⟩, ⟨2001000, none, none⟩] := ⟨by decide, by decide, trivial⟩
  have hc := h {} 0 _ hs
  rw [credited_iff_lost (steady_turns {} hs)] at hc
  exact absurd hc (by decide)

end JellyBench.Elapsed
