import JellyBench.Sequence
/-!
# The inner loop in double arithmetic

Taking one off a `double` that is 1 or more is exact up to 2^53, so the inner
loop makes as many writes as are due, rounded up, and only its last subtraction
is rounded. Above 2^53 + 2 a subtraction has no effect, and the loop goes on for
ever. `settles` is what the turns of a run come to, without the loop.
-/
open JellyBench.WriteBenchmark JellyBench.Sequence

namespace JellyBench.Drain

/-! ## Doubles -/

theorem representable_binary64 (x : ℚ) : Lib.Representable 53 (binary64 x) := Lib.roundTo_representable 53 x

theorem binary64_eq_self {x : ℚ} (h : Lib.Representable 53 x) : binary64 x = x := Lib.roundTo_eq_self (by omega) h

theorem binary64_mono {x y : ℚ} (h : x ≤ y) : binary64 x ≤ binary64 y := Lib.roundTo_mono (by omega) h

theorem representable_pow (n : ℕ) : Lib.Representable 53 (2 ^ n) :=
  ⟨1, n, by simp, by norm_num⟩

theorem representable_one : Lib.Representable 53 (1 : ℚ) := by
  have h := representable_pow 0
  rwa [pow_zero] at h

/-- The results of one turn are at least -1. -/
theorem neg_one_le {x : ℚ} (h : -1 ≤ x) : -1 ≤ binary64 x := Lib.le_roundTo (by omega) representable_one.neg h

theorem nonpos {x : ℚ} (h : x ≤ 0) : binary64 x ≤ 0 := by
  have hmono := binary64_mono h
  rwa [show binary64 0 = 0 from Lib.roundTo_zero 53] at hmono

/-- Between these two there is no other `double`. -/
theorem past_gap {x : ℚ} (h : Lib.Representable 53 x) (hx : 2 ^ 53 + 2 < x) : 2 ^ 53 + 4 ≤ x := by
  by_contra hlt
  rw [not_le] at hlt
  have hodd : Lib.roundTo 53 (2 ^ 53 + (2 * 1 + 1 : ℕ)) = _ := Lib.roundTo_odd (by omega) (by norm_num)
  have hnear := Lib.roundTo_nearest (by omega) (2 ^ 53 + (2 * 1 + 1 : ℕ)) h
  rw [hodd] at hnear
  norm_num at hnear
  rw [le_abs] at hnear
  rcases hnear with hnear | hnear <;> linarith

/-! ## One inner loop -/

section
variable {σ : Type} {next : Supply σ}

theorem write_pending {s s' : State σ} (h : write binary64 next s = .ok s') :
    s'.pending = binary64 (s.pending - 1) ∧ s'.sets.length = s.sets.length + 1 := by
  obtain ⟨key, blob, random, -, rfl⟩ := write_ok h
  exact ⟨rfl, by simp [State.sets]⟩

theorem nothing_due {p : ℚ} (h : p ≤ 0) : ⌈p⌉.toNat = 0 := by
  rw [Int.toNat_eq_zero, Int.ceil_le, Int.cast_zero]
  exact h

theorem nothing_left {p : ℚ} (hrep : Lib.Representable 53 p) (h : p ≤ 0) : binary64 (p - ⌈p⌉.toNat) = p := by
  simp [nothing_due h, binary64_eq_self hrep]

/-- What is left of `p` after a write, and the writes there are to come. -/
theorem sub_one_spec {p : ℚ} (hrep : Lib.Representable 53 p) (hpos : 0 < p) (hle : p ≤ 2 ^ 53) :
    ⌈binary64 (p - 1)⌉.toNat + 1 = ⌈p⌉.toNat ∧
      binary64 (binary64 (p - 1) - ⌈binary64 (p - 1)⌉.toNat) = binary64 (p - ⌈p⌉.toNat) := by
  rcases le_or_gt 1 p with h1 | h1
  · -- Nothing is rounded.
    have hceil : 1 ≤ ⌈p⌉ := Int.one_le_ceil_iff.2 hpos
    have hnat : ⌈p⌉.toNat = (⌈p⌉ - 1).toNat + 1 := by omega
    rw [binary64_eq_self (hrep.sub_one h1 hle), Int.ceil_sub_one, hnat]
    refine ⟨rfl, ?_⟩
    push_cast
    congr 1
    ring
  · -- The last write.
    have hceil : ⌈p⌉ = 1 := Int.ceil_eq_iff.2 ⟨by simpa using hpos, by simpa using h1.le⟩
    have hle0 : binary64 (p - 1) ≤ 0 := by
      apply nonpos
      linarith
    rw [nothing_left (representable_binary64 _) hle0, nothing_due hle0, hceil]
    simp

theorem sub_one_le {p : ℚ} (hle : p ≤ 2 ^ 53) : binary64 (p - 1) ≤ 2 ^ 53 := by
  apply Lib.roundTo_le (by omega) (representable_pow 53)
  linarith

/-- As many writes as are pending, rounded up. -/
theorem drain_settles {fuel : Nat} {s s' : State σ} (hrep : Lib.Representable 53 s.pending) (hle : s.pending ≤ 2 ^ 53)
    (h : drain binary64 next fuel s = .ok s') :
    s'.sets.length = s.sets.length + ⌈s.pending⌉.toNat ∧ s'.pending = binary64 (s.pending - ⌈s.pending⌉.toNat) := by
  have hdone : ∀ t : State σ, Lib.Representable 53 t.pending → ¬ 0 < t.pending →
      t.sets.length = t.sets.length + ⌈t.pending⌉.toNat ∧ t.pending = binary64 (t.pending - ⌈t.pending⌉.toNat) := by
    intro t ht hp
    rw [nothing_left ht (not_lt.1 hp), nothing_due (not_lt.1 hp)]
    exact ⟨rfl, rfl⟩
  fun_induction drain binary64 next fuel s with
  | case1 s hp => cases h
  | case2 s hp => cases h; exact hdone _ hrep hp
  | case3 fuel s hp stop hw => cases h
  | case4 fuel s hp t hw ih =>
    obtain ⟨hpending, hsets⟩ := write_pending hw
    obtain ⟨hcount, hleft⟩ := sub_one_spec hrep hp hle
    rw [← hpending] at hcount hleft
    obtain ⟨hs, hp'⟩ := ih (hpending ▸ representable_binary64 _) (hpending ▸ sub_one_le hle) h
    refine ⟨by omega, ?_⟩
    rw [hp', hleft]
  | case5 fuel s hp => cases h; exact hdone _ hrep hp

/-- A supply that never stops. -/
def Endless (next : Supply σ) : Prop := ∀ g, ∃ r, next g = .ok r

theorem Endless.write {next : Supply σ} (h : Endless next) (s : State σ) :
    ∃ s', write binary64 next s = .ok s' := by
  obtain ⟨⟨⟨key, blob⟩, random⟩, hr⟩ := h s.random
  unfold WriteBenchmark.write
  rw [hr]
  exact ⟨_, rfl⟩

/-- One turn for every write due is enough. -/
theorem drain_ok (hnext : Endless next) {n : ℕ} {s : State σ} (hrep : Lib.Representable 53 s.pending)
    (hle : s.pending ≤ 2 ^ 53) (hn : ⌈s.pending⌉.toNat ≤ n) : ∃ s', ∀ fuel ≥ n, drain binary64 next fuel s = .ok s' := by
  induction n generalizing s with
  | zero =>
    have hp : ¬ 0 < s.pending := by
      rw [Nat.le_zero, Int.toNat_eq_zero, Int.ceil_le, Int.cast_zero] at hn
      exact not_lt.2 hn
    refine ⟨s, fun fuel _ => ?_⟩
    cases fuel <;> simp [drain, hp]
  | succ n ih =>
    by_cases hp : 0 < s.pending
    · obtain ⟨t, ht⟩ := hnext.write s
      obtain ⟨hpending, -⟩ := write_pending ht
      obtain ⟨hcount, -⟩ := sub_one_spec hrep hp hle
      rw [← hpending] at hcount
      obtain ⟨s', hs'⟩ := ih (s := t) (hpending ▸ representable_binary64 _) (hpending ▸ sub_one_le hle) (by omega)
      refine ⟨s', fun fuel hf => ?_⟩
      obtain ⟨fuel, rfl⟩ := Nat.exists_eq_add_of_le' (Nat.le_trans (Nat.le_add_left 1 n) hf)
      rw [drain, if_pos hp, ht]
      exact hs' fuel (by omega)
    · refine ⟨s, fun fuel _ => ?_⟩
      cases fuel <;> simp [drain, hp]

/-- The first subtraction above 2^53 rounds to 2^53. -/
theorem drain_ends (hnext : Endless next) {s : State σ} (hrep : Lib.Representable 53 s.pending)
    (hle : s.pending ≤ 2 ^ 53 + 2) : ∃ N s', ∀ fuel ≥ N, drain binary64 next fuel s = .ok s' := by
  rcases le_or_gt s.pending (2 ^ 53) with hle' | hgt
  · obtain ⟨s', hs'⟩ := drain_ok hnext hrep hle' (le_refl _)
    exact ⟨_, s', hs'⟩
  · obtain ⟨t, ht⟩ := hnext.write s
    obtain ⟨hpending, -⟩ := write_pending ht
    have hodd : binary64 (2 ^ 53 + (2 * 0 + 1 : ℕ)) = _ := Lib.roundTo_odd (by omega) (by norm_num)
    have hmono : binary64 (s.pending - 1) ≤ binary64 (2 ^ 53 + (2 * 0 + 1 : ℕ)) := by
      apply binary64_mono
      push_cast
      linarith
    rw [hodd, ← hpending] at hmono
    obtain ⟨s', hs'⟩ := drain_ok hnext (s := t) (hpending ▸ representable_binary64 _) (by simpa using hmono) (le_refl _)
    refine ⟨⌈t.pending⌉.toNat + 1, s', fun fuel hf => ?_⟩
    obtain ⟨fuel, rfl⟩ := Nat.exists_eq_add_of_le' (Nat.le_trans (Nat.le_add_left 1 _) hf)
    rw [drain, if_pos (by linarith), ht]
    exact hs' fuel (by omega)

/-- From 2^53 + 4 on a subtraction has no effect, or takes off less than is left. -/
theorem drain_le {fuel : Nat} {s s' : State σ} (hrep : Lib.Representable 53 s.pending)
    (h : drain binary64 next fuel s = .ok s') : s.pending ≤ 2 ^ 53 + 2 := by
  by_contra hbig
  rw [not_le] at hbig
  fun_induction drain binary64 next fuel s with
  | case1 s hp => cases h
  | case2 s hp => linarith
  | case3 fuel s hp stop hw => cases h
  | case4 fuel s hp t hw ih =>
    obtain ⟨hpending, -⟩ := write_pending hw
    apply ih (hpending ▸ representable_binary64 _) h
    -- 2^53 + 3 is rounded up.
    have hodd : binary64 (2 ^ 53 + (2 * 1 + 1 : ℕ)) = _ := Lib.roundTo_odd (by omega) (by norm_num)
    have hmono : binary64 (2 ^ 53 + (2 * 1 + 1 : ℕ)) ≤ binary64 (s.pending - 1) := by
      have hgap := past_gap hrep hbig
      apply binary64_mono
      push_cast
      linarith
    rw [hodd] at hmono
    rw [hpending]
    norm_num at hmono ⊢
    linarith
  | case5 fuel s hp => linarith

end

/-! ## Turns -/

theorem credit_mono (config : Config) {passed passed' : UInt32} (h : passed ≤ passed') :
    credit binary64 config passed ≤ credit binary64 config passed' := by
  have hcast : (passed.toNat : ℚ) ≤ passed'.toNat := by exact_mod_cast UInt32.le_iff_toNat_le.1 h
  have hrate : 0 ≤ binary64 config.writeRate.toNat :=
    Lib.le_roundTo (by omega) (Lib.representable_natCast (n := 0) (by norm_num)) (by simp)
  unfold credit
  apply binary64_mono
  apply mul_le_mul_of_nonneg_right _ hrate
  apply binary64_mono
  exact div_le_div_of_nonneg_right hcast (by norm_num)

theorem credit_zero (config : Config) : credit binary64 config 0 = 0 := by
  simp [credit, binary64, Lib.roundTo_zero]

theorem credit_nonneg (config : Config) (passed : UInt32) : 0 ≤ credit binary64 config passed := by
  rw [← credit_zero config]
  apply credit_mono
  exact UInt32.le_iff_toNat_le.2 (Nat.zero_le _)

theorem representable_credit (config : Config) (passed : UInt32) :
    Lib.Representable 53 (credit binary64 config passed) := representable_binary64 _

/-- What is pending between two turns. -/
structure Rest (p : ℚ) : Prop where
  rounded : Lib.Representable 53 p
  ge : -1 ≤ p
  le : p ≤ 0

theorem rest_zero : Rest 0 := ⟨Lib.representable_natCast (n := 0) (by norm_num), by norm_num, le_refl 0⟩

section
variable {σ : Type} {next : Supply σ} {config : Config}

/-- What is due at a turn. -/
theorem Rest.due {p : ℚ} (h : Rest p) (config : Config) (passed : UInt32) :
    -1 ≤ binary64 (p + credit binary64 config passed) ∧
      binary64 (p + credit binary64 config passed) ≤ credit binary64 config passed := by
  have hc := credit_nonneg config passed
  have hge := h.ge
  have hle := h.le
  constructor
  · apply neg_one_le
    linarith
  · apply Lib.roundTo_le (by omega) (representable_credit config passed)
    linarith

theorem iteration_ok {fuel : Nat} {s s' : State σ} {tick : Tick} (h : iteration binary64 next config fuel s tick = .ok s') :
    ∃ t, drain binary64 next fuel { s with prevTime := tick.currentTime, pending := due binary64 config s tick } = .ok t ∧
      s'.pending = t.pending ∧ s'.sets = t.sets := by
  unfold iteration at h
  cases hd : drain binary64 next fuel { s with prevTime := tick.currentTime, pending := due binary64 config s tick } with
  | error stop => rw [hd] at h; cases h
  | ok t =>
    rw [hd] at h
    obtain rfl := Except.ok.inj h
    exact ⟨t, rfl, rfl, issued_snoc_update t.calls⟩

theorem iteration_rest {fuel : Nat} {s s' : State σ} {tick : Tick} (hs : Rest s.pending)
    (h : iteration binary64 next config fuel s tick = .ok s') : Rest s'.pending ∧ s'.prevTime = tick.currentTime := by
  obtain ⟨t, hd, hp, -⟩ := iteration_ok h
  have hkeep : ∀ t u : State σ, Lib.Representable 53 t.pending ∧ -1 ≤ t.pending →
      0 < t.pending → write binary64 next t = .ok u → Lib.Representable 53 u.pending ∧ -1 ≤ u.pending := by
    rintro t u - hpos hw
    obtain ⟨hpending, -⟩ := write_pending hw
    rw [hpending]
    refine ⟨representable_binary64 _, neg_one_le ?_⟩
    linarith
  obtain ⟨⟨hrep, hge⟩, hle⟩ := drain_induct hkeep hd ⟨representable_binary64 _, (hs.due config _).1⟩
  rw [hp]
  exact ⟨⟨hrep, hge, hle⟩, iteration_prevTime h⟩

/-! ## When a run ends -/

/-- The most a turn can find has passed. -/
def mostPassed (config : Config) : UInt32 := .ofNat (min (config.writeRunSeconds.toNat * 1000000 - 1) (2 ^ 32 - 1))

theorem toNat_mostPassed (config : Config) :
    (mostPassed config).toNat = min (config.writeRunSeconds.toNat * 1000000 - 1) (2 ^ 32 - 1) := by
  unfold mostPassed
  rw [UInt32.toNat_ofNat', Nat.mod_eq_of_lt]
  omega

theorem passed_le {startTime prevTime : Int} {ticks : List Tick} (hstart : startTime ≤ prevTime)
    (hsteady : Steady prevTime ticks) (hend : ∀ tick ∈ ticks, tick.currentTime < endTime config startTime) :
    ∀ passed ∈ passedTimes prevTime ticks, passed ≤ mostPassed config := by
  induction ticks generalizing prevTime with
  | nil => simp [passedTimes]
  | cons tick ticks ih =>
    obtain ⟨hle, hrest⟩ := hsteady
    have htick := hend tick (by simp)
    rw [passedTimes, List.forall_mem_cons]
    refine ⟨?_, ih (by omega) hrest fun t ht => hend t (by simp [ht])⟩
    have hmicro := toNat_microseconds (tick.currentTime - prevTime)
    rw [Int.tdiv_eq_ediv_of_nonneg (by omega)] at hmicro
    unfold endTime at htick
    rw [UInt32.le_iff_toNat_le, toNat_mostPassed]
    omega

theorem turns_passed_le (config : Config) {startTime : Int} {ticks : List Tick} (hsteady : Steady startTime ticks) :
    ∀ passed ∈ passedTimes startTime (turns config startTime ticks), passed ≤ mostPassed config :=
  passed_le (le_refl _) (steady_turns config hsteady) fun _ ht => lt_of_mem_turns ht

theorem run_ok (hnext : Endless next) {ticks : List Tick} {s : State σ} (hs : Rest s.pending)
    (hpassed : ∀ passed ∈ passedTimes s.prevTime ticks, credit binary64 config passed ≤ 2 ^ 53 + 2) :
    ∃ N s', ∀ fuel ≥ N, Lib.run (iteration binary64 next config fuel) s ticks = .ok s' := by
  induction ticks generalizing s with
  | nil => exact ⟨0, s, fun _ _ => rfl⟩
  | cons tick ticks ih =>
    rw [passedTimes, List.forall_mem_cons] at hpassed
    obtain ⟨hpassed, hrest⟩ := hpassed
    have hdue := (hs.due config (microseconds (tick.currentTime - s.prevTime))).2.trans hpassed
    obtain ⟨N, t, ht⟩ := drain_ends hnext
      (s := { s with prevTime := tick.currentTime, pending := due binary64 config s tick })
      (representable_binary64 _) hdue
    have hi : ∀ fuel ≥ N, iteration binary64 next config fuel s tick =
        .ok (State.sample { t with calls := t.calls ++ [.update] } tick) := by
      intro fuel hf
      unfold iteration
      rw [ht fuel hf]
    obtain ⟨hs', hprev⟩ := iteration_rest hs (hi N (le_refl N))
    obtain ⟨M, s', hs'⟩ := ih hs' (by rw [hprev]; exact hrest)
    refine ⟨max N M, s', fun fuel hf => ?_⟩
    rw [Lib.run_cons_ok (hi fuel (le_trans (le_max_left N M) hf))]
    exact hs' fuel (le_trans (le_max_right N M) hf)

/-- Every run ends, as long as there is something to write. -/
def Ends (config : Config) : Prop :=
  ∀ (σ : Type) (next : Supply σ) (random : σ) (startTime : Int) (ticks : List Tick), Endless next →
    Steady startTime ticks → ∃ N s, ∀ fuel ≥ N, loop binary64 next config fuel startTime random ticks = .ok s

/-- A configuration makes no run go on for ever exactly when the longest turn it
allows is worth 2^53 + 2 writes at most. -/
theorem ends_iff (config : Config) : Ends config ↔ credit binary64 config (mostPassed config) ≤ 2 ^ 53 + 2 := by
  constructor
  · intro h
    by_contra hbig
    -- One turn, as long as it can be.
    have hsecs : config.writeRunSeconds.toNat ≠ 0 := by
      intro h0
      have hmost : mostPassed config = 0 := by
        apply UInt32.toNat_inj.1
        rw [toNat_mostPassed, h0]
        rfl
      rw [hmost, credit_zero] at hbig
      norm_num at hbig
    have hlt : 1000 * ((mostPassed config).toNat : Int) < endTime config 0 := by
      rw [toNat_mostPassed]
      unfold endTime
      omega
    obtain ⟨N, s, hs⟩ := h Unit (fun _ => .ok ((0, [0]), ())) () 0 [⟨1000 * (mostPassed config).toNat, none, none⟩]
      (fun _ => ⟨_, rfl⟩) ⟨by simp, trivial⟩
    have hrun := hs N (le_refl N)
    unfold loop at hrun
    rw [turns_eq_self (by simpa using hlt)] at hrun
    cases hi : iteration binary64 (fun _ : Unit => .ok ((0, [0]), ())) config N (start 0 ())
        ⟨1000 * (mostPassed config).toNat, none, none⟩ with
    | error stop => rw [Lib.run_cons_error hi] at hrun; cases hrun
    | ok m =>
      obtain ⟨t, hd, -⟩ := iteration_ok hi
      have hdue := drain_le (representable_binary64 _) hd
      simp only [due, start, sub_zero, microseconds_mul, zero_add] at hdue
      rw [binary64_eq_self (representable_credit config _)] at hdue
      exact hbig hdue
  · intro hle σ next random startTime ticks hnext hsteady
    apply run_ok hnext rest_zero
    intro passed hp
    exact (credit_mono config (turns_passed_le config hsteady passed hp)).trans hle

/-! ## What the turns come to -/

/-- What a turn leaves pending, and the writes it makes. -/
def settle (config : Config) (p : ℚ) (passed : UInt32) : ℚ × ℕ :=
  let due := binary64 (p + credit binary64 config passed)
  (binary64 (due - ⌈due⌉.toNat), ⌈due⌉.toNat)

/-- What turns leave pending, and the writes they make together. -/
def settles (config : Config) : ℚ → List UInt32 → ℚ × ℕ
  | p, [] => (p, 0)
  | p, passed :: rest =>
    let turn := settle config p passed
    let later := settles config turn.1 rest
    (later.1, turn.2 + later.2)

theorem iteration_settles {fuel : Nat} {s s' : State σ} {tick : Tick} (hs : Rest s.pending)
    (hsmall : credit binary64 config (microseconds (tick.currentTime - s.prevTime)) ≤ 2 ^ 53)
    (h : iteration binary64 next config fuel s tick = .ok s') :
    settle config s.pending (microseconds (tick.currentTime - s.prevTime)) =
      (s'.pending, s'.sets.length - s.sets.length) ∧ s.sets.length ≤ s'.sets.length := by
  obtain ⟨t, hd, hp, hsets⟩ := iteration_ok h
  obtain ⟨hcount, hleft⟩ := drain_settles (representable_binary64 _) ((hs.due config _).2.trans hsmall) hd
  rw [← hp] at hleft
  rw [← hsets] at hcount
  have hstart : State.sets { s with prevTime := tick.currentTime, pending := due binary64 config s tick } = s.sets := rfl
  rw [hstart] at hcount
  refine ⟨Prod.ext hleft.symm ?_, by omega⟩
  show ⌈due binary64 config s tick⌉.toNat = s'.sets.length - s.sets.length
  simp only at hcount
  omega

theorem run_settles {fuel : Nat} {ticks : List Tick} {s s' : State σ} (hs : Rest s.pending)
    (hsmall : ∀ passed ∈ passedTimes s.prevTime ticks, credit binary64 config passed ≤ 2 ^ 53)
    (h : Lib.run (iteration binary64 next config fuel) s ticks = .ok s') :
    settles config s.pending (passedTimes s.prevTime ticks) = (s'.pending, s'.sets.length - s.sets.length) ∧
      s.sets.length ≤ s'.sets.length ∧ Rest s'.pending := by
  induction ticks generalizing s with
  | nil =>
    cases h
    exact ⟨by simp [passedTimes, settles], le_refl _, hs⟩
  | cons tick ticks ih =>
    rw [passedTimes, List.forall_mem_cons] at hsmall
    obtain ⟨hsmall, hrest⟩ := hsmall
    cases hi : iteration binary64 next config fuel s tick with
    | error stop => rw [Lib.run_cons_error hi] at h; cases h
    | ok t =>
      rw [Lib.run_cons_ok hi] at h
      obtain ⟨ht, hprev⟩ := iteration_rest hs hi
      obtain ⟨hturn, hle⟩ := iteration_settles hs hsmall hi
      rw [← hprev] at hrest
      obtain ⟨hlater, hle', hs'⟩ := ih ht hrest h
      refine ⟨?_, hle.trans hle', hs'⟩
      rw [passedTimes, settles, hturn, ← hprev]
      simp only [hlater]
      congr 1
      omega

/-- Where no turn can be worth more than 2^53 writes, the writes of a run and what
it leaves pending depend on the times that pass alone: each turn makes as many
writes as are due by then, rounded up, and they carry the numbers from 0 on. -/
theorem loop_settles {σ : Type} (next : Supply σ) (config : Config)
    (hsmall : credit binary64 config (mostPassed config) ≤ 2 ^ 53) (fuel : Nat) (startTime : Int) (random : σ)
    (ticks : List Tick) (hsteady : Steady startTime ticks) (s : State σ)
    (h : loop binary64 next config fuel startTime random ticks = .ok s) :
    settles config 0 (passedTimes startTime (turns config startTime ticks)) = (s.pending, s.sets.length) ∧
      Rest s.pending ∧ s.sets.map (·.seq) = (List.range s.sets.length).map UInt32.ofNat := by
  obtain ⟨hsettles, -, hrest⟩ := run_settles (s := start startTime random) rest_zero (fun passed hp =>
    (credit_mono config (turns_passed_le config hsteady passed hp)).trans hsmall) h
  exact ⟨hsettles, hrest, (numbered_run h).seqs⟩

end

/-- At the rate `main` sets no turn is worth that many. -/
theorem credit_small {config : Config} (h : config.writeRate = 10000) (passed : UInt32) :
    credit binary64 config passed ≤ 2 ^ 53 := by
  obtain ⟨-, hnear⟩ := credit_near h passed
  have hlt : (passed.toNat : ℚ) ≤ 4294967296 := by exact_mod_cast passed.toNat_lt.le
  rw [abs_le] at hnear
  linarith

/-- Two turns of a millisecond. -/
theorem loop_settles_two_turns :
    let config : Config := { writeRate := 10000 }
    let ticks : List Tick := [⟨1000000, none, none⟩, ⟨2000000, none, none⟩]
    ∃ N s, loop binary64 nextDraw config N 0 (fun _ => ⟨7, [1], by simp⟩) ticks = .ok s ∧
      settles config 0 (passedTimes 0 (turns config 0 ticks)) = (s.pending, s.sets.length) ∧
      Rest s.pending ∧ s.sets.map (·.seq) = (List.range s.sets.length).map UInt32.ofNat := by
  intro config ticks
  have hrate : config.writeRate = 10000 := rfl
  have hsteady : Steady 0 ticks := ⟨by decide, by decide, trivial⟩
  obtain ⟨N, s, hs⟩ := loop_ends hrate (fun _ => ⟨7, [1], by simp⟩) 0 ticks
  have hrun := hs N (le_refl N)
  exact ⟨N, s, hrun, loop_settles nextDraw config (credit_small hrate _) N 0 _ ticks hsteady s hrun⟩

end JellyBench.Drain
