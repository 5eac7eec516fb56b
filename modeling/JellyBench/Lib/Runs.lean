import Mathlib.Data.List.Induction
/-!
# Runs of a fallible step

A run feeds events to a step, one at a time, and ends at the first step that
fails. A state may be judged against the events that led to it, so the induction
rule `run_history` carries the history along.
-/
namespace Lib

variable {σ ε φ : Type}

/-- Feed the events to `step` from `s`, ending at the first failure. -/
def run (step : σ → ε → Except φ σ) : σ → List ε → Except φ σ
  | s, [] => .ok s
  | s, e :: es =>
    match step s e with
    | .ok s' => run step s' es
    | .error x => .error x

section Run
variable {step : σ → ε → Except φ σ}

@[simp] theorem run_nil (s : σ) : run step s [] = .ok s := rfl

theorem run_cons_ok {s s' : σ} {e : ε} (h : step s e = .ok s') (es : List ε) :
    run step s (e :: es) = run step s' es := by
  simp only [run, h]

theorem run_cons_error {s : σ} {e : ε} {x : φ} (h : step s e = .error x) (es : List ε) :
    run step s (e :: es) = .error x := by
  simp only [run, h]

/-- A run that succeeds succeeds on every prefix, and goes on from there. -/
theorem run_append_ok {s s' : σ} {es es' : List ε} :
    run step s (es ++ es') = .ok s' ↔ ∃ m, run step s es = .ok m ∧ run step m es' = .ok s' := by
  induction es generalizing s with
  | nil => simp
  | cons e es ih =>
    cases h : step s e with
    | ok m => simp only [List.cons_append, run_cons_ok h, ih]
    | error x => simp [run_cons_error h]

theorem run_snoc_ok {s s' : σ} {es : List ε} {e : ε} :
    run step s (es ++ [e]) = .ok s' ↔ ∃ m, run step s es = .ok m ∧ step m e = .ok s' := by
  rw [run_append_ok]
  refine exists_congr fun m => and_congr_right fun _ => ?_
  cases h : step m e with
  | ok m' => rw [run_cons_ok h, run_nil]
  | error x => rw [run_cons_error h]

/-- After a prefix that succeeds, a run is the run of the rest. -/
theorem run_append_of_ok {s m : σ} {es : List ε} (h : run step s es = .ok m) (es' : List ε) :
    run step s (es ++ es') = run step m es' := by
  induction es generalizing s with
  | nil => simp only [run_nil, Except.ok.injEq] at h; rw [h, List.nil_append]
  | cons e es ih =>
    cases hs : step s e with
    | ok s' =>
      rw [run_cons_ok hs] at h
      rw [List.cons_append, run_cons_ok hs, ih h]
    | error x => simp [run_cons_error hs] at h

/-- A run of some events and then others. -/
theorem run_append (s : σ) (es es' : List ε) :
    run step s (es ++ es') = match run step s es with
      | .ok m => run step m es'
      | .error x => .error x := by
  cases h : run step s es with
  | ok m => exact run_append_of_ok h es'
  | error x =>
    induction es generalizing s with
    | nil => cases h
    | cons e es ih =>
      cases hs : step s e with
      | ok m =>
        rw [run_cons_ok hs] at h
        rw [List.cons_append, run_cons_ok hs, ih m h]
      | error y =>
        rw [run_cons_error hs] at h
        rw [List.cons_append, run_cons_error hs, h]

/-- A run that fails does so at one event, after a prefix that succeeds. -/
theorem run_error {s : σ} {es : List ε} {x : φ} (h : run step s es = .error x) :
    ∃ pre e post m, es = pre ++ e :: post ∧ run step s pre = .ok m ∧ step m e = .error x := by
  induction es generalizing s with
  | nil => cases h
  | cons e es ih =>
    cases hs : step s e with
    | ok s' =>
      rw [run_cons_ok hs] at h
      obtain ⟨pre, e', post, m, rfl, hpre, hm⟩ := ih h
      exact ⟨e :: pre, e', post, m, rfl, by rw [run_cons_ok hs, hpre], hm⟩
    | error y =>
      rw [run_cons_error hs] at h
      exact ⟨[], e, es, s, rfl, rfl, hs.trans h⟩

/-- Failures may be renamed. -/
theorem run_mapError {ψ : Type} (f : φ → ψ) (s : σ) (es : List ε) :
    run (fun s e => (step s e).mapError f) s es = (run step s es).mapError f := by
  induction es generalizing s with
  | nil => rfl
  | cons e es ih =>
    cases hs : step s e with
    | ok m => rw [run_cons_ok hs, ← ih, run_cons_ok (by rw [hs]; rfl)]
    | error x =>
      rw [run_cons_error hs, run_cons_error (by rw [hs]; rfl)]
      rfl

/-- Where a step is one of another system, whose state is `f` of the state, so are
both runs. -/
theorem run_cons_map {τ δ : Type} {step' : τ → δ → Except φ τ} {f : σ → τ} {g : τ → σ} {s : σ} {e : ε} {d : δ} {es : List ε}
    {ds : List δ} (h : step s e = (step' (f s) d).map g)
    (hrest : ∀ t, (run step (g t) es).map f = run step' t ds) :
    (run step s (e :: es)).map f = run step' (f s) (d :: ds) := by
  cases hd : step' (f s) d with
  | error x =>
    rw [hd] at h
    rw [run_cons_error h, run_cons_error hd]
    rfl
  | ok t =>
    rw [hd] at h
    rw [run_cons_ok h, run_cons_ok hd]
    exact hrest t

/-- A relation between the events so far and the state, kept by every step that
succeeds, holds at the end of every run that succeeds. -/
theorem run_history (I : List ε → σ → Prop) {s₀ : σ} (h0 : I [] s₀)
    (hstep : ∀ es s e s', I es s → step s e = .ok s' → I (es ++ [e]) s') {es : List ε} {s : σ}
    (h : run step s₀ es = .ok s) : I es s := by
  induction es using List.reverseRecOn generalizing s with
  | nil => simp only [run_nil, Except.ok.injEq] at h; exact h ▸ h0
  | append_singleton es e ih =>
    obtain ⟨m, hm, hs⟩ := run_snoc_ok.1 h
    exact hstep es m e s (ih hm) hs

end Run

end Lib
