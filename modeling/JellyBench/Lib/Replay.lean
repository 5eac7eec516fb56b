import JellyBench.Lib.Runs
/-!
# A component attached to a step

A step makes calls, and logs them. Attached to a component, it makes them as it
goes, and ends where one of them fails. `Attaches` says that the step attached
is a replay of the calls on the component, and then the step alone; it is kept
when steps are put together, up to whole runs.
-/
namespace Lib

variable {σ β ε κ φ : Type}

/-- `f'` is `f`, with its `calls` made on a component. They are what `f` adds to
`log`, where it gets through. -/
structure Attaches (log : σ → List κ) (call : β → κ → Except φ β) (calls : σ → List κ) (f : σ → Except φ σ)
    (f' : σ × β → Except φ (σ × β)) : Prop where
  logs : ∀ {s s'}, f s = .ok s' → log s' = log s ++ calls s
  replays : ∀ s b, f' (s, b) = match run call b (calls s) with
    | .error x => .error x
    | .ok b' => (f s).map fun s' => (s', b')

/-- One step after the other. -/
def andThen (f g : σ → Except φ σ) (s : σ) : Except φ σ :=
  match f s with
  | .error x => .error x
  | .ok m => g m

/-- The calls of both. -/
def andThenCalls (f : σ → Except φ σ) (calls calls' : σ → List κ) (s : σ) : List κ :=
  calls s ++ match f s with
    | .error _ => []
    | .ok m => calls' m

/-- The calls of a run. -/
def runCalls (step : σ → ε → Except φ σ) (calls : ε → σ → List κ) : List ε → σ → List κ
  | [], _ => []
  | e :: es, s => andThenCalls (fun s => step s e) (calls e) (runCalls step calls es) s

namespace Attaches
variable {log : σ → List κ} {call : β → κ → Except φ β} {calls calls' : σ → List κ} {f g : σ → Except φ σ}
  {f' g' : σ × β → Except φ (σ × β)}

/-- Both get through exactly where the step alone does, and the component gets
through its calls. -/
theorem ok_iff (h : Attaches log call calls f f') {s s' : σ} {b b' : β} :
    f' (s, b) = .ok (s', b') ↔ f s = .ok s' ∧ run call b (calls s) = .ok b' := by
  rw [h.replays]
  cases run call b (calls s) with
  | error x => simp
  | ok b₁ => cases f s <;> simp [Except.map]

/-- A step that makes no call. -/
theorem silent {u : σ → σ} (h : ∀ s, log (u s) = log s) :
    Attaches log call (fun _ => []) (fun s => .ok (u s)) (fun p => .ok (u p.1, p.2)) where
  logs hs := by
    cases hs
    rw [h, List.append_nil]
  replays _ _ := rfl

theorem fail (x : φ) : Attaches log call (fun _ => []) (fun _ => .error x) (fun _ => .error x) where
  logs hs := by cases hs
  replays _ _ := rfl

/-- A step that makes one call, with something drawn before it. -/
theorem one {δ : Type} {d : σ → Except φ δ} {u : σ → δ → σ} {k : σ → δ → κ}
    (h : ∀ s x, log (u s x) = log s ++ [k s x]) :
    Attaches log call
      (fun s => match d s with
        | .error _ => []
        | .ok x => [k s x])
      (fun s => match d s with
        | .error y => .error y
        | .ok x => .ok (u s x))
      (fun p => match d p.1 with
        | .error y => .error y
        | .ok x => match call p.2 (k p.1 x) with
          | .error y => .error y
          | .ok b => .ok (u p.1 x, b)) where
  logs {s s'} hs := by
    cases hd : d s with
    | error y => simp only [hd] at hs; cases hs
    | ok x =>
      simp only [hd] at hs ⊢
      cases hs
      exact h s x
  replays s b := by
    cases hd : d s with
    | error y => rfl
    | ok x =>
      simp only [run]
      cases call b (k s x) <;> rfl

protected theorem andThen (hf : Attaches log call calls f f') (hg : Attaches log call calls' g g') :
    Attaches log call (andThenCalls f calls calls') (andThen f g) (Lib.andThen f' g') where
  logs {s s'} hs := by
    unfold Lib.andThen at hs
    unfold andThenCalls
    cases hm : f s with
    | error x => rw [hm] at hs; cases hs
    | ok m =>
      rw [hm] at hs
      simp only at hs ⊢
      rw [hg.logs hs, hf.logs hm, List.append_assoc]
  replays s b := by
    unfold Lib.andThen andThenCalls
    rw [hf.replays, run_append]
    cases run call b (calls s) with
    | error x => rfl
    | ok b₁ =>
      cases f s with
      | error x => rfl
      | ok m => exact hg.replays m b₁

/-- Which step is made may depend on the state. -/
protected theorem ite {c : σ → Prop} [DecidablePred c] (hf : Attaches log call calls f f')
    (hg : Attaches log call calls' g g') :
    Attaches log call (fun s => if c s then calls s else calls' s) (fun s => if c s then f s else g s)
      (fun p => if c p.1 then f' p else g' p) where
  logs {s s'} hs := by
    by_cases hc : c s
    · simp only [if_pos hc] at hs ⊢
      exact hf.logs hs
    · simp only [if_neg hc] at hs ⊢
      exact hg.logs hs
  replays s b := by
    by_cases hc : c s
    · simp only [if_pos hc]
      exact hf.replays s b
    · simp only [if_neg hc]
      exact hg.replays s b

/-- A run of attached steps is a replay of the calls of the run. -/
protected theorem run {step : σ → ε → Except φ σ} {attached : σ × β → ε → Except φ (σ × β)} {calls : ε → σ → List κ}
    (h : ∀ e, Attaches log call (calls e) (fun s => step s e) fun p => attached p e) (es : List ε) :
    Attaches log call (runCalls step calls es) (fun s => run step s es) fun p => run attached p es := by
  induction es with
  | nil => exact silent fun _ => rfl
  | cons e es ih =>
    have hcons : ∀ {τ : Type} (st : τ → ε → Except φ τ),
        (fun s => Lib.run st s (e :: es)) = Lib.andThen (fun s => st s e) fun s => Lib.run st s es := by
      intro τ st
      funext s
      cases hs : st s e with
      | ok m => rw [run_cons_ok hs, andThen, hs]
      | error x => rw [run_cons_error hs, andThen, hs]
    rw [hcons, hcons]
    exact (h e).andThen ih

end Attaches

end Lib
