import JellyBench.IWriteBackend
import JellyBench.Lib.Replay
/-!
# The benchmark on a backend

`WriteBenchmark` makes its calls on a backend as it goes. The loop of
`WriteBenchmark.lean` only logs them; a run on a backend is a run of that loop
whose calls the backend gets through, whatever the backend is.
-/
open JellyBench.WriteBenchmark

namespace JellyBench.Benchmark

section
variable {σ β : Type} (rnd : ℚ → ℚ) (next : Supply σ) (config : Config) (backend : IWriteBackend β)

/-- The body of the inner loop. -/
def writeOn (p : State σ × β) : Except Stop (State σ × β) :=
  match next p.1.random with
  | .error stop => .error stop
  | .ok ((key, blob), random) =>
    match backend.set p.2 ⟨key, p.1.numWrites, blob, true⟩ with
    | .error stop => .error stop
    | .ok b => .ok ({ p.1 with
        calls := p.1.calls ++ [.set ⟨key, p.1.numWrites, blob, true⟩]
        pending := rnd (p.1.pending - 1)
        numWrites := p.1.numWrites + 1
        random }, b)

/-- The inner loop, for `fuel` turns at most. -/
def drainOn : Nat → State σ × β → Except Stop (State σ × β)
  | 0, p => if 0 < p.1.pending then .error .running else .ok p
  | fuel + 1, p =>
    if 0 < p.1.pending then
      match writeOn rnd next backend p with
      | .error stop => .error stop
      | .ok p => drainOn fuel p
    else .ok p

/-- The body of the outer loop after its check of the clock. -/
def iterationOn (fuel : Nat) (p : State σ × β) (tick : Tick) : Except Stop (State σ × β) :=
  match drainOn rnd next backend fuel
      ({ p.1 with prevTime := tick.currentTime, pending := due rnd config p.1 tick }, p.2) with
  | .error stop => .error stop
  | .ok (s, b) =>
    match backend.update b with
    | .error stop => .error stop
    | .ok b => .ok (State.sample { s with calls := s.calls ++ [.update] } tick, b)

/-- The outer loop. -/
def loopOn (fuel : Nat) (startTime : Int) (random : σ) (ticks : List Tick) (b : β) : Except Stop (State σ × β) :=
  Lib.run (iterationOn rnd next config backend fuel) (start startTime random, b) (turns config startTime ticks)

end

/-- `WriteBenchmark` on a backend. -/
def writeBenchmarkOn {β : Type} (distribution : UniformInt) (config : Config) (backend : IWriteBackend β) (fuel : Nat)
    (startTime : Int) (random : Random) (ticks : List Tick) (b : β) : Except Stop (State Random × β) :=
  match RandomBlobCache.init distribution config random with
  | .error stop => .error stop
  | .ok (cache, random) =>
    loopOn binary64 (nextWrite distribution config cache) config backend fuel startTime random ticks b

/-! ## The calls

What the loop by itself calls until it ends, or stops. -/

section
variable {σ : Type} (rnd : ℚ → ℚ) (next : Supply σ) (config : Config)

def writeCalls (s : State σ) : List BackendCall :=
  match next s.random with
  | .error _ => []
  | .ok ((key, blob), _) => [.set ⟨key, s.numWrites, blob, true⟩]

def drainCalls : Nat → State σ → List BackendCall
  | 0, _ => []
  | fuel + 1, s =>
    if 0 < s.pending then Lib.andThenCalls (write rnd next) (writeCalls next) (drainCalls fuel) s else []

def iterationCalls (fuel : Nat) (tick : Tick) (s : State σ) : List BackendCall :=
  Lib.andThenCalls (drain rnd next fuel) (drainCalls rnd next fuel) (fun _ => [.update])
    { s with prevTime := tick.currentTime, pending := due rnd config s tick }

def loopCalls (fuel : Nat) (startTime : Int) (random : σ) (ticks : List Tick) : List BackendCall :=
  Lib.runCalls (iteration rnd next config fuel) (iterationCalls rnd next config fuel) (turns config startTime ticks)
    (start startTime random)

end

section
variable {σ β : Type} {rnd : ℚ → ℚ} {next : Supply σ} {config : Config} {backend : IWriteBackend β}

theorem writeOn_attaches :
    Lib.Attaches State.calls backend.call (writeCalls next) (write (σ := σ) rnd next) (writeOn rnd next backend) := by
  have hone : Lib.Attaches State.calls backend.call _ _ _ := Lib.Attaches.one (d := fun s : State σ => next s.random)
    (u := fun s r => { s with
      calls := s.calls ++ [.set ⟨r.1.1, s.numWrites, r.1.2, true⟩]
      pending := rnd (s.pending - 1)
      numWrites := s.numWrites + 1
      random := r.2 }) (k := fun s r => .set ⟨r.1.1, s.numWrites, r.1.2, true⟩) fun _ _ => rfl
  convert hone using 1
  · funext s
    unfold writeCalls
    cases next s.random <;> rfl
  · funext s
    unfold write
    cases next s.random <;> rfl
  · funext p
    unfold writeOn
    cases next p.1.random with
    | error stop => rfl
    | ok r => cases hb : backend.set p.2 ⟨r.1.1, p.1.numWrites, r.1.2, true⟩ <;> simp [hb, IWriteBackend.call]

theorem drainOn_attaches (fuel : Nat) : Lib.Attaches State.calls backend.call (drainCalls rnd next fuel)
    (drain (σ := σ) rnd next fuel) (drainOn rnd next backend fuel) := by
  have hdone : Lib.Attaches State.calls backend.call (fun _ => []) (fun s : State σ => .ok s) (fun p => .ok p) :=
    Lib.Attaches.silent (u := fun s => s) fun _ => rfl
  induction fuel with
  | zero =>
    have hstop : Lib.Attaches State.calls backend.call (fun _ => []) (fun _ : State σ => .error .running)
        fun _ => .error .running :=
      Lib.Attaches.fail Stop.running
    convert hstop.ite (c := fun s : State σ => 0 < s.pending) hdone using 1
    · funext s
      exact (ite_self []).symm
    · rfl
    · rfl
  | succ fuel ih =>
    convert (writeOn_attaches.andThen ih).ite (c := fun s : State σ => 0 < s.pending) hdone using 1
    · rfl
    · funext s
      rw [drain, Lib.andThen]
      cases write rnd next s <;> rfl
    · funext p
      rw [drainOn, Lib.andThen]
      cases writeOn rnd next backend p <;> rfl

theorem iterationOn_attaches (fuel : Nat) (tick : Tick) :
    Lib.Attaches State.calls backend.call (iterationCalls rnd next config fuel tick)
      (fun s : State σ => iteration rnd next config fuel s tick)
      fun p => iterationOn rnd next config backend fuel p tick := by
  have hclock : Lib.Attaches State.calls backend.call _ _ _ := Lib.Attaches.silent
    (u := fun s : State σ => { s with prevTime := tick.currentTime, pending := due rnd config s tick }) fun _ => rfl
  have hdrain : Lib.Attaches State.calls backend.call _ (drain rnd next fuel) _ := drainOn_attaches fuel
  have hupdate : Lib.Attaches State.calls backend.call _ _ _ := Lib.Attaches.one (d := fun _ : State σ => .ok ())
    (u := fun s _ => State.sample { s with calls := s.calls ++ [.update] } tick) (k := fun _ _ => .update) fun _ _ => rfl
  convert hclock.andThen (hdrain.andThen hupdate) using 1
  · funext s
    simp only [iterationCalls, Lib.andThenCalls, List.nil_append]
  · funext s
    simp only [iteration, Lib.andThen]
    cases drain rnd next fuel { s with prevTime := tick.currentTime, pending := due rnd config s tick } <;> rfl
  · funext p
    simp only [iterationOn, Lib.andThen]
    cases drainOn rnd next backend fuel
        ({ p.1 with prevTime := tick.currentTime, pending := due rnd config p.1 tick }, p.2) with
    | error stop => rfl
    | ok q => cases hb : backend.update q.2 <;> simp [hb, IWriteBackend.call]

theorem loopOn_attaches (fuel : Nat) (startTime : Int) (ticks : List Tick) :
    Lib.Attaches State.calls backend.call
      (Lib.runCalls (iteration rnd next config fuel) (iterationCalls rnd next config fuel) (turns config startTime ticks))
      (fun s : State σ => Lib.run (iteration rnd next config fuel) s (turns config startTime ticks))
      fun p => Lib.run (iterationOn rnd next config backend fuel) p (turns config startTime ticks) :=
  Lib.Attaches.run (iterationOn_attaches fuel) _

/-- A loop that ends has logged its calls. -/
theorem loop_calls {fuel : Nat} {startTime : Int} {random : σ} {ticks : List Tick} {s : State σ}
    (h : loop rnd next config fuel startTime random ticks = .ok s) :
    s.calls = loopCalls rnd next config fuel startTime random ticks := by
  -- The log is the same on any backend.
  have hany : Lib.Attaches State.calls (IWriteBackend.call ⟨fun b : Unit => .ok b, fun b _ => .ok b, fun _ => 0⟩) _
      (fun s : State σ => Lib.run (iteration rnd next config fuel) s (turns config startTime ticks)) _ :=
    loopOn_attaches fuel startTime ticks
  exact hany.logs h

theorem loopOn_ok_iff {fuel : Nat} {startTime : Int} {random : σ} {ticks : List Tick} {b b' : β} {s : State σ} :
    loopOn rnd next config backend fuel startTime random ticks b = .ok (s, b') ↔
      loop rnd next config fuel startTime random ticks = .ok s ∧ Lib.run backend.call b s.calls = .ok b' := by
  unfold loopOn
  rw [(loopOn_attaches fuel startTime ticks).ok_iff]
  apply and_congr_right
  intro hs
  rw [loop_calls hs]
  rfl

end

section
variable {β : Type} {distribution : UniformInt} {config : Config} {backend : IWriteBackend β} {fuel : Nat}
  {startTime : Int} {random : Random} {ticks : List Tick} {b b' : β} {s : State Random}

theorem writeBenchmarkOn_ok_iff :
    writeBenchmarkOn distribution config backend fuel startTime random ticks b = .ok (s, b') ↔
      writeBenchmark distribution config fuel startTime random ticks = .ok s ∧
        Lib.run backend.call b s.calls = .ok b' := by
  rw [writeBenchmark_eq, writeBenchmarkOn]
  cases RandomBlobCache.init distribution config random with
  | error stop => simp
  | ok r => exact loopOn_ok_iff

end

end JellyBench.Benchmark
