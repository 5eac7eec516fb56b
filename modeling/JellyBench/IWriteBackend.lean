import JellyBench.JellyWrite
import JellyBench.Report
import JellyBench.RocksDBBlobNode
import JellyBench.SQLiteBlobNode
/-!
# The write backends

`IWriteBackend` is what the benchmark calls. `SQLiteWrite` and `RocksDBWrite` are
the same class over two blob nodes: `Set` goes to the node, and `Update` flushes
it when a timer has expired. A timer is the results it has still to give.
-/
open JellyBench.WriteBenchmark

namespace JellyBench

/-- The virtual functions of a backend whose state is a `β`, and
`GetLogicalWriteBytes`. -/
structure IWriteBackend (β : Type) where
  update : β → Except Stop β
  set : β → SetCall → Except Stop β
  logicalWriteBytes : β → UInt64

def IWriteBackend.call {β : Type} (backend : IWriteBackend β) (b : β) : BackendCall → Except Stop β
  | .set c => backend.set b c
  | .update => backend.update b

/-- `jelly::Timer`, as the results of `HasExpired` to come. -/
abbrev Timer := Nat → Bool

def Timer.next (timer : Timer) : Timer := fun n => timer (n + 1)

/-! ## SQLite and RocksDB -/

/-- The members of `SQLiteWrite` and `RocksDBWrite`, over a node of type `ν`. -/
structure FlushingWrite (ν : Type) where
  flushTimer : Timer
  blobNode : ν
  logicalWriteBytes : UInt64

namespace FlushingWrite

def init {ν : Type} (flushTimer : Timer) (blobNode : ν) : FlushingWrite ν := ⟨flushTimer, blobNode, 0⟩

section
variable {ν : Type} (call : ν → NodeCall → Except Stop ν)

def update (b : FlushingWrite ν) : Except Stop (FlushingWrite ν) :=
  if b.flushTimer 0 then do
    let blobNode ← call b.blobNode .flush
    pure { b with flushTimer := b.flushTimer.next, blobNode }
  else .ok { b with flushTimer := b.flushTimer.next }

def set (b : FlushingWrite ν) (c : SetCall) : Except Stop (FlushingWrite ν) := do
  let blobNode ← call b.blobNode (.set c)
  pure { b with blobNode, logicalWriteBytes := b.logicalWriteBytes + .ofNat c.blob.length }

def backend : IWriteBackend (FlushingWrite ν) := ⟨update call, set call, logicalWriteBytes⟩

end

end FlushingWrite

abbrev SQLiteWrite := FlushingWrite SQLiteBlobNode

def SQLiteWrite.init (flushTimer : Timer) : SQLiteWrite := FlushingWrite.init flushTimer SQLiteBlobNode.init

def SQLiteWrite.backend (L : SQLite.Limits) : IWriteBackend SQLiteWrite := FlushingWrite.backend (SQLiteBlobNode.call L)

abbrev RocksDBWrite := FlushingWrite RocksDB.Columns

def RocksDBWrite.init (flushTimer : Timer) : RocksDBWrite := FlushingWrite.init flushTimer RocksDB.empty

def RocksDBWrite.backend : IWriteBackend RocksDBWrite :=
  FlushingWrite.backend fun db c => (RocksDBBlobNode.call db c).mapError RocksDBBlobNode.Halt.stop

/-! ## Jelly -/

/-- `JellyWrite`, and what comes from outside in each `Update` to come: the
requests the node completes if the timer has expired, and the advisor's events. -/
structure HostedJelly where
  jelly : JellyWrite
  updates : Nat → Option (Addr → Bool) × List JellyWrite.Event

namespace HostedJelly

def init (updates : Nat → Option (Addr → Bool) × List JellyWrite.Event) : HostedJelly := ⟨JellyWrite.init, updates⟩

def update (b : HostedJelly) : Except Stop HostedJelly := do
  let jelly ← b.jelly.update (b.updates 0).1 (b.updates 0).2
  pure ⟨jelly, fun n => b.updates (n + 1)⟩

def set (b : HostedJelly) (c : SetCall) : Except Stop HostedJelly := do
  let jelly ← b.jelly.set c
  pure { b with jelly }

def backend : IWriteBackend HostedJelly := ⟨update, set, fun b => b.jelly.logicalWriteBytes⟩

end HostedJelly

/-! ## What the node is called with -/

/-- The calls of the node, for the calls of its backend. -/
def nodeCalls : Timer → List BackendCall → List NodeCall
  | _, [] => []
  | timer, .set c :: calls => .set c :: nodeCalls timer calls
  | timer, .update :: calls =>
    if timer 0 then .flush :: nodeCalls timer.next calls else nodeCalls timer.next calls

@[simp] theorem sets_cons_set (calls : List NodeCall) (c : SetCall) : sets (.set c :: calls) = c :: sets calls := rfl

@[simp] theorem sets_cons_flush (calls : List NodeCall) : sets (.flush :: calls) = sets calls := rfl

@[simp] theorem sets_nodeCalls (timer : Timer) (calls : List BackendCall) :
    sets (nodeCalls timer calls) = issued calls := by
  induction calls generalizing timer with
  | nil => rfl
  | cons call calls ih =>
    cases call with
    | set c => exact congrArg (List.cons c) (ih timer)
    | update =>
      rw [nodeCalls]
      split
      · exact ih timer.next
      · exact ih timer.next

namespace FlushingWrite

section
variable {ν : Type} {call : ν → NodeCall → Except Stop ν}

theorem call_set (b : FlushingWrite ν) (c : SetCall) :
    (backend call).call b (.set c) = (call b.blobNode (.set c)).map fun node =>
      { b with blobNode := node, logicalWriteBytes := b.logicalWriteBytes + .ofNat c.blob.length } := by
  change b.set call c = _
  unfold set
  cases call b.blobNode (.set c) <;> rfl

theorem call_update (b : FlushingWrite ν) :
    (backend call).call b .update =
      if b.flushTimer 0 then (call b.blobNode .flush).map fun node =>
        { b with flushTimer := b.flushTimer.next, blobNode := node }
      else .ok { b with flushTimer := b.flushTimer.next } := by
  change b.update call = _
  unfold update
  split
  · cases call b.blobNode .flush <;> rfl
  · rfl

/-- The backend gets as far as its node does, and has the node the calls leave. -/
theorem run_node (b : FlushingWrite ν) (calls : List BackendCall) :
    (Lib.run (backend call).call b calls).map blobNode = Lib.run call b.blobNode (nodeCalls b.flushTimer calls) := by
  induction calls generalizing b with
  | nil => rfl
  | cons c calls ih =>
    cases c with
    | set c => exact Lib.run_cons_map (call_set b c) fun _ => ih _
    | update =>
      rw [nodeCalls]
      have hu : (backend call).call b .update = _ := call_update b
      cases ht : b.flushTimer 0 with
      | false =>
        rw [ht] at hu
        rw [Lib.run_cons_ok hu]
        exact ih _
      | true =>
        rw [ht] at hu
        exact Lib.run_cons_map hu fun _ => ih _

theorem run_ok {b b' : FlushingWrite ν} {calls : List BackendCall} (h : Lib.run (backend call).call b calls = .ok b') :
    Lib.run call b.blobNode (nodeCalls b.flushTimer calls) = .ok b'.blobNode := by
  rw [← run_node, h]
  rfl

/-- Where the node gets through, so does the backend. -/
theorem run_of_node {b : FlushingWrite ν} {node : ν} {calls : List BackendCall}
    (h : Lib.run call b.blobNode (nodeCalls b.flushTimer calls) = .ok node) :
    ∃ b', Lib.run (backend call).call b calls = .ok b' ∧ b'.blobNode = node := by
  rw [← run_node] at h
  cases hr : Lib.run (backend call).call b calls with
  | error stop => rw [hr] at h; cases h
  | ok b' =>
    rw [hr] at h
    exact ⟨b', rfl, Except.ok.inj h⟩

end

end FlushingWrite

/-! ## Logical write bytes -/

/-- `Set` adds the size of its blob to the logical write bytes, and nothing else
changes them. -/
structure IWriteBackend.Counts {β : Type} (backend : IWriteBackend β) : Prop where
  set : ∀ {b c b'}, backend.set b c = .ok b' →
    backend.logicalWriteBytes b' = backend.logicalWriteBytes b + .ofNat c.blob.length
  update : ∀ {b b'}, backend.update b = .ok b' → backend.logicalWriteBytes b' = backend.logicalWriteBytes b

theorem issued_cons_set (calls : List BackendCall) (c : SetCall) : issued (.set c :: calls) = c :: issued calls := rfl

theorem issued_cons_update (calls : List BackendCall) : issued (.update :: calls) = issued calls := rfl

/-- After its calls every backend has counted the same. -/
theorem IWriteBackend.Counts.run {β : Type} {backend : IWriteBackend β} (h : backend.Counts) {b b' : β}
    {calls : List BackendCall} (hr : Lib.run backend.call b calls = .ok b') :
    backend.logicalWriteBytes b' =
      (issued calls).foldl (fun n c => n + .ofNat c.blob.length) (backend.logicalWriteBytes b) := by
  induction calls generalizing b with
  | nil =>
    cases hr
    rfl
  | cons c calls ih =>
    cases hc : backend.call b c with
    | error stop => rw [Lib.run_cons_error hc] at hr; cases hr
    | ok m =>
      rw [Lib.run_cons_ok hc] at hr
      rw [ih hr]
      cases c with
      | set c => rw [issued_cons_set, List.foldl_cons, h.set hc]
      | update => rw [issued_cons_update, h.update hc]

theorem FlushingWrite.counts {ν : Type} (call : ν → NodeCall → Except Stop ν) : (backend call).Counts where
  set {b c b'} h := by
    have hs : (backend call).call b (.set c) = .ok b' := h
    rw [call_set] at hs
    cases hn : call b.blobNode (.set c) with
    | error stop => rw [hn] at hs; cases hs
    | ok node =>
      rw [hn] at hs
      cases hs
      rfl
  update {b b'} h := by
    have hu : (backend call).call b .update = .ok b' := h
    rw [call_update] at hu
    split at hu
    · cases hn : call b.blobNode .flush with
      | error stop => rw [hn] at hu; cases hu
      | ok node =>
        rw [hn] at hu
        cases hu
        rfl
    · cases hu
      rfl

namespace JellyWrite

theorem delete_bytes {s s' : JellyWrite} {p : Option Addr} (h : s.delete p = .ok s') :
    s'.logicalWriteBytes = s.logicalWriteBytes := by
  unfold delete at h
  split at h
  · cases h
    rfl
  · split at h
    · cases h
      rfl
    · cases h

theorem remove_bytes {s s' : JellyWrite} {i : UInt64} (h : s.remove i = .ok s') :
    s'.logicalWriteBytes = s.logicalWriteBytes := by
  have hpop : ∀ {t t' : JellyWrite}, t.popBack = .ok t' → t'.logicalWriteBytes = t.logicalWriteBytes := by
    intro t t' ht
    unfold popBack at ht
    split at ht
    · have hd := delete_bytes ht
      exact hd
    · cases ht
  unfold remove at h
  split at h
  · cases hm : s.moveLast i with
    | error stop => rw [hm] at h; cases h
    | ok t =>
      rw [hm] at h
      rw [hpop h]
      unfold moveLast at hm
      split at hm
      · have hd := delete_bytes hm
        exact hd
      · cases hm
      · cases hm
  · exact hpop h

theorem updateRequestsFrom_bytes {n : Nat} {i : UInt64} {s s' : JellyWrite} (h : updateRequestsFrom n i s = .ok s') :
    s'.logicalWriteBytes = s.logicalWriteBytes := by
  fun_induction updateRequestsFrom n i s with
  | case1 i s hi => cases h
  | case2 i s hi => cases h; rfl
  | case3 n i s hi stop hc => cases h
  | case4 n i s hi hc ih => exact ih h
  | case5 n i s hi hc stop hr => cases h
  | case6 n i s hi hc t hr ih => exact (ih h).trans (remove_bytes hr)
  | case7 n i s hi => cases h; rfl

theorem completes_bytes {choose : Addr → Bool} {s s' : JellyWrite} (h : s.completes choose = .ok s') :
    s'.logicalWriteBytes = s.logicalWriteBytes := by
  unfold completes at h
  split at h
  · cases h
    rfl
  · cases h

theorem events_bytes {s s' : JellyWrite} {events : List Event} (h : Lib.run event s events = .ok s') :
    s'.logicalWriteBytes = s.logicalWriteBytes := by
  refine Lib.run_history (fun _ t => t.logicalWriteBytes = s.logicalWriteBytes) rfl ?_ h
  rintro _ t e t' ht he
  rw [← ht]
  cases e with
  | flushPendingWAL choose => exact completes_bytes he
  | flushPendingStore => cases he; rfl
  | cleanupWALs => cases he; rfl
  | performCompaction => cases he; rfl

theorem update_bytes {s s' : JellyWrite} {expired : Option (Addr → Bool)} {events : List Event}
    (h : s.update expired events = .ok s') : s'.logicalWriteBytes = s.logicalWriteBytes := by
  unfold update at h
  cases expired with
  | none => exact events_bytes h
  | some choose =>
    cases hp : s.processRequests choose with
    | error stop => simp only [hp] at h; cases h
    | ok t =>
      simp only [hp] at h
      rw [events_bytes h]
      unfold processRequests at hp
      cases hc : s.completes choose with
      | error stop => rw [hc] at hp; cases hp
      | ok u =>
        rw [hc] at hp
        exact (updateRequestsFrom_bytes hp).trans (completes_bytes hc)

end JellyWrite

theorem HostedJelly.counts : backend.Counts where
  set {b c b'} h := by
    change b.set c = .ok b' at h
    unfold set at h
    cases hs : b.jelly.set c with
    | error stop => rw [hs] at h; cases h
    | ok jelly =>
      rw [hs] at h
      cases h
      unfold JellyWrite.set at hs
      simp only at hs
      split_ifs at hs
      cases hs
      rfl
  update {b b'} h := by
    change b.update = .ok b' at h
    unfold update at h
    cases hu : b.jelly.update (b.updates 0).1 (b.updates 0).2 with
    | error stop => rw [hu] at h; cases h
    | ok jelly =>
      rw [hu] at h
      cases h
      exact JellyWrite.update_bytes hu

end JellyBench
