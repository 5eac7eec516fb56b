import JellyBench.Backend
import JellyBench.Lib.Runs
import JellyBench.Lib.SwapPop
import Mathlib.Logic.Function.Basic
/-!
# The Jelly backend

`JellyWrite` owns its requests through the slots of `m_requests`, and the blob
node keeps plain pointers to them until it has completed them. What is known of
the node is only that: `Set` hands it a request, and processing completes some
of those it holds. A pointer is the number of an allocation.
-/
namespace JellyBench

abbrev Addr := Nat

/-- `BlobNodeType::Request` -/
structure Request where
  key : UInt32
  seq : UInt32
  blob : Bytes
  completed : Bool
  deriving DecidableEq, Repr

/-- The requests that are alive, by their address. -/
abbrev Heap := Addr → Option Request

/-- `held` are the pointers of the blob node, `destroyed` the requests destroyed
so far, as they were then. A slot is empty after a move. -/
structure JellyWrite where
  heap : Heap
  next : Addr
  held : List Addr
  requests : List (Option Addr)
  destroyed : List Request
  logicalWriteBytes : UInt64

namespace JellyWrite

def init : JellyWrite := ⟨fun _ => none, 0, [], [], [], 0⟩

/-! ## The blob node -/

/-- The node writes the result to a request it holds. -/
def complete (heap : Heap) (a : Addr) : Except Stop Heap :=
  match heap a with
  | some r => .ok (Function.update heap a (some { r with completed := true }))
  | none => .error (.undefined .badPointer)

/-- `ProcessRequests` and `FlushPendingWAL`: the node completes the requests it
chooses, and lets go of them. -/
def completes (choose : Addr → Bool) (s : JellyWrite) : Except Stop JellyWrite :=
  match Lib.run complete s.heap (s.held.filter choose) with
  | .ok heap => .ok { s with heap, held := s.held.filter fun a => !choose a }
  | .error stop => .error stop

/-- A housekeeping event, and what the node completes on it. -/
inductive Event where
  | flushPendingWAL (choose : Addr → Bool)
  | flushPendingStore
  | cleanupWALs
  | performCompaction

def event (s : JellyWrite) : Event → Except Stop JellyWrite
  | .flushPendingWAL choose => s.completes choose
  | .flushPendingStore => .ok s
  | .cleanupWALs => .ok s
  | .performCompaction => .ok s

/-! ## The vector of requests -/

/-- `~unique_ptr` -/
def delete (s : JellyWrite) : Option Addr → Except Stop JellyWrite
  | none => .ok s
  | some a =>
    match s.heap a with
    | some r => .ok { s with heap := Function.update s.heap a none, destroyed := s.destroyed ++ [r] }
    | none => .error (.undefined .badPointer)

def size (s : JellyWrite) : UInt64 := .ofNat s.requests.length

/-- `m_requests[i]` -/
def slot (s : JellyWrite) (i : UInt64) : Except Stop (Option Addr) :=
  match s.requests[i.toNat]? with
  | some p => .ok p
  | none => .error (.undefined .badIndex)

/-- `req->IsCompleted()` -/
def isCompleted (s : JellyWrite) (req : Option Addr) : Except Stop Bool :=
  match req.bind s.heap with
  | some r => .ok r.completed
  | none => .error (.undefined .badPointer)

/-- `req = std::move(m_requests[m_requests.size() - 1])`, where `req` is slot `i`:
the last slot gives up its pointer, and the old request of `req` is destroyed. -/
def moveLast (s : JellyWrite) (i : UInt64) : Except Stop JellyWrite :=
  match s.slot i, s.slot (s.size - 1) with
  | .ok old, .ok last =>
    delete { s with requests := (s.requests.set (s.size - 1).toNat none).set i.toNat last } old
  | .error stop, _ => .error stop
  | _, .error stop => .error stop

/-- `m_requests.pop_back()` -/
def popBack (s : JellyWrite) : Except Stop JellyWrite :=
  match s.requests.getLast? with
  | some last => delete { s with requests := s.requests.dropLast } last
  | none => .error (.undefined .badIndex)

/-- The body of the `if` in `_UpdateRequests`, for slot `i`. -/
def remove (s : JellyWrite) (i : UInt64) : Except Stop JellyWrite :=
  -- Cyclic remove
  if i + 1 < s.size then
    match s.moveLast i with
    | .ok s => s.popBack
    | .error stop => .error stop
  else s.popBack

/-- The loop of `_UpdateRequests` from `i` on, for `fuel` turns at most. Removing
slot 0 takes `i` below 0 and back. -/
def updateRequestsFrom : Nat → UInt64 → JellyWrite → Except Stop JellyWrite
  | 0, i, s => if i < s.size then .error .running else .ok s
  | fuel + 1, i, s =>
    if i < s.size then
      match (s.slot i).bind s.isCompleted with
      | .error stop => .error stop
      | .ok false => updateRequestsFrom fuel (i + 1) s
      | .ok true =>
        match s.remove i with
        | .error stop => .error stop
        -- i-- here, and i++ of the loop
        | .ok s => updateRequestsFrom fuel (i - 1 + 1) s
    else .ok s

def updateRequests (s : JellyWrite) : Except Stop JellyWrite := updateRequestsFrom s.requests.length 0 s

/-! ## The backend -/

/-- `Set`. The vector has room for `(2^63 - 1) / 8` pointers. -/
def set (s : JellyWrite) (c : SetCall) : Except Stop JellyWrite :=
  let req := s.next
  -- From m_blobNode->Set(req.get()) on the node holds the pointer.
  let s := { s with
    heap := Function.update s.heap req (some ⟨c.key, c.seq, c.blob, false⟩)
    next := req + 1
    held := s.held ++ [req] }
  if s.requests.length + 1 < 2 ^ 60 then
    .ok { s with
      requests := s.requests ++ [some req]
      logicalWriteBytes := s.logicalWriteBytes + .ofNat c.blob.length }
  else .error (.exception "std::length_error")

/-- The first block of `Update`. -/
def processRequests (choose : Addr → Bool) (s : JellyWrite) : Except Stop JellyWrite :=
  match s.completes choose with
  | .ok s => s.updateRequests
  | .error stop => .error stop

/-- `Update`: `expired` is what the node completes in `ProcessRequests`, if the
timer has expired. -/
def update (s : JellyWrite) (expired : Option (Addr → Bool)) (events : List Event) : Except Stop JellyWrite :=
  match expired with
  | some choose =>
    match s.processRequests choose with
    | .ok s => Lib.run event s events
    | .error stop => .error stop
  | none => Lib.run event s events

inductive Call where
  | set (c : SetCall)
  | update (expired : Option (Addr → Bool)) (events : List Event)

def call (s : JellyWrite) : Call → Except Stop JellyWrite
  | .set c => s.set c
  | .update expired events => s.update expired events

/-- Calls on a freshly constructed backend. -/
def run (calls : List Call) : Except Stop JellyWrite := Lib.run call init calls

inductive Destroyed where
  | blobNode
  | processRequestsTimer
  | request (a : Addr)
  | housekeepingAdvisor
  | host
  deriving DecidableEq

/-- What the destructor destroys, in order: its body resets the node, and then
the members go, the last one first. -/
def destroy (s : JellyWrite) : List Destroyed :=
  [.blobNode, .processRequestsTimer] ++ (s.requests.filterMap fun p => p.map .request) ++ [.housekeepingAdvisor, .host]

end JellyWrite

end JellyBench
