import JellyBench.Lib.Checked
import JellyBench.SQLiteBlobNode
/-!
# Failing SQLite calls

A `Set` makes up to six calls into SQLite and a `Flush` at most one, and there is
an assertion on the result of each. Here any of them may fail, for want of memory
or disk space, say. `faults_are_seen` says where the process stops then and what
is in the file.
-/
open JellyBench.SQLite JellyBench.SQLiteBlobNode

namespace JellyBench.SQLiteFaults

inductive FaultCode where
  | busy | noMem | ioErr | full
  deriving DecidableEq, Repr

/-- A failing call: its result, and whether SQLite rolls the transaction back. -/
structure Fault where
  code : FaultCode
  rollsBack : Bool
  deriving DecidableEq, Repr

inductive Result where
  | ran (code : ResultCode)
  | failed (code : FaultCode)
  deriving DecidableEq, Repr

/-- The calls into SQLite. -/
inductive Place where
  | begin | bindKey | bindSeq | bindBlob | step | reset | commit
  deriving DecidableEq, Repr

/-- Which calls of a `Set` or a `Flush` fail. -/
abbrev Faults := Place → Option Fault

/-- Control did not come back, and the connection then. -/
abbrev Halt := Stop × Connection

def halting {α : Type} (db : Connection) (r : Except Stop α) : Except Halt α := r.mapError fun stop => (stop, db)

/-- A call that runs, or fails and leaves something else. -/
def attempt {α : Type} (fault : Option Fault) (leaves : Fault → α) (ran : ResultCode × α) : Result × α :=
  match fault with
  | none => (.ran ran.1, ran.2)
  | some fault => (.failed fault.code, leaves fault)

/-- A statement that fails leaves the file alone. -/
def Fault.leaves (fault : Fault) (db : Connection) (statement : Statement) : Connection where
  file := db.file
  transaction := if fault.rollsBack then none else db.transaction
  log := db.log ++ [statement]

/-! ## The node -/

def beginBatch (faults : Faults) (node : SQLiteBlobNode) : Except Halt SQLiteBlobNode :=
  if !node.batching then do
    let (result, db) := attempt (faults .begin) (·.leaves node.sqlite .begin) node.sqlite.execBegin
    halting db (alwaysAssert (result = .ran .ok) "sqlite3_exec() failed: %s")
    pure { node with sqlite := db, batching := true }
  else .ok node

def bind (L : Limits) (faults : Faults) (db : Connection) (stmt : Prepared) (c : SetCall) : Except Halt Prepared := do
  let (result, stmt) := attempt (faults .bindKey) (fun _ => stmt) (stmt.bindInt64 1 c.key.toNat)
  halting db (alwaysAssert (result = .ran .ok) "sqlite3_bind_int64() failed: %d")
  let (result, stmt) := attempt (faults .bindSeq) (fun _ => stmt) (stmt.bindInt64 2 c.seq.toNat)
  halting db (alwaysAssert (result = .ran .ok) "sqlite3_bind_int64() failed: %d")
  let ran ← halting db (stmt.bindBlob L (vectorData c) (intOfSize c.blob.length))
  let (result, stmt) := attempt (faults .bindBlob) (fun _ => stmt) ran
  halting db (alwaysAssert (result = .ran .ok) "sqlite3_bind_blob() failed: %d")
  pure stmt

def execute (L : Limits) (faults : Faults) (stmt : Prepared) (db : Connection) :
    Except Halt (Prepared × Connection) := do
  let (result, stmt, db) := attempt (faults .step) (fun fault => (stmt, fault.leaves db (.upsert stmt.bound)))
    (stmt.step L db)
  halting db (alwaysAssert (result = .ran .done) "sqlite3_step() failed: %d")
  let (result, stmt) := attempt (faults .reset) (fun _ => stmt) stmt.reset
  halting db (alwaysAssert (result = .ran .ok) "sqlite3_reset() failed: %d")
  pure (stmt, db)

def set (L : Limits) (faults : Faults) (node : SQLiteBlobNode) (c : SetCall) : Except Halt SQLiteBlobNode := do
  let node ← beginBatch faults node
  let stmt ← bind L faults node.sqlite node.stmtSet c
  let (stmt, db) ← execute L faults stmt node.sqlite
  pure { node with sqlite := db, stmtSet := stmt }

def flush (faults : Faults) (node : SQLiteBlobNode) : Except Halt SQLiteBlobNode :=
  if node.batching then do
    let (result, db) := attempt (faults .commit) (·.leaves node.sqlite .commit) node.sqlite.execCommit
    halting db (alwaysAssert (result = .ran .ok) "sqlite3_exec() failed: %s")
    pure { node with sqlite := db, batching := false }
  else .ok node

/-- A call of the node, and which of its calls into SQLite fail. -/
structure FaultyCall where
  call : NodeCall
  faults : Faults

def call (L : Limits) (node : SQLiteBlobNode) (e : FaultyCall) : Except Halt SQLiteBlobNode :=
  match e.call with
  | .set c => set L e.faults node c
  | .flush => flush e.faults node

def run (L : Limits) (calls : List FaultyCall) : Except Halt SQLiteBlobNode := Lib.run (call L) init calls

/-! ## One call -/

/-- The assertion on the result of the call. -/
def Place.assertion : Place → Stop
  | .begin | .commit => .assertion "sqlite3_exec() failed: %s"
  | .bindKey | .bindSeq => .assertion "sqlite3_bind_int64() failed: %d"
  | .bindBlob => .assertion "sqlite3_bind_blob() failed: %d"
  | .step => .assertion "sqlite3_step() failed: %d"
  | .reset => .assertion "sqlite3_reset() failed: %d"

/-- The calls into SQLite when none fails, in order. BEGIN is only issued when no
batch is open, and COMMIT when one is. -/
def places (batching : Bool) : NodeCall → List Place
  | .set _ => (if batching then [] else [.begin]) ++ [.bindKey, .bindSeq, .bindBlob, .step, .reset]
  | .flush => if batching then [.commit] else []

/-- Whether a batch is open after the call. -/
def batchingAfter (_ : Bool) : NodeCall → Bool
  | .set _ => true
  | .flush => false

def Faults.fails (faults : Faults) (place : Place) : Bool := (faults place).isSome

/-- `r` makes the calls in `ps`, and stops with the file as it was in `db`. -/
abbrev Checked {α : Type} (faults : Faults) (db : Connection) (ps : List Place) (plain : Except Stop α)
    (r : Except Halt α) : Prop :=
  Lib.Checked faults.fails Place.assertion (fun db' : Connection => db'.file = db.file) ps plain r

/-- None of the calls into SQLite fails. -/
def NoneFails (calls : List FaultyCall) : Prop :=
  Lib.NoneFails (fun k e => places k e.call) (fun k e => batchingAfter k e.call) (fun e => e.faults.fails) false calls

end JellyBench.SQLiteFaults
