import JellyBench.Cpp
import Mathlib.Logic.Function.Basic
/-!
# A SQLite connection

What the blob node uses of SQLite, as `sqlite3.h` documents it: one table with
NOT NULL columns and a primary key, transactions, and a prepared UPSERT whose
bindings survive `sqlite3_reset`. Nothing fails for I/O reasons.
-/
namespace JellyBench.SQLite

inductive ResultCode where
  | ok | done | error | constraint | tooBig | misuse | range
  deriving DecidableEq, Repr

/-- A row of `blobs`. No column is NULL. -/
structure Row where
  key : Int
  seq : Int
  data : Bytes
  deriving DecidableEq, Repr

/-- Values for the three columns, not checked yet; `none` is NULL. -/
structure Values where
  key : Option Int
  seq : Option Int
  data : Option Bytes
  deriving DecidableEq, Repr

/-- The NOT NULL constraints. -/
def Values.notNull : Values → Option Row
  | ⟨some key, some seq, some data⟩ => some ⟨key, seq, data⟩
  | _ => none

def Row.values (r : Row) : Values := ⟨some r.key, some r.seq, some r.data⟩

@[simp] theorem Row.values_notNull (r : Row) : r.values.notNull = some r := rfl

/-- The rows by primary key. -/
abbrev Table := Int → Option Row

/-- `SQLITE_LIMIT_LENGTH`, an `int`: no blob and no stored row is longer. How
long a row is depends on SQLite's record format. -/
structure Limits where
  length : Nat
  length_lt : length < 2 ^ 31
  rowFits : Row → Bool

/-- A number in seven bits a byte, and in nine bytes at most. -/
def varintLength (n : Nat) : Nat := min 9 (n.log2 / 7 + 1)

/-- An integer in a record; 0 and 1 are in its header. -/
def integerLength (n : Int) : Nat :=
  if n = 0 ∨ n = 1 then 0
  else if -2 ^ 7 ≤ n ∧ n < 2 ^ 7 then 1
  else if -2 ^ 15 ≤ n ∧ n < 2 ^ 15 then 2
  else if -2 ^ 23 ≤ n ∧ n < 2 ^ 23 then 3
  else if -2 ^ 31 ≤ n ∧ n < 2 ^ 31 then 4
  else if -2 ^ 47 ≤ n ∧ n < 2 ^ 47 then 6
  else 8

/-- The record of a row: a header, with its own length and the types of the three
columns, and their values. The type of a blob has its length. -/
def recordLength (r : Row) : Nat :=
  3 + varintLength (2 * r.data.length + 12) + integerLength r.key + integerLength r.seq + r.data.length

theorem recordLength_le (r : Row) : recordLength r ≤ r.data.length + 28 := by
  have hvarint : varintLength (2 * r.data.length + 12) ≤ 9 := Nat.min_le_left _ _
  have hinteger : ∀ n, integerLength n ≤ 8 := by
    intro n
    unfold integerLength
    split_ifs <;> omega
  have hkey := hinteger r.key
  have hseq := hinteger r.seq
  unfold recordLength
  omega

/-- The limit SQLite is built with. -/
def defaultLimits : Limits := ⟨1000000000, by decide, fun r => recordLength r ≤ 1000000000⟩

/-! ## The connection -/

inductive Statement where
  | begin
  | commit
  | upsert (v : Values)
  deriving DecidableEq, Repr

/-- The database file, the table as an open transaction sees it, and the
statements issued so far. -/
structure Connection where
  file : Table
  transaction : Option Table
  log : List Statement

/-- `sqlite3_open_v2` of a new file, and `CREATE TABLE blobs`. -/
def openNew : Connection := ⟨fun _ => none, none, []⟩

namespace Connection

/-- The opposite of `sqlite3_get_autocommit` -/
def inTransaction (db : Connection) : Bool := db.transaction.isSome

/-- What a query on the connection sees. -/
def visible (db : Connection) : Table := db.transaction.getD db.file

/-- Replace the visible table. Outside a transaction it is committed at once. -/
def write (db : Connection) (t : Table) : Connection :=
  match db.transaction with
  | some _ => { db with transaction := some t }
  | none => { db with file := t }

/-- `sqlite3_exec(db, "BEGIN")` -/
def execBegin (db : Connection) : ResultCode × Connection :=
  let log := db.log ++ [.begin]
  if db.inTransaction then (.error, { db with log })
  else (.ok, { db with transaction := some db.file, log })

/-- `sqlite3_exec(db, "COMMIT")` -/
def execCommit (db : Connection) : ResultCode × Connection :=
  let log := db.log ++ [.commit]
  match db.transaction with
  | some t => (.ok, { db with file := t, transaction := none, log })
  | none => (.error, { db with log })

/-- `sqlite3_close`: the file is left as it is, an open transaction is rolled back. -/
def close (db : Connection) : Table := db.file

end Connection

/-- Whether a transaction is open after `log`; `none` when a BEGIN came inside a
transaction or a COMMIT outside one. -/
def openAfter (log : List Statement) : Option Bool :=
  log.foldl (fun
    | some false, .begin => some true
    | some true, .commit => some false
    | some b, .upsert _ => some b
    | _, _ => none) (some false)

/-- The parameters of the executions of the prepared statement in `log`. -/
def executed (log : List Statement) : List Values :=
  log.filterMap fun
    | .upsert v => some v
    | _ => none

/-! ## The prepared statement

`INSERT INTO blobs VALUES(?, ?, ?) ON CONFLICT DO UPDATE SET ...` -/

/-- `doUpdate old excluded` are the values the SET clause gives. `last` is the
result of the last step, until the statement is reset. -/
structure Prepared where
  doUpdate : Row → Row → Values
  bound : Values
  last : Option ResultCode

/-- `sqlite3_prepare_v3`: every parameter is NULL. -/
def prepare (doUpdate : Row → Row → Values) : Prepared := ⟨doUpdate, ⟨none, none, none⟩, none⟩

namespace Prepared

/-- `sqlite3_bind_int64` -/
def bindInt64 (stmt : Prepared) (index : Nat) (value : Int) : ResultCode × Prepared :=
  if stmt.last.isSome then (.misuse, stmt)
  else match index with
    | 1 => (.ok, { stmt with bound := { stmt.bound with key := some value } })
    | 2 => (.ok, { stmt with bound := { stmt.bound with seq := some value } })
    | _ => (.range, stmt)

/-- `sqlite3_bind_blob` of the third parameter: the first `n` bytes at `data`,
NULL for a null pointer whatever `n` is. A negative `n` is undefined. -/
def bindBlob (L : Limits) (stmt : Prepared) (data : Option Bytes) (n : Int) :
    Except Stop (ResultCode × Prepared) :=
  if stmt.last.isSome then .ok (.misuse, stmt)
  else match data with
    | none => .ok (.ok, { stmt with bound := { stmt.bound with data := none } })
    | some bytes =>
      if n < 0 then .error (.undefined .negativeLength)
      else if L.length < n then .ok (.tooBig, stmt)
      else .ok (.ok, { stmt with bound := { stmt.bound with data := some (bytes.take n.toNat) } })

/-- The values to store for `excluded`: itself, or what the SET clause makes of
it and the row with its key. SET expressions see the old row. -/
def resolve (stmt : Prepared) (t : Table) (excluded : Row) : Values :=
  match t excluded.key with
  | none => excluded.values
  | some old => stmt.doUpdate old excluded

/-- The table after the statement, or the error that leaves it as it was. -/
def upsert (L : Limits) (stmt : Prepared) (t : Table) : Except ResultCode Table :=
  match stmt.bound.notNull with
  | none => .error .constraint
  | some excluded =>
    match (stmt.resolve t excluded).notNull with
    | none => .error .constraint
    | some row => if L.rowFits row then .ok (Function.update t excluded.key (some row)) else .error .tooBig

/-- `sqlite3_step` -/
def step (L : Limits) (stmt : Prepared) (db : Connection) : ResultCode × Prepared × Connection :=
  let log := db.log ++ [.upsert stmt.bound]
  match stmt.upsert L db.visible with
  | .ok t => (.done, { stmt with last := some .done }, { db.write t with log })
  | .error code => (code, { stmt with last := some code }, { db with log })

/-- `sqlite3_reset`: the error of the last step, if it had one. The bindings stay. -/
def reset (stmt : Prepared) : ResultCode × Prepared :=
  (match stmt.last with
    | none | some .done => .ok
    | some code => code,
   { stmt with last := none })

/-- Inside a transaction a statement leaves the file alone. -/
theorem step_file (L : Limits) (stmt : Prepared) {db : Connection} (h : db.inTransaction = true) :
    (stmt.step L db).2.2.file = db.file := by
  obtain ⟨t, ht⟩ := Option.isSome_iff_exists.1 h
  unfold step
  cases stmt.upsert L db.visible with
  | error code => rfl
  | ok t' => simp [Connection.write, ht]

end Prepared

end JellyBench.SQLite
