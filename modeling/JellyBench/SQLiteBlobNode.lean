import JellyBench.SQLite
import JellyBench.Backend
import JellyBench.Lib.Runs
/-!
# The SQLite blob node

`SQLiteBlobNode` collects its `Set` calls in a transaction until `Flush`.
`set_ok` says which calls get through and what they do; nothing below it looks
at the statements again.
-/
open JellyBench.SQLite

namespace JellyBench

structure SQLiteBlobNode where
  sqlite : Connection
  stmtSet : Prepared
  batching : Bool

namespace SQLiteBlobNode

/-- `data = CASE WHEN EXCLUDED.seq > blobs.seq THEN EXCLUDED.data ELSE NULL END,
seq = EXCLUDED.seq` -/
def doUpdate (blobs excluded : Row) : Values where
  key := some blobs.key
  data := if excluded.seq > blobs.seq then some excluded.data else none
  seq := some excluded.seq

/-- The constructor deletes `sqlite.db`, so the old file does not matter. -/
def init : SQLiteBlobNode := ⟨openNew, prepare doUpdate, false⟩

/-- The first block of `Set`. -/
def beginBatch (node : SQLiteBlobNode) : Except Stop SQLiteBlobNode :=
  if !node.batching then do
    let (result, db) := node.sqlite.execBegin
    alwaysAssert (result = .ok) "sqlite3_exec() failed: %s"
    pure { node with sqlite := db, batching := true }
  else .ok node

/-- The three blocks of `Set` that bind the parameters. -/
def bind (L : Limits) (stmt : Prepared) (c : SetCall) : Except Stop Prepared := do
  let (result, stmt) := stmt.bindInt64 1 c.key.toNat
  alwaysAssert (result = .ok) "sqlite3_bind_int64() failed: %d"
  let (result, stmt) := stmt.bindInt64 2 c.seq.toNat
  alwaysAssert (result = .ok) "sqlite3_bind_int64() failed: %d"
  let (result, stmt) ← stmt.bindBlob L (vectorData c) (intOfSize c.blob.length)
  alwaysAssert (result = .ok) "sqlite3_bind_blob() failed: %d"
  pure stmt

/-- The two blocks of `Set` that step and reset the statement. -/
def execute (L : Limits) (stmt : Prepared) (db : Connection) : Except Stop (Prepared × Connection) := do
  let (result, stmt, db) := stmt.step L db
  alwaysAssert (result = .done) "sqlite3_step() failed: %d"
  let (result, stmt) := stmt.reset
  alwaysAssert (result = .ok) "sqlite3_reset() failed: %d"
  pure (stmt, db)

def set (L : Limits) (node : SQLiteBlobNode) (c : SetCall) : Except Stop SQLiteBlobNode := do
  let node ← node.beginBatch
  let stmt ← bind L node.stmtSet c
  let (stmt, db) ← execute L stmt node.sqlite
  pure { node with sqlite := db, stmtSet := stmt }

def flush (node : SQLiteBlobNode) : Except Stop SQLiteBlobNode :=
  if node.batching then do
    let (result, db) := node.sqlite.execCommit
    alwaysAssert (result = .ok) "sqlite3_exec() failed: %s"
    pure { node with sqlite := db, batching := false }
  else .ok node

/-- The destructor finalizes the statement and closes the connection. This is
what it leaves in the file. -/
def destroy (node : SQLiteBlobNode) : Table := node.sqlite.close

def call (L : Limits) (node : SQLiteBlobNode) : NodeCall → Except Stop SQLiteBlobNode
  | .set c => node.set L c
  | .flush => node.flush

/-- Calls on a freshly constructed node. -/
def run (L : Limits) (calls : List NodeCall) : Except Stop SQLiteBlobNode := Lib.run (call L) init calls

/-! ## One call -/

/-- The row a `Set` stores: the cast of the size to `int` decides how many
bytes of the blob there are in it. -/
def rowOf (c : SetCall) : Row := ⟨c.key.toNat, c.seq.toNat, c.blob.take (intOfSize c.blob.length).toNat⟩

/-- SQLite takes the blob: its address is not null, and its size as an `int` is a
length SQLite accepts. -/
def Storable (L : Limits) (c : SetCall) : Prop :=
  vectorData c ≠ none ∧ 0 ≤ intOfSize c.blob.length ∧ intOfSize c.blob.length ≤ L.length ∧ L.rowFits (rowOf c) = true

instance (L : Limits) (c : SetCall) : Decidable (Storable L c) := by unfold Storable; infer_instance

/-- Between calls the statement is the one prepared, it has been reset, the flag
says whether a transaction is open, and rows are stored under their keys. -/
structure Ready (node : SQLiteBlobNode) : Prop where
  sql : node.stmtSet.doUpdate = doUpdate
  reset : node.stmtSet.last = none
  batching : node.batching = node.sqlite.inTransaction
  keyed : ∀ k r, node.sqlite.visible k = some r → r.key = k

/-- The stored row with the key of `r`, if there is one, is older than `r`. -/
def Newer (t : Table) (r : Row) : Prop := ∀ old, t r.key = some old → old.seq < r.seq

instance (t : Table) (r : Row) : Decidable (Newer t r) := by unfold Newer; infer_instance

/-- The connection when the statement runs: a transaction is open. -/
def begun (node : SQLiteBlobNode) : Connection where
  file := node.sqlite.file
  transaction := some node.sqlite.visible
  log := node.sqlite.log ++ if node.batching then [] else [.begin]

@[simp] theorem begun_visible (node : SQLiteBlobNode) : node.begun.visible = node.sqlite.visible := rfl

/-- The node after a `Set` that gets through. -/
def afterSet (node : SQLiteBlobNode) (c : SetCall) : SQLiteBlobNode where
  sqlite := {
    file := node.sqlite.file
    transaction := some (Function.update node.sqlite.visible c.key.toNat (some (rowOf c)))
    log := node.begun.log ++ [.upsert (rowOf c).values] }
  stmtSet := { node.stmtSet with bound := (rowOf c).values }
  batching := true

/-- BEGIN succeeds where it is issued, and a transaction is open either way. -/
theorem beginBatch_ok {node : SQLiteBlobNode} (h : Ready node) :
    node.beginBatch = .ok { node with sqlite := node.begun, batching := true } := by
  have hb := h.batching
  obtain ⟨⟨file, transaction, log⟩, stmt, batching⟩ := node
  cases transaction with
  | none =>
    -- No batch yet: BEGIN is issued, outside a transaction.
    obtain rfl : batching = false := hb
    rfl
  | some t =>
    -- The flag is set, and the transaction of the batch goes on.
    obtain rfl : batching = true := hb
    simp [beginBatch, begun, Connection.visible]

/-- What the UPSERT does with a row whose values are all set. -/
theorem upsert_eq (L : Limits) (stmt : Prepared) (hs : stmt.doUpdate = doUpdate) (t : Table)
    (ht : ∀ k r, t k = some r → r.key = k) (r : Row) (hr : stmt.bound = r.values) :
    stmt.upsert L t =
      if Newer t r then
        if L.rowFits r then .ok (Function.update t r.key (some r)) else .error .tooBig
      else .error .constraint := by
  -- The conflict is on the key, so only the row stored under it matters.
  simp only [Prepared.upsert, hr, Row.values_notNull, Prepared.resolve, hs]
  cases ho : t r.key with
  | none =>
    have hn : Newer t r := by intro old h; rw [ho] at h; cases h
    simp [hn]
  | some old =>
    have hk : old.key = r.key := ht _ _ ho
    by_cases hlt : old.seq < r.seq
    · have hn : Newer t r := by intro old' h; rw [ho] at h; cases h; exact hlt
      simp [doUpdate, Values.notNull, hlt, hk, hn]
    · have hn : ¬ Newer t r := fun h => hlt (h old ho)
      simp [doUpdate, Values.notNull, hlt, hn]

theorem init_ready : Ready init := ⟨rfl, rfl, rfl, by simp [init, openNew, Connection.visible]⟩

theorem afterSet_ready {node : SQLiteBlobNode} (h : Ready node) (c : SetCall) : Ready (node.afterSet c) where
  sql := h.sql
  reset := h.reset
  batching := rfl
  keyed k r hr := by
    simp only [afterSet, Connection.visible, Option.getD_some] at hr
    by_cases hk : k = c.key.toNat
    · rw [hk, Function.update_self, Option.some.injEq] at hr
      rw [← hr, hk]; rfl
    · rw [Function.update_of_ne hk] at hr
      exact h.keyed k r hr

theorem bind_eq (L : Limits) {stmt : Prepared} (h : stmt.last = none) (c : SetCall) :
    bind L stmt c =
      if vectorData c = none then .ok { stmt with bound := ⟨some c.key.toNat, some c.seq.toNat, none⟩ }
      else if intOfSize c.blob.length < 0 then .error (.undefined .negativeLength)
      else if L.length < intOfSize c.blob.length then .error (.assertion "sqlite3_bind_blob() failed: %d")
      else .ok { stmt with bound := (rowOf c).values } := by
  by_cases hnull : vectorData c = none
  · simp [bind, Bind.bind, Except.bind, pure, Except.pure, Prepared.bindInt64, Prepared.bindBlob, h, hnull]
  have hdata := vectorData_some hnull
  by_cases hneg : intOfSize c.blob.length < 0
  · simp [bind, Bind.bind, Except.bind, Prepared.bindInt64, Prepared.bindBlob, h, hdata, hneg]
  by_cases hbig : L.length < intOfSize c.blob.length
  · simp [bind, Bind.bind, Except.bind, Prepared.bindInt64, Prepared.bindBlob, h, hdata, hneg, hbig]
  · simp [bind, Bind.bind, Except.bind, pure, Except.pure, Prepared.bindInt64, Prepared.bindBlob, h, hdata, hneg, hbig,
      rowOf, Row.values]

theorem execute_ok (L : Limits) {stmt : Prepared} {db : Connection} {t : Table}
    (h : stmt.upsert L db.visible = .ok t) :
    execute L stmt db = .ok ({ stmt with last := none }, { db.write t with log := db.log ++ [.upsert stmt.bound] }) := by
  simp [execute, Prepared.step, h, Prepared.reset, Bind.bind, Except.bind, pure, Except.pure]

theorem execute_error (L : Limits) {stmt : Prepared} {db : Connection} {code : ResultCode}
    (h : stmt.upsert L db.visible = .error code) (hc : code ≠ .done) :
    execute L stmt db = .error (.assertion "sqlite3_step() failed: %d") := by
  simp [execute, Prepared.step, h, hc, Bind.bind, Except.bind]

/-- Every way a `Set` can go. -/
theorem set_eq (L : Limits) {node : SQLiteBlobNode} (h : Ready node) (c : SetCall) :
    node.set L c =
      if vectorData c = none then .error (.assertion "sqlite3_step() failed: %d")
      else if intOfSize c.blob.length < 0 then .error (.undefined .negativeLength)
      else if L.length < intOfSize c.blob.length then .error (.assertion "sqlite3_bind_blob() failed: %d")
      else if Newer node.sqlite.visible (rowOf c) ∧ L.rowFits (rowOf c) = true then .ok (node.afterSet c)
      else .error (.assertion "sqlite3_step() failed: %d") := by
  obtain ⟨hsql, hreset, -, hkeyed⟩ := id h
  unfold set
  rw [beginBatch_ok h]
  simp only [Bind.bind, Except.bind, bind_eq L hreset]
  by_cases hnull : vectorData c = none
  · -- A null pointer binds NULL, which the row may not hold.
    simp only [if_pos hnull]
    have hup : Prepared.upsert L { node.stmtSet with bound := ⟨some c.key.toNat, some c.seq.toNat, none⟩ }
        node.begun.visible = .error .constraint := by simp [Prepared.upsert, Values.notNull]
    rw [execute_error L hup (by decide)]
  simp only [if_neg hnull]
  by_cases hneg : intOfSize c.blob.length < 0
  · simp only [if_pos hneg]
  simp only [if_neg hneg]
  by_cases hbig : L.length < intOfSize c.blob.length
  · simp only [if_pos hbig]
  simp only [if_neg hbig]
  have hup := upsert_eq L { node.stmtSet with bound := (rowOf c).values } hsql node.begun.visible hkeyed (rowOf c) rfl
  by_cases hnew : Newer node.sqlite.visible (rowOf c)
  · rw [if_pos (show Newer node.begun.visible (rowOf c) from hnew)] at hup
    by_cases hfits : L.rowFits (rowOf c) = true
    · -- The only way through: a new key or a newer number.
      rw [if_pos hfits] at hup
      rw [execute_ok L hup, if_pos ⟨hnew, hfits⟩]
      simp [afterSet, begun, Connection.write, Connection.visible, pure, Except.pure, hreset, rowOf]
    · rw [if_neg hfits] at hup
      rw [execute_error L hup (by decide), if_neg fun h => hfits h.2]
  · -- The CASE gives NULL for a number that is not larger.
    rw [if_neg (show ¬ Newer node.begun.visible (rowOf c) from hnew)] at hup
    rw [execute_error L hup (by decide), if_neg fun h => hnew h.1]

theorem set_ok (L : Limits) {node node' : SQLiteBlobNode} (h : Ready node) (c : SetCall) :
    node.set L c = .ok node' ↔
      Storable L c ∧ Newer node.sqlite.visible (rowOf c) ∧ node' = node.afterSet c := by
  rw [set_eq L h]
  unfold Storable
  constructor
  · intro hs
    split_ifs at hs with hnull hneg hbig hnew
    exact ⟨⟨hnull, Int.not_lt.1 hneg, Int.not_lt.1 hbig, hnew.2⟩, hnew.1, (Except.ok.inj hs).symm⟩
  · rintro ⟨⟨hnull, hneg, hbig, hfits⟩, hnew, rfl⟩
    rw [if_neg hnull, if_neg (Int.not_lt.2 hneg), if_neg (Int.not_lt.2 hbig), if_pos ⟨hnew, hfits⟩]

/-- A `Flush` always gets through; it commits what is pending. -/
theorem flush_eq {node : SQLiteBlobNode} (h : Ready node) :
    node.flush = .ok { node with
      sqlite := ⟨node.sqlite.visible, none, node.sqlite.log ++ if node.batching then [.commit] else []⟩
      batching := false } := by
  have hb := h.batching
  obtain ⟨⟨file, transaction, log⟩, stmt, batching⟩ := node
  cases transaction with
  | none =>
    obtain rfl : batching = false := hb
    simp [flush, Connection.visible]
  | some t =>
    obtain rfl : batching = true := hb
    rfl

/-! ## Runs -/

/-- The table of the last `Set` of each key. -/
def tableOf (cs : List SetCall) : Table :=
  fun k => (Lib.last (fun c : SetCall => (c.key.toNat : Int)) cs k).map rowOf

/-- What a history of calls leaves in the node. -/
structure Holds (calls : List NodeCall) (node : SQLiteBlobNode) : Prop where
  ready : Ready node
  visible : node.sqlite.visible = tableOf (sets calls)
  file : node.sqlite.file = tableOf (flushed calls)
  open_ : openAfter node.sqlite.log = some node.batching
  executed : executed node.sqlite.log = (sets calls).map fun c => (rowOf c).values

/-- Histories that get through. -/
def Accepts (L : Limits) (calls : List NodeCall) : Prop :=
  Increasing (sets calls) ∧ ∀ c ∈ sets calls, Storable L c

theorem holds_init : Holds [] init := ⟨init_ready, rfl, rfl, rfl, rfl⟩

theorem tableOf_snoc (cs : List SetCall) (c : SetCall) :
    tableOf (cs ++ [c]) = Function.update (tableOf cs) c.key.toNat (some (rowOf c)) := by
  funext k
  unfold tableOf
  rw [Lib.last_snoc]
  by_cases hk : (c.key.toNat : Int) = k
  · rw [if_pos hk, ← hk, Function.update_self]; rfl
  · rw [if_neg hk, Function.update_of_ne (Ne.symm hk)]

theorem tableOf_key (cs : List SetCall) (key : UInt32) :
    tableOf cs key.toNat = (lastSet cs key).map rowOf := by
  unfold tableOf
  have hinj : Function.Injective fun k : UInt32 => (k.toNat : Int) :=
    fun x y h => UInt32.toNat_inj.1 (Int.ofNat.inj h)
  exact congrArg (Option.map rowOf) (Lib.last_comp hinj cs key)

/-- Being newer than the row of the last `Set` is being newer than every `Set`. -/
theorem newer_tableOf {cs : List SetCall} (h : Increasing cs) (c : SetCall) :
    Newer (tableOf cs) (rowOf c) ↔ ∀ d ∈ cs, d.key = c.key → d.stamp < c.stamp := by
  have hrow : tableOf cs (rowOf c).key = (lastSet cs c.key).map rowOf := tableOf_key cs c.key
  constructor
  · intro hnew d hd hk
    cases hl : lastSet cs c.key with
    | none => exact absurd hk (Lib.last_none.1 hl d hd)
    | some e =>
      have hlt : (rowOf e).seq < (rowOf c).seq := hnew _ (by rw [hrow, hl]; rfl)
      have hle : d.stamp ≤ e.stamp := (Lib.last_wins SetCall.stamp h hl).le hd hk
      simp only [rowOf, SetCall.stamp] at hlt hle ⊢
      omega
  · intro hall old hold
    rw [hrow, Option.map_eq_some_iff] at hold
    obtain ⟨e, he, rfl⟩ := hold
    have := hall e (Lib.last_mem he).1 (Lib.last_mem he).2
    simp only [rowOf, SetCall.stamp] at this ⊢
    omega

/-- A `Set` after a history that got through. -/
theorem holds_set {calls : List NodeCall} {node : SQLiteBlobNode} (h : Holds calls node)
    (c : SetCall) : Holds (calls ++ [.set c]) (node.afterSet c) where
  ready := afterSet_ready h.ready c
  visible := by
    rw [sets_snoc_set, tableOf_snoc, ← h.visible]; rfl
  file := by
    rw [flushed_snoc_set, ← h.file]; rfl
  open_ := by
    have ho := h.open_
    unfold openAfter at ho ⊢
    cases hb : node.batching <;> simp [afterSet, begun, hb, ho, List.foldl_append]
  executed := by
    have he := h.executed
    unfold SQLite.executed at he ⊢
    cases hb : node.batching <;> simp [afterSet, begun, hb, he]

theorem holds_flush {calls : List NodeCall} {node node' : SQLiteBlobNode} (h : Holds calls node)
    (hs : node.flush = .ok node') : Holds (calls ++ [.flush]) node' := by
  rw [flush_eq h.ready, Except.ok.injEq] at hs
  subst hs
  have ho := h.open_
  have he := h.executed
  unfold openAfter at ho
  unfold SQLite.executed at he
  refine ⟨⟨h.ready.sql, h.ready.reset, rfl, h.ready.keyed⟩, ?_, ?_, ?_, ?_⟩
  · rw [sets_snoc_flush, ← h.visible]; rfl
  · rw [flushed_snoc_flush, ← h.visible]
  · unfold openAfter
    cases hb : node.batching <;> simp [hb, ho, List.foldl_append]
  · unfold SQLite.executed
    cases hb : node.batching <;> simp [he]

theorem accepts_snoc_set {L : Limits} {calls : List NodeCall} {c : SetCall} :
    Accepts L (calls ++ [.set c]) ↔
      Accepts L calls ∧ Storable L c ∧ ∀ d ∈ sets calls, d.key = c.key → d.stamp < c.stamp := by
  unfold Accepts
  rw [sets_snoc_set, increasing_snoc]
  constructor
  · rintro ⟨⟨hi, hc⟩, hs⟩
    exact ⟨⟨hi, fun d hd => hs d (List.mem_append_left _ hd)⟩, hs c (by simp), hc⟩
  · rintro ⟨⟨hi, hs⟩, hc, hn⟩
    refine ⟨⟨hi, hn⟩, fun d hd => ?_⟩
    rcases List.mem_append.1 hd with hd | hd
    · exact hs d hd
    · rw [List.mem_singleton] at hd; exact hd ▸ hc

theorem accepts_snoc_flush {L : Limits} {calls : List NodeCall} :
    Accepts L (calls ++ [.flush]) ↔ Accepts L calls := by
  unfold Accepts; rw [sets_snoc_flush]

/-- A run that gets through was of an accepted history, and leaves its tables. -/
theorem run_holds {L : Limits} {calls : List NodeCall} {node : SQLiteBlobNode} (h : run L calls = .ok node) :
    Holds calls node ∧ Accepts L calls := by
  refine Lib.run_history (fun calls node => Holds calls node ∧ Accepts L calls)
    ⟨holds_init, List.Pairwise.nil, by simp⟩ ?_ h
  rintro calls node (c | _) node' ⟨hh, ha⟩ hs
  · obtain ⟨hst, hnew, rfl⟩ := (set_ok L hh.ready c).1 hs
    rw [hh.visible, newer_tableOf ha.1] at hnew
    exact ⟨holds_set hh c, accepts_snoc_set.2 ⟨ha, hst, hnew⟩⟩
  · exact ⟨holds_flush hh hs, accepts_snoc_flush.2 ha⟩

/-- An accepted history gets through. -/
theorem run_accepts {L : Limits} {calls : List NodeCall} (h : Accepts L calls) : ∃ node, run L calls = .ok node := by
  induction calls using List.reverseRecOn with
  | nil => exact ⟨init, rfl⟩
  | append_singleton calls e ih =>
    cases e with
    | set c =>
      obtain ⟨ha, hst, hnew⟩ := accepts_snoc_set.1 h
      obtain ⟨node, hn⟩ := ih ha
      have hh := (run_holds hn).1
      rw [← newer_tableOf ha.1, ← hh.visible] at hnew
      exact ⟨node.afterSet c, Lib.run_snoc_ok.2 ⟨node, hn, (set_ok L hh.ready c).2 ⟨hst, hnew, rfl⟩⟩⟩
    | flush =>
      obtain ⟨node, hn⟩ := ih (accepts_snoc_flush.1 h)
      exact ⟨_, Lib.run_snoc_ok.2 ⟨node, hn, flush_eq (run_holds hn).1.ready⟩⟩

end SQLiteBlobNode

end JellyBench
