import JellyBench.Lib.Wal
import JellyBench.StoreFaults
import JellyBench.Stores
/-!
# What a stop loses

`Update` flushes the stores when its timer has expired. On SQLite that is a
COMMIT, and the file has the writes before it wherever the process stops. On
RocksDB it synchronizes the write-ahead log, and a power failure loses writes
after it only, the last ones, and tears one of them at most.
-/
open JellyBench.WriteBenchmark JellyBench.SQLite

namespace JellyBench.Durability

/-! ## SQLite -/

/-- The connections a stop in a call can find. A failed assertion stops the
process after the statement it checks. -/
def moments (L : Limits) (node : SQLiteBlobNode) : NodeCall → List Connection
  | .set c =>
    let begun := if node.batching then node.sqlite else node.sqlite.execBegin.2
    match SQLiteBlobNode.bind L node.stmtSet c with
    | .error _ => [node.sqlite, begun]
    | .ok stmt => [node.sqlite, begun, (stmt.step L begun).2.2]
  | .flush => [node.sqlite, if node.batching then node.sqlite.execCommit.2 else node.sqlite]

/-- The same for a call of the backend. -/
def backendMoments (L : Limits) (b : SQLiteWrite) : BackendCall → List Connection
  | .set c => moments L b.blobNode (.set c)
  | .update => if b.flushTimer 0 then moments L b.blobNode .flush else [b.blobNode.sqlite]

theorem begun_file {node : SQLiteBlobNode} (h : SQLiteBlobNode.Ready node) :
    (if node.batching then node.sqlite else node.sqlite.execBegin.2).inTransaction = true ∧
      (if node.batching then node.sqlite else node.sqlite.execBegin.2).file = node.sqlite.file := by
  have hb := h.batching
  cases hbatch : node.batching with
  | true =>
    rw [hbatch] at hb
    exact ⟨hb.symm, rfl⟩
  | false =>
    rw [hbatch] at hb
    simp only [Bool.false_eq_true, if_false]
    unfold Connection.execBegin
    rw [← hb]
    exact ⟨rfl, rfl⟩

/-- Until its COMMIT a call changes the file nowhere. -/
theorem moments_file {L : Limits} {node : SQLiteBlobNode} (h : SQLiteBlobNode.Ready node) {call : NodeCall}
    {db : Connection}
    (hdb : db ∈ moments L node call) : db.file = node.sqlite.file ∨ (call = .flush ∧ db.file = node.sqlite.visible) := by
  cases call with
  | set c =>
    left
    obtain ⟨hin, hfile⟩ := begun_file h
    unfold moments at hdb
    cases hbind : SQLiteBlobNode.bind L node.stmtSet c with
    | error stop =>
      simp only [hbind, List.mem_cons, List.not_mem_nil, or_false] at hdb
      rcases hdb with rfl | rfl
      · rfl
      · exact hfile
    | ok stmt =>
      simp only [hbind, List.mem_cons, List.not_mem_nil, or_false] at hdb
      rcases hdb with rfl | rfl | rfl
      · rfl
      · exact hfile
      · rw [stmt.step_file L hin, hfile]
  | flush =>
    simp only [moments, List.mem_cons, List.not_mem_nil, or_false] at hdb
    rcases hdb with rfl | rfl
    · exact .inl rfl
    · have hb := h.batching
      cases ht : node.sqlite.transaction with
      | none =>
        rw [Connection.inTransaction, ht] at hb
        left
        rw [hb]
        rfl
      | some t =>
        rw [Connection.inTransaction, ht] at hb
        right
        refine ⟨rfl, ?_⟩
        rw [hb]
        simp [Connection.execCommit, Connection.visible, ht]

/-- Whatever calls a backend got through, and wherever the process is stopped in
the next one, even by a failed assertion: what is in the file are the last writes
before the last `Flush`, or before the one that is being made. -/
theorem sqlite_durable (L : Limits) (timer : Timer) (calls : List BackendCall) (b : SQLiteWrite)
    (h : Lib.run (SQLiteWrite.backend L).call (SQLiteWrite.init timer) calls = .ok b) (call : BackendCall) :
    ∀ db ∈ backendMoments L b call, db.close = SQLiteBlobNode.tableOf (flushed (nodeCalls timer calls)) ∨
      (call = .update ∧ b.flushTimer 0 = true ∧ db.close = SQLiteBlobNode.tableOf (issued calls)) := by
  have hnode : SQLiteBlobNode.run L (nodeCalls timer calls) = .ok b.blobNode := FlushingWrite.run_ok h
  obtain ⟨hh, -⟩ := SQLiteBlobNode.run_holds hnode
  have hvisible := hh.visible
  rw [sets_nodeCalls] at hvisible
  rw [← hh.file, ← hvisible]
  intro db hdb
  cases call with
  | set c =>
    have hset : db ∈ moments L b.blobNode (.set c) := hdb
    rcases moments_file hh.ready hset with hfile | ⟨hcall, -⟩
    · exact .inl hfile
    · cases hcall
  | update =>
    unfold backendMoments at hdb
    cases ht : b.flushTimer 0 with
    | false =>
      rw [ht] at hdb
      simp only [Bool.false_eq_true, if_false, List.mem_singleton] at hdb
      exact .inl (by rw [hdb]; rfl)
    | true =>
      rw [ht] at hdb
      simp only [if_true] at hdb
      rcases moments_file hh.ready hdb with hfile | ⟨-, hfile⟩
      · exact .inl hfile
      · exact .inr ⟨rfl, rfl, hfile⟩

/-- A write, a flush, and a stop in the middle of another write. -/
theorem sqlite_durable_open_batch :
    ∃ b, Lib.run (SQLiteWrite.backend defaultLimits).call (SQLiteWrite.init fun _ => true) [.set ⟨1, 0, [7], true⟩, .update] =
        .ok b ∧
      ∀ db ∈ backendMoments defaultLimits b (.set ⟨1, 1, [8], true⟩),
        db.close = SQLiteBlobNode.tableOf (flushed (nodeCalls (fun _ => true) [.set ⟨1, 0, [7], true⟩, .update])) ∨
          (BackendCall.set ⟨1, 1, [8], true⟩ = .update ∧ b.flushTimer 0 = true ∧
            db.close = SQLiteBlobNode.tableOf (issued [.set ⟨1, 0, [7], true⟩, .update])) :=
  ⟨_, rfl, sqlite_durable defaultLimits _ _ _ rfl _⟩

/-! ## RocksDB -/

/-- The column families of the blobs and of their numbers. -/
abbrev blobFamily : Fin 2 := ⟨0, Nat.zero_lt_two⟩
abbrev seqFamily : Fin 2 := ⟨1, Nat.one_lt_two⟩

/-- A `Put`: column family, key and value. -/
abbrev Put := Fin 2 × Bytes × Bytes

def applyPut (db : RocksDB.Columns) (put : Put) : RocksDB.Columns := db.store put.1 put.2.1 put.2.2

/-- A database and its write-ahead log, which the column families share. Of RocksDB
it is assumed that every `Put` goes to the end of the log, that what is kept of the
log are its first records, in order, and that after a `FlushWAL(true)` that succeeds
none of those before it is lost. -/
structure LoggedNode where
  db : RocksDB.Columns
  wal : Lib.Wal Put

namespace LoggedNode

def init : LoggedNode := ⟨RocksDB.empty, .empty⟩

def put (node : LoggedNode) (cf : Fin 2) (key value : Bytes) : LoggedNode :=
  ⟨node.db.store cf key value, node.wal.append (cf, key, value)⟩

/-- `RocksDBBlobNode::Set`, when no operation fails. -/
def set (node : LoggedNode) (c : SetCall) : Except Stop LoggedNode :=
  (RocksDBBlobNode.refuses .done node.db c).map fun stale =>
    if stale then node
    else (node.put blobFamily (bytesOfUInt32 c.key) c.blob).put seqFamily (bytesOfUInt32 c.key) (bytesOfUInt32 c.seq)

/-- `FlushWAL(true)`. Nobody looks at its status. -/
def flush (node : LoggedNode) (status : RocksDB.Status) : LoggedNode :=
  if status = .ok then { node with wal := node.wal.sync } else node

end LoggedNode

/-- A call of the node, with what becomes of its `FlushWAL`. -/
inductive LoggedCall where
  | set (c : SetCall)
  | flush (status : RocksDB.Status)
  deriving DecidableEq

def loggedCall (node : LoggedNode) : LoggedCall → Except Stop LoggedNode
  | .set c => node.set c
  | .flush status => .ok (node.flush status)

def loggedRun (calls : List LoggedCall) : Except Stop LoggedNode := Lib.run loggedCall .init calls

/-- The calls without the flushes that failed. -/
def effective (calls : List LoggedCall) : List NodeCall :=
  calls.filterMap fun
    | .set c => some (.set c)
    | .flush status => if status = .ok then some .flush else none

@[simp] theorem effective_snoc_set (calls : List LoggedCall) (c : SetCall) :
    effective (calls ++ [.set c]) = effective calls ++ [.set c] := by simp [effective]

@[simp] theorem effective_snoc_flush (calls : List LoggedCall) (status : RocksDB.Status) :
    effective (calls ++ [.flush status]) = effective calls ++ if status = .ok then [.flush] else [] := by
  by_cases h : status = .ok <;> simp [effective, h]

theorem set_encode (m : UInt32 → Option SetCall) (w : Lib.Wal Put) (c : SetCall) :
    LoggedNode.set ⟨RocksDBBlobNode.encode m, w⟩ c =
      if RocksDBBlobNode.Stale m c then .ok ⟨RocksDBBlobNode.encode m, w⟩
      else .ok ⟨RocksDBBlobNode.encode (Function.update m c.key (some c)),
        (w.append (blobFamily, bytesOfUInt32 c.key, c.blob)).append
          (seqFamily, bytesOfUInt32 c.key, bytesOfUInt32 c.seq)⟩ := by
  unfold LoggedNode.set
  rw [RocksDBBlobNode.refuses_done]
  by_cases h : RocksDBBlobNode.Stale m c
  · simp [Except.map, h]
  · rw [if_neg h, ← RocksDBBlobNode.store_store]
    simp [Except.map, h, LoggedNode.put]

/-- `db` has the writes before write `k`, and perhaps the blob of write `k`. -/
def Recovered (cs : List SetCall) (k : ℕ) (db : RocksDB.Columns) : Prop :=
  db = RocksDBBlobNode.encode (RocksDBBlobNode.registers (cs.take k)) ∨
    ∃ c, cs[k]? = some c ∧ db = RocksDBBlobNode.halfWritten (RocksDBBlobNode.registers (cs.take k)) c

theorem Recovered.append {cs : List SetCall} {k : ℕ} {db : RocksDB.Columns} (h : Recovered cs k db) (hk : k ≤ cs.length)
    (cs' : List SetCall) : Recovered (cs ++ cs') k db := by
  unfold Recovered at h ⊢
  rw [List.take_append_of_le_length hk]
  rcases h with h | ⟨c, hc, h⟩
  · exact .inl h
  · refine .inr ⟨c, ?_, h⟩
    obtain ⟨hlt, -⟩ := List.getElem?_eq_some_iff.1 hc
    rw [List.getElem?_append_left hlt, hc]

/-- What a history leaves in the node, and what a power failure makes of it. -/
structure Logged (calls : List LoggedCall) (node : LoggedNode) : Prop where
  db : node.db = RocksDBBlobNode.encode (RocksDBBlobNode.registers (sets (effective calls)))
  log : Lib.Wal.replay applyPut RocksDB.empty node.wal.records = node.db
  recovered : ∀ kept, node.wal.Survives kept → ∃ k, (flushed (effective calls)).length ≤ k ∧
    k ≤ (sets (effective calls)).length ∧ Recovered (sets (effective calls)) k (Lib.Wal.replay applyPut RocksDB.empty kept)

theorem logged_init : Logged [] .init where
  db := RocksDBBlobNode.encode_none.symm
  log := rfl
  recovered kept hkept := by
    obtain rfl := Lib.Wal.survives_empty.1 hkept
    exact ⟨0, le_refl _, le_refl _, .inl RocksDBBlobNode.encode_none.symm⟩

theorem flushed_length_le (calls : List NodeCall) : (flushed calls).length ≤ (sets calls).length := by
  unfold flushed sets
  apply List.Sublist.length_le
  apply List.Sublist.filterMap
  rw [← List.reverse_sublist, List.reverse_reverse]
  exact (List.dropWhile_suffix _).sublist

/-- A power failure keeps what it kept before, one `Put` of the new write or both. -/
theorem logged_set {calls : List LoggedCall} {node node' : LoggedNode} {c : SetCall} (h : Logged calls node)
    (hs : node.set c = .ok node') : Logged (calls ++ [.set c]) node' := by
  obtain ⟨db, w⟩ := node
  obtain rfl : db = _ := h.db
  have hlo := flushed_length_le (effective calls)
  have hold : ∀ kept, w.Survives kept → ∃ k, (flushed (effective calls)).length ≤ k ∧
      k ≤ (sets (effective calls) ++ [c]).length ∧
      Recovered (sets (effective calls) ++ [c]) k (Lib.Wal.replay applyPut RocksDB.empty kept) := by
    intro kept hkept
    obtain ⟨k, hlo, hk, hrec⟩ := h.recovered kept hkept
    refine ⟨k, hlo, ?_, hrec.append hk [c]⟩
    rw [List.length_append]
    omega
  rw [set_encode] at hs
  by_cases hstale : RocksDBBlobNode.Stale (RocksDBBlobNode.registers (sets (effective calls))) c
  · -- Nothing is written.
    rw [if_pos hstale] at hs
    obtain rfl := Except.ok.inj hs
    refine ⟨?_, h.log, ?_⟩
    · rw [effective_snoc_set, sets_snoc_set, RocksDBBlobNode.registers_snoc, if_pos hstale]
    · rw [effective_snoc_set, sets_snoc_set, flushed_snoc_set]
      exact hold
  · rw [if_neg hstale] at hs
    obtain rfl := Except.ok.inj hs
    have hlog := h.log
    simp only at hlog
    have hhalf : Lib.Wal.replay applyPut RocksDB.empty (w.records ++ [(blobFamily, bytesOfUInt32 c.key, c.blob)]) =
        RocksDBBlobNode.halfWritten (RocksDBBlobNode.registers (sets (effective calls))) c := by
      rw [Lib.Wal.replay_snoc, hlog]
      rfl
    have hwhole : Lib.Wal.replay applyPut RocksDB.empty
        (w.records ++ [(blobFamily, bytesOfUInt32 c.key, c.blob)] ++
          [(seqFamily, bytesOfUInt32 c.key, bytesOfUInt32 c.seq)]) =
        RocksDBBlobNode.encode (Function.update (RocksDBBlobNode.registers (sets (effective calls))) c.key (some c)) := by
      rw [Lib.Wal.replay_snoc, hhalf, ← RocksDBBlobNode.store_store]
      rfl
    refine ⟨?_, hwhole, ?_⟩
    · rw [effective_snoc_set, sets_snoc_set, RocksDBBlobNode.registers_snoc, if_neg hstale]
    · rw [effective_snoc_set, sets_snoc_set, flushed_snoc_set]
      intro kept hkept
      rcases Lib.Wal.survives_append.1 hkept with hkept | rfl
      · rcases Lib.Wal.survives_append.1 hkept with hkept | rfl
        · exact hold kept hkept
        · -- Only the blob.
          refine ⟨(sets (effective calls)).length, hlo, by simp, .inr ⟨c, by simp, ?_⟩⟩
          rw [List.take_left]
          exact hhalf
      · refine ⟨(sets (effective calls) ++ [c]).length, ?_, le_refl _, .inl ?_⟩
        · rw [List.length_append]
          omega
        · rw [List.take_length, RocksDBBlobNode.registers_snoc, if_neg hstale]
          exact hwhole

theorem logged_flush {calls : List LoggedCall} {node : LoggedNode} (h : Logged calls node) (status : RocksDB.Status) :
    Logged (calls ++ [.flush status]) (node.flush status) := by
  unfold LoggedNode.flush
  by_cases hok : status = .ok
  · rw [if_pos hok]
    refine ⟨?_, h.log, ?_⟩
    · simp [hok, h.db]
    · intro kept hkept
      obtain rfl := Lib.Wal.survives_sync.1 hkept
      simp only [effective_snoc_flush, hok, if_true, flushed_snoc_flush, sets_snoc_flush]
      refine ⟨_, le_refl _, le_refl _, .inl ?_⟩
      rw [List.take_length, ← h.db]
      exact h.log
  · rw [if_neg hok]
    refine ⟨?_, h.log, ?_⟩
    · simp [hok, h.db]
    · simpa [hok] using h.recovered

/-- Without failures of its operations the node always gets through. -/
theorem loggedRun_ok (calls : List LoggedCall) : ∃ node, loggedRun calls = .ok node ∧ Logged calls node := by
  induction calls using List.reverseRecOn with
  | nil => exact ⟨_, rfl, logged_init⟩
  | append_singleton calls call ih =>
    obtain ⟨node, hrun, hnode⟩ := ih
    cases call with
    | set c =>
      have hset : ∃ node', node.set c = .ok node' := by
        obtain ⟨db, w⟩ := node
        obtain rfl : db = _ := hnode.db
        rw [set_encode]
        split
        · exact ⟨_, rfl⟩
        · exact ⟨_, rfl⟩
      obtain ⟨node', hs⟩ := hset
      exact ⟨node', Lib.run_snoc_ok.2 ⟨node, hrun, hs⟩, logged_set hnode hs⟩
    | flush status => exact ⟨_, Lib.run_snoc_ok.2 ⟨node, hrun, rfl⟩, logged_flush hnode status⟩

/-- After any calls a power failure, whatever it keeps of the log, leaves the first
writes, all before the last flush that succeeded and any number after it, with at
most the blob of the next write stored without its number. Without a failure the
store is the one of the node without a log. -/
theorem rocksdb_durable (calls : List LoggedCall) :
    ∃ node, loggedRun calls = .ok node ∧ RocksDBBlobNode.run (effective calls) = .ok node.db ∧
      ∀ kept, node.wal.Survives kept → ∃ k, (flushed (effective calls)).length ≤ k ∧
        k ≤ (sets (effective calls)).length ∧
        Recovered (sets (effective calls)) k (Lib.Wal.replay applyPut RocksDB.empty kept) := by
  obtain ⟨node, hrun, hnode⟩ := loggedRun_ok calls
  exact ⟨node, hrun, by rw [hnode.db, RocksDBBlobNode.run_eq], hnode.recovered⟩

/-! ## How much is lost -/

theorem nodeCalls_append (timer : Timer) (calls calls' : List BackendCall) :
    nodeCalls timer (calls ++ calls') =
      nodeCalls timer calls ++ nodeCalls (fun n => timer (calls.count .update + n)) calls' := by
  induction calls generalizing timer with
  | nil => simp [nodeCalls]
  | cons call calls ih =>
    cases call with
    | set c => simp [nodeCalls, ih]
    | update =>
      have hshift : (fun n => timer.next (calls.count .update + n)) =
          fun n => timer ((BackendCall.update :: calls).count .update + n) := by
        funext n
        rw [List.count_cons_self, Timer.next]
        congr 1
        omega
      rw [List.cons_append, nodeCalls, nodeCalls, ih, hshift]
      split
      · rfl
      · rfl

theorem flushed_prefix_sets (calls : List NodeCall) : flushed calls <+: sets calls := by
  unfold flushed sets
  apply List.IsPrefix.filterMap
  rw [← List.reverse_suffix, List.reverse_reverse]
  exact List.dropWhile_suffix _

/-- What has been flushed stays flushed. -/
theorem flushed_append (calls calls' : List NodeCall) : flushed calls <+: flushed (calls ++ calls') := by
  induction calls' using List.reverseRecOn with
  | nil => simp
  | append_singleton calls' call ih =>
    rw [← List.append_assoc]
    cases call with
    | set c =>
      rw [flushed_snoc_set]
      exact ih
    | flush =>
      rw [flushed_snoc_flush]
      exact ih.trans (flushed_prefix_sets _)

section
variable {σ : Type} {rnd : ℚ → ℚ} {next : Supply σ} {config : Config}

/-- A turn ends with its `Update`. -/
theorem iteration_calls {fuel : Nat} {s s' : State σ} {tick : Tick} (h : iteration rnd next config fuel s tick = .ok s') :
    ∃ calls, s'.calls = calls ++ [.update] ∧ s.calls <+: calls ∧ calls.count .update = s.calls.count .update := by
  unfold iteration at h
  cases hd : drain rnd next fuel { s with prevTime := tick.currentTime, pending := due rnd config s tick } with
  | error stop => rw [hd] at h; cases h
  | ok t =>
    rw [hd] at h
    obtain rfl := Except.ok.inj h
    have hkeep : ∀ t u : State σ, s.calls <+: t.calls ∧ t.calls.count .update = s.calls.count .update →
        0 < t.pending → write rnd next t = .ok u → s.calls <+: u.calls ∧ u.calls.count .update = s.calls.count .update := by
      rintro t u ⟨hpre, hcount⟩ - hw
      obtain ⟨key, blob, random, -, rfl⟩ := write_ok hw
      refine ⟨hpre.trans (List.prefix_append _ _), ?_⟩
      simp [hcount]
    obtain ⟨⟨hpre, hcount⟩, -⟩ := drain_induct hkeep hd ⟨List.prefix_refl _, rfl⟩
    exact ⟨t.calls, rfl, hpre, hcount⟩

theorem run_calls {fuel : Nat} {ticks : List Tick} {s s' : State σ}
    (h : Lib.run (iteration rnd next config fuel) s ticks = .ok s') :
    s.calls <+: s'.calls ∧ s'.calls.count .update = s.calls.count .update + ticks.length := by
  refine Lib.run_history
    (fun ticks s' => s.calls <+: s'.calls ∧ s'.calls.count .update = s.calls.count .update + ticks.length)
    ⟨List.prefix_refl _, rfl⟩ ?_ h
  rintro ticks t tick t' ⟨hpre, hcount⟩ hi
  obtain ⟨calls, hcalls, hpre', hcount'⟩ := iteration_calls hi
  rw [hcalls]
  refine ⟨(hpre.trans hpre').trans (List.prefix_append _ _), ?_⟩
  rw [List.count_append, hcount', hcount, List.length_append]
  rfl

/-- After a turn whose `Update` flushed, its writes are safe for good. -/
theorem flushed_from {fuel : Nat} {startTime : Int} {random : σ} {pre : List Tick} {tick : Tick} {s : State σ}
    {timer : Timer}
    (h : Lib.run (iteration rnd next config fuel) (start startTime random) (pre ++ [tick]) = .ok s)
    (hflush : timer pre.length = true) {calls : List BackendCall} (hcalls : s.calls <+: calls) :
    s.sets <+: flushed (nodeCalls timer calls) := by
  obtain ⟨t, ht, hi⟩ := Lib.run_snoc_ok.1 h
  obtain ⟨-, hcount⟩ := run_calls ht
  obtain ⟨before, hbefore, -, hcount'⟩ := iteration_calls hi
  have hupdates : before.count .update = pre.length := by
    rw [hcount', hcount]
    simp [start]
  obtain ⟨after, rfl⟩ := hcalls
  rw [nodeCalls_append]
  refine List.IsPrefix.trans ?_ (flushed_append _ _)
  rw [hbefore, nodeCalls_append, hupdates]
  simp only [nodeCalls, Nat.add_zero, hflush, if_true, flushed_snoc_flush, sets_nodeCalls]
  show issued s.calls <+: issued before
  rw [hbefore, issued_snoc_update]

end

/-- From a turn whose `Update` flushed until any later turn, at every call, a stop
loses no more writes than the time between the two turns is worth, and one. -/
theorem loss_bounded {σ : Type} (next : Supply σ) (config : Config)
    (hsmall : credit binary64 config (Drain.mostPassed config) ≤ 2 ^ 53) (fuel : Nat) (startTime : Int) (random : σ)
    (pre window : List Tick) (tick : Tick) (hsteady : Steady startTime (pre ++ [tick] ++ window))
    (hend : ∀ t ∈ pre ++ [tick] ++ window, t.currentTime < endTime config startTime) (s s' : State σ)
    (hs : Lib.run (iteration binary64 next config fuel) (start startTime random) (pre ++ [tick]) = .ok s)
    (hs' : Lib.run (iteration binary64 next config fuel) s window = .ok s') (timer : Timer)
    (hflush : timer pre.length = true) (calls : List BackendCall) (hfrom : s.calls <+: calls) (hto : calls <+: s'.calls) :
    flushed (nodeCalls timer calls) <+: issued calls ∧
      ((issued calls).length : ℚ) - (flushed (nodeCalls timer calls)).length ≤
        (1 + 1 / 2 ^ 30) * SteadyRate.worth config (s'.prevTime - s.prevTime) + 1 := by
  obtain ⟨hrest, hwindow, hpassed⟩ := SteadyRate.window_ready hsmall hsteady hend hs
  have hrate := SteadyRate.window_le hrest hwindow hpassed hs'
  have hsafe : ((s.sets.length : ℕ) : ℚ) ≤ (flushed (nodeCalls timer calls)).length := by
    exact_mod_cast (flushed_from hs hflush hfrom).length_le
  have hissued : ((issued calls).length : ℚ) ≤ s'.sets.length := by
    exact_mod_cast (hto.filterMap _).length_le
  constructor
  · rw [← sets_nodeCalls timer calls]
    exact flushed_prefix_sets _
  · linarith

/-- A turn of a millisecond that flushes, and a millisecond later. -/
theorem loss_bounded_second_turn :
    let config : Config := { writeRate := 10000 }
    ∃ N s s', Lib.run (iteration binary64 Sequence.nextDraw config N) (start 0 fun _ => ⟨7, [1], by simp⟩)
        ([] ++ [⟨1000000, none, none⟩]) = .ok s ∧
      Lib.run (iteration binary64 Sequence.nextDraw config N) s [⟨2000000, none, none⟩] = .ok s' ∧
      flushed (nodeCalls (fun _ => true) s'.calls) <+: issued s'.calls ∧
        ((issued s'.calls).length : ℚ) - (flushed (nodeCalls (fun _ => true) s'.calls)).length ≤
          (1 + 1 / 2 ^ 30) * SteadyRate.worth config (s'.prevTime - s.prevTime) + 1 := by
  intro config
  have hrate : config.writeRate = 10000 := rfl
  obtain ⟨N, s', hrun⟩ := Sequence.loop_ends hrate (fun _ => ⟨7, [1], by simp⟩) 0
    [⟨1000000, none, none⟩, ⟨2000000, none, none⟩]
  have hend : ∀ tick ∈ ([⟨1000000, none, none⟩, ⟨2000000, none, none⟩] : List Tick),
      tick.currentTime < endTime config 0 := by decide
  have hloop := hrun N (le_refl N)
  unfold loop at hloop
  rw [turns_eq_self hend] at hloop
  rw [show ([⟨1000000, none, none⟩, ⟨2000000, none, none⟩] : List Tick) =
    [⟨1000000, none, none⟩] ++ [⟨2000000, none, none⟩] from rfl] at hloop
  obtain ⟨s, hs, hs'⟩ := Lib.run_append_ok.1 hloop
  refine ⟨N, s, s', hs, hs', ?_⟩
  exact loss_bounded Sequence.nextDraw config (Drain.credit_small hrate _) N 0 _ [] [⟨2000000, none, none⟩]
    ⟨1000000, none, none⟩ ⟨by decide, by decide, trivial⟩ hend s s' hs hs' _ rfl _ (run_calls hs').1
    (List.prefix_refl _)

end JellyBench.Durability
