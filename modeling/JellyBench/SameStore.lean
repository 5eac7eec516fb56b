import JellyBench.SQLiteBlobNode
import JellyBench.RocksDBBlobNode
/-!
# The two blob nodes as one store

Both nodes get the same calls. RocksDB drops a stale `Set` and copies no byte
from a null address; SQLite stores NULL for either, which its table does not
allow. The nodes are the same store exactly for the histories SQLite accepts.
-/
open JellyBench.SQLite JellyBench.RocksDB

namespace JellyBench.SameStore

/-- A row, and the values of column families 1 and 0. -/
def SameEntry : Option Row → Option Bytes → Option Bytes → Prop
  | some row, some seq, some data => (uint32OfBytes seq).map (fun s => (s.toNat : Int)) = some row.seq ∧ data = row.data
  | none, none, none => True
  | _, _, _ => False

/-- Both nodes process every call, and then hold the same for every key. -/
def Agree (L : Limits) (calls : List NodeCall) : Prop :=
  ∃ node db, SQLiteBlobNode.run L calls = .ok node ∧ RocksDBBlobNode.run calls = .ok db ∧
    ∀ key : UInt32, SameEntry (node.sqlite.visible key.toNat) (RocksDBBlobNode.seqAt db key) (RocksDBBlobNode.blobAt db key)

/-- The blob of the last `Set` of each key survives the cast of its size. -/
def WholeBlobs (cs : List SetCall) : Prop := ∀ key c, lastSet cs key = some c → c.blob.length < 2 ^ 31

/-- The bytes the row of a `Set` has are those of its blob, if none were cut off. -/
theorem take_eq_self_iff {blob : Bytes} (h : 0 ≤ intOfSize blob.length) :
    blob = blob.take (intOfSize blob.length).toNat ↔ blob.length < 2 ^ 31 := by
  have hle := intOfSize_le blob.length
  rw [eq_comm, List.take_eq_self_iff]
  constructor
  · intro hlen
    exact lt_of_intOfSize (by omega)
  · intro hlt
    rw [intOfSize_small hlt, Int.toNat_natCast]

/-- What the nodes hold for a key is its last `Set`, for both. -/
theorem sameEntry_iff {L : Limits} {calls : List NodeCall} (ha : SQLiteBlobNode.Accepts L calls) (key : UInt32) :
    SameEntry (SQLiteBlobNode.tableOf (sets calls) key.toNat)
        (RocksDBBlobNode.seqAt (RocksDBBlobNode.encode (RocksDBBlobNode.registers (sets calls))) key)
        (RocksDBBlobNode.blobAt (RocksDBBlobNode.encode (RocksDBBlobNode.registers (sets calls))) key) ↔
      ∀ c, lastSet (sets calls) key = some c → c.blob.length < 2 ^ 31 := by
  have hreg : RocksDBBlobNode.registers (sets calls) key = lastSet (sets calls) key :=
    congrFun (Lib.registers_increasing SetCall.stamp ha.1) key
  rw [SQLiteBlobNode.tableOf_key, RocksDBBlobNode.encode_seq, RocksDBBlobNode.encode_blob, hreg]
  cases hl : lastSet (sets calls) key with
  | none => simp [SameEntry]
  | some c =>
    have hst := ha.2 c (Lib.last_mem hl).1
    simp only [Option.map_some, SameEntry, uint32OfBytes_bytes, SQLiteBlobNode.rowOf, true_and,
      take_eq_self_iff hst.2.1]
    simp

/-- The nodes are the same store exactly when every blob is one SQLite takes, at an
address that is not null, the sequence numbers of each key increase, and no blob
that stays was cut off. -/
theorem agree_iff (L : Limits) (calls : List NodeCall) :
    Agree L calls ↔
      Increasing (sets calls) ∧ (∀ c ∈ sets calls, SQLiteBlobNode.Storable L c) ∧ WholeBlobs (sets calls) := by
  constructor
  · rintro ⟨node, db, hnode, hdb, hsame⟩
    obtain ⟨hh, ha⟩ := SQLiteBlobNode.run_holds hnode
    rw [RocksDBBlobNode.run_eq, Except.ok.injEq] at hdb
    subst hdb
    rw [hh.visible] at hsame
    exact ⟨ha.1, ha.2, fun key => (sameEntry_iff ha key).1 (hsame key)⟩
  · rintro ⟨hi, hs, hw⟩
    have ha : SQLiteBlobNode.Accepts L calls := ⟨hi, hs⟩
    obtain ⟨node, hnode⟩ := SQLiteBlobNode.run_accepts ha
    refine ⟨node, _, hnode, RocksDBBlobNode.run_eq calls, fun key => ?_⟩
    rw [(SQLiteBlobNode.run_holds hnode).1.visible]
    exact (sameEntry_iff ha key).2 (hw key)

/-- Key 1 is set with number 5 and then with number 3: SQLite stops. -/
theorem stale_set_stops : ¬ ∀ (L : Limits) (calls : List NodeCall), Agree L calls := by
  intro h
  obtain ⟨node, db, hnode, -⟩ := h defaultLimits [.set ⟨1, 5, [7], true⟩, .set ⟨1, 3, [8], true⟩]
  exact absurd (SQLiteBlobNode.run_holds hnode).2.1 (by decide)

end JellyBench.SameStore
