import JellyBench.RocksDB
import JellyBench.Backend
import JellyBench.Lib.Runs
import Mathlib.Tactic.FinCases
import Mathlib.Data.Fintype.Basic
/-!
# The RocksDB blob node

A blob is stored under its key in column family 0 and its sequence number in
column family 1. `encode m` are the column families that hold, for each key,
the `Set` call `m` has for it. `set_encode` says how a `Set` goes from there;
nothing below it looks at the operations again.
-/
open JellyBench.RocksDB

namespace JellyBench.RocksDBBlobNode

/-- `_StringToCompressionType` -/
def stringToCompressionType (s : String) : Except Stop CompressionType :=
  if s = "none" then .ok .noCompression
  else if s = "zstd" then .ok .zstd
  else if s = "lz4" then .ok .lz4Compression
  else if s = "snappy" then .ok .snappyCompression
  else .error (.assertion "Invalid rocksdb compression: %s")

/-- The constructor, as far as opening the database goes: the column families it
keeps open. `defaults` are the options of a new `ColumnFamilyOptions`. The old
database is removed first. -/
def init (defaults : ColumnFamilyOptions) (rocksDBCompression : String) :
    Except Stop (List ColumnFamilyDescriptor) := do
  let compression ← stringToCompressionType rocksDBCompression
  let (status, handles) := openDefault ⟨true, true, compression⟩ none
  alwaysAssert (status = .ok) "rocksdb::DB::Open() failed: %s"
  -- CreateColumnFamily(ColumnFamilyOptions(), "seq")
  let handles := handles ++ [⟨"seq", defaults⟩]
  let disk := some (handles.map (·.name))
  let descriptors := [⟨"default", defaults⟩, ⟨"seq", defaults⟩]
  let compression ← stringToCompressionType rocksDBCompression
  let (status, handles) := openColumnFamilies ⟨false, false, compression⟩ disk descriptors
  alwaysAssert (status = .ok) "rocksdb::DB::Open() failed: %s"
  pure handles

/-- Both column families are opened with the default options: the compression
named is only looked up. -/
theorem init_eq (defaults : ColumnFamilyOptions) (rocksDBCompression : String) :
    init defaults rocksDBCompression =
      (stringToCompressionType rocksDBCompression).map fun _ => [⟨"default", defaults⟩, ⟨"seq", defaults⟩] := by
  unfold init
  cases stringToCompressionType rocksDBCompression <;>
    simp [openDefault, openColumnFamilies, Bind.bind, Except.bind, pure, Except.pure, Except.map]

/-- Control did not come back, and what the store holds then. -/
structure Halt where
  stop : Stop
  db : Columns

/-- Keep the store when control does not come back. -/
def halting {α : Type} (db : Columns) (r : Except Stop α) : Except Halt α := r.mapError fun stop => ⟨stop, db⟩

/-- What becomes of the three store operations of a `Set`. -/
structure Fates where
  get : Fate
  putBlob : Fate
  putSeq : Fate
  deriving DecidableEq

def Fates.allDone : Fates := ⟨.done, .done, .done⟩

/-- The first block of `Set`: whether it returns early. -/
def refuses (fate : Fate) (db : Columns) (c : SetCall) : Except Stop Bool := do
  let (status, existingSeq) ← db.get fate 1 (bytesOfUInt32 c.key)
  if status = .ok then
    match existingSeq.bind uint32OfBytes with
    | some seqValue => pure (decide (seqValue ≥ c.seq))
    | none => .error (.undefined .badPointer)
  -- Every other status, not only NotFound, lets the writes go on.
  else pure false

def set (fates : Fates) (db : Columns) (c : SetCall) : Except Halt Columns := do
  if ← halting db (refuses fates.get db c) then
    return db
  let (status, db) ← halting db (db.put fates.putBlob 0 (bytesOfUInt32 c.key) c.blob)
  halting db (alwaysAssert (status = .ok) "rocksdb::DB::Put() failed: %s")
  let (status, db) ← halting db (db.put fates.putSeq 1 (bytesOfUInt32 c.key) (bytesOfUInt32 c.seq))
  halting db (alwaysAssert (status = .ok) "rocksdb::DB::Put() failed: %s")
  return db

/-- `FlushWAL` changes nothing that is read. -/
def call (db : Columns) : NodeCall → Except Halt Columns
  | .set c => set .allDone db c
  | .flush => .ok db

/-- Calls on a freshly constructed node. -/
def run (calls : List NodeCall) : Except Halt Columns := Lib.run call empty calls

/-! ## The stores that hold `Set` calls -/

/-- The blob and the sequence number stored for a key. -/
def blobAt (db : Columns) (key : UInt32) : Option Bytes := db 0 (bytesOfUInt32 key)
def seqAt (db : Columns) (key : UInt32) : Option Bytes := db 1 (bytesOfUInt32 key)

/-- Each key with the blob and the sequence number of its `Set` in `m`. -/
def encode (m : UInt32 → Option SetCall) : Columns := fun cf k =>
  (uint32OfBytes k).bind fun key => (m key).map fun c => if cf = 0 then c.blob else bytesOfUInt32 c.seq

theorem encode_blob (m : UInt32 → Option SetCall) (key : UInt32) :
    blobAt (encode m) key = (m key).map (·.blob) := by
  simp [blobAt, encode]

theorem encode_seq (m : UInt32 → Option SetCall) (key : UInt32) :
    seqAt (encode m) key = (m key).map fun c => bytesOfUInt32 c.seq := by
  simp [seqAt, encode]

theorem encode_none : encode (fun _ => none) = empty := by
  funext cf k
  cases h : uint32OfBytes k <;> simp [encode, empty, h]

/-- Both writes of a `Set` store the call under its key. -/
theorem store_store (m : UInt32 → Option SetCall) (c : SetCall) :
    ((encode m).store 0 (bytesOfUInt32 c.key) c.blob).store 1 (bytesOfUInt32 c.key) (bytesOfUInt32 c.seq) =
      encode (Function.update m c.key (some c)) := by
  funext cf k
  by_cases hk : k = bytesOfUInt32 c.key
  · -- Each write sets the value of its own column family.
    subst hk
    fin_cases cf <;> simp [Columns.store, encode]
  · -- Every other key keeps its values, in both.
    have hne : ∀ key, uint32OfBytes k = some key → key ≠ c.key := by
      rintro key h rfl
      exact hk (bytes_of_uint32OfBytes h)
    fin_cases cf <;> cases h : uint32OfBytes k <;> simp_all [Columns.store, encode]

/-- Only the blob of a `Set` has been written. -/
def halfWritten (m : UInt32 → Option SetCall) (c : SetCall) : Columns :=
  (encode m).store 0 (bytesOfUInt32 c.key) c.blob

theorem halfWritten_blob (m : UInt32 → Option SetCall) (c : SetCall) :
    blobAt (halfWritten m c) c.key = some c.blob := by
  simp [blobAt, halfWritten, Columns.store]

theorem halfWritten_seq (m : UInt32 → Option SetCall) (c : SetCall) (key : UInt32) :
    seqAt (halfWritten m c) key = seqAt (encode m) key := by
  simp [seqAt, halfWritten, Columns.store]

/-- The staleness rule: the stored sequence number is at least as large. -/
def Stale (m : UInt32 → Option SetCall) (c : SetCall) : Prop := ∃ d, m c.key = some d ∧ c.stamp ≤ d.stamp

instance (m : UInt32 → Option SetCall) (c : SetCall) : Decidable (Stale m c) :=
  match h : m c.key with
  | some d => decidable_of_iff (c.stamp ≤ d.stamp) (by simp [Stale, h])
  | none => isFalse (by simp [Stale, h])

theorem refuses_done (m : UInt32 → Option SetCall) (c : SetCall) :
    refuses .done (encode m) c = .ok (decide (Stale m c)) := by
  have hseq : encode m 1 (bytesOfUInt32 c.key) = _ := encode_seq m c.key
  unfold refuses Columns.get
  rw [hseq]
  cases h : m c.key with
  | none => simp [Stale, h, Bind.bind, Except.bind, pure, Except.pure]
  | some d => simp [Stale, h, SetCall.stamp, Bind.bind, Except.bind, pure, Except.pure, UInt32.le_iff_toNat_le]

/-- What the two writes of a `Set` come to. -/
def written (fates : Fates) (m : UInt32 → Option SetCall) (c : SetCall) : Except Halt Columns :=
  match fates.putBlob, fates.putSeq with
  | .stopped, _ => .error ⟨.killed, encode m⟩
  | .fails _, _ => .error ⟨.assertion "rocksdb::DB::Put() failed: %s", encode m⟩
  | .done, .stopped => .error ⟨.killed, halfWritten m c⟩
  | .done, .fails _ => .error ⟨.assertion "rocksdb::DB::Put() failed: %s", halfWritten m c⟩
  | .done, .done => .ok (encode (Function.update m c.key (some c)))

/-- Every way a `Set` can go. -/
theorem set_encode (fates : Fates) (m : UInt32 → Option SetCall) (c : SetCall) :
    set fates (encode m) c =
      match fates.get with
      | .stopped => .error ⟨.killed, encode m⟩
      | .fails _ => written fates m c
      | .done => if Stale m c then .ok (encode m) else written fates m c := by
  -- Past the first block only the two writes are left.
  have hw : halting (encode m) (refuses fates.get (encode m) c) = .ok false →
      set fates (encode m) c = written fates m c := by
    intro h
    obtain ⟨g, b, s⟩ := fates
    simp only [set, h, Bind.bind, Except.bind]
    cases b with
    | stopped => rfl
    | fails f => rfl
    | done =>
      cases s with
      | stopped => rfl
      | fails f => rfl
      | done => exact congrArg Except.ok (store_store m c)
  cases hg : fates.get with
  | stopped => simp [set, hg, refuses, Columns.get, halting, Except.mapError, Bind.bind, Except.bind]
  | fails f => exact hw (by rw [hg]; rfl)
  | done =>
    by_cases hs : Stale m c
    · simp [set, hg, refuses_done, hs, halting, Except.mapError, Bind.bind, Except.bind, pure, Except.pure]
    · rw [hw (by rw [hg, refuses_done]; simp [hs, halting, Except.mapError])]
      simp [hs]

/-! ## Runs -/

/-- The `Set` call each key has after `cs`, by the staleness rule. -/
abbrev registers (cs : List SetCall) : UInt32 → Option SetCall := Lib.registers SetCall.key SetCall.stamp cs

/-- The staleness rule is the rule of a last-writer-wins register. -/
theorem registers_snoc (cs : List SetCall) (c : SetCall) :
    registers (cs ++ [c]) =
      if Stale (registers cs) c then registers cs else Function.update (registers cs) c.key (some c) := by
  unfold registers
  rw [Lib.registers_snoc]
  rcases Lib.offer_cases SetCall.stamp (registers cs) c with ⟨d, hd, hle, he⟩ | ⟨hlt, he⟩
  · rw [he, if_pos ⟨d, hd, hle⟩]
  · rw [he, if_neg]
    rintro ⟨d, hd, hle⟩
    exact absurd hle (Nat.not_le_of_lt (hlt d hd))

theorem set_allDone (cs : List SetCall) (c : SetCall) :
    set .allDone (encode (registers cs)) c = .ok (encode (registers (cs ++ [c]))) := by
  rw [set_encode, registers_snoc]
  by_cases h : Stale (registers cs) c
  · simp [Fates.allDone, h]
  · simp [Fates.allDone, h, written]

/-- A run without faults always gets through. -/
theorem run_eq (calls : List NodeCall) : run calls = .ok (encode (registers (sets calls))) := by
  induction calls using List.reverseRecOn with
  | nil => exact congrArg Except.ok encode_none.symm
  | append_singleton calls e ih =>
    refine Lib.run_snoc_ok.2 ⟨_, ih, ?_⟩
    cases e with
    | set c => rw [sets_snoc_set]; exact set_allDone (sets calls) c
    | flush => rw [sets_snoc_flush]; rfl

end JellyBench.RocksDBBlobNode
