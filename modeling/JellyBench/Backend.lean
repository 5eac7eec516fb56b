import JellyBench.Cpp
import JellyBench.Lib.LastWriter
/-!
# The calls a write backend receives

`IWriteBackend` has two calls that change anything: `Set`, and `Update`, which
the SQLite and RocksDB backends turn into a `Flush` of their blob node when
their timer has expired.
-/
namespace JellyBench

/-- The arguments of `Set`. The blob comes from a `std::vector`, as its address
and size. `storage` says whether the vector has any where it is empty: it may have
been longer, or have room reserved. -/
structure SetCall where
  key : UInt32
  seq : UInt32
  blob : Bytes
  storage : Bool
  deriving DecidableEq, Repr

/-- What is at the address handed over, which is null for a vector without storage. -/
def vectorData (c : SetCall) : Option Bytes := if c.blob = [] ∧ c.storage = false then none else some c.blob

theorem vectorData_ne_none {c : SetCall} (h : c.blob ≠ []) : vectorData c ≠ none := by
  simp [vectorData, h]

theorem vectorData_some {c : SetCall} (h : vectorData c ≠ none) : vectorData c = some c.blob := by
  unfold vectorData at h ⊢
  split_ifs at h ⊢
  · contradiction
  · rfl

/-- What a `Set` asks to have stored. -/
structure Entry where
  key : UInt32
  seq : UInt32
  blob : Bytes
  deriving DecidableEq, Repr

def SetCall.entry (c : SetCall) : Entry := ⟨c.key, c.seq, c.blob⟩

/-- A call of a blob node. -/
inductive NodeCall where
  | set (c : SetCall)
  | flush
  deriving DecidableEq, Repr

/-- The `Set` calls among the calls of a blob node, in order. -/
def sets (calls : List NodeCall) : List SetCall :=
  calls.filterMap fun
    | .set c => some c
    | .flush => none

@[simp] theorem sets_nil : sets [] = [] := rfl

@[simp] theorem sets_snoc_set (calls : List NodeCall) (c : SetCall) :
    sets (calls ++ [.set c]) = sets calls ++ [c] := by simp [sets]

@[simp] theorem sets_snoc_flush (calls : List NodeCall) : sets (calls ++ [.flush]) = sets calls := by
  simp [sets]

/-- The `Set` calls before the most recent `Flush`. -/
def flushed (calls : List NodeCall) : List SetCall :=
  sets (calls.reverse.dropWhile (· ≠ .flush)).reverse

@[simp] theorem flushed_nil : flushed [] = [] := rfl

@[simp] theorem flushed_snoc_set (calls : List NodeCall) (c : SetCall) :
    flushed (calls ++ [.set c]) = flushed calls := by simp [flushed]

@[simp] theorem flushed_snoc_flush (calls : List NodeCall) : flushed (calls ++ [.flush]) = sets calls := by
  simp [flushed]

/-- The order of sequence numbers. -/
def SetCall.stamp (c : SetCall) : Nat := c.seq.toNat

/-- Each key is set with ever larger sequence numbers. -/
abbrev Increasing (cs : List SetCall) : Prop := Lib.Increasing SetCall.key SetCall.stamp cs

theorem increasing_snoc {cs : List SetCall} {c : SetCall} :
    Increasing (cs ++ [c]) ↔ Increasing cs ∧ ∀ d ∈ cs, d.key = c.key → d.stamp < c.stamp :=
  Lib.increasing_snoc

/-- The last `Set` of a key. -/
abbrev lastSet (cs : List SetCall) (key : UInt32) : Option SetCall := Lib.last SetCall.key cs key

end JellyBench
