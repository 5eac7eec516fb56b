import JellyBench.Cpp
import Mathlib.Logic.Function.Basic
/-!
# A RocksDB database

What the blob node uses of RocksDB. A column family is a finite map from byte
strings to byte strings; `DB::Open` with descriptors takes the options of a
column family from its descriptor. What becomes of one operation is up to its
`Fate`.
-/
namespace JellyBench.RocksDB

inductive Failure where
  | ioError | corruption | invalidArgument
  deriving DecidableEq, Repr

inductive Status where
  | ok
  | notFound
  | failed (failure : Failure)
  deriving DecidableEq, Repr

/-! ## Reading and writing -/

/-- The column families by the index of their handle. -/
abbrev Columns := Fin 2 → Bytes → Option Bytes

def empty : Columns := fun _ _ => none

/-- An operation is carried out, fails without an effect, or never starts
because the process stops before it. -/
inductive Fate where
  | done
  | fails (failure : Failure)
  | stopped
  deriving DecidableEq, Repr

/-- `DB::Get`, the value if the status is ok. -/
def Columns.get (db : Columns) (fate : Fate) (cf : Fin 2) (key : Bytes) : Except Stop (Status × Option Bytes) :=
  match fate with
  | .done =>
    match db cf key with
    | some value => .ok (.ok, some value)
    | none => .ok (.notFound, none)
  | .fails failure => .ok (.failed failure, none)
  | .stopped => .error .killed

/-- The column families after `value` is stored. -/
def Columns.store (db : Columns) (cf : Fin 2) (key value : Bytes) : Columns :=
  Function.update db cf (Function.update (db cf) key (some value))

/-- `DB::Put` -/
def Columns.put (db : Columns) (fate : Fate) (cf : Fin 2) (key value : Bytes) : Except Stop (Status × Columns) :=
  match fate with
  | .done => .ok (.ok, db.store cf key value)
  | .fails failure => .ok (.failed failure, db)
  | .stopped => .error .killed

/-! ## Opening -/

inductive CompressionType where
  | noCompression | zstd | lz4Compression | snappyCompression
  deriving DecidableEq, Repr

structure ColumnFamilyOptions where
  compression : CompressionType
  deriving DecidableEq, Repr

/-- A column family and the options it is opened with. -/
structure ColumnFamilyDescriptor where
  name : String
  options : ColumnFamilyOptions
  deriving DecidableEq, Repr

structure Options where
  createIfMissing : Bool
  errorIfExists : Bool
  compression : CompressionType

/-- `DB::Open(options, name, &db)`: the one column family is the default one,
with the options given. `disk` are the column families found on disk. -/
def openDefault (options : Options) (disk : Option (List String)) :
    Status × List ColumnFamilyDescriptor :=
  match disk with
  | none =>
    if options.createIfMissing then (.ok, [⟨"default", ⟨options.compression⟩⟩]) else (.failed .invalidArgument, [])
  | some names =>
    if options.errorIfExists || names ≠ ["default"] then (.failed .invalidArgument, [])
    else (.ok, [⟨"default", ⟨options.compression⟩⟩])

/-- `DB::Open(options, name, descriptors, &handles, &db)`: every column family on
disk has to be listed, and is opened with the options of its descriptor. Of
`options` only the database part is used. -/
def openColumnFamilies (options : Options) (disk : Option (List String))
    (descriptors : List ColumnFamilyDescriptor) : Status × List ColumnFamilyDescriptor :=
  match disk with
  | none => if options.createIfMissing then (.ok, descriptors) else (.failed .invalidArgument, [])
  | some names =>
    if options.errorIfExists || !(names.all fun n => descriptors.any fun d => d.name = n) then (.failed .invalidArgument, [])
    else (.ok, descriptors)

end JellyBench.RocksDB
