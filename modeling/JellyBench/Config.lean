import JellyBench.Cpp
import JellyBench.Lib.LastWriter
/-!
# The configuration and the command line

Options come in pairs, a name and a value. `initFromCommandLine_ok` says what an
accepted command line is, and `field_last` that the last value of an option is
the one that counts. What `atoi` makes of a number that does not fit an `int` C
leaves open, so it is a parameter.
-/
namespace JellyBench

/-- `jelly::DefaultConfigSource`: the `SetString` calls it got. -/
abbrev DefaultConfigSource := List (String × String)

def DefaultConfigSource.setString (source : DefaultConfigSource) (name value : String) : DefaultConfigSource :=
  source ++ [(name, value)]

/-- The source keeps the last value of each name. -/
def DefaultConfigSource.get (source : DefaultConfigSource) (name : String) : Option String :=
  (Lib.last Prod.fst source name).map Prod.snd

@[simp] theorem DefaultConfigSource.get_setString (source : DefaultConfigSource) (name value n : String) :
    (source.setString name value).get n = if name = n then some value else source.get n := by
  unfold get setString
  rw [Lib.last_snoc]
  split <;> rfl

structure Config where
  minBlobSize : UInt64 := 5000
  maxBlobSize : UInt64 := 15000
  randomBlobCacheSize : UInt64 := 1000
  blobKeyCount : UInt64 := 10000
  jellyConfig : DefaultConfigSource := []
  rocksDBCompression : String := "none"
  writeBackend : String := "jelly"
  writeRate : UInt64 := 1000
  writeRunSeconds : UInt32 := 10

namespace Config
variable (atoi : String → Int32)

/-- The chain of comparisons in `InitFromCommandLine`, for an option with a value. -/
def setOption (config : Config) (arg value : String) : Config :=
  if arg = "min_blob_size" then { config with minBlobSize := sizeOfInt (atoi value) }
  else if arg = "max_blob_size" then { config with maxBlobSize := sizeOfInt (atoi value) }
  else if arg = "random_blob_cache_size" then { config with randomBlobCacheSize := sizeOfInt (atoi value) }
  else if arg = "blob_key_count" then { config with blobKeyCount := sizeOfInt (atoi value) }
  else if arg = "rocksdb_compression" then { config with rocksDBCompression := value }
  else if arg = "write_backend" then { config with writeBackend := value }
  else if arg = "write_rate" then { config with writeRate := sizeOfInt (atoi value) }
  else if arg = "write_run_seconds" then { config with writeRunSeconds := (atoi value).toUInt32 }
  else { config with jellyConfig := config.jellyConfig.setString arg value }

/-- The arguments after the program's name. Every option needs a value, an
argument that does not start with a dash. -/
def initFromCommandLine (config : Config) : List String → Except Stop Config
  | [] => .ok config
  | [a] => do
    alwaysAssert (firstChar a = '-') "Syntax error."
    .error (.assertion "Syntax error.")
  | a :: v :: args => do
    alwaysAssert (firstChar a = '-') "Syntax error."
    if firstChar v ≠ '-' then initFromCommandLine (config.setOption atoi (afterFirst a) v) args
    else .error (.assertion "Syntax error.")

/-! ## Options -/

/-- The options on a command line and their values. -/
def options : List String → List (String × String)
  | a :: v :: args => (afterFirst a, v) :: options args
  | _ => []

/-- The last value an option is given. -/
def lastOption (args : List String) (name : String) : Option String :=
  (Lib.last Prod.fst (options args) name).map Prod.snd

/-- An accepted command line sets its options, one after the other. -/
theorem initFromCommandLine_ok {config config' : Config} {args : List String}
    (h : initFromCommandLine atoi config args = .ok config') :
    config' = (options args).foldl (fun c o => c.setOption atoi o.1 o.2) config := by
  fun_induction initFromCommandLine atoi config args with
  | case1 config => exact (Except.ok.inj h).symm
  | case2 config a =>
    cases hd : decide (firstChar a = '-') <;> rw [hd] at h <;> cases h
  | case3 config a v args ih =>
    cases hd : decide (firstChar a = '-') <;> rw [hd] at h
    · cases h
    · by_cases hv : firstChar v ≠ '-'
      · simp only [alwaysAssert_true, Bind.bind, Except.bind, if_pos hv] at h
        exact ih h
      · simp only [alwaysAssert_true, Bind.bind, Except.bind, if_neg hv] at h
        cases h

/-- A field that one option sets, and no other, has the last value of that option. -/
theorem field_last {β : Type} (field : Config → β) (name : String) (read : String → β)
    (hset : ∀ c n v, field (setOption atoi c n v) = if n = name then read v else field c)
    {config config' : Config} {args : List String} (h : initFromCommandLine atoi config args = .ok config') :
    field config' = ((lastOption args name).map read).getD (field config) := by
  rw [initFromCommandLine_ok atoi h]
  unfold lastOption
  generalize options args = os
  induction os using List.reverseRecOn with
  | nil => rfl
  | append_singleton os o ih =>
    obtain ⟨n, v⟩ := o
    rw [List.foldl_append, List.foldl_cons, List.foldl_nil, Lib.last_snoc, hset, ih]
    by_cases hn : n = name
    · rw [if_pos hn, if_pos hn]
      rfl
    · rw [if_neg hn, if_neg hn]

end Config

end JellyBench
