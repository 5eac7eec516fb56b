import JellyBench.Config
import JellyBench.RocksDBBlobNode
/-!
# The program's entry

`main` reads the command line, assigns options of its own and creates the write
backend.
-/
open JellyBench.RocksDB

namespace JellyBench

/-- A write backend, as far as it differs with the configuration: the column
families RocksDB keeps open, and the settings Jelly sees. -/
inductive WriteBackend where
  | jelly (settings : DefaultConfigSource)
  | sqlite
  | rocksdb (columnFamilies : List ColumnFamilyDescriptor)

/-- The name of a backend's option value. -/
def WriteBackend.name : WriteBackend → String
  | .jelly _ => "jelly"
  | .sqlite => "sqlite"
  | .rocksdb _ => "rocksdb"

namespace Main

/-- What a build depends on: whether `JELLY_BENCH_ROCKSDB` is defined, and the
options of a new `ColumnFamilyOptions`. -/
structure Build where
  rocksDB : Bool
  defaults : ColumnFamilyOptions

def createWriteBackend (build : Build) (config : Config) : Except Stop WriteBackend :=
  if config.writeBackend = "jelly" then .ok (.jelly config.jellyConfig)
  else if config.writeBackend = "sqlite" then .ok .sqlite
  else if build.rocksDB ∧ config.writeBackend = "rocksdb" then
    .rocksdb <$> RocksDBBlobNode.init build.defaults config.rocksDBCompression
  else .error (.assertion "Invalid write backend: %s")

/-- The assignments after the command line has been read. -/
def assign (config : Config) : Config :=
  { config with
    writeBackend := "jelly"
    rocksDBCompression := "none"
    jellyConfig := (config.jellyConfig.setString "compression_method" "none").setString "max_resident_blob_size" "0"
    writeRate := 10000 }

/-- `main` up to the call of `WriteBenchmark`, which gets the two results. -/
def main (atoi : String → Int32) (build : Build) (args : List String) : Except Stop (Config × WriteBackend) := do
  let config ← Config.initFromCommandLine atoi {} args
  let config := assign config
  let writeBackend ← createWriteBackend build config
  pure (config, writeBackend)

/-- Whatever the command line, Jelly is created. -/
theorem main_ok (atoi : String → Int32) (build : Build) {args : List String} {config : Config}
    (h : Config.initFromCommandLine atoi {} args = .ok config) :
    main atoi build args = .ok (assign config, .jelly (assign config).jellyConfig) := by
  simp [main, h, assign, createWriteBackend, Bind.bind, Except.bind, pure, Except.pure]

theorem main_config {atoi : String → Int32} {build : Build} {args : List String} {config : Config}
    {writeBackend : WriteBackend} (h : main atoi build args = .ok (config, writeBackend)) :
    ∃ asked, Config.initFromCommandLine atoi {} args = .ok asked ∧ config = assign asked := by
  cases ha : Config.initFromCommandLine atoi {} args with
  | error stop => rw [main, ha] at h; cases h
  | ok asked =>
    rw [main_ok atoi build ha] at h
    cases h
    exact ⟨asked, rfl, rfl⟩

end Main

end JellyBench
