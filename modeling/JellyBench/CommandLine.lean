import JellyBench.Main
/-!
# What the command line asks for

`AsAsked` compares what `main` runs with the last value of each option. The
assignments `main` makes decide it: an option they touch has to ask for what
they assign.
-/
open JellyBench.RocksDB JellyBench.RocksDBBlobNode JellyBench.Config JellyBench.Main

namespace JellyBench.CommandLine

def backendNames (build : Build) : List String :=
  if build.rocksDB then ["jelly", "sqlite", "rocksdb"] else ["jelly", "sqlite"]

section
variable (atoi : String → Int32)

/-- The benchmark runs with the backend, the rate and the settings asked for. -/
structure Runs (args : List String) (config : Config) (writeBackend : WriteBackend) : Prop where
  backend : writeBackend.name = (lastOption args "write_backend").getD "jelly"
  rate : config.writeRate = ((lastOption args "write_rate").map fun v => sizeOfInt (atoi v)).getD 1000
  settings : ∀ settings, writeBackend = .jelly settings →
    ∀ name ∈ ["compression_method", "max_resident_blob_size"], ∀ v, lastOption args name = some v →
      settings.get name = some v
  columnFamilies : ∀ families, writeBackend = .rocksdb families →
    ∃ compression, stringToCompressionType ((lastOption args "rocksdb_compression").getD "none") = .ok compression ∧
      families.map (·.options.compression) = [compression, compression]

def AsAsked (build : Build) (args : List String) : Prop :=
  if (lastOption args "write_backend").getD "jelly" ∈ backendNames build then
    ∃ config writeBackend, main atoi build args = .ok (config, writeBackend) ∧ Runs atoi args config writeBackend
  else ∃ message, main atoi build args = .error (.assertion message)

/-- What is asked for is what `main` assigns. -/
structure AsAssigned (args : List String) : Prop where
  backend : (lastOption args "write_backend").getD "jelly" = "jelly"
  rate : ((lastOption args "write_rate").map fun v => sizeOfInt (atoi v)).getD 1000 = 10000
  compression : (lastOption args "compression_method").getD "none" = "none"
  residentSize : (lastOption args "max_resident_blob_size").getD "0" = "0"

theorem getD_eq_iff {o : Option String} {d : String} : o.getD d = d ↔ ∀ v, o = some v → some d = some v := by
  cases o <;> simp [eq_comm]

/-- The settings Jelly sees under the two names `main` assigns. -/
theorem assign_settings (config : Config) :
    (assign config).jellyConfig.get "compression_method" = some "none" ∧
      (assign config).jellyConfig.get "max_resident_blob_size" = some "0" := by
  simp [assign]

theorem runs_assign (args : List String) (config : Config) :
    Runs atoi args (assign config) (.jelly (assign config).jellyConfig) ↔ AsAssigned atoi args := by
  obtain ⟨hc, hr⟩ := assign_settings config
  constructor
  · rintro ⟨hb, hrate, hs, -⟩
    have hset := hs _ rfl
    refine ⟨hb.symm, hrate.symm, getD_eq_iff.2 fun v hv => ?_, getD_eq_iff.2 fun v hv => ?_⟩
    · rw [← hc, hset _ (by simp) v hv]
    · rw [← hr, hset _ (by simp) v hv]
  · rintro ⟨hb, hrate, hcomp, hres⟩
    refine ⟨hb.symm, hrate.symm, ?_, fun _ h => nomatch h⟩
    rintro _ ⟨rfl⟩ name hname v hv
    rcases List.mem_pair.1 hname with rfl | rfl
    · rw [hc, getD_eq_iff.1 hcomp v hv]
    · rw [hr, getD_eq_iff.1 hres v hv]

/-- The benchmark runs as an accepted command line asks exactly when that asks
for what `main` assigns. -/
theorem asAsked_iff (build : Build) (args : List String) (config : Config)
    (h : initFromCommandLine atoi {} args = .ok config) : AsAsked atoi build args ↔ AsAssigned atoi args := by
  unfold AsAsked
  rw [main_ok atoi build h]
  constructor
  · intro ha
    split_ifs at ha with hname
    · obtain ⟨_, _, hm, hruns⟩ := ha
      cases hm
      exact (runs_assign atoi args config).1 hruns
    · obtain ⟨_, hm⟩ := ha
      cases hm
  · intro ha
    have hname : "jelly" ∈ backendNames build := by unfold backendNames; split <;> simp
    rw [ha.backend, if_pos hname]
    exact ⟨_, _, rfl, (runs_assign atoi args config).2 ha⟩

end

theorem asAsked_write_rate :
    AsAsked atoi ⟨true, ⟨.snappyCompression⟩⟩ ["-write_rate", "10000", "-write_run_seconds", "120"] :=
  (asAsked_iff atoi _ _ _ rfl).2 ⟨by decide, by decide, by decide, by decide⟩

/-- SQLite is asked for, and Jelly is run. -/
theorem sqlite_runs_jelly : ¬ ∀ (atoi : String → Int32) (build : Build) (args : List String) (config : Config),
    initFromCommandLine atoi {} args = .ok config → AsAsked atoi build args := by
  intro h
  have ha := h atoi ⟨true, ⟨.snappyCompression⟩⟩ ["-write_backend", "sqlite"] _ rfl
  unfold AsAsked at ha
  rw [if_pos (by decide)] at ha
  obtain ⟨config, writeBackend, hm, hruns⟩ := ha
  rw [main_ok atoi _ rfl] at hm
  cases hm
  exact absurd hruns.backend (by decide)

end JellyBench.CommandLine
