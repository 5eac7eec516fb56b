import JellyBench.Figures
import JellyBench.Peaks
/-!
# Disk usage

`GetDiskSpaceUsed` of the two blob nodes adds up files of a directory, in the order
they are listed in, and that of Jelly two gauges of its host. The loop prints every
usage it samples, rounded to megabytes, and the last line of the report has the largest.
-/
open JellyBench.WriteBenchmark JellyBench.Report JellyBench.Peaks

namespace JellyBench

/-! ## `GetDiskSpaceUsed` -/

structure DirectoryEntry where
  fileName : String
  isRegularFile : Bool
  fileSize : UInt64

/-- The loop over a directory, which adds up the entries that count. -/
def diskSpaceUsed (counts : DirectoryEntry → Bool) (directory : List DirectoryEntry) : UInt64 :=
  directory.foldl (fun bytes entry => if counts entry then bytes + entry.fileSize else bytes) 0

/-- The regular files of the working directory whose names start with `sqlite`. -/
def SQLiteBlobNode.counts (entry : DirectoryEntry) : Bool :=
  entry.isRegularFile && "sqlite".toList.isPrefixOf entry.fileName.toList

def SQLiteBlobNode.getDiskSpaceUsed : List DirectoryEntry → UInt64 := diskSpaceUsed SQLiteBlobNode.counts

/-- The regular files of the directory `rocksdb`. -/
def RocksDBBlobNode.getDiskSpaceUsed : List DirectoryEntry → UInt64 := diskSpaceUsed DirectoryEntry.isRegularFile

/-- `ID_TOTAL_HOST_STORE_SIZE` and `ID_TOTAL_HOST_WAL_SIZE` of the host's stats. -/
structure Gauges where
  totalHostStoreSize : UInt64
  totalHostWALSize : UInt64

def JellyWrite.getDiskSpaceUsed (gauges : Gauges) : UInt64 := gauges.totalHostStoreSize + gauges.totalHostWALSize

namespace DiskUsage

/-- What is measured, its size, and what `GetDiskSpaceUsed` makes of it. -/
structure Usage (δ : Type) where
  used : δ → UInt64
  size : δ → ℕ
  wraps : ∀ d, (used d).toNat = size d % 2 ^ 64

/-- The size of the files that count. -/
def total (counts : DirectoryEntry → Bool) (directory : List DirectoryEntry) : ℕ :=
  ((directory.filter counts).map fun entry => entry.fileSize.toNat).sum

theorem toNat_diskSpaceUsed (counts : DirectoryEntry → Bool) (directory : List DirectoryEntry) :
    (diskSpaceUsed counts directory).toNat = total counts directory % 2 ^ 64 := by
  have hsize : ∀ entry : DirectoryEntry, entry.fileSize.toNat = entry.fileSize.toNat % 2 ^ 64 := fun entry =>
    (Nat.mod_eq_of_lt entry.fileSize.toNat_lt).symm
  rw [diskSpaceUsed, ← List.foldl_filter, Stores.toNat_foldl_add hsize, UInt64.toNat_zero, Nat.zero_add, total]

/-- The order a directory is listed in does not matter. -/
theorem diskSpaceUsed_perm (counts : DirectoryEntry → Bool) {directory directory' : List DirectoryEntry}
    (h : directory.Perm directory') : diskSpaceUsed counts directory = diskSpaceUsed counts directory' := by
  apply UInt64.toNat_inj.1
  rw [toNat_diskSpaceUsed, toNat_diskSpaceUsed, total, total, ((h.filter counts).map _).sum_eq]

def sqlite : Usage (List DirectoryEntry) :=
  ⟨SQLiteBlobNode.getDiskSpaceUsed, total SQLiteBlobNode.counts, toNat_diskSpaceUsed _⟩

def rocksdb : Usage (List DirectoryEntry) :=
  ⟨RocksDBBlobNode.getDiskSpaceUsed, total DirectoryEntry.isRegularFile, toNat_diskSpaceUsed _⟩

def jelly : Usage Gauges where
  used := JellyWrite.getDiskSpaceUsed
  size gauges := gauges.totalHostStoreSize.toNat + gauges.totalHostWALSize.toNat
  wraps _ := UInt64.toNat_add _ _

/-! ## Lines -/

theorem megabytes_mono {a b : ℕ} (h : a ≤ b) : megabytes a ≤ megabytes b := by
  have hcast : (a : ℚ) ≤ b := by exact_mod_cast h
  have hfloat : binary32 a ≤ binary32 b := Lib.roundTo_mono (by omega) hcast
  exact Lib.roundTo_mono (by omega) (div_le_div_of_nonneg_right hfloat (by norm_num))

/-- What is measured for a line, and the clock when the line is printed. -/
structure Sample (δ : Type) where
  now : Int
  disk : δ

/-- `printf("%u;%.0f\n", secs, (float)diskUsage / (1024.0f * 1024.0f))` -/
structure Line where
  secs : UInt32
  megabytes : ℕ

def line {δ : Type} (usage : Usage δ) (startTime : Int) (sample : Sample δ) : Line where
  secs := .ofInt ((sample.now - startTime).tdiv 1000000000)
  megabytes := Figures.units 0 (megabytes (usage.used sample.disk).toNat)

theorem secs_le {δ : Type} {usage : Usage δ} {startTime : Int} {x y : Sample δ} (hx : startTime ≤ x.now)
    (h : x.now ≤ y.now) (hy : y.now - startTime < 2 ^ 32 * 1000000000) :
    (line usage startTime x).secs ≤ (line usage startTime y).secs := by
  have hsecs : ∀ z : Sample δ, startTime ≤ z.now → z.now - startTime < 2 ^ 32 * 1000000000 →
      ((line usage startTime z).secs.toNat : ℤ) = (z.now - startTime) / 1000000000 := by
    intro z hz hlt
    rw [line, UInt32.ofInt, UInt32.toNat_ofNat', Int.tdiv_eq_ediv_of_nonneg (by omega)]
    omega
  have hxs := hsecs x hx (by omega)
  have hys := hsecs y (by omega) hy
  rw [UInt32.le_iff_toNat_le]
  omega

theorem isPeak_map {vs : List ℕ} {n : ℕ} {f : ℕ → ℕ} (h : IsPeak vs n) (hf : ∀ {a b}, a ≤ b → f a ≤ f b) (h0 : f 0 = 0) :
    IsPeak (vs.map f) (f n) where
  le := by
    intro w hw
    obtain ⟨v, hv, rfl⟩ := List.mem_map.1 hw
    exact hf (h.le v hv)
  mem := by
    rcases h.mem with hm | rfl
    · exact .inl (List.mem_map_of_mem hm)
    · exact .inr h0

/-- The lines printed in a run, what they were sampled of, and the last figure of the
report fit together. -/
structure Curve {δ : Type} (usage : Usage δ) (startTime : Int) (samples : List (Sample δ)) (maxDisk : ℚ) : Prop where
  peak : IsPeak (samples.map fun sample => (line usage startTime sample).megabytes) (Figures.units 0 maxDisk)
  sizes : ∀ sample ∈ samples, usage.size sample.disk < 2 ^ 64 →
    |((line usage startTime sample).megabytes : ℚ) - usage.size sample.disk / 1048576| ≤
      1 / 2 + usage.size sample.disk / 1048576 * (1 / 1000000)
  order : samples.Pairwise (fun x y => x.now ≤ y.now) →
    (∀ sample ∈ samples, startTime ≤ sample.now ∧ sample.now - startTime < 2 ^ 32 * 1000000000) →
    (samples.map (line usage startTime)).Pairwise fun l l' => l.secs ≤ l'.secs

/-- On each backend every line of a run's curve is the size of what was measured, up to
half a megabyte and a millionth, the lines are in the order of their seconds, and the
disk usage in the last line of the report is the largest of the curve. -/
theorem curve_peaks {δ : Type} (usage : Usage δ) (distribution : UniformInt) (config : Config) (fuel : Nat)
    (random : Random) (ticks : List Tick) (readings : Readings) (s : State Random)
    (h : writeBenchmark distribution config fuel readings.startTime random ticks = .ok s) (samples : List (Sample δ))
    (hsamples : (turns config readings.startTime ticks).filterMap (·.disk) = samples.map fun x => usage.used x.disk) :
    Curve usage readings.startTime samples (report readings s).summary.maxDisk where
  peak := by
    obtain ⟨cache, random', -, hloop⟩ := writeBenchmark_ok h
    have hpeak := isPeak_map (f := fun bytes => Figures.units 0 (megabytes bytes)) (kept_run hloop).disk
      (fun hle => Figures.units_mono 0 (megabytes_mono hle)) (by rw [megabytes_zero, Figures.units_zero])
    have hdisks : disks (turns config readings.startTime ticks) = samples.map fun x => (usage.used x.disk).toNat := by
      rw [disks, ← List.map_filterMap, hsamples, List.map_map]
      rfl
    rw [hdisks, List.map_map] at hpeak
    exact hpeak
  sizes := by
    intro sample _ hlt
    have hbytes := usage.wraps sample.disk
    rw [Nat.mod_eq_of_lt hlt] at hbytes
    have hfigure := Figures.figure_megabytes (UInt64.toNat_lt (usage.used sample.disk))
    rw [hbytes] at hfigure
    rw [line, hbytes]
    simpa using hfigure.printed 0 (by positivity)
  order := by
    intro hsorted hnow
    rw [List.pairwise_map]
    exact hsorted.imp_of_mem fun hx hy hle => secs_le (hnow _ hx).1 hle (hnow _ hy).2

/-- Of three files in the working directory SQLite's two are counted. -/
theorem curve_peaks_one_line :
    let files : List DirectoryEntry :=
      [⟨"sqlite.db", true, 8000000⟩, ⟨"write.wal", true, 500⟩, ⟨"sqlite.db-journal", true, 9000⟩]
    let config : Config := { randomBlobCacheSize := 0, writeRunSeconds := 1 }
    let readings : Readings := ⟨1000, 0, {}, {}, 1000000000⟩
    ∃ s, writeBenchmark .reduce config 0 0 (fun _ => 0) [⟨0, some 5000, some 8009000⟩] = .ok s ∧
      Curve sqlite 0 [⟨1000, files⟩] (report readings s).summary.maxDisk := by
  intro files config readings
  have hturns : turns config 0 [⟨0, some 5000, some 8009000⟩] = [⟨0, some 5000, some 8009000⟩] :=
    turns_eq_self (by decide)
  have hrun : writeBenchmark .reduce config 0 0 (fun _ => 0) [⟨0, some 5000, some 8009000⟩] =
      .ok ⟨0, 0, 0, max 0 5000, max 0 8009000, fun _ => 0, [.update]⟩ := by
    rw [writeBenchmark_eq, init_nothing]
    simp only [loop, hturns]
    exact Lib.run_cons_ok (iteration_now _ _ 5000 8009000) []
  refine ⟨_, hrun, curve_peaks sqlite .reduce config 0 (fun _ => 0) _ readings _ hrun [⟨1000, files⟩] ?_⟩
  rw [hturns]
  decide +kernel

end DiskUsage

end JellyBench
