import JellyBench.ProcessMonitor
import JellyBench.WriteBenchmark
/-!
# The report

After its loop `WriteBenchmark` takes the differences of what it read before and
after it, narrows most of them to 32 bits and prints them, and what it computes
from them as `float`s.
-/
open JellyBench.ProcessMonitor JellyBench.WriteBenchmark

namespace JellyBench

/-- What `WriteBenchmark` reads outside its loop. `endTime` is the clock after it. -/
structure Readings where
  startMemory : UInt64
  startTime : Int
  startStats : Stats
  endStats : Stats
  endTime : Int

/-- The last line. A quotient is `none` where it is infinite or not a number. -/
structure Summary where
  avgcpu : Option ℚ
  wropsPerSec : Option ℚ
  wrMegabytesPerSec : Option ℚ
  maxMem : ℚ
  maxDisk : ℚ
  lwrbytesPerWrbyte : Option ℚ

/-- The lines under their labels, and the last line. -/
structure Report where
  elapsed : UInt32
  numWrites : UInt32
  kernel : UInt32
  user : UInt32
  total : UInt32
  avgcpu : Option ℚ
  wrops : UInt32
  wrbytes : ℚ
  lwrbytes : ℚ
  wropsPerSec : Option ℚ
  wrbytesPerSec : Option ℚ
  lwrbytesPerSec : Option ℚ
  maxMem : UInt32
  maxDisk : UInt32
  summary : Summary

namespace Report

/-- A `float` has 24 significant bits. -/
def binary32 : ℚ → ℚ := Lib.roundTo 24

/-- `x / y` -/
def divide (x y : ℚ) : Option ℚ := if y = 0 then none else some (binary32 (x / y))

/-- `(float)bytes / (1024.0f * 1024.0f)` -/
def megabytes (bytes : ℕ) : ℚ := binary32 (binary32 bytes / 1048576)

/-- `m_logicalWriteBytes`, which every backend's `Set` adds to. -/
def logicalWriteBytes (calls : List SetCall) : UInt64 := calls.foldl (fun n c => n + .ofNat c.blob.length) 0

/-- `x / ((float)totalPassed / 1000000.0f)`, for a `float` -/
def perSecond (totalPassed : UInt32) (x : ℚ) : Option ℚ :=
  divide x (binary32 (binary32 totalPassed.toNat / 1000000))

/-- The end of `WriteBenchmark`, from the state its loop leaves. -/
def report {σ : Type} (readings : Readings) (s : State σ) : Report :=
  let totalPassed := microseconds (readings.endTime - readings.startTime)
  let kernel := (readings.endStats.kernel - readings.startStats.kernel).toUInt32
  let user := (readings.endStats.user - readings.startStats.user).toUInt32
  let writeOps := (readings.endStats.writeOps - readings.startStats.writeOps).toUInt32
  let writeBytes := readings.endStats.writeBytes - readings.startStats.writeBytes
  let avgcpu := divide (binary32 (100 * binary32 (kernel + user).toNat)) (binary32 totalPassed.toNat)
  { elapsed := totalPassed
    numWrites := s.numWrites
    kernel
    user
    total := kernel + user
    avgcpu
    wrops := writeOps
    wrbytes := binary32 writeBytes.toNat
    lwrbytes := binary32 (logicalWriteBytes s.sets).toNat
    wropsPerSec := perSecond totalPassed (binary32 writeOps.toNat)
    wrbytesPerSec := perSecond totalPassed (binary32 writeBytes.toNat)
    lwrbytesPerSec := perSecond totalPassed (binary32 (logicalWriteBytes s.sets).toNat)
    maxMem := (s.maxMemoryUsage - readings.startMemory).toUInt32
    maxDisk := s.maxDiskUsage.toUInt32
    summary := {
      avgcpu
      wropsPerSec := perSecond totalPassed (binary32 writeOps.toNat)
      wrMegabytesPerSec := (perSecond totalPassed (binary32 writeBytes.toNat)).map fun x => binary32 (x / 1048576)
      maxMem := megabytes (s.maxMemoryUsage - readings.startMemory).toNat
      maxDisk := megabytes s.maxDiskUsage.toNat
      lwrbytesPerWrbyte := divide (binary32 (logicalWriteBytes s.sets).toNat) (binary32 writeBytes.toNat) } }

/-! ## Narrowing -/

/-- `(uint32_t)(b - a)`, where `b` is not below `a`. -/
theorem toNat_narrow_sub {a b : UInt64} (h : a ≤ b) : (b - a).toUInt32.toNat = (b.toNat - a.toNat) % 2 ^ 32 := by
  rw [UInt64.toNat_toUInt32, UInt64.toNat_sub_of_le _ _ h]

theorem megabytes_zero : megabytes 0 = 0 := by
  simp [megabytes, binary32, Lib.roundTo_zero]

theorem megabytes_pos {bytes : ℕ} (h : 0 < bytes) : 0 < megabytes bytes := by
  have hpos : (0 : ℚ) < bytes := by exact_mod_cast h
  unfold megabytes binary32
  apply Lib.roundTo_pos (by omega)
  exact div_pos (Lib.roundTo_pos (by omega) hpos) (by norm_num)

end Report

end JellyBench
