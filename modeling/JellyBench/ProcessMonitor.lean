import JellyBench.Cpp
/-!
# The process monitor

What `ProcessMonitor` makes of the numbers a POSIX system reports about the
process. CPU time is reported in clock ticks and converted to microseconds.
-/
namespace JellyBench.ProcessMonitor

structure Stats where
  user : UInt64 := 0
  kernel : UInt64 := 0
  writeOps : UInt64 := 0
  writeBytes : UInt64 := 0
  deriving DecidableEq, Repr

/-- What `times`, `sysconf` and `/proc/<pid>/io` say. -/
structure System where
  stime : UInt64
  utime : UInt64
  clkTck : UInt64
  clkTck_ne : clkTck ≠ 0
  wchar : UInt64
  syscw : UInt64

def getStats (system : System) : Stats where
  kernel := 1000000 * system.stime / system.clkTck
  user := 1000000 * system.utime / system.clkTck
  writeOps := system.syscw
  writeBytes := system.wchar

/-- `GetCurrentMemoryUsage`, from the resident pages in `/proc/self/statm`. -/
def getCurrentMemoryUsage (rss : UInt32) (pageSize : UInt64) : UInt64 := rss.toUInt64 * pageSize

/-- CPU times and the number of write operations do not go back. -/
structure Ordered (start stop : Stats) : Prop where
  user : start.user ≤ stop.user
  kernel : start.kernel ≤ stop.kernel
  writeOps : start.writeOps ≤ stop.writeOps

theorem ticks_le {a b clkTck : UInt64} (h : a ≤ b) (hb : 1000000 * b.toNat < 2 ^ 64) :
    1000000 * a / clkTck ≤ 1000000 * b / clkTck := by
  rw [UInt64.le_iff_toNat_le] at h ⊢
  have hmul : ∀ x : UInt64, 1000000 * x.toNat < 2 ^ 64 → (1000000 * x).toNat = 1000000 * x.toNat := by
    intro x hx
    rw [UInt64.toNat_mul]
    exact Nat.mod_eq_of_lt hx
  rw [UInt64.toNat_div, UInt64.toNat_div, hmul a (by omega), hmul b hb]
  exact Nat.div_le_div_right (Nat.mul_le_mul_left _ h)

/-- Where the system's counters do not go back, and the CPU times fit in 64 bits
as microseconds, the stats do not go back. -/
theorem getStats_ordered {start stop : System} (hclk : start.clkTck = stop.clkTck) (hstime : start.stime ≤ stop.stime)
    (hutime : start.utime ≤ stop.utime) (hsyscw : start.syscw ≤ stop.syscw)
    (hk : 1000000 * stop.stime.toNat < 2 ^ 64) (hu : 1000000 * stop.utime.toNat < 2 ^ 64) :
    Ordered (getStats start) (getStats stop) where
  user := by
    unfold getStats
    rw [hclk]
    exact ticks_le hutime hu
  kernel := by
    unfold getStats
    rw [hclk]
    exact ticks_le hstime hk
  writeOps := hsyscw

end JellyBench.ProcessMonitor
