import JellyBench.Report
/-!
# The differences reported

`elapsed`, the CPU times and the number of write operations are differences of
64-bit readings, narrowed to 32 bits. They are the true ones as long as the true
ones fit, which the time of a run longer than 4294 seconds does not.
-/
open JellyBench.ProcessMonitor JellyBench.WriteBenchmark JellyBench.Report

namespace JellyBench.Deltas

/-! ## The true differences -/

/-- In whole microseconds. -/
def elapsed (readings : Readings) : Int := (readings.endTime - readings.startTime) / 1000

def kernel (readings : Readings) : ℕ := readings.endStats.kernel.toNat - readings.startStats.kernel.toNat

def user (readings : Readings) : ℕ := readings.endStats.user.toNat - readings.startStats.user.toNat

def writeOps (readings : Readings) : ℕ := readings.endStats.writeOps.toNat - readings.startStats.writeOps.toNat

/-- `x` of something a second, for `x` of it in the time that has elapsed. -/
def rate (readings : Readings) (x : ℚ) : Option ℚ :=
  divide x (binary32 (binary32 (elapsed readings) / 1000000))

/-- What is printed is true, the CPU usage and the rates come from the true
differences, and `elapsed` is only 0 for less than a microsecond. -/
structure TrueDeltas (readings : Readings) (r : Report) : Prop where
  elapsed : (r.elapsed.toNat : Int) = elapsed readings
  kernel : r.kernel.toNat = kernel readings
  user : r.user.toNat = user readings
  total : r.total.toNat = Deltas.kernel readings + Deltas.user readings
  wrops : r.wrops.toNat = writeOps readings
  avgcpu : r.avgcpu = divide (binary32 (100 * binary32 (Deltas.kernel readings + Deltas.user readings : ℕ)))
    (binary32 (Deltas.elapsed readings))
  wropsPerSec : r.wropsPerSec = rate readings (binary32 (writeOps readings))
  wrbytesPerSec : r.wrbytesPerSec = rate readings r.wrbytes
  lwrbytesPerSec : r.lwrbytesPerSec = rate readings r.lwrbytes
  divisor : r.elapsed = 0 → readings.endTime - readings.startTime < 1000

/-- The true differences fit in 32 bits. -/
structure Fits (readings : Readings) : Prop where
  elapsed : elapsed readings < 2 ^ 32
  cpu : kernel readings + user readings < 2 ^ 32
  writeOps : writeOps readings < 2 ^ 32

/-! ## What is printed -/

/-- What a report prints, from the true differences. -/
structure Printed (readings : Readings) (r : Report) : Prop where
  elapsed : (r.elapsed.toNat : Int) = elapsed readings % 2 ^ 32
  kernel : r.kernel.toNat = kernel readings % 2 ^ 32
  user : r.user.toNat = user readings % 2 ^ 32
  total : r.total.toNat = (Deltas.kernel readings + Deltas.user readings) % 2 ^ 32
  wrops : r.wrops.toNat = writeOps readings % 2 ^ 32
  avgcpu : r.avgcpu = divide (binary32 (100 * binary32 r.total.toNat)) (binary32 r.elapsed.toNat)
  wropsPerSec : r.wropsPerSec = perSecond r.elapsed (binary32 r.wrops.toNat)
  wrbytesPerSec : r.wrbytesPerSec = perSecond r.elapsed r.wrbytes
  lwrbytesPerSec : r.lwrbytesPerSec = perSecond r.elapsed r.lwrbytes

section
variable {σ : Type} {readings : Readings}

theorem printed (htime : readings.startTime ≤ readings.endTime) (hstats : Ordered readings.startStats readings.endStats)
    (s : State σ) : Printed readings (report readings s) where
  elapsed := by
    have hnonneg : 0 ≤ readings.endTime - readings.startTime := by omega
    rw [Deltas.elapsed, ← Int.tdiv_eq_ediv_of_nonneg hnonneg]
    exact toNat_microseconds _
  kernel := toNat_narrow_sub hstats.kernel
  user := toNat_narrow_sub hstats.user
  total := by
    have hk := toNat_narrow_sub hstats.kernel
    have hu := toNat_narrow_sub hstats.user
    have hadd : (report readings s).total.toNat =
        ((readings.endStats.kernel - readings.startStats.kernel).toUInt32.toNat +
          (readings.endStats.user - readings.startStats.user).toUInt32.toNat) % 2 ^ 32 := UInt32.toNat_add _ _
    rw [hadd, hk, hu, ← Nat.add_mod]
    rfl
  wrops := toNat_narrow_sub hstats.writeOps
  avgcpu := rfl
  wropsPerSec := rfl
  wrbytesPerSec := rfl
  lwrbytesPerSec := rfl

theorem Printed.true_iff {r : Report} (h : Printed readings r) (htime : readings.startTime ≤ readings.endTime) :
    TrueDeltas readings r ↔ Fits readings := by
  constructor
  · intro ht
    have helapsed := h.elapsed.symm.trans ht.elapsed
    have htotal := h.total.symm.trans ht.total
    have hwrops := h.wrops.symm.trans ht.wrops
    exact ⟨by omega, by omega, by omega⟩
  · rintro ⟨helapsed, hcpu, hwrops⟩
    have hnonneg : 0 ≤ Deltas.elapsed readings := by unfold Deltas.elapsed; omega
    have he := h.elapsed
    have hk := h.kernel
    have hu := h.user
    have ht := h.total
    have hw := h.wrops
    have htrue : (r.elapsed.toNat : Int) = Deltas.elapsed readings := by omega
    have htotal : r.total.toNat = Deltas.kernel readings + Deltas.user readings := by omega
    have hops : r.wrops.toNat = Deltas.writeOps readings := by omega
    have hrate : ∀ x, perSecond r.elapsed x = rate readings x := by
      intro x
      rw [perSecond, rate, ← htrue, Int.cast_natCast]
    refine ⟨htrue, by omega, by omega, htotal, hops, ?_, ?_, ?_, ?_, ?_⟩
    · rw [h.avgcpu, htotal, ← htrue, Int.cast_natCast]
    · rw [h.wropsPerSec, hrate, hops]
    · rw [h.wrbytesPerSec, hrate]
    · rw [h.lwrbytesPerSec, hrate]
    · intro hzero
      rw [hzero] at htrue
      unfold Deltas.elapsed at htrue
      simp only [UInt32.toNat_zero, Nat.cast_zero] at htrue
      omega

/-- The differences reported at the end of a run are the true ones exactly when
they fit in 32 bits. -/
theorem trueDeltas_iff (config : Config) (readings : Readings) (s : State σ)
    (hend : endTime config readings.startTime ≤ readings.endTime) (hstats : Ordered readings.startStats readings.endStats) :
    TrueDeltas readings (report readings s) ↔ Fits readings := by
  have htime : readings.startTime ≤ readings.endTime := by
    unfold WriteBenchmark.endTime at hend
    omega
  exact (printed htime hstats s).true_iff htime

end

/-- Two minutes, and 40 seconds of CPU time. -/
theorem trueDeltas_two_minutes :
    let readings : Readings := ⟨4096000, 0, getStats ⟨0, 0, 100, by decide, 0, 0⟩,
      getStats ⟨1000, 3000, 100, by decide, 98304000, 12000⟩, 120000001000⟩
    TrueDeltas readings (report readings (start 0 ())) := by
  intro readings
  have hstats : Ordered readings.startStats readings.endStats :=
    getStats_ordered rfl (by decide) (by decide) (by decide) (by decide) (by decide)
  apply (trueDeltas_iff { writeRunSeconds := 120 } readings (start 0 ()) (by decide) hstats).2
  exact ⟨by decide, by decide, by decide⟩

/-- No run of 4295 seconds or more has a true report. -/
theorem long_run_wraps {config : Config} {readings : Readings} (hsecs : 4295 ≤ config.writeRunSeconds.toNat)
    (hend : endTime config readings.startTime ≤ readings.endTime) : ¬ Fits readings := by
  intro h
  have helapsed := h.elapsed
  unfold Deltas.elapsed at helapsed
  unfold WriteBenchmark.endTime at hend
  omega

/-- A run of 4295 seconds, without a write. -/
theorem elapsed_wraps : ¬ ∀ (config : Config) (readings : Readings) (s : State Unit),
    config.writeRunSeconds.toNat < 2 ^ 31 → endTime config readings.startTime ≤ readings.endTime →
    Ordered readings.startStats readings.endStats → TrueDeltas readings (report readings s) := by
  intro h
  let config : Config := { writeRunSeconds := 4295 }
  let readings : Readings := ⟨4096000, 0, {}, {}, 4295000000000⟩
  have hend : endTime config readings.startTime ≤ readings.endTime := by decide
  have htime : readings.startTime ≤ readings.endTime := by decide
  have hstats : Ordered readings.startStats readings.endStats := ⟨by decide, by decide, by decide⟩
  have ht := h config readings (start 0 ()) (by decide) hend hstats
  have hsecs : 4295 ≤ config.writeRunSeconds.toNat := by decide
  exact long_run_wraps hsecs hend (((printed htime hstats _).true_iff htime).1 ht)

end JellyBench.Deltas
