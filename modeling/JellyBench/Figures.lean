import JellyBench.Deltas
import JellyBench.Lib.Near
import JellyBench.Stores
/-!
# The figures reported

The figures of a report are computed as `float`s, from whole numbers in at most five
roundings. They come within a millionth of the quotients they stand for, and within
three of the rates of the run, whose time is cut down to microseconds before.
-/
open JellyBench.ProcessMonitor JellyBench.WriteBenchmark JellyBench.Report

namespace JellyBench.Figures

/-! ## Figures -/

/-- A `float` for `x`: off by a millionth at most, and 0, or neither subnormal nor
infinite. -/
structure Figure (x f : ℚ) : Prop where
  close : |f - x| ≤ x * (1 / 1000000)
  normal : f = 0 ∨ (1 / 2 ^ 126 ≤ f ∧ f < 2 ^ 127)

/-- What is printed for `num / den`. -/
structure Prints (o : Option ℚ) (num den : ℕ) : Prop where
  none_iff : o = none ↔ den = 0
  figure : ∀ f, o = some f → Figure (num / den) f

/-! ## As printed -/

/-- How many units of the last of `d` decimals `%.df` rounds `x` to. -/
def units (d : ℕ) (x : ℚ) : ℕ := (Lib.roundEven (x * 10 ^ d)).toNat

theorem units_zero (d : ℕ) : units d 0 = 0 := by simp [units, Lib.roundEven]

theorem units_mono (d : ℕ) {x y : ℚ} (h : x ≤ y) : units d x ≤ units d y :=
  Int.toNat_le_toNat (Lib.roundEven_mono (mul_le_mul_of_nonneg_right h (by positivity)))

theorem units_error (d : ℕ) {x : ℚ} (hx : 0 ≤ x) : |(units d x : ℚ) / 10 ^ d - x| ≤ 1 / 2 / 10 ^ d := by
  have hpow : (0 : ℚ) < 10 ^ d := by positivity
  have hnonneg : 0 ≤ Lib.roundEven (x * 10 ^ d) := by
    have hmono := Lib.roundEven_mono (mul_nonneg hx hpow.le)
    rwa [show Lib.roundEven 0 = 0 from Lib.roundEven_intCast 0] at hmono
  have hcast : (units d x : ℚ) = Lib.roundEven (x * 10 ^ d) := by
    unfold units
    exact_mod_cast Int.toNat_of_nonneg hnonneg
  have hscale : (units d x : ℚ) / 10 ^ d - x = (Lib.roundEven (x * 10 ^ d) - x * 10 ^ d) / 10 ^ d := by
    rw [hcast]
    field_simp
  rw [hscale, abs_div, abs_of_pos hpow]
  exact div_le_div_of_nonneg_right (Lib.roundEven_error _) hpow.le

/-- A figure is as far from what it is for as the two roundings make it. -/
theorem Figure.printed (d : ℕ) {x f : ℚ} (hx : 0 ≤ x) (h : Figure x f) :
    |(units d f : ℚ) / 10 ^ d - x| ≤ 1 / 2 / 10 ^ d + x * (1 / 1000000) := by
  have hf : 0 ≤ f := by
    have hclose := (abs_le.1 h.close).1
    linarith
  calc |(units d f : ℚ) / 10 ^ d - x| ≤ |(units d f : ℚ) / 10 ^ d - f| + |f - x| := abs_sub_le _ _ _
    _ ≤ 1 / 2 / 10 ^ d + x * (1 / 1000000) := add_le_add (units_error d hf) h.close

/-! ## Roundings -/

abbrev NearFloat (n : ℕ) (f x : ℚ) : Prop := Lib.Near (1 / 2 ^ 24) n f x

/-- `o` is `num / den`, after `n` roundings. -/
structure NearQuotient (n : ℕ) (o : Option ℚ) (num den : ℕ) : Prop where
  none_iff : o = none ↔ den = 0
  near : ∀ f, o = some f → NearFloat n f (num / den)

theorem unit_lt_one : (1 / 2 ^ 24 : ℚ) < 1 := by norm_num

theorem near_binary32 {n : ℕ} {f x : ℚ} (h : NearFloat n f x) : NearFloat (n + 1) (binary32 f) x :=
  Lib.Near.round (by omega) h

theorem near_natCast (n : ℕ) : NearFloat 1 (binary32 n) n :=
  near_binary32 (Lib.Near.refl _ (Nat.cast_nonneg n))

/-- `x / y` is there unless it is one by zero. -/
theorem near_divide {n m : ℕ} {x y a b : ℚ} (h : NearFloat n x a) (h' : NearFloat m y b) :
    (divide x y = none ↔ b = 0) ∧ ∀ f, divide x y = some f → NearFloat (n + m + 1) f (a / b) := by
  rw [← h'.eq_zero_iff unit_lt_one]
  unfold divide
  by_cases hy : y = 0
  · simp [hy]
  · have hb : b ≠ 0 := fun hb => hy ((h'.eq_zero_iff unit_lt_one).2 hb)
    rw [if_neg hy]
    refine ⟨by simp [hy], ?_⟩
    intro f hf
    rw [← Option.some.inj hf]
    exact near_binary32 (h.div unit_lt_one h' hb)

theorem near_megabytes {n : ℕ} {f x : ℚ} (h : NearFloat n f x) :
    NearFloat (n + 1) (binary32 (f / 1048576)) (x / 1048576) :=
  near_binary32 (h.div_right unit_lt_one (by norm_num))

theorem near_perSecond (totalPassed : UInt32) (n : ℕ) :
    NearQuotient 4 (perSecond totalPassed (binary32 n)) (1000000 * n) totalPassed.toNat := by
  have hseconds : NearFloat 2 (binary32 (binary32 totalPassed.toNat / 1000000)) (totalPassed.toNat / 1000000) :=
    near_binary32 ((near_natCast totalPassed.toNat).div_right unit_lt_one (by norm_num))
  obtain ⟨hnone, hsome⟩ := near_divide (near_natCast n) hseconds
  refine ⟨hnone.trans (by simp), ?_⟩
  intro f hf
  convert hsome f hf using 1
  rw [div_div_eq_mul_div]
  push_cast
  ring

theorem near_avgcpu (total elapsed : UInt32) :
    NearQuotient 4 (divide (binary32 (100 * binary32 total.toNat)) (binary32 elapsed.toNat)) (100 * total.toNat)
      elapsed.toNat := by
  have hpercent : NearFloat 2 (binary32 (100 * binary32 total.toNat)) (100 * total.toNat) :=
    near_binary32 ((near_natCast total.toNat).mul_left unit_lt_one.le (by norm_num))
  obtain ⟨hnone, hsome⟩ := near_divide hpercent (near_natCast elapsed.toNat)
  exact ⟨hnone.trans Nat.cast_eq_zero, by exact_mod_cast hsome⟩

theorem near_wrMegabytesPerSec (totalPassed : UInt32) (n : ℕ) :
    NearQuotient 5 ((perSecond totalPassed (binary32 n)).map fun x => binary32 (x / 1048576)) (1000000 * n)
      (1048576 * totalPassed.toNat) := by
  have h := near_perSecond totalPassed n
  refine ⟨?_, ?_⟩
  · rw [Option.map_eq_none_iff, h.none_iff]
    omega
  · intro f hf
    obtain ⟨x, hx, rfl⟩ := Option.map_eq_some_iff.1 hf
    convert near_megabytes (h.near x hx) using 1
    rw [div_div]
    push_cast
    ring

/-! ## The figures of a report -/

theorem figure_of_near {n : ℕ} {f x : ℚ} (h : NearFloat n f x) (hn : n ≤ 5)
    (hx : x = 0 ∨ (1 / 2 ^ 84 ≤ x ∧ x < 2 ^ 84)) : Figure x f := by
  have hfive : NearFloat 5 f x := Lib.Near.mono (by norm_num) unit_lt_one.le h hn
  have herr := hfive.error (by norm_num) unit_lt_one.le (by norm_num)
  have hclose : |f - x| ≤ x * (1 / 1000000) :=
    herr.trans (mul_le_mul_of_nonneg_left (by norm_num) h.right)
  refine ⟨hclose, ?_⟩
  rcases hx with rfl | ⟨hlo, hhi⟩
  · exact .inl ((h.eq_zero_iff unit_lt_one).2 rfl)
  · rw [abs_le] at hclose
    refine .inr ⟨?_, ?_⟩
    · have hmin : (1 / 2 ^ 126 : ℚ) ≤ 1 / 2 ^ 84 * (1 - 1 / 1000000) := by norm_num
      linarith
    · have hmax : (2 ^ 84 : ℚ) * (1 + 1 / 1000000) < 2 ^ 127 := by norm_num
      linarith

/-- Neither a quotient of numbers below 2^84 nor its inverse is above that. -/
theorem quotient_bounds (num den : ℕ) (hnum : num < 2 ^ 84) (hden : den ≤ 2 ^ 84) :
    ((num : ℚ) / den = 0 ∨ (1 / 2 ^ 84 ≤ (num : ℚ) / den ∧ (num : ℚ) / den < 2 ^ 84)) := by
  rcases Nat.eq_zero_or_pos num with rfl | hn
  · exact .inl (by simp)
  rcases Nat.eq_zero_or_pos den with rfl | hd
  · exact .inl (by simp)
  have hnum' : (num : ℚ) < 2 ^ 84 := by exact_mod_cast hnum
  have hden' : (den : ℚ) ≤ 2 ^ 84 := by exact_mod_cast hden
  have hn' : (1 : ℚ) ≤ num := by exact_mod_cast hn
  have hd' : (1 : ℚ) ≤ den := by exact_mod_cast hd
  refine .inr ⟨div_le_div₀ (by linarith) hn' (by linarith) hden', ?_⟩
  exact lt_of_le_of_lt (div_le_self (by linarith) hd') hnum'

theorem NearQuotient.prints {n num den : ℕ} {o : Option ℚ} (h : NearQuotient n o num den) (hn : n ≤ 5)
    (hnum : num < 2 ^ 84) (hden : den ≤ 2 ^ 84) : Prints o num den :=
  ⟨h.none_iff, fun f hf => figure_of_near (h.near f hf) hn (quotient_bounds num den hnum hden)⟩

theorem perSecond_prints (totalPassed : UInt32) {n : ℕ} (hn : n < 2 ^ 64) :
    Prints (perSecond totalPassed (binary32 n)) (1000000 * n) totalPassed.toNat := by
  have ht := totalPassed.toNat_lt
  exact (near_perSecond totalPassed n).prints (by omega) (by omega) (by omega)

theorem avgcpu_prints (total elapsed : UInt32) :
    Prints (divide (binary32 (100 * binary32 total.toNat)) (binary32 elapsed.toNat)) (100 * total.toNat) elapsed.toNat := by
  have ht := total.toNat_lt
  have he := elapsed.toNat_lt
  exact (near_avgcpu total elapsed).prints (by omega) (by omega) (by omega)

theorem wrMegabytesPerSec_prints (totalPassed : UInt32) {n : ℕ} (hn : n < 2 ^ 64) :
    Prints ((perSecond totalPassed (binary32 n)).map fun x => binary32 (x / 1048576)) (1000000 * n)
      (1048576 * totalPassed.toNat) := by
  have ht := totalPassed.toNat_lt
  exact (near_wrMegabytesPerSec totalPassed n).prints (by omega) (by omega) (by omega)

theorem divide_prints {n m : ℕ} (hn : n < 2 ^ 64) (hm : m < 2 ^ 64) : Prints (divide (binary32 n) (binary32 m)) n m := by
  obtain ⟨hnone, hsome⟩ := near_divide (near_natCast n) (near_natCast m)
  exact NearQuotient.prints (n := 3) ⟨hnone.trans Nat.cast_eq_zero, hsome⟩ (by omega) (by omega) (by omega)

theorem figure_natCast {n : ℕ} (hn : n < 2 ^ 64) : Figure n (binary32 n) := by
  have hq := quotient_bounds n 1 (hn.trans (by norm_num)) (by norm_num)
  rw [Nat.cast_one, div_one] at hq
  exact figure_of_near (near_natCast n) (by omega) hq

theorem figure_megabytes {bytes : ℕ} (h : bytes < 2 ^ 64) : Figure (bytes / 1048576) (megabytes bytes) := by
  have hq := quotient_bounds bytes 1048576 (by omega) (by norm_num)
  exact figure_of_near (near_megabytes (near_natCast bytes)) (by omega) (by exact_mod_cast hq)

/-- The figures of a report, next to the whole numbers they are computed from. -/
structure Accurate (writeBytes logicalWriteBytes growth maxDiskUsage : ℕ) (r : Report) : Prop where
  avgcpu : Prints r.avgcpu (100 * r.total.toNat) r.elapsed.toNat
  wrbytes : Figure writeBytes r.wrbytes
  lwrbytes : Figure logicalWriteBytes r.lwrbytes
  wropsPerSec : Prints r.wropsPerSec (1000000 * r.wrops.toNat) r.elapsed.toNat
  wrbytesPerSec : Prints r.wrbytesPerSec (1000000 * writeBytes) r.elapsed.toNat
  lwrbytesPerSec : Prints r.lwrbytesPerSec (1000000 * logicalWriteBytes) r.elapsed.toNat
  sameLine : r.summary.avgcpu = r.avgcpu ∧ r.summary.wropsPerSec = r.wropsPerSec
  wrMegabytesPerSec : Prints r.summary.wrMegabytesPerSec (1000000 * writeBytes) (1048576 * r.elapsed.toNat)
  maxMem : Figure (growth / 1048576) r.summary.maxMem
  maxDisk : Figure (maxDiskUsage / 1048576) r.summary.maxDisk
  lwrbytesPerWrbyte : Prints r.summary.lwrbytesPerWrbyte logicalWriteBytes writeBytes

/-- Whatever a report is made from, its figures are those of the whole numbers under
the labels, but for a millionth, and no `float` of them is infinite or not a number
unless its divisor is 0. -/
theorem figures_accurate {σ : Type} (readings : Readings) (s : State σ) :
    Accurate (readings.endStats.writeBytes - readings.startStats.writeBytes).toNat (logicalWriteBytes s.sets).toNat
      (s.maxMemoryUsage - readings.startMemory).toNat s.maxDiskUsage.toNat (report readings s) where
  avgcpu := avgcpu_prints _ _
  wrbytes := figure_natCast (UInt64.toNat_lt _)
  lwrbytes := figure_natCast (UInt64.toNat_lt _)
  wropsPerSec := perSecond_prints _ ((UInt32.toNat_lt _).trans (by norm_num))
  wrbytesPerSec := perSecond_prints _ (UInt64.toNat_lt _)
  lwrbytesPerSec := perSecond_prints _ (UInt64.toNat_lt _)
  sameLine := ⟨rfl, rfl⟩
  wrMegabytesPerSec := wrMegabytesPerSec_prints _ (UInt64.toNat_lt _)
  maxMem := figure_megabytes (UInt64.toNat_lt _)
  maxDisk := figure_megabytes (UInt64.toNat_lt _)
  lwrbytesPerWrbyte := divide_prints (UInt64.toNat_lt _) (UInt64.toNat_lt _)

/-! ## The rates of a run -/

/-- The time of a run, as the clock has it. -/
def seconds (readings : Readings) : ℚ := (readings.endTime - readings.startTime : ℤ) / 1000000000

def writeBytes (readings : Readings) : ℕ :=
  readings.endStats.writeBytes.toNat - readings.startStats.writeBytes.toNat

/-- `o` is printed, and is `x` but for three millionths. -/
def Tells (o : Option ℚ) (x : ℚ) : Prop := ∃ f, o = some f ∧ |f - x| ≤ x * (3 / 1000000)

/-- Whole microseconds of a second or more are as near to the time as 17 roundings. -/
theorem near_elapsed {readings : Readings} (h : 1000000000 ≤ readings.endTime - readings.startTime) :
    NearFloat 17 (Deltas.elapsed readings) (1000000 * seconds readings) := by
  have htime : (1000000 : ℚ) * seconds readings = (readings.endTime - readings.startTime : ℤ) / 1000 := by
    unfold seconds
    ring
  have hlo : 1000 * Deltas.elapsed readings ≤ readings.endTime - readings.startTime := by unfold Deltas.elapsed; omega
  have hhi : readings.endTime - readings.startTime ≤ 1000 * (Deltas.elapsed readings + 1) := by
    unfold Deltas.elapsed
    omega
  have hmin : 1000000 ≤ Deltas.elapsed readings := by unfold Deltas.elapsed; omega
  rw [htime]
  generalize readings.endTime - readings.startTime = time at hlo hhi
  generalize Deltas.elapsed readings = t at hlo hhi hmin
  have hlo' : (t : ℚ) ≤ time / 1000 := by rw [le_div_iff₀ (by norm_num), mul_comm]; exact_mod_cast hlo
  have hhi' : (time : ℚ) / 1000 ≤ t + 1 := by
    rw [div_le_iff₀ (by norm_num), mul_comm]
    exact_mod_cast hhi
  have hmin' : (1000000 : ℚ) ≤ t := by exact_mod_cast hmin
  have hfactor : (1 - 1 / 2 ^ 24 : ℚ) ^ 17 ≤ 1 - 1 / 1000000 := by norm_num
  have hfactor0 : (0 : ℚ) ≤ (1 - 1 / 2 ^ 24 : ℚ) ^ 17 := by positivity
  refine ⟨by linarith, by linarith, ?_, ?_⟩
  · calc (1 - 1 / 2 ^ 24 : ℚ) ^ 17 * (time / 1000) ≤ (1 - 1 / 1000000) * (t + 1) :=
          mul_le_mul hfactor hhi' (by linarith) (by norm_num)
      _ ≤ t := by linarith
  · calc (1 - 1 / 2 ^ 24 : ℚ) ^ 17 * t ≤ 1 * t := mul_le_mul_of_nonneg_right (by linarith) (by linarith)
      _ ≤ time / 1000 := by linarith

/-- A quotient by the microseconds elapsed is one by the time itself. -/
theorem NearQuotient.tells {n num den c t : ℕ} {o : Option ℚ} {T x : ℚ} (h : NearQuotient n o num den) (hn : n ≤ 5)
    (hc : 0 < c) (hden : den = c * t) (ht : NearFloat 17 t T) (hT : 0 < T) (hx : x = num / (c * T)) : Tells o x := by
  have ht0 : t ≠ 0 := fun h0 => hT.ne' ((ht.eq_zero_iff unit_lt_one).1 (by rw [h0, Nat.cast_zero]))
  have hc' : (c : ℚ) ≠ 0 := by exact_mod_cast hc.ne'
  cases ho : o with
  | none => exact absurd (h.none_iff.1 ho) (by rw [hden]; exact Nat.mul_ne_zero hc.ne' ht0)
  | some f =>
    have hquot := (Lib.Near.refl (1 / 2 ^ 24) (show (0 : ℚ) ≤ num from Nat.cast_nonneg num)).div unit_lt_one
      (ht.mul_left unit_lt_one.le (Nat.cast_nonneg c)) (mul_ne_zero hc' hT.ne')
    have hf := h.near f ho
    rw [hden, Nat.cast_mul] at hf
    have hall : NearFloat 22 f x := by
      rw [hx]
      exact (hf.trans unit_lt_one.le hquot).mono (by norm_num) unit_lt_one.le (by omega)
    have herr := hall.error (by norm_num) unit_lt_one.le (by norm_num)
    exact ⟨f, rfl, herr.trans (mul_le_mul_of_nonneg_left (by norm_num) hall.right)⟩

/-- The rates of a report are those of its run, which wrote `bytes` in its blobs. -/
structure TrueRates (readings : Readings) (bytes : ℕ) (r : Report) : Prop where
  avgcpu : Tells r.avgcpu (100 * (Deltas.kernel readings + Deltas.user readings : ℕ) / 1000000 / seconds readings)
  wropsPerSec : Tells r.wropsPerSec (Deltas.writeOps readings / seconds readings)
  wrbytesPerSec : Tells r.wrbytesPerSec (writeBytes readings / seconds readings)
  lwrbytesPerSec : Tells r.lwrbytesPerSec (bytes / seconds readings)
  wrMegabytesPerSec : Tells r.summary.wrMegabytesPerSec (writeBytes readings / 1048576 / seconds readings)

theorem trueRates {σ : Type} {readings : Readings} {s : State σ} {bytes : ℕ}
    (hstats : Ordered readings.startStats readings.endStats)
    (hbytes : readings.startStats.writeBytes ≤ readings.endStats.writeBytes) (hfits : Deltas.Fits readings)
    (hlong : 1000000000 ≤ readings.endTime - readings.startTime) (hlogical : (logicalWriteBytes s.sets).toNat = bytes) :
    TrueRates readings bytes (report readings s) := by
  have hprinted := Deltas.printed (by omega) hstats s
  have htrue := (hprinted.true_iff (by omega)).2 hfits
  have hnear := near_elapsed hlong
  have helapsed : ((report readings s).elapsed.toNat : ℚ) = Deltas.elapsed readings := by exact_mod_cast htrue.elapsed
  rw [← helapsed] at hnear
  have hseconds : 0 < seconds readings := by
    have hpos : (0 : ℚ) < (readings.endTime - readings.startTime : ℤ) := by exact_mod_cast (by omega)
    exact div_pos hpos (by norm_num)
  have hT : 0 < 1000000 * seconds readings := by positivity
  have hdiff : (readings.endStats.writeBytes - readings.startStats.writeBytes).toNat = writeBytes readings :=
    UInt64.toNat_sub_of_le _ _ hbytes
  have hrate : ∀ n : ℕ, Tells (perSecond (report readings s).elapsed (binary32 n)) (n / seconds readings) := by
    intro n
    apply (near_perSecond (report readings s).elapsed n).tells (c := 1) (by omega) (by omega) (by omega) hnear hT
    push_cast
    field_simp
  refine ⟨?_, ?_, ?_, ?_, ?_⟩
  · apply (near_avgcpu (report readings s).total (report readings s).elapsed).tells (c := 1) (by omega) (by omega) (by omega)
      hnear hT
    rw [htrue.total]
    push_cast
    field_simp
  · rw [← htrue.wrops]
    exact hrate _
  · rw [← hdiff]
    exact hrate _
  · rw [← hlogical]
    exact hrate _
  · apply (near_wrMegabytesPerSec (report readings s).elapsed _).tells (by omega) (by omega) rfl hnear hT
    rw [hdiff]
    push_cast
    field_simp

/-- At the end of a run of whole seconds whose differences fit in 32 bits, the rates
reported are, but for three millionths, those of the CPU time, the write operations
and the bytes of the process and of the blobs written, over the time on the clock. -/
theorem true_rates (distribution : UniformInt) (config : Config) (h : Stores.Runnable config)
    (hmax : config.maxBlobSize.toNat ≤ 2 ^ 32) (hsecs : config.writeRunSeconds ≠ 0) (fuel : Nat) (random : Random)
    (ticks : List Tick) (readings : Readings) (hsteady : Steady readings.startTime ticks) (s : State Random)
    (hrun : writeBenchmark distribution config fuel readings.startTime random ticks = .ok s)
    (hend : endTime config readings.startTime ≤ readings.endTime) (hstats : Ordered readings.startStats readings.endStats)
    (hbytes : readings.startStats.writeBytes ≤ readings.endStats.writeBytes) (hfits : Deltas.Fits readings) :
    TrueRates readings (s.sets.map fun c => c.blob.length).sum (report readings s) := by
  have hpos : config.writeRunSeconds.toNat ≠ 0 := fun h0 => hsecs (UInt32.toNat_inj.1 h0)
  have hlong : 1000000000 ≤ readings.endTime - readings.startTime := by
    unfold endTime at hend
    omega
  have hshort : config.writeRunSeconds.toNat ≤ 429496 := by
    have helapsed := hfits.elapsed
    unfold Deltas.elapsed at helapsed
    unfold endTime at hend
    omega
  exact trueRates hstats hbytes hfits hlong ((h.written hshort hsteady hrun).logicalWriteBytes hmax)

theorem true_rates_small_blobs :
    let readings : Readings := ⟨4096000, 0, getStats ⟨0, 0, 100, by decide, 0, 0⟩,
      getStats ⟨50, 150, 100, by decide, 98304000, 12000⟩, 10000001000⟩
    ∃ s, writeBenchmark .reduce Stores.smallBlobs (2 ^ 27) 0 (fun n => .ofNat (n * n))
        [⟨1000000, none, none⟩, ⟨2000000, none, none⟩] = .ok s ∧
      TrueRates readings (s.sets.map fun c => c.blob.length).sum (report readings s) := by
  intro readings
  have hsteady : Steady 0 [⟨1000000, none, none⟩, ⟨2000000, none, none⟩] := ⟨by decide, by decide, trivial⟩
  obtain ⟨s, hs⟩ := Stores.smallBlobs_runnable.ends .reduce 0 (fun n => .ofNat (n * n))
    [⟨1000000, none, none⟩, ⟨2000000, none, none⟩]
  have hstats : Ordered readings.startStats readings.endStats :=
    getStats_ordered rfl (by decide) (by decide) (by decide) (by decide) (by decide)
  exact ⟨s, hs _ (le_refl _), true_rates .reduce Stores.smallBlobs Stores.smallBlobs_runnable (by decide) (by decide) _ _ _
    readings hsteady s (hs _ (le_refl _)) (by decide) hstats (by decide) ⟨by decide, by decide, by decide⟩⟩

end JellyBench.Figures
