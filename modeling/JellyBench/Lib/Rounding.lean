import Mathlib.Algebra.Order.Round
import Mathlib.Data.Int.Log
import Mathlib.Data.Rat.Floor
import Mathlib.Tactic.FieldSimp
import Mathlib.Tactic.Linarith
import Mathlib.Tactic.Positivity
import Mathlib.Tactic.Ring
/-!
# Rounding to a binary precision

`roundTo p` rounds a rational to the nearest number with `p` significant bits,
to the even one on a tie. The exponent is not bounded, so nothing overflows or
gets subnormal. `roundTo_error` is the one fact about numbers that do change,
`roundTo_eq_self` the one about those that do not.
-/
namespace Lib

/-! ## To an integer -/

/-- The nearest integer, the even one on a tie. -/
def roundEven (x : ℚ) : ℤ :=
  if Int.fract x < 1 / 2 ∨ (Int.fract x = 1 / 2 ∧ ⌊x⌋ % 2 = 0) then ⌊x⌋ else ⌊x⌋ + 1

theorem roundEven_intCast (k : ℤ) : roundEven k = k := by simp [roundEven]

theorem roundEven_error (x : ℚ) : |(roundEven x : ℚ) - x| ≤ 1 / 2 := by
  have hx : x = ⌊x⌋ + Int.fract x := (Int.floor_add_fract x).symm
  have h0 := Int.fract_nonneg x
  have h1 := Int.fract_lt_one x
  rw [abs_le]
  by_cases h : Int.fract x < 1 / 2 ∨ (Int.fract x = 1 / 2 ∧ ⌊x⌋ % 2 = 0)
  · have hle : Int.fract x ≤ 1 / 2 := h.elim le_of_lt fun ht => le_of_eq ht.1
    rw [roundEven, if_pos h]
    constructor <;> linarith
  · have hge : 1 / 2 ≤ Int.fract x := not_lt.1 fun hlt => h (.inl hlt)
    rw [roundEven, if_neg h, Int.cast_add, Int.cast_one]
    constructor <;> linarith

/-- An integer bound is kept. -/
theorem abs_roundEven_le {x : ℚ} {n : ℕ} (h : |x| ≤ n) : |roundEven x| ≤ n := by
  have herr := abs_le.1 (roundEven_error x)
  have hx := abs_le.1 h
  have hhi : (roundEven x : ℚ) < ((n + 1 : ℤ) : ℚ) := by push_cast; linarith
  have hlo : ((-(n + 1) : ℤ) : ℚ) < (roundEven x : ℚ) := by push_cast; linarith
  rw [Int.cast_lt] at hhi hlo
  rw [abs_le]
  omega

/-! ## To a precision -/

/-- The distance of neighbours with `p` significant bits, around `x`. -/
def ulp (p : ℕ) (x : ℚ) : ℚ := 2 ^ (Int.log 2 |x| + 1 - p)

def roundTo (p : ℕ) (x : ℚ) : ℚ := roundEven (x / ulp p x) * ulp p x

/-- `x` has at most `p` significant bits. -/
def Representable (p : ℕ) (x : ℚ) : Prop := ∃ m e : ℤ, x = m * 2 ^ e ∧ |m| ≤ 2 ^ p

theorem ulp_pos (p : ℕ) (x : ℚ) : 0 < ulp p x := zpow_pos (by norm_num) _

theorem ulp_le (p : ℕ) {x : ℚ} (hx : x ≠ 0) : ulp p x ≤ |x| * (2 / 2 ^ p) := by
  have hlog : (2 : ℚ) ^ Int.log 2 |x| ≤ |x| := by
    exact_mod_cast Int.zpow_log_le_self (b := 2) (by omega) (abs_pos.2 hx)
  unfold ulp
  rw [zpow_sub₀ (by norm_num), zpow_add_one₀ (by norm_num), zpow_natCast, mul_div_assoc]
  exact mul_le_mul_of_nonneg_right hlog (by positivity)

theorem abs_div_ulp_le (p : ℕ) (x : ℚ) : |x / ulp p x| ≤ (2 ^ p : ℕ) := by
  have hlog : |x| < (2 : ℚ) ^ (Int.log 2 |x| + 1) := by
    exact_mod_cast Int.lt_zpow_succ_log_self (b := 2) (by omega) |x|
  rw [abs_div, abs_of_pos (ulp_pos p x), div_le_iff₀ (ulp_pos p x)]
  unfold ulp
  rw [Nat.cast_pow, Nat.cast_ofNat, ← zpow_natCast, ← zpow_add₀ (by norm_num)]
  rw [show (p : ℤ) + (Int.log 2 |x| + 1 - p) = Int.log 2 |x| + 1 by omega]
  exact hlog.le

theorem roundTo_zero (p : ℕ) : roundTo p 0 = 0 := by simp [roundTo, roundEven]

/-- A rounded number is off by half the last bit at most. -/
theorem roundTo_error (p : ℕ) (x : ℚ) : |roundTo p x - x| ≤ |x| / 2 ^ p := by
  by_cases hx : x = 0
  · simp [hx, roundTo_zero]
  · have hu := ulp_pos p x
    have hscale : roundTo p x - x = (roundEven (x / ulp p x) - x / ulp p x) * ulp p x := by
      unfold roundTo
      field_simp
    rw [hscale, abs_mul, abs_of_pos hu]
    calc |(roundEven (x / ulp p x) : ℚ) - x / ulp p x| * ulp p x
        ≤ 1 / 2 * (|x| * (2 / 2 ^ p)) :=
          mul_le_mul (roundEven_error _) (ulp_le p hx) hu.le (by norm_num)
      _ = |x| / 2 ^ p := by ring

theorem roundTo_representable (p : ℕ) (x : ℚ) : Representable p (roundTo p x) := by
  refine ⟨roundEven (x / ulp p x), Int.log 2 |x| + 1 - p, rfl, ?_⟩
  exact_mod_cast abs_roundEven_le (abs_div_ulp_le p x)

/-- A number with few enough bits is a multiple of the last bit's weight. -/
theorem Representable.multiple {p : ℕ} (hp : 0 < p) {x : ℚ} (h : Representable p x) : ∃ k : ℤ, x = k * ulp p x := by
  obtain ⟨m, e, rfl, hm⟩ := h
  by_cases hm0 : m = 0
  · exact ⟨0, by simp [hm0]⟩
  have he : (0 : ℚ) < 2 ^ e := zpow_pos (by norm_num) e
  have habs : |(m : ℚ) * 2 ^ e| = (|m| : ℤ) * 2 ^ e := by rw [abs_mul, abs_of_pos he, Int.cast_abs]
  have hpos : (0 : ℚ) < (|m| : ℤ) * 2 ^ e := mul_pos (by exact_mod_cast abs_pos.2 hm0) he
  unfold ulp
  rw [habs]
  rcases lt_or_eq_of_le hm with hlt | heq
  · -- The last bit weighs at most `2 ^ e`.
    have hlog : Int.log 2 ((|m| : ℤ) * 2 ^ e : ℚ) < p + e := by
      apply (Int.lt_zpow_iff_log_lt (b := 2) (by omega) hpos).1
      rw [Nat.cast_ofNat, zpow_add₀ (by norm_num), zpow_natCast]
      exact mul_lt_mul_of_pos_right (by exact_mod_cast hlt) (zpow_pos (by norm_num) e)
    obtain ⟨n, hn⟩ := Int.le.dest (show Int.log 2 ((|m| : ℤ) * 2 ^ e : ℚ) + 1 - p ≤ e by omega)
    refine ⟨m * 2 ^ n, ?_⟩
    nth_rewrite 1 [← hn]
    rw [zpow_add₀ (by norm_num), zpow_natCast]
    push_cast
    ring
  · -- `m` is `2 ^ p` up to its sign, one bit more, but the last one is zero.
    have hlog : Int.log 2 ((|m| : ℤ) * 2 ^ e : ℚ) = p + e := by
      rw [heq, Int.cast_pow, Int.cast_ofNat, ← zpow_natCast, ← zpow_add₀ (by norm_num)]
      exact_mod_cast Int.log_zpow (R := ℚ) (b := 2) (by omega) ((p : ℤ) + e)
    rw [hlog, show (p : ℤ) + e + 1 - p = e + 1 by omega]
    have heven : ∃ k, m = 2 * k := by
      obtain ⟨q, rfl⟩ := Nat.exists_eq_succ_of_ne_zero (Nat.ne_of_gt hp)
      rcases abs_eq (by positivity) |>.1 heq with rfl | rfl
      · exact ⟨2 ^ q, by rw [pow_succ]; ring⟩
      · exact ⟨-2 ^ q, by rw [pow_succ]; ring⟩
    obtain ⟨k, rfl⟩ := heven
    refine ⟨k, ?_⟩
    rw [zpow_add_one₀ (by norm_num)]
    push_cast
    ring

/-- Rounding changes nothing that has few enough bits. -/
theorem roundTo_eq_self {p : ℕ} (hp : 0 < p) {x : ℚ} (h : Representable p x) : roundTo p x = x := by
  obtain ⟨k, hk⟩ := h.multiple hp
  have hu := (ulp_pos p x).ne'
  unfold roundTo
  rw [show x / ulp p x = (k : ℚ) by rw [div_eq_iff hu]; exact hk, roundEven_intCast]
  exact hk.symm

theorem representable_natCast {p n : ℕ} (h : n ≤ 2 ^ p) : Representable p n :=
  ⟨n, 0, by simp, by rw [Nat.abs_cast]; exact_mod_cast h⟩

theorem roundTo_pos {p : ℕ} (hp : 0 < p) {x : ℚ} (h : 0 < x) : 0 < roundTo p x := by
  have herr := abs_le.1 (roundTo_error p x)
  have hhalf : |x| / 2 ^ p ≤ x / 2 := by
    rw [abs_of_pos h]
    have hpow : (2 : ℚ) ^ 1 ≤ 2 ^ p := pow_le_pow_right₀ (by norm_num) hp
    exact div_le_div_of_nonneg_left h.le (by norm_num) (by simpa using hpow)
  linarith

/-! ## Order -/

/-- No other integer is nearer. -/
theorem roundEven_nearest (x : ℚ) (k : ℤ) : |(roundEven x : ℚ) - x| ≤ |k - x| := by
  have herr := roundEven_error x
  by_cases hk : k = roundEven x
  · rw [hk]
  · have hone : (1 : ℚ) ≤ |(k : ℚ) - roundEven x| := by
      rw [← Int.cast_sub, ← Int.cast_abs]
      exact_mod_cast Int.one_le_abs (sub_ne_zero.2 hk)
    have htri := abs_sub_le (k : ℚ) x (roundEven x)
    rw [abs_sub_comm x] at htri
    linarith

/-- A multiple of the last bit's weight is not nearer. -/
theorem roundTo_nearest_multiple (p : ℕ) (x : ℚ) (k : ℤ) : |roundTo p x - x| ≤ |k * ulp p x - x| := by
  have hu := ulp_pos p x
  have hscale : ∀ j : ℤ, |(j : ℚ) * ulp p x - x| = |(j : ℚ) - x / ulp p x| * ulp p x := by
    intro j
    rw [← abs_of_pos hu, ← abs_mul, abs_of_pos hu, sub_mul, div_mul_cancel₀ x hu.ne']
  unfold roundTo
  rw [hscale, hscale]
  exact mul_le_mul_of_nonneg_right (roundEven_nearest _ k) hu.le

theorem ulp_dvd (p : ℕ) {x z : ℚ} (h : Int.log 2 |x| ≤ Int.log 2 |z|) : ∃ n : ℕ, ulp p z = 2 ^ n * ulp p x := by
  obtain ⟨n, hn⟩ := Int.le.dest h
  refine ⟨n, ?_⟩
  unfold ulp
  rw [← hn, ← zpow_natCast, ← zpow_add₀ (by norm_num)]
  congr 1
  omega

/-- No other number with few enough bits is nearer. -/
theorem roundTo_nearest {p : ℕ} (hp : 0 < p) (x : ℚ) {z : ℚ} (hz : Representable p z) :
    |roundTo p x - x| ≤ |z - x| := by
  by_cases hx : x = 0
  · simp [hx, roundTo_zero]
  have hlog : (2 : ℚ) ^ Int.log 2 |x| ≤ |x| := by
    exact_mod_cast Int.zpow_log_le_self (b := 2) (by omega) (abs_pos.2 hx)
  by_cases hbig : (2 : ℚ) ^ Int.log 2 |x| ≤ |z|
  · -- The last bit of `z` weighs as much as that of `x`, or more.
    have hzpos : 0 < |z| := lt_of_lt_of_le (zpow_pos (by norm_num) _) hbig
    obtain ⟨n, hn⟩ := ulp_dvd p ((Int.zpow_le_iff_le_log (b := 2) (by omega) hzpos).1 (by exact_mod_cast hbig))
    obtain ⟨k, hk⟩ := hz.multiple hp
    have hmul : z = (k * 2 ^ n : ℤ) * ulp p x := by
      nth_rewrite 1 [hk]
      rw [hn]
      push_cast
      ring
    rw [hmul]
    exact roundTo_nearest_multiple p x _
  · -- A power of two lies between `z` and `x`.
    have hpow : (2 : ℚ) ^ Int.log 2 |x| = (2 ^ (p - 1) : ℤ) * ulp p x := by
      unfold ulp
      push_cast
      rw [← zpow_natCast, ← zpow_add₀ (by norm_num)]
      congr 1
      omega
    have hfar := abs_sub_abs_le_abs_sub x z
    rw [abs_sub_comm x] at hfar
    generalize (2 : ℚ) ^ Int.log 2 |x| = b at hlog hbig hpow
    rw [not_le] at hbig
    rcases abs_cases x with ⟨habs, -⟩ | ⟨habs, -⟩ <;> rw [habs] at hlog hfar
    · have hnear := roundTo_nearest_multiple p x (2 ^ (p - 1))
      rw [← hpow, abs_of_nonpos (sub_nonpos.2 hlog)] at hnear
      linarith
    · have hnear := roundTo_nearest_multiple p x (-2 ^ (p - 1))
      rw [Int.cast_neg, neg_mul, ← hpow, abs_of_nonneg (show 0 ≤ -b - x by linarith)] at hnear
      linarith

theorem le_middle {a b x : ℚ} (hab : a < b) (h : |b - x| ≤ |a - x|) : a + b ≤ 2 * x := by
  have hsq := sq_le_sq.2 h
  have hprod : (b - a) * (a + b - 2 * x) ≤ 0 := by linarith
  by_contra hlt
  rw [not_le] at hlt
  exact absurd hprod (not_le.2 (mul_pos (sub_pos.2 hab) (by linarith)))

/-- Of two numbers the smaller one is not nearer to the larger of two results, unless
they are the same. -/
theorem le_of_nearest {x y a b : ℚ} (h : x ≤ y) (ha : |a - x| ≤ |b - x|) (hb : |b - y| ≤ |a - y|) (heq : x = y → a = b) :
    a ≤ b := by
  by_contra hlt
  rw [not_le] at hlt
  -- Neither is past the middle of the two results.
  have hx := le_middle hlt ha
  have hy := le_middle (neg_lt_neg hlt) (x := -y) (by
    rw [neg_sub_neg, neg_sub_neg, abs_sub_comm y, abs_sub_comm y]
    exact hb)
  have hsame : x = y := by linarith
  rw [heq hsame] at hlt
  exact lt_irrefl _ hlt

theorem roundEven_mono {x y : ℚ} (h : x ≤ y) : roundEven x ≤ roundEven y := by
  have hle : (roundEven x : ℚ) ≤ roundEven y :=
    le_of_nearest h (roundEven_nearest x _) (roundEven_nearest y _) fun heq => by rw [heq]
  exact_mod_cast hle

theorem roundTo_mono {p : ℕ} (hp : 0 < p) {x y : ℚ} (h : x ≤ y) : roundTo p x ≤ roundTo p y :=
  le_of_nearest h (roundTo_nearest hp x (roundTo_representable p y)) (roundTo_nearest hp y (roundTo_representable p x))
    fun heq => by rw [heq]

theorem le_roundTo {p : ℕ} (hp : 0 < p) {x z : ℚ} (hz : Representable p z) (h : z ≤ x) : z ≤ roundTo p x := by
  rw [← roundTo_eq_self hp hz]
  exact roundTo_mono hp h

theorem roundTo_le {p : ℕ} (hp : 0 < p) {x z : ℚ} (hz : Representable p z) (h : x ≤ z) : roundTo p x ≤ z := by
  rw [← roundTo_eq_self hp hz]
  exact roundTo_mono hp h

theorem Representable.neg {p : ℕ} {x : ℚ} (h : Representable p x) : Representable p (-x) := by
  obtain ⟨m, e, rfl, hm⟩ := h
  exact ⟨-m, e, by push_cast; ring, by rwa [abs_neg]⟩

/-- One can be taken off as long as the last bit weighs at most one. -/
theorem Representable.sub_one {p : ℕ} {x : ℚ} (h : Representable p x) (h1 : 1 ≤ x) (hx : x ≤ 2 ^ p) :
    Representable p (x - 1) := by
  obtain ⟨m, e, rfl, hm⟩ := h
  rcases le_total 0 e with he | he
  · -- A whole number.
    obtain ⟨n, rfl⟩ := Int.eq_ofNat_of_zero_le he
    rw [zpow_natCast] at h1 hx ⊢
    have h1' : 1 ≤ m * 2 ^ n := by exact_mod_cast h1
    have hx' : m * 2 ^ n ≤ 2 ^ p := by exact_mod_cast hx
    refine ⟨m * 2 ^ n - 1, 0, by push_cast; ring, ?_⟩
    rw [abs_le]
    constructor <;> omega
  · -- One is a multiple of the last bit's weight.
    obtain ⟨n, hn⟩ := Int.eq_ofNat_of_zero_le (neg_nonneg.2 he)
    obtain rfl : e = -n := by omega
    have hpow : (0 : ℚ) < 2 ^ n := by positivity
    rw [zpow_neg, zpow_natCast] at h1 ⊢
    have hm1 : (2 : ℚ) ^ n ≤ m := by
      rw [← div_eq_mul_inv, le_div_iff₀ hpow, one_mul] at h1
      exact h1
    have hm1' : (2 : ℤ) ^ n ≤ m := by exact_mod_cast hm1
    refine ⟨m - 2 ^ n, -n, ?_, ?_⟩
    · rw [zpow_neg, zpow_natCast]
      push_cast
      field_simp
    · have hpos : (0 : ℤ) < 2 ^ n := by positivity
      rw [abs_le] at hm ⊢
      constructor <;> omega

/-! ## Past the last whole number

Above `2 ^ p` every other whole number is left out. -/

/-- A whole number in between goes to the neighbour with an even last bit. -/
theorem roundTo_odd {p : ℕ} (hp : 1 < p) {k : ℕ} (hk : k < 2 ^ (p - 1)) :
    roundTo p (2 ^ p + (2 * k + 1 : ℕ)) = 2 ^ p + (if k % 2 = 0 then 2 * k else 2 * k + 2 : ℕ) := by
  obtain ⟨q, rfl⟩ := Nat.exists_eq_add_of_lt hp
  have hx : (2 : ℚ) ^ (1 + q + 1) + (2 * k + 1 : ℕ) = (2 ^ (q + 1) + k : ℕ) * 2 + 1 := by
    push_cast
    ring
  rw [hx]
  have hpos : (0 : ℚ) < (2 ^ (q + 1) + k : ℕ) * 2 + 1 := by positivity
  have hlog : Int.log 2 ((2 ^ (q + 1) + k : ℕ) * 2 + 1 : ℚ) = 1 + q + 1 := by
    apply le_antisymm
    · apply Int.lt_add_one_iff.1
      apply (Int.lt_zpow_iff_log_lt (b := 2) (by omega) hpos).1
      have hk' : (2 ^ (q + 1) + k) * 2 + 1 < 2 ^ (1 + q + 1 + 1) := by
        rw [show 1 + q + 1 - 1 = q + 1 by omega] at hk
        rw [show 1 + q + 1 + 1 = q + 1 + 2 by omega, pow_add 2 (q + 1) 2]
        omega
      exact_mod_cast hk'
    · apply (Int.zpow_le_iff_le_log (b := 2) (by omega) hpos).1
      have hk' : 2 ^ (1 + q + 1) ≤ (2 ^ (q + 1) + k) * 2 + 1 := by
        rw [show 1 + q + 1 = q + 1 + 1 by omega, pow_succ 2 (q + 1)]
        omega
      exact_mod_cast hk'
  have hulp : ulp (1 + q + 1) ((2 ^ (q + 1) + k : ℕ) * 2 + 1) = 2 := by
    unfold ulp
    rw [abs_of_pos hpos, hlog]
    push_cast
    rw [show (1 + (q : ℤ) + 1) + 1 - (1 + q + 1) = 1 by omega, zpow_one]
  have hhalf : ((2 ^ (q + 1) + k : ℕ) * 2 + 1 : ℚ) / 2 = (2 ^ (q + 1) + k : ℕ) + 1 / 2 := by ring
  have hfloor : ⌊((2 ^ (q + 1) + k : ℕ) + 1 / 2 : ℚ)⌋ = (2 ^ (q + 1) + k : ℕ) := by
    rw [Int.floor_eq_iff]
    constructor
    · push_cast
      linarith
    · push_cast
      linarith
  have hfract : Int.fract ((2 ^ (q + 1) + k : ℕ) + 1 / 2 : ℚ) = 1 / 2 := by
    rw [Int.fract, hfloor]
    push_cast
    ring
  unfold roundTo roundEven
  rw [hulp, hhalf, hfract, hfloor]
  have heven : ((2 ^ (q + 1) + k : ℕ) : ℤ) % 2 = 0 ↔ k % 2 = 0 := by
    rw [pow_succ]
    omega
  by_cases h : k % 2 = 0
  · rw [if_pos (.inr ⟨rfl, heven.2 h⟩), if_pos h]
    push_cast
    ring
  · rw [if_neg (by rw [heven]; simp [h]), if_neg h]
    push_cast
    ring

end Lib
