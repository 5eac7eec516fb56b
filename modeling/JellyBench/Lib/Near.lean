import JellyBench.Lib.Rounding
import Mathlib.Algebra.Order.Ring.Pow
/-!
# Numbers a few roundings apart

`Near u n x y` says that `x` and `y` are within `n` factors `1 - u` of each other,
either way. Products and quotients add the factors up, a rounding adds one, and
`Near.error` turns them into a relative error.
-/
namespace Lib

structure Near {K : Type*} [Field K] [LinearOrder K] (u : K) (n : ℕ) (x y : K) : Prop where
  left : 0 ≤ x
  right : 0 ≤ y
  le : (1 - u) ^ n * y ≤ x
  ge : (1 - u) ^ n * x ≤ y

section
variable {K : Type*} [Field K] [LinearOrder K] {u : K} {n m : ℕ} {x y z a b : K}

theorem Near.refl (u : K) (hx : 0 ≤ x) : Near u 0 x x := ⟨hx, hx, by simp, by simp⟩

variable [IsStrictOrderedRing K]

theorem Near.trans (hu : u ≤ 1) (h : Near u n x y) (h' : Near u m y z) : Near u (n + m) x z where
  left := h.left
  right := h'.right
  le := by
    calc (1 - u) ^ (n + m) * z = (1 - u) ^ n * ((1 - u) ^ m * z) := by rw [pow_add, mul_assoc]
      _ ≤ (1 - u) ^ n * y := mul_le_mul_of_nonneg_left h'.le (pow_nonneg (sub_nonneg.2 hu) n)
      _ ≤ x := h.le
  ge := by
    calc (1 - u) ^ (n + m) * x = (1 - u) ^ m * ((1 - u) ^ n * x) := by rw [pow_add]; ring
      _ ≤ (1 - u) ^ m * y := mul_le_mul_of_nonneg_left h.ge (pow_nonneg (sub_nonneg.2 hu) m)
      _ ≤ z := h'.ge

theorem Near.mul (hu : u ≤ 1) (h : Near u n x y) (h' : Near u m a b) : Near u (n + m) (x * a) (y * b) where
  left := mul_nonneg h.left h'.left
  right := mul_nonneg h.right h'.right
  le := by
    calc (1 - u) ^ (n + m) * (y * b) = ((1 - u) ^ n * y) * ((1 - u) ^ m * b) := by rw [pow_add]; ring
      _ ≤ x * a := mul_le_mul h.le h'.le (mul_nonneg (pow_nonneg (sub_nonneg.2 hu) m) h'.right) h.left
  ge := by
    calc (1 - u) ^ (n + m) * (x * a) = ((1 - u) ^ n * x) * ((1 - u) ^ m * a) := by rw [pow_add]; ring
      _ ≤ y * b := mul_le_mul h.ge h'.ge (mul_nonneg (pow_nonneg (sub_nonneg.2 hu) m) h'.left) h.right

theorem Near.eq_zero_iff (hu : u < 1) (h : Near u n x y) : x = 0 ↔ y = 0 := by
  have hpow : 0 < (1 - u) ^ n := pow_pos (sub_pos.2 hu) n
  constructor
  · rintro rfl
    exact le_antisymm (nonpos_of_mul_nonpos_right h.le hpow) h.right
  · rintro rfl
    exact le_antisymm (nonpos_of_mul_nonpos_right h.ge hpow) h.left

theorem Near.div (hu : u < 1) (h : Near u n x y) (h' : Near u m a b) (hb : b ≠ 0) : Near u (n + m) (x / a) (y / b) := by
  have hb' : 0 < b := lt_of_le_of_ne h'.right hb.symm
  have ha' : 0 < a := lt_of_le_of_ne h'.left fun h0 => hb ((h'.eq_zero_iff hu).1 h0.symm)
  have hinv : Near u m a⁻¹ b⁻¹ := by
    refine ⟨inv_nonneg.2 ha'.le, inv_nonneg.2 hb'.le, ?_, ?_⟩
    · rw [← div_eq_mul_inv, div_le_iff₀ hb', inv_mul_eq_div, le_div_iff₀ ha']
      exact h'.ge
    · rw [← div_eq_mul_inv, div_le_iff₀ ha', inv_mul_eq_div, le_div_iff₀ hb']
      exact h'.le
  rw [div_eq_mul_inv, div_eq_mul_inv]
  exact h.mul hu.le hinv

/-- A constant factor or divisor changes nothing. -/
theorem Near.mul_left (hu : u ≤ 1) (hz : 0 ≤ z) (h : Near u n x y) : Near u n (z * x) (z * y) := by
  have hm := (Near.refl u hz).mul hu h
  rwa [Nat.zero_add] at hm

theorem Near.div_right (hu : u < 1) (hz : 0 < z) (h : Near u n x y) : Near u n (x / z) (y / z) :=
  h.div hu (Near.refl u hz.le) hz.ne'

/-- More factors say less. -/
theorem Near.mono (hu0 : 0 ≤ u) (hu1 : u ≤ 1) (h : Near u n x y) (hnm : n ≤ m) : Near u m x y := by
  have hpow : (1 - u) ^ m ≤ (1 - u) ^ n := pow_le_pow_of_le_one (sub_nonneg.2 hu1) (sub_le_self 1 hu0) hnm
  exact ⟨h.left, h.right, (mul_le_mul_of_nonneg_right hpow h.right).trans h.le,
    (mul_le_mul_of_nonneg_right hpow h.left).trans h.ge⟩

/-- Few factors make a relative error of twice their sum at most. -/
theorem Near.error (hu0 : 0 ≤ u) (hu1 : u ≤ 1) (h : Near u n x y) (hn : n * u ≤ 1 / 2) : |x - y| ≤ y * (2 * (n * u)) := by
  have hpow : 1 - n * u ≤ (1 - u) ^ n := by
    have hb := one_add_mul_le_pow (a := -u) (by linarith) n
    rw [← sub_eq_add_neg] at hb
    linarith
  have hle := (mul_le_mul_of_nonneg_right hpow h.right).trans h.le
  have hge := (mul_le_mul_of_nonneg_right hpow h.left).trans h.ge
  have hnu : 0 ≤ n * u := by positivity
  rw [abs_le]
  constructor
  · have hsmall := mul_nonneg h.right hnu
    linarith
  · -- `x` is at most twice `y`, so its part of the error is at most twice that of `y`.
    have htwice : x ≤ 2 * y := by
      have hhalf := mul_le_mul_of_nonneg_right hn h.left
      linarith
    have hpart := mul_le_mul_of_nonneg_right htwice hnu
    linarith

end

/-! ## Rounding -/

section
variable {p n : ℕ} {x y : ℚ}

theorem roundTo_nonneg (hp : 0 < p) (hx : 0 ≤ x) : 0 ≤ roundTo p x := by
  rcases hx.eq_or_lt with rfl | hpos
  · rw [roundTo_zero]
  · exact (roundTo_pos hp hpos).le

theorem near_roundTo (hp : 0 < p) (hx : 0 ≤ x) : Near (1 / 2 ^ p) 1 (roundTo p x) x := by
  have herr := roundTo_error p x
  rw [abs_of_nonneg hx, abs_le] at herr
  obtain ⟨hlo, hhi⟩ := herr
  have hpow : (1 : ℚ) ≤ 2 ^ p := one_le_pow₀ (by norm_num)
  have hu : (0 : ℚ) ≤ 1 - 1 / 2 ^ p := sub_nonneg.2 ((div_le_one (by positivity)).2 hpow)
  have hsq : 0 ≤ x / 2 ^ p / 2 ^ p := by positivity
  refine ⟨roundTo_nonneg hp hx, hx, ?_, ?_⟩
  · have heq : (1 - 1 / 2 ^ p) ^ 1 * x = x - x / 2 ^ p := by ring
    linarith
  · -- The factors `1 - u` and `1 + u` make less than one.
    calc (1 - 1 / 2 ^ p) ^ 1 * roundTo p x = (1 - 1 / 2 ^ p) * roundTo p x := by rw [pow_one]
      _ ≤ (1 - 1 / 2 ^ p) * (x + x / 2 ^ p) := mul_le_mul_of_nonneg_left (by linarith) hu
      _ = x - x / 2 ^ p / 2 ^ p := by ring
      _ ≤ x := by linarith

/-- A rounding is one factor more. -/
theorem Near.round (hp : 0 < p) (h : Near (1 / 2 ^ p) n x y) : Near (1 / 2 ^ p) (n + 1) (roundTo p x) y := by
  have hpow : (1 : ℚ) ≤ 2 ^ p := one_le_pow₀ (by norm_num)
  rw [Nat.add_comm n 1]
  exact (near_roundTo hp h.left).trans ((div_le_one (by positivity)).2 hpow) h

end

end Lib
