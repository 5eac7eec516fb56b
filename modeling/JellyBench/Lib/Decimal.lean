import Mathlib.Algebra.Group.Nat.Defs
import Mathlib.Tactic.Common
/-!
# Decimals in a text

`decimal d n` writes `n` with its last `d` digits behind a point, and `number` reads
the digits of a text, whatever else is in it. `splitOn_text` takes the fields of a
line apart again, the first of which has a label before it.
-/
namespace Lib

/-- `n` units of the last of `d` decimals. -/
def decimal (d n : ℕ) : List Char :=
  if d = 0 then Nat.toDigits 10 n
  else Nat.toDigits 10 (n / 10 ^ d) ++ '.' :: List.leftpad d '0' (Nat.toDigits 10 (n % 10 ^ d))

/-- The number the digits of a text make, if there are any. -/
def number (cs : List Char) : Option ℕ :=
  match cs.filter Char.isDigit with
  | [] => none
  | ds => some (Nat.ofDigitChars 10 ds 0)

/-! ## Digits -/

theorem filter_toDigits (n : ℕ) : (Nat.toDigits 10 n).filter Char.isDigit = Nat.toDigits 10 n :=
  List.filter_eq_self.2 fun _ hc => Nat.isDigit_of_mem_toDigits (by decide) (by decide) hc

theorem filter_leftpad (d n : ℕ) :
    (List.leftpad d '0' (Nat.toDigits 10 n)).filter Char.isDigit = List.leftpad d '0' (Nat.toDigits 10 n) := by
  have hzero : Char.isDigit '0' = true := by decide
  rw [List.leftpad, List.filter_append, filter_toDigits, List.filter_replicate_of_pos hzero]

theorem ofDigitChars_leftpad {d n : ℕ} (hd : 0 < d) (h : n < 10 ^ d) (init : ℕ) :
    Nat.ofDigitChars 10 (List.leftpad d '0' (Nat.toDigits 10 n)) init = init * 10 ^ d + n := by
  have hlen : (Nat.toDigits 10 n).length ≤ d := (Nat.length_toDigits_le_iff (by decide) hd).2 h
  rw [Nat.ofDigitChars_eq_ofDigitChars_zero, List.length_leftpad, Nat.max_eq_left hlen, Nat.mul_comm, List.leftpad,
    Nat.ofDigitChars_append, Nat.ofDigitChars_replicate_zero, Nat.mul_zero, Nat.ofDigitChars_ten_toDigits]

theorem filter_decimal (d n : ℕ) :
    (decimal d n).filter Char.isDigit ≠ [] ∧ Nat.ofDigitChars 10 ((decimal d n).filter Char.isDigit) 0 = n := by
  unfold decimal
  split_ifs with hd
  · rw [filter_toDigits]
    exact ⟨Nat.toDigits_ne_nil, Nat.ofDigitChars_ten_toDigits⟩
  · have hpoint : Char.isDigit '.' = false := by decide
    rw [List.filter_append, List.filter_cons_of_neg (by simp [hpoint]), filter_toDigits, filter_leftpad]
    refine ⟨by simp [Nat.toDigits_ne_nil], ?_⟩
    rw [Nat.ofDigitChars_append, Nat.ofDigitChars_ten_toDigits,
      ofDigitChars_leftpad (by omega) (Nat.mod_lt _ (Nat.pow_pos (by decide)))]
    exact Nat.div_add_mod' n (10 ^ d)

/-- A decimal is read back, also behind a label. -/
theorem number_decimal {label : List Char} (h : ∀ c ∈ label, c.isDigit = false) (d n : ℕ) :
    number (label ++ decimal d n) = some n := by
  obtain ⟨hne, hvalue⟩ := filter_decimal d n
  have hlabel : label.filter Char.isDigit = [] := List.filter_eq_nil_iff.2 fun c hc => by simp [h c hc]
  unfold number
  rw [List.filter_append, hlabel, List.nil_append]
  split
  · contradiction
  · rw [hvalue]

theorem number_none {cs : List Char} (h : ∀ c ∈ cs, c.isDigit = false) : number cs = none := by
  have hnil : cs.filter Char.isDigit = [] := List.filter_eq_nil_iff.2 fun c hc => by simp [h c hc]
  simp [number, hnil]

/-- A decimal has nothing in it but digits and a point. -/
theorem mem_decimal {d n : ℕ} {c : Char} (h : c ∈ decimal d n) : c.isDigit = true ∨ c = '.' := by
  have hdigits : ∀ {m}, c ∈ Nat.toDigits 10 m → c.isDigit = true := fun hc =>
    Nat.isDigit_of_mem_toDigits (by decide) (by decide) hc
  unfold decimal at h
  split_ifs at h with hd
  · exact .inl (hdigits h)
  · rw [List.mem_append, List.mem_cons, List.leftpad, List.mem_append] at h
    rcases h with h | rfl | h | h
    · exact .inl (hdigits h)
    · exact .inr rfl
    · rw [List.eq_of_mem_replicate h]
      exact .inl (by decide)
    · exact .inl (hdigits h)

/-! ## Fields -/

theorem mem_intercalate {sep c : Char} {ls : List (List Char)} (h : c ∈ [sep].intercalate ls) : c = sep ∨ ∃ l ∈ ls, c ∈ l := by
  induction ls with
  | nil => simp at h
  | cons l ls ih =>
    cases ls with
    | nil => exact .inr ⟨l, List.mem_cons_self, by simpa using h⟩
    | cons l' ls =>
      rw [List.intercalate_cons_cons, List.mem_append, List.mem_append, List.mem_singleton] at h
      rcases h with (h | h) | h
      · exact .inr ⟨l, List.mem_cons_self, h⟩
      · exact .inl h
      · rcases ih h with hsep | ⟨m, hm, hc⟩
        · exact .inl hsep
        · exact .inr ⟨m, List.mem_cons_of_mem l hm, hc⟩

/-- A label and the fields of a line, taken apart at the separator. -/
theorem splitOn_text {sep : Char} {label field : List Char} {fields : List (List Char)} (hlabel : sep ∉ label)
    (h : ∀ f ∈ field :: fields, sep ∉ f) :
    (label ++ [sep].intercalate (field :: fields)).splitOn sep = (label ++ field) :: fields := by
  rw [List.forall_mem_cons] at h
  have hjoin : label ++ [sep].intercalate (field :: fields) = [sep].intercalate ((label ++ field) :: fields) := by
    cases fields <;> simp
  rw [hjoin]
  apply List.splitOn_intercalate sep _ (by simp)
  rw [List.forall_mem_cons, List.mem_append, not_or]
  exact ⟨⟨hlabel, h.1⟩, h.2⟩

end Lib
