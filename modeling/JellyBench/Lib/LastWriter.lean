import Mathlib.Data.List.Induction
import Mathlib.Data.List.Perm.Basic
import Mathlib.Order.Lattice
/-!
# Last-writer-wins registers

Writes carry a key and a stamp from a linear order. A register map keeps, for
each key, one write, and takes an offered write only when its stamp is larger
than the one it holds. `Wins` says which write that leaves: the earliest of
those with the largest stamp. `last` is the other reading of "last writer", by
position in the history; the two agree when stamps increase.
-/
namespace Lib

variable {α κ τ : Type}

/-! ## Histories -/

section Histories
variable [LinearOrder τ] {key : α → κ} {stamp : α → τ}

/-- The write to `k` with the largest stamp, the earliest one on a tie. -/
def Wins (key : α → κ) (stamp : α → τ) (l : List α) (k : κ) (x : α) : Prop :=
  ∃ pre post, l = pre ++ x :: post ∧ key x = k ∧ (∀ y ∈ pre, key y = k → stamp y < stamp x) ∧
    ∀ y ∈ post, key y = k → stamp y ≤ stamp x

theorem Wins.mem {l : List α} {k : κ} {x : α} (h : Wins key stamp l k x) : x ∈ l ∧ key x = k := by
  obtain ⟨pre, post, rfl, hk, -⟩ := h
  exact ⟨by simp, hk⟩

theorem Wins.le {l : List α} {k : κ} {x : α} (h : Wins key stamp l k x) {y : α} (hy : y ∈ l) (hk : key y = k) :
    stamp y ≤ stamp x := by
  obtain ⟨pre, post, rfl, -, hpre, hpost⟩ := h
  rcases List.mem_append.1 hy with hy | hy
  · exact le_of_lt (hpre y hy hk)
  · rcases List.mem_cons.1 hy with rfl | hy
    · exact le_refl _
    · exact hpost y hy hk

theorem Wins.snoc_keep {l : List α} {k : κ} {x z : α} (h : Wins key stamp l k x)
    (hz : key z = k → stamp z ≤ stamp x) : Wins key stamp (l ++ [z]) k x := by
  obtain ⟨pre, post, rfl, hk, hpre, hpost⟩ := h
  refine ⟨pre, post ++ [z], by simp, hk, hpre, fun y hy hyk => ?_⟩
  rcases List.mem_append.1 hy with hy | hy
  · exact hpost y hy hyk
  · rw [List.mem_singleton] at hy; subst hy; exact hz hyk

/-- Every write to a key has a larger stamp than the writes to it before. -/
def Increasing (key : α → κ) (stamp : α → τ) (l : List α) : Prop :=
  l.Pairwise fun x y => key x = key y → stamp x < stamp y

instance [DecidableEq κ] (l : List α) : Decidable (Increasing key stamp l) :=
  inferInstanceAs (Decidable (l.Pairwise _))

theorem increasing_snoc {l : List α} {x : α} :
    Increasing key stamp (l ++ [x]) ↔ Increasing key stamp l ∧ ∀ y ∈ l, key y = key x → stamp y < stamp x := by
  simp [Increasing, List.pairwise_append]

theorem Increasing.of_append {l l' : List α} (h : Increasing key stamp (l ++ l')) : Increasing key stamp l :=
  (List.pairwise_append.1 h).1

end Histories

variable [DecidableEq κ] (key : α → κ)

/-! ## The last write by position -/

/-- The last write to `k`. -/
def last (l : List α) (k : κ) : Option α := l.reverse.find? (fun x => key x = k)

@[simp] theorem last_nil (k : κ) : last key [] k = none := rfl

theorem last_snoc (l : List α) (x : α) (k : κ) :
    last key (l ++ [x]) k = if key x = k then some x else last key l k := by
  unfold last
  rw [List.reverse_append, List.reverse_singleton, List.singleton_append, List.find?_cons]
  by_cases h : key x = k <;> simp [h]

variable {key}

theorem last_mem {l : List α} {k : κ} {x : α} (h : last key l k = some x) : x ∈ l ∧ key x = k :=
  ⟨by simpa using List.mem_of_find?_eq_some h, by simpa using List.find?_some h⟩

theorem last_none {l : List α} {k : κ} : last key l k = none ↔ ∀ x ∈ l, key x ≠ k := by
  simp [last, List.find?_eq_none]

/-- Only the writes to a key matter for its last one. -/
theorem last_filter {l l' : List α} {k : κ} (h : l.filter (fun x => key x = k) = l'.filter fun x => key x = k) :
    last key l k = last key l' k := by
  unfold last
  rw [← List.head?_filter, ← List.head?_filter, List.filter_reverse, List.filter_reverse, h]

/-- Keys may be renamed. -/
theorem last_comp {ι : Type} [DecidableEq ι] {f : κ → ι} (hf : Function.Injective f) (l : List α) (k : κ) :
    last (fun x => f (key x)) l (f k) = last key l k := by
  simp only [last, hf.eq_iff]

/-! ## Registers -/

section Registers
variable [LinearOrder τ]

/-- Take the write unless the register holds one with a stamp at least as large. -/
def offer (key : α → κ) (stamp : α → τ) (m : κ → Option α) (x : α) : κ → Option α :=
  match m (key x) with
  | some y => if stamp x ≤ stamp y then m else Function.update m (key x) (some x)
  | none => Function.update m (key x) (some x)

/-- The registers after a history of writes. -/
def registers (key : α → κ) (stamp : α → τ) (l : List α) : κ → Option α :=
  l.foldl (offer key stamp) fun _ => none

variable (stamp : α → τ)

theorem registers_snoc (l : List α) (x : α) :
    registers key stamp (l ++ [x]) = offer key stamp (registers key stamp l) x := by
  simp [registers]

/-- At its own key an offered write is refused or stored. -/
theorem offer_cases (m : κ → Option α) (x : α) :
    (∃ y, m (key x) = some y ∧ stamp x ≤ stamp y ∧ offer key stamp m x = m) ∨
    ((∀ y, m (key x) = some y → stamp y < stamp x) ∧
      offer key stamp m x = Function.update m (key x) (some x)) := by
  unfold offer
  cases hm : m (key x) with
  | none => exact .inr ⟨by simp, rfl⟩
  | some y =>
    by_cases h : stamp x ≤ stamp y
    · exact .inl ⟨y, rfl, h, if_pos h⟩
    · refine .inr ⟨fun z hz => ?_, if_neg h⟩
      rw [← Option.some.inj hz]
      exact lt_of_not_ge h

theorem offer_other (m : κ → Option α) {x : α} {k : κ} (h : key x ≠ k) : offer key stamp m x k = m k := by
  rcases offer_cases stamp m x with ⟨_, -, -, he⟩ | ⟨-, he⟩
  · rw [he]
  · rw [he, Function.update_of_ne (Ne.symm h)]

/-- An offer keeps a register's write or raises its stamp. -/
theorem offer_mono (m : κ → Option α) (x : α) {k : κ} {w : α} (h : m k = some w) :
    offer key stamp m x k = some w ∨ ∃ y, offer key stamp m x k = some y ∧ stamp w < stamp y := by
  by_cases hk : key x = k
  · rcases offer_cases stamp m x with ⟨y, -, -, he⟩ | ⟨hlt, he⟩
    · exact .inl (by rw [he, h])
    · exact .inr ⟨x, by rw [he, ← hk, Function.update_self], hlt w (hk ▸ h)⟩
  · exact .inl (by rw [offer_other stamp m hk, h])

theorem registers_mono (l l' : List α) {k : κ} {w : α} (h : registers key stamp l k = some w) :
    registers key stamp (l ++ l') k = some w ∨
      ∃ y, registers key stamp (l ++ l') k = some y ∧ stamp w < stamp y := by
  induction l' using List.reverseRecOn with
  | nil => exact .inl (by rw [List.append_nil, h])
  | append_singleton l' x ih =>
    rw [← List.append_assoc, registers_snoc]
    rcases ih with ih | ⟨y, hy, hlt⟩
    · exact offer_mono stamp _ x ih
    · rcases offer_mono stamp _ x hy with h' | ⟨z, hz, hlt'⟩
      · exact .inr ⟨y, h', hlt⟩
      · exact .inr ⟨z, hz, lt_trans hlt hlt'⟩

/-- A register is empty exactly when its key was never written, and otherwise
holds the winner. -/
theorem registers_spec (l : List α) (k : κ) :
    (registers key stamp l k = none ∧ ∀ y ∈ l, key y ≠ k) ∨
      ∃ x, registers key stamp l k = some x ∧ Wins key stamp l k x := by
  induction l using List.reverseRecOn with
  | nil => exact .inl ⟨rfl, by simp⟩
  | append_singleton l z ih =>
    rw [registers_snoc]
    by_cases hz : key z = k
    · -- A refused write leaves the winner, a stored one is the new winner.
      subst hz
      rcases offer_cases stamp (registers key stamp l) z with ⟨y, hy, hle, he⟩ | ⟨hlt, he⟩
      · rcases ih with ⟨hnone, _⟩ | ⟨x, hx, hw⟩
        · exact absurd (hy.symm.trans hnone) (Option.some_ne_none y)
        · have hyx : y = x := Option.some.inj (hy.symm.trans hx)
          exact .inr ⟨x, by rw [he, hx], hw.snoc_keep fun _ => hyx ▸ hle⟩
      · refine .inr ⟨z, by rw [he, Function.update_self], l, [], rfl, rfl, fun y hy hyk => ?_, by simp⟩
        rcases ih with ⟨-, hnone⟩ | ⟨x, hx, hw⟩
        · exact absurd hyk (hnone y hy)
        · exact lt_of_le_of_lt (hw.le hy hyk) (hlt x hx)
    · rw [offer_other stamp _ hz]
      rcases ih with ⟨hnone, hl⟩ | ⟨x, hx, hw⟩
      · refine .inl ⟨hnone, fun y hy => ?_⟩
        rcases List.mem_append.1 hy with hy | hy
        · exact hl y hy
        · rw [List.mem_singleton] at hy; exact hy ▸ hz
      · exact .inr ⟨x, hx, hw.snoc_keep fun h => absurd h hz⟩

theorem registers_none {l : List α} {k : κ} : registers key stamp l k = none ↔ ∀ y ∈ l, key y ≠ k := by
  rcases registers_spec stamp l k with ⟨hn, hl⟩ | ⟨x, hx, hw⟩
  · exact ⟨fun _ => hl, fun _ => hn⟩
  · exact ⟨fun h => by simp [h] at hx, fun h => absurd hw.mem.2 (h x hw.mem.1)⟩

/-- With one stamp per write to a key, the order of the writes does not matter. -/
theorem registers_perm {l l' : List α} (hp : l.Perm l')
    (hd : ∀ x ∈ l, ∀ y ∈ l, key x = key y → stamp x = stamp y → x = y) :
    registers key stamp l = registers key stamp l' := by
  funext k
  rcases registers_spec stamp l k with ⟨hn, hl⟩ | ⟨x, hx, hw⟩
  · rw [hn, eq_comm, registers_none]
    exact fun y hy => hl y (hp.mem_iff.2 hy)
  · rcases registers_spec stamp l' k with ⟨-, hl'⟩ | ⟨x', hx', hw'⟩
    · exact absurd hw.mem.2 (hl' x (hp.mem_iff.1 hw.mem.1))
    · -- The winners have the same stamp, so they are the same write.
      have hm := hp.mem_iff.2 hw'.mem.1
      have hle : stamp x' ≤ stamp x := hw.le hm hw'.mem.2
      have hge : stamp x ≤ stamp x' := hw'.le (hp.mem_iff.1 hw.mem.1) hw.mem.2
      rw [hx, hx', hd x hw.mem.1 x' hm (hw.mem.2.trans hw'.mem.2.symm) (le_antisymm hge hle)]

/-- Increasing stamps make the last write by stamp the last by position. -/
theorem registers_increasing {l : List α} (h : Increasing key stamp l) : registers key stamp l = last key l := by
  induction l using List.reverseRecOn with
  | nil => rfl
  | append_singleton l x ih =>
    obtain ⟨hl, hx⟩ := increasing_snoc.1 h
    funext k
    rw [registers_snoc, last_snoc, ← ih hl]
    rcases offer_cases stamp (registers key stamp l) x with ⟨y, hy, hle, -⟩ | ⟨-, he⟩
    · rw [ih hl] at hy
      exact absurd hle (not_le_of_gt (hx y (last_mem hy).1 (last_mem hy).2))
    · rw [he]
      by_cases hk : key x = k
      · rw [if_pos hk, hk, Function.update_self]
      · rw [if_neg hk, Function.update_of_ne (Ne.symm hk)]

/-- With increasing stamps the last write to a key has the largest stamp. -/
theorem last_wins {l : List α} (h : Increasing key stamp l) {k : κ} {x : α} (hx : last key l k = some x) :
    Wins key stamp l k x := by
  rw [← registers_increasing stamp h] at hx
  rcases registers_spec stamp l k with ⟨hn, _⟩ | ⟨y, hy, hw⟩
  · exact absurd (hx.symm.trans hn) (Option.some_ne_none x)
  · rwa [Option.some.inj (hx.symm.trans hy)]

end Registers

end Lib
