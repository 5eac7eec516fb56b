import Mathlib.Data.List.Basic
/-!
# A write-ahead log

A log grows by records at its end, and a synchronization makes those there safe.
A power failure keeps the safe records and any number of those after them, in
order. What is recovered is a replay of what was kept.
-/
namespace Lib

variable {ρ σ : Type}

/-- The records, and how many of them are safe. -/
structure Wal (ρ : Type) where
  records : List ρ
  synced : ℕ
  synced_le : synced ≤ records.length

namespace Wal

def empty : Wal ρ := ⟨[], 0, Nat.le_refl 0⟩

def append (w : Wal ρ) (r : ρ) : Wal ρ :=
  ⟨w.records ++ [r], w.synced, by rw [List.length_append]; exact Nat.le_add_right_of_le w.synced_le⟩

def sync (w : Wal ρ) : Wal ρ := ⟨w.records, w.records.length, Nat.le_refl _⟩

/-- `kept` may be what a power failure leaves of the log. -/
structure Survives (w : Wal ρ) (kept : List ρ) : Prop where
  order : kept <+: w.records
  safe : w.synced ≤ kept.length

/-- A new record is kept last, if at all. -/
theorem survives_append {w : Wal ρ} {r : ρ} {kept : List ρ} :
    (w.append r).Survives kept ↔ w.Survives kept ∨ kept = w.records ++ [r] := by
  constructor
  · rintro ⟨hkept, hsynced⟩
    rcases List.prefix_concat_iff.1 hkept with rfl | hkept
    · exact .inr rfl
    · exact .inl ⟨hkept, hsynced⟩
  · rintro (⟨hkept, hsynced⟩ | rfl)
    · exact ⟨hkept.trans (List.prefix_append _ _), hsynced⟩
    · exact ⟨List.prefix_refl _, (w.append r).synced_le⟩

/-- After a synchronization everything is kept. -/
theorem survives_sync {w : Wal ρ} {kept : List ρ} : w.sync.Survives kept ↔ kept = w.records := by
  constructor
  · rintro ⟨hkept, hsynced⟩
    exact hkept.eq_of_length_le hsynced
  · rintro rfl
    exact ⟨List.prefix_refl _, Nat.le_refl _⟩

theorem survives_empty {kept : List ρ} : (empty : Wal ρ).Survives kept ↔ kept = [] :=
  survives_sync (w := empty)

def replay (apply : σ → ρ → σ) (s : σ) (kept : List ρ) : σ := kept.foldl apply s

@[simp] theorem replay_nil (apply : σ → ρ → σ) (s : σ) : replay apply s [] = s := rfl

@[simp] theorem replay_snoc (apply : σ → ρ → σ) (s : σ) (kept : List ρ) (r : ρ) :
    replay apply s (kept ++ [r]) = apply (replay apply s kept) r := by
  simp [replay]

end Wal

end Lib
