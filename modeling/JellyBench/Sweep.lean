import JellyBench.Requests
/-!
# The sweep is an exact filter

`_UpdateRequests` shrinks the vector it walks over. `Swept` says what that comes
to; here it is compared with a filter of the vector, and the number of turns is
bounded by the number of slots, whatever the order of the completed requests.
-/
open JellyBench.JellyWrite JellyBench.Requests

namespace JellyBench.Sweep

instance (heap : Heap) (a : Addr) : Decidable (Completed heap a) :=
  match h : heap a with
  | some r => decidable_of_iff (r.completed = true) (by simp [Completed, h])
  | none => isFalse (by simp [Completed, h])

/-- The slots are those of the requests not completed, in some order, and each
completed request has been destroyed once. Nothing else changes. -/
structure Filtered (s s' : JellyWrite) (as : List Addr) : Prop where
  kept : ∃ kept : List Addr, s'.requests = kept.map some ∧ kept.Perm (as.filter fun a => ¬ Completed s.heap a)
  destroyed : ∃ gone : List Addr, s'.destroyed = s.destroyed ++ gone.filterMap s.heap ∧
    gone.Perm (as.filter fun a => Completed s.heap a)
  heap : ∀ a, s'.heap a = if a ∈ as ∧ Completed s.heap a then none else s.heap a
  others : s'.next = s.next ∧ s'.held = s.held ∧ s'.logicalWriteBytes = s.logicalWriteBytes

/-- Turns that are not needed make no difference. -/
theorem sweep_more {n m : Nat} {i : UInt64} {s s' : JellyWrite} (h : updateRequestsFrom n i s = .ok s') (hm : n ≤ m) :
    updateRequestsFrom m i s = .ok s' := by
  induction n generalizing m i s with
  | zero =>
    rw [updateRequestsFrom] at h
    split_ifs at h with hi
    rw [← h]
    cases m <;> rw [updateRequestsFrom, if_neg hi]
  | succ n ih =>
    obtain ⟨m, rfl⟩ := Nat.exists_eq_add_of_le' (Nat.le_trans (Nat.le_add_left 1 n) hm)
    rw [updateRequestsFrom] at h ⊢
    split_ifs at h ⊢ with hi
    · cases hc : (s.slot i).bind s.isCompleted with
      | error stop => rw [hc] at h; cases h
      | ok completed =>
        rw [hc] at h
        cases completed with
        | false => exact ih h (by omega)
        | true =>
          cases hr : s.remove i with
          | error stop => simp only [hr] at h; cases h
          | ok t =>
            simp only [hr] at h ⊢
            exact ih h (by omega)
    · exact h

theorem perm_filter {l a b : List Addr} {p : Addr → Bool} (h : l.Perm (a ++ b)) (ha : ∀ x ∈ a, p x = true)
    (hb : ∀ x ∈ b, p x = false) : a.Perm (l.filter p) := by
  have hall : a.filter p = a := List.filter_eq_self.2 ha
  have hnone : b.filter p = [] := List.filter_eq_nil_iff.2 fun x hx => by simp [hb x hx]
  have hfilter := h.filter p
  rw [List.filter_append, hall, hnone, List.append_nil] at hfilter
  exact hfilter.symm

theorem filtered {s s' : JellyWrite} {as gone kept : List Addr} (h : Swept s s' as gone kept) : Filtered s s' as := by
  obtain ⟨rfl, hperm, hgone, hkept⟩ := h
  refine ⟨⟨kept, rfl, ?_⟩, ⟨gone, rfl, ?_⟩, ?_, rfl, rfl, rfl⟩
  · apply perm_filter (hperm.trans List.perm_append_comm)
    · exact fun a ha => decide_eq_true (hkept a ha)
    · exact fun a ha => decide_eq_false (not_not_intro (hgone a ha))
  · apply perm_filter hperm
    · exact fun a ha => decide_eq_true (hgone a ha)
    · exact fun a ha => decide_eq_false (hkept a ha)
  · -- Among the slots, the completed requests are those in `gone`.
    intro a
    have hmem : a ∈ gone ↔ a ∈ as ∧ Completed s.heap a := by
      rw [hperm.mem_iff, List.mem_append]
      constructor
      · exact fun ha => ⟨.inl ha, hgone a ha⟩
      · rintro ⟨ha | ha, hc⟩
        · exact ha
        · exact absurd hc (hkept a ha)
    simp only [hmem]

/-- With a turn for every slot the sweep has ended. No slot is read, moved from
or popped that is not there, and no empty one is looked into. -/
theorem sweep_is_filter {s : JellyWrite} {as : List Addr} (h : Slots s as) :
    ∃ s', s.updateRequests = .ok s' ∧ (∀ n ≥ as.length, updateRequestsFrom n 0 s = .ok s') ∧ Filtered s s' as := by
  obtain ⟨s', gone, kept, hs', hswept⟩ := updateRequests_spec h
  refine ⟨s', hs', fun n hn => sweep_more hs' ?_, filtered hswept⟩
  rw [h.requests, List.length_map]
  exact hn

/-- Slot 0 is completed, and so is the request of the last slot, which is moved there. -/
theorem sweep_is_filter_refilled :
    let s : JellyWrite := ⟨fun a => if a < 3 then some ⟨0, 0, [], a ≠ 1⟩ else none, 3, [1], [some 0, some 1, some 2], [], 0⟩
    ∃ s', s.updateRequests = .ok s' ∧ (∀ n ≥ 3, updateRequestsFrom n 0 s = .ok s') ∧ Filtered s s' [0, 1, 2] := by
  intro s
  have h : Slots s [0, 1, 2] := ⟨rfl, by decide, by simp [s], by decide⟩
  exact sweep_is_filter h

end JellyBench.Sweep
