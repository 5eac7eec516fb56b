import JellyBench.JellyWrite
import Mathlib.Data.List.Nodup
import Mathlib.Data.Option.Basic
/-!
# Requests and their owners

`Owns` says that the slots of `m_requests` are the owners of all living requests,
each of one, and that the node holds those not completed. Sweeping keeps it:
`sweep_spec` says that exactly the completed requests go.
-/
open JellyBench.JellyWrite

namespace JellyBench.Requests

def Completed (heap : Heap) (a : Addr) : Prop := ∃ r, heap a = some r ∧ r.completed = true

/-! ## The sweep -/

/-- Every slot has a living request of its own. -/
structure Slots (s : JellyWrite) (as : List Addr) : Prop where
  requests : s.requests = as.map some
  nodup : as.Nodup
  alive : ∀ a ∈ as, ∃ r, s.heap a = some r
  room : as.length < 2 ^ 64

theorem toNat_succ {i : UInt64} (h : i.toNat + 1 < 2 ^ 64) : (i + 1).toNat = i.toNat + 1 := by
  rw [UInt64.toNat_add, UInt64.toNat_one, Nat.mod_eq_of_lt h]

theorem Slots.toNat_size {s : JellyWrite} {as : List Addr} (h : Slots s as) : s.size.toNat = as.length := by
  have := h.room
  rw [size, h.requests, List.length_map, UInt64.toNat_ofNat', Nat.mod_eq_of_lt (by omega)]

theorem Slots.slot {s : JellyWrite} {as : List Addr} (h : Slots s as) {i : UInt64} (hi : i.toNat < as.length) :
    s.slot i = .ok (some as[i.toNat]) := by
  unfold JellyWrite.slot
  rw [h.requests, List.getElem?_map, List.getElem?_eq_getElem hi]
  rfl

/-- The request goes, and the last slot takes the place of its slot. -/
theorem remove_spec {s : JellyWrite} {as : List Addr} (h : Slots s as) {i : UInt64} (hi : i.toNat < as.length)
    {r : Request} (hr : s.heap as[i.toNat] = some r) :
    s.remove i = .ok { s with
      requests := (Lib.swapPop as i.toNat).map some
      heap := Function.update s.heap as[i.toNat] none
      destroyed := s.destroyed ++ [r] } := by
  have hsize := h.toNat_size
  have hroom := h.room
  have hadd := toNat_succ (i := i) (by omega)
  obtain ⟨init, x, rfl, hlt | heq⟩ := Lib.exists_append hi
  · -- The last slot is another one, and takes the place of slot `i`.
    rw [List.length_append, List.length_singleton] at hsize hroom
    have hlast : (s.size - 1).toNat = init.length := by
      rw [UInt64.toNat_sub, hsize, UInt64.toNat_one]
      omega
    have hnext : i + 1 < s.size := by
      rw [UInt64.lt_iff_toNat_lt, hsize, hadd]
      omega
    have hslot : s.slot (s.size - 1) = .ok (some x) := by
      rw [h.slot (by rw [hlast]; simp)]
      simp [hlast]
    have hset : (s.requests.set init.length none).set i.toNat (some x) = (init.set i.toNat x).map some ++ [none] := by
      have hmap : (init.map some).length = init.length := List.length_map some
      rw [h.requests, List.map_append, List.set_append, if_neg (by omega), hmap, Nat.sub_self, List.set_append,
        if_pos (by omega), List.map_set]
      rfl
    rw [remove, if_pos hnext, moveLast, h.slot hi, hslot]
    simp only [delete, hr, hlast, hset, popBack, List.getLast?_append, List.getLast?_singleton, Option.some_or,
      List.dropLast_concat, Lib.swapPop_append init x hlt]
  · -- Slot `i` is the last one, so nothing is moved.
    rw [List.length_append, List.length_singleton] at hsize
    have hnext : ¬ i + 1 < s.size := by
      rw [UInt64.lt_iff_toNat_lt, hsize, hadd]
      omega
    have hx : (init ++ [x])[i.toNat] = x := by simp [heq]
    have hmap : (init ++ [x]).map some = init.map some ++ [some x] := List.map_append
    rw [hx] at hr ⊢
    rw [remove, if_neg hnext, popBack, h.requests, hmap, List.getLast?_concat]
    simp only [delete, hr, List.dropLast_concat, heq, Lib.swapPop_last]

theorem completed_update {heap : Heap} {a b : Addr} (h : b ≠ a) :
    Completed (Function.update heap a none) b ↔ Completed heap b := by
  unfold Completed
  rw [Function.update_of_ne h]

theorem sweep_end (n : Nat) {i : UInt64} {s : JellyWrite} {as : List Addr} (h : Slots s as) (hi : as.length ≤ i.toNat) :
    updateRequestsFrom n i s = .ok s := by
  have hend : ¬ i < s.size := by
    rw [UInt64.lt_iff_toNat_lt, h.toNat_size]
    omega
  cases n <;> rw [updateRequestsFrom, if_neg hend]

/-- One turn: a completed request goes and `i` stays, or `i` moves on. -/
theorem sweep_succ (n : Nat) {i : UInt64} {s : JellyWrite} {as : List Addr} (h : Slots s as) (hi : i.toNat < as.length)
    {r : Request} (hr : s.heap as[i.toNat] = some r) :
    updateRequestsFrom (n + 1) i s =
      if r.completed then updateRequestsFrom n i { s with
        requests := (Lib.swapPop as i.toNat).map some
        heap := Function.update s.heap as[i.toNat] none
        destroyed := s.destroyed ++ [r] }
      else updateRequestsFrom n (i + 1) s := by
  have hlt : i < s.size := by
    rw [UInt64.lt_iff_toNat_lt, h.toNat_size]
    exact hi
  have hcompleted : (s.slot i).bind s.isCompleted = .ok r.completed := by
    rw [h.slot hi]
    simp [Except.bind, isCompleted, hr]
  rw [updateRequestsFrom, if_pos hlt, hcompleted]
  cases hc : r.completed with
  | false => simp
  | true =>
    rw [if_pos rfl, remove_spec h hi hr, UInt64.sub_add_cancel]

/-- The slots after one removal. -/
theorem Slots.remove {s : JellyWrite} {as : List Addr} (h : Slots s as) {i : Nat} (hi : i < as.length) (r : Request) :
    as[i] ∉ Lib.swapPop as i ∧ Slots { s with
      requests := (Lib.swapPop as i).map some
      heap := Function.update s.heap as[i] none
      destroyed := s.destroyed ++ [r] } (Lib.swapPop as i) := by
  have hperm := Lib.swapPop_perm hi
  obtain ⟨hnot, hnodup⟩ := List.nodup_cons.1 (hperm.nodup_iff.2 h.nodup)
  refine ⟨hnot, rfl, hnodup, ?_, ?_⟩
  · intro b hb
    have hne : b ≠ as[i] := fun heq => hnot (heq ▸ hb)
    obtain ⟨r', hr'⟩ := h.alive b (hperm.mem_iff.1 (List.mem_cons_of_mem _ hb))
    exact ⟨r', by rw [← hr']; exact Function.update_of_ne hne _ _⟩
  · have hlen := Lib.swapPop_length hi
    have hroom := h.room
    omega

/-- What a sweep does: the requests in `gone` are destroyed, those in `kept` stay. -/
structure Swept (s s' : JellyWrite) (as gone kept : List Addr) : Prop where
  after : s' = { s with
    requests := kept.map some
    heap := fun a => if a ∈ gone then none else s.heap a
    destroyed := s.destroyed ++ gone.filterMap s.heap }
  perm : as.Perm (gone ++ kept)
  gone : ∀ a ∈ gone, Completed s.heap a
  kept : ∀ a ∈ kept, ¬ Completed s.heap a

theorem Swept.nothing {s : JellyWrite} {as : List Addr} (h : Slots s as) (hnone : ∀ a ∈ as, ¬ Completed s.heap a) :
    Swept s s as [] as where
  after := by simp [← h.requests]
  perm := List.Perm.refl _
  gone := by simp
  kept := hnone

/-- A sweep that destroys one request and then those of another sweep. -/
theorem Swept.cons {s s' : JellyWrite} {as gone kept : List Addr} (h : Slots s as) {i : Nat} (hi : i < as.length)
    {r : Request} (hr : s.heap as[i] = some r) (hc : r.completed = true)
    (hs : Swept { s with
      requests := (Lib.swapPop as i).map some
      heap := Function.update s.heap as[i] none
      destroyed := s.destroyed ++ [r] } s' (Lib.swapPop as i) gone kept) : Swept s s' as (as[i] :: gone) kept := by
  obtain ⟨hnot, -⟩ := h.remove hi r
  obtain ⟨rfl, hperm, hgone, hkept⟩ := hs
  have hne : ∀ b ∈ gone ++ kept, b ≠ as[i] := by
    rintro b hb rfl
    exact hnot (hperm.mem_iff.2 hb)
  have hgone_ne : ∀ b ∈ gone, b ≠ as[i] := fun b hb => hne b (List.mem_append_left _ hb)
  refine ⟨?_, ?_, ?_, ?_⟩
  · have hheap : (fun b => if b ∈ gone then none else Function.update s.heap as[i] none b) =
        fun b => if b ∈ as[i] :: gone then none else s.heap b := by
      funext b
      by_cases hb : b = as[i]
      · simp [hb]
      · simp [hb]
    have hlog : gone.filterMap (Function.update s.heap as[i] none) = gone.filterMap s.heap :=
      List.filterMap_congr fun b hb => Function.update_of_ne (hgone_ne b hb) _ _
    simp only [hheap, hlog, List.filterMap_cons, hr, List.append_assoc, List.singleton_append]
  · exact (Lib.swapPop_perm hi).symm.trans (hperm.cons _)
  · intro b hb
    rcases List.mem_cons.1 hb with rfl | hb
    · exact ⟨r, hr, hc⟩
    · exact (completed_update (hgone_ne b hb)).1 (hgone b hb)
  · intro b hb hcomp
    exact hkept b hb ((completed_update (hne b (List.mem_append_right _ hb))).2 hcomp)

/-- Exactly the completed requests among the slots from `i` on are destroyed. -/
theorem sweep_spec (n : Nat) {i : UInt64} {s : JellyWrite} {as : List Addr} (h : Slots s as)
    (hn : as.length ≤ i.toNat + n) (hbefore : ∀ a ∈ as.take i.toNat, ¬ Completed s.heap a) :
    ∃ s' gone kept, updateRequestsFrom n i s = .ok s' ∧ Swept s s' as gone kept := by
  induction n generalizing i s as with
  | zero =>
    have hle : as.length ≤ i.toNat := hn
    rw [List.take_of_length_le hle] at hbefore
    exact ⟨s, [], as, sweep_end 0 h hle, .nothing h hbefore⟩
  | succ n ih =>
    by_cases hi : i.toNat < as.length
    · have hroom := h.room
      obtain ⟨r, hr⟩ := h.alive _ (List.getElem_mem hi)
      rw [sweep_succ n h hi hr]
      by_cases hc : r.completed = true
      · -- The request goes, and slot `i` is looked at again.
        rw [if_pos hc]
        obtain ⟨hnot, hslots⟩ := h.remove hi r
        have hlen := Lib.swapPop_length hi
        have hstill : ∀ b ∈ (Lib.swapPop as i.toNat).take i.toNat,
            ¬ Completed (Function.update s.heap as[i.toNat] none) b := by
          intro b hb
          have hne : b ≠ as[i.toNat] := by
            rintro rfl
            exact hnot (List.mem_of_mem_take hb)
          rw [completed_update hne]
          rw [Lib.swapPop_take hi] at hb
          exact hbefore b hb
        have hleft : (Lib.swapPop as i.toNat).length ≤ i.toNat + n := by omega
        obtain ⟨s', gone, kept, hs', hswept⟩ := ih hslots hleft hstill
        exact ⟨s', _, kept, hs', hswept.cons h hi hr hc⟩
      · -- The request stays, and so do the slots up to it.
        rw [if_neg hc]
        have hadd := toNat_succ (i := i) (by omega)
        apply ih h (by omega)
        rw [hadd, List.take_add_one, List.getElem?_eq_getElem hi]
        intro b hb
        rcases List.mem_append.1 hb with hb | hb
        · exact hbefore b hb
        · rw [Option.toList_some, List.mem_singleton] at hb
          subst hb
          rintro ⟨r', hr', hc'⟩
          rw [hr] at hr'
          cases hr'
          exact hc hc'
    · have hle : as.length ≤ i.toNat := by omega
      rw [List.take_of_length_le hle] at hbefore
      exact ⟨s, [], as, sweep_end (n + 1) h hle, .nothing h hbefore⟩

/-- The sweep as a whole: it ends, and no slot is read that is not there or empty. -/
theorem updateRequests_spec {s : JellyWrite} {as : List Addr} (h : Slots s as) :
    ∃ s' gone kept, s.updateRequests = .ok s' ∧ Swept s s' as gone kept := by
  apply sweep_spec _ h
  · rw [h.requests, List.length_map]
    omega
  · simp

/-! ## Ownership -/

/-- What the `Set` call that made a request asked for. -/
def entryOf (r : Request) : Entry := ⟨r.key, r.seq, r.blob⟩

/-- What the `Set` calls asked for whose requests are in the slots. -/
def contents (heap : Heap) (as : List Addr) : List Entry := as.filterMap fun a => (heap a).map entryOf

/-- The slots own what is alive, and the node holds what is not completed. -/
structure Owns (s : JellyWrite) (as : List Addr) : Prop extends Slots s as where
  owned : ∀ a r, s.heap a = some r → a ∈ as
  fresh : ∀ a ∈ as, a < s.next
  held : ∀ a, a ∈ s.held ↔ ∃ r, s.heap a = some r ∧ r.completed = false
  destroyed : ∀ r ∈ s.destroyed, r.completed = true

theorem owns_init : Owns init [] where
  requests := rfl
  nodup := List.nodup_nil
  alive := by simp
  room := by simp
  owned := by simp [init]
  fresh := by simp
  held := by simp [init]
  destroyed := by simp [init]

theorem contents_length {heap : Heap} {as : List Addr} (h : ∀ a ∈ as, ∃ r, heap a = some r) :
    (contents heap as).length = as.length := by
  induction as with
  | nil => rfl
  | cons a as ih =>
    obtain ⟨r, hr⟩ := h a (by simp)
    have hrest := ih fun b hb => h b (List.mem_cons_of_mem _ hb)
    unfold contents at hrest ⊢
    rw [List.filterMap_cons, hr, Option.map_some]
    simp only [List.length_cons, hrest]

/-! ### The node -/

/-- The heap when the node has completed the requests in `bs`. -/
def afterCompletion (heap : Heap) (bs : List Addr) : Heap := fun a =>
  if a ∈ bs then (heap a).map fun r => { r with completed := true } else heap a

theorem complete_all {heap : Heap} {bs : List Addr} (h : ∀ b ∈ bs, ∃ r, heap b = some r) :
    Lib.run complete heap bs = .ok (afterCompletion heap bs) := by
  induction bs generalizing heap with
  | nil =>
    rw [Lib.run_nil]
    congr 1
  | cons b bs ih =>
    obtain ⟨r, hr⟩ := h b (by simp)
    have hb : complete heap b = .ok (Function.update heap b (some { r with completed := true })) := by
      unfold complete
      rw [hr]
    have hlive : ∀ c ∈ bs, ∃ r', Function.update heap b (some { r with completed := true }) c = some r' := by
      intro c hc
      by_cases hcb : c = b
      · exact ⟨{ r with completed := true }, by rw [hcb, Function.update_self]⟩
      · rw [Function.update_of_ne hcb]
        exact h c (List.mem_cons_of_mem _ hc)
    rw [Lib.run_cons_ok hb, ih hlive]
    congr 1
    funext a
    by_cases hab : a = b
    · subst hab
      simp [afterCompletion, hr]
    · simp [afterCompletion, hab]

theorem completes_spec {s : JellyWrite} {as : List Addr} (h : Owns s as) (choose : Addr → Bool) :
    s.completes choose = .ok { s with
      heap := afterCompletion s.heap (s.held.filter choose)
      held := s.held.filter fun a => !choose a } := by
  have hlive : ∀ b ∈ s.held.filter choose, ∃ r, s.heap b = some r := by
    intro b hb
    obtain ⟨r, hr, -⟩ := (h.held b).1 (List.mem_of_mem_filter hb)
    exact ⟨r, hr⟩
  unfold completes
  rw [complete_all hlive]

theorem afterCompletion_some {heap : Heap} {bs : List Addr} {a : Addr} {r : Request} :
    afterCompletion heap bs a = some r ↔
      ∃ r₀, heap a = some r₀ ∧ r = if a ∈ bs then { r₀ with completed := true } else r₀ := by
  unfold afterCompletion
  by_cases ha : a ∈ bs
  · rw [if_pos ha, Option.map_eq_some_iff]
    simp [ha, eq_comm]
  · simp [ha]

theorem contents_afterCompletion (heap : Heap) (bs as : List Addr) :
    contents (afterCompletion heap bs) as = contents heap as := by
  unfold contents
  congr 1
  funext a
  unfold afterCompletion
  split
  · cases heap a <;> rfl
  · rfl

theorem Owns.completed {s : JellyWrite} {as : List Addr} (h : Owns s as) (choose : Addr → Bool) :
    Owns { s with
      heap := afterCompletion s.heap (s.held.filter choose)
      held := s.held.filter fun a => !choose a } as where
  requests := h.requests
  nodup := h.nodup
  alive a ha := by
    obtain ⟨r, hr⟩ := h.alive a ha
    exact ⟨_, afterCompletion_some.2 ⟨r, hr, rfl⟩⟩
  room := h.room
  owned a r hr := by
    obtain ⟨r₀, hr₀, -⟩ := afterCompletion_some.1 hr
    exact h.owned a r₀ hr₀
  fresh := h.fresh
  held a := by
    simp only [List.mem_filter, afterCompletion_some, h.held a]
    constructor
    · rintro ⟨⟨r, hr, hc⟩, hch⟩
      refine ⟨r, ⟨r, hr, ?_⟩, hc⟩
      rw [if_neg]
      rintro ⟨-, hch'⟩
      simp [hch'] at hch
    · rintro ⟨_, ⟨r, hr, rfl⟩, hc⟩
      split_ifs at hc with hmem
      · refine ⟨⟨r, hr, hc⟩, ?_⟩
        cases hch : choose a with
        | false => rfl
        | true => exact absurd ⟨⟨r, hr, hc⟩, hch⟩ hmem
  destroyed := h.destroyed

/-! ### The sweep -/

theorem Swept.ne_gone {s s' : JellyWrite} {as gone kept : List Addr} (h : Swept s s' as gone kept) (hs : Slots s as)
    {a : Addr} (ha : a ∈ kept) : a ∉ gone := by
  intro hg
  exact List.disjoint_of_nodup_append (h.perm.nodup_iff.1 hs.nodup) hg ha

theorem Owns.swept {s s' : JellyWrite} {as gone kept : List Addr} (h : Owns s as) (hs : Swept s s' as gone kept) :
    Owns s' kept := by
  have hne := fun {a} (ha : a ∈ kept) => hs.ne_gone h.toSlots ha
  obtain ⟨rfl, hperm, hgone, hkept⟩ := hs
  have hmem : ∀ a ∈ kept, a ∈ as := fun a ha => hperm.mem_iff.2 (List.mem_append_right _ ha)
  have hsome : ∀ {a r}, (if a ∈ gone then none else s.heap a) = some r ↔ a ∉ gone ∧ s.heap a = some r := by
    intro a r
    split_ifs with ha <;> simp [ha]
  refine ⟨⟨rfl, ?_, ?_, ?_⟩, ?_, ?_, ?_, ?_⟩
  · exact (List.nodup_append.1 (hperm.nodup_iff.1 h.nodup)).2.1
  · intro a ha
    obtain ⟨r, hr⟩ := h.alive a (hmem a ha)
    exact ⟨r, hsome.2 ⟨hne ha, hr⟩⟩
  · have hlen := hperm.length_eq
    have hroom := h.room
    rw [List.length_append] at hlen
    omega
  · intro a r hr
    obtain ⟨hnot, hr⟩ := hsome.1 hr
    rcases List.mem_append.1 (hperm.mem_iff.1 (h.owned a r hr)) with ha | ha
    · exact absurd ha hnot
    · exact ha
  · exact fun a ha => h.fresh a (hmem a ha)
  · intro a
    rw [h.held a]
    constructor
    · rintro ⟨r, hr, hc⟩
      refine ⟨r, hsome.2 ⟨fun ha => ?_, hr⟩, hc⟩
      obtain ⟨r', hr', hc'⟩ := hgone a ha
      rw [hr] at hr'
      cases hr'
      rw [hc] at hc'
      cases hc'
    · rintro ⟨r, hr, hc⟩
      exact ⟨r, (hsome.1 hr).2, hc⟩
  · intro r hr
    rcases List.mem_append.1 hr with hr | hr
    · exact h.destroyed r hr
    · obtain ⟨a, ha, hra⟩ := List.mem_filterMap.1 hr
      obtain ⟨r', hr', hc⟩ := hgone a ha
      rw [hra] at hr'
      cases hr'
      exact hc

/-- No call is lost in a sweep, and none is there twice after it. -/
theorem contents_swept {s s' : JellyWrite} {as gone kept : List Addr} (h : Owns s as) (hs : Swept s s' as gone kept) :
    (contents s'.heap kept ++ s'.destroyed.map entryOf).Perm (contents s.heap as ++ s.destroyed.map entryOf) := by
  have hkept : contents s'.heap kept = contents s.heap kept := by
    unfold contents
    apply List.filterMap_congr
    intro a ha
    rw [hs.after]
    simp only [if_neg (hs.ne_gone h.toSlots ha)]
  have hgone : s'.destroyed.map entryOf = s.destroyed.map entryOf ++ contents s.heap gone := by
    rw [hs.after]
    simp only [List.map_append, List.map_filterMap, contents]
  have has : (contents s.heap as).Perm (contents s.heap gone ++ contents s.heap kept) := by
    unfold contents
    rw [← List.filterMap_append]
    exact hs.perm.filterMap _
  rw [hkept, hgone]
  calc (contents s.heap kept ++ (s.destroyed.map entryOf ++ contents s.heap gone)).Perm
        (contents s.heap kept ++ (contents s.heap gone ++ s.destroyed.map entryOf)) :=
          List.perm_append_comm.append_left _
    List.Perm _ (contents s.heap gone ++ contents s.heap kept ++ s.destroyed.map entryOf) := by
          rw [← List.append_assoc]
          exact List.perm_append_comm.append_right _
    List.Perm _ _ := (has.append_right _).symm

/-! ### Calls -/

/-- The `Set` calls among the calls of the backend. -/
def setsOf (calls : List Call) : List SetCall :=
  calls.filterMap fun
    | .set c => some c
    | .update _ _ => none

/-- Each `Set` call is either still in its slot or was destroyed. -/
def Conserved (cs : List SetCall) (s : JellyWrite) (as : List Addr) : Prop :=
  (cs.map SetCall.entry).Perm (contents s.heap as ++ s.destroyed.map entryOf)

theorem contents_push {heap : Heap} {as : List Addr} {a : Addr} (ha : a ∉ as) (r : Request) :
    contents (Function.update heap a (some r)) (as ++ [a]) = contents heap as ++ [entryOf r] := by
  have hold : contents (Function.update heap a (some r)) as = contents heap as := by
    unfold contents
    apply List.filterMap_congr
    intro b hb
    rw [Function.update_of_ne (ne_of_mem_of_not_mem hb ha)]
  rw [← hold]
  simp [contents]

/-- A slot for a new request. -/
theorem Slots.push {s s' : JellyWrite} {as : List Addr} (h : Slots s as) {a : Addr} (ha : a ∉ as) {r : Request}
    (hrequests : s'.requests = s.requests ++ [some a]) (hheap : s'.heap = Function.update s.heap a (some r))
    (hroom : as.length + 1 < 2 ^ 64) : Slots s' (as ++ [a]) where
  requests := by rw [hrequests, h.requests, List.map_append, List.map_singleton]
  nodup := List.nodup_append.2 ⟨h.nodup, List.nodup_singleton a, fun b hb c hc => by
    rw [List.mem_singleton.1 hc]
    exact ne_of_mem_of_not_mem hb ha⟩
  alive := by
    intro b hb
    rw [hheap]
    rcases List.mem_append.1 hb with hb | hb
    · obtain ⟨r', hr'⟩ := h.alive b hb
      exact ⟨r', by rw [Function.update_of_ne (ne_of_mem_of_not_mem hb ha), hr']⟩
    · rw [List.mem_singleton.1 hb]
      exact ⟨r, Function.update_self _ _ _⟩
  room := by
    rw [List.length_append, List.length_singleton]
    exact hroom

theorem owns_set {s s' : JellyWrite} {as : List Addr} {c : SetCall} (h : Owns s as) (hset : s.set c = .ok s') :
    Owns s' (as ++ [s.next]) := by
  unfold JellyWrite.set at hset
  simp only at hset
  split_ifs at hset with hroom
  obtain rfl := Except.ok.inj hset
  have hnew : s.next ∉ as := fun ha => Nat.lt_irrefl _ (h.fresh _ ha)
  have hlen : s.requests.length = as.length := by rw [h.requests, List.length_map]
  refine ⟨h.toSlots.push hnew rfl rfl (by omega), ?_, ?_, ?_, h.destroyed⟩
  · intro a r hr
    by_cases ha : a = s.next
    · rw [ha]; simp
    · simp only [Function.update_of_ne ha] at hr
      exact List.mem_append_left _ (h.owned a r hr)
  · intro a ha
    rcases List.mem_append.1 ha with ha | ha
    · exact Nat.lt_succ_of_lt (h.fresh a ha)
    · rw [List.mem_singleton.1 ha]
      exact Nat.lt_succ_self _
  · intro a
    simp only [List.mem_append, List.mem_singleton]
    by_cases ha : a = s.next
    · subst ha
      simp
    · simp [ha, h.held a]

theorem conserved_set {s s' : JellyWrite} {as : List Addr} {cs : List SetCall} {c : SetCall} (h : Owns s as)
    (hcs : Conserved cs s as) (hset : s.set c = .ok s') : Conserved (cs ++ [c]) s' (as ++ [s.next]) := by
  unfold JellyWrite.set at hset
  simp only at hset
  split_ifs at hset
  obtain rfl := Except.ok.inj hset
  have hnew : s.next ∉ as := fun ha => Nat.lt_irrefl _ (h.fresh _ ha)
  unfold Conserved at hcs ⊢
  rw [contents_push hnew, List.append_assoc, List.map_append]
  calc (cs.map SetCall.entry ++ [c.entry]).Perm (contents s.heap as ++ s.destroyed.map entryOf ++ [c.entry]) :=
        hcs.append_right _
    List.Perm _ _ := by
      rw [List.append_assoc]
      exact List.perm_append_comm.append_left _

/-- A `Set` that does not get through finds the vector full. -/
theorem set_error {s : JellyWrite} {c : SetCall} {stop : Stop} (h : s.set c = .error stop) :
    stop = .exception "std::length_error" ∧ 2 ^ 60 ≤ s.requests.length + 1 := by
  unfold JellyWrite.set at h
  simp only at h
  split_ifs at h with hroom
  exact ⟨(Except.error.inj h).symm, Nat.le_of_not_lt hroom⟩

/-- The housekeeping events change no slot. -/
theorem owns_events {s : JellyWrite} {as : List Addr} {cs : List SetCall} (h : Owns s as) (hcs : Conserved cs s as)
    (events : List Event) : ∃ s', Lib.run event s events = .ok s' ∧ Owns s' as ∧ Conserved cs s' as := by
  induction events generalizing s with
  | nil => exact ⟨s, rfl, h, hcs⟩
  | cons e events ih =>
    have hsame : event s e = .ok s → ∃ s', Lib.run event s (e :: events) = .ok s' ∧ Owns s' as ∧ Conserved cs s' as := by
      intro he
      rw [Lib.run_cons_ok he]
      exact ih h hcs
    cases e with
    | flushPendingWAL choose =>
      -- The one event that completes requests.
      have he : event s (.flushPendingWAL choose) = _ := completes_spec h choose
      rw [Lib.run_cons_ok he]
      apply ih (h.completed choose)
      unfold Conserved
      rw [contents_afterCompletion]
      exact hcs
    | flushPendingStore => exact hsame rfl
    | cleanupWALs => exact hsame rfl
    | performCompaction => exact hsame rfl

/-- When the timer has expired, what is completed by the end of `ProcessRequests`
is gone after the sweep. -/
theorem owns_processRequests {s : JellyWrite} {as : List Addr} {cs : List SetCall} (h : Owns s as)
    (hcs : Conserved cs s as) (choose : Addr → Bool) :
    ∃ s' kept, s.processRequests choose = .ok s' ∧ Owns s' kept ∧ Conserved cs s' kept ∧
      ∀ a ∈ kept, ¬ Completed (afterCompletion s.heap (s.held.filter choose)) a := by
  obtain ⟨s', gone, kept, hs', hswept⟩ := updateRequests_spec (h.completed choose).toSlots
  refine ⟨s', kept, ?_, (h.completed choose).swept hswept, ?_, hswept.kept⟩
  · unfold processRequests
    rw [completes_spec h choose]
    exact hs'
  · refine List.Perm.trans ?_ (contents_swept (h.completed choose) hswept).symm
    rw [contents_afterCompletion]
    exact hcs

theorem owns_update {s : JellyWrite} {as : List Addr} {cs : List SetCall} (h : Owns s as) (hcs : Conserved cs s as)
    (expired : Option (Addr → Bool)) (events : List Event) :
    ∃ s' kept, s.update expired events = .ok s' ∧ Owns s' kept ∧ Conserved cs s' kept ∧
      ∀ choose, expired = some choose → ∀ a ∈ kept, ¬ Completed (afterCompletion s.heap (s.held.filter choose)) a := by
  cases expired with
  | none =>
    obtain ⟨s', hs', ho, hc⟩ := owns_events h hcs events
    exact ⟨s', as, hs', ho, hc, fun _ he => nomatch he⟩
  | some choose =>
    obtain ⟨s₁, kept, hs₁, ho₁, hc₁, hgone⟩ := owns_processRequests h hcs choose
    obtain ⟨s', hs', ho, hc⟩ := owns_events ho₁ hc₁ events
    refine ⟨s', kept, ?_, ho, hc, ?_⟩
    · unfold JellyWrite.update
      simp only [hs₁, hs']
    · rintro _ ⟨rfl⟩
      exact hgone

/-! ## Every run -/

structure Sound (calls : List Call) (s : JellyWrite) : Prop where
  nonnull : none ∉ s.requests
  distinct : s.requests.Nodup
  held : ∀ a, a ∈ s.held ↔ ∃ r, s.heap a = some r ∧ r.completed = false
  owned : ∀ a ∈ s.held, s.requests.count (some a) = 1
  destroyed : ∀ r ∈ s.destroyed, r.completed = true
  counted : (setsOf calls).length = s.requests.length + s.destroyed.length
  conserved : ((setsOf calls).map SetCall.entry).Perm
    (s.requests.filterMap (fun p => (p.bind s.heap).map entryOf) ++ s.destroyed.map entryOf)
  swept : ∀ choose events s₁ s', s.completes choose = .ok s₁ → s.update (some choose) events = .ok s' →
    ∀ a, some a ∈ s.requests → Completed s₁.heap a → some a ∉ s'.requests
  nodeFirst : ∀ pre a post, s.destroy = pre ++ .request a :: post → .blobNode ∈ pre

theorem nodeFirst_destroy (s : JellyWrite) {pre post : List Destroyed} {a : Addr}
    (h : s.destroy = pre ++ .request a :: post) : .blobNode ∈ pre := by
  cases pre with
  | nil => cases h
  | cons d pre =>
    have hd : Destroyed.blobNode = d := (List.cons.inj h).1
    rw [← hd]
    exact List.mem_cons_self

theorem sound {calls : List Call} {s : JellyWrite} {as : List Addr} (h : Owns s as)
    (hcs : Conserved (setsOf calls) s as) : Sound calls s where
  nonnull := by rw [h.requests]; simp
  distinct := by
    rw [h.requests]
    exact h.nodup.map (Option.some_injective _)
  held := h.held
  owned a ha := by
    obtain ⟨r, hr, -⟩ := (h.held a).1 ha
    rw [h.requests]
    apply List.count_eq_one_of_mem (h.nodup.map (Option.some_injective _))
    exact List.mem_map_of_mem (h.owned a r hr)
  destroyed := h.destroyed
  counted := by
    rw [← List.length_map SetCall.entry, hcs.length_eq, List.length_append, List.length_map, contents_length h.alive,
      h.requests, List.length_map]
  conserved := by
    rw [h.requests, List.filterMap_map]
    exact hcs
  swept := by
    intro choose events s₁ s' h₁ h' a _ hc
    obtain ⟨t, kept, ht, ho, -, hgone⟩ := owns_update h hcs (some choose) events
    rw [completes_spec h choose] at h₁
    obtain rfl := Except.ok.inj h₁
    obtain rfl : t = s' := Except.ok.inj (ht.symm.trans h')
    rw [ho.requests]
    simp only [List.mem_map, Option.some.injEq, exists_eq_right]
    exact fun ha => hgone choose rfl a ha hc
  nodeFirst _ _ _ := nodeFirst_destroy s

/-- A run that gets through leaves its `Set` calls in the slots or destroyed. -/
theorem run_owns {calls : List Call} {s : JellyWrite} (h : run calls = .ok s) :
    ∃ as, Owns s as ∧ Conserved (setsOf calls) s as := by
  refine Lib.run_history (fun calls s => ∃ as, Owns s as ∧ Conserved (setsOf calls) s as)
    ⟨[], owns_init, List.Perm.refl _⟩ ?_ h
  rintro calls s (c | ⟨expired, events⟩) s' ⟨as, ho, hcs⟩ hs
  · refine ⟨_, owns_set ho hs, ?_⟩
    unfold setsOf
    rw [List.filterMap_append]
    exact conserved_set ho hcs hs
  · obtain ⟨t, kept, ht, ho', hcs', -⟩ := owns_update ho hcs expired events
    obtain rfl : t = s' := Except.ok.inj (ht.symm.trans hs)
    refine ⟨kept, ho', ?_⟩
    unfold setsOf
    rw [List.filterMap_append]
    simpa [setsOf] using hcs'

/-- A run of `Set` and `Update` calls is sound in every state it gets to, and ends
early only in a `Set` that finds the vector of requests full. -/
theorem requests_are_owned (calls : List Call) :
    match run calls with
    | .ok s => Sound calls s
    | .error stop => stop = .exception "std::length_error" ∧ ∃ pre c post s, calls = pre ++ .set c :: post ∧
        run pre = .ok s ∧ 2 ^ 60 ≤ s.requests.length + 1 := by
  cases h : run calls with
  | ok s =>
    obtain ⟨as, ho, hcs⟩ := run_owns h
    exact sound ho hcs
  | error stop =>
    obtain ⟨pre, c, post, s, hcalls, hpre, hstep⟩ := Lib.run_error h
    obtain ⟨as, ho, hcs⟩ := run_owns hpre
    cases c with
    | set c =>
      obtain ⟨hstop, hfull⟩ := set_error hstep
      exact ⟨hstop, pre, c, post, s, hcalls, hpre, hfull⟩
    | update expired events =>
      -- An `Update` always gets through.
      obtain ⟨s', kept, hs', -⟩ := owns_update ho hcs expired events
      have hcontra := hs'.symm.trans hstep
      cases hcontra

end JellyBench.Requests
