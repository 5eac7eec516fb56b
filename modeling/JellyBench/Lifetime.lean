import JellyBench.Main
import JellyBench.Requests
import JellyBench.Stores
/-!
# The program on Jelly, until it exits

`main` runs the benchmark on Jelly, whatever it is asked for. `run_jelly` reads
the calls of the benchmark as calls of `JellyWrite`; `exit` is the end of the
program, when the destructor takes what is left in the slots.
-/
open JellyBench.WriteBenchmark JellyBench.Benchmark JellyBench.JellyWrite JellyBench.Requests

namespace JellyBench.Lifetime

/-! ## Calls -/

/-- What comes from outside in the `Update`s to come. -/
abbrev Updates := Nat → Option (Addr → Bool) × List Event

def Updates.next (updates : Updates) : Updates := fun n => updates (n + 1)

def jellyCalls : Updates → List BackendCall → List Call
  | _, [] => []
  | updates, .set c :: calls => .set c :: jellyCalls updates calls
  | updates, .update :: calls => .update (updates 0).1 (updates 0).2 :: jellyCalls updates.next calls

theorem setsOf_cons_set (c : SetCall) (calls : List Call) : setsOf (.set c :: calls) = c :: setsOf calls := rfl

theorem setsOf_cons_update (expired : Option (Addr → Bool)) (events : List Event) (calls : List Call) :
    setsOf (.update expired events :: calls) = setsOf calls := rfl

@[simp] theorem setsOf_snoc_set (calls : List Call) (c : SetCall) : setsOf (calls ++ [.set c]) = setsOf calls ++ [c] := by
  simp [setsOf]

@[simp] theorem setsOf_snoc_update (calls : List Call) (expired : Option (Addr → Bool)) (events : List Event) :
    setsOf (calls ++ [.update expired events]) = setsOf calls := by
  simp [setsOf]

@[simp] theorem setsOf_jellyCalls (updates : Updates) (calls : List BackendCall) :
    setsOf (jellyCalls updates calls) = issued calls := by
  induction calls generalizing updates with
  | nil => rfl
  | cons call calls ih =>
    cases call with
    | set c => rw [jellyCalls, setsOf_cons_set, ih, issued_cons_set]
    | update => rw [jellyCalls, setsOf_cons_update, ih, issued_cons_update]

theorem hosted_set (b : HostedJelly) (c : SetCall) :
    HostedJelly.backend.call b (.set c) = (b.jelly.set c).map fun jelly => { b with jelly } := by
  change b.set c = _
  unfold HostedJelly.set
  cases b.jelly.set c <;> rfl

theorem hosted_update (b : HostedJelly) :
    HostedJelly.backend.call b .update =
      (b.jelly.update (b.updates 0).1 (b.updates 0).2).map fun jelly => ⟨jelly, Updates.next b.updates⟩ := by
  change b.update = _
  unfold HostedJelly.update
  cases b.jelly.update (b.updates 0).1 (b.updates 0).2 <;> rfl

/-- The backend is `JellyWrite` with the calls that come from outside. -/
theorem run_jelly (b : HostedJelly) (calls : List BackendCall) :
    (Lib.run HostedJelly.backend.call b calls).map HostedJelly.jelly =
      Lib.run JellyWrite.call b.jelly (jellyCalls b.updates calls) := by
  induction calls generalizing b with
  | nil => rfl
  | cons call calls ih =>
    cases call with
    | set c => exact Lib.run_cons_map (hosted_set b c) fun _ => ih _
    | update => exact Lib.run_cons_map (hosted_update b) fun _ => ih _

theorem run_of_jelly {updates : Updates} {calls : List BackendCall} {jelly : JellyWrite}
    (h : JellyWrite.run (jellyCalls updates calls) = .ok jelly) :
    ∃ b, Lib.run HostedJelly.backend.call (HostedJelly.init updates) calls = .ok b ∧ b.jelly = jelly := by
  have hrun := (run_jelly (HostedJelly.init updates) calls).trans h
  cases hb : Lib.run HostedJelly.backend.call (HostedJelly.init updates) calls with
  | error stop => rw [hb] at hrun; cases hrun
  | ok b =>
    rw [hb] at hrun
    exact ⟨b, rfl, Except.ok.inj hrun⟩

/-! ## Getting through -/

/-- The vector of requests has room for those of a run. -/
theorem run_room {calls : List Call} (h : (setsOf calls).length < 2 ^ 60) : ∃ s, JellyWrite.run calls = .ok s := by
  induction calls using List.reverseRecOn with
  | nil => exact ⟨_, rfl⟩
  | append_singleton calls call ih =>
    cases call with
    | set c =>
      rw [setsOf_snoc_set, List.length_append, List.length_singleton] at h
      obtain ⟨s, hs⟩ := ih (by omega)
      obtain ⟨as, ho, hcs⟩ := run_owns hs
      have hcounted := (sound ho hcs).counted
      have hset : ∃ s', s.set c = .ok s' := by
        unfold JellyWrite.set
        simp only
        rw [if_pos (by omega)]
        exact ⟨_, rfl⟩
      obtain ⟨s', hset⟩ := hset
      exact ⟨s', Lib.run_snoc_ok.2 ⟨s, hs, hset⟩⟩
    | update expired events =>
      rw [setsOf_snoc_update] at h
      obtain ⟨s, hs⟩ := ih h
      obtain ⟨as, ho, hcs⟩ := run_owns hs
      obtain ⟨s', -, hs', -⟩ := owns_update ho hcs expired events
      exact ⟨s', Lib.run_snoc_ok.2 ⟨s, hs, hs'⟩⟩

/-! ## What is in the slots -/

/-- `Owns`, where the node holds no request twice. -/
structure OwnsOnce (s : JellyWrite) (as : List Addr) : Prop extends Owns s as where
  once : s.held.Nodup

theorem OwnsOnce.set {s s' : JellyWrite} {as : List Addr} {c : SetCall} (h : OwnsOnce s as) (hs : s.set c = .ok s') :
    OwnsOnce s' (as ++ [s.next]) := by
  refine ⟨owns_set h.toOwns hs, ?_⟩
  have hnew : s.next ∉ s.held := by
    intro hheld
    obtain ⟨r, hr, -⟩ := (h.held s.next).1 hheld
    exact Nat.lt_irrefl _ (h.fresh _ (h.owned _ r hr))
  unfold JellyWrite.set at hs
  simp only at hs
  split_ifs at hs
  obtain rfl := Except.ok.inj hs
  exact List.nodup_append.2 ⟨h.once, List.nodup_singleton _, fun a ha b hb heq => by
    rw [heq, List.mem_singleton.1 hb] at ha
    exact hnew ha⟩

theorem OwnsOnce.completed {s : JellyWrite} {as : List Addr} (h : OwnsOnce s as) (choose : Addr → Bool) :
    OwnsOnce { s with
      heap := afterCompletion s.heap (s.held.filter choose)
      held := s.held.filter fun a => !choose a } as :=
  ⟨h.toOwns.completed choose, h.once.filter _⟩

theorem OwnsOnce.events {s : JellyWrite} {as : List Addr} (h : OwnsOnce s as) (events : List Event) :
    ∃ s', Lib.run event s events = .ok s' ∧ OwnsOnce s' as := by
  induction events generalizing s with
  | nil => exact ⟨s, rfl, h⟩
  | cons e events ih =>
    cases e with
    | flushPendingWAL choose =>
      have he : event s (.flushPendingWAL choose) = _ := completes_spec h.toOwns choose
      rw [Lib.run_cons_ok he]
      exact ih (h.completed choose)
    | flushPendingStore => exact ih h
    | cleanupWALs => exact ih h
    | performCompaction => exact ih h

/-- After a sweep the slots are those of the requests the node holds. -/
theorem OwnsOnce.swept {s : JellyWrite} {as : List Addr} (h : OwnsOnce s as) (choose : Addr → Bool) :
    ∃ s' kept, s.processRequests choose = .ok s' ∧ OwnsOnce s' kept ∧
      kept.Perm (s.held.filter fun a => !choose a) := by
  obtain ⟨s', gone, kept, hs', hswept⟩ := updateRequests_spec (h.completed choose).toSlots
  have ho := (h.completed choose).toOwns.swept hswept
  have hheld : s'.held = s.held.filter fun a => !choose a := by rw [hswept.after]
  have honce : s'.held.Nodup := by
    rw [hheld]
    exact h.once.filter _
  refine ⟨s', kept, ?_, ⟨ho, honce⟩, ?_⟩
  · unfold processRequests
    rw [completes_spec h.toOwns choose]
    exact hs'
  · rw [← hheld]
    apply (List.perm_ext_iff_of_nodup ho.nodup honce).2
    intro a
    rw [ho.held a]
    constructor
    · intro ha
      obtain ⟨r, hr⟩ := ho.alive a ha
      refine ⟨r, hr, Bool.eq_false_iff.2 fun hc => hswept.kept a ha ⟨r, ?_, hc⟩⟩
      rw [hswept.after] at hr
      simp only [if_neg (hswept.ne_gone (h.completed choose).toSlots ha)] at hr
      exact hr
    · rintro ⟨r, hr, -⟩
      exact ho.owned a r hr

theorem OwnsOnce.update_kept {s s' : JellyWrite} {as : List Addr} {events : List Event} (h : OwnsOnce s as)
    (hs : s.update none events = .ok s') : OwnsOnce s' as := by
  obtain ⟨t, ht, ho⟩ := h.events events
  obtain rfl : t = s' := Except.ok.inj (ht.symm.trans hs)
  exact ho

theorem OwnsOnce.update_swept {s s' : JellyWrite} {as : List Addr} {choose : Addr → Bool} {events : List Event}
    (h : OwnsOnce s as) (hs : s.update (some choose) events = .ok s') :
    ∃ kept, OwnsOnce s' kept ∧ kept.Perm (s.held.filter fun a => !choose a) := by
  obtain ⟨s₁, kept, hs₁, ho₁, hperm⟩ := h.swept choose
  obtain ⟨t, ht, ho⟩ := ho₁.events events
  unfold JellyWrite.update at hs
  simp only [hs₁] at hs
  obtain rfl : t = s' := Except.ok.inj (ht.symm.trans hs)
  exact ⟨kept, ho, hperm⟩

theorem run_once {calls : List Call} {s : JellyWrite} (h : JellyWrite.run calls = .ok s) : ∃ as, OwnsOnce s as := by
  refine Lib.run_history (fun _ s => ∃ as, OwnsOnce s as) ⟨[], owns_init, List.nodup_nil⟩ ?_ h
  rintro _ s (c | ⟨_ | choose, events⟩) s' ⟨as, ho⟩ hs
  · exact ⟨_, ho.set hs⟩
  · exact ⟨as, ho.update_kept hs⟩
  · obtain ⟨kept, ho', -⟩ := ho.update_swept hs
    exact ⟨kept, ho'⟩

/-- No `Update` in which the timer has expired. -/
def Unswept (calls : List Call) : Prop := ∀ choose events, .update (some choose) events ∉ calls

/-- Between two sweeps every `Set` adds a slot. -/
theorem OwnsOnce.grows {s s' : JellyWrite} {as : List Addr} {calls : List Call} (h : OwnsOnce s as) (hno : Unswept calls)
    (hr : Lib.run call s calls = .ok s') : ∃ as', OwnsOnce s' as' ∧ as'.length = as.length + (setsOf calls).length := by
  induction calls using List.reverseRecOn generalizing s' with
  | nil =>
    cases hr
    exact ⟨as, h, rfl⟩
  | append_singleton calls c ih =>
    obtain ⟨t, ht, hs⟩ := Lib.run_snoc_ok.1 hr
    obtain ⟨as', ho, hlen⟩ := ih (fun choose events hc => hno choose events (List.mem_append_left _ hc)) ht
    cases c with
    | set c =>
      refine ⟨_, ho.set hs, ?_⟩
      simp [hlen, Nat.add_assoc]
    | update expired events =>
      cases expired with
      | none => exact ⟨as', ho.update_kept hs, by simp [hlen]⟩
      | some choose => exact absurd (List.mem_append_right _ (List.mem_singleton_self _)) (hno choose events)

/-- From an `Update` with an expired timer until the next one, whatever is completed
meanwhile, the slots are as many as the requests the node had not completed by the
end of `ProcessRequests`, and the writes since. -/
theorem slots_since (pre post : List Call) (choose : Addr → Bool) (events : List Event) (hno : Unswept post)
    (s₀ s₁ s : JellyWrite) (h₀ : JellyWrite.run pre = .ok s₀) (h₁ : s₀.completes choose = .ok s₁)
    (h : JellyWrite.run (pre ++ .update (some choose) events :: post) = .ok s) :
    s.requests.length = s₁.held.length + (setsOf post).length := by
  obtain ⟨as₀, ho₀⟩ := run_once h₀
  rw [completes_spec ho₀.toOwns choose] at h₁
  obtain rfl := Except.ok.inj h₁
  rw [← List.singleton_append, ← List.append_assoc] at h
  obtain ⟨t, ht, hpost⟩ := Lib.run_append_ok.1 h
  obtain ⟨t₀, ht₀, hu⟩ := Lib.run_snoc_ok.1 ht
  obtain rfl : t₀ = s₀ := Except.ok.inj (ht₀.symm.trans h₀)
  obtain ⟨kept, ho, hperm⟩ := ho₀.update_swept hu
  obtain ⟨as, ho', hlen⟩ := ho.grows hno hpost
  rw [ho'.requests, List.length_map, hlen, hperm.length_eq]

/-- Two writes, of which the first is completed, and then a third. Nothing has been
swept since, though the node has completed everything. -/
theorem slots_since_third_write :
    let pre : List Call := [.set ⟨1, 0, [7], true⟩, .set ⟨2, 1, [8], true⟩]
    let post : List Call := [.set ⟨1, 2, [9], true⟩, .update none [.flushPendingWAL fun _ => true]]
    ∃ s₀ s₁ s, JellyWrite.run pre = .ok s₀ ∧ s₀.completes (fun a => a = 0) = .ok s₁ ∧
      JellyWrite.run (pre ++ .update (some fun a => a = 0) [] :: post) = .ok s ∧
      s.requests.length = s₁.held.length + (setsOf post).length := by
  intro pre post
  have h₀ : ∃ s₀, JellyWrite.run pre = .ok s₀ := run_room (by decide)
  have h : ∃ s, JellyWrite.run (pre ++ .update (some fun a => a = 0) [] :: post) = .ok s := run_room (by decide)
  obtain ⟨s₀, h₀⟩ := h₀
  obtain ⟨s, h⟩ := h
  obtain ⟨as, ho⟩ := run_once h₀
  have h₁ := completes_spec ho.toOwns fun a => a = 0
  exact ⟨s₀, _, s, h₀, h₁, h, slots_since pre post _ [] (by simp [Unswept, post]) s₀ _ s h₀ h₁ h⟩

/-! ## Exit -/

/-- `~JellyWrite`: the node lets go of its requests, and the vector destroys its
elements. -/
def exit (s : JellyWrite) : Except Stop JellyWrite := Lib.run delete { s with held := [], requests := [] } s.requests

theorem delete_all {s : JellyWrite} {as : List Addr} (hnodup : as.Nodup) (halive : ∀ a ∈ as, ∃ r, s.heap a = some r) :
    Lib.run delete s (as.map some) = .ok { s with
      heap := fun a => if a ∈ as then none else s.heap a
      destroyed := s.destroyed ++ as.filterMap s.heap } := by
  induction as generalizing s with
  | nil => simp
  | cons a as ih =>
    obtain ⟨hnot, hnodup⟩ := List.nodup_cons.1 hnodup
    obtain ⟨⟨r, hr⟩, halive⟩ := List.forall_mem_cons.1 halive
    have hd : s.delete (some a) = .ok { s with
        heap := Function.update s.heap a none
        destroyed := s.destroyed ++ [r] } := by
      simp [delete, hr]
    have hother : ∀ b ∈ as, Function.update s.heap a none b = s.heap b := fun b hb =>
      Function.update_of_ne (ne_of_mem_of_not_mem hb hnot) _ _
    rw [List.map_cons, Lib.run_cons_ok hd, ih hnodup fun b hb => by simpa [hother b hb] using halive b hb]
    have hheap : (fun b => if b ∈ as then none else Function.update s.heap a none b) =
        fun b => if b ∈ a :: as then none else s.heap b := by
      funext b
      by_cases hb : b = a <;> simp [hb]
    have hlog : as.filterMap (Function.update s.heap a none) = as.filterMap s.heap := List.filterMap_congr hother
    simp only [hheap, hlog, List.filterMap_cons, hr, List.append_assoc, List.singleton_append]

/-- Nothing the slots own is left, and nothing else was alive. -/
theorem exit_spec {s : JellyWrite} {as : List Addr} (h : Owns s as) :
    exit s = .ok { s with
      heap := fun _ => none
      held := []
      requests := []
      destroyed := s.destroyed ++ as.filterMap s.heap } := by
  unfold exit
  rw [h.requests, delete_all h.nodup (s := { s with held := [], requests := [] }) h.alive]
  have hheap : (fun a => if a ∈ as then none else s.heap a) = fun _ => none := by
    funext a
    cases ha : s.heap a with
    | none => simp
    | some r => simp [h.owned a r ha]
  simp only [hheap]

/-- What the end of the program leaves of a run: each request was destroyed, once.
Those destroyed before the end were completed. The others were in the slots, and of
them exactly those at the addresses the node held were not. -/
structure Ended (cs : List SetCall) (s t : JellyWrite) : Prop where
  destroyed : (cs.map SetCall.entry).Perm (t.destroyed.map entryOf)
  swept : ∀ r ∈ s.destroyed, r.completed = true
  slots : ∃ as : List Addr, s.requests = as.map some ∧ as.Nodup ∧ s.held.Nodup ∧ (∀ a ∈ s.held, a ∈ as) ∧
    t.destroyed = s.destroyed ++ as.filterMap s.heap ∧
    ∀ a ∈ as, ∃ r, s.heap a = some r ∧ (r.completed = false ↔ a ∈ s.held)
  nothing : t.heap = (fun _ => none) ∧ t.held = [] ∧ t.requests = []

/-- Of the requests in the slots those not completed are the ones the node holds. -/
theorem OwnsOnce.slots_held {s : JellyWrite} {as : List Addr} (h : OwnsOnce s as) :
    (∀ a ∈ s.held, a ∈ as) ∧ ∀ a ∈ as, ∃ r, s.heap a = some r ∧ (r.completed = false ↔ a ∈ s.held) := by
  constructor
  · intro a ha
    obtain ⟨r, hr, -⟩ := (h.held a).1 ha
    exact h.owned a r hr
  · intro a ha
    obtain ⟨r, hr⟩ := h.alive a ha
    refine ⟨r, hr, ?_⟩
    rw [h.held a, hr]
    simp

theorem ended {calls : List Call} {s : JellyWrite} (h : JellyWrite.run calls = .ok s) :
    ∃ t, exit s = .ok t ∧ Ended (setsOf calls) s t := by
  obtain ⟨as, howns, hcs⟩ := run_owns h
  obtain ⟨_, honce⟩ := run_once h
  have ho : OwnsOnce s as := ⟨howns, honce.once⟩
  obtain ⟨hheld, hslots⟩ := ho.slots_held
  refine ⟨_, exit_spec ho.toOwns, ?_, ho.destroyed, ⟨as, ho.requests, ho.nodup, ho.once, hheld, rfl, hslots⟩, rfl, rfl, rfl⟩
  have hcontents : (as.filterMap s.heap).map entryOf = contents s.heap as := List.map_filterMap
  rw [List.map_append, hcontents]
  exact hcs.trans List.perm_append_comm

/-! ## The program -/

/-- Whatever backend is asked for, the program runs on Jelly, and with options that
can be drawn from and a run of at most 429496 s it ends, however the node, the
generator, the clock and the timers behave. Then every request of the run has been
destroyed, once. -/
theorem jelly_program (atoi : String → Int32) (build : Main.Build) (args : List String) (config : Config)
    (writeBackend : WriteBackend) (hmain : Main.main atoi build args = .ok (config, writeBackend))
    (h : Stores.Runnable config) (hshort : config.writeRunSeconds.toNat ≤ 429496) (distribution : UniformInt)
    (updates : Updates) (startTime : Int) (random : Random) (ticks : List Tick) (hsteady : Steady startTime ticks) :
    ∃ s b t, writeBackend = .jelly config.jellyConfig ∧
      (∀ fuel ≥ 2 ^ 27, writeBenchmarkOn distribution config HostedJelly.backend fuel startTime random ticks
        (HostedJelly.init updates) = .ok (s, b)) ∧
      Stores.Written config s ∧ exit b.jelly = .ok t ∧ Ended s.sets b.jelly t := by
  obtain ⟨s, hs⟩ := h.ends distribution startTime random ticks
  have hwritten := h.written hshort hsteady (hs _ (le_refl _))
  have hsets : setsOf (jellyCalls updates s.calls) = s.sets := setsOf_jellyCalls updates s.calls
  have hroom : (setsOf (jellyCalls updates s.calls)).length < 2 ^ 60 := by
    have hlt := s.numWrites.toNat_lt
    rw [hsets, ← hwritten.counted]
    omega
  obtain ⟨jelly, hj⟩ := run_room hroom
  obtain ⟨t, ht, hended⟩ := ended hj
  rw [hsets] at hended
  obtain ⟨b, hb, rfl⟩ := run_of_jelly hj
  obtain ⟨asked, ha, rfl⟩ := Main.main_config hmain
  rw [Main.main_ok atoi build ha] at hmain
  cases hmain
  exact ⟨s, b, t, rfl, Stores.on_backend hs hb, hwritten, ht, hended⟩

/-- SQLite is asked for, and the node completes every other request each time. -/
theorem jelly_program_sqlite :
    ∃ config writeBackend s b t,
      Main.main atoi ⟨true, ⟨.noCompression⟩⟩ ["-write_backend", "sqlite"] = .ok (config, writeBackend) ∧
      writeBackend = .jelly config.jellyConfig ∧
      (∀ fuel ≥ 2 ^ 27, writeBenchmarkOn .reduce config HostedJelly.backend fuel 0 (fun n => .ofNat (n * n))
        [⟨1000000, none, none⟩, ⟨2000000, none, none⟩] (HostedJelly.init fun _ => (some fun a => a % 2 = 0, [])) =
          .ok (s, b)) ∧
      Stores.Written config s ∧ exit b.jelly = .ok t ∧ Ended s.sets b.jelly t := by
  have hmain : Main.main atoi ⟨true, ⟨.noCompression⟩⟩ ["-write_backend", "sqlite"] = _ := Main.main_ok atoi _ rfl
  obtain ⟨s, b, t, hb⟩ := jelly_program atoi _ _ _ _ hmain
    ⟨rfl, by decide, by decide, by decide, by decide, by decide, by decide⟩ (by decide) .reduce _ 0
    (fun n => .ofNat (n * n)) [⟨1000000, none, none⟩, ⟨2000000, none, none⟩] ⟨by decide, by decide, trivial⟩
  exact ⟨_, _, s, b, t, hmain, hb⟩

end JellyBench.Lifetime
