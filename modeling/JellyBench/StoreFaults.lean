import JellyBench.RocksDBBlobNode
/-!
# Failing reads and stops inside a `Set`

The staleness check of `RocksDBBlobNode::Set` sits under `status.ok()`, and its
two writes are two separate `Put`s.

- A read that fails skips the check: `newer_iff_harmless` says which calls an
  older write can then win.
- A stop between the two writes leaves a blob under a sequence number of another
  call: `atomic_iff` says which stops are seen.
-/
open JellyBench.RocksDB JellyBench.RocksDBBlobNode

namespace JellyBench.StoreFaults

/-! ## Reads that fail -/

/-- A `Set`, and the failure of its `Get` if it fails. -/
abbrev Read := Option Failure × SetCall

def Read.fates : Read → Fates
  | (none, _) => .allDone
  | (some failure, _) => ⟨.fails failure, .done, .done⟩

def readStep (db : Columns) (r : Read) : Except Halt Columns := set r.fates db r.2

def runReads (rs : List Read) : Except Halt Columns := Lib.run readStep empty rs

/-- `P` holds at every call of the run, of the store before it. -/
def EveryCall (rs : List Read) (P : Columns → Read → Prop) : Prop :=
  ∀ pre r post db, rs = pre ++ r :: post → runReads pre = .ok db → P db r

/-- No stored sequence number goes back, and a blob is only replaced by the blob
of a call with a larger number. -/
structure OnlyNewer (before after : Columns) (c : SetCall) : Prop where
  seq : ∀ key s, seqAt before key = some (bytesOfUInt32 s) →
    ∃ s', seqAt after key = some (bytesOfUInt32 s') ∧ s ≤ s'
  blob : ∀ key s b, seqAt before key = some (bytesOfUInt32 s) →
    blobAt before key = some b → blobAt after key ≠ some b →
    key = c.key ∧ blobAt after key = some c.blob ∧ s < c.seq

/-- A failing read does no harm where the call is newer than what is stored, or
writes what is stored. -/
def Harmless (db : Columns) (r : Read) : Prop :=
  r.1 ≠ none → ∀ s b, seqAt db r.2.key = some (bytesOfUInt32 s) →
    blobAt db r.2.key = some b → s < r.2.seq ∨ (s = r.2.seq ∧ b = r.2.blob)

/-- The calls the store holds after a `Set` whose read may fail. -/
def taken (m : UInt32 → Option SetCall) (r : Read) : UInt32 → Option SetCall :=
  if r.1 = none ∧ Stale m r.2 then m else Function.update m r.2.key (some r.2)

theorem readStep_encode (m : UInt32 → Option SetCall) (r : Read) :
    readStep (encode m) r = .ok (encode (taken m r)) := by
  obtain ⟨_ | failure, c⟩ := r
  · by_cases h : Stale m c <;> simp [readStep, Read.fates, Fates.allDone, set_encode, written, taken, h]
  · simp [readStep, Read.fates, set_encode, written, taken]

theorem runReads_encode (rs : List Read) : ∃ m, runReads rs = .ok (encode m) := by
  induction rs using List.reverseRecOn with
  | nil => exact ⟨_, congrArg Except.ok encode_none.symm⟩
  | append_singleton rs r ih =>
    obtain ⟨m, hm⟩ := ih
    exact ⟨_, Lib.run_snoc_ok.2 ⟨_, hm, readStep_encode m r⟩⟩

theorem onlyNewer_refl (m : UInt32 → Option SetCall) (c : SetCall) : OnlyNewer (encode m) (encode m) c :=
  ⟨fun _ s hs => ⟨s, hs, UInt32.le_refl s⟩, fun _ _ _ _ hb hne => absurd hb hne⟩

theorem blobAt_encode_iff {m : UInt32 → Option SetCall} {key : UInt32} {b : Bytes} :
    blobAt (encode m) key = some b ↔ ∃ d, m key = some d ∧ d.blob = b := by
  rw [encode_blob, Option.map_eq_some_iff]

theorem seqAt_encode_iff {m : UInt32 → Option SetCall} {key s : UInt32} :
    seqAt (encode m) key = some (bytesOfUInt32 s) ↔ ∃ d, m key = some d ∧ d.seq = s := by
  rw [encode_seq, Option.map_eq_some_iff]
  simp only [bytesOfUInt32_inj]

/-- Overwriting the call of a key is fine exactly when the new one is newer, or
changes nothing. -/
theorem onlyNewer_update (m : UInt32 → Option SetCall) (c : SetCall) :
    OnlyNewer (encode m) (encode (Function.update m c.key (some c))) c ↔
      ∀ d, m c.key = some d → d.seq < c.seq ∨ (d.seq = c.seq ∧ d.blob = c.blob) := by
  have hafter : Function.update m c.key (some c) c.key = some c := Function.update_self _ _ _
  constructor
  · intro h d hd
    obtain ⟨s', hs', hle⟩ := h.seq c.key d.seq (seqAt_encode_iff.2 ⟨d, hd, rfl⟩)
    obtain ⟨c', hc', rfl⟩ := seqAt_encode_iff.1 hs'
    obtain rfl : c = c' := Option.some.inj (hafter.symm.trans hc')
    by_cases hb : d.blob = c.blob
    · rcases Nat.lt_or_eq_of_le (UInt32.le_iff_toNat_le.1 hle) with hlt | heq
      · exact .inl (UInt32.lt_iff_toNat_lt.2 hlt)
      · exact .inr ⟨UInt32.toNat_inj.1 heq, hb⟩
    · -- The blob changes, so the number has to be larger.
      refine .inl (h.blob c.key d.seq d.blob (seqAt_encode_iff.2 ⟨d, hd, rfl⟩) (blobAt_encode_iff.2 ⟨d, hd, rfl⟩) ?_).2.2
      rw [encode_blob, hafter]
      exact fun h => hb (Option.some.inj h).symm
  · intro h
    constructor
    · intro key s hs
      obtain ⟨d, hd, rfl⟩ := seqAt_encode_iff.1 hs
      by_cases hk : key = c.key
      · subst hk
        refine ⟨c.seq, seqAt_encode_iff.2 ⟨c, hafter, rfl⟩, ?_⟩
        rcases h d hd with hlt | ⟨heq, -⟩
        · exact UInt32.le_of_lt hlt
        · rw [heq]
          exact UInt32.le_refl _
      · refine ⟨d.seq, seqAt_encode_iff.2 ⟨d, ?_, rfl⟩, UInt32.le_refl _⟩
        rw [Function.update_of_ne hk, hd]
    · intro key s b hs hb hne
      by_cases hk : key = c.key
      · subst hk
        obtain ⟨d, hd, rfl⟩ := seqAt_encode_iff.1 hs
        have hblob : blobAt (encode (Function.update m c.key (some c))) c.key = some c.blob :=
          blobAt_encode_iff.2 ⟨c, hafter, rfl⟩
        refine ⟨rfl, hblob, ?_⟩
        rcases h d hd with hlt | ⟨-, heq⟩
        · exact hlt
        · have hsame : blobAt (encode m) c.key = some c.blob := blobAt_encode_iff.2 ⟨d, hd, heq⟩
          exact absurd (hblob.trans (hsame.symm.trans hb)) hne
      · rw [encode_blob, Function.update_of_ne hk, ← encode_blob] at hne
        exact absurd hb hne

theorem harmless_encode (m : UInt32 → Option SetCall) (r : Read) :
    Harmless (encode m) r ↔
      (r.1 ≠ none → ∀ d, m r.2.key = some d → d.seq < r.2.seq ∨ (d.seq = r.2.seq ∧ d.blob = r.2.blob)) := by
  unfold Harmless
  constructor
  · intro h hr d hd
    exact h hr d.seq d.blob (seqAt_encode_iff.2 ⟨d, hd, rfl⟩) (blobAt_encode_iff.2 ⟨d, hd, rfl⟩)
  · intro h hr s b hs hb
    obtain ⟨d, hd, rfl⟩ := seqAt_encode_iff.1 hs
    obtain ⟨d', hd', rfl⟩ := blobAt_encode_iff.1 hb
    obtain rfl : d = d' := Option.some.inj (hd.symm.trans hd')
    exact h hr d hd

theorem onlyNewer_taken (m : UInt32 → Option SetCall) (r : Read) :
    OnlyNewer (encode m) (encode (taken m r)) r.2 ↔ Harmless (encode m) r := by
  rw [harmless_encode]
  unfold taken
  by_cases hr : r.1 = none
  · by_cases hs : Stale m r.2
    · simp [hr, hs, onlyNewer_refl]
    · have hnew : ∀ d, m r.2.key = some d → d.seq < r.2.seq ∨ (d.seq = r.2.seq ∧ d.blob = r.2.blob) := by
        intro d hd
        refine .inl (UInt32.lt_iff_toNat_lt.2 (Nat.lt_of_not_le fun hle => hs ⟨d, hd, hle⟩))
      simp only [hs, and_false, if_false, hr, ne_eq, not_true_eq_false, false_implies, iff_true]
      exact (onlyNewer_update m r.2).2 hnew
  · simp only [hr, false_and, if_false, ne_eq, not_false_eq_true, true_implies]
    exact onlyNewer_update m r.2

/-- Along a run whose reads may fail, the store only gets newer exactly when
every failing read is harmless. -/
theorem newer_iff_harmless (rs : List Read) :
    EveryCall rs (fun db r => ∀ after, readStep db r = .ok after → OnlyNewer db after r.2) ↔
      EveryCall rs Harmless := by
  have hstep : ∀ pre db r, runReads pre = .ok db →
      ((∀ after, readStep db r = .ok after → OnlyNewer db after r.2) ↔ Harmless db r) := by
    intro pre db r hdb
    obtain ⟨m, hm⟩ := runReads_encode pre
    obtain rfl : encode m = db := Except.ok.inj (hm.symm.trans hdb)
    rw [readStep_encode, ← onlyNewer_taken]
    exact ⟨fun h => h _ rfl, fun h after ha => Except.ok.inj ha ▸ h⟩
  constructor
  · intro h pre r post db he hdb
    exact (hstep pre db r hdb).1 (h pre r post db he hdb)
  · intro h pre r post db he hdb
    exact (hstep pre db r hdb).2 (h pre r post db he hdb)

/-- An I/O error on the read, and the write numbered 3 replaces the one numbered 5. -/
theorem older_write_wins : ¬ ∀ rs : List Read,
    EveryCall rs fun db r => ∀ after, readStep db r = .ok after → OnlyNewer db after r.2 := by
  intro h
  obtain ⟨s, hs, hle⟩ := (h [(none, ⟨1, 5, [1], true⟩), (some .ioError, ⟨1, 3, [2], true⟩)] [(none, ⟨1, 5, [1], true⟩)]
    (some .ioError, ⟨1, 3, [2], true⟩) [] _ rfl rfl _ rfl).seq 1 5 (by decide)
  obtain rfl : 3 = s := bytesOfUInt32_inj.1 (Option.some.inj (Eq.trans (by decide) hs))
  exact absurd hle (by decide)

/-! ## Stops inside a `Set` -/

/-- A `Set` and what becomes of its operations. A `Get` that runs is right. -/
structure Write where
  fates : Fates
  call : SetCall
  reads : ∀ failure, fates.get ≠ .fails failure

def writeStep (db : Columns) (w : Write) : Except Halt Columns := set w.fates db w.call

def runWrites (ws : List Write) : Except Halt Columns := Lib.run writeStep empty ws

/-- The store a run leaves, stopped or not. -/
def left (r : Except Halt Columns) : Columns :=
  match r with
  | .ok db => db
  | .error halt => halt.db

/-- A key has a blob and a sequence number of the same call, or neither. -/
def Paired (db : Columns) (cs : List SetCall) : Prop :=
  ∀ key, (blobAt db key = none ∧ seqAt db key = none) ∨
    ∃ c ∈ cs, c.key = key ∧ blobAt db key = some c.blob ∧
      seqAt db key = some (bytesOfUInt32 c.seq)

/-- The store left is the one some prefix of the calls leaves when it completes. -/
structure Atomic (ws : List Write) : Prop where
  completed : ∃ k, RocksDBBlobNode.run (((ws.map (·.call)).take k).map .set) = .ok (left (runWrites ws))
  paired : Paired (left (runWrites ws)) (ws.map (·.call))

/-- A `Set` that gets as far as its first `Put` and no further, with another blob
than the one stored for its key. -/
structure Tears (db : Columns) (w : Write) : Prop where
  get : w.fates.get = .done
  fresh : refuses .done db w.call = .ok false
  putBlob : w.fates.putBlob = .done
  putSeq : w.fates.putSeq ≠ .done
  other : blobAt db w.call.key ≠ some w.call.blob

/-- The run comes to such a `Set`. -/
def Torn (ws : List Write) : Prop := ∃ pre w post db, ws = pre ++ w :: post ∧ runWrites pre = .ok db ∧ Tears db w

theorem writeStep_ok {cs : List SetCall} {w : Write} {db : Columns}
    (h : writeStep (encode (registers cs)) w = .ok db) : db = encode (registers (cs ++ [w.call])) := by
  obtain ⟨⟨g, b, s⟩, c, hg⟩ := w
  unfold writeStep at h
  rw [set_encode] at h
  rw [registers_snoc]
  cases g with
  | stopped => cases h
  | fails failure => exact absurd rfl (hg failure)
  | done =>
    by_cases hs : Stale (registers cs) c
    · simp only [if_pos hs, Except.ok.injEq] at h ⊢
      exact h.symm
    · simp only [if_neg hs] at h ⊢
      cases b <;> cases s <;> simp_all [written]

/-- A run that is not stopped leaves what its calls leave. -/
theorem runWrites_ok {ws : List Write} {db : Columns} (h : runWrites ws = .ok db) :
    db = encode (registers (ws.map (·.call))) := by
  refine Lib.run_history (fun ws db => db = encode (registers (ws.map (·.call)))) encode_none.symm ?_ h
  rintro ws _ w db rfl hs
  rw [List.map_append]
  exact writeStep_ok hs

/-- A `Set` that tears leaves its blob under what was there before. -/
theorem writeStep_tears {m : UInt32 → Option SetCall} {w : Write} (h : Tears (encode m) w) :
    ∃ stop, writeStep (encode m) w = .error ⟨stop, halfWritten m w.call⟩ := by
  have hs : ¬ Stale m w.call := by simpa [refuses_done] using h.fresh
  have hstep : writeStep (encode m) w = written w.fates m w.call := by
    unfold writeStep
    rw [set_encode, h.get]
    simp only [if_neg hs]
  rw [hstep]
  unfold written
  rw [h.putBlob]
  cases hp : w.fates.putSeq with
  | done => exact absurd hp h.putSeq
  | fails failure => exact ⟨_, rfl⟩
  | stopped => exact ⟨_, rfl⟩

theorem written_error {fates : Fates} {m : UInt32 → Option SetCall} {c : SetCall} {halt : Halt}
    (h : written fates m c = .error halt) :
    halt.db = encode m ∨ (fates.putBlob = .done ∧ fates.putSeq ≠ .done ∧ halt.db = halfWritten m c) := by
  unfold written at h
  split at h <;> cases h
  · exact .inl rfl
  · exact .inl rfl
  · rename_i hb hp; exact .inr ⟨hb, by rw [hp]; decide, rfl⟩
  · rename_i hb hp; exact .inr ⟨hb, by rw [hp]; simp, rfl⟩

theorem halfWritten_same {m : UInt32 → Option SetCall} {c : SetCall}
    (h : blobAt (encode m) c.key = some c.blob) : halfWritten m c = encode m := by
  unfold halfWritten Columns.store
  rw [← h, blobAt, Function.update_eq_self, Function.update_eq_self]

/-- A `Set` that stops tears, or leaves what was there before. -/
theorem writeStep_error {m : UInt32 → Option SetCall} {w : Write} {halt : Halt}
    (h : writeStep (encode m) w = .error halt) : halt.db = encode m ∨ Tears (encode m) w := by
  unfold writeStep at h
  rw [set_encode] at h
  cases hg : w.fates.get with
  | stopped => rw [hg] at h; cases h; exact .inl rfl
  | fails failure => exact absurd hg (w.reads failure)
  | done =>
    by_cases hs : Stale m w.call
    · simp only [hg, if_pos hs] at h
      cases h
    · simp only [hg, if_neg hs] at h
      rcases written_error h with hdb | ⟨hb, hp, hdb⟩
      · exact .inl hdb
      · by_cases hother : blobAt (encode m) w.call.key = some w.call.blob
        · exact .inl (hdb.trans (halfWritten_same hother))
        · exact .inr ⟨hg, by simpa [refuses_done] using hs, hb, hp, hother⟩

/-- A torn store is not the store of any earlier or later history. -/
theorem halfWritten_ne {pre cs : List SetCall} {c : SetCall} (hc : cs <+: pre ∨ pre <+: cs)
    (hother : blobAt (encode (registers pre)) c.key ≠ some c.blob) :
    halfWritten (registers pre) c ≠ encode (registers cs) := by
  intro h
  have hblob : blobAt (encode (registers cs)) c.key = some c.blob := by
    rw [← h, halfWritten_blob]
  have hseq : seqAt (encode (registers cs)) c.key = seqAt (encode (registers pre)) c.key := by
    rw [← h, halfWritten_seq]
  obtain ⟨e, he, heb⟩ := blobAt_encode_iff.1 hblob
  obtain ⟨d, hd, hds⟩ := seqAt_encode_iff.1 (hseq.symm.trans (seqAt_encode_iff.2 ⟨e, he, rfl⟩))
  have hstamp : d.stamp = e.stamp := congrArg UInt32.toNat hds
  -- With equal numbers the shorter history's call is still the one stored.
  have hde : d = e := by
    rcases hc with ⟨post, rfl⟩ | ⟨post, rfl⟩
    · rcases Lib.registers_mono SetCall.stamp cs post he with hk | ⟨y, hy, hlt⟩
      · exact Option.some.inj (hd.symm.trans hk)
      · obtain rfl : d = y := Option.some.inj (hd.symm.trans hy)
        omega
    · rcases Lib.registers_mono SetCall.stamp pre post hd with hk | ⟨y, hy, hlt⟩
      · exact Option.some.inj (hk.symm.trans he)
      · obtain rfl : e = y := Option.some.inj (he.symm.trans hy)
        omega
  exact hother (blobAt_encode_iff.2 ⟨d, hd, by rw [hde, heb]⟩)

theorem paired_registers {cs cs' : List SetCall} (h : cs <+: cs') : Paired (encode (registers cs)) cs' := by
  intro key
  rw [encode_blob, encode_seq]
  rcases Lib.registers_spec SetCall.stamp cs key with ⟨hn, -⟩ | ⟨c, hc, hw⟩
  · exact .inl (by rw [show registers cs key = none from hn]; exact ⟨rfl, rfl⟩)
  · exact .inr ⟨c, h.subset hw.mem.1, hw.mem.2, by rw [show registers cs key = some c from hc]; exact ⟨rfl, rfl⟩⟩

theorem sets_map_set (cs : List SetCall) : sets (cs.map .set) = cs := by
  induction cs using List.reverseRecOn with
  | nil => rfl
  | append_singleton cs c ih => rw [List.map_append, List.map_singleton, sets_snoc_set, ih]

theorem atomic_of_left {ws : List Write} {pre : List SetCall} (hpre : pre <+: ws.map (·.call))
    (h : left (runWrites ws) = encode (registers pre)) : Atomic ws where
  completed := by
    refine ⟨pre.length, ?_⟩
    rw [run_eq, sets_map_set, h, ← List.prefix_iff_eq_take.1 hpre]
  paired := by
    rw [h]; exact paired_registers hpre

theorem Torn.not_atomic {ws : List Write} (h : Torn ws) : ¬ Atomic ws := by
  rintro ⟨⟨k, hk⟩, -⟩
  obtain ⟨pre, w, post, db, rfl, hpre, ht⟩ := h
  obtain rfl := runWrites_ok hpre
  obtain ⟨stop, hstep⟩ := writeStep_tears ht
  have hrun : runWrites (pre ++ w :: post) = .error ⟨stop, halfWritten (registers (pre.map (·.call))) w.call⟩ := by
    unfold runWrites at hpre ⊢
    rw [Lib.run_append_of_ok hpre, Lib.run_cons_error hstep]
  rw [hrun, run_eq, sets_map_set, Except.ok.injEq] at hk
  refine halfWritten_ne ?_ ht.other hk.symm
  rw [List.map_append]
  exact List.prefix_or_prefix_of_prefix (List.take_prefix _ _) (List.prefix_append _ _)

/-- The store is left as by a prefix of the calls exactly when no `Set` stopped
between its two `Put`s, with a new blob. -/
theorem atomic_iff (ws : List Write) : Atomic ws ↔ ¬ Torn ws := by
  constructor
  · exact fun ha ht => ht.not_atomic ha
  · intro hnot
    cases hr : runWrites ws with
    | ok db => exact atomic_of_left (List.prefix_refl _) (by rw [hr]; exact runWrites_ok hr)
    | error halt =>
      obtain ⟨pre, w, post, db, rfl, hpre, hstep⟩ := Lib.run_error hr
      obtain rfl := runWrites_ok hpre
      rcases writeStep_error hstep with hdb | ht
      · have hprefix : pre.map (·.call) <+: (pre ++ w :: post).map (·.call) := by
          rw [List.map_append]
          exact List.prefix_append _ _
        exact atomic_of_left hprefix (by rw [hr]; exact hdb)
      · exact absurd ⟨pre, w, post, _, rfl, hpre, ht⟩ hnot

/-- The first `Set` of key 1 stopped between its writes: a blob without a number. -/
theorem torn_first_write : ¬ ∀ ws : List Write, Atomic ws := by
  intro h
  let w : Write := ⟨⟨.done, .done, .stopped⟩, ⟨1, 0, [7], true⟩, fun _ h => nomatch h⟩
  have ht : Torn [w] := ⟨[], w, [], empty, rfl, rfl, rfl, rfl, rfl, by decide, by decide⟩
  exact ht.not_atomic (h [w])

end JellyBench.StoreFaults
