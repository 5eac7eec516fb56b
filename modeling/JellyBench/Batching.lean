import JellyBench.SQLiteBlobNode
/-!
# Batches are transactions

`SQLiteBlobNode` keeps a flag where SQLite keeps a transaction, rebinds one
statement for every `Set`, and has two versions of its table: the one its
connection sees and the one in the file. `Batched` ties the four together; it
holds after every history of increasing `Set` calls that SQLite has room for.
-/
open JellyBench.SQLite JellyBench.SQLiteBlobNode

namespace JellyBench.Batching

/-- The row of a `Set`, with its whole blob. -/
def setRow (c : SetCall) : Row := ⟨c.key.toNat, c.seq.toNat, c.blob⟩

/-- The row of the last `Set` of each key. -/
def lastRows (cs : List SetCall) : Table :=
  fun k => (Lib.last (fun c : SetCall => (c.key.toNat : Int)) cs k).map setRow

/-- The blob is not empty, and it and its row are within SQLite's limit. -/
def Fits (L : Limits) (c : SetCall) : Prop :=
  c.blob ≠ [] ∧ c.blob.length ≤ L.length ∧ L.rowFits (setRow c) = true

instance (L : Limits) (c : SetCall) : Decidable (Fits L c) := by unfold Fits; infer_instance

structure Batched (calls : List NodeCall) (node : SQLiteBlobNode) : Prop where
  flag : node.batching = node.sqlite.inTransaction
  statements : openAfter node.sqlite.log = some node.batching
  executions : executed node.sqlite.log = (sets calls).map fun c => (setRow c).values
  visible : node.sqlite.visible = lastRows (sets calls)
  committed : node.sqlite.file = lastRows (flushed calls)
  destroyed : node.destroy = lastRows (flushed calls)

theorem rowOf_whole {c : SetCall} (h : c.blob.length < 2 ^ 31) : rowOf c = setRow c := by
  simp [rowOf, setRow, intOfSize_small h]

theorem Fits.small {L : Limits} {c : SetCall} (h : Fits L c) : c.blob.length < 2 ^ 31 :=
  Nat.lt_of_le_of_lt h.2.1 L.length_lt

theorem Fits.storable {L : Limits} {c : SetCall} (h : Fits L c) : Storable L c := by
  have hsize : intOfSize c.blob.length = c.blob.length := intOfSize_small h.small
  obtain ⟨hnil, hlen, hrow⟩ := h
  unfold Storable
  rw [hsize, rowOf_whole (Nat.lt_of_le_of_lt hlen L.length_lt)]
  exact ⟨vectorData_ne_none hnil, Int.natCast_nonneg _, Int.ofNat_le.2 hlen, hrow⟩

theorem tableOf_whole {cs : List SetCall} (h : ∀ c ∈ cs, c.blob.length < 2 ^ 31) : tableOf cs = lastRows cs := by
  funext k
  unfold tableOf lastRows
  cases hl : Lib.last (fun c : SetCall => (c.key.toNat : Int)) cs k with
  | none => simp only [Option.map_none]
  | some c => exact congrArg some (rowOf_whole (h c (Lib.last_mem hl).1))

theorem mem_sets_of_flushed {calls : List NodeCall} {c : SetCall} (h : c ∈ flushed calls) : c ∈ sets calls := by
  simp only [flushed, sets, List.mem_filterMap, List.mem_reverse] at h ⊢
  obtain ⟨a, ha, hac⟩ := h
  exact ⟨a, by simpa using (List.dropWhile_suffix _).subset ha, hac⟩

/-- Whatever the order of `Set` and `Flush`, no assertion fires and the flag, the
transaction, the bindings and both tables are as they should be. -/
theorem batches_are_transactions (L : Limits) (calls : List NodeCall) (hi : Increasing (sets calls))
    (hf : ∀ c ∈ sets calls, Fits L c) : ∃ node, run L calls = .ok node ∧ Batched calls node := by
  have ha : Accepts L calls := ⟨hi, fun c hc => (hf c hc).storable⟩
  obtain ⟨node, hn⟩ := run_accepts ha
  obtain ⟨hh, -⟩ := run_holds hn
  have hsmall : ∀ c ∈ sets calls, c.blob.length < 2 ^ 31 := fun c hc => (hf c hc).small
  have hfile : node.sqlite.file = lastRows (flushed calls) := by
    rw [hh.file, tableOf_whole fun c hc => hsmall c (mem_sets_of_flushed hc)]
  refine ⟨node, hn, hh.ready.batching, hh.open_, ?_, ?_, hfile, hfile⟩
  · rw [hh.executed]
    exact List.map_congr_left fun c hc => by rw [rowOf_whole (hsmall c hc)]
  · rw [hh.visible, tableOf_whole hsmall]

/-- Two keys, a second `Flush` with nothing pending, and a batch left open. -/
theorem batches_are_transactions_open_batch :
    ∃ node, run defaultLimits
        [.set ⟨1, 0, [7], true⟩, .set ⟨2, 1, [8], true⟩, .flush, .flush, .set ⟨1, 2, [9], true⟩] = .ok node ∧
      Batched [.set ⟨1, 0, [7], true⟩, .set ⟨2, 1, [8], true⟩, .flush, .flush, .set ⟨1, 2, [9], true⟩] node :=
  batches_are_transactions defaultLimits _ (by decide) (by decide)

/-- The limit is needed: a blob one byte past it fails an assertion. -/
theorem long_blob_stops : ¬ ∀ (L : Limits) (calls : List NodeCall), Increasing (sets calls) →
    (∀ c ∈ sets calls, c.blob ≠ []) → ∃ node, run L calls = .ok node ∧ Batched calls node := by
  intro h
  let c : SetCall := ⟨1, 0, List.replicate 1000000001 0, true⟩
  have hlen : c.blob.length = 1000000001 := List.length_replicate
  have hnil : c.blob ≠ [] := fun h => by rw [h] at hlen; cases hlen
  obtain ⟨node, hn, -⟩ := h defaultLimits [.set c] (List.pairwise_singleton _ _) (by simpa [sets] using hnil)
  have hst : Storable defaultLimits c := (run_holds hn).2.2 c (by simp [sets])
  have hle : intOfSize c.blob.length ≤ 1000000000 := hst.2.2.1
  rw [hlen] at hle
  exact absurd hle (by decide)

end JellyBench.Batching
