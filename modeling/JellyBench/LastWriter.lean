import JellyBench.RocksDBBlobNode
import Mathlib.Data.List.Pairwise
/-!
# The RocksDB node is a last-writer-wins register map

`run_eq` says that a run leaves the registers of its `Set` calls, whatever
their order. What they hold is `Lib.Wins`: the earliest of the calls with the
largest sequence number.
-/
open JellyBench.RocksDB JellyBench.RocksDBBlobNode

namespace JellyBench.LastWriter

/-- No two calls give a key the same sequence number. -/
def DistinctSeqs (cs : List SetCall) : Prop := cs.Pairwise fun c d => c.key = d.key → c.seq ≠ d.seq

instance (cs : List SetCall) : Decidable (DistinctSeqs cs) := inferInstanceAs (Decidable (cs.Pairwise _))

/-- Both column families hold `c` under `key`. -/
def HoldsCall (db : Columns) (key : UInt32) (c : SetCall) : Prop :=
  seqAt db key = some (bytesOfUInt32 c.seq) ∧ blobAt db key = some c.blob

theorem encode_holds {m : UInt32 → Option SetCall} {key : UInt32} {c : SetCall} (h : m key = some c) :
    HoldsCall (encode m) key c := by
  unfold HoldsCall
  rw [encode_seq, encode_blob, h]
  exact ⟨rfl, rfl⟩

/-- A column family has a value exactly for the keys of `m`. -/
theorem encode_keys (m : UInt32 → Option SetCall) (cf : Fin 2) (k : Bytes) :
    (encode m cf k).isSome = true ↔ ∃ key, k = bytesOfUInt32 key ∧ m key ≠ none := by
  unfold encode
  constructor
  · intro h
    cases hk : uint32OfBytes k with
    | none => simp [hk] at h
    | some key =>
      refine ⟨key, bytes_of_uint32OfBytes hk, ?_⟩
      intro hm
      simp [hk, hm] at h
  · rintro ⟨key, rfl, hm⟩
    obtain ⟨c, hc⟩ := Option.ne_none_iff_exists'.1 hm
    simp [hc]

theorem registers_perm {cs cs' : List SetCall} (hp : cs.Perm cs') (hd : DistinctSeqs cs) :
    registers cs = registers cs' := by
  apply Lib.registers_perm SetCall.stamp hp
  intro c hc d hd' hk hs
  by_contra hne
  have hsym : Std.Symm fun c d : SetCall => c.key = d.key → c.seq ≠ d.seq :=
    ⟨fun _ _ h hk' => (h hk'.symm).symm⟩
  exact List.Pairwise.forall hd hc hd' hne hk (UInt32.toNat_inj.1 hs)

/-- After any run, each key that was ever set has the largest sequence number it
was given and the blob of the first call that gave it, and no other key is in
the store. If no key was given a number twice, the order of the calls makes no
difference. -/
theorem last_writer_wins (calls : List NodeCall) :
    ∃ db, run calls = .ok db ∧
      (∀ c ∈ sets calls, ∃ d, Lib.Wins SetCall.key SetCall.stamp (sets calls) c.key d ∧ HoldsCall db c.key d) ∧
      (∀ cf k, (db cf k).isSome = true ↔ ∃ c ∈ sets calls, k = bytesOfUInt32 c.key) ∧
      ∀ calls', (sets calls).Perm (sets calls') → DistinctSeqs (sets calls) → run calls' = .ok db := by
  refine ⟨_, run_eq calls, ?_, ?_, ?_⟩
  · intro c hc
    rcases Lib.registers_spec SetCall.stamp (sets calls) c.key with ⟨_, hnone⟩ | ⟨d, hd, hw⟩
    · exact absurd rfl (hnone c hc)
    · exact ⟨d, hw, encode_holds hd⟩
  · intro cf k
    rw [encode_keys]
    constructor
    · rintro ⟨key, rfl, hm⟩
      rcases Lib.registers_spec SetCall.stamp (sets calls) key with ⟨hn, _⟩ | ⟨d, _, hw⟩
      · exact absurd hn hm
      · exact ⟨d, hw.mem.1, by rw [hw.mem.2]⟩
    · rintro ⟨c, hc, rfl⟩
      exact ⟨c.key, rfl, fun hm => (Lib.registers_none SetCall.stamp).1 hm c hc rfl⟩
  · intro calls' hp hd
    rw [run_eq, registers_perm hp hd]

end JellyBench.LastWriter
