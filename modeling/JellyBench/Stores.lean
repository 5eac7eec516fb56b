import JellyBench.Arguments
import JellyBench.Batching
import JellyBench.LastWriter
import JellyBench.SameStore
import JellyBench.SteadyRate
import JellyBench.Workload
/-!
# The benchmark on the two stores

With the rate `main` sets and options that can be drawn from, every run too short
for its counter to wrap ends, on SQLite and on RocksDB, whatever the generator, the
clock and the flush timer do. Both stores then hold the last write of each key, and
two runs of as many writes leave the same.
-/
open JellyBench.WriteBenchmark JellyBench.Benchmark JellyBench.Batching JellyBench.Sequence

namespace JellyBench.Stores

/-! ## Runs -/

/-- Blobs and keys can be drawn, at the rate `main` sets. -/
structure Runnable (config : Config) : Prop where
  rate : config.writeRate = 10000
  keys : config.blobKeyCount ≠ 0
  sizes : config.minBlobSize ≤ config.maxBlobSize
  nonempty : config.minBlobSize ≠ 0
  blobs : config.maxBlobSize.toNat < 2 ^ 63
  cache : config.randomBlobCacheSize ≠ 0
  room : config.randomBlobCacheSize.toNat < 2 ^ 60

section
variable (distribution : UniformInt) {config : Config}

theorem makeBlob_total (hsizes : config.minBlobSize ≤ config.maxBlobSize) (hmax : config.maxBlobSize.toNat < 2 ^ 63)
    (random : Random) : ∃ r, RandomBlobCache.makeBlob distribution config random = .ok r := by
  have hle := UInt64.le_iff_toNat_le.1 (distribution.within _ _ random hsizes).2
  unfold RandomBlobCache.makeBlob
  simp only
  rw [if_pos (Nat.lt_of_le_of_lt hle hmax)]
  exact ⟨_, rfl⟩

/-- There is room for the blobs, each and together. -/
theorem build_total (hsizes : config.minBlobSize ≤ config.maxBlobSize) (hmax : config.maxBlobSize.toNat < 2 ^ 63) {n : ℕ}
    (cache : RandomBlobCache) (hroom : cache.blobs.length + n < 2 ^ 60) (random : Random) :
    ∃ r, RandomBlobCache.build distribution config n cache random = .ok r := by
  induction n generalizing cache random with
  | zero => exact ⟨_, rfl⟩
  | succ n ih =>
    obtain ⟨⟨blob, random₁⟩, hm⟩ := makeBlob_total distribution hsizes hmax random
    have hp : ∃ cache₁, cache.pushBack blob = .ok cache₁ := by
      unfold RandomBlobCache.pushBack
      rw [dif_pos (by omega)]
      exact ⟨_, rfl⟩
    obtain ⟨cache₁, hp⟩ := hp
    have hlen : cache₁.blobs.length + n < 2 ^ 60 := by
      rw [RandomBlobCache.pushBack_ok hp, List.length_append, List.length_singleton]
      omega
    obtain ⟨r, hr⟩ := ih cache₁ hlen random₁
    refine ⟨r, ?_⟩
    rw [RandomBlobCache.build_succ, hm]
    simp only [hp, hr]

theorem Runnable.init (h : Runnable config) (random : Random) :
    ∃ cache random', RandomBlobCache.init distribution config random = .ok (cache, random') ∧ Usable config cache := by
  obtain ⟨⟨cache, random'⟩, hb⟩ := build_total distribution h.sizes h.blobs ⟨[], Nat.two_pow_pos 60⟩
    (by simpa using h.room) random
  have hi : RandomBlobCache.init distribution config random = .ok (cache, random') := by
    unfold RandomBlobCache.init
    rw [if_pos h.sizes, hb]
  obtain ⟨-, hlen, hsizes⟩ := Arguments.init_ok hi
  refine ⟨cache, random', hi, ?_, ?_, h.keys⟩
  · intro hnil
    rw [hnil] at hlen
    exact h.cache (UInt64.toNat_inj.1 hlen.symm)
  · intro blob hb hnil
    have hmin := (hsizes blob hb).1
    rw [hnil, List.length_nil, Nat.le_zero] at hmin
    exact h.nonempty (UInt64.toNat_inj.1 hmin)

/-- Every run ends. -/
theorem Runnable.ends (h : Runnable config) (startTime : Int) (random : Random) (ticks : List Tick) :
    ∃ s, ∀ fuel ≥ 2 ^ 27, writeBenchmark distribution config fuel startTime random ticks = .ok s := by
  obtain ⟨cache, random', hi, husable⟩ := h.init distribution random
  obtain ⟨r, hr, herr⟩ := run_ends (nextWrite distribution config cache) (paced_binary64 h.rate) (N := 2 ^ 27)
    (by norm_num) (turns config startTime ticks) (s := start startTime random') (by simp [start])
  cases r with
  | error stop =>
    obtain ⟨g, hg⟩ := herr stop rfl
    exact absurd husable (nextWrite_error hg).2
  | ok s =>
    refine ⟨s, fun fuel hf => ?_⟩
    rw [writeBenchmark_eq, hi]
    exact hr fuel hf

variable {distribution}

/-- The writes of a run whose counter does not wrap. -/
structure Written (config : Config) (s : State Random) : Prop where
  increasing : Increasing s.sets
  counted : s.numWrites.toNat = s.sets.length
  minBlobSize : ∀ c ∈ s.sets, config.minBlobSize.toNat ≤ c.blob.length
  maxBlobSize : ∀ c ∈ s.sets, c.blob.length ≤ config.maxBlobSize.toNat

theorem Runnable.written (h : Runnable config) (hshort : config.writeRunSeconds.toNat ≤ 429496) {fuel : Nat}
    {startTime : Int} {random : Random} {ticks : List Tick} (hsteady : Steady startTime ticks) {s : State Random}
    (hrun : writeBenchmark distribution config fuel startTime random ticks = .ok s) : Written config s := by
  obtain ⟨cache, random', hi, hloop⟩ := writeBenchmark_ok hrun
  obtain ⟨-, -, hsizes⟩ := Arguments.init_ok hi
  have hblobs := (traced_run (G := fun _ => True) (P := fun _ blob => blob ∈ cache.blobs)
    (fun _ _ _ _ _ hn => ⟨(nextWrite_ok hn).2, trivial⟩) trivial hloop).drawn
  have hend : startTime ≤ endTime config startTime := by unfold endTime; omega
  have htotal := total_le (steady_turns config hsteady) hend fun tick ht => (lt_of_mem_turns ht).le
  have hS : total (passedTimes startTime (turns config startTime ticks)) ≤ 429496000000 := by
    unfold endTime at htotal
    omega
  have hS' : (total (passedTimes startTime (turns config startTime ticks)) : ℚ) ≤ 429496000000 := by exact_mod_cast hS
  obtain ⟨-, hnear⟩ := SteadyRate.window_near (s := start startTime random') Drain.rest_zero
    (fun passed _ => Drain.credit_small h.rate passed) hloop
  have hdue : Pacing.writesDue config (passedTimes startTime (turns config startTime ticks)) ≤ 4294960000 := by
    have hrate : (config.writeRate.toNat : ℚ) = 10000 := by rw [h.rate]; rfl
    unfold Pacing.writesDue
    rw [hrate]
    linarith
  have hlen : s.sets.length < 2 ^ 32 := by
    have hstart : (start startTime random').sets.length = 0 := rfl
    have hprev : (start startTime random').prevTime = startTime := rfl
    rw [hstart, hprev, abs_le] at hnear
    have hlt : (s.sets.length : ℚ) < 4294967296 := by
      push_cast at hnear
      linarith
    exact_mod_cast hlt
  refine ⟨loop_increasing h.rate hshort hsteady hloop, ?_, ?_, ?_⟩
  · rw [(numbered_run hloop).numWrites, UInt32.toNat_ofNat', Nat.mod_eq_of_lt hlen]
  · exact fun c hc => (hsizes c.blob (hblobs c hc)).1
  · exact fun c hc => (hsizes c.blob (hblobs c hc)).2

/-- A backend that gets through the calls of a run gets through the run. -/
theorem on_backend {β : Type} {backend : IWriteBackend β} {startTime : Int} {random : Random} {ticks : List Tick}
    {s : State Random} (hs : ∀ fuel ≥ 2 ^ 27, writeBenchmark distribution config fuel startTime random ticks = .ok s)
    {b b' : β} (hb : Lib.run backend.call b s.calls = .ok b') :
    ∀ fuel ≥ 2 ^ 27, writeBenchmarkOn distribution config backend fuel startTime random ticks b = .ok (s, b') :=
  fun fuel hf => writeBenchmarkOn_ok_iff.2 ⟨hs fuel hf, hb⟩

end

/-! ## SQLite -/

/-- SQLite takes blobs of every size there can be. -/
def Takes (L : SQLite.Limits) (config : Config) : Prop :=
  ∀ row : SQLite.Row, row.data.length ≤ config.maxBlobSize.toNat → row.data.length ≤ L.length ∧ L.rowFits row = true

theorem Written.fits {config : Config} {s : State Random} (h : Written config s) (hmin : config.minBlobSize ≠ 0)
    {L : SQLite.Limits} (hL : Takes L config) : ∀ c ∈ s.sets, Fits L c := by
  intro c hc
  obtain ⟨hlen, hrow⟩ := hL (setRow c) (h.maxBlobSize c hc)
  refine ⟨?_, hlen, hrow⟩
  intro hnil
  have hle := h.minBlobSize c hc
  rw [hnil, List.length_nil, Nat.le_zero] at hle
  exact hmin (UInt64.toNat_inj.1 hle)

/-- The table has the last write of each key, the file those before the last
`Flush`, and the transactions are in order. -/
structure SQLiteHolds (timer : Timer) (s : State Random) (b : SQLiteWrite) : Prop where
  visible : b.blobNode.sqlite.visible = lastRows s.sets
  file : b.blobNode.destroy = lastRows (flushed (nodeCalls timer s.calls))
  statements : SQLite.openAfter b.blobNode.sqlite.log = some b.blobNode.batching
  executed : SQLite.executed b.blobNode.sqlite.log = s.sets.map fun c => (setRow c).values

/-- What a run that has got through leaves on SQLite. -/
theorem sqlite_holds {L : SQLite.Limits} {timer : Timer} {s : State Random} {b : SQLiteWrite}
    (hfits : ∀ c ∈ s.sets, Fits L c)
    (hb : Lib.run (SQLiteWrite.backend L).call (SQLiteWrite.init timer) s.calls = .ok b) : SQLiteHolds timer s b := by
  have hnode : SQLiteBlobNode.run L (nodeCalls timer s.calls) = .ok b.blobNode := FlushingWrite.run_ok hb
  obtain ⟨hh, -⟩ := SQLiteBlobNode.run_holds hnode
  have hsets : sets (nodeCalls timer s.calls) = s.sets := sets_nodeCalls timer s.calls
  have hsmall : ∀ c ∈ s.sets, c.blob.length < 2 ^ 31 := fun c hc => (hfits c hc).small
  refine ⟨?_, ?_, hh.open_, ?_⟩
  · rw [hh.visible, hsets, tableOf_whole hsmall]
  · show b.blobNode.sqlite.file = _
    rw [hh.file, tableOf_whole]
    intro c hc
    apply hsmall
    rw [← hsets]
    exact mem_sets_of_flushed hc
  · rw [hh.executed, hsets]
    exact List.map_congr_left fun c hc => by rw [rowOf_whole (hsmall c hc)]

theorem Runnable.on_sqlite {L : SQLite.Limits} {distribution : UniformInt} {config : Config} (h : Runnable config)
    (hshort : config.writeRunSeconds.toNat ≤ 429496) (hL : Takes L config) (timer : Timer) {startTime : Int}
    {random : Random} {ticks : List Tick}
    (hsteady : Steady startTime ticks) {s : State Random}
    (hs : ∀ fuel ≥ 2 ^ 27, writeBenchmark distribution config fuel startTime random ticks = .ok s) :
    ∃ b, (∀ fuel ≥ 2 ^ 27, writeBenchmarkOn distribution config (SQLiteWrite.backend L) fuel startTime random ticks
        (SQLiteWrite.init timer) = .ok (s, b)) ∧ SQLiteHolds timer s b := by
  have hw := h.written hshort hsteady (hs _ (le_refl _))
  have hfits := hw.fits h.nonempty hL
  have hsets : sets (nodeCalls timer s.calls) = s.sets := sets_nodeCalls timer s.calls
  have ha : SQLiteBlobNode.Accepts L (nodeCalls timer s.calls) := by
    unfold SQLiteBlobNode.Accepts
    rw [hsets]
    exact ⟨hw.increasing, fun c hc => (hfits c hc).storable⟩
  obtain ⟨node, hnode⟩ := SQLiteBlobNode.run_accepts ha
  obtain ⟨b, hb, -⟩ := FlushingWrite.run_of_node (b := SQLiteWrite.init timer) hnode
  exact ⟨b, on_backend hs hb, sqlite_holds hfits hb⟩

/-- On SQLite every run of at most 429496 s ends without a failed assertion, whatever
the generator, the clock and the timer do. Its table then has the last write of each
key, and its file what was written before the last `Flush`. -/
theorem sqlite_benchmark (L : SQLite.Limits) (distribution : UniformInt) (config : Config) (h : Runnable config)
    (hshort : config.writeRunSeconds.toNat ≤ 429496) (hL : Takes L config) (timer : Timer) (startTime : Int)
    (random : Random) (ticks : List Tick)
    (hsteady : Steady startTime ticks) :
    ∃ s b, (∀ fuel ≥ 2 ^ 27, writeBenchmarkOn distribution config (SQLiteWrite.backend L) fuel startTime random ticks
        (SQLiteWrite.init timer) = .ok (s, b)) ∧ Written config s ∧ SQLiteHolds timer s b := by
  obtain ⟨s, hs⟩ := h.ends distribution startTime random ticks
  obtain ⟨b, hb, hholds⟩ := h.on_sqlite hshort hL timer hsteady hs
  exact ⟨s, b, hb, h.written hshort hsteady (hs _ (le_refl _)), hholds⟩

/-- Small blobs and a short run. -/
def smallBlobs : Config :=
  { writeRate := 10000, writeRunSeconds := 1, minBlobSize := 1, maxBlobSize := 4, randomBlobCacheSize := 2,
    blobKeyCount := 3 }

theorem smallBlobs_runnable : Runnable smallBlobs :=
  ⟨rfl, by decide, by decide, by decide, by decide, by decide, by decide⟩

theorem smallBlobs_taken : Takes SQLite.defaultLimits smallBlobs := by
  intro row hrow
  have hmax : smallBlobs.maxBlobSize.toNat = 4 := rfl
  have hlimit : SQLite.defaultLimits.length = 1000000000 := rfl
  have hfits : SQLite.defaultLimits.rowFits row = decide (SQLite.recordLength row ≤ 1000000000) := rfl
  have hle := SQLite.recordLength_le row
  rw [hlimit, hfits]
  refine ⟨by omega, ?_⟩
  rw [decide_eq_true_eq]
  omega

/-- A turn of a millisecond, and a flush in it. -/
theorem sqlite_benchmark_flush :
    ∃ s b, (∀ fuel ≥ 2 ^ 27, writeBenchmarkOn .reduce smallBlobs (SQLiteWrite.backend SQLite.defaultLimits) fuel 0
        (fun n => .ofNat (n * n)) [⟨1000000, none, none⟩, ⟨2000000, none, none⟩] (SQLiteWrite.init fun n => n = 0) =
          .ok (s, b)) ∧
      Written smallBlobs s ∧ SQLiteHolds (fun n => n = 0) s b :=
  sqlite_benchmark SQLite.defaultLimits .reduce smallBlobs smallBlobs_runnable (by decide) smallBlobs_taken _ 0 _ _
    ⟨by decide, by decide, trivial⟩

/-! ## RocksDB -/

/-- Each key has the sequence number and the blob of its last write, and nothing
else is stored. -/
structure RocksDBHolds (s : State Random) (b : RocksDBWrite) : Prop where
  seq : ∀ key, RocksDBBlobNode.seqAt b.blobNode key = (lastSet s.sets key).map fun c => bytesOfUInt32 c.seq
  blob : ∀ key, RocksDBBlobNode.blobAt b.blobNode key = (lastSet s.sets key).map (·.blob)
  others : ∀ cf k, (b.blobNode cf k).isSome = true → ∃ c ∈ s.sets, k = bytesOfUInt32 c.key

theorem rocksdb_node (calls : List NodeCall) :
    Lib.run (fun db c => (RocksDBBlobNode.call db c).mapError RocksDBBlobNode.Halt.stop) RocksDB.empty calls =
      .ok (RocksDBBlobNode.encode (RocksDBBlobNode.registers (sets calls))) := by
  have hrun := RocksDBBlobNode.run_eq calls
  unfold RocksDBBlobNode.run at hrun
  rw [Lib.run_mapError, hrun]
  rfl

theorem rocksdb_holds {timer : Timer} {s : State Random} {b : RocksDBWrite} (hi : Increasing s.sets)
    (hb : Lib.run RocksDBWrite.backend.call (RocksDBWrite.init timer) s.calls = .ok b) : RocksDBHolds s b := by
  have hnode := (FlushingWrite.run_ok hb).symm.trans (rocksdb_node _)
  have hsets : sets (nodeCalls timer s.calls) = s.sets := sets_nodeCalls timer s.calls
  have hreg : RocksDBBlobNode.registers s.sets = lastSet s.sets := Lib.registers_increasing SetCall.stamp hi
  have hencode : b.blobNode = RocksDBBlobNode.encode (lastSet s.sets) := by
    rw [← hreg, ← hsets]
    exact Except.ok.inj hnode
  refine ⟨fun key => ?_, fun key => ?_, fun cf k hk => ?_⟩
  · rw [hencode, RocksDBBlobNode.encode_seq]
  · rw [hencode, RocksDBBlobNode.encode_blob]
  · rw [hencode, LastWriter.encode_keys] at hk
    obtain ⟨key, rfl, hm⟩ := hk
    obtain ⟨c, hc⟩ := Option.ne_none_iff_exists'.1 hm
    obtain ⟨hmem, rfl⟩ := Lib.last_mem hc
    exact ⟨c, hmem, rfl⟩

theorem Runnable.on_rocksdb {distribution : UniformInt} {config : Config} (h : Runnable config)
    (hshort : config.writeRunSeconds.toNat ≤ 429496) (timer : Timer)
    {startTime : Int} {random : Random} {ticks : List Tick} (hsteady : Steady startTime ticks) {s : State Random}
    (hs : ∀ fuel ≥ 2 ^ 27, writeBenchmark distribution config fuel startTime random ticks = .ok s) :
    ∃ b, (∀ fuel ≥ 2 ^ 27, writeBenchmarkOn distribution config RocksDBWrite.backend fuel startTime random ticks
        (RocksDBWrite.init timer) = .ok (s, b)) ∧ RocksDBHolds s b := by
  have hw := h.written hshort hsteady (hs _ (le_refl _))
  obtain ⟨b, hb, -⟩ := FlushingWrite.run_of_node (b := RocksDBWrite.init timer) (rocksdb_node (nodeCalls timer s.calls))
  exact ⟨b, on_backend hs hb, rocksdb_holds hw.increasing hb⟩

/-- On RocksDB every run of that length ends as well, and no write of it is refused. -/
theorem rocksdb_benchmark (distribution : UniformInt) (config : Config) (h : Runnable config)
    (hshort : config.writeRunSeconds.toNat ≤ 429496) (timer : Timer) (startTime : Int) (random : Random)
    (ticks : List Tick) (hsteady : Steady startTime ticks) :
    ∃ s b, (∀ fuel ≥ 2 ^ 27, writeBenchmarkOn distribution config RocksDBWrite.backend fuel startTime random ticks
        (RocksDBWrite.init timer) = .ok (s, b)) ∧ Written config s ∧ RocksDBHolds s b := by
  obtain ⟨s, hs⟩ := h.ends distribution startTime random ticks
  obtain ⟨b, hb, hholds⟩ := h.on_rocksdb hshort timer hsteady hs
  exact ⟨s, b, hb, h.written hshort hsteady (hs _ (le_refl _)), hholds⟩

theorem rocksdb_benchmark_flush :
    ∃ s b, (∀ fuel ≥ 2 ^ 27, writeBenchmarkOn .reduce smallBlobs RocksDBWrite.backend fuel 0 (fun n => .ofNat (n * n))
        [⟨1000000, none, none⟩, ⟨2000000, none, none⟩] (RocksDBWrite.init fun n => n = 0) = .ok (s, b)) ∧
      Written smallBlobs s ∧ RocksDBHolds s b :=
  rocksdb_benchmark .reduce smallBlobs smallBlobs_runnable (by decide) _ 0 _ _ ⟨by decide, by decide, trivial⟩

/-! ## Both -/

/-- Two runs of as many writes make the same writes. -/
theorem sets_eq {distribution : UniformInt} {config config' : Config} (hsame : Workload.SameDraws config config')
    {fuel fuel' : Nat} {startTime startTime' : Int} {random : Random} {ticks ticks' : List Tick} {s s' : State Random}
    (hs : writeBenchmark distribution config fuel startTime random ticks = .ok s)
    (hs' : writeBenchmark distribution config' fuel' startTime' random ticks' = .ok s')
    (hlen : s.sets.length = s'.sets.length) : s.sets = s'.sets := by
  apply List.ext_getElem?
  intro i
  rcases Nat.lt_or_ge i s.sets.length with hi | hi
  · rw [Workload.drawn_sets hs hi, Workload.drawn_sets hs' (by omega), Workload.nthWrite_same hsame]
  · rw [List.getElem?_eq_none hi, List.getElem?_eq_none (by omega)]

/-- A run on SQLite and one on RocksDB that both get through and make as many
writes leave the same rows, whatever their rates, clocks and timers. -/
theorem stores_agree (L : SQLite.Limits) (distribution : UniformInt) (config config' : Config)
    (hsame : Workload.SameDraws config config') (hmax : config.maxBlobSize.toNat < 2 ^ 31) (timer timer' : Timer)
    (fuel fuel' : Nat) (startTime startTime' : Int) (random : Random) (ticks ticks' : List Tick) (s s' : State Random)
    (b : SQLiteWrite) (b' : RocksDBWrite)
    (hs : writeBenchmarkOn distribution config (SQLiteWrite.backend L) fuel startTime random ticks
      (SQLiteWrite.init timer) = .ok (s, b))
    (hs' : writeBenchmarkOn distribution config' RocksDBWrite.backend fuel' startTime' random ticks'
      (RocksDBWrite.init timer') = .ok (s', b'))
    (hlen : s.sets.length = s'.sets.length) (key : UInt32) :
    SameStore.SameEntry (b.blobNode.sqlite.visible key.toNat) (RocksDBBlobNode.seqAt b'.blobNode key)
      (RocksDBBlobNode.blobAt b'.blobNode key) := by
  obtain ⟨hs, hb⟩ := writeBenchmarkOn_ok_iff.1 hs
  obtain ⟨hs', hb'⟩ := writeBenchmarkOn_ok_iff.1 hs'
  have hsets : sets (nodeCalls timer s.calls) = s.sets := sets_nodeCalls timer s.calls
  have hsets' : sets (nodeCalls timer' s'.calls) = s'.sets := sets_nodeCalls timer' s'.calls
  have hnode : SQLiteBlobNode.run L (nodeCalls timer s.calls) = .ok b.blobNode := FlushingWrite.run_ok hb
  obtain ⟨hh, ha⟩ := SQLiteBlobNode.run_holds hnode
  have hnode' : b'.blobNode = RocksDBBlobNode.encode (RocksDBBlobNode.registers (sets (nodeCalls timer s.calls))) := by
    rw [hsets, sets_eq hsame hs hs' hlen, ← hsets']
    exact Except.ok.inj ((FlushingWrite.run_ok hb').symm.trans (rocksdb_node _))
  rw [hh.visible, hnode']
  apply (SameStore.sameEntry_iff ha key).2
  intro c hc
  rw [hsets] at hc
  -- A blob of the cache is not longer than the options say.
  obtain ⟨cache, random', hi, hloop⟩ := writeBenchmark_ok hs
  have hblobs := (traced_run (G := fun _ => True) (P := fun _ blob => blob ∈ cache.blobs)
    (fun _ _ _ _ _ hn => ⟨(nextWrite_ok hn).2, trivial⟩) trivial hloop).drawn
  have hsize := ((Arguments.init_ok hi).2.2 c.blob (hblobs c (Lib.last_mem hc).1)).2
  omega

/-- SQLite is never flushed here, and RocksDB every time. -/
theorem stores_agree_timers :
    let ticks : List Tick := [⟨1000000, none, none⟩, ⟨2000000, none, none⟩]
    ∃ s b b', writeBenchmarkOn .reduce smallBlobs (SQLiteWrite.backend SQLite.defaultLimits) (2 ^ 27) 0
        (fun n => .ofNat (n * n)) ticks (SQLiteWrite.init fun _ => false) = .ok (s, b) ∧
      writeBenchmarkOn .reduce smallBlobs RocksDBWrite.backend (2 ^ 27) 0 (fun n => .ofNat (n * n)) ticks
        (RocksDBWrite.init fun _ => true) = .ok (s, b') ∧
      SameStore.SameEntry (b.blobNode.sqlite.visible (1 : UInt32).toNat) (RocksDBBlobNode.seqAt b'.blobNode 1)
        (RocksDBBlobNode.blobAt b'.blobNode 1) := by
  intro ticks
  have hsteady : Steady 0 ticks := ⟨by decide, by decide, trivial⟩
  obtain ⟨s, hs⟩ := smallBlobs_runnable.ends .reduce 0 (fun n => .ofNat (n * n)) ticks
  obtain ⟨b, hb, -⟩ := smallBlobs_runnable.on_sqlite (by decide) smallBlobs_taken (fun _ => false) hsteady hs
  obtain ⟨b', hb', -⟩ := smallBlobs_runnable.on_rocksdb (by decide) (fun _ => true) hsteady hs
  exact ⟨s, b, b', hb _ (le_refl _), hb' _ (le_refl _), stores_agree SQLite.defaultLimits .reduce smallBlobs smallBlobs
    ⟨rfl, rfl, rfl, rfl⟩ (by decide) _ _ _ _ 0 0 _ ticks ticks s s b b' (hb _ (le_refl _)) (hb' _ (le_refl _)) rfl 1⟩

/-! ## Logical write bytes -/

/-- `n` is what the blobs written have together, each between the bounds asked for. -/
structure Counted (config : Config) (s : State Random) (n : UInt64) : Prop where
  printed : n = Report.logicalWriteBytes s.sets
  sum : n.toNat = (s.sets.map fun c => c.blob.length).sum
  least : s.numWrites.toNat * config.minBlobSize.toNat ≤ n.toNat
  most : n.toNat ≤ s.numWrites.toNat * config.maxBlobSize.toNat

theorem sum_mem_le {cs : List SetCall} {lo hi : ℕ} (hlo : ∀ c ∈ cs, lo ≤ c.blob.length)
    (hhi : ∀ c ∈ cs, c.blob.length ≤ hi) :
    cs.length * lo ≤ (cs.map fun c => c.blob.length).sum ∧ (cs.map fun c => c.blob.length).sum ≤ cs.length * hi := by
  induction cs with
  | nil => simp
  | cons c cs ih =>
    rw [List.forall_mem_cons] at hlo hhi
    obtain ⟨h₁, h₂⟩ := ih hlo.2 hhi.2
    have h₃ := hlo.1
    have h₄ := hhi.1
    rw [List.length_cons, List.map_cons, List.sum_cons, Nat.succ_mul, Nat.succ_mul]
    omega

/-- A sum of sizes is right modulo 2^64. -/
theorem toNat_foldl_add {α : Type} {g : α → UInt64} {f : α → ℕ} (h : ∀ x, (g x).toNat = f x % 2 ^ 64) (xs : List α)
    (n : UInt64) : (xs.foldl (fun n x => n + g x) n).toNat = (n.toNat + (xs.map f).sum) % 2 ^ 64 := by
  induction xs generalizing n with
  | nil =>
    have hn := n.toNat_lt
    simp [Nat.mod_eq_of_lt hn]
  | cons x xs ih =>
    rw [List.foldl_cons, ih, List.map_cons, List.sum_cons, UInt64.toNat_add, h, Nat.add_mod_mod, Nat.mod_add_mod,
      Nat.add_assoc]

/-- The writes of a run are few enough. -/
theorem Written.logicalWriteBytes {config : Config} {s : State Random} (h : Written config s)
    (hmax : config.maxBlobSize.toNat ≤ 2 ^ 32) :
    (Report.logicalWriteBytes s.sets).toNat = (s.sets.map fun c => c.blob.length).sum := by
  obtain ⟨-, hhi⟩ := sum_mem_le h.minBlobSize h.maxBlobSize
  have hlen := h.counted
  have hlt := s.numWrites.toNat_lt
  have hfits : s.sets.length * config.maxBlobSize.toNat < 2 ^ 64 :=
    calc s.sets.length * config.maxBlobSize.toNat ≤ s.sets.length * 2 ^ 32 := Nat.mul_le_mul_left _ hmax
      _ < 2 ^ 32 * 2 ^ 32 := Nat.mul_lt_mul_of_pos_right (by omega) (by norm_num)
      _ = 2 ^ 64 := by norm_num
  rw [Report.logicalWriteBytes, toNat_foldl_add fun _ => UInt64.toNat_ofNat', UInt64.toNat_zero, Nat.zero_add]
  exact Nat.mod_eq_of_lt (by omega)

/-- A backend that counts its writes counts them right. -/
theorem Written.bytes {config : Config} {s : State Random} (h : Written config s) (hmax : config.maxBlobSize.toNat ≤ 2 ^ 32)
    {β : Type} {backend : IWriteBackend β} (hcounts : backend.Counts) {b b' : β} (hb : backend.logicalWriteBytes b = 0)
    (hrun : Lib.run backend.call b s.calls = .ok b') : Counted config s (backend.logicalWriteBytes b') := by
  have hfold := hcounts.run hrun
  rw [hb] at hfold
  have hprinted : backend.logicalWriteBytes b' = Report.logicalWriteBytes s.sets := hfold
  have hsum := h.logicalWriteBytes hmax
  obtain ⟨hlo, hhi⟩ := sum_mem_le h.minBlobSize h.maxBlobSize
  rw [← h.counted] at hlo hhi
  rw [hprinted]
  exact ⟨rfl, hsum, hsum ▸ hlo, hsum ▸ hhi⟩

/-- Whatever the backend, the bytes counted at the end of a run are those its
writes have: none is missed, none counted twice, and the sum does not wrap. -/
theorem logical_write_bytes (L : SQLite.Limits) (distribution : UniformInt) (config : Config) (h : Runnable config)
    (hshort : config.writeRunSeconds.toNat ≤ 429496) (hmax : config.maxBlobSize.toNat ≤ 2 ^ 32) (fuel : Nat)
    (startTime : Int) (random : Random) (ticks : List Tick) (hsteady : Steady startTime ticks) (s : State Random) :
    (∀ timer b, writeBenchmarkOn distribution config (SQLiteWrite.backend L) fuel startTime random ticks
        (SQLiteWrite.init timer) = .ok (s, b) → Counted config s b.logicalWriteBytes) ∧
    (∀ timer b, writeBenchmarkOn distribution config RocksDBWrite.backend fuel startTime random ticks
        (RocksDBWrite.init timer) = .ok (s, b) → Counted config s b.logicalWriteBytes) ∧
    ∀ updates b, writeBenchmarkOn distribution config HostedJelly.backend fuel startTime random ticks
        (HostedJelly.init updates) = .ok (s, b) → Counted config s b.jelly.logicalWriteBytes := by
  refine ⟨?_, ?_, ?_⟩
  · intro timer b hrun
    obtain ⟨hs, hb⟩ := writeBenchmarkOn_ok_iff.1 hrun
    exact (h.written hshort hsteady hs).bytes hmax (FlushingWrite.counts _) rfl hb
  · intro timer b hrun
    obtain ⟨hs, hb⟩ := writeBenchmarkOn_ok_iff.1 hrun
    exact (h.written hshort hsteady hs).bytes hmax (FlushingWrite.counts _) rfl hb
  · intro updates b hrun
    obtain ⟨hs, hb⟩ := writeBenchmarkOn_ok_iff.1 hrun
    exact (h.written hshort hsteady hs).bytes hmax HostedJelly.counts rfl hb

theorem logical_write_bytes_flush :
    let ticks : List Tick := [⟨1000000, none, none⟩, ⟨2000000, none, none⟩]
    ∃ s b, writeBenchmarkOn .reduce smallBlobs RocksDBWrite.backend (2 ^ 27) 0 (fun n => .ofNat (n * n)) ticks
        (RocksDBWrite.init fun _ => true) = .ok (s, b) ∧ Counted smallBlobs s b.logicalWriteBytes := by
  intro ticks
  have hsteady : Steady 0 ticks := ⟨by decide, by decide, trivial⟩
  obtain ⟨s, hs⟩ := smallBlobs_runnable.ends .reduce 0 (fun n => .ofNat (n * n)) ticks
  obtain ⟨b, hb, -⟩ := smallBlobs_runnable.on_rocksdb (by decide) (fun _ => true) hsteady hs
  exact ⟨s, b, hb _ (le_refl _), (logical_write_bytes SQLite.defaultLimits .reduce smallBlobs smallBlobs_runnable (by decide)
    (by decide) _ 0 _ ticks hsteady s).2.1 _ b (hb _ (le_refl _))⟩

end JellyBench.Stores
