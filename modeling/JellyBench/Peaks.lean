import JellyBench.Report
/-!
# The peaks reported

The loop keeps the largest memory and disk usage it samples, from 0 on. The end
subtracts the memory before the loop in 64 bits, without asking which is larger,
and narrows to 32 bits.
-/
open JellyBench.ProcessMonitor JellyBench.WriteBenchmark JellyBench.Report

namespace JellyBench.Peaks

/-! ## Peaks -/

/-- `n` is the largest of `vs`, and 0 if none of them is larger. -/
structure IsPeak (vs : List ℕ) (n : ℕ) : Prop where
  le : ∀ v ∈ vs, v ≤ n
  mem : n ∈ vs ∨ n = 0

theorem isPeak_nil : IsPeak [] 0 := ⟨by simp, .inr rfl⟩

theorem IsPeak.snoc {vs : List ℕ} {n : ℕ} (h : IsPeak vs n) (v : ℕ) : IsPeak (vs ++ [v]) (max n v) where
  le := by
    intro w hw
    rcases List.mem_append.1 hw with hw | hw
    · exact (h.le w hw).trans (le_max_left n v)
    · rw [List.mem_singleton.1 hw]
      exact le_max_right n v
  mem := by
    rcases le_total n v with hle | hle
    · rw [max_eq_right hle]
      simp
    · rw [max_eq_left hle]
      exact h.mem.imp_left (List.mem_append_left _)

theorem IsPeak.unique {vs : List ℕ} {n m : ℕ} (h : IsPeak vs n) (h' : IsPeak vs m) : n = m := by
  have hle : ∀ {a b : ℕ}, IsPeak vs a → IsPeak vs b → a ≤ b := by
    intro a b ha hb
    rcases ha.mem with hm | rfl
    · exact hb.le a hm
    · exact Nat.zero_le b
  exact Nat.le_antisymm (hle h h') (hle h' h)

/-- A narrowed peak is one exactly when every value fits. -/
theorem IsPeak.narrow_iff {vs : List ℕ} {n : ℕ} (h : IsPeak vs n) :
    IsPeak vs (n % 2 ^ 32) ↔ ∀ v ∈ vs, v < 2 ^ 32 := by
  constructor
  · intro h' v hv
    have hle := h'.le v hv
    have hlt := Nat.mod_lt n (show 2 ^ 32 > 0 by omega)
    omega
  · intro hall
    have hlt : n < 2 ^ 32 := by
      rcases h.mem with hm | rfl
      · exact hall n hm
      · omega
    rw [Nat.mod_eq_of_lt hlt]
    exact h

/-- How far above `base` the values get. -/
theorem IsPeak.sub {vs : List ℕ} {n : ℕ} (h : IsPeak vs n) (base : ℕ) :
    IsPeak (vs.map fun v => v - base) (n - base) where
  le := by
    intro w hw
    obtain ⟨v, hv, rfl⟩ := List.mem_map.1 hw
    exact Nat.sub_le_sub_right (h.le v hv) base
  mem := by
    rcases h.mem with hm | rfl
    · exact .inl (List.mem_map_of_mem hm)
    · exact .inr (Nat.zero_sub base)

/-! ## Samples -/

/-- The memory readings taken, in bytes. -/
def memories (ticks : List Tick) : List ℕ := ticks.filterMap fun tick => tick.memory.map (·.toNat)

def disks (ticks : List Tick) : List ℕ := ticks.filterMap fun tick => tick.disk.map (·.toNat)

theorem memories_snoc (ticks : List Tick) (tick : Tick) :
    memories (ticks ++ [tick]) = memories ticks ++ (tick.memory.map (·.toNat)).toList := by
  cases h : tick.memory <;> simp [memories, h]

theorem disks_snoc (ticks : List Tick) (tick : Tick) :
    disks (ticks ++ [tick]) = disks ticks ++ (tick.disk.map (·.toNat)).toList := by
  cases h : tick.disk <;> simp [disks, h]

theorem toNat_max (a b : UInt64) : (max a b).toNat = max a.toNat b.toNat := by
  by_cases h : a ≤ b
  · have hmax : max a b = b := if_pos h
    rw [hmax, max_eq_right (UInt64.le_iff_toNat_le.1 h)]
  · have hmax : max a b = a := if_neg h
    rw [hmax, max_eq_left]
    exact Nat.le_of_not_le fun hle => h (UInt64.le_iff_toNat_le.2 hle)

/-- What `std::max` makes of a peak, if a sample is taken. -/
theorem IsPeak.sample {vs : List ℕ} {n : UInt64} (h : IsPeak vs n.toNat) (sample : Option UInt64) :
    IsPeak (vs ++ (sample.map (·.toNat)).toList) (sample.elim n (max n)).toNat := by
  cases sample with
  | none => simpa using h
  | some v =>
    rw [Option.elim_some, toNat_max]
    exact h.snoc v.toNat

section
variable {σ : Type} {rnd : ℚ → ℚ} {next : Supply σ} {config : Config}

/-- A turn takes its samples once, after its writes. -/
theorem iteration_samples {fuel : Nat} {s s' : State σ} {tick : Tick}
    (h : iteration rnd next config fuel s tick = .ok s') :
    s'.maxMemoryUsage = tick.memory.elim s.maxMemoryUsage (max s.maxMemoryUsage) ∧
      s'.maxDiskUsage = tick.disk.elim s.maxDiskUsage (max s.maxDiskUsage) := by
  unfold iteration at h
  cases hd : drain rnd next fuel { s with prevTime := tick.currentTime, pending := due rnd config s tick } with
  | error stop => rw [hd] at h; cases h
  | ok t =>
    rw [hd] at h
    obtain ⟨⟨hmem, hdisk⟩, -⟩ := drain_induct
      (I := fun t => t.maxMemoryUsage = s.maxMemoryUsage ∧ t.maxDiskUsage = s.maxDiskUsage)
      (fun t u ht _ hw => by obtain ⟨_, _, _, -, rfl⟩ := write_ok hw; exact ht) hd ⟨rfl, rfl⟩
    rw [← Except.ok.inj h, ← hmem, ← hdisk]
    exact ⟨rfl, rfl⟩

/-- What the loop has kept of the samples in `ticks`. -/
structure Kept (ticks : List Tick) (s : State σ) : Prop where
  memory : IsPeak (memories ticks) s.maxMemoryUsage.toNat
  disk : IsPeak (disks ticks) s.maxDiskUsage.toNat

theorem kept_run {fuel : Nat} {startTime : Int} {random : σ} {ticks : List Tick} {s : State σ}
    (h : Lib.run (iteration rnd next config fuel) (start startTime random) ticks = .ok s) : Kept ticks s := by
  have hstart : Kept [] (start startTime random) := ⟨isPeak_nil, isPeak_nil⟩
  refine Lib.run_history Kept hstart ?_ h
  rintro ticks s tick s' ⟨hm, hd⟩ hi
  obtain ⟨hmem, hdisk⟩ := iteration_samples hi
  refine ⟨?_, ?_⟩
  · rw [hmem, memories_snoc]
    exact hm.sample tick.memory
  · rw [hdisk, disks_snoc]
    exact hd.sample tick.disk

end

/-! ## What is printed -/

/-- The growth above `startMemory`, under its label and in the last line, and the
disk usage are the peaks of the samples. -/
structure TruePeaks (startMemory : UInt64) (ticks : List Tick) (r : Report) : Prop where
  maxMem : IsPeak ((memories ticks).map fun m => m - startMemory.toNat) r.maxMem.toNat
  summary : ∃ growth, IsPeak ((memories ticks).map fun m => m - startMemory.toNat) growth ∧
    r.summary.maxMem = megabytes growth
  maxDisk : IsPeak (disks ticks) r.maxDisk.toNat

/-- A sample is not below `startMemory`, and growth and disk usage fit in 32 bits. -/
structure Reportable (startMemory : UInt64) (ticks : List Tick) : Prop where
  reached : startMemory = 0 ∨ ∃ m ∈ memories ticks, startMemory.toNat ≤ m
  growth : ∀ m ∈ memories ticks, m - startMemory.toNat < 2 ^ 32
  disk : ∀ d ∈ disks ticks, d < 2 ^ 32

/-- A peak not below `startMemory` is reported as far as 32 bits go. -/
theorem truePeaks_of_reached {σ : Type} {ticks : List Tick} {s : State σ} (h : Kept ticks s) {readings : Readings}
    (hle : readings.startMemory ≤ s.maxMemoryUsage) :
    TruePeaks readings.startMemory ticks (report readings s) ↔
      (∀ m ∈ memories ticks, m - readings.startMemory.toNat < 2 ^ 32) ∧ ∀ d ∈ disks ticks, d < 2 ^ 32 := by
  have hgrowth := h.memory.sub readings.startMemory.toNat
  have hmem : (report readings s).maxMem.toNat = (s.maxMemoryUsage.toNat - readings.startMemory.toNat) % 2 ^ 32 :=
    toNat_narrow_sub hle
  have hdisk : (report readings s).maxDisk.toNat = s.maxDiskUsage.toNat % 2 ^ 32 := UInt64.toNat_toUInt32 _
  have hmem_iff := hgrowth.narrow_iff
  rw [List.forall_mem_map] at hmem_iff
  constructor
  · rintro ⟨hm, -, hd⟩
    rw [hmem] at hm
    rw [hdisk] at hd
    exact ⟨hmem_iff.1 hm, h.disk.narrow_iff.1 hd⟩
  · rintro ⟨hm, hd⟩
    refine ⟨?_, ⟨_, hgrowth, ?_⟩, ?_⟩
    · rw [hmem]
      exact hmem_iff.2 hm
    · exact congrArg megabytes (UInt64.toNat_sub_of_le _ _ hle)
    · rw [hdisk]
      exact h.disk.narrow_iff.2 hd

/-- A peak below `startMemory` is reported as a growth near 2^64. -/
theorem not_truePeaks {σ : Type} {ticks : List Tick} {s : State σ} (h : Kept ticks s) {readings : Readings}
    (hlt : s.maxMemoryUsage < readings.startMemory) : ¬ TruePeaks readings.startMemory ticks (report readings s) := by
  rintro ⟨-, ⟨growth, hgrowth, hsummary⟩, -⟩
  rw [UInt64.lt_iff_toNat_lt] at hlt
  have hzero : growth = 0 := by
    rw [hgrowth.unique (h.memory.sub readings.startMemory.toNat)]
    omega
  have hpos : 0 < (s.maxMemoryUsage - readings.startMemory).toNat := by
    have hbound := readings.startMemory.toNat_lt
    rw [UInt64.toNat_sub]
    omega
  have hne := (megabytes_pos hpos).ne'
  rw [hzero, megabytes_zero] at hsummary
  exact hne hsummary

theorem reached_iff {σ : Type} {ticks : List Tick} {s : State σ} (h : Kept ticks s) (startMemory : UInt64) :
    (startMemory = 0 ∨ ∃ m ∈ memories ticks, startMemory.toNat ≤ m) ↔ startMemory ≤ s.maxMemoryUsage := by
  rw [UInt64.le_iff_toNat_le]
  constructor
  · rintro (rfl | ⟨m, hm, hle⟩)
    · exact Nat.zero_le _
    · exact hle.trans (h.memory.le m hm)
  · intro hle
    rcases h.memory.mem with hm | hzero
    · exact .inr ⟨_, hm, hle⟩
    · exact .inl (UInt64.toNat_inj.1 (by rw [UInt64.toNat_zero]; omega))

/-- The peaks reported at the end of a run are the true ones exactly when memory
was sampled at its size before the loop or above, and growth and disk usage stay
below 2^32. -/
theorem truePeaks_iff (distribution : UniformInt) (config : Config) (fuel : Nat) (random : Random) (ticks : List Tick)
    (readings : Readings) (s : State Random)
    (h : writeBenchmark distribution config fuel readings.startTime random ticks = .ok s) :
    TruePeaks readings.startMemory (turns config readings.startTime ticks) (report readings s) ↔
      Reportable readings.startMemory (turns config readings.startTime ticks) := by
  obtain ⟨cache, random', -, hloop⟩ := writeBenchmark_ok h
  have hk : Kept (turns config readings.startTime ticks) s := kept_run hloop
  constructor
  · intro ht
    have hle : readings.startMemory ≤ s.maxMemoryUsage := UInt64.not_lt.1 fun hlt => not_truePeaks hk hlt ht
    obtain ⟨hm, hd⟩ := (truePeaks_of_reached hk hle).1 ht
    exact ⟨(reached_iff hk _).2 hle, hm, hd⟩
  · rintro ⟨hreached, hm, hd⟩
    exact (truePeaks_of_reached hk ((reached_iff hk _).1 hreached)).2 ⟨hm, hd⟩

/-- A turn without time draws nothing. -/
theorem iteration_now {config : Config} (next : Supply Random) (random : Random) (memory disk : UInt64) :
    iteration binary64 next config 0 (start 0 random) ⟨0, some memory, some disk⟩ =
      .ok ⟨0, 0, 0, max 0 memory, max 0 disk, random, [.update]⟩ := by
  have hnone : (microseconds 0).toNat = 0 := by decide
  have hdue : due binary64 config (start 0 random) ⟨0, some memory, some disk⟩ = 0 := by
    simp [due, credit, start, binary64, hnone, Lib.roundTo_zero]
  unfold iteration
  rw [hdue]
  simp [drain, start, State.sample]

theorem init_nothing (distribution : UniformInt) (seconds : UInt32) (random : Random) :
    RandomBlobCache.init distribution { randomBlobCacheSize := 0, writeRunSeconds := seconds } random =
      .ok (⟨[], Nat.two_pow_pos 60⟩, random) := by
  have hbounds : (5000 : UInt64) ≤ 15000 := by decide
  unfold RandomBlobCache.init
  rw [if_pos hbounds]
  rfl

theorem truePeaks_one_sample :
    let readings : Readings := ⟨1000, 0, {}, {}, 1000000000⟩
    let config : Config := { randomBlobCacheSize := 0, writeRunSeconds := 1 }
    ∃ s, writeBenchmark .reduce config 0 0 (fun _ => 0) [⟨0, some 5000, some 300⟩] = .ok s ∧
      TruePeaks readings.startMemory (turns config 0 [⟨0, some 5000, some 300⟩]) (report readings s) := by
  intro readings config
  have hturns : turns config 0 [⟨0, some 5000, some 300⟩] = [⟨0, some 5000, some 300⟩] :=
    turns_eq_self (by decide)
  have hrun : writeBenchmark .reduce config 0 0 (fun _ => 0) [⟨0, some 5000, some 300⟩] =
      .ok ⟨0, 0, 0, max 0 5000, max 0 300, fun _ => 0, [.update]⟩ := by
    rw [writeBenchmark_eq, init_nothing]
    simp only [loop, hturns]
    exact Lib.run_cons_ok (iteration_now _ _ 5000 300) []
  refine ⟨_, hrun, (truePeaks_iff .reduce config 0 (fun _ => 0) _ readings _ hrun).2 ?_⟩
  rw [hturns]
  exact ⟨.inr (by decide), by decide, by decide⟩

/-- Without a turn there is no sample. -/
theorem unsampled_peak : ¬ ∀ (distribution : UniformInt) (config : Config) (fuel : Nat) (random : Random)
    (ticks : List Tick) (readings : Readings) (s : State Random),
    writeBenchmark distribution config fuel readings.startTime random ticks = .ok s →
    TruePeaks readings.startMemory (turns config readings.startTime ticks) (report readings s) := by
  intro h
  let config : Config := { randomBlobCacheSize := 0, writeRunSeconds := 0 }
  let readings : Readings := ⟨getCurrentMemoryUsage 1000 4096, 0, {}, {}, 1000⟩
  let random : Random := fun _ => 0
  have hk : Kept [] (start 0 random) := ⟨isPeak_nil, isPeak_nil⟩
  have hrun : writeBenchmark .reduce config 0 0 random [] = .ok (start 0 random) := by
    rw [writeBenchmark_eq, init_nothing]
    rfl
  exact not_truePeaks hk (by decide) (h .reduce config 0 random [] readings _ hrun)

end JellyBench.Peaks
