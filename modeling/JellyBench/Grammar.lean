import JellyBench.Config
/-!
# The grammar of the command line

A command line is a sequence of options, each with its value. `spells_or_rejects`
says that every other list of arguments is refused; `Means` is what the options
come to, by their last values.
-/
open JellyBench.Config

namespace JellyBench.Grammar

/-! ## Pairs of arguments -/

/-- The arguments of a sequence of options with their values. -/
def flatten (pairs : List (String × String)) : List String := pairs.flatMap fun p => [p.1, p.2]

/-- `args` are these options and values, and nothing else. -/
structure Spells (pairs : List (String × String)) (args : List String) : Prop where
  args : args = flatten pairs
  dash : ∀ p ∈ pairs, firstChar p.1 = '-'
  value : ∀ p ∈ pairs, firstChar p.2 ≠ '-'

/-- The names of the options, with their values. -/
def named (pairs : List (String × String)) : List (String × String) := pairs.map fun p => (afterFirst p.1, p.2)

theorem flatten_injective {pairs pairs' : List (String × String)} (h : flatten pairs = flatten pairs') :
    pairs = pairs' := by
  induction pairs generalizing pairs' with
  | nil =>
    cases pairs' with
    | nil => rfl
    | cons p pairs' => cases h
  | cons p pairs ih =>
    cases pairs' with
    | nil => cases h
    | cons p' pairs' =>
      obtain ⟨h1, h2, hrest⟩ : p.1 = p'.1 ∧ p.2 = p'.2 ∧ flatten pairs = flatten pairs' := by
        simpa [flatten] using h
      rw [ih hrest, Prod.ext h1 h2]

theorem options_flatten (pairs : List (String × String)) : options (flatten pairs) = named pairs := by
  induction pairs with
  | nil => rfl
  | cons p pairs ih => exact congrArg (List.cons (afterFirst p.1, p.2)) ih

/-! ## Acceptance -/

section
variable (atoi : String → Int32)

theorem spells_cons {a v : String} {args : List String} {pairs : List (String × String)} (ha : firstChar a = '-')
    (hv : firstChar v ≠ '-') (h : Spells pairs args) : Spells ((a, v) :: pairs) (a :: v :: args) where
  args := by rw [h.args]; rfl
  dash := List.forall_mem_cons.2 ⟨ha, h.dash⟩
  value := List.forall_mem_cons.2 ⟨hv, h.value⟩

/-- The parser's one way out of a list that is not a sequence of pairs. -/
theorem spells_or_rejects (config : Config) (args : List String) :
    (∃ pairs, Spells pairs args) ∨ initFromCommandLine atoi config args = .error (.assertion "Syntax error.") := by
  fun_induction initFromCommandLine atoi config args with
  | case1 config => exact .inl ⟨[], rfl, by simp, by simp⟩
  | case2 config a =>
    right
    cases hd : decide (firstChar a = '-') <;> rfl
  | case3 config a v args ih =>
    by_cases ha : firstChar a = '-'
    · by_cases hv : firstChar v ≠ '-'
      · simp only [ha, hv, decide_true, alwaysAssert_true, Bind.bind, Except.bind, ne_eq, not_false_eq_true, if_true]
        rcases ih with ⟨pairs, hp⟩ | hrejects
        · exact .inl ⟨_, spells_cons ha hv hp⟩
        · exact .inr hrejects
      · right
        simp [ha, hv, Bind.bind, Except.bind]
    · right
      simp [ha, Bind.bind, Except.bind]

theorem init_flatten {pairs : List (String × String)} (hdash : ∀ p ∈ pairs, firstChar p.1 = '-')
    (hvalue : ∀ p ∈ pairs, firstChar p.2 ≠ '-') (config : Config) :
    ∃ config', initFromCommandLine atoi config (flatten pairs) = .ok config' := by
  induction pairs generalizing config with
  | nil => exact ⟨config, rfl⟩
  | cons p pairs ih =>
    obtain ⟨ha, hdash⟩ := List.forall_mem_cons.1 hdash
    obtain ⟨hv, hvalue⟩ := List.forall_mem_cons.1 hvalue
    obtain ⟨config', hc⟩ := ih hdash hvalue (config.setOption atoi (afterFirst p.1) p.2)
    refine ⟨config', ?_⟩
    rw [← hc]
    simp [flatten, initFromCommandLine, ha, hv, Bind.bind, Except.bind]

/-! ## Meaning -/

/-- The options that are fields of the configuration. -/
def fieldNames : List String :=
  ["min_blob_size", "max_blob_size", "random_blob_cache_size", "blob_key_count", "rocksdb_compression",
    "write_backend", "write_rate", "write_run_seconds"]

/-- The value of the last pair that names the option, converted, or the default. -/
def fieldOr {β : Type} (pairs : List (String × String)) (name : String) (read : String → β) (default : β) : β :=
  (((Lib.last Prod.fst (named pairs) name).map Prod.snd).map read).getD default

/-- Every field has its last value or its default, and the other options are the
calls of `SetString`, in order. -/
structure Means (pairs : List (String × String)) (config : Config) : Prop where
  minBlobSize : config.minBlobSize = fieldOr pairs "min_blob_size" (fun v => sizeOfInt (atoi v)) 5000
  maxBlobSize : config.maxBlobSize = fieldOr pairs "max_blob_size" (fun v => sizeOfInt (atoi v)) 15000
  randomBlobCacheSize :
    config.randomBlobCacheSize = fieldOr pairs "random_blob_cache_size" (fun v => sizeOfInt (atoi v)) 1000
  blobKeyCount : config.blobKeyCount = fieldOr pairs "blob_key_count" (fun v => sizeOfInt (atoi v)) 10000
  rocksDBCompression : config.rocksDBCompression = fieldOr pairs "rocksdb_compression" id "none"
  writeBackend : config.writeBackend = fieldOr pairs "write_backend" id "jelly"
  writeRate : config.writeRate = fieldOr pairs "write_rate" (fun v => sizeOfInt (atoi v)) 1000
  writeRunSeconds : config.writeRunSeconds = fieldOr pairs "write_run_seconds" (fun v => (atoi v).toUInt32) 10
  jellyConfig : config.jellyConfig = (named pairs).filter fun o => o.1 ∉ fieldNames

/-- Each option of a field has the same values in the same order in both. -/
def SameFieldValues (pairs pairs' : List (String × String)) : Prop :=
  ∀ name ∈ fieldNames, ((named pairs).filter fun o => o.1 = name) = (named pairs').filter fun o => o.1 = name

theorem fieldOr_congr {β : Type} {pairs pairs' : List (String × String)} (h : SameFieldValues pairs pairs')
    {name : String} (hname : name ∈ fieldNames) (read : String → β) (default : β) :
    fieldOr pairs name read default = fieldOr pairs' name read default := by
  unfold fieldOr
  rw [Lib.last_filter (h name hname)]

/-- An option sets the field it names, or is a call of `SetString`. -/
theorem setOption_eq (config : Config) (name value : String) : config.setOption atoi name value = {
    minBlobSize := if name = "min_blob_size" then sizeOfInt (atoi value) else config.minBlobSize
    maxBlobSize := if name = "max_blob_size" then sizeOfInt (atoi value) else config.maxBlobSize
    randomBlobCacheSize :=
      if name = "random_blob_cache_size" then sizeOfInt (atoi value) else config.randomBlobCacheSize
    blobKeyCount := if name = "blob_key_count" then sizeOfInt (atoi value) else config.blobKeyCount
    rocksDBCompression := if name = "rocksdb_compression" then value else config.rocksDBCompression
    writeBackend := if name = "write_backend" then value else config.writeBackend
    writeRate := if name = "write_rate" then sizeOfInt (atoi value) else config.writeRate
    writeRunSeconds := if name = "write_run_seconds" then (atoi value).toUInt32 else config.writeRunSeconds
    jellyConfig := config.jellyConfig ++ if name ∈ fieldNames then [] else [(name, value)] } := by
  by_cases hname : name ∈ fieldNames
  · simp only [fieldNames, List.mem_cons, List.not_mem_nil, or_false] at hname
    rcases hname with rfl | rfl | rfl | rfl | rfl | rfl | rfl | rfl <;> simp [setOption, fieldNames]
  · rw [if_neg hname]
    simp only [fieldNames, List.mem_cons, List.not_mem_nil, or_false, not_or] at hname
    obtain ⟨h1, h2, h3, h4, h5, h6, h7, h8⟩ := hname
    simp only [setOption, DefaultConfigSource.setString, if_neg h1, if_neg h2, if_neg h3, if_neg h4, if_neg h5,
      if_neg h6, if_neg h7, if_neg h8]

theorem field_eq {β : Type} (field : Config → β) (name : String) (read : String → β)
    (hset : ∀ c n v, field (setOption atoi c n v) = if n = name then read v else field c)
    {pairs : List (String × String)} {config : Config} (h : initFromCommandLine atoi {} (flatten pairs) = .ok config) :
    field config = fieldOr pairs name read (field {}) := by
  rw [field_last atoi field name read hset h]
  unfold lastOption fieldOr
  rw [options_flatten]

theorem jellyConfig_eq {pairs : List (String × String)} {config : Config}
    (h : initFromCommandLine atoi {} (flatten pairs) = .ok config) :
    config.jellyConfig = (named pairs).filter fun o => o.1 ∉ fieldNames := by
  rw [initFromCommandLine_ok atoi h, options_flatten]
  have hfold : ∀ (os : List (String × String)) (c : Config),
      (os.foldl (fun c o => c.setOption atoi o.1 o.2) c).jellyConfig =
        c.jellyConfig ++ os.filter fun o => o.1 ∉ fieldNames := by
    intro os
    induction os with
    | nil => simp
    | cons o os ih =>
      intro c
      rw [List.foldl_cons, ih, setOption_eq]
      by_cases ho : o.1 ∈ fieldNames <;> simp [ho]
  rw [hfold]
  rfl

theorem means {pairs : List (String × String)} {config : Config}
    (h : initFromCommandLine atoi {} (flatten pairs) = .ok config) : Means atoi pairs config where
  minBlobSize := field_eq atoi _ _ _ (fun c n v => congrArg (·.minBlobSize) (setOption_eq atoi c n v)) h
  maxBlobSize := field_eq atoi _ _ _ (fun c n v => congrArg (·.maxBlobSize) (setOption_eq atoi c n v)) h
  randomBlobCacheSize := field_eq atoi _ _ _ (fun c n v => congrArg (·.randomBlobCacheSize) (setOption_eq atoi c n v)) h
  blobKeyCount := field_eq atoi _ _ _ (fun c n v => congrArg (·.blobKeyCount) (setOption_eq atoi c n v)) h
  rocksDBCompression := field_eq atoi _ _ _ (fun c n v => congrArg (·.rocksDBCompression) (setOption_eq atoi c n v)) h
  writeBackend := field_eq atoi _ _ _ (fun c n v => congrArg (·.writeBackend) (setOption_eq atoi c n v)) h
  writeRate := field_eq atoi _ _ _ (fun c n v => congrArg (·.writeRate) (setOption_eq atoi c n v)) h
  writeRunSeconds := field_eq atoi _ _ _ (fun c n v => congrArg (·.writeRunSeconds) (setOption_eq atoi c n v)) h
  jellyConfig := jellyConfig_eq atoi h

theorem Means.same_fields {pairs pairs' : List (String × String)} {config config' : Config}
    (h : Means atoi pairs config) (h' : Means atoi pairs' config') (hs : SameFieldValues pairs pairs') :
    { config with jellyConfig := [] } = { config' with jellyConfig := [] } := by
  rw [h.minBlobSize, h.maxBlobSize, h.randomBlobCacheSize, h.blobKeyCount, h.rocksDBCompression, h.writeBackend,
    h.writeRate, h.writeRunSeconds, h'.minBlobSize, h'.maxBlobSize, h'.randomBlobCacheSize, h'.blobKeyCount,
    h'.rocksDBCompression, h'.writeBackend, h'.writeRate, h'.writeRunSeconds]
  simp only [Config.mk.injEq, true_and]
  refine ⟨?_, ?_, ?_, ?_, ?_, ?_, ?_, ?_⟩ <;> apply fieldOr_congr hs <;> simp [fieldNames]

/-- The command lines accepted are the sequences of options with values. There is
one way to read such a sequence, its last values count, and how the pairs of
different options are ordered makes no difference to the fields. -/
theorem accepts_grammar (args : List String) :
    ((∃ config, initFromCommandLine atoi {} args = .ok config) ↔ ∃ pairs, Spells pairs args) ∧
    ((¬ ∃ pairs, Spells pairs args) → initFromCommandLine atoi {} args = .error (.assertion "Syntax error.")) ∧
    ∀ pairs, Spells pairs args →
      (∀ pairs', Spells pairs' args → pairs' = pairs) ∧
      ∃ config, initFromCommandLine atoi {} args = .ok config ∧ Means atoi pairs config ∧
        ∀ pairs' args' config', Spells pairs' args' → SameFieldValues pairs pairs' →
          initFromCommandLine atoi {} args' = .ok config' →
            { config with jellyConfig := [] } = { config' with jellyConfig := [] } := by
  have haccepts : ∀ pairs, Spells pairs args → ∃ config, initFromCommandLine atoi {} args = .ok config := by
    rintro pairs ⟨rfl, hdash, hvalue⟩
    exact init_flatten atoi hdash hvalue {}
  refine ⟨⟨?_, ?_⟩, ?_, ?_⟩
  · rintro ⟨config, hc⟩
    rcases spells_or_rejects atoi {} args with hp | hrejects
    · exact hp
    · rw [hrejects] at hc
      cases hc
  · rintro ⟨pairs, hp⟩
    exact haccepts pairs hp
  · exact (spells_or_rejects atoi {} args).resolve_left
  · intro pairs hp
    constructor
    · intro pairs' hp'
      exact flatten_injective (hp'.args.symm.trans hp.args)
    · obtain ⟨config, hc⟩ := haccepts pairs hp
      have hmeans : Means atoi pairs config := means atoi (by rw [← hp.args]; exact hc)
      refine ⟨config, hc, hmeans, ?_⟩
      intro pairs' args' config' hp' hs hc'
      exact hmeans.same_fields atoi (means atoi (by rw [← hp'.args]; exact hc')) hs

end

end JellyBench.Grammar
