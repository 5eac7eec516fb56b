import JellyBench.Grammar
import JellyBench.Lib.Scan
/-!
# The configurations there are

A command line gives a configuration by what its options come to, `Options`: every
size is a 32-bit integer cast to `size_t`, and no other value is checked. `commandLine`
writes options out again, negative numbers after a blank that `atoi` skips.
-/
open JellyBench.Config JellyBench.Grammar

namespace JellyBench.Configurations

/-! ## Numbers -/

theorem digits_eq {cs : List Char} (h : ∀ c ∈ cs, c.isDigit = true) (n : ℕ) :
    digits n cs = Nat.ofDigitChars 10 cs n := by
  induction cs generalizing n with
  | nil => simp [digits]
  | cons c cs ih =>
    obtain ⟨hc, hcs⟩ := List.forall_mem_cons.1 h
    have hdigit : ('0' ≤ c && c ≤ '9') = true := by simpa [Char.isDigit, Char.le_def] using hc
    rw [digits, if_pos hdigit, ih hcs, Nat.ofDigitChars_cons]

theorem digits_toDigits (n : ℕ) : digits 0 (Nat.toDigits 10 n) = n := by
  rw [digits_eq (Lib.Scan.numeral_toDigits n).digits, Nat.ofDigitChars_ten_toDigits]

/-- A text for a number, as the value of an option. -/
def intText (i : Int32) : String :=
  if i.toInt < 0 then " -" ++ i.toInt.natAbs.repr else i.toInt.natAbs.repr

theorem atoi_intText (i : Int32) : atoi (intText i) = i := by
  unfold intText
  obtain ⟨c, hc, hdigit⟩ := (Lib.Scan.numeral_toDigits i.toInt.natAbs).head []
  rw [List.append_nil] at hc
  obtain ⟨cs, hcs⟩ := List.head?_eq_some_iff.1 hc
  have hspace := isSpace_digit hdigit
  have hminus : c ≠ '-' := by rintro rfl; contradiction
  have hplus : c ≠ '+' := by rintro rfl; contradiction
  have hdigits := digits_toDigits i.toInt.natAbs
  split_ifs with h
  · have hlist : (" -" ++ i.toInt.natAbs.repr).toList = ' ' :: '-' :: Nat.toDigits 10 i.toInt.natAbs := by
      simp [Nat.toList_repr]
    have hneg : -((i.toInt.natAbs : ℕ) : ℤ) = i.toInt := by omega
    have hblank : isSpace ' ' = true := by decide
    have hdash : isSpace '-' = false := by decide
    simp only [atoi, hlist, List.dropWhile_cons, hblank, hdash, if_true, Bool.false_eq_true, if_false, hdigits, hneg,
      Int32.ofInt_toInt]
  · have hpos : ((i.toInt.natAbs : ℕ) : ℤ) = i.toInt := by omega
    have hdrop : i.toInt.natAbs.repr.toList.dropWhile isSpace = c :: cs := by
      rw [Nat.toList_repr, hcs]
      simp [hspace]
    unfold atoi
    rw [hdrop]
    split
    · rename_i heq; cases heq; exact absurd rfl hminus
    · rename_i heq; cases heq; exact absurd rfl hplus
    · rw [← hcs, hdigits, hpos, Int32.ofInt_toInt]

theorem intText_plain (i : Int32) : firstChar (intText i) ≠ '-' := by
  unfold intText
  split_ifs with h
  · simp [firstChar]
  · obtain ⟨c, hc, hdigit⟩ := (Lib.Scan.numeral_toDigits i.toInt.natAbs).head []
    rw [List.append_nil] at hc
    obtain ⟨cs, hcs⟩ := List.head?_eq_some_iff.1 hc
    have hminus : c ≠ '-' := by rintro rfl; contradiction
    simpa [firstChar, Nat.toList_repr, hcs] using hminus

/-! ## Options -/

/-- What the options of a command line come to. -/
structure Options where
  minBlobSize : Int32 := 5000
  maxBlobSize : Int32 := 15000
  randomBlobCacheSize : Int32 := 1000
  blobKeyCount : Int32 := 10000
  rocksDBCompression : String := "none"
  writeBackend : String := "jelly"
  writeRate : Int32 := 1000
  writeRunSeconds : Int32 := 10
  jelly : List (String × String) := []
  rocksDBCompression_plain : firstChar rocksDBCompression ≠ '-' := by decide
  writeBackend_plain : firstChar writeBackend ≠ '-' := by decide
  jelly_plain : ∀ p ∈ jelly, firstChar p.2 ≠ '-'
  jelly_names : ∀ p ∈ jelly, p.1 ∉ fieldNames

namespace Options

def config (o : Options) : Config where
  minBlobSize := sizeOfInt o.minBlobSize
  maxBlobSize := sizeOfInt o.maxBlobSize
  randomBlobCacheSize := sizeOfInt o.randomBlobCacheSize
  blobKeyCount := sizeOfInt o.blobKeyCount
  jellyConfig := o.jelly
  rocksDBCompression := o.rocksDBCompression
  writeBackend := o.writeBackend
  writeRate := sizeOfInt o.writeRate
  writeRunSeconds := o.writeRunSeconds.toUInt32

/-- Every option by its name, with a text for its value. -/
def settings (o : Options) : List (String × String) :=
  [("min_blob_size", intText o.minBlobSize), ("max_blob_size", intText o.maxBlobSize),
    ("random_blob_cache_size", intText o.randomBlobCacheSize), ("blob_key_count", intText o.blobKeyCount),
    ("rocksdb_compression", o.rocksDBCompression), ("write_backend", o.writeBackend),
    ("write_rate", intText o.writeRate), ("write_run_seconds", intText o.writeRunSeconds)] ++ o.jelly

def pairs (o : Options) : List (String × String) := o.settings.map fun p => ("-" ++ p.1, p.2)

/-- The arguments that give these options. -/
def commandLine (o : Options) : List String := flatten o.pairs

end Options

/-- Options that are no fields go to `SetString`, in order. -/
theorem foldl_jelly (atoi : String → Int32) {jelly : List (String × String)} (h : ∀ p ∈ jelly, p.1 ∉ fieldNames)
    (config : Config) : jelly.foldl (fun c p => c.setOption atoi p.1 p.2) config =
      { config with jellyConfig := config.jellyConfig ++ jelly } := by
  induction jelly generalizing config with
  | nil => simp
  | cons p jelly ih =>
    obtain ⟨hp, h⟩ := List.forall_mem_cons.1 h
    have hset : config.setOption atoi p.1 p.2 = { config with jellyConfig := config.jellyConfig ++ [p] } := by
      rw [setOption_eq, if_neg hp]
      simp only [fieldNames, List.mem_cons, List.not_mem_nil, or_false, not_or] at hp
      obtain ⟨h1, h2, h3, h4, h5, h6, h7, h8⟩ := hp
      simp only [if_neg h1, if_neg h2, if_neg h3, if_neg h4, if_neg h5, if_neg h6, if_neg h7, if_neg h8]
    rw [List.foldl_cons, hset, ih h]
    simp

theorem firstChar_dash (name : String) : firstChar ("-" ++ name) = '-' := by simp [firstChar]

theorem afterFirst_dash (name : String) : afterFirst ("-" ++ name) = name := by simp [afterFirst]

theorem Options.named_pairs (o : Options) : named o.pairs = o.settings := by
  simp [named, Options.pairs, Function.comp_def, afterFirst_dash]

theorem Options.settings_plain (o : Options) : ∀ p ∈ o.settings, firstChar p.2 ≠ '-' := by
  unfold Options.settings
  rw [List.forall_mem_append]
  refine ⟨?_, o.jelly_plain⟩
  simp [intText_plain, o.rocksDBCompression_plain, o.writeBackend_plain]

theorem Options.spells (o : Options) : Spells o.pairs o.commandLine where
  args := rfl
  dash := by
    unfold Options.pairs
    rw [List.forall_mem_map]
    exact fun p _ => firstChar_dash p.1
  value := by
    unfold Options.pairs
    rw [List.forall_mem_map]
    exact o.settings_plain

/-- The arguments are read back as the options they are written for. -/
theorem init_commandLine (o : Options) : initFromCommandLine atoi {} o.commandLine = .ok o.config := by
  obtain ⟨config, hc⟩ := init_flatten atoi o.spells.dash o.spells.value {}
  have hfold := initFromCommandLine_ok atoi hc
  rw [options_flatten, o.named_pairs, Options.settings, List.foldl_append, foldl_jelly atoi o.jelly_names] at hfold
  rw [Options.commandLine, hc, hfold]
  simp [setOption, atoi_intText, Options.config]

/-! ## What can be given -/

section
variable {pairs : List (String × String)}

/-- A cast after `atoi` is one of a 32-bit integer. -/
theorem fieldOr_atoi {β : Type} (cast : Int32 → β) (name : String) (default : Int32) :
    fieldOr pairs name (fun v => cast (atoi v)) (cast default) = cast (fieldOr pairs name atoi default) := by
  unfold fieldOr
  cases Lib.last Prod.fst (named pairs) name <;> rfl

theorem fieldOr_plain (h : ∀ p ∈ pairs, firstChar p.2 ≠ '-') (name : String) {default : String}
    (hdefault : firstChar default ≠ '-') : firstChar (fieldOr pairs name id default) ≠ '-' := by
  unfold fieldOr
  cases hl : Lib.last Prod.fst (named pairs) name with
  | none => exact hdefault
  | some p =>
    obtain ⟨hmem, -⟩ := Lib.last_mem hl
    obtain ⟨q, hq, rfl⟩ := List.mem_map.1 hmem
    exact h q hq

/-- The options a sequence of pairs comes to. -/
theorem options_of_means (h : ∀ p ∈ pairs, firstChar p.2 ≠ '-') {config : Config} (hm : Means atoi pairs config) :
    ∃ o : Options, o.config = config := by
  refine ⟨{
    minBlobSize := fieldOr pairs "min_blob_size" atoi 5000
    maxBlobSize := fieldOr pairs "max_blob_size" atoi 15000
    randomBlobCacheSize := fieldOr pairs "random_blob_cache_size" atoi 1000
    blobKeyCount := fieldOr pairs "blob_key_count" atoi 10000
    rocksDBCompression := fieldOr pairs "rocksdb_compression" id "none"
    writeBackend := fieldOr pairs "write_backend" id "jelly"
    writeRate := fieldOr pairs "write_rate" atoi 1000
    writeRunSeconds := fieldOr pairs "write_run_seconds" atoi 10
    jelly := (named pairs).filter fun o => o.1 ∉ fieldNames
    rocksDBCompression_plain := fieldOr_plain h _ (by decide)
    writeBackend_plain := fieldOr_plain h _ (by decide)
    jelly_plain := ?_
    jelly_names := fun p hp => by simpa using (List.mem_filter.1 hp).2 }, ?_⟩
  · intro p hp
    obtain ⟨q, hq, rfl⟩ := List.mem_map.1 (List.mem_of_mem_filter hp)
    exact h q hq
  · obtain ⟨h1, h2, h3, h4, h5, h6, h7, h8, h9⟩ := hm
    cases config
    simp only at h1 h2 h3 h4 h5 h6 h7 h8 h9
    subst h1 h2 h3 h4 h5 h6 h7 h8 h9
    simp only [Options.config, ← fieldOr_atoi]
    rfl

end

/-- A `size_t` that an `int` is cast to. -/
def OfInt (size : UInt64) : Prop := size.toNat < 2 ^ 31 ∨ 2 ^ 64 - 2 ^ 31 ≤ size.toNat

theorem toNat_sizeOfInt (i : Int32) : ((sizeOfInt i).toNat : ℤ) = i.toInt % 2 ^ 64 := by
  have hlt : i.toInt % 2 ^ 64 < 2 ^ 64 := Int.emod_lt_of_pos _ (by decide)
  have hnonneg : 0 ≤ i.toInt % 2 ^ 64 := Int.emod_nonneg _ (by decide)
  rw [sizeOfInt, UInt64.ofInt, UInt64.toNat_ofNat', Nat.mod_eq_of_lt (by omega), Int.toNat_of_nonneg hnonneg]

theorem ofInt_iff {size : UInt64} : OfInt size ↔ ∃ i, sizeOfInt i = size := by
  unfold OfInt
  constructor
  · intro h
    -- The number itself, or as much below 2^64.
    have hi : ∃ i : ℤ, -2 ^ 31 ≤ i ∧ i < 2 ^ 31 ∧ i % 2 ^ 64 = size.toNat := by
      have hlt := size.toNat_lt
      rcases h with h | h
      · exact ⟨size.toNat, by omega, by omega, by omega⟩
      · exact ⟨size.toNat - 2 ^ 64, by omega, by omega, by omega⟩
    obtain ⟨i, hlo, hhi, hmod⟩ := hi
    refine ⟨.ofInt i, UInt64.toNat_inj.1 ?_⟩
    have hsize := toNat_sizeOfInt (.ofInt i)
    rw [Int32.toInt_ofInt_of_le hlo hhi, hmod] at hsize
    exact_mod_cast hsize
  · rintro ⟨i, rfl⟩
    have hsize := toNat_sizeOfInt i
    have hlo := i.le_toInt
    have hhi := i.toInt_lt
    omega

/-- What the values of options can be, which is all that is known of them. -/
structure Given (config : Config) : Prop where
  minBlobSize : OfInt config.minBlobSize
  maxBlobSize : OfInt config.maxBlobSize
  randomBlobCacheSize : OfInt config.randomBlobCacheSize
  blobKeyCount : OfInt config.blobKeyCount
  rocksDBCompression : firstChar config.rocksDBCompression ≠ '-'
  writeBackend : firstChar config.writeBackend ≠ '-'
  writeRate : OfInt config.writeRate
  jellyConfig : ∀ p ∈ config.jellyConfig, p.1 ∉ fieldNames ∧ firstChar p.2 ≠ '-'

theorem Options.given (o : Options) : Given o.config :=
  ⟨ofInt_iff.2 ⟨_, rfl⟩, ofInt_iff.2 ⟨_, rfl⟩, ofInt_iff.2 ⟨_, rfl⟩, ofInt_iff.2 ⟨_, rfl⟩, o.rocksDBCompression_plain,
    o.writeBackend_plain, ofInt_iff.2 ⟨_, rfl⟩, fun p hp => ⟨o.jelly_names p hp, o.jelly_plain p hp⟩⟩

theorem Given.options {config : Config} (h : Given config) : ∃ o : Options, o.config = config := by
  obtain ⟨minBlobSize, hmin⟩ := ofInt_iff.1 h.minBlobSize
  obtain ⟨maxBlobSize, hmax⟩ := ofInt_iff.1 h.maxBlobSize
  obtain ⟨randomBlobCacheSize, hcache⟩ := ofInt_iff.1 h.randomBlobCacheSize
  obtain ⟨blobKeyCount, hkeys⟩ := ofInt_iff.1 h.blobKeyCount
  obtain ⟨writeRate, hrate⟩ := ofInt_iff.1 h.writeRate
  refine ⟨{
    minBlobSize, maxBlobSize, randomBlobCacheSize, blobKeyCount, writeRate
    rocksDBCompression := config.rocksDBCompression
    writeBackend := config.writeBackend
    writeRunSeconds := config.writeRunSeconds.toInt32
    jelly := config.jellyConfig
    rocksDBCompression_plain := h.rocksDBCompression
    writeBackend_plain := h.writeBackend
    jelly_plain := fun p hp => (h.jellyConfig p hp).2
    jelly_names := fun p hp => (h.jellyConfig p hp).1 }, ?_⟩
  simp only [Options.config, hmin, hmax, hcache, hkeys, hrate, UInt32.toUInt32_toInt32]

/-- The configurations that can be given are those whose sizes are an `int` cast to
`size_t` and whose strings can be values. A command line written out for options is
read back as their configuration. -/
theorem given_iff (config : Config) :
    ((∃ args, initFromCommandLine atoi {} args = .ok config) ↔ Given config) ∧
      ∀ o : Options, initFromCommandLine atoi {} o.commandLine = .ok o.config := by
  refine ⟨⟨?_, ?_⟩, init_commandLine⟩
  · rintro ⟨args, h⟩
    rcases spells_or_rejects atoi {} args with ⟨pairs, rfl, -, hvalue⟩ | hrejects
    · obtain ⟨o, rfl⟩ := options_of_means hvalue (means atoi h)
      exact o.given
    · rw [hrejects] at h
      cases h
  · intro h
    obtain ⟨o, rfl⟩ := h.options
    exact ⟨o.commandLine, init_commandLine o⟩

end JellyBench.Configurations
