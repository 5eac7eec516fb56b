import JellyBench.DiskUsage
import JellyBench.Lib.Decimal
/-!
# The output

The program prints a line for each sample of the disk usage, the lines of the report
under their labels, and a last line. The fields of a line are separated by semicolons.
`read` takes the numbers out again, in units of their last decimal.
-/
open JellyBench.WriteBenchmark JellyBench.Report JellyBench.DiskUsage JellyBench.Figures

namespace JellyBench.Output

/-! ## Rows -/

inductive Field where
  /-- `%u` -/
  | uint (x : UInt32)
  /-- `%.df`, and whether the dividend is 0 where `x` is a quotient. -/
  | float (d : ℕ) (x : Option ℚ) (zero : Bool)

/-- A quotient that is not finite is printed as `inf`, or as `nan` for 0 by 0, whose
sign C leaves open. -/
def Field.text (signed : Bool) : Field → List Char
  | .uint x => Lib.decimal 0 x.toNat
  | .float d (some x) _ => Lib.decimal d (units d x)
  | .float _ none zero => if zero then if signed then "-nan".toList else "nan".toList else "inf".toList

/-- A line, which has a field at least. -/
structure Row where
  label : String
  field : Field
  fields : List Field

def Row.text (signed : Bool) (row : Row) : List Char :=
  row.label.toList ++ [';'].intercalate (row.field.text signed :: row.fields.map (Field.text signed))

/-- The last line ends without a line break. -/
def text (signed : Bool) (rows : List Row) : List Char := ['\n'].intercalate (rows.map (Row.text signed))

def curveRow (l : Line) : Row := ⟨"", .uint l.secs, [.float 0 (some l.megabytes) false]⟩

def reportRows (r : Report) : List Row :=
  [⟨"elapsed:     ", .uint r.elapsed, []⟩,
    ⟨"num_writes:  ", .uint r.numWrites, []⟩,
    ⟨"kernel:\t     ", .uint r.kernel, []⟩,
    ⟨"user:\t     ", .uint r.user, []⟩,
    ⟨"total:       ", .uint r.total, []⟩,
    ⟨"avgcpu:      ", .float 6 r.avgcpu (r.total = 0), []⟩,
    ⟨"wrops:       ", .uint r.wrops, []⟩,
    ⟨"wrbytes:     ", .float 0 (some r.wrbytes) false, []⟩,
    ⟨"lwrbytes:    ", .float 0 (some r.lwrbytes) false, []⟩,
    ⟨"wrops/sec:   ", .float 6 r.wropsPerSec (r.wrops = 0), []⟩,
    ⟨"wrbytes/sec: ", .float 6 r.wrbytesPerSec (r.wrbytes = 0), []⟩,
    ⟨"lwrbytes/sec:", .float 6 r.lwrbytesPerSec (r.lwrbytes = 0), []⟩,
    ⟨"max_mem:     ", .uint r.maxMem, []⟩,
    ⟨"max_disk:    ", .uint r.maxDisk, []⟩,
    ⟨"", .float 2 r.summary.avgcpu (r.total = 0),
      [.float 0 r.summary.wropsPerSec (r.wrops = 0),
        .float 2 r.summary.wrMegabytesPerSec (r.wrbytes = 0),
        .float 0 (some r.summary.maxMem) false,
        .float 0 (some r.summary.maxDisk) false,
        .float 2 r.summary.lwrbytesPerWrbyte (r.lwrbytes = 0)]⟩]

/-! ## Reading -/

/-- The numbers of a text by lines and fields. -/
def read (text : List Char) : List (List (Option ℕ)) :=
  (text.splitOn '\n').map fun line => (line.splitOn ';').map Lib.number

/-- What a field has to say. -/
def Field.shown : Field → Option ℕ
  | .uint x => some x.toNat
  | .float d x _ => x.map (units d)

def Row.shown (row : Row) : List (Option ℕ) := row.field.shown :: row.fields.map Field.shown

/-- A label cannot be taken for anything else. -/
def Row.Plain (row : Row) : Prop := ∀ c ∈ row.label.toList, c.isDigit = false ∧ c ≠ ';' ∧ c ≠ '\n'

theorem Field.mem_text {signed : Bool} {f : Field} {c : Char} (h : c ∈ f.text signed) : c ≠ ';' ∧ c ≠ '\n' := by
  have hdecimal : ∀ {d n : ℕ}, c ∈ Lib.decimal d n → c ≠ ';' ∧ c ≠ '\n' := by
    intro d n hc
    rcases Lib.mem_decimal hc with hdigit | rfl
    · exact ⟨by rintro rfl; contradiction, by rintro rfl; contradiction⟩
    · exact ⟨by decide, by decide⟩
  cases f with
  | uint x => exact hdecimal h
  | float d x zero =>
    cases x with
    | some x => exact hdecimal h
    | none =>
      have hall : ∀ b b' : Bool, ∀ c ∈ Field.text b (.float d none b'), c ≠ ';' ∧ c ≠ '\n' := by
        simp [Field.text]
      exact hall _ _ c h

theorem Field.number_text (signed : Bool) (f : Field) {label : List Char} (h : ∀ c ∈ label, c.isDigit = false) :
    Lib.number (label ++ f.text signed) = f.shown := by
  cases f with
  | uint x => exact Lib.number_decimal h 0 x.toNat
  | float d x zero =>
    cases x with
    | some x => exact Lib.number_decimal h d (units d x)
    | none =>
      have hall : ∀ b b' : Bool, ∀ c ∈ Field.text b (.float d none b'), c.isDigit = false := by
        simp [Field.text]
      exact Lib.number_none fun c hc => (List.mem_append.1 hc).elim (h c) (hall _ _ c)

/-- The texts of a row's fields have neither separator in them. -/
theorem Row.mem_fields {signed : Bool} {row : Row} {f : List Char} {c : Char}
    (h : f ∈ row.field.text signed :: row.fields.map (Field.text signed)) (hc : c ∈ f) : c ≠ ';' ∧ c ≠ '\n' := by
  rw [← List.map_cons] at h
  obtain ⟨g, -, rfl⟩ := List.mem_map.1 h
  exact Field.mem_text hc

theorem Row.read_text (signed : Bool) {row : Row} (h : row.Plain) :
    ((row.text signed).splitOn ';').map Lib.number = row.shown := by
  have hfields : ∀ f ∈ row.field.text signed :: row.fields.map (Field.text signed), ';' ∉ f := fun f hf hc =>
    (Row.mem_fields hf hc).1 rfl
  rw [Row.text, Lib.splitOn_text (fun hc => (h _ hc).2.1 rfl) hfields, List.map_cons,
    Field.number_text signed row.field fun c hc => (h c hc).1, List.map_map, Row.shown]
  congr 1
  apply List.map_congr_left
  intro f _
  have hnil : ∀ c ∈ ([] : List Char), c.isDigit = false := by simp
  exact Field.number_text signed f hnil

/-- No line is broken inside. -/
theorem Row.mem_text {signed : Bool} {row : Row} (h : row.Plain) : '\n' ∉ row.text signed := by
  intro hc
  rcases List.mem_append.1 hc with hc | hc
  · exact (h _ hc).2.2 rfl
  · rcases Lib.mem_intercalate hc with hsep | ⟨f, hf, hc⟩
    · contradiction
    · exact (Row.mem_fields hf hc).2 rfl

/-- Whatever rows are printed, their numbers are read back. -/
theorem read_text (signed : Bool) {rows : List Row} (hne : rows ≠ []) (h : ∀ row ∈ rows, row.Plain) :
    read (text signed rows) = rows.map Row.shown := by
  have hlines : ∀ line ∈ rows.map (Row.text signed), '\n' ∉ line := by
    intro line hl
    obtain ⟨row, hrow, rfl⟩ := List.mem_map.1 hl
    exact Row.mem_text (h row hrow)
  rw [read, text, List.splitOn_intercalate _ hlines (by simpa using hne), List.map_map]
  apply List.map_congr_left
  intro row hrow
  exact Row.read_text signed (h row hrow)

theorem shown_curveRow (l : Line) : (curveRow l).shown = [some l.secs.toNat, some l.megabytes] := by
  have hwhole : units 0 l.megabytes = l.megabytes := by
    have hcast := Lib.roundEven_intCast l.megabytes
    simp only [Int.cast_natCast] at hcast
    simp [units, hcast]
  simp [Row.shown, curveRow, Field.shown, hwhole]

theorem plain_rows (r : Report) : ∀ row ∈ reportRows r, row.Plain := by
  simp [reportRows, Row.Plain]

/-! ## The last line -/

/-- `o` is `num / den` in units of the last of `d` decimals, up to half of one and a
millionth. -/
structure Shows (d : ℕ) (o : Option ℕ) (num den : ℕ) : Prop where
  none_iff : o = none ↔ den = 0
  close : ∀ n, o = some n → |(n : ℚ) / 10 ^ d - num / den| ≤ 1 / 2 / 10 ^ d + num / den * (1 / 1000000)

theorem shows_of_prints (d : ℕ) {o : Option ℚ} {num den : ℕ} (h : Prints o num den) : Shows d (o.map (units d)) num den where
  none_iff := Option.map_eq_none_iff.trans h.none_iff
  close := by
    intro n hn
    obtain ⟨f, hf, rfl⟩ := Option.map_eq_some_iff.1 hn
    exact (h.figure f hf).printed d (by positivity)

theorem shows_megabytes {bytes : ℕ} (h : bytes < 2 ^ 64) :
    Shows 0 ((some (megabytes bytes)).map (units 0)) bytes 1048576 := by
  apply shows_of_prints
  refine ⟨by simp, ?_⟩
  rintro f ⟨rfl⟩
  exact_mod_cast figure_megabytes h

/-- The six fields of the last line: CPU usage in percent, write operations and
megabytes written a second, growth of memory and disk usage in megabytes, and how much
less than the process the blobs have. -/
def LastLine (total elapsed wrops writeBytes logicalWriteBytes growth maxDiskUsage : ℕ) (fields : List (Option ℕ)) : Prop :=
  ∃ a b c d e f, fields = [a, b, c, d, e, f] ∧
    Shows 2 a (100 * total) elapsed ∧
    Shows 0 b (1000000 * wrops) elapsed ∧
    Shows 2 c (1000000 * writeBytes) (1048576 * elapsed) ∧
    Shows 0 d growth 1048576 ∧
    Shows 0 e maxDiskUsage 1048576 ∧
    Shows 2 f logicalWriteBytes writeBytes

/-- What is printed in a run can be read by lines and fields: each line of the curve has
two numbers, each labelled line the one the report has, up to its decimals, and the last
line has its six figures, which are the quotients of the whole numbers up to half a unit
of the last decimal and a millionth. -/
theorem output_is_read {δ σ : Type} (signed : Bool) (usage : Usage δ) (samples : List (Sample δ)) (readings : Readings)
    (s : State σ) :
    let r := report readings s
    let lines := samples.map (line usage readings.startTime)
    read (text signed (lines.map curveRow ++ reportRows r)) =
        lines.map (fun l => [some l.secs.toNat, some l.megabytes]) ++ (reportRows r).map Row.shown ∧
      ∃ fields, ((reportRows r).map Row.shown).getLast? = some fields ∧
        LastLine r.total.toNat r.elapsed.toNat r.wrops.toNat
          (readings.endStats.writeBytes - readings.startStats.writeBytes).toNat (logicalWriteBytes s.sets).toNat
          (s.maxMemoryUsage - readings.startMemory).toNat s.maxDiskUsage.toNat fields := by
  intro r lines
  refine ⟨?_, _, rfl, _, _, _, _, _, _, rfl, ?_, ?_, ?_, ?_, ?_, ?_⟩
  · have hplain : ∀ row ∈ lines.map curveRow ++ reportRows r, row.Plain := by
      rw [List.forall_mem_append]
      refine ⟨?_, plain_rows r⟩
      rw [List.forall_mem_map]
      intro l _
      simp [curveRow, Row.Plain]
    rw [read_text signed (by simp [reportRows]) hplain, List.map_append, List.map_map]
    congr 2
    exact funext shown_curveRow
  · exact shows_of_prints 2 (avgcpu_prints _ _)
  · exact shows_of_prints 0 (perSecond_prints _ ((UInt32.toNat_lt _).trans (by norm_num)))
  · exact shows_of_prints 2 (wrMegabytesPerSec_prints _ (UInt64.toNat_lt _))
  · exact shows_megabytes (UInt64.toNat_lt _)
  · exact shows_megabytes (UInt64.toNat_lt _)
  · exact shows_of_prints 2 (divide_prints (UInt64.toNat_lt _) (UInt64.toNat_lt _))

end JellyBench.Output
