import JellyBench.Lib.Scan
import JellyBench.ProcessMonitor
/-!
# The files under /proc

On a POSIX system `ProcessMonitor` gets its numbers by `fscanf` from two files.
`fscanf_iff` says which texts have all the numbers of a format, and `getElem?_io`
which have one of `/proc/<pid>/io`, so a number is never taken from under another
label.
-/
open Lib.Scan

namespace JellyBench.ProcessMonitor

/-! ## Formats -/

/-- The directives of a format, with the conversions used here. -/
def directives : List Char → List Directive
  | '%' :: 'l' :: 'l' :: 'd' :: cs => .number :: directives cs
  | '%' :: 'u' :: cs => .number :: directives cs
  | '%' :: '*' :: 's' :: cs => .word :: directives cs
  | c :: cs => (if isSpace c then .space c else .char c) :: directives cs
  | [] => []

/-- `fscanf`: the numbers it stores. It returns how many they are. -/
def fscanf (format text : String) : List ℤ := scan isSpace (directives format.toList) text.toList

/-- `fprintf` -/
def fprintf (format : String) (ns : List ℕ) : String := String.ofList (print (directives format.toList) ns)

theorem plain_directives (format : List Char) : Plain isSpace (directives format) := by
  refine ⟨?_, fun c => isSpace_digit, by decide, by decide⟩
  fun_induction directives format with
  | case1 cs ih => simpa using ih
  | case2 cs ih => simpa using ih
  | case3 cs ih => simpa using ih
  | case4 c cs h1 h2 h3 ih =>
    intro d hd
    rcases List.mem_cons.1 hd with hd | hd
    · split_ifs at hd with hc
      cases hd
      exact Bool.eq_false_iff.2 hc
    · exact ih d hd
  | case5 => simp

theorem space_directives {format : List Char} {c : Char} (h : .space c ∈ directives format) : isSpace c = true := by
  fun_induction directives format with
  | case1 cs ih => exact ih (by simpa using h)
  | case2 cs ih => exact ih (by simpa using h)
  | case3 cs ih => exact ih (by simpa using h)
  | case4 d cs h1 h2 h3 ih =>
    rcases List.mem_cons.1 h with h | h
    · split_ifs at h with hd
      cases h
      exact hd
    · exact ih h
  | case5 => simp at h

/-- A format has all its numbers read exactly from the texts it lays out. -/
theorem fscanf_iff {format text : String} {ns : List ℤ} (h : ns.length = (directives format.toList).count .number) :
    fscanf format text = ns ↔ Laid isSpace (directives format.toList) ns text.toList :=
  scan_spec (plain_directives _) h

/-- What is printed with a format is read back, whatever follows it. -/
theorem fscanf_fprintf {format : String} (hword : .word ∉ directives format.toList)
    (hsep : separated (directives format.toList) = true) {ns : List ℕ}
    (h : ns.length = (directives format.toList).count .number) (rest : String) :
    fscanf format (fprintf format ns ++ rest) = ns.map Nat.cast := by
  have hlaid := laid_print (plain_directives _) (fun _ hc => space_directives hc) hword hsep h rest.toList
  rw [fscanf_iff (by rw [List.length_map, h]), fprintf, String.toList_append, String.toList_ofList]
  exact hlaid

/-! ## `GetStats` -/

/-- The format of `/proc/<pid>/io`. -/
def ioFormat : String :=
  "rchar: %lld\n" ++ "wchar: %lld\n" ++ "syscr: %lld\n" ++ "syscw: %lld\n" ++ "read_bytes: %lld\n" ++
    "write_bytes: %lld\n" ++ "cancelled_write_bytes: %lld\n"

theorem io_format : (directives ioFormat.toList).count .number = 7 ∧ .word ∉ directives ioFormat.toList ∧
    separated (directives ioFormat.toList) = true := by
  decide +kernel

theorem fscanf_io {text : String} {ns : List ℤ} (h : ns.length = 7) :
    fscanf ioFormat text = ns ↔ Laid isSpace (directives ioFormat.toList) ns text.toList :=
  fscanf_iff (h.trans io_format.1.symm)

/-- A `long long` -/
def LongLong (n : ℤ) : Prop := -2 ^ 63 ≤ n ∧ n < 2 ^ 63

instance (n : ℤ) : Decidable (LongLong n) := inferInstanceAs (Decidable (_ ∧ _))

/-- What `times` and `sysconf` say. -/
structure CpuTimes where
  stime : UInt64
  utime : UInt64
  clkTck : UInt64
  clkTck_ne : clkTck ≠ 0

def CpuTimes.system (cpu : CpuTimes) (wchar syscw : UInt64) : System :=
  ⟨cpu.stime, cpu.utime, cpu.clkTck, cpu.clkTck_ne, wchar, syscw⟩

/-- `GetStats`, where `io` is the file, if it can be opened, and `values` is what the
array has before `fscanf` stores its numbers. A debug build checks `JELLY_ASSERT`; a
release build goes on with what it has. -/
def readStats (checked : Bool) (values : ℕ → ℤ) (cpu : CpuTimes) (io : Option String) : Except Stop Stats :=
  match io with
  | none => .error (if checked then .assertion "f != NULL" else .undefined .badPointer)
  | some text =>
    let stored := fscanf ioFormat text
    if ∀ n ∈ stored, LongLong n then
      if checked ∧ stored.length ≠ 7 then .error (.assertion "result == 7")
      else .ok (getStats (cpu.system (.ofInt (stored.getD 1 (values 1))) (.ofInt (stored.getD 3 (values 3)))))
    else .error (.undefined .badNumber)

/-- The numbers of the file, under its labels and in its order. -/
structure Io (text : String) where
  rchar : ℤ
  wchar : ℤ
  syscr : ℤ
  syscw : ℤ
  readBytes : ℤ
  writeBytes : ℤ
  cancelledWriteBytes : ℤ
  laid : Laid isSpace (directives ioFormat.toList)
    [rchar, wchar, syscr, syscw, readBytes, writeBytes, cancelledWriteBytes] text.toList

def Io.numbers {text : String} (i : Io text) : List ℤ :=
  [i.rchar, i.wchar, i.syscr, i.syscw, i.readBytes, i.writeBytes, i.cancelledWriteBytes]

theorem Io.fscanf_eq {text : String} (i : Io text) : fscanf ioFormat text = i.numbers :=
  (fscanf_io rfl).2 i.laid

/-- All seven numbers are stored. -/
theorem result_eq_seven {text : String} : (fscanf ioFormat text).length = 7 ↔ Nonempty (Io text) := by
  constructor
  · intro h
    have hlaid := (fscanf_io h).1 rfl
    match hns : fscanf ioFormat text, h with
    | [rchar, wchar, syscr, syscw, readBytes, writeBytes, cancelledWriteBytes], _ =>
      rw [hns] at hlaid
      exact ⟨⟨rchar, wchar, syscr, syscw, readBytes, writeBytes, cancelledWriteBytes, hlaid⟩⟩
  · rintro ⟨i⟩
    rw [i.fscanf_eq]
    rfl

/-- `n` is number `k` of a text that has the labels up to it in their order, each with
a number behind it. -/
def Labelled (text : String) (k : ℕ) (n : ℤ) : Prop :=
  ∃ ns : List ℤ, ns.length = k ∧ Laid isSpace (upTo (k + 1) (directives ioFormat.toList)) (ns ++ [n]) text.toList

theorem getElem?_io {text : String} {k : ℕ} {n : ℤ} : (fscanf ioFormat text)[k]? = some n ↔ Labelled text k n :=
  getElem?_scan (plain_directives _)

/-- `n` is what the array has at `k` in the end: the number under its label, if the
text has it, and otherwise what it was before. -/
def Used (values : ℕ → ℤ) (text : String) (k : ℕ) (n : ℤ) : Prop :=
  Labelled text k n ∨ ((∀ m, ¬ Labelled text k m) ∧ n = values k)

theorem used_iff {values : ℕ → ℤ} {text : String} {k : ℕ} {n : ℤ} :
    Used values text k n ↔ (fscanf ioFormat text).getD k (values k) = n := by
  unfold Used
  simp only [← getElem?_io, List.getD_eq_getElem?_getD]
  cases (fscanf ioFormat text)[k]? with
  | none => simp [eq_comm]
  | some m => simp

theorem forall_stored {text : String} {p : ℤ → Prop} :
    (∀ n ∈ fscanf ioFormat text, p n) ↔ ∀ k n, Labelled text k n → p n := by
  simp only [← getElem?_io, List.mem_iff_getElem?]
  exact ⟨fun h k n hn => h n ⟨k, hn⟩, fun h n ⟨k, hn⟩ => h k n hn⟩

theorem readStats_release {values : ℕ → ℤ} {cpu : CpuTimes} {io : Option String} {stats : Stats} :
    readStats false values cpu io = .ok stats ↔
      ∃ text, io = some text ∧ (∀ k n, Labelled text k n → LongLong n) ∧ ∃ wchar syscw, Used values text 1 wchar ∧
        Used values text 3 syscw ∧ stats = getStats (cpu.system (.ofInt wchar) (.ofInt syscw)) := by
  cases io with
  | none => simp [readStats]
  | some text =>
    simp only [readStats, used_iff, ← forall_stored, Option.some.injEq, exists_and_left, exists_eq_left', Bool.false_eq_true,
      false_and, if_false]
    by_cases hfits : ∀ n ∈ fscanf ioFormat text, LongLong n
    · rw [if_pos hfits, Except.ok.injEq, eq_comm]
      exact (and_iff_right hfits).symm
    · rw [if_neg hfits]
      exact iff_of_false (fun h => nomatch h) fun h => hfits h.1

/-- The two builds differ only where a label or a number is missing. -/
theorem readStats_io {values : ℕ → ℤ} {cpu : CpuTimes} {text : String} (i : Io text) (checked : Bool) :
    readStats checked values cpu (some text) =
      if ∀ n ∈ i.numbers, LongLong n then .ok (getStats (cpu.system (.ofInt i.wchar) (.ofInt i.syscw)))
      else .error (.undefined .badNumber) := by
  have hseven : i.numbers.length = 7 := rfl
  simp only [readStats, i.fscanf_eq, hseven, ne_eq, not_true_eq_false, and_false, if_false]
  rfl

theorem readStats_debug {values : ℕ → ℤ} {cpu : CpuTimes} {io : Option String} {stats : Stats} :
    readStats true values cpu io = .ok stats ↔
      ∃ text, io = some text ∧ ∃ i : Io text, (∀ n ∈ i.numbers, LongLong n) ∧
        stats = getStats (cpu.system (.ofInt i.wchar) (.ofInt i.syscw)) := by
  constructor
  · intro h
    cases io with
    | none => cases h
    | some text =>
      have hseven : (fscanf ioFormat text).length = 7 := by
        by_contra hne
        simp only [readStats, hne, ne_eq, not_false_eq_true, and_self, if_true] at h
        split_ifs at h
      obtain ⟨i⟩ := result_eq_seven.1 hseven
      rw [readStats_io i] at h
      split_ifs at h with hfits
      exact ⟨text, rfl, i, hfits, (Except.ok.inj h).symm⟩
  · rintro ⟨text, rfl, i, hfits, rfl⟩
    rw [readStats_io i, if_pos hfits]

theorem longLong_natCast {n : ℕ} (h : n < 2 ^ 63) : LongLong n := by
  unfold LongLong
  omega

theorem toNat_ofInt_natCast {n : ℕ} (h : n < 2 ^ 64) : (UInt64.ofInt n).toNat = n := by
  have hmod : ((n : ℤ) % 2 ^ 64).toNat = n := by omega
  rw [UInt64.ofInt, hmod, UInt64.toNat_ofNat', Nat.mod_eq_of_lt h]

/-- What is printed with the format has the seven numbers. -/
theorem io_fprintf (rchar wchar syscr syscw readBytes writeBytes cancelledWriteBytes : ℕ) (rest : String) :
    ∃ i : Io (fprintf ioFormat [rchar, wchar, syscr, syscw, readBytes, writeBytes, cancelledWriteBytes] ++ rest),
      i.numbers = [rchar, wchar, syscr, syscw, readBytes, writeBytes, cancelledWriteBytes].map Nat.cast := by
  obtain ⟨hcount, hword, hsep⟩ := io_format
  have hlen : [rchar, wchar, syscr, syscw, readBytes, writeBytes, cancelledWriteBytes].length =
      (directives ioFormat.toList).count .number := hcount.symm
  have hscan := fscanf_fprintf hword hsep hlen rest
  exact ⟨⟨_, _, _, _, _, _, _, (fscanf_io rfl).1 hscan⟩, rfl⟩

/-- The assertion of `GetStats` passes exactly on the texts with the seven numbers
under their labels, and then its counts are the right two of them. Without the
assertion each of the two is still the one under its own label, if the text gets so
far, and otherwise what the array had before. From what is printed with the format,
whatever follows, either build gets the numbers that were printed. -/
theorem stats_are_labelled (values : ℕ → ℤ) (cpu : CpuTimes) :
    (∀ text, (fscanf ioFormat text).length = 7 ↔ Nonempty (Io text)) ∧
    (∀ io stats, readStats true values cpu io = .ok stats ↔
      ∃ text, io = some text ∧ ∃ i : Io text, (∀ n ∈ i.numbers, LongLong n) ∧
        stats = getStats (cpu.system (.ofInt i.wchar) (.ofInt i.syscw))) ∧
    (∀ io stats, readStats false values cpu io = .ok stats ↔
      ∃ text, io = some text ∧ (∀ k n, Labelled text k n → LongLong n) ∧ ∃ wchar syscw, Used values text 1 wchar ∧
        Used values text 3 syscw ∧ stats = getStats (cpu.system (.ofInt wchar) (.ofInt syscw))) ∧
    ∀ rchar wchar syscr syscw readBytes writeBytes cancelledWriteBytes : ℕ,
      (∀ n ∈ [rchar, wchar, syscr, syscw, readBytes, writeBytes, cancelledWriteBytes], n < 2 ^ 63) →
      ∀ (rest : String) (checked : Bool), ∃ stats, readStats checked values cpu
          (some (fprintf ioFormat [rchar, wchar, syscr, syscw, readBytes, writeBytes, cancelledWriteBytes] ++ rest)) =
            .ok stats ∧
        stats.writeOps.toNat = syscw ∧ stats.writeBytes.toNat = wchar := by
  refine ⟨fun _ => result_eq_seven, fun _ _ => readStats_debug, fun _ _ => readStats_release, ?_⟩
  intro rchar wchar syscr syscw readBytes writeBytes cancelledWriteBytes hfits rest checked
  obtain ⟨i, hi⟩ := io_fprintf rchar wchar syscr syscw readBytes writeBytes cancelledWriteBytes rest
  have hlong : ∀ n ∈ i.numbers, LongLong n := by
    intro n hn
    rw [hi] at hn
    obtain ⟨m, hm, rfl⟩ := List.mem_map.1 hn
    exact longLong_natCast (hfits m hm)
  have hwchar : i.wchar = wchar := congrArg (fun ns : List ℤ => ns.getD 1 0) hi
  have hsyscw : i.syscw = syscw := congrArg (fun ns : List ℤ => ns.getD 3 0) hi
  refine ⟨getStats (cpu.system (.ofInt wchar) (.ofInt syscw)), ?_, ?_, ?_⟩
  · rw [readStats_io i, if_pos hlong, hwchar, hsyscw]
  · exact toNat_ofInt_natCast (by have := hfits syscw (by simp); omega)
  · exact toNat_ofInt_natCast (by have := hfits wchar (by simp); omega)

/-! ## `GetCurrentMemoryUsage` -/

/-- The format of `/proc/self/statm`, whose second number are the resident pages. -/
def statmFormat : String := "%*s%u"

/-- `GetCurrentMemoryUsage`, where `statm` is the file, if it can be opened. A number
of pages that is no `uint32_t` C leaves open, it wraps here. -/
def readMemory (pageSize : UInt64) (statm : Option String) : Except Stop UInt64 :=
  match statm with
  | none => .error (.assertion "fopen() failed: %u (path: %s)")
  | some text =>
    match fscanf statmFormat text with
    | [rss] => .ok (getCurrentMemoryUsage (.ofInt rss) pageSize)
    | _ => .error (.assertion "fscanf() failed: %u (path: %s)")

theorem readMemory_iff {pageSize : UInt64} {statm : Option String} {n : UInt64} :
    readMemory pageSize statm = .ok n ↔ ∃ text rss, statm = some text ∧
      Laid isSpace [.word, .number] [rss] text.toList ∧ n = getCurrentMemoryUsage (.ofInt rss) pageSize := by
  have hiff : ∀ {text rss}, fscanf statmFormat text = [rss] ↔ Laid isSpace [.word, .number] [rss] text.toList :=
    fscanf_iff rfl
  constructor
  · intro h
    cases statm with
    | none => cases h
    | some text =>
      simp only [readMemory] at h
      split at h
      · rename_i rss hscan
        exact ⟨text, rss, rfl, hiff.1 hscan, (Except.ok.inj h).symm⟩
      · cases h
  · rintro ⟨text, rss, rfl, hlaid, rfl⟩
    simp only [readMemory, hiff.2 hlaid]

theorem toNat_currentMemoryUsage {resident : ℕ} {pageSize : UInt64} (h : resident < 2 ^ 32)
    (hbytes : resident * pageSize.toNat < 2 ^ 64) :
    (getCurrentMemoryUsage (.ofInt resident) pageSize).toNat = resident * pageSize.toNat := by
  have hmod : ((resident : ℤ) % 2 ^ 32).toNat = resident := by omega
  rw [getCurrentMemoryUsage, UInt64.toNat_mul, UInt32.toNat_toUInt64, UInt32.ofInt, hmod, UInt32.toNat_ofNat',
    Nat.mod_eq_of_lt h, Nat.mod_eq_of_lt hbytes]

/-- `GetCurrentMemoryUsage` gets through exactly on a text with a number after a
word, and it is the resident pages it counts and not all of them, in bytes. -/
theorem memory_is_resident (pageSize : UInt64) :
    (∀ statm n, readMemory pageSize statm = .ok n ↔ ∃ text rss, statm = some text ∧
      Laid isSpace [.word, .number] [rss] text.toList ∧ n = getCurrentMemoryUsage (.ofInt rss) pageSize) ∧
    ∀ (size resident : ℕ) (rest : String), Stops Char.isDigit rest.toList → resident < 2 ^ 32 →
      resident * pageSize.toNat < 2 ^ 64 →
      ∃ n, readMemory pageSize (some (size.repr ++ " " ++ resident.repr ++ rest)) = .ok n ∧
        n.toNat = resident * pageSize.toNat := by
  refine ⟨fun _ _ => readMemory_iff, ?_⟩
  intro size resident rest hrest hresident hbytes
  refine ⟨getCurrentMemoryUsage (.ofInt resident) pageSize, ?_, toNat_currentMemoryUsage hresident hbytes⟩
  apply readMemory_iff.2 ⟨_, resident, rfl, ?_, rfl⟩
  have hnumber : Laid isSpace [.number] [(resident : ℤ)] ([' '] ++ (Nat.toDigits 10 resident ++ rest.toList)) :=
    .number (by simp [isSpace]) (.bare (numeral_toDigits resident)) hrest (.done (by simp))
  have hsize : ∀ c ∈ Nat.toDigits 10 size, isSpace c = false := fun c hc =>
    isSpace_digit ((numeral_toDigits size).digits c hc)
  have hword := Laid.word (w := []) (by simp) (numeral_toDigits size).nonempty hsize (stops_cons.2 (by decide)) hnumber
  simpa [Nat.toList_repr] using hword

end JellyBench.ProcessMonitor
