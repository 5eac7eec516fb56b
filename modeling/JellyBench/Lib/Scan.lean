import Mathlib.Data.List.DropRight
import Mathlib.Data.List.TakeWhile
import Mathlib.Tactic.Common
/-!
# Formatted input

`scan` reads a text under a format, as `fscanf` does: a directive that does not
match ends it, and what counts is how many numbers were read. `Laid` says what a
text must look like; `scan_spec` that `scan` reads all numbers of exactly these
texts, `getElem?_scan` which texts it reads one number of, and `laid_print` that a
text printed with a format is one it reads.
-/
namespace Lib.Scan

/-- White space, a character, a number, and a word that is passed over. -/
inductive Directive where
  | space (c : Char)
  | char (c : Char)
  | number
  | word
  deriving DecidableEq, Repr

/-! ## Numbers -/

/-- The digits a text starts with, as a number. -/
def natural (cs : List Char) : Option (ℕ × List Char) :=
  if cs.takeWhile Char.isDigit = [] then none
  else some (Nat.ofDigitChars 10 (cs.takeWhile Char.isDigit) 0, cs.dropWhile Char.isDigit)

/-- The same after an optional sign. -/
def number (cs : List Char) : Option (ℤ × List Char) :=
  if cs.head? = some '-' then (natural cs.tail).map fun r => (-r.1, r.2)
  else if cs.head? = some '+' then (natural cs.tail).map fun r => (r.1, r.2)
  else (natural cs).map fun r => (r.1, r.2)

/-- A text that cannot go on one that `p` holds for. -/
def Stops (p : Char → Bool) (cs : List Char) : Prop := ∀ c, cs.head? = some c → p c = false

theorem stops_cons {p : Char → Bool} {c : Char} {cs : List Char} : Stops p (c :: cs) ↔ p c = false := by
  simp [Stops]

theorem stops_dropWhile (p : Char → Bool) (cs : List Char) : Stops p (cs.dropWhile p) := by
  intro c hc
  have h := List.head?_dropWhile_not p cs
  rw [hc] at h
  exact h

/-- The longest start that `p` holds for. -/
theorem takeWhile_stops {p : Char → Bool} {t cs : List Char} (ht : ∀ c ∈ t, p c = true) (hcs : Stops p cs) :
    (t ++ cs).takeWhile p = t ∧ (t ++ cs).dropWhile p = cs := by
  rw [List.takeWhile_append_of_pos ht, List.dropWhile_append_of_pos ht]
  cases cs with
  | nil => simp
  | cons c cs => simp [stops_cons.1 hcs]

/-- Digits, and their number. -/
structure Numeral (n : ℕ) (t : List Char) : Prop where
  nonempty : t ≠ []
  digits : ∀ c ∈ t, c.isDigit = true
  value : n = Nat.ofDigitChars 10 t 0

theorem numeral_toDigits (n : ℕ) : Numeral n (Nat.toDigits 10 n) where
  nonempty := Nat.toDigits_ne_nil
  digits _ hc := Nat.isDigit_of_mem_toDigits (by decide) (by decide) hc
  value := Nat.ofDigitChars_ten_toDigits.symm

theorem natural_iff {cs rest : List Char} {n : ℕ} :
    natural cs = some (n, rest) ↔ ∃ t, cs = t ++ rest ∧ Numeral n t ∧ Stops Char.isDigit rest := by
  unfold natural
  constructor
  · intro h
    split_ifs at h with hnil
    cases h
    exact ⟨_, List.takeWhile_append_dropWhile.symm, ⟨hnil, fun c hc => List.mem_takeWhile_imp hc, rfl⟩, stops_dropWhile _ _⟩
  · rintro ⟨t, rfl, ht, hrest⟩
    obtain ⟨htake, hdrop⟩ := takeWhile_stops ht.digits hrest
    rw [htake, hdrop, if_neg ht.nonempty, ht.value]

/-- A numeral with an optional sign. -/
inductive Signed : ℤ → List Char → Prop
  | bare {n : ℕ} {t : List Char} : Numeral n t → Signed n t
  | plus {n : ℕ} {t : List Char} : Numeral n t → Signed n ('+' :: t)
  | minus {n : ℕ} {t : List Char} : Numeral n t → Signed (-n) ('-' :: t)

theorem Numeral.head {n : ℕ} {t : List Char} (h : Numeral n t) (rest : List Char) :
    ∃ c, (t ++ rest).head? = some c ∧ c.isDigit = true := by
  obtain ⟨hne, hdigits, -⟩ := h
  cases t with
  | nil => exact absurd rfl hne
  | cons c t => exact ⟨c, rfl, hdigits c List.mem_cons_self⟩

theorem number_iff {cs rest : List Char} {n : ℤ} :
    number cs = some (n, rest) ↔ ∃ t, cs = t ++ rest ∧ Signed n t ∧ Stops Char.isDigit rest := by
  unfold number
  constructor
  · intro h
    -- A sign, or none, and then a numeral.
    have hsign : ∀ {c : Char} {f : ℕ → ℤ}, cs.head? = some c → (∀ {m t}, Numeral m t → Signed (f m) (c :: t)) →
        (natural cs.tail).map (fun r => (f r.1, r.2)) = some (n, rest) →
        ∃ t, cs = t ++ rest ∧ Signed n t ∧ Stops Char.isDigit rest := by
      intro c f hhead hsigned hmap
      obtain ⟨⟨m, r⟩, hm, heq⟩ := Option.map_eq_some_iff.1 hmap
      cases heq
      obtain ⟨t, ht, hnum, hstop⟩ := natural_iff.1 hm
      refine ⟨c :: t, ?_, hsigned hnum, hstop⟩
      rw [List.cons_append, ← ht]
      exact List.eq_cons_of_mem_head? hhead
    split_ifs at h with hminus hplus
    · exact hsign hminus .minus h
    · exact hsign hplus .plus h
    · obtain ⟨⟨m, r⟩, hm, heq⟩ := Option.map_eq_some_iff.1 h
      cases heq
      obtain ⟨t, ht, hnum, hstop⟩ := natural_iff.1 hm
      exact ⟨t, ht, .bare hnum, hstop⟩
  · rintro ⟨t, rfl, hsigned, hstop⟩
    cases hsigned with
    | @bare m t hnum =>
      obtain ⟨c, hc, hdigit⟩ := hnum.head rest
      have hminus : c ≠ '-' := by rintro rfl; contradiction
      have hplus : c ≠ '+' := by rintro rfl; contradiction
      simp [hc, hminus, hplus, natural_iff.2 ⟨t, rfl, hnum, hstop⟩]
    | @plus m t hnum => simp [natural_iff.2 ⟨t, rfl, hnum, hstop⟩]
    | @minus m t hnum => simp [natural_iff.2 ⟨t, rfl, hnum, hstop⟩]

/-! ## Texts -/

section
variable (blank : Char → Bool)

/-- The numbers read until a directive does not match. -/
def scan : List Directive → List Char → List ℤ
  | [], _ => []
  | .space _ :: ds, cs => scan ds (cs.dropWhile blank)
  | .char c :: ds, cs => if cs.head? = some c then scan ds cs.tail else []
  | .number :: ds, cs =>
    match number (cs.dropWhile blank) with
    | some (n, rest) => n :: scan ds rest
    | none => []
  | .word :: ds, cs =>
    let cs := cs.dropWhile blank
    if cs.takeWhile (!blank ·) = [] then [] else scan ds (cs.dropWhile (!blank ·))

/-- A text with the numbers of a format, each where the format has it. What comes
after the last number may be anything. -/
inductive Laid : List Directive → List ℤ → List Char → Prop
  | done {ds : List Directive} {cs : List Char} : .number ∉ ds → Laid ds [] cs
  | space {ds : List Directive} {ns : List ℤ} {c : Char} {w cs : List Char} : (∀ c ∈ w, blank c = true) → Laid ds ns cs →
      Laid (.space c :: ds) ns (w ++ cs)
  | char {ds : List Directive} {ns : List ℤ} {c : Char} {cs : List Char} : Laid ds ns cs → Laid (.char c :: ds) ns (c :: cs)
  | number {ds : List Directive} {n : ℤ} {ns : List ℤ} {w t cs : List Char} : (∀ c ∈ w, blank c = true) → Signed n t →
      Stops Char.isDigit cs → Laid ds ns cs → Laid (.number :: ds) (n :: ns) (w ++ (t ++ cs))
  | word {ds : List Directive} {ns : List ℤ} {w t cs : List Char} : (∀ c ∈ w, blank c = true) → t ≠ [] →
      (∀ c ∈ t, blank c = false) → Stops (!blank ·) cs → Laid ds ns cs → Laid (.word :: ds) ns (w ++ (t ++ cs))

variable {blank}

theorem scan_done {ds : List Directive} (h : .number ∉ ds) (cs : List Char) : scan blank ds cs = [] := by
  induction ds generalizing cs with
  | nil => rfl
  | cons d ds ih =>
    rw [List.mem_cons, not_or] at h
    obtain ⟨hne, hrest⟩ := h
    cases d with
    | space c => exact ih hrest _
    | char c => simp [scan, ih hrest]
    | number => exact absurd rfl hne
    | word => simp [scan, ih hrest]

/-- A format's characters are not white space, and neither are digits and signs. -/
structure Plain (blank : Char → Bool) (ds : List Directive) : Prop where
  chars : ∀ c, .char c ∈ ds → blank c = false
  digits : ∀ c : Char, c.isDigit = true → blank c = false
  minus : blank '-' = false
  plus : blank '+' = false

theorem Plain.tail {d : Directive} {ds : List Directive} (h : Plain blank (d :: ds)) : Plain blank ds :=
  ⟨fun c hc => h.chars c (List.mem_cons_of_mem _ hc), h.digits, h.minus, h.plus⟩

theorem Plain.signed {ds : List Directive} (h : Plain blank ds) {n : ℤ} {t : List Char} (ht : Signed n t) (cs : List Char) :
    Stops blank (t ++ cs) := by
  intro c hc
  cases ht with
  | bare hnum =>
    obtain ⟨d, hd, hdigit⟩ := hnum.head cs
    rw [hd] at hc
    cases hc
    exact h.digits _ hdigit
  | plus hnum => cases hc; exact h.plus
  | minus hnum => cases hc; exact h.minus

/-- White space before a text makes no difference. -/
theorem scan_dropWhile {ds : List Directive} (h : Plain blank ds) {ns : List ℤ} {cs : List Char} (hl : Laid blank ds ns cs) :
    scan blank ds (cs.dropWhile blank) = scan blank ds cs := by
  have hidem : (cs.dropWhile blank).dropWhile blank = cs.dropWhile blank := List.dropWhile_idempotent _ _
  cases hl with
  | done hno => rw [scan_done hno, scan_done hno]
  | space hw hrest => simp only [scan, hidem]
  | @char ds ns c cs hrest =>
    have hc : blank c = false := h.chars c List.mem_cons_self
    simp [hc]
  | number hw ht hstop hrest => simp only [scan, hidem]
  | word hw hne ht hstop hrest => simp only [scan, hidem]

/-- What a format lays out it reads. -/
theorem scan_of_laid {ds : List Directive} (h : Plain blank ds) {ns : List ℤ} {cs : List Char} (hl : Laid blank ds ns cs) :
    scan blank ds cs = ns := by
  induction hl with
  | done hno => exact scan_done hno _
  | space hw hrest ih =>
    rw [scan, List.dropWhile_append_of_pos hw, scan_dropWhile h.tail hrest]
    exact ih h.tail
  | char hrest ih => simpa [scan] using ih h.tail
  | @number ds n ns w t cs hw ht hstop hrest ih =>
    have hskip : (w ++ (t ++ cs)).dropWhile blank = t ++ cs := (takeWhile_stops hw (h.signed ht cs)).2
    rw [scan, hskip, number_iff.2 ⟨t, rfl, ht, hstop⟩]
    simp only [ih h.tail]
  | @word ds ns w t cs hw hne ht hstop hrest ih =>
    have hblank : Stops blank (t ++ cs) := by
      intro c hc
      cases t with
      | nil => exact absurd rfl hne
      | cons d t =>
        cases hc
        exact ht _ List.mem_cons_self
    have hskip : (w ++ (t ++ cs)).dropWhile blank = t ++ cs := (takeWhile_stops hw hblank).2
    obtain ⟨htake, hdrop⟩ := takeWhile_stops (p := (!blank ·)) (by simpa using ht) hstop
    simp only [scan, hskip, htake, hdrop, if_neg hne]
    exact ih h.tail

/-- Where every number was read, the text was laid out so. -/
theorem laid_of_scan {ds : List Directive} {cs : List Char} (h : (scan blank ds cs).length = ds.count .number) :
    Laid blank ds (scan blank ds cs) cs := by
  induction ds generalizing cs with
  | nil => exact .done (by simp)
  | cons d ds ih =>
    by_cases hno : .number ∉ d :: ds
    · rw [scan_done hno]
      exact .done hno
    · have hsome : (d :: ds).count .number ≠ 0 := by
        rw [Ne, List.count_eq_zero]
        exact hno
      cases d with
      | space c =>
        have hrest : Laid blank ds (scan blank ds (cs.dropWhile blank)) (cs.dropWhile blank) := ih (by simpa [scan] using h)
        have hlaid := Laid.space (c := c) (fun c hc => List.mem_takeWhile_imp hc) hrest (w := cs.takeWhile blank)
        rwa [List.takeWhile_append_dropWhile] at hlaid
      | char c =>
        by_cases hc : cs.head? = some c
        · simp only [scan, if_pos hc] at h ⊢
          have hlaid := Laid.char (c := c) (ih (by simpa using h))
          rwa [← List.eq_cons_of_mem_head? hc] at hlaid
        · simp only [scan, if_neg hc, List.length_nil] at h
          exact absurd h.symm hsome
      | number =>
        cases hn : number (cs.dropWhile blank) with
        | none =>
          simp only [scan, hn, List.length_nil] at h
          exact absurd h.symm hsome
        | some r =>
          obtain ⟨n, rest⟩ := r
          simp only [scan, hn] at h ⊢
          obtain ⟨t, ht, hsigned, hstop⟩ := number_iff.1 hn
          have hlaid := Laid.number (w := cs.takeWhile blank) (fun c hc => List.mem_takeWhile_imp hc) hsigned hstop
            (ih (by simpa using h))
          rwa [← ht, List.takeWhile_append_dropWhile] at hlaid
      | word =>
        by_cases hw : (cs.dropWhile blank).takeWhile (!blank ·) = []
        · simp only [scan, if_pos hw, List.length_nil] at h
          exact absurd h.symm hsome
        · simp only [scan, if_neg hw] at h ⊢
          have hlaid := Laid.word (w := cs.takeWhile blank) (fun c hc => List.mem_takeWhile_imp hc) hw
            (fun c hc => by simpa using List.mem_takeWhile_imp hc) (stops_dropWhile _ _) (ih (by simpa using h))
          rwa [List.takeWhile_append_dropWhile, List.takeWhile_append_dropWhile] at hlaid

/-- A format reads `ns`, and no number is missing, exactly from the texts that have
them where the format has its numbers. -/
theorem scan_spec {ds : List Directive} (h : Plain blank ds) {ns : List ℤ} {cs : List Char}
    (hlen : ns.length = ds.count .number) : scan blank ds cs = ns ↔ Laid blank ds ns cs := by
  constructor
  · rintro rfl
    exact laid_of_scan hlen
  · exact scan_of_laid h

/-! ## Texts that end early -/

/-- A format up to its `k`-th number. -/
def upTo : ℕ → List Directive → List Directive
  | 0, _ => []
  | _ + 1, [] => []
  | k + 1, .number :: ds => .number :: upTo k ds
  | k + 1, d :: ds => d :: upTo (k + 1) ds

theorem upTo_subset {k : ℕ} {ds : List Directive} : upTo k ds ⊆ ds := by
  fun_induction upTo k ds with
  | case1 ds => exact List.nil_subset _
  | case2 k => exact List.nil_subset _
  | case3 k ds ih => exact List.cons_subset_cons _ ih
  | case4 k d ds hd ih => exact List.cons_subset_cons _ ih

theorem Plain.upTo {ds : List Directive} (h : Plain blank ds) (k : ℕ) : Plain blank (upTo k ds) :=
  ⟨fun c hc => h.chars c (upTo_subset hc), h.digits, h.minus, h.plus⟩

theorem count_upTo_le (k : ℕ) (ds : List Directive) : (upTo k ds).count .number ≤ k := by
  fun_induction upTo k ds with
  | case1 ds => simp
  | case2 k => simp
  | case3 k ds ih => simpa using ih
  | case4 k d ds hd ih =>
    rw [List.count_cons_of_ne fun h => hd h]
    exact ih

theorem length_scan_le (ds : List Directive) (cs : List Char) : (scan blank ds cs).length ≤ ds.count .number := by
  fun_induction scan blank ds cs with
  | case1 cs => simp
  | case2 c ds cs ih => simpa using ih
  | case3 c ds cs hc ih => simpa using ih
  | case4 c ds cs hc => simp
  | case5 ds cs n rest hn ih => simpa using ih
  | case6 ds cs hn => simp
  | case7 ds cs cs' hw => simp
  | case8 ds cs cs' hw ih => simpa using ih

/-- The first numbers a format reads are those its beginning reads. -/
theorem take_scan (k : ℕ) (ds : List Directive) (cs : List Char) :
    (scan blank ds cs).take k = scan blank (upTo k ds) cs := by
  induction ds generalizing k cs with
  | nil => cases k <;> simp [scan, upTo]
  | cons d ds ih =>
    cases k with
    | zero => simp [upTo, scan]
    | succ k =>
      cases d with
      | space c => exact ih _ _
      | char c =>
        simp only [upTo, scan]
        split_ifs
        · exact ih _ _
        · rfl
      | number =>
        simp only [upTo, scan]
        cases number (cs.dropWhile blank) with
        | none => rfl
        | some r => simp only [List.take_succ_cons, ih]
      | word =>
        simp only [upTo, scan]
        split_ifs
        · rfl
        · exact ih _ _

/-- A format reads `n` as number `k` exactly from the texts that have what the format
has up to that number, whatever they have behind it. -/
theorem getElem?_scan {ds : List Directive} (h : Plain blank ds) {k : ℕ} {n : ℤ} {cs : List Char} :
    (scan blank ds cs)[k]? = some n ↔ ∃ ns, ns.length = k ∧ Laid blank (upTo (k + 1) ds) (ns ++ [n]) cs := by
  have htake : (scan blank ds cs).take (k + 1) = scan blank (upTo (k + 1) ds) cs := take_scan _ _ _
  constructor
  · intro hn
    obtain ⟨hk, -⟩ := List.getElem?_eq_some_iff.1 hn
    have hsplit : (scan blank ds cs).take (k + 1) = (scan blank ds cs).take k ++ [n] := by
      rw [List.take_add_one, hn]
      rfl
    have hlen : ((scan blank ds cs).take k).length = k := by
      rw [List.length_take]
      omega
    refine ⟨_, hlen, ?_⟩
    rw [← hsplit, htake]
    -- No number is missing.
    apply laid_of_scan
    have hle : (scan blank (upTo (k + 1) ds) cs).length ≤ _ := length_scan_le _ _
    have hcount := count_upTo_le (k + 1) ds
    rw [← htake, List.length_take] at hle ⊢
    omega
  · rintro ⟨ns, rfl, hlaid⟩
    rw [scan_of_laid (h.upTo _) hlaid] at htake
    have hat := congrArg (fun l : List ℤ => l[ns.length]?) htake
    simpa using hat

end

/-! ## Printing -/

/-- The text of a format with the numbers put in. -/
def print : List Directive → List ℕ → List Char
  | .space c :: ds, ns => c :: print ds ns
  | .char c :: ds, ns => c :: print ds ns
  | .number :: ds, n :: ns => Nat.toDigits 10 n ++ print ds ns
  | _, _ => []

/-- A directive whose text does not go on a number. -/
def Directive.parts : Directive → Bool
  | .space _ => true
  | .char c => !c.isDigit
  | .number => false
  | .word => false

/-- No number is followed by a digit, or last. -/
def separated : List Directive → Bool
  | [] => true
  | .number :: ds => (ds.head?.map Directive.parts).getD false && separated ds
  | _ :: ds => separated ds

theorem print_stops {blank : Char → Bool} {ds : List Directive} (h : Plain blank ds)
    (hspace : ∀ c, .space c ∈ ds → blank c = true) (hparts : (ds.head?.map Directive.parts).getD false = true) (ns : List ℕ)
    (rest : List Char) : Stops Char.isDigit (print ds ns ++ rest) := by
  cases ds with
  | nil => simp at hparts
  | cons d ds =>
    cases d with
    | space c =>
      refine stops_cons.2 (Bool.eq_false_iff.2 fun hc => ?_)
      have hblank := hspace c List.mem_cons_self
      rw [h.digits c hc] at hblank
      cases hblank
    | char c => exact stops_cons.2 (by simpa [Directive.parts] using hparts)
    | number => simp [Directive.parts] at hparts
    | word => simp [Directive.parts] at hparts

/-- What is printed with a format is laid out for it. -/
theorem laid_print {blank : Char → Bool} {ds : List Directive} (h : Plain blank ds)
    (hspace : ∀ c, .space c ∈ ds → blank c = true) (hword : .word ∉ ds) (hsep : separated ds = true) {ns : List ℕ}
    (hlen : ns.length = ds.count .number) (rest : List Char) : Laid blank ds (ns.map Nat.cast) (print ds ns ++ rest) := by
  induction ds generalizing ns with
  | nil =>
    obtain rfl := List.length_eq_zero_iff.1 hlen
    exact .done (by simp)
  | cons d ds ih =>
    have hspace' : ∀ c, .space c ∈ ds → blank c = true := fun c hc => hspace c (List.mem_cons_of_mem _ hc)
    have hrest : ∀ {ns : List ℕ}, separated ds = true → ns.length = ds.count .number →
        Laid blank ds (ns.map Nat.cast) (print ds ns ++ rest) := fun hs hl =>
      ih h.tail hspace' (fun hw => hword (List.mem_cons_of_mem _ hw)) hs hl
    cases d with
    | space c =>
      have hc : ∀ b ∈ [c], blank b = true := by simpa using hspace c List.mem_cons_self
      exact Laid.space (w := [c]) hc (hrest hsep (by simpa using hlen))
    | char c => exact Laid.char (hrest hsep (by simpa using hlen))
    | number =>
      cases ns with
      | nil => simp at hlen
      | cons n ns =>
        simp only [separated, Bool.and_eq_true] at hsep
        obtain ⟨hparts, hsep⟩ := hsep
        rw [print, List.append_assoc]
        exact Laid.number (w := []) (by simp) (.bare (numeral_toDigits n)) (print_stops h.tail hspace' hparts ns rest)
          (hrest hsep (by simpa using hlen))
    | word => exact absurd List.mem_cons_self hword

end Lib.Scan
