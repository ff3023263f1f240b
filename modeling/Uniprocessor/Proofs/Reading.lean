import Uniprocessor.Fault
import Uniprocessor.Json.Value
import Uniprocessor.Proofs.Grammar

/-!
# Reading what the grammar spells

A reader gets the text from some place on, with all that follows, and must find out by itself where
its value ends. So what it makes of a spelling depends on what comes behind. A number goes on as
long as there are digits, and a point or an exponent would make it another number; all other values
end with their last character. A reader that does its work behind any blanks, and before any text
that does not go on with a number (`Stops`), reads the spelling (`Reads`).

A reader of elements tells by the next character whether there is one: no spelling begins with a
blank or with a closing bracket (`Leads`).
-/

namespace Uniprocessor.Json

variable {α γ : Type}

/-! ## Where a value begins and ends -/

/-- The text begins with a character that is neither a blank nor a closing bracket, so a reader that
skips blanks finds the value. -/
def Leads (w : List Char) : Prop := ∃ c v, w = c :: v ∧ isSpace c = false ∧ c ≠ ']'

/-- The text does not go on with what would belong to a number before it: no digit, no point and no
exponent. -/
def Stops (cs : List Char) : Prop :=
  ∀ c ∈ cs.head?, isDigit c = false ∧ c ≠ '.' ∧ c ≠ 'e' ∧ c ≠ 'E'

theorem stops_nil : Stops [] := by simp [Stops]

theorem stops_cons {c : Char} {cs : List Char} :
    Stops (c :: cs) ↔ isDigit c = false ∧ c ≠ '.' ∧ c ≠ 'e' ∧ c ≠ 'E' := by
  simp [Stops]

theorem Blank.isSpace {w : List Char} (h : Blank w) : ∀ c ∈ w, isSpace c = true := by
  intro c hc
  have hmem := h c hc
  simp only [List.mem_cons, List.not_mem_nil, or_false] at hmem
  rcases hmem with rfl | rfl | rfl | rfl <;> rfl

/-- Blanks do not belong to a number, so it stops before them if it stops before what follows. -/
theorem Blank.stops_append {w cs : List Char} (h : Blank w) (hcs : Stops cs) : Stops (w ++ cs) := by
  cases w with
  | nil => exact hcs
  | cons c w =>
    have hmem := h c List.mem_cons_self
    simp only [List.mem_cons, List.not_mem_nil, or_false] at hmem
    rw [List.cons_append, stops_cons]
    rcases hmem with rfl | rfl | rfl | rfl <;> decide

/-- What `skipSpace` leaves behind blanks is what it leaves of the rest. -/
theorem skipSpace_blank {w : List Char} (h : Blank w) (cs : List Char) :
    skipSpace (w ++ cs) = skipSpace cs :=
  List.dropWhile_append_of_pos h.isSpace

theorem skipSpace_cons {c : Char} (h : isSpace c = false) (cs : List Char) :
    skipSpace (c :: cs) = c :: cs := by
  simp [skipSpace, h]

/-- What `skipSpace` leaves behind blanks before a value is the value: it stops where the text
`Leads`. -/
theorem skipSpace_leads {u w : List Char} (hu : Blank u) (hw : Leads w) (cs : List Char) :
    skipSpace (u ++ (w ++ cs)) = w ++ cs := by
  obtain ⟨c, v, rfl, hc, -⟩ := hw
  rw [skipSpace_blank hu, List.cons_append, skipSpace_cons hc]

/-- The reader reads the texts of `T` behind blanks and up to what follows, and what it makes of
them has the property `P`. -/
structure Reads (read : Reader γ) (T : List Char → Prop) (P : γ → Prop) : Prop where
  /-- the texts can be told from blanks and closing brackets -/
  leads : ∀ {w}, T w → Leads w
  /-- the reader gets to the end of such a text, and no further -/
  reads : ∀ {u w rest}, Blank u → T w → Stops rest →
    ∃ c, read (u ++ (w ++ rest)) = .ok (c, rest) ∧ P c

/-- What a reader makes of texts that leave it no choice: the one value of the property, and the
rest of the text. -/
theorem Reads.eq {read : Reader γ} {T : List Char → Prop} {c : γ} (h : Reads read T (· = c))
    {u w rest : List Char} (hu : Blank u) (hw : T w) (hrest : Stops rest) :
    read (u ++ (w ++ rest)) = .ok (c, rest) := by
  obtain ⟨d, hread, rfl⟩ := h.reads hu hw hrest
  exact hread

/-! ## Numbers -/

theorem isDigit_eq (c : Char) : isDigit c = c.isDigit := by
  simp [isDigit, Char.isDigit, Char.le_def]

theorem ne_of_isDigit {c d : Char} (hc : isDigit c = true) (hd : isDigit d = false) : c ≠ d := by
  rintro rfl
  rw [hc] at hd
  cases hd

theorem isSpace_of_isDigit {c : Char} (h : isDigit c = true) : isSpace c = false := by
  simp only [isSpace, Bool.or_eq_false_iff, decide_eq_false_iff_not]
  exact ⟨⟨⟨ne_of_isDigit h rfl, ne_of_isDigit h rfl⟩, ne_of_isDigit h rfl⟩, ne_of_isDigit h rfl⟩

theorem digitsValue_toDigits (n : Nat) : digitsValue (Nat.toDigits 10 n) = n := by
  have hvalue : digitsValue (Nat.toDigits 10 n) = Nat.ofDigitChars 10 (Nat.toDigits 10 n) 0 :=
    Nat.ofDigitChars_eq_foldl.symm
  rw [hvalue, Nat.ofDigitChars_ten_toDigits]

theorem isDigit_of_mem {n : Nat} {c : Char} (h : c ∈ Nat.toDigits 10 n) : isDigit c = true := by
  rw [isDigit_eq]
  exact Nat.isDigit_of_mem_toDigits (by decide) (by decide) h

/-- Decimal digits, as `Nat.toDigits` gives them, begin with a digit, so a number can be told by its
first character. -/
theorem toDigits_eq_cons (n : Nat) : ∃ c cs, Nat.toDigits 10 n = c :: cs ∧ isDigit c = true := by
  cases h : Nat.toDigits 10 n with
  | nil => exact absurd h Nat.toDigits_ne_nil
  | cons c cs => exact ⟨c, cs, rfl, isDigit_of_mem (h ▸ List.mem_cons_self)⟩

/-- Only the number zero begins with a zero, so no `Decimal` is taken for one with a superfluous
zero. -/
theorem eq_zero_of_head_toDigits {n : Nat} (h : (Nat.toDigits 10 n).head? = some '0') : n = 0 := by
  induction n using Nat.strongRecOn with
  | ind n ih =>
    rcases Nat.lt_or_ge n 10 with hlt | hge
    · rw [Nat.toDigits_of_lt_base hlt, List.head?_cons, Option.some.injEq] at h
      have hcode : 48 + n = '0'.toNat := h ▸ (Nat.toNat_digitChar_of_lt_ten hlt).symm
      exact Nat.add_left_cancel hcode
    · rw [Nat.toDigits_of_base_le (by decide) hge,
        List.head?_append_of_ne_nil _ Nat.toDigits_ne_nil] at h
      have hzero : n / 10 = 0 := ih (n / 10) (by omega) h
      omega

/-- Digits are read by `readDigits` up to their end, where the text `Stops`. -/
theorem readDigits_append {ds cs : List Char} (hne : ds ≠ []) (hds : ∀ c ∈ ds, isDigit c = true)
    (hcs : Stops cs) : readDigits (ds ++ cs) = .ok (ds, cs) := by
  obtain ⟨c, ds', rfl⟩ := List.exists_cons_of_ne_nil hne
  have htake : cs.takeWhile isDigit = [] ∧ cs.dropWhile isDigit = cs := by
    cases cs with
    | nil => exact ⟨rfl, rfl⟩
    | cons d cs => simp [(stops_cons.1 hcs).1]
  have hc : isDigit c = true := hds c List.mem_cons_self
  rw [List.cons_append]
  simp only [readDigits, hc, if_true]
  rw [← List.cons_append, List.takeWhile_append_of_pos hds, List.dropWhile_append_of_pos hds,
    htake.1, htake.2, List.append_nil]

/-- The digits of a number are read by `readWhole` as they are, since there is no superfluous zero
among them. -/
theorem readWhole_decimal (n : Nat) {cs : List Char} (hcs : Stops cs) :
    readWhole (Nat.toDigits 10 n ++ cs) = .ok (Nat.toDigits 10 n, cs) := by
  have halone : ¬ ((Nat.toDigits 10 n).head? = some '0' ∧ (Nat.toDigits 10 n).length ≠ 1) := by
    rintro ⟨hhead, hlength⟩
    rw [eq_zero_of_head_toDigits hhead] at hlength
    exact hlength rfl
  rw [readWhole, readDigits_append Nat.toDigits_ne_nil (fun _ => isDigit_of_mem) hcs, ok_bind]
  exact if_neg halone

/-- The digits of a number of 64 bits are read by `readNumber` as an integer, and not as a
fraction. -/
theorem readNumber_decimal {n : Nat} (hn : n ≤ largestInteger) {cs : List Char} (hcs : Stops cs) :
    readNumber (Nat.toDigits 10 n ++ cs) = .ok (.integer n, cs) := by
  have hinteger : signedInteger false n = .integer n := by simp [signedInteger, hn]
  have hmagnitude : readMagnitude false (Nat.toDigits 10 n ++ cs) = .ok (.integer n, cs) := by
    simp only [readMagnitude, readWhole_decimal n hcs, ok_bind, digitsValue_toDigits, hinteger,
      if_pos hn]
    cases cs with
    | nil => rfl
    | cons c cs =>
      obtain ⟨-, hpoint, hsmall, hlarge⟩ := stops_cons.1 hcs
      simp [hsmall, hlarge]
      rfl
  obtain ⟨d, ds, hds, hdigit⟩ := toDigits_eq_cons n
  rw [hds, List.cons_append] at hmagnitude ⊢
  have hminus : d ≠ '-' := ne_of_isDigit hdigit rfl
  simpa [readNumber, hminus] using hmagnitude

theorem Decimal.leads {n : Nat} {w : List Char} (h : Decimal n w) : Leads w := by
  obtain ⟨c, cs, hcs, hdigit⟩ := toDigits_eq_cons n
  exact ⟨c, cs, h.trans hcs, isSpace_of_isDigit hdigit, ne_of_isDigit hdigit rfl⟩

/-- A number is read by `readNat` as one of its kind, from its `Decimal`, if it is in the range of
that kind. -/
theorem reads_readNat {kind : IntegerKind} {n : Nat} (hkind : kind.largest ≤ largestInteger)
    (hn : n ≤ kind.largest) : Reads (readNat kind) (Decimal n) (· = n) where
  leads := Decimal.leads
  reads := by
    intro u w rest hu hw hrest
    refine ⟨n, ?_, rfl⟩
    have hnumber := readNumber_decimal (Nat.le_trans hn hkind) hrest
    obtain ⟨c, cs, hcs, hdigit⟩ := toDigits_eq_cons n
    rw [readNat, skipSpace_leads hu hw.leads]
    subst hw
    rw [hcs, List.cons_append] at hnumber ⊢
    simp [hdigit, hnumber, Number.toNat, hn]
    rfl

/-- A number or null is read by `readOption`. The `standard` number stands for one that is not
there, so the text has the meaning that `DecimalOrNull` gives it. -/
theorem reads_readOption {kind : IntegerKind} {standard n : Nat}
    (hkind : kind.largest ≤ largestInteger) (hn : n ≤ kind.largest) :
    Reads (readOption (readNat kind)) (DecimalOrNull standard n) (·.getD standard = n) where
  leads := by
    intro w hw
    cases hw with
    | number hw => exact hw.leads
    | null => exact ⟨'n', _, rfl, rfl, by decide⟩
  reads := by
    intro u w rest hu hw hrest
    cases hw with
    | number hw =>
      refine ⟨some n, ?_, rfl⟩
      have hread := (reads_readNat hkind hn).eq .nil hw hrest
      obtain ⟨c, cs, hcs, hdigit⟩ := toDigits_eq_cons n
      have hnull : c ≠ 'n' := ne_of_isDigit hdigit rfl
      rw [readOption, skipSpace_leads hu hw.leads]
      rw [List.nil_append, hw, hcs, List.cons_append] at hread
      subst hw
      rw [hcs, List.cons_append]
      simp [hnull, hread]
    | null =>
      refine ⟨none, ?_, rfl⟩
      rw [readOption, skipSpace_leads hu ⟨'n', _, rfl, rfl, by decide⟩]
      rfl

/-! ## Strings -/

/-- The value of a hexadecimal digit is the number it is for, whether it is a small or a large
letter. -/
theorem HexDigit.hexValue? {d : Nat} {c : Char} (h : HexDigit d c) : Text.hexValue? c = some d := by
  obtain ⟨hlt, hc⟩ := h
  have hall : ∀ d : Fin 16, Text.hexValue? (Nat.digitChar d) = some d.val ∧
      Text.hexValue? (Nat.digitChar d).toUpper = some d.val := by decide
  rcases hc with rfl | rfl
  · exact (hall ⟨d, hlt⟩).1
  · exact (hall ⟨d, hlt⟩).2

/-- The digits of a code are read by `readCode` as the code, whatever follows. -/
theorem Code.readCode {n : Nat} {w : List Char} (h : Code n w) (rest : List Char) :
    readCode (w ++ rest) = .ok (n, rest) := by
  cases h with
  | digits ha hb hc hd =>
    simp [Json.readCode, ha.hexValue?, hb.hexValue?, hc.hexValue?, hd.hexValue?]

/-- The letter of a short escape stands for its character, and is not the `u` of an escape by
code. -/
theorem shortEscape?_of_mem {e c : Char} (h : (e, c) ∈ shortEscapes) :
    e ≠ 'u' ∧ shortEscape? e = some c := by
  have hall : ∀ p ∈ shortEscapes, p.1 ≠ 'u' ∧ shortEscape? p.1 = some p.2 := by decide
  exact hall (e, c) h

/-- The number of a character is not half of a surrogate pair, so an escape by one code is never
taken for one by two. -/
theorem not_surrogate (c : Char) :
    isLowSurrogate c.toNat = false ∧ isHighSurrogate c.toNat = false := by
  have hvalid : c.toNat < 0xd800 ∨ 0xdfff < c.toNat ∧ c.toNat < 0x110000 := c.valid
  constructor
  · simp only [isLowSurrogate, Bool.and_eq_false_iff, decide_eq_false_iff_not]
    omega
  · simp only [isHighSurrogate, Bool.and_eq_false_iff, decide_eq_false_iff_not]
    omega

/-- The two halves of a surrogate pair are read by `readCoded` as the character whose number they
make up. -/
theorem readCoded_pair {c : Char} {high low : Nat} {v w : List Char} (hhigh : high < 0x400)
    (hlow : low < 0x400) (hc : c.toNat = 0x10000 + high * 0x400 + low) (hv : Code (0xd800 + high) v)
    (hw : Code (0xdc00 + low) w) (rest : List Char) :
    readCoded (v ++ ('\\' :: 'u' :: (w ++ rest))) = .ok (c, rest) := by
  have hfirst :
      isLowSurrogate (0xd800 + high) = false ∧ isHighSurrogate (0xd800 + high) = true := by
    simp only [isLowSurrogate, isHighSurrogate, Bool.and_eq_false_iff, decide_eq_false_iff_not,
      Bool.and_eq_true, decide_eq_true_eq]
    omega
  have hsecond : isLowSurrogate (0xdc00 + low) = true := by
    simp only [isLowSurrogate, Bool.and_eq_true, decide_eq_true_eq]
    omega
  have hchar :
      Char.ofNat (0x10000 + (0xd800 + high - 0xd800) * 0x400 + (0xdc00 + low - 0xdc00)) = c := by
    rw [Nat.add_sub_cancel_left, Nat.add_sub_cancel_left, ← hc, Char.ofNat_toNat]
  simp only [readCoded, hv.readCode, ok_bind, hfirst, readLowSurrogate, hw.readCode, hsecond, hchar,
    if_true]
  rfl

theorem Letter.ne_nil {c : Char} {v : List Char} (h : Letter c v) : v ≠ [] := by
  cases h <;> exact List.cons_ne_nil _ _

/-- Each spelling of a character takes `readCharsWithin` one step, after which the others are
read. -/
theorem Letter.readCharsWithin {c : Char} {v : List Char} (h : Letter c v) (steps : Nat)
    (rest : List Char) : readCharsWithin (steps + 1) (v ++ rest) =
      (do let (ds, rest) ← readCharsWithin steps rest
          return (c :: ds, rest)) := by
  cases h with
  | plain hcontrol hquote hescape =>
    simp [Json.readCharsWithin, hquote, hescape, Nat.not_lt.2 hcontrol]
  | short h =>
    obtain ⟨hcoded, hshort⟩ := shortEscape?_of_mem h
    simp [Json.readCharsWithin, readEscaped, hshort]
  | code h =>
    obtain ⟨hlow, hhigh⟩ := not_surrogate c
    simp [Json.readCharsWithin, readEscaped, readCoded, h.readCode, hlow, hhigh]
  | pair hhigh hlow hc hv hw =>
    simp [Json.readCharsWithin, readEscaped, readCoded_pair hhigh hlow hc hv hw]

/-- As many steps as a string has characters, and one for its closing quote, are enough for
`readCharsWithin`. -/
theorem Letters.readCharsWithin {cs w : List Char} (h : Letters cs w) {steps : Nat}
    (hsteps : cs.length < steps) (rest : List Char) :
    readCharsWithin steps (w ++ '"' :: rest) = .ok (cs, rest) := by
  induction h generalizing steps with
  | nil =>
    obtain ⟨steps, rfl⟩ := Nat.exists_eq_add_one_of_ne_zero (Nat.ne_of_gt hsteps)
    rfl
  | cons hc hcs ih =>
    obtain ⟨steps, rfl⟩ := Nat.exists_eq_add_one_of_ne_zero (Nat.ne_zero_of_lt hsteps)
    rw [List.append_assoc, hc.readCharsWithin, ih (Nat.lt_of_succ_lt_succ hsteps)]
    rfl

/-- No character takes less than one of the text, so the length of a text bounds the steps that a
string in it takes. -/
theorem Letters.length_le {cs w : List Char} (h : Letters cs w) : cs.length ≤ w.length := by
  induction h with
  | nil => exact Nat.le_refl 0
  | cons hc hcs ih =>
    have hpos := List.length_pos_iff.2 hc.ne_nil
    rw [List.length_cons, List.length_append]
    omega

/-- A string is read by `readQuoted` up to its closing quote, and not further. -/
theorem Quoted.readQuoted {s : String} {w : List Char} (h : Quoted s w) (rest : List Char) :
    ∃ v, w ++ rest = '"' :: v ∧ readQuoted v = .ok (s, rest) := by
  cases h with
  | @quotes s w h =>
    refine ⟨w ++ '"' :: rest, by simp, ?_⟩
    have hsteps : s.toList.length < (w ++ '"' :: rest).length := by
      have hle := h.length_le
      rw [List.length_append, List.length_cons]
      omega
    rw [Json.readQuoted, h.readCharsWithin hsteps]
    simp only [ok_bind, String.ofList_toList]
    rfl

/-! ## Lists -/

/-- The elements of a list go on with a comma or end with its closing bracket, so a number before
them stops there. -/
theorem Sequence.stops {S : Spelling α} {as : List α} {w : List Char} (h : Sequence S false as w)
    {cs : List Char} (hcs : Stops cs) : Stops (w ++ cs) := by
  cases h with
  | done hw => exact hw.stops_append hcs
  | more hu hv hw =>
    cases hu with
    | next hv hw =>
      rw [List.append_assoc, List.append_assoc]
      exact hv.stops_append (stops_cons.2 (by decide))

/-- No element takes less than one character, so the length of a text bounds the steps that a list
in it takes. -/
theorem Sequence.length_le {S : Spelling α} {first : Bool} {as : List α} {w : List Char}
    (h : Sequence S first as w) (hleads : ∀ a ∈ as, ∀ {v}, S a v → Leads v) :
    as.length ≤ w.length := by
  induction h with
  | done => exact Nat.zero_le _
  | @more first a as u v w hu hv hw ih =>
    have hrest := ih fun b hb => hleads b (List.mem_cons_of_mem a hb)
    obtain ⟨c, v, rfl, -⟩ := hleads a List.mem_cons_self hv
    simp only [List.length_cons, List.length_append]
    omega

/-- Where an element follows, `nextElement` goes to its first character, past the blanks and the
comma before it. -/
theorem Lead.nextElement {first : Bool} {u v : List Char} (hu : Lead first u) (hv : Leads v)
    (rest : List Char) : nextElement first (u ++ (v ++ rest)) = .ok (some (v ++ rest)) := by
  cases hu with
  | first h =>
    rw [Json.nextElement, skipSpace_leads h hv]
    obtain ⟨c, v, rfl, -, hc⟩ := hv
    simp
  | next hu hw =>
    have hskip := skipSpace_leads hw hv rest
    rw [Json.nextElement, List.append_assoc, skipSpace_blank hu, List.cons_append,
      skipSpace_cons rfl]
    obtain ⟨c, v, rfl, -, hc⟩ := hv
    rw [List.cons_append] at hskip ⊢
    simp [hskip]

/-- Where no element follows, `nextElement` says so and the reader stays where it is. -/
theorem Blank.nextElement {w : List Char} (h : Blank w) (first : Bool) (rest : List Char) :
    nextElement first (w ++ ']' :: rest) = .ok none := by
  rw [Json.nextElement, skipSpace_blank h, skipSpace_cons rfl]
  rfl

/-- Behind the last element `closeList` goes past the blanks and the closing bracket. -/
theorem Blank.closeList {w : List Char} (h : Blank w) (rest : List Char) :
    closeList (w ++ ']' :: rest) = .ok rest := by
  rw [Json.closeList, skipSpace_blank h, skipSpace_cons rfl]
  rfl

/-- One step for each element, and one for the closing bracket, are enough for `readElementsWithin`
to read a `Sequence`, if each element is read. -/
theorem Sequence.readElementsWithin {read : Reader α} {S : Spelling α} {first : Bool} {as : List α}
    {w : List Char} (h : Sequence S first as w) (hread : ∀ a ∈ as, Reads read (S a) (· = a))
    {steps : Nat} (hsteps : as.length < steps) (rest : List Char) :
    readElementsWithin read steps first (w ++ ']' :: rest) = .ok (as, rest) := by
  induction h generalizing steps with
  | done hw =>
    obtain ⟨steps, rfl⟩ := Nat.exists_eq_add_one_of_ne_zero (Nat.ne_zero_of_lt hsteps)
    simp [Json.readElementsWithin, hw.nextElement, hw.closeList]
  | @more first a as u v w hu hv hw ih =>
    obtain ⟨steps, rfl⟩ := Nat.exists_eq_add_one_of_ne_zero (Nat.ne_zero_of_lt hsteps)
    have ha : Reads read (S a) (· = a) := hread a List.mem_cons_self
    -- the element ends here even if it is a number: a blank, a comma or the bracket is next
    have hstops : Stops (w ++ ']' :: rest) := hw.stops (stops_cons.2 (by decide))
    have helement : read (v ++ (w ++ ']' :: rest)) = .ok (a, w ++ ']' :: rest) :=
      ha.eq .nil hv hstops
    have hrest := ih (fun b hb => hread b (List.mem_cons_of_mem a hb))
      (Nat.lt_of_succ_lt_succ hsteps)
    rw [List.append_assoc, List.append_assoc, Json.readElementsWithin,
      hu.nextElement (ha.leads hv)]
    simp [helement, hrest]

/-- A list is read by `readList` from its `Listing` if each of its elements is read from its
spelling. -/
theorem reads_readList {read : Reader α} {S : Spelling α} {as : List α}
    (hread : ∀ a ∈ as, Reads read (S a) (· = a)) :
    Reads (readList read) (Listing S as) (· = as) where
  leads := by
    intro w hw
    cases hw with
    | brackets => exact ⟨'[', _, rfl, rfl, by decide⟩
  reads := by
    intro u w rest hu hw hrest
    refine ⟨as, ?_, rfl⟩
    cases hw with
    | @brackets as w h =>
      rw [readList, skipSpace_leads hu ⟨'[', _, rfl, rfl, by decide⟩]
      simp only [List.cons_append, List.append_assoc, List.nil_append]
      refine h.readElementsWithin hread ?_ rest
      have hle := h.length_le fun a ha => (hread a ha).leads
      rw [List.length_append, List.length_cons]
      omega

end Uniprocessor.Json
