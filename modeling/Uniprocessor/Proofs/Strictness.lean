import Mathlib.Data.List.TakeWhile
import Uniprocessor.Proofs.Reading

/-!
# Reading nothing but what the grammar spells

What a reader takes off the front of a text consists of blanks and a spelling of the value that it
makes of it (`Strict`). For a number this needs that digits without a superfluous zero are those of
the number that they write; a sign, a point or an exponent never leads to an unsigned integer. The
halves of a surrogate pair are the one place where a code alone is not yet a character.
-/

namespace Uniprocessor.Json

variable {α γ : Type}

/-- What the reader takes off a text is a spelling of what it makes of it, behind blanks: it reads
nothing but what `S` allows. -/
def Strict (read : Reader γ) (S : Spelling γ) : Prop :=
  ∀ ⦃cs c rest⦄, read cs = .ok (c, rest) → ∃ u w, Blank u ∧ cs = u ++ (w ++ rest) ∧ S c w

theorem Blank.append {u v : List Char} (hu : Blank u) (hv : Blank v) : Blank (u ++ v) :=
  List.forall_mem_append.2 ⟨hu, hv⟩

theorem blank_of_isSpace {w : List Char} (h : ∀ c ∈ w, isSpace c = true) : Blank w := by
  intro c hc
  simpa [isSpace, or_assoc] using h c hc

/-- Only blanks are skipped: what `skipSpace` takes off a text is `Blank`. -/
theorem exists_blank (cs : List Char) : ∃ u, Blank u ∧ cs = u ++ skipSpace cs :=
  ⟨cs.takeWhile isSpace, blank_of_isSpace fun _ hc => List.mem_takeWhile_imp hc,
    List.takeWhile_append_dropWhile.symm⟩

theorem readWord_eq_ok {word cs rest : List Char} (h : readWord word cs = .ok ((), rest)) :
    cs = word ++ rest := by
  induction word generalizing cs with
  | nil => simpa [readWord] using h
  | cons w word ih =>
    cases cs with
    | nil => simp [readWord] at h
    | cons c cs =>
      rw [readWord] at h
      split at h
      · next heq => rw [heq, ih h, List.cons_append]
      · cases h

/-- A value of the wrong kind is never read: `refuse` only tells of an error, whatever the text
is. -/
theorem refuse_ne_ok {expected : String} {cs : List Char} {a : α} : refuse expected cs ≠ .ok a := by
  intro h
  obtain ⟨found, -, hthrow⟩ := bind_eq_ok.1 h
  cases hthrow

/-! ## Numbers -/

/-- A digit is that of its value: the inverse of what `digitValue` makes of it. -/
theorem digitChar_digitValue {c : Char} (h : isDigit c = true) :
    digitValue c < 10 ∧ (digitValue c).digitChar = c := by
  rw [isDigit_eq, Char.isDigit_iff_toNat] at h
  have hzero : '0'.toNat = 48 := rfl
  have hnine : '9'.toNat = 57 := rfl
  have hlt : digitValue c < 10 := by
    rw [digitValue]
    omega
  refine ⟨hlt, Char.toNat_inj.1 ?_⟩
  rw [Nat.toNat_digitChar_of_lt_ten hlt, digitValue]
  omega

/-- Digits behind a number that is not zero are those of the number that they make of it:
`Nat.toDigits` undoes the sum digit by digit. -/
theorem toDigits_foldl {ds : List Char} (hds : ∀ c ∈ ds, isDigit c = true) {n : Nat} (hn : 0 < n) :
    Nat.toDigits 10 (ds.foldl (fun n c => 10 * n + digitValue c) n) = Nat.toDigits 10 n ++ ds := by
  induction ds generalizing n with
  | nil => simp
  | cons c ds ih =>
    obtain ⟨hlt, hchar⟩ := digitChar_digitValue (hds c List.mem_cons_self)
    have hstep : Nat.toDigits 10 (10 * n + digitValue c) = Nat.toDigits 10 n ++ [c] := by
      rw [← Nat.toDigits_append_toDigits (by decide) hn hlt, Nat.toDigits_of_lt_base hlt, hchar]
    rw [List.foldl_cons, ih (fun d hd => hds d (List.mem_cons_of_mem c hd)) (by omega), hstep,
      List.append_assoc, List.singleton_append]

/-- Digits are a `Decimal` of the number that they write, if they have no superfluous zero. -/
theorem decimal_digitsValue {ds : List Char} (hne : ds ≠ []) (hds : ∀ c ∈ ds, isDigit c = true)
    (hzero : ¬ (ds.head? = some '0' ∧ ds.length ≠ 1)) : Decimal (digitsValue ds) ds := by
  obtain ⟨c, ds, rfl⟩ := List.exists_cons_of_ne_nil hne
  obtain ⟨hlt, hchar⟩ := digitChar_digitValue (hds c List.mem_cons_self)
  have hvalue : digitsValue (c :: ds) =
      ds.foldl (fun n c => 10 * n + digitValue c) (digitValue c) := by
    simp [digitsValue]
  rw [Decimal, hvalue]
  rcases Nat.eq_zero_or_pos (digitValue c) with hz | hpos
  · have hc : c = '0' := by
      rw [← hchar, hz]
      rfl
    have halone : ds = [] := by simpa [hc] using hzero
    simp [hc, halone, digitValue]
  · rw [toDigits_foldl (fun d hd => hds d (List.mem_cons_of_mem c hd)) hpos,
      Nat.toDigits_of_lt_base hlt, hchar, List.singleton_append]

theorem readDigits_eq_ok {cs ds rest : List Char} (h : readDigits cs = .ok (ds, rest)) :
    cs = ds ++ rest ∧ ds ≠ [] ∧ ∀ c ∈ ds, isDigit c = true := by
  cases cs with
  | nil => cases h
  | cons c cs =>
    rw [readDigits] at h
    split at h
    · next hc =>
      cases h
      refine ⟨List.takeWhile_append_dropWhile.symm, ?_, fun _ => List.mem_takeWhile_imp⟩
      simp [hc]
    · cases h

theorem readWhole_eq_ok {cs ds rest : List Char} (h : readWhole cs = .ok (ds, rest)) :
    cs = ds ++ rest ∧ Decimal (digitsValue ds) ds := by
  obtain ⟨⟨ds', rest'⟩, hdigits, h⟩ := bind_eq_ok.1 h
  obtain ⟨hcs, hne, hds⟩ := readDigits_eq_ok hdigits
  dsimp only at h
  split at h
  · cases h
  · next hzero =>
    cases h
    exact ⟨hcs, decimal_digitsValue hne hds hzero⟩

/-- A number with a point or an exponent is fractional, and so is one that is too large: `readScale`
never makes an integer. -/
theorem readScale_eq_ok {x : Scaled} {cs rest : List Char} {n : Number}
    (h : readScale x cs = .ok (n, rest)) : n = .fractional := by
  have hfinish : ∀ (y : Scaled) (cs' : List Char),
      (if y.isFinite then .ok (.fractional, cs') else .error .malformed : Except Complaint _) =
        .ok (n, rest) → n = .fractional := by
    intro y cs' hy
    split at hy
    · cases hy
      rfl
    · cases hy
  rw [readScale.eq_def] at h
  split at h
  · split at h
    · obtain ⟨⟨⟨negative, exponent⟩, rest'⟩, -, h⟩ := bind_eq_ok.1 h
      exact hfinish _ _ h
    · exact hfinish _ _ h
  · exact hfinish _ _ h

/-- An integer has nothing but digits behind its sign: `readMagnitude` makes one of what `readWhole`
reads. -/
theorem readMagnitude_eq_integer {negative : Bool} {cs rest : List Char} {v : Int}
    (h : readMagnitude negative cs = .ok (.integer v, rest)) :
    ∃ ds, readWhole cs = .ok (ds, rest) ∧ signedInteger negative (digitsValue ds) = .integer v := by
  obtain ⟨⟨ds, rest'⟩, hwhole, h⟩ := bind_eq_ok.1 h
  refine ⟨ds, ?_⟩
  dsimp only at h
  split at h
  · obtain ⟨⟨fs, rest''⟩, -, hscale⟩ := bind_eq_ok.1 h
    cases readScale_eq_ok hscale
  · split at h
    · cases readScale_eq_ok h
    · split at h
      · obtain ⟨hinteger, rfl⟩ := Prod.mk.inj (Except.ok.inj h)
        exact ⟨hwhole, hinteger⟩
      · cases readScale_eq_ok h
  · split at h
    · obtain ⟨hinteger, rfl⟩ := Prod.mk.inj (Except.ok.inj h)
      exact ⟨hwhole, hinteger⟩
    · cases readScale_eq_ok h

/-- An integer that is not negative is written by its digits alone, so what `readNumber` takes off
the text is its `Decimal`. -/
theorem readNumber_eq_integer {cs rest : List Char} {v : Int}
    (h : readNumber cs = .ok (.integer v, rest)) (hv : 0 ≤ v) :
    ∃ w, cs = w ++ rest ∧ Decimal v.toNat w := by
  rw [readNumber.eq_def] at h
  split at h
  · obtain ⟨ds, -, hsigned⟩ := readMagnitude_eq_integer h
    rw [signedInteger, if_pos rfl] at hsigned
    split at hsigned
    · cases hsigned
    · next hnonzero =>
      injection hsigned with hneg
      omega
  · obtain ⟨ds, hwhole, hsigned⟩ := readMagnitude_eq_integer h
    obtain ⟨hcs, hds⟩ := readWhole_eq_ok hwhole
    rw [signedInteger, if_neg (by decide)] at hsigned
    split at hsigned
    · injection hsigned with hpos
      refine ⟨ds, hcs, ?_⟩
      rwa [← hpos, Int.toNat_natCast]
    · cases hsigned

/-- The decimal spellings of the numbers of a kind: each `Decimal`, if the number is in the
range. -/
def DecimalWithin (kind : IntegerKind) : Spelling Nat := fun n w =>
  n ≤ kind.largest ∧ Decimal n w

/-- Nothing but the digits of a number of the kind is read by `readNat` as one: no sign, fraction or
exponent, and nothing out of range. -/
theorem strict_readNat (kind : IntegerKind) : Strict (readNat kind) (DecimalWithin kind) := by
  intro cs n rest h
  obtain ⟨u, hu, hcs⟩ := exists_blank cs
  rw [readNat] at h
  split at h
  · cases h
  · next c cs' hskip =>
    split at h
    · obtain ⟨⟨number, rest'⟩, hnumber, h⟩ := bind_eq_ok.1 h
      dsimp only at h
      split at h
      · next value hvalue =>
        cases h
        cases number with
        | fractional => cases hvalue
        | integer v =>
          rw [Number.toNat] at hvalue
          split at hvalue
          · next hrange =>
            cases hvalue
            obtain ⟨w, hw, hdecimal⟩ := readNumber_eq_integer hnumber hrange.1
            refine ⟨u, w, hu, ?_, by omega, hdecimal⟩
            rw [hcs, hskip, hw]
          · cases hvalue
      · cases h
    · exact absurd h refuse_ne_ok

/-- The spellings of a value that may also be null: those of the value, and the word `null`. -/
inductive Nullable (S : Spelling γ) : Spelling (Option γ)
  | value {c : γ} {w : List Char} (h : S c w) : Nullable S (some c) w
  | null : Nullable S none ['n', 'u', 'l', 'l']

/-- Apart from the value, nothing but the word `null` is read by `readOption`. -/
theorem strict_readOption {read : Reader γ} {S : Spelling γ} (hread : Strict read S) :
    Strict (readOption read) (Nullable S) := by
  intro cs o rest h
  obtain ⟨u, hu, hcs⟩ := exists_blank cs
  rw [readOption] at h
  split at h
  · next rest' hskip =>
    obtain ⟨⟨⟨⟩, rest''⟩, hword, h⟩ := bind_eq_ok.1 h
    cases h
    refine ⟨u, _, hu, ?_, .null⟩
    rw [hcs, hskip, readWord_eq_ok hword]
    rfl
  · obtain ⟨⟨c, rest'⟩, hvalue, h⟩ := bind_eq_ok.1 h
    cases h
    obtain ⟨v, w, hv, hskip, hw⟩ := hread hvalue
    refine ⟨u ++ v, w, hu.append hv, ?_, .value hw⟩
    rw [List.append_assoc, ← hskip, ← hcs]

/-! ## Strings -/

/-- A digit that has a hexadecimal value is a `HexDigit` of that value. -/
theorem hexDigit_of_hexValue? {c : Char} {d : Nat} (h : Text.hexValue? c = some d) :
    HexDigit d c := by
  have hall : ∀ n : Fin 128, ∀ d ∈ Text.hexValue? (Char.ofNat n), HexDigit d (Char.ofNat n) := by
    simp only [HexDigit]
    decide
  have hascii : c.toNat < 128 := by
    have hle : ∀ d : Char, c ≤ d → c.toNat ≤ d.toNat := fun d hd => hd
    rw [Text.hexValue?] at h
    split at h
    · next hc => exact Nat.lt_of_le_of_lt (hle '9' hc.2) (by decide)
    · split at h
      · next hc => exact Nat.lt_of_le_of_lt (hle 'f' hc.2) (by decide)
      · split at h
        · next hc => exact Nat.lt_of_le_of_lt (hle 'F' hc.2) (by decide)
        · cases h
  have hc := hall ⟨c.toNat, hascii⟩ d
  rw [Char.ofNat_toNat] at hc
  exact hc h

theorem readCode_eq_ok {cs rest : List Char} {n : Nat} (h : readCode cs = .ok (n, rest)) :
    ∃ w, cs = w ++ rest ∧ Code n w := by
  rw [readCode.eq_def] at h
  split at h
  · split at h
    · next ha hb hc hd =>
      cases h
      exact ⟨_, rfl, .digits (hexDigit_of_hexValue? ha) (hexDigit_of_hexValue? hb)
        (hexDigit_of_hexValue? hc) (hexDigit_of_hexValue? hd)⟩
    · cases h
  · split at h <;> cases h

theorem Code.lt {n : Nat} {w : List Char} (h : Code n w) : n < 0x10000 := by
  cases h with
  | digits ha hb hc hd =>
    have ⟨hp, _⟩ := ha
    have ⟨hq, _⟩ := hb
    have ⟨hr, _⟩ := hc
    have ⟨hs, _⟩ := hd
    omega

/-- A number outside the halves of surrogate pairs is that of its character, so nothing is lost when
it is made one. -/
theorem toNat_ofNat {n : Nat} (h : n < 0xd800 ∨ 0xdfff < n ∧ n < 0x110000) :
    (Char.ofNat n).toNat = n := by
  have hvalid : n.isValidChar := h
  have hchar : Char.ofNat n = Char.ofNatAux n hvalid := dif_pos hvalid
  rw [hchar]
  rfl

/-- Behind the first half of a surrogate pair only the second half is read, by another escape, and
both make up the number of the character. -/
theorem readLowSurrogate_eq_ok {high : Nat} (hhigh : high < 0x400) {cs rest : List Char} {c : Char}
    (h : readLowSurrogate (0xd800 + high) cs = .ok (c, rest)) :
    ∃ low w, cs = '\\' :: 'u' :: (w ++ rest) ∧ low < 0x400 ∧ Code (0xdc00 + low) w ∧
      c.toNat = 0x10000 + high * 0x400 + low := by
  rw [readLowSurrogate.eq_def] at h
  split at h
  · cases h
  · cases h
  · obtain ⟨⟨n, rest'⟩, hcode, hn⟩ := bind_eq_ok.1 h
    obtain ⟨w, hcs, hw⟩ := readCode_eq_ok hcode
    dsimp only at hn
    split at hn
    · next hsecond =>
      rw [isLowSurrogate, Bool.and_eq_true, decide_eq_true_eq, decide_eq_true_eq] at hsecond
      obtain ⟨low, rfl⟩ := Nat.exists_eq_add_of_le hsecond.1
      obtain ⟨hc, rfl⟩ := Prod.mk.inj (Except.ok.inj hn)
      rw [Nat.add_sub_cancel_left, Nat.add_sub_cancel_left] at hc
      refine ⟨low, w, by rw [hcs], by omega, hw, ?_⟩
      rw [← hc, toNat_ofNat (by omega)]
    · cases hn
  · cases h

/-- What `readCoded` takes off the text behind the letter of an escape is one code, or two that are
a pair: a `Letter` of the character. -/
theorem readCoded_eq_ok {cs rest : List Char} {c : Char} (h : readCoded cs = .ok (c, rest)) :
    ∃ w, cs = w ++ rest ∧ Letter c ('\\' :: 'u' :: w) := by
  obtain ⟨⟨n, rest'⟩, hcode, hn⟩ := bind_eq_ok.1 h
  obtain ⟨v, hcs, hv⟩ := readCode_eq_ok hcode
  have hlt := hv.lt
  dsimp only at hn
  split at hn
  · cases hn
  · next hlow =>
    split at hn
    · next hhigh =>
      rw [isHighSurrogate, Bool.and_eq_true, decide_eq_true_eq, decide_eq_true_eq] at hhigh
      obtain ⟨high, rfl⟩ := Nat.exists_eq_add_of_le hhigh.1
      have hfirst : high < 0x400 := by omega
      obtain ⟨low, w, rfl, hsecond, hw, hc⟩ := readLowSurrogate_eq_ok hfirst hn
      exact ⟨v ++ '\\' :: 'u' :: w, by simp [hcs], .pair hfirst hsecond hc hv hw⟩
    · next hhigh =>
      obtain ⟨hc, rfl⟩ := Prod.mk.inj (Except.ok.inj hn)
      refine ⟨v, hcs, .code ?_⟩
      simp only [isLowSurrogate, isHighSurrogate, Bool.and_eq_true, decide_eq_true_eq]
        at hlow hhigh
      rwa [← hc, toNat_ofNat (by omega)]

/-- The short escapes are those of the grammar: what `shortEscape?` knows is in `shortEscapes`. -/
theorem mem_shortEscapes {e c : Char} (h : shortEscape? e = some c) : (e, c) ∈ shortEscapes := by
  rw [shortEscape?.eq_def] at h
  split at h <;> cases h <;> decide

theorem readEscaped_eq_ok {cs rest : List Char} {c : Char} (h : readEscaped cs = .ok (c, rest)) :
    ∃ w, cs = w ++ rest ∧ Letter c ('\\' :: w) := by
  rw [readEscaped.eq_def] at h
  split at h
  · cases h
  · obtain ⟨w, rfl, hw⟩ := readCoded_eq_ok h
    exact ⟨'u' :: w, rfl, hw⟩
  · split at h
    · next hshort =>
      cases h
      exact ⟨[_], rfl, .short (mem_shortEscapes hshort)⟩
    · cases h

/-- Characters are read by `readCharsWithin` up to the closing quote, each from one of its
spellings: what it takes off the text are `Letters`. -/
theorem readCharsWithin_eq_ok {steps : Nat} {cs ds rest : List Char}
    (h : readCharsWithin steps cs = .ok (ds, rest)) :
    ∃ w, cs = w ++ '"' :: rest ∧ Letters ds w := by
  induction steps generalizing cs ds with
  | zero => cases h
  | succ steps ih =>
    cases cs with
    | nil => cases h
    | cons c cs =>
      rw [readCharsWithin] at h
      split at h
      · next hquote =>
        cases h
        exact ⟨[], by rw [hquote, List.nil_append], .nil⟩
      · next hquote =>
        split at h
        · next hescape =>
          obtain ⟨⟨d, rest₁⟩, hescaped, h⟩ := bind_eq_ok.1 h
          obtain ⟨⟨ds', rest₂⟩, hchars, h⟩ := bind_eq_ok.1 h
          cases h
          obtain ⟨v, rfl, hv⟩ := readEscaped_eq_ok hescaped
          obtain ⟨w, rfl, hw⟩ := ih hchars
          exact ⟨('\\' :: v) ++ w, by simp [hescape], .cons hv hw⟩
        · next hescape =>
          split at h
          · cases h
          · next hcontrol =>
            obtain ⟨⟨ds', rest'⟩, hchars, h⟩ := bind_eq_ok.1 h
            cases h
            obtain ⟨w, rfl, hw⟩ := ih hchars
            exact ⟨[c] ++ w, by simp, .cons (.plain (Nat.le_of_not_lt hcontrol) hquote hescape) hw⟩

/-- Behind its opening quote a string is read by `readQuoted` up to its closing one, and with both
it is `Quoted`. -/
theorem readQuoted_eq_ok {cs rest : List Char} {s : String} (h : readQuoted cs = .ok (s, rest)) :
    ∃ w, '"' :: cs = w ++ rest ∧ Quoted s w := by
  obtain ⟨⟨ds, rest'⟩, hchars, h⟩ := bind_eq_ok.1 h
  cases h
  obtain ⟨w, rfl, hw⟩ := readCharsWithin_eq_ok hchars
  refine ⟨'"' :: (w ++ ['"']), by simp, .quotes ?_⟩
  rwa [String.toList_ofList]

/-! ## Lists -/

/-- Further blanks may stand before an element: they belong to its `Lead`. -/
theorem Lead.append {first : Bool} {u v : List Char} (hu : Lead first u) (hv : Blank v) :
    Lead first (u ++ v) := by
  cases hu with
  | first h => exact .first (h.append hv)
  | next h hw =>
    rw [List.append_assoc, List.cons_append]
    exact .next h (hw.append hv)

/-- Before an element `nextElement` has passed no more than may stand there: a `Lead`. -/
theorem nextElement_eq_some {first : Bool} {cs cs' : List Char}
    (h : nextElement first cs = .ok (some cs')) : ∃ u, Lead first u ∧ cs = u ++ cs' := by
  obtain ⟨u, hu, hcs⟩ := exists_blank cs
  rw [nextElement] at h
  split at h
  · cases h
  · cases h
  · next c rest _ hskip =>
    split at h
    · next hfirst =>
      cases h
      exact ⟨u, hfirst ▸ .first hu, by rw [hcs, hskip]⟩
    · next hfirst =>
      rw [Bool.not_eq_true] at hfirst
      split at h
      · next hcomma =>
        obtain ⟨v, hv, hrest⟩ := exists_blank rest
        split at h
        · cases h
        · cases h
        · next d rest' _ hskip' =>
          cases h
          refine ⟨u ++ ',' :: v, hfirst ▸ .next hu hv, ?_⟩
          rw [hcs, hskip, hcomma, hrest, hskip', List.append_assoc, List.cons_append]
      · cases h

theorem closeList_eq_ok {cs rest : List Char} (h : closeList cs = .ok rest) :
    ∃ u, Blank u ∧ cs = u ++ ']' :: rest := by
  obtain ⟨u, hu, hcs⟩ := exists_blank cs
  rw [closeList] at h
  split at h
  · cases h
  · next rest' hskip =>
    cases h
    exact ⟨u, hu, by rw [hcs, hskip]⟩
  · cases h

/-- Elements are read up to the closing bracket, and what `readElementsWithin` takes off the text is
a `Sequence` if each element is read strictly. -/
theorem Strict.readElementsWithin {read : Reader γ} {S : Spelling γ} (hread : Strict read S)
    {steps : Nat} {first : Bool} {cs rest : List Char} {as : List γ}
    (h : readElementsWithin read steps first cs = .ok (as, rest)) :
    ∃ w, cs = w ++ ']' :: rest ∧ Sequence S first as w := by
  induction steps generalizing first cs as with
  | zero => cases h
  | succ steps ih =>
    obtain ⟨next, hnext, h⟩ := bind_eq_ok.1 h
    cases next with
    | none =>
      obtain ⟨rest', hclose, h⟩ := bind_eq_ok.1 h
      cases h
      obtain ⟨u, hu, hcs⟩ := closeList_eq_ok hclose
      exact ⟨u, hcs, .done hu⟩
    | some cs' =>
      obtain ⟨⟨a, rest₁⟩, helement, h⟩ := bind_eq_ok.1 h
      obtain ⟨⟨as', rest₂⟩, helements, h⟩ := bind_eq_ok.1 h
      cases h
      obtain ⟨u, hu, rfl⟩ := nextElement_eq_some hnext
      obtain ⟨u', v, hu', rfl, hv⟩ := hread helement
      obtain ⟨w, rfl, hw⟩ := ih helements
      exact ⟨(u ++ u') ++ (v ++ w), by simp, .more (hu.append hu') hv hw⟩

/-- Nothing but lists of what is read as an element is read by `readList`: it is strict for a
`Listing` if the reader of elements is strict. -/
theorem strict_readList {read : Reader γ} {S : Spelling γ} (hread : Strict read S) :
    Strict (readList read) (Listing S) := by
  intro cs as rest h
  obtain ⟨u, hu, hcs⟩ := exists_blank cs
  rw [readList] at h
  split at h
  · cases h
  · next cs' hskip =>
    obtain ⟨w, rfl, hw⟩ := hread.readElementsWithin h
    refine ⟨u, _, hu, ?_, .brackets hw⟩
    rw [hcs, hskip, List.cons_append, List.append_assoc, List.singleton_append]
  · exact absurd h refuse_ne_ok

end Uniprocessor.Json
