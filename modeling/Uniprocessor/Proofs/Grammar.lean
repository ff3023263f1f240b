import Mathlib.Data.List.Perm.Subperm

/-!
# The grammar of JSON texts

Which texts spell a value, said without a word on how a text is read. The grammar covers what the
records of a known shape are made of: numbers without sign, fraction or exponent, strings, lists,
and the records themselves, either as objects or as lists of their fields (`Entered`).

A spelling has no blanks around it. They are part of what holds the pieces together: blanks may
stand before and behind every element of a list (`Sequence`), on both sides of a colon (`Member`),
and around a text as a whole (`Document`).
-/

namespace Uniprocessor.Json

/-- The relation between the values of a type and the texts that spell them: a value may have
several texts, or none. -/
abbrev Spelling (α : Type) := α → List Char → Prop

variable {α : Type}

/-! ## Blanks and numbers -/

/-- Only spaces, tabs, line ends and carriage returns. -/
def Blank (w : List Char) : Prop := ∀ c ∈ w, c ∈ [' ', '\t', '\n', '\r']

theorem Blank.nil : Blank [] := by simp [Blank]

/-- The decimal digits of `n`, without a superfluous zero. -/
def Decimal : Spelling Nat := fun n w => w = Nat.toDigits 10 n

/-- A `Decimal` of the number, or the word `null` if the number is the `standard` one. -/
inductive DecimalOrNull (standard : Nat) : Spelling Nat
  | number {n : Nat} {w : List Char} (h : Decimal n w) : DecimalOrNull standard n w
  | null : DecimalOrNull standard standard ['n', 'u', 'l', 'l']

/-! ## Strings -/

/-- A hexadecimal digit for the number `d`, as a small or as a large letter. -/
def HexDigit (d : Nat) (c : Char) : Prop :=
  d < 16 ∧ (c = d.digitChar ∨ c = d.digitChar.toUpper)

/-- Four of `HexDigit`, the most significant first: a sixteen-bit code as `\u` writes it. -/
inductive Code : Spelling Nat
  | digits {p q r s : Nat} {a b c d : Char} (ha : HexDigit p a) (hb : HexDigit q b)
      (hc : HexDigit r c) (hd : HexDigit s d) : Code (((p * 16 + q) * 16 + r) * 16 + s) [a, b, c, d]

/-- The letters of the short escapes, each with the character that `Letter` lets it stand for. -/
def shortEscapes : List (Char × Char) :=
  [('"', '"'), ('\\', '\\'), ('/', '/'), ('b', '\x08'), ('f', '\x0c'), ('n', '\n'), ('r', '\r'),
    ('t', '\t')]

/-- The spellings of a character in a string. A character beyond the sixteen-bit codes is escaped as
the two halves of a surrogate pair. -/
inductive Letter : Spelling Char
  | plain {c : Char} (hcontrol : 0x20 ≤ c.toNat) (hquote : c ≠ '"') (hescape : c ≠ '\\') :
      Letter c [c]
  | short {e c : Char} (h : (e, c) ∈ shortEscapes) : Letter c ['\\', e]
  | code {c : Char} {w : List Char} (h : Code c.toNat w) : Letter c ('\\' :: 'u' :: w)
  | pair {c : Char} {high low : Nat} {v w : List Char} (hhigh : high < 0x400) (hlow : low < 0x400)
      (hc : c.toNat = 0x10000 + high * 0x400 + low) (hv : Code (0xd800 + high) v)
      (hw : Code (0xdc00 + low) w) : Letter c ('\\' :: 'u' :: (v ++ '\\' :: 'u' :: w))

/-- The spellings of characters in a row, each a `Letter`. -/
inductive Letters : Spelling (List Char)
  | nil : Letters [] []
  | cons {c : Char} {cs v w : List Char} (hc : Letter c v) (hcs : Letters cs w) :
      Letters (c :: cs) (v ++ w)

/-- The spellings of a string: its characters as `Letters` between two quotation marks. -/
inductive Quoted : Spelling String
  | quotes {s : String} {w : List Char} (h : Letters s.toList w) : Quoted s ('"' :: (w ++ ['"']))

/-! ## Lists -/

/-- What may stand before an element of a `Sequence`: `Blank` texts, with a comma between two of
them unless the element is the first. -/
inductive Lead : Bool → List Char → Prop
  | first {w : List Char} (h : Blank w) : Lead true w
  | next {v w : List Char} (hv : Blank v) (hw : Blank w) : Lead false (v ++ ',' :: w)

/-- The elements of a list up to its closing bracket. The flag says whether the first of them is the
first of the list. -/
inductive Sequence (S : Spelling α) : Bool → List α → List Char → Prop
  | done {first : Bool} {w : List Char} (h : Blank w) : Sequence S first [] w
  | more {first : Bool} {a : α} {as : List α} {u v w : List Char} (hu : Lead first u) (hv : S a v)
      (hw : Sequence S false as w) : Sequence S first (a :: as) (u ++ (v ++ w))

/-- A list in its brackets: an opening one, then a `Sequence` from its first element on. -/
inductive Listing (S : Spelling α) : Spelling (List α)
  | brackets {as : List α} {w : List Char} (h : Sequence S true as w) :
      Listing S as ('[' :: (w ++ [']']))

/-! ## Records -/

/-- A field of the records of a type, as texts show it. -/
structure Entry (α : Type) where
  /-- its key -/
  name : String
  /-- the spellings of what a record has there -/
  spells : Spelling α
  /-- which records an object may spell without the field -/
  absent : α → Prop := fun _ => False
  /-- whether a list may also do without the field, if it does without all behind it -/
  trailing : Bool := false

/-- A field of a record as a member of an object: the key, a colon and the value. -/
inductive Member (a : α) : Spelling (Entry α)
  | colon {e : Entry α} {k u v w : List Char} (hk : Quoted e.name k) (hu : Blank u) (hv : Blank v)
      (hw : e.spells a w) : Member a e (k ++ (u ++ ':' :: (v ++ w)))

/-- The spellings of a record with these fields. As an object it has any of its fields in any order,
and none twice, if it may do without the others. As a list it has its first fields in their own
order, if it may do without the rest. -/
inductive Entered (entries : List (Entry α)) : Spelling α
  | object {a : α} {present : List (Entry α)} {w : List Char} (hpresent : present.Subperm entries)
      (habsent : ∀ e ∈ entries, e ∉ present → e.absent a) (h : Sequence (Member a) true present w) :
      Entered entries a ('\x7b' :: (w ++ ['\x7d']))
  | list {a : α} {front back : List (Entry α)} {w : List Char} (hfront : front ++ back = entries)
      (hback : ∀ e ∈ back, e.trailing = true ∧ e.absent a)
      (h : Sequence (fun e => e.spells a) true front w) :
      Entered entries a ('[' :: (w ++ [']']))

/-- A text that is one value of the spelling `S`, with nothing but `Blank` texts around it. -/
inductive Document (S : Spelling α) : Spelling α
  | blanks {a : α} {u v w : List Char} (hu : Blank u) (hv : S a v) (hw : Blank w) :
      Document S a (u ++ (v ++ w))

/-! ## Everything has a spelling -/

/-- Elements that each have a spelling have one as a `Sequence`, whether or not the first of them
opens the list: the inductive half of `Listing.exists_spelling`. -/
theorem Sequence.exists_spelling {S : Spelling α} {as : List α} (h : ∀ a ∈ as, ∃ w, S a w) :
    ∀ first, ∃ w, Sequence S first as w := by
  induction as with
  | nil =>
    intro first
    exact ⟨[], .done .nil⟩
  | cons a as ih =>
    intro first
    obtain ⟨v, hv⟩ := h a List.mem_cons_self
    obtain ⟨w, hw⟩ := ih (fun b hb => h b (List.mem_cons_of_mem a hb)) false
    cases first with
    | true => exact ⟨_, .more (.first .nil) hv hw⟩
    | false => exact ⟨_, .more (.next .nil .nil) hv hw⟩

/-- A list has a `Listing` if each of its elements has a spelling: nothing about a list can keep it
from being written. -/
theorem Listing.exists_spelling {S : Spelling α} {as : List α} (h : ∀ a ∈ as, ∃ w, S a w) :
    ∃ w, Listing S as w := by
  obtain ⟨w, hw⟩ := Sequence.exists_spelling h true
  exact ⟨_, .brackets hw⟩

/-- A record has an `Entered` text if each of its fields has a spelling: the list of all its fields,
in their own order, is one. -/
theorem Entered.exists_spelling {entries : List (Entry α)} {a : α}
    (h : ∀ e ∈ entries, ∃ w, e.spells a w) : ∃ w, Entered entries a w := by
  obtain ⟨w, hw⟩ := Sequence.exists_spelling h true
  exact ⟨_, .list (List.append_nil entries) (by simp) hw⟩

/-- Characters that need no escape are `Letters` as they are: they are no control characters, no
quotation mark and no backslash. -/
theorem Letters.plain {cs : List Char}
    (h : cs.all (fun c => 0x20 ≤ c.toNat && c != '"' && c != '\\') = true) : Letters cs cs := by
  induction cs with
  | nil => exact .nil
  | cons c cs ih =>
    simp only [List.all_cons, Bool.and_eq_true, decide_eq_true_eq, bne_iff_ne] at h
    obtain ⟨⟨⟨hcontrol, hquote⟩, hescape⟩, hcs⟩ := h
    exact .cons (.plain hcontrol hquote hescape) (ih (by simpa using hcs))

end Uniprocessor.Json
