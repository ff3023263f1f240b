import Mathlib.Data.List.Nodup
import Uniprocessor.Proofs.Shapes
import Uniprocessor.Proofs.Strictness

/-!
# Reading nothing but the fields of a record

While a record is being read it is not known yet which record it will be: what is missing gets its
standard value in the end. What is known are the pieces of text that have stood under the keys so
far (`Excerpts`). A relation `Told` between these and records in the making says that the excerpts
account for all that has been filled in. If every field of a shape keeps this up (`Field.Accounts`)
and a record is only finished where each excerpt may stand under its key, and each key without one
may be missing (`Shape.Accounts`), then whatever the shape reads is a spelling of a record with
these fields (`Shape.Accounts.strict_read`): as an object it has no other key and none twice, as a
list it has no element too many.
-/

namespace Uniprocessor.Json

variable {α β ω : Type}

/-- What stands in a text under each key, as far as the text has it: what is known of a record that
is still being read. -/
abbrev Excerpts := String → Option (List Char)

namespace Entry

/-- What has been found under the key, if anything, may stand there for the record `a`: a spelling
of its field, or nothing where the field may be absent. -/
def Shows (e : Entry α) (a : α) : Option (List Char) → Prop
  | none => e.absent a
  | some w => e.spells a w

/-- The field as one of the excerpts themselves, which is spelled by what stands there: so the text
spells its own excerpts, before it is known which record it spells. -/
def excerpt (e : Entry α) : Entry Excerpts where
  name := e.name
  spells := fun ts w => ts e.name = some w

end Entry

/-- The field takes off a text what then stands under its key: what it makes of the record in the
making is `Told` by one more excerpt. -/
structure Field.Accounts (f : Field β) (e : Entry α) (Told : Excerpts → β → Prop) : Prop where
  /-- they have the same key -/
  name : f.name = e.name
  /-- a spelling may end before the field if a list may -/
  omissible : f.omissible = true → e.trailing = true
  /-- the excerpt is added, behind blanks -/
  reads : ∀ {ts b cs b' rest}, Told ts b → f.read b cs = .ok (b', rest) →
    ∃ u w, Blank u ∧ cs = u ++ (w ++ rest) ∧ Told (Function.update ts e.name (some w)) b'

/-- What the shape makes of a text is accounted for by what stands there under the keys of these
entries: at every point by `Told`, and in the end by `Made`. -/
structure Shape.Accounts (S : Shape β ω) (entries : List (Entry α)) (Told : Excerpts → β → Prop)
    (Made : ω → α → Prop) : Prop where
  /-- at first there are no excerpts -/
  blank : Told (fun _ => none) S.blank
  /-- each field accounts for its entry -/
  fields : List.Forall₂ (fun f e => f.Accounts e Told) S.fields entries
  /-- no two fields have the same key -/
  nodup : (entries.map Entry.name).Nodup
  /-- a finished record has what the text shows of it -/
  finish : ∀ {ts b o}, Told ts b → S.finish b = .ok o →
    ∃ a, Made o a ∧ ∀ e ∈ entries, e.Shows a (ts e.name)

variable {S : Shape β ω} {entries : List (Entry α)} {Told : Excerpts → β → Prop}
  {Made : ω → α → Prop} {ts : Excerpts} {a : α}

/-! ## From excerpts to a record -/

/-- Elements may be said to be spelled otherwise if each of them is: a `Sequence` is monotone in its
spelling. -/
theorem Sequence.imp {P Q : Spelling α} {first : Bool} {as : List α} {w : List Char}
    (h : Sequence P first as w) (himp : ∀ a ∈ as, ∀ v, P a v → Q a v) : Sequence Q first as w := by
  induction h with
  | done hw => exact .done hw
  | more hu hv hw ih =>
    exact .more hu (himp _ List.mem_cons_self _ hv)
      (ih fun b hb => himp b (List.mem_cons_of_mem _ hb))

/-- What all values with a spelling have in common, the elements of a `Sequence` have too. -/
theorem Sequence.forall_mem {P : Spelling α} {Q : α → Prop} {first : Bool} {as : List α}
    {w : List Char} (h : Sequence P first as w) (hP : ∀ a v, P a v → Q a) : ∀ a ∈ as, Q a := by
  induction h with
  | done => simp
  | more _ hv _ ih => exact List.forall_mem_cons.2 ⟨hP _ _ hv, ih⟩

/-- If all spellings are those of values with a property, the values in a `Listing` have it, and the
list is spelled without speaking of it. -/
theorem Listing.and {P : α → Prop} {Q : Spelling α} {as : List α} {w : List Char}
    (h : Listing (fun a v => P a ∧ Q a v) as w) : (∀ a ∈ as, P a) ∧ Listing Q as w := by
  cases h with
  | brackets h =>
    exact ⟨h.forall_mem fun _ _ hv => hv.1, .brackets (h.imp fun _ _ _ hv => hv.2)⟩

/-- What stands under a key that the record `Shows` is what the record has there. -/
theorem Entry.Shows.spells {e : Entry α} (h : e.Shows a (ts e.name)) {w : List Char}
    (hw : e.excerpt.spells ts w) : e.spells a w := by
  have hname : ts e.name = some w := hw
  rwa [hname] at h

/-- A field that the record `Shows` and that is not there may be absent. -/
theorem Entry.Shows.absent {e : Entry α} (h : e.Shows a (ts e.name)) (hw : ts e.name = none) :
    e.absent a := by
  rwa [hw] at h

theorem Entry.Shows.member {e : Entry α} (h : e.Shows a (ts e.name)) {w : List Char}
    (hw : Member ts e.excerpt w) : Member a e w := by
  cases hw with
  | colon hk hu hv hw => exact .colon hk hu hv (h.spells hw)

/-! ## Members of objects -/

/-- Each field of a shape accounts for one of the entries: how a step of the reader is told in terms
of the grammar. -/
theorem exists_entry {fs : List (Field β)} {es : List (Entry α)}
    (h : List.Forall₂ (fun f e => f.Accounts e Told) fs es) {f : Field β} (hf : f ∈ fs) :
    ∃ e ∈ es, f.Accounts e Told := by
  induction h with
  | nil => cases hf
  | cons hhead _ ih =>
    rcases List.mem_cons.1 hf with rfl | hf
    · exact ⟨_, List.mem_cons_self, hhead⟩
    · obtain ⟨e, he, hfe⟩ := ih hf
      exact ⟨e, List.mem_cons_of_mem _ he, hfe⟩

/-- The field that is looked up by `Shape.field?` accounts for the entry with this key. -/
theorem Shape.Accounts.exists_entry (h : S.Accounts entries Told Made) {key : String} {f : Field β}
    (hf : S.field? key = some f) : ∃ e ∈ entries, e.name = key ∧ f.Accounts e Told := by
  obtain ⟨e, he, hfe⟩ := Json.exists_entry h.fields (List.mem_of_find?_eq_some hf)
  have hkey : f.name = key := by simpa using List.find?_some hf
  exact ⟨e, he, hfe.name.symm.trans hkey, hfe⟩

/-- Before a key `nextMember` has passed no more than may stand there: a `Lead`, and the quote that
opens the key. -/
theorem nextMember_eq_true {first : Bool} {cs rest : List Char}
    (h : nextMember first cs = .ok (true, rest)) : ∃ u, Lead first u ∧ cs = u ++ '"' :: rest := by
  obtain ⟨u, hu, hcs⟩ := exists_blank cs
  rw [nextMember] at h
  split at h
  · cases h
  · cases h
  · next c rest' _ hskip =>
    split at h
    · next hfirst =>
      split at h
      · next hquote =>
        cases h
        exact ⟨u, hfirst ▸ .first hu, by rw [hcs, hskip, hquote]⟩
      · cases h
    · next hfirst =>
      rw [Bool.not_eq_true] at hfirst
      split at h
      · next hcomma =>
        obtain ⟨v, hv, hrest⟩ := exists_blank rest'
        split at h
        · cases h
        · next rest'' hskip' =>
          cases h
          refine ⟨u ++ ',' :: v, hfirst ▸ .next hu hv, ?_⟩
          rw [hcs, hskip, hcomma, hrest, hskip', List.append_assoc, List.cons_append]
        · cases h
      · cases h

/-- Where there is no key the object has been closed: `nextMember` has passed blanks and the closing
brace. -/
theorem nextMember_eq_false {first : Bool} {cs rest : List Char}
    (h : nextMember first cs = .ok (false, rest)) : ∃ u, Blank u ∧ cs = u ++ '\x7d' :: rest := by
  obtain ⟨u, hu, hcs⟩ := exists_blank cs
  rw [nextMember] at h
  split at h
  · cases h
  · next rest' hskip =>
    cases h
    exact ⟨u, hu, by rw [hcs, hskip]⟩
  · split at h
    · split at h <;> cases h
    · split at h
      · split at h <;> cases h
      · cases h

theorem readColon_eq_ok {cs rest : List Char} (h : readColon cs = .ok rest) :
    ∃ u, Blank u ∧ cs = u ++ ':' :: rest := by
  obtain ⟨u, hu, hcs⟩ := exists_blank cs
  rw [readColon] at h
  split at h
  · cases h
  · next rest' hskip =>
    cases h
    exact ⟨u, hu, by rw [hcs, hskip]⟩
  · cases h

/-- What a step of `Shape.readMembers` does: it goes past the closing brace, or it reads one member
of a new key. -/
theorem Shape.readMembers_cases {steps : Nat} {keys : List String} {b b' : β} {cs rest : List Char}
    (hread : S.readMembers (steps + 1) keys b cs = .ok (b', rest)) :
    (b' = b ∧ ∃ u, Blank u ∧ cs = u ++ '\x7d' :: rest) ∨
      ∃ key f b₁ l k u cs₁ rest₁, Lead keys.isEmpty l ∧ Quoted key k ∧ Blank u ∧
        cs = l ++ (k ++ (u ++ ':' :: cs₁)) ∧ S.field? key = some f ∧ key ∉ keys ∧
        f.read b cs₁ = .ok (b₁, rest₁) ∧
        S.readMembers steps (key :: keys) b₁ rest₁ = .ok (b', rest) := by
  obtain ⟨⟨more, rest₁⟩, hnext, hmember⟩ := bind_eq_ok.1 hread
  cases more with
  | false =>
    cases hmember
    exact .inl ⟨rfl, nextMember_eq_false hnext⟩
  | true =>
    obtain ⟨⟨key, rest₂⟩, hquoted, hkey⟩ := bind_eq_ok.1 hmember
    dsimp only at hkey
    split at hkey
    · cases hkey
    · next f hfield =>
      split at hkey
      · cases hkey
      · next hnew =>
        obtain ⟨cs₁, hcolon, htail⟩ := bind_eq_ok.1 hkey
        obtain ⟨⟨b₁, rest₃⟩, hvalue, hmembers⟩ := bind_eq_ok.1 htail
        obtain ⟨l, hl, rfl⟩ := nextMember_eq_true hnext
        obtain ⟨k, hk, hquotes⟩ := readQuoted_eq_ok hquoted
        obtain ⟨u, hu, rfl⟩ := readColon_eq_ok hcolon
        exact .inr ⟨key, f, b₁, l, k, u, cs₁, rest₃, hl, hquotes, hu, by rw [hk], hfield, hnew,
          hvalue, hmembers⟩

/-- Members are read up to the closing brace. Their keys are those of entries, and neither one
another's nor among those that had been read before: by induction on the steps, with `Told` for what
has been read. -/
theorem Shape.Accounts.readMembers (h : S.Accounts entries Told Made) {steps : Nat}
    {keys : List String} {b b' : β} {cs rest : List Char} (htold : Told ts b)
    (hread : S.readMembers steps keys b cs = .ok (b', rest)) :
    ∃ ts' present w, cs = w ++ '\x7d' :: rest ∧ Told ts' b' ∧
      Sequence (fun e => Member ts' e.excerpt) keys.isEmpty present w ∧
      (∀ e ∈ present, e ∈ entries ∧ e.name ∉ keys) ∧ (present.map Entry.name).Nodup ∧
      ∀ key ∉ present.map Entry.name, ts' key = ts key := by
  induction steps generalizing keys ts b cs with
  | zero => cases hread
  | succ steps ih =>
    obtain ⟨rfl, u, hu, rfl⟩ | ⟨key, f, b₁, l, k, u, cs₁, rest₁, hl, hk, hu, rfl, hfield, hnew,
      hvalue, hmembers⟩ := readMembers_cases hread
    · exact ⟨ts, [], u, rfl, htold, .done hu, by simp⟩
    · obtain ⟨e, he, rfl, hf⟩ := h.exists_entry hfield
      obtain ⟨v, w, hv, rfl, htold₁⟩ := hf.reads htold hvalue
      obtain ⟨ts', present, x, rfl, htold', hx, hpresent, hnodup, hkept⟩ := ih htold₁ hmembers
      have hfresh : e.name ∉ present.map Entry.name := by
        intro hmem
        obtain ⟨d, hd, hname⟩ := List.mem_map.1 hmem
        exact (hpresent d hd).2 (hname ▸ List.mem_cons_self)
      -- the members behind have other keys, so the excerpt stays
      have hexcerpt : ts' e.name = some w := by rw [hkept e.name hfresh, Function.update_self]
      refine ⟨ts', e :: present, l ++ ((k ++ (u ++ ':' :: (v ++ w))) ++ x), by simp, htold',
        .more hl (.colon hk hu hv hexcerpt) hx, ?_, List.nodup_cons.2 ⟨hfresh, hnodup⟩, ?_⟩
      · refine List.forall_mem_cons.2 ⟨⟨he, hnew⟩, fun d hd => ⟨(hpresent d hd).1, ?_⟩⟩
        exact fun hmem => (hpresent d hd).2 (List.mem_cons_of_mem _ hmem)
      · intro key hkey
        rw [List.map_cons, List.mem_cons, not_or] at hkey
        rw [hkept key hkey.2, Function.update_of_ne hkey.1]

/-! ## Fields in a list -/

/-- Where a list has no further element, `Shape.readFields` reads nothing more, and only what may be
left out is passed by. -/
theorem Shape.readFields_of_none {fs : List (Field β)} {es : List (Entry α)}
    (h : List.Forall₂ (fun f e => f.Accounts e Told) fs es) {position : Nat} {first : Bool}
    {b b' : β} {cs rest : List Char} (hnext : nextElement first cs = .ok none)
    (hread : S.readFields position first fs b cs = .ok (b', rest)) :
    b' = b ∧ rest = cs ∧ ∀ e ∈ es, e.trailing = true := by
  induction h generalizing position with
  | nil =>
    cases hread
    exact ⟨rfl, rfl, by simp⟩
  | cons hf hfs ih =>
    rw [Shape.readFields, hnext, ok_bind] at hread
    dsimp only at hread
    split at hread
    · next homissible =>
      obtain ⟨hb, hrest, hall⟩ := ih hread
      exact ⟨hb, hrest, List.forall_mem_cons.2 ⟨hf.omissible homissible, hall⟩⟩
    · cases hread

/-- Fields are read in their own order, up to the closing bracket. The list may only end before
those that may be left out, and `Told` accounts for the fields before them. -/
theorem Shape.readFields_eq_ok {fs : List (Field β)} {es : List (Entry α)}
    (h : List.Forall₂ (fun f e => f.Accounts e Told) fs es) (hnodup : (es.map Entry.name).Nodup)
    {position : Nat} {first : Bool} {b b' : β} {cs rest rest' : List Char} (htold : Told ts b)
    (hread : S.readFields position first fs b cs = .ok (b', rest))
    (hclose : closeList rest = .ok rest') :
    ∃ ts' front back w, front ++ back = es ∧ cs = w ++ ']' :: rest' ∧ Told ts' b' ∧
      Sequence (fun e => e.excerpt.spells ts') first front w ∧ (∀ e ∈ back, e.trailing = true) ∧
      ∀ key ∉ front.map Entry.name, ts' key = ts key := by
  induction h generalizing position first ts b cs with
  | nil =>
    cases hread
    obtain ⟨u, hu, rfl⟩ := closeList_eq_ok hclose
    exact ⟨ts, [], [], u, rfl, rfl, htold, .done hu, by simp⟩
  | @cons f e fs es hf hfs ih =>
    rw [List.map_cons, List.nodup_cons] at hnodup
    obtain ⟨next, hnext, hstep⟩ := bind_eq_ok.1 hread
    cases next with
    | none =>
      obtain ⟨rfl, rfl, htrailing⟩ := readFields_of_none (.cons hf hfs) hnext hread
      obtain ⟨u, hu, rfl⟩ := closeList_eq_ok hclose
      exact ⟨ts, [], e :: es, u, rfl, rfl, htold, .done hu, htrailing, by simp⟩
    | some cs' =>
      obtain ⟨⟨b₁, rest₁⟩, hvalue, hfields⟩ := bind_eq_ok.1 hstep
      obtain ⟨u, hu, rfl⟩ := nextElement_eq_some hnext
      obtain ⟨v, w, hv, rfl, htold₁⟩ := hf.reads htold hvalue
      obtain ⟨ts', front, back, x, rfl, rfl, htold', hx, hback, hkept⟩ := ih hnodup.2 htold₁ hfields
      have hfresh : e.name ∉ front.map Entry.name := fun hmem =>
        hnodup.1 (by rw [List.map_append]; exact List.mem_append_left _ hmem)
      have hexcerpt : ts' e.name = some w := by rw [hkept e.name hfresh, Function.update_self]
      refine ⟨ts', e :: front, back, (u ++ v) ++ (w ++ x), rfl, by simp, htold',
        .more (hu.append hv) hexcerpt hx, hback, fun key hkey => ?_⟩
      rw [List.map_cons, List.mem_cons, not_or] at hkey
      rw [hkept key hkey.2, Function.update_of_ne hkey.1]

/-! ## Either form -/

theorem Shape.close_eq_ok {b : β} {o : ω} (h : S.close b = .ok o) : S.finish b = .ok o := by
  rw [Shape.close] at h
  split at h
  · next hfinish =>
    cases h
    exact hfinish
  · cases h

/-- A list of fields, up to its closing bracket, is an `Entered` text of what is made of it. -/
theorem Shape.Accounts.entered_of_fields (h : S.Accounts entries Told Made) {b : β} {o : ω}
    {cs rest rest' : List Char}
    (hfields : S.readFields 0 true S.fields S.blank cs = .ok (b, rest))
    (hclose : closeList rest = .ok rest') (hfinish : S.finish b = .ok o) :
    ∃ a w, Made o a ∧ Entered entries a w ∧ '[' :: cs = w ++ rest' := by
  obtain ⟨ts, front, back, w, hsplit, rfl, htold, hw, hback, hkept⟩ :=
    readFields_eq_ok h.fields h.nodup h.blank hfields hclose
  obtain ⟨a, hmade, hshows⟩ := h.finish htold hfinish
  have hnodup := h.nodup
  subst hsplit
  rw [List.map_append] at hnodup
  have hfront : Sequence (fun e => e.spells a) true front w :=
    hw.imp fun e he v hv => (hshows e (List.mem_append_left _ he)).spells hv
  refine ⟨a, '[' :: (w ++ [']']), hmade, .list rfl (fun e he => ⟨hback e he, ?_⟩) hfront, by simp⟩
  have hfresh : e.name ∉ front.map Entry.name := fun hmem =>
    List.disjoint_of_nodup_append hnodup hmem (List.mem_map_of_mem he)
  exact (hshows e (List.mem_append_right _ he)).absent (hkept e.name hfresh)

/-- Members, up to the closing brace, are an `Entered` text of what is made of them. -/
theorem Shape.Accounts.entered_of_members (h : S.Accounts entries Told Made) {steps : Nat} {b : β}
    {o : ω} {cs rest : List Char} (hmembers : S.readMembers steps [] S.blank cs = .ok (b, rest))
    (hfinish : S.finish b = .ok o) :
    ∃ a w, Made o a ∧ Entered entries a w ∧ '\x7b' :: cs = w ++ rest := by
  obtain ⟨ts, present, w, rfl, htold, hw, hpresent, hnodup, hkept⟩ :=
    h.readMembers h.blank hmembers
  obtain ⟨a, hmade, hshows⟩ := h.finish htold hfinish
  have hsubset : present ⊆ entries := fun e he => (hpresent e he).1
  have hsubperm : present.Subperm entries :=
    List.subperm_of_subset (List.Nodup.of_map _ hnodup) hsubset
  have hmember : Sequence (Member a) true present w :=
    hw.imp fun e he v hv => (hshows e (hsubset he)).member hv
  refine ⟨a, '\x7b' :: (w ++ ['\x7d']), hmade, .object hsubperm (fun e he hnot => ?_) hmember,
    by simp⟩
  -- another entry with this key would be the same entry
  have hfresh : e.name ∉ present.map Entry.name := by
    intro hmem
    obtain ⟨d, hd, hname⟩ := List.mem_map.1 hmem
    exact hnot (List.inj_on_of_nodup_map h.nodup (hsubset hd) he hname ▸ hd)
  exact (hshows e he).absent (hkept e.name hfresh)

/-- A shape that accounts for what it makes reads nothing but spellings of records: `Shape.read` is
strict, the half of the reader's correctness that says it reads no more than it should. -/
theorem Shape.Accounts.strict_read (h : S.Accounts entries Told Made) :
    Json.Strict S.read fun o w => ∃ a, Made o a ∧ Entered entries a w := by
  intro cs o rest hread
  obtain ⟨u, hu, hcs⟩ := exists_blank cs
  rw [Shape.read] at hread
  split at hread
  · cases hread
  · next cs' hskip =>
    obtain ⟨⟨b, rest₁⟩, hfields, htail⟩ := bind_eq_ok.1 hread
    obtain ⟨o', hfinish, hlast⟩ := bind_eq_ok.1 htail
    obtain ⟨rest₂, hclose, hdone⟩ := bind_eq_ok.1 hlast
    cases hdone
    obtain ⟨a, w, hmade, hw, htext⟩ := h.entered_of_fields hfields hclose (close_eq_ok hfinish)
    exact ⟨u, w, hu, by rw [hcs, hskip, htext], a, hmade, hw⟩
  · next cs' hskip =>
    obtain ⟨⟨b, rest₁⟩, hmembers, htail⟩ := bind_eq_ok.1 hread
    obtain ⟨o', hfinish, hdone⟩ := bind_eq_ok.1 htail
    cases hdone
    obtain ⟨a, w, hmade, hw, htext⟩ := h.entered_of_members hmembers (close_eq_ok hfinish)
    exact ⟨u, w, hu, by rw [hcs, hskip, htext], a, hmade, hw⟩
  · exact absurd hread refuse_ne_ok

/-! ## Texts -/

/-- A text that is read as a whole by a strict reader is a `Document`: there is nothing but blanks
around the value. -/
theorem Strict.document {read : Reader ω} {P : Spelling ω} (hread : Strict read P) {text : String}
    {o : ω} (h : readText read text = .ok o) : Document P o text.toList := by
  obtain ⟨⟨o', rest⟩, hvalue, h⟩ := bind_eq_ok.1 h
  obtain ⟨u, w, hu, htext, hw⟩ := hread hvalue
  obtain ⟨v, hv, hrest⟩ := exists_blank rest
  dsimp only at h
  split at h
  · next hskip =>
    cases h
    rw [htext, hrest, hskip, List.append_nil]
    exact .blanks hu hw hv
  · cases h

/-- A `Document` of what is made of a value is one of the value: the step from what the reader makes
to the record that the text spells. -/
theorem Document.exists_made {P : Spelling α} {o : ω} {cs : List Char}
    (h : Document (fun o w => ∃ a, Made o a ∧ P a w) o cs) : ∃ a, Made o a ∧ Document P a cs := by
  cases h with
  | blanks hu hv hw =>
    obtain ⟨a, ha, hv⟩ := hv
    exact ⟨a, ha, .blanks hu hv hw⟩

end Uniprocessor.Json
