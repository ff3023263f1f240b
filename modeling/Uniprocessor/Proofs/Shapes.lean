import Uniprocessor.Json.Record
import Uniprocessor.Proofs.Reading

/-!
# Reading records

A record is read field by field into a record in the making. Which fields it has by then is told by
their keys, and not by the order in which they came: a relation `Making` between keys and records in
the making says that exactly the fields with these keys have been filled in, with what the record to
be spelled has there. If every field of a shape adds its own key to that (`Field.Takes`), and a
record in the making is finished as soon as only such fields are missing as may be missing
(`Shape.Takes`), then the shape reads every spelling of the record (`Shape.Takes.reads`).
-/

namespace Uniprocessor.Json

variable {α β ω : Type}

/-- The field reads what texts show of the record `a` under the key of the entry, and adds that key
to those that `Making` tells of. -/
structure Field.Takes (f : Field β) (e : Entry α) (a : α) (Making : List String → β → Prop) :
    Prop where
  /-- they have the same key -/
  name : f.name = e.name
  /-- a list may end before the field if the spelling may -/
  omissible : e.trailing = true → f.omissible = true
  /-- the texts can be told from blanks and closing brackets -/
  leads : ∀ {w}, e.spells a w → Leads w
  /-- the field is filled in, and no other is touched -/
  reads : ∀ {keys b u w rest}, Making keys b → Blank u → e.spells a w → Stops rest →
    ∃ b', f.read b (u ++ (w ++ rest)) = .ok (b', rest) ∧ Making (e.name :: keys) b'

/-- The shape makes `o` of what texts show of the record `a` in these fields: each is taken by a
field of its own, and what is made in the end is `o`. -/
structure Shape.Takes (S : Shape β ω) (entries : List (Entry α)) (a : α) (o : ω)
    (Making : List String → β → Prop) : Prop where
  /-- at first no field has been filled in -/
  blank : Making [] S.blank
  /-- each field takes its entry -/
  fields : List.Forall₂ (fun f e => f.Takes e a Making) S.fields entries
  /-- no two fields have the same key -/
  nodup : (entries.map Entry.name).Nodup
  /-- fields that may be missing are not needed in the end -/
  finish : ∀ {keys b}, Making keys b → (∀ e ∈ entries, e.name ∉ keys → e.absent a) →
    S.finish b = .ok o

variable {S : Shape β ω} {entries : List (Entry α)} {a : α} {o : ω}
  {Making : List String → β → Prop}

/-! ## Members of objects -/

/-- Of fields with different keys, the one that `find?` finds under the key of an entry is the one
that takes the entry. -/
theorem find?_of_takes {fs : List (Field β)} {es : List (Entry α)}
    (h : List.Forall₂ (fun f e => f.Takes e a Making) fs es) (hnodup : (es.map Entry.name).Nodup)
    {e : Entry α} (he : e ∈ es) :
    ∃ f, fs.find? (fun f => f.name = e.name) = some f ∧ f.Takes e a Making := by
  induction h with
  | nil => cases he
  | @cons f e' fs es hf hfs ih =>
    rw [List.map_cons, List.nodup_cons] at hnodup
    rcases List.mem_cons.1 he with rfl | he
    · exact ⟨f, by simp [hf.name], hf⟩
    · obtain ⟨g, hfind, hg⟩ := ih hnodup.2 he
      have hne : f.name ≠ e.name := by
        rw [hf.name]
        rintro heq
        exact hnodup.1 (heq ▸ List.mem_map_of_mem he)
      exact ⟨g, by simp [hne, hfind], hg⟩

/-- The key of an entry is looked up among the fields of the shape by `Shape.field?`, and finds the
field that takes it. -/
theorem Shape.Takes.field? (h : S.Takes entries a o Making) {e : Entry α} (he : e ∈ entries) :
    ∃ f, S.field? e.name = some f ∧ f.Takes e a Making :=
  find?_of_takes h.fields h.nodup he

/-- Where a member follows, `nextMember` goes past the quote that opens its key. -/
theorem Lead.nextMember {first : Bool} {u : List Char} (hu : Lead first u) (rest : List Char) :
    nextMember first (u ++ '"' :: rest) = .ok (true, rest) := by
  cases hu with
  | first h =>
    rw [Json.nextMember, skipSpace_blank h, skipSpace_cons rfl]
    rfl
  | @next v w hu hw =>
    have hskip : skipSpace (w ++ '"' :: rest) = '"' :: rest := by
      rw [skipSpace_blank hw, skipSpace_cons rfl]
    rw [Json.nextMember, List.append_assoc, skipSpace_blank hu, List.cons_append,
      skipSpace_cons rfl]
    simp [hskip]

/-- Where no member follows, `nextMember` says so and goes past the closing brace. -/
theorem Blank.nextMember {w : List Char} (h : Blank w) (first : Bool) (rest : List Char) :
    nextMember first (w ++ '\x7d' :: rest) = .ok (false, rest) := by
  rw [Json.nextMember, skipSpace_blank h, skipSpace_cons rfl]
  rfl

theorem Blank.readColon {w : List Char} (h : Blank w) (rest : List Char) :
    readColon (w ++ ':' :: rest) = .ok rest := by
  rw [Json.readColon, skipSpace_blank h, skipSpace_cons rfl]
  rfl

/-- The members of an object are read one after the other, whatever their order: by induction on the
`Sequence`, with `Making` telling which keys have been read. -/
theorem Shape.Takes.readMembers (h : S.Takes entries a o Making) {first : Bool}
    {present : List (Entry α)} {w : List Char} (hw : Sequence (Member a) first present w)
    {keys : List String} {b : β} {steps : Nat} (hfirst : keys.isEmpty = first)
    (hpresent : ∀ e ∈ present, e ∈ entries) (hnodup : (present.map Entry.name).Nodup)
    (hnew : ∀ e ∈ present, e.name ∉ keys) (hmaking : Making keys b)
    (hsteps : present.length < steps) (rest : List Char) :
    ∃ b', S.readMembers steps keys b (w ++ '\x7d' :: rest) = .ok (b', rest) ∧
      Making ((present.map Entry.name).reverse ++ keys) b' := by
  induction hw generalizing keys b steps with
  | done hw =>
    obtain ⟨steps, rfl⟩ := Nat.exists_eq_add_one_of_ne_zero (Nat.ne_zero_of_lt hsteps)
    refine ⟨b, ?_, hmaking⟩
    simp [Shape.readMembers, hw.nextMember]
    rfl
  | @more first e present u v w hu hv hw ih =>
    obtain ⟨steps, rfl⟩ := Nat.exists_eq_add_one_of_ne_zero (Nat.ne_zero_of_lt hsteps)
    rw [List.map_cons, List.nodup_cons] at hnodup
    cases hv with
    | @colon _ k u' v' w' hk hu' hv' hw' =>
      obtain ⟨f, hfield, hf⟩ := h.field? (hpresent e List.mem_cons_self)
      have hstops : Stops (w ++ '\x7d' :: rest) := hw.stops (stops_cons.2 (by decide))
      obtain ⟨b₁, hread, hmaking₁⟩ := hf.reads hmaking hv' hw' hstops
      obtain ⟨text, htext, hkey⟩ :=
        hk.readQuoted (u' ++ ':' :: (v' ++ (w' ++ (w ++ '\x7d' :: rest))))
      -- the key joins those that the members behind it must not repeat
      have hnew' : ∀ d ∈ present, d.name ∉ e.name :: keys := by
        intro d hd
        rw [List.mem_cons, not_or]
        refine ⟨fun heq => hnodup.1 (heq ▸ List.mem_map_of_mem hd), ?_⟩
        exact hnew d (List.mem_cons_of_mem e hd)
      have hempty : (e.name :: keys).isEmpty = false := rfl
      obtain ⟨b₂, hrest, hmaking₂⟩ := ih hempty
        (fun d hd => hpresent d (List.mem_cons_of_mem e hd)) hnodup.2 hnew' hmaking₁
        (Nat.lt_of_succ_lt_succ hsteps)
      refine ⟨b₂, ?_, by simpa using hmaking₂⟩
      have hold : e.name ∉ keys := hnew e List.mem_cons_self
      simp only [List.append_assoc, List.cons_append, htext]
      simp only [Shape.readMembers, hfirst, hu.nextMember, ok_bind, hkey, hfield, hold, if_false,
        hu'.readColon, hread, hrest]

/-! ## Fields in a list -/

/-- Fields that may be left out at the end of a list are passed by, and leave the record in the
making as it is. -/
theorem Blank.readFields {fs : List (Field β)} {es : List (Entry α)}
    (h : List.Forall₂ (fun f e => f.Takes e a Making) fs es)
    (htrailing : ∀ e ∈ es, e.trailing = true) {w : List Char} (hw : Blank w) (position : Nat)
    (first : Bool) (b : β) (rest : List Char) :
    S.readFields position first fs b (w ++ ']' :: rest) = .ok (b, w ++ ']' :: rest) := by
  induction h generalizing position with
  | nil => rfl
  | @cons f e fs es hf hfs ih =>
    have homissible : f.omissible = true := hf.omissible (htrailing e List.mem_cons_self)
    have hrest := ih (fun d hd => htrailing d (List.mem_cons_of_mem e hd)) (position + 1)
    simp only [Shape.readFields, hw.nextElement, ok_bind, homissible, if_true, hrest]

/-- The fields of a list are read in their own order, as far as the list goes, and those behind its
end are passed by. -/
theorem Sequence.readFields {first : Bool} {front back : List (Entry α)} {w : List Char}
    (hw : Sequence (fun e => e.spells a) first front w) {fs : List (Field β)}
    (h : List.Forall₂ (fun f e => f.Takes e a Making) fs (front ++ back))
    (htrailing : ∀ e ∈ back, e.trailing = true) {keys : List String} {b : β}
    (hmaking : Making keys b) (position : Nat) (rest : List Char) :
    ∃ b' v, S.readFields position first fs b (w ++ ']' :: rest) = .ok (b', v ++ ']' :: rest) ∧
      Blank v ∧ Making ((front.map Entry.name).reverse ++ keys) b' := by
  induction hw generalizing fs keys b position with
  | @done _ w hw => exact ⟨b, w, hw.readFields h htrailing position _ b rest, hw, hmaking⟩
  | @more first e front u v w hu hv hw ih =>
    cases h with
    | @cons f _ fs _ hf hfs =>
      have hstops : Stops (w ++ ']' :: rest) := hw.stops (stops_cons.2 (by decide))
      obtain ⟨b₁, hread, hmaking₁⟩ := hf.reads hmaking .nil hv hstops
      obtain ⟨b₂, x, hrest, hx, hmaking₂⟩ := ih hfs hmaking₁ (position + 1)
      refine ⟨b₂, x, ?_, hx, by simpa using hmaking₂⟩
      rw [List.nil_append] at hread
      simp only [List.append_assoc, Shape.readFields, hu.nextElement (hf.leads hv), ok_bind, hread,
        hrest]

/-! ## Either form -/

/-- Between its braces an object has all that is needed to finish the record: the keys that it
shows, and fields that may be absent. -/
theorem Shape.Takes.exists_members (h : S.Takes entries a o Making) {present : List (Entry α)}
    {w : List Char} (hpresent : present.Subperm entries)
    (habsent : ∀ e ∈ entries, e ∉ present → e.absent a) (hw : Sequence (Member a) true present w)
    (rest : List Char) :
    ∃ b, S.readMembers (S.fields.length + 1) [] S.blank (w ++ '\x7d' :: rest) = .ok (b, rest) ∧
      S.finish b = .ok o := by
  have hsteps : present.length < S.fields.length + 1 := by
    rw [h.fields.length_eq]
    exact Nat.lt_succ_of_le hpresent.length_le
  have hnodup : (present.map Entry.name).Nodup := by
    obtain ⟨kept, hperm, hkept⟩ := hpresent
    rw [← (hperm.map Entry.name).nodup_iff]
    exact (hkept.map Entry.name).nodup h.nodup
  have hempty : ([] : List String).isEmpty = true := rfl
  obtain ⟨b, hread, hmaking⟩ := h.readMembers hw hempty (fun _ he => hpresent.subset he) hnodup
    (fun _ _ => List.not_mem_nil) h.blank hsteps rest
  refine ⟨b, hread, h.finish hmaking fun e he hkey => ?_⟩
  refine habsent e he fun hmem => hkey ?_
  simpa using ⟨e, hmem, rfl⟩

/-- Between its brackets a list has all that is needed to finish the record: its first fields, and
trailing ones that may be absent. -/
theorem Shape.Takes.exists_fields (h : S.Takes entries a o Making) {front back : List (Entry α)}
    {w : List Char} (hfront : front ++ back = entries)
    (hback : ∀ e ∈ back, e.trailing = true ∧ e.absent a)
    (hw : Sequence (fun e => e.spells a) true front w) (rest : List Char) :
    ∃ b v, S.readFields 0 true S.fields S.blank (w ++ ']' :: rest) = .ok (b, v ++ ']' :: rest) ∧
      Blank v ∧ S.finish b = .ok o := by
  have hfields := hfront ▸ h.fields
  obtain ⟨b, v, hread, hv, hmaking⟩ := hw.readFields (S := S) hfields
    (fun e he => (hback e he).1) h.blank 0 rest
  refine ⟨b, v, hread, hv, h.finish hmaking fun e he hkey => ?_⟩
  rw [← hfront, List.mem_append] at he
  rcases he with hmem | hmem
  · exact absurd (by simpa using ⟨e, hmem, rfl⟩) hkey
  · exact (hback e hmem).2

/-- A shape that takes a record reads all of its spellings by `Shape.read`, as an object and as a
list: the half of the reader's correctness that says it reads enough. -/
theorem Shape.Takes.reads (h : S.Takes entries a o Making) :
    Reads S.read (Entered entries a) (· = o) where
  leads := by
    intro w hw
    cases hw with
    | object => exact ⟨'\x7b', _, rfl, rfl, by decide⟩
    | list => exact ⟨'[', _, rfl, rfl, by decide⟩
  reads := by
    intro u w rest hu hw hrest
    refine ⟨o, ?_, rfl⟩
    cases hw with
    | @object _ present w hpresent habsent hw =>
      obtain ⟨b, hread, hfinish⟩ := h.exists_members hpresent habsent hw rest
      rw [Shape.read, skipSpace_leads hu ⟨'\x7b', _, rfl, rfl, by decide⟩]
      simp [hread, Shape.close, hfinish]
    | @list _ front back w hfront hback hw =>
      obtain ⟨b, v, hread, hv, hfinish⟩ := h.exists_fields hfront hback hw rest
      rw [Shape.read, skipSpace_leads hu ⟨'[', _, rfl, rfl, by decide⟩]
      simp [hread, Shape.close, hfinish, hv.closeList]

end Uniprocessor.Json
