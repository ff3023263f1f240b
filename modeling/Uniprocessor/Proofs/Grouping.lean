import Uniprocessor.Log.Line

/-!
# Numbers in groups of three digits

The underscores in a number are there to be read past: without them it is the number in decimal
digits, and between them it has three digits at a time, counted from the right. Only one text is
like that for a number (`eq_grouped_iff`), since the groups behind the first are full and the first
takes what is left over. So numbers that look the same are the same.

Whether there is an underscore behind a digit depends on how many digits are still to come. An
induction over the digits therefore has to say how long the first group of those is
(`splitOn_groupByThree`).
-/

namespace Uniprocessor

namespace Text

/-- The first group has one to three characters, and every other group has three: counted from the
right, groups of three. -/
def InThrees : List (List Char) → Prop
  | [] => False
  | first :: rest => 1 ≤ first.length ∧ first.length ≤ 3 ∧ ∀ group ∈ rest, group.length = 3

variable {cs : List Char} {groups : List (List Char)}

/-! ## Groups and what is left without underscores -/

/-- What is left without a character is what is between its places: `splitOn` loses nothing but the
separator. -/
theorem flatten_splitOn (c : Char) (cs : List Char) :
    (cs.splitOn c).flatten = cs.filter (· != c) := by
  induction cs with
  | nil => rfl
  | cons d cs ih =>
    obtain ⟨first, rest, hsplit⟩ := List.exists_cons_of_ne_nil (List.splitOn_ne_nil c cs)
    rw [hsplit] at ih
    by_cases hd : d = c
    · simp [List.splitOn_cons_eq_if_modifyHead, hsplit, hd, ih.symm]
    · simp [List.splitOn_cons_eq_if_modifyHead, hsplit, hd, ih.symm]

/-- The number of characters decides how long each group is: the first takes what three leaves over,
and all others are full. -/
theorem InThrees.map_length (h : InThrees groups) :
    groups.map List.length = ((groups.flatten.length - 1) % 3 + 1) ::
      List.replicate ((groups.flatten.length - 1) / 3) 3 := by
  cases groups with
  | nil => exact h.elim
  | cons first rest =>
    obtain ⟨hpos, hle, hrest⟩ := h
    have hlengths : rest.map List.length = List.replicate rest.length 3 :=
      List.eq_replicate_iff.2 ⟨List.length_map .., List.forall_mem_map.2 hrest⟩
    have htotal : (first :: rest).flatten.length = first.length + rest.length * 3 := by
      simp [List.length_flatten, hlengths]
    have hfirst : (first.length + rest.length * 3 - 1) % 3 + 1 = first.length := by omega
    have hcount : (first.length + rest.length * 3 - 1) / 3 = rest.length := by omega
    rw [List.map_cons, hlengths, htotal, hfirst, hcount]

/-- There is one way to put characters into groups of three, by `InThrees.map_length`. -/
theorem InThrees.eq_of_flatten_eq (h : InThrees groups) {others : List (List Char)}
    (hothers : InThrees others) (heq : groups.flatten = others.flatten) : groups = others := by
  refine List.eq_iff_flatten_eq.2 ⟨heq, ?_⟩
  rw [h.map_length, hothers.map_length, heq]

/-! ## The groups that underscores make -/

/-- Nothing is added but underscores: without them `groupByThree` has the characters it was
given. -/
theorem filter_groupByThree (hplain : '_' ∉ cs) : (groupByThree cs).filter (· != '_') = cs := by
  fun_induction groupByThree cs with
  | case1 => rfl
  | case2 c =>
    have hc : c ≠ '_' := fun heq => hplain (heq ▸ List.mem_singleton_self c)
    simp [hc]
  | case3 c d rest hthree ih =>
    obtain ⟨hc, hrest⟩ := List.ne_and_not_mem_of_not_mem_cons hplain
    simp [ih hrest, hc.symm]
  | case4 c d rest hthree ih =>
    obtain ⟨hc, hrest⟩ := List.ne_and_not_mem_of_not_mem_cons hplain
    simp [ih hrest, hc.symm]

/-- Between its underscores `groupByThree` has groups of three, and the first group is as long as it
takes for the others to be full. -/
theorem splitOn_groupByThree (hne : cs ≠ []) (hplain : '_' ∉ cs) :
    ∃ first rest, (groupByThree cs).splitOn '_' = first :: rest ∧
      first.length = (cs.length - 1) % 3 + 1 ∧ ∀ group ∈ rest, group.length = 3 := by
  fun_induction groupByThree cs with
  | case1 => exact absurd rfl hne
  | case2 c => exact ⟨[c], [], List.splitOn_eq_singleton hplain, rfl, by simp⟩
  | case3 c d rest hthree ih =>
    -- The first group is complete, so this character is a group of its own.
    obtain ⟨hc, hrest⟩ := List.ne_and_not_mem_of_not_mem_cons hplain
    obtain ⟨first, others, hsplit, hfirst, hothers⟩ := ih (List.cons_ne_nil d rest) hrest
    refine ⟨[c], first :: others, ?_, ?_, List.forall_mem_cons.2 ⟨?_, hothers⟩⟩
    · simp [List.splitOn_cons_eq_if_modifyHead, hsplit, hc.symm]
    · rw [List.length_singleton, List.length_cons]
      omega
    · rw [List.length_cons] at hthree hfirst
      omega
  | case4 c d rest hthree ih =>
    -- The first group has room for this character.
    obtain ⟨hc, hrest⟩ := List.ne_and_not_mem_of_not_mem_cons hplain
    obtain ⟨first, others, hsplit, hfirst, hothers⟩ := ih (List.cons_ne_nil d rest) hrest
    refine ⟨c :: first, others, ?_, ?_, hothers⟩
    · simp [List.splitOn_cons_eq_if_modifyHead, hsplit, hc.symm]
    · simp only [List.length_cons] at hthree hfirst ⊢
      omega

theorem inThrees_groupByThree (hne : cs ≠ []) (hplain : '_' ∉ cs) :
    InThrees ((groupByThree cs).splitOn '_') := by
  obtain ⟨first, rest, hsplit, hfirst, hrest⟩ := splitOn_groupByThree hne hplain
  rw [hsplit]
  exact ⟨by omega, by omega, hrest⟩

/-! ## Grouped numbers -/

theorem underscore_not_mem_toDigits (n : Nat) : '_' ∉ Nat.toDigits 10 n := fun h =>
  absurd (Nat.isDigit_of_mem_toDigits (by decide) (by decide) h) (by decide)

/-- The text `grouped n` is the one text that is `n` in decimal digits without its underscores, and
that has its underscores between groups of three. -/
theorem eq_grouped_iff {n : Nat} {s : String} :
    s = grouped n ↔ s.toList.filter (· != '_') = Nat.toDigits 10 n ∧
      InThrees (s.toList.splitOn '_') := by
  have hgrouped : (grouped n).toList = groupByThree (Nat.toDigits 10 n) := String.toList_ofList
  have hplain := underscore_not_mem_toDigits n
  have hdigits := filter_groupByThree hplain
  have hthrees := inThrees_groupByThree Nat.toDigits_ne_nil hplain
  constructor
  · rintro rfl
    rw [hgrouped]
    exact ⟨hdigits, hthrees⟩
  · rintro ⟨hs, hsthrees⟩
    -- Both have the same groups, and so the same underscores between them.
    have hsplit : s.toList.splitOn '_' = (groupByThree (Nat.toDigits 10 n)).splitOn '_' := by
      refine hsthrees.eq_of_flatten_eq hthrees ?_
      rw [flatten_splitOn, flatten_splitOn, hs, hdigits]
    refine String.toList_inj.1 ?_
    calc s.toList
      _ = ['_'].intercalate (s.toList.splitOn '_') := (List.intercalate_splitOn '_').symm
      _ = ['_'].intercalate ((groupByThree (Nat.toDigits 10 n)).splitOn '_') := by rw [hsplit]
      _ = groupByThree (Nat.toDigits 10 n) := List.intercalate_splitOn '_'
      _ = (grouped n).toList := hgrouped.symm

/-- Different numbers are `grouped` differently: without underscores, their decimal digits
differ. -/
theorem grouped_injective : Function.Injective grouped := by
  intro m n h
  have hdigits : Nat.toDigits 10 m = Nat.toDigits 10 n :=
    (eq_grouped_iff.1 rfl).1.symm.trans (eq_grouped_iff.1 h).1
  calc m
    _ = Nat.ofDigitChars 10 (Nat.toDigits 10 m) 0 := Nat.ofDigitChars_ten_toDigits.symm
    _ = Nat.ofDigitChars 10 (Nat.toDigits 10 n) 0 := by rw [hdigits]
    _ = n := Nat.ofDigitChars_ten_toDigits

/-- A text is filled up to the width of its column with blanks in front, and not cut when it is
wider. -/
theorem exists_alignRight_eq (width : Nat) (s : String) :
    ∃ blanks, alignRight width s = String.ofList (List.replicate blanks ' ') ++ s ∧
      blanks + s.length = max width s.length :=
  ⟨width - s.length, rfl, by omega⟩

end Text

open Text

/-- The **grouping of digits loses nothing**. A text is `grouped n` exactly if it is the number in
decimal digits, with underscores that leave one to three digits in front and three digits at a time
behind. There is one such text, and it shows no other number. A `stamp` is the text for its tick as
a whole, between brackets, behind as many blanks as it takes for ten characters. -/
theorem grouped_lossless :
    (∀ (n : Nat) (s : String), s = grouped n ↔
      String.ofList (s.toList.filter (· != '_')) = toString n ∧ InThrees (s.toList.splitOn '_') ∧
        ∀ group ∈ s.toList.splitOn '_', ∀ c ∈ group, c.isDigit = true) ∧
    Function.Injective grouped ∧
    ∀ tick, ∃ blanks,
      stamp tick = "[" ++ (String.ofList (List.replicate blanks ' ') ++ grouped tick) ++ "]" ∧
        blanks + (grouped tick).length = max 10 (grouped tick).length := by
  refine ⟨fun n s => ?_, grouped_injective, fun tick => ?_⟩
  · have hdecimal : String.ofList (s.toList.filter (· != '_')) = toString n ↔
        s.toList.filter (· != '_') = Nat.toDigits 10 n := String.ofList_inj
    rw [eq_grouped_iff, hdecimal, ← and_assoc, iff_self_and]
    rintro ⟨hdigits, -⟩ group hgroup c hc
    have hmem : c ∈ Nat.toDigits 10 n := by
      rw [← hdigits, ← flatten_splitOn]
      exact List.mem_flatten_of_mem hgroup hc
    exact Nat.isDigit_of_mem_toDigits (by decide) (by decide) hmem
  · obtain ⟨blanks, heq, hlength⟩ := exists_alignRight_eq 10 (grouped tick)
    exact ⟨blanks, by rw [stamp, heq], hlength⟩

/-- The largest tick is wider than the column of the stamps. -/
example : stamp largestTick = "[18_446_744_073_709_551_615]" := by decide

end Uniprocessor
