import Uniprocessor.Proofs.Excerpts
import Uniprocessor.Proofs.Spelling

/-!
# The texts that can be loaded

Loading is strict: a text is loaded as a scenario only if it spells the scenario, with numbers that
are those of a real system, and if the scenario has no defects. A text that spells a scenario with
defects is refused for the first of them, and all other texts are refused because of their form
(`Workload.parse_strict`). No text is loaded as something that it does not spell, so a misspelt key,
a key that comes twice, a number with a fraction or anything behind the value is never passed over.

What is shown here of each record is that a record in the making never holds more than the text has
shown by then (`Shown`).
-/

namespace Uniprocessor

open Json

namespace Workload

variable {α β γ : Type}

/-! ## Fields that the text has shown -/

/-- What a field in the making holds is spelled by what stands under its key, and where nothing
stands it holds nothing. -/
def Shown (ts : Excerpts) (key : String) (P : Spelling (Option γ)) (held : Option γ) : Prop :=
  match ts key with
  | none => held = none
  | some w => P held w

/-- The spellings of a value, for a field that cannot be null: something is held, and the text
spells it. -/
inductive Given (P : Spelling γ) : Spelling (Option γ)
  | value {c : γ} {w : List Char} (h : P c w) : Given P (some c) w

namespace Shown

variable {ts : Excerpts} {key new : String} {P : Spelling (Option γ)} {held : Option γ}
  {w : List Char}

theorem blank : Shown (fun _ => none) key P none := rfl

/-- What has just been read is `Shown` under its key. -/
theorem filled (h : P held w) : Shown (Function.update ts key (some w)) key P held := by
  rwa [Shown, Function.update_self]

/-- What is read under another key changes nothing about what is `Shown` under this one. -/
theorem kept (hne : key ≠ new) (h : Shown ts key P held) :
    Shown (Function.update ts new (some w)) key P held := by
  rwa [Shown, Function.update_of_ne hne]

/-- The text shows of a record what is made of the field: what it holds, or its absence. -/
theorem shows {e : Entry α} {a : α} (h : Shown ts e.name P held)
    (hspells : ∀ w, P held w → e.spells a w) (habsent : held = none → e.absent a) :
    e.Shows a (ts e.name) := by
  rw [Shown] at h
  cases hts : ts e.name with
  | none =>
    rw [hts] at h
    exact habsent h
  | some w =>
    rw [hts] at h
    exact hspells w h

/-- What all values with a spelling have in common, a value that is held has too, as the text has
shown it. -/
theorem property {Q : γ → Prop} (h : Shown ts key P held) (hP : ∀ {c w}, P (some c) w → Q c) :
    ∀ c ∈ held, Q c := by
  rintro c rfl
  rw [Shown] at h
  split at h
  · cases h
  · exact hP h

end Shown

theorem Given.spells {P : Spelling γ} {c : γ} {w : List Char} (h : Given P (some c) w) : P c w := by
  cases h with
  | value h => exact h

theorem Given.getD {P : Spelling γ} {o : Option γ} {w : List Char} (h : Given P o w)
    (standard : γ) : P (o.getD standard) w := by
  cases h with
  | value h => exact h

/-- A number or null, as it is read, may stand for the standard one too: it is spelled by
`DecimalOrNull` once the standard number is in its place. -/
theorem decimalOrNull {kind : IntegerKind} {standard : Nat} {o : Option Nat} {w : List Char}
    (h : Nullable (DecimalWithin kind) o w) : DecimalOrNull standard (o.getD standard) w := by
  cases h with
  | value h => exact .number h.2
  | null => exact .null

theorem le_of_nullable {kind : IntegerKind} {n : Nat} {w : List Char}
    (h : Nullable (DecimalWithin kind) (some n) w) : n ≤ kind.largest := by
  cases h with
  | value h => exact h.1

/-- The standard value in place of a missing one does not matter for a bound, if it is within the
bound. -/
theorem getD_le {bound standard : Nat} {o : Option Nat} (h : ∀ n ∈ o, n ≤ bound)
    (hstandard : standard ≤ bound) : o.getD standard ≤ bound := by
  cases o with
  | none => exact hstandard
  | some n => exact h n rfl

theorem required_eq_ok {name : String} {o : Option α} {a : α} (h : required name o = .ok a) :
    o = some a := by
  cases o with
  | none => cases h
  | some b =>
    cases h
    rfl

/-- A field that stores what it reads accounts for it: `Field.Accounts` for every field that is read
by one strict reader and stored. -/
theorem accounts_storing {name : String} {trailing : Bool} {spells : Spelling α}
    {absent : α → Prop} {Told : Excerpts → β → Prop} {read : Reader γ} {P : Spelling γ}
    {store : β → γ → β} (h : Strict read P)
    (hstore : ∀ {ts b c w}, Told ts b → P c w →
      Told (Function.update ts name (some w)) (store b c)) :
    Field.Accounts ⟨name, storing read store, trailing⟩ ⟨name, spells, absent, trailing⟩ Told where
  name := rfl
  omissible := id
  reads := by
    intro ts b cs b' rest htold hread
    obtain ⟨⟨c, rest'⟩, hvalue, hstored⟩ := bind_eq_ok.1 hread
    cases hstored
    obtain ⟨u, w, hu, hcs, hw⟩ := h hvalue
    exact ⟨u, w, hu, hcs, hstore htold hw⟩

/-! ## Requests -/

/-- The request in the making holds what the text has shown, field by field. -/
structure RequestFields.Told (ts : Excerpts) (b : RequestFields) : Prop where
  /-- the place of the resource -/
  resource : Shown ts "resource" (Given (DecimalWithin index)) b.resource
  /-- the place of the age -/
  due : Shown ts "at" (Given (DecimalWithin wide)) b.due
  /-- the place of the length -/
  duration : Shown ts "duration" (Given (DecimalWithin wide)) b.duration

/-- Requests are made of nothing but what texts show, and only of numbers in range: the shape of
requests accounts for what it makes. -/
theorem requestShape_accounts :
    requestShape.Accounts requestEntries RequestFields.Told fun q a => q = a ∧ a.InRange where
  blank := ⟨.blank, .blank, .blank⟩
  fields := by
    refine .cons (accounts_storing (strict_readNat _) ?_)
      (.cons (accounts_storing (strict_readNat _) ?_)
        (.cons (accounts_storing (strict_readNat _) ?_) .nil))
    · rintro ts b c w ⟨-, hdue, hduration⟩ hw
      exact ⟨.filled (.value hw), hdue.kept (by decide), hduration.kept (by decide)⟩
    · rintro ts b c w ⟨hresource, -, hduration⟩ hw
      exact ⟨hresource.kept (by decide), .filled (.value hw), hduration.kept (by decide)⟩
    · rintro ts b c w ⟨hresource, hdue, -⟩ hw
      exact ⟨hresource.kept (by decide), hdue.kept (by decide), .filled (.value hw)⟩
  nodup := by decide
  finish := by
    rintro ts ⟨_, _, _⟩ q ⟨hresource, hdue, hduration⟩ hfinish
    obtain ⟨resource, hr, hfinish⟩ := bind_eq_ok.1 hfinish
    obtain ⟨due, hd, hfinish⟩ := bind_eq_ok.1 hfinish
    obtain ⟨duration, hl, hfinish⟩ := bind_eq_ok.1 hfinish
    cases hfinish
    cases required_eq_ok hr
    cases required_eq_ok hd
    cases required_eq_ok hl
    refine ⟨_, ⟨rfl, ?_⟩, ?_⟩
    · exact ⟨hresource.property (fun h => h.spells.1) _ rfl,
        hdue.property (fun h => h.spells.1) _ rfl, hduration.property (fun h => h.spells.1) _ rfl⟩
    · simp only [requestEntries, List.forall_mem_cons]
      exact ⟨hresource.shows (fun _ h => h.spells.2) (by simp),
        hdue.shows (fun _ h => h.spells.2) (by simp),
        hduration.shows (fun _ h => h.spells.2) (by simp), by simp⟩

/-- Nothing but spellings of requests in range is read as a request, by `strict_read` of the
shape. -/
theorem strict_request :
    Strict requestShape.read fun q w => q.InRange ∧ Entered requestEntries q w := by
  intro cs q rest hread
  obtain ⟨u, w, hu, hcs, _, ⟨rfl, hrange⟩, hw⟩ := requestShape_accounts.strict_read hread
  exact ⟨u, w, hu, hcs, hrange, hw⟩

/-! ## Jobs -/

/-- The job in the making holds what the text has shown, field by field. -/
structure JobFields.Told (ts : Excerpts) (b : JobFields) : Prop where
  /-- the place of the number -/
  pid : Shown ts "pid" (Given (DecimalWithin narrow)) b.pid
  /-- the place of the arrival, which may stay empty -/
  start : Shown ts "start" (Given (DecimalWithin wide)) b.start
  /-- the place of the lifespan -/
  lifespan : Shown ts "lifespan" (Given (DecimalWithin wide)) b.lifespan
  /-- the place of the priority, which may stay empty -/
  prio : Shown ts "prio" (Given (DecimalWithin narrow)) b.prio
  /-- the place of the requests, which may stay empty -/
  requests : Shown ts "acquire"
    (Given (Listing fun q w => q.InRange ∧ Entered requestEntries q w)) b.requests

/-- Jobs are made of nothing but what texts show, and only of numbers in range: the shape of jobs
accounts for what it makes. -/
theorem jobShape_accounts :
    jobShape.Accounts jobEntries JobFields.Told fun job a => job = a ∧ a.InRange where
  blank := ⟨.blank, .blank, .blank, .blank, .blank⟩
  fields := by
    refine .cons (accounts_storing (strict_readNat _) ?_)
      (.cons (accounts_storing (strict_readNat _) ?_)
        (.cons (accounts_storing (strict_readNat _) ?_)
          (.cons (accounts_storing (strict_readNat _) ?_)
            (.cons (accounts_storing (strict_readList strict_request) ?_) .nil))))
    · rintro ts b c w ⟨-, hstart, hlifespan, hprio, hrequests⟩ hw
      exact ⟨.filled (.value hw), hstart.kept (by decide), hlifespan.kept (by decide),
        hprio.kept (by decide), hrequests.kept (by decide)⟩
    · rintro ts b c w ⟨hpid, -, hlifespan, hprio, hrequests⟩ hw
      exact ⟨hpid.kept (by decide), .filled (.value hw), hlifespan.kept (by decide),
        hprio.kept (by decide), hrequests.kept (by decide)⟩
    · rintro ts b c w ⟨hpid, hstart, -, hprio, hrequests⟩ hw
      exact ⟨hpid.kept (by decide), hstart.kept (by decide), .filled (.value hw),
        hprio.kept (by decide), hrequests.kept (by decide)⟩
    · rintro ts b c w ⟨hpid, hstart, hlifespan, -, hrequests⟩ hw
      exact ⟨hpid.kept (by decide), hstart.kept (by decide), hlifespan.kept (by decide),
        .filled (.value hw), hrequests.kept (by decide)⟩
    · rintro ts b c w ⟨hpid, hstart, hlifespan, hprio, -⟩ hw
      exact ⟨hpid.kept (by decide), hstart.kept (by decide), hlifespan.kept (by decide),
        hprio.kept (by decide), .filled (.value hw)⟩
  nodup := by decide
  finish := by
    rintro ts ⟨_, start, _, prio, requests⟩ job ⟨hpid, hstart, hlifespan, hprio, hrequests⟩ hfinish
    obtain ⟨pid, hp, hfinish⟩ := bind_eq_ok.1 hfinish
    obtain ⟨lifespan, hl, hfinish⟩ := bind_eq_ok.1 hfinish
    cases hfinish
    cases required_eq_ok hp
    cases required_eq_ok hl
    refine ⟨_, ⟨rfl, ?_⟩, ?_⟩
    · have hholds : ∀ qs ∈ requests, ∀ q ∈ qs, q.InRange :=
        hrequests.property fun h => h.spells.and.1
      refine ⟨hpid.property (fun h => h.spells.1) _ rfl,
        getD_le (hstart.property fun h => h.spells.1) (by decide),
        hlifespan.property (fun h => h.spells.1) _ rfl,
        getD_le (hprio.property fun h => h.spells.1) (by decide), ?_⟩
      cases requests with
      | none => simp
      | some qs => exact hholds qs rfl
    · simp only [jobEntries, List.forall_mem_cons]
      refine ⟨hpid.shows (fun _ h => h.spells.2) (by simp),
        hstart.shows (fun _ h => (h.getD 0).2) ?_,
        hlifespan.shows (fun _ h => h.spells.2) (by simp),
        hprio.shows (fun _ h => (h.getD 0).2) ?_,
        hrequests.shows (fun _ h => (h.getD []).and.2) ?_, by simp⟩
      -- what is missing has the standard value
      all_goals
        rintro rfl
        rfl

/-- Nothing but spellings of jobs in range is read as a job, by `strict_read` of the shape. -/
theorem strict_job : Strict jobShape.read fun job w => job.InRange ∧ Entered jobEntries job w := by
  intro cs job rest hread
  obtain ⟨u, w, hu, hcs, _, ⟨rfl, hrange⟩, hw⟩ := jobShape_accounts.strict_read hread
  exact ⟨u, w, hu, hcs, hrange, hw⟩

/-! ## Scenarios -/

/-- The scenario in the making holds what the text has shown, field by field. -/
structure ScenarioFields.Told (ts : Excerpts) (b : ScenarioFields) : Prop where
  /-- the place of the limit, which null leaves empty -/
  limit : Shown ts "max_ticks" (Nullable (DecimalWithin wide)) b.limit
  /-- the place of the table's length, which null leaves empty -/
  resourceCount : Shown ts "nr_resources" (Nullable (DecimalWithin index)) b.resourceCount
  /-- the place of the ceiling, which null leaves empty -/
  ceiling : Shown ts "max_prio" (Nullable (DecimalWithin narrow)) b.ceiling
  /-- the place of the jobs -/
  jobs : Shown ts "processes" (Given (Listing fun job w => job.InRange ∧ Entered jobEntries job w))
    b.jobs

/-- Drafts are made of nothing but what texts show, and only of numbers in range: the shape of
drafts accounts for what it makes. -/
theorem draftShape_accounts :
    draftShape.Accounts scenarioEntries ScenarioFields.Told
      fun d sc => d = asDraft sc ∧ sc.InRange where
  blank := ⟨.blank, .blank, .blank, .blank⟩
  fields := by
    refine .cons (accounts_storing (strict_readOption (strict_readNat _)) ?_)
      (.cons (accounts_storing (strict_readOption (strict_readNat _)) ?_)
        (.cons (accounts_storing (strict_readOption (strict_readNat _)) ?_)
          (.cons (accounts_storing (strict_readList strict_job) ?_) .nil)))
    · rintro ts b o w ⟨-, hcount, hceiling, hjobs⟩ hw
      exact ⟨.filled hw, hcount.kept (by decide), hceiling.kept (by decide),
        hjobs.kept (by decide)⟩
    · rintro ts b o w ⟨hlimit, -, hceiling, hjobs⟩ hw
      exact ⟨hlimit.kept (by decide), .filled hw, hceiling.kept (by decide),
        hjobs.kept (by decide)⟩
    · rintro ts b o w ⟨hlimit, hcount, -, hjobs⟩ hw
      exact ⟨hlimit.kept (by decide), hcount.kept (by decide), .filled hw,
        hjobs.kept (by decide)⟩
    · rintro ts b c w ⟨hlimit, hcount, hceiling, -⟩ hw
      exact ⟨hlimit.kept (by decide), hcount.kept (by decide), hceiling.kept (by decide),
        .filled (.value hw)⟩
  nodup := by decide
  finish := by
    rintro ts ⟨limit, count, ceiling, _⟩ d ⟨hlimit, hcount, hceiling, hjobs⟩ hfinish
    obtain ⟨jobs, hj, hfinish⟩ := bind_eq_ok.1 hfinish
    cases hfinish
    cases required_eq_ok hj
    refine ⟨⟨count.getD 32, ceiling.getD 100, limit.getD 10000, jobs⟩, ⟨rfl, ?_⟩, ?_⟩
    · exact ⟨getD_le (hlimit.property le_of_nullable) (by decide),
        getD_le (hcount.property le_of_nullable) (by decide),
        getD_le (hceiling.property le_of_nullable) (by decide),
        hjobs.property (fun h => h.spells.and.1) _ rfl⟩
    · simp only [scenarioEntries, List.forall_mem_cons]
      refine ⟨hlimit.shows (fun _ => decimalOrNull) ?_, hcount.shows (fun _ => decimalOrNull) ?_,
        hceiling.shows (fun _ => decimalOrNull) ?_,
        hjobs.shows (fun _ h => h.spells.and.2) (by simp), by simp⟩
      all_goals
        rintro rfl
        rfl

/-! ## Texts -/

/-- A text is read as the draft of the scenario that it spells, and as no other: `draftShape_takes`
in one direction, `draftShape_accounts` in the other. -/
theorem readText_eq_ok {text : String} {d : Draft} :
    readText draftShape.read text = .ok d ↔
      ∃ sc : Scenario, sc.Spelled text ∧ sc.InRange ∧ d = asDraft sc := by
  constructor
  · intro h
    obtain ⟨sc, ⟨hd, hrange⟩, htext⟩ := (draftShape_accounts.strict_read.document h).exists_made
    exact ⟨sc, htext, hrange, hd⟩
  · rintro ⟨sc, htext, hrange, rfl⟩
    exact htext.readText (draftShape_takes hrange).reads

section Results

variable {text : String} {sc : Scenario} {defect : Defect} {complaint : Complaint}

theorem parse_eq_ok : parse text = .ok sc ↔
    ∃ d : Draft, readText draftShape.read text = .ok d ∧ d.build = .ok sc := by
  rw [parse]
  split
  · next hread => simp [hread]
  · next d hread => split <;> simp_all

theorem parse_eq_defective : parse text = .error (.defective defect) ↔
    ∃ d : Draft, readText draftShape.read text = .ok d ∧ d.build = .error defect := by
  rw [parse]
  split
  · next hread => simp [hread]
  · next d hread => split <;> simp_all

theorem parse_eq_unparsable : parse text = .error (.unparsable complaint) ↔
    readText draftShape.read text = .error complaint := by
  rw [parse]
  split
  · next hread => simp [hread]
  · next d hread => split <;> simp_all

end Results

/-- The **loading of texts is strict**. A text is loaded as a scenario exactly if it has the
scenario `Spelled`, with numbers in range, and the scenario is what its draft is built into. It is
refused for a defect exactly if it spells a scenario in range whose draft has this defect first. And
it is refused for its form exactly if it does not spell any scenario in range. -/
theorem parse_strict (text : String) :
    (∀ sc, parse text = .ok sc ↔
      sc.Spelled text ∧ sc.InRange ∧ (asDraft sc).build = .ok sc) ∧
    (∀ defect, parse text = .error (.defective defect) ↔
      ∃ sc : Scenario, sc.Spelled text ∧ sc.InRange ∧ (asDraft sc).build = .error defect) ∧
    ((∃ complaint, parse text = .error (.unparsable complaint)) ↔
      ¬ ∃ sc : Scenario, sc.Spelled text ∧ sc.InRange) := by
  refine ⟨fun sc => ?_, fun defect => ?_, ?_⟩
  · rw [parse_eq_ok]
    constructor
    · rintro ⟨d, hread, hbuild⟩
      obtain ⟨sc', htext, hrange, rfl⟩ := readText_eq_ok.1 hread
      -- a draft is built into the scenario that it has everything from
      obtain ⟨-, -, -, -, rfl⟩ := Draft.build_iff.1 hbuild
      exact ⟨htext, hrange, hbuild⟩
    · rintro ⟨htext, hrange, hbuild⟩
      exact ⟨asDraft sc, readText_eq_ok.2 ⟨sc, htext, hrange, rfl⟩, hbuild⟩
  · rw [parse_eq_defective]
    constructor
    · rintro ⟨d, hread, hbuild⟩
      obtain ⟨sc, htext, hrange, rfl⟩ := readText_eq_ok.1 hread
      exact ⟨sc, htext, hrange, hbuild⟩
    · rintro ⟨sc, htext, hrange, hbuild⟩
      exact ⟨asDraft sc, readText_eq_ok.2 ⟨sc, htext, hrange, rfl⟩, hbuild⟩
  · simp only [parse_eq_unparsable]
    constructor
    · rintro ⟨complaint, hread⟩ ⟨sc, htext, hrange⟩
      rw [readText_eq_ok.2 ⟨sc, htext, hrange, rfl⟩] at hread
      cases hread
    · intro hnone
      cases hread : readText draftShape.read text with
      | error complaint => exact ⟨complaint, rfl⟩
      | ok d =>
        obtain ⟨sc, htext, hrange, -⟩ := readText_eq_ok.1 hread
        exact absurd ⟨sc, htext, hrange⟩ hnone

end Workload

end Uniprocessor
