import Uniprocessor.Proofs.Shapes
import Uniprocessor.Proofs.Validity
import Uniprocessor.Workload

/-!
# The texts of a scenario

A scenario has many texts (`Scenario.Spelled`): its records may be written as objects or as lists,
objects may have their members in any order, blanks may stand anywhere between the tokens, and what
has its standard value may be left out or, at the top, be null. Whichever of them is loaded, the
result is the scenario (`Scenario.parse_of_spelled`), as long as the scenario has no defects.

Two sets of standard values take part in that. Those of a process are put in when its record is
finished, those at the top when the fields are made into a draft.
-/

namespace Uniprocessor

open Json

/-! ## What a text shows -/

namespace Workload

/-- The fields of a request, each with its key and with what may stand there: none may be absent. -/
def requestEntries : List (Entry Request) := [
  { name := "resource", spells := fun q => Decimal q.resource },
  { name := "at", spells := fun q => Decimal q.due },
  { name := "duration", spells := fun q => Decimal q.duration }]

/-- The fields of a process: its start, its priority and its requests may be absent if they have
their standard values. -/
def jobEntries : List (Entry Job) := [
  { name := "pid", spells := fun job => Decimal job.pid },
  { name := "start", spells := fun job => Decimal job.start, absent := fun job => job.start = 0,
    trailing := true },
  { name := "lifespan", spells := fun job => Decimal job.lifespan },
  { name := "prio", spells := fun job => Decimal job.prio, absent := fun job => job.prio = 0,
    trailing := true },
  { name := "acquire", spells := fun job => Listing (Entered requestEntries) job.requests,
    absent := fun job => job.requests = [], trailing := true }]

/-- The fields of a scenario: all but its processes may be absent, or null, if they have their
standard values. -/
def scenarioEntries : List (Entry Scenario) := [
  { name := "max_ticks", spells := fun sc => DecimalOrNull 10000 sc.limit,
    absent := fun sc => sc.limit = 10000 },
  { name := "nr_resources", spells := fun sc => DecimalOrNull 32 sc.resourceCount,
    absent := fun sc => sc.resourceCount = 32 },
  { name := "max_prio", spells := fun sc => DecimalOrNull 100 sc.ceiling,
    absent := fun sc => sc.ceiling = 100 },
  { name := "processes", spells := fun sc => Listing (Entered jobEntries) sc.jobs }]

end Workload

open Workload

/-- The text spells the scenario: it is a `Document` of its `scenarioEntries`. -/
def Scenario.Spelled (sc : Scenario) (text : String) : Prop :=
  Document (Entered scenarioEntries) sc text.toList

/-- The numbers of a request are those of a real table and a real clock: they fit the words that
hold them. -/
structure Request.InRange (q : Request) : Prop where
  /-- the resource has an index -/
  resource_le : q.resource ≤ index.largest
  /-- the age is a tick -/
  due_le : q.due ≤ largestTick
  /-- the length is a tick -/
  duration_le : q.duration ≤ largestTick

/-- The numbers of a job are those of a real system: they fit the words that hold them. -/
structure Job.InRange (job : Job) : Prop where
  /-- the number names a process -/
  pid_le : job.pid ≤ largestPid
  /-- the arrival is a tick -/
  start_le : job.start ≤ largestTick
  /-- the lifespan is a tick -/
  lifespan_le : job.lifespan ≤ largestTick
  /-- the priority is one -/
  prio_le : job.prio ≤ largestPrio
  /-- so are those of its requests -/
  requests : ∀ q ∈ job.requests, q.InRange

/-- The numbers of a scenario are those of a real system: they fit the words that hold them. -/
structure Scenario.InRange (sc : Scenario) : Prop where
  /-- the limit is a tick -/
  limit_le : sc.limit ≤ largestTick
  /-- the resource table has a length -/
  resourceCount_le : sc.resourceCount ≤ index.largest
  /-- the ceiling is a priority -/
  ceiling_le : sc.ceiling ≤ largestPrio
  /-- so are those of its jobs -/
  jobs : ∀ job ∈ sc.jobs, job.InRange

/-- Every scenario has a text, so what is said of all texts of a scenario is said of some. -/
theorem Scenario.exists_spelled (sc : Scenario) : ∃ text, sc.Spelled text := by
  have hrequest : ∀ q : Request, ∃ w, Entered requestEntries q w := fun q =>
    Entered.exists_spelling (by simp [requestEntries, Decimal])
  have hjob : ∀ job : Job, ∃ w, Entered jobEntries job w := fun job => by
    have hrequests : ∃ w, Listing (Entered requestEntries) job.requests w :=
      Listing.exists_spelling fun q _ => hrequest q
    exact Entered.exists_spelling (by simpa [jobEntries, Decimal] using hrequests)
  have hjobs : ∃ w, Listing (Entered jobEntries) sc.jobs w :=
    Listing.exists_spelling fun job _ => hjob job
  have hnumber : ∀ standard n, ∃ w, DecimalOrNull standard n w := fun _ _ => ⟨_, .number rfl⟩
  obtain ⟨w, hw⟩ : ∃ w, Entered scenarioEntries sc w :=
    Entered.exists_spelling (by simpa [scenarioEntries, hnumber] using hjobs)
  refine ⟨String.ofList ([] ++ (w ++ [])), ?_⟩
  rw [Spelled, String.toList_ofList]
  exact .blanks .nil hw .nil

/-! ## Fields that have been filled in -/

namespace Workload

variable {α β γ : Type}

/-- A field in the making is empty unless its key is among those that have been read, and then it
holds what `P` says. -/
def Slot (keys : List String) (key : String) (P : Option γ → Prop) (held : Option γ) : Prop :=
  if key ∈ keys then P held else held = none

namespace Slot

variable {keys : List String} {key new : String} {P : Option γ → Prop} {held : Option γ}

theorem blank : Slot [] key P none := by simp [Slot]

/-- What has just been read is in its `Slot`, whatever keys were read before. -/
theorem filled (h : P held) : Slot (key :: keys) key P held := by simpa [Slot] using h

/-- What is read under another key changes nothing about the `Slot` of this one. -/
theorem kept (hne : key ≠ new) (h : Slot keys key P held) : Slot (new :: keys) key P held := by
  simpa [Slot, hne] using h

/-- A field that must be there has been read in the end, so its `Slot` holds its value. -/
theorem required {c : γ} (h : Slot keys key (· = some c) held) (hkey : key ∈ keys) :
    held = some c := by
  simpa [Slot, hkey] using h

/-- A field that may be missing has its standard value in the end, whether it was read or not. -/
theorem getD {standard c : γ} (h : Slot keys key (·.getD standard = c) held)
    (hkey : key ∉ keys → c = standard) : held.getD standard = c := by
  rw [Slot] at h
  split at h
  · exact h
  · next hnot => rw [h, hkey hnot, Option.getD_none]

end Slot

/-- A field that stores what it reads fills in its place: `Field.Takes` for every field that is read
by one reader and stored. -/
theorem takes_storing {name : String} {trailing : Bool} {spells : Spelling α} {absent : α → Prop}
    {a : α} {Making : List String → β → Prop} {read : Reader γ} {P : γ → Prop} {store : β → γ → β}
    (h : Reads read (spells a) P)
    (hstore : ∀ {keys b c}, Making keys b → P c → Making (name :: keys) (store b c)) :
    Field.Takes ⟨name, storing read store, trailing⟩ ⟨name, spells, absent, trailing⟩ a Making where
  name := rfl
  omissible := id
  leads := h.leads
  reads := by
    intro keys b u w rest hmaking hu hw hrest
    obtain ⟨c, hread, hc⟩ := h.reads hu hw hrest
    exact ⟨store b c, by simp [storing, hread], hstore hmaking hc⟩

/-! ## Requests -/

/-- The request in the making has what the request has under these keys. -/
structure RequestFields.Making (q : Request) (keys : List String) (b : RequestFields) : Prop where
  /-- the place of the resource -/
  resource : Slot keys "resource" (· = some q.resource) b.resource
  /-- the place of the age -/
  due : Slot keys "at" (· = some q.due) b.due
  /-- the place of the length -/
  duration : Slot keys "duration" (· = some q.duration) b.duration

/-- Requests are read from their texts: the shape of requests takes each of them whose numbers are
in range. -/
theorem requestShape_takes {q : Request} (h : q.InRange) :
    requestShape.Takes requestEntries q q (RequestFields.Making q) where
  blank := ⟨.blank, .blank, .blank⟩
  fields := by
    have hresource : Reads (readNat index) (Decimal q.resource) (· = q.resource) :=
      reads_readNat (by decide) h.resource_le
    have hdue : Reads (readNat wide) (Decimal q.due) (· = q.due) :=
      reads_readNat (by decide) h.due_le
    have hduration : Reads (readNat wide) (Decimal q.duration) (· = q.duration) :=
      reads_readNat (by decide) h.duration_le
    refine .cons (takes_storing hresource ?_) (.cons (takes_storing hdue ?_)
      (.cons (takes_storing hduration ?_) .nil))
    · rintro keys b _ ⟨-, hdue, hduration⟩ rfl
      exact ⟨.filled rfl, hdue.kept (by decide), hduration.kept (by decide)⟩
    · rintro keys b _ ⟨hresource, -, hduration⟩ rfl
      exact ⟨hresource.kept (by decide), .filled rfl, hduration.kept (by decide)⟩
    · rintro keys b _ ⟨hresource, hdue, -⟩ rfl
      exact ⟨hresource.kept (by decide), hdue.kept (by decide), .filled rfl⟩
  nodup := by decide
  finish := by
    intro keys b hmaking habsent
    simp only [requestEntries, List.forall_mem_cons, imp_false, not_not] at habsent
    obtain ⟨hresource, hdue, hduration, -⟩ := habsent
    simp only [requestShape, required, hmaking.resource.required hresource,
      hmaking.due.required hdue, hmaking.duration.required hduration]
    rfl

/-! ## Jobs -/

/-- The job in the making has what the job has under these keys. -/
structure JobFields.Making (job : Job) (keys : List String) (b : JobFields) : Prop where
  /-- the place of the number -/
  pid : Slot keys "pid" (· = some job.pid) b.pid
  /-- the place of the arrival, which may stay empty -/
  start : Slot keys "start" (·.getD 0 = job.start) b.start
  /-- the place of the lifespan -/
  lifespan : Slot keys "lifespan" (· = some job.lifespan) b.lifespan
  /-- the place of the priority, which may stay empty -/
  prio : Slot keys "prio" (·.getD 0 = job.prio) b.prio
  /-- the place of the requests, which may stay empty -/
  requests : Slot keys "acquire" (·.getD [] = job.requests) b.requests

/-- Jobs are read from their texts: the shape of jobs takes each of them whose numbers are in
range. -/
theorem jobShape_takes {job : Job} (h : job.InRange) :
    jobShape.Takes jobEntries job job (JobFields.Making job) where
  blank := ⟨.blank, .blank, .blank, .blank, .blank⟩
  fields := by
    have hpid : Reads (readNat narrow) (Decimal job.pid) (· = job.pid) :=
      reads_readNat (by decide) h.pid_le
    have hstart : Reads (readNat wide) (Decimal job.start) (· = job.start) :=
      reads_readNat (by decide) h.start_le
    have hlifespan : Reads (readNat wide) (Decimal job.lifespan) (· = job.lifespan) :=
      reads_readNat (by decide) h.lifespan_le
    have hprio : Reads (readNat narrow) (Decimal job.prio) (· = job.prio) :=
      reads_readNat (by decide) h.prio_le
    have hrequests : Reads (readList requestShape.read)
        (Listing (Entered requestEntries) job.requests) (· = job.requests) :=
      reads_readList fun q hq => (requestShape_takes (h.requests q hq)).reads
    refine .cons (takes_storing hpid ?_) (.cons (takes_storing hstart ?_)
      (.cons (takes_storing hlifespan ?_) (.cons (takes_storing hprio ?_)
        (.cons (takes_storing hrequests ?_) .nil))))
    · rintro keys b _ ⟨-, hstart, hlifespan, hprio, hrequests⟩ rfl
      exact ⟨.filled rfl, hstart.kept (by decide), hlifespan.kept (by decide),
        hprio.kept (by decide), hrequests.kept (by decide)⟩
    · rintro keys b _ ⟨hpid, -, hlifespan, hprio, hrequests⟩ rfl
      exact ⟨hpid.kept (by decide), .filled rfl, hlifespan.kept (by decide),
        hprio.kept (by decide), hrequests.kept (by decide)⟩
    · rintro keys b _ ⟨hpid, hstart, -, hprio, hrequests⟩ rfl
      exact ⟨hpid.kept (by decide), hstart.kept (by decide), .filled rfl,
        hprio.kept (by decide), hrequests.kept (by decide)⟩
    · rintro keys b _ ⟨hpid, hstart, hlifespan, -, hrequests⟩ rfl
      exact ⟨hpid.kept (by decide), hstart.kept (by decide), hlifespan.kept (by decide),
        .filled rfl, hrequests.kept (by decide)⟩
    · rintro keys b _ ⟨hpid, hstart, hlifespan, hprio, -⟩ rfl
      exact ⟨hpid.kept (by decide), hstart.kept (by decide), hlifespan.kept (by decide),
        hprio.kept (by decide), .filled rfl⟩
  nodup := by decide
  finish := by
    intro keys b hmaking habsent
    simp only [jobEntries, List.forall_mem_cons, imp_false, not_not] at habsent
    obtain ⟨hpid, hstart, hlifespan, hprio, hrequests, -⟩ := habsent
    simp only [jobShape, required, hmaking.pid.required hpid,
      hmaking.lifespan.required hlifespan, hmaking.start.getD hstart, hmaking.prio.getD hprio,
      hmaking.requests.getD hrequests]
    rfl

/-! ## Scenarios -/

/-- The scenario in the making has what the scenario has under these keys. -/
structure ScenarioFields.Making (sc : Scenario) (keys : List String) (b : ScenarioFields) :
    Prop where
  /-- the place of the limit, which null leaves empty -/
  limit : Slot keys "max_ticks" (·.getD 10000 = sc.limit) b.limit
  /-- the place of the table's length, which null leaves empty -/
  resourceCount : Slot keys "nr_resources" (·.getD 32 = sc.resourceCount) b.resourceCount
  /-- the place of the ceiling, which null leaves empty -/
  ceiling : Slot keys "max_prio" (·.getD 100 = sc.ceiling) b.ceiling
  /-- the place of the jobs -/
  jobs : Slot keys "processes" (· = some sc.jobs) b.jobs

/-- The draft that has everything from the scenario, as the reader makes it. -/
def asDraft (sc : Scenario) : Draft where
  resourceCount := sc.resourceCount
  ceiling := sc.ceiling
  limit := sc.limit
  jobs := sc.jobs

/-- Scenarios are read from their texts as drafts: the shape of drafts takes each scenario whose
numbers are in range, and makes `asDraft` of it. -/
theorem draftShape_takes {sc : Scenario} (h : sc.InRange) :
    draftShape.Takes scenarioEntries sc (asDraft sc) (ScenarioFields.Making sc) where
  blank := ⟨.blank, .blank, .blank, .blank⟩
  fields := by
    have hlimit : Reads (readOption (readNat wide)) (DecimalOrNull 10000 sc.limit)
        (·.getD 10000 = sc.limit) := reads_readOption (by decide) h.limit_le
    have hcount : Reads (readOption (readNat index)) (DecimalOrNull 32 sc.resourceCount)
        (·.getD 32 = sc.resourceCount) := reads_readOption (by decide) h.resourceCount_le
    have hceiling : Reads (readOption (readNat narrow)) (DecimalOrNull 100 sc.ceiling)
        (·.getD 100 = sc.ceiling) := reads_readOption (by decide) h.ceiling_le
    have hjobs : Reads (readList jobShape.read) (Listing (Entered jobEntries) sc.jobs)
        (· = sc.jobs) := reads_readList fun job hjob => (jobShape_takes (h.jobs job hjob)).reads
    refine .cons (takes_storing hlimit ?_) (.cons (takes_storing hcount ?_)
      (.cons (takes_storing hceiling ?_) (.cons (takes_storing hjobs ?_) .nil)))
    · rintro keys b o ⟨-, hcount, hceiling, hjobs⟩ ho
      exact ⟨.filled ho, hcount.kept (by decide), hceiling.kept (by decide),
        hjobs.kept (by decide)⟩
    · rintro keys b o ⟨hlimit, -, hceiling, hjobs⟩ ho
      exact ⟨hlimit.kept (by decide), .filled ho, hceiling.kept (by decide),
        hjobs.kept (by decide)⟩
    · rintro keys b o ⟨hlimit, hcount, -, hjobs⟩ ho
      exact ⟨hlimit.kept (by decide), hcount.kept (by decide), .filled ho,
        hjobs.kept (by decide)⟩
    · rintro keys b _ ⟨hlimit, hcount, hceiling, -⟩ rfl
      exact ⟨hlimit.kept (by decide), hcount.kept (by decide), hceiling.kept (by decide),
        .filled rfl⟩
  nodup := by decide
  finish := by
    intro keys b hmaking habsent
    simp only [scenarioEntries, List.forall_mem_cons, imp_false, not_not] at habsent
    obtain ⟨hlimit, hcount, hceiling, hjobs, -⟩ := habsent
    simp only [draftShape, required, hmaking.jobs.required hjobs, ok_bind, ScenarioFields.draft,
      hmaking.limit.getD hlimit, hmaking.resourceCount.getD hcount,
      hmaking.ceiling.getD hceiling]
    rfl

/-- The number for the next job plays no part in the check, so what some draft is built into is
built from `asDraft` too. -/
theorem build_asDraft {sc : Scenario} (h : ∃ d : Draft, d.build = .ok sc) :
    (asDraft sc).build = .ok sc := by
  obtain ⟨d, hd⟩ := h
  obtain ⟨hne, hcount, hnodup, hjobs, rfl⟩ := Draft.build_iff.1 hd
  refine Draft.build_iff.2 ⟨hne, hcount, hnodup, fun job hjob => ?_, rfl⟩
  have hcheck := hjobs job hjob
  simp only [Draft.checkJob, Draft.check_bind_eq_ok, Draft.demand_eq_ok,
    Draft.checkRequests_eq_ok] at hcheck ⊢
  exact hcheck

end Workload

/-- A text that spells a value is read by `readText` as that value if the reader reads its
spellings. -/
theorem Json.Document.readText {α γ : Type} {read : Reader γ} {S : Spelling α} {a : α} {c : γ}
    (h : Reads read (S a) (· = c)) {text : String} (htext : Document S a text.toList) :
    readText read text = .ok c := by
  rw [Json.readText]
  generalize text.toList = cs at htext
  cases htext with
  | @blanks _ u v w hu hv hw =>
    have hstops : Stops w := by simpa using hw.stops_append stops_nil
    have hend : skipSpace w = [] := by
      rw [← List.append_nil w, skipSpace_blank hw]
      rfl
    have hread : read (u ++ (v ++ w)) = .ok (c, w) := h.eq hu hv hstops
    simp only [hread, ok_bind, hend]
    rfl

namespace Scenario

/-- A text spells no more than one scenario in range, since it is read as the draft of each. -/
theorem Spelled.unique {sc sc' : Scenario} {text : String} (h : sc.Spelled text)
    (h' : sc'.Spelled text) (hrange : sc.InRange) (hrange' : sc'.InRange) : sc = sc' := by
  have hread : readText draftShape.read text = .ok (asDraft sc) :=
    h.readText (draftShape_takes hrange).reads
  have hread' : readText draftShape.read text = .ok (asDraft sc') :=
    h'.readText (draftShape_takes hrange').reads
  have hdraft : asDraft sc = asDraft sc' := Except.ok.inj (hread.symm.trans hread')
  exact congrArg Draft.scenario hdraft

/-- Every **text of a scenario loads as it**: a scenario that a draft can be built into, and whose
numbers are `InRange`, is what each text that has it `Spelled` is loaded as. -/
theorem parse_of_spelled {sc : Scenario} (hbuilt : ∃ d : Draft, d.build = .ok sc)
    (hrange : sc.InRange) {text : String} (htext : sc.Spelled text) :
    Workload.parse text = .ok sc := by
  have hread : readText draftShape.read text = .ok (asDraft sc) :=
    htext.readText (draftShape_takes hrange).reads
  simp only [Workload.parse, hread, build_asDraft hbuilt]

/-- A process with one hold. -/
def early : Job where
  pid := 1
  lifespan := 6
  prio := 10
  requests := [⟨1, 1, 3⟩]

/-- A process that is as late and as long as can be. -/
def late : Job where
  pid := 4294967295
  start := 18446744073709551615
  lifespan := 18446744073709551615

/-- Both processes, and two resources. -/
def mixed : Scenario where
  resourceCount := 2
  ceiling := 100
  limit := 10000
  jobs := [early, late]

/-- An object in another order and without the start, with an escaped letter in a key. -/
def earlyText : String :=
  "\x7b\"prio\":10,\t\"\\u0070id\": 1,\"lifespan\":6,\"acquire\":[[1,1,3]]\x7d"

/-- A list that ends early. -/
def lateText : String := "[4294967295,18446744073709551615,18446744073709551615]"

/-- An object in another order, with null for the limit and without the ceiling. -/
def mixedText : String :=
  "\x7b\"processes\":[" ++ earlyText ++ ",\n" ++ lateText ++
    "],\"nr_resources\":2 ,\"max_ticks\":null\x7d\n"

theorem blank_space : Blank [' '] := by simp [Blank]

theorem blank_tab : Blank ['\t'] := by simp [Blank]

theorem blank_line : Blank ['\n'] := by simp [Blank]

theorem early_entered : Entered jobEntries early earlyText.toList := by
  have hrequest : Entered requestEntries ⟨1, 1, 3⟩ _ :=
    .list (List.append_nil _) (by simp) (.more (.first .nil) rfl
      (.more (.next .nil .nil) rfl (.more (.next .nil .nil) rfl (.done .nil))))
  have hcode : Code 'p'.toNat ['0', '0', '7', '0'] := by
    have hzero : HexDigit 0 '0' := ⟨by decide, .inl rfl⟩
    have hseven : HexDigit 7 '7' := ⟨by decide, .inl rfl⟩
    exact .digits hzero hzero hseven hzero
  have hpid : Letters ['p', 'i', 'd'] _ := .cons (.code hcode) (.plain (by decide))
  have hpresent : List.Subperm [_, _, _, _] jobEntries :=
    ⟨[_, _, _, _], (@List.perm_append_comm _ [_, _] [_]).append_right [_],
      .cons_cons _ (.cons _ (.cons_cons _ (.cons_cons _ (.cons_cons _ .slnil))))⟩
  have hearly : Entered jobEntries early _ :=
    .object hpresent (by simp [jobEntries, early]) (.more (.first .nil)
      (.colon (.quotes (.plain (by decide))) .nil .nil rfl) (.more (.next .nil blank_tab)
        (.colon (.quotes hpid) .nil blank_space rfl) (.more (.next .nil .nil)
          (.colon (.quotes (.plain (by decide))) .nil .nil rfl) (.more (.next .nil .nil)
            (.colon (.quotes (.plain (by decide))) .nil .nil
              (.brackets (.more (.first .nil) hrequest (.done .nil)))) (.done .nil)))))
  refine Eq.mp (congrArg (Entered jobEntries early) ?_) hearly
  decide +kernel

theorem late_entered : Entered jobEntries late lateText.toList := by
  have hlate : Entered jobEntries late _ :=
    .list (@rfl _ ([_, _, _] ++ [_, _])) (by simp [late]) (.more (.first .nil) rfl
      (.more (.next .nil .nil) rfl (.more (.next .nil .nil) rfl (.done .nil))))
  refine Eq.mp (congrArg (Entered jobEntries late) ?_) hlate
  decide +kernel

theorem mixed_spelled : mixed.Spelled mixedText := by
  have hpresent : List.Subperm [_, _, _] scenarioEntries :=
    ⟨[_, _, _], List.reverse_perm [_, _, _],
      .cons_cons _ (.cons_cons _ (.cons _ (.cons_cons _ .slnil)))⟩
  have hjobs : Listing (Entered jobEntries) mixed.jobs _ :=
    .brackets (.more (.first .nil) early_entered
      (.more (.next .nil blank_line) late_entered (.done .nil)))
  have hmixed : Entered scenarioEntries mixed _ :=
    .object hpresent (by simp [scenarioEntries, mixed]) (.more (.first .nil)
      (.colon (.quotes (.plain (by decide))) .nil .nil hjobs) (.more (.next .nil .nil)
        (.colon (.quotes (.plain (by decide))) .nil .nil (.number rfl))
          (.more (.next blank_space .nil)
            (.colon (.quotes (.plain (by decide))) .nil .nil .null) (.done .nil))))
  have hdocument : Document (Entered scenarioEntries) mixed _ := .blanks .nil hmixed blank_line
  refine Eq.mp (congrArg (Document (Entered scenarioEntries) mixed) ?_) hdocument
  decide +kernel

/-- The text of the two processes is loaded as the scenario. -/
theorem parse_of_spelled_mixed : (∃ d : Draft, d.build = .ok mixed) ∧ mixed.InRange ∧
    mixed.Spelled mixedText ∧ Workload.parse mixedText = .ok mixed := by
  have hbuilt : ∃ d : Draft, d.build = .ok mixed :=
    ⟨{ resourceCount := 2, jobs := [early, late] }, by decide⟩
  have hrequest : (⟨1, 1, 3⟩ : Request).InRange := ⟨by decide, by decide, by decide⟩
  have hearly : early.InRange :=
    ⟨by decide, by decide, by decide, by decide, by simpa [early] using hrequest⟩
  have hlate : late.InRange := ⟨by decide, by decide, by decide, by decide, by simp [late]⟩
  have hrange : mixed.InRange :=
    ⟨by decide, by decide, by decide, by simpa [mixed] using ⟨hearly, hlate⟩⟩
  exact ⟨hbuilt, hrange, mixed_spelled, parse_of_spelled hbuilt hrange mixed_spelled⟩

end Scenario

end Uniprocessor
