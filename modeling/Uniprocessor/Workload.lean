import Uniprocessor.Scenario.Draft
import Uniprocessor.Json.Record

/-!
# Workloads

A workload is the text of a scenario. It is a record of the tick limit, the number of resources, the
priority ceiling and the processes; the first three may be absent or null and then have the defaults
of a draft. A process is a record of its number, start, lifespan, priority and requests, of which
only the number and the lifespan must be there. A request is a record of a resource, an age and a
duration. No record may have other fields, so that a misspelt name does not change a run unnoticed.

The scenario that the text describes is then checked like any other draft.
-/

namespace Uniprocessor

open Json

/-- Why a workload cannot be run. -/
inductive LoadFailure where
  /-- there is no text to read, for the reason that the system gives -/
  | unreadable (reason : String)
  /-- the text has the wrong form -/
  | unparsable (complaint : Complaint)
  /-- the scenario has a defect -/
  | defective (defect : Defect)
  deriving DecidableEq, Repr

namespace Workload

/-- A value, or the name of the field that should have had it. -/
def required {α : Type} (name : String) : Option α → Except String α
  | some a => .ok a
  | none => .error name

/-- A request in the making. -/
structure RequestFields where
  /-- the resource to hold -/
  resource : Option Nat := none
  /-- the age at which the process asks for it -/
  due : Option Nat := none
  /-- how many executed ticks the process keeps it -/
  duration : Option Nat := none

/-- Reads a value and stores it. -/
def storing {α β : Type} (read : Reader α) (store : β → α → β) (b : β) : Reader β := fun cs => do
  let (a, rest) ← read cs
  return (store b a, rest)

/-- How a request is read. -/
def requestShape : Shape RequestFields Request where
  title := "struct AcquireEntry"
  fields := [
    ⟨"resource", storing (readNat index) fun b n => { b with resource := some n }, false⟩,
    ⟨"at", storing (readNat wide) fun b n => { b with due := some n }, false⟩,
    ⟨"duration", storing (readNat wide) fun b n => { b with duration := some n }, false⟩]
  blank := {}
  finish b := do
    let resource ← required "resource" b.resource
    let due ← required "at" b.due
    let duration ← required "duration" b.duration
    return { resource := resource, due := due, duration := duration }

/-- A process in the making. -/
structure JobFields where
  /-- the number it will have -/
  pid : Option Nat := none
  /-- the tick at which it arrives -/
  start : Option Nat := none
  /-- how many ticks it executes in all -/
  lifespan : Option Nat := none
  /-- the priority it is created with -/
  prio : Option Nat := none
  /-- its holds -/
  requests : Option (List Request) := none

/-- How a process is read. -/
def jobShape : Shape JobFields Job where
  title := "struct ProcessEntry"
  fields := [
    ⟨"pid", storing (readNat narrow) fun b n => { b with pid := some n }, false⟩,
    ⟨"start", storing (readNat wide) fun b n => { b with start := some n }, true⟩,
    ⟨"lifespan", storing (readNat wide) fun b n => { b with lifespan := some n }, false⟩,
    ⟨"prio", storing (readNat narrow) fun b n => { b with prio := some n }, true⟩,
    ⟨"acquire", storing (readList requestShape.read) fun b qs => { b with requests := some qs },
      true⟩]
  blank := {}
  finish b := do
    let pid ← required "pid" b.pid
    let lifespan ← required "lifespan" b.lifespan
    return {
      pid := pid
      start := b.start.getD 0
      lifespan := lifespan
      prio := b.prio.getD 0
      requests := b.requests.getD [] }

/-- A scenario in the making. -/
structure ScenarioFields where
  /-- the tick at which an unfinished run stops -/
  limit : Option Nat := none
  /-- the length of the resource table -/
  resourceCount : Option Nat := none
  /-- the largest priority a job may have -/
  ceiling : Option Nat := none
  /-- the processes to come -/
  jobs : Option (List Job) := none

/-- The draft with these fields and the defaults for what is absent. -/
def ScenarioFields.draft (b : ScenarioFields) (jobs : List Job) : Draft :=
  let d : Draft := {}
  { d with
    resourceCount := b.resourceCount.getD d.resourceCount
    ceiling := b.ceiling.getD d.ceiling
    limit := b.limit.getD d.limit
    jobs := jobs }

/-- How the draft of a scenario is read. -/
def draftShape : Shape ScenarioFields Draft where
  title := "struct WorkloadFile"
  fields := [
    ⟨"max_ticks", storing (readOption (readNat wide)) fun b n => { b with limit := n }, false⟩,
    ⟨"nr_resources", storing (readOption (readNat index)) fun b n => { b with resourceCount := n },
      false⟩,
    ⟨"max_prio", storing (readOption (readNat narrow)) fun b n => { b with ceiling := n }, false⟩,
    ⟨"processes", storing (readList jobShape.read) fun b js => { b with jobs := some js }, false⟩]
  blank := {}
  finish b := do
    let jobs ← required "processes" b.jobs
    return b.draft jobs

/-- The scenario that a text describes. -/
def parse (text : String) : Except LoadFailure Scenario :=
  match readText draftShape.read text with
  | .error complaint => .error (.unparsable complaint)
  | .ok draft =>
    match draft.build with
    | .error defect => .error (.defective defect)
    | .ok scenario => .ok scenario

/-- The text of a file's bytes, if there is such a file. -/
def decode (file : Except String ByteArray) : Except LoadFailure String :=
  match file with
  | .error reason => .error (.unreadable reason)
  | .ok bytes =>
    match String.fromUTF8? bytes with
    | none => .error (.unreadable "stream did not contain valid UTF-8")
    | some text => .ok text

/-- The scenario that the bytes of a file describe, if there is such a file. -/
def load (file : Except String ByteArray) : Except LoadFailure Scenario := do
  let text ← decode file
  parse text

end Workload

/-- The text that reports a complaint. Where the text is not JSON nothing more is said. -/
def Json.Complaint.message : Complaint → String
  | .ended => "unexpected end of input"
  | .malformed => "malformed input"
  | .misshapen how => how.message

/-- What is behind a load failure, as a text. -/
def LoadFailure.cause : LoadFailure → String
  | .unreadable reason => reason
  | .unparsable complaint => complaint.message
  | .defective defect => defect.message

/-- The text that reports why a workload cannot be run. -/
def LoadFailure.message (e : LoadFailure) : String :=
  let heading := match e with
    | .unreadable _ => "cannot read workload: "
    | .unparsable _ => "JSON parse error: "
    | .defective _ => "invalid workload: "
  heading ++ e.cause

end Uniprocessor
