import Uniprocessor.State

/-!
# The partition of the processes

Whenever no choice is being carried out, each live process is in exactly one place: executing, in
the ready queue, or in the wait queue of one resource, with the status that says so; at most one
process executes, and it is the current one; owners are live and do not wait for what they own; no
queue holds a process that is not live. `State.violation` finds the first breach, in a fixed order:
the running processes, then each process by number, then each resource by number, then the ready
queue.
-/

namespace Uniprocessor

/-- A breach of the partition: in which way a process or a resource is out of place. -/
inductive Violation where
  /-- several processes execute -/
  | manyRunning (pids : List Pid)
  /-- the process that executes is not the current one -/
  | runningElsewhere (pid : Pid) (current : Option Pid)
  /-- the process is in no place, or in several -/
  | misplaced (pid : Pid) (status : Status) (ready waits running : Nat)
  /-- the process is in one place, and its status names another -/
  | mislabelled (pid : Pid) (status expected : Status)
  /-- the owner is not live -/
  | deadOwner (resource : ResourceId) (owner : Pid)
  /-- the owner is blocked and waits nowhere -/
  | blockedOwner (resource : ResourceId) (owner : Pid)
  /-- the owner waits for what it owns -/
  | waitingOwner (resource : ResourceId) (owner : Pid)
  /-- a process in the wait queue is not live -/
  | deadWaiter (resource : ResourceId) (pid : Pid)
  /-- a process in the ready queue is not live -/
  | deadReady (pid : Pid)
  deriving DecidableEq, Repr

/-- The text that reports a breach. -/
def Violation.message : Violation → String
  | .manyRunning pids => "more than one running process: " ++ Pid.spelledList pids
  | .runningElsewhere pid current =>
    s!"pid {pid} is running but current is " ++ Pid.spelledOption current
  | .misplaced pid status ready waits running =>
    s!"pid {pid} (" ++ status.label ++
      s!") is in {ready} ready queue(s), {waits} wait queue(s), running={running}"
  | .mislabelled pid status expected =>
    s!"pid {pid} has status " ++ status.label ++ " but is queued as " ++ expected.label
  | .deadOwner r owner => r.label ++ s!" owned by dead pid {owner}"
  | .blockedOwner r owner => r.label ++ s!" owned by blocked pid {owner}"
  | .waitingOwner r owner => r.label ++ s!" owner pid {owner} waits on it"
  | .deadWaiter r pid => r.label ++ s!" wait queue holds dead pid {pid}"
  | .deadReady pid => s!"ready queue holds dead pid {pid}"

namespace State

/-- The processes whose status is running, in order of their numbers. -/
def runningPids (s : State) : List Pid :=
  (s.procs.filter fun p => p.status = .running).map Process.pid

/-- A breach by the processes that execute: there is more than one, or not the current one. -/
def runningViolation (s : State) : Option Violation :=
  match s.runningPids with
  | [] => none
  | [pid] => if s.current = some pid then none else some (.runningElsewhere pid s.current)
  | pids => some (.manyRunning pids)

/-- How many wait queues hold `pid`; a blocked process is to be in one, and any other in none. -/
def waitCount (s : State) (pid : Pid) : Nat :=
  s.resources.countP fun x => pid ∈ x.waiters

/-- A breach by the place or the label of one process. -/
def placeViolation (s : State) (p : Process) : Option Violation :=
  let ready := if p.pid ∈ s.ready then 1 else 0
  let waits := s.waitCount p.pid
  let running := if p.status = .running then 1 else 0
  if ready + waits + running = 1 then
    let expected : Status :=
      if ready = 1 then .ready else if waits = 1 then .blocked else .running
    if p.status = expected then none else some (.mislabelled p.pid p.status expected)
  else some (.misplaced p.pid p.status ready waits running)

/-- A breach by the owner of a resource: it is not live, or it is not in a place where it may own
something. -/
def ownerViolation (s : State) (r : ResourceId) (x : Resource) : Option Violation :=
  match x.owner with
  | none => none
  | some owner =>
    match s.process? owner with
    | none => some (.deadOwner r owner)
    | some p =>
      if p.isBlocked ∧ s.awaited owner = none then some (.blockedOwner r owner)
      else if owner ∈ x.waiters then some (.waitingOwner r owner)
      else none

/-- The first process of a queue that is not live. -/
def firstDead (s : State) (q : Queue) : Option Pid :=
  q.find? fun pid => (s.process? pid).isNone

/-- The first breach by these resources, numbered from `r`. -/
def resourceViolation (s : State) : ResourceId → List Resource → Option Violation
  | _, [] => none
  | r, x :: rest =>
    (s.ownerViolation r x).or <|
      ((s.firstDead x.waiters).map (Violation.deadWaiter r)).or <|
        s.resourceViolation (r + 1) rest

/-- The first breach of the partition, if there is one: by who executes, by places, by resources,
then by the ready queue. -/
def violation (s : State) : Option Violation :=
  s.runningViolation.or <|
    (s.procs.findSome? s.placeViolation).or <|
      (s.resourceViolation 0 s.resources).or <|
        (s.firstDead s.ready).map Violation.deadReady

end State

end Uniprocessor
