import Uniprocessor.Queue

/-!
# The scheduling state

What the machine and its policy share: the live processes, the current one, the ready queue, the
resource table, the clock and the priority ceiling. A policy reads all of it and moves processes
between queues, statuses and owners; ages, lifespans, the clock and the set of live processes belong
to the machine.

The process table is a list in strictly increasing order of process number. Resources are numbered
from zero by their position in the resource table, whose length never changes.

Every operation names its broken promises as faults, in the order in which it meets them.
-/

namespace Uniprocessor

/-- An entry of the resource table: who holds the resource, and who waits for it in which order. -/
structure Resource where
  /-- the process that holds it -/
  owner : Option Pid := none
  /-- the blocked processes that wait for it -/
  waiters : Queue := []
  deriving DecidableEq, Repr

/-- Whether nobody holds the resource. -/
def Resource.isFree (r : Resource) : Bool := r.owner.isNone

/-- Whether `pid` holds the resource. -/
def Resource.isHeldBy (r : Resource) (pid : Pid) : Bool := r.owner = some pid

/-- What the machine and its policy share: who is live, who executes, who is ready, and who has
what. -/
structure State where
  /-- the live processes, in increasing order of their numbers -/
  procs : List Process
  /-- the process chosen for the current tick -/
  current : Option Pid
  /-- the processes that could execute -/
  ready : Queue
  /-- the resource table -/
  resources : List Resource
  /-- the clock -/
  tick : Nat
  /-- the largest priority a process may be created with -/
  ceiling : Nat
  deriving DecidableEq, Repr

namespace State

/-- No processes, `resourceCount` free resources, and the clock at zero. -/
def empty (resourceCount : Nat) (ceiling : Nat) : State where
  procs := []
  current := none
  ready := []
  resources := List.replicate resourceCount {}
  tick := 0
  ceiling := ceiling

/-! ## The process table -/

/-- The live process with this number, if there is one: the entry of the process table. -/
def process? (s : State) (pid : Pid) : Option Process :=
  s.procs.find? fun p => p.pid = pid

/-- The live process with this number; it is a fault if there is none. -/
def process (s : State) (pid : Pid) : Except Fault Process :=
  match s.process? pid with
  | some p => .ok p
  | none => .error (.notLive pid)

/-- Changes the record of one process by `f` and leaves all others alone. -/
def adjust (s : State) (pid : Pid) (f : Process → Process) : State :=
  { s with procs := s.procs.map fun p => if p.pid = pid then f p else p }

/-- Changes the record of a live process; it is a fault if there is none. -/
def revise (s : State) (pid : Pid) (f : Process → Process) : Except Fault State := do
  let _ ← s.process pid
  return s.adjust pid f

/-- Gives a live process a status; it is a fault if there is no such process. -/
def setStatus (s : State) (pid : Pid) (status : Status) : Except Fault State :=
  s.revise pid fun p => { p with status := status }

/-- Gives a live process a priority; it is a fault if there is no such process. -/
def setPrio (s : State) (pid : Pid) (prio : Nat) : Except Fault State :=
  s.revise pid fun p => { p with prio := prio }

/-- The record of the current process, if there is a current process. -/
def currentRecord (s : State) : Except Fault (Option Process) :=
  match s.current with
  | none => .ok none
  | some pid => some <$> s.process pid

/-- Puts a process into a process table, before the first one with a larger number. -/
def insertByPid (p : Process) : List Process → List Process
  | [] => [p]
  | q :: rest => if p.pid < q.pid then p :: q :: rest else q :: insertByPid p rest

/-- A new process joins the table and, ready, the tail of the ready queue. -/
def enroll (s : State) (p : Process) : Except Fault State := do
  require (s.process? p.pid = none) (.arrivedTwice p.pid)
  let ready ← s.ready.pushBack p.pid
  return { s with procs := insertByPid { p with status := .ready } s.procs, ready := ready }

/-- Passes if `pid` neither owns nor waits for any of these resources, numbered from `r`. -/
def untied (pid : Pid) : ResourceId → List Resource → Except Fault Unit
  | _, [] => .ok ()
  | r, x :: rest => do
    require (x.owner ≠ some pid) (.leavingOwner pid r)
    require (pid ∉ x.waiters) (.leavingWaiter pid r)
    untied pid (r + 1) rest

/-- A process leaves the table. It must be gone from everywhere else before. -/
def dismiss (s : State) (pid : Pid) : Except Fault (Process × State) := do
  require (s.current ≠ some pid) (.leavingCurrent pid)
  require (pid ∉ s.ready) (.leavingReady pid)
  untied pid 0 s.resources
  let p ← s.process pid
  return (p, { s with procs := s.procs.filter fun q => q.pid ≠ pid })

/-! ## The resource table -/

/-- The resource with this number; it is a fault if the table is too short. -/
def resource (s : State) (r : ResourceId) : Except Fault Resource :=
  match s.resources[r]? with
  | some x => .ok x
  | none => .error (.noResource r)

/-- Replaces an entry of the resource table; there is no change beyond its end. -/
def setResource (s : State) (r : ResourceId) (x : Resource) : State :=
  { s with resources := s.resources.set r x }

/-- The first resource in whose wait queue `pid` stands, which in a settled state is the only
one. -/
def awaited (s : State) (pid : Pid) : Option ResourceId :=
  s.resources.findIdx? fun x => pid ∈ x.waiters

/-- The numbers of the resources that `pid` owns, in increasing order, counted from `r`. -/
def holdingsFrom (pid : Pid) : ResourceId → List Resource → List ResourceId
  | _, [] => []
  | r, x :: rest =>
    if x.owner = some pid then r :: holdingsFrom pid (r + 1) rest else holdingsFrom pid (r + 1) rest

/-- The resources that `pid` owns, in increasing order. -/
def holdings (s : State) (pid : Pid) : List ResourceId := holdingsFrom pid 0 s.resources

/-! ## The ready queue -/

/-- Takes `pid` out of the ready queue; it is a fault if it is not there. -/
def takeOut (s : State) (pid : Pid) : Except Fault State := do
  require (pid ∈ s.ready) (.notReady pid)
  return { s with ready := s.ready.remove pid }

/-- Takes the head of the ready queue, if there is one, and leaves the others as they stand. -/
def takeHead (s : State) : State × Option Pid :=
  ({ s with ready := s.ready.pop.2 }, s.ready.pop.1)

/-- Makes `pid` ready, at the tail of the ready queue, by `pushBack`. -/
def queueLast (s : State) (pid : Pid) : Except Fault State := do
  let s ← s.setStatus pid .ready
  let ready ← s.ready.pushBack pid
  return { s with ready := ready }

/-- Makes `pid` ready, at the head of the ready queue, by `pushFront`. -/
def queueFirst (s : State) (pid : Pid) : Except Fault State := do
  let s ← s.setStatus pid .ready
  let ready ← s.ready.pushFront pid
  return { s with ready := ready }

/-! ## What the operations do to the tables -/

/-- Looking a process up by `process` succeeds exactly with the entry that `process?` finds. -/
theorem process_eq_ok {s : State} {pid : Pid} {p : Process} :
    s.process pid = .ok p ↔ s.process? pid = some p := by
  unfold process
  split <;> simp_all

/-- An entry that is looked up has the number it was looked up by. -/
theorem pid_of_process? {s : State} {pid : Pid} {p : Process} (h : s.process? pid = some p) :
    p.pid = pid := by
  simpa using List.find?_some h

/-- A changed record is found under its number, and no other record changes. -/
theorem process?_adjust {s : State} {pid : Pid} {f : Process → Process}
    (hf : ∀ p, (f p).pid = p.pid) (q : Pid) :
    (s.adjust pid f).process? q =
      if q = pid then (s.process? q).map f else s.process? q := by
  have key : ∀ l : List Process,
      (l.map fun p => if p.pid = pid then f p else p).find? (fun p => decide (p.pid = q)) =
        if q = pid then (l.find? fun p => decide (p.pid = q)).map f
        else l.find? fun p => decide (p.pid = q) := by
    intro l
    induction l with
    | nil => simp
    | cons p rest ih =>
      rw [List.map_cons, List.find?_cons, List.find?_cons, ih]
      by_cases hp : p.pid = pid <;> by_cases hq : q = pid <;> by_cases hpq : p.pid = q <;>
        simp_all
  simpa [process?, adjust] using key s.procs

end State

end Uniprocessor
