import Uniprocessor.Quantity

/-!
# Scenarios

A scenario says what a run is given: how many resources there are, the priority ceiling, the tick at
which to stop, and the jobs. A job becomes a process at its start tick. Its requests say which
resources it holds during which part of its lifespan; they are counted in ticks that the process has
executed, so a process that waits does not use up its holds.
-/

namespace Uniprocessor

/-- A hold that a job asks for: of which resource, from which age on, and for how many ticks. -/
structure Request where
  /-- the resource to hold -/
  resource : ResourceId
  /-- the age at which the process asks for it -/
  due : Nat
  /-- how many executed ticks the process keeps it -/
  duration : Nat
  deriving DecidableEq, Repr

/-- The first age at which the resource is no longer held; a hold that would last longer than any
lifespan ends at the largest tick. -/
def Request.expiry (q : Request) : Nat := min largestTick (q.due + q.duration)

/-- Whether the two holds overlap: they are of one resource, and each begins before the other
ends. -/
def Request.overlaps (q other : Request) : Bool :=
  other.resource = q.resource ∧ other.due < q.expiry ∧ q.due < other.expiry

/-- A process to come: its number, its start, and all that it will do. -/
structure Job where
  /-- the number it will have -/
  pid : Pid
  /-- the tick at which it arrives -/
  start : Nat := 0
  /-- how many ticks it executes in all -/
  lifespan : Nat
  /-- the priority it is created with -/
  prio : Nat := 0
  /-- its holds, in the order in which it asks for those due at one age -/
  requests : List Request := []
  deriving DecidableEq, Repr

/-- What a run is given: the jobs, the resources, the ceiling and the limit. -/
structure Scenario where
  /-- the length of the resource table -/
  resourceCount : Nat
  /-- the largest priority a job may have -/
  ceiling : Nat
  /-- the tick at which an unfinished run stops -/
  limit : Nat
  /-- the processes to come -/
  jobs : List Job
  deriving DecidableEq, Repr

namespace Scenario

/-- The executed ticks of a complete run: the sum of all lifespans, or the largest tick if the sum
passes it. -/
def work (sc : Scenario) : Nat :=
  sc.jobs.foldl (fun total job => min largestTick (total + job.lifespan)) 0

/-- How many requests the jobs have in all, which bounds the steps of a tick. -/
def requestCount (sc : Scenario) : Nat :=
  sc.jobs.foldl (fun total job => total + job.requests.length) 0

end Scenario

end Uniprocessor
