import Uniprocessor.Scenario

/-!
# Drafts of scenarios

A scenario is drafted step by step, from defaults, and then checked as a whole. The check looks at
the jobs in order and at the requests of each in order, and names the first defect that it meets.

A job without a number of its own gets one more than the largest number drafted so far. The largest
process number is followed by itself, so that a draft which runs out of numbers has a repeated one
and is refused, instead of starting again at a small number.
-/

namespace Uniprocessor

/-- Why a draft is no scenario: the first thing that `build` finds wrong with it. -/
inductive Defect where
  /-- there is nothing to run -/
  | noJobs
  /-- the resource table would be too long -/
  | tooManyResources (count : Nat)
  /-- two jobs have one number -/
  | duplicatePid (pid : Pid)
  /-- the job has nothing to execute -/
  | zeroLifespan (pid : Pid)
  /-- the job's priority is above the ceiling -/
  | prioOutOfRange (pid : Pid) (prio ceiling : Nat)
  /-- the request is for a resource outside the table -/
  | resourceOutOfRange (pid : Pid) (resource : ResourceId) (count : Nat)
  /-- the hold has no length -/
  | zeroDuration (pid : Pid) (resource : ResourceId)
  /-- the hold would outlive the process -/
  | holdPastLifespan (pid : Pid) (resource : ResourceId) (expiry lifespan : Nat)
  /-- two holds of one resource by one job overlap -/
  | overlappingHold (pid : Pid) (resource : ResourceId)
  deriving DecidableEq, Repr

/-- The length of the longest resource table. -/
def largestResourceCount : Nat := 65536

/-- The text that reports a defect, with the numbers that it is about. -/
def Defect.message : Defect → String
  | .noJobs => "scenario has no processes"
  | .tooManyResources count =>
    s!"{count} resources requested, at most {largestResourceCount} supported"
  | .duplicatePid pid => s!"pid {pid} defined more than once"
  | .zeroLifespan pid => s!"pid {pid} has a zero lifespan"
  | .prioOutOfRange pid prio ceiling => s!"pid {pid} has prio {prio} above max_prio {ceiling}"
  | .resourceOutOfRange pid r count =>
    s!"pid {pid} requests " ++ r.label ++ s!" but only {count} resources exist"
  | .zeroDuration pid r => s!"pid {pid} holds " ++ r.label ++ " for zero ticks"
  | .holdPastLifespan pid r expiry lifespan =>
    s!"pid {pid} holds " ++ r.label ++ s!" until age {expiry} past its lifespan {lifespan}"
  | .overlappingHold pid r => s!"pid {pid} has overlapping holds of " ++ r.label

/-- A scenario in the making: the settings and jobs so far, and the number for the next job that
brings none. -/
structure Draft where
  /-- the length of the resource table -/
  resourceCount : Nat := 32
  /-- the largest priority a job may have -/
  ceiling : Nat := 100
  /-- the tick at which an unfinished run stops -/
  limit : Nat := 10000
  /-- the jobs drafted so far -/
  jobs : List Job := []
  /-- the number for a job that brings none -/
  nextPid : Pid := 1
  deriving DecidableEq, Repr

namespace Draft

/-- Adds a job, and moves the next number past the job's, as long as there is one. -/
def add (d : Draft) (job : Job) : Draft :=
  { d with
    jobs := d.jobs ++ [job]
    nextPid := if d.nextPid ≤ job.pid then min largestPid (job.pid + 1) else d.nextPid }

/-- Adds a job that arrives at once, under the next number. -/
def addNext (d : Draft) (lifespan prio : Nat) : Draft :=
  d.add { pid := d.nextPid, lifespan := lifespan, prio := prio }

/-- Goes on only where `c` holds; otherwise the check stops with the defect `e`. -/
def demand (c : Prop) [Decidable c] (e : Defect) : Except Defect Unit :=
  if c then .ok () else .error e

@[simp] theorem demand_eq_ok {c : Prop} [Decidable c] {e : Defect} :
    demand c e = .ok () ↔ c := by
  by_cases h : c <;> simp [demand, h]

/-- Checks requests of a job, given those before them: each by itself, and against those. -/
def checkRequests (d : Draft) (job : Job) : List Request → List Request → Except Defect Unit
  | _, [] => .ok ()
  | earlier, q :: rest => do
    demand (q.resource < d.resourceCount)
      (.resourceOutOfRange job.pid q.resource d.resourceCount)
    demand (0 < q.duration) (.zeroDuration job.pid q.resource)
    demand (q.expiry ≤ job.lifespan)
      (.holdPastLifespan job.pid q.resource q.expiry job.lifespan)
    demand (earlier.any q.overlaps = false) (.overlappingHold job.pid q.resource)
    checkRequests d job (earlier ++ [q]) rest

/-- Checks one job by itself: its lifespan, its priority and its requests. -/
def checkJob (d : Draft) (job : Job) : Except Defect Unit := do
  demand (0 < job.lifespan) (.zeroLifespan job.pid)
  demand (job.prio ≤ d.ceiling) (.prioOutOfRange job.pid job.prio d.ceiling)
  d.checkRequests job [] job.requests

/-- Checks jobs, given the numbers of those before them: each number must be new, and each job pass
`checkJob`. -/
def checkJobs (d : Draft) : List Pid → List Job → Except Defect Unit
  | _, [] => .ok ()
  | seen, job :: rest => do
    demand (job.pid ∉ seen) (.duplicatePid job.pid)
    d.checkJob job
    checkJobs d (job.pid :: seen) rest

/-- The scenario that a draft without defects describes, or the first `Defect` that the check
finds. -/
def build (d : Draft) : Except Defect Scenario := do
  demand (d.jobs ≠ []) .noJobs
  demand (d.resourceCount ≤ largestResourceCount) (.tooManyResources d.resourceCount)
  d.checkJobs [] d.jobs
  return { resourceCount := d.resourceCount, ceiling := d.ceiling, limit := d.limit,
           jobs := d.jobs }

end Draft

end Uniprocessor
