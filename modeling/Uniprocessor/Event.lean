import Uniprocessor.Quantity

/-!
# Events

A run records what happens as a list of events, in order, each under the tick in which it happened.
Every executed tick has one `executed` event and every tick in which nothing executes has one
`idle` event, so those two tell who had the processor when.
-/

namespace Uniprocessor

/-- What can happen in a run: all that a machine records, and all that a trace is made of. -/
inductive Happening where
  /-- the process arrived and joined the ready queue -/
  | arrived (pid : Pid)
  /-- the process executed this tick -/
  | executed (pid : Pid)
  /-- the process got a resource that it had asked for -/
  | acquired (pid : Pid) (resource : ResourceId)
  /-- the process asked for a resource and has to wait for it -/
  | refused (pid : Pid) (resource : ResourceId)
  /-- the process gave a resource back -/
  | released (pid : Pid) (resource : ResourceId)
  /-- the process no longer waits for the resource -/
  | woken (pid : Pid) (resource : ResourceId)
  /-- the process has executed its lifespan and left -/
  | left (pid : Pid)
  /-- nothing executed this tick -/
  | idle
  deriving DecidableEq, Repr

/-- What happened, with its tick: one entry of a trace. -/
structure Event where
  /-- the tick in which it happened -/
  tick : Nat
  /-- what happened -/
  what : Happening
  deriving DecidableEq, Repr

/-- Why a run stopped. -/
inductive Exit where
  /-- every process executed its lifespan -/
  | normal
  /-- every live process waits for a resource -/
  | deadlock
  /-- the limit of the scenario came first -/
  | tickLimit
  deriving DecidableEq, Repr

/-- The text of an exit. -/
def Exit.label : Exit → String
  | .normal => "all processes exited"
  | .deadlock => "deadlock"
  | .tickLimit => "tick limit reached"

end Uniprocessor
