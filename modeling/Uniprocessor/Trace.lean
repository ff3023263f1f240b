import Uniprocessor.Machine.Run
import Uniprocessor.Text.Column

/-!
# Traces

The trace of a run that went to its end: what happened, why the run stopped and when. Questions
about a process are answered from the events alone.
-/

namespace Uniprocessor

/-- What happened in a run, and how and when it stopped. -/
structure Trace where
  /-- what happened, the first first -/
  events : List Event
  /-- why the run stopped -/
  exit : Exit
  /-- the tick at which it stopped -/
  endTick : Nat
  deriving DecidableEq, Repr

/-- The trace of a run, if it went to its end: what its last machine has recorded. -/
def Run.trace? {σ : Type} (r : Run σ) : Option Trace :=
  match r.outcome with
  | .ended exit => some ⟨r.machine.events.toList, exit, r.machine.state.tick⟩
  | _ => none

/-- Who had the processor, if the event tells: a process, or nobody. -/
def Event.turn? (e : Event) : Option (Option Pid) :=
  match e.what with
  | .executed pid => some (some pid)
  | .idle => some none
  | _ => none

/-- Whether a process asked in vain for some resource. -/
def Event.isBlockOf (pid : Pid) (e : Event) : Bool :=
  match e.what with
  | .refused p _ => p = pid
  | _ => false

namespace Trace

/-- Who had the processor, tick by tick: one turn for each tick, `none` for an idle one. -/
def turns (t : Trace) : List (Option Pid) := t.events.filterMap Event.turn?

/-- In how many ticks a process executed, counted by its events. -/
def ranCount (t : Trace) (pid : Pid) : Nat := t.events.countP fun e => e.what = .executed pid

/-- In how many ticks nothing executed, counted by the events that say so. -/
def idleTicks (t : Trace) : Nat := t.events.countP fun e => e.what = .idle

/-- How often a process asked in vain for a resource. -/
def refusalCount (t : Trace) (pid : Pid) : Nat := t.events.countP (Event.isBlockOf pid)

/-- The tick in which something happened first, if it ever did. -/
def tickOf (t : Trace) (what : Happening) : Option Nat :=
  (t.events.find? fun e => e.what = what).map Event.tick

/-- The tick in which a process arrived. -/
def arrivalTick (t : Trace) (pid : Pid) : Option Nat := t.tickOf (.arrived pid)

/-- The tick in which a process left, one past the last that it executed. -/
def departureTick (t : Trace) (pid : Pid) : Option Nat := t.tickOf (.left pid)

/-- The ticks from the arrival of a process to its leaving, if it has left. -/
def turnaround (t : Trace) (pid : Pid) : Option Nat := do
  let exit ← t.departureTick pid
  let fork ← t.arrivalTick pid
  return exit - fork

/-- The line of an event in the listing of a trace. -/
def eventLine (what : Happening) : String :=
  match what with
  | .arrived pid => s!"FORK     pid={pid}"
  | .executed pid => s!"SCHED    pid={pid}"
  | .acquired pid r => s!"ACQUIRE  pid={pid} res={r}"
  | .refused pid r => s!"BLOCK    pid={pid} res={r}"
  | .released pid r => s!"RELEASE  pid={pid} res={r}"
  | .woken pid r => s!"WAKE     pid={pid} res={r}"
  | .left pid => s!"EXIT     pid={pid}"
  | .idle => "IDLE"

/-- A line of the listing, under its tick. -/
def stampedLine (tick : Nat) (text : String) : String :=
  "[" ++ Text.alignRight 6 (toString tick) ++ "] " ++ text

/-- The listing of a trace: a line for every event and one for the end. -/
def listing (t : Trace) : List String :=
  (t.events.map fun e => stampedLine e.tick (eventLine e.what)) ++
    [stampedLine t.endTick ("END      " ++ t.exit.label)]

end Trace

end Uniprocessor
