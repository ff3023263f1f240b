import Uniprocessor.Event
import Uniprocessor.Log.Filter
import Uniprocessor.State.Snapshot

/-!
# Notes

While a run goes on, the machine and its policy note what they do. A note keeps the facts; as a
record it has a level, a message and named fields, which is what a log line shows. The filter of the
log decides on every record by its source, its level and its fields. The portrait of the whole state
at the end of a tick comes as a record of level `debug` for each of its lines, but only if the log
would show records of the finest level from the machine.
-/

namespace Uniprocessor

/-- What a log line shows after its stamp. -/
structure Record where
  /-- how important it is -/
  level : Level
  /-- what happened -/
  message : String
  /-- the facts, by name, in the order in which they are shown -/
  fields : List (String × String) := []
  deriving DecidableEq, Repr

/-- What the machine or a policy notes about a run. -/
inductive Note where
  /-- the policy is ready and the run begins -/
  | started (policy : String) (jobs resources limit : Nat)
  /-- a process arrives -/
  | arrived (pid : Pid) (lifespan prio : Nat)
  /-- the current process changes -/
  | switched (prev next : Option Pid)
  /-- nothing executes this tick -/
  | idled
  /-- a process has executed a tick -/
  | ran (pid : Pid) (age prio : Nat)
  /-- a process leaves -/
  | left (pid : Pid)
  /-- every live process waits -/
  | stuck (blocked : Nat)
  /-- the run is over -/
  | finished (exit : Exit) (ticks : Nat)
  /-- the state at the end of a tick -/
  | portrayed (state : State)
  /-- a process has its resource -/
  | granted (pid : Pid) (resource : ResourceId)
  /-- a process has to wait for a resource -/
  | refused (pid : Pid) (resource : ResourceId) (owner : Option Pid)
  /-- a process no longer waits for a resource -/
  | woken (pid : Pid) (resource : ResourceId)
  /-- a waiting process gains priority -/
  | aged (pid : Pid) (prio : Nat)
  /-- an owner rises to the ceiling -/
  | raised (pid : Pid) (resource : ResourceId) (prio : Nat)
  /-- an owner falls back to its base priority -/
  | lowered (pid : Pid) (resource : ResourceId) (prio : Nat)
  /-- an owner takes over the priority of a waiter, or gives it back -/
  | inherited (pid : Pid) (before after : Nat)
  /-- a process of higher priority takes over -/
  | outranked (prev next : Pid) (prevPrio nextPrio : Nat)
  /-- a process with less left to execute takes over -/
  | outpaced (prev next : Pid) (remaining nextRemaining : Nat)
  deriving DecidableEq, Repr

/-- A process number that may be absent, as a field shows it. -/
private def optionField : Option Pid → String
  | none => "None"
  | some pid => "Some(" ++ toString pid ++ ")"

/-- A record whose fields are all numbers. -/
private def counted (level : Level) (message : String) (fields : List (String × Nat)) : Record :=
  { level := level, message := message, fields := fields.map fun f => (f.1, toString f.2) }

/-- The machine, as a source of records. -/
def machineSource : String := "ticksched::engine"

/-- The source of the records of a note: the machine, the state, the handling of resources, or the
discipline that alone takes such notes. -/
def Note.source : Note → String
  | .started .. | .arrived .. | .switched .. | .idled | .ran .. | .left .. | .stuck ..
  | .finished .. => machineSource
  | .portrayed .. => "ticksched::context"
  | .granted .. | .refused .. | .woken .. => "ticksched::policies::common"
  | .aged .. => "ticksched::policies::aging"
  | .raised .. | .lowered .. => "ticksched::policies::pcp"
  | .inherited .. => "ticksched::policies::pip"
  | .outranked .. => "ticksched::policies::prio"
  | .outpaced .. => "ticksched::policies::stcf"

/-- The records of a note. -/
def Note.records : Note → List Record
  | .started policy jobs resources limit =>
    [⟨.info, "simulation start",
      [("policy", policy), ("processes", toString jobs), ("resources", toString resources),
       ("max_ticks", toString limit)]⟩]
  | .arrived pid lifespan prio =>
    [counted .debug "fork" [("pid", pid), ("lifespan", lifespan), ("prio", prio)]]
  | .switched prev next =>
    [⟨.debug, "switch", [("prev", optionField prev), ("next", optionField next)]⟩]
  | .idled => [⟨.debug, "idle", []⟩]
  | .ran pid age prio => [counted .trace "ran" [("pid", pid), ("age", age), ("prio", prio)]]
  | .left pid => [counted .debug "exit" [("pid", pid)]]
  | .stuck blocked => [counted .warn "every live process is blocked" [("blocked", blocked)]]
  | .finished exit ticks =>
    [⟨.info, "simulation done", [("exit", exit.label), ("ticks", toString ticks)]⟩]
  | .portrayed state =>
    match state.lines with
    | .ok lines => lines.map fun line => ⟨.debug, line, []⟩
    | .error _ => []
  | .granted pid r => [counted .trace "resource granted" [("pid", pid), ("resource", r)]]
  | .refused pid r owner =>
    [⟨.debug, "blocked on resource",
      [("pid", toString pid), ("resource", toString r), ("owner", optionField owner)]⟩]
  | .woken pid r => [counted .debug "woke waiter" [("pid", pid), ("resource", r)]]
  | .aged pid prio => [counted .trace "aged" [("pid", pid), ("prio", prio)]]
  | .raised pid r prio =>
    [counted .debug "raised to ceiling" [("pid", pid), ("resource", r), ("prio", prio)]]
  | .lowered pid r prio =>
    [counted .debug "ceiling dropped" [("pid", pid), ("resource", r), ("prio", prio)]]
  | .inherited pid before after =>
    [counted .debug "inherited priority" [("pid", pid), ("from", before), ("to", after)]]
  | .outranked prev next prevPrio nextPrio =>
    [counted .debug "preempting for higher priority"
      [("prev", prev), ("next", next), ("prev_prio", prevPrio), ("next_prio", nextPrio)]]
  | .outpaced prev next remaining nextRemaining =>
    [counted .debug "preempting for shorter remaining time"
      [("prev", prev), ("next", next), ("remaining", remaining),
       ("next_remaining", nextRemaining)]]

/-- Whether a log has a place for a note at all, its own records aside: for a portrait only if the
machine may speak at the finest level. -/
def Note.hasPlace (f : Filter) : Note → Bool
  | .portrayed _ => f.showsSource machineSource .trace
  | _ => true

/-- The records of a note that a log shows. -/
def Note.shown (f : Filter) (n : Note) : List Record :=
  if n.hasPlace f then
    n.records.filter fun r => f.shows n.source r.level (r.fields.map Prod.fst)
  else []

end Uniprocessor
