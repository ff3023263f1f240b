import Uniprocessor.Machine
import Uniprocessor.Discipline

/-!
# Runs

A run sets the policy up and then takes steps until the machine's run is over, or a fault stops it,
or the steps that it was allowed are used up. Under each of the disciplines a number of steps is
enough that can be computed from the scenario; under an arbitrary policy no number is, since a
policy may refuse a request for ever without blocking anyone.

The log of a run is its notes, each under the tick in which it was taken.
-/

namespace Uniprocessor

/-- How a run came out: at an end, refused by its policy, stopped by a fault, or out of steps. -/
inductive Outcome where
  /-- it went to its end -/
  | ended (exit : Exit)
  /-- the policy could not be set up -/
  | unsettled (error : PolicyFailure)
  /-- a promise was broken -/
  | faulted (fault : Fault)
  /-- the steps were used up -/
  | unfinished
  deriving DecidableEq, Repr

/-- A note and its tick. -/
structure LogEntry where
  /-- the tick in which it was taken -/
  tick : Nat
  /-- the note -/
  note : Note

/-- A run, as far as it went: its last machine, what it noted, and how it came out. -/
structure Run (σ : Type) where
  /-- the last machine that it reached -/
  machine : Machine σ
  /-- what was noted -/
  log : Array LogEntry
  /-- how it came out -/
  outcome : Outcome

/-- A log with further notes of one tick. -/
def appendNotes (log : Array LogEntry) (tick : Nat) (notes : List Note) : Array LogEntry :=
  notes.foldl (fun log n => log.push ⟨tick, n⟩) log

namespace Machine

variable {σ : Type}

/-- Takes at most so many steps, and stops where the run is over or a step faults. -/
def run (P : Policy σ) (limit : Nat) : Nat → Machine σ → Array LogEntry → Run σ
  | 0, m, log => ⟨m, log, match m.phase with | .over exit => .ended exit | _ => .unfinished⟩
  | fuel + 1, m, log =>
    match m.phase with
    | .over exit => ⟨m, log, .ended exit⟩
    | _ =>
      let stepped := m.step P limit
      let log := appendNotes log m.state.tick stepped.notes
      match stepped.result with
      | .error fault => ⟨m, log, .faulted fault⟩
      | .ok m => m.run P limit fuel log

end Machine

namespace Scenario

variable {σ : Type}

/-- What the machine notes before the first tick. -/
def opening (sc : Scenario) (P : Policy σ) : Note :=
  .started P.name sc.jobs.length sc.resourceCount sc.limit

/-- Sets the policy up: the machine before the first tick, or why there is none. -/
def prepare (sc : Scenario) (P : Policy σ) (memory : σ) :
    Narrated (Except PolicyFailure (Machine σ)) := do
  let m := Machine.initial sc memory
  match ← P.setup m.memory m.state with
  | .error e => return .error e
  | .ok (memory, state) =>
    Narrated.note (sc.opening P)
    return .ok { m with memory := memory, state := state }

/-- Runs a scenario under a policy with a memory, in at most so many steps. -/
def run (sc : Scenario) (P : Policy σ) (memory : σ) (fuel : Nat) : Run σ :=
  let prepared := sc.prepare P memory
  let log := appendNotes #[] 0 prepared.notes
  match prepared.result with
  | .error fault => ⟨Machine.initial sc memory, log, .faulted fault⟩
  | .ok (.error e) => ⟨Machine.initial sc memory, log, .unsettled e⟩
  | .ok (.ok m) => m.run P sc.limit fuel log

/-- Enough steps for one tick: in each of at most as many rounds as there are jobs, and one more,
the policy chooses and the chosen process asks; then resources are given back. -/
def stepsPerTick (sc : Scenario) : Nat :=
  (sc.jobs.length + 1) * (sc.requestCount + 4) + 2 * sc.requestCount + 8

/-- Enough steps for a run: all arrivals, and all ticks up to the limit and one more. -/
def stepBound (sc : Scenario) : Nat :=
  2 * sc.jobs.length + (sc.limit + 2) * sc.stepsPerTick

/-- Runs a scenario under a discipline, with as many steps as are enough. -/
def runUnder (sc : Scenario) (d : Discipline) : Run Memory :=
  sc.run d.policy none sc.stepBound

end Scenario

end Uniprocessor
