import Uniprocessor.State.Partition
import Uniprocessor.Machine.Run
import Uniprocessor.Text.Column

/-!
# Observing a run

The states at the ends of the ticks tell how a run went besides its events: whether the partition of
the processes ever broke, and how the priorities moved.
-/

namespace Uniprocessor

/-- A breach of the partition and its tick. -/
structure Breach where
  /-- the tick at whose end it was found -/
  tick : Nat
  /-- the first breach of that state -/
  violation : Violation
  deriving DecidableEq, Repr

/-- The breach of a sampled state, if there is one, by `violation`. -/
def Sample.breach (s : Sample) : Option Breach := s.state.violation.map (⟨s.state.tick, ·⟩)

/-- The priorities of the live processes of a sampled state, by number. -/
def Sample.prios (s : Sample) : List (Pid × Nat) := s.state.procs.map fun p => (p.pid, p.prio)

/-- A sampled state as a line of text: its tick, how many events there were, and its display. -/
def Sample.text (s : Sample) : Except Fault String := do
  let display ← s.state.text
  return s!"{s.state.tick}|{s.recorded}|" ++ display

namespace Run

variable {σ : Type}

/-- The states at the ends of the ticks, as the machine has sampled them. -/
def samples (r : Run σ) : List Sample := r.machine.samples.toList

/-- All breaches of the partition that were found. -/
def breaches (r : Run σ) : List Breach := r.samples.filterMap Sample.breach

/-- The report on the breaches, if there are any. -/
def breachReport (r : Run σ) : Option String :=
  match r.breaches with
  | [] => none
  | breaches =>
    let shown := breaches.map fun b =>
      s!"({b.tick}, " ++ Text.quoted b.violation.message ++ ")"
    some (s!"{breaches.length} invariant violation(s) over {r.samples.length} ticks: [" ++
      ", ".intercalate shown ++ "]")

/-- The priority of a process at the end of every tick at which it was live. -/
def prioHistory (r : Run σ) (pid : Pid) : List (Nat × Nat) :=
  r.samples.filterMap fun s =>
    (s.state.process? pid).map fun p => (s.state.tick, p.prio)

end Run

end Uniprocessor
