import Uniprocessor.Quantity

/-!
# Processes

A process is a number, a lifespan (how many ticks it has to execute) and what a run changes of it:
its status, its age (how many ticks it has executed), its priority, and the base priority that the
priority falls back to when a policy takes a raise away.
-/

namespace Uniprocessor

/-- What a live process is doing: where `State` has it. -/
inductive Status where
  /-- in the ready queue -/
  | ready
  /-- chosen to execute in the current tick -/
  | running
  /-- in the wait queue of one resource -/
  | blocked
  deriving DecidableEq, Repr

/-- The name of a status in messages and displays. -/
def Status.label : Status → String
  | .ready => "Ready"
  | .running => "Running"
  | .blocked => "Blocked"

/-- A live process: what its job gave it, and how far it has come. -/
structure Process where
  /-- the number that names it -/
  pid : Pid
  /-- how many ticks it executes in all -/
  lifespan : Nat
  /-- what it is doing -/
  status : Status
  /-- how many ticks it has executed -/
  age : Nat
  /-- the priority that scheduling looks at -/
  prio : Nat
  /-- the priority it was created with -/
  base : Nat
  deriving DecidableEq, Repr

namespace Process

/-- A process that has just been created: ready, of age zero, at its base priority. -/
def fresh (pid : Pid) (lifespan : Nat) (prio : Nat) : Process where
  pid := pid
  lifespan := lifespan
  status := .ready
  age := 0
  prio := prio
  base := prio

/-- How many ticks are left; none for a process older than its lifespan. -/
def remaining (p : Process) : Nat := p.lifespan - p.age

/-- Whether the whole lifespan has been executed, so that the process is to leave. -/
def isFinished (p : Process) : Bool := p.lifespan ≤ p.age

/-- Whether the process waits for a resource. -/
def isBlocked (p : Process) : Bool := p.status = .blocked

/-- Whether the process can go on executing: it waits for nothing and has ticks left. -/
def isRunnable (p : Process) : Bool := !p.isBlocked && !p.isFinished

@[simp] theorem isFinished_iff {p : Process} : p.isFinished = true ↔ p.lifespan ≤ p.age := by
  simp [isFinished]

@[simp] theorem isBlocked_iff {p : Process} : p.isBlocked = true ↔ p.status = .blocked := by
  simp [isBlocked]

/-- Ticks are left exactly while the process is not `isFinished`, which is how the fact is used in
proofs about ages. -/
theorem remaining_pos_iff {p : Process} : 0 < p.remaining ↔ p.isFinished = false := by
  simp only [remaining, isFinished, decide_eq_false_iff_not]
  omega

end Process

end Uniprocessor
