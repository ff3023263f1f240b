import Uniprocessor.Process

/-!
# Faults

A fault is a broken promise between the machine and a policy: a queue that would hold a process
twice, a release by a process that owns nothing, a choice that cannot execute. A run that meets one
stops there. Each fault keeps what its message shows; the wording is in `Fault.message` alone.
-/

namespace Uniprocessor

/-- A broken promise that stops a run: what the program takes for granted, and checks all the
same. -/
inductive Fault where
  /-- the process is in the queue that it would join -/
  | alreadyQueued (pid : Pid)
  /-- no live process has this number -/
  | notLive (pid : Pid)
  /-- a live process has the number of the one that would be created -/
  | arrivedTwice (pid : Pid)
  /-- the process that would leave is the current one -/
  | leavingCurrent (pid : Pid)
  /-- the process that would leave is in the ready queue -/
  | leavingReady (pid : Pid)
  /-- the process that would leave owns a resource -/
  | leavingOwner (pid : Pid) (resource : ResourceId)
  /-- the process that would leave waits for a resource -/
  | leavingWaiter (pid : Pid) (resource : ResourceId)
  /-- the process to take out of the ready queue is not in it -/
  | notReady (pid : Pid)
  /-- a request or a release while nothing is current -/
  | noCaller
  /-- a release by a process that does not own the resource -/
  | notOwner (pid : Pid) (resource : ResourceId) (owner : Option Pid)
  /-- a process to be woken that does not wait -/
  | notBlocked (pid : Pid) (status : Status)
  /-- the policy chose a process that waits or has no ticks left -/
  | unfitChoice (policy : String) (pid : Pid) (status : Status) (age lifespan : Nat)
  /-- the policy chose a process and left it in the ready queue -/
  | queuedChoice (policy : String) (pid : Pid)
  /-- the resource table has no such entry -/
  | noResource (resource : ResourceId)
  /-- an age or the clock would pass `largestTick` -/
  | tickOverflow
  /-- a hold that has no ticks left would count down -/
  | holdUnderflow
  deriving DecidableEq, Repr

/-- The text that reports a fault. -/
def Fault.message : Fault → String
  | .alreadyQueued pid => s!"pid {pid} is already queued"
  | .notLive pid => s!"pid {pid} is not a live process"
  | .arrivedTwice pid => s!"pid {pid} forked twice"
  | .leavingCurrent pid => s!"retiring current pid {pid}"
  | .leavingReady pid => s!"retiring pid {pid} still in the ready queue"
  | .leavingOwner pid r => s!"retiring pid {pid} still owns " ++ r.label
  | .leavingWaiter pid r => s!"retiring pid {pid} still waits on " ++ r.label
  | .notReady pid => s!"pid {pid} is not in the ready queue"
  | .noCaller => "resource request without a current process"
  | .notOwner pid r owner =>
    s!"pid {pid} releasing " ++ r.label ++ " owned by " ++ Pid.spelledOption owner
  | .notBlocked pid status =>
    s!"assertion `left == right` failed: waking pid {pid} which is not blocked\n  left: " ++
      status.label ++ "\n right: Blocked"
  | .unfitChoice policy pid status age lifespan =>
    s!"{policy} picked pid {pid} which is " ++ status.label ++ s!" at age {age}/{lifespan}"
  | .queuedChoice policy pid => s!"{policy} picked pid {pid} without dequeuing it"
  | .noResource r => "there is no resource " ++ r.label
  | .tickOverflow => "attempt to add with overflow"
  | .holdUnderflow => "attempt to subtract with overflow"

/-- Goes on only where `c` holds; otherwise the computation stops with the fault `f`. -/
def require (c : Prop) [Decidable c] (f : Fault) : Except Fault Unit :=
  if c then .ok () else .error f

@[simp] theorem require_eq_ok {c : Prop} [Decidable c] {f : Fault} :
    require c f = .ok () ↔ c := by
  by_cases h : c <;> simp [require, h]

@[simp] theorem require_eq_error {c : Prop} [Decidable c] {f g : Fault} :
    require c f = .error g ↔ ¬c ∧ f = g := by
  by_cases h : c <;> simp [require, h]

/-! ## Operations that may fault

A chain of operations succeeds exactly when each of them does, and its first fault is the fault of
the chain.
-/

section Chain

variable {ε α β : Type _}

@[simp] theorem ok_bind {a : α} {f : α → Except ε β} : (Except.ok a >>= f) = f a := rfl

@[simp] theorem error_bind {e : ε} {f : α → Except ε β} :
    ((Except.error e : Except ε α) >>= f) = Except.error e := rfl

@[simp] theorem map_ok {a : α} {f : α → β} :
    (f <$> (Except.ok a : Except ε α)) = Except.ok (f a) := rfl

@[simp] theorem map_error {e : ε} {f : α → β} :
    (f <$> (Except.error e : Except ε α)) = Except.error e := rfl

theorem bind_eq_ok {x : Except ε α} {f : α → Except ε β} {b : β} :
    (x >>= f) = .ok b ↔ ∃ a, x = .ok a ∧ f a = .ok b := by
  cases x <;> simp

theorem map_eq_ok {x : Except ε α} {f : α → β} {b : β} :
    (f <$> x) = .ok b ↔ ∃ a, x = .ok a ∧ f a = b := by
  cases x <;> simp

end Chain

/-- The tick after `t`, which the largest tick does not have. -/
def nextTick (t : Nat) : Except Fault Nat :=
  if t < largestTick then .ok (t + 1) else .error .tickOverflow

end Uniprocessor
