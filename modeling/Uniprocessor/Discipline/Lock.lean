import Uniprocessor.Log.Narrated
import Uniprocessor.State.Select

/-!
# Holding resources

A free resource goes to the current process, which asks for it; otherwise the current process joins
the tail of the wait queue and is blocked. Giving a resource back frees it and wakes at most one
waiter, who joins the tail of the ready queue and has to ask again: a wake-up hands nothing over.

Two disciplines differ in whom they wake: the first who came, or the first of the highest priority.
-/

namespace Uniprocessor

namespace State

open Narrated

/-- The current process, which asks for a resource or gives one back. -/
def caller (s : State) : Except Fault Pid :=
  match s.current with
  | some pid => .ok pid
  | none => .error .noCaller

/-- Gives `r` to the current process if it is free, and otherwise blocks the current process at the
tail of the wait queue. Tells whom `r` was given to. -/
def ask (s : State) (r : ResourceId) : Narrated (State × Option Pid) := do
  let pid ← s.caller
  let x ← s.resource r
  if x.isFree then
    note (.granted pid r)
    return (s.setResource r { x with owner := some pid }, some pid)
  else
    let waiters ← x.waiters.pushBack pid
    let s ← (s.setResource r { x with waiters := waiters }).setStatus pid .blocked
    note (.refused pid r x.owner)
    return (s, none)

/-- Takes `r` from the current process, which must own it. Tells whose it was. -/
def surrender (s : State) (r : ResourceId) : Except Fault (State × Pid) := do
  let pid ← s.caller
  let x ← s.resource r
  require (x.owner = some pid) (.notOwner pid r x.owner)
  return (s.setResource r { x with owner := none }, pid)

/-- Moves a blocked process from the wait queue of `r` to the tail of the ready queue. -/
def wake (s : State) (r : ResourceId) (waiter : Pid) : Narrated State := do
  let p ← s.process waiter
  require (p.status = .blocked) (.notBlocked waiter p.status)
  let x ← s.resource r
  let s ← (s.setResource r { x with waiters := x.waiters.remove waiter }).queueLast waiter
  note (.woken waiter r)
  return s

/-- Wakes a chosen waiter of `r`, if one was chosen: it leaves the wait queue and joins the ready
queue at its tail. -/
def wakeChosen (s : State) (r : ResourceId) : Option Pid → Narrated State
  | none => pure s
  | some waiter => s.wake r waiter

/-- Wakes the waiter of `r` who came first, the head of the wait queue. -/
def wakeFirst (s : State) (r : ResourceId) : Narrated State := do
  let x ← s.resource r
  s.wakeChosen r x.waiters.head?

/-- Wakes the first waiter of `r` with the highest priority, as `findUrgent` finds it. -/
def wakeUrgent (s : State) (r : ResourceId) : Narrated State := do
  let x ← s.resource r
  let choice ← s.findUrgent x.waiters
  s.wakeChosen r choice

/-- Asks for `r`, and tells whether it was granted, without a change of priorities. -/
def acquirePlain (s : State) (r : ResourceId) : Narrated (State × Bool) := do
  let (s, owner) ← s.ask r
  return (s, owner.isSome)

/-- Gives `r` back by `surrender` and wakes the waiter who came first. -/
def releaseFirst (s : State) (r : ResourceId) : Narrated State := do
  let (s, _) ← s.surrender r
  s.wakeFirst r

/-- Gives `r` back and wakes the first waiter of the highest priority. -/
def releaseUrgent (s : State) (r : ResourceId) : Narrated State := do
  let (s, _) ← s.surrender r
  s.wakeUrgent r

end State

end Uniprocessor
