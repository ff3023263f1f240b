import Uniprocessor.Discipline.Lock

/-!
# Inheriting priority

An owner has at least the priority of everyone who waits for what it owns, and never less than its
base priority. When an owner waits itself, what it inherits goes on to the owner of the resource
that it waits for, and so on along the chain. The priority is computed anew whenever waiters or
owners change, so giving a resource back takes away exactly what came through that resource.
-/

namespace Uniprocessor

namespace State

open Narrated

/-- The waiters of everything that `pid` owns, resource by resource: those whose priorities it may
inherit. -/
def waitersOn (s : State) (pid : Pid) : Queue :=
  (s.resources.filter fun x => x.isHeldBy pid).flatMap Resource.waiters

/-- The base priority of `pid`, or the highest priority of a process that waits for something of
it, if that is higher. -/
def inheritedPrio (s : State) (pid : Pid) : Except Fault Nat := do
  let p ← s.process pid
  let waiters ← s.records (s.waitersOn pid)
  return (waiters.map Process.prio).foldl max p.base

/-- The owner of the resource that `pid` waits for: the next one on the chain of waiting. -/
def awaitedOwner (s : State) (pid : Pid) : Option Pid := do
  let r ← s.awaited pid
  let x ← s.resources[r]?
  x.owner

/-- Computes the priority of `pid` anew and, if it changed, goes on with whom `pid` waits for. The
first argument bounds the length of the chain, which may be a circle. -/
def passOn : Nat → State → Pid → Narrated State
  | 0, s, _ => pure s
  | bound + 1, s, pid => do
    let prio ← s.inheritedPrio pid
    let p ← s.process pid
    if p.prio = prio then return s
    else
      note (.inherited pid p.prio prio)
      let s ← s.setPrio pid prio
      match s.awaitedOwner pid with
      | none => return s
      | some next => passOn bound s next

/-- Computes the priorities along the chain that starts at `pid`. No chain is longer than there are
live processes. -/
def inherit (s : State) (pid : Pid) : Narrated State :=
  passOn s.procs.length s pid

/-- Asks for `r`. A new owner inherits from those who still wait; the owner of a resource that was
refused inherits from the one who now waits. -/
def acquireInheriting (s : State) (r : ResourceId) : Narrated (State × Bool) := do
  let (s, granted) ← s.ask r
  match granted with
  | some owner =>
    let s ← s.inherit owner
    return (s, true)
  | none =>
    let x ← s.resource r
    match x.owner with
    | none => return (s, false)
    | some owner =>
      let s ← s.inherit owner
      return (s, false)

/-- Gives `r` back, wakes the first waiter of the highest priority, and takes away what the former
owner inherited through `r`. -/
def releaseInheriting (s : State) (r : ResourceId) : Narrated State := do
  let (s, owner) ← s.surrender r
  let s ← s.wakeUrgent r
  s.inherit owner

end State

end Uniprocessor
