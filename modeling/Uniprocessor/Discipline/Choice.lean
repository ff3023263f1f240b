import Uniprocessor.Log.Narrated
import Uniprocessor.State.Select

/-!
# Who executes next

Ways to choose between the current process and those in the ready queue. A current process that goes
on stays out of the ready queue; one that is replaced joins it, at its head or at its tail. A chosen
process has left the ready queue.

Under aging every process that waits in the ready queue gains one level per tick, and falls back to
its base priority when it is chosen. The policy may be asked several times in one tick and must not
age anyone twice, so it remembers the tick of its last pass.
-/

namespace Uniprocessor

/-- The tick of the last aging pass, if there was one. -/
abbrev Memory := Option Nat

namespace State

open Narrated

/-- Lets the current process go on if it can, and otherwise takes the next one by `next`. -/
def keepOr (s : State) (next : State → Except Fault (State × Option Pid)) :
    Except Fault (State × Option Pid) := do
  match ← s.contender with
  | some pid => return (s, some pid)
  | none => next s

/-- Lets the current process go on unless a ready process has strictly less left. -/
def preferShorter (s : State) : Narrated (State × Option Pid) := do
  match ← s.contender with
  | none => s.takeMin Process.lifespan
  | some cur =>
    let p ← s.process cur
    match ← s.findShorter p.remaining s.ready with
    | none => return (s, some cur)
    | some next =>
      let q ← s.process next
      note (.outpaced cur next p.remaining q.remaining)
      let s ← s.queueLast cur
      let s ← s.takeOut next
      let s ← s.setStatus next .running
      return (s, some next)

/-- Lets the current process go on unless a ready process has strictly higher priority. -/
def preferUrgent (s : State) : Narrated (State × Option Pid) := do
  match ← s.contender with
  | none => s.takeUrgent
  | some cur =>
    match ← s.findUrgent s.ready with
    | none => return (s, some cur)
    | some best =>
      let q ← s.process best
      let p ← s.process cur
      if q.prio ≤ p.prio then return (s, some cur)
      else
        note (.outranked cur best p.prio q.prio)
        let s ← s.takeOut best
        let s ← s.queueFirst cur
        return (s, some best)

/-- Raises each of these processes by one level, up to the largest priority. -/
def ageAll : State → Queue → Narrated State
  | s, [] => pure s
  | s, pid :: rest => do
    let p ← s.process pid
    let prio := min largestPrio (p.prio + 1)
    let s ← s.setPrio pid prio
    note (.aged pid prio)
    ageAll s rest

/-- The aging pass over the ready queue, at most once per tick. -/
def ageReady (memory : Memory) (s : State) : Narrated (Memory × State) := do
  if memory = some s.tick then return (memory, s)
  else
    let aged ← s.ageAll s.ready
    return (some s.tick, aged)

/-- After aging, the highest priority of all executes, at its base priority. -/
def preferAged (memory : Memory) (s : State) : Narrated (Memory × State × Option Pid) := do
  let (memory, s) ← ageReady memory s
  let s ← s.yieldTail
  let (s, choice) ← s.takeUrgent
  match choice with
  | none => return (memory, s, none)
  | some pid =>
    let s ← s.revise pid fun p => { p with prio := p.base }
    return (memory, s, some pid)

end State

end Uniprocessor
