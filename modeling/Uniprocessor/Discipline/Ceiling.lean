import Uniprocessor.Discipline.Lock

/-!
# The priority ceiling

Whoever gets a resource rises to the ceiling of the scenario, so that nobody who waits in the ready
queue goes before it, and falls back to its base priority when it gives a resource back, whatever
else it owns.
-/

namespace Uniprocessor

namespace State

open Narrated

/-- Asks for `r` as `acquirePlain` does; whoever gets it rises to the ceiling. -/
def acquireCeiling (s : State) (r : ResourceId) : Narrated (State × Bool) := do
  let (s, granted) ← s.ask r
  match granted with
  | none => return (s, false)
  | some owner =>
    let s ← s.setPrio owner s.ceiling
    note (.raised owner r s.ceiling)
    return (s, true)

/-- Gives `r` back, falls to the base priority, and wakes the first waiter of the highest
priority. -/
def releaseCeiling (s : State) (r : ResourceId) : Narrated State := do
  let (s, owner) ← s.surrender r
  let p ← s.process owner
  let s ← s.setPrio owner p.base
  note (.lowered owner r p.base)
  s.wakeUrgent r

end State

end Uniprocessor
