import Uniprocessor.Fault
import Uniprocessor.Scenario

/-!
# Resource scripts

The machine plays a script for every live process: the requests of its job, and the holds that are
counting down. A request is due at one age of the process and is asked for until it is granted,
which starts its hold; every executed tick counts against all holds of the process, and a hold that
is used up is given back.
-/

namespace Uniprocessor

/-- A resource that a process has, and for how many more executed ticks. -/
structure Hold where
  /-- the resource -/
  resource : ResourceId
  /-- the executed ticks it is still kept -/
  remaining : Nat
  deriving DecidableEq, Repr

/-- The requests of a process and the holds it has: what it will ask for, and what it has still to
give back. -/
structure Script where
  /-- what its job asks for -/
  requests : List Request
  /-- what it has, in the order in which it was granted -/
  holds : List Hold := []
  deriving DecidableEq, Repr

namespace Script

/-- Whether the script has a hold of `r`. -/
def hasHold (s : Script) (r : ResourceId) : Bool := s.holds.any fun h => h.resource = r

/-- The requests due at `age` that are not granted yet, in script order. -/
def due (s : Script) (age : Nat) : List Request :=
  s.requests.filter fun q => q.due = age && !s.hasHold q.resource

/-- Starts the hold of a granted request, behind those that go on. -/
def grant (s : Script) (q : Request) : Script :=
  { s with holds := s.holds ++ [⟨q.resource, q.duration⟩] }

/-- Counts one executed tick against every hold: the resources whose holds are used up, and the
holds that go on, both in the order of granting. -/
def countDown : List Hold → Except Fault (List ResourceId × List Hold)
  | [] => .ok ([], [])
  | h :: rest => do
    require (0 < h.remaining) .holdUnderflow
    let (expired, kept) ← countDown rest
    if h.remaining = 1 then return (h.resource :: expired, kept)
    else return (expired, { h with remaining := h.remaining - 1 } :: kept)

/-- Counts one executed tick; the resources to give back, and the script from then on. -/
def expire (s : Script) : Except Fault (List ResourceId × Script) := do
  let (expired, kept) ← countDown s.holds
  return (expired, { s with holds := kept })

end Script

/-- The scripts of the live processes, each under its number. -/
abbrev Scripts := List (Pid × Script)

namespace Scripts

/-- The script of a process, if there is one. -/
def find? (ss : Scripts) (pid : Pid) : Option Script := ss.lookup pid

/-- Takes the script of a process away. -/
def erase (ss : Scripts) (pid : Pid) : Scripts := ss.filter fun e => e.1 ≠ pid

/-- Gives a process a script, in place of the one it may have had. -/
def put (ss : Scripts) (pid : Pid) (s : Script) : Scripts := (pid, s) :: ss.erase pid

theorem find?_cons (p q : Pid) (s : Script) (rest : Scripts) :
    find? ((p, s) :: rest) q = if q = p then some s else find? rest q := by
  by_cases h : q = p
  · simp [find?, h]
  · have : (q == p) = false := by simpa using h
    simp [find?, List.lookup_cons, this, h]

/-- After a script is taken away its process has none, and every other process has what it had. -/
theorem find?_erase (ss : Scripts) (pid q : Pid) :
    (ss.erase pid).find? q = if q = pid then none else ss.find? q := by
  induction ss with
  | nil => simp [find?, erase]
  | cons e rest ih =>
    obtain ⟨p, s⟩ := e
    by_cases hp : p = pid
    · have : erase ((p, s) :: rest) pid = erase rest pid := by simp [erase, hp]
      rw [this, ih, find?_cons]
      by_cases hq : q = pid <;> simp [hq, hp]
    · have : erase ((p, s) :: rest) pid = (p, s) :: erase rest pid := by simp [erase, hp]
      rw [this, find?_cons, find?_cons, ih]
      by_cases hq : q = p
      · simp [hq, hp]
      · simp [hq]

/-- After a script is given its process has it, and every other process has what it had. -/
theorem find?_put (ss : Scripts) (pid q : Pid) (s : Script) :
    (ss.put pid s).find? q = if q = pid then some s else ss.find? q := by
  rw [put, find?_cons, find?_erase]
  by_cases h : q = pid <;> simp [h]

end Scripts

end Uniprocessor
