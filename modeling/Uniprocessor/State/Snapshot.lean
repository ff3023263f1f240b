import Uniprocessor.State

/-!
# The display of a state

A state is shown as a few lines: the clock, the current process, the ready queue in order, and one
line for every resource that somebody owns or waits for. A state that names a process which is not
live cannot be shown, and showing it is the same fault as looking that process up.
-/

namespace Uniprocessor

namespace State

/-- The age of a process against its lifespan. -/
private def ageText (p : Process) : String := s!"age {p.age}/{p.lifespan}"

/-- The line of the current process. -/
def currentLine (s : State) : Except Fault String := do
  match ← s.currentRecord with
  | none => return " current: none"
  | some p =>
    return s!" current: {p.pid} (" ++ p.status.label ++ ") " ++ ageText p ++
      s!" prio {p.prio}/{p.base}"

/-- A process of the ready queue, as its line shows it. -/
def readyEntry (s : State) (pid : Pid) : Except Fault String := do
  let p ← s.process pid
  return s!" {pid}(prio {p.prio} " ++ ageText p ++ ")"

/-- The line of the ready queue. -/
def readyLine (s : State) : Except Fault String := do
  let entries ← s.ready.mapM s.readyEntry
  return " ready:" ++ String.join entries

/-- The line of a resource in use: its owner, and who waits for it. -/
def resourceLine (r : ResourceId) (x : Resource) : String :=
  let owner := match x.owner with
    | none => "-"
    | some pid => toString pid
  " " ++ r.label ++ ": owner " ++ owner ++ " waiters" ++
    String.join (x.waiters.map fun pid => s!" {pid}")

/-- The lines of the resources in use, numbered from `r`. -/
def resourceLines : ResourceId → List Resource → List String
  | _, [] => []
  | r, x :: rest =>
    if x.isFree ∧ x.waiters = [] then resourceLines (r + 1) rest
    else resourceLine r x :: resourceLines (r + 1) rest

/-- The lines that show a state: its tick, who executes, who is ready, and the resources in use. -/
def lines (s : State) : Except Fault (List String) := do
  let current ← s.currentLine
  let ready ← s.readyLine
  return s!"***** tick {s.tick} *****" :: current :: ready :: resourceLines 0 s.resources

/-- The text that shows a state: its lines, each with a line end. -/
def text (s : State) : Except Fault String := do
  let lines ← s.lines
  return String.join (lines.map (· ++ "\n"))

end State

end Uniprocessor
