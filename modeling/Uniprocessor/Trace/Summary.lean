import Uniprocessor.Trace

/-!
# Summaries

What a run did, process by process, in order of their numbers, gathered in one pass over the
events; when a process executed first is kept beside the accounts until the pass is over. The
summary is shown as a table with a line for every process and a last line for the run.
-/

namespace Uniprocessor

/-- What a run did for one process: the row of the summary that is about it. -/
structure Account where
  /-- its number -/
  pid : Pid
  /-- the tick in which it arrived -/
  arrived : Nat
  /-- the first tick in which it executed -/
  firstRun : Option Nat := none
  /-- the tick in which it left -/
  left : Option Nat := none
  /-- in how many ticks it executed -/
  ran : Nat := 0
  /-- how often it asked in vain for a resource -/
  refusals : Nat := 0
  deriving DecidableEq, Repr

namespace Account

/-- The ticks from its arrival to its leaving. -/
def turnaround (p : Account) : Option Nat := p.left.map (· - p.arrived)

/-- The ticks from its arrival to its first execution, if it ever executed. -/
def response (p : Account) : Option Nat := p.firstRun.map (· - p.arrived)

/-- The ticks from its arrival to its leaving in which it did not execute. -/
def waiting (p : Account) : Option Nat := p.turnaround.map (· - p.ran)

end Account

/-- What a run did: the accounts of its processes, and the totals. -/
structure Summary where
  /-- process by process -/
  accounts : List Account
  /-- in how many ticks nothing executed -/
  idleTicks : Nat
  /-- the tick at which the run stopped -/
  endTick : Nat
  /-- why it stopped -/
  exit : Exit
  deriving DecidableEq, Repr

namespace Summary

/-- Puts an entry in its place by number, instead of the one with its number if there is one. -/
def put (p : Account) : List Account → List Account
  | [] => [p]
  | q :: rest =>
    if p.pid < q.pid then p :: q :: rest
    else if p.pid = q.pid then p :: rest
    else q :: put p rest

/-- Changes the account of one process, if it has one. -/
def change (pid : Pid) (f : Account → Account) (ps : List Account) :
    List Account :=
  ps.map fun p => if p.pid = pid then f p else p

/-- What the pass over the events has gathered so far: the accounts, and the first runs. -/
structure Tally where
  /-- process by process; nothing is entered yet of when a process executed first -/
  accounts : List Account := []
  /-- the first tick in which each process executed that has executed -/
  firstRuns : List (Pid × Nat) := []

namespace Tally

/-- Notes when a process executed, unless it has executed before. -/
def noteRun (t : Tally) (pid : Pid) (tick : Nat) : Tally :=
  match t.firstRuns.lookup pid with
  | some _ => t
  | none => { t with firstRuns := (pid, tick) :: t.firstRuns }

/-- Takes one event into account: one step of the pass. -/
def count (t : Tally) (e : Event) : Tally :=
  match e.what with
  | .arrived pid => { t with accounts := put { pid := pid, arrived := e.tick } t.accounts }
  | .executed pid =>
    let t := t.noteRun pid e.tick
    { t with accounts := change pid (fun p => { p with ran := p.ran + 1 }) t.accounts }
  | .refused pid _ =>
    { t with accounts := change pid (fun p => { p with refusals := p.refusals + 1 }) t.accounts }
  | .left pid =>
    { t with accounts := change pid (fun p => { p with left := some e.tick }) t.accounts }
  | _ => t

/-- The accounts, with the first runs entered. -/
def finish (t : Tally) : List Account :=
  t.accounts.map fun p => { p with firstRun := t.firstRuns.lookup p.pid }

end Tally

end Summary

/-- The summary of a trace, gathered in one pass over its events. -/
def Trace.summary (t : Trace) : Summary where
  accounts := (t.events.foldl Summary.Tally.count {}).finish
  idleTicks := t.idleTicks
  endTick := t.endTick
  exit := t.exit

namespace Summary

/-- A number that may be missing. -/
def optional : Option Nat → String
  | none => "-"
  | some n => toString n

/-- The widths of the columns behind the first. -/
def widths : List Nat := [6, 6, 6, 8, 10, 8, 7]

/-- A line of the table: a first cell, and the others in their columns. -/
def row (first : String) (cells : List String) : String :=
  " ".intercalate (first :: List.zipWith Text.alignRight widths cells)

/-- The line that names the columns. -/
def header : String :=
  row (Text.alignRight 6 "pid")
    ["fork", "exit", "ran", "blocked", "turnaround", "response", "waiting"]

/-- The line of a process. Its number stands at the start of the line, whatever its length. -/
def processRow (p : Account) : String :=
  row (toString p.pid)
    [toString p.arrived, optional p.left, toString p.ran, toString p.refusals,
     optional p.turnaround, optional p.response, optional p.waiting]

/-- The line of the run. -/
def lastLine (s : Summary) : String :=
  s.exit.label ++ s!" after {s.endTick} ticks ({s.idleTicks} idle)"

/-- The table, without a line end behind its last line. -/
def text (s : Summary) : String :=
  "\n".intercalate (header :: s.accounts.map processRow ++ [s.lastLine])

end Summary

end Uniprocessor
