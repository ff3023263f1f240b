import Uniprocessor.CommandLine
import Uniprocessor.Log.Line
import Uniprocessor.Trace.Summary
import Uniprocessor.Workload

/-!
# The program

What the program prints and with which code it ends, as a function of its arguments, its environment
and the workload file, if it needs one. On success the standard output has, unless it is to be
quiet, a line for every tick and an empty line, and then the name of the policy and the summary. The
log, the listing of the trace and errors go to the standard error output, in this order.
-/

namespace Uniprocessor

/-- How the program ends. -/
structure Report where
  /-- the exit code -/
  code : Nat := 0
  /-- the standard output -/
  output : String := ""
  /-- the standard error output -/
  errors : String := ""
  deriving DecidableEq, Repr

/-- What the program does with its arguments: it ends at once, or it reads a file first. -/
inductive Reply where
  /-- it ends -/
  | done (report : Report)
  /-- it reads the file at a path and ends with what comes of that -/
  | reading (path : String) (resume : Except String ByteArray → Report)

namespace Program

/-- Lines, each with its line end. -/
def unlines (lines : List String) : String := String.join (lines.map (· ++ "\n"))

/-- The list of the policies. -/
def policyList : String :=
  unlines (Discipline.all.map fun d => Text.alignLeft 6 d.key ++ " " ++ d.name)

/-- The report of an error, with what it was caused by. -/
def failure (what : String) (causes : List String) : String :=
  match causes with
  | [] => "Error: " ++ what ++ "\n"
  | [cause] => "Error: " ++ what ++ "\n\nCaused by:\n    " ++ cause ++ "\n"
  | _ =>
    "Error: " ++ what ++ "\n\nCaused by:\n" ++
      unlines (causes.zipIdx.map fun c => s!"    {c.2}: " ++ c.1)

/-- The level of the log that the arguments ask for. -/
def verbosityLevel : Nat → Level
  | 0 => .warn
  | 1 => .info
  | 2 => .debug
  | _ => .trace

/-- What the log shows. The environment decides before the arguments, unless what it has is no
filter. The program cannot go on with a filter that is torn. -/
def logFilter? (o : Options) (env : String → Option String) : Option Filter :=
  match (env "RUST_LOG").map Filter.read with
  | some (.ok f) => some f
  | some (.error .torn) => none
  | _ => some (Filter.upTo (verbosityLevel o.verbosity))

/-- Whether the log is in colour. -/
def isColoured (env : String → Option String) : Bool := (env "NO_COLOR").getD "" = ""

/-- The log of a run, as far as the filter leaves it. -/
def logText {σ : Type} (f : Filter) (env : String → Option String) (r : Run σ) : String :=
  unlines (logLines f (isColoured env) r.log)

/-- Who executed when. -/
def schedule (t : Trace) : String :=
  let line := fun (turn : Option Pid × Nat) =>
    let who := match turn.1 with
      | some pid => toString pid
      | none => "idle"
    s!"{turn.2}: " ++ who
  unlines (t.turns.zipIdx.map line)

/-- Runs a scenario and reports on the run. -/
def report (o : Options) (f : Filter) (env : String → Option String) (d : Discipline)
    (sc : Scenario) : Report :=
  let r := sc.runUnder d
  let log := logText f env r
  match r.outcome, r.trace? with
  | _, some t =>
    { output := (if o.quiet then "" else schedule t ++ "\n") ++ unlines [d.name, t.summary.text]
      errors := log ++ if o.listing then unlines t.listing else "" }
  | .unsettled e, none =>
    { code := 1
      errors := log ++ failure ("failed to run " ++ d.key)
        ["policy initialization failed: " ++ e.message, e.message] }
  | .faulted fault, none => { code := 101, errors := log ++ fault.message ++ "\n" }
  | _, none => { code := 101, errors := log }

/-- Runs the workload of a file and reports on the run. -/
def reportFile (o : Options) (f : Filter) (env : String → Option String) (d : Discipline)
    (path : String) (file : Except String ByteArray) : Report :=
  match Workload.load file with
  | .error e =>
    { code := 1, errors := failure ("failed to load workload " ++ path) [e.message, e.cause] }
  | .ok sc => report o f env d { sc with limit := o.limit.getD sc.limit }

/-- What the program does with its arguments and environment. -/
def reply (args : List String) (env : String → Option String) : Reply :=
  match Options.read args env with
  | .error .help => .done { output := Options.help }
  | .error misuse => .done { code := 2, errors := misuse.message ++ "\n" }
  | .ok o =>
    match logFilter? o env, o.policies, o.workload with
    | none, _, _ => .done { code := 101, errors := "the filter of the log is torn\n" }
    | some f, false, some path =>
      match Discipline.named (o.policy.getD Discipline.fcfs.key) with
      | .error e => .done { code := 1, errors := failure e.message [] }
      | .ok d => .reading path (reportFile o f env d path)
    | some _, _, _ => .done { output := policyList }

end Program

end Uniprocessor
