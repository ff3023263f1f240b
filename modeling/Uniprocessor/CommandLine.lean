import Uniprocessor.Quantity
import Uniprocessor.Text.Natural

/-!
# The command line

The arguments are read from left to right, and the first that is wrong, or asks for help, decides.
A long option may have its value behind an equals sign or in the next argument; a short one in the
same argument, with or without an equals sign, or in the next. Short options that take no value may
be joined. An argument that begins with a minus sign is never the value of an option, unless it is
nothing but that sign. Behind two minus signs everything is a path.

What the arguments leave open may be set in the environment. Every option but the one for more log
output may be given once.
-/

namespace Uniprocessor

/-- What the arguments ask for. -/
structure Options where
  /-- the path of the workload -/
  workload : Option String := none
  /-- the name of the policy -/
  policy : Option String := none
  /-- whether to leave out who executed when -/
  quiet : Bool := false
  /-- a tick limit in place of the workload's -/
  limit : Option Nat := none
  /-- whether to list the events -/
  listing : Bool := false
  /-- whether to list the policies and do nothing else -/
  policies : Bool := false
  /-- how often more log output was asked for -/
  verbosity : Nat := 0
  deriving DecidableEq, Repr

/-- Why the arguments make no sense, or need not. -/
inductive Misuse where
  /-- not wrong: help was asked for -/
  | help
  /-- there is no such option -/
  | unknown (option : String)
  /-- the option came without its value -/
  | missingValue (option : String)
  /-- the option came with a value and takes none -/
  | needlessValue (option : String)
  /-- the option came twice -/
  | repeated (option : String)
  /-- the value is no tick -/
  | notATick (value : String)
  /-- the path is empty -/
  | emptyPath
  /-- there is a path already -/
  | extraPath (path : String)
  /-- there is no path -/
  | missingPath
  deriving DecidableEq, Repr

/-- The text that reports a misuse. -/
def Misuse.message : Misuse → String
  | .help => ""
  | .unknown option => "error: unexpected argument '" ++ option ++ "' found"
  | .missingValue option =>
    "error: a value is required for '" ++ option ++ "' but none was supplied"
  | .needlessValue option => "error: '" ++ option ++ "' takes no value"
  | .repeated option => "error: the argument '" ++ option ++ "' cannot be used multiple times"
  | .notATick value => "error: invalid value '" ++ value ++ "' for the tick limit"
  | .emptyPath => "error: a value is required for the workload but none was supplied"
  | .extraPath path => "error: unexpected argument '" ++ path ++ "' found"
  | .missingPath => "error: the path of a workload is required"

/-- The options that take a value. -/
inductive Valued where
  /-- the name of the policy -/
  | policy
  /-- the tick limit -/
  | limit
  deriving DecidableEq, Repr

/-- The options that take none. -/
inductive Switch where
  /-- leave out who executed when -/
  | quiet
  /-- list the events -/
  | listing
  /-- list the policies -/
  | policies
  /-- more log output -/
  | verbose
  /-- show the help -/
  | help
  deriving DecidableEq, Repr

namespace Options

/-- The long options that take a value. -/
def longValued? : String → Option Valued
  | "policy" => some .policy
  | "max-ticks" => some .limit
  | _ => none

/-- The long options that take none. -/
def longSwitch? : String → Option Switch
  | "quiet" => some .quiet
  | "dump-trace" => some .listing
  | "list-policies" => some .policies
  | "verbose" => some .verbose
  | "help" => some .help
  | _ => none

/-- The short options that take none. -/
def shortSwitch? : Char → Option Switch
  | 'q' => some .quiet
  | 'v' => some .verbose
  | 'h' => some .help
  | _ => none

/-- Sets an option that takes a value. -/
def assign (o : Options) (option : String) (v : Valued) (value : String) : Except Misuse Options :=
  match v with
  | .policy =>
    if o.policy.isSome then .error (.repeated option)
    else .ok { o with policy := some value }
  | .limit =>
    if o.limit.isSome then .error (.repeated option)
    else
      match Text.natural? largestTick value with
      | some n => .ok { o with limit := some n }
      | none => .error (.notATick value)

/-- Sets an option that takes no value. -/
def turnOn (o : Options) (option : String) (s : Switch) : Except Misuse Options :=
  match s with
  | .quiet => if o.quiet then .error (.repeated option) else .ok { o with quiet := true }
  | .listing => if o.listing then .error (.repeated option) else .ok { o with listing := true }
  | .policies => if o.policies then .error (.repeated option) else .ok { o with policies := true }
  | .verbose => .ok { o with verbosity := o.verbosity + 1 }
  | .help => .error .help

/-- Sets the path. -/
def addPath (o : Options) (path : String) : Except Misuse Options :=
  if o.workload.isSome then .error (.extraPath path)
  else if path = "" then .error .emptyPath
  else .ok { o with workload := some path }

/-- Whether an argument is an option, and so cannot be the value of one. -/
def isOption (arg : String) : Bool :=
  match arg.toList with
  | '-' :: _ :: _ => true
  | _ => false

/-- What an argument comes to: options that are complete, or a last one that still needs its
value. -/
inductive Progress where
  /-- nothing is open -/
  | complete (options : Options)
  /-- the next argument is the value of this option -/
  | open (options : Options) (option : String) (awaiting : Valued)

/-- Reads a long option, behind its two minus signs. -/
def readLong (o : Options) (arg : String) (body : List Char) : Except Misuse Progress :=
  let name := String.ofList (body.takeWhile (· ≠ '='))
  let value? := match body.dropWhile (· ≠ '=') with
    | [] => none
    | _ :: value => some (String.ofList value)
  match longValued? name, longSwitch? name, value? with
  | some v, _, some value => .complete <$> o.assign ("--" ++ name) v value
  | some v, _, none => .ok (.open o ("--" ++ name) v)
  | none, some _, some _ => .error (.needlessValue ("--" ++ name))
  | none, some s, none => .complete <$> o.turnOn ("--" ++ name) s
  | none, none, _ => .error (.unknown arg)

/-- Reads joined short options, behind their minus sign. -/
def readShort (o : Options) : List Char → Except Misuse Progress
  | [] => .ok (.complete o)
  | 'p' :: [] => .ok (.open o "-p" .policy)
  | 'p' :: '=' :: value => .complete <$> o.assign "-p" .policy (String.ofList value)
  | 'p' :: value => .complete <$> o.assign "-p" .policy (String.ofList value)
  | c :: rest =>
    let option := "-" ++ String.singleton c
    match shortSwitch? c with
    | none => .error (.unknown option)
    | some s => do
      let o ← o.turnOn option s
      o.readShort rest

/-- Reads one argument that is not the value of an option before it. -/
def readArgument (o : Options) (arg : String) : Except Misuse Progress :=
  match arg.toList with
  | '-' :: '-' :: body => o.readLong arg body
  | '-' :: c :: rest => o.readShort (c :: rest)
  | _ => .complete <$> o.addPath arg

/-- Reads arguments from left to right. -/
def readAll (o : Options) : List String → Except Misuse Options
  | [] => .ok o
  | "--" :: paths => paths.foldlM addPath o
  | arg :: rest => do
    match ← o.readArgument arg with
    | .complete o => o.readAll rest
    | .open o option v =>
      match rest with
      | [] => throw (.missingValue option)
      | value :: rest =>
        if isOption value then throw (.missingValue option)
        else
          let o ← o.assign option v value
          o.readAll rest

/-- Takes from the environment what the arguments left open. -/
def complete (env : String → Option String) (o : Options) : Except Misuse Options := do
  let o := { o with policy := o.policy.or (env "TICKSIM_POLICY") }
  let o ← match o.limit, env "TICKSIM_MAX_TICKS" with
    | none, some value => o.assign "TICKSIM_MAX_TICKS" .limit value
    | _, _ => pure o
  if o.workload.isNone && !o.policies then throw .missingPath
  return o

/-- Reads a command line. -/
def read (args : List String) (env : String → Option String) : Except Misuse Options := do
  let o ← Options.readAll {} args
  o.complete env

/-- The text of the help. -/
def help : String :=
  "Run a JSON workload through a scheduling policy, one tick at a time\n\n" ++
  "Usage: ticksim [OPTIONS] [WORKLOAD]\n\n" ++
  "Arguments:\n" ++
  "  [WORKLOAD]  Path to a JSON workload file\n\n" ++
  "Options:\n" ++
  "  -p, --policy <POLICY>        Scheduling policy [env: TICKSIM_POLICY=] [default: fcfs]\n" ++
  "  -q, --quiet                  Do not print the per-tick schedule\n" ++
  "      --max-ticks <MAX_TICKS>  Stop after this many ticks [env: TICKSIM_MAX_TICKS=]\n" ++
  "      --dump-trace             Print trace events to stderr\n" ++
  "      --list-policies          List available policies and exit\n" ++
  "  -v, --verbose...             Enable verbose output\n" ++
  "  -h, --help                   Print help\n"

end Options

end Uniprocessor
