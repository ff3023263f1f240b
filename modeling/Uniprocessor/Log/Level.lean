import Uniprocessor.Text.Natural

/-!
# Levels

Every record of a log has a level, and a log shows the records up to some level. How far it goes is
a threshold: a level, or nothing at all. A threshold is written as a number or as a name.
-/

namespace Uniprocessor

/-- The levels of a log, the most severe first. -/
inductive Level where
  /-- what stops a run -/
  | error
  /-- what is probably not wanted -/
  | warn
  /-- the frame of a run -/
  | info
  /-- what happens to processes -/
  | debug
  /-- every single tick and grant -/
  | trace
  deriving DecidableEq, Repr

namespace Level

/-- How fine a level is: zero for the most severe. -/
def fineness : Level → Nat
  | .error => 0
  | .warn => 1
  | .info => 2
  | .debug => 3
  | .trace => 4

/-- The name of a level in a log line. -/
def label : Level → String
  | .error => "ERROR"
  | .warn => "WARN"
  | .info => "INFO"
  | .debug => "DEBUG"
  | .trace => "TRACE"

/-- Whether a log that goes as far as `finest` shows records of level `l`. -/
def shownAt (l finest : Level) : Bool := l.fineness ≤ finest.fineness

end Level

/-- How far a log goes: up to a level, or it shows nothing. -/
abbrev Threshold := Option Level

namespace Threshold

/-- The thresholds with their names, each at the place of its number. -/
def table : List (String × Threshold) :=
  [("off", none), ("error", some .error), ("warn", some .warn), ("info", some .info),
   ("debug", some .debug), ("trace", some .trace)]

/-- Reads a threshold, by its number or by its name in whatever case. -/
def read? (text : String) : Option Threshold :=
  match Text.natural? (table.length - 1) text with
  | some n => table[n]?.map Prod.snd
  | none => table.lookup (String.ofList (text.toList.map Char.toLower))

/-- Whether a log with this threshold shows records of level `l`. -/
def admits (t : Threshold) (l : Level) : Bool := t.any l.shownAt

end Threshold

end Uniprocessor
