import Uniprocessor.Machine.Run
import Uniprocessor.Text.Column

/-!
# Log lines

A log line is the stamp of its tick, its level, its message and its fields. The stamp is the tick in
groups of digits, aligned to the right between brackets. On a terminal the level has a colour.
-/

namespace Uniprocessor

/-- The stamp of a tick. -/
def stamp (tick : Nat) : String := "[" ++ Text.alignRight 10 (Text.grouped tick) ++ "]"

/-- The colour of a level, as the number that selects it on a terminal. -/
def Level.colour : Level → Nat
  | .error => 31
  | .warn => 33
  | .info => 32
  | .debug => 34
  | .trace => 35

/-- The level in a log line. -/
def Level.cell (coloured : Bool) (l : Level) : String :=
  let name := Text.alignRight 5 l.label
  if coloured then s!"\x1b[{l.colour}m" ++ name ++ "\x1b[0m" else name

/-- A record as a log line. -/
def Record.line (coloured : Bool) (tick : Nat) (r : Record) : String :=
  stamp tick ++ " " ++ r.level.cell coloured ++ " " ++ r.message ++
    String.join (r.fields.map fun f => " " ++ f.1 ++ "=" ++ f.2)

/-- The lines of a log that a filter leaves. -/
def logLines (f : Filter) (coloured : Bool) (log : Array LogEntry) : List String :=
  log.toList.flatMap fun e => (e.note.shown f).map (Record.line coloured e.tick)

end Uniprocessor
