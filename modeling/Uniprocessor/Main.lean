import Uniprocessor.Program

/-!
# The executable

Reads the arguments, the environment and the workload file, and prints what the program replies.
-/

open Uniprocessor

/-- The environment variables that the program looks at. -/
def watchedVariables : List String :=
  ["TICKSIM_POLICY", "TICKSIM_MAX_TICKS", "RUST_LOG", "NO_COLOR"]

/-- The bytes of a file, or why there are none. -/
def readBytes (path : String) : IO (Except String ByteArray) := do
  try
    return .ok (← IO.FS.readBinFile path)
  catch
    | .noFileOrDirectory .. => return .error "No such file or directory (os error 2)"
    | e => return .error (toString e)

/-- Prints a report and tells its exit code. -/
def deliver (r : Report) : IO UInt32 := do
  (← IO.getStdout).putStr r.output
  (← IO.getStderr).putStr r.errors
  return r.code.toUInt32

def main (args : List String) : IO UInt32 := do
  let values ← watchedVariables.mapM fun name => return (name, ← IO.getEnv name)
  let env := fun name => (values.lookup name).join
  match Program.reply args env with
  | .done r => deliver r
  | .reading path resume => deliver (resume (← readBytes path))
