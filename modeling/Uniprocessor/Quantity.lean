/-!
# Numbers that name, numbers that measure

Processes and resources are named by natural numbers, which have a type of their own here. Ticks,
ages, lifespans, durations and priorities are plain natural numbers, so that sums and comparisons
mean what they say. What a real clock or table can hold is stated once, as the largest value of each
quantity: a counter that would pass it faults (`Fault`), and the few sums that stop there instead
say so where they are defined.

Messages name a process by its bare number and a resource by `R` and its index; a message that
shows an optional or listed process spells it `Some(Pid(4))`, `None` or `[Pid(1), Pid(2)]`.
-/

namespace Uniprocessor

/-- the number that names a process -/
abbrev Pid := Nat

/-- the position of a resource in the resource table -/
abbrev ResourceId := Nat

/-- The largest tick: the last value of the clock, of an age and of a lifespan. -/
def largestTick : Nat := 0xffffffffffffffff

/-- The largest priority. -/
def largestPrio : Nat := 0xffffffff

/-- The largest process number. -/
def largestPid : Pid := 0xffffffff

/-- How messages and displays name a resource. -/
def ResourceId.label (r : ResourceId) : String := "R" ++ toString r

/-- A process number in a message that shows where it came from. -/
def Pid.spelled (pid : Pid) : String := "Pid(" ++ toString pid ++ ")"

/-- A process that may be absent, in a message. -/
def Pid.spelledOption : Option Pid → String
  | none => "None"
  | some pid => "Some(" ++ Pid.spelled pid ++ ")"

/-- A list of processes, in a message. -/
def Pid.spelledList (pids : List Pid) : String :=
  "[" ++ ", ".intercalate (pids.map Pid.spelled) ++ "]"

end Uniprocessor
