import Uniprocessor.Discipline.Ceiling
import Uniprocessor.Discipline.Choice
import Uniprocessor.Discipline.Inheritance
import Uniprocessor.Policy
import Uniprocessor.Text.Blank
import Uniprocessor.Text.Quoted

/-!
# The eight disciplines

Each discipline is a policy, put together from a way to choose and a way to hold resources.

* First come, first served, and shortest job first let the current process go on as long as it can.
* Shortest time to completion first replaces it by the first ready process with strictly less left;
  a fresh choice is by the whole lifespan.
* Round robin puts it behind all others after every tick.
* Priority replaces it by a ready process of strictly higher priority, and puts it before all
  others then. Priority inheritance chooses in the same way.
* Priority with aging and the priority ceiling put it behind all others and choose the highest
  priority. Under aging, every process that waits in the ready queue gains one level per tick and
  the chosen one falls back to its base; under the ceiling, an owner is at the ceiling.

Aging alone keeps a memory, the tick of its last pass over the ready queue.
-/

namespace Uniprocessor

open Narrated

/-- The disciplines to schedule by: eight ways to answer what a `Policy` is asked. -/
inductive Discipline where
  /-- first come, first served -/
  | fcfs
  /-- shortest job first -/
  | sjf
  /-- shortest time to completion first -/
  | stcf
  /-- round robin -/
  | roundRobin
  /-- highest priority first -/
  | priority
  /-- highest priority first, with aging -/
  | aging
  /-- highest priority first, with a priority ceiling -/
  | ceiling
  /-- highest priority first, with priority inheritance -/
  | inheritance
  deriving DecidableEq, Repr

namespace Discipline

/-- All disciplines, in the order in which they are listed. -/
def all : List Discipline :=
  [.fcfs, .sjf, .stcf, .roundRobin, .priority, .aging, .ceiling, .inheritance]

/-- The short name to select a discipline by, as the command line takes it. -/
def key : Discipline → String
  | .fcfs => "fcfs"
  | .sjf => "sjf"
  | .stcf => "stcf"
  | .roundRobin => "rr"
  | .priority => "prio"
  | .aging => "pa"
  | .ceiling => "pcp"
  | .inheritance => "pip"

/-- The name of a discipline, for people. -/
def name : Discipline → String
  | .fcfs => "FCFS"
  | .sjf => "Shortest-Job First"
  | .stcf => "Shortest Time-to-Complete First"
  | .roundRobin => "Round-Robin"
  | .priority => "Priority"
  | .aging => "Priority + aging"
  | .ceiling => "Priority + PCP Protocol"
  | .inheritance => "Priority + PIP Protocol"

/-- Who executes now, under each discipline: the way to choose of `State` that it goes by, with what
it remembers beside it. -/
def choose : Discipline → Memory → State → Narrated (Memory × State × Option Pid)
  | .fcfs, memory, s => return (memory, ← s.keepOr fun s => .ok s.takeHead)
  | .sjf, memory, s => return (memory, ← s.keepOr fun s => s.takeMin Process.lifespan)
  | .stcf, memory, s => return (memory, ← s.preferShorter)
  | .roundRobin, memory, s => return (memory, (← s.yieldTail).takeHead)
  | .priority, memory, s => return (memory, ← s.preferUrgent)
  | .aging, memory, s => s.preferAged memory
  | .ceiling, memory, s => do
    let s ← s.yieldTail
    return (memory, ← s.takeUrgent)
  | .inheritance, memory, s => return (memory, ← s.preferUrgent)

/-- What becomes of a request, under each discipline: plain, at the ceiling, or with inheritance. -/
def acquire : Discipline → State → ResourceId → Narrated (State × Bool)
  | .ceiling => State.acquireCeiling
  | .inheritance => State.acquireInheriting
  | _ => State.acquirePlain

/-- What becomes of a resource that is given back, under each discipline: whom it wakes, and whom it
reprices. -/
def release : Discipline → State → ResourceId → Narrated State
  | .fcfs | .sjf | .stcf | .roundRobin => State.releaseFirst
  | .priority | .aging => State.releaseUrgent
  | .ceiling => State.releaseCeiling
  | .inheritance => State.releaseInheriting

/-- What a discipline does before the first tick: aging forgets its last pass, and a ceiling has to
be above some priority. -/
def setup : Discipline → Memory → State → Except PolicyFailure (Memory × State)
  | .aging, _, s => .ok (none, s)
  | .ceiling, memory, s =>
    if s.ceiling = 0 then .error (.config "priority ceiling requires max_prio > 0")
    else .ok (memory, s)
  | _, memory, s => .ok (memory, s)

/-- The policy of a discipline: its answers to all that a `Policy` is asked. -/
def policy (d : Discipline) : Policy Memory where
  name := d.name
  setup memory s := pure (d.setup memory s)
  choose := d.choose
  acquire memory s r := return (memory, ← d.acquire s r)
  release memory s r := return (memory, ← d.release s r)

end Discipline

/-- The text that reports why there is no policy. -/
def PolicyFailure.message : PolicyFailure → String
  | .config reason => "invalid policy configuration: " ++ reason
  | .unknown name =>
    "unknown policy " ++ Text.quoted name ++ "; expected one of " ++
      ", ".intercalate (Discipline.all.map Discipline.key)

/-- The discipline that a name selects: its key, in letters of either case, possibly with blanks
around it. -/
def Discipline.named (name : String) : Except PolicyFailure Discipline :=
  let wanted := Text.trimmed name
  let folded := wanted.toList.map Char.toLower
  match Discipline.all.find? fun d => d.key.toList = folded with
  | some d => .ok d
  | none => .error (.unknown wanted)

end Uniprocessor
