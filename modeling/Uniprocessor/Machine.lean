import Uniprocessor.Policy
import Uniprocessor.Machine.Script

/-!
# The machine

The machine plays a scenario under a policy, one small step after the other. In each tick

1. the jobs whose start has come become processes;
2. the policy chooses; the process that was current before leaves if it is finished;
3. the chosen process asks for what is due at its age; a refusal goes back to 2;
4. the chosen process executes, which makes it one tick older;
5. its holds count down, and those used up are given back.

A step makes at most one call of the policy, and makes it first, so that what a policy sees and what
it answers are the machines before and after a step. Where the machine stands between two steps is
its phase. The clock moves when the tick has been closed, and the last tick of a run is not followed
by another: it ends the run because nothing is left, because nothing can go on, or because the
limit has come and some process is not finished.
-/

namespace Uniprocessor

/-- Where the machine stands: what its next `step` is about. -/
inductive Phase where
  /-- before a tick -/
  | boundary
  /-- jobs may become processes -/
  | arriving
  /-- the process has arrived, and the policy has not been told -/
  | announcing (pid : Pid)
  /-- the policy is to choose -/
  | choosing
  /-- the policy has chosen `next`, when `prev` was current -/
  | switching (prev next : Option Pid)
  /-- the process asks for resources -/
  | requesting (pid : Pid) (due : List Request)
  /-- the process has all that it asked for -/
  | executing (pid : Pid)
  /-- the process has executed, and gives resources back -/
  | returning (pid : Pid) (due : List ResourceId)
  /-- the process gives one resource back, for which these processes wait -/
  | releasing (pid : Pid) (resource : ResourceId) (waiters : Queue) (due : List ResourceId)
  /-- the tick is over; in an idle tick nothing executed -/
  | closing (idle : Bool)
  /-- no tick follows -/
  | ending (exit : Exit)
  /-- the run is over -/
  | over (exit : Exit)
  deriving DecidableEq, Repr

/-- The state at the end of a tick, with how much had been recorded by then. -/
structure Sample where
  /-- the state -/
  state : State
  /-- how many events were recorded by then -/
  recorded : Nat
  deriving DecidableEq, Repr

/-- All that a run goes on from: the state, the jobs to come, the scripts, and what the policy
remembers. -/
structure Machine (σ : Type) where
  /-- where the machine stands -/
  phase : Phase
  /-- what the policy remembers -/
  memory : σ
  /-- what the policy sees -/
  state : State
  /-- the jobs that have not arrived, the earliest first -/
  arrivals : List Job
  /-- the scripts of the live processes -/
  scripts : Scripts
  /-- what has happened, the first first -/
  events : Array Event
  /-- the states at the ends of the ticks so far -/
  samples : Array Sample

namespace Machine

open Narrated

variable {σ : Type}

/-- The jobs in the order of arrival: by start, and as listed where the start is the same. -/
def arrivalOrder (jobs : List Job) : List Job := jobs.mergeSort fun a b => a.start ≤ b.start

/-- The machine before the first tick: no processes, all resources free, and all jobs to come. -/
def initial (sc : Scenario) (memory : σ) : Machine σ where
  phase := .boundary
  memory := memory
  state := .empty sc.resourceCount sc.ceiling
  arrivals := arrivalOrder sc.jobs
  scripts := []
  events := #[]
  samples := #[]

/-- Records that something happened, as an `Event` of the current tick. -/
def record (m : Machine σ) (what : Happening) : Machine σ :=
  { m with events := m.events.push ⟨m.state.tick, what⟩ }

/-- Whether all jobs have arrived and all live processes are finished, so that only leaving is
left. -/
def isWindingDown (m : Machine σ) : Bool :=
  m.arrivals.isEmpty && m.state.procs.all Process.isFinished

/-- Opens a tick, unless the limit has come and work is left. -/
def openTick (limit : Nat) (m : Machine σ) : Machine σ :=
  if limit ≤ m.state.tick ∧ m.isWindingDown = false then { m with phase := .ending .tickLimit }
  else { m with phase := .arriving }

/-- Lets the next job arrive, if its start has come; otherwise the policy is to choose. -/
def arrive (m : Machine σ) : Narrated (Machine σ) :=
  match m.arrivals with
  | [] => pure { m with phase := .choosing }
  | job :: rest =>
    if job.start ≤ m.state.tick then do
      note (.arrived job.pid job.lifespan job.prio)
      let state ← m.state.enroll (.fresh job.pid job.lifespan job.prio)
      let m := { m with
        state := state
        arrivals := rest
        scripts := m.scripts.put job.pid { requests := job.requests }
        phase := .announcing job.pid }
      return m.record (.arrived job.pid)
    else pure { m with phase := .choosing }

/-- Makes the chosen process, which must be fit for it, the running and current one. -/
def install (policy : String) (s : State) : Option Pid → Except Fault State
  | none => .ok { s with current := none }
  | some pid => do
    let p ← s.process pid
    require (p.isRunnable = true) (.unfitChoice policy pid p.status p.age p.lifespan)
    require (pid ∉ s.ready) (.queuedChoice policy pid)
    let s ← s.setStatus pid .running
    return { s with current := some pid }

/-- Lets the process that was current before leave, if it is finished and not chosen again. -/
def retire (m : Machine σ) (prev next : Option Pid) : Narrated (Machine σ) :=
  match prev with
  | none => pure m
  | some pid =>
    if next = some pid then pure m
    else do
      let p ← m.state.process pid
      if p.isFinished then
        let (_, state) ← m.state.dismiss pid
        note (.left pid)
        let m := { m with state := state, scripts := m.scripts.erase pid }
        return m.record (.left pid)
      else return m

/-- Goes on with the chosen process, or without one: it has its turn, or the tick is idle, or the
run ends. -/
def dispatch (m : Machine σ) : Option Pid → Narrated (Machine σ)
  | none =>
    if m.state.procs.isEmpty ∧ m.arrivals.isEmpty then pure { m with phase := .ending .normal }
    else do
      note .idled
      return { m.record .idle with phase := .closing true }
  | some pid =>
    match m.scripts.find? pid with
    | none => pure { m with phase := .executing pid }
    | some script => do
      let p ← m.state.process pid
      return { m with phase := .requesting pid (script.due p.age) }

/-- Installs the policy's choice, lets the former process leave if it is finished, and goes on. -/
def switch (policy : String) (m : Machine σ) (prev next : Option Pid) : Narrated (Machine σ) := do
  let state ← install policy m.state next
  if prev ≠ next then note (.switched prev next)
  let m ← retire { m with state := state } prev next
  m.dispatch next

/-- Starts the hold of a granted request in the script of the process. -/
def grant (m : Machine σ) (pid : Pid) (q : Request) : Machine σ :=
  match m.scripts.find? pid with
  | none => m
  | some script => { m with scripts := m.scripts.put pid (script.grant q) }

/-- Asks the policy for what is due, one request after the other, up to a refusal. -/
def request (P : Policy σ) (m : Machine σ) (pid : Pid) : List Request → Narrated (Machine σ)
  | [] => pure { m with phase := .executing pid }
  | q :: rest => do
    let (memory, state, granted) ← P.acquire m.memory m.state q.resource
    let m := { m with memory := memory, state := state }
    if granted then
      return { (m.grant pid q).record (.acquired pid q.resource) with
        phase := .requesting pid rest }
    else return { m.record (.refused pid q.resource) with phase := .choosing }

/-- Executes one tick of a process, counts down its holds and turns to those that have come to their
end. -/
def execute (m : Machine σ) (pid : Pid) : Narrated (Machine σ) := do
  let m := m.record (.executed pid)
  let p ← m.state.process pid
  let age ← nextTick p.age
  let m := { m with state := m.state.adjust pid fun p => { p with age := age } }
  note (.ran pid age p.prio)
  match m.scripts.find? pid with
  | none => return { m with phase := .closing false }
  | some script =>
    let (expired, script) ← script.expire
    return { m with
      scripts := m.scripts.put pid script
      phase := .returning pid expired }

/-- Turns to the next resource to give back; when there is none, the tick is over. -/
def turn (m : Machine σ) (pid : Pid) : List ResourceId → Narrated (Machine σ)
  | [] => pure { m with phase := .closing false }
  | r :: rest => do
    let x ← m.state.resource r
    return { m with phase := .releasing pid r x.waiters rest }

/-- Records who of the former waiters of a resource no longer waits for it. -/
def recordWoken (m : Machine σ) (r : ResourceId) (still : Queue) : Queue → Machine σ
  | [] => m
  | waiter :: rest =>
    if waiter ∈ still then m.recordWoken r still rest
    else (m.record (.woken waiter r)).recordWoken r still rest

/-- Gives one resource back by the policy, and records whom that woke. -/
def release (P : Policy σ) (m : Machine σ) (pid : Pid) (r : ResourceId) (waiters : Queue)
    (due : List ResourceId) : Narrated (Machine σ) := do
  let (memory, state) ← P.release m.memory m.state r
  let m := { m with memory := memory, state := state }.record (.released pid r)
  let x ← m.state.resource r
  return { m.recordWoken r x.waiters waiters with phase := .returning pid due }

/-- Whether nothing will ever execute again: an idle tick, nobody to come, and every live process
waits for a resource. -/
def isStuck (m : Machine σ) (idle : Bool) : Bool :=
  idle && m.arrivals.isEmpty && !m.state.procs.isEmpty && m.state.procs.all Process.isBlocked

/-- Samples the state, and moves the clock unless the run is stuck. -/
def close (m : Machine σ) (idle : Bool) : Narrated (Machine σ) := do
  let m := { m with samples := m.samples.push ⟨m.state, m.events.size⟩ }
  note (.portrayed m.state)
  if m.isStuck idle then
    note (.stuck m.state.procs.length)
    return { m with phase := .ending .deadlock }
  else
    let tick ← nextTick m.state.tick
    return { m with state := { m.state with tick := tick }, phase := .boundary }

/-- Lets the policy finish, after which the run is over. -/
def conclude (P : Policy σ) (m : Machine σ) (exit : Exit) : Narrated (Machine σ) := do
  let (memory, state) ← P.finish m.memory m.state
  note (.finished exit state.tick)
  return { m with memory := memory, state := state, phase := .over exit }

/-- One step of a run under a policy and up to a limit. A machine whose run is over stays as it
is. -/
def step (P : Policy σ) (limit : Nat) (m : Machine σ) : Narrated (Machine σ) :=
  match m.phase with
  | .boundary => pure (m.openTick limit)
  | .arriving => m.arrive
  | .announcing pid => do
    let (memory, state) ← P.arrived m.memory m.state pid
    return { m with memory := memory, state := state, phase := .arriving }
  | .choosing => do
    let (memory, state, next) ← P.choose m.memory m.state
    return { m with
      memory := memory
      state := state
      phase := .switching m.state.current next }
  | .switching prev next => m.switch P.name prev next
  | .requesting pid due => m.request P pid due
  | .executing pid => m.execute pid
  | .returning pid due => m.turn pid due
  | .releasing pid r waiters due => m.release P pid r waiters due
  | .closing idle => m.close idle
  | .ending exit => m.conclude P exit
  | .over _ => pure m

end Machine

end Uniprocessor
