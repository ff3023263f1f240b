import Uniprocessor.Machine.Run
import Uniprocessor.Proofs.Stage

/-!
# Strides of the machine

A machine goes from one place where it could rest to the next in a stride: one step, or two where
the policy makes a choice that has to be carried out. What a stride can do under a lawful policy is
said here once, with everything that it depends on (`Strides`), and whatever is proved of a run is
proved by cases on it.

A machine is reached in a run of a scenario when it is the prepared one or a step away from a
machine that is reached (`Scenario.Reaches`).
-/

namespace Uniprocessor

/-- Whether a choice has been made that is not carried out yet. Only then need a state not be
`Settled`. -/
def Phase.isSwitching : Phase → Bool
  | .switching .. => true
  | _ => false

/-- At the end of a run no choice is being carried out, so invariants of the phases that are not
`isSwitching` hold there. -/
theorem Phase.isSwitching_of_over {phase : Phase} {exit : Exit} (h : phase = .over exit) :
    phase.isSwitching = false := by
  rw [h]
  rfl

/-- What the processes still have to give back in a phase: only one that has just executed has
anything to return. -/
def Phase.owed : Phase → Pid → List ResourceId
  | .returning pid due => owing pid due
  | .releasing pid r _ due => owing pid (r :: due)
  | _ => fun _ => []

namespace Machine

variable {σ : Type}

/-- One step of the machine, or two if the first is a choice, so that no stride ends while a choice
is being carried out. -/
def stride (P : Policy σ) (limit : Nat) (m : Machine σ) : Except Fault (Machine σ) :=
  match m.phase with
  | .choosing => do
    let m ← (m.step P limit).result
    (m.step P limit).result
  | _ => (m.step P limit).result

/-- The machine after a choice of `next` that led to `t` has been carried out, except for its phase:
the state is `switched`, and whoever leaves does so with its script and an event. -/
def carriedOut (m : Machine σ) (memory : σ) (t : State) (next : Option Pid) : Machine σ :=
  let m' := { m with
    memory := memory
    state := m.state.switched t next
    scripts := m.scripts.without m.state.leaver? }
  match m.state.leaver? with
  | none => m'
  | some pid => m'.record (.left pid)

section CarriedOut

variable (m : Machine σ) (memory : σ) (t : State) (next : Option Pid)

@[simp] theorem carriedOut_state :
    (m.carriedOut memory t next).state = m.state.switched t next := by
  unfold carriedOut
  cases m.state.leaver? <;> rfl

@[simp] theorem carriedOut_scripts :
    (m.carriedOut memory t next).scripts = m.scripts.without m.state.leaver? := by
  unfold carriedOut
  cases m.state.leaver? <;> rfl

@[simp] theorem carriedOut_arrivals : (m.carriedOut memory t next).arrivals = m.arrivals := by
  unfold carriedOut
  cases m.state.leaver? <;> rfl

@[simp] theorem carriedOut_samples : (m.carriedOut memory t next).samples = m.samples := by
  unfold carriedOut
  cases m.state.leaver? <;> rfl

end CarriedOut

/-- The machine after an answer of the policy, before anything is recorded of it. -/
def answered (m : Machine σ) (memory : σ) (t : State) : Machine σ :=
  { m with memory := memory, state := t }

section RecordWoken

variable (m : Machine σ) (r : ResourceId) (still waiters : Queue)

/-- The record of who was woken is all that `recordWoken` changes. The lemmas below read single
fields off this. -/
theorem recordWoken_eq : ∃ events, m.recordWoken r still waiters = { m with events := events } := by
  induction waiters generalizing m with
  | nil => exact ⟨m.events, rfl⟩
  | cons w rest ih =>
    rw [recordWoken]
    by_cases hw : w ∈ still
    · rw [if_pos hw]
      exact ih m
    · rw [if_neg hw]
      exact ih (m.record (.woken w r))

@[simp] theorem recordWoken_state : (m.recordWoken r still waiters).state = m.state := by
  obtain ⟨events, he⟩ := m.recordWoken_eq r still waiters
  rw [he]

@[simp] theorem recordWoken_scripts : (m.recordWoken r still waiters).scripts = m.scripts := by
  obtain ⟨events, he⟩ := m.recordWoken_eq r still waiters
  rw [he]

@[simp] theorem recordWoken_arrivals : (m.recordWoken r still waiters).arrivals = m.arrivals := by
  obtain ⟨events, he⟩ := m.recordWoken_eq r still waiters
  rw [he]

@[simp] theorem recordWoken_samples : (m.recordWoken r still waiters).samples = m.samples := by
  obtain ⟨events, he⟩ := m.recordWoken_eq r still waiters
  rw [he]

end RecordWoken

/-- What a machine does in a stride under a lawful policy, and when, with one case for each thing
that can happen. Invariants of a run are proved by cases on it, and `Steady.exists_stride` says that
nothing else happens. -/
inductive Strides (P : Policy σ) (limit : Nat) (m : Machine σ) : Machine σ → Prop
  /-- no tick follows, since the limit has come and work is left -/
  | stop (hphase : m.phase = .boundary) (hlimit : limit ≤ m.state.tick)
      (hwork : m.isWindingDown = false) :
      Strides P limit m { m with phase := .ending .tickLimit }
  /-- a tick begins -/
  | start (hphase : m.phase = .boundary)
      (htime : m.state.tick < limit ∨ m.isWindingDown = true) :
      Strides P limit m { m with phase := .arriving }
  /-- nobody else arrives in this tick -/
  | gather (hphase : m.phase = .arriving)
      (hstart : ∀ job ∈ m.arrivals.head?, m.state.tick < job.start) :
      Strides P limit m { m with phase := .choosing }
  /-- a job becomes a process -/
  | arrive {job : Job} {rest : List Job} (hphase : m.phase = .arriving)
      (harrivals : m.arrivals = job :: rest) (hstart : job.start ≤ m.state.tick) :
      Strides P limit m { m.record (.arrived job.pid) with
        state := m.state.joined (.fresh job.pid job.lifespan job.prio)
        arrivals := rest
        scripts := m.scripts.put job.pid { requests := job.requests }
        phase := .announcing job.pid }
  /-- the policy is told about an arrival -/
  | announce {pid : Pid} {memory : σ} (hphase : m.phase = .announcing pid)
      (hP : (P.arrived m.memory m.state pid).result = .ok (memory, m.state)) :
      Strides P limit m { m with memory := memory, phase := .arriving }
  /-- nobody is chosen, since there is nobody left -/
  | drain {memory : σ} {t : State} (hphase : m.phase = .choosing)
      (hP : (P.choose m.memory m.state).result = .ok (memory, t, none))
      (hchose : m.state.Chose t none) (hprocs : (m.state.switched t none).procs = [])
      (harrivals : m.arrivals = []) :
      Strides P limit m { m.carriedOut memory t none with phase := .ending .normal }
  /-- nobody is chosen, and nothing executes in this tick -/
  | idle {memory : σ} {t : State} (hphase : m.phase = .choosing)
      (hP : (P.choose m.memory m.state).result = .ok (memory, t, none))
      (hchose : m.state.Chose t none)
      (hwork : ¬ ((m.state.switched t none).procs = [] ∧ m.arrivals = [])) :
      Strides P limit m { (m.carriedOut memory t none).record .idle with phase := .closing true }
  /-- a process is chosen, and asks for what is due -/
  | turn {memory : σ} {t : State} {pid : Pid} {p : Process} {script : Script}
      (hphase : m.phase = .choosing)
      (hP : (P.choose m.memory m.state).result = .ok (memory, t, some pid))
      (hchose : m.state.Chose t (some pid))
      (hp : (m.state.switched t (some pid)).process? pid = some p)
      (hs : (m.scripts.without m.state.leaver?).find? pid = some script) :
      Strides P limit m { m.carriedOut memory t (some pid) with
        phase := .requesting pid (script.due p.age) }
  /-- a request is granted -/
  | grant {pid : Pid} {q : Request} {rest : List Request} {p : Process} {script : Script}
      {x : Resource} {memory : σ} {t : State} (hphase : m.phase = .requesting pid (q :: rest))
      (hp : m.state.process? pid = some p) (hs : m.scripts.find? pid = some script)
      (hcalls : m.state.Calls pid q.resource x) (hx : x.owner = none)
      (hP : (P.acquire m.memory m.state q.resource).result = .ok (memory, t, true))
      (ht : (m.state.give q.resource x pid).Repriced t) :
      Strides P limit m { (m.answered memory t).record (.acquired pid q.resource) with
        scripts := m.scripts.put pid (script.grant q)
        phase := .requesting pid rest }
  /-- a request is refused -/
  | refuse {pid owner : Pid} {q : Request} {rest : List Request} {x : Resource} {memory : σ}
      {t : State} (hphase : m.phase = .requesting pid (q :: rest))
      (hcalls : m.state.Calls pid q.resource x) (hx : x.owner = some owner) (hne : owner ≠ pid)
      (hP : (P.acquire m.memory m.state q.resource).result = .ok (memory, t, false))
      (ht : (m.state.park q.resource x pid).Repriced t) :
      Strides P limit m { (m.answered memory t).record (.refused pid q.resource) with
        phase := .choosing }
  /-- nothing is left to ask for -/
  | ready {pid : Pid} (hphase : m.phase = .requesting pid []) :
      Strides P limit m { m with phase := .executing pid }
  /-- a process executes -/
  | execute {pid : Pid} {p : Process} {script script' : Script} {expired : List ResourceId}
      (hphase : m.phase = .executing pid) (hp : m.state.process? pid = some p)
      (hs : m.scripts.find? pid = some script) (hexp : script.expire = .ok (expired, script')) :
      Strides P limit m { m.record (.executed pid) with
        state := m.state.adjust pid fun q => { q with age := p.age + 1 }
        scripts := m.scripts.put pid script'
        phase := .returning pid expired }
  /-- nothing is left to give back -/
  | finish {pid : Pid} (hphase : m.phase = .returning pid []) :
      Strides P limit m { m with phase := .closing false }
  /-- a resource is next to be given back -/
  | next {pid : Pid} {r : ResourceId} {due : List ResourceId} {x : Resource}
      (hphase : m.phase = .returning pid (r :: due)) (hx : m.state.resources[r]? = some x) :
      Strides P limit m { m with phase := .releasing pid r x.waiters due }
  /-- a resource is given back -/
  | release {pid : Pid} {r : ResourceId} {waiters : Queue} {due : List ResourceId} {x y : Resource}
      {memory : σ} {t : State} {woken : Option Pid}
      (hphase : m.phase = .releasing pid r waiters due) (hcalls : m.state.Calls pid r x)
      (hx : x.owner = some pid)
      (hP : (P.release m.memory m.state r).result = .ok (memory, t))
      (ht : (m.state.vacate r x woken).Repriced t) (hnone : woken = none ↔ x.waiters = [])
      (hwoken : ∀ w, woken = some w → w ∈ x.waiters) (hy : t.resources[r]? = some y) :
      Strides P limit m {
        ((m.answered memory t).record (.released pid r)).recordWoken r y.waiters waiters with
        phase := .returning pid due }
  /-- no tick follows, since nothing will ever execute again -/
  | stick {wasIdle : Bool} (hphase : m.phase = .closing wasIdle)
      (hstuck : m.isStuck wasIdle = true) :
      Strides P limit m { m with
        samples := m.samples.push ⟨m.state, m.events.size⟩
        phase := .ending .deadlock }
  /-- the clock moves -/
  | tick {wasIdle : Bool} (hphase : m.phase = .closing wasIdle)
      (hstuck : m.isStuck wasIdle = false) :
      Strides P limit m { m with
        samples := m.samples.push ⟨m.state, m.events.size⟩
        state := { m.state with tick := m.state.tick + 1 }
        phase := .boundary }
  /-- the policy finishes -/
  | conclude {exit : Exit} {memory : σ} (hphase : m.phase = .ending exit)
      (hP : (P.finish m.memory m.state).result = .ok (memory, m.state)) :
      Strides P limit m { m with memory := memory, phase := .over exit }

/-- Between ticks the clock, the limit and the work that is left determine the stride: `start` or
`stop`. -/
theorem Strides.eq_of_boundary {P : Policy σ} {limit : Nat} {m m' : Machine σ}
    (h : m.Strides P limit m') (hphase : m.phase = .boundary) :
    m' = { m with
      phase := if m.state.tick < limit ∨ m.isWindingDown = true then .arriving
        else .ending .tickLimit } := by
  cases h with
  | stop _ hlimit hwork =>
    rw [if_neg]
    simpa [hwork] using hlimit
  | start _ htime => rw [if_pos htime]
  | _ hother => cases hphase.symm.trans hother

/-- At the end of a tick it depends on `isStuck` alone whether the stride is `stick` or `tick`. -/
theorem Strides.eq_of_closing {P : Policy σ} {limit : Nat} {m m' : Machine σ} {idle : Bool}
    (h : m.Strides P limit m') (hphase : m.phase = .closing idle) :
    m' = { m with
      samples := m.samples.push ⟨m.state, m.events.size⟩
      state := if m.isStuck idle then m.state else { m.state with tick := m.state.tick + 1 }
      phase := if m.isStuck idle then .ending .deadlock else .boundary } := by
  cases h with
  | stick hclosing hstuck =>
    cases hphase.symm.trans hclosing
    rw [if_pos hstuck, if_pos hstuck]
  | tick hclosing hstuck =>
    cases hphase.symm.trans hclosing
    rw [if_neg (by simp [hstuck]), if_neg (by simp [hstuck])]
  | _ hother => cases hphase.symm.trans hother

end Machine

/-- The machine is reached in a run of the scenario under the policy: it is the prepared one, or one
step away from a machine that is reached. -/
inductive Scenario.Reaches {σ : Type} (sc : Scenario) (P : Policy σ) (memory : σ) :
    Machine σ → Prop
  /-- the prepared machine -/
  | start {m : Machine σ} (h : (sc.prepare P memory).result = .ok (.ok m)) : sc.Reaches P memory m
  /-- a step further -/
  | step {m m' : Machine σ} (h : sc.Reaches P memory m)
      (hstep : (m.step P sc.limit).result = .ok m') : sc.Reaches P memory m'

end Uniprocessor
