import Uniprocessor.Proofs.Slots
import Uniprocessor.Proofs.Timetable
import Uniprocessor.Proofs.Unhindered

/-!
# Serving one after the other

Where nobody is replaced or hindered, the jobs that have begun are served one after the other, each
without a break. In which order depends on the policy, but whatever it is, the processor follows the
timetable of that order: everybody begins as soon as the one before is done (`Machine.Serving`).
What a policy decides is only who is taken out of the ready queue when the processor becomes free
(`Machine.Proceeds`), so what is to be said of its order is proved by induction on that
(`Scenario.Reaches.serving`).
-/

namespace Uniprocessor

/-- The tick and the process of a departure, if the event is one. -/
def Event.departure? (e : Event) : Option (Nat × Pid) :=
  match e.what with
  | .left pid => some (e.tick, pid)
  | _ => none

namespace Machine

variable {σ : Type} {sc : Scenario} {P : Policy σ} {m m' : Machine σ} {pid : Pid}

/-! ## Who has left, and who has executed how often -/

/-- The departures so far, each with its tick. -/
def departed (m : Machine σ) : List (Nat × Pid) := m.events.toList.filterMap Event.departure?

theorem mem_departed {tick : Nat} :
    (tick, pid) ∈ m.departed ↔ ⟨tick, .left pid⟩ ∈ m.events.toList := by
  apply mem_filterMap_iff_of_forall
  rintro ⟨when, what⟩
  cases what <;> simp [Event.departure?]

theorem Notes.departed {tick : Nat} {later : List Happening} (h : m.Notes tick later m') :
    m'.departed = m.departed ++ (later.map (Event.mk tick)).filterMap Event.departure? := by
  rw [Machine.departed, h, List.filterMap_append]
  rfl

/-- Where no departure is noted, `departed` is the same. -/
theorem Notes.departed_eq {tick : Nat} {later : List Happening} (h : m.Notes tick later m')
    (hnone : ∀ pid, .left pid ∉ later) : m'.departed = m.departed := by
  rw [h.departed, List.filterMap_eq_nil_iff.2, List.append_nil]
  intro e he
  obtain ⟨what, hwhat, rfl⟩ := List.mem_map.1 he
  cases what with
  | left pid => exact absurd hwhat (hnone pid)
  | _ => rfl

/-- When a choice is carried out, whoever is finished leaves, in the present tick, and is the last
of `departed`. -/
theorem departed_of_choice (hstr : m.Strides P sc.limit m') {idle : List Happening}
    (hidle : idle = [] ∨ idle = [.idle])
    (hhistory : m'.history = m.history ++ (m.state.leaver?.toList.map .left ++ idle)) :
    m'.departed = m.departed ++ m.state.leaver?.toList.map fun pid => (m.state.tick, pid) := by
  rw [(hstr.notes_of_history hhistory).departed]
  rcases hidle with rfl | rfl <;> cases m.state.leaver? <;> rfl

/-- A stride lets nobody leave, or the one that is finished when a choice is carried out: the two
ways in which `departed` goes on. -/
theorem Steady.departed (hm : m.Steady sc) (hstr : m.Strides P sc.limit m') :
    m'.departed = m.departed ∨ ∃ pid, m.phase = .choosing ∧ m.state.leaver? = some pid ∧
      .left pid ∈ m'.history ∧ m'.departed = m.departed ++ [(m.state.tick, pid)] := by
  have hstays : ∀ {later}, m'.history = m.history ++ later → (∀ pid, .left pid ∉ later) →
      m'.departed = m.departed := fun hlater hnone =>
    (hstr.notes_of_history hlater).departed_eq hnone
  cases hm.episode hstr with
  | quiet _ _ _ _ _ hhistory =>
    exact Or.inl (hstays (hhistory.trans (List.append_nil _).symm) (by simp))
  | choose hphase _ _ _ _ _ _ hidle hhistory =>
    have hdeparted := departed_of_choice hstr (hidle.imp_right And.right) hhistory
    cases hleaver : m.state.leaver? with
    | none =>
      rw [hleaver, Option.toList_none, List.map_nil, List.append_nil] at hdeparted
      exact Or.inl hdeparted
    | some pid =>
      rw [hleaver] at hdeparted hhistory
      exact Or.inr ⟨pid, hphase, rfl, by rw [hhistory]; simp, hdeparted⟩
  | release _ _ _ _ _ _ _ _ _ hhistory =>
    left
    apply hstays hhistory
    intro pid hmem
    cases History.isOfResource_of_release _ _ _ _ hmem
  | arrive _ _ _ _ _ hhistory => exact Or.inl (hstays hhistory (by simp))
  | grant _ _ _ _ _ _ _ _ _ _ hhistory => exact Or.inl (hstays hhistory (by simp))
  | refuse _ _ _ _ _ _ _ _ hhistory => exact Or.inl (hstays hhistory (by simp))
  | execute _ _ _ _ _ _ _ _ _ _ hhistory => exact Or.inl (hstays hhistory (by simp))

/-- Nobody leaves but when a choice is carried out, so `departed` is the same in all other
phases. -/
theorem Steady.departed_eq (hm : m.Steady sc) (hstr : m.Strides P sc.limit m')
    (hphase : m.phase ≠ .choosing) : m'.departed = m.departed :=
  (hm.departed hstr).resolve_right fun ⟨_, hch, _⟩ => hphase hch

/-- How many ticks the process has executed, by the slots. -/
def ran (m : Machine σ) (pid : Pid) : Nat := m.slots.countP fun slot => slot.2 = some pid

theorem ran_eq_count (m : Machine σ) (pid : Pid) : m.ran pid = m.history.count (.executed pid) := by
  rw [count_history, ran, slots, Trace.slotsOf, List.countP_filterMap]
  apply List.countP_congr
  rintro ⟨tick, what⟩ -
  cases what <;> simp [Event.slot?, Event.turn?]

theorem ran_congr (h : m'.slots = m.slots) (pid : Pid) : m'.ran pid = m.ran pid := by
  rw [ran, ran, h]

/-- Whoever has the slot has executed one tick more, by `ran`. -/
theorem ran_concat {tick : Nat} (h : m'.slots = m.slots ++ [(tick, some pid)]) :
    m'.ran pid = m.ran pid + 1 := by
  rw [ran, ran, h, List.countP_append, List.countP_singleton, if_pos (by simp)]

/-! ## What a stride does -/

/-- Between the two machines nothing has happened that concerns the order of service. -/
structure Stays (m m' : Machine σ) : Prop where
  /-- the same processes are ready -/
  ready : m'.state.ready = m.state.ready
  /-- the same process is current -/
  current : m'.state.current = m.state.current
  /-- the same jobs are to come -/
  arrivals : m'.arrivals = m.arrivals
  /-- no slot has been filled -/
  slots : m'.slots = m.slots
  /-- the next slot is the same -/
  now : m'.now = m.now
  /-- the clock may have moved -/
  tick : m.state.tick ≤ m'.state.tick
  /-- nobody has left -/
  departed : m'.departed = m.departed

/-- A job joins the ready queue. -/
structure Enters (job : Job) (m m' : Machine σ) : Prop where
  /-- it is the next one to come -/
  arrivals : m.arrivals = job :: m'.arrivals
  /-- it has started -/
  start : job.start ≤ m.state.tick
  /-- it comes last in the queue -/
  ready : m'.state.ready = m.state.ready ++ [job.pid]
  /-- the same process is current -/
  current : m'.state.current = m.state.current
  /-- no slot has been filled -/
  slots : m'.slots = m.slots
  /-- the next slot is the same -/
  now : m'.now = m.now
  /-- the tick is not decided -/
  undecided : m.now = m.state.tick
  /-- the clock stands still -/
  tick : m'.state.tick = m.state.tick
  /-- nobody has left -/
  departed : m'.departed = m.departed

/-- The processor is free, and somebody begins. -/
structure Begins (P : Policy σ) (pid : Pid) (m m' : Machine σ) : Prop where
  /-- the policy is asked -/
  phase : m.phase = .choosing
  /-- nobody goes on -/
  free : m.state.contender? = none
  /-- the policy chooses the process -/
  chosen : ∃ memory t, (P.choose m.memory m.state).result = .ok (memory, t, some pid)
  /-- it is ready -/
  mem : pid ∈ m.state.ready
  /-- it leaves the ready queue -/
  ready : m'.state.ready = m.state.ready.erase pid
  /-- it becomes current -/
  current : m'.state.current = some pid
  /-- the same jobs are to come -/
  arrivals : m'.arrivals = m.arrivals
  /-- no slot has been filled -/
  slots : m'.slots = m.slots
  /-- the next slot is the same -/
  now : m'.now = m.now
  /-- the tick is not decided -/
  undecided : m.now = m.state.tick
  /-- the clock stands still -/
  tick : m'.state.tick = m.state.tick
  /-- whoever is finished leaves -/
  departed : m'.departed = m.departed ++ m.state.leaver?.toList.map fun pid => (m.state.tick, pid)

/-- The processor is free, and nobody is ready. -/
structure Idles (m m' : Machine σ) : Prop where
  /-- nobody goes on -/
  free : m.state.contender? = none
  /-- nobody is ready -/
  empty : m.state.ready = []
  /-- nobody has become ready -/
  ready : m'.state.ready = []
  /-- nobody is current any more -/
  current : m'.state.current = none
  /-- the same jobs are to come -/
  arrivals : m'.arrivals = m.arrivals
  /-- the tick was not decided -/
  undecided : m.now = m.state.tick
  /-- this is the end of the run, or the tick is idle and somebody is to come -/
  slots : (m'.slots = m.slots ∧ m'.now = m.now) ∨
    m'.slots = m.slots ++ [(m.now, none)] ∧ m'.now = m.now + 1 ∧ m.arrivals ≠ []
  /-- whoever is finished leaves -/
  departed : m'.departed = m.departed ++ m.state.leaver?.toList.map fun pid => (m.state.tick, pid)

/-- The current process executes. -/
structure Executes (pid : Pid) (m m' : Machine σ) : Prop where
  /-- it is current -/
  current : m.state.current = some pid
  /-- it has ticks left to execute -/
  unfinished : ∃ p, m.state.process? pid = some p ∧ p.age < p.lifespan
  /-- it stays current -/
  stays : m'.state.current = some pid
  /-- the same processes are ready -/
  ready : m'.state.ready = m.state.ready
  /-- the same jobs are to come -/
  arrivals : m'.arrivals = m.arrivals
  /-- it fills the next slot -/
  slots : m'.slots = m.slots ++ [(m.now, some pid)]
  /-- the slot after that is the next one -/
  now : m'.now = m.now + 1
  /-- the clock stands still -/
  tick : m'.state.tick = m.state.tick
  /-- nobody has left -/
  departed : m'.departed = m.departed

/-- What a stride does to the order of service if nobody is replaced or hindered. -/
inductive Serves (P : Policy σ) (m m' : Machine σ) : Prop
  /-- nothing -/
  | stays (h : m.Stays m')
  /-- a job joins the ready queue -/
  | enters {job : Job} (h : m.Enters job m')
  /-- somebody begins -/
  | begins {pid : Pid} (h : m.Begins P pid m')
  /-- nobody begins -/
  | idles (h : m.Idles m')
  /-- somebody executes -/
  | executes {pid : Pid} (h : m.Executes pid m')

/-- If nobody is chosen by a policy that is `Nonpreemptive`, the processor is free and nobody is
ready. -/
theorem of_nobody_chosen (hnon : P.Nonpreemptive) (hs : m.state.Settled) {memory : σ} {t : State}
    (hok : (P.choose m.memory m.state).result = .ok (memory, t, none)) :
    m.state.contender? = none ∧ m.state.ready = [] ∧ t = m.state := by
  rcases hnon hs hok with ⟨_, -, hnext, -⟩ | ⟨hcon, ⟨-, hready, ht⟩ | ⟨_, -, hnext, -⟩⟩
  · cases hnext
  · exact ⟨hcon, hready, ht⟩
  · cases hnext

/-- A stride `Stays` if nobody executes in it, the policy is not asked, and the ready queue, the
current process and the jobs to come are what they were. -/
theorem Steady.stays (hm : m.Steady sc) (hstr : m.Strides P sc.limit m')
    (hexec : ∀ who, m.phase ≠ .executing who) (hchoose : m.phase ≠ .choosing)
    (hready : m'.state.ready = m.state.ready) (hcurrent : m'.state.current = m.state.current)
    (harrivals : m'.arrivals = m.arrivals) (htick : m.state.tick ≤ m'.state.tick) :
    m.Stays m' := by
  obtain ⟨hslots, hnow⟩ := hstr.slots_eq hexec fun hphase => absurd hphase hchoose
  exact ⟨hready, hcurrent, harrivals, hslots, hnow, htick, hm.departed_eq hstr hchoose⟩

section Choice

variable {memory : σ} {t : State} {next : Option Pid} (hnon : P.Nonpreemptive)
  (hs : m.state.Settled) (hphase : m.phase = .choosing)
  (hok : (P.choose m.memory m.state).result = .ok (memory, t, next))
  (hstate : m'.state = m.state.switched t next) (harrivals : m'.arrivals = m.arrivals)
  (hdeparted : m'.departed =
    m.departed ++ m.state.leaver?.toList.map fun pid => (m.state.tick, pid))
include hnon hs hphase hok hstate harrivals hdeparted

/-- A choice of nobody `Idles`. -/
theorem Idles.of_choice (hnext : next = none)
    (hslots : (m'.slots = m.slots ∧ m'.now = m.now) ∨
      m'.slots = m.slots ++ [(m.now, none)] ∧ m'.now = m.now + 1 ∧ m.arrivals ≠ []) :
    m.Idles m' := by
  cases hnext
  obtain ⟨hcon, hempty, rfl⟩ := of_nobody_chosen hnon hs hok
  refine ⟨hcon, hempty, ?_, ?_, harrivals, now_of_choosing hphase, hslots, hdeparted⟩
  · rw [hstate, State.ready_switched]
    exact hempty
  · rw [hstate]
    exact State.current_switched ..

/-- A choice of somebody `Serves`: it lets the current process stay, or else a process that is ready
begins. -/
theorem Serves.of_choice {pid : Pid} (hnext : next = some pid) (hslots : m'.slots = m.slots)
    (hnow : m'.now = m.now) (htick : m'.state.tick = m.state.tick) : m.Serves P m' := by
  cases hnext
  have hready : m'.state.ready = t.ready := by
    rw [hstate]
    exact State.ready_switched ..
  have hcurrent : m'.state.current = some pid := by
    rw [hstate]
    exact State.current_switched ..
  rcases hnon hs hok with ⟨who, hcon, hnext, rfl⟩ | ⟨hcon, ⟨hnext, -⟩ | ⟨who, hmem, hnext, rfl⟩⟩
  · cases hnext
    have hcur := (State.contender?_eq_some.1 hcon).1
    rw [State.leaver?_eq_none_of_contender hcon, Option.toList_none, List.map_nil,
      List.append_nil] at hdeparted
    exact .stays ⟨hready, hcurrent.trans hcur.symm, harrivals, hslots, hnow, htick.ge, hdeparted⟩
  · cases hnext
  · cases hnext
    exact .begins ⟨hphase, hcon, ⟨_, _, hok⟩, hmem, hready, hcurrent, harrivals, hslots, hnow,
      now_of_choosing hphase, htick, hdeparted⟩

end Choice

/-- If nobody is replaced or hindered, every stride `Serves`. -/
theorem Steady.serves (hsc : sc.Sound) (hnon : P.Nonpreemptive) (hm : m.Steady sc)
    (hfree : m.Unhindered) (hstr : m.Strides P sc.limit m') : m.Serves P m' := by
  have hs := hm.stage.settled
  have hs' := (hm.strides hsc hstr).stage.settled
  have hfree' := hfree.episode hsc hnon hm (hm.episode hstr)
  have hstr' := hstr
  have hquiet := hstr.slots_eq
  have hexecutes := fun (who : Pid) (hphase : m.phase = .executing who) =>
    hstr.slots_of_executing hphase
  have hidles := hstr.slots_of_idle
  have htick := hstr.tick_eq
  have hdeparted := hm.departed_eq hstr
  have hstays := hm.stays hstr
  cases hstr with
  | @arrive job rest hphase harrivals hstart =>
    obtain ⟨hslots, hnow⟩ := hquiet (by simp [hphase]) (by simp [hphase])
    exact .enters ⟨harrivals, hstart, rfl, rfl, hslots, hnow, by rw [now, hphase]; rfl, rfl,
      hdeparted (by simp [hphase])⟩
  | drain hphase hok =>
    have hdeparted := departed_of_choice hstr' (Or.inl rfl)
      ((history_carriedOut ..).trans (by rw [List.append_nil]))
    exact .idles (.of_choice hnon hs hphase hok (carriedOut_state ..) (carriedOut_arrivals ..)
      hdeparted rfl (Or.inl (hquiet (by simp [hphase]) (by simp))))
  | @idle memory t hphase hok hchose hwork =>
    have hstate := m.carriedOut_state memory t none
    have hdeparted := departed_of_choice hstr' (Or.inr rfl) ((history_record ..).trans
      (by rw [history_carriedOut, List.append_assoc]))
    obtain ⟨hslots, hnow⟩ := hidles hphase rfl
    obtain ⟨-, hempty, rfl⟩ := of_nobody_chosen hnon hs hok
    -- With nobody left, somebody must be to come: otherwise the run would have been drained.
    have hprocs := hfree'.procs_eq_nil hs'
      ((congrArg State.ready hstate).trans ((State.ready_switched ..).trans hempty))
      ((congrArg State.current hstate).trans (State.current_switched ..))
    exact .idles (.of_choice hnon hs hphase hok hstate (carriedOut_arrivals ..) hdeparted rfl
      (Or.inr ⟨hslots, hnow, fun hnone => hwork ⟨hstate ▸ hprocs, hnone⟩⟩))
  | turn hphase hok =>
    have hdeparted := departed_of_choice hstr' (Or.inl rfl)
      ((history_carriedOut ..).trans (by rw [List.append_nil]))
    obtain ⟨hslots, hnow⟩ := hquiet (by simp [hphase]) (by simp)
    exact .of_choice hnon hs hphase hok (carriedOut_state ..) (carriedOut_arrivals ..) hdeparted rfl
      hslots hnow (htick (by simp [hphase]))
  | grant hphase _ _ _ _ _ ht =>
    exact .stays (hstays (by simp [hphase]) (by simp [hphase]) ht.ready ht.current rfl ht.tick.ge)
  | refuse hphase hcalls hx hne => exact absurd (hfree.uncontended.owner_eq_of_calls hcalls hx) hne
  | @execute pid p script script' expired hphase hp =>
    obtain ⟨hslots, hnow, hnow'⟩ := hexecutes pid hphase
    obtain ⟨hruns, p', -, hp', -, hage, -⟩ := hm.fits_of hphase
    cases hp.symm.trans hp'
    exact .executes ⟨hruns.current, ⟨p, hp, hage⟩, hruns.current, rfl, rfl, hnow ▸ hslots,
      hnow ▸ hnow', rfl, hdeparted (by simp [hphase])⟩
  | @release pid r waiters due x y memory t woken hphase hcalls _ _ ht _ hwoken =>
    obtain rfl := hfree.uncontended.woken_eq_none hcalls hwoken
    have hstate := recordWoken_state ((m.answered memory t).record (.released pid r)) r
      y.waiters waiters
    exact .stays (hstays (by simp [hphase]) (by simp [hphase])
      ((congrArg State.ready hstate).trans ht.ready)
      ((congrArg State.current hstate).trans ht.current) (recordWoken_arrivals ..)
      (htick (by simp [hphase])).ge)
  | tick hphase =>
    exact .stays (hstays (by simp [hphase]) (by simp [hphase]) rfl rfl rfl (Nat.le_succ _))
  | _ hphase =>
    exact .stays (hstays (by simp [hphase]) (by simp [hphase]) rfl rfl rfl (Nat.le_refl _))

/-! ## The order of service -/

/-- Those who have begun, in this order, are served by their timetable; those in the queue are
ready, and the others are to come. -/
structure Serving (sc : Scenario) (served queue : List Job) (m : Machine σ) : Prop where
  /-- all of them are the jobs -/
  jobs : (served ++ queue ++ m.arrivals).Perm sc.jobs
  /-- those in the queue are ready -/
  ready : m.state.ready = queue.map Job.pid
  /-- they have started -/
  started : ∀ job ∈ queue, job.start ≤ m.state.tick
  /-- the timetable says who has had the processor -/
  slots : m.slots = (List.range m.now).map fun tick => (tick, Timetable.occupant 0 served tick)
  /-- the current process began last, and goes on until it is done -/
  current : ∀ {pid}, m.state.current = some pid → ∃ before job, served = before ++ [job] ∧
    job.pid = pid ∧ m.now + job.lifespan = Timetable.finish 0 served + m.ran pid
  /-- if nobody is current, all of them are done -/
  vacant : m.state.current = none → Timetable.finish 0 served ≤ m.now
  /-- nobody waits for a processor that is free -/
  prompt : Timetable.finish 0 served < m.now → ∀ job ∈ queue, job.start = m.now
  /-- the processor has been free only if somebody is left -/
  pending : Timetable.finish 0 served < m.now → queue ++ m.arrivals ≠ []
  /-- everybody who has left did so when it was done -/
  departed : ∀ gone ∈ m.departed, ∃ x ∈ Timetable.stints 0 served,
    x.job.pid = gone.2 ∧ x.done = gone.1

/-- What becomes of those who have begun and of those in the queue: nothing, a job joins the queue,
or a job of the queue begins. -/
inductive Proceeds (P : Policy σ) (m m' : Machine σ) (served queue : List Job) :
    List Job → List Job → Prop
  /-- nothing -/
  | stays (harrivals : m'.arrivals = m.arrivals) : Proceeds P m m' served queue served queue
  /-- the next job joins the queue -/
  | enters {job : Job} (h : m.Enters job m') :
      Proceeds P m m' served queue served (queue ++ [job])
  /-- the job that the policy chooses begins -/
  | begins {front back : List Job} {job : Job} (hqueue : queue = front ++ job :: back)
      (h : m.Begins P job.pid m') : Proceeds P m m' served queue (served ++ [job]) (front ++ back)

namespace Serving

variable {served queue : List Job}

theorem initial (sc : Scenario) (memory : σ) : (Machine.initial sc memory).Serving sc [] [] where
  jobs := List.mergeSort_perm _ _
  ready := rfl
  started _ hjob := absurd hjob List.not_mem_nil
  slots := rfl
  current h := by cases h
  vacant _ := Nat.le_refl 0
  prompt h := absurd h (Nat.lt_irrefl 0)
  pending h := absurd h (Nat.lt_irrefl 0)
  departed _ hgone := absurd hgone List.not_mem_nil

theorem mem_jobs (h : m.Serving sc served queue) {job : Job} (hjob : job ∈ served ++ queue) :
    job ∈ sc.jobs := h.jobs.subset (List.mem_append_left _ hjob)

/-- Whoever is in the queue has executed nothing: it has no slot by the timetable of those who have
begun. -/
theorem ran_eq_zero (hsc : sc.Sound) (h : m.Serving sc served queue) {job : Job}
    (hjob : job ∈ queue) : m.ran job.pid = 0 := by
  rw [ran, h.slots, List.countP_map, List.countP_eq_zero]
  intro tick _ hslot
  obtain ⟨x, hx, hpid, -⟩ := Timetable.exists_of_occupant (of_decide_eq_true hslot)
  have hserved := Timetable.job_mem_of_mem_stints hx
  -- Nobody is among those who have begun and in the queue.
  have hnodup : (served ++ queue ++ m.arrivals).Nodup :=
    h.jobs.nodup_iff.2 (hsc.pids_nodup.of_map _)
  have hsame := hsc.eq_of_pid (h.mem_jobs (List.mem_append_left _ hserved))
    (h.mem_jobs (List.mem_append_right _ hjob)) hpid
  exact List.disjoint_of_nodup_append (List.nodup_append.1 hnodup).1 hserved (hsame ▸ hjob)

/-- The current process has executed as often as it is old, by its slots and by the history. -/
theorem ran_eq_age (hsc : sc.Sound) (hm : m.Steady sc) (hc : m.Chronicled) {job : Job}
    (hjob : job ∈ sc.jobs) {p : Process} (hp : m.state.process? job.pid = some p) :
    m.ran job.pid = p.age ∧ p.age ≤ job.lifespan ∧ p.lifespan = job.lifespan := by
  rw [ran_eq_count]
  exact hc.count_executed_of_live hsc hm hjob hp

/-- Whoever is about to leave is done now by its stint, and all others who have begun are done:
`finish` is `now`. -/
theorem of_leaver (hsc : sc.Sound) (hm : m.Steady sc) (hc : m.Chronicled)
    (h : m.Serving sc served queue) (hleaver : m.state.leaver? = some pid) :
    Timetable.finish 0 served = m.now ∧
      ∃ x ∈ Timetable.stints 0 served, x.job.pid = pid ∧ x.done = m.now := by
  obtain ⟨hcur, p, hp, hage⟩ := State.leaver?_eq_some.1 hleaver
  obtain ⟨before, job, rfl, rfl, hnow⟩ := h.current hcur
  obtain ⟨hran, hle, hlife⟩ := ran_eq_age hsc hm hc (h.mem_jobs (by simp)) hp
  have hfinish : Timetable.finish 0 (before ++ [job]) = m.now := by omega
  refine ⟨hfinish, ⟨job, max (Timetable.finish 0 before) job.start⟩, ?_, rfl, ?_⟩
  · rw [Timetable.stints_concat]
    exact List.mem_append_right _ (List.mem_singleton_self _)
  · rw [← hfinish, Timetable.finish_concat]
    rfl

/-- If the processor is free, all who have begun are done: `finish` is not after `now`. -/
theorem finish_le_now (hsc : sc.Sound) (hm : m.Steady sc) (hc : m.Chronicled)
    (hfree : m.Unhindered) (h : m.Serving sc served queue) (hcon : m.state.contender? = none) :
    Timetable.finish 0 served ≤ m.now := by
  have hs := hm.stage.settled
  cases hcur : m.state.current with
  | none => exact h.vacant hcur
  | some pid =>
    have hrun := (hs.current_busy hcur).resolve_right (hfree.uncontended.status?_ne_blocked hs pid)
    rcases hs.leaver_or_contender hrun with hleaver | hgoes
    · exact (h.of_leaver hsc hm hc hleaver).1.le
    · rw [hcon] at hgoes
      cases hgoes

/-- Whoever has left, or leaves now, did so when it was done by its `Stint`. -/
theorem departed_of_choice (hsc : sc.Sound) (hm : m.Steady sc) (hc : m.Chronicled)
    (h : m.Serving sc served queue) (hnow : m.now = m.state.tick)
    (hdeparted : m'.departed =
      m.departed ++ m.state.leaver?.toList.map fun pid => (m.state.tick, pid)) :
    ∀ gone ∈ m'.departed,
      ∃ x ∈ Timetable.stints 0 served, x.job.pid = gone.2 ∧ x.done = gone.1 := by
  intro gone hgone
  rw [hdeparted, List.mem_append] at hgone
  rcases hgone with hgone | hgone
  · exact h.departed gone hgone
  · obtain ⟨pid, hpid, rfl⟩ := List.mem_map.1 hgone
    rw [← hnow]
    exact (h.of_leaver hsc hm hc (Option.mem_toList.1 hpid)).2

theorem stays (h : m.Serving sc served queue) (hstays : m.Stays m') :
    m'.Serving sc served queue where
  jobs := hstays.arrivals ▸ h.jobs
  ready := hstays.ready.trans h.ready
  started job hjob := (h.started job hjob).trans hstays.tick
  slots := by rw [hstays.slots, hstays.now, h.slots]
  current hcur := by
    rw [hstays.now, ran_congr hstays.slots]
    exact h.current (hstays.current ▸ hcur)
  vacant := by
    rw [hstays.current, hstays.now]
    exact h.vacant
  prompt := hstays.now.symm ▸ h.prompt
  pending := by
    rw [hstays.now, hstays.arrivals]
    exact h.pending
  departed := hstays.departed.symm ▸ h.departed

/-- A job that `Enters` the queue starts now, and the timetable of those who have begun stays. -/
theorem enters (hreg : m.Registered sc) (h : m.Serving sc served queue) {job : Job}
    (henters : m.Enters job m') : m'.Serving sc served (queue ++ [job]) where
  jobs := by
    have hjobs := h.jobs
    rw [henters.arrivals] at hjobs
    simpa using hjobs
  ready := by
    rw [henters.ready, h.ready, List.map_append]
    rfl
  started other hother := by
    rw [henters.tick]
    rcases List.mem_append.1 hother with hother | hother
    · exact h.started other hother
    · exact List.mem_singleton.1 hother ▸ henters.start
  slots := by rw [henters.slots, henters.now, h.slots]
  current hcur := by
    rw [henters.now, ran_congr henters.slots]
    exact h.current (henters.current ▸ hcur)
  vacant := by
    rw [henters.current, henters.now]
    exact h.vacant
  prompt hlt other hother := by
    have hcoming := hreg.coming job (henters.arrivals ▸ List.mem_cons_self ..)
    have hstart := henters.start
    have hundecided := henters.undecided
    rw [henters.now] at hlt ⊢
    rcases List.mem_append.1 hother with hother | hother
    · exact h.prompt hlt other hother
    · rw [List.mem_singleton.1 hother]
      omega
  pending _ := by simp
  departed := henters.departed.symm ▸ h.departed

/-- Whoever is taken out of a queue without doubles leaves the others as they were, in front and
behind. -/
theorem erase_of_nodup {front back : Queue} (h : (front ++ pid :: back).Nodup) :
    (front ++ pid :: back).erase pid = front ++ back := by
  have hfront : pid ∉ front := fun hin => (List.nodup_append.1 h).2.2 pid hin pid (by simp) rfl
  rw [List.erase_append_right _ hfront, List.erase_cons_head]

/-- A job begins now: it has started, and if the processor has been free before, it starts now. So
its stint is where the timetable has it. -/
theorem first_eq_now (h : m.Serving sc served queue) (hfree : Timetable.finish 0 served ≤ m.now)
    (hnow : m.now = m.state.tick) {job : Job} (hjob : job ∈ queue) :
    max (Timetable.finish 0 served) job.start = m.now := by
  have hstart := h.started job hjob
  rcases Nat.lt_or_eq_of_le hfree with hlt | heq
  · have hprompt := h.prompt hlt job hjob
    omega
  · omega

/-- A job that begins is done after as many ticks as it has to execute: with it at the end, the
timetable is `Serving` on. -/
theorem begins (hsc : sc.Sound) (hm : m.Steady sc) (hc : m.Chronicled) (hfree : m.Unhindered)
    {front back : List Job} {job : Job} (h : m.Serving sc served (front ++ job :: back))
    (hbegins : m.Begins P job.pid m') : m'.Serving sc (served ++ [job]) (front ++ back) := by
  have hjob : job ∈ front ++ job :: back := List.mem_append_right _ (List.mem_cons_self ..)
  have hfirst :=
    h.first_eq_now (h.finish_le_now hsc hm hc hfree hbegins.free) hbegins.undecided hjob
  have hfinish : Timetable.finish 0 (served ++ [job]) = m.now + job.lifespan := by
    rw [Timetable.finish_concat, hfirst]
  have hlate : ¬ Timetable.finish 0 (served ++ [job]) < m'.now := by
    rw [hfinish, hbegins.now]
    omega
  refine ⟨?_, ?_, ?_, ?_, ?_, ?_, fun hlt => absurd hlt hlate, fun hlt => absurd hlt hlate, ?_⟩
  · have hmiddle : (job :: (front ++ back)).Perm (front ++ job :: back) := List.perm_middle.symm
    have hjobs := ((hmiddle.append_left served).append_right m.arrivals).trans h.jobs
    rw [hbegins.arrivals]
    simpa using hjobs
  · have hnodup := hm.stage.settled.ready_nodup
    rw [h.ready, List.map_append, List.map_cons] at hnodup
    rw [hbegins.ready, h.ready, List.map_append, List.map_cons, erase_of_nodup hnodup,
      List.map_append]
  · intro other hother
    rw [hbegins.tick]
    have hsub := (List.sublist_cons_self job back).append_left front
    exact h.started other (hsub.subset hother)
  · rw [hbegins.slots, hbegins.now, h.slots]
    apply List.map_congr_left
    intro tick htick
    rw [Timetable.occupant_concat (hfirst ▸ List.mem_range.1 htick)]
  · intro pid hcur
    cases hbegins.current.symm.trans hcur
    refine ⟨served, job, rfl, rfl, ?_⟩
    rw [hbegins.now, hfinish, ran_congr hbegins.slots, h.ran_eq_zero hsc hjob, Nat.add_zero]
  · intro hnone
    cases hbegins.current.symm.trans hnone
  · intro gone hgone
    obtain ⟨x, hx, hpid⟩ :=
      h.departed_of_choice hsc hm hc hbegins.undecided hbegins.departed gone hgone
    refine ⟨x, ?_, hpid⟩
    rw [Timetable.stints_concat]
    exact List.mem_append_left _ hx

/-- In a tick that `Idles` the processor is free, and the timetable has nobody there either. -/
theorem idles (hsc : sc.Sound) (hm : m.Steady sc) (hc : m.Chronicled) (hfree : m.Unhindered)
    (h : m.Serving sc served queue) (hidles : m.Idles m') : m'.Serving sc served queue := by
  have hdone := h.finish_le_now hsc hm hc hfree hidles.free
  obtain rfl : queue = [] := List.map_eq_nil_iff.1 (h.ready.symm.trans hidles.empty)
  refine ⟨hidles.arrivals ▸ h.jobs, hidles.ready, by simp, ?_, ?_, ?_, by simp, ?_,
    h.departed_of_choice hsc hm hc hidles.undecided hidles.departed⟩
  · rcases hidles.slots with ⟨hslots, hnow⟩ | ⟨hslots, hnow, -⟩
    · rw [hslots, hnow, h.slots]
    · rw [hslots, hnow, h.slots, List.range_succ, List.map_append, List.map_singleton,
        Timetable.occupant_of_finish_le hdone]
  · intro pid hcur
    cases hidles.current.symm.trans hcur
  · intro _
    rcases hidles.slots with ⟨-, hnow⟩ | ⟨-, hnow, -⟩
    · exact hnow ▸ hdone
    · exact hnow ▸ Nat.le_succ_of_le hdone
  · intro hlt
    rw [hidles.arrivals]
    rcases hidles.slots with ⟨-, hnow⟩ | ⟨-, -, hleft⟩
    · exact h.pending (hnow ▸ hlt)
    · exact hleft

/-- Whoever `Executes` has the processor by the timetable: its stint covers the present tick. -/
theorem executes (hsc : sc.Sound) (hm : m.Steady sc) (hc : m.Chronicled)
    (h : m.Serving sc served queue) (hexecutes : m.Executes pid m') :
    m'.Serving sc served queue := by
  obtain ⟨before, job, rfl, rfl, hrest⟩ := h.current hexecutes.current
  obtain ⟨p, hp, hage⟩ := hexecutes.unfinished
  obtain ⟨hran, -, hlife⟩ := ran_eq_age hsc hm hc (h.mem_jobs (by simp)) hp
  have hfinish := Timetable.finish_concat 0 before job
  have hoccupant : Timetable.occupant 0 (before ++ [job]) m.now = some job.pid :=
    Timetable.occupant_concat_self (by omega) (by omega)
  have hlate : ¬ Timetable.finish 0 (before ++ [job]) < m'.now := by
    rw [hexecutes.now]
    omega
  refine ⟨hexecutes.arrivals ▸ h.jobs, hexecutes.ready.trans h.ready, hexecutes.tick ▸ h.started,
    ?_, ?_, ?_, fun hlt => absurd hlt hlate, fun hlt => absurd hlt hlate,
    hexecutes.departed.symm ▸ h.departed⟩
  · rw [hexecutes.slots, hexecutes.now, h.slots, List.range_succ, List.map_append,
      List.map_singleton, hoccupant]
  · intro pid hcur
    cases hexecutes.stays.symm.trans hcur
    refine ⟨before, job, rfl, rfl, ?_⟩
    rw [hexecutes.now, ran_concat hexecutes.slots]
    omega
  · intro hnone
    cases hexecutes.stays.symm.trans hnone

/-- Every stride leaves everybody served by a timetable, of an order that `Proceeds` from the one
before: each case of `Serves` is one of the steps above. -/
theorem strides (hsc : sc.Sound) (hnon : P.Nonpreemptive) (hm : m.Steady sc) (hc : m.Chronicled)
    (hfree : m.Unhindered) (hreg : m.Registered sc) (h : m.Serving sc served queue)
    (hstr : m.Strides P sc.limit m') :
    ∃ served' queue', m'.Serving sc served' queue' ∧
      m.Proceeds P m' served queue served' queue' := by
  cases hm.serves hsc hnon hfree hstr with
  | stays hstays => exact ⟨served, queue, h.stays hstays, .stays hstays.arrivals⟩
  | enters henters => exact ⟨served, _, h.enters hreg henters, .enters henters⟩
  | begins hbegins =>
    obtain ⟨job, hjob, rfl⟩ := List.mem_map.1 (h.ready ▸ hbegins.mem)
    obtain ⟨front, back, rfl⟩ := List.append_of_mem hjob
    exact ⟨_, _, h.begins hsc hm hc hfree hbegins, .begins rfl hbegins⟩
  | idles hidles =>
    exact ⟨served, queue, h.idles hsc hm hc hfree hidles, .stays hidles.arrivals⟩
  | executes hexecutes =>
    exact ⟨served, queue, h.executes hsc hm hc hexecutes, .stays hexecutes.arrivals⟩

end Serving

end Machine

namespace Scenario

variable {σ : Type} {sc : Scenario} {P : Policy σ} {memory : σ} {m : Machine σ}

/-- Wherever a run gets to in which nobody is replaced, everybody is served by the timetable of some
order, of which every `I` holds that holds at first and is kept by what the policy decides. -/
theorem Reaches.serving (hsc : sc.Admitted) (hP : P.Lawful) (hcons : P.Conserving)
    (hnon : P.Nonpreemptive) {I : Machine σ → List Job → List Job → Prop}
    (hinit : ∀ memory, I (Machine.initial sc memory) [] [])
    (hkeep : ∀ {m m' : Machine σ} {served queue served' queue' : List Job}, m.Steady sc →
      m.Punctual sc → m.Serving sc served queue → I m served queue →
      m.Proceeds P m' served queue served' queue' → I m' served' queue')
    (h : sc.Reaches P memory m) (hm : m.phase.isSwitching = false) :
    ∃ served queue, m.Serving sc served queue ∧ I m served queue := by
  refine h.invariant_of_reached hsc hP
    (I := fun m => ∃ served queue, m.Serving sc served queue ∧ I m served queue)
    (fun memory => ⟨[], [], .initial sc memory, hinit memory⟩) ?_ hm
  rintro m m' hm hreach ⟨served, queue, hserving, hI⟩ hstr -
  have hrest := hm.isSwitching_eq_false
  obtain ⟨hchron, -, -⟩ := hreach.chronicled hsc hP hrest
  obtain ⟨hreg, -, -, -⟩ := hreach.registered hsc hP hcons hrest
  obtain ⟨served', queue', hserving', hproceeds⟩ := hserving.strides hsc.sound hnon hm hchron
    (hreach.unhindered hsc hP hnon hrest) hreg hstr
  exact ⟨served', queue', hserving',
    hkeep hm (hreach.punctual hsc hP hcons hrest) hserving hI hproceeds⟩

end Scenario

end Uniprocessor
