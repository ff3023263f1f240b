import Uniprocessor.Proofs.Departure

/-!
# Attendance

Every tick is the turn of one process or of nobody (`Paced`), so the clock counts the work that has
been done. With what is known of arrivals and departures, processes come and go as they should: a
finished process stays behind only if no tick follows in which it could leave
(`Scenario.Admitted.attended`).
-/

namespace Uniprocessor

/-! ## One turn for every tick -/

namespace Happening

/-- Whether somebody executed, whoever it was. -/
def isExecuted : Happening → Bool
  | .executed _ => true
  | _ => false

/-- Whether somebody executed, or the tick was idle: what happens once in every tick of a run. -/
def isTurn : Happening → Bool
  | .executed _ | .idle => true
  | _ => false

end Happening

/-- How many turns have been taken in the present tick, which the clock has not counted yet: one
from the execution or the idle verdict to the end of the tick. -/
def Phase.taken : Phase → Nat
  | .returning .. | .releasing .. | .closing _ | .ending .deadlock | .over .deadlock => 1
  | _ => 0

namespace Machine

variable {σ : Type} {sc : Scenario} {P : Policy σ} {limit : Nat} {m m' : Machine σ}

/-- Every tick so far was somebody's or nobody's turn, and of one process only: there are as many
turns in the history as ticks taken. -/
def Paced (m : Machine σ) : Prop :=
  m.history.countP Happening.isTurn = m.state.tick + m.phase.taken

namespace Paced

theorem initial (sc : Scenario) (memory : σ) : (Machine.initial sc memory).Paced := rfl

theorem append (h : m.Paced) (later : List Happening) (hhistory : m'.history = m.history ++ later)
    (htick : m'.state.tick + m'.phase.taken =
      m.state.tick + m.phase.taken + later.countP Happening.isTurn) : m'.Paced := by
  rw [Paced, hhistory, List.countP_append, show m.history.countP _ = _ from h, htick]

/-- Every stride leaves a machine `Paced`: the clock moves once for every turn that is recorded. -/
theorem strides (h : m.Paced) (hstr : m.Strides P limit m') : m'.Paced := by
  have hleft : (m.state.leaver?.toList.map Happening.left).countP Happening.isTurn = 0 := by
    rw [List.countP_eq_zero]
    intro e he
    obtain ⟨pid, -, rfl⟩ := List.mem_map.1 he
    exact Bool.false_ne_true
  have htick := hstr.tick_eq
  cases hstr with
  | drain hphase =>
    refine h.append _ (history_carriedOut ..) ?_
    rw [htick (by simp [hphase]), hleft, hphase]
    rfl
  | @idle memory t hphase =>
    refine h.append (m.state.leaver?.toList.map .left ++ [.idle]) ?_ ?_
    · rw [history_push (m := m.carriedOut memory t none) rfl, history_carriedOut, List.append_assoc]
    · rw [htick (by simp [hphase]), List.countP_append, hleft, hphase]
      rfl
  | turn hphase =>
    refine h.append _ (history_carriedOut ..) ?_
    rw [htick (by simp [hphase]), hleft, hphase]
    rfl
  | arrive hphase =>
    exact h.append _ (history_record ..) (by rw [hphase]; rfl)
  | grant hphase _ _ _ _ _ ht =>
    refine h.append _ (history_record ..) ?_
    rw [htick (by simp [hphase]), hphase]
    rfl
  | refuse hphase =>
    refine h.append _ (history_record ..) ?_
    rw [htick (by simp [hphase]), hphase]
    rfl
  | execute hphase => exact h.append _ (history_record ..) (by rw [hphase]; rfl)
  | @release pid r waiters due x y memory t woken hphase =>
    refine h.append _ (history_release m memory t pid r y.waiters waiters due) ?_
    rw [htick (by simp [hphase]), List.countP_eq_zero.2, hphase]
    · rfl
    · intro e he
      rcases List.mem_cons.1 he with rfl | he
      · exact Bool.false_ne_true
      · obtain ⟨w, -, rfl⟩ := List.mem_map.1 he
        exact Bool.false_ne_true
  | @stick wasIdle hphase hstuck => exact h.append _ (List.append_nil _).symm (by rw [hphase]; rfl)
  | tick hphase => exact h.append _ (List.append_nil _).symm (by rw [hphase]; rfl)
  | @conclude exit memory hphase =>
    exact h.append _ (List.append_nil _).symm (by rw [hphase]; cases exit <;> rfl)
  | _ hphase => exact h.append _ (List.append_nil _).symm (by rw [hphase]; rfl)

end Paced

end Machine

/-! ## Work done -/

/-- The number of a job of which the numbers are not repeated is found once among them: how ticks
are counted job by job. -/
theorem sum_map_pid_eq_one {jobs : List Job} (hnodup : (jobs.map Job.pid).Nodup) {job : Job}
    (hjob : job ∈ jobs) :
    (jobs.map fun other => if job.pid = other.pid then 1 else 0).sum = 1 := by
  have hcount : ∀ l : List Job, (l.map fun other => if job.pid = other.pid then 1 else 0).sum =
      (l.map Job.pid).count job.pid := by
    intro l
    induction l with
    | nil => rfl
    | cons other rest ih =>
      rw [List.map_cons, List.sum_cons, ih, List.map_cons, List.count_cons, Nat.add_comm]
      refine congrArg _ ?_
      by_cases h : job.pid = other.pid
      · rw [if_pos h, if_pos (beq_iff_eq.2 h.symm)]
      · rw [if_neg h, if_neg fun he => h (beq_iff_eq.1 he).symm]
  rw [hcount, List.count_eq_one_of_mem hnodup (List.mem_map_of_mem hjob)]

/-- If only jobs execute, the happenings that `isExecuted` counts are those of the jobs, counted job
by job. -/
theorem History.countP_isExecuted {jobs : List Job} (hnodup : (jobs.map Job.pid).Nodup)
    {h : List Happening} (hjobs : ∀ pid, .executed pid ∈ h → ∃ job ∈ jobs, job.pid = pid) :
    h.countP Happening.isExecuted = (jobs.map fun job => h.count (.executed job.pid)).sum := by
  induction h with
  | nil => simp
  | cons e rest ih =>
    have hrest := ih fun pid hmem => hjobs pid (List.mem_cons_of_mem _ hmem)
    rw [List.countP_cons, hrest]
    simp only [List.count_cons, List.sum_map_add]
    congr 1
    cases e with
    | executed pid =>
      obtain ⟨job, hjob, rfl⟩ := hjobs pid (List.mem_cons_self ..)
      simpa [Happening.isExecuted] using (sum_map_pid_eq_one hnodup hjob).symm
    | _ => simp [Happening.isExecuted]

theorem History.countP_isTurn (h : List Happening) :
    h.countP Happening.isTurn = h.countP Happening.isExecuted + h.count .idle := by
  induction h with
  | nil => rfl
  | cons e rest ih =>
    rw [List.countP_cons, ih, List.countP_cons, List.count_cons]
    cases e <;> simp [Happening.isTurn, Happening.isExecuted] <;> omega

namespace Scenario

variable {σ : Type} {sc : Scenario} {P : Policy σ} {memory : σ} {m : Machine σ}

/-- The work of a scenario is `totalLifespan`, unless that passes the largest tick, where the
saturating sum stops. -/
theorem work_eq (sc : Scenario) : sc.work = min largestTick sc.totalLifespan := by
  have key : ∀ (jobs : List Job) (n : Nat), n ≤ largestTick →
      jobs.foldl (fun total job => min largestTick (total + job.lifespan)) n =
        min largestTick (n + (jobs.map Job.lifespan).sum) := by
    intro jobs
    induction jobs with
    | nil =>
      intro n hn
      simp [Nat.min_eq_right hn]
    | cons job rest ih =>
      intro n _
      rw [List.foldl_cons, ih _ (Nat.min_le_left ..), List.map_cons, List.sum_cons]
      omega
  rw [work, key sc.jobs 0 (Nat.zero_le _), Nat.zero_add, totalLifespan]

/-- Wherever a run gets to, jobs have arrived when they should, events are in their places, and the
clock has counted the turns: the four invariants of attendance, with `Punctual` and `Chronicled` for
their strides. -/
theorem Reaches.registered (hsc : sc.Admitted) (hP : P.Lawful) (hcons : P.Conserving)
    (h : sc.Reaches P memory m) (hm : m.phase.isSwitching = false) :
    m.Registered sc ∧ m.InPlace sc ∧ m.Retiring ∧ m.Paced := by
  refine (h.invariant (I := fun m => m.Chronicled ∧ m.Punctual sc ∧ m.Registered sc ∧ m.InPlace sc ∧
    m.Retiring ∧ m.Paced) hsc hP (fun memory => ?_) (fun hm hI hstr => ?_) hm).2.2
  · exact ⟨.initial sc memory, .initial sc memory, .initial sc memory, .initial sc memory,
      .initial sc memory, .initial sc memory⟩
  · obtain ⟨hchron, hpunct, hreg, hplace, hret, hpaced⟩ := hI
    exact ⟨hchron.episode hm (hm.episode hstr), hpunct.strides hsc.sound hm hcons hstr,
      hreg.strides hm hpunct hstr, hplace.strides hm hchron hret hstr,
      hret.strides hsc.sound hm hstr, hpaced.strides hstr⟩

/-- A process that has executed its lifespan and not left, when the run is over, was stopped by the
limit right after its last tick: otherwise the next choice would have dismissed it. -/
theorem Reaches.unserved (hsc : sc.Admitted) (hP : P.Lawful) (hcons : P.Conserving)
    (h : sc.Reaches P memory m) {exit : Exit} (hphase : m.phase = .over exit) {job : Job}
    (hjob : job ∈ sc.jobs) (hcount : m.history.count (.executed job.pid) = job.lifespan)
    (hstay : .left job.pid ∉ m.history) : exit = .tickLimit ∧ ∃ tick, m.state.tick = tick + 1 ∧
      Trace.lastExecution m.events.toList job.pid = some tick := by
  have hrest := Phase.isSwitching_of_over hphase
  have hsteady := h.steady hsc hP hrest
  obtain ⟨hchron, -, -⟩ := h.chronicled hsc hP hrest
  obtain ⟨-, -, hret, -⟩ := h.registered hsc hP hcons hrest
  -- It is live, and finished, so it executes still and is current.
  have hran : .executed job.pid ∈ m.history := by
    rw [← List.count_pos_iff, hcount]
    exact (hsc.sound.jobs job hjob).lifespan_pos
  obtain ⟨p, hp⟩ := hchron.told.process?_of_mem (hchron.heard hran rfl) hstay
  obtain ⟨hage, -, hlife⟩ := hchron.count_executed_of_live hsc.sound hsteady hjob hp
  have hfin : p.lifespan ≤ p.age := by omega
  have hrun := (hsteady.stage.unfinished hp).resolve_left (Nat.not_lt.2 hfin)
  have hcur := hsteady.stage.settled.running_current
    (by rw [State.status?_of_process? hp, hrun])
  obtain ⟨tick, hlast, htick⟩ := hret.last (State.leaver?_eq_some.2 ⟨hcur, p, hp, hfin⟩)
  rw [hphase] at htick
  refine ⟨?_, tick, htick, hlast⟩
  have hend := h.accounts hsc hP hphase
  cases exit with
  | normal => exact absurd (State.mem_of_process? hp) (hend.2 ▸ List.not_mem_nil)
  | deadlock =>
    have hblocked := hend.2.2 p (State.mem_of_process? hp)
    rw [hrun] at hblocked
    cases hblocked
  | tickLimit => rfl

/-- In a run that has ended normally all work has been done, in the ticks that were not idle:
`Paced` counts the ticks, and every job has left. -/
theorem Reaches.work_of_normal (hsc : sc.Admitted) (hP : P.Lawful) (hcons : P.Conserving)
    (h : sc.Reaches P memory m) (hphase : m.phase = .over .normal) :
    m.history.countP Happening.isExecuted = sc.work ∧
      m.history.count .idle + sc.work = m.state.tick := by
  have hrest := Phase.isSwitching_of_over hphase
  obtain ⟨hchron, henr, -⟩ := h.chronicled hsc hP hrest
  obtain ⟨-, -, -, hpaced⟩ := h.registered hsc hP hcons hrest
  have hlimit := (h.punctual hsc hP hcons hrest).limit
  have hexec : m.history.countP Happening.isExecuted = sc.totalLifespan := by
    rw [History.countP_isExecuted hsc.sound.pids_nodup fun pid hmem =>
      henr.listed (hchron.heard hmem rfl)]
    refine congrArg List.sum (List.map_congr_left fun job hjob => ?_)
    exact henr.served hjob (h.left_of_normal hsc hP hphase hjob)
  have hturns : m.history.countP Happening.isTurn = m.state.tick + m.phase.taken := hpaced
  rw [History.countP_isTurn, hexec, hphase] at hturns
  have hturns : sc.totalLifespan + m.history.count .idle = m.state.tick := hturns
  -- The clock has not passed the largest tick, so neither has the work.
  have hwork : sc.work = sc.totalLifespan := by
    rw [work_eq]
    exact Nat.min_eq_right (by have := hsc.limit_le; omega)
  rw [hwork]
  exact ⟨hexec, by omega⟩

/-- A trace is that of a run which has reached its end, so what holds at every machine that is
reached holds there. -/
theorem reaches_of_trace? {fuel : Nat} {t : Trace}
    (h : (sc.run P memory fuel).trace? = some t) :
    ∃ m, sc.Reaches P memory m ∧ m.phase = .over t.exit ∧ m.events.toList = t.events ∧
      m.state.tick = t.endTick := by
  rcases hrun : (sc.run P memory fuel).outcome with exit | _ | _ | _
  · simp only [Run.trace?, hrun] at h
    cases h
    obtain ⟨hreach, hphase⟩ := reaches_of_ended hrun
    exact ⟨_, hreach, hphase, rfl, rfl⟩
  · simp [Run.trace?, hrun] at h
  · simp [Run.trace?, hrun] at h
  · simp [Run.trace?, hrun] at h

/-- A run that reaches its end has the trace that it has recorded: `stepBound` is fuel enough to get
there. -/
theorem Reaches.trace?_of_over (hsc : sc.Admitted) (hP : P.Lawful) (h : sc.Reaches P memory m)
    {exit : Exit} (hphase : m.phase = .over exit) :
    (sc.run P memory sc.stepBound).trace? = some ⟨m.events.toList, exit, m.state.tick⟩ := by
  obtain ⟨hmachine, hended⟩ := h.run_of_over hsc hP hphase
  rw [Run.trace?, hended, hmachine]

end Scenario

/-! ## The processes of a run -/

/-- The processes of a run come and go as they should, said of its trace alone. -/
structure Trace.Attended (sc : Scenario) (t : Trace) : Prop where
  /-- a process with a start before the limit arrives once, at its start -/
  arrives : ∀ job ∈ sc.jobs, job.start < sc.limit →
    (t.events.filter fun e => e.what = .arrived job.pid) = [⟨job.start, .arrived job.pid⟩]
  /-- processes arrive by start, and as listed if they start in the same tick -/
  order : t.events.filterMap Event.arrival? =
    ((sc.jobs.mergeSort fun a b => a.start ≤ b.start).filter fun job => job.start < sc.limit).map
      fun job => (job.start, job.pid)
  /-- nothing is heard of a process before it arrives or after it leaves, and it leaves one tick
  after the last of as many executed ones as its lifespan has -/
  placed : ∀ before e after, t.events = before ++ e :: after → e.Placed sc before
  /-- who has executed its lifespan and not left was stopped by the limit, right after its turn -/
  unserved : ∀ job ∈ sc.jobs, t.ranCount job.pid = job.lifespan →
    (∀ tick, ⟨tick, .left job.pid⟩ ∉ t.events) → t.exit = .tickLimit ∧
      ∃ tick, t.endTick = tick + 1 ∧ lastExecution t.events job.pid = some tick
  /-- in a run that ends normally everybody leaves, and all work is done in the ticks that are not
  idle -/
  normal : t.exit = .normal → (∀ job ∈ sc.jobs, ∃ tick, ⟨tick, .left job.pid⟩ ∈ t.events) ∧
    (t.events.countP fun e => e.what.isExecuted) = sc.work ∧ t.idleTicks + sc.work = t.endTick

namespace Scenario

variable {sc : Scenario}

/-- In every run there is **regular attendance**: whoever starts before the limit arrives once and
when it should, nothing is heard of it before or after it has left, and it leaves one tick after the
last one of its lifespan, unless the limit stops the run first: the trace is `Trace.Attended`. -/
theorem Admitted.attended (h : sc.Admitted) (d : Discipline) (memory : Memory) {fuel : Nat}
    {t : Trace} (ht : (sc.run d.policy memory fuel).trace? = some t) : t.Attended sc := by
  obtain ⟨m, hreach, hphase, hevents, htick⟩ := reaches_of_trace? ht
  have hrest := Phase.isSwitching_of_over hphase
  obtain ⟨hreg, hplace, -, -⟩ := hreach.registered h d.lawful d.conserving hrest
  have horder := hreg.arrived_eq (hreach.accounts h d.lawful hphase)
  rw [Machine.arrived, hevents] at horder
  have hleft : ∀ {pid : Pid}, .left pid ∈ m.history ↔ ∃ tick, ⟨tick, .left pid⟩ ∈ t.events := by
    intro pid
    rw [Machine.mem_history, hevents]
  refine ⟨fun job hjob hlimit => filter_arrived_of_order h.sound horder hjob hlimit, horder,
    fun before e after heq => hplace _ _ _ (hevents.trans heq), fun job hjob hran hstay => ?_,
    fun hexit => ?_⟩
  · have hcount : m.history.count (.executed job.pid) = job.lifespan := by
      rw [Machine.count_history, hevents]
      exact hran
    obtain ⟨hexit, tick, hend, hlast⟩ := hreach.unserved h d.lawful d.conserving hphase hjob hcount
      fun hmem => (hleft.1 hmem).elim hstay
    exact ⟨hexit, tick, htick ▸ hend, hevents ▸ hlast⟩
  · rw [hexit] at hphase
    obtain ⟨hwork, hidle⟩ := hreach.work_of_normal h d.lawful d.conserving hphase
    refine ⟨fun job hjob => hleft.1 (hreach.left_of_normal h d.lawful hphase hjob), ?_, ?_⟩
    · rw [Machine.history, List.countP_map, hevents] at hwork
      exact hwork
    · rw [Machine.count_history, hevents, htick] at hidle
      exact hidle

/-- Of the crowded processes each arrives once and leaves, the last of them in the tick after the
last executed one; the run has four ticks to execute, and none of its ticks is idle. -/
theorem attended_crowded :
    ∃ t, (crowded.run Discipline.roundRobin.policy none crowded.stepBound).trace? = some t ∧
      t.exit = .normal ∧ t.endTick = 4 ∧
      (t.events.filter fun e => e.what = .arrived 3) = [⟨0, .arrived 3⟩] ∧
      t.idleTicks + crowded.work = 4 ∧
      t.events = t.events.take 19 ++ [⟨4, .left 3⟩] ∧
      Event.Placed crowded (t.events.take 19) ⟨4, .left 3⟩ := by
  have hm : crowded.Reaches Discipline.roundRobin.policy none _ := .of_sorted (by decide) rfl 60
  have ht := hm.trace?_of_over admitted_crowded Discipline.roundRobin.lawful
    (rfl : _ = Phase.over .normal)
  have hatt := admitted_crowded.attended .roundRobin none ht
  obtain ⟨-, -, hidle⟩ := hatt.normal rfl
  have hthird : (⟨3, 0, 1, 0, [⟨0, 0, 1⟩]⟩ : Job) ∈ crowded.jobs := by decide
  exact ⟨_, ht, rfl, rfl, hatt.arrives _ hthird (by decide), hidle, rfl, hatt.placed _ _ [] rfl⟩

end Scenario

end Uniprocessor
