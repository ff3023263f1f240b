import Uniprocessor.Proofs.Behind
import Uniprocessor.Proofs.Deadlock

/-!
# Idle time is the same under every discipline

How much work there is does not depend on who does it. As long as what has been offered by the jobs
that have started is not all worked off, somebody executes, and one tick of it is worked off
(`Scenario.workedOff`). A run that ends normally keeps to this (`Machine.Diligent`): whoever
executes works something off that has been offered, and in an idle tick nobody is left who waits,
since processes that all wait would wait for ever. So two runs that end normally are idle in the
same ticks and end in the same tick (`Scenario.Admitted.idle_unique`), whoever has the processor in
the others.
-/

namespace Uniprocessor

/-! ## The work there is -/

/-- What a job has to execute at a tick: its lifespan once it has started, and nothing before. -/
def Job.offers (job : Job) (tick : Nat) : Nat := if job.start ≤ tick then job.lifespan else 0

theorem Job.offers_le (job : Job) (tick : Nat) : job.offers tick ≤ job.lifespan := by
  rw [offers]
  split
  · exact Nat.le_refl _
  · exact Nat.zero_le _

theorem Job.offers_of_start_le {job : Job} {tick : Nat} (h : job.start ≤ tick) :
    job.offers tick = job.lifespan := if_pos h

theorem Job.offers_of_lt_start {job : Job} {tick : Nat} (h : tick < job.start) :
    job.offers tick = 0 := if_neg (Nat.not_le.2 h)

namespace Scenario

/-- What all jobs together have to execute that have started by the tick, each as `Job.offers` has
it. -/
def offered (sc : Scenario) (tick : Nat) : Nat := (sc.jobs.map fun job => job.offers tick).sum

/-- How much has been executed before a tick, if somebody executes whenever there is work: no
discipline is spoken of here. -/
def workedOff (sc : Scenario) : Nat → Nat
  | 0 => 0
  | tick + 1 =>
    if sc.workedOff tick < sc.offered tick then sc.workedOff tick + 1 else sc.workedOff tick

/-- Whether there is work in a tick: more is offered by then than is worked off. -/
def hasWork (sc : Scenario) (tick : Nat) : Bool := sc.workedOff tick < sc.offered tick

variable {sc : Scenario}

theorem hasWork_eq_true {tick : Nat} :
    sc.hasWork tick = true ↔ sc.workedOff tick < sc.offered tick := decide_eq_true_iff

theorem offered_le (sc : Scenario) (tick : Nat) : sc.offered tick ≤ sc.totalLifespan :=
  List.sum_le_sum fun job _ => job.offers_le tick

/-- What has been worked off is counted by the ticks before that the scenario `hasWork` in. -/
theorem workedOff_eq_countP (sc : Scenario) (tick : Nat) :
    sc.workedOff tick = (List.range tick).countP sc.hasWork := by
  induction tick with
  | zero => rfl
  | succ tick ih =>
    rw [workedOff, List.range_succ, List.countP_append, ← ih, List.countP_singleton]
    by_cases hwork : sc.workedOff tick < sc.offered tick
    · rw [if_pos hwork, if_pos (hasWork_eq_true.2 hwork)]
    · rw [if_neg hwork, if_neg fun h => hwork (hasWork_eq_true.1 h)]
      rfl

end Scenario

/-! ## Who has worked on it -/

namespace Scenario.Reaches

variable {σ : Type} {sc : Scenario} {P : Policy σ} {memory : σ} {m m' : Machine σ} {job : Job}

/-- A job that has arrived has started, by the present tick, as the machine is `Registered`. -/
theorem start_le_of_arrived (hsc : sc.Admitted) (hP : P.Lawful) (hcons : P.Conserving)
    (h : sc.Reaches P memory m) (hm : m.phase.isSwitching = false) (hjob : job ∈ sc.jobs)
    (harrived : .arrived job.pid ∈ m.history) : job.start ≤ m.state.tick := by
  obtain ⟨tick, he⟩ := Machine.mem_history.1 harrived
  obtain ⟨hreg, -, -, -⟩ := h.registered hsc hP hcons hm
  rw [← hreg.tick_eq_start hsc.sound hjob he]
  exact (h.refusedOnce hsc hP hm).past _ he

/-- No job has executed more than it `offers`: its lifespan, and nothing before it starts. -/
theorem count_executed_le (hsc : sc.Admitted) (hP : P.Lawful) (hcons : P.Conserving)
    (h : sc.Reaches P memory m) (hm : m.phase.isSwitching = false) (hjob : job ∈ sc.jobs) :
    m.history.count (.executed job.pid) ≤ job.offers m.state.tick := by
  obtain ⟨hchron, henr, -⟩ := h.chronicled hsc hP hm
  rcases henr.known hjob with hpending | harrived
  · rw [hchron.count_executed_of_pending hpending]
    exact Nat.zero_le _
  · rw [Job.offers_of_start_le (h.start_le_of_arrived hsc hP hcons hm hjob harrived)]
    exact henr.count_executed_le hsc.sound (h.steady hsc hP hm) hchron hjob

/-- While a live process is not finished, there is work: what has been executed is less than what is
`offered`. -/
theorem busy_lt_offered (hsc : sc.Admitted) (hP : P.Lawful) (hcons : P.Conserving)
    (h : sc.Reaches P memory m) (hm : m.phase.isSwitching = false) {pid : Pid} {p : Process}
    (hp : m.state.process? pid = some p) (hage : p.age < p.lifespan) :
    m.busy < sc.offered m.state.tick := by
  obtain ⟨hchron, henr, -⟩ := h.chronicled hsc hP hm
  have hsteady := h.steady hsc hP hm
  obtain ⟨job, hjob, -, rfl, -⟩ := hsteady.stage.plays hp
  rw [← henr.executedTicks_eq hsc.sound hchron]
  refine List.sum_lt_sum _ _ (fun other => h.count_executed_le hsc hP hcons hm) ⟨job, hjob, ?_⟩
  obtain ⟨hcount, -, hlife⟩ := hchron.count_executed_of_live hsc.sound hsteady hjob hp
  have harrived := (hchron.told.of_process? hp).1
  rw [Job.offers_of_start_le (h.start_le_of_arrived hsc hP hcons hm hjob harrived), hcount, ← hlife]
  exact hage

/-- When nobody is live and everybody has arrived whose start has come, all work has been done: as
much has been executed as is `offered`. -/
theorem busy_eq_offered (hsc : sc.Admitted) (hP : P.Lawful) (hcons : P.Conserving)
    (h : sc.Reaches P memory m) (hm : m.phase.isSwitching = false)
    (hgathered : m.phase.isGathered = true) (hprocs : m.state.procs = []) :
    m.busy = sc.offered m.state.tick := by
  obtain ⟨hchron, henr, -⟩ := h.chronicled hsc hP hm
  rw [← henr.executedTicks_eq hsc.sound hchron]
  refine congrArg List.sum (List.map_congr_left fun job hjob => ?_)
  rcases henr.known hjob with hpending | harrived
  · rw [hchron.count_executed_of_pending hpending,
      Job.offers_of_lt_start ((h.punctual hsc hP hcons hm).gathered hgathered job hpending)]
  · have hleft : .left job.pid ∈ m.history := by
      by_contra hstay
      obtain ⟨p, hp⟩ := hchron.told.process?_of_mem harrived hstay
      exact absurd (State.mem_of_process? hp) (hprocs ▸ List.not_mem_nil)
    rw [henr.served hjob hleft,
      Job.offers_of_start_le (h.start_le_of_arrived hsc hP hcons hm hjob harrived)]

/-- In a run that ends normally nobody ever waits in a circle, since those who do are stuck up to
the end of the run. -/
theorem not_circularWait (hsc : sc.Admitted) (hP : P.Lawful) (h : sc.Reaches P memory m)
    {last : Machine σ} (hlast : sc.Reaches P memory last) (hphase : last.phase = .over .normal)
    (c : Cycle Pid) : ¬ m.state.CircularWait c := by
  intro hc
  obtain ⟨-, -, hlead⟩ := h.run_ended hsc hP
  rw [(hlast.run_of_over hsc hP hphase).1] at hlead
  -- The processes of the circle would be live in the end.
  obtain ⟨w, hw⟩ := hc.exists_mem
  obtain ⟨p, hp⟩ :=
    State.exists_process?_of_status? ((h.stuck_of_leads hsc hP hc hlead).blocked w hw)
  obtain ⟨-, hprocs⟩ := hlast.accounts hsc hP hphase
  exact absurd (State.mem_of_process? hp) (hprocs ▸ List.not_mem_nil)

/-- In an idle tick of a run that ends normally nobody is live: otherwise everybody live would wait,
and somebody in a circle. -/
theorem procs_of_idle (hsc : sc.Admitted) (hP : P.Lawful) (hcons : P.Conserving)
    (h : sc.Reaches P memory m) (hm : m.Steady sc) (hstr : m.Strides P sc.limit m')
    (h' : sc.Reaches P memory m') (hphase : m.phase = .choosing)
    (hphase' : m'.phase = .closing true)
    {last : Machine σ} (hlast : sc.Reaches P memory last) (hover : last.phase = .over .normal) :
    m'.state.procs = [] := by
  have hm' := hm.strides hsc.sound hstr
  have hwakeful : m'.Wakeful := (h.invariant hsc hP
    (fun memory => Machine.Wakeful.initial sc memory)
    (fun hm hI hstr => hI.strides hm hstr) hm.isSwitching_eq_false).strides hm hstr
  by_contra hlive
  have hall : ∀ p ∈ m'.state.procs, p.status = .blocked := by
    cases hstr with
    | @idle memory t _ hok hchose hwork =>
      have hst := hm.stage_of hphase
      have hstate : ({ (m.carriedOut memory t none).record .idle with
        phase := .closing true } : Machine σ).state = m.state.switched t none :=
        Machine.carriedOut_state ..
      rw [hstate]
      exact fun p hp => (hcons hst.settled hok).blocked_of_switched hst.settled
        (fun _ => hst.status?_leaver) hchose (hst.switched hsc.sound hchose).settled hp
    | drain => cases hphase'
    | turn => cases hphase'
    | _ hother => cases hphase.symm.trans hother
  obtain ⟨c, hc⟩ := (hwakeful.deadlocked hm' (by simp [hphase']) hall hlive).circle
  exact h'.not_circularWait hsc hP hlast hover c hc

end Scenario.Reaches

/-! ## Somebody executes as long as there is work -/

namespace Machine

variable {σ : Type} {sc : Scenario} {P : Policy σ} {m m' : Machine σ}

/-- Somebody has executed in a tick if there was work in it, and not all work was done before: the
slots so far are as `hasWork` says. -/
structure Diligent (sc : Scenario) (m : Machine σ) : Prop where
  /-- the ticks in which somebody executed are those in which there was work -/
  turns : (m.slots.map fun slot => (slot.1, slot.2.isSome)) =
    (List.range m.now).map fun tick => (tick, sc.hasWork tick)
  /-- not all work was done before any of these ticks -/
  unfinished : ∀ tick < m.now, sc.workedOff tick < sc.totalLifespan

namespace Diligent

theorem initial (sc : Scenario) (memory : σ) : (Machine.initial sc memory).Diligent sc where
  turns := rfl
  unfinished _ h := absurd h (Nat.not_lt_zero _)

/-- As much has been executed as there was work: a `Diligent` machine has been busy in the ticks
that `workedOff` counts. -/
theorem busy_eq (h : m.Diligent sc) : m.busy = sc.workedOff m.now := by
  have hcount := congrArg (List.countP Prod.snd) h.turns
  rw [List.countP_map, List.countP_map] at hcount
  rw [sc.workedOff_eq_countP]
  exact hcount

/-- One more tick has to be looked at: its slot is somebody's if and only if it `hasWork`. -/
theorem concat (h : m.Diligent sc) {who : Option Pid}
    (hslots : m'.slots = m.slots ++ [(m.now, who)])
    (hnow : m'.now = m.now + 1) (hwho : who.isSome = sc.hasWork m.now)
    (hwork : sc.workedOff m.now < sc.totalLifespan) : m'.Diligent sc where
  turns := by
    rw [hslots, hnow, List.map_append, h.turns, List.range_succ, List.map_append,
      List.map_singleton, List.map_singleton, hwho]
  unfinished tick htick := by
    rw [hnow] at htick
    rcases Nat.lt_succ_iff_lt_or_eq.1 htick with hlt | rfl
    · exact h.unfinished tick hlt
    · exact hwork

/-- Every stride of a run that ends normally leaves a machine `Diligent`: somebody executes by
`busy_lt_offered`, or the tick is idle by `busy_eq_offered`. -/
theorem strides (hsc : sc.Admitted) (hP : P.Lawful) (hcons : P.Conserving) {memory : σ}
    (hreach : sc.Reaches P memory m) (hm : m.Steady sc) (hstr : m.Strides P sc.limit m')
    (hreach' : sc.Reaches P memory m') {last : Machine σ} (hlast : sc.Reaches P memory last)
    (hover : last.phase = .over .normal) (h : m.Diligent sc) : m'.Diligent sc := by
  rcases hstr.slots with ⟨hslots, hnow, -⟩ | ⟨hnow, htick, ⟨pid, hphase, hslots⟩ |
    ⟨hphase, hphase', hslots⟩⟩
  · exact ⟨by rw [hslots, hnow, h.turns], hnow ▸ h.unfinished⟩
  · -- Whoever executes has something to execute.
    obtain ⟨-, p, -, hp, -, hage, -⟩ := hm.fits_of hphase
    have hlt := hreach.busy_lt_offered hsc hP hcons hm.isSwitching_eq_false hp hage
    rw [h.busy_eq, ← htick] at hlt
    exact h.concat hslots hnow (Scenario.hasWork_eq_true.2 hlt).symm
      (Nat.lt_of_lt_of_le hlt (sc.offered_le _))
  · -- Nobody is left who has something to execute, and somebody is still to come.
    have hm' := hm.strides hsc.sound hstr
    have hrest' := hm'.isSwitching_eq_false
    have hprocs := hreach.procs_of_idle hsc hP hcons hm hstr hreach' hphase hphase' hlast hover
    have hsame : m'.busy = m.busy := by
      rw [busy, hslots, List.countP_append]
      rfl
    have hdone := hreach'.busy_eq_offered hsc hP hcons hrest' (by rw [hphase']; rfl) hprocs
    rw [hsame, h.busy_eq, hstr.tick_eq (by simp [hphase]), ← htick] at hdone
    have harrivals : m'.arrivals ≠ [] := by
      cases hstr with
      | idle _ _ _ hwork =>
        intro hnil
        refine hwork ⟨?_, (carriedOut_arrivals ..).symm.trans hnil⟩
        exact (congrArg State.procs (carriedOut_state ..)).symm.trans hprocs
      | drain => cases hphase'
      | turn => cases hphase'
      | _ hother => cases hphase.symm.trans hother
    have hleft : m'.isWindingDown = false := by
      rw [Bool.eq_false_iff]
      exact fun hdown => harrivals (isWindingDown_eq_true.1 hdown).1
    obtain ⟨hchron, henr, -⟩ := hreach'.chronicled hsc hP hrest'
    have hlt := henr.executedTicks_lt hsc.sound hm' hchron hleft
    rw [henr.executedTicks_eq hsc.sound hchron, hsame, h.busy_eq] at hlt
    refine h.concat hslots hnow ?_ hlt
    rw [Option.isSome_none, eq_comm, Bool.eq_false_iff]
    exact fun hwork => absurd (Scenario.hasWork_eq_true.1 hwork) (Nat.not_lt.2 hdone.ge)

end Diligent

end Machine

/-- The idle ticks can be read off `slotsOf`: those slots that nobody has. -/
theorem Trace.filter_idle (events : List Event) : (events.filter fun e => e.what = .idle) =
    ((slotsOf events).map fun slot => (slot.1, slot.2.isSome)).filterMap fun slot =>
      if slot.2 then none else some ⟨slot.1, .idle⟩ := by
  rw [slotsOf, List.map_filterMap, List.filterMap_filterMap, ← List.filterMap_eq_filter]
  refine List.filterMap_congr fun e _ => ?_
  obtain ⟨tick, what⟩ := e
  cases what <;> rfl

namespace Scenario

variable {sc : Scenario}

/-- A run that ends normally is idle when there is no work, and ends when all work is done: both are
said by the scenario alone. -/
theorem Reaches.diligent {σ : Type} {P : Policy σ} {memory : σ} {last : Machine σ}
    (hsc : sc.Admitted)
    (hP : P.Lawful) (hcons : P.Conserving) (hlast : sc.Reaches P memory last)
    (hover : last.phase = .over .normal) :
    last.Diligent sc ∧ sc.workedOff last.state.tick = sc.totalLifespan := by
  have hrest := Phase.isSwitching_of_over hover
  have hdiligent : last.Diligent sc := hlast.invariant_of_reached hsc hP
    (fun memory => .initial sc memory) (fun hm hreach hI hstr hreach' =>
      hI.strides hsc hP hcons hreach hm hstr hreach' hlast hover) hrest
  refine ⟨hdiligent, ?_⟩
  obtain ⟨hchron, henr, -⟩ := hlast.chronicled hsc hP hrest
  rw [← Machine.now_of_over hover nofun, ← hdiligent.busy_eq,
    ← henr.executedTicks_eq hsc.sound hchron]
  refine congrArg List.sum (List.map_congr_left fun job hjob => ?_)
  exact henr.served hjob (hlast.left_of_normal hsc hP hover hjob)

/-- Over all disciplines, **idle time is unique**: two runs of a scenario that end normally are idle
in the same ticks and end in the same tick, under whichever disciplines they are. -/
theorem Admitted.idle_unique (h : sc.Admitted) (d d' : Discipline) (memory memory' : Memory)
    {fuel fuel' : Nat} {t t' : Trace} (ht : (sc.run d.policy memory fuel).trace? = some t)
    (ht' : (sc.run d'.policy memory' fuel').trace? = some t') (hexit : t.exit = .normal)
    (hexit' : t'.exit = .normal) :
    (t.events.filter fun e => e.what = .idle) = (t'.events.filter fun e => e.what = .idle) ∧
      t.endTick = t'.endTick := by
  obtain ⟨m, hreach, hphase, hevents, htick⟩ := reaches_of_trace? ht
  obtain ⟨m', hreach', hphase', hevents', htick'⟩ := reaches_of_trace? ht'
  rw [hexit] at hphase
  rw [hexit'] at hphase'
  obtain ⟨hdiligent, hall⟩ := hreach.diligent h d.lawful d.conserving hphase
  obtain ⟨hdiligent', hall'⟩ := hreach'.diligent h d'.lawful d'.conserving hphase'
  have hnow := Machine.now_of_over hphase nofun
  have hnow' := Machine.now_of_over hphase' nofun
  -- All work is done at the end of either run and not before it.
  have hsame : m.state.tick = m'.state.tick := by
    rcases Nat.lt_trichotomy m.state.tick m'.state.tick with hlt | heq | hlt
    · exact absurd hall (Nat.ne_of_lt (hdiligent'.unfinished _ (hnow' ▸ hlt)))
    · exact heq
    · exact absurd hall' (Nat.ne_of_lt (hdiligent.unfinished _ (hnow ▸ hlt)))
  refine ⟨?_, htick.symm.trans (hsame.trans htick')⟩
  have hturns := hdiligent.turns.trans
    ((hnow.trans (hsame.trans hnow'.symm)) ▸ hdiligent'.turns.symm)
  rw [Trace.filter_idle, Trace.filter_idle, ← hevents, ← hevents']
  exact congrArg _ hturns

/-- Two processes that ask for one resource, the second one later and more urgent, and a third one
that comes when both have left. -/
def paused : Scenario where
  resourceCount := 1
  ceiling := 9
  limit := 100
  jobs := [
    { pid := 1, lifespan := 3, prio := 1, requests := [⟨0, 0, 3⟩] },
    { pid := 2, start := 1, lifespan := 2, prio := 5, requests := [⟨0, 0, 1⟩] },
    { pid := 3, start := 7, lifespan := 1, prio := 3 }]

theorem admitted_paused : paused.Admitted where
  built := ⟨⟨1, 9, 100, paused.jobs, 3⟩, rfl⟩
  lifespan_lt := by decide
  limit_le := by decide

/-- The second of the paused processes has to wait for the resource under round robin, and not under
the priority ceiling, where nobody goes before its owner. Before the third one comes, both runs are
idle for two ticks, and both end one tick after it has come. -/
theorem idle_unique_paused : ∃ t t',
    (paused.run Discipline.roundRobin.policy none paused.stepBound).trace? = some t ∧
    (paused.run Discipline.ceiling.policy none paused.stepBound).trace? = some t' ∧
    t.refusalCount 2 = 1 ∧ t'.refusalCount 2 = 0 ∧
    (t.events.filter fun e => e.what = .idle) = [⟨5, .idle⟩, ⟨6, .idle⟩] ∧
    (t.events.filter fun e => e.what = .idle) = (t'.events.filter fun e => e.what = .idle) ∧
    t.endTick = t'.endTick := by
  have hm : paused.Reaches Discipline.roundRobin.policy none _ := .of_sorted (by decide) rfl 79
  have hm' : paused.Reaches Discipline.ceiling.policy none _ := .of_sorted (by decide) rfl 79
  have ht := hm.trace?_of_over admitted_paused Discipline.roundRobin.lawful
    (rfl : _ = Phase.over .normal)
  have ht' := hm'.trace?_of_over admitted_paused Discipline.ceiling.lawful
    (rfl : _ = Phase.over .normal)
  exact ⟨_, _, ht, ht', rfl, rfl, rfl,
    admitted_paused.idle_unique .roundRobin .ceiling none none ht ht' rfl rfl⟩

end Scenario

end Uniprocessor
