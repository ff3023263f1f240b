import Uniprocessor.Proofs.Serving

/-!
# Whoever has begun goes on

Under first come, first served, and under shortest job first a process that has begun executes its
whole lifespan without a break, whatever it and the others ask for; only the limit can stop it.
Nobody is refused anything or woken, and there is no deadlock. And shortest job first begins with a
shortest process every time (`Scenario.Admitted.unbroken`).
-/

namespace Uniprocessor

namespace Machine

variable {σ : Type} {sc : Scenario} {m : Machine σ} {served queue : List Job}

namespace Serving

/-- The jobs that have begun have different numbers, as the jobs of a `Sound` scenario do. -/
theorem nodup_served (hsc : sc.Sound) (h : m.Serving sc served queue) :
    (served.map Job.pid).Nodup := by
  have hnodup := (h.jobs.map Job.pid).nodup_iff.2 hsc.pids_nodup
  rw [List.append_assoc, List.map_append] at hnodup
  exact (List.nodup_append.1 hnodup).1

/-- At the end of a run the timetable says who has had each tick, unless there is a deadlock: the
slots are those of `occupant`. -/
theorem slots_of_over (h : m.Serving sc served queue) {exit : Exit} (hphase : m.phase = .over exit)
    (hexit : exit ≠ .deadlock) : Trace.slotsOf m.events.toList =
      (List.range m.state.tick).map fun tick => (tick, Timetable.occupant 0 served tick) := by
  rw [← now_of_over hphase hexit]
  exact h.slots

/-- When a run has ended normally, everybody is done, just now: nobody is in the queue or to come,
and `finish` is the last tick. -/
theorem of_normal (hs : m.state.Settled) (h : m.Serving sc served queue)
    (hphase : m.phase = .over .normal) (hacc : m.Accounts sc.limit .normal) :
    queue = [] ∧ m.arrivals = [] ∧ Timetable.finish 0 served = m.state.tick := by
  obtain ⟨harrivals, hprocs⟩ : m.arrivals = [] ∧ m.state.procs = [] := hacc
  have hnobody : ∀ pid, m.state.process? pid = none := by
    intro pid
    rw [State.process?, hprocs]
    rfl
  have hready : m.state.ready = [] := List.eq_nil_iff_forall_not_mem.2 fun pid hpid => by
    obtain ⟨p, hp⟩ := hs.process?_of_mem_ready hpid
    cases (hnobody pid).symm.trans hp
  have hcurrent : m.state.current = none := Option.eq_none_iff_forall_ne_some.2 fun pid hpid => by
    obtain ⟨p, hp⟩ := hs.process?_of_current hpid
    cases (hnobody pid).symm.trans hp
  have hqueue : queue = [] := List.map_eq_nil_iff.1 (h.ready.symm.trans hready)
  have hnow := now_of_over hphase (by simp)
  refine ⟨hqueue, harrivals, hnow ▸ (Nat.lt_or_eq_of_le (h.vacant hcurrent)).resolve_left ?_⟩
  intro hlt
  exact h.pending hlt (by rw [hqueue, harrivals]; rfl)

/-- At the end of a run a tick before the limit has been filled, or everybody was done before it:
only the limit stops a run that is `Serving`. -/
theorem lt_tick_of_over (hs : m.state.Settled) (h : m.Serving sc served queue) {exit : Exit}
    (hphase : m.phase = .over exit) (hexit : exit ≠ .deadlock) (hacc : m.Accounts sc.limit exit)
    {tick : Nat} (hlimit : tick < sc.limit) (hdone : tick < Timetable.finish 0 served) :
    tick < m.state.tick := by
  cases exit with
  | normal =>
    obtain ⟨-, -, hfinish⟩ := h.of_normal hs hphase hacc
    exact hfinish ▸ hdone
  | deadlock => exact absurd rfl hexit
  | tickLimit => exact hlimit.trans_le hacc.1

/-- When a run has ended normally, whoever has begun left when it was `done` by its stint. -/
theorem departureTick_of_normal (h : m.Serving sc served queue) (hsc : sc.Sound)
    (hleft : ∀ job ∈ sc.jobs, .left job.pid ∈ m.history) {x : Stint}
    (hx : x ∈ Timetable.stints 0 served) (exit : Exit) :
    Trace.departureTick ⟨m.events.toList, exit, m.state.tick⟩ x.job.pid = some x.done := by
  have hjob := h.mem_jobs (List.mem_append_left _ (Timetable.job_mem_of_mem_stints hx))
  have hdone : ∀ tick, ⟨tick, .left x.job.pid⟩ ∈ m.events.toList → tick = x.done := by
    intro tick he
    obtain ⟨y, hy, hpid, rfl⟩ := h.departed _ (mem_departed.2 he)
    rw [Timetable.eq_of_pid (h.nodup_served hsc) hy hx hpid]
  obtain ⟨tick, he⟩ := mem_history.1 (hleft x.job hjob)
  exact Trace.tickOf_eq_some (hdone tick he ▸ he) hdone

end Serving

end Machine

namespace Scenario

variable {sc : Scenario}

/-- A run under first come, first served, or under shortest job first ends, and not in a deadlock.
By then it is `Serving` everybody by the timetable of some order, of which every `I` holds that
holds at first and is kept by what the discipline decides. -/
theorem Admitted.exists_serving (h : sc.Admitted) {d : Discipline} (hd : d = .fcfs ∨ d = .sjf)
    (memory : Memory) {I : Machine Memory → List Job → List Job → Prop}
    (hinit : ∀ memory, I (Machine.initial sc memory) [] [])
    (hkeep : ∀ {m m' : Machine Memory} {served queue served' queue' : List Job}, m.Steady sc →
      m.Punctual sc → m.Serving sc served queue → I m served queue →
      m.Proceeds d.policy m' served queue served' queue' → I m' served' queue') :
    ∃ m exit served queue, sc.Reaches d.policy memory m ∧ m.phase = .over exit ∧ exit ≠ .deadlock ∧
      (sc.run d.policy memory sc.stepBound).trace? = some ⟨m.events.toList, exit, m.state.tick⟩ ∧
      m.Serving sc served queue ∧ I m served queue := by
  have hnon : d.policy.Nonpreemptive := Discipline.nonpreemptive hd
  obtain ⟨exit, -, hreach, hphase⟩ := h.reaches_end (d := d)
    (fun hc => by rcases hd with rfl | rfl <;> cases hc.1) memory
  obtain ⟨served, queue, hserving⟩ := hreach.serving h d.lawful d.conserving hnon hinit hkeep
    (Phase.isSwitching_of_over hphase)
  exact ⟨_, exit, served, queue, hreach, hphase, hreach.ne_deadlock h d.lawful hnon hphase,
    hreach.trace?_of_over h d.lawful hphase, hserving⟩

/-- Without preemption **whoever has begun goes on**. Under first come, first served, and under
shortest job first nobody is refused anything or woken, the run does not end in a deadlock, and
whoever executes for the first time does so in as many ticks in a row as its lifespan has, as far as
they come before the limit. And whenever shortest job first replaces the current process, it chooses
the `FirstShortest` of the ready queue. -/
theorem Admitted.unbroken (h : sc.Admitted) {d : Discipline} (hd : d = .fcfs ∨ d = .sjf)
    (memory : Memory) :
    (∃ t, (sc.run d.policy memory sc.stepBound).trace? = some t ∧
      (∀ tick pid r, ⟨tick, .refused pid r⟩ ∉ t.events ∧ ⟨tick, .woken pid r⟩ ∉ t.events) ∧
      t.exit ≠ .deadlock ∧
      ∀ job ∈ sc.jobs, ∀ first, t.tickOf (.executed job.pid) = some first → ∀ tick < sc.limit,
        (⟨tick, .executed job.pid⟩ ∈ t.events ↔ first ≤ tick ∧ tick < first + job.lifespan)) ∧
    (d = .sjf → ∀ m m' prev pid, sc.Reaches d.policy memory m → m.phase = .choosing →
      (m.step d.policy sc.limit).result = .ok m' → m'.phase = .switching prev (some pid) →
      prev ≠ some pid → m.state.FirstShortest pid) := by
  refine ⟨?_, ?_⟩
  · obtain ⟨m, exit, served, queue, hreach, hphase, hexit, ht, hserving, -⟩ := h.exists_serving hd
      memory (I := fun _ _ _ => True) (fun _ => trivial) (fun _ _ _ _ _ => trivial)
    have hrest := Phase.isSwitching_of_over hphase
    have hfree := hreach.unhindered h d.lawful (Discipline.nonpreemptive hd) hrest
    have hslots := hserving.slots_of_over hphase hexit
    refine ⟨_, ht, fun tick pid r => ⟨fun he => ?_, fun he => ?_⟩, hexit,
      fun job hjob first hfirst tick hlimit => ?_⟩
    · exact hfree.refused pid r (Machine.mem_history.2 ⟨tick, he⟩)
    · exact hfree.woken pid r (Machine.mem_history.2 ⟨tick, he⟩)
    · obtain ⟨-, hwho, hbefore⟩ := Trace.first_of_tickOf hslots hfirst
      obtain ⟨x, hx, hpid, hcovers⟩ := Timetable.exists_of_occupant hwho
      have hsame : x.job = job := h.sound.eq_of_pid
        (hserving.mem_jobs (List.mem_append_left _ (Timetable.job_mem_of_mem_stints hx))) hjob hpid
      obtain ⟨hle, hlt⟩ := Stint.covers_iff.1 hcovers
      -- The first tick of the process is the first one of its stint.
      have hbegin : first = x.first := by
        refine (Nat.lt_or_eq_of_le hle).elim (fun hlater => ?_) Eq.symm
        refine absurd ?_ (hbefore x.first hlater)
        exact hpid ▸ Timetable.occupant_of_covers hx
          (Stint.covers_iff.2 ⟨Nat.le_refl _, hlater.trans hlt⟩)
      rw [Trace.mem_executed_iff hslots, ← hpid,
        Timetable.occupant_eq_some_iff (hserving.nodup_served h.sound) hx, Stint.covers_iff, hbegin,
        Stint.done, hsame]
      refine ⟨fun hin => hin.2, fun hin => ⟨?_, hin⟩⟩
      refine hserving.lt_tick_of_over (hreach.steady h d.lawful hrest).stage.settled hphase hexit
        (hreach.accounts h d.lawful hphase) hlimit (hin.2.trans_le ?_)
      exact hsame ▸ (Timetable.bounds_of_mem_stints hx).2.2
  · rintro rfl m m' prev pid hm hphase hstep hphase' hprev
    have hsteady := hm.steady h Discipline.sjf.lawful (by rw [hphase]; rfl)
    obtain ⟨memory', t, next, hok, -, rfl⟩ :=
      hsteady.step_of_choosing Discipline.sjf.lawful hphase hstep
    cases hphase'
    have hs := hsteady.stage.settled
    rcases Discipline.of_sjf hs hok with ⟨who, hcon, hnext, -⟩ | ⟨-, htake⟩
    · cases hnext
      exact absurd (State.contender?_eq_some.1 hcon).1 hprev
    · exact hs.firstShortest_of_takeMin htake

/-- Four processes, of which the first two ask for each other's resources. The last two are the
shortest. -/
def contended : Scenario where
  resourceCount := 2
  ceiling := 0
  limit := 100
  jobs := [
    { pid := 1, lifespan := 3, requests := [⟨0, 0, 3⟩, ⟨1, 1, 1⟩] },
    { pid := 2, start := 1, lifespan := 4, requests := [⟨1, 0, 4⟩, ⟨0, 1, 1⟩] },
    { pid := 3, start := 1, lifespan := 2 },
    { pid := 4, start := 1, lifespan := 2, requests := [⟨0, 0, 2⟩] }]

theorem admitted_contended : contended.Admitted where
  built := ⟨⟨2, 0, 100, contended.jobs, 4⟩, rfl⟩
  lifespan_lt := by decide
  limit_le := by decide

/-- In the fourth tick shortest job first takes the third process out of three, and it executes its
two ticks in a row. -/
theorem unbroken_contended :
    (∃ t, (contended.run Discipline.sjf.policy none contended.stepBound).trace? = some t ∧
      t.exit ≠ .deadlock ∧ t.tickOf (.executed 3) = some 3 ∧ ⟨3, .executed 3⟩ ∈ t.events ∧
      ⟨4, .executed 3⟩ ∈ t.events ∧ ⟨5, .executed 3⟩ ∉ t.events ∧
      ∀ tick r, ⟨tick, .refused 2 r⟩ ∉ t.events) ∧
    ∃ m, contended.Reaches Discipline.sjf.policy none m ∧ m.state.tick = 3 ∧
      m.state.ready = [2, 3, 4] ∧ m.state.FirstShortest 3 := by
  obtain ⟨⟨t, ht, hsmooth, hexit, hrow⟩, hshortest⟩ :=
    admitted_contended.unbroken (Or.inr rfl : Discipline.sjf = .fcfs ∨ Discipline.sjf = .sjf) none
  refine ⟨⟨t, ht, hexit, ?_⟩, ?_⟩
  · have hm : contended.Reaches Discipline.sjf.policy none _ := .of_sorted (by decide) rfl 120
    have hreach := hm.trace?_of_over admitted_contended Discipline.sjf.lawful
      (rfl : _ = Phase.over .normal)
    cases hreach.symm.trans ht
    have hrow := hrow _ (List.mem_of_getElem? (i := 2) rfl) 3 rfl
    exact ⟨rfl, (hrow 3 (by decide)).2 (by decide), (hrow 4 (by decide)).2 (by decide),
      fun he => absurd ((hrow 5 (by decide)).1 he) (by decide), fun tick r => (hsmooth tick 2 r).1⟩
  · have hm : contended.Reaches Discipline.sjf.policy none _ := .of_sorted (by decide) rfl 40
    exact ⟨_, hm, rfl, rfl, hshortest rfl _ _ _ 3 hm rfl rfl rfl (by decide)⟩

end Scenario

end Uniprocessor
