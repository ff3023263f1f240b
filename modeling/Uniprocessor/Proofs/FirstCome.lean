import Uniprocessor.Proofs.Unbroken

/-!
# First come, first served in closed form

First come, first served takes the head of the ready queue, and everybody joins the queue at its
tail. So the jobs are served in the order of arrival, whatever their scripts say, and the whole run
can be told without the machine: it is the timetable of that order (`Trace.Follows`), if the limit
leaves room for it (`Scenario.Admitted.follows_arrivalOrder`).
-/

namespace Uniprocessor

/-- The run has the jobs served in this order, each as soon as it has started and the one before is
done, and ends when the last of them is done. -/
structure Trace.Follows (t : Trace) (jobs : List Job) : Prop where
  /-- everybody is done -/
  exit : t.exit = .normal
  /-- the last one is done just then -/
  endTick : t.endTick = Timetable.finish 0 jobs
  /-- every tick is one slot, and the timetable says who has it -/
  slots : slotsOf t.events =
    (List.range t.endTick).map fun tick => (tick, Timetable.occupant 0 jobs tick)
  /-- a job executes in the ticks of its stint, and in no others -/
  executed : ∀ x ∈ Timetable.stints 0 jobs, ∀ tick,
    ⟨tick, .executed x.job.pid⟩ ∈ t.events ↔ x.first ≤ tick ∧ tick < x.done
  /-- all other ticks up to the end are idle -/
  idle : ∀ tick, ⟨tick, .idle⟩ ∈ t.events ↔
    tick < t.endTick ∧ ∀ x ∈ Timetable.stints 0 jobs, ¬ (x.first ≤ tick ∧ tick < x.done)
  /-- a job leaves when its stint is over -/
  departure : ∀ x ∈ Timetable.stints 0 jobs, t.departureTick x.job.pid = some x.done

namespace Machine

variable {sc : Scenario} {σ : Type}

section Serving

variable {m : Machine σ} {served queue : List Job}

/-- If the limit stops a run, those who have begun and those who have not are not done by then, so a
limit that leaves room for all of them stops no run. -/
theorem Serving.limit_lt_finish (hsc : sc.Sound) (hm : m.Steady sc) (hc : m.Chronicled)
    (hfree : m.Unhindered) (hreg : m.Registered sc) (h : m.Serving sc served queue)
    (hphase : m.phase = .over .tickLimit) (hacc : m.Accounts sc.limit .tickLimit) :
    sc.limit < Timetable.finish 0 (served ++ (queue ++ m.arrivals)) := by
  obtain ⟨hlimit, hwork⟩ : sc.limit ≤ m.state.tick ∧ m.isWindingDown = false := hacc
  have hnow := now_of_over hphase (by simp)
  cases hleft : queue ++ m.arrivals with
  | nil =>
    -- Somebody has begun and is not done, so it is current.
    obtain ⟨hqueue, harrivals⟩ := List.append_eq_nil_iff.1 hleft
    obtain ⟨p, hp, hage⟩ : ∃ p ∈ m.state.procs, ¬ p.isFinished = true := by
      by_contra hall
      push Not at hall
      rw [isWindingDown_eq_true.2 ⟨harrivals, hall⟩] at hwork
      cases hwork
    have hlive := hm.stage.settled.ordered.process?_of_mem hp
    have hcur : m.state.current = some p.pid := by
      apply (hfree.ready_or_current hm.stage.settled hlive).resolve_left
      intro hmem
      rw [h.ready, hqueue] at hmem
      cases hmem
    obtain ⟨before, job, rfl, hpid, hrest⟩ := h.current hcur
    rw [← hpid] at hlive hrest
    obtain ⟨hran, -, hlife⟩ := Serving.ran_eq_age hsc hm hc (h.mem_jobs (by simp)) hlive
    rw [Process.isFinished_iff] at hage
    rw [List.append_nil]
    omega
  | cons job rest =>
    have hmem : job ∈ queue ++ m.arrivals := hleft ▸ List.mem_cons_self ..
    have hjob : job ∈ sc.jobs := by
      rw [← h.jobs.mem_iff, List.append_assoc]
      exact List.mem_append_right _ hmem
    have hlife := (hsc.jobs job hjob).lifespan_pos
    have hlast : Timetable.finish 0 served + job.lifespan ≤ _ :=
      Timetable.finish_add_le_finish 0 hmem
    have hstart := Timetable.start_add_le_finish 0 (List.mem_append_right served hmem)
    rw [hleft] at hlast hstart
    rcases Nat.lt_or_ge (Timetable.finish 0 served) m.now with hlt | hge
    · -- The processor is free, so whoever has not begun starts now or later.
      have hlate : m.now ≤ job.start := by
        rcases List.mem_append.1 hmem with hmem | hmem
        · exact (h.prompt hlt job hmem).ge
        · exact hnow ▸ hreg.coming job hmem
      omega
    · omega

end Serving

/-- First come, first served lets the first one in the queue begin: it takes the head when the
processor is free. -/
theorem Begins.head?_ready {m m' : Machine Memory} {pid : Pid} (hm : m.Steady sc)
    (hbegins : m.Begins Discipline.fcfs.policy pid m') : m.state.ready.head? = some pid := by
  obtain ⟨memory, t, hok⟩ := hbegins.chosen
  rcases Discipline.of_fcfs hm.stage.settled hok with ⟨who, hcon, -⟩ | ⟨-, -, hnext⟩
  · cases hbegins.free.symm.trans hcon
  · rw [hnext, State.takeHead_snd]

/-- First come, first served lets the jobs begin in the order of arrival: those who have begun,
those in the queue and those to come are always the jobs in that order. -/
theorem Proceeds.arrivalOrder {m m' : Machine Memory} {served queue served' queue' : List Job}
    (hm : m.Steady sc) (hserving : m.Serving sc served queue)
    (h : served ++ queue ++ m.arrivals = arrivalOrder sc.jobs)
    (hproceeds : m.Proceeds Discipline.fcfs.policy m' served queue served' queue') :
    served' ++ queue' ++ m'.arrivals = Machine.arrivalOrder sc.jobs := by
  cases hproceeds with
  | stays harrivals => rw [harrivals, h]
  | enters henters =>
    rw [← h, henters.arrivals]
    simp
  | @begins front back job hqueue hbegins =>
    have hhead := hbegins.head?_ready hm
    have hnodup := hm.stage.settled.ready_nodup
    rw [hserving.ready, hqueue] at hhead hnodup
    -- Nobody stands in the queue twice, so whoever is the head comes first.
    obtain rfl : front = [] := by
      cases front with
      | nil => rfl
      | cons first front =>
        have hsame : first.pid = job.pid := Option.some.inj hhead
        refine absurd ?_ (List.nodup_cons.1 hnodup).1
        rw [hsame]
        exact List.mem_map_of_mem (List.mem_append_right _ (List.mem_cons_self ..))
    rw [← h, hbegins.arrivals, hqueue]
    simp

end Machine

namespace Scenario

variable {sc : Scenario}

/-- A **closed form of first come, first served**: if the limit leaves room for it, the run
`Follows` the timetable of the jobs in the order of arrival: it ends normally when the last of them
is done, each of them executes in the ticks of its stint and leaves after them, and all other ticks
are idle. -/
theorem Admitted.follows_arrivalOrder (h : sc.Admitted)
    (hlimit : Timetable.finish 0 (Machine.arrivalOrder sc.jobs) ≤ sc.limit) (memory : Memory) :
    ∃ t, (sc.run Discipline.fcfs.policy memory sc.stepBound).trace? = some t ∧
      t.Follows (Machine.arrivalOrder sc.jobs) := by
  have hlawful := Discipline.fcfs.lawful
  obtain ⟨m, exit, served, queue, hreach, hphase, hexit, ht, hserving, horder⟩ :=
    h.exists_serving (Or.inl rfl : Discipline.fcfs = .fcfs ∨ Discipline.fcfs = .sjf) memory
      (I := fun m served queue => served ++ queue ++ m.arrivals = Machine.arrivalOrder sc.jobs)
      (fun _ => rfl) (fun hm _ hserving hI hproceeds => hproceeds.arrivalOrder hm hserving hI)
  have hrest := Phase.isSwitching_of_over hphase
  have hsteady := hreach.steady h hlawful hrest
  have hacc := hreach.accounts h hlawful hphase
  obtain rfl : exit = .normal := by
    cases exit with
    | normal => rfl
    | deadlock => exact absurd rfl hexit
    | tickLimit =>
      obtain ⟨hchron, -, -⟩ := hreach.chronicled h hlawful hrest
      obtain ⟨hreg, -, -, -⟩ := hreach.registered h hlawful Discipline.fcfs.conserving hrest
      have hfree := hreach.unhindered h hlawful (Discipline.nonpreemptive (Or.inl rfl)) hrest
      have hlate := hserving.limit_lt_finish h.sound hsteady hchron hfree hreg hphase hacc
      rw [← List.append_assoc, horder] at hlate
      omega
  obtain ⟨rfl, harrivals, hfinish⟩ := hserving.of_normal hsteady.stage.settled hphase hacc
  rw [harrivals, List.append_nil, List.append_nil] at horder
  subst horder
  have hslots := hserving.slots_of_over hphase hexit
  refine ⟨_, ht, rfl, hfinish.symm, hslots, fun x hx tick => ?_, fun tick => ?_, fun x hx => ?_⟩
  · have hdone := (Timetable.bounds_of_mem_stints hx).2.2
    rw [Trace.mem_executed_iff hslots, Timetable.occupant_eq_some_iff
      (hserving.nodup_served h.sound) hx, Stint.covers_iff]
    exact ⟨And.right, fun hin => ⟨by omega, hin⟩⟩
  · rw [Trace.mem_idle_iff hslots, Timetable.occupant_eq_none_iff]
    simp only [← Stint.covers_iff, Bool.not_eq_true]
  · exact hserving.departureTick_of_normal h.sound
      (fun job hjob => hreach.left_of_normal h hlawful hphase hjob) hx .normal

/-- Four processes, not listed in the order of their starts. The third one comes when the second is
done, together with the fourth, and the first one comes late. The limit leaves no tick to spare. -/
def gapped : Scenario where
  resourceCount := 1
  ceiling := 0
  limit := 8
  jobs := [
    { pid := 1, start := 6, lifespan := 2, requests := [⟨0, 0, 2⟩] },
    { pid := 2, lifespan := 3, requests := [⟨0, 1, 2⟩] },
    { pid := 3, start := 3, lifespan := 1 },
    { pid := 4, start := 3, lifespan := 1, requests := [⟨0, 0, 1⟩] }]

theorem admitted_gapped : gapped.Admitted where
  built := ⟨⟨1, 0, 8, gapped.jobs, 4⟩, rfl⟩
  lifespan_lt := by decide
  limit_le := by decide

/-- The second process is served first, up to the tick in which the third and the fourth come; they
are served one after the other, the tick after them is idle, and the first process is served up to
the limit. -/
theorem follows_arrivalOrder_gapped :
    ∃ t, (gapped.run Discipline.fcfs.policy none gapped.stepBound).trace? = some t ∧
      t.exit = .normal ∧ t.endTick = 8 ∧
      (∀ tick, ⟨tick, .executed 2⟩ ∈ t.events ↔ 0 ≤ tick ∧ tick < 3) ∧
      (∀ tick, ⟨tick, .executed 3⟩ ∈ t.events ↔ 3 ≤ tick ∧ tick < 4) ∧
      ⟨5, .idle⟩ ∈ t.events ∧ t.departureTick 4 = some 5 ∧ t.departureTick 1 = some 8 := by
  have horder : Machine.arrivalOrder gapped.jobs = [
      { pid := 2, lifespan := 3, requests := [⟨0, 1, 2⟩] },
      { pid := 3, start := 3, lifespan := 1 },
      { pid := 4, start := 3, lifespan := 1, requests := [⟨0, 0, 1⟩] },
      { pid := 1, start := 6, lifespan := 2, requests := [⟨0, 0, 2⟩] }] := by cbv
  obtain ⟨t, ht, hfollows⟩ :=
    admitted_gapped.follows_arrivalOrder (by rw [horder]; decide) none
  rw [horder] at hfollows
  obtain ⟨hexit, hend, -, hexec, hidle, hdeparture⟩ := hfollows
  exact ⟨t, ht, hexit, hend, hexec _ (List.mem_of_getElem? (i := 0) rfl),
    hexec _ (List.mem_of_getElem? (i := 1) rfl), (hidle 5).2 ⟨by rw [hend]; decide, by decide⟩,
    hdeparture _ (List.mem_of_getElem? (i := 2) rfl),
    hdeparture _ (List.mem_of_getElem? (i := 3) rfl)⟩

end Scenario

end Uniprocessor
