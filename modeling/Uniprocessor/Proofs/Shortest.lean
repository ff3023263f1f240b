import Uniprocessor.Proofs.Unbroken
import Uniprocessor.Proofs.Behind

/-!
# The shortest first saves time

If all jobs start in the same tick, shortest job first serves them one after the other, by lifespan
(`Machine.Ascending`), and no discipline lets them leave earlier than some order of service would.
So the time from arrival to leaving that all of them take is no longer under shortest job first than
under any discipline that comes to a normal end (`Scenario.Admitted.totalTurnaround_le`).
-/

namespace Uniprocessor

namespace Trace

variable {t : Trace}

/-- The ticks from arrival to leaving of all the jobs, if all of them have left. -/
def totalTurnaround (t : Trace) (jobs : List Job) : Option Nat :=
  (jobs.mapM fun job => t.turnaround job.pid).map List.sum

theorem totalTurnaround_eq_some {jobs : List Job} {f : Job → Nat}
    (h : ∀ job ∈ jobs, t.turnaround job.pid = some (f job)) :
    t.totalTurnaround jobs = some (jobs.map f).sum := by
  have hall : jobs.mapM (fun job => t.turnaround job.pid) = some (jobs.map f) := by
    induction jobs with
    | nil => rfl
    | cons job rest ih =>
      obtain ⟨hjob, hrest⟩ := List.forall_mem_cons.1 h
      rw [List.mapM_cons, hjob, ih hrest]
      rfl
  rw [totalTurnaround, hall]
  rfl

/-- If the jobs of a timetable have left, their turnarounds are those of its stints, and together
those of all jobs. -/
theorem totalTurnaround_of_stints {jobs order : List Job} {free : Nat} {g : Stint → Nat}
    (hperm : order.Perm jobs)
    (h : ∀ x ∈ Timetable.stints free order, t.turnaround x.job.pid = some (g x)) :
    t.totalTurnaround jobs = some ((Timetable.stints free order).map g).sum := by
  have hjobs : ∀ job ∈ jobs, t.turnaround job.pid = some ((t.turnaround job.pid).getD 0) := by
    intro job hjob
    obtain ⟨x, hx, rfl⟩ := Timetable.exists_stint free (hperm.mem_iff.2 hjob)
    rw [h x hx]
    rfl
  rw [totalTurnaround_eq_some hjobs, ← (hperm.map _).sum_eq]
  conv_lhs => rw [← Timetable.map_job_stints free order, List.map_map]
  refine congrArg (fun l : List Nat => some l.sum) (List.map_congr_left fun x hx => ?_)
  exact congrArg (Option.getD · 0) (h x hx)

end Trace

namespace Machine

/-! ## The order of shortest job first -/

/-- A live process has the lifespan of its job, so the policy compares what the jobs have to
execute. -/
theorem Steady.lifespan_eq {σ : Type} {sc : Scenario} {m : Machine σ} (hsc : sc.Sound)
    (hm : m.Steady sc) {job : Job} (hjob : job ∈ sc.jobs) {p : Process}
    (hp : m.state.process? job.pid = some p) : p.lifespan = job.lifespan := by
  obtain ⟨other, hother, script, hpid, -, hplays⟩ := hm.stage.plays hp
  rw [hplays.lifespan, hsc.eq_of_pid hother hjob hpid]

/-- The shorter ones have begun before the longer ones, and nobody began before all were there. -/
structure Ascending {σ : Type} (m : Machine σ) (served queue : List Job) : Prop where
  /-- nobody has begun before all were there -/
  gathered : served ≠ [] → m.arrivals = []
  /-- nobody has begun before a shorter one that has begun -/
  sorted : served.Pairwise fun a b => a.lifespan ≤ b.lifespan
  /-- nobody has begun before a shorter one that is in the queue -/
  next : ∀ a ∈ served, ∀ b ∈ queue, a.lifespan ≤ b.lifespan

theorem Ascending.initial {σ : Type} (sc : Scenario) (memory : σ) :
    (Machine.initial sc memory).Ascending [] [] where
  gathered hne := absurd rfl hne
  sorted := List.Pairwise.nil
  next _ ha := absurd ha List.not_mem_nil

variable {sc : Scenario} {m m' : Machine Memory} {start : Nat}
  {served queue served' queue' : List Job}

/-- Shortest job first lets one of the shortest jobs in the queue begin, as it takes the smallest
lifespan. -/
theorem Begins.lifespan_le (hsc : sc.Sound) (hm : m.Steady sc)
    (hserving : m.Serving sc served queue) {job : Job} (hjob : job ∈ queue)
    (hbegins : m.Begins Discipline.sjf.policy job.pid m') :
    ∀ other ∈ queue, job.lifespan ≤ other.lifespan := by
  intro other hother
  have hs := hm.stage.settled
  obtain ⟨memory, t, hok⟩ := hbegins.chosen
  rcases Discipline.of_sjf hs hok with ⟨who, hcon, -⟩ | ⟨-, htake⟩
  · cases hbegins.free.symm.trans hcon
  obtain ⟨p, front, back, hp, hready, hfront, hback⟩ := hs.firstShortest_of_takeMin htake
  have hmem : other.pid ∈ m.state.ready := hserving.ready ▸ List.mem_map_of_mem hother
  obtain ⟨x, hx⟩ := hs.process?_of_mem_ready hmem
  rw [← hm.lifespan_eq hsc (hserving.mem_jobs (List.mem_append_right _ hjob)) hp,
    ← hm.lifespan_eq hsc (hserving.mem_jobs (List.mem_append_right _ hother)) hx]
  rw [hready] at hmem
  rcases List.mem_append.1 hmem with hmem | hmem
  · exact (hfront _ hmem x hx).le
  · rcases List.mem_cons.1 hmem with hsame | hmem
    · rw [hsame, hp] at hx
      exact (congrArg Process.lifespan (Option.some.inj hx)).le
    · exact hback _ hmem x hx

/-- If all jobs start in the same tick, shortest job first lets them begin by lifespan: the jobs
stay `Ascending`. -/
theorem Proceeds.ascending (hsc : sc.Sound) (hstart : ∀ job ∈ sc.jobs, job.start = start)
    (hm : m.Steady sc) (hpunctual : m.Punctual sc) (hserving : m.Serving sc served queue)
    (h : m.Ascending served queue)
    (hproceeds : m.Proceeds Discipline.sjf.policy m' served queue served' queue') :
    m'.Ascending served' queue' := by
  cases hproceeds with
  | stays harrivals => exact ⟨fun hne => harrivals.trans (h.gathered hne), h.sorted, h.next⟩
  | enters henters =>
    -- Somebody was to come, so nobody has begun.
    obtain rfl : served = [] := by
      by_contra hne
      cases henters.arrivals.symm.trans (h.gathered hne)
    exact ⟨fun hne => absurd rfl hne, List.Pairwise.nil, fun _ ha => absurd ha List.not_mem_nil⟩
  | @begins front back job hqueue hbegins =>
    have hjob : job ∈ queue := hqueue ▸ List.mem_append_right _ (List.mem_cons_self ..)
    have hmin := hbegins.lifespan_le hsc hm hserving hjob
    have hsub : ∀ b ∈ front ++ back, b ∈ queue := fun b hb =>
      hqueue ▸ ((List.sublist_cons_self job back).append_left front).subset hb
    refine ⟨fun _ => ?_, ?_, fun a ha b hb => ?_⟩
    · -- The job has started, and with it all others.
      rw [hbegins.arrivals, List.eq_nil_iff_forall_not_mem]
      intro other hother
      have hlater := hpunctual.gathered (by rw [hbegins.phase]; rfl) other hother
      have hstarted := hserving.started job hjob
      rw [hstart _ (hm.stage.arrivals_mem other hother)] at hlater
      rw [hstart _ (hserving.mem_jobs (List.mem_append_right _ hjob))] at hstarted
      omega
    · refine List.pairwise_append.2 ⟨h.sorted, List.pairwise_singleton .., fun a ha b hb => ?_⟩
      exact List.mem_singleton.1 hb ▸ h.next a ha job hjob
    · rcases List.mem_append.1 ha with ha | ha
      · exact h.next a ha b (hsub b hb)
      · exact List.mem_singleton.1 ha ▸ hmin b (hsub b hb)

end Machine

namespace Scenario

variable {sc : Scenario} {start : Nat}

section Normal

variable {σ : Type} {P : Policy σ} {memory : σ} {m : Machine σ}

/-- In a run that has ended normally the turnaround of a job counts from its start, since it arrived
then. -/
theorem Reaches.turnaround_of_normal (hsc : sc.Admitted) (hP : P.Lawful) (hcons : P.Conserving)
    (h : sc.Reaches P memory m) (hphase : m.phase = .over .normal) {t : Trace}
    (hevents : m.events.toList = t.events) {job : Job} (hjob : job ∈ sc.jobs) {tick : Nat}
    (hleft : t.departureTick job.pid = some tick) :
    t.turnaround job.pid = some (tick - job.start) := by
  have hrest := Phase.isSwitching_of_over hphase
  obtain ⟨hchron, -, -⟩ := h.chronicled hsc hP hrest
  obtain ⟨hreg, -, -, -⟩ := h.registered hsc hP hcons hrest
  have harrived := hchron.heard (h.left_of_normal hsc hP hphase hjob) rfl
  rw [Trace.turnaround, hleft, hreg.arrivalTick_eq hsc.sound hjob harrived hevents]
  rfl

/-- If jobs that all start in the same tick come to a normal end, the limit leaves room for all of
them: no tick does more than one tick of work. -/
theorem Reaches.room_of_normal (hsc : sc.Admitted) (hP : P.Lawful) (hcons : P.Conserving)
    (hstart : ∀ job ∈ sc.jobs, job.start = start) (h : sc.Reaches P memory m)
    (hphase : m.phase = .over .normal) : sc.lastStart + sc.totalLifespan ≤ sc.limit := by
  have hrest := Phase.isSwitching_of_over hphase
  obtain ⟨hchron, henr, -⟩ := h.chronicled hsc hP hrest
  obtain ⟨hworked, -⟩ := h.behind hsc hP hcons hstart hrest
  have hbusy : m.busy ≤ m.now - start := hworked
  have hnow := m.now_of_over hphase (by simp)
  have htick := (h.punctual hsc hP hcons hrest).limit
  have hwork : sc.totalLifespan ≤ m.busy :=
    henr.sum_lifespan_le hsc.sound hchron (hsc.sound.pids_nodup.of_map _) fun job hjob =>
      ⟨hjob, henr.served hjob (h.left_of_normal hsc hP hphase hjob)⟩
  have hlast := sc.lastStart_le fun job hjob => (hstart job hjob).le
  cases hjobs : sc.jobs with
  | nil => simp [lastStart, totalLifespan, hjobs]
  | cons job rest =>
    have hmem : job ∈ sc.jobs := hjobs ▸ List.mem_cons_self ..
    have hpos := (hsc.sound.jobs job hmem).lifespan_pos
    have hle : job.lifespan ≤ sc.totalLifespan := List.single_le_sum (fun _ _ => Nat.zero_le _) _
      (List.mem_map_of_mem hmem)
    omega

/-- Jobs that all start in the same tick take at least as long as they would in some order of
service: each leaves `Behind` the timetable of the order in which they left. -/
theorem Reaches.exists_flow_le (hsc : sc.Admitted) (hP : P.Lawful) (hcons : P.Conserving)
    (hstart : ∀ job ∈ sc.jobs, job.start = start) (h : sc.Reaches P memory m)
    (hphase : m.phase = .over .normal) {t : Trace} (hevents : m.events.toList = t.events) :
    ∃ gone total, gone.Perm sc.jobs ∧ t.totalTurnaround sc.jobs = some total ∧
      Timetable.flow start gone ≤ total := by
  have hrest := Phase.isSwitching_of_over hphase
  obtain ⟨-, gone, hbehind⟩ := h.behind hsc hP hcons hstart hrest
  have hperm := hbehind.perm_of_left hsc.sound fun job hjob => h.left_of_normal hsc hP hphase hjob
  have hturn : ∀ x ∈ Timetable.stints start gone, ∃ n, t.turnaround x.job.pid = some n ∧
      x.done - x.job.start ≤ n := by
    intro x hx
    obtain ⟨tick, hleft, hdone⟩ := hbehind.le_departureTick hsc.sound hevents hx
    exact ⟨_, h.turnaround_of_normal hsc hP hcons hphase hevents
      (hperm.mem_iff.1 (Timetable.job_mem_of_mem_stints hx)) hleft, Nat.sub_le_sub_right hdone _⟩
  refine ⟨gone, _, hperm, Trace.totalTurnaround_of_stints
    (g := fun x => (t.turnaround x.job.pid).getD 0) hperm fun x hx => ?_,
    List.sum_le_sum fun x hx => ?_⟩
  · obtain ⟨n, hn, -⟩ := hturn x hx
    rw [hn]
    rfl
  · obtain ⟨n, hn, hle⟩ := hturn x hx
    rwa [hn]

end Normal

/-- If all jobs start in the same tick and the limit leaves room for all of them, shortest job first
takes as long as the `flow` of the jobs by lifespan. -/
theorem Admitted.exists_flow_of_sjf (h : sc.Admitted) (hstart : ∀ job ∈ sc.jobs, job.start = start)
    (hlimit : sc.lastStart + sc.totalLifespan ≤ sc.limit) (memory : Memory) :
    ∃ t served, (sc.run Discipline.sjf.policy memory sc.stepBound).trace? = some t ∧
      t.exit = .normal ∧ served.Perm sc.jobs ∧
      (served.Pairwise fun a b => a.lifespan ≤ b.lifespan) ∧
      t.totalTurnaround sc.jobs = some (Timetable.flow start served) := by
  have hlawful := Discipline.sjf.lawful
  have hcons : Discipline.sjf.policy.Conserving := Discipline.sjf.conserving
  obtain ⟨m, exit, served, queue, hreach, hphase, hexit, ht, hserving, hascending⟩ :=
    h.exists_serving (Or.inr rfl : Discipline.sjf = .fcfs ∨ Discipline.sjf = .sjf) memory
      (I := fun m served queue => m.Ascending served queue) (.initial sc)
      (fun hm hpunctual hserving hI hproceeds =>
        hproceeds.ascending h.sound hstart hm hpunctual hserving hI)
  obtain rfl : exit = .normal := by
    cases exit with
    | normal => rfl
    | deadlock => exact absurd rfl hexit
    | tickLimit => exact absurd (hreach.limit_lt h hlawful hcons hphase) (Nat.not_lt.2 hlimit)
  have hsteady := hreach.steady h hlawful (Phase.isSwitching_of_over hphase)
  obtain ⟨rfl, harrivals, -⟩ := hserving.of_normal hsteady.stage.settled hphase
    (hreach.accounts h hlawful hphase)
  have hjobs := hserving.jobs
  rw [harrivals, List.append_nil, List.append_nil] at hjobs
  have hserved : ∀ job ∈ served, job.start = start :=
    fun job hjob => hstart job (hjobs.mem_iff.1 hjob)
  refine ⟨_, served, ht, rfl, hjobs, hascending.sorted, ?_⟩
  rw [← Timetable.flow_of_start hserved (Nat.zero_le start)]
  apply Trace.totalTurnaround_of_stints hjobs
  intro x hx
  exact hreach.turnaround_of_normal h hlawful hcons hphase rfl
    (hjobs.mem_iff.1 (Timetable.job_mem_of_mem_stints hx))
    (hserving.departureTick_of_normal h.sound
      (fun job hjob => hreach.left_of_normal h hlawful hphase hjob) hx .normal)

/-- The **shortest first saves time**: if all jobs start in the same tick and the run under some
discipline ends normally, so does that under shortest job first, and `totalTurnaround`, the
turnarounds of all processes together, is no longer than under that discipline. -/
theorem Admitted.totalTurnaround_le (h : sc.Admitted) (hstart : ∀ job ∈ sc.jobs, job.start = start)
    (d : Discipline) (memory memory' : Memory) {fuel : Nat} {t : Trace}
    (ht : (sc.run d.policy memory fuel).trace? = some t) (hnormal : t.exit = .normal) :
    ∃ t' total total', (sc.run Discipline.sjf.policy memory' sc.stepBound).trace? = some t' ∧
      t'.exit = .normal ∧ t.totalTurnaround sc.jobs = some total ∧
      t'.totalTurnaround sc.jobs = some total' ∧ total' ≤ total := by
  obtain ⟨m, hreach, hphase, hevents, -⟩ := reaches_of_trace? ht
  rw [hnormal] at hphase
  obtain ⟨gone, total, hgone, htotal, hle⟩ :=
    hreach.exists_flow_le h d.lawful d.conserving hstart hphase hevents
  obtain ⟨t', served, ht', hexit, hserved, hsorted, htotal'⟩ := h.exists_flow_of_sjf hstart
    (hreach.room_of_normal h d.lawful d.conserving hstart hphase) memory'
  refine ⟨t', total, _, ht', hexit, htotal, htotal', ?_⟩
  exact (Timetable.flow_le_of_perm hsorted (hserved.trans hgone.symm) fun job hjob =>
    (hstart job (hserved.mem_iff.1 hjob)).le).trans hle

/-- Three processes that start in the same tick. The shortest one comes last, and the first two ask
for the same resource. -/
def together : Scenario where
  resourceCount := 1
  ceiling := 0
  limit := 100
  jobs := [
    { pid := 1, start := 1, lifespan := 3, requests := [⟨0, 0, 3⟩] },
    { pid := 2, start := 1, lifespan := 2, requests := [⟨0, 1, 1⟩] },
    { pid := 3, start := 1, lifespan := 1 }]

theorem admitted_together : together.Admitted where
  built := ⟨⟨1, 0, 100, together.jobs, 3⟩, rfl⟩
  lifespan_lt := by decide
  limit_le := by decide

/-- Under round robin the three processes take fourteen ticks in all, and no more under shortest job
first. -/
theorem totalTurnaround_le_together :
    ∃ t t' total,
      (together.run Discipline.roundRobin.policy none together.stepBound).trace? = some t ∧
      t.exit = .normal ∧ t.totalTurnaround together.jobs = some 14 ∧
      (together.run Discipline.sjf.policy none together.stepBound).trace? = some t' ∧
      t'.exit = .normal ∧ t'.totalTurnaround together.jobs = some total ∧ total ≤ 14 := by
  obtain ⟨t, ht, hexit, htotal⟩ : ∃ t,
      (together.run Discipline.roundRobin.policy none together.stepBound).trace? = some t ∧
        t.exit = .normal ∧ t.totalTurnaround together.jobs = some 14 := by
    have hm : together.Reaches Discipline.roundRobin.policy none _ := .of_sorted (by decide) rfl 80
    exact ⟨_, hm.trace?_of_over admitted_together Discipline.roundRobin.lawful
      (rfl : _ = Phase.over .normal), rfl, rfl⟩
  obtain ⟨t', all, total, ht', hexit', hall, htotal', hle⟩ :=
    admitted_together.totalTurnaround_le (by decide : ∀ job ∈ together.jobs, job.start = 1)
      .roundRobin none none ht hexit
  cases htotal.symm.trans hall
  exact ⟨t, t', total, ht, hexit, htotal, ht', hexit', htotal', hle⟩

end Scenario

end Uniprocessor
