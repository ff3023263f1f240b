import Uniprocessor.Proofs.FlowTime
import Uniprocessor.Proofs.Serving

/-!
# Nobody leaves before the work is done

Whatever the policy, no tick does more than one tick of work, and before the first start there is no
work. So when a process leaves, as many ticks have gone by since that start as all that have left by
then had to execute, and those who have left did so no earlier than if they had been served one
after the other in the order in which they left (`Machine.Behind`).
-/

namespace Uniprocessor

namespace Machine

variable {σ : Type} {sc : Scenario} {P : Policy σ} {limit : Nat} {m m' : Machine σ} {pid : Pid}
  {start : Nat}

/-! ## When jobs have arrived -/

theorem mem_arrived {tick : Nat} :
    (tick, pid) ∈ m.arrived ↔ ⟨tick, .arrived pid⟩ ∈ m.events.toList := by
  apply mem_filterMap_iff_of_forall
  rintro ⟨when, what⟩
  cases what <;> simp [Event.arrival?]

/-- A job that has arrived did so at its start, as the machine is `Registered`. -/
theorem Registered.tick_eq_start (hsc : sc.Sound) (h : m.Registered sc) {job : Job}
    (hjob : job ∈ sc.jobs) {tick : Nat} (he : ⟨tick, .arrived job.pid⟩ ∈ m.events.toList) :
    tick = job.start := by
  have hmem := List.mem_append_left (m.arrivals.map fun job => (job.start, job.pid))
    (mem_arrived.2 he)
  rw [h.order] at hmem
  obtain ⟨other, hother, heq⟩ := List.mem_map.1 hmem
  obtain ⟨rfl, hpid⟩ := Prod.mk.inj heq
  rw [hsc.eq_of_pid ((List.mergeSort_perm _ _).mem_iff.1 hother) hjob hpid]

/-- A live process has started: it has arrived at its start, and the clock does not go back. -/
theorem Registered.start_le (hsc : sc.Sound) (h : m.Registered sc) (hpast : m.RefusedOnce)
    (hc : m.Chronicled) {job : Job} (hjob : job ∈ sc.jobs) {p : Process}
    (hp : m.state.process? job.pid = some p) : job.start ≤ m.state.tick := by
  obtain ⟨tick, he⟩ := mem_history.1 (hc.told.of_process? hp).1
  rw [← h.tick_eq_start hsc hjob he]
  exact hpast.past _ he

/-- In the trace a job that has arrived did so at its start, by `arrivalTick`. -/
theorem Registered.arrivalTick_eq (hsc : sc.Sound) (h : m.Registered sc) {job : Job}
    (hjob : job ∈ sc.jobs) (harrived : .arrived job.pid ∈ m.history) {t : Trace}
    (hevents : m.events.toList = t.events) : t.arrivalTick job.pid = some job.start := by
  obtain ⟨tick, he⟩ := mem_history.1 harrived
  apply Trace.tickOf_eq_some (hevents ▸ h.tick_eq_start hsc hjob he ▸ he)
  intro other hother
  exact h.tick_eq_start hsc hjob (hevents ▸ hother)

/-! ## How much has been executed -/

/-- How many ticks have been executed, by the slots that somebody has. -/
def busy (m : Machine σ) : Nat := m.slots.countP fun slot => slot.2.isSome

theorem busy_eq_countP (m : Machine σ) : m.busy = m.history.countP Happening.isExecuted := by
  rw [busy, slots, Trace.slotsOf, List.countP_filterMap, history, List.countP_map]
  apply List.countP_congr
  rintro ⟨tick, what⟩ -
  cases what <;> simp [Event.slot?, Event.turn?, Happening.isExecuted]

/-- Whoever has executed is a job, so `executedTicks` and `busy` count the same ticks. -/
theorem Enrolled.executedTicks_eq (hsc : sc.Sound) (hc : m.Chronicled) (h : m.Enrolled sc) :
    m.executedTicks sc = m.busy := by
  rw [busy_eq_countP, executedTicks, ← History.countP_isExecuted hsc.pids_nodup]
  exact fun pid hran => h.listed (hc.heard hran rfl)

/-- Jobs that have been executed to their ends were executed in the ticks that are `busy`, so their
lifespans add up to no more. -/
theorem Enrolled.sum_lifespan_le (hsc : sc.Sound) (hc : m.Chronicled) (h : m.Enrolled sc)
    {jobs : List Job} (hnodup : jobs.Nodup) (hjobs : ∀ job ∈ jobs, job ∈ sc.jobs ∧
      m.history.count (.executed job.pid) = job.lifespan) :
    (jobs.map Job.lifespan).sum ≤ m.busy := by
  obtain ⟨l, hperm, hsub⟩ := List.subperm_of_subset hnodup fun job hjob => (hjobs job hjob).1
  calc (jobs.map Job.lifespan).sum
      = (jobs.map fun job => m.history.count (.executed job.pid)).sum :=
        congrArg List.sum (List.map_congr_left fun job hjob => (hjobs job hjob).2.symm)
    _ = (l.map fun job => m.history.count (.executed job.pid)).sum :=
        ((hperm.map _).sum_eq).symm
    _ ≤ m.executedTicks sc := (hsub.map _).sum_le_sum fun _ _ => Nat.zero_le _
    _ = m.busy := h.executedTicks_eq hsc hc

/-- Since the first start no tick has done more than one tick of work: `busy` is at most the ticks
gone by. -/
def Worked (start : Nat) (m : Machine σ) : Prop := m.busy ≤ m.now - start

/-- Every stride leaves a machine `Worked`, if whoever executes has started: one slot at most is
filled when `now` moves. -/
theorem Worked.strides (h : m.Worked start) (hstr : m.Strides P limit m')
    (hstart : ∀ pid, m.phase = .executing pid → start ≤ m.state.tick) : m'.Worked start := by
  have hbusy : m.busy ≤ m.now - start := h
  rw [Worked]
  rcases hstr.slots with ⟨hslots, hnow, -⟩ | ⟨hnow, htick, ⟨pid, hphase, hslots⟩ | ⟨-, -, hslots⟩⟩
  · rw [hnow, busy, hslots]
    exact hbusy
  · have hbegun := hstart pid hphase
    have hmore : m'.busy = m.busy + 1 := by
      rw [busy, hslots, List.countP_append]
      rfl
    omega
  · have hsame : m'.busy = m.busy := by
      rw [busy, hslots, List.countP_append]
      rfl
    omega

/-! ## Who has left -/

/-- Those who have left are jobs, and did so no earlier than if they had been served in this order
from the first start on. -/
structure Behind (sc : Scenario) (start : Nat) (gone : List Job) (m : Machine σ) : Prop where
  /-- they are jobs and have left -/
  left : ∀ job ∈ gone, job ∈ sc.jobs ∧ .left job.pid ∈ m.history
  /-- nobody left twice -/
  nodup : gone.Nodup
  /-- everybody who has left is among them, and was not done by the timetable after that -/
  departed : ∀ gone' ∈ m.departed, ∃ x ∈ Timetable.stints start gone,
    x.job.pid = gone'.2 ∧ x.done ≤ gone'.1

namespace Behind

variable {gone : List Job}

theorem initial (sc : Scenario) (start : Nat) (memory : σ) :
    (Machine.initial sc memory).Behind sc start [] where
  left _ hjob := absurd hjob List.not_mem_nil
  nodup := List.nodup_nil
  departed _ hgone := absurd hgone List.not_mem_nil

/-- Whoever leaves does so no earlier than if it had been served after those who left before: all of
them together have been executed in the ticks that are `busy`. -/
theorem leave (hsc : sc.Sound) (hm : m.Steady sc) (hc : m.Chronicled) (henr : m.Enrolled sc)
    (hworked : m.Worked start) (hstart : ∀ job ∈ sc.jobs, job.start = start)
    (h : m.Behind sc start gone) (hnow : m.now = m.state.tick)
    (hleaver : m.state.leaver? = some pid) (hgrows : ∀ what ∈ m.history, what ∈ m'.history)
    (hleft : .left pid ∈ m'.history)
    (hdeparted : m'.departed = m.departed ++ [(m.state.tick, pid)]) :
    ∃ gone', m'.Behind sc start gone' := by
  obtain ⟨-, p, hp, hage⟩ := State.leaver?_eq_some.1 hleaver
  obtain ⟨job, hjob, -, rfl, -, -⟩ := hm.stage.plays hp
  obtain ⟨hcount, hle, hlife⟩ := hc.count_executed_of_live hsc hm hjob hp
  have hfresh : job ∉ gone := fun hin => (hc.told.of_process? hp).2.1 (h.left job hin).2
  have hnodup : (gone ++ [job]).Nodup :=
    List.nodup_append.2 ⟨h.nodup, List.nodup_singleton job, fun a ha b hb heq =>
      hfresh (List.mem_singleton.1 hb ▸ heq ▸ ha)⟩
  have hin : ∀ other ∈ gone ++ [job], other ∈ sc.jobs ∧
      m.history.count (.executed other.pid) = other.lifespan := by
    intro other hother
    rcases List.mem_append.1 hother with hother | hother
    · obtain ⟨hmem, hleft⟩ := h.left other hother
      exact ⟨hmem, henr.served hmem hleft⟩
    · obtain rfl := List.mem_singleton.1 hother
      exact ⟨hjob, by omega⟩
  -- What they had to execute has been executed since the first start.
  have hfinish : Timetable.finish start (gone ++ [job]) ≤ m.state.tick := by
    have hwork := henr.sum_lifespan_le hsc hc hnodup hin
    have hbusy : m.busy ≤ m.now - start := hworked
    have hpos := (hsc.jobs job hjob).lifespan_pos
    rw [Timetable.finish_of_started fun other hother => (hstart other (hin other hother).1).le]
    rw [List.map_append, List.map_singleton, List.sum_append, List.sum_singleton] at hwork ⊢
    omega
  refine ⟨gone ++ [job], fun other hother => ?_, hnodup, fun left hgone => ?_⟩
  · rcases List.mem_append.1 hother with hother | hother
    · exact (h.left other hother).imp_right (hgrows _)
    · exact List.mem_singleton.1 hother ▸ ⟨hjob, hleft⟩
  · rw [hdeparted, List.mem_append] at hgone
    rcases hgone with hgone | hgone
    · obtain ⟨x, hx, hdone⟩ := h.departed left hgone
      refine ⟨x, ?_, hdone⟩
      rw [Timetable.stints_concat]
      exact List.mem_append_left _ hx
    · obtain rfl := List.mem_singleton.1 hgone
      obtain ⟨x, hx, rfl⟩ := Timetable.exists_stint start
        (List.mem_append_right gone (List.mem_singleton_self job))
      exact ⟨x, hx, rfl, (Timetable.bounds_of_mem_stints hx).2.2.trans hfinish⟩

/-- Every stride leaves those who have left `Behind` the timetable, with whoever leaves now at its
end. -/
theorem strides (hsc : sc.Sound) (hm : m.Steady sc) (hc : m.Chronicled) (henr : m.Enrolled sc)
    (hworked : m.Worked start) (hstart : ∀ job ∈ sc.jobs, job.start = start)
    (h : m.Behind sc start gone) (hstr : m.Strides P sc.limit m') :
    ∃ gone', m'.Behind sc start gone' := by
  obtain ⟨later, hnotes⟩ := hstr.notes
  have hgrows : ∀ what ∈ m.history, what ∈ m'.history := fun what hwhat =>
    hnotes.history ▸ List.mem_append_left later hwhat
  rcases hm.departed hstr with hsame | ⟨pid, hphase, hleaver, hleft, hdeparted⟩
  · exact ⟨gone, fun job hjob => (h.left job hjob).imp_right (hgrows _), h.nodup,
      hsame.symm ▸ h.departed⟩
  · exact h.leave hsc hm hc henr hworked hstart (now_of_choosing hphase) hleaver hgrows hleft
      hdeparted

/-- If every job has left, those who have left are all the jobs: `Behind` has each of them once. -/
theorem perm_of_left (hsc : sc.Sound) (h : m.Behind sc start gone)
    (hall : ∀ job ∈ sc.jobs, .left job.pid ∈ m.history) : gone.Perm sc.jobs := by
  refine (List.perm_ext_iff_of_nodup h.nodup (hsc.pids_nodup.of_map _)).2 fun job =>
    ⟨fun hin => (h.left job hin).1, fun hjob => ?_⟩
  obtain ⟨tick, he⟩ := mem_history.1 (hall job hjob)
  obtain ⟨x, hx, hpid, -⟩ := h.departed _ (mem_departed.2 he)
  have hin := Timetable.job_mem_of_mem_stints hx
  exact hsc.eq_of_pid (h.left _ hin).1 hjob hpid ▸ hin

/-- In the trace nobody left before its stint was over, by `departureTick`. -/
theorem le_departureTick (hsc : sc.Sound) (h : m.Behind sc start gone) {t : Trace}
    (hevents : m.events.toList = t.events) {x : Stint} (hx : x ∈ Timetable.stints start gone) :
    ∃ tick, t.departureTick x.job.pid = some tick ∧ x.done ≤ tick := by
  obtain ⟨tick, he⟩ := mem_history.1 (h.left _ (Timetable.job_mem_of_mem_stints hx)).2
  obtain ⟨first, hfirst, hmem⟩ := Trace.exists_tickOf (hevents ▸ he)
  obtain ⟨y, hy, hpid, hdone⟩ := h.departed _ (mem_departed.2 (hevents ▸ hmem))
  have hnodup : (gone.map Job.pid).Nodup := h.nodup.map_on fun a ha b hb heq =>
    hsc.eq_of_pid (h.left a ha).1 (h.left b hb).1 heq
  exact ⟨first, hfirst, Timetable.eq_of_pid hnodup hy hx hpid ▸ hdone⟩

end Behind

end Machine

namespace Scenario

variable {σ : Type} {sc : Scenario} {P : Policy σ} {memory : σ} {m : Machine σ} {start : Nat}

/-- If all jobs start in the same tick, wherever a run gets to, no more has been executed since then
than ticks have gone by, and nobody has left before as much has been executed: the machine has
`Worked` and is `Behind`. -/
theorem Reaches.behind (hsc : sc.Admitted) (hP : P.Lawful) (hcons : P.Conserving)
    (hstart : ∀ job ∈ sc.jobs, job.start = start) (h : sc.Reaches P memory m)
    (hm : m.phase.isSwitching = false) :
    m.Worked start ∧ ∃ gone, m.Behind sc start gone := by
  refine h.invariant_of_reached hsc hP
    (I := fun m => m.Worked start ∧ ∃ gone, m.Behind sc start gone)
    (fun memory => ⟨Nat.zero_le _, [], .initial sc start memory⟩) ?_ hm
  rintro m m' hm hreach ⟨hworked, gone, hbehind⟩ hstr -
  have hrest := hm.isSwitching_eq_false
  obtain ⟨hchron, henr, -⟩ := hreach.chronicled hsc hP hrest
  obtain ⟨hreg, -, -, -⟩ := hreach.registered hsc hP hcons hrest
  refine ⟨hworked.strides hstr fun pid hphase => ?_,
    hbehind.strides hsc.sound hm hchron henr hworked hstart hstr⟩
  -- Whoever executes has arrived.
  obtain ⟨-, p, -, hp, -⟩ := hm.fits_of hphase
  obtain ⟨job, hjob, -, rfl, -⟩ := hm.stage.plays hp
  exact hstart job hjob ▸
    hreg.start_le hsc.sound (hreach.refusedOnce hsc hP hrest) hchron hjob hp

end Scenario

end Uniprocessor
