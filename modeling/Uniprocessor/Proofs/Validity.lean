import Uniprocessor.Proofs.Admission

/-!
# Valid drafts

A draft is valid when everything holds that a run relies on, said of its jobs, of their requests and
of all pairs of requests, with sums that may grow past every bound (`Draft.Valid`). The check goes
through the jobs and the requests once, and compares each request with those before it only;
nevertheless it lets exactly the valid drafts through, as long as every hold ends at the largest
tick or before (`Draft.build_eq_ok`).

A hold that would end later is compared as if it ended at the largest tick. It fits into a lifespan
of the largest tick then, and only into that one, so the check lets it through although it outlives
the process (`Draft.build_overlong`).
-/

namespace Uniprocessor

namespace Draft

/-- A run can rely on the jobs of the draft: the check in terms of sums that may grow past every
bound, and of all pairs of requests. -/
structure Valid (d : Draft) : Prop where
  /-- there is something to run -/
  jobs_ne : d.jobs ≠ []
  /-- the resource table is not too long -/
  resourceCount_le : d.resourceCount ≤ largestResourceCount
  /-- no number is repeated -/
  pids_nodup : (d.jobs.map Job.pid).Nodup
  /-- every job is sound -/
  jobs : ∀ job ∈ d.jobs, job.Sound d.resourceCount d.ceiling

/-- The scenario that the draft describes, whether it has defects or not. -/
def scenario (d : Draft) : Scenario where
  resourceCount := d.resourceCount
  ceiling := d.ceiling
  limit := d.limit
  jobs := d.jobs

variable {d : Draft} {sc : Scenario}

/-- What `build` decides: a draft is built into its `scenario`, without a change, if every check
passes. Every other theorem about the check starts here. -/
theorem build_iff : d.build = .ok sc ↔
    d.jobs ≠ [] ∧ d.resourceCount ≤ largestResourceCount ∧ (d.jobs.map Job.pid).Nodup ∧
      (∀ job ∈ d.jobs, d.checkJob job = .ok ()) ∧ sc = d.scenario := by
  simp only [build, check_bind_eq_ok, demand_eq_ok, checkJobs_eq_ok, List.not_mem_nil,
    not_false_eq_true, implies_true, true_and, and_assoc]
  refine and_congr_right fun _ => and_congr_right fun _ => and_congr_right fun _ =>
    and_congr_right fun _ => ?_
  exact ⟨fun h => (Except.ok.inj h).symm, fun h => congrArg Except.ok h.symm⟩

/-- Valid drafts have no hold that would end after the largest tick, since it ends within a lifespan
and no lifespan does. -/
theorem Valid.le_largestTick (h : d.Valid) (hlife : ∀ job ∈ d.jobs, job.lifespan ≤ largestTick)
    {job : Job} (hjob : job ∈ d.jobs) {q : Request} (hq : q ∈ job.requests) :
    q.due + q.duration ≤ largestTick :=
  Nat.le_trans ((h.jobs job hjob).requests q hq).within (hlife job hjob)

/-- The **check of a draft is exact**. Let no lifespan be above the largest tick. A draft is
`Valid`, and the scenario is the one that it describes, exactly if the draft is built into that
scenario and no hold would end after the largest tick. And whatever a draft is built into is the
scenario that it describes; the draft has jobs, with different numbers, and a table that is not too
long, and its jobs are `Job.Sound` unless their lifespan is the largest tick. -/
theorem build_eq_ok (d : Draft) (sc : Scenario)
    (hlife : ∀ job ∈ d.jobs, job.lifespan ≤ largestTick) :
    (d.Valid ∧ sc = d.scenario ↔ d.build = .ok sc ∧
      ∀ job ∈ d.jobs, ∀ q ∈ job.requests, q.due + q.duration ≤ largestTick) ∧
    (d.build = .ok sc → sc = d.scenario ∧ d.jobs ≠ [] ∧
      d.resourceCount ≤ largestResourceCount ∧ (d.jobs.map Job.pid).Nodup ∧
      ∀ job ∈ d.jobs, job.Sound d.resourceCount d.ceiling ∨ job.lifespan = largestTick) := by
  refine ⟨⟨fun ⟨h, hsc⟩ => ?_, fun ⟨h, hends⟩ => ?_⟩, fun h => ?_⟩
  · have hends : ∀ job ∈ d.jobs, ∀ q ∈ job.requests, q.due + q.duration ≤ largestTick :=
      fun job hjob q hq => h.le_largestTick hlife hjob hq
    refine ⟨build_iff.2 ⟨h.jobs_ne, h.resourceCount_le, h.pids_nodup, fun job hjob => ?_, hsc⟩,
      hends⟩
    exact (checkJob_eq_ok (hends job hjob)).2 (h.jobs job hjob)
  · obtain ⟨hne, hcount, hnodup, hjobs, hsc⟩ := build_iff.1 h
    refine ⟨⟨hne, hcount, hnodup, fun job hjob => ?_⟩, hsc⟩
    exact (checkJob_eq_ok (hends job hjob)).1 (hjobs job hjob)
  · obtain ⟨hne, hcount, hnodup, hjobs, hsc⟩ := build_iff.1 h
    refine ⟨hsc, hne, hcount, hnodup, fun job hjob => ?_⟩
    rcases Nat.lt_or_eq_of_le (hlife job hjob) with hlt | heq
    · exact Or.inl (sound_of_checkJob (hjobs job hjob) hlt)
    · exact Or.inr heq

/-- A job with two holds of one resource, the second of which begins where the first one ends, and
ends with the process. -/
def adjoining : Draft where
  jobs := [{ pid := 1, lifespan := 4, prio := 7, requests := [⟨0, 1, 1⟩, ⟨0, 2, 2⟩] }]

/-- The draft with the adjoining holds is valid, and is built into the scenario that it
describes. -/
theorem build_adjoining : adjoining.Valid ∧ adjoining.build = .ok adjoining.scenario :=
  have hvalid : adjoining.Valid :=
    ((build_eq_ok adjoining adjoining.scenario (by decide)).1.2 ⟨rfl, by decide⟩).1
  ⟨hvalid, ((build_eq_ok adjoining adjoining.scenario (by decide)).1.1 ⟨hvalid, rfl⟩).1⟩

/-- A job of the longest lifespan with a hold that would last two ticks longer. -/
def overlong : Draft where
  jobs := [{ pid := 1, lifespan := largestTick, requests := [⟨0, largestTick, 2⟩] }]

/-- The draft with the overlong hold is built, although it is not valid: its hold ends neither
within the lifespan nor before the largest tick. -/
theorem build_overlong : overlong.build = .ok overlong.scenario ∧ ¬ overlong.Valid := by
  refine ⟨rfl, fun h => ?_⟩
  have hwithin :=
    ((h.jobs _ (List.mem_singleton_self _)).requests _ (List.mem_singleton_self _)).within
  exact absurd hwithin (by decide)

end Draft

end Uniprocessor
