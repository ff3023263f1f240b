import Mathlib.Data.List.Pairwise
import Mathlib.Tactic.Tauto
import Uniprocessor.Fault
import Uniprocessor.Scenario.Draft

/-!
# What the check of a draft establishes

A draft becomes a scenario when each of its jobs passes the check. What a run relies on is stated
here without saturating sums (`Job.Sound`, `Scenario.Sound`): process numbers are not repeated,
every job has something to execute, and its holds are of resources that exist, end within its
lifespan, and do not overlap where they are of one resource.

The check ends a hold that would pass the largest tick at the largest tick. So it establishes this
only for lifespans below the largest tick, and a scenario with such lifespans and a limit that the
clock can reach is `Admitted`.
-/

namespace Uniprocessor

/-- The hold of the first request is over before that of the second begins, if they are of one
resource; with sums that do not saturate. -/
def Request.Apart (q other : Request) : Prop :=
  q.resource = other.resource → q.due + q.duration ≤ other.due ∨ other.due + other.duration ≤ q.due

/-- The hold is of one of `resourceCount` resources, has a length, and ends within the lifespan:
what the check wants of one request by itself. -/
structure Request.Sound (q : Request) (resourceCount lifespan : Nat) : Prop where
  /-- the resource exists -/
  resource_lt : q.resource < resourceCount
  /-- the hold has a length -/
  duration_pos : 0 < q.duration
  /-- the hold ends within the lifespan -/
  within : q.due + q.duration ≤ lifespan

/-- The job has something to execute, a priority up to the ceiling, and holds that are
`Request.Sound` and `Request.Apart` by pairs. -/
structure Job.Sound (job : Job) (resourceCount ceiling : Nat) : Prop where
  /-- there is something to execute -/
  lifespan_pos : 0 < job.lifespan
  /-- the priority is not above the ceiling -/
  prio_le : job.prio ≤ ceiling
  /-- every hold is sound -/
  requests : ∀ q ∈ job.requests, q.Sound resourceCount job.lifespan
  /-- holds of one resource do not overlap -/
  apart : job.requests.Pairwise Request.Apart

/-- The jobs have different numbers and are `Job.Sound`: what every proof about a run relies on. -/
structure Scenario.Sound (sc : Scenario) : Prop where
  /-- no number is repeated -/
  pids_nodup : (sc.jobs.map Job.pid).Nodup
  /-- every job is sound -/
  jobs : ∀ job ∈ sc.jobs, job.Sound sc.resourceCount sc.ceiling

/-- The scenario passed the check of its draft, every lifespan is below the largest tick, and the
limit is not above it. -/
structure Scenario.Admitted (sc : Scenario) : Prop where
  /-- the draft had no defect -/
  built : ∃ d : Draft, d.build = .ok sc
  /-- lifespans are below the largest tick -/
  lifespan_lt : ∀ job ∈ sc.jobs, job.lifespan < largestTick
  /-- the clock can reach the limit -/
  limit_le : sc.limit ≤ largestTick

namespace Draft

/-- Two checks in a row pass if both do: the one fact about the error monad that taking the check
apart needs. -/
theorem check_bind_eq_ok {x : Except Defect Unit} {α : Type} {f : Unit → Except Defect α} {a : α} :
    (x >>= f) = .ok a ↔ x = .ok () ∧ f () = .ok a := by
  cases x <;> simp

/-- What `checkRequests` decides: each of the requests fits the job, and it overlaps none before it,
be it among the `earlier` ones or in the list itself. -/
theorem checkRequests_eq_ok {d : Draft} {job : Job} {earlier rest : List Request} :
    d.checkRequests job earlier rest = .ok () ↔
      (∀ q ∈ rest, q.resource < d.resourceCount ∧ 0 < q.duration ∧ q.expiry ≤ job.lifespan) ∧
        (∀ q ∈ rest, ∀ other ∈ earlier, q.overlaps other = false) ∧
          rest.Pairwise fun other q => q.overlaps other = false := by
  induction rest generalizing earlier with
  | nil => simp [checkRequests]
  | cons q rest ih =>
    simp only [checkRequests, check_bind_eq_ok, demand_eq_ok, ih, List.any_eq_false,
      Bool.not_eq_true, List.forall_mem_cons, List.pairwise_cons, List.mem_append,
      List.mem_singleton, or_imp, forall_and, forall_eq]
    tauto

/-- What `checkJobs` decides: the numbers are new and not repeated, and each job passes `checkJob`
by itself. -/
theorem checkJobs_eq_ok {d : Draft} {seen : List Pid} {jobs : List Job} :
    d.checkJobs seen jobs = .ok () ↔
      (∀ job ∈ jobs, job.pid ∉ seen) ∧ (jobs.map Job.pid).Nodup ∧
        ∀ job ∈ jobs, d.checkJob job = .ok () := by
  induction jobs generalizing seen with
  | nil => simp [checkJobs]
  | cons job rest ih =>
    simp only [checkJobs, check_bind_eq_ok, demand_eq_ok, ih, List.mem_cons, not_or, List.map_cons,
      List.nodup_cons, List.mem_map, not_exists, not_and, or_imp, forall_and, forall_eq]
    tauto

/-- Where no hold is cut off at the largest tick, `overlaps` says what it is meant to say: one hold
is over before the other begins. -/
theorem overlaps_eq_false {q other : Request} (hq : q.due + q.duration ≤ largestTick)
    (hother : other.due + other.duration ≤ largestTick) :
    q.overlaps other = false ↔ other.Apart q := by
  simp only [Request.overlaps, Request.expiry, Request.Apart, decide_eq_false_iff_not, not_and,
    Nat.not_lt, Nat.min_eq_right hq, Nat.min_eq_right hother]
  refine imp_congr_right fun _ => ?_
  omega

/-- Where no hold is cut off at the largest tick, the jobs that pass `checkJob` are exactly the
sound ones. -/
theorem checkJob_eq_ok {d : Draft} {job : Job}
    (h : ∀ q ∈ job.requests, q.due + q.duration ≤ largestTick) :
    d.checkJob job = .ok () ↔ job.Sound d.resourceCount d.ceiling := by
  simp only [checkJob, check_bind_eq_ok, demand_eq_ok, checkRequests_eq_ok]
  have hexpiry : ∀ q ∈ job.requests, q.expiry = q.due + q.duration :=
    fun q hq => Nat.min_eq_right (h q hq)
  constructor
  · rintro ⟨hpos, hprio, hfit, -, hover⟩
    refine ⟨hpos, hprio, fun q hq => ?_, hover.imp_of_mem fun ho hq hoverlap => ?_⟩
    · obtain ⟨hres, hdur, hle⟩ := hfit q hq
      exact ⟨hres, hdur, hexpiry q hq ▸ hle⟩
    · exact (overlaps_eq_false (h _ hq) (h _ ho)).1 hoverlap
  · rintro ⟨hpos, hprio, hrequests, hapart⟩
    refine ⟨hpos, hprio, fun q hq => ?_, fun q _ other ho => absurd ho List.not_mem_nil,
      hapart.imp_of_mem fun ho hq ha => ?_⟩
    · obtain ⟨hres, hdur, hle⟩ := hrequests q hq
      exact ⟨hres, hdur, (hexpiry q hq).symm ▸ hle⟩
    · exact (overlaps_eq_false (h _ hq) (h _ ho)).2 ha

/-- A hold of a job that passes `checkJob` is not cut off, if the lifespan is below the largest
tick: a hold that is cut off ends there, after the lifespan. -/
theorem le_largestTick_of_checkJob {d : Draft} {job : Job} (h : d.checkJob job = .ok ())
    (hlife : job.lifespan < largestTick) {q : Request} (hq : q ∈ job.requests) :
    q.due + q.duration ≤ largestTick := by
  simp only [checkJob, check_bind_eq_ok, demand_eq_ok, checkRequests_eq_ok] at h
  have hle := (h.2.2.1 q hq).2.2
  rw [Request.expiry] at hle
  omega

/-- A job that passes `checkJob` is sound, if its lifespan is below the largest tick, since then no
hold of it is cut off. -/
theorem sound_of_checkJob {d : Draft} {job : Job} (h : d.checkJob job = .ok ())
    (hlife : job.lifespan < largestTick) : job.Sound d.resourceCount d.ceiling :=
  (checkJob_eq_ok fun _ => le_largestTick_of_checkJob h hlife).1 h

/-- A scenario without lifespans of the largest tick is `Sound` if its draft was built: the way from
the check to what runs rely on. -/
theorem sound_of_build {d : Draft} {sc : Scenario} (h : d.build = .ok sc)
    (hlife : ∀ job ∈ sc.jobs, job.lifespan < largestTick) : sc.Sound := by
  simp only [build, check_bind_eq_ok, demand_eq_ok, checkJobs_eq_ok] at h
  obtain ⟨-, -, ⟨-, hnodup, hjobs⟩, hsc⟩ := h
  cases hsc
  exact ⟨hnodup, fun job hjob => sound_of_checkJob (hjobs job hjob) (hlife job hjob)⟩

end Draft

theorem Scenario.Admitted.sound {sc : Scenario} (h : sc.Admitted) : sc.Sound := by
  obtain ⟨d, hd⟩ := h.built
  exact Draft.sound_of_build hd h.lifespan_lt

/-- An `Admitted` scenario has a job, since a draft without jobs is not built. -/
theorem Scenario.Admitted.exists_job {sc : Scenario} (h : sc.Admitted) : ∃ job, job ∈ sc.jobs := by
  obtain ⟨d, hd⟩ := h.built
  simp only [Draft.build, Draft.check_bind_eq_ok, Draft.demand_eq_ok] at hd
  obtain ⟨hjobs, -, -, hsc⟩ := hd
  cases hsc
  exact List.exists_mem_of_ne_nil _ hjobs

/-- Two processes, the second one more urgent and later, each of which holds one resource for its
whole lifespan and asks for the other one after its first tick. -/
def Scenario.crossed : Scenario where
  resourceCount := 2
  ceiling := 9
  limit := 100
  jobs := [
    { pid := 1, lifespan := 3, prio := 1, requests := [⟨0, 0, 3⟩, ⟨1, 1, 1⟩] },
    { pid := 2, start := 1, lifespan := 3, prio := 9, requests := [⟨1, 0, 3⟩, ⟨0, 1, 1⟩] }]

theorem Scenario.admitted_crossed : Scenario.crossed.Admitted where
  built := ⟨⟨2, 9, 100, Scenario.crossed.jobs, 3⟩, rfl⟩
  lifespan_lt := by decide
  limit_le := by decide

end Uniprocessor
