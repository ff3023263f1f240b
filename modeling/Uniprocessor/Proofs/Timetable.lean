import Mathlib.Data.List.Nodup
import Uniprocessor.Scenario

/-!
# Timetables

Jobs that are served one after the other, each without a break, begin as soon as they have started
and the job before is done. So the order of service says who has the processor in which tick
(`Timetable.occupant`), and when everybody is done (`Timetable.finish`). Nothing is said here about
the machine; that it follows such a timetable under some disciplines is proved elsewhere.
-/

namespace Uniprocessor

/-- The ticks in which a job has the processor, without a break: from `first` on, as many as its
lifespan. -/
structure Stint where
  /-- the job -/
  job : Job
  /-- the first of the ticks -/
  first : Nat
  deriving DecidableEq, Repr

namespace Stint

/-- The tick by which the job is done, the first one that is not its own any more. -/
def done (x : Stint) : Nat := x.first + x.job.lifespan

/-- Whether the tick belongs to the job: it lies from `first` on and before `done`. -/
def covers (x : Stint) (tick : Nat) : Bool := x.first ≤ tick ∧ tick < x.done

theorem covers_iff {x : Stint} {tick : Nat} :
    x.covers tick = true ↔ x.first ≤ tick ∧ tick < x.done := by
  simp [covers]

end Stint

namespace Timetable

/-- The stints of jobs that are served in this order, by a processor that is free from `free` on. A
job begins once it has started and the job before is done. -/
def stints : Nat → List Job → List Stint
  | _, [] => []
  | free, job :: rest =>
    ⟨job, max free job.start⟩ :: stints (max free job.start + job.lifespan) rest

/-- The tick by which all of them are done, for a processor that is free from some tick on; the tick
it is free from if there are none. -/
def finish : Nat → List Job → Nat
  | free, [] => free
  | free, job :: rest => finish (max free job.start + job.lifespan) rest

/-- Who has the processor in the tick, if anybody has: the job of the first stint that `covers`
it. -/
def occupant (free : Nat) (jobs : List Job) (tick : Nat) : Option Pid :=
  ((stints free jobs).find? fun x => x.covers tick).map fun x => x.job.pid

variable {free tick : Nat} {jobs rest : List Job} {job : Job} {x y : Stint} {pid : Pid}

/-! ## When jobs begin and are done -/

theorem finish_append (free : Nat) (jobs rest : List Job) :
    finish free (jobs ++ rest) = finish (finish free jobs) rest := by
  induction jobs generalizing free with
  | nil => rfl
  | cons job jobs ih => exact ih _

/-- One more job at the end begins at `finish` or at its own start, whichever is later, and takes
its lifespan: the recursion of `finish` from the other end. -/
theorem finish_concat (free : Nat) (jobs : List Job) (job : Job) :
    finish free (jobs ++ [job]) = max (finish free jobs) job.start + job.lifespan :=
  finish_append free jobs [job]

theorem stints_concat (free : Nat) (jobs : List Job) (job : Job) :
    stints free (jobs ++ [job]) =
      stints free jobs ++ [⟨job, max (finish free jobs) job.start⟩] := by
  induction jobs generalizing free with
  | nil => rfl
  | cons other jobs ih => exact congrArg _ (ih _)

/-- Every job has its stint, in the order of service: `stints` neither drops nor repeats a job. -/
theorem map_job_stints (free : Nat) (jobs : List Job) :
    (stints free jobs).map Stint.job = jobs := by
  induction jobs generalizing free with
  | nil => rfl
  | cons job jobs ih => exact congrArg _ (ih _)

theorem job_mem_of_mem_stints (h : x ∈ stints free jobs) : x.job ∈ jobs := by
  rw [← map_job_stints free jobs]
  exact List.mem_map_of_mem h

theorem exists_stint (free : Nat) (h : job ∈ jobs) : ∃ x ∈ stints free jobs, x.job = job := by
  rw [← map_job_stints free jobs] at h
  exact List.mem_map.1 h

theorem le_finish (free : Nat) (jobs : List Job) : free ≤ finish free jobs := by
  induction jobs generalizing free with
  | nil => exact Nat.le_refl _
  | cons job jobs ih =>
    have hrest := ih (max free job.start + job.lifespan)
    rw [finish]
    omega

/-- The bounds of a stint: it begins when the processor is free and the job has started, and it is
done by `finish`. -/
theorem bounds_of_mem_stints (h : x ∈ stints free jobs) :
    free ≤ x.first ∧ x.job.start ≤ x.first ∧ x.done ≤ finish free jobs := by
  induction jobs generalizing free with
  | nil => cases h
  | cons job jobs ih =>
    rw [finish]
    rcases List.mem_cons.1 h with rfl | h
    · exact ⟨Nat.le_max_left .., Nat.le_max_right .., le_finish ..⟩
    · obtain ⟨hfree, hstart, hdone⟩ := ih h
      exact ⟨by omega, hstart, hdone⟩

/-- Whatever is left to serve is done no earlier than its lifespan after its start, so `finish` is
no earlier either. -/
theorem start_add_le_finish (free : Nat) (h : job ∈ jobs) :
    job.start + job.lifespan ≤ finish free jobs := by
  obtain ⟨x, hx, rfl⟩ := exists_stint free h
  obtain ⟨-, hstart, hdone⟩ := bounds_of_mem_stints hx
  rw [Stint.done] at hdone
  omega

/-- A job that is still to serve puts off `finish` by at least its lifespan, wherever among the
`rest` it stands. -/
theorem finish_add_le_finish (free : Nat) (h : job ∈ rest) :
    finish free jobs + job.lifespan ≤ finish free (jobs ++ rest) := by
  rw [finish_append]
  obtain ⟨x, hx, rfl⟩ := exists_stint (finish free jobs) h
  obtain ⟨hfree, -, hdone⟩ := bounds_of_mem_stints hx
  rw [Stint.done] at hdone
  omega

/-! ## Who has the processor -/

/-- Whoever is the `occupant` of a tick has a stint that covers it. -/
theorem exists_of_occupant (h : occupant free jobs tick = some pid) :
    ∃ x ∈ stints free jobs, x.job.pid = pid ∧ x.covers tick = true := by
  obtain ⟨x, hx, hpid⟩ := Option.map_eq_some_iff.1 h
  exact ⟨x, List.mem_of_find?_eq_some hx, hpid,
    List.find?_some (p := fun x : Stint => x.covers tick) hx⟩

/-- In a stint nobody else has the processor: `occupant` is the stint's own job, since stints do not
overlap. -/
theorem occupant_of_covers (hx : x ∈ stints free jobs) (h : x.covers tick = true) :
    occupant free jobs tick = some x.job.pid := by
  induction jobs generalizing free with
  | nil => cases hx
  | cons job jobs ih =>
    rw [occupant, stints]
    rcases List.mem_cons.1 hx with rfl | hx
    · rw [List.find?_cons_of_pos (p := fun x : Stint => x.covers tick) h]
      rfl
    · rw [List.find?_cons_of_neg]
      · exact ih hx
      · -- The first stint is over when the others begin.
        intro hfirst
        have hle := (bounds_of_mem_stints hx).1
        have hbegin := (Stint.covers_iff.1 h).1
        have hover : tick < max free job.start + job.lifespan := (Stint.covers_iff.1 hfirst).2
        omega

/-- If no number is repeated, every process has one stint, so a stint is told by its process. -/
theorem eq_of_pid (hnodup : (jobs.map Job.pid).Nodup) (hx : x ∈ stints free jobs)
    (hy : y ∈ stints free jobs) (hpid : x.job.pid = y.job.pid) : x = y := by
  rw [← map_job_stints free jobs, List.map_map] at hnodup
  exact List.inj_on_of_nodup_map hnodup hx hy hpid

/-- If no number is repeated, a process is the `occupant` of exactly the ticks that its stint
covers: `exists_of_occupant` and `occupant_of_covers` in one. -/
theorem occupant_eq_some_iff (hnodup : (jobs.map Job.pid).Nodup) (hx : x ∈ stints free jobs) :
    occupant free jobs tick = some x.job.pid ↔ x.covers tick = true := by
  refine ⟨fun h => ?_, occupant_of_covers hx⟩
  obtain ⟨y, hy, hpid, hcovers⟩ := exists_of_occupant h
  exact eq_of_pid hnodup hy hx hpid ▸ hcovers

theorem occupant_eq_none_iff :
    occupant free jobs tick = none ↔ ∀ x ∈ stints free jobs, x.covers tick = false := by
  rw [occupant, Option.map_eq_none_iff, List.find?_eq_none]
  simp only [Bool.not_eq_true]

/-- Nobody is the `occupant` from `finish` on: all are done. -/
theorem occupant_of_finish_le (h : finish free jobs ≤ tick) : occupant free jobs tick = none := by
  rw [occupant_eq_none_iff]
  intro x hx
  rw [Bool.eq_false_iff]
  intro hcovers
  have hdone := (bounds_of_mem_stints hx).2.2
  have hlt := (Stint.covers_iff.1 hcovers).2
  omega

/-- One more job at the end changes nothing for the ticks before its stint, so a timetable may be
read while it is still growing. -/
theorem occupant_concat (h : tick < max (finish free jobs) job.start) :
    occupant free (jobs ++ [job]) tick = occupant free jobs tick := by
  rw [occupant, occupant, stints_concat, List.find?_append, List.find?_cons_of_neg, List.find?_nil,
    Option.or_none]
  intro hcovers
  have hfirst : max (finish free jobs) job.start ≤ tick := (Stint.covers_iff.1 hcovers).1
  omega

/-- One more job at the end is the `occupant` of all the ticks of its own stint, up to the new
`finish`. -/
theorem occupant_concat_self (hfirst : max (finish free jobs) job.start ≤ tick)
    (hlt : tick < finish free (jobs ++ [job])) :
    occupant free (jobs ++ [job]) tick = some job.pid := by
  have hmem : ⟨job, max (finish free jobs) job.start⟩ ∈ stints free (jobs ++ [job]) := by
    rw [stints_concat]
    exact List.mem_append_right _ (List.mem_singleton_self _)
  rw [finish_concat] at hlt
  exact occupant_of_covers hmem (Stint.covers_iff.2 ⟨hfirst, hlt⟩)

end Timetable

end Uniprocessor
