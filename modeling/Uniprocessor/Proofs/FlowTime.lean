import Mathlib.Algebra.Order.BigOperators.Group.List
import Mathlib.Algebra.Order.Ring.Nat
import Uniprocessor.Proofs.Timetable

/-!
# The order that takes least time

How long the jobs of a timetable take in all, each from its start to when it is done, depends on the
order in which they are served (`Timetable.flow`). If everybody has started, a job that is not
longer may go before its neighbour. So the shortest one may go to the front, and then the shortest
of the others, and no order takes less time than that by lifespan (`Timetable.flow_le_of_perm`).
-/

namespace Uniprocessor

namespace Timetable

/-- The ticks from the start of each job to the end of its stint, in all: the turnaround that the
order of service decides. -/
def flow (free : Nat) (jobs : List Job) : Nat :=
  ((stints free jobs).map fun x => x.done - x.job.start).sum

variable {free start : Nat} {jobs other front back rest : List Job} {job next : Job}

/-- A job that has started is served at once: its own share of `flow` is known, and the others
follow from its end on. -/
theorem flow_cons (h : job.start ≤ free) : flow free (job :: rest) =
    (free + job.lifespan - job.start) + flow (free + job.lifespan) rest := by
  rw [flow, stints, Nat.max_eq_left h, List.map_cons, List.sum_cons]
  rfl

/-- When everybody has started, nobody waits but for the others, so `finish` is the sum of the
lifespans and does not depend on the order. -/
theorem finish_of_started (h : ∀ job ∈ jobs, job.start ≤ free) :
    finish free jobs = free + (jobs.map Job.lifespan).sum := by
  induction jobs generalizing free with
  | nil => rfl
  | cons job rest ih =>
    obtain ⟨hjob, hrest⟩ := List.forall_mem_cons.1 h
    rw [finish, Nat.max_eq_left hjob, ih fun other hother => (hrest other hother).trans (by omega),
      List.map_cons, List.sum_cons, Nat.add_assoc]

/-- Until the first job starts, it does not matter from when on the processor is free, so `flow` may
be counted from the common start. -/
theorem flow_of_start (h : ∀ job ∈ jobs, job.start = start) (hfree : free ≤ start) :
    flow free jobs = flow start jobs := by
  cases jobs with
  | nil => rfl
  | cons job rest =>
    have hjob := h job (List.mem_cons_self ..)
    rw [flow, flow, stints, stints, hjob, Nat.max_eq_right hfree, Nat.max_self]

/-! ## The shortest first -/

/-- Of two neighbours the one that is not longer may go first: an exchange that never makes `flow`
greater. -/
theorem flow_swap (hjob : job.start ≤ free) (hnext : next.start ≤ free)
    (h : job.lifespan ≤ next.lifespan) :
    flow free (job :: next :: rest) ≤ flow free (next :: job :: rest) := by
  rw [flow_cons hjob, flow_cons (hnext.trans (by omega)), flow_cons hnext,
    flow_cons (hjob.trans (by omega)), Nat.add_right_comm free next.lifespan]
  omega

/-- Whoever is not longer than those before it may go to the front, by `flow_swap` with each of them
in turn. -/
theorem flow_le_of_front (hstart : ∀ x ∈ front ++ job :: back, x.start ≤ free)
    (hmin : ∀ x ∈ front, job.lifespan ≤ x.lifespan) :
    flow free (job :: (front ++ back)) ≤ flow free (front ++ job :: back) := by
  induction front generalizing free with
  | nil => exact Nat.le_refl _
  | cons first front ih =>
    obtain ⟨hfirst, hstart⟩ := List.forall_mem_cons.1 hstart
    obtain ⟨hle, hmin⟩ := List.forall_mem_cons.1 hmin
    have hlater : ∀ x ∈ front ++ job :: back, x.start ≤ free + first.lifespan :=
      fun x hx => (hstart x hx).trans (Nat.le_add_right ..)
    calc flow free (job :: first :: (front ++ back))
        ≤ flow free (first :: job :: (front ++ back)) :=
          flow_swap (hstart job (by simp)) hfirst hle
      _ = (free + first.lifespan - first.start) +
            flow (free + first.lifespan) (job :: (front ++ back)) := flow_cons hfirst
      _ ≤ (free + first.lifespan - first.start) +
            flow (free + first.lifespan) (front ++ job :: back) :=
          Nat.add_le_add_left (ih hlater hmin) _
      _ = flow free (first :: (front ++ job :: back)) := (flow_cons hfirst).symm

/-- When everybody has started, no order has a smaller `flow` than that by lifespan: the shortest
goes to the front by `flow_le_of_front`, and then the shortest of the others. -/
theorem flow_le_of_perm (hsorted : jobs.Pairwise fun a b => a.lifespan ≤ b.lifespan)
    (hperm : jobs.Perm other) (hstart : ∀ x ∈ jobs, x.start ≤ free) :
    flow free jobs ≤ flow free other := by
  induction jobs generalizing free other with
  | nil => rw [List.nil_perm.1 hperm]
  | cons job rest ih =>
    obtain ⟨hmin, hsorted⟩ := List.pairwise_cons.1 hsorted
    obtain ⟨front, back, rfl⟩ := List.append_of_mem (hperm.subset (List.mem_cons_self ..))
    have hrest : rest.Perm (front ++ back) := (hperm.trans List.perm_middle).cons_inv
    have hother : ∀ x ∈ front ++ job :: back, x.start ≤ free :=
      fun x hx => hstart x (hperm.mem_iff.2 hx)
    obtain ⟨hjob, hstart⟩ := List.forall_mem_cons.1 hstart
    calc flow free (job :: rest)
        = (free + job.lifespan - job.start) + flow (free + job.lifespan) rest := flow_cons hjob
      _ ≤ (free + job.lifespan - job.start) + flow (free + job.lifespan) (front ++ back) :=
          Nat.add_le_add_left
            (ih hsorted hrest fun x hx => (hstart x hx).trans (Nat.le_add_right ..)) _
      _ = flow free (job :: (front ++ back)) := (flow_cons hjob).symm
      _ ≤ flow free (front ++ job :: back) :=
          flow_le_of_front hother fun x hx => hmin x (hrest.mem_iff.2 (List.mem_append_left _ hx))

end Timetable

end Uniprocessor
