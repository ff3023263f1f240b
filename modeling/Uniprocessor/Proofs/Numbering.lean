import Uniprocessor.Proofs.Validity

/-!
# Numbers for jobs that bring none

A draft comes about in steps, and jobs that bring their numbers may come in any order between those
that do not. Every step leaves the next number behind all that are taken (`Numbered`). Behind a
number means above it, as long as the largest number is free. Behind the largest there is only the
largest itself: the next job that brings no number repeats it, and a draft with a repeated number is
never built, no matter which steps follow (`build_follow_ne_ok`). In neither case is a job given a
number below one that is taken (`given_number_fresh`).
-/

namespace Uniprocessor

namespace Draft

/-- A step in which a draft comes about: a setting, or a job with or without a number of its own. -/
inductive Step where
  /-- sets the length of the resource table -/
  | resourceCount (count : Nat)
  /-- sets the largest priority a job may have -/
  | ceiling (prio : Nat)
  /-- sets the tick at which an unfinished run stops -/
  | limit (tick : Nat)
  /-- adds a job under the number that it brings -/
  | job (job : Job)
  /-- adds a job under the next number -/
  | next (lifespan prio : Nat)
  deriving DecidableEq, Repr

/-- The draft after one more step: a setting is replaced, and a job is put behind the others by
`add` or by `addNext`. -/
def take (d : Draft) : Step → Draft
  | .resourceCount count => { d with resourceCount := count }
  | .ceiling prio => { d with ceiling := prio }
  | .limit tick => { d with limit := tick }
  | .job job => d.add job
  | .next lifespan prio => d.addNext lifespan prio

/-- The draft after steps in their order, each by `take`. -/
def follow (d : Draft) (steps : List Step) : Draft := steps.foldl take d

/-- The draft before the first step. -/
def blank : Draft := {}

@[simp] theorem follow_cons (d : Draft) (step : Step) (steps : List Step) :
    d.follow (step :: steps) = (d.take step).follow steps := rfl

@[simp] theorem follow_append (d : Draft) (steps after : List Step) :
    d.follow (steps ++ after) = (d.follow steps).follow after := List.foldl_append

variable {d : Draft}

/-! ## Jobs stay -/

theorem forall_jobs_add {P : Job → Prop} {job : Job} :
    (∀ other ∈ (d.add job).jobs, P other) ↔ (∀ other ∈ d.jobs, P other) ∧ P job := by
  simp [add, or_imp, forall_and]

/-- A step adds one job or none, behind the others: whatever is in the draft stays where it is. -/
theorem jobs_prefix_take (d : Draft) (step : Step) : d.jobs <+: (d.take step).jobs := by
  cases step with
  | resourceCount | ceiling | limit => exact List.prefix_rfl
  | job | next => exact List.prefix_append ..

theorem jobs_prefix_follow (d : Draft) (steps : List Step) : d.jobs <+: (d.follow steps).jobs := by
  induction steps generalizing d with
  | nil => exact List.prefix_rfl
  | cons step steps ih => exact (jobs_prefix_take d step).trans (ih (d.take step))

/-- A job that brings its number is there with it from then on, since no later step changes a
job. -/
theorem mem_jobs_follow {job : Job} {steps : List Step} (h : .job job ∈ steps) :
    job ∈ (d.follow steps).jobs := by
  obtain ⟨before, after, rfl⟩ := List.append_of_mem h
  rw [follow_append, follow_cons]
  have hjob : job ∈ ((d.follow before).take (.job job)).jobs := List.mem_concat_self
  exact (jobs_prefix_follow _ after).subset hjob

/-- No step mends a repeated number: once two jobs have one number, no steps lead to a draft that is
built. -/
theorem build_follow_ne_ok (h : ¬ (d.jobs.map Job.pid).Nodup) (steps : List Step) (sc : Scenario) :
    (d.follow steps).build ≠ .ok sc := by
  intro hbuild
  obtain ⟨-, -, hnodup, -⟩ := build_iff.1 hbuild
  exact h (hnodup.sublist ((jobs_prefix_follow d steps).sublist.map Job.pid))

/-! ## The next number -/

/-- The number behind a number; the largest is followed by itself. -/
def following (pid : Pid) : Pid := min largestPid (pid + 1)

theorem following_le (pid : Pid) : following pid ≤ largestPid := Nat.min_le_left ..

theorem le_following {pid : Pid} (h : pid ≤ largestPid) : pid ≤ following pid :=
  Nat.le_min.2 ⟨h, Nat.le_succ pid⟩

theorem lt_following {pid : Pid} (h : pid < largestPid) : pid < following pid :=
  Nat.lt_min.2 ⟨h, Nat.lt_succ_self pid⟩

/-- The next number moves behind that of the new job, or stays where it is if it is behind it
already. -/
theorem nextPid_add (h : d.nextPid ≤ largestPid) (job : Job) :
    (d.add job).nextPid = max d.nextPid (following job.pid) := by
  rw [add]
  split
  · next hle =>
    have hbehind : d.nextPid ≤ following job.pid := Nat.le_min.2 ⟨h, Nat.le_succ_of_le hle⟩
    exact (Nat.max_eq_right hbehind).symm
  · next hlt =>
    have hbehind : following job.pid ≤ d.nextPid :=
      Nat.le_trans (Nat.min_le_right ..) (Nat.not_le.1 hlt)
    exact (Nat.max_eq_left hbehind).symm

/-- The numbers of the jobs and the next one are possible, and the next one is behind all the
others. -/
structure Numbered (d : Draft) : Prop where
  /-- numbers for jobs that bring none begin at one -/
  next_pos : 0 < d.nextPid
  /-- the next number is not too large for a job -/
  next_le : d.nextPid ≤ largestPid
  /-- neither is that of any job so far -/
  pid_le : ∀ job ∈ d.jobs, job.pid ≤ largestPid
  /-- the next number is behind that of any job -/
  following_le_next : ∀ job ∈ d.jobs, following job.pid ≤ d.nextPid

theorem numbered_blank : blank.Numbered where
  next_pos := by decide
  next_le := by decide
  pid_le := fun _ hjob => absurd hjob List.not_mem_nil
  following_le_next := fun _ hjob => absurd hjob List.not_mem_nil

theorem Numbered.add (h : d.Numbered) {job : Job} (hpid : job.pid ≤ largestPid) :
    (d.add job).Numbered := by
  have hnext := nextPid_add h.next_le job
  have hgrows : d.nextPid ≤ (d.add job).nextPid := hnext ▸ Nat.le_max_left ..
  have hbehind : following job.pid ≤ (d.add job).nextPid := hnext ▸ Nat.le_max_right ..
  refine ⟨Nat.lt_of_lt_of_le h.next_pos hgrows, ?_, forall_jobs_add.2 ⟨h.pid_le, hpid⟩,
    forall_jobs_add.2 ⟨fun other hother => ?_, hbehind⟩⟩
  · rw [hnext]
    exact Nat.max_le.2 ⟨h.next_le, following_le job.pid⟩
  · exact Nat.le_trans (h.following_le_next other hother) hgrows

theorem Numbered.take (h : d.Numbered) {step : Step}
    (hpid : ∀ job, step = .job job → job.pid ≤ largestPid) : (d.take step).Numbered := by
  cases step with
  | resourceCount | ceiling | limit =>
    exact ⟨h.next_pos, h.next_le, h.pid_le, h.following_le_next⟩
  | job job => exact h.add (hpid job rfl)
  | next lifespan prio => exact h.add h.next_le

/-- Whatever possible numbers the jobs bring, and in whatever order, every step keeps the draft
`Numbered`: the next number stays behind them. -/
theorem Numbered.follow (h : d.Numbered) {steps : List Step}
    (hpids : ∀ job, .job job ∈ steps → job.pid ≤ largestPid) : (d.follow steps).Numbered := by
  induction steps generalizing d with
  | nil => exact h
  | cons step steps ih =>
    have htake : (d.take step).Numbered :=
      h.take fun job hstep => hpids job (hstep ▸ List.mem_cons_self)
    exact ih htake fun job hjob => hpids job (List.mem_cons_of_mem step hjob)

theorem Numbered.le_next (h : d.Numbered) {job : Job} (hjob : job ∈ d.jobs) :
    job.pid ≤ d.nextPid :=
  Nat.le_trans (le_following (h.pid_le job hjob)) (h.following_le_next job hjob)

/-- As long as the largest number is free, behind means above: the next number is above all that are
taken. -/
theorem Numbered.lt_next (h : d.Numbered) (hfree : largestPid ∉ d.jobs.map Job.pid) {job : Job}
    (hjob : job ∈ d.jobs) : job.pid < d.nextPid := by
  have hne : job.pid ≠ largestPid := fun heq => hfree (heq ▸ List.mem_map_of_mem hjob)
  have hlt : job.pid < largestPid := Nat.lt_of_le_of_ne (h.pid_le job hjob) hne
  exact Nat.lt_of_lt_of_le (lt_following hlt) (h.following_le_next job hjob)

/-- When the largest number is taken, there is nothing above it, and it is the next one again. -/
theorem Numbered.next_eq (h : d.Numbered) (htaken : largestPid ∈ d.jobs.map Job.pid) :
    d.nextPid = largestPid := by
  obtain ⟨job, hjob, hpid⟩ := List.mem_map.1 htaken
  exact Nat.le_antisymm h.next_le (hpid ▸ h.le_next hjob)

/-! ## The number that is given -/

/-- The **numbers that are given are fresh**. Let the jobs that bring their numbers bring possible
ones. A job that brings none is put behind them and stays there under a possible number, which is
never below a number that is taken. It is above all that are taken, unless `largestPid` is among
them. In that case the job is given the largest number again, and whatever steps follow, the draft
is not built. -/
theorem given_number_fresh (steps : List Step) (lifespan prio : Nat)
    (hpids : ∀ job, Step.job job ∈ steps → job.pid ≤ largestPid) :
    (∀ job, Step.job job ∈ steps → job ∈ (blank.follow steps).jobs) ∧
    ∃ number : Pid,
      (∀ after : List Step,
        (blank.follow steps).jobs ++ [{ pid := number, lifespan := lifespan, prio := prio }] <+:
          (blank.follow (steps ++ .next lifespan prio :: after)).jobs) ∧
      0 < number ∧ number ≤ largestPid ∧
      (∀ job ∈ (blank.follow steps).jobs, job.pid ≤ number) ∧
      (largestPid ∉ (blank.follow steps).jobs.map Job.pid →
        ∀ job ∈ (blank.follow steps).jobs, job.pid < number) ∧
      (largestPid ∈ (blank.follow steps).jobs.map Job.pid →
        number = largestPid ∧ ∀ (after : List Step) (sc : Scenario),
          (blank.follow (steps ++ .next lifespan prio :: after)).build ≠ .ok sc) := by
  have h : (blank.follow steps).Numbered := numbered_blank.follow hpids
  refine ⟨fun _ => mem_jobs_follow, (blank.follow steps).nextPid, fun after => ?_, h.next_pos,
    h.next_le, fun _ => h.le_next, fun hfree _ => h.lt_next hfree, fun htaken => ?_⟩
  · rw [follow_append, follow_cons]
    exact jobs_prefix_follow ((blank.follow steps).take (.next lifespan prio)) after
  · refine ⟨h.next_eq htaken, fun after sc => ?_⟩
    rw [follow_append, follow_cons]
    refine build_follow_ne_ok (fun hnodup => ?_) after sc
    -- The numbers are those from before, and behind them the largest one once more.
    have hgiven : ((blank.follow steps).take (.next lifespan prio)).jobs.map Job.pid =
        (blank.follow steps).jobs.map Job.pid ++ [(blank.follow steps).nextPid] := List.map_append
    rw [hgiven, h.next_eq htaken] at hnodup
    exact (List.nodup_append.1 hnodup).2.2 _ htaken _ (List.mem_singleton_self _) rfl

/-- Steps that use the numbers up: a job brings the largest number but one, and behind it a job
without a number is given the largest. -/
def spent : List Step :=
  [.next 3 0, .job { pid := largestPid - 1, lifespan := 2 }, .job { pid := 7, lifespan := 1 },
    .next 4 5]

example : (blank.follow spent).jobs.map Job.pid = [1, 4294967294, 7, 4294967295] := rfl

/-- After the numbers are used up the largest is given once more, and the draft is not built even
though every job could be executed. -/
theorem given_number_fresh_spent :
    (∀ job, Step.job job ∈ spent → job.pid ≤ largestPid) ∧
      largestPid ∈ (blank.follow spent).jobs.map Job.pid ∧
      ∀ after : List Step,
        (blank.follow spent).jobs ++ [{ pid := largestPid, lifespan := 2 }] <+:
          (blank.follow (spent ++ .next 2 0 :: after)).jobs ∧
        ∀ sc, (blank.follow (spent ++ .next 2 0 :: after)).build ≠ .ok sc := by
  have hpids : ∀ job, Step.job job ∈ spent → job.pid ≤ largestPid := by
    simp [spent, largestPid]
  have htaken : largestPid ∈ (blank.follow spent).jobs.map Job.pid := by decide
  obtain ⟨-, number, hjobs, -, -, -, -, hspent⟩ := given_number_fresh spent 2 0 hpids
  obtain ⟨rfl, hbuild⟩ := hspent htaken
  exact ⟨hpids, htaken, fun after => ⟨hjobs after, hbuild after⟩⟩

end Draft

end Uniprocessor
