import Uniprocessor.Proofs.Later

/-!
# Who is to come

A machine looks at the jobs that have not arrived in four places: before a tick, when jobs arrive,
when nobody was chosen, and at the end of an idle tick. Elsewhere a step does not depend on them
(`step_expecting`). Jobs arrive in the order of their starts, and as they are listed where these are
the same, so those that start before a tick come first, whoever comes after them
(`sameBefore_arrivalOrder`).
-/

namespace Uniprocessor

open Narrated

variable {σ : Type} {P : Policy σ} {limit : Nat} {m m' : Machine σ}

/-- Whether the machine looks at who is to come: the phases in which `arrivals` decides what a step
does. -/
def Phase.looksAhead : Phase → Bool
  | .boundary | .arriving | .switching _ none | .closing true => true
  | _ => false

/-! ## The order of arrival -/

/-- The jobs that start before the tick `T` come first in both lists, and are the same; all others
start later. -/
def SameBefore (T : Nat) (jobs jobs' : List Job) : Prop :=
  ∃ common late late', jobs = common ++ late ∧ jobs' = common ++ late' ∧
    (∀ job ∈ late, T ≤ job.start) ∧ ∀ job ∈ late', T ≤ job.start

theorem SameBefore.symm {T : Nat} {jobs jobs' : List Job} (h : SameBefore T jobs jobs') :
    SameBefore T jobs' jobs := by
  obtain ⟨common, late, late', hjobs, hjobs', hlate, hlate'⟩ := h
  exact ⟨common, late', late, hjobs', hjobs, hlate', hlate⟩

/-- If there are no jobs in the first list, those in the second one come late: none of them starts
before `T`. -/
theorem SameBefore.late_of_nil {T : Nat} {jobs jobs' : List Job} (h : SameBefore T jobs jobs')
    (hnone : jobs = []) : ∀ job ∈ jobs', T ≤ job.start := by
  obtain ⟨common, late, late', hjobs, rfl, -, hlate'⟩ := h
  obtain ⟨rfl, -⟩ := List.append_eq_nil_iff.1 (hjobs.symm.trans hnone)
  exact hlate'

namespace Machine

/-- Jobs that start together arrive as they are listed: `arrivalOrder` is a stable sort. -/
theorem filter_start_arrivalOrder (jobs : List Job) (start : Nat) :
    ((arrivalOrder jobs).filter fun job => job.start = start) =
      jobs.filter fun job => job.start = start := by
  have htogether : (jobs.filter fun job => job.start = start).Pairwise
      fun a b => decide (a.start ≤ b.start) = true := by
    refine List.pairwise_of_forall_mem_list fun a ha b hb => ?_
    simp only [List.mem_filter, decide_eq_true_eq] at ha hb ⊢
    omega
  have hsub : (jobs.filter fun job => job.start = start).Sublist (arrivalOrder jobs) :=
    List.sublist_mergeSort (fun a b c hab hbc => by simp at *; omega) (fun a b => by simp; omega)
      htogether List.filter_sublist
  have hsub' := hsub.filter fun job => job.start = start
  rw [List.filter_filter] at hsub'
  simp only [Bool.and_self] at hsub'
  exact (hsub'.eq_of_length ((List.mergeSort_perm ..).filter _).length_eq.symm).symm

/-- Sorted jobs are known when it is known for each tick who starts then: how two orders of arrival
are shown to be one. -/
theorem eq_of_filter_start {jobs jobs' : List Job}
    (hsorted : jobs.Pairwise fun a b => a.start ≤ b.start)
    (hsorted' : jobs'.Pairwise fun a b => a.start ≤ b.start)
    (h : ∀ start, (jobs.filter fun job => job.start = start) =
      jobs'.filter fun job => job.start = start) : jobs = jobs' := by
  induction jobs generalizing jobs' with
  | nil =>
    cases jobs' with
    | nil => rfl
    | cons b rest' => simpa using h b.start
  | cons a rest ih =>
    cases jobs' with
    | nil => simpa using h a.start
    | cons b rest' =>
      have hle : a.start ≤ b.start := by
        have hmem : b ∈ (a :: rest).filter fun job => job.start = b.start := by rw [h]; simp
        rcases List.mem_cons.1 (List.mem_of_mem_filter hmem) with rfl | hrest
        · exact Nat.le_refl _
        · exact List.rel_of_pairwise_cons hsorted hrest
      have hge : b.start ≤ a.start := by
        have hmem : a ∈ (b :: rest').filter fun job => job.start = a.start := by rw [← h]; simp
        rcases List.mem_cons.1 (List.mem_of_mem_filter hmem) with rfl | hrest
        · exact Nat.le_refl _
        · exact List.rel_of_pairwise_cons hsorted' hrest
      have hab : b.start = a.start := Nat.le_antisymm hge hle
      have hfirst := h a.start
      simp only [List.filter_cons, hab, decide_true, if_true, List.cons.injEq] at hfirst
      obtain ⟨rfl, hfirst⟩ := hfirst
      refine congrArg _ (ih hsorted.of_cons hsorted'.of_cons fun start => ?_)
      have hstart := h start
      by_cases ha : a.start = start
      · exact ha ▸ hfirst
      · simpa [List.filter_cons, ha] using hstart

/-- Who starts before a tick arrives in the same order if nobody else does: `arrivalOrder` may be
taken before or after the others are left out. -/
theorem filter_arrivalOrder (T : Nat) (jobs : List Job) :
    ((arrivalOrder jobs).filter fun job => job.start < T) =
      arrivalOrder (jobs.filter fun job => job.start < T) := by
  refine eq_of_filter_start ((sorted_arrivalOrder jobs).filter _) (sorted_arrivalOrder _)
    fun start => ?_
  rw [filter_start_arrivalOrder, List.filter_comm, filter_start_arrivalOrder, List.filter_comm]

/-- Who starts before a tick comes before those who do not, in a list that is sorted by starts. -/
theorem filter_append_filter (T : Nat) {jobs : List Job}
    (hsorted : jobs.Pairwise fun a b => a.start ≤ b.start) :
    jobs = (jobs.filter fun job => job.start < T) ++ jobs.filter fun job => T ≤ job.start := by
  induction jobs with
  | nil => rfl
  | cons a rest ih =>
    have hrest := ih hsorted.of_cons
    by_cases ha : a.start < T
    · simpa [List.filter_cons, ha, Nat.not_le.2 ha] using hrest
    · have hnone : (rest.filter fun job => job.start < T) = [] := by
        refine List.filter_eq_nil_iff.2 fun job hjob => ?_
        have hstart : a.start ≤ job.start := List.rel_of_pairwise_cons hsorted hjob
        simp only [decide_eq_true_eq]
        omega
      rw [hnone] at hrest
      simpa [List.filter_cons, ha, Nat.not_lt.1 ha, hnone] using hrest

/-- If the same jobs start before a tick, they come first and in the same order of arrival:
`SameBefore`, which runs side by side rely on. -/
theorem sameBefore_arrivalOrder {T : Nat} {jobs jobs' : List Job}
    (h : (jobs.filter fun job => job.start < T) = jobs'.filter fun job => job.start < T) :
    SameBefore T (arrivalOrder jobs) (arrivalOrder jobs') := by
  have hlate : ∀ jobs : List Job, ∀ job ∈ (arrivalOrder jobs).filter fun job => T ≤ job.start,
      T ≤ job.start := fun jobs job hjob => of_decide_eq_true (List.mem_filter.1 hjob).2
  refine ⟨_, _, _, filter_append_filter T (sorted_arrivalOrder jobs), ?_, hlate jobs, hlate jobs'⟩
  rw [filter_arrivalOrder, h, ← filter_arrivalOrder]
  exact filter_append_filter T (sorted_arrivalOrder jobs')

/-! ## Steps that do not look ahead -/

/-- The machine with other jobs to come, and the same in all else. -/
def expecting (m : Machine σ) (jobs : List Job) : Machine σ := { m with arrivals := jobs }

section Expecting

variable (m : Machine σ) (jobs : List Job)

@[simp] theorem expecting_phase : (m.expecting jobs).phase = m.phase := rfl

@[simp] theorem expecting_state : (m.expecting jobs).state = m.state := rfl

@[simp] theorem expecting_scripts : (m.expecting jobs).scripts = m.scripts := rfl

theorem retire_expecting (prev next : Option Pid) :
    ((m.expecting jobs).retire prev next).result =
      (fun m => m.expecting jobs) <$> (m.retire prev next).result := by
  unfold retire
  cases prev with
  | none => rfl
  | some pid =>
    by_cases hnext : next = some pid
    · simp [hnext]
    · simp only [if_neg hnext, result_bind, map_bind]
      refine bind_congr fun p => ?_
      cases p.isFinished with
      | false => rfl
      | true =>
        simp only [if_true, result_bind, map_bind]
        rfl

theorem dispatch_expecting (pid : Pid) : ((m.expecting jobs).dispatch (some pid)).result =
      (fun m => m.expecting jobs) <$> (m.dispatch (some pid)).result := by
  simp only [dispatch, expecting_scripts]
  cases m.scripts.find? pid with
  | none => rfl
  | some script =>
    simp only [result_bind, map_bind]
    rfl

theorem switch_result_eq (m : Machine σ) (name : String) (prev next : Option Pid) :
    (m.switch name prev next).result = install name m.state next >>= fun state =>
      (retire { m with state := state } prev next).result >>= fun m =>
        (m.dispatch next).result := by
  simp only [switch, result_bind, result_lift]
  refine bind_congr fun state => ?_
  split <;> simp only [result_bind, result_note, ok_bind]

theorem switch_expecting (name : String) (prev : Option Pid) (pid : Pid) :
    ((m.expecting jobs).switch name prev (some pid)).result =
      (fun m => m.expecting jobs) <$> (m.switch name prev (some pid)).result := by
  simp only [switch_result_eq, map_bind]
  refine bind_congr fun state => ?_
  change ((({ m with state := state } : Machine σ).expecting jobs).retire prev _).result >>= _ = _
  rw [retire_expecting, bind_map_left]
  exact bind_congr fun m => m.dispatch_expecting jobs pid

theorem grant_expecting (pid : Pid) (q : Request) :
    (m.expecting jobs).grant pid q = (m.grant pid q).expecting jobs := by
  simp only [grant, expecting_scripts]
  cases m.scripts.find? pid <;> rfl

theorem request_expecting (pid : Pid) (due : List Request) :
    ((m.expecting jobs).request P pid due).result =
      (fun m => m.expecting jobs) <$> (m.request P pid due).result := by
  cases due with
  | nil => rfl
  | cons q rest =>
    simp only [request, result_bind, map_bind]
    refine bind_congr fun answer => ?_
    obtain ⟨memory, state, granted⟩ := answer
    cases granted with
    | false => rfl
    | true =>
      have hgrant := grant_expecting { m with memory := memory, state := state } jobs pid q
      simp only [if_true, result_pure, map_ok]
      exact congrArg (fun m : Machine σ => Except.ok { m.record (.acquired pid q.resource) with
        phase := .requesting pid rest }) hgrant

theorem execute_expecting (pid : Pid) : ((m.expecting jobs).execute pid).result =
      (fun m => m.expecting jobs) <$> (m.execute pid).result := by
  simp only [execute, result_bind, map_bind]
  refine bind_congr fun p => bind_congr fun age => bind_congr fun _ => ?_
  simp only [record, expecting_scripts]
  cases m.scripts.find? pid with
  | none => rfl
  | some script =>
    simp only [result_bind, map_bind]
    rfl

theorem recordWoken_expecting (r : ResourceId) (still waiters : Queue) :
    (m.expecting jobs).recordWoken r still waiters =
      (m.recordWoken r still waiters).expecting jobs := by
  induction waiters generalizing m with
  | nil => rfl
  | cons w rest ih =>
    rw [recordWoken, recordWoken]
    split
    · exact ih m
    · exact ih (m.record (.woken w r))

theorem release_expecting (pid : Pid) (r : ResourceId) (waiters : Queue) (due : List ResourceId) :
    ((m.expecting jobs).release P pid r waiters due).result =
      (fun m => m.expecting jobs) <$> (m.release P pid r waiters due).result := by
  simp only [release, result_bind, map_bind]
  refine bind_congr fun answer => bind_congr fun x => ?_
  obtain ⟨memory, state⟩ := answer
  have hwoken := recordWoken_expecting
    (({ m with memory := memory, state := state } : Machine σ).record (.released pid r)) jobs r
    x.waiters waiters
  exact congrArg (fun m : Machine σ => Except.ok { m with phase := .returning pid due }) hwoken

end Expecting

/-- In a phase that does not look ahead a step does not depend on who is to come: it makes the same
change, or the same fault. -/
theorem step_expecting (h : m.phase.looksAhead = false) (jobs : List Job) :
    ((m.expecting jobs).step P limit).result =
      (fun m => m.expecting jobs) <$> (m.step P limit).result := by
  rw [step, step, expecting_phase]
  cases hphase : m.phase with
  | boundary => cases hphase ▸ h
  | arriving => cases hphase ▸ h
  | announcing pid =>
    simp only [result_bind, map_bind]
    rfl
  | choosing =>
    simp only [result_bind, map_bind]
    rfl
  | switching prev next =>
    cases next with
    | none => cases hphase ▸ h
    | some pid => exact switch_expecting m jobs P.name prev pid
  | requesting pid due => exact request_expecting m jobs pid due
  | executing pid => exact execute_expecting m jobs pid
  | returning pid due =>
    cases due with
    | nil => rfl
    | cons r rest =>
      simp only [turn, result_bind, map_bind]
      rfl
  | releasing pid r waiters due => exact release_expecting m jobs pid r waiters due
  | closing idle =>
    cases idle with
    | true => cases hphase ▸ h
    | false =>
      simp only [close, isStuck, Bool.false_and, Bool.false_eq_true, if_false, result_bind,
        map_bind]
      rfl
  | ending exit =>
    simp only [conclude, result_bind, map_bind]
    rfl
  | _ => rfl

/-- In a phase that does not look ahead nobody comes: `arrivals` stays the same. -/
theorem arrivals_of_step (h : m.phase.looksAhead = false)
    (hstep : (m.step P limit).result = .ok m') : m'.arrivals = m.arrivals := by
  have hsame : ((m.expecting m.arrivals).step P limit).result = .ok m' := hstep
  rw [step_expecting h, hstep] at hsame
  exact (congrArg arrivals (Except.ok.inj hsame)).symm

theorem arrivals_of_retire {prev next : Option Pid} (h : (m.retire prev next).result = .ok m') :
    m'.arrivals = m.arrivals := by
  have hsame : ((m.expecting m.arrivals).retire prev next).result = .ok m' := h
  rw [retire_expecting, h] at hsame
  exact (congrArg arrivals (Except.ok.inj hsame)).symm

end Machine

end Uniprocessor
