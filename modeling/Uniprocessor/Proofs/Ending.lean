import Uniprocessor.Proofs.Progress

/-!
# How runs end

A step has one result, so every machine that is reached in a run leads to the machine at which the
run ends (`Reaches.run_ended`). Why a run ends can be read off that machine: nothing is left of a
run that ended normally, nobody can go on and nobody is to come in one that ended in a deadlock, and
the limit has come, with work left, in one that was stopped (`Reaches.accounts`).
-/

namespace Uniprocessor

variable {σ : Type} {sc : Scenario} {P : Policy σ} {memory : σ} {m m' : Machine σ} {limit : Nat}
  {exit : Exit}

namespace Machine

/-! ## Where steps lead -/

variable {Q : Machine σ → Prop}

/-- Where steps lead from the next machine, they lead from this one: `Leads` with one step in
front. -/
theorem Leads.head {m₁ : Machine σ} (hstep : (m.step P limit).result = .ok m₁) (hQ : Q m₁)
    (h : m₁.Leads P limit Q m') : m.Leads P limit Q m' := by
  induction h with
  | here => exact .step .here hstep hQ
  | step _ hstep' hQ' ih => exact ih.step hstep' hQ'

/-- Steps lead nowhere, or over the next machine. Since a step has one result, this splits any walk
at its head. -/
theorem Leads.cases_head (h : m.Leads P limit Q m') :
    m' = m ∨ ∃ m₁, (m.step P limit).result = .ok m₁ ∧ m₁.Leads P limit Q m' := by
  induction h with
  | here => exact Or.inl rfl
  | step _ hstep hQ ih =>
    rcases ih with rfl | ⟨m₁, hm₁, hlead⟩
    · exact Or.inr ⟨_, hstep, .here⟩
    · exact Or.inr ⟨m₁, hm₁, hlead.step hstep hQ⟩

/-- From a machine whose run is over steps lead nowhere: `Leads` ends where it begins. -/
theorem Leads.eq_of_over (hover : m.phase = .over exit) (h : m.Leads P limit Q m') : m' = m := by
  induction h with
  | here => rfl
  | step _ hstep _ ih =>
    rw [ih, step_over hover] at hstep
    cases hstep
    rfl

/-- Whether the machine and all those to which its steps lead have the property, if the run ends
after fewer steps than allowed. It is what is evaluated where a witness needs a fact about all
machines of one run. -/
def throughout (P : Policy σ) (limit : Nat) (Q : Machine σ → Bool) : Nat → Machine σ → Bool
  | 0, _ => false
  | fuel + 1, m =>
    Q m &&
      match m.phase with
      | .over _ => true
      | _ =>
        match (m.step P limit).result with
        | .ok m' => m'.throughout P limit Q fuel
        | .error _ => true

/-- What has been found `throughout` a run holds wherever its steps lead. -/
theorem of_throughout {Q : Machine σ → Bool} {fuel : Nat}
    (h : m.throughout P limit Q fuel = true) (hlead : m.Leads P limit (fun _ => True) m') :
    Q m' = true := by
  induction fuel generalizing m with
  | zero => cases h
  | succ fuel ih =>
    rw [throughout, Bool.and_eq_true] at h
    obtain ⟨hQ, hrest⟩ := h
    rcases hlead.cases_head with rfl | ⟨m₁, hstep, hlead₁⟩
    · exact hQ
    · by_cases hover : ∃ exit, m.phase = .over exit
      · obtain ⟨exit, hover⟩ := hover
        rw [hlead.eq_of_over hover]
        exact hQ
      · split at hrest
        · next exit hphase => exact absurd ⟨exit, hphase⟩ hover
        · rw [hstep] at hrest
          exact ih hrest hlead₁

/-- If steps lead to a machine whose run is over, they lead there over every machine to which they
lead: there is only one way to go. -/
theorem Leads.to_over {last : Machine σ} (hlast : m.Leads P limit Q last)
    (hover : last.phase = .over exit) (h : m.Leads P limit Q m') : m'.Leads P limit Q last := by
  induction h with
  | here => exact hlast
  | @step m₁ m₂ _ hstep hQ ih =>
    rcases ih.cases_head with rfl | ⟨m₂', hstep', hlead⟩
    · -- The last machine leads to itself alone.
      rw [step_over hover] at hstep
      cases hstep
      exact .here
    · rw [hstep] at hstep'
      cases hstep'
      exact hlead

/-- Steps lead to the machine at which `run` stops, whatever number of steps it is allowed. -/
theorem leads_run {m₀ : Machine σ} (h : m₀.Leads P limit (fun _ => True) m) (fuel : Nat)
    (log : Array LogEntry) :
    m₀.Leads P limit (fun _ => True) (m.run P limit fuel log).machine := by
  induction fuel generalizing m log with
  | zero => exact h
  | succ fuel ih =>
    rw [run]
    split
    · exact h
    · rcases hstep : (m.step P limit).result with fault | m'
      · simp only [hstep]
        exact h
      · simp only [hstep]
        exact ih (h.step hstep trivial) _

/-- A run that comes out as ended stops at a machine whose run is over, with the same exit. -/
theorem phase_of_run_ended {fuel : Nat} {log : Array LogEntry}
    (h : (m.run P limit fuel log).outcome = .ended exit) :
    (m.run P limit fuel log).machine.phase = .over exit := by
  induction fuel generalizing m log with
  | zero =>
    rw [run] at h ⊢
    split at h <;> simp_all
  | succ fuel ih =>
    rw [run] at h ⊢
    split at h
    · next exit' hphase =>
      cases h
      simp [hphase]
    · rcases hstep : (m.step P limit).result with fault | m'
      · simp [hstep] at h
      · simp only [hstep] at h ⊢
        exact ih h

/-! ## Why runs end -/

/-- The machine stands where a run may end for this reason: with nothing left, with everybody stuck,
or at the limit with work left. -/
def Accounts (limit : Nat) (m : Machine σ) : Exit → Prop
  | .normal => m.arrivals = [] ∧ m.state.procs = []
  | .deadlock => m.arrivals = [] ∧ m.state.procs ≠ [] ∧ ∀ p ∈ m.state.procs, p.status = .blocked
  | .tickLimit => limit ≤ m.state.tick ∧ m.isWindingDown = false

/-- A machine that is about to end a run, or has ended it, stands where the run may end for this
reason (`Accounts`). -/
def Accounted (limit : Nat) (m : Machine σ) : Prop :=
  ∀ exit, m.phase = .ending exit ∨ m.phase = .over exit → m.Accounts limit exit

theorem Accounted.of_phase {phase : Phase} (hphase : m.phase = phase)
    (hend : ∀ exit, phase = .ending exit ∨ phase = .over exit → m.Accounts limit exit) :
    m.Accounted limit := by
  subst hphase
  exact hend

/-- Every stride to the end has its reason: `Accounted` is preserved by all strides. -/
theorem Strides.accounted (h : m.Accounted limit) (hstr : m.Strides P limit m') :
    m'.Accounted limit := by
  cases hstr with
  | stop _ hlimit hwork =>
    refine .of_phase rfl fun exit hend => ?_
    rcases hend with hend | hend <;> cases hend
    exact ⟨hlimit, hwork⟩
  | drain _ _ _ hprocs harrivals =>
    refine .of_phase rfl fun exit hend => ?_
    rcases hend with hend | hend <;> cases hend
    refine ⟨(carriedOut_arrivals ..).trans harrivals, ?_⟩
    exact (congrArg State.procs (carriedOut_state ..)).trans hprocs
  | stick _ hstuck =>
    refine .of_phase rfl fun exit hend => ?_
    rcases hend with hend | hend <;> cases hend
    simp only [isStuck, Bool.and_eq_true, List.isEmpty_iff, Bool.not_eq_true', List.all_eq_true,
      Process.isBlocked_iff, List.isEmpty_eq_false_iff] at hstuck
    exact ⟨hstuck.1.1.2, hstuck.1.2, hstuck.2⟩
  | conclude hphase =>
    refine .of_phase rfl fun exit hend => ?_
    rcases hend with hend | hend <;> cases hend
    exact h _ (Or.inl hphase)
  | _ =>
    refine .of_phase rfl fun exit hend => ?_
    rcases hend with hend | hend <;> cases hend

theorem accounted_initial (sc : Scenario) (memory : σ) :
    (Machine.initial sc memory).Accounted limit := by
  rintro exit (hend | hend) <;> cases hend

end Machine

namespace Scenario

/-- A run that comes out as ended reaches the machine at which it ends, and that machine's phase
says so. -/
theorem reaches_of_ended {fuel : Nat} (h : (sc.run P memory fuel).outcome = .ended exit) :
    sc.Reaches P memory (sc.run P memory fuel).machine ∧
      (sc.run P memory fuel).machine.phase = .over exit := by
  rcases hprep : (sc.prepare P memory).result with fault | ⟨e | m⟩
  · simp [run, hprep] at h
  · simp [run, hprep] at h
  · simp only [run, hprep] at h ⊢
    exact ⟨(Reaches.start hprep).run fuel _, Machine.phase_of_run_ended h⟩

namespace Reaches

/-- A run ends within `Scenario.stepBound`, and every machine that is reached in it leads to the
machine at which it ends. -/
theorem run_ended (hsc : sc.Admitted) (hP : P.Lawful) (h : sc.Reaches P memory m) :
    ∃ exit, (sc.run P memory sc.stepBound).outcome = .ended exit ∧
      m.Leads P sc.limit (fun _ => True) (sc.run P memory sc.stepBound).machine := by
  obtain ⟨memory', hprep, hlead⟩ := h.leads hP
  simp only [Scenario.run, hprep]
  obtain ⟨exit, hexit, -⟩ := (Machine.Steady.initial hsc.sound memory').run_ended hsc hP
    (Nat.le_of_eq (Machine.rank_initial sc memory')) _
  exact ⟨exit, hexit,
    (Machine.leads_run .here _ _).to_over (Machine.phase_of_run_ended hexit) hlead⟩

/-- A run stops at the first machine that is reached whose run is over, so there is only one such
machine. -/
theorem run_of_over (hsc : sc.Admitted) (hP : P.Lawful) (h : sc.Reaches P memory m)
    (hphase : m.phase = .over exit) :
    (sc.run P memory sc.stepBound).machine = m ∧
      (sc.run P memory sc.stepBound).outcome = .ended exit := by
  obtain ⟨exit', hended, hlead⟩ := h.run_ended hsc hP
  have heq := hlead.eq_of_over hphase
  refine ⟨heq, ?_⟩
  have hphase' := (reaches_of_ended hended).2
  rw [heq, hphase] at hphase'
  cases hphase'
  exact hended

/-- If the jobs are listed by start, what has been found `throughout` the run of `Machine.initial`
holds of every machine that is reached. -/
theorem of_throughout {Q : Machine σ → Bool} (hP : P.Lawful)
    (hjobs : sc.jobs.Pairwise fun a b => a.start ≤ b.start)
    (hsetup : (P.setup memory (Machine.initial sc memory).state).result =
      .ok (.ok (memory, (Machine.initial sc memory).state))) (fuel : Nat)
    (hall : ({ Machine.initial sc memory with arrivals := sc.jobs } : Machine σ).throughout P
      sc.limit Q fuel = true) (h : sc.Reaches P memory m) : Q m = true := by
  obtain ⟨memory', hprep, hlead⟩ := h.leads hP
  cases hprep.symm.trans (prepare_of_ok hsetup)
  rw [Machine.initial_of_sorted hjobs] at hlead
  exact Machine.of_throughout hall hlead

/-- Wherever a run ends, it has a reason to: the last machine `Accounts` for its exit. -/
theorem accounts (hsc : sc.Admitted) (hP : P.Lawful) (h : sc.Reaches P memory m)
    (hphase : m.phase = .over exit) : m.Accounts sc.limit exit := by
  refine h.invariant hsc hP (fun memory => Machine.accounted_initial sc memory)
    (fun _ hI hstr => hstr.accounted hI) ?_ exit (Or.inr hphase)
  rw [hphase]
  rfl

end Reaches

end Scenario

end Uniprocessor
