import Uniprocessor.Proofs.Advance

/-!
# The machines of a run

A machine that is reached in a run of an admitted scenario under a lawful policy is steady, or
stands between the two steps of a choice that a steady machine makes. So what holds at first and is
kept by strides holds of every machine that is reached and is not carrying a choice out
(`Reaches.invariant`), and none of the machines faults (`Reaches.exists_step`).
-/

namespace Uniprocessor

open Narrated

variable {σ : Type} {sc : Scenario} {P : Policy σ} {memory : σ} {m m' : Machine σ}

/-- Before the first tick nobody has arrived, and the prepared machine is `Steady`: its state is
empty, and the `Stage` is set for all jobs. -/
theorem Machine.Steady.initial (hsc : sc.Sound) (memory : σ) :
    (Machine.initial sc memory).Steady sc where
  stage := Stage.initial hsc (List.mergeSort_perm _ _)
  fits := trivial
  onTime := trivial
  samples _ hx := by simp [Machine.initial] at hx

/-- Jobs arrive in the order of their starts, and `arrivalOrder` sorts them by it. -/
theorem Machine.sorted_arrivalOrder (jobs : List Job) :
    (arrivalOrder jobs).Pairwise fun a b => a.start ≤ b.start := by
  have h : (arrivalOrder jobs).Pairwise fun a b => decide (a.start ≤ b.start) = true :=
    List.pairwise_mergeSort (fun a b c hab hbc => by simp at *; omega)
      (fun a b => by simp; omega) jobs
  exact h.imp of_decide_eq_true

/-- If the jobs are listed by start, `arrivalOrder` leaves them alone and they are to arrive as
listed. Concrete runs start from here, since sorting need not be evaluated. -/
theorem Machine.initial_of_sorted (hjobs : sc.jobs.Pairwise fun a b => a.start ≤ b.start) :
    Machine.initial sc memory = { Machine.initial sc memory with arrivals := sc.jobs } := by
  have horder : arrivalOrder sc.jobs = sc.jobs :=
    List.mergeSort_of_pairwise (by simpa using hjobs)
  exact congrArg (fun jobs => { Machine.initial sc memory with arrivals := jobs }) horder

/-- If the policy cannot be set up, the scenario cannot be prepared, and the error is the answer of
the run. -/
theorem Scenario.prepare_of_error {e : PolicyFailure}
    (h : (P.setup memory (Machine.initial sc memory).state).result = .ok (.error e)) :
    (sc.prepare P memory).result = .ok (.error e) := by
  change (P.setup memory (Machine.initial sc memory).state >>= _).result = _
  rw [result_bind, h, ok_bind]
  rfl

/-- A policy that is set up without a change of the state starts from `Machine.initial` with its own
memory. -/
theorem Scenario.prepare_of_ok {memory' : σ}
    (h : (P.setup memory (Machine.initial sc memory).state).result =
      .ok (.ok (memory', (Machine.initial sc memory).state))) :
    (sc.prepare P memory).result = .ok (.ok (Machine.initial sc memory')) := by
  change (P.setup memory (Machine.initial sc memory).state >>= _).result = _
  rw [result_bind, h, ok_bind]
  rfl

/-- A lawful policy refuses to be set up, or the run starts from `Machine.initial` with some
memory. -/
theorem Scenario.prepare_result (hP : P.Lawful) (sc : Scenario) (memory : σ) :
    (∃ e, (sc.prepare P memory).result = .ok (.error e)) ∨
      ∃ memory', (sc.prepare P memory).result = .ok (.ok (Machine.initial sc memory')) :=
  (hP.setup memory (Machine.initial sc memory).state).imp
    (fun ⟨e, he⟩ => ⟨e, prepare_of_error he⟩) fun ⟨memory', hm⟩ => ⟨memory', prepare_of_ok hm⟩

/-- The prepared machine of a lawful policy is `Machine.initial` with some memory, so what holds of
that for all memories holds at the start. -/
theorem Scenario.exists_eq_initial (hP : P.Lawful)
    (h : (sc.prepare P memory).result = .ok (.ok m)) :
    ∃ memory', m = Machine.initial sc memory' := by
  rcases sc.prepare_result hP memory with ⟨e, he⟩ | ⟨memory', hm'⟩
  · rw [h] at he
    cases he
  · rw [h] at hm'
    cases hm'
    exact ⟨memory', rfl⟩

namespace Machine

/-- A `Steady` machine does not carry a choice out, since `Phase.Fits` excludes that phase. -/
theorem Steady.isSwitching_eq_false (hm : m.Steady sc) : m.phase.isSwitching = false := by
  cases hphase : m.phase with
  | switching prev next => exact (hm.fits_of hphase).elim
  | _ => rfl

/-- The first step of a choice leads to the phase between its two steps, the one that
`isSwitching`. -/
theorem isSwitching_of_step (limit : Nat) (hphase : m.phase = .choosing)
    (hstep : (m.step P limit).result = .ok m') : m'.phase.isSwitching = true := by
  simp only [step, hphase, result_bind, bind_eq_ok] at hstep
  obtain ⟨⟨memory, s, next⟩, -, hm'⟩ := hstep
  cases hm'
  rfl

/-- What the first step of a choice leads to is what the policy answers, with the chosen process
installed, and that answer is `Chose`. -/
theorem Steady.step_of_choosing (hP : P.Lawful) (h : m.Steady sc) (hphase : m.phase = .choosing)
    {limit : Nat} (hstep : (m.step P limit).result = .ok m') :
    ∃ memory t next, (P.choose m.memory m.state).result = .ok (memory, t, next) ∧
      m.state.Chose t next ∧ m' = { m with
        memory := memory
        state := t
        phase := .switching m.state.current next } := by
  obtain ⟨memory, t, next, hok, hchose⟩ := hP.choose m.memory h.stage.settled
  simp only [step, hphase, result_bind, hok, ok_bind] at hstep
  cases hstep
  exact ⟨memory, t, next, hok, hchose, rfl⟩

/-- The two steps of a choice make up one `stride`. -/
theorem stride_of_choosing {limit : Nat} (hphase : m.phase = .choosing)
    (hstep : (m.step P limit).result = .ok m') :
    m.stride P limit = (m'.step P limit).result := by
  rw [stride, hphase]
  change (m.step P limit).result >>= _ = _
  rw [hstep, ok_bind]

/-- The `stride` of a choice can be split into its two steps, as a run that counts steps needs. -/
theorem exists_steps_of_stride {limit : Nat} (hphase : m.phase = .choosing)
    (hok : m.stride P limit = .ok m') :
    ∃ m₁, (m.step P limit).result = .ok m₁ ∧ (m₁.step P limit).result = .ok m' := by
  rw [stride, hphase] at hok
  exact bind_eq_ok.1 hok

/-- A machine whose run is `over` stays as it is: its step succeeds and changes nothing. -/
theorem step_over {limit : Nat} {exit : Exit} (hphase : m.phase = .over exit) :
    (m.step P limit).result = .ok m := by
  rw [step, hphase]
  rfl

/-- If a `stride` of a `Steady` machine succeeds, it is one of the `Strides`. The strides are known
to exist, and a stride has one result. -/
theorem Steady.strides_of_stride (hsc : sc.Admitted) (hP : P.Lawful) (h : m.Steady sc)
    (hover : ∀ exit, m.phase ≠ .over exit) (hok : m.stride P sc.limit = .ok m') :
    m.Strides P sc.limit m' := by
  obtain ⟨m'', hok', hstr⟩ := h.exists_stride hsc hP hover
  rw [hok] at hok'
  cases hok'
  exact hstr

/-- A step of a `Steady` machine is none, once its run is over, or the first of a choice, or one of
the `Strides`. -/
theorem Steady.step_cases (hsc : sc.Admitted) (hP : P.Lawful) (h : m.Steady sc)
    (hstep : (m.step P sc.limit).result = .ok m') :
    m' = m ∨ (m.phase = .choosing ∧ m'.phase.isSwitching = true) ∨ m.Strides P sc.limit m' := by
  by_cases hch : m.phase = .choosing
  · exact Or.inr (Or.inl ⟨hch, isSwitching_of_step _ hch hstep⟩)
  · by_cases hover : ∃ exit, m.phase = .over exit
    · obtain ⟨exit, hover⟩ := hover
      rw [step_over hover] at hstep
      cases hstep
      exact Or.inl rfl
    · right
      right
      refine h.strides_of_stride hsc hP (fun exit he => hover ⟨exit, he⟩) ?_
      rw [stride_of_ne_choosing hch, hstep]

/-- The two steps of a choice made in a `Steady` machine are one of the `Strides`. -/
theorem Steady.strides_of_choice (hsc : sc.Admitted) (hP : P.Lawful) (h : m.Steady sc)
    (hphase : m.phase = .choosing) {m₁ : Machine σ} (hstep₁ : (m.step P sc.limit).result = .ok m₁)
    (hstep : (m₁.step P sc.limit).result = .ok m') : m.Strides P sc.limit m' := by
  refine h.strides_of_stride hsc hP (fun exit he => ?_) ?_
  · rw [hphase] at he
    cases he
  · rw [stride_of_choosing hphase hstep₁, hstep]

/-- Steps lead from the first machine to the second, through machines with the property `Q` except
for the first. With a trivial `Q` this is reachability, and with others it follows a part of a
run. -/
inductive Leads (P : Policy σ) (limit : Nat) (Q : Machine σ → Prop) (m : Machine σ) :
    Machine σ → Prop
  /-- no step -/
  | here : Leads P limit Q m m
  /-- one more step -/
  | step {m' m'' : Machine σ} (h : Leads P limit Q m m')
      (hstep : (m'.step P limit).result = .ok m'') (hQ : Q m'') : Leads P limit Q m m''

/-- Where steps lead from a `Steady` machine is `Steady` and has what strides into machines with the
property `Q` keep, or is one step away from such a machine and carries a choice out. All invariant
lemmas below are cases of it. -/
theorem Leads.steady_or_switching {Q I : Machine σ → Prop} (hsc : sc.Admitted) (hP : P.Lawful)
    (hstride : ∀ {m m'}, m.Steady sc → I m → m.Strides P sc.limit m' → Q m' → I m')
    {m₀ : Machine σ} (hm₀ : m₀.Steady sc) (hI₀ : I m₀) (h : m₀.Leads P sc.limit Q m) :
    (m.Steady sc ∧ I m) ∨ ∃ m₁, m₁.Steady sc ∧ I m₁ ∧ m₁.phase = .choosing ∧
      (m₁.step P sc.limit).result = .ok m ∧ m.phase.isSwitching = true := by
  induction h with
  | here => exact Or.inl ⟨hm₀, hI₀⟩
  | @step m m' h hstep hQ ih =>
    rcases ih with ⟨hm, hI⟩ | ⟨m₁, hm₁, hI₁, hphase, hstep₁, -⟩
    · rcases hm.step_cases hsc hP hstep with rfl | ⟨hch, hsw⟩ | hstr
      · exact Or.inl ⟨hm, hI⟩
      · exact Or.inr ⟨m, hm, hI, hch, hstep, hsw⟩
      · exact Or.inl ⟨hm.strides hsc.sound hstr, hstride hm hI hstr hQ⟩
    · -- The step is the second one of a choice, and completes a stride.
      have hstr := hm₁.strides_of_choice hsc hP hphase hstep₁ hstep
      exact Or.inl ⟨hm₁.strides hsc.sound hstr, hstride hm₁ hI₁ hstr hQ⟩

end Machine

namespace Scenario.Reaches

/-- Whatever number of steps a run is allowed, it stops at a machine that it `Reaches`. -/
theorem run (h : sc.Reaches P memory m) (fuel : Nat) (log : Array LogEntry) :
    sc.Reaches P memory (m.run P sc.limit fuel log).machine := by
  induction fuel generalizing m log with
  | zero => exact h
  | succ fuel ih =>
    rw [Machine.run]
    split
    · exact h
    · rcases hstep : (m.step P sc.limit).result with fault | m'
      · simp only [hstep]
        exact h
      · simp only [hstep]
        exact ih (h.step hstep) _

/-- If the jobs are listed by start, a run from `Machine.initial` with the jobs as listed stops at a
machine that is reached. Witnesses are evaluated by it. -/
theorem of_sorted (hjobs : sc.jobs.Pairwise fun a b => a.start ≤ b.start)
    (hsetup : (P.setup memory (Machine.initial sc memory).state).result =
      .ok (.ok (memory, (Machine.initial sc memory).state))) (fuel : Nat) :
    sc.Reaches P memory
      (({ Machine.initial sc memory with arrivals := sc.jobs } : Machine σ).run P sc.limit fuel
        #[]).machine := by
  exact Machine.initial_of_sorted hjobs ▸ (start (prepare_of_ok hsetup)).run fuel #[]

/-- A run leads from `Machine.initial`, which is the prepared machine, to every machine that is
reached in it. -/
theorem leads (hP : P.Lawful) (h : sc.Reaches P memory m) :
    ∃ memory', (sc.prepare P memory).result = .ok (.ok (Machine.initial sc memory')) ∧
      (Machine.initial sc memory').Leads P sc.limit (fun _ => True) m := by
  induction h with
  | start hm =>
    obtain ⟨memory', rfl⟩ := exists_eq_initial hP hm
    exact ⟨memory', hm, .here⟩
  | step h hstep ih =>
    obtain ⟨memory', hprep, hlead⟩ := ih
    exact ⟨memory', hprep, hlead.step hstep trivial⟩

/-- Whatever holds of `Machine.initial` and is kept by strides holds of every machine that is
reached and is not carrying a choice out. This is how a step lemma becomes a run lemma. -/
theorem invariant (hsc : sc.Admitted) (hP : P.Lawful) {I : Machine σ → Prop}
    (hinit : ∀ memory, I (Machine.initial sc memory))
    (hstride : ∀ {m m'}, m.Steady sc → I m → m.Strides P sc.limit m' → I m')
    (h : sc.Reaches P memory m) (hm : m.phase.isSwitching = false) : I m := by
  obtain ⟨memory', -, hlead⟩ := h.leads hP
  rcases hlead.steady_or_switching hsc hP (fun hm hI hstr _ => hstride hm hI hstr)
    (.initial hsc.sound memory') (hinit memory') with ⟨-, hI⟩ | ⟨-, -, -, -, -, hsw⟩
  · exact hI
  · rw [hm] at hsw
    cases hsw

/-- As `invariant`, where the property need only hold of the prepared machine, and be kept by those
strides that are between machines that are reached. -/
theorem invariant_of_prepared (hsc : sc.Admitted) (hP : P.Lawful) {I : Machine σ → Prop}
    (hinit : ∀ {memory'}, (sc.prepare P memory).result = .ok (.ok (Machine.initial sc memory')) →
      I (Machine.initial sc memory'))
    (hstride : ∀ {m m'}, m.Steady sc → sc.Reaches P memory m → I m → m.Strides P sc.limit m' →
      sc.Reaches P memory m' → I m')
    (h : sc.Reaches P memory m) (hm : m.phase.isSwitching = false) : I m := by
  have hlead : ∃ memory', (sc.prepare P memory).result = .ok (.ok (Machine.initial sc memory')) ∧
      (Machine.initial sc memory').Leads P sc.limit (sc.Reaches P memory) m := by
    clear hm
    induction h with
    | start hprep =>
      obtain ⟨memory', rfl⟩ := exists_eq_initial hP hprep
      exact ⟨memory', hprep, .here⟩
    | step h hstep ih =>
      obtain ⟨memory', hprep, hlead⟩ := ih
      exact ⟨memory', hprep, hlead.step hstep (h.step hstep)⟩
  obtain ⟨memory', hprep, hlead⟩ := hlead
  have hkeep : ∀ {m m' : Machine σ}, m.Steady sc → sc.Reaches P memory m ∧ I m →
      m.Strides P sc.limit m' → sc.Reaches P memory m' → sc.Reaches P memory m' ∧ I m' :=
    fun hm hI hstr hreach => ⟨hreach, hstride hm hI.1 hI.2 hstr hreach⟩
  rcases hlead.steady_or_switching hsc hP hkeep (.initial hsc.sound memory')
      ⟨.start hprep, hinit hprep⟩ with ⟨-, -, hI⟩ | ⟨-, -, -, -, -, hsw⟩
  · exact hI
  · rw [hm] at hsw
    cases hsw

/-- As `invariant`, where the property need only be kept by strides between machines that are
reached. So other invariants may be used in the step. -/
theorem invariant_of_reached (hsc : sc.Admitted) (hP : P.Lawful) {I : Machine σ → Prop}
    (hinit : ∀ memory, I (Machine.initial sc memory))
    (hstride : ∀ {m m'}, m.Steady sc → sc.Reaches P memory m → I m → m.Strides P sc.limit m' →
      sc.Reaches P memory m' → I m')
    (h : sc.Reaches P memory m) (hm : m.phase.isSwitching = false) : I m :=
  h.invariant_of_prepared hsc hP (fun _ => hinit _) hstride hm

/-- A machine that is reached and is not carrying a choice out is `Steady`. -/
theorem steady (hsc : sc.Admitted) (hP : P.Lawful) (h : sc.Reaches P memory m)
    (hm : m.phase.isSwitching = false) : m.Steady sc :=
  h.invariant hsc hP (fun memory => .initial hsc.sound memory)
    (fun hm _ hstr => hm.strides hsc.sound hstr) hm

/-- No machine that is reached faults: it takes a step, whether it is `Steady` or between the two
steps of a choice. -/
theorem exists_step (hsc : sc.Admitted) (hP : P.Lawful) (h : sc.Reaches P memory m) :
    ∃ m', (m.step P sc.limit).result = .ok m' := by
  obtain ⟨memory', -, hlead⟩ := h.leads hP
  rcases hlead.steady_or_switching hsc hP (I := fun _ => True) (fun _ _ _ _ => trivial)
    (.initial hsc.sound memory') trivial with ⟨hm, -⟩ | ⟨m₁, hm₁, -, hphase, hstep₁, -⟩
  · by_cases hover : ∃ exit, m.phase = .over exit
    · obtain ⟨exit, hover⟩ := hover
      exact ⟨m, Machine.step_over hover⟩
    · obtain ⟨m', hok, -⟩ := hm.exists_stride hsc hP fun exit he => hover ⟨exit, he⟩
      by_cases hch : m.phase = .choosing
      · obtain ⟨m₁, hm₁, -⟩ := Machine.exists_steps_of_stride hch hok
        exact ⟨m₁, hm₁⟩
      · rw [Machine.stride_of_ne_choosing hch] at hok
        exact ⟨m', hok⟩
  · -- The stride that the first step of the choice begins has a second step.
    obtain ⟨m', hok, -⟩ := hm₁.exists_stride hsc hP fun exit he => by
      rw [hphase] at he
      cases he
    rw [Machine.stride_of_choosing hphase hstep₁] at hok
    exact ⟨m', hok⟩

end Scenario.Reaches

end Uniprocessor
