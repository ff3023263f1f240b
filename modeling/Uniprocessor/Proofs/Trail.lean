import Uniprocessor.Proofs.Chronicle

/-!
# Trails

What a process has gone through is not in the machine that a run has reached, but in the machines
that the run went through before. A trail is all of them, the latest first, with those between the
two steps of a choice among them. What holds at first and is kept by strides, and may speak of the
past, holds all along a trail (`Trail.invariant`).
-/

namespace Uniprocessor

variable {σ : Type} {sc : Scenario} {P : Policy σ} {memory : σ} {m m' : Machine σ}
  {past : List (Machine σ)}

/-- The machines that a run has gone through, the latest first, so that what is said of one may
speak of those before it. -/
inductive Scenario.Trail (sc : Scenario) (P : Policy σ) (memory : σ) : List (Machine σ) → Prop
  /-- the prepared machine -/
  | start {m : Machine σ} (h : (sc.prepare P memory).result = .ok (.ok m)) : sc.Trail P memory [m]
  /-- a step further, unless the run is over -/
  | step {m m' : Machine σ} {past : List (Machine σ)} (h : sc.Trail P memory (m :: past))
      (hover : ∀ exit, m.phase ≠ .over exit) (hstep : (m.step P sc.limit).result = .ok m') :
      sc.Trail P memory (m' :: m :: past)

namespace Machine

/-- The policy is to choose, for the first time in the tick. -/
def FirstAsked (m : Machine σ) (past : List (Machine σ)) : Prop :=
  m.phase = .choosing ∧ ∀ x ∈ past, x.phase = .choosing → x.state.tick ≠ m.state.tick

instance (m : Machine σ) (past : List (Machine σ)) : Decidable (m.FirstAsked past) :=
  inferInstanceAs (Decidable (m.phase = .choosing ∧
    ∀ x ∈ past, x.phase = .choosing → x.state.tick ≠ m.state.tick))

/-- For how many ticks the process has been waiting: in how many of them it was in the ready queue
when the policy was to choose for the first time, since it last joined the queue. -/
def waited (pid : Pid) : List (Machine σ) → Nat
  | [] => 0
  | m :: past =>
    if pid ∈ m.state.ready then waited pid past + (if m.FirstAsked past then 1 else 0) else 0

theorem waited_of_not_ready {pid : Pid} (h : pid ∉ m.state.ready) : waited pid (m :: past) = 0 :=
  if_neg h

theorem waited_of_ne_choosing {pid : Pid} (h : pid ∈ m.state.ready) (hphase : m.phase ≠ .choosing) :
    waited pid (m :: past) = waited pid past := by
  rw [waited, if_pos h, if_neg fun he => hphase he.1, Nat.add_zero]

end Machine

namespace Scenario

/-- The machines of a trail are reached, so what holds wherever a run gets to holds of each of
them. -/
theorem Trail.reaches {trail : List (Machine σ)} (h : sc.Trail P memory trail) :
    ∀ x ∈ trail, sc.Reaches P memory x := by
  induction h with
  | start h =>
    intro x hx
    rw [List.mem_singleton.1 hx]
    exact .start h
  | @step m m' past _ _ hstep ih =>
    intro x hx
    rcases List.mem_cons.1 hx with rfl | hx
    · exact (ih m (List.mem_cons_self ..)).step hstep
    · exact ih x hx

/-- A `Trail` was one at every machine on it: what comes after may be left out. -/
theorem Trail.of_suffix {trail : List (Machine σ)} (h : sc.Trail P memory trail)
    (hsuffix : m :: past <:+ trail) : sc.Trail P memory (m :: past) := by
  induction h with
  | start h =>
    rcases List.suffix_cons_iff.1 hsuffix with heq | hnil
    · cases heq
      exact .start h
    · cases List.suffix_nil.1 hnil
  | step h hover hstep ih =>
    rcases List.suffix_cons_iff.1 hsuffix with heq | hsuffix
    · cases heq
      exact h.step hover hstep
    · exact ih hsuffix

/-- Every machine that a run `Reaches` has a trail: the steps that led to it. -/
theorem Reaches.exists_trail (h : sc.Reaches P memory m) :
    ∃ past, sc.Trail P memory (m :: past) := by
  induction h with
  | start h => exact ⟨[], .start h⟩
  | @step m m' _ hstep ih =>
    obtain ⟨past, ht⟩ := ih
    by_cases hover : ∃ exit, m.phase = .over exit
    · obtain ⟨exit, hover⟩ := hover
      rw [Machine.step_over hover] at hstep
      cases hstep
      exact ⟨past, ht⟩
    · exact ⟨_, ht.step (fun exit he => hover ⟨exit, he⟩) hstep⟩

/-- Whatever holds of the prepared machine and is kept by strides, and may speak of the past, holds
of every machine on a trail that does not carry a choice out, and of the machine before each one
that does. -/
theorem Trail.invariant {I : Machine σ → List (Machine σ) → Prop} (hsc : sc.Admitted)
    (hP : P.Lawful)
    (hinit : ∀ {m}, (sc.prepare P memory).result = .ok (.ok m) → I m [])
    (hstride : ∀ {m past m'}, m.Steady sc → I m past → m.phase ≠ .choosing →
      m.Strides P sc.limit m' → I m' (m :: past))
    (hchoice : ∀ {m past m₁ m'}, m.Steady sc → I m past → m.phase = .choosing →
      (m.step P sc.limit).result = .ok m₁ → m.Strides P sc.limit m' → I m' (m₁ :: m :: past))
    (h : sc.Trail P memory (m :: past)) :
    (m.Steady sc ∧ I m past) ∨ ∃ m₁ before, past = m₁ :: before ∧ m₁.Steady sc ∧ I m₁ before ∧
      m₁.phase = .choosing ∧ (m₁.step P sc.limit).result = .ok m := by
  generalize htrail : m :: past = trail at h
  induction h generalizing m past with
  | start h =>
    cases htrail
    obtain ⟨memory', rfl⟩ := exists_eq_initial hP h
    exact Or.inl ⟨.initial hsc.sound memory', hinit h⟩
  | @step m₀ m' before _ hover hstep ih =>
    cases htrail
    rcases ih rfl with ⟨hm, hI⟩ | ⟨m₁, before', rfl, hm₁, hI, hphase, hstep₁⟩
    · by_cases hch : m₀.phase = .choosing
      · exact Or.inr ⟨m₀, before, rfl, hm, hI, hch, hstep⟩
      · have hstr := hm.strides_of_stride hsc hP hover
          ((Machine.stride_of_ne_choosing hch _).trans hstep)
        exact Or.inl ⟨hm.strides hsc.sound hstr, hstride hm hI hch hstr⟩
    · -- The step is the second one of a choice, and completes a stride.
      have hstr := hm₁.strides_of_choice hsc hP hphase hstep₁ hstep
      exact Or.inl ⟨hm₁.strides hsc.sound hstr, hchoice hm₁ hI hphase hstep₁ hstr⟩

/-- Unless a choice has just been made, the invariant of `Trail.invariant` holds: the case in which
no stride is under way. -/
theorem Trail.invariant_of_rest {I : Machine σ → List (Machine σ) → Prop} (hsc : sc.Admitted)
    (hP : P.Lawful)
    (hinit : ∀ {m}, (sc.prepare P memory).result = .ok (.ok m) → I m [])
    (hstride : ∀ {m past m'}, m.Steady sc → I m past → m.phase ≠ .choosing →
      m.Strides P sc.limit m' → I m' (m :: past))
    (hchoice : ∀ {m past m₁ m'}, m.Steady sc → I m past → m.phase = .choosing →
      (m.step P sc.limit).result = .ok m₁ → m.Strides P sc.limit m' → I m' (m₁ :: m :: past))
    (h : sc.Trail P memory (m :: past)) (hrest : m.phase.isSwitching = false) : I m past := by
  rcases h.invariant hsc hP hinit hstride hchoice with
    ⟨-, hI⟩ | ⟨m₁, before, -, -, -, hphase, hstep⟩
  · exact hI
  · rw [Machine.isSwitching_of_step _ hphase hstep] at hrest
    cases hrest

end Scenario

/-! ## Samples on a trail -/

/-- The state is that of a machine on the trail that closes its tick, as a sample is. -/
def State.ClosedOn (s : State) (trail : List (Machine σ)) : Prop :=
  ∃ closing before idle, closing :: before <:+ trail ∧ closing.phase = .closing idle ∧
    closing.state = s

theorem State.ClosedOn.mono {s : State} {trail : List (Machine σ)} (h : s.ClosedOn trail)
    {trail' : List (Machine σ)} (hsuffix : trail <:+ trail') : s.ClosedOn trail' := by
  obtain ⟨closing, before, idle, hmem, hphase, hstate⟩ := h
  exact ⟨closing, before, idle, hmem.trans hsuffix, hphase, hstate⟩

/-- Every sample is the state of a machine on the trail that closes its tick, so what is said of
such machines is said of samples. -/
theorem Scenario.Trail.closedOn (hsc : sc.Admitted) (hP : P.Lawful)
    (h : sc.Trail P memory (m :: past)) : ∀ x ∈ m.samples, x.state.ClosedOn (m :: past) := by
  have hstride : ∀ {m m' : Machine σ} {past : List (Machine σ)} (later : List (Machine σ)),
      (∀ x ∈ m.samples, x.state.ClosedOn (m :: past)) → m.Strides P sc.limit m' →
      ∀ x ∈ m'.samples, x.state.ClosedOn (later ++ m :: past) := by
    intro m m' past later hI hstr x hx
    have hsuffix : m :: past <:+ later ++ m :: past := List.suffix_append ..
    rcases hstr.samples with hsame | ⟨hpush, -, idle, hclosing⟩
    · exact (hI x (hsame ▸ hx)).mono hsuffix
    · rw [hpush] at hx
      rcases Array.mem_push.1 hx with hx | rfl
      · exact (hI x hx).mono hsuffix
      · exact ⟨m, past, idle, hsuffix, hclosing, rfl⟩
  have hinit : ∀ {m}, (sc.prepare P memory).result = .ok (.ok m) →
      ∀ x ∈ m.samples, x.state.ClosedOn [m] := by
    intro m hm x hx
    obtain ⟨memory', rfl⟩ := exists_eq_initial hP hm
    simp [Machine.initial] at hx
  rcases h.invariant (I := fun m past => ∀ x ∈ m.samples, x.state.ClosedOn (m :: past)) hsc hP hinit
    (fun {m _ m'} _ hI _ hstr => hstride [m'] hI hstr)
    (fun {_ _ m₁ m'} _ hI _ _ hstr => hstride [m', m₁] hI hstr) with
    ⟨-, hI⟩ | ⟨m₁, before, rfl, hm₁, hI, hphase, hstep⟩
  · exact hI
  · -- A choice takes no sample.
    obtain ⟨memory, t, next, -, -, rfl⟩ := hm₁.step_of_choosing hP hphase hstep
    exact fun x hx => (hI x hx).mono (List.suffix_cons ..)

end Uniprocessor
