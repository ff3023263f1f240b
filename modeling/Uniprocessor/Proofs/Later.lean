import Uniprocessor.Proofs.Attendance

/-!
# Later in a run

What a run has recorded stays recorded, and what it records later it records under the present tick
or a later one (`Precedes`). So the trace of a run begins with what any of its machines has recorded
(`Reaches.exists_trace`), and what it says of the ticks before that machine's own is settled
(`Precedes.before_eq`). In a tick that is not opened, because it has not come to that or because the
limit has come, nothing is recorded (`Reaches.lt_of_isUnopened`).
-/

namespace Uniprocessor

variable {σ : Type} {sc : Scenario} {P : Policy σ} {memory : σ} {limit : Nat} {m m' m'' : Machine σ}

/-- Whether the tick has not been opened, or never will be: nothing has been recorded in it. -/
def Phase.isUnopened : Phase → Bool
  | .boundary | .ending .tickLimit | .over .tickLimit => true
  | _ => false

namespace Trace

/-- What happened before a tick, in the order in which it was recorded. -/
def before (tick : Nat) (events : List Event) : List Event := events.filter fun e => e.tick < tick

variable {tick : Nat} {events later : List Event}

theorem before_append : before tick (events ++ later) = before tick events ++ before tick later :=
  List.filter_append ..

/-- If everything happened before a tick, `before` leaves nothing out. -/
theorem before_eq_self (h : ∀ e ∈ events, e.tick < tick) : before tick events = events :=
  List.filter_eq_self.2 (by simpa using h)

/-- If nothing happened before a tick, `before` leaves nothing. -/
theorem before_eq_nil (h : ∀ e ∈ events, tick ≤ e.tick) : before tick events = [] :=
  List.filter_eq_nil_iff.2 (by simpa using h)

end Trace

namespace Machine

/-- The second machine has recorded what the first one has, and after that only what happened at the
tick of the first one or later. -/
structure Precedes (m m' : Machine σ) : Prop where
  /-- the clock has not gone back -/
  tick : m.state.tick ≤ m'.state.tick
  /-- nothing was recorded late -/
  events : ∃ later, m'.events.toList = m.events.toList ++ later ∧
    ∀ e ∈ later, m.state.tick ≤ e.tick

namespace Precedes

theorem refl (m : Machine σ) : m.Precedes m where
  tick := Nat.le_refl _
  events := ⟨[], (List.append_nil _).symm, fun _ he => absurd he List.not_mem_nil⟩

theorem trans (h : m.Precedes m') (h' : m'.Precedes m'') : m.Precedes m'' where
  tick := h.tick.trans h'.tick
  events := by
    obtain ⟨later, hevents, hlater⟩ := h.events
    obtain ⟨more, hevents', hmore⟩ := h'.events
    refine ⟨later ++ more, by rw [hevents', hevents, List.append_assoc], fun e he => ?_⟩
    rcases List.mem_append.1 he with he | he
    · exact hlater e he
    · exact h.tick.trans (hmore e he)

/-- What is recorded later changes nothing in `before` of a tick that the first machine has
reached. -/
theorem before_eq (h : m.Precedes m') {tick : Nat} (htick : tick ≤ m.state.tick) :
    Trace.before tick m'.events.toList = Trace.before tick m.events.toList := by
  obtain ⟨later, hevents, hlater⟩ := h.events
  rw [hevents, Trace.before_append, Trace.before_eq_nil fun e he => htick.trans (hlater e he),
    List.append_nil]

end Precedes

/-- A stride records in its own tick, so it leads from a machine to one that it `Precedes`. -/
theorem Strides.precedes (h : m.Strides P limit m') : m.Precedes m' where
  tick := h.tick_le
  events := by
    obtain ⟨later, hnotes⟩ := h.notes
    refine ⟨_, hnotes, fun e he => ?_⟩
    obtain ⟨what, -, rfl⟩ := List.mem_map.1 he
    exact Nat.le_refl _

end Machine

namespace Scenario.Reaches

/-- What is kept by strides is kept up to the end of the run, which every run of a lawful policy
has. -/
theorem exists_over (hsc : sc.Admitted) (hP : P.Lawful) {I : Machine σ → Prop}
    (hstride : ∀ {m m'}, m.Steady sc → I m → m.Strides P sc.limit m' → I m')
    (h : sc.Reaches P memory m) (hm : m.Steady sc) (hI : I m) :
    ∃ exit last, sc.Reaches P memory last ∧ last.phase = .over exit ∧ I last := by
  obtain ⟨exit, hended, hlead⟩ := h.run_ended hsc hP
  obtain ⟨hreach, hover⟩ := reaches_of_ended hended
  refine ⟨exit, _, hreach, hover, ?_⟩
  rcases hlead.steady_or_switching hsc hP (fun hm hI hstr _ => hstride hm hI hstr) hm hI with
    ⟨-, hlast⟩ | ⟨-, -, -, -, -, hsw⟩
  · exact hlast
  · rw [Phase.isSwitching_of_over hover] at hsw
    cases hsw

/-- A machine that is reached is `Steady`, or carries a choice out that a steady machine has made,
which has recorded the same. -/
theorem steady_or_switching (hsc : sc.Admitted) (hP : P.Lawful) (h : sc.Reaches P memory m) :
    m.Steady sc ∨ ∃ m₁, sc.Reaches P memory m₁ ∧ m₁.Steady sc ∧ m₁.state.tick = m.state.tick ∧
      m₁.events = m.events := by
  have hlead : ∃ memory', sc.Reaches P memory (Machine.initial sc memory') ∧
      (Machine.initial sc memory').Leads P sc.limit (sc.Reaches P memory) m := by
    induction h with
    | start hprep =>
      obtain ⟨memory', rfl⟩ := exists_eq_initial hP hprep
      exact ⟨memory', .start hprep, .here⟩
    | step h hstep ih =>
      obtain ⟨memory', hstart, hlead⟩ := ih
      exact ⟨memory', hstart, hlead.step hstep (h.step hstep)⟩
  obtain ⟨memory', hstart, hlead⟩ := hlead
  rcases hlead.steady_or_switching hsc hP (I := sc.Reaches P memory) (fun _ _ _ hreach => hreach)
    (.initial hsc.sound memory') hstart with ⟨hm, -⟩ | ⟨m₁, hm₁, hreach, hphase, hstep, -⟩
  · exact Or.inl hm
  · obtain ⟨memory₁, t, next, -, hchose, rfl⟩ := hm₁.step_of_choosing hP hphase hstep
    exact Or.inr ⟨m₁, hreach, hm₁, hchose.tick.symm, rfl⟩

/-- Every machine of a run `Precedes` the one at its end. -/
theorem exists_precedes (hsc : sc.Admitted) (hP : P.Lawful) (h : sc.Reaches P memory m) :
    ∃ exit last, sc.Reaches P memory last ∧ last.phase = .over exit ∧ m.Precedes last := by
  have hsteady : ∀ {m : Machine σ}, sc.Reaches P memory m → m.Steady sc →
      ∃ exit last, sc.Reaches P memory last ∧ last.phase = .over exit ∧ m.Precedes last :=
    fun {m} h hm => h.exists_over (I := m.Precedes) hsc hP
      (fun _ hI hstr => hI.trans hstr.precedes) hm (.refl m)
  rcases h.steady_or_switching hsc hP with hm | ⟨m₁, h₁, hm₁, htick, hevents⟩
  · exact hsteady h hm
  · obtain ⟨exit, last, hlast, hover, hprec⟩ := hsteady h₁ hm₁
    exact ⟨exit, last, hlast, hover, htick ▸ hprec.tick, htick ▸ hevents ▸ hprec.events⟩

/-- The trace of a run begins with what any of its machines has recorded, and goes on in that
machine's tick or later. -/
theorem exists_trace (hsc : sc.Admitted) (hP : P.Lawful) (h : sc.Reaches P memory m) :
    ∃ t, (sc.run P memory sc.stepBound).trace? = some t ∧ m.state.tick ≤ t.endTick ∧
      ∃ later, t.events = m.events.toList ++ later ∧ ∀ e ∈ later, m.state.tick ≤ e.tick := by
  obtain ⟨exit, last, hlast, hover, hprec⟩ := h.exists_precedes hsc hP
  exact ⟨_, hlast.trace?_of_over hsc hP hover, hprec.tick, hprec.events⟩

/-- A trace of the run, whatever it is known by, begins with what any machine of the run has
recorded: there is only one trace. -/
theorem begins_trace (hsc : sc.Admitted) (hP : P.Lawful) (h : sc.Reaches P memory m) {t : Trace}
    (ht : (sc.run P memory sc.stepBound).trace? = some t) :
    ∃ later, t.events = m.events.toList ++ later ∧ ∀ e ∈ later, m.state.tick ≤ e.tick := by
  obtain ⟨t', ht', -, hevents⟩ := h.exists_trace hsc hP
  cases ht.symm.trans ht'
  exact hevents

/-- Until a tick is opened nothing is recorded in it: all events so far are of the ticks before. -/
theorem lt_of_isUnopened (hsc : sc.Admitted) (hP : P.Lawful) (h : sc.Reaches P memory m)
    (hphase : m.phase.isUnopened = true) : ∀ e ∈ m.events.toList, e.tick < m.state.tick := by
  have hrest : m.phase.isSwitching = false := by
    cases hm : m.phase with
    | switching => cases hm ▸ hphase
    | _ => rfl
  refine (h.invariant (I := fun m => m.RefusedOnce ∧ (m.phase.isUnopened = true →
    ∀ e ∈ m.events.toList, e.tick < m.state.tick)) hsc hP (fun memory => ?_)
    (fun {m m'} hm hI hstr => ?_) hrest).2 hphase
  · exact ⟨.initial sc memory, fun _ _ he => absurd he List.not_mem_nil⟩
  · refine ⟨hI.1.strides hm (hm.strides hsc.sound hstr) hstr, fun hphase' e he => ?_⟩
    cases hstr with
    | stop hphase => exact hI.2 (by rw [hphase]; rfl) e he
    | tick => exact Nat.lt_succ_of_le (hI.1.past e he)
    | @conclude exit _ hphase =>
      cases exit with
      | tickLimit => exact hI.2 (by rw [hphase]; rfl) e he
      | _ => cases hphase'
    | _ => cases hphase'

end Scenario.Reaches

end Uniprocessor
