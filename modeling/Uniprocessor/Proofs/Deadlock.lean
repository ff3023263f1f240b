import Uniprocessor.Proofs.Ending
import Uniprocessor.Proofs.Record
import Uniprocessor.Proofs.Waiting
import Uniprocessor.Proofs.Wakeup

/-!
# Deadlocks are circular waits

A run is found to be in a deadlock when a tick was idle, nobody is to come and every live process is
blocked. Nobody looks at who waits for whom; the verdict is exact all the same.

* In a deadlock nobody waits for a free resource, since such a resource has an heir who is ready
  (`Wakeful.exists_owner`). So every process waits for another one, and some of them wait in a
  circle.
* Only an owner that executes gives something back. The processes of a circle own what the others
  wait for, none of them executes, and so the circle stands for ever (`Steady.stuck_of_leads`).
-/

namespace Uniprocessor

/-- Some processes are live, and none of them can ever go on. -/
structure State.Deadlocked (s : State) : Prop where
  /-- somebody is live -/
  live : s.procs ≠ []
  /-- every live process is blocked, and waits for what another live and blocked process owns -/
  blocked : ∀ pid p, s.process? pid = some p → p.status = .blocked ∧ ∃ r owner q,
    s.Waits pid r ∧ s.Owns owner r ∧ owner ≠ pid ∧ s.process? owner = some q ∧ q.status = .blocked
  /-- some of the processes wait in a circle -/
  circle : ∃ c, s.CircularWait c

namespace Machine

variable {σ : Type} {sc : Scenario} {P : Policy σ} {m m' : Machine σ} {c : Cycle Pid}

/-! ## A deadlock is a circular wait -/

/-- If every live process is blocked, whatever a process waits for belongs to another live process,
which is blocked too: a free resource would have an `Heir` that is ready. -/
theorem Wakeful.exists_owner (h : m.Steady sc) (hw : m.Wakeful)
    (hphase : ∀ pid q rest, m.phase ≠ .requesting pid (q :: rest))
    (hall : ∀ p ∈ m.state.procs, p.status = .blocked) {pid : Pid} {r : ResourceId}
    (hwaits : m.state.Waits pid r) :
    ∃ owner q, m.state.Owns owner r ∧ owner ≠ pid ∧ m.state.process? owner = some q ∧
      q.status = .blocked := by
  obtain ⟨x, hx, hmem⟩ := hwaits
  rcases ho : x.owner with _ | owner
  · -- A free resource with waiters has an heir, and the heir is not blocked.
    obtain ⟨heir, -, hready⟩ := hw.heir_ready h hphase hx ho (List.ne_nil_of_mem hmem)
    obtain ⟨p, hp, hst⟩ := State.process?_of_status? hready
    rw [hall p (State.mem_of_process? hp)] at hst
    cases hst
  · have howns : m.state.Owns owner r := (State.owns_iff hx).2 ho
    obtain ⟨q, hq⟩ := h.stage.settled.process?_of_owns howns
    refine ⟨owner, q, howns, ?_, hq, hall q (State.mem_of_process? hq)⟩
    rintro rfl
    exact h.stage.settled.owner_apart howns ⟨x, hx, hmem⟩

/-- If every live process is blocked, and there is one, nobody can ever go on: the state is
`Deadlocked`. -/
theorem Wakeful.deadlocked (h : m.Steady sc) (hw : m.Wakeful)
    (hphase : ∀ pid q rest, m.phase ≠ .requesting pid (q :: rest))
    (hall : ∀ p ∈ m.state.procs, p.status = .blocked) (hne : m.state.procs ≠ []) :
    m.state.Deadlocked := by
  have hs := h.stage.settled
  have hblocked : ∀ pid p, m.state.process? pid = some p → p.status = .blocked ∧ ∃ r owner q,
      m.state.Waits pid r ∧ m.state.Owns owner r ∧ owner ≠ pid ∧
        m.state.process? owner = some q ∧ q.status = .blocked := by
    intro pid p hp
    have hst := hall p (State.mem_of_process? hp)
    obtain ⟨r, hr⟩ := (hs.blocked_iff pid).1 (by rw [State.status?_of_process? hp, hst])
    obtain ⟨owner, q, howner⟩ := hw.exists_owner h hphase hall hr
    exact ⟨hst, r, owner, q, hr, howner⟩
  refine ⟨hne, hblocked, ?_⟩
  obtain ⟨p, hp⟩ := List.exists_mem_of_ne_nil _ hne
  have hlive := hs.ordered.process?_of_mem hp
  rcases hs.ends_or_circles p.pid with ⟨u, hpath, hend⟩ | ⟨c, hc, -⟩
  · -- The chain ends at a live process, and that one waits for somebody.
    have hu : ∃ q, m.state.process? u = some q := by
      rcases hpath.cases_tail with heq | ⟨v, -, r, -, howns⟩
      · exact ⟨p, heq ▸ hlive⟩
      · exact hs.process?_of_owns howns
    obtain ⟨q, hq⟩ := hu
    obtain ⟨-, r, owner, -, hr, howns, -⟩ := hblocked u q hq
    exact absurd ⟨r, hr, howns⟩ (hend owner)
  · exact ⟨c, hc⟩

/-! ## A circular wait stands -/

/-- From the first machine to the second, the circle has stood: its processes wait for each other as
before, and none of them was chosen or executed. -/
structure Stuck (c : Cycle Pid) (m m' : Machine σ) : Prop where
  /-- the processes wait in the circle -/
  circle : m'.state.CircularWait c
  /-- each of them is blocked -/
  blocked : ∀ w ∈ c, m'.state.status? w = some .blocked
  /-- none of them has been chosen to execute next -/
  unchosen : ∀ w ∈ c, ∀ prev, m'.phase ≠ .switching prev (some w)
  /-- none of them has executed -/
  unexecuted : ∃ later, m'.history = m.history ++ later ∧ ∀ w ∈ c, .executed w ∉ later

/-- What keeps a circle stuck: it stands, and none of its processes has executed since `past`. This
is what a single stride preserves. -/
def Stands (c : Cycle Pid) (past : List Happening) (m : Machine σ) : Prop :=
  m.state.CircularWait c ∧ ∃ later, m.history = past ++ later ∧ ∀ w ∈ c, .executed w ∉ later

/-- A stride leaves a circle standing: its processes are blocked, and `Exchange.waitsFor` keeps
every edge of it. -/
theorem Stands.strides {past : List Happening} (h : m.Steady sc) (hst : m.Stands c past)
    (hstr : m.Strides P sc.limit m') : m'.Stands c past := by
  obtain ⟨hc, later, hpast, hnone⟩ := hst
  have hblocked : ∀ w ∈ c, m.state.status? w ≠ some .running := fun w hw => by
    rw [hc.status? h.stage.settled hw]
    simp
  refine ⟨hc.mono fun w _ z hz hwait => hstr.exchange.waitsFor (hblocked z hz) hwait, ?_⟩
  obtain ⟨news, hnews, htells⟩ := hstr.history
  refine ⟨later ++ news, by rw [hnews, hpast, List.append_assoc], fun w hw hm => ?_⟩
  rcases List.mem_append.1 hm with hm | hm
  · exact hnone w hw hm
  · -- Whoever executes is not blocked.
    obtain ⟨hruns, -⟩ : Turn m.state m.scripts w [] := h.fits_of (htells _ hm)
    exact hblocked w hw hruns.running

/-- A circle is `Stuck` wherever steps lead from a steady machine, by `Stands.strides` for each
stride on the way. -/
theorem Steady.stuck_of_leads (hsc : sc.Admitted) (hP : P.Lawful) (h : m.Steady sc)
    (hc : m.state.CircularWait c) (hlead : m.Leads P sc.limit (fun _ => True) m') :
    Stuck c m m' := by
  have hst : m.Stands c m.history := ⟨hc, [], (List.append_nil _).symm, fun _ _ hm => by cases hm⟩
  rcases hlead.steady_or_switching (I := fun m' => m'.Stands c m.history) hsc hP
    (fun hm hI hstr _ => hI.strides hm hstr) h hst with
    ⟨hm', hc', hlater⟩ | ⟨m₁, hm₁, ⟨hc₁, hlater⟩, hphase, hstep, -⟩
  · refine ⟨hc', fun w hw => hc'.status? hm'.stage.settled hw, fun w _ prev hsw => ?_, hlater⟩
    exact hm'.fits_of hsw
  · -- A choice moves no resource, and takes nobody who waits.
    obtain ⟨memory, t, next, -, hchose, rfl⟩ := hm₁.step_of_choosing hP hphase hstep
    have hs := hm₁.stage.settled
    have hwas : ∀ w ∈ c, m₁.state.status? w = some .blocked := fun w hw => hc₁.status? hs hw
    have hnext : ∀ w ∈ c, next ≠ some w := by
      intro w hw hn
      obtain ⟨r, hr⟩ := (hs.blocked_iff w).1 (hwas w hw)
      exact hchose.not_waits hs (fun _ => (hm₁.stage_of hphase).status?_leaver) (Or.inl hn) r hr
    refine ⟨hc₁.mono fun w _ z _ hwait => (State.waitsFor_congr hchose.resources).2 hwait,
      fun w hw => ?_, fun w hw prev hsw => ?_, hlater⟩
    · change t.status? w = _
      rw [hchose.status (hnext w hw), hwas w hw]
      refine if_neg fun hcont => ?_
      have hrun := hs.status?_contender hcont
      rw [hwas w hw] at hrun
      cases hrun
    · cases hsw
      exact hnext w hw rfl

end Machine

namespace Scenario

variable {σ : Type} {sc : Scenario} {P : Policy σ} {memory : σ} {m m' : Machine σ} {c : Cycle Pid}

/-- A circle is `Stuck` from any machine on that is reached in a run, also from one in the middle of
a choice. -/
theorem Reaches.stuck_of_leads (hsc : sc.Admitted) (hP : P.Lawful) (h : sc.Reaches P memory m)
    (hc : m.state.CircularWait c) (hlead : m.Leads P sc.limit (fun _ => True) m') :
    Machine.Stuck c m m' := by
  obtain ⟨memory', -, hfirst⟩ := h.leads hP
  rcases hfirst.steady_or_switching (I := fun _ => True) hsc hP (fun _ _ _ _ => trivial)
    (.initial hsc.sound memory') trivial with ⟨hm, -⟩ | ⟨m₁, hm₁, -, hphase, hstep, -⟩
  · exact hm.stuck_of_leads hsc hP hc hlead
  · -- The circle stood before the choice, and the choice has recorded nothing.
    obtain ⟨memory, t, next, -, hchose, rfl⟩ := hm₁.step_of_choosing hP hphase hstep
    have hc₁ : m₁.state.CircularWait c :=
      hc.mono fun w _ z _ hwait => (State.waitsFor_congr hchose.resources).1 hwait
    obtain ⟨hc', hblocked, hunchosen, hlater⟩ :=
      hm₁.stuck_of_leads hsc hP hc₁ (hlead.head hstep trivial)
    exact ⟨hc', hblocked, hunchosen, hlater⟩

/-- The **verdict of a deadlock is exact**, under every discipline. If a run ends in a deadlock, its
last state is `Deadlocked`. And if some processes wait in a circle at any machine that is reached,
they are `Stuck` wherever steps lead from there, up to the end of the run, and the run does not end
normally. -/
theorem Admitted.deadlock_exact (h : sc.Admitted) (d : Discipline) (memory : Memory) :
    ((sc.run d.policy memory sc.stepBound).outcome = .ended .deadlock →
      (sc.run d.policy memory sc.stepBound).machine.state.Deadlocked) ∧
    ∀ m c, sc.Reaches d.policy memory m → m.state.CircularWait c →
      (∀ m', m.Leads d.policy sc.limit (fun _ => True) m' → Machine.Stuck c m m') ∧
      m.Leads d.policy sc.limit (fun _ => True) (sc.run d.policy memory sc.stepBound).machine ∧
      (sc.run d.policy memory sc.stepBound).outcome ≠ .ended .normal := by
  refine ⟨fun hended => ?_, fun m c hm hc => ?_⟩
  · obtain ⟨hreached, hphase⟩ := reaches_of_ended hended
    obtain ⟨-, hne, hall⟩ := hreached.accounts h d.lawful hphase
    have hrest := Phase.isSwitching_of_over hphase
    have hwakeful : (sc.run d.policy memory sc.stepBound).machine.Wakeful :=
      hreached.invariant h d.lawful (fun memory => Machine.Wakeful.initial sc memory)
        (fun hm hI hstr => hI.strides hm hstr) hrest
    exact hwakeful.deadlocked (hreached.steady h d.lawful hrest) (by simp [hphase]) hall hne
  · have hstuck : ∀ m', m.Leads d.policy sc.limit (fun _ => True) m' → Machine.Stuck c m m' :=
      fun m' => hm.stuck_of_leads h d.lawful hc
    obtain ⟨exit, -, hlead⟩ := hm.run_ended h d.lawful
    refine ⟨hstuck, hlead, fun hended => ?_⟩
    -- After a normal end nobody is live, let alone blocked.
    obtain ⟨hreached, hphase⟩ := reaches_of_ended hended
    obtain ⟨-, hnil⟩ := hreached.accounts h d.lawful hphase
    obtain ⟨w, hw⟩ := hc.exists_mem
    obtain ⟨p, hp⟩ := State.exists_process?_of_status? ((hstuck _ hlead).blocked w hw)
    exact absurd (State.mem_of_process? hp) (hnil ▸ List.not_mem_nil)

/-- Under priority inheritance, the crossed scenario ends in a deadlock: its two processes wait for
each other from the end of the second tick on, and are stuck up to the end of the run. -/
theorem deadlock_exact_crossed :
    (crossed.run Discipline.inheritance.policy none crossed.stepBound).outcome =
        .ended .deadlock ∧
      (crossed.run Discipline.inheritance.policy none crossed.stepBound).machine.state.Deadlocked ∧
      ∃ m, crossed.Reaches Discipline.inheritance.policy none m ∧ m.phase = .closing true ∧
        m.state.CircularWait ([1, 2] : List Pid) ∧
        Machine.Stuck ([1, 2] : List Pid) m
          (crossed.run Discipline.inheritance.policy none crossed.stepBound).machine := by
  obtain ⟨hverdict, hcircle⟩ := admitted_crossed.deadlock_exact .inheritance none
  have hend : crossed.Reaches Discipline.inheritance.policy none _ :=
    .of_sorted (by decide) rfl 34
  obtain ⟨-, hended⟩ := hend.run_of_over admitted_crossed Discipline.inheritance.lawful
    (rfl : _ = Phase.over .deadlock)
  obtain ⟨m, hm, hphase, hone, htwo⟩ :
      ∃ m, crossed.Reaches Discipline.inheritance.policy none m ∧ m.phase = .closing true ∧
        m.state.WaitsFor 1 2 ∧ m.state.WaitsFor 2 1 :=
    ⟨_, .of_sorted (by decide) rfl 32, rfl, ⟨1, ⟨_, rfl, by decide⟩, ⟨_, rfl, rfl⟩⟩,
      ⟨0, ⟨_, rfl, by decide⟩, ⟨_, rfl, rfl⟩⟩⟩
  have hc : m.state.CircularWait ([1, 2] : List Pid) :=
    ⟨by decide, by decide, List.isChain_cons_cons.2 ⟨hone, List.isChain_pair.2 htwo⟩⟩
  obtain ⟨hstuck, hlead, -⟩ := hcircle m _ hm hc
  exact ⟨hended, hverdict hended, m, hm, hphase, hc, hstuck _ hlead⟩

end Scenario

end Uniprocessor
