import Uniprocessor.Proofs.Credit

/-!
# Nobody waits for ever

Under aging, a process that waits is chosen before long, whatever arrives, blocks or is woken in the
meantime. Everybody who joins the ready queue does so at its base priority, at the tail. So once a
waiting process has come up to the ceiling, nobody who joins can go before it any more: only its
rivals can, who stand before it or above it already, and each of them has to be chosen for that and
then is a rival no longer. The tick by which the process is chosen is bounded by its distance from
the ceiling and the number of its rivals (`Machine.deadline`), and no stride puts that off.
-/

namespace Uniprocessor

namespace State

variable {s t : State} {pid q : Pid}

/-- Those who go before the process when all levels are equal from now on: they stand before it in
the ready queue, or above it. -/
def rivals (s : State) (pid : Pid) : Finset Pid :=
  s.ready.toFinset.filter fun q => [q, pid].Sublist s.ready ∨ s.prioOf pid < s.prioOf q

theorem mem_rivals : q ∈ s.rivals pid ↔
    q ∈ s.ready ∧ ([q, pid].Sublist s.ready ∨ s.prioOf pid < s.prioOf q) := by
  rw [rivals, Finset.mem_filter, List.mem_toFinset]

/-- Those who join a queue without doubles at its tail stand behind those who are in it, so they
come before none of them. -/
theorem sublist_of_append {front back : Queue} (hnodup : (front ++ back).Nodup) (hpid : pid ∈ front)
    (h : [q, pid].Sublist (front ++ back)) : [q, pid].Sublist front := by
  obtain ⟨l₁, l₂, heq, h₁, h₂⟩ := List.sublist_append_iff.1 h
  have hnot : pid ∉ back := fun hmem => (List.nodup_append.1 hnodup).2.2 pid hpid pid hmem rfl
  rcases l₂.eq_nil_or_concat with rfl | ⟨l₂, last, rfl⟩
  · rw [List.append_nil] at heq
    rwa [heq]
  · -- The last of the two is not at the tail.
    rw [List.concat_eq_append, ← List.append_assoc] at heq
    have hlast : last = pid := by
      have := congrArg List.getLast? heq
      simpa using this.symm
    exact absurd (h₂.subset (by simp [hlast])) hnot

/-- Nobody becomes a rival of a process that stays where it is, unless by rising above it: `rivals`
can only shrink. -/
theorem rivals_subset (back : Queue) (hnodup : (s.ready ++ back).Nodup) (hpid : pid ∈ s.ready)
    (hready : t.ready.Sublist (s.ready ++ back))
    (habove : ∀ q ∈ t.ready, t.prioOf pid < t.prioOf q → q ∈ s.rivals pid) :
    t.rivals pid ⊆ s.rivals pid := by
  intro q hq
  obtain ⟨hmem, hbefore | hlt⟩ := mem_rivals.1 hq
  · have hfront := sublist_of_append hnodup hpid (hbefore.trans hready)
    exact mem_rivals.2 ⟨hfront.subset (List.mem_cons_self ..), Or.inl hfront⟩
  · exact habove q hmem hlt

/-- In a pass those who gain a level keep their order: whoever is above afterwards, by `ripe`, was
above before. -/
theorem lt_of_ripe_lt {memory : Memory} (hpid : pid ∈ s.ready) (hq : q ∈ s.ready) {a b : Nat}
    (h : s.ripe memory pid a < s.ripe memory q b) : a < b := by
  simp only [ripe, hpid, hq, and_true, nextLevel] at h
  split at h <;> omega

/-- What has come up to a level does not fall below it in a pass, as `ripe` is no lower than
before. -/
theorem le_ripe {memory : Memory} {level n : Nat} (hlevel : level ≤ largestPrio) (h : level ≤ n) :
    level ≤ s.ripe memory pid n := by
  rw [ripe, nextLevel]
  split <;> omega

end State

namespace Machine

variable {sc : Scenario} {m m' : Machine Memory} {pid q : Pid}

/-- The first tick whose pass is still to be made: the next one if the policy remembers the present
one. -/
def nextPass (m : Machine Memory) : Nat :=
  m.state.tick + if m.memory = some m.state.tick then 1 else 0

theorem tick_le_nextPass (m : Machine Memory) : m.state.tick ≤ m.nextPass := Nat.le_add_right ..

/-- The tick by which a ready process is chosen: in every tick it comes up by a level, or it is at
the ceiling and loses a rival. -/
def deadline (sc : Scenario) (m : Machine Memory) (pid : Pid) : Nat :=
  m.nextPass + (sc.ceiling - m.state.prioOf pid) +
    if sc.ceiling ≤ m.state.prioOf pid then (m.state.rivals pid).card else sc.jobs.length

theorem tick_le_deadline (sc : Scenario) (m : Machine Memory) (pid : Pid) :
    m.state.tick ≤ m.deadline sc pid :=
  m.tick_le_nextPass.trans ((Nat.le_add_right ..).trans (Nat.le_add_right ..))

/-- A process has no more `rivals` than there are jobs, since they are ready processes. -/
theorem Steady.card_rivals_le (hm : m.Steady sc) (pid : Pid) :
    (m.state.rivals pid).card ≤ sc.jobs.length := by
  have hsub : m.state.rivals pid ⊆ (m.state.procs.map Process.pid).toFinset := by
    intro q hq
    obtain ⟨p, hp⟩ := hm.stage.settled.process?_of_mem_ready (State.mem_rivals.1 hq).1
    exact List.mem_toFinset.2
      (List.mem_map.2 ⟨p, State.mem_of_process? hp, State.pid_of_process? hp⟩)
  have hcard := (Finset.card_le_card hsub).trans (List.toFinset_card_le _)
  rw [List.length_map] at hcard
  have := hm.stage.length_le
  omega

/-- In the worst case the process has to come up to the ceiling and has everybody as a rival, which
bounds its `deadline`. -/
theorem Steady.deadline_le (hm : m.Steady sc) (pid : Pid) :
    m.deadline sc pid ≤ m.nextPass + (sc.ceiling - m.state.prioOf pid) + sc.jobs.length := by
  have := hm.card_rivals_le pid
  rw [deadline]
  split <;> omega

/-- The `deadline` of a process is not put off if the process stays at its level, and if at the
ceiling it gets no new rivals. -/
theorem deadline_mono (hpass : m'.nextPass ≤ m.nextPass)
    (hprio : m'.state.prioOf pid = m.state.prioOf pid)
    (hrivals : sc.ceiling ≤ m.state.prioOf pid → m'.state.rivals pid ⊆ m.state.rivals pid) :
    m'.deadline sc pid ≤ m.deadline sc pid := by
  rw [deadline, deadline, hprio]
  split
  · next hle =>
    have := Finset.card_le_card (hrivals hle)
    omega
  · omega

/-- Who is not ready is not above the ceiling, since in a `Seasoned` machine it is at its base
priority. -/
theorem Seasoned.prioOf_le (hsc : sc.Sound) (hm : m.Steady sc) (h : m.Seasoned)
    (hnot : q ∉ m.state.ready) : m.state.prioOf q ≤ sc.ceiling := by
  rcases hb : m.state.bid? q with _ | ⟨b, n⟩
  · rw [State.prioOf, hb]
    exact Nat.zero_le _
  · rw [State.prioOf_of_bid? hb, h.base hb hnot]
    exact hm.base_le hsc hb

/-! ## When the policy does not choose -/

/-- Unless the policy chooses, no pass is put off: `nextPass` stays, as the memory does. -/
theorem Seasoned.nextPass_le (h : m.Seasoned) (hmem : m'.memory = m.memory)
    (hstr : m.Strides Discipline.aging.policy sc.limit m') : m'.nextPass ≤ m.nextPass := by
  rcases hstr.tick_cases with htick | ⟨idle, hclose, -, htick⟩
  · rw [nextPass, nextPass, hmem, htick]
  · -- The tick that ends has had its pass, the one that begins has not.
    have hpass := h.answered (by rw [hclose]; rfl)
    rw [nextPass, nextPass, hmem, hpass, htick]
    simp

/-- Unless the policy chooses, who is ready stays so, and its `deadline` is not put off: whoever
joins does so at the tail and not above the ceiling. -/
theorem Seasoned.deadline_joins (hsc : sc.Sound) (hm : m.Steady sc) (h : m.Seasoned)
    (hphase : m.phase ≠ .choosing) (hstr : m.Strides Discipline.aging.policy sc.limit m')
    (hpid : pid ∈ m.state.ready) :
    pid ∈ m'.state.ready ∧ m'.deadline sc pid ≤ m.deadline sc pid := by
  have hm' := hm.strides hsc hstr
  have h' := h.strides hm hstr
  obtain ⟨added, hjoins⟩ := hm.joins hphase hstr
  have hprio : ∀ {q}, q ∈ m.state.ready → m'.state.prioOf q = m.state.prioOf q := fun {q} hq => by
    obtain ⟨p, hp⟩ := hm.stage.settled.process?_of_mem_ready hq
    have hb := State.bid?_of_process? hp
    rw [State.prioOf_of_bid? hb, State.prioOf_of_bid? (hjoins.stays hb)]
  refine ⟨hjoins.ready ▸ List.mem_append_left _ hpid,
    deadline_mono (h.nextPass_le hjoins.remembered hstr) (hprio hpid) fun hle => ?_⟩
  have hnodup := hm'.stage.settled.ready_nodup
  rw [hjoins.ready] at hnodup
  refine State.rivals_subset _ hnodup hpid (hjoins.ready ▸ List.Sublist.refl _) fun q hq hlt => ?_
  rw [hprio hpid] at hlt
  by_cases hwas : q ∈ m.state.ready
  · exact State.mem_rivals.2 ⟨hwas, Or.inr (hprio hwas ▸ hlt)⟩
  · -- Whoever joins is at its base priority, and that is not above the ceiling.
    obtain ⟨p, hp⟩ := hm'.stage.settled.process?_of_mem_ready hq
    have hb := State.bid?_of_process? hp
    have htop : m'.state.prioOf q ≤ sc.ceiling := by
      rcases hjoins.comes hb with hb₀ | ⟨-, hbase⟩
      · rw [State.prioOf_of_bid? hb, ← State.prioOf_of_bid? hb₀]
        exact h.prioOf_le hsc hm hwas
      · rw [State.prioOf_of_bid? hb, hbase]
        exact hm'.base_le hsc hb
    omega

/-! ## When the policy chooses -/

section Choice

variable {t : State} {next : Option Pid}

/-- Who is still ready after somebody else has been chosen was in the `pool`, and has at most gained
a level, by `ripe`. -/
theorem Steady.prioOf_of_ripened (hm' : m'.Steady sc)
    (hripe : m.state.Ripened m.memory t m'.memory next)
    (hstate : m'.state = m.state.switched t next)
    (hq : q ∈ m'.state.ready) : q ∈ m.state.pool ∧ next ≠ some q ∧
      m'.state.prioOf q = m.state.ripe m.memory q (m.state.prioOf q) := by
  obtain ⟨p, hp⟩ := hm'.stage.settled.process?_of_mem_ready hq
  have hb := State.bid?_of_process? hp
  obtain ⟨n₀, hn₀, hn⟩ := bid?_of_ripened hripe hstate hb
  rw [hstate, State.ready_switched, hripe.ready, List.mem_filter, decide_eq_true_eq] at hq
  refine ⟨hq.1, hq.2, ?_⟩
  rw [State.prioOf_of_bid? hb, State.prioOf_of_bid? hn₀, hn, if_neg hq.2]

/-- Whoever is above a process that has come up to the ceiling is one of its `rivals`: it was ready
and above it before the pass. -/
theorem Seasoned.rival_of_ripe_lt (hsc : sc.Sound) (hm : m.Steady sc) (h : m.Seasoned)
    (hceiling : sc.ceiling ≤ largestPrio) (hpid : pid ∈ m.state.ready)
    (hle : sc.ceiling ≤ m.state.prioOf pid)
    (hlt : m.state.ripe m.memory pid (m.state.prioOf pid) <
      m.state.ripe m.memory q (m.state.prioOf q)) : q ∈ m.state.rivals pid := by
  by_cases hq : q ∈ m.state.ready
  · exact State.mem_rivals.2 ⟨hq, Or.inr (State.lt_of_ripe_lt hpid hq hlt)⟩
  · -- Who is not ready is not above the ceiling.
    have htop := h.prioOf_le hsc hm hq
    have htop' : sc.ceiling ≤ m.state.ripe m.memory pid (m.state.prioOf pid) :=
      State.le_ripe hceiling hle
    rw [State.ripe_of_not_ready hq] at hlt
    omega

/-- If somebody else is chosen, it is among the `rivals` of a process that has come up to the
ceiling. -/
theorem Seasoned.rival_of_chosen (hsc : sc.Sound) (hm : m.Steady sc) (h : m.Seasoned)
    (hceiling : sc.ceiling ≤ largestPrio) (hpid : pid ∈ m.state.ready)
    (hle : sc.ceiling ≤ m.state.prioOf pid) (hripe : m.state.Ripened m.memory t m'.memory next)
    (hnext : next ≠ some pid) : ∃ q, next = some q ∧ q ∈ m.state.rivals pid := by
  have hbest := hripe.best.symm
  rcases next with _ | q
  · -- The pool is not empty.
    have hpool : pid ∈ m.state.pool := List.mem_append_left _ hpid
    rw [firstBest_eq_none.1 hbest] at hpool
    cases hpool
  · refine ⟨q, rfl, ?_⟩
    have hne : pid ≠ q := fun he => hnext (congrArg some he.symm)
    rcases lt_or_behind_of_firstMax hbest (List.mem_append_left _ hpid) hne with hlt | ⟨-, hbehind⟩
    · exact h.rival_of_ripe_lt hsc hm hceiling hpid hle hlt
    · have hfront := State.sublist_of_append hm.stage.settled.pool_nodup hpid hbehind
      exact State.mem_rivals.2 ⟨hfront.subset (List.mem_cons_self ..), Or.inl hfront⟩

/-- At the ceiling a process loses the rival that is chosen, and gets no new one: `rivals` has one
process less at least. -/
theorem Seasoned.card_rivals_lt (hsc : sc.Sound) (hm : m.Steady sc) (hm' : m'.Steady sc)
    (h : m.Seasoned) (hceiling : sc.ceiling ≤ largestPrio) (hpid : pid ∈ m.state.ready)
    (hpid' : pid ∈ m'.state.ready) (hle : sc.ceiling ≤ m.state.prioOf pid)
    (hripe : m.state.Ripened m.memory t m'.memory next)
    (hstate : m'.state = m.state.switched t next) :
    (m'.state.rivals pid).card < (m.state.rivals pid).card := by
  have hready : m'.state.ready.Sublist m.state.pool := by
    rw [hstate, State.ready_switched, hripe.ready]
    exact List.filter_sublist
  obtain ⟨-, hnext, hprio⟩ := hm'.prioOf_of_ripened hripe hstate hpid'
  obtain ⟨q, rfl, hq⟩ := h.rival_of_chosen hsc hm hceiling hpid hle hripe hnext
  have hsub : m'.state.rivals pid ⊆ m.state.rivals pid := by
    refine State.rivals_subset _ hm.stage.settled.pool_nodup hpid hready fun z hz hlt => ?_
    obtain ⟨-, -, hprio'⟩ := hm'.prioOf_of_ripened hripe hstate hz
    rw [hprio, hprio'] at hlt
    exact h.rival_of_ripe_lt hsc hm hceiling hpid hle hlt
  have hgone : q ∉ m'.state.rivals pid := fun hmem =>
    (hm'.prioOf_of_ripened hripe hstate (State.mem_rivals.1 hmem).1).2.1 rfl
  exact Finset.card_lt_card ((Finset.ssubset_iff_of_subset hsub).2 ⟨q, hq, hgone⟩)

/-- When somebody else is chosen, who is ready stays so, and its `deadline` is not put off: in a
pass it gains a level, or at the ceiling it has lost a rival. -/
theorem Seasoned.deadline_choice (hsc : sc.Sound) (hm : m.Steady sc) (h : m.Seasoned)
    (hceiling : sc.ceiling ≤ largestPrio) (hphase : m.phase = .choosing)
    (hstr : m.Strides Discipline.aging.policy sc.limit m')
    (hripe : m.state.Ripened m.memory t m'.memory next)
    (hstate : m'.state = m.state.switched t next) (hpid : pid ∈ m.state.ready)
    (hnext : next ≠ some pid) :
    pid ∈ m'.state.ready ∧ m'.deadline sc pid ≤ m.deadline sc pid := by
  have hm' := hm.strides hsc hstr
  have hpid' : pid ∈ m'.state.ready := by
    rw [hstate, State.ready_switched, hripe.ready, List.mem_filter, decide_eq_true_eq]
    exact ⟨List.mem_append_left _ hpid, hnext⟩
  obtain ⟨-, -, hprio⟩ := hm'.prioOf_of_ripened hripe hstate hpid'
  refine ⟨hpid', ?_⟩
  have hpass : m'.nextPass = m.state.tick + 1 := by
    have htick : m'.state.tick = m.state.tick := hstr.tick_eq (by simp [hphase])
    rw [nextPass, hripe.remembered, htick, if_pos rfl]
  by_cases hle : sc.ceiling ≤ m.state.prioOf pid
  · have hcard := h.card_rivals_lt hsc hm hm' hceiling hpid hpid' hle hripe hstate
    have hle' : sc.ceiling ≤ m'.state.prioOf pid := hprio ▸ State.le_ripe hceiling hle
    have := m.tick_le_nextPass
    rw [deadline, deadline, if_pos hle, if_pos hle', hpass]
    omega
  · -- Below the ceiling it comes up by a level, unless the pass has been made.
    have hworst := hm'.deadline_le pid
    rw [hprio, State.ripe] at hworst
    rw [deadline.eq_def sc m, if_neg hle, nextPass]
    by_cases hfirst : m.memory = some m.state.tick
    · rw [if_neg fun he => he.1 hfirst] at hworst
      rw [if_pos hfirst]
      omega
    · rw [if_pos ⟨hfirst, hpid⟩, State.nextLevel] at hworst
      rw [if_neg hfirst]
      omega

end Choice

/-- While somebody is ready, a run ends only because the limit has come: neither a normal end nor a
deadlock leaves anybody ready. -/
theorem Steady.eq_tickLimit (hm : m.Steady sc) (hpid : pid ∈ m.state.ready) {exit : Exit}
    (h : m.Accounts sc.limit exit) : exit = .tickLimit := by
  obtain ⟨p, hp, hready⟩ := State.process?_of_status? ((hm.stage.settled.mem_ready pid).1 hpid)
  have hmem := State.mem_of_process? hp
  cases exit with
  | normal =>
    rw [h.2] at hmem
    cases hmem
  | deadlock =>
    have hblocked := h.2.2 p hmem
    rw [hready] at hblocked
    cases hblocked
  | tickLimit => rfl

/-- Whoever is ready is chosen by its `deadline`, unless the limit comes before: the clock moves on,
and the deadline is never put off. -/
theorem Steady.leads_chosen (hsc : sc.Admitted) (hceiling : sc.ceiling ≤ largestPrio)
    (hm : m.Steady sc) (hseason : m.Seasoned) (hacc : m.Accounted sc.limit)
    (hpid : pid ∈ m.state.ready) {bound : Nat} (hbound : m.deadline sc pid ≤ bound) :
    ∃ m', m.Leads Discipline.aging.policy sc.limit (fun x => x.state.tick ≤ bound) m' ∧
      ((∃ prev, m'.phase = .switching prev (some pid)) ∨ m'.phase = .over .tickLimit) := by
  induction hrank : m.rank sc using Nat.strongRecOn generalizing m with
  | _ n ih =>
    by_cases hover : ∃ exit, m.phase = .over exit
    · obtain ⟨exit, hover⟩ := hover
      cases hm.eq_tickLimit hpid (hacc exit (Or.inr hover))
      exact ⟨m, .here, Or.inr hover⟩
    · have hover : ∀ exit, m.phase ≠ .over exit := fun exit he => hover ⟨exit, he⟩
      obtain ⟨m', hok, hstr⟩ := hm.exists_stride hsc Discipline.aging.lawful hover
      have hm' := hm.strides hsc.sound hstr
      have hfall := hm.rank_strides hsc.sound hstr
      have hcost := m.phase.cost_pos
      -- A stride after which the process is still ready, and not to be chosen later than before,
      -- leaves the rest of the way.
      have hrest : pid ∈ m'.state.ready ∧ m'.deadline sc pid ≤ m.deadline sc pid →
          m'.state.tick ≤ bound ∧
          ∃ last, m'.Leads Discipline.aging.policy sc.limit (fun x => x.state.tick ≤ bound) last ∧
            ((∃ prev, last.phase = .switching prev (some pid)) ∨ last.phase = .over .tickLimit) :=
        fun ⟨hpid', hle⟩ => ⟨(m'.tick_le_deadline sc pid).trans (hle.trans hbound),
          ih (m'.rank sc) (by omega) hm' (hseason.strides hm hstr) (hstr.accounted hacc) hpid'
            (hle.trans hbound) rfl⟩
      by_cases hphase : m.phase = .choosing
      · obtain ⟨m₁, hm₁, hok⟩ := exists_steps_of_stride hphase hok
        obtain ⟨memory, t, next, hchoose, hchose, rfl⟩ :=
          hm.step_of_choosing Discipline.aging.lawful hphase hm₁
        obtain ⟨t', next', hchoose', -, hripe, hstate⟩ := hm.ripened hphase hstr
        cases hchoose.symm.trans hchoose'
        have htick : t.tick ≤ bound :=
          hchose.tick ▸ (m.tick_le_deadline sc pid).trans hbound
        by_cases hnext : next = some pid
        · exact ⟨_, .step .here hm₁ htick, Or.inl ⟨_, congrArg _ hnext⟩⟩
        · obtain ⟨htick', last, hlead, hlast⟩ := hrest
            (hseason.deadline_choice hsc.sound hm hceiling hphase hstr hripe hstate hpid hnext)
          exact ⟨last, (hlead.head hok htick').head hm₁ htick, hlast⟩
      · rw [stride_of_ne_choosing hphase] at hok
        obtain ⟨htick', last, hlead, hlast⟩ :=
          hrest (hseason.deadline_joins hsc.sound hm hphase hstr hpid)
        exact ⟨last, hlead.head hok htick', hlast⟩

end Machine

namespace Scenario

variable {sc : Scenario} {memory : Memory} {m : Machine Memory} {past : List (Machine Memory)}
  {pid : Pid}

/-- Under aging **nobody waits for ever**: whoever is ready when the policy is `FirstAsked` in a
tick is chosen within as many ticks as it has levels to the ceiling, and one more for every job,
whatever happens in between, unless the run is stopped at the limit before. The ceiling may be
`largestPrio`. -/
theorem Admitted.chosen_in_time (h : sc.Admitted) (hceiling : sc.ceiling ≤ largestPrio)
    (ht : sc.Trail Discipline.aging.policy memory (m :: past)) (hfirst : m.FirstAsked past)
    {p : Process} (hp : m.state.process? pid = some p) (hready : pid ∈ m.state.ready) :
    ∃ m', m.Leads Discipline.aging.policy sc.limit
        (fun x => x.state.tick ≤ m.state.tick + (sc.ceiling - p.prio) + sc.jobs.length) m' ∧
      ((∃ prev, m'.phase = .switching prev (some pid)) ∨ m'.phase = .over .tickLimit) := by
  obtain ⟨hm, hseason, hrecalls, -⟩ := ht.credited_of_rest h hceiling (by rw [hfirst.1]; rfl)
  have hacc : m.Accounted sc.limit := .of_phase hfirst.1 fun exit hend => by
    rcases hend with hend | hend <;> cases hend
  refine hm.leads_chosen h hceiling hseason hacc hready ((hm.deadline_le pid).trans_eq ?_)
  rw [Machine.nextPass, if_neg ((hrecalls.firstAsked_iff hfirst.1).1 hfirst),
    State.prioOf_of_process? hp, Nat.add_zero]

/-- The second of the patient processes, which stands three levels below the ceiling in the second
tick, is chosen by the eighth one. -/
theorem chosen_in_time_patient : patient.ceiling ≤ largestPrio ∧ ∃ m past,
    patient.Trail Discipline.aging.policy none (m :: past) ∧ m.FirstAsked past ∧ m.state.tick = 1 ∧
      (∃ p, m.state.process? 2 = some p ∧ p.prio = 1) ∧ 2 ∈ m.state.ready ∧
      ∃ m', m.Leads Discipline.aging.policy patient.limit (fun x => x.state.tick ≤ 7) m' ∧
        ((∃ prev, m'.phase = .switching prev (some 2)) ∨ m'.phase = .over .tickLimit) := by
  have hceiling : patient.ceiling ≤ largestPrio := by decide
  obtain ⟨m, m', p, p', hm, hstep, hp, hp', htick, hprio, hprio', hready⟩ : ∃ m m' p p',
      patient.Reaches Discipline.aging.policy none m ∧
      (m.step Discipline.aging.policy patient.limit).result = .ok m' ∧
      m.state.process? 2 = some p ∧ m'.state.process? 2 = some p' ∧
      m.state.tick = 1 ∧ p.prio = 1 ∧ p'.prio = 2 ∧ 2 ∈ m.state.ready :=
    ⟨_, _, _, _, .of_sorted (by decide) rfl 17, rfl, rfl, rfl, rfl, rfl, rfl, by decide⟩
  obtain ⟨past, ht⟩ := hm.exists_trail
  -- The process gains a level when the policy is asked.
  obtain ⟨hfirst, -⟩ := ht.firstAsked_of_rise admitted_patient hceiling hstep hp hp' (by omega)
  have hchosen := admitted_patient.chosen_in_time hceiling ht hfirst hp hready
  rw [htick, hprio] at hchosen
  exact ⟨hceiling, m, past, ht, hfirst, htick, ⟨p, hp, hprio⟩, hready, hchosen⟩

end Scenario

end Uniprocessor
