import Uniprocessor.Proofs.Answers
import Uniprocessor.Proofs.Contention
import Uniprocessor.Proofs.Credit

/-!
# Preemption by priority

Under priority, the priority ceiling and priority inheritance, whoever executes got its turn because
no ready process was above it. While it asks for what is due it may rise, but nobody else does; so
no ready process is above it when it executes (`Reaches.unsurpassed`).

Priority and priority inheritance replace the current process only by a ready process that is above
it. Whoever executed in the tick before is still running when the policy is asked for the first time
in a tick (`Trail.running_of_firstAsked`), and it gets its turn if nobody ready is above it and it
is not finished. Then it executes, unless something is refused to it
(`Reaches.executed_or_refused`).
-/

namespace Uniprocessor

open Narrated

/-! ## Whoever has its turn -/

/-- Nobody who stays in the ready queue is above the one that is chosen by priority, and the choice
reprices nobody. -/
theorem Discipline.top_of_choose {d : Discipline}
    (hd : d = .priority ∨ d = .ceiling ∨ d = .inheritance) {memory memory' : Memory} {s t : State}
    {pid : Pid} (hs : s.Settled)
    (hok : (d.policy.choose memory s).result = .ok (memory', t, some pid)) :
    t.bid? = s.bid? ∧ ∀ z ∈ t.ready, s.prioOf z ≤ s.prioOf pid := by
  have hurgent : s.preferUrgent.result = .ok (t, some pid) →
      t.bid? = s.bid? ∧ ∀ z ∈ t.ready, s.prioOf z ≤ s.prioOf pid := by
    intro hprefer
    obtain ⟨t', choice, hok', -, hbid, htop⟩ := hs.preferUrgent_chose
    cases hprefer.symm.trans hok'
    exact ⟨hbid, htop pid rfl⟩
  rcases hd with rfl | rfl | rfl
  · exact hurgent (result_of_paired hok)
  · obtain ⟨memory₁, t', next, hok', -, hbid⟩ := ceiling.choose_eq_ok memory hs
    cases hok.symm.trans hok'
    obtain ⟨hbest, hready⟩ := picks_of_ceiling hs hok
    refine ⟨hbid (by decide), fun z hz => State.prioOf_le_foremost hbest.symm ?_⟩
    exact List.mem_of_mem_filter (hready ▸ hz)
  · exact hurgent (result_of_paired hok)

/-- Under the ceiling nobody is above it: whoever owns something is at it, and all others are at
their base priority. -/
theorem Machine.Raised.prioOf_le {sc : Scenario} {m : Machine Memory} (h : m.Raised sc)
    (hsc : sc.Sound) (hm : m.Steady sc) (z : Pid) : m.state.prioOf z ≤ m.state.ceiling := by
  rcases hbid : m.state.bid? z with _ | ⟨b, n⟩
  · rw [State.prioOf, hbid]
    exact Nat.zero_le _
  · rw [State.prioOf_of_bid? hbid, h.prio hbid, h.ceiling]
    split
    · exact hm.base_le hsc hbid
    · exact Nat.le_refl _

namespace Scenario

variable {sc : Scenario} {memory : Memory} {m m' : Machine Memory} {d : Discipline}

/-- Under each of the three disciplines, whoever gets something does not fall, and nobody else is
repriced: what `Unsurpassed.strides` asks for. -/
theorem Reaches.prioOf_granted (hsc : sc.Admitted)
    (hd : d = .priority ∨ d = .ceiling ∨ d = .inheritance) (h : sc.Reaches d.policy memory m)
    (hm : m.Steady sc) (h' : sc.Reaches d.policy memory m') (hm' : m'.Steady sc) {pid : Pid}
    {r : ResourceId} {x : Resource} {memory' : Memory} {t : State} (hcalls : m.state.Calls pid r x)
    (hx : x.owner = none)
    (hok : (d.policy.acquire m.memory m.state r).result = .ok (memory', t, true))
    (hrep : (m.state.give r x pid).Repriced t) (ht : m'.state = t) (z : Pid) :
    m.state.prioOf z ≤ t.prioOf z ∧ (z ≠ pid → t.prioOf z = m.state.prioOf z) := by
  rcases hd with rfl | rfl | rfl
  · -- The plain lock reprices nobody.
    simp only [Discipline.policy, Discipline.acquire, State.acquirePlain, result_bind,
      hcalls.ask_free hx, ok_bind] at hok
    cases hok
    exact ⟨Nat.le_refl _, fun _ => rfl⟩
  · simp only [Discipline.policy, Discipline.acquire, result_bind, hcalls.acquireCeiling_free hx,
      ok_bind] at hok
    cases hok
    have hother : z ≠ pid → ((m.state.give r x pid).reprice pid m.state.ceiling).prioOf z =
        m.state.prioOf z := fun hz =>
      State.prioOf_congr ((State.bid?_reprice ..).trans (if_neg hz))
    refine ⟨?_, hother⟩
    by_cases hz : z = pid
    · obtain ⟨p, hp⟩ := hcalls.process?
      have hself : ((m.state.give r x pid).reprice pid m.state.ceiling).bid? pid =
          some (p.base, m.state.ceiling) := by
        rw [State.bid?_reprice, if_pos rfl]
        exact congrArg _ (State.bid?_of_process? hp)
      rw [hz, State.prioOf_of_bid? hself]
      exact (h.raised hsc).prioOf_le hsc.sound hm pid
    · exact Nat.le_of_eq (hother hz).symm
  · have hdonated := h.donated hsc hm.isSwitching_eq_false
    have hdonated' := h'.donated hsc hm'.isSwitching_eq_false
    exact hcalls.prioOf_give hx hrep hdonated (ht ▸ hdonated') z

/-- No ready process is above the one whose turn it is: the machine is `Unsurpassed` wherever a run
gets to. -/
theorem Reaches.unsurpassed (hsc : sc.Admitted)
    (hd : d = .priority ∨ d = .ceiling ∨ d = .inheritance) (h : sc.Reaches d.policy memory m)
    (hm : m.phase.isSwitching = false) : m.Unsurpassed := by
  refine h.invariant_of_reached hsc d.lawful (fun _ _ ht => by cases ht)
    (fun {m m'} hm hreach hI hstr hreach' => ?_) hm
  have hm' := hm.strides hsc.sound hstr
  exact hI.strides hm (fun hok => Discipline.top_of_choose hd hm.stage.settled hok)
    (fun hcalls hx hok hrep ht => hreach.prioOf_granted hsc hd hm hreach' hm' hcalls hx hok hrep ht)
    hstr

/-- Whoever executes is at least as urgent as each ready process, since it is the one whose turn it
is. -/
theorem Reaches.ready_le_of_executing (hsc : sc.Admitted)
    (hd : d = .priority ∨ d = .ceiling ∨ d = .inheritance) (h : sc.Reaches d.policy memory m)
    {pid : Pid} (hphase : m.phase = .executing pid) : ∃ p, m.state.process? pid = some p ∧
      ∀ q ∈ m.state.procs, q.status = .ready → q.prio ≤ p.prio := by
  have hrest : m.phase.isSwitching = false := by rw [hphase]; rfl
  have hm := h.steady hsc d.lawful hrest
  have hs := hm.stage.settled
  obtain ⟨-, p, -, hp, -⟩ : Turn m.state m.scripts pid [] := hm.fits_of hphase
  refine ⟨p, hp, fun q hq hready => ?_⟩
  have hlook := hs.ordered.process?_of_mem hq
  have hmem : q.pid ∈ m.state.ready :=
    (hs.mem_ready q.pid).2 (hready ▸ State.status?_of_process? hlook)
  have hle := h.unsurpassed hsc hd hrest (by rw [hphase]; rfl) q.pid hmem
  rwa [State.prioOf_of_process? hlook, State.prioOf_of_process? hp] at hle

end Scenario

/-! ## Asking again -/

/-- Whether the tick has not come to the first choice yet: the phases before it, from the boundary
on. -/
def Phase.isGathering : Phase → Bool
  | .boundary | .arriving | .announcing _ => true
  | _ => false

namespace Machine

section Asking

variable {σ : Type} {sc : Scenario} {P : Policy σ} {limit : Nat} {m m' m₁ : Machine σ}
  {past : List (Machine σ)}

/-- The policy has been asked in the tick of which it is not decided yet who has it: it will not be
the first time again. -/
def Asked (m : Machine σ) (past : List (Machine σ)) : Prop :=
  ∃ x ∈ past, x.phase = .choosing ∧ x.state.tick = m.now

/-- Until the policy is asked in a tick nobody has a turn in it, and whoever executed in the tick
before is still running: it has not been replaced. -/
def Lingers (m : Machine σ) (past : List (Machine σ)) : Prop :=
  m.Asked past ∨ m.phase.turn? = none ∧ ∀ tick pid, tick + 1 = m.now →
    (tick, some pid) ∈ m.slots → m.state.status? pid = some .running

/-- Unless a choice is made or somebody has its turn, nobody gets a turn, and whoever is running
goes on to do so. -/
theorem Steady.running_strides (hm : m.Steady sc) (hturn : m.phase.turn? = none)
    (hphase : m.phase ≠ .choosing) (hstr : m.Strides P sc.limit m') :
    m'.phase.turn? = none ∧
      ∀ pid, m.state.status? pid = some .running → m'.state.status? pid = some .running := by
  cases hstr with
  | drain hchoosing => exact absurd hchoosing hphase
  | idle hchoosing => exact absurd hchoosing hphase
  | turn hchoosing => exact absurd hchoosing hphase
  | grant hasks =>
    rw [hasks] at hturn
    cases hturn
  | refuse hasks =>
    rw [hasks] at hturn
    cases hturn
  | ready hasks =>
    rw [hasks] at hturn
    cases hturn
  | execute hexec =>
    rw [hexec] at hturn
    cases hturn
  | @arrive job rest harriving harrivals =>
    have hnew := (hm.stage_of_arriving harriving harrivals).process?_arrival
    exact ⟨rfl, fun _ => State.status?_joined_of_live hnew⟩
  | @release caller r waiters due x y memory t woken hreleasing hcalls hx hP ht hnone hwoken =>
    refine ⟨rfl, fun pid hrun => ?_⟩
    cases hcalls.settled.eq_of_running hrun hcalls.running
    change (recordWoken ..).state.status? caller = _
    rw [recordWoken_state]
    exact (ht.status? caller).trans (hcalls.status?_vacate hwoken)
  | _ => exact ⟨rfl, fun _ hrun => hrun⟩

/-- Whoever executes is still `running` when it has, and its turn is over. -/
theorem Steady.running_of_execute (hm : m.Steady sc) {pid : Pid} (hphase : m.phase = .executing pid)
    (hstr : m.Strides P sc.limit m') :
    m'.phase.turn? = none ∧ m'.state.status? pid = some .running := by
  obtain ⟨hruns, -⟩ : Turn m.state m.scripts pid [] := hm.fits_of hphase
  cases hstr with
  | execute hexec =>
    cases hphase.symm.trans hexec
    refine ⟨rfl, ?_⟩
    exact (State.status?_of_places (State.places_adjust_age ..) pid).trans hruns.running
  | _ hother => cases hphase.symm.trans hother

namespace Lingers

/-- Unless a choice is made, whoever executed in the tick before goes on to be running until the
policy is asked: a stride leaves what `Lingers` says. -/
theorem strides (hm : m.Steady sc) (hc : m.Clocked) (h : m.Lingers past)
    (hphase : m.phase ≠ .choosing) (hstr : m.Strides P sc.limit m') : m'.Lingers (m :: past) := by
  by_cases hexec : ∃ pid, m.phase = .executing pid
  · obtain ⟨pid, hexec⟩ := hexec
    obtain ⟨hslots, hnow, hnow'⟩ := hstr.slots_of_executing hexec
    obtain ⟨hturn, hrun⟩ := hm.running_of_execute hexec hstr
    refine Or.inr ⟨hturn, fun tick c htick hslot => ?_⟩
    rw [hslots] at hslot
    rcases List.mem_append.1 hslot with hold | hnew
    · have hlt : tick < m.now := hc.lt_now hold
      omega
    · cases List.mem_singleton.1 hnew
      exact hrun
  · obtain ⟨hslots, hnow⟩ := hstr.slots_eq (fun pid he => hexec ⟨pid, he⟩)
      fun he => absurd he hphase
    rcases h with ⟨x, hx, hasked, htick⟩ | ⟨hturn, hrun⟩
    · exact Or.inl ⟨x, List.mem_cons_of_mem _ hx, hasked, htick.trans hnow.symm⟩
    · obtain ⟨hturn', hkeep⟩ := hm.running_strides hturn hphase hstr
      exact Or.inr ⟨hturn', fun tick c htick hslot =>
        hkeep c (hrun tick c (htick.trans hnow) (hslots ▸ hslot))⟩

/-- After a choice the policy has been asked in the tick, unless the tick is over with it, so
`Lingers` has nothing to say. -/
theorem choice (hc : m.Clocked) (hphase : m.phase = .choosing) (hstr : m.Strides P limit m') :
    m'.Lingers (m₁ :: m :: past) := by
  by_cases hidle : m'.phase = .closing true
  · obtain ⟨hslots, hnow⟩ := hstr.slots_of_idle hphase hidle
    refine Or.inr ⟨by rw [hidle]; rfl, fun tick c htick hslot => ?_⟩
    rw [hslots] at hslot
    rcases List.mem_append.1 hslot with hold | hnew
    · have hlt : tick < m.now := hc.lt_now hold
      omega
    · cases List.mem_singleton.1 hnew
  · obtain ⟨-, hnow⟩ := hstr.slots_eq (by simp [hphase]) fun _ => hidle
    exact Or.inl ⟨m, List.mem_cons_of_mem _ (List.mem_cons_self ..), hphase,
      (now_of_choosing hphase).symm.trans hnow.symm⟩

end Lingers

/-- The clock has not gone back, and where the policy has been asked in the present tick, the tick
is past its beginning, and if the policy is to choose again, something has been refused in it. -/
structure AskedAgain (m : Machine σ) (past : List (Machine σ)) : Prop where
  /-- the clock has not gone back -/
  past_le : ∀ x ∈ past, x.state.tick ≤ m.state.tick
  /-- the tick is past its beginning -/
  later : ∀ x ∈ past, x.phase = .choosing → x.state.tick = m.state.tick →
    m.phase.isGathering = false ∧ (m.phase = .choosing → m.refusedIn m.state.tick ≠ [])

namespace AskedAgain

/-- Unless a choice is made, the tick goes on or the next one begins, so what `AskedAgain` says of
it stays. -/
theorem strides (h : m.AskedAgain past) (hphase : m.phase ≠ .choosing)
    (hstr : m.Strides P limit m') : m'.AskedAgain (m :: past) where
  past_le := List.forall_mem_cons.2
    ⟨hstr.tick_le, fun x hx => (h.past_le x hx).trans hstr.tick_le⟩
  later x hx hasked htick := by
    have hx : x ∈ past := by
      refine (List.mem_cons.1 hx).resolve_left ?_
      rintro rfl
      exact hphase hasked
    have hle := h.past_le x hx
    have hgathering := fun htick => (h.later x hx hasked htick).1
    cases hstr with
    | start hopen => cases hopen ▸ hgathering htick
    | gather hopen => cases hopen ▸ hgathering htick
    | arrive hopen => cases hopen ▸ hgathering htick
    | announce hopen => cases hopen ▸ hgathering htick
    | tick => exact absurd htick (Nat.ne_of_lt (Nat.lt_succ_of_le hle))
    | @refuse pid _ q _ _ memory t =>
      have hnotes : m.Notes t.tick [.refused pid q.resource]
          { (m.answered memory t).record (.refused pid q.resource) with phase := .choosing } :=
        .of_push rfl
      refine ⟨rfl, fun _ => ?_⟩
      change refusedIn _ t.tick ≠ []
      rw [hnotes.refusedIn, if_pos rfl]
      exact List.append_ne_nil_of_right_ne_nil _ (List.cons_ne_nil _ _)
    | _ => exact ⟨rfl, fun he => by cases he⟩

/-- After a choice the tick is past its beginning, and no choice comes at once, so what `AskedAgain`
says holds. -/
theorem choice (h : m.AskedAgain past) (hphase : m.phase = .choosing)
    (htick₁ : m₁.state.tick = m.state.tick) (hstr : m.Strides P limit m') :
    m'.AskedAgain (m₁ :: m :: past) where
  past_le := by
    have htick := hstr.tick_le
    refine List.forall_mem_cons.2 ⟨htick₁ ▸ htick, List.forall_mem_cons.2 ⟨htick, fun x hx => ?_⟩⟩
    exact (h.past_le x hx).trans htick
  later x _ _ _ := by
    cases hstr with
    | drain => exact ⟨rfl, fun he => by cases he⟩
    | idle => exact ⟨rfl, fun he => by cases he⟩
    | turn => exact ⟨rfl, fun he => by cases he⟩
    | _ hother => cases hphase.symm.trans hother

end AskedAgain

end Asking

end Machine

namespace Scenario

section Asking

variable {σ : Type} {sc : Scenario} {P : Policy σ} {memory : σ} {m : Machine σ}
  {past : List (Machine σ)}

/-- The policy is asked again in a tick only when something has been refused in it, so without a
refusal it is `FirstAsked`. -/
theorem Trail.firstAsked_of_unrefused (hsc : sc.Admitted) (hP : P.Lawful)
    (h : sc.Trail P memory (m :: past)) (hphase : m.phase = .choosing)
    (hnone : m.refusedIn m.state.tick = []) : m.FirstAsked past := by
  refine ⟨hphase, fun x hx hasked htick => ?_⟩
  have hchoice : ∀ {m past m₁} {m' : Machine σ}, m.Steady sc → m.AskedAgain past →
      m.phase = .choosing → (m.step P sc.limit).result = .ok m₁ → m.Strides P sc.limit m' →
      m'.AskedAgain (m₁ :: m :: past) := by
    intro m past m₁ m' hm hI hphase hstep hstr
    obtain ⟨memory', t, next, -, hchose, rfl⟩ := hm.step_of_choosing hP hphase hstep
    exact hI.choice hphase hchose.tick hstr
  have hagain := h.invariant_of_rest (I := Machine.AskedAgain) hsc hP
    (fun _ => ⟨fun _ hx => absurd hx List.not_mem_nil, fun _ hx => absurd hx List.not_mem_nil⟩)
    (fun _ hI hphase hstr => hI.strides hphase hstr) hchoice (by rw [hphase]; rfl)
  exact (hagain.later x hx hasked htick).2 hphase hnone

/-- Whoever executed in the tick before is still running when the policy is `FirstAsked` in a
tick. -/
theorem Trail.running_of_firstAsked (hsc : sc.Admitted) (hP : P.Lawful)
    (h : sc.Trail P memory (m :: past)) (hfirst : m.FirstAsked past) {tick : Nat} {pid : Pid}
    (htick : m.state.tick = tick + 1) (hslot : (tick, some pid) ∈ m.slots) :
    m.state.status? pid = some .running := by
  obtain ⟨hphase, hnew⟩ := hfirst
  have hinit : ∀ {m}, (sc.prepare P memory).result = .ok (.ok m) → m.Clocked ∧ m.Lingers [] := by
    intro m hprep
    obtain ⟨memory', rfl⟩ := exists_eq_initial hP hprep
    exact ⟨.initial sc memory', Or.inr ⟨rfl, fun _ _ _ hslot => absurd hslot List.not_mem_nil⟩⟩
  have hlingers := h.invariant_of_rest (I := fun m past => m.Clocked ∧ m.Lingers past) hsc hP hinit
    (fun hm hI hphase hstr => ⟨hI.1.strides hstr, .strides hm hI.1 hI.2 hphase hstr⟩)
    (fun _ hI hphase _ hstr => ⟨hI.1.strides hstr, .choice hI.1 hphase hstr⟩) (by rw [hphase]; rfl)
  have hnow := Machine.now_of_choosing hphase
  rcases hlingers.2 with ⟨x, hx, hasked, hnow'⟩ | ⟨-, hrun⟩
  · exact absurd (hnow'.trans hnow) (hnew x hx hasked)
  · exact hrun tick pid (htick.symm.trans hnow.symm) hslot

/-- Whoever executes, by the trace, in a tick that is over has had its slot, at any machine that is
past that tick. -/
theorem Reaches.mem_slots_of_trace (hsc : sc.Admitted) (hP : P.Lawful) {t : Trace}
    (h : sc.Reaches P memory m) (ht : (sc.run P memory sc.stepBound).trace? = some t) {tick : Nat}
    {pid : Pid} (hpast : tick < m.state.tick) (hexec : ⟨tick, .executed pid⟩ ∈ t.events) :
    (tick, some pid) ∈ m.slots := by
  obtain ⟨later, hevents, hlater⟩ := h.begins_trace hsc hP ht
  refine Trace.mem_slotsOf_executed.2 ?_
  rcases List.mem_append.1 (hevents ▸ hexec) with hmem | hmem
  · exact hmem
  · exact absurd (hlater _ hmem) (Nat.not_le.2 hpast)

/-- Whoever is about to execute does so, in the present tick: the next stride records it as
`executed`. -/
theorem Reaches.exists_executed (hsc : sc.Admitted) (hP : P.Lawful) {pid : Pid}
    (h : sc.Reaches P memory m) (hphase : m.phase = .executing pid) :
    ∃ m', sc.Reaches P memory m' ∧ ⟨m.state.tick, .executed pid⟩ ∈ m'.events.toList := by
  have hm : m.Steady sc := h.steady hsc hP (by rw [hphase]; rfl)
  obtain ⟨m', h', hstr⟩ := h.exists_strides hsc hP hm (by simp [hphase])
  cases hstr with
  | execute hexec =>
    cases hphase.symm.trans hexec
    exact ⟨_, h', by simp [Machine.record]⟩
  | _ hother => cases hphase.symm.trans hother

/-- Whoever has its turn executes in the tick, unless something is refused to it: one request after
the other, by induction on what is due. -/
theorem Reaches.executed_or_refused (hsc : sc.Admitted) (hP : P.Lawful) {pid : Pid}
    {due : List Request} (h : sc.Reaches P memory m) (hphase : m.phase = .requesting pid due) :
    ∃ m', sc.Reaches P memory m' ∧ (⟨m.state.tick, .executed pid⟩ ∈ m'.events.toList ∨
      ∃ r, ⟨m.state.tick, .refused pid r⟩ ∈ m'.events.toList) := by
  induction due generalizing m with
  | nil =>
    have hm : m.Steady sc := h.steady hsc hP (by rw [hphase]; rfl)
    obtain ⟨m', h', hstr⟩ := h.exists_strides hsc hP hm (by simp [hphase])
    cases hstr with
    | ready hasks =>
      cases hphase.symm.trans hasks
      obtain ⟨m'', h'', hevent⟩ := h'.exists_executed hsc hP rfl
      exact ⟨m'', h'', Or.inl hevent⟩
    | _ hother => cases hphase.symm.trans hother
  | cons q rest ih =>
    have hm : m.Steady sc := h.steady hsc hP (by rw [hphase]; rfl)
    obtain ⟨m', h', hstr⟩ := h.exists_strides hsc hP hm (by simp [hphase])
    have htick := hstr.tick_eq (by simp [hphase])
    cases hstr with
    | grant hasks =>
      cases hphase.symm.trans hasks
      obtain ⟨m'', h'', hevents⟩ := ih h' rfl
      exact ⟨m'', h'', htick ▸ hevents⟩
    | refuse hasks =>
      cases hphase.symm.trans hasks
      exact ⟨_, h', Or.inr ⟨q.resource, htick ▸ by simp [Machine.record]⟩⟩
    | _ hother => cases hphase.symm.trans hother

end Asking

/-! ## Preemption -/

section Preemption

variable {sc : Scenario} {memory : Memory} {m : Machine Memory} {past : List (Machine Memory)}
  {d : Discipline}

/-- Whoever executed in the tick before and is not finished gets its turn again, unless a ready
process is above it: the contender is replaced by nobody else. -/
theorem Trail.above_or_turn (hsc : sc.Admitted) (hd : d = .priority ∨ d = .inheritance)
    (h : sc.Trail d.policy memory (m :: past)) (hfirst : m.FirstAsked past) {tick : Nat} {pid : Pid}
    {p : Process} (htick : m.state.tick = tick + 1) (hslot : (tick, some pid) ∈ m.slots)
    (hp : m.state.process? pid = some p) (hleft : p.age < p.lifespan) :
    (∃ q ∈ m.state.procs, q.status = .ready ∧ p.prio < q.prio) ∨
      ∃ m' due, sc.Reaches d.policy memory m' ∧ m'.state.tick = m.state.tick ∧
        m'.phase = .requesting pid due := by
  refine or_iff_not_imp_left.2 fun hnone => ?_
  have hrun := h.running_of_firstAsked hsc d.lawful hfirst htick hslot
  obtain ⟨hphase, -⟩ := hfirst
  have hreach := h.reaches m (List.mem_cons_self ..)
  have hm : m.Steady sc := hreach.steady hsc d.lawful (by rw [hphase]; rfl)
  have hs := hm.stage.settled
  have hcontender : m.state.contender? = some pid := by
    refine (hs.leaver_or_contender hrun).resolve_left fun hleaver => ?_
    obtain ⟨-, p', hp', hfinished⟩ := State.leaver?_eq_some.1 hleaver
    cases hp.symm.trans hp'
    omega
  have hprio : ∀ cur, m.state.contender? = some cur → ∀ z ∈ m.state.ready,
      m.state.prioOf z ≤ m.state.prioOf cur := by
    intro cur hcur z hz
    cases hcontender.symm.trans hcur
    obtain ⟨q, hq, hready⟩ := State.process?_of_status? ((hs.mem_ready z).1 hz)
    rw [State.prioOf_of_process? hq, State.prioOf_of_process? hp]
    exact Nat.le_of_not_lt fun hlt => hnone ⟨q, State.mem_of_process? hq, hready, hlt⟩
  have hpicks : ∀ {memory' t next}, (d.policy.choose m.memory m.state).result =
      .ok (memory', t, next) → next = some pid := fun hok => by
    rw [(Discipline.picks_of_urgent hd hs hprio hok).chosen, hcontender]
    rfl
  obtain ⟨m', hreach', hstr⟩ := hreach.exists_strides hsc d.lawful hm (by simp [hphase])
  have htick' := hstr.tick_eq (by simp [hphase])
  cases hstr with
  | drain _ hok => cases hpicks hok
  | idle _ hok => cases hpicks hok
  | turn _ hok =>
    cases hpicks hok
    exact ⟨_, _, hreach', htick', rfl⟩
  | _ hother => cases hphase.symm.trans hother

/-- By priority **the most urgent executes**. Under priority, the priority ceiling and priority
inheritance, when a process executes no ready process is above it. Under priority and priority
inheritance, if the process that executed in the tick before is not finished, does not execute in
this tick and is refused nothing in it, then a ready process was above it when the policy was
`FirstAsked` in this tick. -/
theorem Admitted.most_urgent_executes (h : sc.Admitted)
    (hd : d = .priority ∨ d = .ceiling ∨ d = .inheritance) (memory : Memory) :
    (∀ m pid, sc.Reaches d.policy memory m → m.phase = .executing pid →
      ∃ p, m.state.process? pid = some p ∧
        ∀ q ∈ m.state.procs, q.status = .ready → q.prio ≤ p.prio) ∧
    (d ≠ .ceiling → ∃ t, (sc.run d.policy memory sc.stepBound).trace? = some t ∧
      ∀ m past tick pid p, sc.Trail d.policy memory (m :: past) → m.FirstAsked past →
        m.state.tick = tick + 1 → ⟨tick, .executed pid⟩ ∈ t.events →
        m.state.process? pid = some p → p.age < p.lifespan →
        ⟨tick + 1, .executed pid⟩ ∉ t.events → (∀ r, ⟨tick + 1, .refused pid r⟩ ∉ t.events) →
        ∃ q ∈ m.state.procs, q.status = .ready ∧ p.prio < q.prio) := by
  constructor
  · intro m pid hreach hphase
    exact hreach.ready_le_of_executing h hd hphase
  · intro hceiling
    have hurgent : d = .priority ∨ d = .inheritance :=
      hd.imp_right fun hd => hd.resolve_left hceiling
    obtain ⟨exit, -, hlast, hover⟩ := h.reaches_end (d := d) (fun he => hceiling he.1) memory
    have ht := hlast.trace?_of_over h d.lawful hover
    refine ⟨_, ht, ?_⟩
    intro m past tick pid p htrail hfirst htick hexec hp hleft hnoexec hnorefuse
    have hslot := (htrail.reaches m (List.mem_cons_self ..)).mem_slots_of_trace h d.lawful ht
      (htick ▸ Nat.lt_succ_self tick) hexec
    refine (htrail.above_or_turn h hurgent hfirst htick hslot hp hleft).resolve_right ?_
    rintro ⟨m', due, hreach', htick', hasks⟩
    obtain ⟨m'', hreach'', hdone⟩ := hreach'.executed_or_refused h d.lawful hasks
    obtain ⟨later, hevents, -⟩ := hreach''.begins_trace h d.lawful ht
    rw [htick', htick] at hdone
    rcases hdone with hagain | ⟨r, hrefused⟩
    · exact hnoexec (hevents ▸ List.mem_append_left _ hagain)
    · exact hnorefuse r (hevents ▸ List.mem_append_left _ hrefused)

/-- Of the inverted processes, the first one executes at the priority that it has inherited, above
the third one, which is ready. Without inheritance it executes in the second tick, and in the third
tick it is replaced by the third one, which is above it. -/
theorem most_urgent_executes_inverted :
    (∃ m p q, inverted.Reaches Discipline.inheritance.policy none m ∧ m.phase = .executing 1 ∧
      m.state.process? 1 = some p ∧ q ∈ m.state.procs ∧ q.status = .ready ∧ p.base < q.prio ∧
      q.prio ≤ p.prio) ∧
    ∃ t m past p q,
      (inverted.run Discipline.priority.policy none inverted.stepBound).trace? = some t ∧
      inverted.Trail Discipline.priority.policy none (m :: past) ∧ m.FirstAsked past ∧
      m.state.tick = 2 ∧ ⟨1, .executed 1⟩ ∈ t.events ∧ m.state.process? 1 = some p ∧
      p.age < p.lifespan ∧ q ∈ m.state.procs ∧ q.status = .ready ∧ p.prio < q.prio := by
  constructor
  · obtain ⟨hexec, -⟩ := admitted_inverted.most_urgent_executes (d := .inheritance)
      (Or.inr (Or.inr rfl)) none
    have hm : inverted.Reaches Discipline.inheritance.policy none _ :=
      .of_sorted (by decide) rfl 31
    obtain ⟨p, hp, hle⟩ := hexec _ 1 hm rfl
    have hthird : ∀ {s : State} {q : Process}, s.process? 3 = some q → q ∈ s.procs :=
      State.mem_of_process?
    refine ⟨_, p, _, hm, rfl, hp, hthird rfl, rfl, ?_, hle _ (hthird rfl) rfl⟩
    cases hp
    decide
  · obtain ⟨-, hpreempts⟩ := admitted_inverted.most_urgent_executes (d := .priority)
      (Or.inl rfl) none
    obtain ⟨t, ht, habove⟩ := hpreempts (by decide)
    have hlast : inverted.Reaches Discipline.priority.policy none _ :=
      .of_sorted (by decide) rfl 120
    have heq := Option.some.inj (ht.symm.trans (hlast.trace?_of_over admitted_inverted
      Discipline.priority.lawful (rfl : _ = Phase.over .normal)))
    have hm : inverted.Reaches Discipline.priority.policy none _ := .of_sorted (by decide) rfl 28
    obtain ⟨past, htrail⟩ := hm.exists_trail
    have hfirst := htrail.firstAsked_of_unrefused admitted_inverted Discipline.priority.lawful rfl
      (by decide)
    have hexec : ⟨1, .executed 1⟩ ∈ t.events := by rw [heq]; decide
    have hnone : ∀ e ∈ t.events, e.tick = 2 → e.what.refused? = none := by rw [heq]; decide
    obtain ⟨q, hq, hready, hlt⟩ := habove _ past 1 1 _ htrail hfirst rfl hexec rfl (by decide)
      (by rw [heq]; decide) fun r hmem => by cases hnone _ hmem rfl
    exact ⟨t, _, past, _, q, ht, htrail, hfirst, rfl, hexec, rfl, by decide, hq, hready, hlt⟩

end Preemption

end Scenario

end Uniprocessor
