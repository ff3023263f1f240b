import Uniprocessor.Proofs.Chronicle
import Uniprocessor.Proofs.Inversion

/-!
# What a request and a return may change

Wherever a run asks its policy for a resource, or gives one back, the disciplines differ in whom
they wake and in whom they reprice, and in nothing else. A granted request makes the caller the
owner; a refused one parks it behind those who wait already; a return frees the resource and moves
one of its waiters, if there is any, to the tail of the ready queue (`Admitted.held_to_contract`).

The frame of such a call is the plain move on the state (`give`, `park`, `vacate`) up to priorities,
and the priorities that may differ are named (`RepricesOnly`): the caller's own under the ceiling
and under inheritance, and under inheritance those on the chain of waiting that starts at the owner
of what was refused. Passing priorities on goes along that chain and nowhere else
(`Settled.repricesOnly_passOn`).
-/

namespace Uniprocessor

open Narrated

namespace State

open Relation

/-- From the first state to the second nothing changes but priorities, and those only of the
processes that `who` describes. -/
structure RepricesOnly (s : State) (who : Pid → Prop) (t : State) : Prop where
  /-- nothing but priorities changes -/
  repriced : s.Repriced t
  /-- whoever is repriced is one of them -/
  only : ∀ pid, t.bid? pid ≠ s.bid? pid → who pid

variable {s t : State} {pid : Pid} {r : ResourceId} {x : Resource} {who who' : Pid → Prop}

namespace RepricesOnly

theorem refl (s : State) : s.RepricesOnly who s where
  repriced := .refl s
  only _ hne := absurd rfl hne

theorem mono (h : s.RepricesOnly who t) (hwho : ∀ pid, who pid → who' pid) :
    s.RepricesOnly who' t where
  repriced := h.repriced
  only pid hne := hwho pid (h.only pid hne)

theorem trans {u : State} (h : s.RepricesOnly who t) (h' : t.RepricesOnly who u) :
    s.RepricesOnly who u where
  repriced := h.repriced.trans h'.repriced
  only pid hne := by
    by_cases ht : t.bid? pid = s.bid? pid
    · exact h'.only pid fun hu => hne (hu.trans ht)
    · exact h.only pid ht

end RepricesOnly

/-- One process has another priority after `reprice`, and it is among those described. -/
theorem repricesOnly_reprice (n : Nat) (hpid : who pid) : s.RepricesOnly who (s.reprice pid n) where
  repriced := s.repriced_reprice pid n
  only q hne := by
    by_cases hq : q = pid
    · exact hq ▸ hpid
    · exact absurd ((bid?_reprice s pid n q).trans (if_neg hq)) hne

/-! ## Passing priorities on -/

/-- Passing priorities on by `passOn` reprices nobody but those on the chain of waiting that begins
at the process. -/
theorem Settled.repricesOnly_passOn (h : s.Settled) (hp : ∃ p, s.process? pid = some p)
    {bound : Nat} (hok : (passOn bound s pid).result = .ok t) :
    s.RepricesOnly (ReflTransGen s.WaitsFor pid) t := by
  induction bound generalizing s pid with
  | zero =>
    cases hok
    exact .refl _
  | succ bound ih =>
    obtain ⟨p, hp⟩ := hp
    obtain ⟨n, hn, -⟩ := h.inheritedPrio_eq_ok hp
    rw [passOn_succ_result hp hn] at hok
    by_cases heq : p.prio = n
    · rw [if_pos heq] at hok
      cases hok
      exact .refl _
    · rw [if_neg heq] at hok
      have hhead : s.RepricesOnly (ReflTransGen s.WaitsFor pid) (s.reprice pid n) :=
        repricesOnly_reprice n .refl
      rcases hown : s.awaitedOwner pid with _ | next
      · rw [hown] at hok
        cases hok
        exact hhead
      · rw [hown] at hok
        -- The rest of the chain is waiting in the repriced state, which is the same waiting.
        obtain ⟨r, hw, ho⟩ := h.awaitedOwner_eq_some.1 hown
        have hs' : (s.reprice pid n).Settled := hhead.repriced.settled h
        have htail := ih hs' (hs'.process?_of_owns ho) hok
        exact hhead.trans (htail.mono fun z hz => ReflTransGen.head ⟨r, hw, ho⟩ hz)

/-- From a process that executes no chain of waiting leads on, so passing priorities on ends with
it. -/
theorem Settled.eq_of_chain_of_running (h : s.Settled) (hrun : s.status? pid = some .running)
    {z : Pid} (hz : ReflTransGen s.WaitsFor pid z) : z = pid := by
  rcases hz.cases_head with heq | ⟨next, hnext, -⟩
  · exact heq.symm
  · exact absurd hnext (h.not_waitsFor_of_running hrun next)

/-- If the process that executes inherits by `State.inherit`, nobody else is repriced: it waits for
nobody. -/
theorem Settled.repricesOnly_inherit (h : s.Settled) (hrun : s.status? pid = some .running)
    (hok : (s.inherit pid).result = .ok t) : s.RepricesOnly (· = pid) t :=
  (h.repricesOnly_passOn (exists_process?_of_status? hrun) hok).mono fun _ =>
    h.eq_of_chain_of_running hrun

/-- The chain from the owner of what was refused was there before the caller was parked: what the
caller adds leads back to that owner. -/
theorem chain_of_chain_park (hx : s.resources[r]? = some x) {owner z : Pid}
    (howner : x.owner = some owner) (hz : ReflTransGen (s.park r x pid).WaitsFor owner z) :
    ReflTransGen s.WaitsFor owner z := by
  induction hz with
  | refl => exact .refl
  | tail _ hstep ih =>
    rcases (waitsFor_park hx howner).1 hstep with hold | ⟨-, rfl⟩
    · exact ih.tail hold
    · exact .refl

end State

/-! ## Whom a return wakes -/

/-- Whom a discipline wakes of those who wait for a resource: nobody if nobody waits, else the first
one or the foremost one. -/
structure Discipline.Wakes (d : Discipline) (s : State) (waiters : Queue) (woken : Option Pid) :
    Prop where
  /-- nobody is woken only if nobody waits -/
  nobody : woken = none ↔ waiters = []
  /-- without priorities it is the first one -/
  first : d ∈ [fcfs, sjf, stcf, roundRobin] → woken = waiters.head?
  /-- with priorities it is the first one of the highest priority -/
  urgent : d ∈ [priority, aging, ceiling, inheritance] → ∀ w, woken = some w →
    w ∈ waiters ∧ ∀ other ∈ waiters, other ≠ w → s.prioOf other < s.prioOf w ∨
      s.prioOf other = s.prioOf w ∧ [w, other].Sublist waiters

namespace Discipline

open State

variable {s : State} {pid : Pid} {r : ResourceId} {x : Resource} {memory : Memory} {d : Discipline}

theorem wakes_head? (hd : d ∈ [fcfs, sjf, stcf, roundRobin]) (s : State) (waiters : Queue) :
    d.Wakes s waiters waiters.head? where
  nobody := List.head?_eq_none_iff
  first _ := rfl
  urgent hd' := by cases d <;> simp at hd hd'

theorem wakes_foremost (hd : d ∈ [priority, aging, ceiling, inheritance]) (s : State)
    (waiters : Queue) : d.Wakes s waiters (s.foremost waiters) where
  nobody := foremost_eq_none
  first hd' := by cases d <;> simp at hd hd'
  urgent _ _ hw := ⟨mem_of_foremost hw, fun _ => lt_or_behind_of_firstMax hw⟩

/-! ## The calls of the disciplines -/

/-- The processes that a discipline reprices when the caller gets a resource or gives one back: the
caller, or nobody. -/
def RepricesCaller (d : Discipline) (pid : Pid) (z : Pid) : Prop :=
  z = pid ∧ d ∈ [ceiling, inheritance]

/-- The processes that a discipline reprices when it refuses a resource of `owner`: those on the
chain from the owner, or nobody. -/
def RepricesChain (d : Discipline) (s : State) (owner : Pid) (z : Pid) : Prop :=
  d = inheritance ∧ Relation.ReflTransGen s.WaitsFor owner z

/-- A free resource is given to the caller by any discipline: `acquire` grants it, and reprices the
caller at most. -/
theorem acquire_free_reprices (d : Discipline) (h : s.Calls pid r x) (hx : x.owner = none) :
    ∃ t, (d.acquire s r).result = .ok (t, true) ∧
      (s.give r x pid).RepricesOnly (d.RepricesCaller pid) t := by
  cases d with
  | ceiling =>
    exact ⟨_, h.acquireCeiling_free hx, repricesOnly_reprice _ ⟨rfl, by decide⟩⟩
  | inheritance =>
    obtain ⟨t, ht, hok, -⟩ := h.acquireInheriting_free hx
    refine ⟨t, hok, ?_⟩
    have hs : (s.give r x pid).Settled := h.settled.give h.entry h.running
    exact (hs.repricesOnly_inherit h.running ht).mono fun z hz => ⟨hz, by decide⟩
  | _ => exact ⟨_, h.acquirePlain_free hx, .refl _⟩

/-- The caller is parked by any discipline if somebody else owns the resource: `acquire` refuses it,
and reprices those on the chain from the owner at most. -/
theorem acquire_held_reprices (d : Discipline) (h : s.Calls pid r x) {owner : Pid}
    (hx : x.owner = some owner) (hne : owner ≠ pid) :
    ∃ t, (d.acquire s r).result = .ok (t, false) ∧
      (s.park r x pid).RepricesOnly (d.RepricesChain s owner) t := by
  cases d with
  | ceiling => exact ⟨_, h.acquireCeiling_held hx, .refl _⟩
  | inheritance =>
    obtain ⟨t, ht, hok, -⟩ := h.acquireInheriting_held hx hne
    refine ⟨t, hok, ?_⟩
    have howns : s.Owns owner r := (owns_iff h.entry).2 hx
    have hs : (s.park r x pid).Settled :=
      h.settled.park h.entry h.running fun ho => hne (howns.unique ho)
    have hlive := hs.process?_of_owns ((owns_park h.entry).2 howns)
    exact (hs.repricesOnly_passOn hlive ht).mono fun z hz =>
      ⟨rfl, chain_of_chain_park h.entry hx hz⟩
  | _ => exact ⟨_, h.acquirePlain_held hx, .refl _⟩

/-- Whoever is repriced is none of the waiters, so `foremost` of them stays the same. -/
theorem foremost_reprice_caller (h : s.Calls pid r x) (n : Nat) :
    (s.reprice pid n).foremost x.waiters = s.foremost x.waiters := by
  refine foremost_eq_firstMax fun q hq => prioOf_congr ?_
  rw [bid?_reprice, if_neg]
  rintro rfl
  exact h.settled.not_waits_of_running h.running r ((waits_iff h.entry).2 hq)

/-- A returned resource is free under any discipline, and `release` wakes one of its waiters, if
there are any, and reprices the caller at most. -/
theorem release_reprices (d : Discipline) (h : s.Calls pid r x) (hx : x.owner = some pid) :
    ∃ t woken, (d.release s r).result = .ok t ∧ d.Wakes s x.waiters woken ∧
      (s.vacate r x woken).RepricesOnly (d.RepricesCaller pid) t := by
  have hurgent : ∀ {d : Discipline}, d ∈ [priority, aging, ceiling, inheritance] →
      d.Wakes s x.waiters (s.foremost x.waiters) := fun hd => wakes_foremost hd s x.waiters
  cases d with
  | priority => exact ⟨_, _, h.releaseUrgent_eq_ok hx, hurgent (by decide), .refl _⟩
  | aging => exact ⟨_, _, h.releaseUrgent_eq_ok hx, hurgent (by decide), .refl _⟩
  | ceiling =>
    obtain ⟨p, hp⟩ := h.process?
    have hok := h.releaseCeiling_eq_ok hx hp
    rw [foremost_reprice_caller h] at hok
    exact ⟨_, _, hok, hurgent (by decide), repricesOnly_reprice _ ⟨rfl, by decide⟩⟩
  | inheritance =>
    obtain ⟨t, ht, hok, -⟩ := h.releaseInheriting_eq_ok hx
    refine ⟨t, _, hok, hurgent (by decide), ?_⟩
    have hs : (s.vacate r x (s.foremost x.waiters)).Settled :=
      h.settled_vacate fun _ => mem_of_foremost
    have hrun : (s.vacate r x (s.foremost x.waiters)).status? pid = some .running :=
      h.status?_vacate fun _ => mem_of_foremost
    exact (hs.repricesOnly_inherit hrun ht).mono fun z hz => ⟨hz, by decide⟩
  | _ => exact ⟨_, _, h.releaseFirst_eq_ok hx, wakes_head? (by decide) s x.waiters, .refl _⟩

end Discipline

namespace Scenario

variable {sc : Scenario}

/-- The **contract of a lock**: wherever a run asks for a resource, the answer is that it is granted
exactly if the resource is free. Then the caller owns it, and nothing else differs but the caller's
priority, under the ceiling or under inheritance. Otherwise the caller is blocked at the tail of the
wait queue, and nothing else differs but priorities along the chain of waiting from the owner, under
inheritance. Wherever a run gives a resource back, the resource is free afterwards and one of its
waiters, if it has any, is ready at the tail of the ready queue: the one that the discipline
`Wakes`. Nothing else differs but the caller's priority, under the ceiling or under inheritance. -/
theorem Admitted.held_to_contract (h : sc.Admitted) (d : Discipline) (memory : Memory)
    {m : Machine Memory} (hm : sc.Reaches d.policy memory m) :
    (∀ pid q rest, m.phase = .requesting pid (q :: rest) →
      ∃ x t granted, m.state.Calls pid q.resource x ∧
        (d.policy.acquire m.memory m.state q.resource).result = .ok (m.memory, t, granted) ∧
        (granted = true ↔ x.owner = none) ∧
        (x.owner = none →
          (m.state.give q.resource x pid).RepricesOnly (d.RepricesCaller pid) t) ∧
        ∀ owner, x.owner = some owner →
          (m.state.park q.resource x pid).RepricesOnly (d.RepricesChain m.state owner) t) ∧
    ∀ pid r waiters due, m.phase = .releasing pid r waiters due →
      ∃ x t woken, m.state.Calls pid r x ∧ x.owner = some pid ∧
        (d.policy.release m.memory m.state r).result = .ok (m.memory, t) ∧
        x.waiters = History.waiters m.history r ∧ d.Wakes m.state x.waiters woken ∧
        (m.state.vacate r x woken).RepricesOnly (d.RepricesCaller pid) t := by
  refine ⟨fun pid q rest hphase => ?_, fun pid r waiters due hphase => ?_⟩
  · have hsteady := hm.steady h d.lawful (by rw [hphase]; rfl)
    obtain ⟨x, hcalls⟩ := hsteady.calls_requesting h.sound hphase
    rcases hx : x.owner with _ | owner
    · obtain ⟨t, hok, ht⟩ := d.acquire_free_reprices hcalls hx
      refine ⟨x, t, true, hcalls, ?_, by simp [hx], fun _ => ht, fun owner ho => ?_⟩
      · simp only [Discipline.policy, result_bind, hok, ok_bind]
        rfl
      · rw [hx] at ho
        cases ho
    · have hne : owner ≠ pid := by
        rintro rfl
        exact hsteady.not_owns_requested hphase ((State.owns_iff hcalls.entry).2 hx)
      obtain ⟨t, hok, ht⟩ := d.acquire_held_reprices hcalls hx hne
      refine ⟨x, t, false, hcalls, ?_, by simp [hx], fun hnone => ?_, fun owner' ho => ?_⟩
      · simp only [Discipline.policy, result_bind, hok, ok_bind]
        rfl
      · rw [hx] at hnone
        cases hnone
      · rw [hx] at ho
        cases ho
        exact ht
  · have hrest : m.phase.isSwitching = false := by
      rw [hphase]
      rfl
    have hsteady := hm.steady h d.lawful hrest
    obtain ⟨hruns, -⟩ := hsteady.fits_of hphase
    obtain ⟨x, hcalls, hx⟩ := hsteady.calls_owing hruns (congrArg Phase.owed hphase)
    obtain ⟨t, woken, hok, hwakes, ht⟩ := d.release_reprices hcalls hx
    obtain ⟨hchron, -⟩ := hm.chronicled h d.lawful hrest
    refine ⟨x, t, woken, hcalls, hx, ?_, hchron.told.waiters hcalls.entry, hwakes, ht⟩
    simp only [Discipline.policy, result_bind, hok, ok_bind]
    rfl

/-- Under inheritance the third of the overtaken processes is refused what the first one has, and
when the first one gives it back, the third one is above the second one, who waits for longer. -/
theorem held_to_contract_overtaken :
    (∃ m t, overtaken.Reaches Discipline.inheritance.policy none m ∧
      m.phase = .requesting 3 [⟨0, 0, 1⟩] ∧
      (Discipline.inheritance.policy.acquire m.memory m.state 0).result = .ok (m.memory, t, false) ∧
      (m.state.park 0 ⟨some 1, [2]⟩ 3).RepricesOnly
        (Discipline.inheritance.RepricesChain m.state 1) t) ∧
    ∃ m t woken, overtaken.Reaches Discipline.inheritance.policy none m ∧
      m.phase = .releasing 1 0 [2, 3] [] ∧
      (Discipline.inheritance.policy.release m.memory m.state 0).result = .ok (m.memory, t) ∧
      [2, 3] = History.waiters m.history 0 ∧
      Discipline.inheritance.Wakes m.state [2, 3] woken ∧
      (m.state.vacate 0 ⟨some 1, [2, 3]⟩ woken).RepricesOnly
        (Discipline.inheritance.RepricesCaller 1) t := by
  constructor
  · have hm : overtaken.Reaches Discipline.inheritance.policy none _ :=
      .of_sorted (by decide) rfl 39
    obtain ⟨hasks, -⟩ := admitted_overtaken.held_to_contract .inheritance none hm
    obtain ⟨x, t, granted, hcalls, hok, hgranted, -, hheld⟩ := hasks 3 ⟨0, 0, 1⟩ [] rfl
    obtain rfl : ⟨some 1, [2]⟩ = x := Option.some.inj hcalls.entry
    obtain rfl : granted = false := by simpa using hgranted
    exact ⟨_, t, hm, rfl, hok, hheld 1 rfl⟩
  · have hm : overtaken.Reaches Discipline.inheritance.policy none _ :=
      .of_sorted (by decide) rfl 45
    obtain ⟨-, hgives⟩ := admitted_overtaken.held_to_contract .inheritance none hm
    obtain ⟨x, t, woken, hcalls, -, hok, hwaiters, hwakes, ht⟩ := hgives 1 0 [2, 3] [] rfl
    obtain rfl : ⟨some 1, [2, 3]⟩ = x := Option.some.inj hcalls.entry
    exact ⟨_, t, woken, hm, rfl, hok, hwaiters, hwakes, ht⟩

end Scenario

end Uniprocessor
