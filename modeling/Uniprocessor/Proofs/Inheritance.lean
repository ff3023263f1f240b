import Uniprocessor.Proofs.Donation
import Uniprocessor.Proofs.Locking
import Uniprocessor.Proofs.Reachable

/-!
# Priority inheritance is donation

Under priority inheritance priorities are computed anew along one chain at a time, each time that
owners or waiters change. Wherever no choice is being carried out, they are nevertheless what the
whole of the waiting says they should be: every live process has the largest base priority of all
who wait for it, directly or through others, itself included, circular waits or not.

An arrival has no edges yet and a choice only takes somebody away who waits for nobody, so both keep
what is right. A granted and a returned resource leave the caller stale; a refused one makes its
owner rise. In all three cases there are enough processes for the bound on the chain to make no
difference (`State.InheritsFully`).
-/

namespace Uniprocessor

open Narrated

namespace State

open Relation

variable {s t : State} {pid : Pid} {r : ResourceId} {x : Resource}

/-- However much further priorities might be passed on from `pid`, the result would be the same. So
the bound of `inherit` never cuts anything short. -/
def InheritsFully (s : State) (pid : Pid) : Prop :=
  ∀ bound, s.procs.length ≤ bound → (passOn bound s pid).result = (s.inherit pid).result

/-- Where the state is `Stale` at `pid`, inheriting makes it `Donated`, and the bound makes no
difference (`Stale.passOn`). -/
theorem Stale.inherit (hs : s.Settled) (h : s.Stale pid) (hp : ∃ p, s.process? pid = some p) :
    s.InheritsFully pid ∧ ∃ t, (s.inherit pid).result = .ok t ∧ t.Donated := by
  obtain ⟨p, hp⟩ := hp
  obtain ⟨t, ht, hall⟩ := h.passOn hs hp
  have hpos : 0 < s.procs.length := List.length_pos_of_mem (mem_of_process? hp)
  have hok : ∀ bound, s.procs.length ≤ bound → (State.passOn bound s pid).result = .ok t := by
    intro bound hb
    obtain ⟨k, rfl⟩ : ∃ k, bound = k + 1 := ⟨bound - 1, by omega⟩
    exact hall k
  have hinherit : (s.inherit pid).result = .ok t := hok _ (Nat.le_refl _)
  exact ⟨fun bound hb => (hok bound hb).trans hinherit.symm, t, hinherit, ht⟩

/-- Where the state is `Rising` at `pid`, inheriting makes it `Donated`, if there are more processes
than are below the priority to rise to (`Rising.passOn`). -/
theorem Rising.inherit {top : Nat} (hs : s.Settled) (h : s.Rising pid top)
    (hp : ∃ p, s.process? pid = some p) (hbelow : (Rising.below s top).length < s.procs.length) :
    s.InheritsFully pid ∧ ∃ t, (s.inherit pid).result = .ok t ∧ t.Donated := by
  obtain ⟨p, hp⟩ := hp
  obtain ⟨t, ht, hall⟩ := h.passOn hs hp
  have hinherit : (s.inherit pid).result = .ok t := hall _ hbelow
  refine ⟨fun bound hb => ?_, t, hinherit, ht⟩
  exact (hall bound (Nat.lt_of_lt_of_le hbelow hb)).trans hinherit.symm

/-! ## Arrivals and choices -/

/-- A newcomer at its base priority leaves the state `Donated`, since nobody waits for it. -/
theorem Donated.joined (hs : s.Settled) (h : s.Donated) {p : Process}
    (hp : s.process? p.pid = none) (hprio : p.prio = p.base) : (s.joined p).Donated := by
  have hself : (s.joined p).bid? p.pid = some (p.base, p.prio) := by
    rw [bid?_joined hp, if_pos rfl]
  have hother : ∀ {q}, q ≠ p.pid → (s.joined p).bid? q = s.bid? q := fun {q} hq => by
    rw [bid?_joined hp, if_neg hq]
  -- Whoever was live before is not the newcomer.
  have hold : ∀ {q bid}, s.bid? q = some bid → q ≠ p.pid := by
    rintro q bid hq rfl
    rw [bid?, hp] at hq
    cases hq
  exact {
    base_le := fun {pid b n} hb => by
      by_cases hq : pid = p.pid
      · rw [hq, hself] at hb
        cases hb
        exact Nat.le_of_eq hprio.symm
      · exact h.base_le (hother hq ▸ hb)
    edge_le := fun {x z b n b' n'} hxz hx hz => by
      have hxz : s.WaitsFor x z := hxz
      obtain ⟨⟨_, hbx⟩, ⟨_, hbz⟩⟩ := hs.live_of_waitsFor hxz
      rw [hother (hold hbx)] at hx
      rw [hother (hold hbz)] at hz
      exact h.edge_le hxz hx hz
    source := fun {pid b n} hb => by
      by_cases hq : pid = p.pid
      · rw [hq, hself] at hb
        cases hb
        exact ⟨pid, p.prio, .refl, by rw [hq, hself, hprio]⟩
      · obtain ⟨x, k, hpath, hx⟩ := h.source (hother hq ▸ hb)
        exact ⟨x, k, hpath, (hother (hold hx)).trans hx⟩ }

/-- A choice that reprices nobody leaves the state `Donated`, if nobody waits for the one that
leaves and it waits for nobody. -/
theorem Donated.switched (h : s.Donated) {next : Option Pid} (hres : t.resources = s.resources)
    (hbid : t.bid? = s.bid?) (hgone : ∀ g, s.leaver? = some g → ∀ z, ¬ s.WaitsFor g z) :
    (s.switched t next).Donated := by
  have hedge : (s.switched t next).WaitsFor = s.WaitsFor := by
    funext x z
    exact propext (waitsFor_congr ((resources_switched s t next).trans hres))
  exact {
    base_le := fun hb => h.base_le (bid?_of_bid?_switched hbid hb).2
    edge_le := fun hxz hx hz => h.edge_le (hedge ▸ hxz)
      (bid?_of_bid?_switched hbid hx).2 (bid?_of_bid?_switched hbid hz).2
    source := fun {pid b n} hb => by
      obtain ⟨hstay, hb⟩ := bid?_of_bid?_switched hbid hb
      obtain ⟨x, k, hpath, hx⟩ := h.source hb
      -- Who leaves waits for nobody, so nobody else had a priority from it.
      have hx' : s.leaver? ≠ some x := fun hg => by
        rcases hpath.cases_head with rfl | ⟨z, hxz, -⟩
        · exact hstay hg
        · exact hgone x hg z hxz
      refine ⟨x, k, hedge ▸ hpath, ?_⟩
      rw [bid?_switched hbid, if_neg hx', hx] }

/-! ## Resources -/

/-- If only who waits for `pid` has changed, and `pid` itself waits for nobody, then a `Donated`
state has become `Stale` at `pid`. -/
theorem Donated.stale (h : s.Donated) (hbid : t.bid? = s.bid?)
    (hedge : ∀ {u z}, z ≠ pid → (t.WaitsFor u z ↔ s.WaitsFor u z))
    (hs : ∀ z, ¬ s.WaitsFor pid z) (ht : ∀ z, ¬ t.WaitsFor pid z) : t.Stale pid where
  base_le hb := h.base_le (hbid ▸ hb)
  edge_le hz hxz hx hz' := h.edge_le ((hedge hz).1 hxz) (hbid ▸ hx) (hbid ▸ hz')
  source {q b n} hq hb := by
    obtain ⟨u, k, hpath, hu⟩ := h.source (hbid ▸ hb)
    exact ⟨u, k, reflTransGen_of_last (fun hz => (hedge hz).2) hs hq hpath, hbid ▸ hu⟩
  last := ht

/-- After a grant the state is `Stale` at the new owner, who may have to inherit from those who
still wait. -/
theorem Calls.stale_give (h : s.Calls pid r x) (hfree : x.owner = none) (hd : s.Donated) :
    (s.give r x pid).Stale pid := by
  refine hd.stale rfl (fun hz => ?_) (h.settled.not_waitsFor_of_running h.running)
    ((h.settled.give h.entry h.running).not_waitsFor_of_running h.running)
  rw [waitsFor_give h.entry hfree]
  exact or_iff_left fun he => hz he.2

/-- After a return the state is `Stale` at the former owner, who may have to lose what it
inherited. -/
theorem Calls.stale_vacate (h : s.Calls pid r x) (hown : x.owner = some pid) {woken : Option Pid}
    (hwoken : ∀ w, woken = some w → w ∈ x.waiters) (hd : s.Donated) :
    (s.vacate r x woken).Stale pid :=
  hd.stale (bid?_vacate s r x woken) (waitsFor_vacate h hown hwoken)
    (h.settled.not_waitsFor_of_running h.running)
    ((h.settled_vacate hwoken).not_waitsFor_of_running (h.status?_vacate hwoken))

/-- After a refusal the state is `Rising` at the owner, who may have to rise to the priority of the
new waiter. -/
theorem Calls.rising_park (h : s.Calls pid r x) {owner : Pid} (hown : x.owner = some owner)
    {p : Process} (hp : s.process? pid = some p) (hd : s.Donated) :
    (s.park r x pid).Rising owner p.prio := by
  have hbid : (s.park r x pid).bid? = s.bid? := bid?_park s r x pid
  exact {
    base_le := fun hb => hd.base_le (hbid ▸ hb)
    edge_le := fun {u z b n b' n'} hxz hx hz => by
      rw [hbid] at hx hz
      rcases (waitsFor_park h.entry hown).1 hxz with hold | ⟨rfl, rfl⟩
      · exact Or.inl (hd.edge_le hold hx hz)
      · rw [bid?_of_process? hp] at hx
        cases hx
        exact Or.inr ⟨rfl, rfl⟩
    source := fun hb => by
      obtain ⟨u, k, hpath, hu⟩ := hd.source (hbid ▸ hb)
      refine ⟨u, k, ReflTransGen.mono (fun _ _ hstep => ?_) _ _ hpath, hbid ▸ hu⟩
      exact (waitsFor_park h.entry hown).2 (Or.inl hstep) }

/-- If somebody is not below a priority, fewer processes are than are live. So the number of
processes is bound enough. -/
theorem Settled.length_below_lt (h : s.Settled) {p : Process} (hp : s.process? pid = some p)
    {top : Nat} (htop : top ≤ p.prio) : (Rising.below s top).length < s.procs.length := by
  refine Nat.lt_of_lt_of_le ?_ (s.length_pidsWhere_le fun _ => true)
  refine length_pidsWhere_lt_of_imp h.ordered h.ordered (fun q p' hp' _ => ⟨p', hp', rfl⟩) pid ?_ ?_
  · exact h.ordered.mem_pidsWhere.2 ⟨p, hp, rfl⟩
  · intro hm
    obtain ⟨p', hp', hlt⟩ := h.ordered.mem_pidsWhere.1 hm
    rw [hp] at hp'
    cases hp'
    exact absurd (of_decide_eq_true hlt) (Nat.not_lt.2 htop)

/-! ## The calls -/

/-- A granted request leaves the state `Donated`, once its new owner has inherited. -/
theorem Calls.inherit_give (h : s.Calls pid r x) (hfree : x.owner = none) (hd : s.Donated) :
    (s.give r x pid).InheritsFully pid ∧
      ∃ t, ((s.give r x pid).inherit pid).result = .ok t ∧ t.Donated :=
  (h.stale_give hfree hd).inherit (h.settled.give h.entry h.running) h.process?

/-- A refused request leaves the state `Donated`, once the owner of the resource has inherited. -/
theorem Calls.inherit_park (h : s.Calls pid r x) {owner : Pid} (hown : x.owner = some owner)
    (hne : owner ≠ pid) (hd : s.Donated) :
    (s.park r x pid).InheritsFully owner ∧
      ∃ t, ((s.park r x pid).inherit owner).result = .ok t ∧ t.Donated := by
  obtain ⟨p, hp⟩ := h.process?
  have howns : s.Owns owner r := (owns_iff h.entry).2 hown
  have hs : (s.park r x pid).Settled :=
    h.settled.park h.entry h.running fun ho => hne (howns.unique ho)
  -- The caller is not below its own priority, so the chain is shorter than the bound.
  have hp' : (s.park r x pid).process? pid = some { p with status := .blocked } := by
    rw [process?_park, if_pos rfl, hp]
    rfl
  exact (h.rising_park hown hp hd).inherit hs
    (hs.process?_of_owns ((owns_park h.entry).2 howns)) (hs.length_below_lt hp' (Nat.le_refl _))

/-- A returned resource leaves the state `Donated`, once its former owner has inherited what is left
to it. -/
theorem Calls.inherit_vacate (h : s.Calls pid r x) (hown : x.owner = some pid) {woken : Option Pid}
    (hwoken : ∀ w, woken = some w → w ∈ x.waiters) (hd : s.Donated) :
    (s.vacate r x woken).InheritsFully pid ∧
      ∃ t, ((s.vacate r x woken).inherit pid).result = .ok t ∧ t.Donated :=
  (h.stale_vacate hown hwoken hd).inherit (h.settled_vacate hwoken)
    (exists_process?_of_status? (h.status?_vacate hwoken))

end State

namespace Machine

variable {sc : Scenario} {m m' : Machine Memory}

/-- Every stride under priority inheritance keeps the state `Donated`. -/
theorem Steady.donated_strides (h : m.Steady sc) (hd : m.state.Donated)
    (hstr : m.Strides Discipline.inheritance.policy sc.limit m') : m'.state.Donated := by
  have hswitch : ∀ {memory t next},
      (Discipline.inheritance.choose m.memory m.state).result = .ok (memory, t, next) →
      (m.carriedOut memory t next).state.Donated := by
    intro memory t next hP
    obtain ⟨memory', t', next', hok, hchose, hbid⟩ :=
      Discipline.inheritance.choose_eq_ok m.memory h.stage.settled
    rw [hP] at hok
    cases hok
    rw [carriedOut_state]
    refine hd.switched hchose.resources (hbid (by decide)) fun g hg => ?_
    exact h.stage.settled.not_waitsFor_of_running (h.stage.status?_leaver hg)
  cases hstr with
  | @arrive job rest hphase harrivals =>
    have hst := h.stage_of_arriving hphase harrivals
    exact hd.joined hst.settled hst.process?_arrival rfl
  | drain hphase hP => exact hswitch hP
  | idle hphase hP => exact hswitch hP
  | turn hphase hP => exact hswitch hP
  | @grant pid q rest p script x memory t hphase hp hs hcalls hx hP =>
    -- What the policy answers is what `inherit` computes, and that is right.
    obtain ⟨t', hinherit, hok, -⟩ := hcalls.acquireInheriting_free hx
    obtain ⟨-, t'', hinherit', hd'⟩ := hcalls.inherit_give hx hd
    simp only [Discipline.policy, Discipline.acquire, result_bind, hok, ok_bind] at hP
    cases hP
    rw [hinherit] at hinherit'
    cases hinherit'
    exact hd'
  | @refuse pid owner q rest x memory t hphase hcalls hx hne hP =>
    obtain ⟨t', hinherit, hok, -⟩ := hcalls.acquireInheriting_held hx hne
    obtain ⟨-, t'', hinherit', hd'⟩ := hcalls.inherit_park hx hne hd
    simp only [Discipline.policy, Discipline.acquire, result_bind, hok, ok_bind] at hP
    cases hP
    rw [hinherit] at hinherit'
    cases hinherit'
    exact hd'
  | execute hphase hp => exact hd.of_bids State.bid?_adjust_age Iff.rfl
  | @release pid r waiters due x y memory t woken hphase hcalls hx hP ht hnone hwoken =>
    obtain ⟨t', hinherit, hok, -⟩ := hcalls.releaseInheriting_eq_ok hx
    obtain ⟨-, t'', hinherit', hd'⟩ :=
      hcalls.inherit_vacate hx (fun _ => State.mem_of_foremost) hd
    simp only [Discipline.policy, Discipline.release, result_bind, hok, ok_bind] at hP
    cases hP
    rw [hinherit] at hinherit'
    cases hinherit'
    change (recordWoken ..).state.Donated
    rw [recordWoken_state]
    exact hd'
  | tick hphase => exact hd.of_bids rfl Iff.rfl
  | _ => exact hd

/-- Before anybody has arrived, there are no priorities to be wrong, so the first state is
`Donated`. -/
theorem donated_initial (sc : Scenario) (memory : Memory) :
    (Machine.initial sc memory).state.Donated where
  base_le hb := by cases hb
  edge_le _ hx := by cases hx
  source hb := by cases hb

/-- Whenever a request is refused in a run, the bound makes no difference to what the owner passes
on (`InheritsFully`). -/
theorem Steady.inheritsFully_ask (hsc : sc.Sound) (h : m.Steady sc) (hd : m.state.Donated)
    {pid owner : Pid} {q : Request} {rest : List Request}
    (hphase : m.phase = .requesting pid (q :: rest)) {s : State} {granted : Option Pid}
    (hask : (m.state.ask q.resource).result = .ok (s, granted)) (howns : s.Owns owner q.resource) :
    s.InheritsFully owner := by
  obtain ⟨x, hcalls⟩ := h.calls_requesting hsc hphase
  rcases hx : x.owner with _ | o
  · rw [hcalls.ask_free hx] at hask
    cases hask
    rw [State.owns_give hcalls.entry, if_pos rfl] at howns
    exact howns ▸ (hcalls.inherit_give hx hd).1
  · have ho : m.state.Owns o q.resource := (State.owns_iff hcalls.entry).2 hx
    have hne : o ≠ pid := by
      rintro rfl
      exact h.not_owns_requested hphase ho
    rw [hcalls.ask_held hx] at hask
    cases hask
    rw [State.owns_park hcalls.entry] at howns
    exact howns.unique ho ▸ (hcalls.inherit_park hx hne hd).1

/-- Whenever a resource is given back in a run, the bound makes no difference to what its former
owner loses (`InheritsFully`). -/
theorem Steady.inheritsFully_surrender (h : m.Steady sc) (hd : m.state.Donated) {pid owner : Pid}
    {r : ResourceId} {waiters : Queue} {due : List ResourceId}
    (hphase : m.phase = .releasing pid r waiters due) {s t : State}
    (hgive : m.state.surrender r = .ok (s, owner)) (hwake : (s.wakeUrgent r).result = .ok t) :
    t.InheritsFully owner := by
  obtain ⟨hruns, -⟩ := h.fits_of hphase
  obtain ⟨x, hcalls, hx⟩ := h.calls_owing hruns (congrArg Phase.owed hphase)
  rw [hcalls.surrender_eq_ok hx] at hgive
  cases hgive
  rw [hcalls.wakeable.wakeUrgent_eq_ok, State.woke_setResource] at hwake
  cases hwake
  exact (hcalls.inherit_vacate hx (fun _ => State.mem_of_foremost) hd).1

end Machine

/-- Priority **inheritance is exact**: wherever no choice is being carried out, the priority of
every live process is the largest base priority of all live processes that wait for it by
`WaitsFor`, directly or through others, itself included. The bound on how far priorities are passed
on never makes a difference, neither to what a request passes on nor to what a returned resource
takes away. -/
theorem Scenario.Admitted.prio_isGreatest_donations {sc : Scenario} (h : sc.Admitted)
    (memory : Memory) {m : Machine Memory}
    (hm : sc.Reaches Discipline.inheritance.policy memory m) (hrest : m.phase.isSwitching = false) :
    (∀ pid p, m.state.process? pid = some p → IsGreatest (m.state.donations pid) p.prio) ∧
      (∀ pid q rest s granted owner, m.phase = .requesting pid (q :: rest) →
        (m.state.ask q.resource).result = .ok (s, granted) → s.Owns owner q.resource →
        s.InheritsFully owner) ∧
      ∀ pid r waiters due s owner t, m.phase = .releasing pid r waiters due →
        m.state.surrender r = .ok (s, owner) → (s.wakeUrgent r).result = .ok t →
        t.InheritsFully owner := by
  have hsteady := hm.steady h Discipline.inheritance.lawful hrest
  have hd : m.state.Donated := hm.invariant h Discipline.inheritance.lawful
    (I := fun m => m.state.Donated) (fun memory => Machine.donated_initial sc memory)
    (fun hm hI hstr => hm.donated_strides hI hstr) hrest
  refine ⟨fun pid p hp => hd.isGreatest hsteady.stage.settled hp, ?_, ?_⟩
  · intro pid q rest s granted owner hphase hask howns
    exact hsteady.inheritsFully_ask h.sound hd hphase hask howns
  · intro pid r waiters due s owner t hphase hgive hwake
    exact hsteady.inheritsFully_surrender hd hphase hgive hwake

/-- When in the crossed scenario each process waits for the other, both have the priority of the
second one. -/
theorem Scenario.prio_isGreatest_donations_crossed :
    ∃ m, Scenario.crossed.Reaches Discipline.inheritance.policy none m ∧
      m.phase = .closing true ∧ m.state.WaitsFor 1 2 ∧ m.state.WaitsFor 2 1 ∧
      IsGreatest (m.state.donations 1) 9 ∧ IsGreatest (m.state.donations 2) 9 := by
  have hm : Scenario.crossed.Reaches Discipline.inheritance.policy none _ :=
    .of_sorted (by decide) rfl 32
  obtain ⟨hgreat, -⟩ := Scenario.admitted_crossed.prio_isGreatest_donations none hm (by decide)
  exact ⟨_, hm, by decide, ⟨1, ⟨_, rfl, by decide⟩, ⟨_, rfl, rfl⟩⟩,
    ⟨0, ⟨_, rfl, by decide⟩, ⟨_, rfl, rfl⟩⟩, hgreat 1 _ rfl, hgreat 2 _ rfl⟩

end Uniprocessor
