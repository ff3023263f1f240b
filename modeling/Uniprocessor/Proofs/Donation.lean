import Mathlib.Logic.Relation
import Mathlib.Order.Bounds.Basic
import Uniprocessor.Proofs.Inheriting

/-!
# Donated priorities

Under priority inheritance a process should have the largest base priority of all processes that
wait for it, directly or through others, itself included. Waiting is a relation that may have
circles, so this is a property of its reflexive and transitive closure. It is the same as three
local facts (`Donated`): nobody is below its base priority, nobody is above whom it waits for, and
every priority is the base priority of somebody from whom waiting leads here.

A change of owners or waiters breaks these facts at one process, in one of two ways, and passing
priorities on from that process restores them.

* A process that got a resource or gave one back does not wait itself, so computing its priority
  anew is enough (`Stale.passOn`).
* When a request is refused, the owner may have to rise to the priority of the new waiter, and so on
  along the chain of owners. Each process that rises was below that priority before and is not below
  it after, so the chain ends, circle or not, before it is as long as there are processes
  (`Rising.passOn`).
-/

namespace Uniprocessor

namespace State

open Relation

variable {s t : State} {y : Pid} {top : Nat}

/-- The base priorities of all processes that wait for `pid`, directly or through others, and its
own. Inheritance should give `pid` the largest of them. -/
def donations (s : State) (pid : Pid) : Set Nat :=
  { n | ∃ x q, ReflTransGen s.WaitsFor x pid ∧ s.process? x = some q ∧ q.base = n }

/-- Every priority is the largest of the `donations`, said locally: nobody is below its base
priority or below anybody who waits for it, and every priority comes from somebody. Local facts
survive a change at one process, where closures do not. -/
structure Donated (s : State) : Prop where
  /-- nobody is below its base priority -/
  base_le : ∀ {pid : Pid} {b n : Nat}, s.bid? pid = some (b, n) → b ≤ n
  /-- nobody is above whom it waits for -/
  edge_le : ∀ {x z : Pid} {b n b' n' : Nat}, s.WaitsFor x z → s.bid? x = some (b, n) →
    s.bid? z = some (b', n') → n ≤ n'
  /-- every priority comes from somebody -/
  source : ∀ {pid : Pid} {b n : Nat}, s.bid? pid = some (b, n) →
    ∃ x n', ReflTransGen s.WaitsFor x pid ∧ s.bid? x = some (n, n')

/-- In a `Settled` state who waits and who owns is live, so both ends of `WaitsFor` have a bid. -/
theorem Settled.live_of_waitsFor (h : s.Settled) {x z : Pid} (hxz : s.WaitsFor x z) :
    (∃ bid, s.bid? x = some bid) ∧ ∃ bid, s.bid? z = some bid := by
  obtain ⟨r, hw, ho⟩ := hxz
  obtain ⟨p, hp⟩ := h.process?_of_waits hw
  obtain ⟨q, hq⟩ := h.process?_of_owns ho
  exact ⟨⟨_, bid?_of_process? hp⟩, ⟨_, bid?_of_process? hq⟩⟩

/-- In a `Donated` state priorities do not fall along a chain of `WaitsFor`, by induction on the
chain. -/
theorem Donated.le_of_path (hs : s.Settled) (h : s.Donated) {x z : Pid}
    (hxz : ReflTransGen s.WaitsFor x z) {b n b' n' : Nat} (hx : s.bid? x = some (b, n))
    (hz : s.bid? z = some (b', n')) : n ≤ n' := by
  induction hxz generalizing b' n' with
  | refl =>
    rw [hx] at hz
    cases hz
    exact Nat.le_refl n
  | tail _ hedge ih =>
    obtain ⟨⟨⟨c, k⟩, hc⟩, -⟩ := hs.live_of_waitsFor hedge
    exact Nat.le_trans (ih hc) (h.edge_le hedge hc hz)

/-- The local facts of `Donated` give the global one: the priority of a live process is the greatest
of its `donations`. That it is one of them is `Donated.source`, and that it bounds them follows from
`le_of_path`. -/
theorem Donated.isGreatest (hs : s.Settled) (h : s.Donated) {pid : Pid} {p : Process}
    (hp : s.process? pid = some p) : IsGreatest (s.donations pid) p.prio := by
  refine ⟨?_, fun n hn => ?_⟩
  · obtain ⟨x, n', hpath, hx⟩ := h.source (bid?_of_process? hp)
    obtain ⟨q, hq, hbase, -⟩ := bid?_eq_some.1 hx
    exact ⟨x, q, hpath, hq, hbase⟩
  · obtain ⟨x, q, hpath, hq, rfl⟩ := hn
    exact Nat.le_trans (h.base_le (bid?_of_process? hq))
      (h.le_of_path hs hpath (bid?_of_process? hq) (bid?_of_process? hp))

/-- Only priorities and waiting matter: a state with the bids and the `WaitsFor` of a `Donated`
state is `Donated`. -/
theorem Donated.of_bids (h : s.Donated) (hbid : t.bid? = s.bid?)
    (hedge : ∀ {x z}, t.WaitsFor x z ↔ s.WaitsFor x z) : t.Donated := by
  have hrel : t.WaitsFor = s.WaitsFor := by
    funext x z
    exact propext hedge
  exact {
    base_le := fun hb => h.base_le (hbid ▸ hb)
    edge_le := fun hxz hx hz => h.edge_le (hedge.1 hxz) (hbid ▸ hx) (hbid ▸ hz)
    source := fun hb => by
      rw [hbid, hrel]
      exact h.source (hbid ▸ hb) }

/-! ## Computing one priority anew -/

/-- As `Donated`, except that the priority of `y` may be wrong, where `y` waits for nobody. So it is
for an owner after a grant or a return. -/
structure Stale (s : State) (y : Pid) : Prop where
  /-- nobody is below its base priority -/
  base_le : ∀ {pid : Pid} {b n : Nat}, s.bid? pid = some (b, n) → b ≤ n
  /-- nobody is above whom it waits for, unless that is `y` -/
  edge_le : ∀ {x z : Pid} {b n b' n' : Nat}, z ≠ y → s.WaitsFor x z → s.bid? x = some (b, n) →
    s.bid? z = some (b', n') → n ≤ n'
  /-- every priority but that of `y` comes from somebody -/
  source : ∀ {pid : Pid} {b n : Nat}, pid ≠ y → s.bid? pid = some (b, n) →
    ∃ x n', ReflTransGen s.WaitsFor x pid ∧ s.bid? x = some (n, n')
  /-- `y` waits for nobody -/
  last : ∀ z, ¬ s.WaitsFor y z

/-- Where the state is `Stale` at `y`, giving `y` the largest of its `offers` makes it `Donated`. -/
theorem Stale.donated_reprice (h : s.Stale y) {b m n : Nat} (hy : s.bid? y = some (b, m))
    (hn : IsGreatest (s.offers y b) n) : (s.reprice y n).Donated := by
  have hself : (s.reprice y n).bid? y = some (b, n) := by
    rw [bid?_reprice, if_pos rfl, hy]
    rfl
  have hother : ∀ {q}, q ≠ y → (s.reprice y n).bid? q = s.bid? q := fun {q} hq => by
    rw [bid?_reprice, if_neg hq]
  exact {
    base_le := fun {pid b' n'} hb => by
      by_cases hq : pid = y
      · rw [hq, hself] at hb
        cases hb
        exact hn.2 (Or.inl rfl)
      · exact h.base_le (hother hq ▸ hb)
    edge_le := fun {x z bx nx bz nz} hxz hx hz => by
      have hxz : s.WaitsFor x z := hxz
      have hxy : x ≠ y := fun hxy => h.last z (hxy ▸ hxz)
      rw [hother hxy] at hx
      by_cases hzy : z = y
      · rw [hzy, hself] at hz
        cases hz
        exact hn.2 (Or.inr ⟨x, bx, hzy ▸ hxz, hx⟩)
      · exact h.edge_le hzy hxz hx (hother hzy ▸ hz)
    source := fun {pid b' n'} hb => by
      change ∃ x k, ReflTransGen s.WaitsFor x pid ∧ _
      -- A source is either `y` itself or somebody whose priority stays as it is.
      have hkeep : ∀ {x c k}, s.bid? x = some (c, k) →
          ∃ k', (s.reprice y n).bid? x = some (c, k') := by
        intro x c k hx
        by_cases hxy : x = y
        · rw [hxy, hy] at hx
          cases hx
          exact ⟨n, hxy ▸ hself⟩
        · exact ⟨k, (hother hxy).trans hx⟩
      by_cases hq : pid = y
      · subst hq
        rw [hself] at hb
        cases hb
        rcases hn.1 with rfl | ⟨w, c, hw, hbid⟩
        · exact ⟨pid, _, .refl, hself⟩
        · have hwy : w ≠ pid := fun hwy => h.last pid (hwy ▸ hw)
          obtain ⟨x, k, hpath, hx⟩ := h.source hwy hbid
          obtain ⟨k', hx'⟩ := hkeep hx
          exact ⟨x, k', hpath.tail hw, hx'⟩
      · obtain ⟨x, k, hpath, hx⟩ := h.source hq (hother hq ▸ hb)
        obtain ⟨k', hx'⟩ := hkeep hx
        exact ⟨x, k', hpath, hx'⟩ }

/-- Repricing a process to what it has already changes no `bid?`. -/
theorem bid?_reprice_self {pid : Pid} {b n : Nat} (h : s.bid? pid = some (b, n)) :
    (s.reprice pid n).bid? = s.bid? := by
  funext q
  rw [bid?_reprice]
  by_cases hq : q = pid
  · rw [if_pos hq, hq, h]
    rfl
  · rw [if_neg hq]

/-- Where the state is `Stale` at `y`, passing on from `y` makes it `Donated`. Since `y` waits for
nobody nothing has to be passed further, and any bound will do. -/
theorem Stale.passOn (hs : s.Settled) (h : s.Stale y) {p : Process} (hp : s.process? y = some p) :
    ∃ t, t.Donated ∧ ∀ bound, (passOn (bound + 1) s y).result = .ok t := by
  have hy := bid?_of_process? hp
  obtain ⟨n, hn, hgreat⟩ := hs.inheritedPrio_eq_ok hp
  have hdon := h.donated_reprice hy hgreat
  by_cases heq : p.prio = n
  · refine ⟨s, ?_, fun bound => ?_⟩
    · rw [heq] at hy
      exact hdon.of_bids (bid?_reprice_self hy).symm Iff.rfl
    · rw [passOn_succ_result hp hn, if_pos heq]
  · refine ⟨_, hdon, fun bound => ?_⟩
    have hnone : s.awaitedOwner y = none := by
      rw [Option.eq_none_iff_forall_not_mem]
      exact fun z hz => h.last z (hs.awaitedOwner_eq_some.1 hz)
    rw [passOn_succ_result hp hn, if_neg heq, hnone]

/-! ## Rising along a chain -/

/-- As `Donated`, except that those who wait for `y` and have the priority `top` may be above it. So
it is for an owner after a refusal, and then for each process along the chain that the new priority
is passed on. -/
structure Rising (s : State) (y : Pid) (top : Nat) : Prop where
  /-- nobody is below its base priority -/
  base_le : ∀ {pid : Pid} {b n : Nat}, s.bid? pid = some (b, n) → b ≤ n
  /-- nobody is above whom it waits for, unless that is `y` and the waiter has `top` -/
  edge_le : ∀ {x z : Pid} {b n b' n' : Nat}, s.WaitsFor x z → s.bid? x = some (b, n) →
    s.bid? z = some (b', n') → n ≤ n' ∨ (z = y ∧ n = top)
  /-- every priority comes from somebody -/
  source : ∀ {pid : Pid} {b n : Nat}, s.bid? pid = some (b, n) →
    ∃ x n', ReflTransGen s.WaitsFor x pid ∧ s.bid? x = some (n, n')

namespace Rising

/-- In a `Rising` state a chain of waiting that leads to `y` arrives there through somebody who
waits for `y` and is not below where the chain started. -/
theorem exists_waiter (hs : s.Settled) (h : s.Rising y top) {x : Pid}
    (hpath : ReflTransGen s.WaitsFor x y) {b n : Nat} (hx : s.bid? x = some (b, n)) :
    x = y ∨ ∃ w c k, s.WaitsFor w y ∧ s.bid? w = some (c, k) ∧ n ≤ k := by
  induction hpath using ReflTransGen.head_induction_on generalizing b n with
  | refl => exact Or.inl rfl
  | @head x z hxz _ ih =>
    right
    by_cases hzy : z = y
    · exact ⟨x, b, n, hzy ▸ hxz, hx, Nat.le_refl n⟩
    · obtain ⟨-, ⟨c, k⟩, hz⟩ := hs.live_of_waitsFor hxz
      have hle : n ≤ k := (h.edge_le hxz hx hz).resolve_right fun he => hzy he.1
      rcases ih hz with he | ⟨w, c', k', hw, hbid, hle'⟩
      · exact absurd he hzy
      · exact ⟨w, c', k', hw, hbid, Nat.le_trans hle hle'⟩

/-- In a `Rising` state the priority of `y` is not above the largest of its `offers`: it comes from
somebody, and that somebody's priority arrives at `y`. -/
theorem le_offer (hs : s.Settled) (h : s.Rising y top) {b m n : Nat}
    (hy : s.bid? y = some (b, m)) (hn : IsGreatest (s.offers y b) n) : m ≤ n := by
  obtain ⟨x, m', hpath, hx⟩ := h.source hy
  rcases h.exists_waiter hs hpath hx with rfl | ⟨w, c, k, hw, hbid, hle⟩
  · rw [hy] at hx
    cases hx
    exact hn.2 (Or.inl rfl)
  · exact Nat.le_trans (h.base_le hx) (Nat.le_trans hle (hn.2 (Or.inr ⟨w, c, hw, hbid⟩)))

/-- If `y` does not have the largest of its `offers`, it has to rise, and it has to rise to
`top`. -/
theorem offer_eq (hs : s.Settled) (h : s.Rising y top) {b m n : Nat}
    (hy : s.bid? y = some (b, m)) (hn : IsGreatest (s.offers y b) n) (hne : m ≠ n) :
    n = top ∧ m < top := by
  have hlt : m < n := Nat.lt_of_le_of_ne (h.le_offer hs hy hn) hne
  -- Whoever offers more than `y` has is above it, and only those with `top` may be.
  have htop : n = top := by
    rcases hn.1 with rfl | ⟨w, c, hw, hbid⟩
    · exact absurd (h.base_le hy) (Nat.not_le.2 hlt)
    · rcases h.edge_le hw hbid hy with hle | ⟨-, he⟩
      · exact absurd hle (Nat.not_le.2 hlt)
      · exact he
  exact ⟨htop, htop ▸ hlt⟩

/-- If `y` has the largest of its `offers`, the `Rising` state is `Donated` and nothing is left to
do. -/
theorem donated (h : s.Rising y top) {b n : Nat} (hy : s.bid? y = some (b, n))
    (hn : IsGreatest (s.offers y b) n) : s.Donated where
  base_le := h.base_le
  edge_le {x z bx nx bz nz} hxz hx hz := by
    rcases h.edge_le hxz hx hz with hle | ⟨rfl, -⟩
    · exact hle
    · rw [hy] at hz
      cases hz
      exact hn.2 (Or.inr ⟨x, bx, hxz, hx⟩)
  source := h.source

section Reprice

variable {b m : Nat}

/-- After `y` has risen to `top`, the only edges along which a priority falls are those from `y` to
whom it waits for. -/
theorem edge_le_reprice (h : s.Rising y top) (hy : s.bid? y = some (b, m))
    (hn : IsGreatest (s.offers y b) top) {x z : Pid} {bx nx bz nz : Nat}
    (hxz : s.WaitsFor x z) (hx : (s.reprice y top).bid? x = some (bx, nx))
    (hz : (s.reprice y top).bid? z = some (bz, nz)) :
    nx ≤ nz ∨ (s.WaitsFor y z ∧ nx = top) := by
  rw [bid?_reprice] at hx hz
  by_cases hxy : x = y
  · right
    rw [if_pos hxy, hxy, hy] at hx
    cases hx
    exact ⟨hxy ▸ hxz, rfl⟩
  · left
    rw [if_neg hxy] at hx
    by_cases hzy : z = y
    · rw [if_pos hzy, hzy, hy] at hz
      cases hz
      exact hn.2 (Or.inr ⟨x, bx, hzy ▸ hxz, hx⟩)
    · rw [if_neg hzy] at hz
      exact (h.edge_le hxz hx hz).resolve_right fun he => hzy he.1

/-- After `y` has risen nobody is below its base priority, `y` as little as all others. -/
theorem base_le_reprice (h : s.Rising y top) (hy : s.bid? y = some (b, m)) (hm : m < top)
    {pid : Pid} {c n : Nat} (hb : (s.reprice y top).bid? pid = some (c, n)) : c ≤ n := by
  rw [bid?_reprice] at hb
  by_cases hq : pid = y
  · rw [if_pos hq, hq, hy] at hb
    cases hb
    exact Nat.le_of_lt (Nat.lt_of_le_of_lt (h.base_le hy) hm)
  · rw [if_neg hq] at hb
    exact h.base_le hb

/-- After `y` has risen every priority comes from somebody: the one that `y` rises to is offered to
it by a waiter, and so comes from behind that. -/
theorem source_reprice (h : s.Rising y top) (hy : s.bid? y = some (b, m)) (hm : m < top)
    (hn : IsGreatest (s.offers y b) top) {pid : Pid} {c n : Nat}
    (hb : (s.reprice y top).bid? pid = some (c, n)) :
    ∃ x n', ReflTransGen s.WaitsFor x pid ∧ (s.reprice y top).bid? x = some (n, n') := by
  have hkeep : ∀ {x c k}, s.bid? x = some (c, k) →
      ∃ k', (s.reprice y top).bid? x = some (c, k') := by
    intro x c k hx
    rw [bid?_reprice]
    by_cases hxy : x = y
    · rw [if_pos hxy, hx]
      exact ⟨top, rfl⟩
    · rw [if_neg hxy]
      exact ⟨k, hx⟩
  rw [bid?_reprice] at hb
  by_cases hq : pid = y
  · rw [if_pos hq, hq, hy] at hb
    cases hb
    rcases hn.1 with rfl | ⟨w, c', hw, hbid⟩
    · exact absurd (h.base_le hy) (Nat.not_le.2 hm)
    · obtain ⟨x, k, hpath, hx⟩ := h.source hbid
      obtain ⟨k', hx'⟩ := hkeep hx
      exact ⟨x, k', hq ▸ hpath.tail hw, hx'⟩
  · rw [if_neg hq] at hb
    obtain ⟨x, k, hpath, hx⟩ := h.source hb
    obtain ⟨k', hx'⟩ := hkeep hx
    exact ⟨x, k', hpath, hx'⟩

/-- If `y` waits for nobody, the state is `Donated` after `y` has risen. -/
theorem donated_reprice (h : s.Rising y top) (hy : s.bid? y = some (b, m)) (hm : m < top)
    (hn : IsGreatest (s.offers y b) top) (hlast : ∀ z, ¬ s.WaitsFor y z) :
    (s.reprice y top).Donated where
  base_le := h.base_le_reprice hy hm
  edge_le hxz hx hz :=
    (h.edge_le_reprice hy hn hxz hx hz).resolve_right fun he => hlast _ he.1
  source := h.source_reprice hy hm hn

/-- If `y` waits for `z`, the state is `Rising` at `z` after `y` has risen. This is the step of the
induction that follows a chain. -/
theorem rising_reprice (hs : s.Settled) (h : s.Rising y top) (hy : s.bid? y = some (b, m))
    (hm : m < top) (hn : IsGreatest (s.offers y b) top) {z : Pid} (hz : s.WaitsFor y z) :
    (s.reprice y top).Rising z top where
  base_le := h.base_le_reprice hy hm
  edge_le hxz hx hz' :=
    (h.edge_le_reprice hy hn hxz hx hz').imp_right fun he =>
      ⟨hs.waitsFor_unique he.1 hz, he.2⟩
  source := h.source_reprice hy hm hn

end Reprice

/-- The live processes below a priority. Each process that rises to `top` is one of them less. -/
def below (s : State) (top : Nat) : List Pid := s.pidsWhere fun p => decide (p.prio < top)

/-- A process that rises to `top` is not `below` it any longer, so their number falls with every
step along a chain. -/
theorem length_below_reprice (hs : s.Settled) {p : Process} (hp : s.process? y = some p)
    (hlt : p.prio < top) : (below (s.reprice y top) top).length < (below s top).length := by
  have ht : (s.reprice y top).Settled := (s.repriced_reprice y top).settled hs
  have hproc : ∀ q, (s.reprice y top).process? q =
      if q = y then (s.process? q).map fun p => { p with prio := top } else s.process? q :=
    process?_adjust fun _ => rfl
  refine length_pidsWhere_lt_of_imp hs.ordered ht.ordered (fun q p' hp' hb => ?_) y ?_ ?_
  · rw [hproc] at hp'
    by_cases hq : q = y
    · rw [if_pos hq] at hp'
      obtain ⟨p₀, -, rfl⟩ := Option.map_eq_some_iff.1 hp'
      simp at hb
    · rw [if_neg hq] at hp'
      exact ⟨p', hp', hb⟩
  · exact hs.ordered.mem_pidsWhere.2 ⟨p, hp, by simpa using hlt⟩
  · intro hm
    obtain ⟨p', hp', hb⟩ := ht.ordered.mem_pidsWhere.1 hm
    rw [hproc, if_pos rfl, hp] at hp'
    cases hp'
    simp at hb

/-- Where the state is `Rising` at `y`, `State.passOn` makes it `Donated`, and any bound above the
number of processes below `top` gives the same result. So circles of waiting do no harm. -/
theorem passOn (hs : s.Settled) (h : s.Rising y top) {p : Process} (hp : s.process? y = some p) :
    ∃ t, t.Donated ∧ ∀ bound, (below s top).length < bound →
      (State.passOn bound s y).result = .ok t := by
  induction hlen : (below s top).length using Nat.strongRecOn generalizing s y p with
  | _ k ih =>
    have hy := bid?_of_process? hp
    obtain ⟨n, hn, hgreat⟩ := hs.inheritedPrio_eq_ok hp
    -- A bound that is above something allows one more step.
    have hbound : ∀ {t : State}, (∀ bound, k ≤ bound →
        (State.passOn (bound + 1) s y).result = .ok t) →
        ∀ bound, k < bound → (State.passOn bound s y).result = .ok t := by
      intro t hall bound hb
      obtain ⟨bound, rfl⟩ : ∃ j, bound = j + 1 := ⟨bound - 1, by omega⟩
      exact hall bound (Nat.le_of_lt_succ hb)
    by_cases heq : p.prio = n
    · rw [heq] at hy
      refine ⟨s, h.donated hy hgreat, hbound fun bound _ => ?_⟩
      rw [passOn_succ_result hp hn, if_pos heq]
    · obtain ⟨rfl, hlt⟩ := h.offer_eq hs hy hgreat heq
      rcases hown : s.awaitedOwner y with _ | z
      · have hlast : ∀ z, ¬ s.WaitsFor y z := fun z hz => by
          rw [hs.awaitedOwner_eq_some.2 hz] at hown
          cases hown
        refine ⟨_, h.donated_reprice hy hlt hgreat hlast, hbound fun bound _ => ?_⟩
        rw [passOn_succ_result hp hn, if_neg heq, hown]
      · have hz := hs.awaitedOwner_eq_some.1 hown
        have hr := s.repriced_reprice y n
        obtain ⟨-, hlive⟩ := hs.live_of_waitsFor hz
        obtain ⟨bid, hbid⟩ := hlive
        obtain ⟨q, hq, -⟩ := Option.map_eq_some_iff.1 hbid
        obtain ⟨c, hq'⟩ := hr.process? hq
        have hless := length_below_reprice hs hp hlt
        obtain ⟨t, ht, hall⟩ := ih _ (hlen ▸ hless) (hr.settled hs)
          (h.rising_reprice hs hy hlt hgreat hz) hq' rfl
        refine ⟨t, ht, hbound fun bound hb => ?_⟩
        rw [passOn_succ_result hp hn, if_neg heq, hown]
        exact hall bound (by omega)

end Rising

end State

end Uniprocessor
