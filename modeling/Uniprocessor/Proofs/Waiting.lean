import Mathlib.Data.List.Cycle
import Mathlib.Data.Set.Finite.Basic
import Mathlib.Dynamics.PeriodicPts.Defs
import Mathlib.Logic.Relation
import Mathlib.Order.Preorder.Finite
import Uniprocessor.Proofs.Lawful

/-!
# Who waits for whom

A process waits for another one if it stands in the wait queue of something that the other one owns.
In a settled state it waits for one process at most, so from every process a single chain of waiting
leads on. A state has finitely many processes: the chain comes to an end, or it runs into a circle
in which each process waits for the next one (`Settled.ends_or_circles`). The chain ends at a
process that does not wait at all, or that waits for a free resource.
-/

namespace Uniprocessor

namespace State

open Relation

variable {s t : State} {pid : Pid} {r : ResourceId} {x : Resource}

/-- The first process waits for something that the second one owns. Chains of this relation carry
inherited priorities, and its circles are deadlocks. -/
def WaitsFor (s : State) (w owner : Pid) : Prop := ∃ r, s.Waits w r ∧ s.Owns owner r

/-- In a `Settled` state a process waits for one process at most: it is in one wait queue, and a
resource has one owner. -/
theorem Settled.waitsFor_unique (h : s.Settled) {x z z' : Pid} (hz : s.WaitsFor x z)
    (hz' : s.WaitsFor x z') : z = z' := by
  obtain ⟨r, hw, ho⟩ := hz
  obtain ⟨r', hw', ho'⟩ := hz'
  rw [h.waits_unique hw' hw] at ho'
  exact ho.unique ho'

/-- In a `Settled` state a process that executes waits for nobody, so a chain of waiting can end at
it. -/
theorem Settled.not_waitsFor_of_running (h : s.Settled) {x : Pid}
    (hx : s.status? x = some .running) (z : Pid) : ¬ s.WaitsFor x z := fun ⟨r, hw, _⟩ =>
  h.not_waits_of_running hx r hw

/-- In a `Settled` state whoever waits for a free resource waits for nobody. There may be such
processes, since a resource that is given back is handed to nobody. -/
theorem Settled.not_waitsFor_of_free (h : s.Settled) (hx : s.resources[r]? = some x)
    (hfree : x.owner = none) {u : Pid} (hu : u ∈ x.waiters) (z : Pid) : ¬ s.WaitsFor u z := by
  rintro ⟨r', hw, ho⟩
  rw [h.waits_unique hw ((waits_iff hx).2 hu), owns_iff hx, hfree] at ho
  cases ho

theorem waitsFor_congr (h : t.resources = s.resources) {x z : Pid} :
    t.WaitsFor x z ↔ s.WaitsFor x z :=
  exists_congr fun _ => and_congr (waits_congr h) (owns_congr h)

/-! ## Resources that change hands -/

theorem waitsFor_give (hx : s.resources[r]? = some x) (hfree : x.owner = none) {u z : Pid} :
    (s.give r x pid).WaitsFor u z ↔ s.WaitsFor u z ∨ (s.Waits u r ∧ z = pid) := by
  have hnone : ¬ s.Owns z r := fun ho => by
    rw [owns_iff hx, hfree] at ho
    cases ho
  constructor
  · rintro ⟨r', hw, ho⟩
    rw [waits_give hx] at hw
    rw [owns_give hx] at ho
    by_cases hr : r' = r
    · rw [if_pos hr] at ho
      exact Or.inr ⟨hr ▸ hw, ho⟩
    · rw [if_neg hr] at ho
      exact Or.inl ⟨r', hw, ho⟩
  · rintro (⟨r', hw, ho⟩ | ⟨hw, rfl⟩)
    · have hr : r' ≠ r := by
        rintro rfl
        exact hnone ho
      exact ⟨r', (waits_give hx).2 hw, (owns_give hx).2 (by rwa [if_neg hr])⟩
    · exact ⟨r, (waits_give hx).2 hw, (owns_give hx).2 (by rw [if_pos rfl])⟩

theorem waitsFor_park (hx : s.resources[r]? = some x) {owner : Pid} (hown : x.owner = some owner)
    {u z : Pid} :
    (s.park r x pid).WaitsFor u z ↔ s.WaitsFor u z ∨ (u = pid ∧ z = owner) := by
  have howns : ∀ {z}, s.Owns z r ↔ z = owner := fun {z} => by
    rw [owns_iff hx, hown, Option.some_inj, eq_comm]
  simp only [WaitsFor, waits_park hx, owns_park hx]
  constructor
  · rintro ⟨r', hw | ⟨rfl, rfl⟩, ho⟩
    · exact Or.inl ⟨r', hw, ho⟩
    · exact Or.inr ⟨rfl, howns.1 ho⟩
  · rintro (⟨r', hw, ho⟩ | ⟨rfl, rfl⟩)
    · exact ⟨r', Or.inl hw, ho⟩
    · exact ⟨r, Or.inr ⟨rfl, rfl⟩, howns.2 rfl⟩

/-- When a resource is given back by `vacate`, only who waited for its owner through it stops
waiting; for everybody else `WaitsFor` is what it was. -/
theorem waitsFor_vacate (h : s.Calls pid r x) (hown : x.owner = some pid) {woken : Option Pid}
    (hwoken : ∀ w, woken = some w → w ∈ x.waiters) {u z : Pid} (hz : z ≠ pid) :
    (s.vacate r x woken).WaitsFor u z ↔ s.WaitsFor u z := by
  have hwaits : ∀ {r'}, r' ≠ r → ((s.vacate r x woken).Waits u r' ↔ s.Waits u r') := by
    intro r' hr
    -- Whoever is woken waited for `r` and for nothing else.
    rcases hc : woken with _ | w
    · exact waits_vacate_none h.entry
    · rw [waits_vacate_some h.settled h.entry (hwoken w hc)]
      refine and_iff_left_of_imp fun hw => ?_
      rintro rfl
      exact hr (h.settled.waits_unique hw ((waits_iff h.entry).2 (hwoken u hc)))
  have hne : ∀ {r'}, s.Owns z r' → r' ≠ r := by
    rintro r' ho rfl
    exact hz (ho.unique ((owns_iff h.entry).2 hown))
  constructor
  · rintro ⟨r', hw, ho⟩
    obtain ⟨ho, hr⟩ := (owns_vacate h.entry woken).1 ho
    exact ⟨r', (hwaits hr).1 hw, ho⟩
  · rintro ⟨r', hw, ho⟩
    have hr := hne ho
    exact ⟨r', (hwaits hr).2 hw, (owns_vacate h.entry woken).2 ⟨ho, hr⟩⟩

/-! ## Chains of waiting -/

section Chains

variable {R R' : Pid → Pid → Prop} {a b u z : Pid}

/-- A chain of `R` that does not end at `a`, from where there is no way on, does not come through
`a`. So it is a chain of any `R'` that has all edges but those into `a`. -/
theorem reflTransGen_of_last (hedge : ∀ {u z}, z ≠ a → R u z → R' u z) (hlast : ∀ z, ¬ R a z)
    (hz : z ≠ a) (hpath : ReflTransGen R u z) : ReflTransGen R' u z := by
  induction hpath with
  | refl => exact .refl
  | tail _ hstep ih =>
    refine (ih ?_).tail (hedge hz hstep)
    rintro rfl
    exact hlast _ hstep

/-- A chain of `R'` in which one edge may be new comes through that edge, or is a chain of `R`. The
new edge is that of a process that begins to wait. -/
theorem reflTransGen_of_new (hedge : ∀ {u z}, R' u z → R u z ∨ (u = a ∧ z = b))
    (hpath : ReflTransGen R' u z) :
    ReflTransGen R u z ∨ (ReflTransGen R' u a ∧ TransGen R' a z) := by
  induction hpath with
  | refl => exact Or.inl .refl
  | tail hpath hstep ih =>
    rcases ih with hold | ⟨hto, hfrom⟩
    · rcases hedge hstep with hstep' | ⟨rfl, -⟩
      · exact Or.inl (hold.tail hstep')
      · exact Or.inr ⟨hpath, .single hstep⟩
    · exact Or.inr ⟨hto, hfrom.tail hstep⟩

end Chains

/-! ## Circular waits -/

/-- Two or more processes wait in a circle, each of them for the next one. By
`Settled.ends_or_circles` this is the only way in which waiting does not come to an end. -/
structure CircularWait (s : State) (c : Cycle Pid) : Prop where
  /-- nobody is in the circle twice -/
  nodup : c.Nodup
  /-- nobody waits for itself -/
  two_le : 2 ≤ c.length
  /-- each one waits for the next one -/
  chain : c.Chain s.WaitsFor

namespace CircularWait

variable {c : Cycle Pid}

/-- Once around a circle and back to its start are the members of the circle, and nobody else. -/
theorem mem_of_mem_round {a w : Pid} {l : List Pid} (hw : w ∈ a :: (l ++ [a])) :
    w ∈ ((a :: l : List Pid) : Cycle Pid) := by
  rw [Cycle.mem_coe_iff]
  rcases List.mem_append.1 (show w ∈ (a :: l) ++ [a] from hw) with hw | hw
  · exact hw
  · rw [List.mem_singleton.1 hw]
    exact List.mem_cons_self ..

/-- Whoever is in the circle waits for somebody who is, so the circle is closed under `WaitsFor`. -/
theorem exists_next (h : s.CircularWait c) {w : Pid} (hw : w ∈ c) : ∃ z ∈ c, s.WaitsFor w z := by
  have hchain := h.chain
  clear h
  induction c with
  | nil => exact absurd hw (Cycle.notMem_nil w)
  | cons a l =>
    obtain ⟨front, back, hsplit⟩ := List.append_of_mem (Cycle.mem_coe_iff.1 hw)
    obtain ⟨z, rest, hz⟩ := List.exists_cons_of_ne_nil (List.concat_ne_nil a back)
    have hround : a :: (l ++ [a]) = front ++ w :: z :: rest := by
      rw [← List.cons_append, hsplit, List.append_assoc, List.cons_append, hz]
    rw [Cycle.chain_coe_cons, hround] at hchain
    refine ⟨z, mem_of_mem_round (hround ▸ by simp), ?_⟩
    exact (List.isChain_split.1 hchain).2.rel

/-- A circle stays one as long as nobody in it stops waiting for somebody in it. -/
theorem mono (h : s.CircularWait c)
    (hst : ∀ w ∈ c, ∀ z ∈ c, s.WaitsFor w z → t.WaitsFor w z) : t.CircularWait c where
  nodup := h.nodup
  two_le := h.two_le
  chain := by
    have hchain := h.chain
    clear h
    induction c with
    | nil => exact Cycle.Chain.nil _
    | cons a l =>
      rw [Cycle.chain_coe_cons] at hchain ⊢
      exact hchain.imp_of_mem_imp fun w z hw hz =>
        hst w (mem_of_mem_round hw) z (mem_of_mem_round hz)

/-- There is somebody in the circle, since it has two members at least. -/
theorem exists_mem (h : s.CircularWait c) : ∃ w, w ∈ c := by
  have hlen := h.two_le
  clear h
  induction c with
  | nil => exact absurd hlen (by simp)
  | cons a l => exact ⟨a, Cycle.mem_coe_iff.2 (List.mem_cons_self ..)⟩

/-- From a process that waits for nobody no chain of waiting leads into the circle: in the circle
the chain would go on for ever. -/
theorem not_mem_of_last (h : s.CircularWait c) {u v : Pid} (hlast : ∀ z, ¬ s.WaitsFor u z)
    (hpath : ReflTransGen s.WaitsFor u v) : v ∉ c := by
  rcases hpath.cases_head with rfl | ⟨z, hz, -⟩
  · intro hu
    obtain ⟨z, -, hz⟩ := h.exists_next hu
    exact hlast z hz
  · exact absurd hz (hlast z)

/-- In a `Settled` state whoever is in the circle is blocked, since it waits for something. -/
theorem status? (hs : s.Settled) (h : s.CircularWait c) {w : Pid} (hw : w ∈ c) :
    s.status? w = some .blocked := by
  obtain ⟨z, -, r, hwaits, -⟩ := h.exists_next hw
  exact hs.status?_of_waits hwaits

end CircularWait

/-- Where every step of `next` is one of `WaitsFor`, it leads around a circle in the end: the
processes that wait are finitely many, so one of them comes back. -/
theorem Settled.exists_circularWait (h : s.Settled) (next : Pid → Pid) (w : Pid)
    (hnext : ∀ n, s.WaitsFor (next^[n] w) (next^[n + 1] w)) :
    ∃ c, s.CircularWait c ∧ ∃ n, next^[n] w ∈ c := by
  have hlive : ∀ n, next^[n] w ∈ {q | q ∈ s.procs.map Process.pid} := by
    intro n
    obtain ⟨r, hwaits, -⟩ := hnext n
    exact exists_process?_iff.1 (h.process?_of_waits hwaits)
  obtain ⟨m, n, hmn, heq⟩ := Set.Finite.exists_lt_map_eq_of_forall_mem hlive
    (List.finite_toSet (s.procs.map Process.pid))
  -- From the first repeated process on, the chain goes around.
  have hedge : ∀ k, s.WaitsFor (next^[k] (next^[m] w)) (next^[k + 1] (next^[m] w)) := by
    intro k
    rw [← Function.iterate_add_apply, ← Function.iterate_add_apply, Nat.add_right_comm]
    exact hnext (k + m)
  have hper : next^[m] w ∈ Function.periodicPts next := by
    refine Function.mk_mem_periodicPts (Nat.sub_pos_of_lt hmn) ?_
    rw [Function.IsPeriodicPt, Function.IsFixedPt, ← Function.iterate_add_apply,
      Nat.sub_add_cancel (Nat.le_of_lt hmn), heq]
  refine ⟨Function.periodicOrbit next (next^[m] w), ⟨Function.nodup_periodicOrbit, ?_, ?_⟩, m,
    Function.self_mem_periodicOrbit hper⟩
  · rw [Function.periodicOrbit_length]
    have hpos := Function.minimalPeriod_pos_of_mem_periodicPts hper
    have hne : Function.minimalPeriod next (next^[m] w) ≠ 1 := by
      intro hone
      have hfix := Function.minimalPeriod_eq_one_iff_isFixedPt.1 hone
      obtain ⟨r, hwaits, howns⟩ := hedge 0
      rw [Function.iterate_one, hfix] at howns
      exact h.owner_apart howns hwaits
    omega
  · exact (Function.periodicOrbit_chain' _ hper).2 hedge

/-- In a `Settled` state the chain of waiting from a process comes to an end, or runs into a circle.
This is the dichotomy behind deadlocks and donations. -/
theorem Settled.ends_or_circles (h : s.Settled) (w : Pid) :
    (∃ u, ReflTransGen s.WaitsFor w u ∧ ∀ z, ¬ s.WaitsFor u z) ∨
      ∃ c, s.CircularWait c ∧ ∃ u ∈ c, ReflTransGen s.WaitsFor w u := by
  by_cases hend : ∃ u, ReflTransGen s.WaitsFor w u ∧ ∀ z, ¬ s.WaitsFor u z
  · exact Or.inl hend
  · right
    push Not at hend
    choose! next hnext using hend
    have hpath : ∀ n, ReflTransGen s.WaitsFor w (next^[n] w) := by
      intro n
      induction n with
      | zero => exact .refl
      | succ n ih =>
        rw [Function.iterate_succ_apply']
        exact ih.tail (hnext _ ih)
    obtain ⟨c, hc, n, hn⟩ := h.exists_circularWait next w fun n => by
      rw [Function.iterate_succ_apply']
      exact hnext _ (hpath n)
    exact ⟨c, hc, _, hn, hpath n⟩

end State

end Uniprocessor
