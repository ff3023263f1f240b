import Mathlib.Order.Bounds.Defs
import Uniprocessor.Discipline.Inheritance
import Uniprocessor.Proofs.Choosing
import Uniprocessor.Proofs.Waiting

/-!
# Passing priorities on

What one step of priority inheritance computes: a process takes the largest of what is offered to
it, its base priority and the priorities of those who wait for something that it owns. In a settled
state no step faults, and however many of them are taken, priorities are all that changes.
-/

namespace Uniprocessor

namespace State

open Narrated

variable {s : State} {pid : Pid}

theorem mem_waitersOn {w : Pid} : w ∈ s.waitersOn pid ↔ s.WaitsFor w pid := by
  simp only [waitersOn, List.mem_flatMap, List.mem_filter, Resource.isHeldBy, decide_eq_true_eq]
  constructor
  · rintro ⟨y, ⟨hy, ho⟩, hw⟩
    obtain ⟨r, hr⟩ := List.mem_iff_getElem?.1 hy
    exact ⟨r, ⟨y, hr, hw⟩, ⟨y, hr, ho⟩⟩
  · rintro ⟨r, hw, ⟨y, hy, ho⟩⟩
    exact ⟨y, ⟨List.mem_of_getElem? hy, ho⟩, (waits_iff hy).1 hw⟩

/-- What is offered to a process as its priority: its base priority `b`, and the priorities of those
who wait for something that it owns. -/
def offers (s : State) (pid : Pid) (b : Nat) : Set Nat :=
  { n | n = b ∨ ∃ w b', s.WaitsFor w pid ∧ s.bid? w = some (b', n) }

/-- Folding `max` over some numbers from one more gives the largest of them all. -/
theorem isGreatest_foldl_max (ns : List Nat) (b : Nat) :
    IsGreatest { n | n = b ∨ n ∈ ns } (ns.foldl max b) := by
  induction ns generalizing b with
  | nil =>
    refine ⟨Or.inl rfl, fun n hn => ?_⟩
    rcases hn with rfl | hn
    · exact Nat.le_refl n
    · cases hn
  | cons a rest ih =>
    obtain ⟨hmem, hle⟩ := ih (max b a)
    rw [List.foldl_cons]
    refine ⟨?_, fun n hn => ?_⟩
    · rcases hmem with hm | hm
      · rcases Nat.le_total b a with hab | hab
        · exact Or.inr (by rw [hm, Nat.max_eq_right hab]; exact List.mem_cons_self ..)
        · exact Or.inl (by rw [hm, Nat.max_eq_left hab])
      · exact Or.inr (List.mem_cons_of_mem _ hm)
    · have hb : max b a ≤ rest.foldl max (max b a) := hle (Or.inl rfl)
      rcases hn with rfl | hn
      · exact Nat.le_trans (Nat.le_max_left ..) hb
      · rcases List.mem_cons.1 hn with rfl | hn
        · exact Nat.le_trans (Nat.le_max_right ..) hb
        · exact hle (Or.inr hn)

/-- In a `Settled` state `inheritedPrio` does not fault, and answers with the largest of the
`offers`. -/
theorem Settled.inheritedPrio_eq_ok (h : s.Settled) {p : Process} (hp : s.process? pid = some p) :
    ∃ n, s.inheritedPrio pid = .ok n ∧ IsGreatest (s.offers pid p.base) n := by
  obtain ⟨ps, hps, hmap, hall⟩ := records_eq_ok (s := s) (q := s.waitersOn pid) fun w hw => by
    obtain ⟨r, hr, -⟩ := mem_waitersOn.1 hw
    exact h.process?_of_waits hr
  have hmem : ∀ {w}, w ∈ ps.map Process.pid ↔ s.WaitsFor w pid := by
    intro w
    rw [hmap, mem_waitersOn]
  refine ⟨(ps.map Process.prio).foldl max p.base, ?_, ?_⟩
  · rw [inheritedPrio, process_eq_ok.2 hp, ok_bind, hps]
    rfl
  · convert isGreatest_foldl_max (ps.map Process.prio) p.base using 2
    funext n
    refine propext (or_congr_right ⟨?_, fun hn => ?_⟩)
    · rintro ⟨w, b, hw, hbid⟩
      obtain ⟨q, hq, rfl⟩ := List.mem_map.1 (hmem.2 hw)
      rw [bid?_of_process? (hall q hq)] at hbid
      cases hbid
      exact List.mem_map_of_mem hq
    · obtain ⟨q, hq, rfl⟩ := List.mem_map.1 hn
      exact ⟨q.pid, q.base, hmem.1 (List.mem_map_of_mem hq), bid?_of_process? (hall q hq)⟩

/-- In a `Settled` state `awaitedOwner` finds whom a process waits for, and nobody if it waits for
nobody. -/
theorem Settled.awaitedOwner_eq_some (h : s.Settled) {owner : Pid} :
    s.awaitedOwner pid = some owner ↔ s.WaitsFor pid owner := by
  simp only [awaitedOwner, Option.bind_eq_bind, Option.bind_eq_some_iff]
  constructor
  · rintro ⟨r, hr, y, hy, ho⟩
    obtain ⟨hlt, hw, -⟩ := List.findIdx?_eq_some_iff_getElem.1 hr
    have hy' : s.resources[r]? = some s.resources[r] := List.getElem?_eq_getElem hlt
    exact ⟨r, ⟨s.resources[r], hy', by simpa using hw⟩, ⟨y, hy, ho⟩⟩
  · rintro ⟨r, hw, y, hy, ho⟩
    obtain ⟨q, hq⟩ : ∃ q, s.awaited pid = some q := by
      rw [← Option.isSome_iff_exists, awaited, List.findIdx?_isSome, List.any_eq_true]
      exact ⟨y, List.mem_of_getElem? hy, by simpa using (waits_iff hy).1 hw⟩
    have hwq : s.Waits pid q := by
      obtain ⟨hlt, hm, -⟩ := List.findIdx?_eq_some_iff_getElem.1 hq
      exact ⟨s.resources[q], List.getElem?_eq_getElem hlt, by simpa using hm⟩
    rw [h.waits_unique hwq hw] at hq
    exact ⟨r, hq, y, hy, ho⟩

/-- One step of `passOn`: the process takes the largest offer `n`, and if that is news, whom it
waits for is next. -/
theorem passOn_succ_result {p : Process} {n : Nat} (hp : s.process? pid = some p)
    (hn : s.inheritedPrio pid = .ok n) (bound : Nat) :
    (passOn (bound + 1) s pid).result =
      if p.prio = n then .ok s
      else match s.awaitedOwner pid with
        | none => .ok (s.reprice pid n)
        | some next => (passOn bound (s.reprice pid n) next).result := by
  rw [passOn, result_bind, result_lift, hn, ok_bind, result_bind, result_lift, process_eq_ok.2 hp,
    ok_bind]
  by_cases heq : p.prio = n
  · rw [if_pos heq, if_pos heq]
    rfl
  · rw [if_neg heq, if_neg heq]
    simp only [result_bind, result_note, result_lift, setPrio_eq_ok hp, ok_bind]
    change Narrated.result (match s.awaitedOwner pid with
      | none => _
      | some next => _) = _
    cases s.awaitedOwner pid <;> rfl

/-- However far `passOn` goes, it does not fault in a `Settled` state, and changes priorities
alone. -/
theorem Settled.passOn_eq_ok (h : s.Settled) (hp : ∃ p, s.process? pid = some p) (bound : Nat) :
    ∃ t, (passOn bound s pid).result = .ok t ∧ s.Repriced t := by
  induction bound generalizing s pid with
  | zero => exact ⟨s, rfl, .refl s⟩
  | succ bound ih =>
    obtain ⟨p, hp⟩ := hp
    obtain ⟨n, hn, -⟩ := h.inheritedPrio_eq_ok hp
    rw [passOn_succ_result hp hn]
    by_cases heq : p.prio = n
    · rw [if_pos heq]
      exact ⟨s, rfl, .refl s⟩
    · rw [if_neg heq]
      have hr := s.repriced_reprice pid n
      rcases hown : s.awaitedOwner pid with _ | next
      · exact ⟨_, rfl, hr⟩
      · obtain ⟨r, -, ho⟩ := h.awaitedOwner_eq_some.1 hown
        obtain ⟨q, hq⟩ := h.process?_of_owns ho
        obtain ⟨m, hm⟩ := hr.process? hq
        obtain ⟨t, ht, hst⟩ := ih (hr.settled h) ⟨_, hm⟩
        exact ⟨t, ht, hr.trans hst⟩

theorem Settled.inherit_eq_ok (h : s.Settled) (hp : ∃ p, s.process? pid = some p) :
    ∃ t, (s.inherit pid).result = .ok t ∧ s.Repriced t := h.passOn_eq_ok hp _

end State

end Uniprocessor
