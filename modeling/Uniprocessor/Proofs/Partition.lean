import Uniprocessor.Proofs.Settled
import Uniprocessor.State.Partition

/-!
# Settled states pass the check of the partition

`State.violation` computes the first breach of the partition. It finds none in a settled state
(`Settled.violation_eq_none`): each of the four parts of the check, by the running processes, by the
places, by the resources and by the ready queue, passes for a reason of its own.
-/

namespace Uniprocessor

namespace State

variable {s : State}

/-! ## Who executes -/

/-- The processes that `runningPids` lists are those whose status says so. -/
theorem Ordered.mem_runningPids (h : s.Ordered) {pid : Pid} :
    pid ∈ s.runningPids ↔ s.status? pid = some .running := by
  simp only [runningPids, List.mem_map, List.mem_filter, decide_eq_true_eq, status?_eq_some]
  constructor
  · rintro ⟨p, ⟨hp, hrun⟩, rfl⟩
    exact ⟨p, h.process?_of_mem hp, hrun⟩
  · rintro ⟨p, hp, hrun⟩
    exact ⟨p, ⟨mem_of_process? hp, hrun⟩, pid_of_process? hp⟩

theorem Settled.runningViolation_eq_none (h : s.Settled) : s.runningViolation = none := by
  have hcur : ∀ pid ∈ s.runningPids, s.current = some pid := fun pid hp =>
    h.running_current (h.ordered.mem_runningPids.1 hp)
  have hnodup : s.runningPids.Nodup :=
    h.ordered.nodup.sublist (List.filter_sublist.map Process.pid)
  rw [runningViolation]
  rcases hr : s.runningPids with _ | ⟨p, _ | ⟨q, rest⟩⟩
  · rfl
  · rw [hr] at hcur
    exact if_pos (hcur p (List.mem_singleton_self p))
  · -- Two processes that execute would both be the current one.
    rw [hr] at hcur hnodup
    have hpq : p = q := Option.some.inj
      ((hcur p (by simp)).symm.trans (hcur q (by simp)))
    simp [hpq] at hnodup

/-! ## Where each process is -/

/-- If one place of a list, and no other, holds what is counted, the count is one: how a wait queue
without repetition is counted. -/
theorem countP_eq_one {α : Type} {f : α → Bool} {l : List α} {i : Nat} {a : α}
    (ha : l[i]? = some a) (hf : f a = true)
    (hi : ∀ {j : Nat} {b : α}, l[j]? = some b → f b = true → j = i) : l.countP f = 1 := by
  induction l generalizing i with
  | nil => simp at ha
  | cons x rest ih =>
    cases i with
    | zero =>
      rw [List.getElem?_cons_zero] at ha
      cases ha
      have hrest : rest.countP f = 0 := by
        refine List.countP_eq_zero.2 fun b hb hfb => ?_
        obtain ⟨j, hj⟩ := List.mem_iff_getElem?.1 hb
        exact absurd (hi (j := j + 1) (List.getElem?_cons_succ.trans hj) hfb) (Nat.succ_ne_zero j)
      rw [List.countP_cons_of_pos hf, hrest]
    | succ i =>
      have hx : ¬ f x = true := fun hfx =>
        absurd (hi (j := 0) List.getElem?_cons_zero hfx) (Nat.succ_ne_zero i).symm
      rw [List.countP_cons_of_neg hx]
      refine ih (List.getElem?_cons_succ.symm.trans ha) fun hj hfb => ?_
      exact Nat.succ.inj (hi (List.getElem?_cons_succ.trans hj) hfb)

/-- In a settled state a blocked process is counted in one wait queue, and any other in none. -/
theorem Settled.waitCount_eq (h : s.Settled) (pid : Pid) :
    s.waitCount pid = if s.status? pid = some .blocked then 1 else 0 := by
  by_cases hb : s.status? pid = some .blocked
  · rw [if_pos hb]
    obtain ⟨r, x, hx, hw⟩ := (h.blocked_iff pid).1 hb
    refine countP_eq_one hx (by simpa using hw) fun hy hmem => ?_
    exact h.waits_unique ⟨_, hy, by simpa using hmem⟩ ⟨x, hx, hw⟩
  · rw [if_neg hb, waitCount, List.countP_eq_zero]
    intro x hx hm
    obtain ⟨r, hr⟩ := List.mem_iff_getElem?.1 hx
    exact hb ((h.blocked_iff pid).2 ⟨r, x, hr, by simpa using hm⟩)

theorem Settled.placeViolation_eq_none (h : s.Settled) {p : Process} (hp : p ∈ s.procs) :
    s.placeViolation p = none := by
  have hst : s.status? p.pid = some p.status :=
    status?_of_process? (h.ordered.process?_of_mem hp)
  have hready : p.pid ∈ s.ready ↔ p.status = .ready := by
    rw [h.mem_ready, hst, Option.some_inj]
  rw [placeViolation, h.waitCount_eq, hst]
  simp only [hready, Option.some_inj]
  cases hc : p.status <;> rfl

/-! ## The resources -/

/-- Nothing is what `firstDead` finds in a queue exactly if all of its processes are live. -/
theorem firstDead_eq_none {q : Queue} :
    s.firstDead q = none ↔ ∀ pid ∈ q, ∃ p, s.process? pid = some p := by
  simp [firstDead, List.find?_eq_none, ← Option.ne_none_iff_exists']

/-- A process that waits for a resource is found to wait for one: `awaited` does not miss it. -/
theorem awaited_ne_none {pid : Pid} {r : ResourceId} (h : s.Waits pid r) :
    s.awaited pid ≠ none := by
  obtain ⟨x, hx, hw⟩ := h
  rw [awaited, Ne, List.findIdx?_eq_none_iff]
  intro hall
  simpa [hw] using hall x (List.mem_of_getElem? hx)

theorem Settled.ownerViolation_eq_none (h : s.Settled) {r : ResourceId} {x : Resource}
    (hx : s.resources[r]? = some x) : s.ownerViolation r x = none := by
  rcases ho : x.owner with _ | owner
  · simp [ownerViolation, ho]
  · have hown : s.Owns owner r := ⟨x, hx, ho⟩
    obtain ⟨p, hp⟩ := h.process?_of_owns hown
    have hwait : ¬ (p.isBlocked = true ∧ s.awaited owner = none) := by
      rintro ⟨hb, hn⟩
      have hst : s.status? owner = some .blocked := by
        rw [status?_of_process? hp, Process.isBlocked_iff.1 hb]
      obtain ⟨q, hq⟩ := (h.blocked_iff owner).1 hst
      exact awaited_ne_none hq hn
    have hapart : owner ∉ x.waiters := fun hm => h.owner_apart hown ⟨x, hx, hm⟩
    simp only [ownerViolation, ho, hp]
    rw [if_neg hwait, if_neg hapart]

/-- The check of the resources passes exactly if the check of each of them does: its owner is right,
and nobody dead waits for it. -/
theorem resourceViolation_eq_none {r : ResourceId} {xs : List Resource} :
    s.resourceViolation r xs = none ↔ ∀ i x, xs[i]? = some x →
      s.ownerViolation (r + i) x = none ∧ s.firstDead x.waiters = none := by
  induction xs generalizing r with
  | nil => simp [resourceViolation]
  | cons head rest ih =>
    simp only [resourceViolation, Option.or_eq_none_iff, Option.map_eq_none_iff, ih]
    constructor
    · rintro ⟨howner, hdead, hrest⟩ i x hx
      cases i with
      | zero =>
        cases hx
        exact ⟨howner, hdead⟩
      | succ i =>
        rw [Nat.add_succ, ← Nat.succ_add]
        exact hrest i x hx
    · intro hall
      obtain ⟨howner, hdead⟩ := hall 0 head rfl
      refine ⟨howner, hdead, fun i x hx => ?_⟩
      rw [Nat.add_right_comm, Nat.add_assoc]
      exact hall (i + 1) x hx

/-- In a settled state `violation` finds nothing: each of the four parts of the check passes, for a
reason of its own. -/
theorem Settled.violation_eq_none (h : s.Settled) : s.violation = none := by
  have hplace : s.procs.findSome? s.placeViolation = none :=
    List.findSome?_eq_none_iff.2 fun p hp => h.placeViolation_eq_none hp
  have hres : s.resourceViolation 0 s.resources = none :=
    resourceViolation_eq_none.2 fun r x hx => by
      rw [Nat.zero_add]
      exact ⟨h.ownerViolation_eq_none hx,
        firstDead_eq_none.2 fun pid hm => h.process?_of_waits ⟨x, hx, hm⟩⟩
  have hready : s.firstDead s.ready = none :=
    firstDead_eq_none.2 fun pid hm => h.process?_of_mem_ready hm
  rw [violation, h.runningViolation_eq_none, hplace, hres, hready]
  rfl

end State

end Uniprocessor
