import Uniprocessor.Proofs.Settled

/-!
# Moves between the places

What a granted request, a refused request and a returned resource do to a state, as plain functions:
`give`, `park` and `vacate`. Each comes with what the readings of the state give after it, and with
the fact that it keeps a state settled. A policy's operations are these moves, up to priorities.
-/

namespace Uniprocessor

namespace State

/-- If the entry of a resource is exchanged for one whose wait queue holds nobody twice,
`Settled.waiters_nodup` holds of the exchanged table too. -/
theorem Settled.waiters_nodup_setResource {s : State} (h : s.Settled) {r : ResourceId}
    {x y : Resource} (hx : s.resources[r]? = some x) (hy : y.waiters.Nodup) {q : ResourceId}
    {z : Resource} (hz : (s.setResource r y).resources[q]? = some z) : z.waiters.Nodup := by
  rw [getElem?_setResource hx] at hz
  by_cases hq : q = r
  · rw [if_pos hq] at hz
    cases hz
    exact hy
  · rw [if_neg hq] at hz
    exact h.waiters_nodup hz

/-! ## A request is granted -/

/-- The resource, whose entry is `x`, goes to the process: the only thing that changes is the owner.
This is what a granted request does, up to priorities. -/
def give (s : State) (r : ResourceId) (x : Resource) (pid : Pid) : State :=
  s.setResource r { x with owner := some pid }

theorem owns_give {s : State} {r : ResourceId} {x : Resource} (hx : s.resources[r]? = some x)
    {pid q : Pid} {r' : ResourceId} :
    (s.give r x pid).Owns q r' ↔ if r' = r then q = pid else s.Owns q r' := by
  rw [give, owns_setResource hx]
  by_cases hr : r' = r <;> simp [hr, eq_comm]

theorem waits_give {s : State} {r : ResourceId} {x : Resource} (hx : s.resources[r]? = some x)
    {pid q : Pid} {r' : ResourceId} : (s.give r x pid).Waits q r' ↔ s.Waits q r' := by
  rw [give, waits_setResource hx]
  by_cases hr : r' = r
  · rw [if_pos hr, hr, waits_iff hx]
  · rw [if_neg hr]

/-- A `Settled` state stays settled when a resource is given to a process that executes: everybody
stays in place, and the new owner is live and waits for nothing. -/
theorem Settled.give {s : State} (h : s.Settled) {r : ResourceId} {x : Resource}
    (hx : s.resources[r]? = some x) {pid : Pid} (hp : s.status? pid = some .running) :
    (s.give r x pid).Settled where
  ordered := h.ordered
  ready_nodup := h.ready_nodup
  waiters_nodup hy := by
    refine h.waiters_nodup_setResource (y := { x with owner := some pid }) hx ?_ hy
    exact h.waiters_nodup (x := x) hx
  mem_ready := h.mem_ready
  blocked_iff q := (h.blocked_iff q).trans (exists_congr fun _ => (waits_give hx).symm)
  waits_unique hw hw' := h.waits_unique ((waits_give hx).1 hw) ((waits_give hx).1 hw')
  running_current := h.running_current
  current_busy := h.current_busy
  owner_live {q r'} ho := by
    rw [owns_give hx] at ho
    by_cases hr : r' = r
    · rw [if_pos hr] at ho
      change s.status? q ≠ none
      rw [ho, hp]
      exact Option.some_ne_none _
    · rw [if_neg hr] at ho
      exact h.owner_live ho
  owner_apart {q r'} ho hw := by
    rw [waits_give hx] at hw
    rw [owns_give hx] at ho
    by_cases hr : r' = r
    · rw [if_pos hr] at ho
      exact h.not_waits_of_running hp r' (ho ▸ hw)
    · rw [if_neg hr] at ho
      exact h.owner_apart ho hw

/-! ## A request is refused -/

/-- The process joins the tail of the wait queue of the resource, whose entry is `x`, and is
blocked. This is what a refused request does, up to priorities. -/
def park (s : State) (r : ResourceId) (x : Resource) (pid : Pid) : State :=
  (s.setResource r { x with waiters := x.waiters ++ [pid] }).adjust pid
    fun p => { p with status := .blocked }

theorem process?_park {s : State} {r : ResourceId} {x : Resource} {pid q : Pid} :
    (s.park r x pid).process? q =
      if q = pid then (s.process? q).map fun p => { p with status := .blocked }
      else s.process? q :=
  process?_adjust_status (s := s.setResource r _) q

theorem status?_park {s : State} {r : ResourceId} {x : Resource} {pid : Pid} {c : Status}
    (hp : s.status? pid = some c) (q : Pid) :
    (s.park r x pid).status? q = if q = pid then some .blocked else s.status? q := by
  rw [park, status?_adjust_status]
  change (if q = pid then (s.status? q).map fun _ => Status.blocked else s.status? q) = _
  by_cases hq : q = pid <;> simp [hq, hp]

theorem owns_park {s : State} {r : ResourceId} {x : Resource} (hx : s.resources[r]? = some x)
    {pid q : Pid} {r' : ResourceId} : (s.park r x pid).Owns q r' ↔ s.Owns q r' := by
  change (s.setResource r _).Owns q r' ↔ _
  rw [owns_setResource hx]
  by_cases hr : r' = r
  · rw [if_pos hr, hr, owns_iff hx]
  · rw [if_neg hr]

theorem waits_park {s : State} {r : ResourceId} {x : Resource} (hx : s.resources[r]? = some x)
    {pid q : Pid} {r' : ResourceId} :
    (s.park r x pid).Waits q r' ↔ s.Waits q r' ∨ (q = pid ∧ r' = r) := by
  change (s.setResource r _).Waits q r' ↔ _
  rw [waits_setResource hx]
  by_cases hr : r' = r
  · rw [if_pos hr, List.mem_append, List.mem_singleton, hr, waits_iff hx]
    simp
  · simp [hr]

/-- A `Settled` state stays settled when a process that executes and does not own the resource is
parked: it leaves the processor for one wait queue, and was in none before. -/
theorem Settled.park {s : State} (h : s.Settled) {r : ResourceId} {x : Resource}
    (hx : s.resources[r]? = some x) {pid : Pid} (hp : s.status? pid = some .running)
    (hown : ¬ s.Owns pid r) : (s.park r x pid).Settled := by
  have hfree : ∀ r', ¬ s.Waits pid r' := h.not_waits_of_running hp
  exact {
    ordered := Ordered.adjust (s := s.setResource r _) h.ordered fun _ => rfl
    ready_nodup := h.ready_nodup
    waiters_nodup := fun hy => by
      refine h.waiters_nodup_setResource hx ?_ hy
      rw [List.nodup_append]
      refine ⟨h.waiters_nodup hx, List.nodup_singleton _, fun a ha b hb hab => ?_⟩
      rw [List.mem_singleton.1 hb] at hab
      exact hfree r ((waits_iff hx).2 (hab ▸ ha))
    mem_ready := fun q => by
      rw [status?_park hp]
      change q ∈ s.ready ↔ _
      rw [h.mem_ready]
      by_cases hq : q = pid <;> simp [hq, hp]
    blocked_iff := fun q => by
      rw [status?_park hp]
      by_cases hq : q = pid
      · rw [if_pos hq]
        exact ⟨fun _ => ⟨r, (waits_park hx).2 (Or.inr ⟨hq, rfl⟩)⟩, fun _ => rfl⟩
      · rw [if_neg hq, h.blocked_iff]
        refine exists_congr fun r' => ?_
        rw [waits_park hx]
        simp [hq]
    waits_unique := fun {q r₁ r₂} h₁ h₂ => by
      rw [waits_park hx] at h₁ h₂
      rcases h₁ with h₁ | ⟨rfl, rfl⟩
      · rcases h₂ with h₂ | ⟨rfl, rfl⟩
        · exact h.waits_unique h₁ h₂
        · exact absurd h₁ (hfree r₁)
      · rcases h₂ with h₂ | ⟨-, rfl⟩
        · exact absurd h₂ (hfree r₂)
        · rfl
    running_current := fun {q} hrun => by
      rw [status?_park hp] at hrun
      by_cases hq : q = pid
      · rw [if_pos hq] at hrun
        cases hrun
      · rw [if_neg hq] at hrun
        exact h.running_current hrun
    current_busy := fun {q} hcur => by
      rw [status?_park hp]
      by_cases hq : q = pid
      · rw [if_pos hq]
        exact Or.inr rfl
      · rw [if_neg hq]
        exact h.current_busy hcur
    owner_live := fun {q r'} ho => by
      rw [status?_park hp]
      by_cases hq : q = pid
      · rw [if_pos hq]
        exact Option.some_ne_none _
      · rw [if_neg hq]
        exact h.owner_live ((owns_park hx).1 ho)
    owner_apart := fun {q r'} ho hw => by
      rw [owns_park hx] at ho
      rcases (waits_park hx).1 hw with hw | ⟨rfl, rfl⟩
      · exact h.owner_apart ho hw
      · exact hown ho }

/-! ## A resource is given back -/

/-- The resource, whose entry is `x`, becomes free, and the woken process, if there is one, goes
from its wait queue to the tail of the ready queue. The owner changes to nobody: a woken process
must ask again. -/
def vacate (s : State) (r : ResourceId) (x : Resource) : Option Pid → State
  | none => s.setResource r { x with owner := none }
  | some w =>
    { (s.setResource r { owner := none, waiters := x.waiters.erase w }).adjust w
        (fun p => { p with status := .ready }) with ready := s.ready ++ [w] }

theorem owns_vacate {s : State} {r : ResourceId} {x : Resource} (hx : s.resources[r]? = some x)
    (woken : Option Pid) {q : Pid} {r' : ResourceId} :
    (s.vacate r x woken).Owns q r' ↔ s.Owns q r' ∧ r' ≠ r := by
  have key : ∀ y : Resource, y.owner = none →
      ((s.setResource r y).Owns q r' ↔ s.Owns q r' ∧ r' ≠ r) := by
    intro y hy
    rw [owns_setResource hx, hy]
    by_cases hr : r' = r <;> simp [hr]
  cases woken with
  | none => exact key _ rfl
  | some w => exact key { owner := none, waiters := x.waiters.erase w } rfl

theorem waits_vacate_none {s : State} {r : ResourceId} {x : Resource}
    (hx : s.resources[r]? = some x) {q : Pid} {r' : ResourceId} :
    (s.vacate r x none).Waits q r' ↔ s.Waits q r' := by
  rw [vacate, waits_setResource hx]
  by_cases hr : r' = r
  · rw [if_pos hr, hr, waits_iff hx]
  · rw [if_neg hr]

theorem waits_vacate_some {s : State} (h : s.Settled) {r : ResourceId} {x : Resource}
    (hx : s.resources[r]? = some x) {w : Pid} (hw : w ∈ x.waiters) {q : Pid} {r' : ResourceId} :
    (s.vacate r x (some w)).Waits q r' ↔ s.Waits q r' ∧ q ≠ w := by
  change (s.setResource r { owner := none, waiters := x.waiters.erase w }).Waits q r' ↔ _
  rw [waits_setResource hx]
  by_cases hr : r' = r
  · rw [if_pos hr, (h.waiters_nodup hx).mem_erase_iff, hr, waits_iff hx, and_comm]
  · rw [if_neg hr]
    refine ⟨fun hq => ⟨hq, ?_⟩, And.left⟩
    rintro rfl
    exact hr (h.waits_unique hq ((waits_iff hx).2 hw))

theorem process?_vacate {s : State} {r : ResourceId} {x : Resource} (woken : Option Pid) (q : Pid) :
    (s.vacate r x woken).process? q =
      if woken = some q then (s.process? q).map fun p => { p with status := .ready }
      else s.process? q := by
  cases woken with
  | none => rfl
  | some w =>
    change ((s.setResource r _).adjust w _).process? q = _
    rw [process?_adjust_status]
    by_cases hq : q = w
    · rw [if_pos hq, if_pos (congrArg some hq.symm)]
      rfl
    · rw [if_neg hq, if_neg fun he => hq (Option.some.inj he).symm]
      rfl

theorem map_pid_vacate (s : State) (r : ResourceId) (x : Resource) (woken : Option Pid) :
    (s.vacate r x woken).procs.map Process.pid = s.procs.map Process.pid := by
  cases woken with
  | none => rfl
  | some w => exact map_pid_adjust (s := s.setResource r _) fun _ => rfl

/-- Whoever is woken by `vacate` joins the tail of the ready queue, and without such a process the
queue is what it was. -/
theorem ready_vacate (s : State) (r : ResourceId) (x : Resource) (woken : Option Pid) :
    (s.vacate r x woken).ready = s.ready ++ woken.toList := by
  cases woken with
  | none => exact (List.append_nil _).symm
  | some w => rfl

theorem current_vacate (s : State) (r : ResourceId) (x : Resource) (woken : Option Pid) :
    (s.vacate r x woken).current = s.current := by
  cases woken with
  | none => rfl
  | some w => rfl

theorem tick_vacate (s : State) (r : ResourceId) (x : Resource) (woken : Option Pid) :
    (s.vacate r x woken).tick = s.tick := by
  cases woken with
  | none => rfl
  | some w => rfl

theorem ceiling_vacate (s : State) (r : ResourceId) (x : Resource) (woken : Option Pid) :
    (s.vacate r x woken).ceiling = s.ceiling := by
  cases woken with
  | none => rfl
  | some w => rfl

theorem length_resources_vacate (s : State) (r : ResourceId) (x : Resource) (woken : Option Pid) :
    (s.vacate r x woken).resources.length = s.resources.length := by
  cases woken with
  | none => exact List.length_set ..
  | some w => exact List.length_set ..

theorem status?_vacate_some {s : State} {r : ResourceId} {x : Resource} {w : Pid} {c : Status}
    (hc : s.status? w = some c) (q : Pid) :
    (s.vacate r x (some w)).status? q = if q = w then some .ready else s.status? q := by
  change ((s.setResource r _).adjust w _).status? q = _
  rw [status?_adjust_status]
  change (if q = w then (s.status? q).map fun _ => Status.ready else s.status? q) = _
  by_cases hq : q = w <;> simp [hq, hc]

/-- A `Settled` state stays settled when a resource becomes free and nobody is woken: everybody
stays in place. -/
theorem Settled.vacate_none {s : State} (h : s.Settled) {r : ResourceId} {x : Resource}
    (hx : s.resources[r]? = some x) : (s.vacate r x none).Settled where
  ordered := h.ordered
  ready_nodup := h.ready_nodup
  waiters_nodup hy := by
    refine h.waiters_nodup_setResource (y := { x with owner := none }) hx ?_ hy
    exact h.waiters_nodup (x := x) hx
  mem_ready := h.mem_ready
  blocked_iff q := (h.blocked_iff q).trans (exists_congr fun _ => (waits_vacate_none hx).symm)
  waits_unique hw hw' :=
    h.waits_unique ((waits_vacate_none hx).1 hw) ((waits_vacate_none hx).1 hw')
  running_current := h.running_current
  current_busy := h.current_busy
  owner_live ho := h.owner_live ((owns_vacate hx none).1 ho).1
  owner_apart ho hw := h.owner_apart ((owns_vacate hx none).1 ho).1 ((waits_vacate_none hx).1 hw)

/-- A `Settled` state stays settled when a waiter is woken, as long as that is not the current
process: it leaves its only wait queue for the ready queue and becomes ready. -/
theorem Settled.vacate_some {s : State} (h : s.Settled) {r : ResourceId} {x : Resource}
    (hx : s.resources[r]? = some x) {w : Pid} (hw : w ∈ x.waiters) (hcur : s.current ≠ some w) :
    (s.vacate r x (some w)).Settled := by
  have hwaits : s.Waits w r := (waits_iff hx).2 hw
  have hblocked : s.status? w = some .blocked := h.status?_of_waits hwaits
  have hready : w ∉ s.ready := fun hm => by
    rw [(h.mem_ready w).1 hm] at hblocked
    cases hblocked
  exact {
    ordered := by
      change ((s.setResource r _).adjust w _).Ordered
      exact Ordered.adjust (s := s.setResource r _) h.ordered fun _ => rfl
    ready_nodup := by
      change (s.ready ++ [w]).Nodup
      rw [List.nodup_append]
      refine ⟨h.ready_nodup, List.nodup_singleton _, fun a ha b hb hab => ?_⟩
      rw [List.mem_singleton.1 hb] at hab
      exact hready (hab ▸ ha)
    waiters_nodup := fun hy =>
      h.waiters_nodup_setResource hx ((h.waiters_nodup hx).erase w) hy
    mem_ready := fun q => by
      rw [status?_vacate_some hblocked]
      change q ∈ s.ready ++ [w] ↔ _
      rw [List.mem_append, List.mem_singleton, h.mem_ready]
      by_cases hq : q = w <;> simp [hq]
    blocked_iff := fun q => by
      rw [status?_vacate_some hblocked]
      by_cases hq : q = w
      · rw [if_pos hq]
        refine ⟨fun hc => ?_, fun ⟨r', hw'⟩ => ?_⟩
        · cases hc
        · exact absurd hq ((waits_vacate_some h hx hw).1 hw').2
      · rw [if_neg hq, h.blocked_iff]
        refine exists_congr fun r' => ?_
        rw [waits_vacate_some h hx hw]
        exact (and_iff_left hq).symm
    waits_unique := fun h₁ h₂ =>
      h.waits_unique ((waits_vacate_some h hx hw).1 h₁).1 ((waits_vacate_some h hx hw).1 h₂).1
    running_current := fun {q} hrun => by
      rw [status?_vacate_some hblocked] at hrun
      by_cases hq : q = w
      · rw [if_pos hq] at hrun
        cases hrun
      · rw [if_neg hq] at hrun
        exact h.running_current hrun
    current_busy := fun {q} hq => by
      have hne : q ≠ w := fun he => hcur (he ▸ hq)
      rw [status?_vacate_some hblocked, if_neg hne]
      exact h.current_busy hq
    owner_live := fun {q r'} ho => by
      rw [status?_vacate_some hblocked]
      by_cases hq : q = w
      · rw [if_pos hq]
        exact Option.some_ne_none _
      · rw [if_neg hq]
        exact h.owner_live ((owns_vacate hx _).1 ho).1
    owner_apart := fun ho hw' =>
      h.owner_apart ((owns_vacate hx _).1 ho).1 ((waits_vacate_some h hx hw).1 hw').1 }

end State

end Uniprocessor
