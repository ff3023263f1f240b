import Uniprocessor.Proofs.Choice

/-!
# Lawful policies

What the machine needs of a policy, in any settled state: the policy answers without a fault, its
choices lose and double nobody, it grants a request exactly if the resource is free and otherwise
blocks the caller, a returned resource becomes free and one waiter is woken if there is any, and
nothing but priorities changes besides. A run under a lawful policy keeps all its promises; the
modules on choosing and on holding resources show that each of the eight disciplines is lawful.
-/

namespace Uniprocessor

/-- The current process, which executes, calls the policy about a resource that exists and has the
entry `x`. Requests and returns are made in such states only. -/
structure State.Calls (s : State) (pid : Pid) (r : ResourceId) (x : Resource) : Prop where
  /-- every process is in its place -/
  settled : s.Settled
  /-- the caller is current -/
  current : s.current = some pid
  /-- the caller executes -/
  running : s.status? pid = some .running
  /-- the resource exists -/
  entry : s.resources[r]? = some x

namespace State

variable {s : State} {pid : Pid} {r : ResourceId} {x : Resource}

theorem Calls.process? (h : s.Calls pid r x) : ∃ p, s.process? pid = some p :=
  exists_process?_of_status? h.running

/-- A `Settled` state stays settled when the caller gives a resource back and one of its waiters is
woken: the caller executes, so it is not among those who wait. -/
theorem Calls.settled_vacate (h : s.Calls pid r x) {woken : Option Pid}
    (hw : ∀ w, woken = some w → w ∈ x.waiters) : (s.vacate r x woken).Settled := by
  cases woken with
  | none => exact h.settled.vacate_none h.entry
  | some w =>
    refine h.settled.vacate_some h.entry (hw w rfl) fun hcur => ?_
    rw [h.current] at hcur
    cases hcur
    exact h.settled.not_waits_of_running h.running r ((waits_iff h.entry).2 (hw _ rfl))

/-- Whoever calls goes on executing after `vacate`, since a process that is woken was blocked before
and so is another one. -/
theorem Calls.status?_vacate (h : s.Calls pid r x) {woken : Option Pid}
    (hw : ∀ w, woken = some w → w ∈ x.waiters) :
    (s.vacate r x woken).status? pid = some .running := by
  cases woken with
  | none => exact h.running
  | some w =>
    have hwaits : s.Waits w r := (waits_iff h.entry).2 (hw w rfl)
    rw [status?_vacate_some (h.settled.status?_of_waits hwaits), if_neg, h.running]
    rintro rfl
    exact h.settled.not_waits_of_running h.running r hwaits

/-- Where nobody waits for the resource, nobody is woken when it is given back. -/
theorem Calls.woken_eq_none (h : s.Calls pid r x) {woken : Option Pid}
    (hwaits : ∀ w, ¬ s.Waits w r) (hwoken : ∀ w, woken = some w → w ∈ x.waiters) :
    woken = none := by
  apply Option.eq_none_iff_forall_ne_some.2
  intro w hw
  exact hwaits w ((waits_iff h.entry).2 (hwoken w hw))

/-- Whoever calls about a resource that somebody else owns does not own it, since a resource has one
owner (`Owns.unique`). This is when a request is refused. -/
theorem Calls.not_owns (h : s.Calls pid r x) {owner : Pid} (hx : x.owner = some owner)
    (hne : owner ≠ pid) : ¬ s.Owns pid r := by
  intro ho
  exact hne (((owns_iff h.entry).2 hx).unique ho)

end State

/-- What the machine needs of a policy, in any `Settled` state: it answers without a fault, its
choices are `Chose`, and its answers to requests and returns are the moves `give`, `park` and
`vacate` up to `Repriced`. All eight disciplines are lawful (`Discipline.lawful`). -/
structure Policy.Lawful {σ : Type} (P : Policy σ) : Prop where
  /-- setting the policy up changes nothing, or fails -/
  setup : ∀ (memory : σ) (s : State), (∃ e, (P.setup memory s).result = .ok (.error e)) ∨
    ∃ memory', (P.setup memory s).result = .ok (.ok (memory', s))
  /-- every question is answered by a choice -/
  choose : ∀ (memory : σ) {s : State}, s.Settled →
    ∃ memory' t next, (P.choose memory s).result = .ok (memory', t, next) ∧ s.Chose t next
  /-- a free resource is granted -/
  acquire_free : ∀ (memory : σ) {s : State} {pid : Pid} {r : ResourceId} {x : Resource},
    s.Calls pid r x → x.owner = none →
    ∃ memory' t, (P.acquire memory s r).result = .ok (memory', t, true) ∧
      (s.give r x pid).Repriced t
  /-- a resource that somebody else owns is refused -/
  acquire_held : ∀ (memory : σ) {s : State} {pid owner : Pid} {r : ResourceId} {x : Resource},
    s.Calls pid r x → x.owner = some owner → owner ≠ pid →
    ∃ memory' t, (P.acquire memory s r).result = .ok (memory', t, false) ∧
      (s.park r x pid).Repriced t
  /-- a resource that the caller owns becomes free, and one waiter is woken if there is any -/
  release : ∀ (memory : σ) {s : State} {pid : Pid} {r : ResourceId} {x : Resource},
    s.Calls pid r x → x.owner = some pid →
    ∃ memory' t woken, (P.release memory s r).result = .ok (memory', t) ∧
      (s.vacate r x woken).Repriced t ∧ (woken = none ↔ x.waiters = []) ∧
      ∀ w, woken = some w → w ∈ x.waiters
  /-- news of an arrival changes nothing -/
  arrived : ∀ (memory : σ) (s : State) (pid : Pid),
    ∃ memory', (P.arrived memory s pid).result = .ok (memory', s)
  /-- the end of a run changes nothing -/
  finish : ∀ (memory : σ) (s : State), ∃ memory', (P.finish memory s).result = .ok (memory', s)

end Uniprocessor
