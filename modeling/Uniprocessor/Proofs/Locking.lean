import Uniprocessor.Discipline
import Uniprocessor.Proofs.Inheriting

/-!
# The ways to hold resources, and the eight disciplines are lawful

A request of the current process either gives it the resource or parks it; a returned resource
becomes free and one of those who wait for it, if there are any, is woken. Under the ceiling and
under inheritance priorities change too, and nothing else does. With the ways to choose, this makes
every discipline a lawful policy (`Discipline.lawful`).
-/

namespace Uniprocessor

namespace State

open Narrated

variable {s : State} {pid : Pid} {r : ResourceId} {x : Resource}

/-! ## Asking -/

theorem Calls.caller_eq_ok (h : s.Calls pid r x) : s.caller = .ok pid := by
  rw [caller, h.current]

/-- A free resource is given to the caller: `ask` comes down to `give`. -/
theorem Calls.ask_free (h : s.Calls pid r x) (hx : x.owner = none) :
    (s.ask r).result = .ok (s.give r x pid, some pid) := by
  have hfree : x.isFree = true := by simp [Resource.isFree, hx]
  simp only [ask, result_bind, result_lift, h.caller_eq_ok, resource_eq_ok.2 h.entry, ok_bind,
    if_pos hfree, result_note]
  rfl

/-- A resource that is not free is refused: `ask` comes down to `park`. -/
theorem Calls.ask_held (h : s.Calls pid r x) {owner : Pid} (hx : x.owner = some owner) :
    (s.ask r).result = .ok (s.park r x pid, none) := by
  have hfree : ¬ x.isFree = true := by simp [Resource.isFree, hx]
  have hm : pid ∉ x.waiters := fun hm =>
    h.settled.not_waits_of_running h.running r ((waits_iff h.entry).2 hm)
  obtain ⟨p, hp⟩ := h.process?
  simp only [ask, result_bind, result_lift, h.caller_eq_ok, resource_eq_ok.2 h.entry, ok_bind,
    if_neg hfree, Queue.pushBack_eq_ok.2 ⟨hm, rfl⟩, setStatus]
  rw [revise_eq_ok (s := s.setResource r _) hp, ok_bind]
  rfl

/-- Without a ceiling or inheritance `give` is all that comes of asking for a free resource. -/
theorem Calls.acquirePlain_free (h : s.Calls pid r x) (hx : x.owner = none) :
    (s.acquirePlain r).result = .ok (s.give r x pid, true) := by
  rw [acquirePlain, result_bind, h.ask_free hx]
  rfl

/-- Without a ceiling or inheritance a refusal is all that comes of asking for a resource that is
owned. -/
theorem Calls.acquirePlain_held (h : s.Calls pid r x) {owner : Pid} (hx : x.owner = some owner) :
    (s.acquirePlain r).result = .ok (s.park r x pid, false) := by
  rw [acquirePlain, result_bind, h.ask_held hx]
  rfl

/-! ## Giving back -/

/-- The caller gives up what it owns by `surrender`, and nobody has been woken yet. -/
theorem Calls.surrender_eq_ok (h : s.Calls pid r x) (hx : x.owner = some pid) :
    s.surrender r = .ok (s.setResource r { x with owner := none }, pid) := by
  rw [surrender, h.caller_eq_ok, ok_bind, resource_eq_ok.2 h.entry, ok_bind, require, if_pos hx]
  rfl

/-- The woken process, if there is one, goes from the wait queue of the resource, whose entry is
`x`, to the tail of the ready queue. With giving up before it, this is `vacate`. -/
def woke (s : State) (r : ResourceId) (x : Resource) : Option Pid → State
  | none => s
  | some w =>
    { (s.setResource r { x with waiters := x.waiters.erase w }).adjust w
        (fun p => { p with status := .ready }) with ready := s.ready ++ [w] }

/-- A resource is given back by freeing it and waking somebody: `woke` after that is `vacate`. -/
theorem woke_setResource (s : State) (r : ResourceId) (x : Resource) (woken : Option Pid) :
    (s.setResource r { x with owner := none }).woke r { x with owner := none } woken =
      s.vacate r x woken := by
  cases woken with
  | none => rfl
  | some w => simp [woke, vacate, setResource, adjust]

/-- Everybody in the wait queue of `r`, whose entry is `x`, is blocked, and the ready queue holds
none of them. This is all that waking needs, and it holds where a state is not `Settled` any more or
again. -/
structure Wakeable (s : State) (r : ResourceId) (x : Resource) : Prop where
  /-- the resource exists -/
  entry : s.resources[r]? = some x
  /-- its waiters are blocked -/
  blocked : ∀ w ∈ x.waiters, s.status? w = some .blocked
  /-- its waiters are not in the ready queue -/
  apart : ∀ w ∈ x.waiters, w ∉ s.ready

theorem Wakeable.process? (h : s.Wakeable r x) {w : Pid} (hw : w ∈ x.waiters) :
    ∃ p, s.process? w = some p :=
  exists_process?_of_status? (h.blocked w hw)

/-- After the caller has given a resource up, the state is `Wakeable`: by `Settled` its waiters were
blocked, and still are. -/
theorem Calls.wakeable (h : s.Calls pid r x) :
    (s.setResource r { x with owner := none }).Wakeable r { x with owner := none } where
  entry := by rw [getElem?_setResource h.entry, if_pos rfl]
  blocked w hw := h.settled.status?_of_waits ((waits_iff h.entry).2 hw)
  apart w hw hm := h.settled.not_waits_of_ready ((h.settled.mem_ready w).1 hm) r
    ((waits_iff h.entry).2 hw)

theorem Wakeable.of_repriced {t : State} (h : s.Wakeable r x) (hr : s.Repriced t) :
    t.Wakeable r x where
  entry := by
    rw [hr.resources]
    exact h.entry
  blocked w hw := by
    rw [hr.status?]
    exact h.blocked w hw
  apart w hw := by
    rw [hr.ready]
    exact h.apart w hw

/-- In a `Wakeable` state a waiter who is chosen is woken, and without a choice nobody is. -/
theorem Wakeable.wakeChosen_eq_ok (h : s.Wakeable r x) {choice : Option Pid}
    (hc : ∀ w, choice = some w → w ∈ x.waiters) :
    (s.wakeChosen r choice).result = .ok (s.woke r x choice) := by
  cases choice with
  | none => rfl
  | some w =>
    have hw := hc w rfl
    obtain ⟨p, hp, hblocked⟩ := process?_of_status? (h.blocked w hw)
    have hready : w ∉ s.ready := h.apart w hw
    simp only [wakeChosen, wake, result_bind, result_lift, process_eq_ok.2 hp, ok_bind,
      resource_eq_ok.2 h.entry, require, if_pos hblocked, queueLast, setStatus]
    rw [revise_eq_ok (s := s.setResource r _) hp, ok_bind]
    change (Queue.pushBack s.ready w >>= _) >>= _ = _
    rw [Queue.pushBack_eq_ok.2 ⟨hready, rfl⟩]
    rfl

/-- In a `Wakeable` state `wakeFirst` wakes the head of the wait queue, unless nobody waits. -/
theorem Wakeable.wakeFirst_eq_ok (h : s.Wakeable r x) :
    (s.wakeFirst r).result = .ok (s.woke r x x.waiters.head?) := by
  rw [wakeFirst, result_bind, result_lift, resource_eq_ok.2 h.entry, ok_bind]
  exact h.wakeChosen_eq_ok fun w hw => List.mem_of_head? hw

/-- In a `Wakeable` state `wakeUrgent` wakes the `foremost` of the wait queue, unless nobody
waits. -/
theorem Wakeable.wakeUrgent_eq_ok (h : s.Wakeable r x) :
    (s.wakeUrgent r).result = .ok (s.woke r x (s.foremost x.waiters)) := by
  rw [wakeUrgent, result_bind, result_lift, resource_eq_ok.2 h.entry, ok_bind, result_bind,
    result_lift, findUrgent_eq_ok fun _ => h.process?, ok_bind]
  exact h.wakeChosen_eq_ok fun _ => mem_of_foremost

/-- Giving back under first come, first served comes down to `vacate` with the head of the wait
queue. -/
theorem Calls.releaseFirst_eq_ok (h : s.Calls pid r x) (hx : x.owner = some pid) :
    (s.releaseFirst r).result = .ok (s.vacate r x x.waiters.head?) := by
  rw [releaseFirst, result_bind, result_lift, h.surrender_eq_ok hx, ok_bind,
    h.wakeable.wakeFirst_eq_ok, woke_setResource]

/-- Giving back with priorities comes down to `vacate` with the `foremost` of the wait queue. -/
theorem Calls.releaseUrgent_eq_ok (h : s.Calls pid r x) (hx : x.owner = some pid) :
    (s.releaseUrgent r).result = .ok (s.vacate r x (s.foremost x.waiters)) := by
  rw [releaseUrgent, result_bind, result_lift, h.surrender_eq_ok hx, ok_bind,
    h.wakeable.wakeUrgent_eq_ok, woke_setResource]
  rfl

/-! ## The ceiling -/

/-- Under the ceiling a granted request is a `give`, and raises its caller to the ceiling. -/
theorem Calls.acquireCeiling_free (h : s.Calls pid r x) (hx : x.owner = none) :
    (s.acquireCeiling r).result = .ok ((s.give r x pid).reprice pid s.ceiling, true) := by
  obtain ⟨p, hp⟩ := h.process?
  rw [acquireCeiling, result_bind, h.ask_free hx, ok_bind]
  simp only [result_bind, result_lift]
  rw [setPrio_eq_ok (s := s.give r x pid) hp, ok_bind, result_note, ok_bind]
  rfl

/-- Under the ceiling a refused request is a `park`, as everywhere, and reprices nobody. -/
theorem Calls.acquireCeiling_held (h : s.Calls pid r x) {owner : Pid} (hx : x.owner = some owner) :
    (s.acquireCeiling r).result = .ok (s.park r x pid, false) := by
  rw [acquireCeiling, result_bind, h.ask_held hx]
  rfl

/-- Whether somebody is repriced before or after another one is woken by `woke` makes no difference
to the state. -/
theorem woke_reprice (s : State) (n : Nat) (woken : Option Pid) :
    (s.reprice pid n).woke r x woken = (s.woke r x woken).reprice pid n := by
  cases woken with
  | none => rfl
  | some w =>
    simp only [woke, reprice, adjust, setResource, List.map_map, State.mk.injEq, and_true]
    refine List.map_congr_left fun p _ => ?_
    by_cases hp : pid = p.pid <;> by_cases hw : w = p.pid <;> simp [hp, hw, eq_comm]

/-- Under the ceiling giving back is `vacate` and falling to the base priority; whom it wakes is
decided after the fall. -/
theorem Calls.releaseCeiling_eq_ok (h : s.Calls pid r x) (hx : x.owner = some pid) {p : Process}
    (hp : s.process? pid = some p) :
    (s.releaseCeiling r).result =
      .ok ((s.vacate r x ((s.reprice pid p.base).foremost x.waiters)).reprice pid p.base) := by
  have hr := (s.setResource r { x with owner := none }).repriced_reprice pid p.base
  have hok := (h.wakeable.of_repriced hr).wakeUrgent_eq_ok
  rw [woke_reprice, woke_setResource] at hok
  simp only [releaseCeiling, result_bind, result_lift, h.surrender_eq_ok hx, ok_bind, result_note]
  rw [(process_eq_ok (s := s.setResource r { x with owner := none })).2 hp, ok_bind,
    setPrio_eq_ok (s := s.setResource r { x with owner := none }) hp, ok_bind]
  exact hok

/-! ## Inheritance -/

/-- Under inheritance a granted request is a `give`, after which the new owner inherits from those
who still wait. -/
theorem Calls.acquireInheriting_free (h : s.Calls pid r x) (hx : x.owner = none) :
    ∃ t, ((s.give r x pid).inherit pid).result = .ok t ∧
      (s.acquireInheriting r).result = .ok (t, true) ∧ (s.give r x pid).Repriced t := by
  have hs : (s.give r x pid).Settled := h.settled.give h.entry h.running
  obtain ⟨t, ht, hr⟩ := hs.inherit_eq_ok h.process?
  refine ⟨t, ht, ?_, hr⟩
  rw [acquireInheriting, result_bind, h.ask_free hx, ok_bind]
  simp only [result_bind, ht, ok_bind]
  rfl

/-- Under inheritance a refused request is a `park`, after which the owner of what was refused
inherits. -/
theorem Calls.acquireInheriting_held (h : s.Calls pid r x) {owner : Pid}
    (hx : x.owner = some owner) (hne : owner ≠ pid) :
    ∃ t, ((s.park r x pid).inherit owner).result = .ok t ∧
      (s.acquireInheriting r).result = .ok (t, false) ∧ (s.park r x pid).Repriced t := by
  have hown : s.Owns owner r := (owns_iff h.entry).2 hx
  have hs : (s.park r x pid).Settled :=
    h.settled.park h.entry h.running fun ho => hne (hown.unique ho)
  have hentry : (s.park r x pid).resources[r]? =
      some { x with waiters := x.waiters ++ [pid] } := by
    change (s.setResource r _).resources[r]? = _
    rw [getElem?_setResource h.entry, if_pos rfl]
  obtain ⟨t, ht, hr⟩ := hs.inherit_eq_ok (hs.process?_of_owns ((owns_park h.entry).2 hown))
  refine ⟨t, ht, ?_, hr⟩
  rw [acquireInheriting, result_bind, h.ask_held hx, ok_bind]
  simp only [result_bind, result_lift, resource_eq_ok.2 hentry, ok_bind, hx, ht]
  rfl

/-- Under inheritance giving back is a `vacate`, after which the former owner loses what it
inherited through the resource. -/
theorem Calls.releaseInheriting_eq_ok (h : s.Calls pid r x) (hx : x.owner = some pid) :
    ∃ t, ((s.vacate r x (s.foremost x.waiters)).inherit pid).result = .ok t ∧
      (s.releaseInheriting r).result = .ok t ∧
      (s.vacate r x (s.foremost x.waiters)).Repriced t := by
  have hs : (s.vacate r x (s.foremost x.waiters)).Settled :=
    h.settled_vacate fun _ => mem_of_foremost
  have hlive : ∃ p, (s.vacate r x (s.foremost x.waiters)).process? pid = some p :=
    exists_process?_of_status? (h.status?_vacate fun _ => mem_of_foremost)
  obtain ⟨t, ht, hr⟩ := hs.inherit_eq_ok hlive
  refine ⟨t, ht, ?_, hr⟩
  rw [releaseInheriting, result_bind, result_lift, h.surrender_eq_ok hx, ok_bind, result_bind,
    h.wakeable.wakeUrgent_eq_ok, ok_bind, woke_setResource]
  exact ht

end State

/-! ## The eight disciplines -/

namespace Discipline

open Narrated State

variable {s : State} {pid : Pid} {r : ResourceId} {x : Resource}

/-- A ceiling of zero is no ceiling: the discipline refuses to be set up with it, and says why. -/
theorem setup_eq_error (d : Discipline) (hd : d = .ceiling) (hs : s.ceiling = 0) (memory : Memory) :
    d.setup memory s = .error (.config "priority ceiling requires max_prio > 0") := by
  rw [hd]
  exact if_pos hs

/-- Every discipline can be set up otherwise, and its `setup` changes nothing of the state. -/
theorem setup_eq_ok (d : Discipline) (h : ¬ (d = .ceiling ∧ s.ceiling = 0)) (memory : Memory) :
    ∃ memory', d.setup memory s = .ok (memory', s) := by
  cases d with
  | ceiling => exact ⟨memory, if_neg fun hs => h ⟨rfl, hs⟩⟩
  | aging => exact ⟨none, rfl⟩
  | _ => exact ⟨memory, rfl⟩

/-- In a `Settled` state every discipline makes a choice without a fault, and only aging reprices
anyone then. -/
theorem choose_eq_ok (d : Discipline) (memory : Memory) (h : s.Settled) :
    ∃ memory' t next, (d.choose memory s).result = .ok (memory', t, next) ∧ s.Chose t next ∧
      (d ≠ .aging → t.bid? = s.bid?) := by
  have hready : ∀ pid ∈ s.ready, ∃ p, s.process? pid = some p :=
    fun _ => h.process?_of_mem_ready
  -- A way to choose that takes no notes, and one that takes some.
  have quiet : ∀ {y : Except Fault (State × Option Pid)},
      (∃ t next, y = .ok (t, next) ∧ s.Chose t next ∧ t.bid? = s.bid?) →
      d.choose memory s = (do return (memory, ← y)) →
      ∃ memory' t next, (d.choose memory s).result = .ok (memory', t, next) ∧ s.Chose t next ∧
        (d ≠ .aging → t.bid? = s.bid?) := by
    rintro y ⟨t, next, hy, hchose, hbid⟩ hd
    refine ⟨memory, t, next, ?_, hchose, fun _ => hbid⟩
    rw [hd, result_bind, result_lift, hy]
    rfl
  have noted : ∀ {y : Narrated (State × Option Pid)},
      (∃ t next, y.result = .ok (t, next) ∧ s.Chose t next ∧ t.bid? = s.bid?) →
      d.choose memory s = (do return (memory, ← y)) →
      ∃ memory' t next, (d.choose memory s).result = .ok (memory', t, next) ∧ s.Chose t next ∧
        (d ≠ .aging → t.bid? = s.bid?) := by
    rintro y ⟨t, next, hy, hchose, hbid⟩ hd
    refine ⟨memory, t, next, ?_, hchose, fun _ => hbid⟩
    rw [hd, result_bind, hy]
    rfl
  have urgent : d.choose memory s = (do return (memory, ← s.preferUrgent)) →
      ∃ memory' t next, (d.choose memory s).result = .ok (memory', t, next) ∧ s.Chose t next ∧
        (d ≠ .aging → t.bid? = s.bid?) := by
    obtain ⟨t, next, hok, hchose, hbid, -⟩ := h.preferUrgent_chose
    exact noted ⟨t, next, hok, hchose, hbid⟩
  cases d with
  | fcfs => exact quiet (h.keepOr_chose ⟨_, _, rfl, took_takeHead s⟩) rfl
  | sjf =>
    obtain ⟨t, htake⟩ := takeMin_eq_ok hready Process.lifespan
    exact quiet (h.keepOr_chose ⟨t, _, htake⟩) rfl
  | stcf => exact noted h.preferShorter_chose rfl
  | roundRobin =>
    obtain ⟨t, next, hok, hchose, hbid⟩ :=
      h.yieldTail_chose fun s _ => ⟨_, _, rfl, took_takeHead s⟩
    refine ⟨memory, t, next, ?_, hchose, fun _ => hbid⟩
    rw [h.yieldTail_eq_ok, ok_bind] at hok
    rw [choose, result_bind, result_lift, h.yieldTail_eq_ok, ok_bind, ← Except.ok.inj hok]
    rfl
  | priority => exact urgent rfl
  | aging =>
    obtain ⟨memory', t, next, hok, hchose⟩ := h.preferAged_chose memory
    exact ⟨memory', t, next, hok, hchose, fun hd => absurd rfl hd⟩
  | ceiling =>
    obtain ⟨t, next, hok, hchose, hbid⟩ := h.yieldTail_chose fun s hs =>
      let ⟨t, ht⟩ := takeUrgent_eq_ok hs
      ⟨t, _, ht⟩
    refine ⟨memory, t, next, ?_, hchose, fun _ => hbid⟩
    rw [h.yieldTail_eq_ok, ok_bind] at hok
    rw [choose, result_bind, result_lift, h.yieldTail_eq_ok, ok_bind, result_bind, result_lift, hok]
    rfl
  | inheritance => exact urgent rfl

/-- Every discipline grants a free resource: its `acquire` is a `give`, up to priorities. -/
theorem acquire_free_eq_ok (d : Discipline) (h : s.Calls pid r x) (hx : x.owner = none) :
    ∃ t, (d.acquire s r).result = .ok (t, true) ∧ (s.give r x pid).Repriced t := by
  cases d with
  | ceiling => exact ⟨_, h.acquireCeiling_free hx, repriced_reprice _ _ _⟩
  | inheritance =>
    obtain ⟨t, -, hok, hr⟩ := h.acquireInheriting_free hx
    exact ⟨t, hok, hr⟩
  | _ => exact ⟨_, h.acquirePlain_free hx, .refl _⟩

/-- Every discipline refuses a resource that somebody else owns: its `acquire` is a `park`, up to
priorities. -/
theorem acquire_held_eq_ok (d : Discipline) (h : s.Calls pid r x) {owner : Pid}
    (hx : x.owner = some owner) (hne : owner ≠ pid) :
    ∃ t, (d.acquire s r).result = .ok (t, false) ∧ (s.park r x pid).Repriced t := by
  cases d with
  | ceiling => exact ⟨_, h.acquireCeiling_held hx, .refl _⟩
  | inheritance =>
    obtain ⟨t, -, hok, hr⟩ := h.acquireInheriting_held hx hne
    exact ⟨t, hok, hr⟩
  | _ => exact ⟨_, h.acquirePlain_held hx, .refl _⟩

/-- Every discipline takes a resource back and wakes somebody, unless nobody waits: its `release` is
a `vacate`, up to priorities. -/
theorem release_eq_ok (d : Discipline) (h : s.Calls pid r x) (hx : x.owner = some pid) :
    ∃ t woken, (d.release s r).result = .ok t ∧ (s.vacate r x woken).Repriced t ∧
      (woken = none ↔ x.waiters = []) ∧ ∀ w, woken = some w → w ∈ x.waiters := by
  have first : ∃ t woken, (s.releaseFirst r).result = .ok t ∧ (s.vacate r x woken).Repriced t ∧
      (woken = none ↔ x.waiters = []) ∧ ∀ w, woken = some w → w ∈ x.waiters :=
    ⟨_, _, h.releaseFirst_eq_ok hx, .refl _, List.head?_eq_none_iff,
      fun _ hw => List.mem_of_head? hw⟩
  have urgent : ∃ t woken, (s.releaseUrgent r).result = .ok t ∧ (s.vacate r x woken).Repriced t ∧
      (woken = none ↔ x.waiters = []) ∧ ∀ w, woken = some w → w ∈ x.waiters :=
    ⟨_, _, h.releaseUrgent_eq_ok hx, .refl _, foremost_eq_none, fun _ => mem_of_foremost⟩
  cases d with
  | priority => exact urgent
  | aging => exact urgent
  | ceiling =>
    obtain ⟨p, hp⟩ := h.process?
    exact ⟨_, _, h.releaseCeiling_eq_ok hx hp, repriced_reprice _ _ _, foremost_eq_none,
      fun _ => mem_of_foremost⟩
  | inheritance =>
    obtain ⟨t, -, hok, hr⟩ := h.releaseInheriting_eq_ok hx
    exact ⟨t, _, hok, hr, foremost_eq_none, fun _ => mem_of_foremost⟩
  | _ => exact first

/-- Each of the eight disciplines is a lawful policy, so all that is proved of runs under a lawful
policy holds of each. -/
theorem lawful (d : Discipline) : d.policy.Lawful where
  setup memory s := by
    by_cases hc : d = .ceiling ∧ s.ceiling = 0
    · exact Or.inl ⟨_, congrArg Except.ok (d.setup_eq_error hc.1 hc.2 memory)⟩
    · obtain ⟨memory', hm⟩ := d.setup_eq_ok hc memory
      exact Or.inr ⟨memory', congrArg Except.ok hm⟩
  choose memory s h := by
    obtain ⟨memory', t, next, hok, hchose, -⟩ := d.choose_eq_ok memory h
    exact ⟨memory', t, next, hok, hchose⟩
  acquire_free memory s pid r x h hx := by
    obtain ⟨t, hok, hr⟩ := d.acquire_free_eq_ok h hx
    refine ⟨memory, t, ?_, hr⟩
    simp only [policy, result_bind, hok, ok_bind]
    rfl
  acquire_held memory s pid owner r x h hx hne := by
    obtain ⟨t, hok, hr⟩ := d.acquire_held_eq_ok h hx hne
    refine ⟨memory, t, ?_, hr⟩
    simp only [policy, result_bind, hok, ok_bind]
    rfl
  release memory s pid r x h hx := by
    obtain ⟨t, woken, hok, hr, hwoken⟩ := d.release_eq_ok h hx
    refine ⟨memory, t, woken, ?_, hr, hwoken⟩
    simp only [policy, result_bind, hok, ok_bind]
    rfl
  arrived memory s _ := ⟨memory, rfl⟩
  finish memory s := ⟨memory, rfl⟩

end Discipline

end Uniprocessor
