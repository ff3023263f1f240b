import Uniprocessor.Proofs.Table

/-!
# Settled states

A state is settled when every live process is in the one place that its status names: the ready
queue, the wait queue of one resource, or the processor. This is the partition that every operation
of a run keeps, except between a policy's choice and the switch that carries it out.

The operations themselves are given here as plain functions of a state (`give`, `park`, `vacate`):
what happens when a request is granted, when it is refused, and when a resource is given back.
A state stays settled under each of them, when a process joins, and whenever only ages, priorities
or the clock move.
-/

namespace Uniprocessor

namespace State

/-- Every live process is in the one place that its status names: the ready queue, one wait queue,
or the processor. Every move of a run keeps this, and `State.Checked` decides it. -/
structure Settled (s : State) : Prop where
  /-- the process table is in order -/
  ordered : s.Ordered
  /-- nobody is in the ready queue twice -/
  ready_nodup : s.ready.Nodup
  /-- nobody is in a wait queue twice -/
  waiters_nodup : ∀ {r : ResourceId} {x : Resource}, s.resources[r]? = some x → x.waiters.Nodup
  /-- the ready queue holds the ready processes, and nobody else -/
  mem_ready : ∀ pid, pid ∈ s.ready ↔ s.status? pid = some .ready
  /-- the wait queues hold the blocked processes, and nobody else -/
  blocked_iff : ∀ pid, s.status? pid = some .blocked ↔ ∃ r, s.Waits pid r
  /-- nobody is in two wait queues -/
  waits_unique : ∀ {pid : Pid} {r q : ResourceId}, s.Waits pid r → s.Waits pid q → r = q
  /-- a process that executes is the current one -/
  running_current : ∀ {pid : Pid}, s.status? pid = some .running → s.current = some pid
  /-- the current process executes or is blocked -/
  current_busy : ∀ {pid : Pid}, s.current = some pid →
    s.status? pid = some .running ∨ s.status? pid = some .blocked
  /-- owners are live -/
  owner_live : ∀ {pid : Pid} {r : ResourceId}, s.Owns pid r → s.status? pid ≠ none
  /-- owners do not wait for what they own -/
  owner_apart : ∀ {pid : Pid} {r : ResourceId}, s.Owns pid r → ¬ s.Waits pid r

/-! ## Consequences -/

/-- By `Settled.blocked_iff` whoever is in a wait queue is blocked, so a process that executes is in
none. -/
theorem Settled.not_waits_of_running {s : State} (h : s.Settled) {pid : Pid}
    (hp : s.status? pid = some .running) (r : ResourceId) : ¬ s.Waits pid r := by
  intro hw
  rw [(h.blocked_iff pid).2 ⟨r, hw⟩] at hp
  cases hp

/-- Two processes that execute are one, since only the current one does. -/
theorem Settled.eq_of_running {s : State} (h : s.Settled) {pid q : Pid}
    (hp : s.status? pid = some .running) (hq : s.status? q = some .running) : pid = q := by
  have hcur := h.running_current hp
  rw [h.running_current hq] at hcur
  exact (Option.some.inj hcur).symm

theorem Settled.not_waits_of_ready {s : State} (h : s.Settled) {pid : Pid}
    (hp : s.status? pid = some .ready) (r : ResourceId) : ¬ s.Waits pid r := by
  intro hw
  rw [(h.blocked_iff pid).2 ⟨r, hw⟩] at hp
  cases hp

theorem Settled.not_mem_ready_of_running {s : State} (h : s.Settled) {pid : Pid}
    (hp : s.status? pid = some .running) : pid ∉ s.ready := by
  intro hm
  rw [(h.mem_ready pid).1 hm] at hp
  cases hp

/-- Whoever `Waits` is live and blocked. This is `Settled.blocked_iff` read from right to left. -/
theorem Settled.status?_of_waits {s : State} (h : s.Settled) {pid : Pid} {r : ResourceId}
    (hw : s.Waits pid r) : s.status? pid = some .blocked := (h.blocked_iff pid).2 ⟨r, hw⟩

/-- Everyone in the ready queue is live, since by `Settled.mem_ready` it has the status `ready`. -/
theorem Settled.process?_of_mem_ready {s : State} (h : s.Settled) {pid : Pid}
    (hp : pid ∈ s.ready) : ∃ p, s.process? pid = some p :=
  exists_process?_of_status? ((h.mem_ready pid).1 hp)

/-- Everyone in a wait queue is live, since by `Settled.blocked_iff` it has the status `blocked`. -/
theorem Settled.process?_of_waits {s : State} (h : s.Settled) {pid : Pid} {r : ResourceId}
    (hw : s.Waits pid r) : ∃ p, s.process? pid = some p :=
  exists_process?_of_status? (h.status?_of_waits hw)

/-- The current process is live, since by `Settled.current_busy` it executes or is blocked. -/
theorem Settled.process?_of_current {s : State} (h : s.Settled) {pid : Pid}
    (hc : s.current = some pid) : ∃ p, s.process? pid = some p := by
  rcases h.current_busy hc with hb | hb
  · exact exists_process?_of_status? hb
  · exact exists_process?_of_status? hb

/-- An owner is live in a `Settled` state, so a process that leaves must have given back all that it
owns. -/
theorem Settled.process?_of_owns {s : State} (h : s.Settled) {pid : Pid} {r : ResourceId}
    (ho : s.Owns pid r) : ∃ p, s.process? pid = some p := by
  obtain ⟨c, hc⟩ := Option.ne_none_iff_exists'.1 (h.owner_live ho)
  exact exists_process?_of_status? hc

/-! ## What settledness depends on -/

/-- The live processes with their statuses. All that `State.Settled` asks of the process table is
decided by them, whatever the ages and priorities. -/
def places (s : State) : List (Pid × Status) := s.procs.map fun p => (p.pid, p.status)

theorem map_fst_places (s : State) : s.places.map Prod.fst = s.procs.map Process.pid := by
  rw [places, List.map_map]
  rfl

theorem status?_eq_places (s : State) (pid : Pid) :
    s.status? pid = (s.places.find? fun e => decide (e.1 = pid)).map Prod.snd := by
  rw [status?, process?, places, List.find?_map, Option.map_map]
  rfl

theorem status?_of_places {s t : State} (h : t.places = s.places) (pid : Pid) :
    t.status? pid = s.status? pid := by
  rw [status?_eq_places, status?_eq_places, h]

/-- Being `Settled` depends on `places`, the ready queue, the resource table and the current
process, and on nothing else. So ages, priorities and the clock may move freely. -/
theorem Settled.congr {s t : State} (h : s.Settled) (hp : t.places = s.places)
    (hr : t.ready = s.ready) (hx : t.resources = s.resources) (hc : t.current = s.current) :
    t.Settled where
  ordered := by
    rw [Ordered, ← map_fst_places, hp, map_fst_places]
    exact h.ordered
  ready_nodup := hr ▸ h.ready_nodup
  waiters_nodup hrx := h.waiters_nodup (hx ▸ hrx)
  mem_ready pid := by
    rw [hr, status?_of_places hp]
    exact h.mem_ready pid
  blocked_iff pid := by
    rw [status?_of_places hp, h.blocked_iff]
    exact exists_congr fun r => (waits_congr hx).symm
  waits_unique hw hq := h.waits_unique ((waits_congr hx).1 hw) ((waits_congr hx).1 hq)
  running_current hrun := by
    rw [status?_of_places hp] at hrun
    rw [hc]
    exact h.running_current hrun
  current_busy hcur := by
    rw [status?_of_places hp]
    exact h.current_busy (hc ▸ hcur)
  owner_live ho := by
    rw [status?_of_places hp]
    exact h.owner_live ((owns_congr hx).1 ho)
  owner_apart ho hw := h.owner_apart ((owns_congr hx).1 ho) ((waits_congr hx).1 hw)

/-- A change by `adjust` that keeps the number and the status of a record keeps all `places`. -/
theorem places_adjust {s : State} {pid : Pid} {f : Process → Process}
    (hf : ∀ p, (f p).pid = p.pid) (hs : ∀ p, (f p).status = p.status) :
    (s.adjust pid f).places = s.places := by
  rw [places, places, adjust, List.map_map]
  refine List.map_congr_left fun p _ => ?_
  by_cases h : p.pid = pid <;> simp [h, hf, hs]

theorem places_adjust_age (s : State) (pid : Pid) (n : Nat) :
    (s.adjust pid fun p => { p with age := n }).places = s.places :=
  places_adjust (f := fun p => { p with age := n }) (fun _ => rfl) fun _ => rfl

/-! ## The first state, and newcomers -/

section Empty

variable {n ceiling : Nat} {pid : Pid} {r : ResourceId} {x : Resource}

/-- In an empty state every resource is as it is made, without an owner or waiters. -/
theorem eq_of_getElem?_empty (hx : (empty n ceiling).resources[r]? = some x) : x = {} :=
  List.eq_of_mem_replicate (List.mem_of_getElem? hx)

theorem not_owns_empty : ¬ (empty n ceiling).Owns pid r := by
  rintro ⟨x, hx, ho⟩
  rw [eq_of_getElem?_empty hx] at ho
  cases ho

theorem not_waits_empty : ¬ (empty n ceiling).Waits pid r := by
  rintro ⟨x, hx, hw⟩
  rw [eq_of_getElem?_empty hx] at hw
  cases hw

/-- The empty state is `Settled`: without processes there is nobody to be misplaced, and no resource
has an owner or a wait queue. -/
theorem settled_empty (n ceiling : Nat) : (empty n ceiling).Settled where
  ordered := List.Pairwise.nil
  ready_nodup := List.nodup_nil
  waiters_nodup hx := by rw [eq_of_getElem?_empty hx]; exact List.nodup_nil
  mem_ready pid := by simp [empty, status?, process?]
  blocked_iff pid :=
    ⟨fun h => by simp [empty, status?, process?] at h, fun ⟨r, h⟩ => absurd h not_waits_empty⟩
  waits_unique h := absurd h not_waits_empty
  running_current h := by simp [empty, status?, process?] at h
  current_busy h := by cases h
  owner_live h := absurd h not_owns_empty
  owner_apart h := absurd h not_owns_empty

end Empty

/-- The state with a newcomer, who is ready and behind all others in the queue. This is `enroll`
where that succeeds (`Settled.enroll_eq_ok`). -/
def joined (s : State) (p : Process) : State :=
  { s with procs := insertByPid { p with status := .ready } s.procs, ready := s.ready ++ [p.pid] }

theorem process?_joined {s : State} {p : Process} (hp : s.process? p.pid = none) (q : Pid) :
    (s.joined p).process? q =
      if q = p.pid then some { p with status := .ready } else s.process? q :=
  find?_insertByPid (p := { p with status := .ready }) (process?_eq_none.1 hp) q

theorem status?_joined {s : State} {p : Process} (hp : s.process? p.pid = none) (q : Pid) :
    (s.joined p).status? q = if q = p.pid then some .ready else s.status? q := by
  rw [status?, process?_joined hp]
  by_cases hq : q = p.pid <;> simp [hq, status?]

/-- Whoever was live before the newcomer `joined` keeps its status. -/
theorem status?_joined_of_live {s : State} {p : Process} (hp : s.process? p.pid = none) {q : Pid}
    {c : Status} (hq : s.status? q = some c) : (s.joined p).status? q = some c := by
  rw [status?_joined hp, if_neg, hq]
  rintro rfl
  rw [status?, hp] at hq
  cases hq

/-- Who is not live is not in the ready queue of a `Settled` state, so `enroll` succeeds for a
newcomer and comes down to `joined`. -/
theorem Settled.enroll_eq_ok {s : State} (h : s.Settled) {p : Process}
    (hp : s.process? p.pid = none) : s.enroll p = .ok (s.joined p) := by
  have hready : p.pid ∉ s.ready := by
    intro hm
    obtain ⟨q, hq⟩ := h.process?_of_mem_ready hm
    rw [hp] at hq
    cases hq
  rw [enroll, require, if_pos hp, ok_bind, Queue.pushBack_eq_ok.2 ⟨hready, rfl⟩]
  rfl

/-- A state stays `Settled` when a process joins it whose number is not live yet: the newcomer is
ready and in the ready queue. -/
theorem Settled.joined {s : State} (h : s.Settled) {p : Process}
    (hp : s.process? p.pid = none) : (s.joined p).Settled := by
  have hst : s.status? p.pid = none := by rw [status?, hp]; rfl
  have hready : p.pid ∉ s.ready := fun hm => by
    rw [(h.mem_ready _).1 hm] at hst
    cases hst
  have hwaits : ∀ r, ¬ s.Waits p.pid r := fun r hw => by
    rw [h.status?_of_waits hw] at hst
    cases hst
  exact {
    ordered := pairwise_insertByPid (process?_eq_none.1 hp) h.ordered
    ready_nodup := by
      rw [State.joined, List.nodup_append]
      refine ⟨h.ready_nodup, List.nodup_singleton _, fun a ha b hb hab => ?_⟩
      rw [List.mem_singleton.1 hb] at hab
      exact hready (hab ▸ ha)
    waiters_nodup := h.waiters_nodup
    mem_ready := fun pid => by
      rw [status?_joined hp, State.joined, List.mem_append, List.mem_singleton, h.mem_ready]
      by_cases hq : pid = p.pid <;> simp [hq, hst]
    blocked_iff := fun pid => by
      rw [status?_joined hp]
      by_cases hq : pid = p.pid
      · subst hq
        rw [if_pos rfl]
        constructor
        · intro hc
          cases hc
        · rintro ⟨r, hw⟩
          exact absurd hw (hwaits r)
      · rw [if_neg hq]
        exact h.blocked_iff pid
    waits_unique := h.waits_unique
    running_current := fun {pid} hrun => by
      rw [status?_joined hp] at hrun
      by_cases hq : pid = p.pid
      · rw [if_pos hq] at hrun
        cases hrun
      · rw [if_neg hq] at hrun
        exact h.running_current hrun
    current_busy := fun {pid} hcur => by
      have hbusy := h.current_busy hcur
      have hq : pid ≠ p.pid := by
        rintro rfl
        rw [hst] at hbusy
        rcases hbusy with hb | hb <;> cases hb
      rw [status?_joined hp, if_neg hq]
      exact hbusy
    owner_live := fun {pid r} ho => by
      rw [status?_joined hp]
      by_cases hq : pid = p.pid
      · rw [if_pos hq]
        exact Option.some_ne_none _
      · rw [if_neg hq]
        exact h.owner_live ho
    owner_apart := h.owner_apart }

end State

end Uniprocessor
