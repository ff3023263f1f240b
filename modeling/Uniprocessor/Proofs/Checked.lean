import Uniprocessor.Proofs.Partition

/-!
# States that pass the check of the partition

The check of the partition (`State.violation`) looks at the places of the processes, and it passes
exactly in the states that are partitioned as declared (`violation_eq_none_iff_partitioned`). It
does not ask whether a queue holds a process twice, and it does not ask what the current process is
doing. With these two questions answered as well (`State.Checked`), a state that passes the check is
settled (`Checked.settled`), and every settled state is one of them: the check misses nothing else.
-/

namespace Uniprocessor

namespace State

/-- The check `State.violation` finds nothing, and the two things that it does not look at are in
order too: the queues hold nobody twice, and the current process is busy. It says the same as
`State.Settled` (`checked_iff_settled`). -/
structure Checked (s : State) : Prop where
  /-- the process table is in order -/
  ordered : s.Ordered
  /-- the check finds no breach -/
  clean : s.violation = none
  /-- nobody is in the ready queue twice -/
  ready_nodup : s.ready.Nodup
  /-- nobody is in a wait queue twice -/
  waiters_nodup : ∀ x ∈ s.resources, x.waiters.Nodup
  /-- the current process, if there is one, is live and executes or is blocked -/
  current_busy : ∀ {pid : Pid}, s.current = some pid →
    s.status? pid = some .running ∨ s.status? pid = some .blocked

variable {s : State}

/-- The check `violation` finds nothing exactly if its four parts find nothing: who executes, where
each process is, whether owners and waiters are live, and whether the ready are. -/
theorem violation_eq_none : s.violation = none ↔
    s.runningViolation = none ∧ (∀ p ∈ s.procs, s.placeViolation p = none) ∧
      (∀ r x, s.resources[r]? = some x →
        s.ownerViolation r x = none ∧ ∀ pid ∈ x.waiters, ∃ p, s.process? pid = some p) ∧
      ∀ pid ∈ s.ready, ∃ p, s.process? pid = some p := by
  simp only [violation, Option.or_eq_none_iff, Option.map_eq_none_iff, List.findSome?_eq_none_iff,
    resourceViolation_eq_none, firstDead_eq_none, Nat.zero_add]

/-! ## What each part of the check says -/

/-- The part of the check about the processes that execute passes exactly if there is one of them at
most, and it is the current process. -/
theorem runningViolation_eq_none : s.runningViolation = none ↔
    (s.procs.countP fun p => p.status = .running) ≤ 1 ∧
      ∀ p ∈ s.procs, p.status = .running → s.current = some p.pid := by
  have hcount : (s.procs.countP fun p => p.status = .running) = s.runningPids.length := by
    rw [runningPids, List.length_map, List.countP_eq_length_filter]
  have hcurrent : (∀ p ∈ s.procs, p.status = .running → s.current = some p.pid) ↔
      ∀ pid ∈ s.runningPids, s.current = some pid := by
    simp only [runningPids, List.forall_mem_map, List.mem_filter, decide_eq_true_eq, and_imp]
  rw [hcount, hcurrent, runningViolation]
  rcases s.runningPids with _ | ⟨p, _ | ⟨q, rest⟩⟩ <;> simp

/-- The part of the check about one process passes exactly if it is in the ready queue just when it
is `ready`, and counted in one wait queue just when it is `blocked`, and otherwise in none. -/
theorem placeViolation_eq_none {p : Process} : s.placeViolation p = none ↔
    (p.pid ∈ s.ready ↔ p.status = .ready) ∧
      s.waitCount p.pid = if p.status = .blocked then 1 else 0 := by
  rw [placeViolation]
  by_cases hready : p.pid ∈ s.ready <;> cases p.status <;>
    simp only [hready, if_true, if_false, reduceCtorEq] <;>
    split_ifs <;> simp_all

/-- Where at most one place of a list holds what is counted, two places that hold it are one. This
turns the counts of `waitCount` into facts about `Waits`. -/
theorem index_eq_of_countP_le_one {α : Type} {f : α → Bool} {l : List α} (h : l.countP f ≤ 1)
    {i j : Nat} {a b : α} (ha : l[i]? = some a) (hfa : f a = true) (hb : l[j]? = some b)
    (hfb : f b = true) : i = j := by
  induction l generalizing i j with
  | nil => cases ha
  | cons x rest ih =>
    have hpos : ∀ {k : Nat} {c : α}, rest[k]? = some c → f c = true → 0 < rest.countP f :=
      fun hc hfc => List.countP_pos_iff.2 ⟨_, List.mem_of_getElem? hc, hfc⟩
    rw [List.countP_cons] at h
    cases i with
    | zero =>
      cases j with
      | zero => rfl
      | succ j =>
        cases ha
        have := hpos hb hfb
        rw [if_pos hfa] at h
        omega
    | succ i =>
      cases j with
      | zero =>
        cases hb
        have := hpos ha hfa
        rw [if_pos hfb] at h
        omega
      | succ j => exact congrArg Nat.succ (ih (by omega) ha hb)

/-- Who is counted in one wait queue at most by `waitCount` is in one wait queue at most, which is
`Settled.waits_unique`. -/
theorem waits_unique_of_waitCount {pid : Pid} (h : s.waitCount pid ≤ 1) {r q : ResourceId}
    (hr : s.Waits pid r) (hq : s.Waits pid q) : r = q := by
  obtain ⟨x, hx, hmx⟩ := hr
  obtain ⟨y, hy, hmy⟩ := hq
  exact index_eq_of_countP_le_one h hx (by simpa using hmx) hy (by simpa using hmy)

/-- Who is counted in a wait queue by `waitCount` is in one, and the other way round. -/
theorem waitCount_ne_zero {pid : Pid} : s.waitCount pid ≠ 0 ↔ ∃ r, s.Waits pid r := by
  rw [← Nat.pos_iff_ne_zero, waitCount, List.countP_pos_iff]
  constructor
  · rintro ⟨x, hx, hm⟩
    obtain ⟨r, hr⟩ := List.mem_iff_getElem?.1 hx
    exact ⟨r, x, hr, by simpa using hm⟩
  · rintro ⟨r, x, hx, hm⟩
    exact ⟨x, List.mem_of_getElem? hx, by simpa using hm⟩

/-- Whoever is counted in exactly one wait queue by `waitCount` waits for exactly one resource. -/
theorem waitCount_eq_one {pid : Pid} : s.waitCount pid = 1 ↔ ∃! r, s.Waits pid r := by
  constructor
  · intro h
    obtain ⟨r, hr⟩ := waitCount_ne_zero.1 (h.trans_ne Nat.one_ne_zero)
    exact ⟨r, hr, fun q hq => waits_unique_of_waitCount (Nat.le_of_eq h) hq hr⟩
  · rintro ⟨r, ⟨x, hx, hm⟩, hunique⟩
    exact countP_eq_one hx (by simpa using hm) fun hy hmem =>
      hunique _ ⟨_, hy, by simpa using hmem⟩

/-- The part of the check about an owner passes exactly if the owner is live, does not wait for what
it owns, and waits for something if it is blocked. -/
theorem ownerViolation_eq_none {r : ResourceId} {x : Resource} : s.ownerViolation r x = none ↔
    ∀ owner, x.owner = some owner → ∃ p, s.process? owner = some p ∧
      (p.status = .blocked → s.awaited owner ≠ none) ∧ owner ∉ x.waiters := by
  rw [ownerViolation]
  rcases x.owner with _ | owner
  · simp
  · cases hp : s.process? owner with
    | none => simp [hp]
    | some p =>
      simp only [Option.some.injEq, forall_eq', hp, exists_eq_left', ← Process.isBlocked_iff]
      split_ifs <;> simp_all

/-! ## The whole check -/

/-- A state that is `Checked` is `Settled`: each field of the one is read off the parts of the
other. -/
theorem Checked.settled (h : s.Checked) : s.Settled := by
  obtain ⟨hrunning, hplace, hresource, hready⟩ := violation_eq_none.1 h.clean
  have hplaced : ∀ {pid p}, s.process? pid = some p → (pid ∈ s.ready ↔ p.status = .ready) ∧
      s.waitCount pid = if p.status = .blocked then 1 else 0 := by
    intro pid p hp
    rw [← pid_of_process? hp]
    exact placeViolation_eq_none.1 (hplace p (mem_of_process? hp))
  have hwaiter : ∀ {pid r}, s.Waits pid r → ∃ p, s.process? pid = some p := by
    rintro pid r ⟨x, hx, hm⟩
    exact (hresource r x hx).2 pid hm
  exact {
    ordered := h.ordered
    ready_nodup := h.ready_nodup
    waiters_nodup := fun hx => h.waiters_nodup _ (List.mem_of_getElem? hx)
    mem_ready := fun pid => by
      constructor
      · intro hm
        obtain ⟨p, hp⟩ := hready pid hm
        rw [status?_of_process? hp, (hplaced hp).1.1 hm]
      · intro hc
        obtain ⟨p, hp, hstatus⟩ := process?_of_status? hc
        exact (hplaced hp).1.2 hstatus
    blocked_iff := fun pid => by
      rw [← waitCount_ne_zero]
      constructor
      · intro hc
        obtain ⟨p, hp, hstatus⟩ := process?_of_status? hc
        rw [(hplaced hp).2, if_pos hstatus]
        exact Nat.one_ne_zero
      · intro hcount
        obtain ⟨r, hw⟩ := waitCount_ne_zero.1 hcount
        obtain ⟨p, hp⟩ := hwaiter hw
        rw [(hplaced hp).2] at hcount
        rw [status?_of_process? hp]
        by_contra hne
        exact hcount (if_neg fun hstatus => hne (congrArg some hstatus))
    waits_unique := fun {pid r q} hr hq => by
      obtain ⟨p, hp⟩ := hwaiter hr
      refine waits_unique_of_waitCount ?_ hr hq
      rw [(hplaced hp).2]
      split <;> omega
    running_current := fun hrun => by
      obtain ⟨p, hp, hstatus⟩ := process?_of_status? hrun
      rw [← pid_of_process? hp]
      exact (runningViolation_eq_none.1 hrunning).2 p (mem_of_process? hp) hstatus
    current_busy := h.current_busy
    owner_live := fun {pid r} hown => by
      obtain ⟨x, hx, ho⟩ := hown
      obtain ⟨p, hp, -⟩ := ownerViolation_eq_none.1 (hresource r x hx).1 pid ho
      rw [status?_of_process? hp]
      exact Option.some_ne_none _
    owner_apart := fun {pid r} hown hw => by
      obtain ⟨x, hx, ho⟩ := hown
      obtain ⟨-, -, -, hapart⟩ := ownerViolation_eq_none.1 (hresource r x hx).1 pid ho
      exact hapart ((waits_iff hx).1 hw) }

/-- A `Settled` state passes the check, so `Checked` and `Settled` say the same, and settledness can
be decided by running the check. -/
theorem checked_iff_settled : s.Checked ↔ s.Settled := by
  refine ⟨Checked.settled, fun h => ?_⟩
  exact {
    ordered := h.ordered
    clean := h.violation_eq_none
    ready_nodup := h.ready_nodup
    waiters_nodup := fun x hx => by
      obtain ⟨r, hr⟩ := List.mem_iff_getElem?.1 hx
      exact h.waiters_nodup hr
    current_busy := h.current_busy }

/-! ## What the check decides -/

/-- The live process is in the one place that its status names, and in no other. There is one case
for each status. -/
inductive Placed (s : State) (p : Process) : Prop
  /-- it is in the ready queue and in no wait queue -/
  | ready (hstatus : p.status = .ready) (hready : p.pid ∈ s.ready) (hwait : ∀ r, ¬ s.Waits p.pid r)
  /-- it is in exactly one wait queue and not in the ready queue -/
  | blocked (hstatus : p.status = .blocked) (hready : p.pid ∉ s.ready)
    (hwait : ∃! r, s.Waits p.pid r)
  /-- it is in no queue -/
  | running (hstatus : p.status = .running) (hready : p.pid ∉ s.ready)
    (hwait : ∀ r, ¬ s.Waits p.pid r)

/-- The partition of the processes as it is declared: every live process is `Placed`, the current
one is the only one that executes, and the queues and owners name live processes only. -/
structure Partitioned (s : State) : Prop where
  /-- at most one live process executes -/
  running_unique : (s.procs.countP fun p => p.status = .running) ≤ 1
  /-- a process that executes is the current one -/
  running_current : ∀ p ∈ s.procs, p.status = .running → s.current = some p.pid
  /-- every live process is in one place, with the status that says so -/
  placed : ∀ p ∈ s.procs, s.Placed p
  /-- every owner is live and does not wait for what it owns -/
  owner_live : ∀ {pid r}, s.Owns pid r → (∃ p ∈ s.procs, p.pid = pid) ∧ ¬ s.Waits pid r
  /-- whoever is in the ready queue is live -/
  ready_live : ∀ pid ∈ s.ready, ∃ p ∈ s.procs, p.pid = pid
  /-- whoever is in a wait queue is live -/
  waiter_live : ∀ {pid r}, s.Waits pid r → ∃ p ∈ s.procs, p.pid = pid

/-- The part of the check about one process passes exactly if the process is `Placed`. -/
theorem placeViolation_eq_none_iff_placed {p : Process} :
    s.placeViolation p = none ↔ s.Placed p := by
  have hnowhere : s.waitCount p.pid = 0 ↔ ∀ r, ¬ s.Waits p.pid r := by
    rw [← not_exists, ← waitCount_ne_zero, not_not]
  rw [placeViolation_eq_none]
  constructor
  · rintro ⟨hready, hcount⟩
    cases hstatus : p.status with
    | ready =>
      rw [hstatus] at hcount
      exact .ready hstatus (hready.2 hstatus) (hnowhere.1 hcount)
    | blocked =>
      rw [hstatus] at hready hcount
      exact .blocked hstatus (fun hm => nomatch hready.1 hm) (waitCount_eq_one.1 hcount)
    | running =>
      rw [hstatus] at hready hcount
      exact .running hstatus (fun hm => nomatch hready.1 hm) (hnowhere.1 hcount)
  · rintro (⟨hstatus, hready, hwait⟩ | ⟨hstatus, hready, hwait⟩ | ⟨hstatus, hready, hwait⟩) <;>
      rw [hstatus]
    · exact ⟨iff_of_true hready rfl, hnowhere.2 hwait⟩
    · exact ⟨iff_of_false hready nofun, waitCount_eq_one.2 hwait⟩
    · exact ⟨iff_of_false hready nofun, hnowhere.2 hwait⟩

/-- The **check of the partition is exact**: it passes in the states that are `Partitioned`, and in
no others. This holds of every state, whatever its queues hold and however often; in particular a
blocked owner needs no question of its own, since whoever is blocked waits somewhere. -/
theorem violation_eq_none_iff_partitioned : s.violation = none ↔ s.Partitioned := by
  have hlive : ∀ {pid}, (∃ p, s.process? pid = some p) ↔ ∃ p ∈ s.procs, p.pid = pid := by
    intro pid
    rw [exists_process?_iff, List.mem_map]
  simp only [violation_eq_none, placeViolation_eq_none_iff_placed, runningViolation_eq_none,
    ownerViolation_eq_none, hlive]
  constructor
  · rintro ⟨⟨hunique, hcurrent⟩, hplaced, hresource, hready⟩
    exact {
      running_unique := hunique
      running_current := hcurrent
      placed := hplaced
      owner_live := by
        rintro pid r ⟨x, hx, ho⟩
        obtain ⟨p, hp, -, hapart⟩ := (hresource r x hx).1 pid ho
        exact ⟨hlive.1 ⟨p, hp⟩, fun hw => hapart ((waits_iff hx).1 hw)⟩
      ready_live := hready
      waiter_live := by
        rintro pid r ⟨x, hx, hm⟩
        exact (hresource r x hx).2 pid hm }
  · intro h
    refine ⟨⟨h.running_unique, h.running_current⟩, h.placed, fun r x hx => ⟨fun pid ho => ?_,
      fun pid hm => h.waiter_live ⟨x, hx, hm⟩⟩, h.ready_live⟩
    obtain ⟨hin, hapart⟩ := h.owner_live ⟨x, hx, ho⟩
    obtain ⟨p, hp⟩ := hlive.2 hin
    refine ⟨p, hp, fun hstatus => ?_, fun hm => hapart ⟨x, hx, hm⟩⟩
    -- A blocked owner is in its place, which is a wait queue.
    cases h.placed p (mem_of_process? hp) with
    | ready hready => exact nomatch hstatus.symm.trans hready
    | running hrunning => exact nomatch hstatus.symm.trans hrunning
    | blocked _ _ hwait =>
      obtain ⟨q, hq, -⟩ := hwait
      rw [pid_of_process? hp] at hq
      exact awaited_ne_none hq

/-! ## A state that passes -/

/-- Process 1 executes, at priority 2, and owns what process 2 waits for; processes 3 and 4 are
ready, and 4 is above the others. The state is `Checked`, and serves as a witness where a choice is
described. -/
def crew : State where
  procs := [⟨1, 5, .running, 1, 2, 2⟩, ⟨2, 4, .blocked, 0, 2, 1⟩, ⟨3, 3, .ready, 0, 2, 2⟩,
    ⟨4, 6, .ready, 2, 7, 7⟩]
  current := some 1
  ready := [3, 4]
  resources := [{ owner := some 1, waiters := [2] }, {}]
  tick := 4
  ceiling := 7

theorem checked_crew : crew.Checked where
  ordered := by
    rw [Ordered]
    decide
  clean := by decide
  ready_nodup := by decide
  waiters_nodup := by decide
  current_busy h := by
    cases h
    exact Or.inl rfl

end State

end Uniprocessor
