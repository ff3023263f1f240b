import Mathlib.Data.List.Sort
import Uniprocessor.Proofs.Choice

/-!
# Moves of states that differ in priorities

Two states that differ in priorities alone stay so when the same is done to both: a process joins or
grows older, a request is granted or refused, a resource is given back to the same waiter, the clock
moves. After choices of the same process that leave the same ready queue they stay so too
(`Repriced.switched`), although what is in between may differ in statuses.
-/

namespace Uniprocessor

namespace State

variable {s t s' t' : State}

/-- A function that works on the records one by one, and commutes with `unpriced`, takes `Repriced`
states to `Repriced` states. The moves below are cases of this. -/
theorem Repriced.of_unpriced {f : State → State} (hf : ∀ s, (f s).unpriced = f s.unpriced)
    (h : s.Repriced t) : (f s).Repriced (f t) := by
  rw [Repriced, hf, hf, show t.unpriced = _ from h]

theorem unpriced_adjust {pid : Pid} {f : Process → Process}
    (hf : ∀ p, { f p with prio := 0 } = f { p with prio := 0 }) (s : State) :
    (s.adjust pid f).unpriced = s.unpriced.adjust pid f := by
  rw [unpriced, unpriced, adjust, adjust, List.map_map, List.map_map]
  congr 1
  refine List.map_congr_left fun p _ => ?_
  by_cases hp : p.pid = pid <;> simp [hp, hf]

theorem Repriced.adjust_age (h : s.Repriced t) (pid : Pid) (n : Nat) :
    (s.adjust pid fun p => { p with age := n }).Repriced
      (t.adjust pid fun p => { p with age := n }) :=
  h.of_unpriced (unpriced_adjust fun _ => rfl)

theorem Repriced.give (h : s.Repriced t) (r : ResourceId) (x : Resource) (pid : Pid) :
    (s.give r x pid).Repriced (t.give r x pid) :=
  h.of_unpriced (f := fun s => s.give r x pid) fun _ => rfl

theorem Repriced.park (h : s.Repriced t) (r : ResourceId) (x : Resource) (pid : Pid) :
    (s.park r x pid).Repriced (t.park r x pid) :=
  h.of_unpriced (f := fun s => s.park r x pid)
    fun s => unpriced_adjust (fun _ => rfl) (s.setResource r _)

theorem Repriced.vacate (h : s.Repriced t) (r : ResourceId) (x : Resource) (woken : Option Pid) :
    (s.vacate r x woken).Repriced (t.vacate r x woken) := by
  cases woken with
  | none => exact h.of_unpriced (f := fun s => s.vacate r x none) fun _ => rfl
  | some w =>
    refine h.of_unpriced (f := fun s => s.vacate r x (some w)) fun s => ?_
    exact congrArg (fun u : State => { u with ready := s.ready ++ [w] })
      (unpriced_adjust (f := fun p => { p with status := .ready }) (fun _ => rfl)
        (s.setResource r _))

theorem Repriced.ticked (h : s.Repriced t) (tick : Nat) :
    { s with tick := tick }.Repriced { t with tick := tick } :=
  h.of_unpriced (f := fun s => { s with tick := tick }) fun _ => rfl

theorem map_insertByPid (f : Process → Process) (hf : ∀ p, (f p).pid = p.pid) (p : Process)
    (l : List Process) : (insertByPid p l).map f = insertByPid (f p) (l.map f) := by
  induction l with
  | nil => rfl
  | cons q rest ih =>
    rw [insertByPid, List.map_cons, insertByPid, hf, hf, ← ih]
    by_cases hlt : p.pid < q.pid
    · rw [if_pos hlt, if_pos hlt, List.map_cons, List.map_cons]
    · rw [if_neg hlt, if_neg hlt, List.map_cons]

/-- When the same process joins two `Repriced` states, they stay `Repriced`: it is put in at the
same place, and has the same priority in both. -/
theorem Repriced.joined (h : s.Repriced t) (p : Process) : (s.joined p).Repriced (t.joined p) := by
  have key : ∀ s : State, (s.joined p).unpriced = s.unpriced.joined { p with prio := 0 } := fun s =>
    congrArg (fun procs => { s with procs := procs, ready := s.ready ++ [p.pid] })
      (map_insertByPid (fun p => { p with prio := 0 }) (fun _ => rfl) { p with status := .ready }
        s.procs)
  rw [Repriced, key, key, show t.unpriced = _ from h]

/-- Two `Repriced` states have the same `leaver?`, since priorities do not decide who is
finished. -/
theorem Repriced.leaver? (h : s.Repriced t) : t.leaver? = s.leaver? := by
  rw [State.leaver?, State.leaver?, h.current]
  congr 1
  funext pid
  rcases hp : s.process? pid with _ | p
  · rw [h.process?_eq_none.2 hp]
  · obtain ⟨n, hn⟩ := h.process? hp
    rw [hn]
    rfl

/-- A property of records that does not look at priorities holds of all records of both of two
`Repriced` states or of neither. The check for a stuck machine is such a property. -/
theorem Repriced.all_procs (h : s.Repriced t) {f : Process → Bool}
    (hf : ∀ p, f { p with prio := 0 } = f p) : t.procs.all f = s.procs.all f := by
  have key : ∀ s : State, s.procs.all f = (s.procs.map fun p => { p with prio := 0 }).all f := by
    intro s
    rw [List.all_map]
    exact congrArg s.procs.all (funext fun p => (hf p).symm)
  rw [key, key, h.procs]

theorem Repriced.procs_eq_nil (h : s.Repriced t) : t.procs = [] ↔ s.procs = [] := by
  have hlen := congrArg List.length h.procs
  rw [List.length_map, List.length_map] at hlen
  rw [← List.length_eq_zero_iff, ← List.length_eq_zero_iff, hlen]

/-- An `Ordered` table is known from its look-ups: it is what `process?` finds under its numbers, in
their order. -/
theorem Ordered.procs_eq (h : s.Ordered) :
    s.procs = (s.procs.map Process.pid).filterMap s.process? := by
  rw [List.filterMap_map]
  conv_lhs => rw [← List.filterMap_some (l := s.procs)]
  exact List.filterMap_congr fun p hp => (h.process?_of_mem hp).symm

/-- Two `Ordered` states whose look-ups by `process?` agree up to priorities, and which agree in the
other fields, are `Repriced`. -/
theorem Repriced.of_process? (hs : s.Ordered) (ht : t.Ordered)
    (hlook : ∀ pid, (t.process? pid).map (fun p => { p with prio := 0 }) =
      (s.process? pid).map fun p => { p with prio := 0 })
    (hcurrent : t.current = s.current) (hready : t.ready = s.ready)
    (hresources : t.resources = s.resources) (htick : t.tick = s.tick)
    (hceiling : t.ceiling = s.ceiling) : s.Repriced t := by
  -- The same numbers are live, and a table lists them in order.
  have hpids : t.procs.map Process.pid = s.procs.map Process.pid := by
    refine List.Pairwise.eq_of_mem_iff ht hs fun pid => ?_
    have hsome := congrArg Option.isSome (hlook pid)
    rw [Option.isSome_map, Option.isSome_map, Bool.eq_iff_iff, Option.isSome_iff_exists,
      Option.isSome_iff_exists] at hsome
    exact exists_process?_iff.symm.trans (hsome.trans exists_process?_iff)
  have hprocs : t.procs.map (fun p => { p with prio := 0 }) =
      s.procs.map fun p => { p with prio := 0 } := by
    rw [ht.procs_eq, hs.procs_eq, List.map_filterMap, List.map_filterMap, hpids]
    exact List.filterMap_congr fun pid _ => hlook pid
  rw [Repriced, unpriced, unpriced, hprocs, hcurrent, hready, hresources, htick, hceiling]

/-- What a choice leaves of a record, priorities aside, is known from who is chosen, who leaves and
who could have gone on. So two choices of one process leave the same. -/
theorem Chose.look_switched {next : Option Pid} (h : s.Chose t next) (pid : Pid) :
    ((s.switched t next).process? pid).map (fun p => { p with prio := 0 }) =
      if s.leaver? = some pid then none
      else (s.process? pid).map fun p => { p with
        status := if next = some pid then .running
          else if s.contender? = some pid then .ready else p.status
        prio := 0 } := by
  rw [process?_switched]
  by_cases hg : s.leaver? = some pid
  · rw [if_pos hg, if_pos hg]
    rfl
  rw [if_neg hg, if_neg hg]
  rcases hp : s.process? pid with _ | p
  · have ht : t.process? pid = none := by
      rw [process?_eq_none, h.map_pid]
      exact process?_eq_none.1 hp
    simp [ht]
  · obtain ⟨c, n, ht⟩ := h.process? hp
    by_cases hn : next = some pid
    · simp [hn, ht]
    · have hst := h.status hn
      rw [status?_of_process? ht, status?_of_process? hp] at hst
      have hc : c = if s.contender? = some pid then .ready else p.status := by
        by_cases hcon : s.contender? = some pid
        · rw [if_pos hcon] at hst ⊢
          exact Option.some.inj hst
        · rw [if_neg hcon] at hst ⊢
          exact Option.some.inj hst
      simp [hn, ht, hc]

/-- Two `Repriced` states stay `Repriced` when the same process is chosen in both and the same ready
queue is left, although the states in between may differ in statuses. -/
theorem Repriced.switched {next : Option Pid} (hr : s.Repriced s') (hs : s.Ordered)
    (h : s.Chose t next) (h' : s'.Chose t' next) (hready : t'.ready = t.ready) :
    (s.switched t next).Repriced (s'.switched t' next) := by
  have hs' : s'.Ordered := by
    rw [Ordered, hr.map_pid]
    exact hs
  refine .of_process? (h.ordered_switched hs) (h'.ordered_switched hs') (fun pid => ?_) ?_ ?_ ?_
    ?_ ?_
  · rw [h.look_switched, h'.look_switched, hr.leaver?, hr.contender?]
    rcases hp : s.process? pid with _ | p
    · rw [hr.process?_eq_none.2 hp]
    · obtain ⟨n, hn⟩ := hr.process? hp
      rw [hn]
      rfl
  · rw [current_switched, current_switched]
  · rw [ready_switched, ready_switched, hready]
  · rw [resources_switched, resources_switched, h.resources, h'.resources, hr.resources]
  · rw [tick_switched, tick_switched, h.tick, h'.tick, hr.tick]
  · rw [ceiling_switched, ceiling_switched, h.ceiling, h'.ceiling, hr.ceiling]

end State

end Uniprocessor
