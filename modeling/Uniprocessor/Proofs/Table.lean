import Mathlib.Data.List.Basic
import Mathlib.Data.List.Nodup
import Mathlib.Data.List.Perm.Subperm
import Uniprocessor.State

/-!
# Reading the two tables of a state

A state is a list of processes, a list of resources and a queue, and everything that is proved about
it goes through four readings: the record of a process (`process?`), what a live process is doing
(`status?`), whether a process owns a resource (`Owns`) and whether it waits for one (`Waits`). This
module says what each reading gives after each write: a changed record, a process that joins or
leaves the table, a replaced resource.
-/

namespace Uniprocessor

namespace State

/-- The status of a live process, `none` for a number without a record. The places of
`State.Settled` are named by it. -/
def status? (s : State) (pid : Pid) : Option Status := (s.process? pid).map Process.status

/-- The entry of the resource names the process as its owner. A resource has one owner at most
(`Owns.unique`), while a process may own any number of resources. -/
def Owns (s : State) (pid : Pid) (r : ResourceId) : Prop :=
  ∃ x, s.resources[r]? = some x ∧ x.owner = some pid

/-- The process stands in the wait queue of the resource. Under `State.Settled` that is what it
means to be blocked. -/
def Waits (s : State) (pid : Pid) (r : ResourceId) : Prop :=
  ∃ x, s.resources[r]? = some x ∧ pid ∈ x.waiters

/-- The process numbers of the table are strictly increasing, so each of them has one record, and
`process?` finds every entry of the table. -/
def Ordered (s : State) : Prop := (s.procs.map Process.pid).Pairwise (· < ·)

/-! ## The process table -/

theorem status?_eq_some {s : State} {pid : Pid} {c : Status} :
    s.status? pid = some c ↔ ∃ p, s.process? pid = some p ∧ p.status = c := by
  simp [status?]

theorem status?_of_process? {s : State} {pid : Pid} {p : Process} (h : s.process? pid = some p) :
    s.status? pid = some p.status := by
  rw [status?, h]
  rfl

theorem status_of_status? {s : State} {pid : Pid} {p : Process} {c : Status}
    (hp : s.process? pid = some p) (hc : s.status? pid = some c) : p.status = c := by
  rw [status?_of_process? hp] at hc
  exact Option.some.inj hc

theorem process?_of_status? {s : State} {pid : Pid} {c : Status} (h : s.status? pid = some c) :
    ∃ p, s.process? pid = some p ∧ p.status = c := status?_eq_some.1 h

/-- Whoever has a status is live: `status?` is read off the record that `process?` finds. -/
theorem exists_process?_of_status? {s : State} {pid : Pid} {c : Status}
    (h : s.status? pid = some c) : ∃ p, s.process? pid = some p :=
  (process?_of_status? h).imp fun _ => And.left

/-- A process that `process?` finds is an entry of `procs`. The converse needs distinct numbers
(`process?_of_mem_of_nodup`). -/
theorem mem_of_process? {s : State} {pid : Pid} {p : Process} (h : s.process? pid = some p) :
    p ∈ s.procs := List.mem_of_find?_eq_some h

/-- A process number has a record exactly if it is one of the numbers of the table, so two tables
with the same numbers have the same live processes. -/
theorem exists_process?_iff {s : State} {pid : Pid} :
    (∃ p, s.process? pid = some p) ↔ pid ∈ s.procs.map Process.pid := by
  rw [← Option.isSome_iff_exists, process?, List.find?_isSome]
  simp

theorem process?_eq_none {s : State} {pid : Pid} :
    s.process? pid = none ↔ pid ∉ s.procs.map Process.pid := by
  rw [← exists_process?_iff, ← Option.not_isSome_iff_eq_none, Option.isSome_iff_exists]

theorem Ordered.nodup {s : State} (h : s.Ordered) : (s.procs.map Process.pid).Nodup :=
  List.Pairwise.imp (fun hab => Nat.ne_of_lt hab) h

/-- If no number is repeated, `process?` finds every entry of the table under its number. -/
theorem process?_of_mem_of_nodup {s : State} (h : (s.procs.map Process.pid).Nodup) {p : Process}
    (hp : p ∈ s.procs) : s.process? p.pid = some p := by
  obtain ⟨q, hq⟩ := exists_process?_iff.2 (List.mem_map_of_mem hp)
  have hpid : q.pid = p.pid := pid_of_process? hq
  rw [hq, List.inj_on_of_nodup_map h (mem_of_process? hq) hp hpid]

/-- In an `Ordered` table `process?` finds every entry under its number, since a strictly increasing
list repeats nothing. -/
theorem Ordered.process?_of_mem {s : State} (h : s.Ordered) {p : Process} (hp : p ∈ s.procs) :
    s.process? p.pid = some p := process?_of_mem_of_nodup h.nodup hp

/-- A change of one record by `adjust` that keeps its number keeps all numbers, and with them their
order. -/
theorem map_pid_adjust {s : State} {pid : Pid} {f : Process → Process}
    (hf : ∀ p, (f p).pid = p.pid) :
    (s.adjust pid f).procs.map Process.pid = s.procs.map Process.pid := by
  rw [adjust, List.map_map]
  refine List.map_congr_left fun p _ => ?_
  by_cases h : p.pid = pid <;> simp [h, hf]

theorem Ordered.adjust {s : State} (h : s.Ordered) {pid : Pid} {f : Process → Process}
    (hf : ∀ p, (f p).pid = p.pid) : (s.adjust pid f).Ordered := by
  rw [Ordered, map_pid_adjust hf]
  exact h

theorem process?_adjust_status {s : State} {pid : Pid} {c : Status} (q : Pid) :
    (s.adjust pid fun p => { p with status := c }).process? q =
      if q = pid then (s.process? q).map fun p => { p with status := c } else s.process? q :=
  process?_adjust (f := fun p => { p with status := c }) (fun _ => rfl) q

theorem process?_adjust_age (s : State) (pid : Pid) (n : Nat) (q : Pid) :
    (s.adjust pid fun p => { p with age := n }).process? q =
      if q = pid then (s.process? q).map fun p => { p with age := n } else s.process? q :=
  process?_adjust (f := fun p => { p with age := n }) (fun _ => rfl) q

/-- After a change of status by `adjust` the process has the new status, if it is live, and every
other `status?` is what it was. -/
theorem status?_adjust_status {s : State} {pid : Pid} {c : Status} (q : Pid) :
    (s.adjust pid fun p => { p with status := c }).status? q =
      if q = pid then (s.status? q).map fun _ => c else s.status? q := by
  rw [status?, status?, process?_adjust_status]
  by_cases h : q = pid
  · simp [h, Function.comp_def]
  · simp [h]

/-- Where `process?` finds a record, `revise` succeeds and comes down to `adjust`: its only fault is
a number that is not live. -/
theorem revise_eq_ok {s : State} {pid : Pid} {p : Process} (h : s.process? pid = some p)
    (f : Process → Process) : s.revise pid f = .ok (s.adjust pid f) := by
  rw [revise, process_eq_ok.2 h]
  rfl

/-- A process whose record is taken out of the table is found no more, and every other look-up by
`process?` gives what it gave before. -/
theorem process?_filter {s t : State} {pid : Pid}
    (h : t.procs = s.procs.filter fun p => p.pid ≠ pid) (q : Pid) :
    t.process? q = if q = pid then none else s.process? q := by
  rw [process?, process?, h, List.find?_filter]
  by_cases hq : q = pid
  · subst hq
    simp only [if_true, List.find?_eq_none]
    intro p _
    simp
  · rw [if_neg hq]
    congr 1
    funext p
    by_cases hp : p.pid = q
    · have : p.pid ≠ pid := fun h => hq (hp.symm.trans h)
      simp [hp, hq]
    · simp [hp]

/-- A process put in by `insertByPid` is found under its number if that is new, and whatever was
found under another number still is. -/
theorem find?_insertByPid {p : Process} {l : List Process} (hp : p.pid ∉ l.map Process.pid)
    (q : Pid) :
    (insertByPid p l).find? (fun x => decide (x.pid = q)) =
      if q = p.pid then some p else l.find? fun x => decide (x.pid = q) := by
  induction l with
  | nil =>
    by_cases hq : q = p.pid <;> simp [insertByPid, hq, eq_comm]
  | cons x rest ih =>
    have hx : p.pid ≠ x.pid := fun h => hp (h ▸ List.mem_cons_self ..)
    have hrest := ih fun h => hp (List.mem_cons_of_mem _ h)
    rw [insertByPid]
    by_cases hlt : p.pid < x.pid
    · rw [if_pos hlt, List.find?_cons]
      by_cases hq : q = p.pid <;> simp [hq, eq_comm]
    · rw [if_neg hlt, List.find?_cons, List.find?_cons, hrest]
      by_cases hq : q = p.pid
      · have : x.pid ≠ q := fun h => hx (hq.symm.trans h.symm)
        simp [hq, Ne.symm hx]
      · simp [hq]

theorem mem_map_pid_insertByPid {p : Process} {l : List Process} {q : Pid} :
    q ∈ (insertByPid p l).map Process.pid ↔ q = p.pid ∨ q ∈ l.map Process.pid := by
  induction l with
  | nil => simp [insertByPid]
  | cons x rest ih =>
    rw [insertByPid]
    by_cases hlt : p.pid < x.pid
    · simp [hlt]
    · rw [if_neg hlt, List.map_cons, List.mem_cons, ih, List.map_cons, List.mem_cons]
      exact or_left_comm

/-- The list stays strictly increasing when `insertByPid` puts in a number that is not in it: a
newcomer takes its place in the order. -/
theorem pairwise_insertByPid {p : Process} {l : List Process} (hp : p.pid ∉ l.map Process.pid)
    (hl : (l.map Process.pid).Pairwise (· < ·)) :
    ((insertByPid p l).map Process.pid).Pairwise (· < ·) := by
  induction l with
  | nil => simp [insertByPid]
  | cons x rest ih =>
    have hne : p.pid ≠ x.pid := fun h => hp (h ▸ List.mem_cons_self ..)
    have hrest : p.pid ∉ rest.map Process.pid := fun h => hp (List.mem_cons_of_mem _ h)
    rw [List.map_cons, List.pairwise_cons] at hl
    rw [insertByPid]
    by_cases hlt : p.pid < x.pid
    · rw [if_pos hlt, List.map_cons, List.map_cons, List.pairwise_cons, List.pairwise_cons]
      refine ⟨fun q hq => ?_, hl⟩
      rcases List.mem_cons.1 hq with rfl | hq
      · exact hlt
      · exact Nat.lt_trans hlt (hl.1 q hq)
    · rw [if_neg hlt, List.map_cons, List.pairwise_cons]
      refine ⟨fun q hq => ?_, ih hrest hl.2⟩
      rcases mem_map_pid_insertByPid.1 hq with rfl | hq
      · exact Nat.lt_of_le_of_ne (Nat.not_lt.1 hlt) (Ne.symm hne)
      · exact hl.1 q hq

/-- The numbers of the processes whose records have a property. What bounds the length of a run
counts such processes. -/
def pidsWhere (s : State) (f : Process → Bool) : List Pid := (s.procs.filter f).map Process.pid

theorem Ordered.mem_pidsWhere {s : State} (h : s.Ordered) {f : Process → Bool} {pid : Pid} :
    pid ∈ s.pidsWhere f ↔ ∃ p, s.process? pid = some p ∧ f p = true := by
  simp only [pidsWhere, List.mem_map, List.mem_filter]
  constructor
  · rintro ⟨p, ⟨hp, hf⟩, rfl⟩
    exact ⟨p, h.process?_of_mem hp, hf⟩
  · rintro ⟨p, hp, hf⟩
    exact ⟨p, ⟨mem_of_process? hp, hf⟩, pid_of_process? hp⟩

theorem Ordered.pidsWhere_nodup {s : State} (h : s.Ordered) (f : Process → Bool) :
    (s.pidsWhere f).Nodup := h.nodup.sublist (List.filter_sublist.map Process.pid)

theorem length_pidsWhere_le (s : State) (f : Process → Bool) :
    (s.pidsWhere f).length ≤ s.procs.length := by
  rw [pidsWhere, List.length_map]
  exact List.length_filter_le ..

/-- If whoever has the property in `t` had one in `s`, as many processes at most are counted in `t`
as in `s`. -/
theorem length_pidsWhere_le_of_imp {s t : State} (hs : s.Ordered) (ht : t.Ordered)
    {f g : Process → Bool} (h : ∀ pid p, t.process? pid = some p → g p = true →
      ∃ p, s.process? pid = some p ∧ f p = true) :
    (t.pidsWhere g).length ≤ (s.pidsWhere f).length := by
  refine ((ht.pidsWhere_nodup g).subperm fun pid hpid => ?_).length_le
  obtain ⟨p, hp, hg⟩ := ht.mem_pidsWhere.1 hpid
  exact hs.mem_pidsWhere.2 (h pid p hp hg)

/-- If besides somebody is counted in `s` and no longer in `t`, strictly fewer processes are counted
in `t`. This is what makes a refusal lower the number of those that are awake. -/
theorem length_pidsWhere_lt_of_imp {s t : State} (hs : s.Ordered) (ht : t.Ordered)
    {f g : Process → Bool} (h : ∀ pid p, t.process? pid = some p → g p = true →
      ∃ p, s.process? pid = some p ∧ f p = true) (lost : Pid) (hlost : lost ∈ s.pidsWhere f)
    (hlost' : lost ∉ t.pidsWhere g) : (t.pidsWhere g).length < (s.pidsWhere f).length := by
  -- With the lost one added, those who have the property now are still among those who had it.
  have hsub : lost :: t.pidsWhere g ⊆ s.pidsWhere f := by
    intro pid hpid
    rcases List.mem_cons.1 hpid with rfl | hpid
    · exact hlost
    · obtain ⟨p, hp, hg⟩ := ht.mem_pidsWhere.1 hpid
      exact hs.mem_pidsWhere.2 (h pid p hp hg)
  exact ((List.nodup_cons.2 ⟨hlost', ht.pidsWhere_nodup g⟩).subperm hsub).length_le

/-! ## The resource table -/

theorem resource_eq_ok {s : State} {r : ResourceId} {x : Resource} :
    s.resource r = .ok x ↔ s.resources[r]? = some x := by
  unfold resource
  split <;> simp_all

/-- After `setResource` the new entry is found at its place, if there was one, and every other entry
of the resource table is what it was. -/
theorem getElem?_setResource {s : State} {r : ResourceId} {x y : Resource}
    (h : s.resources[r]? = some y) (q : ResourceId) :
    (s.setResource r x).resources[q]? = if q = r then some x else s.resources[q]? := by
  have hr : r < s.resources.length := (List.getElem?_eq_some_iff.1 h).1
  rw [setResource, List.getElem?_set]
  by_cases hq : q = r
  · subst hq
    simp [hr]
  · rw [if_neg (Ne.symm hq), if_neg hq]

theorem owns_setResource {s : State} {r : ResourceId} {x y : Resource}
    (h : s.resources[r]? = some y) {pid : Pid} {q : ResourceId} :
    (s.setResource r x).Owns pid q ↔ if q = r then x.owner = some pid else s.Owns pid q := by
  rw [Owns, getElem?_setResource h]
  by_cases hq : q = r
  · simp [hq]
  · simp [hq, Owns]

theorem waits_setResource {s : State} {r : ResourceId} {x y : Resource}
    (h : s.resources[r]? = some y) {pid : Pid} {q : ResourceId} :
    (s.setResource r x).Waits pid q ↔ if q = r then pid ∈ x.waiters else s.Waits pid q := by
  rw [Waits, getElem?_setResource h]
  by_cases hq : q = r
  · simp [hq]
  · simp [hq, Waits]

theorem owns_iff {s : State} {r : ResourceId} {x : Resource} (h : s.resources[r]? = some x)
    {pid : Pid} : s.Owns pid r ↔ x.owner = some pid := by
  simp [Owns, h]

theorem waits_iff {s : State} {r : ResourceId} {x : Resource} (h : s.resources[r]? = some x)
    {pid : Pid} : s.Waits pid r ↔ pid ∈ x.waiters := by
  simp [Waits, h]

/-- A resource has one owner: two processes that `Owns` names for it are the same. -/
theorem Owns.unique {s : State} {p q : Pid} {r : ResourceId} (hp : s.Owns p r) (hq : s.Owns q r) :
    p = q := by
  obtain ⟨x, hx, hp⟩ := hp
  exact Option.some.inj (hp.symm.trans ((owns_iff hx).1 hq))

/-- Only the resource table decides who `Owns` what, so two states with the same table agree on
it. -/
theorem owns_congr {s t : State} (h : t.resources = s.resources) {pid : Pid} {r : ResourceId} :
    t.Owns pid r ↔ s.Owns pid r := by
  rw [Owns, Owns, h]

theorem waits_congr {s t : State} (h : t.resources = s.resources) {pid : Pid} {r : ResourceId} :
    t.Waits pid r ↔ s.Waits pid r := by
  rw [Waits, Waits, h]

end State

end Uniprocessor
