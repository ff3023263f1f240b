import Mathlib.Data.List.Perm.Basic
import Uniprocessor.Machine
import Uniprocessor.Proofs.Repricing

/-!
# Choices

What a policy may do when it is asked who executes next: it may move the current process, if that
can go on, back into the ready queue, and take one process out; and nobody is lost or doubled by it
(`Chose`). Carrying a choice out makes the chosen process the current one and lets the former one
leave, if it is finished. A settled state is settled again after that (`Settled.switched`), although
it need not be in between.
-/

namespace Uniprocessor

namespace State

/-- The current process, if it can go on executing: it is not blocked, and has not executed its
lifespan. Every policy lets it compete with the ready queue, or go on at once. -/
def contender? (s : State) : Option Pid :=
  s.current.filter fun pid => (s.process? pid).any Process.isRunnable

/-- The current process, if it has executed its lifespan. It leaves when the next choice is carried
out (`switched`). -/
def leaver? (s : State) : Option Pid :=
  s.current.filter fun pid => (s.process? pid).any Process.isFinished

theorem contender?_eq_some {s : State} {pid : Pid} :
    s.contender? = some pid ↔
      s.current = some pid ∧ ∃ p, s.process? pid = some p ∧ p.isRunnable = true := by
  simp [contender?, Option.filter_eq_some_iff, Option.any_eq_true]

theorem leaver?_eq_some {s : State} {pid : Pid} :
    s.leaver? = some pid ↔
      s.current = some pid ∧ ∃ p, s.process? pid = some p ∧ p.lifespan ≤ p.age := by
  simp [leaver?, Option.filter_eq_some_iff, Option.any_eq_true]

/-- Two `Repriced` states have the same `contender?`, since priorities do not decide who could go
on. -/
theorem Repriced.contender? {s t : State} (h : s.Repriced t) : t.contender? = s.contender? := by
  rw [State.contender?, State.contender?, h.current]
  congr 1
  funext pid
  rcases hp : s.process? pid with _ | p
  · rw [h.process?_eq_none.2 hp]
  · obtain ⟨n, hn⟩ := h.process? hp
    rw [hn]
    rfl

/-- The state with all that a choice may change set aside: statuses, priorities and the ready queue.
What is left of it is the frame of `Chose`. -/
def undecided (s : State) : State :=
  { s with procs := s.procs.map fun p => { p with status := .ready, prio := 0 }, ready := [] }

/-- The second state comes from the first by choosing `next`: those that could be chosen are
permuted, the chosen process is taken out, and statuses say where everybody is. This is all that
`Policy.Lawful` asks of a choice. -/
structure Chose (s t : State) (next : Option Pid) : Prop where
  /-- a choice moves processes between the processor and the ready queue, and may reprice them -/
  frame : t.undecided = s.undecided
  /-- whoever could be chosen is chosen or in the ready queue -/
  pool : (s.contender?.toList ++ s.ready).Perm (next.toList ++ t.ready)
  /-- a current process that is replaced is ready, and nobody else changes -/
  status : ∀ {pid}, next ≠ some pid →
    t.status? pid = if s.contender? = some pid then some .ready else s.status? pid
  /-- the chosen process does not wait -/
  fit : ∀ {pid}, next = some pid → t.status? pid = some .ready ∨ t.status? pid = some .running

namespace Chose

variable {s t : State} {next : Option Pid}

/-- Whatever a function reads off a state without statuses, priorities and ready queue is kept by a
choice. The readings below are cases of this. -/
theorem keeps {α : Type} (h : s.Chose t next) (f : State → α) (hf : ∀ s, f s.undecided = f s) :
    f t = f s := by
  rw [← hf t, ← hf s, h.frame]

theorem resources (h : s.Chose t next) : t.resources = s.resources := h.keeps _ fun _ => rfl

theorem tick (h : s.Chose t next) : t.tick = s.tick := h.keeps _ fun _ => rfl

theorem ceiling (h : s.Chose t next) : t.ceiling = s.ceiling := h.keeps _ fun _ => rfl

theorem procs (h : s.Chose t next) :
    t.procs.map (fun p => { p with status := .ready, prio := 0 }) =
      s.procs.map fun p => { p with status := .ready, prio := 0 } :=
  congrArg State.procs h.frame

theorem map_pid (h : s.Chose t next) : t.procs.map Process.pid = s.procs.map Process.pid :=
  h.keeps (fun s => s.procs.map Process.pid) fun s => by simp [undecided, Function.comp_def]

/-- A record is found again after a choice that `Chose` describes, with some status and priority and
otherwise unchanged. -/
theorem process? (h : s.Chose t next) {pid : Pid} {p : Process} (hp : s.process? pid = some p) :
    ∃ c n, t.process? pid = some { p with status := c, prio := n } := by
  have key := map_process?_of_map_procs (g := fun p => { p with status := .ready, prio := 0 })
    (fun _ => rfl) h.procs pid
  rw [hp] at key
  obtain ⟨q, hq, hqp⟩ := Option.map_eq_some_iff.1 key
  refine ⟨q.status, q.prio, ?_⟩
  cases p
  cases q
  simp only [Process.mk.injEq] at hqp
  rw [hq]
  simp [hqp]

/-- The chosen process is live, since it was the `contender?` or in the ready queue, and both
are. -/
theorem process?_chosen (h : s.Chose t next) {pid : Pid} (hn : next = some pid) :
    ∃ p, t.process? pid = some p := by
  rcases h.fit hn with hf | hf
  · exact exists_process?_of_status? hf
  · exact exists_process?_of_status? hf

/-- A choice made in a repriced state is a choice made in the state itself: `Chose` says nothing
about priorities. -/
theorem of_repriced_left {s' : State} (hr : s.Repriced s') (h : s'.Chose t next) :
    s.Chose t next where
  frame := h.frame.trans (hr.keeps undecided fun s => by simp [undecided, unpriced])
  pool := by
    rw [← hr.ready, ← hr.contender?]
    exact h.pool
  status hne := by rw [h.status hne, hr.contender?, hr.status?]
  fit := h.fit

/-- A choice followed by a repricing is a choice: `Chose` says nothing about priorities. -/
theorem of_repriced_right {t' : State} (h : s.Chose t' next) (hr : t'.Repriced t) :
    s.Chose t next where
  frame := (hr.keeps undecided fun s => by simp [undecided, unpriced]).trans h.frame
  pool := by
    rw [hr.ready]
    exact h.pool
  status hne := by rw [hr.status?, h.status hne]
  fit hn := by
    rw [hr.status?]
    exact h.fit hn

end Chose

/-! ## Carrying a choice out -/

/-- The chosen process executes and is current; without one, nobody is current. This is what
carrying a choice out does to the chosen process. -/
def installed (s : State) : Option Pid → State
  | none => { s with current := none }
  | some pid => { s.adjust pid (fun p => { p with status := .running }) with current := some pid }

/-- A process that leaves is gone from the table, and without one the table stays as it is. -/
def without (s : State) : Option Pid → State
  | none => s
  | some pid => { s with procs := s.procs.filter fun p => p.pid ≠ pid }

/-- The state after a choice of `next` made in `s` and leading to `t` has been carried out: `next`
is installed, and `s.leaver?` is gone. -/
def switched (s t : State) (next : Option Pid) : State := (t.installed next).without s.leaver?

theorem resources_switched (s t : State) (next : Option Pid) :
    (s.switched t next).resources = t.resources := by
  unfold switched without installed
  cases s.leaver? <;> cases next <;> rfl

theorem ready_switched (s t : State) (next : Option Pid) :
    (s.switched t next).ready = t.ready := by
  unfold switched without installed
  cases s.leaver? <;> cases next <;> rfl

theorem current_switched (s t : State) (next : Option Pid) :
    (s.switched t next).current = next := by
  unfold switched without installed
  cases s.leaver? <;> cases next <;> rfl

theorem tick_switched (s t : State) (next : Option Pid) :
    (s.switched t next).tick = t.tick := by
  unfold switched without installed
  cases s.leaver? <;> cases next <;> rfl

theorem ceiling_switched (s t : State) (next : Option Pid) :
    (s.switched t next).ceiling = t.ceiling := by
  unfold switched without installed
  cases s.leaver? <;> cases next <;> rfl

theorem process?_installed {t : State} (next : Option Pid) (pid : Pid) :
    (t.installed next).process? pid =
      if next = some pid then (t.process? pid).map fun p => { p with status := .running }
      else t.process? pid := by
  cases next with
  | none => rfl
  | some n =>
    change (t.adjust n _).process? pid = _
    rw [process?_adjust_status]
    by_cases hn : pid = n
    · rw [if_pos hn, if_pos (congrArg some hn.symm)]
    · rw [if_neg hn, if_neg fun he => hn (Option.some.inj he).symm]

theorem process?_without {t : State} (gone : Option Pid) (pid : Pid) :
    (t.without gone).process? pid = if gone = some pid then none else t.process? pid := by
  cases gone with
  | none => rfl
  | some g =>
    rw [process?_filter (s := t) (t := t.without (some g)) rfl]
    by_cases hg : pid = g
    · rw [if_pos hg, if_pos (congrArg some hg.symm)]
    · rw [if_neg hg, if_neg fun he => hg (Option.some.inj he).symm]

/-- What `process?` finds after `switched`: no leaver, the chosen process executing, and everybody
else as the choice left them. -/
theorem process?_switched (s t : State) (next : Option Pid) (pid : Pid) :
    (s.switched t next).process? pid =
      if s.leaver? = some pid then none
      else if next = some pid then (t.process? pid).map fun p => { p with status := .running }
      else t.process? pid := by
  rw [switched, process?_without, process?_installed]

/-- After `switched` everybody bids as the choice left it, but for the `leaver?`, who bids no
longer. -/
theorem bid?_of_switched (s t : State) (next : Option Pid) (q : Pid) :
    (s.switched t next).bid? q = if s.leaver? = some q then none else t.bid? q := by
  rw [bid?, process?_switched]
  by_cases hg : s.leaver? = some q
  · rw [if_pos hg, if_pos hg]
    rfl
  · rw [if_neg hg, if_neg hg]
    by_cases hn : next = some q
    · rw [if_pos hn, Option.map_map]
      rfl
    · rw [if_neg hn]
      rfl

/-- If the choice itself changed no priority, everybody bids after `switched` as in `s`, but for the
`leaver?`. -/
theorem bid?_switched {s t : State} {next : Option Pid} (hbid : t.bid? = s.bid?) (q : Pid) :
    (s.switched t next).bid? q = if s.leaver? = some q then none else s.bid? q := by
  rw [bid?_of_switched, hbid]

/-- Who bids after a choice that changed no priority has not left, and bid the same in `s`. -/
theorem bid?_of_bid?_switched {s t : State} {next : Option Pid} (hbid : t.bid? = s.bid?) {q : Pid}
    {bid : Nat × Nat} (h : (s.switched t next).bid? q = some bid) :
    s.leaver? ≠ some q ∧ s.bid? q = some bid := by
  rw [bid?_switched hbid] at h
  by_cases hg : s.leaver? = some q
  · rw [if_pos hg] at h
    cases h
  · rw [if_neg hg] at h
    exact ⟨hg, h⟩

/-- Whoever stays has the priority that it had, if the choice changed no `bid?`. -/
theorem prioOf_switched {s t : State} {next : Option Pid} (hbid : t.bid? = s.bid?) {q : Pid}
    (hg : s.leaver? ≠ some q) : (s.switched t next).prioOf q = s.prioOf q :=
  prioOf_congr ((bid?_switched hbid q).trans (if_neg hg))

/-- Nobody rises by `switched`, if the choice changed no priority: whoever leaves has `prioOf` zero
from then on. -/
theorem prioOf_switched_le {s t : State} {next : Option Pid} (hbid : t.bid? = s.bid?) (q : Pid) :
    (s.switched t next).prioOf q ≤ s.prioOf q := by
  by_cases hg : s.leaver? = some q
  · rw [prioOf, bid?_switched hbid, if_pos hg]
    exact Nat.zero_le _
  · exact Nat.le_of_eq (prioOf_switched hbid hg)

/-- A process that can go on has not executed its lifespan, so `contender?` and `leaver?` never name
the same one. -/
theorem leaver?_ne_contender? {s : State} {pid : Pid} (h : s.leaver? = some pid) :
    s.contender? ≠ some pid := by
  intro hc
  obtain ⟨-, p, hp, hfin⟩ := leaver?_eq_some.1 h
  obtain ⟨-, q, hq, hrun⟩ := contender?_eq_some.1 hc
  rw [hp] at hq
  cases hq
  simp only [Process.isRunnable, Bool.and_eq_true, Bool.not_eq_true', Process.isFinished,
    decide_eq_false_iff_not] at hrun
  exact hrun.2 hfin

/-- While the current process can go on nobody leaves, since `leaver?` could name only the current
process too. -/
theorem leaver?_eq_none_of_contender {s : State} {pid : Pid} (h : s.contender? = some pid) :
    s.leaver? = none := by
  apply Option.eq_none_iff_forall_ne_some.2
  intro gone hgone
  have hsame := (leaver?_eq_some.1 hgone).1
  rw [(contender?_eq_some.1 h).1] at hsame
  cases hsame
  exact leaver?_ne_contender? hgone h

/-- In a `Settled` state the `contender?` executes: it is current, and the only other status of a
current process is blocked. -/
theorem Settled.status?_contender {s : State} (h : s.Settled) {pid : Pid}
    (hc : s.contender? = some pid) : s.status? pid = some .running := by
  obtain ⟨hcur, p, hp, hrun⟩ := contender?_eq_some.1 hc
  rcases h.current_busy hcur with hs | hs
  · exact hs
  · obtain ⟨q, hq, hblocked⟩ := process?_of_status? hs
    rw [hp] at hq
    cases hq
    simp [Process.isRunnable, Process.isBlocked, hblocked] at hrun

/-- In a `Settled` state whoever executes is current, and so it is the `contender?` or, if it has
executed its lifespan, the `leaver?`. -/
theorem Settled.leaver_or_contender {s : State} (h : s.Settled) {pid : Pid}
    (hrun : s.status? pid = some .running) :
    s.leaver? = some pid ∨ s.contender? = some pid := by
  have hcur := h.running_current hrun
  obtain ⟨p, hp, hrunp⟩ := process?_of_status? hrun
  by_cases hfin : p.lifespan ≤ p.age
  · exact Or.inl (leaver?_eq_some.2 ⟨hcur, p, hp, hfin⟩)
  · refine Or.inr (contender?_eq_some.2 ⟨hcur, p, hp, ?_⟩)
    simp [Process.isRunnable, Process.isBlocked, Process.isFinished, hrunp, Nat.not_le.1 hfin]

/-- Nobody is twice among those who could be chosen: the `contender?` executes, so it is not in the
ready queue. -/
theorem Settled.contender?_append_nodup {s : State} (h : s.Settled) :
    (s.contender?.toList ++ s.ready).Nodup := by
  rcases hc : s.contender? with _ | c
  · exact h.ready_nodup
  · exact List.nodup_cons.2 ⟨h.not_mem_ready_of_running (h.status?_contender hc), h.ready_nodup⟩

namespace Chose

variable {s t : State} {next : Option Pid}

/-- Nobody is twice among the chosen process and the new ready queue, since they are those who could
be chosen. -/
theorem nodup (h : s.Chose t next) (hs : s.Settled) : (next.toList ++ t.ready).Nodup :=
  h.pool.nodup_iff.1 hs.contender?_append_nodup

/-- The chosen process was the `contender?` or in the ready queue. Both halves of `Chose.pool` are
used to find whom a policy took. -/
theorem chosen (h : s.Chose t next) {pid : Pid} (hn : next = some pid) :
    s.contender? = some pid ∨ pid ∈ s.ready := by
  have hmem : pid ∈ next.toList ++ t.ready := by simp [hn]
  have := h.pool.mem_iff.2 hmem
  simpa [Option.mem_toList] using this

theorem not_mem_ready (h : s.Chose t next) (hs : s.Settled) {pid : Pid} (hn : next = some pid) :
    pid ∉ t.ready := by
  have := h.nodup hs
  rw [hn] at this
  exact (List.nodup_cons.1 this).1

/-- Whoever is not chosen is in the ready queue after a choice exactly if it was the `contender?` or
in the ready queue before. -/
theorem mem_ready_iff (h : s.Chose t next) {pid : Pid} (hn : next ≠ some pid) :
    pid ∈ t.ready ↔ s.contender? = some pid ∨ pid ∈ s.ready := by
  have := h.pool.mem_iff (a := pid)
  simp only [List.mem_append, Option.mem_toList, hn, false_or] at this
  exact this.symm

/-- A process that executes and is finished is not chosen: it is neither the `contender?` nor in the
ready queue of a `Settled` state. -/
theorem ne_leaver (h : s.Chose t next) (hs : s.Settled) {pid : Pid} (hg : s.leaver? = some pid)
    (hrun : s.status? pid = some .running) : next ≠ some pid := by
  intro hn
  rcases h.chosen hn with hc | hm
  · exact leaver?_ne_contender? hg hc
  · exact hs.not_mem_ready_of_running hrun hm

/-- Whoever is chosen, replaced or about to leave waits for nothing: it executed or was ready, and
by `Settled` only the blocked wait. -/
theorem not_waits (h : s.Chose t next) (hs : s.Settled)
    (hleave : ∀ pid, s.leaver? = some pid → s.status? pid = some .running) {pid : Pid}
    (hp : next = some pid ∨ s.leaver? = some pid ∨ s.contender? = some pid) (r : ResourceId) :
    ¬ s.Waits pid r := by
  rcases hp with hn | hg | hc
  · rcases h.chosen hn with hc | hm
    · exact hs.not_waits_of_running (hs.status?_contender hc) r
    · exact hs.not_waits_of_ready ((hs.mem_ready pid).1 hm) r
  · exact hs.not_waits_of_running (hleave pid hg) r
  · exact hs.not_waits_of_running (hs.status?_contender hc) r

/-- The table is `Ordered` after `switched`: a choice keeps the numbers, an installation does too,
and whoever leaves takes one number away. -/
theorem ordered_switched (h : s.Chose t next) (hs : s.Ordered) :
    (s.switched t next).Ordered := by
  have ht : t.Ordered := by
    rw [Ordered, h.map_pid]
    exact hs
  have hinstalled : (t.installed next).Ordered := by
    cases next with
    | none => exact ht
    | some n => exact ht.adjust fun _ => rfl
  unfold State.switched without
  cases s.leaver? with
  | none => exact hinstalled
  | some g => exact List.Pairwise.sublist (List.filter_sublist.map _) hinstalled

/-- What everybody is doing after `switched`: the chosen process executes, the `leaver?` is gone, a
`contender?` that was replaced is ready, and everybody else does what it did in `s`. -/
theorem status?_switched (h : s.Chose t next) (hs : s.Settled)
    (hleave : ∀ pid, s.leaver? = some pid → s.status? pid = some .running) (pid : Pid) :
    (s.switched t next).status? pid =
      if next = some pid then some .running
      else if s.leaver? = some pid then none
      else if s.contender? = some pid then some .ready else s.status? pid := by
  rw [State.status?, process?_switched]
  by_cases hg : s.leaver? = some pid
  · rw [if_pos hg, if_neg (h.ne_leaver hs hg (hleave pid hg)), if_pos hg]
    rfl
  · rw [if_neg hg, if_neg hg]
    by_cases hn : next = some pid
    · rw [if_pos hn, if_pos hn]
      obtain ⟨p, hp⟩ := h.process?_chosen hn
      rw [hp]
      rfl
    · rw [if_neg hn, if_neg hn]
      exact h.status hn

/-- A record after `switched` is a record of `s` with the same age, lifespan and base priority, of a
process that did not leave. -/
theorem of_process?_switched (h : s.Chose t next) {pid : Pid} {p' : Process}
    (hp' : (s.switched t next).process? pid = some p') :
    s.leaver? ≠ some pid ∧ ∃ p, s.process? pid = some p ∧ p'.lifespan = p.lifespan ∧
      p'.base = p.base ∧ p'.age = p.age := by
  rw [process?_switched] at hp'
  by_cases hg : s.leaver? = some pid
  · rw [if_pos hg] at hp'
    cases hp'
  rw [if_neg hg] at hp'
  refine ⟨hg, ?_⟩
  obtain ⟨q, hq⟩ : ∃ q, t.process? pid = some q := by
    by_cases hn : next = some pid
    · rw [if_pos hn] at hp'
      exact (Option.map_eq_some_iff.1 hp').imp fun _ => And.left
    · rw [if_neg hn] at hp'
      exact ⟨p', hp'⟩
  obtain ⟨p, hp⟩ : ∃ p, s.process? pid = some p := by
    rw [exists_process?_iff, ← h.map_pid]
    exact exists_process?_iff.1 ⟨q, hq⟩
  obtain ⟨c, n, hcn⟩ := h.process? hp
  rw [hcn] at hp'
  refine ⟨p, hp, ?_⟩
  by_cases hn : next = some pid
  · rw [if_pos hn] at hp'
    cases hp'
    exact ⟨rfl, rfl, rfl⟩
  · rw [if_neg hn] at hp'
    cases hp'
    exact ⟨rfl, rfl, rfl⟩

/-- Whoever does not leave is found again after `switched`, with some status and priority and
otherwise unchanged. -/
theorem exists_process?_switched (h : s.Chose t next) {pid : Pid} {p : Process}
    (hg : s.leaver? ≠ some pid) (hp : s.process? pid = some p) :
    ∃ c n, (s.switched t next).process? pid = some { p with status := c, prio := n } := by
  obtain ⟨c, n, hcn⟩ := h.process? hp
  rw [process?_switched, if_neg hg, hcn]
  by_cases hn : next = some pid
  · exact ⟨_, _, if_pos hn⟩
  · exact ⟨_, _, if_neg hn⟩

/-! What everybody is doing after the switch, status by status. -/

section Status

variable (h : s.Chose t next) (hs : s.Settled)
  (hleave : ∀ pid, s.leaver? = some pid → s.status? pid = some .running)
include h hs hleave

/-- After `switched` the ready queue of `t` holds exactly those that are ready, which is the field
`mem_ready` of `Settled.switched`. -/
theorem mem_ready_iff_status?_switched (pid : Pid) :
    pid ∈ t.ready ↔ (s.switched t next).status? pid = some .ready := by
  rw [h.status?_switched hs hleave]
  by_cases hn : next = some pid
  · rw [if_pos hn]
    refine ⟨fun hm => absurd hm (h.not_mem_ready hs hn), fun hc => ?_⟩
    cases hc
  · rw [if_neg hn, h.mem_ready_iff hn]
    by_cases hg : s.leaver? = some pid
    · rw [if_pos hg]
      refine ⟨fun hm => ?_, fun hc => ?_⟩
      · rcases hm with hc | hm
        · exact absurd hc (leaver?_ne_contender? hg)
        · exact absurd hm (hs.not_mem_ready_of_running (hleave pid hg))
      · cases hc
    · rw [if_neg hg]
      by_cases hc : s.contender? = some pid
      · simp [hc]
      · simp [hc, hs.mem_ready]

/-- The switch blocks nobody and wakes nobody: whoever it concerns does not wait, by `not_waits`. -/
theorem status?_switched_eq_blocked_iff (pid : Pid) :
    (s.switched t next).status? pid = some .blocked ↔ s.status? pid = some .blocked := by
  rw [h.status?_switched hs hleave]
  by_cases hp : next = some pid ∨ s.leaver? = some pid ∨ s.contender? = some pid
  · have hnot : ¬ s.status? pid = some .blocked := by
      intro hb
      obtain ⟨r, hr⟩ := (hs.blocked_iff pid).1 hb
      exact h.not_waits hs hleave hp r hr
    refine iff_of_false ?_ hnot
    rcases hp with hn | hg | hc
    · simp [hn]
    · by_cases hn : next = some pid <;> simp [hn, hg]
    · by_cases hn : next = some pid
      · simp [hn]
      · by_cases hg : s.leaver? = some pid <;> simp [hn, hg, hc]
  · simp only [not_or] at hp
    rw [if_neg hp.1, if_neg hp.2.1, if_neg hp.2.2]

/-- Only the chosen process executes after `switched`. Whoever executed before is gone, or back in
the ready queue. -/
theorem eq_of_status?_switched_running {pid : Pid}
    (hrun : (s.switched t next).status? pid = some .running) : next = some pid := by
  rw [h.status?_switched hs hleave] at hrun
  by_cases hn : next = some pid
  · exact hn
  · rw [if_neg hn] at hrun
    by_cases hg : s.leaver? = some pid
    · rw [if_pos hg] at hrun
      cases hrun
    · rw [if_neg hg] at hrun
      by_cases hc : s.contender? = some pid
      · rw [if_pos hc] at hrun
        cases hrun
      · rw [if_neg hc] at hrun
        exact ((hs.leaver_or_contender hrun).elim hg hc).elim

/-- Whoever is live and does not leave is live after `switched`, so the owners are. -/
theorem status?_switched_ne_none {pid : Pid} (hg : s.leaver? ≠ some pid)
    (hlive : s.status? pid ≠ none) : (s.switched t next).status? pid ≠ none := by
  rw [h.status?_switched hs hleave]
  by_cases hn : next = some pid
  · simp [hn]
  · rw [if_neg hn, if_neg hg]
    by_cases hc : s.contender? = some pid
    · simp [hc]
    · rw [if_neg hc]
      exact hlive

end Status

end Chose

/-- A `Settled` state is settled again when a choice has been carried out, if a finished process
executes and owns nothing. Between the choice and the switch it need not be. -/
theorem Settled.switched {s t : State} {next : Option Pid} (hs : s.Settled) (h : s.Chose t next)
    (hleave : ∀ pid, s.leaver? = some pid → s.status? pid = some .running)
    (hfree : ∀ pid, s.leaver? = some pid → ∀ r, ¬ s.Owns pid r) :
    (s.switched t next).Settled := by
  have hres : (s.switched t next).resources = s.resources := by
    rw [resources_switched, h.resources]
  exact {
    ordered := h.ordered_switched hs.ordered
    ready_nodup := by
      rw [ready_switched]
      exact (List.nodup_append.1 (h.nodup hs)).2.1
    waiters_nodup := fun hx => hs.waiters_nodup (hres ▸ hx)
    mem_ready := fun pid => by
      rw [ready_switched]
      exact h.mem_ready_iff_status?_switched hs hleave pid
    blocked_iff := fun pid => by
      rw [h.status?_switched_eq_blocked_iff hs hleave, hs.blocked_iff]
      exact exists_congr fun r => (waits_congr hres).symm
    waits_unique := fun h₁ h₂ => hs.waits_unique ((waits_congr hres).1 h₁) ((waits_congr hres).1 h₂)
    running_current := fun {pid} hrun => by
      rw [current_switched]
      exact h.eq_of_status?_switched_running hs hleave hrun
    current_busy := fun {pid} hcur => by
      rw [current_switched] at hcur
      rw [h.status?_switched hs hleave, if_pos hcur]
      exact Or.inl rfl
    owner_live := fun {pid r} ho => by
      have howned := (owns_congr hres).1 ho
      have hg : s.leaver? ≠ some pid := fun hg => hfree pid hg r howned
      exact h.status?_switched_ne_none hs hleave hg (hs.owner_live howned)
    owner_apart := fun ho hw =>
      hs.owner_apart ((owns_congr hres).1 ho) ((waits_congr hres).1 hw) }

end State

end Uniprocessor
