import Uniprocessor.Discipline.Choice
import Uniprocessor.Proofs.Lawful

/-!
# The ways to choose are choices

Each way to choose that a discipline uses goes through at most three steps: the current process goes
into the pool of the ready queue (`pooled`), one process is taken out (`Took`), and priorities or
the status of the chosen one are adjusted. In a settled state none of the steps faults, and together
they make a choice.
-/

namespace Uniprocessor

namespace State

/-! ## Looking at a queue -/

/-- Where everybody in a queue is live, `records` finds a record for each of them, in the order of
the queue. -/
theorem records_eq_ok {s : State} {q : Queue} (h : ∀ pid ∈ q, ∃ p, s.process? pid = some p) :
    ∃ ps, s.records q = .ok ps ∧ ps.map Process.pid = q ∧
      ∀ p ∈ ps, s.process? p.pid = some p := by
  induction q with
  | nil => exact ⟨[], rfl, rfl, fun p hp => absurd hp List.not_mem_nil⟩
  | cons pid rest ih =>
    obtain ⟨p, hp⟩ := h pid (List.mem_cons_self ..)
    obtain ⟨ps, hps, hmap, hall⟩ := ih fun q hq => h q (List.mem_cons_of_mem _ hq)
    have hpid : p.pid = pid := pid_of_process? hp
    refine ⟨p :: ps, ?_, by rw [List.map_cons, hmap, hpid], fun q hq => ?_⟩
    · rw [records, List.mapM_cons, process_eq_ok.2 hp, ok_bind]
      change (s.records rest >>= fun ps => pure (p :: ps)) = _
      rw [hps]
      rfl
    · rcases List.mem_cons.1 hq with rfl | hq
      · rw [hpid]
        exact hp
      · exact hall q hq

/-- The key of a process; zero if it is not live. With `Process.lifespan` for the key this is what
shortest job first compares. -/
def keyOf (s : State) (key : Process → Nat) (pid : Pid) : Nat := ((s.process? pid).map key).getD 0

theorem keyOf_of_process? {s : State} {key : Process → Nat} {pid : Pid} {p : Process}
    (h : s.process? pid = some p) : s.keyOf key pid = key p := by
  rw [keyOf, h]
  rfl

theorem findMin_eq_ok {s : State} {q : Queue} (h : ∀ pid ∈ q, ∃ p, s.process? pid = some p)
    (key : Process → Nat) : s.findMin q key = .ok (firstMin (s.keyOf key) q) := by
  obtain ⟨ps, hps, rfl, hall⟩ := records_eq_ok h
  have hmap : firstMin (s.keyOf key) (ps.map Process.pid) = (firstMin key ps).map Process.pid := by
    refine firstBest_map fun a ha b hb => ?_
    rw [keyOf_of_process? (hall a ha), keyOf_of_process? (hall b hb)]
  rw [findMin, hps, hmap]
  rfl

/-- The first process of `q` with the highest priority. All choices by priority come down to it. -/
def foremost (s : State) (q : Queue) : Option Pid := firstMax s.prioOf q

theorem mem_of_foremost {s : State} {q : Queue} {pid : Pid} (h : s.foremost q = some pid) :
    pid ∈ q := mem_of_firstBest h

theorem foremost_eq_none {s : State} {q : Queue} : s.foremost q = none ↔ q = [] :=
  firstBest_eq_none

/-- Nobody in `q` has a priority above that of the `foremost`. -/
theorem prioOf_le_foremost {s : State} {q : Queue} {pid : Pid} (h : s.foremost q = some pid)
    {other : Pid} (hq : other ∈ q) : s.prioOf other ≤ s.prioOf pid := le_of_firstMax h other hq

/-- The `foremost` of a queue depends on the priorities of those in it alone, so any `key` that
gives the same may stand for them. -/
theorem foremost_eq_firstMax {s : State} {q : Queue} {key : Pid → Nat}
    (h : ∀ pid ∈ q, s.prioOf pid = key pid) :
    s.foremost q = firstMax key q := by
  have hmap : s.foremost (q.map id) = (firstMax key q).map id :=
    firstBest_map fun a ha b hb => by rw [id, id, h a ha, h b hb]
  rwa [List.map_id, Option.map_id] at hmap

/-- One who stands before a queue is the `foremost` of all unless somebody of the queue is above: of
two with the same priority the earlier one comes first. -/
theorem foremost_cons {s : State} {q : Queue} {cur best : Pid} (hbest : s.foremost q = some best) :
    s.foremost (cur :: q) = if s.prioOf best ≤ s.prioOf cur then some cur else some best := by
  rw [foremost, firstMax] at hbest
  rw [foremost, firstMax, firstBest, hbest]
  by_cases hle : s.prioOf best ≤ s.prioOf cur
  · simp [hle, Nat.not_lt.2 hle]
  · simp [hle, Nat.not_le.1 hle]

theorem findUrgent_eq_ok {s : State} {q : Queue} (h : ∀ pid ∈ q, ∃ p, s.process? pid = some p) :
    s.findUrgent q = .ok (s.foremost q) := by
  obtain ⟨ps, hps, rfl, hall⟩ := records_eq_ok h
  have hmap : s.foremost (ps.map Process.pid) = (firstMax Process.prio ps).map Process.pid := by
    refine firstBest_map fun a ha b hb => ?_
    rw [prioOf_of_process? (hall a ha), prioOf_of_process? (hall b hb)]
  rw [findUrgent, hps, hmap]
  rfl

theorem findShorter_eq_ok {s : State} (bound : Nat) {q : Queue}
    (h : ∀ pid ∈ q, ∃ p, s.process? pid = some p) :
    ∃ choice, s.findShorter bound q = .ok choice ∧ ∀ pid, choice = some pid → pid ∈ q := by
  induction q with
  | nil => exact ⟨none, rfl, fun pid hpid => by cases hpid⟩
  | cons pid rest ih =>
    obtain ⟨p, hp⟩ := h pid (List.mem_cons_self ..)
    obtain ⟨choice, hc, hmem⟩ := ih fun q hq => h q (List.mem_cons_of_mem _ hq)
    rw [findShorter, process_eq_ok.2 hp, ok_bind]
    by_cases hb : p.remaining < bound
    · rw [if_pos hb]
      refine ⟨some pid, rfl, fun q hq => ?_⟩
      cases hq
      exact List.mem_cons_self ..
    · rw [if_neg hb]
      exact ⟨choice, hc, fun q hq => List.mem_cons_of_mem _ (hmem q hq)⟩

/-- In a `Settled` state the current process is live, so `contender` does not fault and answers with
`contender?`. -/
theorem Settled.contender_eq_ok {s : State} (h : s.Settled) : s.contender = .ok s.contender? := by
  rw [contender, currentRecord, contender?]
  rcases hc : s.current with _ | pid
  · rfl
  · obtain ⟨p, hp⟩ := h.process?_of_current hc
    have hpid : p.pid = pid := pid_of_process? hp
    simp only [process_eq_ok.2 hp, map_ok, ok_bind]
    cases hr : p.isRunnable with
    | false => simp [Option.filter, hp, hr, pure, Except.pure]
    | true => simp [Option.filter, hp, hr, hpid, pure, Except.pure]

/-! ## Taking one process out of the ready queue -/

/-- The second state is the first without `next` in the ready queue; there is a `next` unless the
ready queue is empty. This is the last step of every way to choose. -/
def Took (s t : State) (next : Option Pid) : Prop :=
  (next = none ∧ s.ready = [] ∧ t = s) ∨
    ∃ pid ∈ s.ready, next = some pid ∧ t = { s with ready := s.ready.erase pid }

theorem takeHead_snd (s : State) : s.takeHead.2 = s.ready.head? := by
  rw [takeHead]
  cases s.ready <;> rfl

theorem took_takeHead (s : State) : s.Took s.takeHead.1 s.takeHead.2 := by
  rw [takeHead]
  rcases hr : s.ready with _ | ⟨pid, rest⟩
  · left
    refine ⟨rfl, hr, ?_⟩
    rw [← hr]
    cases s
    simp_all [Queue.pop]
  · right
    refine ⟨pid, ?_, rfl, ?_⟩
    · rw [hr]
      exact List.mem_cons_self ..
    · simp [Queue.pop, hr]

theorem takeOut_eq_ok {s : State} {pid : Pid} (h : pid ∈ s.ready) :
    s.takeOut pid = .ok { s with ready := s.ready.erase pid } := by
  rw [takeOut, require, if_pos h]
  rfl

/-- If a choice names somebody in the ready queue, or nobody when that is empty, `takeChosen`
succeeds and `Took` says what it does. -/
theorem takeChosen_eq_ok {s : State} {choice : Option Pid} (hnone : choice = none ↔ s.ready = [])
    (hsome : ∀ pid, choice = some pid → pid ∈ s.ready) :
    ∃ t, s.takeChosen choice = .ok (t, choice) ∧ s.Took t choice := by
  cases choice with
  | none => exact ⟨s, rfl, Or.inl ⟨rfl, hnone.1 rfl, rfl⟩⟩
  | some pid =>
    have hm := hsome pid rfl
    refine ⟨{ s with ready := s.ready.erase pid }, ?_, Or.inr ⟨pid, hm, rfl, rfl⟩⟩
    rw [takeChosen, takeOut_eq_ok hm]
    rfl

/-- Over live processes `takeMin` succeeds, and takes the first ready process with the smallest
key. -/
theorem takeMin_eq_ok {s : State} (h : ∀ pid ∈ s.ready, ∃ p, s.process? pid = some p)
    (key : Process → Nat) : ∃ t, s.takeMin key = .ok (t, firstMin (s.keyOf key) s.ready) ∧
      s.Took t (firstMin (s.keyOf key) s.ready) := by
  have hchosen : ∃ t, s.takeChosen (firstMin (s.keyOf key) s.ready)
      = .ok (t, firstMin (s.keyOf key) s.ready) ∧ s.Took t (firstMin (s.keyOf key) s.ready) :=
    takeChosen_eq_ok firstBest_eq_none fun _ => mem_of_firstBest
  rw [takeMin, findMin_eq_ok h, ok_bind]
  exact hchosen

/-- Over live processes `takeUrgent` succeeds, and takes the `foremost` of the ready processes. -/
theorem takeUrgent_eq_ok {s : State} (h : ∀ pid ∈ s.ready, ∃ p, s.process? pid = some p) :
    ∃ t, s.takeUrgent = .ok (t, s.foremost s.ready) ∧ s.Took t (s.foremost s.ready) := by
  obtain ⟨t, ht, htook⟩ := takeChosen_eq_ok foremost_eq_none fun _ => mem_of_foremost
  refine ⟨t, ?_, htook⟩
  rw [takeUrgent, findUrgent_eq_ok h, ok_bind, ht]

/-- Nobody joins the ready queue when `Took` takes one process out of it. -/
theorem Took.mem_ready {s t : State} {next : Option Pid} (h : s.Took t next) {z : Pid}
    (hz : z ∈ t.ready) : z ∈ s.ready := by
  rcases h with ⟨-, -, rfl⟩ | ⟨pid, -, -, rfl⟩
  · exact hz
  · exact List.mem_of_mem_erase hz

theorem Took.bid? {s t : State} {next : Option Pid} (h : s.Took t next) : t.bid? = s.bid? := by
  rcases h with ⟨-, -, rfl⟩ | ⟨pid, -, -, rfl⟩ <;> rfl

/-! ## Putting the current process into the pool -/

/-- The state in which the `contender?`, if there is one, has gone to the tail of the ready queue.
Round robin, aging and the ceiling choose from it, and shortest time to completion does when it
replaces somebody. -/
def pooled (s : State) : State :=
  match s.contender? with
  | none => s
  | some pid =>
    { s.adjust pid (fun p => { p with status := .ready }) with ready := s.ready ++ [pid] }

theorem pooled_of_none {s : State} (h : s.contender? = none) : s.pooled = s := by
  rw [pooled, h]

theorem pooled_of_some {s : State} {pid : Pid} (h : s.contender? = some pid) :
    s.pooled =
      { s.adjust pid (fun p => { p with status := .ready }) with ready := s.ready ++ [pid] } := by
  rw [pooled, h]

theorem bid?_pooled (s : State) : s.pooled.bid? = s.bid? := by
  rcases hc : s.contender? with _ | pid
  · rw [pooled_of_none hc]
  · rw [pooled_of_some hc]
    exact bid?_adjust_status

/-- In a `Settled` state the `contender?` executes and so is not in the ready queue, and `queueLast`
succeeds and gives the `pooled` state. -/
theorem Settled.queueLast_eq_ok {s : State} (h : s.Settled) {pid : Pid}
    (hc : s.contender? = some pid) : s.queueLast pid = .ok s.pooled := by
  have hrun := h.status?_contender hc
  obtain ⟨p, hp, -⟩ := process?_of_status? hrun
  have hm : pid ∉ s.ready := h.not_mem_ready_of_running hrun
  rw [pooled_of_some hc, queueLast, setStatus, revise_eq_ok hp, ok_bind]
  change (s.ready.pushBack pid >>= _) = _
  rw [Queue.pushBack_eq_ok.2 ⟨hm, rfl⟩]
  rfl

theorem Settled.yieldTail_eq_ok {s : State} (h : s.Settled) : s.yieldTail = .ok s.pooled := by
  rw [yieldTail, h.contender_eq_ok, ok_bind]
  rcases hc : s.contender? with _ | pid
  · rw [pooled_of_none hc]
    rfl
  · exact h.queueLast_eq_ok hc

/-- Everyone in the ready queue of the `pooled` state is live, so the choices over it do not
fault. -/
theorem Settled.process?_of_mem_pooled {s : State} (h : s.Settled) {pid : Pid}
    (hp : pid ∈ s.pooled.ready) : ∃ p, s.pooled.process? pid = some p := by
  rcases hc : s.contender? with _ | c
  · rw [pooled_of_none hc] at hp ⊢
    exact h.process?_of_mem_ready hp
  · rw [pooled_of_some hc] at hp ⊢
    have hlive : ∃ p, s.process? pid = some p := by
      rcases List.mem_append.1 hp with hm | hm
      · exact h.process?_of_mem_ready hm
      · rw [List.mem_singleton.1 hm]
        exact exists_process?_of_status? (h.status?_contender hc)
    obtain ⟨p, hp⟩ := hlive
    change ∃ p, (s.adjust c _).process? pid = some p
    rw [process?_adjust_status, hp]
    by_cases hq : pid = c <;> simp [hq]

/-! ## Putting the current process before the pool -/

/-- Those who can execute, the `contender?` before the others. A choice by priority prefers the
first of the highest, so the current process goes on unless somebody is above it. -/
def front (s : State) : Queue := s.contender?.toList ++ s.ready

theorem front_of_none {s : State} (h : s.contender? = none) : s.front = s.ready := by
  rw [front, h, Option.toList_none, List.nil_append]

theorem front_of_some {s : State} {pid : Pid} (h : s.contender? = some pid) :
    s.front = pid :: s.ready := by
  rw [front, h, Option.toList_some, List.singleton_append]

/-- The state in which the `contender?`, if there is one, has gone to the head of the ready queue.
Its ready queue is `front`. -/
def headed (s : State) : State :=
  match s.contender? with
  | none => s
  | some pid =>
    { s.adjust pid (fun p => { p with status := .ready }) with ready := pid :: s.ready }

theorem headed_of_none {s : State} (h : s.contender? = none) : s.headed = s := by
  rw [headed, h]

theorem headed_of_some {s : State} {pid : Pid} (h : s.contender? = some pid) :
    s.headed =
      { s.adjust pid (fun p => { p with status := .ready }) with ready := pid :: s.ready } := by
  rw [headed, h]

theorem ready_headed (s : State) : s.headed.ready = s.front := by
  rcases hc : s.contender? with _ | pid
  · rw [headed_of_none hc, front_of_none hc]
  · rw [headed_of_some hc, front_of_some hc]

theorem bid?_headed (s : State) : s.headed.bid? = s.bid? := by
  rcases hc : s.contender? with _ | pid
  · rw [headed_of_none hc]
  · rw [headed_of_some hc]
    exact bid?_adjust_status

/-- A live process goes to the head of a ready queue that it is not in: `queueFirst` succeeds. -/
theorem queueFirst_eq_ok {s : State} {pid : Pid} {p : Process} (hp : s.process? pid = some p)
    (hm : pid ∉ s.ready) : s.queueFirst pid =
      .ok { s.adjust pid (fun p => { p with status := .ready }) with ready := pid :: s.ready } := by
  rw [queueFirst, setStatus, revise_eq_ok hp, ok_bind]
  change (s.ready.pushFront pid >>= _) = _
  rw [Queue.pushFront_eq_ok.2 ⟨hm, rfl⟩]
  rfl

/-! ## Steps that make a choice -/

/-- In a `Settled` state letting the `contender?` go on, with nothing else changed, is a choice. -/
theorem Settled.chose_contender {s : State} (h : s.Settled) {pid : Pid}
    (hc : s.contender? = some pid) : s.Chose s (some pid) where
  frame := rfl
  pool := by rw [hc]
  status {q} hq := by
    rw [hc, if_neg hq]
  fit {q} hq := by
    cases hq
    exact Or.inr (h.status?_contender hc)

/-- If one of the pool takes over from the `contender?`, and the others are the ready queue in some
order, that is a choice. -/
theorem Settled.chose_of_replaced {s : State} (h : s.Settled) {c pid : Pid}
    (hc : s.contender? = some c) {q : Queue} (hq : (pid :: q).Perm (c :: s.ready)) :
    s.Chose { s.adjust c (fun p => { p with status := .ready }) with ready := q } (some pid) := by
  have hst : ∀ r : Pid, State.status?
      { s.adjust c (fun p => { p with status := .ready }) with ready := q } r =
        if r = c then some .ready else s.status? r := by
    intro r
    change (s.adjust c _).status? r = _
    rw [status?_adjust_status]
    by_cases hr : r = c
    · rw [if_pos hr, if_pos hr, hr, h.status?_contender hc]
      rfl
    · rw [if_neg hr, if_neg hr]
  exact {
    frame := by
      simp only [undecided, adjust, List.map_map]
      congr 1
      refine List.map_congr_left fun p _ => ?_
      by_cases hp : p.pid = c <;> simp [hp]
    pool := by
      rw [hc]
      exact hq.symm
    status := fun {r} hr => by
      rw [hst, hc]
      by_cases hrc : r = c
      · rw [if_pos hrc, if_pos (congrArg some hrc.symm)]
      · rw [if_neg hrc, if_neg fun he => hrc (Option.some.inj he).symm]
    fit := fun {r} hr => by
      cases hr
      left
      rw [hst]
      by_cases hrc : pid = c
      · rw [if_pos hrc]
      · rw [if_neg hrc]
        rcases List.mem_cons.1 (hq.mem_iff.1 (List.mem_cons_self ..)) with hm | hm
        · exact absurd hm hrc
        · exact (h.mem_ready pid).1 hm }

/-- Taking one process out of the `pooled` state is a choice. Every discipline that may replace the
current process does this, or `chose_of_took_headed`. -/
theorem Settled.chose_of_took {s t : State} {next : Option Pid} (h : s.Settled)
    (ht : s.pooled.Took t next) : s.Chose t next := by
  rcases hc : s.contender? with _ | c
  · rw [pooled_of_none hc] at ht
    rcases ht with ⟨rfl, hr, rfl⟩ | ⟨pid, hm, rfl, rfl⟩
    · exact {
        frame := rfl
        pool := by rw [hc]
        status := fun _ => by rw [hc, if_neg (Option.some_ne_none _).symm]
        fit := fun hn => by cases hn }
    · exact {
        frame := rfl
        pool := by
          rw [hc]
          exact List.perm_cons_erase hm
        status := fun _ => by
          rw [hc, if_neg (Option.some_ne_none _).symm]
          rfl
        fit := fun hn => by
          cases hn
          exact Or.inl ((h.mem_ready pid).1 hm) }
  · rw [pooled_of_some hc] at ht
    rcases ht with ⟨-, hr, -⟩ | ⟨pid, hm, rfl, rfl⟩
    · simp at hr
    · refine h.chose_of_replaced hc ?_
      exact (List.perm_cons_erase hm).symm.trans (List.perm_append_singleton c s.ready)

/-- If there is no `contender?`, taking one process out of the ready queue is a choice. -/
theorem Settled.chose_of_took_ready {s t : State} {next : Option Pid} (h : s.Settled)
    (hc : s.contender? = none) (ht : s.Took t next) : s.Chose t next := by
  refine h.chose_of_took ?_
  rw [pooled_of_none hc]
  exact ht

/-- Taking one process out of the `headed` state is a choice. So the discipline that replaces by
priority makes one. -/
theorem Settled.chose_of_took_headed {s t : State} {next : Option Pid} (h : s.Settled)
    (ht : s.headed.Took t next) : s.Chose t next := by
  rcases hc : s.contender? with _ | c
  · rw [headed_of_none hc] at ht
    exact h.chose_of_took_ready hc ht
  · rw [headed_of_some hc] at ht
    rcases ht with ⟨-, hr, -⟩ | ⟨pid, hm, rfl, rfl⟩
    · cases hr
    · exact h.chose_of_replaced hc (List.perm_cons_erase hm).symm

/-- A chosen process may be made to execute at once: `Chose` says nothing about its status but that
it is ready or executes. -/
theorem Chose.adjust_running {s t : State} {pid : Pid} (h : s.Chose t (some pid)) :
    s.Chose (t.adjust pid fun p => { p with status := .running }) (some pid) where
  frame := by
    rw [← h.frame]
    simp only [undecided, adjust, List.map_map]
    congr 1
    refine List.map_congr_left fun p _ => ?_
    by_cases hp : p.pid = pid <;> simp [hp]
  pool := h.pool
  status {q} hq := by
    rw [status?_adjust_status, if_neg fun he => hq (congrArg some he.symm)]
    exact h.status hq
  fit {q} hq := by
    cases hq
    right
    rw [status?_adjust_status, if_pos rfl]
    rcases h.fit rfl with hf | hf <;> rw [hf] <;> rfl

/-! ## The ways to choose -/

open Narrated

/-- If `next` takes one process out of the ready queue, `keepOr next` succeeds and makes a choice,
in which the `contender?` goes on if there is one. No priority changes. -/
theorem Settled.keepOr_chose {s : State} (h : s.Settled)
    {next : State → Except Fault (State × Option Pid)}
    (hnext : ∃ t choice, next s = .ok (t, choice) ∧ s.Took t choice) :
    ∃ t choice, s.keepOr next = .ok (t, choice) ∧ s.Chose t choice ∧ t.bid? = s.bid? := by
  rw [keepOr, h.contender_eq_ok, ok_bind]
  rcases hc : s.contender? with _ | cur
  · obtain ⟨t, choice, hok, htook⟩ := hnext
    exact ⟨t, choice, hok, h.chose_of_took_ready hc htook, htook.bid?⟩
  · exact ⟨s, some cur, rfl, h.chose_contender hc, rfl⟩

/-- If `next` takes one process out of any ready queue, going behind all others by `yieldTail` and
then taking makes a choice. No priority changes. -/
theorem Settled.yieldTail_chose {s : State} (h : s.Settled)
    {next : State → Except Fault (State × Option Pid)}
    (hnext : ∀ s : State, (∀ pid ∈ s.ready, ∃ p, s.process? pid = some p) →
      ∃ t choice, next s = .ok (t, choice) ∧ s.Took t choice) :
    ∃ t choice, (s.yieldTail >>= next) = .ok (t, choice) ∧ s.Chose t choice ∧
      t.bid? = s.bid? := by
  obtain ⟨t, choice, hok, htook⟩ := hnext s.pooled fun _ => h.process?_of_mem_pooled
  refine ⟨t, choice, ?_, h.chose_of_took htook, ?_⟩
  · rw [h.yieldTail_eq_ok, ok_bind, hok]
  · rw [htook.bid?, bid?_pooled]

/-- In a `Settled` state `preferShorter` succeeds: it lets the `contender?` go on, or takes one
process out of the pool, who then executes at once if it replaces the `contender?`. -/
theorem Settled.preferShorter_eq_ok {s : State} (h : s.Settled) :
    ∃ t choice, s.preferShorter.result = .ok (t, choice) ∧
      ((t = s ∧ ∃ cur, s.contender? = some cur ∧ choice = some cur) ∨
        ∃ u, s.pooled.Took u choice ∧ (t = u ∨ ∃ next, choice = some next ∧
          t = u.adjust next fun p => { p with status := .running })) := by
  have hready : ∀ pid ∈ s.ready, ∃ p, s.process? pid = some p :=
    fun _ => h.process?_of_mem_ready
  rw [preferShorter, result_bind, result_lift, h.contender_eq_ok, ok_bind]
  rcases hc : s.contender? with _ | cur
  · obtain ⟨t, hok, htook⟩ := takeMin_eq_ok hready Process.lifespan
    rw [pooled_of_none hc]
    exact ⟨t, _, hok, Or.inr ⟨t, htook, Or.inl rfl⟩⟩
  · obtain ⟨p, hp, -⟩ := process?_of_status? (h.status?_contender hc)
    obtain ⟨choice, hfind, hmem⟩ := findShorter_eq_ok p.remaining hready
    simp only [result_bind, result_lift, process_eq_ok.2 hp, ok_bind, hfind]
    rcases choice with _ | next
    · exact ⟨s, some cur, rfl, Or.inl ⟨rfl, cur, rfl, rfl⟩⟩
    · -- The current process goes behind all others before the next one is taken.
      obtain ⟨q, hq⟩ := hready next (hmem next rfl)
      have hm : next ∈ s.pooled.ready := by
        rw [pooled_of_some hc]
        exact List.mem_append_left _ (hmem next rfl)
      obtain ⟨q', hq'⟩ := h.process?_of_mem_pooled hm
      refine ⟨_, some next, ?_, Or.inr ⟨{ s.pooled with ready := s.pooled.ready.erase next },
        Or.inr ⟨next, hm, rfl, rfl⟩, Or.inr ⟨next, rfl, rfl⟩⟩⟩
      simp only [result_bind, result_lift, process_eq_ok.2 hq, ok_bind, result_note,
        h.queueLast_eq_ok hc, takeOut_eq_ok hm, setStatus]
      rw [revise_eq_ok (s := { s.pooled with ready := s.pooled.ready.erase next }) hq']
      rfl

/-- In a `Settled` state `preferShorter` makes a choice and changes no priority. -/
theorem Settled.preferShorter_chose {s : State} (h : s.Settled) :
    ∃ t choice, s.preferShorter.result = .ok (t, choice) ∧ s.Chose t choice ∧
      t.bid? = s.bid? := by
  obtain ⟨t, choice, hok, hway⟩ := h.preferShorter_eq_ok
  refine ⟨t, choice, hok, ?_⟩
  rcases hway with ⟨rfl, cur, hc, rfl⟩ | ⟨u, htook, rfl | ⟨next, rfl, rfl⟩⟩
  · exact ⟨h.chose_contender hc, rfl⟩
  · exact ⟨h.chose_of_took htook, htook.bid?.trans (bid?_pooled s)⟩
  · exact ⟨(h.chose_of_took htook).adjust_running,
      bid?_adjust_status.trans (htook.bid?.trans (bid?_pooled s))⟩

/-- In a `Settled` state `preferUrgent` succeeds and answers with the `foremost` of those who can
execute. That is the `contender?`, who goes on, or one who is taken out of the `headed` state. -/
theorem Settled.preferUrgent_eq_ok {s : State} (h : s.Settled) :
    ∃ t, s.preferUrgent.result = .ok (t, s.foremost s.front) ∧
      ((t = s ∧ ∃ cur, s.contender? = some cur ∧ s.foremost s.front = some cur) ∨
        s.headed.Took t (s.foremost s.front)) := by
  have hready : ∀ pid ∈ s.ready, ∃ p, s.process? pid = some p :=
    fun _ => h.process?_of_mem_ready
  rw [preferUrgent, result_bind, result_lift, h.contender_eq_ok, ok_bind]
  rcases hc : s.contender? with _ | cur
  · obtain ⟨t, hok, htook⟩ := takeUrgent_eq_ok hready
    rw [front_of_none hc, headed_of_none hc]
    exact ⟨t, hok, Or.inr htook⟩
  · have hrun := h.status?_contender hc
    obtain ⟨p, hp, -⟩ := process?_of_status? hrun
    rw [front_of_some hc]
    simp only [result_bind, result_lift, findUrgent_eq_ok hready, ok_bind]
    rcases hbest : s.foremost s.ready with _ | best
    · rw [foremost_eq_none.1 hbest]
      exact ⟨s, rfl, Or.inl ⟨rfl, cur, rfl, rfl⟩⟩
    · have hm : best ∈ s.ready := mem_of_foremost hbest
      obtain ⟨q, hq⟩ := hready best hm
      rw [foremost_cons hbest, prioOf_of_process? hp, prioOf_of_process? hq]
      simp only [result_bind, result_lift, process_eq_ok.2 hq, process_eq_ok.2 hp, ok_bind]
      by_cases hle : q.prio ≤ p.prio
      · rw [if_pos hle, if_pos hle]
        exact ⟨s, rfl, Or.inl ⟨rfl, cur, rfl, rfl⟩⟩
      · -- Whether the contender joins the queue before or after the other leaves it is the same.
        rw [if_neg hle, if_neg hle]
        have hnot : cur ∉ s.ready := h.not_mem_ready_of_running hrun
        have hne : cur ≠ best := fun heq => hnot (heq ▸ hm)
        have hfirst := queueFirst_eq_ok (s := { s with ready := s.ready.erase best }) hp fun hmem =>
          hnot (List.mem_of_mem_erase hmem)
        refine ⟨{ s.headed with ready := s.headed.ready.erase best }, ?_, Or.inr (Or.inr
          ⟨best, ?_, rfl, rfl⟩)⟩
        · simp only [result_bind, result_lift, result_note, ok_bind, takeOut_eq_ok hm, hfirst]
          rw [headed_of_some hc]
          change _ = Except.ok
            ({ s.adjust cur _ with ready := (cur :: s.ready).erase best }, some best)
          rw [List.erase_cons_tail (by simpa using hne)]
          rfl
        · rw [ready_headed, front_of_some hc]
          exact List.mem_cons_of_mem cur hm

/-- In a `Settled` state `preferUrgent` makes a choice and changes no priority, and none of those
who stay in the ready queue is above the chosen one. -/
theorem Settled.preferUrgent_chose {s : State} (h : s.Settled) :
    ∃ t choice, s.preferUrgent.result = .ok (t, choice) ∧ s.Chose t choice ∧
      t.bid? = s.bid? ∧ ∀ pid, choice = some pid → ∀ z ∈ t.ready, s.prioOf z ≤ s.prioOf pid := by
  obtain ⟨t, hok, hway⟩ := h.preferUrgent_eq_ok
  rcases hway with ⟨rfl, cur, hc, hbest⟩ | htook
  · refine ⟨t, _, hok, hbest ▸ h.chose_contender hc, rfl, fun pid hpid z hz => ?_⟩
    exact prioOf_le_foremost hpid (List.mem_append_right _ hz)
  · refine ⟨t, _, hok, h.chose_of_took_headed htook, htook.bid?.trans (bid?_headed s),
      fun pid hpid z hz => ?_⟩
    exact prioOf_le_foremost hpid (ready_headed s ▸ htook.mem_ready hz)

/-- An aging pass `ageAll` over live processes succeeds, and changes priorities alone. -/
theorem ageAll_eq_ok {s : State} {q : Queue} (h : ∀ pid ∈ q, ∃ p, s.process? pid = some p) :
    ∃ t, (s.ageAll q).result = .ok t ∧ s.Repriced t := by
  induction q generalizing s with
  | nil => exact ⟨s, rfl, .refl s⟩
  | cons pid rest ih =>
    obtain ⟨p, hp⟩ := h pid (List.mem_cons_self ..)
    have hr := s.repriced_reprice pid (min largestPrio (p.prio + 1))
    obtain ⟨t, ht, hst⟩ := ih fun q hq => by
      obtain ⟨x, hx⟩ := h q (List.mem_cons_of_mem _ hq)
      obtain ⟨n, hn⟩ := hr.process? hx
      exact ⟨_, hn⟩
    refine ⟨t, ?_, hr.trans hst⟩
    simp only [ageAll, result_bind, result_lift, process_eq_ok.2 hp, ok_bind, setPrio_eq_ok hp,
      result_note]
    exact ht

theorem Settled.ageReady_eq_ok {s : State} (h : s.Settled) (memory : Memory) :
    ∃ memory' t, (ageReady memory s).result = .ok (memory', t) ∧ s.Repriced t := by
  rw [ageReady]
  by_cases hm : memory = some s.tick
  · rw [if_pos hm]
    exact ⟨memory, s, rfl, .refl s⟩
  · rw [if_neg hm]
    obtain ⟨t, ht, hr⟩ := ageAll_eq_ok (s := s) (q := s.ready) fun _ => h.process?_of_mem_ready
    refine ⟨some s.tick, t, ?_, hr⟩
    rw [result_bind, ht]
    rfl

/-- In a `Settled` state `preferAged` makes a choice, since the pass over the ready queue before it
is a repricing (`Chose.of_repriced_left`). -/
theorem Settled.preferAged_chose {s : State} (h : s.Settled) (memory : Memory) :
    ∃ memory' t choice, (s.preferAged memory).result = .ok (memory', t, choice) ∧
      s.Chose t choice := by
  obtain ⟨memory', s', hage, hr⟩ := h.ageReady_eq_ok memory
  have h' : s'.Settled := hr.settled h
  obtain ⟨t, htake, htook⟩ := takeUrgent_eq_ok fun _ => h'.process?_of_mem_pooled
  have hchose := Chose.of_repriced_left hr (h'.chose_of_took htook)
  simp only [preferAged, result_bind, result_lift, hage, ok_bind, h'.yieldTail_eq_ok, htake]
  rcases hc : s'.pooled.foremost s'.pooled.ready with _ | pid <;> rw [hc] at hchose
  · exact ⟨memory', t, none, rfl, hchose⟩
  · obtain ⟨p, hp⟩ := hchose.process?_chosen rfl
    refine ⟨memory', t.adjust pid fun p => { p with prio := p.base }, some pid, ?_,
      hchose.of_repriced_right (repriced_adjust fun _ => rfl)⟩
    simp only [result_bind, result_lift, revise_eq_ok hp, ok_bind]
    rfl

end State

end Uniprocessor
