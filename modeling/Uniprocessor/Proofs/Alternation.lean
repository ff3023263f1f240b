import Uniprocessor.Proofs.Aging
import Uniprocessor.Proofs.Slots

/-!
# Taking turns

Under round robin those who can go on stand in one line, however they get there: the one whose turn
it is, the ready queue, and the current process once its turn is over (`Machine.line`). The first
one in the line executes and goes to its end; whoever arrives or is woken is put in somewhere, and
whoever waits for a resource is taken out, but the others keep their places (`Machine.Shifts`). So
of two processes that stay in the line the one that comes earlier has executed as often as the
other, or once less, counted from any tick on (`InTurn`), and in no span of ticks does one of them
execute twice as long as the other does not (`Scenario.Admitted.turns_alternate`).
-/

namespace Uniprocessor

open Narrated

/-! ## Counting along a line -/

/-- Of the processes `peers`, whoever comes earlier in the line has been counted as often as who
comes later, or once less. -/
def InTurn (peers : List Pid) (line : Queue) (count : Pid → Nat) : Prop :=
  ∀ p ∈ peers, ∀ q ∈ peers, [p, q].Sublist line → count p ≤ count q ∧ count q ≤ count p + 1

/-- Of two different elements of a list, one comes before the other, as a `Sublist` of two says
it. -/
theorem sublist_or_sublist_of_mem {p q : Pid} {line : Queue} (hp : p ∈ line) (hq : q ∈ line)
    (hne : p ≠ q) : [p, q].Sublist line ∨ [q, p].Sublist line := by
  induction line with
  | nil => cases hp
  | cons x rest ih =>
    rcases List.mem_cons.1 hp with rfl | hprest
    · have hqrest := (List.mem_cons.1 hq).resolve_left hne.symm
      exact Or.inl ((List.singleton_sublist.2 hqrest).cons_cons p)
    · rcases List.mem_cons.1 hq with rfl | hqrest
      · exact Or.inr ((List.singleton_sublist.2 hprest).cons_cons q)
      · exact (ih hprest hqrest).imp (.cons x) (.cons x)

/-- Whoever comes before another at the end of a list does so before the last one, or the other is
the last one. -/
theorem sublist_of_sublist_concat {p q pid : Pid} {rest : Queue}
    (h : [p, q].Sublist (rest ++ [pid])) : [p, q].Sublist rest ∨ p ∈ rest ∧ q = pid := by
  obtain ⟨front, back, heq, hfront, hback⟩ := List.sublist_append_iff.1 h
  match front, heq with
  | [], heq =>
    have hlen := hback.length_le
    rw [← List.nil_append back, ← heq] at hlen
    simp at hlen
  | [_], heq =>
    obtain ⟨rfl, rfl⟩ : p = _ ∧ [q] = back := by simpa using heq
    exact Or.inr ⟨hfront.subset (List.mem_singleton_self p),
      List.mem_singleton.1 (hback.subset (List.mem_singleton_self q))⟩
  | [_, _], heq =>
    obtain ⟨rfl, rfl, -⟩ : p = _ ∧ q = _ ∧ back = [] := by simpa [eq_comm] using heq
    exact Or.inl hfront
  | _ :: _ :: _ :: _, heq => simp at heq

namespace InTurn

variable {peers : List Pid} {line line' : Queue} {count : Pid → Nat} {pid : Pid}

/-- Before anybody has been counted every line is `InTurn`. -/
theorem of_zero (h : ∀ p, count p = 0) : InTurn peers line count := by
  intro p _ q _ _
  rw [h p, h q]
  exact ⟨Nat.le_refl 0, Nat.zero_le 1⟩

/-- Whoever leaves the line leaves the others `InTurn`. -/
theorem of_sublist (h : InTurn peers line count) (hsub : line'.Sublist line) :
    InTurn peers line' count := by
  intro p hp q hq hpq
  exact h p hp q hq (hpq.trans hsub)

/-- Others than the `peers` may be put into the line, wherever it is. -/
theorem insert {front back : Queue} (h : InTurn peers (front ++ back) count) (hpid : pid ∉ peers) :
    InTurn peers (front ++ pid :: back) count := by
  intro p hp q hq hpq
  apply h p hp q hq
  have hkept : [p, q].filter (· ≠ pid) = [p, q] := by
    refine List.filter_eq_self.2 fun x hx => decide_eq_true ?_
    rintro rfl
    rcases List.mem_pair.1 hx with rfl | rfl
    · exact hpid hp
    · exact hpid hq
  have hsub := hpq.filter (· ≠ pid)
  rw [hkept, List.filter_append, List.filter_cons_of_neg (by simp)] at hsub
  exact hsub.trans (List.filter_sublist.append List.filter_sublist)

/-- If the first one is none of the `peers`, it may go to the end of the line without being
counted. -/
theorem drop_head (h : InTurn peers (pid :: line) count) (hpid : pid ∉ peers) :
    InTurn peers (line ++ [pid]) count := by
  have hline := h.of_sublist (List.sublist_cons_self pid line)
  rw [← List.append_nil line] at hline
  exact hline.insert hpid

/-- The first one in the line is counted and goes to the end of the line: it was counted no more
often than those behind it, and so it is once more at most. -/
theorem rotate (hnodup : (pid :: line).Nodup) (h : InTurn peers (pid :: line) count)
    {count' : Pid → Nat} (hcount : ∀ q, count' q = count q + if pid = q then 1 else 0) :
    InTurn peers (line ++ [pid]) count' := by
  intro p hp q hq hpq
  rw [hcount p, hcount q]
  have hpid : pid ∉ line := (List.nodup_cons.1 hnodup).1
  rcases sublist_of_sublist_concat hpq with hpq | ⟨hmem, rfl⟩
  · have hpne : pid ≠ p := fun he => hpid (he ▸ hpq.subset (by simp))
    have hqne : pid ≠ q := fun he => hpid (he ▸ hpq.subset (by simp))
    rw [if_neg hpne, if_neg hqne]
    exact h p hp q hq (hpq.cons pid)
  · have hne : q ≠ p := fun he => hpid (he ▸ hmem)
    have hturn := h q hq p hp ((List.singleton_sublist.2 hmem).cons_cons q)
    rw [if_pos rfl, if_neg hne]
    omega

/-- Nobody in the line has been counted twice more than another: the bound that `InTurn` is
about. -/
theorem near (h : InTurn peers line count) (hall : ∀ p ∈ peers, p ∈ line) :
    ∀ p ∈ peers, ∀ q ∈ peers, count p ≤ count q + 1 := by
  intro p hp q hq
  rcases eq_or_ne p q with rfl | hne
  · exact Nat.le_succ _
  · rcases sublist_or_sublist_of_mem (hall p hp) (hall q hq) hne with hpq | hqp
    · exact Nat.le_succ_of_le (h p hp q hq hpq).1
    · exact (h q hq p hp hqp).2

end InTurn

/-! ## Who is able to go on -/

namespace State

variable {s : State} {pid : Pid}

/-- Whether the process is live, waits for nothing and has ticks left to execute: it is
`isRunnable`. -/
def isAble (s : State) (pid : Pid) : Bool := (s.process? pid).any Process.isRunnable

theorem isAble_iff : s.isAble pid = true ↔ ∃ p, s.process? pid = some p ∧ p.isRunnable = true := by
  rw [isAble, Option.any_eq_true]

theorem not_isAble_of_blocked (h : s.status? pid = some .blocked) : s.isAble pid ≠ true := by
  intro hable
  obtain ⟨p, hp, hrun⟩ := isAble_iff.1 hable
  rw [status?_of_process? hp, Option.some_inj] at h
  simp [Process.isRunnable, Process.isBlocked, h] at hrun

/-- Whoever is able to go on may be chosen: it is in the `pool`. -/
theorem Settled.mem_pool_of_isAble (hs : s.Settled) (h : s.isAble pid = true) : pid ∈ s.pool := by
  obtain ⟨p, hp, hrun⟩ := isAble_iff.1 h
  have hst := status?_of_process? hp
  rw [pool, List.mem_append]
  cases hstatus : p.status with
  | ready => exact Or.inl ((hs.mem_ready pid).2 (hstatus ▸ hst))
  | running =>
    have hcur := hs.running_current (hstatus ▸ hst)
    exact Or.inr (Option.mem_toList.2 (contender?_eq_some.2 ⟨hcur, p, hp, hrun⟩))
  | blocked => exact absurd h (not_isAble_of_blocked (hstatus ▸ hst))

/-- The current process is not in the ready queue: by `current_busy` it is not ready. -/
theorem Settled.not_mem_ready_of_current (hs : s.Settled) (h : s.current = some pid) :
    pid ∉ s.ready := by
  intro hmem
  have hready := (hs.mem_ready pid).1 hmem
  rcases hs.current_busy h with hbusy | hbusy
  · rw [hready] at hbusy
    cases hbusy
  · rw [hready] at hbusy
    cases hbusy

/-- Under round robin the first one of the `pool` is chosen, and the others are the ready queue, in
the same order. -/
theorem Settled.pool_of_roundRobin (hs : s.Settled) {memory memory' : Memory} {t : State}
    {next : Option Pid}
    (h : (Discipline.roundRobin.policy.choose memory s).result = .ok (memory', t, next)) :
    s.pool = next.toList ++ t.ready := by
  change (Discipline.roundRobin.choose memory s).result = _ at h
  rw [Discipline.choose, result_bind, result_lift, hs.yieldTail_eq_ok, ok_bind] at h
  cases h
  rw [← ready_pooled]
  cases hready : s.pooled.ready with
  | nil => simp [Queue.pop]
  | cons first rest => simp [Queue.pop]

end State

/-! ## The line -/

/-- Whose turn it is, if the turn is not over yet. -/
def Phase.onTurn? : Phase → Option Pid
  | .requesting pid _ | .executing pid => some pid
  | _ => none

namespace Machine

variable {sc : Scenario} {m m' : Machine Memory} {pid : Pid}

/-- Those who can go on, in the order in which their turns come: whose turn it is, the ready queue,
and the current process once its turn is over. -/
def line (m : Machine Memory) : Queue :=
  match m.phase.onTurn? with
  | some pid => pid :: m.state.ready
  | none => m.state.ready ++ m.state.current.toList

theorem line_of_turn (h : m.phase.onTurn? = some pid) : m.line = pid :: m.state.ready := by
  rw [line, h]

theorem line_of_none (h : m.phase.onTurn? = none) :
    m.line = m.state.ready ++ m.state.current.toList := by
  rw [line, h]

/-- Whoever is ready or current makes up the `line`, so it is the same where these are. -/
theorem line_congr (hturn : m'.phase.onTurn? = m.phase.onTurn?)
    (hready : m'.state.ready = m.state.ready) (hcurrent : m'.state.current = m.state.current) :
    m'.line = m.line := by
  rw [line, line, hturn, hready, hcurrent]

/-- It is the turn of the current process: whoever is `onTurn?` is current. -/
theorem Steady.current_of_turn (hm : m.Steady sc) (h : m.phase.onTurn? = some pid) :
    m.state.current = some pid := by
  cases hphase : m.phase with
  | requesting who due =>
    rw [hphase] at h
    cases h
    exact (hm.fits_of hphase).runs.current
  | executing who =>
    rw [hphase] at h
    cases h
    exact (hm.fits_of hphase).runs.current
  | _ =>
    rw [hphase] at h
    cases h

/-- Whoever is in the `line` is ready or current. -/
theorem Steady.of_mem_line (hm : m.Steady sc) (h : pid ∈ m.line) :
    pid ∈ m.state.ready ∨ m.state.current = some pid := by
  cases hturn : m.phase.onTurn? with
  | some who =>
    rw [line_of_turn hturn] at h
    rcases List.mem_cons.1 h with rfl | h
    · exact Or.inr (hm.current_of_turn hturn)
    · exact Or.inl h
  | none =>
    rw [line_of_none hturn, List.mem_append, Option.mem_toList] at h
    exact h

/-- Nobody is twice in the `line`, since nobody is twice in the ready queue and the current process
is not in it. -/
theorem Steady.line_nodup (hm : m.Steady sc) : m.line.Nodup := by
  have hs := hm.stage.settled
  cases hturn : m.phase.onTurn? with
  | some who =>
    rw [line_of_turn hturn]
    exact List.nodup_cons.2
      ⟨hs.not_mem_ready_of_current (hm.current_of_turn hturn), hs.ready_nodup⟩
  | none =>
    rw [line_of_none hturn]
    refine List.Nodup.append hs.ready_nodup (by cases m.state.current <;> simp) fun who hw hc => ?_
    exact hs.not_mem_ready_of_current (Option.mem_toList.1 hc) hw

/-- Whoever may be chosen is in the `line`, in the same order. -/
theorem pool_sublist_line (hphase : m.phase = .choosing) :
    m.state.pool.Sublist m.line := by
  rw [line_of_none (by rw [hphase]; rfl)]
  refine (List.Sublist.refl _).append ?_
  cases hc : m.state.contender? with
  | none => exact List.nil_sublist _
  | some pid =>
    rw [(State.contender?_eq_some.1 hc).1]

/-- Between the two machines nobody has had a turn, and whoever's turn it is, it still is. -/
structure Rests (m m' : Machine Memory) : Prop where
  /-- it is the turn of the same process, or nobody's -/
  turn : m'.phase.onTurn? = m.phase.onTurn?
  /-- no slot has been filled -/
  slots : m'.slots = m.slots
  /-- the next slot is the same -/
  now : m'.now = m.now
  /-- the clock may have moved -/
  tick : m.state.tick ≤ m'.state.tick

/-- What a stride under round robin does to the `line`: it stays, somebody joins it, a choice is
carried out, or the first one goes to its end, because it executes or because it is refused. -/
inductive Shifts (m m' : Machine Memory) : Prop
  /-- the line stays as it is -/
  | keeps (hrests : m.Rests m') (hline : m'.line = m.line)
  /-- a process is put into the line -/
  | joins {pid : Pid} {front back : Queue} (hrests : m.Rests m') (hline : m.line = front ++ back)
      (hline' : m'.line = front ++ pid :: back) (hnew : pid ∉ m.line)
  /-- a choice is carried out; whoever cannot go on is taken out of the line -/
  | chooses (hphase : m.phase = .choosing) (hline : m'.line = m.state.pool)
      (htick : m'.state.tick = m.state.tick)
      (hslots : (m'.slots = m.slots ∧ m'.now = m.now) ∨
        m'.slots = m.slots ++ [(m.now, none)] ∧ m'.now = m.now + 1 ∧ m'.phase.onTurn? = none)
  /-- the first one in the line executes, and goes to the end of it -/
  | executes {pid : Pid} {rest : Queue} (hturn : m.phase.onTurn? = some pid)
      (hturn' : m'.phase.onTurn? = none) (hline : m.line = pid :: rest)
      (hline' : m'.line = rest ++ [pid]) (htick : m'.state.tick = m.state.tick)
      (hslots : m'.slots = m.slots ++ [(m.state.tick, some pid)]) (hnow : m.now = m.state.tick)
      (hnow' : m'.now = m.state.tick + 1)
  /-- the first one in the line is refused, and comes to stand at the end of it until somebody else
  is chosen -/
  | yields {pid : Pid} {rest : Queue} (hphase' : m'.phase = .choosing)
      (hline : m.line = pid :: rest) (hline' : m'.line = rest ++ [pid])
      (htick : m'.state.tick = m.state.tick) (hblocked : m'.state.status? pid = some .blocked)
      (hslots : m'.slots = m.slots)
      (hnow : m'.now = m.now) (hnow' : m.now = m.state.tick)

/-- A choice makes the `pool` the `line`: the chosen one, and the ready queue behind it. -/
theorem line_of_chosen (hs : m.state.Settled) {memory : Memory} {t : State} {next : Option Pid}
    (hP : (Discipline.roundRobin.policy.choose m.memory m.state).result = .ok (memory, t, next))
    (hturn : m'.phase.onTurn? = next) (hstate : m'.state = m.state.switched t next) :
    m'.line = m.state.pool := by
  rw [hs.pool_of_roundRobin hP]
  cases next with
  | some pid =>
    rw [line_of_turn hturn, hstate, State.ready_switched]
    rfl
  | none =>
    rw [line_of_none hturn, hstate, State.ready_switched, State.current_switched]
    exact List.append_nil _

/-- A newcomer is not in the `line`: whoever is in it is live. -/
theorem Steady.arrival_not_mem_line (hm : m.Steady sc) {job : Job} {rest : List Job}
    (hphase : m.phase = .arriving) (harrivals : m.arrivals = job :: rest) : job.pid ∉ m.line := by
  have hs := hm.stage.settled
  have hnew := (hm.stage_of_arriving hphase harrivals).process?_arrival
  intro hmem
  rcases hm.of_mem_line hmem with hmem | hcur
  · obtain ⟨p, hp⟩ := hs.process?_of_mem_ready hmem
    rw [hnew] at hp
    cases hp
  · obtain ⟨p, hp⟩ := hs.process?_of_current hcur
    rw [hnew] at hp
    cases hp

/-- Whoever waits for a resource that a process can call about is not in the `line`, since that
process is the current one. -/
theorem Steady.waiter_not_mem_line (hm : m.Steady sc) {r : ResourceId} {x : Resource} {w : Pid}
    (hcalls : m.state.Calls pid r x) (hw : w ∈ x.waiters) : w ∉ m.line := by
  have hs := hm.stage.settled
  have hwaits := (State.waits_iff hcalls.entry).2 hw
  intro hmem
  rcases hm.of_mem_line hmem with hmem | hcur
  · exact hs.not_waits_of_ready ((hs.mem_ready w).1 hmem) r hwaits
  · rw [hcalls.current] at hcur
    cases hcur
    exact hs.not_waits_of_running hcalls.running r hwaits

/-- A stride in which nobody executes and the policy is not asked `Rests` if it leaves the turn
where it is. -/
theorem Strides.rests {P : Policy Memory} {limit : Nat} (hstr : m.Strides P limit m')
    (hexec : ∀ who, m.phase ≠ .executing who) (hchoose : m.phase ≠ .choosing)
    (hturn : m'.phase.onTurn? = m.phase.onTurn?) (htick : m.state.tick ≤ m'.state.tick) :
    m.Rests m' := by
  obtain ⟨hslots, hnow⟩ := hstr.slots_eq hexec fun hphase => absurd hphase hchoose
  exact ⟨hturn, hslots, hnow, htick⟩

/-- While it is nobody's turn, a process that is put behind the ready queue `joins` the line, in
front of the current process. If there is no such process the line stays as it is. -/
theorem Shifts.of_ready_append (woken : Option Pid) (hnone : m.phase.onTurn? = none)
    (hrests : m.Rests m') (hready : m'.state.ready = m.state.ready ++ woken.toList)
    (hcurrent : m'.state.current = m.state.current) (hnew : ∀ w, woken = some w → w ∉ m.line) :
    m.Shifts m' := by
  have hline' : m'.line = m'.state.ready ++ m'.state.current.toList :=
    line_of_none (hrests.turn.trans hnone)
  rw [hready, hcurrent, List.append_assoc] at hline'
  cases woken with
  | none => exact .keeps hrests (hline'.trans (line_of_none hnone).symm)
  | some w => exact .joins hrests (line_of_none hnone) hline' (hnew w rfl)

/-- Every stride under round robin `Shifts` the `line`: the case split that `Alternates.strides` is
an induction step of. -/
theorem Steady.shifts (hm : m.Steady sc)
    (hstr : m.Strides Discipline.roundRobin.policy sc.limit m') : m.Shifts m' := by
  have hs := hm.stage.settled
  have hquiet := hstr.slots_eq
  have hexecutes := fun (who : Pid) (hphase : m.phase = .executing who) =>
    hstr.slots_of_executing hphase
  have hidles := hstr.slots_of_idle
  have htick := hstr.tick_eq
  have hrests := hstr.rests
  cases hstr with
  | @arrive job _ hphase harrivals =>
    refine .of_ready_append (some job.pid) (by rw [hphase]; rfl)
      (hrests (by simp [hphase]) (by simp [hphase]) (by rw [hphase]; rfl) (Nat.le_refl _)) rfl rfl
      ?_
    rintro _ ⟨⟩
    exact hm.arrival_not_mem_line hphase harrivals
  | drain hphase hP =>
    exact .chooses hphase (line_of_chosen hs hP rfl (carriedOut_state ..))
      (htick (by simp [hphase])) (Or.inl (hquiet (by simp [hphase]) (by simp)))
  | idle hphase hP =>
    obtain ⟨hslots, hnow⟩ := hidles hphase rfl
    exact .chooses hphase (line_of_chosen hs hP rfl (carriedOut_state ..))
      (htick (by simp [hphase])) (Or.inr ⟨hslots, hnow, rfl⟩)
  | turn hphase hP =>
    exact .chooses hphase (line_of_chosen hs hP rfl (carriedOut_state ..))
      (htick (by simp [hphase])) (Or.inl (hquiet (by simp [hphase]) (by simp)))
  | @grant pid _ _ _ _ _ _ _ hphase _ _ _ _ _ ht =>
    have hturn : m.phase.onTurn? = some pid := by rw [hphase]; rfl
    exact .keeps (hrests (by simp [hphase]) (by simp [hphase]) hturn.symm
      (htick (by simp [hphase])).ge) (line_congr hturn.symm ht.ready ht.current)
  | @refuse pid _ _ _ _ _ t hphase hcalls _ _ _ ht =>
    obtain ⟨hslots, hnow⟩ := hquiet (by simp [hphase]) (by simp [hphase])
    refine .yields rfl (line_of_turn (by rw [hphase]; rfl)) ?_ (htick (by simp [hphase])) ?_ hslots
      hnow (by rw [now, hphase]; rfl)
    · rw [line_of_none rfl]
      change t.ready ++ t.current.toList = _
      rw [ht.ready, ht.current]
      exact congrArg _ (congrArg Option.toList hcalls.current)
    · change t.status? pid = _
      rw [ht.status?, State.status?_park hcalls.running, if_pos rfl]
  | @execute pid _ _ _ _ hphase =>
    have hturn : m.phase.onTurn? = some pid := by rw [hphase]; rfl
    obtain ⟨hslots, hnow, hnow'⟩ := hexecutes pid hphase
    refine .executes hturn rfl (line_of_turn hturn) ?_ rfl hslots hnow hnow'
    rw [line_of_none rfl]
    exact congrArg _ (congrArg Option.toList (hm.fits_of hphase).runs.current)
  | @release pid r waiters due x y memory t woken hphase hcalls _ _ ht _ hwoken =>
    have hstate := recordWoken_state ((m.answered memory t).record (.released pid r)) r
      y.waiters waiters
    refine .of_ready_append woken (by rw [hphase]; rfl)
      (hrests (by simp [hphase]) (by simp [hphase]) (by rw [hphase]; rfl)
        (htick (by simp [hphase])).ge) ?_ ?_
      fun w hw => hm.waiter_not_mem_line hcalls (hwoken w hw)
    · refine (congrArg State.ready hstate).trans (ht.ready.trans ?_)
      exact State.ready_vacate ..
    · refine (congrArg State.current hstate).trans (ht.current.trans ?_)
      exact State.current_vacate ..
  | tick hphase =>
    exact .keeps (hrests (by simp [hphase]) (by simp [hphase]) (by rw [hphase]; rfl)
      (Nat.le_succ _)) (line_congr (by rw [hphase]; rfl) rfl rfl)
  | _ hphase =>
    exact .keeps (hrests (by simp [hphase]) (by simp [hphase]) (by rw [hphase]; rfl)
      (Nat.le_refl _)) (line_congr (by rw [hphase]; rfl) rfl rfl)

/-! ## Turns in a span of ticks -/

variable {peers : List Pid} {first last : Nat}

/-- In how many ticks of the span, up to now, the process has executed: its `slots` there. -/
def ranWithin (m : Machine Memory) (first last : Nat) (pid : Pid) : Nat :=
  m.slots.countP fun slot => slot.2 = some pid ∧ first ≤ slot.1 ∧ slot.1 ≤ last

theorem ranWithin_congr (h : m'.slots = m.slots) (first last : Nat) :
    m'.ranWithin first last = m.ranWithin first last := by
  funext pid
  rw [ranWithin, ranWithin, h]

/-- Of the slots in the span, each is one more tick of the process that has it, and of nobody
else. -/
theorem ranWithin_concat {tick : Nat} {who : Option Pid} (h : m'.slots = m.slots ++ [(tick, who)])
    (first last : Nat) (pid : Pid) :
    m'.ranWithin first last pid = m.ranWithin first last pid +
      if who = some pid ∧ first ≤ tick ∧ tick ≤ last then 1 else 0 := by
  rw [ranWithin, ranWithin, h, List.countP_append, List.countP_singleton]
  simp only [decide_eq_true_eq]

/-- Before the span nobody has executed in it, since the slots are those of the ticks up to
`now`. -/
theorem Clocked.ranWithin_eq_zero (h : m.Clocked) (hnow : m.now ≤ first) (last : Nat) (pid : Pid) :
    m.ranWithin first last pid = 0 := by
  apply List.countP_eq_zero.2
  intro slot hslot hin
  have hlt := h.lt_now hslot
  have hle := (of_decide_eq_true hin).2.1
  omega

/-- If the policy is asked in the span of ticks, all of `peers` are able to go on. -/
def AbleWithin (peers : List Pid) (first last : Nat) (m : Machine Memory) : Prop :=
  m.phase = .choosing → first ≤ m.state.tick → m.state.tick ≤ last →
    ∀ p ∈ peers, m.state.isAble p = true

/-- Up to now the processes take turns in the span of ticks. -/
structure Alternates (peers : List Pid) (first last : Nat) (m : Machine Memory) : Prop where
  /-- the slots have been filled in order -/
  clocked : m.Clocked
  /-- after the policy has been asked in the span, they are in the line -/
  present : first < m.now ∨ first = m.now ∧ m.phase.onTurn?.isSome = true →
    m.state.tick ≤ last → ∀ p ∈ peers, p ∈ m.line
  /-- they take turns as they stand in the line -/
  inTurn : m.state.tick ≤ last → InTurn peers m.line (m.ranWithin first last)
  /-- none of them has had two turns more than another -/
  near : ∀ p ∈ peers, ∀ q ∈ peers, m.ranWithin first last p ≤ m.ranWithin first last q + 1

namespace Alternates

theorem initial (sc : Scenario) (memory : Memory) (peers : List Pid) (first last : Nat) :
    (Machine.initial sc memory).Alternates peers first last where
  clocked := .initial sc memory
  present hopen := by
    rcases hopen with hopen | ⟨-, hturn⟩
    · exact absurd hopen (Nat.not_lt_zero first)
    · cases hturn
  inTurn _ := .of_zero fun _ => rfl
  near _ _ _ _ := Nat.zero_le _

/-! One lemma for each way in which a stride `Shifts` the line. -/

section Shifts

variable (h : m.Alternates peers first last) (hclocked' : m'.Clocked)
include h hclocked'

/-- Where a machine `Rests` and its line is kept, nothing has changed. -/
theorem keeps (hrests : m.Rests m') (hline : m'.line = m.line) :
    m'.Alternates peers first last := by
  have hran := ranWithin_congr hrests.slots first last
  refine ⟨hclocked', fun hopen hle => ?_, fun hle => ?_, ?_⟩
  · rw [hrests.now, hrests.turn] at hopen
    rw [hline]
    exact h.present hopen (hrests.tick.trans hle)
  · rw [hran, hline]
    exact h.inTurn (hrests.tick.trans hle)
  · rw [hran]
    exact h.near

/-- Once the span has begun, whoever joins the line is none of `peers`; before, nobody has been
counted. -/
theorem joins {front back : Queue} (hrests : m.Rests m') (hline : m.line = front ++ back)
    (hline' : m'.line = front ++ pid :: back) (hnew : pid ∉ m.line) :
    m'.Alternates peers first last := by
  have hran := ranWithin_congr hrests.slots first last
  refine ⟨hclocked', fun hopen hle p hp => ?_, fun hle => ?_, ?_⟩
  · rw [hrests.now, hrests.turn] at hopen
    have hmem := h.present hopen (hrests.tick.trans hle) p hp
    rw [hline, List.mem_append] at hmem
    rw [hline', List.mem_append]
    exact hmem.imp_right (List.mem_cons_of_mem pid)
  · rw [hran, hline']
    rcases Nat.lt_or_ge first m.now with hopen | hnow
    · apply InTurn.insert (hline ▸ h.inTurn (hrests.tick.trans hle))
      intro hpid
      exact hnew (h.present (Or.inl hopen) (hrests.tick.trans hle) pid hpid)
    · exact .of_zero (h.clocked.ranWithin_eq_zero hnow last)
  · rw [hran]
    exact h.near

/-- A choice that makes the pool the line leaves all of `peers` in it that are able to go on, and
counts nobody. -/
theorem chooses (hm : m.Steady sc) (hable : m.AbleWithin peers first last)
    (hphase : m.phase = .choosing) (hline : m'.line = m.state.pool)
    (htick : m'.state.tick = m.state.tick)
    (hslots : (m'.slots = m.slots ∧ m'.now = m.now) ∨
      m'.slots = m.slots ++ [(m.now, none)] ∧ m'.now = m.now + 1 ∧ m'.phase.onTurn? = none) :
    m'.Alternates peers first last := by
  have hnow : m.now = m.state.tick := now_of_choosing hphase
  have hran : m'.ranWithin first last = m.ranWithin first last := by
    rcases hslots with ⟨hslots, -⟩ | ⟨hslots, -, -⟩
    · exact ranWithin_congr hslots first last
    · funext p
      rw [ranWithin_concat hslots, if_neg (by simp), Nat.add_zero]
  refine ⟨hclocked', fun hopen hle p hp => ?_, fun hle => ?_, ?_⟩
  · have hfirst : first ≤ m.state.tick := by
      rcases hslots with ⟨-, hnow'⟩ | ⟨-, hnow', hturn⟩
      · omega
      · rcases hopen with hopen | ⟨-, hopen⟩
        · omega
        · rw [hturn] at hopen
          cases hopen
    rw [hline]
    exact hm.stage.settled.mem_pool_of_isAble (hable hphase hfirst (htick ▸ hle) p hp)
  · rw [hran, hline]
    exact (h.inTurn (htick ▸ hle)).of_sublist (pool_sublist_line hphase)
  · rw [hran]
    exact h.near

/-- The first one of the line executes and goes to the end of it: within the span it is counted, and
then `InTurn.rotate` applies. -/
theorem executes {rest : Queue} (hm : m.Steady sc) (hturn : m.phase.onTurn? = some pid)
    (hturn' : m'.phase.onTurn? = none) (hline : m.line = pid :: rest)
    (hline' : m'.line = rest ++ [pid]) (htick : m'.state.tick = m.state.tick)
    (hslots : m'.slots = m.slots ++ [(m.state.tick, some pid)]) (hnow : m.now = m.state.tick)
    (hnow' : m'.now = m.state.tick + 1) : m'.Alternates peers first last := by
  have hran := ranWithin_concat hslots first last
  have hpresent : first ≤ m.state.tick → m.state.tick ≤ last → ∀ p ∈ peers, p ∈ m'.line := by
    intro hfirst hle p hp
    have hmem := h.present (hnow ▸ (Nat.lt_or_eq_of_le hfirst).imp_right fun heq =>
      ⟨heq, by rw [hturn]; rfl⟩) hle p hp
    rw [hline] at hmem
    rw [hline', List.mem_append, List.mem_singleton]
    exact (List.mem_cons.1 hmem).symm
  have hinTurn : m.state.tick ≤ last → InTurn peers m'.line (m'.ranWithin first last) := by
    intro hle
    rcases Nat.lt_or_ge m.state.tick first with hlt | hfirst
    · exact .of_zero (hclocked'.ranWithin_eq_zero (hnow' ▸ hlt) last)
    · rw [hline']
      apply (hline ▸ h.inTurn hle).rotate (hline ▸ hm.line_nodup)
      intro q
      rw [hran]
      simp [hfirst, hle]
  refine ⟨hclocked', fun hopen hle => ?_, fun hle => hinTurn (htick ▸ hle), ?_⟩
  · refine hpresent ?_ (htick ▸ hle)
    rw [hnow', hturn'] at hopen
    rcases hopen with hopen | ⟨-, hopen⟩
    · exact Nat.le_of_lt_succ hopen
    · cases hopen
  · rcases Nat.lt_or_ge m.state.tick first with hlt | hfirst
    · intro p _ q _
      rw [hclocked'.ranWithin_eq_zero (hnow' ▸ hlt) last p]
      exact Nat.zero_le _
    · rcases Nat.lt_or_ge last m.state.tick with hlt | hle
      · -- Whoever executes after the span is not counted.
        intro p hp q hq
        rw [hran, hran, if_neg (by omega), if_neg (by omega)]
        exact h.near p hp q hq
      · exact (hinTurn hle).near (hpresent hfirst hle)

/-- The first one of the line is refused. It is blocked then, so within the span it is none of
`peers`, and goes to the end of the line by `InTurn.drop_head`. -/
theorem yields {rest : Queue} (hable' : m'.AbleWithin peers first last)
    (hphase' : m'.phase = .choosing) (hline : m.line = pid :: rest)
    (hline' : m'.line = rest ++ [pid]) (htick : m'.state.tick = m.state.tick)
    (hblocked : m'.state.status? pid = some .blocked) (hslots : m'.slots = m.slots)
    (hnow : m'.now = m.now) (hnow' : m.now = m.state.tick) : m'.Alternates peers first last := by
  have hran := ranWithin_congr hslots first last
  have hturn' : m'.phase.onTurn? = none := by rw [hphase']; rfl
  refine ⟨hclocked', fun hopen hle p hp => ?_, fun hle => ?_, ?_⟩
  · rw [hnow, hturn'] at hopen
    rcases hopen with hopen | ⟨-, hopen⟩
    · have hmem := h.present (Or.inl hopen) (htick ▸ hle) p hp
      rw [hline] at hmem
      rw [hline', List.mem_append, List.mem_singleton]
      exact (List.mem_cons.1 hmem).symm
    · cases hopen
  · rw [hran, hline']
    rcases Nat.lt_or_ge m.state.tick first with hlt | hfirst
    · exact .of_zero (h.clocked.ranWithin_eq_zero (hnow' ▸ hlt.le) last)
    · apply InTurn.drop_head (hline ▸ h.inTurn (htick ▸ hle))
      intro hpid
      exact State.not_isAble_of_blocked hblocked
        (hable' hphase' (htick.symm ▸ hfirst) hle pid hpid)
  · rw [hran]
    exact h.near

end Shifts

/-- Every stride under round robin preserves `Alternates`, as long as all of `peers` are able to go
on when the policy is asked. -/
theorem strides (hm : m.Steady sc) (h : m.Alternates peers first last)
    (hstr : m.Strides Discipline.roundRobin.policy sc.limit m')
    (hable : m.AbleWithin peers first last) (hable' : m'.AbleWithin peers first last) :
    m'.Alternates peers first last := by
  have hclocked' := h.clocked.strides hstr
  cases hm.shifts hstr with
  | keeps hrests hline => exact h.keeps hclocked' hrests hline
  | joins hrests hline hline' hnew => exact h.joins hclocked' hrests hline hline' hnew
  | chooses hphase hline htick hslots =>
    exact h.chooses hclocked' hm hable hphase hline htick hslots
  | executes hturn hturn' hline hline' htick hslots hnow hnow' =>
    exact h.executes hclocked' hm hturn hturn' hline hline' htick hslots hnow hnow'
  | yields hphase' hline hline' htick hblocked hslots hnow hnow' =>
    exact h.yields hclocked' hable' hphase' hline hline' htick hblocked hslots hnow hnow'

end Alternates

end Machine

/-- In how many ticks of the span a process executed, by the events of the trace. -/
def Trace.ranWithin (t : Trace) (first last : Nat) (pid : Pid) : Nat :=
  t.events.countP fun e => e.what = .executed pid ∧ first ≤ e.tick ∧ e.tick ≤ last

/-- The ticks of a process are the slots that it has, so both ways of counting come to the same. -/
theorem Trace.countP_slotsOf (events : List Event) (first last : Nat) (pid : Pid) :
    ((slotsOf events).countP fun slot => slot.2 = some pid ∧ first ≤ slot.1 ∧ slot.1 ≤ last) =
      events.countP fun e => e.what = .executed pid ∧ first ≤ e.tick ∧ e.tick ≤ last := by
  rw [slotsOf, List.countP_filterMap]
  apply List.countP_congr
  rintro ⟨tick, what⟩ -
  cases what <;> simp [Event.slot?, Event.turn?]

/-- The ticks of a process in a trace are those that its machine has counted by `slots`. -/
theorem Machine.ranWithin_eq (m : Machine Memory) (exit : Exit) (first last : Nat) (pid : Pid) :
    Trace.ranWithin ⟨m.events.toList, exit, m.state.tick⟩ first last pid =
      m.ranWithin first last pid := (Trace.countP_slotsOf _ first last pid).symm

namespace Scenario

variable {sc : Scenario}

/-- Under round robin **turns alternate**: if two processes are live and unfinished and do not wait
whenever the policy is asked in a span of ticks, neither of them executes more often in the span, by
`Trace.ranWithin`, than once more than the other, whatever becomes of the other processes. -/
theorem Admitted.turns_alternate (h : sc.Admitted) (memory : Memory) :
    ∃ t, (sc.run Discipline.roundRobin.policy memory sc.stepBound).trace? = some t ∧
      ∀ (p q : Pid) (first last : Nat),
        (∀ m, sc.Reaches Discipline.roundRobin.policy memory m → m.phase = .choosing →
          first ≤ m.state.tick → m.state.tick ≤ last →
          m.state.isAble p = true ∧ m.state.isAble q = true) →
        t.ranWithin first last p ≤ t.ranWithin first last q + 1 ∧
          t.ranWithin first last q ≤ t.ranWithin first last p + 1 := by
  obtain ⟨exit, -, hreach, hphase⟩ :=
    h.reaches_end (d := .roundRobin) (fun hd => nomatch hd.1) memory
  refine ⟨_, hreach.trace?_of_over h Discipline.roundRobin.lawful hphase, ?_⟩
  intro p q first last hable
  have hwithin : ∀ {m : Machine Memory}, sc.Reaches Discipline.roundRobin.policy memory m →
      m.AbleWithin [p, q] first last := by
    intro m hm hch hfirst hlast x hx
    obtain ⟨hp, hq⟩ := hable m hm hch hfirst hlast
    rcases List.mem_pair.1 hx with rfl | rfl
    · exact hp
    · exact hq
  have halt := hreach.invariant_of_reached h Discipline.roundRobin.lawful
    (I := fun m => m.Alternates [p, q] first last)
    (fun memory => .initial sc memory [p, q] first last)
    (fun hm hreach hI hstr hreach' => hI.strides hm hstr (hwithin hreach) (hwithin hreach'))
    (by rw [hphase]; rfl)
  rw [Machine.ranWithin_eq, Machine.ranWithin_eq]
  exact ⟨halt.near p (by simp) q (by simp), halt.near q (by simp) p (by simp)⟩

/-- Two processes that execute in turn. A third one arrives, asks for what the first one holds, and
is woken. -/
def interrupted : Scenario where
  resourceCount := 1
  ceiling := 0
  limit := 100
  jobs := [
    { pid := 1, lifespan := 4, requests := [⟨0, 0, 3⟩] },
    { pid := 2, lifespan := 3 },
    { pid := 3, start := 1, lifespan := 1, requests := [⟨0, 0, 1⟩] }]

theorem admitted_interrupted : interrupted.Admitted where
  built := ⟨⟨1, 0, 100, interrupted.jobs, 3⟩, rfl⟩
  lifespan_lt := by decide
  limit_le := by decide

/-- From the second to the sixth tick the first process executes twice and the second one three
times, while the third one arrives, is refused and is woken. -/
theorem turns_alternate_interrupted :
    ∃ t, (interrupted.run Discipline.roundRobin.policy none interrupted.stepBound).trace? = some t ∧
      t.ranWithin 1 5 1 = 2 ∧ t.ranWithin 1 5 2 = 3 ∧ ⟨2, .refused 3 0⟩ ∈ t.events ∧
      ⟨4, .woken 3 0⟩ ∈ t.events ∧ t.ranWithin 1 5 2 ≤ t.ranWithin 1 5 1 + 1 := by
  have hm : interrupted.Reaches Discipline.roundRobin.policy none _ :=
    .of_sorted (by decide) rfl 120
  have hreach := hm.trace?_of_over admitted_interrupted Discipline.roundRobin.lawful
    (rfl : _ = Phase.over .normal)
  obtain ⟨t, ht, hturns⟩ := admitted_interrupted.turns_alternate none
  cases hreach.symm.trans ht
  refine ⟨_, ht, rfl, rfl, by decide, by decide, (hturns 1 2 1 5 ?_).2⟩
  intro m hm hphase hfirst hlast
  have hall := hm.of_throughout (Q := fun m => m.phase = .choosing → 1 ≤ m.state.tick →
    m.state.tick ≤ 5 → m.state.isAble 1 = true ∧ m.state.isAble 2 = true)
    Discipline.roundRobin.lawful (by decide) rfl 120 rfl
  exact of_decide_eq_true hall hphase hfirst hlast

end Scenario

end Uniprocessor
