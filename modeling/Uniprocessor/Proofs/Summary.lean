import Mathlib.Algebra.BigOperators.Group.List.Lemmas
import Uniprocessor.Proofs.Gathering
import Uniprocessor.Proofs.Metering

/-!
# What the summary of a run says

The summary of a run lists exactly those who arrived, by number, and what it says of each is what
the events say when they are asked (`Trace.Summarised`). Its differences of ticks are never cut off
at zero, since a process arrives before it executes, leaves after that, and executes at most once in
a tick. So the ticks that a process waited are those between its arrival and its leaving in which it
did not have the processor.

All of this follows from the order in which a run records events (`Trace.Orderly`).
-/

namespace Uniprocessor

namespace Trace

variable {sc : Scenario} {t : Trace} {p : Account} {pid : Pid} {tick arrived exit : Nat}

/-- Events are in the order of the clock, one for each turn, and in their places; and nobody arrives
twice. -/
structure Orderly (sc : Scenario) (t : Trace) : Prop where
  /-- ticks never decrease -/
  ordered : t.events.Pairwise fun e later => e.tick ≤ later.tick
  /-- the turns are those of the ticks, one after the other -/
  clocked : (slotsOf t.events).map Prod.fst = List.range t.turns.length
  /-- nothing happens after the turns -/
  past : ∀ e ∈ t.events, e.tick ≤ t.turns.length
  /-- every event is in its place -/
  placed : ∀ before e after, t.events = before ++ e :: after → e.Placed sc before
  /-- nothing is told of a process before it arrives, and nobody leaves twice -/
  timely : ∀ before e after, t.events = before ++ e :: after → Summary.Timely before e

/-- What a summary says is what the events say. -/
structure Summarised (t : Trace) : Prop where
  /-- processes are listed by number, and none twice -/
  ordered : (t.summary.accounts.map Account.pid).Pairwise (· < ·)
  /-- those are listed who arrived -/
  listed : ∀ pid, pid ∈ t.summary.accounts.map Account.pid ↔ ∃ tick, ⟨tick, .arrived pid⟩ ∈ t.events
  /-- when a process arrived -/
  arrived : ∀ p ∈ t.summary.accounts, t.arrivalTick p.pid = some p.arrived
  /-- when it left -/
  left : ∀ p ∈ t.summary.accounts, t.departureTick p.pid = p.left
  /-- how often it executed -/
  ran : ∀ p ∈ t.summary.accounts, t.ranCount p.pid = p.ran
  /-- how often it asked in vain -/
  refusals : ∀ p ∈ t.summary.accounts, t.refusalCount p.pid = p.refusals
  /-- how long it took from its arrival to its leaving -/
  turnaround : ∀ p ∈ t.summary.accounts, t.turnaround p.pid = p.turnaround
  /-- when it executed first -/
  firstRun : ∀ p ∈ t.summary.accounts, t.tickOf (.executed p.pid) = p.firstRun
  /-- it arrived before it executed -/
  response : ∀ p ∈ t.summary.accounts, ∀ first, p.firstRun = some first → p.arrived ≤ first
  /-- it left after it arrived, had time to execute as often as it did, and waited in the ticks
  between in which it did not execute -/
  waiting : ∀ p ∈ t.summary.accounts, ∀ exit, p.left = some exit →
    p.arrived ≤ exit ∧ p.ran ≤ exit - p.arrived ∧ exit ≤ t.turns.length ∧
    p.waiting = some ((List.range' p.arrived (exit - p.arrived)).countP fun tick =>
      t.turns[tick]? ≠ some (some p.pid))
  /-- every tick is one in which somebody executed, or an idle one -/
  total : (t.summary.accounts.map Account.ran).sum + t.summary.idleTicks = t.turns.length

/-- What is dated by `tickOf` has happened in that tick. -/
theorem mem_of_tickOf {what : Happening} (h : t.tickOf what = some tick) :
    ⟨tick, what⟩ ∈ t.events := by
  obtain ⟨e, he, rfl⟩ := Option.map_eq_some_iff.1 h
  have hwhat : e.what = what :=
    of_decide_eq_true (List.find?_some (p := fun f : Event => f.what = what) he)
  exact hwhat ▸ List.mem_of_find?_eq_some he

/-- Nobody executes after its `lastExecution`, where the events are in the order of the clock. -/
theorem le_lastExecution {events : List Event} {last : Nat}
    (hordered : events.Pairwise fun e later => e.tick ≤ later.tick)
    (hran : ⟨tick, .executed pid⟩ ∈ events) (hlast : lastExecution events pid = some last) :
    tick ≤ last := by
  obtain ⟨e, he, rfl⟩ := Option.map_eq_some_iff.1 hlast
  have hmem : (⟨tick, .executed pid⟩ : Event) ∈ events.filter fun e => e.what = .executed pid :=
    List.mem_filter.2 ⟨hran, by simp⟩
  have hsorted := hordered.filter fun e => e.what = .executed pid
  rw [← List.dropLast_append_getLast? e he] at hmem hsorted
  rcases List.mem_append.1 hmem with hmem | hmem
  · exact (List.pairwise_append.1 hsorted).2.2 _ hmem e (List.mem_singleton_self e)
  · exact Nat.le_of_eq (congrArg Event.tick (List.mem_singleton.1 hmem))

namespace Orderly

/-- What happened before something else happened in the same tick or in an earlier one, as a trace
that is `Orderly` has it. -/
theorem le_of_before (h : t.Orderly sc) {before after : List Event} {e f : Event}
    (heq : t.events = before ++ e :: after) (hf : f ∈ before) : f.tick ≤ e.tick := by
  have hordered := h.ordered
  rw [heq] at hordered
  exact (List.pairwise_append.1 hordered).2.2 f hf e (List.mem_cons_self ..)

/-- Nobody arrives twice in a trace that is `Orderly`, so two arrivals of a process are in one
tick. -/
theorem arrived_unique (h : t.Orderly sc) {tick' : Nat} (hmem : ⟨tick, .arrived pid⟩ ∈ t.events)
    (hmem' : ⟨tick', .arrived pid⟩ ∈ t.events) : tick' = tick := by
  obtain ⟨before, after, heq⟩ := List.append_of_mem hmem
  rw [heq, List.mem_append, List.mem_cons] at hmem'
  rcases hmem' with hbefore | hsame | hafter
  · exact absurd rfl ((h.timely _ _ _ heq).newcomer pid rfl _ hbefore)
  · exact congrArg Event.tick hsame
  · obtain ⟨mid, rest, rfl⟩ := List.append_of_mem hafter
    have hlater := h.timely (before ++ ⟨tick, .arrived pid⟩ :: mid) ⟨tick', .arrived pid⟩ rest
      (by rw [heq]; simp)
    exact absurd rfl (hlater.newcomer pid rfl ⟨tick, .arrived pid⟩ (by simp))

/-- A process arrives before anything else is told of it, so its arrival is in no later tick. -/
theorem arrived_le (h : t.Orderly sc) (harrived : t.arrivalTick pid = some arrived) {e : Event}
    (he : e ∈ t.events) (hpid : e.what.pid? = some pid) : arrived ≤ e.tick := by
  have hmem := mem_of_tickOf harrived
  obtain ⟨before, after, heq⟩ := List.append_of_mem he
  rcases (h.placed _ _ _ heq).arrived hpid with hwhat | ⟨tick, htick⟩
  · obtain ⟨when', what⟩ := e
    cases hwhat
    exact (h.arrived_unique hmem he).ge
  · have hearlier : (⟨tick, .arrived pid⟩ : Event) ∈ t.events :=
      heq ▸ List.mem_append_left _ htick
    exact (h.arrived_unique hmem hearlier).ge.trans (h.le_of_before heq htick)

/-- Nobody executes after it has left, and not in that tick either, as events of a trace that is
`Orderly` are in their places. -/
theorem lt_left (h : t.Orderly sc) (hleft : t.departureTick pid = some exit)
    (hran : ⟨tick, .executed pid⟩ ∈ t.events) : tick < exit := by
  obtain ⟨before, after, heq⟩ := List.append_of_mem (mem_of_tickOf hleft)
  obtain ⟨job, -, -, -, last, hlast, hexit⟩ := (h.placed _ _ _ heq).leaving rfl
  rw [heq, List.mem_append, List.mem_cons] at hran
  rcases hran with hbefore | hsame | hafter
  · have hordered := h.ordered
    rw [heq] at hordered
    have hle := le_lastExecution (List.pairwise_append.1 hordered).1 hbefore hlast
    change exit = last + 1 at hexit
    omega
  · cases hsame
  · obtain ⟨mid, rest, rfl⟩ := List.append_of_mem hafter
    have hlater := h.placed (before ++ ⟨exit, .left pid⟩ :: mid) ⟨tick, .executed pid⟩ rest
      (by rw [heq]; simp)
    exact absurd (by simp) (hlater.staying rfl exit)

end Orderly

/-! ## The turns of a process -/

/-- Turns are counted tick by tick: the turns of a process are the ticks in which it has one. -/
theorem count_eq_range (turns : List (Option Pid)) (who : Option Pid) :
    turns.count who = (List.range turns.length).countP fun tick => turns[tick]? = some who := by
  induction turns with
  | nil => rfl
  | cons first rest ih =>
    rw [List.count_cons, ih, List.length_cons, List.range_succ_eq_map, List.countP_cons,
      List.countP_map]
    simp [Function.comp_def]

/-- What is only found within bounds is counted there: how the ticks of a process between arrival
and departure are counted. -/
theorem countP_range {n a b : Nat} {q : Nat → Bool} (hab : a ≤ b) (hbn : b ≤ n)
    (hq : ∀ i, q i = true → a ≤ i ∧ i < b) :
    (List.range n).countP q = (List.range' a (b - a)).countP q := by
  have hsplit : List.range n =
      List.range' 0 a ++ List.range' a (b - a) ++ List.range' b (n - b) := by
    have hfirst := List.range'_append_1 (s := 0) (m := a) (n := b - a)
    have hsecond := List.range'_append_1 (s := 0) (m := b) (n := n - b)
    rw [Nat.zero_add, Nat.add_sub_cancel' hab] at hfirst
    rw [Nat.zero_add, Nat.add_sub_cancel' hbn] at hsecond
    rw [hfirst, hsecond, List.range_eq_range']
  have hnone : ∀ {k l}, (∀ i, k ≤ i → i < k + l → i < a ∨ b ≤ i) →
      (List.range' k l).countP q = 0 := by
    intro k l hout
    refine List.countP_eq_zero.2 fun i hi hqi => ?_
    rw [List.mem_range'_1] at hi
    have := hq i hqi
    have := hout i hi.1 hi.2
    omega
  rw [hsplit, List.countP_append, List.countP_append, hnone fun i _ h => Or.inl (by omega),
    hnone fun i h _ => Or.inr h, Nat.zero_add, Nat.add_zero]

/-- A number is found as often as it is listed: a sum of ones and zeros is `List.count`. -/
theorem sum_map_ite (q : Pid) (pids : List Pid) :
    (pids.map fun pid => if q = pid then 1 else 0).sum = pids.count q := by
  induction pids with
  | nil => rfl
  | cons pid rest ih =>
    rw [List.map_cons, List.sum_cons, ih, List.count_cons, Nat.add_comm]
    by_cases h : q = pid
    · simp [h]
    · simp [h, Ne.symm h]

/-- Those who take turns take all of them, together with nobody: the totals of the summary add up to
the turns of the run. -/
theorem sum_count_turns {pids : List Pid} (hnodup : pids.Nodup) {turns : List (Option Pid)}
    (hturns : ∀ pid, some pid ∈ turns → pid ∈ pids) :
    (pids.map fun pid => turns.count (some pid)).sum + turns.count none = turns.length := by
  induction turns with
  | nil => simp
  | cons who rest ih =>
    have hrest := ih fun pid hpid => hturns pid (List.mem_cons_of_mem _ hpid)
    cases who with
    | none =>
      have hnone : ∀ pid, (none :: rest).count (some pid) = rest.count (some pid) := fun pid =>
        List.count_cons_of_ne (by simp)
      simp only [hnone, List.count_cons_self, List.length_cons]
      omega
    | some q =>
      have hcount : ∀ pid, (some q :: rest).count (some pid) =
          rest.count (some pid) + if q = pid then 1 else 0 := fun pid => by
        simp [List.count_cons]
      have hq := List.count_eq_one_of_mem hnodup (hturns q (List.mem_cons_self ..))
      simp only [hcount, List.sum_map_add, sum_map_ite, hq, List.length_cons]
      rw [List.count_cons_of_ne (by simp)]
      omega

/-- A process executed as often as it had a turn: `ranCount` counts what `turns` lists. -/
theorem ranCount_eq (t : Trace) (pid : Pid) : t.ranCount pid = t.turns.count (some pid) := by
  rw [ranCount, turns, List.count, List.countP_filterMap]
  refine List.countP_congr fun e _ => ?_
  obtain ⟨tick, what⟩ := e
  cases what <;> simp [Event.turn?]

theorem idleTicks_eq (t : Trace) : t.idleTicks = t.turns.count none := by
  rw [idleTicks, turns, List.count, List.countP_filterMap]
  refine List.countP_congr fun e _ => ?_
  obtain ⟨tick, what⟩ := e
  cases what <;> simp [Event.turn?]

namespace Orderly

/-- Whoever has the turn of a tick executes in that tick, since there is one turn for each tick. -/
theorem executed_of_turn (h : t.Orderly sc) (hturn : t.turns[tick]? = some (some pid)) :
    ⟨tick, .executed pid⟩ ∈ t.events := by
  rw [turns, ← map_snd_slotsOf, List.getElem?_map, Option.map_eq_some_iff] at hturn
  obtain ⟨⟨when, who⟩, hslot, rfl⟩ := hturn
  have hwhen := congrArg (·[tick]?) h.clocked
  simp only [List.getElem?_map, hslot, Option.map_some] at hwhen
  obtain ⟨hlt, hrange⟩ := List.getElem?_eq_some_iff.1 hwhen.symm
  rw [List.getElem_range] at hrange
  subst hrange
  exact mem_slotsOf_executed.1 (List.mem_of_getElem? hslot)

/-- What the summary says of a process it says of no other, and as the events say it: each field of
its account is the answer to the question. -/
theorem of_mem_accounts (h : t.Orderly sc) (hp : p ∈ t.summary.accounts) :
    t.arrivalTick p.pid = some p.arrived ∧ t.departureTick p.pid = p.left ∧
      t.ranCount p.pid = p.ran ∧ t.refusalCount p.pid = p.refusals ∧
      t.tickOf (.executed p.pid) = p.firstRun := by
  have haccount := (mem_accounts_iff h.timely).1 hp
  obtain ⟨arrived, harrived, heq⟩ := Option.map_eq_some_iff.1 haccount
  exact ⟨harrived.trans (congrArg (some ∘ Account.arrived) heq), congrArg Account.left heq,
    congrArg Account.ran heq, congrArg Account.refusals heq, congrArg Account.firstRun heq⟩

/-- Those are listed in the `summary` who arrived, and nobody else, each under its number. -/
theorem mem_map_pid_accounts (h : t.Orderly sc) :
    pid ∈ t.summary.accounts.map Account.pid ↔ ∃ tick, ⟨tick, .arrived pid⟩ ∈ t.events := by
  constructor
  · intro hpid
    obtain ⟨p, hp, rfl⟩ := List.mem_map.1 hpid
    exact ⟨_, mem_of_tickOf (h.of_mem_accounts hp).1⟩
  · rintro ⟨tick, htick⟩
    obtain ⟨first, hfirst, -⟩ := exists_tickOf htick
    obtain ⟨p, hp, hpid⟩ : ∃ p, t.account? pid = some p ∧ p.pid = pid :=
      ⟨_, congrArg (Option.map _) hfirst, rfl⟩
    exact List.mem_map.2 ⟨p, (mem_accounts_iff h.timely).2 (hpid ▸ hp), hpid⟩

/-- A process executes between its arrival and its leaving only, and in other ticks it waits: what
the summary calls `waiting` is the number of turns in between that it did not have, and nothing is
cut off at zero. -/
theorem waiting_eq (h : t.Orderly sc) (hp : p ∈ t.summary.accounts) (hleft : p.left = some exit) :
    p.arrived ≤ exit ∧ p.ran ≤ exit - p.arrived ∧ exit ≤ t.turns.length ∧
      p.waiting = some ((List.range' p.arrived (exit - p.arrived)).countP fun tick =>
        t.turns[tick]? ≠ some (some p.pid)) := by
  obtain ⟨harrived, hdeparted, hran, -, -⟩ := h.of_mem_accounts hp
  rw [hleft] at hdeparted
  have hmem := mem_of_tickOf hdeparted
  have hle := h.arrived_le harrived hmem rfl
  have hlength : exit ≤ t.turns.length := h.past _ hmem
  have hcount : p.ran = (List.range' p.arrived (exit - p.arrived)).countP fun tick =>
      t.turns[tick]? = some (some p.pid) := by
    rw [← hran, ranCount_eq, count_eq_range]
    refine countP_range hle hlength fun tick hturn => ?_
    have hexec := h.executed_of_turn (of_decide_eq_true hturn)
    exact ⟨h.arrived_le harrived hexec rfl, h.lt_left hdeparted hexec⟩
  have htotal := List.length_eq_countP_add_countP
    (fun tick => decide (t.turns[tick]? = some (some p.pid)))
    (l := List.range' p.arrived (exit - p.arrived))
  rw [List.length_range', ← hcount] at htotal
  refine ⟨hle, by omega, hlength, ?_⟩
  rw [Account.waiting, Account.turnaround, hleft, Option.map_some, Option.map_some,
    Nat.sub_eq_of_eq_add' htotal]
  simp

/-- The summary of a trace that is `Orderly` says what the events say: all parts of `Summarised`. -/
theorem summary_agrees (h : t.Orderly sc) : t.Summarised where
  ordered := t.pairwise_accounts
  listed _ := h.mem_map_pid_accounts
  arrived _ hp := (h.of_mem_accounts hp).1
  left _ hp := (h.of_mem_accounts hp).2.1
  ran _ hp := (h.of_mem_accounts hp).2.2.1
  refusals _ hp := (h.of_mem_accounts hp).2.2.2.1
  turnaround p hp := by
    obtain ⟨harrived, hleft, -⟩ := h.of_mem_accounts hp
    rw [Trace.turnaround, hleft, harrived, Account.turnaround]
    cases p.left <;> rfl
  firstRun _ hp := (h.of_mem_accounts hp).2.2.2.2
  response p hp first hfirst := by
    obtain ⟨harrived, -, -, -, hrun⟩ := h.of_mem_accounts hp
    exact h.arrived_le harrived (mem_of_tickOf (hrun.trans hfirst)) rfl
  waiting _ hp _ hleft := h.waiting_eq hp hleft
  total := by
    have hnodup : (t.summary.accounts.map Account.pid).Nodup :=
      t.pairwise_accounts.imp fun hlt => Nat.ne_of_lt hlt
    have hturns : ∀ pid, some pid ∈ t.turns → pid ∈ t.summary.accounts.map Account.pid := by
      intro pid hpid
      obtain ⟨tick, htick⟩ := List.mem_iff_getElem?.1 hpid
      obtain ⟨before, after, heq⟩ := List.append_of_mem (h.executed_of_turn htick)
      refine h.mem_map_pid_accounts.2 ?_
      rcases (h.placed _ _ _ heq).arrived rfl with hwhat | ⟨tick, harrived⟩
      · cases hwhat
      · exact ⟨tick, heq ▸ List.mem_append_left _ harrived⟩
    have hran : t.summary.accounts.map Account.ran =
        (t.summary.accounts.map Account.pid).map fun pid => t.turns.count (some pid) := by
      rw [List.map_map]
      refine List.map_congr_left fun p hp => ?_
      exact (h.of_mem_accounts hp).2.2.1.symm.trans (t.ranCount_eq p.pid)
    rw [hran, ← sum_count_turns hnodup hturns]
    exact congrArg _ t.idleTicks_eq

end Orderly

end Trace

/-! ## Runs -/

namespace Scenario

variable {sc : Scenario} {memory : Memory}

/-- Nothing is told of a process before it arrives, and nobody leaves twice, if every event is
`Placed`: the events are timely. -/
theorem timely_of_placed {events : List Event}
    (hplaced : ∀ before e after, events = before ++ e :: after → e.Placed sc before)
    (honce : ∀ pid, (events.filter fun e => e.what = .arrived pid).length ≤ 1)
    {before after : List Event} {e : Event} (heq : events = before ++ e :: after) :
    Summary.Timely before e where
  newcomer pid hwhat f hf hpid := by
    -- It would have arrived before.
    obtain ⟨tick, hbefore⟩ : ∃ tick, ⟨tick, .arrived pid⟩ ∈ before := by
      obtain ⟨first, mid, rfl⟩ := List.append_of_mem hf
      rcases (hplaced first f (mid ++ e :: after) (by rw [heq]; simp)).arrived hpid with hf | hf
      · obtain ⟨tick, what⟩ := f
        cases hf
        exact ⟨tick, by simp⟩
      · exact hf.imp fun _ hm => List.mem_append_left _ hm
    have htwice := honce pid
    have hpos : 0 < (before.filter fun e => e.what = .arrived pid).length :=
      List.length_pos_of_mem (List.mem_filter.2 ⟨hbefore, by simp⟩)
    rw [heq, List.filter_append, List.filter_cons_of_pos (by simpa using hwhat),
      List.length_append, List.length_cons] at htwice
    omega
  once pid hwhat f hf hleft := by
    obtain ⟨when, what⟩ := f
    cases hleft
    exact (hplaced _ _ _ heq).staying (by rw [hwhat]; rfl) _ hf

/-- Whoever arrives arrives once, if the arrivals are those of the jobs in their order, by
`filter_arrived_of_order`. -/
theorem length_filter_arrived_le (hsc : sc.Sound) {events : List Event}
    (horder : events.filterMap Event.arrival? =
      ((Machine.arrivalOrder sc.jobs).filter fun job => job.start < sc.limit).map
        fun job => (job.start, job.pid)) (pid : Pid) :
    (events.filter fun e => e.what = .arrived pid).length ≤ 1 := by
  rcases hfilter : events.filter fun e => e.what = .arrived pid with _ | ⟨e, rest⟩
  · rw [hfilter]
    exact Nat.zero_le 1
  · have he : e ∈ events.filter fun e => e.what = .arrived pid := hfilter ▸ List.mem_cons_self ..
    obtain ⟨hmem, hwhat⟩ := List.mem_filter.1 he
    have harrival : (e.tick, pid) ∈ events.filterMap Event.arrival? :=
      List.mem_filterMap.2 ⟨e, hmem, by rw [Event.arrival?, of_decide_eq_true hwhat]⟩
    rw [horder] at harrival
    obtain ⟨job, hjob, heq⟩ := List.mem_map.1 harrival
    obtain ⟨hjob, hstart⟩ := List.mem_filter.1 hjob
    obtain rfl : job.pid = pid := congrArg Prod.snd heq
    rw [filter_arrived_of_order hsc horder ((List.mergeSort_perm ..).mem_iff.1 hjob)
      (of_decide_eq_true hstart)]
    exact Nat.le_refl 1

/-- The trace of a run under one of the disciplines is `Orderly`: what holds of its last machine,
said of the trace. -/
theorem orderly_of_trace? (h : sc.Admitted) (d : Discipline) {fuel : Nat} {t : Trace}
    (ht : (sc.run d.policy memory fuel).trace? = some t) : t.Orderly sc := by
  obtain ⟨m, hreach, hphase, hevents, htick⟩ := reaches_of_trace? ht
  have hrest := Phase.isSwitching_of_over hphase
  obtain ⟨hreg, hplace, -, -⟩ := hreach.registered h d.lawful d.conserving hrest
  obtain ⟨htimed, -⟩ := hreach.charged d.restrained h.sound.pids_nodup
  have hmeter : m.meter.events = t.events := hevents
  have horder := hreg.arrived_eq (hreach.accounts h d.lawful hphase)
  rw [Machine.arrived, hevents] at horder
  have hplaced : ∀ before e after, t.events = before ++ e :: after → e.Placed sc before :=
    fun before e after heq => hplace _ _ _ (hevents.trans heq)
  have hticks := htimed.clocked
  have hlength := congrArg List.length hticks
  rw [hmeter, List.length_map, List.length_range, ← List.length_map (f := Prod.snd),
    Trace.map_snd_slotsOf] at hlength
  refine ⟨hmeter ▸ htimed.ordered, ?_, fun e he => ?_, hplaced, fun before e after heq =>
    timely_of_placed hplaced (length_filter_arrived_le h.sound horder) heq⟩
  · rw [hmeter] at hticks
    rw [hticks, Trace.turns, hlength]
  · have hpast := htimed.past e (hmeter ▸ he)
    rw [Trace.turns, hlength]
    omega

/-- The **summary is right**: for every run, what its summary says is what its events say: the trace
is `Summarised`. -/
theorem Admitted.summarised (h : sc.Admitted) (d : Discipline) (memory : Memory) {fuel : Nat}
    {t : Trace} (ht : (sc.run d.policy memory fuel).trace? = some t) : t.Summarised :=
  (orderly_of_trace? h d ht).summary_agrees

/-- Of the crowded processes the second one asks in vain once and waits for two of its three ticks;
the run has four ticks, and all of them are executed. -/
theorem summarised_crowded :
    ∃ t, (crowded.run Discipline.roundRobin.policy none crowded.stepBound).trace? = some t ∧
      t.Summarised ∧ t.summary.accounts.map Account.pid = [1, 2, 3] ∧
      (⟨2, 0, some 2, some 3, 1, 1⟩ : Account) ∈ t.summary.accounts ∧
      t.arrivalTick 2 = some 0 ∧ t.departureTick 2 = some 3 ∧ t.turnaround 2 = some 3 ∧
      ((List.range' 0 3).countP fun tick => t.turns[tick]? ≠ some (some 2)) = 2 ∧
      (t.summary.accounts.map Account.ran).sum + t.summary.idleTicks = 4 := by
  have hm : crowded.Reaches Discipline.roundRobin.policy none _ := .of_sorted (by decide) rfl 60
  obtain ⟨t, ht, hpids, hsecond, hlength⟩ :
      ∃ t, (crowded.run Discipline.roundRobin.policy none crowded.stepBound).trace? = some t ∧
        t.summary.accounts.map Account.pid = [1, 2, 3] ∧
        (⟨2, 0, some 2, some 3, 1, 1⟩ : Account) ∈ t.summary.accounts ∧ t.turns.length = 4 :=
    ⟨_, hm.trace?_of_over admitted_crowded Discipline.roundRobin.lawful
      (rfl : _ = Phase.over .normal), rfl, List.mem_of_getElem? (i := 1) rfl, rfl⟩
  have hsum := admitted_crowded.summarised .roundRobin none ht
  obtain ⟨-, -, -, hwaiting⟩ := hsum.waiting _ hsecond 3 rfl
  exact ⟨t, ht, hsum, hpids, hsecond, hsum.arrived _ hsecond, hsum.left _ hsecond,
    hsum.turnaround _ hsecond, (Option.some.inj hwaiting).symm, hsum.total.trans hlength⟩

end Scenario

end Uniprocessor
