import Uniprocessor.Proofs.Attendance

/-!
# The slots of a run

Every tick is one slot, which a process has or nobody. The events that say who has it come one for
each tick, in the order of the ticks (`Clocked`), so a run is known as far as the processor is
concerned when it is known who has each slot. A slot is filled when a process executes, or when
nobody is chosen and the tick is idle, and not otherwise (`Strides.slots`).
-/

namespace Uniprocessor

/-- The tick, and who has it: a process, or nobody. -/
def Event.slot? (e : Event) : Option (Nat × Option Pid) := e.turn?.map fun who => (e.tick, who)

/-- The slots that are filled by the events, in the order of the events. -/
def Trace.slotsOf (events : List Event) : List (Nat × Option Pid) :=
  events.filterMap Event.slot?

/-- What is picked from one event only is picked from a list if and only if that event is there. -/
theorem mem_filterMap_iff_of_forall {α β : Type} {f : α → Option β} {l : List α} {a : α} {b : β}
    (h : ∀ x, f x = some b ↔ x = a) : b ∈ l.filterMap f ↔ a ∈ l := by
  rw [List.mem_filterMap]
  simp only [h, exists_eq_right]

namespace Trace

variable {events : List Event} {tick : Nat} {pid : Pid}

theorem mem_slotsOf_executed :
    (tick, some pid) ∈ slotsOf events ↔ ⟨tick, .executed pid⟩ ∈ events := by
  apply mem_filterMap_iff_of_forall
  rintro ⟨when, what⟩
  cases what <;> simp [Event.slot?, Event.turn?]

theorem mem_slotsOf_idle : (tick, none) ∈ slotsOf events ↔ ⟨tick, .idle⟩ ∈ events := by
  apply mem_filterMap_iff_of_forall
  rintro ⟨when, what⟩
  cases what <;> simp [Event.slot?, Event.turn?]

/-- What happened happened in some tick first, and that is `tickOf`. -/
theorem exists_tickOf {t : Trace} {what : Happening} (h : ⟨tick, what⟩ ∈ t.events) :
    ∃ first, t.tickOf what = some first ∧ ⟨first, what⟩ ∈ t.events := by
  cases hfind : t.events.find? fun e => e.what = what with
  | none => exact absurd (List.find?_eq_none.1 hfind _ h) (by simp)
  | some e =>
    have hwhat : e.what = what :=
      of_decide_eq_true (List.find?_some (p := fun f : Event => f.what = what) hfind)
    refine ⟨e.tick, by rw [tickOf, hfind]; rfl, ?_⟩
    exact hwhat ▸ List.mem_of_find?_eq_some hfind

/-- What happened in one tick only happened first in that tick, so `tickOf` is that tick. -/
theorem tickOf_eq_some {t : Trace} {what : Happening} (h : ⟨tick, what⟩ ∈ t.events)
    (honly : ∀ other, ⟨other, what⟩ ∈ t.events → other = tick) : t.tickOf what = some tick := by
  obtain ⟨first, hfirst, hmem⟩ := exists_tickOf h
  exact honly first hmem ▸ hfirst

/-! ## Slots that are known -/

section Known

variable {t : Trace} {n : Nat} {who : Nat → Option Pid}

/-- If it is known who has each slot, it is known when a process executed: in the ticks before `n`
that are its own. -/
theorem mem_executed_iff (h : slotsOf t.events = (List.range n).map fun tick => (tick, who tick)) :
    ⟨tick, .executed pid⟩ ∈ t.events ↔ tick < n ∧ who tick = some pid := by
  rw [← mem_slotsOf_executed, h]
  simp

theorem mem_idle_iff (h : slotsOf t.events = (List.range n).map fun tick => (tick, who tick)) :
    ⟨tick, .idle⟩ ∈ t.events ↔ tick < n ∧ who tick = none := by
  rw [← mem_slotsOf_idle, h]
  simp

/-- The first slot of a process is where `tickOf` finds it executing first. -/
theorem tickOf_executed (t : Trace) (pid : Pid) : t.tickOf (.executed pid) =
    ((slotsOf t.events).find? fun slot => slot.2 = some pid).map Prod.fst := by
  rw [tickOf]
  induction t.events with
  | nil => rfl
  | cons e rest ih =>
    obtain ⟨tick, what⟩ := e
    cases what with
    | executed who =>
      change _ = (((tick, some who) :: slotsOf rest).find? _).map _
      by_cases hwho : who = pid
      · simp [hwho]
      · rw [List.find?_cons_of_neg (by simp [hwho]), List.find?_cons_of_neg (by simp [hwho])]
        exact ih
    | idle =>
      change _ = (((tick, none) :: slotsOf rest).find? _).map _
      rw [List.find?_cons_of_neg (by simp), List.find?_cons_of_neg (by simp)]
      exact ih
    | _ =>
      rw [List.find?_cons_of_neg (by simp)]
      exact ih

/-- Before the first tick in which a process executed, it had no slot, and that tick is its own. -/
theorem first_of_tickOf (h : slotsOf t.events = (List.range n).map fun tick => (tick, who tick))
    {first : Nat} (hfirst : t.tickOf (.executed pid) = some first) :
    first < n ∧ who first = some pid ∧ ∀ tick < first, who tick ≠ some pid := by
  rw [tickOf_executed, h, List.find?_map, Option.map_map] at hfirst
  obtain ⟨k, hk, rfl⟩ := Option.map_eq_some_iff.1 hfirst
  obtain ⟨hwho, hmem, hbefore⟩ := List.find?_range_eq_some.1 hk
  exact ⟨List.mem_range.1 hmem, by simpa using hwho, by simpa using hbefore⟩

end Known

end Trace

namespace Machine

variable {σ : Type} {sc : Scenario} {P : Policy σ} {limit : Nat} {m m' : Machine σ}

/-- The slots that have been filled so far, by the events recorded so far. -/
def slots (m : Machine σ) : List (Nat × Option Pid) := Trace.slotsOf m.events.toList

/-- The first tick of which it is not decided yet who has it: the present one, or the next one if
the present one has been taken. -/
def now (m : Machine σ) : Nat := m.state.tick + m.phase.taken

theorem now_of_choosing (h : m.phase = .choosing) : m.now = m.state.tick := by
  rw [now, h]
  rfl

/-- A tick in which a run ends is not decided, unless the run ends in a deadlock: then the last tick
was an idle one. -/
theorem now_of_over {exit : Exit} (h : m.phase = .over exit) (hexit : exit ≠ .deadlock) :
    m.now = m.state.tick := by
  rw [now, h]
  cases exit with
  | deadlock => exact absurd rfl hexit
  | _ => rfl

theorem Notes.slots {tick : Nat} {later : List Happening} (h : m.Notes tick later m') :
    m'.slots = m.slots ++ Trace.slotsOf (later.map (Event.mk tick)) := by
  rw [Machine.slots, h, Trace.slotsOf, List.filterMap_append]
  rfl

/-- What is nobody's turn, by `isTurn`, fills no slot, whatever tick it is recorded in. -/
theorem slotsOf_eq_nil {tick : Nat} {later : List Happening}
    (h : ∀ e ∈ later, e.isTurn = false) : Trace.slotsOf (later.map (Event.mk tick)) = [] := by
  apply List.filterMap_eq_nil_iff.2
  intro e he
  obtain ⟨what, hwhat, rfl⟩ := List.mem_map.1 he
  have hturn := h what hwhat
  cases what <;> first | rfl | cases hturn

/-- Nobody takes a turn by leaving, so a departure fills no slot, by `slotsOf_eq_nil`. -/
theorem isTurn_of_leaver (gone : Option Pid) :
    ∀ e ∈ gone.toList.map Happening.left, e.isTurn = false := by
  intro e he
  obtain ⟨pid, -, rfl⟩ := List.mem_map.1 he
  rfl

/-- Events that are nobody's turn leave the `slots` alone. -/
theorem Strides.slots_of_history (h : m.Strides P limit m') {later : List Happening}
    (hlater : m'.history = m.history ++ later) (hnone : ∀ e ∈ later, e.isTurn = false) :
    m'.slots = m.slots := by
  rw [(h.notes_of_history hlater).slots, slotsOf_eq_nil hnone, List.append_nil]

/-- The events about one return are nobody's turn by `isTurn`, neither the return nor whom it
wakes. -/
theorem isTurn_of_return (pid : Pid) (r : ResourceId) (woken : Queue) :
    ∀ e ∈ Happening.released pid r :: woken.map (Happening.woken · r), e.isTurn = false := by
  intro e he
  rcases List.mem_cons.1 he with rfl | he
  · rfl
  · obtain ⟨w, -, rfl⟩ := List.mem_map.1 he
    rfl

/-- `now` moves with the clock and with the part of a tick that is `taken`. -/
theorem now_congr (htick : m'.state.tick = m.state.tick) (htaken : m'.phase.taken = m.phase.taken) :
    m'.now = m.now := by
  rw [now, now, htick, htaken]

/-- If nobody is chosen, and jobs or processes are left, the tick is the `idle` one's. -/
theorem Strides.slots_of_idled (h : m.Strides P limit m') (hphase : m.phase = .choosing)
    (hlater : m'.history = m.history ++ (m.state.leaver?.toList.map .left ++ [.idle])) :
    m'.slots = m.slots ++ [(m.now, none)] := by
  rw [(h.notes_of_history hlater).slots, List.map_append, Trace.slotsOf, List.filterMap_append,
    now_of_choosing hphase]
  congr 1
  exact congrArg (· ++ _) (slotsOf_eq_nil (isTurn_of_leaver _))

/-- A stride fills no slot, or the next one: a process executes, or nobody is chosen. The split that
the three lemmas below read off. -/
theorem Strides.slots (h : m.Strides P limit m') :
    (m'.slots = m.slots ∧ m'.now = m.now ∧ ∀ pid, m.phase ≠ .executing pid) ∨
      m'.now = m.now + 1 ∧ m.now = m.state.tick ∧
        ((∃ pid, m.phase = .executing pid ∧ m'.slots = m.slots ++ [(m.now, some pid)]) ∨
          m.phase = .choosing ∧ m'.phase = .closing true ∧
            m'.slots = m.slots ++ [(m.now, none)]) := by
  have hstr := h
  have htick := h.tick_eq
  cases h with
  | drain hphase =>
    exact Or.inl ⟨hstr.slots_of_history (history_carriedOut ..) (isTurn_of_leaver _),
      now_congr (htick (by simp [hphase])) (by rw [hphase]; rfl), by simp [hphase]⟩
  | @idle memory t hphase =>
    have hlater : ({ (m.carriedOut memory t none).record .idle with
        phase := .closing true } : Machine σ).history =
        m.history ++ (m.state.leaver?.toList.map .left ++ [.idle]) := by
      rw [history_push (m := m.carriedOut memory t none) rfl, history_carriedOut,
        List.append_assoc]
    have hnow := now_of_choosing hphase
    refine Or.inr ⟨?_, hnow, Or.inr ⟨hphase, rfl, hstr.slots_of_idled hphase hlater⟩⟩
    rw [hnow, now, htick (by simp [hphase])]
    rfl
  | turn hphase =>
    exact Or.inl ⟨hstr.slots_of_history (history_carriedOut ..) (isTurn_of_leaver _),
      now_congr (htick (by simp [hphase])) (by rw [hphase]; rfl), by simp [hphase]⟩
  | arrive hphase =>
    exact Or.inl ⟨hstr.slots_of_history (history_record ..) (by simp [Happening.isTurn]),
      now_congr rfl (by rw [hphase]; rfl), by simp [hphase]⟩
  | grant hphase =>
    exact Or.inl ⟨hstr.slots_of_history (history_record ..) (by simp [Happening.isTurn]),
      now_congr (htick (by simp [hphase])) (by rw [hphase]; rfl), by simp [hphase]⟩
  | refuse hphase =>
    exact Or.inl ⟨hstr.slots_of_history (history_record ..) (by simp [Happening.isTurn]),
      now_congr (htick (by simp [hphase])) (by rw [hphase]; rfl), by simp [hphase]⟩
  | @execute pid _ _ _ _ hphase =>
    have hnow : m.now = m.state.tick := by
      rw [now, hphase]
      rfl
    refine Or.inr ⟨?_, hnow, Or.inl ⟨pid, hphase, ?_⟩⟩
    · rw [hnow]
      rfl
    · rw [(hstr.notes_of_history (history_record ..)).slots, hnow]
      rfl
  | @release pid r waiters due x y memory t woken hphase =>
    exact Or.inl ⟨hstr.slots_of_history (history_release m memory t pid r y.waiters waiters due)
      (isTurn_of_return pid r _), now_congr (htick (by simp [hphase])) (by rw [hphase]; rfl),
      by simp [hphase]⟩
  | tick hphase =>
    refine Or.inl ⟨rfl, ?_, by simp [hphase]⟩
    rw [now, now, hphase]
    rfl
  | @conclude exit _ hphase =>
    refine Or.inl ⟨rfl, now_congr rfl ?_, by simp [hphase]⟩
    rw [hphase]
    cases exit <;> rfl
  | _ hphase => exact Or.inl ⟨rfl, now_congr rfl (by rw [hphase]; rfl), by simp [hphase]⟩

/-- Unless somebody executes or the tick is found idle, no slot is filled and `now` stays. -/
theorem Strides.slots_eq (h : m.Strides P limit m') (hexec : ∀ pid, m.phase ≠ .executing pid)
    (hidle : m.phase = .choosing → m'.phase ≠ .closing true) :
    m'.slots = m.slots ∧ m'.now = m.now := by
  rcases h.slots with ⟨hslots, hnow, -⟩ | ⟨-, -, ⟨pid, hphase, -⟩ | ⟨hphase, hclose, -⟩⟩
  · exact ⟨hslots, hnow⟩
  · exact absurd hphase (hexec pid)
  · exact absurd hclose (hidle hphase)

/-- Whoever executes fills the slot of the present tick, and `now` moves on. -/
theorem Strides.slots_of_executing (h : m.Strides P limit m') {pid : Pid}
    (hphase : m.phase = .executing pid) :
    m'.slots = m.slots ++ [(m.state.tick, some pid)] ∧ m.now = m.state.tick ∧
      m'.now = m.state.tick + 1 := by
  rcases h.slots with ⟨-, -, hno⟩ | ⟨hnow', hnow, ⟨q, hphase', hslots⟩ | ⟨hphase', -⟩⟩
  · exact absurd hphase (hno pid)
  · rw [hphase] at hphase'
    cases hphase'
    exact ⟨hnow ▸ hslots, hnow, hnow ▸ hnow'⟩
  · rw [hphase] at hphase'
    cases hphase'

/-- If nobody is chosen, nobody has the slot of the present tick, and `now` moves on. -/
theorem Strides.slots_of_idle (h : m.Strides P limit m') (hphase : m.phase = .choosing)
    (hphase' : m'.phase = .closing true) :
    m'.slots = m.slots ++ [(m.now, none)] ∧ m'.now = m.now + 1 := by
  rcases h.slots with ⟨-, hnow, -⟩ | ⟨hnow', -, ⟨pid, hexec, -⟩ | ⟨-, -, hslots⟩⟩
  · have htick := h.tick_eq (by simp [hphase])
    simp [now, hphase, hphase', Phase.taken, htick] at hnow
  · rw [hphase] at hexec
    cases hexec
  · exact ⟨hslots, hnow'⟩

/-- The slots that are filled are those of the ticks up to `now`, each once and in order. -/
def Clocked (m : Machine σ) : Prop := m.slots.map Prod.fst = List.range m.now

namespace Clocked

theorem initial (sc : Scenario) (memory : σ) : (Machine.initial sc memory).Clocked := rfl

/-- Every stride leaves a machine `Clocked`: it fills the slot of `now`, or none. -/
theorem strides (h : m.Clocked) (hstr : m.Strides P limit m') : m'.Clocked := by
  have hnext : ∀ {who}, m'.slots = m.slots ++ [(m.now, who)] → m'.now = m.now + 1 →
      m'.Clocked := by
    intro who hslots hnow
    rw [Clocked, hslots, hnow, List.map_append, List.range_succ,
      show m.slots.map Prod.fst = _ from h]
    rfl
  rcases hstr.slots with ⟨hslots, hnow, -⟩ | ⟨hnow, -, ⟨pid, -, hslots⟩ | ⟨-, -, hslots⟩⟩
  · rw [Clocked, hslots, hnow]
    exact h
  · exact hnext hslots hnow
  · exact hnext hslots hnow

/-- A filled slot lies before `now`, as the slots are those of the ticks up to it. -/
theorem lt_now (h : m.Clocked) {slot : Nat × Option Pid} (hslot : slot ∈ m.slots) :
    slot.1 < m.now := by
  have hmem := List.mem_map_of_mem (f := Prod.fst) hslot
  rwa [show m.slots.map Prod.fst = _ from h, List.mem_range] at hmem

end Clocked

end Machine

/-- Wherever a run gets to, the slots have been filled in order, by `Clocked.strides` for each
stride. -/
theorem Scenario.Reaches.clocked {σ : Type} {sc : Scenario} {P : Policy σ} {memory : σ}
    {m : Machine σ} (hsc : sc.Admitted) (hP : P.Lawful) (h : sc.Reaches P memory m)
    (hm : m.phase.isSwitching = false) : m.Clocked :=
  h.invariant hsc hP (fun memory => .initial sc memory) (fun _ hI hstr => hI.strides hstr) hm

end Uniprocessor
