import Uniprocessor.Proofs.Ending
import Uniprocessor.Proofs.Episode
import Uniprocessor.Proofs.History
import Uniprocessor.Proofs.Inversion

/-!
# The rounds of a tick

In one tick the policy may be asked several times, since a process that is refused something is
followed by another choice. Nobody is refused twice in a tick: whoever was refused is blocked, and
what could wake it is given back only after somebody has executed (`RefusedOnce`). So the rounds
come to an end: somebody executes, or the tick is idle, or the run is over, and the clock has not
moved (`Steady.leads_decided`).
-/

namespace Uniprocessor

namespace Phase

/-- Whether nobody has executed in the present tick yet: the phases up to the one in which somebody
is about to. -/
def isEarly : Phase → Bool
  | .boundary | .arriving | .announcing _ | .choosing | .requesting .. | .executing _ => true
  | _ => false

/-- Whether it is still open who executes in the present tick: the policy is to choose, or the
chosen process asks for what is due. -/
def isDeciding : Phase → Bool
  | .choosing | .requesting .. => true
  | _ => false

/-- It is decided that somebody executes, that nobody does, or that nobody is left: the ways out of
`isDeciding`. -/
def Decided : Phase → Prop
  | .executing _ | .closing true | .ending .normal => True
  | _ => False

end Phase

namespace Machine

variable {σ : Type} {sc : Scenario} {P : Policy σ} {limit : Nat} {m m' : Machine σ} {pid : Pid}

/-! ## Events and their ticks -/

/-- Who was refused something in a tick, the first first, by the events recorded so far. -/
def refusedIn (m : Machine σ) (tick : Nat) : List Pid :=
  (m.events.toList.filter fun e => e.tick = tick).filterMap fun e => e.what.refused?

/-- The second machine has recorded these events after those of the first one, all in one tick. -/
def Notes (tick : Nat) (m : Machine σ) (later : List Happening) (m' : Machine σ) : Prop :=
  m'.events.toList = m.events.toList ++ later.map (Event.mk tick)

namespace Notes

variable {tick : Nat} {later : List Happening}

theorem of_eq (h : m'.events = m.events) : m.Notes tick [] m' := by
  rw [Notes, h, List.map_nil, List.append_nil]

theorem of_push {what : Happening} (h : m'.events = m.events.push ⟨tick, what⟩) :
    m.Notes tick [what] m' := by
  rw [Notes, h, Array.toList_push]
  rfl

theorem trans {m'' : Machine σ} {more : List Happening} (h : m.Notes tick later m')
    (h' : m'.Notes tick more m'') : m.Notes tick (later ++ more) m'' := by
  rw [Notes, h', h, List.map_append, List.append_assoc]

/-- What is noted comes last in the history, so the history grows by `later`. -/
theorem history (h : m.Notes tick later m') : m'.history = m.history ++ later := by
  rw [Machine.history, h, List.map_append, List.map_map, Machine.history]
  exact congrArg _ (List.map_id later)

/-- What is noted in one tick is not noted in another: `refusedIn` of any other tick is the same. -/
theorem refusedIn (h : m.Notes tick later m') (t : Nat) :
    m'.refusedIn t =
      m.refusedIn t ++ if tick = t then later.filterMap Happening.refused? else [] := by
  rw [Machine.refusedIn, h, List.filter_append, List.filterMap_append, Machine.refusedIn]
  congr 1
  by_cases ht : tick = t
  · rw [if_pos ht, List.filter_eq_self.2 (by simp [ht]), List.filterMap_map]
    rfl
  · rw [if_neg ht, List.filter_eq_nil_iff.2 (by simp [ht])]
    rfl

end Notes

theorem notes_carriedOut {t : State} {next : Option Pid} (hchose : m.state.Chose t next)
    (memory : σ) :
    m.Notes m.state.tick (m.state.leaver?.toList.map .left) (m.carriedOut memory t next) := by
  have htick : (m.state.switched t next).tick = m.state.tick := by
    rw [State.tick_switched, hchose.tick]
  rw [carriedOut]
  cases m.state.leaver? with
  | none => exact .of_eq rfl
  | some pid => exact .of_push (by rw [← htick]; rfl)

theorem notes_recordWoken (m : Machine σ) (r : ResourceId) (still waiters : Queue) :
    m.Notes m.state.tick ((waiters.filter fun w => w ∉ still).map fun w => .woken w r)
      (m.recordWoken r still waiters) := by
  induction waiters generalizing m with
  | nil => exact .of_eq rfl
  | cons w rest ih =>
    rw [recordWoken]
    by_cases hw : w ∈ still
    · rw [if_pos hw, List.filter_cons_of_neg (by simpa using hw)]
      exact ih m
    · rw [if_neg hw, List.filter_cons_of_pos (by simpa using hw), List.map_cons]
      have hfirst : m.Notes m.state.tick [.woken w r] (m.record (.woken w r)) := .of_push rfl
      exact hfirst.trans (ih _)

/-- The clock moves at the end of a tick only: in any other phase a stride leaves it. -/
theorem Strides.tick_eq (h : m.Strides P limit m') (hphase : ∀ idle, m.phase ≠ .closing idle) :
    m'.state.tick = m.state.tick := by
  cases h with
  | drain _ _ hchose => exact Steady.tick_carriedOut hchose _
  | idle _ _ hchose => exact Steady.tick_carriedOut hchose _
  | turn _ _ hchose => exact Steady.tick_carriedOut hchose _
  | grant _ _ _ _ _ _ ht => exact ht.tick
  | refuse _ _ _ _ _ ht => exact ht.tick
  | @release _ _ _ _ _ _ _ _ woken _ _ _ _ ht =>
    change (recordWoken ..).state.tick = _
    rw [recordWoken_state]
    exact ht.tick.trans (State.tick_vacate ..)
  | tick hphase' => exact absurd hphase' (hphase _)
  | _ => rfl

/-- At the end of a tick the run ends, or the clock moves; nothing is recorded in either case. -/
theorem Strides.of_closing (h : m.Strides P limit m') {idle : Bool}
    (hphase : m.phase = .closing idle) :
    (m'.phase = .ending .deadlock ∧ m'.state.tick = m.state.tick) ∨
      (m'.phase = .boundary ∧ m'.state.tick = m.state.tick + 1 ∧ m'.events = m.events) := by
  cases h with
  | stick => exact Or.inl ⟨rfl, rfl⟩
  | tick => exact Or.inr ⟨rfl, rfl, rfl⟩
  | _ hphase' =>
    rw [hphase] at hphase'
    cases hphase'

/-- A stride leaves the clock, by `tick_eq`, or it ends a tick and moves the clock to the next one,
by `of_closing`. -/
theorem Strides.tick_cases (h : m.Strides P limit m') :
    m'.state.tick = m.state.tick ∨
      ∃ idle, m.phase = .closing idle ∧ m'.phase = .boundary ∧
        m'.state.tick = m.state.tick + 1 := by
  by_cases hclose : ∃ idle, m.phase = .closing idle
  · obtain ⟨idle, hclose⟩ := hclose
    rcases h.of_closing hclose with ⟨-, htick⟩ | ⟨hphase, htick, -⟩
    · exact Or.inl htick
    · exact Or.inr ⟨idle, hclose, hphase, htick⟩
  · exact Or.inl (h.tick_eq fun idle he => hclose ⟨idle, he⟩)

/-- The clock does not go back. -/
theorem Strides.tick_le (h : m.Strides P limit m') : m.state.tick ≤ m'.state.tick := by
  rcases h.tick_cases with htick | ⟨-, -, -, htick⟩ <;> omega

/-- A stride notes what it records under the tick in which it begins: some `Notes` lead from the one
machine to the other. -/
theorem Strides.notes (h : m.Strides P limit m') : ∃ later, m.Notes m.state.tick later m' := by
  cases h with
  | arrive => exact ⟨_, .of_push rfl⟩
  | drain _ _ hchose => exact ⟨_, notes_carriedOut hchose _⟩
  | @idle memory t _ _ hchose =>
    have hidle : (m.carriedOut memory t none).Notes m.state.tick [.idle]
        ((m.carriedOut memory t none).record .idle) := by
      rw [← Steady.tick_carriedOut hchose memory]
      exact .of_push rfl
    exact ⟨_, (notes_carriedOut hchose memory).trans hidle⟩
  | turn _ _ hchose => exact ⟨_, notes_carriedOut hchose _⟩
  | @grant _ _ _ _ _ _ _ t _ _ _ _ _ _ ht =>
    have htick : t.tick = m.state.tick := ht.tick
    exact ⟨_, .of_push (by rw [← htick]; rfl)⟩
  | @refuse _ _ _ _ _ _ t _ _ _ _ _ ht =>
    have htick : t.tick = m.state.tick := ht.tick
    exact ⟨_, .of_push (by rw [← htick]; rfl)⟩
  | execute => exact ⟨_, .of_push rfl⟩
  | @release pid r waiters due x y memory t woken _ _ _ _ ht =>
    have htick : t.tick = m.state.tick := ht.tick.trans (State.tick_vacate ..)
    have hwoken := notes_recordWoken ((m.answered memory t).record (.released pid r)) r y.waiters
      waiters
    change Notes t.tick _ _ _ at hwoken
    rw [htick] at hwoken
    have hreleased : m.Notes m.state.tick [.released pid r]
        ((m.answered memory t).record (.released pid r)) := .of_push (by rw [← htick]; rfl)
    exact ⟨_, hreleased.trans hwoken⟩
  | _ => exact ⟨_, .of_eq rfl⟩

/-- Once somebody has executed, a tick is not early again: only the end of a tick leads to one that
`isEarly`. -/
theorem Strides.isEarly (h : m.Strides P limit m') (hphase : ∀ idle, m.phase ≠ .closing idle)
    (hearly : m'.phase.isEarly = true) : m.phase.isEarly = true := by
  cases h with
  | tick hphase' => exact absurd hphase' (hphase _)
  | stop | drain | idle | execute | finish | next | release | stick | conclude => cases hearly
  | _ hphase' =>
    rw [hphase']
    rfl

/-! ## Nobody is refused twice -/

/-- Whoever waits goes on waiting until something is given back: no other `Exchange` wakes
anybody. -/
theorem Exchange.waits (h : m.Exchange m') {r : ResourceId}
    (hphase : ∀ q s waiters due, m.phase ≠ .releasing q s waiters due)
    (hw : m.state.Waits pid r) : m'.state.Waits pid r := by
  cases h with
  | keep _ hres => exact (State.waits_congr hres).2 hw
  | give _ hcalls _ ht =>
    exact (State.waits_congr ht.resources).2 ((State.waits_give hcalls.entry).2 hw)
  | park _ hcalls _ _ ht =>
    exact (State.waits_congr ht.resources).2 ((State.waits_park hcalls.entry).2 (Or.inl hw))
  | vacate hphase' => exact absurd hphase' (hphase _ _ _ _)

/-- An `Episode` is a refusal, or records none: the split for everything about who was refused
something. -/
theorem Episode.refusals (h : m.Episode P m') :
    (∃ later, m'.history = m.history ++ later ∧ ∀ e ∈ later, e.refused? = none) ∨
      ∃ pid q rest x, m.phase = .requesting pid (q :: rest) ∧ m.state.Calls pid q.resource x ∧
        (m.state.park q.resource x pid).Repriced m'.state ∧
        m'.history = m.history ++ [.refused pid q.resource] := by
  cases h with
  | quiet _ _ _ _ _ hhistory =>
    exact Or.inl ⟨[], hhistory.trans (List.append_nil _).symm, by simp⟩
  | arrive _ _ _ _ _ hhistory => exact Or.inl ⟨_, hhistory, by simp [Happening.refused?]⟩
  | choose _ _ _ _ _ _ _ hidle hhistory =>
    refine Or.inl ⟨_, hhistory, fun e he => ?_⟩
    rcases History.eq_of_mem_choice _ hidle e he with rfl | ⟨pid, -, rfl⟩ <;> rfl
  | grant _ _ _ _ _ _ _ _ _ _ hhistory =>
    exact Or.inl ⟨_, hhistory, by simp [Happening.refused?]⟩
  | refuse hphase hcalls _ _ ht _ _ _ hhistory =>
    exact Or.inr ⟨_, _, _, _, hphase, hcalls, ht, hhistory⟩
  | execute _ _ _ _ _ _ _ _ _ _ hhistory =>
    exact Or.inl ⟨_, hhistory, by simp [Happening.refused?]⟩
  | release _ _ _ _ _ _ _ _ _ hhistory =>
    refine Or.inl ⟨_, hhistory, fun e he => ?_⟩
    rcases List.mem_cons.1 he with rfl | he
    · rfl
    · obtain ⟨w, -, rfl⟩ := List.mem_map.1 he
      rfl

/-- A stride refuses nothing to anybody, or something to a process that executes and is blocked
then: the two ways in which `refusedIn` goes on. -/
theorem Steady.refusedIn_strides (hm : m.Steady sc) (hstr : m.Strides P sc.limit m') :
    (∀ tick, m'.refusedIn tick = m.refusedIn tick) ∨ ∃ pid,
      m'.refusedIn m.state.tick = m.refusedIn m.state.tick ++ [pid] ∧
        (∀ tick, m.state.tick ≠ tick → m'.refusedIn tick = m.refusedIn tick) ∧
        m.state.status? pid = some .running ∧ m'.state.status? pid = some .blocked ∧
        m.phase.isEarly = true := by
  obtain ⟨later, hnotes⟩ := hstr.notes
  have hlater : ∀ {news}, m'.history = m.history ++ news → later = news := fun hnews =>
    List.append_cancel_left (hnotes.history.symm.trans hnews)
  rcases (hm.episode hstr).refusals with ⟨news, hnews, hnone⟩ |
    ⟨pid, q, rest, x, hphase, hcalls, ht, hhistory⟩
  · refine Or.inl fun tick => ?_
    rw [hnotes.refusedIn, hlater hnews, List.filterMap_eq_nil_iff.2 hnone, ite_self,
      List.append_nil]
  · have hnow := hlater hhistory
    refine Or.inr ⟨pid, ?_, fun tick ht => ?_, hcalls.running, ?_, by rw [hphase]; rfl⟩
    · rw [hnotes.refusedIn, if_pos rfl, hnow]
      rfl
    · rw [hnotes.refusedIn, if_neg ht, List.append_nil]
    · rw [ht.status?, State.status?_park hcalls.running, if_pos rfl]

/-- What was recorded of refusals is in order, and nobody is refused twice in a tick: the invariant
of this module. -/
structure RefusedOnce (m : Machine σ) : Prop where
  /-- nothing is recorded before its time -/
  past : ∀ e ∈ m.events.toList, e.tick ≤ m.state.tick
  /-- whoever was refused something in this tick is blocked until somebody executes -/
  blocked : m.phase.isEarly = true → ∀ pid ∈ m.refusedIn m.state.tick,
    m.state.status? pid = some .blocked
  /-- nobody was refused twice in a tick -/
  once : ∀ tick, (m.refusedIn tick).Nodup

namespace RefusedOnce

theorem initial (sc : Scenario) (memory : σ) : (Machine.initial sc memory).RefusedOnce where
  past _ he := absurd he List.not_mem_nil
  blocked _ _ hpid := absurd hpid List.not_mem_nil
  once _ := List.nodup_nil

/-- In a new tick nobody has been refused anything by `refusedIn`, as no event is ahead of the
clock. -/
theorem refusedIn_succ (h : m.RefusedOnce) : m.refusedIn (m.state.tick + 1) = [] := by
  rw [refusedIn, List.filter_eq_nil_iff.2, List.filterMap_nil]
  intro e he
  have := h.past e he
  simp only [decide_eq_true_eq]
  omega

/-- Nothing is recorded before its time after a stride either: what it records is of the tick in
which it begins. -/
theorem past_strides (h : m.RefusedOnce) (hstr : m.Strides P limit m') :
    ∀ e ∈ m'.events.toList, e.tick ≤ m'.state.tick := by
  obtain ⟨later, hnotes⟩ := hstr.notes
  intro e he
  rw [hnotes] at he
  rcases List.mem_append.1 he with he | he
  · exact (h.past e he).trans hstr.tick_le
  · obtain ⟨what, -, rfl⟩ := List.mem_map.1 he
    exact hstr.tick_le

/-- While the clock stands still, the ones in `refusedIn` of the tick stay blocked: nothing is given
back until somebody has executed. -/
theorem blocked_strides (hm : m.Steady sc) (hm' : m'.Steady sc) (h : m.RefusedOnce)
    (hstr : m.Strides P sc.limit m') (hclose : ∀ idle, m.phase ≠ .closing idle)
    (hearly : m'.phase.isEarly = true) :
    ∀ pid ∈ m'.refusedIn m.state.tick, m'.state.status? pid = some .blocked := by
  have hwas := hstr.isEarly hclose hearly
  have hstay : ∀ pid ∈ m.refusedIn m.state.tick, m'.state.status? pid = some .blocked := by
    intro pid hpid
    obtain ⟨r, hw⟩ := (hm.stage.settled.blocked_iff pid).1 (h.blocked hwas pid hpid)
    refine hm'.stage.settled.status?_of_waits
      (hstr.exchange.waits (fun q s waiters due he => ?_) hw)
    rw [he] at hwas
    cases hwas
  rcases hm.refusedIn_strides hstr with hsame | ⟨q, hnow, -, -, hblocked, -⟩
  · rw [hsame]
    exact hstay
  · rw [hnow]
    intro pid hpid
    rcases List.mem_append.1 hpid with hpid | hpid
    · exact hstay pid hpid
    · rwa [List.mem_singleton.1 hpid]

/-- Whoever is refused something executes, so it is not one of those that were refused something
before: `refusedIn` has nobody twice. -/
theorem once_strides (hm : m.Steady sc) (h : m.RefusedOnce) (hstr : m.Strides P sc.limit m')
    (tick : Nat) : (m'.refusedIn tick).Nodup := by
  rcases hm.refusedIn_strides hstr with hsame | ⟨q, hnow, hother, hrun, -, hearly⟩
  · rw [hsame]
    exact h.once tick
  · by_cases ht : m.state.tick = tick
    · rw [← ht, hnow, List.nodup_append]
      refine ⟨h.once _, List.nodup_singleton q, fun pid hpid other hother => ?_⟩
      rw [List.mem_singleton.1 hother]
      rintro rfl
      have hblocked := h.blocked hearly pid hpid
      rw [hrun] at hblocked
      cases hblocked
    · rw [hother tick ht]
      exact h.once tick

/-- Every stride leaves a machine `RefusedOnce`: no stride refuses anything to anybody for the
second time in a tick. -/
theorem strides (hm : m.Steady sc) (hm' : m'.Steady sc) (h : m.RefusedOnce)
    (hstr : m.Strides P sc.limit m') : m'.RefusedOnce := by
  refine ⟨h.past_strides hstr, ?_, h.once_strides hm hstr⟩
  by_cases hclose : ∃ idle, m.phase = .closing idle
  · obtain ⟨idle, hclose⟩ := hclose
    intro hearly
    rcases hstr.of_closing hclose with ⟨hend, -⟩ | ⟨-, htick, hevents⟩
    · rw [hend] at hearly
      cases hearly
    · -- In the next tick nobody has been refused anything.
      have hnone : m'.refusedIn m'.state.tick = [] := by
        rw [refusedIn, hevents, htick]
        exact h.refusedIn_succ
      rw [hnone]
      exact fun _ hpid => absurd hpid List.not_mem_nil
  · have hclose : ∀ idle, m.phase ≠ .closing idle := fun idle he => hclose ⟨idle, he⟩
    rw [hstr.tick_eq hclose]
    exact h.blocked_strides hm hm' hstr hclose

end RefusedOnce

/-! ## The rounds end -/

/-- While a machine `isDeciding`, the clock stands still, and it stays open who executes or is
`Decided`. -/
theorem Strides.of_deciding (h : m.Strides P limit m') (hphase : m.phase.isDeciding = true) :
    m'.state.tick = m.state.tick ∧ (m'.phase.isDeciding = true ∨ m'.phase.Decided) := by
  refine ⟨h.tick_eq fun idle he => ?_, ?_⟩
  · rw [he] at hphase
    cases hphase
  · cases h with
    | drain | idle | ready => exact Or.inr trivial
    | turn | grant | refuse => exact Or.inl rfl
    | _ hphase' =>
      rw [hphase'] at hphase
      cases hphase

/-- A stride is made of steps under which the clock moves no more than under the stride, so what it
leads to is reached in the same tick. -/
theorem Steady.leads_of_strides (hsc : sc.Admitted) (hP : P.Lawful) (h : m.Steady sc)
    (hphase : m.phase.isDeciding = true) : ∃ m', m.Strides P sc.limit m' ∧
      ∀ {tick : Nat} {last : Machine σ}, m.state.tick = tick →
        m'.Leads P sc.limit (fun x => x.state.tick = tick) last →
        m.Leads P sc.limit (fun x => x.state.tick = tick) last := by
  have hover : ∀ exit, m.phase ≠ .over exit := fun exit he => by
    rw [he] at hphase
    cases hphase
  obtain ⟨m', hok, hstr⟩ := h.exists_stride hsc hP hover
  have htick := (hstr.of_deciding hphase).1
  refine ⟨m', hstr, fun {tick last} ht hlead => ?_⟩
  have hlead' := fun {m₁ : Machine σ} (hstep : (m₁.step P sc.limit).result = .ok m') =>
    Leads.head hstep (htick.trans ht) hlead
  by_cases hch : m.phase = .choosing
  · obtain ⟨m₁, hm₁, hok⟩ := exists_steps_of_stride hch hok
    obtain ⟨memory, t, next, -, hchose, rfl⟩ := h.step_of_choosing hP hch hm₁
    exact (hlead' hok).head hm₁ (hchose.tick.trans ht)
  · rw [stride_of_ne_choosing hch] at hok
    exact hlead' hok

/-- The rounds of a tick end in the same tick, with a decision: every refusal blocks one more
process, so some stride leads to a phase that is `Decided`. -/
theorem Steady.leads_decided (hsc : sc.Admitted) (hP : P.Lawful) (h : m.Steady sc)
    (hphase : m.phase.isDeciding = true) {tick : Nat} (htick : m.state.tick = tick) :
    ∃ last, m.Leads P sc.limit (fun x => x.state.tick = tick) last ∧ last.phase.Decided := by
  induction hrank : m.rank sc using Nat.strongRecOn generalizing m with
  | _ n ih =>
    obtain ⟨m', hstr, hlead⟩ := h.leads_of_strides hsc hP hphase
    obtain ⟨hclock, hdeciding | hdecided⟩ := hstr.of_deciding hphase
    · -- Another round brings the end of the run nearer.
      have hfall := h.rank_strides hsc.sound hstr
      have hcost := m.phase.cost_pos
      obtain ⟨last, hlast, hdec⟩ := ih (m'.rank sc) (by omega) (h.strides hsc.sound hstr) hdeciding
        (hclock.trans htick) rfl
      exact ⟨last, hlead htick hlast, hdec⟩
    · exact ⟨m', hlead htick .here, hdecided⟩

end Machine

/-- Wherever a run gets to, nobody has been refused anything twice in a tick, by
`RefusedOnce.strides` for each stride. -/
theorem Scenario.Reaches.refusedOnce {σ : Type} {sc : Scenario} {P : Policy σ} {memory : σ}
    {m : Machine σ} (hsc : sc.Admitted) (hP : P.Lawful) (h : sc.Reaches P memory m)
    (hm : m.phase.isSwitching = false) : m.RefusedOnce :=
  h.invariant hsc hP (Machine.RefusedOnce.initial sc)
    (fun hm hI hstr => hI.strides hm (hm.strides hsc.sound hstr) hstr) hm

end Uniprocessor
