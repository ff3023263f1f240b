import Uniprocessor.Proofs.Arrival

/-!
# Departures

A process that has executed its lifespan leaves in the next tick, when somebody else is chosen or
nobody is. Only the choice looks for it, and it looks at the current process alone; but a process
that is finished is current until then (`Retiring`). So nobody leaves early, late or twice
(`InPlace`).
-/

namespace Uniprocessor

namespace Trace

/-- The tick in which the process executed last, if it ever did. -/
def lastExecution (events : List Event) (pid : Pid) : Option Nat :=
  (events.filter fun e => e.what = .executed pid).getLast?.map Event.tick

variable {events : List Event} {later : List Happening} {pid : Pid} {tick : Nat}

theorem lastExecution_append (h : .executed pid ∉ later) :
    lastExecution (events ++ later.map (Event.mk tick)) pid = lastExecution events pid := by
  have hnone : (later.map (Event.mk tick)).filter (fun e => e.what = .executed pid) = [] := by
    refine List.filter_eq_nil_iff.2 fun e he => ?_
    obtain ⟨what, hwhat, rfl⟩ := List.mem_map.1 he
    simp only [decide_eq_true_eq]
    rintro rfl
    exact h hwhat
  rw [lastExecution, List.filter_append, hnone, List.append_nil, lastExecution]

theorem lastExecution_executed :
    lastExecution (events ++ [⟨tick, .executed pid⟩]) pid = some tick := by
  simp [lastExecution]

end Trace

/-! ## Events in their places -/

/-- What an event needs of those before it: its process has arrived, unless it arrives now, and has
not left; and if it leaves now, it has executed its lifespan, and did so for the last time one tick
before. -/
structure Event.Placed (sc : Scenario) (before : List Event) (e : Event) : Prop where
  /-- the process has arrived, or arrives -/
  arrived : ∀ {pid : Pid}, e.what.pid? = some pid →
    e.what = .arrived pid ∨ ∃ tick, ⟨tick, .arrived pid⟩ ∈ before
  /-- the process has not left -/
  staying : ∀ {pid : Pid}, e.what.pid? = some pid → ∀ tick, ⟨tick, .left pid⟩ ∉ before
  /-- who leaves has executed its lifespan, and did so last in the tick before -/
  leaving : ∀ {pid : Pid}, e.what = .left pid → ∃ job ∈ sc.jobs, job.pid = pid ∧
    (before.countP fun f => f.what = .executed pid) = job.lifespan ∧
    ∃ tick, Trace.lastExecution before pid = some tick ∧ e.tick = tick + 1

/-! ## Who is about to leave -/

namespace State

/-- Only current processes leave, so `leaver?` of the second state was that of the first, if nobody
else is current and everybody is of the same age. -/
theorem leaver?_of_same {s t : State} (hcurrent : t.current = s.current)
    (hproc : ∀ {pid p'}, t.process? pid = some p' →
      ∃ p, s.process? pid = some p ∧ p'.lifespan = p.lifespan ∧ p'.age = p.age) {pid : Pid}
    (h : t.leaver? = some pid) : s.leaver? = some pid := by
  obtain ⟨hcur, p', hp', hfin⟩ := leaver?_eq_some.1 h
  obtain ⟨p, hp, hlife, hage⟩ := hproc hp'
  exact leaver?_eq_some.2 ⟨hcurrent ▸ hcur, p, hp, by rwa [← hlife, ← hage]⟩

/-- A resource that is given back makes nobody older: up to priorities only the table and who is
woken change. -/
theorem Repriced.of_process?_vacate {s t : State} {r : ResourceId} {x : Resource}
    {woken : Option Pid} (ht : (s.vacate r x woken).Repriced t) {pid : Pid} {p' : Process}
    (hp' : t.process? pid = some p') :
    ∃ p, s.process? pid = some p ∧ p'.lifespan = p.lifespan ∧ p'.age = p.age := by
  obtain ⟨n, hn⟩ := ht.symm.process? hp'
  rw [process?_vacate] at hn
  rcases hp : s.process? pid with _ | p
  · simp [hp] at hn
  · rw [hp] at hn
    refine ⟨p, rfl, ?_⟩
    by_cases hw : woken = some pid
    · have heq := Option.some.inj ((if_pos hw).symm.trans hn)
      exact ⟨(congrArg Process.lifespan heq).symm, (congrArg Process.age heq).symm⟩
    · have heq := Option.some.inj ((if_neg hw).symm.trans hn)
      exact ⟨(congrArg Process.lifespan heq).symm, (congrArg Process.age heq).symm⟩

/-- In its turn nobody is about to leave: the current process is the one whose turn it is, and has
ticks to execute. -/
theorem leaver?_of_turn {s : State} {scripts : Scripts} {pid : Pid} {due : List Request}
    (h : Turn s scripts pid due) : s.leaver? = none := by
  refine Option.eq_none_iff_forall_ne_some.2 fun q hq => ?_
  obtain ⟨hcur, p, hp, hfin⟩ := leaver?_eq_some.1 hq
  obtain ⟨hruns, p', -, hp', -, hlt, -⟩ := h
  rw [hruns.current] at hcur
  cases hcur
  rw [hp] at hp'
  cases hp'
  omega

theorem leaver?_of_none {s : State} (h : s.current = none) : s.leaver? = none := by
  rw [State.leaver?, h]
  rfl

/-- A newcomer is not current, so nobody is about to leave by `leaver?` but who was before. -/
theorem Settled.leaver?_of_joined {s : State} (hs : s.Settled) {p : Process}
    (hnew : s.process? p.pid = none) {pid : Pid} (h : (s.joined p).leaver? = some pid) :
    s.leaver? = some pid := by
  obtain ⟨hcur, p', hp', hfin⟩ := leaver?_eq_some.1 h
  have hne : pid ≠ p.pid := by
    rintro rfl
    obtain ⟨q, hq⟩ := hs.process?_of_current hcur
    rw [hnew] at hq
    cases hq
  rw [process?_joined hnew, if_neg hne] at hp'
  exact leaver?_eq_some.2 ⟨hcur, p', hp', hfin⟩

/-- After a refusal the current process waits, so it is not finished, and `leaver?` is nobody. -/
theorem Calls.leaver?_of_parked {s t : State} {pid : Pid} {r : ResourceId} {x : Resource}
    (h : s.Calls pid r x) (ht : (s.park r x pid).Repriced t)
    (hleave : ∀ g, t.leaver? = some g → t.status? g = some .running) : t.leaver? = none := by
  apply Option.eq_none_iff_forall_ne_some.2
  intro g hg
  have hcur := (leaver?_eq_some.1 hg).1
  rw [ht.current, show (s.park r x pid).current = some pid from h.current] at hcur
  cases hcur
  have hblocked := (ht.status? pid).trans (status?_park h.running pid)
  rw [if_pos rfl, hleave pid hg] at hblocked
  cases hblocked

end State

namespace Machine

variable {σ : Type} {sc : Scenario} {P : Policy σ} {limit : Nat} {m m' : Machine σ}

/-! ## Who leaves, and when -/

/-- Whoever is about to leave executed last in the tick before, or in this tick if that has not been
counted yet: the invariant of departures. -/
structure Retiring (m : Machine σ) : Prop where
  /-- the last tick of the process is the last one that was executed -/
  last : ∀ {pid : Pid}, m.state.leaver? = some pid → ∃ tick,
    Trace.lastExecution m.events.toList pid = some tick ∧ m.state.tick + m.phase.spent = tick + 1
  /-- nobody is current at the end of an idle tick -/
  idle : m.phase = .closing true → m.state.current = none

namespace Retiring

theorem initial (sc : Scenario) (memory : σ) : (Machine.initial sc memory).Retiring where
  last h := by cases h
  idle h := by cases h

/-- If nobody is about to leave, nothing has to be said: the machine is `Retiring`. -/
theorem of_none (h : m'.state.leaver? = none) (hidle : m'.phase = .closing true →
    m'.state.current = none) : m'.Retiring where
  last hg := by
    rw [h] at hg
    cases hg
  idle := hidle

/-- What neither executes nor makes anybody current leaves a machine `Retiring`: who is about to
leave was so before, and for as long. -/
theorem keep (h : m.Retiring) {later : List Happening} (hnotes : m.Notes m.state.tick later m')
    (hran : ∀ pid, .executed pid ∉ later)
    (hleaver : ∀ {pid}, m'.state.leaver? = some pid → m.state.leaver? = some pid)
    (htick : m'.state.tick + m'.phase.spent = m.state.tick + m.phase.spent)
    (hidle : m'.phase ≠ .closing true) : m'.Retiring where
  last hg := by
    obtain ⟨tick, hlast, hspent⟩ := h.last (hleaver hg)
    refine ⟨tick, ?_, htick.trans hspent⟩
    rw [hnotes, Trace.lastExecution_append (hran _), hlast]
  idle hphase := absurd hphase hidle

/-- Every stride leaves a machine `Retiring`: whoever executes its last tick does so in the present
one. -/
theorem strides (hsc : sc.Sound) (hm : m.Steady sc) (h : m.Retiring)
    (hstr : m.Strides P sc.limit m') : m'.Retiring := by
  have hm' := hm.strides hsc hstr
  have hstr' := hstr
  cases hstr with
  | @arrive job rest hphase harrivals =>
    have hnew := (hm.stage_of_arriving hphase harrivals).process?_arrival
    exact h.keep (hstr'.notes_of_history (history_record ..)) (by simp)
      (hm.stage.settled.leaver?_of_joined (p := .fresh job.pid job.lifespan job.prio) hnew)
      (by rw [hphase]; rfl) (by simp)
  | drain =>
    refine of_none (State.leaver?_of_none ?_) nofun
    exact (congrArg State.current (carriedOut_state ..)).trans (State.current_switched ..)
  | @idle memory t =>
    have hcur : (m.carriedOut memory t none).state.current = none := by
      rw [carriedOut_state, State.current_switched]
    exact of_none (State.leaver?_of_none hcur) fun _ => hcur
  | turn | grant | ready => exact of_none (State.leaver?_of_turn (hm'.fits_of rfl)) nofun
  | @refuse pid owner q rest x memory t hphase hcalls hx hne hP ht =>
    exact of_none
      (hcalls.leaver?_of_parked ht fun _ hg => (hm'.stage_of rfl).status?_leaver hg) nofun
  | @execute pid p script script' expired hphase =>
    obtain ⟨hruns, -⟩ : Turn m.state m.scripts pid [] := hm.fits_of hphase
    refine ⟨fun {g} hg => ⟨m.state.tick, ?_, rfl⟩, nofun⟩
    have hcur : m.state.current = some g := (State.leaver?_eq_some.1 hg).1
    rw [hruns.current] at hcur
    cases hcur
    have hnotes : (m.record (.executed pid)).events.toList =
        m.events.toList ++ [⟨m.state.tick, .executed pid⟩] := Array.toList_push
    exact (congrArg (Trace.lastExecution · pid) hnotes).trans Trace.lastExecution_executed
  | @release pid r waiters due x y memory t woken hphase hcalls hx hP ht =>
    obtain ⟨later, hnotes⟩ := hstr'.notes
    have htick := hstr'.tick_eq (by simp [hphase])
    refine h.keep hnotes (fun q hmem => ?_) (fun hg => ?_) (by rw [htick, hphase]; rfl) (by simp)
    · obtain ⟨later', hlater, htells⟩ := hstr'.history
      have heq := List.append_cancel_left (hnotes.history.symm.trans hlater)
      have htell := htells _ (heq ▸ hmem)
      rw [hphase] at htell
      cases htell
    · change (recordWoken ..).state.leaver? = _ at hg
      rw [recordWoken_state] at hg
      exact State.leaver?_of_same (s := m.state) (ht.current.trans (State.current_vacate ..))
        ht.of_process?_vacate hg
  | @tick wasIdle hphase =>
    cases wasIdle with
    | true =>
      exact of_none (State.leaver?_of_none (h.idle hphase)) nofun
    | false => exact h.keep (.of_eq rfl) (by simp) id (by rw [hphase]; rfl) nofun
  | @stick wasIdle hphase hstuck =>
    cases wasIdle with
    | true => exact h.keep (.of_eq rfl) (by simp) id (by rw [hphase]; rfl) nofun
    | false => cases hstuck
  | _ hphase => exact h.keep (.of_eq rfl) (by simp) id (by rw [hphase]; rfl) nofun

end Retiring

/-! ## All events in their places -/

/-- Every event is `Event.Placed` after those before it. -/
def InPlace (sc : Scenario) (m : Machine σ) : Prop :=
  ∀ (before after : List Event) (e : Event), m.events.toList = before ++ e :: after →
    e.Placed sc before

namespace InPlace

theorem initial (sc : Scenario) (memory : σ) : (Machine.initial sc memory).InPlace sc :=
  fun _ _ _ heq => by simp [Machine.initial] at heq

/-- What is noted is in its place if it is in its place among what is noted with it: the general
step behind all others here. -/
theorem append (h : m.InPlace sc) {tick : Nat} {later : List Happening}
    (hnotes : m.Notes tick later m')
    (hlater : ∀ {mid after what}, later = mid ++ what :: after →
      Event.Placed sc (m.events.toList ++ mid.map (Event.mk tick)) ⟨tick, what⟩) :
    m'.InPlace sc := by
  intro before after e heq
  rw [hnotes] at heq
  rcases History.append_eq_append_cons heq with ⟨mid, hmid, -⟩ | ⟨mid, rfl, hmid⟩
  · exact h _ _ _ hmid
  · obtain ⟨front, back, rfl, rfl, hback⟩ := List.map_eq_append_iff.1 hmid
    obtain ⟨what, rest, rfl, rfl, -⟩ := List.map_eq_cons_iff.1 hback
    exact hlater rfl

/-- What happens to a live process that does not leave is in its place, if nobody else leaves with
it: it has arrived and has not left. -/
theorem placed_of_live (hc : m.Chronicled) {mid : List Happening} {tick : Nat} {what : Happening}
    (hlive : ∀ pid, what.pid? = some pid → ∃ p, m.state.process? pid = some p)
    (hstay : ∀ pid, what ≠ .left pid) (hmid : ∀ pid, .left pid ∉ mid) :
    Event.Placed sc (m.events.toList ++ mid.map (Event.mk tick)) ⟨tick, what⟩ where
  arrived hpid := by
    obtain ⟨p, hp⟩ := hlive _ hpid
    obtain ⟨t, ht⟩ := mem_history.1 (hc.told.of_process? hp).1
    exact Or.inr ⟨t, List.mem_append_left _ ht⟩
  staying hpid t hmem := by
    obtain ⟨p, hp⟩ := hlive _ hpid
    rcases List.mem_append.1 hmem with hmem | hmem
    · exact (hc.told.of_process? hp).2.1 (mem_history.2 ⟨t, hmem⟩)
    · obtain ⟨what', hwhat, he⟩ := List.mem_map.1 hmem
      cases he
      exact hmid _ hwhat
  leaving he := absurd he (hstay _)

/-- What live processes do with resources is in its place, by `placed_of_live` for each entry. -/
theorem of_isOfResource (h : m.InPlace sc) (hc : m.Chronicled) {tick : Nat} {later : List Happening}
    (hnotes : m.Notes tick later m') (hlater : ∀ e ∈ later, e.isOfResource = true)
    (hlive : ∀ e ∈ later, ∀ pid, e.pid? = some pid → ∃ p, m.state.process? pid = some p) :
    m'.InPlace sc := by
  have hnot : ∀ {pid}, .left pid ∉ later := fun hmem => by cases hlater _ hmem
  refine h.append hnotes fun {mid after what} heq => ?_
  have hwhat : what ∈ later := heq ▸ List.mem_append_right _ (List.mem_cons_self ..)
  refine placed_of_live hc (hlive what hwhat) (fun pid he => hnot (he ▸ hwhat)) fun pid hmem => ?_
  exact hnot (heq ▸ List.mem_append_left _ hmem)

/-- An arrival is in its place: nothing has been heard of the process before, as the machine is
`Chronicled`. -/
theorem arrive (h : m.InPlace sc) (hc : m.Chronicled) {tick : Nat} {job : Job}
    (hjob : job ∈ m.arrivals) (hnotes : m.Notes tick [.arrived job.pid] m') : m'.InPlace sc := by
  refine h.append hnotes fun {mid after what} heq => ?_
  obtain ⟨rfl, hwhat⟩ | ⟨-, hwhat⟩ := List.singleton_eq_append_iff.1 heq
  · cases hwhat
    refine ⟨fun hpid => ?_, fun hpid t hmem => ?_, nofun⟩
    · cases hpid
      exact Or.inl rfl
    · cases hpid
      rw [List.map_nil, List.append_nil] at hmem
      exact hc.pending hjob (hc.heard (mem_history.2 ⟨t, hmem⟩) rfl)
  · cases hwhat

/-- A departure is in its place: the process has executed its lifespan, and did so last in the tick
before, as the machine is `Retiring`. -/
theorem choose (h : m.InPlace sc) (hc : m.Chronicled) (hm : m.Steady sc)
    (hr : m.Retiring) (hphase : m.phase = .choosing) {idle : List Happening} {next : Option Pid}
    (hidle : idle = [] ∨ next = none ∧ idle = [.idle])
    (hnotes : m.Notes m.state.tick (m.state.leaver?.toList.map .left ++ idle) m') :
    m'.InPlace sc := by
  refine h.append hnotes fun {mid after what} heq => ?_
  have hmem : what ∈ m.state.leaver?.toList.map Happening.left ++ idle :=
    heq ▸ List.mem_append_right _ (List.mem_cons_self ..)
  rcases History.eq_of_mem_choice _ hidle what hmem with rfl | ⟨pid, hg, rfl⟩
  · exact ⟨nofun, nofun, nofun⟩
  · -- The departure comes first.
    have hmid : mid = [] := by
      rw [hg] at heq
      cases mid with
      | nil => rfl
      | cons e rest =>
        obtain ⟨-, hrest⟩ := List.cons.inj (show .left pid :: idle = e :: (rest ++ _) from heq)
        have hin : .left pid ∈ idle := hrest ▸ List.mem_append_right _ (List.mem_cons_self ..)
        rcases hidle with rfl | ⟨-, rfl⟩
        · cases hin
        · cases List.mem_singleton.1 hin
    obtain ⟨-, p, hp, hfin⟩ := State.leaver?_eq_some.1 hg
    obtain ⟨job, hjob, script, hpid, -, hplays⟩ := hm.stage.plays hp
    obtain ⟨tick, hlast, hspent⟩ := hr.last hg
    obtain ⟨harrived, hstay, hcount⟩ := hc.told.of_process? hp
    rw [hmid, List.map_nil, List.append_nil]
    refine ⟨fun hq => ?_, fun hq t hleft => ?_, fun hq => ?_⟩
    · cases hq
      exact Or.inr (mem_history.1 harrived)
    · cases hq
      exact hstay (mem_history.2 ⟨t, hleft⟩)
    · cases hq
      rw [hphase] at hspent
      refine ⟨job, hjob, hpid, ?_, tick, hlast, hspent⟩
      rw [← count_history, hcount]
      exact Nat.le_antisymm hplays.age_le (hplays.lifespan ▸ hfin)

/-- Every stride records events in their places: each case of `Episode` is one of the steps
above. -/
theorem strides (hm : m.Steady sc) (hc : m.Chronicled) (hr : m.Retiring) (h : m.InPlace sc)
    (hstr : m.Strides P sc.limit m') : m'.InPlace sc := by
  have hnotes : ∀ {later}, m'.history = m.history ++ later → m.Notes m.state.tick later m' :=
    hstr.notes_of_history
  cases hm.episode hstr with
  | quiet _ _ _ _ _ hhistory =>
    exact h.append (hnotes (hhistory.trans (List.append_nil _).symm)) fun heq => by simp at heq
  | arrive _ harrivals _ _ _ hhistory =>
    exact h.arrive hc (harrivals ▸ List.mem_cons_self ..) (hnotes hhistory)
  | choose hphase _ _ _ _ _ _ hidle hhistory =>
    exact h.choose hc hm hr hphase hidle (hnotes hhistory)
  | grant _ hp _ _ _ _ _ _ _ _ hhistory =>
    refine h.of_isOfResource hc (hnotes hhistory) (by simp [Happening.isOfResource])
      fun e he q hq => ?_
    rw [List.mem_singleton.1 he] at hq
    cases hq
    exact ⟨_, hp⟩
  | refuse _ hcalls _ _ _ _ _ _ hhistory =>
    refine h.of_isOfResource hc (hnotes hhistory) (by simp [Happening.isOfResource])
      fun e he q hq => ?_
    rw [List.mem_singleton.1 he] at hq
    cases hq
    exact hcalls.process?
  | @execute pid p _ _ _ _ _ hp _ _ _ _ _ _ _ hhistory =>
    refine h.append (hnotes hhistory) fun {mid after what} heq => ?_
    obtain ⟨rfl, hwhat⟩ | ⟨-, hwhat⟩ := List.singleton_eq_append_iff.1 heq
    · cases hwhat
      refine placed_of_live hc (fun q hq => ?_) (by simp) (by simp)
      cases hq
      exact ⟨p, hp⟩
    · cases hwhat
  | @release pid r _ _ x woken _ hcalls _ _ _ hwoken _ _ _ hhistory =>
    refine h.of_isOfResource hc (hnotes hhistory) (History.isOfResource_of_release pid r woken)
      fun e he q hq => ?_
    rcases List.mem_cons.1 he with rfl | he
    · cases hq
      exact hcalls.process?
    · obtain ⟨w, hw, rfl⟩ := List.mem_map.1 he
      cases hq
      exact hcalls.settled.process?_of_waits
        ((State.waits_iff hcalls.entry).2 (hwoken q (by simpa using hw)))

end InPlace

end Machine

end Uniprocessor
