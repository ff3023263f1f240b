import Uniprocessor.Proofs.Ceiling
import Uniprocessor.Proofs.Later
import Uniprocessor.Proofs.Uniform

/-!
# Inheritance acts on contention only

Inheritance moves priorities along waiting, and nobody waits until something has been refused
(`Unrefused.not_waits`). Up to the first refusal everybody is at its base priority under priority
inheritance as it is under priority, so the states of the two runs are the same, and the policies
answer alike (`Alike.agrees_of_atBase`). The refusal itself is recorded in both runs. So the events
of the two runs are the same up to the first refusal and with it, and the traces are the same if
nothing is refused (`Scenario.Admitted.alike_until_refused`).
-/

namespace Uniprocessor

/-! ## Before anything is refused -/

/-- If nothing has been opened, nothing is `standing`. -/
theorem History.standing_eq_nil {α : Type} {opens : Happening → Option α}
    {ends : α → Happening → Bool} {h : List Happening} (hopens : ∀ e ∈ h, opens e = none) :
    standing opens ends h = [] := by
  induction h with
  | nil => rfl
  | cons e rest ih =>
    rw [standing, hopens e (List.mem_cons_self ..),
      ih fun f hf => hopens f (List.mem_cons_of_mem _ hf)]
    rfl

/-- If nothing has been refused, nobody waits, as `waiters` tells it by the history. -/
theorem History.waiters_eq_nil {h : List Happening} (hnone : ∀ e ∈ h, e.refused? = none)
    (r : ResourceId) : waiters h r = [] := by
  refine standing_eq_nil fun e he => ?_
  have hrefused := hnone e he
  cases e with
  | refused => cases hrefused
  | _ => rfl

/-! ## The first refusal -/

namespace Trace

/-- Up to the first refusal, and with it, the events are the same; what comes after it may
differ. -/
def SharesRefusal (events events' : List Event) : Prop :=
  ∃ before tick pid r after after', events = before ++ ⟨tick, .refused pid r⟩ :: after ∧
    events' = before ++ ⟨tick, .refused pid r⟩ :: after' ∧ ∀ e ∈ before, e.what.refused? = none

/-- What is recorded after the first refusal makes no difference to `SharesRefusal`. -/
theorem SharesRefusal.append {events events' : List Event} (h : SharesRefusal events events')
    (later later' : List Event) : SharesRefusal (events ++ later) (events' ++ later') := by
  obtain ⟨before, tick, pid, r, after, after', rfl, rfl, hbefore⟩ := h
  exact ⟨before, tick, pid, r, after ++ later, after' ++ later', by simp, by simp, hbefore⟩

/-- The first refusal is the same wherever it is found: a list of events has one place where it
stands. -/
theorem SharesRefusal.eq_of_first {events events' : List Event} (h : SharesRefusal events events')
    {before after : List Event} {tick : Nat} {pid : Pid} {r : ResourceId}
    (hevents : events = before ++ ⟨tick, .refused pid r⟩ :: after)
    (hbefore : ∀ e ∈ before, e.what.refused? = none) :
    ∃ after', events' = before ++ ⟨tick, .refused pid r⟩ :: after' := by
  obtain ⟨first, tick', pid', r', rest, rest', hfirst, rfl, hnone⟩ := h
  rcases History.append_eq_append_cons (hfirst.symm.trans hevents) with
    ⟨mid, hlonger, -⟩ | ⟨mid, hshorter, hrest⟩
  · have hmem : (⟨tick, .refused pid r⟩ : Event) ∈ first :=
      hlonger ▸ List.mem_append_right _ (List.mem_cons_self ..)
    cases hnone _ hmem
  · cases mid with
    | nil =>
      cases hrest
      exact ⟨rest', by rw [hshorter, List.append_nil]⟩
    | cons e mid =>
      cases hrest
      have hmem : (⟨tick', .refused pid' r'⟩ : Event) ∈ before :=
        hshorter ▸ List.mem_append_right _ (List.mem_cons_self ..)
      cases hbefore _ hmem

end Trace

/-! ## Two runs -/

namespace State

variable {s t : State}

/-- If nobody waits for anybody, there is nothing to inherit: a state in which priorities are
`Donated` is `AtBase`. -/
theorem Donated.atBase_of_not_waitsFor (h : s.Donated) (hnone : ∀ x z, ¬ s.WaitsFor x z) :
    s.AtBase := by
  intro pid b n hb
  obtain ⟨x, k, hpath, hx⟩ := h.source hb
  rcases hpath.cases_tail with rfl | ⟨z, -, hwaits⟩
  · cases hb.symm.trans hx
    rfl
  · exact absurd hwaits (hnone z _)

/-- Where everybody is at its base priority, the priorities are known from the rest of the state,
which `unpriced` leaves. -/
theorem AtBase.procs_eq (h : s.AtBase) (hs : s.Ordered) :
    s.procs = s.unpriced.procs.map fun p => { p with prio := p.base } := by
  have hself : ∀ p ∈ s.procs, ({ p with prio := p.base } : Process) = p := by
    intro p hp
    have hprio : p.prio = p.base := h (bid?_of_process? (hs.process?_of_mem hp))
    exact congrArg (fun n => ({ p with prio := n } : Process)) hprio.symm
  rw [unpriced, List.map_map]
  exact ((List.map_congr_left hself).trans (List.map_id _)).symm

/-- States that differ in priorities alone are the same if both are `AtBase`. -/
theorem Repriced.eq_of_atBase (hr : s.Repriced t) (hs : s.Ordered) (h : s.AtBase) (h' : t.AtBase) :
    t = s := by
  have ht : t.Ordered := by
    rw [Ordered, hr.map_pid]
    exact hs
  have hprocs : t.procs = s.procs := by
    rw [h.procs_eq hs, h'.procs_eq ht, show t.unpriced = s.unpriced from hr]
  have hrebuild : ∀ s : State, s = { s.unpriced with procs := s.procs } := fun _ => rfl
  rw [hrebuild t, hrebuild s, hprocs, show t.unpriced = s.unpriced from hr]

end State

namespace Machine

/-- Nothing has been refused yet. -/
def Unrefused {σ : Type} (m : Machine σ) : Prop := ∀ e ∈ m.history, e.refused? = none

/-- Until something is refused nobody waits: the wait queues are what `History.waiters` tells. -/
theorem Unrefused.not_waits {σ : Type} {m : Machine σ} (h : m.Unrefused) (hc : m.Chronicled)
    (pid : Pid) (r : ResourceId) : ¬ m.state.Waits pid r := by
  rintro ⟨x, hx, hmem⟩
  rw [hc.told.waiters hx, History.waiters_eq_nil h] at hmem
  cases hmem

variable {sc : Scenario} {m m' n n' : Machine Memory}

/-- Where everybody is at its base priority, priority and priority inheritance answer alike: the
states are the same, and both choose and wake the `foremost`. -/
theorem Alike.agrees_of_atBase (h : m.Alike n) (hm : m.Steady sc) (hbase : m.state.AtBase)
    (hbase' : n.state.AtBase) :
    Discipline.priority.policy.Agrees Discipline.inheritance.policy m n := by
  have hstate : n.state = m.state :=
    h.state.eq_of_atBase hm.stage.settled.ordered hbase hbase'
  constructor
  · intro _ memory memory' t t' next next' hchoose hchoose'
    rw [hstate] at hchoose'
    have hprefer := Discipline.result_of_paired hchoose
    cases hprefer.symm.trans (Discipline.result_of_paired hchoose')
    exact ⟨rfl, rfl⟩
  · intro pid r waiters due x _ hcalls hcalls' hx memory memory' t t' hrelease hrelease'
    rw [Discipline.ready_of_releaseUrgent (Or.inl rfl) hcalls hx hrelease,
      Discipline.ready_of_releaseUrgent (Or.inr (Or.inr rfl)) hcalls' hx hrelease', hstate]

/-- A stride from alike machines in which nothing has been refused yet leads to such machines again,
or to the first refusal in both: the machines are `Unrefused`, or their events `SharesRefusal`. -/
theorem Unrefused.strides (h : m.Unrefused) (hm : m.Steady sc) (halike : m'.Alike n')
    (hstr : m.Strides Discipline.priority.policy sc.limit m') :
    m'.Unrefused ∨ Trace.SharesRefusal m'.events.toList n'.events.toList := by
  rcases (hm.episode hstr).refusals with
    ⟨later, hhistory, hnone⟩ | ⟨pid, q, _, _, _, _, _, hhistory⟩
  · refine Or.inl fun e he => ?_
    rw [hhistory] at he
    exact (List.mem_append.1 he).elim (h e) (hnone e)
  · have hnotes : m'.events.toList = m.events.toList ++ [⟨m.state.tick, .refused pid q.resource⟩] :=
      hstr.notes_of_history hhistory
    refine Or.inr ⟨m.events.toList, _, pid, q.resource, [], [], hnotes, halike.events ▸ hnotes,
      fun e he => ?_⟩
    exact h _ (List.mem_map_of_mem he)

end Machine

namespace Scenario

variable {sc : Scenario} {memory : Memory} {m : Machine Memory}

/-- Each machine of the run under priority is `Alike` to one of the run under priority inheritance
until something is refused, and the first refusal is recorded in both runs. -/
theorem Reaches.exists_alike_or_shares (hsc : sc.Admitted) (memory' : Memory)
    (h : sc.Reaches Discipline.priority.policy memory m) (hm : m.phase.isSwitching = false) :
    ∃ n, sc.Reaches Discipline.inheritance.policy memory' n ∧
      (m.Alike n ∧ m.Unrefused ∨ Trace.SharesRefusal m.events.toList n.events.toList) := by
  have hP := Discipline.priority.lawful
  have hQ := Discipline.inheritance.lawful
  refine h.invariant_of_reached hsc hP (I := fun m => ∃ n,
    sc.Reaches Discipline.inheritance.policy memory' n ∧
      (m.Alike n ∧ m.Unrefused ∨ Trace.SharesRefusal m.events.toList n.events.toList))
    (fun memory => ?_) ?_ hm
  · have hprep : (sc.prepare Discipline.inheritance.policy memory').result =
        .ok (.ok (Machine.initial sc memory')) := prepare_of_ok rfl
    exact ⟨_, .start hprep, Or.inl
      ⟨⟨rfl, .refl _, rfl, rfl, rfl⟩, fun _ he => absurd he List.not_mem_nil⟩⟩
  · rintro m m' hm hreach ⟨n, hn, ⟨halike, hnone⟩ | hshares⟩ hstr -
    · have hrest : n.phase.isSwitching = false := halike.phase ▸ hm.isSwitching_eq_false
      have hsteady := hn.steady hsc hQ hrest
      obtain ⟨hchron, -⟩ := hreach.chronicled hsc hP hm.isSwitching_eq_false
      have hwaits : ∀ x z, ¬ n.state.WaitsFor x z := by
        rintro x z ⟨r, hw, -⟩
        exact hnone.not_waits hchron x r ((State.waits_congr halike.state.resources).1 hw)
      have hagrees := halike.agrees_of_atBase hm (hreach.atBase hsc hm.isSwitching_eq_false)
        ((hn.donated hsc hrest).atBase_of_not_waitsFor hwaits)
      obtain ⟨n', hn', hstr'⟩ := hn.exists_strides hsc hQ hsteady
        fun exit hover => hstr.ne_over exit (halike.phase.symm.trans hover)
      have halike' := halike.strides hm hagrees hstr hstr'
      exact ⟨n', hn', (hnone.strides hm halike' hstr).imp_left fun h => ⟨halike', h⟩⟩
    · obtain ⟨later, hevents, -⟩ := hstr.precedes.events
      refine ⟨n, hn, Or.inr ?_⟩
      rw [hevents]
      simpa using hshares.append later []

/-- Priority **inheritance acts on contention only**. If nothing is refused under priority, the run
under priority inheritance has the same trace. Otherwise the events of the two runs are the same up
to the first refusal and with it. -/
theorem Admitted.alike_until_refused (h : sc.Admitted) (memory memory' : Memory) :
    ∃ t t', (sc.run Discipline.priority.policy memory sc.stepBound).trace? = some t ∧
      (sc.run Discipline.inheritance.policy memory' sc.stepBound).trace? = some t' ∧
      ((∀ tick pid r, ⟨tick, .refused pid r⟩ ∉ t.events) → t' = t) ∧
      ∀ before tick pid r after, t.events = before ++ ⟨tick, .refused pid r⟩ :: after →
        (∀ e ∈ before, e.what.refused? = none) →
        ∃ after', t'.events = before ++ ⟨tick, .refused pid r⟩ :: after' := by
  obtain ⟨exit, -, hreach, hphase⟩ := h.reaches_end (d := .priority) (by simp) memory
  have ht := hreach.trace?_of_over h Discipline.priority.lawful hphase
  obtain ⟨n, hn, ⟨halike, hnone⟩ | hshares⟩ :=
    hreach.exists_alike_or_shares h memory' (Phase.isSwitching_of_over hphase)
  · have ht' := hn.trace?_of_over h Discipline.inheritance.lawful (halike.phase.trans hphase)
    rw [halike.events, halike.state.tick] at ht'
    refine ⟨_, _, ht, ht', fun _ => rfl, fun before tick pid r after hevents _ => ?_⟩
    exact ⟨after, hevents⟩
  · obtain ⟨t', ht', -, later, hevents, -⟩ := hn.exists_trace h Discipline.inheritance.lawful
    have hshares := hshares.append [] later
    rw [List.append_nil, ← hevents] at hshares
    refine ⟨_, t', ht, ht', fun hnone => ?_, fun before tick pid r after => hshares.eq_of_first⟩
    obtain ⟨before, tick, pid, r, after, -, heq, -⟩ := hshares
    exact absurd (heq ▸ List.mem_append_right _ (List.mem_cons_self ..)) (hnone tick pid r)

/-- A process gets the resource, a more urgent one has to wait for it, and then one in between
arrives. -/
def inverted : Scenario where
  resourceCount := 1
  ceiling := 9
  limit := 100
  jobs := [
    { pid := 1, lifespan := 4, prio := 1, requests := [⟨0, 0, 3⟩] },
    { pid := 2, start := 1, lifespan := 2, prio := 9, requests := [⟨0, 0, 1⟩] },
    { pid := 3, start := 2, lifespan := 2, prio := 5 }]

theorem admitted_inverted : inverted.Admitted where
  built := ⟨⟨1, 9, 100, inverted.jobs, 4⟩, rfl⟩
  lifespan_lt := by decide
  limit_le := by decide

/-- The runs of the inverted processes part in the tick after the refusal: under priority the third
one goes before the owner, under priority inheritance it does not. The nested holds are granted and
given back without a refusal, and the two runs are the same. -/
theorem alike_until_refused_inverted :
    (∃ t t', (inverted.run Discipline.priority.policy none inverted.stepBound).trace? = some t ∧
      (inverted.run Discipline.inheritance.policy none inverted.stepBound).trace? = some t' ∧
      t.events = t.events.take 4 ++ ⟨1, .refused 2 0⟩ :: t.events.drop 5 ∧
      (∃ after', t'.events = t.events.take 4 ++ ⟨1, .refused 2 0⟩ :: after') ∧
      ⟨2, .executed 3⟩ ∈ t.events ∧ ⟨2, .executed 1⟩ ∈ t'.events) ∧
    ∃ t, (nested.run Discipline.priority.policy none nested.stepBound).trace? = some t ∧
      (nested.run Discipline.inheritance.policy none nested.stepBound).trace? = some t ∧
      ⟨1, .acquired 2 1⟩ ∈ t.events := by
  constructor
  · obtain ⟨t, t', ht, ht', -, hshares⟩ := admitted_inverted.alike_until_refused none none
    have hm : inverted.Reaches Discipline.priority.policy none _ := .of_sorted (by decide) rfl 120
    have hm' : inverted.Reaches Discipline.inheritance.policy none _ :=
      .of_sorted (by decide) rfl 120
    cases ht.symm.trans (hm.trace?_of_over admitted_inverted Discipline.priority.lawful
      (rfl : _ = Phase.over .normal))
    cases ht'.symm.trans (hm'.trace?_of_over admitted_inverted Discipline.inheritance.lawful
      (rfl : _ = Phase.over .normal))
    exact ⟨_, _, ht, ht', rfl, hshares _ 1 2 0 _ rfl (by decide), by decide, by decide⟩
  · obtain ⟨t, t', ht, ht', hsame, -⟩ := admitted_nested.alike_until_refused none none
    have hm : nested.Reaches Discipline.priority.policy none _ := .of_sorted (by decide) rfl 80
    have heq := Option.some.inj (ht.symm.trans (hm.trace?_of_over admitted_nested
      Discipline.priority.lawful (rfl : _ = Phase.over .normal)))
    have hnone : ∀ e ∈ t.events, e.what.refused? = none := by
      rw [heq]
      decide
    have hsame := hsame fun tick pid r hmem => by cases hnone _ hmem
    exact ⟨t, ht, hsame ▸ ht', by rw [heq]; decide⟩

end Scenario

end Uniprocessor
