import Uniprocessor.Proofs.Lockstep
import Uniprocessor.Proofs.Parting

/-!
# No foresight

What a run does before a tick does not depend on the jobs that start at that tick or later, with one
exception: when nobody is left, or everybody waits, the run ends if there is nobody to come, and
idles if there is. So where two scenarios differ only in jobs that do not start before a tick, what
the runs record before that tick is the same, but for idle ticks at the end of one of them
(`Scenario.Admitted.no_foresight`).

The two runs go on side by side until they come to the tick, or to the limit, or part
(`Reaches.parallel_or_agree`). Where nothing but idling is left, nothing but idling is recorded
until somebody comes (`Dozes.strides`).
-/

namespace Uniprocessor

open Narrated

variable {σ : Type} {sc sc' : Scenario} {P : Policy σ} {memory : σ} {m m' n : Machine σ}
  {T horizon : Nat} {seen : List Event}

namespace Machine

/-! ## Idling -/

namespace Dormant

/-- Everybody who is live waits, if the machine is `Dormant`: any status is that of a blocked
process. -/
theorem status?_eq (h : m.Dormant T) {pid : Pid} {c : Status}
    (hst : m.state.status? pid = some c) : c = .blocked := by
  obtain ⟨p, hp, rfl⟩ := State.process?_of_status? hst
  exact h.blocked p (State.mem_of_process? hp)

/-- Nobody can be chosen and nobody leaves: the state is `Vacant`, and nobody who is current is
finished. -/
theorem vacant (h : m.Dormant T) (hm : m.Steady sc) : m.state.Vacant ∧ m.state.leaver? = none := by
  have hs := hm.stage.settled
  refine ⟨⟨?_, ?_⟩, ?_⟩
  · refine Option.eq_none_iff_forall_not_mem.2 fun pid hpid => ?_
    cases h.status?_eq (hs.status?_contender hpid)
  · refine List.eq_nil_iff_forall_not_mem.2 fun pid hpid => ?_
    cases h.status?_eq ((hs.mem_ready pid).1 hpid)
  · refine Option.eq_none_iff_forall_not_mem.2 fun pid hpid => ?_
    cases h.status?_eq (hm.stage.status?_leaver hpid)

/-- Where nothing but idling is left, a stride records that the tick is idle, or nothing, and the
machine stays `Dormant`, or the run ends. -/
theorem strides (hsc : sc.Sound) (hm : m.Steady sc) (h : m.Dormant T) (htick : m.state.tick < T)
    (hstr : m.Strides P sc.limit m') : Trace.IdlesOn m.events.toList m'.events.toList ∧
      (m'.Dormant T ∨ ∃ exit, m'.phase = .ending exit) := by
  have hm' := hm.strides hsc hstr
  obtain ⟨hvacant, hstays⟩ := h.vacant hm
  have hsame : ∀ memory t next, (m.carriedOut memory t next).events = m.events := fun _ _ _ => by
    rw [carriedOut, hstays]
  cases hstr with
  | stop => exact ⟨.refl _, Or.inr ⟨_, rfl⟩⟩
  | start => exact ⟨.refl _, Or.inl ⟨h.blocked, h.late, rfl⟩⟩
  | gather => exact ⟨.refl _, Or.inl ⟨h.blocked, h.late, rfl⟩⟩
  | arrive _ harrivals hstart =>
    have hlate := h.late _ (harrivals ▸ List.mem_cons_self ..)
    omega
  | @drain memory t =>
    refine ⟨?_, Or.inr ⟨_, rfl⟩⟩
    change Trace.IdlesOn _ (m.carriedOut memory t none).events.toList
    rw [hsame]
    exact .refl _
  | @idle memory t _ _ hchose =>
    refine ⟨?_, Or.inl ⟨fun p hp => ?_, ?_, rfl⟩⟩
    · change Trace.IdlesOn _ ((m.carriedOut memory t none).events.push _).toList
      rw [hsame]
      exact .push_idle ..
    · change p ∈ (m.carriedOut memory t none).state.procs at hp
      have hset : (m.carriedOut memory t none).state.Settled := hm'.stage.settled
      rw [carriedOut_state] at hp hset
      exact hvacant.blocked_of_switched hm.stage.settled
        (fun pid hpid => hm.stage.status?_leaver hpid) hchose hset hp
    · change ∀ job ∈ (m.carriedOut memory t none).arrivals, _
      rw [carriedOut_arrivals]
      exact h.late
  | turn _ _ hchose =>
    rcases hchose.chosen rfl with hcontender | hready
    · rw [hvacant.contender] at hcontender
      cases hcontender
    · rw [hvacant.ready] at hready
      cases hready
  | stick => exact ⟨.refl _, Or.inr ⟨_, rfl⟩⟩
  | tick => exact ⟨.refl _, Or.inl ⟨h.blocked, h.late, rfl⟩⟩
  | _ hphase =>
    have hdormant := h.phase
    rw [hphase] at hdormant
    cases hdormant

end Dormant

/-- Nothing but idle ticks has been recorded besides these events before the horizon, and nothing
else will be. -/
structure Dozes (T horizon : Nat) (seen : List Event) (m : Machine σ) : Prop where
  /-- nothing but idle ticks has been recorded -/
  recorded : Trace.IdlesOn seen (Trace.before horizon m.events.toList)
  /-- nothing else will be -/
  rest : m.Dormant T ∨ horizon ≤ m.state.tick ∨
    ∃ exit, m.phase = .ending exit ∨ m.phase = .over exit

/-- Nothing but idle ticks is recorded until somebody comes: every stride leaves a machine that
`Dozes` dozing. -/
theorem Dozes.strides (hsc : sc.Sound) (hle : horizon ≤ T) (hm : m.Steady sc)
    (h : m.Dozes T horizon seen) (hstr : m.Strides P sc.limit m') : m'.Dozes T horizon seen := by
  have hpast : horizon ≤ m.state.tick → m'.Dozes T horizon seen := fun hpast => {
    recorded := (hstr.precedes.before_eq hpast).symm ▸ h.recorded
    rest := Or.inr (Or.inl (hpast.trans hstr.tick_le)) }
  rcases h.rest with hdormant | hhorizon | ⟨exit, hending | hover⟩
  · by_cases htick : m.state.tick < T
    · obtain ⟨hidles, hrest⟩ := hdormant.strides hsc hm htick hstr
      refine ⟨h.recorded.trans (hidles.before horizon), hrest.imp_right fun hending => ?_⟩
      obtain ⟨exit, hending⟩ := hending
      exact Or.inr ⟨exit, Or.inl hending⟩
    · exact hpast (hle.trans (Nat.not_lt.1 htick))
  · exact hpast hhorizon
  · cases hstr with
    | conclude hphase => exact ⟨h.recorded, Or.inr (Or.inr ⟨_, Or.inr rfl⟩)⟩
    | _ hother => cases hending.symm.trans hother
  · exact absurd hover (hstr.ne_over exit)

end Machine

namespace Scenario

/-! ## The traces of the runs -/

/-- Both runs have a trace, and before the horizon these differ only in idle ticks at the end of one
of them: `IdlesOn`, in one direction or the other. -/
def Agree (P : Policy σ) (memory : σ) (horizon : Nat) (sc sc' : Scenario) : Prop :=
  ∃ t t', (sc.run P memory sc.stepBound).trace? = some t ∧
    (sc'.run P memory sc'.stepBound).trace? = some t' ∧
    (Trace.IdlesOn (Trace.before horizon t.events) (Trace.before horizon t'.events) ∨
      Trace.IdlesOn (Trace.before horizon t'.events) (Trace.before horizon t.events))

theorem Agree.symm (h : Agree P memory horizon sc sc') : Agree P memory horizon sc' sc := by
  obtain ⟨t, t', ht, ht', hidles⟩ := h
  exact ⟨t', t, ht', ht, hidles.symm⟩

/-- A run that ends records nothing more, so its trace has the events of the machine that is about
to end. -/
theorem Reaches.exists_trace_of_ending (hsc : sc.Admitted) (hP : P.Lawful)
    (h : sc.Reaches P memory m) {exit : Exit} (hphase : m.phase = .ending exit) :
    ∃ t, (sc.run P memory sc.stepBound).trace? = some t ∧ t.events = m.events.toList := by
  have hm : m.Steady sc := h.steady hsc hP (by rw [hphase]; rfl)
  obtain ⟨m', h', hstr⟩ := h.exists_strides hsc hP hm (by simp [hphase])
  cases hstr with
  | conclude => exact ⟨_, h'.trace?_of_over hsc hP rfl, rfl⟩
  | _ hother => cases hphase.symm.trans hother

/-- If the machine of a run is `Dormant`, nothing but idle ticks is recorded in it before the
horizon, up to the end of the run. -/
theorem Reaches.exists_trace_of_dormant (hsc : sc.Admitted) (hP : P.Lawful) (hle : horizon ≤ T)
    (h : sc.Reaches P memory m) (hdormant : m.Dormant T) :
    ∃ t, (sc.run P memory sc.stepBound).trace? = some t ∧
      Trace.IdlesOn (Trace.before horizon m.events.toList) (Trace.before horizon t.events) := by
  have hm : m.Steady sc := by
    refine h.steady hsc hP ?_
    have hphase := hdormant.phase
    cases hm : m.phase with
    | switching => cases hm ▸ hphase
    | _ => rfl
  obtain ⟨exit, last, hlast, hover, hdozes⟩ := h.exists_over hsc hP
    (fun hm hI hstr => Machine.Dozes.strides hsc.sound hle hm hI hstr) hm
    (show m.Dozes T horizon (Trace.before horizon m.events.toList) from ⟨.refl _, Or.inl hdormant⟩)
  exact ⟨_, hlast.trace?_of_over hsc hP hover, hdozes.recorded⟩

/-- When the runs have `Parted`, one of them has recorded everything, and the other one idles on, so
they `Agree`. -/
theorem Reaches.agree_of_parted (hsc : sc.Admitted) (hsc' : sc'.Admitted) (hP : P.Lawful)
    (hle : horizon ≤ T) (hm : sc.Reaches P memory m) (hn : sc'.Reaches P memory n)
    (h : m.Parted T n) : Agree P memory horizon sc sc' := by
  obtain ⟨exit, hending⟩ := h.ended
  obtain ⟨t, ht, hevents⟩ := hm.exists_trace_of_ending hsc hP hending
  obtain ⟨t', ht', hidles⟩ := hn.exists_trace_of_dormant hsc' hP hle h.dormant
  refine ⟨t, t', ht, ht', Or.inl ?_⟩
  rw [hevents]
  exact (h.events.before horizon).trans hidles

/-- When runs that go side by side come to the horizon, they have recorded the same before it, so
they `Agree`. -/
theorem Reaches.agree_of_horizon (hsc : sc.Admitted) (hsc' : sc'.Admitted) (hP : P.Lawful)
    (hm : sc.Reaches P memory m) (hn : sc'.Reaches P memory n) (h : m.Parallel T n)
    (hpast : horizon ≤ m.state.tick) : Agree P memory horizon sc sc' := by
  obtain ⟨jobs, rfl, -⟩ := h
  obtain ⟨t, ht, -, later, hevents, hlater⟩ := hm.exists_trace hsc hP
  obtain ⟨t', ht', -, later', hevents', hlater'⟩ := hn.exists_trace hsc' hP
  have hsame : Trace.before horizon t.events = Trace.before horizon t'.events := by
    rw [hevents, hevents', Trace.before_append, Trace.before_append,
      Trace.before_eq_nil fun e he => hpast.trans (hlater e he),
      Trace.before_eq_nil fun e he => hpast.trans (hlater' e he)]
    rfl
  exact ⟨t, t', ht, ht', Or.inl (hsame ▸ .refl _)⟩

/-- If the same jobs start before a tick, the prepared machines differ only in who is to come: they
are `Parallel`. -/
theorem exists_parallel_of_prepare (hP : P.Lawful) (hcount : sc'.resourceCount = sc.resourceCount)
    (hceiling : sc'.ceiling = sc.ceiling)
    (hjobs : (sc.jobs.filter fun job => job.start < T) = sc'.jobs.filter fun job => job.start < T)
    (h : (sc.prepare P memory).result = .ok (.ok m)) :
    ∃ n, sc'.Reaches P memory n ∧ m.Parallel T n := by
  have hinitial : ∀ memory : σ, Machine.initial sc' memory =
      (Machine.initial sc memory).expecting (Machine.arrivalOrder sc'.jobs) := fun memory => by
    simp [Machine.initial, Machine.expecting, hcount, hceiling]
  rcases hP.setup memory (Machine.initial sc memory).state with ⟨e, he⟩ | ⟨memory', hok⟩
  · cases (prepare_of_error he).symm.trans h
  · cases (prepare_of_ok hok).symm.trans h
    have hok' : (P.setup memory (Machine.initial sc' memory).state).result =
        .ok (.ok (memory', (Machine.initial sc' memory).state)) := by
      rw [hinitial]
      exact hok
    exact ⟨_, .start (prepare_of_ok hok'), _, hinitial memory',
      Machine.sameBefore_arrivalOrder hjobs⟩

/-- A run goes side by side with one of a scenario with the same jobs before a tick, or they `Agree`
before that tick and the limit: by induction on the steps, each by `Parallel.step`. -/
theorem Reaches.parallel_or_agree (hsc : sc.Admitted) (hsc' : sc'.Admitted) (hP : P.Lawful)
    (hcount : sc'.resourceCount = sc.resourceCount) (hceiling : sc'.ceiling = sc.ceiling)
    (hlimit : sc'.limit = sc.limit)
    (hjobs : (sc.jobs.filter fun job => job.start < T) = sc'.jobs.filter fun job => job.start < T)
    (h : sc.Reaches P memory m) : (∃ n, sc'.Reaches P memory n ∧ m.Parallel T n) ∨
      Agree P memory (min T sc.limit) sc sc' := by
  induction h with
  | start hprep => exact Or.inl (exists_parallel_of_prepare hP hcount hceiling hjobs hprep)
  | @step m m' hm hstep ih =>
    rcases ih with ⟨n, hn, hparallel⟩ | hagree
    · by_cases hpast : min T sc.limit ≤ m.state.tick
      · exact Or.inr (hm.agree_of_horizon hsc hsc' hP hn hparallel hpast)
      · obtain ⟨n', hstep'⟩ := hn.exists_step hsc' hP
        have hm' := hm.step hstep
        have hn' := hn.step hstep'
        rw [hlimit] at hstep'
        rcases hparallel.step (by omega) (by omega) hstep hstep' with hgoes | hparted | hparted
        · exact Or.inl ⟨n', hn', hgoes⟩
        · exact Or.inr (hm'.agree_of_parted hsc hsc' hP (Nat.min_le_left ..) hn' hparted)
        · exact Or.inr (hn'.agree_of_parted hsc' hsc hP (Nat.min_le_left ..) hm' hparted).symm
    · exact Or.inr hagree

/-- A run has **no foresight**: what it does before a tick and before the limit does not depend on
the jobs that do not start before that tick, but for idle ticks at the end: of two scenarios with
the same jobs before the tick, the one run records the same as the other one there, followed by idle
ticks only. -/
theorem Admitted.no_foresight (h : sc.Admitted) (h' : sc'.Admitted)
    (hcount : sc'.resourceCount = sc.resourceCount) (hceiling : sc'.ceiling = sc.ceiling)
    (hlimit : sc'.limit = sc.limit)
    (hjobs : (sc.jobs.filter fun job => job.start < T) = sc'.jobs.filter fun job => job.start < T)
    {d : Discipline} (hc : ¬ (d = .ceiling ∧ sc.ceiling = 0)) (memory : Memory) :
    ∃ t t', (sc.run d.policy memory sc.stepBound).trace? = some t ∧
      (sc'.run d.policy memory sc'.stepBound).trace? = some t' ∧
      (Trace.IdlesOn (t.events.filter fun e => e.tick < min T sc.limit)
          (t'.events.filter fun e => e.tick < min T sc.limit) ∨
        Trace.IdlesOn (t'.events.filter fun e => e.tick < min T sc.limit)
          (t.events.filter fun e => e.tick < min T sc.limit)) := by
  obtain ⟨exit, -, hreach, hphase⟩ := h.reaches_end hc memory
  rcases hreach.parallel_or_agree h h' d.lawful hcount hceiling hlimit hjobs with
    ⟨n, hn, jobs, rfl, -⟩ | hagree
  · exact ⟨_, _, hreach.trace?_of_over h d.lawful hphase, hn.trace?_of_over h' d.lawful hphase,
      Or.inl (.refl _)⟩
  · exact hagree

/-- The crossed processes, and a third one that arrives when they have been waiting for each other
for some time. -/
def visited : Scenario :=
  { crossed with jobs := crossed.jobs ++ [{ pid := 3, start := 9, lifespan := 1, prio := 5 }] }

theorem admitted_visited : visited.Admitted where
  built := ⟨⟨2, 9, 100, visited.jobs, 4⟩, rfl⟩
  lifespan_lt := by decide
  limit_le := by decide

/-- Alone, the crossed processes end in a deadlock. If a third one is to come they record the same,
and idle for six more ticks until it does. -/
theorem no_foresight_visited : ∃ t t' idles,
    (crossed.run Discipline.priority.policy none crossed.stepBound).trace? = some t ∧
      (visited.run Discipline.priority.policy none visited.stepBound).trace? = some t' ∧
      t.exit = .deadlock ∧ ⟨9, .executed 3⟩ ∈ t'.events ∧
      (t'.events.filter fun e => e.tick < 9) = (t.events.filter fun e => e.tick < 9) ++ idles ∧
      idles.length = 6 ∧ ∀ e ∈ idles, e.what = .idle := by
  obtain ⟨t, t', ht, ht', hidles⟩ := admitted_crossed.no_foresight (T := 9) (d := .priority)
    admitted_visited rfl rfl rfl (by decide) (by simp) none
  have hm : crossed.Reaches Discipline.priority.policy none _ := .of_sorted (by decide) rfl 80
  have hm' : visited.Reaches Discipline.priority.policy none _ := .of_sorted (by decide) rfl 120
  have heq := Option.some.inj (ht.symm.trans (hm.trace?_of_over admitted_crossed
    Discipline.priority.lawful (rfl : _ = Phase.over .deadlock)))
  have heq' := Option.some.inj (ht'.symm.trans (hm'.trace?_of_over admitted_visited
    Discipline.priority.lawful (rfl : _ = Phase.over .deadlock)))
  have hlength : (t'.events.filter fun e => e.tick < 9).length =
      (t.events.filter fun e => e.tick < 9).length + 6 := by
    rw [heq, heq']
    decide
  change Trace.IdlesOn (t.events.filter fun e => e.tick < 9)
      (t'.events.filter fun e => e.tick < 9) ∨
    Trace.IdlesOn (t'.events.filter fun e => e.tick < 9)
      (t.events.filter fun e => e.tick < 9) at hidles
  rcases hidles with ⟨idles, hevents, hidle⟩ | ⟨idles, hevents, -⟩
  · refine ⟨t, t', idles, ht, ht', by rw [heq], by rw [heq']; decide, hevents, ?_, hidle⟩
    rw [hevents, List.length_append] at hlength
    omega
  · rw [hevents, List.length_append] at hlength
    omega

end Scenario

end Uniprocessor
