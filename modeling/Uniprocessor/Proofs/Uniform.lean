import Uniprocessor.Proofs.Inheritance
import Uniprocessor.Proofs.Simultaneous

/-!
# Disciplines with nothing to go by

A discipline that compares lifespans or priorities prefers the first one of several that are equal,
and replaces the current process by a strictly better one only. So if all lifespans are equal,
shortest job first and shortest time to completion first take the head of the ready queue and
replace nobody, as first come, first served does. If all priorities are equal, so do priority and
priority inheritance, as long as everybody stays at its base priority (`State.AtBase`). That is so
under priority, which reprices nobody, and under priority inheritance, since all that can be
inherited is what everybody has.
-/

namespace Uniprocessor

open Narrated

namespace State

variable {s t : State} {c : Nat}

/-- Everybody is at its base priority, as where nothing has been inherited. -/
def AtBase (s : State) : Prop := ∀ ⦃pid b n⦄, s.bid? pid = some (b, n) → n = b

/-- Everybody who is live has the priority `c`, so priorities decide nothing. -/
def Level (s : State) (c : Nat) : Prop := ∀ ⦃pid p⦄, s.process? pid = some p → s.prioOf pid = c

theorem AtBase.of_bids (h : s.AtBase)
    (hbid : ∀ {pid bid}, t.bid? pid = some bid → s.bid? pid = some bid) : t.AtBase :=
  fun _ _ _ hb => h (hbid hb)

/-- A choice that reprices nobody leaves everybody at its base priority, also when it has been
carried out. -/
theorem AtBase.switched (h : s.AtBase) (hbid : t.bid? = s.bid?) (next : Option Pid) :
    (s.switched t next).AtBase :=
  h.of_bids fun hb => (bid?_of_bid?_switched hbid hb).2

/-- A newcomer is at its base priority, so an arrival leaves a state `AtBase`. -/
theorem AtBase.joined (h : s.AtBase) {p : Process} (hp : s.process? p.pid = none)
    (hprio : p.prio = p.base) : (s.joined p).AtBase := by
  intro pid b n hb
  rw [bid?_joined hp] at hb
  by_cases hpid : pid = p.pid
  · cases (if_pos hpid).symm.trans hb
    exact hprio
  · exact h ((if_neg hpid).symm.trans hb)

/-- If all base priorities are equal, there is nothing to inherit: a state in which priorities are
`Donated` is `AtBase`. -/
theorem Donated.atBase (h : s.Donated) (hbase : ∀ {pid b n}, s.bid? pid = some (b, n) → b = c) :
    s.AtBase := by
  intro pid b n hb
  obtain ⟨x, k, -, hx⟩ := h.source hb
  rw [hbase hb, hbase hx]

/-- Of several that have the same priority the head is the `foremost`. -/
theorem foremost_eq_head? {q : Queue} (h : ∀ pid ∈ q, s.prioOf pid = c) :
    s.foremost q = q.head? := by
  apply firstMax_eq_head?
  refine List.pairwise_of_forall_mem_list fun a ha b hb => ?_
  rw [h a ha, h b hb]

/-- Whoever waits for a resource that a process `Calls` about is live, as the state is settled. -/
theorem Calls.process?_of_mem_waiters {pid w : Pid} {r : ResourceId} {x : Resource}
    (h : s.Calls pid r x) (hw : w ∈ x.waiters) : ∃ p, s.process? w = some p :=
  h.settled.process?_of_waits ((waits_iff h.entry).2 hw)

end State

namespace Machine

variable {sc : Scenario} {c : Nat}

section Level

variable {σ : Type} {m : Machine σ}

/-- A live process has the base priority of its job, so if those are equal it is that one. -/
theorem Steady.base_eq (hprio : ∀ job ∈ sc.jobs, job.prio = c) (hm : m.Steady sc) {pid : Pid}
    {b n : Nat} (h : m.state.bid? pid = some (b, n)) : b = c := by
  obtain ⟨p, hp, rfl, -⟩ := State.bid?_eq_some.1 h
  obtain ⟨job, hjob, script, -, -, hplays⟩ := hm.stage.plays hp
  rw [hplays.base, hprio job hjob]

/-- If all jobs have the same priority, everybody at its base priority has that one: the state is
`Level`. -/
theorem Steady.level (hprio : ∀ job ∈ sc.jobs, job.prio = c) (hm : m.Steady sc)
    (h : m.state.AtBase) : m.state.Level c := by
  intro pid p hp
  have hb := State.bid?_of_process? hp
  rw [State.prioOf_of_process? hp, h hb, hm.base_eq hprio hb]

/-- If all jobs have the same lifespan, that is everybody's, as `keyOf` looks it up. -/
theorem Steady.keyOf_lifespan_eq {lifespan : Nat} (hlife : ∀ job ∈ sc.jobs, job.lifespan = lifespan)
    (hm : m.Steady sc) {pid : Pid} {p : Process} (hp : m.state.process? pid = some p) :
    m.state.keyOf Process.lifespan pid = lifespan := by
  obtain ⟨job, hjob, script, -, -, hplays⟩ := hm.stage.plays hp
  rw [State.keyOf_of_process? hp, hplays.lifespan, hlife job hjob]

end Level

variable {m m' n : Machine Memory}

/-- Under priority nobody is repriced, so every stride leaves the state `AtBase`. -/
theorem Steady.atBase_strides (hm : m.Steady sc) (h : m.state.AtBase)
    (hstr : m.Strides Discipline.priority.policy sc.limit m') : m'.state.AtBase := by
  have hswitch : ∀ {memory t next},
      (Discipline.priority.choose m.memory m.state).result = .ok (memory, t, next) →
      (m.carriedOut memory t next).state.AtBase := by
    intro memory t next hP
    obtain ⟨memory', t', next', hok, -, hbid⟩ :=
      Discipline.priority.choose_eq_ok m.memory hm.stage.settled
    cases hP.symm.trans hok
    rw [carriedOut_state]
    exact h.switched (hbid (by decide)) next
  cases hstr with
  | arrive hphase harrivals =>
    exact h.joined (hm.stage_of_arriving hphase harrivals).process?_arrival rfl
  | drain _ hP => exact hswitch hP
  | idle _ hP => exact hswitch hP
  | turn _ hP => exact hswitch hP
  | grant _ _ _ hcalls hx hP =>
    simp only [Discipline.policy, Discipline.acquire, result_bind, hcalls.acquirePlain_free hx,
      ok_bind] at hP
    cases hP
    exact h.of_bids id
  | refuse _ hcalls hx _ hP =>
    simp only [Discipline.policy, Discipline.acquire, result_bind, hcalls.acquirePlain_held hx,
      ok_bind] at hP
    cases hP
    refine h.of_bids fun hb => ?_
    rwa [← State.bid?_park]
  | execute =>
    refine h.of_bids fun hb => ?_
    rwa [State.bid?_adjust_age] at hb
  | release _ hcalls hx hP =>
    simp only [Discipline.policy, Discipline.release, result_bind,
      hcalls.releaseUrgent_eq_ok hx, ok_bind] at hP
    cases hP
    change (recordWoken ..).state.AtBase
    rw [recordWoken_state]
    refine h.of_bids fun hb => ?_
    rwa [← State.bid?_vacate]
  | tick => exact h.of_bids id
  | _ => exact h

/-- Where the state is `Level`, priority and priority inheritance answer as first come, first
served: the `foremost` is the head, and no contender is outranked. -/
theorem Alike.agrees_of_level {d : Discipline} (hd : d = .priority ∨ d = .inheritance)
    (h : m.Alike n) (hm : m.Steady sc) (hn : n.Steady sc) (hlevel : n.state.Level c) :
    Discipline.fcfs.policy.Agrees d.policy m n where
  choose _ := by
    intro memory memory' t t' next next' hchoose hchoose'
    have hs := hn.stage.settled
    have hready : ∀ pid ∈ n.state.ready, n.state.prioOf pid = c := by
      intro pid hpid
      obtain ⟨p, hp⟩ := hs.process?_of_mem_ready hpid
      exact hlevel hp
    have hle : ∀ cur, n.state.contender? = some cur → ∀ pid ∈ n.state.ready,
        n.state.prioOf pid ≤ n.state.prioOf cur := by
      intro cur hcur pid hpid
      obtain ⟨-, p, hp, -⟩ := State.contender?_eq_some.1 hcur
      rw [hready pid hpid, hlevel hp]
    have hpicks := Discipline.picks_of_fcfs hm.stage.settled hchoose
    have hpicks' := Discipline.picks_of_urgent hd hs hle hchoose'
    rw [State.foremost_eq_head? hready, ← State.head?_front, h.state.front] at hpicks'
    exact hpicks.unique hpicks'
  release := by
    intro pid r waiters due x _ hcalls hcalls' hx memory memory' t t' hrelease hrelease'
    have hwaiters : ∀ w ∈ x.waiters, n.state.prioOf w = c := by
      intro w hw
      obtain ⟨p, hp⟩ := hcalls'.process?_of_mem_waiters hw
      exact hlevel hp
    rw [Discipline.ready_of_releaseFirst rfl hcalls hx hrelease,
      Discipline.ready_of_releaseUrgent (hd.imp_right Or.inr) hcalls' hx hrelease',
      State.foremost_eq_head? hwaiters, h.state.ready]

end Machine

namespace Scenario

variable {sc : Scenario} {memory memory' : Memory} {c lifespan : Nat} {m : Machine Memory}

/-- Under priority everybody stays at its base priority, by `atBase_strides` for each stride. -/
theorem Reaches.atBase (hsc : sc.Admitted) (h : sc.Reaches Discipline.priority.policy memory m)
    (hm : m.phase.isSwitching = false) : m.state.AtBase :=
  h.invariant hsc Discipline.priority.lawful (I := fun m => m.state.AtBase)
    (fun _ _ _ _ hb => by cases hb) (fun hm hI hstr => hm.atBase_strides hI hstr) hm

/-- Under priority inheritance priorities are `Donated` wherever a run gets to and no choice is
being carried out. -/
theorem Reaches.donated (hsc : sc.Admitted) (h : sc.Reaches Discipline.inheritance.policy memory m)
    (hm : m.phase.isSwitching = false) : m.state.Donated :=
  h.invariant hsc Discipline.inheritance.lawful (I := fun m => m.state.Donated)
    (fun memory => Machine.donated_initial sc memory)
    (fun hm hI hstr => hm.donated_strides hI hstr) hm

/-- If all priorities are equal, everybody has the same one all along, under priority and under
priority inheritance: the state is `Level`. -/
theorem Reaches.level {d : Discipline} (hd : d = .priority ∨ d = .inheritance) (hsc : sc.Admitted)
    (hprio : ∀ job ∈ sc.jobs, job.prio = c) (h : sc.Reaches d.policy memory m)
    (hm : m.Steady sc) : m.state.Level c := by
  apply hm.level hprio
  rcases hd with rfl | rfl
  · exact h.atBase hsc hm.isSwitching_eq_false
  · exact (h.donated hsc hm.isSwitching_eq_false).atBase (hm.base_eq hprio)

/-- If all lifespans are equal, the first one of the ready queue is the shortest, so shortest job
first has the trace of first come, first served. -/
theorem Admitted.same_trace_of_lifespan (h : sc.Admitted)
    (hlife : ∀ job ∈ sc.jobs, job.lifespan = lifespan) (memory memory' : Memory) :
    ∃ t, (sc.run Discipline.fcfs.policy memory sc.stepBound).trace? = some t ∧
      (sc.run Discipline.sjf.policy memory' sc.stepBound).trace? = some t := by
  refine h.same_trace (by simp) (by simp) fun {m n} _ hm _ hn halike => ⟨?_, ?_⟩
  · intro _ memory₁ memory₂ t t' next next' hchoose hchoose'
    have hs := hn.stage.settled
    have hfirst :
        firstMin (n.state.keyOf Process.lifespan) n.state.ready = n.state.ready.head? := by
      apply firstMin_eq_head?
      refine List.pairwise_of_forall_mem_list fun a ha b hb => ?_
      obtain ⟨p, hp⟩ := hs.process?_of_mem_ready ha
      obtain ⟨q, hq⟩ := hs.process?_of_mem_ready hb
      rw [hn.keyOf_lifespan_eq hlife hp, hn.keyOf_lifespan_eq hlife hq]
    have hpicks := Discipline.picks_of_fcfs hm.stage.settled hchoose
    have hpicks' := Discipline.picks_of_sjf hs hchoose'
    rw [hfirst, ← State.head?_front, halike.state.front] at hpicks'
    exact hpicks.unique hpicks'
  · intro pid r waiters due x _ hcalls hcalls' hx memory₁ memory₂ t t' hrelease hrelease'
    rw [Discipline.ready_of_releaseFirst rfl hcalls hx hrelease,
      Discipline.ready_of_releaseFirst rfl hcalls' hx hrelease', halike.state.ready]

/-- Equal keys leave **nothing to go by**: if all lifespans are equal, shortest job first and
shortest time to completion first have the trace of first come, first served. If all priorities are
equal, priority and priority inheritance have it. -/
theorem Admitted.same_trace_of_uniform (h : sc.Admitted) (memory : Discipline → Memory) :
    (∀ lifespan, (∀ job ∈ sc.jobs, job.lifespan = lifespan) →
      ∃ t, ∀ d ∈ [Discipline.fcfs, .sjf, .stcf],
        (sc.run d.policy (memory d) sc.stepBound).trace? = some t) ∧
    (∀ prio, (∀ job ∈ sc.jobs, job.prio = prio) →
      ∃ t, ∀ d ∈ [Discipline.fcfs, .priority, .inheritance],
        (sc.run d.policy (memory d) sc.stepBound).trace? = some t) := by
  refine ⟨fun lifespan hlife => ?_, fun prio hprio => ?_⟩
  · obtain ⟨t, hfcfs, hsjf⟩ := h.same_trace_of_lifespan hlife (memory .fcfs) (memory .sjf)
    obtain ⟨t', hsjf', hstcf⟩ : ∃ t,
        (sc.run Discipline.sjf.policy (memory .sjf) sc.stepBound).trace? = some t ∧
        (sc.run Discipline.stcf.policy (memory .stcf) sc.stepBound).trace? = some t := by
      refine h.same_trace_of_lifespan_le fun _ hm cur hcur pid hpid => ?_
      obtain ⟨-, p, hp, -⟩ := State.contender?_eq_some.1 hcur
      obtain ⟨q, hq⟩ := hm.stage.settled.process?_of_mem_ready hpid
      rw [hm.keyOf_lifespan_eq hlife hp, hm.keyOf_lifespan_eq hlife hq]
    cases hsjf.symm.trans hsjf'
    exact ⟨t, by simp [hfcfs, hsjf, hstcf]⟩
  · have hurgent : ∀ {d : Discipline}, d = .priority ∨ d = .inheritance →
        ∃ t, (sc.run Discipline.fcfs.policy (memory .fcfs) sc.stepBound).trace? = some t ∧
          (sc.run d.policy (memory d) sc.stepBound).trace? = some t := by
      intro d hd
      have hceiling : ¬ (d = .ceiling ∧ sc.ceiling = 0) := by
        rintro ⟨rfl, -⟩
        simp at hd
      exact h.same_trace (by simp) hceiling fun _ hm hreach' hn halike =>
        halike.agrees_of_level hd hm hn (hreach'.level hd h hprio hn)
    obtain ⟨t, hfcfs, hpriority⟩ := hurgent (Or.inl rfl)
    obtain ⟨t', hfcfs', hinheritance⟩ := hurgent (Or.inr rfl)
    cases hfcfs.symm.trans hfcfs'
    exact ⟨t, by simp [hfcfs, hpriority, hinheritance]⟩

/-- Three processes with the same lifespan and the same priority. Two of them ask for the same
resource. -/
def peers : Scenario where
  resourceCount := 1
  ceiling := 3
  limit := 100
  jobs := [
    { pid := 1, lifespan := 2, prio := 3, requests := [⟨0, 0, 2⟩] },
    { pid := 2, lifespan := 2, prio := 3, requests := [⟨0, 0, 1⟩] },
    { pid := 3, start := 1, lifespan := 2, prio := 3 }]

theorem admitted_peers : peers.Admitted where
  built := ⟨⟨1, 3, 100, peers.jobs, 3⟩, rfl⟩
  lifespan_lt := by decide
  limit_le := by decide

/-- The three processes are served one after the other under all five disciplines. -/
theorem same_trace_of_uniform_peers :
    ∃ t, (∀ d ∈ [Discipline.fcfs, .sjf, .stcf, .priority, .inheritance],
        (peers.run d.policy none peers.stepBound).trace? = some t) ∧
      Trace.slotsOf t.events =
        [(0, some 1), (1, some 1), (2, some 2), (3, some 2), (4, some 3), (5, some 3)] := by
  obtain ⟨hlifespan, hprio⟩ := admitted_peers.same_trace_of_uniform fun _ => none
  obtain ⟨t, ht⟩ := hlifespan 2 (by decide)
  obtain ⟨t', ht'⟩ := hprio 3 (by decide)
  have hfcfs := ht .fcfs (by simp)
  cases hfcfs.symm.trans (ht' .fcfs (by simp))
  refine ⟨t, fun d hd => ?_, ?_⟩
  · rcases List.mem_append.1 (show d ∈ [.fcfs, .sjf, .stcf] ++ [.priority, .inheritance] from hd)
      with hd | hd
    · exact ht d hd
    · exact ht' d (List.mem_cons_of_mem _ hd)
  · have hm : peers.Reaches Discipline.fcfs.policy none _ := .of_sorted (by decide) rfl 80
    cases hfcfs.symm.trans (hm.trace?_of_over admitted_peers Discipline.fcfs.lawful
      (rfl : _ = Phase.over .normal))
    rfl

end Scenario

end Uniprocessor
