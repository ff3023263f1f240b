import Uniprocessor.Proofs.Answers
import Uniprocessor.Proofs.Lockstep
import Uniprocessor.Proofs.Shortest

/-!
# When there is nobody to replace

Shortest time to completion first replaces the current process by a ready one that has less left,
and otherwise chooses as shortest job first does. Under shortest job first whoever is in the ready
queue has executed nothing (`Reaches.age_eq_zero_of_ready`), so what it has left is its whole
lifespan. As long as that is no shorter than the current one's, nobody is replaced, and the two
disciplines have the same trace (`Admitted.same_trace_of_lifespan_le`). So it is if all jobs start
in the same tick, since then the shorter ones begin before the longer ones.
-/

namespace Uniprocessor

/-- The lifespan that `keyOf` looks up is that of the job. -/
theorem Machine.Steady.keyOf_lifespan {σ : Type} {sc : Scenario} {m : Machine σ} (hsc : sc.Sound)
    (hm : m.Steady sc) {job : Job} (hjob : job ∈ sc.jobs) {p : Process}
    (hp : m.state.process? job.pid = some p) :
    m.state.keyOf Process.lifespan job.pid = job.lifespan := by
  rw [State.keyOf_of_process? hp, hm.lifespan_eq hsc hjob hp]

namespace Scenario

section Waiting

variable {σ : Type} {sc : Scenario} {P : Policy σ} {memory : σ} {m : Machine σ} {pid : Pid}

/-- If nobody is replaced, whoever is ready has executed nothing, so what it has left is its whole
lifespan. -/
theorem Reaches.age_eq_zero_of_ready (hsc : sc.Admitted) (hP : P.Lawful) (hcons : P.Conserving)
    (hnon : P.Nonpreemptive) (h : sc.Reaches P memory m) (hm : m.Steady sc)
    (hready : pid ∈ m.state.ready) {p : Process} (hp : m.state.process? pid = some p) :
    p.age = 0 := by
  have hrest := hm.isSwitching_eq_false
  obtain ⟨served, queue, hserving, -⟩ := h.serving hsc hP hcons hnon (I := fun _ _ _ => True)
    (fun _ => trivial) (fun _ _ _ _ _ => trivial) hrest
  obtain ⟨hchron, -, -⟩ := h.chronicled hsc hP hrest
  rw [hserving.ready] at hready
  obtain ⟨job, hjob, rfl⟩ := List.mem_map.1 hready
  have hmem := hserving.mem_jobs (List.mem_append_right _ hjob)
  obtain ⟨hran, -, -⟩ := Machine.Serving.ran_eq_age hsc.sound hm hchron hmem hp
  rw [← hran, hserving.ran_eq_zero hsc.sound hjob]

end Waiting

variable {sc : Scenario} {memory memory' : Memory} {m : Machine Memory}

/-- If under shortest job first nobody in the ready queue is ever shorter than the current process,
shortest time to completion first has the same trace: the policies answer alike, and `same_trace`
applies. -/
theorem Admitted.same_trace_of_lifespan_le (h : sc.Admitted)
    (hle : ∀ {m}, sc.Reaches Discipline.sjf.policy memory m → m.Steady sc →
      ∀ cur, m.state.contender? = some cur → ∀ pid ∈ m.state.ready,
        m.state.keyOf Process.lifespan cur ≤ m.state.keyOf Process.lifespan pid) :
    ∃ t, (sc.run Discipline.sjf.policy memory sc.stepBound).trace? = some t ∧
      (sc.run Discipline.stcf.policy memory' sc.stepBound).trace? = some t := by
  have hlawful := Discipline.sjf.lawful
  have hcons : Discipline.sjf.policy.Conserving := Discipline.sjf.conserving
  have hnon : Discipline.sjf.policy.Nonpreemptive := Discipline.nonpreemptive (Or.inr rfl)
  refine h.same_trace (by simp) (by simp) fun {m n} hreach hm hreach' hn halike => ⟨?_, ?_⟩
  · intro hphase memory₁ memory₂ t t' next next' hchoose hchoose'
    have hs := hm.stage.settled
    -- What the ready processes have left is all of their lifespans.
    have hleft : ∀ cur, m.state.contender? = some cur → ∀ pid ∈ m.state.ready,
        m.state.keyOf Process.remaining cur ≤ m.state.keyOf Process.remaining pid := by
      intro cur hcur pid hpid
      obtain ⟨-, p, hp, -⟩ := State.contender?_eq_some.1 hcur
      obtain ⟨q, hq⟩ := hs.process?_of_mem_ready hpid
      have hlife := hle hreach hm cur hcur pid hpid
      have hage := hreach.age_eq_zero_of_ready h hlawful hcons hnon hm hpid hq
      rw [State.keyOf_of_process? hp, State.keyOf_of_process? hq] at hlife ⊢
      rw [Process.remaining, Process.remaining]
      omega
    have hpicks := Discipline.picks_of_sjf hs hchoose
    have hpicks' := Discipline.picks_of_stcf hn.stage.settled (by
      rw [halike.state.contender?, halike.state.ready, halike.state.keyOf fun _ => rfl]
      exact hleft) hchoose'
    rw [halike.state.contender?, halike.state.ready, halike.state.front,
      halike.state.keyOf fun _ => rfl] at hpicks'
    exact hpicks.unique hpicks'
  · intro pid r waiters due x hphase hcalls hcalls' hx memory₁ memory₂ t t' hrelease hrelease'
    rw [Discipline.ready_of_releaseFirst rfl hcalls hx hrelease,
      Discipline.ready_of_releaseFirst rfl hcalls' hx hrelease', halike.state.ready]

/-- If all jobs start in the same tick, nobody in the ready queue is shorter than the current
process: they were all there when it began. -/
theorem Reaches.lifespan_le_of_ready (hsc : sc.Admitted) {start : Nat}
    (hstart : ∀ job ∈ sc.jobs, job.start = start)
    (h : sc.Reaches Discipline.sjf.policy memory m) (hm : m.Steady sc) {cur pid : Pid}
    (hcur : m.state.contender? = some cur) (hpid : pid ∈ m.state.ready) :
    m.state.keyOf Process.lifespan cur ≤ m.state.keyOf Process.lifespan pid := by
  obtain ⟨served, queue, hserving, hascending⟩ := h.serving hsc Discipline.sjf.lawful
    Discipline.sjf.conserving (Discipline.nonpreemptive (Or.inr rfl))
    (I := fun m served queue => m.Ascending served queue) (.initial sc)
    (fun hm hpunctual hserving hI hproceeds =>
      hproceeds.ascending hsc.sound hstart hm hpunctual hserving hI) hm.isSwitching_eq_false
  obtain ⟨hcurrent, p, hp, -⟩ := State.contender?_eq_some.1 hcur
  obtain ⟨q, hq⟩ := hm.stage.settled.process?_of_mem_ready hpid
  -- The current process has begun, and the ready one has not.
  obtain ⟨before, job, rfl, rfl, -⟩ := hserving.current hcurrent
  rw [hserving.ready] at hpid
  obtain ⟨other, hother, rfl⟩ := List.mem_map.1 hpid
  rw [hm.keyOf_lifespan hsc.sound (hserving.mem_jobs (by simp)) hp,
    hm.keyOf_lifespan hsc.sound (hserving.mem_jobs (List.mem_append_right _ hother)) hq]
  exact hascending.next job (by simp) other hother

/-- With equal starts there is **nobody to replace**: if all jobs start in the same tick, shortest
job first and shortest time to completion first have the same trace, whatever the scripts. -/
theorem Admitted.same_trace_of_start (h : sc.Admitted) {start : Nat}
    (hstart : ∀ job ∈ sc.jobs, job.start = start) (memory memory' : Memory) :
    ∃ t, (sc.run Discipline.sjf.policy memory sc.stepBound).trace? = some t ∧
      (sc.run Discipline.stcf.policy memory' sc.stepBound).trace? = some t :=
  h.same_trace_of_lifespan_le fun hreach hm _ hcur _ hpid =>
    hreach.lifespan_le_of_ready h hstart hm hcur hpid

/-- The shortest of three processes has the processor first and the longest one last, under both
disciplines. -/
theorem same_trace_of_start_together :
    ∃ t, (together.run Discipline.sjf.policy none together.stepBound).trace? = some t ∧
      (together.run Discipline.stcf.policy none together.stepBound).trace? = some t ∧
      Trace.slotsOf t.events = [(0, none), (1, some 3), (2, some 2), (3, some 2), (4, some 1),
        (5, some 1), (6, some 1)] := by
  obtain ⟨t, ht, ht'⟩ := admitted_together.same_trace_of_start
    (by decide : ∀ job ∈ together.jobs, job.start = 1) none none
  refine ⟨t, ht, ht', ?_⟩
  have hm : together.Reaches Discipline.sjf.policy none _ := .of_sorted (by decide) rfl 80
  cases ht.symm.trans (hm.trace?_of_over admitted_together Discipline.sjf.lawful
    (rfl : _ = Phase.over .normal))
  rfl

end Scenario

end Uniprocessor
