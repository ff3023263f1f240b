import Uniprocessor.Proofs.Ending
import Uniprocessor.Proofs.Locking
import Uniprocessor.Proofs.Partition
import Uniprocessor.State.Snapshot
import Uniprocessor.Trace.Observation

/-!
# Runs under the eight disciplines are safe

Every discipline is lawful, so under any of them a run of an admitted scenario goes to its end
without a fault, and the partition of the processes holds at every point of it at which no choice is
being carried out.
-/

namespace Uniprocessor

namespace State

/-! ## Displays -/

/-- The line of the current process can be shown by `currentLine`, since whoever is current is
live. -/
theorem Settled.currentLine_eq_ok {s : State} (h : s.Settled) :
    ∃ line, s.currentLine = .ok line := by
  rw [currentLine, currentRecord]
  rcases hc : s.current with _ | pid
  · exact ⟨_, rfl⟩
  · obtain ⟨p, hp⟩ := h.process?_of_current hc
    simp only [process_eq_ok.2 hp]
    exact ⟨_, rfl⟩

/-- The line of the ready queue can be shown by `readyLine`, since whoever is ready is live. -/
theorem Settled.readyLine_eq_ok {s : State} (h : s.Settled) : ∃ line, s.readyLine = .ok line := by
  have key : ∀ q : Queue, (∀ pid ∈ q, ∃ p, s.process? pid = some p) →
      ∃ entries, q.mapM s.readyEntry = .ok entries := by
    intro q
    induction q with
    | nil => exact fun _ => ⟨[], rfl⟩
    | cons pid rest ih =>
      intro hq
      obtain ⟨p, hp⟩ := hq pid (List.mem_cons_self ..)
      obtain ⟨entries, hentries⟩ := ih fun q hmem => hq q (List.mem_cons_of_mem _ hmem)
      rw [List.mapM_cons, readyEntry, process_eq_ok.2 hp, hentries]
      exact ⟨_, rfl⟩
  obtain ⟨entries, hentries⟩ := key s.ready fun _ => h.process?_of_mem_ready
  rw [readyLine, hentries]
  exact ⟨_, rfl⟩

/-- A settled state can be shown as `lines`: whomever it names is live. -/
theorem Settled.lines_eq_ok {s : State} (h : s.Settled) : ∃ lines, s.lines = .ok lines := by
  obtain ⟨current, hcurrent⟩ := h.currentLine_eq_ok
  obtain ⟨ready, hready⟩ := h.readyLine_eq_ok
  rw [lines, hcurrent, ok_bind, hready, ok_bind]
  exact ⟨_, rfl⟩

end State

namespace Scenario

variable {sc : Scenario}

/-! ## The end of a run -/

/-- Under a lawful policy that can be set up, the run goes to its end within `stepBound`, and its
last machine is steady. -/
theorem Admitted.run_of_setup {σ : Type} {P : Policy σ} (h : sc.Admitted) (hP : P.Lawful)
    {memory memory' : σ}
    (hsetup : (P.setup memory (Machine.initial sc memory).state).result =
      .ok (.ok (memory', (Machine.initial sc memory).state))) :
    ∃ exit, (sc.run P memory sc.stepBound).outcome = .ended exit ∧
      (sc.run P memory sc.stepBound).machine.Steady sc := by
  rw [run, prepare_of_ok hsetup]
  exact (Machine.Steady.initial h.sound memory').run_ended h hP
    (Nat.le_of_eq (Machine.rank_initial sc memory')) _

/-- The priority ceiling without a ceiling is refused before the first tick: `run` stops at the
initial machine with the error of the configuration. -/
theorem run_of_refused {d : Discipline} (hc : d = .ceiling ∧ sc.ceiling = 0) (memory : Memory)
    (fuel : Nat) :
    (sc.run d.policy memory fuel).outcome =
        .unsettled (.config "priority ceiling requires max_prio > 0") ∧
      (sc.run d.policy memory fuel).machine = Machine.initial sc memory := by
  have hsetup : (d.policy.setup memory (Machine.initial sc memory).state).result =
      .ok (.error (.config "priority ceiling requires max_prio > 0")) :=
    congrArg Except.ok (d.setup_eq_error hc.1 hc.2 memory)
  rw [run, prepare_of_error hsetup]
  exact ⟨rfl, rfl⟩

/-- Under a discipline that can be set up, the run goes to its end, and its last machine is one that
it `Reaches`: what holds of all machines on the way holds of the last one. -/
theorem Admitted.reaches_end (h : sc.Admitted) {d : Discipline}
    (hc : ¬ (d = .ceiling ∧ sc.ceiling = 0)) (memory : Memory) :
    ∃ exit, (sc.run d.policy memory sc.stepBound).outcome = .ended exit ∧
      sc.Reaches d.policy memory (sc.run d.policy memory sc.stepBound).machine ∧
      (sc.run d.policy memory sc.stepBound).machine.phase = .over exit := by
  obtain ⟨memory', hm⟩ := d.setup_eq_ok (s := (Machine.initial sc memory).state) hc memory
  obtain ⟨exit, hended, -⟩ := h.run_of_setup d.lawful (congrArg Except.ok hm)
  exact ⟨exit, hended, reaches_of_ended hended⟩

/-- The **safety of runs**: no machine that a run of an `Admitted` scenario `Reaches` faults in its
next step, under any discipline, every state between two strides can be shown, and the run goes to
its end: the machine at which it stops is one of those that it `Reaches`, and its phase is
`Phase.over`. The one exception is the priority ceiling without a ceiling, which is refused before
the first tick. -/
theorem Admitted.run_ends (h : sc.Admitted) (d : Discipline) (memory : Memory) :
    (∀ m, sc.Reaches d.policy memory m → ∃ m', (m.step d.policy sc.limit).result = .ok m') ∧
      (∀ m, sc.Reaches d.policy memory m → m.phase.isSwitching = false →
        ∃ lines, m.state.lines = .ok lines) ∧
      if d = .ceiling ∧ sc.ceiling = 0 then
        (sc.run d.policy memory sc.stepBound).outcome =
          .unsettled (.config "priority ceiling requires max_prio > 0")
      else ∃ exit, (sc.run d.policy memory sc.stepBound).outcome = .ended exit ∧
        sc.Reaches d.policy memory (sc.run d.policy memory sc.stepBound).machine ∧
        (sc.run d.policy memory sc.stepBound).machine.phase = .over exit := by
  refine ⟨fun m hm => hm.exists_step h d.lawful,
    fun m hm hrest => (hm.steady h d.lawful hrest).stage.settled.lines_eq_ok, ?_⟩
  by_cases hc : d = .ceiling ∧ sc.ceiling = 0
  · rw [if_pos hc]
    exact (run_of_refused hc memory _).1
  · rw [if_neg hc]
    exact h.reaches_end hc memory

/-- The crossed scenario goes to its end under priority inheritance. -/
theorem run_ends_crossed : crossed.Admitted ∧
    (∀ m, crossed.Reaches Discipline.inheritance.policy none m →
      ∃ m', (m.step Discipline.inheritance.policy crossed.limit).result = .ok m') ∧
    ∃ exit,
      (crossed.run Discipline.inheritance.policy none crossed.stepBound).outcome = .ended exit ∧
      crossed.Reaches Discipline.inheritance.policy none
        (crossed.run Discipline.inheritance.policy none crossed.stepBound).machine ∧
      (crossed.run Discipline.inheritance.policy none crossed.stepBound).machine.phase =
        .over exit := by
  obtain ⟨hstep, -, hend⟩ := admitted_crossed.run_ends .inheritance none
  rw [if_neg (by decide)] at hend
  exact ⟨admitted_crossed, hstep, hend⟩

/-- The **partition holds**: wherever no choice is being carried out, every process is in its place,
so the state is `Settled` and `violation` finds nothing; and no breach was found at the end of any
tick of the run. -/
theorem Admitted.partition_holds (h : sc.Admitted) (d : Discipline) (memory : Memory) :
    (∀ m, sc.Reaches d.policy memory m → m.phase.isSwitching = false →
        m.state.Settled ∧ m.state.violation = none) ∧
      (sc.run d.policy memory sc.stepBound).breaches = [] := by
  refine ⟨fun m hm hrest => ?_, ?_⟩
  · have hset := (hm.steady h d.lawful hrest).stage.settled
    exact ⟨hset, hset.violation_eq_none⟩
  · have hnone : ∀ r : Run Memory,
        (∀ x ∈ r.machine.samples, x.state.Settled) → r.breaches = [] := by
      intro r hr
      refine List.filterMap_eq_nil_iff.2 fun x hx => ?_
      rw [Sample.breach, (hr x (Array.mem_toList_iff.1 hx)).violation_eq_none]
      rfl
    refine hnone _ fun x hx => ?_
    by_cases hc : d = .ceiling ∧ sc.ceiling = 0
    · -- A run that is refused takes no samples.
      rw [(run_of_refused hc memory _).2] at hx
      simp [Machine.initial] at hx
    · obtain ⟨memory', hm⟩ := d.setup_eq_ok (s := (Machine.initial sc memory).state) hc memory
      obtain ⟨-, -, hsteady⟩ := h.run_of_setup d.lawful (congrArg Except.ok hm)
      exact hsteady.samples x hx

/-- When in the crossed scenario each process waits for the other, both are in their places. -/
theorem partition_holds_crossed : ∃ m, crossed.Reaches Discipline.inheritance.policy none m ∧
    m.phase = .closing true ∧ m.state.Settled ∧ m.state.violation = none ∧
    (crossed.run Discipline.inheritance.policy none crossed.stepBound).breaches = [] := by
  have hm : crossed.Reaches Discipline.inheritance.policy none _ :=
    .of_sorted (by decide) rfl 32
  obtain ⟨hall, hnone⟩ := admitted_crossed.partition_holds .inheritance none
  obtain ⟨hsettled, hviolation⟩ := hall _ hm (by decide)
  exact ⟨_, hm, by decide, hsettled, hviolation, hnone⟩

end Scenario

end Uniprocessor
