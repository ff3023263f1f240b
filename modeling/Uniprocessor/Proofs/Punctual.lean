import Mathlib.Algebra.GroupWithZero.Nat
import Mathlib.Algebra.Order.BigOperators.Group.List
import Mathlib.Data.List.MinMax
import Uniprocessor.Proofs.Chronicle
import Uniprocessor.Proofs.Conserving
import Uniprocessor.Proofs.Rounds
import Uniprocessor.Trace

/-!
# Runs end in time

The clock moves once for every tick that somebody executes and once for every idle tick. Nobody
executes longer than its lifespan, and an idle tick that does not end the run comes before the last
arrival, since in an idle tick every live process waits. So the clock is never past the last start
and the ticks executed so far (`Punctual`), and a run whose limit leaves room for the last start and
all lifespans is not stopped by its limit (`Scenario.Admitted.ends_in_time`).
-/

namespace Uniprocessor

namespace Scenario

variable {sc : Scenario}

/-- The start of the job that arrives last; zero if there are none. -/
def lastStart (sc : Scenario) : Nat := (sc.jobs.map Job.start).foldr max 0

/-- The ticks that all jobs execute in a complete run: the sum of their lifespans, however large. -/
def totalLifespan (sc : Scenario) : Nat := (sc.jobs.map Job.lifespan).sum

theorem start_le_lastStart {job : Job} (h : job ∈ sc.jobs) : job.start ≤ sc.lastStart :=
  List.le_max_of_le (List.mem_map_of_mem h) (Nat.le_refl _)

/-- If no job starts later than some tick, the last one does not: how a bound on `lastStart` is
shown. -/
theorem lastStart_le {start : Nat} (h : ∀ job ∈ sc.jobs, job.start ≤ start) :
    sc.lastStart ≤ start := by
  refine List.max_le_of_forall_le _ _ fun n hn => ?_
  obtain ⟨job, hjob, rfl⟩ := List.mem_map.1 hn
  exact h job hjob

end Scenario

namespace Phase

/-- How many ticks have been executed in the present tick, which the clock has not counted yet: one
from the execution to the end of the tick. -/
def spent : Phase → Nat
  | .returning .. | .releasing .. | .closing false => 1
  | _ => 0

/-- Whether everybody has arrived whose start has come: the phases of a tick after those in which
arrivals are awaited. -/
def isGathered : Phase → Bool
  | .choosing | .requesting .. | .executing _ | .returning .. | .releasing .. | .closing _ => true
  | _ => false

end Phase

namespace Machine

variable {σ : Type} {sc : Scenario} {P : Policy σ} {limit : Nat} {m m' : Machine σ} {job : Job}

/-! ## Executed ticks -/

/-- The ticks that the jobs have executed so far, in all, as the history has them. -/
def executedTicks (sc : Scenario) (m : Machine σ) : Nat :=
  (sc.jobs.map fun job => m.history.count (.executed job.pid)).sum

theorem executedTicks_le_of_append {later : List Happening} (h : m'.history = m.history ++ later) :
    m.executedTicks sc ≤ m'.executedTicks sc := by
  refine List.sum_le_sum fun job _ => ?_
  rw [h, List.count_append]
  exact Nat.le_add_right _ _

/-- A tick that is executed counts: `executedTicks` is greater by it. -/
theorem executedTicks_lt_of_executed (hjob : job ∈ sc.jobs)
    (h : m'.history = m.history ++ [.executed job.pid]) :
    m.executedTicks sc < m'.executedTicks sc := by
  refine List.sum_lt_sum _ _ (fun other _ => ?_) ⟨job, hjob, ?_⟩
  · rw [h, List.count_append]
    exact Nat.le_add_right _ _
  · rw [h, List.count_append, List.count_singleton_self]
    exact Nat.lt_succ_self _

/-- A job that has not arrived has executed nothing: nothing is heard of a process before it
arrives. -/
theorem Chronicled.count_executed_of_pending (h : m.Chronicled) (hjob : job ∈ m.arrivals) :
    m.history.count (.executed job.pid) = 0 :=
  List.count_eq_zero_of_not_mem fun hmem => h.pending hjob (h.heard hmem rfl)

/-- A live process has executed as many ticks as its age, which the history tells, and that is at
most its lifespan. -/
theorem Chronicled.count_executed_of_live (hsc : sc.Sound) (hm : m.Steady sc) (h : m.Chronicled)
    (hjob : job ∈ sc.jobs) {p : Process} (hp : m.state.process? job.pid = some p) :
    m.history.count (.executed job.pid) = p.age ∧ p.age ≤ job.lifespan ∧
      p.lifespan = job.lifespan := by
  obtain ⟨job', hjob', script, hpid, -, hplays⟩ := hm.stage.plays hp
  obtain rfl := hsc.eq_of_pid hjob hjob' hpid.symm
  exact ⟨(h.told.of_process? hp).2.2, hplays.age_le, hplays.lifespan⟩

/-- No job executes longer than its lifespan, whether it is to come, live or gone: the cases of a
machine that is `Enrolled`. -/
theorem Enrolled.count_executed_le (hsc : sc.Sound) (hm : m.Steady sc) (hc : m.Chronicled)
    (h : m.Enrolled sc) (hjob : job ∈ sc.jobs) :
    m.history.count (.executed job.pid) ≤ job.lifespan := by
  rcases h.known hjob with hpending | harrived
  · rw [hc.count_executed_of_pending hpending]
    exact Nat.zero_le _
  · by_cases hleft : .left job.pid ∈ m.history
    · exact Nat.le_of_eq (h.served hjob hleft)
    · obtain ⟨p, hp⟩ := hc.told.process?_of_mem harrived hleft
      obtain ⟨hcount, hle, -⟩ := hc.count_executed_of_live hsc hm hjob hp
      exact hcount ▸ hle

theorem Enrolled.executedTicks_le (hsc : sc.Sound) (hm : m.Steady sc) (hc : m.Chronicled)
    (h : m.Enrolled sc) : m.executedTicks sc ≤ sc.totalLifespan :=
  List.sum_le_sum fun _ hjob => h.count_executed_le hsc hm hc hjob

/-- While work is left, not all lifespans have been executed: some job is to come, or is live with
ticks to execute. -/
theorem Enrolled.executedTicks_lt (hsc : sc.Sound) (hm : m.Steady sc) (hc : m.Chronicled)
    (h : m.Enrolled sc) (hwork : m.isWindingDown = false) :
    m.executedTicks sc < sc.totalLifespan := by
  refine List.sum_lt_sum _ _ (fun _ hjob => h.count_executed_le hsc hm hc hjob) ?_
  have hleft : ¬ (m.arrivals = [] ∧ ∀ p ∈ m.state.procs, p.isFinished = true) := by
    rw [← isWindingDown_eq_true, hwork]
    exact Bool.false_ne_true
  rcases harr : m.arrivals with _ | ⟨job, rest⟩
  · -- All have arrived, so somebody is live and not finished.
    obtain ⟨p, hp, hfin⟩ : ∃ p ∈ m.state.procs, ¬ p.isFinished = true := by
      by_contra hall
      exact hleft ⟨harr, fun p hp => by_contra fun hfin => hall ⟨p, hp, hfin⟩⟩
    have hlive := hm.stage.settled.ordered.process?_of_mem hp
    obtain ⟨job, hjob, -, hpid, -⟩ := hm.stage.plays hlive
    obtain ⟨hcount, -, hlife⟩ := hc.count_executed_of_live hsc hm hjob (hpid ▸ hlive)
    rw [Process.isFinished_iff, Nat.not_le, hlife] at hfin
    exact ⟨job, hjob, hcount ▸ hfin⟩
  · have hmem : job ∈ m.arrivals := harr ▸ List.mem_cons_self ..
    have hjob := hm.stage.arrivals_mem job hmem
    refine ⟨job, hjob, ?_⟩
    rw [hc.count_executed_of_pending hmem]
    exact (hsc.jobs job hjob).lifespan_pos

/-! ## The clock -/

/-- The clock is not past the limit, nor past the last start and the ticks executed so far. -/
structure Punctual (sc : Scenario) (m : Machine σ) : Prop where
  /-- the earliest of the jobs to come is the first -/
  sorted : m.arrivals.Pairwise fun job other => job.start ≤ other.start
  /-- who has not arrived in this tick starts later -/
  gathered : m.phase.isGathered = true → ∀ job ∈ m.arrivals, m.state.tick < job.start
  /-- an idle tick with nobody to come ends the run -/
  stuck : m.phase = .closing true → m.arrivals = [] → m.isStuck true = true
  /-- the clock is not past the limit -/
  limit : m.state.tick ≤ sc.limit
  /-- the clock is not past the last start and the ticks executed so far -/
  clock : m.state.tick + m.phase.spent ≤ sc.lastStart + m.executedTicks sc

namespace Punctual

theorem initial (sc : Scenario) (memory : σ) : (Machine.initial sc memory).Punctual sc where
  sorted := sorted_arrivalOrder sc.jobs
  gathered h := by cases h
  stuck h := by cases h
  limit := Nat.zero_le _
  clock := Nat.zero_le _

/-- The clock of a stride's beginning is in time for its end, since `executedTicks` never falls. -/
theorem tick_le_strides (h : m.Punctual sc) (hstr : m.Strides P limit m') :
    m.state.tick ≤ sc.lastStart + m'.executedTicks sc := by
  obtain ⟨later, hlater, -⟩ := hstr.history
  exact (Nat.le_of_add_right_le h.clock).trans
    (Nat.add_le_add_left (executedTicks_le_of_append hlater) _)

/-- Where nobody arrives and the clock stands still, only the phase has to be looked at: a stride of
this kind leaves the machine `Punctual`. -/
theorem of_phase (h : m.Punctual sc) (hstr : m.Strides P limit m')
    (harrivals : m'.arrivals = m.arrivals) (htick : m'.state.tick = m.state.tick)
    (hspent : m'.phase.spent ≤ m.phase.spent)
    (hgathered : m'.phase.isGathered = true → m.phase.isGathered = true)
    (hidle : m'.phase ≠ .closing true) : m'.Punctual sc where
  sorted := harrivals ▸ h.sorted
  gathered hphase := by
    rw [harrivals, htick]
    exact h.gathered (hgathered hphase)
  stuck hphase := absurd hphase hidle
  limit := htick ▸ h.limit
  clock := by
    obtain ⟨later, hlater, -⟩ := hstr.history
    have hle : m.executedTicks sc ≤ m'.executedTicks sc := executedTicks_le_of_append hlater
    have hclock := h.clock
    omega

/-- If a policy is `Conserving` and nobody is chosen, every process that is left is blocked. -/
theorem isStuck_of_idle (hsc : sc.Sound) (hm : m.Steady sc) (hP : P.Conserving)
    (hphase : m.phase = .choosing) {memory : σ} {t : State}
    (hok : (P.choose m.memory m.state).result = .ok (memory, t, none))
    (hchose : m.state.Chose t none)
    (hwork : ¬ ((m.state.switched t none).procs = [] ∧ m.arrivals = []))
    (harrivals : m.arrivals = []) :
    isStuck { (m.carriedOut memory t none).record .idle with phase := .closing true } true =
      true := by
  have hst := hm.stage_of hphase
  have hset := (hst.switched hsc hchose).settled
  have hvacant := hP hst.settled hok
  have hblocked : ∀ p ∈ (m.state.switched t none).procs, p.isBlocked = true := fun p hp =>
    Process.isBlocked_iff.2 (hvacant.blocked_of_switched hst.settled (fun _ => hst.status?_leaver)
      hchose hset hp)
  have hlive : (m.state.switched t none).procs ≠ [] := fun hnil => hwork ⟨hnil, harrivals⟩
  simpa [isStuck, record, harrivals, hlive] using hblocked

/-- The first of the jobs to come starts before the others, so if it starts later than now they all
do: jobs come in the order of their starts. -/
theorem start_lt_of_head (h : m.Punctual sc)
    (hstart : ∀ job ∈ m.arrivals.head?, m.state.tick < job.start) :
    ∀ job ∈ m.arrivals, m.state.tick < job.start := by
  have hsorted := h.sorted
  intro job hjob
  cases harr : m.arrivals with
  | nil =>
    rw [harr] at hjob
    cases hjob
  | cons first rest =>
    rw [harr] at hjob hstart hsorted
    have hfirst := hstart first rfl
    rcases List.mem_cons.1 hjob with rfl | hjob
    · exact hfirst
    · exact Nat.lt_of_lt_of_le hfirst (List.rel_of_pairwise_cons hsorted hjob)

/-- If an idle tick does not end the run, somebody is to come, and starts later: so the clock is
before `lastStart`, and may move without a tick executed. -/
theorem tick_lt_lastStart (hm : m.Steady sc) (h : m.Punctual sc) (hphase : m.phase = .closing true)
    (hstuck : m.isStuck true = false) : m.state.tick < sc.lastStart := by
  obtain ⟨job, hjob⟩ : ∃ job, job ∈ m.arrivals := by
    apply List.exists_mem_of_ne_nil
    intro hnil
    rw [h.stuck hphase hnil] at hstuck
    cases hstuck
  exact Nat.lt_of_lt_of_le (h.gathered (by rw [hphase]; rfl) job hjob)
    (Scenario.start_le_lastStart (hm.stage.arrivals_mem job hjob))

/-- Every stride under a `Conserving` policy keeps the clock in time: in an idle tick it is before
the last start, and all other ticks are executed. -/
theorem strides (hsc : sc.Sound) (hm : m.Steady sc) (hP : P.Conserving) (h : m.Punctual sc)
    (hstr : m.Strides P sc.limit m') : m'.Punctual sc := by
  have hstr' := hstr
  cases hstr with
  | gather hphase hstart =>
    exact ⟨h.sorted, fun _ => h.start_lt_of_head hstart, nofun, h.limit,
      Nat.le_of_add_right_le h.clock⟩
  | @arrive job rest hphase harrivals =>
    have hsorted := h.sorted
    rw [harrivals] at hsorted
    exact ⟨hsorted.of_cons, nofun, nofun, h.limit, h.tick_le_strides hstr'⟩
  | @idle memory t hphase hok hchose hwork =>
    have htick := hstr'.tick_eq (by simp [hphase])
    have harr : (m.carriedOut memory t none).arrivals = m.arrivals := carriedOut_arrivals ..
    refine ⟨harr ▸ h.sorted, fun _ => ?_, fun _ harrivals => ?_, htick ▸ h.limit, ?_⟩
    · rw [htick]
      exact harr ▸ h.gathered (by rw [hphase]; rfl)
    · exact isStuck_of_idle hsc hm hP hphase hok hchose hwork (harr ▸ harrivals)
    · rw [htick]
      exact h.tick_le_strides hstr'
  | @execute pid p script script' expired hphase hp =>
    obtain ⟨job, hjob, -, rfl, -⟩ := hm.stage.plays hp
    have hlt : m.executedTicks sc < (m.record (.executed job.pid)).executedTicks sc :=
      executedTicks_lt_of_executed hjob (m.history_record _)
    refine ⟨h.sorted, fun _ => h.gathered (by rw [hphase]; rfl), nofun, h.limit, ?_⟩
    exact (Nat.succ_le_succ (Nat.le_of_add_right_le h.clock)).trans (Nat.add_le_add_left hlt _)
  | @tick wasIdle hphase hstuck =>
    have hlt : m.state.tick < sc.limit := hm.onTime_of hphase
    refine ⟨h.sorted, nofun, nofun, hlt, ?_⟩
    change m.state.tick + 1 + 0 ≤ sc.lastStart + m.executedTicks sc
    cases wasIdle with
    | false =>
      have hclock := h.clock
      rw [hphase] at hclock
      exact hclock
    | true =>
      have hlast := h.tick_lt_lastStart hm hphase hstuck
      omega
  | drain hphase _ hchose =>
    exact h.of_phase hstr' (carriedOut_arrivals ..) (Steady.tick_carriedOut hchose _)
      (Nat.zero_le _) nofun nofun
  | turn hphase _ hchose =>
    exact h.of_phase hstr' (carriedOut_arrivals ..) (Steady.tick_carriedOut hchose _)
      (Nat.zero_le _) (fun _ => by rw [hphase]; rfl) nofun
  | grant hphase _ _ _ _ _ ht =>
    exact h.of_phase hstr' rfl ht.tick (Nat.zero_le _) (fun _ => by rw [hphase]; rfl) nofun
  | refuse hphase _ _ _ _ ht =>
    exact h.of_phase hstr' rfl ht.tick (Nat.zero_le _) (fun _ => by rw [hphase]; rfl) nofun
  | release hphase =>
    exact h.of_phase hstr' (recordWoken_arrivals ..) (hstr'.tick_eq (by simp [hphase]))
      (by rw [hphase]; rfl) (fun _ => by rw [hphase]; rfl) nofun
  | stick hphase => exact h.of_phase hstr' rfl rfl (Nat.zero_le _) nofun nofun
  | _ hphase =>
    exact h.of_phase hstr' rfl rfl (by rw [hphase]; rfl) (by rw [hphase]; exact id) nofun

end Punctual

end Machine

namespace Scenario

variable {sc : Scenario}

/-- Wherever a run under a `Conserving` policy gets to, the clock is in time, by `Punctual.strides`
for each stride. -/
theorem Reaches.punctual {σ : Type} {P : Policy σ} {memory : σ} {m : Machine σ} (hsc : sc.Admitted)
    (hP : P.Lawful) (hcons : P.Conserving) (h : sc.Reaches P memory m)
    (hm : m.phase.isSwitching = false) : m.Punctual sc :=
  h.invariant hsc hP (Machine.Punctual.initial sc)
    (fun hm hI hstr => hI.strides hsc.sound hm hcons hstr) hm

/-- A run is stopped by its limit only if the limit leaves no room for `lastStart` and
`totalLifespan`: the clock is at the limit while work is left. -/
theorem Reaches.limit_lt {σ : Type} {P : Policy σ} {memory : σ} {m : Machine σ} (hsc : sc.Admitted)
    (hP : P.Lawful) (hcons : P.Conserving) (h : sc.Reaches P memory m)
    (hphase : m.phase = .over .tickLimit) : sc.limit < sc.lastStart + sc.totalLifespan := by
  have hrest := Phase.isSwitching_of_over hphase
  obtain ⟨hlimit, hwork⟩ : sc.limit ≤ m.state.tick ∧ m.isWindingDown = false :=
    h.accounts hsc hP hphase
  obtain ⟨hchron, henr, -⟩ := h.chronicled hsc hP hrest
  have hclock := (h.punctual hsc hP hcons hrest).clock
  have hlt := henr.executedTicks_lt hsc.sound (h.steady hsc hP hrest) hchron hwork
  omega

/-- All **runs end in time**. When the policy is asked, whoever was refused something in that tick
is blocked, and nobody is refused anything twice in a tick; so the rounds in which the policy
chooses and the chosen process asks come to an end in that tick, and somebody executes, or the tick
is idle, or nobody is left. The run itself comes to an end, at a machine that it `Reaches`, not
after its limit, and not after `lastStart` and `totalLifespan` together; and where the limit leaves
room for these, it is not the limit that stops the run. -/
theorem Admitted.ends_in_time (h : sc.Admitted) {d : Discipline}
    (hc : d = .ceiling → 0 < sc.ceiling)
    (memory : Memory) :
    (∀ m, sc.Reaches d.policy memory m → m.phase.isSwitching = false →
      (∀ tick, (m.refusedIn tick).Nodup) ∧
      (m.phase = .choosing →
        (∀ pid ∈ m.refusedIn m.state.tick, m.state.status? pid = some .blocked) ∧
        ∃ last, m.Leads d.policy sc.limit (fun x => x.state.tick = m.state.tick) last ∧
          ((∃ pid, last.phase = .executing pid) ∨ last.phase = .closing true ∨
            last.phase = .ending .normal))) ∧
    ∃ t, (sc.run d.policy memory sc.stepBound).trace? = some t ∧
      sc.Reaches d.policy memory (sc.run d.policy memory sc.stepBound).machine ∧
      (sc.run d.policy memory sc.stepBound).machine.phase = .over t.exit ∧
      t.endTick ≤ sc.limit ∧ t.endTick ≤ sc.lastStart + sc.totalLifespan ∧
      (sc.lastStart + sc.totalLifespan ≤ sc.limit → t.exit ≠ .tickLimit) := by
  refine ⟨fun m hm hrest => ?_, ?_⟩
  · have honce := hm.refusedOnce h d.lawful hrest
    refine ⟨honce.once, fun hphase => ⟨honce.blocked (by rw [hphase]; rfl), ?_⟩⟩
    obtain ⟨last, hlead, hdecided⟩ :=
      (hm.steady h d.lawful hrest).leads_decided h d.lawful (by rw [hphase]; rfl) rfl
    refine ⟨last, hlead, ?_⟩
    unfold Phase.Decided at hdecided
    split at hdecided
    · next pid hlast => exact Or.inl ⟨pid, hlast⟩
    · next hlast => exact Or.inr (Or.inl hlast)
    · next hlast => exact Or.inr (Or.inr hlast)
    · exact hdecided.elim
  · have hne : ¬ (d = .ceiling ∧ sc.ceiling = 0) := fun ⟨hd, hzero⟩ =>
      absurd (hc hd) (hzero ▸ Nat.lt_irrefl 0)
    obtain ⟨exit, hended, hreach, hphase⟩ := h.reaches_end hne memory
    have hrest := Phase.isSwitching_of_over hphase
    obtain ⟨hchron, henr, -⟩ := hreach.chronicled h d.lawful hrest
    have hpunct := hreach.punctual h d.lawful d.conserving hrest
    have hexecuted := henr.executedTicks_le h.sound (hreach.steady h d.lawful hrest) hchron
    have hclock := Nat.le_of_add_right_le hpunct.clock
    refine ⟨⟨_, exit, _⟩, by rw [Run.trace?, hended], hreach, hphase, hpunct.limit,
      hclock.trans (Nat.add_le_add_left hexecuted _), ?_⟩
    rintro hroom rfl
    exact absurd (hreach.limit_lt h d.lawful d.conserving hphase) (Nat.not_lt.2 hroom)

/-- In the second tick of the crowded scenario two processes have been refused the resource when the
policy is asked for the third time, and the tick is decided after that. The run has four ticks to
execute and ends within four. -/
theorem ends_in_time_crowded :
    (∃ m, crowded.Reaches Discipline.roundRobin.policy none m ∧ m.phase = .choosing ∧
      m.state.tick = 1 ∧ m.refusedIn 1 = [2, 3] ∧ (m.refusedIn 1).Nodup ∧
      (∀ pid ∈ m.refusedIn 1, m.state.status? pid = some .blocked) ∧
      ∃ last, m.Leads Discipline.roundRobin.policy crowded.limit (fun x => x.state.tick = 1) last ∧
        ((∃ pid, last.phase = .executing pid) ∨ last.phase = .closing true ∨
          last.phase = .ending .normal)) ∧
    crowded.lastStart + crowded.totalLifespan = 4 ∧
    ∃ t, (crowded.run Discipline.roundRobin.policy none crowded.stepBound).trace? = some t ∧
      t.endTick ≤ 4 ∧ t.exit ≠ .tickLimit := by
  obtain ⟨halong, t, ht, -, -, -, hend, hexit⟩ :=
    admitted_crowded.ends_in_time (d := .roundRobin) (by decide) none
  have hm : crowded.Reaches Discipline.roundRobin.policy none _ := .of_sorted (by decide) rfl 23
  obtain ⟨honce, hrounds⟩ := halong _ hm rfl
  obtain ⟨hblocked, hlast⟩ := hrounds rfl
  exact ⟨⟨_, hm, rfl, rfl, rfl, honce 1, hblocked, hlast⟩, rfl, t, ht, hend, hexit (by decide)⟩

end Scenario

end Uniprocessor
