import Uniprocessor.Proofs.Reachable

/-!
# A run ends within its steps

Every stride brings a steady machine nearer to the end of its run. How far away that is at most is
its rank: two for every job to come, the steps of a whole tick for every tick that may still begin,
and what is left of the present tick. Within a tick the policy may be asked once more for every
refused request, but a refused process is blocked, so the live processes that are not blocked bound
the number of rounds. The rank of the first machine is the number of steps that the scenario allows
(`rank_initial`), so these are enough (`Steady.run_ended`).
-/

namespace Uniprocessor

open Narrated

namespace State

/-- The live processes that are not blocked. Each round of a tick but the last ends with one of them
being blocked. -/
def awake (s : State) : List Pid := s.pidsWhere fun p => !p.isBlocked

theorem Ordered.mem_awake {s : State} (h : s.Ordered) {pid : Pid} :
    pid ∈ s.awake ↔ ∃ p, s.process? pid = some p ∧ p.status ≠ .blocked := by
  simp [awake, h.mem_pidsWhere, Process.isBlocked]

/-- A process that is parked is `awake` no more, and nobody else awakes, so their number falls. -/
theorem Settled.length_awake_park {s : State} (h : s.Settled) {r : ResourceId} {x : Resource}
    (hx : s.resources[r]? = some x) {pid : Pid} (hp : s.status? pid = some .running)
    (hown : ¬ s.Owns pid r) : (s.park r x pid).awake.length < s.awake.length := by
  have ht := (h.park hx hp hown).ordered
  refine length_pidsWhere_lt_of_imp h.ordered ht (fun q p hq hb => ?_) pid ?_ ?_
  · rw [process?_park] at hq
    by_cases he : q = pid
    · rw [if_pos he] at hq
      obtain ⟨p', -, rfl⟩ := Option.map_eq_some_iff.1 hq
      simp [Process.isBlocked] at hb
    · rw [if_neg he] at hq
      exact ⟨p, hq, hb⟩
  · obtain ⟨p, hp, hrun⟩ := process?_of_status? hp
    exact h.ordered.mem_awake.2 ⟨p, hp, by simp [hrun]⟩
  · intro hm
    obtain ⟨p, hq, hb⟩ := ht.mem_awake.1 hm
    have hst := status?_park (r := r) (x := x) hp pid
    rw [if_pos rfl, status?_of_process? hq, Option.some_inj] at hst
    exact hb hst

/-- Repricing leaves the number of those that are `awake` as it is. -/
theorem Repriced.length_awake {s t : State} (h : s.Repriced t) : t.awake.length = s.awake.length :=
  h.keeps (fun s => s.awake.length) fun s => by
    simp only [awake, pidsWhere, unpriced, List.length_map, List.filter_map]
    rfl

end State

/-- A tick takes two steps at least, one to begin it and one to end it, whatever `stepsPerTick`
counts besides. -/
theorem Scenario.two_le_stepsPerTick (sc : Scenario) : 2 ≤ sc.stepsPerTick := Nat.le_add_left ..

/-- The steps that are left in the present tick, at most: a round for each process that is `awake`
and one more, and then the returns. -/
def Phase.rank (sc : Scenario) (s : State) : Phase → Nat
  | .boundary => sc.stepsPerTick
  | .arriving => sc.stepsPerTick - 1
  | .announcing _ => sc.stepsPerTick
  | .choosing =>
    (s.awake.length + 1) * (sc.requestCount + 4) + 2 * sc.requestCount + 6
  | .switching .. => 0
  | .requesting _ due =>
    s.awake.length * (sc.requestCount + 4) + 2 * sc.requestCount + 6 + due.length
  | .executing _ => 2 * sc.requestCount + 5
  | .returning _ due => 2 * due.length + 4
  | .releasing _ _ _ due => 2 * due.length + 5
  | .closing _ => 3
  | .ending _ => 1
  | .over _ => 0

/-- How many steps the stride from a phase takes: two for a choice, and one otherwise. -/
def Phase.cost : Phase → Nat
  | .choosing => 2
  | _ => 1

theorem Phase.cost_pos (phase : Phase) : 0 < phase.cost := by
  unfold cost
  split <;> omega

/-! ## The rank within a tick -/

namespace Phase

variable {sc : Scenario} {s t : State} {pid : Pid}

/-- Before the policy is asked for the first time, a tick has rounds for all jobs, so for all
processes that are `awake`. -/
theorem rank_choosing_lt (h : s.awake.length ≤ sc.jobs.length) :
    choosing.rank sc s + 1 ≤ arriving.rank sc s := by
  have hS : sc.stepsPerTick =
      (sc.jobs.length + 1) * (sc.requestCount + 4) + 2 * sc.requestCount + 8 := rfl
  have hrounds := Nat.mul_le_mul_right (sc.requestCount + 4) (Nat.add_le_add_right h 1)
  simp only [rank]
  omega

/-- A choice uses a round up, and a round has room for all requests that can be due. -/
theorem rank_requesting_of_choosing {due : List Request} (hdue : due.length ≤ sc.requestCount)
    (h : t.awake.length ≤ s.awake.length) :
    (requesting pid due).rank sc t + 2 ≤ choosing.rank sc s := by
  have hrounds := Nat.mul_le_mul_right (sc.requestCount + 4) h
  simp only [rank, Nat.succ_mul]
  omega

/-- A request that is granted is one request less, while as many processes as before are `awake`. -/
theorem rank_requesting_tail {q : Request} {rest : List Request}
    (h : t.awake.length = s.awake.length) :
    (requesting pid rest).rank sc t + 1 ≤ (requesting pid (q :: rest)).rank sc s := by
  simp only [rank, List.length_cons, h]
  omega

/-- A refusal leaves one process less `awake`, which pays for another round. -/
theorem rank_choosing_of_refused (h : t.awake.length < s.awake.length) (q : Request)
    (rest : List Request) : choosing.rank sc t + 1 ≤ (requesting pid (q :: rest)).rank sc s := by
  have hrounds : (t.awake.length + 1) * (sc.requestCount + 4) ≤ _ := Nat.mul_le_mul_right _ h
  simp only [rank, List.length_cons]
  omega

end Phase

namespace Machine

variable {σ : Type} {sc : Scenario} {P : Policy σ} {m m' : Machine σ}

/-- The steps that are left in the run, at most. It falls with every stride (`Steady.rank_strides`)
and starts at `Scenario.stepBound` (`rank_initial`). -/
def rank (sc : Scenario) (m : Machine σ) : Nat :=
  2 * m.arrivals.length + (sc.limit + 1 - m.state.tick) * sc.stepsPerTick +
    m.phase.rank sc m.state

theorem rank_initial (sc : Scenario) (memory : σ) :
    (Machine.initial sc memory).rank sc = sc.stepBound := by
  have hlen : (arrivalOrder sc.jobs).length = sc.jobs.length :=
    (List.mergeSort_perm _ _).length_eq
  simp only [rank, initial, hlen, Phase.rank, State.empty, Nat.sub_zero, Scenario.stepBound]
  rw [Nat.add_assoc, ← Nat.succ_mul]

/-- Within a tick the `rank` falls with what is left of the tick, since the jobs to come and the
clock stay. -/
theorem rank_le_of_phase {cost : Nat} (harr : m'.arrivals = m.arrivals)
    (htick : m'.state.tick = m.state.tick)
    (hphase : m'.phase.rank sc m'.state + cost ≤ m.phase.rank sc m.state) :
    m'.rank sc + cost ≤ m.rank sc := by
  rw [rank, rank, harr, htick]
  omega

/-- Nobody has more requests due than there are requests in the scenario, since by `Script.Plays`
its script lists those of its job. -/
theorem Steady.length_due_le (h : m.Steady sc) {pid : Pid} {p : Process} {script : Script}
    (hp : m.state.process? pid = some p) (hs : m.scripts.find? pid = some script) :
    (script.due p.age).length ≤ sc.requestCount := by
  obtain ⟨job, hjob, -, hplays⟩ := h.stage.plays_of_find? hp hs
  have hle : (script.due p.age).length ≤ script.requests.length := List.length_filter_le ..
  rw [hplays.requests] at hle
  exact Nat.le_trans hle (Scenario.length_requests_le hjob)

/-- Carrying a choice out wakes nobody: whoever was blocked waits as before, and by `Settled` is
blocked. -/
theorem Steady.length_awake_switched (hsc : sc.Sound) (h : m.Steady sc)
    (hphase : m.phase = .choosing) {t : State} {next : Option Pid}
    (hchose : m.state.Chose t next) :
    (m.state.switched t next).awake.length ≤ m.state.awake.length := by
  have hst : Stage sc m.state m.scripts m.arrivals fun _ => [] := h.stage_of hphase
  have hset := (hst.switched hsc hchose).settled
  refine State.length_pidsWhere_le_of_imp hst.settled.ordered hset.ordered fun pid p' hp' hb => ?_
  obtain ⟨-, p, hp, -⟩ := hchose.of_process?_switched hp'
  refine ⟨p, hp, ?_⟩
  -- Whoever was blocked waits as before, and is blocked.
  by_contra hblocked
  have hwas : m.state.status? pid = some .blocked := by
    simpa [State.status?_of_process? hp, Process.isBlocked] using hblocked
  obtain ⟨r, hw⟩ := (hst.settled.blocked_iff pid).1 hwas
  have hres : (m.state.switched t next).resources = m.state.resources := by
    rw [State.resources_switched, hchose.resources]
  have hnow := hset.status?_of_waits ((State.waits_congr hres).2 hw)
  rw [State.status?_of_process? hp', Option.some_inj] at hnow
  simp [Process.isBlocked, hnow] at hb

/-- At most as many processes are `awake` as there are jobs, by `Stage.length_le`. -/
theorem Steady.length_awake_le (h : m.Steady sc) : m.state.awake.length ≤ sc.jobs.length := by
  have hlive : m.state.awake.length ≤ m.state.procs.length := m.state.length_pidsWhere_le _
  exact Nat.le_trans hlive (Nat.le_of_add_left_le h.stage.length_le)

/-- The clock moves before the limit only. One tick less may begin then, which pays for the steps of
the next one. -/
theorem rank_ticked {idle : Bool} (hphase : m.phase = .closing idle)
    (hlt : m.state.tick < sc.limit) (harr : m'.arrivals = m.arrivals)
    (htick : m'.state.tick = m.state.tick + 1) (hphase' : m'.phase = .boundary) :
    m'.rank sc + 1 ≤ m.rank sc := by
  have hpred : sc.limit + 1 - m.state.tick = sc.limit + 1 - (m.state.tick + 1) + 1 := by omega
  simp only [rank, hphase, hphase', harr, htick, Phase.rank]
  rw [hpred, Nat.add_mul, Nat.one_mul]
  omega

/-- The `rank` falls with every stride by as many steps as the stride takes. -/
theorem Steady.rank_strides (hsc : sc.Sound) (h : m.Steady sc)
    (hstr : m.Strides P sc.limit m') : m'.rank sc + m.phase.cost ≤ m.rank sc := by
  have hsteps := sc.two_le_stepsPerTick
  cases hstr with
  | gather hphase =>
    refine rank_le_of_phase rfl rfl ?_
    rw [hphase]
    exact Phase.rank_choosing_lt h.length_awake_le
  | @arrive job rest hphase harrivals =>
    change 2 * rest.length + (sc.limit + 1 - m.state.tick) * sc.stepsPerTick +
      sc.stepsPerTick + _ ≤ _
    simp only [rank, harrivals, hphase, Phase.rank, Phase.cost, List.length_cons]
    omega
  | drain hphase hP hchose =>
    refine rank_le_of_phase (carriedOut_arrivals ..) (Steady.tick_carriedOut hchose _) ?_
    simp only [hphase, Phase.rank, Phase.cost]
    omega
  | idle hphase hP hchose =>
    refine rank_le_of_phase (carriedOut_arrivals ..) (Steady.tick_carriedOut hchose _) ?_
    simp only [hphase, Phase.rank, Phase.cost]
    omega
  | @turn memory t pid p script hphase hP hchose hp hs =>
    refine rank_le_of_phase (carriedOut_arrivals ..) (Steady.tick_carriedOut hchose _) ?_
    have h' := h.strides hsc (.turn hphase hP hchose hp hs)
    have hdue : (script.due p.age).length ≤ sc.requestCount :=
      h'.length_due_le (by simpa using hp) (by simpa using hs)
    rw [hphase]
    apply Phase.rank_requesting_of_choosing hdue
    rw [carriedOut_state]
    exact h.length_awake_switched hsc hphase hchose
  | @grant pid q rest p script x memory t hphase hp hs hcalls hx hP ht =>
    refine rank_le_of_phase rfl ht.tick ?_
    rw [hphase]
    exact Phase.rank_requesting_tail ht.length_awake
  | @refuse pid owner q rest x memory t hphase hcalls hx hne hP ht =>
    refine rank_le_of_phase rfl ht.tick ?_
    have hless := h.stage.settled.length_awake_park hcalls.entry hcalls.running
      (hcalls.not_owns hx hne)
    rw [← ht.length_awake] at hless
    rw [hphase]
    exact Phase.rank_choosing_of_refused hless q rest
  | @execute pid p script script' expired hphase hp hs hexp =>
    refine rank_le_of_phase rfl rfl ?_
    -- No more holds are used up than there are requests.
    obtain ⟨⟨job, hjob, hlen⟩, -⟩ := h.stage_executed hphase hp hs hexp
    have hle := Nat.le_trans hlen (Scenario.length_requests_le hjob)
    simp only [hphase, Phase.rank, Phase.cost]
    omega
  | @release pid r waiters due x y memory t woken hphase hcalls hx hP ht =>
    refine rank_le_of_phase (recordWoken_arrivals ..) ?_ ?_
    · change (recordWoken ..).state.tick = _
      rw [recordWoken_state]
      exact ht.tick.trans (State.tick_vacate ..)
    · simp only [hphase, Phase.rank, Phase.cost]
      omega
  | tick hphase =>
    rw [hphase]
    exact rank_ticked hphase (h.onTime_of hphase) rfl rfl rfl
  | _ hphase =>
    -- What is left needs no more than a look at the two phases.
    refine rank_le_of_phase rfl rfl ?_
    simp only [hphase, Phase.rank, Phase.cost, List.length_nil, List.length_cons]
    omega

/-! ## Enough steps -/

/-- A run that is `over` ends where it is, whatever number of steps is left. -/
theorem run_over {limit fuel : Nat} {exit : Exit} (hphase : m.phase = .over exit)
    (log : Array LogEntry) : m.run P limit fuel log = ⟨m, log, .ended exit⟩ := by
  cases fuel with
  | zero =>
    rw [run]
    simp [hphase]
  | succ fuel =>
    rw [run, hphase]

/-- A run that is not over goes on with a step, and with one step less to take. -/
theorem run_succ {limit fuel : Nat} (hover : ∀ exit, m.phase ≠ .over exit)
    (hstep : (m.step P limit).result = .ok m') (log : Array LogEntry) :
    m.run P limit (fuel + 1) log =
      m'.run P limit fuel (appendNotes log m.state.tick (m.step P limit).notes) := by
  rw [run]
  split
  · next exit hphase => exact absurd hphase (hover exit)
  · simp only [hstep]

/-- With as many steps as its `rank`, a `Steady` machine comes to the end of its run, and is
`Steady` there. This is by induction on the steps, since each stride costs no more of them than the
rank falls by. -/
theorem Steady.run_ended (hsc : sc.Admitted) (hP : P.Lawful) {fuel : Nat} (h : m.Steady sc)
    (hrank : m.rank sc ≤ fuel) (log : Array LogEntry) :
    ∃ exit, (m.run P sc.limit fuel log).outcome = .ended exit ∧
      (m.run P sc.limit fuel log).machine.Steady sc := by
  induction fuel using Nat.strongRecOn generalizing m log with
  | _ fuel ih =>
    by_cases hover : ∃ exit, m.phase = .over exit
    · obtain ⟨exit, hover⟩ := hover
      rw [run_over hover]
      exact ⟨exit, rfl, h⟩
    · have hover : ∀ exit, m.phase ≠ .over exit := fun exit he => hover ⟨exit, he⟩
      obtain ⟨m', hok, hstr⟩ := h.exists_stride hsc hP hover
      have hfall := h.rank_strides hsc.sound hstr
      have h' := h.strides hsc.sound hstr
      by_cases hch : m.phase = .choosing
      · -- The stride takes two steps, and the rank falls by two.
        rw [hch, Phase.cost] at hfall
        obtain ⟨fuel, rfl⟩ : ∃ n, fuel = n + 2 := ⟨fuel - 2, by omega⟩
        obtain ⟨m₁, hm₁, hok⟩ := exists_steps_of_stride hch hok
        have hover₁ : ∀ exit, m₁.phase ≠ .over exit := fun exit he => by
          have hsw := isSwitching_of_step _ hch hm₁
          rw [he] at hsw
          cases hsw
        rw [run_succ hover hm₁, run_succ hover₁ hok]
        exact ih fuel (by omega) h' (by omega) _
      · have hcost : m.phase.cost = 1 := by
          cases hp : m.phase <;> first | rfl | exact absurd hp hch
        obtain ⟨fuel, rfl⟩ : ∃ n, fuel = n + 1 := ⟨fuel - 1, by omega⟩
        rw [stride_of_ne_choosing hch] at hok
        rw [run_succ hover hok]
        exact ih fuel (by omega) h' (by omega) _

end Machine

end Uniprocessor
