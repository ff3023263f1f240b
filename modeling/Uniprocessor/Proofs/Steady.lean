import Uniprocessor.Proofs.Strides

/-!
# What every stride keeps

A steady machine stands in a phase that fits its state, with the stage set, in time, and with
settled states in its samples. A stride under any policy leads from a steady machine to a steady
machine (`Steady.strides`); that a lawful policy lets it take one is another matter.

The clock passes the limit in one case only: all jobs have arrived and all live processes are
finished, and then the tick that begins is the last one, in which nothing but leaving happens.
-/

namespace Uniprocessor

/-- The process is the current one, and executes. This is what is left of a `Turn` once the process
has executed. -/
structure State.Runs (s : State) (pid : Pid) : Prop where
  /-- it is current -/
  current : s.current = some pid
  /-- it executes -/
  running : s.status? pid = some .running

namespace State

variable {s t : State} {pid : Pid}

/-- A change of ages leaves whoever `Runs` where it is: ages decide nothing about places. -/
theorem Runs.adjust_age (h : s.Runs pid) (who : Pid) (n : Nat) :
    (s.adjust who fun p => { p with age := n }).Runs pid where
  current := h.current
  running := (status?_of_places (s.places_adjust_age who n) pid).trans h.running

/-- Whoever gives a resource back goes on running, whoever is woken by `vacate`, and whatever
priorities the policy then sets. -/
theorem Calls.runs_vacated {r : ResourceId} {x : Resource} (h : s.Calls pid r x)
    {woken : Option Pid} (hw : ∀ w, woken = some w → w ∈ x.waiters)
    (ht : (s.vacate r x woken).Repriced t) : t.Runs pid where
  current := by
    rw [ht.current, current_vacate]
    exact h.current
  running := (ht.status? pid).trans (h.status?_vacate hw)

end State

/-- The process runs, has ticks left to execute, and what its script says is due is the list. So it
is from the choice of the process until it executes or is refused something. -/
structure Turn (s : State) (scripts : Scripts) (pid : Pid) (due : List Request) : Prop where
  /-- it is current and executes -/
  runs : s.Runs pid
  /-- the list is due at its age -/
  asks : ∃ p script, s.process? pid = some p ∧ scripts.find? pid = some script ∧
    p.age < p.lifespan ∧ script.due p.age = due

namespace Phase

/-- Whether the state is one for the phase: in its turn a process asks for what is due, and after it
a process still runs. -/
def Fits (s : State) (scripts : Scripts) : Phase → Prop
  | .switching .. => False
  | .requesting pid due => Turn s scripts pid due
  | .executing pid => Turn s scripts pid []
  | .returning pid _ => s.Runs pid
  | .releasing pid r waiters _ =>
    s.Runs pid ∧ ∃ x, s.resources[r]? = some x ∧ x.waiters = waiters
  | _ => True

/-- Whether the clock is right for the phase: during a tick it is early, or only leaving is left
and nobody has been chosen yet. -/
def OnTime (early : Prop) (windingDown : Bool) : Phase → Prop
  | .boundary | .ending _ | .over _ => True
  | .arriving | .announcing _ | .choosing => early ∨ windingDown = true
  | _ => early

end Phase

/-- All that a run relies on between two strides. It is preserved by every stride
(`Steady.strides`), and enough for the next stride to succeed (`Steady.exists_stride`). -/
structure Machine.Steady {σ : Type} (sc : Scenario) (m : Machine σ) : Prop where
  /-- processes, scripts and owners fit together -/
  stage : Stage sc m.state m.scripts m.arrivals m.phase.owed
  /-- the state is one for the phase -/
  fits : m.phase.Fits m.state m.scripts
  /-- the clock is right for the phase -/
  onTime : m.phase.OnTime (m.state.tick < sc.limit) m.isWindingDown
  /-- every process was in its place at the end of every tick -/
  samples : ∀ x ∈ m.samples, x.state.Settled

namespace Stage

variable {sc : Scenario} {s t : State} {scripts : Scripts} {arrivals : List Job}
  {owed : Pid → List ResourceId}

/-- If all processes are finished, the switch leaves nobody behind: by `Stage.unfinished` each of
them executes, and only the current process does. -/
theorem procs_switched_eq_nil (hsc : sc.Sound) (h : Stage sc s scripts arrivals fun _ => [])
    {next : Option Pid} (hchose : s.Chose t next) (hfin : ∀ p ∈ s.procs, p.isFinished = true) :
    (s.switched t next).procs = [] := by
  have h' := h.switched hsc hchose
  refine List.eq_nil_iff_forall_not_mem.2 fun p' hp' => ?_
  obtain ⟨hg, p, hp, -⟩ :=
    hchose.of_process?_switched (h'.settled.ordered.process?_of_mem hp')
  have hle := Process.isFinished_iff.1 (hfin p (State.mem_of_process? hp))
  rcases h.unfinished hp with hlt | hrun
  · exact absurd hlt (Nat.not_lt.2 hle)
  · have hcur := h.settled.running_current (by rw [State.status?_of_process? hp, hrun])
    exact hg (State.leaver?_eq_some.2 ⟨hcur, p, hp, hle⟩)

/-- A chosen process takes its `Turn`: it runs, and by `Stage.age_lt_of_chosen` it has ticks left to
execute. -/
theorem turn (h : Stage sc s scripts arrivals fun _ => []) {pid : Pid}
    (hchose : s.Chose t (some pid)) {p : Process} {script : Script}
    (hp : (s.switched t (some pid)).process? pid = some p)
    (hs : (scripts.without s.leaver?).find? pid = some script) :
    Turn (s.switched t (some pid)) (scripts.without s.leaver?) pid (script.due p.age) where
  runs := {
    current := State.current_switched _ _ _
    running := by
      rw [hchose.status?_switched h.settled (fun _ => h.status?_leaver), if_pos rfl] }
  asks := by
    obtain ⟨-, q, hq, hlife, -, hage⟩ := hchose.of_process?_switched hp
    refine ⟨p, script, hp, hs, ?_, rfl⟩
    rw [hage, hlife]
    exact h.age_lt_of_chosen hchose rfl hq

end Stage

namespace Machine

variable {σ : Type} {sc : Scenario} {P : Policy σ} {m m' : Machine σ}

theorem isWindingDown_eq_true :
    m.isWindingDown = true ↔ m.arrivals = [] ∧ ∀ p ∈ m.state.procs, p.isFinished = true := by
  simp [isWindingDown]

namespace Steady

theorem stage_of (h : m.Steady sc) {phase : Phase} (hphase : m.phase = phase) :
    Stage sc m.state m.scripts m.arrivals phase.owed := hphase ▸ h.stage

theorem fits_of (h : m.Steady sc) {phase : Phase} (hphase : m.phase = phase) :
    phase.Fits m.state m.scripts := hphase ▸ h.fits

theorem onTime_of (h : m.Steady sc) {phase : Phase} (hphase : m.phase = phase) :
    phase.OnTime (m.state.tick < sc.limit) m.isWindingDown := hphase ▸ h.onTime

/-- While jobs arrive, the `Stage` is set for the next one and those that come after it. -/
theorem stage_of_arriving (h : m.Steady sc) (hphase : m.phase = .arriving) {job : Job}
    {rest : List Job} (harrivals : m.arrivals = job :: rest) :
    Stage sc m.state m.scripts (job :: rest) fun _ => [] := by
  have hst := h.stage_of hphase
  rw [harrivals] at hst
  exact hst

/-- If somebody is left after the switch, or still to come, it is early: `OnTime` allows a late
choice only where nothing but leaving is left. -/
theorem tick_lt_of_left (hsc : sc.Sound) (h : m.Steady sc) (hphase : m.phase = .choosing)
    {t : State} {next : Option Pid} (hchose : m.state.Chose t next)
    (hleft : ¬ ((m.state.switched t next).procs = [] ∧ m.arrivals = [])) :
    m.state.tick < sc.limit := by
  rcases h.onTime_of hphase with hlt | hdown
  · exact hlt
  · obtain ⟨harr, hfin⟩ := isWindingDown_eq_true.1 hdown
    exact absurd ⟨(h.stage_of hphase).procs_switched_eq_nil hsc hchose hfin, harr⟩ hleft

/-- The clock stands still while a choice is `carriedOut`: retiring one process and installing
another leaves it. -/
theorem tick_carriedOut {t : State} {next : Option Pid} (hchose : m.state.Chose t next)
    (memory : σ) : (m.carriedOut memory t next).state.tick = m.state.tick := by
  rw [carriedOut_state, State.tick_switched, hchose.tick]

/-- If somebody is left after the switch, or still to come, it is early when the choice has been
carried out, as the phases after it need. -/
theorem tick_carriedOut_lt (hsc : sc.Sound) (h : m.Steady sc) (hphase : m.phase = .choosing)
    {t : State} {next : Option Pid} (hchose : m.state.Chose t next)
    (hleft : ¬ ((m.state.switched t next).procs = [] ∧ m.arrivals = [])) (memory : σ) :
    (m.carriedOut memory t next).state.tick < sc.limit := by
  rw [tick_carriedOut hchose]
  exact h.tick_lt_of_left hsc hphase hchose hleft

/-- The `Stage` is set after a choice has been carried out (`Stage.switched`). -/
theorem stage_carriedOut (hsc : sc.Sound) (h : m.Steady sc) (hphase : m.phase = .choosing)
    {t : State} {next : Option Pid} (hchose : m.state.Chose t next) (memory : σ) :
    Stage sc (m.carriedOut memory t next).state (m.carriedOut memory t next).scripts
      (m.carriedOut memory t next).arrivals fun _ => [] := by
  rw [carriedOut_state, carriedOut_scripts, carriedOut_arrivals]
  exact (h.stage_of hphase).switched hsc hchose

theorem samples_carriedOut (h : m.Steady sc) {t : State} {next : Option Pid} (memory : σ) :
    ∀ x ∈ (m.carriedOut memory t next).samples, x.state.Settled := by
  rw [carriedOut_samples]
  exact h.samples

/-- The state at the end of a tick is `Settled`, like the samples before it, so `Steady.samples`
holds with it. -/
theorem samples_push (h : m.Steady sc) :
    ∀ x ∈ m.samples.push ⟨m.state, m.events.size⟩, x.state.Settled := by
  intro x hx
  rcases Array.mem_push.1 hx with hx | rfl
  · exact h.samples x hx
  · exact h.stage.settled

/-- As long as a job is to come it is early: `OnTime` allows nothing else while jobs arrive. -/
theorem tick_lt_of_arriving (h : m.Steady sc) (hphase : m.phase = .arriving) {job : Job}
    {rest : List Job} (harrivals : m.arrivals = job :: rest) : m.state.tick < sc.limit := by
  rcases h.onTime_of hphase with hlt | hdown
  · exact hlt
  · rw [isWindingDown_eq_true, harrivals] at hdown
    cases hdown.1

/-! ## What is due, what is asked for, and what is used up -/

section Turn

variable {pid : Pid} {p : Process} {script : Script} {q : Request} {rest due : List Request}
  {x : Resource} {t : State}

/-- What a process asks for is what its script says is due, and the process is not finished. -/
theorem asks_of_requesting (h : m.Steady sc) (hphase : m.phase = .requesting pid due)
    (hp : m.state.process? pid = some p) (hs : m.scripts.find? pid = some script) :
    p.age < p.lifespan ∧ script.due p.age = due := by
  obtain ⟨p', script', hp', hs', hlt, hdue⟩ := Turn.asks (h.fits_of hphase)
  cases hp.symm.trans hp'
  cases hs.symm.trans hs'
  exact ⟨hlt, hdue⟩

/-- The `Stage` is set after a request has been granted. -/
theorem stage_granted (hsc : sc.Sound) (h : m.Steady sc)
    (hphase : m.phase = .requesting pid (q :: rest)) (hp : m.state.process? pid = some p)
    (hs : m.scripts.find? pid = some script) (hcalls : m.state.Calls pid q.resource x)
    (hx : x.owner = none) (ht : (m.state.give q.resource x pid).Repriced t) :
    Stage sc t (m.scripts.put pid (script.grant q)) m.arrivals fun _ => [] := by
  obtain ⟨-, hdue⟩ := h.asks_of_requesting hphase hp hs
  have hst : Stage sc m.state m.scripts m.arrivals fun _ => [] := h.stage_of hphase
  have hq : q ∈ script.due p.age := hdue ▸ List.mem_cons_self ..
  exact (hst.give hsc hcalls.entry hx hp hcalls.running hs hq).repriced ht

/-- After its first request has been granted it is still the `Turn` of the same process, and what
was due after that request is due now. -/
theorem turn_granted (hsc : sc.Sound) (h : m.Steady sc)
    (hphase : m.phase = .requesting pid (q :: rest)) (hp : m.state.process? pid = some p)
    (hs : m.scripts.find? pid = some script) (hcalls : m.state.Calls pid q.resource x)
    (ht : (m.state.give q.resource x pid).Repriced t) :
    Turn t (m.scripts.put pid (script.grant q)) pid rest := by
  obtain ⟨hlt, hdue⟩ := h.asks_of_requesting hphase hp hs
  obtain ⟨job, hjob, -, hplays⟩ := h.stage.plays_of_find? hp hs
  obtain ⟨n, hn⟩ := ht.process? (show (m.state.give q.resource x pid).process? pid = _ from hp)
  refine ⟨⟨?_, ?_⟩, _, script.grant q, hn, ?_, hlt, hplays.due_grant (hsc.jobs job hjob) hdue⟩
  · exact ht.current.trans hcalls.current
  · exact (ht.status? pid).trans hcalls.running
  · exact (Scripts.find?_put ..).trans (if_pos rfl)

/-- The `Stage` is set after a request has been refused. -/
theorem stage_refused (h : m.Steady sc) (hphase : m.phase = .requesting pid (q :: rest))
    (hcalls : m.state.Calls pid q.resource x) {owner : Pid} (hx : x.owner = some owner)
    (hne : owner ≠ pid) (ht : (m.state.park q.resource x pid).Repriced t) :
    Stage sc t m.scripts m.arrivals fun _ => [] := by
  obtain ⟨p, script, hp, hs, hlt, -⟩ := Turn.asks (h.fits_of hphase)
  have hst : Stage sc m.state m.scripts m.arrivals fun _ => [] := h.stage_of hphase
  exact (hst.park hcalls.entry hp hcalls.running hlt (hcalls.not_owns hx hne)).repriced ht

/-- A process that has executed owes what its script has used up, which is no more than its job asks
for. -/
theorem stage_executed (h : m.Steady sc) (hphase : m.phase = .executing pid)
    (hp : m.state.process? pid = some p) (hs : m.scripts.find? pid = some script)
    {expired : List ResourceId} {script' : Script} (hexp : script.expire = .ok (expired, script')) :
    (∃ job ∈ sc.jobs, expired.length ≤ job.requests.length) ∧
      Stage sc (m.state.adjust pid fun q => { q with age := p.age + 1 })
        (m.scripts.put pid script') m.arrivals (owing pid expired) := by
  obtain ⟨hruns, p', -, hp', -, hlt, -⟩ : Turn m.state m.scripts pid [] := h.fits_of hphase
  cases hp.symm.trans hp'
  have hst : Stage sc m.state m.scripts m.arrivals fun _ => [] := h.stage_of hphase
  obtain ⟨expired', script'', hexp', hlen, hst'⟩ := hst.ran hp hruns.running hlt hs
  rw [hexp] at hexp'
  cases hexp'
  exact ⟨hlen, hst'⟩

end Turn

/-- A stride leads from a `Steady` machine to a `Steady` machine, whatever the policy. There is one
case for each thing that can happen, and the lemmas above settle those in which something does. -/
theorem strides (hsc : sc.Sound) (h : m.Steady sc) (hstep : Strides P sc.limit m m') :
    m'.Steady sc := by
  cases hstep with
  | stop hphase => exact ⟨(h.stage_of hphase :), trivial, trivial, h.samples⟩
  | start hphase htime => exact ⟨(h.stage_of hphase :), trivial, htime, h.samples⟩
  | gather hphase => exact ⟨(h.stage_of hphase :), trivial, (h.onTime_of hphase :), h.samples⟩
  | @arrive job rest hphase harrivals hstart =>
    have hst := h.stage_of_arriving hphase harrivals
    exact ⟨hst.joined hsc, trivial, Or.inl (h.tick_lt_of_arriving hphase harrivals), h.samples⟩
  | announce hphase => exact ⟨(h.stage_of hphase :), trivial, (h.onTime_of hphase :), h.samples⟩
  | drain hphase hP hchose =>
    exact ⟨h.stage_carriedOut hsc hphase hchose _, trivial, trivial, h.samples_carriedOut _⟩
  | @idle memory t hphase hP hchose hwork =>
    exact ⟨h.stage_carriedOut hsc hphase hchose _, trivial,
      h.tick_carriedOut_lt hsc hphase hchose hwork memory, h.samples_carriedOut _⟩
  | @turn memory t pid p script hphase hP hchose hp hs =>
    refine ⟨h.stage_carriedOut hsc hphase hchose _, ?_,
      h.tick_carriedOut_lt hsc hphase hchose (fun hnone => ?_) memory, h.samples_carriedOut _⟩
    · change Turn (m.carriedOut memory t (some pid)).state _ pid _
      rw [carriedOut_state, carriedOut_scripts]
      exact (h.stage_of hphase).turn hchose hp hs
    · exact absurd (State.mem_of_process? hp) (hnone.1 ▸ List.not_mem_nil)
  | @grant pid q rest p script x memory t hphase hp hs hcalls hx hP ht =>
    refine ⟨h.stage_granted hsc hphase hp hs hcalls hx ht,
      h.turn_granted hsc hphase hp hs hcalls ht, ?_, h.samples⟩
    change t.tick < sc.limit
    rw [ht.tick]
    exact (h.onTime_of hphase :)
  | @refuse pid owner q rest x memory t hphase hcalls hx hne hP ht =>
    refine ⟨h.stage_refused hphase hcalls hx hne ht, trivial, Or.inl ?_, h.samples⟩
    change t.tick < sc.limit
    rw [ht.tick]
    exact (h.onTime_of hphase :)
  | ready hphase =>
    exact ⟨(h.stage_of hphase :), (h.fits_of hphase :), (h.onTime_of hphase :), h.samples⟩
  | @execute pid p script script' expired hphase hp hs hexp =>
    obtain ⟨-, hst⟩ := h.stage_executed hphase hp hs hexp
    have hturn : Turn m.state m.scripts pid [] := h.fits_of hphase
    exact ⟨hst, hturn.runs.adjust_age pid _, (h.onTime_of hphase :), h.samples⟩
  | @finish pid hphase =>
    refine ⟨?_, trivial, (h.onTime_of hphase :), h.samples⟩
    have hst := h.stage_of hphase
    rw [Phase.owed, owing_nil] at hst
    exact hst
  | next hphase hx =>
    refine ⟨(h.stage_of hphase :), ⟨(h.fits_of hphase :), _, hx, rfl⟩, ?_, h.samples⟩
    exact (h.onTime_of hphase :)
  | @release pid r waiters due x y memory t woken hphase hcalls hx hP ht hnone hwoken hy =>
    have hst := ((h.stage_of hphase).vacate hcalls hwoken).repriced ht
    refine ⟨?_, ?_, ?_, ?_⟩
    · simp only [recordWoken_state, recordWoken_scripts, recordWoken_arrivals]
      exact hst
    · change State.Runs (recordWoken ..).state pid
      rw [recordWoken_state]
      exact hcalls.runs_vacated hwoken ht
    · change (recordWoken ..).state.tick < sc.limit
      rw [recordWoken_state]
      change t.tick < sc.limit
      rw [ht.tick, State.tick_vacate]
      exact (h.onTime_of hphase :)
    · simp only [recordWoken_samples]
      exact h.samples
  | stick hphase => exact ⟨(h.stage_of hphase :), trivial, trivial, h.samples_push⟩
  | tick hphase => exact ⟨(h.stage_of hphase :).ticked _, trivial, trivial, h.samples_push⟩
  | conclude hphase => exact ⟨(h.stage_of hphase :), trivial, trivial, h.samples⟩

end Steady

end Machine

end Uniprocessor
