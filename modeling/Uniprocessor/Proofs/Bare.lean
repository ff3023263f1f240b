import Uniprocessor.Proofs.Unshared
import Uniprocessor.Proofs.Validity

/-!
# Runs without requests

A run in which nobody shares a resource goes as it would go if nobody requested anything: without
the grants and the returns its trace is the trace of the run without requests
(`Admitted.same_without_requests`). This holds under every discipline but the priority ceiling,
which raises whoever gets a resource.

The two runs are compared machine by machine (`Machine.Bared`). A grant, a return and the turn to
the next return have no counterpart in the run without requests, which stands still in the meantime.
Every other stride is taken by both machines (`Reaches.bared_strides`).
-/

namespace Uniprocessor

/-! ## Without requests -/

/-- The job without its requests. -/
def Job.bare (job : Job) : Job := { job with requests := [] }

/-- The same processes to come, without their requests. -/
def Scenario.bare (sc : Scenario) : Scenario := { sc with jobs := sc.jobs.map Job.bare }

/-- Whether a resource was granted or given back. -/
def Happening.changesHands : Happening → Bool
  | .acquired .. | .released .. => true
  | _ => false

/-- The events without grants and returns. -/
def Event.bare (events : List Event) : List Event := events.filter fun e => !e.what.changesHands

/-- The trace without grants and returns. -/
def Trace.bare (t : Trace) : Trace := { t with events := Event.bare t.events }

/-- Where the machine stands if there is nothing to ask for and nothing to give back. -/
def Phase.bare : Phase → Phase
  | .requesting pid _ => .requesting pid []
  | .returning pid _ => .returning pid []
  | .releasing pid _ _ _ => .returning pid []
  | phase => phase

/-- A machine whose run is over without requests is so with them: `Phase.bare` makes no other phase
an end. -/
theorem Phase.eq_over_of_bare {phase : Phase} {exit : Exit} (h : phase.bare = .over exit) :
    phase = .over exit := by
  cases phase <;> first | exact h | cases h

theorem Phase.isSwitching_bare (phase : Phase) : phase.bare.isSwitching = phase.isSwitching := by
  cases phase <;> rfl

/-- An event that is a grant or a return is left out by `bare`, and every other one is kept. -/
theorem Event.bare_push (events : Array Event) (e : Event) :
    bare (events.push e).toList =
      bare events.toList ++ if e.what.changesHands = true then [] else [e] := by
  rw [bare, bare, Array.toList_push, List.filter_append]
  cases h : e.what.changesHands <;> simp [h]

/-- A scenario that is admitted is admitted without its requests: a job without holds passes
`checkJob`. -/
theorem Scenario.Admitted.bare {sc : Scenario} (h : sc.Admitted) : sc.bare.Admitted := by
  have hsound := h.sound
  obtain ⟨d, hd⟩ := h.built
  obtain ⟨hne, hcount, hnodup, -, rfl⟩ := Draft.build_iff.1 hd
  refine ⟨⟨{ d with jobs := d.jobs.map Job.bare }, Draft.build_iff.2 ⟨?_, hcount, ?_, ?_, rfl⟩⟩, ?_,
    h.limit_le⟩
  · simpa using hne
  · have hpids : (d.jobs.map Job.bare).map Job.pid = d.jobs.map Job.pid := by
      rw [List.map_map]
      rfl
    exact hpids ▸ hnodup
  · intro job' hjob'
    obtain ⟨job, hjob, rfl⟩ := List.mem_map.1 hjob'
    obtain ⟨hlife, hprio, -, -⟩ := hsound.jobs job hjob
    refine (Draft.checkJob_eq_ok fun q hq => absurd hq List.not_mem_nil).2 ⟨hlife, hprio, ?_, .nil⟩
    exact fun q hq => absurd hq List.not_mem_nil
  · intro job' hjob'
    obtain ⟨job, hjob, rfl⟩ := List.mem_map.1 hjob'
    exact h.lifespan_lt job hjob

/-! ## Machines without requests -/

namespace Machine

/-- The second machine is the first one without the requests, whatever its resource table: what the
two runs have in common. -/
structure Bared (m n : Machine Memory) : Prop where
  /-- it stands where the first one stands, with nothing to ask for or give back -/
  phase : n.phase = m.phase.bare
  /-- the policy remembers the same -/
  memory : n.memory = m.memory
  /-- the states differ in the resource table alone -/
  state : n.state = m.state.withResources n.state.resources
  /-- the same jobs are to come, without their requests -/
  arrivals : n.arrivals = m.arrivals.map Job.bare
  /-- the same processes have scripts, which request and hold nothing -/
  scripts : ∀ pid, n.scripts.find? pid = (m.scripts.find? pid).map fun _ => { requests := [] }
  /-- the same has happened, but for grants and returns -/
  events : n.events.toList = Event.bare m.events.toList

namespace Bared

variable {d : Discipline} {limit : Nat} {m m' n n' : Machine Memory}

theorem procs (h : m.Bared n) : n.state.procs = m.state.procs :=
  (congrArg State.procs h.state :)

theorem tick (h : m.Bared n) : n.state.tick = m.state.tick :=
  (congrArg State.tick h.state :)

theorem leaver? (h : m.Bared n) : n.state.leaver? = m.state.leaver? :=
  (congrArg State.leaver? h.state :)

theorem phase_of (h : m.Bared n) {phase : Phase} (hphase : m.phase = phase) :
    n.phase = phase.bare := h.phase.trans (congrArg Phase.bare hphase)

theorem isWindingDown (h : m.Bared n) : n.isWindingDown = m.isWindingDown := by
  rw [Machine.isWindingDown, Machine.isWindingDown, h.arrivals, h.procs, List.isEmpty_map]

theorem isStuck (h : m.Bared n) (idle : Bool) : n.isStuck idle = m.isStuck idle := by
  rw [Machine.isStuck, Machine.isStuck, h.arrivals, h.procs, List.isEmpty_map]

/-- What does not change hands by `changesHands` is recorded by both machines, so their events stay
the same but for `Event.bare`. -/
theorem events_record {what : Happening} (hwhat : what.changesHands = false)
    (hevents : n.events.toList = Event.bare m.events.toList) (htick : n.state.tick = m.state.tick) :
    (n.record what).events.toList = Event.bare (m.record what).events.toList := by
  rw [Machine.record, Machine.record, Event.bare_push, if_neg (by simp [hwhat]), ← hevents,
    Array.toList_push, htick]

theorem record (h : m.Bared n) (what : Happening) (hwhat : what.changesHands = false) :
    (m.record what).Bared (n.record what) :=
  ⟨h.phase, h.memory, h.state, h.arrivals, h.scripts, events_record hwhat h.events h.tick⟩

/-- Both machines go on to another phase, the second one to what `Phase.bare` leaves of it. -/
theorem inPhase (h : m.Bared n) (phase : Phase) :
    Bared { m with phase := phase } { n with phase := phase.bare } :=
  ⟨rfl, h.memory, h.state, h.arrivals, h.scripts, h.events⟩

/-- The process gets a script, in the run without requests one that requests nothing: the scripts
stay as `Bared` says. -/
theorem scripts_put (h : m.Bared n) (pid : Pid) (script : Script) (q : Pid) :
    (n.scripts.put pid { requests := [] }).find? q =
      ((m.scripts.put pid script).find? q).map fun _ => { requests := [] } := by
  rw [Scripts.find?_put, Scripts.find?_put, h.scripts]
  split <;> rfl

theorem scripts_without (h : m.Bared n) (pid : Pid) :
    (n.scripts.without n.state.leaver?).find? pid =
      ((m.scripts.without m.state.leaver?).find? pid).map fun _ => { requests := [] } := by
  rw [h.leaver?, Scripts.find?_without, Scripts.find?_without, h.scripts]
  split <;> rfl

/-! ### Strides of the first machine alone -/

/-- A grant changes the table and is recorded, which makes no difference to the run without
requests: it stays where it is. -/
theorem of_grant (h : m.Bared n) {pid : Pid} {q : Request} {rest : List Request} {script : Script}
    {x : Resource} {t : State} (hphase : m.phase = .requesting pid (q :: rest))
    (hs : m.scripts.find? pid = some script) (ht : t = m.state.give q.resource x pid) :
    Bared { (m.answered m.memory t).record (.acquired pid q.resource) with
      scripts := m.scripts.put pid (script.grant q)
      phase := .requesting pid rest } n where
  phase := (h.phase_of hphase :)
  memory := h.memory
  state := by
    rw [ht]
    exact h.state
  arrivals := h.arrivals
  scripts other := by
    rw [h.scripts, Scripts.find?_put]
    split
    · next he => rw [he, hs]; rfl
    · rfl
  events := by
    rw [h.events]
    exact ((Event.bare_push ..).trans (List.append_nil _)).symm

/-- The turn to the next return is none, so the run without requests stays where it is and the
machines stay `Bared`. -/
theorem of_next (h : m.Bared n) {pid : Pid} {r : ResourceId} {due : List ResourceId}
    {waiters : Queue} (hphase : m.phase = .returning pid (r :: due)) :
    Bared { m with phase := .releasing pid r waiters due } n :=
  ⟨(h.phase_of hphase :), h.memory, h.state, h.arrivals, h.scripts, h.events⟩

/-- A return that wakes nobody changes the table and is recorded, which makes no difference to the
run without requests. -/
theorem of_release (h : m.Bared n) {pid : Pid} {r : ResourceId} {due : List ResourceId}
    {x : Resource} {still : Queue} {t : State} (hphase : m.phase = .releasing pid r [] due)
    (ht : t = m.state.vacate r x none) :
    Bared { ((m.answered m.memory t).record (.released pid r)).recordWoken r still [] with
      phase := .returning pid due } n where
  phase := (h.phase_of hphase :)
  memory := h.memory
  state := by
    change _ = t.withResources _
    rw [ht]
    exact h.state
  arrivals := h.arrivals
  scripts := h.scripts
  events := by
    rw [h.events]
    exact ((Event.bare_push ..).trans (List.append_nil _)).symm

/-! ### Strides of both machines -/

/-- A tick begins for both, or for neither, by the same clock and limit, and the machines stay
`Bared`. -/
theorem of_boundary (h : m.Bared n) (hphase : m.phase = .boundary)
    (hstr : m.Strides d.policy limit m') (hstr' : n.Strides d.policy limit n') : m'.Bared n' := by
  have hphase' : n.phase = .boundary := h.phase_of hphase
  rw [hstr.eq_of_boundary hphase, hstr'.eq_of_boundary hphase', h.tick, h.isWindingDown]
  by_cases hbegins : m.state.tick < limit ∨ m.isWindingDown = true
  · rw [if_pos hbegins]
    exact h.inPhase .arriving
  · rw [if_neg hbegins]
    exact h.inPhase (.ending .tickLimit)

/-- The same job arrives for both, or none for either, since the jobs to come differ in their
requests only. -/
theorem of_arriving (h : m.Bared n) (hphase : m.phase = .arriving)
    (hstr : m.Strides d.policy limit m') (hstr' : n.Strides d.policy limit n') : m'.Bared n' := by
  have hphase' : n.phase = .arriving := h.phase_of hphase
  have harrivals := h.arrivals
  cases hstr with
  | gather _ hstart =>
    cases hstr' with
    | gather => exact h.inPhase .choosing
    | arrive _ harrivals' hstart' =>
      obtain ⟨job, rest, hjobs, rfl, rfl⟩ :=
        List.map_eq_cons_iff.1 (harrivals.symm.trans harrivals')
      rw [h.tick] at hstart'
      exact absurd hstart' (Nat.not_le.2 (hstart job (hjobs ▸ rfl)))
    | _ hother => cases hphase'.symm.trans hother
  | @arrive job rest _ hjobs hstart =>
    rw [hjobs, List.map_cons] at harrivals
    cases hstr' with
    | gather _ hstart' =>
      have hlt := hstart' job.bare (by rw [harrivals]; rfl)
      rw [h.tick] at hlt
      exact absurd hstart (Nat.not_le.2 hlt)
    | arrive _ harrivals' =>
      cases harrivals.symm.trans harrivals'
      exact {
        phase := rfl
        memory := h.memory
        state := congrArg (State.joined · (.fresh job.pid job.lifespan job.prio)) h.state
        arrivals := rfl
        scripts := h.scripts_put job.pid _
        events := events_record rfl h.events h.tick }
    | _ hother => cases hphase'.symm.trans hother
  | _ hother => cases hphase.symm.trans hother

/-- The policy takes no notice of an arrival, in either run, so the machines stay `Bared`. -/
theorem of_announcing (h : m.Bared n) {pid : Pid} (hphase : m.phase = .announcing pid)
    (hstr : m.Strides d.policy limit m') (hstr' : n.Strides d.policy limit n') : m'.Bared n' := by
  have hphase' : n.phase = .announcing pid := h.phase_of hphase
  cases hstr with
  | announce _ hP =>
    cases hstr' with
    | announce _ hQ =>
      cases hP
      cases hQ
      exact h.inPhase .arriving
    | _ hother => cases hphase'.symm.trans hother
  | _ hother => cases hphase.symm.trans hother

/-- The policy makes the same choice, and leaves the same state but for the table, at which it does
not look. -/
theorem choose (h : m.Bared n) {memory memory' : Memory} {t t' : State} {next next' : Option Pid}
    (hP : (d.policy.choose m.memory m.state).result = .ok (memory, t, next))
    (hQ : (d.policy.choose n.memory n.state).result = .ok (memory', t', next')) :
    memory' = memory ∧ t' = t.withResources n.state.resources ∧ next' = next := by
  have hsame := d.choose_withResources m.memory m.state n.state.resources
  rw [show (d.choose m.memory m.state).result = _ from hP, ← h.state] at hsame
  rw [h.memory] at hQ
  cases hsame.symm.trans hQ
  exact ⟨rfl, rfl, rfl⟩

theorem switched (h : m.Bared n) (t : State) (next : Option Pid) :
    n.state.switched (t.withResources n.state.resources) next =
      (m.state.switched t next).withResources n.state.resources := by
  rw [← State.switched_withResources, ← h.state]

/-- Carrying the same choice out makes no difference: the machines are `Bared` after it. -/
theorem carriedOut (h : m.Bared n) (memory : Memory) (t : State) (next : Option Pid) :
    (m.carriedOut memory t next).Bared
      (n.carriedOut memory (t.withResources n.state.resources) next) where
  phase := by
    rw [Machine.carriedOut, Machine.carriedOut, h.leaver?]
    cases m.state.leaver? <;> exact h.phase
  memory := by
    rw [Machine.carriedOut, Machine.carriedOut, h.leaver?]
    cases m.state.leaver? <;> rfl
  state := by
    rw [carriedOut_state, carriedOut_state, h.switched]
    rfl
  arrivals := by rw [carriedOut_arrivals, carriedOut_arrivals, h.arrivals]
  scripts pid := by
    rw [carriedOut_scripts, carriedOut_scripts]
    exact h.scripts_without pid
  events := by
    rw [Machine.carriedOut, Machine.carriedOut, h.leaver?]
    cases m.state.leaver? with
    | none => exact h.events
    | some pid => exact events_record rfl h.events (congrArg State.tick (h.switched t next) :)

/-- Nothing is due for a process without requests, so after the choice its turn has no request to
make. -/
theorem of_choosing (h : m.Bared n) (hphase : m.phase = .choosing)
    (hstr : m.Strides d.policy limit m') (hstr' : n.Strides d.policy limit n') : m'.Bared n' := by
  have hphase' : n.phase = .choosing := h.phase_of hphase
  -- The same processes are left, and the same jobs are to come.
  have hleft : ∀ t next, ((n.state.switched (t.withResources n.state.resources) next).procs = [] ∧
      n.arrivals = []) ↔ (m.state.switched t next).procs = [] ∧ m.arrivals = [] := fun t next => by
    rw [h.switched, h.arrivals, List.map_eq_nil_iff]
    rfl
  cases hstr with
  | @drain memory t _ hP _ hprocs harrivals =>
    cases hstr' with
    | drain _ hQ =>
      obtain ⟨rfl, rfl, -⟩ := h.choose hP hQ
      exact (h.carriedOut _ t none).inPhase (.ending .normal)
    | idle _ hQ _ hwork =>
      obtain ⟨rfl, rfl, -⟩ := h.choose hP hQ
      exact absurd ((hleft t none).2 ⟨hprocs, harrivals⟩) hwork
    | turn _ hQ => cases (h.choose hP hQ).2.2
    | _ hother => cases hphase'.symm.trans hother
  | @idle memory t _ hP _ hwork =>
    cases hstr' with
    | drain _ hQ _ hprocs harrivals =>
      obtain ⟨rfl, rfl, -⟩ := h.choose hP hQ
      exact absurd ((hleft t none).1 ⟨hprocs, harrivals⟩) hwork
    | idle _ hQ =>
      obtain ⟨rfl, rfl, -⟩ := h.choose hP hQ
      exact ((h.carriedOut _ t none).record .idle rfl).inPhase (.closing true)
    | turn _ hQ => cases (h.choose hP hQ).2.2
    | _ hother => cases hphase'.symm.trans hother
  | @turn memory t pid p script _ hP _ hp hs =>
    cases hstr' with
    | drain _ hQ => cases (h.choose hP hQ).2.2
    | idle _ hQ => cases (h.choose hP hQ).2.2
    | @turn _ _ _ _ script' _ hQ _ _ hs' =>
      obtain ⟨rfl, rfl, hnext⟩ := h.choose hP hQ
      cases hnext
      have hbare := h.scripts_without pid
      rw [hs, hs'] at hbare
      cases hbare
      exact (h.carriedOut _ t (some pid)).inPhase (.requesting pid (script.due p.age))
    | _ hother => cases hphase'.symm.trans hother
  | _ hother => cases hphase.symm.trans hother

/-- The process executes when it has all that it asked for: the second run has nothing to ask and
takes its stride alone. -/
theorem of_ready (h : m.Bared n) {pid : Pid} (hphase : m.phase = .requesting pid [])
    (hstr' : n.Strides d.policy limit n') : Bared { m with phase := .executing pid } n' := by
  have hphase' : n.phase = .requesting pid [] := h.phase_of hphase
  cases hstr' with
  | grant hreq => cases hphase'.symm.trans hreq
  | refuse hreq => cases hphase'.symm.trans hreq
  | ready hreq =>
    cases hphase'.symm.trans hreq
    exact h.inPhase (.executing pid)
  | _ hother => cases hphase'.symm.trans hother

/-- A process executes in both, and has nothing to give back in the second one, whatever has expired
in the first. -/
theorem of_executing (h : m.Bared n) {pid : Pid} (hphase : m.phase = .executing pid)
    (hstr : m.Strides d.policy limit m') (hstr' : n.Strides d.policy limit n') : m'.Bared n' := by
  have hphase' : n.phase = .executing pid := h.phase_of hphase
  cases hstr with
  | @execute _ p script script' expired hexec hp hs hexp =>
    cases hphase.symm.trans hexec
    cases hstr' with
    | execute hexec' hp' hs' hexp' =>
      cases hphase'.symm.trans hexec'
      rw [h.state, State.process?_withResources, hp] at hp'
      cases hp'
      rw [h.scripts, hs] at hs'
      cases hs'
      cases hexp'
      exact {
        phase := rfl
        memory := h.memory
        state := congrArg (State.adjust · pid fun q => { q with age := p.age + 1 }) h.state
        arrivals := h.arrivals
        scripts := h.scripts_put pid script'
        events := events_record rfl h.events h.tick }
    | _ hother => cases hphase'.symm.trans hother
  | _ hother => cases hphase.symm.trans hother

/-- The tick is over when everything has been given back: the second run has nothing to give back
and takes its stride alone. -/
theorem of_finish (h : m.Bared n) {pid : Pid} (hphase : m.phase = .returning pid [])
    (hstr' : n.Strides d.policy limit n') : Bared { m with phase := .closing false } n' := by
  have hphase' : n.phase = .returning pid [] := h.phase_of hphase
  cases hstr' with
  | finish => exact h.inPhase (.closing false)
  | next hret => cases hphase'.symm.trans hret
  | _ hother => cases hphase'.symm.trans hother

/-- The tick is the last one for both, or for neither: whether a run is stuck depends on the
processes and the jobs to come. -/
theorem of_closing (h : m.Bared n) {idle : Bool} (hphase : m.phase = .closing idle)
    (hstr : m.Strides d.policy limit m') (hstr' : n.Strides d.policy limit n') : m'.Bared n' := by
  have hphase' : n.phase = .closing idle := h.phase_of hphase
  rw [hstr.eq_of_closing hphase, hstr'.eq_of_closing hphase', h.isStuck]
  by_cases hstuck : m.isStuck idle = true
  · simp only [if_pos hstuck]
    exact ⟨rfl, h.memory, h.state, h.arrivals, h.scripts, h.events⟩
  · simp only [if_neg hstuck]
    refine ⟨rfl, h.memory, ?_, h.arrivals, h.scripts, h.events⟩
    exact congrArg (fun s : State => { s with tick := s.tick + 1 }) h.state

/-- The policy finishes in both, and the runs are over with the machines `Bared`. -/
theorem of_ending (h : m.Bared n) {exit : Exit} (hphase : m.phase = .ending exit)
    (hstr : m.Strides d.policy limit m') (hstr' : n.Strides d.policy limit n') : m'.Bared n' := by
  have hphase' : n.phase = .ending exit := h.phase_of hphase
  cases hstr with
  | conclude hend hP =>
    cases hphase.symm.trans hend
    cases hP
    cases hstr' with
    | conclude hend' hQ =>
      cases hphase'.symm.trans hend'
      cases hQ
      exact h.inPhase (.over exit)
    | _ hother => cases hphase'.symm.trans hother
  | _ hother => cases hphase.symm.trans hother

end Bared

/-- Before the first tick the machines differ in the requests of the jobs to come, so they are
`Bared`. -/
theorem bared_initial (sc : Scenario) (memory : Memory) :
    (Machine.initial sc memory).Bared (Machine.initial sc.bare memory) where
  phase := rfl
  memory := rfl
  state := rfl
  arrivals := (List.map_mergeSort (f := Job.bare) fun _ _ _ _ => rfl).symm
  scripts _ := rfl
  events := rfl

end Machine

/-! ## Runs without requests -/

namespace Scenario

variable {sc : Scenario} {d : Discipline} {memory : Memory} {m m' : Machine Memory}

/-- A stride of a run in which nobody shares a resource makes no difference without requests, or it
is taken without them too: one lemma for each phase above. -/
theorem Reaches.bared_strides (hsc : sc.Admitted) (hun : sc.Unshared) (hd : d ≠ .ceiling)
    (h : sc.Reaches d.policy memory m) (hm : m.Steady sc) (h' : sc.Reaches d.policy memory m')
    (hm' : m'.phase.isSwitching = false) (hstr : m.Strides d.policy sc.limit m')
    {n : Machine Memory} (hn : m.Bared n) :
    m'.Bared n ∨ ∀ n', n.Strides d.policy sc.limit n' → m'.Bared n' := by
  have hstr₀ := hstr
  cases hstr with
  | stop hphase => exact Or.inr fun n' hstr' => hn.of_boundary hphase hstr₀ hstr'
  | start hphase => exact Or.inr fun n' hstr' => hn.of_boundary hphase hstr₀ hstr'
  | gather hphase => exact Or.inr fun n' hstr' => hn.of_arriving hphase hstr₀ hstr'
  | arrive hphase => exact Or.inr fun n' hstr' => hn.of_arriving hphase hstr₀ hstr'
  | announce hphase => exact Or.inr fun n' hstr' => hn.of_announcing hphase hstr₀ hstr'
  | drain hphase => exact Or.inr fun n' hstr' => hn.of_choosing hphase hstr₀ hstr'
  | idle hphase => exact Or.inr fun n' hstr' => hn.of_choosing hphase hstr₀ hstr'
  | turn hphase => exact Or.inr fun n' hstr' => hn.of_choosing hphase hstr₀ hstr'
  | grant hphase hp hs hcalls hx hP ht =>
    obtain ⟨rfl, hok⟩ := Discipline.eq_of_paired hP
    have hgive := h.eq_withResources hsc hun hm h' hm' ht fun hd' => by
      have hplain := Discipline.acquire_eq_give hd hd' hcalls hx
      cases hplain.symm.trans hok
      rfl
    exact Or.inl (hn.of_grant hphase hs hgive)
  | refuse hphase hcalls hx =>
    exact absurd ((State.owns_iff hcalls.entry).2 hx) (hm.not_owns_unshared hun hphase)
  | ready hphase => exact Or.inr fun n' hstr' => hn.of_ready hphase hstr'
  | execute hphase => exact Or.inr fun n' hstr' => hn.of_executing hphase hstr₀ hstr'
  | finish hphase => exact Or.inr fun n' hstr' => hn.of_finish hphase hstr'
  | next hphase => exact Or.inl (hn.of_next hphase)
  | @release pid r waiters due x y memory' t woken hphase hcalls hx hP ht hnone hwoken hy =>
    obtain ⟨rfl, hok⟩ := Discipline.eq_of_paired hP
    -- Nobody waits, so nobody is woken.
    have hempty : x.waiters = [] := List.eq_nil_iff_forall_not_mem.2 fun w hw =>
      h.not_waits_unshared hsc d.lawful hun hm.isSwitching_eq_false w r
        ((State.waits_iff hcalls.entry).2 hw)
    obtain rfl : woken = none := hnone.2 hempty
    obtain ⟨-, x', hx', rfl⟩ := hm.fits_of hphase
    cases hcalls.entry.symm.trans hx'
    rw [hempty] at hphase h' ⊢
    have hvacate := h.eq_withResources hsc hun hm h' rfl ht fun hd' => by
      have hplain := Discipline.release_eq_vacate hd hd' hcalls hx hempty
      cases hplain.symm.trans hok
      rfl
    exact Or.inl (hn.of_release hphase hvacate)
  | stick hphase => exact Or.inr fun n' hstr' => hn.of_closing hphase hstr₀ hstr'
  | tick hphase => exact Or.inr fun n' hstr' => hn.of_closing hphase hstr₀ hstr'
  | conclude hphase => exact Or.inr fun n' hstr' => hn.of_ending hphase hstr₀ hstr'

/-- Each machine of a run in which nobody shares a resource is `Bared` with one of the run without
requests, by `bared_strides` for each stride. -/
theorem Reaches.exists_bared (hsc : sc.Admitted) (hun : sc.Unshared) (hd : d ≠ .ceiling)
    (h : sc.Reaches d.policy memory m) (hm : m.phase.isSwitching = false) :
    ∃ n, sc.bare.Reaches d.policy memory n ∧ m.Bared n := by
  refine h.invariant_of_prepared hsc d.lawful
    (I := fun m => ∃ n, sc.bare.Reaches d.policy memory n ∧ m.Bared n) (fun {memory'} hprep => ?_)
    ?_ hm
  · obtain ⟨memory₀, hsetup⟩ := d.exists_setup hd memory
    cases hprep.symm.trans (prepare_of_ok (congrArg Except.ok (hsetup _)))
    exact ⟨_, .start (prepare_of_ok (congrArg Except.ok (hsetup _))), Machine.bared_initial sc _⟩
  · rintro m m' hm hreach ⟨n, hn, hbared⟩ hstr hreach'
    have hrest : m'.phase.isSwitching = false := (hm.strides hsc.sound hstr).isSwitching_eq_false
    rcases hreach.bared_strides hsc hun hd hm hreach' hrest hstr hbared with hstill | hboth
    · exact ⟨n, hn, hstill⟩
    · have hsteady : n.Steady sc.bare := by
        refine hn.steady hsc.bare d.lawful ?_
        rw [hbared.phase, Phase.isSwitching_bare]
        exact hm.isSwitching_eq_false
      obtain ⟨n', hn', hstr'⟩ := hn.exists_strides hsc.bare d.lawful hsteady
        fun exit hover => hstr.ne_over exit (Phase.eq_over_of_bare (hbared.phase.symm.trans hover))
      exact ⟨n', hn', hboth n' hstr'⟩

/-- For a run, **unshared resources change nothing**. Let a scenario be `Unshared`. Then it is
admitted without its requests too, and under every discipline but the priority ceiling its run goes
to its end with the trace that is left of the trace with requests when the grants and the returns
are deleted, by `Trace.bare`. -/
theorem Admitted.same_without_requests (h : sc.Admitted) (hun : sc.Unshared) (hd : d ≠ .ceiling)
    (memory : Memory) :
    sc.bare.Admitted ∧ ∃ t, (sc.run d.policy memory sc.stepBound).trace? = some t ∧
      (sc.bare.run d.policy memory sc.bare.stepBound).trace? = some t.bare := by
  obtain ⟨exit, -, hreach, hphase⟩ := h.reaches_end (d := d) (fun hc => hd hc.1) memory
  obtain ⟨n, hn, hbared⟩ :=
    hreach.exists_bared h hun hd (Phase.isSwitching_of_over hphase)
  refine ⟨h.bare, _, hreach.trace?_of_over h d.lawful hphase, ?_⟩
  rw [hn.trace?_of_over h.bare d.lawful (hbared.phase_of hphase), hbared.events, hbared.tick]
  rfl

/-- The first process has one resource twice in a row and another one in the meantime. The second
process, which goes before it, has a third resource. -/
def secluded : Scenario where
  resourceCount := 3
  ceiling := 9
  limit := 100
  jobs := [
    { pid := 1, lifespan := 4, prio := 1, requests := [⟨0, 0, 2⟩, ⟨1, 1, 3⟩, ⟨0, 2, 2⟩] },
    { pid := 2, start := 1, lifespan := 2, prio := 5, requests := [⟨2, 0, 2⟩] }]

theorem admitted_secluded : secluded.Admitted where
  built := ⟨⟨3, 9, 100, secluded.jobs, 3⟩, rfl⟩
  lifespan_lt := by decide
  limit_le := by decide

theorem unshared_secluded : secluded.Unshared := by
  unfold Unshared
  decide

/-- Under inheritance the second process interrupts the first hold of the first one, and executes at
the same ticks without requests. Four grants and four returns are all that is deleted. -/
theorem same_without_requests_secluded :
    ∃ t, (secluded.run Discipline.inheritance.policy none secluded.stepBound).trace? = some t ∧
      (secluded.bare.run Discipline.inheritance.policy none secluded.bare.stepBound).trace? =
        some t.bare ∧
      ⟨3, .acquired 1 1⟩ ∈ t.events ∧ ⟨3, .released 1 0⟩ ∈ t.events ∧
      ⟨4, .acquired 1 0⟩ ∈ t.events ∧ t.events.length = t.bare.events.length + 8 ∧
      t.bare.endTick = 6 := by
  have hm : secluded.Reaches Discipline.inheritance.policy none _ := .of_sorted (by decide) rfl 120
  obtain ⟨-, t, ht, hbare⟩ :=
    admitted_secluded.same_without_requests (d := .inheritance) unshared_secluded (by decide) none
  cases ht.symm.trans (hm.trace?_of_over admitted_secluded Discipline.inheritance.lawful
    (rfl : _ = Phase.over .normal))
  exact ⟨_, ht, hbare, by decide, by decide, by decide, by decide, rfl⟩

end Scenario

end Uniprocessor
