import Uniprocessor.Proofs.Attendance
import Uniprocessor.Proofs.Congruence
import Uniprocessor.Proofs.Safety

/-!
# Runs in lockstep

Two policies may answer alike all along a run although they are different ones. What has to be alike
is little: whom a policy chooses and which ready queue it leaves, and whom it wakes when a resource
is given back (`Policy.Agrees`). Priorities and memories may differ. If the policies agree wherever
both runs have got to side by side, the machines of the two runs stay alike but for these
(`Alike.strides`), and the runs have the same trace (`Admitted.same_trace`).
-/

namespace Uniprocessor

variable {σ τ : Type}

/-- The two policies answer alike where the two machines stand: they choose the same process and
leave the same ready queue, and they wake the same process. -/
structure Policy.Agrees (P : Policy σ) (Q : Policy τ) (m : Machine σ) (n : Machine τ) : Prop where
  /-- they choose the same process and leave the same ready queue -/
  choose : m.phase = .choosing → ∀ {memory memory' t t' next next'},
    (P.choose m.memory m.state).result = .ok (memory, t, next) →
    (Q.choose n.memory n.state).result = .ok (memory', t', next') →
    next' = next ∧ t'.ready = t.ready
  /-- they wake the same process -/
  release : ∀ {pid r waiters due x}, m.phase = .releasing pid r waiters due →
    m.state.Calls pid r x → n.state.Calls pid r x → x.owner = some pid → ∀ {memory memory' t t'},
    (P.release m.memory m.state r).result = .ok (memory, t) →
    (Q.release n.memory n.state r).result = .ok (memory', t') → t'.ready = t.ready

namespace Machine

/-- The two machines differ in priorities, memories and samples alone: what a trace shows is the
same. -/
structure Alike (m : Machine σ) (n : Machine τ) : Prop where
  /-- they stand at the same place -/
  phase : n.phase = m.phase
  /-- their states differ in priorities alone -/
  state : m.state.Repriced n.state
  /-- the same jobs are to come -/
  arrivals : n.arrivals = m.arrivals
  /-- the scripts are the same -/
  scripts : n.scripts = m.scripts
  /-- the same has happened -/
  events : n.events = m.events

variable {sc : Scenario} {P : Policy σ} {Q : Policy τ} {limit : Nat} {m m' : Machine σ}
  {n n' : Machine τ}

namespace Alike

/-- Machines that are `Alike` record alike, since it is the same tick. -/
theorem events_record (h : m.Alike n) (what : Happening) :
    (n.record what).events = (m.record what).events := by
  rw [record, record, h.events, h.state.tick]

/-- Who is woken is recorded alike, as long as the wait queues are the same before and after. -/
theorem events_recordWoken (hevents : n.events = m.events) (htick : n.state.tick = m.state.tick)
    (r : ResourceId) (still waiters : Queue) :
    (n.recordWoken r still waiters).events = (m.recordWoken r still waiters).events := by
  induction waiters generalizing m n with
  | nil => exact hevents
  | cons w rest ih =>
    rw [recordWoken, recordWoken]
    by_cases hw : w ∈ still
    · rw [if_pos hw, if_pos hw]
      exact ih hevents htick
    · rw [if_neg hw, if_neg hw]
      exact ih (by simp only [record, hevents, htick]) htick

theorem isWindingDown (h : m.Alike n) : n.isWindingDown = m.isWindingDown := by
  rw [Machine.isWindingDown, Machine.isWindingDown, h.arrivals, h.state.all_procs fun _ => rfl]

theorem isStuck (h : m.Alike n) (idle : Bool) : n.isStuck idle = m.isStuck idle := by
  have hempty : n.state.procs.isEmpty = m.state.procs.isEmpty := by
    rw [Bool.eq_iff_iff, List.isEmpty_iff, List.isEmpty_iff]
    exact h.state.procs_eq_nil
  rw [Machine.isStuck, Machine.isStuck, h.arrivals, hempty, h.state.all_procs fun _ => rfl]

/-- Carrying the same choice out leaves alike machines alike, but for where they stand: the first
half of `Alike.of_choosing`. -/
theorem carriedOut (h : m.Alike n) (hm : m.Steady sc) {memory : σ} {memory' : τ} {t t' : State}
    {next : Option Pid} (hchose : m.state.Chose t next) (hchose' : n.state.Chose t' next)
    (hready : t'.ready = t.ready) :
    (m.carriedOut memory t next).state.Repriced (n.carriedOut memory' t' next).state ∧
      (n.carriedOut memory' t' next).arrivals = (m.carriedOut memory t next).arrivals ∧
      (n.carriedOut memory' t' next).scripts = (m.carriedOut memory t next).scripts ∧
      (n.carriedOut memory' t' next).events = (m.carriedOut memory t next).events := by
  have hstate := h.state.switched hm.stage.settled.ordered hchose hchose' hready
  refine ⟨?_, ?_, ?_, ?_⟩
  · rw [carriedOut_state, carriedOut_state]
    exact hstate
  · rw [carriedOut_arrivals, carriedOut_arrivals, h.arrivals]
  · rw [carriedOut_scripts, carriedOut_scripts, h.scripts, h.state.leaver?]
  · rw [Machine.carriedOut, Machine.carriedOut, h.state.leaver?]
    cases m.state.leaver? with
    | none => exact h.events
    | some pid =>
      simp only [record, h.events, hstate.tick]

/-- Where the policies agree on a choice, it is carried out alike, with the same departure and the
same event. -/
theorem of_choosing (h : m.Alike n) (hm : m.Steady sc) (hagrees : P.Agrees Q m n)
    (hphase : m.phase = .choosing) (hstr : m.Strides P limit m') (hstr' : n.Strides Q limit n') :
    m'.Alike n' := by
  have hphase' : n.phase = .choosing := h.phase.trans hphase
  cases hstr with
  | drain _ hP hchose hprocs harrivals =>
    cases hstr' with
    | drain _ hQ hchose' =>
      obtain ⟨-, hready⟩ := hagrees.choose hphase hP hQ
      obtain ⟨hstate, harr, hscripts, hevents⟩ := h.carriedOut hm hchose hchose' hready
      exact ⟨rfl, hstate, harr, hscripts, hevents⟩
    | idle _ hQ hchose' hwork =>
      obtain ⟨-, hready⟩ := hagrees.choose hphase hP hQ
      have hstate := h.state.switched hm.stage.settled.ordered hchose hchose' hready
      exact absurd ⟨hstate.procs_eq_nil.2 hprocs, h.arrivals.trans harrivals⟩ hwork
    | turn _ hQ => cases (hagrees.choose hphase hP hQ).1
    | _ hother => cases hphase'.symm.trans hother
  | idle _ hP hchose hwork =>
    cases hstr' with
    | drain _ hQ hchose' hprocs harrivals =>
      obtain ⟨-, hready⟩ := hagrees.choose hphase hP hQ
      have hstate := h.state.switched hm.stage.settled.ordered hchose hchose' hready
      exact absurd ⟨hstate.procs_eq_nil.1 hprocs, h.arrivals.symm.trans harrivals⟩ hwork
    | idle _ hQ hchose' =>
      obtain ⟨-, hready⟩ := hagrees.choose hphase hP hQ
      obtain ⟨hstate, harr, hscripts, hevents⟩ := h.carriedOut hm hchose hchose' hready
      refine ⟨rfl, hstate, harr, hscripts, ?_⟩
      simp only [record, hevents, hstate.tick]
    | turn _ hQ => cases (hagrees.choose hphase hP hQ).1
    | _ hother => cases hphase'.symm.trans hother
  | @turn _ _ pid p script _ hP hchose hp hs =>
    cases hstr' with
    | drain _ hQ => cases (hagrees.choose hphase hP hQ).1
    | idle _ hQ => cases (hagrees.choose hphase hP hQ).1
    | @turn _ _ pid' p' script' _ hQ hchose' hp' hs' =>
      obtain ⟨hnext, hready⟩ := hagrees.choose hphase hP hQ
      cases hnext
      obtain ⟨hstate, harr, hscripts, hevents⟩ := h.carriedOut hm hchose hchose' hready
      -- What is due depends on the script and the age.
      obtain ⟨k, hk⟩ :=
        (h.state.switched hm.stage.settled.ordered hchose hchose' hready).process? hp
      rw [h.scripts, h.state.leaver?, hs] at hs'
      cases hs'
      cases hk.symm.trans hp'
      exact ⟨rfl, hstate, harr, hscripts, hevents⟩
    | _ hother => cases hphase'.symm.trans hother
  | _ hother => cases hphase.symm.trans hother

/-- Requests are granted and refused alike: that depends on the owner alone, whatever the policy, so
the machines stay `Alike`. -/
theorem of_requesting (h : m.Alike n) {pid : Pid} {due : List Request}
    (hphase : m.phase = .requesting pid due) (hstr : m.Strides P limit m')
    (hstr' : n.Strides Q limit n') : m'.Alike n' := by
  have hphase' : n.phase = .requesting pid due := h.phase.trans hphase
  cases hstr with
  | @grant _ q rest p script x _ t hreq hp hs hcalls hx _ ht =>
    cases hphase.symm.trans hreq
    cases hstr' with
    | @grant _ _ _ p' script' x' _ t' hreq' hp' hs' hcalls' _ _ ht' =>
      cases hphase'.symm.trans hreq'
      have hentry := hcalls'.entry
      rw [h.state.resources, hcalls.entry] at hentry
      cases hentry
      rw [h.scripts, hs] at hs'
      cases hs'
      have hstate : t.Repriced t' := ht.symm.trans ((h.state.give q.resource x pid).trans ht')
      refine ⟨rfl, hstate, h.arrivals, congrArg (Scripts.put · pid (script.grant q)) h.scripts, ?_⟩
      simp only [record, answered, h.events, hstate.tick]
    | refuse hreq' hcalls' hx' =>
      cases hphase'.symm.trans hreq'
      have hentry := hcalls'.entry
      rw [h.state.resources, hcalls.entry] at hentry
      cases hentry
      cases hx.symm.trans hx'
    | ready hreq' => cases hphase'.symm.trans hreq'
    | _ hother => cases hphase'.symm.trans hother
  | @refuse _ _ q rest x _ t hreq hcalls hx _ _ ht =>
    cases hphase.symm.trans hreq
    cases hstr' with
    | grant hreq' _ _ hcalls' hx' =>
      cases hphase'.symm.trans hreq'
      have hentry := hcalls'.entry
      rw [h.state.resources, hcalls.entry] at hentry
      cases hentry
      cases hx.symm.trans hx'
    | @refuse _ _ _ _ x' _ t' hreq' hcalls' _ _ _ ht' =>
      cases hphase'.symm.trans hreq'
      have hentry := hcalls'.entry
      rw [h.state.resources, hcalls.entry] at hentry
      cases hentry
      have hstate : t.Repriced t' := ht.symm.trans ((h.state.park q.resource x pid).trans ht')
      refine ⟨rfl, hstate, h.arrivals, h.scripts, ?_⟩
      simp only [record, answered, h.events, hstate.tick]
    | ready hreq' => cases hphase'.symm.trans hreq'
    | _ hother => cases hphase'.symm.trans hother
  | ready hreq =>
    cases hphase.symm.trans hreq
    cases hstr' with
    | grant hreq' => cases hphase'.symm.trans hreq'
    | refuse hreq' => cases hphase'.symm.trans hreq'
    | ready hreq' =>
      cases hphase'.symm.trans hreq'
      exact ⟨rfl, h.state, h.arrivals, h.scripts, h.events⟩
    | _ hother => cases hphase'.symm.trans hother
  | _ hother => cases hphase.symm.trans hother

/-- Where `Policy.Agrees` says that the policies wake the same process, a resource is given back
alike. -/
theorem of_releasing (h : m.Alike n) (hagrees : P.Agrees Q m n) {pid : Pid} {r : ResourceId}
    {waiters : Queue} {due : List ResourceId} (hphase : m.phase = .releasing pid r waiters due)
    (hstr : m.Strides P limit m') (hstr' : n.Strides Q limit n') : m'.Alike n' := by
  have hphase' : n.phase = .releasing pid r waiters due := h.phase.trans hphase
  cases hstr with
  | @release _ _ _ _ x y _ t woken hrel hcalls hx hP ht _ _ hy =>
    cases hphase.symm.trans hrel
    cases hstr' with
    | @release _ _ _ _ x' y' _ t' woken' hrel' hcalls' _ hQ ht' _ _ hy' =>
      cases hphase'.symm.trans hrel'
      have hentry := hcalls'.entry
      rw [h.state.resources, hcalls.entry] at hentry
      cases hentry
      -- Whoever is woken stands at the end of the ready queue.
      have hready := hagrees.release hphase hcalls hcalls' hx hP hQ
      rw [ht.ready, ht'.ready, State.ready_vacate, State.ready_vacate, h.state.ready] at hready
      have hwoken : woken' = woken := by
        have hlist := List.append_cancel_left hready
        cases woken <;> cases woken' <;> simp_all
      subst hwoken
      have hstate : t.Repriced t' := ht.symm.trans ((h.state.vacate r x woken').trans ht')
      rw [hstate.resources, hy] at hy'
      cases hy'
      refine ⟨rfl, ?_, ?_, ?_, ?_⟩
      · change (recordWoken ..).state.Repriced (recordWoken ..).state
        rw [recordWoken_state, recordWoken_state]
        exact hstate
      · change (recordWoken ..).arrivals = (recordWoken ..).arrivals
        rw [recordWoken_arrivals, recordWoken_arrivals]
        exact h.arrivals
      · change (recordWoken ..).scripts = (recordWoken ..).scripts
        rw [recordWoken_scripts, recordWoken_scripts]
        exact h.scripts
      · refine events_recordWoken ?_ hstate.tick r y.waiters waiters
        simp only [record, answered, h.events, hstate.tick]
    | _ hother => cases hphase'.symm.trans hother
  | _ hother => cases hphase.symm.trans hother

/-- A tick begins for both, or for neither, since the clocks and the limit are the same, and the
machines stay `Alike`. -/
theorem of_boundary (h : m.Alike n) (hphase : m.phase = .boundary) (hstr : m.Strides P limit m')
    (hstr' : n.Strides Q limit n') : m'.Alike n' := by
  have hphase' : n.phase = .boundary := h.phase.trans hphase
  rw [hstr.eq_of_boundary hphase, hstr'.eq_of_boundary hphase', h.state.tick, h.isWindingDown]
  exact ⟨rfl, h.state, h.arrivals, h.scripts, h.events⟩

/-- The same job arrives for both, or none for either, since the same jobs are to come, and the
machines stay `Alike`. -/
theorem of_arriving (h : m.Alike n) (hphase : m.phase = .arriving) (hstr : m.Strides P limit m')
    (hstr' : n.Strides Q limit n') : m'.Alike n' := by
  have hphase' : n.phase = .arriving := h.phase.trans hphase
  cases hstr with
  | gather _ hstart =>
    cases hstr' with
    | gather => exact ⟨rfl, h.state, h.arrivals, h.scripts, h.events⟩
    | arrive _ harrivals hstart' =>
      rw [h.state.tick] at hstart'
      exact absurd hstart' (Nat.not_le.2 (hstart _ (h.arrivals ▸ harrivals ▸ rfl)))
    | _ hother => cases hphase'.symm.trans hother
  | @arrive job rest _ harrivals hstart =>
    cases hstr' with
    | gather _ hstart' =>
      have hlt := hstart' job (by rw [h.arrivals, harrivals]; rfl)
      rw [h.state.tick] at hlt
      exact absurd hstart (Nat.not_le.2 hlt)
    | arrive _ harrivals' =>
      rw [h.arrivals, harrivals] at harrivals'
      cases harrivals'
      exact ⟨rfl, h.state.joined _, rfl,
        congrArg (Scripts.put · job.pid { requests := job.requests }) h.scripts, h.events_record _⟩
    | _ hother => cases hphase'.symm.trans hother
  | _ hother => cases hphase.symm.trans hother

/-- The same resource is next to be given back, with the same waiters, and the machines stay
`Alike`. -/
theorem of_returning (h : m.Alike n) {pid : Pid} {due : List ResourceId}
    (hphase : m.phase = .returning pid due) (hstr : m.Strides P limit m')
    (hstr' : n.Strides Q limit n') : m'.Alike n' := by
  have hphase' : n.phase = .returning pid due := h.phase.trans hphase
  cases hstr with
  | finish hret =>
    cases hphase.symm.trans hret
    cases hstr' with
    | finish => exact ⟨rfl, h.state, h.arrivals, h.scripts, h.events⟩
    | next hret' => cases hphase'.symm.trans hret'
    | _ hother => cases hphase'.symm.trans hother
  | next hret hx =>
    cases hphase.symm.trans hret
    cases hstr' with
    | finish hret' => cases hphase'.symm.trans hret'
    | next hret' hx' =>
      cases hphase'.symm.trans hret'
      rw [h.state.resources, hx] at hx'
      cases hx'
      exact ⟨rfl, h.state, h.arrivals, h.scripts, h.events⟩
    | _ hother => cases hphase'.symm.trans hother
  | _ hother => cases hphase.symm.trans hother

/-- The tick is the last one for both, or for neither: whether a run is stuck depends on who is live
and blocked. -/
theorem of_closing (h : m.Alike n) {idle : Bool} (hphase : m.phase = .closing idle)
    (hstr : m.Strides P limit m') (hstr' : n.Strides Q limit n') : m'.Alike n' := by
  have hphase' : n.phase = .closing idle := h.phase.trans hphase
  rw [hstr.eq_of_closing hphase, hstr'.eq_of_closing hphase', h.isStuck, h.state.tick]
  refine ⟨rfl, ?_, h.arrivals, h.scripts, h.events⟩
  by_cases hstuck : m.isStuck idle = true
  · simp only [if_pos hstuck]
    exact h.state
  · simp only [if_neg hstuck]
    exact h.state.ticked _

/-- The same process executes in both, a tick of the same script, and has the same resources to give
back. -/
theorem of_executing (h : m.Alike n) {pid : Pid} (hphase : m.phase = .executing pid)
    (hstr : m.Strides P limit m') (hstr' : n.Strides Q limit n') : m'.Alike n' := by
  have hphase' : n.phase = .executing pid := h.phase.trans hphase
  cases hstr with
  | execute hexec hp hs hexp =>
    cases hphase.symm.trans hexec
    cases hstr' with
    | execute hexec' hp' hs' hexp' =>
      cases hphase'.symm.trans hexec'
      obtain ⟨k, hk⟩ := h.state.process? hp
      cases hk.symm.trans hp'
      rw [h.scripts, hs] at hs'
      cases hs'
      cases hexp.symm.trans hexp'
      exact ⟨rfl, h.state.adjust_age pid _, h.arrivals,
        congrArg (Scripts.put · pid _) h.scripts, h.events_record _⟩
    | _ hother => cases hphase'.symm.trans hother
  | _ hother => cases hphase.symm.trans hother

/-- Strides of policies that agree leave alike machines `Alike`: one lemma for each phase above. -/
theorem strides (h : m.Alike n) (hm : m.Steady sc) (hagrees : P.Agrees Q m n)
    (hstr : m.Strides P limit m') (hstr' : n.Strides Q limit n') : m'.Alike n' := by
  have hstr₀ := hstr
  cases hstr with
  | stop hphase => exact h.of_boundary hphase hstr₀ hstr'
  | start hphase => exact h.of_boundary hphase hstr₀ hstr'
  | gather hphase => exact h.of_arriving hphase hstr₀ hstr'
  | arrive hphase => exact h.of_arriving hphase hstr₀ hstr'
  | announce hphase =>
    cases hstr' with
    | announce => exact ⟨rfl, h.state, h.arrivals, h.scripts, h.events⟩
    | _ hother => cases (h.phase.trans hphase).symm.trans hother
  | drain hphase => exact h.of_choosing hm hagrees hphase hstr₀ hstr'
  | idle hphase => exact h.of_choosing hm hagrees hphase hstr₀ hstr'
  | turn hphase => exact h.of_choosing hm hagrees hphase hstr₀ hstr'
  | grant hphase => exact h.of_requesting hphase hstr₀ hstr'
  | refuse hphase => exact h.of_requesting hphase hstr₀ hstr'
  | ready hphase => exact h.of_requesting hphase hstr₀ hstr'
  | execute hphase => exact h.of_executing hphase hstr₀ hstr'
  | finish hphase => exact h.of_returning hphase hstr₀ hstr'
  | next hphase => exact h.of_returning hphase hstr₀ hstr'
  | release hphase => exact h.of_releasing hagrees hphase hstr₀ hstr'
  | stick hphase => exact h.of_closing hphase hstr₀ hstr'
  | tick hphase => exact h.of_closing hphase hstr₀ hstr'
  | conclude hphase =>
    cases hstr' with
    | conclude hphase' =>
      cases (h.phase.trans hphase).symm.trans hphase'
      exact ⟨rfl, h.state, h.arrivals, h.scripts, h.events⟩
    | _ hother => cases (h.phase.trans hphase).symm.trans hother

end Alike

/-- A machine whose run is `over` takes no stride, so there is a phase to split by. -/
theorem Strides.ne_over (h : m.Strides P limit m') (exit : Exit) : m.phase ≠ .over exit := by
  intro hover
  cases h with
  | _ hphase => cases hphase.symm.trans hover

end Machine

namespace Scenario

variable {sc : Scenario} {P : Policy σ} {Q : Policy τ} {memory : σ} {memory' : τ} {m m' : Machine σ}

/-- Where a stride leads from a machine that is reached is reached: a stride is made of steps. -/
theorem Reaches.stride (h : sc.Reaches P memory m) (hok : m.stride P sc.limit = .ok m') :
    sc.Reaches P memory m' := by
  by_cases hphase : m.phase = .choosing
  · obtain ⟨m₁, hm₁, hstep⟩ := Machine.exists_steps_of_stride hphase hok
    exact (h.step hm₁).step hstep
  · rw [Machine.stride_of_ne_choosing hphase] at hok
    exact h.step hok

/-- A run that is reached somewhere goes on in a stride, unless it is over: lawful policies never
fault there. -/
theorem Reaches.exists_strides (hsc : sc.Admitted) (hP : P.Lawful) (h : sc.Reaches P memory m)
    (hm : m.Steady sc) (hover : ∀ exit, m.phase ≠ .over exit) :
    ∃ m', sc.Reaches P memory m' ∧ m.Strides P sc.limit m' := by
  obtain ⟨m', hok, hstr⟩ := hm.exists_stride hsc hP hover
  exact ⟨m', h.stride hok, hstr⟩

/-- If the policies agree wherever both runs have got to side by side, each machine of the one run
is `Alike` to one of the other. -/
theorem Reaches.exists_alike (hsc : sc.Admitted) (hP : P.Lawful) (hQ : Q.Lawful)
    (hsetup : ∃ n, (sc.prepare Q memory').result = .ok (.ok n))
    (hagrees : ∀ {m n}, sc.Reaches P memory m → m.Steady sc → sc.Reaches Q memory' n → n.Steady sc →
      m.Alike n → P.Agrees Q m n)
    (h : sc.Reaches P memory m) (hm : m.phase.isSwitching = false) :
    ∃ n, sc.Reaches Q memory' n ∧ m.Alike n := by
  obtain ⟨n₀, hprep⟩ := hsetup
  obtain ⟨memory₀, rfl⟩ := exists_eq_initial hQ hprep
  refine h.invariant_of_reached hsc hP (I := fun m => ∃ n, sc.Reaches Q memory' n ∧ m.Alike n)
    (fun memory => ⟨_, .start hprep, ⟨rfl, .refl _, rfl, rfl, rfl⟩⟩) ?_ hm
  rintro m m' hm hreach ⟨n, hn, halike⟩ hstr -
  have hsteady : n.Steady sc := hn.steady hsc hQ (halike.phase ▸ hm.isSwitching_eq_false)
  obtain ⟨n', hn', hstr'⟩ := hn.exists_strides hsc hQ hsteady
    fun exit hover => hstr.ne_over exit (halike.phase.symm.trans hover)
  exact ⟨n', hn', halike.strides hm (hagrees hreach hm hn hsteady halike) hstr hstr'⟩

/-- Runs under two disciplines that `Policy.Agrees` all along have the same trace: the theorem that
every comparison of two disciplines is reduced to. -/
theorem Admitted.same_trace (h : sc.Admitted) {d d' : Discipline}
    (hd : ¬ (d = .ceiling ∧ sc.ceiling = 0)) (hd' : ¬ (d' = .ceiling ∧ sc.ceiling = 0))
    {memory memory' : Memory}
    (hagrees : ∀ {m n}, sc.Reaches d.policy memory m → m.Steady sc →
      sc.Reaches d'.policy memory' n → n.Steady sc → m.Alike n → d.policy.Agrees d'.policy m n) :
    ∃ t, (sc.run d.policy memory sc.stepBound).trace? = some t ∧
      (sc.run d'.policy memory' sc.stepBound).trace? = some t := by
  have hsetup : ∃ n, (sc.prepare d'.policy memory').result = .ok (.ok n) := by
    obtain ⟨memory₁, hok⟩ := d'.setup_eq_ok (s := (Machine.initial sc memory').state) hd' memory'
    exact ⟨_, prepare_of_ok (congrArg Except.ok hok)⟩
  obtain ⟨exit, -, hreach, hphase⟩ := h.reaches_end hd memory
  obtain ⟨n, hn, halike⟩ := hreach.exists_alike h d.lawful d'.lawful hsetup hagrees
    (Phase.isSwitching_of_over hphase)
  refine ⟨_, hreach.trace?_of_over h d.lawful hphase, ?_⟩
  rw [hn.trace?_of_over h d'.lawful (halike.phase.trans hphase), halike.events, halike.state.tick]

end Scenario

end Uniprocessor
