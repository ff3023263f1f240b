import Uniprocessor.Proofs.Expecting

/-!
# Where runs part

Two machines that differ only in jobs that do not start before a tick go on side by side until that
tick (`Parallel.step`), with one exception: when nobody is left, or everybody waits, the run with
nobody to come ends, while the other one idles until somebody comes (`Parted`).
-/

namespace Uniprocessor

open Narrated

variable {σ : Type} {P : Policy σ} {limit T : Nat} {m m' n n' : Machine σ} {jobs : List Job}

/-! ## Idle ticks -/

/-- The second list is the first one, followed by idle ticks only: what is recorded by the run that
goes on. -/
def Trace.IdlesOn (events events' : List Event) : Prop :=
  ∃ idles, events' = events ++ idles ∧ ∀ e ∈ idles, e.what = .idle

namespace Trace.IdlesOn

theorem refl (events : List Event) : IdlesOn events events :=
  ⟨[], (List.append_nil _).symm, fun _ he => absurd he List.not_mem_nil⟩

theorem trans {events events' events'' : List Event} (h : IdlesOn events events')
    (h' : IdlesOn events' events'') : IdlesOn events events'' := by
  obtain ⟨idles, rfl, hidles⟩ := h
  obtain ⟨idles', rfl, hidles'⟩ := h'
  refine ⟨idles ++ idles', List.append_assoc .., fun e he => ?_⟩
  exact (List.mem_append.1 he).elim (hidles e) (hidles' e)

theorem push_idle (events : Array Event) (tick : Nat) :
    IdlesOn events.toList (events.push ⟨tick, .idle⟩).toList :=
  ⟨[⟨tick, .idle⟩], Array.toList_push, fun e he => by rw [List.mem_singleton.1 he]⟩

/-- What happened before a tick idles on as well, since `before` leaves some of the idle ticks
out. -/
theorem before {events events' : List Event} (h : IdlesOn events events') (tick : Nat) :
    IdlesOn (Trace.before tick events) (Trace.before tick events') := by
  obtain ⟨idles, rfl, hidles⟩ := h
  exact ⟨Trace.before tick idles, before_append, fun e he => hidles e (List.mem_of_mem_filter he)⟩

end Trace.IdlesOn

/-! ## Two runs side by side -/

/-- Whether nobody has a turn in the phase, so that nothing but idling may come of it. -/
def Phase.isDormant : Phase → Bool
  | .boundary | .arriving | .choosing | .closing _ => true
  | _ => false

namespace Machine

/-- The machines differ only in who is to come, and not in who starts before the tick: `SameBefore`
for their arrivals. -/
def Parallel (T : Nat) (m n : Machine σ) : Prop :=
  ∃ jobs, n = m.expecting jobs ∧ SameBefore T m.arrivals jobs

/-- Nothing but idling is left until the tick. -/
structure Dormant (T : Nat) (m : Machine σ) : Prop where
  /-- everybody who is live waits -/
  blocked : ∀ p ∈ m.state.procs, p.status = .blocked
  /-- whoever is to come comes late -/
  late : ∀ job ∈ m.arrivals, T ≤ job.start
  /-- nobody has a turn -/
  phase : m.phase.isDormant = true

/-- The first run has ended, and the second one goes on idling. -/
structure Parted (T : Nat) (m n : Machine σ) : Prop where
  /-- the first one has ended -/
  ended : ∃ exit, m.phase = .ending exit
  /-- the second one may have found that the tick is idle -/
  events : Trace.IdlesOn m.events.toList n.events.toList
  /-- nothing but idling is left -/
  dormant : n.Dormant T

/-- A step that does not look at who is to come makes the same change in both, so they stay
`Parallel`. -/
theorem parallel_of_step (hjobs : SameBefore T m.arrivals jobs)
    (hlooks : m.phase.looksAhead = false) (hstep : (m.step P limit).result = .ok m')
    (hstep' : ((m.expecting jobs).step P limit).result = .ok n') : m'.Parallel T n' := by
  rw [step_expecting hlooks, hstep] at hstep'
  refine ⟨jobs, (Except.ok.inj hstep').symm, ?_⟩
  rwa [arrivals_of_step hlooks hstep]

/-- If the first of those who are to come does so later, nobody arrives now, and `arrive` goes on to
the choice. -/
theorem arrive_of_wait (h : ∀ job ∈ m.arrivals.head?, m.state.tick < job.start) :
    m.arrive.result = .ok { m with phase := .choosing } := by
  unfold arrive
  split
  · rfl
  · next job rest harr =>
    have hlt := h job (by rw [harr]; rfl)
    rw [if_neg (Nat.not_le.2 hlt)]
    rfl

/-- If the first of those who are to come has its start, `arrive` takes it in. -/
theorem arrive_of_come {job : Job} {rest : List Job} (harr : m.arrivals = job :: rest)
    (hstart : job.start ≤ m.state.tick) :
    m.arrive.result = (m.state.enroll (.fresh job.pid job.lifespan job.prio)).map fun state =>
      { m with
        state := state
        arrivals := rest
        scripts := m.scripts.put job.pid { requests := job.requests }
        phase := .announcing job.pid }.record (.arrived job.pid) := by
  simp only [arrive, harr, if_pos hstart, result_bind, result_note, result_lift, ok_bind]
  cases m.state.enroll (.fresh job.pid job.lifespan job.prio) <;> rfl

/-- Before the tick the same jobs arrive in both: whoever has its start by now is in the part of the
list that is the same. -/
theorem parallel_of_arrive (hjobs : SameBefore T m.arrivals jobs) (htick : m.state.tick < T)
    (hstep : m.arrive.result = .ok m') (hstep' : (m.expecting jobs).arrive.result = .ok n') :
    m'.Parallel T n' := by
  obtain ⟨common, late, late', harr, rfl, hlate, hlate'⟩ := id hjobs
  by_cases hcome : ∃ job rest, common = job :: rest ∧ job.start ≤ m.state.tick
  · obtain ⟨job, rest, rfl, hstart⟩ := hcome
    rw [arrive_of_come harr hstart] at hstep
    change (m.expecting (job :: (rest ++ late'))).arrive.result = _ at hstep'
    rw [arrive_of_come (m := m.expecting _) rfl hstart] at hstep'
    cases hstate : m.state.enroll (.fresh job.pid job.lifespan job.prio) with
    | error fault =>
      rw [hstate] at hstep
      cases hstep
    | ok state =>
      rw [hstate] at hstep
      rw [expecting_state, hstate] at hstep'
      cases hstep
      cases hstep'
      exact ⟨rest ++ late', rfl, rest, late, late', rfl, rfl, hlate, hlate'⟩
  · -- Whoever comes first, be it a common job or a late one, does so after this tick.
    have hwait : ∀ {late : List Job}, (∀ job ∈ late, T ≤ job.start) →
        ∀ job ∈ (common ++ late).head?, m.state.tick < job.start := by
      intro late hlate job hjob
      cases common with
      | nil => exact htick.trans_le (hlate job (List.mem_of_mem_head? hjob))
      | cons head rest =>
        cases hjob
        exact Nat.not_le.1 fun hstart => hcome ⟨_, rest, rfl, hstart⟩
    cases (arrive_of_wait (harr ▸ hwait hlate)).symm.trans hstep
    cases (arrive_of_wait (m := m.expecting _) (hwait hlate')).symm.trans hstep'
    exact ⟨common ++ late', rfl, hjobs⟩

/-- If nobody is chosen, nobody is left and there is nobody to come, `dispatch` ends the run. -/
theorem dispatch_of_drained (h : m.state.procs = [] ∧ m.arrivals = []) :
    (m.dispatch none).result = .ok { m with phase := .ending .normal } := by
  simp only [dispatch, List.isEmpty_iff]
  rw [if_pos h]
  rfl

/-- If nobody is chosen, and somebody is left or to come, `dispatch` finds the tick idle. -/
theorem dispatch_of_left (h : ¬ (m.state.procs = [] ∧ m.arrivals = [])) :
    (m.dispatch none).result = .ok { m.record .idle with phase := .closing true } := by
  simp only [dispatch, List.isEmpty_iff]
  rw [if_neg h]
  rfl

/-- Where nobody is left, the run ends if there is nobody to come, and idles if somebody is: the
machines have `Parted`. -/
theorem parted_of_drained (hjobs : SameBefore T m.arrivals jobs) (hprocs : m.state.procs = [])
    (hnone : m.arrivals = []) : Parted T { m with phase := .ending .normal }
      { (m.expecting jobs).record .idle with phase := .closing true } where
  ended := ⟨_, rfl⟩
  events := .push_idle ..
  dormant := {
    blocked := by simp [record, hprocs]
    late := hjobs.late_of_nil hnone
    phase := rfl }

/-- If nobody is chosen, both find the tick idle, unless nobody is left and there is nobody to come
in one of the runs, where they have `Parted`. -/
theorem parted_of_dispatch (hjobs : SameBefore T m.arrivals jobs)
    (hstep : (m.dispatch none).result = .ok m')
    (hstep' : ((m.expecting jobs).dispatch none).result = .ok n') :
    m'.Parallel T n' ∨ m'.Parted T n' ∨ n'.Parted T m' := by
  -- The live processes are the same, but in one of the runs there may still be somebody to come.
  by_cases hnone : m.state.procs = [] ∧ m.arrivals = [] <;>
    by_cases hnone' : m.state.procs = [] ∧ jobs = []
  · cases (dispatch_of_drained hnone).symm.trans hstep
    cases (dispatch_of_drained (m := m.expecting jobs) hnone').symm.trans hstep'
    exact Or.inl ⟨jobs, rfl, hjobs⟩
  · cases (dispatch_of_drained hnone).symm.trans hstep
    cases (dispatch_of_left (m := m.expecting jobs) hnone').symm.trans hstep'
    exact Or.inr (Or.inl (parted_of_drained hjobs hnone.1 hnone.2))
  · cases (dispatch_of_left hnone).symm.trans hstep
    cases (dispatch_of_drained (m := m.expecting jobs) hnone').symm.trans hstep'
    exact Or.inr (Or.inr (parted_of_drained (m := m.expecting jobs) hjobs.symm hnone'.1 hnone'.2))
  · cases (dispatch_of_left hnone).symm.trans hstep
    cases (dispatch_of_left (m := m.expecting jobs) hnone').symm.trans hstep'
    exact Or.inl ⟨jobs, rfl, hjobs⟩

/-- If the turn goes to nobody, the runs go on side by side, unless one of them ends: whoever leaves
is the same in both. -/
theorem parted_of_switch (hjobs : SameBefore T m.arrivals jobs) {name : String} {prev : Option Pid}
    (hstep : (m.switch name prev none).result = .ok m')
    (hstep' : ((m.expecting jobs).switch name prev none).result = .ok n') :
    m'.Parallel T n' ∨ m'.Parted T n' ∨ n'.Parted T m' := by
  rw [switch_result_eq] at hstep hstep'
  obtain ⟨state, hstate, hstep⟩ := bind_eq_ok.1 hstep
  obtain ⟨m₁, hretire, hstep⟩ := bind_eq_ok.1 hstep
  rw [expecting_state, hstate, ok_bind] at hstep'
  change ((({ m with state := state } : Machine σ).expecting jobs).retire prev _).result >>= _ = _
    at hstep'
  rw [retire_expecting, hretire] at hstep'
  have harr : m₁.arrivals = m.arrivals :=
    arrivals_of_retire (m := { m with state := state }) hretire
  exact parted_of_dispatch (harr ▸ hjobs) hstep hstep'

/-- The machine after the state has been sampled. -/
def sampled (m : Machine σ) : Machine σ :=
  { m with samples := m.samples.push ⟨m.state, m.events.size⟩ }

/-- If the run `isStuck`, closing the tick ends it in a deadlock. -/
theorem close_of_stuck {idle : Bool} (h : m.isStuck idle = true) :
    (m.close idle).result = .ok { m.sampled with phase := .ending .deadlock } := by
  have h : m.sampled.isStuck idle = true := h
  simp only [close, result_bind, result_note, ok_bind]
  change (ite (m.sampled.isStuck idle = true) _ _ : Narrated (Machine σ)).result = _
  rw [if_pos h]
  rfl

/-- If the run is not stuck, closing the tick moves the clock to the next one, and its boundary
follows. -/
theorem close_of_going {idle : Bool} (h : m.isStuck idle = false)
    (hstep : (m.close idle).result = .ok m') : ∃ tick, nextTick m.state.tick = .ok tick ∧
      m' = { m.sampled with state := { m.state with tick := tick }, phase := .boundary } := by
  have h : m.sampled.isStuck idle = false := h
  simp only [close, result_bind, result_note, ok_bind] at hstep
  change (ite (m.sampled.isStuck idle = true) _ _ : Narrated (Machine σ)).result = _ at hstep
  rw [if_neg (by simp [h]), result_bind, result_lift] at hstep
  obtain ⟨tick, htick, hpure⟩ := bind_eq_ok.1 hstep
  exact ⟨tick, htick, (Except.ok.inj hpure).symm⟩

theorem isStuck_iff : m.isStuck true = true ↔
    m.arrivals = [] ∧ m.state.procs ≠ [] ∧ ∀ p ∈ m.state.procs, p.status = .blocked := by
  simp [isStuck, and_assoc]

/-- Where everybody waits, the run ends in a deadlock if there is nobody to come, and idles if
somebody is: the machines have `Parted`. -/
theorem parted_of_stuck (hjobs : SameBefore T m.arrivals jobs) (hstuck : m.isStuck true = true)
    (tick : Nat) : Parted T { m.sampled with phase := .ending .deadlock }
      { (m.expecting jobs).sampled with
        state := { m.state with tick := tick }, phase := .boundary } := by
  obtain ⟨hnone, -, hblocked⟩ := isStuck_iff.1 hstuck
  exact {
    ended := ⟨_, rfl⟩
    events := .refl _
    dormant := {
      blocked := hblocked
      late := hjobs.late_of_nil hnone
      phase := rfl } }

/-- At the end of an idle tick the runs go on side by side, unless one of them is stuck, where they
have `Parted`. -/
theorem parted_of_close (hjobs : SameBefore T m.arrivals jobs)
    (hstep : (m.close true).result = .ok m')
    (hstep' : ((m.expecting jobs).close true).result = .ok n') :
    m'.Parallel T n' ∨ m'.Parted T n' ∨ n'.Parted T m' := by
  -- Everybody waits in both or in neither, but in one of them there may still be somebody to come.
  cases hstuck : m.isStuck true <;> cases hstuck' : (m.expecting jobs).isStuck true
  · obtain ⟨tick, htick, rfl⟩ := close_of_going hstuck hstep
    obtain ⟨tick', htick', rfl⟩ := close_of_going hstuck' hstep'
    cases htick.symm.trans htick'
    exact Or.inl ⟨jobs, rfl, hjobs⟩
  · obtain ⟨tick, -, rfl⟩ := close_of_going hstuck hstep
    cases (close_of_stuck hstuck').symm.trans hstep'
    exact Or.inr (Or.inr (parted_of_stuck (m := m.expecting jobs) hjobs.symm hstuck' tick))
  · cases (close_of_stuck hstuck).symm.trans hstep
    obtain ⟨tick, -, rfl⟩ := close_of_going hstuck' hstep'
    exact Or.inr (Or.inl (parted_of_stuck hjobs hstuck tick))
  · cases (close_of_stuck hstuck).symm.trans hstep
    cases (close_of_stuck hstuck').symm.trans hstep'
    exact Or.inl ⟨jobs, rfl, hjobs⟩

/-- Below the limit a step from a `boundary` begins the tick with the arrivals, under any policy. -/
theorem step_of_boundary (hphase : m.phase = .boundary) (hlimit : m.state.tick < limit) :
    (m.step P limit).result = .ok { m with phase := .arriving } := by
  rw [Machine.step, hphase]
  exact congrArg Except.ok (if_neg fun hstop => Nat.not_le.2 hlimit hstop.1)

/-- Before the tick and before the limit, the runs go on side by side, or part: by the phase, where
it looks at who is to come, and by `parallel_of_step` elsewhere. -/
theorem Parallel.step (h : m.Parallel T n) (htick : m.state.tick < T)
    (hlimit : m.state.tick < limit) (hstep : (m.step P limit).result = .ok m')
    (hstep' : (n.step P limit).result = .ok n') :
    m'.Parallel T n' ∨ m'.Parted T n' ∨ n'.Parted T m' := by
  obtain ⟨jobs, rfl, hjobs⟩ := h
  cases hlooks : m.phase.looksAhead with
  | false => exact Or.inl (parallel_of_step hjobs hlooks hstep hstep')
  | true =>
    cases hphase : m.phase with
    | boundary =>
      cases (step_of_boundary hphase hlimit).symm.trans hstep
      cases (step_of_boundary (m := m.expecting jobs) hphase hlimit).symm.trans hstep'
      exact Or.inl ⟨jobs, rfl, hjobs⟩
    | arriving =>
      rw [Machine.step, hphase] at hstep
      rw [Machine.step, expecting_phase, hphase] at hstep'
      exact Or.inl (parallel_of_arrive hjobs htick hstep hstep')
    | switching prev next =>
      cases next with
      | none =>
        rw [Machine.step, hphase] at hstep
        rw [Machine.step, expecting_phase, hphase] at hstep'
        exact parted_of_switch hjobs hstep hstep'
      | some pid => cases hphase ▸ hlooks
    | closing idle =>
      cases idle with
      | true =>
        rw [Machine.step, hphase] at hstep
        rw [Machine.step, expecting_phase, hphase] at hstep'
        exact parted_of_close hjobs hstep hstep'
      | false => cases hphase ▸ hlooks
    | _ => cases hphase ▸ hlooks

end Machine

end Uniprocessor
