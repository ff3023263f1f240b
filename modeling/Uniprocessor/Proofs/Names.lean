import Uniprocessor.Proofs.Parting
import Uniprocessor.Proofs.NameBlind

/-!
# Machines under other names

The machine compares names and looks things up by them, and does no more with them. So under a
policy that is blind to names, each step leads from machines that differ in names only to such
machines (`Machine.Renamed.step`), and so does a run of any length (`Machine.Renamed.run`).
-/

namespace Uniprocessor

open Narrated

variable {σ : Type} {ρ : Renaming}

namespace Renaming

variable (ρ)

/-- A hold of the resource under its new name, with as many ticks left. -/
def hold (h : Hold) : Hold := { h with resource := ρ.resource h.resource }

/-- The requests and the holds of a process, with the new names. -/
def script (s : Script) : Script where
  requests := s.requests.map ρ.request
  holds := s.holds.map ρ.hold

/-- The scripts of the live processes under their new names. -/
def scripts (ss : Scripts) : Scripts := ss.map fun e => (ρ.pid e.1, ρ.script e.2)

/-- Where the machine stands, with the new names in its `Phase`. -/
def phase : Phase → Phase
  | .announcing pid => .announcing (ρ.pid pid)
  | .switching prev next => .switching (prev.map ρ.pid) (next.map ρ.pid)
  | .requesting pid due => .requesting (ρ.pid pid) (due.map ρ.request)
  | .executing pid => .executing (ρ.pid pid)
  | .returning pid due => .returning (ρ.pid pid) (due.map ρ.resource)
  | .releasing pid r waiters due =>
    .releasing (ρ.pid pid) (ρ.resource r) (waiters.map ρ.pid) (due.map ρ.resource)
  | .boundary => .boundary
  | .arriving => .arriving
  | .choosing => .choosing
  | .closing idle => .closing idle
  | .ending exit => .ending exit
  | .over exit => .over exit

end Renaming

/-! ## Scripts -/

namespace Scripts

theorem find?_renamed (hρ : ρ.Total) (ss : Scripts) (pid : Pid) :
    (ρ.scripts ss).find? (ρ.pid pid) = (ss.find? pid).map ρ.script := by
  induction ss with
  | nil => rfl
  | cons e rest ih =>
    obtain ⟨p, s⟩ := e
    change find? ((ρ.pid p, ρ.script s) :: ρ.scripts rest) _ = _
    simp only [find?_cons, ih, hρ.pid_injective.eq_iff]
    split <;> rfl

theorem erase_renamed (hρ : ρ.Total) (ss : Scripts) (pid : Pid) :
    (ρ.scripts ss).erase (ρ.pid pid) = ρ.scripts (ss.erase pid) := by
  rw [erase, Renaming.scripts, List.filter_map]
  congr 1
  exact List.filter_congr fun e _ => by simp [hρ.pid_injective.eq_iff]

theorem put_renamed (hρ : ρ.Total) (ss : Scripts) (pid : Pid) (s : Script) :
    (ρ.scripts ss).put (ρ.pid pid) (ρ.script s) = ρ.scripts (ss.put pid s) := by
  rw [put, put, erase_renamed hρ]
  rfl

end Scripts

namespace Script

theorem due_renamed (hρ : ρ.Total) (s : Script) (age : Nat) :
    (ρ.script s).due age = (s.due age).map ρ.request := by
  have hheld : ∀ r, (ρ.script s).hasHold (ρ.resource r) = s.hasHold r := by
    intro r
    simp [hasHold, Renaming.script, Renaming.hold, Function.comp_def,
      hρ.resource_bijective.1.eq_iff]
  rw [due, Renaming.script, List.filter_map]
  congr 1
  refine List.filter_congr fun q _ => ?_
  exact congrArg (fun b => decide (q.due = age) && !b) (hheld q.resource)

theorem countDown_renamed (holds : List Hold) :
    Relates (countDown holds) (countDown (holds.map ρ.hold)) fun a b =>
      b = (a.1.map ρ.resource, a.2.map ρ.hold) := by
  induction holds with
  | nil => exact .ok rfl
  | cons h rest ih =>
    refine .bind_any fun _ _ => .bind_map ih ?_
    rintro ⟨expired, kept⟩
    change Relates (ite (h.remaining = 1) _ _) (ite (h.remaining = 1) _ _) _
    split <;> exact .ok rfl

theorem expire_renamed (s : Script) :
    Relates s.expire (ρ.script s).expire fun a b =>
      b = (a.1.map ρ.resource, ρ.script a.2) :=
  .bind_map (countDown_renamed s.holds) fun _ => .ok rfl

end Script

/-! ## Steps -/

namespace Machine

/-- The machine under other names, for a state `t` in which the tables may be in another order. -/
def under (ρ : Renaming) (m : Machine σ) (t : State) (samples : Array Sample) : Machine σ where
  phase := ρ.phase m.phase
  memory := m.memory
  state := t
  arrivals := m.arrivals.map ρ.job
  scripts := ρ.scripts m.scripts
  events := m.events.map ρ.event
  samples := samples

/-- The second machine is the first one `under` other names, for some state that is `Renamed`. -/
def Renamed (ρ : Renaming) (m n : Machine σ) : Prop :=
  ∃ t samples, n = m.under ρ t samples ∧ m.state.Renamed ρ t

section Under

variable {m : Machine σ} {t : State} {samples : Array Sample}

@[simp] theorem under_phase : (m.under ρ t samples).phase = ρ.phase m.phase := rfl

@[simp] theorem under_memory : (m.under ρ t samples).memory = m.memory := rfl

@[simp] theorem under_state : (m.under ρ t samples).state = t := rfl

@[simp] theorem under_arrivals : (m.under ρ t samples).arrivals = m.arrivals.map ρ.job := rfl

@[simp] theorem under_scripts : (m.under ρ t samples).scripts = ρ.scripts m.scripts := rfl

theorem record_under (htick : t.tick = m.state.tick) (what : Happening) :
    (m.under ρ t samples).record (ρ.happening what) = (m.record what).under ρ t samples := by
  rw [record, record, under, under, htick]
  simp [Array.map_push, Renaming.event]

end Under

namespace Renamed

variable {m n : Machine σ} {P : Policy σ}

theorem record (h : m.Renamed ρ n) (what : Happening) :
    (m.record what).Renamed ρ (n.record (ρ.happening what)) := by
  obtain ⟨t, samples, rfl, h⟩ := h
  exact ⟨t, samples, record_under h.tick what, h⟩

theorem inPhase (h : m.Renamed ρ n) (phase : Phase) :
    { m with phase := phase }.Renamed ρ { n with phase := ρ.phase phase } := by
  obtain ⟨t, samples, rfl, h⟩ := h
  exact ⟨t, samples, rfl, h⟩

theorem isWindingDown (h : m.Renamed ρ n) : n.isWindingDown = m.isWindingDown := by
  obtain ⟨t, samples, rfl, h⟩ := h
  rw [Machine.isWindingDown, Machine.isWindingDown, under_arrivals, under_state, List.isEmpty_map,
    h.all_procs fun _ => rfl]

theorem openTick (h : m.Renamed ρ n) (limit : Nat) :
    (m.openTick limit).Renamed ρ (n.openTick limit) := by
  rw [Machine.openTick, Machine.openTick, h.isWindingDown]
  obtain ⟨t, samples, rfl, h⟩ := h
  rw [under_state, h.tick]
  split <;> exact ⟨t, samples, rfl, h⟩

theorem arrive (hρ : ρ.Total) (h : m.Renamed ρ n) :
    Relates m.arrive.result n.arrive.result (Renamed ρ) := by
  obtain ⟨t, samples, rfl, h⟩ := h
  rw [Machine.arrive, Machine.arrive, under_arrivals, under_state, h.tick]
  cases m.arrivals with
  | nil => exact .ok ⟨t, samples, rfl, h⟩
  | cons job rest =>
    change Relates (ite (job.start ≤ _) _ _ : Narrated _).result
      (ite (job.start ≤ _) _ _ : Narrated _).result _
    split
    · simp only [result_bind, result_lift, result_note, ok_bind]
      refine .bind (h.enroll (.fresh job.pid job.lifespan job.prio)) fun s t h => .ok ?_
      refine record ⟨t, samples, ?_, h⟩ (.arrived job.pid)
      simp only [under, ← Scripts.put_renamed hρ]
      rfl
    · exact .ok ⟨t, samples, rfl, h⟩

theorem install (hρ : ρ.Total) (policy : String) {s t : State} (h : s.Renamed ρ t)
    (next : Option Pid) :
    Relates (Machine.install policy s next) (Machine.install policy t (next.map ρ.pid))
      (State.Renamed ρ) := by
  have current : ∀ {s t : State}, s.Renamed ρ t → ∀ c : Option Pid,
      { s with current := c }.Renamed ρ { t with current := c.map ρ.pid } := fun h c =>
    ⟨h.procs, h.nodup, rfl, h.ready, h.resources, h.tick, h.ceiling⟩
  cases next with
  | none => exact .ok (current h none)
  | some pid =>
    refine .bind_any fun _ _ => .bind_any fun _ _ => .bind_any fun _ _ => ?_
    exact .bind (h.setStatus hρ pid .running) fun s t h => .ok (current h (some pid))

theorem retire (hρ : ρ.Total) (h : m.Renamed ρ n) (prev next : Option Pid) :
    Relates (m.retire prev next).result (n.retire (prev.map ρ.pid) (next.map ρ.pid)).result
      (Renamed ρ) := by
  cases prev with
  | none => exact .ok h
  | some pid =>
    have hnext : next.map ρ.pid = some (ρ.pid pid) ↔ next = some pid :=
      (Option.map_injective hρ.pid_injective).eq_iff (b := some pid)
    simp only [Machine.retire, Option.map_some, hnext]
    split
    · exact .ok h
    · obtain ⟨t, samples, rfl, h⟩ := h
      simp only [result_bind, result_lift, under_state]
      refine .bind_map (h.process hρ pid) fun p => ?_
      rw [Renaming.process_isFinished]
      split
      · simp only [result_bind, result_lift, result_note, ok_bind, under_scripts]
        rw [Scripts.erase_renamed hρ]
        refine .bind (h.dismiss hρ pid) fun a b h => .ok ?_
        exact record ⟨b.2, samples, rfl, h⟩ (.left pid)
      · exact .ok ⟨t, samples, rfl, h⟩

theorem dispatch (hρ : ρ.Total) (h : m.Renamed ρ n) (next : Option Pid) :
    Relates (m.dispatch next).result (n.dispatch (next.map ρ.pid)).result (Renamed ρ) := by
  cases next with
  | none =>
    have hidle := h.record .idle
    obtain ⟨t, samples, rfl, h⟩ := h
    simp only [Machine.dispatch, Option.map_none, under_state, under_arrivals, h.isEmpty_procs,
      List.isEmpty_map]
    split
    · exact .ok ⟨t, samples, rfl, h⟩
    · exact .ok (hidle.inPhase (.closing true))
  | some pid =>
    obtain ⟨t, samples, rfl, h⟩ := h
    simp only [Machine.dispatch, Option.map_some, under_scripts, under_state,
      Scripts.find?_renamed hρ]
    cases m.scripts.find? pid with
    | none => exact .ok ⟨t, samples, rfl, h⟩
    | some script =>
      simp only [Option.map_some, result_bind, result_lift]
      refine .bind_map (h.process hρ pid) fun p => .ok ?_
      rw [Renaming.process_age, Script.due_renamed hρ]
      exact ⟨t, samples, rfl, h⟩

theorem switch (hρ : ρ.Total) (h : m.Renamed ρ n) (policy : String) (prev next : Option Pid) :
    Relates (m.switch policy prev next).result
      (n.switch policy (prev.map ρ.pid) (next.map ρ.pid)).result (Renamed ρ) := by
  rw [switch_result_eq, switch_result_eq]
  obtain ⟨t, samples, rfl, h⟩ := h
  refine .bind (install hρ policy h next) fun s t h => ?_
  exact .bind (retire hρ ⟨t, samples, rfl, h⟩ prev next) fun m n h => h.dispatch hρ next

theorem grant (hρ : ρ.Total) (h : m.Renamed ρ n) (pid : Pid) (q : Request) :
    (m.grant pid q).Renamed ρ (n.grant (ρ.pid pid) (ρ.request q)) := by
  obtain ⟨t, samples, rfl, h⟩ := h
  rw [Machine.grant, Machine.grant, under_scripts, Scripts.find?_renamed hρ]
  cases m.scripts.find? pid with
  | none => exact ⟨t, samples, rfl, h⟩
  | some script =>
    have hgrant : (ρ.script script).grant (ρ.request q) = ρ.script (script.grant q) := by
      simp [Script.grant, Renaming.script, Renaming.hold, Renaming.request]
    simp only [Option.map_some]
    rw [hgrant, Scripts.put_renamed hρ]
    exact ⟨t, samples, rfl, h⟩

theorem request (hρ : ρ.Total) (hP : P.NameBlind) (h : m.Renamed ρ n) {pid : Pid}
    {due : List Request} (hn : n.state.Settled)
    (hcalls : ∀ q ∈ due.head?, ∃ x, m.state.Calls pid q.resource x ∧ x.owner ≠ some pid) :
    Relates (m.request P pid due).result (n.request P (ρ.pid pid) (due.map ρ.request)).result
      (Renamed ρ) := by
  cases due with
  | nil =>
    obtain ⟨t, samples, rfl, h⟩ := h
    exact .ok ⟨t, samples, rfl, h⟩
  | cons q rest =>
    obtain ⟨x, hcalls, hne⟩ := hcalls q rfl
    obtain ⟨t, samples, rfl, h⟩ := h
    simp only [Machine.request, List.map_cons, result_bind]
    refine .bind (hP.acquire hρ m.memory hcalls hne hn h) ?_
    rintro ⟨memory, s, granted⟩ ⟨_, t, _⟩ ⟨hmemory, hst, hgranted⟩
    cases hmemory
    cases hgranted
    have h : ({ m with memory := memory, state := s } : Machine σ).Renamed ρ _ :=
      ⟨t, samples, rfl, hst⟩
    clear hst
    cases granted with
    | true =>
      exact .ok (((h.grant hρ pid q).record (.acquired pid q.resource)).inPhase
        (.requesting pid rest))
    | false => exact .ok ((h.record (.refused pid q.resource)).inPhase .choosing)

theorem execute (hρ : ρ.Total) (h : m.Renamed ρ n) (pid : Pid) :
    Relates (m.execute pid).result (n.execute (ρ.pid pid)).result (Renamed ρ) := by
  obtain ⟨t, samples, hn, h⟩ := h.record (.executed pid)
  simp only [Machine.execute, result_bind, result_lift, result_note, ok_bind]
  rw [show n.record (.executed (ρ.pid pid)) = _ from hn]
  refine .bind_map (h.process hρ pid) fun p => ?_
  rw [Renaming.process_age]
  refine .bind (R := Eq) (fun a b ha hb => Except.ok.inj (ha.symm.trans hb)) ?_
  rintro age _ rfl
  have h := h.adjust hρ pid (f := fun p => { p with age := age }) (fun _ => rfl) fun _ => rfl
  simp only [under_scripts, Scripts.find?_renamed hρ]
  cases (m.record (.executed pid)).scripts.find? pid with
  | none => exact .ok ⟨_, samples, rfl, h⟩
  | some script =>
    simp only [Option.map_some, result_bind, result_lift]
    refine .bind_map (Script.expire_renamed script) ?_
    rintro ⟨expired, script⟩
    refine .ok ?_
    rw [Scripts.put_renamed hρ]
    exact ⟨_, samples, rfl, h⟩

theorem turn (h : m.Renamed ρ n) (pid : Pid) (due : List ResourceId) :
    Relates (m.turn pid due).result (n.turn (ρ.pid pid) (due.map ρ.resource)).result
      (Renamed ρ) := by
  cases due with
  | nil => exact .ok (h.inPhase (.closing false))
  | cons r rest =>
    obtain ⟨t, samples, rfl, h⟩ := h
    simp only [Machine.turn, List.map_cons, result_bind, result_lift]
    exact .bind_map (h.resource r) fun x => .ok ⟨t, samples, rfl, h⟩

theorem recordWoken (hρ : ρ.Total) (h : m.Renamed ρ n) (r : ResourceId) (still waiters : Queue) :
    (m.recordWoken r still waiters).Renamed ρ
      (n.recordWoken (ρ.resource r) (still.map ρ.pid) (waiters.map ρ.pid)) := by
  induction waiters generalizing m n with
  | nil => exact h
  | cons waiter rest ih =>
    simp only [Machine.recordWoken, List.map_cons, hρ.mem_map_iff]
    split
    · exact ih h
    · exact ih (h.record (.woken waiter r))

theorem release (hρ : ρ.Total) (hP : P.NameBlind) (h : m.Renamed ρ n) {pid : Pid} {r : ResourceId}
    {x : Resource} (hn : n.state.Settled) (hcalls : m.state.Calls pid r x)
    (hx : x.owner = some pid) (waiters : Queue) (due : List ResourceId) :
    Relates (m.release P pid r waiters due).result (n.release P (ρ.pid pid) (ρ.resource r)
      (waiters.map ρ.pid) (due.map ρ.resource)).result (Renamed ρ) := by
  obtain ⟨t, samples, rfl, h⟩ := h
  simp only [Machine.release, result_bind, result_lift]
  refine .bind (hP.release hρ m.memory hcalls hx hn h) ?_
  rintro ⟨_, s⟩ ⟨memory, t⟩ ⟨rfl, h⟩
  have hrel : ({ m with memory := memory, state := s } : Machine σ).Renamed ρ _ :=
    ⟨t, samples, rfl, h⟩
  refine .bind_map (h.resource r) fun x => .ok ?_
  exact ((hrel.record (.released pid r)).recordWoken hρ r x.waiters waiters).inPhase
    (.returning pid due)

theorem isStuck (h : m.Renamed ρ n) (idle : Bool) : n.isStuck idle = m.isStuck idle := by
  obtain ⟨t, samples, rfl, h⟩ := h
  rw [Machine.isStuck, Machine.isStuck, under_arrivals, under_state, List.isEmpty_map,
    h.isEmpty_procs, h.all_procs fun _ => rfl]

theorem close (h : m.Renamed ρ n) (idle : Bool) :
    Relates (m.close idle).result (n.close idle).result (Renamed ρ) := by
  intro m' n' hm' hn'
  have hstuck := h.isStuck idle
  obtain ⟨t, samples, rfl, h⟩ := h
  cases hidle : m.isStuck idle with
  | true =>
    cases (close_of_stuck hidle).symm.trans hm'
    cases (close_of_stuck (hstuck.trans hidle)).symm.trans hn'
    exact ⟨t, _, rfl, h⟩
  | false =>
    obtain ⟨tick, htick, rfl⟩ := close_of_going hidle hm'
    obtain ⟨tick', htick', rfl⟩ := close_of_going (hstuck.trans hidle) hn'
    rw [under_state, h.tick] at htick'
    cases htick.symm.trans htick'
    exact ⟨_, _, rfl, h.procs, h.nodup, h.current, h.ready, h.resources, rfl, h.ceiling⟩

theorem conclude (hρ : ρ.Total) (hP : P.NameBlind) (h : m.Renamed ρ n) (exit : Exit) :
    Relates (m.conclude P exit).result (n.conclude P exit).result (Renamed ρ) := by
  obtain ⟨t, samples, rfl, h⟩ := h
  simp only [Machine.conclude, result_bind, result_note, ok_bind]
  refine .bind (hP.finish hρ m.memory h) ?_
  rintro ⟨_, s⟩ ⟨memory, t⟩ ⟨rfl, h⟩
  exact .ok ⟨t, samples, rfl, h⟩

/-- A step of machines that differ in names only leads to such machines: one case for each phase,
where the policy answers as `Policy.NameBlind` says. -/
theorem step {sc : Scenario} (hρ : ρ.Total) (hP : P.NameBlind) (hsc : sc.Sound)
    (h : m.Renamed ρ n) (hm : m.phase.isSwitching = false → m.Steady sc)
    (hn : n.phase.isSwitching = false → n.state.Settled) (limit : Nat) :
    Relates (m.step P limit).result (n.step P limit).result (Renamed ρ) := by
  have hphase' : n.phase = ρ.phase m.phase := by
    obtain ⟨t, samples, rfl, -⟩ := h
    rfl
  rw [Machine.step, Machine.step, hphase']
  cases hphase : m.phase with
  | boundary => exact .ok (h.openTick limit)
  | arriving => exact h.arrive hρ
  | announcing pid =>
    obtain ⟨t, samples, rfl, h⟩ := h
    simp only [Renaming.phase, result_bind]
    refine .bind (hP.arrived hρ m.memory pid h) ?_
    rintro ⟨_, s⟩ ⟨memory, t⟩ ⟨rfl, h⟩
    exact .ok ⟨t, samples, rfl, h⟩
  | choosing =>
    obtain ⟨t, samples, rfl, h⟩ := h
    simp only [Renaming.phase, result_bind]
    refine .bind (hP.choose hρ m.memory h) ?_
    rintro ⟨memory, s, next⟩ ⟨_, t', _⟩ ⟨hmemory, h', hnext⟩
    cases hmemory
    cases hnext
    rw [under_state, h.current]
    exact .ok ⟨t', samples, rfl, h'⟩
  | switching prev next => exact h.switch hρ P.name prev next
  | requesting pid due =>
    refine h.request hρ hP (hn (by rw [hphase', hphase]; rfl)) fun q hq => ?_
    obtain ⟨rest, rfl⟩ : ∃ rest, due = q :: rest := List.head?_eq_some_iff.1 hq
    have hm := hm (by rw [hphase]; rfl)
    obtain ⟨x, hcalls⟩ := hm.calls_requesting hsc hphase
    exact ⟨x, hcalls, fun hx => hm.not_owns_requested hphase
      ((State.owns_iff hcalls.entry).2 hx)⟩
  | executing pid => exact h.execute hρ pid
  | returning pid due => exact h.turn pid due
  | releasing pid r waiters due =>
    have hm := hm (by rw [hphase]; rfl)
    obtain ⟨hruns, -⟩ := hm.fits_of hphase
    obtain ⟨x, hcalls, hx⟩ := hm.calls_owing hruns (congrArg Phase.owed hphase)
    exact h.release hρ hP (hn (by rw [hphase', hphase]; rfl)) hcalls hx waiters due
  | closing idle => exact h.close idle
  | ending exit => exact h.conclude hρ hP exit
  | _ => exact .ok h

/-- Two runs that start from machines which differ in names only come out alike, at machines which
differ in names only: `Renamed.step` for each step that the fuel allows. -/
theorem run {sc sc' : Scenario} {memory memory' : σ} (hρ : ρ.Total) (hP : P.NameBlind)
    (hlaw : P.Lawful) (hsc : sc.Admitted) (hsc' : sc'.Admitted) (hlimit : sc'.limit = sc.limit)
    (hm : sc.Reaches P memory m) (hn : sc'.Reaches P memory' n) (h : m.Renamed ρ n) (fuel : Nat)
    (log log' : Array LogEntry) :
    (n.run P sc'.limit fuel log').outcome = (m.run P sc.limit fuel log).outcome ∧
      (m.run P sc.limit fuel log).machine.Renamed ρ (n.run P sc'.limit fuel log').machine := by
  induction fuel generalizing m n log log' with
  | zero =>
    refine ⟨?_, h⟩
    obtain ⟨t, samples, rfl, -⟩ := h
    rw [Machine.run, Machine.run, under_phase]
    cases m.phase <;> rfl
  | succ fuel ih =>
    by_cases hover : ∃ exit, m.phase = .over exit
    · obtain ⟨exit, hover⟩ := hover
      have hover' : n.phase = .over exit := by
        obtain ⟨t, samples, rfl, -⟩ := h
        rw [under_phase, hover]
        rfl
      rw [run_over hover, run_over hover']
      exact ⟨rfl, h⟩
    · have hover' : ∀ exit, n.phase ≠ .over exit := by
        obtain ⟨t, samples, rfl, -⟩ := h
        intro exit hexit
        refine hover ⟨exit, ?_⟩
        rw [under_phase] at hexit
        cases hphase : m.phase <;> rw [hphase] at hexit <;> cases hexit
        rfl
      obtain ⟨m', hm'⟩ := hm.exists_step hsc hlaw
      obtain ⟨n', hn'⟩ := hn.exists_step hsc' hlaw
      rw [run_succ (fun exit he => hover ⟨exit, he⟩) hm', run_succ hover' hn']
      refine ih (hm.step hm') (hn.step hn') ?_ _ _
      rw [hlimit] at hn'
      exact h.step hρ hP hsc.sound (hm.steady hsc hlaw)
        (fun hrest => (hn.steady hsc' hlaw hrest).stage.settled) sc.limit m' n' hm' hn'

end Renamed

/-- A machine before the first tick is `Renamed` if its jobs are, and the table of resources is as
long under the new names. -/
theorem renamed_initial (sc : Scenario)
    (hresource : ∀ r, ρ.resource r < sc.resourceCount ↔ r < sc.resourceCount) (memory : σ) :
    (Machine.initial sc memory).Renamed ρ (Machine.initial (ρ.scenario sc) memory) := by
  have horder : arrivalOrder (sc.jobs.map ρ.job) = (arrivalOrder sc.jobs).map ρ.job :=
    (List.map_mergeSort (f := ρ.job) fun _ _ _ _ => rfl).symm
  refine ⟨.empty sc.resourceCount sc.ceiling, #[], ?_, ?_⟩
  · simp [initial, Renaming.scenario, horder, under, Renaming.phase, Renaming.scripts]
  · exact {
      procs := .refl _
      nodup := List.nodup_nil
      current := rfl
      ready := rfl
      resources := fun r => by
        simp only [initial, State.empty, List.getElem?_replicate, hresource]
        split <;> rfl
      tick := rfl
      ceiling := rfl }

end Machine

end Uniprocessor
