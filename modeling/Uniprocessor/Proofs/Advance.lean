import Uniprocessor.Proofs.Steady

/-!
# A steady machine goes on

Under a lawful policy no step of a steady machine faults, as long as the scenario is admitted:
whatever the phase, the stride succeeds, and what it does is one of the strides that were described
(`Steady.exists_stride`).
-/

namespace Uniprocessor

open Narrated

namespace State

variable {s t : State} {next : Option Pid}

/-- The check `untied` passes for a process that owns nothing and waits for nothing. -/
theorem untied_eq_ok {pid : Pid} {r : ResourceId} {xs : List Resource}
    (h : ∀ x ∈ xs, x.owner ≠ some pid ∧ pid ∉ x.waiters) : untied pid r xs = .ok () := by
  induction xs generalizing r with
  | nil => rfl
  | cons x rest ih =>
    obtain ⟨howner, hwaiter⟩ := h x (List.mem_cons_self ..)
    rw [untied, require_eq_ok.2 howner, ok_bind, require_eq_ok.2 hwaiter, ok_bind]
    exact ih fun y hy => h y (List.mem_cons_of_mem _ hy)

/-- A process is dismissed without a fault if it is live, but not current, not ready, not an owner
and not in a wait queue. -/
theorem dismiss_eq_ok {pid : Pid} {p : Process} (hcur : s.current ≠ some pid)
    (hready : pid ∉ s.ready) (howns : ∀ r, ¬ s.Owns pid r) (hwaits : ∀ r, ¬ s.Waits pid r)
    (hp : s.process? pid = some p) : s.dismiss pid = .ok (p, s.without (some pid)) := by
  have huntied : untied pid 0 s.resources = .ok () := untied_eq_ok fun x hx => by
    obtain ⟨r, hr⟩ := List.mem_iff_getElem?.1 hx
    exact ⟨fun ho => howns r ⟨x, hr, ho⟩, fun hw => hwaits r ⟨x, hr, hw⟩⟩
  rw [dismiss, require_eq_ok.2 hcur, ok_bind, require_eq_ok.2 hready, ok_bind, huntied, ok_bind,
    process_eq_ok.2 hp]
  rfl

end State

namespace Machine

variable {σ : Type} {sc : Scenario} {P : Policy σ} {m m' : Machine σ}

/-! ## Carrying a choice out -/

/-- Whoever is fit to execute and has left the ready queue is put in place by `install` without a
fault, and the state is `installed`. -/
theorem install_of_fit {t : State} {pid : Pid} {p : Process} (hp : t.process? pid = some p)
    (hrun : p.isRunnable = true) (hready : pid ∉ t.ready) (name : String) :
    install name t (some pid) = .ok (t.installed (some pid)) := by
  rw [install, State.process_eq_ok.2 hp, ok_bind, require_eq_ok.2 hrun, ok_bind,
    require_eq_ok.2 hready, ok_bind, State.setStatus, State.revise_eq_ok hp, ok_bind]
  rfl

/-- The chosen process is fit to be installed: by `Stage.age_lt_of_chosen` it has ticks left to
execute, and by `Chose` it is not blocked and not in the ready queue. -/
theorem install_eq_ok {s t : State} {scripts : Scripts} {arrivals : List Job}
    {owed : Pid → List ResourceId} (h : Stage sc s scripts arrivals owed) {next : Option Pid}
    (hchose : s.Chose t next) (name : String) : install name t next = .ok (t.installed next) := by
  cases next with
  | none => rfl
  | some pid =>
    obtain ⟨p, hp⟩ : ∃ p, s.process? pid = some p := by
      rw [State.exists_process?_iff, ← hchose.map_pid, ← State.exists_process?_iff]
      exact hchose.process?_chosen rfl
    have hlt := h.age_lt_of_chosen hchose rfl hp
    obtain ⟨c, n, hcn⟩ := hchose.process? hp
    have hrun : Process.isRunnable { p with status := c, prio := n } = true := by
      have hc : c ≠ .blocked := by
        rintro rfl
        have hst := State.status?_of_process? hcn
        rcases hchose.fit rfl with hf | hf
        · rw [hf] at hst
          cases hst
        · rw [hf] at hst
          cases hst
      simp [Process.isRunnable, Process.isBlocked, Process.isFinished, hc, hlt]
    exact install_of_fit hcn hrun (hchose.not_mem_ready h.settled rfl) name

/-- Whoever is not chosen is found after the choice with the same age and lifespan, so `retire` can
tell whether it is finished. -/
theorem process?_of_not_chosen {s t : State} {next : Option Pid} (hchose : s.Chose t next)
    {pid : Pid} {p : Process} (hn : next ≠ some pid) (hp : s.process? pid = some p) :
    ∃ c n, (t.installed next).process? pid = some { p with status := c, prio := n } := by
  obtain ⟨c, n, hcn⟩ := hchose.process? hp
  rw [State.process?_installed, if_neg hn]
  exact ⟨c, n, hcn⟩

/-- A finished process is neither current nor ready after the choice, and owns nothing and waits for
nothing, so it is dismissed without a fault. -/
theorem Steady.dismiss_leaver (hsc : sc.Sound) (h : m.Steady sc) (hphase : m.phase = .choosing)
    {t : State} {next : Option Pid} (hchose : m.state.Chose t next) {g : Pid}
    (hg : m.state.leaver? = some g) {p : Process} (hp : (t.installed next).process? g = some p) :
    (t.installed next).dismiss g = .ok (p, (t.installed next).without (some g)) := by
  have hst : Stage sc m.state m.scripts m.arrivals fun _ => [] := h.stage_of hphase
  have hrun := hst.status?_leaver hg
  have hn : next ≠ some g := hchose.ne_leaver hst.settled hg hrun
  have hres : (t.installed next).resources = m.state.resources := by
    rw [← hchose.resources]
    cases next <;> rfl
  refine State.dismiss_eq_ok ?_ ?_ (fun r ho => ?_) (fun r hw => ?_) hp
  · cases next with
    | none => exact (Option.some_ne_none g).symm
    | some c => exact hn
  · have hready : (t.installed next).ready = t.ready := by cases next <;> rfl
    rw [hready, hchose.mem_ready_iff hn]
    rintro (hcon | hm)
    · exact State.leaver?_ne_contender? hg hcon
    · exact hst.settled.not_mem_ready_of_running hrun hm
  · exact hst.not_owns_leaver hsc hg r ((State.owns_congr hres).1 ho)
  · exact hst.settled.not_waits_of_running hrun r ((State.waits_congr hres).1 hw)

/-- A finished process leaves, and nobody else does: `retire` succeeds, and gives the machine in
which the choice is carried out. -/
theorem Steady.retire_eq_ok (hsc : sc.Sound) (h : m.Steady sc) (hphase : m.phase = .choosing)
    {t : State} {next : Option Pid} (hchose : m.state.Chose t next) (memory : σ) :
    (retire { m with
        memory := memory
        state := t.installed next
        phase := .switching m.state.current next } m.state.current next).result =
      .ok { m.carriedOut memory t next with phase := .switching m.state.current next } := by
  have hst : Stage sc m.state m.scripts m.arrivals fun _ => [] := h.stage_of hphase
  rcases hg : m.state.leaver? with _ | g
  · -- The former process has something left to execute, or goes on, or there was none.
    have hstay : m.carriedOut memory t next =
        { m with memory := memory, state := t.installed next } := by
      simp only [carriedOut, State.switched, hg]
      rfl
    rw [hstay]
    rcases hc : m.state.current with _ | c
    · rfl
    · rw [retire]
      by_cases hn : next = some c
      · rw [if_pos hn]
        rfl
      · obtain ⟨p, hp⟩ := hst.settled.process?_of_current hc
        obtain ⟨c', n, hcn⟩ := process?_of_not_chosen hchose hn hp
        have hfin : ¬ Process.isFinished { p with status := c', prio := n } = true := by
          rw [Process.isFinished_iff]
          intro hle
          rw [State.leaver?_eq_some.2 ⟨hc, p, hp, hle⟩] at hg
          cases hg
        rw [if_neg hn, result_bind, result_lift, State.process_eq_ok.2 hcn, ok_bind, if_neg hfin]
        rfl
  · -- The former process is finished.
    obtain ⟨hc, p, hp, hle⟩ := State.leaver?_eq_some.1 hg
    have hn : next ≠ some g := hchose.ne_leaver hst.settled hg (hst.status?_leaver hg)
    obtain ⟨c', n, hcn⟩ := process?_of_not_chosen hchose hn hp
    have hdismiss := h.dismiss_leaver hsc hphase hchose hg hcn
    have hfin : Process.isFinished { p with status := c', prio := n } = true :=
      Process.isFinished_iff.2 hle
    rw [hc, retire, if_neg hn]
    simp only [result_bind, result_lift, State.process_eq_ok.2 hcn, ok_bind, if_pos hfin, hdismiss,
      result_note]
    simp only [carriedOut, State.switched, hg]
    rfl

/-- Carrying a choice out by `switch` comes down to `carriedOut`, and to going on with the chosen
process or without one. -/
theorem Steady.switch_result (hsc : sc.Sound) (h : m.Steady sc) (hphase : m.phase = .choosing)
    {t : State} {next : Option Pid} (hchose : m.state.Chose t next) (memory : σ) (name : String) :
    (switch name { m with
        memory := memory
        state := t
        phase := .switching m.state.current next } m.state.current next).result =
      (dispatch { m.carriedOut memory t next with phase := .switching m.state.current next }
        next).result := by
  have hinstall := install_eq_ok (h.stage_of hphase) hchose name
  have hretire := h.retire_eq_ok hsc hphase hchose memory
  rw [switch]
  by_cases hsame : m.state.current = next
  · simp only [result_bind, result_lift, hinstall, ok_bind, ne_eq, hsame, not_true_eq_false,
      if_false]
    rw [hsame] at hretire
    rw [hretire, ok_bind]
  · simp only [result_bind, result_lift, hinstall, ok_bind, ne_eq, hsame, not_false_eq_true,
      if_true, result_note]
    rw [hretire, ok_bind]

/-! ## The strides, phase by phase -/

theorem stride_of_ne_choosing (h : m.phase ≠ .choosing) (limit : Nat) :
    m.stride P limit = (m.step P limit).result := by
  unfold stride
  split
  · next hphase => exact absurd hphase h
  · rfl

theorem exists_stride_boundary (P : Policy σ) (limit : Nat) (hphase : m.phase = .boundary) :
    ∃ m', m.stride P limit = .ok m' ∧ Strides P limit m m' := by
  rw [stride_of_ne_choosing (by simp [hphase]), step, hphase]
  by_cases hstop : limit ≤ m.state.tick ∧ m.isWindingDown = false
  · exact ⟨_, congrArg Except.ok (if_pos hstop), .stop hphase hstop.1 hstop.2⟩
  · refine ⟨_, congrArg Except.ok (if_neg hstop), .start hphase ?_⟩
    by_cases hlt : m.state.tick < limit
    · exact Or.inl hlt
    · right
      rw [← Bool.not_eq_false]
      exact fun hwork => hstop ⟨Nat.not_lt.1 hlt, hwork⟩

theorem Steady.exists_stride_arriving (h : m.Steady sc) (hphase : m.phase = .arriving) :
    ∃ m', m.stride P sc.limit = .ok m' ∧ Strides P sc.limit m m' := by
  rw [stride_of_ne_choosing (by simp [hphase]), step, hphase]
  rcases harr : m.arrivals with _ | ⟨job, rest⟩
  · refine ⟨_, ?_, .gather hphase (by simp [harr])⟩
    simp only [arrive, harr]
    rfl
  · by_cases hstart : job.start ≤ m.state.tick
    · have hst := h.stage_of_arriving hphase harr
      have hjoin : m.state.enroll (.fresh job.pid job.lifespan job.prio) =
          .ok (m.state.joined (.fresh job.pid job.lifespan job.prio)) :=
        hst.settled.enroll_eq_ok hst.process?_arrival
      refine ⟨_, ?_, .arrive hphase harr hstart⟩
      simp only [arrive, harr, if_pos hstart, result_bind, result_note, result_lift, hjoin, ok_bind]
      rfl
    · refine ⟨_, ?_, .gather hphase (by simpa [harr] using hstart)⟩
      simp only [arrive, harr, if_neg hstart]
      rfl

theorem Steady.exists_stride_choosing (hsc : sc.Sound) (hP : P.Lawful) (h : m.Steady sc)
    (hphase : m.phase = .choosing) :
    ∃ m', m.stride P sc.limit = .ok m' ∧ Strides P sc.limit m m' := by
  have hst : Stage sc m.state m.scripts m.arrivals fun _ => [] := h.stage_of hphase
  obtain ⟨memory, t, next, hok, hchose⟩ := hP.choose m.memory hst.settled
  have hset := hst.switched hsc hchose
  have hstride : m.stride P sc.limit =
      (dispatch { m.carriedOut memory t next with phase := .switching m.state.current next }
        next).result := by
    simp only [stride, hphase, step, result_bind, hok, ok_bind, result_pure]
    exact h.switch_result hsc hphase hchose memory P.name
  rw [hstride]
  cases next with
  | none =>
    by_cases hdone : (m.state.switched t none).procs = [] ∧ m.arrivals = []
    · have hempty : ((m.carriedOut memory t none).state.procs.isEmpty = true ∧
          (m.carriedOut memory t none).arrivals.isEmpty = true) := by
        simpa using hdone
      exact ⟨_, congrArg Narrated.result (if_pos hempty),
        .drain hphase hok hchose hdone.1 hdone.2⟩
    · have hleft : ¬ ((m.carriedOut memory t none).state.procs.isEmpty = true ∧
          (m.carriedOut memory t none).arrivals.isEmpty = true) := by
        simpa using hdone
      exact ⟨_, congrArg Narrated.result (if_neg hleft), .idle hphase hok hchose hdone⟩
  | some pid =>
    obtain ⟨p, hp⟩ := State.exists_process?_of_status? (s := m.state.switched t (some pid)) (by
      rw [hchose.status?_switched hst.settled (fun _ => hst.status?_leaver), if_pos rfl])
    obtain ⟨job, -, script, -, hs, -⟩ := hset.plays hp
    refine ⟨_, ?_, .turn hphase hok hchose hp hs⟩
    have hp' : (m.carriedOut memory t (some pid)).state.process pid = .ok p := by
      rw [carriedOut_state]
      exact State.process_eq_ok.2 hp
    simp only [dispatch, carriedOut_scripts, hs, result_bind, result_lift, hp', ok_bind]
    rfl

/-- The resource that is asked for exists, since the script is that of a sound job, and the process
that asks runs. So the policy may be called about it. -/
theorem Steady.calls_requesting (hsc : sc.Sound) (h : m.Steady sc) {pid : Pid} {q : Request}
    {rest : List Request} (hphase : m.phase = .requesting pid (q :: rest)) :
    ∃ x, m.state.Calls pid q.resource x := by
  have hst := h.stage_of hphase
  obtain ⟨hruns, p, script, hp, hs, -, hdue⟩ : Turn m.state m.scripts pid (q :: rest) :=
    h.fits_of hphase
  obtain ⟨job, hjob, -, hplays⟩ := hst.plays_of_find? hp hs
  have hq : q ∈ script.due p.age := hdue ▸ List.mem_cons_self ..
  have hlt := ((hsc.jobs job hjob).requests q (hplays.mem_due.1 hq).1).resource_lt
  rw [← hst.length_resources] at hlt
  exact ⟨_, hst.settled, hruns.current, hruns.running, List.getElem?_eq_getElem hlt⟩

/-- Nobody asks for what it owns: what a script holds is not due (`Script.due`). -/
theorem Steady.not_owns_requested (h : m.Steady sc) {pid : Pid} {q : Request}
    {rest : List Request} (hphase : m.phase = .requesting pid (q :: rest)) :
    ¬ m.state.Owns pid q.resource := by
  intro ho
  have hst : Stage sc m.state m.scripts m.arrivals fun _ => [] := h.stage_of hphase
  obtain ⟨-, p, script, hp, hs, -, hdue⟩ : Turn m.state m.scripts pid (q :: rest) :=
    h.fits_of hphase
  obtain ⟨job, -, -, hplays⟩ := hst.plays_of_find? hp hs
  obtain ⟨script', hs', hr⟩ := hst.owns_iff.1 ho
  rw [hs] at hs'
  cases hs'
  rw [List.append_nil] at hr
  exact (hplays.mem_due.1 (hdue ▸ List.mem_cons_self ..)).2.2 hr

theorem Steady.exists_stride_requesting (hsc : sc.Sound) (hP : P.Lawful) (h : m.Steady sc)
    {pid : Pid} {due : List Request} (hphase : m.phase = .requesting pid due) :
    ∃ m', m.stride P sc.limit = .ok m' ∧ Strides P sc.limit m m' := by
  rw [stride_of_ne_choosing (by simp [hphase]), step, hphase]
  rcases due with _ | ⟨q, rest⟩
  · exact ⟨_, rfl, .ready hphase⟩
  · obtain ⟨x, hcalls⟩ := h.calls_requesting hsc hphase
    obtain ⟨-, p, script, hp, hs, -⟩ : Turn m.state m.scripts pid (q :: rest) := h.fits_of hphase
    rcases hx : x.owner with _ | owner
    · obtain ⟨memory, t, hok, ht⟩ := hP.acquire_free m.memory hcalls hx
      refine ⟨_, ?_, .grant hphase hp hs hcalls hx hok ht⟩
      simp only [request, result_bind, hok, ok_bind, grant, hs, if_true]
      rfl
    · have hne : owner ≠ pid := by
        rintro rfl
        exact h.not_owns_requested hphase ((State.owns_iff hcalls.entry).2 hx)
      obtain ⟨memory, t, hok, ht⟩ := hP.acquire_held m.memory hcalls hx hne
      refine ⟨_, ?_, .refuse hphase hcalls hx hne hok ht⟩
      simp only [request, result_bind, hok, ok_bind]
      rfl

theorem Steady.exists_stride_executing (hlife : ∀ job ∈ sc.jobs, job.lifespan < largestTick)
    (h : m.Steady sc) {pid : Pid} (hphase : m.phase = .executing pid) :
    ∃ m', m.stride P sc.limit = .ok m' ∧ Strides P sc.limit m m' := by
  rw [stride_of_ne_choosing (by simp [hphase]), step, hphase]
  have hst : Stage sc m.state m.scripts m.arrivals fun _ => [] := h.stage_of hphase
  obtain ⟨hruns, p, script, hp, hs, hlt, -⟩ : Turn m.state m.scripts pid [] := h.fits_of hphase
  obtain ⟨expired, script', hexp, -, -⟩ := hst.ran hp hruns.running hlt hs
  obtain ⟨job, hjob, -, hplays⟩ := hst.plays_of_find? hp hs
  have hage : nextTick p.age = .ok (p.age + 1) := by
    rw [hplays.lifespan] at hlt
    exact if_pos (Nat.lt_trans hlt (hlife job hjob))
  refine ⟨_, ?_, .execute hphase hp hs hexp⟩
  have hp' : (m.record (.executed pid)).state.process pid = .ok p := State.process_eq_ok.2 hp
  have hs' : (m.record (.executed pid)).scripts.find? pid = some script := hs
  simp only [execute, result_bind, result_lift, hp', ok_bind, hage, result_note, hs', hexp]
  rfl

/-- What is owed is owned by `Stage.owns_iff`, and its owner runs. So the policy may be called about
it. -/
theorem Steady.calls_owing (h : m.Steady sc) {pid : Pid} {r : ResourceId} {due : List ResourceId}
    (hruns : m.state.Runs pid) (howed : m.phase.owed = owing pid (r :: due)) :
    ∃ x, m.state.Calls pid r x ∧ x.owner = some pid := by
  obtain ⟨p, hp⟩ := State.exists_process?_of_status? hruns.running
  obtain ⟨job, -, script, -, hs, -⟩ := h.stage.plays hp
  have hr : r ∈ script.held ++ m.phase.owed pid := by
    rw [howed, owing_self]
    exact List.mem_append_right _ (List.mem_cons_self ..)
  obtain ⟨x, hx, ho⟩ := h.stage.owns_of_mem hs hr
  exact ⟨x, ⟨h.stage.settled, hruns.current, hruns.running, hx⟩, ho⟩

theorem Steady.exists_stride_returning (h : m.Steady sc) {pid : Pid} {due : List ResourceId}
    (hphase : m.phase = .returning pid due) :
    ∃ m', m.stride P sc.limit = .ok m' ∧ Strides P sc.limit m m' := by
  rw [stride_of_ne_choosing (by simp [hphase]), step, hphase]
  rcases due with _ | ⟨r, due⟩
  · exact ⟨_, rfl, .finish hphase⟩
  · obtain ⟨x, hcalls, -⟩ := h.calls_owing (h.fits_of hphase) (congrArg Phase.owed hphase)
    refine ⟨_, ?_, .next hphase hcalls.entry⟩
    simp only [Machine.turn, result_bind, result_lift, State.resource_eq_ok.2 hcalls.entry, ok_bind]
    rfl

theorem Steady.exists_stride_releasing (hP : P.Lawful) (h : m.Steady sc) {pid : Pid}
    {r : ResourceId} {waiters : Queue} {due : List ResourceId}
    (hphase : m.phase = .releasing pid r waiters due) :
    ∃ m', m.stride P sc.limit = .ok m' ∧ Strides P sc.limit m m' := by
  rw [stride_of_ne_choosing (by simp [hphase]), step, hphase]
  obtain ⟨hruns, -⟩ := h.fits_of hphase
  obtain ⟨x, hcalls, hx⟩ := h.calls_owing hruns (congrArg Phase.owed hphase)
  obtain ⟨memory, t, woken, hok, ht, hnone, hwoken⟩ := hP.release m.memory hcalls hx
  have hlt : r < t.resources.length := by
    rw [ht.resources, State.length_resources_vacate]
    exact (List.getElem?_eq_some_iff.1 hcalls.entry).1
  have hy := List.getElem?_eq_getElem hlt
  refine ⟨_, ?_, .release hphase hcalls hx hok ht hnone hwoken hy⟩
  simp only [Machine.release, result_bind, hok, ok_bind, result_lift]
  change (t.resource r >>= _) = _
  rw [State.resource_eq_ok.2 hy, ok_bind]
  rfl

theorem Steady.exists_stride_closing (hlimit : sc.limit ≤ largestTick) (h : m.Steady sc)
    {wasIdle : Bool} (hphase : m.phase = .closing wasIdle) :
    ∃ m', m.stride P sc.limit = .ok m' ∧ Strides P sc.limit m m' := by
  rw [stride_of_ne_choosing (by simp [hphase]), step, hphase]
  cases hstuck : m.isStuck wasIdle with
  | true =>
    refine ⟨_, ?_, .stick hphase hstuck⟩
    simp only [close, result_bind, result_note, ok_bind]
    change Narrated.result (if m.isStuck wasIdle = true then _ else _) = _
    rw [if_pos hstuck]
    rfl
  | false =>
    have hlt : m.state.tick < sc.limit := h.onTime_of hphase
    have htick : nextTick m.state.tick = .ok (m.state.tick + 1) :=
      if_pos (Nat.lt_of_lt_of_le hlt hlimit)
    refine ⟨_, ?_, .tick hphase hstuck⟩
    simp only [close, result_bind, result_note, ok_bind]
    change Narrated.result (if m.isStuck wasIdle = true then _ else _) = _
    rw [if_neg (by simp [hstuck]), result_bind, result_lift, htick]
    rfl

/-- Until its run is over, a `Steady` machine takes one of the `Strides`. So no step faults, and
whatever is proved by cases on `Strides` is proved of runs. -/
theorem Steady.exists_stride (hsc : sc.Admitted) (hP : P.Lawful) (h : m.Steady sc)
    (hover : ∀ exit, m.phase ≠ .over exit) :
    ∃ m', m.stride P sc.limit = .ok m' ∧ Strides P sc.limit m m' := by
  rcases hphase : m.phase with _ | _ | pid | _ | ⟨prev, next⟩ | ⟨pid, due⟩ | pid | ⟨pid, due⟩ |
    ⟨pid, r, waiters, due⟩ | wasIdle | exit | exit
  · exact exists_stride_boundary P sc.limit hphase
  · exact h.exists_stride_arriving hphase
  · obtain ⟨memory, hok⟩ := hP.arrived m.memory m.state pid
    refine ⟨_, ?_, .announce hphase hok⟩
    rw [stride_of_ne_choosing (by simp [hphase]), step, hphase]
    simp only [result_bind, hok, ok_bind]
    rfl
  · exact h.exists_stride_choosing hsc.sound hP hphase
  · exact (h.fits_of hphase).elim
  · exact h.exists_stride_requesting hsc.sound hP hphase
  · exact h.exists_stride_executing hsc.lifespan_lt hphase
  · exact h.exists_stride_returning hphase
  · exact h.exists_stride_releasing hP hphase
  · exact h.exists_stride_closing hsc.limit_le hphase
  · obtain ⟨memory, hok⟩ := hP.finish m.memory m.state
    refine ⟨_, ?_, .conclude hphase hok⟩
    rw [stride_of_ne_choosing (by simp [hphase]), step, hphase]
    simp only [conclude, result_bind, hok, ok_bind, result_note]
    rfl
  · exact absurd hphase (hover exit)

end Machine

end Uniprocessor
