import Mathlib.Logic.Function.Basic
import Mathlib.Logic.Relation
import Uniprocessor.Proofs.Attendance
import Uniprocessor.Proofs.Restraint

/-!
# The meter of a run

What a run is charged by is little of what the machine keeps: the clock and whether the present tick
has been used up, who is to come, who is live at which age, who is about to execute, and the events
(`Meter`). Under a restrained policy a step changes these in a few ways only, however the policy
answers. Each way is a beat (`Meter.Beat`), and every step is made of beats
(`Machine.beats_of_step`).
-/

namespace Uniprocessor

open Narrated Function

/-- What a run is charged by: all that the accounting of a trace depends on. -/
structure Meter where
  /-- who is live, at which age -/
  vitals : Pid → Option Vitals
  /-- the jobs that have not arrived -/
  arrivals : List Job
  /-- the clock -/
  tick : Nat
  /-- how many turns have been taken in the present tick -/
  taken : Nat
  /-- who is about to execute -/
  chosen? : Option Pid
  /-- what has happened -/
  events : List Event

/-- Who is about to execute in a phase, if somebody has been chosen. -/
def Phase.chosen? : Phase → Option Pid
  | .requesting pid _ | .executing pid => some pid
  | _ => none

/-- What a machine is charged by: its `Meter`. -/
def Machine.meter {σ : Type} (m : Machine σ) : Meter where
  vitals := m.state.vitals?
  arrivals := m.arrivals
  tick := m.state.tick
  taken := m.phase.taken
  chosen? := m.phase.chosen?
  events := m.events.toList

namespace Meter

/-- Something happens in the present tick: one more event, and all else as it is. -/
def record (g : Meter) (what : Happening) : Meter :=
  { g with events := g.events ++ [⟨g.tick, what⟩] }

/-- The ways in which a step changes what a run is charged by. -/
inductive Beat (g : Meter) : Meter → Prop
  /-- a resource is asked for, or given back, or waited for no longer -/
  | deal (what : Happening) (hwhat : what.isOfResource = true) : Beat g (g.record what)
  /-- who was about to execute does not -/
  | drop : Beat g { g with chosen? := none }
  /-- the next job arrives -/
  | arrive {job : Job} {rest : List Job} (harrivals : g.arrivals = job :: rest)
      (hnew : g.vitals job.pid = none) :
      Beat g { g.record (.arrived job.pid) with
        arrivals := rest
        vitals := update g.vitals job.pid (some ⟨job.lifespan, 0⟩) }
  /-- somebody leaves who has executed its lifespan -/
  | leave {pid : Pid} {v : Vitals} (hlive : g.vitals pid = some v) (hspent : v.lifespan ≤ v.age) :
      Beat g { g.record (.left pid) with vitals := update g.vitals pid none }
  /-- nobody is to execute in the present tick -/
  | idle (htaken : g.taken = 0) : Beat g { g.record .idle with taken := 1 }
  /-- somebody is to execute who has not executed its lifespan -/
  | choose {pid : Pid} {v : Vitals} (hlive : g.vitals pid = some v) (hage : v.age < v.lifespan) :
      Beat g { g with chosen? := some pid }
  /-- whoever is about to execute does -/
  | execute {pid : Pid} {v : Vitals} (htaken : g.taken = 0) (hchosen : g.chosen? = some pid)
      (hlive : g.vitals pid = some v) :
      Beat g { g.record (.executed pid) with
        vitals := update g.vitals pid (some { v with age := v.age + 1 })
        taken := 1
        chosen? := none }
  /-- the clock moves -/
  | tick (htaken : g.taken = 1) : Beat g { g with tick := g.tick + 1, taken := 0 }

/-- One `Beat` after the other, or none: what a step of the machine comes to. -/
abbrev Beats : Meter → Meter → Prop := Relation.ReflTransGen Beat

theorem Beats.of_eq {g g' : Meter} (h : g' = g) : Beats g g' := h ▸ .refl

theorem Beats.of_beat {g g' g'' : Meter} (h : Beat g g'') (hg : g' = g'') : Beats g g' :=
  hg ▸ .single h

end Meter

namespace State

variable {s t : State} {pid : Pid} {p : Process}

/-- A newcomer that `enroll` takes in is live, at age zero, and was not live before; the clock
stands still. -/
theorem vitals?_enroll (h : s.enroll p = .ok t) :
    s.vitals? p.pid = none ∧ t.vitals? = update s.vitals? p.pid (some p.vitals) ∧
      t.tick = s.tick := by
  simp only [enroll, bind_eq_ok] at h
  obtain ⟨_, hreq, ready, -, ht⟩ := h
  cases ht
  have hnone : s.process? p.pid = none := require_eq_ok.1 hreq
  refine ⟨by rw [vitals?, hnone]; rfl, funext fun q => ?_, rfl⟩
  have hnew : p.pid ∉ s.procs.map Process.pid := by
    simpa [process?, List.find?_eq_none] using hnone
  have hfind := find?_insertByPid (p := { p with status := .ready }) hnew q
  rw [vitals?, process?, hfind]
  by_cases hq : q = p.pid
  · rw [if_pos hq, hq, update_self]
    rfl
  · rw [if_neg hq, update_of_ne hq]
    rfl

/-- Whoever `dismiss` takes out is live no longer; everybody else is, and at the same age. -/
theorem vitals?_dismiss (h : s.dismiss pid = .ok (p, t)) :
    t.vitals? = update s.vitals? pid none ∧ t.tick = s.tick := by
  simp only [dismiss, bind_eq_ok] at h
  obtain ⟨-, -, -, -, -, -, q, -, ht⟩ := h
  cases ht
  refine ⟨funext fun q => ?_, rfl⟩
  rw [vitals?, process?_filter rfl]
  by_cases hq : q = pid
  · rw [if_pos hq, hq, update_self]
    rfl
  · rw [if_neg hq, update_of_ne hq]
    rfl

/-- Whoever is given an age by `adjust` has it; everybody else keeps theirs. -/
theorem vitals?_adjust_age (h : s.process? pid = some p) (age : Nat) :
    (s.adjust pid fun p => { p with age := age }).vitals? =
      update s.vitals? pid (some { p.vitals with age := age }) := by
  refine funext fun q => ?_
  rw [vitals?, process?_adjust (f := fun p => { p with age := age }) fun _ => rfl]
  by_cases hq : q = pid
  · rw [if_pos hq, hq, h, update_self]
    rfl
  · rw [if_neg hq, update_of_ne hq]
    rfl

end State

namespace Machine

variable {σ : Type} {P : Policy σ} {limit : Nat} {m m' : Machine σ} {pid : Pid}

/-- Whatever a restrained policy answers, nothing is charged for the answer: `Untouched` leaves all
that is metered. -/
theorem meter_answered {t : State} (h : m.state.Untouched t) (memory : σ) {phase : Phase}
    (htaken : phase.taken = m.phase.taken) (hchosen : phase.chosen? = m.phase.chosen?) :
    ({ m with memory := memory, state := t, phase := phase } : Machine σ).meter = m.meter := by
  simp [meter, htaken, hchosen, h.tick, funext h.vitals]

theorem meter_record (m : Machine σ) (what : Happening) :
    (m.record what).meter = m.meter.record what := by
  simp [meter, record, Meter.record]

/-- A machine is charged for its phase only by whether the tick is used up and who is to execute. -/
theorem meter_phase (m : Machine σ) (phase : Phase) :
    ({ m with phase := phase } : Machine σ).meter =
      { m.meter with taken := phase.taken, chosen? := phase.chosen? } := rfl

/-- An arrival is a beat, if the start of the next job has come; otherwise nothing is charged. -/
theorem beats_of_arrive (hphase : m.phase = .arriving) (h : m.arrive.result = .ok m') :
    m.meter.Beats m'.meter := by
  rw [arrive] at h
  split at h
  · cases h
    exact .of_eq (by rw [meter_phase, meter, hphase]; rfl)
  · next job rest harrivals =>
    split at h
    · simp only [result_bind, result_note, result_lift, result_pure, ok_bind, bind_eq_ok] at h
      obtain ⟨t, ht, hm'⟩ := h
      cases hm'
      obtain ⟨hnew, hvitals, htick⟩ := State.vitals?_enroll ht
      refine .of_beat (.arrive harrivals hnew) ?_
      rw [meter_record]
      simp [meter, Meter.record, hvitals, htick, hphase, Process.vitals, Process.fresh,
        Phase.taken, Phase.chosen?]
    · cases h
      exact .of_eq (by rw [meter_phase, meter, hphase]; rfl)

/-- Whoever is installed has not executed its lifespan, since `install` refuses anybody who has. -/
theorem untouched_install {policy : String} {s t : State} {next : Option Pid}
    (h : install policy s next = .ok t) : s.Untouched t ∧
      ∀ pid, next = some pid → ∃ v, t.vitals? pid = some v ∧ v.age < v.lifespan := by
  cases next with
  | none =>
    cases h
    exact ⟨.of_procs_eq rfl rfl, fun _ hpid => by cases hpid⟩
  | some pid =>
    simp only [install, bind_eq_ok] at h
    obtain ⟨p, hp, _, hreq, -, -, u, hu, ht⟩ := h
    cases ht
    have hrun : p.isRunnable = true := require_eq_ok.1 hreq
    have htouch : s.Untouched { u with current := some pid } :=
      (State.Untouched.setStatus s pid .running u hu).trans (.of_procs_eq rfl rfl)
    refine ⟨htouch, fun q hq => ?_⟩
    cases hq
    refine ⟨p.vitals, ?_, ?_⟩
    · rw [htouch.vitals, State.vitals?_of_process? (State.process_eq_ok.1 hp)]
    · have hfin : p.isFinished = false := by
        simp only [Process.isRunnable, Bool.and_eq_true, Bool.not_eq_true'] at hrun
        exact hrun.2
      exact Nat.not_le.1 fun hle => Bool.false_ne_true (hfin ▸ Process.isFinished_iff.2 hle)

/-- Whoever was current leaves by `retire`, which is a beat, or nobody does; the one to execute
stays live. -/
theorem beats_of_retire {prev next : Option Pid} (h : (m.retire prev next).result = .ok m') :
    m.meter.Beats m'.meter ∧ m'.phase = m.phase ∧
      ∀ pid, next = some pid → m'.state.vitals? pid = m.state.vitals? pid := by
  cases prev with
  | none =>
    cases h
    exact ⟨.refl, rfl, fun _ _ => rfl⟩
  | some pid =>
    rw [retire] at h
    split at h
    · cases h
      exact ⟨.refl, rfl, fun _ _ => rfl⟩
    · next hne =>
      simp only [result_bind, result_lift, bind_eq_ok] at h
      obtain ⟨p, hp, h⟩ := h
      split at h
      · next hfin =>
        simp only [result_bind, result_note, result_lift, result_pure, ok_bind, bind_eq_ok] at h
        obtain ⟨⟨q, t⟩, ht, hm'⟩ := h
        cases hm'
        obtain ⟨hvitals, htick⟩ := State.vitals?_dismiss ht
        have hlive := State.vitals?_of_process? (State.process_eq_ok.1 hp)
        refine ⟨.of_beat (.leave hlive (Process.isFinished_iff.1 hfin)) ?_, rfl,
          fun q hq => ?_⟩
        · rw [meter_record]
          simp [meter, Meter.record, hvitals, htick]
        · change t.vitals? q = _
          rw [hvitals, update_of_ne]
          rintro rfl
          exact hne hq
      · cases h
        exact ⟨.refl, rfl, fun _ _ => rfl⟩

/-- The tick is idle, or the run is at its end, or somebody fit for it is to execute: `dispatch`
comes to `Beats` in each case. -/
theorem beats_of_dispatch {next : Option Pid} (htaken : m.phase.taken = 0)
    (hchosen : m.phase.chosen? = none)
    (hfit : ∀ pid, next = some pid → ∃ v, m.state.vitals? pid = some v ∧ v.age < v.lifespan)
    (h : (m.dispatch next).result = .ok m') : m.meter.Beats m'.meter := by
  cases next with
  | none =>
    rw [dispatch] at h
    split at h
    · cases h
      refine .of_eq ?_
      rw [meter_phase, meter, htaken, hchosen]
      rfl
    · cases h
      refine .of_beat (.idle htaken) ?_
      rw [meter_phase, meter_record]
      simp only [meter, Meter.record, hchosen]
      rfl
  | some pid =>
    obtain ⟨v, hv, hage⟩ := hfit pid rfl
    rw [dispatch] at h
    split at h
    · cases h
      refine .of_beat (.choose hv hage) ?_
      rw [meter_phase, meter, htaken]
      rfl
    · simp only [result_bind, result_lift, result_pure, bind_eq_ok] at h
      obtain ⟨p, -, hm'⟩ := h
      cases hm'
      refine .of_beat (.choose hv hage) ?_
      rw [meter_phase, meter, htaken]
      rfl

/-- Carrying a choice out is leaving, or not, and then being idle or about to execute:
`beats_of_retire`, then `beats_of_dispatch`. -/
theorem beats_of_switch {policy : String} {prev next : Option Pid}
    (hphase : m.phase = .switching prev next)
    (h : (m.switch policy prev next).result = .ok m') : m.meter.Beats m'.meter := by
  simp only [switch, result_bind, result_lift, bind_eq_ok] at h
  obtain ⟨t, ht, h⟩ := h
  obtain ⟨m₁, hm₁, hm'⟩ : ∃ m₁, (Machine.retire { m with state := t } prev next).result = .ok m₁ ∧
      (m₁.dispatch next).result = .ok m' := by
    split at h <;> simpa only [result_bind, result_note, ok_bind, bind_eq_ok] using h
  obtain ⟨htouch, hfit⟩ := untouched_install ht
  obtain ⟨hbeats, hstay, hkept⟩ := beats_of_retire hm₁
  rw [meter_answered htouch m.memory rfl rfl] at hbeats
  have hstay : m₁.phase = .switching prev next := hstay.trans hphase
  refine hbeats.trans (beats_of_dispatch (by rw [hstay]; rfl) (by rw [hstay]; rfl) ?_ hm')
  intro pid hpid
  rw [hkept pid hpid]
  exact hfit pid hpid

/-- Asking is a dealing, after which the asker still is to execute or is not, as the policy
answers. -/
theorem beats_of_request (hP : P.Restrained) {due : List Request}
    (hphase : m.phase = .requesting pid due) (h : (m.request P pid due).result = .ok m') :
    m.meter.Beats m'.meter := by
  cases due with
  | nil =>
    cases h
    exact .of_eq (by rw [meter_phase, meter, hphase]; rfl)
  | cons q rest =>
    simp only [request, result_bind, bind_eq_ok] at h
    obtain ⟨⟨memory, t, granted⟩, hacq, h⟩ := h
    have htouch := hP.acquire m.memory m.state q.resource _ hacq
    have hanswer := meter_answered htouch memory rfl rfl
    cases granted with
    | true =>
      cases h
      refine .of_beat (.deal (.acquired pid q.resource) rfl) ?_
      rw [meter_phase, meter_record, ← hanswer, grant]
      split <;> simp [meter, Meter.record, hphase, Phase.taken, Phase.chosen?]
    | false =>
      cases h
      refine .head (.deal (.refused pid q.resource) rfl) ?_
      refine Meter.Beats.of_beat .drop ?_
      rw [meter_phase, meter_record, hanswer]
      simp only [meter, Meter.record, hphase]
      rfl

/-- Whoever is to execute does, which is one beat: it is a tick older, and the tick is used up. -/
theorem beats_of_execute (hphase : m.phase = .executing pid)
    (h : (m.execute pid).result = .ok m') : m.meter.Beats m'.meter := by
  simp only [execute, result_bind, result_lift, result_note, ok_bind, bind_eq_ok] at h
  obtain ⟨p, hp, age, hage, h⟩ := h
  have hage : age = p.age + 1 := by
    rw [nextTick] at hage
    split at hage <;> cases hage
    rfl
  have hp := State.process_eq_ok.1 hp
  have hlive := State.vitals?_of_process? hp
  -- The phase that follows says only what is to be given back.
  have hbeat : ∀ {scripts phase}, phase.taken = 1 → phase.chosen? = none →
      m.meter.Beats ({ m.record (.executed pid) with
        state := m.state.adjust pid fun p => { p with age := age }
        scripts := scripts
        phase := phase } : Machine σ).meter := by
    intro scripts phase htaken hchosen
    refine .of_beat (.execute (by rw [meter, hphase]; rfl) (by rw [meter, hphase]; rfl) hlive) ?_
    have hvitals : (m.state.adjust pid fun p => { p with age := age }).vitals? =
        update m.state.vitals? pid (some { p.vitals with age := p.age + 1 }) :=
      hage ▸ State.vitals?_adjust_age hp age
    simp only [meter, Meter.record, hvitals, htaken, hchosen]
    simp [record, State.adjust, Process.vitals]
  split at h
  · cases h
    exact hbeat rfl rfl
  · simp only [result_bind, result_lift, result_pure, bind_eq_ok] at h
    obtain ⟨⟨expired, script⟩, -, hm'⟩ := h
    cases hm'
    exact hbeat rfl rfl

theorem beats_of_turn {due : List ResourceId} (hphase : m.phase = .returning pid due)
    (h : (m.turn pid due).result = .ok m') : m.meter.Beats m'.meter := by
  cases due with
  | nil =>
    cases h
    exact .of_eq (by rw [meter_phase, meter, hphase]; rfl)
  | cons r rest =>
    simp only [turn, result_bind, result_lift, result_pure, bind_eq_ok] at h
    obtain ⟨x, -, hm'⟩ := h
    cases hm'
    exact .of_eq (by rw [meter_phase, meter, hphase]; rfl)

@[simp] theorem recordWoken_phase (m : Machine σ) (r : ResourceId) (still waiters : Queue) :
    (m.recordWoken r still waiters).phase = m.phase := by
  obtain ⟨events, he⟩ := m.recordWoken_eq r still waiters
  rw [he]

/-- Each of those who are recorded as woken is one beat, and nothing else is charged. -/
theorem beats_recordWoken (m : Machine σ) (r : ResourceId) (still waiters : Queue) :
    m.meter.Beats (m.recordWoken r still waiters).meter := by
  induction waiters generalizing m with
  | nil => exact .refl
  | cons waiter rest ih =>
    rw [recordWoken]
    split
    · exact ih m
    · refine .head (.deal (.woken waiter r) rfl) ?_
      rw [← meter_record]
      exact ih _

/-- Giving back is a dealing, and so is every waking that comes of it, recorded by `recordWoken`. -/
theorem beats_of_release (hP : P.Restrained) {r : ResourceId} {waiters : Queue}
    {due : List ResourceId} (hphase : m.phase = .releasing pid r waiters due)
    (h : (m.release P pid r waiters due).result = .ok m') : m.meter.Beats m'.meter := by
  simp only [release, result_bind, result_lift, result_pure, bind_eq_ok] at h
  obtain ⟨⟨memory, t⟩, hrel, x, -, hm'⟩ := h
  cases hm'
  have hanswer := meter_answered (hP.release m.memory m.state r _ hrel) memory
    (rfl : m.phase.taken = _) rfl
  refine .head (.deal (.released pid r) rfl) ?_
  rw [← hanswer, ← meter_record, meter_phase]
  refine (beats_recordWoken _ r x.waiters waiters).trans (Meter.Beats.of_eq ?_)
  simp only [meter, recordWoken_phase, record, hphase]
  rfl

theorem beats_of_close {idle : Bool} (hphase : m.phase = .closing idle)
    (h : (m.close idle).result = .ok m') : m.meter.Beats m'.meter := by
  simp only [close, result_bind, result_note, ok_bind] at h
  split at h
  · cases h
    exact .of_eq (by rw [meter, meter, hphase]; rfl)
  · simp only [result_bind, result_lift, result_pure, bind_eq_ok] at h
    obtain ⟨tick, htick, hm'⟩ := h
    cases hm'
    rw [nextTick] at htick
    split at htick <;> cases htick
    refine .of_beat (.tick (by rw [meter, hphase]; rfl)) ?_
    rw [meter, meter, hphase]
    rfl

/-- Under a restrained policy every step is made of `Beats`: one lemma for each phase above. -/
theorem beats_of_step (hP : P.Restrained) (h : (m.step P limit).result = .ok m') :
    m.meter.Beats m'.meter := by
  rw [step] at h
  split at h
  · next hphase =>
    cases h
    refine .of_eq ?_
    rw [openTick]
    split <;> rw [meter_phase, meter, hphase] <;> rfl
  · next hphase => exact beats_of_arrive hphase h
  · next pid hphase =>
    simp only [result_bind, result_pure, bind_eq_ok] at h
    obtain ⟨⟨memory, t⟩, ht, hm'⟩ := h
    cases hm'
    exact .of_eq (meter_answered (hP.arrived m.memory m.state pid _ ht) memory
      (by rw [hphase]; rfl) (by rw [hphase]; rfl))
  · next hphase =>
    simp only [result_bind, result_pure, bind_eq_ok] at h
    obtain ⟨⟨memory, t, next⟩, ht, hm'⟩ := h
    cases hm'
    exact .of_eq (meter_answered (hP.choose m.memory m.state _ ht) memory
      (by rw [hphase]; rfl) (by rw [hphase]; rfl))
  · next hphase => exact beats_of_switch hphase h
  · next hphase => exact beats_of_request hP hphase h
  · next hphase => exact beats_of_execute hphase h
  · next hphase => exact beats_of_turn hphase h
  · next hphase => exact beats_of_release hP hphase h
  · next hphase => exact beats_of_close hphase h
  · next exit hphase =>
    simp only [conclude, result_bind, result_note, result_pure, ok_bind, bind_eq_ok] at h
    obtain ⟨⟨memory, t⟩, ht, hm'⟩ := h
    cases hm'
    refine .of_eq (meter_answered (hP.finish m.memory m.state _ ht) memory ?_ ?_)
    · rw [hphase]
      cases exit <;> rfl
    · rw [hphase]
      rfl
  · cases h
    exact .refl

end Machine

end Uniprocessor
