import Uniprocessor.Proofs.Meter
import Uniprocessor.Proofs.Slots

/-!
# What every run is charged

Under a restrained policy, however adverse it is, the machine alone sees to it that events are in
the order of the clock, that every tick before the end has one turn, and that nobody executes beyond
its lifespan or leaves before it is executed (`Trace.Metered`). None of this needs a resource to be
granted fairly, a queue to be kept, or a status to be right.

Every beat of the meter keeps the clock in step with the turns (`Meter.Timed`) and every job in one
of three standings (`Meter.Standing`): still to come, live at the age that the events tell, or gone
with its lifespan executed.
-/

namespace Uniprocessor

open Narrated Function

namespace Meter

variable {sc : Scenario} {g g' : Meter} {pid : Pid} {job : Job} {what : Happening}

/-! ## The clock -/

/-- Events are in the order of the clock, none is ahead of it, and every tick that is over, or has
been used up, has one turn. -/
structure Timed (g : Meter) : Prop where
  /-- ticks never decrease -/
  ordered : g.events.Pairwise fun e later => e.tick ≤ later.tick
  /-- nothing is ahead of the clock -/
  past : ∀ e ∈ g.events, e.tick ≤ g.tick
  /-- the turns are those of the ticks so far -/
  clocked : (Trace.slotsOf g.events).map Prod.fst = List.range (g.tick + g.taken)

namespace Timed

/-- What happens in the present tick comes last, so a `record` leaves the events in order. -/
theorem ordered_record (h : g.Timed) (what : Happening) :
    (g.record what).events.Pairwise fun e later => e.tick ≤ later.tick := by
  refine List.pairwise_append.2 ⟨h.ordered, List.pairwise_singleton .., fun e he later hl => ?_⟩
  rw [List.mem_singleton.1 hl]
  exact h.past e he

theorem past_record (h : g.Timed) (what : Happening) :
    ∀ e ∈ (g.record what).events, e.tick ≤ g.tick := by
  intro e he
  rcases List.mem_append.1 he with he | he
  · exact h.past e he
  · exact Nat.le_of_eq (congrArg Event.tick (List.mem_singleton.1 he))

/-- What is nobody's turn leaves the turns as they were, so the slots are those of the ticks
taken. -/
theorem clocked_record (h : g.Timed) (hturn : what.isTurn = false) :
    (Trace.slotsOf (g.record what).events).map Prod.fst = List.range (g.tick + g.taken) := by
  rw [← h.clocked, record, Trace.slotsOf, List.filterMap_append]
  cases what with
  | executed | idle => cases hturn
  | _ => exact congrArg _ (List.append_nil _)

/-- A turn is that of the present tick, if it has not been used up: one slot more. -/
theorem clocked_turn (h : g.Timed) (htaken : g.taken = 0) (hturn : what.isTurn = true) :
    (Trace.slotsOf (g.record what).events).map Prod.fst = List.range (g.tick + 1) := by
  have hticks := h.clocked
  rw [htaken] at hticks
  rw [List.range_succ, ← Nat.add_zero g.tick, ← hticks, record, Trace.slotsOf,
    List.filterMap_append, List.map_append]
  cases what with
  | executed | idle => rfl
  | _ => cases hturn

/-- Every `Beat` leaves a meter `Timed`: a turn takes the tick, and the clock moves only when it is
taken. -/
theorem beat (h : g.Timed) (hb : g.Beat g') : g'.Timed := by
  cases hb with
  | deal what hwhat =>
    refine ⟨h.ordered_record _, h.past_record _, h.clocked_record ?_⟩
    exact Bool.eq_false_of_not_eq_true fun hturn => by cases what <;> cases hwhat <;> cases hturn
  | drop | choose => exact ⟨h.ordered, h.past, h.clocked⟩
  | arrive | leave => exact ⟨h.ordered_record _, h.past_record _, h.clocked_record rfl⟩
  | idle htaken | execute htaken =>
    exact ⟨h.ordered_record _, h.past_record _, h.clocked_turn htaken rfl⟩
  | tick htaken =>
    refine ⟨h.ordered, fun e he => Nat.le_succ_of_le (h.past e he), ?_⟩
    rw [h.clocked, htaken, Nat.add_zero]

end Timed

/-! ## The processes -/

/-- In how many ticks a process has executed, by the events. -/
def ran (g : Meter) (pid : Pid) : Nat := g.events.countP fun e => e.what = .executed pid

/-- The process has left, by the events. -/
def Gone (g : Meter) (pid : Pid) : Prop := ∃ tick, ⟨tick, .left pid⟩ ∈ g.events

theorem ran_record (g : Meter) (what : Happening) (pid : Pid) :
    (g.record what).ran pid = g.ran pid + if what = .executed pid then 1 else 0 := by
  simp [ran, record, List.countP_append, List.countP_cons]

theorem gone_record : (g.record what).Gone pid ↔ g.Gone pid ∨ what = .left pid := by
  simp only [Gone, record, List.mem_append, List.mem_singleton, Event.mk.injEq, exists_or,
    exists_eq_left, eq_comm]

/-- Nothing is known of the process: it is not live, has not executed, and has not left. -/
structure Unknown (g : Meter) (pid : Pid) : Prop where
  /-- it is not live -/
  vitals : g.vitals pid = none
  /-- it has not executed -/
  ran : g.ran pid = 0
  /-- it has not left -/
  stays : ¬ g.Gone pid

/-- Where a job stands. -/
inductive Standing (g : Meter) (job : Job) : Prop
  /-- it has not arrived -/
  | pending (harrivals : job ∈ g.arrivals) (hunknown : g.Unknown job.pid)
  /-- it is live, has executed as many ticks as its age says, and not more than its lifespan -/
  | live (harrivals : job ∉ g.arrivals)
      (hvitals : g.vitals job.pid = some ⟨job.lifespan, g.ran job.pid⟩)
      (hran : g.ran job.pid ≤ job.lifespan) (hstays : ¬ g.Gone job.pid)
  /-- it has executed its lifespan and left -/
  | gone (harrivals : job ∉ g.arrivals) (hvitals : g.vitals job.pid = none)
      (hran : g.ran job.pid = job.lifespan)

/-- The second meter says of the process what the first one says. -/
structure Agrees (g g' : Meter) (pid : Pid) : Prop where
  /-- it is live as it was -/
  vitals : g'.vitals pid = g.vitals pid
  /-- it has executed as often -/
  ran : g'.ran pid = g.ran pid
  /-- it has left if it had -/
  gone : g'.Gone pid ↔ g.Gone pid

namespace Agrees

theorem refl (g : Meter) (pid : Pid) : g.Agrees g pid := ⟨rfl, rfl, .rfl⟩

/-- What is neither execution nor leaving of the process says nothing of it: the meters agree on
it. -/
theorem record (hvitals : g'.vitals pid = g.vitals pid)
    (hevents : g'.events = (g.record what).events) (hexec : what ≠ .executed pid)
    (hleft : what ≠ .left pid) : g.Agrees g' pid where
  vitals := hvitals
  ran := by
    rw [show g'.ran pid = (g.record what).ran pid by rw [Meter.ran, hevents, Meter.ran], ran_record,
      if_neg hexec, Nat.add_zero]
  gone := by
    rw [show g'.Gone pid ↔ (g.record what).Gone pid by rw [Gone, hevents, Gone], gone_record,
      or_iff_left hleft]

theorem unknown (h : g.Agrees g' pid) (hg : g.Unknown pid) : g'.Unknown pid :=
  ⟨h.vitals.trans hg.vitals, h.ran.trans hg.ran, fun hgone => hg.stays (h.gone.1 hgone)⟩

/-- A job keeps its `Standing` if nothing is said of it and it is to come as before. -/
theorem standing (h : g.Agrees g' job.pid) (harrivals : job ∈ g'.arrivals ↔ job ∈ g.arrivals)
    (hg : g.Standing job) : g'.Standing job := by
  cases hg with
  | pending hpend hunknown => exact .pending (harrivals.2 hpend) (h.unknown hunknown)
  | live hpend hvitals hran hstays =>
    refine .live (fun hm => hpend (harrivals.1 hm)) ?_ ?_ fun hgone => hstays (h.gone.1 hgone)
    · rw [h.vitals, h.ran, hvitals]
    · rw [h.ran]
      exact hran
  | gone hpend hvitals hran =>
    exact .gone (fun hm => hpend (harrivals.1 hm)) (h.vitals.trans hvitals) (h.ran.trans hran)

end Agrees

/-- Every job has a standing, nothing is known of anybody else, and whoever is about to execute has
not executed its lifespan. -/
structure Accounted (sc : Scenario) (g : Meter) : Prop where
  /-- every job has a standing -/
  standing : ∀ job ∈ sc.jobs, g.Standing job
  /-- nothing is known of anybody else -/
  strangers : ∀ pid, pid ∉ sc.jobs.map Job.pid → g.Unknown pid
  /-- those who are to come are jobs -/
  listed : ∀ job ∈ g.arrivals, job ∈ sc.jobs
  /-- nobody is to come twice -/
  nodup : g.arrivals.Nodup
  /-- whoever is about to execute has not executed its lifespan -/
  fit : ∀ pid, g.chosen? = some pid → ∃ v, g.vitals pid = some v ∧ v.age < v.lifespan

namespace Accounted

/-- A live process is that of a job of the scenario: nothing is known of anybody else, as the meter
is `Accounted`. -/
theorem exists_job (h : g.Accounted sc) {v : Vitals} (hlive : g.vitals pid = some v) :
    ∃ job ∈ sc.jobs, job.pid = pid := by
  by_contra hnone
  have hpid : pid ∉ sc.jobs.map Job.pid := fun hm => hnone (List.mem_map.1 hm)
  rw [(h.strangers pid hpid).vitals] at hlive
  cases hlive

/-- The age of a live process is the number of ticks that it has executed, which is at most its
lifespan; it has arrived, and has not left. -/
theorem vitals_eq (h : g.Accounted sc) (hjob : job ∈ sc.jobs) {v : Vitals}
    (hlive : g.vitals job.pid = some v) : v = ⟨job.lifespan, g.ran job.pid⟩ ∧
      job ∉ g.arrivals ∧ g.ran job.pid ≤ job.lifespan ∧ ¬ g.Gone job.pid := by
  cases h.standing job hjob with
  | pending _ hunknown =>
    rw [hunknown.vitals] at hlive
    cases hlive
  | live hpend hvitals hran hstays =>
    rw [hvitals] at hlive
    cases hlive
    exact ⟨rfl, hpend, hran, hstays⟩
  | gone _ hvitals =>
    rw [hvitals] at hlive
    cases hlive

/-- Nothing is lost where nothing is said of anybody and nobody arrives: a meter stays
`Accounted`. -/
theorem keep (h : g.Accounted sc) (hagrees : ∀ pid, g.Agrees g' pid)
    (harrivals : g'.arrivals = g.arrivals)
    (hfit : ∀ pid, g'.chosen? = some pid → ∃ v, g'.vitals pid = some v ∧ v.age < v.lifespan) :
    g'.Accounted sc where
  standing job hjob := (hagrees job.pid).standing (by rw [harrivals]) (h.standing job hjob)
  strangers pid hpid := (hagrees pid).unknown (h.strangers pid hpid)
  listed := harrivals ▸ h.listed
  nodup := harrivals ▸ h.nodup
  fit := hfit

/-- Where something is said of one job only, only the `Standing` of this job need be looked at. -/
theorem change (h : g.Accounted sc) (hsc : (sc.jobs.map Job.pid).Nodup) (hjob : job ∈ sc.jobs)
    (hagrees : ∀ pid, pid ≠ job.pid → g.Agrees g' pid) (hstanding : g'.Standing job)
    (harrivals : g'.arrivals = g.arrivals)
    (hfit : ∀ pid, g'.chosen? = some pid → ∃ v, g'.vitals pid = some v ∧ v.age < v.lifespan) :
    g'.Accounted sc where
  standing other hother := by
    by_cases hpid : other.pid = job.pid
    · rw [List.inj_on_of_nodup_map hsc hother hjob hpid]
      exact hstanding
    · exact (hagrees _ hpid).standing (by rw [harrivals]) (h.standing other hother)
  strangers pid hpid :=
    (hagrees pid fun he => hpid (he ▸ List.mem_map_of_mem hjob)).unknown (h.strangers pid hpid)
  listed := harrivals ▸ h.listed
  nodup := harrivals ▸ h.nodup
  fit := hfit

/-- A job that is to come is `Unknown`: no event speaks of it. -/
theorem unknown_of_arrivals (h : g.Accounted sc) (hjob : job ∈ g.arrivals) : g.Unknown job.pid := by
  cases h.standing job (h.listed job hjob) with
  | pending _ hunknown => exact hunknown
  | live hpend => exact absurd hjob hpend
  | gone hpend => exact absurd hjob hpend

/-- Whoever arrives is live at age zero, and is to come no longer: an arrival leaves a meter
`Accounted`. -/
theorem arrive (h : g.Accounted sc) (hsc : (sc.jobs.map Job.pid).Nodup) {rest : List Job}
    (harrivals : g.arrivals = job :: rest) :
    Accounted sc { g.record (.arrived job.pid) with
      arrivals := rest
      vitals := update g.vitals job.pid (some ⟨job.lifespan, 0⟩) } := by
  have hmem : job ∈ g.arrivals := harrivals ▸ List.mem_cons_self ..
  have hunknown := h.unknown_of_arrivals hmem
  obtain ⟨hnew, hnodup⟩ := List.nodup_cons.1 (harrivals ▸ h.nodup)
  have hagrees : ∀ pid, pid ≠ job.pid → g.Agrees { g.record (.arrived job.pid) with
      arrivals := rest
      vitals := update g.vitals job.pid (some ⟨job.lifespan, 0⟩) } pid := fun pid hpid =>
    .record (update_of_ne hpid ..) rfl Happening.noConfusion Happening.noConfusion
  have hran : ran { g.record (.arrived job.pid) with
      arrivals := rest
      vitals := update g.vitals job.pid (some ⟨job.lifespan, 0⟩) } job.pid = 0 := by
    refine (ran_record g _ _).trans ?_
    rw [hunknown.ran, if_neg Happening.noConfusion]
  refine ⟨fun other hother => ?_, fun pid hpid => ?_, fun other hm => ?_, hnodup, fun pid hc => ?_⟩
  · by_cases hpid : other.pid = job.pid
    · rw [List.inj_on_of_nodup_map hsc hother (h.listed job hmem) hpid]
      refine .live hnew ((update_self ..).trans (by rw [hran])) (hran.le.trans (Nat.zero_le _)) ?_
      refine fun hgone => hunknown.stays ?_
      exact (gone_record.1 hgone).resolve_right Happening.noConfusion
    · refine (hagrees _ hpid).standing ?_ (h.standing other hother)
      rw [harrivals, List.mem_cons, or_iff_right fun he => hpid (congrArg Job.pid he)]
  · refine (hagrees pid fun he => hpid ?_).unknown (h.strangers pid hpid)
    exact he ▸ List.mem_map_of_mem (h.listed job hmem)
  · exact h.listed other (harrivals ▸ List.mem_cons_of_mem _ hm)
  · obtain ⟨v, hv, hage⟩ := h.fit pid hc
    refine ⟨v, (update_of_ne ?_ ..).trans hv, hage⟩
    rintro rfl
    rw [hunknown.vitals] at hv
    cases hv

/-- Whoever leaves has executed its lifespan, and is `Gone`: a departure leaves a meter
`Accounted`. -/
theorem leave (h : g.Accounted sc) (hsc : (sc.jobs.map Job.pid).Nodup) {v : Vitals}
    (hlive : g.vitals pid = some v) (hspent : v.lifespan ≤ v.age) :
    Accounted sc { g.record (.left pid) with vitals := update g.vitals pid none } := by
  obtain ⟨job, hjob, rfl⟩ := h.exists_job hlive
  obtain ⟨rfl, hpend, hran, -⟩ := h.vitals_eq hjob hlive
  refine h.change hsc hjob (fun pid hpid => .record (update_of_ne hpid ..) rfl
    Happening.noConfusion fun he => hpid (Happening.left.inj he).symm) ?_ rfl fun pid hc => ?_
  · refine .gone hpend (update_self ..) ((ran_record g _ _).trans ?_)
    rw [if_neg Happening.noConfusion]
    exact Nat.le_antisymm hran hspent
  · obtain ⟨w, hw, hage⟩ := h.fit pid hc
    refine ⟨w, (update_of_ne ?_ ..).trans hw, hage⟩
    rintro rfl
    rw [hlive] at hw
    cases hw
    exact Nat.not_lt.2 hspent hage

/-- Whoever executes is one tick older, and not beyond its lifespan: an executed tick leaves a meter
`Accounted`. -/
theorem execute (h : g.Accounted sc) (hsc : (sc.jobs.map Job.pid).Nodup) {v : Vitals}
    (hchosen : g.chosen? = some pid) (hlive : g.vitals pid = some v) :
    Accounted sc { g.record (.executed pid) with
      vitals := update g.vitals pid (some { v with age := v.age + 1 })
      taken := 1
      chosen? := none } := by
  obtain ⟨job, hjob, rfl⟩ := h.exists_job hlive
  obtain ⟨rfl, hpend, -, hstays⟩ := h.vitals_eq hjob hlive
  obtain ⟨w, hw, hage⟩ := h.fit _ hchosen
  rw [hlive] at hw
  cases hw
  refine h.change hsc hjob (fun pid hpid => .record (update_of_ne hpid ..) rfl
    (fun he => hpid (Happening.executed.inj he).symm) Happening.noConfusion) ?_ rfl
    fun _ hc => by cases hc
  have hran : ran { g.record (.executed job.pid) with
      vitals := update g.vitals job.pid (some ⟨job.lifespan, g.ran job.pid + 1⟩)
      taken := 1
      chosen? := none } job.pid = g.ran job.pid + 1 := by
    refine (ran_record g _ _).trans ?_
    rw [if_pos rfl]
  refine .live hpend ((update_self ..).trans (by rw [hran])) (hran.le.trans hage) ?_
  exact fun hgone => hstays ((gone_record.1 hgone).resolve_right Happening.noConfusion)

/-- Every `Beat` leaves a meter `Accounted`: the three steps above, and those that say nothing of
anybody. -/
theorem beat (h : g.Accounted sc) (hsc : (sc.jobs.map Job.pid).Nodup) (hb : g.Beat g') :
    g'.Accounted sc := by
  cases hb with
  | deal what hwhat =>
    refine h.keep (fun pid => .record rfl rfl ?_ ?_) rfl h.fit <;> rintro rfl <;> cases hwhat
  | drop => exact h.keep (fun pid => ⟨rfl, rfl, .rfl⟩) rfl fun _ hc => by cases hc
  | arrive harrivals => exact h.arrive hsc harrivals
  | leave hlive hspent => exact h.leave hsc hlive hspent
  | idle =>
    exact h.keep (fun pid => .record rfl rfl Happening.noConfusion Happening.noConfusion) rfl h.fit
  | choose hlive hage =>
    refine h.keep (fun pid => ⟨rfl, rfl, .rfl⟩) rfl fun pid hc => ?_
    cases hc
    exact ⟨_, hlive, hage⟩
  | execute _ hchosen hlive => exact h.execute hsc hchosen hlive
  | tick => exact h.keep (fun pid => ⟨rfl, rfl, .rfl⟩) rfl h.fit

end Accounted

/-- What every `Beat` keeps is kept by `Beats`, by induction on them. -/
theorem Beats.invariant {I : Meter → Prop} (hbeat : ∀ {g g'}, I g → Beat g g' → I g') (hg : I g)
    (h : Beats g g') : I g' := by
  induction h with
  | refl => exact hg
  | tail _ hb ih => exact hbeat ih hb

end Meter

/-! ## Runs -/

section Runs

variable {σ : Type} {sc : Scenario} {P : Policy σ} {memory : σ} {m : Machine σ}

/-- A `Restrained` policy leaves the meter before the first tick as it was. -/
theorem Scenario.meter_of_prepare (hP : P.Restrained)
    (h : (sc.prepare P memory).result = .ok (.ok m)) :
    m.meter = (Machine.initial sc memory).meter := by
  simp only [prepare, result_bind, bind_eq_ok] at h
  obtain ⟨answer, hanswer, h⟩ := h
  cases answer with
  | error e => cases h
  | ok answer =>
    cases h
    exact Machine.meter_answered (hP.setup _ _ _ hanswer _ _ rfl) _ rfl rfl

/-- The numbers of the jobs of a scenario that `build` made are not repeated. -/
theorem Draft.pids_nodup_of_build {d : Draft} (h : d.build = .ok sc) :
    (sc.jobs.map Job.pid).Nodup := by
  simp only [build, check_bind_eq_ok, demand_eq_ok, checkJobs_eq_ok] at h
  obtain ⟨-, -, ⟨-, hnodup, -⟩, hsc⟩ := h
  cases hsc
  exact hnodup

/-- However a `Restrained` policy answers, the clock is in step with the turns, and the account of
every process is right: the two invariants at every machine that is reached. -/
theorem Scenario.Reaches.charged (hP : P.Restrained) (hsc : (sc.jobs.map Job.pid).Nodup)
    (h : sc.Reaches P memory m) : m.meter.Timed ∧ m.meter.Accounted sc := by
  induction h with
  | start h =>
    have horder := List.mergeSort_perm sc.jobs fun a b => decide (a.start ≤ b.start)
    have hunknown : ∀ pid, (Machine.initial sc memory).meter.Unknown pid := fun pid =>
      ⟨rfl, rfl, fun ⟨_, hm⟩ => absurd hm List.not_mem_nil⟩
    rw [sc.meter_of_prepare hP h]
    refine ⟨⟨.nil, fun _ he => absurd he List.not_mem_nil, rfl⟩, ?_, fun pid _ => hunknown pid,
      fun job hjob => horder.mem_iff.1 hjob, ?_, fun _ hc => by cases hc⟩
    · exact fun job hjob => .pending (horder.mem_iff.2 hjob) (hunknown job.pid)
    · exact horder.nodup_iff.2 (List.Nodup.of_map _ hsc)
  | step _ hstep ih =>
    exact Meter.Beats.invariant (I := fun g => g.Timed ∧ g.Accounted sc)
      (fun h hb => ⟨h.1.beat hb, h.2.beat hsc hb⟩) ih (Machine.beats_of_step hP hstep)

end Runs

/-! ## Traces -/

namespace Trace

variable {events : List Event}

/-- The slots tell the turns, in the order of the events: `slotsOf` is `turn?` with the ticks. -/
theorem map_snd_slotsOf (events : List Event) :
    (slotsOf events).map Prod.snd = events.filterMap Event.turn? := by
  rw [slotsOf, List.map_filterMap]
  refine List.filterMap_congr fun e _ => ?_
  rw [Event.slot?, Option.map_map]
  exact Option.map_id'

/-- The slots of a tick tell the turns that were taken in it, and no others. -/
theorem filter_slotsOf (events : List Event) (tick : Nat) :
    ((slotsOf events).filter fun slot => slot.1 = tick) =
      slotsOf (events.filter fun e => e.tick = tick) := by
  rw [slotsOf, List.filter_filterMap, slotsOf, List.filterMap_filter]
  refine List.filterMap_congr fun e _ => ?_
  rw [Event.slot?]
  cases e.turn? with
  | none => by_cases htick : e.tick = tick <;> simp [htick]
  | some who => by_cases htick : e.tick = tick <;> simp [htick]

end Trace

/-- A list that is numbered from some number on has at each number what stands there, and nothing
else. -/
theorem filter_of_range' {α : Type} {l : List (Nat × α)} {k : Nat}
    (h : l.map Prod.fst = List.range' k l.length) (i : Nat) :
    (l.filter fun x => x.1 = k + i) = l[i]?.toList := by
  induction l generalizing k i with
  | nil => rfl
  | cons x rest ih =>
    rw [List.map_cons, List.length_cons, List.range'_succ, List.cons.injEq] at h
    obtain ⟨hx, hrest⟩ := h
    cases i with
    | zero =>
      -- Those behind it have larger numbers.
      have hnone : (rest.filter fun x => x.1 = k + 0) = [] := by
        rw [List.filter_eq_nil_iff]
        intro y hy
        have hmem := List.mem_map_of_mem (f := Prod.fst) hy
        rw [hrest, List.mem_range'_1] at hmem
        rw [decide_eq_true_eq]
        omega
      rw [List.filter_cons_of_pos (by simpa using hx), hnone]
      rfl
    | succ i =>
      have hnext := ih hrest i
      rw [List.filter_cons_of_neg (by rw [decide_eq_true_eq]; omega), List.getElem?_cons_succ,
        ← hnext]
      refine List.filter_congr fun y _ => ?_
      rw [Nat.add_assoc, Nat.add_comm 1]

/-- A trace charges every tick once, and every process for at most its lifespan. -/
structure Trace.Metered (sc : Scenario) (t : Trace) : Prop where
  /-- ticks never decrease -/
  ordered : t.events.Pairwise fun e later => e.tick ≤ later.tick
  /-- whose turn a tick is, only one event of it tells -/
  turn_of : ∀ tick, (t.events.filter fun e => e.tick = tick).filterMap Event.turn? =
    t.turns[tick]?.toList
  /-- every tick before the end has a turn, and so has the end itself in a deadlock -/
  length : t.turns.length = t.endTick + if t.exit = .deadlock then 1 else 0
  /-- nobody executes beyond its lifespan -/
  within : ∀ job ∈ sc.jobs, t.ranCount job.pid ≤ job.lifespan
  /-- whoever leaves has executed its lifespan -/
  spent : ∀ job ∈ sc.jobs, ∀ tick, ⟨tick, .left job.pid⟩ ∈ t.events →
    t.ranCount job.pid = job.lifespan
  /-- nobody else executes or leaves -/
  strangers : ∀ pid, pid ∉ sc.jobs.map Job.pid → t.ranCount pid = 0 ∧
    ∀ tick, ⟨tick, .left pid⟩ ∉ t.events

/-- A meter that is `Timed` tells whose turn a tick is: the one turn recorded in it, if it has been
taken. -/
theorem Meter.Timed.turn_of {g : Meter} (h : g.Timed) (tick : Nat) :
    (g.events.filter fun e => e.tick = tick).filterMap Event.turn? =
      (g.events.filterMap Event.turn?)[tick]?.toList := by
  have hlength : (Trace.slotsOf g.events).length = g.tick + g.taken := by
    rw [← List.length_map Prod.fst, h.clocked, List.length_range]
  have hat := filter_of_range' (l := Trace.slotsOf g.events) (k := 0)
    (by rw [h.clocked, hlength, List.range_eq_range']) tick
  rw [Nat.zero_add] at hat
  rw [← Trace.map_snd_slotsOf, ← Trace.filter_slotsOf, hat, ← Trace.map_snd_slotsOf,
    List.getElem?_map]
  cases (Trace.slotsOf g.events)[tick]? <;> rfl

/-- Whatever the policy, **every tick is charged once**: under a policy that is `Restrained`,
whatever else it does, every run that has a trace charges every tick once and every process for at
most its lifespan: the trace is `Trace.Metered`. -/
theorem Scenario.metered {σ : Type} {sc : Scenario} {P : Policy σ} (hP : P.Restrained)
    (hsc : ∃ d : Draft, d.build = .ok sc) (memory : σ) {fuel : Nat} {t : Trace}
    (ht : (sc.run P memory fuel).trace? = some t) : t.Metered sc := by
  obtain ⟨d, hd⟩ := hsc
  obtain ⟨m, hreach, hphase, hevents, htick⟩ := reaches_of_trace? ht
  have hnodup := Draft.pids_nodup_of_build hd
  obtain ⟨htimed, hacc⟩ := hreach.charged hP hnodup
  have hgauge : m.meter.events = t.events := hevents
  have hran : ∀ pid, m.meter.ran pid = t.ranCount pid := fun pid => by
    rw [Meter.ran, hgauge, Trace.ranCount]
  refine ⟨hgauge ▸ htimed.ordered, fun tick => ?_, ?_, fun job hjob => ?_,
    fun job hjob tick hleft => ?_, fun pid hpid => ?_⟩
  · have hturn := htimed.turn_of tick
    rw [hgauge] at hturn
    exact hturn
  · have hlength := congrArg List.length htimed.clocked
    rw [List.length_map, List.length_range] at hlength
    rw [Trace.turns, ← Trace.map_snd_slotsOf, List.length_map, ← hgauge, hlength, ← htick]
    change m.state.tick + m.phase.taken = _
    rw [hphase]
    cases t.exit <;> rfl
  · rw [← hran]
    cases hacc.standing job hjob with
    | pending _ hunknown => exact hunknown.ran.le.trans (Nat.zero_le _)
    | live _ _ hle => exact hle
    | gone _ _ heq => exact heq.le
  · rw [← hran]
    have hgone : m.meter.Gone job.pid := ⟨tick, hgauge ▸ hleft⟩
    cases hacc.standing job hjob with
    | pending _ hunknown => exact absurd hgone hunknown.stays
    | live _ _ _ hstays => exact absurd hgone hstays
    | gone _ _ heq => exact heq
  · have hunknown := hacc.strangers pid hpid
    rw [← hran]
    exact ⟨hunknown.ran, fun tick hleft => hunknown.stays ⟨tick, hgauge ▸ hleft⟩⟩

/-- A policy that lets the ready processes take turns and grants whatever is asked for, even what
somebody else has. -/
def Policy.lavish : Policy Unit where
  name := "lavish"
  choose memory s := return (memory, (← s.yieldTail).takeHead)
  acquire memory s _ := return (memory, s, true)
  release memory s _ := return (memory, s)

theorem Policy.lavish_restrained : Policy.lavish.Restrained where
  setup _ s := .ok fun _ _ h => by
    cases h
    exact .refl s
  finish _ s := .ok (.refl s)
  choose _ s := by
    simp only [lavish, result_bind]
    exact .bind (State.Untouched.yieldTail s) fun t ht => .ok (ht.trans (.takeHead t))
  acquire _ s _ := .ok (.refl s)
  release _ s _ := .ok (.refl s)
  arrived _ s _ := .ok (.refl s)

/-- A run that went to its end has a trace: the events of its last machine, the exit and the
tick. -/
theorem Run.trace?_of_ended {σ : Type} {r : Run σ} {exit : Exit} (h : r.outcome = .ended exit) :
    r.trace? = some ⟨r.machine.events.toList, exit, r.machine.state.tick⟩ := by
  rw [Run.trace?, h]

/-- If the jobs are listed by start, a run starts from the machine to which they come as listed:
sorting them changes nothing. -/
theorem Scenario.exists_run_of_sorted {σ : Type} {sc : Scenario} {P : Policy σ} {memory : σ}
    (fuel : Nat) (hjobs : sc.jobs.Pairwise fun a b => a.start ≤ b.start)
    (hsetup : (P.setup memory (Machine.initial sc memory).state).result =
      .ok (.ok (memory, (Machine.initial sc memory).state))) :
    ∃ log, sc.run P memory fuel =
      ({ Machine.initial sc memory with arrivals := sc.jobs } : Machine σ).run P sc.limit fuel
        log := by
  rw [run, prepare_of_ok hsetup]
  exact ⟨_, congrArg (Machine.run P sc.limit fuel · _) (Machine.initial_of_sorted hjobs)⟩

/-- Two processes that the lavish policy lets have the same resource at the same time are charged
for three ticks each, in turn, and leave. -/
theorem Scenario.metered_lavish : ∃ t, (crossed.run Policy.lavish () 80).trace? = some t ∧
    t.Metered crossed ∧ t.exit = .normal ∧ t.turns.length = 6 ∧
    (t.events.filter fun e => e.tick = 2).filterMap Event.turn? = [some 1] ∧
    t.ranCount 2 = 3 := by
  obtain ⟨log, hrun⟩ : ∃ log, crossed.run Policy.lavish () 80 = Machine.run _ _ _ _ log :=
    exists_run_of_sorted 80 (by decide) rfl
  have ht := (congrArg Run.trace? hrun).trans
    (Run.trace?_of_ended (rfl : _ = Outcome.ended .normal))
  have hmet := metered Policy.lavish_restrained admitted_crossed.built () ht
  exact ⟨_, ht, hmet, rfl, hmet.length.trans rfl, (hmet.turn_of 2).trans rfl,
    hmet.spent ⟨2, 1, 3, 9, [⟨1, 0, 3⟩, ⟨0, 1, 1⟩]⟩ (by decide) 6
      (List.mem_of_getElem? (i := 17) rfl)⟩

end Uniprocessor
