import Mathlib.Data.Set.Finite.List
import Uniprocessor.Proofs.Names
import Uniprocessor.Proofs.Safety
import Uniprocessor.Proofs.Validity

/-!
# Names do not matter

A scenario whose processes and resources get other names has the same runs, under the other names
(`Scenario.Admitted.same_under_other_names`): which of several processes or resources comes first is
never decided by a number, only by the order in which they were listed, queued or asked for.

Other names are given to the processes of a scenario and to the resources of its table, and extended
to all numbers here. What the extension makes of other numbers makes no difference, since a run is
only about the names of its scenario (`Reaches.mentions`).
-/

namespace Uniprocessor

variable {σ : Type} {ρ : Renaming}

/-! ## The names of a scenario -/

/-- The resource that was asked for, given back or waited for, if what happened is about one. -/
def Happening.resource? : Happening → Option ResourceId
  | .acquired _ r | .refused _ r | .released _ r | .woken _ r => some r
  | _ => none

/-- A run is about the processes and the resources of its scenario: no other number occurs in its
history. -/
theorem Scenario.Reaches.mentions {P : Policy σ} {sc : Scenario} {memory : σ} {m : Machine σ}
    (hsc : sc.Admitted) (hP : P.Lawful) (h : sc.Reaches P memory m)
    (hm : m.phase.isSwitching = false) {e : Happening} (he : e ∈ m.history) :
    (∀ pid, e.pid? = some pid → pid ∈ sc.jobs.map Job.pid) ∧
      ∀ r, e.resource? = some r → r < sc.resourceCount := by
  constructor
  · intro pid hpid
    obtain ⟨hchron, henr, -⟩ := h.chronicled hsc hP hm
    obtain ⟨job, hjob, rfl⟩ := henr.listed (hchron.heard he hpid)
    exact List.mem_map_of_mem hjob
  · refine h.invariant (I := fun m => ∀ e ∈ m.history, ∀ r, e.resource? = some r →
      r < sc.resourceCount) hsc hP (fun memory e he => absurd he List.not_mem_nil) ?_ hm e he
    intro m m' hm hI hstr e he r hr
    -- Whoever asks for a resource or gives it back finds its entry in the table.
    have hlt : ∀ {pid : Pid} {q : ResourceId} {x : Resource}, m.state.Calls pid q x →
        q < sc.resourceCount := fun hcalls => by
      rw [← hm.stage.length_resources]
      exact (List.getElem?_eq_some_iff.1 hcalls.entry).1
    have append : ∀ later, m'.history = m.history ++ later →
        (∀ e ∈ later, ∀ q, e.resource? = some q → q < sc.resourceCount) → r < sc.resourceCount := by
      intro later hhistory hlater
      rw [hhistory] at he
      exact (List.mem_append.1 he).elim (fun he => hI e he r hr) fun he => hlater e he r hr
    cases hm.episode hstr with
    | quiet _ _ _ _ _ hhistory => exact hI e (hhistory ▸ he) r hr
    | arrive _ _ _ _ _ hhistory => exact append _ hhistory (by simp [Happening.resource?])
    | choose _ _ _ _ _ _ _ hidle hhistory =>
      refine append _ hhistory ?_
      rcases hidle with rfl | ⟨-, rfl⟩ <;>
        simp +contextual [or_imp, Happening.resource?]
    | grant _ _ _ _ hcalls _ _ _ _ _ hhistory =>
      exact append _ hhistory (by simpa [Happening.resource?] using hlt hcalls)
    | refuse _ hcalls _ _ _ _ _ _ hhistory =>
      exact append _ hhistory (by simpa [Happening.resource?] using hlt hcalls)
    | execute _ _ _ _ _ _ _ _ _ _ hhistory =>
      exact append _ hhistory (by simp [Happening.resource?])
    | release _ hcalls _ _ _ _ _ _ _ hhistory =>
      refine append _ hhistory ?_
      have hlt := hlt hcalls
      simp [Happening.resource?, hlt]

namespace Renaming

/-- Different processes of the scenario get different names, and the resources of its table get each
other's names. -/
structure Suits (ρ : Renaming) (sc : Scenario) : Prop where
  /-- the processes are told apart by their new names -/
  pids : Set.InjOn ρ.pid {pid | pid ∈ sc.jobs.map Job.pid}
  /-- the new names of the resources are the old ones in another order -/
  resources : Set.BijOn ρ.resource (Set.Iio sc.resourceCount) (Set.Iio sc.resourceCount)

variable {sc : Scenario}

/-- Other names for a scenario are part of other names for everything: a renaming that is `Total`
agrees with them on the scenario. -/
theorem Suits.exists_total (h : ρ.Suits sc) : ∃ ρ' : Renaming, ρ'.Total ∧
    (∀ pid ∈ sc.jobs.map Job.pid, ρ'.pid pid = ρ.pid pid) ∧
    (∀ r < sc.resourceCount, ρ'.resource r = ρ.resource r) ∧
    ∀ r, ρ'.resource r < sc.resourceCount ↔ r < sc.resourceCount := by
  -- Numbers that name no process of the scenario are moved past all new names.
  obtain ⟨top, htop⟩ := (List.finite_toSet ((sc.jobs.map Job.pid).map ρ.pid)).bddAbove
  have hpast : ∀ pid ∈ sc.jobs.map Job.pid, ∀ other : Pid, ρ.pid pid < top + 1 + other :=
    fun pid hpid other =>
      Nat.lt_add_right other (Nat.lt_succ_of_le (htop (List.mem_map_of_mem hpid)))
  have hmaps : ∀ r < sc.resourceCount, ρ.resource r < sc.resourceCount := h.resources.mapsTo
  refine ⟨{
    pid := fun pid => if pid ∈ sc.jobs.map Job.pid then ρ.pid pid else top + 1 + pid
    resource := fun r => if r < sc.resourceCount then ρ.resource r else r },
    ⟨?_, ?_, ?_⟩, ?_, ?_, ?_⟩
  · intro p q hpq
    dsimp only at hpq
    split at hpq <;> split at hpq
    · next hp hq => exact h.pids hp hq hpq
    · next hp hq => exact absurd hpq (hpast p hp q).ne
    · next hp hq => exact absurd hpq (hpast q hq p).ne'
    · exact Nat.add_left_cancel hpq
  · intro r q hrq
    dsimp only at hrq
    split at hrq <;> split at hrq
    · next hr hq => exact h.resources.injOn hr hq hrq
    · next hr hq => exact absurd (hrq ▸ hmaps r hr) hq
    · next hr hq => exact absurd (hrq ▸ hmaps q hq) hr
    · exact hrq
  · intro r
    by_cases hr : r < sc.resourceCount
    · obtain ⟨q, hq, hqr⟩ := h.resources.surjOn hr
      exact ⟨q, (if_pos hq).trans hqr⟩
    · exact ⟨r, if_neg hr⟩
  · exact fun pid hpid => if_pos hpid
  · exact fun r hr => if_pos hr
  · intro r
    dsimp only
    split
    · next hr => exact iff_of_true (hmaps r hr) hr
    · rfl

/-- Renamings that are alike for the number of a job and for the resources of its requests are alike
for the job. -/
theorem job_congr {ρ' : Renaming} {job : Job} (hpid : ρ'.pid job.pid = ρ.pid job.pid)
    (hresource : ∀ q ∈ job.requests, ρ'.resource q.resource = ρ.resource q.resource) :
    ρ'.job job = ρ.job job := by
  have hrequests : job.requests.map ρ'.request = job.requests.map ρ.request :=
    List.map_congr_left fun q hq => congrArg (fun r => { q with resource := r }) (hresource q hq)
  rw [Renaming.job, Renaming.job, hpid, hrequests]

theorem happening_congr {ρ' : Renaming} {e : Happening}
    (hpid : ∀ pid, e.pid? = some pid → ρ'.pid pid = ρ.pid pid)
    (hresource : ∀ r, e.resource? = some r → ρ'.resource r = ρ.resource r) :
    ρ'.happening e = ρ.happening e := by
  cases e <;> simp_all [happening, Happening.pid?, Happening.resource?]

/-- A sound job is sound under other names: the checks compare resources with each other only, and
with the length of the table. -/
theorem Suits.sound (h : ρ.Suits sc) {job : Job} (hjob : job.Sound sc.resourceCount sc.ceiling) :
    (ρ.job job).Sound sc.resourceCount sc.ceiling where
  lifespan_pos := hjob.lifespan_pos
  prio_le := hjob.prio_le
  requests q' hq' := by
    obtain ⟨q, hq, rfl⟩ := List.mem_map.1 hq'
    obtain ⟨hlt, hpos, hwithin⟩ := hjob.requests q hq
    exact ⟨h.resources.mapsTo hlt, hpos, hwithin⟩
  apart := by
    refine List.pairwise_map.2 (hjob.apart.imp_of_mem fun hq hother hapart heq => ?_)
    exact hapart (h.resources.injOn (hjob.requests _ hq).resource_lt
      (hjob.requests _ hother).resource_lt heq)

/-- A scenario that is admitted is admitted under other names, since each of its jobs stays sound
and no number is repeated. -/
theorem Suits.admitted (h : ρ.Suits sc) (hsc : sc.Admitted) : (ρ.scenario sc).Admitted := by
  have hsound := hsc.sound
  obtain ⟨d, hd⟩ := hsc.built
  obtain ⟨hne, hcount, -, -, rfl⟩ := Draft.build_iff.1 hd
  refine ⟨⟨{ d with jobs := d.jobs.map ρ.job }, Draft.build_iff.2 ⟨?_, hcount, ?_, ?_, rfl⟩⟩, ?_,
    hsc.limit_le⟩
  · simpa using hne
  · have hpids : (d.jobs.map ρ.job).map Job.pid = (d.jobs.map Job.pid).map ρ.pid := by
      rw [List.map_map, List.map_map]
      rfl
    exact hpids ▸ hsound.pids_nodup.map_on fun p hp q hq => h.pids hp hq
  · intro job' hjob'
    obtain ⟨job, hjob, rfl⟩ := List.mem_map.1 hjob'
    have hjobsound := hsound.jobs job hjob
    refine (Draft.checkJob_eq_ok fun q' hq' => ?_).2 (h.sound hjobsound)
    obtain ⟨q, hq, rfl⟩ := List.mem_map.1 hq'
    have hwithin := (hjobsound.requests q hq).within
    exact hwithin.trans (hsc.lifespan_lt job hjob).le
  · intro job' hjob'
    obtain ⟨job, hjob, rfl⟩ := List.mem_map.1 hjob'
    exact hsc.lifespan_lt job hjob

end Renaming

namespace Scenario

variable {sc : Scenario}

/-- Under a policy that is `NameBlind`, runs of any length come out alike, for a renaming of
everything. -/
theorem Admitted.run_renamed {P : Policy σ} (h : sc.Admitted) (h' : (ρ.scenario sc).Admitted)
    (hP : P.Lawful) (hblind : P.NameBlind) (hρ : ρ.Total)
    (hresource : ∀ r, ρ.resource r < sc.resourceCount ↔ r < sc.resourceCount) (memory : σ)
    (fuel : Nat) :
    ((ρ.scenario sc).run P memory fuel).outcome = (sc.run P memory fuel).outcome ∧
      (sc.run P memory fuel).machine.Renamed ρ ((ρ.scenario sc).run P memory fuel).machine := by
  have hinitial := fun memory : σ => Machine.renamed_initial sc hresource memory
  obtain ⟨t, samples, heq, ht⟩ := hinitial memory
  have hstate : (Machine.initial (ρ.scenario sc) memory).state = t := congrArg Machine.state heq
  have hsetup := hblind.setup hρ memory ht
  rw [← hstate] at hsetup
  rcases hP.setup memory (Machine.initial sc memory).state with ⟨e, he⟩ | ⟨memory', hm⟩ <;>
    rcases hP.setup memory (Machine.initial (ρ.scenario sc) memory).state with
      ⟨e', he'⟩ | ⟨memory'', hm'⟩
  · obtain ⟨herror, -⟩ := hsetup _ _ he he'
    cases herror e rfl
    rw [run, run, prepare_of_error he, prepare_of_error he']
    exact ⟨rfl, hinitial memory⟩
  · obtain ⟨herror, -⟩ := hsetup _ _ he hm'
    cases herror e rfl
  · obtain ⟨-, hok⟩ := hsetup _ _ hm he'
    obtain ⟨_, hok, -⟩ := hok memory' _ rfl
    cases hok
  · obtain ⟨-, hok⟩ := hsetup _ _ hm hm'
    obtain ⟨_, hok, -⟩ := hok memory' _ rfl
    cases hok
    rw [run, run, prepare_of_ok hm, prepare_of_ok hm']
    exact Machine.Renamed.run hρ hblind hP h h' rfl (.start (prepare_of_ok hm))
      (.start (prepare_of_ok hm')) (hinitial memory') fuel _ _

/-- Renamings that agree on the names of a scenario make the same scenario of it, by `job_congr` for
each job. -/
theorem Sound.scenario_congr (h : sc.Sound) {ρ' : Renaming}
    (hpid : ∀ pid ∈ sc.jobs.map Job.pid, ρ'.pid pid = ρ.pid pid)
    (hresource : ∀ r < sc.resourceCount, ρ'.resource r = ρ.resource r) :
    ρ'.scenario sc = ρ.scenario sc := by
  have hjobs : sc.jobs.map ρ'.job = sc.jobs.map ρ.job := List.map_congr_left fun job hjob =>
    Renaming.job_congr (hpid _ (List.mem_map_of_mem hjob)) fun q hq =>
      hresource _ ((h.jobs job hjob).requests q hq).resource_lt
  rw [Renaming.scenario, Renaming.scenario, hjobs]

/-- Renamings that agree on the names of a scenario agree on what happens in its runs, as only these
names are mentioned. -/
theorem Reaches.events_congr {P : Policy σ} {memory : σ} {m : Machine σ} (hsc : sc.Admitted)
    (hP : P.Lawful) (h : sc.Reaches P memory m) (hm : m.phase.isSwitching = false) {ρ' : Renaming}
    (hpid : ∀ pid ∈ sc.jobs.map Job.pid, ρ'.pid pid = ρ.pid pid)
    (hresource : ∀ r < sc.resourceCount, ρ'.resource r = ρ.resource r) :
    m.events.toList.map ρ'.event = m.events.toList.map ρ.event := by
  refine List.map_congr_left fun e he => ?_
  obtain ⟨hpids, hresources⟩ := h.mentions hsc hP hm (List.mem_map_of_mem he)
  have hwhat : ρ'.happening e.what = ρ.happening e.what := Renaming.happening_congr
    (fun pid hp => hpid pid (hpids pid hp)) fun r hr => hresource r (hresources r hr)
  rw [Renaming.event, Renaming.event, hwhat]

/-- Other names leave the number of steps that are enough as it is: `stepBound` counts jobs, ticks
and requests. -/
theorem stepBound_renamed (ρ : Renaming) (sc : Scenario) :
    (ρ.scenario sc).stepBound = sc.stepBound := by
  have hcount : (ρ.scenario sc).requestCount = sc.requestCount := by
    rw [requestCount, requestCount, Renaming.scenario, List.foldl_map]
    simp [Renaming.job]
  have hlength : (ρ.scenario sc).jobs.length = sc.jobs.length := List.length_map ..
  rw [stepBound, stepBound, stepsPerTick, stepsPerTick, hcount, hlength]
  rfl

/-- Under a policy that is `NameBlind`, runs under names that suit the scenario come out alike, at
the same ticks and with the same events under these names. -/
theorem Admitted.trace?_renamed {P : Policy σ} (h : sc.Admitted) (hρ : ρ.Suits sc) (hP : P.Lawful)
    (hblind : P.NameBlind) (memory : σ) (fuel : Nat) :
    ((ρ.scenario sc).run P memory fuel).outcome = (sc.run P memory fuel).outcome ∧
      ((ρ.scenario sc).run P memory fuel).trace? =
        (sc.run P memory fuel).trace?.map ρ.trace := by
  obtain ⟨ρ', htotal, hpid, hresource, hlt⟩ := hρ.exists_total
  have hscenario := h.sound.scenario_congr hpid hresource
  obtain ⟨houtcome, hmachine⟩ := h.run_renamed (hscenario ▸ hρ.admitted h) hP hblind htotal hlt
    memory fuel
  rw [hscenario] at houtcome hmachine
  refine ⟨houtcome, ?_⟩
  rw [Run.trace?, Run.trace?, houtcome]
  cases hended : (sc.run P memory fuel).outcome with
  | ended exit =>
    obtain ⟨hreach, hphase⟩ := reaches_of_ended hended
    have hevents := hreach.events_congr h hP (Phase.isSwitching_of_over hphase) hpid hresource
    obtain ⟨t, samples, heq, ht⟩ := hmachine
    simp only [heq, Machine.under, Array.toList_map, hevents, ht.tick]
    rfl
  | _ => rfl

/-- In a run **names do not matter**. Under names that the renaming `Suits` to it a scenario is
admitted, and its runs come out alike under every discipline, however many steps they are allowed,
with the same trace under the other names. Both runs go to their end, unless the discipline is the
priority ceiling and there is no ceiling. -/
theorem Admitted.same_under_other_names (h : sc.Admitted) (hρ : ρ.Suits sc) (d : Discipline)
    (memory : Memory) :
    (ρ.scenario sc).Admitted ∧
      (∀ fuel, ((ρ.scenario sc).run d.policy memory fuel).outcome =
          (sc.run d.policy memory fuel).outcome ∧
        ((ρ.scenario sc).run d.policy memory fuel).trace? =
          (sc.run d.policy memory fuel).trace?.map ρ.trace) ∧
      (¬ (d = .ceiling ∧ sc.ceiling = 0) →
        ∃ t, (sc.run d.policy memory sc.stepBound).trace? = some t ∧
          ((ρ.scenario sc).run d.policy memory (ρ.scenario sc).stepBound).trace? =
            some (ρ.trace t)) := by
  have halike := h.trace?_renamed hρ d.lawful d.nameBlind memory
  refine ⟨hρ.admitted h, halike, fun hc => ?_⟩
  obtain ⟨exit, hended, -⟩ := h.reaches_end hc memory
  obtain ⟨t, ht⟩ : ∃ t, (sc.run d.policy memory sc.stepBound).trace? = some t := by
    rw [Run.trace?, hended]
    exact ⟨_, rfl⟩
  refine ⟨t, ht, ?_⟩
  rw [stepBound_renamed, (halike sc.stepBound).2, ht]
  rfl

/-- The first process gets the larger number and the resources change places. -/
def reversed : Renaming where
  pid := fun pid => if pid = 1 then 7 else 3
  resource := fun r => 1 - r

theorem suits_reversed : reversed.Suits crossed where
  pids := by
    have hinj : ∀ p ∈ [1, 2], ∀ q ∈ [1, 2], reversed.pid p = reversed.pid q → p = q := by decide
    exact fun p hp q hq => hinj p hp q hq
  resources := by
    have hflip : ∀ r : Nat, r < 2 → 1 - r < 2 ∧ 1 - (1 - r) = r := by omega
    refine ⟨fun r hr => (hflip r hr).1, fun r hr q hq heq => ?_, fun r hr =>
      ⟨1 - r, (hflip r hr).1, (hflip r hr).2⟩⟩
    rw [← (hflip r hr).2, ← (hflip q hq).2]
    exact congrArg (1 - ·) heq

/-- Under inheritance the crossed processes end in a deadlock under either names: the second one is
refused what the first one has, and the first one what the second one has. -/
theorem same_under_other_names_crossed :
    ∃ t, (crossed.run Discipline.inheritance.policy none crossed.stepBound).trace? = some t ∧
      ((reversed.scenario crossed).run Discipline.inheritance.policy none
        (reversed.scenario crossed).stepBound).trace? = some (reversed.trace t) ∧
      (reversed.scenario crossed).jobs.map Job.pid = [7, 3] ∧
      t.exit = .deadlock ∧ t.endTick = 2 ∧
      ⟨2, .refused 1 1⟩ ∈ t.events ∧ ⟨2, .refused 7 0⟩ ∈ (reversed.trace t).events := by
  have hm : crossed.Reaches Discipline.inheritance.policy none _ := .of_sorted (by decide) rfl 80
  have ht := hm.trace?_of_over admitted_crossed Discipline.inheritance.lawful
    (rfl : _ = Phase.over .deadlock)
  obtain ⟨-, -, hends⟩ := admitted_crossed.same_under_other_names suits_reversed .inheritance none
  obtain ⟨t, ht', hrenamed⟩ := hends (by decide)
  cases ht.symm.trans ht'
  exact ⟨_, ht, hrenamed, rfl, rfl, by decide, by decide, by decide⟩

end Scenario

end Uniprocessor
