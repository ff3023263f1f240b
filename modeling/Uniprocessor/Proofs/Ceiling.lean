import Uniprocessor.Proofs.Locking
import Uniprocessor.Proofs.Reachable
import Uniprocessor.Proofs.Record

/-!
# The priority ceiling

Under the ceiling a process rises when it gets a resource and falls when it gives one back, whatever
else it owns. So its priority depends on what it got since it last gave something back, its gains:
it is at the ceiling if there are any, and at its base priority otherwise
(`Scenario.Admitted.prio_of_gains`).

Gains are owned, so whoever owns nothing is at its base priority. Whoever owns something is at the
ceiling if its job has no two holds at once. Otherwise it falls when the first of them is over, and
others may go before it while it still owns the second (`Scenario.owner_below_ceiling`).
-/

namespace Uniprocessor

open Narrated

/-- What the process got by this event, if it got something. -/
def Happening.gained? (pid : Pid) : Happening → Option ResourceId
  | .acquired p r => if p = pid then some r else none
  | _ => none

/-- Whether the process gave something back by this event. Its gains are counted from the last such
event on. -/
def Happening.isReturnBy (pid : Pid) : Happening → Bool
  | .released p _ => decide (p = pid)
  | _ => false

/-- No two holds of the job go on at the same age. Such a process is at the ceiling as long as it
owns something. -/
def Job.Unnested (job : Job) : Prop :=
  job.requests.Pairwise fun q other =>
    q.due + q.duration ≤ other.due ∨ other.due + other.duration ≤ q.due

instance (job : Job) : Decidable job.Unnested :=
  inferInstanceAs (Decidable (job.requests.Pairwise _))

/-- Of two holds of an `Unnested` job, one is over when the other begins. -/
theorem Job.Unnested.over_of_ne {job : Job} (h : job.Unnested) {q other : Request}
    (hq : q ∈ job.requests) (ho : other ∈ job.requests) (hne : q ≠ other) :
    q.due + q.duration ≤ other.due ∨ other.due + other.duration ≤ q.due :=
  haveI : Std.Symm fun q other : Request =>
    q.due + q.duration ≤ other.due ∨ other.due + other.duration ≤ q.due := ⟨fun _ _ => Or.symm⟩
  List.Pairwise.forall h hq ho hne

namespace Machine

variable {sc : Scenario} {m m' : Machine Memory} {pid : Pid} {r : ResourceId}

/-- What the process got since it last gave something back, the first first. Its priority depends on
whether there is anything. -/
def gains {σ : Type} (m : Machine σ) (pid : Pid) : List ResourceId :=
  (m.since (Happening.isReturnBy pid)).filterMap (Happening.gained? pid)

section Gains

variable {σ : Type} {m m' : Machine σ} {p : Pid}

theorem gains_congr (h : m'.dealings = m.dealings) : m'.gains = m.gains := by
  funext pid
  rw [gains, since_congr h, gains]

/-- A resource that is granted is one more of the `gains` of the process that got it. -/
theorem gains_of_acquired (h : m'.dealings = m.dealings ++ [.acquired p r]) (pid : Pid) :
    m'.gains pid = if p = pid then m.gains pid ++ [r] else m.gains pid := by
  rw [gains, since_of_not_mark h rfl, List.filterMap_append, gains]
  by_cases hp : p = pid
  · rw [if_pos hp, hp]
    simp [Happening.gained?]
  · rw [if_neg hp]
    simp [Happening.gained?, hp]

/-- A resource that is refused is nobody's gain: a refusal leaves `gains` as they are. -/
theorem gains_of_refused (h : m'.dealings = m.dealings ++ [.refused p r]) : m'.gains = m.gains := by
  funext pid
  rw [gains, since_of_not_mark h rfl, List.filterMap_append, gains]
  exact List.append_nil _

/-- Whoever gives something back has no `gains` left, whatever else it owns, and nobody else's
change. -/
theorem gains_of_released (h : m'.dealings = m.dealings ++ [.released p r]) (pid : Pid) :
    m'.gains pid = if p = pid then [] else m.gains pid := by
  by_cases hp : p = pid
  · rw [gains, since_of_mark h (decide_eq_true hp), if_pos hp]
    rfl
  · rw [gains, since_of_not_mark h (decide_eq_false hp), List.filterMap_append, if_neg hp, gains]
    exact List.append_nil _

end Gains

/-- A process of an `Unnested` job owns nothing when it asks for something, since the hold of what
it owned is over by then. -/
theorem Steady.not_owns_of_unnested (hsc : sc.Sound) (h : m.Steady sc) {q : Request}
    {rest : List Request} (hphase : m.phase = .requesting pid (q :: rest)) {job : Job}
    (hjob : job ∈ sc.jobs) (hpid : job.pid = pid) (hun : job.Unnested) : ¬ m.state.Owns pid r := by
  intro howns
  have hst : Stage sc m.state m.scripts m.arrivals fun _ => [] := h.stage_of hphase
  obtain ⟨-, p, script, hp, hs, -, hdue⟩ : Turn m.state m.scripts pid (q :: rest) :=
    h.fits_of hphase
  obtain ⟨job', hjob', hpid', hplays⟩ := hst.plays_of_find? hp hs
  obtain rfl : job = job' :=
    List.inj_on_of_nodup_map hsc.pids_nodup hjob hjob' (hpid.trans hpid'.symm)
  -- What it owns it holds, and the hold is neither over nor yet to begin.
  obtain ⟨script', hs', hr⟩ := hst.owns_iff.1 howns
  rw [hs] at hs'
  cases hs'
  rw [List.append_nil] at hr
  obtain ⟨hold, hmem, rfl⟩ := List.mem_map.1 hr
  obtain ⟨q', hq', hres, hbegun, hends⟩ := hplays.origin hold hmem
  have hleft := hplays.remaining_pos hold hmem
  obtain ⟨hq, hnow, hfree⟩ := hplays.mem_due.1 (hdue ▸ List.mem_cons_self ..)
  have hpos := ((hsc.jobs job hjob).requests q hq).duration_pos
  have hne : q ≠ q' := by
    rintro rfl
    exact hfree (hres ▸ hr)
  rcases hun.over_of_ne hq hq' hne with hover | hover <;> omega

/-- Under the ceiling priorities are what the `gains` say, and gains are owned. It is preserved by
every stride. -/
structure Raised (sc : Scenario) (m : Machine Memory) : Prop where
  /-- the ceiling is that of the scenario -/
  ceiling : m.state.ceiling = sc.ceiling
  /-- whoever has gains is at the ceiling, and everybody else at the base priority -/
  prio : ∀ {pid : Pid} {b n : Nat}, m.state.bid? pid = some (b, n) →
    n = if m.gains pid = [] then b else sc.ceiling
  /-- gains are owned -/
  owns : ∀ {pid : Pid} {r : ResourceId}, r ∈ m.gains pid → m.state.Owns pid r
  /-- what a process of an unnested job owns is its one gain -/
  gains : ∀ {job : Job} {r : ResourceId}, job ∈ sc.jobs → job.Unnested →
    m.state.Owns job.pid r → m.gains job.pid = [r]

namespace Raised

theorem initial (sc : Scenario) (memory : Memory) : (Machine.initial sc memory).Raised sc where
  ceiling := rfl
  prio hb := by cases hb
  owns hr := by cases hr
  gains _ _ ho := absurd ho State.not_owns_empty

/-- Whoever owns nothing has no `gains`, since gains are owned. -/
theorem gains_eq_nil (h : m.Raised sc) (hnone : ∀ r, ¬ m.state.Owns pid r) : m.gains pid = [] :=
  List.eq_nil_iff_forall_not_mem.2 fun r hr => hnone r (h.owns hr)

/-- Where no owner and no dealing is new and nobody is repriced, `Raised` is preserved. -/
theorem of_bids (h : m.Raised sc) (hceiling : m'.state.ceiling = m.state.ceiling)
    (hres : m'.state.resources = m.state.resources) (hdeal : m'.dealings = m.dealings)
    (hbid : ∀ {pid bid}, m'.state.bid? pid = some bid → m.state.bid? pid = some bid) :
    m'.Raised sc where
  ceiling := hceiling.trans h.ceiling
  prio hb := by
    rw [gains_congr hdeal]
    exact h.prio (hbid hb)
  owns hr := by
    rw [gains_congr hdeal] at hr
    exact (State.owns_congr hres).2 (h.owns hr)
  gains hjob hun ho := by
    rw [gains_congr hdeal]
    exact h.gains hjob hun ((State.owns_congr hres).1 ho)

/-- A newcomer has no `gains`, and is at its base priority, so `Raised` is preserved. -/
theorem arrive (h : m.Raised sc) (hs : m.state.Settled) {job : Job}
    (hnew : m.state.process? job.pid = none)
    (hstate : m'.state = m.state.joined (.fresh job.pid job.lifespan job.prio))
    (hdeal : m'.dealings = m.dealings) : m'.Raised sc where
  ceiling := by
    rw [hstate]
    exact h.ceiling
  prio {pid b n} hb := by
    rw [hstate, State.bid?_joined hnew] at hb
    rw [gains_congr hdeal]
    by_cases hpid : pid = job.pid
    · have hnone : m.gains pid = [] := h.gains_eq_nil fun r ho => by
        obtain ⟨p, hp⟩ := hs.process?_of_owns ho
        rw [hpid, hnew] at hp
        cases hp
      rw [if_pos hnone]
      cases (if_pos hpid).symm.trans hb
      rfl
    · exact h.prio ((if_neg hpid).symm.trans hb)
  owns hr := by
    rw [gains_congr hdeal] at hr
    rw [hstate]
    exact h.owns hr
  gains hjob hun ho := by
    rw [hstate] at ho
    rw [gains_congr hdeal]
    exact h.gains hjob hun ho

/-- Whoever gets something rises to the ceiling and has a gain, so `Raised` is preserved. -/
theorem grant (hsc : sc.Sound) (hm : m.Steady sc) (h : m.Raised sc) {q : Request}
    {rest : List Request} {x : Resource} (hphase : m.phase = .requesting pid (q :: rest))
    (hcalls : m.state.Calls pid q.resource x) (hfree : x.owner = none)
    (hstate : m'.state = (m.state.give q.resource x pid).reprice pid m.state.ceiling)
    (hdeal : m'.dealings = m.dealings ++ [.acquired pid q.resource]) : m'.Raised sc where
  ceiling := by
    rw [hstate]
    exact h.ceiling
  prio {pid' b n} hb := by
    rw [hstate, State.bid?_reprice] at hb
    rw [gains_of_acquired hdeal]
    by_cases hpid : pid = pid'
    · rw [if_pos hpid.symm] at hb
      obtain ⟨bid, -, hbid⟩ := Option.map_eq_some_iff.1 hb
      cases hbid
      rw [if_pos hpid, if_neg (by simp), h.ceiling]
    · rw [if_neg fun he => hpid he.symm] at hb
      rw [if_neg hpid]
      exact h.prio hb
  owns {pid' r'} hr := by
    rw [gains_of_acquired hdeal] at hr
    rw [hstate]
    change (m.state.give q.resource x pid).Owns pid' r'
    rw [State.owns_give hcalls.entry]
    have hold : r' ∈ m.gains pid' → r' ≠ q.resource := by
      rintro hr rfl
      have howner := (State.owns_iff hcalls.entry).1 (h.owns hr)
      rw [hfree] at howner
      cases howner
    by_cases hpid : pid = pid'
    · rw [if_pos hpid] at hr
      rcases List.mem_append.1 hr with hr | hr
      · rw [if_neg (hold hr)]
        exact h.owns hr
      · rw [if_pos (List.mem_singleton.1 hr), hpid]
    · rw [if_neg hpid] at hr
      rw [if_neg (hold hr)]
      exact h.owns hr
  gains {job r'} hjob hun ho := by
    rw [hstate] at ho
    replace ho : (m.state.give q.resource x pid).Owns job.pid r' := ho
    rw [State.owns_give hcalls.entry] at ho
    rw [gains_of_acquired hdeal]
    by_cases hpid : pid = job.pid
    · have hnone : ∀ r, ¬ m.state.Owns job.pid r := fun r =>
        hpid ▸ hm.not_owns_of_unnested hsc hphase hjob hpid.symm hun
      by_cases hr : r' = q.resource
      · rw [if_pos hpid, h.gains_eq_nil hnone, hr, List.nil_append]
      · rw [if_neg hr] at ho
        exact absurd ho (hnone r')
    · rw [if_neg hpid]
      by_cases hr : r' = q.resource
      · rw [if_pos hr] at ho
        exact absurd ho.symm hpid
      · rw [if_neg hr] at ho
        exact h.gains hjob hun ho

/-- Whoever is refused something is not repriced and gains nothing, so `Raised` is preserved. -/
theorem refuse (h : m.Raised sc) {x : Resource} (hentry : m.state.resources[r]? = some x)
    (hstate : m'.state = m.state.park r x pid)
    (hdeal : m'.dealings = m.dealings ++ [.refused pid r]) : m'.Raised sc where
  ceiling := by
    rw [hstate]
    exact h.ceiling
  prio hb := by
    rw [hstate, State.bid?_park] at hb
    rw [gains_of_refused hdeal]
    exact h.prio hb
  owns hr := by
    rw [gains_of_refused hdeal] at hr
    rw [hstate, State.owns_park hentry]
    exact h.owns hr
  gains hjob hun ho := by
    rw [hstate, State.owns_park hentry] at ho
    rw [gains_of_refused hdeal]
    exact h.gains hjob hun ho

/-- Whoever gives something back falls to the base priority and has no `gains` left, so `Raised` is
preserved. -/
theorem release (h : m.Raised sc) {x : Resource} (hcalls : m.state.Calls pid r x)
    (hx : x.owner = some pid) {p : Process} (hp : m.state.process? pid = some p)
    {woken : Option Pid} (hstate : m'.state = (m.state.vacate r x woken).reprice pid p.base)
    (hdeal : m'.dealings = m.dealings ++ [.released pid r]) : m'.Raised sc where
  ceiling := by
    rw [hstate, ← h.ceiling]
    exact State.ceiling_vacate ..
  prio {pid' b n} hb := by
    rw [hstate, State.bid?_reprice, State.bid?_vacate] at hb
    rw [gains_of_released hdeal]
    by_cases hpid : pid = pid'
    · rw [if_pos hpid.symm, ← hpid, State.bid?_of_process? hp] at hb
      cases hb
      rw [if_pos hpid, if_pos rfl]
    · rw [if_neg fun he => hpid he.symm] at hb
      rw [if_neg hpid]
      exact h.prio hb
  owns {pid' r'} hr := by
    rw [gains_of_released hdeal] at hr
    by_cases hpid : pid = pid'
    · rw [if_pos hpid] at hr
      cases hr
    · rw [if_neg hpid] at hr
      rw [hstate]
      refine (State.owns_vacate hcalls.entry woken).2 ⟨h.owns hr, ?_⟩
      rintro rfl
      exact hpid (((State.owns_iff hcalls.entry).2 hx).unique (h.owns hr))
  gains {job r'} hjob hun ho := by
    rw [hstate] at ho
    obtain ⟨ho, hne⟩ := (State.owns_vacate hcalls.entry woken).1 ho
    rw [gains_of_released hdeal]
    by_cases hpid : pid = job.pid
    · -- It has given back all that it owned.
      have hgain := h.gains hjob hun (hpid ▸ (State.owns_iff hcalls.entry).2 hx)
      rw [h.gains hjob hun ho] at hgain
      cases hgain
      exact absurd rfl hne
    · rw [if_neg hpid]
      exact h.gains hjob hun ho

/-- Every stride under the ceiling preserves `Raised`. The lemmas above are its cases. -/
theorem strides (hsc : sc.Sound) (hm : m.Steady sc) (h : m.Raised sc)
    (hstr : m.Strides Discipline.ceiling.policy sc.limit m') : m'.Raised sc := by
  have hswitch : ∀ {memory t next}, m.phase = .choosing →
      (Discipline.ceiling.choose m.memory m.state).result = .ok (memory, t, next) →
      m'.state = m.state.switched t next → m'.Raised sc := by
    intro memory t next hphase hP hstate
    obtain ⟨memory', t', next', hok, hchose, hbid⟩ :=
      Discipline.ceiling.choose_eq_ok m.memory hm.stage.settled
    rw [hP] at hok
    cases hok
    refine h.of_bids ?_ ?_ (hstr.dealings (by rw [hphase]; rfl)) fun {pid bid} hb => ?_
    · rw [hstate, State.ceiling_switched, hchose.ceiling]
    · rw [hstate, State.resources_switched, hchose.resources]
    · rw [hstate] at hb
      exact (State.bid?_of_bid?_switched (hbid (by decide)) hb).2
  have hstr' := hstr
  cases hstr with
  | @arrive job rest hphase harrivals =>
    have hst := hm.stage_of_arriving hphase harrivals
    exact h.arrive hst.settled hst.process?_arrival rfl (hstr'.dealings (by rw [hphase]; rfl))
  | drain hphase hP => exact hswitch hphase hP (carriedOut_state ..)
  | idle hphase hP => exact hswitch hphase hP (carriedOut_state ..)
  | turn hphase hP => exact hswitch hphase hP (carriedOut_state ..)
  | @grant pid q rest p script x memory t hphase hp hs hcalls hx hP =>
    simp only [Discipline.policy, Discipline.acquire, result_bind, hcalls.acquireCeiling_free hx,
      ok_bind] at hP
    cases hP
    exact h.grant hsc hm hphase hcalls hx rfl (dealings_record _ _ rfl)
  | @refuse pid owner q rest x memory t hphase hcalls hx hne hP =>
    simp only [Discipline.policy, Discipline.acquire, result_bind, hcalls.acquireCeiling_held hx,
      ok_bind] at hP
    cases hP
    exact h.refuse hcalls.entry rfl (dealings_record _ _ rfl)
  | @release pid r waiters due x y memory t woken hphase hcalls hx hP =>
    obtain ⟨p, hp⟩ := hcalls.process?
    simp only [Discipline.policy, Discipline.release, result_bind,
      hcalls.releaseCeiling_eq_ok hx hp, ok_bind] at hP
    cases hP
    exact h.release hcalls hx hp (recordWoken_state ..) (dealings_release ..)
  | execute hphase =>
    refine h.of_bids rfl rfl (hstr'.dealings (by rw [hphase]; rfl)) fun hb => ?_
    rwa [State.bid?_adjust_age] at hb
  | tick hphase => exact h.of_bids rfl rfl rfl id
  | _ => exact h.of_bids rfl rfl rfl id

end Raised

end Machine

namespace Scenario

variable {sc : Scenario} {m : Machine Memory}

/-- Under the ceiling `Raised` holds wherever a run gets to, also while a choice is being carried
out, since a choice reprices nobody. -/
theorem Reaches.raised (hsc : sc.Admitted) {memory : Memory}
    (h : sc.Reaches Discipline.ceiling.policy memory m) : m.Raised sc := by
  obtain ⟨memory', -, hlead⟩ := h.leads Discipline.ceiling.lawful
  rcases hlead.steady_or_switching (I := Machine.Raised sc) hsc Discipline.ceiling.lawful
    (fun hm hI hstr _ => hI.strides hsc.sound hm hstr) (.initial hsc.sound memory')
    (.initial sc memory') with ⟨-, hI⟩ | ⟨m₁, hm₁, hI, hphase, hstep, -⟩
  · exact hI
  · -- A choice moves no resource, and reprices nobody.
    obtain ⟨memory, t, next, hok, hchose, rfl⟩ :=
      hm₁.step_of_choosing Discipline.ceiling.lawful hphase hstep
    obtain ⟨memory', t', next', hok', -, hbid⟩ :=
      Discipline.ceiling.choose_eq_ok m₁.memory hm₁.stage.settled
    cases hok.symm.trans hok'
    exact hI.of_bids hchose.ceiling hchose.resources rfl fun hb => hbid (by decide) ▸ hb

/-- Exact **priorities under the ceiling**: wherever a run gets to, a live process is at the ceiling
if it has got something since it last gave something back, by `Machine.gains`, and at its base
priority otherwise. What it has got since, it owns; so if it owns nothing, it is at its base
priority. And if it owns something and no two holds of its job go on at the same age, it is at the
ceiling. -/
theorem Admitted.prio_of_gains (h : sc.Admitted) (memory : Memory)
    (hm : sc.Reaches Discipline.ceiling.policy memory m) {pid : Pid} {p : Process}
    (hp : m.state.process? pid = some p) :
    p.prio = (if m.gains pid = [] then p.base else sc.ceiling) ∧
      (∀ r ∈ m.gains pid, m.state.Owns pid r) ∧
      ((∀ r, ¬ m.state.Owns pid r) → p.prio = p.base) ∧
      ∀ job r, job ∈ sc.jobs → job.pid = pid → job.Unnested → m.state.Owns pid r →
        p.prio = sc.ceiling := by
  have hraised := hm.raised h
  have hprio := hraised.prio (State.bid?_of_process? hp)
  refine ⟨hprio, fun r hr => hraised.owns hr, fun hnone => ?_, ?_⟩
  · rw [hprio, if_pos (hraised.gains_eq_nil hnone)]
  · rintro job r hjob rfl hun howns
    rw [hprio, if_neg (by rw [hraised.gains hjob hun howns]; simp)]

/-- A process that holds two resources at once, one of them longer than the other, and a process
that arrives when the first hold is over. -/
def nested : Scenario where
  resourceCount := 2
  ceiling := 9
  limit := 100
  jobs := [
    { pid := 1, lifespan := 3, prio := 1, requests := [⟨0, 0, 3⟩, ⟨1, 0, 1⟩] },
    { pid := 2, start := 1, lifespan := 2, prio := 5, requests := [⟨1, 0, 1⟩] }]

theorem admitted_nested : nested.Admitted where
  built := ⟨⟨2, 9, 100, nested.jobs, 3⟩, rfl⟩
  lifespan_lt := by decide
  limit_le := by decide

/-- When the newcomer executes, it is at the ceiling, and the process that went before it is at its
base priority. -/
theorem prio_of_gains_nested : ∃ m p q, nested.Reaches Discipline.ceiling.policy none m ∧
    m.phase = .executing 2 ∧ m.state.process? 1 = some p ∧ m.state.process? 2 = some q ∧
    m.gains 1 = [] ∧ m.state.Owns 2 1 ∧ p.prio = p.base ∧ q.prio = 9 := by
  obtain ⟨m, p, q, hm, hphase, hp, hq, hnone, howns⟩ :
      ∃ m p q, nested.Reaches Discipline.ceiling.policy none m ∧ m.phase = .executing 2 ∧
        m.state.process? 1 = some p ∧ m.state.process? 2 = some q ∧ m.gains 1 = [] ∧
        m.state.Owns 2 1 :=
    ⟨_, _, _, .of_sorted (by decide) rfl 22, rfl, rfl, rfl, rfl, ⟨_, rfl, rfl⟩⟩
  obtain ⟨hfallen, -⟩ := admitted_nested.prio_of_gains none hm hp
  obtain ⟨-, -, -, hraised⟩ := admitted_nested.prio_of_gains none hm hq
  exact ⟨m, p, q, hm, hphase, hp, hq, hnone, howns, hfallen.trans (if_pos hnone),
    hraised _ 1 (List.mem_cons_of_mem _ (List.mem_singleton_self _)) rfl (by decide) howns⟩

/-- An owner may be below the ceiling, and ready while another process executes: it fell when it
gave back the first of two resources that it held. -/
theorem owner_below_ceiling : nested.Admitted ∧ 0 < nested.ceiling ∧
    ∃ m p, nested.Reaches Discipline.ceiling.policy none m ∧ m.phase = .executing 2 ∧
      m.state.process? 1 = some p ∧ p.status = .ready ∧ m.state.Owns 1 0 ∧
      p.prio < nested.ceiling :=
  ⟨admitted_nested, by decide, _, _, .of_sorted (by decide) rfl 22, rfl, rfl, rfl, ⟨_, rfl, rfl⟩,
    by decide⟩

end Scenario

end Uniprocessor
