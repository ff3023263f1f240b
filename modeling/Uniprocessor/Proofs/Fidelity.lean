import Uniprocessor.Proofs.Ceiling
import Uniprocessor.Proofs.Chronicle
import Uniprocessor.Proofs.Tally

/-!
# Scripts are played faithfully

Who has a resource is kept twice: the resource table has its owner, and a script counts down for how
long. The two agree wherever a policy is asked and wherever a tick ends, and every hold ends when
its request does. What this comes to over a whole run is read off the history: each process gets
what its job asks for, each time at the age at which it is due, gives it back when it is over, and
gets and gives back nothing else (`Scenario.Admitted.script_fidelity`).
-/

namespace Uniprocessor

/-- What the process gave back by this happening, if it gave something back. -/
def Happening.returned? (pid : Pid) : Happening → Option ResourceId
  | .released p r => if p = pid then some r else none
  | _ => none

namespace History

variable {h later : List Happening} {p pid : Pid} {r : ResourceId}

/-- What the process has got, each with the number of ticks that it had executed: an instance of
`dated`. -/
def got (h : List Happening) (pid : Pid) : List (ResourceId × Nat) :=
  dated pid (Happening.gained? pid) 0 h

/-- What the process has given back, each with the number of ticks that it had executed: an instance
of `dated`. -/
def gave (h : List Happening) (pid : Pid) : List (ResourceId × Nat) :=
  dated pid (Happening.returned? pid) 0 h

theorem got_acquired : got (h ++ [.acquired p r]) pid =
    if p = pid then got h pid ++ [(r, h.count (.executed pid))] else got h pid := by
  rw [got, dated_append, Nat.zero_add]
  by_cases hp : p = pid <;> simp [dated, Happening.gained?, hp, got]

/-- A return is dated by the ticks that the process has executed, and whoever is woken by it makes
no difference to `gave`. -/
theorem gave_released (woken : Option Pid) :
    gave (h ++ .released p r :: woken.toList.map fun w => .woken w r) pid =
      if p = pid then gave h pid ++ [(r, h.count (.executed pid))] else gave h pid := by
  rw [List.append_cons, gave, dated_append_of_none, dated_append, Nat.zero_add]
  · by_cases hp : p = pid <;> simp [dated, Happening.returned?, hp, gave]
  · intro e he
    obtain ⟨w, -, rfl⟩ := List.mem_map.1 he
    rfl

/-- What is not about resources makes no difference to `got` and `gave`. -/
theorem dealt_append (h : List Happening) (pid : Pid)
    (hlater : ∀ e ∈ later, e.isOfResource = false) :
    got (h ++ later) pid = got h pid ∧ gave (h ++ later) pid = gave h pid := by
  constructor
  · refine dated_append_of_none _ _ _ _ fun e he => ?_
    have := hlater e he
    cases e <;> first | rfl | cases this
  · refine dated_append_of_none _ _ _ _ fun e he => ?_
    have := hlater e he
    cases e <;> first | rfl | cases this

/-- What is about resources makes nobody older: the dates by which `got` and `gave` tell what
follows are the same. -/
theorem count_executed_append (h : List Happening) (pid : Pid)
    (hlater : ∀ e ∈ later, e.isOfResource = true) :
    (h ++ later).count (.executed pid) = h.count (.executed pid) := by
  rw [List.count_append, Nat.add_eq_left]
  refine List.count_eq_zero_of_not_mem fun hmem => ?_
  cases hlater _ hmem

end History

namespace Machine

variable {σ : Type} {sc : Scenario} {P : Policy σ} {m m' : Machine σ}

/-- The holds of the process; none if it has no script. -/
def holdsOf (m : Machine σ) (pid : Pid) : List Hold :=
  ((m.scripts.find? pid).map Script.holds).getD []

theorem holdsOf_of_find? {pid : Pid} {script : Script} (h : m.scripts.find? pid = some script) :
    m.holdsOf pid = script.holds := by
  rw [holdsOf, h]
  rfl

theorem holdsOf_of_none {pid : Pid} (h : m.scripts.find? pid = none) : m.holdsOf pid = [] := by
  rw [holdsOf, h]
  rfl

/-- A process that is not live holds nothing by `holdsOf`: it has no script. -/
theorem Steady.holdsOf_of_process? (hm : m.Steady sc) {pid : Pid}
    (hp : m.state.process? pid = none) : m.holdsOf pid = [] := by
  refine holdsOf_of_none (Option.eq_none_iff_forall_ne_some.2 fun script hs => ?_)
  obtain ⟨p, hp'⟩ := hm.stage.live hs
  rw [hp] at hp'
  cases hp'

/-- A process that is about to leave holds nothing: every hold ends within its lifespan, which it
has executed. -/
theorem Steady.holdsOf_leaver (hsc : sc.Sound) (hm : m.Steady sc) (hphase : m.phase = .choosing)
    {pid : Pid} (hg : m.state.leaver? = some pid) : m.holdsOf pid = [] := by
  rcases hs : m.scripts.find? pid with _ | script
  · exact holdsOf_of_none hs
  · rw [holdsOf_of_find? hs]
    refine List.eq_nil_iff_forall_not_mem.2 fun hold hmem => ?_
    refine (hm.stage_of hphase).not_owns_leaver hsc hg hold.resource ?_
    exact (hm.stage_of hphase).owns_of_mem hs (List.mem_append_left _ (List.mem_map_of_mem hmem))

/-- The `Job.Tally` of every job is right for the ticks that it has executed, and for what it holds
and owes now. -/
def Tallied (sc : Scenario) (m : Machine σ) : Prop :=
  ∀ job ∈ sc.jobs, job.Tally (m.history.count (.executed job.pid)) (m.holdsOf job.pid)
    (m.phase.owed job.pid) (History.got m.history job.pid) (History.gave m.history job.pid)

namespace Tallied

theorem initial (hsc : sc.Sound) (memory : σ) : (Machine.initial sc memory).Tallied sc :=
  fun job hjob => .fresh (hsc.jobs job hjob)

/-- The tally of a job stays right where nothing that it depends on changes: executed ticks, holds,
what is owed, and what was got and given back. -/
theorem keep (h : m.Tallied sc) {job : Job} (hjob : job ∈ sc.jobs)
    (hcount : m'.history.count (.executed job.pid) = m.history.count (.executed job.pid))
    (hholds : m'.holdsOf job.pid = m.holdsOf job.pid)
    (howed : m'.phase.owed job.pid = m.phase.owed job.pid)
    (hgot : History.got m'.history job.pid = History.got m.history job.pid)
    (hgave : History.gave m'.history job.pid = History.gave m.history job.pid) :
    job.Tally (m'.history.count (.executed job.pid)) (m'.holdsOf job.pid)
      (m'.phase.owed job.pid) (History.got m'.history job.pid)
      (History.gave m'.history job.pid) := by
  rw [hcount, hholds, howed, hgot, hgave]
  exact h job hjob

/-- Where nothing is about resources and nobody executes, the holds have to stay the same, and then
a machine stays `Tallied`. -/
theorem of_holds (h : m.Tallied sc) {later : List Happening}
    (hhistory : m'.history = m.history ++ later) (howed : m'.phase.owed = m.phase.owed)
    (hlater : ∀ e ∈ later, e.isOfResource = false) (hran : ∀ pid, .executed pid ∉ later)
    (hholds : ∀ pid, m'.holdsOf pid = m.holdsOf pid) : m'.Tallied sc := by
  intro job hjob
  have hdealt := History.dealt_append m.history job.pid hlater
  refine h.keep hjob ?_ (hholds job.pid) (congrFun howed job.pid) ?_ ?_ <;> rw [hhistory]
  · rw [List.count_append, List.count_eq_zero_of_not_mem (hran job.pid), Nat.add_zero]
  · exact hdealt.1
  · exact hdealt.2

/-- Where nothing is owed, the process of a job plays its script for the job, and the tally of the
job is that of the age and the holds of the process. -/
theorem of_process (hsc : sc.Sound) (h : m.Tallied sc) (hc : m.Chronicled) (hm : m.Steady sc)
    {job : Job} (hjob : job ∈ sc.jobs) {p : Process} {script : Script}
    (hp : m.state.process? job.pid = some p) (hs : m.scripts.find? job.pid = some script)
    (howed : m.phase.owed = fun _ => []) :
    job.Tally p.age script.holds [] (History.got m.history job.pid)
      (History.gave m.history job.pid) ∧ script.Plays job p [] := by
  obtain ⟨job', hjob', hpid', hplays⟩ := hm.stage.plays_of_find? hp hs
  obtain rfl := hsc.eq_of_pid hjob hjob' hpid'.symm
  have htally := h job hjob
  rw [(hc.told.of_process? hp).2.2, holdsOf_of_find? hs, howed] at htally
  rw [howed] at hplays
  exact ⟨htally, hplays⟩

/-- A granted request is tallied, by `Job.Tally.grant` for the caller and `Tallied.keep` for
everybody else. -/
theorem grant (hsc : sc.Sound) (h : m.Tallied sc) (hc : m.Chronicled) (hm : m.Steady sc) {pid : Pid}
    {q : Request} {rest : List Request} {p : Process} {script : Script}
    (hphase : m.phase = .requesting pid (q :: rest)) (hp : m.state.process? pid = some p)
    (hs : m.scripts.find? pid = some script) (hdue : q ∈ script.due p.age)
    (hscripts : m'.scripts = m.scripts.put pid (script.grant q))
    (howed : m'.phase.owed = fun _ => [])
    (hhistory : m'.history = m.history ++ [.acquired pid q.resource]) : m'.Tallied sc := by
  intro job hjob
  have howed' : m.phase.owed = fun _ => [] := by rw [hphase]; rfl
  have hlater : ∀ e ∈ [Happening.acquired pid q.resource], e.isOfResource = true := by
    simp [Happening.isOfResource]
  have hcount := History.count_executed_append m.history job.pid hlater
  have hgave : History.gave (m.history ++ [.acquired pid q.resource]) job.pid =
      History.gave m.history job.pid :=
    History.dated_append_of_none _ _ _ _ (by simp [Happening.returned?])
  by_cases hpid : pid = job.pid
  · subst hpid
    obtain ⟨htally, hplays⟩ := h.of_process hsc hc hm hjob hp hs howed'
    have hnew : m'.scripts.find? job.pid = some (script.grant q) := by
      rw [hscripts, Scripts.find?_put, if_pos rfl]
    rw [hhistory, hcount, hgave, History.got_acquired, if_pos rfl, (hc.told.of_process? hp).2.2,
      holdsOf_of_find? hnew, howed]
    exact htally.grant (hsc.jobs job hjob) hplays hdue
  · refine h.keep hjob ?_ ?_ (by rw [howed, howed']) ?_ ?_
    · rw [hhistory, hcount]
    · rw [holdsOf, hscripts, Scripts.find?_put, if_neg (Ne.symm hpid), holdsOf]
    · rw [hhistory, History.got_acquired, if_neg hpid]
    · rw [hhistory, hgave]

/-- An executed tick is tallied, by `Job.Tally.expire` for the one who executes. -/
theorem execute (hsc : sc.Sound) (h : m.Tallied sc) (hc : m.Chronicled) (hm : m.Steady sc)
    {pid : Pid} {p : Process} {script script' : Script} {expired : List ResourceId}
    (hphase : m.phase = .executing pid) (hp : m.state.process? pid = some p)
    (hs : m.scripts.find? pid = some script) (hdue : script.due p.age = [])
    (hexp : script.expire = .ok (expired, script'))
    (hscripts : m'.scripts = m.scripts.put pid script')
    (howed : m'.phase.owed = owing pid expired)
    (hhistory : m'.history = m.history ++ [.executed pid]) : m'.Tallied sc := by
  intro job hjob
  have howed' : m.phase.owed = fun _ => [] := by rw [hphase]; rfl
  have hlater : ∀ e ∈ [Happening.executed pid], e.isOfResource = false := by
    simp [Happening.isOfResource]
  have hdealt := History.dealt_append m.history job.pid hlater
  by_cases hpid : pid = job.pid
  · subst hpid
    obtain ⟨htally, hplays⟩ := h.of_process hsc hc hm hjob hp hs howed'
    have hnew : m'.scripts.find? job.pid = some script' := by
      rw [hscripts, Scripts.find?_put, if_pos rfl]
    rw [hhistory, hdealt.1, hdealt.2, List.count_append, (hc.told.of_process? hp).2.2,
      List.count_singleton_self, holdsOf_of_find? hnew, howed, owing_self]
    exact htally.expire (hsc.jobs job hjob) hplays hdue hexp
  · refine h.keep hjob ?_ ?_ (by rw [howed, howed', owing_of_ne (Ne.symm hpid)]) ?_ ?_
    · rw [hhistory, List.count_append]
      simp [hpid]
    · rw [holdsOf, hscripts, Scripts.find?_put, if_neg (Ne.symm hpid), holdsOf]
    · rw [hhistory, hdealt.1]
    · rw [hhistory, hdealt.2]

/-- A return is tallied, by `Job.Tally.returned` for the caller; whoever is woken has got nothing
yet. -/
theorem release (hsc : sc.Sound) (h : m.Tallied sc) (hm : m.Steady sc) {pid : Pid}
    {r : ResourceId} {waiters : Queue} {due : List ResourceId} {x : Resource}
    {woken : Option Pid} (hphase : m.phase = .releasing pid r waiters due)
    (hcalls : m.state.Calls pid r x) (hscripts : m'.scripts = m.scripts)
    (howed : m'.phase.owed = owing pid due)
    (hhistory : m'.history =
      m.history ++ .released pid r :: woken.toList.map fun w => .woken w r) : m'.Tallied sc := by
  intro job hjob
  have howed' : m.phase.owed = owing pid (r :: due) := by rw [hphase]; rfl
  have hcount := History.count_executed_append m.history job.pid
    (History.isOfResource_of_release pid r woken)
  have hgot : History.got (m.history ++ .released pid r :: woken.toList.map fun w => .woken w r)
      job.pid = History.got m.history job.pid := by
    refine History.dated_append_of_none _ _ _ _ fun e he => ?_
    rcases List.mem_cons.1 he with rfl | he
    · rfl
    · obtain ⟨w, -, rfl⟩ := List.mem_map.1 he
      rfl
  have hholds : m'.holdsOf job.pid = m.holdsOf job.pid := by rw [holdsOf, hscripts, holdsOf]
  by_cases hpid : pid = job.pid
  · subst hpid
    obtain ⟨p, hp⟩ := hcalls.process?
    obtain ⟨job', hjob', script, hpid', -, hplays⟩ := hm.stage.plays hp
    obtain rfl := hsc.eq_of_pid hjob hjob' hpid'.symm
    have htally := h job hjob
    rw [howed', owing_self] at htally hplays
    rw [hhistory, hcount, hgot, History.gave_released, if_pos rfl, hholds, howed, owing_self]
    exact htally.returned fun hmem => hplays.not_mem_of_owed (List.mem_append_right _ hmem)
  · refine h.keep hjob ?_ hholds ?_ ?_ ?_
    · rw [hhistory, hcount]
    · rw [howed, howed', owing_of_ne (Ne.symm hpid), owing_of_ne (Ne.symm hpid)]
    · rw [hhistory, hgot]
    · rw [hhistory, History.gave_released, if_neg hpid]

/-- Every episode is tallied: each case of `Episode` leaves a machine `Tallied`. -/
theorem episode (hsc : sc.Sound) (h : m.Tallied sc) (hc : m.Chronicled) (hm : m.Steady sc)
    (hep : m.Episode P m') : m'.Tallied sc := by
  cases hep with
  | quiet _ _ hscripts _ howed hhistory =>
    refine h.of_holds (hhistory.trans (List.append_nil _).symm) howed
      (fun e he => absurd he List.not_mem_nil) (fun _ => List.not_mem_nil) fun pid => ?_
    rw [holdsOf, hscripts, holdsOf]
  | @arrive job hphase harrivals _ hscripts howed hhistory =>
    refine h.of_holds hhistory (by rw [howed, hphase]; rfl) (by simp [Happening.isOfResource])
      (by simp) fun pid => ?_
    by_cases hpid : pid = job.pid
    · rw [hpid, hm.holdsOf_of_process? (hm.stage_of_arriving hphase harrivals).process?_arrival,
        holdsOf, hscripts, Scripts.find?_put, if_pos rfl]
      rfl
    · rw [holdsOf, hscripts, Scripts.find?_put, if_neg hpid, holdsOf]
  | @choose _ _ _ idle hphase _ _ _ hscripts _ howed hidle hhistory =>
    refine h.of_holds hhistory (by rw [howed, hphase]; rfl) (fun e he => ?_) (fun pid hmem => ?_)
      fun pid => ?_
    · rcases History.eq_of_mem_choice _ hidle e he with rfl | ⟨g, -, rfl⟩ <;> rfl
    · rcases History.eq_of_mem_choice _ hidle _ hmem with he | ⟨g, -, he⟩ <;> cases he
    · by_cases hg : m.state.leaver? = some pid
      · rw [hm.holdsOf_leaver hsc hphase hg, holdsOf, hscripts, Scripts.find?_without, if_pos hg]
        rfl
      · rw [holdsOf, hscripts, Scripts.find?_without, if_neg hg, holdsOf]
  | grant hphase hp hs hdue _ _ _ hscripts _ howed hhistory =>
    exact h.grant hsc hc hm hphase hp hs hdue hscripts howed hhistory
  | @refuse pid _ q _ _ hphase _ _ _ _ hscripts _ howed hhistory =>
    intro job hjob
    refine h.keep hjob ?_ ?_ (by rw [howed, hphase]; rfl) ?_ ?_
    · rw [hhistory, History.count_executed_append _ _ (by simp [Happening.isOfResource])]
    · rw [holdsOf, hscripts, holdsOf]
    · rw [hhistory]
      exact History.dated_append_of_none _ _ _ _ (by simp [Happening.gained?])
    · rw [hhistory]
      exact History.dated_append_of_none _ _ _ _ (by simp [Happening.returned?])
  | execute hphase _ hp hs hdue hexp _ hscripts _ howed hhistory =>
    exact h.execute hsc hc hm hphase hp hs hdue hexp hscripts howed hhistory
  | release hphase hcalls _ _ _ _ hscripts _ howed hhistory =>
    exact h.release hsc hm hphase hcalls hscripts howed hhistory

end Tallied

end Machine

namespace Scenario

variable {sc : Scenario}

/-- Wherever a run gets to, every job is tallied, by `Tallied.episode` for each stride. -/
theorem Reaches.tallied {σ : Type} {P : Policy σ} {memory : σ} {m : Machine σ} (hsc : sc.Admitted)
    (hP : P.Lawful) (h : sc.Reaches P memory m) (hm : m.phase.isSwitching = false) :
    m.Tallied sc := by
  refine (h.invariant (I := fun m => m.Chronicled ∧ m.Tallied sc) hsc hP
    (fun memory => ⟨.initial sc memory, .initial hsc.sound memory⟩)
    (fun hm ⟨hchron, htally⟩ hstr => ?_) hm).2
  have hep := hm.episode hstr
  exact ⟨hchron.episode hm hep, htally.episode hsc.sound hchron hm hep⟩

/-- When a run has ended normally, every job has executed its lifespan and nobody holds or owes
anything, so the `Job.Tally` is that of a finished job. -/
theorem Reaches.tally_of_normal {σ : Type} {P : Policy σ} {memory : σ} {m : Machine σ}
    (hsc : sc.Admitted) (hP : P.Lawful) (h : sc.Reaches P memory m)
    (hphase : m.phase = .over .normal) {job : Job} (hjob : job ∈ sc.jobs) :
    job.Tally job.lifespan [] [] (History.got m.history job.pid)
      (History.gave m.history job.pid) := by
  have hrest := Phase.isSwitching_of_over hphase
  obtain ⟨-, hprocs⟩ : m.arrivals = [] ∧ m.state.procs = [] := h.accounts hsc hP hphase
  obtain ⟨-, henr, -⟩ := h.chronicled hsc hP hrest
  have hnone : m.state.process? job.pid = none := by
    rw [State.process?, hprocs]
    rfl
  have hleft := h.left_of_normal hsc hP hphase hjob
  have htally := h.tallied hsc hP hrest job hjob
  rw [henr.served hjob hleft, (h.steady hsc hP hrest).holdsOf_of_process? hnone, hphase] at htally
  exact htally

/-- The **scripts are played faithfully**. Wherever the policy is to choose and wherever a tick
ends, a live process owns exactly what its script holds, and each hold goes back to a request of its
job and has so many ticks left that it ends where the request does. So when a run has ended
normally, what each process has `got` and `gave` back are the requests of its job, each once, the
one when the process had executed as many ticks as the request says and the other when it had
executed as many more as the hold lasts; and nobody else has got or given back anything. -/
theorem Admitted.script_fidelity (h : sc.Admitted) (d : Discipline) (memory : Memory) :
    (∀ m, sc.Reaches d.policy memory m →
      m.phase = .choosing ∨ (∃ wasIdle, m.phase = .closing wasIdle) →
      ∀ pid p, m.state.process? pid = some p → ∃ job ∈ sc.jobs, ∃ script,
        job.pid = pid ∧ m.scripts.find? pid = some script ∧ script.held.Nodup ∧
        (∀ r, m.state.Owns pid r ↔ r ∈ script.held) ∧
        ∀ hold ∈ script.holds, ∃ q ∈ job.requests, q.resource = hold.resource ∧
          p.age + hold.remaining = q.due + q.duration) ∧
    ((sc.run d.policy memory sc.stepBound).outcome = .ended .normal →
      sc.Reaches d.policy memory (sc.run d.policy memory sc.stepBound).machine ∧
      (sc.run d.policy memory sc.stepBound).machine.phase = .over .normal ∧
      ∀ history, history = (sc.run d.policy memory sc.stepBound).machine.history →
        (∀ job ∈ sc.jobs,
          (job.requests.map fun q => (q.resource, q.due)).Nodup ∧
          (History.got history job.pid).Perm
            (job.requests.map fun q => (q.resource, q.due)) ∧
          (History.gave history job.pid).Perm
            (job.requests.map fun q => (q.resource, q.due + q.duration))) ∧
        ∀ pid r, .acquired pid r ∈ history ∨ .released pid r ∈ history →
          ∃ job ∈ sc.jobs, job.pid = pid) := by
  refine ⟨fun m hm hphase pid p hp => ?_, fun hended => ?_⟩
  · have hst : Stage sc m.state m.scripts m.arrivals fun _ => [] := by
      rcases hphase with hphase | ⟨wasIdle, hphase⟩
      · exact (hm.steady h d.lawful (by rw [hphase]; rfl)).stage_of hphase
      · exact (hm.steady h d.lawful (by rw [hphase]; rfl)).stage_of hphase
    obtain ⟨job, hjob, script, hpid, hs, hplays⟩ := hst.plays hp
    refine ⟨job, hjob, script, hpid, hs, by simpa using hplays.nodup, fun r => ?_,
      fun hold hmem => ?_⟩
    · simp [hst.owns_iff, hs]
    · obtain ⟨q, hq, hres, -, hend⟩ := hplays.origin hold hmem
      exact ⟨q, hq, hres, hend⟩
  · obtain ⟨hreach, hphase⟩ := reaches_of_ended hended
    refine ⟨hreach, hphase, fun history hhistory => ?_⟩
    subst hhistory
    refine ⟨fun job hjob => ?_, fun pid r hmem => ?_⟩
    · have htally := hreach.tally_of_normal h d.lawful hphase hjob
      have hsound := h.sound.jobs job hjob
      exact ⟨hsound.nodup_map fun _ _ _ _ _ => by omega, htally.got_perm hsound,
        htally.gave_perm hsound⟩
    · obtain ⟨hchron, henr, -⟩ := hreach.chronicled h d.lawful (by rw [hphase]; rfl)
      rcases hmem with hmem | hmem
      · exact henr.listed (hchron.heard hmem rfl)
      · exact henr.listed (hchron.heard hmem rfl)

/-- When the policy is asked after two refusals, the first of the crowded processes holds the
resource for one more tick; and when the run has ended, it has got the resource once, before its
first tick, and given it back once, after its second one. -/
theorem script_fidelity_crowded :
    (∃ m, crowded.Reaches Discipline.roundRobin.policy none m ∧ m.phase = .choosing ∧
      ∃ job ∈ crowded.jobs, ∃ script, job.pid = 1 ∧ m.scripts.find? 1 = some script ∧
        script.held.Nodup ∧ (∀ r, m.state.Owns 1 r ↔ r ∈ script.held) ∧ script.holds = [⟨0, 1⟩] ∧
        ∃ q ∈ job.requests, q.resource = 0 ∧ 1 + 1 = q.due + q.duration) ∧
    ∃ m, crowded.Reaches Discipline.roundRobin.policy none m ∧ m.phase = .over .normal ∧
      (History.got m.history 1).Perm [(0, 0)] ∧ (History.gave m.history 1).Perm [(0, 2)] := by
  obtain ⟨halong, hafter⟩ := admitted_crowded.script_fidelity .roundRobin none
  constructor
  · have hm : crowded.Reaches Discipline.roundRobin.policy none _ := .of_sorted (by decide) rfl 23
    obtain ⟨job, hjob, script, hpid, hs, hnodup, howns, hholds⟩ := halong _ hm (Or.inl rfl) 1 _ rfl
    have hscript : script.holds = [⟨0, 1⟩] := by
      cases hs
      rfl
    exact ⟨_, hm, rfl, job, hjob, script, hpid, hs, hnodup, howns, hscript,
      hholds ⟨0, 1⟩ (hscript ▸ List.mem_singleton_self _)⟩
  · have hm : crowded.Reaches Discipline.roundRobin.policy none _ := .of_sorted (by decide) rfl 60
    obtain ⟨hmachine, hended⟩ := hm.run_of_over admitted_crowded Discipline.roundRobin.lawful rfl
    obtain ⟨-, -, hhistory⟩ := hafter hended
    obtain ⟨hjobs, -⟩ := hhistory _ rfl
    obtain ⟨-, hgot, hgave⟩ := hjobs _ (List.mem_cons_self ..)
    rw [hmachine] at hgot hgave
    exact ⟨_, hm, rfl, hgot, hgave⟩

end Scenario

end Uniprocessor
