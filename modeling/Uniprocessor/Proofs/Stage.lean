import Uniprocessor.Proofs.Lawful
import Uniprocessor.Proofs.Playing

/-!
# Processes, scripts and owners fit together

A state, the scripts and the jobs to come set the stage when every process is in its place, every
live process plays the script of a job, and a process owns exactly what its script holds and what it
owes. That a finished process owns nothing, so that it can leave, follows from this.

The lemmas say that the stage stays set under everything that a step of the machine does to a state:
a job arrives, a choice is carried out, a request is granted or refused, a process executes, a
resource is given back.
-/

namespace Uniprocessor

/-- One process owes these resources, and nobody else owes any. A process owes what has been used up
in the tick that it has executed, until it gives it back. -/
def owing (pid : Pid) (due : List ResourceId) (q : Pid) : List ResourceId :=
  if q = pid then due else []

theorem owing_self (pid : Pid) (due : List ResourceId) : owing pid due pid = due := if_pos rfl

theorem owing_of_ne {pid q : Pid} (h : q ≠ pid) (due : List ResourceId) : owing pid due q = [] :=
  if_neg h

theorem owing_nil (pid : Pid) : owing pid [] = fun _ => [] := by
  funext q
  exact ite_self []

/-- The scripts after a process has left, if one has. A script leaves with its process
(`Machine.carriedOut`). -/
def Scripts.without (ss : Scripts) : Option Pid → Scripts
  | none => ss
  | some pid => ss.erase pid

theorem Scripts.find?_without (ss : Scripts) (gone : Option Pid) (pid : Pid) :
    (ss.without gone).find? pid = if gone = some pid then none else ss.find? pid := by
  cases gone with
  | none => rfl
  | some g =>
    rw [Scripts.without, Scripts.find?_erase]
    by_cases hg : pid = g
    · rw [if_pos hg, if_pos (congrArg some hg.symm)]
    · rw [if_neg hg, if_neg fun he => hg (Option.some.inj he).symm]

/-- The processes, the scripts, the jobs to come and what is owed fit together. It holds of a
machine between any two strides, and it says why no step of the machine faults. -/
structure Stage (sc : Scenario) (s : State) (scripts : Scripts) (arrivals : List Job)
    (owed : Pid → List ResourceId) : Prop where
  /-- every process is in its place -/
  settled : s.Settled
  /-- the resource table is that of the scenario -/
  length_resources : s.resources.length = sc.resourceCount
  /-- the jobs to come are jobs of the scenario -/
  arrivals_mem : ∀ job ∈ arrivals, job ∈ sc.jobs
  /-- no job to come has the number of another or of a live process -/
  pids_nodup : (arrivals.map Job.pid ++ s.procs.map Process.pid).Nodup
  /-- every live process plays the script of a job -/
  plays : ∀ {pid : Pid} {p : Process}, s.process? pid = some p → ∃ job ∈ sc.jobs, ∃ script,
    job.pid = pid ∧ scripts.find? pid = some script ∧ script.Plays job p (owed pid)
  /-- only live processes have scripts -/
  live : ∀ {pid : Pid} {script : Script}, scripts.find? pid = some script →
    ∃ p, s.process? pid = some p
  /-- a process owns what it holds and what it owes -/
  owns_iff : ∀ {pid : Pid} {r : ResourceId}, s.Owns pid r ↔
    ∃ script, scripts.find? pid = some script ∧ r ∈ script.held ++ owed pid
  /-- a process that has nothing left to execute executes, until it leaves -/
  unfinished : ∀ {pid : Pid} {p : Process}, s.process? pid = some p →
    p.age < p.lifespan ∨ p.status = .running

namespace Stage

variable {sc : Scenario} {s t : State} {scripts : Scripts} {arrivals : List Job}
  {owed : Pid → List ResourceId}

/-- Live processes and jobs to come together are at most as many as jobs, since by
`Stage.pids_nodup` they have different numbers. -/
theorem length_le (h : Stage sc s scripts arrivals owed) :
    arrivals.length + s.procs.length ≤ sc.jobs.length := by
  have hsub : arrivals.map Job.pid ++ s.procs.map Process.pid ⊆ sc.jobs.map Job.pid := by
    intro pid hpid
    rcases List.mem_append.1 hpid with hm | hm
    · obtain ⟨job, hjob, rfl⟩ := List.mem_map.1 hm
      exact List.mem_map_of_mem (h.arrivals_mem job hjob)
    · obtain ⟨p, hp⟩ := State.exists_process?_iff.2 hm
      obtain ⟨job, hjob, -, rfl, -⟩ := h.plays hp
      exact List.mem_map_of_mem hjob
  simpa using (h.pids_nodup.subperm hsub).length_le

/-- A live process has one script, and `Stage.plays` says that it plays the script of a job of its
number. -/
theorem plays_of_find? (h : Stage sc s scripts arrivals owed) {pid : Pid} {p : Process}
    {script : Script} (hp : s.process? pid = some p) (hs : scripts.find? pid = some script) :
    ∃ job ∈ sc.jobs, job.pid = pid ∧ script.Plays job p (owed pid) := by
  obtain ⟨job, hjob, script', hpid, hs', hplays⟩ := h.plays hp
  rw [hs] at hs'
  cases hs'
  exact ⟨job, hjob, hpid, hplays⟩

/-- What a script holds or its process owes is owned by the process. This is `Stage.owns_iff` read
from right to left. -/
theorem owns_of_mem (h : Stage sc s scripts arrivals owed) {pid : Pid} {script : Script}
    {r : ResourceId} (hs : scripts.find? pid = some script) (hr : r ∈ script.held ++ owed pid) :
    s.Owns pid r := h.owns_iff.2 ⟨script, hs, hr⟩

/-- A process that is about to leave executes: by `Stage.unfinished` whoever is finished does. -/
theorem status?_leaver (h : Stage sc s scripts arrivals owed) {pid : Pid}
    (hg : s.leaver? = some pid) : s.status? pid = some .running := by
  obtain ⟨-, p, hp, hfin⟩ := State.leaver?_eq_some.1 hg
  rcases h.unfinished hp with hlt | hrun
  · exact absurd hlt (Nat.not_lt.2 hfin)
  · rw [State.status?_of_process? hp, hrun]

/-- A process that is about to leave owns nothing: by `Script.Plays` whatever it held was used up
before its lifespan, and nothing is owed. -/
theorem not_owns_leaver (hsc : sc.Sound) (h : Stage sc s scripts arrivals fun _ => []) {pid : Pid}
    (hg : s.leaver? = some pid) (r : ResourceId) : ¬ s.Owns pid r := by
  intro ho
  obtain ⟨-, p, hp, hfin⟩ := State.leaver?_eq_some.1 hg
  obtain ⟨script, hs, hr⟩ := h.owns_iff.1 ho
  rw [List.append_nil] at hr
  obtain ⟨job, hjob, -, hplays⟩ := h.plays_of_find? hp hs
  exact absurd (hplays.age_lt_of_mem_held (hsc.jobs job hjob) hr) (Nat.not_lt.2 hfin)

/-! ## Changes that leave owners and ages alone -/

/-- The `Stage` stays set for a settled state with the same owners and, up to status and priority,
the same records. -/
theorem restage (h : Stage sc s scripts arrivals owed) (ht : t.Settled)
    (hlen : t.resources.length = s.resources.length)
    (hpids : t.procs.map Process.pid = s.procs.map Process.pid)
    (howns : ∀ {pid r}, t.Owns pid r ↔ s.Owns pid r)
    (hproc : ∀ {pid p'}, t.process? pid = some p' → ∃ p, s.process? pid = some p ∧
      p'.lifespan = p.lifespan ∧ p'.base = p.base ∧ p'.age = p.age ∧
      (p'.age < p'.lifespan ∨ p'.status = .running)) :
    Stage sc t scripts arrivals owed where
  settled := ht
  length_resources := hlen.trans h.length_resources
  arrivals_mem := h.arrivals_mem
  pids_nodup := by
    rw [hpids]
    exact h.pids_nodup
  plays hp' := by
    obtain ⟨p, hp, hlife, hbase, hage, -⟩ := hproc hp'
    obtain ⟨job, hjob, script, hpid, hs, hplays⟩ := h.plays hp
    exact ⟨job, hjob, script, hpid, hs, hplays.congr hlife hbase hage⟩
  live hs := by
    obtain ⟨p, hp⟩ := h.live hs
    rw [State.exists_process?_iff, hpids]
    exact State.exists_process?_iff.1 ⟨p, hp⟩
  owns_iff := howns.trans h.owns_iff
  unfinished hp' := by
    obtain ⟨p, hp, -, -, -, hun⟩ := hproc hp'
    exact hun

/-- Repricing leaves the `Stage` set, since neither scripts nor owners look at priorities. -/
theorem repriced (h : Stage sc s scripts arrivals owed) (hr : s.Repriced t) :
    Stage sc t scripts arrivals owed := by
  refine h.restage (hr.settled h.settled) (by rw [hr.resources]) hr.map_pid hr.owns ?_
  intro pid p' hp'
  obtain ⟨n, hn⟩ := hr.symm.process? hp'
  have hun := h.unfinished hn
  exact ⟨_, hn, rfl, rfl, rfl, hun⟩

/-- The `Stage` stays set when the clock moves. -/
theorem ticked (h : Stage sc s scripts arrivals owed) (n : Nat) :
    Stage sc { s with tick := n } scripts arrivals owed :=
  h.restage (h.settled.congr rfl rfl rfl rfl) rfl rfl Iff.rfl fun hp' =>
    ⟨_, hp', rfl, rfl, rfl, h.unfinished hp'⟩

/-- The `Stage` stays set when a process that has ticks left to execute waits for a resource that it
does not own. -/
theorem park (h : Stage sc s scripts arrivals owed) {pid : Pid} {p : Process} {r : ResourceId}
    {x : Resource} (hx : s.resources[r]? = some x) (hp : s.process? pid = some p)
    (hrun : s.status? pid = some .running) (hlt : p.age < p.lifespan) (hown : ¬ s.Owns pid r) :
    Stage sc (s.park r x pid) scripts arrivals owed := by
  refine h.restage (h.settled.park hx hrun hown) (List.length_set ..)
    (State.map_pid_adjust (s := s.setResource r _) fun _ => rfl) (State.owns_park hx) ?_
  intro q p' hp'
  rw [State.process?_park] at hp'
  by_cases hq : q = pid
  · rw [if_pos hq, hq, hp] at hp'
    cases hp'
    exact ⟨p, hq ▸ hp, rfl, rfl, rfl, Or.inl hlt⟩
  · rw [if_neg hq] at hp'
    exact ⟨p', hp', rfl, rfl, rfl, h.unfinished hp'⟩

/-! ## The first stage, and arrivals -/

/-- The `Stage` is set when nobody has arrived: the state and the scripts are empty, and all jobs
are to come. -/
theorem initial (hsc : sc.Sound) (harr : arrivals.Perm sc.jobs) :
    Stage sc (.empty sc.resourceCount sc.ceiling) [] arrivals fun _ => [] where
  settled := State.settled_empty _ _
  length_resources := List.length_replicate
  arrivals_mem job hjob := harr.mem_iff.1 hjob
  pids_nodup := by
    rw [State.empty, List.map_nil, List.append_nil]
    exact (harr.map Job.pid).nodup_iff.2 hsc.pids_nodup
  plays hp := by cases hp
  live hs := by cases hs
  owns_iff {pid r} := by
    constructor
    · exact fun ho => absurd ho State.not_owns_empty
    · rintro ⟨script, hs, -⟩
      cases hs
  unfinished hp := by cases hp

/-- The number of the next job is not the number of a live process, so a newcomer can be
enrolled. -/
theorem process?_arrival {job : Job} (h : Stage sc s scripts (job :: arrivals) owed) :
    s.process? job.pid = none := by
  rw [State.process?_eq_none]
  intro hm
  have hnodup := h.pids_nodup
  rw [List.map_cons, List.cons_append, List.nodup_cons] at hnodup
  exact hnodup.1 (List.mem_append_right _ hm)

/-- The `Stage` stays set when the next job becomes a process with its script, which holds nothing
yet. -/
theorem joined (hsc : sc.Sound) {job : Job}
    (h : Stage sc s scripts (job :: arrivals) fun _ => []) :
    Stage sc (s.joined (.fresh job.pid job.lifespan job.prio))
      (scripts.put job.pid { requests := job.requests }) arrivals fun _ => [] := by
  have hnew : s.process? (Process.fresh job.pid job.lifespan job.prio).pid = none :=
    h.process?_arrival
  have hjob : job ∈ sc.jobs := h.arrivals_mem job (List.mem_cons_self ..)
  have hproc : ∀ q, (s.joined (.fresh job.pid job.lifespan job.prio)).process? q =
      if q = job.pid then some (.fresh job.pid job.lifespan job.prio) else s.process? q :=
    State.process?_joined hnew
  exact {
    settled := h.settled.joined hnew
    length_resources := h.length_resources
    arrivals_mem := fun j hj => h.arrivals_mem j (List.mem_cons_of_mem _ hj)
    pids_nodup := by
      have hnodup := h.pids_nodup
      rw [List.map_cons, List.cons_append, List.nodup_cons] at hnodup
      rw [List.nodup_append] at hnodup ⊢
      obtain ⟨hfresh, harr, -, hne⟩ := hnodup
      refine ⟨harr, (h.settled.joined hnew).ordered.nodup, fun a ha b hb => ?_⟩
      rcases State.mem_map_pid_insertByPid.1 hb with rfl | hb
      · rintro rfl
        exact hfresh (List.mem_append_left _ ha)
      · exact hne a ha b hb
    plays := fun {pid p} hp => by
      rw [hproc] at hp
      by_cases hq : pid = job.pid
      · rw [if_pos hq] at hp
        cases hp
        refine ⟨job, hjob, _, hq.symm, ?_, Script.Plays.fresh job⟩
        rw [Scripts.find?_put, if_pos hq]
      · rw [if_neg hq] at hp
        obtain ⟨j, hj, script, hpid, hs, hplays⟩ := h.plays hp
        refine ⟨j, hj, script, hpid, ?_, hplays⟩
        rw [Scripts.find?_put, if_neg hq, hs]
    live := fun {pid script} hs => by
      rw [hproc]
      by_cases hq : pid = job.pid
      · exact ⟨_, if_pos hq⟩
      · rw [Scripts.find?_put, if_neg hq] at hs
        rw [if_neg hq]
        exact h.live hs
    owns_iff := fun {pid r} => by
      change s.Owns pid r ↔ _
      rw [h.owns_iff, Scripts.find?_put]
      by_cases hq : pid = job.pid
      · -- The newcomer has no script before, and holds nothing after.
        rw [if_pos hq, hq]
        refine ⟨fun ⟨script, hs, _⟩ => ?_, fun ⟨script, hs, hr⟩ => ?_⟩
        · obtain ⟨p, hp⟩ := h.live hs
          rw [h.process?_arrival] at hp
          cases hp
        · cases hs
          cases hr
      · rw [if_neg hq]
    unfinished := fun {pid p} hp => by
      rw [hproc] at hp
      by_cases hq : pid = job.pid
      · rw [if_pos hq] at hp
        cases hp
        exact Or.inl (hsc.jobs job hjob).lifespan_pos
      · rw [if_neg hq] at hp
        exact h.unfinished hp }

/-! ## A choice is carried out -/

/-- A process that is chosen has ticks left to execute: it was ready or the `contender?`, and by
`Stage.unfinished` only one that executes can be finished. -/
theorem age_lt_of_chosen (h : Stage sc s scripts arrivals owed) {next : Option Pid}
    (hchose : s.Chose t next) {pid : Pid} (hn : next = some pid) {p : Process}
    (hp : s.process? pid = some p) : p.age < p.lifespan := by
  rcases hchose.chosen hn with hc | hm
  · obtain ⟨-, q, hq, hrun⟩ := State.contender?_eq_some.1 hc
    rw [hp] at hq
    cases hq
    simp only [Process.isRunnable, Bool.and_eq_true, Bool.not_eq_true', Process.isFinished,
      decide_eq_false_iff_not, Nat.not_le] at hrun
    exact hrun.2
  · refine (h.unfinished hp).resolve_right fun hrun => ?_
    rw [State.status_of_status? hp ((h.settled.mem_ready pid).1 hm)] at hrun
    cases hrun

/-- The `Stage` is set again when a choice has been carried out. Whoever is finished leaves with its
script and owns nothing (`not_owns_leaver`). -/
theorem switched (hsc : sc.Sound) (h : Stage sc s scripts arrivals fun _ => [])
    {next : Option Pid} (hchose : s.Chose t next) :
    Stage sc (s.switched t next) (scripts.without s.leaver?) arrivals fun _ => [] := by
  have hleave : ∀ pid, s.leaver? = some pid → s.status? pid = some .running :=
    fun _ => h.status?_leaver
  have hfree : ∀ pid, s.leaver? = some pid → ∀ r, ¬ s.Owns pid r :=
    fun _ => h.not_owns_leaver hsc
  have hset := h.settled.switched hchose hleave hfree
  have hst := hchose.status?_switched h.settled hleave
  exact {
    settled := hset
    length_resources := by
      rw [State.resources_switched, hchose.resources]
      exact h.length_resources
    arrivals_mem := h.arrivals_mem
    pids_nodup := by
      have hnodup := h.pids_nodup
      rw [List.nodup_append] at hnodup ⊢
      refine ⟨hnodup.1, hset.ordered.nodup, fun a ha b hb => hnodup.2.2 a ha b ?_⟩
      obtain ⟨p', hp'⟩ := State.exists_process?_iff.2 hb
      obtain ⟨-, p, hp, -⟩ := hchose.of_process?_switched hp'
      exact State.exists_process?_iff.1 ⟨p, hp⟩
    plays := fun {pid p'} hp' => by
      obtain ⟨hg, p, hp, hlife, hbase, hage⟩ := hchose.of_process?_switched hp'
      obtain ⟨job, hjob, script, hpid, hs, hplays⟩ := h.plays hp
      refine ⟨job, hjob, script, hpid, ?_, hplays.congr hlife hbase hage⟩
      rw [Scripts.find?_without, if_neg hg, hs]
    live := fun {pid script} hs => by
      rw [Scripts.find?_without] at hs
      by_cases hg : s.leaver? = some pid
      · rw [if_pos hg] at hs
        cases hs
      · rw [if_neg hg] at hs
        obtain ⟨p, hp⟩ := h.live hs
        obtain ⟨c, n, hcn⟩ := hchose.exists_process?_switched hg hp
        exact ⟨_, hcn⟩
    owns_iff := fun {pid r} => by
      rw [State.owns_congr (s := s) (by rw [State.resources_switched, hchose.resources]),
        Scripts.find?_without]
      by_cases hg : s.leaver? = some pid
      · rw [if_pos hg]
        refine ⟨fun ho => absurd ho (hfree pid hg r), fun ⟨script, hs, _⟩ => ?_⟩
        cases hs
      · rw [if_neg hg]
        exact h.owns_iff
    unfinished := fun {pid p'} hp' => by
      obtain ⟨hg, p, hp, hlife, -, hage⟩ := hchose.of_process?_switched hp'
      rcases h.unfinished hp with hlt | hrun
      · left
        rw [hage, hlife]
        exact hlt
      · -- A process that executes and is not about to leave has ticks left.
        left
        rw [hage, hlife]
        have hst : s.status? pid = some .running := by rw [State.status?_of_process? hp, hrun]
        have hcur := h.settled.running_current hst
        exact Nat.not_le.1 fun hle => hg (State.leaver?_eq_some.2 ⟨hcur, p, hp, hle⟩) }

/-! ## Requests, execution, returns -/

/-- The `Stage` stays set when a request that is due is granted: the script has a new hold, and the
process owns one resource more. -/
theorem give (hsc : sc.Sound) (h : Stage sc s scripts arrivals fun _ => []) {pid : Pid}
    {p : Process} {script : Script} {q : Request} {x : Resource}
    (hx : s.resources[q.resource]? = some x) (hfree : x.owner = none)
    (hp : s.process? pid = some p) (hrun : s.status? pid = some .running)
    (hs : scripts.find? pid = some script) (hq : q ∈ script.due p.age) :
    Stage sc (s.give q.resource x pid) (scripts.put pid (script.grant q)) arrivals
      fun _ => [] := by
  obtain ⟨job, hjob, hpid, hplays⟩ := h.plays_of_find? hp hs
  have hheld : ∀ r, r ∈ (script.grant q).held ++ [] ↔ r ∈ script.held ∨ r = q.resource := by
    intro r
    rw [Script.Plays.held_grant, List.append_nil, List.mem_append, List.mem_singleton]
  have hnobody : ∀ owner, ¬ s.Owns owner q.resource := by
    intro owner ho
    rw [State.owns_iff hx, hfree] at ho
    cases ho
  exact {
    settled := h.settled.give hx hrun
    length_resources := (List.length_set ..).trans h.length_resources
    arrivals_mem := h.arrivals_mem
    pids_nodup := h.pids_nodup
    plays := fun {pid' p'} hp' => by
      change s.process? pid' = some p' at hp'
      by_cases he : pid' = pid
      · subst he
        rw [hp] at hp'
        cases hp'
        refine ⟨job, hjob, _, hpid, ?_, hplays.grant hq (hsc.jobs job hjob)⟩
        rw [Scripts.find?_put, if_pos rfl]
      · obtain ⟨j, hj, script', hpid', hs', hplays'⟩ := h.plays hp'
        refine ⟨j, hj, script', hpid', ?_, hplays'⟩
        rw [Scripts.find?_put, if_neg he, hs']
    live := fun {pid' script'} hs' => by
      by_cases he : pid' = pid
      · exact ⟨p, he ▸ hp⟩
      · rw [Scripts.find?_put, if_neg he] at hs'
        exact h.live hs'
    owns_iff := fun {pid' r} => by
      rw [State.owns_give hx, Scripts.find?_put]
      by_cases he : pid' = pid
      · subst he
        simp only [if_true, Option.some.injEq, exists_eq_left', hheld]
        by_cases hr : r = q.resource
        · simp [hr]
        · simp [hr, h.owns_iff, hs]
      · rw [if_neg he]
        by_cases hr : r = q.resource
        · rw [if_pos hr, hr, ← h.owns_iff]
          exact iff_of_false he (hnobody pid')
        · rw [if_neg hr, h.owns_iff]
    unfinished := h.unfinished }

/-- The `Stage` stays set when a process executes a tick: its script counts its holds down, and the
process owes what is used up by that. -/
theorem ran (h : Stage sc s scripts arrivals fun _ => []) {pid : Pid} {p : Process}
    {script : Script} (hp : s.process? pid = some p) (hrun : s.status? pid = some .running)
    (hlt : p.age < p.lifespan) (hs : scripts.find? pid = some script) :
    ∃ expired script', script.expire = .ok (expired, script') ∧
      (∃ job ∈ sc.jobs, expired.length ≤ job.requests.length) ∧
      Stage sc (s.adjust pid fun q => { q with age := p.age + 1 }) (scripts.put pid script')
        arrivals (owing pid expired) := by
  obtain ⟨job, hjob, hpid, hplays⟩ := h.plays_of_find? hp hs
  obtain ⟨expired, script', hok, hperm, hplays'⟩ := hplays.expire_eq_ok hlt
  have hproc := fun q => s.process?_adjust_age pid (p.age + 1) q
  refine ⟨expired, script', hok, ⟨job, hjob, ?_⟩, ?_⟩
  · have hlen := hperm.length_eq
    rw [List.length_append] at hlen
    exact Nat.le_trans (by omega) hplays.length_held_le
  · exact {
      settled := h.settled.congr (s.places_adjust_age pid _) rfl rfl rfl
      length_resources := h.length_resources
      arrivals_mem := h.arrivals_mem
      pids_nodup := by
        rw [State.map_pid_adjust (f := fun q => { q with age := p.age + 1 }) fun _ => rfl]
        exact h.pids_nodup
      plays := fun {pid' p'} hp' => by
        rw [hproc] at hp'
        by_cases he : pid' = pid
        · rw [if_pos he, he, hp] at hp'
          cases hp'
          rw [he, owing_self]
          refine ⟨job, hjob, script', hpid, ?_, hplays'⟩
          rw [Scripts.find?_put, if_pos rfl]
        · rw [if_neg he] at hp'
          rw [owing_of_ne he]
          obtain ⟨j, hj, script', hpid', hs', hplays'⟩ := h.plays hp'
          refine ⟨j, hj, script', hpid', ?_, hplays'⟩
          rw [Scripts.find?_put, if_neg he, hs']
      live := fun {pid' script'} hs' => by
        rw [hproc]
        by_cases he : pid' = pid
        · rw [if_pos he, he, hp]
          exact ⟨_, rfl⟩
        · rw [if_neg he]
          rw [Scripts.find?_put, if_neg he] at hs'
          exact h.live hs'
      owns_iff := fun {pid' r} => by
        change s.Owns pid' r ↔ _
        rw [h.owns_iff, Scripts.find?_put]
        by_cases he : pid' = pid
        · rw [if_pos he, he, owing_self, hs]
          simp only [Option.some.injEq, exists_eq_left', List.append_nil]
          exact hperm.mem_iff.symm
        · rw [if_neg he, owing_of_ne he]
      unfinished := fun {pid' p'} hp' => by
        rw [hproc] at hp'
        by_cases he : pid' = pid
        · rw [if_pos he, he, hp] at hp'
          cases hp'
          exact Or.inr (State.status_of_status? hp hrun :)
        · rw [if_neg he] at hp'
          exact h.unfinished hp' }

/-- Whatever is given back, a record afterwards is what it was, but for its status. Whoever is woken
was blocked, and has ticks left to execute. -/
theorem of_process?_vacate (h : Stage sc s scripts arrivals owed) {pid : Pid} {r : ResourceId}
    {x : Resource} (hcalls : s.Calls pid r x) {woken : Option Pid}
    (hw : ∀ w, woken = some w → w ∈ x.waiters) {q : Pid} {p' : Process}
    (hp' : (s.vacate r x woken).process? q = some p') :
    ∃ p, s.process? q = some p ∧ p'.lifespan = p.lifespan ∧ p'.base = p.base ∧ p'.age = p.age ∧
      (p'.age < p'.lifespan ∨ p'.status = .running) := by
  rw [State.process?_vacate] at hp'
  by_cases hq : woken = some q
  · rw [if_pos hq] at hp'
    obtain ⟨p, hp, rfl⟩ := Option.map_eq_some_iff.1 hp'
    have hblocked := h.settled.status?_of_waits ((State.waits_iff hcalls.entry).2 (hw q hq))
    refine ⟨p, hp, rfl, rfl, rfl, Or.inl ((h.unfinished hp).resolve_right fun hrun => ?_)⟩
    rw [State.status_of_status? hp hblocked] at hrun
    cases hrun
  · rw [if_neg hq] at hp'
    exact ⟨p', hp', rfl, rfl, rfl, h.unfinished hp'⟩

/-- The `Stage` stays set when a process gives back what it owes, and it owes it no longer. -/
theorem vacate {pid : Pid} {r : ResourceId} {due : List ResourceId}
    (h : Stage sc s scripts arrivals (owing pid (r :: due))) {x : Resource}
    (hcalls : s.Calls pid r x) {woken : Option Pid} (hw : ∀ w, woken = some w → w ∈ x.waiters) :
    Stage sc (s.vacate r x woken) scripts arrivals (owing pid due) := by
  have hown : s.Owns pid r := by
    obtain ⟨p, hp⟩ := hcalls.process?
    obtain ⟨job, -, script, -, hs, -⟩ := h.plays hp
    refine h.owns_of_mem hs ?_
    rw [owing_self]
    exact List.mem_append_right _ (List.mem_cons_self ..)
  exact {
    settled := hcalls.settled_vacate hw
    length_resources := by
      rw [State.length_resources_vacate]
      exact h.length_resources
    arrivals_mem := h.arrivals_mem
    pids_nodup := by
      rw [State.map_pid_vacate]
      exact h.pids_nodup
    plays := fun {q p'} hp' => by
      obtain ⟨p, hp, hlife, hbase, hage, -⟩ := h.of_process?_vacate hcalls hw hp'
      obtain ⟨job, hjob, script, hpid, hs, hplays⟩ := h.plays hp
      refine ⟨job, hjob, script, hpid, hs, ?_⟩
      by_cases hq : q = pid
      · rw [hq, owing_self] at hplays ⊢
        exact (hplays.congr hlife hbase hage).returned
      · rw [owing_of_ne hq] at hplays ⊢
        exact hplays.congr hlife hbase hage
    live := fun {q script} hs => by
      rw [State.exists_process?_iff, State.map_pid_vacate, ← State.exists_process?_iff]
      exact h.live hs
    owns_iff := fun {q r'} => by
      rw [State.owns_vacate hcalls.entry, h.owns_iff]
      by_cases hq : q = pid
      · rw [hq, owing_self, owing_self]
        refine ⟨fun ⟨⟨script, hs, hr'⟩, hne⟩ => ⟨script, hs, ?_⟩,
          fun ⟨script, hs, hr'⟩ => ⟨⟨script, hs, ?_⟩, ?_⟩⟩
        · simpa [hne] using hr'
        · rcases List.mem_append.1 hr' with hm | hm
          · exact List.mem_append_left _ hm
          · exact List.mem_append_right _ (List.mem_cons_of_mem _ hm)
        · -- What is still held or owed is something else.
          obtain ⟨p, hp⟩ := hcalls.process?
          obtain ⟨job, -, -, hplays⟩ := h.plays_of_find? hp hs
          rw [owing_self] at hplays
          exact fun he => hplays.not_mem_of_owed (he ▸ hr')
      · rw [owing_of_ne hq, owing_of_ne hq]
        refine ⟨And.left, fun ho => ⟨ho, fun he => hq ?_⟩⟩
        have ho' : s.Owns q r' := h.owns_iff.2 (by rw [owing_of_ne hq]; exact ho)
        exact (he ▸ ho').unique hown
    unfinished := fun {q p'} hp' => by
      obtain ⟨p, -, -, -, -, hun⟩ := h.of_process?_vacate hcalls hw hp'
      exact hun }

end Stage

end Uniprocessor
