import Uniprocessor.Proofs.Episode
import Uniprocessor.Proofs.Safety
import Uniprocessor.Proofs.Telling
import Uniprocessor.Proofs.Wakeup

/-!
# The history of a run tells its states

Events are recorded where the machine takes its steps, not where the state changes: who has left is
found by comparing the current process with the chosen one, and who was woken by comparing two wait
queues. Nevertheless the history leaves nothing out and makes nothing up (`Chronicled`): an episode
changes the state and what the history tells of it in the same way. So each sample is told by what
had been recorded when it was taken (`Scenario.Admitted.told_by_history`).
-/

namespace Uniprocessor

/-- Two jobs with the same number are one, since a `Sound` scenario repeats no number. -/
theorem Scenario.Sound.eq_of_pid {sc : Scenario} (hsc : sc.Sound) {job other : Job}
    (hjob : job ∈ sc.jobs) (hother : other ∈ sc.jobs) (hpid : job.pid = other.pid) :
    job = other := List.inj_on_of_nodup_map hsc.pids_nodup hjob hother hpid

namespace Machine

variable {σ : Type} {sc : Scenario} {P : Policy σ} {m m' : Machine σ}

/-- The history tells the state, and everything in it is founded: each entry was possible where it
stands. -/
structure Chronicled (m : Machine σ) : Prop where
  /-- the history tells the state -/
  told : m.state.ToldBy m.history
  /-- nothing is heard of a process before it arrives -/
  heard : ∀ {e : Happening} {pid : Pid}, e ∈ m.history → e.pid? = some pid →
    .arrived pid ∈ m.history
  /-- jobs to come have not arrived -/
  pending : ∀ {job : Job}, job ∈ m.arrivals → .arrived job.pid ∉ m.history
  /-- every entry is founded -/
  founded : ∀ {before after : List Happening} {e : Happening},
    m.history = before ++ e :: after → History.Founded before after e

namespace Chronicled

theorem initial (sc : Scenario) (memory : σ) : (Machine.initial sc memory).Chronicled where
  told := .empty ..
  heard he := absurd he List.not_mem_nil
  pending _ := List.not_mem_nil
  founded heq := by simp [history, Machine.initial] at heq

/-- Where nothing is recorded, nothing has to be said, if the state is still told by the history. -/
theorem congr (h : m.Chronicled) (hhistory : m'.history = m.history)
    (harrivals : m'.arrivals = m.arrivals) (htold : m'.state.ToldBy m.history) :
    m'.Chronicled where
  told := hhistory ▸ htold
  heard := hhistory ▸ h.heard
  pending := hhistory ▸ harrivals ▸ h.pending
  founded := hhistory ▸ h.founded

/-- Founded entries of live processes may be recorded, if they tell the new state and do not begin
with a wake-up: the general step behind all others here. -/
theorem append (h : m.Chronicled) {later : List Happening}
    (hhistory : m'.history = m.history ++ later) (harrivals : m'.arrivals = m.arrivals)
    (htold : m'.state.ToldBy (m.history ++ later))
    (hlive : ∀ e ∈ later, ∀ pid, e.pid? = some pid → ∃ p, m.state.process? pid = some p)
    (hfounded : ∀ {mid e after}, later = mid ++ e :: after →
      History.Founded (m.history ++ mid) after e)
    (hwoken : later.takeWhile Happening.isWoken = []) : m'.Chronicled where
  told := hhistory ▸ htold
  heard {e pid} he hpid := by
    rw [hhistory] at he ⊢
    refine List.mem_append_left _ ?_
    rcases List.mem_append.1 he with he | he
    · exact h.heard he hpid
    · obtain ⟨p, hp⟩ := hlive e he pid hpid
      exact (h.told.of_process? hp).1
  pending {job} hjob hmem := by
    rw [harrivals] at hjob
    rw [hhistory] at hmem
    rcases List.mem_append.1 hmem with hmem | hmem
    · exact h.pending hjob hmem
    · obtain ⟨p, hp⟩ := hlive _ hmem job.pid rfl
      exact h.pending hjob (h.told.of_process? hp).1
  founded {before after e} heq := by
    rw [hhistory] at heq
    rcases History.append_eq_append_cons heq with ⟨mid, hmid, rfl⟩ | ⟨mid, rfl, hmid⟩
    · exact (h.founded hmid).append hwoken
    · exact hfounded hmid

/-- One founded entry of a live process may be recorded, if it tells the new state and is no
wake-up: `Chronicled.append` with one entry. -/
theorem record (h : m.Chronicled) {what : Happening}
    (hhistory : m'.history = m.history ++ [what]) (harrivals : m'.arrivals = m.arrivals)
    (htold : m'.state.ToldBy (m.history ++ [what]))
    (hlive : ∀ pid, what.pid? = some pid → ∃ p, m.state.process? pid = some p)
    (hfounded : History.Founded m.history [] what) (hwoken : what.isWoken = false) :
    m'.Chronicled := by
  refine h.append hhistory harrivals htold (fun e he => ?_) (fun {mid e after} heq => ?_) ?_
  · rw [List.mem_singleton.1 he]
    exact hlive
  · obtain ⟨rfl, hmid⟩ | ⟨-, hmid⟩ := List.singleton_eq_append_iff.1 heq
    · cases hmid
      rwa [List.append_nil]
    · cases hmid
  · rw [List.takeWhile_cons, hwoken]
    rfl

/-- An arrival is told, and is the first that is heard of the process, since its job was still to
come. -/
theorem arrive (h : m.Chronicled) {job : Job}
    (hst : Stage sc m.state m.scripts m.arrivals fun _ => [])
    (harrivals : m.arrivals = job :: m'.arrivals)
    (hstate : m'.state = m.state.joined (.fresh job.pid job.lifespan job.prio))
    (hhistory : m'.history = m.history ++ [.arrived job.pid]) : m'.Chronicled := by
  rw [harrivals] at hst
  have hunheard : ∀ e ∈ m.history, e.pid? ≠ some job.pid := fun e he hpid =>
    h.pending (harrivals ▸ List.mem_cons_self ..) (h.heard he hpid)
  exact {
    told := by
      rw [hhistory, hstate]
      refine h.told.of_ages rfl (by simp [Happening.isOfResource]) fun pid => ?_
      rw [State.age?_joined hst.process?_arrival, History.age?_arrived hunheard, h.told.ages]
      rfl
    heard := fun {e pid} he hpid => by
      rw [hhistory] at he ⊢
      rcases List.mem_append.1 he with he | he
      · exact List.mem_append_left _ (h.heard he hpid)
      · rw [List.mem_singleton.1 he] at hpid
        cases hpid
        exact List.mem_append_right _ (List.mem_singleton_self _)
    pending := fun {other} hother hmem => by
      rw [hhistory] at hmem
      rcases List.mem_append.1 hmem with hmem | hmem
      · exact h.pending (harrivals ▸ List.mem_cons_of_mem _ hother) hmem
      · -- No two jobs to come have the same number.
        have hpid : other.pid = job.pid := by simpa using hmem
        have hnodup := hst.pids_nodup
        rw [List.map_cons, List.cons_append, List.nodup_cons] at hnodup
        exact hnodup.1 (List.mem_append_left _ (hpid ▸ List.mem_map_of_mem hother))
    founded := fun {before after e} heq => by
      rw [hhistory] at heq
      rcases History.append_eq_append_cons heq with ⟨mid, hmid, rfl⟩ | ⟨mid, rfl, hmid⟩
      · exact (h.founded hmid).append rfl
      · obtain ⟨rfl, he⟩ | ⟨-, he⟩ := List.singleton_eq_append_iff.1 hmid
        · cases he
          trivial
        · cases he }

/-- A departure is told, and so is an idle tick: what may be recorded when a choice is carried
out. -/
theorem choose (h : m.Chronicled) {t : State} {next : Option Pid} {idle : List Happening}
    (hchose : m.state.Chose t next) (hstate : m'.state = m.state.switched t next)
    (harrivals : m'.arrivals = m.arrivals) (hidle : idle = [] ∨ next = none ∧ idle = [.idle])
    (hhistory : m'.history = m.history ++ (m.state.leaver?.toList.map .left ++ idle)) :
    m'.Chronicled := by
  have hmem := History.eq_of_mem_choice m.state.leaver? hidle
  -- What the history tells of ages after the departure, if there is one, and the idle tick.
  have hage : ∀ pid, History.age? (m.history ++ (m.state.leaver?.toList.map .left ++ idle)) pid =
      if m.state.leaver? = some pid then none else History.age? m.history pid := by
    intro pid
    have hleft : History.age? (m.history ++ m.state.leaver?.toList.map .left) pid =
        if m.state.leaver? = some pid then none else History.age? m.history pid := by
      cases m.state.leaver? with
      | none => simp
      | some g => simp [History.age?_left, eq_comm]
    rw [← hleft, ← List.append_assoc]
    rcases hidle with rfl | ⟨-, rfl⟩
    · rw [List.append_nil]
    · exact History.age?_idle
  refine h.append hhistory harrivals ?_ (fun e he pid hpid => ?_) (fun {mid e after} heq => ?_) ?_
  · rw [hstate]
    refine h.told.of_ages ?_ (fun e he => ?_) fun pid => ?_
    · rw [State.resources_switched, hchose.resources]
    · rcases hmem e he with rfl | ⟨g, -, rfl⟩ <;> rfl
    · rw [hage, hchose.age?_switched, h.told.ages]
  · rcases hmem e he with rfl | ⟨g, hg, rfl⟩
    · cases hpid
    · cases hpid
      obtain ⟨-, p, hp, -⟩ := State.leaver?_eq_some.1 hg
      exact ⟨p, hp⟩
  · have he : e ∈ m.state.leaver?.toList.map Happening.left ++ idle := by
      rw [heq]
      exact List.mem_append_right _ (List.mem_cons_self ..)
    rcases hmem e he with rfl | ⟨g, -, rfl⟩ <;> trivial
  · rw [List.takeWhile_eq_nil_iff]
    intro hlt hwoken
    rcases hmem _ (List.get_mem _ ⟨0, hlt⟩) with he | ⟨g, -, he⟩ <;>
      rw [he] at hwoken <;> cases hwoken

/-- A return is told, with whoever is woken: the holder and the waiter are gone from what the
history tells, as from the table. -/
theorem release (h : m.Chronicled) {pid : Pid} {r : ResourceId} {x : Resource} {woken : Option Pid}
    (hcalls : m.state.Calls pid r x) (hx : x.owner = some pid)
    (ht : (m.state.vacate r x woken).Repriced m'.state) (hnone : woken = none ↔ x.waiters = [])
    (hwoken : ∀ w, woken = some w → w ∈ x.waiters) (harrivals : m'.arrivals = m.arrivals)
    (hhistory : m'.history =
      m.history ++ .released pid r :: woken.toList.map fun w => .woken w r) : m'.Chronicled := by
  have hstate := (h.told.vacate hcalls.settled hcalls.entry hx).congr ht.age? ht.resources
  refine h.append hhistory harrivals hstate (fun e he q hq => ?_) (fun heq => ?_) rfl
  · rcases List.mem_cons.1 he with rfl | he
    · cases hq
      exact hcalls.process?
    · obtain ⟨w, hw, rfl⟩ := List.mem_map.1 he
      cases hq
      exact hcalls.settled.process?_of_waits
        ((State.waits_iff hcalls.entry).2 (hwoken q (by simpa using hw)))
  · refine History.founded_release _ ?_ heq
    rw [← h.told.waiters hcalls.entry]
    exact hnone

/-- Every episode is told: each case of `Episode` is one of the steps above. -/
theorem episode (h : m.Chronicled) (hm : m.Steady sc) (hep : m.Episode P m') : m'.Chronicled := by
  cases hep with
  | quiet hprocs hresources _ harrivals _ hhistory =>
    refine h.congr hhistory harrivals (h.told.congr ?_ hresources)
    funext pid
    rw [State.age?, State.age?, State.process?, State.process?, hprocs]
  | arrive hphase harrivals hstate _ _ hhistory =>
    exact h.arrive (hm.stage_of hphase) harrivals hstate hhistory
  | choose _ _ hchose hstate _ harrivals _ hidle hhistory =>
    exact h.choose hchose hstate harrivals hidle hhistory
  | @grant pid q rest p script x _ _ _ _ hcalls _ ht _ harrivals _ hhistory =>
    refine h.record hhistory harrivals ?_ (fun p hp => ?_) trivial rfl
    · exact (h.told.give hcalls.entry pid).congr ht.age? ht.resources
    · cases hp
      exact hcalls.process?
  | @refuse pid owner q rest x _ hcalls hx hne ht _ harrivals _ hhistory =>
    have hfree : pid ∉ x.waiters := fun hw =>
      hcalls.settled.not_waits_of_running hcalls.running _ ((State.waits_iff hcalls.entry).2 hw)
    refine h.record hhistory harrivals ?_ (fun p hp => ?_) ⟨owner, hne, ?_⟩ rfl
    · exact (h.told.park hcalls.entry hfree).congr ht.age? ht.resources
    · cases hp
      exact hcalls.process?
    · rw [← h.told.owner hcalls.entry, hx]
      rfl
  | @execute pid p script script' expired _ _ hp _ _ _ hstate _ harrivals _ hhistory =>
    refine h.record hhistory harrivals ?_ (fun q hq => ?_) trivial rfl
    · rw [hstate]
      refine h.told.of_ages rfl (by simp [Happening.isOfResource]) fun q => ?_
      rw [State.age?_adjust_age hp, History.age?_executed, h.told.ages]
    · cases hq
      exact ⟨p, hp⟩
  | release _ hcalls hx ht hnone hwoken _ harrivals _ hhistory =>
    exact h.release hcalls hx ht hnone hwoken harrivals hhistory

end Chronicled

/-! ## The jobs of a run -/

/-- Every job is still to come or has arrived, nobody else arrives, and whoever has left has
executed its whole lifespan. -/
structure Enrolled (sc : Scenario) (m : Machine σ) : Prop where
  /-- every job is still to come or has arrived -/
  known : ∀ {job : Job}, job ∈ sc.jobs → job ∈ m.arrivals ∨ .arrived job.pid ∈ m.history
  /-- whoever has arrived is a job -/
  listed : ∀ {pid : Pid}, .arrived pid ∈ m.history → ∃ job ∈ sc.jobs, job.pid = pid
  /-- whoever has left has executed its lifespan -/
  served : ∀ {job : Job}, job ∈ sc.jobs → .left job.pid ∈ m.history →
    m.history.count (.executed job.pid) = job.lifespan

namespace Enrolled

theorem initial (sc : Scenario) (memory : σ) : (Machine.initial sc memory).Enrolled sc where
  known hjob := Or.inl ((List.mergeSort_perm _ _).mem_iff.2 hjob)
  listed hmem := absurd hmem List.not_mem_nil
  served _ hmem := absurd hmem List.not_mem_nil

/-- Where nobody arrives, only who leaves has to be looked at, for whether its lifespan has been
executed. -/
theorem append (h : m.Enrolled sc) {later : List Happening}
    (hhistory : m'.history = m.history ++ later) (harrivals : m'.arrivals = m.arrivals)
    (hnew : ∀ pid, .arrived pid ∉ later)
    (hserved : ∀ {job : Job}, job ∈ sc.jobs → .left job.pid ∈ m.history ++ later →
      (m.history ++ later).count (.executed job.pid) = job.lifespan) : m'.Enrolled sc where
  known hjob := by
    rw [hhistory, harrivals]
    exact (h.known hjob).imp_right (List.mem_append_left _)
  listed hmem := by
    rw [hhistory] at hmem
    exact h.listed ((List.mem_append.1 hmem).resolve_right (hnew _))
  served hjob hmem := by
    rw [hhistory] at hmem ⊢
    exact hserved hjob hmem

/-- Where nobody arrives, executes or leaves, nothing has to be looked at: what is about resources
leaves a machine `Enrolled`. -/
theorem of_isOfResource (h : m.Enrolled sc) {later : List Happening}
    (hhistory : m'.history = m.history ++ later) (harrivals : m'.arrivals = m.arrivals)
    (hlater : ∀ e ∈ later, e.isOfResource = true) : m'.Enrolled sc := by
  have hnot : ∀ e : Happening, e.isOfResource = false → e ∉ later := by
    intro e he hmem
    rw [hlater e hmem] at he
    cases he
  refine h.append hhistory harrivals (fun pid => hnot _ rfl) fun hjob hmem => ?_
  rw [List.count_append, List.count_eq_zero_of_not_mem (hnot _ rfl), Nat.add_zero]
  exact h.served hjob ((List.mem_append.1 hmem).resolve_right (hnot _ rfl))

/-- A job that arrives is the first of those to come, and from then on it is known by its arrival in
the history. -/
theorem arrive (h : m.Enrolled sc) (hm : m.Steady sc) {job : Job}
    (harrivals : m.arrivals = job :: m'.arrivals)
    (hhistory : m'.history = m.history ++ [.arrived job.pid]) : m'.Enrolled sc where
  known {other} hother := by
    rw [hhistory]
    rcases h.known hother with hmem | hmem
    · rw [harrivals] at hmem
      rcases List.mem_cons.1 hmem with rfl | hmem
      · exact Or.inr (List.mem_append_right _ (List.mem_singleton_self _))
      · exact Or.inl hmem
    · exact Or.inr (List.mem_append_left _ hmem)
  listed {pid} hmem := by
    rw [hhistory] at hmem
    rcases List.mem_append.1 hmem with hmem | hmem
    · exact h.listed hmem
    · cases List.mem_singleton.1 hmem
      exact ⟨job, hm.stage.arrivals_mem job (harrivals ▸ List.mem_cons_self ..), rfl⟩
  served {other} hother hmem := by
    rw [hhistory] at hmem ⊢
    have hleft := (List.mem_append.1 hmem).resolve_right (by simp)
    rw [List.count_append, h.served hother hleft]
    simp

/-- Whoever is about to leave is finished, and nobody executes longer than its lifespan, so the
history has it execute all of its lifespan. -/
theorem count_executed_of_leaver (hsc : sc.Sound) (hc : m.Chronicled) (hm : m.Steady sc) {job : Job}
    (hjob : job ∈ sc.jobs) (hg : m.state.leaver? = some job.pid) :
    m.history.count (.executed job.pid) = job.lifespan := by
  obtain ⟨-, p, hp, hfin⟩ := State.leaver?_eq_some.1 hg
  obtain ⟨job', hjob', script, hpid, -, hplays⟩ := hm.stage.plays hp
  obtain rfl := hsc.eq_of_pid hjob hjob' hpid.symm
  rw [hplays.lifespan] at hfin
  rw [(hc.told.of_process? hp).2.2]
  exact Nat.le_antisymm hplays.age_le hfin

/-- Every episode leaves the machine `Enrolled`: jobs come from the list in its order, and leave
when they are served. -/
theorem episode (hsc : sc.Sound) (h : m.Enrolled sc) (hc : m.Chronicled) (hm : m.Steady sc)
    (hep : m.Episode P m') : m'.Enrolled sc := by
  cases hep with
  | quiet _ _ _ harrivals _ hhistory =>
    exact h.of_isOfResource (hhistory.trans (List.append_nil _).symm) harrivals
      fun e he => absurd he List.not_mem_nil
  | arrive _ harrivals _ _ _ hhistory => exact h.arrive hm harrivals hhistory
  | @choose memory t next idle hphase _ _ _ _ harrivals _ hidle hhistory =>
    have hnot : ∀ {e}, e ≠ .idle → (∀ pid, e ≠ .left pid) →
        e ∉ m.state.leaver?.toList.map Happening.left ++ idle := by
      intro e hne hleft hmem
      rcases History.eq_of_mem_choice _ hidle e hmem with rfl | ⟨pid, -, rfl⟩
      · exact hne rfl
      · exact hleft pid rfl
    refine h.append hhistory harrivals (fun _ => hnot (by simp) (by simp)) fun {job} hjob hmem => ?_
    rw [List.count_append, List.count_eq_zero_of_not_mem (hnot (by simp) (by simp)), Nat.add_zero]
    rcases List.mem_append.1 hmem with hmem | hmem
    · exact h.served hjob hmem
    · have hg : m.state.leaver? = some job.pid := by
        rcases History.eq_of_mem_choice _ hidle _ hmem with he | ⟨pid, hg, he⟩ <;> cases he
        exact hg
      exact count_executed_of_leaver hsc hc hm hjob hg
  | grant _ _ _ _ _ _ _ _ harrivals _ hhistory =>
    exact h.of_isOfResource hhistory harrivals (by simp [Happening.isOfResource])
  | refuse _ _ _ _ _ _ harrivals _ hhistory =>
    exact h.of_isOfResource hhistory harrivals (by simp [Happening.isOfResource])
  | @execute pid p _ _ _ _ _ hp _ _ _ _ _ harrivals _ hhistory =>
    refine h.append hhistory harrivals (by simp) fun {job} hjob hmem => ?_
    have hleft := (List.mem_append.1 hmem).resolve_right (by simp)
    -- Whoever executes has not left.
    have hne : pid ≠ job.pid := by
      rintro rfl
      exact (hc.told.of_process? hp).2.1 hleft
    rw [List.count_append, h.served hjob hleft]
    simp [hne]
  | @release pid r _ _ x woken _ _ _ _ _ _ _ harrivals _ hhistory =>
    exact h.of_isOfResource hhistory harrivals (History.isOfResource_of_release pid r woken)

end Enrolled

/-! ## Samples -/

/-- A stride takes no sample, or closes the tick with one of the present state, and then records
nothing. -/
theorem Strides.samples {limit : Nat} (h : m.Strides P limit m') : m'.samples = m.samples ∨
    m'.samples = m.samples.push ⟨m.state, m.history.length⟩ ∧ m'.history = m.history ∧
      ∃ idle, m.phase = .closing idle := by
  have hlength : m.history.length = m.events.size := by simp [Machine.history]
  cases h with
  | drain => exact Or.inl (carriedOut_samples ..)
  | idle => exact Or.inl (carriedOut_samples ..)
  | turn => exact Or.inl (carriedOut_samples ..)
  | release => exact Or.inl (recordWoken_samples ..)
  | stick hphase => exact Or.inr ⟨by rw [hlength], rfl, _, hphase⟩
  | tick hphase => exact Or.inr ⟨by rw [hlength], rfl, _, hphase⟩
  | _ => exact Or.inl rfl

/-- Every sample is `ToldBy` what had been recorded when it was taken, though more has been recorded
since. -/
def Sampled (m : Machine σ) : Prop :=
  ∀ x ∈ m.samples, x.recorded ≤ m.history.length ∧
    x.state.ToldBy (m.history.take x.recorded)

theorem sampled_initial (sc : Scenario) (memory : σ) : (Machine.initial sc memory).Sampled := by
  intro x hx
  simp [Machine.initial] at hx

/-- What is recorded later leaves the samples told, and a new one is told by the whole history, as
the machine is `Chronicled`. -/
theorem Sampled.strides {limit : Nat} (h : m.Sampled) (hm : m.Chronicled)
    (hstr : m.Strides P limit m') : m'.Sampled := by
  intro x hx
  rcases hstr.samples with hsame | ⟨hpush, hhistory, -⟩
  · obtain ⟨later, hlater, -⟩ := hstr.history
    obtain ⟨hle, htold⟩ := h x (hsame ▸ hx)
    rw [hlater, List.take_append_of_le_length hle, List.length_append]
    exact ⟨Nat.le_add_right_of_le hle, htold⟩
  · rw [hhistory]
    rw [hpush] at hx
    rcases Array.mem_push.1 hx with hx | rfl
    · exact h x hx
    · refine ⟨Nat.le_refl _, ?_⟩
      rw [List.take_length]
      exact hm.told

end Machine

namespace Scenario

variable {sc : Scenario}

/-- Wherever a run gets to, its history is right: it is `Chronicled`, `Enrolled` and `Sampled`, by
induction on the strides. -/
theorem Reaches.chronicled {σ : Type} {P : Policy σ} {memory : σ} {m : Machine σ}
    (hsc : sc.Admitted) (hP : P.Lawful) (h : sc.Reaches P memory m)
    (hm : m.phase.isSwitching = false) : m.Chronicled ∧ m.Enrolled sc ∧ m.Sampled :=
  h.invariant (I := fun m => m.Chronicled ∧ m.Enrolled sc ∧ m.Sampled) hsc hP
    (fun memory => ⟨.initial sc memory, .initial sc memory, Machine.sampled_initial sc memory⟩)
    (fun hm ⟨hchron, henr, hsamp⟩ hstr => ⟨hchron.episode hm (hm.episode hstr),
      henr.episode hsc.sound hchron hm (hm.episode hstr), hsamp.strides hchron hstr⟩) hm

/-- When a run has ended normally, every job has left: nobody is to come and nobody is live any
more. -/
theorem Reaches.left_of_normal {σ : Type} {P : Policy σ} {memory : σ} {m : Machine σ}
    (hsc : sc.Admitted) (hP : P.Lawful) (h : sc.Reaches P memory m)
    (hphase : m.phase = .over .normal) {job : Job} (hjob : job ∈ sc.jobs) :
    .left job.pid ∈ m.history := by
  obtain ⟨harrivals, hprocs⟩ : m.arrivals = [] ∧ m.state.procs = [] := h.accounts hsc hP hphase
  obtain ⟨hchron, henr, -⟩ := h.chronicled hsc hP (by rw [hphase]; rfl)
  -- The job has arrived and is not live, so it has left.
  have harrived := (henr.known hjob).resolve_left (by simp [harrivals])
  by_contra hnot
  obtain ⟨p, hp⟩ := hchron.told.process?_of_mem harrived hnot
  exact absurd (State.mem_of_process? hp) (hprocs ▸ List.not_mem_nil)

/-- The **history of a run tells its states**. Wherever no choice is being carried out, what has
been recorded so far tells who is live and of which age, who owns each resource, and who waits for
it in which order. The run ends at a machine that it `Reaches`, unless the policy is refused at
once, and at its end this is so of every sample, with what had been recorded when it was taken.
Every refusal is recorded while somebody else owns the resource; every return is followed by one
wake-up, from the same resource, if the resource had waiters, and by none if it had not; and no
wake-up is recorded but right after a return of the same resource. -/
theorem Admitted.told_by_history (h : sc.Admitted) (d : Discipline) (memory : Memory) :
    (¬ (d = .ceiling ∧ sc.ceiling = 0) →
      ∃ exit, (sc.run d.policy memory sc.stepBound).outcome = .ended exit ∧
        sc.Reaches d.policy memory (sc.run d.policy memory sc.stepBound).machine ∧
        (sc.run d.policy memory sc.stepBound).machine.phase = .over exit) ∧
    (∀ x ∈ (sc.run d.policy memory sc.stepBound).machine.samples,
      x.state.ToldBy ((sc.run d.policy memory sc.stepBound).machine.history.take x.recorded)) ∧
    ∀ m, sc.Reaches d.policy memory m → m.phase.isSwitching = false →
      m.state.ToldBy m.history ∧
      (∀ x ∈ m.samples, x.state.ToldBy (m.history.take x.recorded)) ∧
      (∀ before pid r after, m.history = before ++ .refused pid r :: after →
        ∃ owner, owner ≠ pid ∧ History.holders before r = [owner]) ∧
      (∀ before pid r after, m.history = before ++ .released pid r :: after →
        ∃ woken : Option Pid,
          (after.takeWhile Happening.isWoken = woken.toList.map fun w => .woken w r) ∧
          (woken = none ↔ History.waiters before r = [])) ∧
      ∀ before w r after, m.history = before ++ .woken w r :: after →
        ∃ pid, [.released pid r] <:+ before := by
  refine ⟨fun hc => h.reaches_end hc memory, ?_, fun m hm hrest => ?_⟩
  · by_cases hc : d = .ceiling ∧ sc.ceiling = 0
    · -- A run that is refused takes no samples.
      rw [(run_of_refused hc memory _).2]
      exact fun x hx => absurd hx (by simp [Machine.initial])
    · obtain ⟨exit, hended, hreach, hphase⟩ := h.reaches_end hc memory
      obtain ⟨-, -, hsampled⟩ := hreach.chronicled h d.lawful (by rw [hphase]; rfl)
      exact fun x hx => (hsampled x hx).2
  · obtain ⟨hchron, -, hsampled⟩ := hm.chronicled h d.lawful hrest
    exact ⟨hchron.told, fun x hx => (hsampled x hx).2, fun _ _ _ _ heq => hchron.founded heq,
      fun _ _ _ _ heq => hchron.founded heq, fun _ _ _ _ heq => hchron.founded heq⟩

/-- When the first of the crowded processes has given the resource back, the history tells that
nobody has it and that the third process still waits for it. The third process was refused it while
the first one had it, and of the two waiters the return woke one. -/
theorem told_by_history_crowded :
    ∃ m, crowded.Reaches Discipline.roundRobin.policy none m ∧ m.phase = .closing false ∧
      m.history = [.arrived 1, .arrived 2, .arrived 3, .acquired 1 0, .executed 1, .refused 2 0,
        .refused 3 0, .executed 1, .released 1 0, .woken 2 0] ∧
      History.holders m.history 0 = [] ∧ History.waiters m.history 0 = [3] ∧
      (∃ owner, owner ≠ 3 ∧ History.holders (m.history.take 6) 0 = [owner]) ∧
      ∃ woken : Option Pid,
        ([Happening.woken 2 0].takeWhile Happening.isWoken =
          woken.toList.map fun w => .woken w 0) ∧
        (woken = none ↔ History.waiters (m.history.take 8) 0 = []) := by
  have hm : crowded.Reaches Discipline.roundRobin.policy none _ := .of_sorted (by decide) rfl 30
  obtain ⟨htold, -, hrefused, hreleased, -⟩ :=
    (admitted_crowded.told_by_history .roundRobin none).2.2 _ hm rfl
  exact ⟨_, hm, rfl, rfl, (htold.owner (r := 0) (x := ⟨none, [3]⟩) rfl).symm,
    (htold.waiters (r := 0) (x := ⟨none, [3]⟩) rfl).symm,
    hrefused _ 3 0 [.executed 1, .released 1 0, .woken 2 0] rfl, hreleased _ 1 0 [.woken 2 0] rfl⟩

end Scenario

end Uniprocessor
