import Uniprocessor.Proofs.Ceiling
import Uniprocessor.Proofs.Episode
import Uniprocessor.Proofs.History
import Uniprocessor.Proofs.Safety
import Uniprocessor.Proofs.Uncontended

/-!
# Whoever owns something has the processor

Where no process holds two resources at once and every priority is below the ceiling, the ceiling
keeps everybody else off the processor while something is owned (`Exclusive`). The owner executes or
can go on, and it alone is at the ceiling, so it is the one that is chosen
(`Exclusive.eq_of_choose`). Whoever asks for something therefore finds it free: nothing is ever
refused, nobody ever waits, and no run ends in a deadlock
(`Scenario.Admitted.owner_undisturbed`).
-/

namespace Uniprocessor

open Narrated

namespace History

variable {h later before after : List Happening} {pid : Pid} {r : ResourceId} {e : Happening}

/-- The process got the resource and has not given it back since: owning it, as the history
tells. -/
def Holds (h : List Happening) (pid : Pid) (r : ResourceId) : Prop :=
  ∃ before after, h = before ++ .acquired pid r :: after ∧ .released pid r ∉ after

/-- Whoever `Holds` a resource held it before and has not just given it back, or has just got it. -/
theorem Holds.of_append (hholds : Holds (h ++ later) pid r) :
    (Holds h pid r ∧ .released pid r ∉ later) ∨ .acquired pid r ∈ later := by
  obtain ⟨before, after, heq, hnot⟩ := hholds
  rcases append_eq_append_cons heq with ⟨mid, hmid, rfl⟩ | ⟨mid, -, rfl⟩
  · rw [List.mem_append, not_or] at hnot
    exact Or.inl ⟨⟨before, mid, hmid, hnot.1⟩, hnot.2⟩
  · exact Or.inr (List.mem_append_right _ (List.mem_cons_self ..))

/-- What may be recorded without disturbing who holds something: a process executes only if nobody
else holds anything, a tick is idle only if nobody does, and nobody is refused anything. -/
def Undisturbed (before : List Happening) : Happening → Prop
  | .executed pid => ∀ q r, Holds before q r → q = pid
  | .idle => ∀ q r, ¬ Holds before q r
  | .refused .. => False
  | _ => True

end History

/-- Under the ceiling the `foremost` of the queue is chosen, the current process being the last in
it. -/
theorem Discipline.eq_foremost_of_ceiling {memory memory' : Memory} {s t : State}
    {next : Option Pid} (h : s.Settled)
    (hok : (Discipline.ceiling.policy.choose memory s).result = .ok (memory', t, next)) :
    next = s.pooled.foremost s.pooled.ready := by
  obtain ⟨t', htake, -⟩ := State.takeUrgent_eq_ok fun _ => h.process?_of_mem_pooled
  change (Discipline.ceiling.choose memory s).result = _ at hok
  rw [choose, result_bind, result_lift, h.yieldTail_eq_ok, ok_bind, result_bind, result_lift, htake]
    at hok
  cases hok
  rfl

namespace Machine

variable {sc : Scenario} {m m' : Machine Memory} {pid : Pid} {r : ResourceId}

/-- Whoever owns something executes, nobody waits, and nothing has disturbed an owner: the invariant
of this module. -/
structure Exclusive (m : Machine Memory) : Prop where
  /-- nobody waits -/
  waits : ∀ pid r, ¬ m.state.Waits pid r
  /-- whoever owns something executes -/
  running : ∀ {pid r}, m.state.Owns pid r → m.state.status? pid = some .running
  /-- whoever holds something according to the history owns it -/
  owns : ∀ {pid r}, History.Holds m.history pid r → m.state.Owns pid r
  /-- nothing that was recorded disturbs anybody -/
  undisturbed : ∀ {before after e}, m.history = before ++ e :: after → History.Undisturbed before e

namespace Exclusive

theorem initial (sc : Scenario) (memory : Memory) : (Machine.initial sc memory).Exclusive where
  waits _ _ := State.not_waits_empty
  running ho := absurd ho State.not_owns_empty
  owns := by
    rintro pid r ⟨before, after, heq, -⟩
    simp [history, Machine.initial] at heq
  undisturbed heq := by simp [history, Machine.initial] at heq

/-- The state of an `Exclusive` machine is `Uncontended`, which is the part of the invariant that is
not about the history. -/
theorem uncontended (h : m.Exclusive) : m.state.Uncontended := ⟨h.waits, h.running⟩

/-- Where the state is `Uncontended`, what is recorded has to be `Undisturbed`, and whoever `Holds`
something afterwards has to own it: the general step behind all others here. -/
theorem append (h : m.Exclusive) (hfree : m'.state.Uncontended) {later : List Happening}
    (hhistory : m'.history = m.history ++ later)
    (howns : ∀ {pid r}, History.Holds (m.history ++ later) pid r → m'.state.Owns pid r)
    (hnew : ∀ {mid after e}, later = mid ++ e :: after →
      History.Undisturbed (m.history ++ mid) e) : m'.Exclusive where
  waits := hfree.waits
  running := hfree.running
  owns := hhistory ▸ howns
  undisturbed {before after e} heq := by
    rw [hhistory] at heq
    rcases History.append_eq_append_cons heq with ⟨mid, hmid, -⟩ | ⟨mid, rfl, hmid⟩
    · exact h.undisturbed hmid
    · exact hnew hmid

/-- One entry that disturbs nobody may be recorded, if whoever `Holds` something afterwards owns
it. -/
theorem record (h : m.Exclusive) (hfree : m'.state.Uncontended) {what : Happening}
    (hhistory : m'.history = m.history ++ [what])
    (howns : ∀ {pid r}, History.Holds (m.history ++ [what]) pid r → m'.state.Owns pid r)
    (hnew : History.Undisturbed m.history what) : m'.Exclusive := by
  refine h.append hfree hhistory howns fun {mid after e} heq => ?_
  obtain ⟨rfl, he⟩ | ⟨-, he⟩ := List.singleton_eq_append_iff.1 heq
  · cases he
    rwa [List.append_nil]
  · cases he

/-- Whatever happens between getting a resource and giving it back happens while it is held, so it
is `Undisturbed` there. -/
theorem undisturbed_between (h : m.Exclusive) {before mid after : List Happening}
    (heq : m.history = before ++ .acquired pid r :: (mid ++ after)) (hnot : .released pid r ∉ mid)
    {e : Happening} (he : e ∈ mid) :
    ∃ past, History.Holds past pid r ∧ History.Undisturbed past e := by
  obtain ⟨first, rest, rfl⟩ := List.append_of_mem he
  refine ⟨before ++ .acquired pid r :: first, ⟨before, first, rfl, fun hin => ?_⟩, ?_⟩
  · exact hnot (List.mem_append_left _ hin)
  · have hplace : m.history = (before ++ .acquired pid r :: first) ++ e :: (rest ++ after) := by
      simpa using heq
    exact h.undisturbed hplace

/-- Whoever owns something is at the ceiling: it is `Raised` and holds no other resource whose
return could have set it back. -/
theorem prioOf_of_owns (hm : m.Steady sc) (hr : m.Raised sc) (hun : ∀ job ∈ sc.jobs, job.Unnested)
    (howns : m.state.Owns pid r) : m.state.prioOf pid = sc.ceiling := by
  obtain ⟨p, hp⟩ := hm.stage.settled.process?_of_owns howns
  obtain ⟨job, hjob, -, rfl, -⟩ := hm.stage.plays hp
  have hbid := State.bid?_of_process? hp
  rw [State.prioOf_of_bid? hbid, hr.prio hbid,
    if_neg (by rw [hr.gains hjob (hun job hjob) howns]; exact List.cons_ne_nil _ _)]

/-- Whoever owns nothing is below the ceiling, if every job is, since it is at its base priority. -/
theorem prioOf_lt (hm : m.Steady sc) (hr : m.Raised sc)
    (hbelow : ∀ job ∈ sc.jobs, job.prio < sc.ceiling) {p : Process}
    (hp : m.state.process? pid = some p) (hnone : ∀ r, ¬ m.state.Owns pid r) :
    m.state.prioOf pid < sc.ceiling := by
  obtain ⟨job, hjob, script, -, -, hplays⟩ := hm.stage.plays hp
  have hbid := State.bid?_of_process? hp
  rw [State.prioOf_of_bid? hbid, hr.prio hbid, if_pos (hr.gains_eq_nil hnone), hplays.base]
  exact hbelow job hjob

/-- Whoever owns something is chosen: it alone is at the ceiling, so it is the `foremost`. -/
theorem eq_of_choose (hsc : sc.Sound) (hm : m.Steady sc) (hr : m.Raised sc) (h : m.Exclusive)
    (hbelow : ∀ job ∈ sc.jobs, job.prio < sc.ceiling) (hun : ∀ job ∈ sc.jobs, job.Unnested)
    (hphase : m.phase = .choosing) {memory : Memory} {t : State} {next : Option Pid}
    (hok : (Discipline.ceiling.policy.choose m.memory m.state).result = .ok (memory, t, next))
    (howns : m.state.Owns pid r) : next = some pid := by
  have hset := hm.stage.settled
  -- The owner can go on, so it is the last in the queue.
  have hcon := hm.contender?_of_owns hsc h.uncontended hphase howns
  have hready : m.state.pooled.ready = m.state.ready ++ [pid] := by
    rw [State.pooled_of_some hcon]
  have hprio : ∀ q, m.state.pooled.prioOf q = m.state.prioOf q := fun q =>
    State.prioOf_congr (congrFun (State.bid?_pooled m.state) q)
  rw [Discipline.eq_foremost_of_ceiling hset hok]
  rcases hbest : m.state.pooled.foremost m.state.pooled.ready with _ | best
  · rw [State.foremost_eq_none, hready] at hbest
    exact absurd hbest (List.append_ne_nil_of_right_ne_nil _ (List.cons_ne_nil _ _))
  · -- Nobody else owns anything, so nobody else is at the ceiling.
    by_contra hne
    have hmem : best ∈ m.state.ready := by
      have hmem := State.mem_of_foremost hbest
      rw [hready] at hmem
      refine (List.mem_append.1 hmem).resolve_right fun hlast => hne ?_
      rw [List.mem_singleton.1 hlast]
    have hrun : m.state.status? best ≠ some .running := by
      rw [(hset.mem_ready best).1 hmem]
      simp
    obtain ⟨p, hp⟩ := hset.process?_of_mem_ready hmem
    have hlt := prioOf_lt hm hr hbelow hp fun r' ho => hrun (h.running ho)
    have hle := State.prioOf_le_foremost hbest (hready ▸ List.mem_append_right _
      (List.mem_singleton_self pid))
    rw [hprio, hprio, prioOf_of_owns hm hr hun howns] at hle
    exact absurd hlt (Nat.not_lt.2 hle)

/-- The choice of the owner leaves a machine `Exclusive`, and the choice of nobody means that there
is no owner. -/
theorem choose (h : m.Exclusive) (hfree : m'.state.Uncontended) {t : State} {next : Option Pid}
    {idle : List Happening} (hchose : m.state.Chose t next)
    (hchosen : ∀ {pid r}, m.state.Owns pid r → next = some pid)
    (hstate : m'.state = m.state.switched t next)
    (hidle : idle = [] ∨ next = none ∧ idle = [.idle])
    (hhistory : m'.history = m.history ++ (m.state.leaver?.toList.map .left ++ idle)) :
    m'.Exclusive := by
  have hres : m'.state.resources = m.state.resources := by
    rw [hstate, State.resources_switched, hchose.resources]
  have hnot : ∀ pid r, .acquired pid r ∉ m.state.leaver?.toList.map Happening.left ++ idle := by
    intro pid r hmem
    rcases History.eq_of_mem_choice _ hidle _ hmem with he | ⟨g, -, he⟩ <;> cases he
  refine h.append hfree hhistory (fun hholds => ?_) fun {mid after e} heq => ?_
  · exact (State.owns_congr hres).2 (h.owns (hholds.of_append.resolve_right (hnot _ _)).1)
  · have hmem : e ∈ m.state.leaver?.toList.map Happening.left ++ idle := by
      rw [heq]
      exact List.mem_append_right _ (List.mem_cons_self ..)
    rcases History.eq_of_mem_choice _ hidle e hmem with rfl | ⟨g, -, rfl⟩
    · -- In an idle tick nobody was chosen, so nobody owns anything.
      intro q r hholds
      have hbefore : .acquired q r ∉ mid := fun hin =>
        hnot q r (heq ▸ List.mem_append_left _ hin)
      have hnext := hchosen (h.owns (hholds.of_append.resolve_right hbefore).1)
      rcases hidle with rfl | ⟨rfl, -⟩
      · simp at hmem
      · cases hnext
    · trivial

/-- Whoever gets something owns it, so a granted request leaves a machine `Exclusive`. -/
theorem grant (h : m.Exclusive) (hfree : m'.state.Uncontended) {x : Resource}
    (hcalls : m.state.Calls pid r x) (hx : x.owner = none)
    (ht : (m.state.give r x pid).Repriced m'.state)
    (hhistory : m'.history = m.history ++ [.acquired pid r]) : m'.Exclusive := by
  refine h.record hfree hhistory (fun {q s} hholds => ?_) trivial
  rw [State.owns_congr ht.resources, State.owns_give hcalls.entry]
  rcases hholds.of_append with ⟨hbefore, -⟩ | hnew
  · have ho := h.owns hbefore
    have hne : s ≠ r := by
      rintro rfl
      rw [State.owns_iff hcalls.entry, hx] at ho
      cases ho
    rwa [if_neg hne]
  · cases List.mem_singleton.1 hnew
    rw [if_pos rfl]

/-- Nobody is woken by a return, and it leaves a machine `Exclusive`. -/
theorem release (h : m.Exclusive) (hfree : m'.state.Uncontended) {x : Resource}
    (hcalls : m.state.Calls pid r x) (hx : x.owner = some pid)
    (ht : (m.state.vacate r x none).Repriced m'.state)
    (hhistory : m'.history = m.history ++ [.released pid r]) : m'.Exclusive := by
  refine h.record hfree hhistory (fun {q s} hholds => ?_) trivial
  obtain ⟨hbefore, hnot⟩ := hholds.of_append.resolve_right (by simp)
  have ho := h.owns hbefore
  rw [State.owns_congr ht.resources, State.owns_vacate hcalls.entry]
  refine ⟨ho, ?_⟩
  -- The owner of what was given back is the one that gave it back.
  rintro rfl
  rw [State.owns_iff hcalls.entry, hx] at ho
  cases ho
  exact hnot (List.mem_singleton_self _)

/-- Whatever is done under the ceiling leaves owners undisturbed: each case of `Episode` leaves a
machine `Exclusive`. -/
theorem episode (hsc : sc.Sound) (hm : m.Steady sc) (hr : m.Raised sc) (h : m.Exclusive)
    (hbelow : ∀ job ∈ sc.jobs, job.prio < sc.ceiling) (hun : ∀ job ∈ sc.jobs, job.Unnested)
    (hep : m.Episode Discipline.ceiling.policy m') : m'.Exclusive := by
  have hfree := hep.uncontended hm h.uncontended fun hphase hok howns =>
    h.eq_of_choose hsc hm hr hbelow hun hphase hok howns
  cases hep with
  | quiet _ hresources _ _ _ hhistory =>
    refine h.append hfree (hhistory.trans (List.append_nil _).symm) (fun hholds => ?_) (by simp)
    rw [List.append_nil] at hholds
    exact (State.owns_congr hresources).2 (h.owns hholds)
  | arrive _ _ hstate _ _ hhistory =>
    refine h.record hfree hhistory (fun hholds => ?_) trivial
    rw [hstate]
    exact h.owns (hholds.of_append.resolve_right (by simp)).1
  | choose hphase hok hchose hstate _ _ _ hidle hhistory =>
    exact h.choose hfree hchose (h.eq_of_choose hsc hm hr hbelow hun hphase hok) hstate hidle
      hhistory
  | grant _ _ _ _ hcalls hx ht _ _ _ hhistory => exact h.grant hfree hcalls hx ht hhistory
  | refuse _ hcalls hx hne => exact absurd (h.uncontended.owner_eq_of_calls hcalls hx) hne
  | execute _ hruns _ _ _ _ hstate _ _ _ hhistory =>
    refine h.record hfree hhistory (fun hholds => ?_) fun q r hholds => ?_
    · rw [hstate]
      exact h.owns (hholds.of_append.resolve_right (by simp)).1
    · exact hm.stage.settled.eq_of_running (h.running (h.owns hholds)) hruns.running
  | release _ hcalls hx ht _ hwoken _ _ _ hhistory =>
    obtain rfl := h.uncontended.woken_eq_none hcalls hwoken
    exact h.release hfree hcalls hx ht hhistory

end Exclusive

end Machine

namespace Scenario

variable {sc : Scenario} {m : Machine Memory}

/-- Wherever a run under the ceiling gets to, owners have been left undisturbed, by
`Exclusive.episode` for each stride. -/
theorem Reaches.exclusive (hsc : sc.Admitted) (hbelow : ∀ job ∈ sc.jobs, job.prio < sc.ceiling)
    (hun : ∀ job ∈ sc.jobs, job.Unnested) {memory : Memory}
    (h : sc.Reaches Discipline.ceiling.policy memory m) (hm : m.phase.isSwitching = false) :
    m.Exclusive :=
  (h.invariant (I := fun m => m.Raised sc ∧ m.Exclusive) hsc Discipline.ceiling.lawful
    (fun memory => ⟨.initial sc memory, .initial sc memory⟩)
    (fun hm ⟨hr, hex⟩ hstr => ⟨hr.strides hsc.sound hm hstr,
      hex.episode hsc.sound hm hr hbelow hun (hm.episode hstr)⟩) hm).2

/-- Under the ceiling **owners are left undisturbed**. Let every job be `Unnested` and every
priority below the ceiling. Then a run comes to an end, and not in a deadlock; nobody is ever
refused anything; and from when a process gets a resource to when it gives it back, no tick is idle
and nobody else executes. -/
theorem Admitted.owner_undisturbed (h : sc.Admitted)
    (hbelow : ∀ job ∈ sc.jobs, job.prio < sc.ceiling) (hun : ∀ job ∈ sc.jobs, job.Unnested)
    (memory : Memory) :
    (∃ exit, (sc.run Discipline.ceiling.policy memory sc.stepBound).outcome = .ended exit ∧
      exit ≠ .deadlock) ∧
    ∀ m, sc.Reaches Discipline.ceiling.policy memory m → m.phase.isSwitching = false →
      (∀ pid r, .refused pid r ∉ m.history) ∧
      ∀ before mid after pid r, m.history = before ++ .acquired pid r :: (mid ++ after) →
        .released pid r ∉ mid → .idle ∉ mid ∧ ∀ q, .executed q ∈ mid → q = pid := by
  constructor
  · have hceiling : ¬ (Discipline.ceiling = .ceiling ∧ sc.ceiling = 0) := by
      rintro ⟨-, hzero⟩
      obtain ⟨job, hjob⟩ := h.exists_job
      have hlt := hbelow job hjob
      omega
    obtain ⟨exit, hended, hreach, hphase⟩ := h.reaches_end hceiling memory
    have hrest := Phase.isSwitching_of_over hphase
    exact ⟨exit, hended, hreach.ne_deadlock_of_uncontended h Discipline.ceiling.lawful hphase
      (hreach.exclusive h hbelow hun hrest).uncontended⟩
  · intro m hm hrest
    have hex := hm.exclusive h hbelow hun hrest
    refine ⟨fun pid r hmem => ?_, fun before mid after pid r heq hnot => ⟨fun hmem => ?_,
      fun q hmem => ?_⟩⟩
    · obtain ⟨before, after, heq⟩ := List.append_of_mem hmem
      exact hex.undisturbed heq
    · obtain ⟨past, hholds, hdone⟩ := hex.undisturbed_between heq hnot hmem
      exact hdone pid r hholds
    · obtain ⟨past, hholds, hdone⟩ := hex.undisturbed_between heq hnot hmem
      exact (hdone pid r hholds).symm

/-- A process that holds two resources one after the other, and a more urgent one that arrives while
the first hold goes on and asks for the same resource. -/
def guarded : Scenario where
  resourceCount := 2
  ceiling := 9
  limit := 100
  jobs := [
    { pid := 1, lifespan := 3, prio := 1, requests := [⟨0, 0, 2⟩, ⟨1, 2, 1⟩] },
    { pid := 2, start := 1, lifespan := 2, prio := 5, requests := [⟨0, 0, 1⟩] }]

theorem admitted_guarded : guarded.Admitted where
  built := ⟨⟨2, 9, 100, guarded.jobs, 3⟩, rfl⟩
  lifespan_lt := by decide
  limit_le := by decide

/-- The first of the guarded processes keeps the processor until it has given the resource back,
although a more urgent one has arrived; that one gets the resource after it and is refused
nothing. -/
theorem owner_undisturbed_guarded :
    (∃ exit, (guarded.run Discipline.ceiling.policy none guarded.stepBound).outcome = .ended exit ∧
      exit ≠ .deadlock) ∧
    ∃ m, guarded.Reaches Discipline.ceiling.policy none m ∧ m.phase = .over .normal ∧
      m.history = [.arrived 1, .acquired 1 0, .executed 1, .arrived 2, .executed 1, .released 1 0,
        .acquired 2 0, .executed 2, .released 2 0, .executed 2, .left 2, .acquired 1 1, .executed 1,
        .released 1 1, .left 1] ∧
      (∀ pid r, .refused pid r ∉ m.history) ∧
      Happening.idle ∉ [.executed 1, .arrived 2, .executed 1] ∧
      ∀ q, .executed q ∈ [Happening.executed 1, .arrived 2, .executed 1] → q = 1 := by
  obtain ⟨hend, halong⟩ := admitted_guarded.owner_undisturbed (by decide) (by decide) none
  have hm : guarded.Reaches Discipline.ceiling.policy none _ := .of_sorted (by decide) rfl 58
  obtain ⟨hrefused, hbetween⟩ := halong _ hm rfl
  obtain ⟨hidle, hexecuted⟩ :=
    hbetween [.arrived 1] [.executed 1, .arrived 2, .executed 1] _ 1 0 rfl
    (by decide)
  exact ⟨hend, _, hm, rfl, rfl, hrefused, hidle, hexecuted⟩

end Scenario

end Uniprocessor
