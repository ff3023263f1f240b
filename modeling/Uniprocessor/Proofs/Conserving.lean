import Uniprocessor.Proofs.Locking

/-!
# Nobody is ready in an idle tick

Each of the eight disciplines chooses nobody only if there is nobody to choose: the current process
cannot go on, and the ready queue is empty (`Discipline.conserving`). So after such a choice every
live process waits for a resource.
-/

namespace Uniprocessor

open Narrated

namespace State

/-- Nobody could be chosen: there is no `contender?`, and the ready queue is empty. -/
structure Vacant (s : State) : Prop where
  /-- the current process, if there is one, cannot go on -/
  contender : s.contender? = none
  /-- nobody is ready -/
  ready : s.ready = []

variable {s t : State}

/-- Nobody is taken out of a ready queue by `Took` only if that is empty. -/
theorem Took.ready_of_none (h : s.Took t none) : s.ready = [] := by
  rcases h with ⟨-, hready, -⟩ | ⟨pid, -, hsome, -⟩
  · exact hready
  · cases hsome

/-- If the ready queue of the `pooled` state is empty, there is no `contender?` and nobody is
ready. -/
theorem vacant_of_pooled (h : s.pooled.ready = []) : s.Vacant := by
  rcases hc : s.contender? with _ | c
  · exact ⟨hc, by rwa [pooled_of_none hc] at h⟩
  · rw [pooled_of_some hc] at h
    simp at h

/-- Priorities do not decide whether there is somebody to choose, so a state is `Vacant` if a
repriced one is. -/
theorem Vacant.of_repriced (hr : s.Repriced t) (h : t.Vacant) : s.Vacant where
  contender := hr.contender? ▸ h.contender
  ready := hr.ready ▸ h.ready

/-- If `keepOr` chooses nobody, the state is `Vacant`: a `contender?` would go on, and `next` takes
somebody if there is somebody. -/
theorem Settled.vacant_of_keepOr (h : s.Settled)
    {next : State → Except Fault (State × Option Pid)}
    (hnext : ∃ t choice, next s = .ok (t, choice) ∧ s.Took t choice)
    (hok : s.keepOr next = .ok (t, none)) : s.Vacant := by
  rw [keepOr, h.contender_eq_ok, ok_bind] at hok
  rcases hc : s.contender? with _ | cur
  · obtain ⟨t', choice, hok', htook⟩ := hnext
    rw [hc] at hok
    cases hok'.symm.trans hok
    exact ⟨hc, htook.ready_of_none⟩
  · rw [hc] at hok
    cases hok

theorem Settled.vacant_of_preferShorter (h : s.Settled)
    (hok : s.preferShorter.result = .ok (t, none)) : s.Vacant := by
  obtain ⟨t', choice, hok', hway⟩ := h.preferShorter_eq_ok
  cases hok'.symm.trans hok
  rcases hway with ⟨-, cur, -, hcur⟩ | ⟨u, htook, -⟩
  · cases hcur
  · exact vacant_of_pooled htook.ready_of_none

theorem Settled.vacant_of_preferUrgent (h : s.Settled)
    (hok : s.preferUrgent.result = .ok (t, none)) : s.Vacant := by
  obtain ⟨t', hok', -⟩ := h.preferUrgent_eq_ok
  have hfront : s.front = [] :=
    foremost_eq_none.1 (congrArg Prod.snd (Except.ok.inj (hok'.symm.trans hok)))
  obtain ⟨hc, hready⟩ := List.append_eq_nil_iff.1 hfront
  exact ⟨Option.toList_eq_nil_iff.1 hc, hready⟩

theorem Settled.vacant_of_preferAged (h : s.Settled) {memory memory' : Memory}
    (hok : (s.preferAged memory).result = .ok (memory', t, none)) : s.Vacant := by
  obtain ⟨memory₁, s', hage, hr⟩ := h.ageReady_eq_ok memory
  have h' : s'.Settled := hr.settled h
  obtain ⟨t', htake, htook⟩ := takeUrgent_eq_ok fun _ => h'.process?_of_mem_pooled
  simp only [preferAged, result_bind, result_lift, hage, ok_bind, h'.yieldTail_eq_ok, htake] at hok
  rcases hbest : s'.pooled.foremost s'.pooled.ready with _ | pid
  · exact (vacant_of_pooled (foremost_eq_none.1 hbest)).of_repriced hr
  · simp only [hbest, result_bind, bind_eq_ok] at hok
    obtain ⟨_, _, hok⟩ := hok
    cases hok

/-- If nobody could be chosen and nobody is, then whoever is left after the switch is blocked, since
a `Settled` state has no other place for it. -/
theorem Vacant.blocked_of_switched (hv : s.Vacant) (hs : s.Settled)
    (hleave : ∀ pid, s.leaver? = some pid → s.status? pid = some .running)
    (hchose : s.Chose t none) {p : Process} (hset : (s.switched t none).Settled)
    (hp : p ∈ (s.switched t none).procs) : p.status = .blocked := by
  have hst := hchose.status?_switched hs hleave p.pid
  rw [status?_of_process? (hset.ordered.process?_of_mem hp), hv.contender,
    if_neg (Option.some_ne_none _).symm] at hst
  by_cases hg : s.leaver? = some p.pid
  · rw [if_pos hg] at hst
    cases hst
  · rw [if_neg hg, if_neg (Option.some_ne_none _).symm] at hst
    -- It was neither ready nor executing.
    rcases hc : p.status with _ | _ | _
    · rw [hc] at hst
      have hmem := (hs.mem_ready p.pid).2 hst.symm
      rw [hv.ready] at hmem
      cases hmem
    · rw [hc] at hst
      rcases hs.leaver_or_contender hst.symm with hl | hl
      · exact absurd hl hg
      · rw [hv.contender] at hl
        cases hl
    · rfl

end State

/-- The policy chooses nobody only if the state is `Vacant`. Where it chooses nobody and jobs or
processes are left, the tick is idle. -/
def Policy.Conserving {σ : Type} (P : Policy σ) : Prop :=
  ∀ {memory memory' : σ} {s t : State}, s.Settled →
    (P.choose memory s).result = .ok (memory', t, none) → s.Vacant

/-- What is answered beside the memory leaves the memory as it is: the `pure` behind the answer
hands it on. -/
theorem Discipline.eq_of_paired {α : Type} {memory memory' : Memory} {x : Narrated α} {a : α}
    (h : (x >>= fun y => pure (memory, y)).result = .ok (memory', a)) :
    memory' = memory ∧ x.result = .ok a := by
  rw [result_bind] at h
  obtain ⟨y, hy, hpure⟩ := bind_eq_ok.1 h
  cases hpure
  exact ⟨rfl, hy⟩

/-- What a discipline chooses is what its way to `choose` says, with the memory beside it. -/
theorem Discipline.result_of_paired {memory memory' : Memory} {t : State} {next : Option Pid}
    {x : Narrated (State × Option Pid)}
    (h : (x >>= fun y => pure (memory, y)).result = .ok (memory', t, next)) :
    x.result = .ok (t, next) := (eq_of_paired h).2

/-- Each of the eight disciplines is `Conserving`, since each of its ways to choose takes somebody
out of the pool if there is somebody in it. -/
theorem Discipline.conserving (d : Discipline) : d.policy.Conserving := by
  intro memory memory' s t h hok
  have hready : ∀ pid ∈ s.ready, ∃ p, s.process? pid = some p := fun _ => h.process?_of_mem_ready
  have hpooled : ∀ pid ∈ s.pooled.ready, ∃ p, s.pooled.process? pid = some p :=
    fun _ => h.process?_of_mem_pooled
  -- A way to choose by which the current process goes behind all others first.
  have hyield : ∀ {x : Narrated (State × Option Pid)} {choice : Option Pid},
      (∃ t, x.result = .ok (t, choice) ∧ s.pooled.Took t choice) →
      (x >>= fun y => pure (memory, y)).result = .ok (memory', t, none) → s.Vacant := by
    intro x choice hx hok
    obtain ⟨t', hx, htook⟩ := hx
    rw [result_of_paired hok] at hx
    cases hx
    exact State.vacant_of_pooled htook.ready_of_none
  cases d with
  | fcfs =>
    have hok : s.keepOr (fun s => .ok s.takeHead) = .ok (t, none) := result_of_paired hok
    exact h.vacant_of_keepOr ⟨_, _, rfl, State.took_takeHead s⟩ hok
  | sjf =>
    have hok : s.keepOr (fun s => s.takeMin Process.lifespan) = .ok (t, none) :=
      result_of_paired hok
    obtain ⟨u, htake⟩ := State.takeMin_eq_ok hready Process.lifespan
    exact h.vacant_of_keepOr ⟨u, _, htake⟩ hok
  | stcf => exact h.vacant_of_preferShorter (result_of_paired hok)
  | roundRobin =>
    change (Discipline.roundRobin.choose memory s).result = _ at hok
    rw [choose, result_bind, result_lift, h.yieldTail_eq_ok, ok_bind] at hok
    exact hyield (x := pure s.pooled.takeHead) ⟨_, rfl, State.took_takeHead _⟩ hok
  | priority => exact h.vacant_of_preferUrgent (result_of_paired hok)
  | aging => exact h.vacant_of_preferAged hok
  | ceiling =>
    change (Discipline.ceiling.choose memory s).result = _ at hok
    rw [choose, result_bind, result_lift, h.yieldTail_eq_ok, ok_bind] at hok
    obtain ⟨t', htake⟩ := State.takeUrgent_eq_ok hpooled
    exact hyield ⟨t', htake⟩ hok
  | inheritance => exact h.vacant_of_preferUrgent (result_of_paired hok)

end Uniprocessor
