import Uniprocessor.Proofs.Rounds

/-!
# What aging does

Under aging, the priorities of those who wait go up when the policy is asked for the first time in a
tick, and nothing else makes them go up. What the policy answers is said here exactly
(`State.Ripened`): everybody who was ready gains a level, the first one with the highest priority
among the ready processes and the contender is chosen, and the chosen one falls back to its base. In
all other strides the ready queue and the priorities stay as they are, but somebody may join the
queue (`Machine.Joined`).
-/

namespace Uniprocessor

open Narrated

namespace State

variable {s t : State} {memory memory' : Memory} {next : Option Pid} {pid : Pid}

/-- A priority that is one level higher, unless it is `largestPrio`, which has no higher one. -/
def nextLevel (n : Nat) : Nat := min largestPrio (n + 1)

/-- What becomes of a priority of the process when the policy is asked: it gains a level if the
process is ready and the pass of this tick has not been made. -/
def ripe (s : State) (memory : Memory) (pid : Pid) (n : Nat) : Nat :=
  if memory ≠ some s.tick ∧ pid ∈ s.ready then nextLevel n else n

/-- Who is not ready gains no level: `ripe` is the priority as it is. -/
theorem ripe_of_not_ready (h : pid ∉ s.ready) (n : Nat) : s.ripe memory pid n = n :=
  if_neg fun he => h he.2

/-- Who may be chosen: those who are ready, and the contender behind them, if there is one. -/
def pool (s : State) : Queue := s.ready ++ s.contender?.toList

/-- What aging answers when it is asked: whose levels rise, who is taken from the pool, and who
falls back to its base priority. -/
structure Ripened (s : State) (memory : Memory) (t : State) (memory' : Memory)
    (next : Option Pid) : Prop where
  /-- the pass of this tick has been made -/
  remembered : memory' = some s.tick
  /-- the first one with the highest priority is chosen -/
  best : next = firstMax (fun pid => s.ripe memory pid (s.prioOf pid)) s.pool
  /-- the chosen one leaves the pool -/
  ready : t.ready = s.pool.filter fun pid => next ≠ some pid
  /-- the chosen one is at its base priority -/
  bid : ∀ pid, t.bid? pid = (s.bid? pid).map fun bid =>
    (bid.1, if next = some pid then bid.1 else s.ripe memory pid bid.2)

/-- In `ageAll` everybody in the queue gains a level, once each, and nothing else about a bid
changes. -/
theorem bid?_ageAll {q : Queue} (hq : q.Nodup) (h : (s.ageAll q).result = .ok t) (pid : Pid) :
    t.bid? pid = (s.bid? pid).map fun bid =>
      (bid.1, if pid ∈ q then nextLevel bid.2 else bid.2) := by
  induction q generalizing s with
  | nil =>
    cases h
    simp
  | cons head rest ih =>
    obtain ⟨hhead, hrest⟩ := List.nodup_cons.1 hq
    simp only [ageAll, result_bind, result_lift, bind_eq_ok, result_note] at h
    obtain ⟨p, hp, s', hs', -, -, h⟩ := h
    rw [process_eq_ok] at hp
    rw [setPrio_eq_ok hp] at hs'
    cases hs'
    rw [ih hrest h, bid?_reprice]
    by_cases hpid : pid = head
    · rw [if_pos hpid, hpid, bid?_of_process? hp]
      simp [hhead, nextLevel]
    · rw [if_neg hpid]
      simp [hpid]

/-- In the pass of a tick those who are ready gain a level by `ageReady`, and when it has been made
already, nobody does: in both cases the new priority is `ripe`. -/
theorem Settled.bid?_ageReady (hs : s.Settled) (h : (ageReady memory s).result = .ok (memory', t)) :
    memory' = some s.tick ∧
      ∀ pid, t.bid? pid = (s.bid? pid).map fun bid => (bid.1, s.ripe memory pid bid.2) := by
  rw [ageReady] at h
  by_cases hm : memory = some s.tick
  · rw [if_pos hm] at h
    cases h
    exact ⟨hm, fun pid => by simp [ripe, hm]⟩
  · rw [if_neg hm] at h
    obtain ⟨aged, haged, h⟩ := bind_eq_ok.1 ((result_bind ..).symm.trans h)
    cases h
    refine ⟨rfl, fun pid => ?_⟩
    rw [bid?_ageAll hs.ready_nodup haged]
    simp [ripe, hm]

theorem ready_pooled (s : State) : s.pooled.ready = s.pool := by
  rcases hc : s.contender? with _ | c
  · rw [pooled_of_none hc, pool, hc]
    exact (List.append_nil _).symm
  · rw [pooled_of_some hc, pool, hc]
    rfl

/-- Of a queue without doubles whoever `Took` takes is gone, and nobody else: the queue is
filtered. -/
theorem Took.ready_eq (h : s.Took t next) (hs : s.ready.Nodup) :
    t.ready = s.ready.filter fun pid => next ≠ some pid := by
  rcases h with ⟨rfl, -, rfl⟩ | ⟨pid, -, rfl, rfl⟩
  · simp
  · rw [hs.erase_eq_filter]
    refine List.filter_congr fun q _ => ?_
    by_cases hq : q = pid
    · simp [hq]
    · simp [hq, Ne.symm hq]

/-- Nobody is twice in the `pool`: a contender executes, so it is not ready. -/
theorem Settled.pool_nodup (hs : s.Settled) : s.pool.Nodup :=
  List.perm_append_comm.nodup_iff.1 hs.contender?_append_nodup

/-- Everybody in the `pool` is live, and so has a priority to bid. -/
theorem Settled.bid?_of_mem_pool (hs : s.Settled) (h : pid ∈ s.pool) :
    ∃ bid, s.bid? pid = some bid := by
  rw [← ready_pooled] at h
  obtain ⟨p, hp⟩ := hs.process?_of_mem_pooled h
  exact ⟨_, (congrFun (bid?_pooled s) pid).symm.trans (bid?_of_process? hp)⟩

/-- After a process is set back to its base priority, it bids that, and all others bid what they
did. -/
theorem bid?_adjust_base (s : State) (pid q : Pid) :
    (s.adjust pid fun p => { p with prio := p.base }).bid? q =
      if q = pid then (s.bid? q).map fun bid => (bid.1, bid.1) else s.bid? q := by
  rw [bid?, bid?, process?_adjust (f := fun p => { p with prio := p.base }) fun _ => rfl]
  by_cases hq : q = pid
  · rw [if_pos hq, if_pos hq, Option.map_map, Option.map_map]
    rfl
  · rw [if_neg hq, if_neg hq]

/-- What `preferAged` answers in a settled state is as `Ripened` says: the spec of the policy that
the proofs about runs use. -/
theorem Settled.ripened (hs : s.Settled)
    (h : (s.preferAged memory).result = .ok (memory', t, next)) :
    s.Ripened memory t memory' next := by
  obtain ⟨memory₁, s₁, hage, hr⟩ := hs.ageReady_eq_ok memory
  have hs₁ : s₁.Settled := hr.settled hs
  obtain ⟨t₁, htake, htook⟩ := takeUrgent_eq_ok fun _ => hs₁.process?_of_mem_pooled
  obtain ⟨hmem, haged⟩ := hs.bid?_ageReady hage
  have hpool : s₁.pooled.ready = s.pool := by
    rw [ready_pooled, pool, hr.ready, hr.contender?, pool]
  have hbid : ∀ pid, s₁.pooled.bid? pid =
      (s.bid? pid).map fun bid => (bid.1, s.ripe memory pid bid.2) := fun pid => by
    rw [bid?_pooled, haged]
  have hbest : s₁.pooled.foremost s₁.pooled.ready =
      firstMax (fun pid => s.ripe memory pid (s.prioOf pid)) s.pool := by
    rw [hpool]
    refine foremost_eq_firstMax fun pid hpid => ?_
    obtain ⟨bid, hb⟩ := hs.bid?_of_mem_pool hpid
    have hb' := hbid pid
    rw [hb] at hb'
    rw [prioOf_of_bid? hb', prioOf_of_bid? hb]
  rw [hbest] at htake htook
  have hready := htook.ready_eq (hpool ▸ hs.pool_nodup)
  rw [hpool] at hready
  simp only [preferAged, result_bind, result_lift, hage, ok_bind, hs₁.yieldTail_eq_ok, htake] at h
  rcases hc : firstMax (fun pid => s.ripe memory pid (s.prioOf pid)) s.pool with _ | pid
  · rw [hc] at h hready
    cases h
    refine ⟨hmem, hc.symm, hready, fun q => ?_⟩
    rw [htook.bid?, hbid]
    simp
  · rw [hc] at h hready
    -- The chosen process is live, and falls back to its base.
    obtain ⟨bid, hb⟩ := hs.bid?_of_mem_pool (mem_of_firstBest hc)
    have hb' := hbid pid
    rw [← htook.bid?, hb] at hb'
    obtain ⟨p, hp, -⟩ := bid?_eq_some.1 hb'
    simp only [result_bind, result_lift, revise_eq_ok hp, ok_bind] at h
    cases h
    refine ⟨hmem, hc.symm, hready, fun q => ?_⟩
    rw [bid?_adjust_base, htook.bid?, hbid]
    by_cases hq : q = pid
    · simp [hq, Function.comp_def]
    · simp [hq, Ne.symm hq]

end State

namespace Machine

variable {sc : Scenario} {m m' : Machine Memory}

/-- Between the two machines the processes `added` have joined the tail of the ready queue, the
others are there as before, and nobody has been repriced. Whoever has arrived is at its base
priority. -/
structure Joins (added : List Pid) (m m' : Machine Memory) : Prop where
  /-- the pass of the tick has been made, or not, as before -/
  remembered : m'.memory = m.memory
  /-- they have joined the tail -/
  ready : m'.state.ready = m.state.ready ++ added
  /-- they were not ready before -/
  fresh : ∀ pid ∈ added, pid ∉ m.state.ready
  /-- who was live is live, and bids as before -/
  stays : ∀ {pid bid}, m.state.bid? pid = some bid → m'.state.bid? pid = some bid
  /-- who was not live is at its base priority -/
  comes : ∀ {pid b n}, m'.state.bid? pid = some (b, n) →
    m.state.bid? pid = some (b, n) ∨ pid ∈ added ∧ n = b

theorem Joins.of_bids {added : List Pid} (hmem : m'.memory = m.memory)
    (hready : m'.state.ready = m.state.ready ++ added) (hfresh : ∀ pid ∈ added, pid ∉ m.state.ready)
    (hbid : m'.state.bid? = m.state.bid?) : m.Joins added m' where
  remembered := hmem
  ready := hready
  fresh := hfresh
  stays h := hbid ▸ h
  comes h := Or.inl (hbid ▸ h)

/-- Nobody has joined where memory, ready queue and bids are the same: `Joins` with nothing
added. -/
theorem Joins.none (hmem : m'.memory = m.memory) (hready : m'.state.ready = m.state.ready)
    (hbid : m'.state.bid? = m.state.bid?) : m.Joins [] m' :=
  .of_bids hmem (hready.trans (List.append_nil _).symm) (fun _ h => absurd h List.not_mem_nil) hbid

/-- Unless the policy is asked to choose, all that a stride does to the ready queue and to
priorities is that somebody joins the queue: an arrival at base priority, or somebody who is
woken. -/
theorem Steady.joins (hm : m.Steady sc) (hphase : m.phase ≠ .choosing)
    (hstr : m.Strides Discipline.aging.policy sc.limit m') : ∃ added, m.Joins added m' := by
  cases hstr with
  | @arrive job rest harriving harrivals =>
    have hst := hm.stage_of_arriving harriving harrivals
    have hnew := hst.process?_arrival
    have hbid := State.bid?_joined (p := .fresh job.pid job.lifespan job.prio) hnew
    refine ⟨[job.pid], rfl, rfl, fun pid hpid hready => ?_, fun {pid bid} h => ?_,
      fun {pid b n} h => ?_⟩
    · obtain ⟨p, hp⟩ := hst.settled.process?_of_mem_ready hready
      rw [List.mem_singleton.1 hpid, hnew] at hp
      cases hp
    · have hne : pid ≠ job.pid := by
        rintro rfl
        rw [State.bid?, hnew] at h
        cases h
      exact (hbid pid).trans ((if_neg hne).trans h)
    · by_cases hpid : pid = job.pid
      · cases (if_pos hpid).symm.trans ((hbid pid).symm.trans h)
        exact Or.inr ⟨List.mem_singleton.2 hpid, rfl⟩
      · exact Or.inl ((if_neg hpid).symm.trans ((hbid pid).symm.trans h))
  | announce _ hP =>
    cases hP
    exact ⟨[], .none rfl rfl rfl⟩
  | drain hch => exact absurd hch hphase
  | idle hch => exact absurd hch hphase
  | turn hch => exact absurd hch hphase
  | grant _ _ _ hcalls hx hP =>
    simp only [Discipline.policy, Discipline.acquire, result_bind, hcalls.acquirePlain_free hx,
      ok_bind] at hP
    cases hP
    exact ⟨[], .none rfl rfl rfl⟩
  | refuse _ hcalls hx _ hP =>
    simp only [Discipline.policy, Discipline.acquire, result_bind, hcalls.acquirePlain_held hx,
      ok_bind] at hP
    cases hP
    exact ⟨[], .none rfl rfl (State.bid?_park ..)⟩
  | execute => exact ⟨[], .none rfl rfl State.bid?_adjust_age⟩
  | @release pid r waiters due x y memory t woken _ hcalls hx hP =>
    simp only [Discipline.policy, Discipline.release, result_bind,
      hcalls.releaseUrgent_eq_ok hx, ok_bind] at hP
    cases hP
    obtain ⟨events, he⟩ := Machine.recordWoken_eq
      ((m.answered m.memory (m.state.vacate r x (m.state.foremost x.waiters))).record
        (.released pid r)) r y.waiters waiters
    rw [he]
    refine ⟨(m.state.foremost x.waiters).toList, .of_bids rfl ?_ (fun w hw hready => ?_)
      (State.bid?_vacate ..)⟩
    · change (m.state.vacate r x (m.state.foremost x.waiters)).ready = _
      cases m.state.foremost x.waiters with
      | none => exact (List.append_nil _).symm
      | some w => rfl
    · -- Whoever waited was not ready.
      have hwaits := State.mem_of_foremost (Option.mem_toList.1 hw)
      exact hm.stage.settled.not_waits_of_ready ((hm.stage.settled.mem_ready w).1 hready) r
        ((State.waits_iff hcalls.entry).2 hwaits)
  | conclude _ hP =>
    cases hP
    exact ⟨[], .none rfl rfl rfl⟩
  | _ => exact ⟨[], .none rfl rfl rfl⟩

@[simp] theorem carriedOut_memory {σ : Type} (m : Machine σ) (memory : σ) (t : State)
    (next : Option Pid) : (m.carriedOut memory t next).memory = memory := by
  unfold carriedOut
  cases m.state.leaver? <;> rfl

/-- When the policy is asked to choose, it answers as `Ripened` says, and the answer is carried
out. -/
theorem Steady.ripened (hm : m.Steady sc) (hphase : m.phase = .choosing)
    (hstr : m.Strides Discipline.aging.policy sc.limit m') :
    ∃ t next, (Discipline.aging.policy.choose m.memory m.state).result = .ok (m'.memory, t, next) ∧
      m.state.Chose t next ∧ m.state.Ripened m.memory t m'.memory next ∧
      m'.state = m.state.switched t next := by
  have hs := hm.stage.settled
  have hcarried : ∀ {memory t next},
      (Discipline.aging.policy.choose m.memory m.state).result = .ok (memory, t, next) →
      m.state.Chose t next → m'.memory = memory → m'.state = m.state.switched t next →
      ∃ t next, (Discipline.aging.policy.choose m.memory m.state).result =
        .ok (m'.memory, t, next) ∧ m.state.Chose t next ∧
        m.state.Ripened m.memory t m'.memory next ∧ m'.state = m.state.switched t next := by
    rintro memory t next hP hchose rfl hstate
    exact ⟨t, next, hP, hchose, hs.ripened hP, hstate⟩
  cases hstr with
  | drain _ hP hchose => exact hcarried hP hchose (carriedOut_memory ..) (carriedOut_state ..)
  | idle _ hP hchose => exact hcarried hP hchose (carriedOut_memory ..) (carriedOut_state ..)
  | turn _ hP hchose => exact hcarried hP hchose (carriedOut_memory ..) (carriedOut_state ..)
  | _ hphase' =>
    rw [hphase] at hphase'
    cases hphase'

/-- Who bids after a choice has been carried out did so before, and is at its base priority if it
was chosen, and at its `ripe` one otherwise. -/
theorem bid?_of_ripened {t : State} {next : Option Pid}
    (hripe : m.state.Ripened m.memory t m'.memory next)
    (hstate : m'.state = m.state.switched t next)
    {pid : Pid} {b n : Nat} (h : m'.state.bid? pid = some (b, n)) :
    ∃ n₀, m.state.bid? pid = some (b, n₀) ∧
      n = if next = some pid then b else m.state.ripe m.memory pid n₀ := by
  rw [hstate, State.bid?_of_switched] at h
  split at h
  · cases h
  · rw [hripe.bid] at h
    obtain ⟨bid, hbid, heq⟩ := Option.map_eq_some_iff.1 h
    cases heq
    exact ⟨_, hbid, rfl⟩

end Machine

/-! ## What holds all along a run -/

/-- Whether the policy has been asked in this tick and not been asked again: the phases in which the
pass of the tick has been made. -/
def Phase.isAnswered : Phase → Bool
  | .requesting .. | .executing _ | .returning .. | .releasing .. | .closing _ => true
  | _ => false

namespace Machine

variable {sc : Scenario} {m m' : Machine Memory}

/-- The pass of a tick is made in that tick, and whoever is not ready is at its base priority. -/
structure Seasoned (m : Machine Memory) : Prop where
  /-- no pass has been made ahead of its time -/
  early : ∀ tick, m.memory = some tick → tick ≤ m.state.tick
  /-- after the policy has been asked, the pass of the tick has been made -/
  answered : m.phase.isAnswered = true → m.memory = some m.state.tick
  /-- who is not ready is at its base priority -/
  base : ∀ {pid b n}, m.state.bid? pid = some (b, n) → pid ∉ m.state.ready → n = b

namespace Seasoned

theorem initial (sc : Scenario) : (Machine.initial sc none).Seasoned where
  early _ h := by cases h
  answered h := by cases h
  base h := by cases h

/-- What is `isAnswered` after a stride without a choice was so before it, and in the same tick. -/
theorem isAnswered_of_strides (hphase : m.phase ≠ .choosing)
    (hstr : m.Strides Discipline.aging.policy sc.limit m') (h : m'.phase.isAnswered = true) :
    m.phase.isAnswered = true ∧ m'.state.tick = m.state.tick := by
  refine ⟨?_, ?_⟩
  · cases hstr with
    | turn hch => exact absurd hch hphase
    | idle hch => exact absurd hch hphase
    | _ hphase' => first | (rw [hphase']; rfl) | cases h
  · refine hstr.tick_cases.resolve_right fun ⟨_, _, he, _⟩ => ?_
    rw [he] at h
    cases h

/-- Every stride under aging leaves a `Seasoned` machine seasoned. -/
theorem strides (hm : m.Steady sc) (h : m.Seasoned)
    (hstr : m.Strides Discipline.aging.policy sc.limit m') : m'.Seasoned := by
  by_cases hphase : m.phase = .choosing
  · obtain ⟨t, next, -, hchose, hripe, hstate⟩ := hm.ripened hphase hstr
    have htick : m'.state.tick = m.state.tick := hstr.tick_eq (by simp [hphase])
    refine ⟨fun tick hmem => ?_, fun _ => by rw [hripe.remembered, htick],
      fun {pid b n} hb hnot => ?_⟩
    · rw [hripe.remembered] at hmem
      cases hmem
      exact Nat.le_of_eq htick.symm
    · obtain ⟨n₀, hn₀, rfl⟩ := bid?_of_ripened hripe hstate hb
      by_cases hn : next = some pid
      · rw [if_pos hn]
      · -- Who is neither chosen nor ready was not ready before.
        have hwas : pid ∉ m.state.ready := fun hmem => by
          rw [hstate, State.ready_switched, hripe.ready] at hnot
          exact hnot (List.mem_filter.2 ⟨List.mem_append_left _ hmem, by simpa using hn⟩)
        rw [if_neg hn, State.ripe_of_not_ready hwas]
        exact h.base hn₀ hwas
  · obtain ⟨added, hjoins⟩ := hm.joins hphase hstr
    refine ⟨fun tick hmem => ?_, fun hans => ?_, fun {pid b n} hb hnot => ?_⟩
    · exact (h.early tick (hjoins.remembered ▸ hmem)).trans hstr.tick_le
    · obtain ⟨hwas, htick⟩ := isAnswered_of_strides hphase hstr hans
      rw [hjoins.remembered, htick]
      exact h.answered hwas
    · rw [hjoins.ready] at hnot
      rcases hjoins.comes hb with hb | ⟨-, rfl⟩
      · exact h.base hb fun hmem => hnot (List.mem_append_left _ hmem)
      · rfl

end Seasoned

end Machine

end Uniprocessor
