import Uniprocessor.Proofs.Ceiling
import Uniprocessor.Proofs.Patience
import Uniprocessor.Proofs.Uniform

/-!
# Taking turns by priority

Under aging and under the ceiling the current process goes behind all others, and the foremost of
them is chosen. If all jobs have the same priority, that is the first one, as under round robin.

Under aging, whoever is not ready is then at this priority, and those who are ready have risen above
it (`State.Risen`). Nobody in the ready queue is above one that stands before it (`State.Graded`):
those who join the queue have not risen yet, and in a pass all of them rise, if they are not at the
largest priority already. Under the ceiling only owners rise, so nobody does if nobody has requests.
-/

namespace Uniprocessor

open Narrated

namespace State

variable {s : State} {c : Nat}

/-- Those who are not ready have the priority `c`, and the others have risen from it. -/
structure Risen (s : State) (c : Nat) : Prop where
  /-- nobody is below `c` -/
  le : ∀ {pid b n}, s.bid? pid = some (b, n) → c ≤ n
  /-- nobody is above the largest priority -/
  bounded : ∀ {pid b n}, s.bid? pid = some (b, n) → n ≤ largestPrio
  /-- who is not ready has not risen -/
  eq : ∀ {pid b n}, s.bid? pid = some (b, n) → pid ∉ s.ready → n = c

/-- Nobody in the ready queue is above one that stands before it. -/
def Graded (s : State) : Prop := s.ready.Pairwise fun a b => s.prioOf b ≤ s.prioOf a

/-- When the policy is asked, the contender goes behind those who are ready, and has not risen, so
the `pool` is graded too, also after a pass. -/
theorem Graded.pool (h : s.Graded) (hs : s.Settled) (hrisen : s.Risen c) (memory : Memory) :
    s.pool.Pairwise fun a b =>
      s.ripe memory b (s.prioOf b) ≤ s.ripe memory a (s.prioOf a) := by
  refine List.pairwise_append.2 ⟨?_, ?_, fun a ha b hb => ?_⟩
  · refine h.imp_of_mem fun {a b} ha hb hle => ?_
    by_contra hlt
    exact absurd (lt_of_ripe_lt ha hb (Nat.not_le.1 hlt)) (Nat.not_lt.2 hle)
  · cases s.contender? <;> simp
  · have hrun := hs.status?_contender (Option.mem_toList.1 hb)
    have hnot := hs.not_mem_ready_of_running hrun
    obtain ⟨p, hp⟩ := hs.process?_of_mem_ready ha
    obtain ⟨q, hq⟩ := exists_process?_of_status? hrun
    have hbid := bid?_of_process? hp
    have hbid' := bid?_of_process? hq
    rw [ripe_of_not_ready hnot, prioOf_of_bid? hbid', hrisen.eq hbid' hnot, prioOf_of_bid? hbid]
    exact le_ripe (hrisen.eq hbid' hnot ▸ hrisen.bounded hbid') (hrisen.le hbid)

end State

namespace Machine

variable {sc : Scenario} {m m' n : Machine Memory} {c : Nat}

/-- Whoever joins the ready queue has not risen, so it stands well at its tail: a stride without a
choice leaves it `Graded`. -/
theorem Steady.graded_joins (hm : m.Steady sc) (hm' : m'.Steady sc) (h : m.state.Graded)
    (hrisen : m.state.Risen c) (hbase : ∀ {pid b n}, m'.state.bid? pid = some (b, n) → b = c)
    {added : List Pid} (hjoins : m.Joins added m') : m'.state.Graded := by
  have hold : ∀ {pid}, pid ∈ m.state.ready → m'.state.prioOf pid = m.state.prioOf pid ∧
      c ≤ m.state.prioOf pid := by
    intro pid hpid
    obtain ⟨p, hp⟩ := hm.stage.settled.process?_of_mem_ready hpid
    have hb := State.bid?_of_process? hp
    rw [State.prioOf_of_bid? (hjoins.stays hb), State.prioOf_of_bid? hb]
    exact ⟨rfl, hrisen.le hb⟩
  have hnew : ∀ {pid}, pid ∈ added → m'.state.prioOf pid = c := by
    intro pid hpid
    have hready : pid ∈ m'.state.ready := hjoins.ready ▸ List.mem_append_right _ hpid
    obtain ⟨p, hp⟩ := hm'.stage.settled.process?_of_mem_ready hready
    have hb := State.bid?_of_process? hp
    rw [State.prioOf_of_bid? hb]
    rcases hjoins.comes hb with hwas | ⟨-, heq⟩
    · exact hrisen.eq hwas (hjoins.fresh pid hpid)
    · exact heq.trans (hbase hb)
  rw [State.Graded, hjoins.ready]
  refine List.pairwise_append.2 ⟨?_, ?_, fun a ha b hb => ?_⟩
  · refine List.Pairwise.imp_of_mem (fun {a b} ha hb hle => ?_) h
    rw [(hold ha).1, (hold hb).1]
    exact hle
  · refine List.pairwise_of_forall_mem_list fun a ha b hb => ?_
    rw [hnew ha, hnew hb]
  · rw [(hold ha).1, hnew hb]
    exact (hold ha).2

/-- What the policy leaves of the `pool` stands as it stood there, so a choice leaves the ready
queue `Graded`. -/
theorem Steady.graded_choice (hm : m.Steady sc) (hm' : m'.Steady sc) (h : m.state.Graded)
    (hrisen : m.state.Risen c) {t : State} {next : Option Pid}
    (hripe : m.state.Ripened m.memory t m'.memory next)
    (hstate : m'.state = m.state.switched t next) : m'.state.Graded := by
  have hready : m'.state.ready = m.state.pool.filter fun pid => next ≠ some pid := by
    rw [hstate, State.ready_switched, hripe.ready]
  have hpool := (h.pool hm.stage.settled hrisen m.memory).filter fun pid => decide (next ≠ some pid)
  rw [← hready] at hpool
  refine hpool.imp_of_mem fun {a b} ha hb hle => ?_
  obtain ⟨-, -, ha'⟩ := hm'.prioOf_of_ripened hripe hstate ha
  obtain ⟨-, -, hb'⟩ := hm'.prioOf_of_ripened hripe hstate hb
  rw [ha', hb']
  exact hle

/-- Where the ready queue is `Graded`, aging answers as round robin: the head is the first with the
highest priority. -/
theorem Alike.agrees_of_graded (h : m.Alike n) (hm : m.Steady sc) (hn : n.Steady sc)
    (hgraded : n.state.Graded) (hrisen : n.state.Risen c) :
    Discipline.roundRobin.policy.Agrees Discipline.aging.policy m n where
  choose _ := by
    intro memory memory' t t' next next' hchoose hchoose'
    have hpicks := Discipline.picks_of_roundRobin hm.stage.settled hchoose
    have hpicks' := Discipline.picks_of_aging hn.stage.settled hchoose'
    rw [firstMax_eq_head? (hgraded.pool hn.stage.settled hrisen n.memory), h.state.pool] at hpicks'
    exact hpicks.unique hpicks'
  release := by
    intro pid r waiters due x _ hcalls hcalls' hx memory memory' t t' hrelease hrelease'
    have hwaiters : ∀ w ∈ x.waiters, n.state.prioOf w = c := by
      intro w hw
      obtain ⟨p, hp⟩ := hcalls'.process?_of_mem_waiters hw
      have hb := State.bid?_of_process? hp
      rw [State.prioOf_of_bid? hb]
      exact hrisen.eq hb (hcalls'.wakeable.apart w hw)
    rw [Discipline.ready_of_releaseFirst rfl hcalls hx hrelease,
      Discipline.ready_of_releaseUrgent (Or.inr (Or.inl rfl)) hcalls' hx hrelease',
      State.foremost_eq_head? hwaiters, h.state.ready]

/-- Where the state is `Level` and nobody owns anything, the ceiling answers as round robin: the
head of the pool is the `foremost`, and nothing is given back. -/
theorem Alike.agrees_of_unowned (h : m.Alike n) (hm : m.Steady sc) (hn : n.Steady sc)
    (hlevel : n.state.Level c) (hnone : ∀ pid r, ¬ n.state.Owns pid r) :
    Discipline.roundRobin.policy.Agrees Discipline.ceiling.policy m n where
  choose _ := by
    intro memory memory' t t' next next' hchoose hchoose'
    have hs := hn.stage.settled
    have hpool : ∀ pid ∈ n.state.pool, n.state.prioOf pid = c := by
      intro pid hpid
      obtain ⟨⟨b, k⟩, hb⟩ := hs.bid?_of_mem_pool hpid
      obtain ⟨p, hp, -⟩ := State.bid?_eq_some.1 hb
      exact hlevel hp
    have hpicks := Discipline.picks_of_roundRobin hm.stage.settled hchoose
    have hpicks' := Discipline.picks_of_ceiling hs hchoose'
    rw [State.foremost_eq_head? hpool, h.state.pool] at hpicks'
    exact hpicks.unique hpicks'
  release := by
    intro pid r waiters due x _ _ hcalls' hx
    exact absurd ((State.owns_iff hcalls'.entry).2 hx) (hnone pid r)

section Requests

variable {σ : Type} {P : Policy σ} {m m' : Machine σ}

/-- If nobody has requests, nobody gets anything in a stride: nothing is ever due to be asked
for. -/
theorem Steady.not_owns_strides (hnone : ∀ job ∈ sc.jobs, job.requests = []) (hm : m.Steady sc)
    (h : ∀ pid r, ¬ m.state.Owns pid r) (hstr : m.Strides P sc.limit m') :
    ∀ pid r, ¬ m'.state.Owns pid r := by
  -- Where no resource changes, no owner is new.
  have hkeep : m'.state.resources = m.state.resources → ∀ pid r, ¬ m'.state.Owns pid r :=
    fun hres pid r ho => h pid r ((State.owns_congr hres).1 ho)
  have hunasked : ∀ {pid q rest}, m.phase ≠ .requesting pid (q :: rest) := by
    intro pid q rest hphase
    obtain ⟨-, p, script, hp, hs, -, hdue⟩ := hm.fits_of hphase
    obtain ⟨job, hjob, -, hplays⟩ := hm.stage.plays_of_find? hp hs
    obtain ⟨hq, -⟩ := hplays.mem_due.1 (hdue ▸ List.mem_cons_self ..)
    rw [hnone job hjob] at hq
    cases hq
  have hswitch : ∀ {memory t next}, m.state.Chose t next →
      m'.state = (m.carriedOut memory t next).state → ∀ pid r, ¬ m'.state.Owns pid r := by
    intro memory t next hchose hstate
    apply hkeep
    rw [hstate, carriedOut_state, State.resources_switched, hchose.resources]
  cases hstr with
  | drain _ _ hchose => exact hswitch hchose rfl
  | idle _ _ hchose => exact hswitch hchose rfl
  | turn _ _ hchose => exact hswitch hchose rfl
  | grant hphase => exact absurd hphase hunasked
  | refuse hphase => exact absurd hphase hunasked
  | release _ hcalls hx => exact absurd ((State.owns_iff hcalls.entry).2 hx) (h _ _)
  | _ => exact hkeep rfl

end Requests

end Machine

namespace Scenario

variable {sc : Scenario} {memory : Memory} {m : Machine Memory} {c : Nat}

/-- If all jobs have the same priority, those who wait in the ready queue have `Risen` from it, and
all others have it. -/
theorem Reaches.risen (hsc : sc.Admitted) (hceiling : sc.ceiling ≤ largestPrio)
    (hprio : ∀ job ∈ sc.jobs, job.prio = c) (h : sc.Reaches Discipline.aging.policy memory m)
    (hrest : m.phase.isSwitching = false) : m.state.Risen c := by
  obtain ⟨past, ht⟩ := h.exists_trail
  obtain ⟨hm, hseason, -, hcredit⟩ := ht.credited_of_rest hsc hceiling hrest
  have hready : ∀ {pid b n}, m.state.bid? pid = some (b, n) → c ≤ n ∧ n ≤ largestPrio := by
    intro pid b n hb
    have hbase := hm.base_eq hprio hb
    have hle := (hm.base_le hsc.sound hb).trans hceiling
    by_cases hpid : pid ∈ m.state.ready
    · have hn := hcredit hb hpid
      omega
    · have hn := hseason.base hb hpid
      omega
  exact ⟨fun hb => (hready hb).1, fun hb => (hready hb).2,
    fun hb hpid => (hseason.base hb hpid).trans (hm.base_eq hprio hb)⟩

/-- If all jobs have the same priority, the ready queue is `Graded` all along, by `graded_joins` and
`graded_choice` for each stride. -/
theorem Reaches.graded (hsc : sc.Admitted) (hceiling : sc.ceiling ≤ largestPrio)
    (hprio : ∀ job ∈ sc.jobs, job.prio = c) (h : sc.Reaches Discipline.aging.policy memory m)
    (hrest : m.phase.isSwitching = false) : m.state.Graded := by
  refine h.invariant_of_reached hsc Discipline.aging.lawful (I := fun m => m.state.Graded)
    (fun _ => List.Pairwise.nil) ?_ hrest
  intro m m' hm hreach hI hstr _
  have hm' := hm.strides hsc.sound hstr
  have hrisen := hreach.risen hsc hceiling hprio hm.isSwitching_eq_false
  by_cases hphase : m.phase = .choosing
  · obtain ⟨t, next, -, -, hripe, hstate⟩ := hm.ripened hphase hstr
    exact hm.graded_choice hm' hI hrisen hripe hstate
  · obtain ⟨added, hjoins⟩ := hm.joins hphase hstr
    exact hm.graded_joins hm' hI hrisen (hm'.base_eq hprio) hjoins

/-- If nobody has requests, nobody ever owns anything, by `not_owns_strides` for each stride. -/
theorem Reaches.not_owns {σ : Type} {P : Policy σ} {memory : σ} {m : Machine σ} (hsc : sc.Admitted)
    (hP : P.Lawful) (hnone : ∀ job ∈ sc.jobs, job.requests = []) (h : sc.Reaches P memory m)
    (hrest : m.phase.isSwitching = false) : ∀ pid r, ¬ m.state.Owns pid r := by
  exact h.invariant hsc hP (I := fun m => ∀ pid r, ¬ m.state.Owns pid r)
    (fun _ _ _ => State.not_owns_empty) (fun hm hI hstr => hm.not_owns_strides hnone hI hstr) hrest

/-- If nobody has requests, nobody rises under the ceiling, so the state stays `Level`. -/
theorem Reaches.level_of_unowned (hsc : sc.Admitted) (hprio : ∀ job ∈ sc.jobs, job.prio = c)
    (h : sc.Reaches Discipline.ceiling.policy memory m) (hm : m.Steady sc)
    (hnone : ∀ pid r, ¬ m.state.Owns pid r) : m.state.Level c := by
  have hraised := h.raised hsc
  refine hm.level hprio fun pid b n hb => ?_
  rw [hraised.prio hb, if_pos (hraised.gains_eq_nil (hnone pid))]

/-- Priorities that are equal **leave aging no choice**: if all jobs have the same priority, aging
has the trace of round robin, whatever the scripts. If moreover there is a ceiling and nobody has
requests, the priority ceiling has it too. -/
theorem Admitted.same_trace_of_prio (h : sc.Admitted) (hceiling : sc.ceiling ≤ largestPrio)
    {prio : Nat} (hprio : ∀ job ∈ sc.jobs, job.prio = prio) (memory : Discipline → Memory) :
    ∃ t, (sc.run Discipline.roundRobin.policy (memory .roundRobin) sc.stepBound).trace? = some t ∧
      (sc.run Discipline.aging.policy (memory .aging) sc.stepBound).trace? = some t ∧
      (0 < sc.ceiling → (∀ job ∈ sc.jobs, job.requests = []) →
        (sc.run Discipline.ceiling.policy (memory .ceiling) sc.stepBound).trace? = some t) := by
  obtain ⟨t, hrobin, haging⟩ : ∃ t,
      (sc.run Discipline.roundRobin.policy (memory .roundRobin) sc.stepBound).trace? = some t ∧
      (sc.run Discipline.aging.policy (memory .aging) sc.stepBound).trace? = some t := by
    refine h.same_trace (by simp) (by simp) fun _ hm hreach' hn halike => ?_
    have hrest := hn.isSwitching_eq_false
    exact halike.agrees_of_graded hm hn (hreach'.graded h hceiling hprio hrest)
      (hreach'.risen h hceiling hprio hrest)
  refine ⟨t, hrobin, haging, fun hpos hnone => ?_⟩
  obtain ⟨t', hrobin', hceiling'⟩ : ∃ t,
      (sc.run Discipline.roundRobin.policy (memory .roundRobin) sc.stepBound).trace? = some t ∧
      (sc.run Discipline.ceiling.policy (memory .ceiling) sc.stepBound).trace? = some t := by
    refine h.same_trace (by simp) (fun hzero => hpos.ne' hzero.2) fun _ hm hreach' hn halike => ?_
    have hfree := hreach'.not_owns h Discipline.ceiling.lawful hnone hn.isSwitching_eq_false
    exact halike.agrees_of_unowned hm hn (hreach'.level_of_unowned h hprio hn hfree) hfree
  cases hrobin.symm.trans hrobin'
  exact hceiling'

/-- The same three processes without their requests. -/
def strangers : Scenario :=
  { peers with jobs := peers.jobs.map fun job => { job with requests := [] } }

theorem admitted_strangers : strangers.Admitted where
  built := ⟨⟨1, 3, 100, strangers.jobs, 3⟩, rfl⟩
  lifespan_lt := by decide
  limit_le := by decide

/-- Under round robin and under aging the second process is refused what the first one holds, and
executes once the first one is done. Without requests all three take turns, also under the
ceiling. -/
theorem same_trace_of_prio_peers :
    (∃ t, (peers.run Discipline.roundRobin.policy none peers.stepBound).trace? = some t ∧
      (peers.run Discipline.aging.policy none peers.stepBound).trace? = some t ∧
      ⟨1, .refused 2 0⟩ ∈ t.events ∧ Trace.slotsOf t.events =
        [(0, some 1), (1, some 3), (2, some 1), (3, some 3), (4, some 2), (5, some 2)]) ∧
    ∃ t, (strangers.run Discipline.roundRobin.policy none strangers.stepBound).trace? = some t ∧
      (strangers.run Discipline.aging.policy none strangers.stepBound).trace? = some t ∧
      (strangers.run Discipline.ceiling.policy none strangers.stepBound).trace? = some t ∧
      Trace.slotsOf t.events =
        [(0, some 1), (1, some 2), (2, some 3), (3, some 1), (4, some 2), (5, some 3)] := by
  constructor
  · obtain ⟨t, ht, ht', -⟩ := admitted_peers.same_trace_of_prio (by decide)
      (by decide : ∀ job ∈ peers.jobs, job.prio = 3) fun _ => none
    refine ⟨t, ht, ht', ?_⟩
    have hm : peers.Reaches Discipline.roundRobin.policy none _ := .of_sorted (by decide) rfl 80
    cases ht.symm.trans (hm.trace?_of_over admitted_peers Discipline.roundRobin.lawful
      (rfl : _ = Phase.over .normal))
    exact ⟨by decide, rfl⟩
  · obtain ⟨t, ht, ht', ht''⟩ := admitted_strangers.same_trace_of_prio (by decide)
      (by decide : ∀ job ∈ strangers.jobs, job.prio = 3) fun _ => none
    refine ⟨t, ht, ht', ht'' (by decide) (by decide), ?_⟩
    have hm : strangers.Reaches Discipline.roundRobin.policy none _ :=
      .of_sorted (by decide) rfl 80
    cases ht.symm.trans (hm.trace?_of_over admitted_strangers Discipline.roundRobin.lawful
      (rfl : _ = Phase.over .normal))
    rfl

end Scenario

end Uniprocessor
