import Uniprocessor.Proofs.Aging
import Uniprocessor.Proofs.Congruence
import Uniprocessor.Proofs.Unhindered

/-!
# What the disciplines answer

A discipline that is asked who executes looks at a line of those who can, picks the best of them and
leaves the others as they stand (`State.Picks`). The disciplines differ in the line, which has the
contender before the ready processes or behind them, and in who is best. When a resource is given
back they wake the first of its waiters or the foremost.

Of several that are equally good the first one is the best, so where all are equal, or where those
who stand before others are no worse, the best of a line is its head (`firstBest_eq_head?`).
-/

namespace Uniprocessor

open Narrated

/-- If nobody is beaten by one behind it, `firstBest` is the head. -/
theorem firstBest_eq_head? {α : Type} {beats : α → α → Bool} {l : List α}
    (h : l.Pairwise fun a b => beats b a = false) : firstBest beats l = l.head? := by
  cases l with
  | nil => rfl
  | cons x rest =>
    rw [firstBest]
    cases hbest : firstBest beats rest with
    | none => rfl
    | some y => simp [List.rel_of_pairwise_cons h (mem_of_firstBest hbest)]

theorem firstMax_eq_head? {α : Type} {key : α → Nat} {l : List α}
    (h : l.Pairwise fun a b => key b ≤ key a) : firstMax key l = l.head? := by
  apply firstBest_eq_head?
  exact h.imp fun hle => by simpa using hle

theorem firstMin_eq_head? {α : Type} {key : α → Nat} {l : List α}
    (h : l.Pairwise fun a b => key a ≤ key b) : firstMin key l = l.head? := by
  apply firstBest_eq_head?
  exact h.imp fun hle => by simpa using hle

namespace State

variable {s t : State} {memory memory' : Memory} {next : Option Pid} {pid : Pid}

/-! ## Keys -/

/-- Keys that do not look at priorities are the same in states that are `Repriced`. -/
theorem Repriced.keyOf (h : s.Repriced t) {key : Process → Nat}
    (hkey : ∀ p, key { p with prio := 0 } = key p) : t.keyOf key = s.keyOf key := by
  funext pid
  have hlook := congrArg (Option.map key) (map_process?_of_map_procs
    (g := fun p => { p with prio := 0 }) (fun _ => rfl) h.procs pid)
  simp only [Option.map_map, Function.comp_def, hkey] at hlook
  rw [State.keyOf, State.keyOf, hlook]

/-- Nobody is found shorter by `findShorter` if nobody has less left than the bound. -/
theorem findShorter_eq_none {bound : Nat} {q : Queue} (h : ∀ pid ∈ q, ∃ p, s.process? pid = some p)
    (hbound : ∀ pid ∈ q, bound ≤ s.keyOf Process.remaining pid) :
    s.findShorter bound q = .ok none := by
  induction q with
  | nil => rfl
  | cons pid rest ih =>
    obtain ⟨hlive, hrest⟩ := List.forall_mem_cons.1 h
    obtain ⟨hle, hbounds⟩ := List.forall_mem_cons.1 hbound
    obtain ⟨p, hp⟩ := hlive
    rw [keyOf_of_process? hp] at hle
    rw [findShorter, process_eq_ok.2 hp, ok_bind, if_neg (Nat.not_lt.2 hle)]
    exact ih hrest hbounds

/-! ## Choices from a line -/

/-- The answer picks the best of the line, and the others stay: `next` is the best, and the ready
queue is the line without it. -/
structure Picks (line : Queue) (best : Option Pid) (t : State) (next : Option Pid) : Prop where
  /-- the best is chosen -/
  chosen : next = best
  /-- it leaves the line -/
  ready : t.ready = line.filter fun pid => next ≠ some pid

/-- What is picked from a line leaves the same queue: `Picks` decides both parts of an answer. -/
theorem Picks.unique {line : Queue} {best next' : Option Pid} {t' : State}
    (h : Picks line best t next) (h' : Picks line best t' next') :
    next' = next ∧ t'.ready = t.ready := by
  have hnext := h'.chosen.trans h.chosen.symm
  refine ⟨hnext, ?_⟩
  rw [h'.ready, h.ready, hnext]

theorem head?_front (s : State) : s.front.head? = s.contender?.or s.ready.head? := by
  rw [front, List.head?_append, Option.head?_toList]

theorem Repriced.front (h : s.Repriced t) : t.front = s.front := by
  rw [State.front, State.front, h.contender?, h.ready]

theorem Repriced.pool (h : s.Repriced t) : t.pool = s.pool := by
  rw [State.pool, State.pool, h.contender?, h.ready]

/-- Nobody is twice in the `front`, among those who can execute: the contender is not ready. -/
theorem Settled.front_nodup (hs : s.Settled) : s.front.Nodup :=
  List.perm_append_comm.nodup_iff.1 hs.pool_nodup

/-- A contender that goes on has been picked from the `front`, where it stands first, and the others
stay. -/
theorem Settled.picks_contender (hs : s.Settled) (hc : s.contender? = some pid)
    (best : Option Pid) : Picks s.front (s.contender?.or best) s (some pid) where
  chosen := by
    rw [hc]
    rfl
  ready := by
    have hnot : pid ∉ s.ready := hs.not_mem_ready_of_running (hs.status?_contender hc)
    rw [front, hc, Option.toList_some, List.singleton_append, List.filter_cons_of_neg (by simp),
      List.filter_eq_self.2]
    intro q hq
    have hne : pid ≠ q := fun heq => hnot (heq ▸ hq)
    simpa using hne

/-- Without a contender one of the ready processes is picked, by what `Took` says of the queue that
is left. -/
theorem Settled.picks_of_took (hs : s.Settled) (hc : s.contender? = none) {best : Option Pid}
    (h : s.Took t best) : Picks s.front (s.contender?.or best) t best where
  chosen := by
    rw [hc]
    rfl
  ready := by
    rw [front, hc]
    exact h.ready_eq hs.ready_nodup

/-- Where the current process goes on if it can, the contender is the best: `keepOr` picks it, or
what the choice takes. -/
theorem Settled.picks_of_keepOr (hs : s.Settled)
    {choice : State → Except Fault (State × Option Pid)} {best : Option Pid}
    (hchoice : ∃ u, choice s = .ok (u, best) ∧ s.Took u best)
    (hok : s.keepOr choice = .ok (t, next)) : Picks s.front (s.contender?.or best) t next := by
  rcases hs.of_keepOr hok with ⟨pid, hc, rfl, rfl⟩ | ⟨hc, htake⟩
  · exact hs.picks_contender hc best
  · obtain ⟨u, hu, htook⟩ := hchoice
    cases hu.symm.trans htake
    exact hs.picks_of_took hc htook

/-- If no ready process has less left than the contender, the contender is not replaced by
`preferShorter`. -/
theorem Settled.picks_of_preferShorter (hs : s.Settled)
    (hleft : ∀ cur, s.contender? = some cur → ∀ pid ∈ s.ready,
      s.keyOf Process.remaining cur ≤ s.keyOf Process.remaining pid)
    (hok : s.preferShorter.result = .ok (t, next)) :
    Picks s.front (s.contender?.or (firstMin (s.keyOf Process.lifespan) s.ready)) t next := by
  have hready : ∀ pid ∈ s.ready, ∃ p, s.process? pid = some p := fun _ => hs.process?_of_mem_ready
  rw [preferShorter, result_bind, result_lift, hs.contender_eq_ok, ok_bind] at hok
  rcases hc : s.contender? with _ | cur
  · obtain ⟨u, hu, htook⟩ := takeMin_eq_ok hready Process.lifespan
    simp only [hc, result_lift] at hok
    cases hu.symm.trans hok
    exact hc ▸ hs.picks_of_took hc htook
  · obtain ⟨-, p, hp, -⟩ := contender?_eq_some.1 hc
    have hle := hleft cur hc
    rw [keyOf_of_process? hp] at hle
    simp only [hc, result_bind, result_lift, process_eq_ok.2 hp, ok_bind,
      findShorter_eq_none hready hle] at hok
    cases hok
    have hpicks := hs.picks_contender hc (firstMin (s.keyOf Process.lifespan) s.ready)
    rwa [hc] at hpicks

/-- The `foremost` of those who can execute is picked by `preferUrgent`, and it leaves the line. -/
theorem Settled.picks_foremost (hs : s.Settled) (hok : s.preferUrgent.result = .ok (t, next)) :
    Picks s.front (s.foremost s.front) t next := by
  obtain ⟨t', hok', hway⟩ := hs.preferUrgent_eq_ok
  cases hok'.symm.trans hok
  rcases hway with ⟨rfl, cur, hc, hbest⟩ | htook
  · rw [hbest]
    exact ⟨rfl, (hs.picks_contender hc none).ready⟩
  · refine ⟨rfl, ?_⟩
    rw [htook.ready_eq (ready_headed s ▸ hs.front_nodup), ready_headed]

/-- If no ready process is above the contender, the contender is not replaced by `preferUrgent`. -/
theorem Settled.picks_of_preferUrgent (hs : s.Settled)
    (hprio : ∀ cur, s.contender? = some cur → ∀ pid ∈ s.ready, s.prioOf pid ≤ s.prioOf cur)
    (hok : s.preferUrgent.result = .ok (t, next)) :
    Picks s.front (s.contender?.or (s.foremost s.ready)) t next := by
  have hbest : s.foremost s.front = s.contender?.or (s.foremost s.ready) := by
    cases hc : s.contender? with
    | none => rw [front_of_none hc, Option.none_or]
    | some cur =>
      rw [front_of_some hc, Option.some_or]
      cases hbest : s.foremost s.ready with
      | none => rw [foremost_eq_none.1 hbest]; rfl
      | some best =>
        rw [foremost_cons hbest, if_pos (hprio cur hc best (mem_of_foremost hbest))]
  exact hbest ▸ hs.picks_foremost hok

/-- Where the contender goes behind the others first, one of the `pool` is picked. -/
theorem Settled.picks_of_pooled (hs : s.Settled) {best : Option Pid} (h : s.pooled.Took t best) :
    Picks s.pool best t best where
  chosen := rfl
  ready := by
    rw [h.ready_eq (ready_pooled s ▸ hs.pool_nodup), ready_pooled]

/-- The `foremost` of the pool is the same when the contender is already in it. -/
theorem foremost_pooled (s : State) : s.pooled.foremost s.pooled.ready = s.foremost s.pool := by
  rw [ready_pooled]
  exact foremost_eq_firstMax fun q _ => prioOf_congr (congrFun (bid?_pooled s) q)

end State

/-! ## The answers of the disciplines -/

namespace Discipline

open State

variable {memory memory' : Memory} {s t : State} {next : Option Pid}

theorem picks_of_fcfs (hs : s.Settled)
    (hok : (fcfs.policy.choose memory s).result = .ok (memory', t, next)) :
    Picks s.front s.front.head? t next := by
  have hkeep : s.keepOr (fun s => .ok s.takeHead) = .ok (t, next) := result_of_paired hok
  rw [head?_front]
  refine hs.picks_of_keepOr ⟨s.takeHead.1, ?_, ?_⟩ hkeep
  · rw [← takeHead_snd]
  · rw [← takeHead_snd]
    exact took_takeHead s

theorem picks_of_sjf (hs : s.Settled)
    (hok : (sjf.policy.choose memory s).result = .ok (memory', t, next)) :
    Picks s.front (s.contender?.or (firstMin (s.keyOf Process.lifespan) s.ready)) t next := by
  have hkeep : s.keepOr (fun s => s.takeMin Process.lifespan) = .ok (t, next) :=
    result_of_paired hok
  exact hs.picks_of_keepOr (takeMin_eq_ok (fun _ => hs.process?_of_mem_ready) _) hkeep

theorem picks_of_stcf (hs : s.Settled)
    (hleft : ∀ cur, s.contender? = some cur → ∀ pid ∈ s.ready,
      s.keyOf Process.remaining cur ≤ s.keyOf Process.remaining pid)
    (hok : (stcf.policy.choose memory s).result = .ok (memory', t, next)) :
    Picks s.front (s.contender?.or (firstMin (s.keyOf Process.lifespan) s.ready)) t next :=
  hs.picks_of_preferShorter hleft (result_of_paired hok)

/-- Priority and priority inheritance choose in the same way: both pick from the `front` with the
contender before the `foremost`. -/
theorem picks_of_urgent {d : Discipline} (hd : d = .priority ∨ d = .inheritance) (hs : s.Settled)
    (hprio : ∀ cur, s.contender? = some cur → ∀ pid ∈ s.ready, s.prioOf pid ≤ s.prioOf cur)
    (hok : (d.policy.choose memory s).result = .ok (memory', t, next)) :
    Picks s.front (s.contender?.or (s.foremost s.ready)) t next := by
  rcases hd with rfl | rfl
  · exact hs.picks_of_preferUrgent hprio (result_of_paired hok)
  · exact hs.picks_of_preferUrgent hprio (result_of_paired hok)

theorem picks_of_roundRobin (hs : s.Settled)
    (hok : (roundRobin.policy.choose memory s).result = .ok (memory', t, next)) :
    Picks s.pool s.pool.head? t next := by
  change (roundRobin.choose memory s).result = _ at hok
  rw [choose, result_bind, result_lift, hs.yieldTail_eq_ok, ok_bind] at hok
  cases hok
  have hbest : s.pooled.takeHead.2 = s.pool.head? := by rw [takeHead_snd, ready_pooled]
  exact hbest ▸ hs.picks_of_pooled (took_takeHead _)

theorem picks_of_aging (hs : s.Settled)
    (hok : (aging.policy.choose memory s).result = .ok (memory', t, next)) :
    Picks s.pool (firstMax (fun pid => s.ripe memory pid (s.prioOf pid)) s.pool) t next := by
  have hripe := hs.ripened hok
  exact ⟨hripe.best, hripe.ready⟩

theorem picks_of_ceiling (hs : s.Settled)
    (hok : (ceiling.policy.choose memory s).result = .ok (memory', t, next)) :
    Picks s.pool (s.foremost s.pool) t next := by
  obtain ⟨u, htake, htook⟩ := takeUrgent_eq_ok fun _ => hs.process?_of_mem_pooled
  change (ceiling.choose memory s).result = _ at hok
  rw [choose, result_bind, result_lift, hs.yieldTail_eq_ok, ok_bind] at hok
  cases htake.symm.trans (result_of_paired (x := liftM s.pooled.takeUrgent) hok)
  rw [← foremost_pooled]
  exact hs.picks_of_pooled htook

/-! ## Whom the disciplines wake -/

variable {pid : Pid} {r : ResourceId} {x : Resource}

/-- The state stands beside the memory, which the disciplines carry through a `release` as it is. -/
theorem result_of_released {y : Narrated State}
    (h : (y >>= fun t => pure (memory, t)).result = .ok (memory', t)) : y.result = .ok t := by
  rw [result_bind] at h
  obtain ⟨t', ht', hpure⟩ := bind_eq_ok.1 h
  cases hpure
  exact ht'

/-- Without priorities the head of the wait queue is woken by `releaseFirst`, and joins the ready
queue at its tail. -/
theorem ready_of_releaseFirst {d : Discipline} (hd : d.release = State.releaseFirst)
    (hcalls : s.Calls pid r x) (hx : x.owner = some pid)
    (hok : (d.policy.release memory s r).result = .ok (memory', t)) :
    t.ready = s.ready ++ x.waiters.head?.toList := by
  have hrelease : (d.release s r).result = .ok t := result_of_released hok
  rw [hd] at hrelease
  cases (hcalls.releaseFirst_eq_ok hx).symm.trans hrelease
  exact ready_vacate ..

/-- With priorities the `foremost` waiter is woken, and joins the ready queue at its tail. -/
theorem ready_of_releaseUrgent {d : Discipline} (hd : d = .priority ∨ d = .aging ∨ d = .inheritance)
    (hcalls : s.Calls pid r x) (hx : x.owner = some pid)
    (hok : (d.policy.release memory s r).result = .ok (memory', t)) :
    t.ready = s.ready ++ (s.foremost x.waiters).toList := by
  have hrelease : (d.release s r).result = .ok t := result_of_released hok
  have hurgent : ∀ {t}, (s.releaseUrgent r).result = .ok t →
      t.ready = s.ready ++ (s.foremost x.waiters).toList := by
    intro t ht
    cases (hcalls.releaseUrgent_eq_ok hx).symm.trans ht
    exact ready_vacate ..
  rcases hd with rfl | rfl | rfl
  · exact hurgent hrelease
  · exact hurgent hrelease
  · obtain ⟨u, -, hu, hr⟩ := hcalls.releaseInheriting_eq_ok hx
    cases hu.symm.trans hrelease
    rw [hr.ready, ready_vacate]

end Discipline

end Uniprocessor
