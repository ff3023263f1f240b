import Uniprocessor.Proofs.Answers
import Uniprocessor.Proofs.Checked
import Uniprocessor.Proofs.Conserving

/-!
# A choice loses and doubles nobody

Whatever a discipline prefers, when it is asked who executes it only moves processes between the
ready queue and the processor (`State.Conserves`). Those who can execute before are those who can
afterwards, each of them once; somebody is chosen if there is anybody; and the processes that stay
in the ready queue stand in it in the order in which they stood. Nothing else changes, but for the
priorities under aging.

The order is kept because every discipline leaves the same two lines behind, the ready queue with
the contender before it or behind it, less the one that was chosen (`Discipline.ready_of_choose`).
-/

namespace Uniprocessor

open Narrated

/-! ## Order -/

/-- Those who are in both queues stand in the same order in both. -/
def SameOrder (q q' : Queue) : Prop := q.filter (· ∈ q') = q'.filter (· ∈ q)

/-- Those of a queue who stay keep their order if all newcomers are at the ends: `SameOrder` for a
filtered queue between them. -/
theorem sameOrder_of_filter {q front back : Queue} {stays : Pid → Bool}
    (hfront : ∀ pid ∈ front, pid ∉ q) (hback : ∀ pid ∈ back, pid ∉ q) :
    SameOrder q (front ++ q.filter stays ++ back) := by
  have hstay : q.filter (· ∈ front ++ q.filter stays ++ back) = q.filter stays := by
    refine List.filter_congr fun pid hpid => ?_
    have hnot : pid ∉ front ∧ pid ∉ back :=
      ⟨fun hm => hfront pid hm hpid, fun hm => hback pid hm hpid⟩
    simp [hnot, hpid]
  have hnone : ∀ {ends : Queue}, (∀ pid ∈ ends, pid ∉ q) → ends.filter (· ∈ q) = [] :=
    fun hends => List.filter_eq_nil_iff.2 fun pid hpid => by simpa using hends pid hpid
  have hold : (q.filter stays).filter (· ∈ q) = q.filter stays :=
    List.filter_eq_self.2 fun pid hpid => by simpa using List.mem_of_mem_filter hpid
  rw [SameOrder, hstay, List.filter_append, List.filter_append, hnone hfront, hnone hback, hold,
    List.nil_append, List.append_nil]

namespace State

variable {s t : State} {next : Option Pid}

/-- What every choice of `next` keeps that leads from `s` to `t`: the processes, their order, and
all that a choice has no business with. -/
structure Conserves (s t : State) (next : Option Pid) : Prop where
  /-- those who can execute are chosen or ready, each of them once -/
  pool : (s.ready ++ s.contender?.toList).Perm (t.ready ++ next.toList)
  /-- nobody is chosen only if there is nobody -/
  nobody : next = none ↔ s.ready = [] ∧ s.contender? = none
  /-- those who stay in the ready queue keep their order -/
  order : SameOrder s.ready t.ready
  /-- the owners and the wait queues are the same -/
  resources : t.resources = s.resources
  /-- the current process is the same until the choice is carried out -/
  current : t.current = s.current
  /-- the clock does not move -/
  tick : t.tick = s.tick
  /-- the ceiling stays -/
  ceiling : t.ceiling = s.ceiling
  /-- the same processes are live, with the same lifespans, ages and base priorities -/
  records : t.procs.map (fun p => (p.pid, p.lifespan, p.age, p.base)) =
    s.procs.map fun p => (p.pid, p.lifespan, p.age, p.base)

/-- The `contender?` is not in the ready queue, as it executes and whoever is ready does not. -/
theorem Settled.not_mem_ready_of_contender (hs : s.Settled) {pid : Pid}
    (hpid : pid ∈ s.contender?.toList) : pid ∉ s.ready :=
  hs.not_mem_ready_of_running (hs.status?_contender (Option.mem_toList.1 hpid))

/-- Less some of them, the ready processes with the contender at one end stand as before:
`SameOrder` with the ready queue. -/
theorem Settled.sameOrder_of_line (hs : s.Settled) {q : Queue} {stays : Pid → Bool}
    (hq : q = s.front.filter stays ∨ q = s.pool.filter stays) : SameOrder s.ready q := by
  have hend : ∀ pid ∈ s.contender?.toList.filter stays, pid ∉ s.ready := fun pid hpid =>
    hs.not_mem_ready_of_contender (List.mem_of_mem_filter hpid)
  have hnil : ∀ pid ∈ ([] : Queue), pid ∉ s.ready := fun pid hpid => absurd hpid List.not_mem_nil
  rcases hq with rfl | rfl
  · rw [front, List.filter_append, ← List.append_nil (_ ++ _)]
    exact sameOrder_of_filter hend hnil
  · rw [pool, List.filter_append, ← List.nil_append (s.ready.filter stays)]
    exact sameOrder_of_filter hnil hend

/-- Preferring the shorter leaves the ready processes with the contender at one end, less the one
that was chosen. -/
theorem Settled.ready_of_preferShorter (hs : s.Settled)
    (hok : s.preferShorter.result = .ok (t, next)) :
    t.ready = s.front.filter (fun pid => next ≠ some pid) ∨
      t.ready = s.pool.filter fun pid => next ≠ some pid := by
  obtain ⟨t', choice, hok', hway⟩ := hs.preferShorter_eq_ok
  cases hok'.symm.trans hok
  rcases hway with ⟨rfl, cur, hc, rfl⟩ | ⟨u, htook, rfl | ⟨pid, rfl, rfl⟩⟩
  · exact Or.inl (hs.picks_contender hc none).ready
  · exact Or.inr (hs.picks_of_pooled htook).ready
  · exact Or.inr (hs.picks_of_pooled htook).ready

end State

namespace Discipline

open State

variable {s t : State} {memory memory' : Memory} {next : Option Pid}

/-- The ready queue that a choice leaves, under any discipline, is the `front` or the `pool` of the
state before, less the one that was chosen. -/
theorem ready_of_choose (d : Discipline) (hs : s.Settled)
    (hok : (d.choose memory s).result = .ok (memory', t, next)) :
    t.ready = s.front.filter (fun pid => next ≠ some pid) ∨
      t.ready = s.pool.filter fun pid => next ≠ some pid := by
  cases d with
  | fcfs => exact Or.inl (picks_of_fcfs hs hok).ready
  | sjf => exact Or.inl (picks_of_sjf hs hok).ready
  | stcf => exact hs.ready_of_preferShorter (result_of_paired hok)
  | roundRobin => exact Or.inr (picks_of_roundRobin hs hok).ready
  | priority => exact Or.inl (hs.picks_foremost (result_of_paired hok)).ready
  | aging => exact Or.inr (picks_of_aging hs hok).ready
  | ceiling => exact Or.inr (picks_of_ceiling hs hok).ready
  | inheritance => exact Or.inl (hs.picks_foremost (result_of_paired hok)).ready

/-- Somebody is chosen exactly if there is somebody to choose: a ready process or a `contender?`. -/
theorem next_eq_none_iff (d : Discipline) (hs : s.Settled)
    (hok : (d.choose memory s).result = .ok (memory', t, next)) (hchose : s.Chose t next) :
    next = none ↔ s.ready = [] ∧ s.contender? = none := by
  constructor
  · rintro rfl
    have hvacant := d.conserving hs hok
    exact ⟨hvacant.ready, hvacant.contender⟩
  · rintro ⟨hready, hc⟩
    have hpool := hchose.pool
    rw [hready, hc] at hpool
    exact Option.toList_eq_nil_iff.1 (List.append_eq_nil_iff.1 hpool.symm.eq_nil).1

/-- A choice **loses and doubles nobody**: in every state that is `Checked`, each of the eight
disciplines makes a choice without a fault, and the choice `Conserves` who can execute and in which
order. Only under aging are priorities changed. -/
theorem choose_conserves (d : Discipline) (memory : Memory) (hs : s.Checked) :
    ∃ memory' t next, (d.choose memory s).result = .ok (memory', t, next) ∧
      s.Conserves t next ∧
      (d ≠ .aging →
        ∀ pid, (t.process? pid).map Process.prio = (s.process? pid).map Process.prio) := by
  have h := hs.settled
  obtain ⟨memory', t, next, hok, hchose, hbid⟩ := d.choose_eq_ok memory h
  refine ⟨memory', t, next, hok, ?_, fun hd pid => ?_⟩
  · exact {
      pool := List.perm_append_comm.trans (hchose.pool.trans List.perm_append_comm)
      nobody := d.next_eq_none_iff h hok hchose
      order := h.sameOrder_of_line (d.ready_of_choose h hok)
      resources := hchose.resources
      current := hchose.keeps _ fun _ => rfl
      tick := hchose.tick
      ceiling := hchose.ceiling
      records := hchose.keeps
        (fun s => s.procs.map fun p => (p.pid, p.lifespan, p.age, p.base)) fun s => by
          simp [undecided, Function.comp_def] }
  · have hprio := congrArg (Option.map Prod.snd) (congrFun (hbid hd) pid)
    rwa [bid?, bid?, Option.map_map, Option.map_map] at hprio

/-- The process that executes has four ticks left, and the first ready one has three. -/
theorem choose_conserves_crew :
    crew.Checked ∧ ∃ memory' t next,
      (stcf.choose none crew).result = .ok (memory', t, next) ∧ crew.Conserves t next ∧
      (stcf ≠ .aging → ∀ pid,
        (t.process? pid).map Process.prio = (crew.process? pid).map Process.prio) :=
  ⟨checked_crew, stcf.choose_conserves none checked_crew⟩

end Discipline

end Uniprocessor
