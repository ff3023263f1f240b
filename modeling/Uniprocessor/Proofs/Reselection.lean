import Uniprocessor.Proofs.Advance
import Uniprocessor.Proofs.Answers
import Uniprocessor.Proofs.Checked

/-!
# Going on is going back and being selected anew

A discipline by priority has a short way to let the current process go on (`State.preferUrgent`): it
compares the contender with the foremost of the ready processes, and where the contender is not
outranked nobody is moved at all. The plain rule has no such way (`State.reselect`): the contender
always goes back to the head of the ready queue, and then the foremost of the queue is taken.

Both answer with the same process, the foremost of those who can execute with the contender before
the others. Where the short way is taken the states differ until the chosen process executes, since
the plain rule has made the contender ready in between; after that they are one state.
-/

namespace Uniprocessor

open Narrated

namespace State

/-! ## The plain rule -/

/-- The current process, if it can go on, goes to the head of the ready queue. -/
def yieldHead (s : State) : Except Fault State := do
  match ← s.contender with
  | none => return s
  | some pid => s.queueFirst pid

/-- The current process, if it can go on, goes to the head of the ready queue, and the first ready
process with the highest priority is taken. -/
def reselect (s : State) : Except Fault (State × Option Pid) := do
  let s ← s.yieldHead
  s.takeUrgent

variable {s t u : State} {next : Option Pid} {pid cur : Pid}

/-- The `foremost` is the same when the contender is already in the queue, at its head. -/
theorem foremost_headed (s : State) : s.headed.foremost s.headed.ready = s.foremost s.front := by
  rw [ready_headed]
  exact foremost_eq_firstMax fun q _ => prioOf_congr (congrFun (bid?_headed s) q)

theorem Settled.yieldHead_eq_ok (h : s.Settled) : s.yieldHead = .ok s.headed := by
  rw [yieldHead, h.contender_eq_ok, ok_bind]
  rcases hc : s.contender? with _ | c
  · rw [headed_of_none hc]
    rfl
  · have hrun := h.status?_contender hc
    obtain ⟨p, hp, -⟩ := process?_of_status? hrun
    rw [headed_of_some hc]
    exact queueFirst_eq_ok hp (h.not_mem_ready_of_running hrun)

/-- Everyone in the `front` is live, the contender and the ready processes. -/
theorem Settled.process?_of_mem_front (h : s.Settled) (hpid : pid ∈ s.front) :
    ∃ p, s.process? pid = some p := by
  rcases List.mem_append.1 hpid with hc | hm
  · exact exists_process?_of_status? (h.status?_contender (Option.mem_toList.1 hc))
  · exact h.process?_of_mem_ready hm

theorem Settled.process?_of_mem_headed (h : s.Settled) (hpid : pid ∈ s.headed.ready) :
    ∃ p, s.headed.process? pid = some p := by
  rw [ready_headed] at hpid
  obtain ⟨p, hp⟩ := h.process?_of_mem_front hpid
  have hbid := (congrFun (bid?_headed s) pid).trans (bid?_of_process? hp)
  exact (Option.map_eq_some_iff.1 hbid).imp fun _ => And.left

/-- The plain rule answers with the `foremost` of those who can execute, and takes it from the
queue. -/
theorem Settled.reselect_eq_ok (h : s.Settled) : ∃ u, s.reselect = .ok (u, s.foremost s.front) ∧
    s.headed.Took u (s.foremost s.front) := by
  obtain ⟨u, hu, htook⟩ := takeUrgent_eq_ok fun _ => h.process?_of_mem_headed
  rw [foremost_headed] at hu htook
  exact ⟨u, by rw [reselect, h.yieldHead_eq_ok, ok_bind, hu], htook⟩

/-- Whoever the plain rule selects is above all others who can execute, or level with them and
before them: the specification that the short way is compared with. -/
theorem Settled.best_of_reselect (h : s.Settled) (hok : s.reselect = .ok (u, some pid))
    {other : Pid} (hother : other ∈ s.front) (hne : other ≠ pid) :
    s.prioOf other < s.prioOf pid ∨
      s.prioOf other = s.prioOf pid ∧ [pid, other].Sublist s.front := by
  obtain ⟨u', hu', -⟩ := h.reselect_eq_ok
  have hbest : s.foremost s.front = some pid :=
    congrArg Prod.snd (Except.ok.inj (hu'.symm.trans hok))
  exact lt_or_behind_of_firstMax hbest hother hne

/-! ## Both ways, when the chosen process executes -/

/-- Of two statuses given one after the other the second one counts, so a detour by way of the ready
queue leaves no trace. -/
theorem adjust_status_adjust_status (s : State) (pid : Pid) (c c' : Status) :
    (s.adjust pid fun p => { p with status := c }).adjust pid (fun p => { p with status := c' }) =
      s.adjust pid fun p => { p with status := c' } := by
  simp only [adjust, List.map_map]
  congr 1
  refine List.map_congr_left fun p _ => ?_
  by_cases hp : p.pid = pid <;> simp [hp]

/-- Who is taken decides what is left: `Took` has one state after it. -/
theorem Took.unique (h : s.Took t next) (h' : s.Took u next) : t = u := by
  rcases h with ⟨rfl, -, rfl⟩ | ⟨pid, -, rfl, rfl⟩
  · rcases h' with ⟨-, -, rfl⟩ | ⟨q, -, hq, -⟩
    · rfl
    · cases hq
  · rcases h' with ⟨hnone, -, -⟩ | ⟨q, -, hq, rfl⟩
    · cases hnone
    · cases hq
      rfl

/-- If the contender goes back and is selected again, the queue is as before, and only its status
says `ready`. -/
theorem Took.eq_adjust_of_contender (hc : s.contender? = some cur)
    (htook : s.headed.Took u (some cur)) :
    u = s.adjust cur fun p => { p with status := .ready } := by
  rcases htook with ⟨hnone, -, -⟩ | ⟨pid, -, hpid, rfl⟩
  · cases hnone
  · cases hpid
    rw [headed_of_some hc]
    change { s.adjust cur _ with ready := (cur :: s.ready).erase cur } = _
    rw [List.erase_cons_head]
    rfl

/-- A contender that is made to execute executes already, and is fit for it, so `install` gives the
same state whether or not it went back. -/
theorem Settled.install_contender (h : s.Settled) (hc : s.contender? = some cur) (name : String) :
    Machine.install name s (some cur) = .ok (s.installed (some cur)) ∧
      Machine.install name (s.adjust cur fun p => { p with status := .ready }) (some cur) =
        .ok (s.installed (some cur)) := by
  obtain ⟨-, p, hp, hrun⟩ := contender?_eq_some.1 hc
  have hready : cur ∉ s.ready := h.not_mem_ready_of_running (h.status?_contender hc)
  refine ⟨Machine.install_of_fit hp hrun hready name, ?_⟩
  have hp' : (s.adjust cur fun p => { p with status := .ready }).process? cur =
      some { p with status := .ready } := by
    rw [process?_adjust_status, if_pos rfl, hp]
    rfl
  have hrun' : Process.isRunnable { p with status := .ready } = true := by
    simp only [Process.isRunnable, Process.isFinished, Bool.and_eq_true] at hrun ⊢
    exact ⟨rfl, hrun.2⟩
  rw [Machine.install_of_fit hp' hrun' hready, installed, installed, adjust_status_adjust_status]

/-- To **go on is to be selected anew**: in every state that is `Checked`, the short way
`preferUrgent` of the disciplines by priority and the plain rule `reselect` answer with the same
process, and when that process has been made to execute they have left the same state. -/
theorem preferUrgent_agrees_reselect (hs : s.Checked) :
    ∃ t u next, s.preferUrgent.result = .ok (t, next) ∧ s.reselect = .ok (u, next) ∧
      t.installed next = u.installed next ∧
      ∀ name, Machine.install name t next = Machine.install name u next := by
  have h := hs.settled
  obtain ⟨t, ht, hway⟩ := h.preferUrgent_eq_ok
  obtain ⟨u, hu, htook⟩ := h.reselect_eq_ok
  refine ⟨t, u, s.foremost s.front, ht, hu, ?_⟩
  rcases hway with ⟨rfl, cur, hc, hbest⟩ | htook'
  · rw [hbest] at htook ⊢
    obtain rfl := htook.eq_adjust_of_contender hc
    constructor
    · simp only [installed, adjust_status_adjust_status]
    · intro name
      obtain ⟨hkept, hback⟩ := h.install_contender hc name
      rw [hkept, hback]
  · obtain rfl := htook'.unique htook
    exact ⟨rfl, fun _ => rfl⟩

/-- Where somebody is above the process that executes, both ways take it. -/
theorem preferUrgent_agrees_reselect_crew :
    crew.Checked ∧ ∃ t u next, crew.preferUrgent.result = .ok (t, next) ∧
      crew.reselect = .ok (u, next) ∧ t.installed next = u.installed next ∧
      ∀ name, Machine.install name t next = Machine.install name u next :=
  ⟨checked_crew, preferUrgent_agrees_reselect checked_crew⟩

end State

end Uniprocessor
