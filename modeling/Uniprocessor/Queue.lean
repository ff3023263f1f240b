import Uniprocessor.Fault

/-!
# Queues of processes

The ready queue and the wait queue of every resource are lists of process numbers, head first.
Position matters: several policies take the earliest of equals. A process stands in a queue at most
once, so joining a queue twice is a fault, and each of the two ways in keeps a queue without
repetition that way.
-/

namespace Uniprocessor

/-- Process numbers in queue order, head first. -/
abbrev Queue := List Pid

namespace Queue

/-- Joins at the tail; whoever is in the queue already is a fault. -/
def pushBack (q : Queue) (pid : Pid) : Except Fault Queue := do
  require (pid ∉ q) (.alreadyQueued pid)
  return q ++ [pid]

/-- Joins at the head; whoever is in the queue already is a fault. -/
def pushFront (q : Queue) (pid : Pid) : Except Fault Queue := do
  require (pid ∉ q) (.alreadyQueued pid)
  return pid :: q

/-- Takes the head off, if the queue has one. -/
def pop : Queue → Option Pid × Queue
  | [] => (none, [])
  | pid :: rest => (some pid, rest)

/-- Takes `pid` out, wherever it stands; nothing happens if it is not there. -/
def remove (q : Queue) (pid : Pid) : Queue := q.erase pid

/-- Joining at the tail succeeds for a newcomer only, and puts it behind all others. -/
theorem pushBack_eq_ok {q q' : Queue} {pid : Pid} :
    q.pushBack pid = .ok q' ↔ pid ∉ q ∧ q' = q ++ [pid] := by
  by_cases h : pid ∈ q <;> simp [pushBack, require, h, eq_comm]

/-- Joining at the head succeeds for a newcomer only, and puts it before all others. -/
theorem pushFront_eq_ok {q q' : Queue} {pid : Pid} :
    q.pushFront pid = .ok q' ↔ pid ∉ q ∧ q' = pid :: q := by
  by_cases h : pid ∈ q <;> simp [pushFront, require, h, eq_comm]

/-- A queue without repetition stays one when a process joins at the tail. -/
theorem nodup_of_pushBack {q q' : Queue} {pid : Pid} (hq : q.Nodup)
    (h : q.pushBack pid = .ok q') : q'.Nodup := by
  obtain ⟨hp, rfl⟩ := pushBack_eq_ok.1 h
  refine List.nodup_append.2 ⟨hq, by simp, fun a ha b hb => ?_⟩
  rintro rfl
  exact hp (by simpa [List.mem_singleton.1 hb] using ha)

/-- A queue without repetition stays one when a process joins at the head. -/
theorem nodup_of_pushFront {q q' : Queue} {pid : Pid} (hq : q.Nodup)
    (h : q.pushFront pid = .ok q') : q'.Nodup := by
  obtain ⟨hp, rfl⟩ := pushFront_eq_ok.1 h
  exact List.nodup_cons.2 ⟨hp, hq⟩

end Queue

end Uniprocessor
