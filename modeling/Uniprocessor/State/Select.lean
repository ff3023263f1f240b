import Uniprocessor.State

/-!
# Choosing from a queue

Policies choose the earliest of the best: the first process of a queue with the smallest key, or
with the largest priority. Every process of the queue is looked up, so a queue that holds a process
which is not live is a fault even where another process would be chosen.
-/

namespace Uniprocessor

/-- The first entry that no other entry beats: how every discipline breaks ties. -/
def firstBest {α : Type} (beats : α → α → Bool) : List α → Option α
  | [] => none
  | x :: rest =>
    match firstBest beats rest with
    | none => some x
    | some y => if beats y x then some y else some x

/-- The first entry with the smallest key, by `firstBest`. -/
def firstMin {α : Type} (key : α → Nat) : List α → Option α :=
  firstBest fun x y => key x < key y

/-- The first entry with the largest key, by `firstBest`. -/
def firstMax {α : Type} (key : α → Nat) : List α → Option α :=
  firstBest fun x y => key y < key x

theorem mem_of_firstBest {α : Type} {beats : α → α → Bool} {l : List α} {a : α}
    (h : firstBest beats l = some a) : a ∈ l := by
  induction l generalizing a with
  | nil => simp [firstBest] at h
  | cons x rest ih =>
    simp only [firstBest] at h
    split at h
    · simp_all
    · next y hy =>
      have := ih hy
      split at h <;> simp_all

theorem firstBest_eq_none {α : Type} {beats : α → α → Bool} {l : List α} :
    firstBest beats l = none ↔ l = [] := by
  cases l with
  | nil => simp [firstBest]
  | cons x rest =>
    simp only [firstBest]
    split
    · simp
    · split <;> simp

/-- No key is above that of the first entry with the largest key. -/
theorem le_of_firstMax {α : Type} {key : α → Nat} {l : List α} {a : α}
    (h : firstMax key l = some a) : ∀ b ∈ l, key b ≤ key a := by
  induction l generalizing a with
  | nil => simp
  | cons x rest ih =>
    intro b hb
    simp only [firstMax, firstBest] at h
    split at h
    · next hnone =>
      rw [firstBest_eq_none.1 hnone, List.mem_singleton] at hb
      cases h
      exact Nat.le_of_eq (congrArg key hb)
    · next y hy =>
      have hle := ih hy
      split at h <;> cases h
      · next hbeats =>
        rcases List.mem_cons.1 hb with rfl | hb
        · exact Nat.le_of_lt (of_decide_eq_true hbeats)
        · exact hle b hb
      · next hbeats =>
        rcases List.mem_cons.1 hb with rfl | hb
        · exact Nat.le_refl _
        · exact Nat.le_trans (hle b hb) (by simpa using hbeats)

/-- Any other entry has a smaller key than the first entry with the largest key, or has the same key
and stands behind it. -/
theorem lt_or_behind_of_firstMax {α : Type} {key : α → Nat} {l : List α} {a : α}
    (h : firstMax key l = some a) {b : α} (hb : b ∈ l) (hne : b ≠ a) :
    key b < key a ∨ key b = key a ∧ [a, b].Sublist l := by
  induction l generalizing a with
  | nil => cases hb
  | cons x rest ih =>
    simp only [firstMax, firstBest] at h
    split at h
    · next hnone =>
      rw [firstBest_eq_none.1 hnone, List.mem_singleton] at hb
      cases h
      exact absurd hb hne
    · next y hy =>
      split at h <;> cases h
      · next hbeats =>
        rcases List.mem_cons.1 hb with rfl | hb
        · exact Or.inl (of_decide_eq_true hbeats)
        · exact (ih hy hb hne).imp_right fun he => ⟨he.1, he.2.cons x⟩
      · next hbeats =>
        have hb := (List.mem_cons.1 hb).resolve_left hne
        have hle : key b ≤ key x := Nat.le_trans (le_of_firstMax hy b hb) (by simpa using hbeats)
        refine (Nat.lt_or_eq_of_le hle).imp_right fun he => ⟨he, ?_⟩
        exact (List.singleton_sublist.2 hb).cons_cons x

/-- The choice of `firstBest` goes along with a map that keeps who beats whom. -/
theorem firstBest_map {α β : Type} {beats : α → α → Bool} {beats' : β → β → Bool} {f : α → β}
    {l : List α} (h : ∀ a ∈ l, ∀ b ∈ l, beats' (f a) (f b) = beats a b) :
    firstBest beats' (l.map f) = (firstBest beats l).map f := by
  induction l with
  | nil => rfl
  | cons x rest ih =>
    have hrest := ih fun a ha b hb =>
      h a (List.mem_cons_of_mem _ ha) b (List.mem_cons_of_mem _ hb)
    rw [List.map_cons, firstBest, firstBest, hrest]
    rcases hc : firstBest beats rest with _ | y
    · rfl
    · have hxy := h y (List.mem_cons_of_mem _ (mem_of_firstBest hc)) x (List.mem_cons_self ..)
      simp only [Option.map_some, hxy]
      cases beats y x <;> rfl

namespace State

/-- The records of the processes of a queue, in its order; it is a fault if one of them is not
live. -/
def records (s : State) (q : Queue) : Except Fault (List Process) := q.mapM s.process

/-- The first process of `q` with the smallest key, looked up in its record. -/
def findMin (s : State) (q : Queue) (key : Process → Nat) : Except Fault (Option Pid) := do
  let ps ← s.records q
  return (firstMin key ps).map Process.pid

/-- The first process of `q` with the highest priority, looked up in its record. -/
def findUrgent (s : State) (q : Queue) : Except Fault (Option Pid) := do
  let ps ← s.records q
  return (firstMax Process.prio ps).map Process.pid

/-- The first process of `q` with fewer than `bound` ticks left. Those behind it are not looked
up. -/
def findShorter (s : State) (bound : Nat) : Queue → Except Fault (Option Pid)
  | [] => .ok none
  | pid :: rest => do
    let p ← s.process pid
    if p.remaining < bound then return some pid else s.findShorter bound rest

/-- The current process, if it can go on executing: it is live, not blocked and not finished. -/
def contender (s : State) : Except Fault (Option Pid) := do
  match ← s.currentRecord with
  | none => return none
  | some p => return if p.isRunnable then some p.pid else none

/-- Takes a chosen process, if one was chosen, out of the ready queue. -/
def takeChosen (s : State) : Option Pid → Except Fault (State × Option Pid)
  | none => .ok (s, none)
  | some pid => do
    let s ← s.takeOut pid
    return (s, some pid)

/-- Takes the first ready process with the smallest key out of the ready queue, as `findMin` finds
it. -/
def takeMin (s : State) (key : Process → Nat) : Except Fault (State × Option Pid) := do
  let choice ← s.findMin s.ready key
  s.takeChosen choice

/-- Takes the first ready process with the highest priority out of the ready queue, as `findUrgent`
finds it. -/
def takeUrgent (s : State) : Except Fault (State × Option Pid) := do
  let choice ← s.findUrgent s.ready
  s.takeChosen choice

/-- The current process, if it can go on, goes to the tail of the ready queue. -/
def yieldTail (s : State) : Except Fault State := do
  match ← s.contender with
  | none => return s
  | some pid => s.queueLast pid

end State

end Uniprocessor
