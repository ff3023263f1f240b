import Uniprocessor.Discipline
import Uniprocessor.Proofs.Choice

/-!
# Choosing without a look at resources

Whom a discipline chooses depends on the processes and the ready queue. Who owns what and who waits
for what has no part in it: with another resource table every discipline makes the same choice and
changes the same, and the table stays as it is (`Discipline.choose_withResources`). So does carrying
the choice out (`State.switched_withResources`).
-/

namespace Uniprocessor

open Narrated

namespace State

/-- The state with another resource table. Everything below says that an operation commutes with
it. -/
def withResources (s : State) (xs : List Resource) : State := { s with resources := xs }

variable (s t : State) (xs : List Resource)

@[simp] theorem procs_withResources : (s.withResources xs).procs = s.procs := rfl

@[simp] theorem current_withResources : (s.withResources xs).current = s.current := rfl

@[simp] theorem ready_withResources : (s.withResources xs).ready = s.ready := rfl

@[simp] theorem resources_withResources : (s.withResources xs).resources = xs := rfl

@[simp] theorem tick_withResources : (s.withResources xs).tick = s.tick := rfl

@[simp] theorem process?_withResources (pid : Pid) :
    (s.withResources xs).process? pid = s.process? pid := rfl

@[simp] theorem process_withResources (pid : Pid) :
    (s.withResources xs).process pid = s.process pid := rfl

@[simp] theorem leaver?_withResources : (s.withResources xs).leaver? = s.leaver? := rfl

/-! ## Moving processes -/

theorem revise_withResources (pid : Pid) (f : Process → Process) :
    (s.withResources xs).revise pid f = (withResources · xs) <$> s.revise pid f := by
  rw [revise, revise, map_bind]
  rfl

theorem setStatus_withResources (pid : Pid) (status : Status) :
    (s.withResources xs).setStatus pid status = (withResources · xs) <$> s.setStatus pid status :=
  s.revise_withResources xs pid _

theorem setPrio_withResources (pid : Pid) (prio : Nat) :
    (s.withResources xs).setPrio pid prio = (withResources · xs) <$> s.setPrio pid prio :=
  s.revise_withResources xs pid _

theorem takeOut_withResources (pid : Pid) :
    (s.withResources xs).takeOut pid = (withResources · xs) <$> s.takeOut pid := by
  rw [takeOut, takeOut, map_bind]
  rfl

theorem queueLast_withResources (pid : Pid) :
    (s.withResources xs).queueLast pid = (withResources · xs) <$> s.queueLast pid := by
  simp only [queueLast, setStatus_withResources, bind_map_left, map_bind]
  rfl

theorem queueFirst_withResources (pid : Pid) :
    (s.withResources xs).queueFirst pid = (withResources · xs) <$> s.queueFirst pid := by
  simp only [queueFirst, setStatus_withResources, bind_map_left, map_bind]
  rfl

theorem yieldTail_withResources :
    (s.withResources xs).yieldTail = (withResources · xs) <$> s.yieldTail := by
  rw [yieldTail, yieldTail, map_bind]
  refine bind_congr fun choice => ?_
  cases choice with
  | none => rfl
  | some pid => exact s.queueLast_withResources xs pid

/-! ## Taking one from the ready queue -/

/-- The same choice, with another resource table in the state that is left. It is what a choice made
in `withResources` answers. -/
abbrev retable (xs : List Resource) : State × Option Pid → State × Option Pid :=
  Prod.map (withResources · xs) id

theorem takeChosen_withResources (choice : Option Pid) :
    (s.withResources xs).takeChosen choice = retable xs <$> s.takeChosen choice := by
  cases choice with
  | none => rfl
  | some pid =>
    simp only [takeChosen, takeOut_withResources, bind_map_left, map_bind]
    rfl

theorem takeMin_withResources (key : Process → Nat) :
    (s.withResources xs).takeMin key = retable xs <$> s.takeMin key := by
  rw [takeMin, takeMin, map_bind]
  exact bind_congr fun choice => s.takeChosen_withResources xs choice

theorem takeUrgent_withResources :
    (s.withResources xs).takeUrgent = retable xs <$> s.takeUrgent := by
  rw [takeUrgent, takeUrgent, map_bind]
  exact bind_congr fun choice => s.takeChosen_withResources xs choice

theorem findShorter_withResources (bound : Nat) (q : Queue) :
    (s.withResources xs).findShorter bound q = s.findShorter bound q := by
  induction q with
  | nil => rfl
  | cons pid rest ih =>
    rw [findShorter, findShorter, ih]
    rfl

/-! ## Choosing who executes -/

theorem keepOr_withResources (pick : State → Except Fault (State × Option Pid))
    (hpick : pick (s.withResources xs) = retable xs <$> pick s) :
    (s.withResources xs).keepOr pick = retable xs <$> s.keepOr pick := by
  rw [keepOr, keepOr, map_bind]
  refine bind_congr fun choice => ?_
  cases choice with
  | none => exact hpick
  | some pid => rfl

theorem preferShorter_withResources :
    (s.withResources xs).preferShorter.result = retable xs <$> s.preferShorter.result := by
  rw [preferShorter, preferShorter, result_bind, result_bind, map_bind]
  refine bind_congr fun choice => ?_
  cases choice with
  | none => exact s.takeMin_withResources xs _
  | some cur =>
    simp only [result_bind, result_lift, map_bind]
    refine bind_congr fun p => ?_
    rw [ready_withResources, findShorter_withResources]
    refine bind_congr fun shorter => ?_
    cases shorter with
    | none => rfl
    | some next =>
      simp only [result_bind, result_lift, map_bind, queueLast_withResources,
        takeOut_withResources, setStatus_withResources, bind_map_left]
      rfl

theorem preferUrgent_withResources :
    (s.withResources xs).preferUrgent.result = retable xs <$> s.preferUrgent.result := by
  rw [preferUrgent, preferUrgent, result_bind, result_bind, map_bind]
  refine bind_congr fun choice => ?_
  cases choice with
  | none => exact s.takeUrgent_withResources xs
  | some cur =>
    simp only [result_bind, result_lift, map_bind]
    refine bind_congr fun best => ?_
    cases best with
    | none => rfl
    | some best =>
      simp only [result_bind, result_lift, map_bind]
      refine bind_congr fun q => bind_congr fun p => ?_
      split
      · rfl
      · simp only [result_bind, result_lift, map_bind, takeOut_withResources,
          queueFirst_withResources, bind_map_left]
        rfl

theorem ageAll_withResources (q : Queue) :
    ((s.withResources xs).ageAll q).result = (withResources · xs) <$> (s.ageAll q).result := by
  induction q generalizing s with
  | nil => rfl
  | cons pid rest ih =>
    simp only [ageAll, result_bind, result_lift, map_bind, setPrio_withResources, bind_map_left, ih]
    rfl

theorem ageReady_withResources (memory : Memory) :
    (ageReady memory (s.withResources xs)).result =
      Prod.map id (withResources · xs) <$> (ageReady memory s).result := by
  rw [ageReady, ageReady]
  change (ite (memory = some s.tick) _ _ : Narrated _).result = _
  split
  · rfl
  · simp only [result_bind, map_bind, ready_withResources, ageAll_withResources, bind_map_left]
    rfl

theorem preferAged_withResources (memory : Memory) :
    (preferAged memory (s.withResources xs)).result =
      Prod.map id (retable xs) <$> (preferAged memory s).result := by
  simp only [preferAged, result_bind, result_lift, map_bind, ageReady_withResources,
    yieldTail_withResources, takeUrgent_withResources, bind_map_left, Prod.map]
  refine bind_congr fun aged => bind_congr fun t => bind_congr fun taken => ?_
  obtain ⟨t, choice⟩ := taken
  cases choice with
  | none => rfl
  | some pid =>
    simp only [retable, Prod.map_apply, id, result_bind, result_lift, map_bind,
      revise_withResources, bind_map_left]
    rfl

/-- Carrying the same choice out by `switched` leaves the same, but for the resource table. -/
theorem switched_withResources (next : Option Pid) :
    (s.withResources xs).switched (t.withResources xs) next =
      (s.switched t next).withResources xs := by
  rw [switched, switched, leaver?_withResources]
  cases s.leaver? <;> cases next <;> rfl

end State

open State

/-- With another resource table every discipline makes the same choice, and leaves the same state
but for the table. It is proved operation by operation, since each of them commutes with
`withResources`. -/
theorem Discipline.choose_withResources (d : Discipline) (memory : Memory) (s : State)
    (xs : List Resource) :
    (d.choose memory (s.withResources xs)).result =
      Prod.map id (retable xs) <$> (d.choose memory s).result := by
  cases d with
  | fcfs =>
    simp only [choose, result_bind, result_lift, map_bind,
      keepOr_withResources s xs (fun s => .ok s.takeHead) rfl, bind_map_left]
    rfl
  | sjf =>
    simp only [choose, result_bind, result_lift, map_bind,
      keepOr_withResources s xs (fun s => s.takeMin Process.lifespan)
        (s.takeMin_withResources xs _),
      bind_map_left]
    rfl
  | stcf =>
    simp only [choose, result_bind, map_bind, preferShorter_withResources, bind_map_left]
    rfl
  | roundRobin =>
    simp only [choose, result_bind, result_lift, map_bind, yieldTail_withResources, bind_map_left]
    rfl
  | aging => exact s.preferAged_withResources xs memory
  | ceiling =>
    simp only [choose, result_bind, result_lift, map_bind, yieldTail_withResources,
      takeUrgent_withResources, bind_map_left]
    rfl
  | priority | inheritance =>
    simp only [choose, result_bind, map_bind, preferUrgent_withResources, bind_map_left]
    rfl

end Uniprocessor
