import Uniprocessor.Log.Note

/-!
# Narrated computations

A narrated computation may fault, and takes notes while it goes on. The notes stay when it faults,
so a log shows what was done up to the fault. What a computation results in never depends on its
notes: the result of a chain is the chain of the results (`result_bind`), so reasoning about a run
can leave the notes aside.
-/

namespace Uniprocessor

/-- A computation that takes notes and may fault. -/
structure Narrated (α : Type) where
  /-- the notes taken, the first one first -/
  notes : List Note
  /-- what came of it -/
  result : Except Fault α

namespace Narrated

variable {α β : Type}

/-- No notes, no fault. -/
protected def pure (a : α) : Narrated α := ⟨[], .ok a⟩

/-- One computation after the other; a fault of the first is the end. -/
protected def bind (x : Narrated α) (f : α → Narrated β) : Narrated β :=
  match x.result with
  | .ok a =>
    let y := f a
    ⟨x.notes ++ y.notes, y.result⟩
  | .error e => ⟨x.notes, .error e⟩

instance : Monad Narrated where
  pure := Narrated.pure
  bind := Narrated.bind

/-- An operation that takes no notes. -/
def quietly (x : Except Fault α) : Narrated α := ⟨[], x⟩

instance : MonadLift (Except Fault) Narrated where
  monadLift := quietly

/-- Takes a note. -/
def note (n : Note) : Narrated Unit := ⟨[n], .ok ()⟩

@[simp] theorem result_pure (a : α) : (pure a : Narrated α).result = .ok a := rfl

@[simp] theorem result_bind (x : Narrated α) (f : α → Narrated β) :
    (x >>= f).result = x.result >>= fun a => (f a).result := by
  obtain ⟨notes, a | a⟩ := x <;> rfl

@[simp] theorem result_map (x : Narrated α) (f : α → β) :
    (f <$> x).result = f <$> x.result := by
  obtain ⟨notes, a | a⟩ := x <;> rfl

@[simp] theorem result_quietly (x : Except Fault α) : (quietly x).result = x := rfl

@[simp] theorem result_lift (x : Except Fault α) :
    (liftM x : Narrated α).result = x := rfl

@[simp] theorem result_monadLift (x : Except Fault α) :
    (MonadLift.monadLift x : Narrated α).result = x := rfl

@[simp] theorem result_note (n : Note) : (note n).result = .ok () := rfl

end Narrated

end Uniprocessor
