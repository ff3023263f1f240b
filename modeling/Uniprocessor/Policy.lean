import Uniprocessor.Log.Narrated

/-!
# Policies

A policy is what the machine asks: once per tick, and again after every refused request, who is to
execute; and on every request and return of a resource, what becomes of it. A policy may keep a
memory of its own between the calls. What it can see and change of the rest is the scheduling state.

The machine holds a policy to this: a chosen process is live, can execute, and has left the ready
queue. Everything else is up to the policy. One that refuses a request without blocking anyone may
be asked for ever.
-/

namespace Uniprocessor

/-- Why there is no policy to run under: its `setup` has refused the state, or there is no policy of
that name. -/
inductive PolicyFailure where
  /-- the policy cannot work with this state -/
  | config (reason : String)
  /-- no policy goes by this name -/
  | unknown (name : String)
  deriving DecidableEq, Repr

/-- What a policy does when the machine calls it. `σ` is its memory. -/
structure Policy (σ : Type) where
  /-- its name, for people -/
  name : String
  /-- before the first tick -/
  setup : σ → State → Narrated (Except PolicyFailure (σ × State)) :=
    fun memory s => pure (.ok (memory, s))
  /-- after the last tick -/
  finish : σ → State → Narrated (σ × State) := fun memory s => pure (memory, s)
  /-- who executes now, if anyone -/
  choose : σ → State → Narrated (σ × State × Option Pid)
  /-- the current process asks for a resource; does it get it? -/
  acquire : σ → State → ResourceId → Narrated (σ × State × Bool)
  /-- the current process gives a resource back -/
  release : σ → State → ResourceId → Narrated (σ × State)
  /-- a process has joined the ready queue -/
  arrived : σ → State → Pid → Narrated (σ × State) := fun memory s _ => pure (memory, s)

end Uniprocessor
