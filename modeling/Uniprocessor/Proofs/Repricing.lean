import Uniprocessor.Proofs.Moves

/-!
# States up to priorities

Priorities decide whom a policy chooses or wakes, and nothing else depends on them. Two states that
differ in priorities alone are `Repriced`; they are settled together, and a record of one is a
record of the other with another priority.
-/

namespace Uniprocessor

namespace State

/-- Two tables that look the same through `g`, which keeps the numbers, answer every look-up by
`process?` the same through `g`. It is used with priorities, or more, set aside. -/
theorem map_process?_of_map_procs {s t : State} {g : Process → Process}
    (hg : ∀ p, (g p).pid = p.pid) (h : t.procs.map g = s.procs.map g) (pid : Pid) :
    (t.process? pid).map g = (s.process? pid).map g := by
  have key : ∀ l : List Process, (l.find? fun p => decide (p.pid = pid)).map g =
      (l.map g).find? fun p => decide (p.pid = pid) := by
    intro l
    rw [List.find?_map]
    simp only [Function.comp_def, hg]
  rw [process?, process?, key, key, h]

/-- The state with every priority set to zero. Two states are `Repriced` if they have the same
one. -/
def unpriced (s : State) : State :=
  { s with procs := s.procs.map fun p => { p with prio := 0 } }

/-- The two states differ in priorities alone. Whatever a policy does besides one of the moves
`give`, `park` and `vacate` is a repricing. -/
def Repriced (s t : State) : Prop := t.unpriced = s.unpriced

namespace Repriced

variable {s t u : State}

theorem refl (s : State) : s.Repriced s := rfl

theorem trans (h : s.Repriced t) (h' : t.Repriced u) : s.Repriced u := Eq.trans h' h

/-- Whatever a function reads off a state without looking at priorities, it reads off both of two
`Repriced` states. The readings below are cases of this. -/
theorem keeps {α : Type} (h : s.Repriced t) (f : State → α) (hf : ∀ s, f s.unpriced = f s) :
    f t = f s := by
  rw [← hf t, ← hf s]
  exact congrArg f h

theorem current (h : s.Repriced t) : t.current = s.current := h.keeps _ fun _ => rfl

theorem ready (h : s.Repriced t) : t.ready = s.ready := h.keeps _ fun _ => rfl

theorem resources (h : s.Repriced t) : t.resources = s.resources := h.keeps _ fun _ => rfl

theorem tick (h : s.Repriced t) : t.tick = s.tick := h.keeps _ fun _ => rfl

theorem ceiling (h : s.Repriced t) : t.ceiling = s.ceiling := h.keeps _ fun _ => rfl

theorem procs (h : s.Repriced t) :
    t.procs.map (fun p => { p with prio := 0 }) = s.procs.map fun p => { p with prio := 0 } :=
  congrArg State.procs h

theorem map_pid (h : s.Repriced t) : t.procs.map Process.pid = s.procs.map Process.pid :=
  h.keeps (fun s => s.procs.map Process.pid) fun s => by simp [unpriced, Function.comp_def]

theorem places (h : s.Repriced t) : t.places = s.places :=
  h.keeps State.places fun s => by simp [unpriced, State.places, Function.comp_def]

theorem status? (h : s.Repriced t) (pid : Pid) : t.status? pid = s.status? pid :=
  status?_of_places h.places pid

/-- A record of one of two `Repriced` states is found in the other too, with some priority and
otherwise unchanged. -/
theorem process? (h : s.Repriced t) {pid : Pid} {p : Process} (hp : s.process? pid = some p) :
    ∃ n, t.process? pid = some { p with prio := n } := by
  have key := map_process?_of_map_procs (g := fun p => { p with prio := 0 }) (fun _ => rfl)
    h.procs pid
  rw [hp] at key
  obtain ⟨q, hq, hqp⟩ := Option.map_eq_some_iff.1 key
  refine ⟨q.prio, ?_⟩
  cases p
  cases q
  simp only [Process.mk.injEq] at hqp
  rw [hq]
  simp [hqp]

theorem symm (h : s.Repriced t) : t.Repriced s := Eq.symm h

theorem process?_eq_none (h : s.Repriced t) {pid : Pid} :
    t.process? pid = none ↔ s.process? pid = none := by
  rw [State.process?_eq_none, State.process?_eq_none, h.map_pid]

theorem settled (h : s.Repriced t) (hs : s.Settled) : t.Settled :=
  hs.congr h.places h.ready h.resources h.current

theorem owns (h : s.Repriced t) {pid : Pid} {r : ResourceId} : t.Owns pid r ↔ s.Owns pid r :=
  owns_congr h.resources

theorem waits (h : s.Repriced t) {pid : Pid} {r : ResourceId} : t.Waits pid r ↔ s.Waits pid r :=
  waits_congr h.resources

end Repriced

/-- A change by `adjust` that touches nothing but the priority of a record is a repricing. -/
theorem repriced_adjust {s : State} {pid : Pid} {f : Process → Process}
    (hf : ∀ p, { f p with prio := 0 } = { p with prio := 0 }) : s.Repriced (s.adjust pid f) := by
  rw [Repriced, unpriced, unpriced, adjust, List.map_map]
  congr 1
  refine List.map_congr_left fun p _ => ?_
  by_cases h : p.pid = pid <;> simp [h, hf]

/-- The state in which one process has another priority. This is `setPrio` where that succeeds
(`setPrio_eq_ok`). -/
def reprice (s : State) (pid : Pid) (n : Nat) : State :=
  s.adjust pid fun p => { p with prio := n }

/-- A live process takes any priority: `setPrio` succeeds for it and comes down to `reprice`. -/
theorem setPrio_eq_ok {s : State} {pid : Pid} {p : Process} (h : s.process? pid = some p)
    (n : Nat) : s.setPrio pid n = .ok (s.reprice pid n) :=
  revise_eq_ok h _

theorem repriced_reprice (s : State) (pid : Pid) (n : Nat) : s.Repriced (s.reprice pid n) :=
  repriced_adjust fun _ => rfl

/-- The base priority and the priority of a process, if it is live. Every fact about who is how
urgent is a fact about this reading. -/
def bid? (s : State) (pid : Pid) : Option (Nat × Nat) :=
  (s.process? pid).map fun p => (p.base, p.prio)

theorem bid?_of_process? {s : State} {pid : Pid} {p : Process} (h : s.process? pid = some p) :
    s.bid? pid = some (p.base, p.prio) := by
  rw [bid?, h]
  rfl

theorem bid?_eq_some {s : State} {pid : Pid} {b n : Nat} :
    s.bid? pid = some (b, n) ↔ ∃ p, s.process? pid = some p ∧ p.base = b ∧ p.prio = n := by
  simp [bid?]

theorem bid?_adjust_status {s : State} {pid : Pid} {c : Status} :
    (s.adjust pid fun p => { p with status := c }).bid? = s.bid? := by
  funext q
  rw [bid?, bid?, process?_adjust_status]
  by_cases hq : q = pid
  · rw [if_pos hq, Option.map_map]
    rfl
  · rw [if_neg hq]

theorem bid?_adjust_age {s : State} {pid : Pid} {n : Nat} :
    (s.adjust pid fun p => { p with age := n }).bid? = s.bid? := by
  funext q
  rw [bid?, bid?, process?_adjust_age]
  by_cases hq : q = pid
  · rw [if_pos hq, Option.map_map]
    rfl
  · rw [if_neg hq]

theorem bid?_joined {s : State} {p : Process} (hp : s.process? p.pid = none) (q : Pid) :
    (s.joined p).bid? q = if q = p.pid then some (p.base, p.prio) else s.bid? q := by
  rw [bid?, process?_joined hp]
  by_cases hq : q = p.pid
  · rw [if_pos hq, if_pos hq]
    rfl
  · rw [if_neg hq, if_neg hq]
    rfl

theorem bid?_park (s : State) (r : ResourceId) (x : Resource) (pid : Pid) :
    (s.park r x pid).bid? = s.bid? := bid?_adjust_status (s := s.setResource r _)

theorem bid?_vacate (s : State) (r : ResourceId) (x : Resource) (woken : Option Pid) :
    (s.vacate r x woken).bid? = s.bid? := by
  cases woken with
  | none => rfl
  | some w => exact bid?_adjust_status (s := s.setResource r _)

/-- The repriced process has its new priority, its base priority stays, and nobody else's `bid?`
changes. -/
theorem bid?_reprice (s : State) (pid : Pid) (n : Nat) (q : Pid) :
    (s.reprice pid n).bid? q =
      if q = pid then (s.bid? q).map fun bid => (bid.1, n) else s.bid? q := by
  rw [bid?, bid?, reprice, process?_adjust (f := fun p => { p with prio := n }) fun _ => rfl]
  by_cases hq : q = pid
  · rw [if_pos hq, if_pos hq, Option.map_map, Option.map_map]
    rfl
  · rw [if_neg hq, if_neg hq]

/-- The base priority of a process, if it is live. It is fixed when the process is made, so no
operation of a policy changes it. -/
def base? (s : State) (pid : Pid) : Option Nat := (s.bid? pid).map Prod.fst

theorem base?_congr {s t : State} (h : t.bid? = s.bid?) : t.base? = s.base? := by
  funext pid
  rw [base?, base?, h]

/-- Two `Repriced` states agree on all base priorities. -/
theorem Repriced.base? {s t : State} (h : s.Repriced t) : t.base? = s.base? := by
  funext pid
  have key := congrArg (Option.map Process.base)
    (map_process?_of_map_procs (g := fun p => { p with prio := 0 }) (fun _ => rfl) h.procs pid)
  simpa [State.base?, bid?, Function.comp_def] using key

/-- The priority of a process; zero if it is not live. Policies compare processes by it, so a number
without a record never comes first. -/
def prioOf (s : State) (pid : Pid) : Nat := ((s.bid? pid).map Prod.snd).getD 0

theorem prioOf_congr {s t : State} {pid : Pid} (h : t.bid? pid = s.bid? pid) :
    t.prioOf pid = s.prioOf pid := by
  rw [prioOf, prioOf, h]

theorem prioOf_of_bid? {s : State} {pid : Pid} {b n : Nat} (h : s.bid? pid = some (b, n)) :
    s.prioOf pid = n := by
  rw [prioOf, h]
  rfl

theorem prioOf_of_process? {s : State} {pid : Pid} {p : Process} (h : s.process? pid = some p) :
    s.prioOf pid = p.prio := prioOf_of_bid? (bid?_of_process? h)

end State

end Uniprocessor
