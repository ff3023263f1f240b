import Uniprocessor.Discipline
import Uniprocessor.Proofs.Table

/-!
# Policies that keep to their part

Ages, lifespans, the clock and the set of live processes belong to the machine. A policy that leaves
them alone, whatever else it does and whatever it answers, is restrained (`Policy.Restrained`).
Nothing is asked of it besides: it may choose nobody, grant what somebody else holds, refuse without
blocking, or lose processes from its queues.

Statuses, priorities, queues, owners and the current process are all that the operations of the
eight disciplines change, so each discipline is restrained (`Discipline.restrained`).
-/

namespace Uniprocessor

open Narrated

/-- Every answer of the computation has the property; nothing is said if it faults. A restrained
policy is judged by the answers that it gives. -/
def Ensures {ε α : Type} (x : Except ε α) (Q : α → Prop) : Prop := ∀ a, x = .ok a → Q a

namespace Ensures

variable {ε α β : Type} {x : Except ε α} {f : α → Except ε β} {Q : α → Prop} {R : β → Prop}

theorem ok {a : α} (h : Q a) : Ensures (.ok a : Except ε α) Q := by
  rintro _ ⟨⟩
  exact h

/-- What an answer of the first part ensures is known in the second, as in a rule for sequences. -/
theorem bind (h : Ensures x Q) (hf : ∀ a, Q a → Ensures (f a) R) : Ensures (x >>= f) R := by
  intro b hb
  obtain ⟨a, ha, hb⟩ := bind_eq_ok.1 hb
  exact hf a (h a ha) b hb

/-- Nothing need be known of the answer of the first part if the second part ensures the property
after any answer. -/
theorem bind_any (hf : ∀ a, Ensures (f a) R) : Ensures (x >>= f) R :=
  bind (Q := fun _ => True) (fun _ _ => trivial) fun a _ => hf a

end Ensures

/-- What the machine alone changes of a process: how long it is to execute, and how long it has. -/
structure Vitals where
  /-- how many ticks it executes in all -/
  lifespan : Nat
  /-- how many ticks it has executed -/
  age : Nat

/-- The lifespan and the age of this process, which belong to the machine. -/
def Process.vitals (p : Process) : Vitals := ⟨p.lifespan, p.age⟩

namespace State

/-- The lifespan and the age of a live process, which belong to the machine. -/
def vitals? (s : State) (pid : Pid) : Option Vitals := (s.process? pid).map Process.vitals

variable {s t u : State} {pid : Pid} {p : Process}

theorem vitals?_of_process? (h : s.process? pid = some p) : s.vitals? pid = some p.vitals := by
  rw [vitals?, h]
  rfl

/-- The same processes are live, at the same ages and with the same lifespans, and the clock has not
moved. Everything else may differ. -/
structure Untouched (s t : State) : Prop where
  /-- the clock has not moved -/
  tick : t.tick = s.tick
  /-- nobody has come, gone or got older, and no lifespan is another one -/
  vitals : ∀ pid, t.vitals? pid = s.vitals? pid

namespace Untouched

theorem refl (s : State) : s.Untouched s := ⟨rfl, fun _ => rfl⟩

theorem trans (h : s.Untouched t) (h' : t.Untouched u) : s.Untouched u :=
  ⟨h'.tick.trans h.tick, fun pid => (h'.vitals pid).trans (h.vitals pid)⟩

/-- Only the clock and the process table matter to `Untouched`, so queues, owners and the current
process may be changed freely. -/
theorem of_procs_eq (htick : t.tick = s.tick) (hprocs : t.procs = s.procs) : s.Untouched t :=
  ⟨htick, fun pid => by rw [vitals?, vitals?, process?, process?, hprocs]⟩

/-- What comes after an untouched state is untouched since the state before it. With `bind` it takes
`Untouched` through a chain of operations. -/
theorem since {ε α : Type} {x : Except ε α} {f : α → State} (h : s.Untouched t)
    (hx : Ensures x fun a => t.Untouched (f a)) : Ensures x fun a => s.Untouched (f a) :=
  fun a ha => h.trans (hx a ha)

/-- A policy may `revise` a record in what is not vital, as statuses and priorities are. -/
theorem revise {f : Process → Process} (hpid : ∀ p, (f p).pid = p.pid)
    (hvitals : ∀ p, (f p).vitals = p.vitals) : Ensures (s.revise pid f) s.Untouched := by
  refine .bind_any fun p => .ok ⟨rfl, fun q => ?_⟩
  rw [vitals?, vitals?, process?_adjust hpid]
  by_cases hq : q = pid
  · rw [if_pos hq, Option.map_map]
    exact congrArg (Option.map · _) (funext hvitals)
  · rw [if_neg hq]

theorem setStatus (s : State) (pid : Pid) (status : Status) :
    Ensures (s.setStatus pid status) s.Untouched := revise (fun _ => rfl) fun _ => rfl

theorem setPrio (s : State) (pid : Pid) (prio : Nat) :
    Ensures (s.setPrio pid prio) s.Untouched := revise (fun _ => rfl) fun _ => rfl

theorem setResource (s : State) (r : ResourceId) (x : Resource) :
    s.Untouched (s.setResource r x) := of_procs_eq rfl rfl

/-! ## The ready queue -/

theorem takeHead (s : State) : s.Untouched s.takeHead.1 := of_procs_eq rfl rfl

theorem takeOut (s : State) (pid : Pid) : Ensures (s.takeOut pid) s.Untouched :=
  .bind_any fun _ => .ok (of_procs_eq rfl rfl)

theorem queueLast (s : State) (pid : Pid) : Ensures (s.queueLast pid) s.Untouched :=
  .bind (setStatus s pid .ready) fun _ ht => .bind_any fun _ => .ok (ht.trans (of_procs_eq rfl rfl))

theorem queueFirst (s : State) (pid : Pid) : Ensures (s.queueFirst pid) s.Untouched :=
  .bind (setStatus s pid .ready) fun _ ht => .bind_any fun _ => .ok (ht.trans (of_procs_eq rfl rfl))

theorem takeChosen (s : State) (choice : Option Pid) :
    Ensures (s.takeChosen choice) fun x => s.Untouched x.1 := by
  cases choice with
  | none => exact .ok (refl s)
  | some pid => exact .bind (takeOut s pid) fun _ ht => .ok ht

theorem takeMin (s : State) (key : Process → Nat) :
    Ensures (s.takeMin key) fun x => s.Untouched x.1 := .bind_any fun choice => takeChosen s choice

theorem takeUrgent (s : State) : Ensures s.takeUrgent fun x => s.Untouched x.1 :=
  .bind_any fun choice => takeChosen s choice

theorem yieldTail (s : State) : Ensures s.yieldTail s.Untouched := by
  refine .bind_any fun contender => ?_
  cases contender with
  | none => exact .ok (refl s)
  | some pid => exact queueLast s pid

/-! ## Choosing -/

theorem keepOr {pick : State → Except Fault (State × Option Pid)}
    (hpick : ∀ s, Ensures (pick s) fun x => s.Untouched x.1) (s : State) :
    Ensures (s.keepOr pick) fun x => s.Untouched x.1 := by
  refine .bind_any fun contender => ?_
  cases contender with
  | none => exact hpick s
  | some pid => exact .ok (refl s)

theorem preferShorter (s : State) :
    Ensures s.preferShorter.result fun x => s.Untouched x.1 := by
  rw [State.preferShorter, result_bind]
  refine .bind_any fun contender => ?_
  cases contender with
  | none => exact takeMin s _
  | some cur =>
    simp only [result_bind]
    refine .bind_any fun p => .bind_any fun shorter => ?_
    cases shorter with
    | none => exact .ok (refl s)
    | some next =>
      simp only [result_bind]
      refine .bind_any fun q => .bind_any fun _ => .bind (queueLast s cur) fun t ht => ?_
      refine .bind (ht.since (takeOut t next)) fun u hu => ?_
      exact .bind (hu.since (setStatus u next .running)) fun v hv => .ok hv

theorem preferUrgent (s : State) : Ensures s.preferUrgent.result fun x => s.Untouched x.1 := by
  rw [State.preferUrgent, result_bind]
  refine .bind_any fun contender => ?_
  cases contender with
  | none => exact takeUrgent s
  | some cur =>
    simp only [result_bind]
    refine .bind_any fun best => ?_
    cases best with
    | none => exact .ok (refl s)
    | some best =>
      simp only [result_bind]
      refine .bind_any fun q => .bind_any fun p => ?_
      split
      · exact .ok (refl s)
      · simp only [result_bind]
        refine .bind_any fun _ => .bind (takeOut s best) fun t ht => ?_
        exact .bind (ht.since (queueFirst t cur)) fun u hu => .ok hu

theorem ageAll (s : State) (q : Queue) : Ensures (s.ageAll q).result s.Untouched := by
  induction q generalizing s with
  | nil => exact .ok (refl s)
  | cons pid rest ih =>
    simp only [State.ageAll, result_bind]
    exact .bind_any fun p => .bind (setPrio s pid _) fun t ht => .bind_any fun _ => ht.since (ih t)

theorem ageReady (memory : Memory) (s : State) :
    Ensures (State.ageReady memory s).result fun x => s.Untouched x.2 := by
  rw [State.ageReady]
  split
  · exact .ok (refl s)
  · rw [result_bind]
    exact .bind (ageAll s s.ready) fun t ht => .ok ht

theorem preferAged (memory : Memory) (s : State) :
    Ensures (State.preferAged memory s).result fun x => s.Untouched x.2.1 := by
  simp only [State.preferAged, result_bind]
  refine .bind (ageReady memory s) fun ⟨memory, t⟩ ht => ?_
  refine .bind (ht.since (yieldTail t)) fun u hu => ?_
  refine .bind (hu.since (takeUrgent u)) fun ⟨v, choice⟩ hv => ?_
  cases choice with
  | none => exact .ok hv
  | some pid =>
    rw [result_bind]
    exact .bind (hv.since (revise (fun _ => rfl) fun _ => rfl)) fun w hw => .ok hw

/-! ## Holding resources -/

theorem ask (s : State) (r : ResourceId) : Ensures (s.ask r).result fun x => s.Untouched x.1 := by
  simp only [State.ask, result_bind]
  refine .bind_any fun pid => .bind_any fun x => ?_
  split
  · rw [result_bind]
    exact .bind_any fun _ => .ok (setResource ..)
  · simp only [result_bind]
    refine .bind_any fun waiters => ?_
    refine .bind ((setResource s r _).since (setStatus _ pid _)) fun t ht => ?_
    exact .bind_any fun _ => .ok ht

theorem surrender (s : State) (r : ResourceId) :
    Ensures (s.surrender r) fun x => s.Untouched x.1 :=
  .bind_any fun _ => .bind_any fun _ => .bind_any fun _ => .ok (setResource ..)

theorem wake (s : State) (r : ResourceId) (waiter : Pid) :
    Ensures (s.wake r waiter).result s.Untouched := by
  simp only [State.wake, result_bind]
  refine .bind_any fun p => .bind_any fun _ => .bind_any fun x => ?_
  refine .bind ((setResource s r _).since (queueLast _ waiter)) fun t ht => ?_
  exact .bind_any fun _ => .ok ht

theorem wakeChosen (s : State) (r : ResourceId) (choice : Option Pid) :
    Ensures (s.wakeChosen r choice).result s.Untouched := by
  cases choice with
  | none => exact .ok (refl s)
  | some waiter => exact wake s r waiter

theorem wakeFirst (s : State) (r : ResourceId) : Ensures (s.wakeFirst r).result s.Untouched := by
  rw [State.wakeFirst, result_bind]
  exact .bind_any fun x => wakeChosen s r _

theorem wakeUrgent (s : State) (r : ResourceId) :
    Ensures (s.wakeUrgent r).result s.Untouched := by
  simp only [State.wakeUrgent, result_bind]
  exact .bind_any fun x => .bind_any fun choice => wakeChosen s r choice

theorem passOn (bound : Nat) (s : State) (pid : Pid) :
    Ensures (State.passOn bound s pid).result s.Untouched := by
  induction bound generalizing s pid with
  | zero => exact .ok (refl s)
  | succ bound ih =>
    simp only [State.passOn, result_bind]
    refine .bind_any fun prio => .bind_any fun p => ?_
    split
    · exact .ok (refl s)
    · simp only [result_bind]
      refine .bind_any fun _ => .bind (setPrio s pid prio) fun t ht => ?_
      cases t.awaitedOwner pid with
      | none => exact .ok ht
      | some next => exact ht.since (ih t next)

end Untouched

end State

/-- A policy that never changes an age, a lifespan, the clock or the set of live processes, whatever
else it does and whatever it answers. This is all that `Scenario.metered` asks of a policy. -/
structure Policy.Restrained {σ : Type} (P : Policy σ) : Prop where
  /-- before the first tick -/
  setup : ∀ memory s, Ensures (P.setup memory s).result fun answer =>
    ∀ memory' t, answer = .ok (memory', t) → s.Untouched t
  /-- after the last tick -/
  finish : ∀ memory s, Ensures (P.finish memory s).result fun answer => s.Untouched answer.2
  /-- when it chooses -/
  choose : ∀ memory s, Ensures (P.choose memory s).result fun answer => s.Untouched answer.2.1
  /-- when a resource is asked for -/
  acquire : ∀ memory s r, Ensures (P.acquire memory s r).result fun answer =>
    s.Untouched answer.2.1
  /-- when a resource is given back -/
  release : ∀ memory s r, Ensures (P.release memory s r).result fun answer => s.Untouched answer.2
  /-- when a process has arrived -/
  arrived : ∀ memory s pid, Ensures (P.arrived memory s pid).result fun answer =>
    s.Untouched answer.2

namespace Discipline

open State

theorem untouched_setup (d : Discipline) (memory : Memory) (s : State) {memory' : Memory}
    {t : State} (h : d.setup memory s = .ok (memory', t)) : s.Untouched t := by
  cases d with
  | ceiling =>
    rw [setup] at h
    split at h <;> cases h
    exact .refl s
  | _ =>
    cases h
    exact .refl s

theorem untouched_choose (d : Discipline) (memory : Memory) (s : State) :
    Ensures (d.choose memory s).result fun answer => s.Untouched answer.2.1 := by
  cases d with
  | fcfs =>
    simp only [choose, result_bind, result_lift]
    exact .bind (Untouched.keepOr (fun t => .ok (Untouched.takeHead t)) s) fun _ ht => .ok ht
  | sjf =>
    simp only [choose, result_bind, result_lift]
    exact .bind (Untouched.keepOr (fun t => Untouched.takeMin t _) s) fun _ ht => .ok ht
  | stcf =>
    rw [choose, result_bind]
    exact .bind (Untouched.preferShorter s) fun _ ht => .ok ht
  | roundRobin =>
    rw [choose, result_bind]
    exact .bind (Untouched.yieldTail s) fun t ht => .ok (ht.trans (.takeHead t))
  | aging => exact Untouched.preferAged memory s
  | ceiling =>
    simp only [choose, result_bind]
    refine .bind (Untouched.yieldTail s) fun t ht => ?_
    exact .bind (ht.since (Untouched.takeUrgent t)) fun _ hu => .ok hu
  | priority | inheritance =>
    rw [choose, result_bind]
    exact .bind (Untouched.preferUrgent s) fun _ ht => .ok ht

theorem untouched_acquire (d : Discipline) (s : State) (r : ResourceId) :
    Ensures (d.acquire s r).result fun answer => s.Untouched answer.1 := by
  cases d with
  | ceiling =>
    rw [acquire, acquireCeiling, result_bind]
    refine .bind (Untouched.ask s r) fun ⟨t, granted⟩ ht => ?_
    cases granted with
    | none => exact .ok ht
    | some owner =>
      simp only [result_bind]
      refine .bind (ht.since (Untouched.setPrio t owner _)) fun u hu => ?_
      exact .bind_any fun _ => .ok hu
  | inheritance =>
    rw [acquire, acquireInheriting, result_bind]
    refine .bind (Untouched.ask s r) fun ⟨t, granted⟩ ht => ?_
    cases granted with
    | some owner =>
      rw [result_bind]
      exact .bind (ht.since (Untouched.passOn _ t owner)) fun _ hu => .ok hu
    | none =>
      rw [result_bind]
      refine .bind_any fun x => ?_
      cases x.owner with
      | none => exact .ok ht
      | some owner =>
        rw [result_bind]
        exact .bind (ht.since (Untouched.passOn _ t owner)) fun _ hu => .ok hu
  | _ =>
    change Ensures (s.acquirePlain r).result _
    rw [acquirePlain, result_bind]
    exact .bind (Untouched.ask s r) fun _ ht => .ok ht

theorem untouched_release (d : Discipline) (s : State) (r : ResourceId) :
    Ensures (d.release s r).result s.Untouched := by
  cases d with
  | ceiling =>
    simp only [release, releaseCeiling, result_bind]
    refine .bind (Untouched.surrender s r) fun ⟨t, owner⟩ ht => .bind_any fun p => ?_
    refine .bind (ht.since (Untouched.setPrio t owner _)) fun u hu => .bind_any fun _ => ?_
    exact hu.since (Untouched.wakeUrgent u r)
  | inheritance =>
    simp only [release, releaseInheriting, result_bind]
    refine .bind (Untouched.surrender s r) fun ⟨t, owner⟩ ht => ?_
    refine .bind (ht.since (Untouched.wakeUrgent t r)) fun u hu => ?_
    exact hu.since (Untouched.passOn _ u owner)
  | priority | aging =>
    rw [release, releaseUrgent, result_bind]
    exact .bind (Untouched.surrender s r) fun ⟨t, _⟩ ht => ht.since (Untouched.wakeUrgent t r)
  | fcfs | sjf | stcf | roundRobin =>
    rw [release, releaseFirst, result_bind]
    exact .bind (Untouched.surrender s r) fun ⟨t, _⟩ ht => ht.since (Untouched.wakeFirst t r)

/-- Each of the eight disciplines is `Restrained`, since each operation that it is made of leaves
the state `Untouched`. -/
theorem restrained (d : Discipline) : d.policy.Restrained where
  setup memory s := .ok fun _ _ h => d.untouched_setup memory s h
  finish _ s := .ok (.refl s)
  choose := d.untouched_choose
  acquire _ s r := by
    simp only [policy, result_bind]
    exact .bind (d.untouched_acquire s r) fun _ h => .ok h
  release _ s r := by
    simp only [policy, result_bind]
    exact .bind (d.untouched_release s r) fun _ h => .ok h
  arrived _ s _ := .ok (.refl s)

end Discipline

end Uniprocessor
