import Uniprocessor.Proofs.Locking
import Uniprocessor.Proofs.Renaming

/-!
# Policies that do not look at names

A policy is blind to names if it answers alike in states that differ in names only: it chooses the
same process, grants and refuses the same requests, wakes the same process, and changes the same
statuses, priorities, queues and owners (`Policy.NameBlind`).

Each of the disciplines is (`Discipline.nameBlind`). Whom they choose or wake depends on the order
of a queue and on keys that are not names. Inheritance goes through the resource table in order of
position, twice. What it computes does not depend on that order: the largest of the priorities of
all who wait for something that a process owns is the same in any order, and a process in a settled
state waits for one resource at most, so the first one found is the only one.
-/

namespace Uniprocessor

open Narrated

theorem Relates.ensuring {ε α β : Type} {x : Except ε α} {y : Except ε β} {R : α → β → Prop}
    {Q : α → Prop} {Q' : β → Prop} (h : Relates x y R) (hx : Ensures x Q) (hy : Ensures y Q') :
    Relates x y fun a b => R a b ∧ Q a ∧ Q' b :=
  fun a b ha hb => ⟨h a b ha hb, hx a ha, hy b hb⟩

namespace State

/-- The states are `Renamed`, and so are the processes that were chosen, or nobody was chosen in
either. -/
def RenamedChoice (ρ : Renaming) (a b : State × Option Pid) : Prop :=
  a.1.Renamed ρ b.1 ∧ b.2 = a.2.map ρ.pid

namespace Renamed

variable {ρ : Renaming} {s t : State}

/-! ## Choosing from a queue -/

theorem records (hρ : ρ.Total) (h : s.Renamed ρ t) (q : Queue) :
    Relates (s.records q) (t.records (q.map ρ.pid)) fun ps qs => qs = ps.map ρ.process := by
  induction q with
  | nil => exact .ok rfl
  | cons pid rest ih =>
    rw [State.records, State.records, List.map_cons, List.mapM_cons, List.mapM_cons]
    exact .bind_map (h.process hρ pid) fun p => .bind_map ih fun ps => .ok rfl

/-- A key that does not look at names is smallest for the same process: `firstMin` takes the first
of the smallest, and the order of the queue is kept. -/
theorem firstMin_map {key : Process → Nat} (hkey : ∀ p, key (ρ.process p) = key p)
    (ps : List Process) : firstMin key (ps.map ρ.process) = (firstMin key ps).map ρ.process :=
  firstBest_map fun _ _ _ _ => by simp [hkey]

/-- The same process has the highest priority by `firstMax`, the first of them if there are
several. -/
theorem firstMax_map (ps : List Process) :
    firstMax Process.prio (ps.map ρ.process) = (firstMax Process.prio ps).map ρ.process :=
  firstBest_map fun _ _ _ _ => rfl

theorem findMin (hρ : ρ.Total) (h : s.Renamed ρ t) (q : Queue) {key : Process → Nat}
    (hkey : ∀ p, key (ρ.process p) = key p) :
    Relates (s.findMin q key) (t.findMin (q.map ρ.pid) key) fun a b => b = a.map ρ.pid := by
  refine .bind_map (h.records hρ q) fun ps => .ok ?_
  rw [firstMin_map hkey, Option.map_map, Option.map_map]
  rfl

theorem findUrgent (hρ : ρ.Total) (h : s.Renamed ρ t) (q : Queue) :
    Relates (s.findUrgent q) (t.findUrgent (q.map ρ.pid)) fun a b => b = a.map ρ.pid := by
  refine .bind_map (h.records hρ q) fun ps => .ok ?_
  rw [firstMax_map, Option.map_map, Option.map_map]
  rfl

theorem findShorter (hρ : ρ.Total) (h : s.Renamed ρ t) (bound : Nat) (q : Queue) :
    Relates (s.findShorter bound q) (t.findShorter bound (q.map ρ.pid)) fun a b =>
      b = a.map ρ.pid := by
  induction q with
  | nil => exact .ok rfl
  | cons pid rest ih =>
    refine .bind_map (h.process hρ pid) fun p => ?_
    rw [Renaming.process_remaining]
    split
    · exact .ok rfl
    · exact ih

theorem contender (hρ : ρ.Total) (h : s.Renamed ρ t) :
    Relates s.contender t.contender fun a b => b = a.map ρ.pid := by
  refine .bind_map (h.currentRecord hρ) fun p => ?_
  cases p with
  | none => exact .ok rfl
  | some p => cases hp : p.isRunnable <;> exact .ok (by simp [hp])

theorem takeHead (h : s.Renamed ρ t) : RenamedChoice ρ s.takeHead t.takeHead := by
  rw [State.takeHead, State.takeHead, h.ready]
  cases s.ready with
  | nil => exact ⟨h.withReady [], rfl⟩
  | cons pid rest => exact ⟨h.withReady rest, rfl⟩

theorem takeChosen (hρ : ρ.Total) (h : s.Renamed ρ t) (choice : Option Pid) :
    Relates (s.takeChosen choice) (t.takeChosen (choice.map ρ.pid)) (RenamedChoice ρ) := by
  cases choice with
  | none => exact .ok ⟨h, rfl⟩
  | some pid => exact .bind (h.takeOut hρ pid) fun s t h => .ok ⟨h, rfl⟩

theorem takeMin (hρ : ρ.Total) (h : s.Renamed ρ t) {key : Process → Nat}
    (hkey : ∀ p, key (ρ.process p) = key p) :
    Relates (s.takeMin key) (t.takeMin key) (RenamedChoice ρ) := by
  rw [State.takeMin, State.takeMin, h.ready]
  exact .bind_map (h.findMin hρ s.ready hkey) fun choice => h.takeChosen hρ choice

theorem takeUrgent (hρ : ρ.Total) (h : s.Renamed ρ t) :
    Relates s.takeUrgent t.takeUrgent (RenamedChoice ρ) := by
  rw [State.takeUrgent, State.takeUrgent, h.ready]
  exact .bind_map (h.findUrgent hρ s.ready) fun choice => h.takeChosen hρ choice

theorem yieldTail (hρ : ρ.Total) (h : s.Renamed ρ t) :
    Relates s.yieldTail t.yieldTail (Renamed ρ) := by
  refine .bind_map (h.contender hρ) fun choice => ?_
  cases choice with
  | none => exact .ok h
  | some pid => exact h.queueLast hρ pid

/-! ## Choosing who executes -/

theorem keepOr (hρ : ρ.Total) (h : s.Renamed ρ t)
    {pick : State → Except Fault (State × Option Pid)}
    (hpick : ∀ {s t : State}, s.Renamed ρ t → Relates (pick s) (pick t) (RenamedChoice ρ)) :
    Relates (s.keepOr pick) (t.keepOr pick) (RenamedChoice ρ) := by
  refine .bind_map (h.contender hρ) fun choice => ?_
  cases choice with
  | none => exact hpick h
  | some pid => exact .ok ⟨h, rfl⟩

theorem preferShorter (hρ : ρ.Total) (h : s.Renamed ρ t) :
    Relates s.preferShorter.result t.preferShorter.result (RenamedChoice ρ) := by
  rw [State.preferShorter, State.preferShorter, result_bind, result_bind]
  refine .bind_map (h.contender hρ) fun choice => ?_
  cases choice with
  | none => exact h.takeMin hρ fun _ => rfl
  | some cur =>
    simp only [Option.map_some, result_bind, result_lift, h.ready]
    refine .bind_map (h.process hρ cur) fun p => ?_
    refine .bind_map (h.findShorter hρ p.remaining s.ready) fun shorter => ?_
    cases shorter with
    | none => exact .ok ⟨h, rfl⟩
    | some next =>
      simp only [Option.map_some, result_bind, result_lift, result_note, ok_bind]
      refine .bind_any fun _ _ => .bind (h.queueLast hρ cur) fun s t h => ?_
      refine .bind (h.takeOut hρ next) fun s t h => ?_
      exact .bind (h.setStatus hρ next .running) fun s t h => .ok ⟨h, rfl⟩

theorem preferUrgent (hρ : ρ.Total) (h : s.Renamed ρ t) :
    Relates s.preferUrgent.result t.preferUrgent.result (RenamedChoice ρ) := by
  rw [State.preferUrgent, State.preferUrgent, result_bind, result_bind]
  refine .bind_map (h.contender hρ) fun choice => ?_
  cases choice with
  | none => exact h.takeUrgent hρ
  | some cur =>
    simp only [Option.map_some, result_bind, result_lift, h.ready]
    refine .bind_map (h.findUrgent hρ s.ready) fun best => ?_
    cases best with
    | none => exact .ok ⟨h, rfl⟩
    | some best =>
      simp only [Option.map_some, result_bind, result_lift]
      refine .bind_map (h.process hρ best) fun q => .bind_map (h.process hρ cur) fun p => ?_
      rw [Renaming.process_prio, Renaming.process_prio]
      split
      · exact .ok ⟨h, rfl⟩
      · simp only [result_bind, result_lift, result_note, ok_bind]
        refine .bind (h.takeOut hρ best) fun s t h => ?_
        exact .bind (h.queueFirst hρ cur) fun s t h => .ok ⟨h, rfl⟩

theorem ageAll (hρ : ρ.Total) (h : s.Renamed ρ t) (q : Queue) :
    Relates (s.ageAll q).result (t.ageAll (q.map ρ.pid)).result (Renamed ρ) := by
  induction q generalizing s t with
  | nil => exact .ok h
  | cons pid rest ih =>
    simp only [State.ageAll, List.map_cons, result_bind, result_lift, result_note, ok_bind]
    refine .bind_map (h.process hρ pid) fun p => ?_
    rw [Renaming.process_prio]
    exact .bind (h.setPrio hρ pid _) fun s t h => ih h

theorem ageReady (hρ : ρ.Total) (h : s.Renamed ρ t) (memory : Memory) :
    Relates (State.ageReady memory s).result (State.ageReady memory t).result fun a b =>
      b.1 = a.1 ∧ a.2.Renamed ρ b.2 := by
  rw [State.ageReady, State.ageReady, h.tick, h.ready]
  split
  · exact .ok ⟨rfl, h⟩
  · simp only [result_bind]
    exact .bind (h.ageAll hρ s.ready) fun s t h => .ok ⟨rfl, h⟩

theorem preferAged (hρ : ρ.Total) (h : s.Renamed ρ t) (memory : Memory) :
    Relates (State.preferAged memory s).result (State.preferAged memory t).result fun a b =>
      b.1 = a.1 ∧ RenamedChoice ρ a.2 b.2 := by
  simp only [State.preferAged, result_bind, result_lift]
  refine .bind (h.ageReady hρ memory) ?_
  rintro ⟨memory, s⟩ ⟨_, t⟩ ⟨rfl, h⟩
  refine .bind (h.yieldTail hρ) fun s t h => .bind (h.takeUrgent hρ) ?_
  rintro ⟨s, choice⟩ ⟨t, _⟩ ⟨h, rfl⟩
  cases choice with
  | none => exact .ok ⟨rfl, h, rfl⟩
  | some pid =>
    simp only [Option.map_some, result_bind, result_lift]
    refine .bind (h.revise hρ pid (fun _ => rfl) fun _ => rfl) fun s t h => ?_
    exact .ok ⟨rfl, h, rfl⟩

/-! ## Holding resources -/

theorem caller (h : s.Renamed ρ t) : Relates s.caller t.caller fun a b => b = ρ.pid a := by
  rw [State.caller, State.caller, h.current]
  cases s.current with
  | none =>
    intro _ _ hfault
    cases hfault
  | some pid => exact .ok rfl

theorem ask (hρ : ρ.Total) (h : s.Renamed ρ t) (r : ResourceId) :
    Relates (s.ask r).result (t.ask (ρ.resource r)).result (RenamedChoice ρ) := by
  simp only [State.ask, result_bind, result_lift]
  refine .bind_map h.caller fun pid => .bind_map (h.resource r) fun x => ?_
  rw [Renaming.entry_isFree]
  split
  · simp only [result_bind, result_note, ok_bind]
    exact .ok ⟨h.setResource hρ r { x with owner := some pid }, rfl⟩
  · simp only [result_bind, result_lift, result_note, ok_bind]
    refine .bind_map (Queue.pushBack_renamed x.waiters pid) fun waiters => ?_
    refine .bind ((h.setResource hρ r { x with waiters := waiters }).setStatus hρ pid .blocked) ?_
    exact fun s t h => .ok ⟨h, rfl⟩

theorem surrender (hρ : ρ.Total) (h : s.Renamed ρ t) (r : ResourceId) :
    Relates (s.surrender r) (t.surrender (ρ.resource r)) fun a b =>
      a.1.Renamed ρ b.1 ∧ b.2 = ρ.pid a.2 := by
  refine .bind_map h.caller fun pid => .bind_map (h.resource r) fun x => ?_
  exact .bind_any fun _ _ => .ok ⟨h.setResource hρ r { x with owner := none }, rfl⟩

theorem wake (hρ : ρ.Total) (h : s.Renamed ρ t) (r : ResourceId) (waiter : Pid) :
    Relates (s.wake r waiter).result (t.wake (ρ.resource r) (ρ.pid waiter)).result
      (Renamed ρ) := by
  simp only [State.wake, result_bind, result_lift, result_note, ok_bind]
  refine .bind_any fun _ _ => .bind_any fun _ _ => .bind_map (h.resource r) fun x => ?_
  rw [Renaming.entry_waiters, ← hρ.map_remove]
  refine .bind ((h.setResource hρ r { x with waiters := x.waiters.remove waiter }).queueLast hρ
    waiter) fun s t h => .ok h

theorem wakeChosen (hρ : ρ.Total) (h : s.Renamed ρ t) (r : ResourceId) (choice : Option Pid) :
    Relates (s.wakeChosen r choice).result
      (t.wakeChosen (ρ.resource r) (choice.map ρ.pid)).result (Renamed ρ) := by
  cases choice with
  | none => exact .ok h
  | some waiter => exact h.wake hρ r waiter

theorem wakeFirst (hρ : ρ.Total) (h : s.Renamed ρ t) (r : ResourceId) :
    Relates (s.wakeFirst r).result (t.wakeFirst (ρ.resource r)).result (Renamed ρ) := by
  rw [State.wakeFirst, State.wakeFirst, result_bind, result_bind]
  refine .bind_map (h.resource r) fun x => ?_
  rw [Renaming.entry_waiters, List.head?_map]
  exact h.wakeChosen hρ r x.waiters.head?

theorem wakeUrgent (hρ : ρ.Total) (h : s.Renamed ρ t) (r : ResourceId) :
    Relates (s.wakeUrgent r).result (t.wakeUrgent (ρ.resource r)).result (Renamed ρ) := by
  simp only [State.wakeUrgent, result_bind, result_lift]
  refine .bind_map (h.resource r) fun x => ?_
  exact .bind_map (h.findUrgent hρ x.waiters) fun choice => h.wakeChosen hρ r choice

/-! ## Inheriting -/

/-- Every resource of the second state is one of the first under its new name, since
`Renaming.Total` reaches every number. -/
theorem exists_resource (hρ : ρ.Total) (h : s.Renamed ρ t) {r : ResourceId} {y : Resource}
    (hy : t.resources[r]? = some y) :
    ∃ q x, r = ρ.resource q ∧ s.resources[q]? = some x ∧ y = ρ.entry x := by
  obtain ⟨q, rfl⟩ := hρ.resource_bijective.2 r
  rw [h.resources, Option.map_eq_some_iff] at hy
  obtain ⟨x, hx, rfl⟩ := hy
  exact ⟨q, x, rfl, hx, rfl⟩

/-- The same processes wait for each other: the relation that inheritance goes by does not look at
names. -/
theorem waitsFor_iff (hρ : ρ.Total) (h : s.Renamed ρ t) {x z : Pid} :
    t.WaitsFor (ρ.pid x) (ρ.pid z) ↔ s.WaitsFor x z := by
  constructor
  · rintro ⟨r, hw, ho⟩
    obtain ⟨q, rfl⟩ := hρ.resource_bijective.2 r
    exact ⟨q, (h.same_waits hρ).1 hw, (h.same_owns hρ).1 ho⟩
  · rintro ⟨r, hw, ho⟩
    exact ⟨ρ.resource r, (h.same_waits hρ).2 hw, (h.same_owns hρ).2 ho⟩

/-- Whoever waits or is waited for in the second state has its name from the renaming, so a chain of
waiting can be taken back. -/
theorem exists_of_waitsFor (hρ : ρ.Total) (h : s.Renamed ρ t) {x' z' : Pid}
    (hw : t.WaitsFor x' z') : ∃ x z, x' = ρ.pid x ∧ z' = ρ.pid z := by
  obtain ⟨r, ⟨y, hy, hx⟩, ho⟩ := hw
  obtain ⟨q, y, rfl, -, rfl⟩ := h.exists_resource hρ hy
  obtain ⟨x, -, rfl⟩ := List.mem_map.1 hx
  have hz := (State.owns_iff hy).1 ho
  obtain ⟨z, -, rfl⟩ := Option.map_eq_some_iff.1 hz
  exact ⟨x, z, rfl, rfl⟩

/-- A process is offered the same priorities by `offers`, so what it inherits is the same under both
names. -/
theorem offers_eq (hρ : ρ.Total) (h : s.Renamed ρ t) (pid : Pid) (b : Nat) :
    t.offers (ρ.pid pid) b = s.offers pid b := by
  have hbid : ∀ w, t.bid? (ρ.pid w) = s.bid? w := by
    intro w
    rw [bid?, bid?, h.process? hρ, Option.map_map]
    rfl
  ext n
  refine or_congr_right ⟨?_, ?_⟩
  · rintro ⟨w, b', hw, hb⟩
    obtain ⟨w, -, rfl, -⟩ := h.exists_of_waitsFor hρ hw
    exact ⟨w, b', (h.waitsFor_iff hρ).1 hw, hbid w ▸ hb⟩
  · rintro ⟨w, b', hw, hb⟩
    exact ⟨ρ.pid w, b', (h.waitsFor_iff hρ).2 hw, (hbid w).trans hb⟩

theorem inheritedPrio (hρ : ρ.Total) (h : s.Renamed ρ t) (hs : s.Settled) (ht : t.Settled)
    (pid : Pid) :
    Relates (s.inheritedPrio pid) (t.inheritedPrio (ρ.pid pid)) fun n n' => n' = n := by
  intro n n' hn hn'
  obtain ⟨p, hp, -⟩ := bind_eq_ok.1 hn
  rw [process_eq_ok] at hp
  have hp' : t.process? (ρ.pid pid) = some (ρ.process p) := by
    rw [h.process? hρ, hp]
    rfl
  obtain ⟨k, hk, hgreat⟩ := hs.inheritedPrio_eq_ok hp
  obtain ⟨k', hk', hgreat'⟩ := ht.inheritedPrio_eq_ok hp'
  rw [Renaming.process_base, h.offers_eq hρ] at hgreat'
  cases hn.symm.trans hk
  cases hn'.symm.trans hk'
  exact hgreat'.unique hgreat

theorem awaitedOwner_eq (hρ : ρ.Total) (h : s.Renamed ρ t) (hs : s.Settled) (ht : t.Settled)
    (pid : Pid) : t.awaitedOwner (ρ.pid pid) = (s.awaitedOwner pid).map ρ.pid := by
  ext z'
  rw [ht.awaitedOwner_eq_some, Option.map_eq_some_iff]
  constructor
  · intro hw
    obtain ⟨-, z, -, rfl⟩ := h.exists_of_waitsFor hρ hw
    exact ⟨z, hs.awaitedOwner_eq_some.2 ((h.waitsFor_iff hρ).1 hw), rfl⟩
  · rintro ⟨z, hz, rfl⟩
    exact (h.waitsFor_iff hρ).2 (hs.awaitedOwner_eq_some.1 hz)

theorem settled_setPrio (hs : s.Settled) (pid : Pid) (n : Nat) :
    Ensures (s.setPrio pid n) Settled :=
  .bind_any fun _ => .ok ((s.repriced_reprice pid n).settled hs)

theorem passOn (hρ : ρ.Total) (h : s.Renamed ρ t) (hs : s.Settled) (ht : t.Settled) (bound : Nat)
    (pid : Pid) :
    Relates (State.passOn bound s pid).result (State.passOn bound t (ρ.pid pid)).result
      (Renamed ρ) := by
  induction bound generalizing s t pid with
  | zero => exact .ok h
  | succ bound ih =>
    simp only [State.passOn, result_bind, result_lift]
    refine .bind (h.inheritedPrio hρ hs ht pid) ?_
    rintro n _ rfl
    refine .bind_map (h.process hρ pid) fun p => ?_
    rw [Renaming.process_prio]
    split
    · exact .ok h
    · simp only [result_bind, result_lift, result_note, ok_bind]
      refine .bind ((h.setPrio hρ pid _).ensuring (settled_setPrio hs pid _)
        (settled_setPrio ht _ _)) ?_
      rintro s t ⟨h, hs, ht⟩
      rw [h.awaitedOwner_eq hρ hs ht]
      cases s.awaitedOwner pid with
      | none => exact .ok h
      | some next => exact ih h hs ht next

theorem inherit (hρ : ρ.Total) (h : s.Renamed ρ t) (hs : s.Settled) (ht : t.Settled) (pid : Pid) :
    Relates (s.inherit pid).result (t.inherit (ρ.pid pid)).result (Renamed ρ) := by
  rw [State.inherit, State.inherit, h.length_procs]
  exact h.passOn hρ hs ht _ pid

/-- The same process calls, and the same resource is at stake: `Calls` goes over to the renamed
state. -/
theorem calls (hρ : ρ.Total) (h : s.Renamed ρ t) (ht : t.Settled) {pid : Pid} {r : ResourceId}
    {x : Resource} (hcalls : s.Calls pid r x) :
    t.Calls (ρ.pid pid) (ρ.resource r) (ρ.entry x) where
  settled := ht
  current := by
    rw [h.current, hcalls.current]
    rfl
  running := by
    obtain ⟨p, hp, hrun⟩ := process?_of_status? hcalls.running
    refine status?_eq_some.2 ⟨ρ.process p, ?_, hrun⟩
    rw [h.process? hρ, hp]
    rfl
  entry := by
    rw [h.resources, hcalls.entry]
    rfl

end Renamed

/-- Everybody is in its place after `ask` by a caller that does not own the resource. -/
theorem Calls.settled_ask {s : State} {pid : Pid} {r : ResourceId} {x : Resource}
    (h : s.Calls pid r x) (hne : x.owner ≠ some pid) :
    Ensures (s.ask r).result fun a => a.1.Settled := by
  rcases hx : x.owner with _ | owner
  · rw [h.ask_free hx]
    exact .ok (h.settled.give h.entry h.running)
  · rw [h.ask_held hx]
    exact .ok (h.settled.park h.entry h.running fun ho => hne ((owns_iff h.entry).1 ho))

/-- Everybody is in its place after `wakeUrgent` has woken one of those who wait for a resource that
the caller gave up. -/
theorem Calls.settled_wakeUrgent {s : State} {pid : Pid} {r : ResourceId} {x : Resource}
    (h : s.Calls pid r x) :
    Ensures ((s.setResource r { x with owner := none }).wakeUrgent r).result Settled := by
  rw [h.wakeable.wakeUrgent_eq_ok, woke_setResource]
  exact .ok (h.settled_vacate fun _ => mem_of_foremost)

end State

/-- A policy that answers alike in states that are `Renamed`, in each of its operations. -/
structure Policy.NameBlind {σ : Type} (P : Policy σ) : Prop where
  /-- before the first tick -/
  setup : ∀ {ρ : Renaming}, ρ.Total → ∀ (memory : σ) {s t : State}, s.Renamed ρ t →
    Relates (P.setup memory s).result (P.setup memory t).result fun a b =>
      (∀ e, a = .error e → b = .error e) ∧
        ∀ memory' s', a = .ok (memory', s') → ∃ t', b = .ok (memory', t') ∧ s'.Renamed ρ t'
  /-- after the last tick -/
  finish : ∀ {ρ : Renaming}, ρ.Total → ∀ (memory : σ) {s t : State}, s.Renamed ρ t →
    Relates (P.finish memory s).result (P.finish memory t).result fun a b =>
      b.1 = a.1 ∧ a.2.Renamed ρ b.2
  /-- when it chooses -/
  choose : ∀ {ρ : Renaming}, ρ.Total → ∀ (memory : σ) {s t : State}, s.Renamed ρ t →
    Relates (P.choose memory s).result (P.choose memory t).result fun a b =>
      b.1 = a.1 ∧ State.RenamedChoice ρ a.2 b.2
  /-- when a resource is asked for -/
  acquire : ∀ {ρ : Renaming}, ρ.Total → ∀ (memory : σ) {s t : State} {pid : Pid} {r : ResourceId}
    {x : Resource}, s.Calls pid r x → x.owner ≠ some pid → t.Settled → s.Renamed ρ t →
    Relates (P.acquire memory s r).result (P.acquire memory t (ρ.resource r)).result fun a b =>
      b.1 = a.1 ∧ a.2.1.Renamed ρ b.2.1 ∧ b.2.2 = a.2.2
  /-- when a resource is given back -/
  release : ∀ {ρ : Renaming}, ρ.Total → ∀ (memory : σ) {s t : State} {pid : Pid} {r : ResourceId}
    {x : Resource}, s.Calls pid r x → x.owner = some pid → t.Settled → s.Renamed ρ t →
    Relates (P.release memory s r).result (P.release memory t (ρ.resource r)).result fun a b =>
      b.1 = a.1 ∧ a.2.Renamed ρ b.2
  /-- when a process has arrived -/
  arrived : ∀ {ρ : Renaming}, ρ.Total → ∀ (memory : σ) {s t : State} (pid : Pid),
    s.Renamed ρ t → Relates (P.arrived memory s pid).result
      (P.arrived memory t (ρ.pid pid)).result fun a b => b.1 = a.1 ∧ a.2.Renamed ρ b.2

namespace Discipline

open State

variable {ρ : Renaming} {s t : State}

theorem renamed_setup (d : Discipline) (memory : Memory) (h : s.Renamed ρ t) :
    (∃ e, d.setup memory s = .error e ∧ d.setup memory t = .error e) ∨
      ∃ memory', d.setup memory s = .ok (memory', s) ∧ d.setup memory t = .ok (memory', t) := by
  cases d with
  | ceiling =>
    rw [setup, setup, h.ceiling]
    split
    · exact Or.inl ⟨_, rfl, rfl⟩
    · exact Or.inr ⟨_, rfl, rfl⟩
  | _ => exact Or.inr ⟨_, rfl, rfl⟩

theorem renamed_choose (d : Discipline) (memory : Memory) (hρ : ρ.Total) (h : s.Renamed ρ t) :
    Relates (d.choose memory s).result (d.choose memory t).result fun a b =>
      b.1 = a.1 ∧ RenamedChoice ρ a.2 b.2 := by
  cases d with
  | fcfs =>
    simp only [choose, result_bind, result_lift]
    exact .bind (h.keepOr hρ fun h => .ok h.takeHead) fun _ _ hc => .ok ⟨rfl, hc⟩
  | sjf =>
    simp only [choose, result_bind, result_lift]
    exact .bind (h.keepOr hρ fun h => h.takeMin hρ fun _ => rfl) fun _ _ hc => .ok ⟨rfl, hc⟩
  | stcf =>
    simp only [choose, result_bind]
    exact .bind (h.preferShorter hρ) fun _ _ hc => .ok ⟨rfl, hc⟩
  | roundRobin =>
    simp only [choose, result_bind, result_lift]
    exact .bind (h.yieldTail hρ) fun _ _ h => .ok ⟨rfl, h.takeHead⟩
  | aging => exact h.preferAged hρ memory
  | ceiling =>
    simp only [choose, result_bind, result_lift]
    refine .bind (h.yieldTail hρ) fun _ _ h => ?_
    exact .bind (h.takeUrgent hρ) fun _ _ hc => .ok ⟨rfl, hc⟩
  | priority | inheritance =>
    simp only [choose, result_bind]
    exact .bind (h.preferUrgent hρ) fun _ _ hc => .ok ⟨rfl, hc⟩

theorem renamed_acquire (d : Discipline) (hρ : ρ.Total) {pid : Pid} {r : ResourceId} {x : Resource}
    (hcalls : s.Calls pid r x) (hne : x.owner ≠ some pid) (ht : t.Settled) (h : s.Renamed ρ t) :
    Relates (d.acquire s r).result (d.acquire t (ρ.resource r)).result fun a b =>
      a.1.Renamed ρ b.1 ∧ b.2 = a.2 := by
  cases d with
  | ceiling =>
    simp only [acquire, acquireCeiling, result_bind]
    refine .bind (h.ask hρ r) ?_
    rintro ⟨s, granted⟩ ⟨t, _⟩ ⟨h, rfl⟩
    cases granted with
    | none => exact .ok ⟨h, rfl⟩
    | some owner =>
      simp only [Option.map_some, result_bind, result_lift, result_note, ok_bind]
      rw [h.ceiling]
      exact .bind (h.setPrio hρ owner _) fun s t h => .ok ⟨h, rfl⟩
  | inheritance =>
    have hne' : (ρ.entry x).owner ≠ some (ρ.pid pid) := by
      rw [Renaming.entry_owner, ← Option.map_some]
      exact (Option.map_injective hρ.pid_injective).ne hne
    simp only [acquire, acquireInheriting, result_bind]
    refine .bind ((h.ask hρ r).ensuring (hcalls.settled_ask hne)
      ((h.calls hρ ht hcalls).settled_ask hne')) ?_
    rintro ⟨s, granted⟩ ⟨t, _⟩ ⟨⟨h, rfl⟩, hs, ht⟩
    cases granted with
    | some owner =>
      simp only [Option.map_some, result_bind]
      exact .bind (h.inherit hρ hs ht owner) fun s t h => .ok ⟨h, rfl⟩
    | none =>
      simp only [Option.map_none, result_bind, result_lift]
      refine .bind_map (h.resource r) fun x => ?_
      rw [Renaming.entry_owner]
      cases x.owner with
      | none => exact .ok ⟨h, rfl⟩
      | some owner =>
        simp only [Option.map_some, result_bind]
        exact .bind (h.inherit hρ hs ht owner) fun s t h => .ok ⟨h, rfl⟩
  | _ =>
    change Relates (s.acquirePlain r).result (t.acquirePlain _).result _
    simp only [acquirePlain, result_bind]
    refine .bind (h.ask hρ r) ?_
    rintro ⟨s, granted⟩ ⟨t, _⟩ ⟨h, rfl⟩
    exact .ok ⟨h, Option.isSome_map⟩

theorem renamed_release (d : Discipline) (hρ : ρ.Total) {pid : Pid} {r : ResourceId} {x : Resource}
    (hcalls : s.Calls pid r x) (hx : x.owner = some pid) (ht : t.Settled) (h : s.Renamed ρ t) :
    Relates (d.release s r).result (d.release t (ρ.resource r)).result (Renamed ρ) := by
  cases d with
  | ceiling =>
    simp only [release, releaseCeiling, result_bind, result_lift, result_note, ok_bind]
    refine .bind (h.surrender hρ r) ?_
    rintro ⟨s, owner⟩ ⟨t, _⟩ ⟨h, rfl⟩
    refine .bind_map (h.process hρ owner) fun p => ?_
    exact .bind (h.setPrio hρ owner p.base) fun s t h => h.wakeUrgent hρ r
  | inheritance =>
    have hcalls' := h.calls hρ ht hcalls
    have hx' : (ρ.entry x).owner = some (ρ.pid pid) := by
      rw [Renaming.entry_owner, hx]
      rfl
    simp only [release, releaseInheriting, result_bind, result_lift]
    rw [hcalls.surrender_eq_ok hx, hcalls'.surrender_eq_ok hx', ok_bind, ok_bind]
    have hwake := (h.setResource hρ r { x with owner := none }).wakeUrgent hρ r
    refine .bind (hwake.ensuring (hcalls.settled_wakeUrgent) hcalls'.settled_wakeUrgent) ?_
    rintro s t ⟨h, hs, ht⟩
    exact h.inherit hρ hs ht pid
  | priority | aging =>
    simp only [release, releaseUrgent, result_bind, result_lift]
    refine .bind (h.surrender hρ r) ?_
    rintro ⟨s, owner⟩ ⟨t, _⟩ ⟨h, rfl⟩
    exact h.wakeUrgent hρ r
  | fcfs | sjf | stcf | roundRobin =>
    simp only [release, releaseFirst, result_bind, result_lift]
    refine .bind (h.surrender hρ r) ?_
    rintro ⟨s, owner⟩ ⟨t, _⟩ ⟨h, rfl⟩
    exact h.wakeFirst hρ r

/-- None of the disciplines looks at names: each operation of each is gone through by `Relates`. -/
theorem nameBlind (d : Discipline) : d.policy.NameBlind where
  setup _ memory _ _ h := by
    refine .ok ?_
    rcases d.renamed_setup memory h with ⟨e, hs, ht⟩ | ⟨memory', hs, ht⟩
    · rw [hs, ht]
      exact ⟨fun _ he => he, fun _ _ hok => by cases hok⟩
    · rw [hs, ht]
      refine ⟨fun _ he => (by cases he), fun _ _ hok => ?_⟩
      cases hok
      exact ⟨_, rfl, h⟩
  finish _ _ _ _ h := .ok ⟨rfl, h⟩
  choose hρ memory _ _ h := d.renamed_choose memory hρ h
  acquire hρ _ _ _ _ _ _ hcalls hne ht h := by
    simp only [policy, result_bind]
    exact .bind (d.renamed_acquire hρ hcalls hne ht h) fun _ _ ha => .ok ⟨rfl, ha⟩
  release hρ _ _ _ _ _ _ hcalls hx ht h := by
    simp only [policy, result_bind]
    exact .bind (d.renamed_release hρ hcalls hx ht h) fun _ _ h => .ok ⟨rfl, h⟩
  arrived _ _ _ _ _ h := .ok ⟨rfl, h⟩

end Discipline

end Uniprocessor
