import Mathlib.Data.List.Perm.Basic
import Mathlib.Data.Set.Function
import Uniprocessor.Proofs.Restraint
import Uniprocessor.Trace

/-!
# Other names

A renaming gives processes and resources other names, and with that everything in which they occur.
The process table is ordered by number and the resource table by position, so in a state under other
names the entries of both stand elsewhere (`State.Renamed`): the process table is rearranged, and
what a resource has is found at its new position.

An operation goes along with a renaming if it leads from states which differ in names only to such
states, and answers with the new names where it answers with a name (`Relates`). Here this is shown
for the operations on tables and queues.
-/

namespace Uniprocessor

/-- Other names for processes and resources: a function on the numbers of each. -/
structure Renaming where
  /-- the new name of a process -/
  pid : Pid → Pid
  /-- the new name of a resource -/
  resource : ResourceId → ResourceId

namespace Renaming

variable (ρ : Renaming)

/-- Different processes get different names, and so do different resources, and every number is the
new name of some resource. -/
structure Total : Prop where
  /-- processes are told apart by their new names -/
  pid_injective : Function.Injective ρ.pid
  /-- the new names of resources are the old ones in another order -/
  resource_bijective : Function.Bijective ρ.resource

/-- A live process under its new name. -/
def process (p : Process) : Process := { p with pid := ρ.pid p.pid }

/-- An entry of the resource table, with the new names of the owner and of those who wait. -/
def entry (x : Resource) : Resource where
  owner := x.owner.map ρ.pid
  waiters := x.waiters.map ρ.pid

/-- A request for the resource under its new name. -/
def request (q : Request) : Request := { q with resource := ρ.resource q.resource }

/-- A job under its new name. -/
def job (j : Job) : Job := { j with pid := ρ.pid j.pid, requests := j.requests.map ρ.request }

/-- The same processes to come, in the same order, under their new names. -/
def scenario (sc : Scenario) : Scenario := { sc with jobs := sc.jobs.map ρ.job }

/-- What happened, with the new names. -/
def happening : Happening → Happening
  | .arrived pid => .arrived (ρ.pid pid)
  | .executed pid => .executed (ρ.pid pid)
  | .acquired pid r => .acquired (ρ.pid pid) (ρ.resource r)
  | .refused pid r => .refused (ρ.pid pid) (ρ.resource r)
  | .released pid r => .released (ρ.pid pid) (ρ.resource r)
  | .woken pid r => .woken (ρ.pid pid) (ρ.resource r)
  | .left pid => .left (ρ.pid pid)
  | .idle => .idle

/-- An event of the same tick, with the new names in what happened. -/
def event (e : Event) : Event := { e with what := ρ.happening e.what }

/-- A trace with the new names, the same exit and the same end. -/
def trace (t : Trace) : Trace := { t with events := t.events.map ρ.event }

variable {ρ}

@[simp] theorem process_pid (p : Process) : (ρ.process p).pid = ρ.pid p.pid := rfl

@[simp] theorem process_prio (p : Process) : (ρ.process p).prio = p.prio := rfl

@[simp] theorem process_base (p : Process) : (ρ.process p).base = p.base := rfl

@[simp] theorem process_status (p : Process) : (ρ.process p).status = p.status := rfl

@[simp] theorem process_age (p : Process) : (ρ.process p).age = p.age := rfl

@[simp] theorem process_lifespan (p : Process) : (ρ.process p).lifespan = p.lifespan := rfl

@[simp] theorem process_remaining (p : Process) : (ρ.process p).remaining = p.remaining := rfl

@[simp] theorem process_isFinished (p : Process) :
    (ρ.process p).isFinished = p.isFinished := rfl

@[simp] theorem process_isBlocked (p : Process) : (ρ.process p).isBlocked = p.isBlocked := rfl

@[simp] theorem process_isRunnable (p : Process) :
    (ρ.process p).isRunnable = p.isRunnable := rfl

@[simp] theorem entry_owner (x : Resource) : (ρ.entry x).owner = x.owner.map ρ.pid := rfl

@[simp] theorem entry_waiters (x : Resource) : (ρ.entry x).waiters = x.waiters.map ρ.pid := rfl

@[simp] theorem entry_isFree (x : Resource) : (ρ.entry x).isFree = x.isFree := by
  rw [Resource.isFree, Resource.isFree, entry_owner, Option.isNone_map]

theorem Total.mem_map_iff (hρ : ρ.Total) {q : Queue} {pid : Pid} :
    ρ.pid pid ∈ q.map ρ.pid ↔ pid ∈ q := List.mem_map_of_injective hρ.pid_injective

theorem Total.map_remove (hρ : ρ.Total) (q : Queue) (pid : Pid) :
    (q.remove pid).map ρ.pid = Queue.remove (q.map ρ.pid) (ρ.pid pid) :=
  List.map_erase hρ.pid_injective q

end Renaming

/-- Any answers of the two computations are related by `R`; nothing is said if one of them
faults. -/
def Relates {ε α β : Type} (x : Except ε α) (y : Except ε β) (R : α → β → Prop) : Prop :=
  ∀ a b, x = .ok a → y = .ok b → R a b

namespace Relates

variable {ε α β γ δ : Type} {x : Except ε α} {y : Except ε β} {f : α → Except ε γ}
  {g : β → Except ε δ} {R : α → β → Prop} {Q : γ → δ → Prop}

theorem ok {a : α} {b : β} (h : R a b) : Relates (.ok a : Except ε α) (.ok b) R := by
  rintro _ _ ⟨⟩ ⟨⟩
  exact h

/-- What relates the answers of the first parts is known in the second ones: the rule by which two
programs are gone through side by side. -/
theorem bind (h : Relates x y R) (hf : ∀ a b, R a b → Relates (f a) (g b) Q) :
    Relates (x >>= f) (y >>= g) Q := by
  intro c d hc hd
  obtain ⟨a, ha, hc⟩ := bind_eq_ok.1 hc
  obtain ⟨b, hb, hd⟩ := bind_eq_ok.1 hd
  exact hf a b (h a b ha hb) c d hc hd

/-- If the second answer is a function of the first, it is known in the second parts: `Relates.bind`
with the relation made an equation. -/
theorem bind_map {r : α → β} (h : Relates x y fun a b => b = r a)
    (hf : ∀ a, Relates (f a) (g (r a)) Q) : Relates (x >>= f) (y >>= g) Q :=
  h.bind fun a _ hb => hb ▸ hf a

/-- Nothing need be known of the answers of the first parts, where the second ones do not look at
them. -/
theorem bind_any (hf : ∀ a b, Relates (f a) (g b) Q) : Relates (x >>= f) (y >>= g) Q :=
  bind (R := fun _ _ => True) (fun _ _ _ _ => trivial) fun a b _ => hf a b

end Relates

namespace Queue

variable {ρ : Renaming}

theorem pushBack_renamed (q : Queue) (pid : Pid) :
    Relates (q.pushBack pid) (pushBack (q.map ρ.pid) (ρ.pid pid)) fun a b => b = a.map ρ.pid := by
  intro a b ha hb
  obtain ⟨-, rfl⟩ := pushBack_eq_ok.1 ha
  obtain ⟨-, rfl⟩ := pushBack_eq_ok.1 hb
  simp

theorem pushFront_renamed (q : Queue) (pid : Pid) :
    Relates (q.pushFront pid) (pushFront (q.map ρ.pid) (ρ.pid pid)) fun a b =>
      b = a.map ρ.pid := by
  intro a b ha hb
  obtain ⟨-, rfl⟩ := pushFront_eq_ok.1 ha
  obtain ⟨-, rfl⟩ := pushFront_eq_ok.1 hb
  simp

end Queue

namespace State

/-- The second state is the first one under other names: tables rearranged by the names, and queues
in the same order. -/
structure Renamed (ρ : Renaming) (s t : State) : Prop where
  /-- the same processes are live, in another order -/
  procs : t.procs.Perm (s.procs.map ρ.process)
  /-- no number is repeated -/
  nodup : (s.procs.map Process.pid).Nodup
  /-- the same process is current -/
  current : t.current = s.current.map ρ.pid
  /-- the same processes are in the ready queue, in the same order -/
  ready : t.ready = s.ready.map ρ.pid
  /-- every resource has the same owner, and the same processes wait for it in the same order -/
  resources : ∀ r, t.resources[ρ.resource r]? = s.resources[r]?.map ρ.entry
  /-- it is the same tick -/
  tick : t.tick = s.tick
  /-- the ceiling is the same -/
  ceiling : t.ceiling = s.ceiling

namespace Renamed

variable {ρ : Renaming} {s t : State}

/-! ## The process table -/

theorem nodup' (hρ : ρ.Total) (h : s.Renamed ρ t) : (t.procs.map Process.pid).Nodup := by
  have hperm : (t.procs.map Process.pid).Perm ((s.procs.map Process.pid).map ρ.pid) := by
    simpa [Function.comp_def] using h.procs.map Process.pid
  exact hperm.nodup_iff.2 (h.nodup.map hρ.pid_injective)

/-- A process is found by `process?` under its new name exactly if it is found under its old one,
and its record is renamed. -/
theorem process? (hρ : ρ.Total) (h : s.Renamed ρ t) (pid : Pid) :
    t.process? (ρ.pid pid) = (s.process? pid).map ρ.process := by
  rcases hp : s.process? pid with _ | p
  · rw [Option.map_none, process?_eq_none]
    intro hmem
    obtain ⟨q, hq, hpid⟩ := List.mem_map.1 hmem
    obtain ⟨p, hp', rfl⟩ := List.mem_map.1 (h.procs.mem_iff.1 hq)
    refine process?_eq_none.1 hp ?_
    exact hρ.pid_injective hpid ▸ List.mem_map_of_mem hp'
  · have hmem : ρ.process p ∈ t.procs :=
      h.procs.mem_iff.2 (List.mem_map_of_mem (mem_of_process? hp))
    have hfound := process?_of_mem_of_nodup (h.nodup' hρ) hmem
    rwa [Renaming.process_pid, pid_of_process? hp] at hfound

theorem process (hρ : ρ.Total) (h : s.Renamed ρ t) (pid : Pid) :
    Relates (s.process pid) (t.process (ρ.pid pid)) fun p q => q = ρ.process p := by
  intro p q hp hq
  rw [process_eq_ok] at hp hq
  rw [h.process? hρ, hp] at hq
  exact (Option.some.inj hq).symm

/-- A change that does not look at names may be made to a process under both names, and leaves the
states `Renamed`. -/
theorem adjust (hρ : ρ.Total) (h : s.Renamed ρ t) (pid : Pid) {f : Process → Process}
    (hpid : ∀ p, (f p).pid = p.pid) (hf : ∀ p, f (ρ.process p) = ρ.process (f p)) :
    (s.adjust pid f).Renamed ρ (t.adjust (ρ.pid pid) f) where
  procs := by
    refine (h.procs.map _).trans (.of_eq ?_)
    rw [State.adjust, List.map_map, List.map_map]
    refine List.map_congr_left fun p _ => ?_
    by_cases hp : p.pid = pid
    · simp [hp, hf]
    · have hne : ρ.pid p.pid ≠ ρ.pid pid := hρ.pid_injective.ne hp
      simp [hp, hne]
  nodup := by
    rw [map_pid_adjust hpid]
    exact h.nodup
  current := h.current
  ready := h.ready
  resources := h.resources
  tick := h.tick
  ceiling := h.ceiling

theorem revise (hρ : ρ.Total) (h : s.Renamed ρ t) (pid : Pid) {f : Process → Process}
    (hpid : ∀ p, (f p).pid = p.pid) (hf : ∀ p, f (ρ.process p) = ρ.process (f p)) :
    Relates (s.revise pid f) (t.revise (ρ.pid pid) f) (Renamed ρ) :=
  .bind_any fun _ _ => .ok (h.adjust hρ pid hpid hf)

theorem setStatus (hρ : ρ.Total) (h : s.Renamed ρ t) (pid : Pid) (status : Status) :
    Relates (s.setStatus pid status) (t.setStatus (ρ.pid pid) status) (Renamed ρ) :=
  h.revise hρ pid (fun _ => rfl) fun _ => rfl

theorem setPrio (hρ : ρ.Total) (h : s.Renamed ρ t) (pid : Pid) (prio : Nat) :
    Relates (s.setPrio pid prio) (t.setPrio (ρ.pid pid) prio) (Renamed ρ) :=
  h.revise hρ pid (fun _ => rfl) fun _ => rfl

theorem currentRecord (hρ : ρ.Total) (h : s.Renamed ρ t) :
    Relates s.currentRecord t.currentRecord fun p q => q = p.map ρ.process := by
  rw [State.currentRecord, State.currentRecord, h.current]
  cases s.current with
  | none => exact .ok rfl
  | some pid =>
    intro _ _ hp hq
    obtain ⟨p', hp', rfl⟩ := map_eq_ok.1 hp
    obtain ⟨q', hq', rfl⟩ := map_eq_ok.1 hq
    exact congrArg some (h.process hρ pid p' q' hp' hq')

/-- Whatever is said of all records, and not of their names, is said of them in both states,
although the tables are in different orders. -/
theorem all_procs (h : s.Renamed ρ t) {f : Process → Bool} (hf : ∀ p, f (ρ.process p) = f p) :
    t.procs.all f = s.procs.all f := by
  rw [Bool.eq_iff_iff, List.all_eq_true, List.all_eq_true]
  simp only [h.procs.mem_iff, List.forall_mem_map, hf]

theorem length_procs (h : s.Renamed ρ t) : t.procs.length = s.procs.length := by
  rw [h.procs.length_eq, List.length_map]

theorem isEmpty_procs (h : s.Renamed ρ t) : t.procs.isEmpty = s.procs.isEmpty := by
  rw [Bool.eq_iff_iff, List.isEmpty_iff_length_eq_zero, List.isEmpty_iff_length_eq_zero,
    h.length_procs]

/-- Where a newcomer stands in the table depends on its number; that it is one more process does
not, so an arrival is the same under both names. -/
theorem perm_insertByPid (p : Process) (l : List Process) : (insertByPid p l).Perm (p :: l) := by
  induction l with
  | nil => exact .refl _
  | cons q rest ih =>
    rw [insertByPid]
    split
    · exact .refl _
    · exact (ih.cons q).trans (.swap p q rest)

theorem enroll (h : s.Renamed ρ t) (p : Process) :
    Relates (s.enroll p) (t.enroll (ρ.process p)) (Renamed ρ) := by
  intro s' t' hs' ht'
  simp only [State.enroll, bind_eq_ok] at hs' ht'
  obtain ⟨_, hnew, ready, hready, hs'⟩ := hs'
  have hnew := require_eq_ok.1 hnew
  obtain ⟨_, -, ready', hready', ht'⟩ := ht'
  cases hs'
  cases ht'
  rw [h.ready] at hready'
  exact {
    procs := by
      refine (perm_insertByPid _ _).trans ?_
      refine .trans ?_ ((perm_insertByPid _ _).map ρ.process).symm
      exact h.procs.cons _
    nodup := by
      refine ((perm_insertByPid _ _).map Process.pid).nodup_iff.2 ?_
      exact List.nodup_cons.2 ⟨process?_eq_none.1 hnew, h.nodup⟩
    current := h.current
    ready := Queue.pushBack_renamed _ _ _ _ hready hready'
    resources := h.resources
    tick := h.tick
    ceiling := h.ceiling }

theorem dismiss (hρ : ρ.Total) (h : s.Renamed ρ t) (pid : Pid) :
    Relates (s.dismiss pid) (t.dismiss (ρ.pid pid)) fun a b => a.2.Renamed ρ b.2 := by
  refine .bind_any fun _ _ => .bind_any fun _ _ => .bind_any fun _ _ => .bind_any fun _ _ => .ok ?_
  exact {
    procs := by
      refine (h.procs.filter _).trans (.of_eq ?_)
      rw [List.filter_map]
      congr 1
      exact List.filter_congr fun p _ => by simp [hρ.pid_injective.eq_iff]
    nodup := h.nodup.sublist (List.filter_sublist.map Process.pid)
    current := h.current
    ready := h.ready
    resources := h.resources
    tick := h.tick
    ceiling := h.ceiling }

/-! ## The resource table -/

theorem resource (h : s.Renamed ρ t) (r : ResourceId) :
    Relates (s.resource r) (t.resource (ρ.resource r)) fun x y => y = ρ.entry x := by
  intro x y hx hy
  rw [resource_eq_ok] at hx hy
  rw [h.resources, hx] at hy
  exact (Option.some.inj hy).symm

theorem setResource (hρ : ρ.Total) (h : s.Renamed ρ t) (r : ResourceId) (x : Resource) :
    (s.setResource r x).Renamed ρ (t.setResource (ρ.resource r) (ρ.entry x)) where
  procs := h.procs
  nodup := h.nodup
  current := h.current
  ready := h.ready
  resources q := by
    rw [State.setResource, State.setResource, List.getElem?_set', List.getElem?_set']
    by_cases hq : r = q
    · simp [hq, h.resources, Function.comp_def]
    · have hne : ρ.resource r ≠ ρ.resource q := hρ.resource_bijective.1.ne hq
      simp [hq, hne, h.resources]
  tick := h.tick
  ceiling := h.ceiling

/-- The same process `Waits` for the same resource, by the entry of the resource under its new
name. -/
theorem same_waits (hρ : ρ.Total) (h : s.Renamed ρ t) {pid : Pid} {r : ResourceId} :
    t.Waits (ρ.pid pid) (ρ.resource r) ↔ s.Waits pid r := by
  simp [Waits, h.resources, hρ.pid_injective.eq_iff]

/-- The same process `Owns` the same resource, by the entry of the resource under its new name. -/
theorem same_owns (hρ : ρ.Total) (h : s.Renamed ρ t) {pid : Pid} {r : ResourceId} :
    t.Owns (ρ.pid pid) (ρ.resource r) ↔ s.Owns pid r := by
  simp [Owns, h.resources, hρ.pid_injective.eq_iff]

/-! ## The ready queue -/

theorem withReady (h : s.Renamed ρ t) (q : Queue) :
    { s with ready := q }.Renamed ρ { t with ready := q.map ρ.pid } where
  procs := h.procs
  nodup := h.nodup
  current := h.current
  ready := rfl
  resources := h.resources
  tick := h.tick
  ceiling := h.ceiling

theorem takeOut (hρ : ρ.Total) (h : s.Renamed ρ t) (pid : Pid) :
    Relates (s.takeOut pid) (t.takeOut (ρ.pid pid)) (Renamed ρ) := by
  refine .bind_any fun _ _ => .ok ?_
  rw [h.ready, ← hρ.map_remove]
  exact h.withReady _

theorem queueLast (hρ : ρ.Total) (h : s.Renamed ρ t) (pid : Pid) :
    Relates (s.queueLast pid) (t.queueLast (ρ.pid pid)) (Renamed ρ) := by
  refine .bind (h.setStatus hρ pid .ready) fun s t h => ?_
  rw [h.ready]
  exact .bind_map (Queue.pushBack_renamed _ _) fun q => .ok (h.withReady q)

theorem queueFirst (hρ : ρ.Total) (h : s.Renamed ρ t) (pid : Pid) :
    Relates (s.queueFirst pid) (t.queueFirst (ρ.pid pid)) (Renamed ρ) := by
  refine .bind (h.setStatus hρ pid .ready) fun s t h => ?_
  rw [h.ready]
  exact .bind_map (Queue.pushFront_renamed _ _) fun q => .ok (h.withReady q)

end Renamed

end State

end Uniprocessor
