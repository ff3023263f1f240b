import Uniprocessor.Proofs.Choice
import Uniprocessor.Proofs.History

/-!
# What a history tells

A history tells a state if one can read off it who is live and of which age, who owns each resource
and who waits for it in which order (`State.ToldBy`). Every change of a state that a run makes is
told by the happenings that a run records of it, and the lemmas say by which.

An entry of a history may say more than what happened: that a process is refused a resource says
that somebody else has it, and a return that is followed by no wake-up says that nobody waited. Such
an entry is founded if that is what the history tells before it (`History.Founded`).
-/

namespace Uniprocessor

/-! ## Ages -/

namespace State

/-- The age of a process, if it is live. It is what a history tells of a process. -/
def age? (s : State) (pid : Pid) : Option Nat := (s.process? pid).map Process.age

variable {s t : State}

theorem age?_of_process? {pid : Pid} {p : Process} (h : s.process? pid = some p) :
    s.age? pid = some p.age := by
  rw [age?, h]
  rfl

theorem Repriced.age? (h : s.Repriced t) : t.age? = s.age? := by
  funext pid
  have key := congrArg (Option.map Process.age)
    (map_process?_of_map_procs (g := fun p => { p with prio := 0 }) (fun _ => rfl) h.procs pid)
  simpa [State.age?, Function.comp_def] using key

theorem age?_park (s : State) (r : ResourceId) (x : Resource) (pid : Pid) :
    (s.park r x pid).age? = s.age? := by
  funext q
  rw [age?, age?, process?_park]
  by_cases hq : q = pid
  · rw [if_pos hq, Option.map_map]
    rfl
  · rw [if_neg hq]

theorem age?_vacate (s : State) (r : ResourceId) (x : Resource) (woken : Option Pid) :
    (s.vacate r x woken).age? = s.age? := by
  funext q
  rw [age?, age?, process?_vacate]
  by_cases hq : woken = some q
  · rw [if_pos hq, Option.map_map]
    rfl
  · rw [if_neg hq]

theorem age?_joined {p : Process} (hp : s.process? p.pid = none) (pid : Pid) :
    (s.joined p).age? pid = if pid = p.pid then some p.age else s.age? pid := by
  rw [age?, process?_joined hp]
  by_cases hpid : pid = p.pid
  · rw [if_pos hpid, if_pos hpid]
    rfl
  · rw [if_neg hpid, if_neg hpid, age?]

theorem age?_adjust_age {pid : Pid} {p : Process} (hp : s.process? pid = some p) (q : Pid) :
    (s.adjust pid fun p' => { p' with age := p.age + 1 }).age? q =
      if q = pid then (s.age? q).map (· + 1) else s.age? q := by
  rw [age?, age?, process?_adjust_age]
  by_cases hq : q = pid
  · rw [if_pos hq, if_pos hq, hq, hp]
    rfl
  · rw [if_neg hq, if_neg hq]

/-- Whoever leaves by `switched` has no age any more, and all others keep theirs. -/
theorem Chose.age?_switched {next : Option Pid} (h : s.Chose t next) (pid : Pid) :
    (s.switched t next).age? pid = if s.leaver? = some pid then none else s.age? pid := by
  by_cases hg : s.leaver? = some pid
  · rw [if_pos hg, age?, process?_switched, if_pos hg]
    rfl
  · rw [if_neg hg]
    rcases hp : s.process? pid with _ | p
    · -- Who was not live is not live.
      rcases hp' : (s.switched t next).process? pid with _ | p'
      · rw [age?, age?, hp, hp']
      · obtain ⟨-, p, hsome, -⟩ := h.of_process?_switched hp'
        rw [hp] at hsome
        cases hsome
    · obtain ⟨c, n, hcn⟩ := h.exists_process?_switched hg hp
      rw [age?_of_process? hp, age?_of_process? hcn]

/-! ## What a history tells of a state -/

/-- The history tells what the state has: the live processes with their ages, the owner of every
resource, and its wait queue from head to tail. Every state of a run is told by the history up to
it. -/
structure ToldBy (s : State) (h : List Happening) : Prop where
  /-- the live processes are those that have arrived and not left, and the age of each is the number
  of ticks that it has executed -/
  ages : ∀ pid, s.age? pid = History.age? h pid
  /-- the owner is whoever got the resource last and has not given it back since -/
  owner : ∀ {r : ResourceId} {x : Resource}, s.resources[r]? = some x →
    x.owner.toList = History.holders h r
  /-- those who wait are those who were refused the resource and have not been woken since -/
  waiters : ∀ {r : ResourceId} {x : Resource}, s.resources[r]? = some x →
    x.waiters = History.waiters h r

namespace ToldBy

variable {h : List Happening} {r : ResourceId} {x : Resource} {pid : Pid}

/-- Before anything has happened, there is nobody, and every resource is free. So the empty state is
told by the empty history. -/
theorem empty (n ceiling : Nat) : (State.empty n ceiling).ToldBy [] where
  ages _ := rfl
  owner hx := by
    rw [eq_of_getElem?_empty hx]
    rfl
  waiters hx := by
    rw [eq_of_getElem?_empty hx]
    rfl

/-- A live process has arrived and not left, and has executed as many ticks as its age. This reads
the history at one process. -/
theorem of_process? (hs : s.ToldBy h) {p : Process} (hp : s.process? pid = some p) :
    .arrived pid ∈ h ∧ .left pid ∉ h ∧ h.count (.executed pid) = p.age := by
  have hage := hs.ages pid
  rw [age?_of_process? hp, History.age?] at hage
  by_cases hlive : .arrived pid ∈ h ∧ .left pid ∉ h
  · rw [if_pos hlive] at hage
    exact ⟨hlive.1, hlive.2, (Option.some.inj hage).symm⟩
  · rw [if_neg hlive] at hage
    cases hage

/-- Whoever has arrived and not left is live, which is the other direction of `of_process?`. -/
theorem process?_of_mem (hs : s.ToldBy h) (harrived : .arrived pid ∈ h) (hleft : .left pid ∉ h) :
    ∃ p, s.process? pid = some p := by
  have hage := hs.ages pid
  rw [History.age?, if_pos ⟨harrived, hleft⟩, age?] at hage
  exact (Option.map_eq_some_iff.1 hage).imp fun _ => And.left

/-- Only ages, owners and wait queues are told, so a history that tells one of two states with the
same tells both. -/
theorem congr (hs : s.ToldBy h) (hage : t.age? = s.age?) (hres : t.resources = s.resources) :
    t.ToldBy h where
  ages pid := hage ▸ hs.ages pid
  owner hx := hs.owner (hres ▸ hx)
  waiters hx := hs.waiters (hres ▸ hx)

/-- Where no resource changes, what is recorded must tell the new ages and be about no resource.
Arrivals, departures and executed ticks are cases of this. -/
theorem of_ages (hs : s.ToldBy h) {later : List Happening} (hres : t.resources = s.resources)
    (hlater : ∀ e ∈ later, e.isOfResource = false)
    (hage : ∀ pid, t.age? pid = History.age? (h ++ later) pid) : t.ToldBy (h ++ later) where
  ages := hage
  owner {r x} hx := by
    rw [hs.owner (hres ▸ hx), History.holders, History.holders, History.standing_append_of_not]
    · intro e he
      have := hlater e he
      cases e <;> first | rfl | cases this
    · intro e he p
      have := hlater e he
      cases e <;> first | rfl | cases this
  waiters {r x} hx := by
    rw [hs.waiters (hres ▸ hx), History.waiters, History.waiters, History.standing_append_of_not]
    · intro e he
      have := hlater e he
      cases e <;> first | rfl | cases this
    · intro e he p
      have := hlater e he
      cases e <;> first | rfl | cases this

/-- Where one resource changes and nobody's age does, what is recorded must tell the new entry and
be about no other resource. The moves `give`, `park` and `vacate` are cases of this. -/
theorem of_entry (hs : s.ToldBy h) {later : List Happening} {y : Resource}
    (hx : s.resources[r]? = some x) (hage : t.age? = s.age?)
    (hres : t.resources = (s.setResource r y).resources)
    (hlater : ∀ e ∈ later, e.isOfResource = true)
    (howner : y.owner.toList = History.holders (h ++ later) r)
    (hwaiters : y.waiters = History.waiters (h ++ later) r)
    (hother : ∀ q, q ≠ r → History.holders (h ++ later) q = History.holders h q ∧
      History.waiters (h ++ later) q = History.waiters h q) : t.ToldBy (h ++ later) where
  ages pid := by
    rw [hage, hs.ages, History.age?_append_of_isOfResource hlater]
  owner {q z} hz := by
    rw [hres, getElem?_setResource hx] at hz
    by_cases hq : q = r
    · rw [if_pos hq] at hz
      cases hz
      rw [hq, howner]
    · rw [if_neg hq] at hz
      rw [(hother q hq).1, hs.owner hz]
  waiters {q z} hz := by
    rw [hres, getElem?_setResource hx] at hz
    by_cases hq : q = r
    · rw [if_pos hq] at hz
      cases hz
      rw [hq, hwaiters]
    · rw [if_neg hq] at hz
      rw [(hother q hq).2, hs.waiters hz]

/-- A request granted by `give` is told by its `acquired` event. -/
theorem give (hs : s.ToldBy h) (hx : s.resources[r]? = some x) (pid : Pid) :
    (s.give r x pid).ToldBy (h ++ [.acquired pid r]) := by
  have hwaiters : ∀ q, History.waiters (h ++ [.acquired pid r]) q = History.waiters h q := fun q =>
    History.standing_concat_of_not _ _ rfl fun _ => rfl
  refine hs.of_entry hx rfl rfl (by simp [Happening.isOfResource]) ?_ ?_
    fun q hq => ⟨?_, hwaiters q⟩
  · rw [History.holders_acquired, if_pos rfl]
    rfl
  · rw [hwaiters, ← hs.waiters hx]
  · rw [History.holders_acquired, if_neg hq.symm]

/-- A request refused by `park` is told by its `refused` event, if the process did not wait already:
it is then last in the wait queue. -/
theorem park (hs : s.ToldBy h) (hx : s.resources[r]? = some x) (hpid : pid ∉ x.waiters) :
    (s.park r x pid).ToldBy (h ++ [.refused pid r]) := by
  have hholders : ∀ q, History.holders (h ++ [.refused pid r]) q = History.holders h q := fun q =>
    History.standing_concat_of_not _ _ rfl fun _ => rfl
  refine hs.of_entry hx (age?_park ..) rfl (by simp [Happening.isOfResource]) ?_ ?_
    fun q hq => ⟨hholders q, ?_⟩
  · rw [hholders, ← hs.owner hx]
  · rw [History.waiters_refused, if_pos rfl, ← hs.waiters hx, List.filter_eq_self.2]
    exact fun p hp => decide_eq_true fun he => hpid (he ▸ hp)
  · rw [History.waiters_refused, if_neg hq.symm]

/-- What `holders` and `waiters` read after a `released` event and the `woken` event behind it, if
there is one: the owner is gone, and so is the woken waiter. -/
theorem readings_release (h : List Happening) (pid : Pid) (r : ResourceId) (woken : Option Pid)
    (q : ResourceId) :
    History.holders (h ++ .released pid r :: woken.toList.map fun w => .woken w r) q =
        (if r = q then (History.holders h q).filter fun p => pid ≠ p else History.holders h q) ∧
      History.waiters (h ++ .released pid r :: woken.toList.map fun w => .woken w r) q =
        if r = q then (History.waiters h q).filter fun p => woken ≠ some p
        else History.waiters h q := by
  have hreleased : History.waiters (h ++ [.released pid r]) q = History.waiters h q :=
    History.standing_concat_of_not _ _ rfl fun _ => rfl
  cases woken with
  | none =>
    refine ⟨History.holders_released, hreleased.trans ?_⟩
    simp
  | some w =>
    have hwoken : History.holders (h ++ [.released pid r] ++ [.woken w r]) q =
        History.holders (h ++ [.released pid r]) q :=
      History.standing_concat_of_not _ _ rfl fun _ => rfl
    rw [Option.toList_some, List.map_singleton, List.append_cons, hwoken,
      History.holders_released, History.waiters_woken, hreleased]
    simp

/-- A resource given back by `vacate` is told by its `released` event and the `woken` event of
whoever is woken. -/
theorem vacate (hs : s.ToldBy h) (hset : s.Settled) (hx : s.resources[r]? = some x)
    (howner : x.owner = some pid) {woken : Option Pid} :
    (s.vacate r x woken).ToldBy
      (h ++ .released pid r :: woken.toList.map fun w => .woken w r) := by
  have hread := readings_release h pid r woken
  have hentry : (s.vacate r x woken).resources = (s.setResource r
      { owner := none, waiters := x.waiters.filter fun p => woken ≠ some p }).resources := by
    cases woken with
    | none => simp [State.vacate]
    | some w =>
      simp only [State.vacate, adjust, setResource, (hset.waiters_nodup hx).erase_eq_filter w]
      congr 3
      funext p
      by_cases hp : p = w
      · simp [hp]
      · simp [hp, Ne.symm hp]
  refine hs.of_entry hx (age?_vacate ..) hentry (History.isOfResource_of_release pid r woken) ?_ ?_
    fun q hq => ⟨?_, ?_⟩
  · rw [(hread r).1, if_pos rfl, ← hs.owner hx, howner]
    simp
  · rw [(hread r).2, if_pos rfl, ← hs.waiters hx]
  · rw [(hread q).1, if_neg hq.symm]
  · rw [(hread q).2, if_neg hq.symm]

end ToldBy

end State

/-! ## Entries with a foundation -/

namespace History

/-- Who is refused a resource is refused it because somebody else owns it; when a resource is given
back one waiter is woken, if there is one; and nobody is woken otherwise. This judges an entry by
what stands before and after it. -/
def Founded (before after : List Happening) : Happening → Prop
  | .refused pid r => ∃ owner, owner ≠ pid ∧ holders before r = [owner]
  | .released _ r => ∃ woken : Option Pid,
    (after.takeWhile Happening.isWoken = woken.toList.map fun w => .woken w r) ∧
      (woken = none ↔ waiters before r = [])
  | .woken _ r => ∃ pid, [.released pid r] <:+ before
  | _ => True

/-- What does not begin with a wake-up adds no wake-up to those that come first in what was
there. -/
theorem takeWhile_isWoken_append {later : List Happening}
    (h : later.takeWhile Happening.isWoken = [])
    (mid : List Happening) :
    (mid ++ later).takeWhile Happening.isWoken = mid.takeWhile Happening.isWoken := by
  induction mid with
  | nil => exact h
  | cons e rest ih =>
    rw [List.cons_append, List.takeWhile_cons, List.takeWhile_cons, ih]

/-- What comes after a `Founded` entry leaves it founded, if it does not begin with a wake-up: only
the wake-ups right behind a return belong to it. -/
theorem Founded.append {before mid later : List Happening} {e : Happening}
    (h : Founded before mid e) (hlater : later.takeWhile Happening.isWoken = []) :
    Founded before (mid ++ later) e := by
  cases e with
  | released =>
    rw [Founded, takeWhile_isWoken_append hlater]
    exact h
  | _ => exact h

/-- The entries about one return are `Founded`, if whoever is woken is woken from a queue, and
nobody is woken only if that is empty. -/
theorem founded_release (h : List Happening) {pid : Pid} {r : ResourceId} {woken : Option Pid}
    (hnone : woken = none ↔ waiters h r = []) {mid after : List Happening} {e : Happening}
    (heq : .released pid r :: (woken.toList.map fun w => .woken w r) = mid ++ e :: after) :
    Founded (h ++ mid) after e := by
  cases mid with
  | nil =>
    obtain ⟨rfl, rfl⟩ := List.cons.inj heq
    refine ⟨woken, ?_, by rw [List.append_nil]; exact hnone⟩
    cases woken <;> rfl
  | cons f mid =>
    obtain ⟨rfl, htail⟩ := List.cons.inj heq
    cases woken with
    | none => simp at htail
    | some w =>
      cases mid with
      | nil =>
        obtain ⟨rfl, rfl⟩ := List.cons.inj htail
        exact ⟨pid, List.suffix_append ..⟩
      | cons g mid => simp at htail

end History

end Uniprocessor
