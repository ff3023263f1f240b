import Mathlib.Data.List.Basic
import Uniprocessor.Event

/-!
# Reading a history

What can be read off a list of happenings without knowing the machine that recorded it: who has a
resource and who waits for it (`History.holders`, `History.waiters`), and at which age a process did
what it did (`History.dated`). Each reading comes with what it gives after something more has
happened.

Having and waiting are told in the same way. Some happenings open a claim and others end it, and
the claims that stand are those that were opened last and not ended since (`History.standing`).
-/

namespace Uniprocessor

namespace Happening

/-- The process that did something or that something was done to; `none` for an idle tick. -/
def pid? : Happening → Option Pid
  | .arrived pid | .executed pid | .left pid => some pid
  | .acquired pid _ | .refused pid _ | .released pid _ | .woken pid _ => some pid
  | .idle => none

/-- Whether a resource is asked for or given back, or waited for no longer: what happens within a
process's turn. -/
def isOfResource : Happening → Bool
  | .acquired .. | .refused .. | .released .. | .woken .. => true
  | _ => false

/-- Whether somebody was woken: what may follow at once when a resource is given back. -/
def isWoken : Happening → Bool
  | .woken .. => true
  | _ => false

/-- Who got the resource `r`: what opens an item of `holders`. -/
def getter? (r : ResourceId) : Happening → Option Pid
  | .acquired pid q => if q = r then some pid else none
  | _ => none

/-- Whether the process has the resource no longer: it gave it back, or somebody got it. This ends
an item of `holders`. -/
def endsHolding (r : ResourceId) (pid : Pid) : Happening → Bool
  | .acquired _ q => q = r
  | .released p q => p = pid ∧ q = r
  | _ => false

/-- Who was refused the resource `r`: what opens an item of `waiters`. -/
def refusee? (r : ResourceId) : Happening → Option Pid
  | .refused pid q => if q = r then some pid else none
  | _ => none

/-- Whether the process waits for the resource no longer, or joins its queue anew: this ends an item
of `waiters`. -/
def endsWaiting (r : ResourceId) (pid : Pid) : Happening → Bool
  | .refused p q | .woken p q => p = pid ∧ q = r
  | _ => false

end Happening

namespace History

/-! ## Claims that stand -/

section Standing

variable {α : Type} (opens : Happening → Option α) (ends : α → Happening → Bool)

/-- What was opened and has not been ended since, in the order of opening: the common reading behind
`holders` and `waiters`. -/
def standing : List Happening → List α
  | [] => []
  | e :: rest => ((opens e).toList.filter fun a => !rest.any (ends a)) ++ standing rest

/-- What one more happening does to `standing`: it ends some of what stands, and then may open one
thing more. -/
theorem standing_concat (h : List Happening) (e : Happening) :
    standing opens ends (h ++ [e]) =
      ((standing opens ends h).filter fun a => !ends a e) ++ (opens e).toList := by
  induction h with
  | nil => simp [standing]
  | cons f rest ih =>
    rw [List.cons_append, standing, standing, ih, List.filter_append, List.append_assoc]
    congr 1
    rw [List.filter_filter]
    refine List.filter_congr fun a _ => ?_
    simp [Bool.and_comm]

/-- A happening that opens nothing and ends nothing leaves `standing` as it is. -/
theorem standing_concat_of_not {h : List Happening} {e : Happening} (hopens : opens e = none)
    (hends : ∀ a, ends a e = false) :
    standing opens ends (h ++ [e]) = standing opens ends h := by
  rw [standing_concat, hopens, Option.toList_none, List.append_nil,
    List.filter_eq_self.2 fun a _ => by simp [hends]]

/-- Any number of happenings that open nothing and end nothing leave `standing` as it is, by
`standing_concat_of_not` for each. -/
theorem standing_append_of_not {h later : List Happening} (hopens : ∀ e ∈ later, opens e = none)
    (hends : ∀ e ∈ later, ∀ a, ends a e = false) :
    standing opens ends (h ++ later) = standing opens ends h := by
  induction later generalizing h with
  | nil => rw [List.append_nil]
  | cons e rest ih =>
    rw [List.append_cons, ih (fun f hf => hopens f (List.mem_cons_of_mem _ hf))
      fun f hf => hends f (List.mem_cons_of_mem _ hf)]
    exact standing_concat_of_not _ _ (hopens e (List.mem_cons_self ..))
      (hends e (List.mem_cons_self ..))

end Standing

variable {h : List Happening} {pid : Pid} {q r : ResourceId}

/-- Who got the resource last, unless it has given it back since: an instance of `standing`, with at
most one process in it. -/
def holders (h : List Happening) (r : ResourceId) : List Pid :=
  standing (Happening.getter? r) (Happening.endsHolding r) h

/-- The processes that have not been woken from `r` since they were last refused it, in the order of
these refusals: the wait queue, as the history tells it. -/
def waiters (h : List Happening) (r : ResourceId) : List Pid :=
  standing (Happening.refusee? r) (Happening.endsWaiting r) h

/-- Whoever gets a resource has it: `holders` is the getter alone, and nothing changes for other
resources. -/
theorem holders_acquired : holders (h ++ [.acquired pid q]) r =
    if q = r then [pid] else holders h r := by
  by_cases hq : q = r
  · rw [holders, standing_concat, if_pos hq, Happening.getter?, if_pos hq,
      List.filter_eq_nil_iff.2 fun p _ => by simp [Happening.endsHolding, hq]]
    rfl
  · rw [if_neg hq]
    exact standing_concat_of_not _ _ (if_neg hq) fun p => decide_eq_false hq

/-- Whoever gives a resource back has it no longer: it goes from `holders` of that resource and from
no other. -/
theorem holders_released : holders (h ++ [.released pid q]) r =
    if q = r then (holders h r).filter fun p => pid ≠ p else holders h r := by
  by_cases hq : q = r
  · rw [holders, standing_concat, if_pos hq]
    simp [Happening.getter?, Happening.endsHolding, hq, holders]
  · rw [if_neg hq]
    exact standing_concat_of_not _ _ rfl fun p => by simp [Happening.endsHolding, hq]

/-- Whoever is refused a resource waits behind all others: it goes to the end of `waiters`, as the
machine puts it at the end of the queue. -/
theorem waiters_refused : waiters (h ++ [.refused pid q]) r =
    if q = r then ((waiters h r).filter fun p => pid ≠ p) ++ [pid] else waiters h r := by
  by_cases hq : q = r
  · rw [waiters, standing_concat, if_pos hq]
    simp [Happening.refusee?, Happening.endsWaiting, hq, waiters]
  · rw [if_neg hq]
    exact standing_concat_of_not _ _ (if_neg hq) fun p => by simp [Happening.endsWaiting, hq]

/-- Whoever is woken from a resource waits for it no longer: it goes from `waiters` of that resource
and from no other. -/
theorem waiters_woken : waiters (h ++ [.woken pid q]) r =
    if q = r then (waiters h r).filter fun p => pid ≠ p else waiters h r := by
  by_cases hq : q = r
  · rw [waiters, standing_concat, if_pos hq]
    simp [Happening.refusee?, Happening.endsWaiting, hq, waiters]
  · rw [if_neg hq]
    exact standing_concat_of_not _ _ rfl fun p => by simp [Happening.endsWaiting, hq]

/-! ## Who is live, and of which age -/

/-- The age of a process, if it has arrived and not left: how often the history has it execute. -/
def age? (h : List Happening) (pid : Pid) : Option Nat :=
  if .arrived pid ∈ h ∧ .left pid ∉ h then some (h.count (.executed pid)) else none

/-- Dealings in resources make nobody older: a whole turn's requests and returns leave `age?` as it
is. -/
theorem age?_append_of_isOfResource {later : List Happening}
    (hlater : ∀ e ∈ later, e.isOfResource = true) : age? (h ++ later) pid = age? h pid := by
  have hnot : ∀ e, e.isOfResource = false → e ∉ later := by
    intro e he hmem
    rw [hlater e hmem] at he
    cases he
  simp [age?, hnot (.arrived pid) rfl, hnot (.left pid) rfl,
    List.count_eq_zero_of_not_mem (hnot (.executed pid) rfl)]

/-- A newcomer of whom nothing was heard is of age zero, and nobody else's `age?` changes. -/
theorem age?_arrived (hnew : ∀ e ∈ h, e.pid? ≠ some q) :
    age? (h ++ [.arrived q]) pid = if pid = q then some 0 else age? h pid := by
  by_cases hpid : pid = q
  · have hleft : .left q ∉ h := fun hmem => hnew _ hmem rfl
    have hran : .executed q ∉ h := fun hmem => hnew _ hmem rfl
    simp [age?, hpid, hleft, List.count_eq_zero_of_not_mem hran]
  · simp [age?, hpid]

/-- Whoever executes is a tick older by `age?`, and nobody else is. -/
theorem age?_executed : age? (h ++ [.executed q]) pid =
    if pid = q then (age? h pid).map (· + 1) else age? h pid := by
  by_cases hpid : pid = q
  · subst hpid
    by_cases hlive : .arrived pid ∈ h ∧ .left pid ∉ h <;> simp [age?, hlive]
  · simp [age?, hpid, Ne.symm hpid]

/-- Whoever leaves is live no more: its `age?` is `none` from then on, and nobody else's changes. -/
theorem age?_left : age? (h ++ [.left q]) pid = if pid = q then none else age? h pid := by
  by_cases hpid : pid = q <;> simp [age?, hpid]

theorem age?_idle : age? (h ++ [.idle]) pid = age? h pid := by simp [age?]

/-! ## What is recorded together -/

/-- When a resource is given back, all that is recorded is about resources, so
`age?_append_of_isOfResource` applies to a whole release. -/
theorem isOfResource_of_release (pid : Pid) (r : ResourceId) (woken : Option Pid) :
    ∀ e ∈ Happening.released pid r :: woken.toList.map fun w => .woken w r,
      e.isOfResource = true := by
  intro e he
  rcases List.mem_cons.1 he with rfl | he
  · rfl
  · obtain ⟨w, -, rfl⟩ := List.mem_map.1 he
    rfl

/-- When a choice is carried out, at most a departure and an idle tick are recorded: no request, no
grant and no wake-up. -/
theorem eq_of_mem_choice (gone : Option Pid) {next : Option Pid} {idle : List Happening}
    (hidle : idle = [] ∨ next = none ∧ idle = [.idle]) :
    ∀ e ∈ gone.toList.map Happening.left ++ idle,
      e = .idle ∨ ∃ pid, gone = some pid ∧ e = .left pid := by
  intro e he
  rcases List.mem_append.1 he with he | he
  · obtain ⟨pid, hpid, rfl⟩ := List.mem_map.1 he
    exact Or.inr ⟨pid, by simpa using hpid, rfl⟩
  · rcases hidle with rfl | ⟨-, rfl⟩
    · cases he
    · exact Or.inl (List.mem_singleton.1 he)

/-! ## What happened before and after -/

/-- A place in a longer history is one in the shorter, or one in what was added: the split that
every law about earlier and later happenings makes. -/
theorem append_eq_append_cons {α : Type} {h later before after : List α} {e : α}
    (heq : h ++ later = before ++ e :: after) :
    (∃ mid, h = before ++ e :: mid ∧ after = mid ++ later) ∨
      ∃ mid, before = h ++ mid ∧ later = mid ++ e :: after := by
  rcases List.append_eq_append_iff.1 heq with ⟨mid, hbefore, hlater⟩ | ⟨mid, hh, hmid⟩
  · exact Or.inr ⟨mid, hbefore, hlater⟩
  · cases mid with
    | nil => exact Or.inr ⟨[], by simpa using hh.symm, hmid.symm⟩
    | cons f mid =>
      cases hmid
      exact Or.inl ⟨mid, hh, rfl⟩

/-! ## What a process did at which age -/

section Dated

variable {α : Type} (pid : Pid) (pick : Happening → Option α)

/-- What `pick` takes from a history, each with the number of ticks that the process had executed by
then, where it had executed `n` before. -/
def dated : Nat → List Happening → List (α × Nat)
  | _, [] => []
  | n, e :: rest =>
    ((pick e).toList.map fun a => (a, n)) ++ dated (n + [e].count (.executed pid)) rest

theorem dated_append (n : Nat) (h h' : List Happening) :
    dated pid pick n (h ++ h') =
      dated pid pick n h ++ dated pid pick (n + h.count (.executed pid)) h' := by
  induction h generalizing n with
  | nil => rfl
  | cons e rest ih =>
    rw [List.cons_append, dated, dated, ih, List.append_assoc, Nat.add_assoc, ← List.count_append,
      List.singleton_append]

/-- If `pick` takes nothing from what is added, `dated` has nothing more. -/
theorem dated_append_of_none (n : Nat) (h : List Happening) {h' : List Happening}
    (hnone : ∀ e ∈ h', pick e = none) : dated pid pick n (h ++ h') = dated pid pick n h := by
  have hnil : ∀ n, dated pid pick n h' = [] := by
    induction h' with
    | nil => exact fun _ => rfl
    | cons e rest ih =>
      intro n
      rw [dated, hnone e (List.mem_cons_self ..),
        ih fun f hf => hnone f (List.mem_cons_of_mem _ hf)]
      rfl
  rw [dated_append, hnil, List.append_nil]

end Dated

end History

end Uniprocessor
