import Mathlib.Data.List.Basic
import Mathlib.Data.List.Induction
import Uniprocessor.Proofs.History
import Uniprocessor.Trace.Summary

/-!
# One pass and many questions

The summary of a trace is gathered in one pass over the events, with an account for every process
that has arrived so far. What it says of a process can also be asked of all the events, question by
question (`Trace.account?`). Both agree if nothing is told of a process before it arrives and nobody
leaves twice (`Trace.mem_accounts_iff`), which a run sees to.

When a process executed first is kept beside the accounts, and so is right for any events.
-/

namespace Uniprocessor

namespace Trace

variable {events : List Event} {e : Event} {what : Happening} {pid : Pid} {tick : Nat}

/-! ## What the events say -/

/-- The tick of the first of the events that says so, if one does. -/
def firstTick (events : List Event) (what : Happening) : Option Nat :=
  (events.find? fun e => e.what = what).map Event.tick

theorem tickOf_eq (t : Trace) (what : Happening) : t.tickOf what = firstTick t.events what := rfl

/-- One more event matters to `firstTick` if it is the first that says so. -/
theorem firstTick_concat (events : List Event) (e : Event) (what : Happening) :
    firstTick (events ++ [e]) what =
      (firstTick events what).or (if e.what = what then some e.tick else none) := by
  rw [firstTick, List.find?_append, firstTick]
  cases events.find? fun e => e.what = what with
  | some _ => rfl
  | none => by_cases h : e.what = what <;> simp [h]

theorem firstTick_eq_none : firstTick events what = none ↔ ∀ e ∈ events, e.what ≠ what := by
  simp [firstTick]

/-- What questions about a process give, but for its first run: `none` if it has not arrived. -/
def answers? (events : List Event) (pid : Pid) : Option Account :=
  (firstTick events (.arrived pid)).map fun arrived => {
    pid := pid
    arrived := arrived
    left := firstTick events (.left pid)
    ran := events.countP fun e => e.what = .executed pid
    refusals := events.countP (Event.isBlockOf pid) }

/-- What questions about a process give, its first run with them: the account of it that the events
know. -/
def account? (t : Trace) (pid : Pid) : Option Account :=
  (t.arrivalTick pid).map fun arrived => {
    pid := pid
    arrived := arrived
    firstRun := t.tickOf (.executed pid)
    left := t.departureTick pid
    ran := t.ranCount pid
    refusals := t.refusalCount pid }

/-- What one more event adds to `answers?`: the specification of a step of the pass. -/
theorem answers?_concat (events : List Event) (e : Event) (pid : Pid) :
    answers? (events ++ [e]) pid =
    ((firstTick events (.arrived pid)).or (if e.what = .arrived pid then some e.tick else none)).map
      fun arrived => {
        pid := pid
        arrived := arrived
        left := (firstTick events (.left pid)).or (if e.what = .left pid then some e.tick else none)
        ran := (events.countP fun e => e.what = .executed pid) +
          if e.what = .executed pid then 1 else 0
        refusals := events.countP (Event.isBlockOf pid) + if e.isBlockOf pid then 1 else 0 } := by
  simp only [answers?, firstTick_concat, List.countP_append, List.countP_singleton,
    decide_eq_true_eq]

/-- Of a process of which nothing is told there is nothing to say: every question is answered with
nothing or zero. -/
theorem answers?_of_untold (h : ∀ e ∈ events, e.what.pid? ≠ some pid) :
    firstTick events (.arrived pid) = none ∧ firstTick events (.left pid) = none ∧
      (events.countP fun e => e.what = .executed pid) = 0 ∧
      events.countP (Event.isBlockOf pid) = 0 := by
  have hne : ∀ what : Happening, what.pid? = some pid → ∀ e ∈ events, e.what ≠ what := by
    rintro what hpid e he rfl
    exact h e he hpid
  refine ⟨firstTick_eq_none.2 (hne _ rfl), firstTick_eq_none.2 (hne _ rfl), ?_, ?_⟩
  · exact List.countP_eq_zero.2 fun e he => by simpa using hne (.executed pid) rfl e he
  · refine List.countP_eq_zero.2 fun e he => ?_
    obtain ⟨tick, what⟩ := e
    cases what with
    | refused p r =>
      have hp : p ≠ pid := fun hp => hne (.refused p r) (congrArg some hp) _ he rfl
      simpa [Event.isBlockOf] using hp
    | _ => simp [Event.isBlockOf]

end Trace

namespace Summary

variable {ps : List Account} {p : Account} {events : List Event} {e : Event} {pid q : Pid}

/-! ## Accounts by number -/

/-- The account of a process, if the list has one. -/
def find? (ps : List Account) (pid : Pid) : Option Account := ps.find? fun p => p.pid = pid

/-- An account that `put` puts in its place is found there, and so are all others. -/
theorem find?_put (p : Account) (ps : List Account) (pid : Pid) :
    find? (put p ps) pid = if pid = p.pid then some p else find? ps pid := by
  induction ps with
  | nil => by_cases h : pid = p.pid <;> simp [find?, put, h, eq_comm]
  | cons q rest ih =>
    simp only [find?] at ih ⊢
    rw [put]
    split
    · by_cases h : pid = p.pid <;> simp [h, eq_comm]
    · split
      · next heq => by_cases h : pid = p.pid <;> simp [h, ← heq, eq_comm]
      · next hne =>
        rw [List.find?_cons, List.find?_cons, ih]
        by_cases h : q.pid = pid
        · simp [h, show pid ≠ p.pid from fun he => hne (he.symm.trans h.symm)]
        · simp [h]

/-- A `change` that keeps numbers changes the account of one process, and leaves the others. -/
theorem find?_change {f : Account → Account} (hf : ∀ p, (f p).pid = p.pid) (ps : List Account)
    (pid q : Pid) :
    find? (change pid f ps) q = if q = pid then (find? ps q).map f else find? ps q := by
  induction ps with
  | nil => simp [find?, change]
  | cons p rest ih =>
    simp only [find?, change] at ih ⊢
    rw [List.map_cons, List.find?_cons, List.find?_cons, ih]
    by_cases hp : p.pid = pid <;> by_cases hq : q = pid <;> by_cases hpq : p.pid = q <;> simp_all

/-- Whoever has an account is found by `find?`, and nobody else. -/
theorem find?_eq_none : find? ps pid = none ↔ pid ∉ ps.map Account.pid := by
  simp [find?, List.find?_eq_none]

theorem mem_map_pid_put : q ∈ (put p ps).map Account.pid ↔ q = p.pid ∨ q ∈ ps.map Account.pid := by
  rw [← not_iff_not, ← find?_eq_none, find?_put, not_or, ← find?_eq_none]
  by_cases h : q = p.pid <;> simp [h]

/-- Accounts stay in the order of their numbers when one is `put` in its place. -/
theorem pairwise_put (h : (ps.map Account.pid).Pairwise (· < ·)) :
    ((put p ps).map Account.pid).Pairwise (· < ·) := by
  induction ps with
  | nil => exact List.pairwise_singleton ..
  | cons q rest ih =>
    obtain ⟨hlt, hrest⟩ := List.pairwise_cons.1 h
    rw [put]
    split
    · next hpq =>
      refine List.pairwise_cons.2 ⟨fun r hr => ?_, h⟩
      rcases List.mem_cons.1 hr with rfl | hr
      · exact hpq
      · exact Nat.lt_trans hpq (hlt r hr)
    · next hle =>
      split
      · next heq => exact List.pairwise_cons.2 ⟨fun r hr => heq ▸ hlt r hr, hrest⟩
      · next hne =>
        refine List.pairwise_cons.2 ⟨fun r hr => ?_, ih hrest⟩
        rcases mem_map_pid_put.1 hr with rfl | hr
        · exact Nat.lt_of_le_of_ne (Nat.not_lt.1 hle) (Ne.symm hne)
        · exact hlt r hr

/-- A change that keeps numbers keeps the order of the accounts, as `pairwise_put` does. -/
theorem pairwise_change {f : Account → Account} (h : (ps.map Account.pid).Pairwise (· < ·))
    (hf : ∀ p, (f p).pid = p.pid) : ((change pid f ps).map Account.pid).Pairwise (· < ·) := by
  have hmap : (change pid f ps).map Account.pid = ps.map Account.pid := by
    rw [change, List.map_map]
    refine List.map_congr_left fun p _ => ?_
    by_cases h : p.pid = pid <;> simp [h, hf]
  rwa [hmap]

/-- Where no number is repeated every account of the list is the one that is found under its
number. -/
theorem mem_iff_find? (h : (ps.map Account.pid).Pairwise (· < ·)) :
    p ∈ ps ↔ find? ps p.pid = some p := by
  refine ⟨fun hp => ?_, List.mem_of_find?_eq_some⟩
  induction ps with
  | nil => cases hp
  | cons q rest ih =>
    obtain ⟨hlt, hrest⟩ := List.pairwise_cons.1 h
    rcases List.mem_cons.1 hp with rfl | hp
    · simp [find?]
    · have hne : q.pid ≠ p.pid := Nat.ne_of_lt (hlt _ (List.mem_map_of_mem hp))
      rw [find?, List.find?_cons_of_neg (by simpa using hne)]
      exact ih hrest hp

/-! ## The pass over the events -/

/-- What the pass needs of an event and those before it: nothing is told of a process before it
arrives, and nobody leaves twice. -/
structure Timely (before : List Event) (e : Event) : Prop where
  /-- nothing has been told of a newcomer -/
  newcomer : ∀ pid, e.what = .arrived pid → ∀ f ∈ before, f.what.pid? ≠ some pid
  /-- who leaves has not left -/
  once : ∀ pid, e.what = .left pid → ∀ f ∈ before, f.what ≠ .left pid

theorem accounts_noteRun (t : Tally) (pid : Pid) (tick : Nat) :
    (t.noteRun pid tick).accounts = t.accounts := by
  rw [Tally.noteRun]
  split <;> rfl

/-- One step of the pass, `count`, gathers what one more event adds to the answers, if the event is
`Timely`. -/
theorem find?_count {t : Tally} (h : ∀ pid, find? t.accounts pid = Trace.answers? events pid)
    (he : Timely events e) (pid : Pid) :
    find? (t.count e).accounts pid = Trace.answers? (events ++ [e]) pid := by
  obtain ⟨tick, what⟩ := e
  -- What changes one account changes the answers of one process.
  have hchange : ∀ (f : Account → Account) {p : Pid}, (∀ p, (f p).pid = p.pid) →
      (t.count ⟨tick, what⟩).accounts = change p f t.accounts →
      find? (t.count ⟨tick, what⟩).accounts pid =
        if pid = p then (Trace.answers? events pid).map f else Trace.answers? events pid :=
    fun f p hf heq => by rw [heq, find?_change hf, h]
  rw [Trace.answers?_concat]
  cases what with
  | arrived p =>
    rw [Tally.count, find?_put, h pid]
    by_cases hp : pid = p
    · obtain ⟨harrived, hleft, hran, hrefused⟩ := Trace.answers?_of_untold (he.newcomer p rfl)
      simp [hp, harrived, hleft, hran, hrefused, Event.isBlockOf]
    · simp [hp, Ne.symm hp, Event.isBlockOf, Trace.answers?]
  | executed p =>
    rw [hchange (fun p => { p with ran := p.ran + 1 }) (fun _ => rfl)
      (congrArg (change p _) (accounts_noteRun t p tick))]
    by_cases hp : pid = p
    · simp [hp, Event.isBlockOf, Trace.answers?, Function.comp_def]
    · simp [hp, Ne.symm hp, Event.isBlockOf, Trace.answers?]
  | refused p r =>
    rw [hchange (fun p => { p with refusals := p.refusals + 1 }) (fun _ => rfl) rfl]
    by_cases hp : pid = p
    · simp [hp, Event.isBlockOf, Trace.answers?, Function.comp_def]
    · simp [hp, Ne.symm hp, Event.isBlockOf, Trace.answers?]
  | left p =>
    rw [hchange (fun q => { q with left := some tick }) (fun _ => rfl) rfl]
    by_cases hp : pid = p
    · have hstays : Trace.firstTick events (.left p) = none :=
        Trace.firstTick_eq_none.2 (he.once p rfl)
      simp [hp, hstays, Event.isBlockOf, Trace.answers?, Function.comp_def]
    · simp [hp, Ne.symm hp, Event.isBlockOf, Trace.answers?]
  | _ =>
    refine (h pid).trans ?_
    simp [Event.isBlockOf, Trace.answers?]

/-- The first run of a process is noted by `count`, and stays when it runs again. -/
theorem lookup_firstRuns_count {t : Tally} (h : ∀ pid, t.firstRuns.lookup pid =
      Trace.firstTick events (.executed pid)) (pid : Pid) :
    (t.count e).firstRuns.lookup pid = Trace.firstTick (events ++ [e]) (.executed pid) := by
  obtain ⟨tick, what⟩ := e
  rw [Trace.firstTick_concat, ← h]
  cases what with
  | executed p =>
    change (t.noteRun p tick).firstRuns.lookup pid = _
    rw [Tally.noteRun]
    split
    · next first hfirst =>
      by_cases hp : p = pid
      · simp [hp ▸ hfirst]
      · simp [hp]
    · next hnone =>
      by_cases hp : p = pid
      · simp [hp, hp ▸ hnone]
      · simp [List.lookup_cons, hp, show (pid == p) = false by simpa using Ne.symm hp]
  | _ => simp [Tally.count]

/-- The pass gathers the `answers?` of all the events, if they are timely: by induction on the
events, from the end. -/
theorem find?_foldl_count
    (h : ∀ before e after, events = before ++ e :: after → Timely before e) (pid : Pid) :
    find? (events.foldl Tally.count {}).accounts pid = Trace.answers? events pid := by
  induction events using List.reverseRecOn generalizing pid with
  | nil => rfl
  | append_singleton events e ih =>
    rw [List.foldl_append]
    refine find?_count (ih fun before f after heq => ?_) (h events e [] rfl) pid
    exact h before f (after ++ [e]) (by rw [heq]; simp)

theorem lookup_foldl_count (events : List Event) (pid : Pid) :
    (events.foldl Tally.count {}).firstRuns.lookup pid =
      Trace.firstTick events (.executed pid) := by
  induction events using List.reverseRecOn generalizing pid with
  | nil => rfl
  | append_singleton events e ih =>
    rw [List.foldl_append]
    exact lookup_firstRuns_count ih pid

/-- Accounts are in the order of their numbers, whatever the events are, since each step keeps them
so. -/
theorem pairwise_foldl_count (events : List Event) :
    ((events.foldl Tally.count {}).accounts.map Account.pid).Pairwise (· < ·) := by
  induction events using List.reverseRecOn with
  | nil => exact .nil
  | append_singleton events e ih =>
    rw [List.foldl_append]
    obtain ⟨tick, what⟩ := e
    cases what with
    | arrived p => exact pairwise_put ih
    | executed p =>
      refine pairwise_change ?_ fun _ => rfl
      rw [accounts_noteRun]
      exact ih
    | refused | left => exact pairwise_change ih fun _ => rfl
    | _ => exact ih

end Summary

namespace Trace

variable {t : Trace} {p : Account}

/-- The `summary` lists the processes in the order of their numbers, and so none of them twice. -/
theorem pairwise_accounts (t : Trace) : (t.summary.accounts.map Account.pid).Pairwise (· < ·) := by
  have h := Summary.pairwise_foldl_count t.events
  rwa [summary, Summary.Tally.finish, List.map_map]

/-- An account of the summary is what the questions about its process give, by `account?`, if the
events are timely. -/
theorem mem_accounts_iff
    (h : ∀ before e after, t.events = before ++ e :: after → Summary.Timely before e) :
    p ∈ t.summary.accounts ↔ t.account? p.pid = some p := by
  have hmem : ∀ q, q ∈ (t.events.foldl Summary.Tally.count {}).accounts ↔
      answers? t.events q.pid = some q := fun q => by
    rw [Summary.mem_iff_find? (Summary.pairwise_foldl_count _), Summary.find?_foldl_count h]
  have haccount : t.account? p.pid = (answers? t.events p.pid).map fun q =>
      { q with firstRun := t.tickOf (.executed p.pid) } := by
    rw [answers?, Option.map_map]
    rfl
  have hpid : ∀ {pid q}, answers? t.events pid = some q → q.pid = pid := fun hq => by
    obtain ⟨arrived, -, rfl⟩ := Option.map_eq_some_iff.1 hq
    rfl
  simp only [summary, Summary.Tally.finish, List.mem_map, hmem, Summary.lookup_foldl_count,
    ← tickOf_eq, haccount, Option.map_eq_some_iff]
  constructor
  · rintro ⟨q, hq, rfl⟩
    exact ⟨q, hq, rfl⟩
  · rintro ⟨q, hq, hp⟩
    have hqp := hpid hq
    exact ⟨q, hqp ▸ hq, hqp ▸ hp⟩

end Trace

end Uniprocessor
