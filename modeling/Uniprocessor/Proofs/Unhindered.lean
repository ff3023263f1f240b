import Uniprocessor.Proofs.Chronicle
import Uniprocessor.Proofs.Conserving
import Uniprocessor.Proofs.Uncontended

/-!
# Whoever is never replaced is never hindered

First come, first served, and shortest job first let the current process go on as long as it can
(`Policy.Nonpreemptive`). Whoever owns something therefore has the processor: it got it when it was
current, and it has given it back when it leaves. So whoever asks for something finds it free,
whatever the scripts say. Nobody is ever refused anything or waits, nobody is woken, and no run ends
in a deadlock (`Machine.Unhindered`).

When somebody new is chosen, shortest job first takes the first one in the ready queue with the
smallest lifespan (`State.FirstShortest`).
-/

namespace Uniprocessor

open Narrated

/-- The policy lets the current process go on if it can, and otherwise takes a process out of the
ready queue. -/
def Policy.Nonpreemptive {σ : Type} (P : Policy σ) : Prop :=
  ∀ {memory memory' : σ} {s t : State} {next : Option Pid}, s.Settled →
    (P.choose memory s).result = .ok (memory', t, next) →
    (∃ pid, s.contender? = some pid ∧ next = some pid ∧ t = s) ∨
      s.contender? = none ∧ s.Took t next

/-- The first of the entries with the smallest key, by `firstMin`, stands before all others with
this key. -/
theorem exists_split_of_firstMin {α : Type} {key : α → Nat} {l : List α} {a : α}
    (h : firstMin key l = some a) : ∃ front back, l = front ++ a :: back ∧
      (∀ b ∈ front, key a < key b) ∧ ∀ b ∈ back, key a ≤ key b := by
  induction l generalizing a with
  | nil => cases h
  | cons x rest ih =>
    simp only [firstMin, firstBest] at h
    split at h
    · next hnone =>
      cases h
      exact ⟨[], rest, rfl, by simp, by simp [firstBest_eq_none.1 hnone]⟩
    · next y hy =>
      obtain ⟨front, back, rfl, hfront, hback⟩ := ih hy
      split at h <;> cases h
      · next hbeats =>
        refine ⟨x :: front, back, rfl, fun b hb => ?_, hback⟩
        rcases List.mem_cons.1 hb with rfl | hb
        · exact of_decide_eq_true hbeats
        · exact hfront b hb
      · next hbeats =>
        have hle : key x ≤ key y := by simpa using hbeats
        refine ⟨[], _, rfl, by simp, fun b hb => ?_⟩
        rcases List.mem_append.1 hb with hb | hb
        · exact hle.trans (hfront b hb).le
        · rcases List.mem_cons.1 hb with rfl | hb
          · exact hle
          · exact hle.trans (hback b hb)

namespace State

variable {s t : State} {next : Option Pid} {pid : Pid}

/-- Of the ready processes `pid` is the first one with the smallest lifespan. -/
def FirstShortest (s : State) (pid : Pid) : Prop :=
  ∃ p front back, s.process? pid = some p ∧ s.ready = front ++ pid :: back ∧
    (∀ q ∈ front, ∀ x, s.process? q = some x → p.lifespan < x.lifespan) ∧
    ∀ q ∈ back, ∀ x, s.process? q = some x → p.lifespan ≤ x.lifespan

/-- Where the current process goes on if it can, it does so and nothing is changed, or the next one
is taken. -/
theorem Settled.of_keepOr (h : s.Settled) {choice : State → Except Fault (State × Option Pid)}
    (hok : s.keepOr choice = .ok (t, next)) :
    (∃ pid, s.contender? = some pid ∧ next = some pid ∧ t = s) ∨
      s.contender? = none ∧ choice s = .ok (t, next) := by
  rw [keepOr, h.contender_eq_ok, ok_bind] at hok
  cases hc : s.contender? with
  | some cur =>
    rw [hc] at hok
    cases hok
    exact Or.inl ⟨cur, rfl, rfl, rfl⟩
  | none =>
    rw [hc] at hok
    exact Or.inr ⟨rfl, hok⟩

/-- The process with the smallest lifespan is taken by `takeMin`, the first one of several: it is
`FirstShortest`. -/
theorem Settled.firstShortest_of_takeMin (h : s.Settled)
    (hok : s.takeMin Process.lifespan = .ok (t, some pid)) : s.FirstShortest pid := by
  obtain ⟨u, hu, -⟩ := takeMin_eq_ok (fun _ => h.process?_of_mem_ready) Process.lifespan
  have hmin : firstMin (s.keyOf Process.lifespan) s.ready = some pid :=
    congrArg Prod.snd (Except.ok.inj (hu.symm.trans hok))
  obtain ⟨p, hp⟩ := h.process?_of_mem_ready (mem_of_firstBest hmin)
  obtain ⟨front, back, hready, hfront, hback⟩ := exists_split_of_firstMin hmin
  refine ⟨p, front, back, hp, hready, fun q hq x hx => ?_, fun q hq x hx => ?_⟩
  · have hlt := hfront q hq
    rwa [keyOf_of_process? hp, keyOf_of_process? hx] at hlt
  · have hle := hback q hq
    rwa [keyOf_of_process? hp, keyOf_of_process? hx] at hle

end State

namespace Discipline

variable {memory memory' : Memory} {s t : State} {next : Option Pid} {pid : Pid}

/-- First come, first served lets the current process go on, or takes the head of the ready queue:
what its `choose` comes to in a settled state. -/
theorem of_fcfs (h : s.Settled)
    (hok : (fcfs.policy.choose memory s).result = .ok (memory', t, next)) :
    (∃ pid, s.contender? = some pid ∧ next = some pid ∧ t = s) ∨
      s.contender? = none ∧ t = s.takeHead.1 ∧ next = s.takeHead.2 := by
  have hkeep : s.keepOr (fun s => .ok s.takeHead) = .ok (t, next) := result_of_paired hok
  rcases h.of_keepOr hkeep with hgoes | ⟨hc, htake⟩
  · exact Or.inl hgoes
  · cases htake
    exact Or.inr ⟨hc, rfl, rfl⟩

/-- Shortest job first lets the current process go on, or takes one with the smallest lifespan: what
its `choose` comes to in a settled state. -/
theorem of_sjf (h : s.Settled)
    (hok : (sjf.policy.choose memory s).result = .ok (memory', t, next)) :
    (∃ pid, s.contender? = some pid ∧ next = some pid ∧ t = s) ∨
      s.contender? = none ∧ s.takeMin Process.lifespan = .ok (t, next) := by
  have hkeep : s.keepOr (fun s => s.takeMin Process.lifespan) = .ok (t, next) :=
    result_of_paired hok
  exact h.of_keepOr hkeep

/-- First come, first served, and shortest job first are `Nonpreemptive`: what their choices come
to, by `of_fcfs` and `of_sjf`. -/
theorem nonpreemptive {d : Discipline} (hd : d = .fcfs ∨ d = .sjf) : d.policy.Nonpreemptive := by
  intro memory memory' s t next h hok
  rcases hd with rfl | rfl
  · refine (of_fcfs h hok).imp_right fun ⟨hc, ht, hnext⟩ => ⟨hc, ?_⟩
    rw [ht, hnext]
    exact State.took_takeHead s
  · refine (of_sjf h hok).imp_right fun ⟨hc, htake⟩ => ⟨hc, ?_⟩
    obtain ⟨t', htake', htook⟩ :=
      State.takeMin_eq_ok (fun _ => h.process?_of_mem_ready) Process.lifespan
    cases htake'.symm.trans htake
    exact htook

end Discipline

namespace Machine

variable {σ : Type} {sc : Scenario} {P : Policy σ} {m m' : Machine σ}

/-- Nobody waits, whoever owns something executes, and nobody has been refused anything or woken:
the invariant of this module. -/
structure Unhindered (m : Machine σ) : Prop where
  /-- nobody waits -/
  waits : ∀ pid r, ¬ m.state.Waits pid r
  /-- whoever owns something executes -/
  running : ∀ {pid r}, m.state.Owns pid r → m.state.status? pid = some .running
  /-- nobody has been refused anything -/
  refused : ∀ pid r, .refused pid r ∉ m.history
  /-- nobody has been woken -/
  woken : ∀ pid r, .woken pid r ∉ m.history

namespace Unhindered

theorem initial (sc : Scenario) (memory : σ) : (Machine.initial sc memory).Unhindered where
  waits _ _ := State.not_waits_empty
  running ho := absurd ho State.not_owns_empty
  refused _ _ := List.not_mem_nil
  woken _ _ := List.not_mem_nil

/-- The state of an `Unhindered` machine is `Uncontended`, which is the part of the invariant that
is not about the history. -/
theorem uncontended (h : m.Unhindered) : m.state.Uncontended := ⟨h.waits, h.running⟩

/-- Where the state is `Uncontended`, what is recorded must be no refusal and no wake-up: the
general step behind the cases of `Unhindered.episode`. -/
theorem append (h : m.Unhindered) (hfree : m'.state.Uncontended) {later : List Happening}
    (hhistory : m'.history = m.history ++ later)
    (hlater : ∀ pid r, .refused pid r ∉ later ∧ .woken pid r ∉ later) : m'.Unhindered where
  waits := hfree.waits
  running := hfree.running
  refused pid r hmem := by
    rw [hhistory, List.mem_append] at hmem
    exact hmem.elim (h.refused pid r) (hlater pid r).1
  woken pid r hmem := by
    rw [hhistory, List.mem_append] at hmem
    exact hmem.elim (h.woken pid r) (hlater pid r).2

/-- Whoever owns something is the current process and can go on, so it is chosen by a policy that is
`Nonpreemptive`. -/
theorem eq_of_choose (hsc : sc.Sound) (hP : P.Nonpreemptive) (hm : m.Steady sc) (h : m.Unhindered)
    (hphase : m.phase = .choosing) {memory : σ} {t : State} {next : Option Pid}
    (hok : (P.choose m.memory m.state).result = .ok (memory, t, next)) {pid : Pid} {r : ResourceId}
    (howns : m.state.Owns pid r) : next = some pid := by
  have hcon := hm.contender?_of_owns hsc h.uncontended hphase howns
  rcases hP hm.stage.settled hok with ⟨q, hq, hnext, -⟩ | ⟨hnone, -⟩
  · rw [hnext, ← hq, hcon]
  · rw [hcon] at hnone
    cases hnone

/-- Whatever happens hinders nobody, if nobody is replaced: each case of `Episode` leaves a machine
`Unhindered`. -/
theorem episode (hsc : sc.Sound) (hP : P.Nonpreemptive) (hm : m.Steady sc) (h : m.Unhindered)
    (hep : m.Episode P m') : m'.Unhindered := by
  have hfree := hep.uncontended hm h.uncontended fun hphase hok howns =>
    h.eq_of_choose hsc hP hm hphase hok howns
  cases hep with
  | quiet _ _ _ _ _ hhistory =>
    exact h.append hfree (hhistory.trans (List.append_nil _).symm) (by simp)
  | arrive _ _ _ _ _ hhistory => exact h.append hfree hhistory (by simp)
  | choose _ _ _ _ _ _ _ hidle hhistory =>
    refine h.append hfree hhistory fun pid r => ⟨fun hmem => ?_, fun hmem => ?_⟩
    · rcases History.eq_of_mem_choice _ hidle _ hmem with he | ⟨g, -, he⟩ <;> cases he
    · rcases History.eq_of_mem_choice _ hidle _ hmem with he | ⟨g, -, he⟩ <;> cases he
  | grant _ _ _ _ _ _ _ _ _ _ hhistory => exact h.append hfree hhistory (by simp)
  | refuse _ hcalls hx hne => exact absurd (h.uncontended.owner_eq_of_calls hcalls hx) hne
  | execute _ _ _ _ _ _ _ _ _ _ hhistory => exact h.append hfree hhistory (by simp)
  | release _ hcalls _ _ _ hwoken _ _ _ hhistory =>
    obtain rfl := h.uncontended.woken_eq_none hcalls hwoken
    exact h.append hfree hhistory (by simp)

/-- Every live process is ready or current where nobody is hindered, since nobody is blocked by
`Uncontended.status?_ne_blocked`. -/
theorem ready_or_current (h : m.Unhindered) (hs : m.state.Settled) {pid : Pid} {p : Process}
    (hp : m.state.process? pid = some p) : pid ∈ m.state.ready ∨ m.state.current = some pid := by
  have hst := State.status?_of_process? hp
  cases hstatus : p.status with
  | ready => exact Or.inl ((hs.mem_ready pid).2 (hstatus ▸ hst))
  | running => exact Or.inr (hs.running_current (hstatus ▸ hst))
  | blocked => exact absurd (hstatus ▸ hst) (h.uncontended.status?_ne_blocked hs pid)

/-- With nobody ready and nobody current there is nobody left, by `ready_or_current`. -/
theorem procs_eq_nil (h : m.Unhindered) (hs : m.state.Settled) (hready : m.state.ready = [])
    (hcurrent : m.state.current = none) : m.state.procs = [] := by
  apply List.eq_nil_iff_forall_not_mem.2
  intro p hp
  rcases h.ready_or_current hs (hs.ordered.process?_of_mem hp) with hmem | hcur
  · rw [hready] at hmem
    cases hmem
  · rw [hcurrent] at hcur
    cases hcur

end Unhindered

end Machine

namespace Scenario

variable {σ : Type} {sc : Scenario} {P : Policy σ} {memory : σ} {m : Machine σ}

/-- Wherever a run gets to in which nobody is replaced, nobody has been hindered, by
`Unhindered.episode` for each stride. -/
theorem Reaches.unhindered (hsc : sc.Admitted) (hP : P.Lawful) (hnon : P.Nonpreemptive)
    (h : sc.Reaches P memory m) (hm : m.phase.isSwitching = false) : m.Unhindered :=
  h.invariant hsc hP (fun memory => .initial sc memory)
    (fun hm hI hstr => hI.episode hsc.sound hnon hm (hm.episode hstr)) hm

/-- No run in which nobody is replaced ends in a deadlock, since its last machine is
`Unhindered`. -/
theorem Reaches.ne_deadlock (hsc : sc.Admitted) (hP : P.Lawful) (hnon : P.Nonpreemptive)
    (h : sc.Reaches P memory m) {exit : Exit} (hphase : m.phase = .over exit) :
    exit ≠ .deadlock :=
  h.ne_deadlock_of_uncontended hsc hP hphase
    (h.unhindered hsc hP hnon (Phase.isSwitching_of_over hphase)).uncontended

end Scenario

end Uniprocessor
