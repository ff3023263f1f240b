import Uniprocessor.Proofs.Ending
import Uniprocessor.Proofs.Episode

/-!
# Resources without contention

As long as whoever owns something executes, whoever asks for something finds it free: the one that
asks executes too, and only one process does. So nobody waits and nobody is woken
(`State.Uncontended`). Whatever happens leaves it so if the policy chooses the owner wherever there
is one (`Machine.Episode.uncontended`), and then no run ends in a deadlock
(`Scenario.Reaches.ne_deadlock_of_uncontended`). Policies that replace nobody choose like that, and
so does the priority ceiling where no process holds two resources at once.
-/

namespace Uniprocessor

open Narrated

namespace State

variable {s t : State} {pid owner : Pid} {r : ResourceId} {x : Resource} {woken : Option Pid}

/-- Nobody waits, and whoever owns something executes. -/
structure Uncontended (s : State) : Prop where
  /-- nobody waits -/
  waits : ∀ pid r, ¬ s.Waits pid r
  /-- whoever owns something executes -/
  running : ∀ {pid r}, s.Owns pid r → s.status? pid = some .running

namespace Uncontended

/-- Nobody is blocked, since whoever is blocked waits for something. -/
theorem status?_ne_blocked (h : s.Uncontended) (hs : s.Settled) (pid : Pid) :
    s.status? pid ≠ some .blocked := by
  intro hblocked
  obtain ⟨r, hw⟩ := (hs.blocked_iff pid).1 hblocked
  exact h.waits pid r hw

/-- Where the resources are the same, only the owners have to go on executing. -/
theorem of_resources (h : s.Uncontended) (hres : t.resources = s.resources)
    (hrun : ∀ {pid r}, s.Owns pid r → t.status? pid = some .running) : t.Uncontended where
  waits pid r hw := h.waits pid r ((waits_congr hres).1 hw)
  running ho := hrun ((owns_congr hres).1 ho)

/-- A newcomer changes nothing for the owners, since whoever owns something was live before. -/
theorem joined (h : s.Uncontended) {p : Process} (hp : s.process? p.pid = none) :
    (s.joined p).Uncontended :=
  h.of_resources rfl fun ho => status?_joined_of_live hp (h.running ho)

/-- Whoever finds a resource owned finds itself: the owner executes, and so does the one that
`Calls`. -/
theorem owner_eq_of_calls (h : s.Uncontended) (hcalls : s.Calls pid r x)
    (hx : x.owner = some owner) : owner = pid :=
  hcalls.settled.eq_of_running (h.running ((owns_iff hcalls.entry).2 hx)) hcalls.running

/-- When a resource is given back nobody is woken, since nobody waits for it. -/
theorem woken_eq_none (h : s.Uncontended) (hcalls : s.Calls pid r x)
    (hwoken : ∀ w, woken = some w → w ∈ x.waiters) : woken = none :=
  hcalls.woken_eq_none (fun w => h.waits w r) hwoken

/-- Whoever is granted something executes, as every owner has to. -/
theorem give (h : s.Uncontended) (hcalls : s.Calls pid r x)
    (ht : (s.give r x pid).Repriced t) : t.Uncontended where
  waits q r' hw := h.waits q r' ((waits_give hcalls.entry).1 (ht.waits.1 hw))
  running {q r'} ho := by
    rw [owns_congr ht.resources, owns_give hcalls.entry] at ho
    refine (ht.status? q).trans ?_
    by_cases hr : r' = r
    · rw [if_pos hr] at ho
      exact ho ▸ hcalls.running
    · rw [if_neg hr] at ho
      exact h.running ho

/-- Whoever gives something back wakes nobody, and owns nothing more than before. -/
theorem vacate (h : s.Uncontended) (hcalls : s.Calls pid r x)
    (ht : (s.vacate r x none).Repriced t) : t.Uncontended where
  waits q r' hw := h.waits q r' ((waits_vacate_none hcalls.entry).1 (ht.waits.1 hw))
  running {q r'} ho := by
    rw [owns_congr ht.resources, owns_vacate hcalls.entry] at ho
    exact (ht.status? q).trans (h.running ho.1)

end Uncontended

end State

namespace Machine

variable {σ : Type} {sc : Scenario} {P : Policy σ} {m m' : Machine σ} {pid : Pid} {r : ResourceId}

/-- An owner that executes can go on: it is not about to leave, since whoever leaves owns nothing.
So it is the `contender?`. -/
theorem Steady.contender?_of_owns (hsc : sc.Sound) (hm : m.Steady sc) (h : m.state.Uncontended)
    (hphase : m.phase = .choosing) (howns : m.state.Owns pid r) :
    m.state.contender? = some pid := by
  have hst : Stage sc m.state m.scripts m.arrivals fun _ => [] := hm.stage_of hphase
  exact (hst.settled.leaver_or_contender (h.running howns)).resolve_left fun hg =>
    hst.not_owns_leaver hsc hg r howns

/-- Whatever happens leaves the state `Uncontended`, if the policy chooses the owner wherever there
is one. -/
theorem Episode.uncontended (hm : m.Steady sc) (h : m.state.Uncontended)
    (hchosen : ∀ {memory t next pid r}, m.phase = .choosing →
      (P.choose m.memory m.state).result = .ok (memory, t, next) → m.state.Owns pid r →
      next = some pid)
    (hep : m.Episode P m') : m'.state.Uncontended := by
  cases hep with
  | quiet hprocs hresources =>
    refine h.of_resources hresources fun {pid r} ho => ?_
    rw [State.status?, State.process?, hprocs]
    exact h.running ho
  | arrive hphase harrivals hstate =>
    rw [hstate]
    exact h.joined (hm.stage_of_arriving hphase harrivals).process?_arrival
  | choose hphase hok hchose hstate =>
    rw [hstate]
    refine h.of_resources (by rw [State.resources_switched, hchose.resources]) fun ho => ?_
    rw [hchose.status?_switched hm.stage.settled fun _ => (hm.stage_of hphase).status?_leaver,
      if_pos (hchosen hphase hok ho)]
  | grant _ _ _ _ hcalls _ ht => exact h.give hcalls ht
  | refuse _ hcalls hx hne => exact absurd (h.owner_eq_of_calls hcalls hx) hne
  | execute _ _ _ _ _ _ hstate =>
    rw [hstate]
    refine h.of_resources rfl fun ho => ?_
    rw [State.status?_of_places (m.state.places_adjust_age _ _)]
    exact h.running ho
  | release _ hcalls _ ht _ hwoken =>
    obtain rfl := h.woken_eq_none hcalls hwoken
    exact h.vacate hcalls ht

end Machine

/-- No run ends in a deadlock with its state `Uncontended`: a deadlock has somebody blocked. -/
theorem Scenario.Reaches.ne_deadlock_of_uncontended {σ : Type} {sc : Scenario} {P : Policy σ}
    {memory : σ} {m : Machine σ} (hsc : sc.Admitted) (hP : P.Lawful) (h : sc.Reaches P memory m)
    {exit : Exit} (hphase : m.phase = .over exit) (hfree : m.state.Uncontended) :
    exit ≠ .deadlock := by
  rintro rfl
  obtain ⟨-, hlive, hblocked⟩ : m.Accounts sc.limit .deadlock := h.accounts hsc hP hphase
  obtain ⟨p, hp⟩ := List.exists_mem_of_ne_nil _ hlive
  have hs := (h.steady hsc hP (Phase.isSwitching_of_over hphase)).stage.settled
  have hst := State.status?_of_process? (hs.ordered.process?_of_mem hp)
  exact hfree.status?_ne_blocked hs p.pid (hblocked p hp ▸ hst)

end Uniprocessor
