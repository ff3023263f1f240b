import Uniprocessor.Proofs.Contention
import Uniprocessor.Proofs.Oblivious

/-!
# Resources that nobody shares

If no resource is requested by two different processes, whoever asks for something finds it free:
had it an owner, the owner would have requested it too. So nobody ever waits
(`Reaches.not_waits_unshared`), and under every discipline but the priority ceiling a grant and a
return change the resource table and nothing else. Under priority inheritance, which computes
priorities anew with every grant and every return, that is so because there is nothing to inherit.
-/

namespace Uniprocessor

/-- No resource is requested by two different processes. -/
def Scenario.Unshared (sc : Scenario) : Prop :=
  ∀ job ∈ sc.jobs, ∀ other ∈ sc.jobs, ∀ q ∈ job.requests, ∀ q' ∈ other.requests,
    q.resource = q'.resource → job.pid = other.pid

/-! ## Nobody waits -/

namespace Machine

variable {σ : Type} {sc : Scenario} {m : Machine σ}

/-- What is asked for is free: whoever owned it would have requested it too, and it is not the
caller itself. -/
theorem Steady.not_owns_unshared (h : m.Steady sc) (hun : sc.Unshared) {pid owner : Pid}
    {q : Request} {rest : List Request} (hphase : m.phase = .requesting pid (q :: rest)) :
    ¬ m.state.Owns owner q.resource := by
  intro howns
  have hst : Stage sc m.state m.scripts m.arrivals fun _ => [] := h.stage_of hphase
  -- The owner holds it, and every hold goes back to a request of its job.
  obtain ⟨held, hheld, hr⟩ := hst.owns_iff.1 howns
  rw [List.append_nil] at hr
  obtain ⟨po, hpo⟩ := hst.live hheld
  obtain ⟨other, hother, rfl, hplays⟩ := hst.plays_of_find? hpo hheld
  obtain ⟨x, hx, hxr⟩ := List.mem_map.1 hr
  obtain ⟨q', hq', hres, -⟩ := hplays.origin x hx
  -- The request is one of the job of the process that asks.
  obtain ⟨-, p, script, hp, hs, -, hdue⟩ : Turn m.state m.scripts pid (q :: rest) :=
    h.fits_of hphase
  obtain ⟨job, hjob, rfl, hplays'⟩ := hst.plays_of_find? hp hs
  have hq := (hplays'.mem_due.1 (hdue ▸ List.mem_cons_self ..)).1
  have hsame := hun other hother job hjob q' hq' q hq (hres.trans hxr)
  exact h.not_owns_requested hphase (hsame ▸ howns)

end Machine

namespace Scenario.Reaches

variable {sc : Scenario}

/-- Nobody waits for a resource that nobody shares, since nobody is ever refused it. -/
theorem not_waits_unshared {σ : Type} {P : Policy σ} {memory : σ} {m : Machine σ}
    (hsc : sc.Admitted) (hP : P.Lawful) (hun : sc.Unshared) (h : sc.Reaches P memory m)
    (hm : m.phase.isSwitching = false) (pid : Pid) (r : ResourceId) : ¬ m.state.Waits pid r := by
  refine h.invariant hsc hP (I := fun m => ∀ pid r, ¬ m.state.Waits pid r)
    (fun _ _ _ => State.not_waits_empty) (fun {m m'} hm hI hstr pid r hw => ?_) hm pid r
  cases hstr.exchange with
  | keep _ hres => exact hI pid r ((State.waits_congr hres).1 hw)
  | give _ hcalls _ ht => exact hI pid r ((State.waits_give hcalls.entry).1 (ht.waits.1 hw))
  | park hphase hcalls hx =>
    exact hm.not_owns_unshared hun hphase ((State.owns_iff hcalls.entry).2 hx)
  | vacate _ hcalls _ ht _ hwoken =>
    obtain rfl := hcalls.woken_eq_none (fun w => hI w _) hwoken
    exact hI pid r ((State.waits_vacate_none hcalls.entry).1 (ht.waits.1 hw))

/-- Where no resource is shared there is nothing to inherit under priority inheritance: the state is
`AtBase`. -/
theorem atBase_unshared {memory : Memory} {m : Machine Memory} (hsc : sc.Admitted)
    (hun : sc.Unshared) (h : sc.Reaches Discipline.inheritance.policy memory m)
    (hm : m.phase.isSwitching = false) : m.state.AtBase :=
  (h.donated hsc hm).atBase_of_not_waitsFor fun x _ ⟨r, hw, _⟩ =>
    h.not_waits_unshared hsc Discipline.inheritance.lawful hun hm x r hw

end Scenario.Reaches

/-! ## Grants and returns change the table alone -/

namespace Discipline

open Narrated State

variable {d : Discipline} {s : State} {pid : Pid} {r : ResourceId} {x : Resource}

/-- Of the disciplines only aging forgets something before the first tick, and only the priority
ceiling looks at the state then: all others set up any state as it is. -/
theorem exists_setup (hd : d ≠ .ceiling) (memory : Memory) :
    ∃ memory', ∀ s, d.setup memory s = .ok (memory', s) := by
  cases d with
  | ceiling => exact absurd rfl hd
  | aging => exact ⟨none, fun _ => rfl⟩
  | _ => exact ⟨memory, fun _ => rfl⟩

/-- A grant without inheritance or a ceiling changes the owner and nothing else: the state is that
of `give`. -/
theorem acquire_eq_give (hd : d ≠ .ceiling) (hd' : d ≠ .inheritance) (h : s.Calls pid r x)
    (hx : x.owner = none) : (d.acquire s r).result = .ok (s.give r x pid, true) := by
  cases d with
  | ceiling => exact absurd rfl hd
  | inheritance => exact absurd rfl hd'
  | _ => exact h.acquirePlain_free hx

/-- A return of something that nobody waits for, without inheritance or a ceiling, changes the owner
and nothing else: the state is that of `vacate`. -/
theorem release_eq_vacate (hd : d ≠ .ceiling) (hd' : d ≠ .inheritance) (h : s.Calls pid r x)
    (hx : x.owner = some pid) (hnone : x.waiters = []) :
    (d.release s r).result = .ok (s.vacate r x none) := by
  have first := h.releaseFirst_eq_ok hx
  have urgent := h.releaseUrgent_eq_ok hx
  rw [hnone] at first urgent
  cases d with
  | ceiling => exact absurd rfl hd
  | inheritance => exact absurd rfl hd'
  | fcfs | sjf | stcf | roundRobin => exact first
  | priority | aging => exact urgent

end Discipline

namespace Scenario.Reaches

variable {sc : Scenario} {d : Discipline} {memory : Memory} {m m' : Machine Memory}

/-- Where a change of the table may change priorities too, it changes none if nobody waits: the
state after it is that before, `withResources` of the new table. -/
theorem eq_withResources (hsc : sc.Admitted) (hun : sc.Unshared)
    (h : sc.Reaches d.policy memory m) (hm : m.Steady sc) (h' : sc.Reaches d.policy memory m')
    (hm' : m'.phase.isSwitching = false) {xs : List Resource}
    (ht : (m.state.withResources xs).Repriced m'.state)
    (hplain : d ≠ .inheritance → m'.state = m.state.withResources xs) :
    m'.state = m.state.withResources xs := by
  by_cases hd : d = .inheritance
  · subst hd
    have hbase : m.state.AtBase := h.atBase_unshared hsc hun hm.isSwitching_eq_false
    exact ht.eq_of_atBase hm.stage.settled.ordered hbase (h'.atBase_unshared hsc hun hm')
  · exact hplain hd

end Scenario.Reaches

end Uniprocessor
