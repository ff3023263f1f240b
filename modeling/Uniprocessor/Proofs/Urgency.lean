import Uniprocessor.Proofs.Inheritance

/-!
# How inherited priorities move

Where priorities are donated, a priority depends on who waits for the process, directly or through
others. So when resources change hands, it can change only where these do.

* Who gets a resource may rise, and who gives one back may fall; nobody else is repriced
  (`Calls.prioOf_give`, `Calls.prioOf_vacate`).
* When a request is refused, nobody falls, and whoever rises has the priority of the new waiter and
  is waited for by it (`Calls.prioOf_park`).
-/

namespace Uniprocessor

namespace State

open Relation

variable {s t : State} {pid u z : Pid} {r : ResourceId} {x : Resource}

/-- In a `Donated` state priorities do not fall along a chain of `WaitsFor`, with `prioOf` for the
priorities. -/
theorem Donated.prioOf_le_of_path (hs : s.Settled) (h : s.Donated)
    (hpath : ReflTransGen s.WaitsFor u z) : s.prioOf u ≤ s.prioOf z := by
  induction hpath with
  | refl => exact Nat.le_refl _
  | tail _ hedge ih =>
    obtain ⟨⟨⟨_, n⟩, hn⟩, ⟨_, n'⟩, hn'⟩ := hs.live_of_waitsFor hedge
    rw [prioOf_of_bid? hn] at ih
    rw [prioOf_of_bid? hn']
    exact Nat.le_trans ih (h.edge_le hedge hn hn')

/-- In a `Donated` state a priority is the base priority of somebody who waits for the process,
directly or through others, or of the process itself. -/
theorem Donated.exists_source (h : s.Donated) {b n : Nat} (hu : s.bid? u = some (b, n)) :
    ∃ w, ReflTransGen s.WaitsFor w u ∧ s.base? w = some n := by
  obtain ⟨w, k, hpath, hw⟩ := h.source hu
  refine ⟨w, hpath, ?_⟩
  rw [base?, hw]
  rfl

/-- In a `Donated` state nobody is below its base priority. -/
theorem Donated.le_prioOf (h : s.Donated) {b : Nat} (hb : s.base? u = some b) : b ≤ s.prioOf u := by
  obtain ⟨⟨b', n⟩, hbid, rfl⟩ := Option.map_eq_some_iff.1 hb
  rw [prioOf_of_bid? hbid]
  exact h.base_le hbid

/-- Between two `Donated` states, a process does not fall as long as everybody who waits for it goes
on to do so: its priority has a source among them. -/
theorem Donated.prioOf_le (hd : s.Donated) (ht : t.Settled) (hd' : t.Donated)
    (hbase : t.base? = s.base?)
    (hpath : ∀ w, ReflTransGen s.WaitsFor w u → ReflTransGen t.WaitsFor w u) :
    s.prioOf u ≤ t.prioOf u := by
  rcases hu : s.bid? u with _ | ⟨b, n⟩
  · rw [prioOf, hu]
    exact Nat.zero_le _
  · obtain ⟨w, hw, hbw⟩ := hd.exists_source hu
    rw [prioOf_of_bid? hu]
    exact Nat.le_trans (hd'.le_prioOf (hbase ▸ hbw)) (hd'.prioOf_le_of_path ht (hpath w hw))

/-- By a grant who gets the resource does not fall, and nobody else is repriced, since only who
waits for the new owner changes. -/
theorem Calls.prioOf_give (h : s.Calls pid r x) (hfree : x.owner = none)
    (hr : (s.give r x pid).Repriced t) (hd : s.Donated) (hd' : t.Donated) (u : Pid) :
    s.prioOf u ≤ t.prioOf u ∧ (u ≠ pid → t.prioOf u = s.prioOf u) := by
  have ht : t.Settled := hr.settled (h.settled.give h.entry h.running)
  have hbase : t.base? = s.base? := hr.base?
  have hedge : ∀ {u z}, t.WaitsFor u z ↔ s.WaitsFor u z ∨ (s.Waits u r ∧ z = pid) :=
    (waitsFor_congr hr.resources).trans (waitsFor_give h.entry hfree)
  have hle : s.prioOf u ≤ t.prioOf u := hd.prioOf_le ht hd' hbase fun w hw =>
    ReflTransGen.mono (fun _ _ hstep => hedge.2 (Or.inl hstep)) _ _ hw
  refine ⟨hle, fun hu => Nat.le_antisymm ?_ hle⟩
  -- The new edges lead to the caller, which waits for nobody.
  have hlast : ∀ z, ¬ t.WaitsFor pid z :=
    ht.not_waitsFor_of_running ((hr.status? pid).trans h.running)
  refine hd'.prioOf_le h.settled hd hbase.symm fun w hw => ?_
  exact reflTransGen_of_last (fun hz hstep => (hedge.1 hstep).resolve_right fun he => hz he.2)
    hlast hu hw

/-- By a return nobody is repriced but the one who gave the resource back, since nobody else is
waited for by fewer. -/
theorem Calls.prioOf_vacate (h : s.Calls pid r x) (hown : x.owner = some pid) {woken : Option Pid}
    (hwoken : ∀ w, woken = some w → w ∈ x.waiters) (hr : (s.vacate r x woken).Repriced t)
    (hd : s.Donated) (hd' : t.Donated) (hu : u ≠ pid) : t.prioOf u = s.prioOf u := by
  have hv := h.settled_vacate hwoken
  have ht : t.Settled := hr.settled hv
  have hbase : t.base? = s.base? := hr.base?.trans (base?_congr (bid?_vacate s r x woken))
  have hedge : ∀ {u z}, z ≠ pid → (t.WaitsFor u z ↔ s.WaitsFor u z) := fun hz =>
    (waitsFor_congr hr.resources).trans (waitsFor_vacate h hown hwoken hz)
  have hlast : ∀ z, ¬ s.WaitsFor pid z := h.settled.not_waitsFor_of_running h.running
  have hlast' : ∀ z, ¬ t.WaitsFor pid z :=
    ht.not_waitsFor_of_running ((hr.status? pid).trans (h.status?_vacate hwoken))
  refine Nat.le_antisymm (hd'.prioOf_le h.settled hd hbase.symm fun w hw => ?_)
    (hd.prioOf_le ht hd' hbase fun w hw => ?_)
  · exact reflTransGen_of_last (fun hz => (hedge hz).1) hlast' hu hw
  · exact reflTransGen_of_last (fun hz => (hedge hz).2) hlast hu hw

/-- By a refusal nobody falls, and whoever rises is waited for by the new waiter, directly or
through others, and has its priority. -/
theorem Calls.prioOf_park (h : s.Calls pid r x) {owner : Pid} (hown : x.owner = some owner)
    (hne : owner ≠ pid) (hr : (s.park r x pid).Repriced t) (hd : s.Donated) (hd' : t.Donated)
    (u : Pid) : s.prioOf u ≤ t.prioOf u ∧
      (t.prioOf u = s.prioOf u ∨ (TransGen t.WaitsFor pid u ∧ t.prioOf pid = t.prioOf u)) := by
  have hnot := h.not_owns hown hne
  have ht : t.Settled := hr.settled (h.settled.park h.entry h.running hnot)
  have hbase : t.base? = s.base? := hr.base?.trans (base?_congr (bid?_park s r x pid))
  have hedge : ∀ {u z}, t.WaitsFor u z ↔ s.WaitsFor u z ∨ (u = pid ∧ z = owner) :=
    (waitsFor_congr hr.resources).trans (waitsFor_park h.entry hown)
  have hle : s.prioOf u ≤ t.prioOf u := hd.prioOf_le ht hd' hbase fun w hw =>
    ReflTransGen.mono (fun _ _ hstep => hedge.2 (Or.inl hstep)) _ _ hw
  refine ⟨hle, or_iff_not_imp_left.2 fun hneq => ?_⟩
  have hlt : s.prioOf u < t.prioOf u := Nat.lt_of_le_of_ne hle fun he => hneq he.symm
  rcases hu : t.bid? u with _ | ⟨b, n⟩
  · rw [prioOf, prioOf, hu] at hlt
    exact absurd hlt (Nat.not_lt_zero _)
  · obtain ⟨w, hw, hbw⟩ := hd'.exists_source hu
    rw [prioOf_of_bid? hu] at hlt ⊢
    rcases reflTransGen_of_new (fun hstep => hedge.1 hstep) hw with hold | ⟨hto, hfrom⟩
    · -- The source waited for `u` before, so `u` was not below it.
      have hle' : n ≤ s.prioOf u :=
        Nat.le_trans (hd.le_prioOf (hbase ▸ hbw)) (hd.prioOf_le_of_path h.settled hold)
      exact absurd hle' (Nat.not_le.2 hlt)
    · refine ⟨hfrom, Nat.le_antisymm ?_ ?_⟩
      · have hend := hd'.prioOf_le_of_path ht hfrom.to_reflTransGen
        rwa [prioOf_of_bid? hu] at hend
      · exact Nat.le_trans (hd'.le_prioOf hbw) (hd'.prioOf_le_of_path ht hto)

end State

end Uniprocessor
