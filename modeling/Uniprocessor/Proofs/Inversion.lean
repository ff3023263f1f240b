import Uniprocessor.Proofs.Record
import Uniprocessor.Proofs.Urgency
import Uniprocessor.Proofs.Wakeup

/-!
# Priority inversion under inheritance

Inheritance is there so that nobody who waits is above the process that executes. The chain of
waiting from a blocked process leads to whom it waits for in the end, and that one has inherited its
priority. So there is no inversion when the chain ends at a process that is ready or executes, since
no ready process is above the one that executes.

But the chain may also end at a process that waits for a free resource. That resource has an heir,
who was woken because no waiter was above it; but it does not own the resource, and so inherits
nothing. If a request is refused before the heir asks again, a waiter may rise above the heir
(`Scenario.blocked_above_running`). This is the only way to an inversion: where nobody has been
refused anything since the resource was given back, the waiters are still not above the heir
(`Scenario.Admitted.prio_le_of_executing`).
-/

namespace Uniprocessor

open Narrated Relation

/-- Who was refused something by this happening, if somebody was. -/
def Happening.refused? : Happening → Option Pid
  | .refused p _ => some p
  | _ => none

/-- Whether the resource was given back. -/
def Happening.isReturnOf (r : ResourceId) : Happening → Bool
  | .released _ q => decide (q = r)
  | _ => false

/-- The process whose turn it is in the phase: it asks for what is due, or executes; `none` between
turns. -/
def Phase.turn? : Phase → Option Pid
  | .requesting pid _ | .executing pid => some pid
  | _ => none

namespace Machine

variable {sc : Scenario} {m m' : Machine Memory} {pid u w : Pid} {r : ResourceId} {n n' : Nat}

/-! ## Who was refused something -/

/-- Who was refused something since the resource was given back, the first first. -/
def refusedSince {σ : Type} (m : Machine σ) (r : ResourceId) : List Pid :=
  (m.since (Happening.isReturnOf r)).filterMap Happening.refused?

section RefusedSince

variable {σ : Type} {P : Policy σ} {limit : Nat} {m m' : Machine σ}

theorem refusedSince_congr (h : m'.dealings = m.dealings) :
    m'.refusedSince r = m.refusedSince r := by
  rw [refusedSince, since_congr h, refusedSince]

/-- Another dealing than that the resource is given back adds to `refusedSince` whom it refuses, and
nothing else. -/
theorem refusedSince_of_not_return {e : Happening} (h : m'.dealings = m.dealings ++ [e])
    (he : e.isReturnOf r = false) :
    m'.refusedSince r = m.refusedSince r ++ e.refused?.toList := by
  rw [refusedSince, since_of_not_mark h he, List.filterMap_append, refusedSince]
  cases e <;> rfl

/-- Who is in `refusedSince` of a resource stays there until that resource is given back again. -/
theorem Strides.mem_refusedSince (hstr : m.Strides P limit m')
    (hphase : ∀ pid waiters due, m.phase ≠ .releasing pid r waiters due)
    (hw : w ∈ m.refusedSince r) : w ∈ m'.refusedSince r := by
  have hdealt : ∀ {e}, m'.dealings = m.dealings ++ [e] → e.isReturnOf r = false →
      w ∈ m'.refusedSince r := fun h he => by
    rw [refusedSince_of_not_return h he]
    exact List.mem_append_left _ hw
  have hstr' := hstr
  cases hstr with
  | grant => exact hdealt (dealings_record _ _ rfl) rfl
  | refuse => exact hdealt (dealings_record _ _ rfl) rfl
  | @release pid r' waiters due x y memory t woken hphase' =>
    refine hdealt (dealings_release ..) (decide_eq_false ?_)
    rintro rfl
    exact hphase _ _ _ hphase'
  | _ hphase' => exact refusedSince_congr (hstr'.dealings (by rw [hphase']; rfl)) ▸ hw

end RefusedSince

/-! ## How priorities move -/

/-- While a process does not execute, its priority stays the same, unless a request is refused; then
it does not fall, and if it rises, the process has the priority of the one that was refused, which
waits for it. -/
theorem Steady.prioOf_strides (h : m.Steady sc) (hd : m.state.Donated) (hd' : m'.state.Donated)
    (hstr : m.Strides Discipline.inheritance.policy sc.limit m')
    (hlive : m.state.status? u ≠ none) (hu : m.state.status? u ≠ some .running) :
    m'.state.prioOf u = m.state.prioOf u ∨ ∃ w r, m'.dealings = m.dealings ++ [.refused w r] ∧
      m.state.prioOf u ≤ m'.state.prioOf u ∧ TransGen m'.state.WaitsFor w u ∧
      m'.state.prioOf w = m'.state.prioOf u := by
  -- The process is not the one that is called on, since that one executes.
  have hne : ∀ {caller}, m.state.status? caller = some .running → u ≠ caller := by
    rintro caller hrun rfl
    exact hu hrun
  have hswitch : ∀ {memory t next}, m.phase = .choosing →
      (Discipline.inheritance.choose m.memory m.state).result = .ok (memory, t, next) →
      (m.carriedOut memory t next).state.prioOf u = m.state.prioOf u := by
    intro memory t next hphase hP
    obtain ⟨memory', t', next', hok, -, hbid⟩ :=
      Discipline.inheritance.choose_eq_ok m.memory h.stage.settled
    rw [hP] at hok
    cases hok
    have hg : m.state.leaver? ≠ some u := fun hg =>
      hu ((h.stage_of hphase).status?_leaver hg)
    rw [carriedOut_state]
    exact State.prioOf_switched (hbid (by decide)) hg
  have hstr' := hstr
  cases hstr with
  | @arrive job rest hphase harrivals =>
    have hst := h.stage_of_arriving hphase harrivals
    have hnew : u ≠ job.pid := by
      rintro rfl
      exact hlive (by rw [State.status?, hst.process?_arrival]; rfl)
    exact Or.inl (State.prioOf_congr
      ((State.bid?_joined hst.process?_arrival u).trans (if_neg hnew)))
  | drain hphase hP => exact Or.inl (hswitch hphase hP)
  | idle hphase hP => exact Or.inl (hswitch hphase hP)
  | turn hphase hP => exact Or.inl (hswitch hphase hP)
  | grant hphase hp hs hcalls hx hP ht =>
    exact Or.inl ((hcalls.prioOf_give hx ht hd hd' u).2 (hne hcalls.running))
  | refuse hphase hcalls hx hown hP ht =>
    obtain ⟨hle, heq | ⟨hpath, heq⟩⟩ := hcalls.prioOf_park hx hown ht hd hd' u
    · exact Or.inl heq
    · exact Or.inr ⟨_, _, dealings_record _ _ rfl, hle, hpath, heq⟩
  | execute => exact Or.inl (State.prioOf_congr (congrFun State.bid?_adjust_age u))
  | release hphase =>
    obtain ⟨x, woken, -, hcalls, hx, -, ht, -, hwoken⟩ := hstr'.of_releasing hphase
    exact Or.inl (hcalls.prioOf_vacate hx hwoken ht hd hd' (hne hcalls.running))
  | _ => exact Or.inl rfl

/-- A process that does not execute does not fall: the part of `Steady.prioOf_strides` that bounds
need. -/
theorem Steady.prioOf_le_strides (h : m.Steady sc) (hd : m.state.Donated) (hd' : m'.state.Donated)
    (hstr : m.Strides Discipline.inheritance.policy sc.limit m')
    (hlive : m.state.status? u ≠ none) (hu : m.state.status? u ≠ some .running) :
    m.state.prioOf u ≤ m'.state.prioOf u := by
  rcases h.prioOf_strides hd hd' hstr hlive hu with heq | ⟨-, -, -, hle, -⟩
  · exact Nat.le_of_eq heq.symm
  · exact hle

/-- Whoever waits for a process that does not execute goes on to do so, directly or through others:
no process on the chain but the last may execute. -/
theorem Steady.transGen_strides {σ : Type} {P : Policy σ} {limit : Nat} {m m' : Machine σ}
    (h : m.Steady sc) (hstr : m.Strides P limit m') (hu : m.state.status? u ≠ some .running)
    (hpath : TransGen m.state.WaitsFor w u) : TransGen m'.state.WaitsFor w u := by
  induction hpath with
  | single hstep => exact .single (hstr.exchange.waitsFor hu hstep)
  | tail _ hstep ih =>
    refine (ih fun hrun => ?_).tail (hstr.exchange.waitsFor hu hstep)
    -- Who is on the way waits too, and does not execute.
    exact h.stage.settled.not_waitsFor_of_running hrun _ hstep

/-! ## The waiters of a free resource -/

/-- The process is not above `n`, or it has the priority of one in `refusedSince` of the resource
that waits for it, directly or through others. -/
def BoundedSince (m : Machine Memory) (r : ResourceId) (n : Nat) (u : Pid) : Prop :=
  m.state.prioOf u ≤ n ∨ ∃ w ∈ m.refusedSince r,
    TransGen m.state.WaitsFor w u ∧ m.state.prioOf w = m.state.prioOf u

/-- A blocked process stays within a bound that does not fall, until the resource is given back
again: if it rises, then by somebody who joins `refusedSince`. -/
theorem BoundedSince.strides (h : m.Steady sc) (h' : m'.Steady sc) (hd : m.state.Donated)
    (hd' : m'.state.Donated) (hstr : m.Strides Discipline.inheritance.policy sc.limit m')
    (hphase : ∀ pid waiters due, m.phase ≠ .releasing pid r waiters due)
    (hu : m.state.status? u = some .blocked) (hn : n ≤ n') (hb : m.BoundedSince r n u) :
    m'.BoundedSince r n' u := by
  have hrun : m.state.status? u ≠ some .running := by simp [hu]
  rcases h.prioOf_strides hd hd' hstr (by simp [hu]) hrun with
    heq | ⟨w, r', hdeal, -, hpath, hprio⟩
  · rcases hb with hle | ⟨w, hw, hpath, hprio⟩
    · exact Or.inl (heq ▸ Nat.le_trans hle hn)
    · -- The refused process waits too, so it neither falls nor rises above the one it waits for.
      have hpath' := h.transGen_strides hstr hrun hpath
      obtain ⟨z, ⟨r', hwaits, -⟩, -⟩ := TransGen.head'_iff.1 hpath
      have hblocked := h.stage.settled.status?_of_waits hwaits
      have hle := h.prioOf_le_strides (u := w) hd hd' hstr (by simp [hblocked]) (by simp [hblocked])
      refine Or.inr ⟨w, hstr.mem_refusedSince hphase hw, hpath', Nat.le_antisymm ?_ ?_⟩
      · exact hd'.prioOf_le_of_path h'.stage.settled hpath'.to_reflTransGen
      · rw [heq, ← hprio]
        exact hle
  · refine Or.inr ⟨w, ?_, hpath, hprio⟩
    rw [refusedSince_of_not_return hdeal rfl]
    exact List.mem_append_right _ (List.mem_singleton_self _)

/-- No ready process is above the one whose turn it is. -/
def Unsurpassed (m : Machine Memory) : Prop :=
  ∀ ⦃pid : Pid⦄, m.phase.turn? = some pid → ∀ z ∈ m.state.ready,
    m.state.prioOf z ≤ m.state.prioOf pid

/-- What keeps a machine `Unsurpassed`, for any policy: no ready process is above the chosen one,
whoever gets something does not fall, and nobody else is repriced. -/
theorem Unsurpassed.strides {P : Policy Memory} (hm : m.Steady sc) (h : m.Unsurpassed)
    (hchoose : ∀ {memory t pid}, (P.choose m.memory m.state).result = .ok (memory, t, some pid) →
      t.bid? = m.state.bid? ∧ ∀ z ∈ t.ready, m.state.prioOf z ≤ m.state.prioOf pid)
    (hgrant : ∀ {pid r x memory t}, m.state.Calls pid r x → x.owner = none →
      (P.acquire m.memory m.state r).result = .ok (memory, t, true) →
      (m.state.give r x pid).Repriced t → m'.state = t → ∀ z,
      m.state.prioOf z ≤ t.prioOf z ∧ (z ≠ pid → t.prioOf z = m.state.prioOf z))
    (hstr : m.Strides P sc.limit m') : m'.Unsurpassed := by
  intro pid ht z hz
  have hs := hm.stage.settled
  cases hstr with
  | @turn memory t chosen p script hphase hP hchose =>
    cases ht
    obtain ⟨hbid, htop⟩ := hchoose hP
    have hstay : m.state.leaver? ≠ some pid := fun hg =>
      hchose.ne_leaver hs hg ((hm.stage_of hphase).status?_leaver hg) rfl
    change z ∈ (m.carriedOut ..).state.ready at hz
    rw [carriedOut_state, State.ready_switched] at hz
    change (m.carriedOut ..).state.prioOf z ≤ (m.carriedOut ..).state.prioOf pid
    rw [carriedOut_state, State.prioOf_switched hbid hstay]
    exact Nat.le_trans (State.prioOf_switched_le hbid z) (htop z hz)
  | grant hphase hp hs' hcalls hx hP hrep =>
    cases ht
    have hz' : z ∈ m.state.ready := hrep.ready ▸ hz
    by_cases hne : z = pid
    · rw [hne]
    · have heq := (hgrant hcalls hx hP hrep rfl z).2 hne
      have hle := (hgrant hcalls hx hP hrep rfl pid).1
      exact heq ▸ Nat.le_trans (h (by rw [hphase]; rfl) z hz') hle
  | ready hphase =>
    cases ht
    exact h (by rw [hphase]; rfl) z hz
  | _ => cases ht

/-- Priorities are donated, no wake-up is lost, and where it matters the ranks are right. -/
structure Ranked (m : Machine Memory) : Prop where
  /-- priorities are donated -/
  donated : m.state.Donated
  /-- no wake-up is lost -/
  wakeful : m.Wakeful
  /-- no ready process is above the one whose turn it is -/
  turn : ∀ {pid : Pid}, m.phase.turn? = some pid → ∀ z ∈ m.state.ready,
    m.state.prioOf z ≤ m.state.prioOf pid
  /-- a free resource with waiters has an heir, and no waiter is above it but for what was refused
  since -/
  heir : ∀ {r : ResourceId} {x : Resource}, m.state.resources[r]? = some x → x.owner = none →
    x.waiters ≠ [] →
    ∃ pid, m.Heir pid r ∧ ∀ u ∈ x.waiters, m.BoundedSince r (m.state.prioOf pid) u

namespace Ranked

theorem initial (sc : Scenario) (memory : Memory) : (Machine.initial sc memory).Ranked where
  donated := donated_initial sc memory
  wakeful := .initial sc memory
  turn ht := by cases ht
  heir hx _ hne := by
    rw [State.eq_of_getElem?_empty hx] at hne
    exact absurd rfl hne

/-- A process gets its turn because no ready one is above it, and nobody overtakes it while it asks:
inheritance meets what `Unsurpassed.strides` asks for. -/
theorem turn_strides (h : m.Steady sc) (hr : m.Ranked) (hd' : m'.state.Donated)
    (hstr : m.Strides Discipline.inheritance.policy sc.limit m') : m'.Unsurpassed := by
  have hs := h.stage.settled
  refine Unsurpassed.strides h (fun _ => hr.turn) (fun {memory t pid} hP => ?_)
    (fun hcalls hx _ hrep ht => ?_) hstr
  · obtain ⟨t', choice, hok, -, hbid, htop⟩ := hs.preferUrgent_chose
    simp only [Discipline.policy, Discipline.choose, result_bind, hok, ok_bind] at hP
    cases hP
    exact ⟨hbid, htop pid rfl⟩
  · exact hcalls.prioOf_give hx hrep hr.donated (ht ▸ hd')

/-- A free resource keeps its `Heir`, and its waiters stay within the same bound, since the heir
does not fall and only refusals let anybody rise. -/
theorem heir_strides (h : m.Steady sc) (h' : m'.Steady sc) (hr : m.Ranked)
    (hd' : m'.state.Donated) (hstr : m.Strides Discipline.inheritance.policy sc.limit m')
    {y : Resource} (hy : m.state.resources[r]? = some y) (hfree : y.owner = none)
    (hne : y.waiters ≠ [])
    (hother : ∀ pid q rest, m.phase = .requesting pid (q :: rest) → q.resource ≠ r)
    (hphase : ∀ pid waiters due, m.phase ≠ .releasing pid r waiters due) :
    ∃ pid, m'.Heir pid r ∧ ∀ u ∈ y.waiters, m'.BoundedSince r (m'.state.prioOf pid) u := by
  obtain ⟨pid, hheir, hbound⟩ := hr.heir hy hfree hne
  have hready := h.ready_of_heir hheir (hother pid)
  refine ⟨pid, h.heir_of_ready hstr hready hheir.1, fun u hu => ?_⟩
  have hblocked := h.stage.settled.status?_of_waits ((State.waits_iff hy).2 hu)
  have hle := h.prioOf_le_strides (u := pid) hr.donated hd' hstr (by simp [hready])
    (by simp [hready])
  exact (hbound u hu).strides h h' hr.donated hd' hstr hphase hblocked hle

/-- When a resource is given back, the foremost of its waiters becomes its `Heir`, and no waiter is
above it then. -/
theorem heir_of_releasing (h : m.Steady sc) (hr : m.Ranked) (hd' : m'.state.Donated)
    (hstr : m.Strides Discipline.inheritance.policy sc.limit m') {caller : Pid} {waiters : Queue}
    {due : List ResourceId} (hphase : m.phase = .releasing caller r waiters due) {y : Resource}
    (hy : m'.state.resources[r]? = some y) (hne : y.waiters ≠ []) :
    ∃ pid, m'.Heir pid r ∧ ∀ u ∈ y.waiters, m'.BoundedSince r (m'.state.prioOf pid) u := by
  obtain ⟨x, -, memory, hcalls, hx, hP, -⟩ := hstr.of_releasing hphase
  obtain ⟨t, -, hok, hrep⟩ := hcalls.releaseInheriting_eq_ok hx
  simp only [Discipline.policy, Discipline.release, result_bind, hok, ok_bind] at hP
  obtain rfl : t = m'.state := congrArg Prod.snd (Except.ok.inj hP)
  -- Whoever waited keeps its priority, since only the caller is repriced.
  have hsame : ∀ {u}, u ∈ x.waiters → m'.state.prioOf u = m.state.prioOf u := fun {u} hu =>
    hcalls.prioOf_vacate hx (fun _ => State.mem_of_foremost) hrep hr.donated hd' fun he =>
      h.stage.settled.not_waits_of_running hcalls.running r
        (he ▸ (State.waits_iff hcalls.entry).2 hu)
  rcases hw : m.state.foremost x.waiters with _ | w
  · rw [hrep.resources, hw] at hy
    change (m.state.setResource r _).resources[r]? = some y at hy
    rw [State.getElem?_setResource hcalls.entry, if_pos rfl] at hy
    cases hy
    exact absurd (State.foremost_eq_none.1 hw) hne
  · have hmem := State.mem_of_foremost hw
    rw [hw] at hrep
    refine ⟨w, hr.wakeful.heir_of_releasing h hstr hcalls hrep hmem, fun u hu => Or.inl ?_⟩
    rw [hrep.resources] at hy
    change (m.state.setResource r _).resources[r]? = some y at hy
    rw [State.getElem?_setResource hcalls.entry, if_pos rfl] at hy
    cases hy
    rw [hsame (List.mem_of_mem_erase hu), hsame hmem]
    exact State.prioOf_le_foremost hw (List.mem_of_mem_erase hu)

/-- Every stride leaves a `Ranked` machine ranked: the parts are `turn_strides`, `heir_strides` and
`heir_of_releasing`. -/
theorem strides (hsc : sc.Sound) (h : m.Steady sc) (hr : m.Ranked)
    (hstr : m.Strides Discipline.inheritance.policy sc.limit m') : m'.Ranked := by
  have h' := h.strides hsc hstr
  have hd' := h.donated_strides hr.donated hstr
  exact {
    donated := hd'
    wakeful := hr.wakeful.strides h hstr
    turn := fun ht => hr.turn_strides h hd' hstr ht
    heir := fun {r y} hy hfree hne => by
      by_cases hphase : ∃ pid waiters due, m.phase = .releasing pid r waiters due
      · obtain ⟨pid, waiters, due, hphase⟩ := hphase
        exact hr.heir_of_releasing h hd' hstr hphase hy hne
      · obtain ⟨hold, hother⟩ := (hstr.exchange.entry_of_free hy hfree).resolve_right hphase
        exact hr.heir_strides h h' hd' hstr hold hfree hne hother
          fun pid waiters due he => hphase ⟨pid, waiters, due, he⟩ }

/-- While a process executes, nobody at whom a chain of waiting ends is above it, unless that one
waits for a free resource and has the priority of a process that was refused something since: it is
ready, executes itself, or is blocked behind an heir. -/
theorem prioOf_le_of_executing (h : m.Steady sc) (hr : m.Ranked) (hphase : m.phase = .executing pid)
    (hlast : ∀ z, ¬ m.state.WaitsFor u z) (hlive : ∃ p, m.state.process? u = some p) :
    m.state.prioOf u ≤ m.state.prioOf pid ∨ ∃ r, m.state.Waits u r ∧
      (∀ owner, ¬ m.state.Owns owner r) ∧ ∃ w ∈ m.refusedSince r,
        TransGen m.state.WaitsFor w u ∧ m.state.prioOf w = m.state.prioOf u := by
  have hs := h.stage.settled
  have hturn : ∀ z ∈ m.state.ready, m.state.prioOf z ≤ m.state.prioOf pid :=
    hr.turn (by rw [hphase]; rfl)
  obtain ⟨p, hp⟩ := hlive
  have hst := State.status?_of_process? hp
  cases hc : p.status with
  | ready => exact Or.inl (hturn u ((hs.mem_ready u).2 (hc ▸ hst)))
  | running =>
    -- Only one process executes.
    obtain ⟨hruns, -⟩ : Turn m.state m.scripts pid [] := h.fits_of hphase
    have hcur := hs.running_current (hc ▸ hst)
    rw [hruns.current] at hcur
    cases hcur
    exact Or.inl (Nat.le_refl _)
  | blocked =>
    obtain ⟨r, x, hx, hmem⟩ := (hs.blocked_iff u).1 (hc ▸ hst)
    have hfree : ∀ owner, ¬ m.state.Owns owner r := fun owner ho =>
      hlast owner ⟨r, ⟨x, hx, hmem⟩, ho⟩
    have howner : x.owner = none := Option.eq_none_iff_forall_not_mem.2 fun owner ho =>
      hfree owner ((State.owns_iff hx).2 ho)
    obtain ⟨heir, hheir, hbound⟩ := hr.heir hx howner (List.ne_nil_of_mem hmem)
    have hready := h.ready_of_heir hheir fun q rest hreq => by
      rw [hphase] at hreq
      cases hreq
    rcases hbound u hmem with hle | hrefused
    · exact Or.inl (Nat.le_trans hle (hturn heir ((hs.mem_ready heir).2 hready)))
    · exact Or.inr ⟨r, ⟨x, hx, hmem⟩, hfree, hrefused⟩

end Ranked

end Machine

namespace Scenario

variable {sc : Scenario} {m : Machine Memory}

/-- Under priority inheritance **inversion is bounded**: when a process executes, no live process is
above it, unless the chain of waiting from that one runs into a circular wait, or ends at a process
that waits for a free resource and has the priority of one that waits for it and is in
`refusedSince`: it was refused something since that resource was given back. -/
theorem Admitted.prio_le_of_executing (h : sc.Admitted) (memory : Memory)
    (hm : sc.Reaches Discipline.inheritance.policy memory m) {pid : Pid}
    (hphase : m.phase = .executing pid) {w : Pid} {p q : Process}
    (hw : m.state.process? w = some p) (hpid : m.state.process? pid = some q) :
    p.prio ≤ q.prio ∨
      (∃ c, m.state.CircularWait c ∧ ∃ u ∈ c, ReflTransGen m.state.WaitsFor w u) ∨
      ∃ u r, ReflTransGen m.state.WaitsFor w u ∧ m.state.Waits u r ∧
        (∀ owner, ¬ m.state.Owns owner r) ∧ ∃ x ∈ m.refusedSince r,
          TransGen m.state.WaitsFor x u ∧ m.state.prioOf x = m.state.prioOf u := by
  have hrest : m.phase.isSwitching = false := by
    rw [hphase]
    rfl
  have hsteady := hm.steady h Discipline.inheritance.lawful hrest
  have hranked : m.Ranked := hm.invariant h Discipline.inheritance.lawful
    (fun memory => Machine.Ranked.initial sc memory)
    (fun hm hI hstr => hI.strides h.sound hm hstr) hrest
  have hs := hsteady.stage.settled
  rcases hs.ends_or_circles w with ⟨u, hpath, hlast⟩ | hcircle
  · have hlive : ∃ p, m.state.process? u = some p := by
      rcases hpath.cases_tail with rfl | ⟨v, -, r, -, howns⟩
      · exact ⟨p, hw⟩
      · exact hs.process?_of_owns howns
    have hle := hranked.donated.prioOf_le_of_path hs hpath
    rw [State.prioOf_of_process? hw] at hle
    rw [← State.prioOf_of_process? hpid]
    rcases hranked.prioOf_le_of_executing hsteady hphase hlast hlive with hle' | ⟨r, hu, hfree, hx⟩
    · exact Or.inl (Nat.le_trans hle hle')
    · exact Or.inr (Or.inr ⟨u, r, hpath, hu, hfree, hx⟩)
  · exact Or.inr (Or.inl hcircle)

/-- Two resources and five processes. The second process gets one resource and waits for the other
one, as does the third. When that one is given back, the third process is woken; but before it can
ask again, the fourth is refused the resource of the second. -/
def overtaken : Scenario where
  resourceCount := 2
  ceiling := 9
  limit := 100
  jobs := [
    { pid := 1, lifespan := 4, prio := 1, requests := [⟨0, 0, 3⟩] },
    { pid := 2, start := 1, lifespan := 3, prio := 4, requests := [⟨1, 0, 3⟩, ⟨0, 1, 1⟩] },
    { pid := 3, start := 3, lifespan := 1, prio := 5, requests := [⟨0, 0, 1⟩] },
    { pid := 4, start := 4, lifespan := 1, prio := 9, requests := [⟨1, 0, 1⟩] },
    { pid := 5, start := 4, lifespan := 1, prio := 8 }]

theorem admitted_overtaken : overtaken.Admitted where
  built := ⟨⟨2, 9, 100, overtaken.jobs, 6⟩, rfl⟩
  lifespan_lt := by decide
  limit_le := by decide

/-- When the fifth process executes, the second one waits for a free resource and is above it. -/
theorem reaches_overtaken : ∃ m p q, overtaken.Reaches Discipline.inheritance.policy none m ∧
    m.phase = .executing 5 ∧ m.state.process? 2 = some p ∧ m.state.process? 5 = some q ∧
    p.status = .blocked ∧ p.prio = 9 ∧ q.prio = 8 ∧
    m.state.resources[0]? = some ⟨none, [2]⟩ :=
  ⟨_, _, _, .of_sorted (by decide) rfl 60, rfl, rfl, rfl, rfl, rfl, rfl, rfl⟩

/-- What puts the second process above the fifth is that somebody who waits for it was refused
something since the first resource was given back. -/
theorem prio_le_of_executing_overtaken :
    ∃ m, overtaken.Reaches Discipline.inheritance.policy none m ∧ m.phase = .executing 5 ∧
      ∃ x ∈ m.refusedSince 0, TransGen m.state.WaitsFor x 2 ∧ m.state.prioOf x = 9 := by
  obtain ⟨m, p, q, hm, hphase, hp, hq, -, hnine, height, hentry⟩ := reaches_overtaken
  have hsteady := hm.steady admitted_overtaken Discipline.inheritance.lawful (by rw [hphase]; rfl)
  have hs := hsteady.stage.settled
  have hmem : (2 : Pid) ∈ [2] := List.mem_singleton_self 2
  have hlast := hs.not_waitsFor_of_free hentry rfl hmem
  refine ⟨m, hm, hphase, ?_⟩
  rcases admitted_overtaken.prio_le_of_executing none hm hphase hp hq with
    hle | ⟨c, hc, u, hu, hpath⟩ | ⟨u, r, hpath, hwaits, -, x, hx, hxu, hprio⟩
  · rw [hnine, height] at hle
    exact absurd hle (by decide)
  · exact absurd hu (hc.not_mem_of_last hlast hpath)
  · rcases hpath.cases_head with rfl | ⟨z, hz, -⟩
    · rw [hs.waits_unique hwaits ⟨_, hentry, hmem⟩] at hx
      exact ⟨x, hx, hxu, hprio.trans ((State.prioOf_of_process? hp).trans hnine)⟩
    · exact absurd hz (hlast z)

/-- A blocked process may be above the one that executes, although its chain of waiting does not run
into a circular wait. -/
theorem blocked_above_running : overtaken.Admitted ∧
    ∃ m p q, overtaken.Reaches Discipline.inheritance.policy none m ∧ m.phase = .executing 5 ∧
      m.state.process? 2 = some p ∧ m.state.process? 5 = some q ∧ p.status = .blocked ∧
      q.prio < p.prio ∧
      ∀ c u, m.state.CircularWait c → ReflTransGen m.state.WaitsFor 2 u → u ∉ c := by
  obtain ⟨m, p, q, hm, hphase, hp, hq, hblocked, hnine, height, hentry⟩ := reaches_overtaken
  have hsteady := hm.steady admitted_overtaken Discipline.inheritance.lawful (by rw [hphase]; rfl)
  have hlast := hsteady.stage.settled.not_waitsFor_of_free hentry rfl (List.mem_singleton_self 2)
  exact ⟨admitted_overtaken, m, p, q, hm, hphase, hp, hq, hblocked, by rw [hnine, height]; decide,
    fun c u hc hpath => hc.not_mem_of_last hlast hpath⟩

end Scenario

end Uniprocessor
