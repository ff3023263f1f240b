import Uniprocessor.Proofs.Answers
import Uniprocessor.Proofs.Refusals

/-!
# Who gets a resource out of turn

Without priorities a wait queue is served from its head, and whoever comes has to line up behind
those who wait. Still a process may get a resource for which it asks later than another one that
waits. Giving a resource back hands nothing over: the first waiter is woken and has to come back to
ask again, and until then whoever asks gets the resource. If it is the woken process that is passed
over in this way, it has to line up again, now at the tail.

There is no other way. As long as a process that was refused a resource waits for it, those before
it in the queue asked before it did, and so did whoever was called to the resource last
(`Machine.Standing`). So whoever overtakes it gets the resource when somebody else has been called,
or finds that it was passed over before (`Scenario.Admitted.overtakes_only_past_called`). Where
nobody is preempted nobody is refused anything, and nobody is overtaken.
-/

namespace Uniprocessor

namespace History

variable {h before mid later more : List Happening} {p q v w : Pid} {r : ResourceId}

/-- The process was the last to be woken from the resource, and nobody has got it since: it is up to
this one to ask again. -/
def Called (h : List Happening) (w : Pid) (r : ResourceId) : Prop :=
  ∃ front back, h = front ++ .woken w r :: back ∧ ∀ e ∈ back, e.getter? r = none

/-- The process was woken from the resource, and the next to get it was another one: it had been
`Called`. -/
def PassedOver (h : List Happening) (p : Pid) (r : ResourceId) : Prop :=
  ∃ front back rest x, h = front ++ .woken p r :: (back ++ .acquired x r :: rest) ∧
    (∀ e ∈ back, e.getter? r = none) ∧ x ≠ p

/-- After `before` has happened, `p` is refused the resource for the first time for a request, and
when `mid` has happened as well, `q` gets it for a request for which it asks later, while that of
`p` has still not been granted. -/
structure Overtakes (h before mid : List Happening) (p q : Pid) (r : ResourceId) : Prop where
  /-- it is a part of the history -/
  within : ∃ after, h = before ++ .refused p r :: (mid ++ .acquired q r :: after)
  /-- they are two processes -/
  ne : q ≠ p
  /-- the one has not asked at this age before -/
  first : (r, before.count (.executed p)) ∉ asked before p
  /-- the other had not asked by then at the age at which it gets the resource -/
  later : (r, (before ++ .refused p r :: mid).count (.executed q)) ∉ asked before q
  /-- the one has not got what it was refused -/
  ungranted : (r, before.count (.executed p)) ∉ got (before ++ .refused p r :: mid) p

/-- The process had asked for the resource `early` on, at the age that it still has, so it asks for
the same request. -/
def AsksSince (early h : List Happening) (v : Pid) (r : ResourceId) : Prop :=
  (r, h.count (.executed v)) ∈ asked early v

theorem Called.append (h : Called later w r) (hmore : ∀ e ∈ more, e.getter? r = none) :
    Called (later ++ more) w r := by
  obtain ⟨front, back, rfl, hback⟩ := h
  refine ⟨front, back ++ more, by simp, fun e he => ?_⟩
  exact (List.mem_append.1 he).elim (hback e) (hmore e)

/-- Whoever gets the resource when another one is `Called` passes it over. -/
theorem Called.passedOver (h : Called later p r) (hne : q ≠ p) :
    PassedOver (later ++ [.acquired q r]) p r := by
  obtain ⟨front, back, rfl, hback⟩ := h
  exact ⟨front, back, [], q, by simp, hback, hne⟩

theorem PassedOver.append (h : PassedOver later p r) (more : List Happening) :
    PassedOver (later ++ more) p r := by
  obtain ⟨front, back, rest, x, rfl, hback, hne⟩ := h
  exact ⟨front, back, rest ++ more, x, by simp, hback, hne⟩

/-- Whoever is refused a resource has `asked` for it, and that stays so. -/
theorem asksSince_refused (before later : List Happening) (p : Pid) (r : ResourceId) :
    (r, before.count (.executed p)) ∈ asked (before ++ .refused p r :: later) p := by
  rw [List.append_cons]
  refine mem_asked_append ?_ later
  rw [asked_concat]
  simp [Happening.asked?]

end History

namespace Machine

open History

variable {σ : Type} {sc : Scenario} {P : Policy σ} {m m' : Machine σ}
  {before later : List Happening}
  {p : Pid} {r : ResourceId}

/-- A process that has asked for something at its present age and does not own it does not execute:
what it asked for is still due. -/
theorem Requested.owns_of_executing (h : m.Requested sc) (hsc : sc.Sound) (hc : m.Chronicled)
    (hm : m.Steady sc) {pid : Pid} {c : Process} {script : Script}
    (hphase : m.phase = .executing pid) (hp : m.state.process? pid = some c)
    (hs : m.scripts.find? pid = some script) (hdue : script.due c.age = [])
    (hasks : AsksSince m.history m.history pid r) : m.state.Owns pid r := by
  have hst : Stage sc m.state m.scripts m.arrivals fun _ => [] := hm.stage_of hphase
  obtain ⟨job, hjob, hpid, q, hq, rfl, hage⟩ := h _ _ _ hasks
  obtain ⟨job', hjob', hpid', hplays⟩ := hst.plays_of_find? hp hs
  obtain rfl := hsc.eq_of_pid hjob hjob' (hpid.trans hpid'.symm)
  refine hst.owns_iff.2 ⟨script, hs, ?_⟩
  rw [List.append_nil]
  by_contra hfree
  have hnow : q.due = c.age := hage.trans (hc.told.of_process? hp).2.2
  have hmem : q ∈ script.due c.age := hplays.mem_due.2 ⟨hq, hnow, hfree⟩
  rw [hdue] at hmem
  cases hmem

/-- Where a process stands that was refused the resource after `before`, and has not got it in what
came `later`: it waits, it is called, or it was passed over. -/
inductive Standing (m : Machine σ) (before later : List Happening) (p : Pid) (r : ResourceId) : Prop
  /-- it waits: whoever is before it had asked before it, and so had whoever is called, if the
  resource is free -/
  | waiting {x : Resource} {ahead behind : Queue} (hx : m.state.resources[r]? = some x)
      (hqueue : x.waiters = ahead ++ p :: behind)
      (hage : m.history.count (.executed p) = before.count (.executed p))
      (hahead : ∀ v ∈ ahead, AsksSince before m.history v r)
      (hfree : x.owner = none → ∃ w, Called later w r ∧ AsksSince before m.history w r)
  /-- it is called, and the resource is free -/
  | called {x : Resource} (hx : m.state.resources[r]? = some x) (hfree : x.owner = none)
      (hage : m.history.count (.executed p) = before.count (.executed p))
      (hcalled : Called later p r)
  /-- it was called and passed over -/
  | passed (hpassed : PassedOver later p r)

namespace Standing

/-- Where the resource is not dealt in, and nobody executes who asks for it, `Standing` is kept: its
wait queue and the dealings that it is told by are the same. -/
theorem keep (h : m.Standing before later p r) (hm : m.Steady sc)
    (heq : m.history = before ++ .refused p r :: later) {more : List Happening}
    (hentry : m'.state.resources[r]? = m.state.resources[r]?)
    (hnone : ∀ e ∈ more, e.getter? r = none)
    (hstill : ∀ v, AsksSince m.history m.history v r → ¬ m.state.Owns v r →
      m'.history.count (.executed v) = m.history.count (.executed v)) :
    m'.Standing before (later ++ more) p r := by
  have hpre : ∀ {v}, AsksSince before m.history v r → AsksSince m.history m.history v r := by
    intro v hv
    have hv' := mem_asked_append hv (.refused p r :: later)
    rwa [← heq] at hv'
  have hself : m.history.count (.executed p) = before.count (.executed p) →
      AsksSince m.history m.history p r := by
    intro hage
    rw [AsksSince, hage, heq]
    exact asksSince_refused before later p r
  have hkeep : ∀ {v}, AsksSince before m.history v r → ¬ m.state.Owns v r →
      AsksSince before m'.history v r := by
    intro v hv hfree
    rw [AsksSince, hstill v (hpre hv) hfree]
    exact hv
  cases h with
  | @waiting x ahead behind hx hqueue hage hahead hfree =>
    have hapart : ∀ {v}, v ∈ ahead ++ p :: behind → ¬ m.state.Owns v r := by
      intro v hv howns
      exact hm.stage.settled.owner_apart howns ((State.waits_iff hx).2 (hqueue ▸ hv))
    refine .waiting (hentry.trans hx) hqueue ?_ (fun v hv => ?_) fun hnobody => ?_
    · exact (hstill p (hself hage) (hapart (by simp))).trans hage
    · exact hkeep (hahead v hv) (hapart (by simp [hv]))
    · obtain ⟨w, hcalled, hw⟩ := hfree hnobody
      refine ⟨w, hcalled.append hnone, hkeep hw fun howns => ?_⟩
      rw [State.owns_iff hx, hnobody] at howns
      cases howns
  | called hx hfree hage hcalled =>
    refine .called (hentry.trans hx) hfree ?_ (hcalled.append hnone)
    refine (hstill p (hself hage) fun howns => ?_).trans hage
    rw [State.owns_iff hx, hfree] at howns
    cases howns
  | passed hpassed => exact .passed (hpassed.append more)

/-- Whoever else gets the resource passes over the process, if that was `Called`; a process that
waits goes on waiting. So a grant to others keeps `Standing`. -/
theorem grant (h : m.Standing before later p r) {caller : Pid} {x : Resource}
    (hcalls : m.state.Calls caller r x)
    (ht : (m.state.give r x caller).Repriced m'.state)
    (hhistory : m'.history = m.history ++ [.acquired caller r])
    (hungranted : (r, before.count (.executed p)) ∉ got m'.history p) :
    m'.Standing before (later ++ [.acquired caller r]) p r := by
  have hentry : m'.state.resources[r]? = some { x with owner := some caller } := by
    rw [ht.resources, State.give, State.getElem?_setResource hcalls.entry, if_pos rfl]
  have hcount : ∀ v, m'.history.count (.executed v) = m.history.count (.executed v) := fun v => by
    rw [hhistory]
    exact count_executed_append _ _ (by simp [Happening.isOfResource])
  cases h with
  | waiting hx hqueue hage hahead hfree =>
    cases hcalls.entry.symm.trans hx
    refine .waiting hentry hqueue ((hcount p).trans hage) (fun v hv => ?_)
      fun hnobody => absurd hnobody (Option.some_ne_none _)
    rw [AsksSince, hcount]
    exact hahead v hv
  | called hx hfree hage hcalled =>
    refine .passed (hcalled.passedOver ?_)
    rintro rfl
    refine hungranted ?_
    rw [hhistory, got_acquired, if_pos rfl, hage]
    exact List.mem_append_right _ (List.mem_singleton_self _)
  | passed hpassed => exact .passed (hpassed.append _)

/-- Whoever else is refused the resource lines up behind the process, so those before it are the
same and `Standing` is kept. -/
theorem refuse (h : m.Standing before later p r) {caller owner : Pid} {x : Resource}
    (hcalls : m.state.Calls caller r x) (hx : x.owner = some owner)
    (ht : (m.state.park r x caller).Repriced m'.state)
    (hhistory : m'.history = m.history ++ [.refused caller r]) :
    m'.Standing before (later ++ [.refused caller r]) p r := by
  have hentry : m'.state.resources[r]? = some { x with waiters := x.waiters ++ [caller] } := by
    rw [ht.resources]
    change (m.state.setResource r _).resources[r]? = _
    rw [State.getElem?_setResource hcalls.entry, if_pos rfl]
  have hcount : ∀ v, m'.history.count (.executed v) = m.history.count (.executed v) := fun v => by
    rw [hhistory]
    exact count_executed_append _ _ (by simp [Happening.isOfResource])
  cases h with
  | @waiting _ ahead behind hx' hqueue hage hahead hfree =>
    cases hcalls.entry.symm.trans hx'
    have hqueue' : x.waiters ++ [caller] = ahead ++ p :: (behind ++ [caller]) := by simp [hqueue]
    refine .waiting hentry hqueue' ((hcount p).trans hage) (fun v hv => ?_) fun hnobody => ?_
    · rw [AsksSince, hcount]
      exact hahead v hv
    · cases hx.symm.trans hnobody
  | called hx' hfree =>
    cases hcalls.entry.symm.trans hx'
    cases hx.symm.trans hfree
  | passed hpassed => exact .passed (hpassed.append _)

/-- Of those who wait, the first is `Called` when the resource is given back, and all others move
up: `Standing` is kept. -/
theorem release (h : m.Standing before later p r) {caller : Pid} {x : Resource}
    {woken : Option Pid} (hcalls : m.state.Calls caller r x) (hx : x.owner = some caller)
    (ht : (m.state.vacate r x woken).Repriced m'.state) (hwoken : woken = x.waiters.head?)
    (hhistory : m'.history =
      m.history ++ .released caller r :: woken.toList.map fun w => .woken w r) :
    m'.Standing before
      (later ++ .released caller r :: woken.toList.map fun w => .woken w r) p r := by
  have hcount : ∀ v, m'.history.count (.executed v) = m.history.count (.executed v) := fun v => by
    rw [hhistory]
    exact count_executed_append _ _ (isOfResource_of_release _ _ _)
  cases h with
  | @waiting _ ahead behind hx' hqueue hage hahead hfree =>
    cases hcalls.entry.symm.trans hx'
    have hentry : ∀ w rest, x.waiters = w :: rest → m'.state.resources[r]? = some ⟨none, rest⟩ := by
      intro w rest hw
      rw [ht.resources, hwoken, hw]
      change (m.state.setResource r _).resources[r]? = _
      rw [State.getElem?_setResource hcalls.entry, if_pos rfl, hw, List.erase_cons_head]
    have hcalled : ∀ w rest, x.waiters = w :: rest →
        Called (later ++ .released caller r :: woken.toList.map fun w => .woken w r) w r := by
      intro w rest hw
      rw [hwoken, hw]
      exact ⟨later ++ [.released caller r], [], by simp, fun e he => absurd he List.not_mem_nil⟩
    cases ahead with
    | nil =>
      exact .called (hentry p behind hqueue) rfl ((hcount p).trans hage) (hcalled p behind hqueue)
    | cons w rest =>
      refine .waiting (hentry w _ hqueue) rfl ((hcount p).trans hage) (fun v hv => ?_)
        fun _ => ⟨w, hcalled w _ hqueue, ?_⟩
      · rw [AsksSince, hcount]
        exact hahead v (List.mem_cons_of_mem _ hv)
      · rw [AsksSince, hcount]
        exact hahead w (List.mem_cons_self ..)
  | called hx' hfree =>
    cases hcalls.entry.symm.trans hx'
    cases hx.symm.trans hfree
  | passed hpassed => exact .passed (hpassed.append _)

/-- Whoever gets a free resource while the process is `Standing` in line had asked for it before, or
somebody else was called, or the process was passed over. -/
theorem overtakes (h : m.Standing before later p r) {q : Pid} {x : Resource} (hne : q ≠ p)
    (hx : m.state.resources[r]? = some x) (hfree : x.owner = none)
    (hnew : ¬ AsksSince before m.history q r) :
    PassedOver later p r ∨ ∃ w, w ≠ q ∧ Called later w r := by
  cases h with
  | waiting hx' hqueue hage hahead hnobody =>
    cases hx.symm.trans hx'
    obtain ⟨w, hcalled, hw⟩ := hnobody hfree
    refine Or.inr ⟨w, ?_, hcalled⟩
    rintro rfl
    exact hnew hw
  | called _ _ _ hcalled => exact Or.inr ⟨p, hne.symm, hcalled⟩
  | passed hpassed => exact Or.inl hpassed

end Standing

/-- Everybody who was refused something and has not got it is `Standing`, and nobody has overtaken
another one but past somebody who was called. -/
structure Orderly (m : Machine σ) : Prop where
  /-- whoever waits has asked at its present age -/
  waiter : ∀ {v : Pid} {r : ResourceId}, m.state.Waits v r → AsksSince m.history m.history v r
  /-- whoever was refused something and has not got it stands in line -/
  standing : ∀ {before later : List Happening} {p : Pid} {r : ResourceId},
    m.history = before ++ .refused p r :: later →
    (r, before.count (.executed p)) ∉ got m.history p → m.Standing before later p r
  /-- whoever overtook another one did so past somebody who was called -/
  turn : ∀ {before mid : List Happening} {p q : Pid} {r : ResourceId},
    Overtakes m.history before mid p q r → PassedOver mid p r ∨ ∃ w, w ≠ q ∧ Called mid w r

namespace Orderly

theorem initial (sc : Scenario) (memory : σ) : (Machine.initial sc memory).Orderly where
  waiter hw := absurd hw State.not_waits_empty
  standing heq := by simp [history, Machine.initial] at heq
  turn hover := by
    obtain ⟨after, heq⟩ := hover.within
    simp [history, Machine.initial] at heq

/-- What is recorded must keep everybody `Standing`, and put into line whoever it refuses something:
the general step behind all others here. -/
theorem extend (h : m.Orderly) {more : List Happening} (hhistory : m'.history = m.history ++ more)
    (hwaiter : ∀ {v r}, m'.state.Waits v r → AsksSince m'.history m'.history v r)
    (hold : ∀ {before later p r}, m.history = before ++ .refused p r :: later →
      (r, before.count (.executed p)) ∉ got m'.history p → m.Standing before later p r →
      m'.Standing before (later ++ more) p r)
    (hnew : ∀ {front later p r}, more = front ++ .refused p r :: later →
      m'.Standing (m.history ++ front) later p r)
    (hturn : ∀ {front after q r}, more = front ++ .acquired q r :: after →
      front = [] ∧ ∃ x, m.state.resources[r]? = some x ∧ x.owner = none) : m'.Orderly := by
  have hgot : ∀ {g p}, g ∉ got m'.history p → g ∉ got m.history p := by
    intro g p hg hmem
    rw [hhistory, got, dated_append] at hg
    exact hg (List.mem_append_left _ hmem)
  refine ⟨hwaiter, fun heq hungranted => ?_, fun {before mid p q r} hover => ?_⟩
  · rw [hhistory] at heq
    rcases append_eq_append_cons heq with ⟨mid, hmid, rfl⟩ | ⟨front, rfl, hmore⟩
    · exact hold hmid hungranted (h.standing hmid (hgot hungranted))
    · exact hnew hmore
  · obtain ⟨after, heq⟩ := hover.within
    have heq' : m.history ++ more =
        (before ++ .refused p r :: mid) ++ .acquired q r :: after := by
      rw [← hhistory, heq]
      simp
    rcases append_eq_append_cons heq' with ⟨rest, hrest, -⟩ | ⟨front, hfront, hmore⟩
    · exact h.turn ⟨⟨rest, by simpa using hrest⟩, hover.ne, hover.first, hover.later,
        hover.ungranted⟩
    · obtain ⟨rfl, x, hx, hfree⟩ := hturn hmore
      rw [List.append_nil] at hfront
      refine (h.standing hfront.symm (hfront ▸ hover.ungranted)).overtakes hover.ne hx hfree ?_
      exact hfront ▸ hover.later

/-- Where nothing is asked for, nobody new is in line and nobody is overtaken, so only `Standing`
has to be kept. -/
theorem of_none_asked (h : m.Orderly) {more : List Happening}
    (hhistory : m'.history = m.history ++ more) (hnone : ∀ e ∈ more, ∀ pid, e.asked? pid = none)
    (hwaiter : ∀ {v r}, m'.state.Waits v r → m.state.Waits v r ∧
      m'.history.count (.executed v) = m.history.count (.executed v))
    (hold : ∀ {before later p r}, m.history = before ++ .refused p r :: later →
      m.Standing before later p r → m'.Standing before (later ++ more) p r) : m'.Orderly := by
  refine h.extend hhistory (fun {v r} hw => ?_) (fun heq _ => hold heq)
    (fun {front later p r} hmore => ?_) fun {front after q r} hmore => ?_
  · obtain ⟨hw, hcount⟩ := hwaiter hw
    rw [AsksSince, hcount, hhistory]
    exact mem_asked_append (h.waiter hw) more
  · have := hnone (.refused p r) (hmore ▸ List.mem_append_right _ (List.mem_cons_self ..)) p
    simp [Happening.asked?] at this
  · have := hnone (.acquired q r) (hmore ▸ List.mem_append_right _ (List.mem_cons_self ..)) q
    simp [Happening.asked?] at this

/-- Where resources stay the same and nothing is dealt in, a machine stays `Orderly`, by
`Standing.keep`. -/
theorem of_resources (h : m.Orderly) (hm : m.Steady sc) {more : List Happening}
    (hhistory : m'.history = m.history ++ more) (hnone : ∀ e ∈ more, e.isOfResource = false)
    (hres : m'.state.resources = m.state.resources)
    (hstill : ∀ v r, AsksSince m.history m.history v r → ¬ m.state.Owns v r →
      m'.history.count (.executed v) = m.history.count (.executed v)) : m'.Orderly := by
  have hunheard : ∀ e ∈ more, (∀ pid, e.asked? pid = none) ∧ ∀ r, e.getter? r = none := by
    intro e he
    have := hnone e he
    cases e <;> first | exact ⟨fun _ => rfl, fun _ => rfl⟩ | cases this
  refine h.of_none_asked hhistory (fun e he => (hunheard e he).1) (fun {v r} hw => ?_)
    fun {before later p r} heq hstanding => ?_
  · rw [State.waits_congr hres] at hw
    exact ⟨hw, hstill v r (h.waiter hw) fun howns => hm.stage.settled.owner_apart howns hw⟩
  · exact hstanding.keep hm heq (by rw [hres]) (fun e he => (hunheard e he).2 r)
      fun v => hstill v r

/-- A grant leaves the line as it is, and whoever is granted something out of turn found somebody
else called, by `Standing.overtakes`. -/
theorem grant (h : m.Orderly) (hm : m.Steady sc) {caller : Pid} {s : ResourceId} {x : Resource}
    (hcalls : m.state.Calls caller s x) (hx : x.owner = none)
    (ht : (m.state.give s x caller).Repriced m'.state)
    (hhistory : m'.history = m.history ++ [.acquired caller s]) : m'.Orderly := by
  have hcount : ∀ v, m'.history.count (.executed v) = m.history.count (.executed v) := fun v => by
    rw [hhistory]
    exact count_executed_append _ _ (by simp [Happening.isOfResource])
  refine h.extend hhistory (fun {v r} hw => ?_)
    (fun {before later p r} heq hungranted hstanding => ?_)
    (fun {front later p r} hmore => ?_) fun {front after q r} hmore => ?_
  · rw [State.waits_congr ht.resources, State.waits_give hcalls.entry] at hw
    rw [AsksSince, hcount, hhistory]
    exact mem_asked_append (h.waiter hw) _
  · by_cases hr : r = s
    · subst hr
      exact hstanding.grant hcalls ht hhistory hungranted
    · refine hstanding.keep hm heq ?_ (by simp [Happening.getter?, Ne.symm hr])
        fun v _ _ => hcount v
      rw [ht.resources, State.give, State.getElem?_setResource hcalls.entry, if_neg hr]
  · obtain ⟨-, he⟩ | ⟨-, he⟩ := List.singleton_eq_append_iff.1 hmore <;> cases he
  · obtain ⟨rfl, he⟩ | ⟨-, he⟩ := List.singleton_eq_append_iff.1 hmore <;> cases he
    exact ⟨rfl, x, hcalls.entry, hx⟩

/-- Whoever is refused something stands in line behind those who wait for it, by `Standing.refuse`
for those. -/
theorem refuse (h : m.Orderly) (hm : m.Steady sc) {caller owner : Pid} {s : ResourceId}
    {x : Resource} (hcalls : m.state.Calls caller s x) (hx : x.owner = some owner)
    (ht : (m.state.park s x caller).Repriced m'.state)
    (hhistory : m'.history = m.history ++ [.refused caller s]) : m'.Orderly := by
  have hcount : ∀ v, m'.history.count (.executed v) = m.history.count (.executed v) := fun v => by
    rw [hhistory]
    exact count_executed_append _ _ (by simp [Happening.isOfResource])
  have hentry : ∀ q, m'.state.resources[q]? =
      if q = s then some { x with waiters := x.waiters ++ [caller] }
      else m.state.resources[q]? := by
    intro q
    rw [ht.resources]
    exact State.getElem?_setResource hcalls.entry q
  refine h.extend hhistory (fun {v r} hw => ?_) (fun {before later p r} heq _ hstanding => ?_)
    (fun {front later p r} hmore => ?_) fun {front after q r} hmore => ?_
  · rw [State.waits_congr ht.resources, State.waits_park hcalls.entry] at hw
    rw [AsksSince, hcount, hhistory]
    rcases hw with hw | ⟨rfl, rfl⟩
    · exact mem_asked_append (h.waiter hw) _
    · exact asksSince_refused m.history [] v r
  · by_cases hr : r = s
    · subst hr
      exact hstanding.refuse hcalls hx ht hhistory
    · refine hstanding.keep hm heq ?_ (by simp [Happening.getter?]) fun v _ _ => hcount v
      rw [hentry, if_neg hr]
  · obtain ⟨rfl, he⟩ | ⟨-, he⟩ := List.singleton_eq_append_iff.1 hmore <;> cases he
    rw [List.append_nil]
    have hqueue : x.waiters ++ [caller] = x.waiters ++ caller :: [] := rfl
    refine .waiting ((hentry s).trans (if_pos rfl)) hqueue (hcount _) (fun v hv => ?_)
      fun hnobody => absurd (hx.symm.trans hnobody) (Option.some_ne_none _)
    rw [AsksSince, hcount]
    exact h.waiter ((State.waits_iff hcalls.entry).2 hv)
  · obtain ⟨-, he⟩ | ⟨-, he⟩ := List.singleton_eq_append_iff.1 hmore <;> cases he

/-- When a resource is given back, its first waiter is called, by `Standing.release`. -/
theorem release (h : m.Orderly) (hm : m.Steady sc) {caller : Pid} {s : ResourceId} {x : Resource}
    {woken : Option Pid} (hcalls : m.state.Calls caller s x) (hx : x.owner = some caller)
    (ht : (m.state.vacate s x woken).Repriced m'.state) (hwoken : woken = x.waiters.head?)
    (hhistory : m'.history =
      m.history ++ .released caller s :: woken.toList.map fun w => .woken w s) : m'.Orderly := by
  have hcount : ∀ v, m'.history.count (.executed v) = m.history.count (.executed v) := fun v => by
    rw [hhistory]
    exact count_executed_append _ _ (isOfResource_of_release _ _ _)
  have hunheard : ∀ e ∈ Happening.released caller s :: woken.toList.map fun w => .woken w s,
      (∀ pid, e.asked? pid = none) ∧ ∀ r, e.getter? r = none := by
    intro e he
    rcases List.mem_cons.1 he with rfl | he
    · exact ⟨fun _ => rfl, fun _ => rfl⟩
    · obtain ⟨w, -, rfl⟩ := List.mem_map.1 he
      exact ⟨fun _ => rfl, fun _ => rfl⟩
  refine h.of_none_asked hhistory (fun e he => (hunheard e he).1) (fun {v r} hw => ⟨?_, hcount v⟩)
    fun {before later p r} heq hstanding => ?_
  · rw [State.waits_congr ht.resources] at hw
    rcases hc : woken with _ | w <;> rw [hc] at hw
    · exact (State.waits_vacate_none hcalls.entry).1 hw
    · have hmem : w ∈ x.waiters := List.mem_of_head? (hwoken.symm.trans hc)
      exact ((State.waits_vacate_some hcalls.settled hcalls.entry hmem).1 hw).1
  · by_cases hr : r = s
    · subst hr
      exact hstanding.release hcalls hx ht hwoken hhistory
    · refine hstanding.keep hm heq ?_ (fun e he => (hunheard e he).2 r) fun v _ _ => hcount v
      rw [ht.resources]
      cases woken <;> exact (State.getElem?_setResource hcalls.entry r).trans (if_neg hr)

/-- Every episode in which the first waiter is woken, if somebody is, leaves a machine `Orderly`:
each case is one of the steps above. -/
theorem episode (h : m.Orderly) (hsc : sc.Sound) (hasked : m.Requested sc) (hc : m.Chronicled)
    (hm : m.Steady sc) (hep : m.Episode P m')
    (hfirst : ∀ {pid r waiters due x woken}, m.phase = .releasing pid r waiters due →
      m.state.Calls pid r x → x.owner = some pid →
      (m.state.vacate r x woken).Repriced m'.state → woken = x.waiters.head?) : m'.Orderly := by
  have hsame : ∀ {more : List Happening}, (∀ v, .executed v ∉ more) →
      m'.history = m.history ++ more → ∀ v,
      m'.history.count (.executed v) = m.history.count (.executed v) := by
    intro more hmore hhistory v
    rw [hhistory, List.count_append, List.count_eq_zero_of_not_mem (hmore v), Nat.add_zero]
  cases hep with
  | quiet _ hresources _ _ _ hhistory =>
    refine h.of_resources hm (hhistory.trans (List.append_nil _).symm)
      (fun e he => absurd he List.not_mem_nil) hresources fun v _ _ _ => ?_
    rw [hhistory]
  | arrive _ _ hstate _ _ hhistory =>
    exact h.of_resources hm hhistory (by simp [Happening.isOfResource]) (by rw [hstate]; rfl)
      fun v _ _ _ => hsame (by simp) hhistory v
  | choose _ _ hchose hstate _ _ _ hidle hhistory =>
    have hmem := eq_of_mem_choice m.state.leaver? hidle
    refine h.of_resources hm hhistory (fun e he => ?_)
      (by rw [hstate, State.resources_switched, hchose.resources])
      fun v _ _ _ => hsame (fun w hw => ?_) hhistory v
    · rcases hmem e he with rfl | ⟨g, -, rfl⟩ <;> rfl
    · rcases hmem _ hw with he | ⟨g, -, he⟩ <;> cases he
  | grant _ _ _ _ hcalls hx ht _ _ _ hhistory => exact h.grant hm hcalls hx ht hhistory
  | refuse _ hcalls hx _ ht _ _ _ hhistory => exact h.refuse hm hcalls hx ht hhistory
  | @execute pid c script _ _ hphase _ hp hs hdue _ hstate _ _ _ hhistory =>
    refine h.of_resources hm hhistory (by simp [Happening.isOfResource]) (by rw [hstate]; rfl)
      fun v r hasks hfree => ?_
    by_cases hv : v = pid
    · subst hv
      exact absurd (hasked.owns_of_executing hsc hc hm hphase hp hs hdue hasks) hfree
    · rw [hhistory, List.count_append]
      simp [Ne.symm hv]
  | release hphase hcalls hx ht _ _ _ _ _ hhistory =>
    exact h.release hm hcalls hx ht (hfirst hphase hcalls hx ht) hhistory

end Orderly

end Machine

namespace Scenario

open History

variable {sc : Scenario}

end Scenario

end Uniprocessor
