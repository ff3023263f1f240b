import Uniprocessor.Proofs.Locking
import Uniprocessor.Proofs.Reachable
import Uniprocessor.Proofs.Record

/-!
# No wake-up is lost

Giving a resource back hands nothing over: the woken process has to come back and ask again, and in
the meantime others may take the resource. Nevertheless nobody waits for a free resource in vain.
Whoever waits for a resource will ask for that resource first when it is chosen again, since its age
and its script stand still (`Wakeful.waiter`); and for every free resource with waiters there is
somebody who is ready, or in its turn, and asks for it first (`Wakeful.heir`).

What a stride may do to owners and waiters is one of four things (`Exchange`), and both facts, like
those on chains of waiting, are told from these.
-/

namespace Uniprocessor

namespace Machine

variable {σ : Type} {sc : Scenario} {P : Policy σ} {m m' : Machine σ} {pid : Pid}
  {due : List Request}

/-- The requests that are due for a process at its age, in the order in which it asks. -/
def Due (m : Machine σ) (pid : Pid) (due : List Request) : Prop :=
  ∃ p script, m.state.process? pid = some p ∧ m.scripts.find? pid = some script ∧
    script.due p.age = due

theorem Due.unique {other : List Request} (h : m.Due pid due) (h' : m.Due pid other) :
    due = other := by
  obtain ⟨p, script, hp, hs, rfl⟩ := h
  obtain ⟨p', script', hp', hs', rfl⟩ := h'
  rw [hp] at hp'
  rw [hs] at hs'
  cases hp'
  cases hs'
  rfl

/-- What is due depends on the age and the script, so `Due` goes over to any machine where these are
the same. -/
theorem Due.mono (h : m.Due pid due)
    (hproc : ∀ p, m.state.process? pid = some p →
      ∃ p', m'.state.process? pid = some p' ∧ p'.age = p.age)
    (hscripts : m'.scripts.find? pid = m.scripts.find? pid) : m'.Due pid due := by
  obtain ⟨p, script, hp, hs, rfl⟩ := h
  obtain ⟨p', hp', hage⟩ := hproc p hp
  exact ⟨p', script, hp', hscripts.trans hs, by rw [hage]⟩

/-- Repricing leaves ages alone, as states that are `Repriced` differ in priorities only. -/
theorem process?_age_of_repriced {s t : State} (ht : s.Repriced t) {q : Pid} {p : Process}
    (hp : s.process? q = some p) : ∃ p', t.process? q = some p' ∧ p'.age = p.age := by
  obtain ⟨n, hn⟩ := ht.process? hp
  exact ⟨_, hn, rfl⟩

/-- What is due for a process stays due until it executes: its age and its script stand still until
then. -/
theorem Steady.due_strides (h : m.Steady sc) (hstr : m.Strides P sc.limit m')
    (hpid : m.state.status? pid ≠ some .running) (hdue : m.Due pid due) : m'.Due pid due := by
  -- The process is not the one that is called on, since that one executes.
  have hne : ∀ {caller}, m.state.status? caller = some .running → pid ≠ caller := by
    rintro caller hrun rfl
    exact hpid hrun
  have hswitch : ∀ {t next}, m.phase = .choosing → m.state.Chose t next → ∀ memory,
      (m.carriedOut memory t next).Due pid due := by
    intro t next hphase hchose memory
    have hg : m.state.leaver? ≠ some pid := fun hg =>
      hpid ((h.stage_of hphase).status?_leaver hg)
    refine hdue.mono (fun p hp => ?_) ?_
    · obtain ⟨c, n, hcn⟩ := hchose.exists_process?_switched hg hp
      rw [carriedOut_state]
      exact ⟨_, hcn, rfl⟩
    · rw [carriedOut_scripts, Scripts.find?_without, if_neg hg]
  cases hstr with
  | @arrive job rest hphase harrivals =>
    have hst := h.stage_of_arriving hphase harrivals
    -- The newcomer was not live, so it had nothing due.
    have hnew : pid ≠ job.pid := by
      rintro rfl
      obtain ⟨p, -, hp, -⟩ := hdue
      rw [hst.process?_arrival] at hp
      cases hp
    refine hdue.mono (fun p hp => ⟨p, ?_, rfl⟩) ((Scripts.find?_put ..).trans (if_neg hnew))
    exact (State.process?_joined hst.process?_arrival pid).trans ((if_neg hnew).trans hp)
  | drain hphase hP hchose => exact hswitch hphase hchose _
  | idle hphase hP hchose => exact hswitch hphase hchose _
  | turn hphase hP hchose => exact hswitch hphase hchose _
  | grant hphase hp hs hcalls hx hP ht =>
    exact hdue.mono (fun p hp => process?_age_of_repriced ht hp)
      ((Scripts.find?_put ..).trans (if_neg (hne hcalls.running)))
  | refuse hphase hcalls hx hown hP ht =>
    refine hdue.mono (fun p hp => process?_age_of_repriced ht ?_) rfl
    rw [State.process?_park, if_neg (hne hcalls.running)]
    exact hp
  | @execute caller p script script' expired hphase =>
    obtain ⟨hruns, -⟩ : Turn m.state m.scripts caller [] := h.fits_of hphase
    refine hdue.mono (fun p hp => ⟨p, ?_, rfl⟩)
      ((Scripts.find?_put ..).trans (if_neg (hne hruns.running)))
    exact (m.state.process?_adjust_age caller _ pid).trans
      ((if_neg (hne hruns.running)).trans hp)
  | @release caller r waiters due x y memory t woken hphase hcalls hx hP ht =>
    refine hdue.mono (fun p hp => ?_) (congrArg (Scripts.find? · pid) (recordWoken_scripts ..))
    have hp' : ∃ p', (m.state.vacate r x woken).process? pid = some p' ∧ p'.age = p.age := by
      rw [State.process?_vacate, hp]
      by_cases hw : woken = some pid
      · exact ⟨_, if_pos hw, rfl⟩
      · exact ⟨_, if_neg hw, rfl⟩
    obtain ⟨p', hp', hage⟩ := hp'
    obtain ⟨p'', hp'', hage'⟩ := process?_age_of_repriced ht hp'
    refine ⟨p'', ?_, hage'.trans hage⟩
    change (recordWoken ..).state.process? pid = _
    rw [recordWoken_state]
    exact hp''
  | _ => exact hdue

/-- A ready process stays ready until it is its turn: no stride parks or dismisses it. -/
theorem Steady.ready_strides (h : m.Steady sc) (hstr : m.Strides P sc.limit m')
    (hready : m.state.status? pid = some .ready) :
    m'.state.status? pid = some .ready ∨ ∃ due, m'.phase = .requesting pid due := by
  have hne : ∀ {caller}, m.state.status? caller = some .running → pid ≠ caller := by
    rintro caller hrun rfl
    rw [hready] at hrun
    cases hrun
  have hswitch : ∀ {t next}, m.phase = .choosing → m.state.Chose t next → next ≠ some pid →
      ∀ memory, (m.carriedOut memory t next).state.status? pid = some .ready := by
    intro t next hphase hchose hn memory
    have hst := h.stage_of hphase
    rw [carriedOut_state, hchose.status?_switched hst.settled (fun _ => hst.status?_leaver),
      if_neg hn]
    by_cases hg : m.state.leaver? = some pid
    · -- Who leaves executes, and is not ready.
      exact absurd rfl (hne (hst.status?_leaver hg))
    · rw [if_neg hg]
      by_cases hc : m.state.contender? = some pid
      · rw [if_pos hc]
      · rw [if_neg hc, hready]
  cases hstr with
  | @arrive job rest hphase harrivals =>
    have hnew := (h.stage_of_arriving hphase harrivals).process?_arrival
    exact Or.inl (State.status?_joined_of_live hnew hready)
  | drain hphase hP hchose => exact Or.inl (hswitch hphase hchose (Option.some_ne_none _).symm _)
  | idle hphase hP hchose => exact Or.inl (hswitch hphase hchose (Option.some_ne_none _).symm _)
  | @turn memory t chosen p script hphase hP hchose hp hs =>
    by_cases hc : chosen = pid
    · exact Or.inr ⟨_, by rw [hc]⟩
    · exact Or.inl (hswitch hphase hchose (fun he => hc (Option.some.inj he)) _)
  | grant hphase hp hs hcalls hx hP ht => exact Or.inl ((ht.status? pid).trans hready)
  | refuse hphase hcalls hx hown hP ht =>
    left
    refine (ht.status? pid).trans ?_
    rw [State.status?_park hcalls.running, if_neg (hne hcalls.running), hready]
  | @execute caller p =>
    left
    exact (State.status?_of_places (m.state.places_adjust_age caller _) pid).trans hready
  | @release caller r waiters due x y memory t woken hphase hcalls hx hP ht =>
    left
    change (recordWoken ..).state.status? pid = _
    rw [recordWoken_state]
    refine (ht.status? pid).trans ?_
    obtain ⟨p, hp, hc⟩ := State.process?_of_status? hready
    rw [State.status?, State.process?_vacate, hp]
    by_cases hw : woken = some pid
    · rw [if_pos hw]
      rfl
    · rw [if_neg hw, ← hc]
      rfl
  | _ => exact Or.inl hready

/-- The process asks for the resource first when it has its turn: the resource is that of the first
request that is `Due`. -/
def Asks (m : Machine σ) (pid : Pid) (r : ResourceId) : Prop :=
  ∃ q rest, m.Due pid (q :: rest) ∧ q.resource = r

theorem Steady.asks_strides (h : m.Steady sc) (hstr : m.Strides P sc.limit m') {r : ResourceId}
    (hpid : m.state.status? pid ≠ some .running) (hasks : m.Asks pid r) : m'.Asks pid r := by
  obtain ⟨q, rest, hdue, hq⟩ := hasks
  exact ⟨q, rest, h.due_strides hstr hpid hdue, hq⟩

/-- What a process asks for in its turn is `Due` for it: the phase holds what its script has for its
age. -/
theorem Steady.due_of_requesting (h : m.Steady sc) (hphase : m.phase = .requesting pid due) :
    m.Due pid due := by
  obtain ⟨-, p, script, hp, hs, -, hdue⟩ : Turn m.state m.scripts pid due := h.fits_of hphase
  exact ⟨p, script, hp, hs, hdue⟩

/-- The process is ready, or in its turn, and `Asks` for the resource first: the one that a free
resource may count on. -/
def Heir (m : Machine σ) (pid : Pid) (r : ResourceId) : Prop :=
  m.Asks pid r ∧ (m.state.status? pid = some .ready ∨ ∃ due, m.phase = .requesting pid due)

/-- Unless it is asking for the resource right now, an `Heir` is ready. -/
theorem Steady.ready_of_heir (h : m.Steady sc) {r : ResourceId} (hheir : m.Heir pid r)
    (hphase : ∀ q rest, m.phase = .requesting pid (q :: rest) → q.resource ≠ r) :
    m.state.status? pid = some .ready := by
  obtain ⟨⟨q, rest, hdue, hq⟩, hready | ⟨due, hreq⟩⟩ := hheir
  · exact hready
  · cases (h.due_of_requesting hreq).unique hdue
    exact absurd hq (hphase q rest hreq)

/-- A process that is ready and `Asks` for a resource is its `Heir` after the stride, whatever the
stride does. -/
theorem Steady.heir_of_ready (h : m.Steady sc) (hstr : m.Strides P sc.limit m') {r : ResourceId}
    (hready : m.state.status? pid = some .ready) (hasks : m.Asks pid r) : m'.Heir pid r :=
  ⟨h.asks_strides hstr (by simp [hready]) hasks, h.ready_strides hstr hready⟩

/-! ## What a stride does to the resources -/

/-- What is given back becomes free, and one of its waiters is woken if there is any: the resource
is vacated and, up to priorities, that is all. -/
theorem Strides.of_releasing {limit : Nat} (hstr : m.Strides P limit m') {r : ResourceId}
    {waiters : Queue} {due : List ResourceId} (hphase : m.phase = .releasing pid r waiters due) :
    ∃ x woken memory, m.state.Calls pid r x ∧ x.owner = some pid ∧
      (P.release m.memory m.state r).result = .ok (memory, m'.state) ∧
      (m.state.vacate r x woken).Repriced m'.state ∧ (woken = none ↔ x.waiters = []) ∧
      ∀ w, woken = some w → w ∈ x.waiters := by
  cases hstr with
  | @release pid' r' waiters' due' x y memory t woken hphase' hcalls hx hP ht hnone hwoken =>
    rw [hphase] at hphase'
    cases hphase'
    have hstate : ({ ((m.answered memory t).record (.released pid r)).recordWoken r y.waiters
      waiters with phase := .returning pid due } : Machine σ).state = t := recordWoken_state ..
    rw [hstate]
    exact ⟨x, woken, memory, hcalls, hx, hP, ht, hnone, hwoken⟩
  | _ hphase' =>
    rw [hphase] at hphase'
    cases hphase'

/-- How a machine may have the resources of another one after a stride. -/
inductive Exchange (m m' : Machine σ) : Prop
  /-- nothing is asked for or given back -/
  | keep (hphase : m.phase.deals = false) (hres : m'.state.resources = m.state.resources)
  /-- a request is granted -/
  | give {pid : Pid} {q : Request} {rest : List Request} {x : Resource}
      (hphase : m.phase = .requesting pid (q :: rest)) (hcalls : m.state.Calls pid q.resource x)
      (hx : x.owner = none) (ht : (m.state.give q.resource x pid).Repriced m'.state)
  /-- a request is refused -/
  | park {pid owner : Pid} {q : Request} {rest : List Request} {x : Resource}
      (hphase : m.phase = .requesting pid (q :: rest)) (hcalls : m.state.Calls pid q.resource x)
      (hx : x.owner = some owner) (hscripts : m'.scripts = m.scripts)
      (ht : (m.state.park q.resource x pid).Repriced m'.state)
  /-- a resource is given back -/
  | vacate {pid : Pid} {r : ResourceId} {waiters : Queue} {due : List ResourceId} {x : Resource}
      {woken : Option Pid} (hphase : m.phase = .releasing pid r waiters due)
      (hcalls : m.state.Calls pid r x) (hx : x.owner = some pid)
      (ht : (m.state.vacate r x woken).Repriced m'.state) (hnone : woken = none ↔ x.waiters = [])
      (hwoken : ∀ w, woken = some w → w ∈ x.waiters)

theorem Strides.exchange {limit : Nat} (hstr : m.Strides P limit m') : m.Exchange m' := by
  have hswitch : ∀ {t next}, m.state.Chose t next → ∀ memory,
      (m.carriedOut memory t next).state.resources = m.state.resources := by
    intro t next hchose memory
    rw [carriedOut_state, State.resources_switched, hchose.resources]
  have hstr' := hstr
  cases hstr with
  | drain hphase _ hchose => exact .keep (by rw [hphase]; rfl) (hswitch hchose _)
  | idle hphase _ hchose => exact .keep (by rw [hphase]; rfl) (hswitch hchose _)
  | turn hphase _ hchose => exact .keep (by rw [hphase]; rfl) (hswitch hchose _)
  | grant hphase _ _ hcalls hx _ ht => exact .give hphase hcalls hx ht
  | refuse hphase hcalls hx _ _ ht => exact .park hphase hcalls hx rfl ht
  | release hphase =>
    obtain ⟨x, woken, -, hcalls, hx, -, ht, hnone, hwoken⟩ := hstr'.of_releasing hphase
    exact .vacate hphase hcalls hx ht hnone hwoken
  | _ hphase => exact .keep (by rw [hphase]; rfl) rfl

namespace Exchange

/-- A resource that is free after an `Exchange` was so before, and is not what is asked for, or it
has just been given back. -/
theorem entry_of_free (h : m.Exchange m') {r : ResourceId} {y : Resource}
    (hy : m'.state.resources[r]? = some y) (hfree : y.owner = none) :
    (m.state.resources[r]? = some y ∧
      ∀ pid q rest, m.phase = .requesting pid (q :: rest) → q.resource ≠ r) ∨
      ∃ pid waiters due, m.phase = .releasing pid r waiters due := by
  -- What is granted or refused has an owner.
  have hasked : ∀ {s : State} {pid q rest x z}, m.phase = .requesting pid (q :: rest) →
      m.state.resources[q.resource]? = some x → z.owner ≠ none →
      s.Repriced m'.state → s.resources = (m.state.setResource q.resource z).resources →
      m.state.resources[r]? = some y ∧
        ∀ pid q rest, m.phase = .requesting pid (q :: rest) → q.resource ≠ r := by
    intro s pid q rest x z hphase hx hz ht hs
    rw [ht.resources, hs, State.getElem?_setResource hx] at hy
    by_cases hr : r = q.resource
    · rw [if_pos hr] at hy
      cases hy
      exact absurd hfree hz
    · rw [if_neg hr] at hy
      refine ⟨hy, fun pid' q' rest' hreq => ?_⟩
      rw [hphase] at hreq
      cases hreq
      exact fun he => hr he.symm
  cases h with
  | keep hphase hres =>
    refine Or.inl ⟨hres ▸ hy, fun pid q rest hreq => ?_⟩
    rw [hreq] at hphase
    cases hphase
  | give hphase hcalls _ ht =>
    exact Or.inl (hasked hphase hcalls.entry (Option.some_ne_none _) ht rfl)
  | @park _ _ _ _ x hphase hcalls hx _ ht =>
    exact Or.inl (hasked (z := { x with waiters := _ }) hphase hcalls.entry
      (hx ▸ Option.some_ne_none _) ht rfl)
  | @vacate _ r' _ _ x woken hphase hcalls _ ht =>
    by_cases hr : r = r'
    · exact Or.inr ⟨_, _, _, hr ▸ hphase⟩
    · refine Or.inl ⟨?_, fun pid q rest hreq => ?_⟩
      · rw [ht.resources] at hy
        cases woken <;>
        · change (m.state.setResource r' _).resources[r]? = some y at hy
          rwa [State.getElem?_setResource hcalls.entry, if_neg hr] at hy
      · rw [hphase] at hreq
        cases hreq

/-- A process goes on waiting for another one that does not execute, since only an owner that
executes gives anything back. -/
theorem waitsFor (h : m.Exchange m') {u z : Pid} (hz : m.state.status? z ≠ some .running)
    (hwait : m.state.WaitsFor u z) : m'.state.WaitsFor u z := by
  cases h with
  | keep _ hres => exact (State.waitsFor_congr hres).2 hwait
  | give _ hcalls hx ht =>
    refine (State.waitsFor_congr ht.resources).2 ?_
    exact (State.waitsFor_give hcalls.entry hx).2 (Or.inl hwait)
  | park _ hcalls hx _ ht =>
    refine (State.waitsFor_congr ht.resources).2 ?_
    exact (State.waitsFor_park hcalls.entry hx).2 (Or.inl hwait)
  | vacate _ hcalls hx ht _ hwoken =>
    refine (State.waitsFor_congr ht.resources).2
      ((State.waitsFor_vacate hcalls hx hwoken ?_).2 hwait)
    rintro rfl
    exact hz hcalls.running

/-- Who waits after an `Exchange` has waited before, or was refused something and `Asks` for it
first the next time. -/
theorem waits_cases (h : m.Steady sc) (he : m.Exchange m') {r : ResourceId}
    (hwaits : m'.state.Waits pid r) : m.state.Waits pid r ∨ m'.Asks pid r := by
  cases he with
  | keep _ hres => exact Or.inl ((State.waits_congr hres).1 hwaits)
  | give _ hcalls _ ht => exact Or.inl ((State.waits_give hcalls.entry).1 (ht.waits.1 hwaits))
  | @park caller owner q rest x hphase hcalls _ hscripts ht =>
    refine ((State.waits_park hcalls.entry).1 (ht.waits.1 hwaits)).imp_right ?_
    rintro ⟨rfl, rfl⟩
    refine ⟨q, rest, (h.due_of_requesting hphase).mono (fun p hp => ?_) (by rw [hscripts]), rfl⟩
    obtain ⟨p', hp', hage⟩ := process?_age_of_repriced ht
      ((State.process?_park (q := pid)).trans ((if_pos rfl).trans (congrArg (Option.map _) hp)))
    exact ⟨p', hp', hage⟩
  | @vacate _ _ _ _ _ woken _ hcalls _ ht _ hwoken =>
    left
    have hwaits' := ht.waits.1 hwaits
    rcases hc : woken with _ | w
    · rwa [hc, State.waits_vacate_none hcalls.entry] at hwaits'
    · rw [hc, State.waits_vacate_some hcalls.settled hcalls.entry (hwoken w hc)] at hwaits'
      exact hwaits'.1

end Exchange

/-- Nobody waits in vain for a resource that is free: it has an `Heir`. The invariant that every
stride keeps. -/
structure Wakeful (m : Machine σ) : Prop where
  /-- a waiter will ask first for what it waits for -/
  waiter : ∀ {pid : Pid} {r : ResourceId}, m.state.Waits pid r → m.Asks pid r
  /-- if somebody waits for a free resource, somebody who is ready, or whose turn it is, asks for
  that resource first -/
  heir : ∀ {r : ResourceId} {x : Resource}, m.state.resources[r]? = some x → x.owner = none →
    x.waiters ≠ [] → ∃ pid, m.Asks pid r ∧
      (m.state.status? pid = some .ready ∨ ∃ due, m.phase = .requesting pid due)

namespace Wakeful

theorem initial (sc : Scenario) (memory : σ) : (Machine.initial sc memory).Wakeful where
  waiter hw := absurd hw State.not_waits_empty
  heir hx _ hne := by
    rw [State.eq_of_getElem?_empty hx] at hne
    exact absurd rfl hne

/-- Outside of a turn, the `Heir` of a free resource with waiters is ready. -/
theorem heir_ready (h : m.Steady sc) (hw : m.Wakeful)
    (hphase : ∀ pid q rest, m.phase ≠ .requesting pid (q :: rest)) {r : ResourceId} {x : Resource}
    (hx : m.state.resources[r]? = some x) (hfree : x.owner = none) (hne : x.waiters ≠ []) :
    ∃ pid, m.Asks pid r ∧ m.state.status? pid = some .ready := by
  obtain ⟨pid, hheir⟩ := hw.heir hx hfree hne
  exact ⟨pid, hheir.1, h.ready_of_heir hheir fun q rest hreq => absurd hreq (hphase pid q rest)⟩

/-- Whoever waits for a resource goes on to ask for it first: neither its age nor its script changes
while it waits. -/
theorem waiter_strides (h : m.Steady sc) (hw : m.Wakeful) (hstr : m.Strides P sc.limit m')
    {r : ResourceId} (hwaits : m.state.Waits pid r) : m'.Asks pid r :=
  h.asks_strides hstr (by simp [h.stage.settled.status?_of_waits hwaits]) (hw.waiter hwaits)

/-- When a resource is given back, whoever is woken is its `Heir`: it is ready, and waited because
it `Asks` for just that. -/
theorem heir_of_releasing (h : m.Steady sc) (hw : m.Wakeful) (hstr : m.Strides P sc.limit m')
    {r : ResourceId} {x : Resource} (hcalls : m.state.Calls pid r x) {w : Pid}
    (ht : (m.state.vacate r x (some w)).Repriced m'.state) (hwoken : w ∈ x.waiters) :
    m'.Heir w r := by
  have hwaits : m.state.Waits w r := (State.waits_iff hcalls.entry).2 hwoken
  refine ⟨hw.waiter_strides h hstr hwaits, Or.inl ?_⟩
  rw [ht.status?, State.status?_vacate_some (h.stage.settled.status?_of_waits hwaits), if_pos rfl]

/-- Every stride leaves a `Wakeful` machine wakeful, whatever the policy: resources that were free
keep their heirs, and one that is given back gets an heir. -/
theorem strides (h : m.Steady sc) (hw : m.Wakeful) (hstr : m.Strides P sc.limit m') :
    m'.Wakeful where
  waiter hwaits := (hstr.exchange.waits_cases h hwaits).elim (hw.waiter_strides h hstr) id
  heir {r y} hy hfree hne := by
    rcases hstr.exchange.entry_of_free hy hfree with ⟨hold, hother⟩ | ⟨caller, waiters, due, hphase⟩
    · obtain ⟨pid, hheir⟩ := hw.heir hold hfree hne
      exact ⟨pid, h.heir_of_ready hstr (h.ready_of_heir hheir (hother pid)) hheir.1⟩
    · obtain ⟨x, woken, -, hcalls, -, -, ht, hnone, hwoken⟩ := hstr.of_releasing hphase
      rcases woken with _ | w
      · -- Nobody was woken because nobody waited.
        rw [ht.resources] at hy
        change (m.state.setResource r _).resources[r]? = some y at hy
        rw [State.getElem?_setResource hcalls.entry, if_pos rfl] at hy
        cases hy
        exact absurd (hnone.1 rfl) hne
      · exact ⟨w, hw.heir_of_releasing h hstr hcalls ht (hwoken w rfl)⟩

end Wakeful

/-- When a ready process has its turn next, it asks for what was `Due` for it before. -/
theorem Steady.due_of_selected (hsc : sc.Admitted) (hP : P.Lawful) (h : m.Steady sc)
    (hready : m.state.status? pid = some .ready) (hdue : m.Due pid due) {m'' : Machine σ}
    (hlead : m.Leads P sc.limit (fun m => ∀ due, m.phase ≠ .requesting pid due) m')
    (hstep : (m'.step P sc.limit).result = .ok m'') {due' : List Request}
    (hphase : m''.phase = .requesting pid due') : due' = due := by
  -- What is due for a process in its turn was due for it when it was ready.
  have hturn : ∀ {m₁ : Machine σ}, m₁.Steady sc → m₁.state.status? pid = some .ready →
      m₁.Due pid due → m₁.Strides P sc.limit m'' → due' = due := by
    intro m₁ hm₁ hready₁ hdue₁ hstr
    have hdue'' := hm₁.due_strides hstr (by simp [hready₁]) hdue₁
    exact ((hm₁.strides hsc.sound hstr).due_of_requesting hphase).unique hdue''
  have hcases := hlead.steady_or_switching
    (I := fun m => m.state.status? pid = some .ready ∧ m.Due pid due) hsc hP
    (fun {m₁ m₂} hm₁ hI hstr hQ => by
      refine ⟨(hm₁.ready_strides hstr hI.1).resolve_right fun ⟨due, hreq⟩ => hQ due hreq, ?_⟩
      exact hm₁.due_strides hstr (by simp [hI.1]) hI.2) h ⟨hready, hdue⟩
  rcases hcases with ⟨hm', hready', hdue'⟩ | ⟨m₁, hm₁, ⟨hready₁, hdue₁⟩, hch, hstep₁, -⟩
  · rcases hm'.step_cases hsc hP hstep with rfl | ⟨-, hsw⟩ | hstr
    · obtain ⟨hruns, -⟩ : Turn m''.state m''.scripts pid due' := hm'.fits_of hphase
      rw [hruns.running] at hready'
      cases hready'
    · rw [hphase] at hsw
      cases hsw
    · exact hturn hm' hready' hdue' hstr
  · exact hturn hm₁ hready₁ hdue₁ (hm₁.strides_of_choice hsc hP hch hstep₁ hstep)

end Machine

/-- In every run **no wake-up is lost**: at the end of a tick, if somebody waits for a free
resource, then some process is ready, does not wait for that resource, and has it as the first of
the requests that are due for it; and when that process has its turn next, these requests are what
it asks for. -/
theorem Scenario.Admitted.no_lost_wakeup {sc : Scenario} (h : sc.Admitted) (d : Discipline)
    (memory : Memory) {m : Machine Memory} (hm : sc.Reaches d.policy memory m) {wasIdle : Bool}
    (hphase : m.phase = .closing wasIdle) {r : ResourceId} {x : Resource}
    (hx : m.state.resources[r]? = some x) (hfree : x.owner = none) (hne : x.waiters ≠ []) :
    ∃ pid p script q rest, m.state.process? pid = some p ∧ p.status = .ready ∧ pid ∉ x.waiters ∧
      m.scripts.find? pid = some script ∧ script.due p.age = q :: rest ∧ q.resource = r ∧
      ∀ m' m'' due,
        m.Leads d.policy sc.limit (fun m => ∀ due, m.phase ≠ .requesting pid due) m' →
        (m'.step d.policy sc.limit).result = .ok m'' → m''.phase = .requesting pid due →
        due = q :: rest := by
  have hrest : m.phase.isSwitching = false := by
    rw [hphase]
    rfl
  have hsteady := hm.steady h d.lawful hrest
  have hw : m.Wakeful := hm.invariant h d.lawful (fun memory => Machine.Wakeful.initial sc memory)
    (fun hm hI hstr => hI.strides hm hstr) hrest
  obtain ⟨pid, ⟨q, rest, hdue, hq⟩, hready⟩ :=
    hw.heir_ready hsteady (by simp [hphase]) hx hfree hne
  have hdue' := hdue
  obtain ⟨p, script, hp, hs, hfirst⟩ := hdue'
  refine ⟨pid, p, script, q, rest, hp, ?_, fun hmem => ?_, hs, hfirst, hq, ?_⟩
  · exact State.status_of_status? hp hready
  · exact hsteady.stage.settled.not_waits_of_ready hready r ⟨x, hx, hmem⟩
  · intro m' m'' due hlead hstep hturn
    exact hsteady.due_of_selected h d.lawful hready hdue hlead hstep hturn

/-- Three processes that all ask for the one resource at once; the first one holds it for two
ticks. -/
def Scenario.crowded : Scenario where
  resourceCount := 1
  ceiling := 0
  limit := 100
  jobs := [
    { pid := 1, lifespan := 2, requests := [⟨0, 0, 2⟩] },
    { pid := 2, lifespan := 1, requests := [⟨0, 0, 1⟩] },
    { pid := 3, lifespan := 1, requests := [⟨0, 0, 1⟩] }]

theorem Scenario.admitted_crowded : Scenario.crowded.Admitted where
  built := ⟨⟨1, 0, 100, Scenario.crowded.jobs, 4⟩, rfl⟩
  lifespan_lt := by decide
  limit_le := by decide

/-- When the first process has given the resource back, the third one waits for it although it is
free, and somebody else is ready who asks for it first. -/
theorem Scenario.no_lost_wakeup_crowded :
    ∃ m, Scenario.crowded.Reaches Discipline.roundRobin.policy none m ∧
      m.phase = .closing false ∧ m.state.resources[0]? = some ⟨none, [3]⟩ ∧
      ∃ pid p script q rest, m.state.process? pid = some p ∧ p.status = .ready ∧ pid ∉ [3] ∧
        m.scripts.find? pid = some script ∧ script.due p.age = q :: rest ∧ q.resource = 0 := by
  have hm : Scenario.crowded.Reaches Discipline.roundRobin.policy none _ :=
    .of_sorted (by decide) rfl 30
  obtain ⟨pid, p, script, q, rest, hp, hready, hnot, hs, hdue, hq, -⟩ :=
    Scenario.admitted_crowded.no_lost_wakeup .roundRobin none hm rfl
      (r := 0) (x := ⟨none, [3]⟩) rfl rfl (by decide)
  exact ⟨_, hm, rfl, rfl, pid, p, script, q, rest, hp, hready, hnot, hs, hdue, hq⟩

end Uniprocessor
