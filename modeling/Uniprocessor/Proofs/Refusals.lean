import Uniprocessor.Proofs.Attendance
import Uniprocessor.Proofs.Fidelity

/-!
# Refusals are paid for by grants to others

A process that was woken may find the resource taken again and be refused it again, and nothing in
the machine counts how often. But whoever is refused a resource is refused it because another
process owns it, and has been woken since the last refusal only if the resource was given back in
between. So each refusal has a grant of its own (`Machine.Paid`): the one that the other process got
the resource by. Since a process gets what its job requests, and each request once, a process is
refused a resource no more often than the other jobs request it (`Scenario.Admitted.refusals_le`).
-/

namespace Uniprocessor

/-- Whether a process other than the given one got the resource. -/
def Happening.isGrantBeside (pid : Pid) (r : ResourceId) : Happening → Bool
  | .acquired q s => q ≠ pid ∧ s = r
  | _ => false

/-- What the process asked for, if it asked for something: it got it, or was refused it by this
happening. -/
def Happening.asked? (pid : Pid) : Happening → Option ResourceId
  | .acquired p r | .refused p r => if p = pid then some r else none
  | _ => none

namespace History

variable {h later : List Happening} {pid : Pid}

/-- What the process has asked for, each time with the number of ticks that it had executed: an
instance of `dated`. -/
def asked (h : List Happening) (pid : Pid) : List (ResourceId × Nat) :=
  dated pid (Happening.asked? pid) 0 h

theorem asked_concat (h : List Happening) (e : Happening) (pid : Pid) :
    asked (h ++ [e]) pid =
      asked h pid ++ (e.asked? pid).toList.map fun r => (r, h.count (.executed pid)) := by
  rw [asked, dated_append, Nat.zero_add, dated, dated, List.append_nil]
  rfl

theorem asked_append_of_none (h : List Happening) (hnone : ∀ e ∈ later, e.asked? pid = none) :
    asked (h ++ later) pid = asked h pid :=
  dated_append_of_none _ _ _ _ hnone

/-- What is picked with dates by `dated` is what is picked without them. -/
theorem map_fst_dated {α : Type} (pid : Pid) (pick : Happening → Option α) (n : Nat)
    (h : List Happening) : (dated pid pick n h).map Prod.fst = h.filterMap pick := by
  induction h generalizing n with
  | nil => rfl
  | cons e rest ih =>
    rw [dated, List.map_append, ih, List.filterMap_cons]
    cases pick e <;> rfl

/-- Whatever a process was refused it has asked for, so it is in `asked`. -/
theorem mem_map_fst_asked {r : ResourceId} (hmem : .refused pid r ∈ h) :
    r ∈ (asked h pid).map Prod.fst := by
  rw [asked, map_fst_dated]
  exact List.mem_filterMap.2 ⟨_, hmem, if_pos rfl⟩

/-- What was asked for once has been asked for ever after: `asked` only grows. -/
theorem mem_asked_append {g : ResourceId × Nat} (hg : g ∈ asked h pid) (later : List Happening) :
    g ∈ asked (h ++ later) pid := by
  rw [asked, dated_append]
  exact List.mem_append_left _ hg

end History

namespace Machine

variable {σ : Type} {sc : Scenario} {P : Policy σ} {m m' : Machine σ} {pid : Pid} {r : ResourceId}

/-- Every refusal of the process is paid for by a grant to another one, and a grant is to spare as
long as another process owns the resource and the process does not wait for it. -/
structure Paid (m : Machine σ) (pid : Pid) (r : ResourceId) : Prop where
  /-- there are as many grants to others as refusals -/
  enough : m.history.count (.refused pid r) ≤ m.history.countP (Happening.isGrantBeside pid r)
  /-- the grant by which another process owns the resource pays for the next refusal -/
  spare : ∀ {q : Pid}, m.state.Owns q r → q ≠ pid → ¬ m.state.Waits pid r →
    m.history.count (.refused pid r) < m.history.countP (Happening.isGrantBeside pid r)

namespace Paid

theorem initial (sc : Scenario) (memory : σ) (pid : Pid) (r : ResourceId) :
    (Machine.initial sc memory).Paid pid r where
  enough := Nat.zero_le _
  spare ho := absurd ho State.not_owns_empty

/-- Where the process is not refused the resource and nobody new owns it, what was `Paid` is
paid. -/
theorem keep (h : m.Paid pid r) {later : List Happening}
    (hhistory : m'.history = m.history ++ later)
    (hrefused : .refused pid r ∉ later)
    (howns : ∀ q, q ≠ pid → m'.state.Owns q r → m.state.Owns q r)
    (hwaits : m.state.Waits pid r → m'.state.Waits pid r) : m'.Paid pid r := by
  have hcount : m'.history.count (.refused pid r) = m.history.count (.refused pid r) := by
    rw [hhistory, List.count_append, List.count_eq_zero_of_not_mem hrefused, Nat.add_zero]
  have hgrants : m.history.countP (Happening.isGrantBeside pid r) ≤
      m'.history.countP (Happening.isGrantBeside pid r) := by
    rw [hhistory, List.countP_append]
    exact Nat.le_add_right _ _
  exact {
    enough := hcount ▸ h.enough.trans hgrants
    spare := fun hown hne hfree =>
      hcount ▸ (h.spare (howns _ hne hown) hne (mt hwaits hfree)).trans_le hgrants }

/-- A grant of another resource, or to the process itself, is not spent, and a grant of the resource
to another process is to spare: a grant leaves refusals `Paid`. -/
theorem grant (h : m.Paid pid r) {caller : Pid} {q : ResourceId} {x : Resource}
    (hx : m.state.resources[q]? = some x) (ht : (m.state.give q x caller).Repriced m'.state)
    (hhistory : m'.history = m.history ++ [.acquired caller q]) : m'.Paid pid r := by
  have hwaits : m'.state.Waits pid r ↔ m.state.Waits pid r :=
    (State.waits_congr ht.resources).trans (State.waits_give hx)
  by_cases hother : caller ≠ pid ∧ q = r
  · have hgrants : m'.history.countP (Happening.isGrantBeside pid r) =
        m.history.countP (Happening.isGrantBeside pid r) + 1 := by
      rw [hhistory, List.countP_append]
      simp [Happening.isGrantBeside, hother]
    have hcount : m'.history.count (.refused pid r) = m.history.count (.refused pid r) := by
      rw [hhistory, List.count_append]
      simp
    have hpaid : m'.history.count (.refused pid r) <
        m'.history.countP (Happening.isGrantBeside pid r) := by
      rw [hcount, hgrants]
      exact Nat.lt_succ_of_le h.enough
    exact ⟨hpaid.le, fun _ _ _ => hpaid⟩
  · refine h.keep hhistory (by simp) (fun o hne hown => ?_) hwaits.2
    rw [State.owns_congr ht.resources, State.owns_give hx] at hown
    split at hown
    · next hr => exact absurd ⟨hown ▸ hne, hr.symm⟩ hother
    · exact hown

/-- A refusal of the process is `Paid` for by the grant to spare, and then the process waits. -/
theorem refuse (h : m.Paid pid r) {caller owner : Pid} {q : ResourceId} {x : Resource}
    (hcalls : m.state.Calls caller q x) (hx : x.owner = some owner) (hne : owner ≠ caller)
    (ht : (m.state.park q x caller).Repriced m'.state)
    (hhistory : m'.history = m.history ++ [.refused caller q]) : m'.Paid pid r := by
  have howns : ∀ o, m'.state.Owns o r ↔ m.state.Owns o r := fun o =>
    (State.owns_congr ht.resources).trans (State.owns_park hcalls.entry)
  have hwaits : m'.state.Waits pid r ↔ m.state.Waits pid r ∨ pid = caller ∧ r = q :=
    (State.waits_congr ht.resources).trans (State.waits_park hcalls.entry)
  by_cases hself : pid = caller ∧ r = q
  · obtain ⟨rfl, rfl⟩ := hself
    have hspare := h.spare ⟨x, hcalls.entry, hx⟩ hne
      (hcalls.settled.not_waits_of_running hcalls.running r)
    exact {
      enough := by
        rw [hhistory, List.count_append, List.countP_append, List.count_singleton_self]
        exact hspare.trans_le (Nat.le_add_right _ _)
      spare := fun _ _ hfree => absurd (hwaits.2 (Or.inr ⟨rfl, rfl⟩)) hfree }
  · refine h.keep hhistory (fun hmem => hself ?_) (fun o _ => (howns o).1)
      fun hw => hwaits.2 (Or.inl hw)
    cases List.mem_singleton.1 hmem
    exact ⟨rfl, rfl⟩

/-- What is given back nobody owns, and whoever is woken from another queue did not wait here: a
return leaves refusals `Paid`. -/
theorem release (h : m.Paid pid r) {caller : Pid} {q : ResourceId} {x : Resource}
    {woken : Option Pid} (hcalls : m.state.Calls caller q x)
    (hwoken : ∀ w, woken = some w → w ∈ x.waiters)
    (ht : (m.state.vacate q x woken).Repriced m'.state)
    (hhistory : m'.history =
      m.history ++ .released caller q :: woken.toList.map fun w => .woken w q) : m'.Paid pid r := by
  have howns : ∀ o, m'.state.Owns o r ↔ m.state.Owns o r ∧ r ≠ q := fun o =>
    (State.owns_congr ht.resources).trans (State.owns_vacate hcalls.entry woken)
  have hrefused : .refused pid r ∉
      Happening.released caller q :: woken.toList.map fun w => .woken w q := by simp
  by_cases hr : r = q
  · have hnobody : ∀ o, ¬ m'.state.Owns o r := fun o hown => ((howns o).1 hown).2 hr
    refine ⟨?_, fun hown => absurd hown (hnobody _)⟩
    rw [hhistory, List.count_append, List.countP_append, List.count_eq_zero_of_not_mem hrefused]
    exact h.enough.trans (Nat.le_add_right _ _)
  · refine h.keep hhistory hrefused (fun o _ hown => ((howns o).1 hown).1) fun hw => ?_
    rw [State.waits_congr ht.resources]
    cases woken with
    | none => exact (State.waits_vacate_none hcalls.entry).2 hw
    | some w =>
      have hwq : m.state.Waits w q := (State.waits_iff hcalls.entry).2 (hwoken w rfl)
      refine (State.waits_vacate_some hcalls.settled hcalls.entry (hwoken w rfl)).2 ⟨hw, ?_⟩
      rintro rfl
      exact hr (hcalls.settled.waits_unique hw hwq)

/-- Every episode leaves the refusals `Paid` for: each case of `Episode` is one of the steps
above. -/
theorem episode (h : m.Paid pid r) (hep : m.Episode P m') : m'.Paid pid r := by
  have hsame : m'.state.resources = m.state.resources → ∀ later,
      m'.history = m.history ++ later → .refused pid r ∉ later → m'.Paid pid r :=
    fun hres later hhistory hrefused => h.keep hhistory hrefused
      (fun _ _ => (State.owns_congr hres).1) (State.waits_congr hres).2
  cases hep with
  | quiet _ hresources _ _ _ hhistory =>
    exact hsame hresources [] (hhistory.trans (List.append_nil _).symm) List.not_mem_nil
  | arrive _ _ hstate _ _ hhistory => exact hsame (by rw [hstate]; rfl) _ hhistory (by simp)
  | choose _ _ hchose hstate _ _ _ hidle hhistory =>
    refine hsame (by rw [hstate, State.resources_switched, hchose.resources]) _ hhistory
      fun hmem => ?_
    rcases History.eq_of_mem_choice _ hidle _ hmem with he | ⟨g, -, he⟩ <;> cases he
  | grant _ _ _ _ hcalls _ ht _ _ _ hhistory => exact h.grant hcalls.entry ht hhistory
  | refuse _ hcalls hx hne ht _ _ _ hhistory => exact h.refuse hcalls hx hne ht hhistory
  | execute _ _ _ _ _ _ hstate _ _ _ hhistory =>
    exact hsame (by rw [hstate]; rfl) _ hhistory (by simp)
  | release _ hcalls _ ht _ hwoken _ _ _ hhistory => exact h.release hcalls hwoken ht hhistory

end Paid

/-- Whatever a process asks for its job requests, for the age at which it asks: `asked`, with its
dates, is among the requests. -/
def Requested (sc : Scenario) (m : Machine σ) : Prop :=
  ∀ pid r n, (r, n) ∈ History.asked m.history pid →
    ∃ job ∈ sc.jobs, job.pid = pid ∧ ∃ q ∈ job.requests, q.resource = r ∧ q.due = n

namespace Requested

theorem initial (sc : Scenario) (memory : σ) : (Machine.initial sc memory).Requested sc :=
  fun _ _ _ hmem => absurd hmem List.not_mem_nil

/-- What is due for a process may be asked for: a grant or a refusal of it leaves a machine within
what is `Requested`. -/
theorem ask (h : m.Requested sc) (hc : m.Chronicled) (hm : m.Steady sc) {caller : Pid} {q : Request}
    {rest : List Request} (hphase : m.phase = .requesting caller (q :: rest)) {e : Happening}
    (he : ∀ pid, e.asked? pid = if caller = pid then some q.resource else none)
    (hhistory : m'.history = m.history ++ [e]) : m'.Requested sc := by
  intro pid r n hmem
  rw [hhistory, History.asked_concat, he] at hmem
  rcases List.mem_append.1 hmem with hmem | hmem
  · exact h pid r n hmem
  · split at hmem
    · next hpid =>
      subst hpid
      obtain ⟨-, p, script, hp, hs, -, hdue⟩ : Turn m.state m.scripts caller (q :: rest) :=
        hm.fits_of hphase
      obtain ⟨job, hjob, hpid, hplays⟩ := hm.stage.plays_of_find? hp hs
      obtain ⟨hq, hage, -⟩ := hplays.mem_due.1 (hdue ▸ List.mem_cons_self ..)
      cases List.mem_singleton.1 hmem
      exact ⟨job, hjob, hpid, q, hq, rfl, hage.trans (hc.told.of_process? hp).2.2.symm⟩
    · cases hmem

/-- Every episode keeps to the requests: only what is due is asked for, and all else is not asked
for. -/
theorem episode (h : m.Requested sc) (hc : m.Chronicled) (hm : m.Steady sc)
    (hep : m.Episode P m') : m'.Requested sc := by
  have hsame : ∀ later, m'.history = m.history ++ later →
      (∀ e ∈ later, ∀ pid, e.asked? pid = none) → m'.Requested sc := by
    intro later hhistory hnone pid r n hmem
    rw [hhistory, History.asked_append_of_none _ fun e he => hnone e he pid] at hmem
    exact h pid r n hmem
  cases hep with
  | quiet _ _ _ _ _ hhistory =>
    exact hsame [] (hhistory.trans (List.append_nil _).symm) fun _ he => absurd he List.not_mem_nil
  | arrive _ _ _ _ _ hhistory => exact hsame _ hhistory (by simp [Happening.asked?])
  | choose _ _ _ _ _ _ _ hidle hhistory =>
    refine hsame _ hhistory fun e he pid => ?_
    rcases History.eq_of_mem_choice _ hidle e he with rfl | ⟨g, -, rfl⟩ <;> rfl
  | grant hphase _ _ _ _ _ _ _ _ _ hhistory => exact h.ask hc hm hphase (fun _ => rfl) hhistory
  | refuse hphase _ _ _ _ _ _ _ hhistory => exact h.ask hc hm hphase (fun _ => rfl) hhistory
  | execute _ _ _ _ _ _ _ _ _ _ hhistory => exact hsame _ hhistory (by simp [Happening.asked?])
  | release _ _ _ _ _ _ _ _ _ hhistory =>
    refine hsame _ hhistory fun e he pid => ?_
    rcases List.mem_cons.1 he with rfl | he
    · rfl
    · obtain ⟨w, -, rfl⟩ := List.mem_map.1 he
      rfl

end Requested

end Machine

/-! ## Counting by who and by what -/

namespace History

/-- Of a list in which whatever is counted is of one of several kinds, no more is counted than there
is of these kinds together. -/
theorem countP_le_sum {α κ : Type} {f : α → Bool} {kind : κ → α → Bool} {keys : List κ} {l : List α}
    (h : ∀ a ∈ l, f a = true → ∃ k ∈ keys, kind k a = true) :
    l.countP f ≤ (keys.map fun k => l.countP (kind k)).sum := by
  induction l with
  | nil => exact Nat.zero_le _
  | cons a rest ih =>
    have hhead : (if f a = true then 1 else 0) ≤
        (keys.map fun k => if kind k a = true then 1 else 0).sum := by
      split
      · next hfa =>
        obtain ⟨k, hk, hka⟩ := h a (List.mem_cons_self ..) hfa
        refine List.single_le_sum (fun _ _ => Nat.zero_le _) _ (List.mem_map.2 ⟨k, hk, ?_⟩)
        exact if_pos hka
      · exact Nat.zero_le _
    simp only [List.countP_cons, List.sum_map_add]
    exact Nat.add_le_add (ih fun b hb => h b (List.mem_cons_of_mem _ hb)) hhead

/-- How often a process got a resource is what its gains say: `got` has an entry for each grant. -/
theorem count_acquired (h : List Happening) (pid : Pid) (r : ResourceId) :
    h.count (.acquired pid r) = (got h pid).countP fun g => g.1 = r := by
  have hfst : ((got h pid).countP fun g => g.1 = r) = ((got h pid).map Prod.fst).count r := by
    rw [List.count, List.countP_map]
    exact List.countP_congr fun g _ => by simp
  rw [hfst, got, map_fst_dated, List.count, List.count, List.countP_filterMap]
  refine List.countP_congr fun e _ => ?_
  cases e with
  | acquired p s => by_cases hp : p = pid <;> simp [Happening.gained?, hp]
  | _ => simp [Happening.gained?]

end History

/-- A process has got a resource no more often than its job requests it, as its `Job.Tally` has each
gain from another request. -/
theorem Job.Tally.countP_got_le {job : Job} {age : Nat} {holds : List Hold} {owed : List ResourceId}
    {got gave : List (ResourceId × Nat)} (h : job.Tally age holds owed got gave) (r : ResourceId) :
    (got.countP fun g => g.1 = r) ≤ job.requests.countP fun q => q.resource = r := by
  have hsub : got ⊆ job.requests.map fun q => (q.resource, q.due) := by
    rintro ⟨s, n⟩ hmem
    obtain ⟨q, hq, rfl, rfl, -⟩ := h.mem_got.1 hmem
    exact List.mem_map_of_mem hq
  refine ((h.got_nodup.subperm hsub).countP_le _).trans_eq ?_
  rw [List.countP_map]
  rfl

namespace Scenario

variable {sc : Scenario}

/-- Wherever a run gets to, whatever was asked for was `Requested`, by induction on the episodes. -/
theorem Reaches.requested {σ : Type} {P : Policy σ} {memory : σ} {m : Machine σ}
    (hsc : sc.Admitted) (hP : P.Lawful) (h : sc.Reaches P memory m)
    (hm : m.phase.isSwitching = false) : m.Requested sc := by
  refine (h.invariant (I := fun m => m.Chronicled ∧ m.Requested sc) hsc hP
    (fun memory => ⟨.initial sc memory, .initial sc memory⟩)
    (fun hm ⟨hchron, hasked⟩ hstr => ?_) hm).2
  have hep := hm.episode hstr
  exact ⟨hchron.episode hm hep, hasked.episode hchron hm hep⟩

/-- Other processes get a resource no more often than their jobs request it: their grants, counted
job by job. -/
theorem Reaches.countP_isGrantBeside_le {σ : Type} {P : Policy σ} {memory : σ} {m : Machine σ}
    (hsc : sc.Admitted) (hP : P.Lawful) (h : sc.Reaches P memory m)
    (hm : m.phase.isSwitching = false) {pid : Pid} {r : ResourceId} :
    m.history.countP (Happening.isGrantBeside pid r) ≤
      ((sc.jobs.filter fun other => other.pid ≠ pid).map fun other =>
        other.requests.countP fun q => q.resource = r).sum := by
  obtain ⟨hchron, henr, -⟩ := h.chronicled hsc hP hm
  have hkinds : ∀ e ∈ m.history, Happening.isGrantBeside pid r e = true →
      ∃ other ∈ sc.jobs.filter fun other => other.pid ≠ pid,
        decide (e = .acquired other.pid r) = true := by
    intro e he hgrant
    cases e with
    | acquired q s =>
      obtain ⟨hne, rfl⟩ : q ≠ pid ∧ s = r := by simpa [Happening.isGrantBeside] using hgrant
      obtain ⟨other, hother, rfl⟩ := henr.listed (hchron.heard he rfl)
      exact ⟨other, List.mem_filter.2 ⟨hother, decide_eq_true hne⟩, decide_eq_true rfl⟩
    | _ => cases hgrant
  calc m.history.countP (Happening.isGrantBeside pid r)
    _ ≤ ((sc.jobs.filter fun other => other.pid ≠ pid).map fun other =>
          m.history.count (.acquired other.pid r)).sum := History.countP_le_sum hkinds
    _ ≤ _ := List.sum_le_sum fun other hother => by
          have htally := h.tallied hsc hP hm other (List.mem_filter.1 hother).1
          exact (History.count_acquired m.history other.pid r).trans_le (htally.countP_got_le r)

/-- All **refusals are paid for**: in every run each process is refused each resource no more often
than other processes get it, by `isGrantBeside`. So it is refused something no more often, all in
all, than the other jobs request one of the resources that it requests itself. -/
theorem Admitted.refusals_le (h : sc.Admitted) (d : Discipline) (memory : Memory) {t : Trace}
    (ht : (sc.run d.policy memory sc.stepBound).trace? = some t) :
    (∀ pid r, (t.events.countP fun e => e.what = .refused pid r) ≤
      t.events.countP fun e => e.what.isGrantBeside pid r) ∧
    ∀ job ∈ sc.jobs, t.refusalCount job.pid ≤
      ((job.requests.map Request.resource).dedup.map fun r =>
        ((sc.jobs.filter fun other => other.pid ≠ job.pid).map fun other =>
          other.requests.countP fun q => q.resource = r).sum).sum := by
  obtain ⟨m, hreach, hphase, hevents, -⟩ := reaches_of_trace? ht
  have hrest := Phase.isSwitching_of_over hphase
  have hhistory : ∀ f : Happening → Bool,
      (t.events.countP fun e => f e.what) = m.history.countP f := by
    intro f
    rw [Machine.history, hevents, List.countP_map]
    rfl
  have hpaid : ∀ pid r, m.history.count (.refused pid r) ≤
      m.history.countP (Happening.isGrantBeside pid r) := fun pid r =>
    (hreach.invariant (I := fun m => m.Paid pid r) h d.lawful
      (fun memory => .initial sc memory pid r)
      (fun hm hpaid hstr => hpaid.episode (hm.episode hstr)) hrest).enough
  have hasked := hreach.requested h d.lawful hrest
  refine ⟨fun pid r => ?_, fun job hjob => ?_⟩
  · rw [hhistory, hhistory fun e => e = .refused pid r]
    exact hpaid pid r
  · have hblocks : t.refusalCount job.pid =
        m.history.countP fun e => e.refused? = some job.pid := by
      rw [← hhistory, Trace.refusalCount]
      refine List.countP_congr fun e _ => ?_
      cases hwhat : e.what <;> simp [Event.isBlockOf, Happening.refused?, hwhat]
    -- Each refusal is about a resource that the job requests, and is paid for by another job.
    rw [hblocks]
    have hkinds : ∀ e ∈ m.history, decide (e.refused? = some job.pid) = true →
        ∃ r ∈ (job.requests.map Request.resource).dedup,
          decide (e = .refused job.pid r) = true := by
      intro e he hrefused
      cases e with
      | refused pid r =>
        obtain rfl : pid = job.pid := by simpa [Happening.refused?] using hrefused
        obtain ⟨⟨_, n⟩, hmem, rfl⟩ := List.mem_map.1 (History.mem_map_fst_asked he)
        obtain ⟨job', hjob', hpid, q, hq, rfl, -⟩ := hasked _ _ n hmem
        obtain rfl := h.sound.eq_of_pid hjob hjob' hpid.symm
        exact ⟨_, List.mem_dedup.2 (List.mem_map_of_mem hq), decide_eq_true rfl⟩
      | _ => simp [Happening.refused?] at hrefused
    calc m.history.countP fun e => e.refused? = some job.pid
      _ ≤ ((job.requests.map Request.resource).dedup.map fun r =>
            m.history.count (.refused job.pid r)).sum := History.countP_le_sum hkinds
      _ ≤ _ := List.sum_le_sum fun r _ =>
            (hpaid job.pid r).trans (hreach.countP_isGrantBeside_le h d.lawful hrest)

/-- A process has to wait for a resource, and another one, that asks for the first time when the
resource is free again, gets it before. -/
def barged : Scenario where
  resourceCount := 1
  ceiling := 1
  limit := 100
  jobs := [
    { pid := 1, lifespan := 4, prio := 0, requests := [⟨0, 0, 2⟩] },
    { pid := 2, lifespan := 2, prio := 0, requests := [⟨0, 0, 1⟩] },
    { pid := 3, lifespan := 3, prio := 0, requests := [⟨0, 1, 2⟩] }]

theorem admitted_barged : barged.Admitted where
  built := ⟨⟨1, 1, 100, barged.jobs, 4⟩, rfl⟩
  lifespan_lt := by decide
  limit_le := by decide

/-- Under round robin the second of the barged processes is refused the resource twice, once for
each grant to another one, and each of the others requests it once: it cannot be refused more
often. -/
theorem refusals_le_barged :
    ∃ t, (barged.run Discipline.roundRobin.policy none barged.stepBound).trace? = some t ∧
      (t.events.countP fun e => e.what = .refused 2 0) = 2 ∧
      2 ≤ (t.events.countP fun e => e.what.isGrantBeside 2 0) ∧
      t.refusalCount 2 = 2 ∧ t.refusalCount 2 ≤ 2 := by
  have hm : barged.Reaches Discipline.roundRobin.policy none _ := .of_sorted (by decide) rfl 100
  have ht := hm.trace?_of_over admitted_barged Discipline.roundRobin.lawful
    (rfl : _ = Phase.over .normal)
  obtain ⟨hpaid, hbound⟩ := admitted_barged.refusals_le .roundRobin none ht
  exact ⟨_, ht, rfl, hpaid 2 0, rfl,
    hbound _ (List.mem_cons_of_mem _ (List.mem_cons_self ..))⟩

end Scenario

end Uniprocessor
