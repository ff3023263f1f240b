import Uniprocessor.Proofs.Attendance
import Uniprocessor.Proofs.Deadlock
import Uniprocessor.Proofs.Tally

/-!
# Ordered acquisition

If the resources are ranked, and every job asks for a resource only while all that it has ranks
lower, nobody waits in a circle: whoever is waited for waits for something of a higher rank. So no
run ends in a deadlock (`Reaches.exit_ne_deadlock`), and where the limit leaves room for the work
everybody gets it done (`Scenario.Admitted.ordered_acquisition`).

What a waiting process has and what it asks for are compared by what its job lists. Of requests that
are due at one age the first ones have been granted and the others have not (`Machine.AsListed`).
-/

namespace Uniprocessor

open Relation

variable {ρ : Type} [Preorder ρ]

/-! ## Ranks -/

/-- The first request is held when the second one is due, as the job has it. Of requests that are
due at one age, those listed before the second one are. -/
structure Job.HeldAt (job : Job) (held q : Request) : Prop where
  /-- the hold has begun -/
  due_le : held.due ≤ q.due
  /-- the hold is not over -/
  lt : q.due < held.due + held.duration
  /-- the hold has been asked for first -/
  listed : held.due = q.due → [held, q].Sublist job.requests

theorem Job.heldAt_iff {job : Job} {held q : Request} : job.HeldAt held q ↔ held.due ≤ q.due ∧
    q.due < held.due + held.duration ∧ (held.due = q.due → [held, q].Sublist job.requests) :=
  ⟨fun ⟨hle, hlt, hlisted⟩ => ⟨hle, hlt, hlisted⟩, fun ⟨hle, hlt, hlisted⟩ => ⟨hle, hlt, hlisted⟩⟩

instance (job : Job) (held q : Request) : Decidable (job.HeldAt held q) :=
  decidable_of_iff' _ Job.heldAt_iff

/-- The job asks for a resource only while all that it holds by `HeldAt` ranks lower. -/
def Job.Respects (rank : ResourceId → ρ) (job : Job) : Prop :=
  ∀ held ∈ job.requests, ∀ q ∈ job.requests, job.HeldAt held q →
    rank held.resource < rank q.resource

/-- All jobs of the scenario respect the ranking. -/
def Scenario.Ranked (rank : ResourceId → ρ) (sc : Scenario) : Prop :=
  ∀ job ∈ sc.jobs, job.Respects rank

instance [DecidableLT ρ] (rank : ResourceId → ρ) (job : Job) : Decidable (job.Respects rank) :=
  inferInstanceAs (Decidable (∀ held ∈ job.requests, ∀ q ∈ job.requests, job.HeldAt held q →
    rank held.resource < rank q.resource))

instance [DecidableLT ρ] (rank : ResourceId → ρ) (sc : Scenario) : Decidable (sc.Ranked rank) :=
  inferInstanceAs (Decidable (∀ job ∈ sc.jobs, job.Respects rank))

/-! ## Requests are granted as listed -/

/-- When a process comes to a new age, nothing that is due then is held already: `due` is all that
it requests for that age. -/
theorem Script.Plays.due_expire {s s' : Script} {job : Job} {p : Process} {n c : Nat}
    (h : s.Plays job p []) (hjob : job.Sound n c) {expired : List ResourceId}
    (hexp : s.expire = .ok (expired, s')) :
    s'.requests = s.requests ∧
      s'.due (p.age + 1) = s'.requests.filter fun q => q.due = p.age + 1 := by
  obtain ⟨expired', kept, hok, -, hkept⟩ := countDown_eq_ok h.remaining_pos
  rw [Script.expire, hok] at hexp
  cases hexp
  refine ⟨rfl, List.filter_congr fun q hq => ?_⟩
  by_cases hdue : q.due = p.age + 1
  · rw [Bool.and_eq_left_iff_imp]
    intro
    rw [Bool.not_eq_true', ← Bool.not_eq_true, Script.hasHold_eq_true]
    intro hheld
    -- A hold that goes on began before this age, and would overlap.
    obtain ⟨x, hx, hres⟩ := List.mem_map.1 hheld
    obtain ⟨hpos, hmem⟩ := hkept x hx
    obtain ⟨o, ho, hores, hodue, hoend⟩ := h.origin _ hmem
    have hq : q ∈ job.requests := h.requests ▸ hq
    have hend : p.age + (x.remaining + 1) = o.due + o.duration := hoend
    have hlen := (hjob.requests q hq).duration_pos
    have hsame := hjob.eq_of_overlap hq ho (hres.symm.trans hores.symm) (by omega) (by omega)
    rw [hsame] at hdue
    omega
  · simp [hdue]

namespace Machine

variable {σ : Type} {sc : Scenario} {P : Policy σ} {m m' : Machine σ}

/-- For every live process, what is due is what comes last of all that it requests for its age:
requests are granted in the order in which they are listed. -/
def AsListed (m : Machine σ) : Prop :=
  ∀ (pid : Pid) (p : Process) (script : Script), m.state.process? pid = some p →
    m.scripts.find? pid = some script →
    script.due p.age <:+ script.requests.filter fun q => q.due = p.age

namespace AsListed

theorem initial (sc : Scenario) (memory : σ) : (Machine.initial sc memory).AsListed :=
  fun _ _ _ hp => by cases hp

/-- Who has the age and the script that it had is asked to say nothing new, so the machine stays
`AsListed`. -/
theorem keep (h : m.AsListed)
    (hsame : ∀ {pid p' script}, m'.state.process? pid = some p' →
      m'.scripts.find? pid = some script →
      (∃ p, m.state.process? pid = some p ∧ p'.age = p.age) ∧
        m.scripts.find? pid = some script) : m'.AsListed := by
  intro pid p' script hp' hs'
  obtain ⟨⟨p, hp, hage⟩, hs⟩ := hsame hp' hs'
  rw [hage]
  exact h _ _ _ hp hs

/-- A grant takes the first request that is due away, so what is due is a suffix of what it was. -/
theorem due_grant (hsc : sc.Sound) (hm : m.Steady sc) (h : m.AsListed) {pid : Pid} {q : Request}
    {rest : List Request} {p : Process} {script : Script}
    (hphase : m.phase = .requesting pid (q :: rest)) (hp : m.state.process? pid = some p)
    (hs : m.scripts.find? pid = some script) :
    (script.grant q).due p.age <:+ script.requests.filter fun q => q.due = p.age := by
  obtain ⟨-, hdue⟩ := hm.asks_of_requesting hphase hp hs
  obtain ⟨job, hjob, -, hplays⟩ := hm.stage.plays_of_find? hp hs
  rw [hplays.due_grant (hsc.jobs job hjob) hdue]
  exact (List.suffix_cons q rest).trans (hdue ▸ h _ _ _ hp hs)

/-- A newcomer holds nothing, so all that it requests for its age is due: where `AsListed`
begins. -/
theorem due_fresh (requests : List Request) (age : Nat) :
    Script.due { requests := requests } age = requests.filter fun q => q.due = age := by
  simp [Script.due, Script.hasHold]

/-- Every episode grants requests as listed: each case of `Episode` leaves a machine `AsListed`. -/
theorem episode (hsc : sc.Sound) (hm : m.Steady sc) (h : m.AsListed) (hep : m.Episode P m') :
    m'.AsListed := by
  cases hep with
  | quiet hprocs _ hscripts =>
    refine h.keep fun {pid p' script} hp' hs' => ⟨⟨p', ?_, rfl⟩, hscripts ▸ hs'⟩
    rwa [State.process?, hprocs] at hp'
  | @arrive job hphase harrivals hstate hscripts =>
    have hnew := (hm.stage_of_arriving hphase harrivals).process?_arrival
    intro pid p' script hp' hs'
    rw [hstate, State.process?_joined (p := .fresh job.pid job.lifespan job.prio) hnew pid] at hp'
    rw [hscripts, Scripts.find?_put] at hs'
    by_cases hpid : pid = job.pid
    · cases (if_pos hpid).symm.trans hp'
      cases (if_pos hpid).symm.trans hs'
      exact due_fresh job.requests 0 ▸ List.suffix_refl _
    · exact h _ _ _ ((if_neg hpid).symm.trans hp') ((if_neg hpid).symm.trans hs')
  | choose _ _ hchose hstate hscripts =>
    refine h.keep fun {pid p' script} hp' hs' => ?_
    rw [hstate] at hp'
    obtain ⟨hg, p, hp, -, -, hage⟩ := hchose.of_process?_switched hp'
    rw [hscripts, Scripts.find?_without, if_neg hg] at hs'
    exact ⟨⟨p, hp, hage⟩, hs'⟩
  | @grant pid q rest p script x hphase hp hs _ hcalls _ ht hscripts =>
    intro pid' p' script' hp' hs'
    obtain ⟨p₀, hp₀, hage⟩ := process?_age_of_repriced ht.symm hp'
    rw [hscripts, Scripts.find?_put] at hs'
    rw [← hage]
    by_cases hpid : pid' = pid
    · cases (if_pos hpid).symm.trans hs'
      cases (hpid ▸ hp).symm.trans hp₀
      exact h.due_grant hsc hm hphase hp hs
    · exact h _ _ _ hp₀ ((if_neg hpid).symm.trans hs')
  | refuse _ hcalls _ _ ht hscripts =>
    refine h.keep fun {pid' p' script} hp' hs' => ⟨?_, hscripts ▸ hs'⟩
    obtain ⟨p₁, hp₁, hage⟩ := process?_age_of_repriced ht.symm hp'
    rw [State.process?_park] at hp₁
    split at hp₁
    · obtain ⟨p, hp, rfl⟩ := Option.map_eq_some_iff.1 hp₁
      exact ⟨p, hp, hage.symm⟩
    · exact ⟨p₁, hp₁, hage.symm⟩
  | @execute pid p script script' expired hphase _ hp hs _ hexp hstate hscripts =>
    intro pid' p' script₀ hp' hs'
    rw [hstate, State.process?_adjust_age] at hp'
    rw [hscripts, Scripts.find?_put] at hs'
    by_cases hpid : pid' = pid
    · rw [if_pos hpid, hpid, hp] at hp'
      cases hp'
      cases (if_pos hpid).symm.trans hs'
      obtain ⟨job, hjob, -, hplays⟩ := hm.stage.plays_of_find? hp hs
      rw [hphase] at hplays
      exact (hplays.due_expire (hsc.jobs job hjob) hexp).2 ▸ List.suffix_refl _
    · exact h _ _ _ ((if_neg hpid).symm.trans hp') ((if_neg hpid).symm.trans hs')
  | release _ hcalls _ ht _ hwoken hscripts =>
    refine h.keep fun {pid' p' script} hp' hs' => ⟨?_, hscripts ▸ hs'⟩
    obtain ⟨p, hp, -, hage⟩ := ht.of_process?_vacate hp'
    exact ⟨p, hp, hage⟩

end AsListed

/-! ## Whoever is waited for waits for something of a higher rank -/

/-- A process that asks for one resource first and holds another one has listed the held one as
`HeldAt` that time. -/
theorem AsListed.heldAt (hm : m.Steady sc) (h : m.AsListed) {pid : Pid} {p : Process}
    {script : Script} (hp : m.state.process? pid = some p) (hs : m.scripts.find? pid = some script)
    {q : Request} {rest : List Request} (hdue : script.due p.age = q :: rest) {r : ResourceId}
    (hr : r ∈ script.held) : ∃ job ∈ sc.jobs, q ∈ job.requests ∧
      ∃ held ∈ job.requests, held.resource = r ∧ job.HeldAt held q := by
  obtain ⟨job, hjob, -, hplays⟩ := hm.stage.plays_of_find? hp hs
  obtain ⟨hq, hage, -⟩ := hplays.mem_due.1 (hdue ▸ List.mem_cons_self ..)
  obtain ⟨x, hx, rfl⟩ := List.mem_map.1 hr
  obtain ⟨held, hheld, hres, hle, hend⟩ := hplays.origin x hx
  have hpos := hplays.remaining_pos x hx
  refine ⟨job, hjob, hq, held, hheld, hres, hage ▸ hle, by omega, fun heq => ?_⟩
  -- Of the requests for this age the held one is not among those that come last and are due.
  obtain ⟨front, hfront⟩ := h _ _ _ hp hs
  have hmem : held ∈ front ++ script.due p.age := by
    rw [hfront, hplays.requests]
    exact List.mem_filter.2 ⟨hheld, decide_eq_true (heq.trans hage)⟩
  have hgranted : held ∈ front := by
    refine (List.mem_append.1 hmem).resolve_right fun hmem => ?_
    exact (hplays.mem_due.1 hmem).2.2 (hres ▸ List.mem_map_of_mem hx)
  have hsub : [held, q].Sublist (front ++ q :: rest) :=
    (List.singleton_sublist.2 hgranted).append (List.singleton_sublist.2 (List.mem_cons_self ..))
  rw [← hdue, hfront, hplays.requests] at hsub
  exact hsub.trans List.filter_sublist

/-- What a process owns ranks lower than what it waits for: it asks for that first, and holds the
other one then. -/
theorem AsListed.rank_lt (hm : m.Steady sc) (hw : m.Wakeful) (h : m.AsListed)
    (howed : m.phase.owed = fun _ => []) {rank : ResourceId → ρ} (hrank : sc.Ranked rank)
    {pid : Pid} {r r' : ResourceId} (howns : m.state.Owns pid r) (hwaits : m.state.Waits pid r') :
    rank r < rank r' := by
  obtain ⟨q, rest, ⟨p, script, hp, hs, hdue⟩, rfl⟩ := hw.waiter hwaits
  obtain ⟨script', hs', hr⟩ := hm.stage.owns_iff.1 howns
  cases hs.symm.trans hs'
  rw [howed, List.append_nil] at hr
  obtain ⟨job, hjob, hq, held, hheld, rfl, hat⟩ := h.heldAt hm hp hs hdue hr
  exact hrank job hjob held hheld q hq hat

/-- Along a chain of waiting the ranks of what is waited for go up, by `rank_lt` at each process on
it. -/
theorem AsListed.rank_lt_of_transGen (hm : m.Steady sc) (hw : m.Wakeful) (h : m.AsListed)
    (howed : m.phase.owed = fun _ => []) {rank : ResourceId → ρ} (hrank : sc.Ranked rank)
    {w z : Pid}
    (hpath : TransGen m.state.WaitsFor w z) {r r' : ResourceId} (hr : m.state.Waits w r)
    (hr' : m.state.Waits z r') : rank r < rank r' := by
  have hstep : ∀ {w z r r'}, m.state.WaitsFor w z → m.state.Waits w r → m.state.Waits z r' →
      rank r < rank r' := by
    rintro w z r r' ⟨r₁, hr₁, howns⟩ hr hr'
    cases hm.stage.settled.waits_unique hr hr₁
    exact h.rank_lt hm hw howed hrank howns hr'
  induction hpath generalizing r' with
  | single hwait => exact hstep hwait hr hr'
  | tail _ hwait ih =>
    have ⟨r₁, hr₁, _⟩ := hwait
    exact (ih hr₁).trans (hstep hwait hr₁ hr')

/-- Nobody waits in a circle: by `rank_lt_of_transGen` the rank of what is waited for would be below
itself. -/
theorem AsListed.not_circularWait (hm : m.Steady sc) (hw : m.Wakeful) (h : m.AsListed)
    (howed : m.phase.owed = fun _ => []) {rank : ResourceId → ρ} (hrank : sc.Ranked rank)
    (c : Cycle Pid) : ¬ m.state.CircularWait c := by
  intro hc
  obtain ⟨w, hmem⟩ := hc.exists_mem
  obtain ⟨-, -, r, hr, -⟩ := hc.exists_next hmem
  have haround : c.Chain (TransGen m.state.WaitsFor) := hc.chain.imp fun _ _ => .single
  have hself := Cycle.chain_iff_pairwise.1 haround w hmem w hmem
  exact lt_irrefl _ (h.rank_lt_of_transGen hm hw howed hrank hself hr hr)

end Machine

namespace Scenario

variable {sc : Scenario}

/-- If the resources are ranked, no run ends in a deadlock, since the last state of one that does
has a `CircularWait`. -/
theorem Reaches.exit_ne_deadlock {σ : Type} {P : Policy σ} {memory : σ} {m : Machine σ}
    (hsc : sc.Admitted) (hP : P.Lawful) {rank : ResourceId → ρ} (hrank : sc.Ranked rank)
    (h : sc.Reaches P memory m) : m.phase ≠ .over .deadlock := by
  intro hphase
  have hrest := Phase.isSwitching_of_over hphase
  have hsteady := h.steady hsc hP hrest
  obtain ⟨hwakeful, hlisted⟩ : m.Wakeful ∧ m.AsListed :=
    h.invariant (I := fun m => m.Wakeful ∧ m.AsListed) hsc hP
      (fun memory => ⟨.initial sc memory, .initial sc memory⟩)
      (fun hm hI hstr => ⟨hI.1.strides hm hstr, hI.2.episode hsc.sound hm (hm.episode hstr)⟩) hrest
  obtain ⟨-, hne, hall⟩ := h.accounts hsc hP hphase
  obtain ⟨c, hc⟩ := (hwakeful.deadlocked hsteady (by simp [hphase]) hall hne).circle
  exact hlisted.not_circularWait hsteady hwakeful (by rw [hphase]; rfl) hrank c hc

/-- With **ordered acquisition** everybody is served: if every job asks for a resource only while
all that it holds ranks lower, so that the scenario is `Ranked`, and the limit leaves room for the
last start and all lifespans, the run ends normally under every discipline: each process has
executed its lifespan and left. -/
theorem Admitted.ordered_acquisition (h : sc.Admitted) {d : Discipline}
    (hc : d = .ceiling → 0 < sc.ceiling) {rank : ResourceId → ρ} (hrank : sc.Ranked rank)
    (hroom : sc.lastStart + sc.totalLifespan ≤ sc.limit) (memory : Memory) :
    ∃ t, (sc.run d.policy memory sc.stepBound).trace? = some t ∧ t.exit = .normal ∧
      ∀ job ∈ sc.jobs, t.ranCount job.pid = job.lifespan ∧
        ∃ tick, ⟨tick, .left job.pid⟩ ∈ t.events := by
  have hne : ¬ (d = .ceiling ∧ sc.ceiling = 0) := fun ⟨hd, hzero⟩ =>
    absurd (hc hd) (hzero ▸ Nat.lt_irrefl 0)
  obtain ⟨exit, -, hreach, hphase⟩ := h.reaches_end hne memory
  have hexit : exit = .normal := by
    cases exit with
    | normal => rfl
    | deadlock => exact absurd hphase (hreach.exit_ne_deadlock h d.lawful hrank)
    | tickLimit =>
      have hlt := hreach.limit_lt h d.lawful d.conserving hphase
      exact absurd hroom (Nat.not_le.2 hlt)
  subst hexit
  refine ⟨_, hreach.trace?_of_over h d.lawful hphase, rfl, fun job hjob => ?_⟩
  have hleft := hreach.left_of_normal h d.lawful hphase hjob
  obtain ⟨-, henr, -⟩ := hreach.chronicled h d.lawful (by rw [hphase]; rfl)
  refine ⟨?_, Machine.mem_history.1 hleft⟩
  rw [Trace.ranCount, ← Machine.count_history]
  exact henr.served hjob hleft

/-- Two processes, the second one more urgent and later, each of which holds the first resource for
its whole lifespan and asks for the second one after its first tick. -/
def aligned : Scenario where
  resourceCount := 2
  ceiling := 9
  limit := 100
  jobs := [
    { pid := 1, lifespan := 3, prio := 1, requests := [⟨0, 0, 3⟩, ⟨1, 1, 1⟩] },
    { pid := 2, start := 1, lifespan := 3, prio := 9, requests := [⟨0, 0, 3⟩, ⟨1, 1, 1⟩] }]

theorem admitted_aligned : aligned.Admitted where
  built := ⟨⟨2, 9, 100, aligned.jobs, 3⟩, rfl⟩
  lifespan_lt := by decide
  limit_le := by decide

/-- Of the aligned processes the second one is refused the first resource, and both get their work
done. -/
theorem ordered_acquisition_aligned : aligned.Ranked (ρ := Nat) id ∧ ∃ t,
    (aligned.run Discipline.inheritance.policy none aligned.stepBound).trace? = some t ∧
      t.exit = .normal ∧ t.refusalCount 2 = 1 ∧ t.ranCount 1 = 3 ∧ t.ranCount 2 = 3 ∧
      ∃ tick, ⟨tick, .left 2⟩ ∈ t.events := by
  have hrank : aligned.Ranked (ρ := Nat) id := by decide
  obtain ⟨t, ht, hexit, hdone⟩ := admitted_aligned.ordered_acquisition (d := .inheritance)
    (by decide) hrank (by decide) none
  have hm : aligned.Reaches Discipline.inheritance.policy none _ := .of_sorted (by decide) rfl 80
  have heq := ht.symm.trans
    (hm.trace?_of_over admitted_aligned Discipline.inheritance.lawful
      (rfl : _ = Phase.over .normal))
  have hrefused : t.refusalCount 2 = 1 := by
    cases heq
    rfl
  obtain ⟨hone, -⟩ := hdone _ (List.mem_cons_self ..)
  obtain ⟨htwo, hleft⟩ := hdone _ (List.mem_cons_of_mem _ (List.mem_cons_self ..))
  exact ⟨hrank, t, ht, hexit, hrefused, hone, htwo, hleft⟩

end Scenario

end Uniprocessor
