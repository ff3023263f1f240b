import Uniprocessor.Proofs.Aging
import Uniprocessor.Proofs.Trail

/-!
# Credit for waiting

Under aging, a process that is not ready is at its base priority, and one that is ready is above it
by as many levels as it has been waiting for ticks, up to the largest priority. A tick counts if the
process was ready when the policy was asked for the first time in it. Whether it has been asked
before in a tick is what the policy remembers (`Machine.Recalls`), so it credits nobody twice for a
tick.
-/

namespace Uniprocessor

open Narrated

namespace Machine

variable {sc : Scenario} {m m' m₁ : Machine Memory} {past : List (Machine Memory)} {pid : Pid}

/-- What the policy remembers tells whether it has been asked in this tick: the tick of its last
pass. -/
structure Recalls (m : Machine Memory) (past : List (Machine Memory)) : Prop where
  /-- the clock does not go back -/
  past_le : ∀ x ∈ past, x.state.tick ≤ m.state.tick
  /-- the pass of the tick has been made if the policy has been asked, and not otherwise -/
  asked : m.memory = some m.state.tick ↔
    ∃ x ∈ past, x.phase = .choosing ∧ x.state.tick = m.state.tick

/-- Every ready process has been credited with the ticks for which it has `waited`: it is that many
levels above its base, up to `largestPrio`. -/
def Credited (m : Machine Memory) (past : List (Machine Memory)) : Prop :=
  ∀ {pid b n}, m.state.bid? pid = some (b, n) → pid ∈ m.state.ready →
    n = min largestPrio (b + waited pid past)

/-- The policy is asked for the first time in a tick if and only if it does not remember a pass of
the tick. -/
theorem Recalls.firstAsked_iff (h : m.Recalls past) (hphase : m.phase = .choosing) :
    m.FirstAsked past ↔ m.memory ≠ some m.state.tick := by
  rw [FirstAsked, Ne, h.asked]
  simp [hphase]

namespace Recalls

theorem initial (sc : Scenario) : (Machine.initial sc none).Recalls [] where
  past_le _ h := absurd h List.not_mem_nil
  asked := by simp [Machine.initial]

/-- Unless the policy is asked, it remembers what it did: a stride without a choice leaves what it
`Recalls` right. -/
theorem strides (hseason : m.Seasoned) (h : m.Recalls past) (hphase : m.phase ≠ .choosing)
    (hmem : m'.memory = m.memory) (hstr : m.Strides Discipline.aging.policy sc.limit m') :
    m'.Recalls (m :: past) := by
  have hle : ∀ x ∈ m :: past, x.state.tick ≤ m.state.tick :=
    List.forall_mem_cons.2 ⟨Nat.le_refl _, h.past_le⟩
  refine ⟨fun x hx => (hle x hx).trans hstr.tick_le, ?_⟩
  rcases hstr.tick_cases with htick | ⟨-, -, -, htick⟩
  · -- In its own tick the machine is not one that asks.
    rw [hmem, htick, h.asked]
    simp [hphase]
  · -- A tick that begins is ahead of all memory.
    rw [hmem, htick]
    refine iff_of_false (fun he => ?_) ?_
    · exact Nat.not_succ_le_self _ (hseason.early _ he)
    · rintro ⟨x, hx, -, he⟩
      exact Nat.not_succ_le_self _ (he ▸ hle x hx)

/-- After the policy has been asked, it remembers the tick, so it `Recalls` that it was asked in
it. -/
theorem choice (h : m.Recalls past) (hphase : m.phase = .choosing)
    (hmem : m'.memory = some m.state.tick) (htick₁ : m₁.state.tick = m.state.tick)
    (htick : m'.state.tick = m.state.tick) : m'.Recalls (m₁ :: m :: past) := by
  refine ⟨fun x hx => ?_, ?_⟩
  · rw [htick]
    rcases List.mem_cons.1 hx with rfl | hx
    · exact Nat.le_of_eq htick₁
    · rcases List.mem_cons.1 hx with rfl | hx
      · exact Nat.le_refl _
      · exact h.past_le x hx
  · rw [hmem, htick]
    exact iff_of_true rfl ⟨m, List.mem_cons_of_mem _ (List.mem_cons_self ..), hphase, rfl⟩

end Recalls

/-- A live process has its base priority from its job, so that `bid?` shows no base above the
ceiling. -/
theorem Steady.base_le (hsc : sc.Sound) (hm : m.Steady sc) {b n : Nat}
    (h : m.state.bid? pid = some (b, n)) : b ≤ sc.ceiling := by
  obtain ⟨p, hp, rfl, -⟩ := State.bid?_eq_some.1 h
  obtain ⟨job, hjob, script, -, -, hplays⟩ := hm.stage.plays hp
  exact hplays.base ▸ (hsc.jobs job hjob).prio_le

namespace Credited

/-- Unless the policy is asked, nobody is credited with anything; those who join have not `waited`,
and are at their base priority. -/
theorem joins {added : List Pid} (hseason : m.Seasoned) (h : m.Credited past)
    (hphase : m.phase ≠ .choosing) (hjoins : m.Joins added m')
    (hbase : ∀ {pid b n}, m'.state.bid? pid = some (b, n) → b ≤ largestPrio) :
    m'.Credited (m :: past) := by
  intro pid b n hb hmem
  have hle := hbase hb
  by_cases hwas : pid ∈ m.state.ready
  · have hb₀ := (hjoins.comes hb).resolve_right fun he => hjoins.fresh pid he.1 hwas
    rw [waited_of_ne_choosing hwas hphase]
    exact h hb₀ hwas
  · have hn : n = b := by
      rcases hjoins.comes hb with hb₀ | ⟨-, hn⟩
      · exact hseason.base hb₀ hwas
      · exact hn
    rw [waited_of_not_ready hwas]
    omega

/-- When the policy is asked for the first time in a tick, those who wait are credited with it:
`waited` and the levels of a `ripe` priority go up together. -/
theorem choice {t : State} {next : Option Pid} (hseason : m.Seasoned) (hrecalls : m.Recalls past)
    (h : m.Credited past) (hphase : m.phase = .choosing)
    (hripe : m.state.Ripened m.memory t m'.memory next)
    (hstate : m'.state = m.state.switched t next)
    (hstate₁ : m₁.state = t) (hphase₁ : m₁.phase ≠ .choosing)
    (hbase : ∀ {pid b n}, m'.state.bid? pid = some (b, n) → b ≤ largestPrio) :
    m'.Credited (m₁ :: m :: past) := by
  intro pid b n hb hmem
  have hle := hbase hb
  have hready : pid ∈ m₁.state.ready := by
    rwa [hstate₁, ← State.ready_switched m.state t next, ← hstate]
  rw [waited_of_ne_choosing hready hphase₁]
  rw [hstate₁, hripe.ready, List.mem_filter, decide_eq_true_eq] at hready
  obtain ⟨n₀, hb₀, rfl⟩ := bid?_of_ripened hripe hstate hb
  rw [if_neg hready.2]
  by_cases hwas : pid ∈ m.state.ready
  · have hn₀ := h hb₀ hwas
    rw [waited, if_pos hwas, State.ripe]
    by_cases hfirst : m.memory = some m.state.tick
    · rw [if_neg fun he => he.1 hfirst,
        if_neg fun he => (hrecalls.firstAsked_iff hphase).1 he hfirst]
      exact hn₀
    · rw [if_pos ⟨hfirst, hwas⟩, if_pos ((hrecalls.firstAsked_iff hphase).2 hfirst),
        State.nextLevel]
      omega
  · -- Who comes back from the processor is at its base priority.
    rw [waited_of_not_ready hwas, State.ripe_of_not_ready hwas, hseason.base hb₀ hwas]
    omega

end Credited

/-- When the policy chooses, whoever rises does so because it is asked for the first time in the
tick, and by one level; whoever is chosen falls back to its base. -/
theorem Steady.firstAsked_of_choice (hsc : sc.Sound) (hceiling : sc.ceiling ≤ largestPrio)
    (hm : m.Steady sc) (hseason : m.Seasoned) (hrecalls : m.Recalls past)
    (hcredit : m.Credited past) (hphase : m.phase = .choosing)
    (hstep : (m.step Discipline.aging.policy sc.limit).result = .ok m') {b n b' n' : Nat}
    (hb : m.state.bid? pid = some (b, n)) (hb' : m'.state.bid? pid = some (b', n'))
    (hlt : n < n') : m.FirstAsked past ∧ n' = n + 1 := by
  obtain ⟨memory₁, t, next, hok, -, rfl⟩ :=
    hm.step_of_choosing Discipline.aging.lawful hphase hstep
  have hripe := hm.stage.settled.ripened hok
  have hbid := hripe.bid pid
  rw [hb, show t.bid? pid = some (b', n') from hb'] at hbid
  have hn' : n' = if next = some pid then b else m.state.ripe m.memory pid n :=
    congrArg Prod.snd (Option.some.inj hbid)
  by_cases hn : next = some pid
  · -- The chosen process falls back to its base.
    rw [if_pos hn] at hn'
    have hle := (hm.base_le hsc hb).trans hceiling
    by_cases hready : pid ∈ m.state.ready
    · have := hcredit hb hready
      omega
    · have := hseason.base hb hready
      omega
  · rw [if_neg hn, State.ripe] at hn'
    split at hn'
    · next hfirst =>
      refine ⟨(hrecalls.firstAsked_iff hphase).2 hfirst.1, ?_⟩
      rw [State.nextLevel] at hn'
      omega
    · omega

end Machine

namespace Scenario

variable {sc : Scenario} {memory : Memory} {m : Machine Memory} {past : List (Machine Memory)}

/-- Aging forgets its last pass when it is set up, so a run starts from the initial machine without
a memory. -/
theorem eq_initial_of_prepare_aging
    (h : (sc.prepare Discipline.aging.policy memory).result = .ok (.ok m)) :
    m = Machine.initial sc none := by
  have hsetup : (Discipline.aging.policy.setup memory (Machine.initial sc memory).state).result =
      .ok (.ok (none, (Machine.initial sc memory).state)) := rfl
  rw [prepare_of_ok hsetup] at h
  cases h
  rfl

/-- What holds all along a run under aging: the invariants of this module, by `Trail.invariant`. -/
theorem Trail.credited (hsc : sc.Admitted) (hceiling : sc.ceiling ≤ largestPrio)
    (h : sc.Trail Discipline.aging.policy memory (m :: past)) :
    (m.Steady sc ∧ m.Seasoned ∧ m.Recalls past ∧ m.Credited past) ∨
      ∃ m₁ before, past = m₁ :: before ∧ m₁.Steady sc ∧
        (m₁.Seasoned ∧ m₁.Recalls before ∧ m₁.Credited before) ∧ m₁.phase = .choosing ∧
        (m₁.step Discipline.aging.policy sc.limit).result = .ok m := by
  refine h.invariant (I := fun m past => m.Seasoned ∧ m.Recalls past ∧ m.Credited past) hsc
    Discipline.aging.lawful (fun hm => ?_) (fun hm hI hphase hstr => ?_)
    fun hm hI hphase hstep hstr => ?_
  · obtain rfl := eq_initial_of_prepare_aging hm
    exact ⟨.initial sc, .initial sc, fun hb => by cases hb⟩
  · obtain ⟨hseason, hrecalls, hcredit⟩ := hI
    obtain ⟨added, hjoins⟩ := hm.joins hphase hstr
    have hm' := hm.strides hsc.sound hstr
    exact ⟨hseason.strides hm hstr, hrecalls.strides hseason hphase hjoins.remembered hstr,
      hcredit.joins hseason hphase hjoins fun hb => (hm'.base_le hsc.sound hb).trans hceiling⟩
  · obtain ⟨hseason, hrecalls, hcredit⟩ := hI
    obtain ⟨t, next, hok, hchose, hripe, hstate⟩ := hm.ripened hphase hstr
    obtain ⟨memory₁, t₁, next₁, hok₁, -, rfl⟩ :=
      hm.step_of_choosing Discipline.aging.lawful hphase hstep
    cases hok.symm.trans hok₁
    have hm' := hm.strides hsc.sound hstr
    exact ⟨hseason.strides hm hstr,
      hrecalls.choice hphase hripe.remembered hchose.tick (hstr.tick_eq (by simp [hphase])),
      hcredit.choice hseason hrecalls hphase hripe hstate rfl (by simp)
        fun hb => (hm'.base_le hsc.sound hb).trans hceiling⟩

/-- Wherever no choice is being carried out, the invariants of `Trail.credited` hold. -/
theorem Trail.credited_of_rest (hsc : sc.Admitted) (hceiling : sc.ceiling ≤ largestPrio)
    (h : sc.Trail Discipline.aging.policy memory (m :: past))
    (hrest : m.phase.isSwitching = false) :
    m.Steady sc ∧ m.Seasoned ∧ m.Recalls past ∧ m.Credited past := by
  rcases h.credited hsc hceiling with hall | ⟨m₁, -, -, -, -, hphase, hstep⟩
  · exact hall
  · rw [Machine.isSwitching_of_step _ hphase hstep] at hrest
    cases hrest

/-- In every step whoever rises does so because the policy is asked for the first time in the tick,
and by one level. -/
theorem Trail.firstAsked_of_rise (hsc : sc.Admitted) (hceiling : sc.ceiling ≤ largestPrio)
    (ht : sc.Trail Discipline.aging.policy memory (m :: past)) {m' : Machine Memory}
    (hstep : (m.step Discipline.aging.policy sc.limit).result = .ok m') {pid : Pid}
    {p p' : Process} (hp : m.state.process? pid = some p) (hp' : m'.state.process? pid = some p')
    (hlt : p.prio < p'.prio) : m.FirstAsked past ∧ p'.prio = p.prio + 1 := by
  have hb := State.bid?_of_process? hp
  have hb' := State.bid?_of_process? hp'
  -- Elsewhere everybody goes on to bid as before.
  have hsame : m'.state.bid? pid = m.state.bid? pid → m.FirstAsked past ∧ p'.prio = p.prio + 1 := by
    intro heq
    rw [heq, hb] at hb'
    have hprio : p.prio = p'.prio := congrArg Prod.snd (Option.some.inj hb')
    exact absurd hlt (hprio ▸ Nat.lt_irrefl _)
  rcases ht.credited hsc hceiling with ⟨hm, hseason, hrecalls, hcredit⟩ |
    ⟨m₁, before, rfl, hm₁, -, hphase, hstep₁⟩
  · by_cases hover : ∃ exit, m.phase = .over exit
    · obtain ⟨exit, hover⟩ := hover
      rw [Machine.step_over hover] at hstep
      cases hstep
      exact hsame rfl
    · by_cases hphase : m.phase = .choosing
      · exact hm.firstAsked_of_choice hsc.sound hceiling hseason hrecalls hcredit hphase hstep hb
          hb' hlt
      · have hstr := hm.strides_of_stride hsc Discipline.aging.lawful
          (fun exit he => hover ⟨exit, he⟩) ((Machine.stride_of_ne_choosing hphase _).trans hstep)
        obtain ⟨added, hjoins⟩ := hm.joins hphase hstr
        exact hsame ((hjoins.stays hb).trans hb.symm)
  · -- The step is the second one of a choice.
    have hstr := hm₁.strides_of_choice hsc Discipline.aging.lawful hphase hstep₁ hstep
    obtain ⟨t, next, hok, -, -, hstate⟩ := hm₁.ripened hphase hstr
    obtain ⟨memory₁, t₁, next₁, hok₁, -, rfl⟩ :=
      hm₁.step_of_choosing Discipline.aging.lawful hphase hstep₁
    cases hok.symm.trans hok₁
    have hbid := State.bid?_of_switched m₁.state t next pid
    rw [← hstate, hb'] at hbid
    split at hbid
    · cases hbid
    · exact hsame (hb'.trans hbid)

/-- Exact **credit for waiting**: under aging, in every sample a process that executes or is blocked
is at its base priority, and one that is ready is above it by the number of ticks for which it has
`waited`, up to `largestPrio`. And whoever rises in a step does so when the policy is `FirstAsked`
in the tick, and by one level; so nobody is credited twice for one tick. -/
theorem Admitted.aging_credit (h : sc.Admitted) (hceiling : sc.ceiling ≤ largestPrio)
    (ht : sc.Trail Discipline.aging.policy memory (m :: past)) :
    (∀ x ∈ m.samples, ∃ closing before idle, closing :: before <:+ m :: past ∧
      closing.phase = .closing idle ∧ closing.state = x.state ∧
      ∀ pid p, x.state.process? pid = some p →
        (p.status ≠ .ready → p.prio = p.base) ∧
        (p.status = .ready →
          p.prio = min largestPrio (p.base + Machine.waited pid (closing :: before)))) ∧
    ∀ m', (m.step Discipline.aging.policy sc.limit).result = .ok m' → ∀ pid p p',
      m.state.process? pid = some p → m'.state.process? pid = some p' → p.prio < p'.prio →
      m.FirstAsked past ∧ p'.prio = p.prio + 1 := by
  refine ⟨fun x hx => ?_, fun m' hstep pid p p' hp hp' hlt =>
    ht.firstAsked_of_rise h hceiling hstep hp hp' hlt⟩
  obtain ⟨closing, before, idle, hsuffix, hphase, hstate⟩ :=
    ht.closedOn h Discipline.aging.lawful x hx
  refine ⟨closing, before, idle, hsuffix, hphase, hstate, fun pid p hp => ?_⟩
  obtain ⟨hm, hseason, -, hcredit⟩ := (ht.of_suffix hsuffix).credited_of_rest h hceiling
    (by rw [hphase]; rfl)
  rw [← hstate] at hp
  have hready : pid ∈ closing.state.ready ↔ p.status = .ready := by
    rw [hm.stage.settled.mem_ready, State.status?_of_process? hp, Option.some_inj]
  have hb := State.bid?_of_process? hp
  refine ⟨fun hne => hseason.base hb fun hmem => hne (hready.1 hmem), fun heq => ?_⟩
  rw [Machine.waited_of_ne_choosing (hready.2 heq) (by simp [hphase])]
  exact hcredit hb (hready.2 heq)

/-- Three processes, the second one less urgent by far. The third one asks for what the first one
holds. -/
def patient : Scenario where
  resourceCount := 1
  ceiling := 4
  limit := 100
  jobs := [
    { pid := 1, lifespan := 5, prio := 4, requests := [⟨0, 0, 3⟩] },
    { pid := 2, lifespan := 1, prio := 0 },
    { pid := 3, start := 1, lifespan := 2, prio := 4, requests := [⟨0, 0, 1⟩] }]

theorem admitted_patient : patient.Admitted where
  built := ⟨⟨1, 4, 100, patient.jobs, 4⟩, rfl⟩
  lifespan_lt := by decide
  limit_le := by decide

/-- In the second tick the policy is asked twice, since the third process is refused, but at the end
of it the second process has gained two levels for two ticks of waiting, and the third one none. In
the third tick it gains another one. -/
theorem aging_credit_patient : patient.ceiling ≤ largestPrio ∧ ∃ m past,
    patient.Trail Discipline.aging.policy none (m :: past) ∧ m.state.tick = 2 ∧ m.FirstAsked past ∧
      ∃ x ∈ m.samples, x.state.tick = 1 ∧ x.state.prioOf 2 = 2 ∧
        (∃ closing before, closing :: before <:+ m :: past ∧ closing.state = x.state ∧
          Machine.waited 2 (closing :: before) = 2) ∧
        ∃ p, x.state.process? 3 = some p ∧ p.status = .blocked ∧ p.prio = p.base := by
  have hceiling : patient.ceiling ≤ largestPrio := by decide
  have hm : patient.Reaches Discipline.aging.policy none _ := .of_sorted (by decide) rfl 28
  obtain ⟨past, ht⟩ := hm.exists_trail
  obtain ⟨hsamples, hrise⟩ := admitted_patient.aging_credit hceiling ht
  obtain ⟨hfirst, -⟩ := hrise _ rfl 2 _ _ rfl rfl (by decide)
  refine ⟨hceiling, _, past, ht, rfl, hfirst, _, Array.mem_of_getElem? (i := 1) rfl, rfl, rfl, ?_⟩
  obtain ⟨closing, before, -, hsuffix, -, hstate, hprio⟩ :=
    hsamples _ (Array.mem_of_getElem? (i := 1) rfl)
  have hwaited : 2 = min largestPrio (0 + Machine.waited 2 (closing :: before)) :=
    (hprio 2 _ rfl).2 rfl
  rw [largestPrio] at hwaited
  exact ⟨⟨closing, before, hsuffix, hstate, by omega⟩, _, rfl, rfl, (hprio 3 _ rfl).1 (by decide)⟩

end Scenario

end Uniprocessor
