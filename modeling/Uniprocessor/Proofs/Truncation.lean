import Uniprocessor.Proofs.Later

/-!
# The limit only truncates

The limit of a scenario is looked at before a tick and nowhere else. So two runs of a scenario with
different limits go through the same machines, until the one with the smaller limit is stopped: then
it has come to the boundary of a tick to which the other one comes as well
(`Reaches.reaches_or_stopped`). If it is not stopped, the runs have the same trace; if it is, its
trace is what the other one says of the ticks before the smaller limit
(`Scenario.Admitted.limit_truncates`).
-/

namespace Uniprocessor

open Narrated

variable {σ : Type} {sc : Scenario} {P : Policy σ} {memory : σ} {limit lo hi : Nat}
  {m m' : Machine σ}

/-- The scenario with another limit. -/
def Scenario.upTo (sc : Scenario) (limit : Nat) : Scenario := { sc with limit := limit }

/-- A scenario stays admitted with another limit that the clock can reach, as the check of a draft
does not look at the limit. -/
theorem Scenario.Admitted.upTo (h : sc.Admitted) (hlimit : limit ≤ largestTick) :
    (sc.upTo limit).Admitted where
  built := by
    obtain ⟨d, hd⟩ := h.built
    refine ⟨{ d with limit := limit }, ?_⟩
    simp only [Draft.build, Draft.check_bind_eq_ok, Draft.demand_eq_ok, Draft.checkJobs_eq_ok,
      Draft.checkJob, Draft.checkRequests_eq_ok] at hd ⊢
    obtain ⟨hjobs, hcount, hcheck, hsc⟩ := hd
    cases hsc
    exact ⟨hjobs, hcount, hcheck, rfl⟩
  lifespan_lt := h.lifespan_lt
  limit_le := hlimit

namespace Machine

/-- The limit is looked at before a tick only: in all other phases a step is the same under both
limits. -/
theorem step_limit (hphase : m.phase ≠ .boundary) (lo hi : Nat) : m.step P lo = m.step P hi := by
  unfold step
  split
  · next h => exact absurd h hphase
  all_goals rfl

/-- Before a tick, `openTick` goes on in the same way under both limits, unless the smaller one
stops it. -/
theorem openTick_limit (hle : lo ≤ hi) :
    m.openTick lo = m.openTick hi ∨
      m.openTick lo = { m with phase := .ending .tickLimit } ∧ lo ≤ m.state.tick := by
  unfold openTick
  by_cases hstop : lo ≤ m.state.tick ∧ m.isWindingDown = false
  · rw [if_pos hstop]
    exact Or.inr ⟨rfl, hstop.1⟩
  · have hgo : ¬ (hi ≤ m.state.tick ∧ m.isWindingDown = false) := fun h =>
      hstop ⟨hle.trans h.1, h.2⟩
    rw [if_neg hstop, if_neg hgo]
    exact Or.inl rfl

/-- The machine has been stopped by its limit where the other one stands, and is about to end or has
ended. -/
structure StoppedAt (m x : Machine σ) : Prop where
  /-- the run is over, or about to be -/
  phase : m.phase = .ending .tickLimit ∨ m.phase = .over .tickLimit
  /-- nothing has changed -/
  state : m.state = x.state
  /-- nothing was recorded -/
  events : m.events = x.events

/-- A machine that is `StoppedAt` another one stays so: its further steps end the run and record
nothing. -/
theorem StoppedAt.step (hP : P.Lawful) {x : Machine σ} (h : m.StoppedAt x)
    (hstep : (m.step P limit).result = .ok m') : m'.StoppedAt x := by
  rcases h.phase with hphase | hphase
  · obtain ⟨memory', hok⟩ := hP.finish m.memory m.state
    simp only [Machine.step, hphase, conclude, result_bind, hok, ok_bind] at hstep
    cases hstep
    exact ⟨Or.inr rfl, h.state, h.events⟩
  · cases (step_over hphase).symm.trans hstep
    exact h

end Machine

namespace Scenario

/-- A policy is set up in the same way under every limit, since the limit is not in its state. -/
theorem prepare_limit (lo hi : Nat) :
    ((sc.upTo lo).prepare P memory).result = ((sc.upTo hi).prepare P memory).result := by
  simp only [prepare, result_bind]
  refine congrArg _ (funext fun answer => ?_)
  cases answer <;> rfl

/-- A run with the smaller limit goes through the machines of the run with the larger one, or it is
`StoppedAt` a tick to which that one has come: by induction on the steps, each by `step_limit` or
`openTick_limit`. -/
theorem Reaches.reaches_or_stopped (hP : P.Lawful) (hle : lo ≤ hi)
    (h : (sc.upTo lo).Reaches P memory m) :
    (sc.upTo hi).Reaches P memory m ∨
      ∃ x, (sc.upTo hi).Reaches P memory x ∧ lo ≤ x.state.tick ∧ m.StoppedAt x := by
  induction h with
  | start hprep => exact Or.inl (.start (prepare_limit lo hi ▸ hprep))
  | @step m m' _ hstep ih =>
    rcases ih with hreach | ⟨x, hx, hlimit, hstopped⟩
    · by_cases hphase : m.phase = .boundary
      · rw [Machine.step, hphase] at hstep
        cases hstep
        rcases m.openTick_limit hle with heq | ⟨hstop, hlimit⟩
        · refine Or.inl (hreach.step ?_)
          rw [Machine.step, hphase]
          exact congrArg Except.ok heq.symm
        · exact Or.inr ⟨m, hreach, hlimit, hstop ▸ ⟨Or.inl rfl, rfl, rfl⟩⟩
      · exact Or.inl (hreach.step (Machine.step_limit hphase lo hi ▸ hstep))
    · exact Or.inr ⟨x, hx, hlimit, hstopped.step hP hstep⟩

/-- A run that is stopped by its limit stops with the clock at it, and has recorded nothing in that
tick. -/
theorem Reaches.stopped_at_limit (hsc : sc.Admitted) (hP : P.Lawful) (hcons : P.Conserving)
    (h : sc.Reaches P memory m) (hphase : m.phase = .over .tickLimit) :
    m.state.tick = sc.limit ∧ ∀ e ∈ m.events.toList, e.tick < sc.limit := by
  have hlimit : sc.limit ≤ m.state.tick := (h.accounts hsc hP hphase).1
  have hle := (h.punctual hsc hP hcons (Phase.isSwitching_of_over hphase)).limit
  have htick : m.state.tick = sc.limit := Nat.le_antisymm hle hlimit
  exact ⟨htick, htick ▸ h.lt_of_isUnopened hsc hP (by rw [hphase]; rfl)⟩

/-- The **limit only truncates**: a larger limit changes nothing for a run that its limit does not
stop. A run that is stopped by its limit stops when the clock has come to it; what has happened by
then is what happens before that tick under the larger limit, and the run with that limit does not
stop earlier. -/
theorem Admitted.limit_truncates (h : sc.Admitted) {d : Discipline}
    (hc : ¬ (d = .ceiling ∧ sc.ceiling = 0)) (memory : Memory) (hle : lo ≤ hi)
    (hhi : hi ≤ largestTick) :
    ∃ t t', ((sc.upTo lo).run d.policy memory (sc.upTo lo).stepBound).trace? = some t ∧
      ((sc.upTo hi).run d.policy memory (sc.upTo hi).stepBound).trace? = some t' ∧
      (t.exit ≠ .tickLimit → t = t') ∧
      (t.exit = .tickLimit → t.endTick = lo ∧
        t.events = (t'.events.filter fun e => e.tick < lo) ∧ lo ≤ t'.endTick) := by
  have hlo := h.upTo (hle.trans hhi)
  have hhi := h.upTo hhi
  obtain ⟨exit, -, hreach, hphase⟩ := hlo.reaches_end hc memory
  generalize ((sc.upTo lo).run d.policy memory (sc.upTo lo).stepBound).machine = m at hreach hphase
  have ht := hreach.trace?_of_over hlo d.lawful hphase
  rcases hreach.reaches_or_stopped d.lawful hle with hreach' | ⟨x, hx, hlimit, hstopped⟩
  · refine ⟨_, _, ht, hreach'.trace?_of_over hhi d.lawful hphase, fun _ => rfl, ?_⟩
    rintro rfl
    obtain ⟨htick, hbefore⟩ := hreach.stopped_at_limit hlo d.lawful d.conserving hphase
    exact ⟨htick, (Trace.before_eq_self hbefore).symm, Nat.le_of_eq htick.symm⟩
  · obtain rfl : exit = .tickLimit := by
      rcases hstopped.phase with hover | hover <;> cases hphase.symm.trans hover
      rfl
    obtain ⟨t', ht', hend, later, hevents, hlater⟩ := hx.exists_trace hhi d.lawful
    obtain ⟨htick, hbefore⟩ := hreach.stopped_at_limit hlo d.lawful d.conserving hphase
    refine ⟨_, t', ht, ht', fun hne => absurd rfl hne, fun _ => ⟨htick, ?_, hlimit.trans hend⟩⟩
    -- What the other run records later it records at the limit or after it.
    change m.events.toList = Trace.before lo t'.events
    have hbefore : Trace.before lo m.events.toList = m.events.toList := Trace.before_eq_self hbefore
    rw [hevents, ← hstopped.events, Trace.before_append, hbefore,
      Trace.before_eq_nil fun e he => hlimit.trans (hlater e he), List.append_nil]

/-- With a limit of two ticks the crowded processes are stopped after two of them have been refused
the resource in one tick. With a limit of four ticks they are not stopped, although the last of them
leaves at the limit. -/
theorem limit_truncates_crowded :
    ∃ t t₂ t₄, (crowded.run Discipline.roundRobin.policy none crowded.stepBound).trace? = some t ∧
      ((crowded.upTo 2).run Discipline.roundRobin.policy none (crowded.upTo 2).stepBound).trace? =
        some t₂ ∧
      ((crowded.upTo 4).run Discipline.roundRobin.policy none (crowded.upTo 4).stepBound).trace? =
        some t₄ ∧
      t₂.exit = .tickLimit ∧ t₂.endTick = 2 ∧ ⟨1, .refused 3 0⟩ ∈ t₂.events ∧
      t₂.events = (t.events.filter fun e => e.tick < 2) ∧ 2 ≤ t.endTick ∧
      t₄ = t ∧ ⟨4, .left 3⟩ ∈ t₄.events := by
  have hmax : 100 ≤ largestTick := by decide
  obtain ⟨t₂, t, ht₂, ht, -, hstopped⟩ := admitted_crowded.limit_truncates (d := .roundRobin)
    (by simp) none (show 2 ≤ 100 by decide) hmax
  obtain ⟨t₄, t', ht₄, ht', hsame, -⟩ := admitted_crowded.limit_truncates (d := .roundRobin)
    (by simp) none (show 4 ≤ 100 by decide) hmax
  cases ht.symm.trans ht'
  have hm₂ : (crowded.upTo 2).Reaches Discipline.roundRobin.policy none _ :=
    .of_sorted (by decide) rfl 60
  have hm₄ : (crowded.upTo 4).Reaches Discipline.roundRobin.policy none _ :=
    .of_sorted (by decide) rfl 60
  cases ht₂.symm.trans (hm₂.trace?_of_over (admitted_crowded.upTo (by decide))
    Discipline.roundRobin.lawful (rfl : _ = Phase.over .tickLimit))
  cases ht₄.symm.trans (hm₄.trace?_of_over (admitted_crowded.upTo (by decide))
    Discipline.roundRobin.lawful (rfl : _ = Phase.over .normal))
  obtain ⟨hend, hevents, hle⟩ := hstopped rfl
  exact ⟨t, _, _, ht, ht₂, ht₄, rfl, hend, by decide, hevents, hle, hsame (by decide), by decide⟩

end Scenario

end Uniprocessor
