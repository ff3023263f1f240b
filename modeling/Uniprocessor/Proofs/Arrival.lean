import Uniprocessor.Proofs.Punctual

/-!
# Arrivals

A job whose start comes before the limit arrives once, at its start, and jobs with the same start
arrive in the order in which they are listed: those who have arrived and those to come are always
the jobs in the order of arrival (`Registered`), and nobody is to come at the end of a run but those
who start at the limit or after it.
-/

namespace Uniprocessor

/-- The tick and the process of an arrival, if the event is one. -/
def Event.arrival? (e : Event) : Option (Nat × Pid) :=
  match e.what with
  | .arrived pid => some (e.tick, pid)
  | _ => none

namespace Trace

/-- What has happened is counted with its ticks or without them: the same events, by what they
tell. -/
theorem countP_what_eq (events : List Event) (what : Happening) :
    (events.countP fun e => e.what = what) = (events.map Event.what).count what := by
  rw [List.count, List.countP_map]
  refine List.countP_congr fun e _ => ?_
  simp

/-- The arrivals of one process, picked from all events or from what `arrival?` picks alone. -/
theorem filter_arrived_eq (events : List Event) (pid : Pid) :
    (events.filter fun e => e.what = .arrived pid) =
      ((events.filterMap Event.arrival?).filter fun a => a.2 = pid).map
        fun a => ⟨a.1, .arrived a.2⟩ := by
  induction events with
  | nil => rfl
  | cons e rest ih =>
    obtain ⟨tick, what⟩ := e
    cases what with
    | arrived other =>
      have hcons : (⟨tick, .arrived other⟩ :: rest).filterMap Event.arrival? =
          (tick, other) :: rest.filterMap Event.arrival? := rfl
      rw [hcons, List.filter_cons, List.filter_cons]
      by_cases hpid : other = pid <;> simp [hpid, ih]
    | _ => simpa [Event.arrival?, List.filterMap_cons] using ih

end Trace

namespace Machine

variable {σ : Type} {sc : Scenario} {P : Policy σ} {limit : Nat} {m m' : Machine σ}

/-- What a stride adds to the history it notes in its own tick: `Strides.notes` for entries that are
known. -/
theorem Strides.notes_of_history (hstr : m.Strides P limit m') {later : List Happening}
    (h : m'.history = m.history ++ later) : m.Notes m.state.tick later m' := by
  obtain ⟨later', hnotes⟩ := hstr.notes
  have heq := hnotes.history.symm.trans h
  rwa [List.append_cancel_left heq] at hnotes

theorem mem_history {what : Happening} :
    what ∈ m.history ↔ ∃ tick, ⟨tick, what⟩ ∈ m.events.toList := by
  rw [history, List.mem_map]
  constructor
  · rintro ⟨e, he, rfl⟩
    exact ⟨e.tick, he⟩
  · rintro ⟨tick, he⟩
    exact ⟨_, he, rfl⟩

theorem count_history (m : Machine σ) (what : Happening) :
    m.history.count what = m.events.toList.countP fun e => e.what = what :=
  (Trace.countP_what_eq _ _).symm

/-! ## Who arrives, and when -/

/-- An episode is an arrival, or leaves the jobs to come alone and records no arrival: the split for
everything about who has arrived. -/
theorem Episode.arrivals (h : m.Episode P m') :
    (∃ job, m.phase = .arriving ∧ m.arrivals = job :: m'.arrivals ∧
      m'.history = m.history ++ [.arrived job.pid]) ∨
    (m'.arrivals = m.arrivals ∧ ∃ later, m'.history = m.history ++ later ∧
      ∀ pid, .arrived pid ∉ later) := by
  cases h with
  | quiet _ _ _ harrivals _ hhistory =>
    exact Or.inr ⟨harrivals, [], by rw [hhistory, List.append_nil], fun _ => List.not_mem_nil⟩
  | arrive hphase harrivals _ _ _ hhistory => exact Or.inl ⟨_, hphase, harrivals, hhistory⟩
  | choose _ _ _ _ _ harrivals _ hidle hhistory =>
    refine Or.inr ⟨harrivals, _, hhistory, fun pid hmem => ?_⟩
    rcases History.eq_of_mem_choice _ hidle _ hmem with he | ⟨g, -, he⟩ <;> cases he
  | grant _ _ _ _ _ _ _ _ harrivals _ hhistory =>
    exact Or.inr ⟨harrivals, _, hhistory, fun _ => by simp⟩
  | refuse _ _ _ _ _ _ harrivals _ hhistory =>
    exact Or.inr ⟨harrivals, _, hhistory, fun _ => by simp⟩
  | execute _ _ _ _ _ _ _ _ harrivals _ hhistory =>
    exact Or.inr ⟨harrivals, _, hhistory, fun _ => by simp⟩
  | @release pid r _ _ _ woken _ _ _ _ _ _ _ harrivals _ hhistory =>
    refine Or.inr ⟨harrivals, _, hhistory, fun pid hmem => ?_⟩
    cases History.isOfResource_of_release _ _ woken _ hmem

/-- The arrivals so far, each with its tick. -/
def arrived (m : Machine σ) : List (Nat × Pid) := m.events.toList.filterMap Event.arrival?

theorem Notes.arrived_eq {tick : Nat} {later : List Happening} (h : m.Notes tick later m')
    (hnone : ∀ pid, .arrived pid ∉ later) : m'.arrived = m.arrived := by
  have hnil : (later.map (Event.mk tick)).filterMap Event.arrival? = [] := by
    refine List.filterMap_eq_nil_iff.2 fun e he => ?_
    obtain ⟨what, hwhat, rfl⟩ := List.mem_map.1 he
    cases what with
    | arrived pid => exact absurd hwhat (hnone pid)
    | _ => rfl
  rw [arrived, h, List.filterMap_append, hnil, List.append_nil, arrived]

theorem Notes.arrived_concat {tick : Nat} {pid : Pid} (h : m.Notes tick [.arrived pid] m') :
    m'.arrived = m.arrived ++ [(tick, pid)] := by
  rw [arrived, h, List.filterMap_append, arrived]
  rfl

/-- Those who have arrived and those to come are the jobs in the order of arrival. Each has arrived
at its start and before the limit, and none of those to come starts before now. -/
structure Registered (sc : Scenario) (m : Machine σ) : Prop where
  /-- those who have arrived, at their starts, come before those to come -/
  order : m.arrived ++ m.arrivals.map (fun job => (job.start, job.pid)) =
    (arrivalOrder sc.jobs).map fun job => (job.start, job.pid)
  /-- nobody has arrived at the limit or after it -/
  early : ∀ a ∈ m.arrived, a.1 < sc.limit
  /-- nobody to come starts before now -/
  coming : ∀ job ∈ m.arrivals, m.state.tick ≤ job.start

namespace Registered

theorem initial (sc : Scenario) (memory : σ) : (Machine.initial sc memory).Registered sc where
  order := rfl
  early _ ha := absurd ha List.not_mem_nil
  coming _ _ := Nat.zero_le _

/-- Every stride leaves a machine `Registered`: an arrival is that of the first job to come, when
its start has come and not later. -/
theorem strides (hm : m.Steady sc) (hp : m.Punctual sc) (h : m.Registered sc)
    (hstr : m.Strides P sc.limit m') : m'.Registered sc := by
  rcases (hm.episode hstr).arrivals with ⟨job, hphase, harrivals, hhistory⟩ |
    ⟨harrivals, later, hhistory, hnone⟩
  · have htick : m'.state.tick = m.state.tick := hstr.tick_eq (by simp [hphase])
    -- The job is not late, and nobody waits for its start.
    have hstart : job.start = m.state.tick := by
      refine Nat.le_antisymm ?_ (h.coming job (harrivals ▸ List.mem_cons_self ..))
      cases hstr with
      | arrive _ harrivals' hstart =>
        rw [harrivals] at harrivals'
        cases harrivals'
        exact hstart
      | gather =>
        have hlen := congrArg List.length harrivals
        simp at hlen
      | _ hphase' =>
        rw [hphase] at hphase'
        cases hphase'
    have hlimit : m.state.tick < sc.limit := by
      refine (hm.onTime_of hphase).resolve_right fun hdown => ?_
      rw [isWindingDown_eq_true, harrivals] at hdown
      cases hdown.1
    have harr := (hstr.notes_of_history hhistory).arrived_concat
    refine ⟨?_, fun a ha => ?_, fun other hother => ?_⟩
    · rw [harr, ← h.order, harrivals, List.map_cons, List.append_assoc, hstart]
      rfl
    · rw [harr] at ha
      rcases List.mem_append.1 ha with ha | ha
      · exact h.early a ha
      · rw [List.mem_singleton.1 ha]
        exact hlimit
    · rw [htick]
      exact h.coming other (harrivals ▸ List.mem_cons_of_mem _ hother)
  · have harr := (hstr.notes_of_history hhistory).arrived_eq hnone
    refine ⟨by rw [harr, harrivals, h.order], harr ▸ h.early, fun job hjob => ?_⟩
    rw [harrivals] at hjob
    rcases hstr.tick_cases with htick | ⟨idle, hclose, -, htick⟩
    · rw [htick]
      exact h.coming job hjob
    · rw [htick]
      exact hp.gathered (by rw [hclose]; rfl) job hjob

/-- At the end of a run those who started before the limit have arrived, in the order of arrival and
each at its start, and nobody else. -/
theorem arrived_eq (h : m.Registered sc) {exit : Exit} (hend : m.Accounts sc.limit exit) :
    m.arrived = ((arrivalOrder sc.jobs).filter fun job => job.start < sc.limit).map
      fun job => (job.start, job.pid) := by
  have hlate : ∀ job ∈ m.arrivals, ¬ job.start < sc.limit := by
    intro job hjob
    have hcoming := h.coming job hjob
    cases exit with
    | normal => exact absurd hjob (hend.1 ▸ List.not_mem_nil)
    | deadlock => exact absurd hjob (hend.1 ▸ List.not_mem_nil)
    | tickLimit =>
      have hlimit := hend.1
      omega
  have hfilter := congrArg (List.filter fun a : Nat × Pid => a.1 < sc.limit) h.order
  rw [List.filter_append, List.filter_eq_self.2 (by simpa using h.early), List.filter_map,
    List.filter_eq_nil_iff.2 (by simpa using hlate), List.map_nil, List.append_nil,
    List.filter_map] at hfilter
  exact hfilter

end Registered

end Machine

namespace Scenario

variable {sc : Scenario}

/-- The job with the number of a job is that job, if the numbers are not repeated, so filtering by
it leaves one. -/
theorem filter_pid_eq_singleton {jobs : List Job} (hnodup : (jobs.map Job.pid).Nodup) {job : Job}
    (hjob : job ∈ jobs) : (jobs.filter fun other => other.pid = job.pid) = [job] := by
  have hsame : (jobs.filter fun other => other.pid = job.pid) = jobs.filter (· = job) :=
    List.filter_congr fun other hother => decide_eq_decide.2
      ⟨fun he => List.inj_on_of_nodup_map hnodup hother hjob he, congrArg Job.pid⟩
  rw [hsame, List.filter_eq, List.count_eq_one_of_mem hnodup.of_map hjob]
  rfl

/-- If those who started before the limit have arrived in order, each of them has arrived once and
at its start. -/
theorem filter_arrived_of_order (hsc : sc.Sound) {events : List Event}
    (horder : events.filterMap Event.arrival? =
      ((Machine.arrivalOrder sc.jobs).filter fun job => job.start < sc.limit).map
        fun job => (job.start, job.pid))
    {job : Job} (hjob : job ∈ sc.jobs) (hlimit : job.start < sc.limit) :
    (events.filter fun e => e.what = .arrived job.pid) = [⟨job.start, .arrived job.pid⟩] := by
  have hperm : (Machine.arrivalOrder sc.jobs).Perm sc.jobs := List.mergeSort_perm ..
  have hnodup : ((Machine.arrivalOrder sc.jobs).map Job.pid).Nodup :=
    (hperm.map _).nodup_iff.2 hsc.pids_nodup
  rw [Trace.filter_arrived_eq, horder, List.filter_map]
  simp only [Function.comp_def]
  rw [filter_pid_eq_singleton (hnodup.sublist (List.filter_sublist.map Job.pid))
    (List.mem_filter.2 ⟨hperm.mem_iff.2 hjob, decide_eq_true hlimit⟩)]
  rfl

end Scenario

end Uniprocessor
