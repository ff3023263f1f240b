import Mathlib.Data.List.DropRight
import Uniprocessor.Proofs.Strides

/-!
# What a run has recorded

The history of a machine is what has happened so far, without the ticks. A stride adds to it at its
end, and what it can add depends on the phase that it leaves (`Phase.Tells`). The dealings are the
part of the history that says who got which resource, who had to wait for it and who gave it back.
-/

namespace Uniprocessor

/-- Whether the event says that a resource was granted, refused or given back. -/
def Happening.isDealing : Happening → Bool
  | .acquired .. | .refused .. | .released .. => true
  | _ => false

namespace Phase

/-- Whether a resource is asked for or given back in the stride that leaves the phase. -/
def deals : Phase → Bool
  | .requesting _ (_ :: _) | .releasing .. => true
  | _ => false

/-- Whether this may be recorded in the stride that leaves the phase: only who executes is said to
have executed, and only who asks for something or gives something back is said to have done so. -/
def Tells (phase : Phase) : Happening → Prop
  | .executed pid => phase = .executing pid
  | .acquired pid r | .refused pid r =>
    ∃ q rest, phase = .requesting pid (q :: rest) ∧ q.resource = r
  | .released pid r => ∃ waiters due, phase = .releasing pid r waiters due
  | _ => True

theorem deals_of_tells {phase : Phase} {e : Happening} (h : phase.Tells e)
    (he : e.isDealing = true) : phase.deals = true := by
  cases e with
  | acquired | refused =>
    obtain ⟨q, rest, rfl, -⟩ := h
    rfl
  | released =>
    obtain ⟨waiters, due, rfl⟩ := h
    rfl
  | _ => cases he

end Phase

namespace Machine

variable {σ : Type} {P : Policy σ} {limit : Nat} {m m' : Machine σ}

/-- What has happened so far, the first first. These are the events without their ticks. -/
def history (m : Machine σ) : List Happening := m.events.toList.map Event.what

theorem history_congr (h : m'.events = m.events) : m'.history = m.history := by
  rw [history, history, h]

/-- An event that is pushed comes last in the `history`. -/
theorem history_push {e : Event} (h : m'.events = m.events.push e) :
    m'.history = m.history ++ [e.what] := by
  rw [history, history, h, Array.toList_push, List.map_append, List.map_singleton]

theorem history_record (m : Machine σ) (what : Happening) :
    (m.record what).history = m.history ++ [what] :=
  history_push (e := ⟨m.state.tick, what⟩) rfl

/-- Carrying a choice out records that the `leaver?` has left, if there is one, and nothing else. -/
theorem history_carriedOut (m : Machine σ) (memory : σ) (t : State) (next : Option Pid) :
    (m.carriedOut memory t next).history = m.history ++ m.state.leaver?.toList.map .left := by
  rw [carriedOut]
  cases m.state.leaver? with
  | none => exact (List.append_nil _).symm
  | some pid => simp [history, record]

/-- By `recordWoken` those of the waiters who wait no longer are recorded as woken, in their
order. -/
theorem history_recordWoken (m : Machine σ) (r : ResourceId) (still waiters : Queue) :
    (m.recordWoken r still waiters).history =
      m.history ++ (waiters.filter fun w => w ∉ still).map fun w => .woken w r := by
  induction waiters generalizing m with
  | nil => exact (List.append_nil _).symm
  | cons w rest ih =>
    rw [recordWoken]
    by_cases hw : w ∈ still
    · rw [if_pos hw, ih, List.filter_cons_of_neg (by simpa using hw)]
    · rw [if_neg hw, ih, List.filter_cons_of_pos (by simpa using hw), List.map_cons,
        history_record, List.append_assoc, List.singleton_append]

/-- A resource that is given back is recorded as such, and then who was woken. Nothing stands
between the two. -/
theorem history_release (m : Machine σ) (memory : σ) (t : State) (pid : Pid) (r : ResourceId)
    (still waiters : Queue) (due : List ResourceId) :
    ({ ((m.answered memory t).record (.released pid r)).recordWoken r still waiters with
      phase := .returning pid due } : Machine σ).history = m.history ++
        .released pid r :: (waiters.filter fun w => w ∉ still).map fun w => .woken w r := by
  refine (history_recordWoken ..).trans ?_
  rw [history_record, List.append_assoc, List.singleton_append]
  rfl

/-- A stride adds to the `history`, and only what its phase `Tells`. So an event of another kind
leaves its trace in no stride from that phase. -/
theorem Strides.history (h : m.Strides P limit m') :
    ∃ later, m'.history = m.history ++ later ∧ ∀ e ∈ later, m.phase.Tells e := by
  have hquiet : m'.events = m.events →
      ∃ later, m'.history = m.history ++ later ∧ ∀ e ∈ later, m.phase.Tells e := fun he =>
    ⟨[], by rw [history_congr he, List.append_nil], fun _ hm => absurd hm List.not_mem_nil⟩
  have hnoted : ∀ {e : Event}, m'.events = m.events.push e → m.phase.Tells e.what →
      ∃ later, m'.history = m.history ++ later ∧ ∀ e ∈ later, m.phase.Tells e := fun he ht =>
    ⟨[_], history_push he, fun _ hm => List.mem_singleton.1 hm ▸ ht⟩
  have hleft : ∀ e ∈ m.state.leaver?.toList.map Happening.left, m.phase.Tells e := by
    intro e hm
    obtain ⟨pid, -, rfl⟩ := List.mem_map.1 hm
    trivial
  cases h with
  | arrive => exact hnoted rfl trivial
  | drain => exact ⟨_, history_carriedOut .., hleft⟩
  | @idle memory t =>
    refine ⟨m.state.leaver?.toList.map .left ++ [.idle], ?_, fun e hm => ?_⟩
    · rw [history_push (m := m.carriedOut memory t none) rfl, history_carriedOut,
        List.append_assoc]
    · rcases List.mem_append.1 hm with hm | hm
      · exact hleft e hm
      · rw [List.mem_singleton.1 hm]
        trivial
  | turn => exact ⟨_, history_carriedOut .., hleft⟩
  | grant hphase => exact hnoted rfl ⟨_, _, hphase, rfl⟩
  | refuse hphase => exact hnoted rfl ⟨_, _, hphase, rfl⟩
  | execute hphase => exact hnoted rfl hphase
  | @release pid r waiters due x y memory t woken hphase =>
    refine ⟨_, history_release m memory t pid r y.waiters waiters due, fun e hm => ?_⟩
    rcases List.mem_cons.1 hm with rfl | hm
    · exact ⟨_, _, hphase⟩
    · obtain ⟨w, -, rfl⟩ := List.mem_map.1 hm
      trivial
  | _ => exact hquiet rfl

/-! ## Dealings in resources -/

/-- The part of the `history` that says who got which resource, who had to wait for it and who gave
it back. -/
def dealings (m : Machine σ) : List Happening := m.history.filter Happening.isDealing

/-- What is added to the `history` adds its own dealings to the `dealings`. -/
theorem dealings_of_history {later : List Happening} (h : m'.history = m.history ++ later) :
    m'.dealings = m.dealings ++ later.filter Happening.isDealing := by
  rw [dealings, h, List.filter_append, dealings]

theorem dealings_record (m : Machine σ) (what : Happening) (hwhat : what.isDealing = true) :
    (m.record what).dealings = m.dealings ++ [what] := by
  rw [dealings_of_history (m.history_record what), List.filter_cons_of_pos hwhat, List.filter_nil]

/-- Of what is recorded when a resource is given back, only the return is a dealing: waking somebody
gives it nothing. -/
theorem dealings_release (m : Machine σ) (memory : σ) (t : State) (pid : Pid) (r : ResourceId)
    (still waiters : Queue) (due : List ResourceId) :
    ({ ((m.answered memory t).record (.released pid r)).recordWoken r still waiters with
      phase := .returning pid due } : Machine σ).dealings = m.dealings ++ [.released pid r] := by
  rw [dealings_of_history (m.history_release memory t pid r still waiters due),
    List.filter_cons_of_pos rfl, List.filter_eq_nil_iff.2]
  intro e hm
  obtain ⟨w, -, rfl⟩ := List.mem_map.1 hm
  exact Bool.false_ne_true

/-- Where nothing is asked for or given back, a stride leaves the `dealings` as they are. -/
theorem Strides.dealings (h : m.Strides P limit m') (hphase : m.phase.deals = false) :
    m'.dealings = m.dealings := by
  obtain ⟨later, hlater, htells⟩ := h.history
  rw [dealings_of_history hlater, List.filter_eq_nil_iff.2, List.append_nil]
  intro e hm hdeal
  rw [Phase.deals_of_tells (htells e hm) hdeal] at hphase
  cases hphase

/-- The dealings since the last one that is marked, or all of them if none is. -/
def since (m : Machine σ) (mark : Happening → Bool) : List Happening :=
  m.dealings.rtakeWhile fun e => !mark e

section Since

variable {mark : Happening → Bool} {e : Happening}

theorem since_congr (h : m'.dealings = m.dealings) : m'.since mark = m.since mark := by
  rw [since, since, h]

/-- A marked dealing that is added is the last one, and there has been none `since`. -/
theorem since_of_mark (h : m'.dealings = m.dealings ++ [e]) (he : mark e = true) :
    m'.since mark = [] := by
  rw [since, h, List.rtakeWhile_concat_neg _ _ _ (by simp [he])]

theorem since_of_not_mark (h : m'.dealings = m.dealings ++ [e]) (he : mark e = false) :
    m'.since mark = m.since mark ++ [e] := by
  rw [since, h, List.rtakeWhile_concat_pos _ _ _ (by simp [he]), since]

end Since

end Machine

end Uniprocessor
