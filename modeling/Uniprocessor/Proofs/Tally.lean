import Mathlib.Data.List.Nodup
import Mathlib.Data.List.Perm.Basic
import Uniprocessor.Proofs.Playing

/-!
# Keeping tally of requests

What a process has got and what it has given back, each with its age then, is determined by its job,
its age, its holds and what it owes: a request has been granted if it was due before, or is due now
and is held; and it has been given back if it ended before, or ends now and is not owed. The tally
stays right when a request is granted, when a tick is executed and when something is given back.
When a job is over, it lists every request once, with the ages at which it begins and ends.
-/

namespace Uniprocessor

/-- The request has been granted to a process of this age that has these resources: it was due
before, or is due now and held. -/
def Request.Begun (q : Request) (age : Nat) (held : List ResourceId) : Prop :=
  q.due < age ∨ q.due = age ∧ q.resource ∈ held

/-- The hold of the request has been given back by a process of this age that owes these resources:
it ended before, or ends now and is not owed. -/
def Request.Over (q : Request) (age : Nat) (owed : List ResourceId) : Prop :=
  q.due + q.duration < age ∨ q.due + q.duration = age ∧ q.resource ∉ owed

/-- Two requests of one resource whose holds overlap are one, since the holds of a sound job are
`Request.Apart`. -/
theorem Job.Sound.eq_of_overlap {job : Job} {n c : Nat} (hjob : job.Sound n c) {q other : Request}
    (hq : q ∈ job.requests) (ho : other ∈ job.requests) (hres : q.resource = other.resource)
    (hbefore : q.due < other.due + other.duration) (hafter : other.due < q.due + q.duration) :
    q = other := by
  have : Std.Symm Request.Apart := ⟨fun _ _ h he => (h he.symm).symm⟩
  by_contra hne
  rcases List.Pairwise.forall hjob.apart hq ho hne hres with hle | hle <;> omega

/-- No two requests of one resource are at the same age, whether that is the age when they are due
or the age when they end: `f` is any age that tells holds apart. -/
theorem Job.Sound.nodup_map {job : Job} {n c : Nat} (hjob : job.Sound n c) {f : Request → Nat}
    (hf : ∀ q other : Request, 0 < q.duration → 0 < other.duration → f q = f other →
      ¬ (q.due + q.duration ≤ other.due ∨ other.due + other.duration ≤ q.due)) :
    (job.requests.map fun q => (q.resource, f q)).Nodup := by
  rw [List.Nodup, List.pairwise_map]
  refine hjob.apart.imp_of_mem fun {q other} hq ho hapart heq => ?_
  rw [Prod.mk.injEq] at heq
  exact hf q other (hjob.requests q hq).duration_pos (hjob.requests other ho).duration_pos heq.2
    (hapart heq.1)

/-- What a process of a job has got and given back, each with its age then, at an age and with what
it has and owes at that age. -/
structure Job.Tally (job : Job) (age : Nat) (holds : List Hold) (owed : List ResourceId)
    (got gave : List (ResourceId × Nat)) : Prop where
  /-- nothing was got twice at one age -/
  got_nodup : got.Nodup
  /-- what was got are the requests that have begun, each when it was due -/
  mem_got : ∀ {r : ResourceId} {n : Nat}, (r, n) ∈ got ↔ ∃ q ∈ job.requests,
    q.resource = r ∧ q.due = n ∧ q.Begun age (holds.map Hold.resource)
  /-- nothing was given back twice at one age -/
  gave_nodup : gave.Nodup
  /-- what was given back are the requests that are over, each when it ended -/
  mem_gave : ∀ {r : ResourceId} {n : Nat}, (r, n) ∈ gave ↔ ∃ q ∈ job.requests,
    q.resource = r ∧ q.due + q.duration = n ∧ q.Over age owed
  /-- a request that has begun and not ended is held until it ends -/
  keeps : ∀ q ∈ job.requests, q.Begun age (holds.map Hold.resource) → age < q.due + q.duration →
    ⟨q.resource, q.due + q.duration - age⟩ ∈ holds
  /-- what is owed ends now -/
  owed : ∀ r ∈ owed, ∃ q ∈ job.requests, q.resource = r ∧ q.due + q.duration = age

namespace Job.Tally

variable {job : Job} {n c age : Nat} {got gave : List (ResourceId × Nat)} {s s' : Script}
  {p : Process}

/-- At the beginning nothing has been got and nothing given back, and no request has `Begun`. -/
theorem fresh (hjob : job.Sound n c) : job.Tally 0 [] [] [] [] where
  got_nodup := List.nodup_nil
  mem_got {r n} := by simp [Request.Begun]
  gave_nodup := List.nodup_nil
  mem_gave {r n} := by
    have hpos : ∀ q ∈ job.requests, ¬ q.Over 0 [] := by
      intro q hq hover
      have := (hjob.requests q hq).duration_pos
      rcases hover with hlt | ⟨heq, -⟩ <;> omega
    simp only [List.not_mem_nil, false_iff, not_exists, not_and]
    exact fun q hq _ _ => hpos q hq
  keeps q _ hbegun := by simp [Request.Begun] at hbegun
  owed r hr := absurd hr List.not_mem_nil

/-- A request that is due and granted is tallied at the present age, and its hold is there until it
ends. -/
theorem grant (hjob : job.Sound n c) (h : job.Tally p.age s.holds [] got gave)
    (hplays : s.Plays job p []) {q : Request} (hq : q ∈ s.due p.age) :
    job.Tally p.age (s.grant q).holds [] (got ++ [(q.resource, p.age)]) gave := by
  obtain ⟨hmem, hnow, hfree⟩ := hplays.mem_due.1 hq
  have hfree : q.resource ∉ s.holds.map Hold.resource := hfree
  have hheld : (s.grant q).holds.map Hold.resource = s.holds.map Hold.resource ++ [q.resource] :=
    Script.Plays.held_grant s q
  -- The one request that begins is the granted one.
  have hbegun : ∀ o ∈ job.requests, o.Begun p.age ((s.grant q).holds.map Hold.resource) ↔
      o.Begun p.age (s.holds.map Hold.resource) ∨ o = q := by
    intro o ho
    rw [hheld, Request.Begun, Request.Begun, List.mem_append, List.mem_singleton]
    have hpos := (hjob.requests o ho).duration_pos
    have hpos' := (hjob.requests q hmem).duration_pos
    constructor
    · rintro (hlt | ⟨heq, hold | hres⟩)
      · exact Or.inl (Or.inl hlt)
      · exact Or.inl (Or.inr ⟨heq, hold⟩)
      · exact Or.inr (hjob.eq_of_overlap ho hmem hres (by omega) (by omega))
    · rintro ((hlt | ⟨heq, hold⟩) | rfl)
      · exact Or.inl hlt
      · exact Or.inr ⟨heq, Or.inl hold⟩
      · exact Or.inr ⟨hnow, Or.inr rfl⟩
  exact {
    got_nodup := by
      rw [List.nodup_append]
      refine ⟨h.got_nodup, List.nodup_singleton _, fun a ha b hb hab => ?_⟩
      rw [hab, List.mem_singleton.1 hb] at ha
      obtain ⟨o, -, hres, hdue, hlt | ⟨-, hold⟩⟩ := h.mem_got.1 ha
      · omega
      · exact hfree (hres ▸ hold)
    mem_got := fun {r n} => by
      rw [List.mem_append, h.mem_got, List.mem_singleton, Prod.mk.injEq]
      constructor
      · rintro (⟨o, ho, hres, hdue, hold⟩ | ⟨rfl, rfl⟩)
        · exact ⟨o, ho, hres, hdue, (hbegun o ho).2 (Or.inl hold)⟩
        · exact ⟨q, hmem, rfl, hnow, (hbegun q hmem).2 (Or.inr rfl)⟩
      · rintro ⟨o, ho, hres, hdue, hnew⟩
        rcases (hbegun o ho).1 hnew with hold | rfl
        · exact Or.inl ⟨o, ho, hres, hdue, hold⟩
        · exact Or.inr ⟨hres.symm, hdue.symm.trans hnow⟩
    gave_nodup := h.gave_nodup
    mem_gave := h.mem_gave
    keeps := fun o ho hnew hlt => by
      rcases (hbegun o ho).1 hnew with hold | rfl
      · exact List.mem_append_left _ (h.keeps o ho hold hlt)
      · refine List.mem_append_right _ (List.mem_singleton.2 ?_)
        rw [hnow, Nat.add_sub_cancel_left]
    owed := h.owed }

/-- After an executed tick the tally is right for the next age: nothing was due any more, and what
has expired is owed. -/
theorem expire (hjob : job.Sound n c) (h : job.Tally p.age s.holds [] got gave)
    (hplays : s.Plays job p []) (hdue : s.due p.age = []) {expired : List ResourceId}
    (hexp : s.expire = .ok (expired, s')) : job.Tally (p.age + 1) s'.holds expired got gave := by
  rw [Script.expire, Script.countDown_eq hplays.remaining_pos, ok_bind] at hexp
  cases hexp
  -- Whatever was due has been granted, and nothing that is due at the next age is held.
  have hbegun : ∀ q ∈ job.requests, q.Begun (p.age + 1) (((s.holds.filter fun x =>
      x.remaining ≠ 1).map fun x => { x with remaining := x.remaining - 1 }).map Hold.resource) ↔
      q.Begun p.age (s.holds.map Hold.resource) := by
    intro q hq
    have hpos := (hjob.requests q hq).duration_pos
    constructor
    · rintro (hlt | ⟨heq, hheld⟩)
      · rcases Nat.lt_succ_iff_lt_or_eq.1 hlt with hlt | heq
        · exact Or.inl hlt
        · refine Or.inr ⟨heq, by_contra fun hfree => ?_⟩
          have hmem := hplays.mem_due.2 ⟨hq, heq, hfree⟩
          rw [hdue] at hmem
          cases hmem
      · obtain ⟨x, hx, hres⟩ := List.mem_map.1 hheld
        obtain ⟨y, hy, rfl⟩ := List.mem_map.1 hx
        obtain ⟨hmem, hne⟩ := List.mem_filter.1 hy
        have hne : y.remaining ≠ 1 := of_decide_eq_true hne
        have hleft := hplays.remaining_pos y hmem
        obtain ⟨o, ho, hores, hodue, hoend⟩ := hplays.origin y hmem
        have hsame := hjob.eq_of_overlap hq ho (hres.symm.trans hores.symm) (by omega) (by omega)
        rw [hsame] at heq
        omega
    · rintro (hlt | ⟨heq, -⟩) <;> exact Or.inl (by omega)
  -- Whatever ends at the next age is held for one more tick, and is used up.
  have hover : ∀ q ∈ job.requests, q.Over (p.age + 1)
      ((s.holds.filter fun x => x.remaining = 1).map Hold.resource) ↔ q.Over p.age [] := by
    intro q hq
    have hpos := (hjob.requests q hq).duration_pos
    constructor
    · rintro (hlt | ⟨heq, hfree⟩)
      · rcases Nat.lt_succ_iff_lt_or_eq.1 hlt with hlt | heq
        · exact Or.inl hlt
        · exact Or.inr ⟨heq, List.not_mem_nil⟩
      · have hold := h.keeps q hq ((hbegun q hq).1 (Or.inl (by omega))) (by omega)
        rw [heq, Nat.add_sub_cancel_left] at hold
        exact absurd (List.mem_map_of_mem (List.mem_filter.2 ⟨hold, rfl⟩)) hfree
    · rintro (hlt | ⟨heq, -⟩) <;> exact Or.inl (by omega)
  exact {
    got_nodup := h.got_nodup
    mem_got := fun {r n} => h.mem_got.trans <| exists_congr fun q =>
      and_congr_right fun hq => by rw [hbegun q hq]
    gave_nodup := h.gave_nodup
    mem_gave := fun {r n} => h.mem_gave.trans <| exists_congr fun q =>
      and_congr_right fun hq => by rw [hover q hq]
    keeps := fun q hq hnew hlt => by
      have hold := h.keeps q hq ((hbegun q hq).1 hnew) (by omega)
      refine List.mem_map.2 ⟨_, List.mem_filter.2 ⟨hold, decide_eq_true ?_⟩, ?_⟩
      · change q.due + q.duration - p.age ≠ 1
        omega
      · rw [Nat.sub_sub]
    owed := fun r hr => by
      obtain ⟨x, hx, rfl⟩ := List.mem_map.1 hr
      obtain ⟨hmem, hone⟩ := List.mem_filter.1 hx
      obtain ⟨q, hq, hres, -, hend⟩ := hplays.origin x hmem
      exact ⟨q, hq, hres, by rw [← hend, of_decide_eq_true hone]⟩ }

/-- What is given back is tallied at the present age, which is the one where its request ends, and
is owed no longer. -/
theorem returned {holds : List Hold} {r : ResourceId} {due : List ResourceId}
    (h : job.Tally age holds (r :: due) got gave) (hr : r ∉ due) :
    job.Tally age holds due got (gave ++ [(r, age)]) where
  got_nodup := h.got_nodup
  mem_got := h.mem_got
  gave_nodup := by
    rw [List.nodup_append]
    refine ⟨h.gave_nodup, List.nodup_singleton _, fun a ha b hb hab => ?_⟩
    rw [hab, List.mem_singleton.1 hb] at ha
    obtain ⟨q, -, hres, hend, hlt | ⟨-, hfree⟩⟩ := h.mem_gave.1 ha
    · omega
    · exact hfree (hres ▸ List.mem_cons_self ..)
  mem_gave {r' n} := by
    rw [List.mem_append, h.mem_gave, List.mem_singleton, Prod.mk.injEq]
    constructor
    · rintro (⟨q, hq, hres, hend, hover⟩ | ⟨rfl, rfl⟩)
      · refine ⟨q, hq, hres, hend, hover.imp_right fun ⟨heq, hfree⟩ => ⟨heq, fun hmem => ?_⟩⟩
        exact hfree (List.mem_cons_of_mem _ hmem)
      · obtain ⟨q, hq, hres, hend⟩ := h.owed _ (List.mem_cons_self ..)
        exact ⟨q, hq, hres, hend, Or.inr ⟨hend, hres ▸ hr⟩⟩
    · rintro ⟨q, hq, hres, hend, hlt | ⟨heq, hfree⟩⟩
      · exact Or.inl ⟨q, hq, hres, hend, Or.inl hlt⟩
      · by_cases he : q.resource = r
        · exact Or.inr ⟨hres.symm.trans he, hend.symm.trans heq⟩
        · exact Or.inl ⟨q, hq, hres, hend, Or.inr ⟨heq, by simp [he, hfree]⟩⟩
  keeps := h.keeps
  owed r' hr' := h.owed r' (List.mem_cons_of_mem _ hr')

/-! ## The tally of a job that is over -/

/-- When a job is over, each of its requests has been got once, when it was due: `got` is the list
of requests up to their order. -/
theorem got_perm (hjob : job.Sound n c) (h : job.Tally job.lifespan [] [] got gave) :
    got.Perm (job.requests.map fun q => (q.resource, q.due)) := by
  refine (List.perm_ext_iff_of_nodup h.got_nodup ?_).2 fun ⟨r, n⟩ => ?_
  · exact hjob.nodup_map fun q o _ _ _ => by omega
  · rw [h.mem_got, List.mem_map]
    refine exists_congr fun q => and_congr_right fun hq => ?_
    have hpos := (hjob.requests q hq).duration_pos
    have hle := (hjob.requests q hq).within
    have hbegun : q.Begun job.lifespan [] := Or.inl (by omega)
    simp [hbegun]

/-- When a job is over, each of its requests has been given back once, when it ended: `gave` is the
list of requests up to their order. -/
theorem gave_perm (hjob : job.Sound n c) (h : job.Tally job.lifespan [] [] got gave) :
    gave.Perm (job.requests.map fun q => (q.resource, q.due + q.duration)) := by
  refine (List.perm_ext_iff_of_nodup h.gave_nodup ?_).2 fun ⟨r, n⟩ => ?_
  · exact hjob.nodup_map fun q o _ _ _ => by omega
  · rw [h.mem_gave, List.mem_map]
    refine exists_congr fun q => and_congr_right fun hq => ?_
    have hover : q.Over job.lifespan [] :=
      (Nat.lt_or_eq_of_le (hjob.requests q hq).within).imp_right fun heq =>
        ⟨heq, List.not_mem_nil⟩
    simp [hover]

end Job.Tally

end Uniprocessor
