import Mathlib.Data.List.Perm.Subperm
import Uniprocessor.Machine.Script
import Uniprocessor.Process
import Uniprocessor.Proofs.Admission

/-!
# Playing a script

A script in play belongs to a job and a process of some age. Each of its holds goes back to a
request of the job and has exactly so many ticks left that it ends where the request ends. So a hold
never counts down below zero, a process that has executed its whole lifespan holds nothing, and no
request is due for a resource that is held already. Resources whose holds are used up and that are
not given back yet are owed.
-/

namespace Uniprocessor

namespace Script

/-- The resources of the holds, in the order of granting: what the process has, as its script tells
it. -/
def held (s : Script) : List ResourceId := s.holds.map Hold.resource

theorem hasHold_eq_true {s : Script} {r : ResourceId} : s.hasHold r = true ↔ r ∈ s.held := by
  simp [hasHold, held]

/-- The script plays the job for a process of the job's age that still has to give back what it
owes: every hold counts down to where a request of the job ends. -/
structure Plays (s : Script) (job : Job) (p : Process) (owed : List ResourceId) : Prop where
  /-- the requests are those of the job -/
  requests : s.requests = job.requests
  /-- the lifespan is that of the job -/
  lifespan : p.lifespan = job.lifespan
  /-- the base priority is that of the job -/
  base : p.base = job.prio
  /-- nobody executes longer than the lifespan -/
  age_le : p.age ≤ job.lifespan
  /-- holds have ticks left -/
  remaining_pos : ∀ h ∈ s.holds, 0 < h.remaining
  /-- a hold began with a request and ends with it -/
  origin : ∀ h ∈ s.holds, ∃ q ∈ job.requests,
    q.resource = h.resource ∧ q.due ≤ p.age ∧ p.age + h.remaining = q.due + q.duration
  /-- nothing is held or owed twice -/
  nodup : (s.held ++ owed).Nodup

namespace Plays

variable {s : Script} {job : Job} {p : Process} {owed : List ResourceId}

/-- A job is played from its requests, at age zero and without a hold: every process starts out like
this. -/
theorem fresh (job : Job) : Plays { requests := job.requests } job
    (.fresh job.pid job.lifespan job.prio) [] where
  requests := rfl
  lifespan := rfl
  base := rfl
  age_le := Nat.zero_le _
  remaining_pos _ hh := absurd hh List.not_mem_nil
  origin _ hh := absurd hh List.not_mem_nil
  nodup := List.nodup_nil

/-- Status and priority of the process have no part in `Plays`, so being chosen, parked or put into
the queue keeps it. -/
theorem congr (h : s.Plays job p owed) {p' : Process} (hlife : p'.lifespan = p.lifespan)
    (hbase : p'.base = p.base) (hage : p'.age = p.age) : s.Plays job p' owed where
  requests := h.requests
  lifespan := hlife.trans h.lifespan
  base := hbase.trans h.base
  age_le := hage ▸ h.age_le
  remaining_pos := h.remaining_pos
  origin := hage ▸ h.origin
  nodup := h.nodup

/-- What is given back is no longer owed; the rest `Plays` as before. -/
theorem returned {r : ResourceId} (h : s.Plays job p (r :: owed)) : s.Plays job p owed where
  requests := h.requests
  lifespan := h.lifespan
  base := h.base
  age_le := h.age_le
  remaining_pos := h.remaining_pos
  origin := h.origin
  nodup := (List.perm_middle.nodup_iff.1 h.nodup).of_cons

theorem not_mem_of_owed {r : ResourceId} (h : s.Plays job p (r :: owed)) :
    r ∉ s.held ++ owed := (List.nodup_cons.1 (List.perm_middle.nodup_iff.1 h.nodup)).1

/-- Whoever holds something has ticks left to execute, since each hold ends within the lifespan. So
nobody leaves with a hold. -/
theorem age_lt_of_mem_held {n c : Nat} (h : s.Plays job p owed) (hjob : job.Sound n c)
    {r : ResourceId} (hr : r ∈ s.held) : p.age < p.lifespan := by
  obtain ⟨x, hx, -⟩ := List.mem_map.1 hr
  obtain ⟨q, hq, -, -, hend⟩ := h.origin x hx
  have hpos := h.remaining_pos x hx
  have hwithin := (hjob.requests q hq).within
  rw [h.lifespan]
  omega

/-- There are at most as many holds as requests: no resource is held twice, and each hold is a
request's. -/
theorem length_held_le (h : s.Plays job p owed) : s.held.length ≤ job.requests.length := by
  have hnodup : s.held.Nodup := (List.nodup_append.1 h.nodup).1
  have hsub : s.held ⊆ job.requests.map Request.resource := by
    intro r hr
    obtain ⟨x, hx, rfl⟩ := List.mem_map.1 hr
    obtain ⟨q, hq, hqr, -, -⟩ := h.origin x hx
    exact hqr ▸ List.mem_map_of_mem hq
  simpa using (hnodup.subperm hsub).length_le

/-! ## Requests that are due -/

/-- What is due is a request of the job for the present age, of a resource that is not held: `due`
without its filters. -/
theorem mem_due (h : s.Plays job p owed) {q : Request} :
    q ∈ s.due p.age ↔ q ∈ job.requests ∧ q.due = p.age ∧ q.resource ∉ s.held := by
  rw [due, List.mem_filter, h.requests, Bool.and_eq_true, decide_eq_true_eq, Bool.not_eq_true',
    ← Bool.not_eq_true, hasHold_eq_true]

/-- No two requests that are due are of one resource: they begin at the same age, and would
overlap. -/
theorem pairwise_due {n c : Nat} (h : s.Plays job p owed) (hjob : job.Sound n c) :
    (s.due p.age).Pairwise fun q other => q.resource ≠ other.resource := by
  have hsub : (s.due p.age).Sublist job.requests := h.requests ▸ List.filter_sublist
  refine (hjob.apart.sublist hsub).imp_of_mem fun {q other} hq ho hapart hres => ?_
  obtain ⟨hqj, hqage, -⟩ := h.mem_due.1 hq
  obtain ⟨hoj, hoage, -⟩ := h.mem_due.1 ho
  have hqpos := (hjob.requests q hqj).duration_pos
  have hopos := (hjob.requests other hoj).duration_pos
  rcases hapart hres with hle | hle <;> omega

/-- After the first of the requests that are due has been granted, the others are due: what a turn
asks for is a list to be worked off. -/
theorem due_grant {n c : Nat} (h : s.Plays job p owed) (hjob : job.Sound n c) {q : Request}
    {rest : List Request} (hdue : s.due p.age = q :: rest) : (s.grant q).due p.age = rest := by
  have hpair := h.pairwise_due hjob
  rw [hdue, List.pairwise_cons] at hpair
  have hhold : ∀ r, (s.grant q).hasHold r = (s.hasHold r || decide (q.resource = r)) := by
    intro r
    simp [hasHold, grant]
  -- Of what was due, a grant takes away what is of the granted resource, and that is `q` alone.
  have hsplit : (s.grant q).due p.age =
      (s.due p.age).filter fun other => !decide (q.resource = other.resource) := by
    rw [due, due, List.filter_filter]
    refine List.filter_congr fun other _ => ?_
    rw [hhold, Bool.not_or]
    cases decide (q.resource = other.resource) <;>
      cases decide (other.due = p.age) <;> simp
  rw [hsplit, hdue, List.filter_cons_of_neg (by simp)]
  refine List.filter_eq_self.2 fun other ho => ?_
  simpa using hpair.1 other ho

/-- A granted request that was due is played on as a hold, with all of its duration ahead: `Plays`
is kept by every grant. -/
theorem grant (h : s.Plays job p []) {q : Request} (hq : q ∈ s.due p.age) {n c : Nat}
    (hjob : job.Sound n c) : (s.grant q).Plays job p [] := by
  obtain ⟨hqj, hage, hfree⟩ := h.mem_due.1 hq
  have hsound := hjob.requests q hqj
  exact {
    requests := h.requests
    lifespan := h.lifespan
    base := h.base
    age_le := h.age_le
    remaining_pos := fun x hx => by
      rcases List.mem_append.1 hx with hx | hx
      · exact h.remaining_pos x hx
      · rw [List.mem_singleton.1 hx]
        exact hsound.duration_pos
    origin := fun x hx => by
      rcases List.mem_append.1 hx with hx | hx
      · exact h.origin x hx
      · rw [List.mem_singleton.1 hx]
        exact ⟨q, hqj, rfl, Nat.le_of_eq hage, by rw [hage]⟩
    nodup := by
      have hnodup : s.held.Nodup := (List.nodup_append.1 h.nodup).1
      rw [List.append_nil, held, Script.grant, List.map_append, List.map_singleton]
      exact (List.perm_append_singleton _ _).nodup_iff.2 (List.nodup_cons.2 ⟨hfree, hnodup⟩) }

theorem held_grant (s : Script) (q : Request) : (s.grant q).held = s.held ++ [q.resource] := by
  rw [held, Script.grant, List.map_append, List.map_singleton]
  rfl

end Plays

/-! ## Counting down -/

/-- Holds with ticks left count down without a fault: those with one tick left are used up, and the
others go on with one tick less. -/
theorem countDown_eq {hs : List Hold} (h : ∀ x ∈ hs, 0 < x.remaining) :
    countDown hs = .ok ((hs.filter fun x => x.remaining = 1).map Hold.resource,
      (hs.filter fun x => x.remaining ≠ 1).map fun x =>
        { x with remaining := x.remaining - 1 }) := by
  induction hs with
  | nil => rfl
  | cons x rest ih =>
    rw [countDown, require, if_pos (h x (List.mem_cons_self ..)), ok_bind,
      ih fun y hy => h y (List.mem_cons_of_mem _ hy), ok_bind]
    by_cases hone : x.remaining = 1
    · rw [List.filter_cons_of_pos (by simpa using hone),
        List.filter_cons_of_neg (by simpa using hone), List.map_cons]
      exact if_pos hone
    · rw [List.filter_cons_of_neg (by simpa using hone),
        List.filter_cons_of_pos (by simpa using hone), List.map_cons]
      exact if_neg hone

/-- Nothing is lost when holds count down: each resource is still held or has expired, and what is
still held was held for one tick more. -/
theorem countDown_eq_ok {hs : List Hold} (h : ∀ x ∈ hs, 0 < x.remaining) :
    ∃ expired kept, countDown hs = .ok (expired, kept) ∧
      (kept.map Hold.resource ++ expired).Perm (hs.map Hold.resource) ∧
      ∀ x ∈ kept, 0 < x.remaining ∧ { x with remaining := x.remaining + 1 } ∈ hs := by
  refine ⟨_, _, countDown_eq h, ?_, fun x hx => ?_⟩
  · rw [List.map_map]
    change ((hs.filter fun x => x.remaining ≠ 1).map Hold.resource ++ _).Perm _
    rw [← List.map_append]
    refine List.Perm.map _ (List.perm_append_comm.trans ?_)
    simpa using List.filter_append_perm (fun x : Hold => decide (x.remaining = 1)) hs
  · obtain ⟨y, hy, rfl⟩ := List.mem_map.1 hx
    obtain ⟨hmem, hne⟩ := List.mem_filter.1 hy
    have hne : y.remaining ≠ 1 := of_decide_eq_true hne
    have hpos := h y hmem
    refine ⟨by change 0 < y.remaining - 1; omega, ?_⟩
    change (⟨y.resource, y.remaining - 1 + 1⟩ : Hold) ∈ hs
    rw [Nat.sub_add_cancel hpos]
    exact hmem

/-- After an executed tick the script is expired without a fault and plays on, one tick older. What
it no longer holds is what it owes. -/
theorem Plays.expire_eq_ok {s : Script} {job : Job} {p : Process} (h : s.Plays job p [])
    (hage : p.age < p.lifespan) :
    ∃ expired s', s.expire = .ok (expired, s') ∧ (s'.held ++ expired).Perm s.held ∧
      s'.Plays job { p with age := p.age + 1 } expired := by
  obtain ⟨expired, kept, hok, hperm, hkept⟩ := countDown_eq_ok h.remaining_pos
  refine ⟨expired, { s with holds := kept }, ?_, hperm, ?_⟩
  · rw [expire, hok]
    rfl
  · exact {
      requests := h.requests
      lifespan := h.lifespan
      base := h.base
      age_le := by
        rw [← h.lifespan]
        exact hage
      remaining_pos := fun x hx => (hkept x hx).1
      origin := fun x hx => by
        -- One tick older and one tick less to go, so the hold ends at the same age.
        obtain ⟨q, hq, hres, hdue, hend⟩ := h.origin _ (hkept x hx).2
        refine ⟨q, hq, hres, Nat.le_succ_of_le hdue, ?_⟩
        rw [← hend]
        change p.age + 1 + x.remaining = p.age + (x.remaining + 1)
        omega
      nodup := hperm.nodup_iff.2 (List.nodup_append.1 h.nodup).1 }

end Script

/-- No job has more requests than all jobs of the scenario together, which is the bound that fuel is
reckoned by. -/
theorem Scenario.length_requests_le {sc : Scenario} {job : Job} (h : job ∈ sc.jobs) :
    job.requests.length ≤ sc.requestCount := by
  have key : ∀ (jobs : List Job) (n : Nat), n ≤ jobs.foldl (fun t j => t + j.requests.length) n ∧
      ∀ job ∈ jobs, job.requests.length ≤ jobs.foldl (fun t j => t + j.requests.length) n := by
    intro jobs
    induction jobs with
    | nil => exact fun n => ⟨Nat.le_refl n, fun job hj => absurd hj List.not_mem_nil⟩
    | cons j rest ih =>
      intro n
      obtain ⟨hn, hrest⟩ := ih (n + j.requests.length)
      rw [List.foldl_cons]
      refine ⟨by omega, fun job hj => ?_⟩
      rcases List.mem_cons.1 hj with rfl | hj
      · omega
      · exact hrest job hj
  exact (key sc.jobs 0).2 job h

end Uniprocessor
