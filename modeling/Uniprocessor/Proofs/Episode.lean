import Uniprocessor.Proofs.Record
import Uniprocessor.Proofs.Steady

/-!
# Episodes

Most strides move the machine from one phase to the next, and only seven kinds of change are ever
recorded or seen in the processes, the resources and the scripts. An episode is a stride with
everything else left out: what changes, and what the history says of it. Whatever compares the
history of a run with its states is proved by cases on episodes, and needs to know nothing of phases
(`Steady.episode`).
-/

namespace Uniprocessor

namespace Machine

variable {σ : Type} {sc : Scenario} {P : Policy σ} {limit : Nat} {m m' : Machine σ}

/-- What a stride changes, and what it records of that, with phases and clock left out. Whatever
compares the history of a run with its states is proved by cases on it. -/
inductive Episode (P : Policy σ) (m m' : Machine σ) : Prop
  /-- nothing happens -/
  | quiet (hprocs : m'.state.procs = m.state.procs)
      (hresources : m'.state.resources = m.state.resources) (hscripts : m'.scripts = m.scripts)
      (harrivals : m'.arrivals = m.arrivals) (howed : m'.phase.owed = m.phase.owed)
      (hhistory : m'.history = m.history)
  /-- a job becomes a process -/
  | arrive {job : Job} (hphase : m.phase = .arriving) (harrivals : m.arrivals = job :: m'.arrivals)
      (hstate : m'.state = m.state.joined (.fresh job.pid job.lifespan job.prio))
      (hscripts : m'.scripts = m.scripts.put job.pid { requests := job.requests })
      (howed : m'.phase.owed = fun _ => [])
      (hhistory : m'.history = m.history ++ [.arrived job.pid])
  /-- a choice is carried out -/
  | choose {memory : σ} {t : State} {next : Option Pid} {idle : List Happening}
      (hphase : m.phase = .choosing)
      (hP : (P.choose m.memory m.state).result = .ok (memory, t, next))
      (hchose : m.state.Chose t next) (hstate : m'.state = m.state.switched t next)
      (hscripts : m'.scripts = m.scripts.without m.state.leaver?)
      (harrivals : m'.arrivals = m.arrivals) (howed : m'.phase.owed = fun _ => [])
      (hidle : idle = [] ∨ next = none ∧ idle = [.idle])
      (hhistory : m'.history = m.history ++ (m.state.leaver?.toList.map .left ++ idle))
  /-- a request is granted -/
  | grant {pid : Pid} {q : Request} {rest : List Request} {p : Process} {script : Script}
      {x : Resource} (hphase : m.phase = .requesting pid (q :: rest))
      (hp : m.state.process? pid = some p) (hs : m.scripts.find? pid = some script)
      (hdue : q ∈ script.due p.age) (hcalls : m.state.Calls pid q.resource x)
      (hx : x.owner = none) (ht : (m.state.give q.resource x pid).Repriced m'.state)
      (hscripts : m'.scripts = m.scripts.put pid (script.grant q))
      (harrivals : m'.arrivals = m.arrivals) (howed : m'.phase.owed = fun _ => [])
      (hhistory : m'.history = m.history ++ [.acquired pid q.resource])
  /-- a request is refused -/
  | refuse {pid owner : Pid} {q : Request} {rest : List Request} {x : Resource}
      (hphase : m.phase = .requesting pid (q :: rest)) (hcalls : m.state.Calls pid q.resource x)
      (hx : x.owner = some owner) (hne : owner ≠ pid)
      (ht : (m.state.park q.resource x pid).Repriced m'.state) (hscripts : m'.scripts = m.scripts)
      (harrivals : m'.arrivals = m.arrivals) (howed : m'.phase.owed = fun _ => [])
      (hhistory : m'.history = m.history ++ [.refused pid q.resource])
  /-- a process executes -/
  | execute {pid : Pid} {p : Process} {script script' : Script} {expired : List ResourceId}
      (hphase : m.phase = .executing pid) (hruns : m.state.Runs pid)
      (hp : m.state.process? pid = some p) (hs : m.scripts.find? pid = some script)
      (hdue : script.due p.age = []) (hexp : script.expire = .ok (expired, script'))
      (hstate : m'.state = m.state.adjust pid fun q => { q with age := p.age + 1 })
      (hscripts : m'.scripts = m.scripts.put pid script') (harrivals : m'.arrivals = m.arrivals)
      (howed : m'.phase.owed = owing pid expired)
      (hhistory : m'.history = m.history ++ [.executed pid])
  /-- a resource is given back -/
  | release {pid : Pid} {r : ResourceId} {waiters : Queue} {due : List ResourceId} {x : Resource}
      {woken : Option Pid} (hphase : m.phase = .releasing pid r waiters due)
      (hcalls : m.state.Calls pid r x) (hx : x.owner = some pid)
      (ht : (m.state.vacate r x woken).Repriced m'.state) (hnone : woken = none ↔ x.waiters = [])
      (hwoken : ∀ w, woken = some w → w ∈ x.waiters) (hscripts : m'.scripts = m.scripts)
      (harrivals : m'.arrivals = m.arrivals) (howed : m'.phase.owed = owing pid due)
      (hhistory : m'.history =
        m.history ++ .released pid r :: woken.toList.map fun w => .woken w r)

/-- Of a queue without doubles, only the one that is taken out is no longer in it. So comparing two
wait queues finds who was woken. -/
theorem filter_not_mem_erase {q : Queue} (hq : q.Nodup) {w : Pid} (hw : w ∈ q) :
    q.filter (fun v => v ∉ q.erase w) = [w] := by
  have hcongr : q.filter (fun v => v ∉ q.erase w) = q.filter fun v => v = w := by
    refine List.filter_congr fun v hv => ?_
    simp [hq.mem_erase_iff, hv]
  rw [hcongr, List.filter_eq, List.count_eq_one_of_mem hq hw, List.replicate_one]

/-- Those of the old waiters who no longer wait after `vacate` are the woken one, if there is one.
This is what `recordWoken` compares. -/
theorem filter_not_mem_vacate {s t : State} (hs : s.Settled) {r : ResourceId} {x y : Resource}
    (hx : s.resources[r]? = some x) {woken : Option Pid}
    (hwoken : ∀ w, woken = some w → w ∈ x.waiters) (ht : (s.vacate r x woken).Repriced t)
    (hy : t.resources[r]? = some y) :
    x.waiters.filter (fun w => w ∉ y.waiters) = woken.toList := by
  rw [ht.resources] at hy
  cases woken with
  | none =>
    rw [State.vacate, State.getElem?_setResource hx, if_pos rfl] at hy
    cases hy
    exact List.filter_eq_nil_iff.2 fun w hw => by simpa using hw
  | some w =>
    change (s.setResource r _).resources[r]? = some y at hy
    rw [State.getElem?_setResource hx, if_pos rfl] at hy
    cases hy
    exact filter_not_mem_erase (hs.waiters_nodup hx) (hwoken w rfl)

/-- Every stride of a `Steady` machine is an `Episode`. Most of them are quiet. -/
theorem Steady.episode (h : m.Steady sc) (hstr : m.Strides P limit m') : m.Episode P m' := by
  cases hstr with
  | arrive hphase harrivals =>
    exact .arrive hphase harrivals rfl rfl rfl (history_record ..)
  | announce hphase => exact .quiet rfl rfl rfl rfl (by rw [hphase]; rfl) rfl
  | drain hphase hP hchose =>
    refine .choose hphase hP hchose (carriedOut_state ..) (carriedOut_scripts ..)
      (carriedOut_arrivals ..) rfl (Or.inl rfl) ?_
    rw [List.append_nil]
    exact history_carriedOut ..
  | @idle memory t hphase hP hchose =>
    refine .choose hphase hP hchose (carriedOut_state ..) (carriedOut_scripts ..)
      (carriedOut_arrivals ..) rfl (Or.inr ⟨rfl, rfl⟩) ?_
    rw [history_push (m := m.carriedOut memory t none) rfl, history_carriedOut, List.append_assoc]
  | turn hphase hP hchose =>
    refine .choose hphase hP hchose (carriedOut_state ..) (carriedOut_scripts ..)
      (carriedOut_arrivals ..) rfl (Or.inl rfl) ?_
    rw [List.append_nil]
    exact history_carriedOut ..
  | @grant pid q rest p script x memory t hphase hp hs hcalls hx hP ht =>
    obtain ⟨-, hdue⟩ := h.asks_of_requesting hphase hp hs
    exact .grant hphase hp hs (hdue ▸ List.mem_cons_self ..) hcalls hx ht rfl rfl rfl
      (history_record ..)
  | refuse hphase hcalls hx hne hP ht =>
    exact .refuse hphase hcalls hx hne ht rfl rfl rfl (history_record ..)
  | execute hphase hp hs hexp =>
    obtain ⟨hruns, p', script', hp', hs', -, hdue⟩ := h.fits_of hphase
    cases hp.symm.trans hp'
    cases hs.symm.trans hs'
    exact .execute hphase hruns hp hs hdue hexp rfl rfl rfl rfl (history_record ..)
  | finish hphase => exact .quiet rfl rfl rfl rfl (by rw [hphase]; exact (owing_nil _).symm) rfl
  | next hphase => exact .quiet rfl rfl rfl rfl (by rw [hphase]; rfl) rfl
  | @release pid r waiters due x y memory t woken hphase hcalls hx hP ht hnone hwoken hy =>
    obtain ⟨-, x', hx', rfl⟩ := h.fits_of hphase
    cases hcalls.entry.symm.trans hx'
    refine .release hphase hcalls hx ?_ hnone hwoken (recordWoken_scripts ..)
      (recordWoken_arrivals ..) rfl ?_
    · change State.Repriced _ (recordWoken ..).state
      rwa [recordWoken_state]
    · refine (history_release ..).trans ?_
      rw [filter_not_mem_vacate hcalls.settled hcalls.entry hwoken ht hy]
  | _ hphase => exact .quiet rfl rfl rfl rfl (by rw [hphase]; rfl) rfl

end Machine

end Uniprocessor
