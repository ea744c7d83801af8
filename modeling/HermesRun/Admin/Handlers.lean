import HermesRun.Admin.Server

namespace HermesRun.AdminServer

open Poll
open Admin (CreateTaskStateTask)
open RemoteQueue (isNew handlerKeeps Exclusive Kept exclusive_of_lanes handler_isComplete execute_isComplete)

variable {β : Type}

structure Same (t t' : Task (Own β)) : Prop where
  role : role t' = role t
  taskState : t'.taskState = t.taskState
  domainId : t'.domainId = t.domainId
  complete : t.isComplete = true → t'.isComplete = true

structure NewOk (t : Task (Own β)) : Prop where
  fresh : isNew t = true
  coroutine : role t = .createTaskState → t.isCoroutine = true

section Tasks

variable {cfg : Config β} {t t' t'' : Task (Own β)}

theorem Same.refl (t : Task (Own β)) : Same t t := ⟨rfl, rfl, rfl, id⟩

theorem Same.trans (h : Same t t') (h' : Same t' t'') : Same t t'' :=
  ⟨h'.role.trans h.role, h'.taskState.trans h.taskState, h'.domainId.trans h.domainId, h'.complete ∘ h.complete⟩

theorem Same.setModuleComplete (t : Task (Own β)) : Same t t.setModuleComplete := ⟨rfl, rfl, rfl, by simp⟩

theorem setComplete_isComplete (t : Task (Own β)) : t.setComplete.isComplete = true := by
  simp [Task.setComplete, Task.isComplete, Task.setFlag, taskModuleComplete, taskComplete, Bitfield.setBits_or,
    Bitfield.any_setBits]

theorem Same.setComplete (t : Task (Own β)) : Same t t.setComplete :=
  ⟨rfl, rfl, rfl, fun _ => setComplete_isComplete t⟩

theorem Own.role_mapOther (f : β → β) (a : Own β) : (Own.mapOther f a).role = a.role := by
  cases a <;> rfl

theorem role_replicateStart (cfg : Config β) (exec : Instance) (t : Task (Own β)) :
    role (replicateStart cfg.poll exec t) = role t := by
  unfold replicateStart
  cases hb : t.body with
  | push i => simp only [role, hb]
  | own a =>
    simp only [role, hb, Config.poll]
    split_ifs
    · rfl
    · exact Own.role_mapOther _ a

theorem Same.execute (cfg : Config β) (t : Task (Own β)) (p : TaskPtr) (exec : Instance)
    (es : List (LaneRef × Task (Own β))) : Same t (execute cfg.poll t p exec es).task := by
  have hkept := Kept.execute cfg.poll t p exec es
  refine ⟨?_, hkept.taskState, hkept.domainId, ?_⟩
  · unfold Poll.execute
    split_ifs
    · exact role_replicateStart cfg exec t
    · rfl
    · rfl
    · rfl
    · rfl
  · rw [execute_isComplete]
    exact id

theorem Same.handler {out : Task (Own β)} (h : handlerKeeps t out = true)
    (hr : AdminServer.role out = AdminServer.role t) : Same t out := by
  have hcomplete := handler_isComplete h
  simp only [handlerKeeps, Bool.and_eq_true, decide_eq_true_eq] at h
  obtain ⟨⟨⟨⟨⟨hstate, -⟩, hdomain⟩, -⟩, -⟩, -⟩ := h
  refine ⟨hr, hstate, hdomain, ?_⟩
  rw [hcomplete]
  exact id

theorem result_isComplete (s : State β) (p : TaskPtr) : (result s p).isComplete = (s.node.mem p).isComplete := by
  unfold result
  dsimp only
  split
  · split_ifs
    · rw [Task.setModuleComplete_isComplete]
      rfl
    · rfl
  · exact Task.setModuleComplete_isComplete _
  · rfl

theorem Same.result (s : State β) (p : TaskPtr) : Same (s.node.mem p) (result s p) := by
  have hcomplete := result_isComplete s p
  refine ⟨?_, ?_, ?_, by rw [hcomplete]; exact id⟩
  all_goals
    unfold AdminServer.result
    dsimp only
    split
  · next x ret hb hp =>
    have hrole : AdminServer.role (s.node.mem p) = .createTaskState := by rw [AdminServer.role, hb]; rfl
    rw [hrole]
    split_ifs <;> rfl
  · rfl
  · rfl
  · split_ifs <;> rfl
  · rfl
  · rfl
  · split_ifs <;> rfl
  · rfl
  · rfl

theorem Same.ranTask (r : Running (Own β)) {out : Task (Own β)} (hout : r.mode.runs = true → Same t out) :
    Same t (ranTask r t out) := by
  rcases ranTask_cases r t out with ⟨hruns, heq⟩ | ⟨-, heq⟩ | ⟨-, heq⟩
  · rw [heq]
    exact hout hruns
  · rw [heq]
    exact Same.refl t
  · rw [heq]
    exact ⟨rfl, rfl, rfl, by simp [Task.setUnordered]⟩

theorem Same.isRemote (h : Same t t') (cfg : Config β) : isRemote cfg.poll t' = isRemote cfg.poll t := by
  rw [Poll.isRemote, Poll.isRemote, h.domainId]

theorem NewOk.notModuleComplete (h : NewOk t) : t.isModuleComplete = false := by
  have hnew := h.fresh
  simp only [isNew, Bool.and_eq_true, Bool.not_eq_true'] at hnew
  exact hnew.1.2

theorem NewOk.notComplete (h : NewOk t) : t.isComplete = false := by
  have hnew := h.fresh
  simp only [isNew, Bool.and_eq_true, Bool.not_eq_true'] at hnew
  exact hnew.2

theorem NewOk.notStarted (h : NewOk t) : t.isStarted = false := by
  have hnew := h.fresh
  simp only [isNew, Bool.and_eq_true, Bool.not_eq_true'] at hnew
  exact hnew.1.1.1

theorem isFresh_newOk {l : LaneRef} (h : isFresh cfg l t = true) : NewOk t ∧ role t ≠ .schedule := by
  simp only [isFresh, Bool.and_eq_true] at h
  obtain ⟨⟨hnew, -⟩, hrole⟩ := h
  refine ⟨⟨hnew, ?_⟩, ?_⟩
  · intro hr
    rw [hr] at hrole
    simp only [isRequest, hr, Bool.and_eq_true] at hrole
    exact hrole.2.2
  · intro hr
    rw [hr] at hrole
    cases hrole

theorem newOk_scheduleTask (taskNode : TaskNode) (policyId : TaskStateId) :
    NewOk (scheduleTask taskNode policyId : Task (Own β)) := by
  have hflags : (scheduleTask taskNode policyId : Task (Own β)).taskFlags =
    Bitfield.setBits 0#32 (taskLongRunning ||| taskRemoteDebugMark) := rfl
  refine ⟨?_, by rintro ⟨⟩⟩
  simp only [isNew, Task.isStarted, Task.isRunDisabled, Task.isModuleComplete, Task.isComplete, hflags]
  decide

theorem newOk_getOrCreateTaskStateIdTask (taskNode : TaskNode) (stateName : String) :
    NewOk (getOrCreateTaskStateIdTask cfg taskNode stateName) := by
  have hflags : (getOrCreateTaskStateIdTask cfg taskNode stateName).taskFlags = Bitfield.setBits 0#32 0#32 := rfl
  refine ⟨?_, by rintro ⟨⟩⟩
  simp only [isNew, Task.isStarted, Task.isRunDisabled, Task.isModuleComplete, Task.isComplete, hflags]
  decide

end Tasks

def LabelOk (cfg : Config β) (s : State β) : Poll.Label (Own β) → Prop
  | .emplace l t => isFresh cfg l t = true
  | .scan w es => ∀ p, s.node.faced w = some p →
      if (role (s.node.mem p)).isRequest then es = handlerEmplaces cfg s p else ∀ e ∈ es, isFresh cfg e.1 e.2 = true
  | .finish w out => ∀ r, s.node.running w = some r →
      if (role (s.node.mem r.task)).isRequest then out = result s r.task
      else r.mode.runs = true → handlerKeeps (s.node.mem r.task) out = true ∧ role out = role (s.node.mem r.task)
  | .write p t => ((role (s.node.mem p)).isRequest = true →
        isRemote cfg.poll (s.node.mem p) = true ∧ begun s.node p = true) ∧
      handlerKeeps (s.node.mem p) t = true ∧ role t = role (s.node.mem p)
  | _ => True

theorem nodeLabel_ok {cfg : Config β} {s : State β} {l i : Poll.Label (Own β)} (h : nodeLabel cfg s l = some i) :
    LabelOk cfg s i := by
  cases l with
  | emplace l t =>
    simp only [nodeLabel, Option.ite_none_right_eq_some, Option.some.injEq] at h
    obtain ⟨hfresh, rfl⟩ := h
    exact hfresh
  | scan w es =>
    simp only [nodeLabel] at h
    split at h
    · next p hp =>
      split_ifs at h with hr hes
      · cases h
        intro p' hp'
        rw [hp, Option.some.injEq] at hp'
        subst hp'
        rw [if_pos hr]
      · cases h
        intro p' hp'
        rw [hp, Option.some.injEq] at hp'
        subst hp'
        rw [if_neg hr]
        exact List.all_eq_true.mp hes
    · next hp =>
      split_ifs at h
      cases h
      intro p' hp'
      rw [hp] at hp'
      cases hp'
  | finish w out =>
    simp only [nodeLabel] at h
    split at h
    · cases h
    · next r hr =>
      split_ifs at h with hreq hk
      · cases h
        intro r' hr'
        rw [hr, Option.some.injEq] at hr'
        subst hr'
        rw [if_pos hreq]
      · cases h
        intro r' hr'
        rw [hr, Option.some.injEq] at hr'
        subst hr'
        rw [if_neg hreq]
        intro hruns
        simpa [hruns] using hk
  | write p t =>
    simp only [nodeLabel, Option.ite_none_right_eq_some, Option.some.injEq, Bool.and_eq_true, Bool.or_eq_true,
      Bool.not_eq_true', decide_eq_true_eq] at h
    obtain ⟨⟨⟨hreq, hk⟩, hr⟩, rfl⟩ := h
    refine ⟨?_, hk, hr⟩
    intro htrue
    rcases hreq with hfalse | hsent
    · rw [htrue] at hfalse
      cases hfalse
    · exact hsent
  | poll w l =>
    cases h
    trivial
  | put w =>
    cases h
    trivial
  | registry w op =>
    cases h
    trivial

structure Base (cfg : Config β) (s : State β) : Prop where
  lanes : ScannedFifo.Inv cfg.poll.owner s.node.lanesView
  busy : ∀ w r, s.node.running w = some r → r.task < s.node.next ∧ ¬s.node.tasksView.ended r.task
  complete : ∀ p, p < s.node.next → (s.node.mem p).isComplete = true → s.node.tasksView.ended p
  pending : ∀ w r, s.node.running w = some r → ∀ e ∈ r.emplaces, NewOk e.2
  unused : ∀ p, s.node.next ≤ p → s.position p = .start ∧ s.history p = []

structure Ready (cfg : Config β) (s : State β) (i : Poll.Label (Own β)) (t : Poll.State (Own β)) : Prop where
  running : s.node.halted = false
  admin : s.admin.halted = false
  exclusive : Exclusive s.node.tasksView
  label : LabelOk cfg s i
  step : Poll.step cfg.poll s.node i = some t
  tasks : TaskStep cfg.poll s.node.tasksView i t.tasksView

theorem Base.ready {cfg : Config β} {s : State β} (h : Base cfg s) {i : Poll.Label (Own β)}
    {t : Poll.State (Own β)} (hadmin : s.admin.halted = false) (hl : LabelOk cfg s i)
    (hst : Poll.step cfg.poll s.node i = some t) : Ready cfg s i t := by
  obtain ⟨hh, -⟩ := step_transition hst
  exact ⟨hh, hadmin, exclusive_of_lanes h.lanes hh, hl, hst, step_tasks rfl h.lanes hst⟩

theorem step_cases {cfg : Config β} {s s' : State β} {l : Label β} (h : Base cfg s) (hst : step cfg s l = some s') :
    s.admin.halted = false ∧ (∃ n, s' = { s with admin := n }) ∨ ∃ i t, Ready cfg s i t ∧ s' = track cfg s i t := by
  unfold step at hst
  split at hst
  · cases hst
  · next hadmin =>
    cases l with
    | other n =>
      cases hst
      exact Or.inl ⟨by simpa using hadmin, n, rfl⟩
    | node l =>
      obtain ⟨i, hi, hst⟩ := Option.bind_eq_some_iff.mp hst
      obtain ⟨t, ht, rfl⟩ := Option.map_eq_some_iff.mp hst
      exact Or.inr ⟨i, t, h.ready (by simpa using hadmin) (nodeLabel_ok hi) ht, rfl⟩

section Steps

variable {cfg : Config β} {s : State β} {i : Poll.Label (Own β)} {t : Poll.State (Own β)}

theorem LabelOk.same {w : WorkerId} {out : Task (Own β)} {r : Running (Own β)} (h : LabelOk cfg s (.finish w out))
    (hr : s.node.running w = some r) : Same (s.node.mem r.task) (ranTask r (s.node.mem r.task) out) := by
  apply Same.ranTask
  intro hruns
  have hok := h r hr
  split_ifs at hok
  · rw [hok]
    exact Same.result s r.task
  · obtain ⟨hk, hrole⟩ := hok hruns
    exact Same.handler hk hrole

theorem LabelOk.ranTask_isComplete {w : WorkerId} {out : Task (Own β)} {r : Running (Own β)}
    (h : LabelOk cfg s (.finish w out)) (hr : s.node.running w = some r) :
    (ranTask r (s.node.mem r.task) out).isComplete = (s.node.mem r.task).isComplete := by
  have hok := h r hr
  apply RemoteQueue.ranTask_isComplete
  intro hruns
  split_ifs at hok
  · rw [hok]
    exact result_isComplete s r.task
  · exact handler_isComplete (hok hruns).1

theorem step_same (h : Ready cfg s i t) {p : TaskPtr} (hp : p < s.node.next) : Same (s.node.mem p) (t.mem p) := by
  have hlabel := h.label
  show Same (s.node.tasksView.mem p) (t.tasksView.mem p)
  cases h.tasks.move hp with
  | same hm =>
    rw [hm]
    exact Same.refl _
  | start w es exec hi hidle hr hm =>
    rw [hm]
    exact Same.execute ..
  | ran w out r hi hr ht he hm =>
    subst hi ht
    have hsame := hlabel.same hr
    rcases hm with hm | ⟨-, -, hm⟩
    · rw [hm]
      exact hsame
    · rw [hm]
      exact hsame.trans (Same.setComplete _)
  | write x hi hm =>
    subst hi
    rw [hm]
    exact Same.handler hlabel.2.1 hlabel.2.2

theorem step_made (h : Base cfg s) (hr : Ready cfg s i t) {p : TaskPtr} (hold : s.node.next ≤ p) (hp : p < t.next) :
    p = s.node.next ∧ NewOk (t.mem p) ∧ (role (t.mem p) = .schedule →
      ∃ w r dst es, i = .put w ∧ s.node.running w = some r ∧ r.emplaces = (dst, t.mem p) :: es) := by
  have hlabel := hr.label
  obtain ⟨heq, hcase⟩ := hr.tasks.made hold hp
  refine ⟨heq, ?_⟩
  rcases hcase with ⟨l, rfl⟩ | ⟨w, r, dst, es, rfl, hrun, he⟩
  · obtain ⟨hnew, hrole⟩ := isFresh_newOk hlabel
    exact ⟨hnew, fun hs => absurd hs hrole⟩
  · refine ⟨h.pending w r hrun _ (by rw [he]; exact List.mem_cons_self), ?_⟩
    intro _
    exact ⟨w, r, dst, es, rfl, hrun, he⟩

theorem started_runs {x : Task (Own β)} {p : TaskPtr} {exec : Instance} {es : List (LaneRef × Task (Own β))}
    (h : (started cfg.poll x p exec es).mode.runs = true) :
    (started cfg.poll x p exec es).emplaces = es ∧ isRemote cfg.poll x = false ∧
      ((execute cfg.poll x p exec es).task = x.setStarted ∨
        x.isStarted = true ∧ (execute cfg.poll x p exec es).task = x) := by
  simp only [started] at h ⊢
  unfold execute at h ⊢
  split_ifs at h ⊢ with hr hc hs hp
  · cases h
  · exact ⟨rfl, by simpa using hr, Or.inr ⟨hs, rfl⟩⟩
  · exact ⟨rfl, by simpa using hr, Or.inl rfl⟩
  · cases h
  · exact ⟨rfl, by simpa using hr, Or.inl rfl⟩

theorem handlerEmplaces_newOk (s : State β) (p : TaskPtr) : ∀ e ∈ handlerEmplaces cfg s p, NewOk e.2 := by
  intro e he
  unfold handlerEmplaces at he
  dsimp only at he
  split at he
  · split_ifs at he
    · rw [List.mem_singleton.mp he]
      exact newOk_getOrCreateTaskStateIdTask ..
    · cases he
  · split_ifs at he
    · cases he
    · rw [List.mem_singleton.mp he]
      exact newOk_scheduleTask ..
  · cases he

theorem started_newOk (h : Ready cfg s i t) {w : WorkerId} {es : List (LaneRef × Task (Own β))} (hi : i = .scan w es)
    {r : Running (Own β)} (hr : t.running w = some r) (exec : Instance)
    (hstart : r = started cfg.poll (s.node.mem r.task) r.task exec es) : ∀ e ∈ r.emplaces, NewOk e.2 := by
  have hlabel := h.label
  have hstep := h.step
  subst hi
  obtain ⟨hfaced, -⟩ := scan_running hstep hr
  have hes : ∀ e ∈ es, NewOk e.2 := by
    have hok := hlabel r.task hfaced
    split_ifs at hok
    · rw [hok]
      exact handlerEmplaces_newOk s r.task
    · intro e he
      exact (isFresh_newOk (hok e he)).1
  intro e he
  rw [hstart] at he
  rcases mem_execute_emplaces cfg.poll he with heq | he
  · rw [heq]
    exact ⟨RemoteQueue.isNew_pushTask .., by rintro ⟨⟩⟩
  · exact hes e he

theorem step_pending (h : Base cfg s) (hr : Ready cfg s i t) {w : WorkerId} {r : Running (Own β)}
    (hrun : t.running w = some r) : ∀ e ∈ r.emplaces, NewOk e.2 := by
  cases hr.tasks.runOrigin (w := w) hrun with
  | same hold => exact h.pending w r hold
  | skip es hi hidle hm he =>
    rw [he]
    simp
  | start es exec hi hidle hstart => exact started_newOk hr hi hrun exec hstart
  | put r₀ hi hr₀ ht hm he =>
    intro e hmem
    exact h.pending w r₀ hr₀ e (he e hmem)

theorem step_complete (h : Base cfg s) (hr : Ready cfg s i t) {p : TaskPtr} (hp : p < t.next)
    (hc : (t.mem p).isComplete = true) : t.tasksView.ended p := by
  have hlabel := hr.label
  refine RemoteQueue.complete_ended hr.tasks h.complete ?_ ?_ ?_ hp hc
  · intro w out r hi hrun
    subst hi
    exact hlabel.ranTask_isComplete hrun
  · intro q x hi
    subst hi
    exact handler_isComplete hlabel.2.1
  · intro q hold hq
    exact (step_made h hr hold hq).2.1.notComplete

end Steps

inductive NodeAfter (s : State β) : Poll.State (Own β) → Prop
  | same : NodeAfter s s.node
  | setModuleComplete (c : Scheduler β) (q : TaskPtr) (hc : c ∈ s.schedulers) (hq : c.shm = some q) :
      NodeAfter s (s.node.setTask q (s.node.mem q).setModuleComplete)
  | halt : NodeAfter s { s.node with halted := true }

theorem NodeAfter.next {s : State β} {u : Poll.State (Own β)} (h : NodeAfter s u) : u.next = s.node.next := by
  cases h <;> rfl

theorem NodeAfter.running {s : State β} {u : Poll.State (Own β)} (h : NodeAfter s u) :
    u.running = s.node.running := by
  cases h <;> rfl

theorem NodeAfter.log {s : State β} {u : Poll.State (Own β)} (h : NodeAfter s u) : u.log = s.node.log := by
  cases h <;> rfl

theorem NodeAfter.mem {s : State β} {u : Poll.State (Own β)} (h : NodeAfter s u) (p : TaskPtr) :
    u.mem p = s.node.mem p ∨ (∃ c ∈ s.schedulers, c.shm = some p) ∧ u.mem p = (s.node.mem p).setModuleComplete := by
  cases h with
  | same => exact Or.inl rfl
  | halt => exact Or.inl rfl
  | setModuleComplete c q hc hq =>
    by_cases hp : p = q
    · subst hp
      exact Or.inr ⟨⟨c, hc, hq⟩, Function.update_self ..⟩
    · exact Or.inl (Function.update_of_ne hp ..)

theorem NodeAfter.isComplete {s : State β} {u : Poll.State (Own β)} (h : NodeAfter s u) (p : TaskPtr) :
    (u.mem p).isComplete = (s.node.mem p).isComplete := by
  rcases h.mem p with hm | ⟨-, hm⟩
  · rw [hm]
  · rw [hm, Task.setModuleComplete_isComplete]

theorem NodeAfter.task {s : State β} {u : Poll.State (Own β)} (h : NodeAfter s u) (p : TaskPtr) :
    Same (s.node.mem p) (u.mem p) := by
  rcases h.mem p with hm | ⟨-, hm⟩
  · rw [hm]
    exact Same.refl _
  · rw [hm]
    exact Same.setModuleComplete _

theorem NodeAfter.lanes {s : State β} {u : Poll.State (Own β)} (h : NodeAfter s u) {owner : LaneRef → WorkerId}
    (hl : ScannedFifo.Inv owner s.node.lanesView) : ScannedFifo.Inv owner u.lanesView := by
  cases h with
  | same => exact hl
  | setModuleComplete c q hc hq => exact hl
  | halt => exact hl.step (.halt _)

structure CallFrame (s s' : State β) (p : TaskPtr) : Prop where
  node : NodeAfter s s'.node
  position : ∀ q, q ≠ p → s'.position q = s.position q
  history : s'.history = s.history

section Calls

variable {cfg : Config β} (s : State β) (p : TaskPtr)

theorem setPosition_frame (x : Position) (n : Admin.Node) : CallFrame s { s.setPosition p x with admin := n } p :=
  ⟨.same, fun _ hq => Function.update_of_ne hq .., rfl⟩

theorem createTaskStateEnd_frame (x : CreateTaskStateTask) : CallFrame s (s.createTaskStateEnd cfg p x) p := by
  unfold State.createTaskStateEnd
  split_ifs
  · exact setPosition_frame s p _ s.admin
  · exact setPosition_frame s p _ _

theorem jump_frame (x : CreateTaskStateTask) : CallFrame s (s.jump cfg p x) p := by
  have hrefl : CallFrame s s p := ⟨.same, fun _ _ => rfl, rfl⟩
  unfold State.jump
  split
  · unfold State.createTaskState
    split
    · exact setPosition_frame s p _ s.admin
    · split_ifs
      · exact setPosition_frame s p _ _
      · exact createTaskStateEnd_frame s p x
  · split_ifs
    · split
      · exact createTaskStateEnd_frame s p _
      · exact hrefl
    · exact hrefl
  · exact ⟨.halt, fun _ _ => rfl, rfl⟩
  · exact hrefl

theorem setModuleComplete_frame (i : ℕ) : CallFrame s (s.setModuleComplete i) p := by
  unfold State.setModuleComplete
  split
  · next k r x q hi => exact ⟨.setModuleComplete _ q (List.mem_of_getElem? hi) rfl, fun _ _ => rfl, rfl⟩
  · exact ⟨.same, fun _ _ => rfl, rfl⟩
  · exact ⟨.same, fun _ _ => rfl, rfl⟩

theorem setWorkOrchPolicy_frame (k : Sched) (policyId : TaskStateId) :
    CallFrame s (s.setWorkOrchPolicy k p policyId) p := by
  cases hk : s.sched k with
  | none =>
    simp only [State.setWorkOrchPolicy, hk]
    split_ifs
    · exact ⟨.same, fun _ _ => rfl, rfl⟩
    · exact ⟨.same, fun _ hq => Function.update_of_ne hq .., rfl⟩
  | some i =>
    have hkick := setModuleComplete_frame s p i
    simp only [State.setWorkOrchPolicy, hk]
    split_ifs
    · exact hkick
    · refine ⟨hkick.node, ?_, hkick.history⟩
      intro q hq
      exact (Function.update_of_ne hq ..).trans (hkick.position q hq)

theorem call_frame (cfg : Config β) : CallFrame s (call cfg s p) p := by
  unfold call
  split
  · exact jump_frame s p _
  · exact setWorkOrchPolicy_frame s p _ _
  · exact setWorkOrchPolicy_frame s p _ _
  · exact ⟨.same, fun _ _ => rfl, rfl⟩

end Calls

section Track

variable {cfg : Config β} {s : State β} {i : Poll.Label (Own β)} {t : Poll.State (Own β)}

theorem emplaced_frame (s : State β) (p q : TaskPtr) : (emplaced s p q).node = s.node ∧
    (∀ q', q' ≠ p → (emplaced s p q).position q' = s.position q') ∧ (emplaced s p q).history = s.history := by
  unfold emplaced
  split
  · exact ⟨rfl, fun _ hq => Function.update_of_ne hq .., rfl⟩
  · exact ⟨rfl, fun _ _ => rfl, rfl⟩
  · exact ⟨rfl, fun _ _ => rfl, rfl⟩

theorem returns_frame (s : State β) (p : TaskPtr) : (returns s p).node = s.node ∧
    (∀ q, q ≠ p → (returns s p).position q = s.position q) ∧
      ∀ q, q ≠ p → (returns s p).history q = s.history q := by
  unfold returns
  split
  · exact ⟨rfl, fun _ hq => Function.update_of_ne hq .., fun _ hq => Function.update_of_ne hq ..⟩
  · exact ⟨rfl, fun _ _ => rfl, fun _ _ => rfl⟩

structure TrackFrame (s : State β) (t : Poll.State (Own β)) (s' : State β) (p : TaskPtr) : Prop where
  node : NodeAfter { s with node := t } s'.node
  position : ∀ q, q ≠ p → s'.position q = s.position q
  history : ∀ q, q ≠ p → s'.history q = s.history q

theorem track_scan_frame {w : WorkerId} {es : List (LaneRef × Task (Own β))} {r : Running (Own β)}
    (hr : t.running w = some r) : TrackFrame s t (track cfg s (.scan w es) t) r.task := by
  have hrecord : ∀ q, q ≠ r.task →
      (({ s with node := t } : State β).record r.task (jumpEvents s.node t r)).history q = s.history q :=
    fun q hq => Function.update_of_ne hq ..
  simp only [track, hr]
  split_ifs
  · have hcall := call_frame (({ s with node := t } : State β).record r.task (jumpEvents s.node t r)) r.task cfg
    refine ⟨?_, hcall.position, ?_⟩
    · have hnode := hcall.node
      generalize (call cfg _ r.task).node = u at hnode ⊢
      cases hnode with
      | same => exact .same
      | setModuleComplete c q hc hq => exact .setModuleComplete c q hc hq
      | halt => exact .halt
    · intro q hq
      rw [hcall.history]
      exact hrecord q hq
  · exact ⟨.same, fun _ _ => rfl, hrecord⟩

theorem track_put_frame {w : WorkerId} {r : Running (Own β)} (hr : s.node.running w = some r) :
    TrackFrame s t (track cfg s (.put w) t) r.task := by
  simp only [track, hr]
  split_ifs
  · obtain ⟨hnode, hpos, hhist⟩ := emplaced_frame { s with node := t } r.task s.node.next
    refine ⟨?_, hpos, fun _ _ => by rw [hhist]⟩
    rw [hnode]
    exact .same
  · exact ⟨.same, fun _ _ => rfl, fun _ _ => rfl⟩

theorem track_finish_frame {w : WorkerId} {out : Task (Own β)} {r : Running (Own β)}
    (hr : s.node.running w = some r) : TrackFrame s t (track cfg s (.finish w out) t) r.task := by
  obtain ⟨hnode, hpos, hhist⟩ := returns_frame { s with node := t } r.task
  simp only [track, hr]
  split_ifs
  · refine ⟨?_, hpos, ?_⟩
    · rw [State.record, hnode]
      exact .same
    · intro q hq
      exact (Function.update_of_ne hq ..).trans (hhist q hq)
  · exact ⟨.same, fun _ _ => rfl, fun q hq => Function.update_of_ne hq ..⟩

theorem track_frame (h : Base cfg s) (hr : Ready cfg s i t) :
    track cfg s i t = { s with node := t } ∨ ∃ p, p < s.node.next ∧ TrackFrame s t (track cfg s i t) p := by
  cases i with
  | scan w es =>
    cases hrun : t.running w with
    | none =>
      left
      simp only [track, hrun]
    | some r => exact Or.inr ⟨r.task, (hr.tasks.scanned hrun).2.1.known, track_scan_frame hrun⟩
  | put w =>
    cases hrun : s.node.running w with
    | none =>
      left
      simp only [track, hrun]
    | some r => exact Or.inr ⟨r.task, (h.busy w r hrun).1, track_put_frame hrun⟩
  | finish w out =>
    cases hrun : s.node.running w with
    | none =>
      left
      simp only [track, hrun]
    | some r => exact Or.inr ⟨r.task, (h.busy w r hrun).1, track_finish_frame hrun⟩
  | emplace l x => exact Or.inl rfl
  | poll w l => exact Or.inl rfl
  | registry w op => exact Or.inl rfl
  | write q x => exact Or.inl rfl

theorem base_node (h : Base cfg s) (hr : Ready cfg s i t) {u : State β} (hu : NodeAfter { s with node := t } u.node)
    (hunused : ∀ p, t.next ≤ p → u.position p = .start ∧ u.history p = []) : Base cfg u := by
  have hnext : u.node.next = t.next := hu.next
  have hrunning : u.node.running = t.running := hu.running
  have hended : u.node.tasksView.ended = t.tasksView.ended := by
    funext p
    show (Event.endTask p ∈ u.node.log) = (.endTask p ∈ t.log)
    rw [hu.log]
  refine ⟨hu.lanes (step_lanesInv h.lanes hr.step), ?_, ?_, ?_, ?_⟩
  · rw [hrunning, hnext, hended]
    intro w r hrun
    exact hr.exclusive.step hr.tasks hrun
  · rw [hnext, hended]
    intro p hp hc
    rw [hu.isComplete] at hc
    exact step_complete h hr hp hc
  · rw [hrunning]
    intro w r hrun
    exact step_pending h hr hrun
  · rw [hnext]
    exact hunused

theorem Base.track (h : Base cfg s) (hr : Ready cfg s i t) : Base cfg (track cfg s i t) := by
  have hunused : ∀ p, t.next ≤ p → s.position p = .start ∧ s.history p = [] := by
    intro p hp
    exact h.unused p (Nat.le_trans hr.tasks.next_le hp)
  rcases track_frame h hr with heq | ⟨p, hp, hframe⟩
  · rw [heq]
    exact base_node h hr .same hunused
  · apply base_node h hr hframe.node
    intro q hq
    have hne : q ≠ p := fun heq => Nat.not_lt_of_le (Nat.le_trans hr.tasks.next_le hq) (heq ▸ hp)
    rw [hframe.position q hne, hframe.history q hne]
    exact hunused q hq

theorem Base.init (cfg : Config β) (mem : TaskPtr → Task (Own β)) (registered : TaskStateId → Bool)
    (admin : Admin.Node) : Base cfg (State.init (Poll.State.init mem registered) admin) := by
  refine ⟨lanesView_init mem registered, ?_, ?_, ?_, ?_⟩ <;>
    simp [State.init, Poll.State.init, Poll.State.running]

end Track

end HermesRun.AdminServer
