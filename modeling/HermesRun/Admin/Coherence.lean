import HermesRun.Admin.OwnQueues

namespace HermesRun.Admin.Coherence

open QueueManager Runs

structure State where
  node : Node
  waiting : List (CreateTaskStateTask × Option TaskStateId)

inductive Label where
  | getOrCreateTaskStateId (name : String)
  | createTaskState (t : CreateTaskStateTask)
  | answer (i : ℕ) (id : TaskStateId)
  | resume (i : ℕ)
  | destroyTaskState (id : TaskStateId)

def destroyTaskState (n : Node) (id : TaskStateId) : Node := { n with registry := n.registry.destroyTaskState id }

variable (cfg : Config)

/-- `DomainId::GetNode(1)` is this node, whose own registry then answers a creation without an id. -/
def answersItself (n : Node) : Bool := !(DomainId.getNode 1).isRemote cfg.numHosts n.registry.nodeId

def createTaskState (s : State) (t : CreateTaskStateTask) : State :=
  match (s.node.createTaskState t).2 with
  | none => ⟨askId cfg s.node.registry.nodeId (s.node.createTaskState t).1, s.waiting ++ [(t, none)]⟩
  | some _ => { s with node := (s.node.createTaskState t).1 }

def answer (s : State) (i : ℕ) (id : TaskStateId) (t : CreateTaskStateTask) : State :=
  if answersItself cfg s.node then
    ⟨(s.node.getOrCreateTaskStateId t.stateName).2,
      s.waiting.set i (t, some (s.node.getOrCreateTaskStateId t.stateName).1)⟩
  else { s with waiting := s.waiting.set i (t, some id) }

def step (s : State) (l : Label) : Option State :=
  if s.node.halted then none
  else match l with
    | .getOrCreateTaskStateId name => some { s with node := (s.node.getOrCreateTaskStateId name).2 }
    | .createTaskState t => some (createTaskState cfg s t)
    | .answer i id => match s.waiting[i]? with
      | some (t, none) => some (answer cfg s i id t)
      | _ => none
    | .resume i => match s.waiting[i]? with
      | some (t, some id) => some ⟨s.node.createTaskStateEnd { t with id := id }, s.waiting.eraseIdx i⟩
      | _ => none
    | .destroyTaskState id => some { s with node := destroyTaskState s.node id }

def boot (k : NodeId) : State := ⟨Node.serverInit cfg k, []⟩

structure Coherent (r : TaskRegistry) : Prop where
  entry : ∀ id state, r.taskStates id = some state → state.id = id ∧ r.taskStateIds state.name = some id
  names : ∀ id id' state state', r.taskStates id = some state → r.taskStates id' = some state' →
    state.name = state'.name → id = id'
  lookup : ∀ id state other, r.taskStates id = some state → r.getTaskState state.name other = some state

def creating (s : State) : Label → Option CreateTaskStateTask
  | .createTaskState t =>
    if t.id.isNull || (s.node.registry.getTaskState t.stateName t.id).isSome then none else some t
  | .resume i => match s.waiting[i]? with
    | some (t, some id) => some { t with id := id }
    | _ => none
  | _ => none

def Creates (n : Node) (t : CreateTaskStateTask) : Prop :=
  n.registry.Instantiates t.libName t.id ∧ QueueManager.getQueue n.queueMap t.id ≠ none

def NameFits (s : State) (l : Label) (_ : State) : Prop :=
  ∀ t, creating s l = some t → Creates s.node t →
    s.node.registry.taskStateIds t.stateName = none ∨ s.node.registry.taskStateIds t.stateName = some t.id

def Live (r : TaskRegistry) : Prop :=
  ∀ id state, r.taskStates id = some state → id.isNull = false ∧ state.id = id

variable {cfg} {r : TaskRegistry} {n : Node} {s s' : State} {l : Label}

theorem coherent_iff (h : Live r) :
    Coherent r ↔ ∀ id state, r.taskStates id = some state → r.taskStateIds state.name = some id := by
  constructor
  · intro hc id state hs
    exact (hc.entry id state hs).2
  · intro hids
    refine ⟨fun id state hs => ⟨(h id state hs).2, hids id state hs⟩, ?_, ?_⟩
    · intro id id' state state' hs hs' hname
      have heq := hids id state hs
      rw [hname, hids id' state' hs', Option.some.injEq] at heq
      exact heq.symm
    · intro id state other hs
      have hid : r.getTaskStateId state.name = id := by
        rw [TaskRegistry.getTaskStateId, hids id state hs, Option.getD_some]
      rw [TaskRegistry.getTaskState, hid, if_neg (by simp [(h id state hs).1])]
      exact hs

def added (r : TaskRegistry) (name : String) (id : TaskStateId) (info : Option (List PriorityInfo)) :
    TaskRegistry :=
  { r with
    taskStateIds := r.emplaceId name id
    taskStates := Function.update r.taskStates id (some ⟨id, name, info⟩)
    created := ⟨id, name, info⟩ :: r.created }

theorem live_added (h : Live r) {name : String} {id : TaskStateId} (hid : id.isNull = false)
    (info : Option (List PriorityInfo)) : Live (added r name id info) := by
  intro id' state hs
  dsimp only [added] at hs
  by_cases heq : id' = id
  · subst heq
    rw [Function.update_self, Option.some.injEq] at hs
    subst hs
    exact ⟨hid, rfl⟩
  · rw [Function.update_of_ne heq] at hs
    exact h id' state hs

theorem coherent_added (h : Live r) (hc : Coherent r) {name : String} {id : TaskStateId}
    (hid : id.isNull = false) (hnew : r.taskStates id = none) (info : Option (List PriorityInfo)) :
    Coherent (added r name id info) ↔ r.taskStateIds name = none ∨ r.taskStateIds name = some id := by
  have hids := (coherent_iff h).mp hc
  rw [coherent_iff (live_added h hid info)]
  have hself : (added r name id info).taskStates id = some ⟨id, name, info⟩ := Function.update_self ..
  constructor
  · intro hall
    have hname := hall id _ hself
    rcases TaskRegistry.of_emplaceId hname with hold | ⟨-, -, hfree⟩
    · exact Or.inr hold
    · exact Or.inl hfree
  · intro hname id' state hs
    by_cases heq : id' = id
    · subst heq
      rw [hself, Option.some.injEq] at hs
      subst hs
      rcases hname with hfree | hheld
      · exact TaskRegistry.emplaceId_self hfree
      · exact TaskRegistry.emplaceId_some hheld
    · have hold : r.taskStates id' = some state := by
        rw [← hs]
        exact (Function.update_of_ne heq _ _).symm
      exact TaskRegistry.emplaceId_some (hids id' state hold)

theorem createTaskStateEnd_registry (hrun : n.halted = false) (t : CreateTaskStateTask) :
    Creates n t ∧ (n.createTaskStateEnd t).registry = added n.registry t.stateName t.id (some t.queueInfo) ∨
      ¬Creates n t ∧ (n.createTaskStateEnd t).registry = n.registry := by
  by_cases hnew : n.registry.Instantiates t.libName t.id
  · have hex : n.registry.taskStateExists t.id = false := by simp [TaskRegistry.taskStateExists, hnew.2.2]
    unfold Node.createTaskStateEnd
    rw [if_neg (by simp [hnew.1]), if_neg (by simp [hex])]
    cases hq : QueueManager.getQueue n.queueMap t.id with
    | none =>
      refine Or.inr ⟨fun h => h.2 hq, ?_⟩
      simp [Node.createQueue, QueueManager.createQueue, hq]
    | some q =>
      refine Or.inl ⟨⟨hnew, by simp [hq]⟩, ?_⟩
      simp only [Node.createQueue, QueueManager.createQueue, hq, Option.map_some, hrun, Bool.false_eq_true, if_false]
      rw [TaskRegistry.createTaskState_new hnew]
      rfl
  · refine Or.inr ⟨fun h => hnew h.1, ?_⟩
    rcases n.createTaskStateEnd_registry t with heq | heq
    · exact heq
    · rw [heq, TaskRegistry.createTaskState_old hnew]

inductive RegistryStep (s : State) (l : Label) (r : TaskRegistry) : Prop
  | same (hr : r = s.node.registry) (hnone : ∀ t, creating s l = some t → ¬Creates s.node t)
  | reserved (name : String) (id : TaskStateId)
      (hr : r = { s.node.registry with taskStateIds := s.node.registry.emplaceId name id })
      (hnone : creating s l = none)
  | added (t : CreateTaskStateTask) (hr : r = added s.node.registry t.stateName t.id (some t.queueInfo))
      (ht : creating s l = some t) (hnew : Creates s.node t)
  | destroyed (id : TaskStateId) (hr : r = s.node.registry.destroyTaskState id) (hnone : creating s l = none)

theorem getOrCreate_registry {name : String} (hnone : creating s l = none) :
    RegistryStep s l (s.node.getOrCreateTaskStateId name).2.registry := by
  cases h : s.node.registry.taskStateIds name with
  | none =>
    rw [Node.getOrCreateTaskStateId_new h]
    exact .reserved name ⟨s.node.registry.nodeId, s.node.unique⟩ rfl hnone
  | some id =>
    rw [Node.getOrCreateTaskStateId_old h]
    exact .same rfl (by simp [hnone])

theorem createTaskStateEnd_step (hrun : s.node.halted = false) {t : CreateTaskStateTask}
    (ht : creating s l = some t) : RegistryStep s l (s.node.createTaskStateEnd t).registry := by
  rcases createTaskStateEnd_registry hrun t with ⟨hnew, heq⟩ | ⟨hnew, heq⟩
  · exact .added t heq ht hnew
  · refine .same heq ?_
    intro t' ht'
    rw [ht, Option.some.injEq] at ht'
    rwa [← ht']

theorem createTaskState_step (hrun : s.node.halted = false) (t : CreateTaskStateTask) :
    RegistryStep s (.createTaskState t) (createTaskState cfg s t).node.registry := by
  unfold createTaskState Node.createTaskState
  cases hstate : s.node.registry.getTaskState t.stateName t.id with
  | some state => exact .same rfl (by simp [creating, hstate])
  | none =>
    cases hid : t.id.isNull with
    | true =>
      dsimp only
      rw [if_pos rfl]
      refine .same ?_ (by simp [creating, hid])
      rw [Node.askId_registry, Node.getQueue_registry]
    | false =>
      dsimp only
      rw [if_neg (by simp)]
      exact createTaskStateEnd_step hrun (by simp [creating, hid, hstate])

theorem answer_step {i : ℕ} {id : TaskStateId} {t : CreateTaskStateTask} :
    RegistryStep s (.answer i id) (answer cfg s i id t).node.registry := by
  unfold answer
  split_ifs
  · exact getOrCreate_registry rfl
  · exact .same rfl (by simp [creating])

theorem step_registry (h : step cfg s l = some s') : RegistryStep s l s'.node.registry := by
  unfold step at h
  split_ifs at h with hhalted
  have hrun : s.node.halted = false := by simpa using hhalted
  cases l with
  | getOrCreateTaskStateId name =>
    cases h
    exact getOrCreate_registry rfl
  | createTaskState t =>
    cases h
    exact createTaskState_step hrun t
  | answer i id =>
    dsimp only at h
    split at h
    · cases h
      exact answer_step
    · cases h
  | resume i =>
    dsimp only at h
    split at h
    · rename_i t id hi
      cases h
      exact createTaskStateEnd_step hrun (by simp [creating, hi])
    · cases h
  | destroyTaskState id =>
    cases h
    exact .destroyed id rfl rfl

theorem live_destroyTaskState (h : Live r) (id : TaskStateId) : Live (r.destroyTaskState id) := by
  unfold TaskRegistry.destroyTaskState
  split
  · exact h
  · intro id' state' hs
    dsimp only at hs
    by_cases heq : id' = id
    · rw [heq, Function.update_self] at hs
      cases hs
    · rw [Function.update_of_ne heq] at hs
      exact h id' state' hs

theorem coherent_destroyTaskState (h : Live r) (hc : Coherent r) (id : TaskStateId) :
    Coherent (r.destroyTaskState id) := by
  rw [coherent_iff (live_destroyTaskState h id)]
  intro id' state' hs
  unfold TaskRegistry.destroyTaskState at hs ⊢
  cases hstate : r.taskStates id with
  | none =>
    simp only [hstate] at hs ⊢
    exact (hc.entry id' state' hs).2
  | some state =>
    simp only [hstate] at hs ⊢
    by_cases hid : id' = id
    · rw [hid, Function.update_self] at hs
      cases hs
    · rw [Function.update_of_ne hid] at hs
      have hname : state'.name ≠ state.name := fun heq => hid (hc.names id' id state' state hs hstate heq)
      rw [Function.update_of_ne hname]
      exact (hc.entry id' state' hs).2

theorem step_live (h : Live s.node.registry) (hstep : step cfg s l = some s') : Live s'.node.registry := by
  cases step_registry hstep with
  | same hr =>
    rw [hr]
    exact h
  | reserved name id hr =>
    rw [hr]
    exact h
  | added t hr ht hnew =>
    rw [hr]
    exact live_added h hnew.1.1 _
  | destroyed id hr =>
    rw [hr]
    exact live_destroyTaskState h id

theorem step_coherent (h : Live s.node.registry) (hc : Coherent s.node.registry)
    (hstep : step cfg s l = some s') : Coherent s'.node.registry ↔ NameFits s l s' := by
  have hquiet : creating s l = none → NameFits s l s' := by
    intro hnone t ht
    rw [hnone] at ht
    cases ht
  cases step_registry hstep with
  | same hr hnone =>
    rw [hr]
    exact iff_of_true hc fun t ht hnew => absurd hnew (hnone t ht)
  | reserved name id hr hnone =>
    refine iff_of_true ?_ (hquiet hnone)
    rw [hr]
    refine (coherent_iff (r := { s.node.registry with
      taskStateIds := s.node.registry.emplaceId name id }) h).mpr ?_
    intro id' state hs
    exact TaskRegistry.emplaceId_some ((coherent_iff h).mp hc id' state hs)
  | added t hr ht hnew =>
    rw [hr, coherent_added h hc hnew.1.1 hnew.1.2.2]
    constructor
    · intro hname t' ht' _
      rw [ht, Option.some.injEq] at ht'
      rwa [← ht']
    · intro hfits
      exact hfits t ht hnew
  | destroyed id hr hnone =>
    rw [hr]
    exact iff_of_true (coherent_destroyTaskState h hc id) (hquiet hnone)

structure Knows (names : List String) (r : TaskRegistry) : Prop where
  live : Live r
  coherent : Coherent r
  ids : ∀ name, name ∉ names → r.taskStateIds name = none

theorem knows_init (k : NodeId) (libs : List String) : Knows [] (TaskRegistry.init k libs) where
  live id state hs := by cases hs
  coherent := by constructor <;> intro id <;> simp [TaskRegistry.init]
  ids name _ := rfl

theorem Knows.added {names : List String} (h : Knows names r) {name : String} {id : TaskStateId}
    (hid : id.isNull = false) (hnew : r.taskStates id = none) (hname : name ∉ names)
    (info : Option (List PriorityInfo)) : Knows (name :: names) (added r name id info) where
  live := live_added h.live hid info
  coherent := (coherent_added h.live h.coherent hid hnew info).mpr (Or.inl (h.ids name hname))
  ids other hother := by
    rw [List.mem_cons, not_or] at hother
    have hnone := h.ids other hother.2
    by_contra hsome
    obtain ⟨id', hid'⟩ := Option.ne_none_iff_exists'.mp hsome
    rcases TaskRegistry.of_emplaceId hid' with hold | ⟨heq, -⟩
    · rw [hnone] at hold
      cases hold
    · exact hother.1 heq

theorem Knows.weaken {names : List String} (h : Knows names r) (name : String) : Knows (name :: names) r where
  live := h.live
  coherent := h.coherent
  ids other hother := h.ids other fun hmem => hother (List.mem_cons_of_mem _ hmem)

theorem Knows.createTaskState {names : List String} (h : Knows names r) {name : String} (hname : name ∉ names)
    (lib : String) (id : TaskStateId) (info : Option (List PriorityInfo)) :
    Knows (name :: names) (r.createTaskState lib name id info).2 := by
  by_cases hnew : r.Instantiates lib id
  · rw [TaskRegistry.createTaskState_new hnew]
    exact h.added hnew.1 hnew.2.2 hname info
  · rw [TaskRegistry.createTaskState_old hnew]
    exact h.weaken name

theorem Knows.bootTaskState {names : List String} (h : Knows names n.registry) {name : String}
    (hname : name ∉ names) (id : TaskStateId) : Knows (name :: names) (n.bootTaskState name id).registry := by
  apply Knows.createTaskState _ hname
  exact ⟨h.live, ⟨h.coherent.entry, h.coherent.names, h.coherent.lookup⟩, h.ids⟩

theorem knows_bootLibs (cfg : Config) (k : NodeId) :
    Knows ["worch_proc_round_robin", "worch_queue_round_robin", "proc_queue", "hermes_run_admin"]
      (Node.bootLibs cfg k).registry := by
  unfold Node.bootLibs
  dsimp only [Node.getQueue_registry, Node.makeTaskNodeId]
  apply Knows.bootTaskState _ (by decide)
  apply Knows.bootTaskState _ (by decide)
  apply Knows.bootTaskState _ (by decide)
  apply Knows.bootTaskState _ (by decide)
  exact knows_init k cfg.taskLibs

theorem Knows.handler {names : List String} (h : Knows names n.registry) (t : CreateTaskStateTask)
    (hname : t.stateName ∉ names) : Knows (t.stateName :: names) (n.createTaskState t).1.registry := by
  rcases n.createTaskState_registry t with heq | heq
  · rw [heq]
    exact h.weaken _
  · rcases n.createTaskStateEnd_registry t with hend | hend
    · rw [heq, hend]
      exact h.weaken _
    · rw [heq, hend]
      exact h.createTaskState hname _ _ _

theorem knows_boot (cfg : Config) (k : NodeId) :
    Knows ["remote_queue", "worch_proc_round_robin", "worch_queue_round_robin", "proc_queue", "hermes_run_admin"]
      (boot cfg k).node.registry := by
  obtain ⟨hlive, hcoherent, hids⟩ := knows_bootLibs cfg k
  unfold boot Node.serverInit
  apply Knows.handler (t := Node.remoteQueueTask cfg _)
  · simp [Node.remoteQueueTask]
  · exact ⟨hlive, ⟨hcoherent.entry, hcoherent.names, hcoherent.lookup⟩, hids⟩

theorem coherent_along_iff (cfg : Config) (k : NodeId) (labels : List Label) :
    Along (step cfg) (fun _ _ s => Coherent s.node.registry) (boot cfg k) labels ↔
      Along (step cfg) NameFits (boot cfg k) labels := by
  obtain ⟨hlive, hc, -⟩ := knows_boot cfg k
  exact along_iff (J := fun s => Live s.node.registry) (P := fun s => Coherent s.node.registry)
    (fun s l t h hstep => step_live h hstep) (fun s l t h hc hstep => step_coherent h hc hstep) labels hlive hc

def oneNode : Config := ⟨1, 256, 2, 1024, ["small_message"]⟩

def ipcTask (id : TaskStateId) : CreateTaskStateTask :=
  ⟨DomainId.getLocal, "small_message", "ipc_test", id, [⟨2, 2, 1024, queueLowLatency⟩]⟩

theorem coherent_reservedName : ¬Along (step oneNode) (fun _ _ s => Coherent s.node.registry) (boot oneNode 1)
    [.getOrCreateTaskStateId "ipc_test", .createTaskState (ipcTask ⟨1, 100⟩)] := by
  have hrun : (run (step oneNode) (boot oneNode 1)
      [.getOrCreateTaskStateId "ipc_test", .createTaskState (ipcTask ⟨1, 100⟩)]).any (fun s =>
        (s.node.registry.taskStates ⟨1, 100⟩).any (fun state => state.name == "ipc_test") &&
          s.node.registry.taskStateIds "ipc_test" != some ⟨1, 100⟩) = true := by decide +kernel
  obtain ⟨s, hs, hdiffer⟩ := (Option.any_eq_true _ _).mp hrun
  simp only [Bool.and_eq_true, Option.any_eq_true, beq_iff_eq, bne_iff_ne] at hdiffer
  obtain ⟨⟨state, hstate, hname⟩, hid⟩ := hdiffer
  intro hall
  have hc := run_invariant (I := fun s => Coherent s.node.registry) (fun _ _ _ _ _ h => h)
    (knows_boot oneNode 1).coherent hall hs
  apply hid
  rw [← hname]
  exact (hc.entry _ state hstate).2

end HermesRun.Admin.Coherence
