import HermesRun.Admin.Cluster

namespace HermesRun.Admin

open QueueManager Runs

variable {cfg : Config}

def bootNames : List String :=
  ["hermes_run_admin", "proc_queue", "worch_queue_round_robin", "worch_proc_round_robin", "remote_queue"]

namespace Node

variable (n : Node)

@[simp] theorem getQueue_registry (id : QueueId) : (n.getQueue id).registry = n.registry := rfl

@[simp] theorem createQueue_registry (id : QueueId) (info : List PriorityInfo) :
    (n.createQueue id info).registry = n.registry := by
  unfold createQueue
  split <;> rfl

@[simp] theorem askId_registry (cfg : Config) (k : NodeId) : (askId cfg k n).registry = n.registry := by
  unfold askId
  split_ifs <;> rfl

theorem createTaskStateEnd_registry (t : CreateTaskStateTask) :
    (n.createTaskStateEnd t).registry = n.registry ∨ (n.createTaskStateEnd t).registry =
      (n.registry.createTaskState t.libName t.stateName t.id (some t.queueInfo)).2 := by
  unfold createTaskStateEnd
  dsimp only
  split_ifs
  · exact Or.inl rfl
  · exact Or.inl rfl
  · exact Or.inl (n.createQueue_registry _ _)
  · rw [createQueue_registry]
    exact Or.inr rfl

theorem createTaskState_registry (t : CreateTaskStateTask) :
    (n.createTaskState t).1.registry = n.registry ∨
      (n.createTaskState t).1.registry = (n.createTaskStateEnd t).registry := by
  unfold createTaskState
  split
  · exact Or.inl rfl
  · split_ifs
    · exact Or.inl rfl
    · exact Or.inr rfl

theorem createTaskStateEnd_ids (t : CreateTaskStateTask) (name : String) (id : TaskStateId)
    (h : n.registry.taskStateIds name = some id) :
    (n.createTaskStateEnd t).registry.taskStateIds name = some id := by
  rcases n.createTaskStateEnd_registry t with heq | heq <;> rw [heq]
  · exact h
  · exact TaskRegistry.createTaskState_ids h

theorem createTaskStateEnd_nodeId (t : CreateTaskStateTask) :
    (n.createTaskStateEnd t).registry.nodeId = n.registry.nodeId := by
  rcases n.createTaskStateEnd_registry t with heq | heq <;> rw [heq]
  exact TaskRegistry.createTaskState_nodeId ..

theorem createTaskState_nodeId (t : CreateTaskStateTask) :
    (n.createTaskState t).1.registry.nodeId = n.registry.nodeId := by
  rcases n.createTaskState_registry t with heq | heq <;> rw [heq]
  exact n.createTaskStateEnd_nodeId t

theorem bootTaskState_nodeId (name : String) (id : TaskStateId) :
    (n.bootTaskState name id).registry.nodeId = n.registry.nodeId := TaskRegistry.createTaskState_nodeId ..

theorem bootLibs_nodeId (cfg : Config) (k : NodeId) : (bootLibs cfg k).registry.nodeId = k := by
  show (bootTaskState _ _ _).registry.nodeId = k
  iterate 4 erw [bootTaskState_nodeId]
  rfl

theorem serverInit_nodeId (cfg : Config) (k : NodeId) : (serverInit cfg k).registry.nodeId = k :=
  (createTaskState_nodeId _ _).trans (bootLibs_nodeId cfg k)

variable {n}

theorem getOrCreateTaskStateId_old {name : String} {id : TaskStateId} (h : n.registry.taskStateIds name = some id) :
    n.getOrCreateTaskStateId name = (id, n) := by
  simp [getOrCreateTaskStateId, TaskRegistry.getOrCreateTaskStateId, h]

theorem getOrCreateTaskStateId_new {name : String} (h : n.registry.taskStateIds name = none) :
    n.getOrCreateTaskStateId name = (⟨n.registry.nodeId, n.unique⟩, { n with
      unique := n.unique + 1
      registry := { n.registry with
        taskStateIds := n.registry.emplaceId name ⟨n.registry.nodeId, n.unique⟩ } }) := by
  simp [getOrCreateTaskStateId, TaskRegistry.getOrCreateTaskStateId, h]

end Node

/-- A registry that uses the id that `M` gives to a name; `M` stands for the names that node 1 has allocated
an id for. -/
structure RegistryInv (M : String → Option TaskStateId) (r : TaskRegistry) : Prop where
  states : ∀ id state, r.taskStates id = some state → state.id = id ∧ id.isNull = false
  names : ∀ id state, r.taskStates id = some state → state.name ∉ bootNames → M state.name = some id
  ids : ∀ name id, r.taskStateIds name = some id → id.isNull = false ∧ (name ∉ bootNames → M name = some id)
  created : ∀ state ∈ r.created, r.taskStates state.id = some state
  once : (r.created.map (·.id)).Nodup

namespace RegistryInv

variable {M M' : String → Option TaskStateId} {r : TaskRegistry}

theorem init (k : NodeId) (libs : List String) : RegistryInv M (TaskRegistry.init k libs) := by
  constructor <;> simp [TaskRegistry.init]

theorem mono (h : RegistryInv M r) (hM : ∀ name id, M name = some id → M' name = some id) : RegistryInv M' r where
  states := h.states
  names id state hs hn := hM _ _ (h.names id state hs hn)
  ids name id hi := ⟨(h.ids name id hi).1, fun hn => hM _ _ ((h.ids name id hi).2 hn)⟩
  created := h.created
  once := h.once

theorem libs (h : RegistryInv M r) (l : List String) : RegistryInv M { r with libs := l } :=
  ⟨h.states, h.names, h.ids, h.created, h.once⟩

theorem emplaceId (h : RegistryInv M r) {name : String} {id : TaskStateId} (hid : id.isNull = false)
    (hM : name ∉ bootNames → M name = some id) : RegistryInv M { r with taskStateIds := r.emplaceId name id } := by
  refine ⟨h.states, h.names, ?_, h.created, h.once⟩
  intro name' id' hi
  obtain hold | ⟨rfl, rfl, -⟩ := TaskRegistry.of_emplaceId hi
  · exact h.ids name' id' hold
  · exact ⟨hid, hM⟩

theorem createTaskState (h : RegistryInv M r) (libName : String) {name : String} {id : TaskStateId}
    (info : Option (List PriorityInfo)) (hM : name ∉ bootNames → M name = some id) :
    RegistryInv M (r.createTaskState libName name id info).2 := by
  by_cases hnew : r.Instantiates libName id
  · rw [TaskRegistry.createTaskState_new hnew]
    obtain ⟨hid, -, hnone⟩ := hnew
    have hids := h.emplaceId hid hM
    have hfresh : id ∉ r.created.map (·.id) := by
      intro hmem
      obtain ⟨state, hstate, rfl⟩ := List.mem_map.mp hmem
      rw [h.created state hstate] at hnone
      cases hnone
    refine ⟨?_, ?_, hids.ids, ?_, List.nodup_cons.mpr ⟨hfresh, h.once⟩⟩
    · intro id' state hs
      dsimp only at hs
      by_cases hi : id' = id
      · subst hi
        rw [Function.update_self, Option.some.injEq] at hs
        exact ⟨by rw [← hs], hid⟩
      · rw [Function.update_of_ne hi] at hs
        exact h.states id' state hs
    · intro id' state hs hn
      dsimp only at hs
      by_cases hi : id' = id
      · subst hi
        rw [Function.update_self, Option.some.injEq] at hs
        subst hs
        exact hM hn
      · rw [Function.update_of_ne hi] at hs
        exact h.names id' state hs hn
    · intro state hmem
      rcases List.mem_cons.mp hmem with rfl | hold
      · exact Function.update_self ..
      · have hne : state.id ≠ id := fun he => hfresh (he ▸ List.mem_map_of_mem hold)
        show Function.update r.taskStates id _ state.id = some state
        rw [Function.update_of_ne hne]
        exact h.created state hold
  · rw [TaskRegistry.createTaskState_old hnew]
    exact h

theorem createTaskStateEnd {n : Node} (h : RegistryInv M n.registry) (t : CreateTaskStateTask)
    (hM : t.stateName ∉ bootNames → M t.stateName = some t.id) :
    RegistryInv M (n.createTaskStateEnd t).registry := by
  rcases n.createTaskStateEnd_registry t with heq | heq <;> rw [heq]
  · exact h
  · exact h.createTaskState _ _ hM

theorem bootTaskState {n : Node} (h : RegistryInv M n.registry) (name : String) (id : TaskStateId)
    (hname : name ∈ bootNames) : RegistryInv M (n.makeTaskStateId.2.bootTaskState name id).registry :=
  (h.libs _).createTaskState name none (absurd hname)

theorem handler {n : Node} (h : RegistryInv M n.registry) (t : CreateTaskStateTask)
    (hM : t.stateName ∉ bootNames → M t.stateName = some t.id) :
    RegistryInv M (n.createTaskState t).1.registry := by
  rcases n.createTaskState_registry t with heq | heq <;> rw [heq]
  · exact h
  · exact h.createTaskStateEnd t hM

theorem bootLibs (cfg : Config) (k : NodeId) : RegistryInv M (Node.bootLibs cfg k).registry := by
  have admin := (init (M := M) k cfg.taskLibs).bootTaskState (n := Node.init cfg k) "hermes_run_admin" adminQueue
    (by decide)
  have proc := admin.bootTaskState "proc_queue" processQueue (by decide)
  exact (proc.bootTaskState "worch_queue_round_robin" _ (by decide)).bootTaskState "worch_proc_round_robin" _
    (by decide)

theorem serverInit (cfg : Config) (k : NodeId) : RegistryInv M (Node.serverInit cfg k).registry := by
  have hlibs := (bootLibs (M := M) cfg k).libs ("remote_queue" :: (Node.bootLibs cfg k).registry.libs)
  unfold Node.serverInit
  dsimp only
  apply handler
  · exact hlibs
  · exact absurd (show "remote_queue" ∈ bootNames by decide)

end RegistryInv

def State.ids (s : State) : String → Option TaskStateId := (s.nodes 1).registry.taskStateIds

def DomainOk (d : DomainId) : Prop := d = DomainId.getLocal ∨ d = DomainId.getGlobal ∨ ∃ j, d = DomainId.getNode j

def Known (s : State) (name : String) (id : TaskStateId) : Prop := name ∉ bootNames → s.ids name = some id

def PhaseOk (s : State) (t : CreateTaskStateTask) : Phase → Prop
  | .queued => t.id.isNull = true ∧ DomainOk t.domainId
  | .waiting => True
  | .answered id => Known s t.stateName id
  | .push saved todo copy => saved.stateName = t.stateName ∧ saved.id.isNull = true ∧
    (todo = [] → Known s t.stateName t.id) ∧
    ∀ c, copy = some c → ∃ y, s.tasks c = some y ∧ y.task.stateName = t.stateName
  | .complete => Known s t.stateName t.id

structure Inv (cfg : Config) (s : State) : Prop where
  nodeId : (s.nodes 1).registry.nodeId = 1
  registry : ∀ k, cfg.isHost k → RegistryInv s.ids (s.nodes k).registry
  fresh : ∀ p, s.next ≤ p → s.tasks p = none
  tasks : ∀ p x, s.tasks p = some x → cfg.isHost x.node ∧ PhaseOk s x.task x.phase

structure Grows (s t : State) : Prop where
  ids : ∀ name id, s.ids name = some id → t.ids name = some id
  tasks : ∀ p x, s.tasks p = some x → ∃ y, t.tasks p = some y ∧ y.task.stateName = x.task.stateName

theorem Known.mono {s t : State} (hg : Grows s t) {name : String} {id : TaskStateId} (h : Known s name id) :
    Known t name id := fun hn => hg.ids _ _ (h hn)

theorem PhaseOk.mono {s t : State} (hg : Grows s t) {x : CreateTaskStateTask} {phase : Phase}
    (h : PhaseOk s x phase) : PhaseOk t x phase := by
  cases phase with
  | queued => exact h
  | waiting => exact h
  | answered id => exact Known.mono hg h
  | push saved todo copy =>
    obtain ⟨hname, hnull, hdone, hcopy⟩ := h
    refine ⟨hname, hnull, fun ht => (hdone ht).mono hg, ?_⟩
    intro c hc
    obtain ⟨y, hy, hyn⟩ := hcopy c hc
    obtain ⟨z, hz, hzn⟩ := hg.tasks c y hy
    exact ⟨z, hz, hzn.trans hyn⟩
  | complete => exact Known.mono hg h

namespace Inv

variable {s : State} {k : NodeId} {p : ℕ}

theorem lt_next (h : Inv cfg s) {x : Request} (hp : s.tasks p = some x) : p < s.next := by
  by_contra hlt
  rw [h.fresh p (by omega)] at hp
  cases hp

theorem ids_setNode {n : Node}
    (hgrow : ∀ name id, (s.nodes k).registry.taskStateIds name = some id → n.registry.taskStateIds name = some id)
    (name : String) (id : TaskStateId) (hi : s.ids name = some id) : (s.setNode k n).ids name = some id := by
  show (Function.update s.nodes k n 1).registry.taskStateIds name = some id
  by_cases hk : 1 = k
  · subst hk
    rw [Function.update_self]
    exact hgrow name id hi
  · rw [Function.update_of_ne hk]
    exact hi

theorem setNode (h : Inv cfg s) {n : Node} (hid : n.registry.nodeId = (s.nodes k).registry.nodeId)
    (hgrow : ∀ name id, (s.nodes k).registry.taskStateIds name = some id → n.registry.taskStateIds name = some id)
    (hreg : RegistryInv (s.setNode k n).ids n.registry) : Inv cfg (s.setNode k n) := by
  have hg : Grows s (s.setNode k n) := ⟨ids_setNode hgrow, fun p x hp => ⟨x, hp, rfl⟩⟩
  refine ⟨?_, ?_, h.fresh, fun p x hp => ⟨(h.tasks p x hp).1, (h.tasks p x hp).2.mono hg⟩⟩
  · show (Function.update s.nodes k n 1).registry.nodeId = 1
    by_cases hk : 1 = k
    · subst hk
      rw [Function.update_self, hid]
      exact h.nodeId
    · rw [Function.update_of_ne hk]
      exact h.nodeId
  · intro j hj
    show RegistryInv _ (Function.update s.nodes k n j).registry
    by_cases hjk : j = k
    · subst hjk
      rw [Function.update_self]
      exact hreg
    · rw [Function.update_of_ne hjk]
      exact (h.registry j hj).mono hg.ids

theorem setTask (h : Inv cfg s) {x y : Request} (hp : s.tasks p = some y)
    (hname : x.task.stateName = y.task.stateName) (hnode : x.node = y.node) (hx : PhaseOk s x.task x.phase) :
    Inv cfg (s.setTask p x) := by
  have hg : Grows s (s.setTask p x) := by
    refine ⟨fun _ _ hi => hi, ?_⟩
    intro q z hq
    show ∃ y', Function.update s.tasks p (some x) q = some y' ∧ _
    by_cases hqp : q = p
    · subst hqp
      rw [hp, Option.some.injEq] at hq
      rw [Function.update_self]
      exact ⟨x, rfl, hq ▸ hname⟩
    · rw [Function.update_of_ne hqp]
      exact ⟨z, hq, rfl⟩
  refine ⟨h.nodeId, h.registry, ?_, ?_⟩
  · intro q hq
    show Function.update s.tasks p (some x) q = none
    rw [Function.update_of_ne]
    · exact h.fresh q hq
    · rintro rfl
      exact absurd (h.lt_next hp) (Nat.not_lt.mpr hq)
  · intro q z hq
    change Function.update s.tasks p (some x) q = some z at hq
    by_cases hqp : q = p
    · subst hqp
      rw [Function.update_self, Option.some.injEq] at hq
      subst hq
      exact ⟨hnode ▸ (h.tasks q y hp).1, hx.mono hg⟩
    · rw [Function.update_of_ne hqp] at hq
      exact ⟨(h.tasks q z hq).1, (h.tasks q z hq).2.mono hg⟩

theorem newTask (h : Inv cfg s) {x : Request} (hx : cfg.isHost x.node ∧ PhaseOk s x.task x.phase) :
    Inv cfg (s.newTask x) := by
  have hg : Grows s (s.newTask x) := by
    refine ⟨fun _ _ hi => hi, ?_⟩
    intro q z hq
    refine ⟨z, ?_, rfl⟩
    show Function.update s.tasks s.next (some x) q = some z
    rw [Function.update_of_ne (Nat.ne_of_lt (h.lt_next hq))]
    exact hq
  refine ⟨h.nodeId, h.registry, ?_, ?_⟩
  · intro q hq
    change s.next + 1 ≤ q at hq
    show Function.update s.tasks s.next (some x) q = none
    rw [Function.update_of_ne (by omega)]
    exact h.fresh q (by omega)
  · intro q z hq
    change Function.update s.tasks s.next (some x) q = some z at hq
    by_cases hqn : q = s.next
    · subst hqn
      rw [Function.update_self, Option.some.injEq] at hq
      subst hq
      exact ⟨hx.1, hx.2.mono hg⟩
    · rw [Function.update_of_ne hqn] at hq
      exact ⟨(h.tasks q z hq).1, (h.tasks q z hq).2.mono hg⟩

theorem setNode_libs (h : Inv cfg s) (hk : cfg.isHost k) {n : Node} {libs : List String}
    (hn : n.registry = { (s.nodes k).registry with libs := libs }) : Inv cfg (s.setNode k n) := by
  have hgrow : ∀ name id, (s.nodes k).registry.taskStateIds name = some id →
      n.registry.taskStateIds name = some id := by
    intro name id hi
    rw [hn]
    exact hi
  refine h.setNode (by rw [hn]) hgrow ?_
  rw [hn]
  exact ((h.registry k hk).libs libs).mono (ids_setNode hgrow)

theorem setNode_same (h : Inv cfg s) (hk : cfg.isHost k) {n : Node} (hn : n.registry = (s.nodes k).registry) :
    Inv cfg (s.setNode k n) := h.setNode_libs hk hn

theorem known_getTaskState (h : Inv cfg s) (hk : cfg.isHost k) {name : String} {id : TaskStateId}
    {state : TaskState} (hid : id.isNull = true)
    (hs : (s.nodes k).registry.getTaskState name id = some state) : Known s name state.id := by
  have hreg := h.registry k hk
  unfold TaskRegistry.getTaskState TaskRegistry.getTaskStateId at hs
  obtain ⟨heq, hnull⟩ := hreg.states _ _ hs
  cases hi : (s.nodes k).registry.taskStateIds name with
  | none =>
    rw [hi] at hnull
    simp [UniqueId.isNull, UniqueId.getNull] at hnull hid
    exact absurd hid hnull
  | some i =>
    obtain ⟨hi', hM⟩ := hreg.ids name i hi
    rw [hi, Option.getD_some, if_neg (by simp [hi'])] at heq
    rw [heq]
    exact hM

theorem create (h : Inv cfg s) (hk : cfg.isHost k) {y : Request} (hp : s.tasks p = some y) (hnode : k = y.node)
    {t : CreateTaskStateTask} (hname : t.stateName = y.task.stateName) (hid : Known s t.stateName t.id) :
    Inv cfg (s.create p k t) := by
  have hreg := (h.registry k hk).createTaskStateEnd t hid
  have hgrow := fun name id => (s.nodes k).createTaskStateEnd_ids t name id
  have hinv := h.setNode ((s.nodes k).createTaskStateEnd_nodeId t) hgrow (hreg.mono (ids_setNode hgrow))
  unfold State.create
  dsimp only
  split_ifs
  · exact hinv
  · refine hinv.setTask hp hname hnode ?_
    exact fun hn => ids_setNode hgrow _ _ (hid hn)

theorem getOrCreate (h : Inv cfg s) (hhost : cfg.isHost 1) {name : String} {n : Node}
    (hn : n.registry = ((s.nodes 1).getOrCreateTaskStateId name).2.registry) :
    Inv cfg (s.setNode 1 n) ∧ Known (s.setNode 1 n) name ((s.nodes 1).getOrCreateTaskStateId name).1 := by
  have hids : (s.setNode 1 n).ids = n.registry.taskStateIds := by
    show (Function.update s.nodes 1 n 1).registry.taskStateIds = _
    rw [Function.update_self]
  cases hname : (s.nodes 1).registry.taskStateIds name with
  | some id =>
    rw [Node.getOrCreateTaskStateId_old hname] at hn ⊢
    refine ⟨h.setNode_same hhost hn, fun _ => ?_⟩
    rw [hids, hn]
    exact hname
  | none =>
    rw [Node.getOrCreateTaskStateId_new hname] at hn ⊢
    have hknown : (s.setNode 1 n).ids name = some ⟨(s.nodes 1).registry.nodeId, (s.nodes 1).unique⟩ := by
      rw [hids, hn]
      exact TaskRegistry.emplaceId_self hname
    have hgrow : ∀ name' id', (s.nodes 1).registry.taskStateIds name' = some id' →
        n.registry.taskStateIds name' = some id' := by
      intro name' id' hi
      rw [hn]
      exact TaskRegistry.emplaceId_some hi
    refine ⟨h.setNode (by rw [hn]) hgrow ?_, fun _ => hknown⟩
    rw [hn]
    refine ((h.registry 1 hhost).mono (ids_setNode hgrow)).emplaceId ?_ fun _ => hknown
    rw [h.nodeId]
    rfl

end Inv

theorem targets_ne_nil {t : CreateTaskStateTask} {k : NodeId} (hd : DomainOk t.domainId) (hk : cfg.isHost k)
    (hr : t.domainId.isRemote cfg.numHosts k = true) : targets cfg t ≠ [] := by
  unfold targets
  rcases hd with hd | hd | ⟨j, hd⟩ <;> rw [hd] at hr ⊢
  · rw [DomainId.isRemote_getLocal] at hr
    cases hr
  · have hn : 1 ≤ cfg.numHosts := hk.1.trans hk.2
    rw [resolveDomainId_getGlobal]
    simp only [ne_eq, List.map_eq_nil_iff, List.range_eq_nil]
    omega
  · rw [resolveDomainId_getNode]
    exact List.cons_ne_nil _ _

theorem idNode_eq {k : NodeId} (hk : cfg.isHost k) : idNode cfg k = 1 := by
  unfold idNode
  split_ifs with hr
  · rfl
  · rw [DomainId.isRemote_getNode] at hr
    by_cases hn : cfg.numHosts = 1
    · exact Nat.le_antisymm (hk.2.trans_eq hn) hk.1
    · by_contra hne
      exact hr ⟨hn, Ne.symm hne⟩

def Label.isNullRequest : Label → Prop
  | .submit _ t => t.id = UniqueId.getNull ∧ DomainOk t.domainId
  | _ => True

theorem setTask_newTask {s : State} {p : ℕ} (hp : p < s.next) (x y : Request) :
    (s.setTask p x).newTask y = (s.newTask y).setTask p x := by
  simp only [State.setTask, State.newTask]
  rw [Function.update_comm (Nat.ne_of_lt hp)]

theorem step_inv {s t : State} {l : Label} (h : Inv cfg s) (hl : l.isNullRequest) (hst : step cfg s l = some t) :
    Inv cfg t := by
  have hcase := step_cases hst
  cases hcase with
  | makeTaskNodeId k hk => exact h.setNode_same hk.host rfl
  | makeTaskStateId k hk => exact h.setNode_same hk.host rfl
  | registerTaskLib k libName hk => exact h.setNode_libs hk.host rfl
  | destroyTaskLib k libName hk => exact h.setNode_libs hk.host rfl
  | getQueue k j p x hp hk => exact h.setNode_same hk.host rfl
  | submit k x hk =>
    have hnode := h.setNode_same hk.host ((s.nodes k).getQueue_registry adminQueue)
    refine hnode.newTask ⟨hk.host, ?_⟩
    refine ⟨?_, hl.2⟩
    rw [hl.1]
    rfl
  | disperse p k x hp hk hr =>
    obtain ⟨hnull, hdomain⟩ := (h.tasks p _ hp).2
    have hnode := h.setNode_same hk.host ((s.nodes k).getQueue_registry (s.nodes k).remoteQueue)
    refine hnode.setTask hp rfl rfl ⟨rfl, hnull, ?_, ?_⟩
    · exact fun hnil => absurd hnil (targets_ne_nil hdomain hk.host hr)
    · intro c hc
      cases hc
  | found p k x state hp hk hr hstate =>
    obtain ⟨hnull, -⟩ := (h.tasks p _ hp).2
    exact h.setTask hp rfl rfl (h.known_getTaskState hk.host hnull hstate)
  | ask p k x hp hk hr hstate hid =>
    have hnode := h.setNode_same hk.host (((s.nodes k).getQueue adminQueue).askId_registry cfg k)
    exact hnode.setTask hp rfl rfl trivial
  | create p k x hp hk hr hstate hid =>
    obtain ⟨hnull, -⟩ := (h.tasks p _ hp).2
    rw [hnull] at hid
    cases hid
  | getOrCreate p k d x hp hd hk =>
    rw [idNode_eq (h.tasks p _ hp).1] at hd
    subst hd
    have hreg : (let n := ((s.nodes 1).getOrCreateTaskStateId x.stateName).2
        if 1 = k then n else n.getQueue adminQueue).registry =
        ((s.nodes 1).getOrCreateTaskStateId x.stateName).2.registry := by
      dsimp only
      split_ifs <;> rfl
    obtain ⟨hinv, hknown⟩ := h.getOrCreate hk.host hreg
    exact hinv.setTask hp rfl rfl hknown
  | resume p k x id hp hk =>
    exact h.create hk.host hp rfl rfl (h.tasks p _ hp).2
  | rpcExec p k x saved d todo hp hk =>
    obtain ⟨hname, hnull, hdone, -⟩ := (h.tasks p _ hp).2
    have hlt := h.lt_next hp
    have hnode := h.setNode_same hk.host ((s.nodes d).getQueue_registry adminQueue)
    have hnew := hnode.newTask (x := ⟨d, { saved with domainId := DomainId.getNode d }, .queued⟩)
      ⟨hk.host, hnull, Or.inr (Or.inr ⟨d, rfl⟩)⟩
    rw [setTask_newTask (s := s.setNode d _) hlt]
    refine hnew.setTask (y := ⟨k, x, .push saved (d :: todo) none⟩) ?_ rfl rfl ⟨hname, hnull, ?_, ?_⟩
    · show Function.update s.tasks s.next _ p = _
      rw [Function.update_of_ne (Nat.ne_of_lt hlt)]
      exact hp
    · intro hnil
      cases hnil
    · intro c hc
      rw [← Option.some.inj hc]
      exact ⟨_, Function.update_self .., hname⟩
  | output p k x saved d todo c j u hp hc hk =>
    obtain ⟨hname, hnull, -, hcopy⟩ := (h.tasks p _ hp).2
    obtain ⟨y, hy, hyname⟩ := hcopy c rfl
    rw [hc, Option.some.injEq] at hy
    subst hy
    have hknown : Known s u.stateName u.id := (h.tasks c _ hc).2
    have hsame : u.stateName = x.stateName := hyname
    refine h.setTask hp rfl rfl ⟨hname, hnull, ?_, ?_⟩
    · intro _
      rw [hsame] at hknown
      exact hknown
    · intro c hc
      cases hc
  | finishPush p k x saved hp hk =>
    obtain ⟨-, -, hdone, -⟩ := (h.tasks p _ hp).2
    exact h.setTask hp rfl rfl (hdone rfl)

theorem boot_inv : Inv cfg (boot cfg) where
  nodeId := Node.serverInit_nodeId cfg 1
  registry k _ := RegistryInv.serverInit cfg k
  fresh _ _ := rfl
  tasks p x hp := by cases hp

structure Agreement (cfg : Config) (s : State) (name : String) : Prop where
  live : ∀ k id state, cfg.isHost k → (s.nodes k).registry.taskStates id = some state → state.name = name →
    state.id = id ∧ s.ids name = some id
  same : ∀ k k' id id' state state', cfg.isHost k → cfg.isHost k' →
    (s.nodes k).registry.taskStates id = some state → (s.nodes k').registry.taskStates id' = some state' →
    state.name = name → state'.name = name → id = id'
  once : ∀ k, cfg.isHost k → ((s.nodes k).registry.created.map (·.id)).Nodup
  returns : ∀ p x, s.tasks p = some x → x.task.stateName = name → x.phase = .complete → s.ids name = some x.task.id

theorem Inv.agreement {s : State} (h : Inv cfg s) {name : String} (hname : name ∉ bootNames) :
    Agreement cfg s name := by
  have hlive : ∀ k id state, cfg.isHost k → (s.nodes k).registry.taskStates id = some state →
      state.name = name → state.id = id ∧ s.ids name = some id := by
    rintro k id state hk hs rfl
    exact ⟨((h.registry k hk).states id state hs).1, (h.registry k hk).names id state hs hname⟩
  refine ⟨hlive, ?_, fun k hk => (h.registry k hk).once, ?_⟩
  · intro k k' id id' state state' hk hk' hs hs' hn hn'
    have h1 := (hlive k id state hk hs hn).2
    rw [(hlive k' id' state' hk' hs' hn').2] at h1
    exact (Option.some.inj h1).symm
  · intro p x hp hn hphase
    have hx := (h.tasks p x hp).2
    rw [hphase] at hx
    subst hn
    exact hx hname

theorem agreement_of_run (cfg : Config) (labels : List Label) (s : State)
    (hnull : ∀ l ∈ labels, l.isNullRequest) (hrun : run (step cfg) (boot cfg) labels = some s) (name : String)
    (hname : name ∉ bootNames) : Agreement cfg s name := by
  have hinv : Inv cfg s := by
    refine run_invariant (I := Inv cfg) (C := fun _ l _ => l.isNullRequest) ?_ boot_inv
      (along_of_forall _ hnull) hrun
    intro s l t hs hst hl
    exact step_inv hs hl hst
  exact hinv.agreement hname

def pairConfig : Config := ⟨2, 1024, 16, 256, []⟩

def ipcTest (domain : DomainId) : CreateTaskStateTask :=
  ⟨domain, "small_message", "ipc_test", UniqueId.getNull, [⟨1, 1, 256, 0⟩]⟩

def ipcRun : List Label :=
  [.registerTaskLib 1 "small_message", .registerTaskLib 2 "small_message", .makeTaskNodeId 2,
    .submit 2 (ipcTest DomainId.getGlobal), .makeTaskNodeId 1, .submit 1 (ipcTest DomainId.getLocal),
    .poll 0, .poll 1, .rpcExec 0, .poll 2, .getOrCreateTaskStateId 1, .getOrCreateTaskStateId 2, .resume 2,
    .resume 1, .output 0, .rpcExec 0, .poll 3, .getOrCreateTaskStateId 3, .resume 3, .output 0, .finishPush 0]

def Request.returned (x : Request) : Option TaskStateId :=
  match x.phase with
  | .complete => some x.task.id
  | _ => none

theorem agreement_ipcRun : ∃ s, run (step pairConfig) (boot pairConfig) ipcRun = some s ∧
    (s.tasks 0).bind Request.returned = some ⟨1, 9⟩ ∧ (s.tasks 1).bind Request.returned = some ⟨1, 9⟩ ∧
    "ipc_test" ∉ bootNames ∧ Agreement pairConfig s "ipc_test" := by
  have hsome : (run (step pairConfig) (boot pairConfig) ipcRun).any
      (fun s => (s.tasks 0).bind Request.returned = some ⟨1, 9⟩ ∧
        (s.tasks 1).bind Request.returned = some ⟨1, 9⟩) = true := by decide +kernel
  have hname : "ipc_test" ∉ bootNames := by decide
  have hnull : ∀ l ∈ ipcRun, l.isNullRequest := by
    simp [ipcRun, Label.isNullRequest, ipcTest, DomainOk]
  obtain ⟨s, hs, hids⟩ := (Option.any_eq_true _ _).mp hsome
  obtain ⟨hid₀, hid₁⟩ := of_decide_eq_true hids
  exact ⟨s, hs, hid₀, hid₁, hname, agreement_of_run pairConfig ipcRun s hnull hs "ipc_test" hname⟩

end HermesRun.Admin
