import HermesRun.Admin.Agreement

namespace HermesRun.Admin

open QueueManager Runs

variable {cfg : Config}

structure IndexSafe (cfg : Config) (s : State) : Prop where
  calls : ∀ k, cfg.isHost k → ∀ id ∈ (s.nodes k).queueCalls, id.unique < cfg.maxQueues
  running : ∀ k, cfg.isHost k → (s.nodes k).halted = false

def Label.hasNullId : Label → Bool
  | .submit _ t => t.id = UniqueId.getNull
  | _ => true

/-- A new name gets its id while the counter of the node that allocates it is below `max_queues_`. -/
def allocatesInRange (cfg : Config) (s : State) : Label → Bool
  | .getOrCreateTaskStateId p => match s.tasks p with
    | some x =>
      let n := s.nodes (idNode cfg x.node)
      (n.registry.taskStateIds x.task.stateName).isSome || n.unique < cfg.maxQueues
    | none => true
  | _ => true

structure IndexOk (max : ℕ) (n : Node) : Prop where
  size : n.queueMap.length = max
  running : n.halted = false
  calls : ∀ id ∈ n.queueCalls, id.unique < max
  ids : ∀ name id, n.registry.taskStateIds name = some id → id.unique < max
  states : ∀ id state, n.registry.taskStates id = some state → state.id.unique < max
  remote : n.remoteQueue.unique < max

namespace IndexOk

variable {max : ℕ} {n : Node}

theorem getQueue (h : IndexOk max n) {id : QueueId} (hid : id.unique < max) : IndexOk max (n.getQueue id) := by
  refine ⟨h.size, ?_, List.forall_mem_cons.mpr ⟨hid, h.calls⟩, h.ids, h.states, h.remote⟩
  have hlt : id.unique < n.queueMap.length := by
    rw [h.size]
    exact hid
  simp [Node.getQueue, QueueManager.getQueue, h.running, hlt]

theorem createQueue (h : IndexOk max n) {id : QueueId} (hid : id.unique < max) (info : List PriorityInfo) :
    IndexOk max (n.createQueue id info) := by
  obtain ⟨m, hm, hlen⟩ := createQueue_of_lt info (show id.unique < n.queueMap.length by rw [h.size]; exact hid)
  unfold Node.createQueue
  rw [hm]
  exact ⟨hlen.trans h.size, h.running, List.forall_mem_cons.mpr ⟨hid, h.calls⟩, h.ids, h.states, h.remote⟩

theorem emplaceId (h : IndexOk max n) (name : String) {id : TaskStateId} (hid : id.unique < max) :
    ∀ name' id', n.registry.emplaceId name id name' = some id' → id'.unique < max := by
  intro name' id' hi
  obtain hold | ⟨-, rfl, -⟩ := TaskRegistry.of_emplaceId hi
  · exact h.ids name' id' hold
  · exact hid

theorem createTaskState (h : IndexOk max n) (libName name : String) {id : TaskStateId}
    (info : Option (List PriorityInfo)) (hid : id.unique < max) :
    IndexOk max { n with registry := (n.registry.createTaskState libName name id info).2 } := by
  by_cases hnew : n.registry.Instantiates libName id
  · rw [TaskRegistry.createTaskState_new hnew]
    refine ⟨h.size, h.running, h.calls, h.emplaceId name hid, ?_, h.remote⟩
    intro id' state hs
    change Function.update n.registry.taskStates id _ id' = some state at hs
    by_cases hi : id' = id
    · subst hi
      rw [Function.update_self, Option.some.injEq] at hs
      rw [← hs]
      exact hid
    · rw [Function.update_of_ne hi] at hs
      exact h.states id' state hs
  · rw [TaskRegistry.createTaskState_old hnew]
    exact h

theorem createTaskStateEnd (h : IndexOk max n) (t : CreateTaskStateTask) (hid : t.id.unique < max) :
    IndexOk max (n.createTaskStateEnd t) := by
  unfold Node.createTaskStateEnd
  dsimp only
  split_ifs
  · exact h
  · exact h
  · exact h.createQueue hid _
  · exact (h.createQueue hid _).createTaskState _ _ _ hid

theorem getOrCreateTaskStateId (h : IndexOk max n) (name : String)
    (hnew : n.registry.taskStateIds name = none → n.unique < max) :
    IndexOk max (n.getOrCreateTaskStateId name).2 ∧ (n.getOrCreateTaskStateId name).1.unique < max := by
  cases hname : n.registry.taskStateIds name with
  | some id =>
    rw [Node.getOrCreateTaskStateId_old hname]
    exact ⟨h, h.ids name id hname⟩
  | none =>
    rw [Node.getOrCreateTaskStateId_new hname]
    exact ⟨⟨h.size, h.running, h.calls, h.emplaceId name (hnew hname), h.states, h.remote⟩, hnew hname⟩

theorem getTaskState (h : IndexOk max n) {name : String} {id : TaskStateId} {state : TaskState}
    (hs : n.registry.getTaskState name id = some state) : state.id.unique < max := h.states _ state hs

theorem init (hmax : 1 < cfg.maxQueues) (k : NodeId) : IndexOk cfg.maxQueues (Node.init cfg k) := by
  obtain ⟨m, hm, hlen⟩ := serverInit_of_lt cfg.maxLanes cfg.queueDepth hmax
  simp only [Node.init, hm, Option.getD_some, Option.isNone_some]
  refine ⟨hlen, rfl, ?_, ?_, ?_, Nat.zero_lt_of_lt hmax⟩
  · intro id hid
    rcases List.mem_pair.mp hid with rfl | rfl
    · exact hmax
    · exact Nat.zero_lt_of_lt hmax
  · intro name id hi
    cases hi
  · intro id state hs
    cases hs

theorem bootTaskState (h : IndexOk max n) (name : String) (id : TaskStateId) (hid : id.unique < max) :
    IndexOk max (n.makeTaskStateId.2.bootTaskState name id) := by
  have hlib : IndexOk max (n.makeTaskStateId.2.registerTaskLib name) :=
    ⟨h.size, h.running, h.calls, h.ids, h.states, h.remote⟩
  exact hlib.createTaskState name name none hid

theorem makeTaskNodeId (h : IndexOk max n) : IndexOk max n.makeTaskNodeId :=
  ⟨h.size, h.running, h.calls, h.ids, h.states, h.remote⟩

theorem bootLibs (hmax : 6 < cfg.maxQueues) (k : NodeId) : IndexOk cfg.maxQueues (Node.bootLibs cfg k) := by
  have hlt : ∀ i ≤ 6, i < cfg.maxQueues := fun i hi => Nat.lt_of_le_of_lt hi hmax
  have hadmin : adminQueue.unique < cfg.maxQueues := hlt 0 (by decide)
  have admin := (init (hlt 1 (by decide)) k).bootTaskState "hermes_run_admin" adminQueue hadmin
  have proc := admin.bootTaskState "proc_queue" processQueue (hlt 1 (by decide))
  unfold Node.bootLibs
  apply getQueue _ hadmin
  apply makeTaskNodeId
  apply getQueue _ hadmin
  apply makeTaskNodeId
  apply bootTaskState
  · exact proc.bootTaskState "worch_queue_round_robin" _ (hlt 2 (by decide))
  · exact hlt 3 (by decide)

theorem handler (h : IndexOk max n) (t : CreateTaskStateTask) (hadmin : adminQueue.unique < max)
    (hid : t.id.unique < max) : IndexOk max (n.createTaskState t).1 := by
  unfold Node.createTaskState
  split
  · exact h
  · split_ifs
    · exact h.getQueue hadmin
    · exact h.createTaskStateEnd t hid

theorem serverInit (hmax : 6 < cfg.maxQueues) (k : NodeId) : IndexOk cfg.maxQueues (Node.serverInit cfg k) := by
  have hadmin : adminQueue.unique < cfg.maxQueues := Nat.zero_lt_of_lt hmax
  have hlibs := bootLibs hmax k
  -- the ids below 6 went to the states and requests of the boot
  have hid : (Node.bootLibs cfg k).unique < cfg.maxQueues := by
    rw [show (Node.bootLibs cfg k).unique = 6 from rfl]
    exact hmax
  unfold Node.serverInit
  generalize Node.bootLibs cfg k = n at hlibs hid ⊢
  have hn : IndexOk cfg.maxQueues (n.registerTaskLib "remote_queue").makeTaskStateId.2 :=
    ⟨hlibs.size, hlibs.running, hlibs.calls, hlibs.ids, hlibs.states, hlibs.remote⟩
  have hremote := (hn.makeTaskNodeId.getQueue hadmin).handler
    (Node.remoteQueueTask cfg (n.registerTaskLib "remote_queue").makeTaskStateId.1) hadmin hid
  exact ⟨hremote.size, hremote.running, hremote.calls, hremote.ids, hremote.states, hid⟩

end IndexOk

def Phase.IdsOk (max : ℕ) : Phase → Prop
  | .answered id => id.unique < max
  | .push saved _ _ => saved.id.unique < max
  | _ => True

structure IndexInv (cfg : Config) (s : State) : Prop where
  nodes : ∀ k, cfg.isHost k → IndexOk cfg.maxQueues (s.nodes k)
  tasks : ∀ p x, s.tasks p = some x → x.task.id.unique < cfg.maxQueues ∧ x.phase.IdsOk cfg.maxQueues

namespace IndexInv

variable {s : State} {k : NodeId} {n : Node}

theorem setNode (h : IndexInv cfg s) (hn : IndexOk cfg.maxQueues n) : IndexInv cfg (s.setNode k n) := by
  refine ⟨?_, h.tasks⟩
  intro j hj
  show IndexOk _ (Function.update s.nodes k n j)
  by_cases hjk : j = k
  · subst hjk
    rw [Function.update_self]
    exact hn
  · rw [Function.update_of_ne hjk]
    exact h.nodes j hj

theorem setTask (h : IndexInv cfg s) (p : ℕ) {x : Request}
    (hx : x.task.id.unique < cfg.maxQueues ∧ x.phase.IdsOk cfg.maxQueues) : IndexInv cfg (s.setTask p x) := by
  refine ⟨h.nodes, ?_⟩
  intro q y hq
  change Function.update s.tasks p (some x) q = some y at hq
  by_cases hqp : q = p
  · subst hqp
    rw [Function.update_self, Option.some.injEq] at hq
    exact hq ▸ hx
  · rw [Function.update_of_ne hqp] at hq
    exact h.tasks q y hq

theorem newTask (h : IndexInv cfg s) {x : Request}
    (hx : x.task.id.unique < cfg.maxQueues ∧ x.phase.IdsOk cfg.maxQueues) : IndexInv cfg (s.newTask x) :=
  ⟨h.nodes, (h.setTask s.next hx).tasks⟩

theorem create (h : IndexInv cfg s) (hk : cfg.isHost k) (p : ℕ) (t : CreateTaskStateTask)
    (hid : t.id.unique < cfg.maxQueues) : IndexInv cfg (s.create p k t) := by
  have hnode := h.setNode (k := k) ((h.nodes k hk).createTaskStateEnd t hid)
  unfold State.create
  dsimp only
  split_ifs
  · exact hnode
  · exact hnode.setTask p ⟨hid, trivial⟩

end IndexInv

theorem step_indexInv {s t : State} {l : Label} (hmax : 0 < cfg.maxQueues) (h : IndexInv cfg s)
    (hl : l.hasNullId = true) (hok : allocatesInRange cfg s l = true) (hst : step cfg s l = some t) : IndexInv cfg t := by
  have hadmin : adminQueue.unique < cfg.maxQueues := hmax
  have hcase := step_cases hst
  cases hcase with
  | makeTaskNodeId k hk => exact h.setNode (h.nodes k hk.host).makeTaskNodeId
  | makeTaskStateId k hk => exact h.setNode (h.nodes k hk.host).makeTaskNodeId
  | registerTaskLib k libName hk =>
    obtain ⟨h1, h2, h3, h4, h5, h6⟩ := h.nodes k hk.host
    exact h.setNode ⟨h1, h2, h3, h4, h5, h6⟩
  | destroyTaskLib k libName hk =>
    obtain ⟨h1, h2, h3, h4, h5, h6⟩ := h.nodes k hk.host
    exact h.setNode ⟨h1, h2, h3, h4, h5, h6⟩
  | submit k x hk =>
    refine (h.setNode ((h.nodes k hk.host).getQueue hadmin)).newTask ⟨?_, trivial⟩
    rw [show x.id = UniqueId.getNull from of_decide_eq_true hl]
    exact hmax
  | disperse p k x hp hk hr =>
    have hid := (h.tasks p _ hp).1
    have hnode := h.nodes k hk.host
    exact (h.setNode (hnode.getQueue hnode.remote)).setTask p ⟨hid, hid⟩
  | found p k x state hp hk hr hstate =>
    exact h.setTask p ⟨(h.nodes k hk.host).getTaskState hstate, trivial⟩
  | ask p k x hp hk hr hstate hid =>
    have hnode := (h.nodes k hk.host).getQueue hadmin
    refine (h.setNode ?_).setTask p ⟨(h.tasks p _ hp).1, trivial⟩
    unfold askId
    split_ifs
    · exact hnode.getQueue hnode.remote
    · exact hnode
  | create p k x hp hk hr hstate hid => exact h.create hk.host p x (h.tasks p _ hp).1
  | getOrCreate p k d x hp hd hk =>
    subst hd
    have hnew : (s.nodes (idNode cfg k)).registry.taskStateIds x.stateName = none →
        (s.nodes (idNode cfg k)).unique < cfg.maxQueues := by
      intro hnone
      simpa [allocatesInRange, hp, hnone] using hok
    obtain ⟨hnode, hid⟩ := (h.nodes _ hk.host).getOrCreateTaskStateId x.stateName hnew
    refine (h.setNode ?_).setTask p ⟨(h.tasks p _ hp).1, hid⟩
    dsimp only
    split_ifs
    · exact hnode
    · exact hnode.getQueue hadmin
  | resume p k x id hp hk => exact h.create hk.host p _ (h.tasks p _ hp).2
  | rpcExec p k x saved d todo hp hk =>
    have hnode := h.setNode (k := d) ((h.nodes d hk.host).getQueue hadmin)
    have hsaved : saved.id.unique < cfg.maxQueues := (h.tasks p _ hp).2
    refine IndexInv.newTask ?_ ⟨hsaved, trivial⟩
    exact hnode.setTask p ⟨(h.tasks p _ hp).1, hsaved⟩
  | output p k x saved d todo c j u hp hc hk =>
    exact h.setTask p ⟨(h.tasks c _ hc).1, (h.tasks p _ hp).2⟩
  | finishPush p k x saved hp hk => exact h.setTask p ⟨(h.tasks p _ hp).1, trivial⟩
  | getQueue k j p x hp hk => exact h.setNode ((h.nodes k hk.host).getQueue (h.tasks p _ hp).1)

theorem indexSafe_of_run (cfg : Config) (labels : List Label) (s : State) (hmax : 6 < cfg.maxQueues)
    (hnull : ∀ l ∈ labels, l.hasNullId = true)
    (halloc : Along (step cfg) (fun s l _ => allocatesInRange cfg s l = true) (boot cfg) labels)
    (hrun : run (step cfg) (boot cfg) labels = some s) : IndexSafe cfg s := by
  have hboot : IndexInv cfg (boot cfg) := ⟨fun k _ => IndexOk.serverInit hmax k, fun p x hp => by cases hp⟩
  have hinv : IndexInv cfg s := by
    refine run_invariant (I := IndexInv cfg) ?_ hboot ((along_of_forall _ hnull).and halloc) hrun
    intro s l t hs hst hl
    exact step_indexInv (Nat.zero_lt_of_lt hmax) hs hl.1 hl.2 hst
  exact ⟨fun k hk => (hinv.nodes k hk).calls, fun k hk => (hinv.nodes k hk).running⟩

theorem indexSafe_ipcRun : ∃ s, 6 < pairConfig.maxQueues ∧ (∀ l ∈ ipcRun, l.hasNullId = true) ∧
    Along (step pairConfig) (fun s l _ => allocatesInRange pairConfig s l = true) (boot pairConfig) ipcRun ∧
    run (step pairConfig) (boot pairConfig) ipcRun = some s ∧ IndexSafe pairConfig s := by
  have hmax : 6 < pairConfig.maxQueues := by decide
  have hnull : ∀ l ∈ ipcRun, l.hasNullId = true := by decide
  have hsome : (run (step pairConfig) (boot pairConfig) ipcRun).isSome = true := by decide +kernel
  have halloc : Along (step pairConfig) (fun s l _ => allocatesInRange pairConfig s l = true) (boot pairConfig) ipcRun := by
    decide +kernel
  obtain ⟨s, hs⟩ := Option.isSome_iff_exists.mp hsome
  exact ⟨s, hmax, hnull, halloc, hs, indexSafe_of_run pairConfig ipcRun s hmax hnull halloc hs⟩

def defaultConfig : Config := ⟨1, 1024, 16, 256, []⟩

def newState : List Label :=
  [.registerTaskLib 1 "small_message", .submit 1 (ipcTest DomainId.getLocal), .poll 0, .getOrCreateTaskStateId 0,
    .resume 0]

def exhaustingRun : List Label := List.replicate 1016 (.makeTaskNodeId 1) ++ newState

theorem indexSafe_exhaustingRun : ∃ s, (∀ l ∈ exhaustingRun, l.hasNullId = true) ∧
    run (step defaultConfig) (boot defaultConfig) exhaustingRun = some s ∧
    ⟨1, 1024⟩ ∈ (s.nodes 1).queueCalls ∧ ¬IndexSafe defaultConfig s := by
  have hsome : (run (step defaultConfig) (boot defaultConfig) exhaustingRun).any
      (fun s => ⟨1, 1024⟩ ∈ (s.nodes 1).queueCalls) = true := by decide +kernel
  have hnull : ∀ l ∈ exhaustingRun, l.hasNullId = true := by
    intro l hl
    rcases List.mem_append.mp hl with hl | hl
    · rw [List.eq_of_mem_replicate hl]
      rfl
    · exact (show ∀ l ∈ newState, l.hasNullId = true by decide) l hl
  obtain ⟨s, hs, hmem⟩ := (Option.any_eq_true _ _).mp hsome
  have hcall := of_decide_eq_true hmem
  refine ⟨s, hnull, hs, hcall, fun h => ?_⟩
  exact absurd (h.calls 1 (by decide) _ hcall) (by decide)

end HermesRun.Admin
