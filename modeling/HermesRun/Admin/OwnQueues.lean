import HermesRun.Admin.Agreement

namespace HermesRun.Admin

open QueueManager Runs

variable {cfg : Config}

def HasQueue (m : QueueMap) (id : QueueId) (info : List PriorityInfo) : Prop :=
  ∃ q, QueueManager.getQueue m id = some q ∧ q.id = id ∧ q.queueInfo = info

structure OwnQueues (cfg : Config) (s : State) : Prop where
  own : ∀ k id state info, cfg.isHost k → (s.nodes k).registry.taskStates id = some state →
    state.queueInfo = some info → HasQueue (s.nodes k).queueMap id info
  distinct : ∀ k id id' state state' info info', cfg.isHost k →
    (s.nodes k).registry.taskStates id = some state → (s.nodes k).registry.taskStates id' = some state' →
    state.queueInfo = some info → state'.queueInfo = some info' → id.unique = id'.unique → id = id'

def creating (cfg : Config) (s : State) : Label → Option (NodeId × CreateTaskStateTask)
  | .poll p => match s.tasks p with
    | some ⟨k, t, .queued⟩ =>
      if t.domainId.isRemote cfg.numHosts k || t.id.isNull ||
        ((s.nodes k).registry.getTaskState t.stateName t.id).isSome then none
      else some (k, t)
    | _ => none
  | .resume p => match s.tasks p with
    | some ⟨k, t, .answered id⟩ => some (k, { t with id := id })
    | _ => none
  | _ => none

/-- The slot that a new state's id selects is free, or holds the queue that an earlier, failed attempt to create
this very state has left. -/
def SlotFree (n : Node) (t : CreateTaskStateTask) : Prop :=
  n.registry.Instantiates t.libName t.id → ∀ q, QueueManager.getQueue n.queueMap t.id = some q →
    q.id.isNull = true ∨ q.id = t.id ∧ q.queueInfo = t.queueInfo

def SlotReady (cfg : Config) (s : State) (l : Label) : Prop :=
  ∀ k t, creating cfg s l = some (k, t) → SlotFree (s.nodes k) t

structure NodeOwn (n : Node) : Prop where
  live : ∀ id state, n.registry.taskStates id = some state → id.isNull = false
  own : ∀ id state info, n.registry.taskStates id = some state → state.queueInfo = some info →
    HasQueue n.queueMap id info

theorem HasQueue.createQueue {m m' : QueueMap} {id id' : QueueId} {info info' : List PriorityInfo}
    (hid : id.isNull = false) (h : HasQueue m id info) (hc : createQueue m id' info' = some m') :
    HasQueue m' id info := by
  obtain ⟨q, hq, rfl, hinfo⟩ := h
  exact ⟨q, createQueue_used hc hq hid, rfl, hinfo⟩

theorem createQueue_self {m m' : QueueMap} {id : QueueId} {info : List PriorityInfo} (hid : id.isNull = false)
    (hc : createQueue m id info = some m') : ∃ q, QueueManager.getQueue m id = some q ∧
      QueueManager.getQueue m' id = some (if q.id.isNull then MultiQueue.init id info else q) := by
  obtain ⟨q, hq, rfl⟩ := Option.map_eq_some_iff.mp hc
  refine ⟨q, hq, ?_⟩
  rw [hid, if_neg (by simp)]
  cases hnull : q.id.isNull with
  | true =>
    have hlt := (List.getElem?_eq_some_iff.mp hq).1
    simp [QueueManager.getQueue, hlt]
  | false => simpa using hq

inductive EndCase (n : Node) (t : CreateTaskStateTask) (n' : Node) : Prop
  | kept (hs : n'.registry.taskStates = n.registry.taskStates)
      (hm : n'.queueMap = n.queueMap ∨ createQueue n.queueMap t.id t.queueInfo = some n'.queueMap)
      (hfail : n.halted = false → n.registry.Instantiates t.libName t.id →
        QueueManager.getQueue n.queueMap t.id = none)
  | created (hnew : n.registry.Instantiates t.libName t.id)
      (hs : n'.registry.taskStates =
        Function.update n.registry.taskStates t.id (some ⟨t.id, t.stateName, some t.queueInfo⟩))
      (hm : createQueue n.queueMap t.id t.queueInfo = some n'.queueMap)

theorem createTaskStateEnd_cases (n : Node) (t : CreateTaskStateTask) : EndCase n t (n.createTaskStateEnd t) := by
  unfold Node.createTaskStateEnd
  by_cases hnull : t.id.isNull = true
  · rw [if_pos hnull]
    refine .kept rfl (Or.inl rfl) fun _ hi => ?_
    rw [hi.1] at hnull
    cases hnull
  rw [if_neg hnull]
  by_cases hex : n.registry.taskStateExists t.id = true
  · rw [if_pos hex]
    refine .kept rfl (Or.inl rfl) fun _ hi => ?_
    rw [TaskRegistry.taskStateExists, hi.2.2] at hex
    cases hex
  rw [if_neg hex]
  unfold Node.createQueue
  cases hm : QueueManager.createQueue n.queueMap t.id t.queueInfo with
  | none => exact .kept rfl (Or.inl rfl) fun _ _ => by simpa [QueueManager.createQueue] using hm
  | some m =>
    dsimp only
    split_ifs with hh
    · exact .kept rfl (Or.inr hm) fun h => by simp [h] at hh
    · by_cases hnew : n.registry.Instantiates t.libName t.id
      · rw [TaskRegistry.createTaskState_new hnew]
        exact .created hnew rfl hm
      · rw [TaskRegistry.createTaskState_old hnew]
        exact .kept rfl (Or.inr hm) fun _ h => absurd h hnew

namespace NodeOwn

variable {n : Node} {t : CreateTaskStateTask}

theorem hasQueue (h : NodeOwn n) {m : QueueMap}
    (hm : m = n.queueMap ∨ createQueue n.queueMap t.id t.queueInfo = some m) {id : TaskStateId}
    {state : TaskState} {info : List PriorityInfo} (hs : n.registry.taskStates id = some state)
    (hinfo : state.queueInfo = some info) : HasQueue m id info := by
  have hold := h.own id state info hs hinfo
  rcases hm with rfl | hm
  · exact hold
  · exact hold.createQueue (h.live id state hs) hm

theorem createTaskStateEnd (h : NodeOwn n) (hslot : SlotFree n t) : NodeOwn (n.createTaskStateEnd t) := by
  have hcase := createTaskStateEnd_cases n t
  generalize n.createTaskStateEnd t = n' at hcase ⊢
  cases hcase with
  | kept hs hm hfail =>
    constructor <;> rw [hs]
    · exact h.live
    · exact fun id state info => h.hasQueue hm
  | created hnew hs hm =>
    constructor <;> rw [hs] <;> intro id state
    · by_cases hid : id = t.id
      · exact fun _ => hid ▸ hnew.1
      · rw [Function.update_of_ne hid]
        exact h.live id state
    · intro info
      by_cases hid : id = t.id
      · subst hid
        rw [Function.update_self, Option.some.injEq]
        rintro rfl hinfo
        obtain rfl := Option.some.inj hinfo
        obtain ⟨q, hq, hq'⟩ := createQueue_self hnew.1 hm
        refine ⟨_, hq', ?_⟩
        rcases hslot hnew q hq with hnull | ⟨hid, hinfo⟩
        · rw [if_pos hnull]
          exact ⟨rfl, MultiQueue.queueInfo_init ..⟩
        · rw [if_neg (by simp [hid, hnew.1])]
          exact ⟨hid, hinfo⟩
      · rw [Function.update_of_ne hid]
        exact h.hasQueue (Or.inr hm)

theorem slotFree (hrun : n.halted = false) (h : NodeOwn (n.createTaskStateEnd t)) : SlotFree n t := by
  intro hnew q hq
  have hcase := createTaskStateEnd_cases n t
  generalize n.createTaskStateEnd t = n' at hcase h
  cases hcase with
  | kept hs hm hfail =>
    rw [hfail hrun hnew] at hq
    cases hq
  | created _ hs hm =>
    obtain ⟨q', hq', hid, hinfo⟩ := h.own t.id ⟨t.id, t.stateName, some t.queueInfo⟩ t.queueInfo
      (by rw [hs, Function.update_self]) rfl
    obtain ⟨q₀, hq₀, hself⟩ := createQueue_self hnew.1 hm
    rw [hq, Option.some.injEq] at hq₀
    subst hq₀
    cases hnull : q.id.isNull with
    | true => exact Or.inl rfl
    | false =>
      rw [hself, hnull, if_neg (by simp), Option.some.injEq] at hq'
      subst hq'
      exact Or.inr ⟨hid, hinfo⟩

theorem distinct (h : NodeOwn n) {id id' : TaskStateId} {state state' : TaskState} {info info' : List PriorityInfo}
    (hs : n.registry.taskStates id = some state) (hs' : n.registry.taskStates id' = some state')
    (hinfo : state.queueInfo = some info) (hinfo' : state'.queueInfo = some info')
    (hu : id.unique = id'.unique) : id = id' := by
  obtain ⟨q, hq, hid, -⟩ := h.own id state info hs hinfo
  obtain ⟨q', hq', hid', -⟩ := h.own id' state' info' hs' hinfo'
  rw [QueueManager.getQueue, hu] at hq
  rw [QueueManager.getQueue, hq, Option.some.injEq] at hq'
  rw [← hid, ← hid', hq']

theorem init (cfg : Config) (k : NodeId) : NodeOwn (Node.init cfg k) := by
  constructor <;> simp [Node.init, TaskRegistry.init]

theorem bootTaskState (h : NodeOwn n) (name : String) (id : TaskStateId) :
    NodeOwn (n.makeTaskStateId.2.bootTaskState name id) := by
  let r := n.registry.registerTaskLib name
  show NodeOwn { n with unique := n.unique + 1, registry := (r.createTaskState name name id none).2 }
  by_cases hnew : r.Instantiates name id
  · rw [TaskRegistry.createTaskState_new hnew]
    constructor <;> intro id' state
    · show Function.update n.registry.taskStates id _ id' = some state → _
      by_cases hid : id' = id
      · exact fun _ => hid ▸ hnew.1
      · rw [Function.update_of_ne hid]
        exact h.live id' state
    · intro info
      show Function.update n.registry.taskStates id _ id' = some state → _
      by_cases hid : id' = id
      · subst hid
        rw [Function.update_self, Option.some.injEq]
        rintro rfl hinfo
        cases hinfo
      · rw [Function.update_of_ne hid]
        exact h.own id' state info
  · rw [TaskRegistry.createTaskState_old hnew]
    exact ⟨h.live, h.own⟩

theorem getQueue_init {k : NodeId} {id : QueueId} {q : MultiQueue} (hid : 2 ≤ id.unique)
    (hq : QueueManager.getQueue (Node.init cfg k).queueMap id = some q) : q = MultiQueue.empty := by
  simp only [Node.init, QueueManager.getQueue] at hq
  cases hm : QueueManager.serverInit cfg.maxQueues cfg.maxLanes cfg.queueDepth with
  | none =>
    rw [hm] at hq
    cases hq
  | some m =>
    rw [hm, Option.getD_some] at hq
    obtain ⟨m₀, hm₀, hm₁⟩ := Option.bind_eq_some_iff.mp hm
    rcases createQueue_slot hm₁ hq with hq | ⟨hu, -⟩
    · rcases createQueue_slot hm₀ hq with hq | ⟨hu, -⟩
      · exact (List.mem_replicate.mp (List.mem_of_getElem? hq)).2
      · rw [hu] at hid
        exact absurd hid (by decide)
    · rw [hu] at hid
      exact absurd hid (by decide)

theorem handler (h : NodeOwn n) (hslot : SlotFree n t) : NodeOwn (n.createTaskState t).1 := by
  unfold Node.createTaskState
  split
  · exact h
  · split_ifs
    · exact ⟨h.live, h.own⟩
    · exact h.createTaskStateEnd hslot

theorem bootLibs (cfg : Config) (k : NodeId) : NodeOwn (Node.bootLibs cfg k) := by
  have proc := ((init cfg k).bootTaskState "hermes_run_admin" adminQueue).bootTaskState "proc_queue" processQueue
  have worch := fun queueSched procSched => (proc.bootTaskState "worch_queue_round_robin"
    queueSched).bootTaskState "worch_proc_round_robin" procSched
  exact ⟨(worch _ _).live, (worch _ _).own⟩

theorem serverInit (cfg : Config) (k : NodeId) : NodeOwn (Node.serverInit cfg k) := by
  have hlibs := bootLibs cfg k
  have hid : 2 ≤ (Node.bootLibs cfg k).unique := by
    rw [show (Node.bootLibs cfg k).unique = 6 from rfl]
    decide
  have hqueues : (Node.bootLibs cfg k).queueMap = (Node.init cfg k).queueMap := rfl
  unfold Node.serverInit
  generalize Node.bootLibs cfg k = n at hlibs hid hqueues ⊢
  have hn : NodeOwn ((n.registerTaskLib "remote_queue").makeTaskStateId.2.makeTaskNodeId.getQueue adminQueue) :=
    ⟨hlibs.live, hlibs.own⟩
  have hremote := hn.handler (t := Node.remoteQueueTask cfg (n.registerTaskLib "remote_queue").makeTaskStateId.1) (by
    intro _ q hq
    -- only the slots 0 and 1 are taken before
    change QueueManager.getQueue n.queueMap ⟨n.registry.nodeId, n.unique⟩ = some q at hq
    rw [hqueues] at hq
    rw [getQueue_init (k := k) hid hq]
    exact Or.inl rfl)
  exact ⟨hremote.live, hremote.own⟩

end NodeOwn

inductive NodesCase (cfg : Config) (s : State) (l : Label) (t : State) : Prop
  | quiet (hc : creating cfg s l = none)
      (hs : ∀ k, (t.nodes k).registry.taskStates = (s.nodes k).registry.taskStates)
      (hm : ∀ k, (t.nodes k).queueMap = (s.nodes k).queueMap)
  | create (k : NodeId) (x : CreateTaskStateTask) (hc : creating cfg s l = some (k, x)) (hk : Alive cfg s k)
      (ht : t.nodes = Function.update s.nodes k ((s.nodes k).createTaskStateEnd x))

theorem nodesCase_quiet {s t : State} {l : Label} {k : NodeId} {n : Node}
    (ht : t.nodes = Function.update s.nodes k n) (hc : creating cfg s l = none)
    (hs : n.registry.taskStates = (s.nodes k).registry.taskStates) (hm : n.queueMap = (s.nodes k).queueMap) :
    NodesCase cfg s l t := by
  have hj : ∀ j, (t.nodes j).registry.taskStates = (s.nodes j).registry.taskStates ∧
      (t.nodes j).queueMap = (s.nodes j).queueMap := by
    intro j
    rw [ht]
    by_cases hjk : j = k
    · subst hjk
      rw [Function.update_self]
      exact ⟨hs, hm⟩
    · rw [Function.update_of_ne hjk]
      exact ⟨rfl, rfl⟩
  exact .quiet hc (fun j => (hj j).1) (fun j => (hj j).2)

theorem State.create_nodes (s : State) (p : ℕ) (k : NodeId) (x : CreateTaskStateTask) :
    (s.create p k x).nodes = Function.update s.nodes k ((s.nodes k).createTaskStateEnd x) := by
  unfold State.create
  dsimp only
  split_ifs <;> rfl

theorem getOrCreateTaskStateId_states (n : Node) (name : String) :
    (n.getOrCreateTaskStateId name).2.registry.taskStates = n.registry.taskStates ∧
      (n.getOrCreateTaskStateId name).2.queueMap = n.queueMap := by
  cases h : n.registry.taskStateIds name with
  | some id =>
    rw [Node.getOrCreateTaskStateId_old h]
    exact ⟨rfl, rfl⟩
  | none =>
    rw [Node.getOrCreateTaskStateId_new h]
    exact ⟨rfl, rfl⟩

theorem step_nodes {s t : State} {l : Label} (hst : step cfg s l = some t) : NodesCase cfg s l t := by
  have hcase := step_cases hst
  cases hcase with
  | makeTaskNodeId k hk => exact nodesCase_quiet rfl rfl rfl rfl
  | makeTaskStateId k hk => exact nodesCase_quiet rfl rfl rfl rfl
  | registerTaskLib k libName hk => exact nodesCase_quiet rfl rfl rfl rfl
  | destroyTaskLib k libName hk => exact nodesCase_quiet rfl rfl rfl rfl
  | submit k x hk => exact nodesCase_quiet rfl rfl rfl rfl
  | getQueue k j p x hp hk => exact nodesCase_quiet rfl rfl rfl rfl
  | rpcExec p k x saved d todo hp hk => exact nodesCase_quiet rfl rfl rfl rfl
  | output p k x saved d todo c j u hp hc hk => exact .quiet rfl (fun _ => rfl) (fun _ => rfl)
  | finishPush p k x saved hp hk => exact .quiet rfl (fun _ => rfl) (fun _ => rfl)
  | disperse p k x hp hk hr => exact nodesCase_quiet rfl (by simp [creating, hp, hr]) rfl rfl
  | found p k x state hp hk hr hstate =>
    exact .quiet (by simp [creating, hp, hstate]) (fun _ => rfl) (fun _ => rfl)
  | ask p k x hp hk hr hstate hid =>
    refine nodesCase_quiet rfl (by simp [creating, hp, hid]) ?_ ?_
    · rw [Node.askId_registry, Node.getQueue_registry]
    · unfold askId
      split_ifs <;> rfl
  | getOrCreate p k d x hp hd hk =>
    have h := getOrCreateTaskStateId_states (s.nodes d) x.stateName
    refine nodesCase_quiet rfl rfl ?_ ?_
    · dsimp only
      split_ifs <;> exact h.1
    · dsimp only
      split_ifs <;> exact h.2
  | create p k x hp hk hr hstate hid =>
    exact .create k x (by simp [creating, hp, hr, hid, hstate]) hk (s.create_nodes p k x)
  | resume p k x id hp hk =>
    exact .create k _ (by simp [creating, hp]) hk (s.create_nodes p k _)

def LiveIds (cfg : Config) (s : State) : Prop :=
  ∀ k, cfg.isHost k → ∀ id state, (s.nodes k).registry.taskStates id = some state → id.isNull = false

theorem ownQueues_iff {s : State} (hj : LiveIds cfg s) :
    OwnQueues cfg s ↔ ∀ k, cfg.isHost k → NodeOwn (s.nodes k) := by
  constructor
  · intro h k hk
    exact ⟨hj k hk, fun id state info => h.own k id state info hk⟩
  · intro h
    refine ⟨fun k id state info hk => (h k hk).own id state info, ?_⟩
    intro k id id' state state' info info' hk hs hs' hinfo hinfo'
    exact (h k hk).distinct hs hs' hinfo hinfo'

theorem step_liveIds {s t : State} {l : Label} (hj : LiveIds cfg s) (hst : step cfg s l = some t) :
    LiveIds cfg t := by
  intro j hk id state
  cases step_nodes hst with
  | quiet hc hs hm =>
    rw [hs j]
    exact hj j hk id state
  | create k x hc hk ht =>
    rw [ht]
    by_cases hjk : j = k
    · subst hjk
      rw [Function.update_self]
      have hcase := createTaskStateEnd_cases (s.nodes j) x
      generalize (s.nodes j).createTaskStateEnd x = n' at hcase ⊢
      cases hcase with
      | kept hs hm hfail =>
        rw [hs]
        exact hj j hk.host id state
      | created hnew hs hm =>
        rw [hs]
        by_cases hid : id = x.id
        · exact fun _ => hid ▸ hnew.1
        · rw [Function.update_of_ne hid]
          exact hj j hk.host id state
    · rw [Function.update_of_ne hjk]
      exact hj j ‹_› id state

theorem step_ownQueues {s t : State} {l : Label} (hj : LiveIds cfg s) (hown : OwnQueues cfg s)
    (hst : step cfg s l = some t) : OwnQueues cfg t ↔ SlotReady cfg s l := by
  rw [ownQueues_iff (step_liveIds hj hst)]
  rw [ownQueues_iff hj] at hown
  cases step_nodes hst with
  | quiet hc hs hm =>
    constructor
    · intro _ k x hx
      rw [hc] at hx
      cases hx
    · intro _ k hk
      constructor <;> rw [hs k]
      · exact hj k hk
      · rw [hm k]
        exact (hown k hk).own
  | create k x hc hk ht =>
    constructor
    · intro h k' x' hx
      rw [hc, Option.some.injEq, Prod.mk.injEq] at hx
      obtain ⟨rfl, rfl⟩ := hx
      refine NodeOwn.slotFree hk.running ?_
      have hk' := h k hk.host
      rw [ht, Function.update_self] at hk'
      exact hk'
    · intro hready j hj
      rw [ht]
      by_cases hjk : j = k
      · subst hjk
        rw [Function.update_self]
        exact (hown j hj).createTaskStateEnd (hready j x hc)
      · rw [Function.update_of_ne hjk]
        exact hown j hj

theorem ownQueues_along_iff (cfg : Config) (labels : List Label) :
    Along (step cfg) (fun _ _ t => OwnQueues cfg t) (boot cfg) labels ↔
      Along (step cfg) (fun s l _ => SlotReady cfg s l) (boot cfg) labels := by
  have hlive : LiveIds cfg (boot cfg) := fun k _ => (NodeOwn.serverInit cfg k).live
  apply along_iff (J := LiveIds cfg)
  · exact fun s l t => step_liveIds
  · exact fun s l t => step_ownQueues
  · exact hlive
  · exact (ownQueues_iff hlive).mpr fun k _ => NodeOwn.serverInit cfg k

def collidingRun : List Label :=
  [.registerTaskLib 2 "small_message", .makeTaskStateId 2, .makeTaskNodeId 2,
    .submit 2 ⟨DomainId.getLocal, "small_message", "first", ⟨2, 8⟩, [⟨1, 1, 256, 0⟩]⟩, .poll 0, .makeTaskNodeId 2,
    .submit 2 ⟨DomainId.getLocal, "small_message", "second", UniqueId.getNull, [⟨4, 4, 256, 0⟩]⟩, .poll 1,
    .getOrCreateTaskStateId 1, .resume 1]

theorem ownQueues_collidingRun : ∃ s, run (step pairConfig) (boot pairConfig) collidingRun = some s ∧
    (∀ k < 3, ∀ id ∈ (s.nodes k).queueCalls, id.unique < pairConfig.maxQueues) ∧
    (s.nodes 2).registry.taskStates ⟨1, 8⟩ = some ⟨⟨1, 8⟩, "second", some [⟨4, 4, 256, 0⟩]⟩ ∧
    (QueueManager.getQueue (s.nodes 2).queueMap ⟨1, 8⟩).map (·.id) = some ⟨2, 8⟩ ∧ ¬OwnQueues pairConfig s := by
  have hsome : (run (step pairConfig) (boot pairConfig) collidingRun).any (fun s =>
      (∀ k < 3, ∀ id ∈ (s.nodes k).queueCalls, id.unique < pairConfig.maxQueues) ∧
      (s.nodes 2).registry.taskStates ⟨1, 8⟩ = some ⟨⟨1, 8⟩, "second", some [⟨4, 4, 256, 0⟩]⟩ ∧
      (QueueManager.getQueue (s.nodes 2).queueMap ⟨1, 8⟩).map (·.id) = some ⟨2, 8⟩) = true := by decide +kernel
  obtain ⟨s, hs, hok⟩ := (Option.any_eq_true _ _).mp hsome
  obtain ⟨hcalls, hstate, hqueue⟩ := of_decide_eq_true hok
  refine ⟨s, hs, hcalls, hstate, hqueue, fun h => ?_⟩
  obtain ⟨q, hq, hid, -⟩ := h.own 2 ⟨1, 8⟩ _ _ (by decide) hstate rfl
  rw [hq, Option.map_some, Option.some.injEq, hid] at hqueue
  cases hqueue

end HermesRun.Admin
