import HermesRun.Lib.Runs
import HermesRun.TaskRegistry

/-!
How the task states of a cluster come to be. The admin queue of a node has a single lane, so one worker runs its
`CreateTaskState` and `GetOrCreateTaskStateId` tasks one after the other; `CreateTaskState` is cut where it
yields. A request with a remote domain is sent to one node after the other by its push. Out of range indices
into `queue_map_` end the process of the node. `queueCalls` is history only.
-/

namespace HermesRun.Admin

open QueueManager

structure Config where
  numHosts : ℕ
  maxQueues : ℕ
  maxLanes : ℕ
  queueDepth : ℕ
  taskLibs : List String

structure CreateTaskStateTask where
  domainId : DomainId
  libName : String
  stateName : String
  id : TaskStateId
  queueInfo : List PriorityInfo

structure Node where
  unique : ℕ
  registry : TaskRegistry
  queueMap : QueueMap
  remoteQueue : QueueId
  queueCalls : List QueueId
  halted : Bool

namespace Node

variable (n : Node)

def makeTaskNodeId : Node := { n with unique := n.unique + 1 }

def makeTaskStateId : TaskStateId × Node := (⟨n.registry.nodeId, n.unique⟩, { n with unique := n.unique + 1 })

def getQueue (id : QueueId) : Node :=
  { n with
    queueCalls := id :: n.queueCalls
    halted := n.halted || (QueueManager.getQueue n.queueMap id).isNone }

def createQueue (id : QueueId) (queueInfo : List PriorityInfo) : Node :=
  match QueueManager.createQueue n.queueMap id queueInfo with
  | none => { n with queueCalls := id :: n.queueCalls, halted := true }
  | some m => { n with queueCalls := id :: n.queueCalls, queueMap := m }

def registerTaskLib (libName : String) : Node := { n with registry := n.registry.registerTaskLib libName }

def destroyTaskLib (libName : String) : Node := { n with registry := n.registry.destroyTaskLib libName }

def getOrCreateTaskStateId (name : String) : TaskStateId × Node :=
  let r := n.registry.getOrCreateTaskStateId n.unique name
  (r.1, { n with unique := r.2.1, registry := r.2.2 })

def createTaskStateEnd (t : CreateTaskStateTask) : Node :=
  if t.id.isNull then n
  else if n.registry.taskStateExists t.id then n
  else
    let n := n.createQueue t.id t.queueInfo
    if n.halted then n
    else { n with registry := (n.registry.createTaskState t.libName t.stateName t.id (some t.queueInfo)).2 }

/-- `Server::CreateTaskState`, with the id that it completes with, up to the `Wait` for an id if it has none. -/
def createTaskState (t : CreateTaskStateTask) : Node × Option TaskStateId :=
  match n.registry.getTaskState t.stateName t.id with
  | some state => (n, some state.id)
  | none =>
    if t.id.isNull then (n.getQueue adminQueue, none)
    else (n.createTaskStateEnd t, some t.id)

def init (cfg : Config) (k : NodeId) : Node :=
  let m := QueueManager.serverInit cfg.maxQueues cfg.maxLanes cfg.queueDepth
  ⟨0, TaskRegistry.init k cfg.taskLibs, m.getD [], UniqueId.getNull, [processQueue, adminQueue], m.isNone⟩

def bootTaskState (name : String) (id : TaskStateId) : Node :=
  let r := n.registry.registerTaskLib name
  { n with registry := (r.createTaskState name name id none).2 }

def bootLibs (cfg : Config) (k : NodeId) : Node :=
  let n := (init cfg k).makeTaskStateId.2.bootTaskState "hermes_run_admin" adminQueue
  let n := n.makeTaskStateId.2.bootTaskState "proc_queue" processQueue
  let queueSched := n.makeTaskStateId
  let n := queueSched.2.bootTaskState "worch_queue_round_robin" queueSched.1
  let procSched := n.makeTaskStateId
  let n := procSched.2.bootTaskState "worch_proc_round_robin" procSched.1
  -- the two `SetWorkOrch..PolicyRoot` requests
  (n.makeTaskNodeId.getQueue adminQueue).makeTaskNodeId.getQueue adminQueue

def remoteQueueTask (cfg : Config) (id : TaskStateId) : CreateTaskStateTask :=
  ⟨DomainId.getLocal, "remote_queue", "remote_queue", id,
    [⟨1, 1, cfg.queueDepth, 0⟩, ⟨1, 1, cfg.queueDepth, queueLongRunning⟩,
      ⟨1, 1, cfg.queueDepth, queueLowLatency⟩]⟩

def serverInit (cfg : Config) (k : NodeId) : Node :=
  let remote := ((bootLibs cfg k).registerTaskLib "remote_queue").makeTaskStateId
  let n := remote.2.makeTaskNodeId.getQueue adminQueue
  { (n.createTaskState (remoteQueueTask cfg remote.1)).1 with remoteQueue := remote.1 }

end Node

/-- Where a request is. A push holds what was serialised, the nodes whose outputs it still needs, and the copy
it waits for. -/
inductive Phase where
  | queued
  | waiting
  | answered (id : TaskStateId)
  | push (saved : CreateTaskStateTask) (todo : List NodeId) (copy : Option ℕ)
  | complete

structure Request where
  node : NodeId
  task : CreateTaskStateTask
  phase : Phase

structure State where
  nodes : NodeId → Node
  tasks : ℕ → Option Request
  next : ℕ

inductive Label where
  | makeTaskNodeId (k : NodeId)
  | makeTaskStateId (k : NodeId)
  | registerTaskLib (k : NodeId) (libName : String)
  | destroyTaskLib (k : NodeId) (libName : String)
  | submit (k : NodeId) (t : CreateTaskStateTask)
  | poll (p : ℕ)
  | getOrCreateTaskStateId (p : ℕ)
  | resume (p : ℕ)
  | rpcExec (p : ℕ)
  | output (p : ℕ)
  | finishPush (p : ℕ)
  | getQueue (k : NodeId) (p : ℕ)

namespace State

variable (s : State)

def setNode (k : NodeId) (n : Node) : State := { s with nodes := Function.update s.nodes k n }

def setTask (p : ℕ) (x : Request) : State := { s with tasks := Function.update s.tasks p (some x) }

def newTask (x : Request) : State :=
  { s with tasks := Function.update s.tasks s.next (some x), next := s.next + 1 }

end State

variable (cfg : Config)

def Config.isHost (k : NodeId) : Prop := 1 ≤ k ∧ k ≤ cfg.numHosts

instance (k : NodeId) : Decidable (cfg.isHost k) := inferInstanceAs (Decidable (_ ∧ _))

def State.onNode (s : State) (k : NodeId) (f : Node → Node) : Option State :=
  if cfg.isHost k ∧ (s.nodes k).halted = false then some (s.setNode k (f (s.nodes k))) else none

def idNode (k : NodeId) : NodeId := if (DomainId.getNode 1).isRemote cfg.numHosts k then 1 else k

def targets (t : CreateTaskStateTask) : List NodeId := (resolveDomainId cfg.numHosts t.domainId).map (·.id)

def askId (k : NodeId) (n : Node) : Node :=
  if (DomainId.getNode 1).isRemote cfg.numHosts k then n.getQueue n.remoteQueue else n

def poll (s : State) (p : ℕ) (k : NodeId) (t : CreateTaskStateTask) : Option State :=
  if t.domainId.isRemote cfg.numHosts k then
    (s.onNode cfg k fun n => n.getQueue n.remoteQueue).map
      (State.setTask · p ⟨k, t, .push t (targets cfg t) none⟩)
  else
    let r := (s.nodes k).createTaskState t
    match r.2 with
    | none => (s.onNode cfg k fun _ => askId cfg k r.1).map (State.setTask · p ⟨k, t, .waiting⟩)
    | some id => (s.onNode cfg k fun _ => r.1).map fun s =>
      if r.1.halted then s else s.setTask p ⟨k, { t with id := id }, .complete⟩

def getOrCreateTaskStateId (s : State) (p : ℕ) (k : NodeId) (t : CreateTaskStateTask) : Option State :=
  let d := idNode cfg k
  let r := (s.nodes d).getOrCreateTaskStateId t.stateName
  (s.onNode cfg d fun _ => if d = k then r.2 else r.2.getQueue adminQueue).map
    (State.setTask · p ⟨k, t, .answered r.1⟩)

def resume (s : State) (p : ℕ) (k : NodeId) (t : CreateTaskStateTask) (id : TaskStateId) : Option State :=
  let n := (s.nodes k).createTaskStateEnd { t with id := id }
  (s.onNode cfg k fun _ => n).map fun s =>
    if n.halted then s else s.setTask p ⟨k, { t with id := id }, .complete⟩

def rpcExec (s : State) (p : ℕ) (k : NodeId) (t saved : CreateTaskStateTask) (d : NodeId) (todo : List NodeId) :
    Option State :=
  (s.onNode cfg d (·.getQueue adminQueue)).map fun s =>
    (s.setTask p ⟨k, t, .push saved (d :: todo) (some s.next)⟩).newTask
      ⟨d, { saved with domainId := DomainId.getNode d }, .queued⟩

def output (s : State) (p : ℕ) (k : NodeId) (t saved : CreateTaskStateTask) (todo : List NodeId) (c : ℕ) :
    Option State :=
  match s.tasks c with
  | some ⟨_, u, .complete⟩ =>
    (s.onNode cfg k id).map (State.setTask · p ⟨k, { t with id := u.id }, .push saved todo none⟩)
  | _ => none

def step (s : State) : Label → Option State
  | .makeTaskNodeId k => s.onNode cfg k Node.makeTaskNodeId
  | .makeTaskStateId k => s.onNode cfg k fun n => n.makeTaskStateId.2
  | .registerTaskLib k libName => s.onNode cfg k (·.registerTaskLib libName)
  | .destroyTaskLib k libName => s.onNode cfg k (·.destroyTaskLib libName)
  | .submit k t => (s.onNode cfg k (·.getQueue adminQueue)).map (·.newTask ⟨k, t, .queued⟩)
  | .poll p => match s.tasks p with
    | some ⟨k, t, .queued⟩ => poll cfg s p k t
    | _ => none
  | .getOrCreateTaskStateId p => match s.tasks p with
    | some ⟨k, t, .waiting⟩ => getOrCreateTaskStateId cfg s p k t
    | _ => none
  | .resume p => match s.tasks p with
    | some ⟨k, t, .answered id⟩ => resume cfg s p k t id
    | _ => none
  | .rpcExec p => match s.tasks p with
    | some ⟨k, t, .push saved (d :: todo) none⟩ => rpcExec cfg s p k t saved d todo
    | _ => none
  | .output p => match s.tasks p with
    | some ⟨k, t, .push saved (_ :: todo) (some c)⟩ => output cfg s p k t saved todo c
    | _ => none
  | .finishPush p => match s.tasks p with
    | some ⟨k, t, .push _ [] none⟩ => (s.onNode cfg k id).map (State.setTask · p ⟨k, t, .complete⟩)
    | _ => none
  | .getQueue k p => match s.tasks p with
    | some ⟨_, t, .complete⟩ => s.onNode cfg k (·.getQueue t.id)
    | _ => none

def boot : State := ⟨Node.serverInit cfg, fun _ => none, 0⟩

def State.create (s : State) (p : ℕ) (k : NodeId) (t : CreateTaskStateTask) : State :=
  let n := (s.nodes k).createTaskStateEnd t
  if n.halted then s.setNode k n else (s.setNode k n).setTask p ⟨k, t, .complete⟩

structure Alive (s : State) (k : NodeId) : Prop where
  host : cfg.isHost k
  running : (s.nodes k).halted = false

inductive Transition (s : State) : Label → State → Prop
  | makeTaskNodeId (k : NodeId) (hk : Alive cfg s k) :
      Transition s (.makeTaskNodeId k) (s.setNode k (s.nodes k).makeTaskNodeId)
  | makeTaskStateId (k : NodeId) (hk : Alive cfg s k) :
      Transition s (.makeTaskStateId k) (s.setNode k (s.nodes k).makeTaskNodeId)
  | registerTaskLib (k : NodeId) (libName : String) (hk : Alive cfg s k) :
      Transition s (.registerTaskLib k libName) (s.setNode k ((s.nodes k).registerTaskLib libName))
  | destroyTaskLib (k : NodeId) (libName : String) (hk : Alive cfg s k) :
      Transition s (.destroyTaskLib k libName) (s.setNode k ((s.nodes k).destroyTaskLib libName))
  | submit (k : NodeId) (t : CreateTaskStateTask) (hk : Alive cfg s k) :
      Transition s (.submit k t) ((s.setNode k ((s.nodes k).getQueue adminQueue)).newTask ⟨k, t, .queued⟩)
  | disperse (p : ℕ) (k : NodeId) (t : CreateTaskStateTask) (hp : s.tasks p = some ⟨k, t, .queued⟩)
      (hk : Alive cfg s k) (hr : t.domainId.isRemote cfg.numHosts k = true) :
      Transition s (.poll p) ((s.setNode k ((s.nodes k).getQueue (s.nodes k).remoteQueue)).setTask p
        ⟨k, t, .push t (targets cfg t) none⟩)
  | found (p : ℕ) (k : NodeId) (t : CreateTaskStateTask) (state : TaskState)
      (hp : s.tasks p = some ⟨k, t, .queued⟩) (hk : Alive cfg s k)
      (hr : t.domainId.isRemote cfg.numHosts k = false)
      (hstate : (s.nodes k).registry.getTaskState t.stateName t.id = some state) :
      Transition s (.poll p) (s.setTask p ⟨k, { t with id := state.id }, .complete⟩)
  | ask (p : ℕ) (k : NodeId) (t : CreateTaskStateTask) (hp : s.tasks p = some ⟨k, t, .queued⟩)
      (hk : Alive cfg s k) (hr : t.domainId.isRemote cfg.numHosts k = false)
      (hstate : (s.nodes k).registry.getTaskState t.stateName t.id = none) (hid : t.id.isNull = true) :
      Transition s (.poll p) ((s.setNode k (askId cfg k ((s.nodes k).getQueue adminQueue))).setTask p
        ⟨k, t, .waiting⟩)
  | create (p : ℕ) (k : NodeId) (t : CreateTaskStateTask) (hp : s.tasks p = some ⟨k, t, .queued⟩)
      (hk : Alive cfg s k) (hr : t.domainId.isRemote cfg.numHosts k = false)
      (hstate : (s.nodes k).registry.getTaskState t.stateName t.id = none) (hid : t.id.isNull = false) :
      Transition s (.poll p) (s.create p k t)
  | getOrCreate (p : ℕ) (k d : NodeId) (t : CreateTaskStateTask) (hp : s.tasks p = some ⟨k, t, .waiting⟩)
      (hd : d = idNode cfg k) (hk : Alive cfg s d) :
      Transition s (.getOrCreateTaskStateId p) ((s.setNode d
        (let n := ((s.nodes d).getOrCreateTaskStateId t.stateName).2
        if d = k then n else n.getQueue adminQueue)).setTask p
        ⟨k, t, .answered ((s.nodes d).getOrCreateTaskStateId t.stateName).1⟩)
  | resume (p : ℕ) (k : NodeId) (t : CreateTaskStateTask) (id : TaskStateId)
      (hp : s.tasks p = some ⟨k, t, .answered id⟩) (hk : Alive cfg s k) :
      Transition s (.resume p) (s.create p k { t with id := id })
  | rpcExec (p : ℕ) (k : NodeId) (t saved : CreateTaskStateTask) (d : NodeId) (todo : List NodeId)
      (hp : s.tasks p = some ⟨k, t, .push saved (d :: todo) none⟩) (hk : Alive cfg s d) :
      Transition s (.rpcExec p) (((s.setNode d ((s.nodes d).getQueue adminQueue)).setTask p
        ⟨k, t, .push saved (d :: todo) (some s.next)⟩).newTask
          ⟨d, { saved with domainId := DomainId.getNode d }, .queued⟩)
  | output (p : ℕ) (k : NodeId) (t saved : CreateTaskStateTask) (d : NodeId) (todo : List NodeId) (c : ℕ)
      (j : NodeId) (u : CreateTaskStateTask)
      (hp : s.tasks p = some ⟨k, t, .push saved (d :: todo) (some c)⟩)
      (hc : s.tasks c = some ⟨j, u, .complete⟩) (hk : Alive cfg s k) :
      Transition s (.output p) (s.setTask p ⟨k, { t with id := u.id }, .push saved todo none⟩)
  | finishPush (p : ℕ) (k : NodeId) (t saved : CreateTaskStateTask)
      (hp : s.tasks p = some ⟨k, t, .push saved [] none⟩) (hk : Alive cfg s k) :
      Transition s (.finishPush p) (s.setTask p ⟨k, t, .complete⟩)
  | getQueue (k j : NodeId) (p : ℕ) (t : CreateTaskStateTask) (hp : s.tasks p = some ⟨j, t, .complete⟩)
      (hk : Alive cfg s k) : Transition s (.getQueue k p) (s.setNode k ((s.nodes k).getQueue t.id))

variable {cfg}

theorem onNode_eq_some {s t : State} {k : NodeId} {f : Node → Node} (h : s.onNode cfg k f = some t) :
    Alive cfg s k ∧ t = s.setNode k (f (s.nodes k)) := by
  unfold State.onNode at h
  split_ifs at h with hk
  exact ⟨⟨hk.1, hk.2⟩, (Option.some.inj h).symm⟩

@[simp] theorem State.setNode_self (s : State) (k : NodeId) : s.setNode k (s.nodes k) = s := by
  rw [setNode, Function.update_eq_self]

theorem poll_cases {s t : State} {p : ℕ} {k : NodeId} {x : CreateTaskStateTask}
    (hp : s.tasks p = some ⟨k, x, .queued⟩) (h : poll cfg s p k x = some t) :
    Transition cfg s (.poll p) t := by
  unfold poll at h
  by_cases hr : x.domainId.isRemote cfg.numHosts k = true
  · rw [if_pos hr] at h
    obtain ⟨u, hu, rfl⟩ := Option.map_eq_some_iff.mp h
    obtain ⟨hk, rfl⟩ := onNode_eq_some hu
    exact .disperse p k x hp hk hr
  rw [if_neg hr, Bool.not_eq_true] at *
  unfold Node.createTaskState at h
  cases hstate : (s.nodes k).registry.getTaskState x.stateName x.id with
  | some state =>
    simp only [hstate] at h
    obtain ⟨u, hu, rfl⟩ := Option.map_eq_some_iff.mp h
    obtain ⟨hk, rfl⟩ := onNode_eq_some hu
    rw [if_neg (by simp [hk.running]), State.setNode_self]
    exact .found p k x state hp hk hr hstate
  | none =>
    simp only [hstate] at h
    by_cases hid : x.id.isNull = true
    · simp only [if_pos hid] at h
      obtain ⟨u, hu, rfl⟩ := Option.map_eq_some_iff.mp h
      obtain ⟨hk, rfl⟩ := onNode_eq_some hu
      exact .ask p k x hp hk hr hstate hid
    · simp only [if_neg hid] at h
      obtain ⟨u, hu, rfl⟩ := Option.map_eq_some_iff.mp h
      obtain ⟨hk, rfl⟩ := onNode_eq_some hu
      exact .create p k x hp hk hr hstate (by simpa using hid)

theorem step_cases {s t : State} {l : Label} (h : step cfg s l = some t) : Transition cfg s l t := by
  cases l with
  | makeTaskNodeId k =>
    simp only [step] at h
    obtain ⟨hk, rfl⟩ := onNode_eq_some h
    exact .makeTaskNodeId k hk
  | makeTaskStateId k =>
    simp only [step] at h
    obtain ⟨hk, rfl⟩ := onNode_eq_some h
    exact .makeTaskStateId k hk
  | registerTaskLib k libName =>
    simp only [step] at h
    obtain ⟨hk, rfl⟩ := onNode_eq_some h
    exact .registerTaskLib k libName hk
  | destroyTaskLib k libName =>
    simp only [step] at h
    obtain ⟨hk, rfl⟩ := onNode_eq_some h
    exact .destroyTaskLib k libName hk
  | submit k x =>
    simp only [step] at h
    obtain ⟨u, hu, rfl⟩ := Option.map_eq_some_iff.mp h
    obtain ⟨hk, rfl⟩ := onNode_eq_some hu
    exact .submit k x hk
  | poll p =>
    simp only [step] at h
    split at h
    · next k x hp => exact poll_cases hp h
    · cases h
  | getOrCreateTaskStateId p =>
    simp only [step] at h
    split at h
    · next k x hp =>
      obtain ⟨u, hu, rfl⟩ := Option.map_eq_some_iff.mp h
      obtain ⟨hk, rfl⟩ := onNode_eq_some hu
      exact .getOrCreate p k _ x hp rfl hk
    · cases h
  | resume p =>
    simp only [step] at h
    split at h
    · next k x id hp =>
      obtain ⟨u, hu, rfl⟩ := Option.map_eq_some_iff.mp h
      obtain ⟨hk, rfl⟩ := onNode_eq_some hu
      exact .resume p k x id hp hk
    · cases h
  | rpcExec p =>
    simp only [step] at h
    split at h
    · next k x saved d todo hp =>
      obtain ⟨u, hu, rfl⟩ := Option.map_eq_some_iff.mp h
      obtain ⟨hk, rfl⟩ := onNode_eq_some hu
      exact .rpcExec p k x saved d todo hp hk
    · cases h
  | output p =>
    simp only [step] at h
    split at h
    · next k x saved d todo c hp =>
      unfold output at h
      split at h
      · next j y hc =>
        obtain ⟨u, hu, rfl⟩ := Option.map_eq_some_iff.mp h
        obtain ⟨hk, rfl⟩ := onNode_eq_some hu
        rw [id, State.setNode_self]
        exact .output p k x saved d todo c j y hp hc hk
      · cases h
    · cases h
  | finishPush p =>
    simp only [step] at h
    split at h
    · next k x saved hp =>
      obtain ⟨u, hu, rfl⟩ := Option.map_eq_some_iff.mp h
      obtain ⟨hk, rfl⟩ := onNode_eq_some hu
      rw [id, State.setNode_self]
      exact .finishPush p k x saved hp hk
    · cases h
  | getQueue k p =>
    simp only [step] at h
    split at h
    · next j x hp =>
      obtain ⟨hk, rfl⟩ := onNode_eq_some h
      exact .getQueue k j p x hp hk
    · cases h

end HermesRun.Admin
