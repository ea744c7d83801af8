import HermesRun.Remote.PushTasks
import HermesRun.Remote.Received

/-!
The admin module of a node, polled by the node's workers. A `CreateTaskState` request runs as a coroutine and its
handler is cut where it waits for an id; the two `SetWorkOrch..Policy` requests are called again at every pass until
the scheduler before theirs is complete. A handler acts when it is called and its task is written when it returns.
Everything else on the node is as in `Poll`, with any handlers for the other tasks; these may also change the
registry and the queues (`other`). A copy of a `CreateTaskState` request that came without `TASK_COROUTINE` is one of
the other tasks. `history` is what a request's stack has been through, oldest first.
-/

namespace HermesRun.AdminServer

open Poll
open Admin (CreateTaskStateTask)
open Received (Lib)
open RemoteQueue (isNew handlerKeeps)

inductive Sched where
  | queueSched
  | procSched
  deriving DecidableEq, Repr

inductive Own (β : Type) where
  | createTaskState (x : CreateTaskStateTask)
  | getOrCreateTaskStateId (stateName : String) (id : TaskStateId)
  | setWorkOrchPolicy (k : Sched) (policyId : TaskStateId)
  | schedule
  | other (b : β)

inductive Role where
  | createTaskState
  | getOrCreateTaskStateId
  | setWorkOrchPolicy (k : Sched) (policyId : TaskStateId)
  | schedule
  | other
  deriving DecidableEq, Repr

structure Config (β : Type) where
  node : Poll.Config (Own β)
  admin : TaskStateId
  replicateStart : TaskStateId → ℕ → ℕ → β → β
  /-- Whether `Construct` of a library from elsewhere sets its task module-complete. -/
  constructCompletes : String → Bool

/-- A `ScheduleTask` that a request has made: as made, and where it is once it has been emplaced. -/
structure Scheduler (β : Type) where
  kind : Sched
  request : TaskPtr
  task : Task (Own β)
  shm : Option TaskPtr

structure Return where
  id : TaskStateId
  method : ℕ
  moduleComplete : Bool
  deriving DecidableEq, Repr

inductive Position where
  | start
  | asking
  | waiting (getId : TaskPtr)
  | returning (ret : Return)
  | returned
  | installing (i : ℕ)
  deriving DecidableEq, Repr

inductive StackEvent where
  | alloc
  | jump
  | ret
  | free
  deriving DecidableEq, Repr

structure State (β : Type) where
  node : Poll.State (Own β)
  admin : Admin.Node
  schedulers : List (Scheduler β)
  sched : Sched → Option ℕ
  position : TaskPtr → Position
  history : TaskPtr → List StackEvent

inductive Label (β : Type) where
  | node (l : Poll.Label (Own β))
  | other (n : Admin.Node)

variable {β : Type}

def Own.mapOther (f : β → β) : Own β → Own β
  | .other b => .other (f b)
  | a => a

def Own.role : Own β → Role
  | .createTaskState _ => .createTaskState
  | .getOrCreateTaskStateId _ _ => .getOrCreateTaskStateId
  | .setWorkOrchPolicy k policyId => .setWorkOrchPolicy k policyId
  | .schedule => .schedule
  | .other _ => .other

def role (t : Task (Own β)) : Role :=
  match t.body with
  | .own a => a.role
  | .push _ => .other

def Role.isRequest : Role → Bool
  | .createTaskState | .setWorkOrchPolicy _ _ => true
  | _ => false

def Config.poll (cfg : Config β) : Poll.Config (Own β) :=
  { cfg.node with
    lib := fun id =>
      if id = cfg.admin then HermesRunAdmin.lib (Own β)
      else ⟨(cfg.node.lib id).getGroup, fun method count => Own.mapOther (cfg.replicateStart id method count)⟩
    fatalReturns := false }

def Config.adminLane (cfg : Config β) : LaneRef := cfg.poll.laneFor cfg.admin TaskPrio.kAdmin 0

def libName : Lib → String
  | .hermesRunAdmin => "hermes_run_admin"
  | .procQueue => "proc_queue"
  | .remoteQueue => "remote_queue"
  | .worchQueueRoundRobin => "worch_queue_round_robin"
  | .worchProcRoundRobin => "worch_proc_round_robin"
  | .smallMessage => "small_message"

def libs : List Lib :=
  [.hermesRunAdmin, .procQueue, .remoteQueue, .worchQueueRoundRobin, .worchProcRoundRobin, .smallMessage]

/-- Whether `Run` of the library, at `kConstruct`, sets its task module-complete: every `Construct` ends so. -/
def Config.constructs (cfg : Config β) (name : String) : Bool :=
  match libs.find? (libName · = name) with
  | some lib => (lib.dispatch TaskMethod.kConstruct).isSome
  | none => cfg.constructCompletes name

namespace Sched

def method : Sched → ℕ
  | .queueSched => HermesRunAdmin.Method.kSetWorkOrchQueuePolicy
  | .procSched => HermesRunAdmin.Method.kSetWorkOrchProcPolicy

end Sched

def isRequest (cfg : Config β) (l : LaneRef) (t : Task (Own β)) : Bool :=
  l = cfg.adminLane && t.taskState = cfg.admin && t.prio = TaskPrio.kAdmin && t.laneHash = 0 &&
    match role t with
    | .createTaskState => t.method = HermesRunAdmin.Method.kCreateTaskState && t.isCoroutine
    | .setWorkOrchPolicy k _ => t.method = k.method && !t.isCoroutine && !t.isPreemptive
    | _ => false

def isFresh (cfg : Config β) (l : LaneRef) (t : Task (Own β)) : Bool :=
  isNew t && isOwn t &&
    match role t with
    | .schedule => false
    | .createTaskState | .setWorkOrchPolicy _ _ => isRequest cfg l t
    | _ => true

def kSchedule : ℕ := TaskMethod.kLast + 0

def scheduleTask (taskNode : TaskNode) (policyId : TaskStateId) : Task (Own β) where
  taskState := policyId
  taskNode := taskNode
  domainId := DomainId.getLocal
  prio := TaskPrio.kLongRunning
  laneHash := 0
  method := kSchedule
  taskFlags := Bitfield.setBits 0#32 (taskLongRunning ||| taskRemoteDebugMark)
  body := .own .schedule

def getOrCreateTaskStateIdTask (cfg : Config β) (taskNode : TaskNode) (stateName : String) : Task (Own β) where
  taskState := cfg.admin
  taskNode := taskNode
  domainId := DomainId.getNode 1
  prio := TaskPrio.kAdmin
  laneHash := 0
  method := HermesRunAdmin.Method.kGetOrCreateTaskStateId
  taskFlags := Bitfield.setBits 0#32 0#32
  body := .own (.getOrCreateTaskStateId stateName UniqueId.getNull)

namespace State

variable (s : State β)

def init (node : Poll.State (Own β)) (admin : Admin.Node) : State β :=
  ⟨node, admin, [], fun _ => none, fun _ => .start, fun _ => []⟩

def setPosition (p : TaskPtr) (x : Position) : State β := { s with position := Function.update s.position p x }

def record (p : TaskPtr) (evs : List StackEvent) : State β :=
  { s with history := Function.update s.history p (s.history p ++ evs) }

def scheduler (i : ℕ) : Option (Task (Own β)) :=
  s.schedulers[i]?.map fun x => match x.shm with
    | some q => s.node.mem q
    | none => x.task

def setModuleComplete (i : ℕ) : State β :=
  match s.schedulers[i]? with
  | some ⟨_, _, _, some q⟩ => { s with node := s.node.setTask q (s.node.mem q).setModuleComplete }
  | some x => { s with schedulers := s.schedulers.set i { x with task := x.task.setModuleComplete } }
  | none => s

def isBusy (k : Sched) : Bool := ((s.sched k).bind s.scheduler).any fun t => !t.isComplete

/-- The body that both `SetWorkOrch..Policy` handlers have, for the request at `p`. -/
def setWorkOrchPolicy (k : Sched) (p : TaskPtr) (policyId : TaskStateId) : State β :=
  let s := match s.sched k with
    | some i => s.setModuleComplete i
    | none => s
  if s.isBusy k then s
  else { s with
    admin := s.admin.getQueue QueueManager.adminQueue
    schedulers := s.schedulers ++ [⟨k, p, scheduleTask (s.node.mem p).taskNode policyId, none⟩]
    sched := Function.update s.sched k (some s.schedulers.length)
    position := Function.update s.position p (.installing s.schedulers.length) }

def setWorkOrchQueuePolicy (p : TaskPtr) (policyId : TaskStateId) : State β :=
  s.setWorkOrchPolicy .queueSched p policyId

def setWorkOrchProcPolicy (p : TaskPtr) (policyId : TaskStateId) : State β :=
  s.setWorkOrchPolicy .procSched p policyId

def createTaskStateEnd (cfg : Config β) (p : TaskPtr) (x : CreateTaskStateTask) : State β :=
  if x.id.isNull || s.admin.registry.taskStateExists x.id then
    s.setPosition p (.returning ⟨x.id, (s.node.mem p).method, true⟩)
  else
    let complete := !decide (s.admin.registry.Instantiates x.libName x.id) || cfg.constructs x.libName
    { s.setPosition p (.returning ⟨x.id, TaskMethod.kConstruct, complete⟩) with
      admin := s.admin.createTaskStateEnd x }

def createTaskState (cfg : Config β) (p : TaskPtr) (x : CreateTaskStateTask) : State β :=
  match s.admin.registry.getTaskState x.stateName x.id with
  | some state => s.setPosition p (.returning ⟨state.id, (s.node.mem p).method, true⟩)
  | none =>
    if x.id.isNull then { s.setPosition p .asking with admin := s.admin.getQueue QueueManager.adminQueue }
    else s.createTaskStateEnd cfg p x

/-- The coroutine at `p` from where it is: its handler starts, looks whether the task it waits for is complete, or
has returned long ago, and then the process ends. -/
def jump (cfg : Config β) (p : TaskPtr) (x : CreateTaskStateTask) : State β :=
  match s.position p with
  | .start => s.createTaskState cfg p x
  | .waiting getId =>
    if (s.node.mem getId).isComplete then match (s.node.mem getId).body with
      | .own (.getOrCreateTaskStateId _ id) => s.createTaskStateEnd cfg p { x with id := id }
      | _ => s
    else s
  | .returned => { s with node := { s.node with halted := true } }
  | _ => s

end State

variable (cfg : Config β)

def handlerEmplaces (s : State β) (p : TaskPtr) : List (LaneRef × Task (Own β)) :=
  let t := s.node.mem p
  match t.body with
  | .own (.createTaskState x) =>
    if s.position p = .start && (s.admin.registry.getTaskState x.stateName x.id).isNone && x.id.isNull then
      [(cfg.adminLane, getOrCreateTaskStateIdTask cfg (t.taskNode.add 1) x.stateName)]
    else []
  | .own (.setWorkOrchPolicy k policyId) =>
    if s.isBusy k then [] else [(cfg.adminLane, scheduleTask t.taskNode policyId)]
  | _ => []

def logs (s t : Poll.State (Own β)) (e : Event) : Bool := s.log.count e < t.log.count e

def call (s : State β) (p : TaskPtr) : State β :=
  match (s.node.mem p).body with
  | .own (.createTaskState x) => s.jump cfg p x
  | .own (.setWorkOrchPolicy .queueSched policyId) => s.setWorkOrchQueuePolicy p policyId
  | .own (.setWorkOrchPolicy .procSched policyId) => s.setWorkOrchProcPolicy p policyId
  | _ => s

def result (s : State β) (p : TaskPtr) : Task (Own β) :=
  let t := s.node.mem p
  match t.body, s.position p with
  | .own (.createTaskState x), .returning ret =>
    let t := { t with method := ret.method, body := .own (.createTaskState { x with id := ret.id }) }
    if ret.moduleComplete then t.setModuleComplete else t
  | .own (.setWorkOrchPolicy _ _), .installing _ => t.setModuleComplete
  | _, _ => t

def begun (s : Poll.State (Own β)) (p : TaskPtr) : Bool :=
  s.log.any fun
    | .begin q _ => q = p
    | _ => false

def nodeLabel (s : State β) : Poll.Label (Own β) → Option (Poll.Label (Own β))
  | .emplace l t => if isFresh cfg l t then some (.emplace l t) else none
  | .scan w es => match s.node.faced w with
    | some p =>
      if (role (s.node.mem p)).isRequest then some (.scan w (handlerEmplaces cfg s p))
      else if es.all (fun e => isFresh cfg e.1 e.2) then some (.scan w es) else none
    | none => if es.all (fun e => isFresh cfg e.1 e.2) then some (.scan w es) else none
  | .finish w out => match s.node.running w with
    | none => none
    | some r =>
      let t := s.node.mem r.task
      if (role t).isRequest then some (.finish w (result s r.task))
      else if !r.mode.runs || handlerKeeps t out && role out = role t then some (.finish w out) else none
  | .write p t =>
    let old := s.node.mem p
    -- only the threads of the remote queue write to a request, and only to one that was sent away
    if (!(role old).isRequest || isRemote cfg.poll old && begun s.node p) && handlerKeeps old t && role t = role old then
      some (.write p t)
    else none
  | .poll w l => some (.poll w l)
  | .put w => some (.put w)
  | .registry w op => some (.registry w op)

def emplaced (s : State β) (p q : TaskPtr) : State β :=
  match s.position p with
  | .asking => s.setPosition p (.waiting q)
  | .installing i =>
    { s with schedulers := s.schedulers.modify i fun x => { x with shm := some q } }
  | _ => s

def returns (s : State β) (p : TaskPtr) : State β :=
  match s.position p with
  | .returning _ => (s.setPosition p .returned).record p [.ret]
  | _ => s

def jumpEvents (s t : Poll.State (Own β)) (r : Running (Own β)) : List StackEvent :=
  (if logs s t (.stackAlloc r.task) then [.alloc] else []) ++ if r.mode = .resume then [.jump] else []

def freeEvents (s t : Poll.State (Own β)) (p : TaskPtr) : List StackEvent :=
  if logs s t (.stackFree p) then [.free] else []

def track (s : State β) (l : Poll.Label (Own β)) (node : Poll.State (Own β)) : State β :=
  let t := { s with node := node }
  match l with
  | .scan w _ => match node.running w with
    | some r =>
      let t := t.record r.task (jumpEvents s.node node r)
      if r.mode.runs then call cfg t r.task else t
    | none => t
  | .put w => match s.node.running w with
    | some r => if r.mode.runs && s.node.next < node.next then emplaced t r.task s.node.next else t
    | none => t
  | .finish w _ => match s.node.running w with
    | some r =>
      let t := if r.mode.runs then returns t r.task else t
      t.record r.task (freeEvents s.node node r.task)
    | none => t
  | _ => t

/-- A node whose admin module has hit an index out of range has ended. -/
def step (s : State β) (l : Label β) : Option (State β) :=
  if s.admin.halted then none
  else match l with
    | .node l => (nodeLabel cfg s l).bind fun l => (Poll.step cfg.poll s.node l).map (track cfg s l)
    | .other n => some { s with admin := n }

end HermesRun.AdminServer
