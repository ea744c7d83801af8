import HermesRun.Remote.RemoteQueue

/-!
The process queue of a node. A client leaves its subtask to a push task; the worker that polls the push emplaces the
subtask into the queue of its task state and looks, now and at every later poll, whether it is complete. Subtasks are
numbered as clients allocate them; `sub_cli_` and `sub_run_` are such numbers, and `emplaced` holds the pointers that
the lanes have for them. Everything else on the node is as in `Poll`, with any handlers for the other tasks.
-/

namespace HermesRun.ProcQueue

open Poll
open RemoteQueue (isNew handlerKeeps)

inductive PushTaskPhase where
  | kSchedule
  | kWaitSchedule
  deriving DecidableEq, Repr

structure PushFields where
  subCli : ℕ
  subRun : Option ℕ
  phase : PushTaskPhase
  deriving DecidableEq, Repr

inductive Own (β : Type) where
  | push (x : PushFields)
  | other (b : β)
  deriving DecidableEq, Repr

structure Config (β : Type) where
  node : Poll.Config (Own β)
  procQueue : TaskStateId
  replicateStart : TaskStateId → ℕ → ℕ → β → β

structure State (β : Type) where
  node : Poll.State (Own β)
  subs : List (Task (Own β))
  emplaced : ℕ → List TaskPtr
  destroyed : ℕ → ℕ
  deleted : List TaskPtr

inductive Label (β : Type) where
  | asyncPush (taskNode : TaskNode) (laneHash : UInt32) (sub : Task (Own β))
  | node (l : Poll.Label (Own β))
  | delTask (p : TaskPtr)

variable {β : Type}

def Own.mapOther (f : β → β) : Own β → Own β
  | .push x => .push x
  | .other b => .other (f b)

def Config.poll (cfg : Config β) : Poll.Config (Own β) :=
  { cfg.node with
    lib := fun id =>
      if id = cfg.procQueue then lib (Own β)
      else ⟨(cfg.node.lib id).getGroup, fun method count => Own.mapOther (cfg.replicateStart id method count)⟩
    fatalReturns := false }

def pushFields (t : Task (Own β)) : Option PushFields :=
  match t.body with
  | .own (.push x) => some x
  | _ => none

def isFresh (t : Task (Own β)) : Bool := isNew t && isOwn t && (pushFields t).isNone

namespace State

variable (s : State β)

def init (node : Poll.State (Own β)) : State β := ⟨node, [], fun _ => [], fun _ => 0, []⟩

/-- What the subtask is now: its client's object, and the one in the lane after an `Emplace`. -/
def subTask (k : ℕ) : Option (Task (Own β)) :=
  match s.emplaced k with
  | [] => s.subs[k]?
  | q :: _ => some (s.node.mem q)

def deletions (k : ℕ) : ℕ := s.destroyed k + ((s.emplaced k).map fun q => s.node.log.count (.free q)).sum

def destruct (t : Task (Own β)) (x : PushFields) : State β :=
  match if !t.isFireAndForget then some x.subCli else x.subRun with
  | some k => { s with destroyed := Function.update s.destroyed k (s.destroyed k + 1) }
  | none => s

end State

variable (cfg : Config β)

/-- The constructor of `TypedPushTask`; its callers pass the local domain. -/
def typedPushTask (taskNode : TaskNode) (laneHash : UInt32) (subtask : ℕ) : Task (Own β) where
  taskState := cfg.procQueue
  taskNode := taskNode
  domainId := DomainId.getLocal
  prio := TaskPrio.kLowLatency
  laneHash := laneHash
  method := Method.kPush
  taskFlags := Bitfield.setBits 0#32 (taskDataOwner ||| taskLowLatency ||| taskRemoteDebugMark)
  body := .own (.push ⟨subtask, none, .kSchedule⟩)

def realLane (t : Task (Own β)) : LaneRef := cfg.poll.laneFor t.taskState t.prio t.laneHash

def scheduled (t : Task (Own β)) : Task (Own β) := if t.isFireAndForget then t.unsetFireAndForget else t

def pushEmplaces (s : State β) (x : PushFields) : List (LaneRef × Task (Own β)) :=
  match x.phase with
  | .kSchedule => match s.subTask x.subCli with
    | some t => [(realLane cfg t, scheduled t)]
    | none => []
  | .kWaitSchedule => []

def PushFields.next (x : PushFields) : PushFields :=
  match x.phase with
  | .kSchedule => ⟨x.subCli, some x.subCli, .kWaitSchedule⟩
  | .kWaitSchedule => x

def push (s : State β) (t : Task (Own β)) (x : PushFields) : Task (Own β) :=
  let t := { t with body := .own (.push x.next) }
  if (x.next.subRun.bind s.subTask).any (·.isComplete) then t.setModuleComplete else t

def faced (s : Poll.State (Own β)) (w : WorkerId) : Option TaskPtr :=
  (s.workers w).cursor.bind fun c => (s.lanes c.lane)[c.off]?.map (·.p)

def facedPush (s : Poll.State (Own β)) (w : WorkerId) : Option PushFields :=
  (faced s w).bind fun p => pushFields (s.mem p)

def runsPush (s : Poll.State (Own β)) (w : WorkerId) : Option PushFields :=
  (s.running w).bind fun r => pushFields (s.mem r.task)

def nodeLabel (s : State β) : Poll.Label (Own β) → Option (Poll.Label (Own β))
  | .emplace l t => if isFresh t then some (.emplace l t) else none
  | .scan w es => match facedPush s.node w with
    | some x => some (.scan w (pushEmplaces cfg s x))
    | none => if es.all (fun e => isFresh e.2) then some (.scan w es) else none
  | .finish w out => match s.node.running w with
    | none => none
    | some r =>
      let t := s.node.mem r.task
      match pushFields t with
      | some x => some (.finish w (push s t x))
      | none =>
        if !r.mode.runs || handlerKeeps t out && (pushFields out).isNone then some (.finish w out) else none
  | .write p t =>
    if (pushFields (s.node.mem p)).isNone && handlerKeeps (s.node.mem p) t && (pushFields t).isNone then
      some (.write p t)
    else none
  | .poll w l => some (.poll w l)
  | .put w => some (.put w)
  | .registry w op => some (.registry w op)

def track (s : State β) (l : Poll.Label (Own β)) (node : Poll.State (Own β)) : State β :=
  let t := { s with node := node }
  match l with
  | .put w => match runsPush s.node w with
    | some x =>
      if s.node.next < node.next then
        { t with emplaced := Function.update s.emplaced x.subCli (s.emplaced x.subCli ++ [s.node.next]) }
      else t
    | none => t
  | .finish w _ => match s.node.running w with
    | some r => match pushFields (node.mem r.task) with
      | some x => if node.log.contains (.free r.task) then t.destruct (node.mem r.task) x else t
      | none => t
    | none => t
  | _ => t

def asyncPush (s : State β) (taskNode : TaskNode) (laneHash : UInt32) (sub : Task (Own β)) : Option (State β) :=
  if isFresh sub then
    let t := typedPushTask cfg taskNode laneHash s.subs.length
    (Poll.step cfg.poll s.node (.emplace (cfg.poll.laneFor cfg.procQueue t.prio laneHash) t)).map fun node =>
      { s with node := node, subs := s.subs ++ [sub] }
  else none

def delTask (s : State β) (p : TaskPtr) : Option (State β) :=
  let t := s.node.mem p
  match pushFields t with
  | some x =>
    if p < s.node.next && t.isComplete && !s.deleted.contains p then
      some { s.destruct t x with deleted := p :: s.deleted }
    else none
  | none => none

def step (s : State β) : Label β → Option (State β)
  | .asyncPush taskNode laneHash sub => asyncPush cfg s taskNode laneHash sub
  | .node l => (nodeLabel cfg s l).bind fun l => (Poll.step cfg.poll s.node l).map (track s l)
  | .delTask p => delTask s p

end HermesRun.ProcQueue
