import HermesRun.Worker.Tasks

/-!
The remote queue of a cluster. A task that is remote for its node is serialised by `Disperse` and left to a
push task; the thread that runs the push calls one server after the other, each of which enqueues a copy, waits
for it and answers with its outputs. Every node is a `Poll.State`. The counters and lists in `History` are
history only.
-/

namespace HermesRun.RemoteQueue

open Poll

/-- The methods of a task library that move tasks between nodes. `xferSize` is the length of the list that
`SaveStart` returns, `π` its params and `ρ` the string that `SaveEnd` leaves. -/
structure TaskSrl (α π ρ : Type) where
  xferSize : ℕ → ℕ
  saveStart : ℕ → α → π
  loadStart : ℕ → π → α
  saveEnd : ℕ → α → ρ
  loadEnd : ℕ → ℕ → ρ → α → α
  replicateEnd : ℕ → α → α

structure Config (α π ρ : Type) where
  numHosts : ℕ
  node : NodeId → Poll.Config α
  srl : TaskStateId → TaskSrl α π ρ

def Config.at {α π ρ : Type} (cfg : Config α π ρ) (k : NodeId) : Poll.Config α :=
  { cfg.node k with numHosts := cfg.numHosts, nodeId := k, fatalReturns := false }

inductive Phase (ρ : Type) where
  | start
  | ready
  | sent
  | waiting (copy : TaskPtr)
  | replied (ret : ρ)
  | replicated
  | signalled
  | finished

structure Push (ρ : Type) where
  task : TaskPtr
  info : PushInfo
  replica : ℕ
  phase : Phase ρ

structure History where
  dispersed : ℕ
  ran : ℕ
  copies : List (NodeId × TaskPtr)
  loaded : ℕ
  replicateEnds : ℕ

def History.none : History := ⟨0, 0, [], 0, 0⟩

/-- The last three fields are by node and task: what `SaveStart` serialised, the push that runs for the task,
and what has been done with it. -/
structure State (α ρ : Type) where
  nodes : NodeId → Poll.State α
  xfer : NodeId → TaskPtr → Option (Task α)
  pushes : NodeId → TaskPtr → Option (Push ρ)
  history : NodeId → TaskPtr → History

inductive Label (α : Type) where
  | node (k : NodeId) (l : Poll.Label α)
  | thread (k : NodeId) (p : TaskPtr) (out : Task α)
  | start (k : NodeId) (p : TaskPtr)
  | call (k : NodeId) (p : TaskPtr)
  | rpcExec (k : NodeId) (p : TaskPtr)
  | rpcComplete (k : NodeId) (p : TaskPtr)
  | output (k : NodeId) (p : TaskPtr)
  | replicateEnd (k : NodeId) (p : TaskPtr)
  | completeOrig (k : NodeId) (p : TaskPtr)
  | completePush (k : NodeId) (p : TaskPtr)

section Functions

variable {α π ρ : Type}

def update₂ {β : Type} (f : NodeId → TaskPtr → β) (k : NodeId) (p : TaskPtr) (x : β) : NodeId → TaskPtr → β :=
  Function.update f k (Function.update (f k) p x)

def mapOwn (f : α → α) (t : Task α) : Task α :=
  match t.body with
  | .own a => { t with body := .own (f a) }
  | .push _ => t

@[simp] theorem mapOwn_taskFlags (f : α → α) (t : Task α) : (mapOwn f t).taskFlags = t.taskFlags := by
  unfold mapOwn
  split <;> rfl

def loadTask (cfg : Config α π ρ) (d : NodeId) (x : Task α) : Task α :=
  let srl := cfg.srl x.taskState
  let t := mapOwn (fun a => srl.loadStart x.method (srl.saveStart x.method a)) x
  let t := { t with domainId := DomainId.getNode d }
  t.unsetFireAndForget.unsetStarted.unsetMarked.unsetDataOwner.unsetLongRunning

def saveEnd (cfg : Config α π ρ) (i : PushInfo) (t : Task α) : Option ρ :=
  match t.body with
  | .own a => some ((cfg.srl i.exec.id).saveEnd i.execMethod a)
  | .push _ => none

def isNew (t : Task α) : Bool := !t.isStarted && !t.isRunDisabled && !t.isModuleComplete && !t.isComplete

/-- What a handler may do to its task: change its own fields and `method_`, and set it module-complete. -/
def handlerKeeps (t out : Task α) : Bool :=
  out.taskState = t.taskState && out.taskNode = t.taskNode && out.domainId = t.domainId && out.prio = t.prio &&
    out.laneHash = t.laneHash && (out.taskFlags = t.taskFlags || out.taskFlags = t.setModuleComplete.taskFlags)

/-- The steps that workers and clients make; other threads have their own labels. -/
def allowed (v : TasksView α) : Poll.Label α → Bool
  | .emplace _ t => isNew t
  | .scan _ es => es.all fun e => isNew e.2
  | .finish w out => (v.running w).all fun r => !r.mode.runs || handlerKeeps (v.mem r.task) out
  | .write _ _ => false
  | _ => true

end Functions

namespace State

variable {α π ρ : Type} (s : State α ρ)

def mem (k : NodeId) (p : TaskPtr) : Task α := (s.nodes k).mem p

def init (nodes : NodeId → Poll.State α) : State α ρ :=
  ⟨nodes, fun _ _ => none, fun _ _ => none, fun _ _ => .none⟩

def setNode (k : NodeId) (t : Poll.State α) : State α ρ := { s with nodes := Function.update s.nodes k t }

def halt (k : NodeId) : State α ρ := s.setNode k { s.nodes k with halted := true }

def setPush (k : NodeId) (p : TaskPtr) (x : Push ρ) : State α ρ :=
  { s with pushes := update₂ s.pushes k p (some x) }

def record (k : NodeId) (p : TaskPtr) (f : History → History) : State α ρ :=
  { s with history := update₂ s.history k p (f (s.history k p)) }

def begin (k : NodeId) (r : Running α) : State α ρ :=
  match r.mode with
  | .skip => s
  | .disperse =>
    ({ s with xfer := update₂ s.xfer k r.task (some (s.mem k r.task)) } : State α ρ).record k r.task
      fun h => { h with dispersed := h.dispersed + 1 }
  | .spawn =>
    let s' := s.record k r.task fun h => { h with ran := h.ran + 1 }
    match (s.mem k r.task).body with
    | .own _ => s'
    | .push i => s'.setPush k i.origTask ⟨r.task, i, 0, .start⟩
  | .resume | .call => s.record k r.task fun h => { h with ran := h.ran + 1 }

def write (cfg : Config α π ρ) (k : NodeId) (p : TaskPtr) (t : Task α) : Option (State α ρ) :=
  (Poll.step (cfg.at k) (s.nodes k) (.write p t)).map (s.setNode k)

end State

variable {α π ρ : Type} (cfg : Config α π ρ)

def nodeStep (s : State α ρ) (k : NodeId) (l : Poll.Label α) : Option (State α ρ) :=
  if allowed (s.nodes k).tasksView l then
    (Poll.step (cfg.at k) (s.nodes k) l).map fun t =>
      match l with
      | .scan w _ => match t.running w with
        | some r => (s.begin k r).setNode k t
        | none => s.setNode k t
      | _ => s.setNode k t
  else none

/-- A preemptive task's handler, in the thread that `RunPreemptive` runs in until the worker joins it. -/
def threadStep (s : State α ρ) (k : NodeId) (p : TaskPtr) (out : Task α) : Option (State α ρ) :=
  let t := s.mem k p
  if t.isRunDisabled && !isRemote (cfg.at k) t && isOwn t && handlerKeeps t out &&
      !(s.nodes k).log.contains (.endTask p) then
    s.write cfg k p out
  else none

def rpcExec (s : State α ρ) (k : NodeId) (p : TaskPtr) (x : Push ρ) : Option (State α ρ) :=
  x.info.domainIds[x.replica]?.bind fun domain => (s.xfer k p).bind fun t =>
    let d := domain.id
    match (s.nodes d).taskStates x.info.exec.id with
    | none => some (s.halt d)
    | some _ =>
      let copy := loadTask cfg d t
      let lane := (cfg.at d).laneFor x.info.exec.id copy.prio copy.laneHash
      (Poll.step (cfg.at d) (s.nodes d) (.emplace lane copy)).map fun u =>
        ((s.setNode d u).setPush k p { x with phase := .waiting (s.nodes d).next }).record k p
          fun h => { h with copies := h.copies ++ [(d, (s.nodes d).next)] }

/-- `exec` is the pointer that `RpcExec` has found: a state destroyed in the meantime is none that goes on here. -/
def rpcComplete (s : State α ρ) (k : NodeId) (p : TaskPtr) (x : Push ρ) (copy : TaskPtr) : Option (State α ρ) :=
  x.info.domainIds[x.replica]?.bind fun domain =>
    if (s.mem domain.id copy).isComplete && !(s.nodes domain.id).halted then
      (saveEnd cfg x.info (s.mem domain.id copy)).map fun ret => s.setPush k p { x with phase := .replied ret }
    else none

def output (s : State α ρ) (k : NodeId) (p : TaskPtr) (x : Push ρ) (ret : ρ) : Option (State α ρ) :=
  (s.write cfg k p (mapOwn ((cfg.srl x.info.exec.id).loadEnd x.replica x.info.execMethod ret) (s.mem k p))).map
    fun s => (s.setPush k p { x with replica := x.replica + 1, phase := .ready }).record k p
      fun h => { h with loaded := h.loaded + 1 }

def replicateEnd (s : State α ρ) (k : NodeId) (p : TaskPtr) (x : Push ρ) : Option (State α ρ) :=
  if x.replica = x.info.domainIds.length then
    let t := s.mem k p
    (s.write cfg k p (mapOwn ((cfg.srl x.info.exec.id).replicateEnd t.method) t)).map
      fun s => (s.setPush k p { x with phase := .replicated }).record k p
        fun h => { h with replicateEnds := h.replicateEnds + 1 }
  else none

def step (s : State α ρ) : Label α → Option (State α ρ)
  | .node k l => nodeStep cfg s k l
  | .thread k p out => threadStep cfg s k p out
  | .start k p => match s.pushes k p with
    | some x => match x.phase with
      | .start =>
        if (s.nodes k).halted then none
        else match (cfg.srl x.info.exec.id).xferSize x.info.execMethod with
          | 1 | 2 => some (s.setPush k p { x with phase := .ready })
          | _ => some (s.halt k)
      | _ => none
    | none => none
  | .call k p => match s.pushes k p with
    | some ⟨q, i, j, .ready⟩ =>
      if j < i.domainIds.length && !(s.nodes k).halted then some (s.setPush k p ⟨q, i, j, .sent⟩) else none
    | _ => none
  | .rpcExec k p => match s.pushes k p with
    | some ⟨q, i, j, .sent⟩ => rpcExec cfg s k p ⟨q, i, j, .sent⟩
    | _ => none
  | .rpcComplete k p => match s.pushes k p with
    | some ⟨q, i, j, .waiting copy⟩ => rpcComplete cfg s k p ⟨q, i, j, .waiting copy⟩ copy
    | _ => none
  | .output k p => match s.pushes k p with
    | some ⟨q, i, j, .replied ret⟩ => output cfg s k p ⟨q, i, j, .replied ret⟩ ret
    | _ => none
  | .replicateEnd k p => match s.pushes k p with
    | some ⟨q, i, j, .ready⟩ => replicateEnd cfg s k p ⟨q, i, j, .ready⟩
    | _ => none
  | .completeOrig k p => match s.pushes k p with
    | some ⟨q, i, j, .replicated⟩ =>
      (s.write cfg k p (s.mem k p).setModuleComplete).map (State.setPush · k p ⟨q, i, j, .signalled⟩)
    | _ => none
  | .completePush k p => match s.pushes k p with
    | some ⟨q, i, j, .signalled⟩ =>
      (s.write cfg k q (s.mem k q).setModuleComplete).map (State.setPush · k p ⟨q, i, j, .finished⟩)
    | _ => none

inductive StepCase (s : State α ρ) : Label α → State α ρ → Prop
  | node (k : NodeId) (l : Poll.Label α) (t : State α ρ) (h : nodeStep cfg s k l = some t) : StepCase s (.node k l) t
  | thread (k : NodeId) (p : TaskPtr) (out : Task α) (t : State α ρ) (hd : (s.mem k p).isRunDisabled = true)
      (hr : isRemote (cfg.at k) (s.mem k p) = false) (ho : isOwn (s.mem k p) = true)
      (hk : handlerKeeps (s.mem k p) out = true) (he : .endTask p ∉ (s.nodes k).log)
      (h : s.write cfg k p out = some t) : StepCase s (.thread k p out) t
  | start (k : NodeId) (p : TaskPtr) (x : Push ρ) (hx : s.pushes k p = some x) (hp : x.phase = .start)
      (hh : (s.nodes k).halted = false) : StepCase s (.start k p) (s.setPush k p { x with phase := .ready })
  | fatal (k : NodeId) (p : TaskPtr) (x : Push ρ) (hx : s.pushes k p = some x) (hp : x.phase = .start)
      (hh : (s.nodes k).halted = false) : StepCase s (.start k p) (s.halt k)
  | call (k : NodeId) (p : TaskPtr) (x : Push ρ) (hx : s.pushes k p = some x) (hp : x.phase = .ready)
      (hj : x.replica < x.info.domainIds.length) (hh : (s.nodes k).halted = false) :
      StepCase s (.call k p) (s.setPush k p { x with phase := .sent })
  | rpcFatal (k : NodeId) (p : TaskPtr) (x : Push ρ) (domain : DomainId) (hx : s.pushes k p = some x)
      (hp : x.phase = .sent) (hdom : x.info.domainIds[x.replica]? = some domain)
      (hnone : (s.nodes domain.id).taskStates x.info.exec.id = none) : StepCase s (.rpcExec k p) (s.halt domain.id)
  | rpcExec (k : NodeId) (p : TaskPtr) (x : Push ρ) (domain : DomainId) (z : Task α) (u : Poll.State α)
      (hx : s.pushes k p = some x) (hp : x.phase = .sent) (hdom : x.info.domainIds[x.replica]? = some domain)
      (hz : s.xfer k p = some z)
      (hu : Poll.step (cfg.at domain.id) (s.nodes domain.id) (.emplace ((cfg.at domain.id).laneFor x.info.exec.id
        (loadTask cfg domain.id z).prio (loadTask cfg domain.id z).laneHash) (loadTask cfg domain.id z)) = some u) :
      StepCase s (.rpcExec k p) (((s.setNode domain.id u).setPush k p
        { x with phase := .waiting (s.nodes domain.id).next }).record k p
          fun h => { h with copies := h.copies ++ [(domain.id, (s.nodes domain.id).next)] })
  | rpcComplete (k : NodeId) (p : TaskPtr) (x : Push ρ) (domain : DomainId) (copy : TaskPtr) (ret : ρ)
      (hx : s.pushes k p = some x) (hp : x.phase = .waiting copy)
      (hdom : x.info.domainIds[x.replica]? = some domain) (hc : (s.mem domain.id copy).isComplete = true)
      (hh : (s.nodes domain.id).halted = false) (hret : saveEnd cfg x.info (s.mem domain.id copy) = some ret) :
      StepCase s (.rpcComplete k p) (s.setPush k p { x with phase := .replied ret })
  | output (k : NodeId) (p : TaskPtr) (x : Push ρ) (ret : ρ) (t : State α ρ) (hx : s.pushes k p = some x)
      (hp : x.phase = .replied ret)
      (h : s.write cfg k p (mapOwn ((cfg.srl x.info.exec.id).loadEnd x.replica x.info.execMethod ret) (s.mem k p)) =
        some t) :
      StepCase s (.output k p) ((t.setPush k p { x with replica := x.replica + 1, phase := .ready }).record k p
        fun h => { h with loaded := h.loaded + 1 })
  | replicateEnd (k : NodeId) (p : TaskPtr) (x : Push ρ) (t : State α ρ) (hx : s.pushes k p = some x)
      (hp : x.phase = .ready) (hall : x.replica = x.info.domainIds.length)
      (h : s.write cfg k p (mapOwn ((cfg.srl x.info.exec.id).replicateEnd (s.mem k p).method) (s.mem k p)) = some t) :
      StepCase s (.replicateEnd k p) ((t.setPush k p { x with phase := .replicated }).record k p
        fun h => { h with replicateEnds := h.replicateEnds + 1 })
  | completeOrig (k : NodeId) (p : TaskPtr) (x : Push ρ) (t : State α ρ) (hx : s.pushes k p = some x)
      (hp : x.phase = .replicated) (h : s.write cfg k p (s.mem k p).setModuleComplete = some t) :
      StepCase s (.completeOrig k p) (t.setPush k p { x with phase := .signalled })
  | completePush (k : NodeId) (p : TaskPtr) (x : Push ρ) (t : State α ρ) (hx : s.pushes k p = some x)
      (hp : x.phase = .signalled) (h : s.write cfg k x.task (s.mem k x.task).setModuleComplete = some t) :
      StepCase s (.completePush k p) (t.setPush k p { x with phase := .finished })

theorem step_cases {s t : State α ρ} {l : Label α} (h : step cfg s l = some t) : StepCase cfg s l t := by
  cases l with
  | node k l => exact .node k l t h
  | thread k p out =>
    simp only [step, threadStep, Option.ite_none_right_eq_some, Bool.and_eq_true, Bool.not_eq_true',
      List.contains_eq_mem, decide_eq_false_iff_not] at h
    obtain ⟨⟨⟨⟨⟨hd, hr⟩, ho⟩, hk⟩, he⟩, h⟩ := h
    exact .thread k p out t hd hr ho hk he h
  | start k p =>
    simp only [step] at h
    split at h
    · next x hx =>
      split at h
      · next hp =>
        split_ifs at h with hh
        rw [Bool.not_eq_true] at hh
        split at h
        · cases h
          exact .start k p x hx hp hh
        · cases h
          exact .start k p x hx hp hh
        · cases h
          exact .fatal k p x hx hp hh
      · cases h
    · cases h
  | call k p =>
    simp only [step] at h
    split at h
    · next q i j hx =>
      simp only [Option.ite_none_right_eq_some, Bool.and_eq_true, decide_eq_true_eq, Bool.not_eq_true'] at h
      obtain ⟨⟨hj, hh⟩, h⟩ := h
      cases h
      exact .call k p _ hx rfl hj hh
    · cases h
  | rpcExec k p =>
    simp only [step] at h
    split at h
    · next q i j hx =>
      obtain ⟨domain, hdom, h⟩ := Option.bind_eq_some_iff.mp h
      obtain ⟨z, hz, h⟩ := Option.bind_eq_some_iff.mp h
      dsimp only at h
      split at h
      · next hnone =>
        cases h
        exact .rpcFatal k p _ domain hx rfl hdom hnone
      · obtain ⟨u, hu, rfl⟩ := Option.map_eq_some_iff.mp h
        exact .rpcExec k p _ domain z u hx rfl hdom hz hu
    · cases h
  | rpcComplete k p =>
    simp only [step] at h
    split at h
    · next q i j copy hx =>
      obtain ⟨domain, hdom, h⟩ := Option.bind_eq_some_iff.mp h
      simp only [Option.ite_none_right_eq_some, Bool.and_eq_true, Bool.not_eq_true'] at h
      obtain ⟨⟨hc, hh⟩, h⟩ := h
      obtain ⟨ret, hret, rfl⟩ := Option.map_eq_some_iff.mp h
      exact .rpcComplete k p _ domain copy ret hx rfl hdom hc hh hret
    · cases h
  | output k p =>
    simp only [step] at h
    split at h
    · next q i j ret hx =>
      obtain ⟨u, hu, rfl⟩ := Option.map_eq_some_iff.mp h
      exact .output k p _ ret u hx rfl hu
    · cases h
  | replicateEnd k p =>
    simp only [step] at h
    split at h
    · next q i j hx =>
      simp only [replicateEnd, Option.ite_none_right_eq_some] at h
      obtain ⟨hall, h⟩ := h
      obtain ⟨u, hu, rfl⟩ := Option.map_eq_some_iff.mp h
      exact .replicateEnd k p _ u hx rfl hall hu
    · cases h
  | completeOrig k p =>
    simp only [step] at h
    split at h
    · next q i j hx =>
      obtain ⟨u, hu, rfl⟩ := Option.map_eq_some_iff.mp h
      exact .completeOrig k p _ u hx rfl hu
    · cases h
  | completePush k p =>
    simp only [step] at h
    split at h
    · next q i j hx =>
      obtain ⟨u, hu, rfl⟩ := Option.map_eq_some_iff.mp h
      exact .completePush k p _ u hx rfl hu
    · cases h

end HermesRun.RemoteQueue
