import HermesRun.Worker.Group
import HermesRun.Lib.Runs
import HermesRun.Lib.ScannedFifo

/-!
The polling of one node. Each worker goes through a lane with `PollGrouped`; its loop body is cut
into `scan` (up to the call of the handler), `put` (one `Emplace` made by the handler or by
`Disperse`), `registry` (the handler creates or destroys a task state) and `finish` (the handler has
returned or yielded). Producers and other threads act between these. What a handler does is
chosen by the labels. The log, newest event first, and the instance numbers are history only.
-/

namespace HermesRun.Poll

open Bitfield

abbrev WorkerId := ℕ

structure LaneRef where
  queue : QueueId
  prio : ℕ
  laneId : UInt32
  deriving DecidableEq, Repr

abbrev LaneData := ScannedFifo.Entry

structure Config (α : Type) where
  numHosts : ℕ
  nodeId : NodeId
  lib : TaskStateId → TaskLib α
  owner : LaneRef → WorkerId
  depth : LaneRef → ℕ
  numLanes : QueueId → ℕ → UInt32
  remoteQueue : TaskStateId
  /-- Whether `HELOG(kFatal)` logs and returns instead of ending the process. -/
  fatalReturns : Bool

def Config.laneFor {α : Type} (cfg : Config α) (q : QueueId) (prio : ℕ) (hash : UInt32) : LaneRef :=
  ⟨q, prio, hash % cfg.numLanes q prio⟩

structure Admission where
  worker : WorkerId
  task : TaskPtr
  lane : LaneRef
  key : Charbuf
  bytes : Charbuf
  root : TaskId
  deriving DecidableEq, Repr

inductive Event where
  | enqueue (l : LaneRef) (p : TaskPtr)
  | deref (p : TaskPtr)
  | admitted (a : Admission)
  | begin (p : TaskPtr) (e : Instance)
  | hold (p : TaskPtr) (e : Instance)
  | stackAlloc (p : TaskPtr)
  | stackFree (p : TaskPtr)
  | threadJoin (p : TaskPtr)
  | complete (p : TaskPtr)
  | release (w : WorkerId) (p : TaskPtr)
  | depthZero (w : WorkerId) (p : TaskPtr)
  | endTask (p : TaskPtr)
  | pop (l : LaneRef) (p : TaskPtr)
  | free (p : TaskPtr)
  deriving DecidableEq, Repr

def Event.isCleanup : Event → Bool
  | .pop _ _ => true
  | .free _ => true
  | .complete _ => true
  | .stackFree _ => true
  | .threadJoin _ => true
  | _ => false

inductive Mode where
  | skip
  | disperse
  | resume
  | spawn
  | call
  deriving DecidableEq, Repr

def Mode.runs : Mode → Bool
  | .resume | .call => true
  | _ => false

structure Running (α : Type) where
  task : TaskPtr
  exec : Instance
  isRemote : Bool
  mode : Mode
  emplaces : List (LaneRef × Task α)
  blocked : Bool

structure Cursor (α : Type) where
  lane : LaneRef
  i : ℕ
  off : ℕ
  running : Option (Running α)

structure Worker (α : Type) where
  groups : Groups
  cursor : Option (Cursor α)

structure State (α : Type) where
  mem : TaskPtr → Task α
  next : TaskPtr
  lanes : LaneRef → List LaneData
  workers : WorkerId → Worker α
  taskStates : TaskStateId → Option ℕ
  nextInstance : ℕ
  log : List Event
  halted : Bool

inductive RegistryOp where
  | create (id : TaskStateId)
  | destroy (id : TaskStateId)
  deriving DecidableEq, Repr

inductive Label (α : Type) where
  | emplace (l : LaneRef) (t : Task α)
  | poll (w : WorkerId) (l : LaneRef)
  | scan (w : WorkerId) (es : List (LaneRef × Task α))
  | put (w : WorkerId)
  | registry (w : WorkerId) (op : RegistryOp)
  | finish (w : WorkerId) (t : Task α)
  | write (p : TaskPtr) (t : Task α)

namespace State

variable {α : Type} (s : State α)

def init (mem : TaskPtr → Task α) (registered : TaskStateId → Bool) : State α where
  mem := mem
  next := 0
  lanes := fun _ => []
  workers := fun _ => ⟨Groups.empty, none⟩
  taskStates := fun id => if registered id then some 0 else none
  nextInstance := 1
  log := []
  halted := false

def emit (e : Event) : State α := { s with log := e :: s.log }

def setTask (p : TaskPtr) (t : Task α) : State α := { s with mem := Function.update s.mem p t }

def setCursor (w : WorkerId) (c : Option (Cursor α)) : State α :=
  { s with workers := Function.update s.workers w { s.workers w with cursor := c } }

def setGroups (w : WorkerId) (g : Groups) : State α :=
  { s with workers := Function.update s.workers w { s.workers w with groups := g } }

def emplace (l : LaneRef) (t : Task α) : State α :=
  let s' := { s with
    mem := Function.update s.mem s.next t
    next := s.next + 1
    lanes := Function.update s.lanes l (s.lanes l ++ [⟨s.next, false⟩])
    log := .enqueue l s.next :: s.log }
  match t.body with
  | .own _ => s'
  | .push i => s'.emit (.hold s.next i.exec)

def markComplete (c : Cursor α) (p : TaskPtr) : State α :=
  { s with
    lanes := Function.update s.lanes c.lane ((s.lanes c.lane).set c.off ⟨p, true⟩)
    log := .complete p :: s.log }

def cleanup (c : Cursor α) (p : TaskPtr) (t : Task α) : State α :=
  let s := s.markComplete c p
  if t.isCoroutine then s.emit (.stackFree p)
  else if t.isPreemptive then s.emit (.threadJoin p) else s

def popHead (l : LaneRef) : State α :=
  match s.lanes l with
  | [] => s
  | e :: rest => { s with lanes := Function.update s.lanes l rest, log := .pop l e.p :: s.log }

def popTask (c : Cursor α) : State α × Cursor α :=
  if c.off = 0 then (s.popHead c.lane, c) else (s, { c with off := c.off + 1 })

def endTask (c : Cursor α) (p : TaskPtr) (hasExec : Bool) : State α × Cursor α :=
  let r := (s.emit (.endTask p)).popTask c
  if hasExec && (r.1.mem p).isFireAndForget then (r.1.emit (.free p), r.2)
  else (r.1.setTask p (r.1.mem p).setComplete, r.2)

def nextPass (w : WorkerId) (c : Cursor α) : State α :=
  s.setCursor w (some { c with i := c.i + 1, running := none })

def enter (w : WorkerId) (c : Cursor α) (r : Running α) : State α :=
  s.setCursor w (some { c with running := some r })

section Fields

variable (l : LaneRef) (t : Task α) (c : Cursor α) (p : TaskPtr) (w : WorkerId)

@[simp] theorem emplace_mem : (s.emplace l t).mem = Function.update s.mem s.next t := by
  unfold emplace
  split <;> rfl

@[simp] theorem emplace_next : (s.emplace l t).next = s.next + 1 := by
  unfold emplace
  split <;> rfl

@[simp] theorem emplace_lanes :
    (s.emplace l t).lanes = Function.update s.lanes l (s.lanes l ++ [⟨s.next, false⟩]) := by
  unfold emplace
  split <;> rfl

@[simp] theorem emplace_workers : (s.emplace l t).workers = s.workers := by
  unfold emplace
  split <;> rfl

@[simp] theorem emplace_taskStates : (s.emplace l t).taskStates = s.taskStates := by
  unfold emplace
  split <;> rfl

def emplaceEvents : List Event :=
  (match t.body with
    | .own _ => []
    | .push i => [.hold s.next i.exec]) ++ [.enqueue l s.next]

theorem emplace_log : (s.emplace l t).log = s.emplaceEvents l t ++ s.log := by
  unfold emplace emplaceEvents
  cases t.body <;> rfl

@[simp] theorem cleanup_mem : (s.cleanup c p t).mem = s.mem := by
  unfold cleanup
  dsimp only
  split_ifs <;> rfl

@[simp] theorem cleanup_workers : (s.cleanup c p t).workers = s.workers := by
  unfold cleanup
  dsimp only
  split_ifs <;> rfl

@[simp] theorem cleanup_taskStates : (s.cleanup c p t).taskStates = s.taskStates := by
  unfold cleanup
  dsimp only
  split_ifs <;> rfl

@[simp] theorem cleanup_lanes : (s.cleanup c p t).lanes = (s.markComplete c p).lanes := by
  unfold cleanup
  dsimp only
  split_ifs <;> rfl

theorem cleanup_log : ∃ evs, (s.cleanup c p t).log = evs ++ s.log ∧ ∀ e ∈ evs, e.isCleanup = true := by
  unfold cleanup
  dsimp only
  split_ifs
  · exact ⟨[_, _], rfl, by simp [Event.isCleanup]⟩
  · exact ⟨[_, _], rfl, by simp [Event.isCleanup]⟩
  · exact ⟨[_], rfl, by simp [Event.isCleanup]⟩

@[simp] theorem popHead_mem : (s.popHead l).mem = s.mem := by
  unfold popHead
  split <;> rfl

@[simp] theorem popHead_next : (s.popHead l).next = s.next := by
  unfold popHead
  split <;> rfl

@[simp] theorem popHead_workers : (s.popHead l).workers = s.workers := by
  unfold popHead
  split <;> rfl

@[simp] theorem popHead_taskStates : (s.popHead l).taskStates = s.taskStates := by
  unfold popHead
  split <;> rfl

theorem popHead_log : ∃ evs, (s.popHead l).log = evs ++ s.log ∧ ∀ e ∈ evs, e.isCleanup = true := by
  unfold popHead
  split
  · exact ⟨[], rfl, by simp⟩
  · exact ⟨[_], rfl, by simp [Event.isCleanup]⟩

@[simp] theorem popTask_mem : (s.popTask c).1.mem = s.mem := by
  unfold popTask
  split <;> simp

@[simp] theorem popTask_next : (s.popTask c).1.next = s.next := by
  unfold popTask
  split <;> simp

@[simp] theorem popTask_workers : (s.popTask c).1.workers = s.workers := by
  unfold popTask
  split <;> simp

@[simp] theorem popTask_taskStates : (s.popTask c).1.taskStates = s.taskStates := by
  unfold popTask
  split <;> simp

theorem popTask_log : ∃ evs, (s.popTask c).1.log = evs ++ s.log ∧ ∀ e ∈ evs, e.isCleanup = true := by
  unfold popTask
  split
  · exact s.popHead_log c.lane
  · exact ⟨[], rfl, by simp⟩

theorem endTask_mem {q : TaskPtr} (b : Bool) (hq : q ≠ p) : (s.endTask c p b).1.mem q = s.mem q := by
  unfold endTask
  dsimp only
  split
  · simp [emit]
  · simp [emit, setTask, hq]

@[simp] theorem endTask_workers (b : Bool) : (s.endTask c p b).1.workers = s.workers := by
  unfold endTask
  dsimp only
  split <;> simp [emit, setTask]

@[simp] theorem endTask_taskStates (b : Bool) : (s.endTask c p b).1.taskStates = s.taskStates := by
  unfold endTask
  dsimp only
  split <;> simp [emit, setTask]

theorem endTask_log (b : Bool) : ∃ evs, (s.endTask c p b).1.log = evs ++ .endTask p :: s.log ∧
    ∀ e ∈ evs, e.isCleanup = true := by
  obtain ⟨evs, hlog, hevs⟩ := (s.emit (.endTask p)).popTask_log c
  unfold endTask
  dsimp only
  split
  · refine ⟨.free p :: evs, ?_, ?_⟩
    · simp only [emit] at hlog ⊢
      rw [hlog, List.cons_append]
    · intro e he
      rcases List.mem_cons.mp he with rfl | he
      · rfl
      · exact hevs e he
  · exact ⟨evs, hlog, hevs⟩

end Fields

end State

variable {α : Type} (cfg : Config α)

def pushTask (t : Task α) (p : TaskPtr) (exec : Instance) : Task α where
  taskState := cfg.remoteQueue
  taskNode := t.taskNode.add 1
  domainId := DomainId.getLocal
  prio := TaskPrio.kLowLatency
  laneHash := 0
  method := TaskMethod.kLast
  taskFlags := setBits 0#32 (taskLowLatency ||| taskPreemptive ||| taskRemoteDebugMark)
  body := .push ⟨resolveDomainId cfg.numHosts t.domainId, p, exec, t.method⟩

def replicateStart (exec : Instance) (t : Task α) : Task α :=
  match t.body with
  | .own a => { t with body := .own ((cfg.lib exec.id).replicateStart t.method
      (resolveDomainId cfg.numHosts t.domainId).length a) }
  | .push _ => t

def isRemote (t : Task α) : Bool := t.domainId.isRemote cfg.numHosts cfg.nodeId

structure Execution (α : Type) where
  task : Task α
  mode : Mode
  emplaces : List (LaneRef × Task α)
  events : List Event

def execute (t : Task α) (p : TaskPtr) (exec : Instance) (es : List (LaneRef × Task α)) : Execution α :=
  if isRemote cfg t then
    ⟨replicateStart cfg exec t, .disperse,
      [(cfg.laneFor cfg.remoteQueue t.prio t.laneHash, pushTask cfg t p exec)], []⟩
  else if t.isCoroutine then
    if t.isStarted then ⟨t, .resume, es, []⟩ else ⟨t.setStarted, .resume, es, [.stackAlloc p]⟩
  else if t.isPreemptive then ⟨t.disableRun, .spawn, [], []⟩
  else ⟨t.setStarted, .call, es, []⟩

/-- The admission that `CheckTaskGroup` makes when it returns true. -/
def admission (g : Groups) (w : WorkerId) (l : LaneRef) (p : TaskPtr) (exec : Instance) (t : Task α) :
    List Event :=
  if !isRemote cfg t && !t.isStarted && Groups.isOrdered (cfg.lib exec.id) t then
    let bytes := g.groupBytes (cfg.lib exec.id) t
    [.admitted ⟨w, p, l, Groups.laneKey bytes l.laneId, bytes, t.taskNode.root⟩]
  else []

def attempt (s : State α) (w : WorkerId) (c : Cursor α) (p : TaskPtr) (exec : Instance)
    (es : List (LaneRef × Task α)) : State α :=
  let t := s.mem p
  let g := (s.workers w).groups
  let skip : Running α := ⟨p, exec, isRemote cfg t, .skip, [], false⟩
  if t.isRunDisabled then s.enter w c skip
  else
    let check := g.checkTaskGroup (cfg.lib exec.id) t c.lane.laneId (isRemote cfg t)
    if check.1 then
      let e := execute cfg t p exec es
      let log := e.events ++ (admission cfg g w c.lane p exec t ++ .begin p exec :: s.log)
      (({ s with log := log }.setGroups w check.2).setTask p e.task).enter w c
        ⟨p, exec, isRemote cfg t, e.mode, e.emplaces, false⟩
    else (s.setGroups w check.2).enter w c skip

def scan (s : State α) (w : WorkerId) (c : Cursor α) (es : List (LaneRef × Task α)) : State α :=
  if 1024 ≤ c.i then s.setCursor w none
  else match (s.lanes c.lane)[c.off]? with
  | none => s.setCursor w none
  | some entry =>
    if entry.complete then
      let r := s.popTask c
      r.1.nextPass w r.2
    else
      let s := s.emit (.deref entry.p)
      match s.taskStates (s.mem entry.p).taskState with
      | none =>
        if cfg.fatalReturns then
          let r := (s.markComplete c entry.p).endTask c entry.p false
          r.1.nextPass w r.2
        else { s with halted := true }
      | some gen => attempt cfg s w c entry.p ⟨(s.mem entry.p).taskState, gen⟩ es

def ranTask (r : Running α) (t out : Task α) : Task α :=
  match r.mode with
  | .disperse => t.disableRun.setUnordered.unsetCoroutine
  | .resume | .call => out
  | .skip | .spawn => t

def finish (s : State α) (w : WorkerId) (c : Cursor α) (r : Running α) (out : Task α) : State α :=
  let t := ranTask r (s.mem r.task) out
  let s := s.setTask r.task t
  if t.isModuleComplete then
    let s := s.cleanup c r.task t
    let rm := (s.workers w).groups.removeTaskGroup (cfg.lib r.exec.id) t c.lane.laneId r.isRemote
    if rm.1 && !cfg.fatalReturns then { s.emit (.depthZero w r.task) with halted := true }
    else
      let e := ((s.setGroups w rm.2).emit (.release w r.task)).endTask c r.task true
      e.1.nextPass w e.2
  else s.nextPass w { c with off := c.off + 1 }

theorem mem_execute_emplaces {t : Task α} {p : TaskPtr} {exec : Instance} {es : List (LaneRef × Task α)}
    {e : LaneRef × Task α} (he : e ∈ (execute cfg t p exec es).emplaces) : e.2 = pushTask cfg t p exec ∨ e ∈ es := by
  unfold execute at he
  split_ifs at he
  · exact Or.inl (congrArg Prod.snd (List.mem_singleton.mp he))
  · exact Or.inr he
  · exact Or.inr he
  · cases he
  · exact Or.inr he

theorem ranTask_cases (r : Running α) (t out : Task α) : r.mode.runs = true ∧ ranTask r t out = out ∨
    r.mode.runs = false ∧ ranTask r t out = t ∨
    r.mode = .disperse ∧ ranTask r t out = t.disableRun.setUnordered.unsetCoroutine := by
  unfold ranTask
  cases r.mode with
  | disperse => exact Or.inr (Or.inr ⟨rfl, rfl⟩)
  | resume | call => exact Or.inl ⟨rfl, rfl⟩
  | skip | spawn => exact Or.inr (Or.inl ⟨rfl, rfl⟩)

theorem ranTask_runs {r : Running α} (h : r.mode.runs = true) (t out : Task α) : ranTask r t out = out := by
  rcases ranTask_cases r t out with ⟨-, heq⟩ | ⟨hidle, -⟩ | ⟨hm, -⟩
  · exact heq
  · rw [h] at hidle
    cases hidle
  · rw [hm] at h
    cases h

def attemptEvents (s : State α) (w : WorkerId) (c : Cursor α) (p : TaskPtr) (exec : Instance)
    (es : List (LaneRef × Task α)) : List Event :=
  (execute cfg (s.mem p) p exec es).events ++
    (admission cfg (s.workers w).groups w c.lane p exec (s.mem p) ++ [.begin p exec])

theorem mem_attemptEvents {s : State α} {w : WorkerId} {c : Cursor α} {p : TaskPtr} {exec : Instance}
    {es : List (LaneRef × Task α)} {e : Event} (h : e ∈ attemptEvents cfg s w c p exec es) :
    e = .stackAlloc p ∨ (∃ a, e = .admitted a) ∨ e = .begin p exec := by
  simp only [attemptEvents, List.mem_append, List.mem_singleton] at h
  rcases h with h | h | h
  · left
    unfold execute at h
    split_ifs at h <;> simp at h
    exact h
  · right
    left
    unfold admission at h
    split_ifs at h
    · exact ⟨_, List.mem_singleton.mp h⟩
    · simp at h
  · exact Or.inr (Or.inr h)

inductive AttemptCase (s : State α) (w : WorkerId) (c : Cursor α) (p : TaskPtr) (exec : Instance)
    (es : List (LaneRef × Task α)) : State α → Prop
  | skip (g : Groups) (hg : g.groupMap = (s.workers w).groups.groupMap)
      (h : (s.mem p).isRunDisabled = true ∨ ((s.workers w).groups.checkTaskGroup (cfg.lib exec.id) (s.mem p)
        c.lane.laneId (isRemote cfg (s.mem p))).1 = false) :
      AttemptCase s w c p exec es ((s.setGroups w g).enter w c ⟨p, exec, isRemote cfg (s.mem p), .skip, [], false⟩)
  | run (hd : (s.mem p).isRunDisabled = false)
      (hc : ((s.workers w).groups.checkTaskGroup (cfg.lib exec.id) (s.mem p) c.lane.laneId
        (isRemote cfg (s.mem p))).1 = true) :
      AttemptCase s w c p exec es
        (({ s with log := attemptEvents cfg s w c p exec es ++ s.log }.setGroups w
          ((s.workers w).groups.checkTaskGroup (cfg.lib exec.id) (s.mem p) c.lane.laneId
            (isRemote cfg (s.mem p))).2).setTask p (execute cfg (s.mem p) p exec es).task |>.enter w c
          ⟨p, exec, isRemote cfg (s.mem p), (execute cfg (s.mem p) p exec es).mode,
            (execute cfg (s.mem p) p exec es).emplaces, false⟩)

theorem attempt_cases (s : State α) (w : WorkerId) (c : Cursor α) (p : TaskPtr) (exec : Instance)
    (es : List (LaneRef × Task α)) : AttemptCase cfg s w c p exec es (attempt cfg s w c p exec es) := by
  have hlog : (execute cfg (s.mem p) p exec es).events ++
      (admission cfg (s.workers w).groups w c.lane p exec (s.mem p) ++ .begin p exec :: s.log) =
      attemptEvents cfg s w c p exec es ++ s.log := by
    simp only [attemptEvents, List.append_assoc, List.singleton_append]
  unfold attempt
  dsimp only
  split
  · next hd =>
    have hskip : AttemptCase cfg s w c p exec es _ := .skip (s.workers w).groups rfl (Or.inl hd)
    simpa [State.setGroups] using hskip
  · next hd =>
    rw [Bool.not_eq_true] at hd
    split
    · next hc =>
      rw [hlog]
      exact .run hd hc
    · next hc =>
      rw [Bool.not_eq_true] at hc
      exact .skip _ (Groups.checkTaskGroup_unchanged (Or.inr (Or.inr (Or.inr hc)))) (Or.inr hc)

inductive ScanCase (s : State α) (w : WorkerId) (c : Cursor α) (es : List (LaneRef × Task α)) : State α → Prop
  | stop : ScanCase s w c es (s.setCursor w none)
  | passOver (p : TaskPtr) (hp : (s.lanes c.lane)[c.off]? = some ⟨p, true⟩) :
      ScanCase s w c es ((s.popTask c).1.nextPass w (s.popTask c).2)
  | fatalReturn (p : TaskPtr) (hp : (s.lanes c.lane)[c.off]? = some ⟨p, false⟩)
      (hf : cfg.fatalReturns = true) (u : State α) (hu : u = (s.emit (.deref p)).markComplete c p) :
      ScanCase s w c es ((u.endTask c p false).1.nextPass w (u.endTask c p false).2)
  | fatal (p : TaskPtr) (hp : (s.lanes c.lane)[c.off]? = some ⟨p, false⟩)
      (hf : cfg.fatalReturns = false) : ScanCase s w c es { s.emit (.deref p) with halted := true }
  | attempt (p : TaskPtr) (gen : ℕ) (hp : (s.lanes c.lane)[c.off]? = some ⟨p, false⟩)
      (hgen : s.taskStates (s.mem p).taskState = some gen) :
      ScanCase s w c es (attempt cfg (s.emit (.deref p)) w c p ⟨(s.mem p).taskState, gen⟩ es)

theorem scan_cases (s : State α) (w : WorkerId) (c : Cursor α) (es : List (LaneRef × Task α)) :
    ScanCase cfg s w c es (scan cfg s w c es) := by
  unfold scan
  by_cases hi : 1024 ≤ c.i
  · rw [if_pos hi]
    exact .stop
  rw [if_neg hi]
  cases hentry : (s.lanes c.lane)[c.off]? with
  | none => exact .stop
  | some entry =>
    obtain ⟨p, complete⟩ := entry
    cases complete with
    | true => exact .passOver p hentry
    | false =>
      simp only [Bool.false_eq_true, if_false]
      cases hgen : (s.emit (.deref p)).taskStates ((s.emit (.deref p)).mem p).taskState with
      | none =>
        cases hf : cfg.fatalReturns with
        | true => exact .fatalReturn p hentry hf _ rfl
        | false => exact .fatal p hentry hf
      | some gen => exact .attempt p gen hentry hgen

inductive FinishCase (s : State α) (w : WorkerId) (c : Cursor α) (r : Running α) (x : Task α) : State α → Prop
  | again (hm : x.isModuleComplete = false) :
      FinishCase s w c r x ((s.setTask r.task x).nextPass w { c with off := c.off + 1 })
  | fatal (hm : x.isModuleComplete = true) (u : State α) (hu : u = (s.setTask r.task x).cleanup c r.task x)
      (hz : ((s.workers w).groups.removeTaskGroup (cfg.lib r.exec.id) x c.lane.laneId r.isRemote).1 = true) :
      FinishCase s w c r x { u.emit (.depthZero w r.task) with halted := true }
  | done (hm : x.isModuleComplete = true) (u v : State α) (hu : u = (s.setTask r.task x).cleanup c r.task x)
      (hv : v = (u.setGroups w ((s.workers w).groups.removeTaskGroup (cfg.lib r.exec.id) x c.lane.laneId
        r.isRemote).2).emit (.release w r.task)) :
      FinishCase s w c r x ((v.endTask c r.task true).1.nextPass w (v.endTask c r.task true).2)

theorem finish_cases (s : State α) (w : WorkerId) (c : Cursor α) (r : Running α) (out : Task α) :
    FinishCase cfg s w c r (ranTask r (s.mem r.task) out) (finish cfg s w c r out) := by
  have hw (x : Task α) : ((s.setTask r.task x).cleanup c r.task x).workers = s.workers := by
    rw [State.cleanup_workers]
    rfl
  unfold finish
  dsimp only
  split
  · next hm =>
    split
    · next hz =>
      rw [hw, Bool.and_eq_true] at hz
      exact .fatal hm _ rfl hz.1
    · rw [hw]
      exact .done hm _ _ rfl rfl
  · next hm => exact .again (by simpa using hm)

def registryOp (s : State α) : RegistryOp → State α
  | .create id => match s.taskStates id with
    | none => { s with
        taskStates := Function.update s.taskStates id (some s.nextInstance)
        nextInstance := s.nextInstance + 1 }
    | some _ => s
  | .destroy id => { s with taskStates := Function.update s.taskStates id none }

theorem registryOp_eq (s : State α) (op : RegistryOp) :
    ∃ states next, registryOp s op = { s with taskStates := states, nextInstance := next } := by
  cases op with
  | create id =>
    cases hid : s.taskStates id with
    | none => exact ⟨_, _, by rw [registryOp, hid]⟩
    | some gen => exact ⟨s.taskStates, s.nextInstance, by rw [registryOp, hid]⟩
  | destroy id => exact ⟨_, s.nextInstance, rfl⟩

def hasRoom (s : State α) (l : LaneRef) : Bool := (s.lanes l).length < cfg.depth l

def isOwn (t : Task α) : Bool := t.body.pushInfo.isNone

def step (s : State α) (label : Label α) : Option (State α) :=
  if s.halted then none
  else match label with
  | .emplace l t => if hasRoom cfg s l && isOwn t then some (s.emplace l t) else none
  | .poll w l =>
    if (s.workers w).cursor.isNone && cfg.owner l == w then
      some (s.setCursor w (some ⟨l, 0, 0, none⟩))
    else none
  | .scan w es => match (s.workers w).cursor with
    | some ⟨l, i, off, none⟩ =>
      if es.all (fun e => isOwn e.2) then some (scan cfg s w ⟨l, i, off, none⟩ es) else none
    | _ => none
  | .put w => match (s.workers w).cursor with
    | some ⟨l, i, off, some ⟨p, exec, remote, mode, (dst, t) :: es, _⟩⟩ =>
      if hasRoom cfg s dst then
        some ((s.emplace dst t).enter w ⟨l, i, off, none⟩ ⟨p, exec, remote, mode, es, false⟩)
      else some (s.enter w ⟨l, i, off, none⟩ ⟨p, exec, remote, mode, (dst, t) :: es, true⟩)
    | _ => none
  | .registry w op => match (s.workers w).cursor with
    | some ⟨_, _, _, some r⟩ => if r.mode.runs then some (registryOp s op) else none
    | _ => none
  | .finish w out => match (s.workers w).cursor with
    | some ⟨l, i, off, some ⟨p, exec, remote, mode, [], b⟩⟩ =>
      if out.body.pushInfo = (s.mem p).body.pushInfo then
        some (finish cfg s w ⟨l, i, off, none⟩ ⟨p, exec, remote, mode, [], b⟩ out)
      else none
    | _ => none
  | .write p t =>
    if p < s.next ∧ t.body.pushInfo = (s.mem p).body.pushInfo then some (s.setTask p t) else none

inductive Transition (s : State α) : Label α → State α → Prop
  | emplace (l : LaneRef) (t : Task α) (hroom : hasRoom cfg s l = true) (hown : isOwn t = true) :
      Transition s (.emplace l t) (s.emplace l t)
  | poll (w : WorkerId) (l : LaneRef) (hc : (s.workers w).cursor = none) (ho : cfg.owner l = w) :
      Transition s (.poll w l) (s.setCursor w (some ⟨l, 0, 0, none⟩))
  | scan (w : WorkerId) (es : List (LaneRef × Task α)) (l : LaneRef) (i off : ℕ)
      (hc : (s.workers w).cursor = some ⟨l, i, off, none⟩) (hes : es.all (fun e => isOwn e.2) = true) :
      Transition s (.scan w es) (scan cfg s w ⟨l, i, off, none⟩ es)
  | put (w : WorkerId) (l : LaneRef) (i off : ℕ) (p : TaskPtr) (exec : Instance) (remote : Bool)
      (mode : Mode) (dst : LaneRef) (t : Task α) (es : List (LaneRef × Task α)) (b : Bool)
      (hc : (s.workers w).cursor = some ⟨l, i, off, some ⟨p, exec, remote, mode, (dst, t) :: es, b⟩⟩)
      (hroom : hasRoom cfg s dst = true) :
      Transition s (.put w)
        ((s.emplace dst t).enter w ⟨l, i, off, none⟩ ⟨p, exec, remote, mode, es, false⟩)
  | block (w : WorkerId) (l : LaneRef) (i off : ℕ) (p : TaskPtr) (exec : Instance) (remote : Bool)
      (mode : Mode) (dst : LaneRef) (t : Task α) (es : List (LaneRef × Task α)) (b : Bool)
      (hc : (s.workers w).cursor = some ⟨l, i, off, some ⟨p, exec, remote, mode, (dst, t) :: es, b⟩⟩)
      (hfull : hasRoom cfg s dst = false) :
      Transition s (.put w) (s.enter w ⟨l, i, off, none⟩ ⟨p, exec, remote, mode, (dst, t) :: es, true⟩)
  | registry (w : WorkerId) (op : RegistryOp) (l : LaneRef) (i off : ℕ) (r : Running α)
      (hc : (s.workers w).cursor = some ⟨l, i, off, some r⟩) (hr : r.mode.runs = true) :
      Transition s (.registry w op) (registryOp s op)
  | finish (w : WorkerId) (out : Task α) (l : LaneRef) (i off : ℕ) (r : Running α)
      (hc : (s.workers w).cursor = some ⟨l, i, off, some r⟩) (hes : r.emplaces = [])
      (hout : out.body.pushInfo = (s.mem r.task).body.pushInfo) :
      Transition s (.finish w out) (finish cfg s w ⟨l, i, off, none⟩ r out)
  | write (p : TaskPtr) (t : Task α) (hp : p < s.next)
      (ht : t.body.pushInfo = (s.mem p).body.pushInfo) : Transition s (.write p t) (s.setTask p t)

variable {cfg}

theorem step_transition {s t : State α} {i : Label α} (h : step cfg s i = some t) :
    s.halted = false ∧ Transition cfg s i t := by
  unfold step at h
  by_cases hh : s.halted = true
  · rw [if_pos hh] at h
    cases h
  rw [if_neg hh] at h
  refine ⟨by simpa using hh, ?_⟩
  cases i with
  | emplace l tk =>
    simp only [Option.ite_none_right_eq_some, Bool.and_eq_true, Option.some.injEq] at h
    obtain ⟨⟨hroom, hown⟩, rfl⟩ := h
    exact .emplace l tk hroom hown
  | poll w l =>
    simp only [Option.ite_none_right_eq_some, Bool.and_eq_true, Option.some.injEq, Option.isNone_iff_eq_none,
      beq_iff_eq] at h
    obtain ⟨⟨hc, ho⟩, rfl⟩ := h
    exact .poll w l hc ho
  | scan w es =>
    dsimp only at h
    split at h
    · next l i off hc =>
      simp only [Option.ite_none_right_eq_some, Option.some.injEq] at h
      obtain ⟨hes, rfl⟩ := h
      exact .scan w es l i off hc hes
    · cases h
  | put w =>
    dsimp only at h
    split at h
    · next l i off p exec remote mode dst tk es b hc =>
      split at h
      · next hroom =>
        cases h
        exact .put w l i off p exec remote mode dst tk es b hc hroom
      · next hfull =>
        cases h
        exact .block w l i off p exec remote mode dst tk es b hc (by simpa using hfull)
    · cases h
  | registry w op =>
    dsimp only at h
    split at h
    · next l i off r hc =>
      simp only [Option.ite_none_right_eq_some, Option.some.injEq] at h
      obtain ⟨hr, rfl⟩ := h
      exact .registry w op l i off r hc hr
    · cases h
  | finish w out =>
    dsimp only at h
    split at h
    · next l i off p exec remote mode b hc =>
      simp only [Option.ite_none_right_eq_some, Option.some.injEq] at h
      obtain ⟨hout, rfl⟩ := h
      exact .finish w out l i off ⟨p, exec, remote, mode, [], b⟩ hc rfl hout
    · cases h
  | write p tk =>
    simp only [Option.ite_none_right_eq_some, Option.some.injEq] at h
    obtain ⟨⟨hp, ht⟩, rfl⟩ := h
    exact .write p tk hp ht

end HermesRun.Poll
