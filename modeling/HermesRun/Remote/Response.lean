import HermesRun.Remote.Serialize

namespace HermesRun.Response

open Archive Network

/-- A local variable, which starts without a value. -/
inductive Var (β : Type) where
  | unset
  | set (x : β)
  deriving DecidableEq

/-- A pointer may be null or, copied from a variable without a value, anything. -/
abbrev Ptr (β : Type) := Var (Option β)

def Ptr.valid {β : Type} : Ptr β → Bool
  | .set (some _) => true
  | _ => false

/-- A case of `LoadStart`. Of a `TF_LOCAL` type the archive reads nothing. -/
inductive LoadCase (Ty : Type) where
  | srl (T : TaskType Ty)
  | tfLocal

def LoadCase.type? {Ty : Type} : LoadCase Ty → Option (TaskType Ty)
  | .srl T => some T
  | .tfLocal => none

variable {Ty E : Type} {V : Ty → Type}

inductive Event (V : Ty → Type) (E : Type) where
  | ioCallServer (ioType : IoType)
  | respond (ret : List UInt8)
  | useTask (origTask : Ptr (Task (Fields V)))
  | useExec (exec : Ptr E)

structure Frame (V : Ty → Type) (E : Type) where
  origTask : Ptr (Task (Fields V))
  exec : Ptr E
  events : List (Event V E)

/-- The node that is called. `memory` is what a new task holds before anything is written to it, `wait` what the
workers have made of a task when it is complete, and `lives` has the states that no `DestroyTaskState` deletes while
the RPC waits. -/
structure Env (V : Ty → Type) (E : Type) where
  cereal : Cereal V
  nodeId : NodeId
  taskStates : TaskStateId → Option E
  loads : E → ℕ → Option (LoadCase Ty)
  memory : Task (Fields V)
  saveEnd : Ptr E → ℕ → Ptr (Task (Fields V)) → List DataTransfer
  hasLane : TaskStateId → ℕ → Bool
  wait : Task (Fields V) → Option (Task (Fields V))
  lives : E → Bool
  buf : ∀ n, Vector UInt8 n

def Frame.init : Frame V E := ⟨.unset, .unset, []⟩

def Frame.log (f : Frame V E) (e : Event V E) : Frame V E := { f with events := f.events ++ [e] }

@[simp] theorem Frame.log_origTask (f : Frame V E) (e : Event V E) : (f.log e).origTask = f.origTask := rfl

variable (env : Env V E)

def LoadCase.loadStart (ar : Input DataTransfer) : LoadCase Ty → Option (Task (Fields V))
  | .srl T => Network.loadStart env.cereal T ar
  | .tfLocal => some env.memory

variable (goesOn : Bool)

/-- The flag says whether the call returns. Reading malformed parameters throws, and nothing catches it. -/
def rpcExec (stateId : TaskStateId) (method : ℕ) (params : DataTransfer) (xfer : List DataTransfer)
    (f : Frame V E) : Bool × Frame V E :=
  let f := { f with exec := .set (env.taskStates stateId) }
  match env.taskStates stateId with
  | none => (true, f.log (.respond []))
  | some exec => match env.loads exec method with
    -- without a case `LoadStart` returns a pointer that it has not set
    | none => (goesOn, { f with origTask := .set none }.log (.useTask (.set none)))
    | some T => match T.loadStart env ⟨xfer, 0, params.data⟩ with
      | none => (false, f)
      | some t =>
        let t := received env.nodeId t
        let f := { f with origTask := .set (some t) }.log (.useTask (.set (some t)))
        if env.hasLane stateId t.prio then
          match env.wait t with
          | none => (false, f)
          | some t => (true, { f with origTask := .set (some t) })
        else (false, f)

def returned : List DataTransfer → List UInt8
  | [] => []
  | out :: _ => if out.data.length > 0 then out.data else []

def Env.reaches : Ptr E → Bool
  | .set (some exec) => env.lives exec
  | _ => false

def rpcComplete (method : ℕ) (f : Frame V E) : Frame V E :=
  if env.reaches f.exec && f.origTask.valid || goesOn then
    ((f.log (.useExec f.exec)).log (.useTask f.origTask)).log
      (.respond (returned (env.saveEnd f.exec method f.origTask)))
  else (f.log (.useExec f.exec)).log (.useTask f.origTask)

def rpcPushSmall (stateId : TaskStateId) (method : ℕ) (params : List UInt8) : Frame V E :=
  let (returns, f) := rpcExec env goesOn stateId method (.ofData params) [.ofData params] .init
  if returns then rpcComplete env goesOn method f else f

def rpcPushBulk (stateId : TaskStateId) (method : ℕ) (params bulk : List UInt8) (dataSize : ℕ)
    (ioType : IoType) : Frame V E :=
  let data := match ioType with
    | .kWrite => bulk
    | _ => (env.buf dataSize).toList
  let f : Frame V E := if ioType = .kWrite then Frame.init.log (.ioCallServer ioType) else .init
  let (returns, f) := rpcExec env goesOn stateId method (.ofData params) [.ofData data, .ofData params] f
  if returns then rpcComplete env goesOn method (if ioType = .kRead then f.log (.ioCallServer ioType) else f) else f

def rpcPush : Rpc → Frame V E
  | .pushSmall stateId method params => rpcPushSmall env goesOn stateId method params
  | .pushBulk bulk stateId method params dataSize ioType =>
    rpcPushBulk env goesOn stateId method params bulk dataSize ioType

def Event.isRespond : Event V E → Bool
  | .respond _ => true
  | _ => false

def Event.usesSet : Event V E → Bool
  | .useTask origTask => origTask.valid
  | .useExec exec => exec.valid
  | _ => true

structure OneResponse (f : Frame V E) : Prop where
  respond : f.events.countP Event.isRespond = 1
  uses : ∀ e ∈ f.events, e.usesSet = true

/-- The process may end at the use of an invalid pointer, or go on with any result. -/
def Responds (rpc : Rpc) : Prop := ∀ goesOn, OneResponse (rpcPush env goesOn rpc)

def Served (stateId : TaskStateId) (method : ℕ) (params : DataTransfer) (xfer : List DataTransfer) : Prop :=
  ∃ exec T t, env.taskStates stateId = some exec ∧ env.loads exec method = some T ∧
    T.loadStart env ⟨xfer, 0, params.data⟩ = some t ∧ env.hasLane stateId t.prio = true ∧
    (env.wait (received env.nodeId t)).isSome = true ∧ env.lives exec = true

def ServedRpc : Rpc → Prop
  | .pushSmall stateId method params => Served env stateId method (.ofData params) [.ofData params]
  | .pushBulk bulk stateId method params dataSize ioType => Served env stateId method (.ofData params)
      [.ofData (match ioType with | .kWrite => bulk | _ => (env.buf dataSize).toList), .ofData params]

variable {env} {goesOn} {stateId : TaskStateId} {method : ℕ} {params : DataTransfer} {xfer : List DataTransfer}
  {f : Frame V E}

structure Clean (f : Frame V E) : Prop where
  respond : f.events.countP Event.isRespond = 0
  uses : ∀ e ∈ f.events, e.usesSet = true

theorem Clean.log (h : Clean f) {e : Event V E} (hr : e.isRespond = false) (hu : e.usesSet = true) :
    Clean (f.log e) where
  respond := by simp [Frame.log, List.countP_append, h.respond, hr]
  uses := by
    intro e' he'
    rcases List.mem_append.mp he' with he' | he'
    · exact h.uses e' he'
    · rw [List.mem_singleton.mp he']
      exact hu

variable (goesOn) in
theorem rpcExec_served (h : Served env stateId method params xfer) (hf : Clean f) : ∃ exec t g,
    rpcExec env goesOn stateId method params xfer f = (true, g) ∧ g.exec = .set (some exec) ∧
      g.origTask = .set (some t) ∧ env.lives exec = true ∧ Clean g := by
  obtain ⟨exec, T, t, hexec, hT, hload, hlane, hwait, hlives⟩ := h
  obtain ⟨t', ht'⟩ := Option.isSome_iff_exists.mp hwait
  have hlog : Clean (f.log (.useTask (.set (some (received env.nodeId t))))) := hf.log rfl rfl
  refine ⟨exec, t', ⟨.set (some t'), .set (some exec), _⟩, ?_, rfl, rfl, hlives, hlog.respond, hlog.uses⟩
  simp only [rpcExec, hexec, hT, hload]
  rw [if_pos (show env.hasLane stateId (received env.nodeId t).prio = true from hlane), ht']
  rfl

theorem rpcExec_unserved (h : ¬Served env stateId method params xfer) (hf : Clean f) (htask : f.origTask = .unset) :
    let r := rpcExec env false stateId method params xfer f
    r.1 = true ∧ r.2.origTask.valid = false ∨
      r.2.events.countP Event.isRespond = 0 ∧ (r.1 = true → env.reaches r.2.exec = false) := by
  cases hexec : env.taskStates stateId with
  | none =>
    left
    simp only [rpcExec, hexec, Frame.log_origTask, htask]
    exact ⟨trivial, rfl⟩
  | some exec =>
    right
    cases hT : env.loads exec method with
    | none =>
      simp only [rpcExec, hexec, hT]
      exact ⟨by simp [Frame.log, hf.respond, Event.isRespond], by simp⟩
    | some T =>
      cases hload : T.loadStart env ⟨xfer, 0, params.data⟩ with
      | none =>
        simp only [rpcExec, hexec, hT, hload]
        exact ⟨hf.respond, by simp⟩
      | some t =>
        have hcount : (f.log (.useTask (.set (some (received env.nodeId t))))).events.countP Event.isRespond = 0 :=
          (hf.log rfl rfl).respond
        have hprio : (received env.nodeId t).prio = t.prio := rfl
        cases hlane : env.hasLane stateId t.prio with
        | false =>
          simp only [rpcExec, hexec, hT, hload, hprio, hlane]
          exact ⟨hcount, by simp⟩
        | true =>
          cases hwait : env.wait (received env.nodeId t) with
          | none =>
            simp only [rpcExec, hexec, hT, hload, hprio, hlane, if_true, hwait]
            exact ⟨hcount, by simp⟩
          | some t' =>
            simp only [rpcExec, hexec, hT, hload, hprio, hlane, if_true, hwait]
            refine ⟨hcount, ?_⟩
            rintro -
            by_contra hlives
            rw [Bool.not_eq_false] at hlives
            exact h ⟨exec, T, t, hexec, hT, hload, hlane, by rw [hwait]; rfl, hlives⟩

theorem rpcComplete_valid {exec : E} {t : Task (Fields V)} (hexec : f.exec = .set (some exec))
    (htask : f.origTask = .set (some t)) (hlives : env.lives exec = true) (hf : Clean f) :
    OneResponse (rpcComplete env goesOn method f) := by
  have hclean : Clean ((f.log (.useExec f.exec)).log (.useTask f.origTask)) := by
    rw [hexec, htask]
    exact (hf.log rfl rfl).log rfl rfl
  have hvalid : (env.reaches f.exec && f.origTask.valid || goesOn) = true := by
    rw [hexec, htask, Env.reaches, hlives]
    rfl
  rw [rpcComplete, if_pos hvalid]
  refine ⟨?_, ?_⟩
  · rw [Frame.log, List.countP_append, hclean.respond]
    rfl
  · intro e he
    rcases List.mem_append.mp he with he | he
    · exact hclean.uses e he
    · rw [List.mem_singleton.mp he]
      rfl

theorem rpcComplete_invalid (htask : f.origTask.valid = false) : ¬OneResponse (rpcComplete env goesOn method f) := by
  intro hone
  have hmem : .useTask f.origTask ∈ (rpcComplete env goesOn method f).events := by
    unfold rpcComplete
    split_ifs <;> simp [Frame.log]
  have huse := hone.uses _ hmem
  rw [Event.usesSet, htask] at huse
  cases huse

theorem rpcComplete_unreached (hexec : env.reaches f.exec = false) :
    (rpcComplete env false method f).events.countP Event.isRespond = f.events.countP Event.isRespond := by
  rw [rpcComplete, hexec, Bool.false_and, Bool.false_or, if_neg Bool.false_ne_true]
  simp [Frame.log, Event.isRespond]

theorem responds_helpers (hf : Clean f) (htask : f.origTask = .unset) (mid : Frame V E → Frame V E)
    (hmid : ∀ g, (mid g).origTask = g.origTask ∧ (mid g).exec = g.exec ∧ (Clean g → Clean (mid g)) ∧
      (mid g).events.countP Event.isRespond = g.events.countP Event.isRespond) :
    (∀ goesOn, OneResponse (if (rpcExec env goesOn stateId method params xfer f).1 then
        rpcComplete env goesOn method (mid (rpcExec env goesOn stateId method params xfer f).2)
      else (rpcExec env goesOn stateId method params xfer f).2)) ↔ Served env stateId method params xfer := by
  constructor
  · intro hall
    by_contra h
    have hone := hall false
    obtain ⟨hmt, hme, -, hmr⟩ := hmid (rpcExec env false stateId method params xfer f).2
    rcases rpcExec_unserved h hf htask with ⟨hreturns, hinvalid⟩ | ⟨hcount, hdeleted⟩
    · rw [if_pos hreturns] at hone
      exact rpcComplete_invalid (hmt ▸ hinvalid) hone
    · have honce := hone.respond
      split_ifs at honce with hreturns
      · rw [rpcComplete_unreached (hme ▸ hdeleted hreturns), hmr, hcount] at honce
        cases honce
      · rw [hcount] at honce
        cases honce
  · intro h goesOn
    obtain ⟨exec, t, g, hg, hexec, ht, hlives, hclean⟩ := rpcExec_served goesOn h hf
    obtain ⟨hmt, hme, hmc, -⟩ := hmid g
    rw [hg, if_pos rfl]
    exact rpcComplete_valid (hme.trans hexec) (hmt.trans ht) hlives (hmc hclean)

theorem clean_init : Clean (Frame.init : Frame V E) := ⟨rfl, fun _ he => by cases he⟩

theorem oneResponse_iff (env : Env V E) (rpc : Rpc) : Responds env rpc ↔ ServedRpc env rpc := by
  cases rpc with
  | pushSmall stateId method params =>
    exact responds_helpers clean_init rfl id fun g => ⟨rfl, rfl, id, rfl⟩
  | pushBulk bulk stateId method params dataSize ioType =>
    have hstart : Clean (if ioType = .kWrite then Frame.init.log (.ioCallServer ioType) else .init : Frame V E) := by
      split_ifs
      · exact clean_init.log rfl rfl
      · exact clean_init
    have htask : (if ioType = .kWrite then Frame.init.log (.ioCallServer ioType) else .init : Frame V E).origTask =
        .unset := by
      split_ifs <;> rfl
    refine responds_helpers hstart htask
      (fun g => if ioType = .kRead then g.log (.ioCallServer ioType) else g) ?_
    intro g
    split_ifs
    · exact ⟨rfl, rfl, fun hg => hg.log rfl rfl, by simp [Frame.log, Event.isRespond]⟩
    · exact ⟨rfl, rfl, id, rfl⟩

theorem rpcPush_of_served {rpc : Rpc} (h : ServedRpc env rpc)
    (hsrl : ∀ exec method T, env.loads exec method = some T → T.type?.isSome = true) :
    ∃ t, Network.rpcPush env.cereal (fun stateId method =>
      (env.taskStates stateId).bind fun exec => (env.loads exec method).bind LoadCase.type?) env.buf env.nodeId rpc =
        some t := by
  have hexec : ∀ (stateId : TaskStateId) (method : ℕ) (params : List UInt8) (xs : List DataTransfer),
      Served env stateId method (.ofData params) (xs ++ [.ofData params]) → ∃ t, Network.rpcExec env.cereal
        (fun stateId method => (env.taskStates stateId).bind fun exec => (env.loads exec method).bind LoadCase.type?)
        env.nodeId stateId method (xs ++ [.ofData params]) = some t := by
    rintro stateId method params xs ⟨exec, T, t, hexec, hT, hload, -⟩
    cases T with
    | tfLocal => cases hsrl exec method _ hT
    | srl T =>
      refine ⟨received env.nodeId t, ?_⟩
      rw [Network.rpcExec, List.getLast?_concat, Option.bind_some]
      simp only [hexec, Option.bind_some, hT, LoadCase.type?]
      exact congrArg (Option.map (received env.nodeId)) hload
  cases rpc with
  | pushSmall stateId method params => exact hexec stateId method params [] h
  | pushBulk bulk stateId method params dataSize ioType => exact hexec stateId method params [_] h

section Unregistered

def emptyNode : Env (fun _ : Unit => ℕ) Unit where
  cereal := binaryCereal
  nodeId := 2
  taskStates _ := none
  loads _ _ := none
  memory := ioTask []
  saveEnd _ _ _ := []
  hasLane _ _ := true
  wait := some
  lives _ := true
  buf n := Vector.replicate n 0

def smallPush : Rpc := .pushSmall ⟨1, 8⟩ SmallMessage.Method.kMd []

/-- `RpcComplete` is called without a task; where that does not end the process, the request is answered twice. -/
theorem not_oneResponse_unregistered : ¬Responds emptyNode smallPush ∧
    (∀ goesOn, ¬OneResponse (rpcPush emptyNode goesOn smallPush)) ∧
    (rpcPush emptyNode true smallPush).events.countP Event.isRespond = 2 := by
  have hgo : (rpcPush emptyNode true smallPush).events =
      [.respond [], .useExec (.set none), .useTask .unset, .respond []] := rfl
  have hmem : ∀ goesOn, .useTask .unset ∈ (rpcPush emptyNode goesOn smallPush).events := by
    intro goesOn
    cases goesOn with
    | false =>
      rw [show (rpcPush emptyNode false smallPush).events =
        [.respond [], .useExec (.set none), .useTask .unset] from rfl]
      simp
    | true => simp [hgo]
  have hnone : ∀ goesOn, ¬OneResponse (rpcPush emptyNode goesOn smallPush) := by
    intro goesOn hone
    cases hone.uses _ (hmem goesOn)
  exact ⟨fun hall => hnone true (hall true), hnone, by rw [hgo]; rfl⟩

example : (rpcPush { emptyNode with taskStates := fun _ => some (), loads := fun _ _ => some .tfLocal } false
    smallPush).events.countP Event.isRespond = 1 := rfl

/-- The state is destroyed while the request waits for its task. -/
example : (rpcPush { emptyNode with
    taskStates := fun _ => some (), loads := fun _ _ => some .tfLocal, lives := fun _ => false } false
    smallPush).events.countP Event.isRespond = 0 := rfl

end Unregistered

end HermesRun.Response
