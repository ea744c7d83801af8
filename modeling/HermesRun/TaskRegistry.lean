import HermesRun.QueueManager
import Mathlib.Logic.Function.Basic

namespace HermesRun

/-- A `TaskState` and, as history, the `queue_info_` of the request that created it; the runtime creates some
without a queue. -/
structure TaskState where
  id : TaskStateId
  name : String
  queueInfo : Option (List PriorityInfo)
  deriving DecidableEq, Repr

/-- `created` is history: every call of a library's `create_state`, newest first. -/
structure TaskRegistry where
  nodeId : NodeId
  libs : List String
  taskStateIds : String → Option TaskStateId
  taskStates : TaskStateId → Option TaskState
  created : List TaskState

namespace TaskRegistry

def init (k : NodeId) (libs : List String) : TaskRegistry := ⟨k, libs, fun _ => none, fun _ => none, []⟩

variable (r : TaskRegistry)

def registerTaskLib (libName : String) : TaskRegistry := { r with libs := libName :: r.libs }

def destroyTaskLib (libName : String) : TaskRegistry := { r with libs := r.libs.filter (· ≠ libName) }

def taskStateExists (id : TaskStateId) : Bool := (r.taskStates id).isSome

def getTaskStateId (name : String) : TaskStateId := (r.taskStateIds name).getD UniqueId.getNull

def getTaskState (name : String) (id : TaskStateId) : Option TaskState :=
  r.taskStates (if (r.getTaskStateId name).isNull then id else r.getTaskStateId name)

/-- `task_state_ids_.emplace`, which keeps an entry that is there. -/
def emplaceId (name : String) (id : TaskStateId) : String → Option TaskStateId :=
  if (r.taskStateIds name).isSome then r.taskStateIds else Function.update r.taskStateIds name (some id)

/-- `create_state` runs `Construct` to its end. A library whose `create_state` returns no state is as good as one that
is not in `libs_`: in both cases the call returns false and changes nothing. -/
def createTaskState (libName name : String) (id : TaskStateId) (queueInfo : Option (List PriorityInfo)) :
    Bool × TaskRegistry :=
  if id.isNull then (false, r)
  else if libName ∉ r.libs then (false, r)
  else if r.taskStateExists id then (true, r)
  else
    let state : TaskState := ⟨id, name, queueInfo⟩
    (true, { r with
      taskStateIds := r.emplaceId name id
      taskStates := Function.update r.taskStates id (some state)
      created := state :: r.created })

/-- `unique` is the counter that the registry shares with the clients of its node. -/
def getOrCreateTaskStateId (unique : ℕ) (name : String) : TaskStateId × ℕ × TaskRegistry :=
  match r.taskStateIds name with
  | none =>
    let id : TaskStateId := ⟨r.nodeId, unique⟩
    (id, unique + 1, { r with taskStateIds := r.emplaceId name id })
  | some id => (id, unique, r)

def destroyTaskState (id : TaskStateId) : TaskRegistry :=
  match r.taskStates id with
  | none => r
  | some state => { r with
      taskStateIds := Function.update r.taskStateIds state.name none
      taskStates := Function.update r.taskStates id none }

def Instantiates (libName : String) (id : TaskStateId) : Prop :=
  id.isNull = false ∧ libName ∈ r.libs ∧ r.taskStates id = none

instance (libName : String) (id : TaskStateId) : Decidable (r.Instantiates libName id) :=
  inferInstanceAs (Decidable (_ ∧ _ ∧ _))

variable {r}

theorem createTaskState_new {libName name : String} {id : TaskStateId} {info : Option (List PriorityInfo)}
    (h : r.Instantiates libName id) : r.createTaskState libName name id info = (true, { r with
      taskStateIds := r.emplaceId name id
      taskStates := Function.update r.taskStates id (some ⟨id, name, info⟩)
      created := ⟨id, name, info⟩ :: r.created }) := by
  obtain ⟨hnull, hlib, hnone⟩ := h
  simp [createTaskState, hnull, hlib, taskStateExists, hnone]

theorem createTaskState_old {libName name : String} {id : TaskStateId} {info : Option (List PriorityInfo)}
    (h : ¬r.Instantiates libName id) : (r.createTaskState libName name id info).2 = r := by
  unfold createTaskState
  by_cases hnull : id.isNull = true
  · rw [if_pos hnull]
  rw [if_neg hnull]
  by_cases hlib : libName ∈ r.libs
  · rw [if_neg (not_not_intro hlib)]
    by_cases hex : r.taskStateExists id = true
    · rw [if_pos hex]
    · exact absurd ⟨by simpa using hnull, hlib, by simpa [taskStateExists] using hex⟩ h
  · rw [if_pos hlib]

theorem emplaceId_some {name name' : String} {id id' : TaskStateId} (h : r.taskStateIds name' = some id') :
    r.emplaceId name id name' = some id' := by
  unfold emplaceId
  split_ifs with hname
  · exact h
  · have hne : name' ≠ name := by
      rintro rfl
      rw [h] at hname
      exact hname rfl
    rw [Function.update_of_ne hne]
    exact h

theorem emplaceId_self {name : String} {id : TaskStateId} (h : r.taskStateIds name = none) :
    r.emplaceId name id name = some id := by
  simp [emplaceId, h]

theorem createTaskState_ids {libName name name' : String} {id id' : TaskStateId}
    {info : Option (List PriorityInfo)} (h : r.taskStateIds name' = some id') :
    (r.createTaskState libName name id info).2.taskStateIds name' = some id' := by
  by_cases hnew : r.Instantiates libName id
  · rw [createTaskState_new hnew]
    exact emplaceId_some h
  · rw [createTaskState_old hnew]
    exact h

theorem createTaskState_nodeId (libName name : String) (id : TaskStateId) (info : Option (List PriorityInfo)) :
    (r.createTaskState libName name id info).2.nodeId = r.nodeId := by
  by_cases hnew : r.Instantiates libName id
  · rw [createTaskState_new hnew]
  · rw [createTaskState_old hnew]

theorem of_emplaceId {name name' : String} {id id' : TaskStateId} (h : r.emplaceId name id name' = some id') :
    r.taskStateIds name' = some id' ∨ name' = name ∧ id' = id ∧ r.taskStateIds name = none := by
  unfold emplaceId at h
  split_ifs at h with hname
  · exact Or.inl h
  · by_cases hn : name' = name
    · subst hn
      rw [Function.update_self, Option.some.injEq] at h
      exact Or.inr ⟨rfl, h.symm, by simpa using hname⟩
    · rw [Function.update_of_ne hn] at h
      exact Or.inl h

end TaskRegistry

end HermesRun
