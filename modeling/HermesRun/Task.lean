import HermesRun.Types

namespace HermesRun

open Bitfield

def taskLowLatency : Flags := bitOpt 4
def taskUnordered : Flags := bitOpt 7
def taskHasStarted : Flags := bitOpt 8
def taskComplete : Flags := bitOpt 9
def taskModuleComplete : Flags := bitOpt 10
def taskLongRunning : Flags := bitOpt 11 ||| taskUnordered
def taskFireAndForget : Flags := bitOpt 12
def taskDisableRun : Flags := bitOpt 13
def taskDataOwner : Flags := bitOpt 14
def taskMarked : Flags := bitOpt 15
def taskCoroutine : Flags := bitOpt 16
def taskPreemptive : Flags := bitOpt 17
def taskRemoteDebugMark : Flags := bitOpt 18

namespace TaskMethod
def kConstruct : ℕ := 0
def kDestruct : ℕ := 1
def kLast : ℕ := 2
end TaskMethod

namespace TaskPrio
def kAdmin : ℕ := 0
def kLongRunning : ℕ := 1
def kLowLatency : ℕ := 2
end TaskPrio

/-- `node_depth_` is a `u32`; the code that changes it reduces modulo `2 ^ 32`. -/
structure TaskNode where
  root : TaskId
  nodeDepth : ℕ
  deriving DecidableEq, Repr

def TaskNode.add (n : TaskNode) (i : ℕ) : TaskNode := ⟨n.root, (n.nodeDepth + i) % 2 ^ 32⟩

abbrev TaskPtr := ℕ

/-- A `TaskState` object: the id it is registered under and which of the objects created under
that id it is. -/
structure Instance where
  id : TaskStateId
  gen : ℕ
  deriving DecidableEq, Repr

structure PushInfo where
  domainIds : List DomainId
  origTask : TaskPtr
  exec : Instance
  execMethod : ℕ
  deriving DecidableEq, Repr

inductive Body (α : Type) where
  | own (a : α)
  | push (i : PushInfo)
  deriving DecidableEq, Repr

def Body.pushInfo {α : Type} : Body α → Option PushInfo
  | .own _ => none
  | .push i => some i

structure Task (α : Type) where
  taskState : TaskStateId
  taskNode : TaskNode
  domainId : DomainId
  prio : ℕ
  laneHash : UInt32
  method : ℕ
  taskFlags : Flags
  body : Body α

namespace Task

variable {α : Type} (t : Task α)

def setFlag (mask : Flags) : Task α := { t with taskFlags := setBits t.taskFlags mask }
def unsetFlag (mask : Flags) : Task α := { t with taskFlags := unsetBits t.taskFlags mask }

def setModuleComplete : Task α := t.setFlag taskModuleComplete
def isModuleComplete : Bool := any t.taskFlags taskModuleComplete
def isFireAndForget : Bool := any t.taskFlags taskFireAndForget
def unsetFireAndForget : Task α := t.unsetFlag taskFireAndForget
def isLongRunning : Bool := any t.taskFlags taskLongRunning
def isUnordered : Bool := any t.taskFlags taskUnordered
/-- The source tests the flag where its name says that it sets it. -/
def setUnordered : Task α := t
def setComplete : Task α := t.setFlag (taskModuleComplete ||| taskComplete)
def isComplete : Bool := any t.taskFlags taskComplete
def disableRun : Task α := t.setFlag taskDisableRun
def isRunDisabled : Bool := any t.taskFlags taskDisableRun
def setDataOwner : Task α := t.setFlag taskDataOwner
def isDataOwner : Bool := any t.taskFlags taskDataOwner
def unsetDataOwner : Task α := t.unsetFlag taskDataOwner
def setStarted : Task α := t.setFlag taskHasStarted
def unsetStarted : Task α := t.unsetFlag taskHasStarted
def isStarted : Bool := any t.taskFlags taskHasStarted
def setMarked : Task α := t.setFlag taskMarked
def unsetMarked : Task α := t.unsetFlag taskMarked
def isMarked : Bool := any t.taskFlags taskMarked
def unsetLongRunning : Task α := t.unsetFlag taskLongRunning
def isCoroutine : Bool := any t.taskFlags taskCoroutine
def unsetCoroutine : Task α := t.unsetFlag taskCoroutine
def isPreemptive : Bool := any t.taskFlags taskPreemptive

/-- The worker no longer asks `CheckTaskGroup` to admit the task: it runs already, or its run
was handed to another thread. -/
def begun : Bool := t.isStarted || t.isRunDisabled

@[simp] theorem setStarted_isStarted : t.setStarted.isStarted = true := by
  simp [setStarted, isStarted, setFlag, taskHasStarted, any_setBits]

@[simp] theorem setStarted_isRunDisabled : t.setStarted.isRunDisabled = t.isRunDisabled := by
  simp [setStarted, isRunDisabled, setFlag, taskHasStarted, taskDisableRun, any_setBits]

@[simp] theorem setStarted_isUnordered : t.setStarted.isUnordered = t.isUnordered := by
  simp [setStarted, isUnordered, setFlag, taskHasStarted, taskUnordered, any_setBits]

@[simp] theorem setStarted_isModuleComplete :
    t.setStarted.isModuleComplete = t.isModuleComplete := by
  simp [setStarted, isModuleComplete, setFlag, taskHasStarted, taskModuleComplete, any_setBits]

@[simp] theorem disableRun_isRunDisabled : t.disableRun.isRunDisabled = true := by
  simp [disableRun, isRunDisabled, setFlag, taskDisableRun, any_setBits]

@[simp] theorem disableRun_isStarted : t.disableRun.isStarted = t.isStarted := by
  simp [disableRun, isStarted, setFlag, taskDisableRun, taskHasStarted, any_setBits]

@[simp] theorem disableRun_isUnordered : t.disableRun.isUnordered = t.isUnordered := by
  simp [disableRun, isUnordered, setFlag, taskDisableRun, taskUnordered, any_setBits]

@[simp] theorem disableRun_isModuleComplete :
    t.disableRun.isModuleComplete = t.isModuleComplete := by
  simp [disableRun, isModuleComplete, setFlag, taskDisableRun, taskModuleComplete, any_setBits]

@[simp] theorem setStarted_isComplete : t.setStarted.isComplete = t.isComplete := by
  simp [setStarted, isComplete, setFlag, taskHasStarted, taskComplete, any_setBits]

@[simp] theorem setStarted_isPreemptive : t.setStarted.isPreemptive = t.isPreemptive := by
  simp [setStarted, isPreemptive, setFlag, taskHasStarted, taskPreemptive, any_setBits]

@[simp] theorem setStarted_isCoroutine : t.setStarted.isCoroutine = t.isCoroutine := by
  simp [setStarted, isCoroutine, setFlag, taskHasStarted, taskCoroutine, any_setBits]

@[simp] theorem disableRun_isComplete : t.disableRun.isComplete = t.isComplete := by
  simp [disableRun, isComplete, setFlag, taskDisableRun, taskComplete, any_setBits]

@[simp] theorem disableRun_isPreemptive : t.disableRun.isPreemptive = t.isPreemptive := by
  simp [disableRun, isPreemptive, setFlag, taskDisableRun, taskPreemptive, any_setBits]

@[simp] theorem disableRun_isCoroutine : t.disableRun.isCoroutine = t.isCoroutine := by
  simp [disableRun, isCoroutine, setFlag, taskDisableRun, taskCoroutine, any_setBits]

@[simp] theorem setModuleComplete_isRunDisabled : t.setModuleComplete.isRunDisabled = t.isRunDisabled := by
  simp [setModuleComplete, isRunDisabled, setFlag, taskModuleComplete, taskDisableRun, any_setBits]

@[simp] theorem setModuleComplete_isModuleComplete : t.setModuleComplete.isModuleComplete = true := by
  simp [setModuleComplete, isModuleComplete, setFlag, taskModuleComplete, any_setBits]

@[simp] theorem setModuleComplete_isComplete : t.setModuleComplete.isComplete = t.isComplete := by
  simp [setModuleComplete, isComplete, setFlag, taskModuleComplete, taskComplete, any_setBits]

@[simp] theorem setModuleComplete_isPreemptive : t.setModuleComplete.isPreemptive = t.isPreemptive := by
  simp [setModuleComplete, isPreemptive, setFlag, taskModuleComplete, taskPreemptive, any_setBits]

@[simp] theorem setModuleComplete_isCoroutine : t.setModuleComplete.isCoroutine = t.isCoroutine := by
  simp [setModuleComplete, isCoroutine, setFlag, taskModuleComplete, taskCoroutine, any_setBits]

@[simp] theorem setComplete_isRunDisabled : t.setComplete.isRunDisabled = t.isRunDisabled := by
  simp [setComplete, isRunDisabled, setFlag, taskModuleComplete, taskComplete, taskDisableRun, any_setBits, setBits_or]

@[simp] theorem setComplete_isModuleComplete : t.setComplete.isModuleComplete = true := by
  simp [setComplete, isModuleComplete, setFlag, taskModuleComplete, taskComplete, any_setBits, setBits_or]

@[simp] theorem setComplete_isPreemptive : t.setComplete.isPreemptive = t.isPreemptive := by
  simp [setComplete, isPreemptive, setFlag, taskModuleComplete, taskComplete, taskPreemptive, any_setBits, setBits_or]

@[simp] theorem setComplete_isCoroutine : t.setComplete.isCoroutine = t.isCoroutine := by
  simp [setComplete, isCoroutine, setFlag, taskModuleComplete, taskComplete, taskCoroutine, any_setBits, setBits_or]

@[simp] theorem unsetCoroutine_isRunDisabled : t.unsetCoroutine.isRunDisabled = t.isRunDisabled := by
  simp [unsetCoroutine, isRunDisabled, unsetFlag, taskCoroutine, taskDisableRun, any_unsetBits]

@[simp] theorem unsetCoroutine_isModuleComplete : t.unsetCoroutine.isModuleComplete = t.isModuleComplete := by
  simp [unsetCoroutine, isModuleComplete, unsetFlag, taskCoroutine, taskModuleComplete, any_unsetBits]

@[simp] theorem unsetCoroutine_isComplete : t.unsetCoroutine.isComplete = t.isComplete := by
  simp [unsetCoroutine, isComplete, unsetFlag, taskCoroutine, taskComplete, any_unsetBits]

@[simp] theorem unsetCoroutine_isPreemptive : t.unsetCoroutine.isPreemptive = t.isPreemptive := by
  simp [unsetCoroutine, isPreemptive, unsetFlag, taskCoroutine, taskPreemptive, any_unsetBits]

@[simp] theorem unsetCoroutine_isCoroutine : t.unsetCoroutine.isCoroutine = false := by
  simp [unsetCoroutine, isCoroutine, unsetFlag, taskCoroutine, any_unsetBits]

@[simp] theorem setStarted_isFireAndForget : t.setStarted.isFireAndForget = t.isFireAndForget := by
  simp [setStarted, isFireAndForget, setFlag, taskHasStarted, taskFireAndForget, any_setBits]

@[simp] theorem disableRun_isFireAndForget : t.disableRun.isFireAndForget = t.isFireAndForget := by
  simp [disableRun, isFireAndForget, setFlag, taskDisableRun, taskFireAndForget, any_setBits]

@[simp] theorem setModuleComplete_isFireAndForget : t.setModuleComplete.isFireAndForget = t.isFireAndForget := by
  simp [setModuleComplete, isFireAndForget, setFlag, taskModuleComplete, taskFireAndForget, any_setBits]

@[simp] theorem setComplete_isFireAndForget : t.setComplete.isFireAndForget = t.isFireAndForget := by
  simp [setComplete, isFireAndForget, setFlag, taskModuleComplete, taskComplete, taskFireAndForget, any_setBits,
    setBits_or]

@[simp] theorem unsetCoroutine_isFireAndForget : t.unsetCoroutine.isFireAndForget = t.isFireAndForget := by
  simp [unsetCoroutine, isFireAndForget, unsetFlag, taskCoroutine, taskFireAndForget, any_unsetBits]

@[simp] theorem unsetFireAndForget_isFireAndForget : t.unsetFireAndForget.isFireAndForget = false := by
  simp [unsetFireAndForget, isFireAndForget, unsetFlag, taskFireAndForget, any_unsetBits]

theorem unsetLongRunning_isFireAndForget :
    t.unsetFireAndForget.unsetStarted.unsetMarked.unsetDataOwner.unsetLongRunning.isFireAndForget = false := by
  simp [unsetFireAndForget, unsetStarted, unsetMarked, unsetDataOwner, unsetLongRunning, isFireAndForget, unsetFlag,
    taskFireAndForget, taskHasStarted, taskMarked, taskDataOwner, taskLongRunning, taskUnordered, any_unsetBits,
    unsetBits_or]

@[simp] theorem setStarted_begun : t.setStarted.begun = true := by simp [begun]

@[simp] theorem disableRun_begun : t.disableRun.begun = true := by simp [begun]

end Task

end HermesRun
