import HermesRun.Worker.Group

namespace HermesRun

namespace HermesRunAdmin

namespace Method
def kCreateTaskState : ℕ := TaskMethod.kLast + 0
def kDestroyTaskState : ℕ := TaskMethod.kLast + 1
def kRegisterTaskLib : ℕ := TaskMethod.kLast + 2
def kDestroyTaskLib : ℕ := TaskMethod.kLast + 3
def kGetOrCreateTaskStateId : ℕ := TaskMethod.kLast + 4
def kGetTaskStateId : ℕ := TaskMethod.kLast + 5
def kStopRuntime : ℕ := TaskMethod.kLast + 6
def kSetWorkOrchQueuePolicy : ℕ := TaskMethod.kLast + 7
def kSetWorkOrchProcPolicy : ℕ := TaskMethod.kLast + 8
end Method

/-- `CreateTaskStateTask::GetGroup` is `srl << 16`; every other task of the library is unordered. -/
def getGroup (method : ℕ) : Bitfield.Flags × (Charbuf → Charbuf) :=
  if method = Method.kCreateTaskState then (0#32, fun g => ((LocalSerialize.init g).putNum 4 16).data)
  else if TaskMethod.kLast ≤ method ∧ method ≤ Method.kSetWorkOrchProcPolicy then (taskUnordered, id)
  else (-1#32, id)

def lib (α : Type) : TaskLib α := ⟨fun method _ => getGroup method, fun _ _ a => a⟩

theorem lib_ignoresFlags (α : Type) : (lib α).IgnoresFlags := by
  intro method t mask
  rfl

end HermesRunAdmin

namespace ProcQueue

namespace Method
def kPush : ℕ := TaskMethod.kLast + 0
end Method

/-- A push task's group is its lane hash; the construct task is a `CreateTaskStateTask`. -/
def getGroup {α : Type} (method : ℕ) (t : Task α) : Bitfield.Flags × (Charbuf → Charbuf) :=
  if method = TaskMethod.kConstruct then (0#32, fun g => ((LocalSerialize.init g).putNum 4 16).data)
  else if method = TaskMethod.kDestruct then (taskUnordered, id)
  else if method = Method.kPush then (0#32, fun _ => Bytes.toBytes 4 t.laneHash.toNat)
  else (-1#32, id)

def lib (α : Type) : TaskLib α := ⟨getGroup, fun _ _ a => a⟩

theorem lib_ignoresFlags (α : Type) : (lib α).IgnoresFlags := by
  intro method t mask
  show (getGroup method (t.setFlag mask)).1 = (getGroup method t).1
  unfold getGroup
  split_ifs <;> rfl

end ProcQueue

namespace RemoteQueue

namespace Method
def kPush : ℕ := TaskMethod.kLast + 0
end Method

def getGroup (method : ℕ) : Bitfield.Flags × (Charbuf → Charbuf) :=
  if method = TaskMethod.kConstruct then (0#32, fun g => ((LocalSerialize.init g).putNum 4 16).data)
  else if method = TaskMethod.kDestruct ∨ method = Method.kPush then (taskUnordered, id)
  else (-1#32, id)

def lib (α : Type) : TaskLib α := ⟨fun method _ => getGroup method, fun _ _ a => a⟩

end RemoteQueue

end HermesRun
