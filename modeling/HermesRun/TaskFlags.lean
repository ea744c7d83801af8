import HermesRun.Task

namespace HermesRun

open Bitfield

namespace Task

inductive FlagOp where
  | setModuleComplete
  | setComplete
  | unsetFireAndForget
  | setUnordered
  | disableRun
  | setDataOwner
  | unsetDataOwner
  | setStarted
  | unsetStarted
  | setMarked
  | unsetMarked
  | unsetLongRunning
  | unsetCoroutine
  deriving DecidableEq, Repr

inductive Flag where
  | moduleComplete
  | complete
  | fireAndForget
  | unordered
  | longRunning
  | runDisabled
  | dataOwner
  | started
  | marked
  | coroutine
  | preemptive
  deriving DecidableEq, Repr

variable {α : Type}

def applyOp (t : Task α) : FlagOp → Task α
  | .setModuleComplete => t.setModuleComplete
  | .setComplete => t.setComplete
  | .unsetFireAndForget => t.unsetFireAndForget
  | .setUnordered => t.setUnordered
  | .disableRun => t.disableRun
  | .setDataOwner => t.setDataOwner
  | .unsetDataOwner => t.unsetDataOwner
  | .setStarted => t.setStarted
  | .unsetStarted => t.unsetStarted
  | .setMarked => t.setMarked
  | .unsetMarked => t.unsetMarked
  | .unsetLongRunning => t.unsetLongRunning
  | .unsetCoroutine => t.unsetCoroutine

def query (t : Task α) : Flag → Bool
  | .moduleComplete => t.isModuleComplete
  | .complete => t.isComplete
  | .fireAndForget => t.isFireAndForget
  | .unordered => t.isUnordered
  | .longRunning => t.isLongRunning
  | .runDisabled => t.isRunDisabled
  | .dataOwner => t.isDataOwner
  | .started => t.isStarted
  | .marked => t.isMarked
  | .coroutine => t.isCoroutine
  | .preemptive => t.isPreemptive

def Flag.bit : Flag → ℕ
  | .unordered => 7
  | .started => 8
  | .complete => 9
  | .moduleComplete => 10
  | .longRunning => 11
  | .fireAndForget => 12
  | .runDisabled => 13
  | .dataOwner => 14
  | .marked => 15
  | .coroutine => 16
  | .preemptive => 17

/-- What an operation makes of the flags it names. `SetComplete` is the only one that names two. -/
def FlagOp.names : FlagOp → Flag → Option Bool
  | .setModuleComplete, .moduleComplete => some true
  | .setComplete, .moduleComplete => some true
  | .setComplete, .complete => some true
  | .unsetFireAndForget, .fireAndForget => some false
  | .setUnordered, .unordered => some true
  | .disableRun, .runDisabled => some true
  | .setDataOwner, .dataOwner => some true
  | .unsetDataOwner, .dataOwner => some false
  | .setStarted, .started => some true
  | .unsetStarted, .started => some false
  | .setMarked, .marked => some true
  | .unsetMarked, .marked => some false
  | .unsetLongRunning, .longRunning => some false
  | .unsetCoroutine, .coroutine => some false
  | _, _ => none

def lastNamed (t : Task α) (ops : List FlagOp) (f : Flag) : Bool :=
  ((ops.filterMap (·.names f)).getLast?).getD (t.taskFlags.getLsbD f.bit)

def FlagOp.write : FlagOp → Option Write
  | .setModuleComplete => some (.set taskModuleComplete)
  | .setComplete => some (.set (taskModuleComplete ||| taskComplete))
  | .unsetFireAndForget => some (.unset taskFireAndForget)
  | .setUnordered => none
  | .disableRun => some (.set taskDisableRun)
  | .setDataOwner => some (.set taskDataOwner)
  | .unsetDataOwner => some (.unset taskDataOwner)
  | .setStarted => some (.set taskHasStarted)
  | .unsetStarted => some (.unset taskHasStarted)
  | .setMarked => some (.set taskMarked)
  | .unsetMarked => some (.unset taskMarked)
  | .unsetLongRunning => some (.unset taskLongRunning)
  | .unsetCoroutine => some (.unset taskCoroutine)

theorem applyOp_taskFlags (t : Task α) (op : FlagOp) :
    (t.applyOp op).taskFlags = (op.write.toList).foldl Write.apply t.taskFlags := by
  cases op <;> rfl

theorem foldl_applyOp_taskFlags (t : Task α) (ops : List FlagOp) :
    (ops.foldl applyOp t).taskFlags = (ops.filterMap FlagOp.write).foldl Write.apply t.taskFlags := by
  induction ops generalizing t with
  | nil => rfl
  | cons op ops ih =>
    rw [List.foldl_cons, ih, applyOp_taskFlags]
    cases hw : op.write with
    | none => simp [hw]
    | some w => simp [hw]

theorem getLsbD_applyOps (t : Task α) (ops : List FlagOp) {k : ℕ} (hk : k < 32) :
    (ops.foldl applyOp t).taskFlags.getLsbD k =
      ((ops.filterMap fun op => op.write.bind (Write.sets k)).getLast?).getD (t.taskFlags.getLsbD k) := by
  rw [foldl_applyOp_taskFlags, getLsbD_writes _ _ hk, List.filterMap_filterMap]

theorem write_sets_bit {op : FlagOp} {f : Flag} (hf : f ≠ .unordered) :
    op.write.bind (Write.sets f.bit) = op.names f := by
  cases op <;> cases f <;> first | exact absurd rfl hf | rfl

theorem write_sets_unordered (op : FlagOp) :
    op.write.bind (Write.sets Flag.unordered.bit) = if op = .unsetLongRunning then some false else none := by
  cases op <;> rfl

theorem query_eq_bit (t : Task α) {f : Flag} (hf : f ≠ .longRunning) : t.query f = t.taskFlags.getLsbD f.bit := by
  cases f with
  | longRunning => exact absurd rfl hf
  | moduleComplete => exact any_bitOpt _ (by decide)
  | complete => exact any_bitOpt _ (by decide)
  | fireAndForget => exact any_bitOpt _ (by decide)
  | unordered => exact any_bitOpt _ (by decide)
  | runDisabled => exact any_bitOpt _ (by decide)
  | dataOwner => exact any_bitOpt _ (by decide)
  | started => exact any_bitOpt _ (by decide)
  | marked => exact any_bitOpt _ (by decide)
  | coroutine => exact any_bitOpt _ (by decide)
  | preemptive => exact any_bitOpt _ (by decide)

theorem query_longRunning (t : Task α) :
    t.query .longRunning = (t.taskFlags.getLsbD Flag.longRunning.bit || t.query .unordered) := by
  have hmask : t.query .longRunning = any t.taskFlags (bitOpt 11 ||| taskUnordered) := rfl
  have hown : any t.taskFlags (bitOpt 11) = t.taskFlags.getLsbD Flag.longRunning.bit := any_bitOpt _ (by decide)
  rw [hmask, any_or, hown]
  rfl

theorem Flag.bit_lt (f : Flag) : f.bit < 32 := by cases f <;> decide

theorem applyOps_bit (t : Task α) (ops : List FlagOp) {f : Flag} (hf : f ≠ .unordered) :
    (ops.foldl applyOp t).taskFlags.getLsbD f.bit = t.lastNamed ops f := by
  rw [getLsbD_applyOps t ops f.bit_lt]
  simp only [write_sets_bit hf, lastNamed]

theorem applyOps_isUnordered (t : Task α) (ops : List FlagOp) :
    (ops.foldl applyOp t).isUnordered = (t.isUnordered && decide (FlagOp.unsetLongRunning ∉ ops)) := by
  induction ops generalizing t with
  | nil => simp
  | cons op ops ih =>
    have hop : (t.applyOp op).isUnordered = (t.isUnordered && decide (op ≠ .unsetLongRunning)) := by
      have hbit := getLsbD_applyOps t [op] Flag.unordered.bit_lt
      simp only [List.filterMap_cons, List.filterMap_nil, write_sets_unordered] at hbit
      have hq := query_eq_bit (t.applyOp op) (f := .unordered) (by decide)
      have hq' := query_eq_bit t (f := .unordered) (by decide)
      simp only [query] at hq hq'
      rw [hq, hq']
      by_cases hlong : op = .unsetLongRunning
      · simpa [hlong] using hbit
      · simpa [hlong] using hbit
    rw [List.foldl_cons, ih, hop]
    by_cases hlong : op = .unsetLongRunning
    · simp [hlong]
    · have hne : ¬FlagOp.unsetLongRunning = op := fun h => hlong h.symm
      simp [hlong, hne]

theorem lastNamed_unordered (t : Task α) (ops : List FlagOp) :
    t.lastNamed ops .unordered = (decide (FlagOp.setUnordered ∈ ops) || t.isUnordered) := by
  have hinit : t.taskFlags.getLsbD Flag.unordered.bit = t.isUnordered := (query_eq_bit t (by decide)).symm
  simp only [lastNamed, hinit]
  induction ops using List.reverseRecOn with
  | nil => simp
  | append_singleton ops op ih =>
    rw [List.filterMap_append]
    by_cases hop : op = .setUnordered
    · subst hop
      simp [FlagOp.names]
    · have hnone : op.names .unordered = none := by cases op <;> first | rfl | exact absurd rfl hop
      have hne : ¬FlagOp.setUnordered = op := fun h => hop h.symm
      simp only [List.filterMap_cons, hnone, List.filterMap_nil, List.append_nil, ih]
      simp [hne]

theorem lastNamed_longRunning (t : Task α) {ops : List FlagOp} (h : FlagOp.unsetLongRunning ∉ ops) :
    t.lastNamed ops .longRunning = t.taskFlags.getLsbD Flag.longRunning.bit := by
  have hnil : ops.filterMap (·.names .longRunning) = [] := by
    rw [List.filterMap_eq_nil_iff]
    intro op hmem
    cases op <;> first | rfl | exact absurd hmem h
  simp [lastNamed, hnil]

/-- The queries answer what was set last exactly on the words and sequences where nothing depends on
`TASK_UNORDERED`: either it is clear and `SetUnordered`, which sets nothing, is not called; or it is set together
with the bit that `TASK_LONG_RUNNING` adds to it, and `UnsetLongRunning`, which clears both, is not called. -/
theorem queries_iff (t : Task α) (ops : List FlagOp) :
    (∀ f, (ops.foldl applyOp t).query f = t.lastNamed ops f) ↔
      (t.isUnordered = false ∧ FlagOp.setUnordered ∉ ops) ∨
        (t.isUnordered = true ∧ t.taskFlags.getLsbD Flag.longRunning.bit = true ∧
          FlagOp.unsetLongRunning ∉ ops) := by
  have hunordered : (ops.foldl applyOp t).query .unordered = t.lastNamed ops .unordered ↔
      (t.isUnordered && decide (FlagOp.unsetLongRunning ∉ ops)) =
        (decide (FlagOp.setUnordered ∈ ops) || t.isUnordered) := by
    rw [lastNamed_unordered, ← applyOps_isUnordered]
    rfl
  have hlong : (ops.foldl applyOp t).query .longRunning = t.lastNamed ops .longRunning ↔
      (t.lastNamed ops .longRunning || (t.isUnordered && decide (FlagOp.unsetLongRunning ∉ ops))) =
        t.lastNamed ops .longRunning := by
    rw [query_longRunning, applyOps_bit t ops (f := .longRunning) (by decide), ← applyOps_isUnordered]
    rfl
  constructor
  · intro h
    have hu := hunordered.1 (h .unordered)
    have hl := hlong.1 (h .longRunning)
    cases hinit : t.isUnordered with
    | false =>
      left
      rw [hinit] at hu
      simpa using hu
    | true =>
      right
      rw [hinit] at hu hl
      have hnot : FlagOp.unsetLongRunning ∉ ops := by simpa using hu
      rw [lastNamed_longRunning t hnot] at hl
      exact ⟨rfl, by simpa [hnot] using hl, hnot⟩
  · intro h f
    by_cases hf : f = .unordered
    · subst hf
      rw [hunordered]
      rcases h with ⟨hinit, hset⟩ | ⟨hinit, -, hnot⟩
      · simp [hinit, hset]
      · simp [hinit, hnot]
    · by_cases hf' : f = .longRunning
      · subst hf'
        rw [hlong]
        rcases h with ⟨hinit, -⟩ | ⟨-, hown, hnot⟩
        · simp [hinit]
        · simp [lastNamed_longRunning t hnot, hown]
      · rw [query_eq_bit _ hf', applyOps_bit t ops hf]

def rpcExecOps : List FlagOp :=
  [.unsetFireAndForget, .unsetStarted, .unsetMarked, .unsetDataOwner, .unsetLongRunning]

def unorderedTask : Task Unit where
  taskState := UniqueId.getNull
  taskNode := ⟨UniqueId.getNull, 0⟩
  domainId := DomainId.getLocal
  prio := TaskPrio.kLowLatency
  laneHash := 0
  method := TaskMethod.kLast
  taskFlags := taskUnordered
  body := .own ()

theorem rpcExecOps_not_unordered :
    unorderedTask.isUnordered = true ∧ (rpcExecOps.foldl applyOp unorderedTask).isUnordered = false ∧
      unorderedTask.lastNamed rpcExecOps .unordered = true ∧
      ¬∀ f, (rpcExecOps.foldl applyOp unorderedTask).query f = unorderedTask.lastNamed rpcExecOps f := by
  refine ⟨by decide, by decide, by decide, ?_⟩
  intro h
  exact absurd (h .unordered) (by decide)

end Task

end HermesRun
