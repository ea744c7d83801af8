import HermesRun.Lib.Archive
import HermesRun.Remote.Copies

/-!
How a task travels: `SaveStart` on the node that disperses it, the RPC that its push makes for each replica, and
`LoadStart` on the node that is called. Thallium hands over the arguments of an RPC and the bytes of a bulk as they
are; `cereal` is a parameter.
-/

namespace HermesRun.Network

open Archive Bitfield

def dtReceiverRead : Flags := bitOpt 0
def dtReceiverWrite : Flags := bitOpt 1
def dtFreeData : Flags := bitOpt 2

structure DataTransfer where
  flags : Flags
  data : List UInt8
  nodeId : DomainId
  deriving DecidableEq, Repr

def DataTransfer.ofData (data : List UInt8) : DataTransfer := ⟨0#32, data, ⟨0#32, 0⟩⟩

inductive IoType where
  | kRead
  | kWrite
  | kNone
  deriving DecidableEq, Repr

section

variable {Ty : Type} (V : Ty → Type)

/-- The own fields of a task that its `SerializeStart` passes to the archive, before and after it calls
`task_serialize`. -/
structure Fields where
  before : List (Item V DataTransfer)
  after : List (Item V DataTransfer)

structure TaskType (Ty : Type) where
  before : List (Slot Ty)
  after : List (Slot Ty)
  deriving DecidableEq

structure Cereal where
  taskState : Codec TaskStateId
  taskNode : Codec TaskNode
  domainId : Codec DomainId
  laneHash : Codec UInt32
  prio : Codec ℕ
  method : Codec ℕ
  taskFlags : Codec Flags
  field : ∀ τ, Codec (V τ)

end

variable {Ty : Type} {V : Ty → Type} {β : Type}

def Fields.type (f : Fields V) : TaskType Ty := ⟨f.before.map Item.slot, f.after.map Item.slot⟩

def Fields.transfers (f : Fields V) : List DataTransfer := parts f.before ++ parts f.after

def taskSave (c : Cereal V) (t : Task β) (ar : Output DataTransfer) : Output DataTransfer :=
  ((((((ar.plain c.taskState t.taskState).plain c.taskNode t.taskNode).plain c.domainId t.domainId).plain
    c.laneHash t.laneHash).plain c.prio t.prio).plain c.method t.method).plain c.taskFlags t.taskFlags

def taskLoad (c : Cereal V) (body : Body β) (ar : Input DataTransfer) : Option (Task β × Input DataTransfer) := do
  let (taskState, ar) ← ar.plain c.taskState
  let (taskNode, ar) ← ar.plain c.taskNode
  let (domainId, ar) ← ar.plain c.domainId
  let (laneHash, ar) ← ar.plain c.laneHash
  let (prio, ar) ← ar.plain c.prio
  let (method, ar) ← ar.plain c.method
  let (taskFlags, ar) ← ar.plain c.taskFlags
  return (⟨taskState, taskNode, domainId, prio, laneHash, method, taskFlags, body⟩, ar)

def mark (node : DomainId) (x : DataTransfer) : DataTransfer := { x with nodeId := node }

def getXfer (node : DomainId) (ar : Output DataTransfer) : List DataTransfer :=
  ar.parts ++ [⟨dtReceiverRead ||| dtFreeData, ar.bytes, node⟩]

/-- `SaveStart`; a push task is not serialisable, so its archive stays empty. -/
def saveStart (c : Cereal V) (node : DomainId) (t : Task (Fields V)) : List DataTransfer :=
  getXfer node (match t.body with
    | .own f => save c.field (mark node) (taskSave c t (save c.field (mark node) ⟨[], []⟩ f.before)) f.after
    | .push _ => ⟨[], []⟩)

def loadStart (c : Cereal V) (T : TaskType Ty) (ar : Input DataTransfer) : Option (Task (Fields V)) :=
  (load c.field ar T.before).bind fun (before, ar) =>
    (taskLoad c (.own (⟨before, []⟩ : Fields V)) ar).bind fun (t, ar) =>
      (load c.field ar T.after).map fun (after, _) => { t with body := .own ⟨before, after⟩ }

inductive Rpc where
  | pushSmall (stateId : TaskStateId) (method : ℕ) (params : List UInt8)
  | pushBulk (bulk : List UInt8) (stateId : TaskStateId) (method : ℕ) (params : List UInt8) (dataSize : ℕ)
      (ioType : IoType)
  deriving DecidableEq, Repr

def clientSmallPush (params : DataTransfer) (stateId : TaskStateId) (method : ℕ) : Rpc :=
  .pushSmall stateId method params.data

def clientIoPush (bulk params : DataTransfer) (stateId : TaskStateId) (method : ℕ) : Rpc :=
  .pushBulk bulk.data stateId method params.data bulk.data.length
    (if any bulk.flags dtReceiverRead then .kWrite else .kRead)

def push (xfer : List DataTransfer) (stateId : TaskStateId) (method : ℕ) (domainIds : List DomainId) :
    Option (List (NodeId × Rpc)) :=
  match xfer with
  | [params] => some (domainIds.map fun d => (d.id, clientSmallPush params stateId method))
  | [bulk, params] => some (domainIds.map fun d => (d.id, clientIoPush bulk params stateId method))
  | _ => none

def received (d : NodeId) (t : Task β) : Task β :=
  let t := { t with domainId := DomainId.getNode d }
  t.unsetFireAndForget.unsetStarted.unsetMarked.unsetDataOwner.unsetLongRunning

/-- What `RpcExec` of node `d` reads from the transfers and enqueues. `types` has what `LoadStart` allocates for a
method of a registered task state. -/
def rpcExec (c : Cereal V) (types : TaskStateId → ℕ → Option (TaskType Ty)) (d : NodeId) (stateId : TaskStateId)
    (method : ℕ) (xfer : List DataTransfer) : Option (Task (Fields V)) :=
  xfer.getLast?.bind fun params => (types stateId method).bind fun T =>
    (loadStart c T ⟨xfer, 0, params.data⟩).map (received d)

/-- `RpcPushSmall` and `RpcPushBulk`; `buf` is what a new buffer holds that nothing has been written to. -/
def rpcPush (c : Cereal V) (types : TaskStateId → ℕ → Option (TaskType Ty)) (buf : ∀ n, Vector UInt8 n)
    (d : NodeId) : Rpc → Option (Task (Fields V))
  | .pushSmall stateId method params => rpcExec c types d stateId method [.ofData params]
  | .pushBulk bulk stateId method params dataSize ioType =>
    let data := match ioType with
      | .kWrite => bulk
      | _ => (buf dataSize).toList
    rpcExec c types d stateId method [.ofData data, .ofData params]

inductive SameItem : Item V DataTransfer → Item V DataTransfer → Prop
  | plain (τ : Ty) (x : V τ) : SameItem (.plain τ x) (.plain τ x)
  | part (x y : DataTransfer) (hsize : y.data.length = x.data.length)
      (hdata : any x.flags dtReceiverRead = true → y.data = x.data) : SameItem (.part x) (.part y)

structure CopyOf (d : NodeId) (t u : Task (Fields V)) : Prop where
  taskState : u.taskState = t.taskState
  taskNode : u.taskNode = t.taskNode
  domainId : u.domainId = DomainId.getNode d
  laneHash : u.laneHash = t.laneHash
  prio : u.prio = t.prio
  method : u.method = t.method
  taskFlags : u.taskFlags =
    t.unsetFireAndForget.unsetStarted.unsetMarked.unsetDataOwner.unsetLongRunning.taskFlags
  fields : ∃ f g, t.body = .own f ∧ u.body = .own g ∧ List.Forall₂ SameItem f.before g.before ∧
    List.Forall₂ SameItem f.after g.after

/-- What is relied on of `cereal`: it reads the plain fields of this task back as it wrote them. -/
structure Cereal.RoundTrips (c : Cereal V) (t : Task (Fields V)) (f : Fields V) : Prop where
  taskState : c.taskState.RoundTrips t.taskState
  taskNode : c.taskNode.RoundTrips t.taskNode
  domainId : c.domainId.RoundTrips t.domainId
  laneHash : c.laneHash.RoundTrips t.laneHash
  prio : c.prio.RoundTrips t.prio
  method : c.method.RoundTrips t.method
  taskFlags : c.taskFlags.RoundTrips t.taskFlags
  before : Archive.RoundTrips c.field f.before
  after : Archive.RoundTrips c.field f.after

def taskBytes (c : Cereal V) (t : Task β) : List UInt8 :=
  c.taskState.put t.taskState ++ (c.taskNode.put t.taskNode ++ (c.domainId.put t.domainId ++
    (c.laneHash.put t.laneHash ++ (c.prio.put t.prio ++ (c.method.put t.method ++ c.taskFlags.put t.taskFlags)))))

theorem taskSave_eq (c : Cereal V) (t : Task β) (ar : Output DataTransfer) :
    taskSave c t ar = ⟨ar.parts, ar.bytes ++ taskBytes c t⟩ := by
  simp [taskSave, taskBytes, Output.plain, List.append_assoc]

theorem taskLoad_put {c : Cereal V} {t : Task (Fields V)} {f : Fields V} (h : c.RoundTrips t f)
    (body : Body (Fields V)) (xs : List DataTransfer) (off : ℕ) (rest : List UInt8) :
    taskLoad c body ⟨xs, off, taskBytes c t ++ rest⟩ = some ({ t with body := body }, ⟨xs, off, rest⟩) := by
  simp only [taskLoad, taskBytes, List.append_assoc, Input.plain_put h.taskState, Input.plain_put h.taskNode,
    Input.plain_put h.domainId, Input.plain_put h.laneHash, Input.plain_put h.prio, Input.plain_put h.method,
    Input.plain_put h.taskFlags, Option.bind_eq_bind, Option.bind_some, Option.pure_def]

theorem saveStart_own (c : Cereal V) (node : DomainId) {t : Task (Fields V)} {f : Fields V} (h : t.body = .own f) :
    saveStart c node t = f.transfers.map (mark node) ++ [⟨dtReceiverRead ||| dtFreeData,
      bytes c.field f.before ++ (taskBytes c t ++ bytes c.field f.after), node⟩] := by
  simp only [saveStart, h, getXfer, save_eq, taskSave_eq, Fields.transfers, List.map_append, List.nil_append,
    List.append_assoc]

theorem loadStart_bytes {c : Cereal V} {t : Task (Fields V)} {f : Fields V} (hc : c.RoundTrips t f)
    (xs : List DataTransfer) (hx : f.transfers.length ≤ xs.length) :
    loadStart c f.type ⟨xs, 0, bytes c.field f.before ++ (taskBytes c t ++ bytes c.field f.after)⟩ =
      some { t with body := .own ⟨fill f.before xs, fill f.after (xs.drop (parts f.before).length)⟩ } := by
  rw [Fields.transfers, List.length_append] at hx
  have hbefore := load_bytes c.field f.before hc.before xs 0 (by omega) (taskBytes c t ++ bytes c.field f.after)
  have hafter := load_bytes c.field f.after hc.after xs (0 + (parts f.before).length) (by omega) []
  rw [List.append_nil] at hafter
  simp only [loadStart, Fields.type]
  rw [hbefore, Option.bind_some, taskLoad_put hc, Option.bind_some, hafter, Option.map_some, List.drop_zero,
    Nat.zero_add]

theorem sameItem_fill {items : List (Item V DataTransfer)} {ys : List DataTransfer}
    (h : ∀ (j : ℕ) x, (parts items)[j]? = some x → ∃ y, ys[j]? = some y ∧ y.data.length = x.data.length ∧
      (any x.flags dtReceiverRead = true → y.data = x.data)) : List.Forall₂ SameItem items (fill items ys) := by
  induction items generalizing ys with
  | nil => exact .nil
  | cons item items ih =>
    cases item with
    | plain τ x => exact .cons (.plain τ x) (ih h)
    | part x =>
      cases ys with
      | nil =>
        obtain ⟨y, hy, -⟩ := h 0 x rfl
        cases hy
      | cons y ys =>
        obtain ⟨y', hy, hsize, hdata⟩ := h 0 x rfl
        cases hy
        exact .cons (.part x y hsize hdata) (ih fun j => h (j + 1))

theorem rpcPush_push (c : Cereal V) (types : TaskStateId → ℕ → Option (TaskType Ty)) (buf : ∀ n, Vector UInt8 n)
    (stateId : TaskStateId) (method : ℕ) (domainIds : List DomainId) {xs : List DataTransfer}
    (hone : xs.length ≤ 1) (params : DataTransfer) : ∃ msgs,
      push (xs ++ [params]) stateId method domainIds = some msgs ∧ msgs.map (·.1) = domainIds.map (·.id) ∧
      ∀ d msg, (d, msg) ∈ msgs → ∃ ys : List DataTransfer, ys.length = xs.length ∧
        (∀ (j : ℕ) x, xs[j]? = some x → ∃ y, ys[j]? = some y ∧ y.data.length = x.data.length ∧
          (any x.flags dtReceiverRead = true → y.data = x.data)) ∧
        rpcPush c types buf d msg = rpcExec c types d stateId method (ys ++ [.ofData params.data]) := by
  have hids : ∀ msg : Rpc, ((domainIds.map fun d => (d.id, msg)).map (·.1)) = domainIds.map (·.id) := by
    intro msg
    rw [List.map_map]
    rfl
  match xs with
  | [] =>
    refine ⟨_, rfl, hids _, ?_⟩
    intro d msg hmem
    obtain ⟨dom, -, heq⟩ := List.mem_map.mp hmem
    cases heq
    refine ⟨[], rfl, ?_, rfl⟩
    intro j x hx
    cases hx
  | [x] =>
    refine ⟨_, rfl, hids _, ?_⟩
    intro d msg hmem
    obtain ⟨dom, -, heq⟩ := List.mem_map.mp hmem
    cases heq
    cases hread : any x.flags dtReceiverRead with
    | true =>
      refine ⟨[.ofData x.data], rfl, ?_, by simp [clientIoPush, hread, rpcPush]⟩
      intro j z hz
      obtain ⟨rfl, rfl⟩ : j = 0 ∧ x = z := by simpa [List.getElem?_singleton] using hz
      exact ⟨_, rfl, rfl, fun _ => rfl⟩
    | false =>
      refine ⟨[.ofData (buf x.data.length).toList], rfl, ?_, by simp [clientIoPush, hread, rpcPush]⟩
      intro j z hz
      obtain ⟨rfl, rfl⟩ : j = 0 ∧ x = z := by simpa [List.getElem?_singleton] using hz
      refine ⟨_, rfl, Vector.length_toList, ?_⟩
      intro hz'
      rw [hread] at hz'
      cases hz'
  | _ :: _ :: _ =>
    simp only [List.length_cons] at hone
    omega

theorem copyOf_push (c : Cereal V) (types : TaskStateId → ℕ → Option (TaskType Ty)) (buf : ∀ n, Vector UInt8 n)
    (node : NodeId) (t : Task (Fields V)) (f : Fields V) (hbody : t.body = .own f)
    (htype : types t.taskState t.method = some f.type) (hone : f.transfers.length ≤ 1) (hc : c.RoundTrips t f)
    (domainIds : List DomainId) : ∃ msgs,
      push (saveStart c (DomainId.getNode node) t) t.taskState t.method domainIds = some msgs ∧
      msgs.map (·.1) = domainIds.map (·.id) ∧
      ∀ d msg, (d, msg) ∈ msgs → ∃ u, rpcPush c types buf d msg = some u ∧ CopyOf d t u := by
  rw [saveStart_own c _ hbody]
  have hmarked : (f.transfers.map (mark (DomainId.getNode node))).length ≤ 1 := by
    rw [List.length_map]
    exact hone
  obtain ⟨msgs, hpush, hids, hmsgs⟩ := rpcPush_push c types buf t.taskState t.method domainIds hmarked _
  refine ⟨msgs, hpush, hids, ?_⟩
  intro d msg hmem
  obtain ⟨ys, hlen, hys, hrpc⟩ := hmsgs d msg hmem
  rw [List.length_map] at hlen
  have hlast := List.getLast?_concat (l := ys) (a := DataTransfer.ofData (bytes c.field f.before ++
    (taskBytes c t ++ bytes c.field f.after)))
  have hsame : ∀ (j : ℕ) x, f.transfers[j]? = some x →
      ∃ y, (ys ++ [DataTransfer.ofData (bytes c.field f.before ++ (taskBytes c t ++ bytes c.field f.after))])[j]? =
        some y ∧ y.data.length = x.data.length ∧ (any x.flags dtReceiverRead = true → y.data = x.data) := by
    intro j x hx
    obtain ⟨y, hy, hrest⟩ := hys j (mark (DomainId.getNode node) x) (by rw [List.getElem?_map, hx]; rfl)
    refine ⟨y, ?_, hrest⟩
    rw [List.getElem?_append_left (List.getElem?_eq_some_iff.mp hy).1]
    exact hy
  have hmore : f.transfers.length ≤ (ys ++ [DataTransfer.ofData (bytes c.field f.before ++
      (taskBytes c t ++ bytes c.field f.after))]).length := by
    rw [List.length_append, hlen]
    omega
  dsimp only at hrpc
  generalize ys ++ [DataTransfer.ofData (bytes c.field f.before ++ (taskBytes c t ++ bytes c.field f.after))] = xs
    at hrpc hlast hsame hmore
  refine ⟨received d { t with body := .own ⟨fill f.before xs, fill f.after (xs.drop (parts f.before).length)⟩ },
    ?_, rfl, rfl, rfl, rfl, rfl, rfl, rfl, f, _, hbody, rfl, ?_, ?_⟩
  · rw [hrpc, rpcExec, hlast, Option.bind_some, htype, Option.bind_some]
    exact congrArg (Option.map (received d)) (loadStart_bytes hc xs hmore)
  -- the transfers among the fields before and after `task_serialize` are the first and the last of those received
  · apply sameItem_fill
    intro j x hx
    apply hsame j x
    rw [Fields.transfers, List.getElem?_append_left (List.getElem?_eq_some_iff.mp hx).1]
    exact hx
  · apply sameItem_fill
    intro j x hx
    obtain ⟨y, hy, hrest⟩ := hsame ((parts f.before).length + j) x (by
      rw [Fields.transfers, List.getElem?_append_right (by omega), Nat.add_sub_cancel_left]
      exact hx)
    exact ⟨y, by rw [List.getElem?_drop]; exact hy, hrest⟩

theorem loadTask_of_copyOf {π ρ : Type} (cfg : RemoteQueue.Config (Fields V) π ρ) {d : NodeId}
    {t u : Task (Fields V)} (h : CopyOf d t u) (hsrl : ∀ f g, t.body = .own f → u.body = .own g →
      (cfg.srl t.taskState).loadStart t.method ((cfg.srl t.taskState).saveStart t.method f) = g) :
    u = RemoteQueue.loadTask cfg d t := by
  obtain ⟨f, g, hf, hg, -⟩ := h.fields
  have hown : RemoteQueue.mapOwn (fun a => (cfg.srl t.taskState).loadStart t.method
      ((cfg.srl t.taskState).saveStart t.method a)) t = { t with body := .own g } := by
    simp only [RemoteQueue.mapOwn, hf, hsrl f g hf hg]
  have hload : RemoteQueue.loadTask cfg d t = received d { t with body := .own g } := by
    rw [RemoteQueue.loadTask, hown]
    rfl
  rw [hload]
  calc u = ⟨u.taskState, u.taskNode, u.domainId, u.prio, u.laneHash, u.method, u.taskFlags, u.body⟩ := rfl
    _ = received d { t with body := .own g } := by
      rw [h.taskState, h.taskNode, h.domainId, h.prio, h.laneHash, h.method, h.taskFlags, hg]
      rfl

section IoTask

/-- The binary archives of `cereal`: integers in their width, the members of a struct in order. `hash_` is zero. -/
def binaryCereal : Cereal fun _ : Unit => ℕ where
  taskState := uniqueId
  taskNode := (uniqueId.pair (.num 4)).map (fun x => ⟨x.1, x.2⟩) (fun n => (n.root, n.nodeDepth))
  domainId := (Codec.pair (.num 4) (.num 4)).map (fun x => ⟨BitVec.ofNat 32 x.1, x.2⟩) (fun d => (d.flags.toNat, d.id))
  laneHash := (Codec.num 4).map UInt32.ofNat UInt32.toNat
  prio := .num 4
  method := .num 4
  taskFlags := (Codec.num 4).map (BitVec.ofNat 32) BitVec.toNat
  field _ := .num 4
where
  uniqueId : Codec UniqueId := (Codec.pair (.num 4) (Codec.pair (.num 4) (.num 8))).map
    (fun x => ⟨x.1, x.2.2⟩) (fun i => (i.nodeId, 0, i.unique))

theorem uniqueId_roundTrips {i : UniqueId} (hn : i.nodeId < 256 ^ 4) (hu : i.unique < 256 ^ 8) :
    binaryCereal.uniqueId.RoundTrips i := by
  apply Codec.RoundTrips.map
  · have hhash : (Codec.num 4).RoundTrips 0 := Codec.roundTrips_num (by decide)
    exact Codec.RoundTrips.pair (Codec.roundTrips_num hn) (Codec.RoundTrips.pair hhash (Codec.roundTrips_num hu))
  · rfl

def ioTask (data : List UInt8) : Task (Fields fun _ : Unit => ℕ) :=
  ⟨⟨1, 8⟩, ⟨⟨1, 9⟩, 0⟩, DomainId.getNode 2, TaskPrio.kLowLatency, 3, SmallMessage.Method.kIo, 0#32,
    .own ⟨[], [.part ⟨dtReceiverRead, data, DomainId.getNode 2⟩]⟩⟩

theorem copyOf_ioTask : ∃ msgs, push (saveStart binaryCereal (DomainId.getNode 1)
      (ioTask (List.replicate 4096 10))) ⟨1, 8⟩ SmallMessage.Method.kIo [DomainId.getNode 2] = some msgs ∧
    msgs.map (·.1) = [2] ∧ ∀ d msg, (d, msg) ∈ msgs → ∃ u,
      rpcPush binaryCereal (fun _ _ => some ⟨[], [.part]⟩) (fun n => Vector.replicate n 0) d msg = some u ∧
        CopyOf d (ioTask (List.replicate 4096 10)) u := by
  have hid : ∀ n, n < 10 → binaryCereal.uniqueId.RoundTrips ⟨1, n⟩ := by
    intro n hn
    have hlt : n < 256 ^ 8 := by omega
    exact uniqueId_roundTrips (i := ⟨1, n⟩) (show 1 < 256 ^ 4 by decide) hlt
  have hnum : ∀ n, n < 10 → (Codec.num 4).RoundTrips n := by
    intro n hn
    have hlt : n < 256 ^ 4 := by omega
    exact Codec.roundTrips_num hlt
  refine copyOf_push binaryCereal (fun _ _ => some ⟨[], [.part]⟩) (fun n => Vector.replicate n 0) 1
    (ioTask (List.replicate 4096 10)) _ rfl rfl (Nat.le_refl 1) ?_ [DomainId.getNode 2]
  refine ⟨hid 8 (by omega), ?_, ?_, ?_, hnum 2 (by omega), hnum 3 (by omega), ?_, ?_, ?_⟩
  · dsimp only [binaryCereal]
    apply Codec.RoundTrips.map
    · exact Codec.RoundTrips.pair (hid 9 (by omega)) (hnum 0 (by omega))
    · rfl
  · dsimp only [binaryCereal]
    apply Codec.RoundTrips.map
    · exact Codec.RoundTrips.pair (hnum 8 (by omega)) (hnum 2 (by omega))
    · rfl
  · dsimp only [binaryCereal]
    apply Codec.RoundTrips.map
    · exact hnum 3 (by omega)
    · rfl
  · dsimp only [binaryCereal]
    apply Codec.RoundTrips.map
    · exact hnum 0 (by omega)
    · rfl
  · intro τ x hmem
    cases hmem
  · intro τ x hmem
    cases List.mem_singleton.mp hmem

end IoTask

end HermesRun.Network
