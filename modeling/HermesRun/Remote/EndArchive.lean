import HermesRun.Remote.Response

namespace HermesRun.EndArchive

open Archive Network Response
open RemoteQueue (TaskSrl ReplicaAware gather)

variable {Ty α π ρ : Type} {V : Ty → Type}

/-- What `SerializeEnd` passes to the archive for a replica, as a view of the task's own fields. -/
structure EndType (V : Ty → Type) (α : Type) where
  slots : List (Slot Ty)
  get : ℕ → α → List (Item V DataTransfer)
  set : ℕ → List (Item V DataTransfer) → α → α

/-- `operator<<` serialises replica 0. -/
def saveEnd (c : ∀ τ, Codec (V τ)) (node : DomainId) (E : EndType V α) (a : α) : List DataTransfer :=
  getXfer node (save c (mark node) ⟨[], []⟩ (E.get 0 a))

/-- What `ClientHandlePushReplicaOutput` makes of an answer; without a result it has thrown or read beyond its list of
transfers. -/
def loadEnd (c : ∀ τ, Codec (V τ)) (E : EndType V α) (replica : ℕ) (ret : List UInt8) (a : α) : Option α :=
  (load c ⟨[.ofData ret], 0, ret⟩ E.slots).map fun (items, _) => E.set replica items a

def answer (c : ∀ τ, Codec (V τ)) (node : DomainId) (E : EndType V α) (a : α) : List UInt8 :=
  returned (saveEnd c node E a)

variable (c : ∀ τ, Codec (V τ)) (node : DomainId) (E : EndType V α)

theorem answer_eq (a : α) : answer c node E a = ((parts (E.get 0 a)).head?.map DataTransfer.data).getD
    (bytes c (E.get 0 a)) := by
  have hempty : ∀ bs : List UInt8, (if 0 < bs.length then bs else []) = bs := by
    intro bs
    cases bs <;> rfl
  rw [answer, saveEnd, save_eq, getXfer]
  cases hp : parts (E.get 0 a) with
  | nil => exact hempty _
  | cons x xs => exact hempty _

theorem loadEnd_answer (i : ℕ) {a : α} (b : α) (hshape : (E.get 0 a).map Item.slot = E.slots)
    (hparts : parts (E.get 0 a) = []) (hc : RoundTrips c (E.get 0 a)) :
    loadEnd c E i (answer c node E a) b = some (E.set i (E.get 0 a) b) := by
  have hans : answer c node E a = bytes c (E.get 0 a) := by rw [answer_eq, hparts]; rfl
  have hload := load_bytes c (E.get 0 a) hc [.ofData (bytes c (E.get 0 a))] 0 (by rw [hparts]; exact Nat.zero_le _) []
  rw [List.append_nil, fill_of_parts_eq_nil hparts] at hload
  rw [hans, loadEnd, ← hshape, hload]
  rfl

def archived (srl : TaskSrl α π ρ) (E : ℕ → EndType V α) : TaskSrl α π (List UInt8) where
  xferSize := srl.xferSize
  saveStart := srl.saveStart
  loadStart := srl.loadStart
  saveEnd method a := answer c node (E method) a
  loadEnd replica method ret a := (loadEnd c (E method) replica ret a).getD a
  replicateEnd := srl.replicateEnd

structure Plain (E : EndType V α) : Prop where
  shape : ∀ i a, (E.get i a).map Item.slot = E.slots
  parts : ∀ i a, parts (E.get i a) = []
  reads : ∀ i a, RoundTrips c (E.get i a)

variable {c E}

theorem Plain.loadEnd (h : Plain c E) (i : ℕ) (a b : α) :
    loadEnd c E i (answer c node E a) b = some (E.set i (E.get 0 a) b) :=
  loadEnd_answer c node E i b (h.shape 0 a) (h.parts 0 a) (h.reads 0 a)

structure Slotted (srl : TaskSrl α π ρ) (lib : TaskLib α) (method : ℕ) (E : EndType V α) where
  size : α → ℕ
  start : ∀ n a, size (lib.replicateStart method n a) = n
  size_set : ∀ i xs a, size (E.set i xs a) = size a
  get_set : ∀ i o a, i < size a → E.get i (E.set i (E.get 0 o) a) = E.get 0 o
  get_other : ∀ i j xs a, j ≠ i → E.get j (E.set i xs a) = E.get j a
  finish : ∀ i a, E.get i (srl.replicateEnd method a) = E.get i a

def Slotted.replicaAware {srl : TaskSrl α π ρ} {lib : TaskLib α} {method : ℕ} {E : ℕ → EndType V α}
    (S : Slotted srl lib method (E method)) (h : Plain c (E method)) :
    ReplicaAware (archived c node srl E) lib method (List (Item V DataTransfer)) where
  slot := (E method).get
  size := S.size
  start := S.start
  size_load i r a := by
    show S.size ((EndArchive.loadEnd c (E method) i r a).getD a) = S.size a
    rw [EndArchive.loadEnd]
    cases load c ⟨[DataTransfer.ofData r], 0, r⟩ (E method).slots with
    | none => rfl
    | some r => exact S.size_set i _ a
  load i o a hi := by
    show (E method).get i ((EndArchive.loadEnd c (E method) i (answer c node (E method) o) a).getD a) = _
    rw [h.loadEnd node i o a]
    exact S.get_set i o a hi
  load_other i j r a hj := by
    show (E method).get j ((EndArchive.loadEnd c (E method) i r a).getD a) = _
    rw [EndArchive.loadEnd]
    cases load c ⟨[DataTransfer.ofData r], 0, r⟩ (E method).slots with
    | none => rfl
    | some r => exact S.get_other i j _ a hj
  finish := S.finish

structure Unslotted (srl : TaskSrl α π ρ) (method : ℕ) (E : EndType V α) : Prop where
  get_eq : ∀ i a, E.get i a = E.get 0 a
  get_set : ∀ i o a, E.get i (E.set i (E.get 0 o) a) = E.get 0 o
  finish : ∀ a, E.get 0 (srl.replicateEnd method a) = E.get 0 a

theorem Unslotted.get_gather {srl : TaskSrl α π ρ} {method : ℕ} {E : ℕ → EndType V α}
    (U : Unslotted srl method (E method)) (h : Plain c (E method)) (a o : α) (outs : List α) :
    (E method).get 0 (gather (archived c node srl E) method a (outs ++ [o])) = (E method).get 0 o := by
  rw [RemoteQueue.gather_append]
  show (E method).get 0 ((EndArchive.loadEnd c (E method) outs.length (answer c node (E method) o) _).getD _) = _
  rw [h.loadEnd node outs.length o, Option.getD_some, ← U.get_eq outs.length]
  exact U.get_set outs.length o _

end HermesRun.EndArchive
