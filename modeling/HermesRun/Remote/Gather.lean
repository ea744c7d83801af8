import HermesRun.Remote.RemoteQueue
import Mathlib.Data.List.Induction

namespace HermesRun

namespace RemoteQueue

variable {α π ρ : Type}

def gather (srl : TaskSrl α π ρ) (method : ℕ) (a : α) (outs : List α) : α :=
  outs.zipIdx.foldl (fun a o => srl.loadEnd o.2 method (srl.saveEnd method o.1) a) a

theorem gather_append (srl : TaskSrl α π ρ) (method : ℕ) (a o : α) (outs : List α) :
    gather srl method a (outs ++ [o]) =
      srl.loadEnd outs.length method (srl.saveEnd method o) (gather srl method a outs) := by
  simp [gather, List.zipIdx_append]

structure ReplicaAware (srl : TaskSrl α π ρ) (lib : TaskLib α) (method : ℕ) (β : Type) where
  slot : ℕ → α → β
  size : α → ℕ
  start : ∀ n a, size (lib.replicateStart method n a) = n
  size_load : ∀ i r a, size (srl.loadEnd i method r a) = size a
  load : ∀ i o a, i < size a → slot i (srl.loadEnd i method (srl.saveEnd method o) a) = slot 0 o
  load_other : ∀ i j r a, j ≠ i → slot j (srl.loadEnd i method r a) = slot j a
  finish : ∀ i a, slot i (srl.replicateEnd method a) = slot i a

namespace ReplicaAware

variable {srl : TaskSrl α π ρ} {lib : TaskLib α} {method : ℕ} {β : Type} (R : ReplicaAware srl lib method β)

theorem size_gather (a : α) (outs : List α) : R.size (gather srl method a outs) = R.size a := by
  induction outs using List.reverseRecOn with
  | nil => rfl
  | append_singleton outs o ih => rw [gather_append, R.size_load, ih]

theorem slot_gather (a : α) {outs : List α} (hn : outs.length ≤ R.size a) {i : ℕ} {o : α}
    (ho : outs[i]? = some o) : R.slot i (gather srl method a outs) = R.slot 0 o := by
  induction outs using List.reverseRecOn with
  | nil => cases ho
  | append_singleton outs last ih =>
    rw [List.length_append, List.length_singleton] at hn
    rw [gather_append]
    by_cases hi : i < outs.length
    · rw [List.getElem?_append_left hi] at ho
      rw [R.load_other _ _ _ _ (Nat.ne_of_lt hi)]
      exact ih (by omega) ho
    · have hi' : i = outs.length := by
        have hlt := (List.getElem?_eq_some_iff.mp ho).1
        rw [List.length_append, List.length_singleton] at hlt
        omega
      subst hi'
      rw [List.getElem?_concat_length, Option.some.injEq] at ho
      subst ho
      exact R.load _ _ _ (by rw [R.size_gather]; omega)

end ReplicaAware

end RemoteQueue

namespace SmallMessage

namespace Method
def kMd : ℕ := TaskMethod.kLast + 0
def kIo : ℕ := TaskMethod.kLast + 1
def kMdPush : ℕ := TaskMethod.kLast + 2
end Method

/-- The operations of `hipc::pod_array<int, 1>`, which is not part of the sources. `new` is what its default constructor
leaves, before `construct`. -/
structure PodArray (A : Type) where
  new : A
  construct : ℕ → A
  size : A → ℕ
  resize : A → ℕ → A
  get : A → ℕ → BitVec 32
  set : A → ℕ → BitVec 32 → A

/-- What the library relies on. `MdTask(alloc)` does not construct its array, and yet the handler of a copy writes to
element 0 of it and `SaveEnd` reads that. -/
structure PodArray.Lawful {A : Type} (P : PodArray A) : Prop where
  size_construct : ∀ n, P.size (P.construct n) = n
  size_resize : ∀ a n, P.size (P.resize a n) = n
  size_set : ∀ a i x, P.size (P.set a i x) = P.size a
  get_set : ∀ a i x, i < P.size a → P.get (P.set a i x) i = x
  get_set_of_ne : ∀ a i j x, j ≠ i → P.get (P.set a i x) j = P.get a j
  get_set_new : ∀ a x, P.size a = P.size P.new → P.get (P.set a 0 x) 0 = x

def PodArray.IsSingle {A : Type} (P : PodArray A) (a : A) : Prop := P.size a = 1 ∨ P.size a = P.size P.new

theorem PodArray.Lawful.get_set_single {A : Type} {P : PodArray A} (h : P.Lawful) {a : A} (ha : P.IsSingle a)
    (x : BitVec 32) : P.get (P.set a 0 x) 0 = x := by
  rcases ha with ha | ha
  · apply h.get_set
    omega
  · exact h.get_set_new a x ha

theorem PodArray.Lawful.isSingle_set {A : Type} {P : PodArray A} (h : P.Lawful) {a : A} (ha : P.IsSingle a) (i : ℕ)
    (x : BitVec 32) : P.IsSingle (P.set a i x) := by
  rw [PodArray.IsSingle, h.size_set]
  exact ha

inductive Fields (A : Type) where
  | md (ret : A)
  | io (data : List UInt8) (ret : BitVec 32)
  deriving DecidableEq, Repr

def isMd (method : ℕ) : Bool := method == Method.kMd || method == Method.kMdPush

def getGroup (method : ℕ) : Bitfield.Flags × (Charbuf → Charbuf) :=
  if method = TaskMethod.kConstruct then (0#32, fun g => ((LocalSerialize.init g).putNum 4 16).data)
  else if method = TaskMethod.kDestruct ∨ TaskMethod.kLast ≤ method ∧ method ≤ Method.kMdPush then
    (taskUnordered, id)
  else (-1#32, id)

section Library

variable {A : Type} (P : PodArray A)

def Fields.ret : Fields A → A
  | .md ret => ret
  | .io _ _ => P.new

@[simp] theorem Fields.ret_md (ret : A) : (Fields.md ret).ret P = ret := rfl

def Fields.ioData : Fields A → List UInt8
  | .md _ => []
  | .io data _ => data

def Fields.ioRet : Fields A → BitVec 32
  | .md _ => 0
  | .io _ ret => ret

def lib : TaskLib (Fields A) where
  getGroup method _ := getGroup method
  replicateStart method count a := if isMd method then .md (P.resize (a.ret P) count) else a

/-- `SerializeStart` of an `MdTask` writes no field of its own. `ioRet` is what `ret_` of a new `IoTask` holds. -/
def srl (ioRet : BitVec 32) : RemoteQueue.TaskSrl (Fields A) (List UInt8) (BitVec 32) where
  xferSize method := if method = Method.kIo then 2 else 1
  saveStart method a := if method = Method.kIo then a.ioData else []
  loadStart method data := if method = Method.kIo then .io data ioRet else .md P.new
  saveEnd method a := if isMd method then P.get (a.ret P) 0 else a.ioRet
  loadEnd replica method r a := if isMd method then .md (P.set (a.ret P) replica r) else .io a.ioData r
  replicateEnd _ a := a

end Library

abbrev ListFields := Fields (List (BitVec 32))

def listArray : PodArray (List (BitVec 32)) where
  new := [0]
  construct n := List.replicate n 0
  size ret := ret.length
  resize ret n := ret.take n ++ List.replicate (n - ret.length) 0
  get ret i := ret.getD i 0
  set ret i x := ret.set i x

theorem lawful_listArray : listArray.Lawful where
  size_construct n := List.length_replicate
  size_resize ret n := by
    simp [listArray]
    omega
  size_set ret i x := List.length_set
  get_set ret i x hi := by
    simp only [listArray] at hi
    simp [listArray, List.getD_eq_getElem?_getD, List.getElem?_set_self hi]
  get_set_of_ne ret i j x hj := by
    simp [listArray, List.getD_eq_getElem?_getD, List.getElem?_set_ne (Ne.symm hj)]
  get_set_new ret x h := by
    have hlt : 0 < ret.length := by
      simp only [listArray, List.length_singleton] at h
      omega
    simp [listArray, List.getD_eq_getElem?_getD, List.getElem?_set_self hlt]

end SmallMessage

end HermesRun
