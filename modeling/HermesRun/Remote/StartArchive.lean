import HermesRun.Remote.Serialize

namespace HermesRun.StartArchive

open Archive Bitfield
open Network (dtReceiverRead dtReceiverWrite dtFreeData)

abbrev Addr := ℕ

abbrev Heap := Addr → List UInt8

structure DataTransfer where
  flags : Flags
  data : Addr
  dataSize : ℕ
  nodeId : DomainId
  deriving DecidableEq, Repr

structure BinaryOutputArchive where
  xfer : List DataTransfer
  ss : List UInt8
  nodeId : DomainId

structure BinaryInputArchive where
  xfer : List DataTransfer
  ss : List UInt8
  xferOff : ℕ
  deriving DecidableEq

variable {Ty : Type} {V : Ty → Type}

def mark (nodeId : DomainId) (x : DataTransfer) : DataTransfer := { x with nodeId := nodeId }

namespace BinaryOutputArchive

def init (nodeId : DomainId) : BinaryOutputArchive := ⟨[], [], nodeId⟩

def serialize (c : ∀ τ, Codec (V τ)) (ar : BinaryOutputArchive) (items : List (Item V DataTransfer)) :
    BinaryOutputArchive :=
  let out := save c (mark ar.nodeId) ⟨ar.xfer, ar.ss⟩ items
  { ar with xfer := out.parts, ss := out.bytes }

/-- `p` is the address that `malloc` returns. -/
def get (ar : BinaryOutputArchive) (p : Addr) (heap : Heap) : List DataTransfer × Heap :=
  if 0 < ar.ss.length then
    (ar.xfer ++ [⟨dtReceiverRead ||| dtFreeData, p, ar.ss.length, ar.nodeId⟩], Function.update heap p ar.ss)
  else (ar.xfer ++ [⟨dtReceiverRead ||| dtFreeData, 0, ar.ss.length, ar.nodeId⟩], heap)

end BinaryOutputArchive

namespace BinaryInputArchive

def init (heap : Heap) (xfer : List DataTransfer) : Option BinaryInputArchive :=
  xfer.getLast?.map fun params => ⟨xfer, (heap params.data).take params.dataSize, 0⟩

def deserialize (c : ∀ τ, Codec (V τ)) (ar : BinaryInputArchive) (slots : List (Slot Ty)) :
    Option (List (Item V DataTransfer) × BinaryInputArchive) :=
  (load c ⟨ar.xfer, ar.xferOff, ar.ss⟩ slots).map fun (items, i) => (items, ⟨i.parts, i.bytes, i.off⟩)

end BinaryInputArchive

structure IsParams (nodeId : DomainId) (bytes : List UInt8) (heap : Heap) (params : DataTransfer) : Prop where
  flags : params.flags = dtReceiverRead ||| dtFreeData
  dataSize : params.dataSize = bytes.length
  nodeId : params.nodeId = nodeId
  data : (heap params.data).take params.dataSize = bytes

theorem get_serialize (c : ∀ τ, Codec (V τ)) (nodeId : DomainId) (items : List (Item V DataTransfer)) (p : Addr)
    (heap : Heap) : ∃ params,
      (((BinaryOutputArchive.init nodeId).serialize c items).get p heap).1 =
        (parts items).map (mark nodeId) ++ [params] ∧
      IsParams nodeId (bytes c items) (((BinaryOutputArchive.init nodeId).serialize c items).get p heap).2
        params := by
  simp only [BinaryOutputArchive.serialize, BinaryOutputArchive.init, save_eq, List.nil_append,
    BinaryOutputArchive.get]
  by_cases hpos : 0 < (bytes c items).length
  · rw [if_pos hpos]
    refine ⟨_, rfl, rfl, rfl, rfl, ?_⟩
    simp
  · rw [if_neg hpos]
    have hnil : bytes c items = [] := List.eq_nil_of_length_eq_zero (by omega)
    refine ⟨_, rfl, rfl, rfl, rfl, ?_⟩
    simp [hnil]

def view (heap : Heap) (x : DataTransfer) : Network.DataTransfer :=
  ⟨x.flags, (heap x.data).take x.dataSize, x.nodeId⟩

theorem view_get (c : ∀ τ, Codec (V τ)) (nodeId : DomainId) (items : List (Item V DataTransfer)) (p : Addr)
    (heap : Heap) (hp : ∀ x ∈ parts items, x.data ≠ p) :
    (((BinaryOutputArchive.init nodeId).serialize c items).get p heap).1.map
        (view (((BinaryOutputArchive.init nodeId).serialize c items).get p heap).2) =
      Network.getXfer nodeId (save c (Network.mark nodeId) ⟨[], []⟩ (items.map (Item.mapPart (view heap)))) := by
  obtain ⟨params, hxfer, hparams⟩ := get_serialize c nodeId items p heap
  have hheap : ∀ x ∈ parts items,
      (((BinaryOutputArchive.init nodeId).serialize c items).get p heap).2 x.data = heap x.data := by
    intro x hx
    simp only [BinaryOutputArchive.get]
    by_cases hpos : 0 < ((BinaryOutputArchive.init nodeId).serialize c items).ss.length
    · rw [if_pos hpos]
      exact Function.update_of_ne (hp x hx) _ _
    · rw [if_neg hpos]
  generalize ((BinaryOutputArchive.init nodeId).serialize c items).get p heap = out at hxfer hparams hheap
  have hlast : view out.2 params = ⟨dtReceiverRead ||| dtFreeData, bytes c items, nodeId⟩ := by
    rw [view, hparams.flags, hparams.data, hparams.nodeId]
  have hmarked : ((parts items).map (mark nodeId)).map (view out.2) =
      ((parts items).map (view heap)).map (Network.mark nodeId) := by
    rw [List.map_map, List.map_map, List.map_inj_left]
    intro x hx
    simp only [Function.comp_apply, view, mark, Network.mark, hheap x hx]
  rw [hxfer, List.map_append, hmarked, List.map_singleton, hlast, Network.getXfer, save_eq, parts_mapPart,
    bytes_mapPart]
  rfl

section

def threeTransfers : List (Item (fun _ : Unit => ℕ) DataTransfer) :=
  [.part ⟨dtReceiverRead, 4096, 256, DomainId.getLocal⟩, .plain () 25,
    .part ⟨dtReceiverWrite, 8192, 16, DomainId.getLocal⟩, .plain () 30,
    .part ⟨dtReceiverRead, 0, 0, DomainId.getLocal⟩]

end

end HermesRun.StartArchive
