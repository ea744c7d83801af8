import HermesRun.Lib.Bytes
import Mathlib.Tactic.Positivity

namespace HermesRun

open Bytes

abbrev Charbuf := List UInt8

/-- The serializer is the buffer it writes to; its constructor empties that buffer. -/
structure LocalSerialize where
  data : Charbuf

namespace LocalSerialize

def init (_data : Charbuf) : LocalSerialize := ⟨[]⟩

def putNum (srl : LocalSerialize) (w n : ℕ) : LocalSerialize := ⟨srl.data ++ toBytes w n⟩

def putBuf (srl : LocalSerialize) (s : Charbuf) : LocalSerialize := ⟨srl.data ++ s⟩

inductive Value where
  | num (w : ℕ) (n : Fin (256 ^ w))
  | buf (s : Charbuf)
  deriving DecidableEq

/-- What a reader knows of a value before it has read it: its type and, for a string, its size. -/
inductive Shape where
  | num (w : ℕ)
  | buf (size : ℕ)
  deriving DecidableEq

def Value.shape : Value → Shape
  | .num w _ => .num w
  | .buf s => .buf s.length

def put (srl : LocalSerialize) : Value → LocalSerialize
  | .num w n => srl.putNum w n
  | .buf s => srl.putBuf s

def putAll (srl : LocalSerialize) (vs : List Value) : LocalSerialize := vs.foldl put srl

end LocalSerialize

structure LocalDeserialize where
  data : Charbuf
  curOff : ℕ
  deriving DecidableEq

namespace LocalDeserialize

open LocalSerialize (Value Shape)

def init (data : Charbuf) : LocalDeserialize := ⟨data, 0⟩

/-- The `size` bytes at `cur_off_`; `none` when they go past the end of the buffer. -/
def read (d : LocalDeserialize) (size : ℕ) : Option (Charbuf × LocalDeserialize) :=
  if d.curOff + size ≤ d.data.length then
    some ((d.data.drop d.curOff).take size, { d with curOff := d.curOff + size })
  else none

def get (d : LocalDeserialize) : Shape → Option (Value × LocalDeserialize)
  | .num w => (d.read w).map fun (bs, d) => (.num w ⟨ofBytes bs % 256 ^ w, Nat.mod_lt _ (by positivity)⟩, d)
  | .buf size => (d.read size).map fun (bs, d) => (.buf bs, d)

def getAll (d : LocalDeserialize) : List Shape → Option (List Value × LocalDeserialize)
  | [] => some ([], d)
  | τ :: τs => (d.get τ).bind fun (v, d) => (d.getAll τs).map fun (vs, d) => (v :: vs, d)

end LocalDeserialize

namespace LocalSerialize

def Value.bytes : Value → Charbuf
  | .num w n => toBytes w n
  | .buf s => s

theorem put_data (srl : LocalSerialize) (v : Value) : (srl.put v).data = srl.data ++ v.bytes := by
  cases v <;> rfl

theorem putAll_data (srl : LocalSerialize) (vs : List Value) :
    (srl.putAll vs).data = srl.data ++ vs.flatMap Value.bytes := by
  induction vs generalizing srl with
  | nil => simp [putAll]
  | cons v vs ih =>
    have htail := ih (srl.put v)
    rw [put_data, List.append_assoc] at htail
    exact htail

end LocalSerialize

namespace LocalDeserialize

open LocalSerialize (Value Shape)

theorem read_append (pre bs post : Charbuf) :
    (⟨pre ++ (bs ++ post), pre.length⟩ : LocalDeserialize).read bs.length =
      some (bs, ⟨pre ++ (bs ++ post), (pre ++ bs).length⟩) := by
  have hlen : pre.length + bs.length ≤ (pre ++ (bs ++ post)).length := by
    rw [List.length_append, List.length_append]
    omega
  simp only [read]
  rw [if_pos hlen, List.drop_left, List.take_left, List.length_append]

theorem get_put (pre post : Charbuf) (v : Value) :
    (⟨pre ++ (v.bytes ++ post), pre.length⟩ : LocalDeserialize).get v.shape =
      some (v, ⟨pre ++ (v.bytes ++ post), (pre ++ v.bytes).length⟩) := by
  cases v with
  | num w n =>
    have hread := read_append pre (toBytes w n) post
    rw [toBytes_length] at hread
    have hval : ofBytes (toBytes w n) % 256 ^ w = n := by
      rw [ofBytes_toBytes, Nat.mod_mod, Nat.mod_eq_of_lt n.isLt]
    simp only [Value.bytes, Value.shape, get]
    rw [hread, Option.map_some]
    simp only [hval]
  | buf s =>
    have hread := read_append pre s post
    simp only [Value.bytes, Value.shape, get]
    rw [hread, Option.map_some]

theorem getAll_bytes (pre : Charbuf) (vs : List Value) :
    (⟨pre ++ vs.flatMap Value.bytes, pre.length⟩ : LocalDeserialize).getAll (vs.map Value.shape) =
      some (vs, ⟨pre ++ vs.flatMap Value.bytes, (pre ++ vs.flatMap Value.bytes).length⟩) := by
  induction vs generalizing pre with
  | nil => simp [getAll]
  | cons v vs ih =>
    have hget := get_put pre (vs.flatMap Value.bytes) v
    have htail := ih (pre ++ v.bytes)
    rw [List.append_assoc] at htail
    simp only [List.map_cons, getAll, List.flatMap_cons]
    rw [hget, Option.bind_some, htail, Option.map_some]

theorem getAll_putAll (old : Charbuf) (vs : List Value) :
    (init ((LocalSerialize.init old).putAll vs).data).getAll (vs.map Value.shape) =
        some (vs, ⟨((LocalSerialize.init old).putAll vs).data, ((LocalSerialize.init old).putAll vs).data.length⟩) ∧
      ∀ old' ws, ws.map Value.shape = vs.map Value.shape →
        ((LocalSerialize.init old').putAll ws).data = ((LocalSerialize.init old).putAll vs).data → ws = vs := by
  have hread : ∀ (b : Charbuf) (us : List Value),
      (init ((LocalSerialize.init b).putAll us).data).getAll (us.map Value.shape) =
        some (us, ⟨((LocalSerialize.init b).putAll us).data, ((LocalSerialize.init b).putAll us).data.length⟩) := by
    intro b us
    rw [LocalSerialize.putAll_data]
    exact getAll_bytes [] us
  constructor
  · exact hread old vs
  · intro old' ws hshape hdata
    have hws := hread old' ws
    rw [hshape, hdata, hread old vs] at hws
    injection hws with hpair
    exact (congrArg Prod.fst hpair).symm

theorem getAll_putAll_u32 :
    (init ((LocalSerialize.init [9]).putAll [.num 4 ⟨7, by decide⟩, .buf [1, 2]]).data).getAll [.num 4, .buf 2] =
        some ([.num 4 ⟨7, by decide⟩, .buf [1, 2]], ⟨[7, 0, 0, 0, 1, 2], 6⟩) ∧
      ((LocalSerialize.init []).putAll [.num 4 ⟨8, by decide⟩, .buf [1, 2]]).data ≠ [7, 0, 0, 0, 1, 2] := by
  have h := getAll_putAll [9] [.num 4 ⟨7, by decide⟩, .buf [1, 2]]
  refine ⟨h.1, ?_⟩
  intro hdata
  exact absurd (h.2 [] [.num 4 ⟨8, by decide⟩, .buf [1, 2]] rfl hdata) (by decide)

end LocalDeserialize

end HermesRun
