import HermesRun.Lib.Bytes

namespace Archive

structure Codec (τ : Type) where
  put : τ → List UInt8
  get : List UInt8 → Option (τ × List UInt8)

def Codec.RoundTrips {τ : Type} (c : Codec τ) (x : τ) : Prop := ∀ rest, c.get (c.put x ++ rest) = some (x, rest)

namespace Codec

variable {τ σ : Type}

def num (w : ℕ) : Codec ℕ where
  put n := Bytes.toBytes w n
  get bs := if w ≤ bs.length then some (Bytes.ofBytes (bs.take w), bs.drop w) else none

def pair (c : Codec τ) (d : Codec σ) : Codec (τ × σ) where
  put x := c.put x.1 ++ d.put x.2
  get bs := (c.get bs).bind fun (x, bs) => (d.get bs).map fun (y, bs) => ((x, y), bs)

def map (c : Codec τ) (f : τ → σ) (g : σ → τ) : Codec σ where
  put x := c.put (g x)
  get bs := (c.get bs).map fun (x, bs) => (f x, bs)

theorem roundTrips_num {w n : ℕ} (h : n < 256 ^ w) : (num w).RoundTrips n := by
  intro rest
  have hlen : w ≤ (Bytes.toBytes w n ++ rest).length := by
    rw [List.length_append, Bytes.toBytes_length]
    omega
  simp only [num, if_pos hlen, Option.some.injEq, Prod.mk.injEq]
  constructor
  · rw [List.take_left' (Bytes.toBytes_length w n), Bytes.ofBytes_toBytes, Nat.mod_eq_of_lt h]
  · exact List.drop_left' (Bytes.toBytes_length w n)

theorem RoundTrips.pair {c : Codec τ} {d : Codec σ} {x : τ × σ} (hc : c.RoundTrips x.1) (hd : d.RoundTrips x.2) :
    (c.pair d).RoundTrips x := by
  intro rest
  simp only [Codec.pair, List.append_assoc]
  rw [hc, Option.bind_some, hd, Option.map_some]

theorem RoundTrips.map {c : Codec τ} {f : τ → σ} {g : σ → τ} {x : σ} (hc : c.RoundTrips (g x)) (hx : f (g x) = x) :
    (c.map f g).RoundTrips x := by
  intro rest
  simp only [Codec.map]
  rw [hc, Option.map_some, hx]

end Codec

structure Output (X : Type) where
  parts : List X
  bytes : List UInt8

structure Input (X : Type) where
  parts : List X
  off : ℕ
  bytes : List UInt8

variable {Ty X Y : Type} {Val : Ty → Type}

namespace Output

def plain {τ : Type} (o : Output X) (c : Codec τ) (x : τ) : Output X := { o with bytes := o.bytes ++ c.put x }

def part (o : Output X) (x : X) : Output X := { o with parts := o.parts ++ [x] }

end Output

namespace Input

def plain {τ : Type} (i : Input X) (c : Codec τ) : Option (τ × Input X) :=
  (c.get i.bytes).map fun (x, bs) => (x, { i with bytes := bs })

def part (i : Input X) : Option (X × Input X) := i.parts[i.off]?.map fun x => (x, { i with off := i.off + 1 })

theorem plain_put {τ : Type} {c : Codec τ} {x : τ} (h : c.RoundTrips x) (parts : List X) (off : ℕ)
    (rest : List UInt8) : (⟨parts, off, c.put x ++ rest⟩ : Input X).plain c = some (x, ⟨parts, off, rest⟩) := by
  simp only [plain]
  rw [h, Option.map_some]

end Input

inductive Item (Val : Ty → Type) (X : Type) where
  | plain (τ : Ty) (x : Val τ)
  | part (x : X)

inductive Slot (Ty : Type) where
  | plain (τ : Ty)
  | part
  deriving DecidableEq

def Item.slot : Item Val X → Slot Ty
  | .plain τ _ => .plain τ
  | .part _ => .part

def parts : List (Item Val X) → List X
  | [] => []
  | .plain _ _ :: items => parts items
  | .part x :: items => x :: parts items

def bytes (c : ∀ τ, Codec (Val τ)) : List (Item Val X) → List UInt8
  | [] => []
  | .plain τ x :: items => (c τ).put x ++ bytes c items
  | .part _ :: items => bytes c items

def fill : List (Item Val X) → List X → List (Item Val X)
  | [], _ => []
  | .plain τ x :: items, xs => .plain τ x :: fill items xs
  | .part x :: items, [] => .part x :: fill items []
  | .part _ :: items, x :: xs => .part x :: fill items xs

/-- Writes the items in order; `mark` is what the writer makes of a part. -/
def save (c : ∀ τ, Codec (Val τ)) (mark : X → X) (o : Output X) : List (Item Val X) → Output X
  | [] => o
  | .plain τ x :: items => save c mark (o.plain (c τ) x) items
  | .part x :: items => save c mark (o.part (mark x)) items

def load (c : ∀ τ, Codec (Val τ)) (i : Input X) : List (Slot Ty) → Option (List (Item Val X) × Input X)
  | [] => some ([], i)
  | .plain τ :: slots => (i.plain (c τ)).bind fun (x, i) =>
    (load c i slots).map fun (items, i) => (.plain τ x :: items, i)
  | .part :: slots => i.part.bind fun (x, i) =>
    (load c i slots).map fun (items, i) => (.part x :: items, i)

theorem save_eq (c : ∀ τ, Codec (Val τ)) (mark : X → X) (o : Output X) (items : List (Item Val X)) :
    save c mark o items = ⟨o.parts ++ (parts items).map mark, o.bytes ++ bytes c items⟩ := by
  induction items generalizing o with
  | nil => simp [save, parts, bytes]
  | cons item items ih =>
    cases item with
    | plain τ x => simp [save, parts, bytes, ih, Output.plain, List.append_assoc]
    | part x => simp [save, parts, bytes, ih, Output.part, List.append_assoc]

def RoundTrips (c : ∀ τ, Codec (Val τ)) (items : List (Item Val X)) : Prop :=
  ∀ τ x, .plain τ x ∈ items → (c τ).RoundTrips x

/-- Reading what was written for some items gives the items, with the parts that the reader was given instead of
those that the writer set aside. -/
theorem load_bytes (c : ∀ τ, Codec (Val τ)) (items : List (Item Val X)) (hc : RoundTrips c items) (xs : List X)
    (off : ℕ) (hx : off + (parts items).length ≤ xs.length) (rest : List UInt8) :
    load c ⟨xs, off, bytes c items ++ rest⟩ (items.map Item.slot) =
      some (fill items (xs.drop off), ⟨xs, off + (parts items).length, rest⟩) := by
  induction items generalizing off with
  | nil => rfl
  | cons item items ih =>
    have htail : RoundTrips c items := fun τ x hmem => hc τ x (List.mem_cons_of_mem _ hmem)
    cases item with
    | plain τ x =>
      have hread := Input.plain_put (hc τ x List.mem_cons_self) xs off (bytes c items ++ rest)
      simp only [List.map_cons, Item.slot, load, bytes, List.append_assoc]
      rw [hread, Option.bind_some, ih htail off hx, Option.map_some]
      rfl
    | part x =>
      have hlen : off + 1 + (parts items).length ≤ xs.length := by
        have hcount : (parts (Item.part x :: items)).length = (parts items).length + 1 := rfl
        rw [hcount] at hx
        omega
      have hlt : off < xs.length := by omega
      have hread : (⟨xs, off, bytes c items ++ rest⟩ : Input X).part =
          some (xs[off], ⟨xs, off + 1, bytes c items ++ rest⟩) := by
        simp only [Input.part]
        rw [List.getElem?_eq_getElem hlt, Option.map_some]
      simp only [List.map_cons, Item.slot, load, bytes]
      rw [hread, Option.bind_some, ih htail (off + 1) hlen, Option.map_some, List.drop_eq_getElem_cons hlt]
      simp only [fill, parts, List.length_cons, Option.some.injEq, Prod.mk.injEq, Input.mk.injEq, true_and, and_true]
      omega

def Item.mapPart (mark : X → Y) : Item Val X → Item Val Y
  | .plain τ x => .plain τ x
  | .part x => .part (mark x)

theorem fill_map (mark : X → X) (items : List (Item Val X)) (rest : List X) :
    fill items ((parts items).map mark ++ rest) = items.map (Item.mapPart mark) := by
  induction items with
  | nil => rfl
  | cons item items ih =>
    cases item with
    | plain τ x => simp only [parts, fill, List.map_cons, Item.mapPart, ih]
    | part x => simp only [parts, fill, List.map_cons, List.cons_append, Item.mapPart, ih]

theorem parts_mapPart (mark : X → Y) (items : List (Item Val X)) :
    parts (items.map (Item.mapPart mark)) = (parts items).map mark := by
  induction items with
  | nil => rfl
  | cons item items ih => cases item <;> simp only [List.map_cons, Item.mapPart, parts, ih]

theorem bytes_mapPart (c : ∀ τ, Codec (Val τ)) (mark : X → Y) (items : List (Item Val X)) :
    bytes c (items.map (Item.mapPart mark)) = bytes c items := by
  induction items with
  | nil => rfl
  | cons item items ih => cases item <;> simp only [List.map_cons, Item.mapPart, bytes, ih]

theorem fill_of_parts_eq_nil {items : List (Item Val X)} (h : parts items = []) (xs : List X) :
    fill items xs = items := by
  induction items with
  | nil => rfl
  | cons item items ih =>
    cases item with
    | plain τ x => simp only [fill, ih h]
    | part x => cases h

end Archive
