import Mathlib.Data.BitVec
import Mathlib.Data.List.Induction

namespace Bitfield

abbrev Flags := BitVec 32

def bitOpt (k : ℕ) : Flags := BitVec.twoPow 32 k

def any (f mask : Flags) : Bool := f &&& mask != 0#32

def setBits (f mask : Flags) : Flags := f ||| mask

def unsetBits (f mask : Flags) : Flags := f &&& ~~~mask

theorem any_bitOpt (f : Flags) {k : ℕ} (hk : k < 32) : any f (bitOpt k) = f.getLsbD k := by
  have hz : BitVec.twoPow 32 k ≠ 0#32 := by
    intro h
    have hb := congrArg (fun x => x.getLsbD k) h
    simp [hk] at hb
  simp only [any, bitOpt, BitVec.and_twoPow]
  cases f.getLsbD k
  · simp
  · simpa using hz

theorem any_or (f a b : Flags) : any f (a ||| b) = (any f a || any f b) := by
  simp only [any, BitVec.and_or_distrib_left, bne, ← Bool.not_and]
  congr 1
  rw [Bool.eq_iff_iff, Bool.and_eq_true, beq_iff_eq, beq_iff_eq, beq_iff_eq]
  exact BitVec.or_eq_zero_iff

theorem getLsbD_setBits (f : Flags) (j : ℕ) {k : ℕ} (hk : k < 32) :
    (setBits f (bitOpt j)).getLsbD k = (f.getLsbD k || decide (k = j)) := by
  simp [setBits, bitOpt, hk]

theorem getLsbD_unsetBits (f : Flags) (j : ℕ) {k : ℕ} (hk : k < 32) :
    (unsetBits f (bitOpt j)).getLsbD k = (f.getLsbD k && decide (k ≠ j)) := by
  simp [unsetBits, bitOpt, hk]

theorem any_setBits (f : Flags) {j k : ℕ} (hk : k < 32) :
    any (setBits f (bitOpt j)) (bitOpt k) = (any f (bitOpt k) || decide (k = j)) := by
  rw [any_bitOpt _ hk, any_bitOpt _ hk, getLsbD_setBits _ _ hk]

theorem any_unsetBits (f : Flags) {j k : ℕ} (hk : k < 32) :
    any (unsetBits f (bitOpt j)) (bitOpt k) = (any f (bitOpt k) && decide (k ≠ j)) := by
  rw [any_bitOpt _ hk, any_bitOpt _ hk, getLsbD_unsetBits _ _ hk]

theorem setBits_or (f a b : Flags) : setBits f (a ||| b) = setBits (setBits f a) b := by
  simp [setBits, BitVec.or_assoc]

theorem unsetBits_or (f a b : Flags) : unsetBits f (a ||| b) = unsetBits (unsetBits f a) b := by
  simp [unsetBits, BitVec.and_assoc, BitVec.not_or]

inductive Write where
  | set (mask : Flags)
  | unset (mask : Flags)

namespace Write

def apply (f : Flags) : Write → Flags
  | .set mask => setBits f mask
  | .unset mask => unsetBits f mask

def sets (k : ℕ) : Write → Option Bool
  | .set mask => if mask.getLsbD k then some true else none
  | .unset mask => if mask.getLsbD k then some false else none

theorem getLsbD_apply (f : Flags) (w : Write) {k : ℕ} (hk : k < 32) :
    (w.apply f).getLsbD k = (w.sets k).getD (f.getLsbD k) := by
  cases w with
  | set mask =>
    simp only [apply, sets, setBits, BitVec.getLsbD_or]
    cases mask.getLsbD k <;> simp
  | unset mask =>
    simp only [apply, sets, unsetBits, BitVec.getLsbD_and, BitVec.getLsbD_not]
    cases mask.getLsbD k <;> simp [hk]

end Write

/-- After any writes a bit is what the last write to it made of it. -/
theorem getLsbD_writes (f : Flags) (ws : List Write) {k : ℕ} (hk : k < 32) :
    (ws.foldl Write.apply f).getLsbD k = ((ws.filterMap (Write.sets k)).getLast?).getD (f.getLsbD k) := by
  induction ws using List.reverseRecOn with
  | nil => rfl
  | append_singleton ws w ih =>
    rw [List.foldl_append, List.filterMap_append]
    have hlast : ((w.apply (ws.foldl Write.apply f))).getLsbD k = (w.sets k).getD _ := Write.getLsbD_apply _ w hk
    simp only [List.foldl_cons, List.foldl_nil, hlast, ih]
    cases hw : w.sets k with
    | none => simp [hw]
    | some b => simp [hw]

end Bitfield
