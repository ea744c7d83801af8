import Mathlib.Algebra.Group.Nat.Defs
import Mathlib.Data.Nat.Basic

namespace Bytes

def toBytes : ℕ → ℕ → List UInt8
  | 0, _ => []
  | w + 1, n => UInt8.ofNat n :: toBytes w (n / 256)

def ofBytes : List UInt8 → ℕ
  | [] => 0
  | b :: bs => b.toNat + 256 * ofBytes bs

theorem toBytes_length (w n : ℕ) : (toBytes w n).length = w := by
  induction w generalizing n with
  | zero => rfl
  | succ w ih => simp [toBytes, ih]

theorem ofBytes_toBytes (w n : ℕ) : ofBytes (toBytes w n) = n % 256 ^ w := by
  induction w generalizing n with
  | zero => simp [toBytes, ofBytes, Nat.mod_one]
  | succ w ih =>
    have hb : (UInt8.ofNat n).toNat = n % 256 := UInt8.toNat_ofNat'
    simp only [toBytes, ofBytes, ih, hb]
    rw [Nat.pow_succ', Nat.mod_mul]

theorem toBytes_inj {w m n : ℕ} (hm : m < 256 ^ w) (hn : n < 256 ^ w)
    (h : toBytes w m = toBytes w n) : m = n := by
  have ho := congrArg ofBytes h
  rwa [ofBytes_toBytes, ofBytes_toBytes, Nat.mod_eq_of_lt hm, Nat.mod_eq_of_lt hn] at ho

end Bytes
