import Mathlib.Data.Int.CardIntervalMod
import Mathlib.Data.List.Count
import Mathlib.Data.List.Range

namespace RoundRobin

def deal (m r : ℕ) : List ℕ := (List.range m).map (· % r)

theorem deal_succ (m r : ℕ) : deal (m + 1) r = deal m r ++ [m % r] := by
  simp [deal, List.range_succ]

theorem count_deal (m r v : ℕ) : (deal m r).count v = m.count (fun k => k % r = v) := by
  induction m with
  | zero => rfl
  | succ m ih =>
    rw [deal_succ, List.count_append, ih, Nat.count_succ]
    by_cases h : m % r = v <;> simp [h]

theorem count_deal_eq {m r v : ℕ} (hv : v < r) :
    (deal m r).count v = m / r + if v < m % r then 1 else 0 := by
  have hr : 0 < r := by omega
  have hcard := Nat.count_modEq_card (r := r) m hr v
  rw [Nat.mod_eq_of_lt hv] at hcard
  rw [count_deal, ← hcard]
  congr 1
  funext k
  simp [Nat.ModEq, Nat.mod_eq_of_lt hv]

theorem count_deal_le {m r v u : ℕ} (hv : v < r) (hu : u < r) :
    (deal m r).count v ≤ (deal m r).count u + 1 := by
  rw [count_deal_eq hv, count_deal_eq hu]
  split_ifs <;> omega

end RoundRobin
