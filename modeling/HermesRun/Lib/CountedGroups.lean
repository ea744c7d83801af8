import Mathlib.Data.List.Count
import Mathlib.Data.List.Perm.Basic
import Mathlib.Logic.Function.Basic

namespace CountedGroups

variable {A K O : Type*} [DecidableEq K] (key : A → K) (owner : A → O)

def EntryFor (hs : List A) (k : K) : Option (O × ℕ) → Prop
  | none => ∀ a ∈ hs, key a ≠ k
  | some (o, c) => c = hs.countP (fun a => key a = k) ∧ 0 < c ∧ ∀ a ∈ hs, key a = k → owner a = o

def Represents (m : K → Option (O × ℕ)) (hs : List A) : Prop := ∀ k, EntryFor key owner hs k (m k)

variable {key owner} {m : K → Option (O × ℕ)} {hs hs' : List A} {a b : A} {o : O} {c : ℕ} {k : K}

theorem Represents.empty : Represents key owner (fun _ => none) [] := by
  intro k a ha
  simp at ha

theorem Represents.perm (h : Represents key owner m hs) (hp : hs.Perm hs') :
    Represents key owner m hs' := by
  intro k
  have hk := h k
  cases hm : m k with
  | none =>
    rw [hm] at hk
    exact fun a ha => hk a (hp.mem_iff.mpr ha)
  | some e =>
    rw [hm] at hk
    exact ⟨hp.countP_eq _ ▸ hk.1, hk.2.1, fun a ha => hk.2.2 a (hp.mem_iff.mpr ha)⟩

theorem Represents.member (h : Represents key owner m hs) (ha : a ∈ hs) :
    ∃ c, m (key a) = some (owner a, c) ∧ c = hs.countP (fun b => key b = key a) ∧ 0 < c := by
  have hk := h (key a)
  cases hm : m (key a) with
  | none =>
    rw [hm] at hk
    exact absurd rfl (hk a ha)
  | some e =>
    rw [hm] at hk
    exact ⟨e.2, by rw [hk.2.2 a ha rfl], hk.1, hk.2.1⟩

theorem Represents.count (h : Represents key owner m hs) (hk : m k = some (o, c)) :
    c = hs.countP (fun a => key a = k) ∧ ∀ a ∈ hs, key a = k → owner a = o := by
  have he := h k
  rw [hk] at he
  exact ⟨he.1, he.2.2⟩

theorem Represents.isSome_iff (h : Represents key owner m hs) :
    (m k).isSome = true ↔ ∃ a ∈ hs, key a = k := by
  constructor
  · intro hs'
    obtain ⟨⟨o, c⟩, hk⟩ := Option.isSome_iff_exists.mp hs'
    have he := h k
    rw [hk] at he
    obtain ⟨a, ha, hka⟩ := List.countP_pos_iff.mp (he.1 ▸ he.2.1)
    exact ⟨a, ha, of_decide_eq_true hka⟩
  · rintro ⟨a, ha, rfl⟩
    obtain ⟨c, hc, -⟩ := h.member ha
    simp [hc]

theorem Represents.same_owner (h : Represents key owner m hs) (ha : a ∈ hs) (hb : b ∈ hs)
    (hk : key a = key b) : owner a = owner b := by
  obtain ⟨c, hc, -⟩ := h.member hb
  exact (h.count hc).2 a ha hk

theorem entryFor_cons_of_ne (hk : key a ≠ k) (e : Option (O × ℕ)) :
    EntryFor key owner (a :: hs) k e ↔ EntryFor key owner hs k e := by
  cases e <;> simp [EntryFor, hk]

theorem Represents.update_cons {e : Option (O × ℕ)} (h : Represents key owner m hs)
    (he : EntryFor key owner (a :: hs) (key a) e) :
    Represents key owner (Function.update m (key a) e) (a :: hs) := by
  intro k
  by_cases hk : k = key a
  · subst hk; simpa using he
  · rw [Function.update_of_ne hk]
    exact (entryFor_cons_of_ne (Ne.symm hk) _).mpr (h k)

theorem Represents.update_tail {e : Option (O × ℕ)} (h : Represents key owner m (a :: hs))
    (he : EntryFor key owner hs (key a) e) :
    Represents key owner (Function.update m (key a) e) hs := by
  intro k
  by_cases hk : k = key a
  · subst hk; simpa using he
  · rw [Function.update_of_ne hk]
    exact (entryFor_cons_of_ne (Ne.symm hk) _).mp (h k)

theorem Represents.enter_free (h : Represents key owner m hs) (hk : m (key a) = none) :
    Represents key owner (Function.update m (key a) (some (owner a, 1))) (a :: hs) := by
  have he : ∀ b ∈ hs, key b ≠ key a := by
    have he := h (key a)
    rwa [hk] at he
  apply h.update_cons
  have hz : hs.countP (fun b => key b = key a) = 0 := List.countP_eq_zero.mpr (by simpa using he)
  refine ⟨by simp [hz], Nat.one_pos, fun b hb hkb => ?_⟩
  rcases List.mem_cons.mp hb with rfl | hb
  · rfl
  · exact absurd hkb (he b hb)

theorem Represents.enter_held (h : Represents key owner m hs)
    (hk : m (key a) = some (owner a, c)) :
    Represents key owner (Function.update m (key a) (some (owner a, c + 1))) (a :: hs) := by
  obtain ⟨hc, ho⟩ := h.count hk
  apply h.update_cons
  refine ⟨by simp [hc], Nat.succ_pos c, fun b hb hkb => ?_⟩
  rcases List.mem_cons.mp hb with rfl | hb
  · rfl
  · exact ho b hb hkb

theorem Represents.leave_last (h : Represents key owner m (a :: hs))
    (hk : m (key a) = some (o, 1)) :
    Represents key owner (Function.update m (key a) none) hs := by
  have hc := (h.count hk).1
  simp only [List.countP_cons, decide_true, if_true, Nat.right_eq_add, List.countP_eq_zero,
    decide_eq_true_eq] at hc
  exact h.update_tail hc

theorem Represents.leave_more (h : Represents key owner m (a :: hs))
    (hk : m (key a) = some (o, c + 1)) (hpos : 0 < c) :
    Represents key owner (Function.update m (key a) (some (o, c))) hs := by
  obtain ⟨hc, ho⟩ := h.count hk
  simp only [List.countP_cons, decide_true, if_true, Nat.add_right_cancel_iff] at hc
  exact h.update_tail ⟨hc, hpos, fun b hb => ho b (List.mem_cons_of_mem _ hb)⟩

theorem perm_cons_filter {N : Type*} [DecidableEq N] (name : A → N) (hn : (hs.map name).Nodup)
    (ha : a ∈ hs) : hs.Perm (a :: hs.filter (fun b => name b ≠ name a)) := by
  induction hs with
  | nil => simp at ha
  | cons b hs ih =>
    rw [List.map_cons, List.nodup_cons] at hn
    rcases List.mem_cons.mp ha with rfl | ha
    · have hall : hs.filter (fun b => name b ≠ name a) = hs := by
        apply List.filter_eq_self.mpr
        intro b hb
        have hne : name b ≠ name a := fun h => hn.1 (h ▸ List.mem_map_of_mem hb)
        simpa using hne
      rw [List.filter_cons_of_neg (by simp), hall]
    · have hne : name b ≠ name a := fun h => hn.1 (h ▸ List.mem_map_of_mem ha)
      rw [List.filter_cons_of_pos (by simpa using hne)]
      exact ((ih hn.2 ha).cons b).trans (List.Perm.swap a b _)

end CountedGroups
