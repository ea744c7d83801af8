import HermesRun.Task
import HermesRun.LocalSerialize
import HermesRun.Lib.CountedGroups
import Mathlib.Logic.Function.Basic

namespace HermesRun

open Bitfield

/-- The part of a task library that a worker calls besides `Run`. `getGroup` gives the return
code and what the call does to the caller's buffer. -/
structure TaskLib (α : Type) where
  getGroup : ℕ → Task α → Flags × (Charbuf → Charbuf)
  replicateStart : ℕ → ℕ → α → α

def TaskLib.IgnoresFlags {α : Type} (lib : TaskLib α) : Prop :=
  ∀ method t mask, (lib.getGroup method (t.setFlag mask)).1 = (lib.getGroup method t).1

structure Groups where
  groupMap : Charbuf → Option TaskNode
  group : Charbuf

namespace Groups

variable {α : Type}

def empty : Groups := ⟨fun _ => none, []⟩

def isOrdered (lib : TaskLib α) (t : Task α) : Bool :=
  (lib.getGroup t.method t).1 != taskUnordered && !t.isUnordered

def groupBytes (g : Groups) (lib : TaskLib α) (t : Task α) : Charbuf :=
  (lib.getGroup t.method t).2 g.group

/-- `LocalSerialize srl(group_); srl << lane_id`. -/
def laneKey (group : Charbuf) (laneId : UInt32) : Charbuf :=
  ((LocalSerialize.init group).putNum 4 laneId.toNat).data

def checkTaskGroup (g : Groups) (lib : TaskLib α) (t : Task α) (laneId : UInt32)
    (isRemote : Bool) : Bool × Groups :=
  if isRemote || t.isStarted then (true, g)
  else if !isOrdered lib t then (true, { g with group := g.groupBytes lib t })
  else
    let key := laneKey (g.groupBytes lib t) laneId
    match g.groupMap key with
    | none => (true, ⟨Function.update g.groupMap key (some ⟨t.taskNode.root, 1⟩), key⟩)
    | some cmp =>
      if cmp.root = t.taskNode.root then
        (true, ⟨Function.update g.groupMap key (some ⟨cmp.root, (cmp.nodeDepth + 1) % 2 ^ 32⟩), key⟩)
      else (false, { g with group := key })

/-- The first component says that the fatal branch was taken. -/
def removeTaskGroup (g : Groups) (lib : TaskLib α) (t : Task α) (laneId : UInt32)
    (isRemote : Bool) : Bool × Groups :=
  if isRemote then (false, g)
  else if !isOrdered lib t then (false, { g with group := g.groupBytes lib t })
  else
    let key := laneKey (g.groupBytes lib t) laneId
    -- `group_map_[group_]` default-constructs a missing entry
    let cmp := (g.groupMap key).getD ⟨UniqueId.getNull, 0⟩
    let depth := (cmp.nodeDepth + (2 ^ 32 - 1)) % 2 ^ 32
    (decide (cmp.nodeDepth = 0),
      ⟨Function.update g.groupMap key (if depth = 0 then none else some ⟨cmp.root, depth⟩), key⟩)

theorem isOrdered_setStarted {lib : TaskLib α} (h : lib.IgnoresFlags) (t : Task α) :
    isOrdered lib t.setStarted = isOrdered lib t := by
  have hg : (lib.getGroup t.setStarted.method t.setStarted).1 = (lib.getGroup t.method t).1 := h t.method t _
  simp only [isOrdered, hg, Task.setStarted_isUnordered]

theorem isOrdered_disableRun {lib : TaskLib α} (h : lib.IgnoresFlags) (t : Task α) :
    isOrdered lib t.disableRun = isOrdered lib t := by
  have hg : (lib.getGroup t.disableRun.method t.disableRun).1 = (lib.getGroup t.method t).1 := h t.method t _
  simp only [isOrdered, hg, Task.disableRun_isUnordered]

theorem laneKey_eq (group group' : Charbuf) (laneId : UInt32) :
    laneKey group laneId = laneKey group' laneId := rfl

theorem laneKey_inj {group group' : Charbuf} {i j : UInt32}
    (h : laneKey group i = laneKey group' j) : i = j := by
  have hn : i.toNat = j.toNat := by
    apply Bytes.toBytes_inj (w := 4) i.toNat_lt j.toNat_lt
    simpa [laneKey, LocalSerialize.init, LocalSerialize.putNum] using h
  exact UInt32.toNat_inj.mp hn

def table (g : Groups) (k : Charbuf) : Option (TaskId × ℕ) :=
  (g.groupMap k).map fun n => (n.root, n.nodeDepth)

theorem table_eq_none {g : Groups} {k : Charbuf} (h : g.groupMap k = none) : g.table k = none := by
  simp [table, h]

theorem table_eq_some {g : Groups} {k : Charbuf} {n : TaskNode} (h : g.groupMap k = some n) :
    g.table k = some (n.root, n.nodeDepth) := by
  simp [table, h]

theorem table_update (m : Charbuf → Option TaskNode) (k : Charbuf) (n : Option TaskNode) (b : Charbuf) :
    table ⟨Function.update m k n, b⟩ =
      Function.update (table ⟨m, b⟩) k (n.map fun n => (n.root, n.nodeDepth)) := by
  funext k'
  by_cases hk : k' = k
  · subst hk
    simp [table]
  · simp [table, hk]

def Bounded (g : Groups) : Prop := ∀ k n, g.groupMap k = some n → n.nodeDepth < 2 ^ 32

theorem Bounded.update {m : Charbuf → Option TaskNode} {b b' k : Charbuf} {n : Option TaskNode}
    (h : Bounded ⟨m, b⟩) (hn : ∀ x, n = some x → x.nodeDepth < 2 ^ 32) :
    Bounded ⟨Function.update m k n, b'⟩ := by
  intro k' x hx
  by_cases hk : k' = k
  · subst hk
    exact hn x (by simpa using hx)
  · exact h k' x (by simpa [hk] using hx)

theorem Bounded.checkTaskGroup {g : Groups} (h : g.Bounded) (lib : TaskLib α) (t : Task α)
    (laneId : UInt32) (isRemote : Bool) : (g.checkTaskGroup lib t laneId isRemote).2.Bounded := by
  unfold Groups.checkTaskGroup
  dsimp only
  split_ifs
  · exact h
  · exact h
  · split
    · apply h.update
      rintro x ⟨⟩
      simp
    · split_ifs
      · apply h.update
        rintro x ⟨⟩
        exact Nat.mod_lt _ (by decide)
      · exact h

theorem Bounded.removeTaskGroup {g : Groups} (h : g.Bounded) (lib : TaskLib α) (t : Task α)
    (laneId : UInt32) (isRemote : Bool) : (g.removeTaskGroup lib t laneId isRemote).2.Bounded := by
  unfold Groups.removeTaskGroup
  dsimp only
  split_ifs
  · exact h
  · exact h
  all_goals
    apply h.update
    intro x hx
    cases hx
    try exact Nat.mod_lt _ (by decide)

theorem checkTaskGroup_held {g : Groups} {lib : TaskLib α} {t : Task α} {laneId : UInt32} {isRemote : Bool}
    (h : (g.checkTaskGroup lib t laneId isRemote).1 = false) : g.groupMap (laneKey [] laneId) ≠ none := by
  have hkey := laneKey_eq (g.groupBytes lib t) [] laneId
  intro hnone
  unfold checkTaskGroup at h
  rw [hkey] at h
  dsimp only at h
  rw [hnone] at h
  split_ifs at h

theorem checkTaskGroup_keeps (g : Groups) (lib : TaskLib α) (t : Task α) (laneId : UInt32) (isRemote : Bool)
    {k : Charbuf} (h : g.groupMap k ≠ none) : (g.checkTaskGroup lib t laneId isRemote).2.groupMap k ≠ none := by
  have hset : ∀ (k' : Charbuf) (n : TaskNode), Function.update g.groupMap k' (some n) k ≠ none := by
    intro k' n
    by_cases hk : k = k'
    · subst hk
      simp
    · rw [Function.update_of_ne hk]
      exact h
  unfold checkTaskGroup
  dsimp only
  split_ifs
  · exact h
  · exact h
  · split
    · exact hset _ _
    · split_ifs
      · exact hset _ _
      · exact h

theorem removeTaskGroup_erases {g : Groups} (hb : g.Bounded) (lib : TaskLib α) (t : Task α) (laneId : UInt32)
    (isRemote : Bool) {k : Charbuf} (h : g.groupMap k ≠ none)
    (h' : (g.removeTaskGroup lib t laneId isRemote).2.groupMap k = none) :
    k = laneKey [] laneId ∧ isRemote = false ∧ isOrdered lib t = true ∧
      ∃ n, g.groupMap k = some n ∧ n.nodeDepth = 1 := by
  have hkey := laneKey_eq (g.groupBytes lib t) [] laneId
  unfold removeTaskGroup at h'
  rw [hkey] at h'
  dsimp only at h'
  split_ifs at h' with hr ho hz
  · exact absurd h' h
  · exact absurd h' h
  · change Function.update g.groupMap (laneKey [] laneId) none k = none at h'
    by_cases hk : k = laneKey [] laneId
    · subst hk
      obtain ⟨n, hn⟩ := Option.ne_none_iff_exists'.mp h
      refine ⟨rfl, by simpa using hr, by simpa using ho, n, hn, ?_⟩
      have hlt := hb _ n hn
      rw [hn, Option.getD_some] at hz
      omega
    · rw [Function.update_of_ne hk] at h'
      exact absurd h' h
  · change Function.update g.groupMap (laneKey [] laneId) (some _) k = none at h'
    by_cases hk : k = laneKey [] laneId
    · subst hk
      rw [Function.update_self] at h'
      cases h'
    · rw [Function.update_of_ne hk] at h'
      exact absurd h' h

section Members

variable {A : Type} {key : A → Charbuf} {root : A → TaskId} {hs : List A} {g : Groups} {lib : TaskLib α}
  {t : Task α} {laneId : UInt32}

theorem checkTaskGroup_unchanged {isRemote : Bool} (h : isRemote = true ∨ t.isStarted = true ∨
    isOrdered lib t = false ∨ (g.checkTaskGroup lib t laneId isRemote).1 = false) :
    (g.checkTaskGroup lib t laneId isRemote).2.groupMap = g.groupMap := by
  unfold checkTaskGroup at h ⊢
  dsimp only at h ⊢
  split_ifs with hrs ho
  · rfl
  · rfl
  · split
    · next hn => simp_all
    · next cmp hcmp =>
      split_ifs with hroot
      · simp_all
      · rfl

theorem checkTaskGroup_admits (hr : CountedGroups.Represents key root g.table hs) {a : A}
    (hka : key a = laneKey [] laneId) (hra : root a = t.taskNode.root)
    (hs' : t.isStarted = false) (ho : isOrdered lib t = true)
    (hsmall : hs.countP (fun b => key b = laneKey [] laneId) + 1 < 2 ^ 32)
    (hc : (g.checkTaskGroup lib t laneId false).1 = true) :
    CountedGroups.Represents key root (g.checkTaskGroup lib t laneId false).2.table (a :: hs) := by
  have hkey := laneKey_eq (g.groupBytes lib t) [] laneId
  unfold checkTaskGroup at hc ⊢
  simp only [hs', ho, hkey, Bool.or_self, Bool.false_eq_true, if_false, Bool.not_true] at hc ⊢
  cases hm : g.groupMap (laneKey [] laneId) with
  | none =>
    simp only [table_update, Option.map_some, ← hka, ← hra]
    apply CountedGroups.Represents.enter_free hr
    rw [hka]
    exact table_eq_none hm
  | some cmp =>
    by_cases hroot : cmp.root = t.taskNode.root
    · have hcount := (hr.count (table_eq_some hm)).1
      have hmod : (cmp.nodeDepth + 1) % 2 ^ 32 = cmp.nodeDepth + 1 := by
        apply Nat.mod_eq_of_lt
        omega
      simp only [hroot, if_true, table_update, Option.map_some, hmod, ← hka, ← hra]
      apply CountedGroups.Represents.enter_held hr
      rw [hka, hra, ← hroot]
      exact table_eq_some hm
    · simp [hm, hroot] at hc

theorem removeTaskGroup_unchanged (g : Groups) (laneId : UInt32) {isRemote : Bool}
    (h : isRemote = true ∨ isOrdered lib t = false) :
    (g.removeTaskGroup lib t laneId isRemote).1 = false ∧
      (g.removeTaskGroup lib t laneId isRemote).2.groupMap = g.groupMap := by
  unfold removeTaskGroup
  rcases h with h | h
  · simp [h]
  · by_cases hr : isRemote = true <;> simp [hr, h]

theorem removeTaskGroup_releases {a : A} (hr : CountedGroups.Represents key root g.table (a :: hs))
    (hka : key a = laneKey [] laneId) (ho : isOrdered lib t = true)
    (hsmall : ∀ n, g.groupMap (laneKey [] laneId) = some n → n.nodeDepth < 2 ^ 32) :
    (g.removeTaskGroup lib t laneId false).1 = false ∧
      CountedGroups.Represents key root (g.removeTaskGroup lib t laneId false).2.table hs := by
  have hkey := laneKey_eq (g.groupBytes lib t) [] laneId
  obtain ⟨c, hc, -, hpos⟩ := hr.member List.mem_cons_self
  rw [hka] at hc
  obtain ⟨cmp, hcmp, hpair⟩ := Option.map_eq_some_iff.mp hc
  obtain ⟨-, rfl⟩ := Prod.mk.inj hpair
  have hlt := hsmall cmp hcmp
  obtain ⟨d, hd⟩ := Nat.exists_eq_succ_of_ne_zero (Nat.pos_iff_ne_zero.mp hpos)
  have hmod : (cmp.nodeDepth + (2 ^ 32 - 1)) % 2 ^ 32 = d := by omega
  unfold removeTaskGroup
  simp only [ho, hkey, Bool.false_eq_true, if_false, Bool.not_true, hcmp, Option.getD_some, hmod]
  refine ⟨by simp; omega, ?_⟩
  have htable : g.table (key a) = some (cmp.root, d + 1) := by
    rw [hka, table_eq_some hcmp, hd]
  by_cases hz : d = 0
  · simp only [hz, if_true, table_update, Option.map_none, ← hka]
    subst hz
    exact CountedGroups.Represents.leave_last hr htable
  · simp only [hz, if_false, table_update, Option.map_some, ← hka]
    exact CountedGroups.Represents.leave_more hr htable (Nat.pos_of_ne_zero hz)

end Members

end Groups

end HermesRun
