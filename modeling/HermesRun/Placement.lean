import HermesRun.Lib.Runs
import HermesRun.Lib.RoundRobin
import HermesRun.QueueManager
import Mathlib.Logic.Function.Basic

/-!
How lanes get to workers: `WorkOrchestrator::ServerInit`, then the `Schedule` calls of one
`worch_queue_round_robin`, taken loop iteration by loop iteration, while queues are created and the
workers take over what was given to them.
-/

namespace HermesRun.Placement

open QueueManager

structure WorkEntry where
  queue : ℕ
  prio : ℕ
  laneId : ℕ
  deriving DecidableEq, Repr

structure Worker where
  pollQueues : List (List WorkEntry)
  workQueue : List WorkEntry
  deriving Repr

def Worker.entries (w : Worker) : List WorkEntry := w.workQueue ++ w.pollQueues.flatten

structure Config where
  numWorkers : ℕ
  pollDepth : ℕ
  /-- Whether `emplace` on a full `poll_queues_` drops the entry instead of waiting. -/
  dropsWhenFull : Bool

inductive Cursor where
  | queue (q : ℕ)
  | group (q g : ℕ)
  | lane (q g k : ℕ)
  deriving DecidableEq, Repr

structure State where
  queueMap : QueueMap
  workers : ℕ → Worker
  boot : Option ℕ
  cursor : Option Cursor
  count : ℕ
  given : List (ℕ × WorkEntry)

inductive Label where
  | serverInit
  | createQueue (id : QueueId) (queueInfo : List PriorityInfo)
  | schedule
  | pollQueues (w : ℕ)

def State.init (adminInfo : List PriorityInfo) (rest : List (QueueId × List PriorityInfo)) : State where
  queueMap := MultiQueue.init adminQueue adminInfo :: rest.map fun q => MultiQueue.init q.1 q.2
  workers := fun _ => ⟨[], []⟩
  boot := some 0
  cursor := none
  count := 0
  given := []

def findGroup (m : QueueMap) (q g : ℕ) : Option LaneGroup := m[q]?.bind (·.groups[g]?)

def setScheduled (m : QueueMap) (q g n : ℕ) : QueueMap :=
  m.modify q fun queue => { queue with groups := queue.groups.modify g fun x => { x with numScheduled := n } }

variable (cfg : Config)

def give (s : State) (w : ℕ) (e : WorkEntry) : Option State :=
  if (s.workers w).pollQueues.length < cfg.pollDepth then
    some { s with
      workers := Function.update s.workers w
        { s.workers w with pollQueues := (s.workers w).pollQueues ++ [[e]] }
      given := s.given ++ [(w, e)] }
  else if cfg.dropsWhenFull then some { s with given := s.given ++ [(w, e)] }
  else none

def serverInit (s : State) (k : ℕ) : Option State :=
  (findGroup s.queueMap adminQueue.unique 0).bind fun group =>
    if k < group.info.numLanes then
      (give cfg s 0 ⟨adminQueue.unique, 0, k⟩).map fun s => { s with boot := some (k + 1) }
    else
      some { s with
        queueMap := setScheduled s.queueMap adminQueue.unique 0 group.info.numLanes
        boot := none }

def schedule (s : State) : Cursor → Option State
  | .queue q => match s.queueMap[q]? with
    | none => some { s with cursor := none }
    | some queue =>
      if queue.id.isNull then some { s with cursor := some (.queue (q + 1)) }
      else some { s with cursor := some (.group q 0) }
  | .group q g => match findGroup s.queueMap q g with
    | none => some { s with cursor := some (.queue (q + 1)) }
    | some group => some { s with cursor := some (.lane q g group.numScheduled) }
  | .lane q g k => (findGroup s.queueMap q g).bind fun group =>
    if k < group.info.numLanes then
      if group.isLowPriority then
        (give cfg s 0 ⟨q, group.prio, k⟩).map fun s => { s with cursor := some (.lane q g (k + 1)) }
      else
        (give cfg s (s.count % (cfg.numWorkers - 1) + 1) ⟨q, group.prio, k⟩).map fun s =>
          { s with cursor := some (.lane q g (k + 1)), count := (s.count + 1) % 2 ^ 32 }
    else
      some { s with
        queueMap := setScheduled s.queueMap q g group.info.numLanes
        cursor := some (.group q (g + 1)) }

/-- A `Schedule` call can only come once `ServerInit` has returned: the requests that start it are sent after
that. -/
def step (s : State) : Label → Option State
  | .serverInit => s.boot.bind (serverInit cfg s)
  | .createQueue id queueInfo => (createQueue s.queueMap id queueInfo).map fun m => { s with queueMap := m }
  | .schedule => if s.boot.isSome then none else schedule cfg s (s.cursor.getD (.queue 0))
  | .pollQueues w => match (s.workers w).pollQueues with
    | [] => none
    | batch :: rest => some { s with
        workers := Function.update s.workers w ⟨rest, (s.workers w).workQueue ++ batch⟩ }

def placed (s : State) : List WorkEntry := (List.range cfg.numWorkers).flatMap fun w => (s.workers w).entries

section Map

variable {m m' : QueueMap} {q g q' g' : ℕ}

def SlotUsed (m : QueueMap) (q : ℕ) : Prop := ∃ queue, m[q]? = some queue ∧ queue.id.isNull = false

theorem findGroup_setScheduled_self {group : LaneGroup} (n : ℕ) (h : findGroup m q g = some group) :
    findGroup (setScheduled m q g n) q g = some { group with numScheduled := n } := by
  obtain ⟨queue, hq, hg⟩ := Option.bind_eq_some_iff.mp h
  simp [findGroup, setScheduled, hq, hg]

theorem findGroup_setScheduled_ne (n : ℕ) (hne : ¬(q' = q ∧ g' = g)) :
    findGroup (setScheduled m q g n) q' g' = findGroup m q' g' := by
  unfold findGroup setScheduled
  rw [List.getElem?_modify]
  by_cases hq : q = q'
  · have hg : g ≠ g' := fun hg => hne ⟨hq.symm, hg.symm⟩
    subst hq
    cases hm : m[q]? with
    | none => simp
    | some queue => simp [hg]
  · cases m[q']? <;> simp [hq]

theorem slotUsed_setScheduled (n : ℕ) : SlotUsed (setScheduled m q g n) q' ↔ SlotUsed m q' := by
  unfold SlotUsed setScheduled
  rw [List.getElem?_modify]
  by_cases hq : q = q'
  · subst hq
    cases m[q]? <;> simp
  · cases m[q']? <;> simp [hq]

theorem SlotUsed.createQueue {id : QueueId} {info : List PriorityInfo} (hu : SlotUsed m q)
    (h : createQueue m id info = some m') : SlotUsed m' q := by
  obtain ⟨queue, hq, hn⟩ := hu
  exact ⟨queue, createQueue_used h hq hn, hn⟩

theorem findGroup_createQueue {id : QueueId} {info : List PriorityInfo} (hu : SlotUsed m q)
    (h : createQueue m id info = some m') : findGroup m' q g = findGroup m q g := by
  obtain ⟨queue, hq, hn⟩ := hu
  unfold findGroup
  rw [createQueue_used h hq hn, hq]

theorem findGroup_init {id : QueueId} {info : List PriorityInfo} {group : LaneGroup}
    (h : (MultiQueue.init id info).groups[g]? = some group) : group.prio = g ∧ group.numScheduled = 0 := by
  simp only [MultiQueue.init, List.getElem?_mapIdx] at h
  obtain ⟨x, -, rfl⟩ := Option.map_eq_some_iff.mp h
  exact ⟨rfl, rfl⟩

theorem findGroup_createQueue_cases {id : QueueId} {info : List PriorityInfo} {group : LaneGroup}
    (h : createQueue m id info = some m') (hg : findGroup m' q g = some group) :
    findGroup m q g = some group ∨ group.prio = g ∧ group.numScheduled = 0 := by
  obtain ⟨queue, hq, hgroup⟩ := Option.bind_eq_some_iff.mp hg
  rcases createQueue_slot h hq with hold | ⟨-, rfl⟩
  · left
    simp [findGroup, hold, hgroup]
  · exact Or.inr (findGroup_init hgroup)

end Map

def handedOut (active : Option (ℕ × ℕ × ℕ)) (q g : ℕ) (group : LaneGroup) : ℕ :=
  match active with
  | some (q', g', k) => if q = q' ∧ g = g' then k else group.numScheduled
  | none => group.numScheduled

def Fits (n : ℕ) (group : LaneGroup) (w : ℕ) : Prop :=
  if group.isLowPriority then w = 0 else 1 ≤ w ∧ w < n

def others (given : List (ℕ × WorkEntry)) : List ℕ := (given.map (·.1)).filter (· ≠ 0)

structure Inv (n : ℕ) (m : QueueMap) (workers : ℕ → Worker) (active : Option (ℕ × ℕ × ℕ)) (count : ℕ)
    (given : List (ℕ × WorkEntry)) : Prop where
  prio : ∀ q g group, findGroup m q g = some group → group.prio = g
  bound : ∀ q g group, findGroup m q g = some group → handedOut active q g group ≤ group.info.numLanes
  used : ∀ x ∈ given, SlotUsed m x.2.queue ∧ ∃ group, findGroup m x.2.queue x.2.prio = some group ∧
    x.2.laneId < handedOut active x.2.queue x.2.prio group ∧ Fits n group x.1
  distinct : (given.map (·.2)).Nodup
  activeUsed : ∀ q g k, active = some (q, g, k) → SlotUsed m q
  dealt : others given = (List.range (others given).length).map (fun k => k % 2 ^ 32 % (n - 1) + 1)
  count : count = (others given).length % 2 ^ 32
  entries : ∀ w, (workers w).entries.Sublist ((given.filter (fun x => x.1 = w)).map (·.2))

theorem handedOut_none (q g : ℕ) (group : LaneGroup) : handedOut none q g group = group.numScheduled := rfl

theorem handedOut_self (q g k : ℕ) (group : LaneGroup) : handedOut (some (q, g, k)) q g group = k := by
  simp [handedOut]

theorem handedOut_ne {q g q' g' : ℕ} (k : ℕ) (group : LaneGroup) (h : ¬(q' = q ∧ g' = g)) :
    handedOut (some (q, g, k)) q' g' group = group.numScheduled := by
  simp only [handedOut, if_neg h]

theorem handedOut_other {active : Option (ℕ × ℕ × ℕ)} {q g : ℕ} (group : LaneGroup)
    (h : ¬∃ k, active = some (q, g, k)) : handedOut active q g group = group.numScheduled := by
  cases active with
  | none => rfl
  | some a =>
    obtain ⟨q', g', k⟩ := a
    apply handedOut_ne
    rintro ⟨rfl, rfl⟩
    exact h ⟨k, rfl⟩

theorem handedOut_openGroup {m : QueueMap} {q g q' g' : ℕ} {group group' : LaneGroup}
    (hg : findGroup m q g = some group) (hg' : findGroup m q' g' = some group') :
    handedOut (some (q, g, group.numScheduled)) q' g' group' = group'.numScheduled := by
  by_cases hqg : q' = q ∧ g' = g
  · obtain ⟨rfl, rfl⟩ := hqg
    rw [hg, Option.some.injEq] at hg'
    rw [handedOut_self, hg']
  · exact handedOut_ne _ _ hqg

theorem findGroup_closeGroup {m : QueueMap} {q g k q' g' : ℕ} {group group' : LaneGroup}
    (hg : findGroup m q g = some group) (hg' : findGroup (setScheduled m q g k) q' g' = some group') :
    ∃ old, findGroup m q' g' = some old ∧ group'.prio = old.prio ∧ group'.info = old.info ∧
      handedOut none q' g' group' = handedOut (some (q, g, k)) q' g' old := by
  by_cases hqg : q' = q ∧ g' = g
  · obtain ⟨rfl, rfl⟩ := hqg
    rw [findGroup_setScheduled_self _ hg, Option.some.injEq] at hg'
    subst hg'
    exact ⟨group, hg, rfl, rfl, by rw [handedOut_self, handedOut_none]⟩
  · rw [findGroup_setScheduled_ne _ hqg] at hg'
    exact ⟨group', hg', rfl, rfl, by rw [handedOut_ne _ _ hqg, handedOut_none]⟩

namespace Inv

variable {n count count' q g k w : ℕ} {m m' : QueueMap} {workers workers' : ℕ → Worker}
  {active : Option (ℕ × ℕ × ℕ)} {given : List (ℕ × WorkEntry)} {group : LaneGroup}

theorem handedOut_succ (q g k q' g' : ℕ) (group : LaneGroup) :
    handedOut (some (q, g, k)) q' g' group ≤ handedOut (some (q, g, k + 1)) q' g' group := by
  by_cases h : q' = q ∧ g' = g
  · obtain ⟨rfl, rfl⟩ := h
    rw [handedOut_self, handedOut_self]
    omega
  · rw [handedOut_ne k group h, handedOut_ne (k + 1) group h]

theorem fresh (h : Inv n m workers (some (q, g, k)) count given) :
    (⟨q, g, k⟩ : WorkEntry) ∉ given.map (·.2) := by
  intro hmem
  obtain ⟨⟨w, e⟩, hx, rfl⟩ := List.mem_map.mp hmem
  obtain ⟨-, group, -, hlt, -⟩ := h.used _ hx
  dsimp only at hlt
  rw [handedOut_self] at hlt
  omega

theorem place (h : Inv n m workers (some (q, g, k)) count given) (hn : 2 ≤ n)
    (hg : findGroup m q g = some group) (hk : k < group.info.numLanes)
    (hrule : group.isLowPriority = true ∧ w = 0 ∧ count' = count ∨
      group.isLowPriority = false ∧ w = count % (n - 1) + 1 ∧ count' = (count + 1) % 2 ^ 32)
    (hentries : ∀ v, (workers' v).entries = (workers v).entries ∨
      v = w ∧ (workers' v).entries = (workers v).entries ++ [⟨q, g, k⟩]) :
    Inv n m workers' (some (q, g, k + 1)) count' (given ++ [(w, ⟨q, g, k⟩)]) := by
  have hused := h.activeUsed q g k rfl
  refine ⟨h.prio, ?_, ?_, ?_, ?_, ?_, ?_, ?_⟩
  · intro q' g' group' hg'
    by_cases hqg : q' = q ∧ g' = g
    · obtain ⟨rfl, rfl⟩ := hqg
      rw [hg, Option.some.injEq] at hg'
      rw [handedOut_self, ← hg']
      omega
    · have hb := h.bound q' g' group' hg'
      rwa [handedOut_ne _ _ hqg] at hb ⊢
  · intro x hx
    rcases List.mem_append.mp hx with hx | hx
    · obtain ⟨hu, group', hg', hlt, hfit⟩ := h.used x hx
      exact ⟨hu, group', hg', lt_of_lt_of_le hlt (handedOut_succ _ _ _ _ _ _), hfit⟩
    · rw [List.mem_singleton.mp hx]
      refine ⟨hused, group, hg, ?_, ?_⟩
      · show k < handedOut (some (q, g, k + 1)) q g group
        rw [handedOut_self]
        omega
      rcases hrule with ⟨hlow, hw, -⟩ | ⟨hlow, hw, -⟩
      · simp [Fits, hlow, hw]
      · have hlt : count % (n - 1) < n - 1 := Nat.mod_lt _ (by omega)
        simp only [Fits, hlow, hw, Bool.false_eq_true, if_false]
        omega
  · rw [List.map_append, List.map_singleton]
    refine List.nodup_append.mpr ⟨h.distinct, List.nodup_singleton _, ?_⟩
    intro a ha b hb heq
    have hlane : a = ⟨q, g, k⟩ := by rw [heq, List.mem_singleton.mp hb]
    exact h.fresh (hlane ▸ ha)
  · intro q' g' k' hact
    cases hact
    exact hused
  · rcases hrule with ⟨-, hw, -⟩ | ⟨-, hw, -⟩
    · have hsame : others (given ++ [(w, ⟨q, g, k⟩)]) = others given := by simp [others, hw]
      rw [hsame]
      exact h.dealt
    · have hnew : others (given ++ [(w, ⟨q, g, k⟩)]) = others given ++ [w] := by simp [others, hw]
      rw [hnew, List.length_append, List.length_singleton, List.range_succ, List.map_append,
        List.map_singleton, ← h.dealt, ← h.count, hw]
  · rcases hrule with ⟨-, hw, hc⟩ | ⟨-, hw, hc⟩
    · have hsame : others (given ++ [(w, ⟨q, g, k⟩)]) = others given := by simp [others, hw]
      rw [hsame, hc]
      exact h.count
    · have hnew : others (given ++ [(w, ⟨q, g, k⟩)]) = others given ++ [w] := by simp [others, hw]
      rw [hnew, hc, h.count, List.length_append, List.length_singleton]
      omega
  · intro v
    rw [List.filter_append, List.map_append]
    rcases hentries v with hv | ⟨rfl, hv⟩
    · rw [hv]
      exact (h.entries v).trans (List.sublist_append_left _ _)
    · rw [hv]
      apply (h.entries v).append
      simp

theorem openGroup (h : Inv n m workers none count given) (hu : SlotUsed m q)
    (hg : findGroup m q g = some group) : Inv n m workers (some (q, g, group.numScheduled)) count given := by
  refine { h with bound := ?_, used := ?_, activeUsed := ?_ }
  · intro q' g' group' hg'
    rw [handedOut_openGroup hg hg']
    exact h.bound q' g' group' hg'
  · intro x hx
    obtain ⟨hu', group', hg', hlt, hfit⟩ := h.used x hx
    refine ⟨hu', group', hg', ?_, hfit⟩
    rw [handedOut_openGroup hg hg']
    exact hlt
  · intro q' g' k' hact
    cases hact
    exact hu

theorem closeGroup (h : Inv n m workers (some (q, g, k)) count given) (hg : findGroup m q g = some group)
    (hk : ¬k < group.info.numLanes) :
    Inv n (setScheduled m q g group.info.numLanes) workers none count given := by
  have hb := h.bound q g group hg
  rw [handedOut_self] at hb
  obtain rfl : k = group.info.numLanes := by omega
  refine { h with prio := ?_, bound := ?_, used := ?_, activeUsed := by simp }
  · intro q' g' group' hg'
    obtain ⟨old, hold, hprio, -, -⟩ := findGroup_closeGroup hg hg'
    rw [hprio]
    exact h.prio q' g' old hold
  · intro q' g' group' hg'
    obtain ⟨old, hold, -, hinfo, hout⟩ := findGroup_closeGroup hg hg'
    rw [hout, hinfo]
    exact h.bound q' g' old hold
  · intro x hx
    obtain ⟨hu, old, hold, hlt, hfit⟩ := h.used x hx
    refine ⟨(slotUsed_setScheduled _).mpr hu, ?_⟩
    by_cases hqg : x.2.queue = q ∧ x.2.prio = g
    · refine ⟨{ group with numScheduled := group.info.numLanes }, ?_, ?_, ?_⟩
      · rw [hqg.1, hqg.2]
        exact findGroup_setScheduled_self _ hg
      · rw [hqg.1, hqg.2, handedOut_self] at hlt
        rw [handedOut_none]
        exact hlt
      · rw [hqg.1, hqg.2, hg, Option.some.injEq] at hold
        rw [← hold] at hfit
        exact hfit
    · refine ⟨old, ?_, ?_, hfit⟩
      · rw [findGroup_setScheduled_ne _ hqg]
        exact hold
      · rw [handedOut_ne _ _ hqg] at hlt
        exact hlt

theorem createQueue (h : Inv n m workers active count given) {id : QueueId} {info : List PriorityInfo}
    (hc : QueueManager.createQueue m id info = some m') : Inv n m' workers active count given := by
  refine { h with prio := ?_, bound := ?_, used := ?_, activeUsed := ?_ }
  · intro q' g' group' hg'
    rcases findGroup_createQueue_cases hc hg' with hold | hnew
    · exact h.prio q' g' group' hold
    · exact hnew.1
  · intro q' g' group' hg'
    rcases findGroup_createQueue_cases hc hg' with hold | hnew
    · exact h.bound q' g' group' hold
    · by_cases hqg : ∃ k, active = some (q', g', k)
      · obtain ⟨k, hact⟩ := hqg
        rw [findGroup_createQueue (h.activeUsed q' g' k hact) hc] at hg'
        exact h.bound q' g' group' hg'
      · rw [handedOut_other group' hqg, hnew.2]
        exact Nat.zero_le _
  · intro x hx
    obtain ⟨hu, group', hg', hlt, hfit⟩ := h.used x hx
    refine ⟨hu.createQueue hc, group', ?_, hlt, hfit⟩
    rw [findGroup_createQueue hu hc]
    exact hg'
  · intro q' g' k' hact
    exact (h.activeUsed q' g' k' hact).createQueue hc

end Inv

variable {cfg} {s t : State}

def active (boot : Option ℕ) (cursor : Option Cursor) : Option (ℕ × ℕ × ℕ) :=
  match boot, cursor with
  | some k, _ => some (adminQueue.unique, 0, k)
  | none, some (.lane q g k) => some (q, g, k)
  | none, _ => none

def lanesGiven (given : List (ℕ × WorkEntry)) (w : ℕ) : List WorkEntry :=
  (given.filter fun x => x.1 = w).map (·.2)

theorem lanesGiven_append (given : List (ℕ × WorkEntry)) (w v : ℕ) (e : WorkEntry) :
    lanesGiven (given ++ [(w, e)]) v = lanesGiven given v ++ if v = w then [e] else [] := by
  by_cases h : v = w
  · simp [lanesGiven, h]
  · have h' : ¬w = v := fun h' => h h'.symm
    simp [lanesGiven, h, h']

theorem give_spec {w : ℕ} {e : WorkEntry} (h : give cfg s w e = some t) :
    t.queueMap = s.queueMap ∧ t.boot = s.boot ∧ t.cursor = s.cursor ∧ t.count = s.count ∧
      t.given = s.given ++ [(w, e)] ∧
      ((∀ v, (t.workers v).entries = (s.workers v).entries ++ if v = w then [e] else []) ∨
        cfg.dropsWhenFull = true ∧ t.workers = s.workers) := by
  unfold give at h
  split_ifs at h with hroom hdrop
  · cases h
    refine ⟨rfl, rfl, rfl, rfl, rfl, Or.inl fun v => ?_⟩
    by_cases hv : v = w
    · subst hv
      simp [Worker.entries]
    · simp [hv]
  · cases h
    exact ⟨rfl, rfl, rfl, rfl, rfl, Or.inr ⟨hdrop, rfl⟩⟩

structure StateInv (cfg : Config) (s : State) : Prop where
  inv : Inv cfg.numWorkers s.queueMap s.workers (active s.boot s.cursor) s.count s.given
  bootFirst : s.boot.isSome → s.cursor = none
  inGroup : ∀ q g, s.cursor = some (.group q g) → SlotUsed s.queueMap q
  kept : cfg.dropsWhenFull = false → ∀ w, (s.workers w).entries = lanesGiven s.given w

theorem kept_give {w : ℕ} {e : WorkEntry} (h : give cfg s w e = some t)
    (hkept : cfg.dropsWhenFull = false → ∀ w, (s.workers w).entries = lanesGiven s.given w) :
    cfg.dropsWhenFull = false → ∀ w, (t.workers w).entries = lanesGiven t.given w := by
  intro hd v
  obtain ⟨-, -, -, -, hgiven, hentries | ⟨hdrop, -⟩⟩ := give_spec h
  · rw [hentries, hgiven, lanesGiven_append, hkept hd]
  · rw [hd] at hdrop
    cases hdrop

theorem inv_give {q g k w count' : ℕ} {group : LaneGroup} (hn : 2 ≤ cfg.numWorkers)
    (hinv : Inv cfg.numWorkers s.queueMap s.workers (some (q, g, k)) s.count s.given)
    (h : give cfg s w ⟨q, g, k⟩ = some t) (hg : findGroup s.queueMap q g = some group)
    (hk : k < group.info.numLanes)
    (hrule : group.isLowPriority = true ∧ w = 0 ∧ count' = s.count ∨
      group.isLowPriority = false ∧ w = s.count % (cfg.numWorkers - 1) + 1 ∧
        count' = (s.count + 1) % 2 ^ 32) :
    Inv cfg.numWorkers t.queueMap t.workers (some (q, g, k + 1)) count' t.given := by
  obtain ⟨hmap, -, -, -, hgiven, hentries⟩ := give_spec h
  rw [hmap, hgiven]
  apply hinv.place hn hg hk hrule
  intro v
  rcases hentries with hentries | ⟨-, hsame⟩
  · by_cases hv : v = w
    · exact Or.inr ⟨hv, by rw [hentries, if_pos hv]⟩
    · exact Or.inl (by rw [hentries, if_neg hv, List.append_nil])
  · exact Or.inl (by rw [hsame])

theorem findGroup_boot {adminInfo : List PriorityInfo} {rest : List (QueueId × List PriorityInfo)} {q g : ℕ}
    {group : LaneGroup} (hg : findGroup (State.init adminInfo rest).queueMap q g = some group) :
    group.prio = g ∧ group.numScheduled = 0 := by
  obtain ⟨queue, hq, hgroup⟩ := Option.bind_eq_some_iff.mp hg
  cases q with
  | zero =>
    cases hq
    exact findGroup_init hgroup
  | succ q =>
    simp only [State.init, List.getElem?_cons_succ, List.getElem?_map] at hq
    obtain ⟨x, -, rfl⟩ := Option.map_eq_some_iff.mp hq
    exact findGroup_init hgroup

theorem stateInv_init (cfg : Config) (adminInfo : List PriorityInfo)
    (rest : List (QueueId × List PriorityInfo)) : StateInv cfg (State.init adminInfo rest) := by
  have hempty : ∀ w, ((State.init adminInfo rest).workers w).entries = [] := fun w => rfl
  refine ⟨⟨?_, ?_, ?_, ?_, ?_, ?_, ?_, ?_⟩, ?_, ?_, ?_⟩
  · intro q g group hg
    exact (findGroup_boot hg).1
  · intro q g group hg
    have hzero : handedOut (active (some 0) none) q g group = 0 := by
      simp [handedOut, active, (findGroup_boot hg).2]
    exact hzero.trans_le (Nat.zero_le _)
  · intro x hx
    cases hx
  · exact List.nodup_nil
  · intro q g k hact
    cases hact
    exact ⟨_, rfl, rfl⟩
  · rfl
  · rfl
  · intro w
    rw [hempty w]
    exact List.nil_sublist _
  · intro _
    rfl
  · intro q g hcur
    cases hcur
  · intro _ w
    exact hempty w

theorem active_boot (k : ℕ) (c : Option Cursor) : active (some k) c = some (adminQueue.unique, 0, k) := rfl

theorem active_lane (q g k : ℕ) : active none (some (.lane q g k)) = some (q, g, k) := rfl

theorem active_none {c : Option Cursor} (h : ∀ q g k, c ≠ some (.lane q g k)) : active none c = none := by
  unfold active
  split
  · contradiction
  · exact absurd rfl (h _ _ _)
  · rfl

theorem serverInit_stateInv {k : ℕ} (hn : 2 ≤ cfg.numWorkers) (h : StateInv cfg s) (hb : s.boot = some k)
    (hstep : serverInit cfg s k = some t) : StateInv cfg t := by
  have hinv := h.inv
  have hcur := h.bootFirst (by rw [hb]; rfl)
  rw [hb, active_boot] at hinv
  obtain ⟨group, hg, hstep⟩ := Option.bind_eq_some_iff.mp hstep
  have hlow : group.isLowPriority = true := by
    simp [LaneGroup.isLowPriority, hinv.prio _ _ _ hg]
  split_ifs at hstep with hk
  · obtain ⟨u, hu, rfl⟩ := Option.map_eq_some_iff.mp hstep
    obtain ⟨-, -, hucur, hucount, -, -⟩ := give_spec hu
    have hkept := kept_give hu h.kept
    have hplaced := inv_give hn hinv hu hg hk (Or.inl ⟨hlow, rfl, hucount⟩)
    refine ⟨?_, ?_, ?_, hkept⟩
    · exact hplaced
    · intro _
      exact hucur.trans hcur
    · intro q g hq
      rw [show u.cursor = none from hucur.trans hcur] at hq
      cases hq
  · cases hstep
    refine ⟨?_, ?_, ?_, h.kept⟩
    · show Inv _ _ _ (active none s.cursor) _ _
      rw [hcur, active_none (by simp)]
      exact hinv.closeGroup hg hk
    · intro hsome
      cases hsome
    · intro q g hq
      rw [hcur] at hq
      cases hq

theorem stateInv_move {c : Option Cursor} (h : StateInv cfg s) (hb : s.boot = none)
    (hcur : ∀ q g k, s.cursor ≠ some (.lane q g k)) (hc : ∀ q g k, c ≠ some (.lane q g k))
    (hgroup : ∀ q g, c = some (.group q g) → SlotUsed s.queueMap q) : StateInv cfg { s with cursor := c } := by
  have hinv := h.inv
  rw [hb, active_none hcur] at hinv
  refine ⟨?_, ?_, hgroup, h.kept⟩
  · show Inv _ _ _ (active s.boot c) _ _
    rw [hb, active_none hc]
    exact hinv
  · intro hsome
    rw [show s.boot = none from hb] at hsome
    cases hsome

theorem scheduleQueue_stateInv {q : ℕ} (h : StateInv cfg s) (hb : s.boot = none)
    (hlane : ∀ q g k, s.cursor ≠ some (.lane q g k)) (hstep : schedule cfg s (.queue q) = some t) :
    StateInv cfg t := by
  simp only [schedule] at hstep
  split at hstep
  · cases hstep
    exact stateInv_move h hb hlane (by simp) (by simp)
  · rename_i queue hqueue
    split_ifs at hstep with hnull
    · cases hstep
      exact stateInv_move h hb hlane (by simp) (by simp)
    · cases hstep
      refine stateInv_move h hb hlane (by simp) ?_
      intro q' g' hq'
      cases hq'
      exact ⟨queue, hqueue, by simpa using hnull⟩

theorem scheduleGroup_stateInv {q g : ℕ} (h : StateInv cfg s) (hb : s.boot = none)
    (hc : s.cursor = some (.group q g)) (hstep : schedule cfg s (.group q g) = some t) : StateInv cfg t := by
  have hlane : ∀ q g k, s.cursor ≠ some (.lane q g k) := by
    intro q' g' k hq
    rw [hc] at hq
    cases hq
  have hinv := h.inv
  simp only [schedule] at hstep
  split at hstep
  · cases hstep
    exact stateInv_move h hb hlane (by simp) (by simp)
  · rename_i group hg
    cases hstep
    rw [hb, active_none hlane] at hinv
    refine ⟨?_, ?_, by simp, h.kept⟩
    · dsimp only
      rw [hb, active_lane]
      exact hinv.openGroup (h.inGroup q g hc) hg
    · simp [hb]

theorem scheduleLane_stateInv {q g k : ℕ} (hn : 2 ≤ cfg.numWorkers) (h : StateInv cfg s) (hb : s.boot = none)
    (hc : s.cursor = some (.lane q g k)) (hstep : schedule cfg s (.lane q g k) = some t) : StateInv cfg t := by
  have hinv := h.inv
  rw [hb, hc, active_lane] at hinv
  obtain ⟨group, hg, hstep⟩ := Option.bind_eq_some_iff.mp hstep
  rw [hinv.prio _ _ _ hg] at hstep
  split_ifs at hstep with hk hlow
  · obtain ⟨u, hu, rfl⟩ := Option.map_eq_some_iff.mp hstep
    obtain ⟨-, huboot, -, hucount, -, -⟩ := give_spec hu
    have hkept := kept_give hu h.kept
    refine ⟨?_, by simp [huboot, hb], by simp, hkept⟩
    dsimp only
    rw [huboot, hb, active_lane]
    exact inv_give hn hinv hu hg hk (Or.inl ⟨hlow, rfl, hucount⟩)
  · obtain ⟨u, hu, rfl⟩ := Option.map_eq_some_iff.mp hstep
    obtain ⟨-, huboot, -, hucount, -, -⟩ := give_spec hu
    have hkept := kept_give hu h.kept
    refine ⟨?_, by simp [huboot, hb], by simp, hkept⟩
    dsimp only
    rw [huboot, hb, active_lane]
    refine inv_give hn hinv hu hg hk (Or.inr ⟨by simpa using hlow, rfl, ?_⟩)
    rw [hucount]
  · cases hstep
    refine ⟨?_, by simp [hb], ?_, h.kept⟩
    · dsimp only
      rw [hb, active_none (by simp)]
      exact hinv.closeGroup hg hk
    · intro q' g' hq'
      cases hq'
      exact (slotUsed_setScheduled _).mpr (hinv.activeUsed q g k rfl)

theorem schedule_stateInv {c : Cursor} (hn : 2 ≤ cfg.numWorkers) (h : StateInv cfg s) (hb : s.boot = none)
    (hc : s.cursor = some c ∨ s.cursor = none ∧ c = .queue 0) (hstep : schedule cfg s c = some t) :
    StateInv cfg t := by
  cases c with
  | queue q =>
    refine scheduleQueue_stateInv h hb ?_ hstep
    intro q' g k hq
    rcases hc with hc | ⟨hc, -⟩
    · rw [hc] at hq
      cases hq
    · rw [hc] at hq
      cases hq
  | group q g =>
    rcases hc with hc | ⟨-, hc⟩
    · exact scheduleGroup_stateInv h hb hc hstep
    · cases hc
  | lane q g k =>
    rcases hc with hc | ⟨-, hc⟩
    · exact scheduleLane_stateInv hn h hb hc hstep
    · cases hc

theorem step_stateInv (hn : 2 ≤ cfg.numWorkers) (h : StateInv cfg s) {l : Label}
    (hstep : step cfg s l = some t) : StateInv cfg t := by
  cases l with
  | serverInit =>
    obtain ⟨k, hb, hstep⟩ := Option.bind_eq_some_iff.mp hstep
    exact serverInit_stateInv hn h hb hstep
  | createQueue id info =>
    obtain ⟨m, hm, rfl⟩ := Option.map_eq_some_iff.mp hstep
    exact ⟨h.inv.createQueue hm, h.bootFirst, fun q g hq => (h.inGroup q g hq).createQueue hm, h.kept⟩
  | schedule =>
    simp only [step] at hstep
    split_ifs at hstep with hb
    refine schedule_stateInv hn h (by simpa using hb) ?_ hstep
    cases hc : s.cursor with
    | none => exact Or.inr ⟨rfl, rfl⟩
    | some c => exact Or.inl rfl
  | pollQueues w =>
    simp only [step] at hstep
    split at hstep
    · cases hstep
    · rename_i batch rest hpoll
      cases hstep
      have hsame : ∀ v, (Function.update s.workers w ⟨rest, (s.workers w).workQueue ++ batch⟩ v).entries =
          (s.workers v).entries := by
        intro v
        by_cases hv : v = w
        · subst hv
          simp [Worker.entries, hpoll]
        · simp [hv]
      refine ⟨{ h.inv with entries := ?_ }, h.bootFirst, h.inGroup, ?_⟩
      · intro v
        rw [hsame v]
        exact h.inv.entries v
      · intro hd v
        rw [hsame v]
        exact h.kept hd v

def otherLanes (s : State) : List (ℕ × WorkEntry) :=
  s.given.filter fun x => (findGroup s.queueMap x.2.queue x.2.prio).any fun group => !group.isLowPriority

structure PlacementOk (cfg : Config) (s : State) : Prop where
  single : (placed cfg s).Nodup
  polled : ∀ w e, e ∈ (s.workers w).entries → (w, e) ∈ s.given
  kept : cfg.dropsWhenFull = false → ∀ w, (s.workers w).entries = lanesGiven s.given w
  rule : ∀ x ∈ s.given, ∃ group, findGroup s.queueMap x.2.queue x.2.prio = some group ∧
    x.2.laneId < group.info.numLanes ∧
      if group.isLowPriority then x.1 = 0 else 1 ≤ x.1 ∧ x.1 < cfg.numWorkers
  balanced : (otherLanes s).length < 2 ^ 32 → ∀ i j, 1 ≤ i → i < cfg.numWorkers → 1 ≤ j → j < cfg.numWorkers →
    (lanesGiven (otherLanes s) i).length ≤ (lanesGiven (otherLanes s) j).length + 1

theorem mem_lanesGiven {given : List (ℕ × WorkEntry)} {w : ℕ} {e : WorkEntry} :
    e ∈ lanesGiven given w ↔ (w, e) ∈ given := by
  simp [lanesGiven]

theorem length_lanesGiven (given : List (ℕ × WorkEntry)) (w : ℕ) :
    (lanesGiven given w).length = (given.map (·.1)).count w := by
  rw [lanesGiven, List.length_map, List.count, List.countP_map, List.countP_eq_length_filter]
  rfl

theorem Inv.single (h : Inv cfg.numWorkers s.queueMap s.workers (active s.boot s.cursor) s.count s.given) :
    (placed cfg s).Nodup := by
  have hworker : ∀ w, (s.workers w).entries.Nodup := by
    intro w
    refine (h.entries w).nodup (h.distinct.sublist ?_)
    exact List.filter_sublist.map _
  unfold placed
  rw [List.nodup_flatMap]
  refine ⟨fun w _ => hworker w, ?_⟩
  apply List.nodup_range.pairwise_of_forall_ne
  intro v _ w _ hne e hv hw
  have hv := mem_lanesGiven.mp ((h.entries v).subset hv)
  have hw := mem_lanesGiven.mp ((h.entries w).subset hw)
  have heq := List.inj_on_of_nodup_map h.distinct hv hw rfl
  exact hne (congrArg Prod.fst heq)

theorem Inv.otherLanes (h : Inv cfg.numWorkers s.queueMap s.workers (active s.boot s.cursor) s.count s.given) :
    (otherLanes s).map (·.1) = others s.given := by
  unfold Placement.otherLanes others
  rw [List.filter_map]
  congr 1
  apply List.filter_congr
  intro x hx
  obtain ⟨-, group, hg, -, hfit⟩ := h.used x hx
  unfold Fits at hfit
  rw [hg, Option.any_some]
  split_ifs at hfit with hlow
  · simp [hlow, hfit]
  · have hne : x.1 ≠ 0 := by omega
    simp [hlow, hne]

theorem map_deal {m r : ℕ} (hm : m < 2 ^ 32) :
    (List.range m).map (fun k => k % 2 ^ 32 % r + 1) = (RoundRobin.deal m r).map (· + 1) := by
  rw [RoundRobin.deal, List.map_map]
  apply List.map_congr_left
  intro k hk
  have hk := List.mem_range.mp hk
  simp only [Function.comp_apply]
  rw [Nat.mod_eq_of_lt (show k < 2 ^ 32 by omega)]

theorem Inv.balanced (h : Inv cfg.numWorkers s.queueMap s.workers (active s.boot s.cursor) s.count s.given)
    (hm : (others s.given).length < 2 ^ 32) {i j : ℕ} (hi : 1 ≤ i ∧ i < cfg.numWorkers)
    (hj : 1 ≤ j ∧ j < cfg.numWorkers) : (others s.given).count i ≤ (others s.given).count j + 1 := by
  have hcount : ∀ v, (others s.given).count (v + 1) =
      (RoundRobin.deal (others s.given).length (cfg.numWorkers - 1)).count v := by
    intro v
    conv_lhs => rw [h.dealt, map_deal hm]
    exact List.count_map_of_injective _ _ (add_left_injective 1) v
  obtain ⟨v, rfl⟩ : ∃ v, i = v + 1 := ⟨i - 1, by omega⟩
  obtain ⟨u, rfl⟩ : ∃ u, j = u + 1 := ⟨j - 1, by omega⟩
  rw [hcount, hcount]
  exact RoundRobin.count_deal_le (by omega) (by omega)

theorem StateInv.placementOk (h : StateInv cfg s) : PlacementOk cfg s where
  single := h.inv.single
  polled w e he := mem_lanesGiven.mp ((h.inv.entries w).subset he)
  kept := h.kept
  rule x hx := by
    obtain ⟨-, group, hg, hlt, hfit⟩ := h.inv.used x hx
    exact ⟨group, hg, hlt.trans_le (h.inv.bound _ _ _ hg), hfit⟩
  balanced hm i j hi hin hj hjn := by
    rw [length_lanesGiven, length_lanesGiven, h.inv.otherLanes]
    apply h.inv.balanced _ ⟨hi, hin⟩ ⟨hj, hjn⟩
    rwa [← h.inv.otherLanes, List.length_map]

theorem placementOk_of_run (cfg : Config) (hn : 2 ≤ cfg.numWorkers) (adminInfo : List PriorityInfo)
    (rest : List (QueueId × List PriorityInfo)) (labels : List Label) (s : State)
    (hrun : Runs.run (step cfg) (State.init adminInfo rest) labels = some s) : PlacementOk cfg s := by
  have hinv := Runs.run_invariant_all (I := StateInv cfg)
    (fun s l t h hstep => step_stateInv hn h hstep) (stateInv_init cfg adminInfo rest) hrun
  exact hinv.placementOk

def threeWorkers : Config := ⟨3, 1024, false⟩

theorem placementOk_boot : ∃ s, Runs.run (step threeWorkers)
    (State.init [⟨1, 1, 1024, queueUnordered⟩] [(processQueue, [⟨1, 1, 1024, queueUnordered⟩,
      ⟨1, 1, 1024, queueLongRunning⟩, ⟨2, 2, 1024, queueLowLatency⟩])])
    (List.replicate 2 .serverInit ++ List.replicate 18 .schedule ++ [.pollQueues 2]) = some s ∧
    s.given.length = 5 ∧ PlacementOk threeWorkers s := by
  have hany : (Runs.run (step threeWorkers)
      (State.init [⟨1, 1, 1024, queueUnordered⟩] [(processQueue, [⟨1, 1, 1024, queueUnordered⟩,
        ⟨1, 1, 1024, queueLongRunning⟩, ⟨2, 2, 1024, queueLowLatency⟩])])
      (List.replicate 2 .serverInit ++ List.replicate 18 .schedule ++ [.pollQueues 2])).any
      (fun s => s.given.length == 5) = true := by decide +kernel
  obtain ⟨s, hs, hlen⟩ := (Option.any_eq_true _ _).mp hany
  exact ⟨s, hs, by simpa using hlen, placementOk_of_run _ (by decide) _ _ _ _ hs⟩

end HermesRun.Placement
