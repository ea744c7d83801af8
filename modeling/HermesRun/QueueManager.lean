import HermesRun.Types

namespace HermesRun

open Bitfield

def queueLowLatency : Flags := bitOpt 0
def queueUnordered : Flags := bitOpt 3
def queueLongRunning : Flags := bitOpt 3

structure PriorityInfo where
  numLanes : ℕ
  maxLanes : ℕ
  depth : ℕ
  flags : Flags
  deriving DecidableEq, Repr

structure LaneGroup where
  info : PriorityInfo
  prio : ℕ
  numScheduled : ℕ
  deriving DecidableEq, Repr

namespace LaneGroup

def isLowPriority (g : LaneGroup) : Bool := any g.info.flags queueLongRunning || g.prio == 0

end LaneGroup

/-- A queue's id and lane groups. An unused slot of the queue map has the null id. -/
structure MultiQueue where
  id : QueueId
  groups : List LaneGroup
  deriving DecidableEq, Repr

namespace MultiQueue

def init (id : QueueId) (prios : List PriorityInfo) : MultiQueue :=
  ⟨id, prios.mapIdx fun prio info => ⟨info, prio, 0⟩⟩

def empty : MultiQueue := ⟨UniqueId.getNull, []⟩

def queueInfo (q : MultiQueue) : List PriorityInfo := q.groups.map (·.info)

theorem queueInfo_init (id : QueueId) (prios : List PriorityInfo) : (init id prios).queueInfo = prios := by
  apply List.ext_getElem?
  intro i
  simp only [queueInfo, init, List.getElem?_map, List.getElem?_mapIdx]
  cases prios[i]? <;> rfl

end MultiQueue

namespace QueueManager

abbrev QueueMap := List MultiQueue

def adminQueue : QueueId := ⟨1, 0⟩
def processQueue : QueueId := ⟨1, 1⟩

/-- `(*queue_map_)[id.unique_]`; `none` stands for an index out of range. -/
def getQueue (m : QueueMap) (id : QueueId) : Option MultiQueue := m[id.unique]?

def createQueue (m : QueueMap) (id : QueueId) (queueInfo : List PriorityInfo) : Option QueueMap :=
  (getQueue m id).map fun queue =>
    if id.isNull then m
    else if !queue.id.isNull then m
    else m.set id.unique (MultiQueue.init id queueInfo)

def serverInit (maxQueues maxLanes queueDepth : ℕ) : Option QueueMap :=
  (createQueue (List.replicate maxQueues MultiQueue.empty) adminQueue
    [⟨1, 1, queueDepth, queueUnordered⟩]).bind fun m =>
  createQueue m processQueue
    [⟨1, 1, queueDepth, queueUnordered⟩, ⟨1, 1, queueDepth, queueLongRunning⟩,
      ⟨maxLanes, maxLanes, queueDepth, queueLowLatency⟩]

theorem createQueue_length {m m' : QueueMap} {id : QueueId} {info : List PriorityInfo}
    (h : createQueue m id info = some m') : m'.length = m.length := by
  obtain ⟨q, -, rfl⟩ := Option.map_eq_some_iff.mp h
  split_ifs <;> simp

theorem createQueue_of_lt {m : QueueMap} {id : QueueId} (info : List PriorityInfo) (h : id.unique < m.length) :
    ∃ m', createQueue m id info = some m' ∧ m'.length = m.length := by
  have hsome : (createQueue m id info).isSome := by
    simp [createQueue, getQueue, h]
  obtain ⟨m', hm'⟩ := Option.isSome_iff_exists.mp hsome
  exact ⟨m', hm', createQueue_length hm'⟩

theorem serverInit_of_lt {maxQueues : ℕ} (maxLanes queueDepth : ℕ) (h : 1 < maxQueues) :
    ∃ m, serverInit maxQueues maxLanes queueDepth = some m ∧ m.length = maxQueues := by
  have hlen : (List.replicate maxQueues MultiQueue.empty).length = maxQueues := List.length_replicate
  have hadmin : adminQueue.unique < (List.replicate maxQueues MultiQueue.empty).length := by
    rw [hlen]
    exact Nat.zero_lt_of_lt h
  obtain ⟨m, hm, hmlen⟩ := createQueue_of_lt [⟨1, 1, queueDepth, queueUnordered⟩] hadmin
  have hprocess : processQueue.unique < m.length := by
    rw [hmlen, hlen]
    exact h
  obtain ⟨m', hm', hmlen'⟩ := createQueue_of_lt
    [⟨1, 1, queueDepth, queueUnordered⟩, ⟨1, 1, queueDepth, queueLongRunning⟩,
      ⟨maxLanes, maxLanes, queueDepth, queueLowLatency⟩] hprocess
  refine ⟨m', ?_, hmlen'.trans (hmlen.trans hlen)⟩
  rw [serverInit, hm, Option.bind_some, hm']

theorem createQueue_used {m m' : QueueMap} {id : QueueId} {info : List PriorityInfo} {i : ℕ} {q : MultiQueue}
    (h : createQueue m id info = some m') (hq : m[i]? = some q) (hn : q.id.isNull = false) : m'[i]? = some q := by
  obtain ⟨old, hold, rfl⟩ := Option.map_eq_some_iff.mp h
  split_ifs with h1 h2
  · exact hq
  · exact hq
  · have hne : id.unique ≠ i := by
      rintro rfl
      rw [getQueue, hq, Option.some.injEq] at hold
      rw [← hold, hn] at h2
      simp at h2
    rw [List.getElem?_set_ne hne]
    exact hq

theorem createQueue_slot {m m' : QueueMap} {id : QueueId} {info : List PriorityInfo} {i : ℕ} {q : MultiQueue}
    (h : createQueue m id info = some m') (hq : m'[i]? = some q) :
    m[i]? = some q ∨ i = id.unique ∧ q = MultiQueue.init id info := by
  obtain ⟨old, hold, rfl⟩ := Option.map_eq_some_iff.mp h
  split_ifs at hq
  · exact Or.inl hq
  · exact Or.inl hq
  · rw [List.getElem?_set] at hq
    by_cases hi : id.unique = i
    · rw [if_pos hi] at hq
      split_ifs at hq
      exact Or.inr ⟨hi.symm, (Option.some.inj hq).symm⟩
    · rw [if_neg hi] at hq
      exact Or.inl hq

end QueueManager

end HermesRun
