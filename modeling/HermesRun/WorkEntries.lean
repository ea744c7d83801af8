import HermesRun.QueueStorage

namespace HermesRun

theorem index_of_nodup_flatMap {β γ : Type} {f : β → List γ} {l : List β} (h : (l.flatMap f).Nodup) {i j : ℕ}
    {x y : β} {a : γ} (hi : l[i]? = some x) (hj : l[j]? = some y) (hx : a ∈ f x) (hy : a ∈ f y) : i = j := by
  obtain ⟨-, hpairs⟩ := List.nodup_flatMap.mp h
  rw [List.pairwise_iff_getElem] at hpairs
  obtain ⟨hilt, rfl⟩ := List.getElem?_eq_some_iff.mp hi
  obtain ⟨hjlt, rfl⟩ := List.getElem?_eq_some_iff.mp hj
  rcases Nat.lt_trichotomy i j with hlt | heq | hlt
  · exact absurd hy (hpairs i j hilt hjlt hlt hx)
  · exact heq
  · exact absurd hx (hpairs j i hjlt hilt hlt hy)

theorem flatMap_set {β γ : Type} {f : β → List γ} {l : List β} {k : ℕ} {x : β} (hk : l[k]? = some x)
    (hx : f x = []) (y : β) : ((l.set k y).flatMap f).Perm (f y ++ l.flatMap f) := by
  induction l generalizing k with
  | nil => cases hk
  | cons z l ih =>
    cases k with
    | zero =>
      rw [List.getElem?_cons_zero, Option.some.injEq] at hk
      rw [List.set_cons_zero, List.flatMap_cons, List.flatMap_cons, hk, hx, List.nil_append]
    | succ k =>
      rw [List.getElem?_cons_succ] at hk
      rw [List.set_cons_succ, List.flatMap_cons, List.flatMap_cons]
      exact ((ih hk).append_left (f z)).trans (List.perm_append_comm_assoc (f z) (f y) _)

namespace QueueStorage

variable {α : Type}

def Group.cells (g : Group α) : List Addr := g.addr :: g.lanes.map Lane.addr

def MultiQueue.cells (q : MultiQueue α) : List Addr := q.groups.flatMap Group.cells

def laneAt (m : List (MultiQueue α)) (a : Addr) : Option (Lane α) :=
  (m.flatMap fun q => q.groups.flatMap Group.lanes).find? fun l => l.addr = a

def groupAt (m : List (MultiQueue α)) (a : Addr) : Option (Group α) :=
  (m.flatMap MultiQueue.groups).find? fun g => g.addr = a

structure Stored (s : State α) : Prop where
  nodup : (s.queueMap.flatMap MultiQueue.cells).Nodup
  allocated : ∀ a ∈ s.queueMap.flatMap MultiQueue.cells, a < s.next
  null : ∀ q ∈ s.queueMap, q.id.isNull = true → q.groups = []

theorem newGroup_cells (next : Addr) (prio : ℕ) (info : PriorityInfo) :
    (newGroup next prio info : Group α).cells = List.range' next (1 + info.numLanes) := by
  rw [Nat.add_comm, List.range'_succ, Group.cells, newGroup, List.map_map, List.range'_eq_map_range]
  rfl

theorem newGroups_cells (next : Addr) (prio : ℕ) (infos : List PriorityInfo) :
    ∃ n, newGroupsEnd next infos = next + n ∧
      (newGroups next prio infos : List (Group α)).flatMap Group.cells = List.range' next n := by
  induction infos generalizing next prio with
  | nil => exact ⟨0, rfl, rfl⟩
  | cons info infos ih =>
    obtain ⟨n, hend, hcells⟩ := ih (next + 1 + info.numLanes) (prio + 1)
    refine ⟨1 + info.numLanes + n, ?_, ?_⟩
    · rw [newGroupsEnd, hend, Nat.add_assoc next 1, Nat.add_assoc]
    · rw [newGroups, List.flatMap_cons, newGroup_cells, hcells, Nat.add_assoc next 1, List.range'_append_1]

theorem stored_init (maxQueues : ℕ) : Stored (State.init maxQueues : State α) := by
  have hnone : ∀ q ∈ (State.init maxQueues : State α).queueMap, q.groups = [] := by
    intro q hq
    rw [List.eq_of_mem_replicate hq]
    rfl
  have hcells : (State.init maxQueues : State α).queueMap.flatMap MultiQueue.cells = [] := by
    rw [List.flatMap_eq_nil_iff]
    intro q hq
    rw [MultiQueue.cells, hnone q hq]
    rfl
  constructor
  · rw [hcells]
    exact List.nodup_nil
  · rw [hcells]
    intro a ha
    cases ha
  · intro q hq _
    exact hnone q hq

theorem createQueue_stored {s t : State α} {id : QueueId} {info : List PriorityInfo} (hs : Stored s)
    (h : createQueue s id info = some t) : Stored t := by
  obtain ⟨old, hold, rfl⟩ := Option.map_eq_some_iff.mp h
  split_ifs with hnull hused
  · exact hs
  · exact hs
  have hempty : old.groups = [] := by
    apply hs.null old (List.mem_of_getElem? hold)
    cases hid : old.id.isNull
    · rw [hid] at hused
      exact absurd rfl hused
    · rfl
  have hcells : MultiQueue.cells old = [] := by rw [MultiQueue.cells, hempty]; rfl
  have hperm := flatMap_set hold hcells ⟨id, 0#32, newGroups s.next 0 info⟩
  obtain ⟨n, hend, hnew⟩ := newGroups_cells (α := α) s.next 0 info
  rw [show (⟨id, 0#32, newGroups s.next 0 info⟩ : MultiQueue α).cells = List.range' s.next n from hnew] at hperm
  constructor
  · -- the new cells lie behind all that were allocated before
    rw [hperm.nodup_iff, List.nodup_append]
    refine ⟨List.nodup_range', hs.nodup, ?_⟩
    intro a ha b hb
    obtain ⟨hle, -⟩ := List.mem_range'_1.mp ha
    have hlt := hs.allocated b hb
    exact Nat.ne_of_gt (Nat.lt_of_lt_of_le hlt hle)
  · intro a ha
    rw [hperm.mem_iff, List.mem_append, List.mem_range'_1] at ha
    show a < newGroupsEnd s.next info
    rw [hend]
    rcases ha with ⟨-, hlt⟩ | ha
    · exact hlt
    · exact Nat.lt_of_lt_of_le (hs.allocated a ha) (Nat.le_add_right s.next n)
  · intro q hq hqnull
    rcases List.mem_or_eq_of_mem_set hq with hq | rfl
    · exact hs.null q hq hqnull
    · exact absurd hqnull hnull

/-- The queue with every pointer that leads into it, without what is stored behind them. -/
def MultiQueue.shape (q : MultiQueue α) : QueueId × List (Addr × List Addr) :=
  (q.id, q.groups.map fun g => (g.addr, g.lanes.map Lane.addr))

theorem cells_eq (q : MultiQueue α) : q.cells = q.shape.2.flatMap fun x => x.1 :: x.2 := by
  rw [MultiQueue.shape, List.flatMap_map]
  rfl

theorem setGroup_shape {s t : State α} {queue prio : ℕ} {f : Group α → Group α}
    (hf : ∀ g, ((f g).addr, (f g).lanes.map Lane.addr) = (g.addr, g.lanes.map Lane.addr))
    (h : setGroup s queue prio f = some t) :
    t.next = s.next ∧ t.queueMap.map MultiQueue.shape = s.queueMap.map MultiQueue.shape := by
  obtain ⟨old, hold, rfl⟩ := Option.map_eq_some_iff.mp h
  refine ⟨rfl, ?_⟩
  have hshape : (⟨old.id, old.flags, old.groups.modify prio f⟩ : MultiQueue α).shape = old.shape := by
    rw [MultiQueue.shape, modify_map hf]
    rfl
  apply List.ext_getElem?
  intro k
  rw [List.map_set, hshape]
  by_cases hk : queue = k
  · subst hk
    rw [List.getElem?_set_self', List.getElem?_map, hold]
    rfl
  · rw [List.getElem?_set_ne hk]

theorem step_shape {s t : State α} {l : Label α} (h : step s l = some t) :
    (∃ id info, createQueue s id info = some t) ∨
      t.next = s.next ∧ t.queueMap.map MultiQueue.shape = s.queueMap.map MultiQueue.shape := by
  cases l with
  | createQueue id info => exact Or.inl ⟨id, info, h⟩
  | setLane queue prio laneId data =>
    right
    apply setGroup_shape _ h
    intro g
    have haddrs : (g.setLane laneId data).lanes.map Lane.addr = g.lanes.map Lane.addr := by
      apply modify_map
      intro lane
      rfl
    rw [haddrs]
    rfl
  | setScheduled queue prio n => exact Or.inr (setGroup_shape (f := Group.setScheduled n) (fun _ => rfl) h)

theorem step_stored {s t : State α} {l : Label α} (hs : Stored s) (h : step s l = some t) : Stored t := by
  rcases step_shape h with ⟨id, info, h⟩ | ⟨hnext, hshape⟩
  · exact createQueue_stored hs h
  have hqueue : ∀ q ∈ t.queueMap, ∃ q' ∈ s.queueMap, q'.shape = q.shape := by
    intro q hq
    have hmem : q.shape ∈ s.queueMap.map MultiQueue.shape := hshape ▸ List.mem_map_of_mem hq
    exact List.mem_map.mp hmem
  have hcells : t.queueMap.flatMap MultiQueue.cells = s.queueMap.flatMap MultiQueue.cells := by
    have hof (m : List (MultiQueue α)) :
        m.flatMap MultiQueue.cells = (m.map MultiQueue.shape).flatMap fun x => x.2.flatMap fun y => y.1 :: y.2 := by
      rw [List.flatMap_map]
      congr 1
      funext q
      exact cells_eq q
    rw [hof, hof, hshape]
  constructor
  · rw [hcells]
    exact hs.nodup
  · rw [hcells, hnext]
    exact hs.allocated
  · intro q hq hnull
    obtain ⟨q', hq', heq⟩ := hqueue q hq
    obtain ⟨hid, hgroups⟩ := Prod.mk.injEq .. ▸ heq
    have hempty := hs.null q' hq' (by rw [hid]; exact hnull)
    rw [hempty] at hgroups
    exact List.map_eq_nil_iff.mp hgroups.symm

section Pointers

variable {s : State α} {i j prio prio' laneId : ℕ} {q q' : MultiQueue α} {g g' : Group α} {l : Lane α}

theorem Stored.group_unique (hs : Stored s) (hq : s.queueMap[i]? = some q) (hg : q.groups[prio]? = some g)
    (hq' : s.queueMap[j]? = some q') (hg' : q'.groups[prio']? = some g') {a : Addr} (ha : a ∈ g.cells)
    (ha' : a ∈ g'.cells) : i = j ∧ prio = prio' := by
  have hmem : a ∈ q.cells := List.mem_flatMap.mpr ⟨g, List.mem_of_getElem? hg, ha⟩
  have hmem' : a ∈ q'.cells := List.mem_flatMap.mpr ⟨g', List.mem_of_getElem? hg', ha'⟩
  obtain rfl := index_of_nodup_flatMap hs.nodup hq hq' hmem hmem'
  rw [hq, Option.some.injEq] at hq'
  subst hq'
  have hnodup := (List.nodup_flatMap.mp hs.nodup).1 q (List.mem_of_getElem? hq)
  exact ⟨rfl, index_of_nodup_flatMap hnodup hg hg' ha ha'⟩

theorem Stored.lanes_nodup (hs : Stored s) (hq : s.queueMap[i]? = some q) (hg : q.groups[prio]? = some g) :
    (g.lanes.map Lane.addr).Nodup := by
  have hcells := (List.nodup_flatMap.mp hs.nodup).1 q (List.mem_of_getElem? hq)
  exact ((List.nodup_flatMap.mp hcells).1 g (List.mem_of_getElem? hg)).of_cons

theorem Stored.groupAt_addr (hs : Stored s) (hq : s.queueMap[i]? = some q) (hg : q.groups[prio]? = some g) :
    groupAt s.queueMap g.addr = some g := by
  have hmem : g ∈ s.queueMap.flatMap MultiQueue.groups :=
    List.mem_flatMap.mpr ⟨q, List.mem_of_getElem? hq, List.mem_of_getElem? hg⟩
  rw [groupAt]
  cases hf : (s.queueMap.flatMap MultiQueue.groups).find? fun g' => g'.addr = g.addr with
  | none => simpa using List.find?_eq_none.mp hf g hmem
  | some g' =>
    have hfound := List.find?_some hf
    have haddr : g'.addr = g.addr := of_decide_eq_true hfound
    obtain ⟨q', hq', hg'⟩ := List.mem_flatMap.mp (List.mem_of_find?_eq_some hf)
    obtain ⟨j, hj⟩ := List.mem_iff_getElem?.mp hq'
    obtain ⟨prio', hprio'⟩ := List.mem_iff_getElem?.mp hg'
    have hcell : g.addr ∈ g'.cells := haddr ▸ List.mem_cons_self
    obtain ⟨rfl, rfl⟩ := hs.group_unique hq hg hj hprio' List.mem_cons_self hcell
    rw [hq, Option.some.injEq] at hj
    subst hj
    rw [← hg, ← hprio']

theorem Stored.laneAt_addr (hs : Stored s) (hq : s.queueMap[i]? = some q) (hg : q.groups[prio]? = some g)
    (hl : g.lanes[laneId]? = some l) : laneAt s.queueMap l.addr = some l := by
  have hmem : l ∈ s.queueMap.flatMap fun q => q.groups.flatMap Group.lanes :=
    List.mem_flatMap.mpr ⟨q, List.mem_of_getElem? hq,
      List.mem_flatMap.mpr ⟨g, List.mem_of_getElem? hg, List.mem_of_getElem? hl⟩⟩
  rw [laneAt]
  cases hf : (s.queueMap.flatMap fun q => q.groups.flatMap Group.lanes).find? fun l' => l'.addr = l.addr with
  | none => simpa using List.find?_eq_none.mp hf l hmem
  | some l' =>
    have hfound := List.find?_some hf
    have haddr : l'.addr = l.addr := of_decide_eq_true hfound
    obtain ⟨q', hq', hl'⟩ := List.mem_flatMap.mp (List.mem_of_find?_eq_some hf)
    obtain ⟨g', hg', hl'⟩ := List.mem_flatMap.mp hl'
    obtain ⟨j, hj⟩ := List.mem_iff_getElem?.mp hq'
    obtain ⟨prio', hprio'⟩ := List.mem_iff_getElem?.mp hg'
    have hcell : l.addr ∈ g.cells := List.mem_cons_of_mem _ (List.mem_map_of_mem (List.mem_of_getElem? hl))
    have hcell' : l.addr ∈ g'.cells := haddr ▸ List.mem_cons_of_mem _ (List.mem_map_of_mem hl')
    obtain ⟨rfl, rfl⟩ := hs.group_unique hq hg hj hprio' hcell hcell'
    rw [hq, Option.some.injEq] at hj
    subst hj
    rw [hg, Option.some.injEq] at hprio'
    subst hprio'
    rw [List.inj_on_of_nodup_map (hs.lanes_nodup hq hg) hl' (List.mem_of_getElem? hl) haddr]

theorem Stored.lane_unique (hs : Stored s) {id id' : QueueId} {laneId' : ℕ} {e e' : WorkEntry}
    (he : workEntry s.queueMap id prio laneId = some e) (he' : workEntry s.queueMap id' prio' laneId' = some e')
    (hlane : e'.lane = e.lane) : id'.unique = id.unique ∧ prio' = prio ∧ laneId' = laneId := by
  obtain ⟨q, g, l, hq, hg, hl, rfl⟩ := workEntry_eq_some.mp he
  obtain ⟨q', g', l', hq', hg', hl', rfl⟩ := workEntry_eq_some.mp he'
  have haddr : l'.addr = l.addr := hlane
  have hcell : l.addr ∈ g.cells := List.mem_cons_of_mem _ (List.mem_map_of_mem (List.mem_of_getElem? hl))
  have hcell' : l.addr ∈ g'.cells :=
    haddr ▸ List.mem_cons_of_mem _ (List.mem_map_of_mem (List.mem_of_getElem? hl'))
  obtain ⟨hid, rfl⟩ := hs.group_unique hq' hg' hq hg hcell' hcell
  refine ⟨hid, rfl, ?_⟩
  rw [getQueue, hid, show s.queueMap[id.unique]? = some q from hq, Option.some.injEq] at hq'
  subst hq'
  rw [hg, Option.some.injEq] at hg'
  subst hg'
  have hnodup := hs.lanes_nodup hq hg
  have hlt : laneId' < (g.lanes.map Lane.addr).length := by
    rw [List.length_map]
    exact (List.getElem?_eq_some_iff.mp hl').1
  apply (List.getElem?_inj hlt hnodup).mp
  rw [List.getElem?_map, List.getElem?_map, hl, hl', Option.map_some, Option.map_some, haddr]

end Pointers

theorem workEntry_of_shape {m m' : List (MultiQueue α)} (h : m'.map MultiQueue.shape = m.map MultiQueue.shape)
    (id : QueueId) (prio laneId : ℕ) : workEntry m' id prio laneId = workEntry m id prio laneId := by
  have hof (m : List (MultiQueue α)) : workEntry m id prio laneId =
      (m.map MultiQueue.shape)[id.unique]?.bind fun x => x.2[prio]?.bind fun y => y.2[laneId]?.map fun a =>
        ⟨prio, laneId, a, y.1, id.unique⟩ := by
    rw [workEntry, getQueue, List.getElem?_map]
    cases m[id.unique]? with
    | none => rfl
    | some q =>
      rw [Option.bind_some, Option.map_some, Option.bind_some, MultiQueue.shape, List.getElem?_map]
      cases q.groups[prio]? with
      | none => rfl
      | some g =>
        rw [Option.bind_some, Option.map_some, Option.bind_some, List.getElem?_map, Option.map_map]
        rfl
  rw [hof, hof, h]

theorem step_workEntry {s t : State α} {lab : Label α} (hs : Stored s) (h : step s lab = some t) {id : QueueId}
    {prio laneId : ℕ} {e : WorkEntry} (he : workEntry s.queueMap id prio laneId = some e) :
    workEntry t.queueMap id prio laneId = some e := by
  rcases step_shape h with ⟨new, info, h⟩ | ⟨-, hshape⟩
  · obtain ⟨old, hold, rfl⟩ := Option.map_eq_some_iff.mp h
    split_ifs with hnull hused
    · exact he
    · exact he
    by_cases hslot : new.unique = id.unique
    · -- an entry of the slot would be one of a queue that has not been created
      obtain ⟨q, g, -, hq, hg, -⟩ := workEntry_eq_some.mp he
      rw [getQueue, hslot, show s.queueMap[id.unique]? = some q from hq, Option.some.injEq] at hold
      subst hold
      rw [Bool.not_eq_true', Bool.not_eq_false] at hused
      rw [hs.null q (List.mem_of_getElem? hq) hused] at hg
      cases hg
    · rw [workEntry_congr (List.getElem?_set_ne hslot)]
      exact he
  · rw [workEntry_of_shape hshape]
    exact he

theorem entries_of_run (maxQueues : ℕ) (before after : List (Label α)) (s t : State α)
    (hs : Runs.run step (State.init maxQueues) before = some s) (ht : Runs.run step s after = some t) (id : QueueId)
    (prio laneId : ℕ) (e : WorkEntry) (he : workEntry s.queueMap id prio laneId = some e) :
    workEntry t.queueMap id prio laneId = some e ∧
      (∃ q g l, getQueue t.queueMap id = some q ∧ q.groups[prio]? = some g ∧ g.lanes[laneId]? = some l ∧
        groupAt t.queueMap e.group = some g ∧ laneAt t.queueMap e.lane = some l) ∧
      ∀ id' prio' laneId' e', workEntry t.queueMap id' prio' laneId' = some e' → e'.lane = e.lane →
        id'.unique = id.unique ∧ prio' = prio ∧ laneId' = laneId := by
  have hstored : Stored s := Runs.run_invariant_all (fun _ _ _ h hst => step_stored h hst) (stored_init maxQueues) hs
  have hboth : Stored t ∧ workEntry t.queueMap id prio laneId = some e := by
    refine Runs.run_invariant_all (I := fun t => Stored t ∧ workEntry t.queueMap id prio laneId = some e) ?_
      ⟨hstored, he⟩ ht
    rintro u l v ⟨hu, he⟩ hst
    exact ⟨step_stored hu hst, step_workEntry hu hst he⟩
  obtain ⟨hstored, he⟩ := hboth
  refine ⟨he, ?_, ?_⟩
  · obtain ⟨q, g, l, hq, hg, hl, rfl⟩ := workEntry_eq_some.mp he
    exact ⟨q, g, l, hq, hg, hl, hstored.groupAt_addr hq hg, hstored.laneAt_addr hq hg hl⟩
  · intro id' prio' laneId' e' he' hlane
    exact hstored.lane_unique he he' hlane

theorem entries_threeQueues : ∃ s t e, Runs.run step (State.init 4) (threeQueues.take 2) = some s ∧
    Runs.run step s (threeQueues.drop 2 ++ [.setLane 1 0 0 [8]]) = some t ∧
    workEntry s.queueMap ⟨1, 1⟩ 0 0 = some e ∧ workEntry t.queueMap ⟨1, 1⟩ 0 0 = some e ∧
    (∃ q g l, getQueue t.queueMap ⟨1, 1⟩ = some q ∧ q.groups[0]? = some g ∧ g.lanes[0]? = some l ∧
      groupAt t.queueMap e.group = some g ∧ laneAt t.queueMap e.lane = some l) ∧
    ∀ id' prio' laneId' e', workEntry t.queueMap id' prio' laneId' = some e' → e'.lane = e.lane →
      id'.unique = 1 ∧ prio' = 0 ∧ laneId' = 0 :=
  ⟨_, _, _, rfl, rfl, rfl, entries_of_run 4 (threeQueues.take 2) (threeQueues.drop 2 ++ [.setLane 1 0 0 [8]]) _ _ rfl
    rfl ⟨1, 1⟩ 0 0 _ rfl⟩

end QueueStorage

end HermesRun
