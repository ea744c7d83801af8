import HermesRun.Worker.Admission

namespace HermesRun.Poll

open Runs

variable {α : Type}

/-- The group map of every worker is the account of the tasks it has in progress. -/
structure GroupsAgree (s : State α) : Prop where
  entry : ∀ w k, ((s.workers w).groups.groupMap k).isSome = true ↔ ∃ a ∈ inProgress w s.log, a.key = k
  depth : ∀ w k n, (s.workers w).groups.groupMap k = some n →
    n.nodeDepth = (inProgress w s.log).countP (fun a => a.key = k)
  root : ∀ w k n, (s.workers w).groups.groupMap k = some n →
    ∀ a ∈ inProgress w s.log, a.key = k → (s.mem a.task).taskNode.root = n.root
  exclusive : ∀ w, ∀ a ∈ inProgress w s.log, ∀ b ∈ inProgress w s.log, a.key = b.key →
    (s.mem a.task).taskNode.root = (s.mem b.task).taskNode.root
  noZero : ∀ w p, .depthZero w p ∉ s.log

theorem groupsAgree_of_run (cfg : Config α) (hl : ∀ id, (cfg.lib id).IgnoresFlags)
    (hfatal : cfg.fatalReturns = false) (mem : TaskPtr → Task α) (registered : TaskStateId → Bool)
    (is : List (Label α)) (t : State α)
    (hlaw : Along (step cfg) (fun s i _ => lawful cfg s i = true) (State.init mem registered) is)
    (hrun : run (step cfg) (State.init mem registered) is = some t) : GroupsAgree t := by
  have h := admissionInv_of_run hl hfatal hlaw hrun
  constructor
  · intro w k
    rw [← (h.groups w).isSome_iff, Groups.table, Option.isSome_map]
  · intro w k n hn
    exact ((h.groups w).count (Groups.table_eq_some hn)).1
  · intro w k n hn a ha hk
    rw [(h.tasks.placed w a ha).root]
    exact ((h.groups w).count (Groups.table_eq_some hn)).2 a ha hk
  · intro w a ha b hb hk
    rw [(h.tasks.placed w a ha).root, (h.tasks.placed w b hb).root]
    exact (h.groups w).same_owner ha hb hk
  · exact h.noZero

theorem bootConfig_ignoresFlags (id : TaskStateId) : (bootConfig.lib id).IgnoresFlags := by
  unfold bootConfig
  dsimp only
  split
  · exact HermesRunAdmin.lib_ignoresFlags Unit
  · exact ProcQueue.lib_ignoresFlags Unit

def createOf (root method : ℕ) (flags : Bitfield.Flags) : Task Unit :=
  ⟨⟨1, 0⟩, ⟨⟨1, root⟩, 0⟩, DomainId.getLocal, TaskPrio.kAdmin, 0, method, flags, .own ()⟩

/-- A `CreateTaskState` task begins, yields and ends, its handler having set `method_`. -/
def rewriteMethod (method : ℕ) : List (Label Unit) :=
  let l : LaneRef := ⟨⟨1, 0⟩, TaskPrio.kAdmin, 0⟩
  [.emplace l (createOf 4 HermesRunAdmin.Method.kCreateTaskState taskCoroutine), .poll 0 l,
    .scan 0 [], .finish 0 (createOf 4 HermesRunAdmin.Method.kCreateTaskState (taskCoroutine ||| taskHasStarted)),
    .scan 0 [], .poll 0 l,
    .scan 0 [], .finish 0 (createOf 4 method (taskCoroutine ||| taskHasStarted ||| taskModuleComplete))]

theorem groupsAgree_construct : ∃ t, run (step bootConfig) bootState (rewriteMethod TaskMethod.kConstruct) = some t ∧
    GroupsAgree t := by
  have hsome : (run (step bootConfig) bootState (rewriteMethod TaskMethod.kConstruct)).isSome = true := by
    decide +kernel
  have hlaw : Along (step bootConfig) (fun s i _ => lawful bootConfig s i = true) bootState
      (rewriteMethod TaskMethod.kConstruct) := by decide +kernel
  obtain ⟨t, ht⟩ := Option.isSome_iff_exists.mp hsome
  exact ⟨t, ht, groupsAgree_of_run bootConfig bootConfig_ignoresFlags rfl _ _ _ t hlaw ht⟩

theorem groupsAgree_unordered_rewrite :
    ∃ t, run (step bootConfig) bootState (rewriteMethod HermesRunAdmin.Method.kStopRuntime) = some t ∧
      ¬GroupsAgree t := by
  have hany : (run (step bootConfig) bootState (rewriteMethod HermesRunAdmin.Method.kStopRuntime)).any
      (fun t => ((t.workers 0).groups.groupMap (Groups.laneKey [] 0)).isSome && inProgress 0 t.log = []) = true := by
    decide +kernel
  obtain ⟨t, ht, hbad⟩ := (Option.any_eq_true _ _).mp hany
  simp only [Bool.and_eq_true, decide_eq_true_eq] at hbad
  refine ⟨t, ht, ?_⟩
  intro h
  obtain ⟨a, ha, -⟩ := (h.entry 0 _).mp hbad.1
  simp [hbad.2] at ha

section Refusal

variable (cfg : Config α) (s : State α) (w : WorkerId) (l : LaneRef) (t : Task α)

def refuses : Bool :=
  !((s.workers w).groups.checkTaskGroup (cfg.lib t.taskState) t l.laneId (isRemote cfg t)).1

def Conflicts : Prop :=
  ∃ a ∈ inProgress w s.log, a.lane = l ∧
    a.bytes = (s.workers w).groups.groupBytes (cfg.lib t.taskState) t ∧ a.root ≠ t.taskNode.root

/-- The group map's entry under the lane's number is another root's. -/
def HeldByLaneNumber : Prop :=
  ∃ n, (s.workers w).groups.groupMap (Groups.laneKey [] l.laneId) = some n ∧ n.root ≠ t.taskNode.root

def BusyLaneNumber : Prop :=
  ∃ a ∈ inProgress w s.log, a.lane.laneId = l.laneId ∧ a.root ≠ t.taskNode.root

end Refusal

theorem refuses_iff_held (cfg : Config α) (s : State α) (w : WorkerId) (l : LaneRef) (t : Task α)
    (hg : isGrouped cfg t = true) (hs : t.isStarted = false) :
    refuses cfg s w l t = true ↔ HeldByLaneNumber s w l t := by
  simp only [isGrouped, Bool.and_eq_true, Bool.not_eq_true'] at hg
  have hkey := Groups.laneKey_eq ((s.workers w).groups.groupBytes (cfg.lib t.taskState) t) [] l.laneId
  unfold refuses HeldByLaneNumber Groups.checkTaskGroup
  simp only [hg.1, hs, hg.2, hkey, Bool.or_self, Bool.false_eq_true, if_false, Bool.not_true]
  cases (s.workers w).groups.groupMap (Groups.laneKey [] l.laneId) with
  | none => simp
  | some n =>
    by_cases hroot : n.root = t.taskNode.root <;> simp [hroot]

theorem held_iff_busy {cfg : Config α} {s : State α} (h : AdmissionInv cfg s) (w : WorkerId) (l : LaneRef) (t : Task α) :
    HeldByLaneNumber s w l t ↔ BusyLaneNumber s w l t := by
  constructor
  · rintro ⟨n, hn, hroot⟩
    have htable := Groups.table_eq_some hn
    obtain ⟨a, ha, hk⟩ := (h.groups w).isSome_iff.mp (by rw [htable]; rfl)
    have howner := ((h.groups w).count htable).2 a ha hk
    rw [(h.tasks.placed w a ha).key] at hk
    exact ⟨a, ha, Groups.laneKey_inj hk, by rw [howner]; exact hroot⟩
  · rintro ⟨a, ha, hlane, hroot⟩
    obtain ⟨c, hc, -⟩ := (h.groups w).member ha
    rw [(h.tasks.placed w a ha).key, hlane] at hc
    obtain ⟨n, hn, hpair⟩ := Option.map_eq_some_iff.mp hc
    exact ⟨n, hn, by rw [(Prod.mk.inj hpair).1]; exact hroot⟩

theorem refusal_justified_iff (cfg : Config α) (mem : TaskPtr → Task α) (registered : TaskStateId → Bool)
    (is : List (Label α)) (s : State α) (hrun : run (step cfg) (State.init mem registered) is = some s)
    (w : WorkerId) (l : LaneRef) (t : Task α) (hg : isGrouped cfg t = true) (hs : t.isStarted = false) :
    ((∀ id, (cfg.lib id).IgnoresFlags) → cfg.fatalReturns = false →
      Along (step cfg) (fun s i _ => lawful cfg s i = true) (State.init mem registered) is →
      ((refuses cfg s w l t = true → Conflicts cfg s w l t) ↔
        (BusyLaneNumber s w l t → Conflicts cfg s w l t))) ∧
    ((refuses cfg s w l t = true → Conflicts cfg s w l t) ↔
      (HeldByLaneNumber s w l t → Conflicts cfg s w l t)) := by
  have hheld := refuses_iff_held cfg s w l t hg hs
  refine ⟨?_, by rw [hheld]⟩
  intro hl hfatal hlaw
  rw [hheld, held_iff_busy (admissionInv_of_run hl hfatal hlaw hrun) w l t]

def sharedLane : List (Label Unit) :=
  let l := bootConfig.laneFor ⟨1, 1⟩ TaskPrio.kLowLatency
  [.emplace (l 0) (pushOf 4 0 0), .emplace (l 16) (pushOf 5 16 0), .poll 0 (l 0),
    .scan 0 [], .finish 0 (pushOf 4 0 taskHasStarted)]

theorem refusal_sharedLane : ∃ s, run (step bootConfig) bootState sharedLane = some s ∧
    refuses bootConfig s 0 (bootConfig.laneFor ⟨1, 1⟩ TaskPrio.kLowLatency 16) (pushOf 5 16 0) = true ∧
    ¬Conflicts bootConfig s 0 (bootConfig.laneFor ⟨1, 1⟩ TaskPrio.kLowLatency 16) (pushOf 5 16 0) := by
  have hany : (run (step bootConfig) bootState sharedLane).any (fun s =>
      refuses bootConfig s 0 (bootConfig.laneFor ⟨1, 1⟩ TaskPrio.kLowLatency 16) (pushOf 5 16 0) &&
      (inProgress 0 s.log).all (fun a => a.bytes ≠
        (s.workers 0).groups.groupBytes (bootConfig.lib (pushOf 5 16 0).taskState) (pushOf 5 16 0))) = true := by
    decide +kernel
  obtain ⟨s, hs, hbad⟩ := (Option.any_eq_true _ _).mp hany
  simp only [Bool.and_eq_true, List.all_eq_true, decide_eq_true_eq] at hbad
  refine ⟨s, hs, hbad.1, ?_⟩
  rintro ⟨a, ha, -, hbytes, -⟩
  exact hbad.2 a ha hbytes

theorem refusal_sameHash : ∃ s, run (step bootConfig) bootState sharedLane = some s ∧
    (refuses bootConfig s 0 (bootConfig.laneFor ⟨1, 1⟩ TaskPrio.kLowLatency 0) (pushOf 5 0 0) = true →
      Conflicts bootConfig s 0 (bootConfig.laneFor ⟨1, 1⟩ TaskPrio.kLowLatency 0) (pushOf 5 0 0)) := by
  have hany : (run (step bootConfig) bootState sharedLane).any (fun s =>
      (inProgress 0 s.log).any (fun a => a.lane = bootConfig.laneFor ⟨1, 1⟩ TaskPrio.kLowLatency 0 ∧
        a.bytes = (s.workers 0).groups.groupBytes (bootConfig.lib (pushOf 5 0 0).taskState) (pushOf 5 0 0) ∧
        a.root ≠ (pushOf 5 0 0).taskNode.root)) = true := by
    decide +kernel
  have hlaw : Along (step bootConfig) (fun s i _ => lawful bootConfig s i = true) bootState sharedLane := by
    decide +kernel
  obtain ⟨s, hs, hgood⟩ := (Option.any_eq_true _ _).mp hany
  obtain ⟨a, ha, hconf⟩ := List.any_eq_true.mp hgood
  have hconf := of_decide_eq_true hconf
  refine ⟨s, hs, ?_⟩
  exact ((refusal_justified_iff bootConfig _ _ sharedLane s hs 0 _ _ (by decide +kernel)
    (by decide +kernel)).1 bootConfig_ignoresFlags rfl hlaw).mpr (fun _ => ⟨a, ha, hconf⟩)

end HermesRun.Poll
