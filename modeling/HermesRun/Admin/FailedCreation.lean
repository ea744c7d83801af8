import HermesRun.Admin.OwnQueues

namespace HermesRun.Admin

open QueueManager Runs

variable {cfg : Config} {s s' : State} {p q : ℕ} {k : NodeId} {t : CreateTaskStateTask} {n : Node}

structure NodeSane (n : Node) : Prop where
  nodeId : n.registry.nodeId ≠ 0
  ids : ∀ name id, n.registry.taskStateIds name = some id → id.isNull = false
  states : ∀ id state, n.registry.taskStates id = some state → state.id.isNull = false

structure Sane (cfg : Config) (s : State) : Prop where
  nodes : ∀ k, cfg.isHost k → NodeSane (s.nodes k)
  fresh : ∀ p, s.next ≤ p → s.tasks p = none

structure LeavesNothing (cfg : Config) (s s' : State) (id : TaskStateId) : Prop where
  reported : id.isNull = true
  ids : ∀ k, cfg.isHost k → (s'.nodes k).registry.taskStateIds = (s.nodes k).registry.taskStateIds
  states : ∀ k, cfg.isHost k → (s'.nodes k).registry.taskStates = (s.nodes k).registry.taskStates
  queues : ∀ k, cfg.isHost k → (s'.nodes k).queueMap = (s.nodes k).queueMap

def Label.request : Label → Option ℕ
  | .poll p | .getOrCreateTaskStateId p | .resume p | .rpcExec p | .output p | .finishPush p => some p
  | _ => none

def Label.Own (p : ℕ) (l : Label) : Prop := ∃ q, p ≤ q ∧ l.request = some q

/-- No handler runs for the request. -/
def NoTarget (cfg : Config) (k : NodeId) (t : CreateTaskStateTask) : Prop :=
  t.domainId.isRemote cfg.numHosts k = true ∧ targets cfg t = []

namespace NodeSane

theorem createTaskStateEnd (h : NodeSane n) (t : CreateTaskStateTask) : NodeSane (n.createTaskStateEnd t) := by
  rcases n.createTaskStateEnd_registry t with heq | heq
  · constructor <;> rw [heq]
    · exact h.nodeId
    · exact h.ids
    · exact h.states
  by_cases hnew : n.registry.Instantiates t.libName t.id
  · rw [TaskRegistry.createTaskState_new hnew] at heq
    constructor <;> rw [heq]
    · exact h.nodeId
    · intro name id hid
      rcases TaskRegistry.of_emplaceId hid with hold | ⟨-, rfl, -⟩
      · exact h.ids name id hold
      · exact hnew.1
    · intro id state hs
      dsimp only at hs
      by_cases hid : id = t.id
      · rw [hid, Function.update_self, Option.some.injEq] at hs
        rw [← hs]
        exact hnew.1
      · rw [Function.update_of_ne hid] at hs
        exact h.states id state hs
  · rw [TaskRegistry.createTaskState_old hnew] at heq
    constructor <;> rw [heq]
    · exact h.nodeId
    · exact h.ids
    · exact h.states

theorem getOrCreateTaskStateId (h : NodeSane n) (name : String) :
    (n.getOrCreateTaskStateId name).1.isNull = false ∧ NodeSane (n.getOrCreateTaskStateId name).2 := by
  have hnew : (⟨n.registry.nodeId, n.unique⟩ : TaskStateId).isNull = false := by
    simpa [UniqueId.isNull] using h.nodeId
  cases hid : n.registry.taskStateIds name with
  | none =>
    rw [Node.getOrCreateTaskStateId_new hid]
    refine ⟨hnew, h.nodeId, ?_, h.states⟩
    intro name' id' hid'
    rcases TaskRegistry.of_emplaceId hid' with hold | ⟨-, rfl, -⟩
    · exact h.ids name' id' hold
    · exact hnew
  | some id =>
    rw [Node.getOrCreateTaskStateId_old hid]
    exact ⟨h.ids name id hid, h⟩

theorem getTaskState (h : NodeSane n) {name : String} {id : TaskStateId} {state : TaskState}
    (hs : n.registry.getTaskState name id = some state) : state.id.isNull = false := h.states _ state hs

theorem of_registry {n' : Node} (h : NodeSane n) (hr : n'.registry = n.registry) : NodeSane n' := by
  constructor <;> rw [hr]
  · exact h.nodeId
  · exact h.ids
  · exact h.states

end NodeSane

theorem nodeSane_update {f : NodeId → Node} (h : ∀ j, cfg.isHost j → NodeSane (f j)) (hn : NodeSane n) :
    ∀ j, cfg.isHost j → NodeSane (Function.update f k n j) := by
  intro j hj
  by_cases hjk : j = k
  · rw [hjk, Function.update_self]
    exact hn
  · rw [Function.update_of_ne hjk]
    exact h j hj

theorem step_nodeSane {l : Label} (h : ∀ j, cfg.isHost j → NodeSane (s.nodes j))
    (hstep : step cfg s l = some s') : ∀ j, cfg.isHost j → NodeSane (s'.nodes j) := by
  have hcase := step_cases hstep
  cases hcase with
  | makeTaskNodeId j hj => exact nodeSane_update h ((h j hj.host).of_registry rfl)
  | makeTaskStateId j hj => exact nodeSane_update h ((h j hj.host).of_registry rfl)
  | registerTaskLib j libName hj =>
    obtain ⟨hid, hids, hstates⟩ := h j hj.host
    exact nodeSane_update h ⟨hid, hids, hstates⟩
  | destroyTaskLib j libName hj =>
    obtain ⟨hid, hids, hstates⟩ := h j hj.host
    exact nodeSane_update h ⟨hid, hids, hstates⟩
  | submit j x hj => exact nodeSane_update h ((h j hj.host).of_registry rfl)
  | disperse q j x hx hj hr => exact nodeSane_update h ((h j hj.host).of_registry rfl)
  | found q j x state hx hj hr hstate => exact h
  | ask q j x hx hj hr hstate hid =>
    apply nodeSane_update h
    apply (h j hj.host).of_registry
    rw [Node.askId_registry, Node.getQueue_registry]
  | create q j x hx hj hr hstate hid =>
    rw [s.create_nodes]
    exact nodeSane_update h ((h j hj.host).createTaskStateEnd x)
  | getOrCreate q j d x hx hd hj =>
    apply nodeSane_update h
    apply ((h d hj.host).getOrCreateTaskStateId x.stateName).2.of_registry
    dsimp only
    split_ifs <;> rfl
  | resume q j x id hx hj =>
    rw [s.create_nodes]
    exact nodeSane_update h ((h j hj.host).createTaskStateEnd _)
  | rpcExec q j x saved d todo hx hj => exact nodeSane_update h ((h d hj.host).of_registry rfl)
  | output q j x saved d todo c i u hx hc hj => exact h
  | finishPush q j x saved hx hj => exact h
  | getQueue j i q x hx hj => exact nodeSane_update h ((h j hj.host).of_registry rfl)

section Own

variable (p : ℕ) (k : NodeId) (t : CreateTaskStateTask)

def OwnOk (q : ℕ) (x : Request) : Prop :=
  match x.phase with
  | .queued => (q = p → x.node = k ∧ x.task = t) ∧ (q ≠ p → x.task.domainId = DomainId.getNode x.node)
  | .waiting => True
  | .answered id => id.isNull = false
  | .push _ todo copy => (todo = [] → x.task.id.isNull = false) ∧ ∀ c, copy = some c → p ≤ c
  | .complete => x.task.id.isNull = false

structure OwnInv (s : State) : Prop where
  first : p < s.next
  own : ∀ q x, p ≤ q → s.tasks q = some x → OwnOk p k t q x

end Own

namespace OwnInv

theorem setNode (h : OwnInv p k t s) (j : NodeId) (n : Node) : OwnInv p k t (s.setNode j n) := ⟨h.first, h.own⟩

theorem setTask (h : OwnInv p k t s) {x : Request} (hx : OwnOk p k t q x) : OwnInv p k t (s.setTask q x) := by
  refine ⟨h.first, ?_⟩
  intro q' y hq' hy
  change Function.update s.tasks q (some x) q' = some y at hy
  by_cases heq : q' = q
  · subst heq
    rw [Function.update_self, Option.some.injEq] at hy
    subst hy
    exact hx
  · rw [Function.update_of_ne heq] at hy
    exact h.own q' y hq' hy

theorem newTask (h : OwnInv p k t s) {x : Request} (hx : OwnOk p k t s.next x) : OwnInv p k t (s.newTask x) :=
  ⟨Nat.lt_succ_of_lt h.first, (h.setTask hx).own⟩

theorem create (h : OwnInv p k t s) (j : NodeId) {x : CreateTaskStateTask} (hx : x.id.isNull = false) :
    OwnInv p k t (s.create q j x) := by
  unfold State.create
  dsimp only
  split_ifs
  · exact h.setNode _ _
  · exact (h.setNode _ _).setTask hx

theorem step_own (hsome : t.id.isNull = false ∨ ¬NoTarget cfg k t) {l : Label}
    (hs : ∀ j, cfg.isHost j → NodeSane (s.nodes j)) (h : OwnInv p k t s) (hl : l.Own p)
    (hstep : step cfg s l = some s') : OwnInv p k t s' := by
  obtain ⟨q, hpq, hq⟩ := hl
  have hcase := step_cases hstep
  cases hcase with
  | makeTaskNodeId | makeTaskStateId | registerTaskLib | destroyTaskLib | submit | getQueue => cases hq
  | disperse q' j x hx hj hr =>
    cases hq
    obtain ⟨hfirst, hcopy⟩ := h.own _ _ hpq hx
    apply (h.setNode _ _).setTask
    refine ⟨?_, by simp⟩
    intro hnil
    by_cases hqp : q = p
    · obtain ⟨hk, hxt⟩ := hfirst hqp
      dsimp only at hk hxt
      subst hk hxt
      rcases hsome with hid | htarget
      · exact hid
      · exact absurd ⟨hr, hnil⟩ htarget
    · -- a copy is polled on the node that it was sent to
      have hlocal := hcopy hqp
      dsimp only at hlocal
      rw [hlocal, DomainId.isRemote_getNode] at hr
      exact absurd rfl hr.2
  | found q' j x state hx hj hr hstate => exact h.setTask ((hs j hj.host).getTaskState hstate)
  | ask q' j x hx hj hr hstate hid => exact (h.setNode _ _).setTask trivial
  | create q' j x hx hj hr hstate hid => exact h.create j hid
  | getOrCreate q' j d x hx hd hj =>
    exact (h.setNode _ _).setTask ((hs d hj.host).getOrCreateTaskStateId x.stateName).1
  | resume q' j x id hx hj =>
    cases hq
    exact h.create j (h.own _ _ hpq hx)
  | rpcExec q' j x saved d todo hx hj =>
    cases hq
    obtain ⟨hdone, -⟩ := h.own _ _ hpq hx
    apply OwnInv.newTask
    · apply (h.setNode _ _).setTask
      refine ⟨hdone, ?_⟩
      intro c hc
      cases hc
      exact Nat.le_of_lt h.first
    · refine ⟨fun heq => ?_, fun _ => rfl⟩
      exact absurd heq (Nat.ne_of_gt h.first)
  | output q' j x saved d todo c i u hx hc hj =>
    cases hq
    obtain ⟨-, hcopy⟩ := h.own _ _ hpq hx
    apply h.setTask
    exact ⟨fun _ => h.own c _ (hcopy c rfl) hc, by simp⟩
  | finishPush q' j x saved hx hj =>
    cases hq
    exact h.setTask ((h.own _ _ hpq hx).1 rfl)

end OwnInv

section Untouched

variable (s₀ : State) (k : NodeId) (t : CreateTaskStateTask)

structure Untouched (s : State) : Prop where
  registry : ∀ j, (s.nodes j).registry = (s₀.nodes j).registry
  queues : ∀ j, (s.nodes j).queueMap = (s₀.nodes j).queueMap
  request : ∃ phase, s.tasks s₀.next = some ⟨k, t, phase⟩ ∧
    (phase = .queued ∨ phase = .push t [] none ∨ phase = .complete)
  alone : ∀ q, s₀.next < q → s.tasks q = none

end Untouched

namespace Untouched

variable {s₀ : State}

theorem setNode (h : Untouched s₀ k t s) {j : NodeId} (hr : n.registry = (s.nodes j).registry)
    (hm : n.queueMap = (s.nodes j).queueMap) : Untouched s₀ k t (s.setNode j n) := by
  refine ⟨?_, ?_, h.request, h.alone⟩ <;> intro i <;> dsimp only [State.setNode] <;> by_cases hij : i = j
  · rw [hij, Function.update_self, hr, h.registry]
  · rw [Function.update_of_ne hij, h.registry]
  · rw [hij, Function.update_self, hm, h.queues]
  · rw [Function.update_of_ne hij, h.queues]

theorem setTask (h : Untouched s₀ k t s) {phase : Phase}
    (hphase : phase = .queued ∨ phase = .push t [] none ∨ phase = .complete) :
    Untouched s₀ k t (s.setTask s₀.next ⟨k, t, phase⟩) := by
  refine ⟨h.registry, h.queues, ⟨phase, Function.update_self .., hphase⟩, ?_⟩
  intro q hq
  show Function.update s.tasks s₀.next _ q = none
  rw [Function.update_of_ne (Nat.ne_of_gt hq)]
  exact h.alone q hq

theorem step_untouched (hnone : NoTarget cfg k t) {l : Label} (h : Untouched s₀ k t s) (hl : l.Own s₀.next)
    (hstep : step cfg s l = some s') : Untouched s₀ k t s' := by
  obtain ⟨q, hpq, hq⟩ := hl
  obtain ⟨phase, hrequest, hphase⟩ := h.request
  have honly : ∀ x, s.tasks q = some x → q = s₀.next ∧ x = ⟨k, t, phase⟩ := by
    intro x hx
    rcases hpq.eq_or_lt with heq | hlt
    · rw [← heq, hrequest, Option.some.injEq] at hx
      exact ⟨heq.symm, hx.symm⟩
    · rw [h.alone q hlt] at hx
      cases hx
  have hcase := step_cases hstep
  cases hcase with
  | makeTaskNodeId | makeTaskStateId | registerTaskLib | destroyTaskLib | submit | getQueue => cases hq
  | disperse q' j x hx hj hr =>
    cases hq
    obtain ⟨rfl, heq⟩ := honly _ hx
    cases heq
    rw [hnone.2]
    have hnode : Untouched s₀ k t (s.setNode k ((s.nodes k).getQueue (s.nodes k).remoteQueue)) :=
      h.setNode rfl rfl
    exact hnode.setTask (Or.inr (Or.inl rfl))
  | found q' j x state hx hj hr =>
    cases hq
    obtain ⟨-, heq⟩ := honly _ hx
    cases heq
    rw [hnone.1] at hr
    cases hr
  | ask q' j x hx hj hr =>
    cases hq
    obtain ⟨-, heq⟩ := honly _ hx
    cases heq
    rw [hnone.1] at hr
    cases hr
  | create q' j x hx hj hr =>
    cases hq
    obtain ⟨-, heq⟩ := honly _ hx
    cases heq
    rw [hnone.1] at hr
    cases hr
  | getOrCreate q' j d x hx =>
    cases hq
    obtain ⟨-, heq⟩ := honly _ hx
    cases heq
    simp at hphase
  | resume q' j x id hx =>
    cases hq
    obtain ⟨-, heq⟩ := honly _ hx
    cases heq
    simp at hphase
  | rpcExec q' j x saved d todo hx =>
    cases hq
    obtain ⟨-, heq⟩ := honly _ hx
    cases heq
    simp at hphase
  | output q' j x saved d todo c i u hx =>
    cases hq
    obtain ⟨-, heq⟩ := honly _ hx
    cases heq
    simp at hphase
  | finishPush q' j x saved hx hj =>
    cases hq
    obtain ⟨rfl, heq⟩ := honly _ hx
    cases heq
    exact h.setTask (by simp)

end Untouched

def State.submitted (s : State) (k : NodeId) (t : CreateTaskStateTask) : State :=
  (s.setNode k ((s.nodes k).getQueue adminQueue)).newTask ⟨k, t, .queued⟩

theorem Sane.submitted_tasks (hs : Sane cfg s) {x : Request} (hq : s.next ≤ q)
    (hx : (s.submitted k t).tasks q = some x) : q = s.next ∧ x = ⟨k, t, .queued⟩ := by
  change Function.update s.tasks s.next (some ⟨k, t, .queued⟩) q = some x at hx
  by_cases heq : q = s.next
  · rw [heq, Function.update_self, Option.some.injEq] at hx
    exact ⟨heq, hx.symm⟩
  · rw [Function.update_of_ne heq, hs.fresh q hq] at hx
    cases hx

theorem Sane.ownInv (hs : Sane cfg s) : OwnInv s.next k t (s.submitted k t) := by
  refine ⟨Nat.lt_succ_self _, ?_⟩
  intro q x hq hx
  obtain ⟨rfl, rfl⟩ := hs.submitted_tasks hq hx
  exact ⟨fun _ => ⟨rfl, rfl⟩, fun hne => absurd rfl hne⟩

theorem Sane.untouched (hs : Sane cfg s) : Untouched s k t (s.submitted k t) := by
  refine ⟨?_, ?_, ⟨.queued, Function.update_self .., Or.inl rfl⟩, ?_⟩
  · intro j
    show (Function.update s.nodes k ((s.nodes k).getQueue adminQueue) j).registry = _
    by_cases hjk : j = k
    · rw [hjk, Function.update_self, Node.getQueue_registry]
    · rw [Function.update_of_ne hjk]
  · intro j
    show (Function.update s.nodes k ((s.nodes k).getQueue adminQueue) j).queueMap = _
    by_cases hjk : j = k
    · rw [hjk, Function.update_self]
      rfl
    · rw [Function.update_of_ne hjk]
  · intro q hq
    by_contra hsome
    obtain ⟨x, hx⟩ := Option.ne_none_iff_exists'.mp hsome
    exact absurd (hs.submitted_tasks hq.le hx).1 (Nat.ne_of_gt hq)

theorem returned_eq_some {j : NodeId} {x : CreateTaskStateTask} {phase : Phase} {id : TaskStateId}
    (h : Request.returned ⟨j, x, phase⟩ = some id) : phase = .complete ∧ x.id = id := by
  cases phase with
  | complete => exact ⟨rfl, Option.some.inj h⟩
  | _ => cases h

theorem leavesNothing_iff (cfg : Config) (s : State) (hs : Sane cfg s) (k : NodeId) (t : CreateTaskStateTask)
    (labels : List Label) (hown : ∀ l ∈ labels, l.Own s.next) (s' : State) (id : TaskStateId)
    (hrun : run (step cfg) s (.submit k t :: labels) = some s')
    (hdone : (s'.tasks s.next).bind Request.returned = some id)
    (hfail : ∀ j, cfg.isHost j → (s'.nodes j).registry.taskStates id = none) :
    LeavesNothing cfg s s' id ↔ t.id.isNull = true ∧ NoTarget cfg k t := by
  obtain ⟨s₁, hsubmit, hrun⟩ := run_cons.mp hrun
  obtain ⟨u, hu, rfl⟩ := Option.map_eq_some_iff.mp hsubmit
  obtain ⟨hk, rfl⟩ := onNode_eq_some hu
  have halong : Along (step cfg) (fun _ l _ => l.Own s.next) (s.submitted k t) labels := along_of_forall _ hown
  obtain ⟨⟨k', t', phase⟩, htask, hreturned⟩ := Option.bind_eq_some_iff.mp hdone
  obtain ⟨rfl, rfl⟩ := returned_eq_some hreturned
  constructor
  · intro hleaves
    by_contra hsome
    rw [not_and_or, Bool.not_eq_true] at hsome
    -- every id that the request can get is not null, so its answer would not report the failure
    have hend := run_invariant (I := fun u => (∀ j, cfg.isHost j → NodeSane (u.nodes j)) ∧ OwnInv s.next k t u)
      (fun _ _ _ h hstep hl => ⟨step_nodeSane h.1 hstep, h.2.step_own hsome h.1 hl hstep⟩)
      ⟨step_nodeSane hs.nodes hsubmit, hs.ownInv⟩ halong hrun
    have hid : t'.id.isNull = false := hend.2.own s.next _ (le_refl _) htask
    rw [hleaves.reported] at hid
    cases hid
  · rintro ⟨hnull, hnone⟩
    have hend := run_invariant (fun s l s' h hstep hl => h.step_untouched hnone hl hstep) hs.untouched halong hrun
    obtain ⟨phase, hrequest, -⟩ := hend.request
    rw [htask] at hrequest
    cases hrequest
    exact ⟨hnull, fun j _ => by rw [hend.registry], fun j _ => by rw [hend.registry], fun j _ => hend.queues j⟩

theorem sane_boot (cfg : Config) : Sane cfg (boot cfg) := by
  refine ⟨?_, fun _ _ => rfl⟩
  intro k hk
  have hreg := RegistryInv.serverInit (M := fun _ => none) cfg k
  refine ⟨?_, fun name id hid => (hreg.ids name id hid).1, ?_⟩
  · show (Node.serverInit cfg k).registry.nodeId ≠ 0
    rw [Node.serverInit_nodeId]
    exact Nat.one_le_iff_ne_zero.mp hk.1
  · intro id state hs
    obtain ⟨heq, hnull⟩ := hreg.states id state hs
    rwa [heq]

theorem setTask_fresh (h : ∀ p, s.next ≤ p → s.tasks p = none) {x y : Request} (hy : s.tasks q = some y) :
    ∀ p, s.next ≤ p → Function.update s.tasks q (some x) p = none := by
  intro p hp
  rw [Function.update_of_ne]
  · exact h p hp
  · rintro rfl
    rw [h p hp] at hy
    cases hy

theorem newTask_fresh (h : ∀ p, s.next ≤ p → s.tasks p = none) {x : Request} :
    ∀ p, s.next + 1 ≤ p → Function.update s.tasks s.next (some x) p = none := by
  intro p hp
  rw [Function.update_of_ne (by omega)]
  exact h p (by omega)

theorem create_fresh (h : ∀ p, s.next ≤ p → s.tasks p = none) {y : Request} (hy : s.tasks q = some y)
    (j : NodeId) (x : CreateTaskStateTask) : ∀ p, (s.create q j x).next ≤ p → (s.create q j x).tasks p = none := by
  unfold State.create
  dsimp only
  split_ifs
  · exact h
  · exact setTask_fresh h hy

theorem step_fresh {l : Label} (h : ∀ p, s.next ≤ p → s.tasks p = none) (hstep : step cfg s l = some s') :
    ∀ p, s'.next ≤ p → s'.tasks p = none := by
  have hcase := step_cases hstep
  cases hcase with
  | makeTaskNodeId | makeTaskStateId | registerTaskLib | destroyTaskLib | getQueue => exact h
  | submit j x hj => exact newTask_fresh h
  | disperse q j x hx hj hr => exact setTask_fresh h hx
  | found q j x state hx hj hr hstate => exact setTask_fresh h hx
  | ask q j x hx hj hr hstate hid => exact setTask_fresh h hx
  | create q j x hx hj hr hstate hid => exact create_fresh h hx j x
  | getOrCreate q j d x hx hd hj => exact setTask_fresh h hx
  | resume q j x id hx hj => exact create_fresh h hx j _
  | rpcExec q j x saved d todo hx hj => exact newTask_fresh (setTask_fresh h hx)
  | output q j x saved d todo c i u hx hc hj => exact setTask_fresh h hx
  | finishPush q j x saved hx hj => exact setTask_fresh h hx

theorem sane_of_run {labels : List Label} (hrun : run (step cfg) (boot cfg) labels = some s) : Sane cfg s :=
  run_invariant_all (fun _ _ _ h hstep => ⟨step_nodeSane h.nodes hstep, step_fresh h.fresh hstep⟩)
    (sane_boot cfg) hrun

def setRequest : CreateTaskStateTask :=
  ⟨DomainId.getSet 1, "small_message", "ipc_test", UniqueId.getNull, [⟨1, 1, 256, 0⟩]⟩

theorem leavesNothing_setRequest : ∃ s, run (step pairConfig) (boot pairConfig)
    [.submit 1 setRequest, .poll 0, .finishPush 0] = some s ∧
    (s.tasks 0).bind Request.returned = some UniqueId.getNull ∧
    LeavesNothing pairConfig (boot pairConfig) s UniqueId.getNull := by
  have hsome : (run (step pairConfig) (boot pairConfig) [.submit 1 setRequest, .poll 0, .finishPush 0]).any
      (fun s => (s.tasks 0).bind Request.returned = some UniqueId.getNull ∧
        ∀ j < 3, (s.nodes j).registry.taskStates UniqueId.getNull = none) = true := by decide +kernel
  obtain ⟨s, hs, hok⟩ := (Option.any_eq_true _ _).mp hsome
  obtain ⟨hdone, hfail⟩ := of_decide_eq_true hok
  refine ⟨s, hs, hdone, ?_⟩
  apply (leavesNothing_iff pairConfig (boot pairConfig) (sane_boot pairConfig) 1 setRequest
    [.poll 0, .finishPush 0] _ s UniqueId.getNull hs hdone _).mpr
  · exact ⟨rfl, by decide, by decide⟩
  · intro l hl
    rw [List.mem_pair] at hl
    rcases hl with rfl | rfl
    · exact ⟨0, le_refl _, rfl⟩
    · exact ⟨0, le_refl _, rfl⟩
  · intro j hj
    exact hfail j (Nat.lt_succ_of_le hj.2)

theorem leavesNothing_missingLib : ∃ s, run (step pairConfig) (boot pairConfig)
    [.submit 1 { setRequest with domainId := DomainId.getLocal }, .poll 0, .getOrCreateTaskStateId 0, .resume 0] =
      some s ∧
    (s.tasks 0).bind Request.returned = some ⟨1, 8⟩ ∧
    (∀ j < 3, (s.nodes j).registry.taskStates ⟨1, 8⟩ = none) ∧
    (s.nodes 1).registry.taskStateIds "ipc_test" = some ⟨1, 8⟩ ∧
    (QueueManager.getQueue (s.nodes 1).queueMap ⟨1, 8⟩).map (·.id) = some ⟨1, 8⟩ ∧
    ¬LeavesNothing pairConfig (boot pairConfig) s ⟨1, 8⟩ := by
  have hsome : (run (step pairConfig) (boot pairConfig)
      [.submit 1 { setRequest with domainId := DomainId.getLocal }, .poll 0, .getOrCreateTaskStateId 0,
        .resume 0]).any (fun s => (s.tasks 0).bind Request.returned = some ⟨1, 8⟩ ∧
        (∀ j < 3, (s.nodes j).registry.taskStates ⟨1, 8⟩ = none) ∧
        (s.nodes 1).registry.taskStateIds "ipc_test" = some ⟨1, 8⟩ ∧
        (QueueManager.getQueue (s.nodes 1).queueMap ⟨1, 8⟩).map (·.id) = some ⟨1, 8⟩) = true := by decide +kernel
  obtain ⟨s, hs, hok⟩ := (Option.any_eq_true _ _).mp hsome
  obtain ⟨hdone, hstates, hids, hqueue⟩ := of_decide_eq_true hok
  refine ⟨s, hs, hdone, hstates, hids, hqueue, ?_⟩
  intro hleaves
  cases hleaves.reported

end HermesRun.Admin
