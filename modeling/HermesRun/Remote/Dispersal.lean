import HermesRun.Remote.Gather
import HermesRun.Remote.PushTasks

namespace HermesRun.RemoteQueue

open Poll

variable {α π ρ : Type}

namespace Phase

def isAway : Phase ρ → Bool
  | .sent | .waiting _ | .replied _ => true
  | _ => false

def hasCopy : Phase ρ → Bool
  | .waiting _ | .replied _ => true
  | _ => false

def isLate : Phase ρ → Bool
  | .replicated | .signalled | .finished => true
  | _ => false

def isOver : Phase ρ → Bool
  | .signalled | .finished => true
  | _ => false

end Phase

namespace State

variable (s : State α ρ)

def view (k : NodeId) : TasksView α := (s.nodes k).tasksView

end State

def EndedCopy (s : State α ρ) (k : NodeId) (p : TaskPtr) (j : ℕ) (a : α) : Prop :=
  ∃ d c, (s.history k p).copies[j]? = some (d, c) ∧ c < (s.view d).next ∧ (s.view d).ended c ∧
    (s.mem d c).body = .own a

def Gathered (cfg : Config α π ρ) (s : State α ρ) (k : NodeId) (p : TaskPtr) (outs : List α) (late : Bool) : Prop :=
  ∃ x a, s.xfer k p = some x ∧ x.body = .own a ∧
    let srl := cfg.srl x.taskState
    let n := (resolveDomainId cfg.numHosts x.domainId).length
    let b := gather srl x.method (((cfg.at k).lib x.taskState).replicateStart x.method n a) outs
    (s.mem k p).body = .own (if late then srl.replicateEnd x.method b else b)

structure PushOk (cfg : Config α π ρ) (s : State α ρ) (k : NodeId) (p : TaskPtr) (x : Push ρ) : Prop where
  task : x.task < (s.view k).next
  info : (s.mem k x.task).body.pushInfo = some x.info
  orig : x.info.origTask = p
  disabled : (s.mem k x.task).isRunDisabled = true
  bound : x.replica ≤ x.info.domainIds.length
  away : x.phase.isAway = true → x.replica < x.info.domainIds.length
  late : x.phase.isLate = true → x.replica = x.info.domainIds.length
  loaded : (s.history k p).loaded = x.replica
  ends : (s.history k p).replicateEnds = if x.phase.isLate then 1 else 0
  targets : (s.history k p).copies.map (·.1) =
    (x.info.domainIds.map (·.id)).take (x.replica + if x.phase.hasCopy then 1 else 0)
  waiting : ∀ c, x.phase = .waiting c → ∃ d, (s.history k p).copies[x.replica]? = some (d, c)
  replied : ∀ ret, x.phase = .replied ret → ∃ a, EndedCopy s k p x.replica a ∧
    ret = (cfg.srl x.info.exec.id).saveEnd x.info.execMethod a
  gathered : ∃ outs, outs.length = x.replica ∧ (∀ j a, outs[j]? = some a → EndedCopy s k p j a) ∧
    Gathered cfg s k p outs x.phase.isLate
  isOver : (s.mem k p).isModuleComplete = true → x.phase.isOver = true

structure Sent (cfg : Config α π ρ) (s : State α ρ) (k : NodeId) (p : TaskPtr) : Prop where
  once : (s.history k p).dispersed = 1
  known : p < (s.view k).next
  remote : isRemote (cfg.at k) (s.mem k p) = true
  dispersed : Dispersed (s.view k) p
  saved : ∃ x, s.xfer k p = some x ∧ Kept x (s.mem k p) ∧ x.method = (s.mem k p).method ∧ isOwn x = true ∧
    x.isRunDisabled = false ∧ x.isModuleComplete = false ∧ x.isComplete = false

structure TaskInv (cfg : Config α π ρ) (s : State α ρ) (k : NodeId) (p : TaskPtr) : Prop where
  ran : 0 < (s.history k p).ran → p < (s.view k).next ∧ isRemote (cfg.at k) (s.mem k p) = false
  sent : 0 < (s.history k p).dispersed → Sent cfg s k p
  idle : s.pushes k p = none → (s.history k p).copies = [] ∧ (s.history k p).loaded = 0 ∧
    (s.history k p).replicateEnds = 0 ∧
    (p < (s.view k).next → isRemote (cfg.at k) (s.mem k p) = true → (s.mem k p).isModuleComplete = false) ∧
    (0 < (s.history k p).dispersed → Gathered cfg s k p [] false)
  push : ∀ x, s.pushes k p = some x → PushOk cfg s k p x
  copies : ∀ d c, (d, c) ∈ (s.history k p).copies → c < (s.view d).next ∧
    isRemote (cfg.at d) (s.mem d c) = false ∧ isOwn (s.mem d c) = true
  nodup : (s.history k p).copies.Nodup

structure Inv (cfg : Config α π ρ) (s : State α ρ) : Prop where
  lanes : ∀ k, ScannedFifo.Inv (cfg.at k).owner (s.nodes k).lanesView
  node : ∀ k, NodeInv (cfg.at k) (s.view k)
  running : ∀ k w r, (s.view k).running w = some r → r.mode = .disperse → 0 < (s.history k r.task).dispersed
  made : ∀ k q i, q < (s.view k).next → (s.mem k q).body.pushInfo = some i →
    0 < (s.history k i.origTask).dispersed
  task : ∀ k p, TaskInv cfg s k p

section Frame

variable {cfg : Config α π ρ} {s t : State α ρ} {k : NodeId} {p : TaskPtr}

theorem EndedCopy.frame (hf : ∀ d, Frame (s.view d) (t.view d))
    (hc : ∃ l, (t.history k p).copies = (s.history k p).copies ++ l)
    {j : ℕ} {a : α} (h : EndedCopy s k p j a) : EndedCopy t k p j a := by
  obtain ⟨d, c, hcopy, hlt, hend, hbody⟩ := h
  obtain ⟨l, hl⟩ := hc
  have hown : isOwn ((s.view d).mem c) = true := by
    show isOwn (s.mem d c) = true
    simp [isOwn, hbody, Body.pushInfo]
  refine ⟨d, c, ?_, lt_of_lt_of_le hlt (hf d).next, (hf d).ended c hend, ?_⟩
  · obtain ⟨hj, -⟩ := List.getElem?_eq_some_iff.mp hcopy
    rw [hl, List.getElem?_append_left hj]
    exact hcopy
  · show ((t.view d).mem c).body = .own a
    rw [(hf d).stable c hlt hend hown]
    exact hbody

theorem Gathered.same {outs : List α} {late : Bool} (h : Gathered cfg s k p outs late)
    (hx : t.xfer k p = s.xfer k p) (hb : (t.mem k p).body = (s.mem k p).body) :
    Gathered cfg t k p outs late := by
  obtain ⟨x, a, hxf, hbody, heq⟩ := h
  exact ⟨x, a, hx.trans hxf, hbody, hb.trans heq⟩

structure Calm (cfg : Config α π ρ) (s t : State α ρ) (k : NodeId) (p : TaskPtr) : Prop where
  frame : ∀ d, Frame (s.view d) (t.view d)
  xfer : t.xfer k p = s.xfer k p
  pushes : t.pushes k p = s.pushes k p
  history : t.history k p = s.history k p
  same : p < (s.view k).next → isRemote (cfg.at k) (s.mem k p) = true → (t.mem k p).body = (s.mem k p).body ∧
    (t.mem k p).method = (s.mem k p).method ∧ (t.mem k p).isModuleComplete = (s.mem k p).isModuleComplete
  dispersed : p < (s.view k).next → Dispersed (s.view k) p → Dispersed (t.view k) p
  fresh : (s.view k).next ≤ p → p < (t.view k).next → (t.mem k p).isModuleComplete = false

theorem Calm.sent (hc : Calm cfg s t k p) (h : Sent cfg s k p) : Sent cfg t k p := by
  have hk := (hc.frame k).kept p h.known
  refine ⟨by rw [hc.history]; exact h.once, lt_of_lt_of_le h.known (hc.frame k).next,
    (hk.isRemote _).trans h.remote, hc.dispersed h.known h.dispersed, ?_⟩
  obtain ⟨x, hx, hkx, hm, hrest⟩ := h.saved
  exact ⟨x, hc.xfer.trans hx, hkx.trans hk, hm.trans (hc.same h.known h.remote).2.1.symm, hrest⟩

theorem PushOk.remote (hn : NodeInv (cfg.at k) (s.view k)) {x : Push ρ} (h : PushOk cfg s k p x) :
    PushFor (cfg.at k) (s.view k).mem (s.mem k x.task) x.info ∧ p < (s.view k).next ∧
      isRemote (cfg.at k) (s.mem k p) = true := by
  obtain ⟨hfor, hlt, -⟩ := hn.pushes x.task x.info h.task h.info
  rw [h.orig] at hlt
  have hr := hfor.remote
  rw [h.orig] at hr
  exact ⟨hfor, hlt, hr⟩

theorem Calm.push (hc : Calm cfg s t k p) (hn : NodeInv (cfg.at k) (s.view k)) {x : Push ρ}
    (h : PushOk cfg s k p x) : PushOk cfg t k p x := by
  obtain ⟨-, hlt, hr⟩ := h.remote hn
  obtain ⟨hbody, -, hmod⟩ := hc.same hlt hr
  have hk := (hc.frame k).kept x.task h.task
  have hcopies : ∃ l, (t.history k p).copies = (s.history k p).copies ++ l := ⟨[], by rw [hc.history]; simp⟩
  have hhist := hc.history
  refine ⟨lt_of_lt_of_le h.task (hc.frame k).next, hk.pushInfo.trans h.info, h.orig, hk.runDisabled h.disabled,
    h.bound, h.away, h.late, hhist ▸ h.loaded, hhist ▸ h.ends, hhist ▸ h.targets, hhist ▸ h.waiting, ?_, ?_, ?_⟩
  · intro ret hret
    obtain ⟨a, ha, hsave⟩ := h.replied ret hret
    exact ⟨a, ha.frame hc.frame hcopies, hsave⟩
  · obtain ⟨outs, hlen, houts, hg⟩ := h.gathered
    exact ⟨outs, hlen, fun j a hj => (houts j a hj).frame hc.frame hcopies, hg.same hc.xfer hbody⟩
  · intro hm
    exact h.isOver (hmod ▸ hm)

theorem copies_frame (hf : ∀ d, Frame (s.view d) (t.view d)) {d : NodeId} {c : TaskPtr}
    (h : c < (s.view d).next ∧ isRemote (cfg.at d) (s.mem d c) = false ∧ isOwn (s.mem d c) = true) :
    c < (t.view d).next ∧ isRemote (cfg.at d) (t.mem d c) = false ∧ isOwn (t.mem d c) = true := by
  obtain ⟨hlt, hr, ho⟩ := h
  have hk := (hf d).kept c hlt
  exact ⟨lt_of_lt_of_le hlt (hf d).next, (hk.isRemote _).trans hr, hk.isOwn.trans ho⟩

theorem Calm.task (hc : Calm cfg s t k p) (hn : NodeInv (cfg.at k) (s.view k)) (h : TaskInv cfg s k p) :
    TaskInv cfg t k p := by
  refine ⟨?_, ?_, ?_, ?_, ?_, ?_⟩
  · rw [hc.history]
    intro hran
    obtain ⟨hlt, hr⟩ := h.ran hran
    exact ⟨lt_of_lt_of_le hlt (hc.frame k).next, (((hc.frame k).kept p hlt).isRemote _).trans hr⟩
  · rw [hc.history]
    intro hd
    exact hc.sent (h.sent hd)
  · rw [hc.pushes, hc.history]
    intro hnone
    obtain ⟨hcopies, hloaded, hends, hmod, hg⟩ := h.idle hnone
    refine ⟨hcopies, hloaded, hends, ?_, ?_⟩
    · intro hlt hr
      by_cases hold : p < (s.view k).next
      · have hr' := (((hc.frame k).kept p hold).isRemote (cfg.at k)).symm.trans hr
        rw [(hc.same hold hr').2.2]
        exact hmod hold hr'
      · exact hc.fresh (Nat.le_of_not_lt hold) hlt
    · intro hd
      have hs := h.sent hd
      exact (hg hd).same hc.xfer (hc.same hs.known hs.remote).1
  · rw [hc.pushes]
    intro x hx
    exact hc.push hn (h.push x hx)
  · rw [hc.history]
    intro d c hmem
    exact copies_frame hc.frame (h.copies d c hmem)
  · rw [hc.history]
    exact h.nodup

end Frame

section Access

variable {s : State α ρ} {k d : NodeId} {p q : TaskPtr}

theorem update₂_self {β : Type} (f : NodeId → TaskPtr → β) (k : NodeId) (p : TaskPtr) (x : β) :
    update₂ f k p x k p = x := by
  simp [update₂]

theorem update₂_eq_self {β : Type} (f : NodeId → TaskPtr → β) (k : NodeId) (p : TaskPtr) :
    update₂ f k p (f k p) = f := by
  simp [update₂]

theorem update₂_of_ne {β : Type} (f : NodeId → TaskPtr → β) (x : β) (h : ¬(d = k ∧ q = p)) :
    update₂ f k p x d q = f d q := by
  unfold update₂
  by_cases hd : d = k
  · subst hd
    have hq : q ≠ p := fun hq => h ⟨rfl, hq⟩
    simp [hq]
  · simp [hd]

theorem nodes_setNode_self (u : Poll.State α) : (s.setNode k u).nodes k = u := by simp [State.setNode]

theorem nodes_setNode_of_ne (u : Poll.State α) (h : d ≠ k) : (s.setNode k u).nodes d = s.nodes d := by
  simp [State.setNode, h]

theorem view_setNode_self (u : Poll.State α) : (s.setNode k u).view k = u.tasksView := by
  rw [State.view, nodes_setNode_self]

theorem view_setNode_of_ne (u : Poll.State α) (h : d ≠ k) : (s.setNode k u).view d = s.view d := by
  rw [State.view, nodes_setNode_of_ne u h, State.view]

theorem view_halt (s : State α ρ) (k d : NodeId) : (s.halt k).view d = s.view d := by
  by_cases h : d = k
  · subst h
    rw [State.halt, view_setNode_self]
    rfl
  · rw [State.halt, view_setNode_of_ne _ h]

end Access

section Parts

variable {cfg : Config α π ρ} {s t : State α ρ}

theorem isRemote_local_of_push {v : TasksView α} {cfg : Poll.Config α} (h : NodeInv cfg v) {p : TaskPtr}
    (hp : p < v.next) (hr : isRemote cfg (v.mem p) = true) : isOwn (v.mem p) = true := by
  cases hi : (v.mem p).body.pushInfo with
  | none => simp [isOwn, hi]
  | some i =>
    have hn := (h.pushes p i hp hi).1.notRemote
    rw [hr] at hn
    cases hn

theorem calm_of_view {k : NodeId} {p : TaskPtr} (hv : ∀ d, t.view d = s.view d) (hx : t.xfer k p = s.xfer k p)
    (hp : t.pushes k p = s.pushes k p) (hh : t.history k p = s.history k p) : Calm cfg s t k p := by
  have hmem : t.mem k p = s.mem k p := by
    show (t.view k).mem p = (s.view k).mem p
    rw [hv]
  refine ⟨?_, hx, hp, hh, ?_, ?_, ?_⟩
  · intro d
    rw [hv]
    exact Frame.refl _
  · intro _ _
    rw [hmem]
    exact ⟨rfl, rfl, rfl⟩
  · rw [hv]
    exact fun _ => id
  · intro hle hlt
    rw [hv] at hlt
    exact absurd hlt (Nat.not_lt.mpr hle)

theorem calm_of_step {k₀ k : NodeId} {p : TaskPtr} {l : Poll.Label α} (h : Inv cfg s)
    (hx : Exclusive (s.view k₀)) (hother : ∀ d, d ≠ k₀ → t.view d = s.view d)
    (hst : TaskStep (cfg.at k₀) (s.view k₀) l (t.view k₀)) (ha : allowed (s.view k₀) l = true)
    (hb : k = k₀ → ¬Begins (s.view k₀) (t.view k₀) p) (hxf : t.xfer k p = s.xfer k p)
    (hp : t.pushes k p = s.pushes k p) (hh : t.history k p = s.history k p) : Calm cfg s t k p := by
  have hframe : ∀ d, Frame (s.view d) (t.view d) := by
    intro d
    by_cases hd : d = k₀
    · subst hd
      exact step_frame hx hst ha
    · rw [hother d hd]
      exact Frame.refl _
  by_cases hk : k = k₀
  · subst hk
    refine ⟨hframe, hxf, hp, hh, ?_, ?_, ?_⟩
    · intro hlt hr
      exact step_remote (h.node k) hst ha hlt hr (hb rfl)
    · intro hlt hd
      exact step_dispersed hx hst ha hlt hd
    · intro hle hlt
      have hnew := step_fresh (h.node k) hst ha hle hlt
      simp only [isNew, Bool.and_eq_true, Bool.not_eq_true'] at hnew
      exact hnew.1.2
  · have hv := hother k hk
    have hmem : t.mem k p = s.mem k p := by
      show (t.view k).mem p = (s.view k).mem p
      rw [hv]
    refine ⟨hframe, hxf, hp, hh, ?_, ?_, ?_⟩
    · intro _ _
      rw [hmem]
      exact ⟨rfl, rfl, rfl⟩
    · rw [hv]
      exact fun _ => id
    · intro hle hlt
      rw [hv] at hlt
      exact absurd hlt (Nat.not_lt.mpr hle)

end Parts

section NodeStep

variable {cfg : Config α π ρ} {s t : State α ρ} {k : NodeId} {u : Poll.State α} {l : Poll.Label α}

structure NodesOk (cfg : Config α π ρ) (s t : State α ρ) (k : NodeId) (l : Poll.Label α) : Prop where
  exclusive : Exclusive (s.view k)
  allowed : allowed (s.view k) l = true
  tasks : TaskStep (cfg.at k) (s.view k) l (t.view k)
  other : ∀ d, d ≠ k → t.view d = s.view d
  lanes : ∀ d, ScannedFifo.Inv (cfg.at d).owner (t.nodes d).lanesView
  node : ∀ d, NodeInv (cfg.at d) (t.view d)

theorem nodesOk_of_step (h : Inv cfg s) (ha : allowed (s.view k) l = true)
    (hst : Poll.step (cfg.at k) (s.nodes k) l = some u) (ht : t.nodes = Function.update s.nodes k u) :
    NodesOk cfg s t k l := by
  have hx : Exclusive (s.view k) := exclusive_of_lanes (h.lanes k) (step_transition hst).1
  have hself : t.nodes k = u := by rw [ht, Function.update_self]
  have hne : ∀ d, d ≠ k → t.nodes d = s.nodes d := fun d hd => by rw [ht, Function.update_of_ne hd]
  have htasks : TaskStep (cfg.at k) (s.view k) l (t.view k) := by
    rw [State.view, State.view, hself]
    exact step_tasks rfl (h.lanes k) hst
  have hother : ∀ d, d ≠ k → t.view d = s.view d := fun d hd => by rw [State.view, State.view, hne d hd]
  refine ⟨hx, ha, htasks, hother, ?_, ?_⟩
  · intro d
    by_cases hd : d = k
    · subst hd
      rw [hself]
      exact step_lanesInv (h.lanes d) hst
    · rw [hne d hd]
      exact h.lanes d
  · intro d
    by_cases hd : d = k
    · subst hd
      exact step_nodeInv (h.node d) hx htasks ha
    · rw [hother d hd]
      exact h.node d

theorem NodesOk.made (hn : NodesOk cfg s t k l) (h : Inv cfg s)
    (hh : ∀ d p, (s.history d p).dispersed ≤ (t.history d p).dispersed) : ∀ d q i, q < (t.view d).next →
      (t.mem d q).body.pushInfo = some i → 0 < (t.history d i.origTask).dispersed := by
  intro d q i hq hi
  refine lt_of_lt_of_le ?_ (hh d i.origTask)
  by_cases hd : d = k
  · subst hd
    rcases step_made (h.node d) hn.exclusive hn.tasks hn.allowed hq hi with ⟨hlt, hold⟩ | ⟨w, r, hr, hm, ht⟩
    · exact h.made d q i hlt hold
    · rw [← ht]
      exact h.running d w r hr hm
  · have hv := hn.other d hd
    rw [hv] at hq
    have hi' : (s.mem d q).body.pushInfo = some i := by
      show ((s.view d).mem q).body.pushInfo = some i
      rw [← hv]
      exact hi
    exact h.made d q i hq hi'

theorem inv_quiet (h : Inv cfg s) (hn : NodesOk cfg s t k l)
    (hrun : ∀ w r', (t.view k).running w = some r' → r'.mode = .skip ∨
      ∃ r, (s.view k).running w = some r ∧ r.task = r'.task ∧ r.mode = r'.mode)
    (hx : t.xfer = s.xfer) (hp : t.pushes = s.pushes) (hh : t.history = s.history) : Inv cfg t := by
  refine ⟨hn.lanes, hn.node, ?_, hn.made h (fun _ _ => by rw [hh]), ?_⟩
  · intro d w r hr hm
    rw [hh]
    by_cases hd : d = k
    · subst hd
      rcases hrun w r hr with hskip | ⟨r₀, hr₀, ht₀, hm₀⟩
      · rw [hm] at hskip
        cases hskip
      · rw [← ht₀]
        exact h.running d w r₀ hr₀ (hm₀.trans hm)
    · rw [hn.other d hd] at hr
      exact h.running d w r hr hm
  · intro d p
    have hc : Calm cfg s t d p := by
      refine calm_of_step h hn.exclusive hn.other hn.tasks hn.allowed ?_ (by rw [hx]) (by rw [hp]) (by rw [hh])
      rintro - ⟨w, r', hnone, hr', -, hm'⟩
      rcases hrun w r' hr' with hskip | ⟨r, hr, -⟩
      · exact hm' hskip
      · rw [hnone] at hr
        cases hr
    exact hc.task (h.node d) (h.task d p)

structure Starts (cfg : Config α π ρ) (s t : State α ρ) (k : NodeId) (w : WorkerId) (p : TaskPtr)
    (exec : Instance) (es : List (LaneRef × Task α)) : Prop where
  idle : (s.view k).Idle p
  enabled : (s.mem k p).isRunDisabled = false
  execId : exec.id = (s.mem k p).taskState
  free : (s.view k).running w = none
  view : t.view k = ((s.view k).setTask p (execute (cfg.at k) (s.mem k p) p exec es).task).setRunning w
    (some (started (cfg.at k) (s.mem k p) p exec es))

variable {w : WorkerId} {p : TaskPtr} {exec : Instance} {es : List (LaneRef × Task α)}

theorem Starts.mem (hs : Starts cfg s t k w p exec es) :
    t.mem k p = (execute (cfg.at k) (s.mem k p) p exec es).task := by
  show (t.view k).mem p = _
  rw [hs.view]
  exact TasksView.setTask_self ..

theorem Starts.begins (hs : Starts cfg s t k w p exec es) {q : TaskPtr} (hb : Begins (s.view k) (t.view k) q) :
    q = p := by
  obtain ⟨w', r', hnone, hr', ht', -⟩ := hb
  rw [hs.view] at hr'
  by_cases hw : w' = w
  · subst hw
    rw [TasksView.setRunning_self, Option.some.injEq] at hr'
    rw [← ht', ← hr']
    rfl
  · rw [TasksView.setRunning_of_ne _ _ hw] at hr'
    rw [show (s.view k).running w' = some r' from hr'] at hnone
    cases hnone

theorem Starts.not_dispersed (h : Inv cfg s) (hs : Starts cfg s t k w p exec es) :
    ¬Dispersed (s.view k) p ∧ (s.history k p).dispersed = 0 ∧ s.pushes k p = none := by
  have hnot : ¬Dispersed (s.view k) p := by
    rintro (hd | ⟨w', r', hr', ht', -⟩)
    · rw [show ((s.view k).mem p).isRunDisabled = false from hs.enabled] at hd
      cases hd
    · exact hs.idle.free w' r' hr' ht'
  refine ⟨hnot, ?_, ?_⟩
  · by_contra hne
    exact hnot ((h.task k p).sent (Nat.pos_of_ne_zero hne)).dispersed
  · cases hx : s.pushes k p with
    | none => rfl
    | some x =>
      have hok := (h.task k p).push x hx
      obtain ⟨-, -, hd⟩ := (h.node k).pushes x.task x.info hok.task hok.info
      rw [hok.orig] at hd
      exact absurd hd hnot

theorem Starts.running (hs : Starts cfg s t k w p exec es) {w' : WorkerId} {r : Running α}
    (hr : (t.view k).running w' = some r) :
    r = started (cfg.at k) (s.mem k p) p exec es ∨ (s.view k).running w' = some r := by
  rw [hs.view] at hr
  by_cases hw : w' = w
  · subst hw
    rw [TasksView.setRunning_self, Option.some.injEq] at hr
    exact Or.inl hr.symm
  · rw [TasksView.setRunning_of_ne _ _ hw] at hr
    exact Or.inr hr

theorem disperse_task (h : Inv cfg s) (hn : NodesOk cfg s t k l) (hs : Starts cfg s t k w p exec es)
    (hr : isRemote (cfg.at k) (s.mem k p) = true) (hx : t.xfer = update₂ s.xfer k p (some (s.mem k p)))
    (hp : t.pushes = s.pushes) (hself : t.history k p = { s.history k p with dispersed := 1 }) :
    TaskInv cfg t k p := by
  obtain ⟨-, -, hnone⟩ := hs.not_dispersed h
  have hex := execute_remote hr p exec es
  have hframe : Frame (s.view k) (t.view k) := step_frame hn.exclusive hn.tasks hn.allowed
  have hkept := hframe.kept p hs.idle.known
  have htask := h.task k p
  obtain ⟨hcopies, hloaded, hends, hmod, -⟩ := htask.idle hnone
  have hmodule : (s.mem k p).isModuleComplete = false := hmod hs.idle.known hr
  have hown : isOwn (s.mem k p) = true := isRemote_local_of_push (h.node k) hs.idle.known hr
  have hbody : ∃ a, (s.mem k p).body = .own a := by
    cases hb : (s.mem k p).body with
    | own a => exact ⟨a, rfl⟩
    | push i => simp [isOwn, hb, Body.pushInfo] at hown
  obtain ⟨a, ha⟩ := hbody
  have hmem : t.mem k p = { s.mem k p with body := .own (((cfg.at k).lib (s.mem k p).taskState).replicateStart
      (s.mem k p).method (resolveDomainId cfg.numHosts (s.mem k p).domainId).length a) } := by
    rw [hs.mem, hex, replicateStart, ha, hs.execId]
    rfl
  have hremote : isRemote (cfg.at k) (t.mem k p) = true := (hkept.isRemote _).trans hr
  refine ⟨?_, ?_, ?_, ?_, ?_, ?_⟩
  · rw [hself]
    intro hran
    have hl := (htask.ran hran).2
    rw [hr] at hl
    cases hl
  · intro _
    refine ⟨by rw [hself], lt_of_lt_of_le hs.idle.known hframe.next, hremote, ?_, ?_⟩
    · refine Or.inr ⟨w, started (cfg.at k) (s.mem k p) p exec es, ?_, rfl, by rw [started, hex]⟩
      rw [hs.view]
      exact TasksView.setRunning_self ..
    · refine ⟨s.mem k p, by rw [hx, update₂_self], hkept, ?_, hown, hs.enabled, hmodule, ?_⟩
      · rw [hmem]
      · by_contra hc
        have hc' : (s.mem k p).isComplete = true := by simpa using hc
        exact hs.idle.notEnded ((h.node k).complete p hs.idle.known hc')
  · rw [hself]
    intro _
    refine ⟨hcopies, hloaded, hends, ?_, ?_⟩
    · intro _ _
      rw [hmem]
      exact hmodule
    · intro _
      refine ⟨s.mem k p, a, by rw [hx, update₂_self], ha, ?_⟩
      rw [hmem]
      rfl
  · rw [hp, hnone]
    intro x hx
    cases hx
  · rw [hself]
    show ∀ d' c, (d', c) ∈ (s.history k p).copies → _
    rw [hcopies]
    intro d' c hmem'
    cases hmem'
  · rw [hself]
    exact htask.nodup

theorem inv_disperse (h : Inv cfg s) (hn : NodesOk cfg s t k l) (hs : Starts cfg s t k w p exec es)
    (hr : isRemote (cfg.at k) (s.mem k p) = true) (hx : t.xfer = update₂ s.xfer k p (some (s.mem k p)))
    (hp : t.pushes = s.pushes) (hh : t.history = update₂ s.history k p
      { s.history k p with dispersed := (s.history k p).dispersed + 1 }) : Inv cfg t := by
  obtain ⟨-, hzero, -⟩ := hs.not_dispersed h
  have hself : t.history k p = { s.history k p with dispersed := 1 } := by
    rw [hh, update₂_self, hzero]
  have hne : ∀ {d q}, ¬(d = k ∧ q = p) → t.history d q = s.history d q := by
    intro d q hdq
    rw [hh, update₂_of_ne _ _ hdq]
  have hmono : ∀ d q, (s.history d q).dispersed ≤ (t.history d q).dispersed := by
    intro d q
    by_cases hdq : d = k ∧ q = p
    · rw [hdq.1, hdq.2, hzero]
      exact Nat.zero_le _
    · rw [hne hdq]
  refine ⟨hn.lanes, hn.node, ?_, hn.made h hmono, ?_⟩
  · intro d w' r hrun hm
    by_cases hd : d = k
    · subst hd
      rcases hs.running hrun with rfl | hold
      · show 0 < (t.history d p).dispersed
        rw [hself]
        exact Nat.one_pos
      · exact lt_of_lt_of_le (h.running d w' r hold hm) (hmono _ _)
    · rw [hn.other d hd] at hrun
      exact lt_of_lt_of_le (h.running d w' r hrun hm) (hmono _ _)
  · intro d q
    by_cases hdq : d = k ∧ q = p
    · obtain ⟨rfl, rfl⟩ := hdq
      exact disperse_task h hn hs hr hx hp hself
    · have hc : Calm cfg s t d q := by
        refine calm_of_step h hn.exclusive hn.other hn.tasks hn.allowed ?_ ?_ (by rw [hp]) (hne hdq)
        · intro hd hb
          exact hdq ⟨hd, hs.begins hb⟩
        · rw [hx, update₂_of_ne _ _ hdq]
      exact hc.task (h.node d) (h.task d q)

theorem ran_task (h : Inv cfg s) (hn : NodesOk cfg s t k l) (hs : Starts cfg s t k w p exec es)
    (hr : isRemote (cfg.at k) (s.mem k p) = false) (hp : t.pushes k p = s.pushes k p)
    (hh : t.history k p = { s.history k p with ran := (s.history k p).ran + 1 }) : TaskInv cfg t k p := by
  obtain ⟨-, hzero, hnone⟩ := hs.not_dispersed h
  have hframe : ∀ d, Frame (s.view d) (t.view d) := by
    intro d
    by_cases hd : d = k
    · subst hd
      exact step_frame hn.exclusive hn.tasks hn.allowed
    · rw [hn.other d hd]
      exact Frame.refl _
  have hremote : isRemote (cfg.at k) (t.mem k p) = false :=
    (((hframe k).kept p hs.idle.known).isRemote _).trans hr
  have htask := h.task k p
  obtain ⟨hcopies, hloaded, hends, -, -⟩ := htask.idle hnone
  refine ⟨?_, ?_, ?_, ?_, ?_, ?_⟩
  · intro _
    exact ⟨lt_of_lt_of_le hs.idle.known (hframe k).next, hremote⟩
  · rw [hh]
    intro hd
    rw [show (s.history k p).dispersed = 0 from hzero] at hd
    cases hd
  · rw [hh]
    intro _
    refine ⟨hcopies, hloaded, hends, ?_, ?_⟩
    · intro _ hr'
      rw [hremote] at hr'
      cases hr'
    · intro hd
      rw [show (s.history k p).dispersed = 0 from hzero] at hd
      cases hd
  · rw [hp, hnone]
    intro x hx
    cases hx
  · rw [hh]
    intro d c hmem
    exact copies_frame hframe (htask.copies d c hmem)
  · rw [hh]
    exact htask.nodup

theorem pushOk_start (h : Inv cfg s) (hs : Starts cfg s t k w p exec es) {i : PushInfo}
    (hi : (s.mem k p).body.pushInfo = some i) (hc : Calm cfg s { t with pushes := s.pushes } k i.origTask)
    (hp : t.pushes k i.origTask = some ⟨p, i, 0, .start⟩) : TaskInv cfg t k i.origTask := by
  obtain ⟨hfor, hlt, -⟩ := (h.node k).pushes p i hs.idle.known hi
  have hmade := h.made k p i hs.idle.known hi
  have hnone : s.pushes k i.origTask = none := by
    cases hx : s.pushes k i.origTask with
    | none => rfl
    | some x =>
      have hok := (h.task k i.origTask).push x hx
      have heq := (h.node k).unique x.task p x.info i hok.task hs.idle.known hok.info hi hok.orig
      have hd := hok.disabled
      rw [heq, hs.enabled] at hd
      cases hd
  have htask := hc.task (h.node k) (h.task k i.origTask)
  obtain ⟨hcopies, hloaded, hends, hmod, hg⟩ := htask.idle hnone
  have hsent := htask.sent (show 0 < (t.history k i.origTask).dispersed from hc.history ▸ hmade)
  have hk := (hc.frame k).kept p hs.idle.known
  refine ⟨htask.ran, ?_, ?_, ?_, htask.copies, htask.nodup⟩
  · intro _
    exact ⟨hsent.once, hsent.known, hsent.remote, hsent.dispersed, hsent.saved⟩
  · rw [hp]
    intro hx
    cases hx
  · intro x hx
    rw [hp, Option.some.injEq] at hx
    subst hx
    refine ⟨lt_of_lt_of_le hs.idle.known (hc.frame k).next, hk.pushInfo.trans hi, rfl, ?_, Nat.zero_le _,
      by simp [Phase.isAway], by simp [Phase.isLate], hloaded, hends, ?_, by simp, by simp, ?_, ?_⟩
    · show (t.mem k p).isRunDisabled = true
      have hex := execute_push hfor.notRemote hfor.coroutine hfor.preemptive p exec es
      rw [hs.mem, show execute (cfg.at k) (s.mem k p) p exec es = _ from hex]
      exact Task.disableRun_isRunDisabled _
    · show (t.history k i.origTask).copies.map (·.1) = _
      rw [show (t.history k i.origTask).copies = [] from hcopies]
      simp [Phase.hasCopy]
    · exact ⟨[], rfl, by simp, hg (show 0 < (t.history k i.origTask).dispersed from hc.history ▸ hmade)⟩
    · intro hm
      have hm' : (t.mem k i.origTask).isModuleComplete = false := hmod hsent.known hsent.remote
      rw [hm'] at hm
      cases hm

theorem inv_run (h : Inv cfg s) (hn : NodesOk cfg s t k l) (hs : Starts cfg s t k w p exec es)
    (hr : isRemote (cfg.at k) (s.mem k p) = false) (hx : t.xfer = s.xfer)
    (hh : t.history = update₂ s.history k p { s.history k p with ran := (s.history k p).ran + 1 })
    (hp : t.pushes = s.pushes ∨ ∃ i, (s.mem k p).body.pushInfo = some i ∧
      t.pushes = update₂ s.pushes k i.origTask (some ⟨p, i, 0, .start⟩)) : Inv cfg t := by
  have hdisp : ∀ d q, (t.history d q).dispersed = (s.history d q).dispersed := by
    intro d q
    by_cases hdq : d = k ∧ q = p
    · rw [hdq.1, hdq.2, hh, update₂_self]
    · rw [hh, update₂_of_ne _ _ hdq]
  have hcalm : ∀ d q, ¬(d = k ∧ q = p) → Calm cfg s { t with pushes := s.pushes } d q := by
    intro d q hdq
    refine calm_of_step h hn.exclusive hn.other hn.tasks hn.allowed ?_ (by rw [hx]) rfl ?_
    · intro hd hb
      exact hdq ⟨hd, hs.begins hb⟩
    · show t.history d q = s.history d q
      rw [hh, update₂_of_ne _ _ hdq]
  have hself : t.history k p = { s.history k p with ran := (s.history k p).ran + 1 } := by rw [hh, update₂_self]
  have hsame : ∀ {d q}, t.pushes d q = s.pushes d q → ¬(d = k ∧ q = p) → TaskInv cfg t d q := by
    intro d q hpq hdq
    have hc := hcalm d q hdq
    have hc' : Calm cfg s t d q := ⟨hc.frame, hc.xfer, hpq, hc.history, hc.same, hc.dispersed, hc.fresh⟩
    exact hc'.task (h.node d) (h.task d q)
  refine ⟨hn.lanes, hn.node, ?_, hn.made h (fun d q => (hdisp d q).ge), ?_⟩
  · intro d w' r hrun hm
    rw [hdisp]
    by_cases hd : d = k
    · subst hd
      rcases hs.running hrun with rfl | hold
      · exact absurd hm (execute_local hr p exec es).1
      · exact h.running d w' r hold hm
    · rw [hn.other d hd] at hrun
      exact h.running d w' r hrun hm
  · intro d q
    rcases hp with hp | ⟨i, hi, hp⟩
    · by_cases hdq : d = k ∧ q = p
      · rw [hdq.1, hdq.2]
        exact ran_task h hn hs hr (by rw [hp]) hself
      · exact hsame (by rw [hp]) hdq
    · obtain ⟨hfor, -, -⟩ := (h.node k).pushes p i hs.idle.known hi
      have hne : i.origTask ≠ p := by
        intro heq
        have hrem := hfor.remote
        rw [heq, show isRemote (cfg.at k) ((s.view k).mem p) = false from hr] at hrem
        cases hrem
      by_cases hdq : d = k ∧ q = p
      · rw [hdq.1, hdq.2]
        refine ran_task h hn hs hr ?_ hself
        rw [hp, update₂_of_ne]
        exact fun hc => hne hc.2.symm
      · by_cases hdo : d = k ∧ q = i.origTask
        · obtain ⟨rfl, rfl⟩ := hdo
          exact pushOk_start h hs hi (hcalm _ _ hdq) (by rw [hp, update₂_self])
        · exact hsame (by rw [hp, update₂_of_ne _ _ hdo]) hdq

theorem begin_runs (s : State α ρ) (k : NodeId) {r : Running α} (h : r.mode.runs = true) :
    s.begin k r = s.record k r.task fun h => { h with ran := h.ran + 1 } := by
  unfold State.begin
  split
  · next hm => rw [hm] at h; cases h
  · next hm => rw [hm] at h; cases h
  · next hm => rw [hm] at h; cases h
  · rfl
  · rfl

theorem begin_spawn (s : State α ρ) (k : NodeId) {r : Running α} (h : r.mode = .spawn) :
    s.begin k r = match (s.mem k r.task).body with
      | .push i => (s.record k r.task fun h => { h with ran := h.ran + 1 }).setPush k i.origTask ⟨r.task, i, 0, .start⟩
      | .own _ => s.record k r.task fun h => { h with ran := h.ran + 1 } := by
  simp only [State.begin, h]
  cases (s.mem k r.task).body <;> rfl

theorem nodeStep_inv (h : Inv cfg s) (hst : nodeStep cfg s k l = some t) : Inv cfg t := by
  unfold nodeStep at hst
  split_ifs at hst with ha
  obtain ⟨u, hu, rfl⟩ := Option.map_eq_some_iff.mp hst
  have hok : ∀ t : State α ρ, t.nodes = Function.update s.nodes k u → NodesOk cfg s t k l :=
    fun t ht => nodesOk_of_step h ha hu ht
  have hstay := hok (s.setNode k u) rfl
  rcases step_running hstay.tasks with hrun | ⟨w, es, p, exec, rfl, hidle, hfree, hen, hexec, hes, hview⟩
  · have hquiet : Inv cfg (s.setNode k u) := inv_quiet h hstay hrun rfl rfl rfl
    cases l with
    | scan w es =>
      dsimp only
      cases hr : u.running w with
      | none => exact hquiet
      | some r =>
        have hskip : r.mode = .skip := by
          have hr' : ((s.setNode k u).view k).running w = some r := by
            rw [view_setNode_self]
            exact hr
          rcases hrun w r hr' with hskip | ⟨r₀, hr₀, -⟩
          · exact hskip
          · rw [scan_free hstay.tasks] at hr₀
            cases hr₀
        have hb : s.begin k r = s := by rw [State.begin, hskip]
        dsimp only
        rw [hb]
        exact hquiet
    | emplace _ _ => exact hquiet
    | poll _ _ => exact hquiet
    | put _ => exact hquiet
    | registry _ _ => exact hquiet
    | finish _ _ => exact hquiet
    | write _ _ => exact hquiet
  · have hur : u.running w = some (started (cfg.at k) (s.mem k p) p exec es) := by
      have hview' := congrFun (congrArg TasksView.running hview) w
      rw [view_setNode_self, TasksView.setRunning_self] at hview'
      exact hview'
    have hstarts : ∀ t : State α ρ, t.nodes = Function.update s.nodes k u → Starts cfg s t k w p exec es := by
      intro t ht
      refine ⟨hidle, hen, hexec, hfree, ?_⟩
      refine Eq.trans ?_ hview
      show (t.nodes k).tasksView = ((s.setNode k u).nodes k).tasksView
      rw [ht]
      rfl
    dsimp only
    rw [hur]
    dsimp only
    cases hrem : isRemote (cfg.at k) (s.mem k p) with
    | true =>
      have hmode : (started (cfg.at k) (s.mem k p) p exec es).mode = .disperse := by
        rw [started, execute_remote hrem]
      refine inv_disperse h (hok _ ?_) (hstarts _ ?_) hrem ?_ ?_ ?_ <;> simp only [State.begin, hmode] <;> rfl
    | false =>
      have hrun : (started (cfg.at k) (s.mem k p) p exec es).mode.runs = true ∨
          (started (cfg.at k) (s.mem k p) p exec es).mode = .spawn := execute_local_mode hrem p exec es
      rcases hrun with hmode | hmode
      · rw [begin_runs s k hmode]
        exact inv_run h (hok _ rfl) (hstarts _ rfl) hrem rfl rfl (Or.inl rfl)
      · rw [begin_spawn s k hmode]
        cases hbody : (s.mem k p).body with
        | own a =>
          rw [show (s.mem k (started (cfg.at k) (s.mem k p) p exec es).task).body = .own a from hbody]
          exact inv_run h (hok _ rfl) (hstarts _ rfl) hrem rfl rfl (Or.inl rfl)
        | push i =>
          rw [show (s.mem k (started (cfg.at k) (s.mem k p) p exec es).task).body = .push i from hbody]
          refine inv_run h (hok _ rfl) (hstarts _ rfl) hrem rfl rfl (Or.inr ⟨i, ?_, rfl⟩)
          rw [hbody]
          rfl

end NodeStep

section Write

variable {cfg : Config α π ρ} {s t : State α ρ} {k : NodeId} {p : TaskPtr} {x : Task α}

theorem write_spec (h : s.write cfg k p x = some t) : p < (s.view k).next ∧
    x.body.pushInfo = (s.mem k p).body.pushInfo ∧ t = s.setNode k ((s.nodes k).setTask p x) := by
  obtain ⟨u, hu, rfl⟩ := Option.map_eq_some_iff.mp h
  obtain ⟨-, htr⟩ := step_transition hu
  cases htr with
  | write _ _ hp hx => exact ⟨hp, hx, rfl⟩

structure Written (cfg : Config α π ρ) (s t : State α ρ) (k : NodeId) (p : TaskPtr) (x : Task α) : Prop where
  nodes : t.nodes = Function.update s.nodes k ((s.nodes k).setTask p x)
  kept : Kept (s.mem k p) x
  method : isRemote (cfg.at k) (s.mem k p) = true → x.method = (s.mem k p).method
  complete : x.isComplete = (s.mem k p).isComplete
  live : ¬((s.view k).ended p ∧ isOwn (s.mem k p) = true)

theorem Written.view (hw : Written cfg s t k p x) : t.view k = (s.view k).setTask p x := by
  rw [State.view, hw.nodes, Function.update_self]
  rfl

theorem Written.view_of_ne (hw : Written cfg s t k p x) {d : NodeId} (hd : d ≠ k) : t.view d = s.view d := by
  rw [State.view, hw.nodes, Function.update_of_ne hd]
  rfl

theorem Written.mem (hw : Written cfg s t k p x) : t.mem k p = x := by
  show (t.view k).mem p = x
  rw [hw.view]
  exact TasksView.setTask_self ..

theorem Written.mem_of_ne (hw : Written cfg s t k p x) {d : NodeId} {q : TaskPtr} (hdq : ¬(d = k ∧ q = p)) :
    t.mem d q = s.mem d q := by
  show (t.view d).mem q = (s.view d).mem q
  by_cases hd : d = k
  · subst hd
    rw [hw.view, TasksView.setTask_of_ne _ _ (fun hq => hdq ⟨rfl, hq⟩)]
  · rw [hw.view_of_ne hd]

theorem Written.frame (hw : Written cfg s t k p x) (d : NodeId) : Frame (s.view d) (t.view d) := by
  by_cases hd : d = k
  · subst hd
    rw [hw.view]
    exact frame_setTask hw.kept hw.live
  · rw [hw.view_of_ne hd]
    exact Frame.refl _

theorem Written.running (hw : Written cfg s t k p x) (d : NodeId) : (t.view d).running = (s.view d).running ∧
    (t.view d).next = (s.view d).next := by
  by_cases hd : d = k
  · subst hd
    rw [hw.view]
    exact ⟨rfl, rfl⟩
  · rw [hw.view_of_ne hd]
    exact ⟨rfl, rfl⟩

theorem Written.dispersed (hw : Written cfg s t k p x) {d : NodeId} {q : TaskPtr} (hq : q < (s.view d).next)
    (hd : Dispersed (s.view d) q) : Dispersed (t.view d) q := by
  rcases hd with hd | hd
  · exact Or.inl (((hw.frame d).kept q hq).runDisabled hd)
  · rw [Dispersed, (hw.running d).1]
    exact Or.inr hd

theorem Written.calm (hw : Written cfg s t k p x) {d : NodeId} {q : TaskPtr}
    (hsame : d = k → q = p → isRemote (cfg.at k) (s.mem k p) = true → x.body = (s.mem k p).body ∧
      x.isModuleComplete = (s.mem k p).isModuleComplete)
    (hx : t.xfer d q = s.xfer d q) (hp : t.pushes d q = s.pushes d q) (hh : t.history d q = s.history d q) :
    Calm cfg s t d q := by
  refine ⟨hw.frame, hx, hp, hh, ?_, fun hq => hw.dispersed hq, ?_⟩
  · intro _ hr
    by_cases hdq : d = k ∧ q = p
    · obtain ⟨rfl, rfl⟩ := hdq
      rw [hw.mem]
      exact ⟨(hsame rfl rfl hr).1, hw.method hr, (hsame rfl rfl hr).2⟩
    · rw [hw.mem_of_ne hdq]
      exact ⟨rfl, rfl, rfl⟩
  · intro hle hlt
    rw [(hw.running d).2] at hlt
    exact absurd hlt (Nat.not_lt.mpr hle)

theorem Written.inv (hw : Written cfg s t k p x) (h : Inv cfg s)
    (hh : ∀ d q, (t.history d q).dispersed = (s.history d q).dispersed)
    (htask : ∀ d q, TaskInv cfg t d q) : Inv cfg t := by
  refine ⟨?_, ?_, ?_, ?_, htask⟩
  · intro d
    rw [hw.nodes]
    by_cases hd : d = k
    · subst hd
      rw [Function.update_self, State.lanesView_setTask]
      exact h.lanes d
    · rw [Function.update_of_ne hd]
      exact h.lanes d
  · intro d
    by_cases hd : d = k
    · subst hd
      rw [hw.view]
      refine (h.node d).setTask hw.kept hw.method ?_
      rw [hw.complete]
      exact Or.inl
    · rw [hw.view_of_ne hd]
      exact h.node d
  · intro d w r hr hm
    rw [(hw.running d).1] at hr
    rw [hh]
    exact h.running d w r hr hm
  · intro d q i hq hi
    rw [(hw.running d).2] at hq
    rw [hh]
    have hi' := ((hw.frame d).kept q hq).pushInfo.symm.trans hi
    exact h.made d q i hq hi'

theorem threadStep_inv (h : Inv cfg s) (hr : isRemote (cfg.at k) (s.mem k p) = false)
    (hk : handlerKeeps (s.mem k p) x = true) (hend : .endTask p ∉ (s.nodes k).log)
    (hst : s.write cfg k p x = some t) : Inv cfg t := by
  obtain ⟨-, hinfo, rfl⟩ := write_spec hst
  have hremote : ¬isRemote (cfg.at k) (s.mem k p) = true := by simp [hr]
  have hw : Written cfg s (s.setNode k ((s.nodes k).setTask p x)) k p x :=
    ⟨rfl, Kept.handler hk hinfo, fun hr' => absurd hr' hremote, handler_isComplete hk, fun he => hend he.1⟩
  refine hw.inv h (fun _ _ => rfl) ?_
  intro d q
  have hc : Calm cfg s (s.setNode k ((s.nodes k).setTask p x)) d q :=
    hw.calm (fun _ _ hr' => absurd hr' hremote) rfl rfl rfl
  exact hc.task (h.node d) (h.task d q)

end Write

section PushStep

variable {cfg : Config α π ρ} {s t : State α ρ} {k : NodeId} {p : TaskPtr} {x y : Push ρ}

theorem task_of_push (ht : TaskInv cfg s k p) (hf : ∀ d, Frame (s.view d) (t.view d))
    (hsent : Sent cfg s k p → Sent cfg t k p) (hran : (t.history k p).ran = (s.history k p).ran)
    (hdisp : (t.history k p).dispersed = (s.history k p).dispersed) (hp : t.pushes k p = some y)
    (hok : PushOk cfg t k p y)
    (hcopies : ∀ d c, (d, c) ∈ (t.history k p).copies → (d, c) ∈ (s.history k p).copies ∨
      c < (t.view d).next ∧ isRemote (cfg.at d) (t.mem d c) = false ∧ isOwn (t.mem d c) = true)
    (hnodup : (t.history k p).copies.Nodup) : TaskInv cfg t k p := by
  refine ⟨?_, ?_, ?_, ?_, ?_, hnodup⟩
  · rw [hran]
    intro h
    obtain ⟨hlt, hr⟩ := ht.ran h
    exact ⟨lt_of_lt_of_le hlt (hf k).next, (((hf k).kept p hlt).isRemote _).trans hr⟩
  · rw [hdisp]
    intro h
    exact hsent (ht.sent h)
  · rw [hp]
    intro h
    cases h
  · rw [hp]
    intro z hz
    cases hz
    exact hok
  · intro d c hmem
    rcases hcopies d c hmem with hold | hnew
    · exact copies_frame hf (ht.copies d c hold)
    · exact hnew

theorem inv_setPush (h : Inv cfg s) (hok : PushOk cfg (s.setPush k p y) k p y) : Inv cfg (s.setPush k p y) := by
  refine ⟨h.lanes, h.node, h.running, h.made, ?_⟩
  intro d q
  by_cases hdq : d = k ∧ q = p
  · obtain ⟨rfl, rfl⟩ := hdq
    refine task_of_push (h.task d q) (fun _ => Frame.refl _) ?_ rfl rfl (update₂_self ..) hok ?_ (h.task d q).nodup
    · intro hs
      exact ⟨hs.once, hs.known, hs.remote, hs.dispersed, hs.saved⟩
    · intro d c hmem
      exact Or.inl hmem
  · have hc : Calm cfg s (s.setPush k p y) d q :=
      calm_of_view (fun _ => rfl) rfl (update₂_of_ne _ _ hdq) rfl
    exact hc.task (h.node d) (h.task d q)

theorem PushOk.phase (hok : PushOk cfg s k p x) {φ : Phase ρ}
    (haway : φ.isAway = true → x.replica < x.info.domainIds.length) (hlate : φ.isLate = x.phase.isLate)
    (hcopy : φ.hasCopy = x.phase.hasCopy) (hover : x.phase.isOver = true → φ.isOver = true)
    (hwaiting : ∀ c, φ = .waiting c → ∃ d, (s.history k p).copies[x.replica]? = some (d, c))
    (hreplied : ∀ ret, φ = .replied ret → ∃ a, EndedCopy s k p x.replica a ∧
      ret = (cfg.srl x.info.exec.id).saveEnd x.info.execMethod a) :
    PushOk cfg (s.setPush k p { x with phase := φ }) k p { x with phase := φ } where
  task := hok.task
  info := hok.info
  orig := hok.orig
  disabled := hok.disabled
  bound := hok.bound
  away := haway
  late h := hok.late (hlate ▸ h)
  loaded := hok.loaded
  ends := hok.ends.trans (by rw [hlate])
  targets := hok.targets.trans (by rw [hcopy])
  waiting := hwaiting
  replied := hreplied
  gathered := by
    obtain ⟨outs, hlen, houts, hg⟩ := hok.gathered
    exact ⟨outs, hlen, houts, by rw [hlate]; exact hg⟩
  isOver h := hover (hok.isOver h)

theorem inv_halt (h : Inv cfg s) (d : NodeId) : Inv cfg (s.halt d) := by
  have hv := view_halt s d
  have hmem : ∀ e q, (s.halt d).mem e q = s.mem e q := by
    intro e q
    show ((s.halt d).view e).mem q = (s.view e).mem q
    rw [hv]
  refine ⟨?_, ?_, ?_, ?_, ?_⟩
  · intro e
    by_cases he : e = d
    · subst he
      have hstep : ScannedFifo.Inv (cfg.at e).owner { (s.nodes e).lanesView with halted := true } :=
        (h.lanes e).step (.halt _)
      rw [State.halt, nodes_setNode_self]
      exact hstep
    · rw [State.halt, nodes_setNode_of_ne _ he]
      exact h.lanes e
  · intro e
    rw [hv]
    exact h.node e
  · intro e w r hr hm
    rw [hv] at hr
    exact h.running e w r hr hm
  · intro e q i hq hi
    rw [hv] at hq
    rw [hmem] at hi
    exact h.made e q i hq hi
  · intro e q
    have hc : Calm cfg s (s.halt d) e q := calm_of_view hv rfl rfl rfl
    exact hc.task (h.node e) (h.task e q)

theorem rpcComplete_inv (h : Inv cfg s) {c : TaskPtr} (hx : s.pushes k p = some x) (hphase : x.phase = .waiting c)
    {domain : DomainId} (hdom : x.info.domainIds[x.replica]? = some domain)
    (hcomplete : (s.mem domain.id c).isComplete = true) {ret : ρ}
    (hret : saveEnd cfg x.info (s.mem domain.id c) = some ret) :
    Inv cfg (s.setPush k p { x with phase := .replied ret }) := by
  have hok := (h.task k p).push x hx
  have hlt : x.replica < x.info.domainIds.length := (List.getElem?_eq_some_iff.mp hdom).1
  obtain ⟨d, hcopy⟩ := hok.waiting c hphase
  -- the copy is where the push looks for it
  have hd : d = domain.id := by
    have htarget := congrArg (fun l => l[x.replica]?) hok.targets
    simp only [List.getElem?_map, hcopy, hphase, Phase.hasCopy, if_true] at htarget
    rw [List.getElem?_take_of_lt (Nat.lt_succ_self _), List.getElem?_map, hdom] at htarget
    simpa using htarget
  subst hd
  obtain ⟨hknown, -, -⟩ := (h.task k p).copies _ c (List.mem_of_getElem? hcopy)
  have hended := (h.node domain.id).complete c hknown hcomplete
  apply inv_setPush h
  apply hok.phase
  · intro _
    exact hlt
  · rw [hphase]
    rfl
  · rw [hphase]
    rfl
  · rw [hphase]
    intro hf
    cases hf
  · intro c' hc'
    cases hc'
  · intro ret' hret'
    cases hret'
    unfold saveEnd at hret
    split at hret
    · next a ha =>
      cases hret
      exact ⟨a, ⟨domain.id, c, hcopy, hknown, hended, ha⟩, rfl⟩
    · cases hret

theorem mapOwn_own {f : α → α} {z : Task α} {a : α} (h : z.body = .own a) :
    mapOwn f z = { z with body := .own (f a) } := by
  simp [mapOwn, h]

theorem Written.sent {z : Task α} (hw : Written cfg s t k p z) (hx : t.xfer k p = s.xfer k p)
    (hd : (t.history k p).dispersed = (s.history k p).dispersed) (h : Sent cfg s k p) : Sent cfg t k p := by
  have hk := (hw.frame k).kept p h.known
  refine ⟨hd.trans h.once, lt_of_lt_of_le h.known (hw.frame k).next, (hk.isRemote _).trans h.remote,
    hw.dispersed h.known h.dispersed, ?_⟩
  obtain ⟨x, hxf, hkx, hm, hrest⟩ := h.saved
  refine ⟨x, hx.trans hxf, hkx.trans hk, ?_, hrest⟩
  rw [hm, hw.mem]
  exact (hw.method h.remote).symm

theorem PushOk.sent (h : Inv cfg s) (hok : PushOk cfg s k p x) : Sent cfg s k p := by
  have hmade := h.made k x.task x.info hok.task hok.info
  rw [hok.orig] at hmade
  exact (h.task k p).sent hmade

theorem PushOk.saved (h : Inv cfg s) (hok : PushOk cfg s k p x) : ∃ z, s.xfer k p = some z ∧
    x.info.exec.id = z.taskState ∧ x.info.execMethod = z.method ∧ z.method = (s.mem k p).method ∧
    x.info.domainIds = resolveDomainId cfg.numHosts z.domainId := by
  obtain ⟨hfor, -, -⟩ := hok.remote (h.node k)
  obtain ⟨z, hz, hkept, hm, -⟩ := (hok.sent h).saved
  have hexec := hfor.exec
  have hmethod := hfor.method
  have hdomain := hfor.domainIds
  rw [hok.orig] at hexec hmethod hdomain
  refine ⟨z, hz, hexec.trans hkept.taskState, hmethod.trans hm.symm, hm, ?_⟩
  rw [hdomain]
  exact congrArg _ hkept.domainId

theorem inv_push_write {f : History → History} (h : Inv cfg s) {z : Task α}
    (hw : Written cfg s t k p z) (hxf : t.xfer = s.xfer) (hp : t.pushes = update₂ s.pushes k p (some y))
    (hh : t.history = update₂ s.history k p (f (s.history k p)))
    (hdisp : (f (s.history k p)).dispersed = (s.history k p).dispersed)
    (hran : (f (s.history k p)).ran = (s.history k p).ran)
    (hcopies : (f (s.history k p)).copies = (s.history k p).copies) (hok : PushOk cfg t k p y) : Inv cfg t := by
  have hself : t.history k p = f (s.history k p) := by rw [hh, update₂_self]
  have hne : ∀ {d q}, ¬(d = k ∧ q = p) → t.history d q = s.history d q := by
    intro d q hdq
    rw [hh, update₂_of_ne _ _ hdq]
  refine hw.inv h ?_ ?_
  · intro d q
    by_cases hdq : d = k ∧ q = p
    · rw [hdq.1, hdq.2, hself, hdisp]
    · rw [hne hdq]
  · intro d q
    by_cases hdq : d = k ∧ q = p
    · obtain ⟨rfl, rfl⟩ := hdq
      refine task_of_push (h.task d q) hw.frame (hw.sent (by rw [hxf]) (by rw [hself, hdisp])) (by rw [hself, hran])
        (by rw [hself, hdisp]) (by rw [hp, update₂_self]) hok ?_ ?_
      · rw [hself, hcopies]
        intro d c hmem
        exact Or.inl hmem
      · rw [hself, hcopies]
        exact (h.task d q).nodup
    · have hc : Calm cfg s t d q :=
        hw.calm (fun hd hq => absurd ⟨hd, hq⟩ hdq) (by rw [hxf]) (by rw [hp, update₂_of_ne _ _ hdq]) (hne hdq)
      exact hc.task (h.node d) (h.task d q)

theorem PushOk.live (h : Inv cfg s) (hok : PushOk cfg s k p x) (hover : x.phase.isOver = false) :
    (s.mem k p).isModuleComplete = false ∧ ¬((s.view k).ended p ∧ isOwn (s.mem k p) = true) := by
  have hm : (s.mem k p).isModuleComplete = false := by
    by_contra hne
    have ho := hok.isOver (by simpa using hne)
    rw [hover] at ho
    cases ho
  refine ⟨hm, ?_⟩
  rintro ⟨hend, -⟩
  have hm' : (s.mem k p).isModuleComplete = true := ((h.node k).ended p hend).2
  rw [hm] at hm'
  cases hm'

theorem EndedCopy.written {z : Task α} (hw : Written cfg s t k p z)
    (hc : (t.history k p).copies = (s.history k p).copies) {j : ℕ} {a : α} (h : EndedCopy s k p j a) :
    EndedCopy t k p j a := h.frame hw.frame ⟨[], by rw [hc, List.append_nil]⟩

theorem output_ok (h : Inv cfg s) {ret : ρ} (hok : PushOk cfg s k p x) (hphase : x.phase = .replied ret)
    (hw : Written cfg s t k p
      (mapOwn ((cfg.srl x.info.exec.id).loadEnd x.replica x.info.execMethod ret) (s.mem k p)))
    (hxf : t.xfer k p = s.xfer k p)
    (hh : t.history k p = { s.history k p with loaded := (s.history k p).loaded + 1 }) :
    PushOk cfg t k p { x with replica := x.replica + 1, phase := .ready } := by
  have hk := (hw.frame k).kept x.task hok.task
  have hlt : x.replica < x.info.domainIds.length := hok.away (by rw [hphase]; rfl)
  have hcopies : (t.history k p).copies = (s.history k p).copies := by rw [hh]
  refine ⟨lt_of_lt_of_le hok.task (hw.frame k).next, hk.pushInfo.trans hok.info, hok.orig,
    hk.runDisabled hok.disabled, hlt, by simp [Phase.isAway], by simp [Phase.isLate], ?_, ?_, ?_, by simp, by simp,
    ?_, ?_⟩
  · rw [hh, hok.loaded]
  · rw [hh]
    have hends := hok.ends
    rw [hphase] at hends
    exact hends
  · rw [hcopies, hok.targets, hphase]
    rfl
  · obtain ⟨z, hz, hexec, hmethod, -, -⟩ := hok.saved h
    obtain ⟨a, hcopy, hret⟩ := hok.replied ret hphase
    obtain ⟨outs, hlen, houts, z', b, hz', hbody, hown⟩ := hok.gathered
    rw [hz, Option.some.injEq] at hz'
    subst hz'
    refine ⟨outs ++ [a], by rw [List.length_append, hlen]; rfl, ?_, z, b, hxf.trans hz, hbody, ?_⟩
    · intro j o hj
      by_cases hjlt : j < outs.length
      · rw [List.getElem?_append_left hjlt] at hj
        exact (houts j o hj).written hw hcopies
      · rw [List.getElem?_append_right (Nat.le_of_not_lt hjlt), List.getElem?_singleton] at hj
        split_ifs at hj with hzero
        have hjr : j = x.replica := by omega
        cases hj
        rw [hjr]
        exact hcopy.written hw hcopies
    · rw [hphase] at hown
      rw [hw.mem, mapOwn_own hown]
      simp only [Phase.isLate, Bool.false_eq_true, if_false]
      rw [gather_append, hlen, hret, hexec, hmethod]
  · rw [hw.mem]
    intro hm
    rw [Task.isModuleComplete, mapOwn_taskFlags] at hm
    rw [← Task.isModuleComplete, (hok.live h (by rw [hphase]; rfl)).1] at hm
    cases hm

theorem mapOwn_written (h : Inv cfg s) (hok : PushOk cfg s k p x) (hover : x.phase.isOver = false) (f : α → α)
    (ht : t.nodes = Function.update s.nodes k ((s.nodes k).setTask p (mapOwn f (s.mem k p)))) :
    Written cfg s t k p (mapOwn f (s.mem k p)) := by
  refine ⟨ht, Kept.mapOwn _ _, ?_, ?_, (hok.live h hover).2⟩
  · intro _
    unfold mapOwn
    split <;> rfl
  · simp only [Task.isComplete, mapOwn_taskFlags]

theorem output_inv (h : Inv cfg s) {ret : ρ} (hx : s.pushes k p = some x) (hphase : x.phase = .replied ret)
    (hst : s.write cfg k p (mapOwn ((cfg.srl x.info.exec.id).loadEnd x.replica x.info.execMethod ret) (s.mem k p)) =
      some t) :
    Inv cfg ((t.setPush k p { x with replica := x.replica + 1, phase := .ready }).record k p
      fun h => { h with loaded := h.loaded + 1 }) := by
  have hok := (h.task k p).push x hx
  obtain ⟨-, -, rfl⟩ := write_spec hst
  have hover : x.phase.isOver = false := by rw [hphase]; rfl
  refine inv_push_write (f := fun h => { h with loaded := h.loaded + 1 }) h (mapOwn_written h hok hover _ rfl)
    rfl rfl rfl rfl rfl rfl ?_
  exact output_ok h hok hphase (mapOwn_written h hok hover _ rfl) rfl (update₂_self ..)

theorem replicateEnd_ok (h : Inv cfg s) (hok : PushOk cfg s k p x) (hphase : x.phase = .ready)
    (hall : x.replica = x.info.domainIds.length)
    (hw : Written cfg s t k p (mapOwn ((cfg.srl x.info.exec.id).replicateEnd (s.mem k p).method) (s.mem k p)))
    (hxf : t.xfer k p = s.xfer k p)
    (hh : t.history k p = { s.history k p with replicateEnds := (s.history k p).replicateEnds + 1 }) :
    PushOk cfg t k p { x with phase := .replicated } := by
  have hk := (hw.frame k).kept x.task hok.task
  have hcopies : (t.history k p).copies = (s.history k p).copies := by rw [hh]
  refine ⟨lt_of_lt_of_le hok.task (hw.frame k).next, hk.pushInfo.trans hok.info, hok.orig,
    hk.runDisabled hok.disabled, hok.bound, by simp [Phase.isAway], fun _ => hall, ?_, ?_, ?_, by simp, by simp,
    ?_, ?_⟩
  · rw [hh]
    exact hok.loaded
  · have hends := hok.ends
    rw [hphase] at hends
    rw [hh]
    exact congrArg Nat.succ hends
  · rw [hcopies, hok.targets, hphase]
    rfl
  · obtain ⟨z, hz, hexec, -, hsame, -⟩ := hok.saved h
    obtain ⟨outs, hlen, houts, z', b, hz', hbody, hown⟩ := hok.gathered
    rw [hz, Option.some.injEq] at hz'
    subst hz'
    refine ⟨outs, hlen, fun j o hj => (houts j o hj).written hw hcopies, z, b, hxf.trans hz, hbody, ?_⟩
    rw [hphase] at hown
    rw [hw.mem, mapOwn_own hown]
    simp only [Phase.isLate, Bool.false_eq_true, if_false, if_true]
    rw [hexec, hsame]
  · rw [hw.mem]
    intro hm
    rw [Task.isModuleComplete, mapOwn_taskFlags] at hm
    rw [← Task.isModuleComplete, (hok.live h (by rw [hphase]; rfl)).1] at hm
    cases hm

theorem replicateEnd_inv (h : Inv cfg s) (hx : s.pushes k p = some x) (hphase : x.phase = .ready)
    (hall : x.replica = x.info.domainIds.length)
    (hst : s.write cfg k p (mapOwn ((cfg.srl x.info.exec.id).replicateEnd (s.mem k p).method) (s.mem k p)) = some t) :
    Inv cfg ((t.setPush k p { x with phase := .replicated }).record k p
      fun h => { h with replicateEnds := h.replicateEnds + 1 }) := by
  have hok := (h.task k p).push x hx
  obtain ⟨-, -, rfl⟩ := write_spec hst
  have hover : x.phase.isOver = false := by rw [hphase]; rfl
  refine inv_push_write (f := fun h => { h with replicateEnds := h.replicateEnds + 1 }) h
    (mapOwn_written h hok hover _ rfl) rfl rfl rfl rfl rfl rfl ?_
  exact replicateEnd_ok h hok hphase hall (mapOwn_written h hok hover _ rfl) rfl (update₂_self ..)

theorem completeOrig_inv (h : Inv cfg s) (hx : s.pushes k p = some x) (hphase : x.phase = .replicated)
    (hst : s.write cfg k p (s.mem k p).setModuleComplete = some t) :
    Inv cfg (t.setPush k p { x with phase := .signalled }) := by
  have hok := (h.task k p).push x hx
  obtain ⟨-, -, rfl⟩ := write_spec hst
  have hw : Written cfg s ((s.setNode k ((s.nodes k).setTask p (s.mem k p).setModuleComplete)).setPush k p
      { x with phase := .signalled }) k p (s.mem k p).setModuleComplete :=
    ⟨rfl, Kept.setModuleComplete _, fun _ => rfl, by simp, (hok.live h (by rw [hphase]; rfl)).2⟩
  refine inv_push_write (f := id) h hw rfl rfl ?_ rfl rfl rfl ?_
  · exact (update₂_eq_self s.history k p).symm
  have hk := (hw.frame k).kept x.task hok.task
  have hstill : x.phase.isLate = true := by rw [hphase]; rfl
  refine ⟨lt_of_lt_of_le hok.task (hw.frame k).next, hk.pushInfo.trans hok.info, hok.orig,
    hk.runDisabled hok.disabled, hok.bound, by simp [Phase.isAway], fun _ => hok.late hstill, hok.loaded, ?_, ?_,
    by simp, by simp, ?_, fun _ => rfl⟩
  · exact hok.ends.trans (by rw [hstill]; rfl)
  · exact hok.targets.trans (by rw [hphase]; rfl)
  · obtain ⟨outs, hlen, houts, hg⟩ := hok.gathered
    refine ⟨outs, hlen, fun j o hj => (houts j o hj).written hw rfl, ?_⟩
    rw [hstill] at hg
    exact hg.same rfl (by rw [hw.mem]; rfl)

theorem completePush_inv (h : Inv cfg s) (hx : s.pushes k p = some x) (hphase : x.phase = .signalled)
    (hst : s.write cfg k x.task (s.mem k x.task).setModuleComplete = some t) :
    Inv cfg (t.setPush k p { x with phase := .finished }) := by
  have hok := (h.task k p).push x hx
  obtain ⟨hfor, -, hremote⟩ := hok.remote (h.node k)
  obtain ⟨-, -, rfl⟩ := write_spec hst
  have hpush : ¬isRemote (cfg.at k) (s.mem k x.task) = true := by simp [hfor.notRemote]
  have hw : Written cfg s (s.setNode k ((s.nodes k).setTask x.task (s.mem k x.task).setModuleComplete)) k x.task
      (s.mem k x.task).setModuleComplete := by
    refine ⟨rfl, Kept.setModuleComplete _, fun _ => rfl, by simp, ?_⟩
    rintro ⟨-, hown⟩
    rw [isOwn, hok.info] at hown
    cases hown
  have hmid : Inv cfg (s.setNode k ((s.nodes k).setTask x.task (s.mem k x.task).setModuleComplete)) := by
    refine hw.inv h (fun _ _ => rfl) ?_
    intro d q
    have hc : Calm cfg s (s.setNode k ((s.nodes k).setTask x.task (s.mem k x.task).setModuleComplete)) d q :=
      hw.calm (fun _ _ hr => absurd hr hpush) rfl rfl rfl
    exact hc.task (h.node d) (h.task d q)
  apply inv_setPush hmid
  have hok' := (hmid.task k p).push x hx
  apply hok'.phase
  · simp [Phase.isAway]
  · rw [hphase]
    rfl
  · rw [hphase]
    rfl
  · exact fun _ => rfl
  · simp
  · simp

theorem loadTask_isNew (cfg : Config α π ρ) (d : NodeId) {z : Task α} (hown : isOwn z = true)
    (hr : z.isRunDisabled = false) (hm : z.isModuleComplete = false) (hc : z.isComplete = false) :
    isNew (loadTask cfg d z) = true ∧ isOwn (loadTask cfg d z) = true ∧
      isRemote (cfg.at d) (loadTask cfg d z) = false := by
  refine ⟨?_, ?_, ?_⟩
  · simp only [Task.isRunDisabled, Task.isModuleComplete, Task.isComplete] at hr hm hc
    simp [isNew, loadTask, Task.isStarted, Task.isRunDisabled, Task.isModuleComplete, Task.isComplete,
      Task.unsetFireAndForget, Task.unsetStarted, Task.unsetMarked, Task.unsetDataOwner, Task.unsetLongRunning,
      Task.unsetFlag, taskFireAndForget, taskHasStarted, taskMarked, taskDataOwner, taskLongRunning,
      taskUnordered, taskDisableRun, taskModuleComplete, taskComplete, Bitfield.unsetBits_or,
      Bitfield.any_unsetBits] at hr hm hc ⊢
    simp [hr, hm, hc]
  · have hbody : ∀ f : α → α, isOwn (mapOwn f z) = true := fun f => (Kept.mapOwn f z).isOwn.trans hown
    exact hbody _
  · have hd : (loadTask cfg d z).domainId = DomainId.getNode d := rfl
    rw [isRemote, hd]
    by_contra hne
    have hnode := (DomainId.isRemote_getNode _ _ _).mp (by simpa using hne)
    exact hnode.2 rfl

theorem PushOk.copy_isNew (h : Inv cfg s) (hok : PushOk cfg s k p x) {z : Task α} (hz : s.xfer k p = some z)
    (d : NodeId) : isNew (loadTask cfg d z) = true ∧ isOwn (loadTask cfg d z) = true ∧
      isRemote (cfg.at d) (loadTask cfg d z) = false := by
  obtain ⟨z', hz', -, -, hown, hdis, hmod, hcom⟩ := (hok.sent h).saved
  rw [hz, Option.some.injEq] at hz'
  subst hz'
  exact loadTask_isNew cfg d hown hdis hmod hcom

theorem copy_pushOk (h : Inv cfg s) (hok : PushOk cfg s k p x) (hphase : x.phase = .sent) {domain : DomainId}
    (hdom : x.info.domainIds[x.replica]? = some domain) {c : TaskPtr} (hview : ∀ d, t.view d = s.view d)
    (hxf : t.xfer = s.xfer)
    (hself : t.history k p = { s.history k p with copies := (s.history k p).copies ++ [(domain.id, c)] }) :
    PushOk cfg t k p { x with phase := .waiting c } := by
  have hlt : x.replica < x.info.domainIds.length := (List.getElem?_eq_some_iff.mp hdom).1
  have hlen : (s.history k p).copies.length = x.replica := by
    have hl := congrArg List.length hok.targets
    rw [hphase] at hl
    simp only [List.length_map, List.length_take, Phase.hasCopy, Bool.false_eq_true, if_false] at hl
    omega
  have hmem (d : NodeId) (q : TaskPtr) : t.mem d q = s.mem d q :=
    congrArg (fun v : TasksView α => v.mem q) (hview d)
  have hframe (d : NodeId) : Frame (s.view d) (t.view d) := by
    rw [hview]
    exact Frame.refl _
  refine ⟨by rw [hview]; exact hok.task, by rw [hmem]; exact hok.info, hok.orig, by rw [hmem]; exact hok.disabled,
    hok.bound, fun _ => hlt, by simp [Phase.isLate], ?_, ?_, ?_, ?_, by simp, ?_, ?_⟩
  · rw [hself]
    exact hok.loaded
  · have hends := hok.ends
    rw [hphase] at hends
    rw [hself]
    exact hends
  · have htargets := hok.targets
    rw [hphase] at htargets
    simp only [Phase.hasCopy, Bool.false_eq_true, if_false, Nat.add_zero] at htargets
    rw [hself]
    simp only [List.map_append, List.map_singleton, Phase.hasCopy, if_true]
    rw [htargets, List.take_add_one, List.getElem?_map, hdom]
    rfl
  · intro c' hc'
    cases hc'
    refine ⟨domain.id, ?_⟩
    rw [hself, ← hlen]
    simp
  · obtain ⟨outs, houts, hend, hg⟩ := hok.gathered
    rw [hphase] at hg
    have hmore : ∃ l, (t.history k p).copies = (s.history k p).copies ++ l := ⟨_, by rw [hself]⟩
    exact ⟨outs, houts, fun j a hj => (hend j a hj).frame hframe hmore, hg.same (by rw [hxf]) (by rw [hmem])⟩
  · rw [hmem]
    intro hm
    rw [(hok.live h (by rw [hphase]; rfl)).1] at hm
    cases hm

theorem inv_copy (h : Inv cfg s) (hok : PushOk cfg s k p x) (hphase : x.phase = .sent) {domain : DomainId}
    (hdom : x.info.domainIds[x.replica]? = some domain) {c : TaskPtr} (hc : c < (s.view domain.id).next)
    (hlocal : isRemote (cfg.at domain.id) (s.mem domain.id c) = false)
    (hown : isOwn (s.mem domain.id c) = true) (hfresh : (domain.id, c) ∉ (s.history k p).copies) :
    Inv cfg ((s.setPush k p { x with phase := .waiting c }).record k p
      fun h => { h with copies := h.copies ++ [(domain.id, c)] }) := by
  generalize ht : (s.setPush k p { x with phase := .waiting c }).record k p
    (fun h => { h with copies := h.copies ++ [(domain.id, c)] }) = t
  have hhist : t.history = update₂ s.history k p
      { s.history k p with copies := (s.history k p).copies ++ [(domain.id, c)] } := by rw [← ht]; rfl
  have hself : t.history k p = { s.history k p with copies := (s.history k p).copies ++ [(domain.id, c)] } := by
    rw [hhist, update₂_self]
  have hview : ∀ d, t.view d = s.view d := by rw [← ht]; exact fun _ => rfl
  have hmem : ∀ d q, t.mem d q = s.mem d q := by rw [← ht]; exact fun _ _ => rfl
  have hpush : t.pushes = update₂ s.pushes k p (some { x with phase := .waiting c }) := by rw [← ht]; rfl
  have hxf : t.xfer = s.xfer := by rw [← ht]; rfl
  have hnodes : t.nodes = s.nodes := by rw [← ht]; rfl
  have hframe : ∀ d, Frame (s.view d) (t.view d) := fun d => by rw [hview]; exact Frame.refl _
  have hdisp : ∀ d q, (t.history d q).dispersed = (s.history d q).dispersed := by
    intro d q
    by_cases hdq : d = k ∧ q = p
    · rw [hdq.1, hdq.2, hself]
    · rw [hhist, update₂_of_ne _ _ hdq]
  have hokt := copy_pushOk h hok hphase hdom hview hxf hself
  refine ⟨?_, ?_, ?_, ?_, ?_⟩
  · rw [hnodes]
    exact h.lanes
  · intro d
    rw [hview]
    exact h.node d
  · intro d w r hr hm
    rw [hview] at hr
    rw [hdisp]
    exact h.running d w r hr hm
  · intro d q i hq hi
    rw [hview] at hq
    rw [hmem] at hi
    rw [hdisp]
    exact h.made d q i hq hi
  · intro d q
    by_cases hdq : d = k ∧ q = p
    · obtain ⟨rfl, rfl⟩ := hdq
      refine task_of_push (h.task d q) hframe ?_ (by rw [hself]) (hdisp d q) (by rw [hpush, update₂_self]) hokt ?_ ?_
      · intro hs
        refine ⟨(hdisp d q).trans hs.once, by rw [hview]; exact hs.known, by rw [hmem]; exact hs.remote,
          by rw [hview]; exact hs.dispersed, ?_⟩
        rw [hxf, hmem]
        exact hs.saved
      · rw [hself]
        intro d' c' hmem'
        rcases List.mem_append.mp hmem' with hold | hnew
        · exact Or.inl hold
        · rw [List.mem_singleton, Prod.mk.injEq] at hnew
          obtain ⟨rfl, rfl⟩ := hnew
          rw [hview, hmem]
          exact Or.inr ⟨hc, hlocal, hown⟩
      · rw [hself]
        refine List.nodup_append.mpr ⟨(h.task d q).nodup, List.nodup_singleton _, ?_⟩
        intro a ha b hb heq
        rw [List.mem_singleton.mp hb] at heq
        exact hfresh (heq ▸ ha)
    · have hcalm : Calm cfg s t d q := by
        refine calm_of_view hview (by rw [hxf]) ?_ ?_
        · rw [hpush, update₂_of_ne _ _ hdq]
        · rw [hhist, update₂_of_ne _ _ hdq]
      exact hcalm.task (h.node d) (h.task d q)

theorem rpcExec_inv (h : Inv cfg s) (hx : s.pushes k p = some x) (hphase : x.phase = .sent) {domain : DomainId}
    (hdom : x.info.domainIds[x.replica]? = some domain) {z : Task α} (hz : s.xfer k p = some z) {u : Poll.State α}
    (hu : Poll.step (cfg.at domain.id) (s.nodes domain.id) (.emplace ((cfg.at domain.id).laneFor x.info.exec.id
      (loadTask cfg domain.id z).prio (loadTask cfg domain.id z).laneHash) (loadTask cfg domain.id z)) = some u) :
    Inv cfg (((s.setNode domain.id u).setPush k p { x with phase := .waiting (s.nodes domain.id).next }).record k p
      fun h => { h with copies := h.copies ++ [(domain.id, (s.nodes domain.id).next)] }) := by
  obtain ⟨hnew, howned, hlocal⟩ := ((h.task k p).push x hx).copy_isNew h hz domain.id
  -- the server's node takes the step of any other client, and then the push hears of it
  have hallowed : allowed (s.view domain.id) (.emplace ((cfg.at domain.id).laneFor x.info.exec.id
    (loadTask cfg domain.id z).prio (loadTask cfg domain.id z).laneHash) (loadTask cfg domain.id z)) = true := hnew
  have hn : NodesOk cfg s (s.setNode domain.id u) domain.id _ := nodesOk_of_step h hallowed hu rfl
  obtain ⟨-, htr⟩ := step_transition hu
  have hview : (s.setNode domain.id u).view domain.id =
      (s.view domain.id).new (loadTask cfg domain.id z) := by
    rw [view_setNode_self]
    cases htr with
    | emplace l y hroom hyown => exact State.tasksView_emplace ..
  have hmid : Inv cfg (s.setNode domain.id u) := by
    refine inv_quiet h hn ?_ rfl rfl rfl
    intro w r hr
    rw [hview] at hr
    exact Or.inr ⟨r, hr, rfl, rfl⟩
  have hmem : (s.setNode domain.id u).mem domain.id (s.nodes domain.id).next = loadTask cfg domain.id z := by
    show ((s.setNode domain.id u).view domain.id).mem (s.view domain.id).next = _
    rw [hview]
    exact TasksView.new_self ..
  refine inv_copy hmid ((hmid.task k p).push x hx) hphase hdom ?_ ?_ ?_ ?_
  · rw [hview]
    exact Nat.lt_succ_self _
  · rw [hmem]
    exact hlocal
  · rw [hmem]
    exact howned
  · intro hold
    exact Nat.lt_irrefl _ ((h.task k p).copies _ _ hold).1

theorem step_inv (h : Inv cfg s) {l : Label α} (hst : step cfg s l = some t) : Inv cfg t := by
  cases step_cases cfg hst with
  | node k l _ hw => exact nodeStep_inv h hw
  | thread k p out _ hd hr ho hk he hw => exact threadStep_inv h hr hk he hw
  | start k p x hx hp hh =>
    apply inv_setPush h
    apply ((h.task k p).push x hx).phase <;> simp [hp, Phase.isAway, Phase.isLate, Phase.hasCopy, Phase.isOver]
  | fatal k p x hx hp hh => exact inv_halt h k
  | call k p x hx hp hj hh =>
    apply inv_setPush h
    apply ((h.task k p).push x hx).phase <;> simp [hp, Phase.isAway, Phase.isLate, Phase.hasCopy, Phase.isOver, hj]
  | rpcFatal k p x domain hx hp hdom hnone => exact inv_halt h _
  | rpcExec k p x domain z u hx hp hdom hz hu => exact rpcExec_inv h hx hp hdom hz hu
  | rpcComplete k p x domain copy ret hx hp hdom hc hh hret => exact rpcComplete_inv h hx hp hdom hc hret
  | output k p x ret _ hx hp hw => exact output_inv h hx hp hw
  | replicateEnd k p x _ hx hp hall hw => exact replicateEnd_inv h hx hp hall hw
  | completeOrig k p x _ hx hp hw => exact completeOrig_inv h hx hp hw
  | completePush k p x _ hx hp hw => exact completePush_inv h hx hp hw

end PushStep

end HermesRun.RemoteQueue
