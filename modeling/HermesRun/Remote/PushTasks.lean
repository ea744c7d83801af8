import HermesRun.Remote.RemoteQueue

namespace HermesRun.RemoteQueue

open Poll

variable {α : Type}

structure Kept (t t' : Task α) : Prop where
  taskState : t'.taskState = t.taskState
  domainId : t'.domainId = t.domainId
  pushInfo : t'.body.pushInfo = t.body.pushInfo
  runDisabled : t.isRunDisabled = true → t'.isRunDisabled = true
  moduleComplete : t.isModuleComplete = true → t'.isModuleComplete = true
  preemptive : t'.isPreemptive = t.isPreemptive
  coroutine : t.isCoroutine = false → t'.isCoroutine = false

namespace Kept

variable {t t' t'' : Task α}

theorem refl (t : Task α) : Kept t t := ⟨rfl, rfl, rfl, id, id, rfl, id⟩

theorem trans (h : Kept t t') (h' : Kept t' t'') : Kept t t'' where
  taskState := h'.taskState.trans h.taskState
  domainId := h'.domainId.trans h.domainId
  pushInfo := h'.pushInfo.trans h.pushInfo
  runDisabled := h'.runDisabled ∘ h.runDisabled
  moduleComplete := h'.moduleComplete ∘ h.moduleComplete
  preemptive := h'.preemptive.trans h.preemptive
  coroutine := h'.coroutine ∘ h.coroutine

theorem isRemote (h : Kept t t') (cfg : Poll.Config α) : isRemote cfg t' = isRemote cfg t := by
  rw [Poll.isRemote, Poll.isRemote, h.domainId]

theorem isOwn (h : Kept t t') : isOwn t' = isOwn t := by rw [Poll.isOwn, Poll.isOwn, h.pushInfo]

theorem setModuleComplete (t : Task α) : Kept t t.setModuleComplete :=
  ⟨rfl, rfl, rfl, by simp, by simp, by simp, by simp⟩

theorem setComplete (t : Task α) : Kept t t.setComplete := ⟨rfl, rfl, rfl, by simp, by simp, by simp, by simp⟩

theorem setStarted (t : Task α) : Kept t t.setStarted := ⟨rfl, rfl, rfl, by simp, by simp, by simp, by simp⟩

theorem disableRun (t : Task α) : Kept t t.disableRun := ⟨rfl, rfl, rfl, by simp, by simp, by simp, by simp⟩

theorem unsetCoroutine (t : Task α) : Kept t t.unsetCoroutine :=
  ⟨rfl, rfl, rfl, by simp, by simp, by simp, by simp⟩

theorem body (t : Task α) {b : Body α} (hb : b.pushInfo = t.body.pushInfo) : Kept t { t with body := b } :=
  ⟨rfl, rfl, hb, id, id, rfl, id⟩

theorem mapOwn (f : α → α) (t : Task α) : Kept t (mapOwn f t) := by
  unfold RemoteQueue.mapOwn
  split
  · next a ha => exact Kept.body t (by rw [ha]; rfl)
  · exact Kept.refl t

theorem handler {out : Task α} (h : handlerKeeps t out = true) (hp : out.body.pushInfo = t.body.pushInfo) :
    Kept t out := by
  simp only [handlerKeeps, Bool.and_eq_true, Bool.or_eq_true, decide_eq_true_eq] at h
  obtain ⟨⟨⟨⟨⟨hstate, -⟩, hdomain⟩, -⟩, -⟩, hflags⟩ := h
  have hsame : ∀ u : Task α, out.taskFlags = u.taskFlags → out.isRunDisabled = u.isRunDisabled ∧
      out.isModuleComplete = u.isModuleComplete ∧ out.isPreemptive = u.isPreemptive ∧
      out.isCoroutine = u.isCoroutine := by
    intro u hu
    simp [Task.isRunDisabled, Task.isModuleComplete, Task.isPreemptive, Task.isCoroutine, hu]
  rcases hflags with hflags | hflags
  · obtain ⟨hr, hm, hpre, hco⟩ := hsame t hflags
    exact ⟨hstate, hdomain, hp, by rw [hr]; exact id, by rw [hm]; exact id, hpre, by rw [hco]; exact id⟩
  · obtain ⟨hr, hm, hpre, hco⟩ := hsame t.setModuleComplete hflags
    exact ⟨hstate, hdomain, hp, by rw [hr]; simp, by rw [hm]; simp, by rw [hpre]; simp, by rw [hco]; simp⟩

theorem replicateStart (cfg : Poll.Config α) (exec : Instance) (t : Task α) :
    Kept t (replicateStart cfg exec t) := by
  unfold Poll.replicateStart
  split
  · next a ha => exact Kept.body t (by rw [ha]; rfl)
  · exact Kept.refl t

theorem execute (cfg : Poll.Config α) (t : Task α) (p : TaskPtr) (exec : Instance)
    (es : List (LaneRef × Task α)) : Kept t (execute cfg t p exec es).task := by
  unfold Poll.execute
  split_ifs
  · exact Kept.replicateStart cfg exec t
  · exact Kept.refl t
  · exact Kept.setStarted t
  · exact Kept.disableRun t
  · exact Kept.setStarted t

theorem ranTask (r : Running α) {out : Task α} (hout : r.mode.runs = true → handlerKeeps t out = true)
    (hp : out.body.pushInfo = t.body.pushInfo) : Kept t (ranTask r t out) := by
  rcases ranTask_cases r t out with ⟨hruns, heq⟩ | ⟨-, heq⟩ | ⟨-, heq⟩
  · rw [heq]
    exact Kept.handler (hout hruns) hp
  · rw [heq]
    exact Kept.refl t
  · rw [heq]
    exact (Kept.disableRun t).trans (Kept.unsetCoroutine _)

end Kept

theorem handler_any {t out : Task α} (h : handlerKeeps t out = true) {mask : Bitfield.Flags}
    (hmask : Bitfield.any t.setModuleComplete.taskFlags mask = Bitfield.any t.taskFlags mask) :
    Bitfield.any out.taskFlags mask = Bitfield.any t.taskFlags mask := by
  simp only [handlerKeeps, Bool.and_eq_true, Bool.or_eq_true, decide_eq_true_eq] at h
  rcases h.2 with hflags | hflags
  · rw [hflags]
  · rw [hflags, hmask]

theorem handler_isComplete {t out : Task α} (h : handlerKeeps t out = true) : out.isComplete = t.isComplete :=
  handler_any h t.setModuleComplete_isComplete

theorem execute_flag (cfg : Poll.Config α) (t : Task α) (p : TaskPtr) (exec : Instance)
    (es : List (LaneRef × Task α)) {flag : Task α → Bool} (hbody : ∀ t b, flag { t with body := b } = flag t)
    (hstart : ∀ t, flag t.setStarted = flag t) (hdisable : ∀ t, flag t.disableRun = flag t) :
    flag (execute cfg t p exec es).task = flag t := by
  unfold execute replicateStart
  split_ifs
  · cases hb : t.body with
    | own a => exact hbody t _
    | push i => rfl
  · rfl
  · exact hstart t
  · exact hdisable t
  · exact hstart t

theorem execute_isComplete (cfg : Poll.Config α) (t : Task α) (p : TaskPtr) (exec : Instance)
    (es : List (LaneRef × Task α)) : (execute cfg t p exec es).task.isComplete = t.isComplete :=
  execute_flag cfg t p exec es (fun _ _ => rfl) (by simp) (by simp)

theorem execute_isModuleComplete (cfg : Poll.Config α) (t : Task α) (p : TaskPtr) (exec : Instance)
    (es : List (LaneRef × Task α)) : (execute cfg t p exec es).task.isModuleComplete = t.isModuleComplete :=
  execute_flag cfg t p exec es (fun _ _ => rfl) (by simp) (by simp)

theorem ranTask_isComplete (r : Running α) {t out : Task α}
    (hout : r.mode.runs = true → out.isComplete = t.isComplete) : (ranTask r t out).isComplete = t.isComplete := by
  rcases ranTask_cases r t out with ⟨hruns, heq⟩ | ⟨-, heq⟩ | ⟨-, heq⟩
  · rw [heq, hout hruns]
  · rw [heq]
  · rw [heq]
    simp [Task.setUnordered]

theorem ranTask_remote {r : Running α} (t out : Task α) (h : r.mode = .disperse ∨ r.mode = .skip) :
    (ranTask r t out).method = t.method ∧ (ranTask r t out).body = t.body ∧
      (ranTask r t out).isModuleComplete = t.isModuleComplete ∧
      (r.mode = .disperse → (ranTask r t out).isRunDisabled = true) := by
  unfold ranTask
  rcases h with h | h
  · rw [h]
    exact ⟨rfl, rfl, by simp [Task.setUnordered], fun _ => by simp [Task.setUnordered]⟩
  · rw [h]
    exact ⟨rfl, rfl, rfl, fun hm => by cases hm⟩

theorem execute_remote {cfg : Poll.Config α} {t : Task α} (h : isRemote cfg t = true) (p : TaskPtr)
    (exec : Instance) (es : List (LaneRef × Task α)) : execute cfg t p exec es =
      ⟨replicateStart cfg exec t, .disperse,
        [(cfg.laneFor cfg.remoteQueue t.prio t.laneHash, pushTask cfg t p exec)], []⟩ := by
  rw [execute, if_pos h]

theorem execute_local {cfg : Poll.Config α} {t : Task α} (h : isRemote cfg t = false) (p : TaskPtr)
    (exec : Instance) (es : List (LaneRef × Task α)) : (execute cfg t p exec es).mode ≠ .disperse ∧
      ∀ e ∈ (execute cfg t p exec es).emplaces, e ∈ es := by
  rw [execute, if_neg (by simp [h])]
  split_ifs <;> simp

theorem execute_local_mode {cfg : Poll.Config α} {t : Task α} (h : isRemote cfg t = false) (p : TaskPtr)
    (exec : Instance) (es : List (LaneRef × Task α)) : (execute cfg t p exec es).mode.runs = true ∨
      (execute cfg t p exec es).mode = .spawn := by
  rw [execute, if_neg (by simp [h])]
  split_ifs <;> simp [Mode.runs]

theorem execute_push {cfg : Poll.Config α} {t : Task α} (h : isRemote cfg t = false)
    (hc : t.isCoroutine = false) (hp : t.isPreemptive = true) (p : TaskPtr) (exec : Instance)
    (es : List (LaneRef × Task α)) : execute cfg t p exec es = ⟨t.disableRun, .spawn, [], []⟩ := by
  rw [execute, if_neg (by simp [h]), if_neg (by simp [hc]), if_pos hp]

structure PushFor (cfg : Poll.Config α) (mem : TaskPtr → Task α) (y : Task α) (i : PushInfo) : Prop where
  pushInfo : y.body.pushInfo = some i
  notRemote : isRemote cfg y = false
  coroutine : y.isCoroutine = false
  preemptive : y.isPreemptive = true
  remote : isRemote cfg (mem i.origTask) = true
  domainIds : i.domainIds = resolveDomainId cfg.numHosts (mem i.origTask).domainId
  exec : i.exec.id = (mem i.origTask).taskState
  method : i.execMethod = (mem i.origTask).method

theorem PushFor.kept {cfg : Poll.Config α} {mem mem' : TaskPtr → Task α} {y y' : Task α} {i : PushInfo}
    (h : PushFor cfg mem y i) (hy : Kept y y') (ho : Kept (mem i.origTask) (mem' i.origTask))
    (hm : (mem' i.origTask).method = (mem i.origTask).method) : PushFor cfg mem' y' i where
  pushInfo := hy.pushInfo.trans h.pushInfo
  notRemote := (hy.isRemote cfg).trans h.notRemote
  coroutine := hy.coroutine h.coroutine
  preemptive := hy.preemptive.trans h.preemptive
  remote := (ho.isRemote cfg).trans h.remote
  domainIds := by rw [ho.domainId]; exact h.domainIds
  exec := by rw [ho.taskState]; exact h.exec
  method := by rw [hm]; exact h.method

theorem pushFor_pushTask {cfg : Poll.Config α} {mem : TaskPtr → Task α} {p : TaskPtr} {t : Task α}
    (hr : isRemote cfg t = true) (hp : Kept t (mem p)) (hm : (mem p).method = t.method) (exec : Instance)
    (he : exec.id = t.taskState) : PushFor cfg mem (pushTask cfg t p exec)
      ⟨resolveDomainId cfg.numHosts t.domainId, p, exec, t.method⟩ where
  pushInfo := rfl
  notRemote := DomainId.isRemote_getLocal _ _
  coroutine := by
    show Bitfield.any (Bitfield.setBits 0#32 (taskLowLatency ||| taskPreemptive ||| taskRemoteDebugMark))
      taskCoroutine = false
    decide
  preemptive := by
    show Bitfield.any (Bitfield.setBits 0#32 (taskLowLatency ||| taskPreemptive ||| taskRemoteDebugMark))
      taskPreemptive = true
    decide
  remote := (hp.isRemote cfg).trans hr
  domainIds := by rw [hp.domainId]
  exec := by rw [hp.taskState]; exact he
  method := hm.symm

def Dispersed (v : TasksView α) (p : TaskPtr) : Prop :=
  (v.mem p).isRunDisabled = true ∨ ∃ w r, v.running w = some r ∧ r.task = p ∧ r.mode = .disperse

structure RunOk (cfg : Poll.Config α) (v : TasksView α) (r : Running α) : Prop where
  disperses : r.mode = .disperse → isRemote cfg (v.mem r.task) = true
  runs : r.mode ≠ .disperse → r.mode ≠ .skip → isRemote cfg (v.mem r.task) = false
  emplaces : ∀ e ∈ r.emplaces, isNew e.2 = true
  pending : ∀ e i, e ∈ r.emplaces → e.2.body.pushInfo = some i →
    r.emplaces = [e] ∧ r.mode = .disperse ∧ i.origTask = r.task ∧ PushFor cfg v.mem e.2 i ∧
      ∀ q i', q < v.next → (v.mem q).body.pushInfo = some i' → i'.origTask ≠ r.task

structure NodeInv (cfg : Poll.Config α) (v : TasksView α) : Prop where
  running : ∀ w r, v.running w = some r → RunOk cfg v r
  complete : ∀ p, p < v.next → (v.mem p).isComplete = true → v.ended p
  ended : ∀ p, v.ended p → p < v.next ∧ (v.mem p).isModuleComplete = true
  pushes : ∀ q i, q < v.next → (v.mem q).body.pushInfo = some i →
    PushFor cfg v.mem (v.mem q) i ∧ i.origTask < v.next ∧ Dispersed v i.origTask
  unique : ∀ q q' i i', q < v.next → q' < v.next → (v.mem q).body.pushInfo = some i →
    (v.mem q').body.pushInfo = some i' → i.origTask = i'.origTask → q = q'

structure Exclusive (v : TasksView α) : Prop where
  known : ∀ w r, v.running w = some r → r.task < v.next ∧ ¬v.ended r.task
  unique : ∀ w w' r r', v.running w = some r → v.running w' = some r' → r'.task = r.task → w' = w

theorem Exclusive.setRunning {v : TasksView α} (h : Exclusive v) {w : WorkerId} {r : Running α}
    (hr : v.running w = some r) (r' : Running α) (ht : r'.task = r.task) :
    Exclusive (v.setRunning w (some r')) := by
  have hsame : ∀ w₁ r₁, (v.setRunning w (some r')).running w₁ = some r₁ →
      ∃ r₀, v.running w₁ = some r₀ ∧ r₀.task = r₁.task := by
    intro w₁ r₁ h₁
    by_cases hw : w₁ = w
    · subst hw
      rw [TasksView.setRunning_self, Option.some.injEq] at h₁
      exact ⟨r, hr, by rw [← h₁, ht]⟩
    · rw [v.setRunning_of_ne _ hw] at h₁
      exact ⟨r₁, h₁, rfl⟩
  refine ⟨?_, ?_⟩
  · intro w₁ r₁ h₁
    obtain ⟨r₀, h₀, ht₀⟩ := hsame w₁ r₁ h₁
    rw [← ht₀]
    exact h.known w₁ r₀ h₀
  · intro w₁ w₂ r₁ r₂ h₁ h₂ htask
    obtain ⟨r₀, h₀, ht₀⟩ := hsame w₁ r₁ h₁
    obtain ⟨r₃, h₃, ht₃⟩ := hsame w₂ r₂ h₂
    exact h.unique w₁ w₂ r₀ r₃ h₀ h₃ (by rw [ht₀, ht₃, htask])

theorem exclusive_of_lanes {cfg : Poll.Config α} {s : Poll.State α}
    (h : ScannedFifo.Inv cfg.owner s.lanesView) (hh : s.halted = false) : Exclusive s.tasksView :=
  ⟨fun _ _ hr => running_known h hh hr, fun _ _ _ _ hr hr' => running_unique h hh hr hr'⟩

theorem Exclusive.step {cfg : Poll.Config α} {v v' : TasksView α} {i : Poll.Label α} (h : Exclusive v)
    (hst : TaskStep cfg v i v') {w : WorkerId} {r : Running α} (hr : v'.running w = some r) :
    r.task < v'.next ∧ ¬v'.ended r.task := by
  have horigin := hst.runOrigin hr
  have hold : r.task < v.next ∧ ¬v.ended r.task := by
    cases horigin with
    | same hr => exact h.known w r hr
    | skip es hi hidle hm he => exact ⟨hidle.known, hidle.notEnded⟩
    | start es exec hi hidle heq => exact ⟨hidle.known, hidle.notEnded⟩
    | put r₀ hi hr₀ ht hm he =>
      rw [ht]
      exact h.known w r₀ hr₀
  refine ⟨Nat.lt_of_lt_of_le hold.1 hst.next_le, ?_⟩
  intro hend
  rcases hst.ends hend with hend | ⟨w₀, out, r₀, rfl, hr₀, ht₀, hnone⟩
  · exact hold.2 hend
  · cases horigin with
    | same hrun =>
      have hw := h.unique w₀ w r₀ r hr₀ hrun ht₀.symm
      subst hw
      rw [hnone] at hr
      cases hr
    | skip es hi => cases hi
    | start es exec hi => cases hi
    | put r₁ hi => cases hi

theorem complete_ended {cfg : Poll.Config α} {v v' : TasksView α} {i : Poll.Label α} (hst : TaskStep cfg v i v')
    (hold : ∀ p, p < v.next → (v.mem p).isComplete = true → v.ended p)
    (hran : ∀ w out r, i = .finish w out → v.running w = some r →
      (Poll.ranTask r (v.mem r.task) out).isComplete = (v.mem r.task).isComplete)
    (hwrite : ∀ p x, i = .write p x → x.isComplete = (v.mem p).isComplete)
    (hnew : ∀ p, v.next ≤ p → p < v'.next → (v'.mem p).isComplete = false) {p : TaskPtr} (hp : p < v'.next)
    (hc : (v'.mem p).isComplete = true) : v'.ended p := by
  by_cases hlt : p < v.next
  · cases hst.move hlt with
    | same hm =>
      rw [hm] at hc
      exact hst.ended (hold p hlt hc)
    | start w es exec hi hidle hr hm =>
      rw [hm, execute_isComplete] at hc
      exact hst.ended (hold p hlt hc)
    | ran w out r hi hr ht he hm =>
      rcases hm with hm | ⟨-, hend, -⟩
      · rw [hm, ← ht, hran w out r hi hr, ht] at hc
        exact hst.ended (hold p hlt hc)
      · exact hend
    | write x hi hm =>
      rw [hm, hwrite p x hi] at hc
      exact hst.ended (hold p hlt hc)
  · rw [hnew p (Nat.le_of_not_lt hlt) hp] at hc
    cases hc

namespace NodeInv

variable {cfg : Poll.Config α} {v : TasksView α}

theorem setTask (h : NodeInv cfg v) {p : TaskPtr} {x : Task α} (hk : Kept (v.mem p) x)
    (hm : isRemote cfg (v.mem p) = true → x.method = (v.mem p).method)
    (hc : x.isComplete = true → (v.mem p).isComplete = true ∨ v.ended p) : NodeInv cfg (v.setTask p x) := by
  have hkept : ∀ q, Kept (v.mem q) ((v.setTask p x).mem q) := by
    intro q
    by_cases hq : q = p
    · subst hq
      rw [TasksView.setTask_self]
      exact hk
    · rw [v.setTask_of_ne x hq]
      exact Kept.refl _
  have hmethod : ∀ q, isRemote cfg (v.mem q) = true → ((v.setTask p x).mem q).method = (v.mem q).method := by
    intro q hr
    by_cases hq : q = p
    · subst hq
      rw [TasksView.setTask_self]
      exact hm hr
    · rw [v.setTask_of_ne x hq]
  have hpush : ∀ y y' i, PushFor cfg v.mem y i → Kept y y' → PushFor cfg (v.setTask p x).mem y' i := by
    intro y y' i hy hyy
    exact hy.kept hyy (hkept _) (hmethod _ hy.remote)
  have hinfo : ∀ q, ((v.setTask p x).mem q).body.pushInfo = (v.mem q).body.pushInfo := fun q => (hkept q).pushInfo
  refine ⟨?_, ?_, ?_, ?_, ?_⟩
  · intro w r hr
    have hok := h.running w r hr
    refine ⟨?_, ?_, hok.emplaces, ?_⟩
    · intro hd
      rw [(hkept _).isRemote]
      exact hok.disperses hd
    · intro hd hs
      rw [(hkept _).isRemote]
      exact hok.runs hd hs
    · intro e i he hi
      obtain ⟨hone, hmode, horig, hfor, hfresh⟩ := hok.pending e i he hi
      refine ⟨hone, hmode, horig, hpush _ _ i hfor (Kept.refl _), ?_⟩
      intro q i' hq hi'
      rw [hinfo] at hi'
      exact hfresh q i' hq hi'
  · intro q hq hcq
    by_cases hqp : q = p
    · subst hqp
      rw [TasksView.setTask_self] at hcq
      rcases hc hcq with hc | hc
      · exact h.complete q hq hc
      · exact hc
    · rw [v.setTask_of_ne x hqp] at hcq
      exact h.complete q hq hcq
  · intro q hq
    exact ⟨(h.ended q hq).1, (hkept q).moduleComplete (h.ended q hq).2⟩
  · intro q i hq hi
    rw [hinfo] at hi
    obtain ⟨hfor, hlt, hdis⟩ := h.pushes q i hq hi
    refine ⟨hpush _ _ i hfor (hkept q), hlt, ?_⟩
    rcases hdis with hdis | hdis
    · exact Or.inl ((hkept _).runDisabled hdis)
    · exact Or.inr hdis
  · intro q q' i i' hq hq' hi hi'
    rw [hinfo] at hi hi'
    exact h.unique q q' i i' hq hq' hi hi'

theorem setRunning (h : NodeInv cfg v) {w : WorkerId} {r : Option (Running α)}
    (hold : ∀ r₀, v.running w = some r₀ → r₀.mode = .disperse → (v.mem r₀.task).isRunDisabled = true ∨
      ∃ r₁, r = some r₁ ∧ r₁.task = r₀.task ∧ r₁.mode = .disperse)
    (hok : ∀ r₁, r = some r₁ → RunOk cfg v r₁) : NodeInv cfg (v.setRunning w r) := by
  refine ⟨?_, h.complete, h.ended, ?_, h.unique⟩
  · intro w' r' hr'
    by_cases hw : w' = w
    · subst hw
      rw [TasksView.setRunning_self] at hr'
      have hr := hok r' hr'
      exact ⟨hr.disperses, hr.runs, hr.emplaces, hr.pending⟩
    · rw [v.setRunning_of_ne r hw] at hr'
      have hr := h.running w' r' hr'
      exact ⟨hr.disperses, hr.runs, hr.emplaces, hr.pending⟩
  · intro q i hq hi
    obtain ⟨hfor, hlt, hdis⟩ := h.pushes q i hq hi
    refine ⟨hfor, hlt, ?_⟩
    rcases hdis with hdis | ⟨w', r', hr', ht, hm⟩
    · exact Or.inl hdis
    · by_cases hw : w' = w
      · subst hw
        rcases hold r' hr' hm with hd | ⟨r₁, hr₁, ht₁, hm₁⟩
        · exact Or.inl (ht ▸ hd)
        · exact Or.inr ⟨w', r₁, by rw [TasksView.setRunning_self, hr₁], ht₁.trans ht, hm₁⟩
      · exact Or.inr ⟨w', r', by rw [v.setRunning_of_ne r hw, hr'], ht, hm⟩

theorem setEnded (h : NodeInv cfg v) {p : TaskPtr} (hp : p < v.next)
    (hm : (v.mem p).isModuleComplete = true) : NodeInv cfg (v.setEnded p) := by
  refine ⟨?_, ?_, ?_, h.pushes, h.unique⟩
  · intro w r hr
    have hok := h.running w r hr
    exact ⟨hok.disperses, hok.runs, hok.emplaces, hok.pending⟩
  · intro q hq hc
    exact Or.inr (h.complete q hq hc)
  · rintro q (rfl | hq)
    · exact ⟨hp, hm⟩
    · exact h.ended q hq

theorem new_runOk {r : Running α} {x : Task α} (hok : RunOk cfg v r) (hr : r.task < v.next)
    (hfresh : ∀ e i, e ∈ r.emplaces → e.2.body.pushInfo = some i →
      ∀ i', x.body.pushInfo = some i' → i'.origTask ≠ r.task) : RunOk cfg (v.new x) r := by
  have hmem := v.new_of_lt x hr
  refine ⟨?_, ?_, hok.emplaces, ?_⟩
  · rw [hmem]
    exact hok.disperses
  · rw [hmem]
    exact hok.runs
  · intro e i he hi
    obtain ⟨hone, hmode, horig, hfor, hnone⟩ := hok.pending e i he hi
    refine ⟨hone, hmode, horig, ?_, ?_⟩
    · rw [← horig] at hmem
      exact hfor.kept (Kept.refl _) (by rw [hmem]; exact Kept.refl _) (by rw [hmem])
    · intro q i' hq hi'
      rcases Nat.lt_succ_iff_lt_or_eq.mp hq with hq | rfl
      · rw [v.new_of_lt x hq] at hi'
        exact hnone q i' hq hi'
      · rw [TasksView.new_self] at hi'
        exact hfresh e i he hi i' hi'

theorem new (h : NodeInv cfg v) {x : Task α} (hnew : isNew x = true)
    (hpush : ∀ i, x.body.pushInfo = some i → PushFor cfg v.mem x i ∧ i.origTask < v.next ∧
      Dispersed v i.origTask ∧ (∀ q i', q < v.next → (v.mem q).body.pushInfo = some i' →
        i'.origTask ≠ i.origTask))
    (hrun : ∀ w r, v.running w = some r → RunOk cfg (v.new x) r) : NodeInv cfg (v.new x) := by
  have hinfo : ∀ q i, q < v.next + 1 → ((v.new x).mem q).body.pushInfo = some i →
      q < v.next ∧ (v.mem q).body.pushInfo = some i ∨ q = v.next ∧ x.body.pushInfo = some i := by
    intro q i hq hi
    rcases Nat.lt_succ_iff_lt_or_eq.mp hq with hq | rfl
    · rw [v.new_of_lt x hq] at hi
      exact Or.inl ⟨hq, hi⟩
    · rw [TasksView.new_self] at hi
      exact Or.inr ⟨rfl, hi⟩
  have hfor : ∀ y i, PushFor cfg v.mem y i → i.origTask < v.next → PushFor cfg (v.new x).mem y i := by
    intro y i hy hlt
    have hmem := v.new_of_lt x hlt
    exact hy.kept (Kept.refl _) (by rw [hmem]; exact Kept.refl _) (by rw [hmem])
  have hdis : ∀ p, p < v.next → Dispersed v p → Dispersed (v.new x) p := by
    intro p hp hd
    rcases hd with hd | hd
    · exact Or.inl (by rw [v.new_of_lt x hp]; exact hd)
    · exact Or.inr hd
  simp only [isNew, Bool.and_eq_true, Bool.not_eq_true'] at hnew
  refine ⟨hrun, ?_, ?_, ?_, ?_⟩
  · intro p hp hc
    rcases Nat.lt_succ_iff_lt_or_eq.mp hp with hp | rfl
    · rw [v.new_of_lt x hp] at hc
      exact h.complete p hp hc
    · rw [TasksView.new_self, hnew.2] at hc
      cases hc
  · intro p hp
    obtain ⟨hlt, hm⟩ := h.ended p hp
    exact ⟨Nat.lt_succ_of_lt hlt, by rw [v.new_of_lt x hlt]; exact hm⟩
  · intro q i hq hi
    rcases hinfo q i hq hi with ⟨hq, hi⟩ | ⟨rfl, hpi⟩
    · obtain ⟨hf, hlt, hd⟩ := h.pushes q i hq hi
      rw [v.new_of_lt x hq]
      exact ⟨hfor _ i hf hlt, Nat.lt_succ_of_lt hlt, hdis _ hlt hd⟩
    · obtain ⟨hf, hlt, hd, -⟩ := hpush i hpi
      rw [TasksView.new_self]
      exact ⟨hfor _ i hf hlt, Nat.lt_succ_of_lt hlt, hdis _ hlt hd⟩
  · intro q q' i i' hq hq' hi hi' horig
    rcases hinfo q i hq hi with ⟨hlt, hold⟩ | ⟨rfl, hpi⟩ <;>
      rcases hinfo q' i' hq' hi' with ⟨hlt', hold'⟩ | ⟨rfl, hpi'⟩
    · exact h.unique q q' i i' hlt hlt' hold hold' horig
    · exact absurd horig ((hpush i' hpi').2.2.2 q i hlt hold)
    · exact absurd horig.symm ((hpush i hpi).2.2.2 q' i' hlt' hold')
    · rfl

theorem newOwn (h : NodeInv cfg v) (hx : Exclusive v) {x : Task α} (hnew : isNew x = true)
    (hown : x.body.pushInfo = none) : NodeInv cfg (v.new x) := by
  refine h.new hnew ?_ ?_
  · intro i hi
    rw [hown] at hi
    cases hi
  · intro w r hr
    refine new_runOk (h.running w r hr) (hx.known w r hr).1 ?_
    intro e i _ _ i' hi'
    rw [hown] at hi'
    cases hi'

theorem put (h : NodeInv cfg v) (hx : Exclusive v) {w : WorkerId} {r : Running α} {dst : LaneRef} {x : Task α}
    {es : List (LaneRef × Task α)} (hr : v.running w = some r) (he : r.emplaces = (dst, x) :: es) :
    NodeInv cfg ((v.new x).setRunning w (some { r with emplaces := es, blocked := false })) := by
  have hok := h.running w r hr
  have hhead : (dst, x) ∈ r.emplaces := by rw [he]; exact List.mem_cons_self
  have htail : ∀ e ∈ es, e ∈ r.emplaces := by
    intro e hmem
    rw [he]
    exact List.mem_cons_of_mem _ hmem
  have hnew := hok.emplaces (dst, x) hhead
  have hv : NodeInv cfg (v.setRunning w (some { r with emplaces := es, blocked := false })) := by
    refine h.setRunning ?_ ?_
    · intro r₀ hr₀ hm
      rw [hr, Option.some.injEq] at hr₀
      subst hr₀
      exact Or.inr ⟨_, rfl, rfl, hm⟩
    · intro r₁ hr₁
      cases hr₁
      refine ⟨hok.disperses, hok.runs, fun e hmem => hok.emplaces e (htail e hmem), ?_⟩
      intro e i hmem hi
      obtain ⟨hone, -⟩ := hok.pending e i (htail e hmem) hi
      rw [he, List.cons.injEq] at hone
      rw [show es = [] from hone.2] at hmem
      cases hmem
  have hxv := hx.setRunning hr { r with emplaces := es, blocked := false } rfl
  cases hi : x.body.pushInfo with
  | none => exact hv.newOwn hxv hnew hi
  | some i =>
    -- the push task itself: its worker has nothing else to emplace, and no other worker disperses this task
    obtain ⟨hone, hmode, horig, hfor, hfresh⟩ := hok.pending (dst, x) i hhead hi
    rw [he, List.cons.injEq] at hone
    obtain ⟨-, rfl⟩ := hone
    have hpushed : ∀ i', x.body.pushInfo = some i' → i' = i := by
      intro i' hi'
      rw [hi, Option.some.injEq] at hi'
      exact hi'.symm
    refine hv.new hnew ?_ ?_
    · intro i' hi'
      rw [hpushed i' hi']
      refine ⟨hfor, horig ▸ (hx.known w r hr).1, ?_, ?_⟩
      · exact Or.inr ⟨w, _, TasksView.setRunning_self .., horig.symm, hmode⟩
      · rw [horig]
        exact hfresh
    · intro w' r' hr'
      refine new_runOk (hv.running w' r' hr') (hxv.known w' r' hr').1 ?_
      intro e j hmem _ i' hi' htask
      rw [hpushed i' hi', horig] at htask
      have hw := hxv.unique w w' _ r' (TasksView.setRunning_self ..) hr' htask.symm
      subst hw
      rw [TasksView.setRunning_self, Option.some.injEq] at hr'
      subst hr'
      cases hmem

end NodeInv

theorem isNew_pushTask (cfg : Poll.Config α) (t : Task α) (p : TaskPtr) (exec : Instance) :
    isNew (pushTask cfg t p exec) = true := by
  have hflags : (pushTask cfg t p exec).taskFlags =
    Bitfield.setBits 0#32 (taskLowLatency ||| taskPreemptive ||| taskRemoteDebugMark) := rfl
  simp only [isNew, Task.isStarted, Task.isRunDisabled, Task.isModuleComplete, Task.isComplete, hflags]
  decide

theorem allowed_finish {v : TasksView α} {w : WorkerId} {out : Task α} {r : Running α}
    (ha : allowed v (.finish w out) = true) (hr : v.running w = some r) :
    r.mode.runs = true → handlerKeeps (v.mem r.task) out = true := by
  intro hm
  simpa [allowed, hr, hm] using ha

section Steps

variable {cfg : Poll.Config α} {v v' : TasksView α} {i : Poll.Label α}

theorem RunOk.of_mode {r : Running α} (hok : RunOk cfg v r) (hr : isRemote cfg (v.mem r.task) = true) :
    r.mode = .disperse ∨ r.mode = .skip := by
  by_contra hne
  rw [not_or] at hne
  rw [hok.runs hne.1 hne.2] at hr
  cases hr

theorem start_nodeInv (h : NodeInv cfg v) {w : WorkerId} {p : TaskPtr} {exec : Instance}
    {es : List (LaneRef × Task α)} (hidle : v.Idle p) (hw : v.running w = none)
    (hd : (v.mem p).isRunDisabled = false) (hexec : exec.id = (v.mem p).taskState)
    (hes : es.all (fun e => isOwn e.2) = true) (ha : es.all (fun e => isNew e.2) = true) :
    NodeInv cfg ((v.setTask p (execute cfg (v.mem p) p exec es).task).setRunning w
      (some (started cfg (v.mem p) p exec es))) := by
  have hkept := Kept.execute cfg (v.mem p) p exec es
  have hmethod : isRemote cfg (v.mem p) = true → (execute cfg (v.mem p) p exec es).task.method =
      (v.mem p).method := by
    intro hr
    rw [execute_remote hr, replicateStart]
    cases (v.mem p).body <;> rfl
  have hset : NodeInv cfg (v.setTask p (execute cfg (v.mem p) p exec es).task) := by
    refine h.setTask hkept hmethod ?_
    rw [execute_isComplete]
    exact Or.inl
  have hself := v.setTask_self p (execute cfg (v.mem p) p exec es).task
  refine hset.setRunning ?_ ?_
  · intro r₀ hr₀
    rw [show v.running w = some r₀ from hr₀] at hw
    cases hw
  · intro r hr
    cases hr
    cases hrem : isRemote cfg (v.mem p) with
    | true =>
      have hex := execute_remote hrem p exec es
      refine ⟨?_, ?_, ?_, ?_⟩
      · intro _
        show isRemote cfg ((v.setTask p _).mem p) = true
        rw [hself, hkept.isRemote, hrem]
      · intro hne
        exact absurd (by rw [started, hex]) hne
      · intro e he
        rw [started, hex] at he
        rw [List.mem_singleton.mp he]
        exact isNew_pushTask cfg _ p exec
      · intro e j he hj
        have hone : (started cfg (v.mem p) p exec es).emplaces =
            [(cfg.laneFor cfg.remoteQueue (v.mem p).prio (v.mem p).laneHash, pushTask cfg (v.mem p) p exec)] := by
          rw [started, hex]
        rw [hone] at he ⊢
        have he := List.mem_singleton.mp he
        subst he
        cases hj
        refine ⟨rfl, by rw [started, hex], rfl, ?_, ?_⟩
        · refine pushFor_pushTask hrem ?_ ?_ exec hexec
          · rw [hself]
            exact hkept
          · rw [hself]
            exact hmethod hrem
        · -- a push task for the same task would mean that it was dispersed before
          intro q j' hq hj' horig
          obtain ⟨-, -, hdis⟩ := hset.pushes q j' hq hj'
          have horig' : j'.origTask = p := horig
          rw [horig'] at hdis
          rcases hdis with hdis | ⟨w', r', hr', ht', -⟩
          · rw [hself, hex] at hdis
            have hsame : (replicateStart cfg exec (v.mem p)).isRunDisabled = (v.mem p).isRunDisabled := by
              rw [replicateStart]
              cases (v.mem p).body <;> rfl
            rw [hsame, hd] at hdis
            cases hdis
          · exact hidle.free w' r' hr' ht'
    | false =>
      obtain ⟨hmode, hemp⟩ := execute_local hrem p exec es
      have hremote : isRemote cfg ((v.setTask p (execute cfg (v.mem p) p exec es).task).mem p) = false := by
        rw [hself, hkept.isRemote, hrem]
      refine ⟨fun hm => absurd hm hmode, fun _ _ => hremote, ?_, ?_⟩
      · intro e he
        exact List.all_eq_true.mp ha e (hemp e he)
      · intro e j he hj
        have hown := List.all_eq_true.mp hes e (hemp e he)
        rw [isOwn, hj] at hown
        cases hown

theorem finish_nodeInv (h : NodeInv cfg v) {w : WorkerId} {r : Running α} {out : Task α}
    (hr : v.running w = some r) (he : r.emplaces = [])
    (hout : out.body.pushInfo = (v.mem r.task).body.pushInfo)
    (hh : r.mode.runs = true → handlerKeeps (v.mem r.task) out = true) :
    NodeInv cfg (v.setTask r.task (ranTask r (v.mem r.task) out)) ∧
      NodeInv cfg ((v.setTask r.task (ranTask r (v.mem r.task) out)).setRunning w none) := by
  have hset : NodeInv cfg (v.setTask r.task (ranTask r (v.mem r.task) out)) := by
    refine h.setTask (Kept.ranTask r hh hout) ?_ ?_
    · intro hrem
      exact (ranTask_remote _ _ ((h.running w r hr).of_mode hrem)).1
    · rw [ranTask_isComplete r (fun hruns => handler_isComplete (hh hruns))]
      exact Or.inl
  refine ⟨hset, hset.setRunning ?_ (by simp)⟩
  intro r₀ hr₀ hm
  rw [show v.running w = some r₀ from hr₀, Option.some.injEq] at hr
  subst hr
  rw [TasksView.setTask_self]
  exact Or.inl ((ranTask_remote _ _ (Or.inl hm)).2.2.2 hm)

theorem step_nodeInv (h : NodeInv cfg v) (hx : Exclusive v) (hst : TaskStep cfg v i v')
    (ha : allowed v i = true) : NodeInv cfg v' := by
  cases hst with
  | quiet => exact h
  | new l x hown => exact h.newOwn hx ha (by simpa [isOwn] using hown)
  | skip w es p exec hidle hw =>
    refine h.setRunning ?_ ?_
    · intro r₀ hr₀
      rw [hw] at hr₀
      cases hr₀
    · intro r hr
      cases hr
      exact ⟨by simp, by simp, by simp, by simp⟩
  | start w es p exec hidle hw hd hexec hes => exact start_nodeInv h hidle hw hd hexec hes ha
  | put w r dst x es hr he => exact h.put hx hr he
  | block w r hr =>
    have hok := h.running w r hr
    refine h.setRunning ?_ ?_
    · intro r₀ hr₀ hm
      rw [hr, Option.some.injEq] at hr₀
      subst hr₀
      exact Or.inr ⟨_, rfl, rfl, hm⟩
    · intro r₁ hr₁
      cases hr₁
      exact ⟨hok.disperses, hok.runs, hok.emplaces, hok.pending⟩
  | again w out r hr he hout => exact (finish_nodeInv h hr he hout (allowed_finish ha hr)).2
  | halt w out r hr he hout => exact (finish_nodeInv h hr he hout (allowed_finish ha hr)).1
  | done w out r x hr he hout hm hx' =>
    have hfin := (finish_nodeInv h hr he hout (allowed_finish ha hr)).2
    have hend : NodeInv cfg (((v.setTask r.task (ranTask r (v.mem r.task) out)).setRunning w none).setEnded
        r.task) := by
      refine hfin.setEnded (hx.known w r hr).1 ?_
      show ((v.setTask r.task _).mem r.task).isModuleComplete = true
      rw [TasksView.setTask_self]
      exact hm
    rcases hx' with rfl | rfl
    · exact hend
    · have hset := @NodeInv.setTask _ _ _ hend r.task (ranTask r (v.mem r.task) out).setComplete ?_ ?_ ?_
      · have heq : (((v.setTask r.task (ranTask r (v.mem r.task) out)).setRunning w none).setEnded
            r.task).setTask r.task (ranTask r (v.mem r.task) out).setComplete =
            ((v.setTask r.task (ranTask r (v.mem r.task) out).setComplete).setRunning w none).setEnded
              r.task := by
          ext1
          · exact Function.update_idem ..
          · rfl
          · rfl
          · rfl
        rw [heq] at hset
        exact hset
      · show Kept ((v.setTask r.task _).mem r.task) _
        rw [TasksView.setTask_self]
        exact Kept.setComplete _
      · intro _
        show _ = ((v.setTask r.task _).mem r.task).method
        rw [TasksView.setTask_self]
        rfl
      · intro _
        exact Or.inr (Or.inl rfl)
  | write p x hp hx' => cases ha

structure Frame (v v' : TasksView α) : Prop where
  next : v.next ≤ v'.next
  kept : ∀ p, p < v.next → Kept (v.mem p) (v'.mem p)
  ended : ∀ p, v.ended p → v'.ended p
  stable : ∀ p, p < v.next → v.ended p → isOwn (v.mem p) = true → v'.mem p = v.mem p

theorem Frame.refl (v : TasksView α) : Frame v v :=
  ⟨Nat.le_refl _, fun _ _ => Kept.refl _, fun _ => id, fun _ _ _ _ => rfl⟩

theorem frame_new (v : TasksView α) (x : Task α) : Frame v (v.new x) := by
  refine ⟨Nat.le_succ _, ?_, fun _ => id, ?_⟩
  · intro p hp
    rw [v.new_of_lt x hp]
    exact Kept.refl _
  · intro p hp _ _
    exact v.new_of_lt x hp

theorem frame_setTask {p : TaskPtr} {x : Task α} (hk : Kept (v.mem p) x) (he : ¬(v.ended p ∧ isOwn (v.mem p))) :
    Frame v (v.setTask p x) := by
  refine ⟨Nat.le_refl _, ?_, fun _ => id, ?_⟩
  · intro q _
    by_cases hq : q = p
    · subst hq
      rw [TasksView.setTask_self]
      exact hk
    · rw [v.setTask_of_ne x hq]
      exact Kept.refl _
  · intro q _ hend hown
    have hq : q ≠ p := by
      rintro rfl
      exact he ⟨hend, hown⟩
    exact v.setTask_of_ne x hq

theorem Frame.setRunning {w : WorkerId} {r : Option (Running α)} (h : Frame v v') : Frame v (v'.setRunning w r) :=
  ⟨h.next, h.kept, h.ended, h.stable⟩

theorem Frame.setEnded {p : TaskPtr} (h : Frame v v') : Frame v (v'.setEnded p) :=
  ⟨h.next, h.kept, fun q hq => Or.inr (h.ended q hq), h.stable⟩

theorem step_frame (hx : Exclusive v) (hst : TaskStep cfg v i v') (ha : allowed v i = true) : Frame v v' := by
  cases hst with
  | quiet => exact Frame.refl v
  | new l x hown => exact frame_new v x
  | skip w es p exec hidle hw => exact (Frame.refl v).setRunning
  | start w es p exec hidle hw hd hexec hes =>
    exact (frame_setTask (Kept.execute cfg _ p exec es) (fun h => hidle.notEnded h.1)).setRunning
  | put w r dst x es hr he => exact (frame_new v x).setRunning
  | block w r hr => exact (Frame.refl v).setRunning
  | again w out r hr he hout =>
    exact (frame_setTask (Kept.ranTask r (allowed_finish ha hr) hout)
      (fun h => (hx.known w r hr).2 h.1)).setRunning
  | halt w out r hr he hout =>
    exact frame_setTask (Kept.ranTask r (allowed_finish ha hr) hout) (fun h => (hx.known w r hr).2 h.1)
  | done w out r x hr he hout hm hx' =>
    have hk := Kept.ranTask r (allowed_finish ha hr) hout
    have hkx : Kept (v.mem r.task) x := by
      rcases hx' with rfl | rfl
      · exact hk
      · exact hk.trans (Kept.setComplete _)
    exact ((frame_setTask hkx (fun h => (hx.known w r hr).2 h.1)).setRunning).setEnded
  | write p x hp hx' => cases ha

def Begins (v v' : TasksView α) (p : TaskPtr) : Prop :=
  ∃ w r, v.running w = none ∧ v'.running w = some r ∧ r.task = p ∧ r.mode ≠ .skip

theorem step_running (hst : TaskStep cfg v i v') :
    (∀ w r', v'.running w = some r' → r'.mode = .skip ∨
      ∃ r, v.running w = some r ∧ r.task = r'.task ∧ r.mode = r'.mode) ∨
    ∃ w es p exec, i = .scan w es ∧ v.Idle p ∧ v.running w = none ∧ (v.mem p).isRunDisabled = false ∧
      exec.id = (v.mem p).taskState ∧ es.all (fun e => isOwn e.2) = true ∧
      v' = (v.setTask p (execute cfg (v.mem p) p exec es).task).setRunning w
        (some (started cfg (v.mem p) p exec es)) := by
  have hother : ∀ (u : TasksView α) w (r : Option (Running α)), u.running = v.running →
      (∀ r', r = some r' → r'.mode = .skip ∨ ∃ r, v.running w = some r ∧ r.task = r'.task ∧ r.mode = r'.mode) →
      ∀ w' r', (u.setRunning w r).running w' = some r' → r'.mode = .skip ∨
        ∃ r, v.running w' = some r ∧ r.task = r'.task ∧ r.mode = r'.mode := by
    intro u w r hu hr w' r' hr'
    by_cases hw : w' = w
    · subst hw
      rw [TasksView.setRunning_self] at hr'
      exact hr r' hr'
    · rw [u.setRunning_of_ne r hw, hu] at hr'
      exact Or.inr ⟨r', hr', rfl, rfl⟩
  have hsame : ∀ (u : TasksView α), u.running = v.running → ∀ w' r', u.running w' = some r' → r'.mode = .skip ∨
      ∃ r, v.running w' = some r ∧ r.task = r'.task ∧ r.mode = r'.mode := by
    intro u hu w' r' hr'
    rw [hu] at hr'
    exact Or.inr ⟨r', hr', rfl, rfl⟩
  cases hst with
  | quiet => exact Or.inl (hsame v rfl)
  | new l x hown => exact Or.inl (hsame (v.new x) rfl)
  | skip w es p exec hidle hw =>
    refine Or.inl (hother v w _ rfl ?_)
    intro r' hr'
    cases hr'
    exact Or.inl rfl
  | start w es p exec hidle hw hd hexec hes =>
    exact Or.inr ⟨w, es, p, exec, rfl, hidle, hw, hd, hexec, hes, rfl⟩
  | put w r dst x es hr he =>
    refine Or.inl (hother (v.new x) w _ rfl ?_)
    intro r' hr'
    cases hr'
    exact Or.inr ⟨r, hr, rfl, rfl⟩
  | block w r hr =>
    refine Or.inl (hother v w _ rfl ?_)
    intro r' hr'
    cases hr'
    exact Or.inr ⟨r, hr, rfl, rfl⟩
  | again w out r hr he hout => exact Or.inl (hother (v.setTask r.task _) w none rfl (by simp))
  | halt w out r hr he hout => exact Or.inl (hsame (v.setTask r.task _) rfl)
  | done w out r x hr he hout hm hx' => exact Or.inl (hother (v.setTask r.task x) w none rfl (by simp))
  | write p x hp hx' => exact Or.inl (hsame (v.setTask p x) rfl)

theorem scan_free {w : WorkerId} {es : List (LaneRef × Task α)} (hst : TaskStep cfg v (.scan w es) v') :
    v.running w = none := by
  cases hst with
  | quiet _ hi => exact hi w es rfl
  | skip w es p exec hidle hw => exact hw
  | start w es p exec hidle hw => exact hw

theorem step_made (h : NodeInv cfg v) (hx : Exclusive v) (hst : TaskStep cfg v i v') (ha : allowed v i = true)
    {q : TaskPtr} {j : PushInfo} (hq : q < v'.next) (hj : (v'.mem q).body.pushInfo = some j) :
    q < v.next ∧ (v.mem q).body.pushInfo = some j ∨
      ∃ w r, v.running w = some r ∧ r.mode = .disperse ∧ r.task = j.origTask := by
  have hframe := step_frame hx hst ha
  by_cases hold : q < v.next
  · rw [(hframe.kept q hold).pushInfo] at hj
    exact Or.inl ⟨hold, hj⟩
  obtain ⟨rfl, ⟨l, rfl⟩ | ⟨w, r, dst, es, rfl, hr, he⟩⟩ := hst.made (Nat.le_of_not_lt hold) hq
  · -- a producer emplaces tasks of its own only
    generalize v'.mem v.next = x at hst hj
    cases hst with
    | quiet => exact absurd hq hold
    | new l x hown =>
      rw [isOwn, hj] at hown
      cases hown
  · obtain ⟨-, hmode, horig, -⟩ :=
      (h.running w r hr).pending (dst, v'.mem v.next) j (by rw [he]; exact List.mem_cons_self) hj
    exact Or.inr ⟨w, r, hr, hmode, horig.symm⟩

theorem step_fresh (h : NodeInv cfg v) (hst : TaskStep cfg v i v') (ha : allowed v i = true) {q : TaskPtr}
    (hold : v.next ≤ q) (hq : q < v'.next) : isNew (v'.mem q) = true := by
  obtain ⟨-, ⟨l, rfl⟩ | ⟨w, r, dst, es, rfl, hr, he⟩⟩ := hst.made hold hq
  · exact ha
  · exact (h.running w r hr).emplaces (dst, v'.mem q) (by rw [he]; exact List.mem_cons_self)

theorem step_remote (h : NodeInv cfg v) (hst : TaskStep cfg v i v') (ha : allowed v i = true) {p : TaskPtr}
    (hp : p < v.next) (hr : isRemote cfg (v.mem p) = true) (hb : ¬Begins v v' p) :
    (v'.mem p).body = (v.mem p).body ∧ (v'.mem p).method = (v.mem p).method ∧
      (v'.mem p).isModuleComplete = (v.mem p).isModuleComplete := by
  cases hst.move hp with
  | same hm =>
    rw [hm]
    exact ⟨rfl, rfl, rfl⟩
  | start w es exec hi hidle hrun hm =>
    subst hi
    refine absurd ⟨w, _, scan_free hst, hrun, rfl, ?_⟩ hb
    rw [started, execute_remote hr]
    simp
  | ran w out r hi hrun ht he hm =>
    subst ht
    obtain ⟨hmeth, hbody, hmod, -⟩ := ranTask_remote (v.mem r.task) out ((h.running w r hrun).of_mode hr)
    rcases hm with hm | ⟨hcomplete, -, hm⟩
    · rw [hm]
      exact ⟨hbody, hmeth, hmod⟩
    · rw [hm]
      refine ⟨hbody, hmeth, ?_⟩
      rw [← hmod, hcomplete]
      simp
  | write x hi hm =>
    subst hi
    cases ha

theorem step_dispersed (hx : Exclusive v) (hst : TaskStep cfg v i v')
    (ha : allowed v i = true) {p : TaskPtr} (hp : p < v.next) (hd : Dispersed v p) : Dispersed v' p := by
  have hframe := step_frame hx hst ha
  rcases hd with hd | ⟨w', r', hr', ht', hm'⟩
  · exact Or.inl ((hframe.kept p hp).runDisabled hd)
  have hother : ∀ w (r : Option (Running α)) (u : TasksView α), u.running = v.running → w' ≠ w →
      Dispersed (u.setRunning w r) p := by
    intro w r u hu hw
    refine Or.inr ⟨w', r', ?_, ht', hm'⟩
    rw [u.setRunning_of_ne r hw, hu, hr']
  have hran : ∀ r out, r' = r → (ranTask r (v.mem r.task) out).isRunDisabled = true := by
    rintro r out rfl
    exact (ranTask_remote _ _ (Or.inl hm')).2.2.2 hm'
  cases hst with
  | quiet => exact Or.inr ⟨w', r', hr', ht', hm'⟩
  | new l x hown => exact Or.inr ⟨w', r', hr', ht', hm'⟩
  | skip w es q exec hidle hw =>
    refine hother w _ v rfl ?_
    rintro rfl
    rw [hr'] at hw
    cases hw
  | start w es q exec hidle hw hd hexec hes =>
    refine hother w _ (v.setTask q _) rfl ?_
    rintro rfl
    rw [hr'] at hw
    cases hw
  | put w r dst x es hrun he =>
    by_cases hw : w' = w
    · subst hw
      rw [hr', Option.some.injEq] at hrun
      subst hrun
      exact Or.inr ⟨w', _, TasksView.setRunning_self .., ht', hm'⟩
    · exact hother w _ (v.new x) rfl hw
  | block w r hrun =>
    by_cases hw : w' = w
    · subst hw
      rw [hr', Option.some.injEq] at hrun
      subst hrun
      exact Or.inr ⟨w', _, TasksView.setRunning_self .., ht', hm'⟩
    · exact hother w _ v rfl hw
  | again w out r hrun he hout =>
    by_cases hw : w' = w
    · subst hw
      rw [hr', Option.some.injEq] at hrun
      left
      show ((v.setTask r.task _).mem p).isRunDisabled = true
      rw [← ht', hrun, TasksView.setTask_self]
      exact hran r out hrun
    · exact hother w _ (v.setTask r.task _) rfl hw
  | halt w out r hrun he hout => exact Or.inr ⟨w', r', hr', ht', hm'⟩
  | done w out r x hrun he hout hm hx' =>
    by_cases hw : w' = w
    · subst hw
      rw [hr', Option.some.injEq] at hrun
      left
      show ((v.setTask r.task x).mem p).isRunDisabled = true
      rw [← ht', hrun, TasksView.setTask_self]
      rcases hx' with rfl | rfl
      · exact hran r out hrun
      · rw [Task.setComplete_isRunDisabled]
        exact hran r out hrun
    · exact hother w _ (v.setTask r.task x) rfl hw
  | write q x hq hx' => cases ha

end Steps

end HermesRun.RemoteQueue
