import HermesRun.Proc.ProcQueue
import HermesRun.Remote.PushesFreed

namespace HermesRun.ProcQueue

open Poll
open RemoteQueue (isNew handlerKeeps Exclusive handler_isComplete handler_isFireAndForget execute_isComplete
  execute_isFireAndForget)

variable {β : Type}

structure Same (t t' : Task (Own β)) : Prop where
  forget : t'.isFireAndForget = t.isFireAndForget
  complete : t.isComplete = true → t'.isComplete = true
  isPush : (pushFields t').isNone = (pushFields t).isNone

structure Plain (t : Task (Own β)) : Prop where
  domainId : t.domainId = DomainId.getLocal
  coroutine : t.isCoroutine = false
  preemptive : t.isPreemptive = false
  runDisabled : t.isRunDisabled = false
  forget : t.isFireAndForget = false

section Tasks

variable {cfg : Config β} {t t' t'' : Task (Own β)}

theorem Same.refl (t : Task (Own β)) : Same t t := ⟨rfl, id, rfl⟩

theorem Same.trans (h : Same t t') (h' : Same t' t'') : Same t t'' :=
  ⟨h'.forget.trans h.forget, h'.complete ∘ h.complete, h'.isPush.trans h.isPush⟩

theorem exists_pushFields {t t' : Task (Own β)} (h : Same t t') {x' : PushFields} (hx' : pushFields t' = some x') :
    ∃ x, pushFields t = some x := by
  have hpush := h.isPush
  rw [hx'] at hpush
  cases hx : pushFields t with
  | none =>
    rw [hx] at hpush
    cases hpush
  | some x => exact ⟨x, rfl⟩

theorem Same.setComplete (t : Task (Own β)) : Same t t.setComplete := by
  refine ⟨by simp, ?_, rfl⟩
  intro _
  simp [Task.setComplete, Task.isComplete, Task.setFlag, taskModuleComplete, taskComplete, Bitfield.setBits_or,
    Bitfield.any_setBits]

theorem Same.execute (cfg : Config β) (t : Task (Own β)) (p : TaskPtr) (exec : Instance)
    (es : List (LaneRef × Task (Own β))) : Same t (execute cfg.poll t p exec es).task := by
  refine ⟨execute_isFireAndForget .., ?_, ?_⟩
  · rw [execute_isComplete]
    exact id
  · unfold Poll.execute replicateStart
    split_ifs
    · cases hb : t.body with
      | own a =>
        have hlib : ∀ m n, ((cfg.poll.lib exec.id).replicateStart m n a = a) ∨
            ∃ f, (cfg.poll.lib exec.id).replicateStart m n a = Own.mapOther f a := by
          intro m n
          simp only [Config.poll]
          split_ifs
          · exact Or.inl rfl
          · exact Or.inr ⟨_, rfl⟩
        rcases hlib t.method (resolveDomainId cfg.poll.numHosts t.domainId).length with ha | ⟨f, ha⟩
        · simp only [pushFields, ha, hb]
        · simp only [pushFields, ha, hb]
          cases a <;> rfl
      | push i => simp only [pushFields, hb]
    · rfl
    · rfl
    · rfl
    · rfl

theorem handler_same {out : Task (Own β)} (h : handlerKeeps t out = true)
    (hp : (pushFields out).isNone = (pushFields t).isNone) : Same t out :=
  ⟨handler_isFireAndForget h, by rw [handler_isComplete h]; exact id, hp⟩

theorem Same.ranTask (r : Running (Own β)) {out : Task (Own β)} (hout : r.mode.runs = true → Same t out) :
    Same t (ranTask r t out) := by
  rcases ranTask_cases r t out with ⟨hruns, heq⟩ | ⟨-, heq⟩ | ⟨-, heq⟩
  · rw [heq]
    exact hout hruns
  · rw [heq]
    exact Same.refl t
  · rw [heq]
    exact ⟨by simp [Task.setUnordered], by simp [Task.setUnordered], rfl⟩

theorem pushFields_push (s : State β) (t : Task (Own β)) (x : PushFields) :
    pushFields (push s t x) = some x.next := by
  unfold push
  dsimp only
  split_ifs <;> rfl

theorem Plain.execute (h : Plain t) (p : TaskPtr) (exec : Instance) (es : List (LaneRef × Task (Own β))) :
    execute cfg.poll t p exec es = ⟨t.setStarted, .call, es, []⟩ := by
  have hr : isRemote cfg.poll t = false := by
    rw [isRemote, h.domainId]
    exact DomainId.isRemote_getLocal ..
  simp [Poll.execute, hr, h.coroutine, h.preemptive]

theorem Plain.setStarted (h : Plain t) : Plain t.setStarted :=
  ⟨h.domainId, by simp [h.coroutine], by simp [h.preemptive], by simp [h.runDisabled], by simp [h.forget]⟩

theorem Plain.setModuleComplete (h : Plain t) : Plain t.setModuleComplete :=
  ⟨h.domainId, by simp [h.coroutine], by simp [h.preemptive], by simp [h.runDisabled], by simp [h.forget]⟩

theorem Plain.setComplete (h : Plain t) : Plain t.setComplete :=
  ⟨h.domainId, by simp [h.coroutine], by simp [h.preemptive], by simp [h.runDisabled], by simp [h.forget]⟩

theorem Plain.body (h : Plain t) (b : Body (Own β)) : Plain { t with body := b } :=
  ⟨h.domainId, h.coroutine, h.preemptive, h.runDisabled, h.forget⟩

theorem Plain.push (h : Plain t) (s : State β) (x : PushFields) : Plain (push s t x) := by
  unfold ProcQueue.push
  dsimp only
  split_ifs
  · exact (h.body _).setModuleComplete
  · exact h.body _

theorem plain_typedPushTask (taskNode : TaskNode) (laneHash : UInt32) (k : ℕ) :
    Plain (typedPushTask cfg taskNode laneHash k) := by
  have hflags : (typedPushTask cfg taskNode laneHash k).taskFlags =
    Bitfield.setBits 0#32 (taskDataOwner ||| taskLowLatency ||| taskRemoteDebugMark) := rfl
  refine ⟨rfl, ?_, ?_, ?_, ?_⟩
  · rw [Task.isCoroutine, hflags]
    decide
  · rw [Task.isPreemptive, hflags]
    decide
  · rw [Task.isRunDisabled, hflags]
    decide
  · rw [Task.isFireAndForget, hflags]
    decide

theorem typedPushTask_complete (cfg : Config β) (taskNode : TaskNode) (laneHash : UInt32) (k : ℕ) :
    (typedPushTask cfg taskNode laneHash k).isComplete = false ∧
      (typedPushTask cfg taskNode laneHash k).isModuleComplete = false := by
  have hflags : (typedPushTask cfg taskNode laneHash k).taskFlags =
    Bitfield.setBits 0#32 (taskDataOwner ||| taskLowLatency ||| taskRemoteDebugMark) := rfl
  constructor
  · rw [Task.isComplete, hflags]
    decide
  · rw [Task.isModuleComplete, hflags]
    decide

theorem isFresh_iff : isFresh t = true ↔ isNew t = true ∧ isOwn t = true ∧ pushFields t = none := by
  simp only [isFresh, Bool.and_eq_true, Option.isNone_iff_eq_none, and_assoc]

theorem isComplete_of_isNew (h : isNew t = true) : t.isComplete = false := by
  simp only [isNew, Bool.and_eq_true, Bool.not_eq_true'] at h
  exact h.2

theorem scheduled_isFireAndForget (t : Task (Own β)) : (scheduled t).isFireAndForget = false := by
  unfold scheduled
  split_ifs with hf
  · simp
  · simpa using hf

theorem pushFields_scheduled (t : Task (Own β)) : pushFields (scheduled t) = pushFields t := by
  unfold scheduled
  split_ifs <;> rfl

theorem scheduled_isComplete (t : Task (Own β)) : (scheduled t).isComplete = t.isComplete := by
  unfold scheduled
  split_ifs
  · simp [Task.unsetFireAndForget, Task.isComplete, Task.unsetFlag, taskFireAndForget, taskComplete,
      Bitfield.any_unsetBits]
  · rfl

theorem PushFields.next_subCli (x : PushFields) : x.next.subCli = x.subCli := by
  unfold next
  split <;> rfl

theorem PushFields.next_phase (x : PushFields) : x.next.phase = .kWaitSchedule := by
  unfold next
  split
  · rfl
  · assumption

theorem push_moduleComplete {s : State β} {x : PushFields} (h : (push s t x).isModuleComplete = true) :
    t.isModuleComplete = true ∨ (x.next.subRun.bind s.subTask).any (·.isComplete) = true := by
  unfold push at h
  dsimp only at h
  split_ifs at h with hc
  · exact Or.inr hc
  · exact Or.inl h

theorem push_isComplete (s : State β) (x : PushFields) : (push s t x).isComplete = t.isComplete := by
  unfold push
  dsimp only
  split_ifs
  · rw [Task.setModuleComplete_isComplete]
    rfl
  · rfl

theorem Same.push (s : State β) {x : PushFields} (hx : pushFields t = some x) (hp : Plain t) :
    Same t (push s t x) := by
  refine ⟨?_, ?_, ?_⟩
  · rw [hp.forget, (hp.push s x).forget]
  · rw [push_isComplete]
    exact id
  · rw [pushFields_push, hx]
    rfl

end Tasks

structure AtCall (p : TaskPtr) (r : Running (Own β)) : Prop where
  task : r.task = p
  mode : r.mode = .call
  emplaces : r.emplaces = []

def Placed (v : TasksView (Own β)) (p : TaskPtr) : Prop := ∃ w r, v.running w = some r ∧ AtCall p r

structure RunOk (cfg : Config β) (s : State β) (r : Running (Own β)) : Prop where
  pending : ∀ e ∈ r.emplaces, pushFields e.2 = none ∧ e.2.isComplete = false
  push : ∀ x, pushFields (s.node.mem r.task) = some x → r.emplaces = [] ∧ (r.mode = .skip ∨ r.mode = .call) ∨
    r.mode = .call ∧ x.phase = .kSchedule ∧ ∃ y, s.subs[x.subCli]? = some y ∧
      r.emplaces = [(realLane cfg y, scheduled y)]

def LabelOk (cfg : Config β) (s : State β) : Poll.Label (Own β) → Prop
  | .emplace _ t => isFresh t = true ∨
      ∃ taskNode laneHash, t = typedPushTask cfg taskNode laneHash s.subs.length
  | .scan w es => (∃ x, facedPush s.node w = some x ∧ es = pushEmplaces cfg s x) ∨
      facedPush s.node w = none ∧ ∀ e ∈ es, isFresh e.2 = true
  | .finish w out => ∀ r, s.node.running w = some r →
      (∃ x, pushFields (s.node.mem r.task) = some x ∧ out = push s (s.node.mem r.task) x) ∨
      pushFields (s.node.mem r.task) = none ∧
        (r.mode.runs = true → handlerKeeps (s.node.mem r.task) out = true ∧ pushFields out = none)
  | .write p t => pushFields (s.node.mem p) = none ∧ handlerKeeps (s.node.mem p) t = true ∧ pushFields t = none
  | _ => True

theorem nodeLabel_ok {cfg : Config β} {s : State β} {l i : Poll.Label (Own β)} (h : nodeLabel cfg s l = some i) :
    LabelOk cfg s i := by
  cases l with
  | emplace l t =>
    simp only [nodeLabel, Option.ite_none_right_eq_some, Option.some.injEq] at h
    obtain ⟨hfresh, rfl⟩ := h
    exact Or.inl hfresh
  | scan w es =>
    simp only [nodeLabel] at h
    split at h
    · next x hx =>
      cases h
      exact Or.inl ⟨x, hx, rfl⟩
    · next hx =>
      simp only [Option.ite_none_right_eq_some, Option.some.injEq, List.all_eq_true] at h
      obtain ⟨hes, rfl⟩ := h
      exact Or.inr ⟨hx, hes⟩
  | finish w out =>
    simp only [nodeLabel] at h
    split at h
    · cases h
    · next r hr =>
      split at h
      · next x hx =>
        cases h
        intro r' hr'
        rw [hr, Option.some.injEq] at hr'
        subst hr'
        exact Or.inl ⟨x, hx, rfl⟩
      · next hx =>
        simp only [Option.ite_none_right_eq_some, Option.some.injEq, Bool.or_eq_true, Bool.not_eq_true',
          Bool.and_eq_true, Option.isNone_iff_eq_none] at h
        obtain ⟨hk, rfl⟩ := h
        intro r' hr'
        rw [hr, Option.some.injEq] at hr'
        subst hr'
        refine Or.inr ⟨hx, ?_⟩
        intro hruns
        rcases hk with hk | hk
        · rw [hruns] at hk
          cases hk
        · exact hk
  | write p t =>
    simp only [nodeLabel, Option.ite_none_right_eq_some, Option.some.injEq, Bool.and_eq_true,
      Option.isNone_iff_eq_none] at h
    obtain ⟨⟨⟨hp, hk⟩, ht⟩, rfl⟩ := h
    exact ⟨hp, hk, ht⟩
  | poll w l =>
    cases h
    trivial
  | put w =>
    cases h
    trivial
  | registry w op =>
    cases h
    trivial

theorem scan_faced {cfg : Poll.Config (Own β)} {s t : Poll.State (Own β)} {w : WorkerId}
    {es : List (LaneRef × Task (Own β))} {r : Running (Own β)} (hst : Poll.step cfg s (.scan w es) = some t)
    (hr : t.running w = some r) : faced s w = some r.task := by
  obtain ⟨hfaced, -⟩ := scan_running hst hr
  exact hfaced

structure Ready (cfg : Config β) (s : State β) (i : Poll.Label (Own β)) (t : Poll.State (Own β)) : Prop where
  exclusive : Exclusive s.node.tasksView
  label : LabelOk cfg s i
  plain : ∀ p x, p < s.node.next → pushFields (s.node.mem p) = some x → Plain (s.node.mem p)
  running : ∀ w r, s.node.running w = some r → RunOk cfg s r
  step : Poll.step cfg.poll s.node i = some t
  tasks : TaskStep cfg.poll s.node.tasksView i t.tasksView

section Steps

variable {cfg : Config β} {s : State β} {i : Poll.Label (Own β)} {t : Poll.State (Own β)}

theorem LabelOk.ranTask {w : WorkerId} {out : Task (Own β)} {r : Running (Own β)}
    (h : LabelOk cfg s (.finish w out)) (hr : s.node.running w = some r)
    (hplain : ∀ x, pushFields (s.node.mem r.task) = some x → Plain (s.node.mem r.task)) :
    Same (s.node.mem r.task) (ranTask r (s.node.mem r.task) out) := by
  apply Same.ranTask
  intro hruns
  rcases h r hr with ⟨x, hx, rfl⟩ | ⟨hx, hk⟩
  · exact Same.push s hx (hplain x hx)
  · obtain ⟨hk, hout⟩ := hk hruns
    exact handler_same hk (by rw [hx, hout])

theorem step_same (h : Ready cfg s i t) {p : TaskPtr} (hp : p < s.node.next) : Same (s.node.mem p) (t.mem p) := by
  have hlabel := h.label
  show Same (s.node.mem p) (t.tasksView.mem p)
  cases h.tasks.move hp with
  | same hm =>
    rw [hm]
    exact Same.refl _
  | start w es exec hi hidle hr hm =>
    rw [hm]
    exact Same.execute cfg _ p exec es
  | ran w out r hi hr ht he hm =>
    subst hi ht
    have hsame : Same (s.node.mem r.task) (ranTask r (s.node.mem r.task) out) :=
      hlabel.ranTask hr (fun x hx => h.plain r.task x (h.exclusive.known w r hr).1 hx)
    rcases hm with hm | ⟨-, -, hm⟩
    · rw [hm]
      exact hsame
    · rw [hm]
      exact hsame.trans (Same.setComplete _)
  | write x hi hm =>
    subst hi
    obtain ⟨hpush, hk, hout⟩ := hlabel
    rw [hm]
    exact handler_same hk (by rw [hpush, hout])

theorem step_complete (h : Ready cfg s i t)
    (hold : ∀ p, p < s.node.next → (s.node.mem p).isComplete = true → s.node.tasksView.ended p) {p : TaskPtr}
    (hp : p < t.next) (hc : (t.mem p).isComplete = true) : t.tasksView.ended p := by
  have hlabel := h.label
  refine RemoteQueue.complete_ended h.tasks hold ?_ ?_ ?_ hp hc
  · rintro w out r rfl hr
    apply RemoteQueue.ranTask_isComplete
    intro hruns
    rcases hlabel r hr with ⟨x, hx, rfl⟩ | ⟨hx, hk⟩
    · exact push_isComplete s x
    · exact handler_isComplete (hk hruns).1
  · rintro q x rfl
    exact handler_isComplete hlabel.2.1
  · intro q hnew hq
    obtain ⟨-, ⟨l, rfl⟩ | ⟨w, r, dst, es, rfl, hr, he⟩⟩ := h.tasks.made hnew hq
    · rcases hlabel with hfresh | ⟨taskNode, laneHash, htyped⟩
      · exact isComplete_of_isNew (isFresh_iff.mp hfresh).1
      · rw [htyped]
        exact (typedPushTask_complete ..).1
    · exact ((h.running w r hr).pending (dst, t.tasksView.mem q) (by rw [he]; exact List.mem_cons_self)).2

theorem RunOk.mono {s' : State β} {r : Running (Own β)} (h : RunOk cfg s r)
    (hsubs : ∀ (k : ℕ) y, s.subs[k]? = some y → s'.subs[k]? = some y)
    (hm : pushFields (s'.node.mem r.task) = none ∨ s'.node.mem r.task = s.node.mem r.task) : RunOk cfg s' r := by
  refine ⟨h.pending, ?_⟩
  intro x hx
  rcases hm with hm | hm
  · rw [hm] at hx
    cases hx
  · rw [hm] at hx
    rcases h.push x hx with hdone | ⟨hmode, hphase, y, hy, he⟩
    · exact Or.inl hdone
    · exact Or.inr ⟨hmode, hphase, y, hsubs _ y hy, he⟩

theorem execute_pending {x : Task (Own β)} {p : TaskPtr} {exec : Instance} {es : List (LaneRef × Task (Own β))}
    (hes : ∀ e ∈ es, isFresh e.2 = true) :
    ∀ e ∈ (execute cfg.poll x p exec es).emplaces, pushFields e.2 = none ∧ e.2.isComplete = false := by
  intro e he
  rcases mem_execute_emplaces cfg.poll he with heq | he
  · rw [heq]
    exact ⟨rfl, isComplete_of_isNew (RemoteQueue.isNew_pushTask ..)⟩
  · obtain ⟨hnew, -, hpush⟩ := isFresh_iff.mp (hes e he)
    exact ⟨hpush, isComplete_of_isNew hnew⟩

theorem started_runOk {w : WorkerId} {q : TaskPtr} (exec : Instance) {es : List (LaneRef × Task (Own β))}
    (hlabel : LabelOk cfg s (.scan w es)) (hfaced : faced s.node w = some q)
    (hplain : ∀ x, pushFields (s.node.mem q) = some x → Plain (s.node.mem q))
    (hsub : ∀ x, pushFields (s.node.mem q) = some x → x.phase = .kSchedule →
      ∃ y, s.subs[x.subCli]? = some y ∧ s.subTask x.subCli = some y ∧ isFresh y = true) :
    (∀ e ∈ (started cfg.poll (s.node.mem q) q exec es).emplaces, pushFields e.2 = none ∧ e.2.isComplete = false) ∧
      ∀ x, pushFields (s.node.mem q) = some x → (started cfg.poll (s.node.mem q) q exec es).mode = .call ∧
        ((started cfg.poll (s.node.mem q) q exec es).emplaces = [] ∧ x.phase = .kWaitSchedule ∨
          x.phase = .kSchedule ∧ ∃ y, s.subs[x.subCli]? = some y ∧
            (started cfg.poll (s.node.mem q) q exec es).emplaces = [(realLane cfg y, scheduled y)]) := by
  have hpush : facedPush s.node w = pushFields (s.node.mem q) := by rw [facedPush, hfaced, Option.bind_some]
  cases hx : pushFields (s.node.mem q) with
  | none =>
    refine ⟨?_, by simp⟩
    rcases hlabel with ⟨x, hfp, -⟩ | ⟨-, hes⟩
    · rw [hpush, hx] at hfp
      cases hfp
    · exact execute_pending hes
  | some x =>
    have hes : es = pushEmplaces cfg s x := by
      rcases hlabel with ⟨x', hfp, hes⟩ | ⟨hfp, -⟩
      · rw [hpush, hx, Option.some.injEq] at hfp
        rw [hfp, hes]
      · rw [hpush, hx] at hfp
        cases hfp
    have hstart : started cfg.poll (s.node.mem q) q exec es =
        ⟨q, exec, isRemote cfg.poll (s.node.mem q), .call, es, false⟩ := by
      rw [started, (hplain x hx).execute]
    rw [hstart, hes]
    cases hphase : x.phase with
    | kWaitSchedule =>
      have hnil : pushEmplaces cfg s x = [] := by rw [pushEmplaces, hphase]
      rw [hnil]
      refine ⟨by simp, ?_⟩
      rintro x' ⟨⟩
      exact ⟨rfl, Or.inl ⟨rfl, hphase⟩⟩
    | kSchedule =>
      obtain ⟨y, hy, hsubTask, hfresh⟩ := hsub x hx hphase
      obtain ⟨hnew, -, hnone⟩ := isFresh_iff.mp hfresh
      have hone : pushEmplaces cfg s x = [(realLane cfg y, scheduled y)] := by
        rw [pushEmplaces, hphase, hsubTask]
      rw [hone]
      refine ⟨?_, ?_⟩
      · intro e he
        rw [List.mem_singleton.mp he, pushFields_scheduled, scheduled_isComplete]
        exact ⟨hnone, isComplete_of_isNew hnew⟩
      · rintro x' ⟨⟩
        exact ⟨rfl, Or.inr ⟨hphase, y, hy, rfl⟩⟩

def SubReady (s : State β) : Prop :=
  ∀ p x, p < s.node.next → pushFields (s.node.mem p) = some x → x.phase = .kSchedule → ¬Placed s.node.tasksView p →
    ∃ y, s.subs[x.subCli]? = some y ∧ s.subTask x.subCli = some y ∧ isFresh y = true

theorem not_placed_of_idle {v : TasksView (Own β)} {p : TaskPtr} (h : v.Idle p) : ¬Placed v p := by
  rintro ⟨w, r, hr, hcall⟩
  exact h.free w r hr hcall.task

theorem start_runOk {s' : State β} {w : WorkerId} {es : List (LaneRef × Task (Own β))}
    (h : Ready cfg s (.scan w es) s'.node) (hsub : SubReady s)
    (hsubs : ∀ (k : ℕ) y, s.subs[k]? = some y → s'.subs[k]? = some y) {r : Running (Own β)} {exec : Instance}
    (hr : s'.node.running w = some r) (hidle : s.node.tasksView.Idle r.task)
    (heq : r = started cfg.poll (s.node.mem r.task) r.task exec es) : RunOk cfg s' r := by
  have hfaced := scan_faced h.step hr
  obtain ⟨hpending, hstart⟩ := started_runOk exec h.label hfaced (fun x hx => h.plain r.task x hidle.known hx)
    (fun x hx hphase => hsub r.task x hidle.known hx hphase (not_placed_of_idle hidle))
  rw [← heq] at hpending hstart
  refine ⟨hpending, ?_⟩
  intro x hx
  obtain ⟨x₀, hx₀⟩ := exists_pushFields (step_same h hidle.known) hx
  have hfields : pushFields (s'.node.mem r.task) = some x₀ := by
    rcases (h.tasks.scanned hr).2.2 with ⟨-, hm⟩ | ⟨exec', -, hm⟩
    · rw [show s'.node.mem = s.node.mem from hm]
      exact hx₀
    · rw [show s'.node.mem r.task = _ from hm]
      change pushFields (execute cfg.poll (s.node.mem r.task) r.task exec' es).task = some x₀
      rw [(h.plain r.task x₀ hidle.known hx₀).execute]
      exact hx₀
  rw [hfields, Option.some.injEq] at hx
  subst hx
  obtain ⟨hmode, ⟨hnil, -⟩ | ⟨hphase, y, hy, hone⟩⟩ := hstart x₀ hx₀
  · exact Or.inl ⟨hnil, Or.inr hmode⟩
  · exact Or.inr ⟨hmode, hphase, y, hsubs _ y hy, hone⟩

theorem put_runOk {s' : State β} {w : WorkerId} (h : Ready cfg s (.put w) s'.node)
    (hsubs : ∀ (k : ℕ) y, s.subs[k]? = some y → s'.subs[k]? = some y) {r r₀ : Running (Own β)}
    (hrun : s.node.running w = some r₀) (hr : s'.node.running w = some r) : RunOk cfg s' r := by
  have hmem : s'.node.mem r₀.task = s.node.mem r₀.task := by
    cases h.tasks.move (h.exclusive.known w r₀ hrun).1 with
    | same hm => exact hm
    | start w₀ es exec hi => cases hi
    | ran w₀ out r₁ hi => cases hi
    | write x hi => cases hi
  have hok : RunOk cfg s' r₀ := (h.running w r₀ hrun).mono hsubs (Or.inr hmem)
  have hr' : s'.node.tasksView.running w = some r := hr
  cases h.tasks.runMove hrun with
  | same hsame _ =>
    rw [hr', Option.some.injEq] at hsame
    exact hsame ▸ hok
  | put dst x es hi he' hput hnext hnew =>
    rw [hr', Option.some.injEq] at hput
    subst hput
    refine ⟨fun e hmem' => hok.pending e (by rw [he']; exact List.mem_cons_of_mem _ hmem'), ?_⟩
    intro z hz
    rcases hok.push z hz with ⟨hnil, -⟩ | ⟨hmode, -, y, -, hone⟩
    · rw [he'] at hnil
      cases hnil
    · rw [he'] at hone
      exact Or.inl ⟨(List.cons.inj hone).2, Or.inr hmode⟩
  | block hi hblock hnext =>
    rw [hr', Option.some.injEq] at hblock
    subst hblock
    exact ⟨hok.pending, hok.push⟩
  | finish out hi => cases hi

theorem step_runOk (h : Ready cfg s i t) (hsub : SubReady s) {s' : State β} (hn : s'.node = t)
    (hsubs : ∀ (k : ℕ) y, s.subs[k]? = some y → s'.subs[k]? = some y) {w : WorkerId} {r : Running (Own β)}
    (hr : t.running w = some r) : RunOk cfg s' r := by
  subst hn
  cases h.tasks.runOrigin hr with
  | same hrun =>
    have hlt := (h.exclusive.known w r hrun).1
    cases h.tasks.move hlt with
    | same hm => exact (h.running w r hrun).mono hsubs (Or.inr hm)
    | start w₀ es exec hi hidle hr₀ hm => exact absurd rfl (hidle.free w r hrun)
    | ran w₀ out r₀ hi hr₀ ht he hm =>
      -- the process has halted with the worker still at its task
      have hw := h.exclusive.unique w w₀ r r₀ hrun hr₀ ht
      subst hw
      change s.node.running w₀ = some r₀ at hr₀
      rw [show s.node.running w₀ = some r from hrun, Option.some.injEq] at hr₀
      subst hr₀
      have hok := h.running w₀ r hrun
      refine ⟨hok.pending, ?_⟩
      intro x hx
      obtain ⟨x₀, hx₀⟩ := exists_pushFields (step_same h hlt) hx
      rcases hok.push x₀ hx₀ with ⟨-, hmode⟩ | ⟨hmode, -⟩
      · exact Or.inl ⟨he, hmode⟩
      · exact Or.inl ⟨he, Or.inr hmode⟩
    | write x hi hm =>
      have hlabel := h.label
      subst hi
      refine (h.running w r hrun).mono hsubs (Or.inl ?_)
      rw [show s'.node.mem r.task = x from hm]
      exact hlabel.2.2
  | skip es hi hidle hm he => exact ⟨by simp [he], fun _ _ => Or.inl ⟨he, Or.inl hm⟩⟩
  | start es exec hi hidle heq =>
    subst hi
    exact start_runOk h hsub hsubs hr hidle heq
  | put r₀ hi hrun ht hm he =>
    subst hi
    exact put_runOk h hsubs hrun hr

theorem placed_setRunning {v : TasksView (Own β)} {w : WorkerId} {r : Option (Running (Own β))} {p : TaskPtr}
    (h : (∃ r₀, v.running w = some r₀ ∧ AtCall p r₀) ↔ ∃ r₁, r = some r₁ ∧ AtCall p r₁) :
    Placed (v.setRunning w r) p ↔ Placed v p := by
  constructor
  · rintro ⟨w', r', hr', hcall⟩
    by_cases hw : w' = w
    · subst hw
      rw [TasksView.setRunning_self] at hr'
      obtain ⟨r₀, hr₀, hcall₀⟩ := h.mpr ⟨r', hr', hcall⟩
      exact ⟨w', r₀, hr₀, hcall₀⟩
    · rw [v.setRunning_of_ne r hw] at hr'
      exact ⟨w', r', hr', hcall⟩
  · rintro ⟨w', r', hr', hcall⟩
    by_cases hw : w' = w
    · subst hw
      obtain ⟨r₁, hr₁, hcall₁⟩ := h.mp ⟨r', hr', hcall⟩
      exact ⟨w', r₁, by rw [TasksView.setRunning_self, hr₁], hcall₁⟩
    · exact ⟨w', r', by rw [v.setRunning_of_ne r hw]; exact hr', hcall⟩

theorem placed_setRunning_other {v : TasksView (Own β)} {w : WorkerId} {r : Option (Running (Own β))} {p : TaskPtr}
    (h₀ : ∀ r₀, v.running w = some r₀ → ¬AtCall p r₀) (h₁ : ∀ r₁, r = some r₁ → ¬AtCall p r₁) :
    Placed (v.setRunning w r) p ↔ Placed v p := by
  apply placed_setRunning
  constructor
  · rintro ⟨r₀, hr₀, hcall⟩
    exact absurd hcall (h₀ r₀ hr₀)
  · rintro ⟨r₁, hr₁, hcall⟩
    exact absurd hcall (h₁ r₁ hr₁)

theorem placed_leave {v : TasksView (Own β)} {w : WorkerId} {r : Running (Own β)} {p : TaskPtr}
    (hr : v.running w = some r) (h : ¬AtCall p r) : Placed (v.setRunning w none) p ↔ Placed v p := by
  refine placed_setRunning_other ?_ (by simp)
  intro r₀ hr₀
  rw [hr, Option.some.injEq] at hr₀
  subst hr₀
  exact h

inductive PushMove (s : State β) (i : Poll.Label (Own β)) (t : Poll.State (Own β)) (p : TaskPtr)
    (x : PushFields) : Prop
  | same (hm : t.mem p = s.node.mem p) (hpl : Placed t.tasksView p ↔ Placed s.node.tasksView p)
      (hput : ∀ w r, i = .put w → s.node.running w = some r → r.task = p → t.next = s.node.next)
  | begin (hm : t.mem p = (s.node.mem p).setStarted) (h₀ : ¬Placed s.node.tasksView p)
      (h₁ : Placed t.tasksView p → x.phase = .kWaitSchedule) (hi : ∀ w, i ≠ .put w)
  | put (w : WorkerId) (r : Running (Own β)) (hi : i = .put w) (hr : s.node.running w = some r) (ht : r.task = p)
      (hm : t.mem p = s.node.mem p) (h₀ : ¬Placed s.node.tasksView p) (hphase : x.phase = .kSchedule)
      (hnext : t.next = s.node.next + 1) (h₁ : Placed t.tasksView p)
  | skipped (hc : (s.node.mem p).isModuleComplete = true) (hm : t.mem p = (s.node.mem p).setComplete)
      (hpl : Placed t.tasksView p ↔ Placed s.node.tasksView p) (hi : ∀ w, i ≠ .put w)
  | ran (h₀ : Placed s.node.tasksView p) (hi : ∀ w, i ≠ .put w)
      (hm : t.mem p = push s (s.node.mem p) x ∨ t.mem p = (push s (s.node.mem p) x).setComplete ∧
        (push s (s.node.mem p) x).isModuleComplete = true)

theorem finish_push {w : WorkerId} {out : Task (Own β)} {r : Running (Own β)} {x : PushFields}
    (hlabel : LabelOk cfg s (.finish w out)) (hr : s.node.running w = some r) (he : r.emplaces = [])
    (hok : RunOk cfg s r) (hx : pushFields (s.node.mem r.task) = some x) :
    r.mode = .skip ∧ ranTask r (s.node.mem r.task) out = s.node.mem r.task ∨
      AtCall r.task r ∧ ranTask r (s.node.mem r.task) out = push s (s.node.mem r.task) x := by
  have hmode : r.mode = .skip ∨ r.mode = .call := by
    rcases hok.push x hx with ⟨-, hmode⟩ | ⟨hmode, -⟩
    · exact hmode
    · exact Or.inr hmode
  rcases hmode with hmode | hmode
  · exact Or.inl ⟨hmode, by simp only [ranTask, hmode]⟩
  · right
    refine ⟨⟨rfl, hmode, he⟩, ?_⟩
    rcases hlabel r hr with ⟨x', hx', rfl⟩ | ⟨hnone, -⟩
    · rw [hx, Option.some.injEq] at hx'
      subst hx'
      simp only [ranTask, hmode]
    · rw [hx] at hnone
      cases hnone

theorem PushMove.finish (h : Ready cfg s i t) {w : WorkerId} {out : Task (Own β)} {r : Running (Own β)}
    {x : PushFields} (hi : i = .finish w out) (hr : s.node.running w = some r) (he : r.emplaces = [])
    (hx : pushFields (s.node.mem r.task) = some x)
    (hm : t.mem r.task = ranTask r (s.node.mem r.task) out ∨
      (ranTask r (s.node.mem r.task) out).isModuleComplete = true ∧
        t.mem r.task = (ranTask r (s.node.mem r.task) out).setComplete)
    (hpl : ¬AtCall r.task r → (Placed t.tasksView r.task ↔ Placed s.node.tasksView r.task)) :
    PushMove s i t r.task x := by
  have hput : ∀ w, i ≠ .put w := by
    rintro w' rfl
    cases hi
  have hlabel := h.label
  rw [hi] at hlabel
  rcases finish_push hlabel hr he (h.running w r hr) hx with ⟨hmode, hran⟩ | ⟨hcall, hran⟩
  · have hskip : ¬AtCall r.task r := by
      intro hcall
      rw [hcall.mode] at hmode
      cases hmode
    rw [hran] at hm
    rcases hm with hm | ⟨hc, hm⟩
    · exact .same hm (hpl hskip) (fun w _ hi => absurd hi (hput w))
    · exact .skipped hc hm (hpl hskip) hput
  · rw [hran] at hm
    refine .ran ⟨w, r, hr, hcall⟩ hput ?_
    rcases hm with hm | ⟨hc, hm⟩
    · exact Or.inl hm
    · exact Or.inr ⟨hm, hc⟩

theorem PushMove.start {w : WorkerId} {es : List (LaneRef × Task (Own β))} (h : Ready cfg s (.scan w es) t)
    (hsub : SubReady s) {p : TaskPtr} {x : PushFields} {exec : Instance} (hx : pushFields (s.node.mem p) = some x)
    (hidle : s.node.tasksView.Idle p) (hr : t.running w = some (started cfg.poll (s.node.mem p) p exec es))
    (hm : t.mem p = (execute cfg.poll (s.node.mem p) p exec es).task)
    (hother : ∀ w', w' ≠ w → t.tasksView.running w' = s.node.tasksView.running w') :
    PushMove s (.scan w es) t p x := by
  have hplain := h.plain p x hidle.known hx
  have hfaced : faced s.node w = some p := scan_faced h.step hr
  obtain ⟨-, hstart⟩ := started_runOk exec h.label hfaced (fun _ _ => hplain)
    (fun x hx hphase => hsub p x hidle.known hx hphase (not_placed_of_idle hidle))
  obtain ⟨-, hcase⟩ := hstart x hx
  refine .begin ?_ (not_placed_of_idle hidle) ?_ (by simp)
  · rw [hm, hplain.execute]
  · rintro ⟨w', r', hr', hcall⟩
    by_cases hw' : w' = w
    · subst hw'
      rw [show t.tasksView.running w' = t.running w' from rfl, hr, Option.some.injEq] at hr'
      subst hr'
      rcases hcase with ⟨-, hphase⟩ | ⟨-, y, -, hone⟩
      · exact hphase
      · have hnil := hcall.emplaces
        rw [hone] at hnil
        cases hnil
    · rw [hother w' hw'] at hr'
      exact absurd hcall.task (hidle.free w' r' hr')

theorem PushMove.put_of_view {w : WorkerId} {r : Running (Own β)} {dst : LaneRef} {y : Task (Own β)}
    {es : List (LaneRef × Task (Own β))} (h : Ready cfg s (.put w) t) {p : TaskPtr} {x : PushFields}
    (hp : p < s.node.next) (hx : pushFields (s.node.mem p) = some x) (hr : s.node.tasksView.running w = some r)
    (he : r.emplaces = (dst, y) :: es) (hv : t.tasksView = (s.node.tasksView.new y).setRunning w
      (some { r with emplaces := es, blocked := false })) : PushMove s (.put w) t p x := by
  have hm : t.mem p = s.node.mem p := by
    rw [show t.mem = t.tasksView.mem from rfl, hv]
    exact TasksView.new_of_lt _ y hp
  have hnext : t.next = s.node.next + 1 := by
    rw [show t.next = t.tasksView.next from rfl, hv]
    rfl
  by_cases hq : r.task = p
  · subst hq
    rcases (h.running w r hr).push x hx with ⟨hnil, -⟩ | ⟨hmode, hphase, z, -, hone⟩
    · rw [he] at hnil
      cases hnil
    · rw [he] at hone
      refine .put w r rfl hr rfl hm ?_ hphase hnext ?_
      · -- nobody else is at the push that a worker is at
        rintro ⟨w', r', hr', hcall⟩
        have hw := h.exclusive.unique w w' r r' hr hr' hcall.task
        subst hw
        rw [hr, Option.some.injEq] at hr'
        subst hr'
        have hnil := hcall.emplaces
        rw [he] at hnil
        cases hnil
      · rw [hv]
        exact ⟨w, _, TasksView.setRunning_self .., ⟨rfl, hmode, (List.cons.inj hone).2⟩⟩
  · refine .same hm ?_ ?_
    · rw [hv]
      refine (placed_setRunning_other ?_ ?_).trans Iff.rfl
      · intro r₀ hr₀ hcall
        change s.node.tasksView.running w = some r₀ at hr₀
        rw [hr, Option.some.injEq] at hr₀
        subst hr₀
        exact hq hcall.task
      · rintro r₁ ⟨⟩ hcall
        exact hq hcall.task
    · intro w' r' hi hr' ht
      cases hi
      rw [show s.node.running w = s.node.tasksView.running w from rfl, hr, Option.some.injEq] at hr'
      subst hr'
      exact absurd ht hq

theorem PushMove.finish_of_view {w : WorkerId} {out y : Task (Own β)} {r : Running (Own β)}
    (h : Ready cfg s (.finish w out) t) {p : TaskPtr} {x : PushFields} (hx : pushFields (s.node.mem p) = some x)
    (hr : s.node.tasksView.running w = some r) (he : r.emplaces = [])
    (hmem : t.tasksView.mem = (s.node.tasksView.setTask r.task y).mem)
    (hy : y = ranTask r (s.node.mem r.task) out ∨
      (ranTask r (s.node.mem r.task) out).isModuleComplete = true ∧
        y = (ranTask r (s.node.mem r.task) out).setComplete)
    (hpl : ¬AtCall p r → (Placed t.tasksView p ↔ Placed s.node.tasksView p)) : PushMove s (.finish w out) t p x := by
  by_cases hq : r.task = p
  · subst hq
    have hself : t.mem r.task = y := (congrFun hmem r.task).trans (TasksView.setTask_self ..)
    refine .finish h rfl hr he hx ?_ hpl
    rw [hself]
    exact hy
  · have hother : t.mem p = s.node.mem p := (congrFun hmem p).trans (TasksView.setTask_of_ne _ _ (Ne.symm hq))
    exact .same hother (hpl fun hcall => hq hcall.task) (by simp)

theorem step_push (h : Ready cfg s i t) (hsub : SubReady s) {p : TaskPtr} {x : PushFields} (hp : p < s.node.next)
    (hx : pushFields (s.node.mem p) = some x) : PushMove s i t p x := by
  have htasks := h.tasks
  have hlabel := h.label
  have hmem : t.mem = t.tasksView.mem := rfl
  have hnext : t.next = t.tasksView.next := rfl
  have hrun : ∀ w, t.running w = t.tasksView.running w := fun _ => rfl
  generalize hv : t.tasksView = v' at htasks hmem hnext hrun
  cases htasks with
  | quiet =>
    refine .same (by rw [hmem]; rfl) (by rw [hv]) ?_
    intro w r _ _ _
    rw [hnext]
    rfl
  | new l y hown =>
    refine .same (by rw [hmem]; exact TasksView.new_of_lt _ y hp) (by rw [hv]; exact Iff.rfl) ?_
    intro w r hi
    cases hi
  | skip w es q exec hidle hw =>
    refine .same (by rw [hmem]; rfl) ?_ ?_
    · rw [hv]
      apply placed_setRunning_other
      · intro r₀ hr₀
        rw [hw] at hr₀
        cases hr₀
      · rintro r₁ ⟨⟩ hcall
        cases hcall.mode
    · intro w r hi
      cases hi
  | start w es q exec hidle hw hd hexec hes =>
    by_cases hq : p = q
    · subst hq
      have hstart : t.running w = some (started cfg.poll (s.node.mem p) p exec es) := by
        rw [hrun]
        exact TasksView.setRunning_self ..
      refine .start h hsub hx hidle hstart ?_ ?_
      · rw [hmem]
        exact TasksView.setTask_self ..
      · intro w' hw'
        rw [hv]
        exact TasksView.setRunning_of_ne _ _ hw'
    · refine .same (by rw [hmem]; exact TasksView.setTask_of_ne _ _ hq) ?_ ?_
      · rw [hv]
        refine (placed_setRunning_other ?_ ?_).trans Iff.rfl
        · intro r₀ hr₀
          change s.node.tasksView.running w = some r₀ at hr₀
          rw [hw] at hr₀
          cases hr₀
        · rintro r₁ ⟨⟩ hcall
          exact hq hcall.task.symm
      · intro w r hi
        cases hi
  | put w r dst y es hr he => exact .put_of_view h hp hx hr he hv
  | block w r hr =>
    refine .same (by rw [hmem]; rfl) ?_ (by rw [hnext]; intros; rfl)
    rw [hv]
    apply placed_setRunning
    constructor
    · rintro ⟨r₀, hr₀, hcall⟩
      rw [hr, Option.some.injEq] at hr₀
      subst hr₀
      exact ⟨_, rfl, ⟨hcall.task, hcall.mode, hcall.emplaces⟩⟩
    · rintro ⟨r₁, ⟨⟩, hcall⟩
      exact ⟨r, hr, ⟨hcall.task, hcall.mode, hcall.emplaces⟩⟩
  | again w out r hr he hout =>
    refine .finish_of_view h hx hr he (by rw [hv]; rfl) (Or.inl rfl) ?_
    intro hcall
    rw [hv]
    exact (placed_leave hr hcall).trans Iff.rfl
  | halt w out r hr he hout =>
    refine .finish_of_view h hx hr he (by rw [hv]; rfl) (Or.inl rfl) ?_
    intro _
    rw [hv]
    exact Iff.rfl
  | done w out r y hr he hout hm hy =>
    refine .finish_of_view h hx hr he (by rw [hv]; rfl) (hy.imp id fun hy => ⟨hm, hy⟩) ?_
    intro hcall
    rw [hv]
    exact (placed_leave hr hcall).trans Iff.rfl
  | write q y hq hy =>
    have hne : p ≠ q := by
      rintro rfl
      have hnone := hlabel.1
      rw [hx] at hnone
      cases hnone
    exact .same (by rw [hmem]; exact TasksView.setTask_of_ne _ _ hne) (by rw [hv]; exact Iff.rfl) (by simp)

end Steps

end HermesRun.ProcQueue
