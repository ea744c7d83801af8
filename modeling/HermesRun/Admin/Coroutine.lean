import HermesRun.Admin.Policies

namespace HermesRun.AdminServer

open Poll Runs
open Admin (CreateTaskStateTask)
open RemoteQueue (execute_isComplete execute_isModuleComplete)

variable {β : Type}

def entered (n : ℕ) : List StackEvent := .alloc :: List.replicate (n + 1) .jump

structure Entered (s : State β) (p : TaskPtr) : Prop where
  history : ∃ n, s.history p = entered n
  started : (s.node.mem p).isStarted = true
  notDone : (s.node.mem p).isModuleComplete = false

def StillEmplaces (s : State β) (p : TaskPtr) (P : List (LaneRef × Task (Own β)) → Prop) : Prop :=
  ∀ w r, s.node.running w = some r → r.task = p → r.mode.runs = true → P r.emplaces

inductive Stage (s : State β) (p : TaskPtr) : Prop
  | start (hp : s.position p = .start) (hh : s.history p = []) (hs : (s.node.mem p).isStarted = false)
      (hm : (s.node.mem p).isModuleComplete = false) (he : StillEmplaces s p (· = []))
      (hend : ¬s.node.tasksView.ended p)
  | asking (hp : s.position p = .asking) (h : Entered s p) (hin : InHandler s p)
      (he : StillEmplaces s p fun es => ∃ e, es = [e] ∧ role e.2 = .getOrCreateTaskStateId)
  | waiting (getId : TaskPtr) (hp : s.position p = .waiting getId) (h : Entered s p) (hg : getId < s.node.next)
      (hr : role (s.node.mem getId) = .getOrCreateTaskStateId) (he : StillEmplaces s p (· = []))
      (hend : ¬s.node.tasksView.ended p)
  | returning (ret : Return) (hp : s.position p = .returning ret) (h : Entered s p) (hin : InHandler s p)
      (he : StillEmplaces s p (· = [])) (hret : s.admin.halted = false → ret.moduleComplete = true)
  | returned (n : ℕ) (hp : s.position p = .returned) (hh : s.history p = entered n ++ [.ret, .free])
      (hm : (s.node.mem p).isModuleComplete = true) (hend : s.node.tasksView.ended p ∨ s.node.halted = true)

structure Sent (s : State β) (p : TaskPtr) : Prop where
  history : s.history p = []
  flags : (s.node.mem p).isCoroutine = false ∨ (s.node.mem p).isModuleComplete = false ∧ begun s.node p = false ∨
    ∃ w r, s.node.running w = some r ∧ r.task = p ∧ r.mode = .disperse

structure Coroutines (cfg : Config β) (s : State β) : Prop where
  good : Good cfg s
  known : ∀ p, begun s.node p = true ∨ s.node.tasksView.ended p → p < s.node.next
  modes : ∀ w r, s.node.running w = some r → role (s.node.mem r.task) = .createTaskState →
    r.mode = .skip ∨ r.mode = if isRemote cfg.poll (s.node.mem r.task) then .disperse else .resume
  sent : ∀ p, p < s.node.next → role (s.node.mem p) = .createTaskState → isRemote cfg.poll (s.node.mem p) = true →
    Sent s p
  coroutine : ∀ p, p < s.node.next → role (s.node.mem p) = .createTaskState →
    isRemote cfg.poll (s.node.mem p) = false → (s.node.mem p).isCoroutine = true
  stage : ∀ p, p < s.node.next → role (s.node.mem p) = .createTaskState → isRemote cfg.poll (s.node.mem p) = false →
    Stage s p

def knownId (s : State β) (p : TaskPtr) (x : CreateTaskStateTask) : Option TaskStateId :=
  match s.position p with
  | .start => if (s.admin.registry.getTaskState x.stateName x.id).isSome then none else some x.id
  | .waiting getId =>
    if (s.node.mem getId).isComplete then match (s.node.mem getId).body with
      | .own (.getOrCreateTaskStateId _ id) => some id
      | _ => none
    else none
  | _ => none

/-- The handler of the request, when it is called, comes to `create_state` of a library whose `Run` does nothing at
`kConstruct`. -/
def ConstructsNothing (cfg : Config β) (s : State β) (p : TaskPtr) : Prop :=
  ∃ x id, (s.node.mem p).body = .own (.createTaskState x) ∧ knownId s p x = some id ∧
    s.admin.registry.Instantiates x.libName id ∧ (s.admin.createQueue id x.queueInfo).halted = false ∧
    cfg.constructs x.libName = false

def CallsIdleConstruct (cfg : Config β) (s t : State β) : Prop :=
  ∃ w r, s.node.running w = none ∧ t.node.running w = some r ∧ r.mode.runs = true ∧ ConstructsNothing cfg s r.task

section Calls

variable {cfg : Config β} {s v : State β} {p : TaskPtr}

theorem createTaskStateEnd_halted (n : Admin.Node) (x : CreateTaskStateTask)
    (h : n.registry.Instantiates x.libName x.id) :
    (n.createTaskStateEnd x).halted = (n.createQueue x.id x.queueInfo).halted := by
  obtain ⟨hnull, -, hnone⟩ := h
  have hexists : n.registry.taskStateExists x.id = false := by
    rw [TaskRegistry.taskStateExists, hnone]
    rfl
  simp only [Admin.Node.createTaskStateEnd, hnull, hexists, Bool.false_eq_true, if_false]
  split_ifs <;> rfl

theorem createTaskStateEnd_returning (cfg : Config β) (s : State β) (p : TaskPtr) (x : CreateTaskStateTask) :
    (s.createTaskStateEnd cfg p x).node = s.node ∧ ∃ ret, (s.createTaskStateEnd cfg p x).position p = .returning ret ∧
      ((s.createTaskStateEnd cfg p x).admin.halted = false → ret.moduleComplete = false →
        s.admin.registry.Instantiates x.libName x.id ∧ (s.admin.createQueue x.id x.queueInfo).halted = false ∧
          cfg.constructs x.libName = false) := by
  unfold State.createTaskStateEnd
  split_ifs with hexists
  · refine ⟨rfl, _, Function.update_self .., ?_⟩
    rintro - ⟨⟩
  · refine ⟨rfl, _, Function.update_self .., ?_⟩
    intro hhalted hmc
    simp only [Bool.or_eq_false_iff, Bool.not_eq_false', decide_eq_true_eq] at hmc
    obtain ⟨hinst, hconstructs⟩ := hmc
    refine ⟨hinst, ?_, hconstructs⟩
    rw [← createTaskStateEnd_halted _ _ hinst]
    exact hhalted

theorem createTaskState_body (h : role (s.node.mem p) = .createTaskState) :
    ∃ x, (s.node.mem p).body = .own (.createTaskState x) := by
  cases hb : (s.node.mem p).body with
  | push i =>
    rw [role, hb] at h
    cases h
  | own a =>
    rw [role, hb] at h
    cases a <;> cases h
    exact ⟨_, rfl⟩

theorem call_createTaskState {x : CreateTaskStateTask} (hb : (s.node.mem p).body = .own (.createTaskState x)) :
    call cfg s p = s.jump cfg p x := by
  unfold call
  rw [hb]

theorem call_start (cfg : Config β) {x : CreateTaskStateTask} (hb : (s.node.mem p).body = .own (.createTaskState x))
    (hp : s.position p = .start) : (call cfg s p).node = s.node ∧
      if (s.admin.registry.getTaskState x.stateName x.id).isNone && x.id.isNull then
        (call cfg s p).position p = .asking
      else ∃ ret, (call cfg s p).position p = .returning ret ∧ ((call cfg s p).admin.halted = false →
        ret.moduleComplete = true ∨ ConstructsNothing cfg s p) := by
  rw [call_createTaskState hb]
  simp only [State.jump, hp, State.createTaskState]
  cases hstate : s.admin.registry.getTaskState x.stateName x.id with
  | some state => exact ⟨rfl, _, Function.update_self .., fun _ => Or.inl rfl⟩
  | none =>
    by_cases hnull : x.id.isNull = true
    · simp only [hnull, Option.isNone_none, Bool.and_true, if_true]
      exact ⟨rfl, Function.update_self ..⟩
    · simp only [hnull, Option.isNone_none, Bool.and_false, Bool.false_eq_true, if_false]
      obtain ⟨hnode, ret, hret, hmc⟩ := createTaskStateEnd_returning cfg s p x
      refine ⟨hnode, ret, hret, ?_⟩
      intro hhalted
      cases hdone : ret.moduleComplete with
      | true => exact Or.inl rfl
      | false =>
        obtain ⟨hinst, hqueue, hconstructs⟩ := hmc hhalted hdone
        refine Or.inr ⟨x, x.id, hb, ?_, hinst, hqueue, hconstructs⟩
        simp only [knownId, hp, hstate, Option.isSome_none, Bool.false_eq_true, if_false]

theorem call_waiting (cfg : Config β) {x : CreateTaskStateTask} (hb : (s.node.mem p).body = .own (.createTaskState x))
    {getId : TaskPtr} (hp : s.position p = .waiting getId) : (call cfg s p).node = s.node ∧
      ((call cfg s p).position p = .waiting getId ∨ ∃ ret, (call cfg s p).position p = .returning ret ∧
        ((call cfg s p).admin.halted = false → ret.moduleComplete = true ∨ ConstructsNothing cfg s p)) := by
  rw [call_createTaskState hb]
  simp only [State.jump, hp]
  split_ifs with hcomplete
  · split
    · next name id hget =>
      obtain ⟨hnode, ret, hret, hmc⟩ := createTaskStateEnd_returning cfg s p { x with id := id }
      refine ⟨hnode, Or.inr ⟨ret, hret, ?_⟩⟩
      intro hhalted
      cases hdone : ret.moduleComplete with
      | true => exact Or.inl rfl
      | false =>
        obtain ⟨hinst, hqueue, hconstructs⟩ := hmc hhalted hdone
        refine Or.inr ⟨x, id, hb, ?_, hinst, hqueue, hconstructs⟩
        simp only [knownId, hp, hcomplete, if_true, hget]
    · exact ⟨rfl, Or.inl hp⟩
  · exact ⟨rfl, Or.inl hp⟩

end Calls

section Frame

variable {s u : State β} {p : TaskPtr}

theorem Entered.frame (h : Entered s p) (hhist : u.history p = s.history p)
    (hs : (u.node.mem p).isStarted = (s.node.mem p).isStarted)
    (hm : (u.node.mem p).isModuleComplete = (s.node.mem p).isModuleComplete) : Entered u p :=
  ⟨by rw [hhist]; exact h.history, by rw [hs, h.started], by rw [hm, h.notDone]⟩

structure Elsewhere (s u : State β) (p : TaskPtr) : Prop where
  position : u.position p = s.position p
  history : u.history p = s.history p
  started : (u.node.mem p).isStarted = (s.node.mem p).isStarted
  moduleComplete : (u.node.mem p).isModuleComplete = (s.node.mem p).isModuleComplete
  coroutine : (u.node.mem p).isCoroutine = (s.node.mem p).isCoroutine
  stays : ∀ w r, s.node.running w = some r → r.task = p → ∃ r', u.node.running w = some r' ∧ r'.task = p ∧
    r'.mode = r.mode
  comes : ∀ w r, u.node.running w = some r → r.task = p → r.mode.runs = true → ∃ r', s.node.running w = some r' ∧
    r'.task = p ∧ r'.mode.runs = true ∧ r'.emplaces = r.emplaces

theorem Elsewhere.inHandler (h : Elsewhere s u p) (hin : InHandler s p) : InHandler u p := by
  obtain ⟨w, r, hr, ht, hruns⟩ := hin
  obtain ⟨r', hr', ht', hm⟩ := h.stays w r hr ht
  exact ⟨w, r', hr', ht', by rw [hm, hruns]⟩

theorem Elsewhere.stillEmplaces (h : Elsewhere s u p) {P : List (LaneRef × Task (Own β)) → Prop}
    (hP : StillEmplaces s p P) : StillEmplaces u p P := by
  intro w r hr ht hruns
  obtain ⟨r', hr', ht', hruns', he⟩ := h.comes w r hr ht hruns
  rw [← he]
  exact hP w r' hr' ht' hruns'

theorem Stage.elsewhere (hstage : Stage s p) (h : Elsewhere s u p) (hadmin : s.admin.halted = false)
    (hnext : s.node.next ≤ u.node.next) (hrole : ∀ q, q < s.node.next → role (u.node.mem q) = role (s.node.mem q))
    (hended : u.node.tasksView.ended p ↔ s.node.tasksView.ended p) (hhalted : s.node.halted = false) : Stage u p := by
  cases hstage with
  | start hp hh hs hm he hend =>
    exact .start (by rw [h.position, hp]) (by rw [h.history, hh]) (by rw [h.started, hs])
      (by rw [h.moduleComplete, hm]) (h.stillEmplaces he) (by rw [hended]; exact hend)
  | asking hp hent hin he =>
    exact .asking (by rw [h.position, hp]) (hent.frame h.history h.started h.moduleComplete) (h.inHandler hin)
      (h.stillEmplaces he)
  | waiting getId hp hent hg hr he hend =>
    exact .waiting getId (by rw [h.position, hp]) (hent.frame h.history h.started h.moduleComplete)
      (Nat.lt_of_lt_of_le hg hnext) (by rw [hrole getId hg, hr]) (h.stillEmplaces he) (by rw [hended]; exact hend)
  | returning ret hp hent hin he hret =>
    exact .returning ret (by rw [h.position, hp]) (hent.frame h.history h.started h.moduleComplete) (h.inHandler hin)
      (h.stillEmplaces he) (fun _ => hret hadmin)
  | returned n hp hh hm hend =>
    refine .returned n (by rw [h.position, hp]) (by rw [h.history, hh]) (by rw [h.moduleComplete, hm]) (Or.inl ?_)
    rcases hend with hend | hhalt
    · exact hended.mpr hend
    · rw [hhalted] at hhalt
      cases hhalt

theorem Stage.idle (hstage : Stage s p) (hidle : s.node.tasksView.Idle p) (hhalted : s.node.halted = false) :
    s.position p = .start ∧ s.history p = [] ∧ (s.node.mem p).isStarted = false ∧
      (s.node.mem p).isModuleComplete = false ∨
    ∃ getId, s.position p = .waiting getId ∧ Entered s p ∧ getId < s.node.next ∧
      role (s.node.mem getId) = .getOrCreateTaskStateId := by
  have hfree : ¬InHandler s p := by
    rintro ⟨w, r, hr, ht, -⟩
    exact hidle.free w r hr ht
  cases hstage with
  | start hp hh hs hm he hend => exact Or.inl ⟨hp, hh, hs, hm⟩
  | asking hp hent hin he => exact absurd hin hfree
  | waiting getId hp hent hg hr he hend => exact Or.inr ⟨getId, hp, hent, hg, hr⟩
  | returning ret hp hent hin he hret => exact absurd hin hfree
  | returned n hp hh hm hend =>
    rcases hend with hend | hhalt
    · exact absurd hend hidle.notEnded
    · rw [hhalted] at hhalt
      cases hhalt

end Frame

section Elsewhere

variable {cfg : Config β} {s : State β} {i : Poll.Label (Own β)} {t : Poll.State (Own β)} {p : TaskPtr}

theorem Good.track_mem (h : Good cfg s) (hr : Ready cfg s i t) (hrole : role (s.node.mem p) = .createTaskState) :
    (track cfg s i t).node.mem p = t.mem p := by
  rcases track_frame h.inv.base hr with heq | ⟨q, -, hframe⟩
  · rw [heq]
  · rcases hframe.node.mem p with hm | ⟨⟨c, hc, hshm⟩, -⟩
    · exact hm
    · obtain ⟨j, hj⟩ := List.mem_iff_getElem?.mp hc
      obtain ⟨-, hsched, -⟩ := (h.inv.scheduler j c hj).shm p hshm
      rw [hrole] at hsched
      cases hsched

theorem Good.track_running (h : Good cfg s) (hr : Ready cfg s i t) : (track cfg s i t).node.running = t.running := by
  rcases track_frame h.inv.base hr with heq | ⟨q, -, hframe⟩
  · rw [heq]
  · exact hframe.node.running

theorem Good.track_log (h : Good cfg s) (hr : Ready cfg s i t) : (track cfg s i t).node.log = t.log := by
  rcases track_frame h.inv.base hr with heq | ⟨q, -, hframe⟩
  · rw [heq]
  · exact hframe.node.log

theorem Good.track_ended (h : Good cfg s) (hr : Ready cfg s i t) :
    (track cfg s i t).node.tasksView.ended p ↔ t.tasksView.ended p := by
  show .endTask p ∈ (track cfg s i t).node.log ↔ _
  rw [h.track_log hr]
  exact Iff.rfl

theorem Ready.ended_iff (hr : Ready cfg s i t)
    (hfinish : ∀ w out r, i = .finish w out → s.node.running w = some r → r.task ≠ p) :
    t.tasksView.ended p ↔ s.node.tasksView.ended p := by
  constructor
  · intro hend
    rcases hr.tasks.ends hend with hold | ⟨w, out, r, hi, hrun, ht, -⟩
    · exact hold
    · exact absurd ht (hfinish w out r hi hrun)
  · exact hr.tasks.ended

theorem Good.track_next (h : Good cfg s) (hr : Ready cfg s i t) : (track cfg s i t).node.next = t.next := by
  rcases track_frame h.inv.base hr with heq | ⟨q, -, hframe⟩
  · rw [heq]
  · exact hframe.node.next

theorem Good.track_same (h : Good cfg s) (hr : Ready cfg s i t) (hp : p < s.node.next) :
    Same (s.node.mem p) ((track cfg s i t).node.mem p) := by
  rcases track_frame h.inv.base hr with heq | ⟨q, -, hframe⟩
  · rw [heq]
    exact step_same hr hp
  · exact (step_same hr hp).trans (hframe.node.task p)

theorem elsewhere_of (h : Good cfg s) (hr : Ready cfg s i t)
    (hrole : role (s.node.mem p) = .createTaskState)
    (hpos : (track cfg s i t).position p = s.position p) (hhist : (track cfg s i t).history p = s.history p)
    (hmem : (t.mem p).isStarted = (s.node.mem p).isStarted ∧
      (t.mem p).isModuleComplete = (s.node.mem p).isModuleComplete ∧
      (t.mem p).isCoroutine = (s.node.mem p).isCoroutine)
    (hscan : ∀ w es r, i = .scan w es → t.running w = some r → r.task = p → r.mode.runs = false)
    (hput : ∀ w r, i = .put w → s.node.running w = some r → r.task = p → r.mode.runs = true → t.next = s.node.next)
    (hfinish : ∀ w out r, i = .finish w out → s.node.running w = some r → r.task ≠ p) :
    Elsewhere s (track cfg s i t) p := by
  have hrunning := h.track_running hr
  refine ⟨hpos, hhist, ?_, ?_, ?_, ?_, ?_⟩
  · rw [h.track_mem hr hrole]
    exact hmem.1
  · rw [h.track_mem hr hrole]
    exact hmem.2.1
  · rw [h.track_mem hr hrole]
    exact hmem.2.2
  · rw [hrunning]
    intro w r hrun ht
    cases hr.tasks.runMove hrun with
    | same hrun' => exact ⟨r, hrun', ht, rfl⟩
    | put dst x es hi he hrun' => exact ⟨_, hrun', ht, rfl⟩
    | block hi hrun' => exact ⟨_, hrun', ht, rfl⟩
    | finish out hi he => exact absurd ht (hfinish w out r hi hrun)
  · rw [hrunning]
    intro w r hrun ht hruns
    cases hr.tasks.runOrigin hrun with
    | same hold => exact ⟨r, hold, ht, hruns, rfl⟩
    | skip es hi hidle hm he =>
      rw [hm] at hruns
      cases hruns
    | start es exec hi hidle heq =>
      rw [hscan w es r hi hrun ht] at hruns
      cases hruns
    | put r₀ hi hold ht₀ hm he =>
      have ht' : r₀.task = p := by rw [← ht₀, ht]
      have hruns' : r₀.mode.runs = true := by rw [← hm, hruns]
      refine ⟨r₀, hold, ht', hruns', ?_⟩
      have hnext := hput w r₀ hi hold ht' hruns'
      cases hr.tasks.runMove hold with
      | same hrun' =>
        rw [show t.tasksView.running w = t.running w from rfl, hrun, Option.some.injEq] at hrun'
        rw [hrun']
      | put dst x es hi' he' hrun' hsucc =>
        change t.next = s.node.next + 1 at hsucc
        rw [hnext] at hsucc
        exact absurd hsucc (Nat.ne_of_lt (Nat.lt_succ_self _))
      | block hi' hrun' =>
        rw [show t.tasksView.running w = t.running w from rfl, hrun, Option.some.injEq] at hrun'
        rw [hrun']
      | finish out hi' he' =>
        rw [hi] at hi'
        cases hi'

theorem mem_same (hr : Ready cfg s i t) (hp : p < s.node.next)
    (hscan : ∀ w es r, i = .scan w es → t.running w = some r → r.task ≠ p)
    (hfinish : ∀ w out r, i = .finish w out → s.node.running w = some r → r.task ≠ p) (hwrite : ∀ x, i ≠ .write p x) :
    t.mem p = s.node.mem p := by
  cases hr.tasks.move hp with
  | same hm => exact hm
  | start w es exec hi hidle hrun hm => exact absurd rfl (hscan w es _ hi hrun)
  | ran w out r hi hrun ht he hm => exact absurd ht (hfinish w out r hi hrun)
  | write x hi hm => exact absurd hi (hwrite x)

theorem logs_stackAlloc {w : WorkerId} {es : List (LaneRef × Task (Own β))} {r : Running (Own β)}
    (hr : Ready cfg s (.scan w es) t) (hrun : t.running w = some r) : logs s.node t (.stackAlloc r.task) =
      (decide (r.mode ≠ .skip) && (!isRemote cfg.poll (s.node.mem r.task) && (s.node.mem r.task).isCoroutine &&
        !(s.node.mem r.task).isStarted)) := by
  obtain ⟨-, -, c, hlog⟩ := scan_running hr.step hrun
  have hderef : (Event.deref r.task :: s.node.log).count (.stackAlloc r.task) =
      s.node.log.count (.stackAlloc r.task) := List.count_cons_of_ne (by simp)
  rw [logs, hlog, List.count_append, hderef]
  by_cases hskip : r.mode = .skip
  · rw [if_pos hskip, hskip]
    simp
  · rw [if_neg hskip, attemptEvents_stackAlloc]
    simp only [ne_eq, hskip, not_false_eq_true, decide_true, Bool.true_and]
    split_ifs with hnew
    · rw [show (s.node.emit (.deref r.task)).mem = s.node.mem from rfl] at hnew
      rw [hnew]
      simp
    · rw [show (s.node.emit (.deref r.task)).mem = s.node.mem from rfl, Bool.not_eq_true] at hnew
      rw [hnew]
      simp

theorem started_mode {x : Task (Own β)} {q : TaskPtr} {exec : Instance} {es : List (LaneRef × Task (Own β))}
    (hco : isRemote cfg.poll x = false → x.isCoroutine = true) :
    (started cfg.poll x q exec es).mode = if isRemote cfg.poll x then .disperse else .resume := by
  simp only [started]
  unfold execute
  cases hremote : isRemote cfg.poll x with
  | true => rfl
  | false =>
    simp only [hco hremote, if_true, Bool.false_eq_true, if_false]
    split_ifs <;> rfl

theorem execute_flags {x : Task (Own β)} (q : TaskPtr) (exec : Instance) (es : List (LaneRef × Task (Own β)))
    (hremote : isRemote cfg.poll x = true) : (execute cfg.poll x q exec es).task.taskFlags = x.taskFlags := by
  unfold execute
  rw [if_pos hremote]
  unfold replicateStart
  cases x.body <;> rfl

theorem elsewhere_scan (h : Coroutines cfg s) {w : WorkerId} {es : List (LaneRef × Task (Own β))}
    (hr : Ready cfg s (.scan w es) t) (hp : p < s.node.next) (hrole : role (s.node.mem p) = .createTaskState)
    (hidle : ∀ r, t.running w = some r → r.task = p → r.mode.runs = false) :
    Elsewhere s (track cfg s (.scan w es) t) p := by
  obtain ⟨hpos, hhist, hflags⟩ : (track cfg s (.scan w es) t).position p = s.position p ∧
      (track cfg s (.scan w es) t).history p = s.history p ∧ (t.mem p).taskFlags = (s.node.mem p).taskFlags := by
    have hother : (∀ r, t.running w = some r → r.task ≠ p) → t.mem p = s.node.mem p := by
      intro hne
      refine mem_same hr hp ?_ (fun _ _ _ hi => by cases hi) (by simp)
      intro w' es' r hi hrun
      cases hi
      exact hne r hrun
    cases hrun : t.running w with
    | none =>
      have hmem := hother (fun r hr' => by rw [hrun] at hr'; cases hr')
      simp only [track, hrun, hmem]
      exact ⟨trivial, trivial, trivial⟩
    | some r =>
      have hframe : TrackFrame s t (track cfg s (.scan w es) t) r.task := track_scan_frame hrun
      by_cases ht : r.task = p
      · subst ht
        have hruns := hidle r hrun rfl
        have hmode : r.mode ≠ .resume := by
          intro hm
          rw [hm] at hruns
          cases hruns
        have hco := h.coroutine r.task hp hrole
        obtain ⟨-, -, ⟨hskip, hm⟩ | ⟨exec, hstart, hm⟩⟩ := hr.tasks.scanned hrun
        · have hevents : jumpEvents s.node t r = [] := by
            simp [jumpEvents, logs_stackAlloc hr hrun, hskip]
          simp only [track, hrun, if_neg (Bool.eq_false_iff.mp hruns), hevents, State.record, List.append_nil,
            Function.update_eq_self]
          exact ⟨trivial, trivial, congrArg (fun m => (m r.task).taskFlags) hm⟩
        · have hm' : r.mode = if isRemote cfg.poll (s.node.mem r.task) then .disperse else .resume := by
            rw [hstart]
            exact started_mode hco
          have hremote : isRemote cfg.poll (s.node.mem r.task) = true := by
            by_contra hlocal
            rw [if_neg hlocal] at hm'
            exact hmode hm'
          have hevents : jumpEvents s.node t r = [] := by
            simp [jumpEvents, logs_stackAlloc hr hrun, hremote, hmode]
          simp only [track, hrun, if_neg (Bool.eq_false_iff.mp hruns), hevents, State.record, List.append_nil,
            Function.update_eq_self]
          refine ⟨trivial, trivial, ?_⟩
          rw [show t.mem r.task = _ from hm]
          exact execute_flags r.task exec es hremote
      · exact ⟨hframe.position p (Ne.symm ht), hframe.history p (Ne.symm ht),
          congrArg Task.taskFlags (hother (fun r' hr' => by
            rw [hrun, Option.some.injEq] at hr'
            rw [← hr']
            exact ht))⟩
  refine elsewhere_of h.good hr hrole hpos hhist ?_ ?_ ?_ ?_
  · simp only [Task.isStarted, Task.isModuleComplete, Task.isCoroutine, hflags]
    exact ⟨trivial, trivial, trivial⟩
  · intro w' es' r hi hrun ht
    cases hi
    exact hidle r hrun ht
  · intro w' r hi
    cases hi
  · intro w' out r hi
    cases hi

theorem elsewhere_put (h : Good cfg s) {w : WorkerId} (hr : Ready cfg s (.put w) t) (hp : p < s.node.next)
    (hrole : role (s.node.mem p) = .createTaskState)
    (hput : ∀ r, s.node.running w = some r → r.task = p → r.mode.runs = true → t.next = s.node.next) :
    Elsewhere s (track cfg s (.put w) t) p := by
  have hmem : t.mem p = s.node.mem p :=
    mem_same hr hp (fun _ _ _ hi => by cases hi) (fun _ _ _ hi => by cases hi) (by simp)
  have hframe : (track cfg s (.put w) t).position p = s.position p ∧
      (track cfg s (.put w) t).history p = s.history p := by
    cases hrun : s.node.running w with
    | none =>
      simp only [track, hrun]
      exact ⟨trivial, trivial⟩
    | some r =>
      by_cases ht : r.task = p
      · have hno : ¬(r.mode.runs && s.node.next < t.next) = true := by
          rw [Bool.and_eq_true, decide_eq_true_eq]
          rintro ⟨hruns, hlt⟩
          rw [hput r hrun ht hruns] at hlt
          exact Nat.lt_irrefl _ hlt
        simp only [track, hrun, if_neg hno]
        exact ⟨trivial, trivial⟩
      · have hframe : TrackFrame s t (track cfg s (.put w) t) r.task := track_put_frame hrun
        exact ⟨hframe.position p (Ne.symm ht), hframe.history p (Ne.symm ht)⟩
  refine elsewhere_of h hr hrole hframe.1 hframe.2 (by rw [hmem]; exact ⟨rfl, rfl, rfl⟩) ?_ ?_ ?_
  · intro w' es r hi
    cases hi
  · intro w' r hi hrun ht hruns
    cases hi
    exact hput r hrun ht hruns
  · intro w' out r hi
    cases hi

theorem elsewhere_finish (h : Good cfg s) {w : WorkerId} {out : Task (Own β)} (hr : Ready cfg s (.finish w out) t)
    (hp : p < s.node.next) (hrole : role (s.node.mem p) = .createTaskState)
    (hne : ∀ r, s.node.running w = some r → r.task ≠ p) : Elsewhere s (track cfg s (.finish w out) t) p := by
  have hother : ∀ w' out' r, (.finish w out : Poll.Label (Own β)) = .finish w' out' → s.node.running w' = some r →
      r.task ≠ p := by
    intro w' out' r hi hrun
    cases hi
    exact hne r hrun
  have hmem : t.mem p = s.node.mem p := mem_same hr hp (fun _ _ _ hi => by cases hi) hother (by simp)
  have hframe : (track cfg s (.finish w out) t).position p = s.position p ∧
      (track cfg s (.finish w out) t).history p = s.history p := by
    cases hrun : s.node.running w with
    | none =>
      simp only [track, hrun]
      exact ⟨trivial, trivial⟩
    | some r =>
      have hframe : TrackFrame s t (track cfg s (.finish w out) t) r.task := track_finish_frame hrun
      exact ⟨hframe.position p (hne r hrun).symm, hframe.history p (hne r hrun).symm⟩
  refine elsewhere_of h hr hrole hframe.1 hframe.2 (by rw [hmem]; exact ⟨rfl, rfl, rfl⟩) ?_ ?_ hother
  · intro w' es r hi
    cases hi
  · intro w' r hi
    cases hi

theorem elsewhere_quiet (h : Good cfg s) (hr : Ready cfg s i t) (hp : p < s.node.next)
    (hrole : role (s.node.mem p) = .createTaskState) (htrack : track cfg s i t = { s with node := t })
    (hscan : ∀ w es, i ≠ .scan w es) (hput : ∀ w, i ≠ .put w) (hfinish : ∀ w out, i ≠ .finish w out)
    (hwrite : ∀ x, i ≠ .write p x) : Elsewhere s (track cfg s i t) p := by
  have hmem : t.mem p = s.node.mem p :=
    mem_same hr hp (fun w es _ hi => absurd hi (hscan w es)) (fun w out _ hi => absurd hi (hfinish w out)) hwrite
  refine elsewhere_of h hr hrole (by rw [htrack]) (by rw [htrack]) (by rw [hmem]; exact ⟨rfl, rfl, rfl⟩) ?_ ?_ ?_
  · exact fun w es r hi => absurd hi (hscan w es)
  · exact fun w r hi => absurd hi (hput w)
  · exact fun w out r hi => absurd hi (hfinish w out)

end Elsewhere

section Acting

variable {cfg : Config β} {s : State β} {t : Poll.State (Own β)} {w : WorkerId} {r : Running (Own β)}

theorem entered_succ (n : ℕ) : entered n ++ [.jump] = entered (n + 1) := by
  rw [entered, List.cons_append, ← List.replicate_succ']
  rfl

theorem ConstructsNothing.before {v : State β} {p : TaskPtr} (h : ConstructsNothing cfg v p)
    (hadmin : v.admin = s.admin) (hpos : v.position p = s.position p)
    (hbody : (v.node.mem p).body = (s.node.mem p).body)
    (hmem : ∀ getId, s.position p = .waiting getId → v.node.mem getId = s.node.mem getId) :
    ConstructsNothing cfg s p := by
  obtain ⟨x, id, hb, hid, hinst, hqueue, hconstructs⟩ := h
  rw [hadmin] at hinst hqueue
  refine ⟨x, id, by rw [← hbody, hb], ?_, hinst, hqueue, hconstructs⟩
  rw [← hid]
  unfold knownId
  rw [hpos, hadmin]
  cases hp : s.position p with
  | waiting getId => simp only [hmem getId hp]
  | _ => rfl

structure Enters (cfg : Config β) (s : State β) (es : List (LaneRef × Task (Own β))) (t : Poll.State (Own β))
    (r : Running (Own β)) : Prop where
  mode : r.mode = .resume
  events : jumpEvents s.node t r = if (s.node.mem r.task).isStarted then [.jump] else [.alloc, .jump]
  body : (t.mem r.task).body = (s.node.mem r.task).body
  started : (t.mem r.task).isStarted = true
  moduleComplete : (t.mem r.task).isModuleComplete = (s.node.mem r.task).isModuleComplete
  others : ∀ q, q < s.node.next → q ≠ r.task → t.mem q = s.node.mem q
  emplaces : ∀ w' r', t.running w' = some r' → r'.task = r.task → r'.emplaces = handlerEmplaces cfg s r.task

theorem Coroutines.enters (h : Coroutines cfg s) {es : List (LaneRef × Task (Own β))}
    (hr : Ready cfg s (.scan w es) t) (hrun : t.running w = some r) (hruns : r.mode.runs = true)
    (hrole : role (s.node.mem r.task) = .createTaskState) : Enters cfg s es t r := by
  have hcalled := hr.called hrun hruns
  have hco := h.coroutine r.task hcalled.idle.known hrole hcalled.isLocal
  have hmode : r.mode = .resume := by
    obtain ⟨-, -, ⟨hskip, -⟩ | ⟨exec, hstart, -⟩⟩ := hr.tasks.scanned hrun
    · rw [hskip] at hruns
      cases hruns
    · have hmode : (started cfg.poll (s.node.mem r.task) r.task exec es).mode =
          if isRemote cfg.poll (s.node.mem r.task) then .disperse else .resume := started_mode (fun _ => hco)
      rw [hcalled.isLocal] at hmode
      exact (congrArg Running.mode hstart).trans hmode
  have hone : ∀ w' r', t.running w' = some r' → r'.task = r.task → r' = r := by
    intro w' r' hrun' ht
    have hw : w' = w := by
      cases hr.tasks.runOrigin hrun' with
      | same hold => exact absurd ht (hcalled.idle.free w' r' hold)
      | skip es' hi => cases hi; rfl
      | start es' exec hi => cases hi; rfl
      | put r₀ hi => cases hi
    rw [hw, hrun, Option.some.injEq] at hrun'
    exact hrun'.symm
  have hes := hr.label r.task hcalled.faced
  rw [if_pos (by rw [hrole]; rfl)] at hes
  refine ⟨hmode, ?_, ?_, ?_, ?_, ?_, ?_⟩
  · rw [jumpEvents, logs_stackAlloc hr hrun, hmode, hcalled.isLocal, hco]
    cases (s.node.mem r.task).isStarted <;> rfl
  · rcases hcalled.task with hm | ⟨-, hm⟩ <;> rw [hm]
    rfl
  · rcases hcalled.task with hm | ⟨hs, hm⟩ <;> rw [hm]
    · exact Task.setStarted_isStarted _
    · exact hs
  · rcases hcalled.task with hm | ⟨-, hm⟩ <;> rw [hm]
    exact Task.setStarted_isModuleComplete _
  · intro q hq hne
    refine mem_same hr hq ?_ (fun _ _ _ hi => by cases hi) (by simp)
    intro w' es' r' hi hrun' ht
    cases hi
    rw [hrun, Option.some.injEq] at hrun'
    exact hne (by rw [← ht, ← hrun'])
  · intro w' r' hrun' ht
    rw [hone w' r' hrun' ht, hcalled.emplaces, hes]

theorem handlerEmplaces_createTaskState (cfg : Config β) {p : TaskPtr} {x : CreateTaskStateTask}
    (hb : (s.node.mem p).body = .own (.createTaskState x)) : handlerEmplaces cfg s p =
      if s.position p = .start && (s.admin.registry.getTaskState x.stateName x.id).isNone && x.id.isNull then
        [(cfg.adminLane, getOrCreateTaskStateIdTask cfg ((s.node.mem p).taskNode.add 1) x.stateName)] else [] := by
  simp only [handlerEmplaces, hb]

theorem Stage.enter (h : Coroutines cfg s) {es : List (LaneRef × Task (Own β))} (hr : Ready cfg s (.scan w es) t)
    (hrun : t.running w = some r) (hruns : r.mode.runs = true) (hrole : role (s.node.mem r.task) = .createTaskState)
    (hc : ¬ConstructsNothing cfg s r.task) : Stage (track cfg s (.scan w es) t) r.task := by
  have henters := h.enters hr hrun hruns hrole
  have hcalled := hr.called hrun hruns
  have hstage := (h.stage r.task hcalled.idle.known hrole hcalled.isLocal).idle hcalled.idle hr.running
  obtain ⟨x, hb⟩ := createTaskState_body hrole
  have hemplaces := handlerEmplaces_createTaskState cfg hb
  simp only [track, hrun, hruns, if_true]
  generalize hv : ({ s with node := t } : State β).record r.task (jumpEvents s.node t r) = v
  have hadmin : v.admin = s.admin := by rw [← hv]; rfl
  have hpos : v.position = s.position := by rw [← hv]; rfl
  have hnode : v.node = t := by rw [← hv]; rfl
  have hhist : v.history r.task = s.history r.task ++ jumpEvents s.node t r := by
    rw [← hv]
    exact Function.update_self ..
  have hbv : (v.node.mem r.task).body = .own (.createTaskState x) := by rw [hnode, henters.body, hb]
  have hcv : ConstructsNothing cfg v r.task → (∀ getId, s.position r.task = .waiting getId →
      v.node.mem getId = s.node.mem getId) → False := by
    intro hno hmem
    exact hc (hno.before hadmin (by rw [hpos]) (by rw [hnode, henters.body]) hmem)
  -- what the call leaves as it is
  have hkeep : (call cfg v r.task).node = v.node → ∀ n, s.history r.task ++ jumpEvents s.node t r = entered n →
      (s.node.mem r.task).isModuleComplete = false → Entered (call cfg v r.task) r.task ∧
        InHandler (call cfg v r.task) r.task := by
    intro hsame n hn hm
    refine ⟨⟨⟨n, ?_⟩, ?_, ?_⟩, ⟨w, r, by rw [hsame, hnode, hrun], rfl, hruns⟩⟩
    · rw [(call_frame v r.task cfg).history, hhist, hn]
    · rw [hsame, hnode, henters.started]
    · rw [hsame, hnode, henters.moduleComplete, hm]
  have hstill : (call cfg v r.task).node = v.node → ∀ P : List (LaneRef × Task (Own β)) → Prop,
      P (handlerEmplaces cfg s r.task) → StillEmplaces (call cfg v r.task) r.task P := by
    intro hsame P hP w' r' hrun' ht _
    rw [hsame, hnode] at hrun'
    rw [henters.emplaces w' r' hrun' ht]
    exact hP
  rcases hstage with ⟨hstart, hnil, hs, hm⟩ | ⟨getId, hwait, hent, hg, hgr⟩
  · obtain ⟨hsame, hcase⟩ := call_start cfg hbv (by rw [hpos, hstart])
    obtain ⟨hentered, hin⟩ := hkeep hsame 0 (by rw [hnil, henters.events, hs]; rfl) hm
    rw [hadmin] at hcase
    simp only [hstart, decide_true, Bool.true_and] at hemplaces
    split_ifs at hcase hemplaces with hask
    · refine .asking hcase hentered hin (hstill hsame _ ?_)
      rw [hemplaces]
      exact ⟨_, rfl, rfl⟩
    · obtain ⟨ret, hret, hmc⟩ := hcase
      refine .returning ret hret hentered hin (hstill hsame _ hemplaces) ?_
      intro hhalted
      rcases hmc hhalted with hdone | hno
      · exact hdone
      · refine absurd hno (fun hno => hcv hno ?_)
        intro getId hwait
        rw [hstart] at hwait
        cases hwait
  · obtain ⟨hsame, hcase⟩ := call_waiting cfg hbv (by rw [hpos, hwait])
    obtain ⟨n, hn⟩ := hent.history
    obtain ⟨hentered, hin⟩ := hkeep hsame (n + 1)
      (by rw [hn, henters.events, hent.started, if_pos rfl, entered_succ]) hent.notDone
    have hne : getId ≠ r.task := by
      intro heq
      rw [heq, hrole] at hgr
      cases hgr
    have hget := henters.others getId hg hne
    simp only [hwait, reduceCtorEq, decide_false, Bool.false_and, Bool.false_eq_true, if_false] at hemplaces
    rcases hcase with hpos' | ⟨ret, hret, hmc⟩
    · refine .waiting getId hpos' hentered ?_ ?_ (hstill hsame _ hemplaces) ?_
      · rw [hsame, hnode]
        exact Nat.lt_of_lt_of_le hg hr.tasks.next_le
      · rw [hsame, hnode, hget, hgr]
      · rw [hsame, hnode, hr.ended_iff (fun _ _ _ hi => by cases hi)]
        exact hcalled.idle.notEnded
    · refine .returning ret hret hentered hin (hstill hsame _ hemplaces) ?_
      intro hhalted
      rcases hmc hhalted with hdone | hno
      · exact hdone
      · refine absurd hno (fun hno => hcv hno ?_)
        intro getId' hwait'
        rw [hwait, Position.waiting.injEq] at hwait'
        rw [← hwait', hnode, hget]

theorem Stage.put (h : Coroutines cfg s) (hr : Ready cfg s (.put w) t) (hrun : s.node.running w = some r)
    (hruns : r.mode.runs = true) (hmoved : s.node.next < t.next)
    (hrole : role (s.node.mem r.task) = .createTaskState) (hlocal : isRemote cfg.poll (s.node.mem r.task) = false) :
    Stage (track cfg s (.put w) t) r.task := by
  obtain ⟨hknown, hend⟩ := h.good.inv.base.busy w r hrun
  obtain ⟨r₀, dst, x, es, hrun₀, he, henq, hx, hnext⟩ := put_enqueue hr.step hmoved
  rw [hrun, Option.some.injEq] at hrun₀
  subst hrun₀
  have hnil : ¬r.emplaces = [] := by simp [he]
  cases h.stage r.task hknown hrole hlocal with
  | start hp hh hs hm hno hnew => exact absurd (hno w r hrun rfl hruns) hnil
  | waiting getId hp hent hg hgr hno hnew => exact absurd (hno w r hrun rfl hruns) hnil
  | returning ret hp hent hin hno hret => exact absurd (hno w r hrun rfl hruns) hnil
  | returned n hp hh hm hended =>
    rcases hended with hended | hhalt
    · exact absurd hended hend
    · rw [hr.running] at hhalt
      cases hhalt
  | asking hp hent hin hone =>
    obtain ⟨e, hsingle, hget⟩ := hone w r hrun rfl hruns
    rw [hsingle, List.cons.injEq] at he
    obtain ⟨rfl, rfl⟩ := he
    have hmem : t.mem r.task = s.node.mem r.task :=
      mem_same hr hknown (fun _ _ _ hi => by cases hi) (fun _ _ _ hi => by cases hi) (by simp)
    have hemplaced : track cfg s (.put w) t =
        ({ s with node := t } : State β).setPosition r.task (.waiting s.node.next) := by
      simp only [track, hrun, hruns, Bool.true_and, decide_eq_true_eq, hmoved, if_true, emplaced, hp]
    rw [hemplaced]
    refine .waiting s.node.next (Function.update_self ..) (hent.frame rfl ?_ ?_) hmoved ?_ ?_ ?_
    · exact congrArg Task.isStarted hmem
    · exact congrArg Task.isModuleComplete hmem
    · show role (t.mem s.node.next) = _
      rw [hx, hget]
    · intro w' r' hrun' ht hruns'
      change t.running w' = some r' at hrun'
      -- the worker is the one that has put the task
      obtain ⟨r₁, hold, ht₁⟩ : ∃ r₁, s.node.running w' = some r₁ ∧ r₁.task = r.task := by
        cases hr.tasks.runOrigin hrun' with
        | same hold => exact ⟨r', hold, ht⟩
        | skip es hi => cases hi
        | start es exec hi => cases hi
        | put r₁ hi hold ht₁ => exact ⟨r₁, hold, by rw [← ht₁, ht]⟩
      have hw := hr.exclusive.unique w w' r r₁ hrun hold ht₁
      subst hw
      have hmove := hr.tasks.runMove hrun
      cases hmove with
      | same hsame hput => exact absurd (hput rfl) (Nat.ne_of_gt hmoved)
      | put dst' x' es' hi he' hnew hsucc =>
        rw [show t.tasksView.running w' = t.running w' from rfl, hrun', Option.some.injEq] at hnew
        rw [hsingle, List.cons.injEq] at he'
        rw [hnew]
        exact he'.2.symm
      | block hi hnew hsame => exact absurd hsame (Nat.ne_of_gt hmoved)
      | finish out hi he' => cases hi
    · show ¬t.tasksView.ended r.task
      rw [hr.ended_iff (fun _ _ _ hi => by cases hi)]
      exact hend

theorem result_returning {x : CreateTaskStateTask} {p : TaskPtr} {ret : Return}
    (hb : (s.node.mem p).body = .own (.createTaskState x)) (hp : s.position p = .returning ret) :
    ∃ y : Task (Own β), y.taskFlags = (s.node.mem p).taskFlags ∧
      result s p = if ret.moduleComplete then y.setModuleComplete else y := by
  refine ⟨{ s.node.mem p with method := ret.method, body := .own (.createTaskState { x with id := ret.id }) },
    rfl, ?_⟩
  simp only [result, hb, hp]

theorem result_asleep {p : TaskPtr} (hrole : role (s.node.mem p) = .createTaskState)
    (hp : ∀ ret, s.position p ≠ .returning ret) : result s p = s.node.mem p := by
  unfold result
  dsimp only
  split
  · next x ret hb hpos => exact absurd hpos (hp ret)
  · next k policyId j hb hpos =>
    rw [role, hb] at hrole
    cases hrole
  · rfl

theorem track_finish_again {out : Task (Own β)} (hr : Ready cfg s (.finish w out) t)
    (hrun : s.node.running w = some r) (hran : ranTask r (s.node.mem r.task) out = s.node.mem r.task)
    (hm : (s.node.mem r.task).isModuleComplete = false) (hp : ∀ ret, s.position r.task ≠ .returning ret) :
    t.mem r.task = s.node.mem r.task ∧ t.log = s.node.log ∧
      (track cfg s (.finish w out) t).position r.task = s.position r.task ∧
        (track cfg s (.finish w out) t).history r.task = s.history r.task := by
  obtain ⟨-, hmem⟩ := finish_mem hr.step hrun
  have hlog := finish_ends hr.step hrun
  rw [hran, hm] at hlog hmem
  have hevents : freeEvents s.node t r.task = [] := by
    rw [freeEvents, logs, show t.log = s.node.log from hlog]
    simp
  have hreturns : returns { s with node := t } r.task = { s with node := t } := by
    unfold returns
    split
    · next ret hpos => exact absurd hpos (hp ret)
    · rfl
  refine ⟨?_, hlog, ?_⟩
  · rcases hmem with hmem | ⟨hdone, -⟩
    · exact hmem
    · cases hdone
  · simp only [track, hrun, hreturns, ite_self, hevents, State.record, List.append_nil, Function.update_eq_self]
    exact ⟨trivial, trivial⟩

theorem StillEmplaces.finish {P : List (LaneRef × Task (Own β)) → Prop} {p : TaskPtr} {out : Task (Own β)}
    (hP : StillEmplaces s p P) (h : Coroutines cfg s) (hr : Ready cfg s (.finish w out) t) :
    StillEmplaces (track cfg s (.finish w out) t) p P := by
  intro w' r' hrun' ht hruns'
  rw [h.good.track_running hr] at hrun'
  cases hr.tasks.runOrigin hrun' with
  | same hold => exact hP w' r' hold ht hruns'
  | skip es hi => cases hi
  | start es exec hi => cases hi
  | put r₁ hi => cases hi

theorem track_finish_returning (h : Coroutines cfg s) {out : Task (Own β)} (hr : Ready cfg s (.finish w out) t)
    (hrun : s.node.running w = some r) (hrole : role (s.node.mem r.task) = .createTaskState)
    (hlocal : isRemote cfg.poll (s.node.mem r.task) = false) (hresume : r.mode = .resume) {ret : Return}
    (hp : s.position r.task = .returning ret) (hret : ret.moduleComplete = true) {n : ℕ}
    (hn : s.history r.task = entered n) : Stage (track cfg s (.finish w out) t) r.task := by
  have hout := hr.label r hrun
  rw [if_pos (by rw [hrole]; rfl)] at hout
  obtain ⟨x, hb⟩ := createTaskState_body hrole
  obtain ⟨y, hflags, hresult⟩ := result_returning hb hp
  rw [if_pos hret] at hresult
  have hran : ranTask r (s.node.mem r.task) out = y.setModuleComplete := by
    rw [ranTask_runs (by rw [hresume]; rfl), hout, hresult]
  have hco : y.isCoroutine = true := by
    rw [Task.isCoroutine, hflags]
    exact h.coroutine r.task (h.good.inv.base.busy w r hrun).1 hrole hlocal
  obtain ⟨-, hmem⟩ := finish_mem hr.step hrun
  have hends := finish_ends hr.step hrun
  rw [hran] at hends hmem
  rw [if_pos (Task.setModuleComplete_isModuleComplete y)] at hends
  obtain ⟨hended, hcount⟩ := hends
  have hfree : freeEvents s.node t r.task = [.free] := by
    have hone := hcount r.task
    rw [if_pos ⟨rfl, by rw [Task.setModuleComplete_isCoroutine, hco]⟩] at hone
    rw [freeEvents, logs, hone]
    simp
  have htrack : track cfg s (.finish w out) t =
      ((({ s with node := t } : State β).setPosition r.task .returned).record r.task [.ret]).record r.task
        [.free] := by
    simp only [track, hrun, hresume, Mode.runs, if_true, returns, hp, hfree]
  rw [htrack]
  refine .returned n (Function.update_self ..) ?_ ?_ hended.symm
  · rw [← hn]
    simp [State.record, State.setPosition]
  · show (t.mem r.task).isModuleComplete = true
    rcases hmem with hmem | ⟨-, hmem⟩
    · rw [hmem, Task.setModuleComplete_isModuleComplete]
    · rw [hmem, Task.setComplete_isModuleComplete]

theorem Stage.finish (h : Coroutines cfg s) {out : Task (Own β)} (hr : Ready cfg s (.finish w out) t)
    (hrun : s.node.running w = some r) (hrole : role (s.node.mem r.task) = .createTaskState)
    (hlocal : isRemote cfg.poll (s.node.mem r.task) = false) : Stage (track cfg s (.finish w out) t) r.task := by
  obtain ⟨hknown, hend⟩ := h.good.inv.base.busy w r hrun
  have hnode := h.good.track_running hr
  have hmemu := h.good.track_mem hr hrole
  have hout := hr.label r hrun
  rw [if_pos (by rw [hrole]; rfl)] at hout
  have hmode := h.modes w r hrun hrole
  rw [hlocal] at hmode
  have hasleep : (∀ ret, s.position r.task ≠ .returning ret) →
      ranTask r (s.node.mem r.task) out = s.node.mem r.task := by
    intro hp
    rcases hmode with hskip | hresume
    · unfold ranTask
      rw [hskip]
    · rw [ranTask_runs (by rw [hresume]; rfl), hout, result_asleep hrole hp]
  have hquiet : t.log = s.node.log → ¬(track cfg s (.finish w out) t).node.tasksView.ended r.task := by
    intro hlog
    rw [h.good.track_ended hr]
    show .endTask r.task ∉ t.log
    rw [hlog]
    exact hend
  have hunique : InHandler s r.task → r.mode = .resume := by
    rintro ⟨w₁, r₁, hrun₁, ht₁, hruns₁⟩
    have hw := hr.exclusive.unique w w₁ r r₁ hrun hrun₁ ht₁
    subst hw
    rw [hrun, Option.some.injEq] at hrun₁
    subst hrun₁
    rcases hmode with hskip | hresume
    · rw [hskip] at hruns₁
      cases hruns₁
    · exact hresume
  cases h.stage r.task hknown hrole hlocal with
  | start hp hh hs hm he hnew =>
    have hno : ∀ ret, s.position r.task ≠ .returning ret := by simp [hp]
    obtain ⟨hmem, hlog, hpos, hhist⟩ := track_finish_again hr hrun (hasleep hno) hm hno
    exact .start (by rw [hpos, hp]) (by rw [hhist, hh]) (by rw [hmemu, hmem, hs]) (by rw [hmemu, hmem, hm])
      (he.finish h hr) (hquiet hlog)
  | waiting getId hp hent hg hgr he hnew =>
    have hno : ∀ ret, s.position r.task ≠ .returning ret := by simp [hp]
    obtain ⟨hmem, hlog, hpos, hhist⟩ := track_finish_again hr hrun (hasleep hno) hent.notDone hno
    refine .waiting getId (by rw [hpos, hp]) (hent.frame hhist ?_ ?_) ?_ ?_ (he.finish h hr) (hquiet hlog)
    · rw [hmemu, hmem]
    · rw [hmemu, hmem]
    · rw [h.good.track_next hr]
      exact Nat.lt_of_lt_of_le hg hr.tasks.next_le
    · rw [(h.good.track_same hr hg).role, hgr]
  | asking hp hent hin he =>
    obtain ⟨hnil, -⟩ := finish_mem hr.step hrun
    obtain ⟨e, hone, -⟩ := he w r hrun rfl (by rw [hunique hin]; rfl)
    rw [hnil] at hone
    cases hone
  | returned n hp hh hm hended =>
    rcases hended with hended | hhalt
    · exact absurd hended hend
    · rw [hr.running] at hhalt
      cases hhalt
  | returning ret hp hent hin he hret =>
    obtain ⟨n, hn⟩ := hent.history
    exact track_finish_returning h hr hrun hrole hlocal (hunique hin) hp (hret hr.admin) hn

end Acting

section Remote

variable {cfg : Config β} {s u : State β} {i : Poll.Label (Own β)} {t : Poll.State (Own β)} {p : TaskPtr}

theorem begun_iff {s : Poll.State (Own β)} : begun s p = true ↔ ∃ e, .begin p e ∈ s.log := by
  rw [begun, List.any_eq_true]
  constructor
  · rintro ⟨e, he, hp⟩
    split at hp
    · next q exec =>
      rw [of_decide_eq_true hp] at he
      exact ⟨exec, he⟩
    · cases hp
  · rintro ⟨e, he⟩
    exact ⟨_, he, by simp⟩

theorem begun_step (hr : Ready cfg s i t) (h : begun t p = true) : begun s.node p = true ∨
    ∃ w es r, i = .scan w es ∧ t.running w = some r ∧ r.task = p ∧ r.mode ≠ .skip := by
  obtain ⟨e, he⟩ := begun_iff.mp h
  rcases step_begin hr.step he with hold | hnew
  · exact Or.inl (begun_iff.mpr ⟨e, hold⟩)
  · exact Or.inr hnew

theorem Sent.elsewhere (hsent : Sent s p) (h : Elsewhere s u p)
    (hbegun : begun u.node p = true → begun s.node p = true ∨
      ∃ w r, u.node.running w = some r ∧ r.task = p ∧ r.mode = .disperse) : Sent u p := by
  refine ⟨by rw [h.history, hsent.history], ?_⟩
  rcases hsent.flags with hco | ⟨hm, hno⟩ | ⟨w, r, hrun, ht, hmode⟩
  · exact Or.inl (by rw [h.coroutine, hco])
  · cases hb : begun u.node p with
    | false => exact Or.inr (Or.inl ⟨by rw [h.moduleComplete, hm], rfl⟩)
    | true =>
      rcases hbegun hb with hold | hsend
      · rw [hno] at hold
        cases hold
      · exact Or.inr (Or.inr hsend)
  · obtain ⟨r', hrun', ht', hmode'⟩ := h.stays w r hrun ht
    exact Or.inr (Or.inr ⟨w, r', hrun', ht', by rw [hmode', hmode]⟩)

theorem handlerKeeps_isCoroutine {x y : Task (Own β)} (h : RemoteQueue.handlerKeeps x y = true) :
    y.isCoroutine = x.isCoroutine :=
  RemoteQueue.handler_any h x.setModuleComplete_isCoroutine

theorem Sent.write (hsent : Sent s p) {x : Task (Own β)} (hr : Ready cfg s (.write p x) t) (hp : p < s.node.next)
    (hrole : role (s.node.mem p) = .createTaskState) : Sent (track cfg s (.write p x) t) p := by
  obtain ⟨hsend, hk, -⟩ := hr.label
  obtain ⟨-, hbegun⟩ := hsend (by rw [hrole]; rfl)
  refine ⟨hsent.history, ?_⟩
  rcases hsent.flags with hco | ⟨-, hno⟩ | ⟨w, r, hrun, ht, hmode⟩
  · left
    show (t.mem p).isCoroutine = false
    cases hr.tasks.move hp with
    | same hm => rw [show t.mem p = s.node.mem p from hm, hco]
    | start w es exec hi => cases hi
    | ran w out r hi => cases hi
    | write y hi hm =>
      cases hi
      rw [show t.mem p = x from hm, handlerKeeps_isCoroutine hk, hco]
  · rw [hbegun] at hno
    cases hno
  · refine Or.inr (Or.inr ⟨w, r, ?_, ht, hmode⟩)
    show t.running w = some r
    cases hr.tasks.runMove hrun with
    | same hrun' => exact hrun'
    | put dst y es hi => cases hi
    | block hi => cases hi
    | finish out hi => cases hi

theorem Sent.finish (h : Coroutines cfg s) {w : WorkerId} {r : Running (Own β)} {out : Task (Own β)}
    (hr : Ready cfg s (.finish w out) t) (hrun : s.node.running w = some r)
    (hrole : role (s.node.mem r.task) = .createTaskState) (hremote : isRemote cfg.poll (s.node.mem r.task) = true) :
    Sent (track cfg s (.finish w out) t) r.task := by
  obtain ⟨hknown, -⟩ := h.good.inv.base.busy w r hrun
  have hsent := h.sent r.task hknown hrole hremote
  have hmode := h.modes w r hrun hrole
  rw [if_pos hremote] at hmode
  have hruns : r.mode.runs = false := by
    rcases hmode with hm | hm <;> rw [hm] <;> rfl
  obtain ⟨-, hmem⟩ := finish_mem hr.step hrun
  have hends := finish_ends hr.step hrun
  -- the worker that sends it is this one, and then it is no coroutine any more
  have hflags : (ranTask r (s.node.mem r.task) out).isCoroutine = false ∨
      (ranTask r (s.node.mem r.task) out).isModuleComplete = false ∧ begun s.node r.task = false := by
    rcases hmode with hskip | hdisperse
    · rw [ranTask, hskip]
      rcases hsent.flags with hco | hquiet | ⟨w', r', hrun', ht', hmode'⟩
      · exact Or.inl hco
      · exact Or.inr hquiet
      · have hw := hr.exclusive.unique w w' r r' hrun hrun' ht'
        subst hw
        rw [hrun, Option.some.injEq] at hrun'
        rw [← hrun', hskip] at hmode'
        cases hmode'
    · rw [ranTask, hdisperse]
      exact Or.inl (Task.unsetCoroutine_isCoroutine _)
  have hlogs : logs s.node t (.stackFree r.task) = false := by
    rw [logs, decide_eq_false_iff_not]
    split_ifs at hends with hm
    · rw [hends.2 r.task]
      rcases hflags with hco | ⟨hno, -⟩
      · simp [hco]
      · rw [hno] at hm
        cases hm
    · rw [hends]
      exact Nat.lt_irrefl _
  have htrack : track cfg s (.finish w out) t = { s with node := t } := by
    simp only [track, hrun, hruns, Bool.false_eq_true, if_false, freeEvents, hlogs, State.record, List.append_nil,
      Function.update_eq_self]
  rw [htrack]
  refine ⟨hsent.history, ?_⟩
  rcases hflags with hco | ⟨hm, hno⟩
  · left
    show (t.mem r.task).isCoroutine = false
    rcases hmem with hmem | ⟨-, hmem⟩
    · rw [hmem, hco]
    · rw [hmem, Task.setComplete_isCoroutine, hco]
  · refine Or.inr (Or.inl ⟨?_, ?_⟩)
    · show (t.mem r.task).isModuleComplete = false
      rcases hmem with hmem | ⟨hdone, -⟩
      · rw [hmem, hm]
      · rw [hm] at hdone
        cases hdone
    · show begun t r.task = false
      by_contra hb
      rcases begun_step hr (by simpa using hb) with hold | ⟨w', es, r', hi, -⟩
      · rw [hno] at hold
        cases hold
      · cases hi

end Remote

section Step

variable {cfg : Config β} {s : State β} {i : Poll.Label (Own β)} {t : Poll.State (Own β)} {p : TaskPtr}

theorem Ready.old (hr : Ready cfg s i t) (h : Base cfg s) {w : WorkerId} {r : Running (Own β)}
    (hrun : t.running w = some r) : r.task < s.node.next := by
  cases hr.tasks.runOrigin hrun with
  | same hold => exact (h.busy w r hold).1
  | skip es hi hidle => exact hidle.known
  | start es exec hi hidle => exact hidle.known
  | put r₀ hi hold ht =>
    rw [ht]
    exact (h.busy w r₀ hold).1

theorem Coroutines.modes_step (h : Coroutines cfg s) (hr : Ready cfg s i t) {w : WorkerId} {r : Running (Own β)}
    (hrun : t.running w = some r) (hrole : role (s.node.mem r.task) = .createTaskState) :
    r.mode = .skip ∨ r.mode = if isRemote cfg.poll (s.node.mem r.task) then .disperse else .resume := by
  cases hr.tasks.runOrigin hrun with
  | same hold => exact h.modes w r hold hrole
  | skip es hi hidle hm => exact Or.inl hm
  | start es exec hi hidle hstart =>
    right
    have hmode : (started cfg.poll (s.node.mem r.task) r.task exec es).mode =
        if isRemote cfg.poll (s.node.mem r.task) then .disperse else .resume :=
      started_mode (h.coroutine r.task hidle.known hrole)
    exact (congrArg Running.mode hstart).trans hmode
  | put r₀ hi hold ht hm =>
    rw [ht] at hrole ⊢
    rw [hm]
    exact h.modes w r₀ hold hrole

theorem Coroutines.coroutine_step (h : Coroutines cfg s) (hr : Ready cfg s i t) (hp : p < s.node.next)
    (hrole : role (s.node.mem p) = .createTaskState) (hlocal : isRemote cfg.poll (s.node.mem p) = false) :
    (t.mem p).isCoroutine = true := by
  have hco := h.coroutine p hp hrole hlocal
  have hlabel := hr.label
  cases hr.tasks.move hp with
  | same hm => rw [show t.mem p = s.node.mem p from hm, hco]
  | start w es exec hi hidle hrun hm =>
    have hmode : (started cfg.poll (s.node.mem p) p exec es).mode =
        if isRemote cfg.poll (s.node.mem p) then .disperse else .resume := started_mode (fun _ => hco)
    rw [hlocal] at hmode
    obtain ⟨-, -, htask | ⟨-, htask⟩⟩ := started_runs (by rw [hmode]; rfl)
    · rw [show t.mem p = _ from hm.trans htask, Task.setStarted_isCoroutine, hco]
    · rw [show t.mem p = _ from hm.trans htask, hco]
  | write x hi hm =>
    subst hi
    obtain ⟨hremote, -⟩ := hlabel.1 (by rw [hrole]; rfl)
    rw [hlocal] at hremote
    cases hremote
  | ran w out r hi hrun ht he hm =>
    subst hi ht
    have hout := hlabel r hrun
    rw [if_pos (by rw [hrole]; rfl)] at hout
    have hran : (ranTask r (s.node.mem r.task) out).isCoroutine = true := by
      rcases h.modes w r hrun hrole with hskip | hresume
      · rw [ranTask, hskip]
        exact hco
      · rw [hlocal] at hresume
        rw [ranTask_runs (by rw [hresume]; rfl), hout]
        by_cases hpos : ∃ ret, s.position r.task = .returning ret
        · obtain ⟨ret, hpos⟩ := hpos
          obtain ⟨x, hb⟩ := createTaskState_body hrole
          obtain ⟨y, hflags, hresult⟩ := result_returning hb hpos
          have hy : y.isCoroutine = true := by
            rw [Task.isCoroutine, hflags]
            exact hco
          rw [hresult]
          split_ifs
          · rw [Task.setModuleComplete_isCoroutine, hy]
          · exact hy
        · rw [result_asleep hrole (fun ret hret => hpos ⟨ret, hret⟩), hco]
    rcases hm with hm | ⟨-, -, hm⟩
    · rw [show t.mem r.task = _ from hm]
      exact hran
    · rw [show t.mem r.task = _ from hm, Task.setComplete_isCoroutine]
      exact hran

theorem Coroutines.elsewhere (h : Coroutines cfg s) (hr : Ready cfg s i t) (hp : p < s.node.next)
    (hrole : role (s.node.mem p) = .createTaskState)
    (hscan : ∀ w es r, i = .scan w es → t.running w = some r → r.task = p → r.mode.runs = false)
    (hput : ∀ w r, i = .put w → s.node.running w = some r → r.task = p → r.mode.runs = true → t.next = s.node.next)
    (hfinish : ∀ w out r, i = .finish w out → s.node.running w = some r → r.task ≠ p) (hwrite : ∀ x, i ≠ .write p x) :
    Elsewhere s (track cfg s i t) p := by
  cases i with
  | scan w es => exact elsewhere_scan h hr hp hrole (fun r => hscan w es r rfl)
  | put w => exact elsewhere_put h.good hr hp hrole (fun r => hput w r rfl)
  | finish w out => exact elsewhere_finish h.good hr hp hrole (fun r => hfinish w out r rfl)
  | emplace l x => exact elsewhere_quiet h.good hr hp hrole rfl (by simp) (by simp) (by simp) hwrite
  | poll w l => exact elsewhere_quiet h.good hr hp hrole rfl (by simp) (by simp) (by simp) hwrite
  | registry w op => exact elsewhere_quiet h.good hr hp hrole rfl (by simp) (by simp) (by simp) hwrite
  | write q x => exact elsewhere_quiet h.good hr hp hrole rfl (by simp) (by simp) (by simp) hwrite

theorem Coroutines.stage_step (h : Coroutines cfg s) (hr : Ready cfg s i t) (hp : p < s.node.next)
    (hrole : role (s.node.mem p) = .createTaskState) (hlocal : isRemote cfg.poll (s.node.mem p) = false)
    (hc : ¬CallsIdleConstruct cfg s (track cfg s i t)) : Stage (track cfg s i t) p := by
  by_cases henter : ∃ w es r, i = .scan w es ∧ t.running w = some r ∧ r.task = p ∧ r.mode.runs = true
  · obtain ⟨w, es, r, rfl, hrun, rfl, hruns⟩ := henter
    refine Stage.enter h hr hrun hruns hrole ?_
    intro hno
    exact hc ⟨w, r, (hr.called hrun hruns).free, by rw [h.good.track_running hr, hrun], hruns, hno⟩
  by_cases hput : ∃ w r, i = .put w ∧ s.node.running w = some r ∧ r.task = p ∧ r.mode.runs = true ∧
      s.node.next < t.next
  · obtain ⟨w, r, rfl, hrun, rfl, hruns, hmoved⟩ := hput
    exact Stage.put h hr hrun hruns hmoved hrole hlocal
  by_cases hfinish : ∃ w out r, i = .finish w out ∧ s.node.running w = some r ∧ r.task = p
  · obtain ⟨w, out, r, rfl, hrun, rfl⟩ := hfinish
    exact Stage.finish h hr hrun hrole hlocal
  have hno : ∀ w out r, i = .finish w out → s.node.running w = some r → r.task ≠ p :=
    fun w out r hi hrun ht => hfinish ⟨w, out, r, hi, hrun, ht⟩
  have helsewhere : Elsewhere s (track cfg s i t) p := by
    refine h.elsewhere hr hp hrole ?_ ?_ hno ?_
    · intro w es r hi hrun ht
      by_contra hruns
      exact henter ⟨w, es, r, hi, hrun, ht, by simpa using hruns⟩
    · intro w r hi hrun ht hruns
      by_contra hne
      exact hput ⟨w, r, hi, hrun, ht, hruns, Nat.lt_of_le_of_ne hr.tasks.next_le (Ne.symm hne)⟩
    · rintro x rfl
      obtain ⟨hremote, -⟩ := hr.label.1 (by rw [hrole]; rfl)
      rw [hlocal] at hremote
      cases hremote
  refine (h.stage p hp hrole hlocal).elsewhere helsewhere hr.admin ?_ ?_ ?_ hr.running
  · rw [h.good.track_next hr]
    exact hr.tasks.next_le
  · intro q hq
    exact (h.good.track_same hr hq).role
  · rw [h.good.track_ended hr, hr.ended_iff hno]

theorem Coroutines.sent_step (h : Coroutines cfg s) (hr : Ready cfg s i t) (hp : p < s.node.next)
    (hrole : role (s.node.mem p) = .createTaskState) (hremote : isRemote cfg.poll (s.node.mem p) = true) :
    Sent (track cfg s i t) p := by
  by_cases hfinish : ∃ w out r, i = .finish w out ∧ s.node.running w = some r ∧ r.task = p
  · obtain ⟨w, out, r, rfl, hrun, rfl⟩ := hfinish
    exact Sent.finish h hr hrun hrole hremote
  by_cases hwrite : ∃ x, i = .write p x
  · obtain ⟨x, rfl⟩ := hwrite
    exact (h.sent p hp hrole hremote).write hr hp hrole
  -- a worker at a request that goes to other nodes never runs its handler
  have hidle : ∀ w r, t.running w = some r → r.task = p → r.mode.runs = false := by
    intro w r hrun ht
    have hmode := h.modes_step hr hrun (by rw [ht, hrole])
    rw [ht, if_pos hremote] at hmode
    rcases hmode with hm | hm <;> rw [hm] <;> rfl
  have helsewhere : Elsewhere s (track cfg s i t) p := by
    refine h.elsewhere hr hp hrole (fun w es r _ => hidle w r) ?_ ?_ (fun x hx => hwrite ⟨x, hx⟩)
    · intro w r hi hrun ht hruns
      have hmode := h.modes w r hrun (by rw [ht, hrole])
      rw [ht, if_pos hremote] at hmode
      rcases hmode with hm | hm <;> rw [hm] at hruns <;> cases hruns
    · intro w out r hi hrun ht
      exact hfinish ⟨w, out, r, hi, hrun, ht⟩
  refine (h.sent p hp hrole hremote).elsewhere helsewhere ?_
  rw [begun, h.good.track_log hr, h.good.track_running hr]
  intro hb
  rcases begun_step hr hb with hold | ⟨w, es, r, hi, hrun, ht, hskip⟩
  · exact Or.inl hold
  · have hmode := h.modes_step hr hrun (by rw [ht, hrole])
    rw [ht, if_pos hremote] at hmode
    exact Or.inr ⟨w, r, hrun, ht, hmode.resolve_left hskip⟩

theorem Coroutines.made_idle (h : Coroutines cfg s) (hr : Ready cfg s i t) (hold : s.node.next ≤ p) :
    begun t p = false ∧ ¬t.tasksView.ended p := by
  constructor
  · by_contra hb
    rcases begun_step hr (by simpa using hb) with hb | ⟨w, es, r, hi, hrun, ht, -⟩
    · exact Nat.not_lt_of_le hold (h.known p (Or.inl hb))
    · exact Nat.not_lt_of_le hold (ht ▸ hr.old h.good.inv.base hrun)
  · intro hend
    rcases hr.tasks.ends hend with hend | ⟨w, out, r, hi, hrun, ht, -⟩
    · exact Nat.not_lt_of_le hold (h.known p (Or.inr hend))
    · exact Nat.not_lt_of_le hold (ht ▸ (h.good.inv.base.busy w r hrun).1)

theorem Coroutines.made (h : Coroutines cfg s) (hr : Ready cfg s i t) (hold : s.node.next ≤ p) (hp : p < t.next) :
    (track cfg s i t).node.mem p = t.mem p ∧ NewOk (t.mem p) ∧ (track cfg s i t).position p = .start ∧
      (track cfg s i t).history p = [] := by
  obtain ⟨-, hnew, -⟩ := step_made h.good.inv.base hr hold hp
  obtain ⟨hpos, hhist⟩ := h.good.inv.base.unused p hold
  rcases track_frame h.good.inv.base hr with heq | ⟨q, hq, hframe⟩
  · rw [heq]
    exact ⟨rfl, hnew, hpos, hhist⟩
  · have hne : p ≠ q := fun heq => Nat.not_lt_of_le hold (heq ▸ hq)
    refine ⟨?_, hnew, by rw [hframe.position p hne, hpos], by rw [hframe.history p hne, hhist]⟩
    rcases hframe.node.mem p with hm | ⟨⟨c, hc, hshm⟩, -⟩
    · exact hm
    · obtain ⟨j, hj⟩ := List.mem_iff_getElem?.mp hc
      exact absurd ((h.good.inv.scheduler j c hj).shm p hshm).1 (Nat.not_lt_of_le hold)

theorem Coroutines.track (h : Coroutines cfg s) (hr : Ready cfg s i t)
    (hc : ¬CallsIdleConstruct cfg s (track cfg s i t)) : Coroutines cfg (track cfg s i t) := by
  have hgood : Good cfg (AdminServer.track cfg s i t) :=
    ⟨track_inv h.good.inv h.good.pending hr, track_pending h.good.inv h.good.pending hr⟩
  have hnext := h.good.track_next hr
  have hrunning := h.good.track_running hr
  have hsame : ∀ q, q < s.node.next → Same (s.node.mem q) ((AdminServer.track cfg s i t).node.mem q) :=
    fun q hq => h.good.track_same hr hq
  refine ⟨hgood, ?_, ?_, ?_, ?_, ?_⟩
  · intro p hp
    rw [begun, h.good.track_log hr, h.good.track_ended hr] at hp
    rw [hnext]
    by_contra hlt
    obtain ⟨hbegun, hended⟩ := h.made_idle hr (Nat.le_trans hr.tasks.next_le (Nat.le_of_not_lt hlt))
    rcases hp with hb | hend
    · rw [begun, hb] at hbegun
      cases hbegun
    · exact hended hend
  · rw [hrunning]
    intro w r hrun hrole
    have hold := hsame r.task (hr.old h.good.inv.base hrun)
    rw [hold.isRemote]
    exact h.modes_step hr hrun (by rw [← hold.role, hrole])
  · intro p hp hrole hremote
    rw [hnext] at hp
    by_cases hlt : p < s.node.next
    · exact h.sent_step hr hlt (by rw [← (hsame p hlt).role, hrole]) (by rw [← (hsame p hlt).isRemote, hremote])
    · obtain ⟨hmem, hnew, -, hhist⟩ := h.made hr (Nat.le_of_not_lt hlt) hp
      obtain ⟨hbegun, -⟩ := h.made_idle hr (Nat.le_of_not_lt hlt)
      refine ⟨hhist, Or.inr (Or.inl ⟨by rw [hmem, hnew.notModuleComplete], ?_⟩)⟩
      rw [begun, h.good.track_log hr]
      exact hbegun
  · intro p hp hrole hlocal
    rw [hnext] at hp
    by_cases hlt : p < s.node.next
    · have hold : role (s.node.mem p) = .createTaskState := by rw [← (hsame p hlt).role, hrole]
      rw [h.good.track_mem hr hold]
      exact h.coroutine_step hr hlt hold (by rw [← (hsame p hlt).isRemote, hlocal])
    · obtain ⟨hmem, hnew, -⟩ := h.made hr (Nat.le_of_not_lt hlt) hp
      rw [hmem] at hrole ⊢
      exact hnew.coroutine hrole
  · intro p hp hrole hlocal
    rw [hnext] at hp
    by_cases hlt : p < s.node.next
    · exact h.stage_step hr hlt (by rw [← (hsame p hlt).role, hrole]) (by rw [← (hsame p hlt).isRemote, hlocal]) hc
    · obtain ⟨hmem, hnew, hpos, hhist⟩ := h.made hr (Nat.le_of_not_lt hlt) hp
      obtain ⟨-, hended⟩ := h.made_idle hr (Nat.le_of_not_lt hlt)
      refine .start hpos hhist (by rw [hmem, hnew.notStarted]) (by rw [hmem, hnew.notModuleComplete]) ?_
        (by rw [h.good.track_ended hr]; exact hended)
      rw [StillEmplaces, hrunning]
      intro w r hrun ht
      exact absurd (ht ▸ hr.old h.good.inv.base hrun) hlt

theorem Coroutines.setAdmin (h : Coroutines cfg s) (hadmin : s.admin.halted = false) (n : Admin.Node) :
    Coroutines cfg { s with admin := n } := by
  refine ⟨h.good.setAdmin n, h.known, h.modes, ?_, h.coroutine, ?_⟩
  · intro p hp hrole hremote
    obtain ⟨hhist, hflags⟩ := h.sent p hp hrole hremote
    exact ⟨hhist, hflags⟩
  · intro p hp hrole hlocal
    have hentered : Entered s p → Entered { s with admin := n } p := fun he => ⟨he.history, he.started, he.notDone⟩
    cases h.stage p hp hrole hlocal with
    | start hpos hh hs hm he hend => exact .start hpos hh hs hm he hend
    | asking hpos hent hin he => exact .asking hpos (hentered hent) hin he
    | waiting getId hpos hent hg hgr he hend => exact .waiting getId hpos (hentered hent) hg hgr he hend
    | returning ret hpos hent hin he hret => exact .returning ret hpos (hentered hent) hin he (fun _ => hret hadmin)
    | returned n hpos hh hm hend => exact .returned n hpos hh hm hend

theorem Coroutines.step (h : Coroutines cfg s) {s' : State β} {l : Label β} (hst : step cfg s l = some s')
    (hc : ¬CallsIdleConstruct cfg s s') : Coroutines cfg s' := by
  rcases step_cases h.good.inv.base hst with ⟨hadmin, n, rfl⟩ | ⟨i, t, hr, rfl⟩
  · exact h.setAdmin hadmin n
  · exact h.track hr hc

theorem Coroutines.init (cfg : Config β) (mem : TaskPtr → Task (Own β)) (registered : TaskStateId → Bool)
    (admin : Admin.Node) : Coroutines cfg (State.init (Poll.State.init mem registered) admin) := by
  refine ⟨Good.init cfg mem registered admin, ?_, ?_, ?_, ?_, ?_⟩
  · rintro p (hb | hend)
    · cases hb
    · cases hend
  · intro w r hr
    cases hr
  · intro p hp
    cases hp
  · intro p hp
    cases hp
  · intro p hp
    cases hp

end Step

structure CoroutineOk (cfg : Config β) (s : State β) (p : TaskPtr) : Prop where
  finished : .ret ∈ s.history p → (s.node.mem p).isModuleComplete = true
  stack : s.history p = [] ∨ ∃ n, s.history p = entered n ∨ s.history p = entered n ++ [.ret, .free]
  freed : isRemote cfg.poll (s.node.mem p) = false → s.node.tasksView.ended p → .free ∈ s.history p
  sent : isRemote cfg.poll (s.node.mem p) = true → s.history p = []

def CoroutinesOk (cfg : Config β) (s : State β) : Prop :=
  ∀ p, p < s.node.next → role (s.node.mem p) = .createTaskState → CoroutineOk cfg s p

theorem Entered.coroutineOk {cfg : Config β} {s : State β} {p : TaskPtr} (h : Entered s p)
    (hlocal : isRemote cfg.poll (s.node.mem p) = false) (hend : ¬s.node.tasksView.ended p) : CoroutineOk cfg s p := by
  obtain ⟨n, hn⟩ := h.history
  refine ⟨?_, Or.inr ⟨n, Or.inl hn⟩, fun _ hended => absurd hended hend, ?_⟩
  · rw [hn]
    intro hret
    simp [entered] at hret
  · rw [hlocal]
    rintro ⟨⟩

theorem Coroutines.coroutinesOk {cfg : Config β} {s : State β} (h : Coroutines cfg s) : CoroutinesOk cfg s := by
  intro p hp hrole
  cases hremote : isRemote cfg.poll (s.node.mem p) with
  | true =>
    have hnil := (h.sent p hp hrole hremote).history
    refine ⟨?_, Or.inl hnil, ?_, fun _ => hnil⟩
    · rw [hnil]
      rintro ⟨⟩
    · rw [hremote]
      rintro ⟨⟩
  | false =>
    have hbusy : InHandler s p → ¬s.node.tasksView.ended p := by
      rintro ⟨w, r, hr, rfl, -⟩
      exact (h.good.inv.base.busy w r hr).2
    cases h.stage p hp hrole hremote with
    | start hpos hh hs hm he hend =>
      refine ⟨?_, Or.inl hh, fun _ hended => absurd hended hend, fun _ => hh⟩
      rw [hh]
      rintro ⟨⟩
    | asking hpos hent hin he => exact hent.coroutineOk hremote (hbusy hin)
    | waiting getId hpos hent hg hgr he hend => exact hent.coroutineOk hremote hend
    | returning ret hpos hent hin he hret => exact hent.coroutineOk hremote (hbusy hin)
    | returned n hpos hh hm hend =>
      refine ⟨fun _ => hm, Or.inr ⟨n, Or.inr hh⟩, ?_, ?_⟩
      · intro _ _
        rw [hh]
        simp
      · rw [hremote]
        rintro ⟨⟩

theorem coroutinesOk_of_run (cfg : Config β) (mem : TaskPtr → Task (Own β)) (registered : TaskStateId → Bool)
    (admin : Admin.Node) (labels : List (Label β))
    (h : Along (step cfg) (fun s _ t => ¬CallsIdleConstruct cfg s t)
      (State.init (Poll.State.init mem registered) admin) labels) :
    Along (step cfg) (fun _ _ t => CoroutinesOk cfg t) (State.init (Poll.State.init mem registered) admin) labels := by
  refine along_of_invariant (I := Coroutines cfg) ?_ (Coroutines.init cfg mem registered admin) h
  intro s l t hs hst hc
  have ht := hs.step hst hc
  exact ⟨ht, ht.coroutinesOk⟩

theorem CallsIdleConstruct.known {cfg : Config β} {s t : State β} {l : Label β} (h : CallsIdleConstruct cfg s t)
    (hs : Good cfg s) (hst : step cfg s l = some t) : ∃ p, p < s.node.next ∧ ConstructsNothing cfg s p := by
  obtain ⟨w, r, hfree, hrun, -, hno⟩ := h
  rcases step_cases hs.inv.base hst with ⟨-, n, rfl⟩ | ⟨i, u, hr, rfl⟩
  · rw [hfree] at hrun
    cases hrun
  · rw [hs.track_running hr] at hrun
    exact ⟨r.task, hr.old hs.inv.base hrun, hno⟩

section

def createTask (libName : String) : Task (Own Unit) :=
  ⟨QueueManager.adminQueue, ⟨⟨1, 7⟩, 1⟩, DomainId.getLocal, TaskPrio.kAdmin, 0, HermesRunAdmin.Method.kCreateTaskState,
    taskCoroutine, .own (.createTaskState ⟨DomainId.getLocal, libName, "state", UniqueId.getNull, [⟨1, 1, 16, 0⟩]⟩)⟩

def createRun (libName : String) : List (Label Unit) :=
  let l := aloneNode.adminLane
  let t := createTask libName
  let getId := { getOrCreateTaskStateIdTask aloneNode (t.taskNode.add 1) "state" with
    body := .own (Own.getOrCreateTaskStateId "state" ⟨1, 40⟩) }
  [.node (.emplace l t), .node (.poll 0 l), .node (.scan 0 []), .node (.put 0), .node (.finish 0 t),
    .node (.scan 0 []), .node (.finish 0 getId.setStarted.setModuleComplete), .node (.scan 0 []), .node (.poll 0 l),
    .node (.scan 0 []), .node (.finish 0 t)]

def requestsConstruct (cfg : Config β) (s : State β) : Bool :=
  (List.range s.node.next).all fun p => match (s.node.mem p).body with
    | .own (.createTaskState x) => cfg.constructs x.libName
    | _ => true

theorem coroutinesOk_procQueue : (run (step aloneNode) aloneBoot (createRun "proc_queue")).any
      (fun s => s.history 0 = entered 1 ++ [.ret, .free]) = true ∧
    Along (step aloneNode) (fun _ _ t => CoroutinesOk aloneNode t) aloneBoot (createRun "proc_queue") := by
  refine ⟨by decide +kernel, coroutinesOk_of_run aloneNode _ _ _ _ ?_⟩
  have hall : Along (step aloneNode) (fun s _ _ => requestsConstruct aloneNode s = true) aloneBoot
      (createRun "proc_queue") := by decide +kernel
  refine along_of_invariant (I := Good aloneNode) ?_ (Good.init ..) hall
  intro s l t hs hst hrequests
  refine ⟨(step_good hs hst).1, ?_⟩
  intro hcalls
  obtain ⟨p, hp, x, id, hb, -, -, -, hno⟩ := hcalls.known hs hst
  have hyes := List.all_eq_true.mp hrequests p (List.mem_range.mpr hp)
  simp only [hb, hno] at hyes
  cases hyes

/-- `Run` of the admin module does nothing at `kConstruct`: the next pass jumps past the end of the coroutine. -/
theorem coroutinesOk_adminLib : (run (step aloneNode) aloneBoot (createRun "hermes_run_admin" ++
      [.node (.scan 0 []), .node (.scan 0 []), .node (.poll 0 aloneNode.adminLane), .node (.scan 0 [])])).any
      (fun s => s.history 0 = entered 1 ++ [.ret, .jump] && s.node.halted) = true ∧
    ¬Along (step aloneNode) (fun _ _ t => CoroutinesOk aloneNode t) aloneBoot (createRun "hermes_run_admin") := by
  refine ⟨by decide +kernel, ?_⟩
  intro h
  have hfinished : Along (step aloneNode) (fun _ _ t => 0 < t.node.next → role (t.node.mem 0) = .createTaskState →
      .ret ∈ t.history 0 → (t.node.mem 0).isModuleComplete = true) aloneBoot (createRun "hermes_run_admin") := by
    refine along_of_invariant (I := fun _ => True) ?_ trivial h
    intro s l t _ _ hok
    exact ⟨trivial, fun hp hrole => (hok 0 hp hrole).finished⟩
  exact absurd hfinished (by decide +kernel)

end

end HermesRun.AdminServer
