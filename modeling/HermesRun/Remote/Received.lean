import HermesRun.Admin.Cluster
import HermesRun.Remote.Gather

namespace HermesRun.Received

open Admin (CreateTaskStateTask Node)

inductive Lib where
  | hermesRunAdmin
  | procQueue
  | remoteQueue
  | worchQueueRoundRobin
  | worchProcRoundRobin
  | smallMessage
  deriving DecidableEq, Repr

inductive TaskType where
  | createTaskState
  | destroyTaskState
  | registerTaskLib
  | destroyTaskLib
  | getOrCreateTaskStateId
  | getTaskStateId
  | stopRuntime
  | setWorkOrchQueuePolicy
  | setWorkOrchProcPolicy
  | construct (lib : Lib)
  | destruct (lib : Lib)
  | push (lib : Lib)
  | schedule (lib : Lib)
  | md
  | io
  | mdPush
  deriving DecidableEq, Repr

def kSchedule : ℕ := TaskMethod.kLast + 0

/-- The cases of a library's `lib_exec.h`. The admin library has none for the methods that all others share. -/
def Lib.cases : Lib → List (ℕ × TaskType)
  | .hermesRunAdmin => [(HermesRunAdmin.Method.kCreateTaskState, .createTaskState),
      (HermesRunAdmin.Method.kDestroyTaskState, .destroyTaskState),
      (HermesRunAdmin.Method.kRegisterTaskLib, .registerTaskLib),
      (HermesRunAdmin.Method.kDestroyTaskLib, .destroyTaskLib),
      (HermesRunAdmin.Method.kGetOrCreateTaskStateId, .getOrCreateTaskStateId),
      (HermesRunAdmin.Method.kGetTaskStateId, .getTaskStateId),
      (HermesRunAdmin.Method.kStopRuntime, .stopRuntime),
      (HermesRunAdmin.Method.kSetWorkOrchQueuePolicy, .setWorkOrchQueuePolicy),
      (HermesRunAdmin.Method.kSetWorkOrchProcPolicy, .setWorkOrchProcPolicy)]
  | .procQueue => [(TaskMethod.kConstruct, .construct .procQueue), (TaskMethod.kDestruct, .destruct .procQueue),
      (ProcQueue.Method.kPush, .push .procQueue)]
  | .remoteQueue => [(TaskMethod.kConstruct, .construct .remoteQueue),
      (TaskMethod.kDestruct, .destruct .remoteQueue), (RemoteQueue.Method.kPush, .push .remoteQueue)]
  | .worchQueueRoundRobin => [(TaskMethod.kConstruct, .construct .worchQueueRoundRobin),
      (TaskMethod.kDestruct, .destruct .worchQueueRoundRobin), (kSchedule, .schedule .worchQueueRoundRobin)]
  | .worchProcRoundRobin => [(TaskMethod.kConstruct, .construct .worchProcRoundRobin),
      (TaskMethod.kDestruct, .destruct .worchProcRoundRobin), (kSchedule, .schedule .worchProcRoundRobin)]
  | .smallMessage => [(TaskMethod.kConstruct, .construct .smallMessage),
      (TaskMethod.kDestruct, .destruct .smallMessage), (SmallMessage.Method.kMd, .md),
      (SmallMessage.Method.kIo, .io), (SmallMessage.Method.kMdPush, .mdPush)]

def Lib.dispatch (lib : Lib) (method : ℕ) : Option TaskType := lib.cases.lookup method

inductive Phase where
  | queued
  | waiting
  | answered (id : TaskStateId)
  | ended
  | responded
  deriving DecidableEq, Repr

/-- `lib` is the library of the state that the RPC names, and the `task_state_` in its params names the same one.
`method` is the one that the RPC names, by which `LoadStart` and `SaveEnd` go, `type` what `LoadStart` has allocated
and, as history, `loaded` the `method_` that it read, by which `Run` and `Del` go. -/
structure Copy where
  lib : Lib
  method : ℕ
  type : TaskType
  loaded : ℕ
  task : Task CreateTaskStateTask
  phase : Phase

/-- `freed` has every call of `DelTask` with the type it was made for. -/
structure State where
  node : Node
  copies : ℕ → Option Copy
  next : ℕ
  freed : List (ℕ × TaskType)

inductive Label where
  | rpcExec (lib : Lib) (method : ℕ) (loaded : Task CreateTaskStateTask)
  | run (p : ℕ) (out : Task CreateTaskStateTask)
  | answer (p : ℕ) (id : TaskStateId)
  | resume (p : ℕ)
  | endTask (p : ℕ)
  | rpcComplete (p : ℕ)
  | other (n : Node)

def State.init (n : Node) : State := ⟨n, fun _ => none, 0, []⟩

namespace State

variable (s : State)

def setCopy (p : ℕ) (c : Copy) : State := { s with copies := Function.update s.copies p (some c) }

def rpcExec (lib : Lib) (method : ℕ) (loaded : Task CreateTaskStateTask) : Option State :=
  (lib.dispatch method).map fun type =>
    let t := { loaded with domainId := DomainId.getNode s.node.registry.nodeId }
    let t := t.unsetFireAndForget.unsetStarted.unsetMarked.unsetDataOwner.unsetLongRunning
    { s with
      copies := Function.update s.copies s.next (some ⟨lib, method, type, loaded.method, t, .queued⟩)
      next := s.next + 1 }

def createTaskStateEnd (p : ℕ) (c : Copy) (x : CreateTaskStateTask) : State :=
  let t := { c.task with body := .own x }.setModuleComplete
  if x.id.isNull || s.node.registry.taskStateExists x.id then s.setCopy p { c with task := t, phase := .queued }
  else
    { s.setCopy p { c with task := { t with method := TaskMethod.kConstruct }, phase := .queued } with
      node := s.node.createTaskStateEnd x }

def createTaskState (p : ℕ) (c : Copy) (x : CreateTaskStateTask) : State :=
  match s.node.registry.getTaskState x.stateName x.id with
  | some state =>
    s.setCopy p { c with task := { c.task with body := .own { x with id := state.id } }.setModuleComplete }
  | none => if x.id.isNull then s.setCopy p { c with phase := .waiting } else s.createTaskStateEnd p c x

end State

def handlerKeeps (t out : Task CreateTaskStateTask) : Bool :=
  out.method = t.method && (out.taskFlags = t.taskFlags || out.taskFlags = t.setModuleComplete.taskFlags)

def runCopy (s : State) (p : ℕ) (c : Copy) (out : Task CreateTaskStateTask) : Option State :=
  match c.lib.dispatch c.task.method with
  | none => some s
  | some .createTaskState => match c.task.body with
    | .own x => some (s.createTaskState p c x)
    | .push _ => none
  | some _ => if handlerKeeps c.task out then some (s.setCopy p { c with task := out }) else none

def del (s : State) (p : ℕ) (c : Copy) : List (ℕ × TaskType) :=
  s.freed ++ ((c.lib.dispatch c.task.method).map fun type => (p, type)).toList

def endTask (s : State) (p : ℕ) (c : Copy) : State :=
  if c.task.isFireAndForget then { s.setCopy p { c with phase := .ended } with freed := del s p c }
  else s.setCopy p { c with task := c.task.setComplete, phase := .ended }

def step (s : State) (l : Label) : Option State :=
  if s.node.halted then none
  else match l with
    | .rpcExec lib method loaded => s.rpcExec lib method loaded
    | .run p out => (s.copies p).bind fun c =>
      if c.phase = .queued ∧ c.task.isModuleComplete = false then runCopy s p c out else none
    | .answer p id => (s.copies p).bind fun c =>
      if c.phase = .waiting then some (s.setCopy p { c with phase := .answered id }) else none
    | .resume p => (s.copies p).bind fun c => match c.phase, c.task.body with
      | .answered id, .own x => some (s.createTaskStateEnd p c { x with id := id })
      | _, _ => none
    | .endTask p => (s.copies p).bind fun c =>
      if c.phase = .queued ∧ c.task.isModuleComplete = true then some (endTask s p c) else none
    | .rpcComplete p => (s.copies p).bind fun c =>
      if c.phase = .ended ∧ c.task.isComplete = true then
        some { s.setCopy p { c with phase := .responded } with freed := del s p c }
      else none
    | .other n => some { s with node := n }

def Creates (p : ℕ) (s : State) : Label → Prop
  | .run q _ => q = p ∧ ∃ c x, s.copies p = some c ∧ c.lib.dispatch c.task.method = some .createTaskState ∧
      c.task.body = .own x ∧ s.node.registry.getTaskState x.stateName x.id = none ∧ x.id.isNull = false ∧
      s.node.registry.taskStateExists x.id = false
  | .resume q => q = p ∧ ∃ c id, s.copies p = some c ∧ c.phase = .answered id ∧ id.isNull = false ∧
      s.node.registry.taskStateExists id = false
  | _ => False

def freedAs (s : State) (p : ℕ) : List TaskType := (s.freed.filter (·.1 = p)).map (·.2)

variable {s t : State} {p q : ℕ} {l : Label} {c : Copy}

theorem dispatch_mem {lib : Lib} {m : ℕ} {type : TaskType} (h : lib.dispatch m = some type) :
    (m, type) ∈ lib.cases := by
  obtain ⟨before, after, heq, -⟩ := List.lookup_eq_some_iff.mp h
  rw [heq]
  exact List.mem_append_right _ List.mem_cons_self

theorem dispatch_injective {lib : Lib} {m m' : ℕ} {type : TaskType} (h : lib.dispatch m = some type)
    (h' : lib.dispatch m' = some type) : m = m' := by
  have hnodup : (lib.cases.map (·.2)).Nodup := by cases lib <;> decide
  have heq := List.inj_on_of_nodup_map hnodup (dispatch_mem h) (dispatch_mem h') rfl
  exact congrArg Prod.fst heq

theorem dispatch_createTaskState {lib : Lib} {m : ℕ} (h : lib.dispatch m = some .createTaskState) :
    lib = .hermesRunAdmin ∧ m = HermesRunAdmin.Method.kCreateTaskState := by
  have hmem := dispatch_mem h
  cases lib <;> simp [Lib.cases] at hmem
  exact ⟨rfl, hmem⟩

structure CopyOk (c : Copy) (freed : List TaskType) : Prop where
  type : c.lib.dispatch c.method = some c.type
  owned : c.task.isFireAndForget = false
  method : c.task.method = c.loaded ∨ c.lib = .hermesRunAdmin ∧
    c.loaded = HermesRunAdmin.Method.kCreateTaskState ∧ c.task.method = TaskMethod.kConstruct
  asking : ∀ id, c.phase = .waiting ∨ c.phase = .answered id →
    c.lib.dispatch c.task.method = some .createTaskState
  freed : freed = if c.phase = .responded then (c.lib.dispatch c.task.method).toList else []

structure Inv (s : State) : Prop where
  fresh : ∀ p, s.next ≤ p → s.copies p = none
  unallocated : ∀ p, s.copies p = none → freedAs s p = []
  copy : ∀ p c, s.copies p = some c → CopyOk c (freedAs s p)

structure SameCopy (c c' : Copy) : Prop where
  lib : c'.lib = c.lib
  method : c'.method = c.method
  type : c'.type = c.type
  loaded : c'.loaded = c.loaded
  owned : c'.task.isFireAndForget = c.task.isFireAndForget

inductive Change (p : ℕ) (s : State) (l : Label) (t : State) : Prop
  | none (hc : t.copies p = s.copies p) (hf : freedAs t p = freedAs s p) (hn : ¬Creates p s l)
  | load (c : Copy) (hs : s.copies p = .none) (ht : t.copies p = some c) (hf : freedAs t p = freedAs s p)
      (htype : c.lib.dispatch c.method = some c.type) (howned : c.task.isFireAndForget = false)
      (hmethod : c.task.method = c.loaded) (hphase : c.phase = .queued) (hp : p < t.next) (hn : ¬Creates p s l)
  | keep (c c' : Copy) (hs : s.copies p = some c) (ht : t.copies p = some c') (hf : freedAs t p = freedAs s p)
      (hsame : SameCopy c c') (hmethod : c'.task.method = c.task.method) (hopen : c.phase ≠ .responded)
      (hphase : c'.phase = .queued ∨ c'.phase = .ended ∨ c.lib.dispatch c.task.method = some .createTaskState ∧
        c'.phase ≠ .responded) (hn : ¬Creates p s l)
  | create (c c' : Copy) (hs : s.copies p = some c) (ht : t.copies p = some c') (hf : freedAs t p = freedAs s p)
      (hsame : SameCopy c c') (hmethod : c'.task.method = TaskMethod.kConstruct)
      (htype : c.lib.dispatch c.task.method = some .createTaskState) (hopen : c.phase ≠ .responded)
      (hphase : c'.phase = .queued) (hn : Creates p s l)
  | respond (c : Copy) (hs : s.copies p = some c) (hended : c.phase = .ended)
      (ht : t.copies p = some { c with phase := .responded })
      (hf : freedAs t p = freedAs s p ++ (c.lib.dispatch c.task.method).toList) (hn : ¬Creates p s l)

theorem freedAs_del (s : State) (p q : ℕ) (c : Copy) :
    ((del s q c).filter (·.1 = p)).map (·.2) =
      freedAs s p ++ if q = p then (c.lib.dispatch c.task.method).toList else [] := by
  unfold del freedAs
  cases c.lib.dispatch c.task.method with
  | none => simp
  | some type =>
    by_cases h : q = p
    · simp [h]
    · simp [h]

@[simp] theorem setCopy_self (s : State) (p : ℕ) (c : Copy) : (s.setCopy p c).copies p = some c :=
  Function.update_self ..

theorem setCopy_of_ne (s : State) {p q : ℕ} (c : Copy) (h : p ≠ q) : (s.setCopy q c).copies p = s.copies p :=
  Function.update_of_ne h ..

theorem change_setCopy {c' : Copy} {n : Node} (hq : s.copies q = some c) (hsame : SameCopy c c')
    (hmethod : c'.task.method = c.task.method) (hopen : c.phase ≠ .responded)
    (hphase : c'.phase = .queued ∨ c'.phase = .ended ∨ c.lib.dispatch c.task.method = some .createTaskState ∧
      c'.phase ≠ .responded) (hn : ¬Creates p s l) : Change p s l { s.setCopy q c' with node := n } := by
  by_cases hpq : p = q
  · subst hpq
    exact .keep c c' hq (setCopy_self s p c') rfl hsame hmethod hopen hphase hn
  · exact .none (setCopy_of_ne s c' hpq) rfl hn

theorem change_createTaskStateEnd {x : CreateTaskStateTask} (hq : s.copies q = some c)
    (htype : c.lib.dispatch c.task.method = some .createTaskState) (hopen : c.phase ≠ .responded)
    (hcreates : ∀ p, Creates p s l ↔ p = q ∧ x.id.isNull = false ∧ s.node.registry.taskStateExists x.id = false) :
    Change p s l (s.createTaskStateEnd q c x) := by
  unfold State.createTaskStateEnd
  dsimp only
  split_ifs with hcheck
  · have hn : ¬Creates p s l := by
      rw [hcreates p]
      rintro ⟨-, hnull, hexists⟩
      simp [hnull, hexists] at hcheck
    exact change_setCopy (n := s.node) hq ⟨rfl, rfl, rfl, rfl, Task.setModuleComplete_isFireAndForget _⟩ rfl
      hopen (Or.inl rfl) hn
  · rw [Bool.not_eq_true, Bool.or_eq_false_iff] at hcheck
    by_cases hpq : p = q
    · subst hpq
      exact .create c _ hq (setCopy_self s p _) rfl
        ⟨rfl, rfl, rfl, rfl, Task.setModuleComplete_isFireAndForget _⟩ rfl htype hopen rfl
        ((hcreates p).mpr ⟨rfl, hcheck.1, hcheck.2⟩)
    · exact .none (setCopy_of_ne s _ hpq) rfl (fun h => hpq ((hcreates p).mp h).1)

theorem change_run {out : Task CreateTaskStateTask} (hq : s.copies q = some c) (hphase : c.phase = .queued)
    (hrun : runCopy s q c out = some t) : Change p s (.run q out) t := by
  have hopen : c.phase ≠ .responded := by simp [hphase]
  unfold runCopy at hrun
  split at hrun
  · rename_i hnone
    cases hrun
    refine .none rfl rfl ?_
    rintro ⟨rfl, c', x, hc', htype, -⟩
    rw [hq, Option.some.injEq] at hc'
    rw [← hc', hnone] at htype
    cases htype
  · rename_i htype
    split at hrun
    · rename_i x hbody
      cases hrun
      have hcreates : ∀ p, Creates p s (.run q out) ↔ p = q ∧
          s.node.registry.getTaskState x.stateName x.id = none ∧ x.id.isNull = false ∧
          s.node.registry.taskStateExists x.id = false := by
        intro p
        constructor
        · rintro ⟨rfl, c', x', hc', -, hbody', hcheck⟩
          rw [hq, Option.some.injEq] at hc'
          subst hc'
          rw [hbody, Body.own.injEq] at hbody'
          subst hbody'
          exact ⟨rfl, hcheck⟩
        · rintro ⟨rfl, hcheck⟩
          exact ⟨rfl, c, x, hq, htype, hbody, hcheck⟩
      unfold State.createTaskState
      split
      · rename_i state hstate
        refine change_setCopy (n := s.node) hq ⟨rfl, rfl, rfl, rfl, Task.setModuleComplete_isFireAndForget _⟩ rfl
          hopen (Or.inl hphase) ?_
        rw [hcreates p, hstate]
        simp
      · rename_i hstate
        split_ifs with hnull
        · refine change_setCopy (n := s.node) hq ⟨rfl, rfl, rfl, rfl, rfl⟩ rfl hopen
            (Or.inr (Or.inr ⟨htype, by simp⟩)) ?_
          rw [hcreates p, hnull]
          simp
        · apply change_createTaskStateEnd hq htype hopen
          intro p
          rw [hcreates p]
          simp [hstate]
    · cases hrun
  · rename_i type hother htype
    split_ifs at hrun with hkeeps
    cases hrun
    simp only [handlerKeeps, Bool.and_eq_true, Bool.or_eq_true, decide_eq_true_eq] at hkeeps
    refine change_setCopy (n := s.node) hq ⟨rfl, rfl, rfl, rfl, ?_⟩ hkeeps.1 hopen (Or.inl hphase) ?_
    · rcases hkeeps.2 with hflags | hflags
      · simp only [Task.isFireAndForget, hflags]
      · rw [← Task.setModuleComplete_isFireAndForget c.task]
        simp only [Task.isFireAndForget, hflags]
    · rintro ⟨rfl, c', x, hc', htype', -⟩
      rw [hq, Option.some.injEq] at hc'
      subst hc'
      rw [htype', Option.some.injEq] at htype
      exact hother htype.symm

theorem step_change (h : Inv s) (hstep : step s l = some t) (p : ℕ) : Change p s l t := by
  unfold step at hstep
  split_ifs at hstep
  cases l with
  | rpcExec lib method loaded =>
    obtain ⟨type, htype, rfl⟩ := Option.map_eq_some_iff.mp hstep
    by_cases hp : p = s.next
    · subst hp
      exact .load _ (h.fresh _ (le_refl _)) (Function.update_self ..) rfl htype
        (Task.unsetLongRunning_isFireAndForget _) rfl rfl (Nat.lt_succ_self _) id
    · exact .none (Function.update_of_ne hp ..) rfl id
  | run q out =>
    obtain ⟨c, hc, hstep⟩ := Option.bind_eq_some_iff.mp hstep
    split_ifs at hstep with hphase
    exact change_run hc hphase.1 hstep
  | answer q id =>
    obtain ⟨c, hc, hstep⟩ := Option.bind_eq_some_iff.mp hstep
    split_ifs at hstep with hphase
    cases hstep
    have htype := (h.copy q c hc).asking id (Or.inl hphase)
    exact change_setCopy (n := s.node) hc ⟨rfl, rfl, rfl, rfl, rfl⟩ rfl (by simp [hphase])
      (Or.inr (Or.inr ⟨htype, by simp⟩)) (fun h => h)
  | resume q =>
    obtain ⟨c, hc, hstep⟩ := Option.bind_eq_some_iff.mp hstep
    split at hstep
    · rename_i id x hphase hbody
      cases hstep
      apply change_createTaskStateEnd hc ((h.copy q c hc).asking id (Or.inr hphase)) (by simp [hphase])
      intro p
      constructor
      · rintro ⟨rfl, c', id', hc', hphase', hcheck⟩
        rw [hc, Option.some.injEq] at hc'
        subst hc'
        rw [hphase, Phase.answered.injEq] at hphase'
        subst hphase'
        exact ⟨rfl, hcheck⟩
      · rintro ⟨rfl, hcheck⟩
        exact ⟨rfl, c, id, hc, hphase, hcheck⟩
    · cases hstep
  | endTask q =>
    obtain ⟨c, hc, hstep⟩ := Option.bind_eq_some_iff.mp hstep
    split_ifs at hstep with hphase
    cases hstep
    unfold endTask
    rw [if_neg (by simp [(h.copy q c hc).owned])]
    exact change_setCopy (n := s.node) hc ⟨rfl, rfl, rfl, rfl, Task.setComplete_isFireAndForget _⟩ rfl
      (by simp [hphase.1]) (Or.inr (Or.inl rfl)) (fun h => h)
  | rpcComplete q =>
    obtain ⟨c, hc, hstep⟩ := Option.bind_eq_some_iff.mp hstep
    split_ifs at hstep with hphase
    cases hstep
    have hfreed := freedAs_del s p q c
    by_cases hpq : p = q
    · subst hpq
      rw [if_pos rfl] at hfreed
      exact .respond c hc hphase.1 (setCopy_self s p _) hfreed (fun h => h)
    · rw [if_neg (Ne.symm hpq), List.append_nil] at hfreed
      exact .none (setCopy_of_ne s _ hpq) hfreed (fun h => h)
  | other n =>
    cases hstep
    exact .none rfl rfl (fun h => h)

theorem createTaskStateEnd_next (s : State) (p : ℕ) (c : Copy) (x : CreateTaskStateTask) :
    (s.createTaskStateEnd p c x).next = s.next := by
  unfold State.createTaskStateEnd
  dsimp only
  split_ifs <;> rfl

theorem step_next (hstep : step s l = some t) : s.next ≤ t.next := by
  unfold step at hstep
  split_ifs at hstep
  cases l with
  | rpcExec lib method loaded =>
    obtain ⟨type, -, rfl⟩ := Option.map_eq_some_iff.mp hstep
    exact Nat.le_succ _
  | run q out =>
    obtain ⟨c, -, hstep⟩ := Option.bind_eq_some_iff.mp hstep
    split_ifs at hstep
    apply Nat.le_of_eq
    unfold runCopy at hstep
    split at hstep
    · cases hstep
      rfl
    · split at hstep
      · cases hstep
        unfold State.createTaskState
        split
        · rfl
        · split_ifs
          · rfl
          · exact (createTaskStateEnd_next ..).symm
      · cases hstep
    · split_ifs at hstep
      cases hstep
      rfl
  | answer q id =>
    obtain ⟨c, -, hstep⟩ := Option.bind_eq_some_iff.mp hstep
    split_ifs at hstep
    cases hstep
    exact le_refl _
  | resume q =>
    obtain ⟨c, -, hstep⟩ := Option.bind_eq_some_iff.mp hstep
    split at hstep
    · cases hstep
      exact Nat.le_of_eq (createTaskStateEnd_next ..).symm
    · cases hstep
  | endTask q =>
    obtain ⟨c, -, hstep⟩ := Option.bind_eq_some_iff.mp hstep
    split_ifs at hstep
    cases hstep
    unfold endTask
    split_ifs <;> exact le_refl _
  | rpcComplete q =>
    obtain ⟨c, -, hstep⟩ := Option.bind_eq_some_iff.mp hstep
    split_ifs at hstep
    cases hstep
    exact le_refl _
  | other n =>
    cases hstep
    exact le_refl _

theorem CopyOk.keep {c' : Copy} {freed : List TaskType} (h : CopyOk c freed) (hsame : SameCopy c c')
    (hmethod : c'.task.method = c.task.method) (hopen : c.phase ≠ .responded)
    (hphase : c'.phase = .queued ∨ c'.phase = .ended ∨ c.lib.dispatch c.task.method = some .createTaskState ∧
      c'.phase ≠ .responded) : CopyOk c' freed := by
  have hclosed : c'.phase ≠ .responded := by
    rcases hphase with hphase | hphase | ⟨-, hphase⟩
    · simp [hphase]
    · simp [hphase]
    · exact hphase
  refine ⟨?_, ?_, ?_, ?_, ?_⟩
  · rw [hsame.lib, hsame.method, hsame.type]
    exact h.type
  · rw [hsame.owned]
    exact h.owned
  · rw [hmethod, hsame.lib, hsame.loaded]
    exact h.method
  · intro id hasking
    rw [hsame.lib, hmethod]
    rcases hphase with hphase | hphase | ⟨htype, -⟩
    · simp [hphase] at hasking
    · simp [hphase] at hasking
    · exact htype
  · rw [h.freed, if_neg hopen, if_neg hclosed]

theorem CopyOk.create {c' : Copy} {freed : List TaskType} (h : CopyOk c freed) (hsame : SameCopy c c')
    (hmethod : c'.task.method = TaskMethod.kConstruct)
    (htype : c.lib.dispatch c.task.method = some .createTaskState) (hopen : c.phase ≠ .responded)
    (hphase : c'.phase = .queued) : CopyOk c' freed := by
  obtain ⟨hlib, hcreate⟩ := dispatch_createTaskState htype
  have hloaded : c.loaded = HermesRunAdmin.Method.kCreateTaskState := by
    rcases h.method with hsame | ⟨-, hloaded, -⟩
    · rw [← hsame, hcreate]
    · exact hloaded
  refine ⟨?_, ?_, ?_, ?_, ?_⟩
  · rw [hsame.lib, hsame.method, hsame.type]
    exact h.type
  · rw [hsame.owned]
    exact h.owned
  · rw [hsame.lib, hsame.loaded]
    exact Or.inr ⟨hlib, hloaded, hmethod⟩
  · intro id hasking
    simp [hphase] at hasking
  · rw [h.freed, if_neg hopen, if_neg (by simp [hphase])]

theorem step_inv (h : Inv s) (hstep : step s l = some t) : Inv t := by
  have hnext := step_next hstep
  refine ⟨?_, ?_, ?_⟩
  · intro p hp
    have hnone := h.fresh p (by omega)
    cases step_change h hstep p with
    | none hc => rw [hc, hnone]
    | load c hs ht hf htype howned hmethod hphase hlt => omega
    | keep c c' hs | create c c' hs | respond c hs =>
      rw [hnone] at hs
      cases hs
  · intro p hp
    cases step_change h hstep p with
    | none hc hf =>
      rw [hf]
      exact h.unallocated p (hc ▸ hp)
    | load c hs ht | keep c c' hs ht | create c c' hs ht | respond c hs hended ht =>
      rw [ht] at hp
      cases hp
  · intro p d hd
    cases step_change h hstep p with
    | none hc hf =>
      rw [hf]
      exact h.copy p d (hc ▸ hd)
    | load c hs ht hf htype howned hmethod hphase =>
      rw [ht, Option.some.injEq] at hd
      subst hd
      refine ⟨htype, howned, Or.inl hmethod, ?_, ?_⟩
      · intro id hasking
        simp [hphase] at hasking
      · rw [hf, h.unallocated p hs, if_neg (by simp [hphase])]
    | keep c c' hs ht hf hsame hmethod hopen hphase =>
      rw [ht, Option.some.injEq] at hd
      subst hd
      rw [hf]
      exact (h.copy p c hs).keep hsame hmethod hopen hphase
    | create c c' hs ht hf hsame hmethod htype hopen hphase =>
      rw [ht, Option.some.injEq] at hd
      subst hd
      rw [hf]
      exact (h.copy p c hs).create hsame hmethod htype hopen hphase
    | respond c hs hended ht hf =>
      rw [ht, Option.some.injEq] at hd
      subst hd
      have hc := h.copy p c hs
      refine ⟨hc.type, hc.owned, hc.method, ?_, ?_⟩
      · intro id hasking
        simp at hasking
      · rw [hf, hc.freed, if_neg (by simp [hended]), if_pos rfl, List.nil_append]

def MethodKept (p : ℕ) (s : State) : Prop := ∀ c, s.copies p = some c → c.task.method = c.loaded

theorem step_methodKept (h : Inv s) (hstep : step s l = some t) :
    MethodKept p t ↔ MethodKept p s ∧ ¬Creates p s l := by
  have hcopy : ∀ {c : Copy}, s.copies p = some c → (MethodKept p s ↔ c.task.method = c.loaded) := by
    intro c hs
    simp [MethodKept, hs]
  cases step_change h hstep p with
  | none hc hf hn =>
    rw [and_iff_left hn]
    simp only [MethodKept, hc]
  | load c hs ht hf htype howned hmethod hphase hp hn =>
    rw [and_iff_left hn]
    simp [MethodKept, hs, ht, hmethod]
  | keep c c' hs ht hf hsame hmethod hopen hphase hn =>
    rw [and_iff_left hn, hcopy hs]
    simp [MethodKept, ht, hmethod, hsame.loaded]
  | create c c' hs ht hf hsame hmethod htype hopen hphase hn =>
    have hloaded : c.loaded ≠ TaskMethod.kConstruct := by
      obtain ⟨-, hcreate⟩ := dispatch_createTaskState htype
      rcases (h.copy p c hs).method with hsame | ⟨-, hloaded, -⟩
      · rw [← hsame, hcreate]
        decide
      · rw [hloaded]
        decide
    refine iff_of_false ?_ (fun hkept => hkept.2 hn)
    intro hkept
    have heq := hkept c' ht
    rw [hmethod, hsame.loaded] at heq
    exact hloaded heq.symm
  | respond c hs hended ht hf hn =>
    rw [and_iff_left hn, hcopy hs]
    simp [MethodKept, ht]

theorem inv_init (n : Node) : Inv (State.init n) where
  fresh _ _ := rfl
  unallocated _ _ := rfl
  copy p c hc := by cases hc

theorem freedOnce_iff (n : Node) (labels : List Label) (s : State)
    (hrun : Runs.run step (State.init n) labels = some s) (p : ℕ) (c : Copy) (hp : s.copies p = some c)
    (hdone : c.phase = .responded) :
    freedAs s p = [c.type] ↔
      c.loaded = c.method ∧ Runs.Along step (fun s l _ => ¬Creates p s l) (State.init n) labels := by
  have hinv := Runs.run_invariant_all (I := Inv) (fun _ _ _ h hstep => step_inv h hstep) (inv_init n) hrun
  have hfirst : MethodKept p (State.init n) := by
    intro c hc
    cases hc
  have hkept : MethodKept p s ↔ MethodKept p (State.init n) ∧
      Runs.Along step (fun s l _ => ¬Creates p s l) (State.init n) labels :=
    Runs.run_iff (fun _ _ _ h hstep => step_inv h hstep) (fun _ _ _ h hstep => step_methodKept h hstep)
      (inv_init n) hrun
  rw [and_iff_right hfirst] at hkept
  have hc := hinv.copy p c hp
  rw [← hkept, hc.freed, if_pos hdone]
  have hmethod : MethodKept p s ↔ c.task.method = c.loaded := by simp [MethodKept, hp]
  rw [hmethod]
  constructor
  · intro hfreed
    have htype : c.lib.dispatch c.task.method = some c.type := by
      cases hd : c.lib.dispatch c.task.method with
      | none => simp [hd] at hfreed
      | some type => simpa [hd] using hfreed
    -- what was freed is of the allocated type, so the method is still that of the RPC
    have heq := dispatch_injective htype hc.type
    rcases hc.method with hsame | ⟨hlib, -, hconstruct⟩
    · exact ⟨hsame.symm.trans heq, hsame⟩
    · rw [hlib, hconstruct] at htype
      cases htype
  · rintro ⟨hloaded, hsame⟩
    rw [hsame, hloaded, hc.type]
    rfl

/-- A task as `LoadStart` reads it; its own fields only count for the admin library. -/
def loadedTask (method : ℕ) (id : TaskStateId) : Task CreateTaskStateTask :=
  ⟨⟨1, 0⟩, ⟨⟨1, 9⟩, 0⟩, DomainId.getNode 1, TaskPrio.kLowLatency, 0, method, taskLowLatency,
    .own ⟨DomainId.getNode 1, "small_message", "ipc_test", id, [⟨1, 1, 256, 0⟩]⟩⟩

def serverNode : Node := (Node.serverInit ⟨2, 1024, 16, 256, []⟩ 2).registerTaskLib "small_message"

def mdRpc : List Label :=
  [.rpcExec .smallMessage SmallMessage.Method.kMd (loadedTask SmallMessage.Method.kMd UniqueId.getNull),
    .run 0 (loadedTask SmallMessage.Method.kMd UniqueId.getNull).setModuleComplete, .endTask 0, .rpcComplete 0]

theorem freedOnce_mdRpc : ∃ s c, Runs.run step (State.init serverNode) mdRpc = some s ∧ s.copies 0 = some c ∧
    c.phase = .responded ∧ freedAs s 0 = [c.type] ∧ c.loaded = c.method ∧
    Runs.Along step (fun s l _ => ¬Creates 0 s l) (State.init serverNode) mdRpc := by
  have hsome : (Runs.run step (State.init serverNode) mdRpc).any (fun s => (s.copies 0).any fun c =>
      decide (c.phase = .responded ∧ freedAs s 0 = [c.type])) = true := by decide +kernel
  obtain ⟨s, hs, hany⟩ := (Option.any_eq_true _ _).mp hsome
  obtain ⟨c, hc, hok⟩ := (Option.any_eq_true _ _).mp hany
  obtain ⟨hdone, hfreed⟩ := of_decide_eq_true hok
  exact ⟨s, c, hs, hc, hdone, hfreed, (freedOnce_iff serverNode mdRpc s hs 0 c hc hdone).mp hfreed⟩

def createRpc : List Label :=
  [.rpcExec .hermesRunAdmin HermesRunAdmin.Method.kCreateTaskState
      (loadedTask HermesRunAdmin.Method.kCreateTaskState ⟨1, 100⟩),
    .run 0 (loadedTask HermesRunAdmin.Method.kCreateTaskState ⟨1, 100⟩), .endTask 0, .rpcComplete 0]

/-- The handler has made a `kConstruct` task of the copy, which the admin library's `Del` has no case for. -/
theorem freedOnce_createRpc : ∃ s c, Runs.run step (State.init serverNode) createRpc = some s ∧
    s.copies 0 = some c ∧ c.phase = .responded ∧ c.loaded = c.method ∧ freedAs s 0 = [] ∧
    freedAs s 0 ≠ [c.type] := by
  have hsome : (Runs.run step (State.init serverNode) createRpc).any (fun s => (s.copies 0).any fun c =>
      decide (c.phase = .responded ∧ c.loaded = c.method ∧ freedAs s 0 = [])) = true := by decide +kernel
  obtain ⟨s, hs, hany⟩ := (Option.any_eq_true _ _).mp hsome
  obtain ⟨c, hc, hok⟩ := (Option.any_eq_true _ _).mp hany
  obtain ⟨hdone, hloaded, hfreed⟩ := of_decide_eq_true hok
  refine ⟨s, c, hs, hc, hdone, hloaded, hfreed, ?_⟩
  simp [hfreed]

end HermesRun.Received
