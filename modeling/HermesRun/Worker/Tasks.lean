import HermesRun.Worker.Frames
import HermesRun.Worker.Lanes

namespace HermesRun.Poll

variable {α : Type}

@[ext]
structure TasksView (α : Type) where
  mem : TaskPtr → Task α
  next : TaskPtr
  running : WorkerId → Option (Running α)
  ended : TaskPtr → Prop

namespace TasksView

variable (v : TasksView α)

def new (x : Task α) : TasksView α := { v with mem := Function.update v.mem v.next x, next := v.next + 1 }

def setTask (p : TaskPtr) (x : Task α) : TasksView α := { v with mem := Function.update v.mem p x }

def setRunning (w : WorkerId) (r : Option (Running α)) : TasksView α :=
  { v with running := Function.update v.running w r }

def setEnded (p : TaskPtr) : TasksView α := { v with ended := fun q => q = p ∨ v.ended q }

@[simp] theorem setTask_self (p : TaskPtr) (x : Task α) : (v.setTask p x).mem p = x := by simp [setTask]

theorem setTask_of_ne {p q : TaskPtr} (x : Task α) (h : q ≠ p) : (v.setTask p x).mem q = v.mem q := by
  simp [setTask, h]

@[simp] theorem new_self (x : Task α) : (v.new x).mem v.next = x := by simp [new]

theorem new_of_lt {p : TaskPtr} (x : Task α) (h : p < v.next) : (v.new x).mem p = v.mem p := by
  simp [new, Nat.ne_of_lt h]

@[simp] theorem setRunning_self (w : WorkerId) (r : Option (Running α)) : (v.setRunning w r).running w = r := by
  simp [setRunning]

theorem setRunning_of_ne {w w' : WorkerId} (r : Option (Running α)) (h : w' ≠ w) :
    (v.setRunning w r).running w' = v.running w' := by
  simp [setRunning, h]

structure Idle (p : TaskPtr) : Prop where
  known : p < v.next
  free : ∀ w r, v.running w = some r → r.task ≠ p
  notEnded : ¬v.ended p

end TasksView

def started (cfg : Config α) (t : Task α) (p : TaskPtr) (exec : Instance) (es : List (LaneRef × Task α)) :
    Running α :=
  ⟨p, exec, isRemote cfg t, (execute cfg t p exec es).mode, (execute cfg t p exec es).emplaces, false⟩

inductive TaskStep (cfg : Config α) (v : TasksView α) : Label α → TasksView α → Prop
  | quiet (i : Label α) (hi : ∀ w es, i = .scan w es → v.running w = none) : TaskStep cfg v i v
  | new (l : LaneRef) (x : Task α) (hown : isOwn x = true) : TaskStep cfg v (.emplace l x) (v.new x)
  | skip (w : WorkerId) (es : List (LaneRef × Task α)) (p : TaskPtr) (exec : Instance) (hidle : v.Idle p)
      (hw : v.running w = none) :
      TaskStep cfg v (.scan w es)
        (v.setRunning w (some ⟨p, exec, isRemote cfg (v.mem p), .skip, [], false⟩))
  | start (w : WorkerId) (es : List (LaneRef × Task α)) (p : TaskPtr) (exec : Instance) (hidle : v.Idle p)
      (hw : v.running w = none) (hd : (v.mem p).isRunDisabled = false) (hexec : exec.id = (v.mem p).taskState)
      (hes : es.all (fun e => isOwn e.2) = true) :
      TaskStep cfg v (.scan w es) ((v.setTask p (execute cfg (v.mem p) p exec es).task).setRunning w
        (some (started cfg (v.mem p) p exec es)))
  | put (w : WorkerId) (r : Running α) (dst : LaneRef) (x : Task α) (es : List (LaneRef × Task α))
      (hr : v.running w = some r) (he : r.emplaces = (dst, x) :: es) :
      TaskStep cfg v (.put w) ((v.new x).setRunning w (some { r with emplaces := es, blocked := false }))
  | block (w : WorkerId) (r : Running α) (hr : v.running w = some r) :
      TaskStep cfg v (.put w) (v.setRunning w (some { r with blocked := true }))
  | again (w : WorkerId) (out : Task α) (r : Running α) (hr : v.running w = some r) (he : r.emplaces = [])
      (hout : out.body.pushInfo = (v.mem r.task).body.pushInfo) :
      TaskStep cfg v (.finish w out) ((v.setTask r.task (ranTask r (v.mem r.task) out)).setRunning w none)
  | halt (w : WorkerId) (out : Task α) (r : Running α) (hr : v.running w = some r) (he : r.emplaces = [])
      (hout : out.body.pushInfo = (v.mem r.task).body.pushInfo) :
      TaskStep cfg v (.finish w out) (v.setTask r.task (ranTask r (v.mem r.task) out))
  | done (w : WorkerId) (out : Task α) (r : Running α) (x : Task α) (hr : v.running w = some r)
      (he : r.emplaces = []) (hout : out.body.pushInfo = (v.mem r.task).body.pushInfo)
      (hm : (ranTask r (v.mem r.task) out).isModuleComplete = true)
      (hx : x = ranTask r (v.mem r.task) out ∨ x = (ranTask r (v.mem r.task) out).setComplete) :
      TaskStep cfg v (.finish w out) (((v.setTask r.task x).setRunning w none).setEnded r.task)
  | write (p : TaskPtr) (x : Task α) (hp : p < v.next) (hx : x.body.pushInfo = (v.mem p).body.pushInfo) :
      TaskStep cfg v (.write p x) (v.setTask p x)

theorem TaskStep.next_le {cfg : Config α} {v v' : TasksView α} {i : Label α} (h : TaskStep cfg v i v') :
    v.next ≤ v'.next := by
  cases h with
  | new l x hown => exact Nat.le_succ _
  | put w r dst x es hr he => exact Nat.le_succ _
  | _ => exact Nat.le_refl _

theorem TaskStep.ended {cfg : Config α} {v v' : TasksView α} {i : Label α} (h : TaskStep cfg v i v') {p : TaskPtr}
    (hp : v.ended p) : v'.ended p := by
  cases h with
  | done w out r x hr he hout hm hx => exact Or.inr hp
  | _ => exact hp

inductive TaskMove (cfg : Config α) (v : TasksView α) (i : Label α) (v' : TasksView α) (p : TaskPtr) : Prop
  | same (hm : v'.mem p = v.mem p)
  | start (w : WorkerId) (es : List (LaneRef × Task α)) (exec : Instance) (hi : i = .scan w es) (hidle : v.Idle p)
      (hr : v'.running w = some (started cfg (v.mem p) p exec es))
      (hm : v'.mem p = (execute cfg (v.mem p) p exec es).task)
  | ran (w : WorkerId) (out : Task α) (r : Running α) (hi : i = .finish w out) (hr : v.running w = some r)
      (ht : r.task = p) (he : r.emplaces = []) (hm : v'.mem p = ranTask r (v.mem p) out ∨
        (ranTask r (v.mem p) out).isModuleComplete = true ∧ v'.ended p ∧
          v'.mem p = (ranTask r (v.mem p) out).setComplete)
  | write (x : Task α) (hi : i = .write p x) (hm : v'.mem p = x)

theorem TaskStep.move {cfg : Config α} {v v' : TasksView α} {i : Label α} (h : TaskStep cfg v i v') {p : TaskPtr}
    (hp : p < v.next) : TaskMove cfg v i v' p := by
  cases h with
  | quiet => exact .same rfl
  | new l x hown => exact .same (v.new_of_lt x hp)
  | skip w es q exec hidle hw => exact .same rfl
  | start w es q exec hidle hw hd hexec hes =>
    by_cases hq : p = q
    · subst hq
      exact .start w es exec rfl hidle (TasksView.setRunning_self ..) (TasksView.setTask_self ..)
    · exact .same (v.setTask_of_ne _ hq)
  | put w r dst x es hr he => exact .same (v.new_of_lt x hp)
  | block w r hr => exact .same rfl
  | again w out r hr he hout =>
    by_cases hq : p = r.task
    · subst hq
      exact .ran w out r rfl hr rfl he (Or.inl (TasksView.setTask_self ..))
    · exact .same (v.setTask_of_ne _ hq)
  | halt w out r hr he hout =>
    by_cases hq : p = r.task
    · subst hq
      exact .ran w out r rfl hr rfl he (Or.inl (TasksView.setTask_self ..))
    · exact .same (v.setTask_of_ne _ hq)
  | done w out r x hr he hout hm hx =>
    by_cases hq : p = r.task
    · subst hq
      have hself : (((v.setTask r.task x).setRunning w none).setEnded r.task).mem r.task = x :=
        TasksView.setTask_self ..
      refine .ran w out r rfl hr rfl he ?_
      rcases hx with rfl | rfl
      · exact Or.inl hself
      · exact Or.inr ⟨hm, Or.inl rfl, hself⟩
    · exact .same (v.setTask_of_ne _ hq)
  | write q x hq hx =>
    by_cases hpq : p = q
    · subst hpq
      exact .write x rfl (TasksView.setTask_self ..)
    · exact .same (v.setTask_of_ne _ hpq)

theorem TaskStep.made {cfg : Config α} {v v' : TasksView α} {i : Label α} (h : TaskStep cfg v i v') {p : TaskPtr}
    (hold : v.next ≤ p) (hp : p < v'.next) : p = v.next ∧ ((∃ l, i = .emplace l (v'.mem p)) ∨
      ∃ w r dst es, i = .put w ∧ v.running w = some r ∧ r.emplaces = (dst, v'.mem p) :: es) := by
  have hself : p < v.next + 1 → p = v.next := fun hlt => Nat.le_antisymm (Nat.le_of_lt_succ hlt) hold
  have hno : ¬p < v.next := Nat.not_lt_of_le hold
  cases h with
  | new l x hown =>
    have heq := hself hp
    subst heq
    rw [TasksView.new_self]
    exact ⟨rfl, Or.inl ⟨l, rfl⟩⟩
  | put w r dst x es hr he =>
    have heq := hself hp
    subst heq
    have hx : ((v.new x).setRunning w (some { r with emplaces := es, blocked := false })).mem v.next = x :=
      TasksView.new_self ..
    rw [hx]
    exact ⟨rfl, Or.inr ⟨w, r, dst, es, rfl, hr, he⟩⟩
  | _ => exact absurd hp hno

inductive RunMove (v : TasksView α) (i : Label α) (v' : TasksView α) (w : WorkerId) (r : Running α) : Prop
  | same (hr : v'.running w = some r) (hput : i = .put w → v'.next = v.next)
  | put (dst : LaneRef) (x : Task α) (es : List (LaneRef × Task α)) (hi : i = .put w)
      (he : r.emplaces = (dst, x) :: es) (hr : v'.running w = some { r with emplaces := es, blocked := false })
      (hnext : v'.next = v.next + 1) (hm : v'.mem v.next = x)
  | block (hi : i = .put w) (hr : v'.running w = some { r with blocked := true }) (hnext : v'.next = v.next)
  | finish (out : Task α) (hi : i = .finish w out) (he : r.emplaces = [])

theorem TaskStep.runMove {cfg : Config α} {v v' : TasksView α} {i : Label α} (h : TaskStep cfg v i v')
    {w : WorkerId} {r : Running α} (hr : v.running w = some r) : RunMove v i v' w r := by
  have hother : ∀ (u : TasksView α) w₀ r₀, u.running = v.running → w ≠ w₀ →
      (u.setRunning w₀ r₀).running w = some r := by
    intro u w₀ r₀ hu hw
    rw [u.setRunning_of_ne r₀ hw, hu, hr]
  have hidle : ∀ w₀, v.running w₀ = none → w ≠ w₀ := by
    rintro w₀ hw₀ rfl
    rw [hr] at hw₀
    cases hw₀
  have hsame : ∀ w₀ r₀, v.running w₀ = some r₀ → w = w₀ → r₀ = r := by
    rintro w₀ r₀ hr₀ rfl
    rw [hr, Option.some.injEq] at hr₀
    exact hr₀.symm
  cases h with
  | quiet => exact .same hr (fun _ => rfl)
  | new l x hown => exact .same hr (fun hi => by cases hi)
  | skip w₀ es q exec hq hw₀ => exact .same (hother _ _ _ rfl (hidle w₀ hw₀)) (fun hi => by cases hi)
  | start w₀ es q exec hq hw₀ hd hexec hes =>
    exact .same (hother _ _ _ rfl (hidle w₀ hw₀)) (fun hi => by cases hi)
  | put w₀ r₀ dst x es hr₀ he =>
    by_cases hw : w = w₀
    · have heq := hsame w₀ r₀ hr₀ hw
      subst hw heq
      exact .put dst x es rfl he (TasksView.setRunning_self ..) rfl (TasksView.new_self ..)
    · refine .same (hother _ _ _ rfl hw) ?_
      intro hi
      cases hi
      exact absurd rfl hw
  | block w₀ r₀ hr₀ =>
    by_cases hw : w = w₀
    · have heq := hsame w₀ r₀ hr₀ hw
      subst hw heq
      exact .block rfl (TasksView.setRunning_self ..) rfl
    · exact .same (hother _ _ _ rfl hw) (fun _ => rfl)
  | again w₀ out r₀ hr₀ he hout =>
    by_cases hw : w = w₀
    · have heq := hsame w₀ r₀ hr₀ hw
      subst hw heq
      exact .finish out rfl he
    · exact .same (hother _ _ _ rfl hw) (fun hi => by cases hi)
  | halt w₀ out r₀ hr₀ he hout => exact .same hr (fun hi => by cases hi)
  | done w₀ out r₀ x hr₀ he hout hm hx =>
    by_cases hw : w = w₀
    · have heq := hsame w₀ r₀ hr₀ hw
      subst hw heq
      exact .finish out rfl he
    · exact .same (hother _ _ _ rfl hw) (fun hi => by cases hi)
  | write q x hq hx => exact .same hr (fun hi => by cases hi)

inductive RunOrigin (cfg : Config α) (v : TasksView α) (i : Label α) (w : WorkerId) (r : Running α) : Prop
  | same (hr : v.running w = some r)
  | skip (es : List (LaneRef × Task α)) (hi : i = .scan w es) (hidle : v.Idle r.task) (hm : r.mode = .skip)
      (he : r.emplaces = [])
  | start (es : List (LaneRef × Task α)) (exec : Instance) (hi : i = .scan w es) (hidle : v.Idle r.task)
      (hr : r = started cfg (v.mem r.task) r.task exec es)
  | put (r₀ : Running α) (hi : i = .put w) (hr : v.running w = some r₀) (ht : r.task = r₀.task)
      (hm : r.mode = r₀.mode) (he : ∀ e ∈ r.emplaces, e ∈ r₀.emplaces)

theorem TaskStep.runOrigin {cfg : Config α} {v v' : TasksView α} {i : Label α} (h : TaskStep cfg v i v')
    {w : WorkerId} {r : Running α} (hr : v'.running w = some r) : RunOrigin cfg v i w r := by
  have hset : ∀ (u : TasksView α) w₀ r₀, u.running = v.running → (u.setRunning w₀ r₀).running w = some r →
      v.running w = some r ∨ w = w₀ ∧ r₀ = some r := by
    intro u w₀ r₀ hu hrun
    by_cases hw : w = w₀
    · subst hw
      rw [u.setRunning_self] at hrun
      exact Or.inr ⟨rfl, hrun⟩
    · rw [u.setRunning_of_ne r₀ hw, hu] at hrun
      exact Or.inl hrun
  cases h with
  | quiet => exact .same hr
  | new l x hown => exact .same hr
  | skip w₀ es q exec hidle hw₀ =>
    rcases hset v w₀ (some ⟨q, exec, isRemote cfg (v.mem q), .skip, [], false⟩) rfl hr with hold | ⟨rfl, hnew⟩
    · exact .same hold
    · cases hnew
      exact .skip es rfl hidle rfl rfl
  | start w₀ es q exec hidle hw₀ hd hexec hes =>
    rcases hset (v.setTask q _) w₀ (some (started cfg (v.mem q) q exec es)) rfl hr with hold | ⟨rfl, hnew⟩
    · exact .same hold
    · cases hnew
      exact .start es exec rfl hidle rfl
  | put w₀ r₀ dst x es hr₀ he =>
    rcases hset (v.new x) w₀ (some { r₀ with emplaces := es, blocked := false }) rfl hr with hold | ⟨rfl, hnew⟩
    · exact .same hold
    · cases hnew
      refine .put r₀ rfl hr₀ rfl rfl ?_
      intro e hmem
      rw [he]
      exact List.mem_cons_of_mem _ hmem
  | block w₀ r₀ hr₀ =>
    rcases hset v w₀ (some { r₀ with blocked := true }) rfl hr with hold | ⟨rfl, hnew⟩
    · exact .same hold
    · cases hnew
      exact .put r₀ rfl hr₀ rfl rfl (fun e hmem => hmem)
  | again w₀ out r₀ hr₀ he hout =>
    rcases hset (v.setTask r₀.task _) w₀ none rfl hr with hold | ⟨rfl, hnew⟩
    · exact .same hold
    · cases hnew
  | halt w₀ out r₀ hr₀ he hout => exact .same hr
  | done w₀ out r₀ x hr₀ he hout hm hx =>
    rcases hset (v.setTask r₀.task x) w₀ none rfl hr with hold | ⟨rfl, hnew⟩
    · exact .same hold
    · cases hnew
  | write q x hq hx => exact .same hr

theorem TaskStep.scanned {cfg : Config α} {v v' : TasksView α} {w : WorkerId} {es : List (LaneRef × Task α)}
    (h : TaskStep cfg v (.scan w es) v') {r : Running α} (hr : v'.running w = some r) :
    v.running w = none ∧ v.Idle r.task ∧ (r.mode = .skip ∧ v'.mem = v.mem ∨
      ∃ exec, r = started cfg (v.mem r.task) r.task exec es ∧
        v'.mem r.task = (execute cfg (v.mem r.task) r.task exec es).task) := by
  cases h with
  | quiet i hquiet =>
    rw [hquiet w es rfl] at hr
    cases hr
  | skip w es p exec hidle hw =>
    rw [TasksView.setRunning_self, Option.some.injEq] at hr
    subst hr
    exact ⟨hw, hidle, Or.inl ⟨rfl, rfl⟩⟩
  | start w es p exec hidle hw hd hexec hes =>
    rw [TasksView.setRunning_self, Option.some.injEq] at hr
    subst hr
    exact ⟨hw, hidle, Or.inr ⟨exec, rfl, TasksView.setTask_self ..⟩⟩

theorem TaskStep.ends {cfg : Config α} {v v' : TasksView α} {i : Label α} (h : TaskStep cfg v i v') {p : TaskPtr}
    (hp : v'.ended p) : v.ended p ∨ ∃ w out r, i = .finish w out ∧ v.running w = some r ∧ r.task = p ∧
      v'.running w = none := by
  cases h with
  | done w out r x hr he hout hm hx =>
    rcases hp with rfl | hp
    · exact Or.inr ⟨w, out, r, rfl, hr, rfl, TasksView.setRunning_self (v.setTask r.task x) w none⟩
    · exact Or.inl hp
  | _ => exact Or.inl hp

theorem Event.ne_endTask {e : Event} (h : e.isCleanup = true) (q : TaskPtr) : e ≠ .endTask q := by
  rintro rfl
  cases h

def State.running (s : State α) (w : WorkerId) : Option (Running α) := (s.workers w).cursor.bind (·.running)

namespace State

variable (s : State α)

def tasksView : TasksView α where
  mem := s.mem
  next := s.next
  running := s.running
  ended := fun p => .endTask p ∈ s.log

variable (w : WorkerId) (c : Cursor α) (p : TaskPtr) (x : Task α) (l : LaneRef)

theorem running_setCursor (cur : Option (Cursor α)) :
    (s.setCursor w cur).running = Function.update s.running w (cur.bind (·.running)) := by
  funext w'
  by_cases hw : w' = w
  · subst hw
    simp [running, setCursor]
  · simp [running, setCursor, hw]

theorem running_setGroups (g : Groups) : (s.setGroups w g).running = s.running := by
  funext w'
  by_cases hw : w' = w
  · subst hw
    simp [running, setGroups]
  · simp [running, setGroups, hw]

@[simp] theorem tasksView_setTask : (s.setTask p x).tasksView = s.tasksView.setTask p x := rfl

@[simp] theorem tasksView_setCursor (cur : Option (Cursor α)) :
    (s.setCursor w cur).tasksView = s.tasksView.setRunning w (cur.bind (·.running)) := by
  ext1
  · rfl
  · rfl
  · exact s.running_setCursor w cur
  · rfl

@[simp] theorem tasksView_setGroups (g : Groups) : (s.setGroups w g).tasksView = s.tasksView := by
  ext1
  · rfl
  · rfl
  · exact s.running_setGroups w g
  · rfl

theorem tasksView_log (t : State α) (evs : List Event) (hm : t.mem = s.mem) (hn : t.next = s.next)
    (hw : t.workers = s.workers) (hlog : t.log = evs ++ s.log) (hevs : ∀ e ∈ evs, ∀ q, e ≠ .endTask q) :
    t.tasksView = s.tasksView := by
  ext1
  · exact hm
  · exact hn
  · funext w
    simp only [tasksView, running, hw]
  · funext q
    simp only [tasksView, hlog, List.mem_append, eq_iff_iff]
    constructor
    · rintro (hq | hq)
      · exact absurd rfl (hevs _ hq q)
      · exact hq
    · exact Or.inr

theorem tasksView_emit {e : Event} (he : ∀ q, e ≠ .endTask q) : (s.emit e).tasksView = s.tasksView := by
  apply s.tasksView_log (s.emit e) [e] rfl rfl rfl rfl
  simpa using he

@[simp] theorem tasksView_emplace : (s.emplace l x).tasksView = s.tasksView.new x := by
  have hevs : ∀ e ∈ s.emplaceEvents l x, ∀ q, e ≠ .endTask q := by
    unfold emplaceEvents
    cases x.body <;> simp
  ext1
  · exact s.emplace_mem l x
  · exact s.emplace_next l x
  · funext w
    simp only [tasksView, running, emplace_workers, TasksView.new]
  · funext q
    simp only [tasksView, TasksView.new, emplace_log, List.mem_append, eq_iff_iff]
    constructor
    · rintro (hq | hq)
      · exact absurd rfl (hevs _ hq q)
      · exact hq
    · exact Or.inr

@[simp] theorem tasksView_markComplete : (s.markComplete c p).tasksView = s.tasksView := by
  apply s.tasksView_log (s.markComplete c p) [.complete p] rfl rfl rfl rfl
  simp

@[simp] theorem tasksView_cleanup : (s.cleanup c p x).tasksView = s.tasksView := by
  unfold cleanup
  dsimp only
  split_ifs
  · rw [tasksView_emit _ (by simp), tasksView_markComplete]
  · rw [tasksView_emit _ (by simp), tasksView_markComplete]
  · exact s.tasksView_markComplete c p

@[simp] theorem tasksView_popTask : (s.popTask c).1.tasksView = s.tasksView := by
  obtain ⟨evs, hlog, hevs⟩ := s.popTask_log c
  exact s.tasksView_log _ evs (s.popTask_mem c) (s.popTask_next c) (s.popTask_workers c) hlog
    (fun e he => Event.ne_endTask (hevs e he))

theorem tasksView_emit_endTask : (s.emit (.endTask p)).tasksView = s.tasksView.setEnded p := by
  ext1
  · rfl
  · rfl
  · rfl
  · funext q
    simp [tasksView, emit, TasksView.setEnded]

theorem tasksView_endTask (b : Bool) : ∃ x, (x = s.mem p ∨ x = (s.mem p).setComplete) ∧
    (s.endTask c p b).1.tasksView = (s.tasksView.setTask p x).setEnded p := by
  unfold endTask
  dsimp only
  split
  · refine ⟨s.mem p, Or.inl rfl, ?_⟩
    have hsame : s.tasksView.setTask p (s.mem p) = s.tasksView := by
      ext1
      · exact Function.update_eq_self p s.mem
      · rfl
      · rfl
      · rfl
    rw [tasksView_emit _ (by simp), tasksView_popTask, tasksView_emit_endTask, hsame]
  · refine ⟨(s.mem p).setComplete, Or.inr rfl, ?_⟩
    rw [tasksView_setTask, tasksView_popTask, tasksView_emit_endTask, popTask_mem]
    rfl

end State

variable {cfg : Config α} {s t : State α}

section Running

variable (h : ScannedFifo.Inv cfg.owner s.lanesView) (hh : s.halted = false) {w : WorkerId}
include h hh

theorem running_entry {r : Running α} (hr : s.running w = some r) : ∃ c, (s.workers w).cursor = some c ∧
    c.running = some r ∧ cfg.owner c.lane = w ∧ (s.lanes c.lane)[c.off]? = some ⟨r.task, false⟩ := by
  obtain ⟨c, hc, hcr⟩ := Option.bind_eq_some_iff.mp hr
  exact ⟨c, hc, hcr, h.owned w _ (lanesView_places hc), running_waits h hh hc hcr⟩

theorem running_known {r : Running α} (hr : s.running w = some r) :
    r.task < s.next ∧ .endTask r.task ∉ s.log := by
  obtain ⟨c, -, -, -, hp⟩ := running_entry h hh hr
  have hmem := List.mem_of_getElem? hp
  exact ⟨lt_next h hmem, not_ended h hmem⟩

theorem owner_unique {w' : WorkerId} {c : Cursor α} {r : Running α} {p : TaskPtr} (hc : cfg.owner c.lane = w)
    (hp : (s.lanes c.lane)[c.off]? = some ⟨p, false⟩) (hr : s.running w' = some r) (ht : r.task = p) :
    w' = w := by
  obtain ⟨c', -, -, ho, hp'⟩ := running_entry h hh hr
  obtain ⟨hl, -⟩ := h.entry_unique hp hp' ht.symm
  rw [← ho, ← hc, hl]

theorem running_unique {w' : WorkerId} {r r' : Running α} (hr : s.running w = some r)
    (hr' : s.running w' = some r') (ht : r'.task = r.task) : w' = w := by
  obtain ⟨c, -, -, ho, hp⟩ := running_entry h hh hr
  exact owner_unique h hh ho hp hr' ht

theorem idle_of_waiting {c : Cursor α} {p : TaskPtr} (hc : (s.workers w).cursor = some c)
    (hr : c.running = none) (hp : (s.lanes c.lane)[c.off]? = some ⟨p, false⟩) : s.tasksView.Idle p := by
  have hmem := List.mem_of_getElem? hp
  refine ⟨lt_next h hmem, ?_, not_ended h hmem⟩
  intro w' r hrun htask
  have hw := owner_unique h hh (h.owned w _ (lanesView_places hc)) hp hrun htask
  subst hw
  have hnone : s.running w' = none := by simp [State.running, hc, hr]
  rw [show s.running w' = some r from hrun] at hnone
  cases hnone

end Running

theorem attempt_tasks (p : TaskPtr) {w : WorkerId} {c : Cursor α} {exec : Instance}
    {es : List (LaneRef × Task α)} {v : TasksView α} (hv : s.tasksView = v) (hidle : v.Idle p)
    (hw : v.running w = none) (hexec : exec.id = (v.mem p).taskState)
    (hes : es.all (fun e => isOwn e.2) = true) :
    TaskStep cfg v (.scan w es) (attempt cfg s w c p exec es).tasksView := by
  subst hv
  have hcase := attempt_cases cfg s w c p exec es
  generalize attempt cfg s w c p exec es = t at hcase ⊢
  cases hcase with
  | skip g hg h =>
    rw [State.enter, State.tasksView_setCursor, State.tasksView_setGroups]
    exact .skip w es p exec hidle hw
  | run hd hc =>
    rw [State.enter, State.tasksView_setCursor, State.tasksView_setTask, State.tasksView_setGroups]
    have hlog : ({ s with log := attemptEvents cfg s w c p exec es ++ s.log } : State α).tasksView =
        s.tasksView := by
      refine s.tasksView_log _ (attemptEvents cfg s w c p exec es) rfl rfl rfl rfl ?_
      intro e he q
      rcases mem_attemptEvents cfg he with rfl | ⟨a, rfl⟩ | rfl <;> simp
    rw [hlog]
    exact .start w es p exec hidle hw hd hexec hes

theorem scan_tasks (hfatal : cfg.fatalReturns = false) (h : ScannedFifo.Inv cfg.owner s.lanesView)
    (hh : s.halted = false) {w : WorkerId} {c : Cursor α} {es : List (LaneRef × Task α)}
    (hc : (s.workers w).cursor = some c) (hr : c.running = none) (hes : es.all (fun e => isOwn e.2) = true) :
    TaskStep cfg s.tasksView (.scan w es) (scan cfg s w c es).tasksView := by
  have hw : s.tasksView.running w = none := by simp [State.tasksView, State.running, hc, hr]
  have hstay : s.tasksView.setRunning w none = s.tasksView := by
    ext1
    · rfl
    · rfl
    · exact Function.update_eq_self_iff.mpr hw.symm
    · rfl
  have hquiet : ∀ w' es', Label.scan w es = .scan w' es' → s.tasksView.running w' = none := by
    intro w' es' heq
    cases heq
    exact hw
  have hderef (p : TaskPtr) : (s.emit (.deref p)).tasksView = s.tasksView := s.tasksView_emit (by simp)
  have hcase := scan_cases cfg s w c es
  generalize scan cfg s w c es = t at hcase ⊢
  cases hcase with
  | stop =>
    rw [State.tasksView_setCursor, Option.bind_none, hstay]
    exact .quiet _ hquiet
  | passOver p hp =>
    rw [State.nextPass, State.tasksView_setCursor, State.tasksView_popTask, Option.bind_some, hstay]
    exact .quiet _ hquiet
  | fatalReturn p hp hf u hu =>
    rw [hfatal] at hf
    cases hf
  | fatal p hp hf =>
    rw [show ({ s.emit (.deref p) with halted := true } : State α).tasksView = (s.emit (.deref p)).tasksView
      from rfl, hderef]
    exact .quiet _ hquiet
  | attempt p gen hp hgen =>
    exact attempt_tasks p (hderef p) (idle_of_waiting h hh hc hr hp) hw rfl hes

theorem finish_tasks {w : WorkerId} {c : Cursor α} {r : Running α} {out : Task α}
    (hr : s.tasksView.running w = some r) (he : r.emplaces = [])
    (hout : out.body.pushInfo = (s.mem r.task).body.pushInfo) :
    TaskStep cfg s.tasksView (.finish w out) (finish cfg s w c r out).tasksView := by
  have hcase := finish_cases cfg s w c r out
  generalize finish cfg s w c r out = t at hcase ⊢
  cases hcase with
  | again hm =>
    rw [State.nextPass, State.tasksView_setCursor, State.tasksView_setTask, Option.bind_some]
    exact .again w out r hr he hout
  | fatal hm u hu hz =>
    have hview : ({ u.emit (.depthZero w r.task) with halted := true } : State α).tasksView = u.tasksView :=
      u.tasksView_emit (by simp)
    rw [hview, hu, State.tasksView_cleanup, State.tasksView_setTask]
    exact .halt w out r hr he hout
  | done hm u v hu hv =>
    have hview : v.tasksView = s.tasksView.setTask r.task (ranTask r (s.mem r.task) out) := by
      rw [hv, State.tasksView_emit _ (by simp), State.tasksView_setGroups, hu, State.tasksView_cleanup,
        State.tasksView_setTask]
    have hmem : v.mem r.task = ranTask r (s.mem r.task) out := by
      rw [show v.mem = v.tasksView.mem from rfl, hview]
      exact Function.update_self r.task _ s.mem
    obtain ⟨x, hx, hend⟩ := v.tasksView_endTask c r.task true
    rw [hmem] at hx
    have hset : ((v.endTask c r.task true).1.nextPass w (v.endTask c r.task true).2).tasksView =
        ((s.tasksView.setTask r.task x).setRunning w none).setEnded r.task := by
      rw [State.nextPass, State.tasksView_setCursor, hend, hview, Option.bind_some]
      ext1
      · exact Function.update_idem ..
      · rfl
      · rfl
      · rfl
    rw [hset]
    exact .done w out r x hr he hout hm hx

theorem step_tasks (hfatal : cfg.fatalReturns = false) {i : Label α}
    (h : ScannedFifo.Inv cfg.owner s.lanesView) (hst : step cfg s i = some t) :
    TaskStep cfg s.tasksView i t.tasksView := by
  obtain ⟨hh, htr⟩ := step_transition hst
  have hrunning : ∀ {w c}, (s.workers w).cursor = some c → s.tasksView.running w = c.running := by
    intro w c hc
    simp [State.tasksView, State.running, hc]
  cases htr with
  | emplace l x hroom hown =>
    rw [State.tasksView_emplace]
    exact .new l x hown
  | poll w l hc ho =>
    have hstay : s.tasksView.setRunning w none = s.tasksView := by
      ext1
      · rfl
      · rfl
      · exact Function.update_eq_self_iff.mpr (by simp [State.tasksView, State.running, hc])
      · rfl
    rw [State.tasksView_setCursor, Option.bind_some, hstay]
    exact .quiet _ (by simp)
  | scan w es l i off hc hes => exact scan_tasks hfatal h hh hc rfl hes
  | put w l i off p exec remote mode dst x es b hc hroom =>
    rw [State.enter, State.tasksView_setCursor, State.tasksView_emplace]
    exact .put w _ dst x es (hrunning hc) rfl
  | block w l i off p exec remote mode dst x es b hc hfull =>
    rw [State.enter, State.tasksView_setCursor]
    exact .block w _ (hrunning hc)
  | registry w op l i off r hc hr =>
    obtain ⟨states, next, heq⟩ := registryOp_eq s op
    rw [heq]
    exact .quiet _ (by simp)
  | finish w out l i off r hc hes hout => exact finish_tasks (hrunning hc) hes hout
  | write p x hp hx => exact .write p x hp hx

def State.faced (s : State α) (w : WorkerId) : Option TaskPtr :=
  (s.workers w).cursor.bind fun c => (s.lanes c.lane)[c.off]?.map (·.p)

theorem scan_running {cfg : Config α} {s t : State α} {w : WorkerId} {es : List (LaneRef × Task α)}
    {r : Running α} (hst : step cfg s (.scan w es) = some t) (hr : t.running w = some r) :
    s.faced w = some r.task ∧ t.halted = false ∧ ∃ c, t.log =
      (if r.mode = .skip then [] else attemptEvents cfg (s.emit (.deref r.task)) w c r.task r.exec es) ++
        .deref r.task :: s.log := by
  obtain ⟨hh, htr⟩ := step_transition hst
  cases htr with
  | scan w es l i off hc hes =>
    have hnone : ∀ (u : State α) (c : Cursor α), (u.nextPass w c).running w = none := by
      intro u c
      simp [State.nextPass, State.running_setCursor]
    have hcase := scan_cases cfg s w ⟨l, i, off, none⟩ es
    generalize scan cfg s w ⟨l, i, off, none⟩ es = t at hcase hr ⊢
    cases hcase with
    | stop =>
      rw [State.running_setCursor, Function.update_self] at hr
      cases hr
    | passOver p hp =>
      rw [hnone] at hr
      cases hr
    | fatalReturn p hp hf u hu =>
      rw [hnone] at hr
      cases hr
    | fatal p hp hf =>
      have hsame : ({ s.emit (.deref p) with halted := true } : State α).running w = s.running w := rfl
      rw [hsame, State.running, hc] at hr
      cases hr
    | attempt p gen hp hgen =>
      have hfaced : s.faced w = some p := by
        rw [State.faced, hc, Option.bind_some, hp]
        rfl
      have hcase := attempt_cases cfg (s.emit (.deref p)) w ⟨l, i, off, none⟩ p ⟨(s.mem p).taskState, gen⟩ es
      generalize attempt cfg (s.emit (.deref p)) w ⟨l, i, off, none⟩ p ⟨(s.mem p).taskState, gen⟩ es = t
        at hcase hr ⊢
      cases hcase with
      | skip g hg h =>
        rw [State.enter, State.running_setCursor, Function.update_self] at hr
        cases hr
        exact ⟨hfaced, hh, ⟨l, i, off, none⟩, rfl⟩
      | run hd hcheck =>
        rw [State.enter, State.running_setCursor, Function.update_self] at hr
        cases hr
        refine ⟨hfaced, hh, ⟨l, i, off, none⟩, ?_⟩
        have hmode : (execute cfg ((s.emit (.deref p)).mem p) p ⟨(s.mem p).taskState, gen⟩ es).mode ≠ .skip := by
          unfold execute
          split_ifs <;> simp
        rw [if_neg hmode]
        rfl

theorem put_enqueue {cfg : Config α} {s t : State α} {w : WorkerId} (hst : step cfg s (.put w) = some t)
    (hnext : s.next < t.next) :
    ∃ r dst x es, s.running w = some r ∧ r.emplaces = (dst, x) :: es ∧ .enqueue dst s.next ∈ t.log ∧
      t.mem s.next = x ∧ t.next = s.next + 1 := by
  obtain ⟨-, htr⟩ := step_transition hst
  cases htr with
  | put w l i off p exec remote mode dst x es b hc hroom =>
    refine ⟨_, dst, x, es, by rw [State.running, hc, Option.bind_some], rfl, ?_, ?_, s.emplace_next dst x⟩
    · show Event.enqueue dst s.next ∈ (s.emplace dst x).log
      rw [s.emplace_log dst x]
      simp [State.emplaceEvents]
    · show (s.emplace dst x).mem s.next = x
      rw [State.emplace_mem, Function.update_self]
  | block w l i off p exec remote mode dst x es b hc hfull => exact absurd hnext (Nat.lt_irrefl _)

theorem step_begin {cfg : Config α} {s t : State α} {i : Label α} (hst : step cfg s i = some t) {p : TaskPtr}
    {e : Instance} (h : .begin p e ∈ t.log) : .begin p e ∈ s.log ∨
      ∃ w es r, i = .scan w es ∧ t.running w = some r ∧ r.task = p ∧ r.mode ≠ .skip := by
  have hcleanup : ∀ {evs : List Event} {log : List Event}, (∀ e ∈ evs, e.isUse = false) →
      .begin p e ∈ evs ++ log → .begin p e ∈ log := by
    intro evs log hevs hmem
    rcases List.mem_append.mp hmem with hmem | hmem
    · cases hevs _ hmem
    · exact hmem
  have hemplace : ∀ (l : LaneRef) (x : Task α), .begin p e ∈ (s.emplace l x).log → .begin p e ∈ s.log := by
    intro l x hmem
    rw [s.emplace_log l x] at hmem
    unfold State.emplaceEvents at hmem
    cases hb : x.body <;> simpa [hb] using hmem
  obtain ⟨-, htr⟩ := step_transition hst
  cases htr with
  | emplace l x hroom hown => exact Or.inl (hemplace l x h)
  | put w l i off q exec remote mode dst x es b hc hroom => exact Or.inl (hemplace dst x h)
  | registry w op l i off r hc hr =>
    obtain ⟨states, next, heq⟩ := registryOp_eq s op
    rw [heq] at h
    exact Or.inl h
  | finish w out l i off r hc hes hout =>
    obtain ⟨evs, hlog, hevs⟩ := finish_log cfg s w ⟨l, i, off, none⟩ r out
    rw [hlog] at h
    exact Or.inl (hcleanup hevs h)
  | scan w es l i off hc hes =>
    have hcase := scan_cases cfg s w ⟨l, i, off, none⟩ es
    generalize scan cfg s w ⟨l, i, off, none⟩ es = t at hcase h ⊢
    cases hcase with
    | stop => exact Or.inl h
    | passOver q hq =>
      obtain ⟨evs, hlog, hevs⟩ := s.popTask_log ⟨l, i, off, none⟩
      change .begin p e ∈ (s.popTask ⟨l, i, off, none⟩).1.log at h
      rw [hlog] at h
      exact Or.inl (hcleanup (fun e he => Event.isUse_of_isCleanup (hevs e he)) h)
    | fatalReturn q hq hf u hu =>
      obtain ⟨evs, hlog, hevs⟩ := u.endTask_log ⟨l, i, off, none⟩ q false
      change .begin p e ∈ (u.endTask ⟨l, i, off, none⟩ q false).1.log at h
      rw [hlog, hu] at h
      have hmem := hcleanup (fun e he => Event.isUse_of_isCleanup (hevs e he)) h
      exact Or.inl (by simpa [State.markComplete, State.emit] using hmem)
    | fatal q hq hf => exact Or.inl (by simpa [State.emit] using h)
    | attempt q gen hq hgen =>
      have hcase := attempt_cases cfg (s.emit (.deref q)) w ⟨l, i, off, none⟩ q ⟨(s.mem q).taskState, gen⟩ es
      generalize attempt cfg (s.emit (.deref q)) w ⟨l, i, off, none⟩ q ⟨(s.mem q).taskState, gen⟩ es = t
        at hcase h ⊢
      cases hcase with
      | skip g hg hno => exact Or.inl (by simpa [State.enter, State.setGroups, State.setCursor, State.emit] using h)
      | run hd hcheck =>
        change .begin p e ∈ attemptEvents cfg (s.emit (.deref q)) w ⟨l, i, off, none⟩ q ⟨(s.mem q).taskState, gen⟩ es
          ++ .deref q :: s.log at h
        rcases List.mem_append.mp h with h | h
        · right
          have hqp : q = p := by
            rcases mem_attemptEvents cfg h with heq | ⟨a, heq⟩ | heq <;> cases heq
            rfl
          have hrun : ∀ (u : State α) (c : Cursor α) (r : Running α), (u.enter w c r).running w = some r := by
            intro u c r
            rw [State.enter, State.running_setCursor, Function.update_self, Option.bind_some]
          refine ⟨w, es, _, rfl, hrun _ _ _, hqp, ?_⟩
          unfold execute
          split_ifs <;> simp
        · exact Or.inl (by simpa using h)
  | _ => exact Or.inl h

theorem attemptEvents_stackAlloc (cfg : Config α) (s : State α) (w : WorkerId) (c : Cursor α) (p : TaskPtr)
    (exec : Instance) (es : List (LaneRef × Task α)) : (attemptEvents cfg s w c p exec es).count (.stackAlloc p) =
      if !isRemote cfg (s.mem p) && (s.mem p).isCoroutine && !(s.mem p).isStarted then 1 else 0 := by
  have hadmission : (admission cfg (s.workers w).groups w c.lane p exec (s.mem p)).count (.stackAlloc p) = 0 := by
    unfold admission
    split_ifs <;> simp
  rw [attemptEvents, List.count_append, List.count_append, hadmission]
  unfold execute
  cases isRemote cfg (s.mem p) <;> cases (s.mem p).isCoroutine <;> cases (s.mem p).isStarted <;>
    cases (s.mem p).isPreemptive <;> simp

section Stacks

variable (s : State α) (c : Cursor α) (p q : TaskPtr)

theorem cleanup_stackFree (x : Task α) : (s.cleanup c p x).log.count (.stackFree q) =
    s.log.count (.stackFree q) + if q = p ∧ x.isCoroutine = true then 1 else 0 := by
  have hmark : (s.markComplete c p).log.count (.stackFree q) = s.log.count (.stackFree q) :=
    List.count_cons_of_ne (by simp)
  unfold State.cleanup
  dsimp only
  by_cases hco : x.isCoroutine = true
  · rw [if_pos hco, State.emit, List.count_cons, hmark]
    by_cases hq : q = p
    · simp [hq, hco]
    · simp [hq, Ne.symm hq]
  · rw [if_neg hco, if_neg (c := q = p ∧ _) (fun h => hco h.2)]
    split_ifs
    · rw [State.emit, List.count_cons_of_ne (by simp), hmark, Nat.add_zero]
    · rw [hmark, Nat.add_zero]

theorem popTask_stackFree : (s.popTask c).1.log.count (.stackFree q) = s.log.count (.stackFree q) := by
  unfold State.popTask State.popHead
  split
  · split
    · rfl
    · simp
  · rfl

theorem endTask_stackFree (b : Bool) :
    (s.endTask c p b).1.log.count (.stackFree q) = s.log.count (.stackFree q) := by
  have hemit : (s.emit (.endTask p)).log.count (.stackFree q) = s.log.count (.stackFree q) := by
    simp [State.emit]
  unfold State.endTask
  dsimp only
  split
  · rw [State.emit, List.count_cons_of_ne (by simp), popTask_stackFree, hemit]
  · rw [State.setTask, popTask_stackFree, hemit]

end Stacks

theorem finish_ends {cfg : Config α} {s t : State α} {w : WorkerId} {out : Task α} {r : Running α}
    (hst : step cfg s (.finish w out) = some t) (hr : s.running w = some r) :
    if (ranTask r (s.mem r.task) out).isModuleComplete then
      (t.halted = true ∨ .endTask r.task ∈ t.log) ∧ ∀ q, t.log.count (.stackFree q) =
        s.log.count (.stackFree q) + if q = r.task ∧ (ranTask r (s.mem r.task) out).isCoroutine = true then 1 else 0
    else t.log = s.log := by
  obtain ⟨-, htr⟩ := step_transition hst
  cases htr with
  | finish w out l i off r₀ hc hes hout =>
    rw [State.running, hc, Option.bind_some] at hr
    cases hr
    have hcase := finish_cases cfg s w ⟨l, i, off, none⟩ r out
    generalize finish cfg s w ⟨l, i, off, none⟩ r out = t at hcase ⊢
    cases hcase with
    | again hm =>
      rw [if_neg (by simp [hm])]
      rfl
    | fatal hm u hu hz =>
      rw [if_pos hm]
      refine ⟨Or.inl rfl, ?_⟩
      intro q
      show (u.emit (.depthZero w r.task)).log.count _ = _
      rw [State.emit, List.count_cons_of_ne (by simp), hu, cleanup_stackFree]
      rfl
    | done hm u v hu hv =>
      rw [if_pos hm]
      obtain ⟨evs, hlog, -⟩ := v.endTask_log ⟨l, i, off, none⟩ r.task true
      refine ⟨Or.inr ?_, ?_⟩
      · show _ ∈ (v.endTask ⟨l, i, off, none⟩ r.task true).1.log
        rw [hlog]
        simp
      · intro q
        have hlogv : v.log = .release w r.task :: u.log := by
          rw [hv]
          rfl
        show (v.endTask ⟨l, i, off, none⟩ r.task true).1.log.count _ = _
        rw [endTask_stackFree, hlogv, List.count_cons_of_ne (by simp), hu, cleanup_stackFree]
        rfl

theorem finish_mem {cfg : Config α} {s t : State α} {w : WorkerId} {out : Task α} {r : Running α}
    (hst : step cfg s (.finish w out) = some t) (hr : s.running w = some r) :
    r.emplaces = [] ∧ (t.mem r.task = ranTask r (s.mem r.task) out ∨
      (ranTask r (s.mem r.task) out).isModuleComplete = true ∧
        t.mem r.task = (ranTask r (s.mem r.task) out).setComplete) := by
  obtain ⟨-, htr⟩ := step_transition hst
  cases htr with
  | finish w out l i off r₀ hc hes hout =>
    rw [State.running, hc, Option.bind_some] at hr
    cases hr
    refine ⟨hes, ?_⟩
    have hset (x : Task α) : (s.setTask r.task x).mem r.task = x := Function.update_self ..
    have hcase := finish_cases cfg s w ⟨l, i, off, none⟩ r out
    generalize finish cfg s w ⟨l, i, off, none⟩ r out = t at hcase ⊢
    cases hcase with
    | again hm => exact Or.inl (hset _)
    | fatal hm u hu hz =>
      left
      show u.mem r.task = _
      rw [hu, State.cleanup_mem, hset]
    | done hm u v hu hv =>
      have hmem : v.mem r.task = ranTask r (s.mem r.task) out := by
        rw [hv, hu]
        show ((s.setTask r.task _).cleanup _ r.task _).mem r.task = _
        rw [State.cleanup_mem, hset]
      obtain ⟨x, hx, hend⟩ := v.tasksView_endTask ⟨l, i, off, none⟩ r.task true
      have hlast : (v.endTask ⟨l, i, off, none⟩ r.task true).1.mem r.task = x := by
        rw [show (v.endTask ⟨l, i, off, none⟩ r.task true).1.mem =
          (v.endTask ⟨l, i, off, none⟩ r.task true).1.tasksView.mem from rfl, hend]
        exact TasksView.setTask_self ..
      rw [hmem] at hx
      show (v.endTask ⟨l, i, off, none⟩ r.task true).1.mem r.task = _ ∨ _ ∧
        (v.endTask ⟨l, i, off, none⟩ r.task true).1.mem r.task = _
      rw [hlast]
      rcases hx with hx | hx
      · exact Or.inl hx
      · exact Or.inr ⟨hm, hx⟩

end HermesRun.Poll
