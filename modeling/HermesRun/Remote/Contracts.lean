import HermesRun.Remote.Disposal
import HermesRun.Remote.Domains

namespace HermesRun.RemoteQueue

open Poll Runs

variable {α π ρ : Type}

/-- What a task meets until its handler sets it module-complete, and what it meets then, whatever its flags are. -/
structure Contract (α : Type) where
  pre : Task α → Prop
  post : Task α → Prop
  pre_flags : ∀ t f, pre t → pre { t with taskFlags := f }
  post_flags : ∀ t f, post t → post { t with taskFlags := f }

namespace Contract

variable (C : Contract α)

def Holds (t : Task α) : Prop := isOwn t = true → if t.isModuleComplete then C.post t else C.pre t

def Ready (t : Task α) : Prop := isOwn t = true → C.pre t

def KeptAt (v : TasksView α) : Poll.Label α → Prop
  | .emplace _ t => C.Ready t
  | .scan _ es => ∀ e ∈ es, C.Ready e.2
  | .finish w out => ∀ r, v.running w = some r → r.mode.runs = true → isOwn (v.mem r.task) = true →
    handlerKeeps (v.mem r.task) out = true → C.Holds (v.mem r.task) → C.Holds out
  | _ => True

def Kept (s : State α ρ) : Label α → Prop
  | .node k i => C.KeptAt (s.view k) i
  | .thread k p out => isOwn (s.mem k p) = true → handlerKeeps (s.mem k p) out = true → C.Holds (s.mem k p) →
    C.Holds out
  | _ => True

def Travels (cfg : Config α π ρ) : Prop :=
  ∀ t, isOwn t = true → C.pre t → ∀ d ∈ targetNodes cfg t, C.pre (loadTask cfg d t)

structure Met (s : State α ρ) : Prop where
  tasks : ∀ k p, p < (s.nodes k).next → (s.history k p).dispersed = 0 → C.Holds (s.mem k p)
  sent : ∀ k p x, s.xfer k p = some x → C.Holds x
  made : ∀ k w r, (s.view k).running w = some r → ∀ e ∈ r.emplaces, C.Holds e.2

variable {C}

theorem Holds.same {t u : Task α} (h : C.Holds t) (hu : u = { t with taskFlags := u.taskFlags })
    (hc : u.isModuleComplete = t.isModuleComplete) : C.Holds u := by
  intro hown
  have hown' : isOwn t = true := by rwa [hu] at hown
  have hholds := h hown'
  rw [hc, hu]
  split_ifs at hholds ⊢
  · exact C.post_flags t _ hholds
  · exact C.pre_flags t _ hholds

theorem Ready.holds {t : Task α} (h : C.Ready t) (hnew : isNew t = true) : C.Holds t := by
  simp only [isNew, Bool.and_eq_true, Bool.not_eq_true'] at hnew
  intro hown
  rw [hnew.1.2, if_neg Bool.false_ne_true]
  exact h hown

theorem holds_push {t : Task α} {i : PushInfo} (h : t.body.pushInfo = some i) : C.Holds t := by
  intro hown
  rw [isOwn, h] at hown
  cases hown

theorem Holds.execute {cfg : Poll.Config α} {t : Task α} (h : C.Holds t) (hr : isRemote cfg t = false) (p : TaskPtr)
    (exec : Instance) (es : List (LaneRef × Task α)) : C.Holds (Poll.execute cfg t p exec es).task := by
  rw [Poll.execute, if_neg (by simp [hr])]
  split_ifs
  · exact h
  · exact h.same rfl t.setStarted_isModuleComplete
  · exact h.same rfl t.disableRun_isModuleComplete
  · exact h.same rfl t.setStarted_isModuleComplete

theorem Holds.ranTask {t out : Task α} (r : Running α) (h : C.Holds t) (hout : r.mode.runs = true → C.Holds out) :
    C.Holds (Poll.ranTask r t out) := by
  rcases ranTask_cases r t out with ⟨hruns, heq⟩ | ⟨-, heq⟩ | ⟨-, heq⟩
  · rw [heq]
    exact hout hruns
  · rw [heq]
    exact h
  · rw [heq]
    exact h.same rfl (by simp [Task.setUnordered])

end Contract

section Steps

variable {cfg : Config α π ρ} {s t : State α ρ} {l : Label α}

theorem mapOwn_method (f : α → α) (t : Task α) : (mapOwn f t).method = t.method := by
  unfold mapOwn
  split <;> rfl

theorem loadTask_taskState (cfg : Config α π ρ) (d : NodeId) (z : Task α) :
    (loadTask cfg d z).taskState = z.taskState := by
  show (mapOwn _ z).taskState = z.taskState
  unfold mapOwn
  split <;> rfl

theorem loadTask_method (cfg : Config α π ρ) (d : NodeId) (z : Task α) : (loadTask cfg d z).method = z.method :=
  mapOwn_method _ z

theorem loadTask_body (cfg : Config α π ρ) (d : NodeId) {z : Task α} {a : α} (h : z.body = .own a) :
    (loadTask cfg d z).body =
      .own ((cfg.srl z.taskState).loadStart z.method ((cfg.srl z.taskState).saveStart z.method a)) := by
  rw [loadTask, mapOwn_own h]
  rfl

theorem own_of_isOwn {t : Task α} (h : isOwn t = true) : ∃ a, t.body = .own a := by
  cases hb : t.body with
  | own a => exact ⟨a, rfl⟩
  | push i => simp [isOwn, hb, Body.pushInfo] at h

theorem isOwn_of_own {t : Task α} {a : α} (h : t.body = .own a) : isOwn t = true := by
  rw [isOwn, h]
  rfl

theorem begin_xfer (s : State α ρ) (k d : NodeId) (r : Running α) (p : TaskPtr) :
    (s.history d p).dispersed ≤ ((s.begin k r).history d p).dispersed ∧ ((s.begin k r).xfer d p = s.xfer d p ∨
      d = k ∧ p = r.task ∧ r.mode = .disperse ∧ (s.begin k r).xfer d p = some (s.mem k r.task)) := by
  have hran : (s.history d p).dispersed ≤
      ((s.record k r.task fun h => { h with ran := h.ran + 1 }).history d p).dispersed := by
    rw [record_history]
    split_ifs <;> exact Nat.le_refl _
  unfold State.begin
  split
  · exact ⟨Nat.le_refl _, Or.inl rfl⟩
  · next hm =>
    refine ⟨?_, ?_⟩
    · rw [record_history]
      split_ifs
      · exact Nat.le_succ _
      · exact Nat.le_refl _
    · by_cases hdp : d = k ∧ p = r.task
      · obtain ⟨rfl, rfl⟩ := hdp
        exact Or.inr ⟨rfl, rfl, hm, update₂_self ..⟩
      · exact Or.inl (update₂_of_ne _ _ hdp)
  · dsimp only
    split
    · exact ⟨hran, Or.inl rfl⟩
    · exact ⟨hran, Or.inl rfl⟩
  · exact ⟨hran, Or.inl rfl⟩
  · exact ⟨hran, Or.inl rfl⟩

theorem nodeStep_xfer {k : NodeId} {i : Poll.Label α} (h : nodeStep cfg s k i = some t) (d : NodeId) (p : TaskPtr) :
    (s.history d p).dispersed ≤ (t.history d p).dispersed ∧ (t.xfer d p = s.xfer d p ∨
      ∃ w es r, i = .scan w es ∧ (t.view k).running w = some r ∧ r.mode = .disperse ∧ d = k ∧ p = r.task ∧
        t.xfer d p = some (s.mem k p)) := by
  unfold nodeStep at h
  split_ifs at h
  obtain ⟨u, -, rfl⟩ := Option.map_eq_some_iff.mp h
  split
  · next w es _ =>
    split
    · next r hr =>
      obtain ⟨hle, hx⟩ := begin_xfer s k d r p
      refine ⟨hle, hx.imp id ?_⟩
      rintro ⟨rfl, rfl, hm, hxfer⟩
      refine ⟨w, es, r, rfl, ?_, hm, rfl, rfl, hxfer⟩
      rw [view_setNode_self]
      exact hr
    · exact ⟨Nat.le_refl _, Or.inl rfl⟩
  · exact ⟨Nat.le_refl _, Or.inl rfl⟩

theorem write_xfer {k : NodeId} {p : TaskPtr} {x : Task α} (h : s.write cfg k p x = some t) : t.xfer = s.xfer := by
  obtain ⟨u, -, rfl⟩ := Option.map_eq_some_iff.mp h
  rfl

theorem step_xfer (h : step cfg s l = some t) (d : NodeId) (p : TaskPtr) :
    (s.history d p).dispersed ≤ (t.history d p).dispersed ∧ (t.xfer d p = s.xfer d p ∨
      ∃ w es r, l = .node d (.scan w es) ∧ (t.view d).running w = some r ∧ r.mode = .disperse ∧ p = r.task ∧
        t.xfer d p = some (s.mem d p)) := by
  have hrecord (u : State α ρ) (k : NodeId) (q : TaskPtr) (f : History → History)
      (hf : ∀ h, (f h).dispersed = h.dispersed) (hu : u.history = s.history) :
      (s.history d p).dispersed ≤ ((u.record k q f).history d p).dispersed := by
    rw [record_history, hu]
    split_ifs
    · rw [hf]
    · exact Nat.le_refl _
  have hwrite {k : NodeId} {q : TaskPtr} {x : Task α} {u : State α ρ} (hw : s.write cfg k q x = some u) :
      u.xfer d p = s.xfer d p := by rw [write_xfer hw]
  cases step_cases cfg h with
  | node k i _ hw =>
    obtain ⟨hle, hx⟩ := nodeStep_xfer hw d p
    refine ⟨hle, hx.imp id ?_⟩
    rintro ⟨w, es, r, rfl, hr, hm, rfl, hp, hx⟩
    exact ⟨w, es, r, rfl, hr, hm, hp, hx⟩
  | thread k q out _ hd hr ho hk he hw => exact ⟨by rw [write_history hw], Or.inl (hwrite hw)⟩
  | start | fatal | call | rpcFatal | rpcComplete => exact ⟨Nat.le_refl _, Or.inl rfl⟩
  | rpcExec k q x domain z u hx hp hdom hz hu =>
    refine ⟨hrecord _ k q _ ?_ ?_, Or.inl rfl⟩
    · exact fun _ => rfl
    · rfl
  | output k q x ret u hx hp hw =>
    refine ⟨hrecord _ k q _ ?_ ?_, Or.inl (hwrite (u := u) hw)⟩
    · exact fun _ => rfl
    · exact write_history (t := u) hw
  | replicateEnd k q x u hx hp hall hw =>
    refine ⟨hrecord _ k q _ ?_ ?_, Or.inl (hwrite (u := u) hw)⟩
    · exact fun _ => rfl
    · exact write_history (t := u) hw
  | completeOrig k q x u hx hp hw =>
    refine ⟨?_, Or.inl (hwrite (u := u) hw)⟩
    rw [show (State.setPush u k q _).history = u.history from rfl, write_history (t := u) hw]
  | completePush k q x u hx hp hw =>
    refine ⟨?_, Or.inl (hwrite (u := u) hw)⟩
    rw [show (State.setPush u k q _).history = u.history from rfl, write_history (t := u) hw]

end Steps

namespace Contract

variable {C : Contract α}

theorem finish_pushInfo {cfg : Poll.Config α} {v v' : TasksView α} {w : WorkerId} {out : Task α} {r : Running α}
    (hst : TaskStep cfg v (.finish w out) v') (hr : v.running w = some r) :
    v'.mem r.task = v.mem r.task ∨ out.body.pushInfo = (v.mem r.task).body.pushInfo := by
  cases hst with
  | quiet => exact Or.inl rfl
  | again w out r' hr' he hout | halt w out r' hr' he hout | done w out r' x hr' he hout hm hx =>
    rw [hr, Option.some.injEq] at hr'
    exact Or.inr (hr' ▸ hout)

theorem KeptAt.mem {cfg : Poll.Config α} {v v' : TasksView α} {i : Poll.Label α} (hk : C.KeptAt v i)
    (hst : TaskStep cfg v i v') (ha : allowed v i = true)
    (hmade : ∀ w r, v.running w = some r → ∀ e ∈ r.emplaces, C.Holds e.2) {p : TaskPtr} (hp : p < v'.next)
    (hstart : ∀ w r, v'.running w = some r → r.task = p → r.mode ≠ .disperse)
    (hold : p < v.next → C.Holds (v.mem p)) : C.Holds (v'.mem p) := by
  by_cases hlt : p < v.next
  · cases hst.move hlt with
    | same heq =>
      rw [heq]
      exact hold hlt
    | start w es exec hi hidle hr heq =>
      rw [heq]
      apply (hold hlt).execute
      cases hremote : isRemote cfg (v.mem p) with
      | false => rfl
      | true =>
        refine absurd ?_ (hstart w _ hr rfl)
        rw [started, execute_remote hremote]
    | ran w out r hi hr ht he heq =>
      subst hi ht
      have hkeeps (hruns : r.mode.runs = true) : handlerKeeps (v.mem r.task) out = true := by
        simpa [allowed, hr, hruns] using ha
      rcases finish_pushInfo hst hr with hsame | hout
      · rw [hsame]
        exact hold hlt
      have hran : C.Holds (Poll.ranTask r (v.mem r.task) out) := by
        refine (hold hlt).ranTask r ?_
        intro hruns
        by_cases hown : isOwn (v.mem r.task) = true
        · exact hk r hr hruns hown (hkeeps hruns) (hold hlt)
        · rw [isOwn, ← hout] at hown
          exact fun h => absurd h hown
      rcases heq with heq | ⟨hm, -, heq⟩
      · rw [heq]
        exact hran
      · rw [heq]
        exact hran.same rfl ((Task.setComplete_isModuleComplete _).trans hm.symm)
    | write x hi heq =>
      subst hi
      cases ha
  · obtain ⟨rfl, ⟨dst, rfl⟩ | ⟨w, r, dst, es, rfl, hr, he⟩⟩ := hst.made (Nat.le_of_not_lt hlt) hp
    · exact Ready.holds hk ha
    · exact hmade w r hr (dst, v'.mem v.next) (by rw [he]; exact List.mem_cons_self)

theorem KeptAt.made {cfg : Poll.Config α} {v v' : TasksView α} {i : Poll.Label α} (hk : C.KeptAt v i)
    (hst : TaskStep cfg v i v') (ha : allowed v i = true)
    (hmade : ∀ w r, v.running w = some r → ∀ e ∈ r.emplaces, C.Holds e.2) {w : WorkerId} {r : Running α}
    (hr : v'.running w = some r) : ∀ e ∈ r.emplaces, C.Holds e.2 := by
  intro e he
  cases hst.runOrigin hr with
  | same hold => exact hmade w r hold e he
  | skip es hi hidle hm hnone =>
    rw [hnone] at he
    cases he
  | start es exec hi hidle heq =>
    subst hi
    rw [heq, started] at he
    rcases mem_execute_emplaces cfg he with hpush | hmem
    · rw [hpush]
      exact holds_push rfl
    · exact (hk e hmem).holds (List.all_eq_true.mp ha e hmem)
  | put r₀ hi hr₀ ht hm hsub => exact hmade w r₀ hr₀ e (hsub e he)

variable {cfg : Config α π ρ} {s t : State α ρ}

theorem Met.setNode {k : NodeId} {i : Poll.Label α} (h : C.Met s) (hk : C.KeptAt (s.view k) i)
    (hst : TaskStep (cfg.at k) (s.view k) i (t.view k)) (hother : ∀ d, d ≠ k → t.nodes d = s.nodes d)
    (ha : allowed (s.view k) i = true) (hmono : ∀ d p, (s.history d p).dispersed ≤ (t.history d p).dispersed)
    (hstart : ∀ w r, (t.view k).running w = some r → r.mode = .disperse → 0 < (t.history k r.task).dispersed)
    (hxfer : ∀ d p x, t.xfer d p = some x → C.Holds x) : C.Met t := by
  have hzero {d : NodeId} {p : TaskPtr} (hd : (t.history d p).dispersed = 0) : (s.history d p).dispersed = 0 :=
    Nat.le_zero.mp (hd ▸ hmono d p)
  refine ⟨?_, hxfer, ?_⟩
  · intro d p hp hd
    by_cases hdk : d = k
    · subst hdk
      refine hk.mem hst ha (h.made d) hp ?_ (fun hlt => h.tasks d p hlt (hzero hd))
      rintro w r hr rfl hm
      have hpos := hstart w r hr hm
      omega
    · rw [State.mem, hother d hdk]
      exact h.tasks d p (by rwa [← hother d hdk]) (hzero hd)
  · intro d w r hr
    by_cases hdk : d = k
    · subst hdk
      exact hk.made hst ha (h.made d) hr
    · rw [State.view, hother d hdk] at hr
      exact h.made d w r hr

theorem Met.write {k : NodeId} {p : TaskPtr} {x : Task α} (h : C.Met s) (hw : s.write cfg k p x = some t)
    (hx : (s.history k p).dispersed = 0 → C.Holds x) : C.Met t := by
  obtain ⟨-, -, rfl⟩ := write_spec hw
  have hview (d : NodeId) : ((s.setNode k ((s.nodes k).setTask p x)).nodes d).next = (s.nodes d).next ∧
      ((s.setNode k ((s.nodes k).setTask p x)).view d).running = (s.view d).running := by
    by_cases hd : d = k
    · subst hd
      rw [State.view, nodes_setNode_self]
      exact ⟨rfl, rfl⟩
    · rw [State.view, nodes_setNode_of_ne _ hd]
      exact ⟨rfl, rfl⟩
  refine ⟨?_, h.sent, ?_⟩
  · intro d q hq hzero
    rw [(hview d).1] at hq
    rcases write_mem (d := d) (q := q) hw with heq | ⟨rfl, rfl⟩
    · rw [heq]
      exact h.tasks d q hq hzero
    · rw [write_self hw]
      exact hx hzero
  · intro d w r hr
    rw [(hview d).2] at hr
    exact h.made d w r hr

theorem Met.record {k : NodeId} {p : TaskPtr} {x : Push ρ} {f : History → History} (h : C.Met s) (k' : NodeId)
    (p' : TaskPtr) (hf : ∀ h, (f h).dispersed = h.dispersed) : C.Met ((s.setPush k p x).record k' p' f) := by
  refine ⟨?_, h.sent, h.made⟩
  intro d q hq hzero
  apply h.tasks d q hq
  rw [record_history] at hzero
  split_ifs at hzero
  · rwa [hf] at hzero
  · exact hzero

theorem Met.unexecuted {k : NodeId} {p : TaskPtr} {x : Push ρ} {z : Task α} (h : C.Met s) (hinv : Inv cfg s)
    (hok : PushOk cfg s k p x) (hz : s.xfer k p = some z) : isOwn z = true ∧ C.pre z := by
  obtain ⟨z', hz', -, -, hown, -, hmod, -⟩ := (hok.sent hinv).saved
  rw [hz, Option.some.injEq] at hz'
  subst hz'
  have hholds := h.sent k p z hz hown
  rw [hmod, if_neg Bool.false_ne_true] at hholds
  exact ⟨hown, hholds⟩

theorem Met.loadTask {k : NodeId} {p : TaskPtr} {x : Push ρ} {z : Task α} (h : C.Met s) (htravels : C.Travels cfg)
    (hinv : Inv cfg s) (hok : PushOk cfg s k p x) (hz : s.xfer k p = some z) {domain : DomainId}
    (hdom : x.info.domainIds[x.replica]? = some domain) : C.Ready (RemoteQueue.loadTask cfg domain.id z) := by
  obtain ⟨hown, hpre⟩ := h.unexecuted hinv hok hz
  obtain ⟨z', hz', -, -, -, hids⟩ := hok.saved hinv
  rw [hz, Option.some.injEq] at hz'
  subst hz'
  have hmem : domain.id ∈ targetNodes cfg z := by
    rw [targetNodes, ← hids]
    exact List.mem_map_of_mem (List.mem_of_getElem? hdom)
  exact fun _ => htravels z hown hpre domain.id hmem

theorem Met.halt (h : C.Met s) (d : NodeId) : C.Met (s.halt d) := by
  refine ⟨?_, h.sent, ?_⟩
  · intro k p hp hzero
    have hview := view_halt s d k
    have hmem : (s.halt d).mem k p = s.mem k p := congrFun (congrArg TasksView.mem hview) p
    have hnext : ((s.halt d).nodes k).next = (s.nodes k).next := congrArg TasksView.next hview
    rw [hmem]
    exact h.tasks k p (hnext ▸ hp) hzero
  · intro k w r hr
    rw [view_halt] at hr
    exact h.made k w r hr

theorem Met.nodeStep {k : NodeId} {i : Poll.Label α} (h : C.Met s) (hinv : Inv cfg s) (hinv' : Inv cfg t)
    (hk : C.KeptAt (s.view k) i) (hw : RemoteQueue.nodeStep cfg s k i = some t) : C.Met t := by
  obtain ⟨u, ha, hu, hnodes⟩ := nodeStep_nodes hw
  have hself : t.nodes k = u := by rw [hnodes, nodes_setNode_self]
  have htasks : TaskStep (cfg.at k) (s.view k) i (t.view k) := by
    rw [State.view, State.view, hself]
    exact step_tasks rfl (hinv.lanes k) hu
  refine h.setNode hk htasks ?_ ha (fun d p => (nodeStep_xfer hw d p).1) (hinv'.running k) ?_
  · intro d hd
    rw [hnodes, nodes_setNode_of_ne _ hd]
  · intro d p x hx
    rcases (nodeStep_xfer hw d p).2 with heq | ⟨w, es, r, rfl, hr, hm, rfl, rfl, heq⟩
    · exact h.sent d p x (heq ▸ hx)
    · -- the worker has only now come to the task
      rw [heq, Option.some.injEq] at hx
      subst hx
      rcases step_running htasks with hrun | ⟨w', es', p, exec, hi, hidle, hfree, hen, hexec, -, hview⟩
      · rcases hrun w r hr with hskip | ⟨r₀, hr₀, -⟩
        · rw [hm] at hskip
          cases hskip
        · rw [scan_free htasks] at hr₀
          cases hr₀
      · cases hi
        have hstarts : Starts cfg s t d w p exec es := ⟨hidle, hen, hexec, hfree, hview⟩
        rcases hstarts.running hr with rfl | hr₀
        · exact h.tasks d p hidle.known (hstarts.not_dispersed hinv).2.1
        · rw [scan_free htasks] at hr₀
          cases hr₀

theorem Met.step {l : Label α} (h : C.Met s) (hinv : Inv cfg s) (htravels : C.Travels cfg) (hk : C.Kept s l)
    (hst : RemoteQueue.step cfg s l = some t) : C.Met t := by
  have hinv' := step_inv hinv hst
  have hmono (d : NodeId) (p : TaskPtr) := (step_xfer hst d p).1
  -- what a push writes to is a task that has been dispersed, or the push task
  have horig {k : NodeId} {p : TaskPtr} {x : Push ρ} {β : Prop} (hx : s.pushes k p = some x)
      (hzero : (s.history k p).dispersed = 0) : β := by
    have hsent := ((hinv.task k p).push x hx).sent hinv
    rw [hsent.once] at hzero
    cases hzero
  cases step_cases cfg hst with
  | node k i _ hw => exact h.nodeStep hinv hinv' hk hw
  | thread k p out _ hd hr ho hke he hw =>
    refine h.write hw ?_
    intro hzero
    exact hk ho hke (h.tasks k p (write_spec hw).1 hzero)
  | start k p x hx hp hh => exact ⟨h.tasks, h.sent, h.made⟩
  | fatal k p x hx hp hh => exact h.halt k
  | call k p x hx hp hj hh => exact ⟨h.tasks, h.sent, h.made⟩
  | rpcFatal k p x domain hx hp hdom hnone => exact h.halt domain.id
  | rpcExec k p x domain z u hx hp hdom hz hu =>
    have hok := (hinv.task k p).push x hx
    have hcopy : C.KeptAt (s.view domain.id) (.emplace ((cfg.at domain.id).laneFor x.info.exec.id
        (RemoteQueue.loadTask cfg domain.id z).prio (RemoteQueue.loadTask cfg domain.id z).laneHash)
        (RemoteQueue.loadTask cfg domain.id z)) := h.loadTask htravels hinv hok hz hdom
    have htasks := step_tasks rfl (hinv.lanes domain.id) hu
    rw [← view_setNode_self (s := s) (k := domain.id) u] at htasks
    exact h.setNode hcopy htasks (fun d hd => nodes_setNode_of_ne u hd) (hok.copy_isNew hinv hz domain.id).1 hmono
      (hinv'.running domain.id) h.sent
  | rpcComplete k p x domain copy ret hx hp hdom hc hh hret => exact ⟨h.tasks, h.sent, h.made⟩
  | output k p x ret u hx hp hw =>
    have hmet := h.write (t := u) hw (fun hzero => horig hx hzero)
    refine hmet.record k p ?_
    exact fun _ => rfl
  | replicateEnd k p x u hx hp hall hw =>
    have hmet := h.write (t := u) hw (fun hzero => horig hx hzero)
    refine hmet.record k p ?_
    exact fun _ => rfl
  | completeOrig k p x u hx hp hw =>
    have hmet := h.write (t := u) hw (fun hzero => horig hx hzero)
    exact ⟨hmet.tasks, hmet.sent, hmet.made⟩
  | completePush k p x u hx hp hw =>
    have hpush := ((hinv.task k p).push x hx).info
    have hmet := h.write (t := u) hw (fun _ => holds_push hpush)
    exact ⟨hmet.tasks, hmet.sent, hmet.made⟩

theorem met_boot (mem : NodeId → TaskPtr → Task α) (registered : NodeId → TaskStateId → Bool) :
    C.Met (boot mem registered : State α ρ) := by
  refine ⟨?_, ?_, ?_⟩
  · intro k p hp
    cases hp
  · intro k p x hx
    cases hx
  · intro k w r hr
    cases hr

/-- Whatever node a task is executed on, its handler finds what the precondition says and leaves what the
postcondition says. -/
theorem holds_of_run (cfg : Config α π ρ) (mem : NodeId → TaskPtr → Task α) (registered : NodeId → TaskStateId → Bool)
    {labels : List (Label α)} {s : State α ρ} (htravels : C.Travels cfg)
    (hrun : run (RemoteQueue.step cfg) (boot mem registered) labels = some s)
    (hk : Along (RemoteQueue.step cfg) (fun s l _ => C.Kept s l) (boot mem registered) labels) {k : NodeId}
    {p : TaskPtr} (hp : p < (s.nodes k).next) (hr : isRemote (cfg.at k) (s.mem k p) = false) :
    C.Holds (s.mem k p) := by
  have hboth : Inv cfg s ∧ C.Met s := by
    refine run_invariant (I := fun s => Inv cfg s ∧ C.Met s) ?_ ⟨boot_inv cfg mem registered, met_boot ..⟩ hk hrun
    rintro s l t ⟨hinv, hmet⟩ hst hkept
    exact ⟨step_inv hinv hst, hmet.step hinv htravels hkept hst⟩
  obtain ⟨hinv, hmet⟩ := hboth
  apply hmet.tasks k p hp
  by_contra hne
  have hremote := ((hinv.task k p).sent (Nat.pos_of_ne_zero hne)).remote
  rw [hr] at hremote
  cases hremote

end Contract

section Methods

def KeepsMethod (states : TaskStateId → Bool) (s : State α ρ) : Label α → Prop
  | .node k (.finish w out) => ∀ r, (s.view k).running w = some r → r.mode.runs = true →
    states (s.mem k r.task).taskState = true → out.method = (s.mem k r.task).method
  | .thread k p out => states (s.mem k p).taskState = true → out.method = (s.mem k p).method
  | _ => True

theorem execute_method (cfg : Poll.Config α) (t : Task α) (p : TaskPtr) (exec : Instance)
    (es : List (LaneRef × Task α)) : (execute cfg t p exec es).task.method = t.method := by
  unfold execute replicateStart
  split_ifs
  · cases t.body <;> rfl
  all_goals rfl

theorem ranTask_method {r : Running α} {t out : Task α} (h : r.mode.runs = true → out.method = t.method) :
    (ranTask r t out).method = t.method := by
  rcases ranTask_cases r t out with ⟨hruns, heq⟩ | ⟨-, heq⟩ | ⟨-, heq⟩
  · rw [heq, h hruns]
  · rw [heq]
  · rw [heq]
    rfl

variable {cfg : Config α π ρ} {s t : State α ρ} {l : Label α} {states : TaskStateId → Bool}

theorem step_method (hinv : Inv cfg s) (hst : step cfg s l = some t) (hk : KeepsMethod states s l) {d : NodeId}
    {c : TaskPtr} (hc : c < (s.nodes d).next) (hstate : states (s.mem d c).taskState = true) :
    (t.mem d c).method = (s.mem d c).method := by
  have hnode {k : NodeId} {i : Poll.Label α} {u : Poll.State α} (hu : Poll.step (cfg.at k) (s.nodes k) i = some u)
      (ha : allowed (s.view k) i = true) (hi : ∀ w out r, i = .finish w out → (s.view k).running w = some r →
        d = k → r.task = c → r.mode.runs = true → out.method = (s.mem d c).method) :
      (((s.setNode k u).nodes d).mem c).method = (s.mem d c).method := by
    by_cases hd : d = k
    · subst hd
      rw [nodes_setNode_self]
      cases (step_tasks rfl (hinv.lanes d) hu).move (p := c) hc with
      | same heq => exact congrArg Task.method heq
      | start w es exec hi hidle hr heq =>
        refine (congrArg Task.method heq).trans ?_
        exact execute_method ..
      | ran w out r hfin hr ht he heq =>
        subst ht
        have hran := ranTask_method (r := r) (hi w out r hfin hr rfl rfl)
        rcases heq with heq | ⟨-, -, heq⟩
        · exact (congrArg Task.method heq).trans hran
        · exact (congrArg Task.method heq).trans hran
      | write x hi heq =>
        subst hi
        cases ha
    · rw [nodes_setNode_of_ne _ hd]
      rfl
  have hwrite {k : NodeId} {p : TaskPtr} {x : Task α} {u : State α ρ} (hw : s.write cfg k p x = some u)
      (hx : d = k → c = p → x.method = (s.mem k p).method) : (u.mem d c).method = (s.mem d c).method := by
    rcases write_mem (d := d) (q := c) hw with heq | ⟨rfl, rfl⟩
    · rw [heq]
    · rw [write_self hw]
      exact hx rfl rfl
  have hhalt (k : NodeId) : ((s.halt k).mem d c).method = (s.mem d c).method :=
    congrArg (fun v : TasksView α => (v.mem c).method) (view_halt s k d)
  cases step_cases cfg hst with
  | node k i _ hw =>
    obtain ⟨u, ha, hu, hnodes⟩ := nodeStep_nodes hw
    rw [State.mem, hnodes]
    refine hnode hu ha ?_
    rintro w out r rfl hr rfl rfl hruns
    exact hk r hr hruns hstate
  | thread k p out _ hd hr ho hke he hw =>
    refine hwrite hw ?_
    rintro rfl rfl
    exact hk hstate
  | start k p x hx hp hh => rfl
  | fatal k p x hx hp hh => exact hhalt k
  | call k p x hx hp hj hh => rfl
  | rpcFatal k p x domain hx hp hdom hnone => exact hhalt domain.id
  | rpcExec k p x domain z u hx hp hdom hz hu =>
    refine hnode hu (((hinv.task k p).push x hx).copy_isNew hinv hz domain.id).1 ?_
    intro w out r hi
    cases hi
  | rpcComplete k p x domain copy ret hx hp hdom hc hh hret => rfl
  | output k p x ret u hx hp hw => exact hwrite (u := u) hw (fun _ _ => mapOwn_method ..)
  | replicateEnd k p x u hx hp hall hw => exact hwrite (u := u) hw (fun _ _ => mapOwn_method ..)
  | completeOrig k p x u hx hp hw => exact hwrite (u := u) hw (fun _ _ => rfl)
  | completePush k p x u hx hp hw => exact hwrite (u := u) hw (fun _ _ => rfl)

def Lineage (states : TaskStateId → Bool) (s : State α ρ) : Prop :=
  ∀ k p d c, (d, c) ∈ (s.history k p).copies → (s.mem d c).taskState = (s.mem k p).taskState ∧
    (states (s.mem k p).taskState = true → (s.mem d c).method = (s.mem k p).method)

theorem Lineage.step (h : Lineage states s) (hinv : Inv cfg s) (hst : RemoteQueue.step cfg s l = some t)
    (hk : KeepsMethod states s l) : Lineage states t := by
  intro k p d c hmem
  have hkept {d : NodeId} {c : TaskPtr} (hc : c < (s.nodes d).next) : (t.mem d c).taskState = (s.mem d c).taskState :=
    ((step_move hinv hst d).kept hinv hc).taskState
  have hknown {d : NodeId} {c : TaskPtr} (hmem : (d, c) ∈ (s.history k p).copies) : p < (s.nodes k).next := by
    cases hx : s.pushes k p with
    | none =>
      rw [((hinv.task k p).idle hx).1] at hmem
      cases hmem
    | some x => exact (((hinv.task k p).push x hx).sent hinv).known
  have hold {d : NodeId} {c : TaskPtr} (hmem : (d, c) ∈ (s.history k p).copies) :
      (t.mem d c).taskState = (t.mem k p).taskState ∧
        (states (t.mem k p).taskState = true → (t.mem d c).method = (t.mem k p).method) := by
    obtain ⟨hstate, hmethod⟩ := h k p d c hmem
    have hp := hknown hmem
    have hc := ((hinv.task k p).copies d c hmem).1
    rw [hkept hp, hkept hc]
    refine ⟨hstate, ?_⟩
    intro hK
    rw [step_method hinv hst hk hp hK, step_method hinv hst hk hc (hstate ▸ hK)]
    exact hmethod hK
  rcases step_copies hst k p with heq | ⟨d', z, rfl, hz, hcopy, -, heq⟩
  · exact hold (heq ▸ hmem)
  · rw [heq] at hmem
    rcases List.mem_append.mp hmem with hmem | hmem
    · exact hold hmem
    · cases List.mem_singleton.mp hmem
      have hsent : Sent cfg s k p := by
        cases step_cases cfg hst with
        | rpcFatal k p x domain hx => exact ((hinv.task k p).push x hx).sent hinv
        | rpcExec k p x domain z u hx => exact ((hinv.task k p).push x hx).sent hinv
      obtain ⟨z', hz', hsame, hmethod, -⟩ := hsent.saved
      rw [hz, Option.some.injEq] at hz'
      subst hz'
      rw [hcopy, loadTask_taskState, loadTask_method, hkept hsent.known]
      refine ⟨hsame.taskState.symm, ?_⟩
      intro hK
      rw [step_method hinv hst hk hsent.known hK, hmethod]

theorem lineage_of_run (cfg : Config α π ρ) (mem : NodeId → TaskPtr → Task α)
    (registered : NodeId → TaskStateId → Bool) {labels : List (Label α)} {s : State α ρ}
    (hrun : run (RemoteQueue.step cfg) (boot mem registered) labels = some s)
    (hk : Along (RemoteQueue.step cfg) (fun s l _ => KeepsMethod states s l) (boot mem registered) labels) :
    Lineage states s := by
  have hboth : Inv cfg s ∧ Lineage states s := by
    refine run_invariant (I := fun s => Inv cfg s ∧ Lineage states s) ?_ ⟨boot_inv cfg mem registered, ?_⟩ hk hrun
    · rintro s l t ⟨hinv, h⟩ hst hkept
      exact ⟨step_inv hinv hst, h.step hinv hst hkept⟩
    · intro k p d c hmem
      cases hmem
  exact hboth.2

end Methods

end HermesRun.RemoteQueue
