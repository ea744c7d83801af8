import HermesRun.Admin.Schedulers

namespace HermesRun.AdminServer

open Poll Runs
open Admin (CreateTaskStateTask)
open RemoteQueue (execute_isComplete)

variable {β : Type}

structure Like (c c' : Scheduler β) : Prop where
  kind : c'.kind = c.kind
  request : c'.request = c.request
  taskState : c'.task.taskState = c.task.taskState
  complete : c'.task.isComplete = c.task.isComplete
  shm : c'.shm = c.shm

structure Steady (s u : State β) : Prop where
  back : ∀ (j : ℕ) c', u.schedulers[j]? = some c' → ∃ c, s.schedulers[j]? = some c ∧ Like c c'
  forth : ∀ (j : ℕ) c, s.schedulers[j]? = some c → ∃ c', u.schedulers[j]? = some c' ∧ Like c c'
  sched : u.sched = s.sched
  position : ∀ p j, u.position p = .installing j ↔ s.position p = .installing j

section Calls

variable {s u v : State β} {p : TaskPtr}

theorem Like.refl (c : Scheduler β) : Like c c := ⟨rfl, rfl, rfl, rfl, rfl⟩

theorem Like.trans {c c' c'' : Scheduler β} (h : Like c c') (h' : Like c' c'') : Like c c'' :=
  ⟨h'.kind.trans h.kind, h'.request.trans h.request, h'.taskState.trans h.taskState, h'.complete.trans h.complete,
    h'.shm.trans h.shm⟩

theorem Steady.of_eq (h : u.schedulers = s.schedulers) (hs : u.sched = s.sched)
    (hp : ∀ p j, u.position p = .installing j ↔ s.position p = .installing j) : Steady s u := by
  refine ⟨?_, ?_, hs, hp⟩
  · rw [h]
    exact fun _ c hc => ⟨c, hc, Like.refl c⟩
  · rw [h]
    exact fun _ c hc => ⟨c, hc, Like.refl c⟩

theorem Steady.refl (s : State β) : Steady s s := .of_eq rfl rfl (fun _ _ => Iff.rfl)

theorem Steady.trans (h : Steady s u) (h' : Steady u v) : Steady s v := by
  refine ⟨?_, ?_, h'.sched.trans h.sched, fun p j => (h'.position p j).trans (h.position p j)⟩
  · intro j c'' hc''
    obtain ⟨c', hc', hl'⟩ := h'.back j c'' hc''
    obtain ⟨c, hc, hl⟩ := h.back j c' hc'
    exact ⟨c, hc, hl.trans hl'⟩
  · intro j c hc
    obtain ⟨c', hc', hl⟩ := h.forth j c hc
    obtain ⟨c'', hc'', hl'⟩ := h'.forth j c' hc'
    exact ⟨c'', hc'', hl.trans hl'⟩

theorem setPosition_steady {x : Position} (hold : ∀ j, s.position p ≠ .installing j) (hx : ∀ j, x ≠ .installing j)
    (n : Admin.Node) : Steady s { s.setPosition p x with admin := n } := by
  refine .of_eq rfl rfl ?_
  intro q j
  show Function.update s.position p x q = _ ↔ _
  by_cases hq : q = p
  · subst hq
    rw [Function.update_self]
    exact iff_of_false (hx j) (hold j)
  · rw [Function.update_of_ne hq]

theorem createTaskStateEnd_steady {cfg : Config β} (hold : ∀ j, s.position p ≠ .installing j)
    (x : CreateTaskStateTask) : Steady s (s.createTaskStateEnd cfg p x) := by
  unfold State.createTaskStateEnd
  split_ifs
  · exact setPosition_steady hold (by simp) s.admin
  · exact setPosition_steady hold (by simp) _

theorem jump_steady {cfg : Config β} (x : CreateTaskStateTask) : Steady s (s.jump cfg p x) := by
  unfold State.jump
  split
  · next hp =>
    have hold : ∀ j, s.position p ≠ .installing j := by simp [hp]
    unfold State.createTaskState
    split
    · exact setPosition_steady hold (by simp) s.admin
    · split_ifs
      · exact setPosition_steady hold (by simp) _
      · exact createTaskStateEnd_steady hold x
  · next q hp =>
    have hold : ∀ j, s.position p ≠ .installing j := by simp [hp]
    split_ifs
    · split
      · exact createTaskStateEnd_steady hold _
      · exact Steady.refl s
    · exact Steady.refl s
  · exact Steady.of_eq rfl rfl (fun _ _ => Iff.rfl)
  · exact Steady.refl s

theorem setModuleComplete_steady (s : State β) (i : ℕ) : Steady s (s.setModuleComplete i) := by
  unfold State.setModuleComplete
  split
  · exact .of_eq rfl rfl (fun _ _ => Iff.rfl)
  · next x _ hx =>
    have hlike : Like x { x with task := x.task.setModuleComplete } := ⟨rfl, rfl, rfl, by simp, rfl⟩
    refine ⟨?_, ?_, rfl, fun _ _ => Iff.rfl⟩
    · intro j c' hc'
      rw [List.getElem?_set] at hc'
      split_ifs at hc' with hij
      · subst hij
        cases hc'
        exact ⟨x, hx, hlike⟩
      · exact ⟨c', hc', Like.refl c'⟩
    · intro j c hc
      rw [List.getElem?_set]
      split_ifs with hij hlt
      · subst hij
        rw [hx, Option.some.injEq] at hc
        subst hc
        exact ⟨_, rfl, hlike⟩
      · subst hij
        exact absurd (List.getElem?_eq_some_iff.mp hx).1 hlt
      · exact ⟨c, hc, Like.refl c⟩
  · exact Steady.refl s

theorem returns_steady (s : State β) (p : TaskPtr) : Steady s (returns s p) := by
  unfold returns
  split
  · next ret hp =>
    have hold : ∀ j, s.position p ≠ .installing j := by simp [hp]
    exact (setPosition_steady hold (by simp) s.admin).trans (.of_eq rfl rfl (fun _ _ => Iff.rfl))
  · exact Steady.refl s

theorem call_setWorkOrchPolicy {cfg : Config β} {k : Sched} {policyId : TaskStateId}
    (h : role (s.node.mem p) = .setWorkOrchPolicy k policyId) : call cfg s p = s.setWorkOrchPolicy k p policyId := by
  unfold call
  cases hb : (s.node.mem p).body with
  | push x =>
    rw [role, hb] at h
    cases h
  | own a =>
    rw [role, hb] at h
    cases a <;> cases h
    cases k <;> rfl

theorem call_steady {cfg : Config β} (h : ∀ k policyId, role (s.node.mem p) ≠ .setWorkOrchPolicy k policyId) :
    Steady s (call cfg s p) := by
  unfold call
  split
  · exact jump_steady _
  · next policyId hb => exact absurd (by rw [role, hb]; rfl) (h .queueSched policyId)
  · next policyId hb => exact absurd (by rw [role, hb]; rfl) (h .procSched policyId)
  · exact Steady.refl s

def State.install (s : State β) (k : Sched) (p : TaskPtr) (policyId : TaskStateId) : State β :=
  { s with
    admin := s.admin.getQueue QueueManager.adminQueue
    schedulers := s.schedulers ++ [⟨k, p, scheduleTask (s.node.mem p).taskNode policyId, none⟩]
    sched := Function.update s.sched k (some s.schedulers.length)
    position := Function.update s.position p (.installing s.schedulers.length) }

theorem setWorkOrchPolicy_cases (s : State β) (k : Sched) (p : TaskPtr) (policyId : TaskStateId) :
    ∃ v, Steady s v ∧ NodeAfter s v.node ∧ if v.isBusy k then s.setWorkOrchPolicy k p policyId = v
      else s.setWorkOrchPolicy k p policyId = v.install k p policyId := by
  cases hk : s.sched k with
  | none =>
    refine ⟨s, Steady.refl s, .same, ?_⟩
    simp only [State.setWorkOrchPolicy, hk]
    split_ifs
    · rfl
    · rfl
  | some j =>
    refine ⟨s.setModuleComplete j, setModuleComplete_steady s j, (setModuleComplete_frame s p j).node, ?_⟩
    simp only [State.setWorkOrchPolicy, hk]
    split_ifs
    · rfl
    · rfl

end Calls

section Cases

variable {cfg : Config β} {s : State β} {i : Poll.Label (Own β)} {t : Poll.State (Own β)} {u : State β}

theorem Steady.kept (h : Steady s u) (hnode : NodeAfter { s with node := t } u.node)
    (hput : ∀ w r c, i = .put w → s.node.running w = some r → c ∈ s.schedulers → r.task = c.request →
      r.mode.runs = true → t.next = s.node.next) : Kept s i t u := by
  have hgrown : ∀ {c c'}, c ∈ s.schedulers → Like c c' → Grown s i t c c' := by
    intro c c' hc hl
    refine ⟨hl.kind, hl.request, hl.taskState, hl.complete, Or.inl ⟨hl.shm, ?_⟩⟩
    intro w r hi hr ht hruns
    exact hput w r c hi hr hc ht hruns
  refine ⟨hnode, ?_, ?_, h.sched, h.position⟩
  · intro j c' hc'
    obtain ⟨c, hc, hl⟩ := h.back j c' hc'
    exact ⟨c, hc, hgrown (List.mem_of_getElem? hc) hl⟩
  · intro j c hc
    obtain ⟨c', hc', hl⟩ := h.forth j c hc
    exact ⟨c', hc', hgrown (List.mem_of_getElem? hc) hl⟩

inductive TrackCase (s : State β) (i : Poll.Label (Own β)) (t : Poll.State (Own β)) (u : State β) : Prop
  | kept (h : Kept s i t u) (hbusy : ∀ w es r k policyId, i = .scan w es → t.running w = some r →
      r.mode.runs = true → role (t.mem r.task) = .setWorkOrchPolicy k policyId → u.isBusy k = true)
  | install (w : WorkerId) (es : List (LaneRef × Task (Own β))) (r : Running (Own β)) (k : Sched)
      (policyId : TaskStateId) (v : State β) (hi : i = .scan w es) (hr : t.running w = some r)
      (hruns : r.mode.runs = true) (hrole : role (t.mem r.task) = .setWorkOrchPolicy k policyId) (hv : Kept s i t v)
      (hbusy : v.isBusy k = false) (hu : u = v.install k r.task policyId)

theorem track_scan_case (cfg : Config β) (s : State β) (w : WorkerId) (es : List (LaneRef × Task (Own β)))
    (t : Poll.State (Own β)) : TrackCase s (.scan w es) t (track cfg s (.scan w es) t) := by
  have hnode : Steady s { s with node := t } := .of_eq rfl rfl (fun _ _ => Iff.rfl)
  have hput : ∀ w' r (c : Scheduler β), (.scan w es : Poll.Label (Own β)) = .put w' → s.node.running w' = some r →
      c ∈ s.schedulers → r.task = c.request → r.mode.runs = true → t.next = s.node.next := by
    intro w' r c hi
    cases hi
  cases hrun : t.running w with
  | none =>
    have heq : track cfg s (.scan w es) t = { s with node := t } := by simp only [track, hrun]
    rw [heq]
    refine .kept (hnode.kept .same hput) ?_
    intro w' es' r k policyId hi hr
    cases hi
    rw [hrun] at hr
    cases hr
  | some r =>
    have hframe : TrackFrame s t (track cfg s (.scan w es) t) r.task := track_scan_frame hrun
    have hone : ∀ {w' es' r'}, (.scan w es : Poll.Label (Own β)) = .scan w' es' → t.running w' = some r' → r' = r := by
      intro w' es' r' hi hr
      cases hi
      rw [hrun, Option.some.injEq] at hr
      exact hr.symm
    simp only [track, hrun] at hframe ⊢
    generalize hv : ({ s with node := t } : State β).record r.task (jumpEvents s.node t r) = v at hframe ⊢
    have hrecord : Steady s v := by
      rw [← hv]
      exact .of_eq rfl rfl (fun _ _ => Iff.rfl)
    have hmem : v.node = t := by
      rw [← hv]
      rfl
    split_ifs at hframe ⊢ with hruns
    · by_cases hrole : ∃ k policyId, role (t.mem r.task) = .setWorkOrchPolicy k policyId
      · obtain ⟨k, policyId, hrole⟩ := hrole
        have hcall : call cfg v r.task = v.setWorkOrchPolicy k r.task policyId :=
          call_setWorkOrchPolicy (by rw [hmem]; exact hrole)
        obtain ⟨v', hsteady, hafter, hcase⟩ := setWorkOrchPolicy_cases v k r.task policyId
        rw [← hcall] at hcase
        have hkept : NodeAfter { s with node := t } v'.node → Kept s (.scan w es) t v' :=
          fun hnode => (hrecord.trans hsteady).kept hnode hput
        split_ifs at hcase with hbusy
        · rw [hcase] at hframe ⊢
          refine .kept (hkept hframe.node) ?_
          intro w' es' r' k' policyId' hi hr _ hr'
          rw [hone hi hr, hrole] at hr'
          cases hr'
          exact hbusy
        · rw [hcase] at hframe ⊢
          exact .install w es r k policyId v' rfl hrun hruns hrole (hkept hframe.node) (by simpa using hbusy) rfl
      · refine .kept ((hrecord.trans (call_steady ?_)).kept hframe.node hput) ?_
        · rw [hmem]
          exact fun k policyId h => hrole ⟨k, policyId, h⟩
        · intro w' es' r' k policyId hi hr _ hr'
          rw [hone hi hr] at hr'
          exact absurd ⟨k, policyId, hr'⟩ hrole
    · refine .kept (hrecord.kept hframe.node hput) ?_
      intro w' es' r' k policyId hi hr hruns'
      rw [hone hi hr] at hruns'
      exact absurd hruns' hruns

theorem emplaced_kept (hinv : Inv cfg s) {w : WorkerId} {r : Running (Own β)} (hrun : s.node.running w = some r)
    (hruns : r.mode.runs = true) (hnext : s.node.next < t.next) :
    Kept s (.put w) t (emplaced { s with node := t } r.task s.node.next) := by
  have hmaker : ∀ (j : ℕ) c, s.schedulers[j]? = some c → r.task = c.request → s.position r.task = .installing j := by
    intro j c hc ht
    rw [ht]
    exact (hinv.scheduler j c hc).position
  have hother : (∀ j, s.position r.task ≠ .installing j) → ∀ w' r' c, (.put w : Poll.Label (Own β)) = .put w' →
      s.node.running w' = some r' → c ∈ s.schedulers → r'.task = c.request → r'.mode.runs = true →
      t.next = s.node.next := by
    intro hpos w' r' c hi hr hc ht
    cases hi
    rw [hrun, Option.some.injEq] at hr
    subst hr
    obtain ⟨j, hj⟩ := List.mem_iff_getElem?.mp hc
    exact absurd (hmaker j c hj ht) (hpos j)
  have hnode : Steady s { s with node := t } := .of_eq rfl rfl (fun _ _ => Iff.rfl)
  unfold emplaced
  split
  · next hpos =>
    have hno : ∀ j, s.position r.task ≠ .installing j := by
      intro j hj
      rw [show s.position r.task = .asking from hpos] at hj
      cases hj
    exact (hnode.trans (setPosition_steady (s := { s with node := t }) hno (by simp) s.admin)).kept .same
      (hother hno)
  · next j hpos =>
    change s.position r.task = .installing j at hpos
    -- the record that grows is that of the request
    have hgrown : ∀ (l : ℕ) c, s.schedulers[l]? = some c → Grown s (.put w) t c
        (if j = l then { c with shm := some s.node.next } else c) := by
      intro l c hc
      split_ifs with hl
      · subst hl
        obtain ⟨c', hc', hreq⟩ := hinv.installing _ _ hpos
        rw [hc, Option.some.injEq] at hc'
        subst hc'
        exact ⟨rfl, rfl, rfl, rfl, Or.inr ⟨w, r, rfl, hrun, hreq.symm, hruns, hnext, rfl⟩⟩
      · refine ⟨rfl, rfl, rfl, rfl, Or.inl ⟨rfl, ?_⟩⟩
        intro w' r' hi hr ht _
        cases hi
        rw [hrun, Option.some.injEq] at hr
        subst hr
        have heq := hmaker l c hc ht
        rw [hpos, Position.installing.injEq] at heq
        exact absurd heq hl
    have hmodify : ∀ l : ℕ, (s.schedulers.modify j fun x => { x with shm := some s.node.next })[l]? =
        s.schedulers[l]?.map fun c => if j = l then { c with shm := some s.node.next } else c := by
      intro l
      rw [List.getElem?_modify]
      split_ifs
      · rfl
      · simp
    refine ⟨.same, ?_, ?_, rfl, fun _ _ => Iff.rfl⟩
    · intro l c' hc'
      rw [show _ = _ from hmodify l] at hc'
      obtain ⟨c, hc, rfl⟩ := Option.map_eq_some_iff.mp hc'
      exact ⟨c, hc, hgrown l c hc⟩
    · intro l c hc
      refine ⟨_, ?_, hgrown l c hc⟩
      rw [show _ = _ from hmodify l, hc]
      rfl
  · next hpos =>
    exact hnode.kept .same (hother (fun j hj => hpos j hj))

theorem track_case (hinv : Inv cfg s) (h : Ready cfg s i t) : TrackCase s i t (track cfg s i t) := by
  have hnode : Steady s { s with node := t } := .of_eq rfl rfl (fun _ _ => Iff.rfl)
  have hquiet : (∀ w, i ≠ .put w) → ∀ w r (c : Scheduler β), i = .put w → s.node.running w = some r →
      c ∈ s.schedulers → r.task = c.request → r.mode.runs = true → t.next = s.node.next :=
    fun hi w r c hput => absurd hput (hi w)
  cases i with
  | scan w es => exact track_scan_case cfg s w es t
  | put w =>
    refine .kept ?_ (fun w' es r k policyId hi => by cases hi)
    cases hrun : s.node.running w with
    | none =>
      simp only [track, hrun]
      refine hnode.kept .same ?_
      intro w' r c hi hr
      cases hi
      rw [hrun] at hr
      cases hr
    | some r =>
      simp only [track, hrun]
      split_ifs with hgo
      · rw [Bool.and_eq_true, decide_eq_true_eq] at hgo
        exact emplaced_kept hinv hrun hgo.1 hgo.2
      · refine hnode.kept .same ?_
        intro w' r' c hi hr _ _ hruns
        cases hi
        rw [hrun, Option.some.injEq] at hr
        subst hr
        rw [hruns, Bool.true_and, decide_eq_true_eq] at hgo
        exact Nat.le_antisymm (Nat.le_of_not_lt hgo) h.tasks.next_le
  | finish w out =>
    refine .kept ?_ (fun w' es r k policyId hi => by cases hi)
    have hput := hquiet (by simp)
    cases hrun : s.node.running w with
    | none =>
      simp only [track, hrun]
      exact hnode.kept .same hput
    | some r =>
      have hframe : TrackFrame s t (track cfg s (.finish w out) t) r.task := track_finish_frame hrun
      simp only [track, hrun] at hframe ⊢
      refine Steady.kept ?_ hframe.node hput
      split_ifs
      · exact (hnode.trans (returns_steady _ r.task)).trans (.of_eq rfl rfl (fun _ _ => Iff.rfl))
      · exact hnode.trans (.of_eq rfl rfl (fun _ _ => Iff.rfl))
  | emplace l x => exact .kept (hnode.kept .same (hquiet (by simp))) (fun w es r k policyId hi => by cases hi)
  | poll w l => exact .kept (hnode.kept .same (hquiet (by simp))) (fun w es r k policyId hi => by cases hi)
  | registry w op => exact .kept (hnode.kept .same (hquiet (by simp))) (fun w es r k policyId hi => by cases hi)
  | write q x => exact .kept (hnode.kept .same (hquiet (by simp))) (fun w es r k policyId hi => by cases hi)

theorem scheduler_none {j : ℕ} {c : Scheduler β} (hc : s.schedulers[j]? = some c) (hq : c.shm = none) :
    s.scheduler j = some c.task := by
  simp only [State.scheduler, hc, Option.map_some, hq]

theorem scheduler_some {j : ℕ} {c : Scheduler β} {q : TaskPtr} (hc : s.schedulers[j]? = some c)
    (hq : c.shm = some q) : s.scheduler j = some (s.node.mem q) := by
  simp only [State.scheduler, hc, Option.map_some, hq]

theorem scan_isComplete {w : WorkerId} {es : List (LaneRef × Task (Own β))} (h : Ready cfg s (.scan w es) t)
    {p : TaskPtr} (hp : p < s.node.next) : (t.mem p).isComplete = (s.node.mem p).isComplete := by
  cases h.tasks.move hp with
  | same hm => rw [show t.mem p = s.node.mem p from hm]
  | start w es exec hi hidle hr hm =>
    rw [show t.mem p = _ from hm, execute_isComplete]
    rfl
  | ran w out r hi hr ht he hm => cases hi
  | write x hi hm => cases hi

theorem Kept.isBusy {w : WorkerId} {es : List (LaneRef × Task (Own β))} (hk : Kept s (.scan w es) t u)
    (hinv : Inv cfg s) (h : Ready cfg s (.scan w es) t) (k : Sched) : u.isBusy k = s.isBusy k := by
  unfold State.isBusy
  rw [hk.sched]
  cases hs : s.sched k with
  | none => rfl
  | some j =>
    obtain ⟨d, hd, -⟩ := hinv.current k j hs
    obtain ⟨d', hd', hg⟩ := hk.forth j d hd
    have hshm : d'.shm = d.shm := by
      rcases hg.shm with ⟨hsame, -⟩ | ⟨w', r, hi, -⟩
      · exact hsame
      · cases hi
    rw [Option.bind_some, Option.bind_some]
    cases hq : d.shm with
    | none =>
      rw [scheduler_none hd hq, scheduler_none hd' (hshm.trans hq), Option.any_some, Option.any_some, hg.complete]
    | some q =>
      have hcomplete : (u.node.mem q).isComplete = (s.node.mem q).isComplete := by
        rw [hk.node.isComplete]
        exact scan_isComplete h ((hinv.scheduler j d hd).shm q hq).1
      rw [scheduler_some hd hq, scheduler_some hd' (hshm.trans hq), Option.any_some, Option.any_some, hcomplete]

theorem Inv.notBusy (hinv : Inv cfg s) {k : Sched} (hbusy : s.isBusy k = false) {j : ℕ} {c : Scheduler β}
    (hc : s.schedulers[j]? = some c) (hk : c.kind = k) : ∃ q, c.shm = some q ∧ (s.node.mem q).isComplete = true := by
  obtain ⟨j', d, hsched, hd, hkind, hle⟩ := hinv.latest j c hc
  rcases Nat.lt_or_eq_of_le hle with hlt | heq
  · exact hinv.earlier j j' c d hc hd hkind.symm hlt
  · subst heq
    rw [hc, Option.some.injEq] at hd
    subst hd
    simp only [State.isBusy, ← hk, hsched, Option.bind_some] at hbusy
    cases hq : c.shm with
    | none =>
      rw [scheduler_none hc hq, Option.any_some, (hinv.scheduler j c hc).complete] at hbusy
      cases hbusy
    | some q =>
      rw [scheduler_some hc hq, Option.any_some, Bool.not_eq_false'] at hbusy
      exact ⟨q, rfl, hbusy⟩

theorem Inv.not_installing (hinv : Inv cfg s) (h : Ready cfg s i t) {p : TaskPtr} (hidle : s.node.tasksView.Idle p)
    (j : ℕ) : s.position p ≠ .installing j := by
  intro hj
  obtain ⟨c, hc, hreq⟩ := hinv.installing p j hj
  have hbusy := (hinv.scheduler j c hc).not_idle h
  rw [hreq] at hbusy
  exact hbusy hidle

structure Installs (cfg : Config β) (v : State β) (k : Sched) (p : TaskPtr) (policyId : TaskStateId) : Prop where
  known : p < v.node.next
  role : role (v.node.mem p) = .setWorkOrchPolicy k policyId
  free : v.isBusy k = false
  position : ∀ j, v.position p ≠ .installing j
  handler : InHandler v p
  emplaces : ∀ w r, v.node.running w = some r → r.task = p → r.mode.runs = true →
    ∃ x, r.emplaces = [(cfg.adminLane, x)] ∧ AdminServer.role x = .schedule ∧ x.taskState = policyId

theorem install_getElem {k : Sched} {p : TaskPtr} {policyId : TaskStateId} {j : ℕ} {c : Scheduler β}
    (h : (s.install k p policyId).schedulers[j]? = some c) : s.schedulers[j]? = some c ∨
      j = s.schedulers.length ∧ c = ⟨k, p, scheduleTask (s.node.mem p).taskNode policyId, none⟩ := by
  simp only [State.install, List.getElem?_append] at h
  split_ifs at h with hlt
  · exact Or.inl h
  · obtain ⟨hlen, heq⟩ := List.getElem?_eq_some_iff.mp h
    have hone : j - s.schedulers.length < 1 := hlen
    refine Or.inr ⟨by omega, ?_⟩
    rw [← heq, List.getElem_singleton]

theorem install_old {k : Sched} {p : TaskPtr} {policyId : TaskStateId} {j : ℕ} {c : Scheduler β}
    (h : s.schedulers[j]? = some c) : (s.install k p policyId).schedulers[j]? = some c := by
  rw [State.install, List.getElem?_append_left (List.getElem?_eq_some_iff.mp h).1, h]

theorem Inv.install {k : Sched} {p : TaskPtr} {policyId : TaskStateId} (hinv : Inv cfg s)
    (h : Installs cfg s k p policyId) (hbase : Base cfg (s.install k p policyId)) :
    Inv cfg (s.install k p policyId) := by
  have hnew : (s.install k p policyId).schedulers[s.schedulers.length]? =
      some ⟨k, p, scheduleTask (s.node.mem p).taskNode policyId, none⟩ := by
    simp [State.install]
  have hlt : ∀ {j : ℕ} {c}, s.schedulers[j]? = some c → j < s.schedulers.length :=
    fun hc => (List.getElem?_eq_some_iff.mp hc).1
  refine ⟨hbase, ?_, ?_, ?_, ?_, ?_, ?_, ?_⟩
  · intro j c hc
    rcases install_getElem hc with hold | ⟨rfl, rfl⟩
    · have hok := hinv.scheduler j c hold
      have hne : c.request ≠ p := fun heq => h.position j (heq ▸ hok.position)
      refine ⟨hok.request, hok.role, ?_, hok.complete, hok.shm, hok.live, hok.unplaced, hok.emplaces⟩
      exact (Function.update_of_ne hne ..).trans hok.position
    · refine ⟨h.known, h.role, Function.update_self .., (newOk_scheduleTask _ _).notComplete, ?_,
        Or.inr (Or.inr h.handler), fun _ => h.handler, ?_⟩
      · intro q hq
        cases hq
      · intro w r hr ht hruns
        exact Or.inr ⟨rfl, h.emplaces w r hr ht hruns⟩
  · intro j l c d hc hd hkind hjl
    rcases install_getElem hd with hd | ⟨rfl, rfl⟩
    · rcases install_getElem hc with hc | ⟨rfl, -⟩
      · exact hinv.earlier j l c d hc hd hkind hjl
      · exact absurd (hlt hd) (Nat.not_lt_of_lt hjl)
    · rcases install_getElem hc with hc | ⟨rfl, -⟩
      · exact hinv.notBusy h.free hc hkind
      · exact absurd hjl (Nat.lt_irrefl _)
  · intro j c hc
    rcases install_getElem hc with hc | ⟨rfl, rfl⟩
    · by_cases hk : c.kind = k
      · exact ⟨_, _, hk ▸ Function.update_self .., hnew, hk.symm, Nat.le_of_lt (hlt hc)⟩
      · obtain ⟨l, d, hsched, hd, hkind, hle⟩ := hinv.latest j c hc
        exact ⟨l, d, (Function.update_of_ne hk ..).trans hsched, install_old hd, hkind, hle⟩
    · exact ⟨_, _, Function.update_self .., hnew, rfl, Nat.le_refl _⟩
  · intro k' j hsched
    by_cases hk : k' = k
    · subst hk
      have hself : (s.install k' p policyId).sched k' = some s.schedulers.length := Function.update_self ..
      rw [hself, Option.some.injEq] at hsched
      subst hsched
      exact ⟨_, hnew, rfl⟩
    · obtain ⟨d, hd, hkind⟩ := hinv.current k' j ((Function.update_of_ne hk ..).symm.trans hsched)
      exact ⟨d, install_old hd, hkind⟩
  · intro q j hpos
    by_cases hq : q = p
    · subst hq
      have hself : (s.install k q policyId).position q = .installing s.schedulers.length := Function.update_self ..
      rw [hself, Position.installing.injEq] at hpos
      subst hpos
      exact ⟨_, hnew, rfl⟩
    · obtain ⟨c, hc, hreq⟩ := hinv.installing q j ((Function.update_of_ne hq ..).symm.trans hpos)
      exact ⟨c, install_old hc, hreq⟩
  · intro q k' policyId' hq hr hlocal hdone
    obtain ⟨j, c, hc, hreq, hsome⟩ := hinv.done q k' policyId' hq hr hlocal hdone
    exact ⟨j, c, install_old hc, hreq, hsome⟩
  · intro q hq hr
    obtain ⟨c, hc, hshm⟩ := hinv.recorded q hq hr
    exact ⟨c, List.mem_append_left _ hc, hshm⟩

theorem handlerEmplaces_setWorkOrchPolicy {p : TaskPtr} {k : Sched} {policyId : TaskStateId}
    (h : role (s.node.mem p) = .setWorkOrchPolicy k policyId) : handlerEmplaces cfg s p =
      if s.isBusy k then [] else [(cfg.adminLane, scheduleTask (s.node.mem p).taskNode policyId)] := by
  cases hb : (s.node.mem p).body with
  | push x =>
    rw [role, hb] at h
    cases h
  | own a =>
    rw [role, hb] at h
    cases a <;> cases h
    simp only [handlerEmplaces, hb]

theorem handlerEmplaces_schedule {p : TaskPtr} {e : LaneRef × Task (Own β)} (he : e ∈ handlerEmplaces cfg s p)
    (hr : role e.2 = .schedule) : ∃ k policyId, role (s.node.mem p) = .setWorkOrchPolicy k policyId ∧
      s.isBusy k = false := by
  unfold handlerEmplaces at he
  dsimp only at he
  split at he
  · split_ifs at he
    · rw [List.mem_singleton.mp he] at hr
      cases hr
    · cases he
  · next k policyId hb =>
    split_ifs at he with hbusy
    · cases he
    · exact ⟨k, policyId, by rw [role, hb]; rfl, by simpa using hbusy⟩
  · cases he

structure Called (cfg : Config β) (s : State β) (w : WorkerId) (es : List (LaneRef × Task (Own β)))
    (t : Poll.State (Own β)) (r : Running (Own β)) : Prop where
  free : s.node.running w = none
  faced : s.node.faced w = some r.task
  idle : s.node.tasksView.Idle r.task
  emplaces : r.emplaces = es
  isLocal : isRemote cfg.poll (s.node.mem r.task) = false
  task : t.mem r.task = (s.node.mem r.task).setStarted ∨
    (s.node.mem r.task).isStarted = true ∧ t.mem r.task = s.node.mem r.task

theorem Ready.called {w : WorkerId} {es : List (LaneRef × Task (Own β))} (h : Ready cfg s (.scan w es) t)
    {r : Running (Own β)} (hr : t.running w = some r) (hruns : r.mode.runs = true) : Called cfg s w es t r := by
  obtain ⟨hfaced, -⟩ := scan_running h.step hr
  obtain ⟨hfree, hidle, ⟨hskip, -⟩ | ⟨exec, hstart, hm⟩⟩ := h.tasks.scanned hr
  · rw [hskip] at hruns
    cases hruns
  · obtain ⟨he, hlocal, htask⟩ := started_runs (hstart ▸ hruns)
    refine ⟨hfree, hfaced, hidle, ?_, hlocal, ?_⟩
    · rw [hstart]
      exact he
    · rw [show t.mem r.task = _ from hm]
      exact htask

theorem started_idle {x : Task (Own β)} {p : TaskPtr} {exec : Instance} {es : List (LaneRef × Task (Own β))}
    (h : (started cfg.poll x p exec es).mode.runs = false) {e : LaneRef × Task (Own β)}
    (he : e ∈ (started cfg.poll x p exec es).emplaces) : role e.2 = .other := by
  simp only [started] at h he
  unfold execute at h he
  split_ifs at h he
  · rw [List.mem_singleton.mp he]
    rfl
  · cases h
  · cases h
  · cases he
  · cases h

theorem TrackCase.installs {w : WorkerId} {es : List (LaneRef × Task (Own β))} {r : Running (Own β)} {k : Sched}
    {policyId : TaskStateId} (hinv : Inv cfg s) (h : Ready cfg s (.scan w es) t) (hr : t.running w = some r)
    (hruns : r.mode.runs = true) (hrole : role (t.mem r.task) = .setWorkOrchPolicy k policyId)
    (hk : Kept s (.scan w es) t u) (hbusy : u.isBusy k = false) : Installs cfg u k r.task policyId := by
  have hcalled := h.called hr hruns
  have hnext : u.node.next = t.next := hk.node.next
  have hrunning : u.node.running = t.running := hk.node.running
  have hold : role (s.node.mem r.task) = .setWorkOrchPolicy k policyId := by
    rw [← hrole, (step_same h hcalled.idle.known).role]
  refine ⟨?_, ?_, hbusy, ?_, ⟨w, r, by rw [hrunning, hr], rfl, hruns⟩, ?_⟩
  · rw [hnext]
    exact Nat.lt_of_lt_of_le hcalled.idle.known h.tasks.next_le
  · rw [(hk.node.task r.task).role]
    exact hrole
  · intro j hj
    rw [hk.position] at hj
    exact hinv.not_installing h hcalled.idle j hj
  · rw [hrunning]
    intro w' r' hr' ht _
    have hr'₀ : s.node.running w' = some r' → False := fun hrun => hcalled.idle.free w' r' hrun ht
    have horigin := h.tasks.runOrigin hr'
    have hw : w' = w := by
      cases horigin with
      | same hrun => exact absurd hrun hr'₀
      | skip es' hi => cases hi; rfl
      | start es' exec hi => cases hi; rfl
      | put r₀ hi => cases hi
    subst hw
    rw [hr, Option.some.injEq] at hr'
    subst hr'
    have hes := h.label r.task hcalled.faced
    rw [if_pos (by rw [hold]; rfl), handlerEmplaces_setWorkOrchPolicy hold, ← hk.isBusy hinv h, hbusy] at hes
    exact ⟨_, hcalled.emplaces.trans hes, rfl, rfl⟩

theorem track_inv (hinv : Inv cfg s) (hpend : PendingOk s) (h : Ready cfg s i t) : Inv cfg (track cfg s i t) := by
  have hbase := hinv.base.track h
  cases track_case hinv h with
  | kept hk => exact hk.inv hinv hpend h hbase
  | install w es r k policyId v hi hr hruns hrole hv hbusy hu =>
    subst hi
    have hinstalls := TrackCase.installs hinv h hr hruns hrole hv hbusy
    rw [hu] at hbase ⊢
    have hunused : ∀ p, v.node.next ≤ p → v.position p = .start ∧ v.history p = [] := by
      intro p hp
      have hne : p ≠ r.task := fun heq => Nat.not_lt_of_le hp (heq ▸ hinstalls.known)
      obtain ⟨hpos, hhist⟩ := hbase.unused p hp
      exact ⟨(Function.update_of_ne hne ..).symm.trans hpos, hhist⟩
    have hv' := hv.inv hinv hpend h ⟨hbase.lanes, hbase.busy, hbase.complete, hbase.pending, hunused⟩
    exact hv'.install hinstalls hbase

theorem track_installing (hinv : Inv cfg s) (h : Ready cfg s i t) {p : TaskPtr} {j : ℕ}
    (hp : s.position p = .installing j) : (track cfg s i t).position p = .installing j := by
  cases track_case hinv h with
  | kept hk => exact (hk.position p j).mpr hp
  | install w es r k policyId v hi hr hruns hrole hv hbusy hu =>
    subst hi
    have hne : p ≠ r.task := by
      rintro rfl
      exact hinv.not_installing h (h.called hr hruns).idle j hp
    rw [hu]
    exact (Function.update_of_ne hne ..).trans ((hv.position p j).mpr hp)

theorem track_pending (hinv : Inv cfg s) (hpend : PendingOk s) (h : Ready cfg s i t) :
    PendingOk (track cfg s i t) := by
  have hrunning : (track cfg s i t).node.running = t.running := by
    rcases track_frame hinv.base h with heq | ⟨p, -, hframe⟩
    · rw [heq]
    · exact hframe.node.running
  intro w r e hr he hrole
  rw [hrunning] at hr
  have hold : ∀ r₀, s.node.running w = some r₀ → r.task = r₀.task → r.mode = r₀.mode → e ∈ r₀.emplaces →
      r.mode.runs = true ∧ ∃ j, (track cfg s i t).position r.task = .installing j := by
    intro r₀ hr₀ ht hm he₀
    obtain ⟨hruns, j, hj⟩ := hpend w r₀ e hr₀ he₀ hrole
    rw [ht, hm]
    exact ⟨hruns, j, track_installing hinv h hj⟩
  cases h.tasks.runOrigin hr with
  | same hr₀ => exact hold r hr₀ rfl rfl he
  | skip es hi hidle hm hnil =>
    rw [hnil] at he
    cases he
  | put r₀ hi hr₀ ht hm hsub => exact hold r₀ hr₀ ht hm (hsub e he)
  | start es exec hi hidle hstart =>
    subst hi
    cases hruns : r.mode.runs with
    | false =>
      rw [hstart] at hruns he
      rw [started_idle hruns he] at hrole
      cases hrole
    | true =>
      refine ⟨rfl, ?_⟩
      have hcalled := h.called hr hruns
      have hes := h.label r.task hcalled.faced
      rw [hcalled.emplaces] at he
      split_ifs at hes with hreq
      · rw [hes] at he
        obtain ⟨k, policyId, hr', hfree⟩ := handlerEmplaces_schedule he hrole
        have hr'' : role (t.mem r.task) = .setWorkOrchPolicy k policyId := by
          rw [(step_same h hidle.known).role]
          exact hr'
        cases track_case hinv h with
        | kept hk hbusy =>
          have htrue := hbusy w es r k policyId rfl hr hruns hr''
          rw [hk.isBusy hinv h, hfree] at htrue
          cases htrue
        | install w' es' r' k' policyId' v hi hr₁ hruns₁ hrole₁ hv hbusy hu =>
          cases hi
          rw [hr, Option.some.injEq] at hr₁
          subst hr₁
          rw [hu]
          exact ⟨_, Function.update_self ..⟩
      · exact absurd hrole (isFresh_newOk (hes e he)).2

end Cases

structure OneActive (cfg : Config β) (s : State β) : Prop where
  active : ∀ (i : ℕ) c x, s.schedulers[i]? = some c → s.scheduler i = some x → x.isComplete = false →
    s.sched c.kind = some i
  policy : ∀ (i : ℕ) c x, s.schedulers[i]? = some c → s.scheduler i = some x →
    role (s.node.mem c.request) = .setWorkOrchPolicy c.kind x.taskState
  ended : ∀ (i j : ℕ) c d, s.schedulers[i]? = some c → s.schedulers[j]? = some d → c.kind = d.kind → i < j →
    ∃ q, c.shm = some q ∧ .endTask q ∈ s.node.log
  once : ∀ (i j : ℕ) c d, s.schedulers[i]? = some c → s.schedulers[j]? = some d → c.request = d.request → i = j
  installed : ∀ p k policyId, p < s.node.next → role (s.node.mem p) = .setWorkOrchPolicy k policyId →
    isRemote cfg.poll (s.node.mem p) = false →
    (s.node.mem p).isModuleComplete = true ∨ (s.node.mem p).isComplete = true →
    ∃ c ∈ s.schedulers, c.request = p ∧ ∃ q, c.shm = some q ∧ .enqueue cfg.adminLane q ∈ s.node.log
  recorded : ∀ q, q < s.node.next → role (s.node.mem q) = .schedule → ∃ c ∈ s.schedulers, c.shm = some q

def EnqueuesAfterEnd (s t : State β) : Prop :=
  ∀ (i j : ℕ) c d q, t.schedulers[i]? = some c → t.schedulers[j]? = some d → c.kind = d.kind → i < j →
    d.shm = some q → s.node.next ≤ q → ∃ p, c.shm = some p ∧ .endTask p ∈ s.node.log

theorem Inv.oneActive {cfg : Config β} {s : State β} (h : Inv cfg s) : OneActive cfg s := by
  have hended : ∀ (i j : ℕ) c d, s.schedulers[i]? = some c → s.schedulers[j]? = some d → c.kind = d.kind → i < j →
      ∃ q, c.shm = some q ∧ .endTask q ∈ s.node.log := by
    intro i j c d hc hd hkind hlt
    obtain ⟨q, hq, hcomplete⟩ := h.earlier i j c d hc hd hkind hlt
    exact ⟨q, hq, h.base.complete q ((h.scheduler i c hc).shm q hq).1 hcomplete⟩
  refine ⟨?_, ?_, hended, ?_, ?_, h.recorded⟩
  · intro i c x hc hx hactive
    obtain ⟨j, d, hsched, hd, hkind, hle⟩ := h.latest i c hc
    rcases Nat.lt_or_eq_of_le hle with hlt | rfl
    · obtain ⟨q, hq, hcomplete⟩ := h.earlier i j c d hc hd hkind.symm hlt
      rw [scheduler_some hc hq, Option.some.injEq] at hx
      rw [hx, hactive] at hcomplete
      cases hcomplete
    · exact hsched
  · intro i c x hc hx
    have hok := h.scheduler i c hc
    cases hq : c.shm with
    | none =>
      rw [scheduler_none hc hq, Option.some.injEq] at hx
      rw [← hx, hok.role]
    | some q =>
      rw [scheduler_some hc hq, Option.some.injEq] at hx
      rw [← hx, (hok.shm q hq).2.2.1, hok.role]
  · intro i j c d hc hd hreq
    have hi := (h.scheduler i c hc).position
    rw [hreq, (h.scheduler j d hd).position, Position.installing.injEq] at hi
    exact hi.symm
  · intro p k policyId hp hr hlocal hdone
    obtain ⟨i, c, hc, hreq, hsome⟩ := h.done p k policyId hp hr hlocal hdone
    obtain ⟨q, hq⟩ := Option.isSome_iff_exists.mp hsome
    exact ⟨c, List.mem_of_getElem? hc, hreq, q, hq, ((h.scheduler i c hc).shm q hq).2.2.2⟩

theorem TrackCase.enqueuesAfterEnd {cfg : Config β} {s u : State β} {i : Poll.Label (Own β)}
    {t : Poll.State (Own β)} (h : TrackCase s i t u) (hinv : Inv cfg s) (hr : Ready cfg s i t) :
    EnqueuesAfterEnd s u := by
  intro j l c d q hc hd hkind hlt hq hnew
  cases h with
  | kept hk =>
    obtain ⟨c₀, hc₀, hg⟩ := hk.back j c hc
    obtain ⟨d₀, hd₀, hg'⟩ := hk.back l d hd
    obtain ⟨p, hp, hcomplete⟩ := hinv.earlier j l c₀ d₀ hc₀ hd₀ (by rw [← hg.kind, hkind, hg'.kind]) hlt
    have hok := hinv.scheduler j c₀ hc₀
    exact ⟨p, hg.shm_some hok hr hp, hinv.base.complete p (hok.shm p hp).1 hcomplete⟩
  | install w es r k policyId v hi hrun hruns hrole hv hbusy hu =>
    subst hi
    rw [hu] at hd
    rcases install_getElem hd with hd | ⟨-, rfl⟩
    · obtain ⟨d₀, hd₀, hg⟩ := hv.back l d hd
      rcases hg.shm with ⟨hsame, -⟩ | ⟨w', r', hi, -⟩
      · rw [hsame] at hq
        exact absurd hnew (Nat.not_le_of_lt ((hinv.scheduler l d₀ hd₀).shm q hq).1)
      · cases hi
    · cases hq

structure Good (cfg : Config β) (s : State β) : Prop where
  inv : Inv cfg s
  pending : PendingOk s

theorem Good.init (cfg : Config β) (mem : TaskPtr → Task (Own β)) (registered : TaskStateId → Bool)
    (admin : Admin.Node) : Good cfg (State.init (Poll.State.init mem registered) admin) := by
  refine ⟨⟨Base.init cfg mem registered admin, ?_, ?_, ?_, ?_, ?_, ?_, ?_⟩, ?_⟩
  · intro i c hc
    cases hc
  · intro i j c d hc
    cases hc
  · intro i c hc
    cases hc
  · intro k j hj
    cases hj
  · intro p i hp
    cases hp
  · intro p k policyId hp
    cases hp
  · intro q hq
    cases hq
  · intro w r e hr
    cases hr

theorem Good.setAdmin {cfg : Config β} {s : State β} (h : Good cfg s) (n : Admin.Node) :
    Good cfg { s with admin := n } := by
  obtain ⟨⟨hbase, hscheduler, hearlier, hlatest, hcurrent, hinstalling, hdone, hrecorded⟩, hpending⟩ := h
  refine ⟨⟨⟨hbase.lanes, hbase.busy, hbase.complete, hbase.pending, hbase.unused⟩, ?_, hearlier, hlatest, hcurrent,
    hinstalling, hdone, hrecorded⟩, hpending⟩
  intro i c hc
  obtain ⟨hrequest, hrole, hposition, hcomplete, hshm, hlive, hunplaced, hemplaces⟩ := hscheduler i c hc
  exact ⟨hrequest, hrole, hposition, hcomplete, hshm, hlive, hunplaced, hemplaces⟩

theorem step_good {cfg : Config β} {s t : State β} {l : Label β} (h : Good cfg s) (hst : step cfg s l = some t) :
    Good cfg t ∧ EnqueuesAfterEnd s t := by
  rcases step_cases h.inv.base hst with ⟨-, n, rfl⟩ | ⟨i, u, hr, rfl⟩
  · refine ⟨h.setAdmin n, ?_⟩
    intro i j c d q hc hd hkind hlt hq hnew
    exact absurd hnew (Nat.not_le_of_lt ((h.inv.scheduler j d hd).shm q hq).1)
  · exact ⟨⟨track_inv h.inv h.pending hr, track_pending h.inv h.pending hr⟩,
      (track_case h.inv hr).enqueuesAfterEnd h.inv hr⟩

theorem oneActive_along (cfg : Config β) (mem : TaskPtr → Task (Own β)) (registered : TaskStateId → Bool)
    (admin : Admin.Node) (labels : List (Label β)) :
    Along (step cfg) (fun s _ t => OneActive cfg t ∧ EnqueuesAfterEnd s t)
      (State.init (Poll.State.init mem registered) admin) labels := by
  refine along_of_invariant (I := Good cfg) (C := fun _ _ _ => True) ?_ (Good.init cfg mem registered admin)
    (along_of_forall _ fun _ _ => trivial)
  intro s l t h hst _
  obtain ⟨hgood, hafter⟩ := step_good h hst
  exact ⟨hgood, hgood.inv.oneActive, hafter⟩

section

def aloneNode : Config Unit where
  node :=
    { numHosts := 1
      nodeId := 1
      lib := fun _ => ⟨fun _ _ => (taskUnordered, id), fun _ _ a => a⟩
      owner := fun _ => 0
      depth := fun _ => 16
      numLanes := fun _ _ => 1
      remoteQueue := ⟨1, 2⟩
      fatalReturns := false }
  admin := QueueManager.adminQueue
  replicateStart := fun _ _ _ b => b
  constructCompletes := fun _ => true

def policyTask (k : Sched) (policyId : TaskStateId) : Task (Own Unit) :=
  ⟨QueueManager.adminQueue, ⟨⟨1, 7⟩, 1⟩, DomainId.getLocal, TaskPrio.kAdmin, 0, k.method, 0,
    .own (.setWorkOrchPolicy k policyId)⟩

def aloneBoot : State Unit :=
  .init (.init (fun _ => policyTask .queueSched UniqueId.getNull) fun _ => true)
    (Admin.Node.serverInit ⟨1, 1024, 16, 256, []⟩ 1)

def twoPolicies : List (Label Unit) :=
  let l := aloneNode.adminLane
  let first := policyTask .queueSched ⟨1, 3⟩
  let second := policyTask .queueSched ⟨1, 4⟩
  let scheduler := (scheduleTask first.taskNode ⟨1, 3⟩).setStarted.setModuleComplete
  [.node (.emplace l first), .node (.emplace l second),
    .node (.poll 0 l), .node (.scan 0 []), .node (.put 0), .node (.finish 0 first),
    .node (.scan 0 []), .node (.finish 0 second), .node (.scan 0 []), .node (.finish 0 scheduler), .node (.scan 0 []),
    .node (.poll 0 l), .node (.scan 0 []), .node (.put 0), .node (.finish 0 second)]

theorem oneActive_twoPolicies : ((run (step aloneNode) aloneBoot twoPolicies).map fun s =>
      (s.schedulers.map fun c => (c.request, c.shm), s.sched .queueSched, s.isBusy .queueSched)) =
        some ([(0, some 2), (1, some 3)], some 1, true) ∧
    Along (step aloneNode) (fun s _ t => OneActive aloneNode t ∧ EnqueuesAfterEnd s t) aloneBoot twoPolicies :=
  ⟨by decide +kernel, oneActive_along aloneNode _ _ _ twoPolicies⟩

def pairNode : Config Unit := { aloneNode with node := { aloneNode.node with numHosts := 2 } }

def sentPolicy : Task (Own Unit) := { policyTask .queueSched ⟨1, 3⟩ with domainId := DomainId.getNode 2 }

/-- A request for the other of two nodes is dispersed, completed by its push and ended. -/
def sentPolicyRun : List (Label Unit) :=
  let l := pairNode.adminLane
  [.node (.emplace l sentPolicy), .node (.poll 0 l), .node (.scan 0 []), .node (.put 0), .node (.finish 0 sentPolicy),
    .node (.scan 0 []), .node (.write 0 sentPolicy.disableRun.setModuleComplete),
    .node (.poll 0 l), .node (.scan 0 []), .node (.finish 0 sentPolicy)]

theorem not_installed_sentPolicy : ∃ s, run (step pairNode) aloneBoot sentPolicyRun = some s ∧ 0 < s.node.next ∧
    role (s.node.mem 0) = .setWorkOrchPolicy .queueSched ⟨1, 3⟩ ∧ (s.node.mem 0).isComplete = true ∧
    ¬∃ c ∈ s.schedulers, c.request = 0 := by
  have hsome : (run (step pairNode) aloneBoot sentPolicyRun).any (fun s => 0 < s.node.next ∧
      role (s.node.mem 0) = .setWorkOrchPolicy .queueSched ⟨1, 3⟩ ∧ (s.node.mem 0).isComplete = true ∧
      s.schedulers.length = 0) = true := by
    decide +kernel
  obtain ⟨s, hs, hok⟩ := (Option.any_eq_true _ _).mp hsome
  obtain ⟨hnext, hrole, hcomplete, hnone⟩ := of_decide_eq_true hok
  refine ⟨s, hs, hnext, hrole, hcomplete, ?_⟩
  rintro ⟨c, hc, -⟩
  rw [List.eq_nil_of_length_eq_zero hnone] at hc
  cases hc

end

end HermesRun.AdminServer
