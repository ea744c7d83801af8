import HermesRun.Worker.Frames
import HermesRun.Worker.Ledger

namespace HermesRun.Poll

open Runs

variable {α : Type} {cfg : Config α}

structure RunOk (cfg : Config α) (mem : TaskPtr → Task α) (r : Running α) : Prop where
  exec : r.exec.id = (mem r.task).taskState
  remote : r.isRemote = isRemote cfg (mem r.task)
  disperse : r.mode = .disperse → r.isRemote = true
  fresh : ∀ e ∈ r.emplaces, isFresh e.2 = true

theorem RunOk.setTask {mem : TaskPtr → Task α} {r : Running α} {p : TaskPtr} {t : Task α}
    (h : RunOk cfg mem r) (hs : t.taskState = (mem p).taskState) (hd : t.domainId = (mem p).domainId) :
    RunOk cfg (Function.update mem p t) r := by
  by_cases hp : r.task = p
  · refine { h with exec := ?_, remote := ?_ } <;> rw [hp, Function.update_self]
    · rw [hs, h.exec, hp]
    · rw [h.remote, hp, isRemote, isRemote, hd]
  · refine { h with exec := ?_, remote := ?_ } <;> rw [Function.update_of_ne hp]
    · exact h.exec
    · exact h.remote

structure AdmissionInv (cfg : Config α) (s : State α) : Prop where
  lanes : ScannedFifo.Inv cfg.owner s.lanesView
  tasks : TasksInv cfg s.lanes s.mem s.next s.log
  groups : ∀ w, CountedGroups.Represents Admission.key Admission.root (s.workers w).groups.table
    (inProgress w s.log)
  bounded : ∀ w, (s.workers w).groups.Bounded
  running : ∀ w c r, (s.workers w).cursor = some c → c.running = some r → RunOk cfg s.mem r
  noZero : ∀ w p, .depthZero w p ∉ s.log

namespace AdmissionInv

variable {s t : State α}

theorem quiet (h : AdmissionInv cfg s) (evs : List Event) (hlanes : ScannedFifo.Inv cfg.owner t.lanesView)
    (hw : ∀ l p, ⟨p, false⟩ ∈ t.lanes l ↔ ⟨p, false⟩ ∈ s.lanes l) (hmem : t.mem = s.mem)
    (hnext : t.next = s.next) (hlog : t.log = evs ++ s.log)
    (he : ∀ e ∈ evs, e.isLedger = false)
    (hg : ∀ w, (t.workers w).groups.groupMap = (s.workers w).groups.groupMap)
    (hr : ∀ w c r, (t.workers w).cursor = some c → c.running = some r → RunOk cfg s.mem r) :
    AdmissionInv cfg t := by
  refine ⟨hlanes, ?_, ?_, ?_, ?_, ?_⟩
  · rw [hmem, hnext, hlog]
    exact h.tasks.quiet hw he
  · intro w
    have htable : (t.workers w).groups.table = (s.workers w).groups.table := by
      funext k
      simp only [Groups.table, hg]
    rw [htable, hlog, inProgress_append he]
    exact h.groups w
  · intro w k n hn
    rw [hg] at hn
    exact h.bounded w k n hn
  · rw [hmem]
    exact hr
  · intro w p hp
    rw [hlog] at hp
    rcases List.mem_append.mp hp with hp | hp
    · have hl := he _ hp
      cases hl
    · exact h.noZero w p hp

theorem setTask (h : AdmissionInv cfg s) {p : TaskPtr} {x : Task α} (hk : keeps cfg (s.mem p) x = true) :
    AdmissionInv cfg (s.setTask p x) := by
  refine { h with tasks := h.tasks.setTask hk, running := ?_ }
  obtain ⟨hstate, -, hdomain, -, -⟩ := keeps_iff.mp hk
  intro w c r hc hr
  exact (h.running w c r hc hr).setTask hstate hdomain

theorem emplaceEvents_ledger (s : State α) (l : LaneRef) (x : Task α) :
    ∀ e ∈ s.emplaceEvents l x, e.isLedger = false := by
  unfold State.emplaceEvents
  cases x.body <;> simp [Event.isLedger]

theorem emplace (h : AdmissionInv cfg s) (hh : s.halted = false) (l : LaneRef) {x : Task α}
    (hf : isFresh x = true) : AdmissionInv cfg (s.emplace l x) := by
  have he := emplaceEvents_ledger s l x
  refine ⟨?_, ?_, ?_, ?_, ?_, ?_⟩
  · rw [State.lanesView_emplace]
    exact h.lanes.enqueue l
  · rw [State.emplace_mem, State.emplace_next, State.emplace_log, State.emplace_lanes]
    apply h.tasks.emplace _ _ hf he
    · exact l
    · intro l' q hq
      exact lt_next h.lanes hq
    · exact ScannedFifo.Inv.waiting_enqueue s.lanesView l
  · intro w
    rw [State.emplace_workers, State.emplace_log, inProgress_append he]
    exact h.groups w
  · intro w
    rw [State.emplace_workers]
    exact h.bounded w
  · intro w c r hc hr
    rw [State.emplace_workers] at hc
    have hok := h.running w c r hc hr
    have hne : r.task ≠ s.next :=
      Nat.ne_of_lt (lt_next h.lanes (List.mem_of_getElem? (running_waits h.lanes hh hc hr)))
    rw [State.emplace_mem]
    refine { hok with exec := ?_, remote := ?_ } <;> rw [Function.update_of_ne hne]
    · exact hok.exec
    · exact hok.remote
  · intro w p hp
    rw [State.emplace_log] at hp
    rcases List.mem_append.mp hp with hp | hp
    · have hl := he _ hp
      cases hl
    · exact h.noZero w p hp

theorem execute_frame (cfg : Config α) (x : Task α) (p : TaskPtr) (exec : Instance) (es : List (LaneRef × Task α)) :
    (execute cfg x p exec es).task.taskState = x.taskState ∧
      (execute cfg x p exec es).task.taskNode.root = x.taskNode.root ∧
      (execute cfg x p exec es).task.domainId = x.domainId := by
  unfold execute replicateStart
  split_ifs
  · cases x.body <;> exact ⟨rfl, rfl, rfl⟩
  all_goals exact ⟨rfl, rfl, rfl⟩

theorem execute_grouped (hl : ∀ id, (cfg.lib id).IgnoresFlags) (x : Task α) (p : TaskPtr) (exec : Instance)
    (es : List (LaneRef × Task α)) : isGrouped cfg (execute cfg x p exec es).task = isGrouped cfg x := by
  obtain ⟨hstate, -, hdomain⟩ := execute_frame cfg x p exec es
  have hremote : isRemote cfg (execute cfg x p exec es).task = isRemote cfg x := by
    rw [isRemote, isRemote, hdomain]
  unfold isGrouped
  rw [hremote, hstate]
  by_cases hr : isRemote cfg x = true
  · simp [hr]
  · unfold execute
    rw [if_neg hr]
    split_ifs <;> simp only [Groups.isOrdered_setStarted (hl _), Groups.isOrdered_disableRun (hl _)]

theorem execute_begun {x : Task α} (hr : isRemote cfg x = false) (p : TaskPtr) (exec : Instance)
    (es : List (LaneRef × Task α)) : (execute cfg x p exec es).task.begun = true := by
  unfold execute
  rw [if_neg (by simp [hr])]
  split_ifs with hc hs
  · simp [Task.begun, hs]
  · exact Task.setStarted_begun x
  · exact Task.disableRun_begun x
  · exact Task.setStarted_begun x

theorem execute_keeps (hl : ∀ id, (cfg.lib id).IgnoresFlags) {x : Task α}
    (hx : isGrouped cfg x = true → x.begun = true) (p : TaskPtr) (exec : Instance)
    (es : List (LaneRef × Task α)) : keeps cfg x (execute cfg x p exec es).task = true := by
  obtain ⟨hstate, hroot, hdomain⟩ := execute_frame cfg x p exec es
  refine keeps_iff.mpr ⟨hstate, hroot, hdomain, execute_grouped hl x p exec es, ?_⟩
  intro hg
  have hr : isRemote cfg x = false := by
    simp only [isGrouped, Bool.and_eq_true, Bool.not_eq_true'] at hg
    exact hg.1
  have hb := execute_begun hr p exec es
  rw [hb, hx hg]
  exact ⟨rfl, fun _ => rfl⟩

theorem execute_fresh {x : Task α} {p : TaskPtr} {exec : Instance} {es : List (LaneRef × Task α)}
    (hes : ∀ e ∈ es, isFresh e.2 = true) : ∀ e ∈ (execute cfg x p exec es).emplaces, isFresh e.2 = true := by
  have hpush : isFresh (pushTask cfg x p exec) = true := by
    have hflags : (pushTask cfg x p exec).taskFlags =
        Bitfield.setBits 0#32 (taskLowLatency ||| taskPreemptive ||| taskRemoteDebugMark) := rfl
    simp only [isFresh, Task.begun, Task.isStarted, Task.isRunDisabled, Task.isModuleComplete, hflags]
    decide
  intro e he
  rcases mem_execute_emplaces cfg he with heq | he
  · rw [heq]
    exact hpush
  · exact hes e he

theorem execute_disperse {x : Task α} {p : TaskPtr} {exec : Instance} {es : List (LaneRef × Task α)}
    (h : (execute cfg x p exec es).mode = .disperse) : isRemote cfg x = true := by
  by_contra hr
  unfold execute at h
  rw [if_neg hr] at h
  split_ifs at h

theorem execute_ledger (cfg : Config α) (x : Task α) (p : TaskPtr) (exec : Instance) (es : List (LaneRef × Task α)) :
    ∀ e ∈ (execute cfg x p exec es).events, e.isLedger = false := by
  unfold execute
  split_ifs <;> simp [Event.isLedger]

theorem setCursor_running {mem : TaskPtr → Task α} {w : WorkerId} {c' : Option (Cursor α)}
    (h : ∀ w c r, (s.workers w).cursor = some c → c.running = some r → RunOk cfg mem r)
    (hnew : ∀ c r, c' = some c → c.running = some r → RunOk cfg mem r) :
    ∀ w' c r, ((s.setCursor w c').workers w').cursor = some c → c.running = some r → RunOk cfg mem r := by
  intro w' c r hc hr
  by_cases hw : w' = w
  · subst hw
    exact hnew c r (by simpa [State.setCursor] using hc) hr
  · exact h w' c r (by simpa [State.setCursor, hw] using hc) hr

theorem setCursor_groups (w w' : WorkerId) (c : Option (Cursor α)) :
    ((s.setCursor w c).workers w').groups = (s.workers w').groups := by
  by_cases hw : w' = w
  · subst hw
    simp [State.setCursor]
  · simp [State.setCursor, hw]

theorem setGroups_cursor (w w' : WorkerId) (g : Groups) :
    ((s.setGroups w g).workers w').cursor = (s.workers w').cursor := by
  by_cases hw : w' = w
  · subst hw
    simp [State.setGroups]
  · simp [State.setGroups, hw]

theorem setGroups_groups (w w' : WorkerId) (g : Groups) :
    ((s.setGroups w g).workers w').groups = if w' = w then g else (s.workers w').groups := by
  by_cases hw : w' = w
  · subst hw
    simp [State.setGroups]
  · simp [State.setGroups, hw]

theorem place (h : ScannedFifo.Inv cfg.owner s.lanesView) {w : WorkerId} {c : Cursor α} {p : TaskPtr}
    (ho : cfg.owner c.lane = w) (hp : (s.lanes c.lane)[c.off]? = some ⟨p, false⟩) :
    ScannedFifo.Inv cfg.owner (s.lanesView.place w (some ⟨c.lane, c.off, some p⟩)) := by
  apply h.place
  · rintro x ⟨⟩
    exact ho
  · rintro l off q ⟨⟩
    exact hp

theorem resume (hl : ∀ id, (cfg.lib id).IgnoresFlags) (h : AdmissionInv cfg s) {w : WorkerId}
    {c : Cursor α} {p : TaskPtr} {exec : Instance} {es : List (LaneRef × Task α)} {g : Groups}
    {evs : List Event} {r : Running α}
    (hbegan : isGrouped cfg (s.mem p) = true → (s.mem p).begun = true)
    (hg : g.groupMap = (s.workers w).groups.groupMap) (he : ∀ e ∈ evs, e.isLedger = false)
    (hr : RunOk cfg s.mem r) {t : State α}
    (ht : t = (({ s with log := evs ++ s.log }.setGroups w g).setTask p (execute cfg (s.mem p) p exec es).task).enter
      w c r) (hlanes : ScannedFifo.Inv cfg.owner t.lanesView) : AdmissionInv cfg t := by
  have hk := execute_keeps hl hbegan p exec es
  obtain ⟨hstate, -, hdomain, -, -⟩ := keeps_iff.mp hk
  have hset := h.setTask hk
  subst ht
  refine hset.quiet evs hlanes (fun _ _ => Iff.rfl) rfl rfl rfl he ?_ ?_
  · intro w'
    rw [State.enter, setCursor_groups]
    show (((State.setGroups _ w g).workers w').groups).groupMap = _
    rw [setGroups_groups]
    split
    · next hw =>
      rw [hw]
      exact hg
    · rfl
  · apply setCursor_running
    · intro w' c' r' hc' hr'
      apply hset.running w' c' r' _ hr'
      exact (setGroups_cursor (s := { s with log := evs ++ s.log }) w w' g).symm.trans hc'
    · rintro _ r' ⟨⟩ ⟨⟩
      exact hr.setTask hstate hdomain

theorem enter (hl : ∀ id, (cfg.lib id).IgnoresFlags) (h : AdmissionInv cfg s) {a : Admission}
    {c : Cursor α} {exec : Instance} {es : List (LaneRef × Task α)} {g : Groups} {r : Running α}
    {log : List Event} (hlog : log = .admitted a :: .begin a.task exec :: s.log)
    (ho : cfg.owner a.lane = a.worker) (hw : ⟨a.task, false⟩ ∈ s.lanes a.lane)
    (hk : a.key = Groups.laneKey [] a.lane.laneId) (hroot : (s.mem a.task).taskNode.root = a.root)
    (hb : (s.mem a.task).begun = false) (hgrouped : isGrouped cfg (s.mem a.task) = true)
    (hg : CountedGroups.Represents Admission.key Admission.root g.table (a :: inProgress a.worker s.log))
    (hbound : g.Bounded) (hr : RunOk cfg s.mem r) {t : State α}
    (ht : t = (({ s with log := (execute cfg (s.mem a.task) a.task exec es).events ++ log }.setGroups
      a.worker g).setTask a.task (execute cfg (s.mem a.task) a.task exec es).task).enter a.worker c r)
    (hlanes : ScannedFifo.Inv cfg.owner t.lanesView) : AdmissionInv cfg t := by
  have hremote : isRemote cfg (s.mem a.task) = false := by
    simp only [isGrouped, Bool.and_eq_true, Bool.not_eq_true'] at hgrouped
    exact hgrouped.1
  have hevents := execute_ledger cfg (s.mem a.task) a.task exec es
  have hbegin : ∀ e ∈ ([.begin a.task exec] : List Event), e.isLedger = false := by simp [Event.isLedger]
  obtain ⟨hstate, hroot', hdomain⟩ := execute_frame cfg (s.mem a.task) a.task exec es
  have hended := not_ended h.lanes hw
  have hnr : .release a.worker a.task ∉ s.log := fun hr => hended (h.tasks.released _ _ hr)
  subst hlog ht
  refine ⟨hlanes, ?_, ?_, ?_, ?_, ?_⟩
  · have hbefore : TasksInv cfg s.lanes s.mem s.next (.begin a.task exec :: s.log) :=
      h.tasks.quiet (fun _ _ => Iff.rfl) hbegin
    refine (hbefore.enter hw ?_ (lt_next h.lanes hw) ?_ hb ho hk ?_ ?_ ?_).quiet (fun _ _ => Iff.rfl) hevents
    · intro l hl
      exact same_lane h.lanes hl hw
    · simpa using hended
    · exact execute_begun hremote a.task exec es
    · rw [execute_grouped hl, hgrouped]
    · rw [hroot', hroot]
  · intro w
    have hlog : ∀ w, inProgress w ((execute cfg (s.mem a.task) a.task exec es).events ++
        (.admitted a :: .begin a.task exec :: s.log)) = inProgress w (.admitted a :: .begin a.task exec :: s.log) :=
      fun w => inProgress_append hevents
    have hold : ∀ w, inProgress w (.begin a.task exec :: s.log) = inProgress w s.log :=
      fun w => inProgress_append hbegin
    rw [State.enter, setCursor_groups]
    show CountedGroups.Represents _ _ (((State.setGroups _ a.worker g).workers w).groups).table
      (inProgress w (_ ++ (.admitted a :: .begin a.task exec :: s.log)))
    rw [setGroups_groups, hlog, inProgress_admitted, hold]
    by_cases hww : w = a.worker
    · rw [if_pos hww, if_pos ⟨hww.symm, by simpa [hww] using hnr⟩, hww]
      exact hg
    · rw [if_neg hww, if_neg (fun hc => hww hc.1.symm)]
      exact h.groups w
  · intro w
    rw [State.enter, setCursor_groups]
    show (((State.setGroups _ a.worker g).workers w).groups).Bounded
    rw [setGroups_groups]
    split
    · exact hbound
    · exact h.bounded w
  · apply setCursor_running
    · intro w' c' r' hc' hr'
      refine (h.running w' c' r' ?_ hr').setTask hstate hdomain
      exact (setGroups_cursor (s := { s with log := _ }) a.worker w' g).symm.trans hc'
    · rintro _ r' ⟨⟩ ⟨⟩
      exact hr.setTask hstate hdomain
  · intro w p hp
    have hp' : .depthZero w p ∈ (execute cfg (s.mem a.task) a.task exec es).events ∨ .depthZero w p ∈ s.log := by
      simpa [State.enter, State.setCursor, State.setTask, State.setGroups] using hp
    rcases hp' with hp | hp
    · have hl := hevents _ hp
      cases hl
    · exact h.noZero w p hp

end AdmissionInv

theorem AdmissionInv.attempt {s : State α} (hl : ∀ id, (cfg.lib id).IgnoresFlags) (h : AdmissionInv cfg s)
    {w : WorkerId} {c : Cursor α} {p : TaskPtr} {exec : Instance} {es : List (LaneRef × Task α)}
    (ho : cfg.owner c.lane = w) (hp : (s.lanes c.lane)[c.off]? = some ⟨p, false⟩)
    (hexec : exec.id = (s.mem p).taskState) (hes : ∀ e ∈ es, isFresh e.2 = true)
    (hsmall : (inProgress w s.log).countP (fun a => a.key = Groups.laneKey [] c.lane.laneId) + 1 < 2 ^ 32) :
    AdmissionInv cfg (attempt cfg s w c p exec es) := by
  have hlanes : ScannedFifo.Inv cfg.owner (Poll.attempt cfg s w c p exec es).lanesView := by
    rw [lanesView_attempt]
    exact place h.lanes ho hp
  have hcase := attempt_cases cfg s w c p exec es
  generalize Poll.attempt cfg s w c p exec es = t at hcase hlanes ⊢
  cases hcase with
  | skip g hg hskip =>
    refine h.quiet [] hlanes (fun _ _ => Iff.rfl) rfl rfl rfl (by simp) ?_ ?_
    · intro w'
      rw [State.enter, setCursor_groups, setGroups_groups]
      split
      · next hw => rw [hw, hg]
      · rfl
    · apply setCursor_running
      · intro w' c' r hc' hr
        rw [setGroups_cursor] at hc'
        exact h.running w' c' r hc' hr
      · rintro _ r ⟨⟩ ⟨⟩
        exact ⟨hexec, rfl, by simp, by simp⟩
  | run hd hc =>
    have hrun : RunOk cfg s.mem ⟨p, exec, isRemote cfg (s.mem p), (execute cfg (s.mem p) p exec es).mode,
        (execute cfg (s.mem p) p exec es).emplaces, false⟩ :=
      ⟨hexec, rfl, execute_disperse, execute_fresh hes⟩
    by_cases hadm : (!isRemote cfg (s.mem p) && !(s.mem p).isStarted &&
        Groups.isOrdered (cfg.lib exec.id) (s.mem p)) = true
    · have hevents : ∃ a : Admission, a.worker = w ∧ a.task = p ∧ a.lane = c.lane ∧
          a.key = Groups.laneKey [] c.lane.laneId ∧ a.root = (s.mem p).taskNode.root ∧
          admission cfg (s.workers w).groups w c.lane p exec (s.mem p) = [.admitted a] :=
        ⟨_, rfl, rfl, rfl, rfl, rfl, if_pos hadm⟩
      obtain ⟨a, rfl, rfl, hlane, hkey, hroot, hevs⟩ := hevents
      have hlog : attemptEvents cfg s a.worker c a.task exec es ++ s.log =
          (execute cfg (s.mem a.task) a.task exec es).events ++ .admitted a :: .begin a.task exec :: s.log := by
        simp [attemptEvents, hevs]
      simp only [Bool.and_eq_true, Bool.not_eq_true'] at hadm
      obtain ⟨⟨hremote, hstarted⟩, hordered⟩ := hadm
      refine h.enter hl rfl ?_ ?_ ?_ hroot.symm ?_ ?_ ?_ ((h.bounded _).checkTaskGroup _ _ _ _) hrun (by rw [hlog])
        hlanes
      · rw [hlane, ho]
      · rw [hlane]
        exact List.mem_of_getElem? hp
      · rw [hlane, hkey]
      · simp [Task.begun, hstarted, hd]
      · simp [isGrouped, hremote, ← hexec, hordered]
      · rw [hremote] at hc ⊢
        exact Groups.checkTaskGroup_admits (h.groups _) hkey hroot hstarted hordered hsmall hc
    · have hevs : admission cfg (s.workers w).groups w c.lane p exec (s.mem p) = [] := if_neg hadm
      have hnot : isRemote cfg (s.mem p) = true ∨ (s.mem p).isStarted = true ∨
          Groups.isOrdered (cfg.lib exec.id) (s.mem p) = false := by
        cases hr : isRemote cfg (s.mem p) <;> cases hs : (s.mem p).isStarted <;> simp_all
      refine h.resume hl ?_ ?_ ?_ hrun rfl hlanes
      · intro hg
        rw [isGrouped, Bool.and_eq_true, ← hexec] at hg
        rcases hnot with hr | hs | ho'
        · simp [hr] at hg
        · simp [Task.begun, hs]
        · simp [ho'] at hg
      · apply Groups.checkTaskGroup_unchanged
        tauto
      · intro e he
        rw [attemptEvents, hevs, List.nil_append] at he
        rcases List.mem_append.mp he with he | he
        · exact execute_ledger cfg _ _ _ _ e he
        · rw [List.mem_singleton.mp he]
          rfl

namespace AdmissionInv

variable {s t : State α}

theorem removed (h : AdmissionInv cfg s) {w : WorkerId} {l : LaneRef} {p : TaskPtr} (exec : Instance)
    (remote : Bool) (ho : cfg.owner l = w) (hp : ⟨p, false⟩ ∈ s.lanes l)
    (hexec : exec.id = (s.mem p).taskState) (hremote : remote = isRemote cfg (s.mem p))
    (hm : (s.mem p).isModuleComplete = true) :
    ((s.workers w).groups.removeTaskGroup (cfg.lib exec.id) (s.mem p) l.laneId remote).1 = false ∧
      CountedGroups.Represents Admission.key Admission.root
        ((s.workers w).groups.removeTaskGroup (cfg.lib exec.id) (s.mem p) l.laneId remote).2.table
        ((inProgress w s.log).filter (fun a => a.task ≠ p)) := by
  by_cases hg : isGrouped cfg (s.mem p) = true
  · obtain ⟨a, ha, rfl⟩ := h.tasks.admitted l p hp (h.tasks.early l p hp hg hm) hg
    rw [ho] at ha
    have hpl := h.tasks.placed w a ha
    have hlane : a.lane = l := same_lane h.lanes hpl.waiting hp
    simp only [isGrouped, Bool.and_eq_true, Bool.not_eq_true', ← hexec, ← hremote] at hg
    have hnodup : ((inProgress w s.log).map (·.task)).Nodup :=
      h.tasks.once.sublist (List.filter_sublist.map _)
    have hperm := CountedGroups.perm_cons_filter Admission.task hnodup ha
    rw [hg.1]
    apply Groups.removeTaskGroup_releases ((h.groups w).perm hperm) _ hg.2
    · exact fun n => h.bounded w _ n
    · rw [hpl.key, hlane]
  · have hnone : (inProgress w s.log).filter (fun a => a.task ≠ p) = inProgress w s.log := by
      apply List.filter_eq_self.mpr
      intro a ha
      have hpl := h.tasks.placed w a ha
      simp only [ne_eq, decide_not, Bool.not_eq_true', decide_eq_false_iff_not]
      rintro rfl
      exact hg hpl.grouped
    have hnot : remote = true ∨ Groups.isOrdered (cfg.lib exec.id) (s.mem p) = false := by
      simp only [isGrouped, Bool.and_eq_true, Bool.not_eq_true', not_and_or, Bool.not_eq_false,
        Bool.not_eq_true, ← hexec, ← hremote] at hg
      exact hg
    obtain ⟨hfatal, hmap⟩ := Groups.removeTaskGroup_unchanged (s.workers w).groups l.laneId hnot
    refine ⟨hfatal, ?_⟩
    have htable : ((s.workers w).groups.removeTaskGroup (cfg.lib exec.id) (s.mem p) l.laneId remote).2.table =
        (s.workers w).groups.table := by
      funext k
      simp only [Groups.table, hmap]
    rw [hnone, htable]
    exact h.groups w

theorem release (h : AdmissionInv cfg s) (hh : s.halted = false) {w : WorkerId} {c : Cursor α} {p : TaskPtr}
    (before after : List Event) {g : Groups} (ho : cfg.owner c.lane = w)
    (hp : (s.lanes c.lane)[c.off]? = some ⟨p, false⟩) (hlanes : ScannedFifo.Inv cfg.owner t.lanesView)
    (hview : t.lanesView = s.lanesView.endAt w c.lane c.off p) (hmem : ∀ q, q ≠ p → t.mem q = s.mem q)
    (hlog : t.log = after ++ (.endTask p :: .release w p :: (before ++ s.log)))
    (hbefore : ∀ e ∈ before, e.isLedger = false) (hafter : ∀ e ∈ after, e.isLedger = false)
    (hgroups : ∀ w', (t.workers w').groups = if w' = w then g else (s.workers w').groups)
    (hcursor : ∀ w' x r, (t.workers w').cursor = some x → x.running = some r →
      w' ≠ w ∧ (s.workers w').cursor = some x)
    (hg : CountedGroups.Represents Admission.key Admission.root g.table
      ((inProgress w s.log).filter (fun a => a.task ≠ p))) (hbound : g.Bounded) : AdmissionInv cfg t := by
  have hmark : ∀ e ∈ ([.endTask p] : List Event), e.isLedger = false := by simp [Event.isLedger]
  have hwait := List.mem_of_getElem? hp
  have hlog' : t.log = (after ++ [.endTask p]) ++ (.release w p :: (before ++ s.log)) := by
    rw [hlog, List.append_assoc, List.singleton_append]
  have hquiet : ∀ e ∈ after ++ [.endTask p], e.isLedger = false := by
    intro e he
    rcases List.mem_append.mp he with he | he
    · exact hafter e he
    · exact hmark e he
  have hnext : t.next = s.next := by
    have hn := congrArg ScannedFifo.State.next hview
    unfold ScannedFifo.State.endAt ScannedFifo.State.popHead at hn
    dsimp only [State.lanesView] at hn
    split_ifs at hn
    · split at hn <;> exact hn
    · exact hn
  refine ⟨hlanes, ?_, ?_, ?_, ?_, ?_⟩
  · rw [hnext]
    apply h.tasks.release (w := w) (p := p) _ _ hmem
    · rw [hlog', admissions_append hquiet]
      exact admissions_append hbefore
    · intro w' q
      rw [hlog', release_mem_append hquiet, List.mem_cons, release_mem_append hbefore, Event.release.injEq]
    · rintro q (rfl | hq)
      · simp [hlog]
      · simp [hlog, hq]
    · intro l q
      have hl : t.lanes = (s.lanesView.endAt w c.lane c.off p).lanes := congrArg ScannedFifo.State.lanes hview
      rw [hl]
      exact h.lanes.waiting_endAt hp l q
    · intro l hl
      rw [same_lane h.lanes hl hwait, ho]
  · intro w'
    rw [hgroups, hlog', inProgress_append hquiet]
    by_cases hw : w' = w
    · subst hw
      rw [if_pos rfl, inProgress_release, inProgress_append hbefore]
      exact hg
    · rw [if_neg hw, inProgress_release_ne hw, inProgress_append hbefore]
      exact h.groups w'
  · intro w'
    rw [hgroups]
    split
    · exact hbound
    · exact h.bounded w'
  · intro w' x r hx hr
    obtain ⟨hw, hx⟩ := hcursor w' x r hx hr
    have hok := h.running w' x r hx hr
    have hne : r.task ≠ p := by
      intro heq
      have hwait' := List.mem_of_getElem? (running_waits h.lanes hh hx hr)
      rw [heq] at hwait'
      have howner : cfg.owner x.lane = w' := h.lanes.owned w' _ (lanesView_places hx)
      rw [same_lane h.lanes hwait' hwait, ho] at howner
      exact hw howner.symm
    refine { hok with exec := ?_, remote := ?_ } <;> rw [hmem _ hne]
    · exact hok.exec
    · exact hok.remote
  · intro w' q hq
    rw [hlog'] at hq
    rcases List.mem_append.mp hq with hq | hq
    · have hl := hquiet _ hq
      cases hl
    · have hq' : .depthZero w' q ∈ before ++ s.log := by simpa using hq
      rcases List.mem_append.mp hq' with hq | hq
      · have hl := hbefore _ hq
        cases hl
      · exact h.noZero w' q hq

theorem ranTask_keeps (h : AdmissionInv cfg s) (hh : s.halted = false) {w : WorkerId} {c : Cursor α}
    {r : Running α} {out : Task α} (hc : (s.workers w).cursor = some c) (hr : c.running = some r)
    (hout : r.mode.runs = true → keeps cfg (s.mem r.task) out = true) :
    keeps cfg (s.mem r.task) (ranTask r (s.mem r.task) out) = true := by
  have hok := h.running w c r hc hr
  have hwait := List.mem_of_getElem? (running_waits h.lanes hh hc hr)
  have hself : keeps cfg (s.mem r.task) (s.mem r.task) = true := by
    refine keeps_iff.mpr ⟨rfl, rfl, rfl, rfl, fun hg => ⟨rfl, ?_⟩⟩
    exact h.tasks.early _ _ hwait hg
  rcases ranTask_cases r (s.mem r.task) out with ⟨hruns, heq⟩ | ⟨-, heq⟩ | ⟨hm, heq⟩
  · rw [heq]
    exact hout hruns
  · rw [heq]
    exact hself
  · rw [heq]
    have hremote : isRemote cfg (s.mem r.task) = true := by
      rw [← hok.remote, hok.disperse hm]
    have hgroup : isGrouped cfg (s.mem r.task) = false := by
      simp [isGrouped, hremote]
    refine keeps_iff.mpr ⟨rfl, rfl, rfl, ?_, by simp [hgroup]⟩
    have hremote' : isRemote cfg ((s.mem r.task).disableRun.setUnordered.unsetCoroutine) = true := hremote
    simp [isGrouped, hremote, hremote']

theorem isLedger_of_isCleanup {e : Event} (h : e.isCleanup = true) : e.isLedger = false := by
  cases e <;> first | rfl | cases h

theorem finish (h : AdmissionInv cfg s) (hh : s.halted = false) {w : WorkerId} {l : LaneRef} {i off : ℕ}
    {r : Running α} {out : Task α} (hc : (s.workers w).cursor = some ⟨l, i, off, some r⟩)
    (hout : r.mode.runs = true → keeps cfg (s.mem r.task) out = true)
    (hlanes : ScannedFifo.Inv cfg.owner (Poll.finish cfg s w ⟨l, i, off, none⟩ r out).lanesView) :
    AdmissionInv cfg (Poll.finish cfg s w ⟨l, i, off, none⟩ r out) := by
  have hp := running_waits h.lanes hh hc rfl
  have ho : cfg.owner l = w := h.lanes.owned w _ (lanesView_places hc)
  have hcase := finish_cases cfg s w ⟨l, i, off, none⟩ r out
  have hk := ranTask_keeps h hh hc rfl hout
  generalize ranTask r (s.mem r.task) out = x at hcase hk
  have hset := h.setTask hk
  have hok := hset.running w _ r hc rfl
  have hself : (s.setTask r.task x).mem r.task = x := by simp [State.setTask]
  have hrem (hm : x.isModuleComplete = true) := removed hset r.exec r.isRemote ho
    (List.mem_of_getElem? hp) hok.exec hok.remote (by rw [hself]; exact hm)
  rw [hself] at hrem
  generalize Poll.finish cfg s w ⟨l, i, off, none⟩ r out = t at hcase hlanes ⊢
  cases hcase with
  | again hm =>
    refine hset.quiet [] hlanes (fun _ _ => Iff.rfl) rfl rfl rfl (by simp) ?_ ?_
    · intro w'
      rw [State.nextPass, setCursor_groups]
    · apply setCursor_running hset.running
      rintro _ r' ⟨⟩ ⟨⟩
  | fatal hm u hu hz =>
    have hno := (hrem hm).1
    rw [show (s.setTask r.task x).workers = s.workers from rfl, hz] at hno
    cases hno
  | done hm u v hu hv =>
    obtain ⟨before, hlog, hbefore⟩ := (s.setTask r.task x).cleanup_log x ⟨l, i, off, none⟩ r.task
    obtain ⟨after, hafterLog, hafter⟩ := v.endTask_log ⟨l, i, off, none⟩ r.task true
    have hvw : v.workers = ((s.setTask r.task x).setGroups w ((s.workers w).groups.removeTaskGroup
        (cfg.lib r.exec.id) x l.laneId r.isRemote).2).workers := by
      rw [hv, hu]
      simp only [State.emit, State.setGroups, State.cleanup_workers]
    refine hset.release (c := ⟨l, i, off, none⟩) hh before after ho hp hlanes ?_ ?_ ?_
      (fun e he => isLedger_of_isCleanup (hbefore e he)) (fun e he => isLedger_of_isCleanup (hafter e he))
      ?_ ?_ (hrem hm).2 ?_
    · apply State.lanesView_end
      rw [hv, State.lanesView_emit_none _ rfl, State.lanesView_setGroups, hu, State.lanesView_cleanup]
    · intro q hq
      show (v.endTask _ _ _).1.mem q = _
      rw [State.endTask_mem _ _ _ _ hq, hv, hu]
      show (State.cleanup _ _ _ _).mem q = _
      rw [State.cleanup_mem]
    · show (v.endTask _ _ _).1.log = _
      rw [hafterLog, hv]
      show after ++ (.endTask r.task :: .release w r.task :: u.log) = _
      rw [hu, hlog]
    · intro w'
      rw [State.nextPass, setCursor_groups, State.endTask_workers, hvw, setGroups_groups]
      rfl
    · intro w' y r' hy hr'
      by_cases hw : w' = w
      · subst hw
        rw [State.nextPass, State.setCursor_cursor, Option.some.injEq] at hy
        rw [← hy] at hr'
        cases hr'
      · refine ⟨hw, ?_⟩
        rw [State.nextPass, State.setCursor_workers_other _ _ hw, State.endTask_workers, hvw,
          State.setGroups_workers_other _ _ hw] at hy
        exact hy
    · exact (h.bounded w).removeTaskGroup _ _ _ _

theorem leave (h : AdmissionInv cfg s) {w : WorkerId}
    (hlanes : ScannedFifo.Inv cfg.owner (s.setCursor w none).lanesView) : AdmissionInv cfg (s.setCursor w none) := by
  refine h.quiet [] hlanes (fun _ _ => Iff.rfl) rfl rfl rfl (by simp) ?_ ?_
  · intro w'
    rw [setCursor_groups]
  · apply setCursor_running h.running
    rintro _ r ⟨⟩

theorem popMarked (h : AdmissionInv cfg s) {w : WorkerId} {c : Cursor α} {p : TaskPtr}
    (hp : (s.lanes c.lane)[c.off]? = some ⟨p, true⟩)
    (hlanes : ScannedFifo.Inv cfg.owner ((s.popTask c).1.nextPass w (s.popTask c).2).lanesView) :
    AdmissionInv cfg ((s.popTask c).1.nextPass w (s.popTask c).2) := by
  obtain ⟨evs, hlog, hevs⟩ := s.popTask_log c
  refine h.quiet evs hlanes ?_ (s.popTask_mem c) (s.popTask_next c) hlog ?_ ?_ ?_
  · intro l q
    have hl : (s.popTask c).1.lanes = if c.off = 0 then (s.lanesView.popHead c.lane).lanes else s.lanes := by
      have hv := congrArg ScannedFifo.State.lanes (s.lanesView_popTask c)
      rw [apply_ite ScannedFifo.State.lanes] at hv
      exact hv
    show _ ∈ (s.popTask c).1.lanes l ↔ _
    rw [hl]
    by_cases hoff : c.off = 0
    · rw [if_pos hoff]
      apply ScannedFifo.Inv.waiting_popHead (s := s.lanesView)
      intro e he
      have he' : s.lanesView.lanes c.lane = s.lanes c.lane := rfl
      rw [List.head?_eq_getElem?, he', ← hoff, hp, Option.some.injEq] at he
      rw [← he]
    · rw [if_neg hoff]
  · exact fun e he => isLedger_of_isCleanup (hevs e he)
  · intro w'
    rw [State.nextPass, setCursor_groups, State.popTask_workers]
  · apply setCursor_running
    · rw [State.popTask_workers]
      exact h.running
    · rintro _ r ⟨⟩ ⟨⟩

theorem scan (hl : ∀ id, (cfg.lib id).IgnoresFlags) (hfatal : cfg.fatalReturns = false)
    (h : AdmissionInv cfg s) {w : WorkerId} {l : LaneRef} {i off : ℕ} {es : List (LaneRef × Task α)}
    (hc : (s.workers w).cursor = some ⟨l, i, off, none⟩) (hes : ∀ e ∈ es, isFresh e.2 = true)
    (hsmall : (inProgress w s.log).countP (fun a => a.key = Groups.laneKey [] l.laneId) + 1 < 2 ^ 32)
    (hlanes : ScannedFifo.Inv cfg.owner (Poll.scan cfg s w ⟨l, i, off, none⟩ es).lanesView) :
    AdmissionInv cfg (Poll.scan cfg s w ⟨l, i, off, none⟩ es) := by
  have ho : cfg.owner l = w := h.lanes.owned w _ (lanesView_places hc)
  have visited (p : TaskPtr) (hp : (s.lanes l)[off]? = some ⟨p, false⟩) : AdmissionInv cfg (s.emit (.deref p)) := by
    have hderef : ScannedFifo.Inv cfg.owner (s.emit (.deref p)).lanesView := by
      rw [State.lanesView_emit_some s rfl]
      exact h.lanes.deref (h.lanes.waiting l _ (List.mem_of_getElem? hp) rfl)
    exact h.quiet [.deref p] hderef (fun _ _ => Iff.rfl) rfl rfl rfl (by simp [Event.isLedger])
      (fun _ => rfl) h.running
  have hcase := scan_cases cfg s w ⟨l, i, off, none⟩ es
  generalize Poll.scan cfg s w ⟨l, i, off, none⟩ es = t at hcase hlanes ⊢
  cases hcase with
  | stop => exact h.leave hlanes
  | passOver p hp => exact h.popMarked hp hlanes
  | fatalReturn p hp hf u hu =>
    rw [hfatal] at hf
    cases hf
  | fatal p hp hf =>
    have hs := visited p hp
    exact hs.quiet [] hlanes (fun _ _ => Iff.rfl) rfl rfl rfl (by simp) (fun _ => rfl) hs.running
  | attempt p gen hp hgen =>
    have hcount : inProgress w (s.emit (.deref p)).log = inProgress w s.log :=
      inProgress_cons rfl
    apply (visited p hp).attempt (c := ⟨l, i, off, none⟩) hl ho hp rfl hes
    rw [hcount]
    exact hsmall

end AdmissionInv

variable (cfg)

/-- What the accounting needs of those who create, run and write tasks, and of the sizes: fresh tasks are
enqueued, what the accounting rests on is kept, and `node_depth_` does not overflow. -/
def lawful (s : State α) : Label α → Bool
  | .emplace _ t => isFresh t
  | .scan w es => es.all (fun e => isFresh e.2) && match (s.workers w).cursor with
    | some c => (inProgress w s.log).countP (fun a => a.key = Groups.laneKey [] c.lane.laneId) + 1 < 2 ^ 32
    | none => true
  | .finish w out => match (s.workers w).cursor with
    | some ⟨_, _, _, some r⟩ => !r.mode.runs || keeps cfg (s.mem r.task) out
    | _ => true
  | .write p t => keeps cfg (s.mem p) t
  | _ => true

variable {cfg}

theorem step_admissionInv (hl : ∀ id, (cfg.lib id).IgnoresFlags) (hfatal : cfg.fatalReturns = false)
    {s t : State α} {i : Label α} (h : AdmissionInv cfg s) (hst : step cfg s i = some t)
    (hlaw : lawful cfg s i = true) : AdmissionInv cfg t := by
  have hlanes := step_lanesInv h.lanes hst
  obtain ⟨hh, htr⟩ := step_transition hst
  cases htr with
  | emplace l x _ _ => exact h.emplace hh l hlaw
  | poll w l hc ho =>
    refine h.quiet [] hlanes (fun _ _ => Iff.rfl) rfl rfl rfl (by simp) ?_ ?_
    · intro w'
      rw [AdmissionInv.setCursor_groups]
    · apply AdmissionInv.setCursor_running h.running
      rintro _ r ⟨⟩ ⟨⟩
  | scan w es l i off hc _ =>
    simp only [lawful, hc, Bool.and_eq_true, List.all_eq_true, decide_eq_true_eq] at hlaw
    exact h.scan hl hfatal hc hlaw.1 hlaw.2 hlanes
  | put w l i off p exec remote mode dst x es b hc _ =>
    have hok := h.running w _ _ hc rfl
    have hput := h.emplace hh dst (hok.fresh (dst, x) List.mem_cons_self)
    have hrun := hput.running w _ _ (by rw [State.emplace_workers]; exact hc) rfl
    refine hput.quiet [] hlanes (fun _ _ => Iff.rfl) rfl rfl rfl (by simp) ?_ ?_
    · intro w'
      rw [State.enter, AdmissionInv.setCursor_groups]
    · apply AdmissionInv.setCursor_running hput.running
      rintro _ r ⟨⟩ ⟨⟩
      exact { hrun with fresh := fun e he => hrun.fresh e (List.mem_cons_of_mem _ he) }
  | block w l i off p exec remote mode dst x es b hc _ =>
    have hok := h.running w _ _ hc rfl
    refine h.quiet [] hlanes (fun _ _ => Iff.rfl) rfl rfl rfl (by simp) ?_ ?_
    · intro w'
      rw [State.enter, AdmissionInv.setCursor_groups]
    · apply AdmissionInv.setCursor_running h.running
      rintro _ r ⟨⟩ ⟨⟩
      exact { hok with }
  | registry w op l i off r hc _ =>
    obtain ⟨states, next, heq⟩ := registryOp_eq s op
    rw [heq] at hlanes ⊢
    exact h.quiet [] hlanes (fun _ _ => Iff.rfl) rfl rfl rfl (by simp) (fun _ => rfl) h.running
  | finish w out l i off r hc _ _ =>
    refine h.finish hh hc ?_ hlanes
    intro hr
    simpa [lawful, hc, hr] using hlaw
  | write p x _ _ => exact h.setTask hlaw

theorem admissionInv_init (mem : TaskPtr → Task α) (registered : TaskStateId → Bool) :
    AdmissionInv cfg (State.init mem registered) := by
  refine ⟨lanesView_init mem registered, ?_, fun _ => CountedGroups.Represents.empty, ?_, ?_, ?_⟩
  · constructor <;> simp [State.init, admissions, inProgress]
  · simp [State.init, Groups.empty, Groups.Bounded]
  · simp [State.init]
  · simp [State.init]

theorem admissionInv_of_run (hl : ∀ id, (cfg.lib id).IgnoresFlags) (hfatal : cfg.fatalReturns = false)
    {mem : TaskPtr → Task α} {registered : TaskStateId → Bool} {is : List (Label α)} {t : State α}
    (hlaw : Along (step cfg) (fun s i _ => lawful cfg s i = true) (State.init mem registered) is)
    (hrun : run (step cfg) (State.init mem registered) is = some t) : AdmissionInv cfg t := by
  apply run_invariant (I := AdmissionInv cfg) _ (admissionInv_init mem registered) hlaw hrun
  intro s i t hs hst hi
  exact step_admissionInv hl hfatal hs hst hi

end HermesRun.Poll
