import HermesRun.Worker.Passes

/-!
Whether a group that has become free goes to the task that has waited for it longest. The lanes are in the order of
the enqueues; a pass refuses the tasks of other roots while a group is held and does not come back to them when the
last task of the group ends further down the lane.
-/

namespace HermesRun.Poll

open Runs

variable {α : Type}

def State.isAdmitted (s : State α) (q : TaskPtr) : Bool := (admissions s.log).any fun a => a.task = q

def newAdmissions (s t : State α) : List Admission :=
  (admissions t.log).take ((admissions t.log).length - (admissions s.log).length)

section Definitions

variable (cfg : Config α)

def waits (s : State α) (q : TaskPtr) : Bool :=
  isGrouped cfg (s.mem q) && !(s.mem q).isRunDisabled && !s.isAdmitted q

def waiters (s : State α) (w : WorkerId) (l : LaneRef) (key : Charbuf) : List TaskPtr :=
  ((s.lanes l).filter fun e => !e.complete && waits cfg s e.p && admissionKey cfg s w l e.p = key).map (·.p)

def HandedOver (s t : State α) : Prop :=
  ∀ a ∈ newAdmissions s t, (s.workers a.worker).groups.groupMap a.key = none →
    (waiters cfg s a.worker a.lane a.key).head? = some a.task

instance (s t : State α) : Decidable (HandedOver cfg s t) :=
  inferInstanceAs (Decidable (∀ a ∈ newAdmissions s t, _ → _))

def keepsPlace (t out : Task α) : Bool :=
  out.domainId = t.domainId && (!isGrouped cfg out || isGrouped cfg t && out.begun = t.begun)

def orderly (s : State α) : Label α → Bool
  | .emplace _ t => !t.begun
  | .scan _ es => es.all fun e => !e.2.begun
  | .finish w out => (s.running w).all fun r => !r.mode.runs || keepsPlace cfg (s.mem r.task) out
  | .write p t => keepsPlace cfg (s.mem p) t
  | _ => true

def endsGroup (s : State α) (w : WorkerId) (l : LaneRef) (r : Running α) (x : Task α) : Bool :=
  x.isModuleComplete && !r.isRemote && Groups.isOrdered (cfg.lib r.exec.id) x &&
    ((s.workers w).groups.groupMap (Groups.laneKey [] l.laneId)).any fun n => n.nodeDepth = 1

def missed (s : State α) (l : LaneRef) : Bool :=
  (s.workers (cfg.owner l)).cursor.any fun c => c.lane = l &&
    ((s.workers (cfg.owner l)).groups.groupMap (Groups.laneKey [] l.laneId)).isNone &&
    ((s.lanes l).take (if c.running.isSome then c.off + 1 else c.off)).any fun e => !e.complete && waits cfg s e.p

/-- Where a step ends the last task of a group, waiting tasks do not stand both before and behind it in the lane, and
none is enqueued behind one that has been missed. -/
def noneLeftBehind (s : State α) : Label α → Bool
  | .finish w out => (s.workers w).cursor.all fun c => c.running.all fun r =>
      !endsGroup cfg s w c.lane r (ranTask r (s.mem r.task) out) ||
        (((s.lanes c.lane).take c.off).all fun e => e.complete || !waits cfg s e.p) ||
        ((s.lanes c.lane).drop (c.off + 1)).all fun e => e.complete || !waits cfg s e.p
  | .emplace l t => !missed cfg s l || !isGrouped cfg t
  | .put w => (s.running w).all fun r => r.emplaces.all fun e => !missed cfg s e.1 || !isGrouped cfg e.2
  | _ => true

end Definitions

/-- What keeps the tasks in their order: a task that goes through the group map has begun exactly if it was
admitted, and a group for which the pass of its worker has refused a task is held, or the pass has none to come to. -/
structure OrderInv (cfg : Config α) (s : State α) : Prop where
  lanes : ScannedFifo.Inv cfg.owner s.lanesView
  bounded : ∀ w, (s.workers w).groups.Bounded
  off : ∀ w c, (s.workers w).cursor = some c → c.off ≤ (s.lanes c.lane).length
  known : ∀ q, s.isAdmitted q = true → q < s.next
  begun : ∀ q, q < s.next → .endTask q ∉ s.log → isGrouped cfg (s.mem q) = true →
    ((s.mem q).begun = true ↔ s.isAdmitted q = true)
  remote : ∀ w r, s.running w = some r → r.mode = .disperse → isRemote cfg (s.mem r.task) = true
  fresh : ∀ w r e, s.running w = some r → e ∈ r.emplaces → e.2.begun = false
  held : ∀ w c q, (s.workers w).cursor = some c → Passed s c q → waits cfg s q = true →
    (s.workers w).groups.groupMap (Groups.laneKey [] c.lane.laneId) ≠ none ∨
      ∀ q', Ahead s c q' → waits cfg s q' = false

section Tasks

variable {cfg : Config α} {s t : State α} {i : Label α}

theorem keepsPlace_iff {x out : Task α} : keepsPlace cfg x out = true ↔ out.domainId = x.domainId ∧
    (isGrouped cfg out = true → isGrouped cfg x = true ∧ out.begun = x.begun) := by
  have hb : (!isGrouped cfg out || isGrouped cfg x && out.begun = x.begun) = true ↔
      (isGrouped cfg out = true → isGrouped cfg x = true ∧ out.begun = x.begun) := by
    cases isGrouped cfg out <;> simp
  simp only [keepsPlace, Bool.and_eq_true, decide_eq_true_eq, hb]

theorem keepsPlace_refl (x : Task α) : keepsPlace cfg x x = true :=
  keepsPlace_iff.mpr ⟨rfl, fun h => ⟨h, rfl⟩⟩

theorem not_grouped_of_remote {x : Task α} (h : isRemote cfg x = true) : isGrouped cfg x = false := by
  simp [isGrouped, h]

theorem keepsPlace_ranTask {r : Running α} {x out : Task α} (hout : r.mode.runs = true → keepsPlace cfg x out = true)
    (hr : r.mode = .disperse → isRemote cfg x = true) : keepsPlace cfg x (ranTask r x out) = true := by
  rcases ranTask_cases r x out with ⟨hruns, heq⟩ | ⟨-, heq⟩ | ⟨hm, heq⟩
  · rw [heq]
    exact hout hruns
  · rw [heq]
    exact keepsPlace_refl x
  · rw [heq]
    have hremote : isRemote cfg x.disableRun.setUnordered.unsetCoroutine = true := hr hm
    refine keepsPlace_iff.mpr ⟨rfl, ?_⟩
    rw [not_grouped_of_remote hremote]
    intro hfalse
    cases hfalse

theorem orderly_finish {w : WorkerId} {out : Task α} {r : Running α} (ho : orderly cfg s (.finish w out) = true)
    (hr : s.running w = some r) (h : r.mode.runs = true) : keepsPlace cfg (s.mem r.task) out = true := by
  simpa [orderly, hr, h] using ho

def Begins (cfg : Config α) (s t : State α) (i : Label α) (q : TaskPtr) : Prop :=
  ∃ w es exec, i = .scan w es ∧ t.running w = some (started cfg (s.mem q) q exec es) ∧
    t.mem q = (execute cfg (s.mem q) q exec es).task

theorem step_place (hfatal : cfg.fatalReturns = false) (h : OrderInv cfg s) (hst : step cfg s i = some t)
    (ho : orderly cfg s i = true) {q : TaskPtr} (hq : q < s.next) (hend : .endTask q ∉ t.log) :
    keepsPlace cfg (s.mem q) (t.mem q) = true ∨ Begins cfg s t i q := by
  change ¬t.tasksView.ended q at hend
  cases (step_tasks hfatal h.lanes hst).move hq with
  | same hm =>
    left
    rw [show t.mem q = s.mem q from hm]
    exact keepsPlace_refl _
  | start w es exec hi hidle hr hm => exact Or.inr ⟨w, es, exec, hi, hr, hm⟩
  | ran w out r hi hr ht he hm =>
    subst hi ht
    rcases hm with hm | ⟨-, hended, -⟩
    · left
      rw [show t.mem r.task = ranTask r (s.mem r.task) out from hm]
      exact keepsPlace_ranTask (orderly_finish ho hr) (h.remote w r hr)
    · exact absurd hended hend
  | write x hi hm =>
    subst hi
    left
    rw [show t.mem q = x from hm]
    exact ho

theorem isAdmitted_iff (s : State α) (q : TaskPtr) : s.isAdmitted q = true ↔ ∃ a ∈ admissions s.log, a.task = q := by
  simp [State.isAdmitted]

theorem isAdmitted_mono (hst : step cfg s i = some t) {q : TaskPtr} (h : s.isAdmitted q = true) :
    t.isAdmitted q = true := by
  obtain ⟨evs, hlog⟩ := step_log hst
  obtain ⟨a, ha, hq⟩ := (isAdmitted_iff s q).mp h
  refine (isAdmitted_iff t q).mpr ⟨a, ?_, hq⟩
  rw [hlog, admissions, List.filterMap_append]
  exact List.mem_append_right _ ha

structure Admits (cfg : Config α) (s t : State α) (w : WorkerId) (c : Cursor α) (r : Running α) : Prop where
  takes : ∃ es, Takes cfg s t w c r.task es
  running : t.running w = some r
  mode : r.mode ≠ .skip
  grouped : isGrouped cfg (s.mem r.task) = true
  notBegun : (s.mem r.task).begun = false
  admissions : admissions t.log = admissionOf cfg s w c.lane r.task :: admissions s.log

theorem step_admits (hst : step cfg s i = some t) : admissions t.log = admissions s.log ∨
    ∃ w es c r, i = .scan w es ∧ Admits cfg s t w c r := by
  by_cases hscan : ∃ w es, i = .scan w es
  · obtain ⟨w, es, rfl⟩ := hscan
    rcases scan_takes hst with hpass | ⟨c, p, htakes⟩
    · exact Or.inl hpass.admissions
    · obtain ⟨r, hc, rfl, hskip | hruns⟩ := htakes.cases
      · exact Or.inl hskip.admissions
      · have hadm := hruns.admissions
        split_ifs at hadm with hcond
        · rw [Bool.and_eq_true, Bool.not_eq_true'] at hcond
          refine Or.inr ⟨w, es, c, r, rfl, ⟨es, htakes⟩, ?_, hruns.mode, hcond.1, ?_, hadm⟩
          · rw [State.running, hc]
            rfl
          · rw [Task.begun, hcond.2, hruns.enabled]
            rfl
        · exact Or.inl hadm
  · exact Or.inl (step_admissions hst fun w es hi => hscan ⟨w, es, hi⟩)

theorem scan_begins (hfatal : cfg.fatalReturns = false) (h : ScannedFifo.Inv cfg.owner s.lanesView) {w : WorkerId}
    {es : List (LaneRef × Task α)} (hst : step cfg s (.scan w es) = some t) {r : Running α}
    (hr : t.running w = some r) (hm : r.mode ≠ .skip) : Begins cfg s t (.scan w es) r.task := by
  obtain ⟨-, -, ⟨hskip, -⟩ | ⟨exec, heq, hmem⟩⟩ := (step_tasks hfatal h hst).scanned hr
  · exact absurd hskip hm
  · refine ⟨w, es, exec, rfl, ?_, hmem⟩
    rw [hr]
    exact congrArg some heq

theorem Begins.admits (hst : step cfg s i = some t) {q : TaskPtr} (h : Begins cfg s t i q)
    (hg : isGrouped cfg (s.mem q) = true) (hs : (s.mem q).isStarted = false) : t.isAdmitted q = true := by
  obtain ⟨w, es, exec, rfl, hr, -⟩ := h
  rcases scan_takes hst with hpass | ⟨c, p, htakes⟩
  · rw [hpass.running] at hr
    cases hr
  · obtain ⟨r, hc, rfl, hcase⟩ := htakes.cases
    have hrr : r = started cfg (s.mem q) q exec es := by
      rw [State.running, hc] at hr
      exact Option.some.inj hr
    have htask : r.task = q := by rw [hrr]; rfl
    rcases hcase with hskip | hruns
    · have hmode := hskip.mode
      rw [hrr] at hmode
      change (execute cfg (s.mem q) q exec es).mode = .skip at hmode
      unfold execute at hmode
      split_ifs at hmode
    · have hadm := hruns.admissions
      rw [htask, hg, hs] at hadm
      refine (isAdmitted_iff t q).mpr ⟨admissionOf cfg s w c.lane q, ?_, rfl⟩
      rw [hadm]
      exact List.mem_cons_self

theorem execute_isGrouped_begun {x : Task α} {p : TaskPtr} {exec : Instance} {es : List (LaneRef × Task α)}
    (hl : ∀ id, (cfg.lib id).IgnoresFlags) (h : isGrouped cfg (execute cfg x p exec es).task = true) :
    isGrouped cfg x = true ∧ (execute cfg x p exec es).task.begun = true := by
  rw [AdmissionInv.execute_grouped hl] at h
  refine ⟨h, AdmissionInv.execute_begun ?_ p exec es⟩
  simp only [isGrouped, Bool.and_eq_true, Bool.not_eq_true'] at h
  exact h.1

theorem step_newTask (hfatal : cfg.fatalReturns = false) (h : OrderInv cfg s) (hst : step cfg s i = some t)
    (ho : orderly cfg s i = true) {q : TaskPtr} (hold : s.next ≤ q) (hq : q < t.next) :
    (t.mem q).begun = false ∧ ∀ w es, i ≠ .scan w es := by
  obtain ⟨-, ⟨l, rfl⟩ | ⟨w, r, dst, es, rfl, hr, he⟩⟩ := (step_tasks hfatal h.lanes hst).made hold hq
  · refine ⟨?_, by simp⟩
    show (t.tasksView.mem q).begun = false
    simpa [orderly] using ho
  · refine ⟨?_, by simp⟩
    exact h.fresh w r (dst, t.mem q) hr (by rw [he]; exact List.mem_cons_self)

theorem step_begun (hl : ∀ id, (cfg.lib id).IgnoresFlags) (hfatal : cfg.fatalReturns = false) (h : OrderInv cfg s)
    (hst : step cfg s i = some t) (ho : orderly cfg s i = true) {q : TaskPtr} (hq : q < t.next)
    (hend : .endTask q ∉ t.log) (hg : isGrouped cfg (t.mem q) = true) :
    (t.mem q).begun = true ↔ t.isAdmitted q = true := by
  by_cases hold : q < s.next
  · have hend' : .endTask q ∉ s.log := by
      obtain ⟨evs, hlog⟩ := step_log hst
      intro hmem
      rw [hlog] at hend
      exact hend (List.mem_append_right _ hmem)
    rcases step_place hfatal h hst ho hold hend with hkeep | hbegins
    · obtain ⟨hgs, hb⟩ := (keepsPlace_iff.mp hkeep).2 hg
      rw [hb, h.begun q hold hend' hgs]
      refine ⟨isAdmitted_mono hst, ?_⟩
      intro hadm
      rcases step_admits hst with hsame | ⟨w, es, c, r, rfl, hadmits⟩
      · rw [State.isAdmitted, hsame] at hadm
        exact hadm
      · obtain ⟨a, ha, haq⟩ := (isAdmitted_iff t q).mp hadm
        rw [hadmits.admissions] at ha
        rcases List.mem_cons.mp ha with rfl | ha
        · -- the task admitted now has begun, so that its place was not kept
          obtain ⟨w', es', exec, -, -, hm⟩ := scan_begins hfatal h.lanes hst hadmits.running hadmits.mode
          change r.task = q at haq
          rw [haq] at hm
          have hnot := hadmits.notBegun
          rw [haq] at hnot
          rw [hm] at hg hb
          rw [(execute_isGrouped_begun hl hg).2, hnot] at hb
          cases hb
        · exact (isAdmitted_iff s q).mpr ⟨a, ha, haq⟩
    · have hbegins' := hbegins
      obtain ⟨w, es, exec, -, -, hm⟩ := hbegins
      rw [hm] at hg
      obtain ⟨hgs, hb⟩ := execute_isGrouped_begun hl hg
      rw [hm]
      refine ⟨fun _ => ?_, fun _ => hb⟩
      cases hs : (s.mem q).isStarted with
      | false => exact hbegins'.admits hst hgs hs
      | true =>
        apply isAdmitted_mono hst
        rw [← h.begun q hold hend' hgs, Task.begun, hs]
        rfl
  · obtain ⟨hb, hi⟩ := step_newTask hfatal h hst ho (Nat.le_of_not_lt hold) hq
    rw [hb, State.isAdmitted, step_admissions hst hi]
    constructor
    · intro hfalse
      cases hfalse
    · intro hadm
      exact absurd (h.known q hadm) hold

theorem ranTask_domainId {r : Running α} {x out : Task α} (hout : r.mode.runs = true → out.domainId = x.domainId) :
    (ranTask r x out).domainId = x.domainId := by
  rcases ranTask_cases r x out with ⟨hruns, heq⟩ | ⟨-, heq⟩ | ⟨-, heq⟩
  · rw [heq]
    exact hout hruns
  · rw [heq]
  · rw [heq]
    rfl

theorem step_isRemote (hfatal : cfg.fatalReturns = false) (h : ScannedFifo.Inv cfg.owner s.lanesView)
    (hst : step cfg s i = some t) (ho : orderly cfg s i = true) {q : TaskPtr} (hq : q < s.next) :
    isRemote cfg (t.mem q) = isRemote cfg (s.mem q) := by
  suffices hdomain : (t.tasksView.mem q).domainId = (s.mem q).domainId by
    rw [isRemote, isRemote, ← hdomain]
    rfl
  cases (step_tasks hfatal h hst).move hq with
  | same hm =>
    rw [hm]
    rfl
  | start w es exec hi hidle hr hm =>
    rw [hm]
    exact (AdmissionInv.execute_frame cfg _ q exec es).2.2
  | ran w out r hi hr ht he hm =>
    subst hi ht
    have hran : (ranTask r (s.mem r.task) out).domainId = (s.mem r.task).domainId :=
      ranTask_domainId fun hruns => (keepsPlace_iff.mp (orderly_finish ho hr hruns)).1
    rcases hm with hm | ⟨-, -, hm⟩
    · rw [hm]
      exact hran
    · rw [hm]
      exact hran
  | write x hi hm =>
    subst hi
    rw [hm]
    exact (keepsPlace_iff.mp ho).1

theorem execute_notBegun {x : Task α} {p : TaskPtr} {exec : Instance} {es : List (LaneRef × Task α)}
    (hes : ∀ e ∈ es, e.2.begun = false) : ∀ e ∈ (execute cfg x p exec es).emplaces, e.2.begun = false := by
  have hpush : (pushTask cfg x p exec).begun = false := by
    have hflags : (pushTask cfg x p exec).taskFlags =
        Bitfield.setBits 0#32 (taskLowLatency ||| taskPreemptive ||| taskRemoteDebugMark) := rfl
    simp only [Task.begun, Task.isStarted, Task.isRunDisabled, hflags]
    decide
  intro e he
  rcases mem_execute_emplaces cfg he with heq | he
  · rw [heq]
    exact hpush
  · exact hes e he

theorem step_pending (hfatal : cfg.fatalReturns = false) (h : OrderInv cfg s) (hst : step cfg s i = some t)
    (ho : orderly cfg s i = true) {w : WorkerId} {r : Running α} (hr : t.running w = some r) :
    (r.mode = .disperse → isRemote cfg (t.mem r.task) = true) ∧ ∀ e ∈ r.emplaces, e.2.begun = false := by
  obtain ⟨hh, -⟩ := step_transition hst
  have hremote : ∀ q, q < s.next → isRemote cfg (t.mem q) = isRemote cfg (s.mem q) :=
    fun q hq => step_isRemote hfatal h.lanes hst ho hq
  have hold : ∀ r₀, s.running w = some r₀ → r₀.task = r.task → r₀.mode = r.mode →
      (∀ e ∈ r.emplaces, e ∈ r₀.emplaces) →
      (r.mode = .disperse → isRemote cfg (t.mem r.task) = true) ∧ ∀ e ∈ r.emplaces, e.2.begun = false := by
    intro r₀ hr₀ htask hmode hes
    refine ⟨?_, fun e he => h.fresh w r₀ e hr₀ (hes e he)⟩
    intro hd
    rw [← htask, hremote _ (running_known h.lanes hh hr₀).1]
    exact h.remote w r₀ hr₀ (hmode.trans hd)
  cases (step_tasks hfatal h.lanes hst).runOrigin hr with
  | same hr₀ => exact hold r hr₀ rfl rfl (fun _ he => he)
  | skip es hi hidle hm he => simp [hm, he]
  | start es exec hi hidle heq =>
    subst hi
    change r = started cfg (s.mem r.task) r.task exec es at heq
    refine ⟨?_, ?_⟩
    · intro hmode
      rw [hremote r.task hidle.known]
      rw [heq] at hmode
      exact AdmissionInv.execute_disperse hmode
    · rw [heq]
      apply execute_notBegun
      simpa [orderly] using ho
  | put r₀ hi hr₀ ht hm he => exact hold r₀ hr₀ ht.symm hm.symm he

end Tasks

section Order

variable {cfg : Config α} {s t : State α} {i : Label α}

theorem waits_iff {q : TaskPtr} : waits cfg s q = true ↔ isGrouped cfg (s.mem q) = true ∧
    (s.mem q).isRunDisabled = false ∧ s.isAdmitted q = false := by
  simp only [waits, Bool.and_eq_true, Bool.not_eq_true', and_assoc]

theorem Task.begun_eq_false {x : Task α} : x.begun = false ↔ x.isStarted = false ∧ x.isRunDisabled = false := by
  simp only [Task.begun, Bool.or_eq_false_iff]

theorem OrderInv.not_begun (h : OrderInv cfg s) {q : TaskPtr} (hq : q < s.next) (hend : .endTask q ∉ s.log)
    (hg : isGrouped cfg (s.mem q) = true) (ha : s.isAdmitted q = false) : (s.mem q).begun = false := by
  rw [← Bool.not_eq_true, h.begun q hq hend hg, Bool.not_eq_true]
  exact ha

theorem waits_before (hl : ∀ id, (cfg.lib id).IgnoresFlags) (hfatal : cfg.fatalReturns = false) (h : OrderInv cfg s)
    (hst : step cfg s i = some t) (ho : orderly cfg s i = true) {q : TaskPtr} (hq : q < s.next)
    (hend : .endTask q ∉ t.log) (hw : waits cfg t q = true) :
    waits cfg s q = true ∧ (s.mem q).begun = false := by
  obtain ⟨hg, -, ha⟩ := waits_iff.mp hw
  have hend' : .endTask q ∉ s.log := fun hmem => hend ((step_tasks hfatal h.lanes hst).ended hmem)
  have hgs : isGrouped cfg (s.mem q) = true := by
    rcases step_place hfatal h hst ho hq hend with hkeep | ⟨w, es, exec, -, -, hm⟩
    · exact ((keepsPlace_iff.mp hkeep).2 hg).1
    · rw [hm] at hg
      exact (execute_isGrouped_begun hl hg).1
  have has : s.isAdmitted q = false := by
    rw [← Bool.not_eq_true]
    intro hadm
    rw [isAdmitted_mono hst hadm] at ha
    cases ha
  have hb := h.not_begun hq hend' hgs has
  exact ⟨waits_iff.mpr ⟨hgs, (Task.begun_eq_false.mp hb).2, has⟩, hb⟩

theorem GroupsStep.held {w : WorkerId} {c : Cursor α} {q : TaskPtr} (hgs : GroupsStep cfg s t i w)
    (h : OrderInv cfg s) (hh : s.halted = false) (hn : noneLeftBehind cfg s i = true)
    (hc : (s.workers w).cursor = some c) (hp : Passed s c q) (hw : waits cfg s q = true)
    (hend : .endTask q ∉ t.log) (hheld : (s.workers w).groups.groupMap (Groups.laneKey [] c.lane.laneId) ≠ none) :
    (t.workers w).groups.groupMap (Groups.laneKey [] c.lane.laneId) ≠ none ∨
      (∃ out, i = .finish w out) ∧ ∀ q', Ahead s c q' → waits cfg s q' = false := by
  cases hgs with
  | same hg =>
    left
    rw [hg]
    exact hheld
  | check lib x laneId b hg =>
    left
    rw [hg]
    exact Groups.checkTaskGroup_keeps _ lib x laneId b hheld
  | remove out c₀ r hi hc₀ hr hended hm hg =>
    rw [hc, Option.some.injEq] at hc₀
    subst hc₀ hi
    rw [hg]
    by_cases hnone : ((s.workers w).groups.removeTaskGroup (cfg.lib r.exec.id) (ranTask r (s.mem r.task) out)
        c.lane.laneId r.isRemote).2.groupMap (Groups.laneKey [] c.lane.laneId) = none
    swap
    · exact Or.inl hnone
    right
    refine ⟨⟨out, rfl⟩, ?_⟩
    -- the entry went away, so the task that ends was the last of its group
    obtain ⟨-, hlocal, hord, n, hn₁, hdepth⟩ := Groups.removeTaskGroup_erases (h.bounded w) _ _ _ _ hheld hnone
    have hends : endsGroup cfg s w c.lane r (ranTask r (s.mem r.task) out) = true := by
      simp only [endsGroup, hm, hlocal, hord, hn₁, Bool.not_false, Bool.and_self, Option.any_some, Bool.true_and,
        decide_eq_true_eq]
      exact hdepth
    simp only [noneLeftBehind, hc, Option.all_some, hr, hends, Bool.not_true, Bool.false_or, List.all_eq_true,
      Bool.or_eq_true, Bool.not_eq_true'] at hn
    rcases hn with hn | hn
    · -- the waiting task is not the one that ends, so it stands before it
      have hne : (s.lanes c.lane)[c.off]? ≠ some ⟨q, false⟩ := by
        rw [running_waits h.lanes hh hc hr]
        intro heq
        cases heq
        exact hend hended
      rcases hn _ (hp.mem_before hne) with hcomplete | hnot
      · cases hcomplete
      · rw [hw] at hnot
        cases hnot
    · intro q' ha
      have hsome : c.running.isSome = true := by
        rw [hr]
        rfl
      exact (hn _ (ha.mem_drop hsome)).resolve_left Bool.false_ne_true

theorem step_newEntry (hfatal : cfg.fatalReturns = false) (h : OrderInv cfg s) (hst : step cfg s i = some t)
    {l : LaneRef} {q : TaskPtr} (hold : s.next ≤ q) (hmem : (⟨q, false⟩ : LaneData) ∈ t.lanes l) :
    i = .emplace l (t.mem q) ∨
      ∃ w r es, i = .put w ∧ s.running w = some r ∧ r.emplaces = (l, t.mem q) :: es := by
  have hq : q < t.next := lt_next (step_lanesInv h.lanes hst) hmem
  have hdst : ∀ {l' : LaneRef} {x : Task α}, (⟨q, false⟩ : LaneData) ∈ (s.emplace l' x).lanes l → l' = l := by
    intro l' x hmem
    by_contra hne
    rw [State.emplace_lanes, Function.update_of_ne (Ne.symm hne)] at hmem
    exact absurd (lt_next h.lanes hmem) (Nat.not_lt.mpr hold)
  obtain ⟨-, htr⟩ := step_transition hst
  obtain ⟨-, ⟨l', hi⟩ | ⟨w, r, l', es, hi, hr, he⟩⟩ := (step_tasks hfatal h.lanes hst).made hold hq
  · left
    rw [hi]
    cases htr with
    | emplace l₀ x hroom hown =>
      obtain rfl : l₀ = l' := (Label.emplace.inj hi).1
      rw [hdst hmem]
      rfl
    | _ => cases hi
  · right
    refine ⟨w, r, es, hi, hr, ?_⟩
    rw [he]
    cases htr with
    | put w₀ l₀ j off p exec remote mode dst x es₀ b hc hroom =>
      cases hi
      have hrunning : s.running w = some ⟨p, exec, remote, mode, (dst, x) :: es₀, b⟩ := by simp [State.running, hc]
      obtain rfl : _ = r := Option.some.inj (hrunning.symm.trans hr)
      obtain rfl : dst = l' := congrArg (fun es => (es.head?.map Prod.fst).getD dst) he
      rw [hdst hmem]
      rfl
    | block w₀ l₀ j off p exec remote mode dst x es₀ b hc hfull =>
      exact absurd (lt_next h.lanes hmem) (Nat.not_lt.mpr hold)
    | _ => cases hi

theorem missed_of_passed {w : WorkerId} {c : Cursor α} (h : OrderInv cfg s) (hc : (s.workers w).cursor = some c)
    {q : TaskPtr} (hp : Passed s c q) (hw : waits cfg s q = true)
    (hfree : (s.workers w).groups.groupMap (Groups.laneKey [] c.lane.laneId) = none) :
    missed cfg s c.lane = true := by
  have howner : cfg.owner c.lane = w := h.lanes.owned w _ (lanesView_places hc)
  simp only [missed, howner, hc, Option.any_some, hfree, Option.isNone_none, decide_true, Bool.true_and,
    List.any_eq_true, Bool.and_eq_true, Bool.not_eq_true']
  exact ⟨⟨q, false⟩, hp.mem_take, rfl, hw⟩

theorem missed_newEntry (hfatal : cfg.fatalReturns = false) (h : OrderInv cfg s) (hst : step cfg s i = some t)
    (hn : noneLeftBehind cfg s i = true) {l : LaneRef} (hmissed : missed cfg s l = true) {q : TaskPtr}
    (hold : s.next ≤ q) (hmem : (⟨q, false⟩ : LaneData) ∈ t.lanes l) : isGrouped cfg (t.mem q) = false := by
  rcases step_newEntry hfatal h hst hold hmem with rfl | ⟨w, r, es, rfl, hr, he⟩
  · simpa [noneLeftBehind, hmissed] using hn
  · simp only [noneLeftBehind, hr, he, Option.all_some, List.all_cons, hmissed, Bool.and_eq_true] at hn
    simpa using hn.1

theorem ahead_before (hl : ∀ id, (cfg.lib id).IgnoresFlags) (hfatal : cfg.fatalReturns = false) (h : OrderInv cfg s)
    (hst : step cfg s i = some t) (ho : orderly cfg s i = true) {c : Cursor α} {l : LaneRef}
    {q : TaskPtr} (hahead : Ahead s c q ∨ s.next ≤ q) (hmem : (⟨q, false⟩ : LaneData) ∈ t.lanes l)
    (hnone : ∀ q', Ahead s c q' → waits cfg s q' = false)
    (hnew : s.next ≤ q → isGrouped cfg (t.mem q) = false) : waits cfg t q = false := by
  rw [← Bool.not_eq_true]
  intro hw
  rcases hahead with hahead | hold
  · obtain ⟨j, hj, hentry⟩ := hahead
    have hq : q < s.next := lt_next h.lanes (List.mem_of_getElem? hentry)
    have hend : .endTask q ∉ t.log := not_ended (step_lanesInv h.lanes hst) hmem
    have hbefore := (waits_before hl hfatal h hst ho hq hend hw).1
    rw [hnone q ⟨j, hj, hentry⟩] at hbefore
    cases hbefore
  · have hg := (waits_iff.mp hw).1
    rw [hnew hold] at hg
    cases hg

theorem Takes.held {w : WorkerId} {c : Cursor α} {p q : TaskPtr} {es : List (LaneRef × Task α)}
    (htakes : Takes cfg s t w c p es) (hl : ∀ id, (cfg.lib id).IgnoresFlags) (hfatal : cfg.fatalReturns = false)
    (h : OrderInv cfg s) (hst : step cfg s (.scan w es) = some t) (ho : orderly cfg s (.scan w es) = true)
    (hn : noneLeftBehind cfg s (.scan w es) = true) {c' : Cursor α} (hc' : (t.workers w).cursor = some c')
    (hp : Passed t c' q) (hw : waits cfg t q = true) :
    (t.workers w).groups.groupMap (Groups.laneKey [] c'.lane.laneId) ≠ none ∨
      ∀ q', Ahead t c' q' → waits cfg t q' = false := by
  obtain ⟨hh, -⟩ := step_transition hst
  have hend : .endTask q ∉ t.log := not_ended (step_lanesInv h.lanes hst) hp.mem
  obtain ⟨r, hcr, rfl, hcase⟩ := htakes.cases
  rw [hcr, Option.some.injEq] at hc'
  subst hc'
  obtain ⟨j, hj, hentry⟩ := hp
  rw [htakes.lanes] at hentry
  have hq : q < s.next := lt_next h.lanes (List.mem_of_getElem? hentry)
  obtain ⟨hws, hb⟩ := waits_before hl hfatal h hst ho hq hend hw
  rcases hj with hj | ⟨rfl, -⟩
  · have hps : Passed s c q := ⟨j, Or.inl hj, hentry⟩
    by_cases hfree : (s.workers w).groups.groupMap (Groups.laneKey [] c.lane.laneId) = none
    · right
      have hnone := (h.held w c q htakes.cursor hps hws).resolve_left (not_not.mpr hfree)
      intro q' ha
      have hmem := ha.mem
      obtain ⟨j', hj' | ⟨-, hidle⟩, hentry'⟩ := ha
      · rw [htakes.lanes] at hentry'
        have hahead : Ahead s c q' := ⟨j', Or.inl hj', hentry'⟩
        refine ahead_before hl hfatal h hst ho (Or.inl hahead) hmem hnone ?_
        intro hold
        exact absurd (lt_next h.lanes (List.mem_of_getElem? hentry')) (Nat.not_lt.mpr hold)
      · cases hidle
    · rcases (step_groups hst w).held h hh hn htakes.cursor hps hws hend hfree with hheld | ⟨⟨out, hi⟩, -⟩
      · exact Or.inl hheld
      · cases hi
  · -- the task that the worker has just taken on
    left
    change (s.lanes c.lane)[c.off]? = some ⟨q, false⟩ at hentry
    rw [htakes.entry, Option.some.injEq] at hentry
    have htask : r.task = q := congrArg ScannedFifo.Entry.p hentry
    subst htask
    rcases hcase with hskip | hruns
    · rcases hskip.reason with hd | hheld
      · rw [(Task.begun_eq_false.mp hb).2] at hd
        cases hd
      · rw [hskip.groups]
        exact hheld
    · have hadm := hruns.admissions
      rw [(waits_iff.mp hws).1, (Task.begun_eq_false.mp hb).1] at hadm
      have hin : t.isAdmitted r.task = true := by
        refine (isAdmitted_iff t _).mpr ⟨admissionOf cfg s w c.lane r.task, ?_, rfl⟩
        rw [hadm]
        exact List.mem_cons_self
      rw [(waits_iff.mp hw).2.2] at hin
      cases hin

theorem step_held (hl : ∀ id, (cfg.lib id).IgnoresFlags) (hfatal : cfg.fatalReturns = false) (h : OrderInv cfg s)
    (hst : step cfg s i = some t) (ho : orderly cfg s i = true) (hn : noneLeftBehind cfg s i = true)
    {w : WorkerId} {c' : Cursor α} {q : TaskPtr} (hc' : (t.workers w).cursor = some c') (hp : Passed t c' q)
    (hw : waits cfg t q = true) :
    (t.workers w).groups.groupMap (Groups.laneKey [] c'.lane.laneId) ≠ none ∨
      ∀ q', Ahead t c' q' → waits cfg t q' = false := by
  rcases step_cursor h.lanes h.off hst hc' with hno | ⟨es, c, p, rfl, htakes⟩
  swap
  · exact htakes.held hl hfatal h hst ho hn hc' hp hw
  obtain ⟨hh, -⟩ := step_transition hst
  have hend : .endTask q ∉ t.log := not_ended (step_lanesInv h.lanes hst) hp.mem
  obtain ⟨c, hc, hlane, hps⟩ := hno.passed q hp
  have hws := (waits_before hl hfatal h hst ho (lt_next h.lanes hps.mem) hend hw).1
  -- nothing that waits comes to stand ahead of the pass but by an `Emplace` of this step
  have hahead : (∀ q', Ahead s c q' → waits cfg s q' = false) →
      (∀ q', s.next ≤ q' → (⟨q', false⟩ : LaneData) ∈ t.lanes c.lane → isGrouped cfg (t.mem q') = false) →
      ∀ q', Ahead t c' q' → waits cfg t q' = false := by
    intro hnone hnew q' ha
    refine ahead_before hl hfatal h hst ho (hno.ahead c q q' hc hp ha) ha.mem hnone fun hold => hnew q' hold ?_
    rw [hlane]
    exact ha.mem
  rw [← hlane]
  by_cases hfree : (s.workers w).groups.groupMap (Groups.laneKey [] c.lane.laneId) = none
  · right
    have hnone := (h.held w c q hc hps hws).resolve_left (not_not.mpr hfree)
    have hmissed := missed_of_passed h hc hps hws hfree
    exact hahead hnone fun q' hold hmem => missed_newEntry hfatal h hst hn hmissed hold hmem
  · rcases (step_groups hst w).held h hh hn hc hps hws hend hfree with hheld | ⟨⟨out, rfl⟩, hnone⟩
    · exact Or.inl hheld
    · right
      refine hahead hnone fun q' hold hmem => ?_
      rcases step_newEntry hfatal h hst hold hmem with hi | ⟨w₀, r, es, hi, -⟩
      · cases hi
      · cases hi

theorem step_orderInv (hl : ∀ id, (cfg.lib id).IgnoresFlags) (hfatal : cfg.fatalReturns = false)
    (h : OrderInv cfg s) (hst : step cfg s i = some t) (ho : orderly cfg s i = true)
    (hn : noneLeftBehind cfg s i = true) : OrderInv cfg t := by
  refine ⟨step_lanesInv h.lanes hst, fun w => (step_groups hst w).bounded (h.bounded w), ?_, ?_, ?_, ?_, ?_, ?_⟩
  · intro w c' hc'
    rcases step_cursor h.lanes h.off hst hc' with ⟨hoff, -⟩ | ⟨es, c, p, -, htakes⟩
    · exact hoff
    · obtain ⟨r, hcr, -, -⟩ := htakes.cases
      rw [hcr, Option.some.injEq] at hc'
      subst hc'
      rw [htakes.lanes]
      exact h.off w c htakes.cursor
  · intro q hq
    have hnext : s.next ≤ t.next := (step_tasks hfatal h.lanes hst).next_le
    rcases step_admits hst with hsame | ⟨w, es, c, r, -, hadmits⟩
    · rw [State.isAdmitted, hsame] at hq
      exact Nat.lt_of_lt_of_le (h.known q hq) hnext
    · obtain ⟨a, ha, rfl⟩ := (isAdmitted_iff t q).mp hq
      rw [hadmits.admissions] at ha
      rcases List.mem_cons.mp ha with rfl | ha
      · obtain ⟨es, htakes⟩ := hadmits.takes
        exact Nat.lt_of_lt_of_le (lt_next h.lanes (List.mem_of_getElem? htakes.entry)) hnext
      · exact Nat.lt_of_lt_of_le (h.known _ ((isAdmitted_iff s _).mpr ⟨a, ha, rfl⟩)) hnext
  · intro q hq hend hg
    exact step_begun hl hfatal h hst ho hq hend hg
  · intro w r hr
    exact (step_pending hfatal h hst ho hr).1
  · intro w r e hr
    exact (step_pending hfatal h hst ho hr).2 e
  · intro w c' q hc' hp hw
    exact step_held hl hfatal h hst ho hn hc' hp hw

theorem orderInv_init (mem : TaskPtr → Task α) (registered : TaskStateId → Bool) :
    OrderInv cfg (State.init mem registered) := by
  refine ⟨lanesView_init mem registered, ?_, ?_, ?_, ?_, ?_, ?_, ?_⟩
  · intro w k n hn
    cases hn
  all_goals simp [State.init, State.running, State.isAdmitted, admissions]

theorem step_handedOver (h : OrderInv cfg s) (hst : step cfg s i = some t) : HandedOver cfg s t := by
  intro a ha hfree
  rcases step_admits hst with hsame | ⟨w, es, c, r, -, hadmits⟩
  · rw [newAdmissions, hsame, Nat.sub_self, List.take_zero] at ha
    cases ha
  · have hone : newAdmissions s t = [admissionOf cfg s w c.lane r.task] := by
      rw [newAdmissions, hadmits.admissions, List.length_cons, Nat.add_sub_cancel_left]
      rfl
    rw [hone, List.mem_singleton] at ha
    subst ha
    obtain ⟨es, htakes⟩ := hadmits.takes
    have hentry := htakes.entry
    have hmem := List.mem_of_getElem? hentry
    have hadm : s.isAdmitted r.task = false := by
      rw [← Bool.not_eq_true, ← h.begun _ (lt_next h.lanes hmem) (not_ended h.lanes hmem) hadmits.grouped,
        hadmits.notBegun]
      simp
    have hwaits : waits cfg s r.task = true :=
      waits_iff.mpr ⟨hadmits.grouped, (Task.begun_eq_false.mp hadmits.notBegun).2, hadm⟩
    obtain ⟨hlt, heq⟩ := List.getElem?_eq_some_iff.mp hentry
    have hfind : (s.lanes c.lane).find? (fun e => !e.complete && waits cfg s e.p &&
        admissionKey cfg s w c.lane e.p = admissionKey cfg s w c.lane r.task) = some ⟨r.task, false⟩ := by
      -- a waiting task before the cursor was refused in this pass: its group is held, or no task ahead waits
      refine List.find?_eq_some_iff_getElem.mpr ⟨by simp [hwaits], c.off, hlt, heq, ?_⟩
      intro j hj
      have hj' : j < (s.lanes c.lane).length := Nat.lt_trans hj hlt
      cases hcomplete : (s.lanes c.lane)[j].complete with
      | true => simp
      | false =>
        cases hw : waits cfg s (s.lanes c.lane)[j].p with
        | false => simp
        | true =>
          have hpassed : Passed s c (s.lanes c.lane)[j].p := by
            refine ⟨j, Or.inl hj, ?_⟩
            rw [List.getElem?_eq_getElem hj', ← hcomplete]
          rcases h.held w c _ htakes.cursor hpassed hw with hheld | hnone
          · exact absurd hfree hheld
          · have hidle := hnone r.task ⟨c.off, Or.inr ⟨rfl, htakes.idle⟩, hentry⟩
            rw [hwaits] at hidle
            cases hidle
    show (waiters cfg s w c.lane (admissionKey cfg s w c.lane r.task)).head? = some r.task
    rw [waiters, List.head?_map, List.head?_filter, hfind]
    rfl

theorem handedOver_of_run (cfg : Config α) (hl : ∀ id, (cfg.lib id).IgnoresFlags)
    (hfatal : cfg.fatalReturns = false) (mem : TaskPtr → Task α) (registered : TaskStateId → Bool)
    (is : List (Label α))
    (horder : Along (step cfg) (fun s i _ => orderly cfg s i = true) (State.init mem registered) is)
    (hnone : Along (step cfg) (fun s i _ => noneLeftBehind cfg s i = true) (State.init mem registered) is) :
    Along (step cfg) (fun s _ t => HandedOver cfg s t) (State.init mem registered) is := by
  apply along_of_invariant (I := OrderInv cfg) _ (orderInv_init mem registered) (horder.and hnone)
  intro s i t hs hst hcond
  exact ⟨step_orderInv hl hfatal hs hst hcond.1 hcond.2, step_handedOver hs hst⟩

end Order

section Overtaken

def fourDeep : Config Unit := { bootConfig with depth := fun _ => 4 }

def inTurn : List (Label Unit) :=
  let l : LaneRef := ⟨⟨1, 1⟩, TaskPrio.kLowLatency, 0⟩
  let again (root : ℕ) := Label.finish 0 (pushOf root 0 taskHasStarted)
  let ended (root : ℕ) := Label.finish 0 (pushOf root 0 (taskHasStarted ||| taskModuleComplete))
  [.emplace l (pushOf 4 0 0), .emplace l (pushOf 5 0 0), .emplace l (pushOf 6 0 0),
    .poll 0 l, .scan 0 [], again 4, .scan 0 [], again 5, .scan 0 [], again 6, .scan 0 [],
    .poll 0 l, .scan 0 [], ended 4, .scan 0 []]

theorem handedOver_inTurn : (run (step fourDeep) bootState inTurn).map (fun t => (admissions t.log).map (·.task)) =
    some [1, 0] ∧ Along (step fourDeep) (fun s _ t => HandedOver fourDeep s t) bootState inTurn := by
  refine ⟨by decide +kernel, ?_⟩
  exact handedOver_of_run fourDeep bootConfig_ignoresFlags rfl _ _ inTurn (by decide +kernel) (by decide +kernel)

def overtaken : List (Label Unit) :=
  let l : LaneRef := ⟨⟨1, 1⟩, TaskPrio.kLowLatency, 0⟩
  let again (root : ℕ) := Label.finish 0 (pushOf root 0 taskHasStarted)
  let ended (root : ℕ) := Label.finish 0 (pushOf root 0 (taskHasStarted ||| taskModuleComplete))
  [.emplace l (pushOf 4 0 0), .emplace l (pushOf 5 0 0), .emplace l (pushOf 4 0 0), .emplace l (pushOf 6 0 0),
    .poll 0 l, .scan 0 [], again 4, .scan 0 [], again 5, .scan 0 [], again 4, .scan 0 [], again 6, .scan 0 [],
    .poll 0 l, .scan 0 [], ended 4, .scan 0 [], again 5, .scan 0 [], ended 4, .scan 0 []]

theorem not_handedOver_overtaken :
    Along (step fourDeep) (fun s i _ => orderly fourDeep s i = true) bootState overtaken ∧
      (run (step fourDeep) bootState overtaken).map (fun t => (admissions t.log).map (·.task)) = some [3, 2, 0] ∧
      ¬Along (step fourDeep) (fun s _ t => HandedOver fourDeep s t) bootState overtaken := by
  decide +kernel

end Overtaken

end HermesRun.Poll
