import HermesRun.Worker.Accounting
import HermesRun.Worker.Tasks

namespace HermesRun.Poll

variable {α : Type}

section Admissions

variable {cfg : Config α} {s t : State α}

theorem popTask_admissions (c : Cursor α) : admissions (s.popTask c).1.log = admissions s.log := by
  obtain ⟨evs, hlog, hevs⟩ := s.popTask_log c
  rw [hlog]
  exact admissions_append fun e he => AdmissionInv.isLedger_of_isCleanup (hevs e he)

theorem endTask_admissions (c : Cursor α) (p : TaskPtr) (b : Bool) :
    admissions (s.endTask c p b).1.log = admissions s.log := by
  obtain ⟨evs, hlog, hevs⟩ := s.endTask_log c p b
  rw [hlog]
  exact admissions_append fun e he => AdmissionInv.isLedger_of_isCleanup (hevs e he)

theorem finish_admissions (w : WorkerId) (c : Cursor α) (r : Running α) (out : Task α) :
    admissions (finish cfg s w c r out).log = admissions s.log := by
  have hcleanup (x : Task α) : admissions ((s.setTask r.task x).cleanup c r.task x).log = admissions s.log := by
    obtain ⟨evs, hlog, hevs⟩ := (s.setTask r.task x).cleanup_log x c r.task
    rw [hlog]
    exact admissions_append fun e he => AdmissionInv.isLedger_of_isCleanup (hevs e he)
  have hcase := finish_cases cfg s w c r out
  generalize finish cfg s w c r out = t at hcase ⊢
  cases hcase with
  | again hm => rfl
  | fatal hm u hu hz =>
    show admissions (.depthZero w r.task :: u.log) = _
    rw [hu]
    exact hcleanup _
  | done hm u v hu hv =>
    show admissions (v.endTask c r.task true).1.log = _
    rw [endTask_admissions, hv]
    show admissions (.release w r.task :: u.log) = _
    rw [hu]
    exact hcleanup _

theorem emplace_admissions (l : LaneRef) (x : Task α) : admissions (s.emplace l x).log = admissions s.log := by
  rw [s.emplace_log l x]
  exact admissions_append (AdmissionInv.emplaceEvents_ledger s l x)

theorem step_admissions {i : Label α} (hst : step cfg s i = some t) (hi : ∀ w es, i ≠ .scan w es) :
    admissions t.log = admissions s.log := by
  obtain ⟨-, htr⟩ := step_transition hst
  cases htr with
  | emplace l x hroom hown => exact emplace_admissions l x
  | poll w l hc ho => rfl
  | scan w es l i off hc hes => exact absurd rfl (hi w es)
  | put w l i off p exec remote mode dst x es b hc hroom => exact emplace_admissions dst x
  | block w l i off p exec remote mode dst x es b hc hfull => rfl
  | registry w op l i off r hc hr =>
    obtain ⟨states, next, heq⟩ := registryOp_eq s op
    rw [heq]
  | finish w out l i off r hc hes hout => exact finish_admissions w _ r out
  | write p x hp hx => rfl

structure Takes (cfg : Config α) (s t : State α) (w : WorkerId) (c : Cursor α) (p : TaskPtr)
    (es : List (LaneRef × Task α)) : Prop where
  cursor : (s.workers w).cursor = some c
  idle : c.running = none
  entry : (s.lanes c.lane)[c.off]? = some ⟨p, false⟩
  attempt : ∃ gen, t = attempt cfg (s.emit (.deref p)) w c p ⟨(s.mem p).taskState, gen⟩ es

structure Passes (s t : State α) (w : WorkerId) : Prop where
  running : t.running w = none
  groups : (t.workers w).groups = (s.workers w).groups
  admissions : admissions t.log = admissions s.log

theorem scan_takes {w : WorkerId} {es : List (LaneRef × Task α)} (hst : step cfg s (.scan w es) = some t) :
    Passes s t w ∨ ∃ c p, Takes cfg s t w c p es := by
  obtain ⟨-, htr⟩ := step_transition hst
  cases htr with
  | scan w es l i off hc hes =>
    have hrunning : s.running w = none := by simp [State.running, hc]
    have hcase := scan_cases cfg s w ⟨l, i, off, none⟩ es
    generalize scan cfg s w ⟨l, i, off, none⟩ es = t at hcase
    cases hcase with
    | stop =>
      exact Or.inl ⟨by simp [State.running_setCursor], AdmissionInv.setCursor_groups .., rfl⟩
    | passOver p hp =>
      refine Or.inl ⟨by simp [State.nextPass, State.running_setCursor], ?_, popTask_admissions _⟩
      rw [State.nextPass, AdmissionInv.setCursor_groups, State.popTask_workers]
    | fatalReturn p hp hf u hu =>
      refine Or.inl ⟨by simp [State.nextPass, State.running_setCursor], ?_, ?_⟩
      · rw [State.nextPass, AdmissionInv.setCursor_groups, State.endTask_workers, hu]
        rfl
      · show admissions (u.endTask _ p false).1.log = _
        rw [endTask_admissions, hu]
        rfl
    | fatal p hp hf => exact Or.inl ⟨hrunning, rfl, rfl⟩
    | attempt p gen hp hgen => exact Or.inr ⟨_, p, hc, rfl, hp, gen, rfl⟩

/-- The key under which `CheckTaskGroup` looks the task's group up. -/
def admissionKey (cfg : Config α) (s : State α) (w : WorkerId) (l : LaneRef) (q : TaskPtr) : Charbuf :=
  Groups.laneKey ((s.workers w).groups.groupBytes (cfg.lib (s.mem q).taskState) (s.mem q)) l.laneId

def admissionOf (cfg : Config α) (s : State α) (w : WorkerId) (l : LaneRef) (p : TaskPtr) : Admission :=
  ⟨w, p, l, admissionKey cfg s w l p, (s.workers w).groups.groupBytes (cfg.lib (s.mem p).taskState) (s.mem p),
    (s.mem p).taskNode.root⟩

structure Skipped (s t : State α) (w : WorkerId) (c : Cursor α) (r : Running α) : Prop where
  mode : r.mode = .skip
  groups : (t.workers w).groups.groupMap = (s.workers w).groups.groupMap
  admissions : admissions t.log = admissions s.log
  reason : (s.mem r.task).isRunDisabled = true ∨
    (s.workers w).groups.groupMap (Groups.laneKey [] c.lane.laneId) ≠ none

structure Executes (cfg : Config α) (s t : State α) (w : WorkerId) (c : Cursor α) (r : Running α) : Prop where
  mode : r.mode ≠ .skip
  enabled : (s.mem r.task).isRunDisabled = false
  groups : ∃ b, (t.workers w).groups =
    ((s.workers w).groups.checkTaskGroup (cfg.lib (s.mem r.task).taskState) (s.mem r.task) c.lane.laneId b).2
  admissions : admissions t.log =
    if isGrouped cfg (s.mem r.task) && !(s.mem r.task).isStarted then
      admissionOf cfg s w c.lane r.task :: admissions s.log
    else admissions s.log

theorem Takes.lanes {w : WorkerId} {c : Cursor α} {p : TaskPtr} {es : List (LaneRef × Task α)}
    (h : Takes cfg s t w c p es) : t.lanes = s.lanes := by
  obtain ⟨gen, rfl⟩ := h.attempt
  have hcase := attempt_cases cfg (s.emit (.deref p)) w c p ⟨(s.mem p).taskState, gen⟩ es
  generalize Poll.attempt cfg (s.emit (.deref p)) w c p ⟨(s.mem p).taskState, gen⟩ es = t at hcase ⊢
  cases hcase with
  | skip | run => rfl

theorem admission_eq (w : WorkerId) (l : LaneRef) (p : TaskPtr) (gen : ℕ) :
    admission cfg (s.workers w).groups w l p ⟨(s.mem p).taskState, gen⟩ (s.mem p) =
      if isGrouped cfg (s.mem p) && !(s.mem p).isStarted then [.admitted (admissionOf cfg s w l p)] else [] := by
  have hcond : (!isRemote cfg (s.mem p) && !(s.mem p).isStarted &&
      Groups.isOrdered (cfg.lib (s.mem p).taskState) (s.mem p)) =
      (isGrouped cfg (s.mem p) && !(s.mem p).isStarted) := by
    unfold isGrouped
    rw [Bool.and_right_comm]
  unfold admission
  dsimp only
  rw [hcond]
  rfl

theorem admissions_attemptEvents (w : WorkerId) (c : Cursor α) (p : TaskPtr) (gen : ℕ)
    (es : List (LaneRef × Task α)) :
    admissions (attemptEvents cfg (s.emit (.deref p)) w c p ⟨(s.mem p).taskState, gen⟩ es ++ .deref p :: s.log) =
      if isGrouped cfg (s.mem p) && !(s.mem p).isStarted then admissionOf cfg s w c.lane p :: admissions s.log
      else admissions s.log := by
  rw [attemptEvents, List.append_assoc]
  refine (admissions_append (AdmissionInv.execute_ledger cfg (s.mem p) p _ es)).trans ?_
  show admissions (admission cfg (s.workers w).groups w c.lane p _ (s.mem p) ++ _ ++ _) = _
  rw [admission_eq]
  split_ifs <;> rfl

theorem Takes.cases {w : WorkerId} {c : Cursor α} {p : TaskPtr} {es : List (LaneRef × Task α)}
    (h : Takes cfg s t w c p es) : ∃ r, (t.workers w).cursor = some { c with running := some r } ∧ r.task = p ∧
      (Skipped s t w c r ∨ Executes cfg s t w c r) := by
  obtain ⟨gen, rfl⟩ := h.attempt
  have hcase := attempt_cases cfg (s.emit (.deref p)) w c p ⟨(s.mem p).taskState, gen⟩ es
  generalize Poll.attempt cfg (s.emit (.deref p)) w c p ⟨(s.mem p).taskState, gen⟩ es = t at hcase ⊢
  cases hcase with
  | skip g hg hskip =>
    refine ⟨_, State.setCursor_cursor .., rfl, Or.inl ⟨rfl, ?_, rfl, hskip.imp_right Groups.checkTaskGroup_held⟩⟩
    rw [State.enter, AdmissionInv.setCursor_groups, AdmissionInv.setGroups_groups, if_pos rfl]
    exact hg
  | run hd hc =>
    refine ⟨_, State.setCursor_cursor .., rfl, Or.inr ⟨?_, hd, ⟨isRemote cfg (s.mem p), ?_⟩, ?_⟩⟩
    · show (execute cfg (s.mem p) p _ es).mode ≠ .skip
      unfold execute
      split_ifs <;> simp
    · rw [State.enter, AdmissionInv.setCursor_groups]
      exact (AdmissionInv.setGroups_groups ..).trans (if_pos rfl)
    · exact admissions_attemptEvents w c p gen es

end Admissions

section Cursors

variable {cfg : Config α} {s t : State α}

def Passed (s : State α) (c : Cursor α) (q : TaskPtr) : Prop :=
  ∃ j, (j < c.off ∨ j = c.off ∧ c.running.isSome = true) ∧ (s.lanes c.lane)[j]? = some ⟨q, false⟩

def Ahead (s : State α) (c : Cursor α) (q : TaskPtr) : Prop :=
  ∃ j, (c.off < j ∨ j = c.off ∧ c.running = none) ∧ (s.lanes c.lane)[j]? = some ⟨q, false⟩

theorem Passed.mem {c : Cursor α} {q : TaskPtr} (h : Passed s c q) : (⟨q, false⟩ : LaneData) ∈ s.lanes c.lane := by
  obtain ⟨j, -, hentry⟩ := h
  exact List.mem_of_getElem? hentry

theorem Ahead.mem {c : Cursor α} {q : TaskPtr} (h : Ahead s c q) : (⟨q, false⟩ : LaneData) ∈ s.lanes c.lane := by
  obtain ⟨j, -, hentry⟩ := h
  exact List.mem_of_getElem? hentry

theorem mem_take_of_getElem? {β : Type} {xs : List β} {j n : ℕ} {x : β} (h : xs[j]? = some x) (hj : j < n) :
    x ∈ xs.take n := by
  have htake : (xs.take n)[j]? = some x := by rw [List.getElem?_take_of_lt hj, h]
  exact List.mem_of_getElem? htake

theorem Passed.mem_take {c : Cursor α} {q : TaskPtr} (h : Passed s c q) :
    (⟨q, false⟩ : LaneData) ∈ (s.lanes c.lane).take (if c.running.isSome then c.off + 1 else c.off) := by
  obtain ⟨j, hj, hentry⟩ := h
  apply mem_take_of_getElem? hentry
  rcases hj with hj | ⟨rfl, hr⟩
  · split_ifs
    · exact Nat.lt_succ_of_lt hj
    · exact hj
  · rw [if_pos hr]
    exact Nat.lt_succ_self _

theorem Passed.mem_before {c : Cursor α} {q : TaskPtr} (h : Passed s c q)
    (hne : (s.lanes c.lane)[c.off]? ≠ some ⟨q, false⟩) : (⟨q, false⟩ : LaneData) ∈ (s.lanes c.lane).take c.off := by
  obtain ⟨j, hj | ⟨rfl, -⟩, hentry⟩ := h
  · exact mem_take_of_getElem? hentry hj
  · exact absurd hentry hne

theorem Ahead.mem_drop {c : Cursor α} {q : TaskPtr} (h : Ahead s c q) (hr : c.running.isSome = true) :
    (⟨q, false⟩ : LaneData) ∈ (s.lanes c.lane).drop (c.off + 1) := by
  obtain ⟨j, hj | ⟨-, hidle⟩, hentry⟩ := h
  · have hdrop : ((s.lanes c.lane).drop (c.off + 1))[j - (c.off + 1)]? = some ⟨q, false⟩ := by
      rw [List.getElem?_drop, Nat.add_sub_cancel' hj, hentry]
    exact List.mem_of_getElem? hdrop
  · rw [hidle] at hr
    cases hr

structure NoFurther (s t : State α) (w : WorkerId) (c' : Cursor α) : Prop where
  off : c'.off ≤ (t.lanes c'.lane).length
  passed : ∀ q, Passed t c' q → ∃ c, (s.workers w).cursor = some c ∧ c.lane = c'.lane ∧ Passed s c q
  ahead : ∀ c q q', (s.workers w).cursor = some c → Passed t c' q → Ahead t c' q' → Ahead s c q' ∨ s.next ≤ q'

theorem noFurther_start {w : WorkerId} {c' : Cursor α} (hoff : c'.off = 0) (hr : c'.running = none) :
    NoFurther s t w c' := by
  have hnone : ∀ q, ¬Passed t c' q := by
    rintro q ⟨j, hj, -⟩
    rw [hoff, hr] at hj
    simp at hj
  refine ⟨by omega, ?_, ?_⟩
  · intro q hq
    exact absurd hq (hnone q)
  · intro c q q' _ hq
    exact absurd hq (hnone q)

theorem noFurther_same {w : WorkerId} {c : Cursor α} (hc : (s.workers w).cursor = some c)
    (hoff : c.off ≤ (s.lanes c.lane).length) {c' : Cursor α} (hl : c'.lane = c.lane) (ho : c'.off = c.off)
    (hr : c'.running = none ↔ c.running = none)
    (hrun : c.running.isSome = true → c.off < (s.lanes c.lane).length)
    (hlane : ∃ es, t.lanes c.lane = s.lanes c.lane ++ es ∧ ∀ e ∈ es, s.next ≤ e.p) : NoFurther s t w c' := by
  obtain ⟨es, hes, hnew⟩ := hlane
  have hr' : c'.running.isSome = true → c.running.isSome = true := by
    rw [Option.isSome_iff_ne_none, Option.isSome_iff_ne_none]
    exact fun h hnone => h (hr.mpr hnone)
  refine ⟨?_, ?_, ?_⟩
  · rw [hl, ho, hes, List.length_append]
    omega
  · rintro q ⟨j, hj, hq⟩
    rw [hl, hes] at hq
    rw [ho] at hj
    refine ⟨c, hc, hl.symm, j, hj.imp_right (And.imp_right hr'), ?_⟩
    have hlt : j < (s.lanes c.lane).length := by
      rcases hj with hj | ⟨rfl, hj⟩
      · omega
      · exact hrun (hr' hj)
    rw [List.getElem?_append_left hlt] at hq
    exact hq
  · rintro c₀ - q' hc₀ - ⟨j, hj, hq'⟩
    rw [hc, Option.some.injEq] at hc₀
    subst hc₀
    rw [hl, hes] at hq'
    rw [ho, hr] at hj
    by_cases hlt : j < (s.lanes c.lane).length
    · rw [List.getElem?_append_left hlt] at hq'
      exact Or.inl ⟨j, hj, hq'⟩
    · rw [List.getElem?_append_right (Nat.le_of_not_lt hlt)] at hq'
      exact Or.inr (hnew _ (List.mem_of_getElem? hq'))

theorem noFurther_next {w : WorkerId} {c : Cursor α} (hc : (s.workers w).cursor = some c) {c' : Cursor α}
    (hl : c'.lane = c.lane) (ho : c'.off = c.off + 1) (hr : c'.running = none)
    (hlt : c.off < (t.lanes c.lane).length)
    (hlane : ∀ j q, j ≠ c.off → (t.lanes c.lane)[j]? = some ⟨q, false⟩ → (s.lanes c.lane)[j]? = some ⟨q, false⟩)
    (hlast : ∀ q, (t.lanes c.lane)[c.off]? = some ⟨q, false⟩ → c.running.isSome = true ∧
      (s.lanes c.lane)[c.off]? = some ⟨q, false⟩) : NoFurther s t w c' := by
  refine ⟨by rw [hl, ho]; omega, ?_, ?_⟩
  · rintro q ⟨j, hj, hq⟩
    rw [ho, hr] at hj
    rw [hl] at hq
    have hj' : j < c.off ∨ j = c.off := by
      simp only [Option.isSome_none, Bool.false_eq_true, and_false, or_false] at hj
      omega
    rcases hj' with hj | rfl
    · exact ⟨c, hc, hl.symm, j, Or.inl hj, hlane j q (Nat.ne_of_lt hj) hq⟩
    · obtain ⟨hrun, hq⟩ := hlast q hq
      exact ⟨c, hc, hl.symm, c.off, Or.inr ⟨rfl, hrun⟩, hq⟩
  · rintro c₀ - q' hc₀ - ⟨j, hj, hq'⟩
    rw [hc, Option.some.injEq] at hc₀
    subst hc₀
    rw [ho] at hj
    rw [hl] at hq'
    have hj' : c.off < j := by omega
    exact Or.inl ⟨j, Or.inl hj', hlane j q' (Nat.ne_of_gt hj') hq'⟩

theorem getElem?_mark (c : Cursor α) (p : TaskPtr) (j : ℕ) (q : TaskPtr)
    (h : ((s.markComplete c p).lanes c.lane)[j]? = some ⟨q, false⟩) :
    j ≠ c.off ∧ (s.lanes c.lane)[j]? = some ⟨q, false⟩ := by
  have hset : (s.markComplete c p).lanes c.lane = (s.lanes c.lane).set c.off ⟨p, true⟩ := by
    simp [State.markComplete]
  rw [hset] at h
  by_cases hj : j = c.off
  · subst hj
    have hlt := (List.getElem?_eq_some_iff.mp h).1
    rw [List.length_set] at hlt
    rw [List.getElem?_set_self hlt] at h
    cases h
  · rw [List.getElem?_set_ne (Ne.symm hj)] at h
    exact ⟨hj, h⟩

theorem popTask_lanes_of_ne (c : Cursor α) (h : c.off ≠ 0) : (s.popTask c).1.lanes = s.lanes := by
  simp [State.popTask, h]

theorem endTask_lanes_of_ne (c : Cursor α) (p : TaskPtr) (b : Bool) (h : c.off ≠ 0) :
    (s.endTask c p b).1.lanes = s.lanes := by
  unfold State.endTask
  dsimp only
  split <;> exact popTask_lanes_of_ne c h

theorem noFurther_end {w : WorkerId} {c : Cursor α} (hc : (s.workers w).cursor = some c) {u : State α} {p : TaskPtr}
    {b : Bool} (c₀ : Cursor α) (hl : c₀.lane = c.lane) (ho : c₀.off = c.off) (hu : u.lanes = (s.markComplete c p).lanes)
    (hlt : c.off < (s.lanes c.lane).length) {c' : Cursor α}
    (hc' : (((u.endTask c₀ p b).1.nextPass w (u.endTask c₀ p b).2).workers w).cursor = some c') :
    NoFurther s ((u.endTask c₀ p b).1.nextPass w (u.endTask c₀ p b).2) w c' := by
  rw [State.nextPass, State.setCursor_cursor, Option.some.injEq, State.endTask_place] at hc'
  subst hc'
  -- at the head the entry is popped and the cursor stays
  by_cases hoff : c₀.off = 0
  · exact noFurther_start (by simp [hoff]) rfl
  · have hlanes : ((u.endTask c₀ p b).1.nextPass w (u.endTask c₀ p b).2).lanes = (s.markComplete c p).lanes := by
      rw [← hu]
      exact endTask_lanes_of_ne c₀ p b hoff
    have hnext : (if c₀.off = 0 then c₀.off else c₀.off + 1) = c.off + 1 := by rw [if_neg hoff, ho]
    refine noFurther_next hc hl hnext rfl ?_ ?_ ?_
    · rw [hlanes]
      simpa [State.markComplete] using hlt
    · intro j q _ hq
      rw [hlanes] at hq
      exact (getElem?_mark c p j q hq).2
    · intro q hq
      rw [hlanes] at hq
      exact absurd rfl (getElem?_mark c p c.off q hq).1

theorem emplace_lane (l l' : LaneRef) (x : Task α) :
    ∃ es, (s.emplace l x).lanes l' = s.lanes l' ++ es ∧ ∀ e ∈ es, s.next ≤ e.p := by
  rw [State.emplace_lanes]
  by_cases hl : l' = l
  · subst hl
    exact ⟨_, Function.update_self .., by simp⟩
  · exact ⟨[], by rw [Function.update_of_ne hl, List.append_nil], by simp⟩

theorem keep_lane (l : LaneRef) : ∃ es, s.lanes l = s.lanes l ++ es ∧ ∀ e ∈ es, s.next ≤ e.p :=
  ⟨[], (List.append_nil _).symm, by simp⟩

section Step

variable (h : ScannedFifo.Inv cfg.owner s.lanesView)
  (hoff : ∀ w c, (s.workers w).cursor = some c → c.off ≤ (s.lanes c.lane).length)

include h in
theorem off_lt (hh : s.halted = false) {w : WorkerId} {c : Cursor α} (hc : (s.workers w).cursor = some c)
    (hr : c.running.isSome = true) : c.off < (s.lanes c.lane).length := by
  obtain ⟨r, hr⟩ := Option.isSome_iff_exists.mp hr
  exact (List.getElem?_eq_some_iff.mp (running_waits h hh hc hr)).1

include h hoff

theorem noFurther_keep (hh : s.halted = false) {w : WorkerId} (hw : (t.workers w).cursor = (s.workers w).cursor)
    (hl : ∀ c, (s.workers w).cursor = some c →
      ∃ es, t.lanes c.lane = s.lanes c.lane ++ es ∧ ∀ e ∈ es, s.next ≤ e.p) {c' : Cursor α}
    (hc' : (t.workers w).cursor = some c') : NoFurther s t w c' := by
  rw [hw] at hc'
  exact noFurther_same hc' (hoff w c' hc') rfl rfl Iff.rfl (off_lt h hh hc') (hl c' hc')

theorem noFurther_other (hh : s.halted = false) {w w₀ : WorkerId} {l : LaneRef} (hf : PassFrame s t w₀ l)
    (ho : cfg.owner l = w₀) (hw : w ≠ w₀) {c' : Cursor α} (hc' : (t.workers w).cursor = some c') :
    NoFurther s t w c' := by
  refine noFurther_keep h hoff hh (by rw [hf.workers w hw]) ?_ hc'
  intro c hc
  have hne : c.lane ≠ l := by
    intro hl
    have howner := h.owned w _ (lanesView_places hc)
    rw [Cursor.place, hl, ho] at howner
    exact hw howner.symm
  rw [hf.lanes _ hne]
  exact keep_lane c.lane

theorem scan_cursor (hh : s.halted = false) {w : WorkerId} {l : LaneRef} {i off : ℕ}
    {es : List (LaneRef × Task α)} (hc : (s.workers w).cursor = some ⟨l, i, off, none⟩) {c' : Cursor α}
    (hc' : ((scan cfg s w ⟨l, i, off, none⟩ es).workers w).cursor = some c') :
    NoFurther s (scan cfg s w ⟨l, i, off, none⟩ es) w c' ∨
      ∃ p, Takes cfg s (scan cfg s w ⟨l, i, off, none⟩ es) w ⟨l, i, off, none⟩ p es := by
  have hcase := scan_cases cfg s w ⟨l, i, off, none⟩ es
  generalize scan cfg s w ⟨l, i, off, none⟩ es = t at hcase hc' ⊢
  cases hcase with
  | stop =>
    rw [State.setCursor_cursor] at hc'
    cases hc'
  | passOver p hp =>
    left
    rw [State.nextPass, State.setCursor_cursor, Option.some.injEq, State.popTask_place] at hc'
    subst hc'
    by_cases hz : off = 0
    · exact noFurther_start (by simp [hz]) rfl
    · have hlanes : ((s.popTask ⟨l, i, off, none⟩).1.nextPass w (s.popTask ⟨l, i, off, none⟩).2).lanes = s.lanes :=
        popTask_lanes_of_ne _ hz
      refine noFurther_next hc rfl (by simp [hz]) rfl ?_ ?_ ?_
      · rw [hlanes]
        exact (List.getElem?_eq_some_iff.mp hp).1
      · intro j q _ hq
        rw [hlanes] at hq
        exact hq
      · intro q hq
        rw [hlanes, hp] at hq
        cases hq
  | fatalReturn p hp hf u hu =>
    left
    refine noFurther_end hc ⟨l, i, off, none⟩ rfl rfl ?_ (List.getElem?_eq_some_iff.mp hp).1 hc'
    rw [hu]
    rfl
  | fatal p hp hf =>
    left
    apply noFurther_keep h hoff hh _ _ hc'
    · rfl
    · exact fun c _ => keep_lane c.lane
  | attempt p gen hp hgen => exact Or.inr ⟨p, hc, rfl, hp, gen, rfl⟩

omit hoff in
theorem finish_cursor (hh : s.halted = false) {w : WorkerId} {l : LaneRef} {i off : ℕ} {r : Running α}
    (hc : (s.workers w).cursor = some ⟨l, i, off, some r⟩) (out : Task α) {c' : Cursor α}
    (hc' : ((finish cfg s w ⟨l, i, off, none⟩ r out).workers w).cursor = some c') :
    NoFurther s (finish cfg s w ⟨l, i, off, none⟩ r out) w c' := by
  have hlt := off_lt h hh hc rfl
  have hcase := finish_cases cfg s w ⟨l, i, off, none⟩ r out
  generalize finish cfg s w ⟨l, i, off, none⟩ r out = t at hcase hc' ⊢
  cases hcase with
  | again hm =>
    rw [State.nextPass, State.setCursor_cursor, Option.some.injEq] at hc'
    subst hc'
    exact noFurther_next hc rfl rfl rfl hlt (fun j q _ hq => hq) (fun q hq => ⟨rfl, hq⟩)
  | fatal hm u hu hz =>
    have hw : ({ u.emit (.depthZero w r.task) with halted := true } : State α).workers = s.workers := by
      show u.workers = _
      rw [hu, State.cleanup_workers]
      rfl
    have hlanes : ({ u.emit (.depthZero w r.task) with halted := true } : State α).lanes =
        (s.markComplete ⟨l, i, off, some r⟩ r.task).lanes := by
      show u.lanes = _
      rw [hu, State.cleanup_lanes]
      rfl
    rw [hw, hc, Option.some.injEq] at hc'
    subst hc'
    have hmark (j : ℕ) (q : TaskPtr) (hq : (({ u.emit (.depthZero w r.task) with halted := true } : State α).lanes
        l)[j]? = some ⟨q, false⟩) : (s.lanes l)[j]? = some ⟨q, false⟩ := by
      rw [hlanes] at hq
      exact (getElem?_mark ⟨l, i, off, some r⟩ r.task j q hq).2
    refine ⟨?_, ?_, ?_⟩
    · rw [hlanes]
      simpa [State.markComplete] using Nat.le_of_lt hlt
    · rintro q ⟨j, hj, hq⟩
      exact ⟨_, hc, rfl, j, hj, hmark j q hq⟩
    · rintro c₀ - q' hc₀ - ⟨j, hj, hq'⟩
      rw [hc, Option.some.injEq] at hc₀
      subst hc₀
      exact Or.inl ⟨j, hj, hmark j q' hq'⟩
  | done hm u v hu hv =>
    have hlanes : v.lanes = (s.markComplete ⟨l, i, off, some r⟩ r.task).lanes := by
      rw [hv]
      show u.lanes = _
      rw [hu, State.cleanup_lanes]
      rfl
    exact noFurther_end hc ⟨l, i, off, none⟩ rfl rfl hlanes hlt hc'

theorem step_cursor {i : Label α} (hst : step cfg s i = some t) {w : WorkerId} {c' : Cursor α}
    (hc' : (t.workers w).cursor = some c') : NoFurther s t w c' ∨ ∃ es c p, i = .scan w es ∧
      Takes cfg s t w c p es := by
  obtain ⟨hh, htr⟩ := step_transition hst
  have hsame : ∀ c, (s.workers w).cursor = some c →
      ∃ es, s.lanes c.lane = s.lanes c.lane ++ es ∧ ∀ e ∈ es, s.next ≤ e.p := fun c _ => keep_lane c.lane
  have howner : ∀ {w₀ c₀}, (s.workers w₀).cursor = some c₀ → cfg.owner c₀.lane = w₀ :=
    fun hc => h.owned _ _ (lanesView_places hc)
  cases htr with
  | emplace l x hroom hown =>
    refine Or.inl (noFurther_keep h hoff hh (by rw [State.emplace_workers]) ?_ hc')
    intro c _
    exact emplace_lane l c.lane x
  | poll w₀ l hc ho =>
    left
    by_cases hw : w = w₀
    · subst hw
      rw [State.setCursor_cursor, Option.some.injEq] at hc'
      subst hc'
      exact noFurther_start rfl rfl
    · exact noFurther_other h hoff hh (passFrame_setCursor s w₀ l _) ho hw hc'
  | scan w₀ es l i off hc hes =>
    by_cases hw : w = w₀
    · subst hw
      rcases scan_cursor h hoff hh hc hc' with hno | ⟨p, hp⟩
      · exact Or.inl hno
      · exact Or.inr ⟨es, _, p, rfl, hp⟩
    · exact Or.inl (noFurther_other h hoff hh (passFrame_scan s w₀ _ es) (howner hc) hw hc')
  | put w₀ l i off p exec remote mode dst x es b hc hroom =>
    left
    by_cases hw : w = w₀
    · subst hw
      rw [State.enter, State.setCursor_cursor, Option.some.injEq] at hc'
      subst hc'
      exact noFurther_same hc (hoff w _ hc) rfl rfl (by simp) (off_lt h hh hc) (emplace_lane dst l x)
    · refine noFurther_keep h hoff hh ?_ ?_ hc'
      · rw [State.enter, State.setCursor_workers_other _ _ hw, State.emplace_workers]
      · intro c _
        exact emplace_lane dst c.lane x
  | block w₀ l i off p exec remote mode dst x es b hc hfull =>
    left
    by_cases hw : w = w₀
    · subst hw
      rw [State.enter, State.setCursor_cursor, Option.some.injEq] at hc'
      subst hc'
      exact noFurther_same hc (hoff w _ hc) rfl rfl (by simp) (off_lt h hh hc) (keep_lane l)
    · exact noFurther_other h hoff hh (passFrame_setCursor s w₀ l _) (howner hc) hw hc'
  | registry w₀ op l i off r hc hr =>
    obtain ⟨states, next, heq⟩ := registryOp_eq s op
    rw [heq] at hc' ⊢
    left
    apply noFurther_keep h hoff hh _ _ hc'
    · rfl
    · exact hsame
  | finish w₀ out l i off r hc hes hout =>
    left
    by_cases hw : w = w₀
    · subst hw
      exact finish_cursor h hh hc out hc'
    · have ho : cfg.owner l = w₀ := howner hc
      exact noFurther_other h hoff hh (passFrame_finish s w₀ ⟨l, i, off, none⟩ r out) ho hw hc'
  | write p x hp hx =>
    left
    apply noFurther_keep h hoff hh _ _ hc'
    · rfl
    · exact hsame

end Step

end Cursors

section Groups

variable {cfg : Config α} {s t : State α}

inductive GroupsStep (cfg : Config α) (s t : State α) (i : Label α) (w : WorkerId) : Prop
  | same (hg : (t.workers w).groups.groupMap = (s.workers w).groups.groupMap)
  | check (lib : TaskLib α) (x : Task α) (laneId : UInt32) (b : Bool)
      (hg : (t.workers w).groups = ((s.workers w).groups.checkTaskGroup lib x laneId b).2)
  | remove (out : Task α) (c : Cursor α) (r : Running α) (hi : i = .finish w out)
      (hc : (s.workers w).cursor = some c) (hr : c.running = some r) (hend : .endTask r.task ∈ t.log)
      (hm : (ranTask r (s.mem r.task) out).isModuleComplete = true)
      (hg : (t.workers w).groups = ((s.workers w).groups.removeTaskGroup (cfg.lib r.exec.id)
        (ranTask r (s.mem r.task) out) c.lane.laneId r.isRemote).2)

theorem finish_groups {w : WorkerId} {l : LaneRef} {i off : ℕ} {r : Running α} {out : Task α}
    (hc : (s.workers w).cursor = some ⟨l, i, off, some r⟩) :
    GroupsStep cfg s (finish cfg s w ⟨l, i, off, none⟩ r out) (.finish w out) w := by
  have hcase := finish_cases cfg s w ⟨l, i, off, none⟩ r out
  generalize finish cfg s w ⟨l, i, off, none⟩ r out = t at hcase ⊢
  cases hcase with
  | again hm =>
    refine .same ?_
    rw [State.nextPass, AdmissionInv.setCursor_groups]
    rfl
  | fatal hm u hu hz =>
    refine .same ?_
    show (u.workers w).groups.groupMap = _
    rw [hu, State.cleanup_workers]
    rfl
  | done hm u v hu hv =>
    refine .remove out _ r rfl hc rfl ?_ hm ?_
    · obtain ⟨evs, hlog, -⟩ := v.endTask_log ⟨l, i, off, none⟩ r.task true
      show .endTask r.task ∈ (v.endTask _ r.task true).1.log
      rw [hlog]
      simp
    · rw [State.nextPass, AdmissionInv.setCursor_groups, State.endTask_workers, hv]
      show ((u.setGroups w _).workers w).groups = _
      rw [AdmissionInv.setGroups_groups, if_pos rfl]

theorem step_groups {i : Label α} (hst : step cfg s i = some t) (w : WorkerId) : GroupsStep cfg s t i w := by
  have hst' := hst
  obtain ⟨-, htr⟩ := step_transition hst
  have hframe : ∀ {w₀ l} {u : State α}, PassFrame s u w₀ l → w ≠ w₀ → GroupsStep cfg s u i w :=
    fun hf hw => .same (by rw [hf.workers w hw])
  cases htr with
  | emplace l x hroom hown => exact .same (by rw [State.emplace_workers])
  | poll w₀ l hc ho => exact .same (by rw [AdmissionInv.setCursor_groups])
  | scan w₀ es l i off hc hes =>
    by_cases hw : w = w₀
    · subst hw
      rcases scan_takes hst' with hpass | ⟨c, p, htakes⟩
      · exact .same (by rw [hpass.groups])
      · obtain ⟨r, -, -, hskip | hruns⟩ := htakes.cases
        · exact .same hskip.groups
        · obtain ⟨b, hg⟩ := hruns.groups
          exact .check _ _ _ b hg
    · exact hframe (passFrame_scan s w₀ _ es) hw
  | put w₀ l i off p exec remote mode dst x es b hc hroom =>
    exact .same (by rw [State.enter, AdmissionInv.setCursor_groups, State.emplace_workers])
  | block w₀ l i off p exec remote mode dst x es b hc hfull =>
    exact .same (by rw [State.enter, AdmissionInv.setCursor_groups])
  | registry w₀ op l i off r hc hr =>
    obtain ⟨states, next, heq⟩ := registryOp_eq s op
    exact .same (by rw [heq])
  | finish w₀ out l i off r hc hes hout =>
    by_cases hw : w = w₀
    · subst hw
      exact finish_groups hc
    · exact hframe (passFrame_finish s w₀ ⟨l, i, off, none⟩ r out) hw
  | write p x hp hx => exact .same rfl

theorem GroupsStep.bounded {i : Label α} {w : WorkerId} (h : GroupsStep cfg s t i w)
    (hb : (s.workers w).groups.Bounded) : (t.workers w).groups.Bounded := by
  cases h with
  | same hg =>
    intro k n hn
    rw [hg] at hn
    exact hb k n hn
  | check lib x laneId b hg =>
    rw [hg]
    exact hb.checkTaskGroup lib x laneId b
  | remove out c r hi hc hr hend hm hg =>
    rw [hg]
    exact hb.removeTaskGroup _ _ _ _

end Groups

end HermesRun.Poll
