import HermesRun.Worker.Frames
import HermesRun.Worker.Lanes

namespace HermesRun.Poll

open Runs

variable {α : Type} {cfg : Config α}

/-- A task that was begun on a task state, or a push task that holds one, and that has not ended. -/
def Uses (log : List Event) (p : TaskPtr) (e : Instance) : Prop :=
  (.begin p e ∈ log ∨ .hold p e ∈ log) ∧ .endTask p ∉ log

def StatesAlive (s : State α) : Prop := ∀ p e, Uses s.log p e → s.taskStates e.id = some e.gen

def HoldsRunning (s : State α) : Prop :=
  ∀ w c r, (s.workers w).cursor = some c → c.running = some r → ∀ e ∈ r.emplaces, ∀ i,
    e.2.body.pushInfo = some i → .begin r.task i.exec ∈ s.log

structure LifetimeInv (cfg : Config α) (s : State α) : Prop where
  lanes : ScannedFifo.Inv cfg.owner s.lanesView
  holds : HoldsRunning s

theorem StatesAlive.extend {s t : State α} {evs : List Event} (h : StatesAlive s)
    (hstates : t.taskStates = s.taskStates) (hlog : t.log = evs ++ s.log)
    (hnew : ∀ e ∈ evs, e.isUse = true → ∃ p i, (e = .begin p i ∨ e = .hold p i) ∧
      s.taskStates i.id = some i.gen) : StatesAlive t := by
  intro p e huse
  obtain ⟨hmem, hend⟩ := huse
  rw [hlog] at hmem hend
  rw [hstates]
  have hold : (.begin p e ∈ s.log ∨ .hold p e ∈ s.log) ∨ (.begin p e ∈ evs ∨ .hold p e ∈ evs) := by
    rw [List.mem_append, List.mem_append] at hmem
    tauto
  rcases hold with hold | hbegin | hhold
  · exact h p e ⟨hold, fun hm => hend (List.mem_append_right _ hm)⟩
  · obtain ⟨q, i, heq | heq, hi⟩ := hnew _ hbegin rfl
    · rw [(Event.begin.inj heq).2]
      exact hi
    · cases heq
  · obtain ⟨q, i, heq | heq, hi⟩ := hnew _ hhold rfl
    · cases heq
    · rw [(Event.hold.inj heq).2]
      exact hi

theorem HoldsRunning.extend {s t : State α} (h : HoldsRunning s) (evs : List Event)
    (hlog : t.log = evs ++ s.log) {w : WorkerId} (hother : ∀ w', w' ≠ w → t.workers w' = s.workers w')
    (hnew : ∀ c r, (t.workers w).cursor = some c → c.running = some r → ∀ e ∈ r.emplaces, ∀ i,
      e.2.body.pushInfo = some i → .begin r.task i.exec ∈ t.log) : HoldsRunning t := by
  intro w' c r hc hr
  by_cases hw : w' = w
  · subst hw
    exact hnew c r hc hr
  · rw [hother w' hw] at hc
    intro e he i hi
    rw [hlog]
    exact List.mem_append_right _ (h w' c r hc hr e he i hi)

theorem attempt_holds {s : State α} {w : WorkerId} {c c' : Cursor α} {p : TaskPtr} {exec : Instance}
    {es : List (LaneRef × Task α)} {r : Running α} (hes : es.all (fun e => isOwn e.2) = true)
    (hc : ((attempt cfg s w c p exec es).workers w).cursor = some c') (hr : c'.running = some r) :
    ∀ e ∈ r.emplaces, ∀ i, e.2.body.pushInfo = some i →
      .begin r.task i.exec ∈ (attempt cfg s w c p exec es).log := by
  have hown : ∀ e ∈ es, e.2.body.pushInfo = none := by
    simpa [isOwn] using hes
  have hcase := attempt_cases cfg s w c p exec es
  generalize attempt cfg s w c p exec es = t at hcase hc ⊢
  cases hcase with
  | skip g hg h =>
    rw [State.enter, State.setCursor_cursor] at hc
    cases hc
    cases hr
    simp
  | run hd hcheck =>
    rw [State.enter, State.setCursor_cursor] at hc
    cases hc
    cases hr
    intro e he i hi
    have hexec : i.exec = exec := by
      rcases mem_execute_emplaces cfg he with heq | he
      · rw [heq] at hi
        cases hi
        rfl
      · rw [hown e he] at hi
        cases hi
    rw [hexec]
    have hbegin : .begin p exec ∈ attemptEvents cfg s w c p exec es := by simp [attemptEvents]
    exact List.mem_append_left _ hbegin

theorem scan_holds {s : State α} {w : WorkerId} {c c' : Cursor α} {es : List (LaneRef × Task α)}
    {r : Running α} (hcur : (s.workers w).cursor = some c) (hrun : c.running = none)
    (hes : es.all (fun e => isOwn e.2) = true)
    (hc : ((scan cfg s w c es).workers w).cursor = some c') (hr : c'.running = some r) :
    ∀ e ∈ r.emplaces, ∀ i, e.2.body.pushInfo = some i → .begin r.task i.exec ∈ (scan cfg s w c es).log := by
  have hcase := scan_cases cfg s w c es
  generalize scan cfg s w c es = t at hcase hc ⊢
  cases hcase with
  | stop =>
    rw [State.setCursor_cursor] at hc
    cases hc
  | passOver p hp =>
    rw [State.nextPass, State.setCursor_cursor] at hc
    cases hc
    cases hr
  | fatalReturn p hp hf u hu =>
    rw [State.nextPass, State.setCursor_cursor] at hc
    cases hc
    cases hr
  | fatal p hp hf =>
    have hc' : (s.workers w).cursor = some c' := hc
    rw [hcur, Option.some.injEq] at hc'
    rw [← hc', hrun] at hr
    cases hr
  | attempt p gen hp hgen => exact attempt_holds hes hc hr

theorem finish_emplaces {s : State α} {w : WorkerId} {l : LaneRef} {i off : ℕ} {c' : Cursor α}
    {r r' : Running α} {out : Task α} (hcur : (s.workers w).cursor = some ⟨l, i, off, some r⟩)
    (hes : r.emplaces = [])
    (hc : ((finish cfg s w ⟨l, i, off, none⟩ r out).workers w).cursor = some c') (hr : c'.running = some r') :
    r'.emplaces = [] := by
  have hcase := finish_cases cfg s w ⟨l, i, off, none⟩ r out
  generalize finish cfg s w ⟨l, i, off, none⟩ r out = t at hcase hc
  cases hcase with
  | again hm =>
    rw [State.nextPass, State.setCursor_cursor] at hc
    cases hc
    cases hr
  | fatal hm u hu hz =>
    have hc' : (u.workers w).cursor = some c' := hc
    rw [hu, State.cleanup_workers] at hc'
    have hc'' : (s.workers w).cursor = some c' := hc'
    rw [hcur, Option.some.injEq] at hc''
    rw [← hc''] at hr
    cases hr
    exact hes
  | done hm u v hu hv =>
    rw [State.nextPass, State.setCursor_cursor] at hc
    cases hc
    cases hr

theorem emplaceEvents_use {s : State α} {l : LaneRef} {x : Task α} {e : Event}
    (he : e ∈ s.emplaceEvents l x) (hu : e.isUse = true) :
    ∃ i, x.body.pushInfo = some i ∧ e = .hold s.next i.exec := by
  unfold State.emplaceEvents at he
  cases hb : x.body with
  | own a =>
    rw [hb] at he
    rw [List.mem_singleton.mp he] at hu
    cases hu
  | push i =>
    rw [hb] at he
    simp only [List.cons_append, List.nil_append, List.mem_cons, List.not_mem_nil, or_false] at he
    rcases he with rfl | rfl
    · exact ⟨i, rfl, rfl⟩
    · cases hu

theorem step_lifetimeInv {s t : State α} {i : Label α} (h : LifetimeInv cfg s)
    (hst : step cfg s i = some t) : LifetimeInv cfg t := by
  refine ⟨step_lanesInv h.lanes hst, ?_⟩
  obtain ⟨hh, htr⟩ := step_transition hst
  cases htr with
  | emplace l x _ _ =>
    intro w c r hc hr e he i hi
    rw [State.emplace_workers] at hc
    rw [State.emplace_log]
    exact List.mem_append_right _ (h.holds w c r hc hr e he i hi)
  | poll w l hc ho =>
    refine h.holds.extend [] rfl (fun _ hw => s.setCursor_workers_other _ hw) ?_
    intro c r hc' hr
    rw [State.setCursor_cursor] at hc'
    cases hc'
    cases hr
  | scan w es l i off hc hes =>
    obtain ⟨evs, hlog, -⟩ := scan_log cfg s w ⟨l, i, off, none⟩ es
    refine h.holds.extend evs hlog (passFrame_scan s w ⟨l, i, off, none⟩ es).workers ?_
    intro c r hc' hr
    exact scan_holds hc rfl hes hc' hr
  | put w l i off p exec remote mode dst x es b hc _ =>
    refine h.holds.extend (w := w) _ (s.emplace_log dst x) ?_ ?_
    · intro w' hw
      rw [State.enter, State.setCursor_workers_other _ _ hw, State.emplace_workers]
    · intro c r hc' hr e he i hi
      rw [State.enter, State.setCursor_cursor] at hc'
      cases hc'
      cases hr
      have hold := h.holds w _ _ hc rfl e (List.mem_cons_of_mem _ he) i hi
      show .begin p i.exec ∈ (s.emplace dst x).log
      rw [State.emplace_log]
      exact List.mem_append_right _ hold
  | block w l i off p exec remote mode dst x es b hc _ =>
    refine h.holds.extend [] rfl (fun _ hw => s.setCursor_workers_other _ hw) ?_
    intro c r hc' hr
    rw [State.enter, State.setCursor_cursor] at hc'
    cases hc'
    cases hr
    have hold := h.holds w _ _ hc rfl
    exact hold
  | registry w op l i off r hc _ =>
    obtain ⟨states, next, heq⟩ := registryOp_eq s op
    rw [heq]
    exact h.holds
  | finish w out l i off r hc hes _ =>
    obtain ⟨evs, hlog, -⟩ := finish_log cfg s w ⟨l, i, off, none⟩ r out
    refine h.holds.extend evs hlog (passFrame_finish s w ⟨l, i, off, none⟩ r out).workers ?_
    intro c r' hc' hr' e he
    rw [finish_emplaces hc hes hc' hr'] at he
    simp at he
  | write p x _ _ => exact h.holds

def DestroysUnused (s : State α) : Label α → Prop
  | .registry _ (.destroy id) => ∀ p e, Uses s.log p e → e.id ≠ id
  | _ => True

theorem statesAlive_destroy {s : State α} (h : StatesAlive s) (id : TaskStateId) :
    StatesAlive (registryOp s (.destroy id)) ↔ ∀ p e, Uses s.log p e → e.id ≠ id := by
  constructor
  · intro ht p e huse hid
    have halive := ht p e huse
    rw [hid] at halive
    simp [registryOp] at halive
  · intro hunused p e huse
    simp only [registryOp]
    rw [Function.update_of_ne (hunused p e huse)]
    exact h p e huse

theorem step_statesAlive {s t : State α} {i : Label α} (hinv : LifetimeInv cfg s) (h : StatesAlive s)
    (hst : step cfg s i = some t) : StatesAlive t ↔ DestroysUnused s i := by
  obtain ⟨hh, htr⟩ := step_transition hst
  cases htr with
  | emplace l x _ hown =>
    refine iff_of_true (h.extend (s.emplace_taskStates l x) (s.emplace_log l x) ?_) trivial
    intro e he hu
    obtain ⟨i, hi, -⟩ := emplaceEvents_use he hu
    simp [isOwn, hi] at hown
  | poll w l hc ho => exact iff_of_true h trivial
  | scan w es l i off hc hes =>
    obtain ⟨evs, hlog, hevs⟩ := scan_log cfg s w ⟨l, i, off, none⟩ es
    refine iff_of_true (h.extend (passFrame_scan s w ⟨l, i, off, none⟩ es).taskStates hlog ?_) trivial
    intro e he hu
    obtain ⟨p, id, gen, heq, hgen⟩ := hevs e he hu
    exact ⟨p, ⟨id, gen⟩, Or.inl heq, hgen⟩
  | put w l i off p exec remote mode dst x es b hc _ =>
    refine iff_of_true (h.extend (s.emplace_taskStates dst x) (s.emplace_log dst x) ?_) trivial
    intro e he hu
    obtain ⟨i, hi, heq⟩ := emplaceEvents_use he hu
    have hbegin := hinv.holds w _ _ hc rfl (dst, x) List.mem_cons_self i hi
    -- the dispersed task itself is still unfinished, so its task state is there
    have hwait : (s.lanes l)[off]? = some ⟨p, false⟩ := hinv.lanes.running hh w l off p (lanesView_places hc)
    have hend : .endTask p ∉ s.log := by
      rw [← History.mem_filterMap_iff (lane?_eq_ended p)]
      exact hinv.lanes.waiting l _ (List.mem_of_getElem? hwait) rfl
    exact ⟨s.next, i.exec, Or.inr heq, h p i.exec ⟨Or.inl hbegin, hend⟩⟩
  | block w l i off p exec remote mode dst x es b hc _ => exact iff_of_true h trivial
  | registry w op l i off r hc _ =>
    cases op with
    | create id =>
      refine iff_of_true ?_ trivial
      intro p e huse
      unfold registryOp at huse ⊢
      dsimp only at huse ⊢
      cases hid : s.taskStates id with
      | none =>
        simp only [hid] at huse ⊢
        have halive := h p e huse
        have hne : e.id ≠ id := by
          intro heq
          rw [heq, hid] at halive
          cases halive
        rw [Function.update_of_ne hne]
        exact halive
      | some gen =>
        simp only [hid] at huse ⊢
        exact h p e huse
    | destroy id => exact statesAlive_destroy h id
  | finish w out l i off r hc hes _ =>
    obtain ⟨evs, hlog, hevs⟩ := finish_log cfg s w ⟨l, i, off, none⟩ r out
    refine iff_of_true (h.extend (passFrame_finish s w ⟨l, i, off, none⟩ r out).taskStates hlog ?_) trivial
    intro e he hu
    rw [hevs e he] at hu
    cases hu
  | write p x _ _ => exact iff_of_true h trivial

theorem statesAlive_along_iff (cfg : Config α) (mem : TaskPtr → Task α) (registered : TaskStateId → Bool)
    (is : List (Label α)) :
    Along (step cfg) (fun _ _ t => StatesAlive t) (State.init mem registered) is ↔
      Along (step cfg) (fun s i _ => DestroysUnused s i) (State.init mem registered) is := by
  apply along_iff (J := LifetimeInv cfg)
  · intro s i t hs hst
    exact step_lifetimeInv hs hst
  · intro s i t hs hp hst
    exact step_statesAlive hs hp hst
  · refine ⟨lanesView_init mem registered, ?_⟩
    intro w c r hc
    cases hc
  · intro p e huse
    simp [Uses, State.init] at huse

def destroyWhileRunning : List (Label Unit) :=
  let l : LaneRef := ⟨⟨1, 1⟩, TaskPrio.kLowLatency, 0⟩
  let admin : LaneRef := ⟨⟨1, 0⟩, TaskPrio.kAdmin, 0⟩
  let destroy : Task Unit := ⟨⟨1, 0⟩, ⟨⟨1, 5⟩, 0⟩, DomainId.getLocal, TaskPrio.kAdmin, 0,
    HermesRunAdmin.Method.kDestroyTaskState, 0#32, .own ()⟩
  [.emplace l (pushOf 4 0 0), .emplace admin destroy, .poll 0 l,
    .scan 0 [], .finish 0 (pushOf 4 0 taskHasStarted), .scan 0 [],
    .poll 0 admin, .scan 0 [], .registry 0 (.destroy ⟨1, 1⟩)]

theorem statesAlive_destroyWhileRunning :
    ∃ t, run (step bootConfig) bootState destroyWhileRunning = some t ∧ ¬StatesAlive t := by
  have hany : (run (step bootConfig) bootState destroyWhileRunning).any (fun t =>
      .begin 0 ⟨⟨1, 1⟩, 0⟩ ∈ t.log ∧ .endTask 0 ∉ t.log ∧ t.taskStates ⟨1, 1⟩ = none) = true := by
    decide +kernel
  obtain ⟨t, ht, hbad⟩ := (Option.any_eq_true _ _).mp hany
  obtain ⟨hbegin, hend, hnone⟩ := of_decide_eq_true hbad
  refine ⟨t, ht, ?_⟩
  intro h
  have halive := h 0 ⟨⟨1, 1⟩, 0⟩ ⟨Or.inl hbegin, hend⟩
  rw [hnone] at halive
  cases halive

end HermesRun.Poll
