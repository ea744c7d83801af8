import HermesRun.Worker.Poll

namespace HermesRun.Poll

variable {α : Type} {cfg : Config α} {s : State α}

def Event.isUse : Event → Bool
  | .begin _ _ => true
  | .hold _ _ => true
  | _ => false

theorem Event.isUse_of_isCleanup {e : Event} (h : e.isCleanup = true) : e.isUse = false := by
  cases e <;> first | rfl | cases h

namespace State

theorem popHead_lanes_other (s : State α) {l l' : LaneRef} (hl : l' ≠ l) :
    (s.popHead l).lanes l' = s.lanes l' := by
  unfold popHead
  split
  · rfl
  · simp [hl]

theorem popTask_lanes_other (s : State α) {c : Cursor α} {l' : LaneRef} (hl : l' ≠ c.lane) :
    (s.popTask c).1.lanes l' = s.lanes l' := by
  unfold popTask
  split
  · exact s.popHead_lanes_other hl
  · rfl

theorem endTask_lanes_other (s : State α) {c : Cursor α} {l' : LaneRef} (p : TaskPtr) (b : Bool)
    (hl : l' ≠ c.lane) : (s.endTask c p b).1.lanes l' = s.lanes l' := by
  unfold endTask
  dsimp only
  split <;> exact (s.emit (.endTask p)).popTask_lanes_other hl

theorem setCursor_workers_other (s : State α) {w w' : WorkerId} (c : Option (Cursor α)) (hw : w' ≠ w) :
    (s.setCursor w c).workers w' = s.workers w' := by
  simp [setCursor, hw]

theorem setGroups_workers_other (s : State α) {w w' : WorkerId} (g : Groups) (hw : w' ≠ w) :
    (s.setGroups w g).workers w' = s.workers w' := by
  simp [setGroups, hw]

theorem setCursor_cursor (s : State α) (w : WorkerId) (c : Option (Cursor α)) :
    ((s.setCursor w c).workers w).cursor = c := by
  simp [setCursor]

end State

structure PassFrame (s t : State α) (w : WorkerId) (l : LaneRef) : Prop where
  lanes : ∀ l', l' ≠ l → t.lanes l' = s.lanes l'
  workers : ∀ w', w' ≠ w → t.workers w' = s.workers w'
  taskStates : t.taskStates = s.taskStates

theorem PassFrame.trans {s t u : State α} {w : WorkerId} {l : LaneRef} (h : PassFrame s t w l)
    (h' : PassFrame t u w l) : PassFrame s u w l := by
  refine ⟨?_, ?_, ?_⟩
  · intro l' hl
    rw [h'.lanes l' hl, h.lanes l' hl]
  · intro w' hw
    rw [h'.workers w' hw, h.workers w' hw]
  · rw [h'.taskStates, h.taskStates]

theorem passFrame_setCursor (s : State α) (w : WorkerId) (l : LaneRef) (c : Option (Cursor α)) :
    PassFrame s (s.setCursor w c) w l :=
  ⟨fun _ _ => rfl, fun _ hw => s.setCursor_workers_other c hw, rfl⟩

theorem passFrame_popTask (s : State α) (w : WorkerId) (c : Cursor α) :
    PassFrame s (s.popTask c).1 w c.lane :=
  ⟨fun _ hl => s.popTask_lanes_other hl, fun _ _ => by rw [State.popTask_workers], by rw [State.popTask_taskStates]⟩

theorem passFrame_endTask (s : State α) (w : WorkerId) (c : Cursor α) (p : TaskPtr) (b : Bool) :
    PassFrame s (s.endTask c p b).1 w c.lane :=
  ⟨fun _ hl => s.endTask_lanes_other p b hl, fun _ _ => by rw [State.endTask_workers],
    by rw [State.endTask_taskStates]⟩

theorem passFrame_markComplete (s : State α) (w : WorkerId) (c : Cursor α) (p : TaskPtr) :
    PassFrame s (s.markComplete c p) w c.lane := by
  refine ⟨?_, fun _ _ => rfl, rfl⟩
  intro l' hl
  simp [State.markComplete, hl]

theorem passFrame_attempt (s : State α) (w : WorkerId) (c : Cursor α) (l : LaneRef) (p : TaskPtr)
    (exec : Instance) (es : List (LaneRef × Task α)) : PassFrame s (attempt cfg s w c p exec es) w l := by
  have hcase := attempt_cases cfg s w c p exec es
  generalize attempt cfg s w c p exec es = t at hcase ⊢
  cases hcase with
  | skip g hg h =>
    refine ⟨fun _ _ => rfl, ?_, rfl⟩
    intro w' hw
    rw [State.enter, State.setCursor_workers_other _ _ hw, State.setGroups_workers_other _ _ hw]
  | run hd hc =>
    refine ⟨fun _ _ => rfl, ?_, rfl⟩
    intro w' hw
    rw [State.enter, State.setCursor_workers_other _ _ hw]
    exact State.setGroups_workers_other _ _ hw

theorem passFrame_cleanup (s : State α) (w : WorkerId) (c : Cursor α) (p : TaskPtr) (t : Task α) :
    PassFrame s (s.cleanup c p t) w c.lane := by
  have hmark := passFrame_markComplete s w c p
  refine ⟨?_, fun _ _ => by rw [State.cleanup_workers], by rw [State.cleanup_taskStates]⟩
  intro l' hl
  rw [State.cleanup_lanes, hmark.lanes l' hl]

theorem passFrame_same {s t : State α} (w : WorkerId) (l : LaneRef) (hl : t.lanes = s.lanes)
    (hw : t.workers = s.workers) (ht : t.taskStates = s.taskStates) : PassFrame s t w l :=
  ⟨fun _ _ => by rw [hl], fun _ _ => by rw [hw], ht⟩

theorem passFrame_scan (s : State α) (w : WorkerId) (c : Cursor α) (es : List (LaneRef × Task α)) :
    PassFrame s (scan cfg s w c es) w c.lane := by
  have hderef (p : TaskPtr) : PassFrame s (s.emit (.deref p)) w c.lane := passFrame_same w c.lane rfl rfl rfl
  have hcase := scan_cases cfg s w c es
  generalize scan cfg s w c es = t at hcase ⊢
  cases hcase with
  | stop => exact passFrame_setCursor s w c.lane _
  | passOver p hp => exact (passFrame_popTask s w c).trans (passFrame_setCursor _ w c.lane _)
  | fatalReturn p hp hf u hu =>
    subst hu
    exact (hderef p).trans ((passFrame_markComplete _ w c p).trans
      ((passFrame_endTask _ w c p false).trans (passFrame_setCursor _ w c.lane _)))
  | fatal p hp hf => exact passFrame_same w c.lane rfl rfl rfl
  | attempt p gen hp hgen => exact (hderef p).trans (passFrame_attempt _ w c c.lane p _ es)

theorem passFrame_finish (s : State α) (w : WorkerId) (c : Cursor α) (r : Running α) (out : Task α) :
    PassFrame s (finish cfg s w c r out) w c.lane := by
  have hset (x : Task α) : PassFrame s (s.setTask r.task x) w c.lane := passFrame_same w c.lane rfl rfl rfl
  have hcase := finish_cases cfg s w c r out
  generalize finish cfg s w c r out = t at hcase ⊢
  cases hcase with
  | again hm => exact (hset _).trans (passFrame_setCursor _ w c.lane _)
  | fatal hm u hu hz =>
    subst hu
    exact ((hset _).trans (passFrame_cleanup _ w c r.task _)).trans (passFrame_same w c.lane rfl rfl rfl)
  | done hm u v hu hv =>
    subst hv hu
    have hg (u : State α) (g : Groups) : PassFrame u ((u.setGroups w g).emit (.release w r.task)) w c.lane :=
      ⟨fun _ _ => rfl, fun _ hw => u.setGroups_workers_other g hw, rfl⟩
    exact (hset _).trans ((passFrame_cleanup _ w c r.task _).trans ((hg _ _).trans
      ((passFrame_endTask _ w c r.task true).trans (passFrame_setCursor _ w c.lane _))))

theorem scan_log (cfg : Config α) (s : State α) (w : WorkerId) (c : Cursor α) (es : List (LaneRef × Task α)) :
    ∃ evs, (scan cfg s w c es).log = evs ++ s.log ∧ ∀ e ∈ evs, e.isUse = true →
      ∃ p id gen, e = .begin p ⟨id, gen⟩ ∧ s.taskStates id = some gen := by
  have hcase := scan_cases cfg s w c es
  generalize scan cfg s w c es = t at hcase ⊢
  cases hcase with
  | stop => exact ⟨[], rfl, by simp⟩
  | passOver p hp =>
    obtain ⟨evs, hlog, hevs⟩ := s.popTask_log c
    refine ⟨evs, hlog, ?_⟩
    intro e he hu
    rw [Event.isUse_of_isCleanup (hevs e he)] at hu
    cases hu
  | fatalReturn p hp hf u hu =>
    obtain ⟨evs, hlog, hevs⟩ := u.endTask_log c p false
    refine ⟨evs ++ [.endTask p, .complete p, .deref p], ?_, ?_⟩
    · show (u.endTask c p false).1.log = _
      rw [hlog, hu, List.append_assoc]
      rfl
    · intro e he hu
      rcases List.mem_append.mp he with he | he
      · rw [Event.isUse_of_isCleanup (hevs e he)] at hu
        cases hu
      · simp only [List.mem_cons, List.not_mem_nil, or_false] at he
        rcases he with rfl | rfl | rfl <;> cases hu
  | fatal p hp hf => exact ⟨[.deref p], rfl, by simp [Event.isUse]⟩
  | attempt p gen hp hgen =>
    have hcase := attempt_cases cfg (s.emit (.deref p)) w c p ⟨(s.mem p).taskState, gen⟩ es
    generalize attempt cfg (s.emit (.deref p)) w c p ⟨(s.mem p).taskState, gen⟩ es = t at hcase ⊢
    cases hcase with
    | skip g hg h => exact ⟨[.deref p], rfl, by simp [Event.isUse]⟩
    | run hd hc =>
      refine ⟨attemptEvents cfg (s.emit (.deref p)) w c p ⟨(s.mem p).taskState, gen⟩ es ++ [.deref p], ?_, ?_⟩
      · rw [List.append_assoc]
        rfl
      · intro e he hu
        rcases List.mem_append.mp he with he | he
        · rcases mem_attemptEvents cfg he with rfl | ⟨a, rfl⟩ | rfl
          · cases hu
          · cases hu
          · exact ⟨p, _, gen, rfl, hgen⟩
        · rw [List.mem_singleton.mp he] at hu
          cases hu

theorem finish_log (cfg : Config α) (s : State α) (w : WorkerId) (c : Cursor α) (r : Running α) (out : Task α) :
    ∃ evs, (finish cfg s w c r out).log = evs ++ s.log ∧ ∀ e ∈ evs, e.isUse = false := by
  have hcase := finish_cases cfg s w c r out
  generalize finish cfg s w c r out = t at hcase ⊢
  cases hcase with
  | again hm => exact ⟨[], rfl, by simp⟩
  | fatal hm u hu hz =>
    obtain ⟨evs, hlog, hevs⟩ := (s.setTask r.task (ranTask r (s.mem r.task) out)).cleanup_log
      (ranTask r (s.mem r.task) out) c r.task
    refine ⟨.depthZero w r.task :: evs, ?_, ?_⟩
    · show .depthZero w r.task :: u.log = _
      rw [hu, hlog]
      rfl
    · intro e he
      rcases List.mem_cons.mp he with rfl | he
      · rfl
      · exact Event.isUse_of_isCleanup (hevs e he)
  | done hm u v hu hv =>
    obtain ⟨evs, hlog, hevs⟩ := (s.setTask r.task (ranTask r (s.mem r.task) out)).cleanup_log
      (ranTask r (s.mem r.task) out) c r.task
    obtain ⟨evs', hlog', hevs'⟩ := v.endTask_log c r.task true
    refine ⟨evs' ++ .endTask r.task :: .release w r.task :: evs, ?_, ?_⟩
    · show (v.endTask c r.task true).1.log = _
      rw [hlog', List.append_assoc, hv]
      show evs' ++ (.endTask r.task :: .release w r.task :: u.log) = _
      rw [hu, hlog]
      rfl
    · intro e he
      simp only [List.mem_append, List.mem_cons] at he
      rcases he with he | rfl | rfl | he
      · exact Event.isUse_of_isCleanup (hevs' e he)
      · rfl
      · rfl
      · exact Event.isUse_of_isCleanup (hevs e he)

theorem step_log {s t : State α} {i : Label α} (hst : step cfg s i = some t) : ∃ evs, t.log = evs ++ s.log := by
  obtain ⟨-, htr⟩ := step_transition hst
  cases htr with
  | emplace l x hroom hown => exact ⟨_, s.emplace_log l x⟩
  | poll w l hc ho => exact ⟨[], rfl⟩
  | scan w es l i off hc hes =>
    obtain ⟨evs, hlog, -⟩ := scan_log cfg s w ⟨l, i, off, none⟩ es
    exact ⟨evs, hlog⟩
  | put w l i off p exec remote mode dst x es b hc hroom => exact ⟨_, s.emplace_log dst x⟩
  | block w l i off p exec remote mode dst x es b hc hfull => exact ⟨[], rfl⟩
  | registry w op l i off r hc hr =>
    obtain ⟨states, next, heq⟩ := registryOp_eq s op
    exact ⟨[], by rw [heq]; rfl⟩
  | finish w out l i off r hc hes hout =>
    obtain ⟨evs, hlog, -⟩ := finish_log cfg s w ⟨l, i, off, none⟩ r out
    exact ⟨evs, hlog⟩
  | write p x hp hx => exact ⟨[], rfl⟩

end HermesRun.Poll
