import HermesRun.Worker.Tasks

namespace HermesRun.Poll

variable {α : Type}

namespace State

variable (s : State α) (c : Cursor α) (l : LaneRef) (p : TaskPtr) (x : Task α)

theorem emit_free {e : Event} {q : TaskPtr} (he : e ≠ .free q) : .free q ∈ (s.emit e).log ↔ .free q ∈ s.log := by
  rw [emit, List.mem_cons, or_iff_right (Ne.symm he)]

theorem emplace_free {q : TaskPtr} : .free q ∈ (s.emplace l x).log ↔ .free q ∈ s.log := by
  rw [emplace_log, List.mem_append, or_iff_right]
  unfold emplaceEvents
  cases x.body <;> simp

theorem cleanup_free {q : TaskPtr} : .free q ∈ (s.cleanup c p x).log ↔ .free q ∈ s.log := by
  have hmark : .free q ∈ (s.markComplete c p).log ↔ .free q ∈ s.log := by simp [markComplete]
  unfold cleanup
  dsimp only
  split_ifs
  · rw [emit_free _ (by simp), hmark]
  · rw [emit_free _ (by simp), hmark]
  · exact hmark

theorem popTask_free {q : TaskPtr} : .free q ∈ (s.popTask c).1.log ↔ .free q ∈ s.log := by
  unfold popTask popHead
  split
  · split <;> simp
  · exact Iff.rfl

theorem endTask_free {q : TaskPtr} (b : Bool) : .free q ∈ (s.endTask c p b).1.log ↔
    .free q ∈ s.log ∨ q = p ∧ b = true ∧ (s.mem p).isFireAndForget = true := by
  have hpop : .free q ∈ ((s.emit (.endTask p)).popTask c).1.log ↔ .free q ∈ s.log := by
    rw [popTask_free, emit_free _ (by simp)]
  have hmem : ((s.emit (.endTask p)).popTask c).1.mem p = s.mem p := by
    rw [popTask_mem]
    rfl
  unfold endTask
  dsimp only
  rw [hmem]
  split_ifs with hfree
  · rw [Bool.and_eq_true] at hfree
    rw [emit, List.mem_cons, hpop, Event.free.injEq]
    simp only [hfree, and_true]
    exact or_comm
  · rw [Bool.and_eq_true] at hfree
    rw [or_iff_left (fun h => hfree h.2)]
    exact hpop

end State

variable {cfg : Config α} {s t : State α}

theorem attempt_free {w : WorkerId} {c : Cursor α} {p q : TaskPtr} {exec : Instance}
    {es : List (LaneRef × Task α)} (h : .free q ∈ (attempt cfg s w c p exec es).log) : .free q ∈ s.log := by
  have hcase := attempt_cases cfg s w c p exec es
  generalize attempt cfg s w c p exec es = t at hcase h
  cases hcase with
  | skip g hg hskip => exact h
  | run hd hc =>
    rcases List.mem_append.mp h with h | h
    · rcases mem_attemptEvents cfg h with h | ⟨a, h⟩ | h <;> cases h
    · exact h

theorem scan_free {w : WorkerId} {c : Cursor α} {q : TaskPtr} {es : List (LaneRef × Task α)}
    (h : .free q ∈ (scan cfg s w c es).log) : .free q ∈ s.log := by
  have hcase := scan_cases cfg s w c es
  generalize scan cfg s w c es = t at hcase h
  cases hcase with
  | stop => exact h
  | passOver p hp => exact (s.popTask_free c).mp h
  | fatalReturn p hp hf u hu =>
    rcases (u.endTask_free c p false).mp h with h | ⟨-, hb, -⟩
    · rw [hu] at h
      simpa [State.markComplete, State.emit] using h
    · cases hb
  | fatal p hp hf => exact (s.emit_free (by simp)).mp h
  | attempt p gen hp hgen => exact (s.emit_free (by simp)).mp (attempt_free h)

theorem finish_free {w : WorkerId} {c : Cursor α} {r : Running α} {q : TaskPtr} {out : Task α}
    (h : .free q ∈ (finish cfg s w c r out).log) : .free q ∈ s.log ∨
      q = r.task ∧ (ranTask r (s.mem r.task) out).isFireAndForget = true := by
  have hcase := finish_cases cfg s w c r out
  generalize finish cfg s w c r out = t at hcase h
  cases hcase with
  | again hm => exact Or.inl h
  | fatal hm u hu hz =>
    have hu' := (u.emit_free (e := .depthZero w r.task) (by simp)).mp h
    rw [hu, State.cleanup_free] at hu'
    exact Or.inl hu'
  | done hm u v hu hv =>
    have hlog : .free q ∈ v.log ↔ .free q ∈ s.log := by
      rw [hv, State.emit_free _ (by simp), hu]
      exact State.cleanup_free ..
    have hmem : v.mem r.task = ranTask r (s.mem r.task) out := by
      rw [hv, hu]
      show ((s.setTask r.task _).cleanup c r.task _).mem r.task = _
      rw [State.cleanup_mem]
      exact Function.update_self ..
    rcases (v.endTask_free c r.task true).mp h with h | ⟨hq, -, hff⟩
    · exact Or.inl (hlog.mp h)
    · rw [hmem] at hff
      exact Or.inr ⟨hq, hff⟩

theorem step_free {i : Label α} (hst : step cfg s i = some t) {q : TaskPtr} (h : .free q ∈ t.log) :
    .free q ∈ s.log ∨ ∃ w out r, i = .finish w out ∧ s.running w = some r ∧ r.task = q ∧
      (ranTask r (s.mem q) out).isFireAndForget = true := by
  obtain ⟨-, htr⟩ := step_transition hst
  cases htr with
  | emplace l x hroom hown => exact Or.inl ((s.emplace_free l x).mp h)
  | poll w l hc ho => exact Or.inl h
  | scan w es l i off hc hes => exact Or.inl (scan_free h)
  | put w l i off p exec remote mode dst x es b hc hroom => exact Or.inl ((s.emplace_free dst x).mp h)
  | block w l i off p exec remote mode dst x es b hc hfull => exact Or.inl h
  | registry w op l i off r hc hr =>
    obtain ⟨states, next, heq⟩ := registryOp_eq s op
    rw [heq] at h
    exact Or.inl h
  | finish w out l i off r hc hes hout =>
    rcases finish_free h with h | ⟨rfl, hff⟩
    · exact Or.inl h
    · exact Or.inr ⟨w, out, r, rfl, by simp [State.running, hc], rfl, hff⟩
  | write p x hp hx => exact Or.inl h

section Counts

namespace State

variable (s : State α) (c : Cursor α) (l : LaneRef) (p q : TaskPtr) (x : Task α)

theorem emplace_freeCount : (s.emplace l x).log.count (.free q) = s.log.count (.free q) := by
  rw [emplace_log, List.count_append]
  unfold emplaceEvents
  cases x.body <;> simp

theorem cleanup_freeCount : (s.cleanup c p x).log.count (.free q) = s.log.count (.free q) := by
  unfold cleanup
  dsimp only
  split_ifs <;> simp [markComplete, emit]

theorem popTask_freeCount : (s.popTask c).1.log.count (.free q) = s.log.count (.free q) := by
  unfold popTask popHead
  split
  · split <;> simp
  · rfl

theorem endTask_freeCount (b : Bool) : (s.endTask c p b).1.log.count (.free q) =
    s.log.count (.free q) + if q = p ∧ b = true ∧ (s.mem p).isFireAndForget = true then 1 else 0 := by
  have hpop : ((s.emit (.endTask p)).popTask c).1.log.count (.free q) = s.log.count (.free q) := by
    rw [popTask_freeCount, emit, List.count_cons_of_ne (by simp)]
  have hmem : ((s.emit (.endTask p)).popTask c).1.mem p = s.mem p := by
    rw [popTask_mem]
    rfl
  unfold endTask
  dsimp only
  rw [hmem]
  split_ifs with hfree hq hq
  · rw [emit, List.count_cons, hpop, hq.1]
    simp
  · rw [Bool.and_eq_true] at hfree
    have hne : p ≠ q := fun heq => hq ⟨heq.symm, hfree⟩
    rw [emit, List.count_cons, hpop]
    simp [hne]
  · rw [Bool.and_eq_true] at hfree
    exact absurd hq.2 hfree
  · exact hpop

end State

theorem attempt_freeCount (s : State α) (w : WorkerId) (c : Cursor α) (p q : TaskPtr) (exec : Instance)
    (es : List (LaneRef × Task α)) : (attempt cfg s w c p exec es).log.count (.free q) = s.log.count (.free q) := by
  have hcase := attempt_cases cfg s w c p exec es
  generalize attempt cfg s w c p exec es = t at hcase ⊢
  cases hcase with
  | skip g hg h => rfl
  | run hd hc =>
    have hnone : .free q ∉ attemptEvents cfg s w c p exec es := by
      intro hq
      rcases mem_attemptEvents cfg hq with h | ⟨a, h⟩ | h <;> cases h
    show (attemptEvents cfg s w c p exec es ++ s.log).count (.free q) = _
    rw [List.count_append, List.count_eq_zero_of_not_mem hnone, Nat.zero_add]

theorem scan_freeCount (s : State α) (w : WorkerId) (c : Cursor α) (q : TaskPtr) (es : List (LaneRef × Task α)) :
    (scan cfg s w c es).log.count (.free q) = s.log.count (.free q) := by
  have hcase := scan_cases cfg s w c es
  generalize scan cfg s w c es = t at hcase ⊢
  cases hcase with
  | stop => rfl
  | passOver p hp => exact s.popTask_freeCount c q
  | fatalReturn p hp hf u hu =>
    show (u.endTask c p false).1.log.count (.free q) = _
    rw [State.endTask_freeCount, hu]
    simp [State.markComplete, State.emit]
  | fatal p hp hf => simp [State.emit]
  | attempt p gen hp hgen =>
    rw [attempt_freeCount]
    simp [State.emit]

inductive EndMove (s : State α) (i : Label α) (t : State α) (q : TaskPtr) : Prop
  | same (hend : .endTask q ∈ t.log → .endTask q ∈ s.log) (hfree : t.log.count (.free q) = s.log.count (.free q))
  | forget (w : WorkerId) (out : Task α) (r : Running α) (hi : i = .finish w out) (hr : s.running w = some r)
      (ht : r.task = q) (hend : .endTask q ∈ t.log) (hf : (t.mem q).isFireAndForget = true)
      (hfree : t.log.count (.free q) = s.log.count (.free q) + 1)
  | keep (w : WorkerId) (out : Task α) (r : Running α) (hi : i = .finish w out) (hr : s.running w = some r)
      (ht : r.task = q) (hend : .endTask q ∈ t.log) (hf : (t.mem q).isFireAndForget = false)
      (hc : (t.mem q).isComplete = true) (hfree : t.log.count (.free q) = s.log.count (.free q))

theorem setComplete_isComplete (x : Task α) : x.setComplete.isComplete = true := by
  simp [Task.setComplete, Task.isComplete, Task.setFlag, taskModuleComplete, taskComplete, Bitfield.setBits_or,
    Bitfield.any_setBits]

theorem endTask_endMove (s : State α) (c : Cursor α) (p : TaskPtr) :
    .endTask p ∈ (s.endTask c p true).1.log ∧
      if (s.mem p).isFireAndForget then ((s.endTask c p true).1.mem p).isFireAndForget = true
      else ((s.endTask c p true).1.mem p).isFireAndForget = false ∧
        ((s.endTask c p true).1.mem p).isComplete = true := by
  obtain ⟨evs, hlog, -⟩ := s.endTask_log c p true
  refine ⟨by rw [hlog]; simp, ?_⟩
  have hmem : ((s.emit (.endTask p)).popTask c).1.mem p = s.mem p := by
    rw [State.popTask_mem]
    rfl
  unfold State.endTask
  dsimp only
  rw [hmem, Bool.true_and]
  by_cases hf : (s.mem p).isFireAndForget = true
  · rw [if_pos hf, if_pos hf]
    show (((s.emit (.endTask p)).popTask c).1.mem p).isFireAndForget = true
    rw [hmem, hf]
  · rw [if_neg hf, if_neg hf]
    have hset (u : State α) (x : Task α) : (u.setTask p x).mem p = x := Function.update_self ..
    rw [hset]
    exact ⟨by simpa using hf, setComplete_isComplete _⟩

theorem step_endMove (hfatal : cfg.fatalReturns = false) (hl : ScannedFifo.Inv cfg.owner s.lanesView) {i : Label α}
    (hst : step cfg s i = some t) (q : TaskPtr) : EndMove s i t q := by
  have hends : .endTask q ∈ t.log → .endTask q ∈ s.log ∨ ∃ w out r, i = .finish w out ∧ s.running w = some r ∧
      r.task = q := by
    intro hend
    rcases (step_tasks hfatal hl hst).ends (p := q) hend with h | ⟨w, out, r, hi, hr, ht, -⟩
    · exact Or.inl h
    · exact Or.inr ⟨w, out, r, hi, hr, ht⟩
  have hquiet : (∀ w out, i ≠ .finish w out) → t.log.count (.free q) = s.log.count (.free q) →
      EndMove s i t q := by
    intro hi hfree
    refine .same ?_ hfree
    intro hend
    rcases hends hend with h | ⟨w, out, r, rfl, -⟩
    · exact h
    · exact absurd rfl (hi w out)
  obtain ⟨-, htr⟩ := step_transition hst
  cases htr with
  | emplace l x hroom hown => exact hquiet (by simp) (s.emplace_freeCount l q x)
  | poll w l hc ho => exact hquiet (by simp) rfl
  | scan w es l i off hc hes => exact hquiet (by simp) (scan_freeCount s w _ q es)
  | put w l i off p exec remote mode dst x es b hc hroom => exact hquiet (by simp) (s.emplace_freeCount dst q x)
  | block w l i off p exec remote mode dst x es b hc hfull => exact hquiet (by simp) rfl
  | registry w op l i off r hc hr =>
    obtain ⟨states, next, heq⟩ := registryOp_eq s op
    exact hquiet (by simp) (by rw [heq])
  | write p x hp hx => exact hquiet (by simp) rfl
  | finish w out l i off r hc hes hout =>
    have hr : s.running w = some r := by rw [State.running, hc, Option.bind_some]
    have hcase := finish_cases cfg s w ⟨l, i, off, none⟩ r out
    generalize finish cfg s w ⟨l, i, off, none⟩ r out = t at hcase hends ⊢
    cases hcase with
    | again hm => exact .same (fun hend => hend) rfl
    | fatal hm u hu hz =>
      have hlog : ∃ evs, u.log = evs ++ s.log ∧ ∀ e ∈ evs, e.isCleanup = true := by
        rw [hu]
        exact State.cleanup_log _ _ _ _
      obtain ⟨evs, hlog, hevs⟩ := hlog
      refine .same ?_ ?_
      · intro hend
        rcases List.mem_cons.mp hend with h | h
        · cases h
        · rw [hlog] at h
          rcases List.mem_append.mp h with h | h
          · exact absurd rfl (Event.ne_endTask (hevs _ h) q)
          · exact h
      · show (Event.depthZero w r.task :: u.log).count (.free q) = _
        rw [List.count_cons_of_ne (by simp), hu, State.cleanup_freeCount]
        rfl
    | done hm u v hu hv =>
      have hcount : v.log.count (.free q) = s.log.count (.free q) := by
        rw [hv, State.emit, List.count_cons_of_ne (by simp), hu]
        exact State.cleanup_freeCount ..
      have hfree := v.endTask_freeCount ⟨l, i, off, none⟩ r.task q true
      obtain ⟨hend, hflag⟩ := endTask_endMove v ⟨l, i, off, none⟩ r.task
      by_cases hq : r.task = q
      · subst hq
        split_ifs at hflag with hf
        · refine .forget w out r rfl hr rfl hend hflag ?_
          rw [if_pos ⟨rfl, rfl, hf⟩, hcount] at hfree
          exact hfree
        · refine .keep w out r rfl hr rfl hend hflag.1 hflag.2 ?_
          rw [if_neg (fun h => hf h.2.2), hcount] at hfree
          exact hfree
      · refine .same ?_ ?_
        · intro hend
          rcases hends hend with h | ⟨w', out', r', hi, hr', ht⟩
          · exact h
          · cases hi
            rw [hr] at hr'
            cases hr'
            exact absurd ht hq
        · rw [if_neg (fun h => hq h.1.symm), hcount] at hfree
          exact hfree

structure Disposed (s : State α) : Prop where
  freed : ∀ q, s.log.count (.free q) = if .endTask q ∈ s.log ∧ (s.mem q).isFireAndForget = true then 1 else 0
  complete : ∀ q, .endTask q ∈ s.log → (s.mem q).isFireAndForget = false → (s.mem q).isComplete = true

theorem disposed_init (mem : TaskPtr → Task α) (registered : TaskStateId → Bool) :
    Disposed (State.init mem registered) := ⟨by simp [State.init], by simp [State.init]⟩

theorem step_endedTask (hfatal : cfg.fatalReturns = false) (hl : ScannedFifo.Inv cfg.owner s.lanesView) {i : Label α}
    (hst : step cfg s i = some t) {q : TaskPtr} (hq : q < s.next) (hend : .endTask q ∈ s.log) :
    t.mem q = s.mem q ∨ ∃ x, i = .write q x ∧ t.mem q = x := by
  have hh := (step_transition hst).1
  cases (step_tasks hfatal hl hst).move (p := q) hq with
  | same hm => exact Or.inl hm
  | start w es exec hi hidle => exact absurd hend hidle.notEnded
  | ran w out r hi hr ht =>
    subst ht
    exact absurd hend (running_known hl hh hr).2
  | write x hi hm => exact Or.inr ⟨x, hi, hm⟩

theorem Disposed.step (h : Disposed s) (hfatal : cfg.fatalReturns = false)
    (hl : ScannedFifo.Inv cfg.owner s.lanesView) {i : Label α} (hst : step cfg s i = some t)
    (hknown : ∀ q, .endTask q ∈ s.log → q < s.next) (hw : ∀ p x, i = .write p x →
      x.isFireAndForget = (s.mem p).isFireAndForget ∧ x.isComplete = (s.mem p).isComplete) : Disposed t := by
  have hh := (step_transition hst).1
  obtain ⟨evs, hlog⟩ := step_log hst
  have hmono (q : TaskPtr) (hend : .endTask q ∈ s.log) : .endTask q ∈ t.log := by
    rw [hlog]
    exact List.mem_append_right _ hend
  have hkeep (q : TaskPtr) (hend : .endTask q ∈ s.log) : (t.mem q).isFireAndForget = (s.mem q).isFireAndForget ∧
      (t.mem q).isComplete = (s.mem q).isComplete := by
    rcases step_endedTask hfatal hl hst (hknown q hend) hend with hm | ⟨x, hi, hm⟩
    · rw [hm]
      exact ⟨rfl, rfl⟩
    · rw [hm]
      exact hw q x hi
  refine ⟨?_, ?_⟩
  · intro q
    have hold := h.freed q
    cases step_endMove hfatal hl hst q with
    | same hend hfree =>
      rw [hfree, hold]
      by_cases hq : .endTask q ∈ s.log
      · simp only [hq, hmono q hq, (hkeep q hq).1]
      · simp only [hq, mt hend hq, false_and]
    | forget w out r hi hr ht hend hf hfree =>
      subst ht
      have hnot : ¬(.endTask r.task ∈ s.log ∧ (s.mem r.task).isFireAndForget = true) :=
        fun hq => (running_known hl hh hr).2 hq.1
      rw [hfree, hold, if_neg hnot, if_pos ⟨hend, hf⟩]
    | keep w out r hi hr ht hend hf hc hfree =>
      subst ht
      have hnot : ¬(.endTask r.task ∈ s.log ∧ (s.mem r.task).isFireAndForget = true) :=
        fun hq => (running_known hl hh hr).2 hq.1
      rw [hfree, hold, if_neg hnot, if_neg (by simp [hf])]
  · intro q hend hf
    have hstay (hq : .endTask q ∈ s.log) : (t.mem q).isComplete = true := by
      rw [(hkeep q hq).2]
      exact h.complete q hq ((hkeep q hq).1 ▸ hf)
    cases step_endMove hfatal hl hst q with
    | same hsame => exact hstay (hsame hend)
    | forget w out r hi hr ht hend' hf' =>
      rw [hf] at hf'
      cases hf'
    | keep w out r hi hr ht hend' hf' hc => exact hc

def Enqueued (s : State α) : Prop := ∀ q, q < s.next → ∃ l, .enqueue l q ∈ s.log

theorem Enqueued.step (h : Enqueued s) (hfatal : cfg.fatalReturns = false)
    (hl : ScannedFifo.Inv cfg.owner s.lanesView) {i : Label α} (hst : step cfg s i = some t) : Enqueued t := by
  intro q hq
  obtain ⟨evs, hlog⟩ := step_log hst
  by_cases hold : q < s.next
  · obtain ⟨l, hmem⟩ := h q hold
    exact ⟨l, by rw [hlog]; exact List.mem_append_right _ hmem⟩
  · obtain ⟨heq, hmade⟩ := (step_tasks hfatal hl hst).made (Nat.le_of_not_lt hold) hq
    have heq : q = s.next := heq
    subst heq
    rcases hmade with ⟨l, hi⟩ | ⟨w, r, dst, es, rfl, -, -⟩
    · obtain ⟨-, htr⟩ := step_transition hst
      generalize t.tasksView.mem s.next = x at hi
      subst hi
      cases htr with
      | emplace l x hroom hown =>
        refine ⟨l, ?_⟩
        rw [State.emplace_log]
        simp [State.emplaceEvents]
    · obtain ⟨r, dst, x, es, -, -, henq, -, -⟩ := put_enqueue hst hq
      exact ⟨dst, henq⟩

theorem Enqueued.waits (h : Enqueued s) (hl : ScannedFifo.Inv cfg.owner s.lanesView) (hh : s.halted = false)
    {q : TaskPtr} (hq : q < s.next) (hend : .endTask q ∉ s.log) : ∃ l, ⟨q, false⟩ ∈ s.lanes l := by
  obtain ⟨l, henq⟩ := h q hq
  have hmem : q ∈ ScannedFifo.enqueued l s.lanesView.log := by
    rw [enqueued_lanesView, enqueued, List.mem_reverse, List.mem_filterMap]
    exact ⟨_, henq, by simp⟩
  rw [hl.fifo l] at hmem
  have hended : .ended q ∉ s.lanesView.log := by
    rw [State.lanesView, History.mem_filterMap_iff (lane?_eq_ended q)]
    exact hend
  rcases List.mem_append.mp hmem with hpop | hlane
  · exact absurd (hl.gone l q hpop) hended
  · obtain ⟨e, he, rfl⟩ := List.mem_map.mp hlane
    refine ⟨l, ?_⟩
    cases hc : e.complete with
    | true => exact absurd (hl.marked hh l e he hc) hended
    | false =>
      obtain ⟨q, b⟩ := e
      cases hc
      exact he

end Counts

end HermesRun.Poll
