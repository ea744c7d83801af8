import HermesRun.Worker.Frames
import HermesRun.Worker.Lanes

namespace HermesRun.Poll

open Runs

variable {α : Type} {cfg : Config α}

def EmplacesOnto (s : State α) (w : WorkerId) (l : LaneRef) : Prop :=
  ∃ c r x es, (s.workers w).cursor = some c ∧ c.running = some r ∧ r.emplaces = (l, x) :: es

def BlockedOn (s : State α) (w : WorkerId) (l : LaneRef) : Prop :=
  ∃ c r x es, (s.workers w).cursor = some c ∧ c.running = some r ∧ r.emplaces = (l, x) :: es ∧ r.blocked = true

/-- A worker waits for room in a full lane that only it can drain. -/
def SelfBlocked (cfg : Config α) (s : State α) (w : WorkerId) : Prop :=
  ∃ l, BlockedOn s w l ∧ cfg.owner l = w ∧ hasRoom cfg s l = false

def NoneSelfBlocked (cfg : Config α) (s : State α) : Prop := ∀ w, ¬SelfBlocked cfg s w

structure BlockingInv (cfg : Config α) (s : State α) : Prop where
  lanes : ScannedFifo.Inv cfg.owner s.lanesView
  full : ∀ w l, BlockedOn s w l → cfg.owner l = w → hasRoom cfg s l = false

theorem BlockedOn.of_cursor_eq {s t : State α} {w : WorkerId} {l : LaneRef} (hb : BlockedOn t w l)
    (h : (t.workers w).cursor = (s.workers w).cursor) : BlockedOn s w l := by
  unfold BlockedOn at hb ⊢
  rwa [h] at hb

theorem hasRoom_false_iff {s : State α} {l : LaneRef} :
    hasRoom cfg s l = false ↔ cfg.depth l ≤ (s.lanes l).length := by
  simp [hasRoom]

theorem length_le_of_passFrame {s t : State α} {w w' : WorkerId} {l l' : LaneRef}
    (h : PassFrame s t w' l') (ho : cfg.owner l = w) (ho' : cfg.owner l' = w') (hw : w ≠ w') :
    (s.lanes l).length ≤ (t.lanes l).length := by
  have hl : l ≠ l' := by
    rintro rfl
    exact hw (ho.symm.trans ho')
  rw [h.lanes l hl]

theorem length_le_emplace (s : State α) (l l' : LaneRef) (x : Task α) :
    (s.lanes l).length ≤ ((s.emplace l' x).lanes l).length := by
  rw [State.emplace_lanes]
  by_cases hl : l = l'
  · subst hl
    simp
  · simp [hl]

theorem not_blockedOn_of_running_none {s : State α} {w : WorkerId} {c : Cursor α} {l : LaneRef}
    (hc : (s.workers w).cursor = some c) (hr : c.running = none) : ¬BlockedOn s w l := by
  rintro ⟨c', r, x, es, hc', hr', -⟩
  rw [hc, Option.some.injEq] at hc'
  rw [← hc', hr] at hr'
  cases hr'

theorem not_blockedOn_of_cursor_none {s : State α} {w : WorkerId} {l : LaneRef}
    (hc : (s.workers w).cursor = none) : ¬BlockedOn s w l := by
  rintro ⟨c', r, x, es, hc', -⟩
  rw [hc] at hc'
  cases hc'

theorem scan_not_blocked {s : State α} {w : WorkerId} {c : Cursor α} {es : List (LaneRef × Task α)}
    (hcur : (s.workers w).cursor = some c) (hrun : c.running = none) (l : LaneRef) :
    ¬BlockedOn (scan cfg s w c es) w l := by
  have hcase := scan_cases cfg s w c es
  generalize scan cfg s w c es = t at hcase ⊢
  cases hcase with
  | stop => exact not_blockedOn_of_cursor_none (State.setCursor_cursor s w none)
  | passOver p hp => exact not_blockedOn_of_running_none (State.setCursor_cursor _ w _) rfl
  | fatalReturn p hp hf u hu => exact not_blockedOn_of_running_none (State.setCursor_cursor _ w _) rfl
  | fatal p hp hf => exact not_blockedOn_of_running_none (s := { s.emit (.deref p) with halted := true }) hcur hrun
  | attempt p gen hp hgen =>
    rintro ⟨c', r, x, es', hc, hr, -, hb⟩
    have hcase := attempt_cases cfg (s.emit (.deref p)) w c p ⟨(s.mem p).taskState, gen⟩ es
    generalize attempt cfg (s.emit (.deref p)) w c p ⟨(s.mem p).taskState, gen⟩ es = t at hcase hc
    cases hcase with
    | skip | run =>
      rw [State.enter, State.setCursor_cursor, Option.some.injEq] at hc
      rw [← hc, Option.some.injEq] at hr
      rw [← hr] at hb
      cases hb

theorem finish_not_blocked {s : State α} {w : WorkerId} {l : LaneRef} {i off : ℕ} {r : Running α}
    {out : Task α} (hcur : (s.workers w).cursor = some ⟨l, i, off, some r⟩) (hes : r.emplaces = [])
    (l' : LaneRef) : ¬BlockedOn (finish cfg s w ⟨l, i, off, none⟩ r out) w l' := by
  have hcase := finish_cases cfg s w ⟨l, i, off, none⟩ r out
  generalize finish cfg s w ⟨l, i, off, none⟩ r out = t at hcase ⊢
  cases hcase with
  | again hm => exact not_blockedOn_of_running_none (State.setCursor_cursor _ w _) rfl
  | fatal hm u hu hz =>
    rintro ⟨c', r', x, es', hc, hr, hem, -⟩
    have hc' : (u.workers w).cursor = some c' := hc
    rw [hu, State.cleanup_workers] at hc'
    have hc'' : (s.workers w).cursor = some c' := hc'
    rw [hcur, Option.some.injEq] at hc''
    rw [← hc'', Option.some.injEq] at hr
    rw [← hr, hes] at hem
    cases hem
  | done hm u v hu hv => exact not_blockedOn_of_running_none (State.setCursor_cursor _ w _) rfl

theorem step_blockedOn {s t : State α} {i : Label α} (hst : step cfg s i = some t) {w : WorkerId} {l : LaneRef}
    (hb : BlockedOn t w l) :
    BlockedOn s w l ∨ i = .put w ∧ EmplacesOnto s w l ∧ hasRoom cfg s l = false := by
  obtain ⟨-, htr⟩ := step_transition hst
  cases htr with
  | emplace l' x _ _ =>
    left
    exact hb.of_cursor_eq (by rw [State.emplace_workers])
  | poll w' l' hc ho =>
    by_cases hw : w = w'
    · subst hw
      exact absurd hb (not_blockedOn_of_running_none (State.setCursor_cursor s w _) rfl)
    · left
      exact hb.of_cursor_eq (by rw [State.setCursor_workers_other _ _ hw])
  | scan w' es l' i off hc hes =>
    by_cases hw : w = w'
    · subst hw
      exact absurd hb (scan_not_blocked hc rfl l)
    · left
      exact hb.of_cursor_eq (by rw [(passFrame_scan s w' _ es).workers w hw])
  | put w' l' i off p exec remote mode dst x es b hc hroom =>
    by_cases hw : w = w'
    · subst hw
      obtain ⟨c, r, y, es', hc', hr, -, hblocked⟩ := hb
      rw [State.enter, State.setCursor_cursor, Option.some.injEq] at hc'
      rw [← hc', Option.some.injEq] at hr
      rw [← hr] at hblocked
      cases hblocked
    · left
      exact hb.of_cursor_eq (by rw [State.enter, State.setCursor_workers_other _ _ hw,
        State.emplace_workers])
  | block w' l' i off p exec remote mode dst x es b hc hfull =>
    by_cases hw : w = w'
    · subst hw
      right
      obtain ⟨c, r, y, es', hc', hr, hem, -⟩ := hb
      rw [State.enter, State.setCursor_cursor, Option.some.injEq] at hc'
      rw [← hc', Option.some.injEq] at hr
      rw [← hr, List.cons.injEq, Prod.mk.injEq] at hem
      obtain ⟨⟨rfl, rfl⟩, -⟩ := hem
      exact ⟨rfl, ⟨_, _, _, _, hc, rfl, rfl⟩, hfull⟩
    · left
      exact hb.of_cursor_eq (by rw [State.enter, State.setCursor_workers_other _ _ hw])
  | registry w' op l' i off r hc _ =>
    obtain ⟨states, next, heq⟩ := registryOp_eq s op
    exact Or.inl (hb.of_cursor_eq (by rw [heq]))
  | finish w' out l' i off r hc hes _ =>
    by_cases hw : w = w'
    · subst hw
      exact absurd hb (finish_not_blocked hc hes l)
    · left
      exact hb.of_cursor_eq (by rw [(passFrame_finish s w' _ r out).workers w hw])
  | write p x _ _ => exact Or.inl hb

theorem step_length_le {s t : State α} {i : Label α} (hinv : ScannedFifo.Inv cfg.owner s.lanesView)
    (hst : step cfg s i = some t) {w : WorkerId} {l l' : LaneRef} (ho : cfg.owner l = w)
    (hb : BlockedOn s w l') : (s.lanes l).length ≤ (t.lanes l).length := by
  obtain ⟨c, r, y, es', hc', hr, hem, -⟩ := hb
  obtain ⟨-, htr⟩ := step_transition hst
  cases htr with
  | emplace l' x _ _ => exact length_le_emplace s l l' x
  | poll w' l' hc ho' => exact le_refl _
  | scan w' es l' i off hc hes =>
    refine length_le_of_passFrame (passFrame_scan s w' ⟨l', i, off, none⟩ es) ho
      (hinv.owned w' _ (lanesView_places hc)) ?_
    rintro rfl
    rw [hc, Option.some.injEq] at hc'
    rw [← hc'] at hr
    cases hr
  | put w' l' i off p exec remote mode dst x es b hc hroom => exact length_le_emplace s l dst x
  | block w' l' i off p exec remote mode dst x es b hc hfull => exact le_refl _
  | registry w' op l' i off r hc _ =>
    obtain ⟨states, next, heq⟩ := registryOp_eq s op
    rw [heq]
  | finish w' out l' i off r' hc hes _ =>
    refine length_le_of_passFrame (passFrame_finish s w' ⟨l', i, off, none⟩ r' out) ho
      (hinv.owned w' _ (lanesView_places hc)) ?_
    rintro rfl
    rw [hc, Option.some.injEq] at hc'
    rw [← hc', Option.some.injEq] at hr
    rw [← hr, hes] at hem
    cases hem
  | write p x _ _ => exact le_refl _

theorem step_blockingInv {s t : State α} {i : Label α} (h : BlockingInv cfg s)
    (hst : step cfg s i = some t) : BlockingInv cfg t := by
  refine ⟨step_lanesInv h.lanes hst, ?_⟩
  intro w l hb ho
  have hcase := step_blockedOn hst hb
  obtain ⟨-, htr⟩ := step_transition hst
  rcases hcase with hold | ⟨rfl, hemp, hfull⟩
  · have hlen := step_length_le h.lanes hst ho hold
    have hfull := h.full w l hold ho
    rw [hasRoom_false_iff] at hfull ⊢
    omega
  · cases htr with
    | put _ l' i off p exec remote mode dst x es b hc hroom =>
      exact absurd hb (by
        rintro ⟨c, r, y, es', hc', hr, -, hblocked⟩
        rw [State.enter, State.setCursor_cursor, Option.some.injEq] at hc'
        rw [← hc', Option.some.injEq] at hr
        rw [← hr] at hblocked
        cases hblocked)
    | block _ l' i off p exec remote mode dst x es b hc hfull' => exact hfull

def OwnLanesHaveRoom (cfg : Config α) (s : State α) : Label α → Prop
  | .put w => ∀ l, EmplacesOnto s w l → cfg.owner l = w → hasRoom cfg s l = true
  | _ => True

theorem step_noneSelfBlocked {s t : State α} {i : Label α} (hinv : BlockingInv cfg s)
    (h : NoneSelfBlocked cfg s) (hst : step cfg s i = some t) :
    NoneSelfBlocked cfg t ↔ OwnLanesHaveRoom cfg s i := by
  constructor
  · intro ht
    cases i with
    | put w =>
      intro l hemp ho
      by_contra hroom
      rw [Bool.not_eq_true] at hroom
      obtain ⟨c, r, x, es, hc, hr, hem⟩ := hemp
      obtain ⟨-, htr⟩ := step_transition hst
      cases htr with
      | put _ l' i off p exec remote mode dst y es' b hc' hroom' =>
        rw [hc', Option.some.injEq] at hc
        rw [← hc, Option.some.injEq] at hr
        rw [← hr, List.cons.injEq, Prod.mk.injEq] at hem
        rw [hem.1.1, hroom] at hroom'
        cases hroom'
      | block _ l' i off p exec remote mode dst y es' b hc' hfull =>
        rw [hc', Option.some.injEq] at hc
        rw [← hc, Option.some.injEq] at hr
        rw [← hr, List.cons.injEq, Prod.mk.injEq] at hem
        apply ht w
        exact ⟨l, ⟨_, _, y, es', State.setCursor_cursor s w _, rfl, by rw [hem.1.1], rfl⟩, ho, hroom⟩
    | _ => trivial
  · intro hroom w hself
    obtain ⟨l, hb, ho, hfull⟩ := hself
    rcases step_blockedOn hst hb with hold | ⟨rfl, hemp, hfull'⟩
    · exact h w ⟨l, hold, ho, hinv.full w l hold ho⟩
    · rw [hroom l hemp ho] at hfull'
      cases hfull'

theorem noneSelfBlocked_along_iff (cfg : Config α) (mem : TaskPtr → Task α) (registered : TaskStateId → Bool)
    (is : List (Label α)) :
    Along (step cfg) (fun _ _ t => NoneSelfBlocked cfg t) (State.init mem registered) is ↔
      Along (step cfg) (fun s i _ => OwnLanesHaveRoom cfg s i) (State.init mem registered) is := by
  apply along_iff (J := BlockingInv cfg)
  · intro s i t hs hst
    exact step_blockingInv hs hst
  · intro s i t hs hp hst
    exact step_noneSelfBlocked hs hp hst
  · refine ⟨lanesView_init mem registered, ?_⟩
    intro w l hb
    exact absurd hb (not_blockedOn_of_cursor_none rfl)
  · rintro w ⟨l, hb, -⟩
    exact not_blockedOn_of_cursor_none rfl hb

def subRequestToFullLane : List (Label Unit) :=
  let admin : LaneRef := ⟨⟨1, 0⟩, TaskPrio.kAdmin, 0⟩
  let create (root : ℕ) : Task Unit := ⟨⟨1, 0⟩, ⟨⟨1, root⟩, 0⟩, DomainId.getLocal, TaskPrio.kAdmin, 0,
    HermesRunAdmin.Method.kCreateTaskState, taskCoroutine, .own ()⟩
  let getId : Task Unit := ⟨⟨1, 0⟩, ⟨⟨1, 4⟩, 1⟩, DomainId.getNode 1, TaskPrio.kAdmin, 0,
    HermesRunAdmin.Method.kGetOrCreateTaskStateId, 0#32, .own ()⟩
  [.emplace admin (create 4), .emplace admin (create 5), .poll 0 admin, .scan 0 [(admin, getId)], .put 0]

theorem noneSelfBlocked_subRequest :
    ∃ t, run (step bootConfig) bootState subRequestToFullLane = some t ∧ ¬NoneSelfBlocked bootConfig t := by
  have hany : (run (step bootConfig) bootState subRequestToFullLane).any (fun t =>
      !hasRoom bootConfig t ⟨⟨1, 0⟩, TaskPrio.kAdmin, 0⟩ && (t.workers 0).cursor.any fun c =>
        c.running.any fun r => r.blocked && r.emplaces.head?.any fun e => e.1 = ⟨⟨1, 0⟩, TaskPrio.kAdmin, 0⟩) =
      true := by
    decide +kernel
  obtain ⟨t, ht, hbad⟩ := (Option.any_eq_true _ _).mp hany
  rw [Bool.and_eq_true] at hbad
  obtain ⟨hfull, hblocked⟩ := hbad
  obtain ⟨c, hc, hrunning⟩ := (Option.any_eq_true _ _).mp hblocked
  obtain ⟨r, hr, hput⟩ := (Option.any_eq_true _ _).mp hrunning
  rw [Bool.and_eq_true] at hput
  obtain ⟨hb, hhead⟩ := hput
  obtain ⟨⟨dst, x⟩, he, hdst⟩ := (Option.any_eq_true _ _).mp hhead
  obtain ⟨es, hes⟩ := List.head?_eq_some_iff.mp he
  obtain rfl := of_decide_eq_true hdst
  refine ⟨t, ht, ?_⟩
  intro h
  exact h 0 ⟨_, ⟨c, r, x, es, hc, hr, hes, hb⟩, rfl, by simpa using hfull⟩

end HermesRun.Poll
