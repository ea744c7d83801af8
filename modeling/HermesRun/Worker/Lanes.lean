import HermesRun.TaskLibs
import HermesRun.Worker.Poll

namespace HermesRun.Poll

open History Relation Runs

variable {α : Type}

def Event.lane? : Event → Option (ScannedFifo.Event LaneRef)
  | .enqueue l p => some (.enqueue l p)
  | .deref p => some (.deref p)
  | .complete p => some (.complete p)
  | .endTask p => some (.ended p)
  | .pop l p => some (.pop l p)
  | _ => none

def Cursor.place (c : Cursor α) : ScannedFifo.Place LaneRef :=
  ⟨c.lane, c.off, c.running.map (·.task)⟩

namespace State

variable (s : State α)

def lanesView : ScannedFifo.State LaneRef WorkerId where
  lanes := s.lanes
  next := s.next
  places := fun w => (s.workers w).cursor.map Cursor.place
  log := s.log.filterMap Event.lane?
  halted := s.halted

theorem lanesView_emit_none {e : Event} (he : e.lane? = none) : (s.emit e).lanesView = s.lanesView := by
  simp [lanesView, emit, List.filterMap_cons_none he]

theorem lanesView_emit_some {e : Event} {x : ScannedFifo.Event LaneRef} (he : e.lane? = some x) :
    (s.emit e).lanesView = { s.lanesView with log := x :: s.lanesView.log } := by
  simp [lanesView, emit, List.filterMap_cons_some he]

@[simp] theorem lanesView_setTask (p : TaskPtr) (t : Task α) : (s.setTask p t).lanesView = s.lanesView := rfl

@[simp] theorem lanesView_setGroups (w : WorkerId) (g : Groups) :
    (s.setGroups w g).lanesView = s.lanesView := by
  have hp : (s.setGroups w g).lanesView.places = s.lanesView.places := by
    funext w'
    by_cases hw : w' = w
    · subst hw
      simp [lanesView, setGroups]
    · simp [lanesView, setGroups, hw]
  simp only [lanesView] at hp ⊢
  rw [hp]
  rfl

@[simp] theorem lanesView_setCursor (w : WorkerId) (c : Option (Cursor α)) :
    (s.setCursor w c).lanesView = s.lanesView.place w (c.map Cursor.place) := by
  have hp : (s.setCursor w c).lanesView.places =
      Function.update s.lanesView.places w (c.map Cursor.place) := by
    funext w'
    by_cases hw : w' = w
    · subst hw
      simp [lanesView, setCursor]
    · simp [lanesView, setCursor, hw]
  simp only [lanesView] at hp
  simp only [lanesView, hp, ScannedFifo.State.place]
  rfl

@[simp] theorem lanesView_emplace (l : LaneRef) (t : Task α) :
    (s.emplace l t).lanesView = s.lanesView.enqueue l := by
  unfold emplace
  split
  · rfl
  · rw [lanesView_emit_none _ rfl]
    rfl

theorem lanesView_markComplete (c : Cursor α) (p : TaskPtr) :
    (s.markComplete c p).lanesView = s.lanesView.mark c.lane c.off p := rfl

@[simp] theorem lanesView_cleanup (c : Cursor α) (p : TaskPtr) (t : Task α) :
    (s.cleanup c p t).lanesView = s.lanesView.mark c.lane c.off p := by
  unfold cleanup
  dsimp only
  split_ifs
  · exact lanesView_emit_none _ rfl
  · exact lanesView_emit_none _ rfl
  · rfl

@[simp] theorem lanesView_popHead (l : LaneRef) : (s.popHead l).lanesView = s.lanesView.popHead l := by
  have hlanes : s.lanesView.lanes l = s.lanes l := rfl
  unfold popHead ScannedFifo.State.popHead
  rw [hlanes]
  cases s.lanes l with
  | nil => rfl
  | cons e rest => rfl

theorem lanesView_popTask (c : Cursor α) : (s.popTask c).1.lanesView =
    if c.off = 0 then s.lanesView.popHead c.lane else s.lanesView := by
  by_cases h : c.off = 0 <;> simp [popTask, h]

theorem popTask_place (c : Cursor α) : (s.popTask c).2 =
    { c with off := if c.off = 0 then c.off else c.off + 1 } := by
  unfold popTask
  split <;> rfl

theorem lanesView_endTask (c : Cursor α) (p : TaskPtr) (b : Bool) :
    (s.endTask c p b).1.lanesView = ((s.emit (.endTask p)).popTask c).1.lanesView := by
  unfold endTask
  dsimp only
  split
  · exact lanesView_emit_none _ rfl
  · rfl

theorem endTask_place (c : Cursor α) (p : TaskPtr) (b : Bool) :
    (s.endTask c p b).2 = { c with off := if c.off = 0 then c.off else c.off + 1 } := by
  rw [← popTask_place (s.emit (.endTask p)) c]
  unfold endTask
  dsimp only
  split <;> rfl

theorem lanesView_end {t : State α} {w : WorkerId} {c : Cursor α} {p : TaskPtr} {b : Bool}
    (h : t.lanesView = s.lanesView.mark c.lane c.off p) :
    ((t.endTask c p b).1.nextPass w (t.endTask c p b).2).lanesView =
      s.lanesView.endAt w c.lane c.off p := by
  rw [nextPass, lanesView_setCursor, lanesView_endTask, lanesView_popTask, endTask_place,
    lanesView_emit_some t (e := .endTask p) rfl, h]
  by_cases hoff : c.off = 0
  · simp [hoff, ScannedFifo.State.endAt, ScannedFifo.State.endEntry, Cursor.place, ScannedFifo.State.mark]
  · simp [hoff, ScannedFifo.State.endAt, ScannedFifo.State.endEntry, Cursor.place, ScannedFifo.State.mark]

end State

variable (cfg : Config α)

theorem attemptEvents_lane (s : State α) (w : WorkerId) (c : Cursor α) (p : TaskPtr) (exec : Instance)
    (es : List (LaneRef × Task α)) : (attemptEvents cfg s w c p exec es).filterMap Event.lane? = [] := by
  apply List.filterMap_eq_nil_iff.mpr
  intro e he
  rcases mem_attemptEvents cfg he with rfl | ⟨a, rfl⟩ | rfl <;> rfl

theorem lanesView_attempt (s : State α) (w : WorkerId) (c : Cursor α) (p : TaskPtr) (exec : Instance)
    (es : List (LaneRef × Task α)) : (attempt cfg s w c p exec es).lanesView =
      s.lanesView.place w (some ⟨c.lane, c.off, some p⟩) := by
  have hcase := attempt_cases cfg s w c p exec es
  generalize attempt cfg s w c p exec es = t at hcase ⊢
  cases hcase with
  | skip g hg h =>
    simp only [State.enter, State.lanesView_setCursor, State.lanesView_setGroups, Option.map_some, Cursor.place]
  | run hd hc =>
    simp only [State.enter, State.lanesView_setCursor, State.lanesView_setTask, State.lanesView_setGroups,
      Option.map_some, Cursor.place]
    congr 1
    simp only [State.lanesView, List.filterMap_append, attemptEvents_lane, List.nil_append]

theorem scan_lanes {s : State α} {w : WorkerId} {c : Cursor α} (hh : s.halted = false)
    (ho : cfg.owner c.lane = w) (hw : s.lanesView.places w = some ⟨c.lane, c.off, none⟩)
    (es : List (LaneRef × Task α)) :
    ReflTransGen (ScannedFifo.Step cfg.owner) s.lanesView (scan cfg s w c es).lanesView := by
  have visited (p : TaskPtr) (hp : (s.lanes c.lane)[c.off]? = some ⟨p, false⟩) :
      ReflTransGen (ScannedFifo.Step cfg.owner) s.lanesView (s.emit (.deref p)).lanesView := by
    rw [State.lanesView_emit_some s (e := .deref p) rfl]
    exact .single (.deref s.lanesView c.lane c.off p hp)
  have entered (p : TaskPtr) (hp : (s.lanes c.lane)[c.off]? = some ⟨p, false⟩) :
      ReflTransGen (ScannedFifo.Step cfg.owner) s.lanesView
        ((s.emit (.deref p)).lanesView.place w (some ⟨c.lane, c.off, some p⟩)) :=
    (visited p hp).tail (.enter _ w c.lane c.off p ho hp)
  have hcase := scan_cases cfg s w c es
  generalize scan cfg s w c es = t at hcase ⊢
  cases hcase with
  | stop =>
    rw [State.lanesView_setCursor]
    exact .single (.leave _ w)
  | passOver p hp =>
    simp only [State.nextPass, State.lanesView_setCursor, State.lanesView_popTask, State.popTask_place,
      Option.map_some, Cursor.place, Option.map_none]
    by_cases hoff : c.off = 0
    · simp only [hoff, if_true]
      rw [hoff] at hw hp
      refine (ReflTransGen.single (.pop _ w c.lane hw hh ?_)).tail (.move _ w c.lane 0 ho)
      intro e he
      have he' : s.lanes c.lane = s.lanesView.lanes c.lane := rfl
      rw [List.head?_eq_getElem?, ← he', hp, Option.some.injEq] at he
      rw [← he]
    · simp only [hoff, if_false]
      exact .single (.move _ w c.lane (c.off + 1) ho)
  | fatalReturn p hp hf u hu =>
    subst hu
    rw [State.lanesView_end (s.emit (.deref p)) (State.lanesView_markComplete _ c p),
      ← ScannedFifo.State.endAt_place _ w (some ⟨c.lane, c.off, some p⟩)]
    apply (entered p hp).trans
    apply ScannedFifo.endAt_steps ho _ hh
    simp [ScannedFifo.State.place]
  | fatal p hp hf => exact (visited p hp).tail (.halt _)
  | attempt p gen hp hgen =>
    rw [lanesView_attempt]
    exact entered p hp

theorem finish_lanes {s : State α} {w : WorkerId} {c : Cursor α} {r : Running α} (hh : s.halted = false)
    (ho : cfg.owner c.lane = w) (hw : s.lanesView.places w = some ⟨c.lane, c.off, some r.task⟩)
    (out : Task α) :
    ReflTransGen (ScannedFifo.Step cfg.owner) s.lanesView (finish cfg s w c r out).lanesView := by
  have hcase := finish_cases cfg s w c r out
  generalize finish cfg s w c r out = t at hcase ⊢
  cases hcase with
  | again hm =>
    simp only [State.nextPass, State.lanesView_setCursor, State.lanesView_setTask]
    exact .single (.move _ w c.lane (c.off + 1) ho)
  | fatal hm u hu hz =>
    have hfatal : ({ u.emit (.depthZero w r.task) with halted := true } : State α).lanesView =
        { u.lanesView with halted := true } := rfl
    rw [hfatal, hu, State.lanesView_cleanup]
    exact .single (.abort _ w c.lane c.off r.task hw hh)
  | done hm u v hu hv =>
    rw [State.lanesView_end s]
    · exact ScannedFifo.endAt_steps ho hw hh
    · rw [hv, State.lanesView_emit_none _ rfl, State.lanesView_setGroups, hu, State.lanesView_cleanup]
      rfl

variable {cfg}

theorem lanesView_places {s : State α} {w : WorkerId} {c : Cursor α} (hc : (s.workers w).cursor = some c) :
    s.lanesView.places w = some c.place := by
  simp [State.lanesView, hc]

theorem step_lanes {s t : State α} {i : Label α} (hi : ScannedFifo.Inv cfg.owner s.lanesView)
    (hst : step cfg s i = some t) :
    ReflTransGen (ScannedFifo.Step cfg.owner) s.lanesView t.lanesView := by
  obtain ⟨hh, htr⟩ := step_transition hst
  cases htr with
  | emplace l tk _ _ =>
    rw [State.lanesView_emplace]
    exact .single (.enqueue _ l)
  | poll w l hc ho =>
    rw [State.lanesView_setCursor]
    exact .single (.move _ w l 0 ho)
  | scan w es l i off hc _ =>
    have hp := lanesView_places hc
    exact scan_lanes cfg hh (hi.owned w _ hp) hp es
  | put w l i off p exec remote mode dst tk es b hc _ =>
    have hp := lanesView_places hc
    have hr := (hi.enqueue dst).running hh w l off p hp
    rw [State.enter, State.lanesView_setCursor, State.lanesView_emplace]
    exact (ReflTransGen.single (.enqueue _ dst)).tail (.enter _ w l off p (hi.owned w _ hp) hr)
  | block w l i off p exec remote mode dst tk es b hc _ =>
    have hp := lanesView_places hc
    rw [State.enter, State.lanesView_setCursor]
    exact .single (.enter _ w l off p (hi.owned w _ hp) (hi.running hh w l off p hp))
  | registry w op l i off r hc _ =>
    obtain ⟨states, next, heq⟩ := registryOp_eq s op
    rw [heq]
    exact .refl
  | finish w out l i off r hc _ _ =>
    have hp := lanesView_places hc
    have ho : cfg.owner l = w := hi.owned w _ hp
    exact finish_lanes cfg (c := ⟨l, i, off, none⟩) hh ho hp out
  | write p tk _ _ => rw [State.lanesView_setTask]

theorem lanesView_init (mem : TaskPtr → Task α) (registered : TaskStateId → Bool) :
    ScannedFifo.Inv cfg.owner (State.init mem registered).lanesView := ScannedFifo.Inv.init

theorem step_lanesInv {s t : State α} {i : Label α} (hi : ScannedFifo.Inv cfg.owner s.lanesView)
    (hst : step cfg s i = some t) : ScannedFifo.Inv cfg.owner t.lanesView :=
  hi.steps (step_lanes hi hst)

def enqueued (l : LaneRef) (log : List Event) : List TaskPtr :=
  (log.filterMap fun
    | .enqueue l' p => if l' = l then some p else none
    | _ => none).reverse

def popped (l : LaneRef) (log : List Event) : List TaskPtr :=
  (log.filterMap fun
    | .pop l' p => if l' = l then some p else none
    | _ => none).reverse

theorem enqueued_lanesView (l : LaneRef) (s : State α) :
    ScannedFifo.enqueued l s.lanesView.log = enqueued l s.log := by
  simp only [ScannedFifo.enqueued, enqueued, State.lanesView, List.filterMap_filterMap]
  congr 2
  funext e
  cases e <;> rfl

theorem popped_lanesView (l : LaneRef) (s : State α) :
    ScannedFifo.popped l s.lanesView.log = popped l s.log := by
  simp only [ScannedFifo.popped, popped, State.lanesView, List.filterMap_filterMap]
  congr 2
  funext e
  cases e <;> rfl

theorem lane?_eq_ended (p : TaskPtr) (e : Event) : e.lane? = some (.ended p) ↔ e = .endTask p := by
  cases e <;> simp [Event.lane?]

theorem lane?_eq_complete (p : TaskPtr) (e : Event) : e.lane? = some (.complete p) ↔ e = .complete p := by
  cases e <;> simp [Event.lane?]

theorem lane?_eq_deref (p : TaskPtr) (e : Event) : e.lane? = some (.deref p) ↔ e = .deref p := by
  cases e <;> simp [Event.lane?]

theorem lane?_eq_pop (l : LaneRef) (p : TaskPtr) (e : Event) :
    e.lane? = some (.pop l p) ↔ e = .pop l p := by
  cases e <;> simp [Event.lane?]

section Entries

variable {s : State α}

theorem lt_next (h : ScannedFifo.Inv cfg.owner s.lanesView) {l : LaneRef} {q : TaskPtr} {b : Bool}
    (hq : ⟨q, b⟩ ∈ s.lanes l) : q < s.next := h.fresh l q (h.mem_lane hq)

theorem same_lane (h : ScannedFifo.Inv cfg.owner s.lanesView) {l l' : LaneRef} {q : TaskPtr} {b b' : Bool}
    (hq : ⟨q, b⟩ ∈ s.lanes l) (hq' : ⟨q, b'⟩ ∈ s.lanes l') : l = l' :=
  h.disjoint l l' q (h.mem_lane hq) (h.mem_lane hq')

theorem not_ended (h : ScannedFifo.Inv cfg.owner s.lanesView) {l : LaneRef} {q : TaskPtr}
    (hq : ⟨q, false⟩ ∈ s.lanes l) : .endTask q ∉ s.log := by
  rw [← History.mem_filterMap_iff (lane?_eq_ended q)]
  exact h.waiting l _ hq rfl

theorem running_waits (h : ScannedFifo.Inv cfg.owner s.lanesView) (hh : s.halted = false) {w : WorkerId}
    {c : Cursor α} {r : Running α} (hc : (s.workers w).cursor = some c) (hr : c.running = some r) :
    (s.lanes c.lane)[c.off]? = some ⟨r.task, false⟩ := by
  apply h.running hh w
  rw [lanesView_places hc, Cursor.place, hr]
  rfl

end Entries

structure LaneHistory (s : State α) : Prop where
  distinct : ∀ l, (enqueued l s.log).Nodup
  fifo : ∀ l, enqueued l s.log = popped l s.log ++ (s.lanes l).map (·.p)
  popComplete : ∀ l p, At s.log (.pop l p) (.complete p ∈ ·)
  endedPopped : ∀ l p, p ∈ popped l s.log → s.log.count (.endTask p) = 1
  endedOnce : ∀ p, s.log.count (.endTask p) ≤ 1
  notRevisited : ∀ p, At s.log (.deref p) (.endTask p ∉ ·)

theorem laneHistory_of_inv {s : State α} (h : ScannedFifo.Inv cfg.owner s.lanesView) : LaneHistory s := by
  have hcount (p : TaskPtr) : s.log.count (.endTask p) = s.lanesView.log.count (.ended p) :=
    (count_filterMap (lane?_eq_ended p) s.log).symm
  constructor
  · intro l
    rw [← enqueued_lanesView]
    exact h.nodup l
  · intro l
    rw [← enqueued_lanesView, ← popped_lanesView]
    exact h.fifo l
  · intro l p
    refine (at_filterMap (lane?_eq_pop l p) ?_).mp (h.popDone l p)
    exact mem_filterMap_iff (lane?_eq_complete p)
  · intro l p hp
    rw [← popped_lanesView] at hp
    have hpos := List.count_pos_iff.mpr (h.gone l p hp)
    have hle := h.once p
    rw [hcount]
    omega
  · intro p
    rw [hcount]
    exact h.once p
  · intro p
    refine (at_filterMap (lane?_eq_deref p) ?_).mp (h.derefs p)
    intro older
    exact not_congr (mem_filterMap_iff (lane?_eq_ended p) older)

theorem laneHistory_of_run (mem : TaskPtr → Task α) (registered : TaskStateId → Bool)
    (is : List (Label α)) (t : State α) (h : run (step cfg) (State.init mem registered) is = some t) :
    LaneHistory t := by
  have hinv : ScannedFifo.Inv cfg.owner t.lanesView := by
    apply run_invariant_all (I := fun s => ScannedFifo.Inv cfg.owner s.lanesView) _ _ h
    · intro s i t hs hst
      exact step_lanesInv hs hst
    · exact lanesView_init mem registered
  exact laneHistory_of_inv hinv

def bootConfig : Config Unit where
  numHosts := 1
  nodeId := 1
  lib := fun id => if id = ⟨1, 0⟩ then HermesRunAdmin.lib Unit else ProcQueue.lib Unit
  owner := fun _ => 0
  depth := fun _ => 2
  numLanes := fun _ _ => 16
  remoteQueue := ⟨1, 2⟩
  fatalReturns := false

def pushOf (root : ℕ) (hash : UInt32) (flags : Bitfield.Flags) : Task Unit :=
  ⟨⟨1, 1⟩, ⟨⟨1, root⟩, 0⟩, DomainId.getLocal, TaskPrio.kLowLatency, hash, ProcQueue.Method.kPush, flags, .own ()⟩

def bootState : State Unit := State.init (fun _ => pushOf 0 0 0) (fun id => id.nodeId == 1 && id.unique < 2)

def outOfOrder : List (Label Unit) :=
  let l : LaneRef := ⟨⟨1, 1⟩, TaskPrio.kLowLatency, 0⟩
  [.emplace l (pushOf 4 0 0), .emplace l (pushOf 4 0 0), .poll 0 l,
    .scan 0 [], .finish 0 (pushOf 4 0 taskHasStarted),
    .scan 0 [], .finish 0 (pushOf 4 0 (taskHasStarted ||| taskModuleComplete)), .scan 0 [], .poll 0 l,
    .scan 0 [], .finish 0 (pushOf 4 0 (taskHasStarted ||| taskModuleComplete)), .scan 0 [], .scan 0 []]

theorem laneHistory_outOfOrder : ∃ t, run (step bootConfig) bootState outOfOrder = some t ∧
    popped ⟨⟨1, 1⟩, TaskPrio.kLowLatency, 0⟩ t.log = [0, 1] ∧ LaneHistory t := by
  have hsome : (run (step bootConfig) bootState outOfOrder).any
      (fun t => popped ⟨⟨1, 1⟩, TaskPrio.kLowLatency, 0⟩ t.log = [0, 1]) = true := by decide +kernel
  obtain ⟨t, ht, hpop⟩ := (Option.any_eq_true _ _).mp hsome
  exact ⟨t, ht, by simpa using hpop, laneHistory_of_run _ _ outOfOrder t ht⟩

end HermesRun.Poll
