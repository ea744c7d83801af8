import HermesRun.Remote.Moves
import HermesRun.Worker.Freed

namespace HermesRun.RemoteQueue

open Poll Runs

variable {α π ρ : Type}

def IsPush (s : State α ρ) (k : NodeId) (q : TaskPtr) : Prop := q < (s.nodes k).next ∧ isOwn (s.mem k q) = false

def InProgress (s : State α ρ) (k : NodeId) (p : TaskPtr) : Prop :=
  0 < (s.history k p).dispersed ∧ (.endTask p ∉ (s.nodes k).log ∨
    ∃ q i, q < (s.nodes k).next ∧ (s.mem k q).body.pushInfo = some i ∧ i.origTask = p ∧
      .endTask q ∉ (s.nodes k).log)

structure PushesFreed (s : State α ρ) : Prop where
  once : ∀ k q, IsPush s k q → (s.nodes k).log.count (.free q) ≤ 1
  ended : ∀ k q, IsPush s k q → .endTask q ∈ (s.nodes k).log → (s.nodes k).log.count (.free q) = 1
  idle : (∀ k p, ¬InProgress s k p) → ∀ k q, IsPush s k q → .free q ∈ (s.nodes k).log

def EndsPush (s t : State α ρ) : Prop :=
  ∃ k q, IsPush t k q ∧ .endTask q ∈ (t.nodes k).log ∧ .endTask q ∉ (s.nodes k).log

def KeepsForget (v : TasksView α) : Poll.Label α → Prop
  | .finish w out => ∀ r, v.running w = some r → r.mode.runs = true →
      out.isFireAndForget = (v.mem r.task).isFireAndForget
  | .write p x => x.isFireAndForget = (v.mem p).isFireAndForget
  | _ => True

section Flag

theorem handler_isFireAndForget {t out : Task α} (h : handlerKeeps t out = true) :
    out.isFireAndForget = t.isFireAndForget :=
  handler_any h t.setModuleComplete_isFireAndForget

theorem mapOwn_isFireAndForget (f : α → α) (t : Task α) : (mapOwn f t).isFireAndForget = t.isFireAndForget := by
  simp only [Task.isFireAndForget, mapOwn_taskFlags]

theorem execute_isFireAndForget (cfg : Poll.Config α) (t : Task α) (p : TaskPtr) (exec : Instance)
    (es : List (LaneRef × Task α)) : (execute cfg t p exec es).task.isFireAndForget = t.isFireAndForget :=
  execute_flag cfg t p exec es (fun _ _ => rfl) (by simp) (by simp)

theorem execute_isOwn (cfg : Poll.Config α) (t : Task α) (p : TaskPtr) (exec : Instance)
    (es : List (LaneRef × Task α)) : isOwn (execute cfg t p exec es).task = isOwn t :=
  (Kept.execute cfg t p exec es).isOwn

theorem ranTask_isFireAndForget (r : Running α) {t out : Task α}
    (hout : r.mode.runs = true → out.isFireAndForget = t.isFireAndForget) :
    (ranTask r t out).isFireAndForget = t.isFireAndForget := by
  rcases ranTask_cases r t out with ⟨hruns, heq⟩ | ⟨-, heq⟩ | ⟨-, heq⟩
  · rw [heq, hout hruns]
  · rw [heq]
  · rw [heq]
    simp [Task.setUnordered]

theorem pushTask_isFireAndForget (cfg : Poll.Config α) (t : Task α) (p : TaskPtr) (exec : Instance) :
    (pushTask cfg t p exec).isFireAndForget = false := by
  show Bitfield.any (Bitfield.setBits 0#32 (taskLowLatency ||| taskPreemptive ||| taskRemoteDebugMark))
    taskFireAndForget = false
  decide

structure Unforgotten (v : TasksView α) : Prop where
  task : ∀ q, q < v.next → isOwn (v.mem q) = false → (v.mem q).isFireAndForget = false
  pending : ∀ w r e, v.running w = some r → e ∈ r.emplaces → isOwn e.2 = false → e.2.isFireAndForget = false

variable {cfg : Poll.Config α} {v v' : TasksView α} {i : Poll.Label α}

theorem Unforgotten.setTask (h : Unforgotten v) {p : TaskPtr} {x : Task α} (hown : isOwn x = isOwn (v.mem p))
    (hf : x.isFireAndForget = (v.mem p).isFireAndForget) : Unforgotten (v.setTask p x) := by
  refine ⟨?_, h.pending⟩
  intro q hq hpush
  by_cases hqp : q = p
  · subst hqp
    rw [TasksView.setTask_self] at hpush ⊢
    rw [hf]
    exact h.task q hq (hown ▸ hpush)
  · rw [v.setTask_of_ne x hqp] at hpush ⊢
    exact h.task q hq hpush

theorem Unforgotten.setRunning (h : Unforgotten v) {w : WorkerId} {r : Option (Running α)}
    (hr : ∀ r', r = some r' → ∀ e ∈ r'.emplaces, isOwn e.2 = false → e.2.isFireAndForget = false) :
    Unforgotten (v.setRunning w r) := by
  refine ⟨h.task, ?_⟩
  intro w' r' e hr' he hpush
  by_cases hw : w' = w
  · subst hw
    rw [TasksView.setRunning_self] at hr'
    exact hr r' hr' e he hpush
  · rw [v.setRunning_of_ne r hw] at hr'
    exact h.pending w' r' e hr' he hpush

theorem Unforgotten.new (h : Unforgotten v) {x : Task α} (hx : isOwn x = false → x.isFireAndForget = false) :
    Unforgotten (v.new x) := by
  refine ⟨?_, h.pending⟩
  intro q hq hpush
  rcases Nat.lt_succ_iff_lt_or_eq.mp hq with hq | rfl
  · rw [v.new_of_lt x hq] at hpush ⊢
    exact h.task q hq hpush
  · rw [TasksView.new_self] at hpush ⊢
    exact hx hpush

theorem ranTask_isOwn (r : Running α) {t out : Task α} (hout : out.body.pushInfo = t.body.pushInfo) :
    isOwn (ranTask r t out) = isOwn t := by
  rcases ranTask_cases r t out with ⟨-, heq⟩ | ⟨-, heq⟩ | ⟨-, heq⟩
  · rw [heq, isOwn, isOwn, hout]
  · rw [heq]
  · rw [heq]
    rfl

theorem step_unforgotten (h : Unforgotten v) (hst : TaskStep cfg v i v') (hk : KeepsForget v i) :
    Unforgotten v' := by
  have hran : ∀ w out r, i = .finish w out → v.running w = some r →
      out.body.pushInfo = (v.mem r.task).body.pushInfo →
      Unforgotten (v.setTask r.task (ranTask r (v.mem r.task) out)) := by
    rintro w out r rfl hr hout
    exact h.setTask (ranTask_isOwn r hout) (ranTask_isFireAndForget r (hk r hr))
  cases hst with
  | quiet => exact h
  | new l x hown =>
    apply h.new
    intro hpush
    rw [hown] at hpush
    cases hpush
  | skip w es p exec hidle hw =>
    apply h.setRunning
    rintro r' hr' e he
    cases hr'
    cases he
  | start w es p exec hidle hw hd hexec hes =>
    apply (h.setTask (execute_isOwn ..) (execute_isFireAndForget ..)).setRunning
    rintro r' hr' e he hpush
    cases hr'
    cases hremote : isRemote cfg (v.mem p) with
    | true =>
      simp only [started, execute_remote hremote, List.mem_singleton] at he
      rw [he]
      exact pushTask_isFireAndForget ..
    | false =>
      have hmem := (execute_local hremote p exec es).2 e he
      rw [List.all_eq_true.mp hes e hmem] at hpush
      cases hpush
  | put w r dst x es hr he =>
    have hx := h.pending w r (dst, x) hr (by rw [he]; exact List.mem_cons_self)
    apply (h.new hx).setRunning
    rintro r' hr' e hmem
    cases hr'
    exact h.pending w r e hr (by rw [he]; exact List.mem_cons_of_mem _ hmem)
  | block w r hr =>
    apply h.setRunning
    rintro r' hr' e hmem
    cases hr'
    exact h.pending w r e hr hmem
  | again w out r hr he hout => exact (hran w out r rfl hr hout).setRunning (by simp)
  | halt w out r hr he hout => exact hran w out r rfl hr hout
  | done w out r x hr he hout hm hx =>
    have hset : Unforgotten (v.setTask r.task x) := by
      rcases hx with rfl | rfl
      · exact hran w out r rfl hr hout
      · refine h.setTask (x := (ranTask r (v.mem r.task) out).setComplete) (ranTask_isOwn r hout) ?_
        rw [Task.setComplete_isFireAndForget]
        exact ranTask_isFireAndForget r (hk r hr)
    have hrun := hset.setRunning (w := w) (r := none) (by simp)
    exact ⟨hrun.task, hrun.pending⟩
  | write p x hp hx =>
    refine h.setTask ?_ hk
    rw [isOwn, isOwn, hx]

theorem step_isOwn (hst : TaskStep cfg v i v') {q : TaskPtr} (hq : q < v.next) :
    q < v'.next ∧ isOwn (v'.mem q) = isOwn (v.mem q) ∧ (v.ended q → v'.ended q) := by
  have hset : ∀ p x, isOwn x = isOwn (v.mem p) → isOwn ((v.setTask p x).mem q) = isOwn (v.mem q) := by
    intro p x hx
    by_cases hqp : q = p
    · rw [hqp, TasksView.setTask_self, hx]
    · rw [v.setTask_of_ne x hqp]
  have hnew : ∀ x, isOwn ((v.new x).mem q) = isOwn (v.mem q) := fun x => by rw [v.new_of_lt x hq]
  cases hst with
  | quiet => exact ⟨hq, rfl, id⟩
  | new l x hown => exact ⟨Nat.lt_succ_of_lt hq, hnew x, id⟩
  | skip w es p exec hidle hw => exact ⟨hq, rfl, id⟩
  | start w es p exec hidle hw hd hexec hes => exact ⟨hq, hset p _ (execute_isOwn ..), id⟩
  | put w r dst x es hr he => exact ⟨Nat.lt_succ_of_lt hq, hnew x, id⟩
  | block w r hr => exact ⟨hq, rfl, id⟩
  | again w out r hr he hout => exact ⟨hq, hset r.task _ (ranTask_isOwn r hout), id⟩
  | halt w out r hr he hout => exact ⟨hq, hset r.task _ (ranTask_isOwn r hout), id⟩
  | done w out r x hr he hout hm hx =>
    refine ⟨hq, hset r.task x ?_, Or.inr⟩
    rcases hx with rfl | rfl
    · exact ranTask_isOwn r hout
    · exact ranTask_isOwn r hout
  | write p x hp hx =>
    refine ⟨hq, hset p x ?_, id⟩
    rw [isOwn, isOwn, hx]

end Flag

section Cluster

variable {cfg : Config α π ρ} {s t : State α ρ} {l : Label α}

theorem keepsForget_of_allowed {v : TasksView α} {i : Poll.Label α} (h : allowed v i = true) :
    KeepsForget v i := by
  cases i with
  | finish w out =>
    intro r hr hruns
    exact handler_isFireAndForget (allowed_finish h hr hruns)
  | write p x => cases h
  | emplace | poll | scan | put | registry => trivial

theorem ThreadWrite.isFireAndForget {d : NodeId} {p : TaskPtr} {x : Task α} (h : ThreadWrite cfg s d p x) :
    x.isFireAndForget = (s.mem d p).isFireAndForget := by
  cases h with
  | handler _ _ _ _ hk => exact handler_isFireAndForget hk
  | fields _ f => exact mapOwn_isFireAndForget f _
  | complete => exact Task.setModuleComplete_isFireAndForget _
  | completePush => exact Task.setModuleComplete_isFireAndForget _

theorem NodeMove.keeps {d : NodeId} {u : Poll.State α} (h : NodeMove cfg s l d u) : u = s.nodes d ∨
    u = { s.nodes d with halted := true } ∨
    ∃ i, Poll.step (cfg.at d) (s.nodes d) i = some u ∧ KeepsForget (s.view d) i := by
  cases h with
  | same => exact Or.inl rfl
  | halt => exact Or.inr (Or.inl rfl)
  | step i u hst ha => exact Or.inr (Or.inr ⟨i, hst, keepsForget_of_allowed ha⟩)
  | write p x u hst hw => exact Or.inr (Or.inr ⟨_, hst, hw.isFireAndForget⟩)

structure Unfreed (s : Poll.State α) : Prop where
  flags : Unforgotten s.tasksView
  freed : ∀ q, .free q ∈ s.log → q < s.next ∧ isOwn (s.mem q) = true

theorem NodeMove.unfreed {d : NodeId} {u : Poll.State α} (h : NodeMove cfg s l d u)
    (hl : ScannedFifo.Inv (cfg.at d).owner (s.nodes d).lanesView) (hs : Unfreed (s.nodes d)) : Unfreed u := by
  rcases h.keeps with rfl | rfl | ⟨i, hst, hk⟩
  · exact hs
  · exact ⟨hs.flags, hs.freed⟩
  · have htasks := step_tasks rfl hl hst
    refine ⟨step_unforgotten hs.flags htasks hk, ?_⟩
    intro q hq
    have hknown : q < (s.nodes d).next ∧ isOwn ((s.nodes d).mem q) = true := by
      rcases step_free hst hq with hq | ⟨w, out, r, rfl, hr, rfl, hff⟩
      · exact hs.freed q hq
      · have hlt := (running_known hl (step_transition hst).1 hr).1
        refine ⟨hlt, ?_⟩
        by_contra hpush
        have hran : (ranTask r ((s.nodes d).mem r.task) out).isFireAndForget =
            ((s.nodes d).mem r.task).isFireAndForget := ranTask_isFireAndForget r (hk r hr)
        rw [Bool.not_eq_true] at hpush
        have hnot : ((s.nodes d).mem r.task).isFireAndForget = false := hs.flags.task r.task hlt hpush
        rw [hran, hnot] at hff
        cases hff
    obtain ⟨hlt, hown, -⟩ := step_isOwn htasks hknown.1
    exact ⟨hlt, hown.trans hknown.2⟩

theorem NodeMove.isOwn {d : NodeId} {u : Poll.State α} (h : NodeMove cfg s l d u)
    (hl : ScannedFifo.Inv (cfg.at d).owner (s.nodes d).lanesView) {q : TaskPtr} (hq : q < (s.nodes d).next) :
    q < u.next ∧ isOwn (u.mem q) = isOwn (s.mem d q) ∧ (.endTask q ∈ (s.nodes d).log → .endTask q ∈ u.log) := by
  rcases h.keeps with rfl | rfl | ⟨i, hst, -⟩
  · exact ⟨hq, rfl, id⟩
  · exact ⟨hq, rfl, id⟩
  · exact step_isOwn (step_tasks rfl hl hst) hq

def NoneEnded (s : State α ρ) : Prop := ∀ k q, IsPush s k q → .endTask q ∉ (s.nodes k).log

theorem step_noneEnded (h : Inv cfg s) (hst : step cfg s l = some t) :
    NoneEnded t ↔ NoneEnded s ∧ ¬EndsPush s t := by
  constructor
  · intro ht
    refine ⟨?_, ?_⟩
    · intro k q hq hend
      obtain ⟨hlt, hown, hkeep⟩ := (step_move h hst k).isOwn (h.lanes k) hq.1
      exact ht k q ⟨hlt, hown.trans hq.2⟩ (hkeep hend)
    · rintro ⟨k, q, hq, hend, -⟩
      exact ht k q hq hend
  · rintro ⟨hs, hnot⟩ k q hq hend
    by_cases hold : .endTask q ∈ (s.nodes k).log
    · have hlt := ((h.node k).ended q hold).1
      have hown := ((step_move h hst k).isOwn (h.lanes k) hlt).2.1
      exact hs k q ⟨hlt, hown.symm.trans hq.2⟩ hold
    · exact hnot ⟨k, q, hq, hend, hold⟩

theorem pushesFreed_iff_noneEnded (h : Inv cfg s) (hu : ∀ k, Unfreed (s.nodes k)) :
    PushesFreed s ↔ NoneEnded s := by
  -- a push task lacks `TASK_FIRE_AND_FORGET`, so `EndTask` leaves it allocated
  have hfree : ∀ k q, IsPush s k q → .free q ∉ (s.nodes k).log := by
    intro k q hq hfree
    have hown := ((hu k).freed q hfree).2
    rw [show isOwn ((s.nodes k).mem q) = false from hq.2] at hown
    cases hown
  constructor
  · intro hs k q hq hend
    have hone := hs.ended k q hq hend
    rw [List.count_eq_zero_of_not_mem (hfree k q hq)] at hone
    cases hone
  · intro hs
    refine ⟨?_, ?_, ?_⟩
    · intro k q hq
      rw [List.count_eq_zero_of_not_mem (hfree k q hq)]
      exact Nat.zero_le _
    · intro k q hq hend
      exact absurd hend (hs k q hq)
    · intro hidle k q hq
      obtain ⟨i, hi⟩ : ∃ i, (s.mem k q).body.pushInfo = some i := by
        have hpush := hq.2
        rwa [isOwn, Option.isNone_eq_false_iff, Option.isSome_iff_exists] at hpush
      exact absurd ⟨h.made k q i hq.1 hi, Or.inr ⟨q, i, hq.1, hi, rfl, hs k q hq⟩⟩ (hidle k i.origTask)

end Cluster

theorem pushesFreed_iff (cfg : Config α π ρ) (mem : NodeId → TaskPtr → Task α)
    (registered : NodeId → TaskStateId → Bool) (labels : List (Label α)) (s : State α ρ)
    (hrun : run (step cfg) (boot mem registered) labels = some s) :
    PushesFreed s ↔ Along (step cfg) (fun s _ t => ¬EndsPush s t) (boot mem registered) labels := by
  have hboot : Inv cfg (boot (ρ := ρ) mem registered) := boot_inv cfg mem registered
  have hnone : NoneEnded (boot (ρ := ρ) mem registered) := by
    intro k q hq
    cases hq.1
  have hunfreed : ∀ k, Unfreed ((boot (ρ := ρ) mem registered).nodes k) := by
    intro k
    refine ⟨⟨?_, ?_⟩, ?_⟩
    · intro q hq
      cases hq
    · intro w r e hr
      cases hr
    · intro q hq
      cases hq
  have hinv : Inv cfg s ∧ ∀ k, Unfreed (s.nodes k) := by
    refine run_invariant_all (I := fun s => Inv cfg s ∧ ∀ k, Unfreed (s.nodes k)) ?_ ⟨hboot, hunfreed⟩ hrun
    rintro s l t ⟨h, hu⟩ hst
    exact ⟨step_inv h hst, fun k => (step_move h hst k).unfreed (h.lanes k) (hu k)⟩
  have hended : NoneEnded s ↔ NoneEnded (boot (ρ := ρ) mem registered) ∧
      Along (step cfg) (fun s _ t => ¬EndsPush s t) (boot mem registered) labels :=
    run_iff (J := Inv cfg) (fun _ _ _ h hst => step_inv h hst) (fun _ _ _ h hst => step_noneEnded h hst) hboot hrun
  rw [pushesFreed_iff_noneEnded hinv.1 hinv.2, hended, and_iff_right hnone]

def pushEndedRun : List (Label SmallMessage.ListFields) :=
  let r : LaneRef := ⟨⟨1, 6⟩, TaskPrio.kLowLatency, 0⟩
  let push := pushTask (pairConfig.at 1) (mdTask DomainId.getGlobal 0 []) 0 ⟨⟨1, 8⟩, 0⟩
  globalRun ++ [.node 1 (.scan 0 []), .node 1 (.scan 0 []), .node 1 (.poll 0 r), .node 1 (.scan 0 []),
    .node 1 (.finish 0 push)]

theorem pushEndedRun_leaks : ∃ s, run (step pairConfig)
      (boot (fun _ _ => mdTask DomainId.getLocal 0 []) (fun _ id => id = ⟨1, 6⟩ ∨ id = ⟨1, 8⟩)) pushEndedRun =
        some s ∧ IsPush s 1 1 ∧ .endTask 1 ∈ (s.nodes 1).log ∧ (s.nodes 1).log.count (.free 1) = 0 := by
  have hsome : (run (step pairConfig)
      (boot (fun _ _ => mdTask DomainId.getLocal 0 []) (fun _ id => id = ⟨1, 6⟩ ∨ id = ⟨1, 8⟩)) pushEndedRun).any
      (fun s => (1 < (s.nodes 1).next ∧ isOwn (s.mem 1 1) = false) ∧ .endTask 1 ∈ (s.nodes 1).log ∧
        (s.nodes 1).log.count (.free 1) = 0) = true := by decide +kernel
  obtain ⟨s, hs, hok⟩ := (Option.any_eq_true _ _).mp hsome
  obtain ⟨hpush, hend, hfree⟩ := of_decide_eq_true hok
  exact ⟨s, hs, hpush, hend, hfree⟩

theorem pushesFreed_pushEndedRun : ∃ s, run (step pairConfig)
      (boot (fun _ _ => mdTask DomainId.getLocal 0 []) (fun _ id => id = ⟨1, 6⟩ ∨ id = ⟨1, 8⟩)) pushEndedRun =
        some s ∧ IsPush s 1 1 ∧ .endTask 1 ∈ (s.nodes 1).log ∧ (s.nodes 1).log.count (.free 1) = 0 ∧
    ¬PushesFreed s := by
  obtain ⟨s, hs, hpush, hend, hfree⟩ := pushEndedRun_leaks
  refine ⟨s, hs, hpush, hend, hfree, ?_⟩
  intro h
  have hone := h.ended 1 1 hpush hend
  omega

theorem endsPush_pushEndedRun : ∃ s, run (step pairConfig)
      (boot (fun _ _ => mdTask DomainId.getLocal 0 []) (fun _ id => id = ⟨1, 6⟩ ∨ id = ⟨1, 8⟩)) pushEndedRun =
        some s ∧ ¬Along (step pairConfig) (fun s _ t => ¬EndsPush s t)
      (boot (fun _ _ => mdTask DomainId.getLocal 0 []) (fun _ id => id = ⟨1, 6⟩ ∨ id = ⟨1, 8⟩)) pushEndedRun := by
  obtain ⟨s, hs, hpush, hend, hfree⟩ := pushEndedRun_leaks
  refine ⟨s, hs, ?_⟩
  intro halong
  have hone := ((pushesFreed_iff pairConfig _ _ pushEndedRun s hs).mpr halong).ended 1 1 hpush hend
  omega

end HermesRun.RemoteQueue
