import HermesRun.Remote.Threads

namespace HermesRun.RemoteQueue

open Poll Runs

variable {α π ρ : Type}

section Join

def NotRun (v : TasksView α) : Prop :=
  ∀ w r, v.running w = some r → isOwn (v.mem r.task) = false → r.mode.runs = false

theorem step_notRun {cfg : Poll.Config α} {v v' : TasksView α} {i : Poll.Label α} (hn : NodeInv cfg v)
    (hx : Exclusive v) (hst : TaskStep cfg v i v') (h : NotRun v) : NotRun v' := by
  intro w r hr hpush
  have hsame {q : TaskPtr} (hq : q < v.next) : isOwn (v'.mem q) = isOwn (v.mem q) := (step_isOwn hst hq).2.1
  cases hst.runOrigin hr with
  | same hold =>
    rw [hsame (hx.known w r hold).1] at hpush
    exact h w r hold hpush
  | skip es hi hidle hm he => rw [hm]; rfl
  | start es exec hi hidle heq =>
    rw [hsame hidle.known] at hpush
    obtain ⟨i, hi⟩ : ∃ i, (v.mem r.task).body.pushInfo = some i := by
      rwa [isOwn, Option.isNone_eq_false_iff, Option.isSome_iff_exists] at hpush
    have hfor := (hn.pushes r.task i hidle.known hi).1
    rw [heq, started, execute_push hfor.notRemote hfor.coroutine hfor.preemptive]
    rfl
  | put r₀ hi hr₀ ht hm he =>
    rw [ht, hsame (hx.known w r₀ hr₀).1] at hpush
    rw [hm]
    exact h w r₀ hr₀ hpush

structure Joined (s : State α ρ) : Prop where
  notRun : ∀ k, NotRun (s.view k)
  push : ∀ k q i, q < (s.nodes k).next → (s.mem k q).body.pushInfo = some i →
    (s.mem k q).isModuleComplete = true → ∃ x, s.pushes k i.origTask = some x ∧ x.phase = .finished
  orig : ∀ k p x, s.pushes k p = some x → x.phase.isOver = true → (s.mem k p).isModuleComplete = true

variable {cfg : Config α π ρ} {s t : State α ρ} {l : Label α}

theorem NodeMove.notRun {d : NodeId} {u : Poll.State α} (h : NodeMove cfg s l d u) (hinv : Inv cfg s)
    (hs : NotRun (s.view d)) : NotRun u.tasksView := by
  rcases h.keeps with rfl | rfl | ⟨i, hst, -⟩
  · exact hs
  · exact hs
  · exact step_notRun (hinv.node d) (exclusive_of_lanes (hinv.lanes d) (step_transition hst).1)
      (step_tasks rfl (hinv.lanes d) hst) hs

theorem node_moduleComplete {cfg : Poll.Config α} {v v' : TasksView α} {i : Poll.Label α} (hj : NotRun v)
    (hst : TaskStep cfg v i v') (ha : allowed v i = true) {q : TaskPtr} (hq : q < v.next)
    (hpush : isOwn (v.mem q) = false) (hm : (v'.mem q).isModuleComplete = true) :
    (v.mem q).isModuleComplete = true := by
  cases hst.move hq with
  | same heq => rwa [heq] at hm
  | start w es exec hi hidle hr heq => rwa [heq, execute_isModuleComplete] at hm
  | ran w out r hi hr ht he heq =>
    subst ht
    have hidle := hj w r hr hpush
    have hran : (ranTask r (v.mem r.task) out).isModuleComplete = (v.mem r.task).isModuleComplete := by
      rcases ranTask_cases r (v.mem r.task) out with ⟨hruns, -⟩ | ⟨-, heq⟩ | ⟨-, heq⟩
      · rw [hidle] at hruns
        cases hruns
      · rw [heq]
      · rw [heq]
        simp [Task.setUnordered]
    rcases heq with heq | ⟨hcomplete, -, -⟩
    · rwa [heq, hran] at hm
    · rwa [hran] at hcomplete
  | write x hi heq =>
    subst hi
    cases ha

theorem push_moduleComplete (h : Inv cfg s) (hj : Joined s) (hst : step cfg s l = some t) {k : NodeId} {q : TaskPtr}
    {i : PushInfo} (hq : q < (s.nodes k).next) (hi : (s.mem k q).body.pushInfo = some i)
    (hm : (t.mem k q).isModuleComplete = true) : (s.mem k q).isModuleComplete = true ∨
      ∃ x, t.pushes k i.origTask = some x ∧ x.phase = .finished := by
  have hpush : isOwn (s.mem k q) = false := by simp [isOwn, hi]
  have hnode {d : NodeId} {j : Poll.Label α} {u : Poll.State α}
      (hu : Poll.step (cfg.at d) (s.nodes d) j = some u) (ha : allowed (s.view d) j = true)
      (hm : (((s.setNode d u).nodes k).mem q).isModuleComplete = true) : (s.mem k q).isModuleComplete = true := by
    by_cases hd : k = d
    · subst hd
      rw [nodes_setNode_self] at hm
      exact node_moduleComplete (hj.notRun k) (step_tasks rfl (h.lanes k) hu) ha hq hpush hm
    · rwa [nodes_setNode_of_ne _ hd] at hm
  -- what a thread writes to a task of the handlers is not written to the push task
  have hown {p : TaskPtr} {x : Task α} {u : State α ρ} (hw : s.write cfg k p x = some u) (ho : isOwn (s.mem k p) = true)
      (hm : (u.mem k q).isModuleComplete = true) : (s.mem k q).isModuleComplete = true := by
    rcases write_mem (d := k) (q := q) hw with heq | ⟨-, rfl⟩
    · rwa [heq] at hm
    · rw [hpush] at ho
      cases ho
  have hother {k₀ : NodeId} {p : TaskPtr} {x : Task α} {u : State α ρ} (hw : s.write cfg k₀ p x = some u)
      (ho : k = k₀ → isOwn (s.mem k p) = true)
      (hm : (u.mem k q).isModuleComplete = true) : (s.mem k q).isModuleComplete = true := by
    by_cases hk : k = k₀
    · subst hk
      exact hown hw (ho rfl) hm
    · rcases write_mem (d := k) (q := q) hw with heq | ⟨heq, -⟩
      · rwa [heq] at hm
      · exact absurd heq hk
  have horig {k₀ : NodeId} {p : TaskPtr} {x : Push ρ} (hx : s.pushes k₀ p = some x) :
      k = k₀ → isOwn (s.mem k p) = true := by
    rintro rfl
    obtain ⟨-, hlt, hr⟩ := ((h.task k p).push x hx).remote (h.node k)
    exact isRemote_local_of_push (h.node k) hlt hr
  have hhalt (d : NodeId) (hm : ((s.halt d).mem k q).isModuleComplete = true) :
      (s.mem k q).isModuleComplete = true := by
    change (((s.halt d).view k).mem q).isModuleComplete = true at hm
    rwa [view_halt] at hm
  cases step_cases cfg hst with
  | node k₀ j _ hw =>
    obtain ⟨u, ha, hu, hnodes⟩ := nodeStep_nodes hw
    refine Or.inl (hnode hu ha ?_)
    rw [← hnodes]
    exact hm
  | thread k₀ p out _ hd hr ho hk he hw =>
    left
    refine hother hw ?_ hm
    rintro rfl
    exact ho
  | start k₀ p x hx hp hh => exact Or.inl hm
  | fatal k₀ p x hx hp hh => exact Or.inl (hhalt k₀ hm)
  | call k₀ p x hx hp hj hh => exact Or.inl hm
  | rpcFatal k₀ p x domain hx hp hdom hnone => exact Or.inl (hhalt domain.id hm)
  | rpcExec k₀ p x domain z u hx hp hdom hz hu =>
    exact Or.inl (hnode hu (((h.task k₀ p).push x hx).copy_isNew h hz domain.id).1 hm)
  | rpcComplete k₀ p x domain copy ret hx hp hdom hc hh hret => exact Or.inl hm
  | output k₀ p x ret u hx hp hw => exact Or.inl (hother hw (horig hx) hm)
  | replicateEnd k₀ p x u hx hp hall hw => exact Or.inl (hother hw (horig hx) hm)
  | completeOrig k₀ p x u hx hp hw => exact Or.inl (hother hw (horig hx) hm)
  | completePush k₀ p x u hx hp hw =>
    rcases write_mem (d := k) (q := q) hw with heq | ⟨rfl, rfl⟩
    · left
      rw [← heq]
      exact hm
    · right
      have hok := (h.task k p).push x hx
      have hinfo := hok.info
      rw [hi, Option.some.injEq] at hinfo
      refine ⟨{ x with phase := .finished }, ?_, rfl⟩
      rw [hinfo, hok.orig]
      exact update₂_self ..

theorem step_orig (h : Inv cfg s) (hj : Joined s) (hst : step cfg s l = some t) {k : NodeId} {p : TaskPtr}
    {y : Push ρ} (hy : t.pushes k p = some y) (hover : y.phase.isOver = true) :
    (t.mem k p).isModuleComplete = true := by
  have hkeep {x : Push ρ} (hx : s.pushes k p = some x) (hover : x.phase.isOver = true) :
      (t.mem k p).isModuleComplete = true := by
    obtain ⟨-, hlt, -⟩ := ((h.task k p).push x hx).remote (h.node k)
    exact ((step_move h hst k).kept h hlt).moduleComplete (hj.orig k p x hx hover)
  cases step_push h hst k p with
  | same hp hl => exact hkeep (hp ▸ hy) hover
  | spawn q i hl hs hi =>
    rw [hy, Option.some.injEq] at hi
    rw [hi] at hover
    cases hover
  | own x y' hl hx hy' htask hinfo hleft =>
    rw [hy, Option.some.injEq] at hy'
    subst hy'
    have hlate : y.phase.isLate = true := by
      cases hp : y.phase <;> simp_all [Phase.isOver, Phase.isLate]
    have hall : y.replica = y.info.domainIds.length := (((step_inv h hst).task k p).push y hy).late hlate
    have hsmall : y.phase.left ≤ 1 := by
      cases hp : y.phase <;> simp_all [Phase.isOver, Phase.left]
    have hok := (h.task k p).push x hx
    have htwo : x.left ≤ 2 := by
      rw [← hleft, Push.left, hall]
      omega
    cases hp : x.phase with
    | start | ready =>
      rw [Push.left, hp] at htwo
      simp only [Phase.left] at htwo
      omega
    | sent | waiting | replied =>
      have hlt := hok.away (by rw [hp]; rfl)
      rw [Push.left, hp] at htwo
      simp only [Phase.left] at htwo
      omega
    | replicated =>
      have hl : l = .completeOrig k p := by rw [hl, Push.next, hp]
      subst hl
      cases step_cases cfg hst with
      | completeOrig _ _ z u hz hpz hw =>
        show (u.mem k p).isModuleComplete = true
        rw [write_self hw]
        exact Task.setModuleComplete_isModuleComplete _
    | signalled | finished => exact hkeep hx (by rw [hp]; rfl)

theorem Joined.step (hj : Joined s) (h : Inv cfg s) (hst : step cfg s l = some t) : Joined t := by
  refine ⟨?_, ?_, fun k p y hy hover => step_orig h hj hst hy hover⟩
  · intro k
    exact (step_move h hst k).notRun h (hj.notRun k)
  · intro k q i hq hi hm
    have hmove := step_move h hst k
    by_cases hold : q < (s.nodes k).next
    · have hpush : (s.mem k q).body.pushInfo = some i := (hmove.kept h hold).pushInfo.symm.trans hi
      rcases push_moduleComplete h hj hst hold hpush hm with hm | hdone
      · obtain ⟨x, hx, hfin⟩ := hj.push k q i hold hpush hm
        cases step_push h hst k i.origTask with
        | same hp hl => exact ⟨x, hp.trans hx, hfin⟩
        | spawn q' i' hl hs hi' =>
          rw [hx] at hs
          cases hs
        | own x' y hl hx' hy htask hinfo hleft =>
          rw [hx, Option.some.injEq] at hx'
          subst hx'
          have hall := ((h.task k i.origTask).push x hx).late (by rw [hfin]; rfl)
          rw [Push.left, Push.left, hfin, hall] at hleft
          simp [Phase.left] at hleft
      · exact hdone
    · have hnew := hmove.new h (Nat.le_of_not_lt hold) hq
      simp only [isNew, Bool.and_eq_true, Bool.not_eq_true'] at hnew
      rw [show ((t.nodes k).mem q).isModuleComplete = true from hm] at hnew
      cases hnew.1.2

/-- A worker that finds a push task module-complete and joins its thread finds the thread at its end: every replica has
been called, the task it was made for has their outputs and is module-complete itself. -/
theorem joined_of_run (cfg : Config α π ρ) (mem : NodeId → TaskPtr → Task α)
    (registered : NodeId → TaskStateId → Bool) (labels : List (Label α)) (s : State α ρ)
    (hrun : run (RemoteQueue.step cfg) (boot mem registered) labels = some s) (k : NodeId) (q : TaskPtr)
    (i : PushInfo) (hq : q < (s.nodes k).next) (hi : (s.mem k q).body.pushInfo = some i)
    (hm : (s.mem k q).isModuleComplete = true ∨ .endTask q ∈ (s.nodes k).log) :
    (∃ x, s.pushes k i.origTask = some x ∧ x.task = q ∧ x.left = 0) ∧
      (s.mem k i.origTask).isModuleComplete = true ∧ Gathers cfg s k i.origTask := by
  have hinv : Inv cfg s ∧ Joined s := by
    refine run_invariant_all (I := fun s => Inv cfg s ∧ Joined s) ?_ ⟨boot_inv cfg mem registered, ?_⟩ hrun
    · rintro s l t ⟨h, hj⟩ hst
      exact ⟨step_inv h hst, hj.step h hst⟩
    · refine ⟨?_, ?_, ?_⟩
      · intro k w r hr
        cases hr
      · intro k q i hq
        cases hq
      · intro k p x hx
        cases hx
  obtain ⟨h, hj⟩ := hinv
  have hm : (s.mem k q).isModuleComplete = true := by
    rcases hm with hm | hend
    · exact hm
    · exact ((h.node k).ended q hend).2
  obtain ⟨x, hx, hfin⟩ := hj.push k q i hq hi hm
  have hok := (h.task k i.origTask).push x hx
  have htask : x.task = q := (h.node k).unique x.task q x.info i hok.task hq hok.info hi hok.orig
  have hall := hok.late (by rw [hfin]; rfl)
  refine ⟨⟨x, hx, htask, ?_⟩, hj.orig k i.origTask x hx (by rw [hfin]; rfl), hok.gathers h (by rw [hfin]; rfl)⟩
  rw [Push.left, hfin, hall]
  simp [Phase.left]

theorem joined_pushEndedRun : ∃ s i, run (RemoteQueue.step pairConfig)
      (boot (fun _ _ => mdTask DomainId.getLocal 0 []) (fun _ id => id = ⟨1, 6⟩ ∨ id = ⟨1, 8⟩)) pushEndedRun =
        some s ∧ 1 < (s.nodes 1).next ∧ (s.mem 1 1).body.pushInfo = some i ∧ .endTask 1 ∈ (s.nodes 1).log ∧
    (∃ x, s.pushes 1 i.origTask = some x ∧ x.task = 1 ∧ x.left = 0) ∧
      (s.mem 1 i.origTask).isModuleComplete = true ∧ Gathers pairConfig s 1 i.origTask := by
  have hsome : (run (RemoteQueue.step pairConfig)
      (boot (fun _ _ => mdTask DomainId.getLocal 0 []) (fun _ id => id = ⟨1, 6⟩ ∨ id = ⟨1, 8⟩)) pushEndedRun).any
      (fun s => 1 < (s.nodes 1).next ∧ ((s.mem 1 1).body.pushInfo).isSome = true ∧
        .endTask 1 ∈ (s.nodes 1).log) = true := by decide +kernel
  obtain ⟨s, hs, hok⟩ := (Option.any_eq_true _ _).mp hsome
  obtain ⟨hnext, hinfo, hend⟩ := of_decide_eq_true hok
  obtain ⟨i, hi⟩ := Option.isSome_iff_exists.mp hinfo
  exact ⟨s, i, hs, hnext, hi, hend, joined_of_run _ _ _ pushEndedRun s hs 1 1 i hnext hi (Or.inr hend)⟩

end Join

end HermesRun.RemoteQueue
