import HermesRun.Proc.Pushes

namespace HermesRun.ProcQueue

open Poll Runs
open RemoteQueue (isNew handlerKeeps Exclusive exclusive_of_lanes)

variable {β : Type}

section Log

variable {α : Type} {cfg : Poll.Config α} {s t : Poll.State α} {i : Poll.Label α}

theorem mem_enqueued {l : LaneRef} {q : TaskPtr} {log : List Event} :
    q ∈ enqueued l log ↔ .enqueue l q ∈ log := by
  unfold enqueued
  rw [List.mem_reverse, List.mem_filterMap]
  constructor
  · rintro ⟨e, he, heq⟩
    cases e with
    | enqueue l' p =>
      simp only [Option.ite_none_right_eq_some, Option.some.injEq] at heq
      obtain ⟨rfl, rfl⟩ := heq
      exact he
    | _ => cases heq
  · intro h
    exact ⟨_, h, if_pos rfl⟩

end Log

structure EmplacedOk (cfg : Config β) (s : State β) (k : ℕ) (q : TaskPtr) : Prop where
  known : q < s.node.next
  notPush : pushFields (s.node.mem q) = none
  forget : (s.node.mem q).isFireAndForget = false
  lane : ∃ y, s.subs[k]? = some y ∧ .enqueue (realLane cfg y) q ∈ s.node.log

structure PushInv (s : State β) (p : TaskPtr) (x : PushFields) : Prop where
  sub : x.subCli < s.subs.length
  plain : Plain (s.node.mem p)
  run : x.phase = .kWaitSchedule → x.subRun = some x.subCli
  placed : x.phase = .kWaitSchedule ∨ Placed s.node.tasksView p → ∃ q, s.emplaced x.subCli = [q]
  unplaced : x.phase = .kSchedule → ¬Placed s.node.tasksView p → s.emplaced x.subCli = []
  done : (s.node.mem p).isModuleComplete = true →
    x.phase = .kWaitSchedule ∧ ∃ q, s.emplaced x.subCli = [q] ∧ (s.node.mem q).isComplete = true
  complete : (s.node.mem p).isComplete = true → (s.node.mem p).isModuleComplete = true
  destroyed : s.destroyed x.subCli = if p ∈ s.deleted then 1 else 0

structure Inv (cfg : Config β) (s : State β) : Prop where
  lanes : ScannedFifo.Inv cfg.poll.owner s.node.lanesView
  subs : ∀ (k : ℕ) y, s.subs[k]? = some y → isFresh y = true
  running : ∀ w r, s.node.running w = some r → RunOk cfg s r
  busy : ∀ w r, s.node.running w = some r → r.task < s.node.next ∧ ¬s.node.tasksView.ended r.task
  complete : ∀ p, p < s.node.next → (s.node.mem p).isComplete = true → s.node.tasksView.ended p
  freed : ∀ q, .free q ∈ s.node.log → q < s.node.next ∧ (s.node.mem q).isFireAndForget = true
  emplaced : ∀ k q, q ∈ s.emplaced k → EmplacedOk cfg s k q
  unused : ∀ k, s.subs.length ≤ k → s.emplaced k = [] ∧ s.destroyed k = 0
  deleted : ∀ p ∈ s.deleted, p < s.node.next ∧ (s.node.mem p).isComplete = true
  push : ∀ p x, p < s.node.next → pushFields (s.node.mem p) = some x → PushInv s p x
  pushed : ∀ k, k < s.subs.length → ∃ p x, p < s.node.next ∧ pushFields (s.node.mem p) = some x ∧ x.subCli = k
  distinct : ∀ p p' x x', p < s.node.next → p' < s.node.next → pushFields (s.node.mem p) = some x →
    pushFields (s.node.mem p') = some x' → x.subCli = x'.subCli → p = p'

structure Taken (cfg : Config β) (s : State β) (i : Poll.Label (Own β)) (s' : State β) : Prop where
  ready : Ready cfg s i s'.node
  deleted : s'.deleted = s.deleted
  destroyed : s'.destroyed = s.destroyed
  subs : s'.subs = s.subs ∧ (∀ l t, i = .emplace l t → isFresh t = true) ∨
    ∃ y l taskNode laneHash, isFresh y = true ∧ s'.subs = s.subs ++ [y] ∧
      i = .emplace l (typedPushTask cfg taskNode laneHash s.subs.length)
  emplaced : ∀ k, s'.emplaced k = s.emplaced k ∧
      (∀ w x, i = .put w → runsPush s.node w = some x → x.subCli = k → s'.node.next = s.node.next) ∨
    ∃ w x, i = .put w ∧ runsPush s.node w = some x ∧ x.subCli = k ∧ s.node.next < s'.node.next ∧
      s'.emplaced k = s.emplaced k ++ [s.node.next]

section Taken

variable {cfg : Config β} {s s' : State β} {i : Poll.Label (Own β)}

theorem Inv.subReady (h : Inv cfg s) : SubReady s := by
  intro p x hp hx hphase hnot
  have hpush := h.push p x hp hx
  have hlt := hpush.sub
  have hy : s.subs[x.subCli]? = some s.subs[x.subCli] := List.getElem?_eq_getElem hlt
  refine ⟨_, hy, ?_, h.subs _ _ hy⟩
  rw [State.subTask, hpush.unplaced hphase hnot]
  exact hy

theorem Taken.subs_mono (h : Taken cfg s i s') (k : ℕ) (y : Task (Own β)) (hy : s.subs[k]? = some y) :
    s'.subs[k]? = some y := by
  rcases h.subs with ⟨heq, -⟩ | ⟨z, l, taskNode, laneHash, -, heq, -⟩
  · rw [heq]
    exact hy
  · rw [heq, List.getElem?_append_left (List.getElem?_eq_some_iff.mp hy).1]
    exact hy

theorem Taken.subs_length (h : Taken cfg s i s') : s.subs.length ≤ s'.subs.length := by
  rcases h.subs with ⟨heq, -⟩ | ⟨z, l, taskNode, laneHash, -, heq, -⟩
  · rw [heq]
  · rw [heq, List.length_append]
    omega

theorem step_freed (h : Inv cfg s) {t : Poll.State (Own β)} (hr : Ready cfg s i t) :
    ∀ q, .free q ∈ t.log → q < t.next ∧ (t.mem q).isFireAndForget = true := by
  intro q hq
  have hnext := hr.tasks.next_le
  rcases step_free hr.step hq with hq | ⟨w, out, r, rfl, hrun, rfl, hff⟩
  · obtain ⟨hlt, hf⟩ := h.freed q hq
    exact ⟨Nat.lt_of_lt_of_le hlt hnext, by rw [(step_same hr hlt).forget]; exact hf⟩
  · obtain ⟨hlt, -⟩ := h.busy w r hrun
    have hsame := hr.label.ranTask hrun (fun x hx => hr.plain r.task x hlt hx)
    refine ⟨Nat.lt_of_lt_of_le hlt hnext, ?_⟩
    rw [(step_same hr hlt).forget, ← hsame.forget]
    exact hff

theorem newPush {t : Poll.State (Own β)} (hr : Ready cfg s i t) {p : TaskPtr} {x : PushFields}
    (hold : s.node.next ≤ p) (hp : p < t.next) (hx : pushFields (t.mem p) = some x) :
    p = s.node.next ∧ ∃ l taskNode laneHash, i = .emplace l (typedPushTask cfg taskNode laneHash s.subs.length) ∧
      t.tasksView = s.node.tasksView.new (typedPushTask cfg taskNode laneHash s.subs.length) := by
  have hlabel := hr.label
  change pushFields (t.tasksView.mem p) = some x at hx
  obtain ⟨heq, ⟨l, rfl⟩ | ⟨w, r, dst, es, rfl, hrun, he⟩⟩ := hr.tasks.made hold hp
  · refine ⟨heq, l, ?_⟩
    rcases hlabel with hfresh | ⟨taskNode, laneHash, htyped⟩
    · rw [(isFresh_iff.mp hfresh).2.2] at hx
      cases hx
    · refine ⟨taskNode, laneHash, by rw [htyped], ?_⟩
      have htasks := hr.tasks
      rw [htyped] at htasks
      change p < t.tasksView.next at hp
      generalize t.tasksView = v' at htasks hp ⊢
      cases htasks with
      | quiet => exact absurd hp (Nat.not_lt_of_le hold)
      | new l y hown => rfl
  · have hnone := ((hr.running w r hrun).pending (dst, t.tasksView.mem p) (by rw [he]; exact List.mem_cons_self)).1
    rw [hx] at hnone
    cases hnone

theorem PushMove.fields {t : Poll.State (Own β)} {p : TaskPtr} {x x' : PushFields} (h : PushMove s i t p x)
    (hx : pushFields (s.node.mem p) = some x) (hx' : pushFields (t.mem p) = some x') :
    x' = x ∨ x' = x.next ∧ Placed s.node.tasksView p := by
  cases h with
  | same hm hpl hput =>
    rw [hm, hx, Option.some.injEq] at hx'
    exact Or.inl hx'.symm
  | begin hm h₀ h₁ hi =>
    rw [hm] at hx'
    exact Or.inl (Option.some.inj (hx'.symm.trans hx))
  | put w r hi hr ht hm h₀ hphase hnext h₁ =>
    rw [hm, hx, Option.some.injEq] at hx'
    exact Or.inl hx'.symm
  | skipped hc hm hpl hi =>
    rw [hm] at hx'
    exact Or.inl (Option.some.inj (hx'.symm.trans hx))
  | ran h₀ hi hm =>
    right
    refine ⟨?_, h₀⟩
    rcases hm with hm | ⟨hm, -⟩
    · rw [hm, pushFields_push, Option.some.injEq] at hx'
      exact hx'.symm
    · rw [hm] at hx'
      exact Option.some.inj (hx'.symm.trans (pushFields_push s (s.node.mem p) x))

theorem Taken.emplaced_push (ht : Taken cfg s i s') (h : Inv cfg s) {p : TaskPtr} {x : PushFields}
    (hp : p < s.node.next) (hx : pushFields (s.node.mem p) = some x) :
    s'.emplaced x.subCli = s.emplaced x.subCli ∨ ∃ w r, i = .put w ∧ s.node.running w = some r ∧ r.task = p ∧
      s.node.next < s'.node.next := by
  rcases ht.emplaced x.subCli with ⟨hsame, -⟩ | ⟨w, x₀, hi, hruns, hsub, hnext, -⟩
  · exact Or.inl hsame
  · obtain ⟨r, hr, hx₀⟩ := Option.bind_eq_some_iff.mp hruns
    exact Or.inr ⟨w, r, hi, hr, h.distinct _ p x₀ x (h.busy w r hr).1 hp hx₀ hx hsub, hnext⟩

theorem push_keeps_moduleComplete {t : Task (Own β)} (s : State β) (x : PushFields)
    (h : t.isModuleComplete = true) : (push s t x).isModuleComplete = true := by
  unfold push
  dsimp only
  split_ifs
  · simp
  · exact h

theorem PushInv.next_subRun {p : TaskPtr} {x : PushFields} (h : PushInv s p x) : x.next.subRun = some x.subCli := by
  unfold PushFields.next
  cases hphase : x.phase with
  | kSchedule => rfl
  | kWaitSchedule => exact h.run hphase

theorem Taken.subCli_eq (ht : Taken cfg s i s') (h : Inv cfg s) {p : TaskPtr} {x x' : PushFields}
    (hp : p < s.node.next) (hx : pushFields (s.node.mem p) = some x) (hx' : pushFields (s'.node.mem p) = some x') :
    x'.subCli = x.subCli := by
  rcases (step_push ht.ready h.subReady hp hx).fields hx hx' with rfl | ⟨rfl, -⟩
  · rfl
  · exact x.next_subCli

theorem Taken.emplaced_of_ne_put (ht : Taken cfg s i s') (hi : ∀ w, i ≠ .put w) (k : ℕ) :
    s'.emplaced k = s.emplaced k := by
  rcases ht.emplaced k with ⟨hsame, -⟩ | ⟨w, -, hput, -⟩
  · exact hsame
  · exact absurd hput (hi w)

theorem Taken.emplaced_complete (ht : Taken cfg s i s') (h : Inv cfg s) {k : ℕ} {q : TaskPtr}
    (hq : s.emplaced k = [q]) (hc : (s.node.mem q).isComplete = true) : (s'.node.mem q).isComplete = true := by
  have hok := h.emplaced k q (by rw [hq]; exact List.mem_singleton_self q)
  exact (step_same ht.ready hok.known).complete hc

theorem Taken.stillPushInv (ht : Taken cfg s i s') (h : Inv cfg s) {p : TaskPtr} {x : PushFields}
    (hold : PushInv s p x) (hsame : s'.emplaced x.subCli = s.emplaced x.subCli) (hplain : Plain (s'.node.mem p))
    (hmc : (s'.node.mem p).isModuleComplete = (s.node.mem p).isModuleComplete)
    (hc : (s'.node.mem p).isComplete = true → (s'.node.mem p).isModuleComplete = true)
    (hplaced : Placed s'.node.tasksView p → x.phase = .kWaitSchedule ∨ Placed s.node.tasksView p)
    (hunplaced : Placed s.node.tasksView p → Placed s'.node.tasksView p) : PushInv s' p x := by
  refine ⟨Nat.lt_of_lt_of_le hold.sub ht.subs_length, hplain, hold.run, ?_, ?_, ?_, hc, ?_⟩
  · rw [hsame]
    rintro (hphase | hpl)
    · exact hold.placed (Or.inl hphase)
    · exact hold.placed (hplaced hpl)
  · rw [hsame]
    intro hphase hnot
    exact hold.unplaced hphase (fun hpl => hnot (hunplaced hpl))
  · rw [hmc, hsame]
    intro hdone
    obtain ⟨hphase, q, hq, hcomplete⟩ := hold.done hdone
    exact ⟨hphase, q, hq, ht.emplaced_complete h hq hcomplete⟩
  · rw [ht.destroyed, ht.deleted]
    exact hold.destroyed

theorem Taken.putPushInv (ht : Taken cfg s i s') {p : TaskPtr} {x : PushFields} (hold : PushInv s p x)
    (hx : pushFields (s.node.mem p) = some x) {w : WorkerId} {r : Running (Own β)} (hi : i = .put w)
    (hr : s.node.running w = some r) (htask : r.task = p) (hm : s'.node.mem p = s.node.mem p)
    (h₀ : ¬Placed s.node.tasksView p) (hphase : x.phase = .kSchedule) (hnext : s'.node.next = s.node.next + 1)
    (h₁ : Placed s'.node.tasksView p) : PushInv s' p x := by
  have hgrown : s'.emplaced x.subCli = [s.node.next] := by
    rcases ht.emplaced x.subCli with ⟨-, hnot⟩ | ⟨-, -, -, -, -, -, happ⟩
    · have hruns : runsPush s.node w = some x := by
        rw [runsPush, hr, Option.bind_some, htask]
        exact hx
      have heq := hnot w x hi hruns rfl
      exact absurd (heq.symm.trans hnext) (Nat.ne_of_lt (Nat.lt_succ_self _))
    · rw [happ, hold.unplaced hphase h₀, List.nil_append]
  refine ⟨Nat.lt_of_lt_of_le hold.sub ht.subs_length, by rw [hm]; exact hold.plain, hold.run, ?_, ?_, ?_,
    by rw [hm]; exact hold.complete, ?_⟩
  · intro _
    exact ⟨_, hgrown⟩
  · intro _ hnot
    exact absurd h₁ hnot
  · rw [hm]
    intro hmc
    rw [(hold.done hmc).1] at hphase
    cases hphase
  · rw [ht.destroyed, ht.deleted]
    exact hold.destroyed

theorem PushInv.found {p q : TaskPtr} {x : PushFields} (hold : PushInv s p x) (hq : s.emplaced x.subCli = [q])
    (hmc : (push s (s.node.mem p) x).isModuleComplete = true) : (s.node.mem q).isComplete = true := by
  rcases push_moduleComplete hmc with hmc | hfound
  · obtain ⟨-, q', hq', hc⟩ := hold.done hmc
    rw [hq, List.singleton_inj] at hq'
    rw [hq']
    exact hc
  · rw [hold.next_subRun, Option.bind_some, State.subTask, hq] at hfound
    exact hfound

theorem Taken.ranPushInv (ht : Taken cfg s i s') (h : Inv cfg s) {p : TaskPtr} {x : PushFields}
    (hold : PushInv s p x) (h₀ : Placed s.node.tasksView p) (hi : ∀ w, i ≠ .put w)
    (hm : s'.node.mem p = push s (s.node.mem p) x ∨ s'.node.mem p = (push s (s.node.mem p) x).setComplete ∧
      (push s (s.node.mem p) x).isModuleComplete = true) : PushInv s' p x.next := by
  have hcli : x.next.subCli = x.subCli := x.next_subCli
  have hsame := ht.emplaced_of_ne_put hi x.subCli
  obtain ⟨q, hq⟩ := hold.placed (Or.inr h₀)
  have hmodule : (s'.node.mem p).isModuleComplete = true → (push s (s.node.mem p) x).isModuleComplete = true := by
    rcases hm with hm | ⟨-, hmc⟩
    · rw [hm]
      exact id
    · exact fun _ => hmc
  refine ⟨?_, ?_, ?_, ?_, ?_, ?_, ?_, ?_⟩
  · rw [hcli]
    exact Nat.lt_of_lt_of_le hold.sub ht.subs_length
  · rcases hm with hm | ⟨hm, -⟩
    · rw [hm]
      exact hold.plain.push s x
    · rw [hm]
      exact (hold.plain.push s x).setComplete
  · intro _
    rw [hcli]
    exact hold.next_subRun
  · intro _
    rw [hcli, hsame]
    exact ⟨q, hq⟩
  · intro hphase
    rw [x.next_phase] at hphase
    cases hphase
  · intro hmc
    rw [hcli, hsame]
    exact ⟨x.next_phase, q, hq, ht.emplaced_complete h hq (hold.found hq (hmodule hmc))⟩
  · intro hc
    rcases hm with hm | ⟨hm, -⟩
    · rw [hm, push_isComplete] at hc
      rw [hm]
      exact push_keeps_moduleComplete s x (hold.complete hc)
    · rw [hm, Task.setComplete_isModuleComplete]
  · rw [ht.destroyed, ht.deleted, hcli]
    exact hold.destroyed

theorem Taken.pushInv (ht : Taken cfg s i s') (h : Inv cfg s) {p : TaskPtr} {x' : PushFields}
    (hp : p < s.node.next) (hx' : pushFields (s'.node.mem p) = some x') : PushInv s' p x' := by
  obtain ⟨x, hx⟩ := exists_pushFields (step_same ht.ready hp) hx'
  have hold := h.push p x hp hx
  -- a step that leaves the fields of the push alone
  have hfields {u : Task (Own β)} (hm : s'.node.mem p = u) (hu : pushFields u = some x) : x' = x := by
    rw [hm, hu, Option.some.injEq] at hx'
    exact hx'.symm
  cases step_push ht.ready h.subReady hp hx with
  | same hm hpl hput =>
    cases hfields hm hx
    have hsame : s'.emplaced x'.subCli = s.emplaced x'.subCli := by
      rcases ht.emplaced_push h hp hx with hsame | ⟨w, r, hi, hr, htask, hlt⟩
      · exact hsame
      · rw [hput w r hi hr htask] at hlt
        exact absurd hlt (Nat.lt_irrefl _)
    refine ht.stillPushInv h hold hsame ?_ (by rw [hm]) ?_ (fun h₁ => Or.inr (hpl.mp h₁)) hpl.mpr
    · rw [hm]
      exact hold.plain
    · rw [hm]
      exact hold.complete
  | begin hm h₀ h₁ hi =>
    cases hfields hm hx
    refine ht.stillPushInv h hold (ht.emplaced_of_ne_put hi _) ?_ ?_ ?_ (fun h' => Or.inl (h₁ h'))
      (fun h' => absurd h' h₀)
    · rw [hm]
      exact hold.plain.setStarted
    · rw [hm, Task.setStarted_isModuleComplete]
    · rw [hm, Task.setStarted_isModuleComplete, Task.setStarted_isComplete]
      exact hold.complete
  | put w r hi hr htask hm h₀ hphase hnext h₁ =>
    cases hfields hm hx
    exact ht.putPushInv hold hx hi hr htask hm h₀ hphase hnext h₁
  | skipped hc hm hpl hi =>
    cases hfields hm hx
    refine ht.stillPushInv h hold (ht.emplaced_of_ne_put hi _) ?_ ?_ ?_ (fun h₁ => Or.inr (hpl.mp h₁)) hpl.mpr
    · rw [hm]
      exact hold.plain.setComplete
    · rw [hm, Task.setComplete_isModuleComplete, hc]
    · intro _
      rw [hm, Task.setComplete_isModuleComplete]
  | ran h₀ hi hm =>
    have hnext : x' = x.next := by
      rcases hm with hm | ⟨hm, -⟩
      · rw [hm, pushFields_push, Option.some.injEq] at hx'
        exact hx'.symm
      · rw [hm] at hx'
        exact Option.some.inj (hx'.symm.trans (pushFields_push s (s.node.mem p) x))
    rw [hnext]
    exact ht.ranPushInv h hold h₀ hi hm

theorem Taken.newPushInv (ht : Taken cfg s i s') (h : Inv cfg s) {p : TaskPtr} {x : PushFields}
    (hold : s.node.next ≤ p) (hp : p < s'.node.next) (hx : pushFields (s'.node.mem p) = some x) :
    x.subCli = s.subs.length ∧ PushInv s' p x := by
  obtain ⟨rfl, l, taskNode, laneHash, hi, hv⟩ := newPush ht.ready hold hp hx
  have hm : s'.node.mem s.node.next = typedPushTask cfg taskNode laneHash s.subs.length := by
    rw [show s'.node.mem = s'.node.tasksView.mem from rfl, hv]
    exact TasksView.new_self _ _
  rw [hm] at hx
  have hxx : x = ⟨s.subs.length, none, .kSchedule⟩ := (Option.some.inj hx).symm
  subst hxx
  obtain ⟨hc, hmc⟩ := typedPushTask_complete cfg taskNode laneHash s.subs.length
  have hemplaced : s'.emplaced s.subs.length = [] := by
    rcases ht.emplaced s.subs.length with ⟨hsame, -⟩ | ⟨w, x, hput, -⟩
    · rw [hsame]
      exact (h.unused _ (Nat.le_refl _)).1
    · rw [hi] at hput
      cases hput
  have hplaced : ¬Placed s'.node.tasksView s.node.next := by
    rw [hv]
    rintro ⟨w, r, hr, hcall⟩
    have hlt := (h.busy w r hr).1
    rw [hcall.task] at hlt
    exact Nat.lt_irrefl _ hlt
  refine ⟨rfl, ?_, by rw [hm]; exact plain_typedPushTask .., by simp, ?_, ?_, ?_, ?_, ?_⟩
  · rcases ht.subs with ⟨-, hfresh⟩ | ⟨y, l', taskNode', laneHash', -, heq, -⟩
    · have hfresh' := hfresh l _ hi
      rw [isFresh_iff] at hfresh'
      cases hfresh'.2.2
    · rw [heq, List.length_append, List.length_singleton]
      exact Nat.lt_succ_self _
  · rintro (hphase | hpl)
    · cases hphase
    · exact absurd hpl hplaced
  · intro _ _
    exact hemplaced
  · rw [hm, hmc]
    intro hfalse
    cases hfalse
  · rw [hm, hc]
    intro hfalse
    cases hfalse
  · have hnot : s.node.next ∉ s.deleted := fun hmem => Nat.lt_irrefl _ (h.deleted _ hmem).1
    rw [ht.destroyed, ht.deleted, if_neg hnot]
    exact (h.unused _ (Nat.le_refl _)).2

theorem Taken.emplacedOk (ht : Taken cfg s i s') (h : Inv cfg s) {k : ℕ} {q : TaskPtr}
    (hq : q ∈ s'.emplaced k) : EmplacedOk cfg s' k q := by
  obtain ⟨evs, hlog⟩ := step_log ht.ready.step
  have hkeep : q ∈ s.emplaced k → EmplacedOk cfg s' k q := by
    intro hq
    have hok := h.emplaced k q hq
    have hsame := step_same ht.ready hok.known
    obtain ⟨y, hy, hlane⟩ := hok.lane
    refine ⟨Nat.lt_of_lt_of_le hok.known ht.ready.tasks.next_le, ?_, ?_, y, ht.subs_mono k y hy, ?_⟩
    · rw [← Option.isNone_iff_eq_none, hsame.isPush, hok.notPush]
      rfl
    · rw [hsame.forget]
      exact hok.forget
    · rw [hlog]
      exact List.mem_append_right _ hlane
  rcases ht.emplaced k with ⟨hsame, -⟩ | ⟨w, x, rfl, hruns, rfl, hnext, happ⟩
  · rw [hsame] at hq
    exact hkeep hq
  · rw [happ, List.mem_append, List.mem_singleton] at hq
    rcases hq with hq | rfl
    · exact hkeep hq
    · -- the pointer of the `Emplace` that the worker has just made
      obtain ⟨r, dst, y, es, hr, he, henq, hm, hsucc⟩ := put_enqueue ht.ready.step hnext
      obtain ⟨r', hr', hx⟩ := Option.bind_eq_some_iff.mp hruns
      rw [hr, Option.some.injEq] at hr'
      subst hr'
      rcases (h.running w r hr).push x hx with ⟨hnil, -⟩ | ⟨-, -, z, hz, hone⟩
      · rw [he] at hnil
        cases hnil
      · rw [he, List.cons.injEq, Prod.mk.injEq] at hone
        obtain ⟨⟨rfl, rfl⟩, -⟩ := hone
        refine ⟨by rw [hsucc]; exact Nat.lt_succ_self _, ?_, ?_, z, ht.subs_mono _ z hz, henq⟩
        · rw [hm, pushFields_scheduled]
          exact (isFresh_iff.mp (h.subs _ z hz)).2.2
        · rw [hm]
          exact scheduled_isFireAndForget z

theorem Taken.pushed (ht : Taken cfg s i s') (h : Inv cfg s) {k : ℕ} (hk : k < s'.subs.length) :
    ∃ p x, p < s'.node.next ∧ pushFields (s'.node.mem p) = some x ∧ x.subCli = k := by
  have hready := ht.ready
  by_cases hlt : k < s.subs.length
  · obtain ⟨p, x, hp, hx, rfl⟩ := h.pushed k hlt
    have hsame := (step_same hready hp).isPush
    rw [hx] at hsame
    cases hx' : pushFields (s'.node.mem p) with
    | none =>
      rw [hx'] at hsame
      cases hsame
    | some x' => exact ⟨p, x', Nat.lt_of_lt_of_le hp hready.tasks.next_le, hx', ht.subCli_eq h hp hx hx'⟩
  · rcases ht.subs with ⟨heq, -⟩ | ⟨z, l, taskNode, laneHash, -, heq, rfl⟩
    · rw [heq] at hk
      exact absurd hk hlt
    · rw [heq, List.length_append, List.length_singleton] at hk
      have hst := hready.step
      obtain ⟨-, htr⟩ := step_transition hst
      generalize s'.node = t at htr
      cases htr
      refine ⟨s.node.next, ⟨s.subs.length, none, .kSchedule⟩, ?_, ?_, ?_⟩
      · rw [State.emplace_next]
        exact Nat.lt_succ_self _
      · rw [State.emplace_mem, Function.update_self]
        rfl
      · exact Nat.le_antisymm (Nat.le_of_not_lt hlt) (Nat.le_of_lt_succ hk)

theorem Taken.distinct (ht : Taken cfg s i s') (h : Inv cfg s) {p p' : TaskPtr} {x x' : PushFields}
    (hp : p < s'.node.next) (hp' : p' < s'.node.next) (hx : pushFields (s'.node.mem p) = some x)
    (hx' : pushFields (s'.node.mem p') = some x') (heq : x.subCli = x'.subCli) : p = p' := by
  have hready := ht.ready
  have hold : ∀ p x', p < s.node.next → pushFields (s'.node.mem p) = some x' →
      ∃ x, pushFields (s.node.mem p) = some x ∧ x'.subCli = x.subCli ∧ x.subCli < s.subs.length := by
    intro p x' hp hx'
    obtain ⟨x, hx⟩ := exists_pushFields (step_same hready hp) hx'
    exact ⟨x, hx, ht.subCli_eq h hp hx hx', (h.push p x hp hx).sub⟩
  by_cases hlt : p < s.node.next
  · obtain ⟨y, hy, hxy, hylt⟩ := hold p x hlt hx
    by_cases hlt' : p' < s.node.next
    · obtain ⟨y', hy', hxy', -⟩ := hold p' x' hlt' hx'
      exact h.distinct p p' y y' hlt hlt' hy hy' (by rw [← hxy, ← hxy', heq])
    · have hnew := (ht.newPushInv h (Nat.le_of_not_lt hlt') hp' hx').1
      omega
  · have hnew := (ht.newPushInv h (Nat.le_of_not_lt hlt) hp hx).1
    by_cases hlt' : p' < s.node.next
    · obtain ⟨y', hy', hxy', hylt⟩ := hold p' x' hlt' hx'
      omega
    · have heq₁ := (newPush hready (Nat.le_of_not_lt hlt) hp hx).1
      have heq₂ := (newPush hready (Nat.le_of_not_lt hlt') hp' hx').1
      rw [heq₁, heq₂]

theorem Taken.inv (ht : Taken cfg s i s') (h : Inv cfg s) : Inv cfg s' := by
  have hready := ht.ready
  have hnext := hready.tasks.next_le
  refine ⟨step_lanesInv h.lanes hready.step, ?_, ?_, ?_, ?_, step_freed h hready, ?_, ?_, ?_, ?_, ?_, ?_⟩
  · intro k y hy
    rcases ht.subs with ⟨heq, -⟩ | ⟨z, l, taskNode, laneHash, hz, heq, -⟩
    · rw [heq] at hy
      exact h.subs k y hy
    · rw [heq] at hy
      by_cases hk : k < s.subs.length
      · rw [List.getElem?_append_left hk] at hy
        exact h.subs k y hy
      · rw [List.getElem?_append_right (Nat.le_of_not_lt hk)] at hy
        rw [List.mem_singleton.mp (List.mem_of_getElem? hy)]
        exact hz
  · intro w r hr
    exact step_runOk hready h.subReady rfl ht.subs_mono hr
  · intro w r hr
    exact hready.exclusive.step hready.tasks hr
  · intro p hp hc
    exact step_complete hready h.complete hp hc
  · intro k q hq
    exact ht.emplacedOk h hq
  · intro k hk
    have hk' := Nat.le_trans ht.subs_length hk
    obtain ⟨hnil, hzero⟩ := h.unused k hk'
    refine ⟨?_, by rw [ht.destroyed]; exact hzero⟩
    rcases ht.emplaced k with ⟨hsame, -⟩ | ⟨w, x, -, hruns, rfl, -⟩
    · rw [hsame]
      exact hnil
    · obtain ⟨r, hr, hx⟩ := Option.bind_eq_some_iff.mp hruns
      have hlt := (h.push r.task x (h.busy w r hr).1 hx).sub
      exact absurd hlt (Nat.not_lt_of_le hk')
  · intro p hp
    rw [ht.deleted] at hp
    obtain ⟨hlt, hc⟩ := h.deleted p hp
    exact ⟨Nat.lt_of_lt_of_le hlt hnext, (step_same hready hlt).complete hc⟩
  · intro p x hp hx
    by_cases hlt : p < s.node.next
    · exact ht.pushInv h hlt hx
    · exact (ht.newPushInv h (Nat.le_of_not_lt hlt) hp hx).2
  · intro k hk
    exact ht.pushed h hk
  · intro p p' x x' hp hp' hx hx' heq
    exact ht.distinct h hp hp' hx hx' heq

end Taken

section Runs

variable {cfg : Config β} {s s' : State β}

theorem Inv.ready (h : Inv cfg s) {i : Poll.Label (Own β)} {t : Poll.State (Own β)} (hl : LabelOk cfg s i)
    (hst : Poll.step cfg.poll s.node i = some t) : Ready cfg s i t := by
  obtain ⟨hh, -⟩ := step_transition hst
  exact ⟨exclusive_of_lanes h.lanes hh, hl, fun p x hp hx => (h.push p x hp hx).plain, h.running, hst,
    step_tasks rfl h.lanes hst⟩

theorem asyncPush_taken (h : Inv cfg s) {taskNode : TaskNode} {laneHash : UInt32} {sub : Task (Own β)}
    (hst : asyncPush cfg s taskNode laneHash sub = some s') : ∃ i, Taken cfg s i s' := by
  simp only [asyncPush, Option.ite_none_right_eq_some] at hst
  obtain ⟨hfresh, hst⟩ := hst
  obtain ⟨t, ht, rfl⟩ := Option.map_eq_some_iff.mp hst
  refine ⟨_, h.ready ?_ ht, rfl, rfl, Or.inr ⟨sub, _, taskNode, laneHash, hfresh, rfl, rfl⟩, ?_⟩
  · exact Or.inr ⟨taskNode, laneHash, rfl⟩
  intro k
  refine Or.inl ⟨rfl, ?_⟩
  intro w x hi
  cases hi

theorem track_finish (h : Inv cfg s) {w : WorkerId} {out : Task (Own β)} {t : Poll.State (Own β)}
    (hr : Ready cfg s (.finish w out) t) : track s (.finish w out) t = { s with node := t } := by
  unfold track
  dsimp only
  split
  · next r hrun =>
    split
    · next x hx =>
      obtain ⟨hlt, -⟩ := h.busy w r hrun
      have hsame := step_same hr hlt
      obtain ⟨x₀, hx₀⟩ := exists_pushFields hsame hx
      have hfree : .free r.task ∉ t.log := by
        intro hfree
        have hf := (step_freed h hr _ hfree).2
        rw [hsame.forget, (hr.plain r.task x₀ hlt hx₀).forget] at hf
        cases hf
      rw [if_neg (by simpa using hfree)]
    · rfl
  · rfl

theorem nodeStep_taken (h : Inv cfg s) {i : Poll.Label (Own β)} {t : Poll.State (Own β)} (hl : LabelOk cfg s i)
    (hfresh : ∀ l x, i = .emplace l x → isFresh x = true) (hst : Poll.step cfg.poll s.node i = some t) :
    Taken cfg s i (track s i t) := by
  have hr := h.ready hl hst
  -- all labels but `put` leave the subtasks where they are
  have hplain : (∀ w, i ≠ .put w) → track s i t = { s with node := t } → Taken cfg s i (track s i t) := by
    intro hi heq
    rw [heq]
    refine ⟨hr, rfl, rfl, Or.inl ⟨rfl, hfresh⟩, ?_⟩
    intro k
    exact Or.inl ⟨rfl, fun w x hput => absurd hput (hi w)⟩
  cases i with
  | put w =>
    have hnext := hr.tasks.next_le
    unfold track
    dsimp only
    split
    · next x hx =>
      split_ifs with hlt
      · refine ⟨hr, rfl, rfl, Or.inl ⟨rfl, hfresh⟩, ?_⟩
        intro k
        by_cases hk : x.subCli = k
        · subst hk
          exact Or.inr ⟨w, x, rfl, hx, rfl, hlt, Function.update_self ..⟩
        · refine Or.inl ⟨Function.update_of_ne (Ne.symm hk) .., ?_⟩
          intro w' x' hi hx' hk'
          cases hi
          rw [hx, Option.some.injEq] at hx'
          subst hx'
          exact absurd hk' hk
      · refine ⟨hr, rfl, rfl, Or.inl ⟨rfl, hfresh⟩, ?_⟩
        intro k
        exact Or.inl ⟨rfl, fun _ _ _ _ _ => Nat.le_antisymm (Nat.le_of_not_lt hlt) hnext⟩
    · next hx =>
      refine ⟨hr, rfl, rfl, Or.inl ⟨rfl, hfresh⟩, ?_⟩
      intro k
      refine Or.inl ⟨rfl, ?_⟩
      intro w' x' hi hx'
      cases hi
      rw [hx] at hx'
      cases hx'
  | finish w out => exact hplain (by simp) (track_finish h hr)
  | emplace l x => exact hplain (by simp) rfl
  | poll w l => exact hplain (by simp) rfl
  | scan w es => exact hplain (by simp) rfl
  | registry w op => exact hplain (by simp) rfl
  | write p x => exact hplain (by simp) rfl

theorem nodeLabel_fresh {l i : Poll.Label (Own β)} (h : nodeLabel cfg s l = some i) (lane : LaneRef)
    (x : Task (Own β)) (hi : i = .emplace lane x) : isFresh x = true := by
  subst hi
  cases l with
  | emplace l t =>
    simp only [nodeLabel, Option.ite_none_right_eq_some, Option.some.injEq, Label.emplace.injEq] at h
    obtain ⟨hfresh, -, rfl⟩ := h
    exact hfresh
  | scan w es =>
    simp only [nodeLabel] at h
    split at h
    · cases h
    · split_ifs at h
      cases h
  | finish w out =>
    simp only [nodeLabel] at h
    split at h
    · cases h
    · split at h
      · cases h
      · split_ifs at h
        cases h
  | write p t =>
    simp only [nodeLabel] at h
    split_ifs at h
    cases h
  | poll w l => cases h
  | put w => cases h
  | registry w op => cases h

theorem delTask_inv (h : Inv cfg s) {p : TaskPtr} (hst : delTask s p = some s') : Inv cfg s' := by
  unfold delTask at hst
  dsimp only at hst
  split at hst
  · next x hx =>
    simp only [Option.ite_none_right_eq_some, Bool.and_eq_true, decide_eq_true_eq, Bool.not_eq_true',
      List.contains_eq_mem, decide_eq_false_iff_not, Option.some.injEq] at hst
    obtain ⟨⟨⟨hp, hc⟩, hnot⟩, rfl⟩ := hst
    have hpush := h.push p x hp hx
    have hdestruct : s.destruct (s.node.mem p) x =
        { s with destroyed := Function.update s.destroyed x.subCli (s.destroyed x.subCli + 1) } := by
      simp only [State.destruct, hpush.plain.forget, Bool.not_false, if_true]
    rw [hdestruct]
    refine ⟨h.lanes, h.subs, fun w r hr => ⟨(h.running w r hr).pending, (h.running w r hr).push⟩, h.busy, h.complete,
      h.freed, fun k q hq => ⟨(h.emplaced k q hq).known, (h.emplaced k q hq).notPush, (h.emplaced k q hq).forget,
      (h.emplaced k q hq).lane⟩, ?_, ?_, ?_, h.pushed, h.distinct⟩
    · intro k hk
      have hne : k ≠ x.subCli := by
        rintro rfl
        exact absurd hpush.sub (Nat.not_lt_of_le hk)
      obtain ⟨hnil, hzero⟩ := h.unused k hk
      exact ⟨hnil, (Function.update_of_ne hne ..).trans hzero⟩
    · intro p' hp'
      rcases List.mem_cons.mp hp' with rfl | hp'
      · exact ⟨hp, hc⟩
      · exact h.deleted p' hp'
    · intro p' x' hp' hx'
      have hold := h.push p' x' hp' hx'
      refine ⟨hold.sub, hold.plain, hold.run, hold.placed, hold.unplaced, hold.done, hold.complete, ?_⟩
      show Function.update s.destroyed x.subCli (s.destroyed x.subCli + 1) x'.subCli =
        if p' ∈ p :: s.deleted then 1 else 0
      by_cases heq : p' = p
      · subst heq
        rw [hx, Option.some.injEq] at hx'
        subst hx'
        rw [Function.update_self, hold.destroyed, if_neg hnot, if_pos List.mem_cons_self]
      · have hne : x'.subCli ≠ x.subCli := fun hsub => heq (h.distinct p' p x' x hp' hp hx' hx hsub)
        have hmem : p' ∈ p :: s.deleted ↔ p' ∈ s.deleted := by
          rw [List.mem_cons, or_iff_right heq]
        rw [Function.update_of_ne hne, hold.destroyed]
        simp only [hmem]
  · cases hst

theorem step_inv (h : Inv cfg s) {l : Label β} (hst : step cfg s l = some s') : Inv cfg s' := by
  cases l with
  | asyncPush taskNode laneHash sub =>
    obtain ⟨i, ht⟩ := asyncPush_taken h hst
    exact ht.inv h
  | node l =>
    obtain ⟨i, hi, hst⟩ := Option.bind_eq_some_iff.mp hst
    obtain ⟨t, ht, rfl⟩ := Option.map_eq_some_iff.mp hst
    exact (nodeStep_taken h (nodeLabel_ok hi) (nodeLabel_fresh hi) ht).inv h
  | delTask p => exact delTask_inv h hst

theorem inv_init (mem : TaskPtr → Task (Own β)) (registered : TaskStateId → Bool) :
    Inv cfg (State.init (Poll.State.init mem registered)) := by
  refine ⟨lanesView_init mem registered, ?_, ?_, ?_, ?_, ?_, ?_, ?_, ?_, ?_, ?_, ?_⟩ <;>
    simp [State.init, Poll.State.init, Poll.State.running]

structure PushOk (cfg : Config β) (s : State β) (p : TaskPtr) (x : PushFields) : Prop where
  atMostOnce : (s.emplaced x.subCli).length ≤ 1
  scheduled : x.phase = .kWaitSchedule → (s.emplaced x.subCli).length = 1
  realQueue : ∃ sub, s.subs[x.subCli]? = some sub ∧ ∀ q ∈ s.emplaced x.subCli, ∀ l,
    (enqueued l s.node.log).count q = if l = realLane cfg sub then 1 else 0
  complete : (s.node.mem p).isComplete = true →
    ∃ q, s.emplaced x.subCli = [q] ∧ (s.node.mem q).isComplete = true
  notFreed : ∀ q ∈ s.emplaced x.subCli, .free q ∉ s.node.log
  polls : ∀ w r, s.node.running w = some r → r.task = p → s.deletions x.subCli = 0
  deletions : s.deletions x.subCli = if p ∈ s.deleted then 1 else 0

structure PushProtocol (cfg : Config β) (s : State β) : Prop where
  pushed : ∀ k, k < s.subs.length → ∃ p x, p < s.node.next ∧ pushFields (s.node.mem p) = some x ∧ x.subCli = k
  push : ∀ p x, p < s.node.next → pushFields (s.node.mem p) = some x → PushOk cfg s p x

theorem Inv.not_freed (h : Inv cfg s) {k : ℕ} {q : TaskPtr} (hq : q ∈ s.emplaced k) : .free q ∉ s.node.log := by
  intro hfree
  have hf := (h.freed q hfree).2
  rw [(h.emplaced k q hq).forget] at hf
  cases hf

theorem Inv.deletions (h : Inv cfg s) (k : ℕ) : s.deletions k = s.destroyed k := by
  have hzero : (s.emplaced k).map (fun q => s.node.log.count (.free q)) = (s.emplaced k).map fun _ => 0 := by
    apply List.map_congr_left
    intro q hq
    exact List.count_eq_zero.mpr (h.not_freed hq)
  rw [State.deletions, hzero]
  simp

theorem Inv.count_enqueued (h : Inv cfg s) {l l' : LaneRef} {q : TaskPtr} (hq : .enqueue l q ∈ s.node.log) :
    (enqueued l' s.node.log).count q = if l' = l then 1 else 0 := by
  have hmem : q ∈ ScannedFifo.enqueued l s.node.lanesView.log := by
    rw [enqueued_lanesView]
    exact mem_enqueued.mpr hq
  rw [← enqueued_lanesView]
  split_ifs with hl
  · rw [hl]
    exact List.count_eq_one_of_mem (h.lanes.nodup l) hmem
  · rw [List.count_eq_zero]
    intro hmem'
    exact hl (h.lanes.disjoint l' l q hmem' hmem)

theorem Inv.pushOk (h : Inv cfg s) {p : TaskPtr} {x : PushFields} (hp : p < s.node.next)
    (hx : pushFields (s.node.mem p) = some x) : PushOk cfg s p x := by
  have hpush := h.push p x hp hx
  have hlt := hpush.sub
  refine ⟨?_, ?_, ⟨s.subs[x.subCli], List.getElem?_eq_getElem hlt, ?_⟩, ?_, fun q hq => h.not_freed hq, ?_, ?_⟩
  · by_cases hplaced : x.phase = .kWaitSchedule ∨ Placed s.node.tasksView p
    · obtain ⟨q, hq⟩ := hpush.placed hplaced
      rw [hq]
      exact Nat.le_refl 1
    · rw [not_or] at hplaced
      have hphase : x.phase = .kSchedule := by
        cases hph : x.phase with
        | kSchedule => rfl
        | kWaitSchedule => exact absurd hph hplaced.1
      rw [hpush.unplaced hphase hplaced.2]
      exact Nat.zero_le 1
  · intro hphase
    obtain ⟨q, hq⟩ := hpush.placed (Or.inl hphase)
    rw [hq]
    rfl
  · intro q hq l
    obtain ⟨y, hy, hlane⟩ := (h.emplaced _ q hq).lane
    rw [List.getElem?_eq_getElem hlt, Option.some.injEq] at hy
    rw [hy]
    exact h.count_enqueued hlane
  · intro hc
    exact (hpush.done (hpush.complete hc)).2
  · rintro w r hr rfl
    -- a push that its client has deleted has ended, and no worker is at such a task
    have hnot : r.task ∉ s.deleted := by
      intro hmem
      obtain ⟨hlt, hc⟩ := h.deleted _ hmem
      exact (h.busy w r hr).2 (h.complete _ hlt hc)
    rw [h.deletions, hpush.destroyed, if_neg hnot]
  · rw [h.deletions]
    exact hpush.destroyed

theorem pushProtocol_of_run (cfg : Config β) (mem : TaskPtr → Task (Own β)) (registered : TaskStateId → Bool)
    (is : List (Label β)) (t : State β)
    (h : run (step cfg) (State.init (Poll.State.init mem registered)) is = some t) : PushProtocol cfg t := by
  have hinv : Inv cfg t := by
    apply run_invariant_all (I := Inv cfg) _ (inv_init mem registered) h
    intro s l s' hs hst
    exact step_inv hs hst
  exact ⟨hinv.pushed, fun p x hp hx => hinv.pushOk hp hx⟩

end Runs

def twoWorkers : Config Unit where
  node :=
    { numHosts := 1
      nodeId := 1
      lib := fun _ => lib (Own Unit)
      owner := fun l => if l.queue = ⟨1, 1⟩ then 0 else 1
      depth := fun _ => 4
      numLanes := fun _ _ => 4
      remoteQueue := ⟨1, 2⟩
      fatalReturns := false }
  procQueue := ⟨1, 1⟩
  replicateStart := fun _ _ _ b => b

def subtask (flags : Bitfield.Flags) : Task (Own Unit) :=
  ⟨⟨1, 3⟩, ⟨⟨1, 7⟩, 0⟩, DomainId.getLocal, TaskPrio.kLowLatency, 2, TaskMethod.kLast, flags, .own (.other ())⟩

def forgottenRun : List (Label Unit) :=
  let pushLane : LaneRef := ⟨⟨1, 1⟩, TaskPrio.kLowLatency, 3⟩
  let subLane : LaneRef := ⟨⟨1, 3⟩, TaskPrio.kLowLatency, 2⟩
  let done := subtask (taskHasStarted ||| taskModuleComplete)
  [.asyncPush ⟨⟨1, 7⟩, 0⟩ 3 (subtask taskFireAndForget),
    .node (.poll 0 pushLane), .node (.scan 0 []), .node (.put 0), .node (.finish 0 done), .node (.scan 0 []),
    .node (.poll 1 subLane), .node (.scan 1 []), .node (.finish 1 done),
    .node (.poll 0 pushLane), .node (.scan 0 []), .node (.finish 0 done), .delTask 0]

theorem pushProtocol_forgottenRun : ∃ t, run (step twoWorkers)
    (State.init (Poll.State.init (fun _ => subtask 0) fun _ => true)) forgottenRun = some t ∧
    (t.emplaced 0 = [1] ∧ t.deleted = [0] ∧ t.deletions 0 = 1) ∧ PushProtocol twoWorkers t := by
  have hsome : (run (step twoWorkers) (State.init (Poll.State.init (fun _ => subtask 0) fun _ => true))
      forgottenRun).any (fun t => t.emplaced 0 = [1] ∧ t.deleted = [0] ∧ t.deletions 0 = 1) = true := by
    decide +kernel
  obtain ⟨t, ht, hend⟩ := (Option.any_eq_true _ _).mp hsome
  exact ⟨t, ht, of_decide_eq_true hend, pushProtocol_of_run twoWorkers _ _ forgottenRun t ht⟩

end HermesRun.ProcQueue
