import HermesRun.Remote.PushesFreed

namespace HermesRun.RemoteQueue

open Poll Runs

variable {α π ρ : Type}

section Copies

variable {cfg : Config α π ρ} {s t : State α ρ} {l : Label α}

theorem ThreadWrite.isComplete {d : NodeId} {p : TaskPtr} {x : Task α} (h : ThreadWrite cfg s d p x) :
    x.isComplete = (s.mem d p).isComplete := by
  cases h with
  | handler _ _ _ _ hk => exact handler_isComplete hk
  | fields _ f => simp only [Task.isComplete, mapOwn_taskFlags]
  | complete => exact Task.setModuleComplete_isComplete _
  | completePush => exact Task.setModuleComplete_isComplete _

theorem NodeMove.disposed {d : NodeId} {u : Poll.State α} (h : NodeMove cfg s l d u) (hinv : Inv cfg s)
    (hs : Disposed (s.nodes d)) : Disposed u := by
  have hknown : ∀ q, .endTask q ∈ (s.nodes d).log → q < (s.nodes d).next := fun q hq => ((hinv.node d).ended q hq).1
  cases h with
  | same => exact hs
  | halt => exact ⟨hs.freed, hs.complete⟩
  | step i u hst ha =>
    refine hs.step rfl (hinv.lanes d) hst hknown ?_
    rintro p x rfl
    cases ha
  | write p x u hst hw =>
    refine hs.step rfl (hinv.lanes d) hst hknown ?_
    intro q y hi
    cases hi
    exact ⟨hw.isFireAndForget, hw.isComplete⟩

theorem NodeMove.placed {d : NodeId} {u : Poll.State α} (h : NodeMove cfg s l d u) (hinv : Inv cfg s)
    (hs : Enqueued (s.nodes d)) : Enqueued u := by
  cases h with
  | same => exact hs
  | halt => exact hs
  | step i u hst ha => exact hs.step rfl (hinv.lanes d) hst
  | write p x u hst hw => exact hs.step rfl (hinv.lanes d) hst

theorem NodeMove.isFireAndForget {d : NodeId} {u : Poll.State α} (h : NodeMove cfg s l d u) (hinv : Inv cfg s)
    {q : TaskPtr} (hq : q < (s.nodes d).next) : (u.mem q).isFireAndForget = (s.mem d q).isFireAndForget := by
  rcases h.keeps with rfl | rfl | ⟨i, hst, hk⟩
  · rfl
  · rfl
  · cases (step_tasks rfl (hinv.lanes d) hst).move (p := q) hq with
    | same hm => exact congrArg _ hm
    | start w es exec hi hidle hr hm =>
      have hm : u.mem q = _ := hm
      rw [hm, execute_isFireAndForget]
      rfl
    | ran w out r hi hr ht he hm =>
      subst hi ht
      have hran := ranTask_isFireAndForget r (t := s.mem d r.task) (hk r hr)
      rcases hm with hm | ⟨-, -, hm⟩
      · have hm : u.mem r.task = _ := hm
        rw [hm]
        exact hran
      · have hm : u.mem r.task = _ := hm
        rw [hm, Task.setComplete_isFireAndForget]
        exact hran
    | write x hi hm =>
      subst hi
      have hm : u.mem q = x := hm
      rw [hm]
      exact hk

theorem NodeMove.kept {d : NodeId} {u : Poll.State α} (h : NodeMove cfg s l d u) (hinv : Inv cfg s) {q : TaskPtr}
    (hq : q < (s.nodes d).next) : Kept (s.mem d q) (u.mem q) := by
  cases h with
  | same => exact Kept.refl _
  | halt => exact Kept.refl _
  | step i u hst ha =>
    have hx : Exclusive (s.view d) := exclusive_of_lanes (hinv.lanes d) (step_transition hst).1
    exact (step_frame hx (step_tasks rfl (hinv.lanes d) hst) ha).kept q hq
  | write p x u hst hw =>
    obtain ⟨-, htr⟩ := step_transition hst
    cases htr with
    | write p x hp hx =>
      by_cases hqp : q = p
      · subst hqp
        have hself : ((s.nodes d).setTask q x).mem q = x := Function.update_self ..
        rw [hself]
        cases hw with
        | handler _ _ hd hr hk => exact Kept.handler hk hx
        | fields _ f => exact Kept.mapOwn f _
        | complete => exact Kept.setModuleComplete _
        | completePush => exact Kept.setModuleComplete _
      · have hother : ((s.nodes d).setTask p x).mem q = s.mem d q := Function.update_of_ne hqp ..
        rw [hother]
        exact Kept.refl _

theorem NodeMove.new {d : NodeId} {u : Poll.State α} (h : NodeMove cfg s l d u) (hinv : Inv cfg s) {q : TaskPtr}
    (hold : (s.nodes d).next ≤ q) (hq : q < u.next) : isNew (u.mem q) = true := by
  cases h with
  | same => exact absurd hq (Nat.not_lt.mpr hold)
  | halt => exact absurd hq (Nat.not_lt.mpr hold)
  | step i u hst ha => exact step_fresh (hinv.node d) (step_tasks rfl (hinv.lanes d) hst) ha hold hq
  | write p x u hst hw =>
    obtain ⟨-, htr⟩ := step_transition hst
    cases htr with
    | write p x hp hx => exact absurd hq (Nat.not_lt.mpr hold)

theorem write_self {k : NodeId} {p : TaskPtr} {x : Task α} (h : s.write cfg k p x = some t) : t.mem k p = x := by
  obtain ⟨-, -, rfl⟩ := write_spec h
  show ((s.setNode k _).nodes k).mem p = x
  rw [nodes_setNode_self]
  exact Function.update_self ..

theorem write_mem {k d : NodeId} {p q : TaskPtr} {x : Task α} (h : s.write cfg k p x = some t) :
    t.mem d q = s.mem d q ∨ d = k ∧ q = p := by
  by_cases hdq : d = k ∧ q = p
  · exact Or.inr hdq
  · obtain ⟨-, -, rfl⟩ := write_spec h
    left
    show ((s.setNode k _).nodes d).mem q = (s.nodes d).mem q
    by_cases hd : d = k
    · subst hd
      rw [nodes_setNode_self]
      exact Function.update_of_ne (fun hq => hdq ⟨rfl, hq⟩) ..
    · rw [nodes_setNode_of_ne _ hd]

theorem nodeStep_nodes {k : NodeId} {i : Poll.Label α} (hst : nodeStep cfg s k i = some t) :
    ∃ u, allowed (s.view k) i = true ∧ Poll.step (cfg.at k) (s.nodes k) i = some u ∧
      ∀ d, t.nodes d = (s.setNode k u).nodes d := by
  unfold nodeStep at hst
  split_ifs at hst with ha
  obtain ⟨u, hu, rfl⟩ := Option.map_eq_some_iff.mp hst
  refine ⟨u, ha, hu, ?_⟩
  intro d
  split
  · split
    · show Function.update (s.begin k _).nodes k u d = Function.update s.nodes k u d
      rw [begin_nodes]
    · rfl
  · rfl

theorem record_copies (s : State α ρ) (k d : NodeId) (p q : TaskPtr) (f : History → History)
    (hf : ∀ h, (f h).copies = h.copies) : ((s.record k p f).history d q).copies = (s.history d q).copies := by
  by_cases hdq : d = k ∧ q = p
  · obtain ⟨rfl, rfl⟩ := hdq
    show (update₂ s.history d q _ d q).copies = _
    rw [update₂_self, hf]
  · show (update₂ s.history k p _ d q).copies = _
    rw [update₂_of_ne _ _ hdq]

theorem begin_copies (s : State α ρ) (k d : NodeId) (r : Running α) (q : TaskPtr) :
    ((s.begin k r).history d q).copies = (s.history d q).copies := by
  have hran := record_copies s k d r.task q (fun h => { h with ran := h.ran + 1 }) (fun _ => rfl)
  unfold State.begin
  split
  · rfl
  · exact record_copies _ k d r.task q _ (fun _ => rfl)
  · dsimp only
    split
    · exact hran
    · exact hran
  · exact hran
  · exact hran

theorem nodeStep_copies {k₀ : NodeId} {i : Poll.Label α} (hst : nodeStep cfg s k₀ i = some t) (k : NodeId)
    (p : TaskPtr) : (t.history k p).copies = (s.history k p).copies := by
  unfold nodeStep at hst
  split_ifs at hst
  obtain ⟨u, -, rfl⟩ := Option.map_eq_some_iff.mp hst
  split
  · split
    · exact begin_copies ..
    · rfl
  · rfl

theorem write_copies {k d : NodeId} {p q : TaskPtr} {x : Task α} (h : s.write cfg k p x = some t) :
    (t.history d q).copies = (s.history d q).copies := by
  obtain ⟨-, -, rfl⟩ := write_spec h
  rfl

theorem step_copies (hst : step cfg s l = some t) (k : NodeId) (p : TaskPtr) :
    (t.history k p).copies = (s.history k p).copies ∨ ∃ d z, l = .rpcExec k p ∧ s.xfer k p = some z ∧
      t.mem d (s.nodes d).next = loadTask cfg d z ∧ (s.nodes d).next < (t.nodes d).next ∧
      (t.history k p).copies = (s.history k p).copies ++ [(d, (s.nodes d).next)] := by
  cases step_cases cfg hst with
  | node k₀ i _ hw => exact Or.inl (nodeStep_copies hw k p)
  | thread k₀ p₀ out _ hd hr ho hk he hw => exact Or.inl (write_copies hw)
  | rpcExec k₀ p₀ x domain z u hx hp hdom hz hu =>
    by_cases hkp : k = k₀ ∧ p = p₀
    · obtain ⟨rfl, rfl⟩ := hkp
      obtain ⟨-, htr⟩ := step_transition hu
      have hnode : ((s.setNode domain.id u).nodes domain.id) = u := nodes_setNode_self u
      refine Or.inr ⟨domain.id, z, rfl, hz, ?_, ?_, ?_⟩
      · show ((s.setNode domain.id u).nodes domain.id).mem _ = _
        rw [hnode]
        cases htr with
        | emplace l y hroom hyown => rw [Poll.State.emplace_mem, Function.update_self]
      · show (s.nodes domain.id).next < ((s.setNode domain.id u).nodes domain.id).next
        rw [hnode]
        cases htr with
        | emplace l y hroom hyown =>
          rw [Poll.State.emplace_next]
          exact Nat.lt_succ_self _
      · show (update₂ s.history k p _ k p).copies = _
        rw [update₂_self]
        rfl
    · left
      show (update₂ s.history k₀ p₀ _ k p).copies = _
      rw [update₂_of_ne _ _ hkp]
  | output k₀ p₀ x ret u hx hp hw =>
    left
    rw [record_copies _ k₀ k p₀ p (fun h => { h with loaded := h.loaded + 1 }) (fun _ => rfl)]
    exact write_copies (t := u) hw
  | replicateEnd k₀ p₀ x u hx hp hall hw =>
    left
    rw [record_copies _ k₀ k p₀ p (fun h => { h with replicateEnds := h.replicateEnds + 1 }) (fun _ => rfl)]
    exact write_copies (t := u) hw
  | completeOrig k₀ p₀ x u hx hp hw => exact Or.inl (write_copies (t := u) hw)
  | completePush k₀ p₀ x u hx hp hw => exact Or.inl (write_copies (t := u) hw)
  | _ => exact Or.inl rfl

theorem loadTask_isFireAndForget (cfg : Config α π ρ) (d : NodeId) (z : Task α) :
    (loadTask cfg d z).isFireAndForget = false := by
  simp [loadTask, Task.isFireAndForget, Task.unsetFireAndForget, Task.unsetStarted, Task.unsetMarked,
    Task.unsetDataOwner, Task.unsetLongRunning, Task.unsetFlag, taskFireAndForget, taskHasStarted, taskMarked,
    taskDataOwner, taskLongRunning, taskUnordered, Bitfield.unsetBits_or, Bitfield.any_unsetBits]

structure Tidy (cfg : Config α π ρ) (s : State α ρ) : Prop where
  inv : Inv cfg s
  disposed : ∀ k, Disposed (s.nodes k)
  placed : ∀ k, Enqueued (s.nodes k)
  copies : ∀ k p d c, (d, c) ∈ (s.history k p).copies → (s.mem d c).isFireAndForget = false

theorem boot_tidy (cfg : Config α π ρ) (mem : NodeId → TaskPtr → Task α)
    (registered : NodeId → TaskStateId → Bool) : Tidy cfg (boot mem registered) := by
  refine ⟨boot_inv cfg mem registered, fun k => disposed_init (mem k) (registered k), ?_, ?_⟩
  · intro k q hq
    cases hq
  · intro k p d c hc
    cases hc

theorem Tidy.step (h : Tidy cfg s) (hst : step cfg s l = some t) : Tidy cfg t := by
  refine ⟨step_inv h.inv hst, ?_, ?_, ?_⟩
  · intro k
    exact (step_move h.inv hst k).disposed h.inv (h.disposed k)
  · intro k
    exact (step_move h.inv hst k).placed h.inv (h.placed k)
  · intro k p d c hc
    have hkeep (hold : (d, c) ∈ (s.history k p).copies) : (t.mem d c).isFireAndForget = false := by
      have hlt := ((h.inv.task k p).copies d c hold).1
      exact ((step_move h.inv hst d).isFireAndForget h.inv hlt).trans (h.copies k p d c hold)
    rcases step_copies hst k p with heq | ⟨d', z, -, -, hz, -, heq⟩
    · exact hkeep (heq ▸ hc)
    · rw [heq] at hc
      rcases List.mem_append.mp hc with hold | hnew
      · exact hkeep hold
      · rw [List.mem_singleton, Prod.mk.injEq] at hnew
        obtain ⟨rfl, rfl⟩ := hnew
        rw [hz]
        exact loadTask_isFireAndForget cfg d z

theorem tidy_of_run (cfg : Config α π ρ) {mem : NodeId → TaskPtr → Task α}
    {registered : NodeId → TaskStateId → Bool} {labels : List (Label α)} {s : State α ρ}
    (hrun : run (RemoteQueue.step cfg) (boot mem registered) labels = some s) : Tidy cfg s :=
  run_invariant_all (fun _ _ _ h hst => Tidy.step h hst) (boot_tidy cfg mem registered) hrun

end Copies

end HermesRun.RemoteQueue
