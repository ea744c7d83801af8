import HermesRun.Remote.Disposal

namespace HermesRun.RemoteQueue

open Poll Runs

variable {α π ρ : Type}

def Phase.left : Phase ρ → ℕ
  | .start => 4
  | .ready => 3
  | .sent | .replicated => 2
  | .waiting _ | .signalled => 1
  | .replied _ | .finished => 0

def Push.left (x : Push ρ) : ℕ := 4 * (x.info.domainIds.length - x.replica) + x.phase.left

def Phase.isWaiting : Phase ρ → Bool
  | .waiting _ => true
  | _ => false

def Phase.isReplied : Phase ρ → Bool
  | .replied _ => true
  | _ => false

def Push.answered (x : Push ρ) : ℕ := x.replica + if x.phase.isReplied then 1 else 0

def Push.next (k : NodeId) (p : TaskPtr) (x : Push ρ) : Label α :=
  match x.phase with
  | .start => .start k p
  | .ready => if x.replica < x.info.domainIds.length then .call k p else .replicateEnd k p
  | .sent => .rpcExec k p
  | .waiting _ => .rpcComplete k p
  | .replied _ => .output k p
  | .replicated => .completeOrig k p
  | .signalled | .finished => .completePush k p

def isStepOf (k : NodeId) (p : TaskPtr) : Label α → Bool
  | .start k' p' | .call k' p' | .rpcExec k' p' | .rpcComplete k' p' | .output k' p' | .replicateEnd k' p'
  | .completeOrig k' p' | .completePush k' p' => k' = k && p' = p
  | .node _ _ | .thread _ _ _ => false

def Push.nodes (k : NodeId) (x : Push ρ) : List NodeId := k :: x.info.domainIds.map (·.id)

inductive PushStep (s t : State α ρ) (l : Label α) (k : NodeId) (p : TaskPtr) : Prop
  | same (hp : t.pushes k p = s.pushes k p)
      (hl : isStepOf k p l = true → ∃ x d, s.pushes k p = some x ∧ d ∈ x.nodes k ∧ (t.nodes d).halted = true)
  | spawn (q : TaskPtr) (i : PushInfo) (hl : isStepOf k p l = false) (hs : s.pushes k p = none)
      (ht : t.pushes k p = some ⟨q, i, 0, .start⟩) : PushStep s t l k p
  | own (x y : Push ρ) (hl : l = x.next k p) (hx : s.pushes k p = some x) (hy : t.pushes k p = some y)
      (htask : y.task = x.task) (hinfo : y.info = x.info) (hleft : y.left + 1 = x.left)
      (hans : y.answered = x.answered + if x.phase.isWaiting then 1 else 0)

theorem isStepOf_next (k : NodeId) (p : TaskPtr) (x : Push ρ) : isStepOf k p (x.next k p : Label α) = true := by
  unfold Push.next
  split <;> try split_ifs
  all_goals simp [isStepOf]

theorem isStepOf_self {k₀ k : NodeId} {p₀ p : TaskPtr} (h : (k₀ = k && p₀ = p : Bool) = true) : k₀ = k ∧ p₀ = p := by
  simpa using h

section Steps

variable {cfg : Config α π ρ} {s t : State α ρ} {l : Label α}

theorem begin_pushes (s : State α ρ) (k : NodeId) (r : Running α) : (s.begin k r).pushes = s.pushes ∨
    ∃ i, r.mode = .spawn ∧ (s.mem k r.task).body.pushInfo = some i ∧
      (s.begin k r).pushes = update₂ s.pushes k i.origTask (some ⟨r.task, i, 0, .start⟩) := by
  unfold State.begin
  split
  · exact Or.inl rfl
  · exact Or.inl rfl
  · next hm =>
    dsimp only
    split
    · exact Or.inl rfl
    · next i hi =>
      refine Or.inr ⟨i, hm, ?_, rfl⟩
      rw [hi]
      rfl
  · exact Or.inl rfl
  · exact Or.inl rfl

theorem Inv.push_none (h : Inv cfg s) {k : NodeId} {q : TaskPtr} {i : PushInfo} (hq : q < (s.view k).next)
    (hi : (s.mem k q).body.pushInfo = some i) (hd : (s.mem k q).isRunDisabled = false) :
    s.pushes k i.origTask = none := by
  cases hx : s.pushes k i.origTask with
  | none => rfl
  | some x =>
    have hok := (h.task k i.origTask).push x hx
    have heq := (h.node k).unique x.task q x.info i hok.task hq hok.info hi hok.orig
    have hdis := hok.disabled
    rw [heq, hd] at hdis
    cases hdis

theorem nodeStep_pushes (h : Inv cfg s) {k₀ : NodeId} {i : Poll.Label α} (hst : nodeStep cfg s k₀ i = some t)
    (k : NodeId) (p : TaskPtr) : t.pushes k p = s.pushes k p ∨
      s.pushes k p = none ∧ ∃ q i, t.pushes k p = some ⟨q, i, 0, .start⟩ := by
  unfold nodeStep at hst
  split_ifs at hst with ha
  obtain ⟨u, hu, rfl⟩ := Option.map_eq_some_iff.mp hst
  have hn : NodesOk cfg s (s.setNode k₀ u) k₀ i := nodesOk_of_step h ha hu rfl
  have htasks : TaskStep (cfg.at k₀) (s.view k₀) i u.tasksView := by
    rw [← view_setNode_self (s := s) u]
    exact hn.tasks
  cases i with
  | scan w es =>
    dsimp only
    cases hr : u.running w with
    | none => exact Or.inl rfl
    | some r =>
      rcases begin_pushes s k₀ r with heq | ⟨j, hm, hj, heq⟩
      · exact Or.inl (congrFun (congrFun heq k) p)
      by_cases hkp : k = k₀ ∧ p = j.origTask
      · obtain ⟨rfl, rfl⟩ := hkp
        right
        have hfree := scan_free htasks
        have hidle : (s.view k).Idle r.task := (htasks.scanned hr).2.1
        have hen : (s.mem k r.task).isRunDisabled = false := by
          rcases step_running htasks with hrun | ⟨w', es', q, exec, hi, hq, hw', hd, -, -, hview⟩
          · rcases hrun w r hr with hskip | ⟨r₀, hr₀, -⟩
            · rw [hm] at hskip
              cases hskip
            · rw [hfree] at hr₀
              cases hr₀
          · cases hi
            have hrun : u.tasksView.running w = some r := hr
            rw [hview, TasksView.setRunning_self, Option.some.injEq] at hrun
            rw [← hrun]
            exact hd
        refine ⟨h.push_none hidle.known hj hen, r.task, j, ?_⟩
        show (s.begin k r).pushes k j.origTask = _
        rw [heq, update₂_self]
      · left
        show (s.begin k₀ r).pushes k p = _
        rw [heq, update₂_of_ne _ _ hkp]
  | emplace | poll | put | registry | finish | write => exact Or.inl rfl

theorem write_pushes {k : NodeId} {p : TaskPtr} {x : Task α} (h : s.write cfg k p x = some t) :
    t.pushes = s.pushes := by
  obtain ⟨-, -, rfl⟩ := write_spec h
  rfl

theorem halt_halted (s : State α ρ) (d : NodeId) : ((s.halt d).nodes d).halted = true := by
  rw [State.halt, nodes_setNode_self]

theorem pushStep_of_update {k₀ k : NodeId} {p₀ p : TaskPtr} {x y : Push ρ} (hx : s.pushes k₀ p₀ = some x)
    (ht : t.pushes = update₂ s.pushes k₀ p₀ (some y)) (hl : ∀ k p, isStepOf k p l = (k₀ = k && p₀ = p))
    (hnext : l = x.next k₀ p₀) (htask : y.task = x.task) (hinfo : y.info = x.info) (hleft : y.left + 1 = x.left)
    (hans : y.answered = x.answered + if x.phase.isWaiting then 1 else 0) : PushStep s t l k p := by
  by_cases hkp : k = k₀ ∧ p = p₀
  · obtain ⟨rfl, rfl⟩ := hkp
    exact .own x y hnext hx (by rw [ht, update₂_self]) htask hinfo hleft hans
  · refine .same (by rw [ht, update₂_of_ne _ _ hkp]) ?_
    rw [hl, Bool.and_eq_true, decide_eq_true_eq, decide_eq_true_eq]
    rintro ⟨rfl, rfl⟩
    exact absurd ⟨rfl, rfl⟩ hkp

theorem step_push (h : Inv cfg s) (hst : step cfg s l = some t) (k : NodeId) (p : TaskPtr) :
    PushStep s t l k p := by
  cases step_cases cfg hst with
  | node k₀ i _ hw =>
    rcases nodeStep_pushes h hw k p with heq | ⟨hnone, q, j, hy⟩
    · exact .same heq (fun hl => by cases hl)
    · exact .spawn q j rfl hnone hy
  | thread k₀ p₀ out _ hd hr ho hk he hw =>
    exact .same (by rw [write_pushes hw]) (fun hl => by cases hl)
  | start k₀ p₀ x hx hp hh =>
    exact pushStep_of_update hx rfl (fun _ _ => rfl) (by simp [Push.next, hp]) rfl rfl
      (by simp [Push.left, hp, Phase.left]) (by simp [Push.answered, hp, Phase.isReplied, Phase.isWaiting])
  | fatal k₀ p₀ x hx hp hh =>
    refine .same rfl ?_
    intro hl
    obtain ⟨rfl, rfl⟩ := isStepOf_self (hl : (k₀ = k && p₀ = p) = true)
    exact ⟨x, k₀, hx, List.mem_cons_self, halt_halted s k₀⟩
  | call k₀ p₀ x hx hp hj hh =>
    exact pushStep_of_update hx rfl (fun _ _ => rfl) (by simp [Push.next, hp, hj]) rfl rfl
      (by simp [Push.left, hp, Phase.left]) (by simp [Push.answered, hp, Phase.isReplied, Phase.isWaiting])
  | rpcFatal k₀ p₀ x domain hx hp hdom hnone =>
    refine .same rfl ?_
    intro hl
    obtain ⟨rfl, rfl⟩ := isStepOf_self (hl : (k₀ = k && p₀ = p) = true)
    have hmem : domain.id ∈ x.info.domainIds.map (·.id) := List.mem_map_of_mem (List.mem_of_getElem? hdom)
    exact ⟨x, domain.id, hx, List.mem_cons_of_mem _ hmem, halt_halted s domain.id⟩
  | rpcExec k₀ p₀ x domain z u hx hp hdom hz hu =>
    exact pushStep_of_update hx rfl (fun _ _ => rfl) (by simp [Push.next, hp]) rfl rfl
      (by simp [Push.left, hp, Phase.left]) (by simp [Push.answered, hp, Phase.isReplied, Phase.isWaiting])
  | rpcComplete k₀ p₀ x domain copy ret hx hp hdom hc hh hret =>
    exact pushStep_of_update hx rfl (fun _ _ => rfl) (by simp [Push.next, hp]) rfl rfl
      (by simp [Push.left, hp, Phase.left]) (by simp [Push.answered, hp, Phase.isReplied, Phase.isWaiting])
  | output k₀ p₀ x ret u hx hp hw =>
    have hlt : x.replica < x.info.domainIds.length :=
      ((h.task k₀ p₀).push x hx).away (by rw [hp]; rfl)
    refine pushStep_of_update (y := { x with replica := x.replica + 1, phase := .ready }) hx ?_ (fun _ _ => rfl)
      (by simp [Push.next, hp]) rfl rfl ?_ (by simp [Push.answered, hp, Phase.isReplied, Phase.isWaiting])
    · show update₂ u.pushes _ _ _ = _
      rw [write_pushes hw]
    · simp only [Push.left, hp, Phase.left]
      omega
  | replicateEnd k₀ p₀ x u hx hp hall hw =>
    refine pushStep_of_update (y := { x with phase := .replicated }) hx ?_ (fun _ _ => rfl)
      (by simp [Push.next, hp, hall]) rfl rfl ?_ (by simp [Push.answered, hp, Phase.isReplied, Phase.isWaiting])
    · show update₂ u.pushes _ _ _ = _
      rw [write_pushes hw]
    · simp [Push.left, hp, Phase.left]
  | completeOrig k₀ p₀ x u hx hp hw =>
    refine pushStep_of_update (y := { x with phase := .signalled }) hx ?_ (fun _ _ => rfl)
      (by simp [Push.next, hp]) rfl rfl ?_ (by simp [Push.answered, hp, Phase.isReplied, Phase.isWaiting])
    · show update₂ u.pushes _ _ _ = _
      rw [write_pushes hw]
    · simp [Push.left, hp, Phase.left]
  | completePush k₀ p₀ x u hx hp hw =>
    refine pushStep_of_update (y := { x with phase := .finished }) hx ?_ (fun _ _ => rfl)
      (by simp [Push.next, hp]) rfl rfl ?_ (by simp [Push.answered, hp, Phase.isReplied, Phase.isWaiting])
    · show update₂ u.pushes _ _ _ = _
      rw [write_pushes hw]
    · simp [Push.left, hp, Phase.left]

theorem step_live (h : Inv cfg s) (hst : step cfg s l = some t) {d : NodeId} (hd : (t.nodes d).halted = false) :
    (s.nodes d).halted = false := by
  have hmove := step_move h hst d
  generalize t.nodes d = u at hmove hd
  cases hmove with
  | same => exact hd
  | halt => cases hd
  | step i u hu => exact (step_transition hu).1
  | write p x u hu => exact (step_transition hu).1

theorem stepsLeft_of_run (cfg : Config α π ρ) (mem : NodeId → TaskPtr → Task α)
    (registered : NodeId → TaskStateId → Bool) (labels : List (Label α)) (s : State α ρ)
    (hrun : run (step cfg) (boot mem registered) labels = some s) (k : NodeId) (p : TaskPtr) (x : Push ρ)
    (hx : s.pushes k p = some x) (hlive : ∀ d ∈ x.nodes k, (s.nodes d).halted = false) :
    x.left + labels.countP (isStepOf k p) = 4 * x.info.domainIds.length + 4 := by
  let P (s : State α ρ) : Prop := (∀ d ∈ x.nodes k, (s.nodes d).halted = false) ∧
    ∀ y, s.pushes k p = some y → y.info = x.info
  let μ (s : State α ρ) : ℕ := (s.pushes k p).elim (4 * x.info.domainIds.length + 4) Push.left
  have hboot : Inv cfg (boot (ρ := ρ) mem registered) := boot_inv cfg mem registered
  have hback : ∀ s l t, Inv cfg s → step cfg s l = some t → P t → P s := by
    intro s l t h hst ht
    refine ⟨fun d hd => step_live h hst (ht.1 d hd), ?_⟩
    intro y hy
    cases step_push h hst k p with
    | same hp hl => exact ht.2 y (hp.trans hy)
    | spawn q i hl hs hi =>
      rw [hs] at hy
      cases hy
    | own x₀ y₀ hl hx₀ hy₀ htask hinfo hleft =>
      rw [hy, Option.some.injEq] at hx₀
      rw [hx₀, ← hinfo]
      exact ht.2 y₀ hy₀
  have hμ : ∀ s l t, Inv cfg s → step cfg s l = some t → P t →
      μ t + (if isStepOf k p l then 1 else 0) = μ s := by
    intro s l t h hst ht
    cases step_push h hst k p with
    | same hp hl =>
      have hother : isStepOf k p l = false := by
        rw [← Bool.not_eq_true]
        intro hown
        obtain ⟨y, d, hy, hmem, hd⟩ := hl hown
        have hinfo : y.info = x.info := ht.2 y (hp.trans hy)
        rw [Push.nodes, hinfo] at hmem
        rw [ht.1 d hmem] at hd
        cases hd
      simp only [μ, hp, hother, Bool.false_eq_true, if_false, Nat.add_zero]
    | spawn q i hl hs hi =>
      have hinfo : i = x.info := ht.2 _ hi
      simp only [μ, hs, hi, hl, Option.elim, Push.left, Phase.left, hinfo, Bool.false_eq_true, if_false]
      omega
    | own x₀ y₀ hl hx₀ hy₀ htask hinfo hleft =>
      simp only [μ, hx₀, hy₀, hl, isStepOf_next, Option.elim, if_true]
      exact hleft
  obtain ⟨-, halong⟩ := along_of_last (J := Inv cfg) (P := P) (fun _ _ _ h hst => step_inv h hst) hback hboot hrun
    ⟨hlive, fun y hy => by rw [hx, Option.some.injEq] at hy; rw [← hy]⟩
  have hcount := run_countP (isStepOf k p) (J := Inv cfg) (fun _ _ _ h hst => step_inv h hst) hμ hboot halong
    hrun
  simp only [μ, hx, Option.elim] at hcount
  exact hcount

theorem stepsLeft_globalRun : ∃ s x, run (step pairConfig)
      (boot (fun _ _ => mdTask DomainId.getLocal 0 []) (fun _ id => id = ⟨1, 6⟩ ∨ id = ⟨1, 8⟩)) globalRun = some s ∧
    s.pushes 1 0 = some x ∧ x.left = 0 ∧ x.info.domainIds.length = 2 ∧
    x.left + globalRun.countP (isStepOf 1 0) = 4 * x.info.domainIds.length + 4 := by
  have hsome : (run (step pairConfig)
      (boot (fun _ _ => mdTask DomainId.getLocal 0 []) (fun _ id => id = ⟨1, 6⟩ ∨ id = ⟨1, 8⟩)) globalRun).any
      (fun s => (s.pushes 1 0).any fun x => x.left = 0 ∧ x.info.domainIds.length = 2 ∧
        ∀ d ∈ x.nodes 1, (s.nodes d).halted = false) = true := by decide +kernel
  obtain ⟨s, hs, hx⟩ := (Option.any_eq_true _ _).mp hsome
  obtain ⟨x, hx, hok⟩ := (Option.any_eq_true _ _).mp hx
  obtain ⟨hleft, hlen, hlive⟩ := of_decide_eq_true hok
  exact ⟨s, x, hs, hx, hleft, hlen, stepsLeft_of_run _ _ _ globalRun s hs 1 0 x hx hlive⟩

end Steps

inductive HeldUp (cfg : Config α π ρ) (s : State α ρ) (k : NodeId) (p : TaskPtr) (x : Push ρ) : Prop
  | stopped (d : NodeId) (hd : d ∈ x.nodes k) (hh : (s.nodes d).halted = true)
  | full (domain : DomainId) (z : Task α) (hp : x.phase = .sent) (hdom : x.info.domainIds[x.replica]? = some domain)
      (hz : s.xfer k p = some z) (hroom : hasRoom (cfg.at domain.id) (s.nodes domain.id)
        ((cfg.at domain.id).laneFor x.info.exec.id (loadTask cfg domain.id z).prio
          (loadTask cfg domain.id z).laneHash) = false)
  | copy (domain : DomainId) (c : TaskPtr) (l : LaneRef) (hp : x.phase = .waiting c)
      (hdom : x.info.domainIds[x.replica]? = some domain) (hc : ⟨c, false⟩ ∈ (s.nodes domain.id).lanes l)

section Progress

variable {cfg : Config α π ρ} {s t : State α ρ} {k : NodeId} {p : TaskPtr} {x : Push ρ}

theorem write_isSome (hh : (s.nodes k).halted = false) (hp : p < (s.view k).next) {y : Task α}
    (hy : y.body.pushInfo = (s.mem k p).body.pushInfo) : (s.write cfg k p y).isSome = true := by
  have hp : p < (s.nodes k).next := hp
  have hy : y.body.pushInfo = ((s.nodes k).mem p).body.pushInfo := hy
  simp [State.write, Poll.step, hh, hp, hy]

theorem emplace_isSome {cfg : Poll.Config α} {s : Poll.State α} (hh : s.halted = false) {l : LaneRef} {y : Task α}
    (hroom : hasRoom cfg s l = true) (hown : isOwn y = true) : (Poll.step cfg s (.emplace l y)).isSome = true := by
  simp [Poll.step, hh, hroom, hown]

theorem PushOk.copyAt (hok : PushOk cfg s k p x) {c : TaskPtr} (hphase : x.phase = .waiting c) {domain : DomainId}
    (hdom : x.info.domainIds[x.replica]? = some domain) :
    (s.history k p).copies[x.replica]? = some (domain.id, c) := by
  obtain ⟨d, hcopy⟩ := hok.waiting c hphase
  have htarget := congrArg (fun l => l[x.replica]?) hok.targets
  simp only [List.getElem?_map, hcopy, hphase, Phase.hasCopy, if_true] at htarget
  rw [List.getElem?_take_of_lt (Nat.lt_succ_self _), List.getElem?_map, hdom] at htarget
  have hd : d = domain.id := by simpa using htarget
  rw [← hd]
  exact hcopy

theorem next_enabled_sent (h : Inv cfg s) (hx : s.pushes k p = some x) (hphase : x.phase = .sent) :
    HeldUp cfg s k p x ∨ (step cfg s (.rpcExec k p)).isSome = true := by
  have hok := (h.task k p).push x hx
  have hlt := hok.away (by rw [hphase]; rfl)
  obtain ⟨domain, hdom⟩ : ∃ domain, x.info.domainIds[x.replica]? = some domain :=
    ⟨_, List.getElem?_eq_getElem hlt⟩
  obtain ⟨z, hz, -⟩ := hok.saved h
  obtain ⟨-, hown, -⟩ := hok.copy_isNew h hz domain.id
  have hstep : step cfg s (.rpcExec k p) = rpcExec cfg s k p x := by
    obtain ⟨q, i, j, ph⟩ := x
    cases hphase
    simp only [step, hx]
  cases hh : (s.nodes domain.id).halted with
  | true =>
    have hmem : domain.id ∈ x.info.domainIds.map (·.id) := List.mem_map_of_mem (List.mem_of_getElem? hdom)
    exact Or.inl (.stopped domain.id (List.mem_cons_of_mem _ hmem) hh)
  | false =>
    rw [hstep, rpcExec, hdom, Option.bind_some, hz, Option.bind_some]
    dsimp only
    split
    · exact Or.inr rfl
    · cases hroom : hasRoom (cfg.at domain.id) (s.nodes domain.id) ((cfg.at domain.id).laneFor x.info.exec.id
        (loadTask cfg domain.id z).prio (loadTask cfg domain.id z).laneHash) with
      | true =>
        right
        rw [Option.isSome_map]
        exact emplace_isSome hh hroom hown
      | false => exact Or.inl (.full domain z hphase hdom hz hroom)

theorem next_enabled_waiting (h : Tidy cfg s) (hx : s.pushes k p = some x) {c : TaskPtr}
    (hphase : x.phase = .waiting c) :
    HeldUp cfg s k p x ∨ (step cfg s (.rpcComplete k p)).isSome = true := by
  have hok := (h.inv.task k p).push x hx
  have hlt := hok.away (by rw [hphase]; rfl)
  obtain ⟨domain, hdom⟩ : ∃ domain, x.info.domainIds[x.replica]? = some domain :=
    ⟨_, List.getElem?_eq_getElem hlt⟩
  have hcopy := List.mem_of_getElem? (hok.copyAt hphase hdom)
  obtain ⟨hknown, -, hown⟩ := (h.inv.task k p).copies _ _ hcopy
  cases hh : (s.nodes domain.id).halted with
  | true =>
    have hmem : domain.id ∈ x.info.domainIds.map (·.id) := List.mem_map_of_mem (List.mem_of_getElem? hdom)
    exact Or.inl (.stopped domain.id (List.mem_cons_of_mem _ hmem) hh)
  | false =>
    cases hc : (s.mem domain.id c).isComplete with
    | true =>
      right
      obtain ⟨a, ha⟩ : ∃ a, (s.mem domain.id c).body = .own a := by
        cases hb : (s.mem domain.id c).body with
        | own a => exact ⟨a, rfl⟩
        | push i => simp [isOwn, hb, Body.pushInfo] at hown
      have hstep : step cfg s (.rpcComplete k p) = rpcComplete cfg s k p x c := by
        obtain ⟨q, i, j, ph⟩ := x
        cases hphase
        simp only [step, hx]
      rw [hstep, rpcComplete, hdom, Option.bind_some, hc, hh]
      simp [saveEnd, ha]
    | false =>
      left
      -- the copy lacks `TASK_FIRE_AND_FORGET`, so it would be complete if it had ended
      have hend : .endTask c ∉ (s.nodes domain.id).log := by
        intro hend
        have hcomplete := (h.disposed domain.id).complete c hend (h.copies k p _ _ hcopy)
        rw [show ((s.nodes domain.id).mem c).isComplete = false from hc] at hcomplete
        cases hcomplete
      obtain ⟨l, hl⟩ := (h.placed domain.id).waits (h.inv.lanes domain.id) hh hknown hend
      exact .copy domain c l hphase hdom hl

theorem next_enabled (h : Tidy cfg s) (hx : s.pushes k p = some x) (hleft : x.left ≠ 0) :
    HeldUp cfg s k p x ∨ (step cfg s (x.next k p)).isSome = true := by
  have hok := (h.inv.task k p).push x hx
  obtain ⟨-, hknown, -⟩ := hok.remote (h.inv.node k)
  cases hh : (s.nodes k).halted with
  | true => exact Or.inl (.stopped k List.mem_cons_self hh)
  | false =>
    obtain ⟨q, i, j, phase⟩ := x
    cases phase with
    | start =>
      right
      simp only [Push.next, step, hx, hh, Bool.false_eq_true, if_false]
      split <;> rfl
    | ready =>
      right
      by_cases hj : j < i.domainIds.length
      · simp [Push.next, step, hx, hh, hj]
      · have hall : j = i.domainIds.length := Nat.le_antisymm hok.bound (Nat.le_of_not_lt hj)
        have hnext : (⟨q, i, j, .ready⟩ : Push ρ).next k p = (.replicateEnd k p : Label α) := if_neg hj
        rw [hnext]
        simp only [step, hx, replicateEnd, if_pos hall, Option.isSome_map]
        exact write_isSome hh hknown (Kept.mapOwn _ _).pushInfo
    | sent => exact next_enabled_sent h.inv hx rfl
    | waiting c => exact next_enabled_waiting h hx rfl
    | replied ret =>
      right
      simp only [Push.next, step, hx, output, Option.isSome_map]
      exact write_isSome hh hknown (Kept.mapOwn _ _).pushInfo
    | replicated =>
      right
      simp only [Push.next, step, hx, Option.isSome_map]
      exact write_isSome hh hknown rfl
    | signalled =>
      right
      simp only [Push.next, step, hx, Option.isSome_map]
      exact write_isSome hh hok.task rfl
    | finished =>
      have hall : j = i.domainIds.length := hok.late rfl
      exact absurd (by simp [Push.left, hall, Phase.left]) hleft

/-- A thread that has not come to the end of its push can go on, unless one of its nodes has stopped, the lane for the
copy is full or the copy has not ended; and then its push is one step nearer to the end, or a node stops. A node counts
as stopped when its task state is destroyed while `RpcExec` or the push still holds the pointer `exec`. -/
theorem progress_of_run (cfg : Config α π ρ) (mem : NodeId → TaskPtr → Task α)
    (registered : NodeId → TaskStateId → Bool) (labels : List (Label α)) (s : State α ρ)
    (hrun : run (step cfg) (boot mem registered) labels = some s) (k : NodeId) (p : TaskPtr) (x : Push ρ)
    (hx : s.pushes k p = some x) (hleft : x.left ≠ 0) : HeldUp cfg s k p x ∨
      ∃ t, step cfg s (x.next k p) = some t ∧ ((∃ d ∈ x.nodes k, (t.nodes d).halted = true) ∨
        ∃ y, t.pushes k p = some y ∧ y.task = x.task ∧ y.info = x.info ∧ y.left + 1 = x.left) := by
  have h := tidy_of_run cfg hrun
  rcases next_enabled h hx hleft with hheld | hsome
  · exact Or.inl hheld
  right
  obtain ⟨t, ht⟩ := Option.isSome_iff_exists.mp hsome
  refine ⟨t, ht, ?_⟩
  cases step_push h.inv ht k p with
  | same hp hl =>
    obtain ⟨y, d, hy, hd, hh⟩ := hl (isStepOf_next k p x)
    rw [hx, Option.some.injEq] at hy
    subst hy
    exact Or.inl ⟨d, hd, hh⟩
  | spawn q i hl hs hi =>
    rw [hx] at hs
    cases hs
  | own x₀ y hl hx₀ hy htask hinfo hdown =>
    rw [hx, Option.some.injEq] at hx₀
    subst hx₀
    exact Or.inr ⟨y, hy, htask, hinfo, hdown⟩

theorem progress_globalRun : ∃ s x, run (step pairConfig)
      (boot (fun _ _ => mdTask DomainId.getLocal 0 []) (fun _ id => id = ⟨1, 6⟩ ∨ id = ⟨1, 8⟩)) (globalRun.take 13) =
        some s ∧ s.pushes 1 0 = some x ∧ x.left = 9 ∧ (HeldUp pairConfig s 1 0 x ∨
      ∃ t, step pairConfig s (x.next 1 0) = some t ∧ ((∃ d ∈ x.nodes 1, (t.nodes d).halted = true) ∨
        ∃ y, t.pushes 1 0 = some y ∧ y.task = x.task ∧ y.info = x.info ∧ y.left + 1 = x.left)) := by
  have hsome : (run (step pairConfig)
      (boot (fun _ _ => mdTask DomainId.getLocal 0 []) (fun _ id => id = ⟨1, 6⟩ ∨ id = ⟨1, 8⟩)) (globalRun.take 13)).any
      (fun s => (s.pushes 1 0).any fun x => x.left = 9) = true := by decide +kernel
  obtain ⟨s, hs, hx⟩ := (Option.any_eq_true _ _).mp hsome
  obtain ⟨x, hx, hleft⟩ := (Option.any_eq_true _ _).mp hx
  have hleft := of_decide_eq_true hleft
  exact ⟨s, x, hs, hx, hleft, progress_of_run _ _ _ (globalRun.take 13) s hs 1 0 x hx (by omega)⟩

end Progress

end HermesRun.RemoteQueue
