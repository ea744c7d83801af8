import HermesRun.Remote.Moves

namespace HermesRun

inductive Domain where
  | loc
  | node (k : NodeId)
  | nodeWithLocal (k : NodeId)
  | global
  | set (s : NodeId)
  | setWithLocal (s : NodeId)
  deriving DecidableEq, Repr

namespace Domain

def domainId : Domain → DomainId
  | .loc => DomainId.getLocal
  | .node k => DomainId.getNode k
  | .nodeWithLocal k => DomainId.getNodeWithLocal k
  | .global => DomainId.getGlobal
  | .set s => DomainId.getSet s
  | .setWithLocal s => DomainId.getSetWithLocal s

/-- What the domain means, on a cluster of nodes `1..n`: a task that node `this` dispatches is run on `nodes`. -/
def Means (n : ℕ) (this : NodeId) (nodes : List NodeId) : Domain → Prop
  | .loc => nodes.Nodup ∧ ∀ j, j ∈ nodes ↔ j = this
  | .node k => nodes.Nodup ∧ ∀ j, j ∈ nodes ↔ j = k
  | .nodeWithLocal k => nodes.Nodup ∧ ∀ j, j ∈ nodes ↔ j = k ∨ j = this
  | .global => nodes.Nodup ∧ ∀ j, j ∈ nodes ↔ 1 ≤ j ∧ j ≤ n
  | .set _ => nodes ≠ []
  | .setWithLocal _ => nodes ≠ []

def Supported (this : NodeId) : Domain → Prop
  | .nodeWithLocal k => k = this
  | .set _ => False
  | .setWithLocal _ => False
  | _ => True

end Domain

def runNodes (n : ℕ) (this : NodeId) (d : DomainId) : List NodeId :=
  if d.isRemote n this then (resolveDomainId n d).map (·.id) else [this]

theorem runNodes_getLocal (n : ℕ) (this : NodeId) : runNodes n this DomainId.getLocal = [this] := by
  rw [runNodes, DomainId.isRemote_getLocal]
  rfl

theorem runNodes_getNode {n : ℕ} (hn : 2 ≤ n) (this k : NodeId) : runNodes n this (DomainId.getNode k) = [k] := by
  rw [runNodes, resolveDomainId_getNode]
  by_cases hk : k = this
  · rw [if_neg (fun h => ((DomainId.isRemote_getNode n k this).mp h).2 hk), hk]
  · rw [if_pos ((DomainId.isRemote_getNode n k this).mpr ⟨by omega, hk⟩)]
    rfl

theorem runNodes_getNodeWithLocal (n : ℕ) (this k : NodeId) :
    runNodes n this (DomainId.getNodeWithLocal k) = [this] := by
  have h1 : Bitfield.any (Bitfield.setBits 0#32 DomainId.kLocal) (DomainId.kGlobal ||| DomainId.kSet) = false := by
    decide
  have h2 : Bitfield.any (Bitfield.setBits 0#32 DomainId.kLocal) DomainId.kNode = false := by decide
  simp [runNodes, DomainId.isRemote, DomainId.getNodeWithLocal, h1, h2]

theorem runNodes_getGlobal {n : ℕ} (hn : 2 ≤ n) (this : NodeId) :
    runNodes n this DomainId.getGlobal = (List.range n).map (· + 1) := by
  rw [runNodes, if_pos ((DomainId.isRemote_getGlobal n this).mpr (by omega)), resolveDomainId_getGlobal,
    List.map_map]
  rfl

theorem runNodes_of_set {n : ℕ} (hn : 2 ≤ n) (this : NodeId) {d : DomainId} (hs : d.isSet = true)
    (hg : d.isGlobal = false) (hk : d.isNode = false) : runNodes n this d = [] := by
  have hremote : d.isRemote n this = true := by
    have hset : Bitfield.any d.flags (DomainId.kGlobal ||| DomainId.kSet) = true := by
      rw [Bitfield.any_or]
      rw [DomainId.isSet] at hs
      simp [hs]
    rw [DomainId.isRemote, if_neg (by omega), hset]
    rfl
  rw [runNodes, if_pos hremote, resolveDomainId, hg, hk]
  rfl

theorem means_runNodes_iff {n : ℕ} (hn : 2 ≤ n) (this : NodeId) (D : Domain) :
    D.Means n this (runNodes n this D.domainId) ↔ D.Supported this := by
  cases D with
  | loc =>
    rw [Domain.domainId, runNodes_getLocal]
    simp [Domain.Means, Domain.Supported]
  | node k =>
    rw [Domain.domainId, runNodes_getNode hn]
    simp [Domain.Means, Domain.Supported]
  | nodeWithLocal k =>
    rw [Domain.domainId, runNodes_getNodeWithLocal]
    constructor
    · rintro ⟨-, hmem⟩
      exact List.mem_singleton.mp ((hmem k).mpr (Or.inl rfl))
    · intro hk
      refine ⟨List.nodup_singleton _, ?_⟩
      intro j
      rw [show k = this from hk, or_self]
      exact List.mem_singleton
  | global =>
    rw [Domain.domainId, runNodes_getGlobal hn]
    refine iff_of_true ⟨?_, ?_⟩ trivial
    · exact List.Nodup.map (fun a b h => Nat.succ.inj h) List.nodup_range
    · intro j
      rw [List.mem_map]
      constructor
      · rintro ⟨i, hi, rfl⟩
        exact ⟨Nat.succ_le_succ (Nat.zero_le i), List.mem_range.mp hi⟩
      · rintro ⟨hpos, hle⟩
        have hlt : j - 1 < n := Nat.lt_of_lt_of_le (Nat.sub_lt hpos Nat.one_pos) hle
        exact ⟨j - 1, List.mem_range.mpr hlt, Nat.sub_add_cancel hpos⟩
  | set s =>
    have h1 : Bitfield.any (Bitfield.setBits 0#32 DomainId.kSet) DomainId.kSet = true := by decide
    have h2 : Bitfield.any (Bitfield.setBits 0#32 DomainId.kSet) DomainId.kGlobal = false := by decide
    have h3 : Bitfield.any (Bitfield.setBits 0#32 DomainId.kSet) DomainId.kNode = false := by decide
    rw [Domain.domainId, runNodes_of_set hn this (d := DomainId.getSet s) h1 h2 h3]
    exact iff_of_false (fun h => h rfl) id
  | setWithLocal s =>
    have h1 : Bitfield.any (Bitfield.setBits 0#32 (DomainId.kSet ||| DomainId.kLocal)) DomainId.kSet = true := by
      decide
    have h2 : Bitfield.any (Bitfield.setBits 0#32 (DomainId.kSet ||| DomainId.kLocal)) DomainId.kGlobal = false := by
      decide
    have h3 : Bitfield.any (Bitfield.setBits 0#32 (DomainId.kSet ||| DomainId.kLocal)) DomainId.kNode = false := by
      decide
    rw [Domain.domainId, runNodes_of_set hn this (d := DomainId.getSetWithLocal s) h1 h2 h3]
    exact iff_of_false (fun h => h rfl) id

namespace RemoteQueue

open Poll Runs

variable {α π ρ : Type}

structure RanOk (cfg : Poll.Config α) (v : TasksView α) (ran : TaskPtr → Prop) : Prop where
  running : ∀ w r, v.running w = some r → r.mode.runs = true ∨ r.mode = .spawn → ran r.task
  done : ∀ p, p < v.next → isRemote cfg (v.mem p) = false →
    (v.mem p).isModuleComplete = true ∨ (v.mem p).isRunDisabled = true → ran p

namespace RanOk

variable {cfg : Poll.Config α} {v v' : TasksView α} {ran ran' : TaskPtr → Prop} {i : Poll.Label α}

theorem setTask (h : RanOk cfg v ran) {p : TaskPtr} {x : Task α} (hd : x.domainId = (v.mem p).domainId)
    (hx : isRemote cfg (v.mem p) = false → x.isModuleComplete = true ∨ x.isRunDisabled = true → ran p) :
    RanOk cfg (v.setTask p x) ran := by
  refine ⟨h.running, ?_⟩
  intro q hq hr hdone
  by_cases hqp : q = p
  · subst hqp
    rw [TasksView.setTask_self] at hr hdone
    rw [isRemote, hd] at hr
    exact hx hr hdone
  · rw [v.setTask_of_ne x hqp] at hr hdone
    exact h.done q hq hr hdone

theorem setRunning (h : RanOk cfg v ran) {w : WorkerId} {r : Option (Running α)}
    (hr : ∀ r', r = some r' → r'.mode.runs = true ∨ r'.mode = .spawn → ran r'.task) :
    RanOk cfg (v.setRunning w r) ran := by
  refine ⟨?_, h.done⟩
  intro w' r' hr' hmode
  by_cases hw : w' = w
  · subst hw
    rw [TasksView.setRunning_self] at hr'
    exact hr r' hr' hmode
  · rw [v.setRunning_of_ne r hw] at hr'
    exact h.running w' r' hr' hmode

theorem new (h : RanOk cfg v ran) {x : Task α} (hx : isNew x = true) : RanOk cfg (v.new x) ran := by
  refine ⟨h.running, ?_⟩
  intro q hq hr hdone
  rcases Nat.lt_succ_iff_lt_or_eq.mp hq with hq | rfl
  · rw [v.new_of_lt x hq] at hr hdone
    exact h.done q hq hr hdone
  · simp only [isNew, Bool.and_eq_true, Bool.not_eq_true'] at hx
    rw [TasksView.new_self] at hdone
    rw [hx.1.1.2, hx.1.2] at hdone
    simp at hdone

theorem mono (h : RanOk cfg v ran) (hran : ∀ p, ran p → ran' p) : RanOk cfg v ran' :=
  ⟨fun w r hr hmode => hran _ (h.running w r hr hmode), fun p hp hr hdone => hran p (h.done p hp hr hdone)⟩

theorem ranTask (h : RanOk cfg v ran) (hn : NodeInv cfg v) {w : WorkerId} {r : Running α}
    (hr : v.running w = some r) (hk : r.task < v.next) (out : Task α)
    (hl : isRemote cfg (v.mem r.task) = false)
    (hdone : (ranTask r (v.mem r.task) out).isModuleComplete = true ∨
      (ranTask r (v.mem r.task) out).isRunDisabled = true) : ran r.task := by
  cases hm : r.mode with
  | disperse =>
    have hremote := (hn.running w r hr).disperses hm
    rw [hl] at hremote
    cases hremote
  | resume => exact h.running w r hr (Or.inl (by rw [hm]; rfl))
  | call => exact h.running w r hr (Or.inl (by rw [hm]; rfl))
  | skip | spawn =>
    simp only [Poll.ranTask, hm] at hdone
    exact h.done r.task hk hl hdone

theorem step (h : RanOk cfg v ran) (hn : NodeInv cfg v) (hx : Exclusive v) (hst : TaskStep cfg v i v')
    (ha : allowed v i = true) (hran : ∀ p, ran p → ran' p)
    (hstart : ∀ w r, v.running w = none → v'.running w = some r → r.mode.runs = true ∨ r.mode = .spawn →
      ran' r.task) : RanOk cfg v' ran' := by
  have h' := h.mono hran
  have hset : ∀ w out r, i = .finish w out → v.running w = some r →
      out.body.pushInfo = (v.mem r.task).body.pushInfo →
      Kept (v.mem r.task) (Poll.ranTask r (v.mem r.task) out) := by
    rintro w out r rfl hr hout
    exact Kept.ranTask r (allowed_finish ha hr) hout
  cases hst with
  | quiet => exact h'
  | new l x hown => exact h'.new ha
  | skip w es p exec hidle hw =>
    apply h'.setRunning
    rintro r' hr' hmode
    cases hr'
    simp [Mode.runs] at hmode
  | start w es p exec hidle hw hd hexec hes =>
    have hself : ((v.setTask p (execute cfg (v.mem p) p exec es).task).setRunning w
        (some (started cfg (v.mem p) p exec es))).running w = some (started cfg (v.mem p) p exec es) :=
      TasksView.setRunning_self ..
    refine (h'.setTask (Kept.execute cfg (v.mem p) p exec es).domainId ?_).setRunning ?_
    · intro hl _
      exact hstart w _ hw hself (execute_local_mode hl p exec es)
    · rintro r' hr' hmode
      cases hr'
      exact hstart w _ hw hself hmode
  | put w r dst x es hr he =>
    refine (h'.new ((hn.running w r hr).emplaces (dst, x) (by rw [he]; exact List.mem_cons_self))).setRunning ?_
    rintro r' hr' hmode
    cases hr'
    exact h'.running w r hr hmode
  | block w r hr =>
    apply h'.setRunning
    rintro r' hr' hmode
    cases hr'
    exact h'.running w r hr hmode
  | again w out r hr he hout =>
    exact (h'.setTask (hset w out r rfl hr hout).domainId (h'.ranTask hn hr (hx.known w r hr).1 out)).setRunning
      (by simp)
  | halt w out r hr he hout =>
    exact h'.setTask (hset w out r rfl hr hout).domainId (h'.ranTask hn hr (hx.known w r hr).1 out)
  | done w out r x hr he hout hm hxe =>
    have hdomain : x.domainId = (v.mem r.task).domainId := by
      rcases hxe with rfl | rfl <;> exact (hset w out r rfl hr hout).domainId
    have hend := (h'.setTask hdomain
      (fun hl _ => h'.ranTask hn hr (hx.known w r hr).1 out hl (Or.inl hm))).setRunning (w := w) (r := none) (by simp)
    exact ⟨hend.running, hend.done⟩
  | write p x hp hxe => cases ha

end RanOk

section Cluster

variable {cfg : Config α π ρ} {s t : State α ρ} {l : Label α}

theorem record_history (s : State α ρ) (k : NodeId) (p : TaskPtr) (f : History → History) (d : NodeId)
    (q : TaskPtr) : (s.record k p f).history d q = if d = k ∧ q = p then f (s.history d q) else s.history d q := by
  unfold State.record
  split_ifs with hdq
  · rw [hdq.1, hdq.2]
    exact update₂_self ..
  · exact update₂_of_ne _ _ hdq

theorem record_ran (s : State α ρ) (k : NodeId) (p : TaskPtr) (f : History → History) (hf : ∀ h, (f h).ran = h.ran)
    (d : NodeId) (q : TaskPtr) : ((s.record k p f).history d q).ran = (s.history d q).ran := by
  rw [record_history]
  split_ifs
  · exact hf _
  · rfl

theorem record_ran_le (s : State α ρ) (k : NodeId) (p : TaskPtr) (d : NodeId) (q : TaskPtr) :
    (s.history d q).ran ≤ ((s.record k p fun h => { h with ran := h.ran + 1 }).history d q).ran := by
  rw [record_history]
  split_ifs
  · exact Nat.le_succ _
  · exact Nat.le_refl _

theorem begin_ran (s : State α ρ) (k : NodeId) (r : Running α) :
    (∀ d p, (s.history d p).ran ≤ ((s.begin k r).history d p).ran) ∧
      (r.mode.runs = true ∨ r.mode = .spawn → 0 < ((s.begin k r).history k r.task).ran) := by
  have hself : 0 < ((s.record k r.task fun h => { h with ran := h.ran + 1 }).history k r.task).ran := by
    rw [record_history, if_pos ⟨rfl, rfl⟩]
    exact Nat.succ_pos _
  unfold State.begin
  split
  · next hm =>
    refine ⟨fun _ _ => Nat.le_refl _, ?_⟩
    simp [hm, Mode.runs]
  · next hm =>
    refine ⟨?_, by simp [hm, Mode.runs]⟩
    intro d p
    apply Nat.le_of_eq
    rw [record_ran]
    exact fun _ => rfl
  · dsimp only
    split
    · exact ⟨fun d p => record_ran_le .., fun _ => hself⟩
    · exact ⟨fun d p => record_ran_le .., fun _ => hself⟩
  · exact ⟨fun d p => record_ran_le .., fun _ => hself⟩
  · exact ⟨fun d p => record_ran_le .., fun _ => hself⟩

theorem write_history {k : NodeId} {p : TaskPtr} {x : Task α} (h : s.write cfg k p x = some t) :
    t.history = s.history := by
  obtain ⟨u, -, rfl⟩ := Option.map_eq_some_iff.mp h
  rfl

theorem step_ran_of_push (h : step cfg s l = some t) (hl : ∀ k i, l ≠ .node k i) (d : NodeId) (q : TaskPtr) :
    (t.history d q).ran = (s.history d q).ran := by
  have hwrite : ∀ {k p x} {u : State α ρ}, s.write cfg k p x = some u → (u.history d q).ran = (s.history d q).ran :=
    fun hu => by rw [write_history hu]
  cases step_cases cfg h with
  | node k i _ hw => exact absurd rfl (hl k i)
  | thread k p out _ hd hr ho hk he hw => exact hwrite hw
  | start | fatal | call | rpcFatal | rpcComplete => rfl
  | rpcExec k p x domain z u hx hp hdom hz hu =>
    refine record_ran _ _ _ _ ?_ d q
    exact fun _ => rfl
  | output k p x ret u hx hp hw =>
    refine (record_ran _ _ _ _ ?_ d q).trans (hwrite (u := u) hw)
    exact fun _ => rfl
  | replicateEnd k p x u hx hp hall hw =>
    refine (record_ran _ _ _ _ ?_ d q).trans (hwrite (u := u) hw)
    exact fun _ => rfl
  | completeOrig k p x u hx hp hw => exact hwrite (u := u) hw
  | completePush k p x u hx hp hw => exact hwrite (u := u) hw

theorem nodeStep_ran {k : NodeId} {i : Poll.Label α} (h : nodeStep cfg s k i = some t) :
    (∀ d p, (s.history d p).ran ≤ (t.history d p).ran) ∧
      ∀ w es r, i = .scan w es → (t.view k).running w = some r → r.mode.runs = true ∨ r.mode = .spawn →
        0 < (t.history k r.task).ran := by
  unfold nodeStep at h
  split_ifs at h
  obtain ⟨u, -, rfl⟩ := Option.map_eq_some_iff.mp h
  cases i with
  | scan w es =>
    dsimp only
    cases hu : u.running w with
    | none =>
      refine ⟨fun _ _ => Nat.le_refl _, ?_⟩
      rintro w' es' r hi hr
      cases hi
      rw [view_setNode_self] at hr
      rw [show u.running w = some r from hr] at hu
      cases hu
    | some r =>
      refine ⟨(begin_ran s k r).1, ?_⟩
      rintro w' es' r' hi hr hmode
      cases hi
      rw [view_setNode_self] at hr
      rw [show u.running w = some r' from hr, Option.some.injEq] at hu
      subst hu
      exact (begin_ran s k r').2 hmode
  | emplace | poll | put | registry | finish | write =>
    refine ⟨fun _ _ => Nat.le_refl _, ?_⟩
    intro w es r hi
    cases hi

theorem step_ran_le (h : step cfg s l = some t) (d : NodeId) (p : TaskPtr) :
    (s.history d p).ran ≤ (t.history d p).ran := by
  by_cases hl : ∃ k i, l = .node k i
  · obtain ⟨k, i, rfl⟩ := hl
    exact (nodeStep_ran h).1 d p
  · exact Nat.le_of_eq (step_ran_of_push h (fun k i hi => hl ⟨k, i, hi⟩) d p).symm

def RanInv (cfg : Config α π ρ) (s : State α ρ) : Prop :=
  ∀ k, RanOk (cfg.at k) (s.view k) fun p => 0 < (s.history k p).ran

theorem ThreadWrite.ran (hinv : Inv cfg s) (h : RanInv cfg s) {d : NodeId} {p : TaskPtr} {x : Task α}
    (hp : p < (s.view d).next) (hw : ThreadWrite cfg s d p x) : x.domainId = (s.mem d p).domainId ∧
      (isRemote (cfg.at d) (s.mem d p) = false → x.isModuleComplete = true ∨ x.isRunDisabled = true →
        0 < (s.history d p).ran) := by
  have hdone : isRemote (cfg.at d) (s.mem d p) = false →
      (s.mem d p).isModuleComplete = true ∨ (s.mem d p).isRunDisabled = true → 0 < (s.history d p).ran :=
    (h d).done p hp
  cases hw with
  | handler _ _ hd hr hk =>
    simp only [handlerKeeps, Bool.and_eq_true, decide_eq_true_eq] at hk
    exact ⟨hk.1.1.1.2, fun hl _ => hdone hl (Or.inr hd)⟩
  | fields _ f =>
    refine ⟨(Kept.mapOwn f _).domainId, fun hl hx => hdone hl ?_⟩
    rw [Task.isModuleComplete, Task.isRunDisabled, mapOwn_taskFlags] at hx
    exact hx
  | complete _ y hy =>
    obtain ⟨-, -, hremote⟩ := ((hinv.task d p).push y hy).remote (hinv.node d)
    refine ⟨rfl, fun hl => ?_⟩
    rw [hremote] at hl
    cases hl
  | completePush o y hy => exact ⟨rfl, fun hl _ => hdone hl (Or.inr ((hinv.task d o).push y hy).disabled)⟩

theorem step_ranInv (hinv : Inv cfg s) (h : RanInv cfg s) (hst : step cfg s l = some t) : RanInv cfg t := by
  intro d
  have hle : ∀ p, 0 < (s.history d p).ran → 0 < (t.history d p).ran :=
    fun p hp => Nat.lt_of_lt_of_le hp (step_ran_le hst d p)
  have hmono := (h d).mono hle
  have hmove := step_move hinv hst d
  show RanOk (cfg.at d) (t.nodes d).tasksView _
  generalize hu : t.nodes d = u at hmove ⊢
  cases hmove with
  | same => exact hmono
  | halt => exact ⟨hmono.running, hmono.done⟩
  | step i u hi ha hl =>
    have hx := exclusive_of_lanes (hinv.lanes d) (step_transition hi).1
    have htasks := step_tasks rfl (hinv.lanes d) hi
    refine (h d).step (hinv.node d) hx htasks ha hle ?_
    intro w r hnone hr hmode
    rcases step_running htasks with hsame | ⟨w', es, p, exec, rfl, -, -, -, -, -, hview⟩
    · rcases hsame w r hr with hskip | ⟨r', hr', -⟩
      · simp [hskip, Mode.runs] at hmode
      · rw [show (s.nodes d).tasksView.running w = none from hnone] at hr'
        cases hr'
    · have hw : w = w' := by
        by_contra hne
        rw [hview, TasksView.setRunning_of_ne _ _ hne] at hr
        rw [show (s.view d).running w = some r from hr] at hnone
        cases hnone
      subst hw
      have hnode : nodeStep cfg s d (.scan w es) = some t := by
        rw [hl w es rfl] at hst
        exact hst
      refine (nodeStep_ran hnode).2 w es r rfl ?_ hmode
      rw [State.view, hu]
      exact hr
  | write p x u hi hw =>
    obtain ⟨-, htr⟩ := step_transition hi
    cases htr with
    | write _ _ hp hinfo =>
      obtain ⟨hdomain, hdone⟩ := hw.ran hinv h hp
      exact hmono.setTask hdomain (fun hl hx => hle p (hdone hl hx))

/-- The nodes on which the handler of a task has been run, each as often as there is a copy that ran there. -/
def ranOn (s : State α ρ) (k : NodeId) (p : TaskPtr) : List NodeId :=
  (((k, p) :: (s.history k p).copies).filter fun x => 0 < (s.history x.1 x.2).ran).map (·.1)

theorem ranOn_of_complete (hinv : Inv cfg s) (h : RanInv cfg s) {k : NodeId} {p : TaskPtr}
    (hp : p < (s.nodes k).next) (hc : (s.mem k p).isModuleComplete = true ∨ (s.mem k p).isComplete = true) :
    ranOn s k p = runNodes cfg.numHosts k (s.mem k p).domainId := by
  have hm : (s.mem k p).isModuleComplete = true := by
    apply moduleComplete_of_complete hinv hp
    rcases hc with hc | hc
    · exact Or.inl hc
    · exact Or.inr (Or.inl hc)
  cases hr : isRemote (cfg.at k) (s.mem k p) with
  | false =>
    have hran : 0 < (s.history k p).ran := (h k).done p hp hr (Or.inl hm)
    have hnone : s.pushes k p = none := by
      cases hx : s.pushes k p with
      | none => rfl
      | some x =>
        obtain ⟨-, -, hremote⟩ := ((hinv.task k p).push x hx).remote (hinv.node k)
        rw [hr] at hremote
        cases hremote
    rw [ranOn, ((hinv.task k p).idle hnone).1, List.filter_singleton]
    have hlocal : (s.mem k p).domainId.isRemote cfg.numHosts k = false := hr
    rw [runNodes, hlocal]
    simp [hran]
  | true =>
    have hok := dispersalOk_of_inv hinv hp hr
    have hgather := gathers_of_moduleComplete hinv hp hr hm
    -- each copy has ended on its node, and there it is a local task
    have hall : ∀ x ∈ (s.history k p).copies, decide (0 < (s.history x.1 x.2).ran) = true := by
      rintro ⟨d, c⟩ hmem
      obtain ⟨hlt, hlocal, -⟩ := (hinv.task k p).copies d c hmem
      have hend : .endTask c ∈ (s.nodes d).log := by
        apply List.count_pos_iff.mp
        rw [(hgather.ended d c hmem).2]
        exact Nat.one_pos
      exact decide_eq_true ((h d).done c hlt hlocal (Or.inl ((hinv.node d).ended c hend).2))
    rw [ranOn, List.filter_cons_of_neg (by simp [hok.notRun]), List.filter_eq_self.mpr hall, hgather.copies,
      runNodes, if_pos (show (s.mem k p).domainId.isRemote cfg.numHosts k = true from hr)]
    rfl

end Cluster

theorem means_ranOn_iff (cfg : Config α π ρ) (mem : NodeId → TaskPtr → Task α)
    (registered : NodeId → TaskStateId → Bool) (labels : List (Label α)) (s : State α ρ)
    (hrun : run (step cfg) (boot mem registered) labels = some s) (hn : 2 ≤ cfg.numHosts) (k : NodeId)
    (p : TaskPtr) (hp : p < (s.nodes k).next)
    (hc : (s.mem k p).isModuleComplete = true ∨ (s.mem k p).isComplete = true) (D : Domain)
    (hD : (s.mem k p).domainId = D.domainId) : D.Means cfg.numHosts k (ranOn s k p) ↔ D.Supported k := by
  have hinv : Inv cfg s ∧ RanInv cfg s := by
    refine run_invariant_all (I := fun s => Inv cfg s ∧ RanInv cfg s) ?_ ⟨boot_inv cfg mem registered, ?_⟩ hrun
    · rintro s l t ⟨h, hr⟩ hst
      exact ⟨step_inv h hst, step_ranInv h hr hst⟩
    · intro k
      refine ⟨?_, ?_⟩
      · intro w r hr
        cases hr
      · intro p hp
        cases hp
  rw [ranOn_of_complete hinv.1 hinv.2 hp hc, hD]
  exact means_runNodes_iff hn k D

theorem means_ranOn_globalRun : ∃ s, run (step pairConfig)
      (boot (fun _ _ => mdTask DomainId.getLocal 0 []) (fun _ id => id = ⟨1, 6⟩ ∨ id = ⟨1, 8⟩)) globalRun = some s ∧
    0 < (s.nodes 1).next ∧ (s.mem 1 0).isComplete = true ∧ (s.mem 1 0).domainId = Domain.global.domainId ∧
    Domain.global.Means 2 1 (ranOn s 1 0) := by
  have hsome : (run (step pairConfig)
      (boot (fun _ _ => mdTask DomainId.getLocal 0 []) (fun _ id => id = ⟨1, 6⟩ ∨ id = ⟨1, 8⟩)) globalRun).any
      (fun s => 0 < (s.nodes 1).next ∧ (s.mem 1 0).isComplete = true ∧
        (s.mem 1 0).domainId = Domain.global.domainId) = true := by decide +kernel
  obtain ⟨s, hs, hok⟩ := (Option.any_eq_true _ _).mp hsome
  obtain ⟨hnext, hcomplete, hdomain⟩ := of_decide_eq_true hok
  refine ⟨s, hs, hnext, hcomplete, hdomain, ?_⟩
  exact (means_ranOn_iff pairConfig _ _ globalRun s hs (Nat.le_refl 2) 1 0 hnext (Or.inr hcomplete) .global
    hdomain).mpr trivial

def unsupportedRun : List (Label SmallMessage.ListFields) :=
  let l : LaneRef := ⟨⟨1, 8⟩, TaskPrio.kLowLatency, 0⟩
  let r : LaneRef := ⟨⟨1, 6⟩, TaskPrio.kLowLatency, 0⟩
  let set := mdTask (DomainId.getSet 5) 0 []
  let both := mdTask (DomainId.getNodeWithLocal 2) 0 []
  let push := pushTask (pairConfig.at 1) set 0 ⟨⟨1, 8⟩, 0⟩
  [.node 1 (.emplace l set), .node 1 (.emplace l both), .node 1 (.poll 0 l), .node 1 (.scan 0 []),
    .node 1 (.put 0), .node 1 (.finish 0 set), .node 1 (.scan 0 []),
    .node 1 (.finish 0 (mdTask (DomainId.getNodeWithLocal 2) (taskHasStarted ||| taskModuleComplete) [])),
    .node 1 (.scan 0 []), .node 1 (.poll 0 r), .node 1 (.scan 0 []), .node 1 (.finish 0 push),
    .node 1 (.scan 0 []), .start 1 0, .replicateEnd 1 0, .completeOrig 1 0, .node 1 (.poll 0 l),
    .node 1 (.scan 0 []), .node 1 (.finish 0 set)]

theorem means_ranOn_unsupportedRun : ∃ s, run (step pairConfig)
      (boot (fun _ _ => mdTask DomainId.getLocal 0 []) (fun _ id => id = ⟨1, 6⟩ ∨ id = ⟨1, 8⟩)) unsupportedRun =
        some s ∧ (s.mem 1 0).isComplete = true ∧ (s.mem 1 0).domainId = (Domain.set 5).domainId ∧
    ranOn s 1 0 = [] ∧ ¬(Domain.set 5).Means 2 1 (ranOn s 1 0) ∧ (s.mem 1 1).isComplete = true ∧
    (s.mem 1 1).domainId = (Domain.nodeWithLocal 2).domainId ∧ ranOn s 1 1 = [1] ∧
    ¬(Domain.nodeWithLocal 2).Means 2 1 (ranOn s 1 1) := by
  have hsome : (run (step pairConfig)
      (boot (fun _ _ => mdTask DomainId.getLocal 0 []) (fun _ id => id = ⟨1, 6⟩ ∨ id = ⟨1, 8⟩)) unsupportedRun).any
      (fun s => (s.mem 1 0).isComplete = true ∧ (s.mem 1 0).domainId = (Domain.set 5).domainId ∧
        ranOn s 1 0 = [] ∧ (s.mem 1 1).isComplete = true ∧
        (s.mem 1 1).domainId = (Domain.nodeWithLocal 2).domainId ∧ ranOn s 1 1 = [1]) = true := by decide +kernel
  obtain ⟨s, hs, hok⟩ := (Option.any_eq_true _ _).mp hsome
  obtain ⟨hset, hsetDomain, hnowhere, hboth, hbothDomain, hone⟩ := of_decide_eq_true hok
  refine ⟨s, hs, hset, hsetDomain, hnowhere, ?_, hboth, hbothDomain, hone, ?_⟩
  · intro hmeans
    exact hmeans hnowhere
  · rintro ⟨-, hmem⟩
    have htwo := (hmem 2).mpr (Or.inl rfl)
    rw [hone] at htwo
    simp at htwo

end RemoteQueue

end HermesRun
