import HermesRun.Remote.Dispersal
import HermesRun.TaskLibs

namespace HermesRun.RemoteQueue

open Poll Runs

variable {α π ρ : Type}

section Init

variable (cfg : Config α π ρ) (mem : NodeId → TaskPtr → Task α) (registered : NodeId → TaskStateId → Bool)

def boot : State α ρ := State.init fun k => Poll.State.init (mem k) (registered k)

theorem boot_inv : Inv cfg (boot mem registered) := by
  refine ⟨?_, ?_, ?_, ?_, ?_⟩
  · intro k
    exact lanesView_init (mem k) (registered k)
  · intro k
    refine ⟨?_, ?_, ?_, ?_, ?_⟩
    · intro w r hr
      cases hr
    · intro p hp
      cases hp
    · intro p hp
      cases hp
    · intro q i hq
      cases hq
    · intro q q' i i' hq
      cases hq
  · intro k w r hr
    cases hr
  · intro k q i hq
    cases hq
  · intro k p
    refine ⟨?_, ?_, ?_, ?_, ?_, List.nodup_nil⟩
    · intro h
      cases h
    · intro h
      cases h
    · intro _
      refine ⟨rfl, rfl, rfl, ?_, ?_⟩
      · intro h
        cases h
      · intro h
        cases h
    · intro x hx
      cases hx
    · intro d c h
      cases h

theorem inv_of_run {labels : List (Label α)} {s : State α ρ}
    (hrun : run (step cfg) (boot mem registered) labels = some s) : Inv cfg s :=
  run_invariant_all (fun _ _ _ h hst => step_inv h hst) (boot_inv cfg mem registered) hrun

end Init

def targetNodes (cfg : Config α π ρ) (t : Task α) : List NodeId :=
  (resolveDomainId cfg.numHosts t.domainId).map (·.id)

def EndedOnce (s : Poll.State α) (p : TaskPtr) : Prop :=
  (∃ l, (enqueued l s.log).count p = 1 ∧ ∀ l', p ∈ enqueued l' s.log → l' = l) ∧ s.log.count (.endTask p) = 1

structure Gathers (cfg : Config α π ρ) (s : State α ρ) (k : NodeId) (p : TaskPtr) : Prop where
  dispersed : (s.history k p).dispersed = 1
  copies : (s.history k p).copies.map (·.1) = targetNodes cfg (s.mem k p)
  ended : ∀ d c, (d, c) ∈ (s.history k p).copies → EndedOnce (s.nodes d) c
  loaded : (s.history k p).loaded = (targetNodes cfg (s.mem k p)).length
  replicateEnds : (s.history k p).replicateEnds = 1
  slots : ∀ (β : Type) (R : ReplicaAware (cfg.srl (s.mem k p).taskState) ((cfg.at k).lib (s.mem k p).taskState)
      (s.mem k p).method β) i d c, (s.history k p).copies[i]? = some (d, c) →
    ∃ a b, (s.mem d c).body = .own a ∧ (s.mem k p).body = .own b ∧ R.slot i b = R.slot 0 a

structure DispersalOk (cfg : Config α π ρ) (s : State α ρ) (k : NodeId) (p : TaskPtr) : Prop where
  notRun : (s.history k p).ran = 0
  once : (s.history k p).dispersed ≤ 1
  sent : (s.history k p).copies.map (·.1) <+: targetNodes cfg (s.mem k p)
  distinct : (s.history k p).copies.Nodup
  copies : ∀ d c, (d, c) ∈ (s.history k p).copies → (s.history d c).dispersed = 0
  complete : (s.mem k p).isModuleComplete = true ∨ (s.mem k p).isComplete = true ∨
    .endTask p ∈ (s.nodes k).log → Gathers cfg s k p

section Proof

variable {cfg : Config α π ρ} {s : State α ρ} {k : NodeId} {p : TaskPtr} {x : Push ρ}

theorem endedOnce_of_mem (h : ScannedFifo.Inv (cfg.at k).owner (s.nodes k).lanesView)
    (hend : .endTask p ∈ (s.nodes k).log) : EndedOnce (s.nodes k) p := by
  obtain ⟨l, hl⟩ := h.origin p ((History.mem_filterMap_iff (lane?_eq_ended p) _).mpr hend)
  refine ⟨⟨l, ?_, ?_⟩, ?_⟩
  · rw [← enqueued_lanesView]
    exact List.count_eq_one_of_mem (h.nodup l) hl
  · intro l' hl'
    rw [← enqueued_lanesView] at hl'
    exact h.disjoint l' l p hl' hl
  · exact Nat.le_antisymm ((laneHistory_of_inv h).endedOnce p) (List.count_pos_iff.mpr hend)

theorem PushOk.gathers (h : Inv cfg s) (hok : PushOk cfg s k p x) (hover : x.phase.isOver = true) :
    Gathers cfg s k p := by
  have hlate : x.phase.isLate = true := by
    cases hp : x.phase <;> simp_all [Phase.isOver, Phase.isLate]
  have hcopy : x.phase.hasCopy = false := by
    cases hp : x.phase <;> simp_all [Phase.isOver, Phase.hasCopy]
  have hall := hok.late hlate
  have hsent := hok.sent h
  obtain ⟨z, hz, hexec, hmethod, hsame, hids⟩ := hok.saved h
  obtain ⟨z', hz', hkept, -⟩ := hsent.saved
  rw [hz, Option.some.injEq] at hz'
  subst hz'
  have htargets : targetNodes cfg (s.mem k p) = x.info.domainIds.map (·.id) := by
    rw [targetNodes, hkept.domainId, hids]
  have hcopies : (s.history k p).copies.map (·.1) = targetNodes cfg (s.mem k p) := by
    rw [htargets, hok.targets, hcopy, hall]
    exact List.take_of_length_le (by simp)
  obtain ⟨outs, hlen, houts, z', a, hz', hbody, hown⟩ := hok.gathered
  rw [hz, Option.some.injEq] at hz'
  subst hz'
  rw [hlate] at hown
  have hn : (s.history k p).copies.length = x.replica := by
    have hl := congrArg List.length hcopies
    rw [htargets, List.length_map, List.length_map, ← hall] at hl
    exact hl
  have hcopyAt : ∀ (i : ℕ) d c, (s.history k p).copies[i]? = some (d, c) → ∃ o : α, outs[i]? = some o ∧
      (s.view d).ended c ∧ (s.mem d c).body = .own o := by
    intro i d c hi
    have hlt : i < outs.length := by
      rw [hlen, ← hn]
      exact (List.getElem?_eq_some_iff.mp hi).1
    obtain ⟨d', c', hi', -, hend, hb⟩ := houts i outs[i] (List.getElem?_eq_getElem hlt)
    rw [hi, Option.some.injEq, Prod.mk.injEq] at hi'
    obtain ⟨rfl, rfl⟩ := hi'
    exact ⟨outs[i], List.getElem?_eq_getElem hlt, hend, hb⟩
  refine ⟨hsent.once, hcopies, ?_, ?_, ?_, ?_⟩
  · intro d c hmem
    obtain ⟨i, hi⟩ := List.mem_iff_getElem?.mp hmem
    obtain ⟨-, -, hend, -⟩ := hcopyAt i d c hi
    exact endedOnce_of_mem (h.lanes d) hend
  · rw [hok.loaded, hall, htargets, List.length_map]
  · rw [hok.ends, hlate]
    rfl
  · intro β R i d c hi
    obtain ⟨o, ho, -, hb⟩ := hcopyAt i d c hi
    have hlen' : outs.length ≤ (resolveDomainId cfg.numHosts z.domainId).length := by
      rw [hlen, hall, hids]
    rw [← hkept.taskState, hsame] at hown
    simp only [if_true] at hown
    refine ⟨o, _, hb, hown, ?_⟩
    rw [R.finish]
    exact R.slot_gather _ (by rw [R.start]; exact hlen') ho

theorem copies_prefix (h : Inv cfg s) : (s.history k p).copies.map (·.1) <+: targetNodes cfg (s.mem k p) := by
  cases hx : s.pushes k p with
  | none =>
    rw [((h.task k p).idle hx).1]
    exact List.nil_prefix
  | some x =>
    have hok := (h.task k p).push x hx
    obtain ⟨z, hz, -, -, -, hids⟩ := hok.saved h
    obtain ⟨z', hz', hkept, -⟩ := (hok.sent h).saved
    rw [hz, Option.some.injEq] at hz'
    subst hz'
    rw [targetNodes, hkept.domainId, ← hids, hok.targets]
    exact List.take_prefix _ _

theorem moduleComplete_of_complete (h : Inv cfg s) (hp : p < (s.nodes k).next)
    (hc : (s.mem k p).isModuleComplete = true ∨ (s.mem k p).isComplete = true ∨ .endTask p ∈ (s.nodes k).log) :
    (s.mem k p).isModuleComplete = true := by
  rcases hc with hc | hc | hc
  · exact hc
  · exact ((h.node k).ended p ((h.node k).complete p hp hc)).2
  · exact ((h.node k).ended p hc).2

theorem gathers_of_moduleComplete (h : Inv cfg s) (hp : p < (s.nodes k).next)
    (hr : isRemote (cfg.at k) (s.mem k p) = true) (hm : (s.mem k p).isModuleComplete = true) :
    Gathers cfg s k p := by
  cases hx : s.pushes k p with
  | none =>
    have hnot := ((h.task k p).idle hx).2.2.2.1 hp hr
    rw [hm] at hnot
    cases hnot
  | some x =>
    have hok := (h.task k p).push x hx
    exact hok.gathers h (hok.isOver hm)

theorem dispersalOk_of_inv (h : Inv cfg s) (hp : p < (s.nodes k).next)
    (hr : isRemote (cfg.at k) (s.mem k p) = true) : DispersalOk cfg s k p := by
  have htask := h.task k p
  refine ⟨?_, ?_, copies_prefix h, htask.nodup, ?_, ?_⟩
  · by_contra hran
    obtain ⟨-, hlocal⟩ := htask.ran (Nat.pos_of_ne_zero hran)
    rw [hr] at hlocal
    cases hlocal
  · by_contra hlt
    have hone := (htask.sent (by omega)).once
    omega
  · intro d c hmem
    obtain ⟨-, hlocal, -⟩ := htask.copies d c hmem
    by_contra hd
    have hremote := ((h.task d c).sent (Nat.pos_of_ne_zero hd)).remote
    rw [hlocal] at hremote
    cases hremote
  · intro hc
    exact gathers_of_moduleComplete h hp hr (moduleComplete_of_complete h hp hc)

end Proof

theorem dispersalOk_of_run (cfg : Config α π ρ) (mem : NodeId → TaskPtr → Task α)
    (registered : NodeId → TaskStateId → Bool) (labels : List (Label α)) (s : State α ρ)
    (hrun : run (step cfg) (boot mem registered) labels = some s) (k : NodeId) (p : TaskPtr)
    (hp : p < (s.nodes k).next) (hr : isRemote (cfg.at k) (s.mem k p) = true) : DispersalOk cfg s k p :=
  dispersalOk_of_inv (inv_of_run cfg mem registered hrun) hp hr

def pairConfig : Config SmallMessage.ListFields (List UInt8) (BitVec 32) where
  numHosts := 2
  node := fun k => {
    numHosts := 2
    nodeId := k
    lib := fun id => if id = ⟨1, 6⟩ then RemoteQueue.lib SmallMessage.ListFields else SmallMessage.lib SmallMessage.listArray
    owner := fun _ => 0
    depth := fun _ => 2
    numLanes := fun _ _ => 1
    remoteQueue := ⟨1, 6⟩
    fatalReturns := false }
  srl := fun _ => SmallMessage.srl SmallMessage.listArray 0

def mdTask (domain : DomainId) (flags : Bitfield.Flags) (ret : List (BitVec 32)) :
    Task SmallMessage.ListFields :=
  ⟨⟨1, 8⟩, ⟨⟨1, 9⟩, 0⟩, domain, TaskPrio.kLowLatency, 0, SmallMessage.Method.kMd, taskLowLatency ||| flags,
    .own (.md ret)⟩

def replicaRun (d : NodeId) : List (Label SmallMessage.ListFields) :=
  let l : LaneRef := ⟨⟨1, 8⟩, TaskPrio.kLowLatency, 0⟩
  [.call 1 0, .rpcExec 1 0, .node d (.poll 0 l)] ++
    (if d = 1 then [.node d (.scan 0 []), .node d (.finish 0 (mdTask DomainId.getGlobal 0 []))] else []) ++
    [.node d (.scan 0 []),
      .node d (.finish 0 (mdTask (DomainId.getNode d) (taskHasStarted ||| taskModuleComplete) [1])),
      .node d (.scan 0 []), .rpcComplete 1 0, .output 1 0]

def globalRun : List (Label SmallMessage.ListFields) :=
  let l : LaneRef := ⟨⟨1, 8⟩, TaskPrio.kLowLatency, 0⟩
  let r : LaneRef := ⟨⟨1, 6⟩, TaskPrio.kLowLatency, 0⟩
  let any := mdTask DomainId.getGlobal 0 []
  let push := pushTask (pairConfig.at 1) any 0 ⟨⟨1, 8⟩, 0⟩
  [.node 1 (.emplace l (mdTask DomainId.getGlobal 0 [0])), .node 1 (.poll 0 l), .node 1 (.scan 0 []),
    .node 1 (.put 0), .node 1 (.finish 0 any), .node 1 (.scan 0 []), .node 1 (.poll 0 r), .node 1 (.scan 0 []),
    .node 1 (.finish 0 push), .node 1 (.scan 0 []), .start 1 0] ++ replicaRun 1 ++ replicaRun 2 ++
  [.replicateEnd 1 0, .completeOrig 1 0, .completePush 1 0, .node 1 (.poll 0 l), .node 1 (.scan 0 []),
    .node 1 (.finish 0 any)]

theorem dispersalOk_globalRun : ∃ s, run (step pairConfig)
      (boot (fun _ _ => mdTask DomainId.getLocal 0 []) (fun _ id => id = ⟨1, 6⟩ ∨ id = ⟨1, 8⟩)) globalRun = some s ∧
    0 < (s.nodes 1).next ∧ isRemote (pairConfig.at 1) (s.mem 1 0) = true ∧ (s.mem 1 0).isComplete = true ∧
    (s.mem 1 0).body = .own (.md [1, 1]) ∧ DispersalOk pairConfig s 1 0 := by
  have hsome : (run (step pairConfig)
      (boot (fun _ _ => mdTask DomainId.getLocal 0 []) (fun _ id => id = ⟨1, 6⟩ ∨ id = ⟨1, 8⟩)) globalRun).any
      (fun s => 0 < (s.nodes 1).next ∧ isRemote (pairConfig.at 1) (s.mem 1 0) = true ∧
        (s.mem 1 0).isComplete = true ∧ (s.mem 1 0).body = .own (.md [1, 1])) = true := by decide +kernel
  obtain ⟨s, hs, hok⟩ := (Option.any_eq_true _ _).mp hsome
  obtain ⟨hnext, hremote, hcomplete, hbody⟩ := of_decide_eq_true hok
  exact ⟨s, hs, hnext, hremote, hcomplete, hbody, dispersalOk_of_run _ _ _ globalRun s hs 1 0 hnext hremote⟩

end HermesRun.RemoteQueue
