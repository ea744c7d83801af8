import HermesRun.Remote.EndArchive
import HermesRun.Remote.Threads

namespace HermesRun

namespace SmallMessage

open Archive EndArchive

section EndType

variable {A : Type} (P : PodArray A)

def endType (method : ℕ) : EndType (fun _ : Unit => BitVec 32) (Fields A) where
  slots := [.plain ()]
  get replica a := [.plain () (if isMd method then P.get (a.ret P) replica else a.ioRet)]
  set replica items a := match items with
    | [.plain _ x] => if isMd method then .md (P.set (a.ret P) replica x) else .io a.ioData x
    | _ => a

variable {P}

theorem plain_endType {int : Unit → Codec (BitVec 32)} (hint : ∀ τ x, (int τ).RoundTrips x) (method : ℕ) :
    Plain int (endType P method) where
  shape _ _ := rfl
  parts _ _ := rfl
  reads _ _ := fun τ x _ => hint τ x

theorem size_set_endType (hP : P.Lawful) {method : ℕ} (h : isMd method = true) (i : ℕ)
    (xs : List (Item (fun _ : Unit => BitVec 32) Network.DataTransfer)) (a : Fields A) :
    P.size (((endType P method).set i xs a).ret P) = P.size (a.ret P) := by
  simp only [endType, h, if_true]
  split
  · exact hP.size_set ..
  · rfl

theorem get_set_endType (hP : P.Lawful) {method : ℕ} (h : isMd method = true) (i : ℕ) (o a : Fields A)
    (hi : i < P.size (a.ret P)) :
    (endType P method).get i ((endType P method).set i ((endType P method).get 0 o) a) =
      (endType P method).get 0 o := by
  simp only [endType, h, if_true, Fields.ret_md, hP.get_set _ _ _ hi]

theorem get_set_endType_of_ne (hP : P.Lawful) {method : ℕ} (h : isMd method = true) (i j : ℕ)
    (xs : List (Item (fun _ : Unit => BitVec 32) Network.DataTransfer)) (a : Fields A) (hj : j ≠ i) :
    (endType P method).get j ((endType P method).set i xs a) = (endType P method).get j a := by
  simp only [endType, h, if_true]
  split
  · rw [Fields.ret_md, hP.get_set_of_ne _ _ _ _ hj]
  · rfl

theorem size_replicateStart (hP : P.Lawful) {method : ℕ} (h : isMd method = true) (n : ℕ) (a : Fields A) :
    P.size (((lib P).replicateStart method n a).ret P) = n := by
  simp only [lib, h, if_true, Fields.ret_md, hP.size_resize]

def slotted_endType (hP : P.Lawful) (ioRet : BitVec 32) {method : ℕ} (h : isMd method = true) :
    Slotted (srl P ioRet) (lib P) method (endType P method) where
  size a := P.size (a.ret P)
  start := size_replicateStart hP h
  size_set := size_set_endType hP h
  get_set := get_set_endType hP h
  get_other := get_set_endType_of_ne hP h
  finish _ _ := rfl

theorem unslotted_endType (ioRet : BitVec 32) {method : ℕ} (h : isMd method = false) :
    Unslotted (srl P ioRet) method (endType P method) where
  get_eq i a := by simp [endType, h]
  get_set i o a := by
    simp only [endType, h, Bool.false_eq_true, if_false]
    rfl
  finish a := rfl

end EndType

def int (_ : Unit) : Codec (BitVec 32) := (Codec.num 4).map (BitVec.ofNat 32) BitVec.toNat

theorem roundTrips_int (τ : Unit) (x : BitVec 32) : (int τ).RoundTrips x := by
  apply Codec.RoundTrips.map
  · exact Codec.roundTrips_num x.isLt
  · simp

end SmallMessage

namespace RemoteQueue

open Poll Runs
open Archive (Codec)
open EndArchive (EndType Plain Slotted Unslotted archived)

variable {Ty α π ρ : Type} {V : Ty → Type}

section Gathered

variable {cfg : Config α π ρ} {s : State α ρ} {k : NodeId} {p : TaskPtr} {x : Push ρ}

theorem PushOk.outputs (h : Inv cfg s) (hok : PushOk cfg s k p x) (hover : x.phase.isOver = true) :
    ∃ z a outs, s.xfer k p = some z ∧ z.body = .own a ∧ outs.length = (s.history k p).copies.length ∧
      (∀ (j : ℕ) o, outs[j]? = some o → ∃ d c, (s.history k p).copies[j]? = some (d, c) ∧ (s.view d).ended c ∧
        (s.mem d c).body = .own o) ∧
      (s.mem k p).body = .own ((cfg.srl (s.mem k p).taskState).replicateEnd (s.mem k p).method
        (gather (cfg.srl (s.mem k p).taskState) (s.mem k p).method
          (((cfg.at k).lib (s.mem k p).taskState).replicateStart (s.mem k p).method outs.length a) outs)) := by
  obtain ⟨hlate, hcopy⟩ : x.phase.isLate = true ∧ x.phase.hasCopy = false := by
    cases hp : x.phase <;> simp_all [Phase.isOver, Phase.isLate, Phase.hasCopy]
  have hall := hok.late hlate
  obtain ⟨z, hz, -, -, -, hids⟩ := hok.saved h
  obtain ⟨z', hz', hkept, hmethod, -⟩ := (hok.sent h).saved
  rw [hz, Option.some.injEq] at hz'
  subst hz'
  obtain ⟨outs, hlen, houts, z', a, hz', ha, hown⟩ := hok.gathered
  rw [hz, Option.some.injEq] at hz'
  subst hz'
  have hcopies := congrArg List.length hok.targets
  simp only [List.length_map, List.length_take, hcopy, Bool.false_eq_true, if_false] at hcopies
  have hcount : (resolveDomainId cfg.numHosts z.domainId).length = outs.length := by rw [← hids, ← hall, hlen]
  rw [hlate, ← hkept.taskState, hmethod, hcount] at hown
  refine ⟨z, a, outs, hz, ha, ?_, ?_, hown⟩
  · rw [hlen, hcopies]
    omega
  · intro j o ho
    obtain ⟨d, c, hj, -, hend, hb⟩ := houts j o ho
    exact ⟨d, c, hj, hend, hb⟩

theorem push_isOver (h : Inv cfg s) (hp : p < (s.nodes k).next) (hr : isRemote (cfg.at k) (s.mem k p) = true)
    (hm : (s.mem k p).isModuleComplete = true) : ∃ x, s.pushes k p = some x ∧ x.phase.isOver = true := by
  cases hx : s.pushes k p with
  | none =>
    have hnot := ((h.task k p).idle hx).2.2.2.1 hp hr
    rw [hm] at hnot
    cases hnot
  | some x => exact ⟨x, rfl, ((h.task k p).push x hx).isOver hm⟩

end Gathered

section Runs

variable (cfg : Config α π (List UInt8)) (mem : NodeId → TaskPtr → Task α)
  (registered : NodeId → TaskStateId → Bool) (labels : List (Label α)) (s : State α (List UInt8))
  (c : ∀ τ, Codec (V τ)) (node : DomainId) (srl : TaskSrl α π ρ) (E : ℕ → EndType V α)

/-- Each replica's outputs are in the place that the task type has for it, byte for byte as the copy had them. -/
theorem outputs_of_run (hrun : run (step cfg) (boot mem registered) labels = some s) (k : NodeId) (p : TaskPtr)
    (hp : p < (s.nodes k).next) (hr : isRemote (cfg.at k) (s.mem k p) = true)
    (hm : (s.mem k p).isModuleComplete = true)
    (hsrl : cfg.srl (s.mem k p).taskState = archived c node srl E) (hplain : Plain c (E (s.mem k p).method))
    (S : Slotted srl ((cfg.at k).lib (s.mem k p).taskState) (s.mem k p).method (E (s.mem k p).method))
    (i : ℕ) (d : NodeId) (q : TaskPtr) (hq : (s.history k p).copies[i]? = some (d, q)) :
    ∃ a b, (s.mem d q).body = .own a ∧ (s.mem k p).body = .own b ∧
      (E (s.mem k p).method).get i b = (E (s.mem k p).method).get 0 a := by
  have hgathers := gathers_of_moduleComplete (inv_of_run cfg mem registered hrun) hp hr hm
  have hslots := hgathers.slots
  rw [hsrl] at hslots
  exact hslots _ (S.replicaAware node hplain) i d q hq

def archivePair : Config SmallMessage.ListFields (List UInt8) (List UInt8) where
  numHosts := 2
  node := pairConfig.node
  srl := fun _ => archived SmallMessage.int (DomainId.getNode 1) (SmallMessage.srl SmallMessage.listArray 0)
    (SmallMessage.endType SmallMessage.listArray)

theorem outputs_globalRun : ∃ s, run (step archivePair)
      (boot (fun _ _ => mdTask DomainId.getLocal 0 []) (fun _ id => id = ⟨1, 6⟩ ∨ id = ⟨1, 8⟩)) globalRun = some s ∧
    (s.mem 1 0).body = .own (.md [1, 1]) ∧ ∃ a b, (s.mem 2 0).body = .own a ∧ (s.mem 1 0).body = .own b ∧
      (SmallMessage.endType SmallMessage.listArray (s.mem 1 0).method).get 1 b =
        (SmallMessage.endType SmallMessage.listArray (s.mem 1 0).method).get 0 a := by
  have hsome : (run (step archivePair)
      (boot (fun _ _ => mdTask DomainId.getLocal 0 []) (fun _ id => id = ⟨1, 6⟩ ∨ id = ⟨1, 8⟩)) globalRun).any
      (fun s => (s.mem 1 0).body = .own (.md [1, 1]) ∧ 0 < (s.nodes 1).next ∧
        isRemote (archivePair.at 1) (s.mem 1 0) = true ∧ (s.mem 1 0).isModuleComplete = true ∧
        SmallMessage.isMd (s.mem 1 0).method = true ∧ (s.mem 1 0).taskState = ⟨1, 8⟩ ∧
        (s.history 1 0).copies[1]? = some (2, 0)) = true := by
    decide +kernel
  obtain ⟨s, hs, hok⟩ := (Option.any_eq_true _ _).mp hsome
  obtain ⟨hbody, hnext, hremote, hm, hmd, hstate, hcopy⟩ := of_decide_eq_true hok
  have hlib : (archivePair.at 1).lib (s.mem 1 0).taskState = SmallMessage.lib SmallMessage.listArray := by
    rw [hstate]
    rfl
  refine ⟨s, hs, hbody, outputs_of_run archivePair _ _ globalRun s SmallMessage.int (DomainId.getNode 1)
    (SmallMessage.srl SmallMessage.listArray 0) (SmallMessage.endType SmallMessage.listArray) hs 1 0 hnext hremote hm rfl
    (SmallMessage.plain_endType SmallMessage.roundTrips_int _) ?_ 1 2 0 hcopy⟩
  rw [hlib]
  exact SmallMessage.slotted_endType SmallMessage.lawful_listArray 0 hmd

theorem lastOutputs_of_run (hrun : run (step cfg) (boot mem registered) labels = some s) (k : NodeId) (p : TaskPtr)
    (hp : p < (s.nodes k).next) (hr : isRemote (cfg.at k) (s.mem k p) = true)
    (hm : (s.mem k p).isModuleComplete = true)
    (hsrl : cfg.srl (s.mem k p).taskState = archived c node srl E) (hplain : Plain c (E (s.mem k p).method))
    (U : Unslotted srl (s.mem k p).method (E (s.mem k p).method)) (d : NodeId) (q : TaskPtr)
    (hq : (s.history k p).copies.getLast? = some (d, q)) :
    ∃ a b, (s.mem d q).body = .own a ∧ (s.mem k p).body = .own b ∧
      (E (s.mem k p).method).get 0 b = (E (s.mem k p).method).get 0 a := by
  have h := inv_of_run cfg mem registered hrun
  obtain ⟨x, hx, hover⟩ := push_isOver h hp hr hm
  obtain ⟨-, a, outs, -, -, hlen, houts, hown⟩ := ((h.task k p).push x hx).outputs h hover
  rw [hsrl] at hown
  rcases List.eq_nil_or_concat outs with rfl | ⟨outs, o, rfl⟩
  · rw [List.eq_nil_of_length_eq_zero hlen.symm] at hq
    cases hq
  · rw [List.concat_eq_append] at hown houts hlen
    obtain ⟨d', q', hcopy, -, hb⟩ := houts outs.length o (by simp)
    have hlast : (s.history k p).copies.getLast? = some (d', q') := by
      rw [List.getLast?_eq_getElem?, ← hlen, List.length_append, List.length_singleton, Nat.add_sub_cancel]
      exact hcopy
    rw [hq, Option.some.injEq, Prod.mk.injEq] at hlast
    obtain ⟨rfl, rfl⟩ := hlast
    refine ⟨o, _, hb, hown, ?_⟩
    show (E (s.mem k p).method).get 0 (srl.replicateEnd (s.mem k p).method _) = _
    rw [U.finish, U.get_gather node hplain]

def ioTask (domain : DomainId) (flags : Bitfield.Flags) (ret : BitVec 32) : Task SmallMessage.ListFields :=
  ⟨⟨1, 8⟩, ⟨⟨1, 9⟩, 0⟩, domain, TaskPrio.kLowLatency, 3, SmallMessage.Method.kIo, flags, .own (.io [10, 10] ret)⟩

def ioRun : List (Label SmallMessage.ListFields) :=
  let l : LaneRef := ⟨⟨1, 8⟩, TaskPrio.kLowLatency, 0⟩
  let r : LaneRef := ⟨⟨1, 6⟩, TaskPrio.kLowLatency, 0⟩
  let t := ioTask (DomainId.getNode 2) 0 0
  [.node 1 (.emplace l t), .node 1 (.poll 0 l), .node 1 (.scan 0 []), .node 1 (.put 0), .node 1 (.finish 0 t),
    .node 1 (.scan 0 []), .node 1 (.poll 0 r), .node 1 (.scan 0 []),
    .node 1 (.finish 0 (pushTask (pairConfig.at 1) t 0 ⟨⟨1, 8⟩, 0⟩)), .node 1 (.scan 0 []), .start 1 0, .call 1 0,
    .rpcExec 1 0, .node 2 (.poll 0 l), .node 2 (.scan 0 []),
    .node 2 (.finish 0 (ioTask (DomainId.getNode 2) (taskHasStarted ||| taskModuleComplete) 1)),
    .node 2 (.scan 0 []), .rpcComplete 1 0, .output 1 0, .replicateEnd 1 0, .completeOrig 1 0]

theorem lastOutputs_ioRun : ∃ s, run (step archivePair)
      (boot (fun _ _ => mdTask DomainId.getLocal 0 []) (fun _ id => id = ⟨1, 6⟩ ∨ id = ⟨1, 8⟩)) ioRun = some s ∧
    (s.mem 1 0).body = .own (.io [10, 10] 1) ∧ ∃ a b, (s.mem 2 0).body = .own a ∧ (s.mem 1 0).body = .own b ∧
      (SmallMessage.endType SmallMessage.listArray (s.mem 1 0).method).get 0 b =
        (SmallMessage.endType SmallMessage.listArray (s.mem 1 0).method).get 0 a := by
  have hsome : (run (step archivePair)
      (boot (fun _ _ => mdTask DomainId.getLocal 0 []) (fun _ id => id = ⟨1, 6⟩ ∨ id = ⟨1, 8⟩)) ioRun).any
      (fun s => (s.mem 1 0).body = .own (.io [10, 10] 1) ∧ 0 < (s.nodes 1).next ∧
        isRemote (archivePair.at 1) (s.mem 1 0) = true ∧ (s.mem 1 0).isModuleComplete = true ∧
        SmallMessage.isMd (s.mem 1 0).method = false ∧ (s.history 1 0).copies.getLast? = some (2, 0)) = true := by
    decide +kernel
  obtain ⟨s, hs, hok⟩ := (Option.any_eq_true _ _).mp hsome
  obtain ⟨hbody, hnext, hremote, hm, hmd, hcopy⟩ := of_decide_eq_true hok
  exact ⟨s, hs, hbody, lastOutputs_of_run archivePair _ _ ioRun s SmallMessage.int (DomainId.getNode 1)
    (SmallMessage.srl SmallMessage.listArray 0) (SmallMessage.endType SmallMessage.listArray) hs 1 0 hnext hremote hm rfl
    (SmallMessage.plain_endType SmallMessage.roundTrips_int _) (SmallMessage.unslotted_endType 0 hmd) 2 0 hcopy⟩

theorem readable_of_run (hrun : run (step cfg) (boot mem registered) labels = some s) (k : NodeId) (p : TaskPtr)
    (x : Push (List UInt8)) (hx : s.pushes k p = some x) (ret : List UInt8) (hret : x.phase = .replied ret)
    (hsrl : cfg.srl x.info.exec.id = archived c node srl E) (hplain : Plain c (E x.info.execMethod)) (b : α) :
    (EndArchive.loadEnd c (E x.info.execMethod) x.replica ret b).isSome = true := by
  have h := inv_of_run cfg mem registered hrun
  obtain ⟨a, -, hans⟩ := ((h.task k p).push x hx).replied ret hret
  rw [hsrl] at hans
  rw [hans, show (archived c node srl E).saveEnd x.info.execMethod a =
    EndArchive.answer c node (E x.info.execMethod) a from rfl, hplain.loadEnd]
  rfl

end Runs

end RemoteQueue

end HermesRun
