import HermesRun.Remote.Messages

/-!
The cluster with messages of bytes. A task that is dispersed leaves its plain fields in the parameters of its push and
points to the data that go with them; a server makes its copy of what it is sent and answers with a string. Whatever
else happens is as in `RemoteQueue`.
-/

namespace HermesRun

namespace Network

open Archive Bitfield

variable {Ty : Type} {V : Ty → Type}

def receive (x : DataTransfer) : DataTransfer := .ofData x.data

def Fields.arrived (f : Fields V) : Fields V :=
  ⟨f.before.map (Item.mapPart receive), f.after.map (Item.mapPart receive)⟩

variable {c : Cereal V} {types : TaskStateId → ℕ → Option (TaskType Ty)} {t : Task (Fields V)} {f : Fields V}

theorem rpcExec_arrived (htype : types t.taskState t.method = some f.type) (hc : c.RoundTrips t f) (d : NodeId) :
    rpcExec c types d t.taskState t.method (f.transfers.map receive ++ [.ofData (bytes c.field f.before ++
      (taskBytes c t ++ bytes c.field f.after))]) = some (received d { t with body := .own f.arrived }) := by
  generalize hparams : DataTransfer.ofData (bytes c.field f.before ++ (taskBytes c t ++ bytes c.field f.after)) = params
  have hlen : f.transfers.length ≤ (f.transfers.map receive ++ [params]).length := by
    rw [List.length_append, List.length_map]
    omega
  have hload := loadStart_bytes hc _ hlen
  have hbefore : fill f.before (f.transfers.map receive ++ [params]) = f.before.map (Item.mapPart receive) := by
    rw [Fields.transfers, List.map_append, List.append_assoc]
    exact fill_map receive f.before _
  have hafter : fill f.after ((f.transfers.map receive ++ [params]).drop (parts f.before).length) =
      f.after.map (Item.mapPart receive) := by
    rw [Fields.transfers, List.map_append, List.append_assoc,
      List.drop_left' (show ((parts f.before).map receive).length = _ from List.length_map receive)]
    exact fill_map receive f.after _
  rw [hbefore, hafter] at hload
  rw [rpcExec, List.getLast?_concat, Option.bind_some, htype, Option.bind_some, ← hparams]
  rw [← hparams] at hload
  exact congrArg (Option.map (received d)) hload

theorem rpcPush_arrived (buf : ∀ n, Vector UInt8 n) (node : DomainId) (hbody : t.body = .own f)
    (htype : types t.taskState t.method = some f.type) (hone : f.transfers.length ≤ 1)
    (hreads : ∀ x ∈ f.transfers, any x.flags dtReceiverRead = true) (hc : c.RoundTrips t f) : ∃ msg : Rpc,
    (∀ domainIds, push (saveStart c node t) t.taskState t.method domainIds =
      some (domainIds.map fun d => (d.id, msg))) ∧
    ∀ d, rpcPush c types buf d msg = some (received d { t with body := .own f.arrived }) := by
  rw [saveStart_own c node hbody]
  have hexec := rpcExec_arrived htype hc
  match hx : f.transfers with
  | [] =>
    rw [hx] at hexec
    exact ⟨_, fun _ => rfl, hexec⟩
  | [x] =>
    rw [hx] at hexec
    have hread : any (mark node x).flags dtReceiverRead = true := by
      apply hreads x
      rw [hx]
      exact List.mem_singleton_self x
    refine ⟨_, fun _ => rfl, ?_⟩
    intro d
    rw [clientIoPush, if_pos hread]
    exact hexec d
  | _ :: _ :: _ =>
    rw [hx] at hone
    simp only [List.length_cons] at hone
    omega

end Network

namespace Wire

open Archive Network
open EndArchive (EndType Plain)
open RemoteQueue (Contract Label Push update₂)

/-- What a task type passes to the archive when it is sent, as a view of the task's own fields, and what the reader
makes of the fields that have arrived. -/
structure StartType {Ty : Type} (V : Ty → Type) (α : Type) where
  type : TaskType Ty
  save : α → Fields V
  load : Fields V → α
  type_save : ∀ a, (save a).type = type

/-- The nodes with their libraries, and what the libraries pass to the archives. A method that the `SaveStart` of a
library has no case for has no start type. -/
structure Config {Ty : Type} (V : Ty → Type) (α π : Type) where
  cluster : RemoteQueue.Config α π (List UInt8)
  cereal : Cereal V
  startType : TaskStateId → ℕ → Option (StartType V α)
  endType : TaskStateId → ℕ → EndType V α
  buf : ∀ n, Vector UInt8 n

/-- `xfer` is that of the push tasks, by node and the task they were made for. The `xfer` of the cluster, which has the
tasks as they were serialised, is history only. -/
structure State (α : Type) where
  cluster : RemoteQueue.State α (List UInt8)
  xfer : NodeId → TaskPtr → Option (List DataTransfer)

def withFields {α β : Type} (f : α → β) (t : Task α) : Task β :=
  { t with body := match t.body with
    | .own a => .own (f a)
    | .push i => .push i }

section Functions

variable {Ty α π : Type} {V : Ty → Type} (cfg : Config V α π)

def packed (k : NodeId) (t : Task α) : List DataTransfer :=
  match cfg.startType t.taskState t.method with
  | some T => saveStart cfg.cereal (DomainId.getNode k) (withFields T.save t)
  | none => getXfer (DomainId.getNode k) ⟨[], []⟩

def transfers (t : Task α) : List DataTransfer :=
  match cfg.startType t.taskState t.method, t.body with
  | some T, .own a => (T.save a).transfers
  | _, _ => []

/-- A transfer is a pointer: its data are read when they are sent. -/
def atPresent (now xfer : List DataTransfer) : List DataTransfer :=
  xfer.mapIdx fun i x => { x with data := (now[i]?.map DataTransfer.data).getD x.data }

def types (id : TaskStateId) (method : ℕ) : Option (TaskType Ty) := (cfg.startType id method).map StartType.type

def nodeStep (s : State α) (k : NodeId) (l : Poll.Label α) : Option (State α) :=
  (RemoteQueue.nodeStep cfg.cluster s.cluster k l).map fun c =>
    match l with
    | .scan w _ => match (c.nodes k).running w with
      | some r => match r.mode with
        | .disperse => ⟨c, update₂ s.xfer k r.task (some (packed cfg k (s.cluster.mem k r.task)))⟩
        | _ => { s with cluster := c }
      | none => { s with cluster := c }
    | _ => { s with cluster := c }

def start (s : State α) (k : NodeId) (p : TaskPtr) (x : Push (List UInt8)) : Option (State α) :=
  if (s.cluster.nodes k).halted then none
  else (s.xfer k p).map fun xfer => match xfer.length with
    | 1 | 2 => { s with cluster := s.cluster.setPush k p { x with phase := .ready } }
    | _ => { s with cluster := s.cluster.halt k }

def rpcExec (s : State α) (k : NodeId) (p : TaskPtr) (x : Push (List UInt8)) : Option (State α) :=
  (s.xfer k p).bind fun xfer =>
    (push (atPresent (transfers cfg (s.cluster.mem k p)) xfer) x.info.exec.id x.info.execMethod
      x.info.domainIds).bind fun msgs => msgs[x.replica]?.bind fun (d, msg) =>
        match (s.cluster.nodes d).taskStates x.info.exec.id with
        | none => some { s with cluster := s.cluster.halt d }
        | some _ => (cfg.startType x.info.exec.id x.info.execMethod).bind fun T =>
          (rpcPush cfg.cereal (types cfg) cfg.buf d msg).bind fun t =>
            let copy := withFields T.load t
            let lane := (cfg.cluster.at d).laneFor x.info.exec.id copy.prio copy.laneHash
            (Poll.step (cfg.cluster.at d) (s.cluster.nodes d) (.emplace lane copy)).map fun u =>
              { s with
                cluster := ((s.cluster.setNode d u).setPush k p
                  { x with phase := .waiting (s.cluster.nodes d).next }).record k p
                    fun h => { h with copies := h.copies ++ [(d, (s.cluster.nodes d).next)] } }

def rpcComplete (s : State α) (k : NodeId) (p : TaskPtr) (x : Push (List UInt8)) (copy : TaskPtr) : Option (State α) :=
  x.info.domainIds[x.replica]?.bind fun domain =>
    if (s.cluster.mem domain.id copy).isComplete && !(s.cluster.nodes domain.id).halted then
      match (s.cluster.mem domain.id copy).body with
      | .own a =>
        let ret := EndArchive.answer cfg.cereal.field (DomainId.getNode domain.id)
          (cfg.endType x.info.exec.id x.info.execMethod) a
        some { s with cluster := s.cluster.setPush k p { x with phase := .replied ret } }
      | .push _ => none
    else none

def output (s : State α) (k : NodeId) (p : TaskPtr) (x : Push (List UInt8)) (ret : List UInt8) : Option (State α) :=
  match (s.cluster.mem k p).body with
  | .own a =>
    let E := cfg.endType x.info.exec.id x.info.execMethod
    (EndArchive.loadEnd cfg.cereal.field E x.replica ret a).bind fun b =>
      (s.cluster.write cfg.cluster k p { s.cluster.mem k p with body := .own b }).map fun c =>
        { s with
          cluster := (c.setPush k p { x with replica := x.replica + 1, phase := .ready }).record k p
            fun h => { h with loaded := h.loaded + 1 } }
  | .push _ => none

def step (s : State α) : Label α → Option (State α)
  | .node k l => nodeStep cfg s k l
  | .start k p => match s.cluster.pushes k p with
    | some x => match x.phase with
      | .start => start s k p x
      | _ => none
    | none => none
  | .rpcExec k p => match s.cluster.pushes k p with
    | some ⟨q, i, j, .sent⟩ => rpcExec cfg s k p ⟨q, i, j, .sent⟩
    | _ => none
  | .rpcComplete k p => match s.cluster.pushes k p with
    | some ⟨q, i, j, .waiting copy⟩ => rpcComplete cfg s k p ⟨q, i, j, .waiting copy⟩ copy
    | _ => none
  | .output k p => match s.cluster.pushes k p with
    | some ⟨q, i, j, .replied ret⟩ => output cfg s k p ⟨q, i, j, .replied ret⟩ ret
    | _ => none
  | l => (RemoteQueue.step cfg.cluster s.cluster l).map fun c => { s with cluster := c }

def boot (mem : NodeId → TaskPtr → Task α) (registered : NodeId → TaskStateId → Bool) : State α :=
  ⟨RemoteQueue.boot mem registered, fun _ _ => none⟩

end Functions

section Serialised

variable {Ty α π : Type} {V : Ty → Type} (cfg : Config V α π)

def serialised (c : RemoteQueue.State α (List UInt8)) : State α := ⟨c, fun k p => (c.xfer k p).map (packed cfg k)⟩

/-- The methods of the libraries, which `RemoteQueue` takes as they are, are those of the archives; what is done to a
task while its push runs leaves the data of its transfers alone. -/
structure Archived : Prop where
  xferSize : ∀ id method T a, cfg.startType id method = some T →
    (cfg.cluster.srl id).xferSize method = (T.save a).transfers.length + 1
  loadStart : ∀ id method T a, cfg.startType id method = some T →
    (cfg.cluster.srl id).loadStart method ((cfg.cluster.srl id).saveStart method a) = T.load (T.save a).arrived
  saveEnd : ∀ id method node a, (cfg.cluster.srl id).saveEnd method a =
    EndArchive.answer cfg.cereal.field node (cfg.endType id method) a
  loadEnd : ∀ id i method ret a, (cfg.cluster.srl id).loadEnd i method ret a =
    (EndArchive.loadEnd cfg.cereal.field (cfg.endType id method) i ret a).getD a
  plain : ∀ id method, Plain cfg.cereal.field (cfg.endType id method)
  replicateStart : ∀ k id method T n a, cfg.startType id method = some T →
    (T.save (((cfg.cluster.at k).lib id).replicateStart method n a)).transfers.map DataTransfer.data =
      (T.save a).transfers.map DataTransfer.data
  set : ∀ id method T i items a, cfg.startType id method = some T →
    (T.save ((cfg.endType id method).set i items a)).transfers.map DataTransfer.data =
      (T.save a).transfers.map DataTransfer.data

def Sendable (t : Task α) : Prop :=
  ∃ T a, cfg.startType t.taskState t.method = some T ∧ t.body = .own a ∧
    cfg.cereal.RoundTrips (withFields T.save t) (T.save a) ∧
    ∀ x ∈ (T.save a).transfers, Bitfield.any x.flags dtReceiverRead = true

structure Sends (C : Contract α) : Prop where
  sendable : ∀ t, Poll.isOwn t = true → C.pre t → Sendable cfg t
  travels : C.Travels cfg.cluster

structure Inv (C : Contract α) (s : RemoteQueue.State α (List UInt8)) : Prop where
  cluster : RemoteQueue.Inv cfg.cluster s
  met : C.Met s
  size : ∀ k p x, s.pushes k p = some x → x.phase = .start ∨
    (cfg.cluster.srl x.info.exec.id).xferSize x.info.execMethod ≤ 2

variable {cfg}

theorem packed_eq {t : Task α} {T : StartType V α} {a : α} (hT : cfg.startType t.taskState t.method = some T)
    (ha : t.body = .own a) (k : NodeId) : packed cfg k t =
      (T.save a).transfers.map (mark (DomainId.getNode k)) ++ [⟨dtReceiverRead ||| dtFreeData,
        bytes cfg.cereal.field (T.save a).before ++ (taskBytes cfg.cereal (withFields T.save t) ++
          bytes cfg.cereal.field (T.save a).after), DomainId.getNode k⟩] := by
  have hbody : (withFields T.save t).body = .own (T.save a) := by
    rw [withFields, ha]
  rw [packed, hT]
  exact saveStart_own cfg.cereal _ hbody

theorem atPresent_same {now ts : List DataTransfer} (node : DomainId) (params : DataTransfer)
    (h : now.map DataTransfer.data = ts.map DataTransfer.data) :
    atPresent now (ts.map (mark node) ++ [params]) = ts.map (mark node) ++ [params] := by
  have hlen : now.length = ts.length := by
    have hl := congrArg List.length h
    rwa [List.length_map, List.length_map] at hl
  apply List.ext_getElem
  · rw [atPresent, List.length_mapIdx]
  · intro i hi hi'
    rw [List.length_append, List.length_map, List.length_singleton] at hi'
    have hget : (now.map DataTransfer.data)[i]? = (ts.map DataTransfer.data)[i]? := by rw [h]
    rw [List.getElem?_map, List.getElem?_map] at hget
    simp only [atPresent, List.getElem_mapIdx, hget]
    by_cases hlt : i < ts.length
    · rw [List.getElem_append_left (by rwa [List.length_map]), List.getElem_map, List.getElem?_eq_getElem hlt]
      rfl
    · rw [List.getElem?_eq_none (Nat.le_of_not_lt hlt)]
      rfl

theorem withFields_arrived (ha : Archived cfg) {z : Task α} {T : StartType V α} {a : α}
    (hT : cfg.startType z.taskState z.method = some T) (hz : z.body = .own a) (d : NodeId) :
    withFields T.load (received d { withFields T.save z with body := .own (T.save a).arrived }) =
      RemoteQueue.loadTask cfg.cluster d z := by
  have hload := ha.loadStart _ _ T a hT
  have hown : RemoteQueue.mapOwn (fun a => (cfg.cluster.srl z.taskState).loadStart z.method
      ((cfg.cluster.srl z.taskState).saveStart z.method a)) z =
        { z with body := .own (T.load (T.save a).arrived) } := by
    rw [RemoteQueue.mapOwn_own hz, hload]
  simp only [RemoteQueue.loadTask, hown]
  rfl

theorem transfers_gather (ha : Archived cfg) {id : TaskStateId} {method : ℕ} {T : StartType V α}
    (hT : cfg.startType id method = some T) (a : α) (outs : List α) :
    (T.save (RemoteQueue.gather (cfg.cluster.srl id) method a outs)).transfers.map DataTransfer.data =
      (T.save a).transfers.map DataTransfer.data := by
  induction outs using List.reverseRecOn with
  | nil => rfl
  | append_singleton outs o ih =>
    rw [RemoteQueue.gather_append, ha.loadEnd, EndArchive.loadEnd, ← ih]
    cases load cfg.cereal.field ⟨[DataTransfer.ofData ((cfg.cluster.srl id).saveEnd method o)], 0,
        (cfg.cluster.srl id).saveEnd method o⟩ (cfg.endType id method).slots with
    | none => rfl
    | some r => exact ha.set id method T _ _ _ hT

section Steps

variable {s t : RemoteQueue.State α (List UInt8)} {l : Label α} {k : NodeId} {p : TaskPtr} {x : Push (List UInt8)}
  {C : Contract α}

theorem serialised_cluster (c : RemoteQueue.State α (List UInt8)) : (serialised cfg c).cluster = c := rfl

theorem serialised_of_xfer (hx : t.xfer = s.xfer) : { serialised cfg s with cluster := t } = serialised cfg t := by
  simp only [serialised, hx]

theorem xfer_eq_of_step (h : RemoteQueue.step cfg.cluster s l = some t) (hl : ∀ k i, l ≠ .node k i) :
    t.xfer = s.xfer := by
  funext d q
  rcases (RemoteQueue.step_xfer h d q).2 with heq | ⟨w, es, r, hi, -⟩
  · exact heq
  · exact absurd hi (hl d _)

theorem step_serialised_of_ne (hl : ∀ k i, l ≠ .node k i) :
    (RemoteQueue.step cfg.cluster s l).map (fun c => { serialised cfg s with cluster := c }) =
      (RemoteQueue.step cfg.cluster s l).map (serialised cfg) := by
  cases h : RemoteQueue.step cfg.cluster s l with
  | none => rfl
  | some t =>
    apply congrArg some
    exact serialised_of_xfer (xfer_eq_of_step h hl)

theorem serialised_disperse (s : RemoteQueue.State α (List UInt8)) {k : NodeId} {r : Poll.Running α} (u : Poll.State α)
    (hm : r.mode = .disperse) : (⟨(s.begin k r).setNode k u, update₂ (serialised cfg s).xfer k r.task
      (some (packed cfg k (s.mem k r.task)))⟩ : State α) = serialised cfg ((s.begin k r).setNode k u) := by
  have hxfer : ((s.begin k r).setNode k u).xfer = update₂ s.xfer k r.task (some (s.mem k r.task)) := by
    simp only [RemoteQueue.State.begin, hm]
    rfl
  apply congrArg (State.mk _)
  funext d q
  show _ = (((s.begin k r).setNode k u).xfer d q).map (packed cfg d)
  rw [hxfer]
  by_cases hdq : d = k ∧ q = r.task
  · obtain ⟨rfl, rfl⟩ := hdq
    rw [RemoteQueue.update₂_self, RemoteQueue.update₂_self]
    rfl
  · rw [RemoteQueue.update₂_of_ne _ _ hdq, RemoteQueue.update₂_of_ne _ _ hdq]
    rfl

theorem nodeStep_serialised (s : RemoteQueue.State α (List UInt8)) (k : NodeId) (i : Poll.Label α) :
    nodeStep cfg (serialised cfg s) k i =
      (RemoteQueue.nodeStep cfg.cluster s k i).map (serialised cfg) := by
  rw [nodeStep, serialised_cluster]
  cases h : RemoteQueue.nodeStep cfg.cluster s k i with
  | none => rfl
  | some t =>
    rw [Option.map_some, Option.map_some, Option.some.injEq]
    unfold RemoteQueue.nodeStep at h
    split_ifs at h
    obtain ⟨u, -, rfl⟩ := Option.map_eq_some_iff.mp h
    cases i with
    | scan w es =>
      dsimp only
      cases hr : u.running w with
      | none =>
        simp only [RemoteQueue.nodes_setNode_self, hr]
        rfl
      | some r =>
        simp only [RemoteQueue.nodes_setNode_self, hr]
        have hother (hm : r.mode ≠ .disperse) : { serialised cfg s with cluster := (s.begin k r).setNode k u } =
            serialised cfg ((s.begin k r).setNode k u) := by
          apply serialised_of_xfer
          funext d q
          exact ((RemoteQueue.begin_xfer s k d r q).2).resolve_right fun h => hm h.2.2.1
        cases hm : r.mode with
        | disperse => exact serialised_disperse s u hm
        | _ => exact hother (by simp [hm])
    | _ => rfl

theorem Inv.sendable (h : Inv cfg C s) (hC : Sends cfg C) (hok : RemoteQueue.PushOk cfg.cluster s k p x) {z : Task α}
    (hz : s.xfer k p = some z) : Sendable cfg z := by
  obtain ⟨hown, hpre⟩ := h.met.unexecuted h.cluster hok hz
  exact hC.sendable z hown hpre

theorem start_serialised (ha : Archived cfg) (hC : Sends cfg C) (h : Inv cfg C s) (hx : s.pushes k p = some x)
    (hphase : x.phase = .start) :
    start (serialised cfg s) k p x = (RemoteQueue.step cfg.cluster s (.start k p)).map (serialised cfg) := by
  have hok := (h.cluster.task k p).push x hx
  obtain ⟨z, hz, hexec, hmethod, -⟩ := hok.saved h.cluster
  obtain ⟨T, a, hT, hown, -⟩ := h.sendable hC hok hz
  have hlen : (packed cfg k z).length = (cfg.cluster.srl x.info.exec.id).xferSize x.info.execMethod := by
    rw [packed_eq hT hown, List.length_append, List.length_map, List.length_singleton, hexec, hmethod,
      ha.xferSize _ _ T a hT]
  have hxfer : (serialised cfg s).xfer k p = some (packed cfg k z) := congrArg (Option.map _) hz
  simp only [start, RemoteQueue.step, serialised_cluster, hx, hphase, hxfer, Option.map_some, hlen]
  split_ifs
  · rfl
  · generalize (cfg.cluster.srl x.info.exec.id).xferSize x.info.execMethod = n
    rcases n with _ | _ | _ | n <;> rfl

theorem message (ha : Archived cfg) (hC : Sends cfg C) (h : Inv cfg C s) (hx : s.pushes k p = some x)
    (hphase : x.phase = .sent) : ∃ z T msg, s.xfer k p = some z ∧
      cfg.startType x.info.exec.id x.info.execMethod = some T ∧
      push (atPresent (transfers cfg (s.mem k p)) (packed cfg k z)) x.info.exec.id x.info.execMethod
        x.info.domainIds = some (x.info.domainIds.map fun d => (d.id, msg)) ∧
      ∀ d, (rpcPush cfg.cereal (types cfg) cfg.buf d msg).map (withFields T.load) =
        some (RemoteQueue.loadTask cfg.cluster d z) := by
  have hok := (h.cluster.task k p).push x hx
  obtain ⟨z, hz, hexec, hmethod, hsame, -⟩ := hok.saved h.cluster
  obtain ⟨z', hz', hkept, -⟩ := (hok.sent h.cluster).saved
  rw [hz, Option.some.injEq] at hz'
  subst hz'
  obtain ⟨T, a, hT, hown, hc, hreads⟩ := h.sendable hC hok hz
  have hone : (T.save a).transfers.length ≤ 1 := by
    have hsize := (h.size k p x hx).resolve_left (by simp [hphase])
    rw [hexec, hmethod, ha.xferSize _ _ T a hT] at hsize
    omega
  -- the task's own fields are not what they were when it was serialised, but the data of its transfers are
  have hnow : (transfers cfg (s.mem k p)).map DataTransfer.data = (T.save a).transfers.map DataTransfer.data := by
    obtain ⟨outs, -, -, z', a', hz', ha', hbody⟩ := hok.gathered
    rw [hz, Option.some.injEq] at hz'
    subst hz'
    rw [hown, Body.own.injEq] at ha'
    subst ha'
    simp only [hphase, RemoteQueue.Phase.isLate, Bool.false_eq_true, if_false] at hbody
    rw [transfers, hkept.taskState, ← hsame, hT, hbody]
    refine (transfers_gather ha hT _ outs).trans ?_
    exact ha.replicateStart k _ _ T _ a hT
  have htype : types cfg (withFields T.save z).taskState (withFields T.save z).method = some (T.save a).type := by
    rw [T.type_save a]
    exact congrArg (Option.map StartType.type) hT
  have hbody : (withFields T.save z).body = .own (T.save a) := by rw [withFields, hown]
  obtain ⟨msg, hpush, hrpc⟩ := rpcPush_arrived cfg.buf (DomainId.getNode k) hbody htype hone hreads hc
  refine ⟨z, T, msg, hz, by rw [hexec, hmethod]; exact hT, ?_, ?_⟩
  · rw [packed_eq hT hown, atPresent_same _ _ hnow, ← packed_eq hT hown, hexec, hmethod, packed, hT]
    exact hpush _
  · intro d
    rw [hrpc d, Option.map_some, withFields_arrived ha hT hown]

theorem rpcExec_serialised (ha : Archived cfg) (hC : Sends cfg C) (h : Inv cfg C s) (hx : s.pushes k p = some x)
    (hphase : x.phase = .sent) :
    rpcExec cfg (serialised cfg s) k p x = (RemoteQueue.rpcExec cfg.cluster s k p x).map (serialised cfg) := by
  obtain ⟨z, T, msg, hz, hT, hpush, hrpc⟩ := message ha hC h hx hphase
  have hxfer : (serialised cfg s).xfer k p = some (packed cfg k z) := congrArg (Option.map _) hz
  rw [rpcExec, hxfer, Option.bind_some, serialised_cluster, hpush, Option.bind_some, List.getElem?_map,
    RemoteQueue.rpcExec, hz]
  cases x.info.domainIds[x.replica]? with
  | none => rfl
  | some domain =>
    simp only [Option.map_some, Option.bind_some, hT]
    cases (s.nodes domain.id).taskStates x.info.exec.id with
    | none => rfl
    | some _ =>
      obtain ⟨t, ht, hcopy⟩ := Option.map_eq_some_iff.mp (hrpc domain.id)
      simp only [ht, Option.bind_some, hcopy, Option.map_map]
      rfl

theorem rpcComplete_serialised (ha : Archived cfg) (s : RemoteQueue.State α (List UInt8)) (k : NodeId) (p : TaskPtr)
    (x : Push (List UInt8)) (copy : TaskPtr) : rpcComplete cfg (serialised cfg s) k p x copy =
      (RemoteQueue.rpcComplete cfg.cluster s k p x copy).map (serialised cfg) := by
  rw [rpcComplete, RemoteQueue.rpcComplete, serialised_cluster]
  cases x.info.domainIds[x.replica]? with
  | none => rfl
  | some domain =>
    simp only [Option.bind_some, RemoteQueue.saveEnd]
    by_cases hcomplete : ((s.mem domain.id copy).isComplete && !(s.nodes domain.id).halted) = true
    · rw [if_pos hcomplete, if_pos hcomplete]
      cases (s.mem domain.id copy).body with
      | own a =>
        simp only [Option.map_some, ha.saveEnd _ _ (DomainId.getNode domain.id)]
        rfl
      | push i => rfl
    · rw [if_neg hcomplete, if_neg hcomplete]
      rfl

theorem output_serialised (ha : Archived cfg) (h : Inv cfg C s) (hx : s.pushes k p = some x) {ret : List UInt8}
    (hphase : x.phase = .replied ret) :
    output cfg (serialised cfg s) k p x ret = (RemoteQueue.output cfg.cluster s k p x ret).map (serialised cfg) := by
  have hok := (h.cluster.task k p).push x hx
  obtain ⟨o, -, hret⟩ := hok.replied ret hphase
  obtain ⟨b, hbody⟩ : ∃ b, (s.mem k p).body = .own b := by
    obtain ⟨outs, -, -, z, a, -, -, hbody⟩ := hok.gathered
    exact ⟨_, hbody⟩
  rw [ha.saveEnd _ _ DomainId.getLocal] at hret
  have hload := (ha.plain x.info.exec.id x.info.execMethod).loadEnd DomainId.getLocal x.replica o b
  rw [← hret] at hload
  rw [output, RemoteQueue.output, serialised_cluster, hbody, RemoteQueue.mapOwn_own hbody, ha.loadEnd]
  simp only [hload, Option.bind_some, Option.getD_some, Option.map_map]
  generalize hw : s.write cfg.cluster k p _ = u
  cases u with
  | none => rfl
  | some u =>
    have hxfer : u.xfer = s.xfer := RemoteQueue.write_xfer hw
    simp only [Option.map_some, Function.comp_apply, serialised, ← hxfer]
    rfl

theorem step_serialised (ha : Archived cfg) (hC : Sends cfg C) (h : Inv cfg C s) (l : Label α) :
    step cfg (serialised cfg s) l = (RemoteQueue.step cfg.cluster s l).map (serialised cfg) := by
  cases l with
  | node k i => exact nodeStep_serialised s k i
  | start k p =>
    simp only [step, serialised_cluster]
    cases hx : s.pushes k p with
    | none => simp [RemoteQueue.step, hx]
    | some x =>
      dsimp only
      split
      · next hphase => exact start_serialised ha hC h hx hphase
      · next hphase =>
        simp only [RemoteQueue.step, hx]
        rfl
  | rpcExec k p =>
    simp only [step, RemoteQueue.step, serialised_cluster]
    cases hx : s.pushes k p with
    | none => rfl
    | some x =>
      obtain ⟨q, i, j, phase⟩ := x
      cases phase with
      | sent => exact rpcExec_serialised ha hC h hx rfl
      | _ => rfl
  | rpcComplete k p =>
    simp only [step, RemoteQueue.step, serialised_cluster]
    cases hx : s.pushes k p with
    | none => rfl
    | some x =>
      obtain ⟨q, i, j, phase⟩ := x
      cases phase with
      | waiting copy => exact rpcComplete_serialised ha s k p _ copy
      | _ => rfl
  | output k p =>
    simp only [step, RemoteQueue.step, serialised_cluster]
    cases hx : s.pushes k p with
    | none => rfl
    | some x =>
      obtain ⟨q, i, j, phase⟩ := x
      cases phase with
      | replied ret => exact output_serialised ha h hx rfl
      | _ => rfl
  | thread | call | replicateEnd | completeOrig | completePush =>
    apply step_serialised_of_ne
    intro k i hl
    cases hl

theorem size_of_start (hst : RemoteQueue.step cfg.cluster s (.start k p) = some t) (hx : s.pushes k p = some x)
    (hne : t.pushes k p ≠ s.pushes k p) : (cfg.cluster.srl x.info.exec.id).xferSize x.info.execMethod ≤ 2 := by
  simp only [RemoteQueue.step, hx] at hst
  split at hst
  · split_ifs at hst
    split at hst
    · omega
    · omega
    · cases hst
      exact absurd rfl hne
  · cases hst

theorem Inv.step (h : Inv cfg C s) (hC : Sends cfg C) (hst : RemoteQueue.step cfg.cluster s l = some t)
    (hk : C.Kept s l) : Inv cfg C t := by
  refine ⟨RemoteQueue.step_inv h.cluster hst, h.met.step h.cluster hC.travels hk hst, ?_⟩
  · intro k p y hy
    cases RemoteQueue.step_push h.cluster hst k p with
    | same hp => exact h.size k p y (hp ▸ hy)
    | spawn q i hl hs ht =>
      rw [ht, Option.some.injEq] at hy
      subst hy
      exact Or.inl rfl
    | own x y' hl hx hy' htask hinfo hleft hans =>
      rw [hy', Option.some.injEq] at hy
      subst hy
      right
      rw [hinfo]
      rcases h.size k p x hx with hphase | hsize
      · rw [RemoteQueue.Push.next, hphase] at hl
        subst hl
        refine size_of_start hst hx ?_
        rintro heq
        rw [hy', hx, Option.some.injEq] at heq
        subst heq
        omega
      · exact hsize

end Steps

theorem runs_serialised (ha : Archived cfg) {C : Contract α} (hC : Sends cfg C) {mem : NodeId → TaskPtr → Task α}
    {registered : NodeId → TaskStateId → Bool} {labels : List (Label α)}
    {R : RemoteQueue.State α (List UInt8) → Label α → Prop} (hR : ∀ s l, R s l → C.Kept s l)
    (hk : Runs.Along (step cfg) (fun s l _ => R s.cluster l) (boot mem registered) labels) :
    Runs.run (step cfg) (boot mem registered) labels =
        (Runs.run (RemoteQueue.step cfg.cluster) (RemoteQueue.boot mem registered) labels).map (serialised cfg) ∧
      Runs.Along (RemoteQueue.step cfg.cluster) (fun s l _ => R s l) (RemoteQueue.boot mem registered) labels := by
  have hboot : Inv cfg C (RemoteQueue.boot mem registered) := by
    refine ⟨RemoteQueue.boot_inv cfg.cluster mem registered, Contract.met_boot mem registered, ?_⟩
    intro k p x hx
    cases hx
  exact Runs.run_map (f := serialised cfg) (C := fun s l _ => R s.cluster l)
    (fun s l _ h hst hs => h.step hC hst (hR s l hs)) (fun _ l h => step_serialised ha hC h l) hboot hk

end Serialised

end Wire

namespace SmallMessage

open Archive Network
open EndArchive (archived)
open RemoteQueue (Contract targetNodes)
open Wire (Sends StartType withFields)

def fits {β : Type} (t : Task β) : Bool :=
  idFits t.taskState && idFits t.taskNode.root && t.taskNode.nodeDepth < 2 ^ 32 && t.domainId.id < 2 ^ 32 &&
    t.prio < 2 ^ 32 && t.method < 2 ^ 32
where
  idFits (i : UniqueId) : Bool := i.nodeId < 2 ^ 32 && i.unique < 2 ^ 64

/-- What is relied on of `cereal`: it reads a plain field back as it wrote it. -/
structure ReadsBack (c : Cereal fun _ : Unit => BitVec 32) : Prop where
  taskState : ∀ i, fits.idFits i = true → c.taskState.RoundTrips i
  taskNode : ∀ n, fits.idFits n.root = true → n.nodeDepth < 2 ^ 32 → c.taskNode.RoundTrips n
  domainId : ∀ d, d.id < 2 ^ 32 → c.domainId.RoundTrips d
  laneHash : ∀ h, c.laneHash.RoundTrips h
  prio : ∀ n < 2 ^ 32, c.prio.RoundTrips n
  method : ∀ n < 2 ^ 32, c.method.RoundTrips n
  taskFlags : ∀ f, c.taskFlags.RoundTrips f
  field : ∀ τ x, (c.field τ).RoundTrips x

variable {A : Type} (P : PodArray A) (ioRet : BitVec 32) (c : Cereal fun _ : Unit => BitVec 32)

def mdFields (_ : Fields A) : Network.Fields fun _ : Unit => BitVec 32 := ⟨[], []⟩

/-- `SaveStart` of `IoTask`, whose transfer gets its node from the archive. -/
def ioFields (a : Fields A) : Network.Fields fun _ : Unit => BitVec 32 :=
  ⟨[], [.part ⟨dtReceiverRead, a.ioData, DomainId.getLocal⟩]⟩

theorem type_mdFields (a : Fields A) : (mdFields a).type = ⟨[], []⟩ := rfl

theorem type_ioFields (a : Fields A) : (ioFields a).type = ⟨[], [.part]⟩ := rfl

def startType (method : ℕ) : Option (StartType (fun _ : Unit => BitVec 32) (Fields A)) :=
  if isMd method then some ⟨⟨[], []⟩, mdFields, fun _ => .md P.new, type_mdFields⟩
  else if method = Method.kIo then
    some ⟨⟨[], [.part]⟩, ioFields, fun f => .io (((parts f.after).head?.map DataTransfer.data).getD []) ioRet,
      type_ioFields⟩
  else none

def wire (cluster : RemoteQueue.Config (Fields A) (List UInt8) (List UInt8)) (states : TaskStateId → Bool)
    (buf : ∀ n, Vector UInt8 n) : Wire.Config (fun _ : Unit => BitVec 32) (Fields A) (List UInt8) where
  cluster := cluster
  cereal := c
  startType id method := if states id then startType P ioRet method else none
  endType _ := endType P
  buf := buf

def sendable (states : TaskStateId → Bool) (t : Task (Fields A)) : Bool :=
  states t.taskState && (isMd t.method || t.method == Method.kIo) && fits t

def sends (states : TaskStateId → Bool) : RemoteQueue.Label (Fields A) → Bool
  | .node _ (.emplace _ t) => !Poll.isOwn t || sendable states t
  | .node _ (.scan _ es) => es.all fun e => !Poll.isOwn e.2 || sendable states e.2
  | _ => true

def wireContract (states : TaskStateId → Bool) : Contract (Fields A) where
  pre t := (contract P states).pre t ∧ sendable states t = true
  post := (contract P states).post
  pre_flags _ _ := id
  post_flags _ _ := id

section Archives

variable {P ioRet c} {cluster : RemoteQueue.Config (Fields A) (List UInt8) (List UInt8)}
  {states : TaskStateId → Bool} {buf : ∀ n, Vector UInt8 n} {node : DomainId}

theorem startType_cases {id : TaskStateId} {method : ℕ} {T : StartType (fun _ : Unit => BitVec 32) (Fields A)}
    (h : (wire P ioRet c cluster states buf).startType id method = some T) : states id = true ∧
      (isMd method = true ∧ T.save = mdFields ∧ (∀ f, T.load f = .md P.new) ∨ method = Method.kIo ∧
        T.save = ioFields ∧
        ∀ f, T.load f = .io (((parts f.after).head?.map DataTransfer.data).getD []) ioRet) := by
  simp only [wire, startType] at h
  split_ifs at h with hstate hmd hio
  · cases h
    exact ⟨hstate, Or.inl ⟨hmd, rfl, fun _ => rfl⟩⟩
  · cases h
    exact ⟨hstate, Or.inr ⟨hio, rfl, fun _ => rfl⟩⟩

theorem ioData_set (i : ℕ) (items : List (Item (fun _ : Unit => BitVec 32) DataTransfer)) (a : Fields A) :
    ((endType P Method.kIo).set i items a).ioData = a.ioData := by
  simp only [endType, isMd_kIo, Bool.false_eq_true, if_false]
  split <;> rfl

section Library

variable (hsrl : ∀ id, cluster.srl id = archived c.field node (srl P ioRet) (endType P))
include hsrl

theorem srl_wire (id : TaskStateId) :
    (wire P ioRet c cluster states buf).cluster.srl id = archived c.field node (srl P ioRet) (endType P) := hsrl id

theorem archived_wire (hc : ReadsBack c) (hlib : ∀ k id, states id = true → (cluster.node k).lib id = lib P) :
    Wire.Archived (wire P ioRet c cluster states buf) where
  xferSize id method T a hT := by
    obtain ⟨-, ⟨hmd, hsave, -⟩ | ⟨rfl, hsave, -⟩⟩ := startType_cases hT
    · rw [hsave, srl_wire hsrl]
      exact if_neg (isMd_ne_kIo hmd)
    · rw [hsave, srl_wire hsrl]
      rfl
  loadStart id method T a hT := by
    obtain ⟨-, ⟨hmd, hsave, hload⟩ | ⟨rfl, hsave, hload⟩⟩ := startType_cases hT
    · rw [hload, srl_wire hsrl]
      exact if_neg (isMd_ne_kIo hmd)
    · rw [hload, hsave, srl_wire hsrl]
      rfl
  saveEnd id method node' a := by
    rw [srl_wire hsrl]
    have hanswer := EndArchive.answer_eq c.field node (endType P method) a
    exact hanswer.trans (EndArchive.answer_eq c.field node' (endType P method) a).symm
  loadEnd id i method ret a := by
    rw [srl_wire hsrl]
    rfl
  plain id method := plain_endType hc.field method
  replicateStart k id method T n a hT := by
    obtain ⟨hstate, ⟨hmd, hsave, -⟩ | ⟨rfl, hsave, -⟩⟩ := startType_cases hT
    · rw [hsave]
      rfl
    · rw [hsave, show ((wire P ioRet c cluster states buf).cluster.at k).lib id = lib P from hlib k id hstate]
      rfl
  set id method T i items a hT := by
    obtain ⟨-, ⟨hmd, hsave, -⟩ | ⟨rfl, hsave, -⟩⟩ := startType_cases hT
    · rw [hsave]
      rfl
    · have hdata := ioData_set (P := P) i items a
      rw [hsave]
      show [((endType P Method.kIo).set i items a).ioData] = [a.ioData]
      rw [hdata]

end Library

theorem roundTrips_of_fits (hc : ReadsBack c) {t : Task (Network.Fields fun _ : Unit => BitVec 32)}
    (h : fits t = true) (f : Network.Fields fun _ : Unit => BitVec 32) : c.RoundTrips t f := by
  simp only [fits, Bool.and_eq_true, decide_eq_true_eq] at h
  obtain ⟨⟨⟨⟨⟨hstate, hroot⟩, hdepth⟩, hdomain⟩, hprio⟩, hmethod⟩ := h
  exact ⟨hc.taskState _ hstate, hc.taskNode _ hroot hdepth, hc.domainId _ hdomain, hc.laneHash _, hc.prio _ hprio,
    hc.method _ hmethod, hc.taskFlags _, fun τ x _ => hc.field τ x, fun τ x _ => hc.field τ x⟩

theorem fits_withFields {β : Type} (f : Fields A → β) (t : Task (Fields A)) : fits (withFields f t) = fits t := by
  rw [Bool.eq_iff_iff]
  simp only [fits, fits.idFits, Bool.and_eq_true, decide_eq_true_eq]
  exact Iff.rfl

theorem sendable_wire (hc : ReadsBack c) {t : Task (Fields A)} (hown : Poll.isOwn t = true)
    (h : sendable states t = true) : Wire.Sendable (wire P ioRet c cluster states buf) t := by
  simp only [sendable, Bool.and_eq_true, Bool.or_eq_true, beq_iff_eq] at h
  obtain ⟨⟨hstate, hmethod⟩, hfits⟩ := h
  obtain ⟨a, ha⟩ := RemoteQueue.own_of_isOwn hown
  have hsaved {β : Type} (f : Fields A → β) : fits (withFields f t) = true := (fits_withFields f t).trans hfits
  by_cases hmd : isMd t.method = true
  · refine ⟨_, a, (if_pos hstate).trans (if_pos hmd), ha, roundTrips_of_fits hc (hsaved mdFields) _, ?_⟩
    intro x hx
    cases hx
  · have hio := hmethod.resolve_left hmd
    refine ⟨_, a, (if_pos hstate).trans ((if_neg hmd).trans (if_pos hio)), ha,
      roundTrips_of_fits hc (hsaved ioFields) _, ?_⟩
    intro x hx
    cases List.mem_singleton.mp hx
    show Bitfield.any dtReceiverRead dtReceiverRead = true
    decide

theorem lt_of_mem_targetNodes {t : Task (Fields A)} (hhosts : cluster.numHosts < 2 ^ 32) (h : fits t = true)
    {d : NodeId} (hd : d ∈ targetNodes cluster t) : d < 2 ^ 32 := by
  simp only [fits, Bool.and_eq_true, decide_eq_true_eq] at h
  obtain ⟨domain, hdomain, rfl⟩ := List.mem_map.mp hd
  unfold resolveDomainId at hdomain
  split_ifs at hdomain
  · obtain ⟨n, hn, rfl⟩ := List.mem_map.mp hdomain
    have hlt := List.mem_range.mp hn
    exact Nat.lt_of_le_of_lt hlt hhosts
  · rw [List.mem_singleton.mp hdomain]
    exact h.1.1.2
  · cases hdomain

theorem fits_loadTask {t : Task (Fields A)} (h : fits t = true) {d : NodeId} (hd : d < 2 ^ 32) :
    fits (RemoteQueue.loadTask cluster d t) = true := by
  simp only [fits, Bool.and_eq_true, decide_eq_true_eq] at h ⊢
  unfold RemoteQueue.loadTask RemoteQueue.mapOwn
  split
  · exact ⟨⟨⟨h.1.1.1, hd⟩, h.1.2⟩, h.2⟩
  · exact ⟨⟨⟨h.1.1.1, hd⟩, h.1.2⟩, h.2⟩

theorem sends_wire (hsrl : ∀ id, cluster.srl id = archived c.field node (srl P ioRet) (endType P)) (hc : ReadsBack c)
    (hhosts : cluster.numHosts < 2 ^ 32) :
    Sends (wire P ioRet c cluster states buf) (wireContract P states) := by
  refine ⟨fun t hown hpre => sendable_wire hc hown hpre.2, ?_⟩
  rintro t hown ⟨hpre, hsend⟩ d hd
  refine ⟨travels (fun id _ => hsrl id) t hown hpre d hd, ?_⟩
  simp only [sendable, Bool.and_eq_true] at hsend
  obtain ⟨⟨hstate, hmethod⟩, hfits⟩ := hsend
  simp only [sendable, Bool.and_eq_true, RemoteQueue.loadTask_taskState, RemoteQueue.loadTask_method]
  exact ⟨⟨hstate, hmethod⟩, fits_loadTask hfits (lt_of_mem_targetNodes hhosts hfits hd)⟩

theorem holds_of_wire {t : Task (Fields A)} (h : (wireContract P states).Holds t) : (contract P states).Holds t := by
  intro hown
  have hheld := h hown
  split_ifs at hheld ⊢
  · exact hheld
  · exact hheld.1

theorem run_isModuleComplete {t : Task (Fields A)} (h : sendable states t = true) :
    (run P t).isModuleComplete = true := by
  simp only [sendable, Bool.and_eq_true, Bool.or_eq_true, beq_iff_eq] at h
  have hmethod : t.method = TaskMethod.kConstruct ∨ t.method = TaskMethod.kDestruct ∨ isMd t.method = true ∨
      t.method = Method.kIo := Or.inr (Or.inr h.1.2)
  rw [run, if_pos hmethod, Task.setModuleComplete_isModuleComplete]

theorem handler_holds {t out : Task (Fields A)} (hown : Poll.isOwn t = true)
    (hkeeps : RemoteQueue.handlerKeeps t out = true) (hholds : (wireContract P states).Holds t)
    (hout : (contract P states).Holds out)
    (hrun : states t.taskState = true → out = run P t) : (wireContract P states).Holds out := by
  have hcomplete : out.isModuleComplete = true := by
    cases hm : t.isModuleComplete with
    | true =>
      simp only [RemoteQueue.handlerKeeps, Bool.and_eq_true, Bool.or_eq_true, decide_eq_true_eq] at hkeeps
      rcases hkeeps.2 with hflags | hflags
      · rw [Task.isModuleComplete, hflags]
        exact hm
      · rw [Task.isModuleComplete, hflags]
        exact Task.setModuleComplete_isModuleComplete t
    | false =>
      have hpre := hholds hown
      rw [hm, if_neg Bool.false_ne_true] at hpre
      have hsend : sendable states t = true := hpre.2
      have hstate : states t.taskState = true := by
        simp only [sendable, Bool.and_eq_true] at hsend
        exact hsend.1.1
      rw [hrun hstate]
      exact run_isModuleComplete hsend
  intro hown'
  have hpost := hout hown'
  rw [if_pos hcomplete] at hpost ⊢
  exact hpost

theorem kept_of_sends [DecidableEq A] {ρ : Type} {s : RemoteQueue.State (Fields A) ρ}
    {l : RemoteQueue.Label (Fields A)} (hP : P.Lawful) (hserves : serves P states s l = true)
    (hsends : sends states l = true) : (wireContract P states).Kept s l := by
  have hkept := (kept_of_serves hP hserves).1
  have hready {t : Task (Fields A)} (h : (contract P states).Ready t)
      (hsend : (!Poll.isOwn t || sendable states t) = true) :
      (wireContract P states).Ready t := by
    intro hown
    rw [hown] at hsend
    exact ⟨h hown, hsend⟩
  cases l with
  | node k i =>
    cases i with
    | emplace dst t => exact hready hkept hsends
    | scan w es => exact fun e he => hready (hkept e he) (List.all_eq_true.mp hsends e he)
    | finish w out =>
      intro r hr hruns hown hkeeps hholds
      exact handler_holds hown hkeeps hholds (hkept r hr hruns hown hkeeps (holds_of_wire hholds))
        (finish_of_serves hserves hr hruns)
    | _ => trivial
  | thread k p out =>
    intro hown hkeeps hholds
    exact handler_holds hown hkeeps hholds (hkept hown hkeeps (holds_of_wire hholds)) (thread_of_serves hserves)
  | _ => trivial

end Archives

def intCereal : Cereal fun _ : Unit => BitVec 32 := { binaryCereal with field := int }

theorem readsBack_intCereal : ReadsBack intCereal := by
  have hnum {n : ℕ} (hn : n < 2 ^ 32) : (Codec.num 4).RoundTrips n := Codec.roundTrips_num (by omega)
  have hid {i : UniqueId} (h : fits.idFits i = true) : binaryCereal.uniqueId.RoundTrips i := by
    simp only [fits.idFits, Bool.and_eq_true, decide_eq_true_eq] at h
    obtain ⟨hnode, hunique⟩ := h
    exact uniqueId_roundTrips (by omega) (by omega)
  refine ⟨fun i => hid, ?_, ?_, ?_, fun n => hnum, fun n => hnum, ?_, roundTrips_int⟩
  · intro n hroot hdepth
    dsimp only [intCereal, binaryCereal]
    apply Codec.RoundTrips.map
    · exact Codec.RoundTrips.pair (hid hroot) (hnum hdepth)
    · rfl
  · intro d hd
    dsimp only [intCereal, binaryCereal]
    apply Codec.RoundTrips.map
    · exact Codec.RoundTrips.pair (hnum d.flags.isLt) (hnum hd)
    · simp
  · intro h
    apply Codec.RoundTrips.map
    · exact hnum h.toNat_lt
    · simp
  · intro f
    apply Codec.RoundTrips.map
    · exact hnum f.isLt
    · simp

def wirePair : Wire.Config (fun _ : Unit => BitVec 32) ListFields (List UInt8) :=
  wire listArray 0 intCereal RemoteQueue.archivePair (fun id => id == ⟨1, 8⟩) fun n => Vector.replicate n 0

theorem lib_wirePair (k : NodeId) (id : TaskStateId) (h : (id == (⟨1, 8⟩ : TaskStateId)) = true) :
    (RemoteQueue.archivePair.node k).lib id = lib listArray := by
  rw [beq_iff_eq.mp h]
  rfl

theorem serves_wirePair : Runs.Along (Wire.step wirePair)
    (fun s l _ => serves listArray (fun id => id == ⟨1, 8⟩) s.cluster l = true ∧ sends (fun id => id == ⟨1, 8⟩) l = true)
    (Wire.boot (fun _ _ => RemoteQueue.mdTask DomainId.getLocal 0 []) (fun _ id => id = ⟨1, 6⟩ ∨ id = ⟨1, 8⟩))
    RemoteQueue.globalRun := by
  decide +kernel

end SmallMessage

namespace Wire

open RemoteQueue (Contract Label)

variable {Ty α π : Type} {V : Ty → Type} (cfg : Config V α π)

theorem run_serialised (ha : Archived cfg) (C : Contract α) (hC : Sends cfg C) (mem : NodeId → TaskPtr → Task α)
    (registered : NodeId → TaskStateId → Bool) (labels : List (Label α))
    (hk : Runs.Along (step cfg) (fun s l _ => C.Kept s.cluster l) (boot mem registered) labels) :
    Runs.run (step cfg) (boot mem registered) labels =
      (Runs.run (RemoteQueue.step cfg.cluster) (RemoteQueue.boot mem registered) labels).map (serialised cfg) :=
  (runs_serialised ha hC (fun _ _ => id) hk).1

theorem serialised_globalRun : Runs.run (step SmallMessage.wirePair)
      (boot (fun _ _ => RemoteQueue.mdTask DomainId.getLocal 0 []) (fun _ id => id = ⟨1, 6⟩ ∨ id = ⟨1, 8⟩))
      RemoteQueue.globalRun =
    (Runs.run (RemoteQueue.step SmallMessage.wirePair.cluster)
      (RemoteQueue.boot (fun _ _ => RemoteQueue.mdTask DomainId.getLocal 0 [])
        (fun _ id => id = ⟨1, 6⟩ ∨ id = ⟨1, 8⟩)) RemoteQueue.globalRun).map (serialised SmallMessage.wirePair) := by
  refine run_serialised SmallMessage.wirePair ?_
    (SmallMessage.wireContract SmallMessage.listArray fun id => id == ⟨1, 8⟩) ?_ _ _ _ ?_
  · exact SmallMessage.archived_wire (fun _ => rfl) SmallMessage.readsBack_intCereal SmallMessage.lib_wirePair
  · exact SmallMessage.sends_wire (fun _ => rfl) SmallMessage.readsBack_intCereal (by decide)
  · apply SmallMessage.serves_wirePair.mono
    exact fun _ _ _ h => SmallMessage.kept_of_sends SmallMessage.lawful_listArray h.1 h.2

end Wire

namespace SmallMessage

open EndArchive (archived)

theorem wireAnswers_of_run {A : Type} [DecidableEq A] (P : PodArray A) (hP : P.Lawful) (ioRet : BitVec 32)
    (c : Network.Cereal fun _ : Unit => BitVec 32) (hread : ReadsBack c)
    (cluster : RemoteQueue.Config (Fields A) (List UInt8) (List UInt8)) (states : TaskStateId → Bool)
    (buf : ∀ n, Vector UInt8 n) (node : DomainId) (mem : NodeId → TaskPtr → Task (Fields A))
    (registered : NodeId → TaskStateId → Bool) (labels : List (RemoteQueue.Label (Fields A)))
    (s : Wire.State (Fields A)) (hsrl : ∀ id, cluster.srl id = archived c.field node (srl P ioRet) (endType P))
    (hlib : ∀ k id, states id = true → (cluster.node k).lib id = lib P) (hhosts : cluster.numHosts < 2 ^ 32)
    (hrun : Runs.run (Wire.step (wire P ioRet c cluster states buf)) (Wire.boot mem registered) labels = some s)
    (hserves : Runs.Along (Wire.step (wire P ioRet c cluster states buf))
      (fun s l _ => serves P states s.cluster l = true ∧ sends states l = true) (Wire.boot mem registered) labels)
    (k : NodeId) (p : TaskPtr) (hp : p < (s.cluster.nodes k).next)
    (hstate : states (s.cluster.mem k p).taskState = true) (hc : (s.cluster.mem k p).isComplete = true)
    (a : Fields A) (ha : (s.cluster.mem k p).body = .own a) : Answered P cluster k (s.cluster.mem k p) a := by
  obtain ⟨heq, hmodel⟩ := Wire.runs_serialised (archived_wire hsrl hread hlib)
    (sends_wire hsrl hread hhosts) (R := fun s l => serves P states s l = true ∧ sends states l = true)
    (fun s l h => kept_of_sends hP h.1 h.2) hserves
  rw [hrun] at heq
  obtain ⟨s', hs', rfl⟩ := Option.map_eq_some_iff.mp heq.symm
  have hkept : Runs.Along (RemoteQueue.step cluster) (fun s l _ => (contract P states).Kept s l)
      (RemoteQueue.boot mem registered) labels :=
    hmodel.mono fun _ _ _ h => (kept_of_serves hP h.1).1
  have hmethods : Runs.Along (RemoteQueue.step cluster) (fun s l _ => RemoteQueue.KeepsMethod states s l)
      (RemoteQueue.boot mem registered) labels :=
    hmodel.mono fun _ _ _ h => (kept_of_serves hP h.1).2
  exact answered_of_kept hP hread.field (fun id _ => hsrl id) hlib hs' hkept hmethods hp hstate hc ha

theorem wireAnswers_globalRun : ∃ s, Runs.run (Wire.step wirePair)
      (Wire.boot (fun _ _ => RemoteQueue.mdTask DomainId.getLocal 0 []) (fun _ id => id = ⟨1, 6⟩ ∨ id = ⟨1, 8⟩))
      RemoteQueue.globalRun = some s ∧
    Answered listArray RemoteQueue.archivePair 1 (s.cluster.mem 1 0) (.md [1, 1]) := by
  have hsome : (Runs.run (Wire.step wirePair)
      (Wire.boot (fun _ _ => RemoteQueue.mdTask DomainId.getLocal 0 []) (fun _ id => id = ⟨1, 6⟩ ∨ id = ⟨1, 8⟩))
      RemoteQueue.globalRun).any
      (fun s => 0 < (s.cluster.nodes 1).next ∧ (s.cluster.mem 1 0).taskState = ⟨1, 8⟩ ∧
        (s.cluster.mem 1 0).isComplete = true ∧ (s.cluster.mem 1 0).body = .own (.md [1, 1])) = true := by
    decide +kernel
  obtain ⟨s, hs, hok⟩ := (Option.any_eq_true _ _).mp hsome
  obtain ⟨hnext, hstate, hcomplete, hbody⟩ := of_decide_eq_true hok
  refine ⟨s, hs, wireAnswers_of_run listArray lawful_listArray 0 intCereal readsBack_intCereal RemoteQueue.archivePair
    (fun id => id == ⟨1, 8⟩) (fun n => Vector.replicate n 0) (DomainId.getNode 1) _ _ RemoteQueue.globalRun s
    (fun _ => rfl) lib_wirePair (by decide) hs serves_wirePair 1 0 hnext ?_ hcomplete _ hbody⟩
  rw [hstate]
  rfl

end SmallMessage

end HermesRun
