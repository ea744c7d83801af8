import HermesRun.Remote.Contracts
import HermesRun.Remote.Outputs

namespace HermesRun

namespace SmallMessage

open Poll Runs
open EndArchive (archived)
open RemoteQueue (Contract gather mapOwn targetNodes)

deriving instance DecidableEq for Task

def dataSize : ℕ := 4096

section Library

variable {A ρ : Type} (P : PodArray A)

/-- What the constructors of `MdTask`, `MdPushTask` and `IoTask` leave; `ret_` of an `IoTask` is not initialised. -/
def constructed [DecidableEq A] (method : ℕ) (a : Fields A) : Bool :=
  if isMd method then match a with
    | .md ret => decide (ret = P.construct 1)
    | .io _ _ => false
  else if method = Method.kIo then match a with
    | .md _ => false
    | .io data _ => data == List.replicate dataSize 10
  else true

def handle (method : ℕ) (a : Fields A) : Fields A :=
  if isMd method then .md (P.set (a.ret P) 0 1)
  else if method = Method.kIo then .io a.ioData (if (a.ioData.take 256).all (· == 10) then 1 else 0)
  else a

def run (t : Task (Fields A)) : Task (Fields A) :=
  if t.method = TaskMethod.kConstruct ∨ t.method = TaskMethod.kDestruct ∨ isMd t.method = true ∨
      t.method = Method.kIo then (mapOwn (handle P t.method) t).setModuleComplete
  else t

def serves [DecidableEq A] (states : TaskStateId → Bool) (s : RemoteQueue.State (Fields A) ρ) :
    RemoteQueue.Label (Fields A) → Bool
  | .node _ (.emplace _ t) => !states t.taskState || starts t
  | .node _ (.scan _ es) => es.all fun e => !states e.2.taskState || starts e.2
  | .node k (.finish w out) => ((s.view k).running w).all fun r =>
    !r.mode.runs || !states (s.mem k r.task).taskState || decide (out = run P (s.mem k r.task))
  | .thread k p out => !states (s.mem k p).taskState || decide (out = run P (s.mem k p))
  | _ => true
where
  starts (t : Task (Fields A)) : Bool := match t.body with
    | .own a => constructed P t.method a
    | .push _ => true

structure Startable (method : ℕ) (a : Fields A) : Prop where
  md : isMd method = true → ∃ ret, a = .md ret ∧ P.IsSingle ret
  io : method = Method.kIo → ∃ x, a = .io (List.replicate dataSize 10) x

structure Handled (method : ℕ) (a : Fields A) : Prop where
  md : isMd method = true → ∃ ret, a = .md ret ∧ P.IsSingle ret ∧ P.get ret 0 = 1
  io : method = Method.kIo → a = .io (List.replicate dataSize 10) 1

def contract (states : TaskStateId → Bool) : Contract (Fields A) where
  pre t := states t.taskState = true → ∀ a, t.body = .own a → Startable P t.method a
  post t := states t.taskState = true → ∀ a, t.body = .own a → Handled P t.method a
  pre_flags _ _ := id
  post_flags _ _ := id

variable {P}

theorem isMd_kIo : isMd Method.kIo = false := by decide

theorem isMd_ne_kIo {method : ℕ} (h : isMd method = true) : method ≠ Method.kIo := by
  rintro rfl
  rw [isMd_kIo] at h
  cases h

theorem Handled.startable {method : ℕ} {a : Fields A} (h : Handled P method a) : Startable P method a := by
  constructor
  · intro hmd
    obtain ⟨ret, ha, hsingle, -⟩ := h.md hmd
    exact ⟨ret, ha, hsingle⟩
  · intro hio
    exact ⟨1, h.io hio⟩

theorem startable_of_constructed [DecidableEq A] (hP : P.Lawful) {method : ℕ} {a : Fields A}
    (h : constructed P method a = true) : Startable P method a := by
  unfold constructed at h
  constructor
  · intro hmd
    rw [if_pos hmd] at h
    cases a with
    | md ret =>
      refine ⟨ret, rfl, Or.inl ?_⟩
      rw [of_decide_eq_true h]
      exact hP.size_construct 1
    | io data ret => cases h
  · rintro rfl
    rw [if_neg (by simp [isMd_kIo]), if_pos rfl] at h
    cases a with
    | md ret => cases h
    | io data ret => exact ⟨ret, by rw [beq_iff_eq.mp h]⟩

theorem Startable.handled (hP : P.Lawful) {method : ℕ} {a : Fields A} (h : Startable P method a) :
    Handled P method (handle P method a) := by
  constructor
  · intro hmd
    obtain ⟨ret, rfl, hsingle⟩ := h.md hmd
    exact ⟨P.set ret 0 1, if_pos hmd, hP.isSingle_set hsingle 0 1, hP.get_set_single hsingle 1⟩
  · rintro rfl
    obtain ⟨x, rfl⟩ := h.io rfl
    have hall : ((List.replicate dataSize (10 : UInt8)).take 256).all (· == 10) = true := by
      rw [List.take_replicate, List.all_replicate]
      decide
    rw [handle, if_neg (by simp [isMd_kIo]), if_pos rfl]
    show Fields.io (List.replicate dataSize 10)
      (if ((List.replicate dataSize (10 : UInt8)).take 256).all (· == 10) then 1 else 0) = _
    rw [hall]
    rfl

theorem run_keeps (t : Task (Fields A)) : (run P t).taskState = t.taskState ∧ (run P t).method = t.method := by
  unfold run
  split_ifs
  · refine ⟨?_, RemoteQueue.mapOwn_method ..⟩
    show (mapOwn _ t).taskState = _
    unfold mapOwn
    split <;> rfl
  · exact ⟨rfl, rfl⟩

theorem startable_of_holds {states : TaskStateId → Bool} {t : Task (Fields A)} (h : (contract P states).Holds t)
    (hstate : states t.taskState = true) {a : Fields A} (ha : t.body = .own a) : Startable P t.method a := by
  have hheld := h (RemoteQueue.isOwn_of_own ha)
  split_ifs at hheld with hm
  · exact (hheld hstate a ha).startable
  · exact hheld hstate a ha

theorem run_holds (hP : P.Lawful) {states : TaskStateId → Bool} {t : Task (Fields A)}
    (h : (contract P states).Holds t) (hstate : states t.taskState = true) : (contract P states).Holds (run P t) := by
  cases hb : t.body with
  | push i =>
    apply RemoteQueue.Contract.holds_push (i := i)
    unfold run mapOwn
    split_ifs
    · rw [hb]
      exact congrArg Body.pushInfo hb
    · rw [hb]
      rfl
  | own a =>
    have hstart := startable_of_holds h hstate hb
    unfold run
    split_ifs with hmethod
    · have hown : mapOwn (handle P t.method) t = { t with body := .own (handle P t.method a) } := by rw [mapOwn, hb]
      rw [hown]
      rintro -
      rw [if_pos (Task.setModuleComplete_isModuleComplete _)]
      rintro - b hb'
      cases hb'
      exact hstart.handled hP
    · exact h

end Library

section Cluster

variable {A ρ : Type} {P : PodArray A} {int : Unit → Archive.Codec (BitVec 32)} {ioRet : BitVec 32}
  {cfg : RemoteQueue.Config (Fields A) (List UInt8) (List UInt8)} {states : TaskStateId → Bool} {node : DomainId}

theorem travels (hsrl : ∀ id, states id = true → cfg.srl id = archived int node (srl P ioRet) (endType P)) :
    (contract P states).Travels cfg := by
  intro t hown hpre d _ hstate b hb
  rw [RemoteQueue.loadTask_taskState] at hstate
  obtain ⟨a, ha⟩ := RemoteQueue.own_of_isOwn hown
  have hstart := hpre hstate a ha
  rw [RemoteQueue.loadTask_body cfg d ha, hsrl _ hstate, Body.own.injEq] at hb
  subst hb
  rw [RemoteQueue.loadTask_method]
  generalize t.method = method at hstart
  show Startable P method ((srl P ioRet).loadStart method ((srl P ioRet).saveStart method a))
  constructor
  · intro hmd
    exact ⟨P.new, if_neg (isMd_ne_kIo hmd), Or.inr rfl⟩
  · rintro rfl
    obtain ⟨x, rfl⟩ := hstart.io rfl
    exact ⟨ioRet, rfl⟩

def executions (cfg : RemoteQueue.Config (Fields A) (List UInt8) (List UInt8)) (k : NodeId) (t : Task (Fields A)) : ℕ :=
  if isRemote (cfg.at k) t then (targetNodes cfg t).length else 1

structure Answered (P : PodArray A) (cfg : RemoteQueue.Config (Fields A) (List UInt8) (List UInt8)) (k : NodeId)
    (t : Task (Fields A)) (a : Fields A) : Prop where
  md : isMd t.method = true → ∃ ret, a = .md ret ∧ (∀ i < executions cfg k t, P.get ret i = 1) ∧
    (isRemote (cfg.at k) t = true → P.size ret = executions cfg k t)
  io : t.method = Method.kIo → 0 < executions cfg k t → a.ioRet = 1

section Gather

variable (ioRet node) (hint : ∀ τ x, (int τ).RoundTrips x)
include hint

theorem loadEnd_saveEnd (i method : ℕ) (o a : Fields A) :
    (archived int node (srl P ioRet) (endType P)).loadEnd i method
        ((archived int node (srl P ioRet) (endType P)).saveEnd method o) a =
      (endType P method).set i ((endType P method).get 0 o) a := by
  show (EndArchive.loadEnd int (endType P method) i (EndArchive.answer int node (endType P method) o) a).getD a = _
  rw [(plain_endType hint method).loadEnd]
  rfl

theorem gather_isMd {method : ℕ} (hmd : isMd method = true) (ret : A) (outs : List (Fields A)) :
    ∃ ret', gather (archived int node (srl P ioRet) (endType P)) method (.md ret) outs = .md ret' := by
  induction outs using List.reverseRecOn with
  | nil => exact ⟨ret, rfl⟩
  | append_singleton outs o ih =>
    obtain ⟨ret', ih⟩ := ih
    rw [RemoteQueue.gather_append, ih, loadEnd_saveEnd ioRet node hint]
    exact ⟨_, if_pos hmd⟩

theorem gather_md (hP : P.Lawful) {method : ℕ} (hmd : isMd method = true) {ret : A} {outs : List (Fields A)}
    (houts : ∀ o ∈ outs, Handled P method o) (hsize : P.size ret = outs.length) :
    ∃ ret', gather (archived int node (srl P ioRet) (endType P)) method (.md ret) outs = .md ret' ∧
      (∀ i < outs.length, P.get ret' i = 1) ∧ P.size ret' = outs.length := by
  have hget (i : ℕ) (b : A) : (endType P method).get i (.md b) = [.plain () (P.get b i)] := by
    simp [endType, hmd]
  obtain ⟨ret', hgather⟩ := gather_isMd (P := P) ioRet node hint hmd ret outs
  let R := (slotted_endType hP ioRet hmd).replicaAware node (plain_endType hint method)
  refine ⟨ret', hgather, ?_, ?_⟩
  · intro i hi
    obtain ⟨b, hb, -, hone⟩ := (houts outs[i] (List.getElem_mem hi)).md hmd
    have hslot : R.slot i _ = R.slot 0 outs[i] :=
      R.slot_gather (.md ret) hsize.ge (List.getElem?_eq_getElem hi)
    rw [hgather, hb] at hslot
    have hslot : (endType P method).get i (.md ret') = (endType P method).get 0 (.md b) := hslot
    simpa [hget, hone] using hslot
  · have hkept : R.size _ = R.size (.md ret) := R.size_gather (.md ret) outs
    rw [hgather] at hkept
    exact Eq.trans hkept hsize

theorem gather_io {outs : List (Fields A)} (houts : ∀ o ∈ outs, Handled P Method.kIo o) (hne : outs ≠ [])
    (a : Fields A) : (gather (archived int node (srl P ioRet) (endType P)) Method.kIo a outs).ioRet = 1 := by
  obtain ⟨outs, o, rfl⟩ := (List.eq_nil_or_concat outs).resolve_left hne
  rw [List.concat_eq_append] at houts ⊢
  have ho : o = .io (List.replicate dataSize 10) 1 := (houts o (by simp)).io rfl
  rw [RemoteQueue.gather_append, loadEnd_saveEnd ioRet node hint, ho]
  rfl

end Gather

theorem handled_of_kept {mem : NodeId → TaskPtr → Task (Fields A)} {registered : NodeId → TaskStateId → Bool}
    {labels : List (RemoteQueue.Label (Fields A))} {s : RemoteQueue.State (Fields A) (List UInt8)}
    (hsrl : ∀ id, states id = true → cfg.srl id = archived int node (srl P ioRet) (endType P))
    (hrun : Runs.run (RemoteQueue.step cfg) (RemoteQueue.boot mem registered) labels = some s)
    (hkept : Along (RemoteQueue.step cfg) (fun s l _ => (contract P states).Kept s l) (RemoteQueue.boot mem registered)
      labels) {d : NodeId} {c : TaskPtr} {o : Fields A} (hc : c < (s.nodes d).next)
    (hr : isRemote (cfg.at d) (s.mem d c) = false) (hm : (s.mem d c).isModuleComplete = true)
    (ho : (s.mem d c).body = .own o) (hstate : states (s.mem d c).taskState = true) :
    Handled P (s.mem d c).method o := by
  have hholds := RemoteQueue.Contract.holds_of_run cfg mem registered (travels hsrl) hrun hkept hc hr
    (RemoteQueue.isOwn_of_own ho)
  rw [if_pos hm] at hholds
  exact hholds hstate o ho

theorem answered_of_handled {k : NodeId} {t : Task (Fields A)} {a : Fields A} (hr : isRemote (cfg.at k) t = false)
    (h : Handled P t.method a) : Answered P cfg k t a := by
  have hone : executions cfg k t = 1 := by rw [executions, hr]; rfl
  constructor
  · intro hmd
    obtain ⟨ret, ha, -, hret⟩ := h.md hmd
    refine ⟨ret, ha, ?_, ?_⟩
    · intro i hi
      rw [hone] at hi
      rw [Nat.lt_one_iff.mp hi, hret]
    · intro hremote
      rw [hr] at hremote
      cases hremote
  · intro hio _
    rw [h.io hio]
    rfl

theorem answered_of_outputs (hP : P.Lawful) (hint : ∀ τ x, (int τ).RoundTrips x) {k : NodeId} {t : Task (Fields A)}
    {outs : List (Fields A)} (hcount : executions cfg k t = outs.length) (houts : ∀ o ∈ outs, Handled P t.method o)
    (a : Fields A) : Answered P cfg k t (gather (archived int node (srl P ioRet) (endType P)) t.method
      ((lib P).replicateStart t.method outs.length a) outs) := by
  constructor
  · intro hmd
    have hresize : (lib P).replicateStart t.method outs.length a = .md (P.resize (a.ret P) outs.length) := if_pos hmd
    obtain ⟨ret, hgather, hret, hsize⟩ := gather_md ioRet node hint hP hmd houts (hP.size_resize (a.ret P) outs.length)
    rw [hresize, hgather, hcount]
    exact ⟨ret, rfl, hret, fun _ => hsize⟩
  · intro hio hpos
    rw [hcount] at hpos
    rw [hio] at houts ⊢
    exact gather_io ioRet node hint houts (List.ne_nil_of_length_pos hpos) _

theorem answered_of_kept (hP : P.Lawful) (hint : ∀ τ x, (int τ).RoundTrips x)
    {mem : NodeId → TaskPtr → Task (Fields A)} {registered : NodeId → TaskStateId → Bool}
    {labels : List (RemoteQueue.Label (Fields A))} {s : RemoteQueue.State (Fields A) (List UInt8)}
    (hsrl : ∀ id, states id = true → cfg.srl id = archived int node (srl P ioRet) (endType P))
    (hlib : ∀ k id, states id = true → (cfg.node k).lib id = lib P)
    (hrun : Runs.run (RemoteQueue.step cfg) (RemoteQueue.boot mem registered) labels = some s)
    (hkept : Along (RemoteQueue.step cfg) (fun s l _ => (contract P states).Kept s l) (RemoteQueue.boot mem registered)
      labels)
    (hmethods : Along (RemoteQueue.step cfg) (fun s l _ => RemoteQueue.KeepsMethod states s l)
      (RemoteQueue.boot mem registered) labels) {k : NodeId} {p : TaskPtr} (hp : p < (s.nodes k).next)
    (hstate : states (s.mem k p).taskState = true) (hc : (s.mem k p).isComplete = true) {a : Fields A}
    (ha : (s.mem k p).body = .own a) : Answered P cfg k (s.mem k p) a := by
  have h := RemoteQueue.inv_of_run cfg mem registered hrun
  have hm := RemoteQueue.moduleComplete_of_complete h hp (Or.inr (Or.inl hc))
  cases hr : isRemote (cfg.at k) (s.mem k p) with
  | false => exact answered_of_handled hr (handled_of_kept hsrl hrun hkept hp hr hm ha hstate)
  | true =>
    obtain ⟨x, hx, hover⟩ := RemoteQueue.push_isOver h hp hr hm
    obtain ⟨z, a₀, outs, hz, ha₀, hlen, houts, hown⟩ := ((h.task k p).push x hx).outputs h hover
    have hcount : executions cfg k (s.mem k p) = outs.length := by
      rw [executions, if_pos hr, hlen, ← (RemoteQueue.gathers_of_moduleComplete h hp hr hm).copies, List.length_map]
    have hlineage := RemoteQueue.lineage_of_run cfg mem registered hrun hmethods
    have hout : ∀ o ∈ outs, Handled P (s.mem k p).method o := by
      intro o ho
      obtain ⟨j, hj⟩ := List.mem_iff_getElem?.mp ho
      obtain ⟨d, c, hcopy, hend, hb⟩ := houts j o hj
      have hmem := List.mem_of_getElem? hcopy
      obtain ⟨hlt, hlocal, -⟩ := (h.task k p).copies d c hmem
      obtain ⟨htype, hmethod⟩ := hlineage k p d c hmem
      rw [← hmethod hstate]
      refine handled_of_kept hsrl hrun hkept hlt hlocal ((h.node d).ended c hend).2 hb ?_
      rw [htype]
      exact hstate
    rw [ha, Body.own.injEq, hsrl _ hstate, show ((cfg.at k).lib _) = lib P from hlib k _ hstate] at hown
    rw [hown]
    exact answered_of_outputs hP hint hcount hout a₀

variable [DecidableEq A]

theorem finish_of_serves {s : RemoteQueue.State (Fields A) ρ} {k : NodeId} {w : WorkerId} {out : Task (Fields A)}
    (h : serves P states s (.node k (.finish w out)) = true) {r : Running (Fields A)}
    (hr : (s.view k).running w = some r) (hruns : r.mode.runs = true)
    (hstate : states (s.mem k r.task).taskState = true) : out = run P (s.mem k r.task) := by
  have hall : ((s.view k).running w).all _ = true := h
  rw [hr, Option.all_some, hruns, hstate] at hall
  exact of_decide_eq_true hall

theorem thread_of_serves {s : RemoteQueue.State (Fields A) ρ} {k : NodeId} {p : TaskPtr} {out : Task (Fields A)}
    (h : serves P states s (.thread k p out) = true) (hstate : states (s.mem k p).taskState = true) :
    out = run P (s.mem k p) := by
  have heq : (!states (s.mem k p).taskState || decide (out = run P (s.mem k p))) = true := h
  rw [hstate] at heq
  exact of_decide_eq_true heq

theorem kept_of_serves (hP : P.Lawful) {s : RemoteQueue.State (Fields A) ρ} {l : RemoteQueue.Label (Fields A)}
    (h : serves P states s l = true) :
    (contract P states).Kept s l ∧ RemoteQueue.KeepsMethod states s l := by
  have hready {t : Task (Fields A)} (h : (!states t.taskState || serves.starts P t) = true) :
      (contract P states).Ready t := by
    intro _ hstate a ha
    rw [hstate, Bool.not_true, Bool.false_or, serves.starts, ha] at h
    exact startable_of_constructed hP h
  have hother {t out : Task (Fields A)} (hkeeps : RemoteQueue.handlerKeeps t out = true)
      (hholds : (contract P states).Holds t) (hout : states t.taskState = true → out = run P t) :
      (contract P states).Holds out := by
    by_cases hstate : states t.taskState = true
    · rw [hout hstate]
      exact run_holds hP hholds hstate
    · -- nothing is said of the tasks of other libraries
      simp only [RemoteQueue.handlerKeeps, Bool.and_eq_true, decide_eq_true_eq] at hkeeps
      rintro -
      split_ifs
      · intro hstate'
        exact absurd (hkeeps.1.1.1.1.1 ▸ hstate') hstate
      · intro hstate'
        exact absurd (hkeeps.1.1.1.1.1 ▸ hstate') hstate
  cases l with
  | node k i =>
    cases i with
    | emplace dst t => exact ⟨hready h, trivial⟩
    | scan w es => exact ⟨fun e he => hready (List.all_eq_true.mp h e he), trivial⟩
    | finish w out =>
      refine ⟨?_, ?_⟩
      · intro r hr hruns _ hkeeps hholds
        exact hother hkeeps hholds (finish_of_serves h hr hruns)
      · intro r hr hruns hstate
        rw [finish_of_serves h hr hruns hstate]
        exact (run_keeps _).2
    | _ => exact ⟨trivial, trivial⟩
  | thread k p out =>
    refine ⟨fun _ hkeeps hholds => hother hkeeps hholds (thread_of_serves h), ?_⟩
    intro hstate
    rw [thread_of_serves h hstate]
    exact (run_keeps _).2
  | _ => exact ⟨trivial, trivial⟩

theorem answers_of_run (P : PodArray A) (hP : P.Lawful) (int : Unit → Archive.Codec (BitVec 32))
    (hint : ∀ τ x, (int τ).RoundTrips x) (ioRet : BitVec 32)
    (cfg : RemoteQueue.Config (Fields A) (List UInt8) (List UInt8)) (states : TaskStateId → Bool)
    (node : DomainId) (mem : NodeId → TaskPtr → Task (Fields A)) (registered : NodeId → TaskStateId → Bool)
    (labels : List (RemoteQueue.Label (Fields A))) (s : RemoteQueue.State (Fields A) (List UInt8))
    (hsrl : ∀ id, states id = true → cfg.srl id = archived int node (srl P ioRet) (endType P))
    (hlib : ∀ k id, states id = true → (cfg.node k).lib id = lib P)
    (hrun : Runs.run (RemoteQueue.step cfg) (RemoteQueue.boot mem registered) labels = some s)
    (hserves : Along (RemoteQueue.step cfg) (fun s l _ => serves P states s l = true) (RemoteQueue.boot mem registered)
      labels) (k : NodeId) (p : TaskPtr) (hp : p < (s.nodes k).next) (hstate : states (s.mem k p).taskState = true)
    (hc : (s.mem k p).isComplete = true) (a : Fields A) (ha : (s.mem k p).body = .own a) :
    Answered P cfg k (s.mem k p) a := by
  have hkept : Along (RemoteQueue.step cfg) (fun s l _ => (contract P states).Kept s l)
      (RemoteQueue.boot mem registered) labels := by
    apply hserves.mono
    exact fun _ _ _ hs => (kept_of_serves hP hs).1
  have hmethods : Along (RemoteQueue.step cfg) (fun s l _ => RemoteQueue.KeepsMethod states s l)
      (RemoteQueue.boot mem registered) labels := by
    apply hserves.mono
    exact fun _ _ _ hs => (kept_of_serves hP hs).2
  exact answered_of_kept hP hint hsrl hlib hrun hkept hmethods hp hstate hc ha

theorem answers_globalRun : ∃ s, Runs.run (RemoteQueue.step RemoteQueue.archivePair)
      (RemoteQueue.boot (fun _ _ => RemoteQueue.mdTask DomainId.getLocal 0 [])
        (fun _ id => id = ⟨1, 6⟩ ∨ id = ⟨1, 8⟩)) RemoteQueue.globalRun = some s ∧
    Answered listArray RemoteQueue.archivePair 1 (s.mem 1 0) (.md [1, 1]) := by
  have hsome : (Runs.run (RemoteQueue.step RemoteQueue.archivePair)
      (RemoteQueue.boot (fun _ _ => RemoteQueue.mdTask DomainId.getLocal 0 [])
        (fun _ id => id = ⟨1, 6⟩ ∨ id = ⟨1, 8⟩)) RemoteQueue.globalRun).any
      (fun s => 0 < (s.nodes 1).next ∧ (s.mem 1 0).taskState = ⟨1, 8⟩ ∧ (s.mem 1 0).isComplete = true ∧
        (s.mem 1 0).body = .own (.md [1, 1])) = true := by
    decide +kernel
  have hserves : Along (RemoteQueue.step RemoteQueue.archivePair)
      (fun s l _ => serves listArray (fun id => id == ⟨1, 8⟩) s l = true)
      (RemoteQueue.boot (fun _ _ => RemoteQueue.mdTask DomainId.getLocal 0 [])
        (fun _ id => id = ⟨1, 6⟩ ∨ id = ⟨1, 8⟩)) RemoteQueue.globalRun := by
    decide +kernel
  obtain ⟨s, hs, hok⟩ := (Option.any_eq_true _ _).mp hsome
  obtain ⟨hnext, hstate, hcomplete, hbody⟩ := of_decide_eq_true hok
  refine ⟨s, hs, answers_of_run listArray lawful_listArray SmallMessage.int roundTrips_int 0 RemoteQueue.archivePair
    (fun id => id == ⟨1, 8⟩) (DomainId.getNode 1) _ _ RemoteQueue.globalRun s ?_ ?_ hs hserves 1 0 hnext ?_ hcomplete _
    hbody⟩
  · intro id _
    rfl
  · intro k id hid
    rw [beq_iff_eq.mp hid]
    rfl
  · rw [hstate]
    rfl

end Cluster

end SmallMessage

end HermesRun
