import HermesRun.Remote.Received
import HermesRun.Remote.Threads

namespace HermesRun.RemoteQueue.Heap

open Poll Runs

variable {α π ρ : Type}

/-- `kept` are the tasks that their makers have still to free; `deletions` counts the calls of `DelTask` that no worker
makes. `frees` counts the calls that have freed the task, whoever made them; of the others, `lost` has the task state
and the method that its `Del` has no case for. -/
structure State (α ρ : Type) where
  cluster : RemoteQueue.State α ρ
  kept : NodeId → TaskPtr → Bool
  deletions : NodeId → TaskPtr → ℕ
  frees : NodeId → TaskPtr → ℕ
  lost : NodeId → TaskPtr → List (TaskStateId × ℕ)

inductive Label (α : Type) where
  | cluster (l : RemoteQueue.Label α)
  | wait (k : NodeId) (p : TaskPtr)
  | delTask (k : NodeId) (p : TaskPtr)

def State.init (s : RemoteQueue.State α ρ) : State α ρ :=
  ⟨s, fun _ _ => false, fun _ _ => 0, fun _ _ => 0, fun _ _ => []⟩

def State.delcnt (s : State α ρ) (k : NodeId) (p : TaskPtr) : ℕ :=
  (s.cluster.nodes k).log.count (.free p) + s.deletions k p

def keeps (l : RemoteQueue.Label α) (t : Task α) : Bool :=
  match l with
  | .node _ _ => isOwn t && !t.isFireAndForget
  | _ => false

def answers (s : RemoteQueue.State α ρ) : RemoteQueue.Label α → Option (NodeId × TaskPtr)
  | .rpcComplete k p => match s.pushes k p with
    | some ⟨_, i, j, .waiting copy⟩ => i.domainIds[j]?.map fun domain => (domain.id, copy)
    | _ => none
  | _ => none

def answering (s : RemoteQueue.State α ρ) : RemoteQueue.Label α → Option TaskStateId
  | .rpcComplete k p => (s.pushes k p).map fun x => x.info.exec.id
  | _ => none

/-- The calls of `Del` that a step makes for a task: in `EndTask` for its own task state, in `RpcComplete` for that of
the RPC, and in both for the `method_` that it has by then. -/
def delCalls (s t : RemoteQueue.State α ρ) (l : RemoteQueue.Label α) (k : NodeId) (p : TaskPtr) :
    List (TaskStateId × ℕ) :=
  List.replicate ((t.nodes k).log.count (.free p) - (s.nodes k).log.count (.free p))
      ((t.mem k p).taskState, (t.mem k p).method) ++
    if answers s l = some (k, p) then ((answering s l).map fun id => (id, (t.mem k p).method)).toList else []

/-- `dels` has the cases of `Del` in the library of each task state. A client frees its task by its type. -/
def step (cfg : Config α π ρ) (dels : TaskStateId → ℕ → Bool) (s : State α ρ) : Label α → Option (State α ρ)
  | .cluster l => (RemoteQueue.step cfg s.cluster l).map fun t =>
    { cluster := t
      kept := fun k p =>
        if (s.cluster.nodes k).next ≤ p ∧ p < (t.nodes k).next then keeps l (t.mem k p) else s.kept k p
      deletions := fun k p => s.deletions k p + if answers s.cluster l = some (k, p) then 1 else 0
      frees := fun k p => s.frees k p + (delCalls s.cluster t l k p).countP fun e => dels e.1 e.2
      lost := fun k p => s.lost k p ++ (delCalls s.cluster t l k p).filter fun e => !dels e.1 e.2 }
  | .wait k p => if s.kept k p then some s else none
  | .delTask k p =>
    if s.kept k p && (s.cluster.mem k p).isComplete then
      some { s with
        kept := update₂ s.kept k p false
        deletions := update₂ s.deletions k p (s.deletions k p + 1)
        frees := update₂ s.frees k p (s.frees k p + 1) }
    else none

def scanned (s : Poll.State α) (w : WorkerId) : Option TaskPtr :=
  match (s.workers w).cursor with
  | some ⟨l, i, off, none⟩ => if 1024 ≤ i then none else match (s.lanes l)[off]? with
    | some ⟨p, false⟩ => some p
    | _ => none
  | _ => none

/-- The tasks of node `k` that a step of its own dereferences; what `emplace` makes is not shared yet. -/
def touchedAt (s : Poll.State α) : Poll.Label α → List TaskPtr
  | .scan w _ => (scanned s w).toList
  | .put w | .registry w _ | .finish w _ => ((s.running w).map (·.task)).toList
  | .emplace _ _ | .poll _ _ | .write _ _ => []

def touched (s : RemoteQueue.State α ρ) : RemoteQueue.Label α → List (NodeId × TaskPtr)
  | .node k l => (touchedAt (s.nodes k) l).map fun p => (k, p)
  | .thread k p _ => [(k, p)]
  | .start k p | .completePush k p => ((s.pushes k p).map fun x => (k, x.task)).toList
  | .call k p | .rpcExec k p | .output k p | .replicateEnd k p | .completeOrig k p => sending s k p
  | .rpcComplete k p => (answers s (.rpcComplete k p)).toList ++ sending s k p
where
  -- a bulk is moved between the server and the data behind the sender's task
  sending (s : RemoteQueue.State α ρ) (k : NodeId) (p : TaskPtr) : List (NodeId × TaskPtr) :=
    (k, p) :: ((s.pushes k p).map fun x => (k, x.task)).toList

def State.touched (s : State α ρ) : Label α → List (NodeId × TaskPtr)
  | .cluster l => Heap.touched s.cluster l
  | .wait k p | .delTask k p => [(k, p)]

def answered (o : Option (Push ρ)) : ℕ := (o.map Push.answered).getD 0

structure Owned (cfg : Config α π ρ) (s : State α ρ) : Prop where
  tidy : Tidy cfg s.cluster
  unfreed : ∀ k, Unfreed (s.cluster.nodes k)
  kept : ∀ k p, s.kept k p = true → p < (s.cluster.nodes k).next ∧ isOwn (s.cluster.mem k p) = true ∧
    (s.cluster.mem k p).isFireAndForget = false ∧ s.deletions k p = 0
  deleted : ∀ k p, 0 < s.deletions k p → .endTask p ∈ (s.cluster.nodes k).log ∧ isOwn (s.cluster.mem k p) = true ∧
    (s.cluster.mem k p).isFireAndForget = false
  once : ∀ k p, s.deletions k p ≤ 1
  copies : ∀ (k p j : ℕ) d c, (s.cluster.history k p).copies[j]? = some (d, c) → s.kept d c = false ∧
    s.deletions d c = if j < answered (s.cluster.pushes k p) then 1 else 0
  distinct : ∀ k p k' p' e, e ∈ (s.cluster.history k p).copies → e ∈ (s.cluster.history k' p').copies →
    k' = k ∧ p' = p
  owner : ∀ k p, p < (s.cluster.nodes k).next → isOwn (s.cluster.mem k p) = true →
    (s.cluster.mem k p).isFireAndForget = false → s.kept k p = true ∨ s.deletions k p = 1 ∨
      ∃ k' p', (k, p) ∈ (s.cluster.history k' p').copies

section Steps

variable {cfg : Config α π ρ} {s t : RemoteQueue.State α ρ} {l : RemoteQueue.Label α}

structure Lasts (s t : RemoteQueue.State α ρ) (k : NodeId) (p : TaskPtr) : Prop where
  known : p < (t.nodes k).next
  isOwn : isOwn (t.mem k p) = isOwn (s.mem k p)
  isFireAndForget : (t.mem k p).isFireAndForget = (s.mem k p).isFireAndForget
  ended : .endTask p ∈ (s.nodes k).log → .endTask p ∈ (t.nodes k).log

theorem step_lasts (h : Inv cfg s) (hst : RemoteQueue.step cfg s l = some t) {k : NodeId} {p : TaskPtr}
    (hp : p < (s.nodes k).next) : Lasts s t k p := by
  have hmove := step_move h hst k
  obtain ⟨hlt, hown, hend⟩ := hmove.isOwn (h.lanes k) hp
  exact ⟨hlt, hown, hmove.isFireAndForget h hp, hend⟩

theorem answers_rpcComplete (hst : RemoteQueue.step cfg s l = some t) {d : NodeId} {c : TaskPtr}
    (ha : answers s l = some (d, c)) : ∃ k p x, l = .rpcComplete k p ∧ s.pushes k p = some x ∧
      x.phase = .waiting c ∧ (∃ domain, x.info.domainIds[x.replica]? = some domain ∧ domain.id = d) ∧
      (s.mem d c).isComplete = true := by
  cases step_cases cfg hst with
  | rpcComplete k p x domain copy ret hx hp hdom hc hh hret =>
    obtain ⟨q, i, j, phase⟩ := x
    cases hp
    have hdom' : i.domainIds[j]? = some domain := hdom
    rw [answers, hx] at ha
    dsimp only at ha
    rw [hdom', Option.map_some, Option.some.injEq, Prod.mk.injEq] at ha
    obtain ⟨rfl, rfl⟩ := ha
    exact ⟨k, p, _, rfl, hx, rfl, ⟨domain, hdom, rfl⟩, hc⟩
  | _ => cases ha

theorem answers_copy (h : Inv cfg s) (hst : RemoteQueue.step cfg s l = some t) {d : NodeId} {c : TaskPtr}
    (ha : answers s l = some (d, c)) : ∃ k p x, l = .rpcComplete k p ∧ s.pushes k p = some x ∧
      x.phase.isWaiting = true ∧ (s.history k p).copies[x.replica]? = some (d, c) ∧
      .endTask c ∈ (s.nodes d).log := by
  obtain ⟨k, p, x, hl, hx, hp, ⟨domain, hdom, rfl⟩, hc⟩ := answers_rpcComplete hst ha
  have hcopy := ((h.task k p).push x hx).copyAt hp hdom
  have hlt := ((h.task k p).copies _ _ (List.mem_of_getElem? hcopy)).1
  exact ⟨k, p, x, hl, hx, by rw [hp]; rfl, hcopy, (h.node domain.id).complete c hlt hc⟩

theorem answered_waiting {x : Push ρ} (h : x.phase.isWaiting = true) : answered (some x) = x.replica := by
  show x.answered = x.replica
  cases hp : x.phase <;> rw [hp] at h <;> simp [Phase.isWaiting, Push.answered, hp, Phase.isReplied] at h ⊢

theorem answered_le (h : Inv cfg s) (k : NodeId) (p : TaskPtr) :
    answered (s.pushes k p) ≤ (s.history k p).copies.length := by
  cases hx : s.pushes k p with
  | none => exact Nat.zero_le _
  | some x =>
    have hok := (h.task k p).push x hx
    have hlen := congrArg List.length hok.targets
    have hbound := hok.bound
    simp only [List.length_map, List.length_take] at hlen
    show x.answered ≤ _
    rw [hlen, Push.answered]
    cases hp : x.phase with
    | replied ret =>
      have hlt := hok.away (by rw [hp]; rfl)
      simp only [Phase.isReplied, Phase.hasCopy, if_true]
      omega
    | _ =>
      simp only [Phase.isReplied, Phase.hasCopy, if_false, Bool.false_eq_true]
      omega

theorem unanswered_copy (h : Inv cfg s) {k : NodeId} {p : TaskPtr} {j : ℕ} {d : NodeId} {c : TaskPtr}
    (hj : (s.history k p).copies[j]? = some (d, c)) (hans : ¬j < answered (s.pushes k p)) :
    ∃ x, s.pushes k p = some x ∧ x.phase = .waiting c ∧ (s.history k p).copies[x.replica]? = some (d, c) := by
  obtain ⟨hlt, -⟩ := List.getElem?_eq_some_iff.mp hj
  cases hx : s.pushes k p with
  | none =>
    rw [((h.task k p).idle hx).1] at hlt
    cases hlt
  | some x =>
    have hok := (h.task k p).push x hx
    have hlen := congrArg List.length hok.targets
    simp only [List.length_map, List.length_take] at hlen
    rw [hx] at hans
    have hans : ¬j < x.answered := hans
    rw [Push.answered] at hans
    cases hp : x.phase with
    | waiting c' =>
      simp only [hp, Phase.isReplied, Phase.hasCopy, if_true, Bool.false_eq_true, if_false] at hans hlen
      obtain rfl : j = x.replica := by omega
      obtain ⟨d', hcopy⟩ := hok.waiting c' hp
      rw [hj, Option.some.injEq, Prod.mk.injEq] at hcopy
      obtain ⟨-, rfl⟩ := hcopy
      exact ⟨x, rfl, hp, hj⟩
    | _ =>
      simp only [hp, Phase.isReplied, Phase.hasCopy, if_true, Bool.false_eq_true, if_false] at hans hlen
      omega

theorem step_answered (h : Inv cfg s) (hst : RemoteQueue.step cfg s l = some t)
    (hd : ∀ k p k' p' e, e ∈ (s.history k p).copies → e ∈ (s.history k' p').copies → k' = k ∧ p' = p)
    (k : NodeId) (p : TaskPtr) : (∃ e, answers s l = some e ∧
      (s.history k p).copies[answered (s.pushes k p)]? = some e ∧
        answered (t.pushes k p) = answered (s.pushes k p) + 1) ∨
      answered (t.pushes k p) = answered (s.pushes k p) ∧ ∀ e ∈ (s.history k p).copies, answers s l ≠ some e := by
  by_cases hl : l = .rpcComplete k p
  · subst hl
    left
    cases step_cases cfg hst with
    | rpcComplete _ _ x domain copy ret hx hp hdom hc hh hret =>
      have hw : x.phase.isWaiting = true := by rw [hp]; rfl
      have hcopy := ((h.task k p).push x hx).copyAt hp hdom
      refine ⟨(domain.id, copy), ?_, ?_, ?_⟩
      · obtain ⟨q, i, j, phase⟩ := x
        cases hp
        have hdom' : i.domainIds[j]? = some domain := hdom
        rw [answers, hx]
        dsimp only
        rw [hdom', Option.map_some]
      · rw [hx, answered_waiting hw]
        exact hcopy
      · rw [hx, answered_waiting hw]
        show answered (update₂ s.pushes k p _ k p) = _
        rw [update₂_self]
        rfl
  · right
    refine ⟨?_, ?_⟩
    · cases step_push h hst k p with
      | same hp _ => rw [hp]
      | spawn q i _ hs hi =>
        rw [hs, hi]
        rfl
      | own x y hnext hx hy htask hinfo hleft hans =>
        rw [hx, hy]
        cases hw : x.phase.isWaiting with
        | false =>
          rw [hw] at hans
          exact hans
        | true =>
          refine absurd ?_ hl
          rw [hnext, Push.next]
          cases hp : x.phase <;> rw [hp] at hw <;> first | rfl | cases hw
    · rintro ⟨d, c⟩ he ha
      obtain ⟨k', p', x, hl', -, -, hcopy, -⟩ := answers_copy h hst ha
      obtain ⟨rfl, rfl⟩ := hd k p k' p' (d, c) he (List.mem_of_getElem? hcopy)
      exact hl hl'

theorem step_maker (hst : RemoteQueue.step cfg s l = some t) {k : NodeId} {p : TaskPtr}
    (hold : (s.nodes k).next ≤ p) (hp : p < (t.nodes k).next) : (∃ i, l = .node k i) ∨
      ∃ k' p', (k, p) ∈ (t.history k' p').copies := by
  have hno : ¬p < (s.nodes k).next := Nat.not_lt.mpr hold
  have hwrite {k₀ : NodeId} {q : TaskPtr} {x : Task α} {u : RemoteQueue.State α ρ} (hw : s.write cfg k₀ q x = some u) :
      (u.nodes k).next = (s.nodes k).next := by
    obtain ⟨-, -, rfl⟩ := write_spec hw
    by_cases hk : k = k₀
    · subst hk
      rw [nodes_setNode_self]
      rfl
    · rw [nodes_setNode_of_ne _ hk]
  have hhalt (d : NodeId) : ((s.halt d).nodes k).next = (s.nodes k).next := by
    show ((s.halt d).view k).next = _
    rw [view_halt]
    rfl
  cases step_cases cfg hst with
  | node k₀ i _ hw =>
    obtain ⟨u, -, -, hnodes⟩ := nodeStep_nodes hw
    by_cases hk : k = k₀
    · subst hk
      exact Or.inl ⟨i, rfl⟩
    · rw [hnodes, nodes_setNode_of_ne _ hk] at hp
      exact absurd hp hno
  | thread k₀ q out _ hd hr ho hk he hw => exact absurd (hwrite hw ▸ hp) hno
  | fatal k₀ q x hx hph hh => exact absurd (hhalt k₀ ▸ hp) hno
  | rpcFatal k₀ q x domain hx hph hdom hnone => exact absurd (hhalt domain.id ▸ hp) hno
  | rpcExec k₀ q x domain z u hx hph hdom hz hu =>
    right
    have hp : p < ((s.setNode domain.id u).nodes k).next := hp
    by_cases hk : k = domain.id
    · subst hk
      rw [nodes_setNode_self] at hp
      obtain ⟨-, htr⟩ := step_transition hu
      cases htr with
      | emplace l y hroom hyown =>
        rw [Poll.State.emplace_next] at hp
        have heq : p = (s.nodes domain.id).next := Nat.le_antisymm (Nat.le_of_lt_succ hp) hold
        refine ⟨k₀, q, ?_⟩
        show (domain.id, p) ∈ (update₂ s.history k₀ q _ k₀ q).copies
        rw [update₂_self, heq]
        exact List.mem_append_right _ (List.mem_singleton_self _)
    · rw [nodes_setNode_of_ne _ hk] at hp
      exact absurd hp hno
  | output k₀ q x ret u hx hph hw => exact absurd (hwrite hw ▸ (hp : p < (u.nodes k).next)) hno
  | replicateEnd k₀ q x u hx hph hall hw => exact absurd (hwrite hw ▸ (hp : p < (u.nodes k).next)) hno
  | completeOrig k₀ q x u hx hph hw => exact absurd (hwrite hw ▸ (hp : p < (u.nodes k).next)) hno
  | completePush k₀ q x u hx hph hw => exact absurd (hwrite hw ▸ (hp : p < (u.nodes k).next)) hno
  | _ => exact absurd hp hno

theorem step_distinct (h : Inv cfg s) (hst : RemoteQueue.step cfg s l = some t)
    (hs : ∀ k p k' p' e, e ∈ (s.history k p).copies → e ∈ (s.history k' p').copies → k' = k ∧ p' = p)
    (k : NodeId) (p : TaskPtr) (k' : NodeId) (p' : TaskPtr) (e : NodeId × TaskPtr)
    (he : e ∈ (t.history k p).copies) (he' : e ∈ (t.history k' p').copies) : k' = k ∧ p' = p := by
  -- a new copy is not among the old ones
  have hnew {k p} (d : NodeId) : (d, (s.nodes d).next) ∉ (s.history k p).copies :=
    fun hmem => Nat.lt_irrefl _ ((h.task k p).copies _ _ hmem).1
  rcases step_copies hst k p with heq | ⟨d, z, rfl, -, -, -, heq⟩ <;>
    rcases step_copies hst k' p' with heq' | ⟨d', z', hl', -, -, -, heq'⟩
  · rw [heq] at he
    rw [heq'] at he'
    exact hs k p k' p' e he he'
  · rw [heq] at he
    rw [heq'] at he'
    rcases List.mem_append.mp he' with hold | hlast
    · exact hs k p k' p' e he hold
    · rw [List.mem_singleton.mp hlast] at he
      exact absurd he (hnew d')
  · rw [heq] at he
    rw [heq'] at he'
    rcases List.mem_append.mp he with hold | hlast
    · exact hs k p k' p' e hold he'
    · rw [List.mem_singleton.mp hlast] at he'
      exact absurd he' (hnew d)
  · cases hl'
    exact ⟨rfl, rfl⟩

end Steps

section Invariant

variable {cfg : Config α π ρ} {dels : TaskStateId → ℕ → Bool} {s t : State α ρ}

theorem owned_init (mem : NodeId → TaskPtr → Task α) (registered : NodeId → TaskStateId → Bool) :
    Owned cfg (State.init (boot mem registered)) := by
  refine ⟨boot_tidy cfg mem registered, ?_, ?_, ?_, ?_, ?_, ?_, ?_⟩
  · intro k
    refine ⟨⟨?_, ?_⟩, ?_⟩
    · intro q hq
      cases hq
    · intro w r e hr
      cases hr
    · intro q hq
      cases hq
  · intro k p hk
    cases hk
  · intro k p hd
    cases hd
  · intro k p
    exact Nat.zero_le _
  · intro k p j d c hc
    cases hc
  · intro k p k' p' e he
    cases he
  · intro k p hp
    cases hp

theorem Owned.known_of_deleted (h : Owned cfg s) {k : NodeId} {p : TaskPtr} (hd : 0 < s.deletions k p) :
    p < (s.cluster.nodes k).next :=
  ((h.tidy.inv.node k).ended p (h.deleted k p hd).1).1

theorem Owned.answers_free (h : Owned cfg s) {l : RemoteQueue.Label α} {u : RemoteQueue.State α ρ}
    (hu : RemoteQueue.step cfg s.cluster l = some u) {d : NodeId} {c : TaskPtr}
    (ha : answers s.cluster l = some (d, c)) : .endTask c ∈ (s.cluster.nodes d).log ∧
      isOwn (s.cluster.mem d c) = true ∧ (s.cluster.mem d c).isFireAndForget = false ∧ s.kept d c = false ∧
      s.deletions d c = 0 := by
  obtain ⟨k, p, x, rfl, hx, hw, hcopy, hend⟩ := answers_copy h.tidy.inv hu ha
  obtain ⟨hkept, hdel⟩ := h.copies k p x.replica d c hcopy
  have hmem := List.mem_of_getElem? hcopy
  rw [hx, answered_waiting hw, if_neg (Nat.lt_irrefl _)] at hdel
  exact ⟨hend, ((h.tidy.inv.task k p).copies d c hmem).2.2, h.tidy.copies k p d c hmem, hkept, hdel⟩

section Cluster

variable {l : RemoteQueue.Label α}

theorem not_new {n m p : ℕ} (hp : p < n) : ¬(n ≤ p ∧ p < m) := fun hnew => absurd hp (Nat.not_lt.mpr hnew.1)

theorem Owned.cluster_kept (h : Owned cfg s) (hst : step cfg dels s (.cluster l) = some t) {k : NodeId} {p : TaskPtr}
    (hk : t.kept k p = true) : p < (t.cluster.nodes k).next ∧ isOwn (t.cluster.mem k p) = true ∧
      (t.cluster.mem k p).isFireAndForget = false ∧ t.deletions k p = 0 := by
  obtain ⟨u, hu, rfl⟩ := Option.map_eq_some_iff.mp hst
  dsimp only at hk ⊢
  split_ifs at hk with hnew
  · have hflags : isOwn (u.mem k p) = true ∧ (u.mem k p).isFireAndForget = false := by
      cases l <;> simp [keeps] at hk
      exact hk
    refine ⟨hnew.2, hflags.1, hflags.2, ?_⟩
    have hzero : s.deletions k p = 0 := by
      by_contra hd
      exact not_new (h.known_of_deleted (Nat.pos_of_ne_zero hd)) hnew
    rw [hzero, if_neg]
    intro ha
    exact not_new ((h.tidy.inv.node k).ended p (h.answers_free hu ha).1).1 hnew
  · obtain ⟨hlt, hown, hff, hzero⟩ := h.kept k p hk
    have hlasts := step_lasts h.tidy.inv hu hlt
    refine ⟨hlasts.known, hlasts.isOwn.trans hown, hlasts.isFireAndForget.trans hff, ?_⟩
    rw [hzero, if_neg]
    intro ha
    rw [(h.answers_free hu ha).2.2.2.1] at hk
    cases hk

theorem Owned.cluster_deleted (h : Owned cfg s) (hst : step cfg dels s (.cluster l) = some t) {k : NodeId} {p : TaskPtr}
    (hd : 0 < t.deletions k p) : .endTask p ∈ (t.cluster.nodes k).log ∧ isOwn (t.cluster.mem k p) = true ∧
      (t.cluster.mem k p).isFireAndForget = false := by
  obtain ⟨u, hu, rfl⟩ := Option.map_eq_some_iff.mp hst
  dsimp only at hd ⊢
  have hwas : .endTask p ∈ (s.cluster.nodes k).log ∧ isOwn (s.cluster.mem k p) = true ∧
      (s.cluster.mem k p).isFireAndForget = false := by
    by_cases ha : answers s.cluster l = some (k, p)
    · obtain ⟨hend, hown, hff, -⟩ := h.answers_free hu ha
      exact ⟨hend, hown, hff⟩
    · rw [if_neg ha] at hd
      exact h.deleted k p hd
  have hlasts := step_lasts h.tidy.inv hu ((h.tidy.inv.node k).ended p hwas.1).1
  exact ⟨hlasts.ended hwas.1, hlasts.isOwn.trans hwas.2.1, hlasts.isFireAndForget.trans hwas.2.2⟩

theorem Owned.cluster_oldCopies (h : Owned cfg s) (hst : step cfg dels s (.cluster l) = some t) {k p j d c : ℕ}
    (hj : (s.cluster.history k p).copies[j]? = some (d, c)) :
    t.kept d c = false ∧ t.deletions d c = if j < answered (t.cluster.pushes k p) then 1 else 0 := by
  obtain ⟨u, hu, rfl⟩ := Option.map_eq_some_iff.mp hst
  have hinv := h.tidy.inv
  obtain ⟨hkept, hdel⟩ := h.copies k p j d c hj
  have hmem := List.mem_of_getElem? hj
  have hlt : c < (s.cluster.nodes d).next := ((hinv.task k p).copies d c hmem).1
  dsimp only
  rw [if_neg (not_new hlt)]
  refine ⟨hkept, ?_⟩
  rcases step_answered hinv hu h.distinct k p with ⟨e, ha, he, hans⟩ | ⟨hans, hnone⟩
  · rw [ha, hans, hdel]
    by_cases hje : e = (d, c)
    · subst hje
      obtain ⟨hlt, hget⟩ := List.getElem?_eq_some_iff.mp hj
      obtain ⟨hlt', hget'⟩ := List.getElem?_eq_some_iff.mp he
      have heq := (List.Nodup.getElem_inj_iff (hinv.task k p).nodup).mp (hget.trans hget'.symm)
      rw [if_pos rfl, heq, if_neg (Nat.lt_irrefl _), if_pos (Nat.lt_succ_self _)]
    · have hne : j ≠ answered (s.cluster.pushes k p) := by
        rintro rfl
        rw [hj, Option.some.injEq] at he
        exact hje he.symm
      rw [if_neg (fun heq => hje (Option.some.inj heq)), Nat.add_zero]
      exact if_congr (by omega) rfl rfl
  · rw [if_neg (hnone _ hmem), hans, hdel, Nat.add_zero]

theorem Owned.cluster_copies (h : Owned cfg s) (hst : step cfg dels s (.cluster l) = some t) {k p j d c : ℕ}
    (hc : (t.cluster.history k p).copies[j]? = some (d, c)) :
    t.kept d c = false ∧ t.deletions d c = if j < answered (t.cluster.pushes k p) then 1 else 0 := by
  have hold := h.cluster_oldCopies hst (k := k) (p := p) (j := j) (d := d) (c := c)
  obtain ⟨u, hu, rfl⟩ := Option.map_eq_some_iff.mp hst
  dsimp only at hc hold ⊢
  have hinv := h.tidy.inv
  rcases step_copies hu k p with heq | ⟨d', z, rfl, -, -, hnext, heq⟩
  · rw [heq] at hc
    exact hold hc
  · by_cases hj : j < (s.cluster.history k p).copies.length
    · rw [heq, List.getElem?_append_left hj] at hc
      exact hold hc
    · rw [heq, List.getElem?_append_right (Nat.le_of_not_lt hj), List.getElem?_singleton] at hc
      split_ifs at hc with hlast
      rw [Option.some.injEq, Prod.mk.injEq] at hc
      obtain ⟨rfl, rfl⟩ := hc
      have hzero : s.deletions d' (s.cluster.nodes d').next = 0 := by
        by_contra hd
        exact Nat.lt_irrefl _ (h.known_of_deleted (Nat.pos_of_ne_zero hd))
      have hans : answered (u.pushes k p) = answered (s.cluster.pushes k p) := by
        rcases step_answered hinv hu h.distinct k p with ⟨e, ha, -⟩ | ⟨hans, -⟩
        · cases ha
        · exact hans
      have hle := answered_le hinv k p
      refine ⟨?_, ?_⟩
      · rw [if_pos ⟨Nat.le_refl _, hnext⟩]
        rfl
      · rw [hzero, hans, if_neg (by simp [answers]), if_neg (by omega)]

theorem Owned.cluster_owner (h : Owned cfg s) (hst : step cfg dels s (.cluster l) = some t) {k : NodeId} {p : TaskPtr}
    (hp : p < (t.cluster.nodes k).next) (hown : isOwn (t.cluster.mem k p) = true)
    (hff : (t.cluster.mem k p).isFireAndForget = false) : t.kept k p = true ∨ t.deletions k p = 1 ∨
      ∃ k' p', (k, p) ∈ (t.cluster.history k' p').copies := by
  obtain ⟨u, hu, rfl⟩ := Option.map_eq_some_iff.mp hst
  dsimp only at hp hown hff ⊢
  by_cases hlt : p < (s.cluster.nodes k).next
  · rw [if_neg (not_new hlt)]
    have hl := step_lasts h.tidy.inv hu hlt
    rcases h.owner k p hlt (hl.isOwn.symm.trans hown) (hl.isFireAndForget.symm.trans hff) with hk | hd | ⟨k', p', hc⟩
    · exact Or.inl hk
    · refine Or.inr (Or.inl ?_)
      rw [hd, if_neg]
      intro ha
      rw [(h.answers_free hu ha).2.2.2.2] at hd
      cases hd
    · refine Or.inr (Or.inr ⟨k', p', ?_⟩)
      rcases step_copies hu k' p' with heq | ⟨d', z, -, -, -, -, heq⟩
      · rw [heq]
        exact hc
      · rw [heq]
        exact List.mem_append_left _ hc
  · rcases step_maker hu (Nat.le_of_not_lt hlt) hp with ⟨i, rfl⟩ | hc
    · left
      rw [if_pos ⟨Nat.le_of_not_lt hlt, hp⟩, keeps, hown, hff]
      rfl
    · exact Or.inr (Or.inr hc)

theorem Owned.cluster (h : Owned cfg s) (hst : step cfg dels s (.cluster l) = some t) : Owned cfg t := by
  have hinv := h.tidy.inv
  refine ⟨?_, ?_, fun _ _ => h.cluster_kept hst, fun _ _ => h.cluster_deleted hst, ?_,
    fun _ _ _ _ _ => h.cluster_copies hst, ?_, fun _ _ => h.cluster_owner hst⟩
  all_goals obtain ⟨u, hu, rfl⟩ := Option.map_eq_some_iff.mp hst
  · exact h.tidy.step hu
  · intro k
    exact (step_move hinv hu k).unfreed (hinv.lanes k) (h.unfreed k)
  · intro k p
    dsimp only
    by_cases ha : answers s.cluster l = some (k, p)
    · rw [if_pos ha, (h.answers_free hu ha).2.2.2.2]
    · rw [if_neg ha]
      exact h.once k p
  · exact step_distinct hinv hu h.distinct

end Cluster

theorem Owned.delTask (h : Owned cfg s) {k : NodeId} {p : TaskPtr} (hst : step cfg dels s (.delTask k p) = some t) :
    Owned cfg t := by
  simp only [step, Option.ite_none_right_eq_some, Bool.and_eq_true, Option.some.injEq] at hst
  obtain ⟨⟨hk, hc⟩, rfl⟩ := hst
  obtain ⟨hlt, hown, hff, hzero⟩ := h.kept k p hk
  have hend : .endTask p ∈ (s.cluster.nodes k).log := (h.tidy.inv.node k).complete p hlt hc
  have hself {β : Type} (f : NodeId → TaskPtr → β) (x : β) : update₂ f k p x k p = x := update₂_self ..
  have hother {β : Type} (f : NodeId → TaskPtr → β) (x : β) {d q} (hdq : ¬(d = k ∧ q = p)) :
      update₂ f k p x d q = f d q := update₂_of_ne f x hdq
  refine ⟨h.tidy, h.unfreed, ?_, ?_, ?_, ?_, h.distinct, ?_⟩
  · intro d q hkept
    dsimp only at hkept ⊢
    by_cases hdq : d = k ∧ q = p
    · obtain ⟨rfl, rfl⟩ := hdq
      rw [hself] at hkept
      cases hkept
    · rw [hother _ _ hdq] at hkept ⊢
      exact h.kept d q hkept
  · intro d q hd
    dsimp only at hd ⊢
    by_cases hdq : d = k ∧ q = p
    · obtain ⟨rfl, rfl⟩ := hdq
      exact ⟨hend, hown, hff⟩
    · rw [hother _ _ hdq] at hd
      exact h.deleted d q hd
  · intro d q
    dsimp only
    by_cases hdq : d = k ∧ q = p
    · obtain ⟨rfl, rfl⟩ := hdq
      rw [hself, hzero]
    · rw [hother _ _ hdq]
      exact h.once d q
  · intro k' p' j d c hj
    dsimp only at hj ⊢
    obtain ⟨hkept, hdel⟩ := h.copies k' p' j d c hj
    have hdc : ¬(d = k ∧ c = p) := by
      rintro ⟨rfl, rfl⟩
      rw [hkept] at hk
      cases hk
    rw [hother _ _ hdc, hother _ _ hdc]
    exact ⟨hkept, hdel⟩
  · intro d q hq hqown hqff
    dsimp only
    by_cases hdq : d = k ∧ q = p
    · obtain ⟨rfl, rfl⟩ := hdq
      exact Or.inr (Or.inl (by rw [hself, hzero]))
    · rw [hother _ _ hdq, hother _ _ hdq]
      exact h.owner d q hq hqown hqff

theorem Owned.step (h : Owned cfg s) {l : Label α} (hst : step cfg dels s l = some t) : Owned cfg t := by
  cases l with
  | cluster l => exact h.cluster hst
  | wait k p =>
    simp only [Heap.step, Option.ite_none_right_eq_some, Option.some.injEq] at hst
    rw [← hst.2]
    exact h
  | delTask k p => exact h.delTask hst

theorem owned_of_run (cfg : Config α π ρ) {dels : TaskStateId → ℕ → Bool} {mem : NodeId → TaskPtr → Task α}
    {registered : NodeId → TaskStateId → Bool} {labels : List (Label α)}
    (hrun : run (Heap.step cfg dels) (State.init (boot mem registered)) labels = some s) : Owned cfg s :=
  run_invariant_all (fun _ _ _ h hst => Owned.step h hst) (owned_init mem registered) hrun

end Invariant

section Results

variable {cfg : Config α π ρ} {dels : TaskStateId → ℕ → Bool} {s t : State α ρ}

theorem Owned.live (h : Owned cfg s) {k : NodeId} {p : TaskPtr} (hp : .endTask p ∉ (s.cluster.nodes k).log) :
    s.delcnt k p = 0 := by
  have hdel : s.deletions k p = 0 := by
    by_contra hd
    exact hp (h.deleted k p (Nat.pos_of_ne_zero hd)).1
  rw [State.delcnt, hdel, (h.tidy.disposed k).freed p, if_neg (fun hend => hp hend.1)]

theorem Owned.push (h : Owned cfg s) {k : NodeId} {q : TaskPtr} (hq : isOwn (s.cluster.mem k q) = false) :
    s.delcnt k q = 0 := by
  have hdel : s.deletions k q = 0 := by
    by_contra hd
    have hown := (h.deleted k q (Nat.pos_of_ne_zero hd)).2.1
    rw [hq] at hown
    cases hown
  have hfree : .free q ∉ (s.cluster.nodes k).log := by
    intro hfree
    have hown := ((h.unfreed k).freed q hfree).2
    rw [show isOwn ((s.cluster.nodes k).mem q) = false from hq] at hown
    cases hown
  rw [State.delcnt, hdel, List.count_eq_zero_of_not_mem hfree]

theorem Owned.unforgotten (h : Owned cfg s) {k : NodeId} {p : TaskPtr}
    (hff : (s.cluster.mem k p).isFireAndForget = false) : s.delcnt k p = s.deletions k p := by
  have hflag : ¬(.endTask p ∈ (s.cluster.nodes k).log ∧ ((s.cluster.nodes k).mem p).isFireAndForget = true) := by
    rintro ⟨-, htrue⟩
    rw [show ((s.cluster.nodes k).mem p).isFireAndForget = false from hff] at htrue
    cases htrue
  rw [State.delcnt, (h.tidy.disposed k).freed p, if_neg hflag, Nat.zero_add]

theorem Owned.delcnt_le (h : Owned cfg s) (k : NodeId) (p : TaskPtr) : s.delcnt k p ≤ 1 := by
  cases hff : (s.cluster.mem k p).isFireAndForget with
  | false =>
    rw [h.unforgotten hff]
    exact h.once k p
  | true =>
    have hdel : s.deletions k p = 0 := by
      by_contra hd
      rw [(h.deleted k p (Nat.pos_of_ne_zero hd)).2.2] at hff
      cases hff
    rw [State.delcnt, hdel, (h.tidy.disposed k).freed p]
    split_ifs <;> omega

theorem touchedAt_live {cfg : Poll.Config α} {s u : Poll.State α} {i : Poll.Label α}
    (hl : ScannedFifo.Inv cfg.owner s.lanesView) (hst : Poll.step cfg s i = some u) {p : TaskPtr}
    (hp : p ∈ touchedAt s i) : .endTask p ∉ s.log := by
  have hh := (step_transition hst).1
  have hrun {w : WorkerId} (hp : p ∈ ((s.running w).map (·.task)).toList) : .endTask p ∉ s.log := by
    obtain ⟨r, hr, rfl⟩ := Option.map_eq_some_iff.mp (Option.mem_toList.mp hp)
    exact (running_known hl hh hr).2
  cases i with
  | scan w es =>
    have hp := Option.mem_toList.mp hp
    unfold scanned at hp
    split at hp
    · next l i off hc =>
      split_ifs at hp
      split at hp
      · next q hq =>
        cases hp
        exact not_ended hl (List.mem_of_getElem? hq)
      · cases hp
    · cases hp
  | put w | registry w op | finish w out => exact hrun hp
  | emplace l x => cases hp
  | poll w l => cases hp
  | write q x => cases hp

theorem Owned.untouched (h : Owned cfg s) {l : RemoteQueue.Label α} {u : RemoteQueue.State α ρ}
    (hst : RemoteQueue.step cfg s.cluster l = some u) : ∀ e ∈ touched s.cluster l, s.delcnt e.1 e.2 = 0 := by
  have hinv := h.tidy.inv
  have hpush {k p x} (hx : s.cluster.pushes k p = some x) :
      ∀ e ∈ ((s.cluster.pushes k p).map fun x => (k, x.task)).toList, s.delcnt e.1 e.2 = 0 := by
    intro e he
    rw [hx] at he
    obtain rfl := List.mem_singleton.mp he
    apply h.push
    simp [isOwn, ((hinv.task k p).push x hx).info]
  have hboth {k p x} (hx : s.cluster.pushes k p = some x) (hover : x.phase.isOver = false) :
      ∀ e ∈ (k, p) :: ((s.cluster.pushes k p).map fun x => (k, x.task)).toList, s.delcnt e.1 e.2 = 0 := by
    intro e he
    rcases List.mem_cons.mp he with rfl | he
    · have hok := (hinv.task k p).push x hx
      obtain ⟨-, hlt, hr⟩ := hok.remote (hinv.node k)
      have hown := isRemote_local_of_push (hinv.node k) hlt hr
      exact h.live (fun hend => (hok.live hinv hover).2 ⟨hend, hown⟩)
    · exact hpush hx e he
  cases step_cases cfg hst with
  | node k i _ hw =>
    obtain ⟨v, -, hv, -⟩ := nodeStep_nodes hw
    intro e he
    obtain ⟨p, hp, rfl⟩ := List.mem_map.mp he
    exact h.live (touchedAt_live (hinv.lanes k) hv hp)
  | thread k p out _ hd hr ho hk hend hw =>
    intro e he
    obtain rfl := List.mem_singleton.mp he
    exact h.live hend
  | start k p x hx hp hh => exact hpush hx
  | fatal k p x hx hp hh => exact hpush hx
  | call k p x hx hp hj hh => exact hboth hx (by rw [hp]; rfl)
  | rpcFatal k p x domain hx hp hdom hnone => exact hboth hx (by rw [hp]; rfl)
  | rpcExec k p x domain z v hx hp hdom hz hu => exact hboth hx (by rw [hp]; rfl)
  | rpcComplete k p x domain copy ret hx hp hdom hc hh hret =>
    rintro ⟨d, c⟩ he
    rcases List.mem_append.mp he with he | he
    · have ha := Option.mem_toList.mp he
      obtain ⟨k', p', y, hl, hy, hw, hcopy, -⟩ := answers_copy hinv hst ha
      have hmem := List.mem_of_getElem? hcopy
      have hdel := (h.copies k' p' y.replica d c hcopy).2
      rw [hy, answered_waiting hw, if_neg (Nat.lt_irrefl _)] at hdel
      rw [h.unforgotten (h.tidy.copies k' p' d c hmem), hdel]
    · exact hboth hx (by rw [hp]; rfl) _ he
  | output k p x ret v hx hp hw => exact hboth hx (by rw [hp]; rfl)
  | replicateEnd k p x v hx hp hall hw => exact hboth hx (by rw [hp]; rfl)
  | completeOrig k p x v hx hp hw => exact hboth hx (by rw [hp]; rfl)
  | completePush k p x v hx hp hw => exact hpush hx

theorem untouched_of_run (cfg : Config α π ρ) (dels : TaskStateId → ℕ → Bool) (mem : NodeId → TaskPtr → Task α)
    (registered : NodeId → TaskStateId → Bool) (labels : List (Label α)) (s : State α ρ)
    (hrun : run (step cfg dels) (State.init (boot mem registered)) labels = some s) :
    (∀ k p, s.delcnt k p ≤ 1) ∧
      ∀ l t, step cfg dels s l = some t → ∀ e ∈ s.touched l, s.delcnt e.1 e.2 = 0 := by
  have h := owned_of_run cfg hrun
  refine ⟨h.delcnt_le, ?_⟩
  have hkept {k : NodeId} {p : TaskPtr} (hk : s.kept k p = true) :
      ∀ e ∈ [(k, p)], s.delcnt e.1 e.2 = 0 := by
    intro e he
    obtain rfl := List.mem_singleton.mp he
    obtain ⟨-, -, hff, hzero⟩ := h.kept k p hk
    rw [h.unforgotten hff, hzero]
  intro l t hst
  cases l with
  | cluster l =>
    obtain ⟨u, hu, -⟩ := Option.map_eq_some_iff.mp hst
    exact h.untouched hu
  | wait k p =>
    simp only [step, Option.ite_none_right_eq_some] at hst
    exact hkept hst.1
  | delTask k p =>
    simp only [step, Option.ite_none_right_eq_some, Bool.and_eq_true] at hst
    exact hkept hst.1.1

def freedRun : List (Label SmallMessage.ListFields) := globalRun.map .cluster ++ [.wait 1 0, .delTask 1 0]

def pairDels (id : TaskStateId) (method : ℕ) : Bool :=
  ((if id = ⟨1, 6⟩ then Received.Lib.remoteQueue else .smallMessage).dispatch method).isSome

theorem untouched_freedRun : ∃ s, run (step pairConfig pairDels) (State.init (boot
      (fun _ _ => mdTask DomainId.getLocal 0 []) (fun _ id => id = ⟨1, 6⟩ ∨ id = ⟨1, 8⟩))) freedRun = some s ∧
    s.delcnt 1 0 = 1 ∧ (s.cluster.history 1 0).copies.map (fun e => s.delcnt e.1 e.2) = [1, 1] ∧
    (∀ k p, s.delcnt k p ≤ 1) ∧
      ∀ l t, step pairConfig pairDels s l = some t → ∀ e ∈ s.touched l, s.delcnt e.1 e.2 = 0 := by
  have hsome : (run (step pairConfig pairDels) (State.init (boot
      (fun _ _ => mdTask DomainId.getLocal 0 []) (fun _ id => id = ⟨1, 6⟩ ∨ id = ⟨1, 8⟩))) freedRun).any
      (fun s => s.delcnt 1 0 = 1 ∧ (s.cluster.history 1 0).copies.map (fun e => s.delcnt e.1 e.2) = [1, 1]) = true := by
    decide +kernel
  obtain ⟨s, hs, hok⟩ := (Option.any_eq_true _ _).mp hsome
  obtain ⟨hone, hcopies⟩ := of_decide_eq_true hok
  exact ⟨s, hs, hone, hcopies, untouched_of_run pairConfig pairDels _ _ freedRun s hs⟩

end Results

section Counted

variable {cfg : Config α π ρ} {dels : TaskStateId → ℕ → Bool}

structure Counted (dels : TaskStateId → ℕ → Bool) (s : State α ρ) : Prop where
  calls : ∀ k p, s.frees k p + (s.lost k p).length = s.delcnt k p
  lost : ∀ k p, ∀ e ∈ s.lost k p, dels e.1 e.2 = false

theorem counted_init (mem : NodeId → TaskPtr → Task α) (registered : NodeId → TaskStateId → Bool) :
    Counted dels (State.init (boot mem registered) : State α ρ) := by
  refine ⟨fun _ _ => rfl, ?_⟩
  intro k p e he
  cases he

theorem answering_of_answers {s : RemoteQueue.State α ρ} {l : RemoteQueue.Label α} {e : NodeId × TaskPtr}
    (h : answers s l = some e) : ∃ id, answering s l = some id := by
  cases l with
  | rpcComplete k p =>
    rw [answers] at h
    rw [answering]
    cases hx : s.pushes k p with
    | none =>
      rw [hx] at h
      cases h
    | some x => exact ⟨_, rfl⟩
  | _ => cases h

theorem count_free_le {s t : RemoteQueue.State α ρ} {l : RemoteQueue.Label α} (h : Inv cfg s)
    (hst : RemoteQueue.step cfg s l = some t) (k : NodeId) (p : TaskPtr) :
    (s.nodes k).log.count (.free p) ≤ (t.nodes k).log.count (.free p) := by
  have hgrown {i : Poll.Label α} {u : Poll.State α} (hu : Poll.step (cfg.at k) (s.nodes k) i = some u) :
      (s.nodes k).log.count (.free p) ≤ u.log.count (.free p) := by
    obtain ⟨evs, hlog⟩ := step_log hu
    rw [hlog, List.count_append]
    omega
  have hmove := step_move h hst k
  generalize t.nodes k = u at hmove
  cases hmove with
  | same => exact Nat.le_refl _
  | halt => exact Nat.le_refl _
  | step i u hu ha => exact hgrown hu
  | write p x u hu hw => exact hgrown hu

theorem length_delCalls {s t : RemoteQueue.State α ρ} {l : RemoteQueue.Label α} (h : Inv cfg s)
    (hst : RemoteQueue.step cfg s l = some t) (k : NodeId) (p : TaskPtr) :
    (s.nodes k).log.count (.free p) + (delCalls s t l k p).length =
      (t.nodes k).log.count (.free p) + if answers s l = some (k, p) then 1 else 0 := by
  have hle := count_free_le h hst k p
  rw [delCalls, List.length_append, List.length_replicate]
  split_ifs with ha
  · obtain ⟨id, hid⟩ := answering_of_answers ha
    rw [hid]
    simp only [Option.map_some, Option.toList_some, List.length_singleton]
    omega
  · rw [List.length_nil]
    omega

theorem Counted.cluster {s t : State α ρ} {l : RemoteQueue.Label α} (h : Counted dels s) (howned : Owned cfg s)
    (hst : step cfg dels s (.cluster l) = some t) : Counted dels t := by
  obtain ⟨u, hu, rfl⟩ := Option.map_eq_some_iff.mp hst
  refine ⟨?_, ?_⟩
  · intro k p
    have hcalls := h.calls k p
    have hmade := length_delCalls howned.tidy.inv hu k p
    have hsplit := List.length_eq_countP_add_countP (fun e => dels e.1 e.2) (l := delCalls s.cluster u l k p)
    simp only [State.delcnt, List.length_append, List.countP_eq_length_filter, decide_not, Bool.decide_eq_true]
      at hcalls hsplit ⊢
    omega
  · intro k p e he
    rcases List.mem_append.mp he with he | he
    · exact h.lost k p e he
    · simpa using (List.mem_filter.mp he).2

theorem Counted.step {s t : State α ρ} {l : Label α} (h : Counted dels s) (howned : Owned cfg s)
    (hst : step cfg dels s l = some t) : Counted dels t := by
  cases l with
  | cluster l => exact h.cluster howned hst
  | wait k p =>
    simp only [Heap.step, Option.ite_none_right_eq_some, Option.some.injEq] at hst
    rw [← hst.2]
    exact h
  | delTask k p =>
    simp only [Heap.step, Option.ite_none_right_eq_some, Option.some.injEq] at hst
    obtain ⟨-, rfl⟩ := hst
    refine ⟨?_, h.lost⟩
    intro d q
    have hcalls := h.calls d q
    rw [State.delcnt] at hcalls ⊢
    dsimp only
    by_cases hdq : d = k ∧ q = p
    · obtain ⟨rfl, rfl⟩ := hdq
      rw [update₂_self, update₂_self]
      omega
    · rw [update₂_of_ne _ _ hdq, update₂_of_ne _ _ hdq]
      exact hcalls

theorem counted_of_run (cfg : Config α π ρ) {mem : NodeId → TaskPtr → Task α}
    {registered : NodeId → TaskStateId → Bool} {labels : List (Label α)} {s : State α ρ}
    (hrun : run (Heap.step cfg dels) (State.init (boot mem registered)) labels = some s) : Counted dels s :=
  (run_invariant_all (I := fun s => Owned cfg s ∧ Counted dels s)
    (fun _ _ _ h hst => ⟨h.1.step hst, h.2.step h.1 hst⟩)
    ⟨owned_init mem registered, counted_init mem registered⟩ hrun).2

inductive Deleted (dels : TaskStateId → ℕ → Bool) (s : State α ρ) (k : NodeId) (p : TaskPtr) : Prop
  | freed (hf : s.frees k p = 1) (hl : s.lost k p = [])
  | lost (id : TaskStateId) (method : ℕ) (hf : s.frees k p = 0) (hl : s.lost k p = [(id, method)])
      (hd : dels id method = false)

theorem Counted.deleted {s : State α ρ} (h : Counted dels s) {k : NodeId} {p : TaskPtr} (hp : s.delcnt k p = 1) :
    Deleted dels s k p := by
  have hcalls := h.calls k p
  rw [hp] at hcalls
  have hlost := h.lost k p
  cases hl : s.lost k p with
  | nil =>
    rw [hl, List.length_nil] at hcalls
    exact .freed hcalls hl
  | cons e rest =>
    rw [hl, List.length_cons] at hcalls
    obtain rfl := List.eq_nil_of_length_eq_zero (show rest.length = 0 by omega)
    refine .lost e.1 e.2 (by omega) hl (hlost e ?_)
    rw [hl]
    exact List.mem_cons_self

/-- Where the tasks of the handlers and clients are when they have ended: freed once, or lost by a `Del` that has no
case for their method, or kept by their makers, or copies that `RpcComplete` is about to answer. -/
theorem accounted_of_run (cfg : Config α π ρ) (dels : TaskStateId → ℕ → Bool) (mem : NodeId → TaskPtr → Task α)
    (registered : NodeId → TaskStateId → Bool) (labels : List (Label α)) (s : State α ρ)
    (hrun : run (step cfg dels) (State.init (boot mem registered)) labels = some s) (k : NodeId) (p : TaskPtr)
    (hend : .endTask p ∈ (s.cluster.nodes k).log) (hown : isOwn (s.cluster.mem k p) = true) :
    Deleted dels s k p ∨ s.delcnt k p = 0 ∧ (s.kept k p = true ∨
      ∃ k' p' x, s.cluster.pushes k' p' = some x ∧ x.phase = .waiting p ∧
        (s.cluster.history k' p').copies[x.replica]? = some (k, p)) := by
  have h := owned_of_run cfg hrun
  have hcounted := counted_of_run cfg hrun
  have hinv := h.tidy.inv
  cases hff : (s.cluster.mem k p).isFireAndForget with
  | true =>
    left
    apply hcounted.deleted
    have hle := h.delcnt_le k p
    have hfree := (h.tidy.disposed k).freed p
    rw [if_pos ⟨hend, hff⟩] at hfree
    rw [State.delcnt] at hle ⊢
    omega
  | false =>
    have hcalls := h.unforgotten hff
    rcases h.owner k p ((hinv.node k).ended p hend).1 hown hff with hk | hd | ⟨k', p', hc⟩
    · exact Or.inr ⟨hcalls.trans (h.kept k p hk).2.2.2, Or.inl hk⟩
    · exact Or.inl (hcounted.deleted (hcalls.trans hd))
    · obtain ⟨j, hj⟩ := List.mem_iff_getElem?.mp hc
      have hdel := (h.copies k' p' j k p hj).2
      by_cases hlt : j < answered (s.cluster.pushes k' p')
      · rw [if_pos hlt] at hdel
        exact Or.inl (hcounted.deleted (hcalls.trans hdel))
      · rw [if_neg hlt] at hdel
        obtain ⟨x, hx, hphase, hcopy⟩ := unanswered_copy hinv hj hlt
        exact Or.inr ⟨hcalls.trans hdel, Or.inr ⟨k', p', x, hx, hphase, hcopy⟩⟩

theorem accounted_freedRun : ∃ s, run (step pairConfig pairDels) (State.init (boot
      (fun _ _ => mdTask DomainId.getLocal 0 []) (fun _ id => id = ⟨1, 6⟩ ∨ id = ⟨1, 8⟩))) freedRun = some s ∧
    s.frees 2 0 = 1 ∧ (Deleted pairDels s 2 0 ∨ s.delcnt 2 0 = 0 ∧ (s.kept 2 0 = true ∨
      ∃ k' p' x, s.cluster.pushes k' p' = some x ∧ x.phase = .waiting 0 ∧
        (s.cluster.history k' p').copies[x.replica]? = some (2, 0))) := by
  have hsome : (run (step pairConfig pairDels) (State.init (boot
      (fun _ _ => mdTask DomainId.getLocal 0 []) (fun _ id => id = ⟨1, 6⟩ ∨ id = ⟨1, 8⟩))) freedRun).any
      (fun s => .endTask 0 ∈ (s.cluster.nodes 2).log ∧ isOwn (s.cluster.mem 2 0) = true ∧ s.frees 2 0 = 1) = true := by
    decide +kernel
  obtain ⟨s, hs, hok⟩ := (Option.any_eq_true _ _).mp hsome
  obtain ⟨hend, hown, hfrees⟩ := of_decide_eq_true hok
  exact ⟨s, hs, hfrees, accounted_of_run pairConfig pairDels _ _ freedRun s hs 2 0 hend hown⟩

/-- A `Del` without cases loses the copies; the client's own task has its type. -/
example : (run (step pairConfig fun _ _ => false) (State.init (boot
      (fun _ _ => mdTask DomainId.getLocal 0 []) (fun _ id => id = ⟨1, 6⟩ ∨ id = ⟨1, 8⟩))) freedRun).any (fun s =>
    s.frees 2 0 = 0 ∧ s.lost 2 0 = [(⟨1, 8⟩, SmallMessage.Method.kMd)] ∧ s.frees 1 0 = 1) = true := by decide +kernel

end Counted

end HermesRun.RemoteQueue.Heap
