import HermesRun.Admin.Handlers

namespace HermesRun.AdminServer

open Poll
open RemoteQueue (handlerKeeps execute_isComplete execute_isModuleComplete)

variable {β : Type}

def InHandler (s : State β) (p : TaskPtr) : Prop :=
  ∃ w r, s.node.running w = some r ∧ r.task = p ∧ r.mode.runs = true

structure SchedulerOk (cfg : Config β) (s : State β) (i : ℕ) (c : Scheduler β) : Prop where
  request : c.request < s.node.next
  role : role (s.node.mem c.request) = .setWorkOrchPolicy c.kind c.task.taskState
  position : s.position c.request = .installing i
  complete : c.task.isComplete = false
  shm : ∀ q, c.shm = some q → q < s.node.next ∧ AdminServer.role (s.node.mem q) = .schedule ∧
    (s.node.mem q).taskState = c.task.taskState ∧ .enqueue cfg.adminLane q ∈ s.node.log
  live : s.node.tasksView.ended c.request ∨ s.node.halted = true ∨ InHandler s c.request
  unplaced : c.shm = none → InHandler s c.request
  emplaces : ∀ w r, s.node.running w = some r → r.task = c.request → r.mode.runs = true →
    c.shm.isSome = true ∧ r.emplaces = [] ∨ c.shm = none ∧ ∃ x, r.emplaces = [(cfg.adminLane, x)] ∧
      AdminServer.role x = .schedule ∧ x.taskState = c.task.taskState

structure Inv (cfg : Config β) (s : State β) : Prop where
  base : Base cfg s
  scheduler : ∀ (i : ℕ) c, s.schedulers[i]? = some c → SchedulerOk cfg s i c
  earlier : ∀ (i j : ℕ) c d, s.schedulers[i]? = some c → s.schedulers[j]? = some d → c.kind = d.kind → i < j →
    ∃ q, c.shm = some q ∧ (s.node.mem q).isComplete = true
  latest : ∀ (i : ℕ) c, s.schedulers[i]? = some c →
    ∃ j d, s.sched c.kind = some j ∧ s.schedulers[j]? = some d ∧ d.kind = c.kind ∧ i ≤ j
  current : ∀ k j, s.sched k = some j → ∃ d, s.schedulers[j]? = some d ∧ d.kind = k
  installing : ∀ p i, s.position p = .installing i → ∃ c, s.schedulers[i]? = some c ∧ c.request = p
  done : ∀ p k policyId, p < s.node.next → role (s.node.mem p) = .setWorkOrchPolicy k policyId →
    isRemote cfg.poll (s.node.mem p) = false →
    (s.node.mem p).isModuleComplete = true ∨ (s.node.mem p).isComplete = true →
    ∃ (i : ℕ) (c : Scheduler β), s.schedulers[i]? = some c ∧ c.request = p ∧ c.shm.isSome = true
  recorded : ∀ q, q < s.node.next → role (s.node.mem q) = .schedule → ∃ c ∈ s.schedulers, c.shm = some q

def PendingOk (s : State β) : Prop :=
  ∀ w r e, s.node.running w = some r → e ∈ r.emplaces → role e.2 = .schedule →
    r.mode.runs = true ∧ ∃ i, s.position r.task = .installing i

structure Grown (s : State β) (i : Poll.Label (Own β)) (t : Poll.State (Own β)) (c c' : Scheduler β) : Prop where
  kind : c'.kind = c.kind
  request : c'.request = c.request
  taskState : c'.task.taskState = c.task.taskState
  complete : c'.task.isComplete = c.task.isComplete
  shm : c'.shm = c.shm ∧ (∀ w r, i = .put w → s.node.running w = some r → r.task = c.request → r.mode.runs = true →
      t.next = s.node.next) ∨
    ∃ w r, i = .put w ∧ s.node.running w = some r ∧ r.task = c.request ∧ r.mode.runs = true ∧
      s.node.next < t.next ∧ c'.shm = some s.node.next

structure Kept (s : State β) (i : Poll.Label (Own β)) (t : Poll.State (Own β)) (u : State β) : Prop where
  node : NodeAfter { s with node := t } u.node
  back : ∀ (j : ℕ) c', u.schedulers[j]? = some c' → ∃ c, s.schedulers[j]? = some c ∧ Grown s i t c c'
  forth : ∀ (j : ℕ) c, s.schedulers[j]? = some c → ∃ c', u.schedulers[j]? = some c' ∧ Grown s i t c c'
  sched : u.sched = s.sched
  position : ∀ p j, u.position p = .installing j ↔ s.position p = .installing j

section Steps

variable {cfg : Config β} {s : State β} {i : Poll.Label (Own β)} {t : Poll.State (Own β)} {u : State β}

theorem ranTask_idle {r : Running (Own β)} (h : r.mode.runs = false) (x out : Task (Own β)) :
    (ranTask r x out).isModuleComplete = x.isModuleComplete := by
  rcases ranTask_cases r x out with ⟨hruns, -⟩ | ⟨-, heq⟩ | ⟨-, heq⟩
  · rw [h] at hruns
    cases hruns
  · rw [heq]
  · rw [heq]
    simp [Task.setUnordered]

theorem result_installing (s : State β) {p : TaskPtr} {k : Sched} {policyId : TaskStateId} {j : ℕ}
    (hr : role (s.node.mem p) = .setWorkOrchPolicy k policyId) (hp : s.position p = .installing j) :
    result s p = (s.node.mem p).setModuleComplete := by
  obtain ⟨a, hb, ha⟩ : ∃ a, (s.node.mem p).body = .own a ∧ a.role = .setWorkOrchPolicy k policyId := by
    cases hb : (s.node.mem p).body with
    | own a => exact ⟨a, rfl, by rw [← hr, role, hb]⟩
    | push x =>
      rw [role, hb] at hr
      cases hr
  cases a <;> cases ha
  simp only [result, hb, hp]

theorem result_other (s : State β) {p : TaskPtr} {k : Sched} {policyId : TaskStateId}
    (hr : role (s.node.mem p) = .setWorkOrchPolicy k policyId) (hp : ∀ j, s.position p ≠ .installing j) :
    result s p = s.node.mem p := by
  unfold result
  dsimp only
  split
  · next x ret hb _ =>
    rw [role, hb] at hr
    cases hr
  · next k' policyId' j _ hpos => exact absurd hpos (hp j)
  · rfl

theorem finish_installing {w : WorkerId} {out : Task (Own β)} {r : Running (Own β)} {k : Sched}
    {policyId : TaskStateId} {j : ℕ} (h : Ready cfg s (.finish w out) t) (hrun : s.node.running w = some r)
    (hruns : r.mode.runs = true) (hr : role (s.node.mem r.task) = .setWorkOrchPolicy k policyId)
    (hp : s.position r.task = .installing j) : t.tasksView.ended r.task ∨ t.halted = true := by
  have hends := finish_ends h.step hrun
  have hout := h.label r hrun
  rw [if_pos (by rw [hr]; rfl)] at hout
  rw [ranTask_runs hruns, hout, result_installing s hr hp, if_pos (by simp)] at hends
  exact hends.1.symm

theorem SchedulerOk.live_step {j : ℕ} {c : Scheduler β} (hok : SchedulerOk cfg s j c) (h : Ready cfg s i t) :
    t.tasksView.ended c.request ∨ t.halted = true ∨
      ∃ w r, t.running w = some r ∧ r.task = c.request ∧ r.mode.runs = true := by
  rcases hok.live with hend | hhalt | ⟨w, r, hrun, htask, hruns⟩
  · exact Or.inl (h.tasks.ended hend)
  · rw [h.running] at hhalt
    cases hhalt
  · cases h.tasks.runMove hrun with
    | same hr => exact Or.inr (Or.inr ⟨w, r, hr, htask, hruns⟩)
    | put dst x es hi he hr => exact Or.inr (Or.inr ⟨w, _, hr, htask, hruns⟩)
    | block hi hr => exact Or.inr (Or.inr ⟨w, _, hr, htask, hruns⟩)
    | finish out hi he =>
      subst hi
      rcases finish_installing h hrun hruns (by rw [htask]; exact hok.role) (by rw [htask]; exact hok.position) with
        hend | hhalt
      · exact Or.inl (htask ▸ hend)
      · exact Or.inr (Or.inl hhalt)

theorem SchedulerOk.not_idle {j : ℕ} {c : Scheduler β} (hok : SchedulerOk cfg s j c) (h : Ready cfg s i t) :
    ¬s.node.tasksView.Idle c.request := by
  intro hidle
  rcases hok.live with hend | hhalt | ⟨w, r, hrun, htask, -⟩
  · exact hidle.notEnded hend
  · rw [h.running] at hhalt
    cases hhalt
  · exact hidle.free w r hrun htask

theorem NodeAfter.inHandler (hu : NodeAfter { s with node := t } u.node) {p : TaskPtr}
    (h : ∃ w r, t.running w = some r ∧ r.task = p ∧ r.mode.runs = true) : InHandler u p := by
  have hrunning : u.node.running = t.running := hu.running
  unfold InHandler
  rw [hrunning]
  exact h

theorem NodeAfter.halted {s : State β} {u : Poll.State (Own β)} (h : NodeAfter s u) (hs : s.node.halted = true) :
    u.halted = true := by
  cases h with
  | same => exact hs
  | setModuleComplete c q hc hq => exact hs
  | halt => rfl

theorem NodeAfter.ended (hu : NodeAfter { s with node := t } u.node) : u.node.tasksView.ended = t.tasksView.ended := by
  funext p
  show (Event.endTask p ∈ u.node.log) = (.endTask p ∈ t.log)
  rw [hu.log]

theorem Grown.emplaces {c c' : Scheduler β} {j : ℕ} (hg : Grown s i t c c') (hok : SchedulerOk cfg s j c)
    (h : Ready cfg s i t) {w : WorkerId} {r : Running (Own β)} (hrun : t.running w = some r) (htask : r.task = c.request)
    (hruns : r.mode.runs = true) : c'.shm.isSome = true ∧ r.emplaces = [] ∨ c'.shm = none ∧
      ∃ x, r.emplaces = [(cfg.adminLane, x)] ∧ role x = .schedule ∧ x.taskState = c'.task.taskState := by
  -- the worker was in the handler before
  obtain ⟨r₀, hrun₀, htask₀, hruns₀, hfin⟩ : ∃ r₀, s.node.running w = some r₀ ∧ r₀.task = c.request ∧
      r₀.mode.runs = true ∧ (∀ out, i = .finish w out → r = r₀) := by
    cases h.tasks.runOrigin hrun with
    | same hold => exact ⟨r, hold, htask, hruns, fun _ _ => rfl⟩
    | skip es hi hidle hm he =>
      rw [hm] at hruns
      cases hruns
    | start es exec hi hidle hr =>
      rw [htask] at hidle
      exact absurd hidle (hok.not_idle h)
    | put r₀ hi hr₀ ht hm he =>
      refine ⟨r₀, hr₀, by rw [← ht, htask], by rw [← hm, hruns], ?_⟩
      intro out hout
      rw [hi] at hout
      cases hout
  have hold := hok.emplaces w r₀ hrun₀ htask₀ hruns₀
  have hkeep : (i = .put w → t.next = s.node.next) → r.emplaces = r₀.emplaces →
      (c'.shm.isSome = true ∧ r.emplaces = [] ∨ c'.shm = none ∧ ∃ x, r.emplaces = [(cfg.adminLane, x)] ∧
        role x = .schedule ∧ x.taskState = c'.task.taskState) := by
    intro hput he
    have hshm : c'.shm = c.shm := by
      rcases hg.shm with ⟨hsame, -⟩ | ⟨w₁, r₁, hi, hr₁, ht₁, -, hnext, -⟩
      · exact hsame
      · have hw := h.exclusive.unique w w₁ r₀ r₁ hrun₀ hr₁ (by rw [ht₁, htask₀])
        subst hw
        rw [hput hi] at hnext
        exact absurd hnext (Nat.lt_irrefl _)
    rw [hshm, he, hg.taskState]
    exact hold
  cases h.tasks.runMove hrun₀ with
  | same hr hput =>
    have hrr : r = r₀ := by
      rw [show t.tasksView.running w = t.running w from rfl, hrun, Option.some.injEq] at hr
      exact hr
    exact hkeep hput (by rw [hrr])
  | block hi hr hnext =>
    rw [show t.tasksView.running w = t.running w from rfl, hrun, Option.some.injEq] at hr
    exact hkeep (fun _ => hnext) (by rw [hr])
  | finish out hi he =>
    refine hkeep ?_ (by rw [hfin out hi])
    intro hput
    rw [hi] at hput
    cases hput
  | put dst x es hi he hr hnext hm =>
    rw [show t.tasksView.running w = t.running w from rfl, hrun, Option.some.injEq] at hr
    left
    rcases hold with ⟨-, hnil⟩ | ⟨-, x₀, hone, -⟩
    · rw [hnil] at he
      cases he
    · rw [hone, List.cons.injEq] at he
      refine ⟨?_, by rw [hr, he.2]⟩
      rcases hg.shm with ⟨-, hno⟩ | ⟨-, -, -, -, -, -, -, hsome⟩
      · have heq := hno w r₀ hi hrun₀ htask₀ hruns₀
        change t.next = s.node.next + 1 at hnext
        rw [heq] at hnext
        exact absurd hnext (Nat.ne_of_lt (Nat.lt_succ_self _))
      · rw [hsome]
        rfl

theorem Grown.placed {c c' : Scheduler β} {j : ℕ} (hg : Grown s i t c c') (hok : SchedulerOk cfg s j c)
    (h : Ready cfg s i t) {q : TaskPtr} (hq : c'.shm = some q) : q < t.next ∧ role (t.mem q) = .schedule ∧
      (t.mem q).taskState = c.task.taskState ∧ .enqueue cfg.adminLane q ∈ t.log := by
  rcases hg.shm with ⟨hsame, -⟩ | ⟨w, r, rfl, hrun, htask, hruns, hnext, hsome⟩
  · rw [hsame] at hq
    obtain ⟨hlt, hrole, hstate, henq⟩ := hok.shm q hq
    have hkeep := step_same h hlt
    obtain ⟨evs, hlog⟩ := step_log h.step
    refine ⟨Nat.lt_of_lt_of_le hlt h.tasks.next_le, by rw [hkeep.role, hrole], by rw [hkeep.taskState, hstate], ?_⟩
    rw [hlog]
    exact List.mem_append_right _ henq
  · rw [hsome, Option.some.injEq] at hq
    subst hq
    obtain ⟨r', dst, x, es, hrun', he, henq, hm, hsucc⟩ := put_enqueue h.step hnext
    rw [hrun, Option.some.injEq] at hrun'
    subst hrun'
    rcases hok.emplaces w r hrun htask hruns with ⟨-, hnil⟩ | ⟨-, x₀, hone, hrole, hstate⟩
    · rw [hnil] at he
      cases he
    · rw [hone, List.cons.injEq, Prod.mk.injEq] at he
      obtain ⟨⟨rfl, rfl⟩, -⟩ := he
      exact ⟨hnext, by rw [hm, hrole], by rw [hm, hstate], henq⟩

theorem Kept.scheduler (hk : Kept s i t u) (h : Ready cfg s i t) {j : ℕ} {c c' : Scheduler β}
    (hok : SchedulerOk cfg s j c) (hg : Grown s i t c c') : SchedulerOk cfg u j c' := by
  have hu := hk.node
  have hnext : u.node.next = t.next := hu.next
  have hrunning : u.node.running = t.running := hu.running
  have hsame := (step_same h hok.request).trans (hu.task c.request)
  refine ⟨?_, ?_, ?_, by rw [hg.complete, hok.complete], ?_, ?_, ?_, ?_⟩
  · rw [hnext, hg.request]
    exact Nat.lt_of_lt_of_le hok.request h.tasks.next_le
  · rw [hg.request, hsame.role, hok.role, hg.kind, hg.taskState]
  · rw [hg.request, hk.position, hok.position]
  · intro q hq
    obtain ⟨hlt, hrole, hstate, henq⟩ := hg.placed hok h hq
    have htask := hu.task q
    refine ⟨by rw [hnext]; exact hlt, by rw [htask.role]; exact hrole, ?_, by rw [hu.log]; exact henq⟩
    rw [htask.taskState, hg.taskState]
    exact hstate
  · rw [hg.request, hu.ended]
    rcases hok.live_step h with hend | hhalt | hin
    · exact Or.inl hend
    · exact Or.inr (Or.inl (hu.halted hhalt))
    · exact Or.inr (Or.inr (hu.inHandler hin))
  · intro hnone
    rw [hg.request]
    apply hu.inHandler
    rcases hg.shm with ⟨hshm, hno⟩ | ⟨-, -, -, -, -, -, -, hsome⟩
    · rw [hshm] at hnone
      obtain ⟨w, r, hrun, htask, hruns⟩ := hok.unplaced hnone
      cases h.tasks.runMove hrun with
      | same hr => exact ⟨w, r, hr, htask, hruns⟩
      | put dst x es hi he hr hsucc =>
        have heq := hno w r hi hrun htask hruns
        change t.next = s.node.next + 1 at hsucc
        rw [heq] at hsucc
        exact absurd hsucc (Nat.ne_of_lt (Nat.lt_succ_self _))
      | block hi hr => exact ⟨w, _, hr, htask, hruns⟩
      | finish out hi he =>
        rcases hok.emplaces w r hrun htask hruns with ⟨hsome, -⟩ | ⟨-, x, hone, -⟩
        · rw [hnone] at hsome
          cases hsome
        · rw [hone] at he
          cases he
    · rw [hsome] at hnone
      cases hnone
  · rw [hrunning, hg.request]
    intro w r hrun htask hruns
    exact hg.emplaces hok h hrun htask hruns

theorem Grown.shm_some {c c' : Scheduler β} {j : ℕ} (hg : Grown s i t c c') (hok : SchedulerOk cfg s j c)
    (h : Ready cfg s i t) {q : TaskPtr} (hq : c.shm = some q) : c'.shm = some q := by
  rcases hg.shm with ⟨hsame, -⟩ | ⟨w, r, rfl, hrun, htask, hruns, hnext, -⟩
  · rw [hsame, hq]
  · obtain ⟨r', dst, x, es, hrun', he, -⟩ := put_enqueue h.step hnext
    rw [hrun, Option.some.injEq] at hrun'
    subst hrun'
    rcases hok.emplaces w r hrun htask hruns with ⟨-, hnil⟩ | ⟨hnone, -⟩
    · rw [hnil] at he
      cases he
    · rw [hq] at hnone
      cases hnone

theorem Inv.done_step (hinv : Inv cfg s) (h : Ready cfg s i t) {p : TaskPtr} {k : Sched} {policyId : TaskStateId}
    (hp : p < t.next) (hr : role (t.mem p) = .setWorkOrchPolicy k policyId)
    (hlocal : isRemote cfg.poll (t.mem p) = false)
    (hdone : (t.mem p).isModuleComplete = true ∨ (t.mem p).isComplete = true) :
    ∃ (j : ℕ) (c : Scheduler β), s.schedulers[j]? = some c ∧ c.request = p ∧ c.shm.isSome = true := by
  by_cases hlt : p < s.node.next
  · have hsame := step_same h hlt
    have hrole : role (s.node.mem p) = .setWorkOrchPolicy k policyId := by rw [← hsame.role, hr]
    have hloc : isRemote cfg.poll (s.node.mem p) = false := by rw [← hsame.isRemote cfg, hlocal]
    have hold := hinv.done p k policyId hlt hrole hloc
    have hlabel := h.label
    cases h.tasks.move hlt with
    | same hm =>
      rw [show t.mem p = s.node.mem p from hm] at hdone
      exact hold hdone
    | start w es exec hi hidle hrun hm =>
      rw [show t.mem p = _ from hm, execute_isModuleComplete, execute_isComplete] at hdone
      exact hold hdone
    | write x hi hm =>
      subst hi
      obtain ⟨hremote, -⟩ := hlabel.1 (by rw [hrole]; rfl)
      rw [hloc] at hremote
      cases hremote
    | ran w out r hi hrun ht he hm =>
      subst hi ht
      have hran : (ranTask r (s.node.mem r.task) out).isModuleComplete = true ∨
          (ranTask r (s.node.mem r.task) out).isComplete = true := by
        rcases hm with hm | ⟨hmc, -⟩
        · rw [show t.mem r.task = _ from hm] at hdone
          exact hdone
        · exact Or.inl hmc
      rw [hlabel.ranTask_isComplete hrun] at hran
      rcases hran with hmc | hc
      · cases hruns : r.mode.runs with
        | false =>
          rw [ranTask_idle hruns] at hmc
          exact hold (Or.inl hmc)
        | true =>
          have hout := hlabel r hrun
          rw [if_pos (by rw [hrole]; rfl)] at hout
          rw [ranTask_runs hruns, hout] at hmc
          by_cases hpos : ∃ j, s.position r.task = .installing j
          · obtain ⟨j, hj⟩ := hpos
            obtain ⟨c, hc, hreq⟩ := hinv.installing _ _ hj
            rcases (hinv.scheduler j c hc).emplaces w r hrun hreq.symm hruns with ⟨hsome, -⟩ | ⟨-, x, hone, -⟩
            · exact ⟨j, c, hc, hreq, hsome⟩
            · rw [hone] at he
              cases he
          · rw [result_other s hrole (fun j hj => hpos ⟨j, hj⟩)] at hmc
            exact hold (Or.inl hmc)
      · exact hold (Or.inr hc)
  · have hnew := (step_made hinv.base h (Nat.le_of_not_lt hlt) hp).2.1
    rw [hnew.notModuleComplete, hnew.notComplete] at hdone
    rcases hdone with hdone | hdone <;> cases hdone

theorem Inv.recorded_step (hinv : Inv cfg s) (hpend : PendingOk s) (hk : Kept s i t u) (h : Ready cfg s i t)
    {q : TaskPtr} (hq : q < t.next) (hr : role (t.mem q) = .schedule) : ∃ c ∈ u.schedulers, c.shm = some q := by
  by_cases hlt : q < s.node.next
  · rw [(step_same h hlt).role] at hr
    obtain ⟨c, hc, hshm⟩ := hinv.recorded q hlt hr
    obtain ⟨j, hj⟩ := List.mem_iff_getElem?.mp hc
    obtain ⟨c', hc', hg⟩ := hk.forth j c hj
    exact ⟨c', List.mem_of_getElem? hc', hg.shm_some (hinv.scheduler j c hj) h hshm⟩
  · obtain ⟨heq, -, hput⟩ := step_made hinv.base h (Nat.le_of_not_lt hlt) hq
    obtain ⟨w, r, dst, es, hi, hrun, he⟩ := hput hr
    obtain ⟨hruns, j, hj⟩ := hpend w r (dst, t.mem q) hrun (by rw [he]; exact List.mem_cons_self) hr
    obtain ⟨c, hc, hreq⟩ := hinv.installing _ _ hj
    obtain ⟨c', hc', hg⟩ := hk.forth j c hc
    refine ⟨c', List.mem_of_getElem? hc', ?_⟩
    rcases hg.shm with ⟨-, hno⟩ | ⟨-, -, -, -, -, -, -, hsome⟩
    · have hnext := hno w r hi hrun hreq.symm hruns
      rw [heq, hnext] at hq
      exact absurd hq (Nat.lt_irrefl _)
    · rw [hsome, heq]

theorem Kept.inv (hk : Kept s i t u) (hinv : Inv cfg s) (hpend : PendingOk s) (h : Ready cfg s i t)
    (hbase : Base cfg u) : Inv cfg u := by
  have hu := hk.node
  have hnext : u.node.next = t.next := hu.next
  refine ⟨hbase, ?_, ?_, ?_, ?_, ?_, ?_, ?_⟩
  · intro j c' hc'
    obtain ⟨c, hc, hg⟩ := hk.back j c' hc'
    exact hk.scheduler h (hinv.scheduler j c hc) hg
  · intro j₁ j₂ c' d' hc' hd' hkind hlt
    obtain ⟨c, hc, hg⟩ := hk.back j₁ c' hc'
    obtain ⟨d, hd, hg'⟩ := hk.back j₂ d' hd'
    obtain ⟨q, hq, hcomplete⟩ := hinv.earlier j₁ j₂ c d hc hd (by rw [← hg.kind, hkind, hg'.kind]) hlt
    have hok := hinv.scheduler j₁ c hc
    refine ⟨q, hg.shm_some hok h hq, ?_⟩
    rw [hu.isComplete]
    exact (step_same h (hok.shm q hq).1).complete hcomplete
  · intro j c' hc'
    obtain ⟨c, hc, hg⟩ := hk.back j c' hc'
    obtain ⟨j₁, d, hsched, hd, hkind, hle⟩ := hinv.latest j c hc
    obtain ⟨d', hd', hg'⟩ := hk.forth j₁ d hd
    exact ⟨j₁, d', by rw [hk.sched, hg.kind, hsched], hd', by rw [hg'.kind, hkind, hg.kind], hle⟩
  · intro k j hsched
    rw [hk.sched] at hsched
    obtain ⟨d, hd, hkind⟩ := hinv.current k j hsched
    obtain ⟨d', hd', hg⟩ := hk.forth j d hd
    exact ⟨d', hd', by rw [hg.kind, hkind]⟩
  · intro p j hpos
    rw [hk.position] at hpos
    obtain ⟨c, hc, hreq⟩ := hinv.installing p j hpos
    obtain ⟨c', hc', hg⟩ := hk.forth j c hc
    exact ⟨c', hc', by rw [hg.request, hreq]⟩
  · intro p k policyId hp hr hlocal hdone
    rw [hnext] at hp
    have htask := hu.task p
    have hmem : u.node.mem p = t.mem p := by
      rcases hu.mem p with hm | ⟨⟨c', hc', hshm⟩, -⟩
      · exact hm
      · -- a handler sets nothing but schedulers module-complete
        obtain ⟨j, hj⟩ := List.mem_iff_getElem?.mp hc'
        obtain ⟨-, hrole, -⟩ := (hinv.scheduler j c' hj).shm p hshm
        have hsched : role (t.mem p) = .schedule := by
          rw [(step_same h ((hinv.scheduler j c' hj).shm p hshm).1).role, hrole]
        rw [htask.role] at hr
        change role (t.mem p) = _ at hr
        rw [hsched] at hr
        cases hr
    rw [hmem] at hr hlocal hdone
    obtain ⟨j, c, hc, hreq, hsome⟩ := hinv.done_step h hp hr hlocal hdone
    obtain ⟨c', hc', hg⟩ := hk.forth j c hc
    obtain ⟨q, hq⟩ := Option.isSome_iff_exists.mp hsome
    refine ⟨j, c', hc', by rw [hg.request, hreq], ?_⟩
    rw [hg.shm_some (hinv.scheduler j c hc) h hq]
    rfl
  · intro q hq hr
    rw [hnext] at hq
    rw [(hu.task q).role] at hr
    exact hinv.recorded_step hpend hk h hq hr

end Steps

end HermesRun.AdminServer
