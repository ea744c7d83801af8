import HermesRun.Worker.Lanes

namespace HermesRun.Poll

variable {α : Type}

def admissions (log : List Event) : List Admission :=
  log.filterMap fun
    | .admitted a => some a
    | _ => none

def inProgress (w : WorkerId) (log : List Event) : List Admission :=
  (admissions log).filter fun a => a.worker = w ∧ .release w a.task ∉ log

def Event.isLedger : Event → Bool
  | .admitted _ => true
  | .release _ _ => true
  | .depthZero _ _ => true
  | _ => false

section Log

variable {log evs : List Event} {w : WorkerId}

theorem admissions_append (h : ∀ e ∈ evs, e.isLedger = false) :
    admissions (evs ++ log) = admissions log := by
  have hnil : admissions evs = [] := by
    apply List.filterMap_eq_nil_iff.mpr
    intro e he
    have hl := h e he
    cases e <;> simp_all [Event.isLedger]
  unfold admissions at hnil ⊢
  rw [List.filterMap_append, hnil, List.nil_append]

theorem release_mem_append (h : ∀ e ∈ evs, e.isLedger = false) (p : TaskPtr) :
    .release w p ∈ evs ++ log ↔ .release w p ∈ log := by
  rw [List.mem_append]
  constructor
  · rintro (hr | hr)
    · have hl := h _ hr
      cases hl
    · exact hr
  · exact Or.inr

theorem inProgress_append (h : ∀ e ∈ evs, e.isLedger = false) :
    inProgress w (evs ++ log) = inProgress w log := by
  simp only [inProgress, admissions_append h, release_mem_append h]

theorem inProgress_cons {e : Event} (h : e.isLedger = false) :
    inProgress w (e :: log) = inProgress w log := by
  have hs : ∀ x ∈ [e], x.isLedger = false := by simpa using h
  exact inProgress_append hs

theorem inProgress_admitted {a : Admission} :
    inProgress w (.admitted a :: log) =
      if a.worker = w ∧ .release w a.task ∉ log then a :: inProgress w log else inProgress w log := by
  have hr : ∀ p, .release w p ∈ (.admitted a :: log : List Event) ↔ .release w p ∈ log := by simp
  have ha : admissions (.admitted a :: log) = a :: admissions log := rfl
  unfold inProgress
  rw [ha]
  simp only [hr]
  rw [List.filter_cons]
  simp

theorem inProgress_release {p : TaskPtr} :
    inProgress w (.release w p :: log) = (inProgress w log).filter (fun a => a.task ≠ p) := by
  have hr : ∀ q, .release w q ∈ (.release w p :: log : List Event) ↔ q = p ∨ .release w q ∈ log := by simp
  have ha : admissions (.release w p :: log) = admissions log := rfl
  unfold inProgress
  rw [ha, List.filter_filter]
  apply List.filter_congr
  intro a _
  simp only [hr]
  by_cases h : a.task = p <;> simp [h]

theorem inProgress_release_ne {w' : WorkerId} {p : TaskPtr} (hw : w ≠ w') :
    inProgress w (.release w' p :: log) = inProgress w log := by
  have hr : ∀ q, .release w q ∈ (.release w' p :: log : List Event) ↔ .release w q ∈ log := by simp [hw]
  have ha : admissions (.release w' p :: log) = admissions log := rfl
  unfold inProgress
  rw [ha]
  simp only [hr]

theorem mem_inProgress {a : Admission} :
    a ∈ inProgress w log ↔ a ∈ admissions log ∧ a.worker = w ∧ .release w a.task ∉ log := by
  simp [inProgress]

end Log

variable (cfg : Config α)

def isGrouped (t : Task α) : Bool := !isRemote cfg t && Groups.isOrdered (cfg.lib t.taskState) t

/-- A handler, or any other thread, that leaves alone what the worker's accounting rests on. -/
def keeps (t out : Task α) : Bool :=
  out.taskState = t.taskState && out.taskNode.root = t.taskNode.root && out.domainId = t.domainId &&
    isGrouped cfg out = isGrouped cfg t &&
    (!isGrouped cfg t || out.begun = t.begun && (!out.isModuleComplete || out.begun))

def isFresh (t : Task α) : Bool := !t.begun && !t.isModuleComplete

variable {cfg}

theorem keeps_iff {t out : Task α} : keeps cfg t out = true ↔ out.taskState = t.taskState ∧
    out.taskNode.root = t.taskNode.root ∧ out.domainId = t.domainId ∧ isGrouped cfg out = isGrouped cfg t ∧
    (isGrouped cfg t = true → out.begun = t.begun ∧ (out.isModuleComplete = true → out.begun = true)) := by
  have hb : (!isGrouped cfg t || out.begun = t.begun && (!out.isModuleComplete || out.begun)) = true ↔
      (isGrouped cfg t = true → out.begun = t.begun ∧ (out.isModuleComplete = true → out.begun = true)) := by
    cases isGrouped cfg t <;> cases out.isModuleComplete <;> simp
  simp only [keeps, Bool.and_eq_true, decide_eq_true_eq, hb, and_assoc]

structure Placed (cfg : Config α) (lanes : LaneRef → List LaneData) (mem : TaskPtr → Task α)
    (w : WorkerId) (a : Admission) : Prop where
  waiting : ⟨a.task, false⟩ ∈ lanes a.lane
  owner : cfg.owner a.lane = w
  key : a.key = Groups.laneKey [] a.lane.laneId
  begun : (mem a.task).begun = true
  grouped : isGrouped cfg (mem a.task) = true
  root : (mem a.task).taskNode.root = a.root

structure TasksInv (cfg : Config α) (lanes : LaneRef → List LaneData) (mem : TaskPtr → Task α)
    (next : TaskPtr) (log : List Event) : Prop where
  known : ∀ a ∈ admissions log, a.task < next
  once : ((admissions log).map (·.task)).Nodup
  released : ∀ w p, .release w p ∈ log → .endTask p ∈ log
  placed : ∀ w, ∀ a ∈ inProgress w log, Placed cfg lanes mem w a
  admitted : ∀ l p, ⟨p, false⟩ ∈ lanes l → (mem p).begun = true → isGrouped cfg (mem p) = true →
    ∃ a ∈ inProgress (cfg.owner l) log, a.task = p
  early : ∀ l p, ⟨p, false⟩ ∈ lanes l → isGrouped cfg (mem p) = true →
    (mem p).isModuleComplete = true → (mem p).begun = true

namespace TasksInv

variable {lanes : LaneRef → List LaneData} {mem : TaskPtr → Task α} {next : TaskPtr} {log : List Event}

theorem quiet (h : TasksInv cfg lanes mem next log) {lanes' : LaneRef → List LaneData} {evs : List Event}
    (hl : ∀ l p, ⟨p, false⟩ ∈ lanes' l ↔ ⟨p, false⟩ ∈ lanes l) (he : ∀ e ∈ evs, e.isLedger = false) :
    TasksInv cfg lanes' mem next (evs ++ log) := by
  constructor
  · rw [admissions_append he]
    exact h.known
  · rw [admissions_append he]
    exact h.once
  · intro w p hr
    rw [release_mem_append he] at hr
    exact List.mem_append_right _ (h.released w p hr)
  · intro w a ha
    rw [inProgress_append he] at ha
    exact { h.placed w a ha with waiting := (hl _ _).mpr (h.placed w a ha).waiting }
  · intro l p hp
    rw [hl] at hp
    rw [inProgress_append he]
    exact h.admitted l p hp
  · intro l p hp
    rw [hl] at hp
    exact h.early l p hp

theorem setTask (h : TasksInv cfg lanes mem next log) {p : TaskPtr} {t : Task α}
    (hk : keeps cfg (mem p) t = true) : TasksInv cfg lanes (Function.update mem p t) next log := by
  obtain ⟨-, hroot, -, hgroup, hbegun⟩ := keeps_iff.mp hk
  refine { h with placed := ?_, admitted := ?_, early := ?_ }
  · intro w a hin
    have hpl := h.placed w a hin
    by_cases hp : a.task = p
    · have hg : isGrouped cfg (mem p) = true := hp ▸ hpl.grouped
      refine { hpl with begun := ?_, grouped := ?_, root := ?_ } <;> rw [hp, Function.update_self]
      · rw [(hbegun hg).1]
        exact hp ▸ hpl.begun
      · rw [hgroup, hg]
      · rw [hroot]
        exact hp ▸ hpl.root
    · refine { hpl with begun := ?_, grouped := ?_, root := ?_ } <;> rw [Function.update_of_ne hp]
      · exact hpl.begun
      · exact hpl.grouped
      · exact hpl.root
  · intro l q hq hqb hqg
    by_cases hp : q = p
    · subst hp
      rw [Function.update_self] at hqb hqg
      rw [hgroup] at hqg
      exact h.admitted l q hq ((hbegun hqg).1 ▸ hqb) hqg
    · rw [Function.update_of_ne hp] at hqb hqg
      exact h.admitted l q hq hqb hqg
  · intro l q hq
    by_cases hp : q = p
    · subst hp
      rw [Function.update_self, hgroup]
      intro hg
      exact (hbegun hg).2
    · rw [Function.update_of_ne hp]
      exact h.early l q hq

theorem emplace (h : TasksInv cfg lanes mem next log) {lanes' : LaneRef → List LaneData} {l : LaneRef}
    {t : Task α} {evs : List Event} (hn : ∀ l q, ⟨q, false⟩ ∈ lanes l → q < next)
    (hl : ∀ l' q, ⟨q, false⟩ ∈ lanes' l' ↔ ⟨q, false⟩ ∈ lanes l' ∨ l' = l ∧ q = next)
    (hf : isFresh t = true) (he : ∀ e ∈ evs, e.isLedger = false) :
    TasksInv cfg lanes' (Function.update mem next t) (next + 1) (evs ++ log) := by
  have hf' : t.begun = false ∧ t.isModuleComplete = false := by simpa [isFresh] using hf
  constructor
  · rw [admissions_append he]
    intro a ha
    exact Nat.lt_succ_of_lt (h.known a ha)
  · rw [admissions_append he]
    exact h.once
  · intro w p hr
    rw [release_mem_append he] at hr
    exact List.mem_append_right _ (h.released w p hr)
  · intro w a ha
    rw [inProgress_append he] at ha
    have hpl := h.placed w a ha
    have hne : a.task ≠ next := Nat.ne_of_lt (hn _ _ hpl.waiting)
    refine { hpl with waiting := (hl _ _).mpr (Or.inl hpl.waiting), begun := ?_, grouped := ?_, root := ?_ } <;>
      rw [Function.update_of_ne hne]
    · exact hpl.begun
    · exact hpl.grouped
    · exact hpl.root
  · intro l' q hq hqb hqg
    rw [inProgress_append he]
    rcases (hl l' q).mp hq with hq | ⟨-, rfl⟩
    · rw [Function.update_of_ne (Nat.ne_of_lt (hn _ _ hq))] at hqb hqg
      exact h.admitted l' q hq hqb hqg
    · rw [Function.update_self, hf'.1] at hqb
      cases hqb
  · intro l' q hq hqg hqm
    rcases (hl l' q).mp hq with hq | ⟨-, rfl⟩
    · rw [Function.update_of_ne (Nat.ne_of_lt (hn _ _ hq))] at hqg hqm ⊢
      exact h.early l' q hq hqg hqm
    · rw [Function.update_self, hf'.2] at hqm
      cases hqm

theorem not_admitted (h : TasksInv cfg lanes mem next log) {p : TaskPtr}
    (hb : (mem p).begun = false) (he : .endTask p ∉ log) : ∀ a ∈ admissions log, a.task ≠ p := by
  rintro a ha rfl
  by_cases hr : .release a.worker a.task ∈ log
  · exact he (h.released _ _ hr)
  · have hpl := h.placed a.worker a (mem_inProgress.mpr ⟨ha, rfl, hr⟩)
    rw [hpl.begun] at hb
    cases hb

theorem enter (h : TasksInv cfg lanes mem next log) {a : Admission} {t : Task α}
    (hw : ⟨a.task, false⟩ ∈ lanes a.lane) (hu : ∀ l, ⟨a.task, false⟩ ∈ lanes l → l = a.lane)
    (hn : a.task < next) (he : .endTask a.task ∉ log) (hb : (mem a.task).begun = false)
    (ho : cfg.owner a.lane = a.worker) (hk : a.key = Groups.laneKey [] a.lane.laneId)
    (ht : t.begun = true) (hg : isGrouped cfg t = true) (hr : t.taskNode.root = a.root) :
    TasksInv cfg lanes (Function.update mem a.task t) next (.admitted a :: log) := by
  have hnew := h.not_admitted hb he
  have hnr : .release a.worker a.task ∉ log := fun hr => he (h.released _ _ hr)
  have hin : a ∈ inProgress a.worker (.admitted a :: log) := by
    rw [inProgress_admitted, if_pos ⟨rfl, hnr⟩]
    exact List.mem_cons_self
  have hold : ∀ w, ∀ b ∈ inProgress w log, b ∈ inProgress w (.admitted a :: log) := by
    intro w b hb
    rw [inProgress_admitted]
    split
    · exact List.mem_cons_of_mem _ hb
    · exact hb
  have hcases : ∀ w, ∀ b ∈ inProgress w (.admitted a :: log), b = a ∧ w = a.worker ∨ b ∈ inProgress w log := by
    intro w b hb
    rw [inProgress_admitted] at hb
    split at hb
    · next hc =>
      rcases List.mem_cons.mp hb with rfl | hb
      · exact Or.inl ⟨rfl, hc.1.symm⟩
      · exact Or.inr hb
    · exact Or.inr hb
  constructor
  · intro b hb
    rcases List.mem_cons.mp hb with rfl | hb
    · exact hn
    · exact h.known b hb
  · refine List.nodup_cons.mpr ⟨?_, h.once⟩
    intro hmem
    obtain ⟨b, hb, hbt⟩ := List.mem_map.mp hmem
    exact hnew b hb hbt
  · intro w p hp
    have hp' : .release w p ∈ log := by simpa using hp
    exact List.mem_cons_of_mem _ (h.released w p hp')
  · intro w b hb
    rcases hcases w b hb with ⟨rfl, rfl⟩ | hb
    · refine ⟨hw, ho, hk, ?_, ?_, ?_⟩ <;> rw [Function.update_self]
      · exact ht
      · exact hg
      · exact hr
    · have hpl := h.placed w b hb
      have hne := hnew b (mem_inProgress.mp hb).1
      refine { hpl with begun := ?_, grouped := ?_, root := ?_ } <;> rw [Function.update_of_ne hne]
      · exact hpl.begun
      · exact hpl.grouped
      · exact hpl.root
  · intro l q hq hqb hqg
    by_cases hp : q = a.task
    · subst hp
      rw [hu l hq, ho]
      exact ⟨a, hin, rfl⟩
    · rw [Function.update_of_ne hp] at hqb hqg
      obtain ⟨b, hb, hbq⟩ := h.admitted l q hq hqb hqg
      exact ⟨b, hold _ b hb, hbq⟩
  · intro l q hq
    by_cases hp : q = a.task
    · subst hp
      rw [Function.update_self]
      intro _ _
      exact ht
    · rw [Function.update_of_ne hp]
      exact h.early l q hq

theorem release (h : TasksInv cfg lanes mem next log) {lanes' : LaneRef → List LaneData}
    {mem' : TaskPtr → Task α} {log' : List Event} {w : WorkerId} {p : TaskPtr}
    (hl : ∀ l q, ⟨q, false⟩ ∈ lanes' l ↔ ⟨q, false⟩ ∈ lanes l ∧ q ≠ p)
    (hu : ∀ l, ⟨p, false⟩ ∈ lanes l → cfg.owner l = w) (hm : ∀ q, q ≠ p → mem' q = mem q)
    (ha : admissions log' = admissions log)
    (hr : ∀ w' q, .release w' q ∈ log' ↔ w' = w ∧ q = p ∨ .release w' q ∈ log)
    (he : ∀ q, q = p ∨ .endTask q ∈ log → .endTask q ∈ log') :
    TasksInv cfg lanes' mem' next log' := by
  have hin : ∀ w', ∀ a, a ∈ inProgress w' log' ↔ a ∈ inProgress w' log ∧ ¬(w' = w ∧ a.task = p) := by
    intro w' a
    rw [mem_inProgress, mem_inProgress, ha, hr, not_or]
    tauto
  constructor
  · rw [ha]
    exact h.known
  · rw [ha]
    exact h.once
  · intro w' q hq
    rcases (hr w' q).mp hq with ⟨-, rfl⟩ | hq
    · exact he q (Or.inl rfl)
    · exact he q (Or.inr (h.released w' q hq))
  · intro w' a hin'
    obtain ⟨hold, hne⟩ := (hin w' a).mp hin'
    have hpl := h.placed w' a hold
    have htask : a.task ≠ p := by
      intro hp
      apply hne ⟨_, hp⟩
      rw [← hpl.owner]
      exact hu a.lane (hp ▸ hpl.waiting)
    refine { hpl with waiting := (hl _ _).mpr ⟨hpl.waiting, htask⟩, begun := ?_, grouped := ?_, root := ?_ } <;>
      rw [hm _ htask]
    · exact hpl.begun
    · exact hpl.grouped
    · exact hpl.root
  · intro l q hq hqb hqg
    obtain ⟨hq, hne⟩ := (hl l q).mp hq
    rw [hm q hne] at hqb hqg
    obtain ⟨a, ha', rfl⟩ := h.admitted l q hq hqb hqg
    exact ⟨a, (hin _ a).mpr ⟨ha', fun hc => hne hc.2⟩, rfl⟩
  · intro l q hq hqg hqm
    obtain ⟨hq, hne⟩ := (hl l q).mp hq
    rw [hm q hne] at hqg hqm ⊢
    exact h.early l q hq hqg hqm

end TasksInv

end HermesRun.Poll
