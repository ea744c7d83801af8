import HermesRun.Lib.Runs
import HermesRun.Placement

/-!
The two hand-off queues of one worker. `Run` is taken step by step, so that the calls of other threads can come
between any two pops.
-/

namespace HermesRun.HandOff

open Placement (WorkEntry)

inductive Call where
  | pollQueues (queues : List WorkEntry)
  | relinquishingQueues (queues : List WorkEntry)
  deriving DecidableEq, Repr

inductive Label where
  | call (c : Call)
  | run

/-- Where `Run` is: outside, in the loop of `_PollQueues`, before the size check of `relinquish_queues_`, in the
loop of `_RelinquishQueues`. -/
inductive Phase where
  | idle
  | polling
  | polled
  | relinquishing
  deriving DecidableEq, Repr

structure Worker where
  pollQueues : List (List WorkEntry)
  relinquishQueues : List (List WorkEntry)
  workQueue : List WorkEntry
  phase : Phase
  quiet : Bool
  calls : List Call
  stored : List WorkEntry
  deriving DecidableEq, Repr

def Worker.init : Worker := ⟨[], [], [], .idle, false, [], []⟩

def queueDepth : ℕ := 1024

def emplace (queue : List (List WorkEntry)) (batch : List WorkEntry) : List (List WorkEntry) :=
  if queue.length < queueDepth then queue ++ [batch] else queue

/-- `erase(find(..))` for each entry; to erase at `end()` has no meaning. -/
def eraseEach : List WorkEntry → List WorkEntry → Option (List WorkEntry)
  | [], workQueue => some workQueue
  | entry :: entries, workQueue =>
    if entry ∈ workQueue then eraseEach entries (workQueue.erase entry) else none

def isRelinquishingQueues (w : Worker) : Bool := decide (w.relinquishQueues.length > 0)

def call (w : Worker) : Call → Worker
  | .pollQueues queues => { w with
      pollQueues := emplace w.pollQueues queues
      quiet := false
      calls := w.calls ++ [.pollQueues queues]
      stored := if w.pollQueues.length < queueDepth then w.stored ++ queues else w.stored }
  | .relinquishingQueues queues => { w with
      relinquishQueues := emplace w.relinquishQueues queues
      quiet := false
      calls := w.calls ++ [.relinquishingQueues queues] }

def runStep (w : Worker) : Option Worker :=
  match w.phase with
  | .idle => some { w with quiet := true, phase := if w.pollQueues.length > 0 then .polling else .polled }
  | .polling => match w.pollQueues with
    | [] => some { w with phase := .polled }
    | queues :: rest => some { w with pollQueues := rest, workQueue := w.workQueue ++ queues }
  | .polled => some { w with phase := if w.relinquishQueues.length > 0 then .relinquishing else .idle }
  -- pops `poll_queues_`, as `_PollQueues` does
  | .relinquishing => match w.pollQueues with
    | [] => some { w with phase := .idle }
    | queues :: rest =>
      (eraseEach queues w.workQueue).map fun workQueue => { w with pollQueues := rest, workQueue := workQueue }

def step (w : Worker) : Label → Option Worker
  | .call c => some (call w c)
  | .run => runStep w

def Call.given : Call → List WorkEntry
  | .pollQueues queues => queues
  | .relinquishingQueues _ => []

def Call.isRelinquishing : Call → Bool
  | .pollQueues _ => false
  | .relinquishingQueues _ => true

def assigned (calls : List Call) : WorkEntry → Bool :=
  calls.foldl (fun a c e => match c with
    | .pollQueues queues => a e || decide (e ∈ queues)
    | .relinquishingQueues queues => a e && !decide (e ∈ queues)) (fun _ => false)

structure HandOffOk (w : Worker) : Prop where
  polled : w.pollQueues = []
  relinquished : w.relinquishQueues = []
  workQueue : ∀ e, w.workQueue.count e = if assigned w.calls e then 1 else 0

structure GivenOnce (w : Worker) : Prop where
  kept : ∀ c ∈ w.calls, c.isRelinquishing = false
  once : ∀ e ∈ w.calls.flatMap Call.given, w.stored.count e = 1

structure Inv (w : Worker) : Prop where
  requests : w.relinquishQueues = [] ↔ ∀ c ∈ w.calls, c.isRelinquishing = false
  stored : w.relinquishQueues = [] → w.stored = w.workQueue ++ w.pollQueues.flatten
  phase : w.relinquishQueues = [] → w.phase ≠ .relinquishing
  drained : w.relinquishQueues = [] → w.quiet = true → w.phase = .idle ∨ w.phase = .polled → w.pollQueues = []
  given : ∀ e ∈ w.stored, e ∈ w.calls.flatMap Call.given

variable {w w' : Worker}

theorem emplace_ne_nil (queue : List (List WorkEntry)) (batch : List WorkEntry) : emplace queue batch ≠ [] := by
  unfold emplace
  split_ifs with h
  · simp
  · intro hnil
    rw [hnil] at h
    exact h (by decide)

theorem inv_init : Inv Worker.init where
  requests := by simp [Worker.init]
  stored _ := rfl
  phase _ := by simp [Worker.init]
  drained _ h := by simp [Worker.init] at h
  given := by simp [Worker.init]

theorem inv_call (h : Inv w) (c : Call) : Inv (call w c) := by
  cases c with
  | pollQueues queues =>
    refine ⟨?_, ?_, h.phase, ?_, ?_⟩
    · simpa [call, or_imp, forall_and, Call.isRelinquishing] using h.requests
    · intro hnone
      have hstored := h.stored hnone
      simp only [call, emplace]
      split_ifs
      · rw [hstored]
        simp
      · exact hstored
    · intro _ hquiet
      cases hquiet
    · intro e he
      simp only [call, List.flatMap_append, List.mem_append] at he ⊢
      split_ifs at he
      · rcases List.mem_append.mp he with he | he
        · exact Or.inl (h.given e he)
        · exact Or.inr (by simpa [Call.given] using he)
      · exact Or.inl (h.given e he)
  | relinquishingQueues queues =>
    have hsome : emplace w.relinquishQueues queues ≠ [] := emplace_ne_nil _ _
    refine ⟨?_, fun hnone => absurd hnone hsome, fun hnone => absurd hnone hsome,
      fun hnone => absurd hnone hsome, ?_⟩
    · constructor
      · intro hnone
        exact absurd hnone hsome
      · intro hall
        have hlast := hall (.relinquishingQueues queues) (by simp [call])
        cases hlast
    · intro e he
      simp only [call, List.flatMap_append, List.mem_append]
      exact Or.inl (h.given e he)

theorem inv_run (h : Inv w) (hstep : runStep w = some w') : Inv w' := by
  unfold runStep at hstep
  split at hstep
  · cases hstep
    refine { h with phase := ?_, drained := ?_ }
    · intro _
      dsimp only
      split_ifs <;> simp
    · intro _ _ hphase
      dsimp only at hphase ⊢
      split_ifs at hphase with hlen
      · simp at hphase
      · exact List.eq_nil_of_length_eq_zero (by omega)
  · rename_i hphase
    split at hstep
    · rename_i hnil
      cases hstep
      exact { h with phase := fun _ => by simp, drained := fun _ _ _ => hnil }
    · rename_i queues rest hcons
      cases hstep
      refine { h with stored := ?_, drained := ?_ }
      · intro hnone
        rw [h.stored hnone, hcons]
        simp
      · intro _ _ hidle
        rw [show w.phase = .polling from hphase] at hidle
        simp at hidle
  · rename_i hphase
    cases hstep
    refine { h with phase := ?_, drained := ?_ }
    · intro hnone
      dsimp only at hnone ⊢
      simp [hnone]
    · intro hnone hquiet _
      exact h.drained hnone hquiet (Or.inr hphase)
  · rename_i hphase
    have hsome : w.relinquishQueues ≠ [] := fun hnone => h.phase hnone hphase
    split at hstep
    · cases hstep
      exact ⟨h.requests, fun hnone => absurd hnone hsome, fun hnone => absurd hnone hsome,
        fun hnone => absurd hnone hsome, h.given⟩
    · obtain ⟨workQueue, -, rfl⟩ := Option.map_eq_some_iff.mp hstep
      exact ⟨h.requests, fun hnone => absurd hnone hsome, fun hnone => absurd hnone hsome,
        fun hnone => absurd hnone hsome, h.given⟩

theorem step_inv {l : Label} (h : Inv w) (hstep : step w l = some w') : Inv w' := by
  cases l with
  | call c =>
    cases hstep
    exact inv_call h c
  | run => exact inv_run h hstep

theorem assigned_append (calls : List Call) (queues : List WorkEntry) (e : WorkEntry) :
    assigned (calls ++ [.pollQueues queues]) e = (assigned calls e || decide (e ∈ queues)) := by
  simp [assigned]

theorem assigned_eq_given {calls : List Call} (h : ∀ c ∈ calls, c.isRelinquishing = false) (e : WorkEntry) :
    assigned calls e = decide (e ∈ calls.flatMap Call.given) := by
  induction calls using List.reverseRecOn with
  | nil => simp [assigned]
  | append_singleton calls c ih =>
    have ih := ih fun c' hc' => h c' (List.mem_append_left _ hc')
    cases c with
    | pollQueues queues =>
      rw [assigned_append, ih]
      simp [Call.given]
    | relinquishingQueues queues =>
      have hlast := h (.relinquishingQueues queues) (by simp)
      cases hlast

theorem handOffOk_iff_givenOnce (h : Inv w) (hidle : w.phase = .idle) (hquiet : w.quiet = true) :
    HandOffOk w ↔ GivenOnce w := by
  constructor
  · intro hok
    have hkept := h.requests.mp hok.relinquished
    have hstored := h.stored hok.relinquished
    rw [hok.polled, List.flatten_nil, List.append_nil] at hstored
    refine ⟨hkept, ?_⟩
    intro e he
    rw [hstored, hok.workQueue e, assigned_eq_given hkept, if_pos (decide_eq_true he)]
  · intro honce
    have hnone := h.requests.mpr honce.kept
    have hpolled := h.drained hnone hquiet (Or.inl hidle)
    have hstored := h.stored hnone
    rw [hpolled, List.flatten_nil, List.append_nil] at hstored
    refine ⟨hpolled, hnone, ?_⟩
    intro e
    rw [← hstored, assigned_eq_given honce.kept]
    by_cases he : e ∈ w.calls.flatMap Call.given
    · rw [if_pos (decide_eq_true he), honce.once e he]
    · rw [if_neg (by simpa using he)]
      exact List.count_eq_zero.mpr fun hmem => he (h.given e hmem)

theorem polling_ends (hphase : w.phase = .polling) :
    ∃ w', Runs.run step w (List.replicate (w.pollQueues.length + 1) .run) = some w' ∧ w'.phase = .polled ∧
      w'.quiet = w.quiet ∧ w'.relinquishQueues = w.relinquishQueues := by
  generalize hn : w.pollQueues.length = n
  induction n generalizing w with
  | zero =>
    have hnil := List.eq_nil_of_length_eq_zero hn
    exact ⟨{ w with phase := .polled }, by simp [Runs.run, step, runStep, hphase, hnil], rfl, rfl, rfl⟩
  | succ n ih =>
    -- one pass of the loop takes one batch over
    obtain ⟨queues, rest, hcons⟩ := List.exists_cons_of_length_eq_add_one hn
    have hrest : rest.length = n := by
      rw [hcons, List.length_cons] at hn
      omega
    obtain ⟨w', hw', hend⟩ := ih (w := { w with pollQueues := rest, workQueue := w.workQueue ++ queues })
      hphase hrest
    refine ⟨w', ?_, hend⟩
    rw [List.replicate_succ, Runs.run_cons]
    exact ⟨_, by simp only [step, runStep, hphase, hcons], hw'⟩

theorem run_returns (hidle : w.phase = .idle) (hnone : w.relinquishQueues = []) :
    ∃ n w', Runs.run step w (List.replicate (n + 1) .run) = some w' ∧ w'.phase = .idle ∧ w'.quiet = true := by
  have hend : ∀ w : Worker, w.phase = .polled → w.relinquishQueues = [] → w.quiet = true →
      ∃ w', step w .run = some w' ∧ w'.phase = .idle ∧ w'.quiet = true := by
    intro w hphase hnone hquiet
    exact ⟨{ w with phase := .idle }, by simp [step, runStep, hphase, hnone], rfl, hquiet⟩
  have hstart : step w .run =
      some { w with quiet := true, phase := if w.pollQueues.length > 0 then .polling else .polled } := by
    simp only [step, runStep, hidle]
  by_cases hlen : w.pollQueues.length > 0
  · rw [if_pos hlen] at hstart
    obtain ⟨u, hu, huphase, huquiet, hunone⟩ := polling_ends
      (w := { w with quiet := true, phase := .polling }) rfl
    obtain ⟨v, hv, hvidle, hvquiet⟩ := hend u huphase (hunone.trans hnone) huquiet
    refine ⟨w.pollQueues.length + 2, v, ?_, hvidle, hvquiet⟩
    rw [List.replicate_succ, Runs.run_cons]
    refine ⟨_, hstart, ?_⟩
    rw [List.replicate_succ', Runs.run_append, hu, Option.bind_some, Runs.run_cons]
    exact ⟨v, hv, rfl⟩
  · rw [if_neg hlen] at hstart
    obtain ⟨v, hv, hvidle, hvquiet⟩ := hend { w with quiet := true, phase := .polled } rfl hnone rfl
    refine ⟨1, v, ?_, hvidle, hvquiet⟩
    rw [List.replicate_succ, Runs.run_cons]
    refine ⟨_, hstart, ?_⟩
    rw [List.replicate_one, Runs.run_cons]
    exact ⟨v, hv, rfl⟩

theorem handOffOk_of_run (labels : List Label) (w : Worker) (hrun : Runs.run step Worker.init labels = some w)
    (hidle : w.phase = .idle) :
    (w.quiet = true → (HandOffOk w ↔ GivenOnce w)) ∧
      (GivenOnce w → ∃ n w', Runs.run step w (List.replicate (n + 1) .run) = some w' ∧ w'.phase = .idle ∧
        w'.quiet = true) := by
  have hinv := Runs.run_invariant_all (I := Inv) (fun _ _ _ h hstep => step_inv h hstep) inv_init hrun
  refine ⟨handOffOk_iff_givenOnce hinv hidle, ?_⟩
  intro honce
  exact run_returns hidle (hinv.requests.mpr honce.kept)

def twoLanes : List WorkEntry := [⟨1, 0, 0⟩, ⟨1, 2, 0⟩]

theorem handOffOk_twoLanes : ∃ w, Runs.run step Worker.init (.call (.pollQueues twoLanes) ::
    List.replicate 4 .run) = some w ∧ w.phase = .idle ∧ w.quiet = true ∧ HandOffOk w := by
  refine ⟨⟨[], [], twoLanes, .idle, true, [.pollQueues twoLanes], twoLanes⟩, by decide, rfl, rfl, ?_⟩
  apply ((handOffOk_of_run (.call (.pollQueues twoLanes) :: List.replicate 4 .run) _ (by decide) rfl).1 rfl).mpr
  exact ⟨by decide, by decide⟩

theorem handOffOk_relinquished : ∃ w, Runs.run step Worker.init (.call (.pollQueues twoLanes) ::
    List.replicate 4 .run ++ .call (.relinquishingQueues [⟨1, 2, 0⟩]) :: List.replicate 3 .run) = some w ∧
    w.phase = .idle ∧ w.quiet = true ∧ isRelinquishingQueues w = true ∧ (⟨1, 2, 0⟩ : WorkEntry) ∈ w.workQueue ∧
    ¬HandOffOk w := by
  refine ⟨⟨[], [[⟨1, 2, 0⟩]], twoLanes, .idle, true,
    [.pollQueues twoLanes, .relinquishingQueues [⟨1, 2, 0⟩]], twoLanes⟩, by decide, rfl, rfl, rfl, by decide, ?_⟩
  intro hok
  cases hok.relinquished

end HermesRun.HandOff
