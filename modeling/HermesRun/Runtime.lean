import HermesRun.Placement
import HermesRun.Worker.Lanes

/-!
The workers of a node together with the scheduler that gives them their lanes. A worker passes a lane to `PollGrouped`
only when the lane is in its `work_queue_`, and takes over new lanes between two passes.
-/

namespace HermesRun.Runtime

open Poll Runs
open Placement (WorkEntry)
open QueueManager (processQueue)

variable {α : Type}

structure Config (α : Type) where
  poll : Poll.Config α
  placement : Placement.Config

structure State (α : Type) where
  poll : Poll.State α
  placement : Placement.State

inductive Label (α : Type) where
  | poll (i : Poll.Label α)
  | placement (i : Placement.Label)

def State.init (mem : TaskPtr → Task α) (registered : TaskStateId → Bool) (adminInfo : List PriorityInfo)
    (rest : List (QueueId × List PriorityInfo)) : State α :=
  ⟨Poll.State.init mem registered, Placement.State.init adminInfo rest⟩

/-- A queue is where its `unique_` says. -/
def entryOf (l : LaneRef) : WorkEntry := ⟨l.queue.unique, l.prio, l.laneId.toNat⟩

def withOwner (cfg : Poll.Config α) (owner : LaneRef → WorkerId) : Poll.Config α := { cfg with owner := owner }

def poller : Poll.Label α → WorkerId
  | .poll w _ => w
  | _ => 0

def mayPoll (s : State α) : Poll.Label α → Bool
  | .poll w l => entryOf l ∈ (s.placement.workers w).workQueue
  | _ => true

def mayPlace (s : State α) : Placement.Label → Bool
  | .pollQueues w => (s.poll.workers w).cursor.isNone
  | _ => true

def step (cfg : Config α) (s : State α) : Label α → Option (State α)
  | .poll i =>
    if mayPoll s i then
      (Poll.step (withOwner cfg.poll fun _ => poller i) s.poll i).map fun t => { s with poll := t }
    else none
  | .placement i =>
    if mayPlace s i then (Placement.step cfg.placement s.placement i).map fun t => { s with placement := t }
    else none

def polls (labels : List (Label α)) : List (Poll.Label α) :=
  labels.filterMap fun
    | .poll i => some i
    | .placement _ => none

def ownerOf (given : List (ℕ × WorkEntry)) (l : LaneRef) : WorkerId :=
  ((given.find? fun x => x.2 = entryOf l).map (·.1)).getD 0

section Steps

theorem ownerOf_of_mem {given : List (ℕ × WorkEntry)} (hd : (given.map (·.2)).Nodup) {w : WorkerId} {l : LaneRef}
    (h : (w, entryOf l) ∈ given) : ownerOf given l = w := by
  rw [ownerOf]
  cases hf : given.find? fun x => x.2 = entryOf l with
  | none => simpa using List.find?_eq_none.mp hf _ h
  | some x =>
    have hx := List.find?_some hf
    have heq := List.inj_on_of_nodup_map hd (List.mem_of_find?_eq_some hf) h (of_decide_eq_true hx)
    rw [heq]
    rfl

theorem step_withOwner (cfg : Poll.Config α) {o o' : LaneRef → WorkerId} {s : Poll.State α} {i : Poll.Label α}
    (h : ∀ w l, i = .poll w l → (o l = w ↔ o' l = w)) :
    Poll.step (withOwner cfg o) s i = Poll.step (withOwner cfg o') s i := by
  cases i with
  | poll w l =>
    have hsame : ((withOwner cfg o).owner l == w) = ((withOwner cfg o').owner l == w) := by
      rw [Bool.eq_iff_iff, beq_iff_eq, beq_iff_eq]
      exact h w l rfl
    simp only [Poll.step, hsame]
  | _ => rfl

theorem give_given {cfg : Placement.Config} {s t : Placement.State} {w : ℕ} {e : WorkEntry}
    (h : Placement.give cfg s w e = some t) : t.given = s.given ++ [(w, e)] := by
  obtain ⟨-, -, -, -, hgiven, -⟩ := Placement.give_spec h
  exact hgiven

theorem placement_given {cfg : Placement.Config} {s t : Placement.State} {i : Placement.Label}
    (h : Placement.step cfg s i = some t) : s.given <+: t.given := by
  have hgive {s u : Placement.State} {w : ℕ} {e : WorkEntry} (hg : Placement.give cfg s w e = some u) :
      s.given <+: u.given := by
    rw [give_given hg]
    exact List.prefix_append _ _
  cases i with
  | serverInit =>
    obtain ⟨k, -, h⟩ := Option.bind_eq_some_iff.mp h
    obtain ⟨group, -, h⟩ := Option.bind_eq_some_iff.mp h
    split_ifs at h with hk
    · obtain ⟨u, hu, rfl⟩ := Option.map_eq_some_iff.mp h
      show s.given <+: u.given
      exact hgive hu
    · cases h
      exact List.prefix_rfl
  | createQueue id info =>
    obtain ⟨m, -, rfl⟩ := Option.map_eq_some_iff.mp h
    exact List.prefix_rfl
  | schedule =>
    simp only [Placement.step] at h
    split_ifs at h with hb
    generalize s.cursor.getD (.queue 0) = c at h
    cases c with
    | queue q =>
      simp only [Placement.schedule] at h
      split at h
      · cases h
        exact List.prefix_rfl
      · split_ifs at h <;> cases h <;> exact List.prefix_rfl
    | group q g =>
      simp only [Placement.schedule] at h
      split at h <;> cases h <;> exact List.prefix_rfl
    | lane q g k =>
      obtain ⟨group, -, h⟩ := Option.bind_eq_some_iff.mp h
      split_ifs at h with hk hlow
      · obtain ⟨u, hu, rfl⟩ := Option.map_eq_some_iff.mp h
        show s.given <+: u.given
        exact hgive hu
      · obtain ⟨u, hu, rfl⟩ := Option.map_eq_some_iff.mp h
        show s.given <+: u.given
        exact hgive hu
      · cases h
        exact List.prefix_rfl
  | pollQueues w =>
    simp only [Placement.step] at h
    split at h
    · cases h
    · cases h
      exact List.prefix_rfl

end Steps

section Refinement

variable {cfg : Config α}

theorem run_polls (hn : 2 ≤ cfg.placement.numWorkers) {given : List (ℕ × WorkEntry)}
    (hd : (given.map (·.2)).Nodup) {labels : List (Label α)} {s t : State α}
    (hs : Placement.StateInv cfg.placement s.placement) (hrun : run (step cfg) s labels = some t)
    (hgiven : t.placement.given <+: given) :
    s.placement.given <+: given ∧
      run (Poll.step (withOwner cfg.poll (ownerOf given))) s.poll (polls labels) = some t.poll := by
  induction labels generalizing s with
  | nil =>
    cases hrun
    exact ⟨hgiven, rfl⟩
  | cons l labels ih =>
    obtain ⟨u, hu, hrun⟩ := run_cons.mp hrun
    cases l with
    | poll i =>
      obtain ⟨ha, hu⟩ := Option.ite_none_right_eq_some.mp hu
      obtain ⟨v, hv, rfl⟩ := Option.map_eq_some_iff.mp hu
      obtain ⟨hold, hrest⟩ := ih (s := ⟨v, s.placement⟩) hs hrun
      refine ⟨hold, run_cons.mpr ⟨v, ?_, hrest⟩⟩
      rw [← hv]
      apply step_withOwner
      rintro w l rfl
      -- the lane is in the worker's vector, so it has been given to it
      have hmem : entryOf l ∈ (s.placement.workers w).entries := List.mem_append_left _ (of_decide_eq_true ha)
      have hw := Placement.mem_lanesGiven.mp ((hs.inv.entries w).subset hmem)
      exact iff_of_true (ownerOf_of_mem hd (hold.subset hw)) rfl
    | placement i =>
      obtain ⟨-, hu⟩ := Option.ite_none_right_eq_some.mp hu
      obtain ⟨v, hv, rfl⟩ := Option.map_eq_some_iff.mp hu
      obtain ⟨hold, hrest⟩ := ih (Placement.step_stateInv hn hs hv) hrun
      exact ⟨(placement_given hv).trans hold, hrest⟩

theorem placement_of_run (hn : 2 ≤ cfg.placement.numWorkers) {labels : List (Label α)} {s t : State α}
    (hs : Placement.StateInv cfg.placement s.placement) (hrun : run (step cfg) s labels = some t) :
    Placement.StateInv cfg.placement t.placement := by
  refine run_invariant_all (I := fun s => Placement.StateInv cfg.placement s.placement) ?_ hs hrun
  intro s l t hs hst
  cases l with
  | poll i =>
    obtain ⟨-, hst⟩ := Option.ite_none_right_eq_some.mp hst
    obtain ⟨v, -, rfl⟩ := Option.map_eq_some_iff.mp hst
    exact hs
  | placement i =>
    obtain ⟨-, hst⟩ := Option.ite_none_right_eq_some.mp hst
    obtain ⟨v, hv, rfl⟩ := Option.map_eq_some_iff.mp hst
    exact Placement.step_stateInv hn hs hv

variable (cfg) (mem : TaskPtr → Task α) (registered : TaskStateId → Bool) (adminInfo : List PriorityInfo)
  (rest : List (QueueId × List PriorityInfo)) (labels : List (Label α)) (s : State α)

theorem owners_of_run (hn : 2 ≤ cfg.placement.numWorkers)
    (hrun : run (step cfg) (State.init mem registered adminInfo rest) labels = some s) :
    (∀ w l, entryOf l ∈ (s.placement.workers w).entries → ownerOf s.placement.given l = w) ∧
      run (Poll.step (withOwner cfg.poll (ownerOf s.placement.given))) (Poll.State.init mem registered)
        (polls labels) = some s.poll := by
  have hinit := Placement.stateInv_init cfg.placement adminInfo rest
  have hinv := placement_of_run hn (s := State.init mem registered adminInfo rest) hinit hrun
  obtain ⟨-, hpolls⟩ := run_polls hn hinv.inv.distinct (s := State.init mem registered adminInfo rest) hinit hrun
    List.prefix_rfl
  refine ⟨?_, hpolls⟩
  intro w l hl
  exact ownerOf_of_mem hinv.inv.distinct (Placement.mem_lanesGiven.mp ((hinv.inv.entries w).subset hl))

theorem ownerOf_congr (given : List (ℕ × WorkEntry)) {l l' : LaneRef} (h : entryOf l = entryOf l') :
    ownerOf given l = ownerOf given l' := by
  rw [ownerOf, h]
  rfl

theorem polls_of_run (hn : 2 ≤ cfg.placement.numWorkers)
    (hrun : run (step cfg) (State.init mem registered adminInfo rest) labels = some s) :
    ∃ owner : LaneRef → WorkerId, (∀ w l, entryOf l ∈ (s.placement.workers w).entries → owner l = w) ∧
      (∀ l l', entryOf l = entryOf l' → owner l = owner l') ∧
      run (Poll.step (withOwner cfg.poll owner)) (Poll.State.init mem registered) (polls labels) = some s.poll := by
  obtain ⟨howner, hpolls⟩ := owners_of_run cfg mem registered adminInfo rest labels s hn hrun
  exact ⟨ownerOf s.placement.given, howner, fun _ _ heq => ownerOf_congr _ heq, hpolls⟩

def givenRun : List (Label Unit) :=
  let l : LaneRef := ⟨⟨1, 1⟩, TaskPrio.kLowLatency, 0⟩
  List.replicate 2 (.placement .serverInit) ++ List.replicate 18 (.placement .schedule) ++
    [.placement (.pollQueues 1), .poll (.emplace l (pushOf 4 0 0)), .poll (.poll 1 l), .placement (.pollQueues 2),
      .poll (.scan 1 []), .poll (.finish 1 (pushOf 4 0 (taskHasStarted ||| taskModuleComplete))), .poll (.scan 1 [])]

def givenConfig : Config Unit := ⟨bootConfig, Placement.threeWorkers⟩

def givenBoot : State Unit := State.init (fun _ => pushOf 0 0 0) (fun id => id.nodeId == 1 && id.unique < 2)
  [⟨1, 1, 1024, queueUnordered⟩] [(processQueue, [⟨1, 1, 1024, queueUnordered⟩, ⟨1, 1, 1024, queueLongRunning⟩,
    ⟨2, 2, 1024, queueLowLatency⟩])]

theorem polls_givenRun : ∃ s, run (step givenConfig) givenBoot givenRun = some s ∧
    popped ⟨⟨1, 1⟩, TaskPrio.kLowLatency, 0⟩ s.poll.log = [0] ∧ ∃ owner : LaneRef → WorkerId,
      (∀ w l, entryOf l ∈ (s.placement.workers w).entries → owner l = w) ∧
      (∀ l l', entryOf l = entryOf l' → owner l = owner l') ∧
      run (Poll.step (withOwner bootConfig owner)) givenBoot.poll (polls givenRun) = some s.poll := by
  have hsome : (run (step givenConfig) givenBoot givenRun).any
      (fun s => popped ⟨⟨1, 1⟩, TaskPrio.kLowLatency, 0⟩ s.poll.log = [0]) = true := by decide +kernel
  obtain ⟨s, hs, hpop⟩ := (Option.any_eq_true _ _).mp hsome
  exact ⟨s, hs, of_decide_eq_true hpop, polls_of_run givenConfig _ _ _ _ givenRun s (by decide) hs⟩

theorem lanes_of_run (hn : 2 ≤ cfg.placement.numWorkers)
    (hrun : run (step cfg) (State.init mem registered adminInfo rest) labels = some s) :
    LaneHistory s.poll ∧ ∀ w w' c c', (s.poll.workers w).cursor = some c → (s.poll.workers w').cursor = some c' →
      entryOf c.lane = entryOf c'.lane → w = w' := by
  obtain ⟨-, hpolls⟩ := owners_of_run cfg mem registered adminInfo rest labels s hn hrun
  generalize hg : ownerOf s.placement.given = owner at hpolls
  have hinv : ScannedFifo.Inv (withOwner cfg.poll owner).owner s.poll.lanesView := by
    refine run_invariant_all (I := fun t => ScannedFifo.Inv (withOwner cfg.poll owner).owner t.lanesView) ?_ ?_ hpolls
    · intro t i u ht hst
      exact step_lanesInv ht hst
    · exact lanesView_init mem registered
  refine ⟨laneHistory_of_inv hinv, ?_⟩
  intro w w' c c' hc hc' heq
  have hplace {w : WorkerId} {c : Cursor α} (hc : (s.poll.workers w).cursor = some c) : owner c.lane = w :=
    hinv.owned w c.place (by simp [Poll.State.lanesView, hc])
  rw [← hplace hc, ← hplace hc', ← hg, ownerOf_congr _ heq]

theorem lanes_givenRun : ∃ s, run (step givenConfig) givenBoot givenRun = some s ∧ LaneHistory s.poll ∧
    ∀ w w' c c', (s.poll.workers w).cursor = some c → (s.poll.workers w').cursor = some c' →
      entryOf c.lane = entryOf c'.lane → w = w' := by
  have hsome : (run (step givenConfig) givenBoot givenRun).isSome = true := by decide +kernel
  obtain ⟨s, hs⟩ := Option.isSome_iff_exists.mp hsome
  exact ⟨s, hs, lanes_of_run givenConfig _ _ _ _ givenRun s (by decide) hs⟩

end Refinement

end HermesRun.Runtime
