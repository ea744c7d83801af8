import HermesRun.Remote.Copies

namespace HermesRun.RemoteQueue

open Poll

variable {α π ρ : Type}

/-- What other threads than the workers write to the tasks of node `d`: a preemptive handler to its own task, a
push to the task it was made for and, at its end, to itself. -/
inductive ThreadWrite (cfg : Config α π ρ) (s : State α ρ) (d : NodeId) : TaskPtr → Task α → Prop
  | handler (p : TaskPtr) (out : Task α) (hd : (s.mem d p).isRunDisabled = true)
      (hr : isRemote (cfg.at d) (s.mem d p) = false) (hk : handlerKeeps (s.mem d p) out = true) :
      ThreadWrite cfg s d p out
  | fields (p : TaskPtr) (f : α → α) : ThreadWrite cfg s d p (mapOwn f (s.mem d p))
  | complete (p : TaskPtr) (x : Push ρ) (hx : s.pushes d p = some x) :
      ThreadWrite cfg s d p (s.mem d p).setModuleComplete
  | completePush (p : TaskPtr) (x : Push ρ) (hx : s.pushes d p = some x) :
      ThreadWrite cfg s d x.task (s.mem d x.task).setModuleComplete

inductive NodeMove (cfg : Config α π ρ) (s : State α ρ) (l : Label α) (d : NodeId) : Poll.State α → Prop
  | same : NodeMove cfg s l d (s.nodes d)
  | halt : NodeMove cfg s l d { s.nodes d with halted := true }
  | step (i : Poll.Label α) (u : Poll.State α) (hst : Poll.step (cfg.at d) (s.nodes d) i = some u)
      (ha : allowed (s.view d) i = true) (hl : ∀ w es, i = .scan w es → l = .node d i) : NodeMove cfg s l d u
  | write (p : TaskPtr) (x : Task α) (u : Poll.State α)
      (hst : Poll.step (cfg.at d) (s.nodes d) (.write p x) = some u) (hw : ThreadWrite cfg s d p x) :
      NodeMove cfg s l d u

variable {cfg : Config α π ρ} {s t : State α ρ} {l : Label α}

theorem nodeMove_setNode {k d : NodeId} {u : Poll.State α} (hs : s.nodes = t.nodes) (hu : NodeMove cfg s l k u) :
    NodeMove cfg s l d ((t.setNode k u).nodes d) := by
  by_cases hd : d = k
  · subst hd
    rw [nodes_setNode_self]
    exact hu
  · rw [nodes_setNode_of_ne u hd, ← hs]
    exact .same

theorem nodeMove_write {k d : NodeId} {p : TaskPtr} {x : Task α} (h : s.write cfg k p x = some t)
    (hw : ThreadWrite cfg s k p x) : NodeMove cfg s l d (t.nodes d) := by
  obtain ⟨u, hu, rfl⟩ := Option.map_eq_some_iff.mp h
  exact nodeMove_setNode rfl (.write p x u hu hw)

theorem begin_nodes (s : State α ρ) (k : NodeId) (r : Running α) : (s.begin k r).nodes = s.nodes := by
  unfold State.begin
  split
  · rfl
  · rfl
  · dsimp only
    split <;> rfl
  · rfl
  · rfl

theorem nodeStep_move {k d : NodeId} {i : Poll.Label α} (h : nodeStep cfg s k i = some t) :
    NodeMove cfg s (.node k i) d (t.nodes d) := by
  unfold nodeStep at h
  split_ifs at h with ha
  obtain ⟨u, hu, rfl⟩ := Option.map_eq_some_iff.mp h
  have hmove : NodeMove cfg s (.node k i) k u := .step i u hu ha (fun _ _ _ => rfl)
  split
  · split
    · exact nodeMove_setNode (begin_nodes ..).symm hmove
    · exact nodeMove_setNode rfl hmove
  · exact nodeMove_setNode rfl hmove

theorem step_move (hinv : Inv cfg s) (h : step cfg s l = some t) (d : NodeId) : NodeMove cfg s l d (t.nodes d) := by
  cases step_cases cfg h with
  | node k i _ hw => exact nodeStep_move hw
  | thread k p out _ hd hr ho hk he hw => exact nodeMove_write hw (.handler p out hd hr hk)
  | start k p x hx hp hh => exact .same
  | fatal k p x hx hp hh => exact nodeMove_setNode rfl .halt
  | call k p x hx hp hj hh => exact .same
  | rpcFatal k p x domain hx hp hdom hnone => exact nodeMove_setNode rfl .halt
  | rpcExec k p x domain z u hx hp hdom hz hu =>
    obtain ⟨hnew, -, -⟩ := ((hinv.task k p).push x hx).copy_isNew hinv hz domain.id
    exact nodeMove_setNode (t := s) rfl (.step _ u hu hnew (fun w es hi => by cases hi))
  | rpcComplete k p x domain copy ret hx hp hdom hc hh hret => exact .same
  | output k p x ret u hx hp hw => exact nodeMove_write (t := u) hw (.fields p _)
  | replicateEnd k p x u hx hp hall hw => exact nodeMove_write (t := u) hw (.fields p _)
  | completeOrig k p x u hx hp hw => exact nodeMove_write (t := u) hw (.complete p _ hx)
  | completePush k p x u hx hp hw => exact nodeMove_write (t := u) hw (.completePush p _ hx)

end HermesRun.RemoteQueue
