import HermesRun.Lib.BoundedScan
import HermesRun.Worker.Frames
import HermesRun.Worker.Lanes

namespace HermesRun.Poll

open Relation Runs

variable {α : Type}

def looked (l : LaneRef) (log : List Event) : List TaskPtr :=
  ((log.filterMap fun
    | .deref p => some p
    | _ => none).reverse).filter (· ∈ enqueued l log)

theorem looked_lanesView (l : LaneRef) (s : State α) : ScannedFifo.looked l s.lanesView.log = looked l s.log := by
  have hvisited : ScannedFifo.visited s.lanesView.log = (s.log.filterMap fun
      | .deref p => some p
      | _ => none).reverse := by
    simp only [ScannedFifo.visited, State.lanesView, List.filterMap_filterMap]
    congr 2
    funext e
    cases e <;> rfl
  rw [ScannedFifo.looked, hvisited, enqueued_lanesView]
  rfl

def passOn (cur : Option (Cursor α)) (l : LaneRef) : Option BoundedScan.Pass :=
  match cur with
  | none => none
  | some c => if c.lane = l then some ⟨c.i, c.off, c.running.isSome⟩ else none

def State.scanView (cfg : Config α) (s : State α) (l : LaneRef) : BoundedScan.State :=
  ⟨s.lanes l, passOn (s.workers (cfg.owner l)).cursor l⟩

structure ScanSteps (cfg : Config α) (l : LaneRef) (s t : State α) (ls : List BoundedScan.Label) : Prop where
  steps : ∃ u, BoundedScan.Steps 1024 (s.scanView cfg l) ls u ∧ (t.halted = false → u = t.scanView cfg l)
  arrivals : enqueued l t.log = enqueued l s.log ++ BoundedScan.arrivals ls
  looks : looked l t.log = looked l s.log ++ BoundedScan.looks ls

variable {cfg : Config α} {s t : State α}

section Views

variable {l : LaneRef}

theorem passOn_here {c : Cursor α} (hl : c.lane = l) : passOn (some c) l = some ⟨c.i, c.off, c.running.isSome⟩ :=
  if_pos hl

theorem passOn_elsewhere {cur : Option (Cursor α)} (h : ∀ c, cur = some c → c.lane ≠ l) : passOn cur l = none := by
  cases cur with
  | none => rfl
  | some c => exact if_neg (h c rfl)

theorem scanView_here {w : WorkerId} {c : Cursor α} (ho : cfg.owner l = w) (hc : (s.workers w).cursor = some c)
    (hl : c.lane = l) : s.scanView cfg l = ⟨s.lanes l, some ⟨c.i, c.off, c.running.isSome⟩⟩ := by
  rw [State.scanView, ho, hc, passOn_here hl]

theorem scanView_idle {w : WorkerId} (ho : cfg.owner l = w) (hc : (s.workers w).cursor = none) :
    s.scanView cfg l = ⟨s.lanes l, none⟩ := by
  rw [State.scanView, ho, hc]
  rfl

theorem scanView_other {w : WorkerId} {l₀ : LaneRef} (hf : PassFrame s t w l₀)
    (hs : ∀ c, (s.workers w).cursor = some c → c.lane = l₀) (ht : ∀ c, (t.workers w).cursor = some c → c.lane = l₀)
    (hl : l ≠ l₀) : t.scanView cfg l = s.scanView cfg l := by
  rw [State.scanView, State.scanView, hf.lanes l hl]
  by_cases ho : cfg.owner l = w
  · have hne {u : State α} (hu : ∀ c, (u.workers w).cursor = some c → c.lane = l₀) :
        passOn (u.workers (cfg.owner l)).cursor l = none := by
      apply passOn_elsewhere
      intro c hc
      rw [ho] at hc
      rw [hu c hc]
      exact Ne.symm hl
    rw [hne hs, hne ht]
  · rw [hf.workers _ ho]

theorem scanSteps_same (hv : t.scanView cfg l = s.scanView cfg l) (ha : enqueued l t.log = enqueued l s.log)
    (hd : looked l t.log = looked l s.log) : ScanSteps cfg l s t [] :=
  ⟨⟨_, .refl, fun _ => hv.symm⟩, by simpa [BoundedScan.arrivals] using ha, by simpa [BoundedScan.looks] using hd⟩

end Views

section Iterations

theorem scan_goesOn {w : WorkerId} {c : Cursor α} {es : List (LaneRef × Task α)}
    (h : ((scan cfg s w c es).workers w).cursor ≠ none) : c.i < 1024 := by
  by_contra hi
  apply h
  rw [scan, if_pos (Nat.le_of_not_lt hi), State.setCursor_cursor]

theorem attempt_cursor (cfg : Config α) (s : State α) (w : WorkerId) (c : Cursor α) (p : TaskPtr) (exec : Instance)
    (es : List (LaneRef × Task α)) :
    ∃ r, ((attempt cfg s w c p exec es).workers w).cursor = some { c with running := some r } := by
  have hcase := attempt_cases cfg s w c p exec es
  generalize attempt cfg s w c p exec es = t at hcase ⊢
  cases hcase with
  | skip g hg h => exact ⟨_, State.setCursor_cursor ..⟩
  | run hd hc => exact ⟨_, State.setCursor_cursor ..⟩

theorem scan_leaves {w : WorkerId} {c : Cursor α} {es : List (LaneRef × Task α)} (hc : (s.workers w).cursor = some c)
    (h : ((scan cfg s w c es).workers w).cursor = none) :
    scan cfg s w c es = s.setCursor w none ∧ (1024 ≤ c.i ∨ (s.lanes c.lane).length ≤ c.off) := by
  by_cases hi : 1024 ≤ c.i
  · exact ⟨if_pos hi, Or.inl hi⟩
  cases hentry : (s.lanes c.lane)[c.off]? with
  | none =>
    refine ⟨?_, Or.inr (List.getElem?_eq_none_iff.mp hentry)⟩
    rw [scan, if_neg hi, hentry]
  | some entry =>
    exfalso
    rw [scan, if_neg hi, hentry] at h
    dsimp only at h
    split at h
    · rw [State.nextPass, State.setCursor_cursor] at h
      cases h
    · split at h
      · split at h
        · rw [State.nextPass, State.setCursor_cursor] at h
          cases h
        · have hsame : (s.workers w).cursor = none := h
          rw [hc] at hsame
          cases hsame
      · next gen hgen =>
        obtain ⟨r, hr⟩ := attempt_cursor cfg (s.emit (.deref entry.p)) w c entry.p
          ⟨((s.emit (.deref entry.p)).mem entry.p).taskState, gen⟩ es
        rw [hr] at h
        cases h

theorem scan_lane {w : WorkerId} {c c' : Cursor α} {es : List (LaneRef × Task α)} (hc : (s.workers w).cursor = some c)
    (hc' : ((scan cfg s w c es).workers w).cursor = some c') : c'.lane = c.lane := by
  have hcase := scan_cases cfg s w c es
  generalize scan cfg s w c es = t at hcase hc'
  cases hcase with
  | stop =>
    rw [State.setCursor_cursor] at hc'
    cases hc'
  | passOver p hp =>
    rw [State.nextPass, State.setCursor_cursor, State.popTask_place] at hc'
    cases hc'
    rfl
  | fatalReturn p hp hf u hu =>
    rw [State.nextPass, State.setCursor_cursor, State.endTask_place] at hc'
    cases hc'
    rfl
  | fatal p hp hf =>
    have hsame : (s.workers w).cursor = some c' := hc'
    rw [hc] at hsame
    cases hsame
    rfl
  | attempt p gen hp hgen =>
    obtain ⟨r, hr⟩ := attempt_cursor cfg (s.emit (.deref p)) w c p ⟨(s.mem p).taskState, gen⟩ es
    rw [hr] at hc'
    cases hc'
    rfl

theorem finish_lane {w : WorkerId} {l : LaneRef} {i off : ℕ} {r : Running α} {out : Task α} {c' : Cursor α}
    (hc : (s.workers w).cursor = some ⟨l, i, off, some r⟩)
    (hc' : ((finish cfg s w ⟨l, i, off, none⟩ r out).workers w).cursor = some c') : c'.lane = l := by
  have hcase := finish_cases cfg s w ⟨l, i, off, none⟩ r out
  generalize finish cfg s w ⟨l, i, off, none⟩ r out = t at hcase hc'
  cases hcase with
  | again hm =>
    rw [State.nextPass, State.setCursor_cursor] at hc'
    cases hc'
    rfl
  | fatal hm u hu hz =>
    have hsame : (u.workers w).cursor = some c' := hc'
    rw [hu, State.cleanup_workers] at hsame
    have hcs : (s.workers w).cursor = some c' := hsame
    rw [hc] at hcs
    cases hcs
    rfl
  | done hm u v hu hv =>
    rw [State.nextPass, State.setCursor_cursor, State.endTask_place] at hc'
    cases hc'
    rfl

structure Iterates (cfg : Config α) (l : LaneRef) (s t : State α) (ls : List BoundedScan.Label) : Prop where
  steps : ∃ u, BoundedScan.Steps 1024 (s.scanView cfg l) ls u ∧ (t.halted = false → u = t.scanView cfg l)
  arrivals : BoundedScan.arrivals ls = []
  inner : .start ∉ ls
  enqueued : ∀ l', enqueued l' t.log = enqueued l' s.log
  looked : ∀ l', looked l' t.log = looked l' s.log ++ if l' = l then BoundedScan.looks ls else []

theorem Iterates.scanSteps {ls : List BoundedScan.Label} {w : WorkerId} {l : LaneRef} (h : Iterates cfg l s t ls)
    (hf : PassFrame s t w l) (hs : ∀ c, (s.workers w).cursor = some c → c.lane = l)
    (ht : ∀ c, (t.workers w).cursor = some c → c.lane = l) (l' : LaneRef) :
    ∃ ls, ScanSteps cfg l' s t ls ∧ .start ∉ ls := by
  by_cases hl : l' = l
  · subst hl
    refine ⟨ls, ⟨h.steps, ?_, ?_⟩, h.inner⟩
    · rw [h.enqueued, h.arrivals, List.append_nil]
    · rw [h.looked, if_pos rfl]
  · refine ⟨[], scanSteps_same (scanView_other hf hs ht hl) (h.enqueued l') ?_, List.not_mem_nil⟩
    rw [h.looked, if_neg hl, List.append_nil]

variable {w : WorkerId} {l : LaneRef} {i off : ℕ}

theorem scanView_next (ho : cfg.owner l = w) {q : List LaneData} (hl : t.lanes l = if off = 0 then q.tail else q)
    (hc : (t.workers w).cursor = some ⟨l, i + 1, if off = 0 then off else off + 1, none⟩) :
    BoundedScan.next q i off = t.scanView cfg l := by
  rw [scanView_here ho hc rfl, hl, BoundedScan.next]
  by_cases hoff : off = 0 <;> simp [hoff]

theorem looked_visit (h : ScannedFifo.Inv cfg.owner s.lanesView) {p : TaskPtr} {b : Bool}
    (hp : (s.lanes l)[off]? = some ⟨p, b⟩) (l' : LaneRef) :
    looked l' (s.emit (.deref p)).log = looked l' s.log ++ if l' = l then [p] else [] := by
  have hin : p ∈ ScannedFifo.enqueued l s.lanesView.log := h.mem_lane (List.mem_of_getElem? hp)
  have hiff : p ∈ ScannedFifo.enqueued l' s.lanesView.log ↔ l' = l := by
    constructor
    · intro hp'
      exact h.disjoint l' l p hp' hin
    · rintro rfl
      exact hin
  rw [← looked_lanesView, ← looked_lanesView, State.lanesView_emit_some s (e := .deref p) rfl,
    ScannedFifo.looked_deref]
  simp only [hiff]

theorem iterates_visit (h : ScannedFifo.Inv cfg.owner s.lanesView) {ls : List BoundedScan.Label} {p : TaskPtr} {b : Bool}
    (hp : (s.lanes l)[off]? = some ⟨p, b⟩)
    (hsteps : ∃ u, BoundedScan.Steps 1024 (s.scanView cfg l) ls u ∧ (t.halted = false → u = t.scanView cfg l))
    (hls : BoundedScan.arrivals ls = [] ∧ BoundedScan.looks ls = [p] ∧ .start ∉ ls)
    (he : ∀ l', enqueued l' t.log = enqueued l' (s.emit (.deref p)).log)
    (hd : ∀ l', looked l' t.log = looked l' (s.emit (.deref p)).log) : Iterates cfg l s t ls := by
  obtain ⟨harrivals, hlooks, hinner⟩ := hls
  refine ⟨hsteps, harrivals, hinner, he, ?_⟩
  intro l'
  rw [hd, hlooks]
  exact looked_visit h hp l'

theorem iterates_quiet {ls : List BoundedScan.Label}
    (hsteps : ∃ u, BoundedScan.Steps 1024 (s.scanView cfg l) ls u ∧ (t.halted = false → u = t.scanView cfg l))
    (hls : BoundedScan.arrivals ls = [] ∧ BoundedScan.looks ls = [] ∧ .start ∉ ls)
    (he : ∀ l', enqueued l' t.log = enqueued l' s.log) (hd : ∀ l', looked l' t.log = looked l' s.log) :
    Iterates cfg l s t ls := by
  obtain ⟨harrivals, hlooks, hinner⟩ := hls
  refine ⟨hsteps, harrivals, hinner, he, ?_⟩
  intro l'
  rw [hd, hlooks, ite_self, List.append_nil]

theorem logs_congr (he : ∀ l', ScannedFifo.enqueued l' t.lanesView.log = ScannedFifo.enqueued l' s.lanesView.log)
    (hd : ScannedFifo.visited t.lanesView.log = ScannedFifo.visited s.lanesView.log) :
    (∀ l', enqueued l' t.log = enqueued l' s.log) ∧ ∀ l', looked l' t.log = looked l' s.log := by
  refine ⟨?_, ?_⟩
  · intro l'
    rw [← enqueued_lanesView, ← enqueued_lanesView, he]
  · intro l'
    rw [← looked_lanesView, ← looked_lanesView]
    exact ScannedFifo.looked_congr hd (he l')

theorem logs_endAt {p : TaskPtr} (ht : t.lanesView = s.lanesView.endAt w l off p) :
    (∀ l', enqueued l' t.log = enqueued l' s.log) ∧ ∀ l', looked l' t.log = looked l' s.log := by
  apply logs_congr
  · intro l'
    rw [ht, ScannedFifo.enqueued_endAt]
  · rw [ht, ScannedFifo.visited_endAt]

theorem logs_popTask (c : Cursor α) : (∀ l', enqueued l' (s.popTask c).1.log = enqueued l' s.log) ∧
    ∀ l', looked l' (s.popTask c).1.log = looked l' s.log := by
  apply logs_congr
  · intro l'
    rw [State.lanesView_popTask]
    split_ifs
    · exact ScannedFifo.enqueued_popHead l' c.lane
    · rfl
  · rw [State.lanesView_popTask]
    split_ifs
    · exact ScannedFifo.visited_popHead c.lane
    · rfl

theorem popTask_lane (c : Cursor α) :
    (s.popTask c).1.lanes c.lane = if c.off = 0 then (s.lanes c.lane).tail else s.lanes c.lane := by
  have hview : (s.popTask c).1.lanes = (s.popTask c).1.lanesView.lanes := rfl
  rw [hview, State.lanesView_popTask]
  split_ifs
  · exact ScannedFifo.popHead_lane c.lane
  · rfl

theorem scan_iterates (h : ScannedFifo.Inv cfg.owner s.lanesView)
    (hc : (s.workers w).cursor = some ⟨l, i, off, none⟩) (es : List (LaneRef × Task α)) :
    ∃ ls, Iterates cfg l s (scan cfg s w ⟨l, i, off, none⟩ es) ls := by
  have ho : cfg.owner l = w := h.owned w _ (lanesView_places hc)
  have hview : s.scanView cfg l = ⟨s.lanes l, some ⟨i, off, false⟩⟩ := scanView_here ho hc rfl
  have hleaves := @scan_leaves _ cfg s w ⟨l, i, off, none⟩ es hc
  have hgoes := @scan_goesOn _ cfg s w ⟨l, i, off, none⟩ es
  have hcase := scan_cases cfg s w ⟨l, i, off, none⟩ es
  generalize scan cfg s w ⟨l, i, off, none⟩ es = t at hcase hleaves hgoes ⊢
  cases hcase with
  | stop =>
    obtain ⟨-, hstop⟩ := hleaves (State.setCursor_cursor ..)
    refine ⟨[.leave], iterates_quiet ⟨⟨s.lanes l, none⟩, ?_, ?_⟩ (by decide) (fun _ => rfl) fun _ => rfl⟩
    · rw [hview]
      exact .single (.leave _ i off hstop)
    · intro _
      exact (scanView_idle ho (State.setCursor_cursor ..)).symm
  | passOver p hp =>
    have hi : i < 1024 := by
      apply hgoes
      rw [State.nextPass, State.setCursor_cursor]
      simp
    obtain ⟨he, hd⟩ := logs_popTask (s := s) ⟨l, i, off, none⟩
    refine ⟨[.passOver], iterates_quiet ⟨BoundedScan.next (s.lanes l) i off, ?_, ?_⟩ (by decide) he hd⟩
    · rw [hview]
      exact .single (.passOver _ i off p hi hp)
    · intro _
      apply scanView_next ho (popTask_lane _)
      rw [State.nextPass, State.setCursor_cursor, State.popTask_place]
  | fatalReturn p hp hf u hu =>
    have hi : i < 1024 := by
      apply hgoes
      rw [State.nextPass, State.setCursor_cursor]
      simp
    have hend : ((u.endTask ⟨l, i, off, none⟩ p false).1.nextPass w (u.endTask ⟨l, i, off, none⟩ p false).2).lanesView =
        (s.emit (.deref p)).lanesView.endAt w l off p := by
      rw [hu]
      exact State.lanesView_end (s.emit (.deref p)) (State.lanesView_markComplete _ _ p)
    obtain ⟨he, hd⟩ := logs_endAt hend
    refine ⟨[.look p, .finish], iterates_visit h hp ⟨BoundedScan.next ((s.lanes l).set off ⟨p, true⟩) i off, ?_, ?_⟩
      ⟨rfl, rfl, by simp⟩ he hd⟩
    · rw [hview]
      exact (BoundedScan.Steps.single (.look _ i off p hi hp)).tail (.finish _ i off p hp)
    · intro _
      apply scanView_next ho
      · exact (congrArg (fun v => ScannedFifo.State.lanes v l) hend).trans (ScannedFifo.endAt_lane w l off p)
      · rw [State.nextPass, State.setCursor_cursor, State.endTask_place]
  | fatal p hp hf =>
    have hi : i < 1024 := by
      apply hgoes
      show (s.workers w).cursor ≠ none
      rw [hc]
      simp
    refine ⟨[.look p], iterates_visit h hp ⟨⟨s.lanes l, some ⟨i, off, true⟩⟩, ?_, ?_⟩ ⟨rfl, rfl, by simp⟩
      (fun _ => rfl) fun _ => rfl⟩
    · rw [hview]
      exact .single (.look _ i off p hi hp)
    · intro hh
      cases hh
  | attempt p gen hp hgen =>
    obtain ⟨r, hr⟩ := attempt_cursor cfg (s.emit (.deref p)) w ⟨l, i, off, none⟩ p ⟨(s.mem p).taskState, gen⟩ es
    have hi : i < 1024 := by
      apply hgoes
      rw [hr]
      simp
    have hlanes := lanesView_attempt cfg (s.emit (.deref p)) w ⟨l, i, off, none⟩ p ⟨(s.mem p).taskState, gen⟩ es
    obtain ⟨he, hd⟩ := logs_congr (s := s.emit (.deref p))
      (t := attempt cfg (s.emit (.deref p)) w ⟨l, i, off, none⟩ p ⟨(s.mem p).taskState, gen⟩ es)
      (fun _ => by rw [hlanes]; rfl) (by rw [hlanes]; rfl)
    refine ⟨[.look p], iterates_visit h hp ⟨⟨s.lanes l, some ⟨i, off, true⟩⟩, ?_, ?_⟩ ⟨rfl, rfl, by simp⟩ he hd⟩
    · rw [hview]
      exact .single (.look _ i off p hi hp)
    · intro _
      rw [scanView_here ho hr rfl]
      exact congrArg (fun v => BoundedScan.State.mk (ScannedFifo.State.lanes v l) _) hlanes.symm

theorem finish_iterates (h : ScannedFifo.Inv cfg.owner s.lanesView) (hh : s.halted = false) {r : Running α}
    (hc : (s.workers w).cursor = some ⟨l, i, off, some r⟩) (out : Task α) :
    ∃ ls, Iterates cfg l s (finish cfg s w ⟨l, i, off, none⟩ r out) ls := by
  have ho : cfg.owner l = w := h.owned w _ (lanesView_places hc)
  have hview : s.scanView cfg l = ⟨s.lanes l, some ⟨i, off, true⟩⟩ := scanView_here ho hc rfl
  have hp : (s.lanes l)[off]? = some ⟨r.task, false⟩ := running_waits h hh hc rfl
  have hcase := finish_cases cfg s w ⟨l, i, off, none⟩ r out
  generalize finish cfg s w ⟨l, i, off, none⟩ r out = t at hcase ⊢
  cases hcase with
  | again hm =>
    refine ⟨[.keep], iterates_quiet ⟨⟨s.lanes l, some ⟨i + 1, off + 1, false⟩⟩, ?_, ?_⟩ (by decide) (fun _ => rfl)
      fun _ => rfl⟩
    · rw [hview]
      exact .single (.keep _ i off)
    · intro _
      exact (scanView_here ho (State.setCursor_cursor s w (some ⟨l, i + 1, off + 1, none⟩)) rfl).symm
  | fatal hm u hu hz =>
    have hlanes : u.lanesView = s.lanesView.mark l off r.task := by
      rw [hu, State.lanesView_cleanup]
      rfl
    have hlog : ({ u.emit (.depthZero w r.task) with halted := true } : State α).lanesView.log = u.lanesView.log := rfl
    obtain ⟨he, hd⟩ := logs_congr (s := s) (t := { u.emit (.depthZero w r.task) with halted := true })
      (fun _ => by rw [hlog, hlanes]; rfl) (by rw [hlog, hlanes]; rfl)
    refine ⟨[], iterates_quiet ⟨_, .refl, ?_⟩ (by decide) he hd⟩
    intro hhalt
    cases hhalt
  | done hm u v hu hv =>
    have hend : ((v.endTask ⟨l, i, off, none⟩ r.task true).1.nextPass w
        (v.endTask ⟨l, i, off, none⟩ r.task true).2).lanesView = s.lanesView.endAt w l off r.task := by
      apply State.lanesView_end s
      rw [hv, State.lanesView_emit_none _ rfl, State.lanesView_setGroups, hu, State.lanesView_cleanup]
      rfl
    obtain ⟨he, hd⟩ := logs_endAt hend
    refine ⟨[.finish], iterates_quiet ⟨BoundedScan.next ((s.lanes l).set off ⟨r.task, true⟩) i off, ?_, ?_⟩
      (by decide) he hd⟩
    · rw [hview]
      exact .single (.finish _ i off r.task hp)
    · intro _
      apply scanView_next ho
      · exact (congrArg (fun v => ScannedFifo.State.lanes v l) hend).trans (ScannedFifo.endAt_lane w l off r.task)
      · rw [State.nextPass, State.setCursor_cursor, State.endTask_place]

end Iterations

section Steps

theorem setCursor_lane {w : WorkerId} {l : LaneRef} {i off : ℕ} {r : Option (Running α)} :
    ∀ c, ((s.setCursor w (some ⟨l, i, off, r⟩)).workers w).cursor = some c → c.lane = l := by
  intro c hc
  rw [State.setCursor_cursor] at hc
  cases hc
  rfl

theorem scanView_enter {w : WorkerId} {l : LaneRef} {i off : ℕ} {r r' : Running α}
    (hc : (s.workers w).cursor = some ⟨l, i, off, some r⟩) (l' : LaneRef) :
    (s.enter w ⟨l, i, off, none⟩ r').scanView cfg l' = s.scanView cfg l' := by
  have hlanes : (s.enter w ⟨l, i, off, none⟩ r').lanes = s.lanes := rfl
  rw [State.scanView, State.scanView, hlanes]
  by_cases ho : cfg.owner l' = w
  · rw [ho, hc, State.enter, State.setCursor_cursor]
    rfl
  · rw [State.enter, State.setCursor_workers_other _ _ ho]

theorem emplace_scans (hd : s.next ∉ ScannedFifo.visited s.lanesView.log) (dst l : LaneRef) (x : Task α) :
    ∃ ls, ScanSteps cfg l s (s.emplace dst x) ls ∧ .start ∉ ls := by
  have hlooked : looked l (s.emplace dst x).log = looked l s.log := by
    rw [← looked_lanesView, ← looked_lanesView, State.lanesView_emplace]
    exact ScannedFifo.looked_enqueue hd
  have henqueued : enqueued l (s.emplace dst x).log = enqueued l s.log ++ if dst = l then [s.next] else [] := by
    rw [← enqueued_lanesView, ← enqueued_lanesView, State.lanesView_emplace]
    exact ScannedFifo.enqueued_enqueue l s.lanesView.log dst s.next
  by_cases hl : dst = l
  · subst hl
    refine ⟨[.enqueue s.next], ⟨⟨_, .single (.enqueue _ s.next), ?_⟩, ?_, ?_⟩, by simp⟩
    · intro _
      simp [State.scanView]
    · rw [henqueued, if_pos rfl]
      rfl
    · rw [hlooked]
      exact (List.append_nil _).symm
  · refine ⟨[], scanSteps_same ?_ ?_ hlooked, List.not_mem_nil⟩
    · simp [State.scanView, Ne.symm hl]
    · rw [henqueued, if_neg hl, List.append_nil]

theorem ScanSteps.congr {l : LaneRef} {ls : List BoundedScan.Label} {u : State α} (h : ScanSteps cfg l s t ls)
    (hv : u.scanView cfg l = t.scanView cfg l) (hl : u.log = t.log) (hh : u.halted = t.halted) :
    ScanSteps cfg l s u ls := by
  obtain ⟨⟨v, hv', heq⟩, ha, hd⟩ := h
  refine ⟨⟨v, hv', ?_⟩, ?_, ?_⟩
  · rw [hh, hv]
    exact heq
  · rw [hl, ha]
  · rw [hl, hd]

theorem step_scans (h : ScannedFifo.Inv cfg.owner s.lanesView)
    (hd : ∀ p ∈ ScannedFifo.visited s.lanesView.log, ∃ l, p ∈ ScannedFifo.enqueued l s.lanesView.log)
    {i : Label α} (hst : step cfg s i = some t) (l : LaneRef) :
    ∃ ls, ScanSteps cfg l s t ls ∧ (.start ∈ ls → i = .poll (cfg.owner l) l) := by
  have hnext : s.next ∉ ScannedFifo.visited s.lanesView.log := by
    intro hp
    obtain ⟨l', hl'⟩ := hd _ hp
    exact h.next_notMem l' hl'
  have keep (hv : t.scanView cfg l = s.scanView cfg l) (hlog : t.log = s.log) :
      ∃ ls, ScanSteps cfg l s t ls ∧ (.start ∈ ls → i = .poll (cfg.owner l) l) := by
    refine ⟨[], scanSteps_same hv ?_ ?_, fun hls => absurd hls List.not_mem_nil⟩
    · rw [hlog]
    · rw [hlog]
  have quiet (hls : ∃ ls, ScanSteps cfg l s t ls ∧ .start ∉ ls) :
      ∃ ls, ScanSteps cfg l s t ls ∧ (.start ∈ ls → i = .poll (cfg.owner l) l) := by
    obtain ⟨ls, hsteps, hstart⟩ := hls
    exact ⟨ls, hsteps, fun hin => absurd hin hstart⟩
  obtain ⟨hh, htr⟩ := step_transition hst
  have lane {w : WorkerId} {c c' : Cursor α} (hc : (s.workers w).cursor = some c)
      (hc' : (s.workers w).cursor = some c') : c'.lane = c.lane := by
    rw [hc] at hc'
    cases hc'
    rfl
  cases htr with
  | emplace l' x hroom hown => exact quiet (emplace_scans hnext l' l x)
  | poll w l' hc ho =>
    by_cases hl : l = l'
    · subst hl
      subst ho
      refine ⟨[.start], ⟨⟨_, ?_, fun _ => rfl⟩, ?_, ?_⟩, fun _ => rfl⟩
      · rw [scanView_idle rfl hc, scanView_here rfl (State.setCursor_cursor s _ (some ⟨l, 0, 0, none⟩)) rfl]
        exact .single (.start _)
      · exact (List.append_nil _).symm
      · exact (List.append_nil _).symm
    · apply keep _ rfl
      refine scanView_other (passFrame_setCursor s w l' _) ?_ setCursor_lane hl
      intro c hc'
      rw [hc] at hc'
      cases hc'
  | scan w es l' i off hc hes =>
    obtain ⟨ls, hls⟩ := scan_iterates h hc es
    refine quiet (hls.scanSteps (passFrame_scan s w _ es) (fun c' hc' => lane hc hc') ?_ l)
    intro c' hc'
    exact scan_lane hc hc'
  | put w l' i off p exec remote mode dst x es b hc hroom =>
    obtain ⟨ls, hls, hstart⟩ := @emplace_scans _ cfg s hnext dst l x
    refine quiet ⟨ls, hls.congr ?_ rfl rfl, hstart⟩
    apply scanView_enter
    rw [State.emplace_workers]
    exact hc
  | block w l' i off p exec remote mode dst x es b hc hfull => exact keep (scanView_enter hc l) rfl
  | registry w op l' i off r hc hr =>
    obtain ⟨states, next, heq⟩ := registryOp_eq s op
    rw [heq] at keep ⊢
    exact keep rfl rfl
  | finish w out l' i off r hc hes hout =>
    obtain ⟨ls, hls⟩ := finish_iterates h hh hc out
    refine quiet (hls.scanSteps (passFrame_finish s w _ r out) (fun c' hc' => lane hc hc') ?_ l)
    intro c' hc'
    exact finish_lane hc hc'
  | write p x hp hx => exact keep rfl rfl

end Steps

section Runs

structure Known (cfg : Config α) (s : State α) : Prop where
  lanes : ScannedFifo.Inv cfg.owner s.lanesView
  visited : ∀ p ∈ ScannedFifo.visited s.lanesView.log, ∃ l, p ∈ ScannedFifo.enqueued l s.lanesView.log

theorem known_init (mem : TaskPtr → Task α) (registered : TaskStateId → Bool) :
    Known cfg (State.init mem registered) :=
  ⟨lanesView_init mem registered, by simp [State.lanesView, State.init, ScannedFifo.visited]⟩

theorem Known.step (h : Known cfg s) {i : Label α} (hst : step cfg s i = some t) : Known cfg t :=
  ⟨step_lanesInv h.lanes hst, h.lanes.visited_steps h.visited (step_lanes h.lanes hst)⟩

theorem Known.run (h : Known cfg s) {is : List (Label α)} (hr : run (Poll.step cfg) s is = some t) : Known cfg t :=
  run_invariant_all (fun _ _ _ hs hst => hs.step hst) h hr

theorem ScanSteps.refl (l : LaneRef) : ScanSteps cfg l s s [] := scanSteps_same rfl rfl rfl

theorem ScanSteps.trans {u : State α} {l : LaneRef} {ls ms : List BoundedScan.Label} (h : ScanSteps cfg l s t ls)
    (hh : t.halted = false) (h' : ScanSteps cfg l t u ms) : ScanSteps cfg l s u (ls ++ ms) := by
  obtain ⟨⟨v, hv, heq⟩, ha, hd⟩ := h
  obtain ⟨⟨v', hv', heq'⟩, ha', hd'⟩ := h'
  rw [heq hh] at hv
  refine ⟨⟨v', hv.trans hv', heq'⟩, ?_, ?_⟩
  · rw [ha', ha, BoundedScan.arrivals_append, List.append_assoc]
  · rw [hd', hd, BoundedScan.looks_append, List.append_assoc]

theorem run_scans (h : Known cfg s) {is : List (Label α)} (hr : run (step cfg) s is = some t) (l : LaneRef) :
    ∃ ls, ScanSteps cfg l s t ls ∧ (.start ∈ ls → .poll (cfg.owner l) l ∈ is) := by
  induction is generalizing s with
  | nil =>
    cases hr
    exact ⟨[], .refl l, by simp⟩
  | cons i is ih =>
    obtain ⟨u, hu, hr⟩ := run_cons.mp hr
    obtain ⟨ls, hls, hstart⟩ := step_scans h.lanes h.visited hu l
    cases is with
    | nil =>
      cases hr
      refine ⟨ls, hls, ?_⟩
      intro hin
      rw [hstart hin]
      exact List.mem_singleton_self _
    | cons j js =>
      obtain ⟨ms, hms, hstart'⟩ := ih (h.step hu) hr
      obtain ⟨v, hv, -⟩ := run_cons.mp hr
      refine ⟨ls ++ ms, hls.trans (step_transition hv).1 hms, ?_⟩
      intro hin
      rcases List.mem_append.mp hin with hin | hin
      · rw [hstart hin]
        exact List.mem_cons_self
      · exact List.mem_cons_of_mem _ (hstart' hin)

theorem step_lane {i : Label α} (hst : step cfg s i = some t) {w : WorkerId}
    (hi : ∀ l, i ≠ .poll w l) {c' : Cursor α} (hc' : (t.workers w).cursor = some c') :
    ∃ c, (s.workers w).cursor = some c ∧ c'.lane = c.lane := by
  have other {w₀ : WorkerId} {l : LaneRef} (hf : PassFrame s t w₀ l) (hw : w ≠ w₀) :
      ∃ c, (s.workers w).cursor = some c ∧ c'.lane = c.lane := by
    rw [hf.workers w hw] at hc'
    exact ⟨c', hc', rfl⟩
  obtain ⟨-, htr⟩ := step_transition hst
  cases htr with
  | emplace l x hroom hown =>
    rw [State.emplace_workers] at hc'
    exact ⟨c', hc', rfl⟩
  | poll w₀ l hc ho =>
    have hw : w ≠ w₀ := by
      rintro rfl
      exact hi l rfl
    exact other (passFrame_setCursor s w₀ l _) hw
  | scan w₀ es l i off hc hes =>
    by_cases hw : w = w₀
    · subst hw
      exact ⟨_, hc, scan_lane hc hc'⟩
    · exact other (passFrame_scan s w₀ _ es) hw
  | put w₀ l i off p exec remote mode dst x es b hc hroom =>
    by_cases hw : w = w₀
    · subst hw
      exact ⟨_, hc, setCursor_lane c' hc'⟩
    · rw [State.enter, State.setCursor_workers_other _ _ hw, State.emplace_workers] at hc'
      exact ⟨c', hc', rfl⟩
  | block w₀ l i off p exec remote mode dst x es b hc hfull =>
    by_cases hw : w = w₀
    · subst hw
      exact ⟨_, hc, setCursor_lane c' hc'⟩
    · exact other (passFrame_setCursor s w₀ l _) hw
  | registry w₀ op l i off r hc hr =>
    obtain ⟨states, next, heq⟩ := registryOp_eq s op
    rw [heq] at hc'
    exact ⟨c', hc', rfl⟩
  | finish w₀ out l i off r hc hes hout =>
    by_cases hw : w = w₀
    · subst hw
      exact ⟨_, hc, finish_lane hc hc'⟩
    · exact other (passFrame_finish s w₀ _ r out) hw
  | write p x hp hx => exact ⟨c', hc', rfl⟩

theorem run_lane {is : List (Label α)} (hr : run (step cfg) s is = some t) {w : WorkerId}
    (his : ∀ l, .poll w l ∉ is) {c' : Cursor α} (hc' : (t.workers w).cursor = some c') :
    ∃ c, (s.workers w).cursor = some c ∧ c'.lane = c.lane := by
  induction is generalizing s with
  | nil =>
    cases hr
    exact ⟨c', hc', rfl⟩
  | cons i is ih =>
    obtain ⟨u, hu, hr⟩ := run_cons.mp hr
    obtain ⟨c, hc, hlane⟩ := ih hr fun l hl => his l (List.mem_cons_of_mem _ hl)
    obtain ⟨c₀, hc₀, hlane₀⟩ := step_lane hu (fun l hl => his l (by rw [hl]; exact List.mem_cons_self)) hc
    exact ⟨c₀, hc₀, hlane.trans hlane₀⟩

end Runs

section Again

theorem Known.wholePass (hknown : Known cfg s) {w : WorkerId} {l : LaneRef} {js : List (Label α)}
    (hjs : ∀ l', .poll w l' ∉ js) {es : List (LaneRef × Task α)}
    (hpass : Runs.run (Poll.step cfg) s (.poll w l :: (js ++ [.scan w es])) = some t)
    (hend : (t.workers w).cursor = none) :
    ∃ ps, enqueued l t.log = enqueued l s.log ++ ps ∧
      looked l t.log = looked l s.log ++ BoundedScan.live ((s.lanes l ++ BoundedScan.fresh ps).take 1024) := by
  obtain ⟨s₁, hs₁, hpass⟩ := run_cons.mp hpass
  rw [run_append] at hpass
  obtain ⟨u, hu, hpass⟩ := Option.bind_eq_some_iff.mp hpass
  obtain ⟨t', ht, heq⟩ := run_cons.mp hpass
  obtain rfl : t' = t := Option.some.inj heq
  have hknown₁ := hknown.step hs₁
  obtain ⟨-, hpoll⟩ := step_transition hs₁
  cases hpoll with
  | poll w l hc ho =>
    have hview : (s.setCursor w (some ⟨l, 0, 0, none⟩)).scanView cfg l = ⟨s.lanes l, some ⟨0, 0, false⟩⟩ :=
      scanView_here ho (State.setCursor_cursor s w (some ⟨l, 0, 0, none⟩)) rfl
    obtain ⟨ls, ⟨⟨v, hv, hveq⟩, ha, hd⟩, hstart⟩ := run_scans hknown₁ hu l
    obtain ⟨hh, hscan⟩ := step_transition ht
    rw [hview, hveq hh] at hv
    cases hscan with
    | scan w es l' i off hc' hes =>
      obtain ⟨c, hcw, hlane⟩ := run_lane hu hjs hc'
      rw [State.setCursor_cursor] at hcw
      cases hcw
      obtain rfl : l' = l := hlane
      obtain ⟨heq, hstop⟩ := scan_leaves hc' hend
      have hpass : u.scanView cfg l' = ⟨u.lanes l', some ⟨i, off, false⟩⟩ := scanView_here ho hc' rfl
      have hinner := hv.inner (fun hin => hjs l' (ho ▸ hstart hin)) (by rw [hpass]; rfl)
      rw [hpass] at hv
      refine ⟨BoundedScan.arrivals ls, ?_, ?_⟩
      · rw [heq]
        exact ha
      · rw [heq, ← BoundedScan.looks_pass hinner hv (.leave _ i off hstop)]
        exact hd

theorem finish_cursor_isSome {w : WorkerId} {l : LaneRef} {i off : ℕ} {r : Running α}
    (hc : (s.workers w).cursor = some ⟨l, i, off, some r⟩) (out : Task α) :
    ((finish cfg s w ⟨l, i, off, none⟩ r out).workers w).cursor ≠ none := by
  have hcase := finish_cases cfg s w ⟨l, i, off, none⟩ r out
  generalize finish cfg s w ⟨l, i, off, none⟩ r out = t at hcase ⊢
  cases hcase with
  | again hm =>
    rw [State.nextPass, State.setCursor_cursor]
    exact Option.some_ne_none _
  | fatal hm u hu hz =>
    show (u.workers w).cursor ≠ none
    rw [hu, State.cleanup_workers]
    show (s.workers w).cursor ≠ none
    rw [hc]
    exact Option.some_ne_none _
  | done hm u v hu hv =>
    rw [State.nextPass, State.setCursor_cursor]
    exact Option.some_ne_none _

theorem step_leaves {i : Label α} (hst : step cfg s i = some t) {w : WorkerId} {c : Cursor α}
    (hc : (s.workers w).cursor = some c) (hend : (t.workers w).cursor = none) : ∃ es, i = .scan w es := by
  have other {w₀ : WorkerId} {l : LaneRef} (hf : PassFrame s t w₀ l) (hw : w ≠ w₀) : False := by
    rw [hf.workers w hw, hc] at hend
    cases hend
  obtain ⟨-, htr⟩ := step_transition hst
  cases htr with
  | emplace l x hroom hown =>
    rw [State.emplace_workers, hc] at hend
    cases hend
  | poll w₀ l hc₀ ho =>
    by_cases hw : w = w₀
    · subst hw
      rw [hc] at hc₀
      cases hc₀
    · exact (other (passFrame_setCursor s w₀ l _) hw).elim
  | scan w₀ es l i off hc₀ hes =>
    by_cases hw : w = w₀
    · subst hw
      exact ⟨es, rfl⟩
    · exact (other (passFrame_scan s w₀ _ es) hw).elim
  | put w₀ l i off p exec remote mode dst x es b hc₀ hroom =>
    by_cases hw : w = w₀
    · subst hw
      rw [State.enter, State.setCursor_cursor] at hend
      cases hend
    · rw [State.enter, State.setCursor_workers_other _ _ hw, State.emplace_workers, hc] at hend
      cases hend
  | block w₀ l i off p exec remote mode dst x es b hc₀ hfull =>
    by_cases hw : w = w₀
    · subst hw
      rw [State.enter, State.setCursor_cursor] at hend
      cases hend
    · exact (other (passFrame_setCursor s w₀ l _) hw).elim
  | registry w₀ op l i off r hc₀ hr =>
    obtain ⟨states, next, heq⟩ := registryOp_eq s op
    rw [heq] at hend
    rw [show (s.workers w).cursor = none from hend] at hc
    cases hc
  | finish w₀ out l i off r hc₀ hes hout =>
    by_cases hw : w = w₀
    · subst hw
      exact absurd hend (finish_cursor_isSome hc₀ out)
    · exact (other (passFrame_finish s w₀ _ r out) hw).elim
  | write p x hp hx =>
    rw [show (s.workers w).cursor = none from hend] at hc
    cases hc

theorem run_leaves {is : List (Label α)} (hr : run (step cfg) s is = some t) {w : WorkerId} {c : Cursor α}
    (hc : (s.workers w).cursor = some c) (hend : (t.workers w).cursor = none) :
    ∃ js es ks u, is = js ++ .scan w es :: ks ∧ (∀ l, .poll w l ∉ js) ∧
      run (step cfg) s (js ++ [.scan w es]) = some u ∧ (u.workers w).cursor = none ∧
      run (step cfg) u ks = some t := by
  induction is generalizing s c with
  | nil =>
    cases hr
    rw [hc] at hend
    cases hend
  | cons i is ih =>
    obtain ⟨v, hv, hrest⟩ := run_cons.mp hr
    cases hcv : (v.workers w).cursor with
    | none =>
      obtain ⟨es, rfl⟩ := step_leaves hv hc hcv
      exact ⟨[], es, is, v, rfl, by simp, run_cons.mpr ⟨v, hv, rfl⟩, hcv, hrest⟩
    | some c' =>
      obtain ⟨js, es, ks, u, rfl, hjs, hu, hcu, hks⟩ := ih hrest hcv
      refine ⟨i :: js, es, ks, u, rfl, ?_, run_cons.mpr ⟨v, hv, hu⟩, hcu, hks⟩
      intro l hl
      rcases List.mem_cons.mp hl with rfl | hl
      · obtain ⟨-, htr⟩ := step_transition hv
        cases htr with
        | poll _ _ hc₀ ho =>
          rw [hc] at hc₀
          cases hc₀
      · exact hjs l hl

theorem run_log {is : List (Label α)} (hr : run (step cfg) s is = some t) : ∃ evs, t.log = evs ++ s.log := by
  refine run_invariant_all (I := fun t => ∃ evs, t.log = evs ++ s.log) ?_ ⟨[], rfl⟩ hr
  rintro u i v ⟨evs, hlog⟩ hst
  obtain ⟨evs', hlog'⟩ := step_log hst
  exact ⟨evs' ++ evs, by rw [hlog', hlog, List.append_assoc]⟩

theorem Known.moved (h : Known cfg s) {is : List (Label α)} (hr : Runs.run (Poll.step cfg) s is = some t)
    {l : LaneRef} {j : ℕ} {p : TaskPtr} (hj : ((s.lanes l).map (·.p))[j]? = some p) (hp : .endTask p ∉ t.log) :
    ∃ k, k ≤ j ∧ ((t.lanes l).map (·.p))[k]? = some p := by
  have hs := laneHistory_of_inv h.lanes
  have ht := laneHistory_of_inv (h.run hr).lanes
  obtain ⟨ls, hls, -⟩ := run_scans h hr l
  obtain ⟨evs, hlog⟩ := run_log hr
  have hat : (enqueued l t.log)[(popped l s.log).length + j]? = some p := by
    have hlen : (popped l s.log).length + j < (enqueued l s.log).length := by
      rw [hs.fifo l, List.length_append]
      exact Nat.add_lt_add_left (List.getElem?_eq_some_iff.mp hj).1 _
    rw [hls.arrivals, List.getElem?_append_left hlen, hs.fifo l, List.getElem?_append_right (Nat.le_add_right _ _),
      Nat.add_sub_cancel_left]
    exact hj
  have hpopped : (popped l s.log).length ≤ (popped l t.log).length := by
    rw [hlog, popped, popped, List.filterMap_append, List.length_reverse, List.length_reverse, List.length_append]
    exact Nat.le_add_left _ _
  rw [ht.fifo l] at hat
  rcases Nat.lt_or_ge ((popped l s.log).length + j) (popped l t.log).length with hlt | hge
  · rw [List.getElem?_append_left hlt] at hat
    have honce := ht.endedPopped l p (List.mem_of_getElem? hat)
    exact absurd (List.count_pos_iff.mp (by omega)) hp
  · rw [List.getElem?_append_right hge] at hat
    exact ⟨_, by omega, hat⟩

theorem Known.lookedAgain (h : Known cfg s) {is js : List (Label α)} {w : WorkerId} {l : LaneRef}
    (hr : Runs.run (Poll.step cfg) s (is ++ .poll w l :: js) = some t) (hend : (t.workers w).cursor = none) {j : ℕ}
    {p : TaskPtr} (hj : ((s.lanes l).map (·.p))[j]? = some p) (hlt : j < 1024) (hp : .endTask p ∉ t.log) :
    p ∈ (looked l t.log).drop (looked l s.log).length := by
  rw [run_append] at hr
  obtain ⟨u, hu, hr⟩ := Option.bind_eq_some_iff.mp hr
  obtain ⟨v, hv, hrest⟩ := run_cons.mp hr
  have hku := h.run hu
  obtain ⟨-, htr⟩ := step_transition hv
  have hcursor : (v.workers w).cursor = some ⟨l, 0, 0, none⟩ := by
    cases htr with
    | poll w l hc ho => exact State.setCursor_cursor ..
  obtain ⟨js, es, ks, x, rfl, hjs, hx, hcx, hks⟩ := run_leaves hrest hcursor hend
  obtain ⟨ps, -, hpass⟩ := hku.wholePass hjs (run_cons.mpr ⟨v, hv, hx⟩) hcx
  have hkx : Known cfg x := (hku.step hv).run hx
  obtain ⟨evs, hlog⟩ := run_log hr
  have hgoes : .endTask p ∉ u.log := by
    intro hin
    apply hp
    rw [hlog]
    exact List.mem_append_right _ hin
  obtain ⟨k, hk, hku'⟩ := h.moved hu hj hgoes
  -- the task is still in the lane where the pass begins
  have hlive : p ∈ BoundedScan.live ((u.lanes l ++ BoundedScan.fresh ps).take 1024) := by
    obtain ⟨e, he, rfl⟩ := Option.map_eq_some_iff.mp (List.getElem?_map .. ▸ hku')
    have hcomplete : e.complete = false := by
      cases hc : e.complete with
      | false => rfl
      | true =>
        have hended := hku.lanes.marked (step_transition hv).1 l e (List.mem_of_getElem? he) hc
        exact absurd ((History.mem_filterMap_iff (lane?_eq_ended e.p) _).mp hended) hgoes
    refine List.mem_map.mpr ⟨e, List.mem_filter.mpr ⟨?_, by simp [hcomplete]⟩, rfl⟩
    apply List.mem_of_getElem? (i := k)
    rw [List.getElem?_take_of_lt (by omega), List.getElem?_append_left (List.getElem?_eq_some_iff.mp he).1]
    exact he
  obtain ⟨ls, hls, -⟩ := run_scans h hu l
  obtain ⟨ms, hms, -⟩ := run_scans hkx hks l
  rw [hms.looks, hpass, hls.looks, List.append_assoc, List.append_assoc, List.drop_left]
  exact List.mem_append_right _ (List.mem_append_left _ hlive)

end Again

section Results

variable (mem : TaskPtr → Task α) (registered : TaskStateId → Bool)

theorem run_scans_init {is : List (Label α)} (hr : run (step cfg) (State.init mem registered) is = some t)
    (l : LaneRef) : ∃ ls u, BoundedScan.Steps 1024 ⟨[], none⟩ ls u ∧ (t.halted = false → u = t.scanView cfg l) ∧
      enqueued l t.log = BoundedScan.arrivals ls ∧ looked l t.log = BoundedScan.looks ls := by
  obtain ⟨ls, ⟨⟨u, hu, heq⟩, ha, hd⟩, -⟩ := run_scans (known_init mem registered) hr l
  exact ⟨ls, u, hu, heq, ha, hd⟩

theorem mem_looked {l : LaneRef} {log : List Event} {p : TaskPtr} :
    p ∈ looked l log ↔ .deref p ∈ log ∧ p ∈ enqueued l log := by
  rw [looked, List.mem_filter, decide_eq_true_iff, List.mem_reverse, List.mem_filterMap]
  apply and_congr_left
  intro _
  constructor
  · rintro ⟨e, he, heq⟩
    cases e <;> simp at heq
    rwa [heq] at he
  · intro hp
    exact ⟨_, hp, rfl⟩

theorem first_looks_in_order (is : List (Label α)) (t : State α)
    (hr : run (step cfg) (State.init mem registered) is = some t) (l : LaneRef) :
    ∃ n, ∀ p ∈ enqueued l t.log, .deref p ∈ t.log ↔ p ∈ (enqueued l t.log).take n := by
  obtain ⟨ls, u, hu, -, ha, hd⟩ := run_scans_init mem registered hr l
  obtain ⟨n, hn⟩ := BoundedScan.looks_prefix hu
  refine ⟨n, ?_⟩
  intro p hp
  rw [ha, ← hn, ← hd, mem_looked, and_iff_left hp]

theorem first_looks_in_order_outOfOrder : ∃ t, run (step bootConfig) bootState outOfOrder = some t ∧
    looked ⟨⟨1, 1⟩, TaskPrio.kLowLatency, 0⟩ t.log = [0, 1, 0] ∧
    ∃ n, ∀ p ∈ enqueued ⟨⟨1, 1⟩, TaskPrio.kLowLatency, 0⟩ t.log,
      .deref p ∈ t.log ↔ p ∈ (enqueued ⟨⟨1, 1⟩, TaskPrio.kLowLatency, 0⟩ t.log).take n := by
  have hsome : (run (step bootConfig) bootState outOfOrder).any
      (fun t => looked ⟨⟨1, 1⟩, TaskPrio.kLowLatency, 0⟩ t.log = [0, 1, 0]) = true := by decide +kernel
  obtain ⟨t, ht, hlooked⟩ := (Option.any_eq_true _ _).mp hsome
  exact ⟨t, ht, by simpa using hlooked, first_looks_in_order _ _ outOfOrder t ht _⟩

/-- Between two passes over a lane, what has been popped is everything up to the first task that goes on, although a
pass ends after 1024 entries; what has ended behind it is among the first 1024. -/
theorem popped_between_passes (is : List (Label α)) (t : State α)
    (hr : run (step cfg) (State.init mem registered) is = some t) (hh : t.halted = false) (l : LaneRef)
    (hl : ∀ w c, (t.workers w).cursor = some c → c.lane ≠ l) :
    popped l t.log = (enqueued l t.log).takeWhile (fun p => .endTask p ∈ t.log) ∧
      ∀ (j : ℕ) (p : TaskPtr), ((t.lanes l).map (·.p))[j]? = some p → .endTask p ∈ t.log → j < 1024 := by
  have hknown : Known cfg t := (known_init mem registered).run hr
  obtain ⟨ls, u, hu, heq, -, -⟩ := run_scans_init mem registered hr l
  have hinv := BoundedScan.Inv.of_steps hu
  have hview : t.scanView cfg l = ⟨t.lanes l, none⟩ := by
    rw [State.scanView, passOn_elsewhere (hl _)]
  rw [heq hh, hview] at hinv
  have hended (e : LaneData) (he : e ∈ t.lanes l) (hend : .endTask e.p ∈ t.log) : e.complete = true := by
    rw [← Bool.not_eq_false]
    intro hc
    obtain ⟨p, b⟩ := e
    cases hc
    exact not_ended hknown.lanes he hend
  constructor
  · rw [(laneHistory_of_inv hknown.lanes).fifo l, List.takeWhile_append_of_pos]
    · cases hlane : t.lanes l with
      | nil => simp
      | cons e rest =>
        have hhead : e.complete = false := hinv.head (by simp) e (by simp [hlane])
        have hgoes : .endTask e.p ∉ t.log := by
          intro hend
          rw [hended e (by simp [hlane]) hend] at hhead
          cases hhead
        simp [hgoes]
    · intro p hp
      rw [decide_eq_true_iff, ← List.count_pos_iff, (laneHistory_of_inv hknown.lanes).endedPopped l p hp]
      exact Nat.one_pos
  · intro j p hj hend
    rw [List.getElem?_map, Option.map_eq_some_iff] at hj
    obtain ⟨e, hj, rfl⟩ := hj
    have hc := hended e (List.mem_of_getElem? hj) hend
    obtain ⟨p, b⟩ := e
    cases hc
    exact hinv.ended j p hj

theorem popped_between_passes_outOfOrder : ∃ t, run (step bootConfig) bootState (outOfOrder.take 8) = some t ∧
    .endTask 1 ∈ t.log ∧ popped ⟨⟨1, 1⟩, TaskPrio.kLowLatency, 0⟩ t.log =
      (enqueued ⟨⟨1, 1⟩, TaskPrio.kLowLatency, 0⟩ t.log).takeWhile (fun p => .endTask p ∈ t.log) := by
  have hsome : (run (step bootConfig) bootState (outOfOrder.take 8)).any
      (fun t => t.halted = false ∧ (t.workers 0).cursor.isNone ∧ .endTask 1 ∈ t.log) = true := by decide +kernel
  obtain ⟨t, ht, ha⟩ := (Option.any_eq_true _ _).mp hsome
  obtain ⟨hh, hc, hend⟩ := of_decide_eq_true ha
  refine ⟨t, ht, hend, (popped_between_passes _ _ (outOfOrder.take 8) t ht hh _ ?_).1⟩
  intro w c hw
  -- every lane of `bootConfig` belongs to worker 0
  obtain rfl : 0 = w := ((known_init _ _).run ht).lanes.owned w _ (lanesView_places hw)
  rw [hw] at hc
  cases hc

/-- A whole pass over a lane looks at the tasks there that have not ended, each once and in their order, those that are
enqueued meanwhile included; only what lies behind the first 1024 entries is left to the next pass. -/
theorem pass_looks (is : List (Label α)) (s : State α) (hr : run (step cfg) (State.init mem registered) is = some s)
    (w : WorkerId) (l : LaneRef) (js : List (Label α)) (hjs : ∀ l', .poll w l' ∉ js) (es : List (LaneRef × Task α))
    (t : State α) (hpass : run (step cfg) s (.poll w l :: (js ++ [.scan w es])) = some t)
    (hend : (t.workers w).cursor = none) : ∃ ps, enqueued l t.log = enqueued l s.log ++ ps ∧
      looked l t.log = looked l s.log ++ BoundedScan.live ((s.lanes l ++ BoundedScan.fresh ps).take 1024) :=
  ((known_init mem registered).run hr).wholePass hjs hpass hend

theorem pass_looks_outOfOrder : ∃ s t, run (step bootConfig) bootState (outOfOrder.take 2) = some s ∧
    run (step bootConfig) s (outOfOrder.drop 2 |>.take 6) = some t ∧
    ∃ ps, enqueued ⟨⟨1, 1⟩, TaskPrio.kLowLatency, 0⟩ t.log = enqueued ⟨⟨1, 1⟩, TaskPrio.kLowLatency, 0⟩ s.log ++ ps ∧
      looked ⟨⟨1, 1⟩, TaskPrio.kLowLatency, 0⟩ t.log = looked ⟨⟨1, 1⟩, TaskPrio.kLowLatency, 0⟩ s.log ++
        BoundedScan.live ((s.lanes ⟨⟨1, 1⟩, TaskPrio.kLowLatency, 0⟩ ++ BoundedScan.fresh ps).take 1024) := by
  have hsome : (run (step bootConfig) bootState (outOfOrder.take 2)).any (fun s =>
      (run (step bootConfig) s (outOfOrder.drop 2 |>.take 6)).any
        (fun t => (t.workers 0).cursor.isNone)) = true := by decide +kernel
  obtain ⟨s, hs, ha⟩ := (Option.any_eq_true _ _).mp hsome
  obtain ⟨t, ht, hc⟩ := (Option.any_eq_true _ _).mp ha
  refine ⟨s, t, hs, ht, pass_looks _ _ (outOfOrder.take 2) s hs 0 ⟨⟨1, 1⟩, TaskPrio.kLowLatency, 0⟩
    (outOfOrder.drop 3 |>.take 4) ?_ [] t ht (Option.isNone_iff_eq_none.mp hc)⟩
  simp [outOfOrder]

end Results

end HermesRun.Poll
