import HermesRun.Lib.History
import Mathlib.Data.List.Nodup
import Mathlib.Logic.Function.Basic
import Mathlib.Logic.Relation

/-!
Queues that one consumer scans from the head, ending entries out of order. An ended entry stays
in its queue, marked, until it reaches the head.
-/

namespace ScannedFifo

open History

variable {L W : Type*}

structure Entry where
  p : ℕ
  complete : Bool
  deriving DecidableEq, Repr

inductive Event (L : Type*) where
  | enqueue (l : L) (p : ℕ)
  | deref (p : ℕ)
  | complete (p : ℕ)
  | ended (p : ℕ)
  | pop (l : L) (p : ℕ)
  deriving DecidableEq

structure Place (L : Type*) where
  lane : L
  off : ℕ
  task : Option ℕ

structure State (L W : Type*) where
  lanes : L → List Entry
  next : ℕ
  places : W → Option (Place L)
  log : List (Event L)
  halted : Bool

def enqueuedAt [DecidableEq L] (l : L) : Event L → Option ℕ
  | .enqueue l' p => if l' = l then some p else none
  | _ => none

def poppedFrom [DecidableEq L] (l : L) : Event L → Option ℕ
  | .pop l' p => if l' = l then some p else none
  | _ => none

def enqueued [DecidableEq L] (l : L) (log : List (Event L)) : List ℕ :=
  (log.filterMap (enqueuedAt l)).reverse

def popped [DecidableEq L] (l : L) (log : List (Event L)) : List ℕ :=
  (log.filterMap (poppedFrom l)).reverse

section Log

variable [DecidableEq L] (l : L) (log : List (Event L))

@[simp] theorem enqueued_enqueue (l' : L) (p : ℕ) :
    enqueued l (.enqueue l' p :: log) = enqueued l log ++ if l' = l then [p] else [] := by
  by_cases h : l' = l <;> simp [enqueued, enqueuedAt, h]

@[simp] theorem enqueued_deref (p : ℕ) : enqueued l (.deref p :: log) = enqueued l log := rfl

@[simp] theorem enqueued_complete (p : ℕ) : enqueued l (.complete p :: log) = enqueued l log := rfl

@[simp] theorem enqueued_ended (p : ℕ) : enqueued l (.ended p :: log) = enqueued l log := rfl

@[simp] theorem enqueued_pop (l' : L) (p : ℕ) :
    enqueued l (.pop l' p :: log) = enqueued l log := rfl

@[simp] theorem popped_enqueue (l' : L) (p : ℕ) :
    popped l (.enqueue l' p :: log) = popped l log := rfl

@[simp] theorem popped_deref (p : ℕ) : popped l (.deref p :: log) = popped l log := rfl

@[simp] theorem popped_complete (p : ℕ) : popped l (.complete p :: log) = popped l log := rfl

@[simp] theorem popped_ended (p : ℕ) : popped l (.ended p :: log) = popped l log := rfl

@[simp] theorem popped_pop (l' : L) (p : ℕ) :
    popped l (.pop l' p :: log) = popped l log ++ if l' = l then [p] else [] := by
  by_cases h : l' = l <;> simp [popped, poppedFrom, h]

end Log

variable [DecidableEq L]

def State.place [DecidableEq W] (s : State L W) (w : W) (c : Option (Place L)) : State L W :=
  { s with places := Function.update s.places w c }

def State.enqueue (s : State L W) (l : L) : State L W :=
  { s with
    lanes := Function.update s.lanes l (s.lanes l ++ [⟨s.next, false⟩])
    next := s.next + 1
    log := .enqueue l s.next :: s.log }

def State.mark (s : State L W) (l : L) (off p : ℕ) : State L W :=
  { s with
    lanes := Function.update s.lanes l ((s.lanes l).set off ⟨p, true⟩)
    log := .complete p :: s.log }

def State.endEntry (s : State L W) (l : L) (off p : ℕ) : State L W :=
  { s.mark l off p with log := .ended p :: .complete p :: s.log }

def State.popHead (s : State L W) (l : L) : State L W :=
  match s.lanes l with
  | [] => s
  | e :: rest => { s with lanes := Function.update s.lanes l rest, log := .pop l e.p :: s.log }

inductive Step [DecidableEq W] (owner : L → W) : State L W → State L W → Prop
  | enqueue (s : State L W) (l : L) : Step owner s (s.enqueue l)
  | leave (s : State L W) (w : W) : Step owner s (s.place w none)
  | move (s : State L W) (w : W) (l : L) (off : ℕ) (ho : owner l = w) :
      Step owner s (s.place w (some ⟨l, off, none⟩))
  | halt (s : State L W) : Step owner s { s with halted := true }
  | deref (s : State L W) (l : L) (off p : ℕ) (hp : (s.lanes l)[off]? = some ⟨p, false⟩) :
      Step owner s { s with log := .deref p :: s.log }
  | enter (s : State L W) (w : W) (l : L) (off p : ℕ) (ho : owner l = w)
      (hp : (s.lanes l)[off]? = some ⟨p, false⟩) :
      Step owner s (s.place w (some ⟨l, off, some p⟩))
  | finish (s : State L W) (w : W) (l : L) (off p : ℕ)
      (hw : s.places w = some ⟨l, off, some p⟩) (hh : s.halted = false) :
      Step owner s ((s.endEntry l off p).place w (some ⟨l, off, none⟩))
  | abort (s : State L W) (w : W) (l : L) (off p : ℕ)
      (hw : s.places w = some ⟨l, off, some p⟩) (hh : s.halted = false) :
      Step owner s { s.mark l off p with halted := true }
  | pop (s : State L W) (w : W) (l : L) (hw : s.places w = some ⟨l, 0, none⟩)
      (hh : s.halted = false) (hp : ∀ e, (s.lanes l).head? = some e → e.complete = true) :
      Step owner s (s.popHead l)

def State.endAt [DecidableEq W] (s : State L W) (w : W) (l : L) (off p : ℕ) : State L W :=
  if off = 0 then ((s.endEntry l off p).popHead l).place w (some ⟨l, off, none⟩)
  else (s.endEntry l off p).place w (some ⟨l, off + 1, none⟩)

theorem State.popHead_place [DecidableEq W] (s : State L W) (w : W) (l : L) (c c' : Option (Place L)) :
    ((s.place w c).popHead l).place w c' = (s.popHead l).place w c' := by
  have hl : (s.place w c).lanes l = s.lanes l := rfl
  unfold State.popHead
  rw [hl]
  cases s.lanes l with
  | nil => simp [State.place]
  | cons e rest => simp [State.place]

omit [DecidableEq L] in
theorem State.place_place [DecidableEq W] (s : State L W) (w : W) (c c' : Option (Place L)) :
    (s.place w c).place w c' = s.place w c' := by
  simp [State.place]

theorem endAt_steps [DecidableEq W] {owner : L → W} {s : State L W} {w : W} {l : L} {off p : ℕ}
    (ho : owner l = w) (hw : s.places w = some ⟨l, off, some p⟩) (hh : s.halted = false) :
    Relation.ReflTransGen (Step owner) s (s.endAt w l off p) := by
  have hfinish : Relation.ReflTransGen (Step owner) s ((s.endEntry l off p).place w (some ⟨l, off, none⟩)) :=
    .single (.finish s w l off p hw hh)
  unfold State.endAt
  by_cases hoff : off = 0
  · subst hoff
    rw [if_pos rfl, ← State.popHead_place _ w l (some ⟨l, 0, none⟩)]
    refine (hfinish.tail (.pop _ w l ?_ hh ?_)).tail (.move _ w l 0 ho)
    · simp [State.place]
    · intro e he
      have he' : (((s.lanes l).set 0 ⟨p, true⟩)).head? = some e := by
        simpa [State.place, State.endEntry, State.mark] using he
      cases hl : s.lanes l with
      | nil => simp [hl] at he'
      | cons x rest =>
        simp only [hl, List.set_cons_zero, List.head?_cons, Option.some.injEq] at he'
        rw [← he']
  · rw [if_neg hoff, ← State.place_place _ w (some ⟨l, off, none⟩)]
    exact hfinish.tail (.move _ w l (off + 1) ho)

theorem State.endAt_place [DecidableEq W] (s : State L W) (w : W) (c : Option (Place L)) (l : L)
    (off p : ℕ) : (s.place w c).endAt w l off p = s.endAt w l off p := by
  unfold State.endAt
  rw [show (s.place w c).endEntry l off p = (s.endEntry l off p).place w c from rfl,
    State.popHead_place, State.place_place]

structure Inv (owner : L → W) (s : State L W) : Prop where
  fifo : ∀ l, enqueued l s.log = popped l s.log ++ (s.lanes l).map (·.p)
  fresh : ∀ l p, p ∈ enqueued l s.log → p < s.next
  nodup : ∀ l, (enqueued l s.log).Nodup
  disjoint : ∀ l l' p, p ∈ enqueued l s.log → p ∈ enqueued l' s.log → l = l'
  origin : ∀ p, .ended p ∈ s.log → ∃ l, p ∈ enqueued l s.log
  waiting : ∀ l e, e ∈ s.lanes l → e.complete = false → .ended e.p ∉ s.log
  marked : s.halted = false → ∀ l e, e ∈ s.lanes l → e.complete = true → .ended e.p ∈ s.log
  once : ∀ p, s.log.count (.ended p) ≤ 1
  gone : ∀ l p, p ∈ popped l s.log → .ended p ∈ s.log
  done : ∀ p, .ended p ∈ s.log → .complete p ∈ s.log
  popDone : ∀ l p, At s.log (.pop l p) (.complete p ∈ ·)
  derefs : ∀ p, At s.log (.deref p) (.ended p ∉ ·)
  owned : ∀ w c, s.places w = some c → owner c.lane = w
  running : s.halted = false →
    ∀ w l off p, s.places w = some ⟨l, off, some p⟩ → (s.lanes l)[off]? = some ⟨p, false⟩

namespace Inv

variable {owner : L → W} {s : State L W}

theorem init : Inv owner (⟨fun _ => [], 0, fun _ => none, [], false⟩ : State L W) := by
  constructor <;> simp [enqueued, popped, at_nil]

theorem mem_lane (h : Inv owner s) {l : L} {e : Entry} (he : e ∈ s.lanes l) :
    e.p ∈ enqueued l s.log := by
  rw [h.fifo l]
  exact List.mem_append_right _ (List.mem_map_of_mem he)

theorem next_notMem (h : Inv owner s) (l : L) : s.next ∉ enqueued l s.log := by
  intro hp
  exact Nat.lt_irrefl _ (h.fresh l _ hp)

theorem next_not_ended (h : Inv owner s) : .ended s.next ∉ s.log := by
  intro hp
  obtain ⟨l, hl⟩ := h.origin _ hp
  exact h.next_notMem l hl

theorem entry_unique (h : Inv owner s) {l l' : L} {i j : ℕ} {e e' : Entry}
    (he : (s.lanes l)[i]? = some e) (he' : (s.lanes l')[j]? = some e') (hp : e.p = e'.p) :
    l = l' ∧ i = j := by
  have hl : l = l' := by
    apply h.disjoint l l' e.p (h.mem_lane (List.mem_of_getElem? he))
    rw [hp]
    exact h.mem_lane (List.mem_of_getElem? he')
  subst hl
  have hn : ((s.lanes l).map (·.p)).Nodup := by
    have hn := h.nodup l
    rw [h.fifo l] at hn
    exact (List.nodup_append.mp hn).2.1
  refine ⟨rfl, ?_⟩
  obtain ⟨hi, hei⟩ := List.getElem?_eq_some_iff.mp he
  obtain ⟨hj, hej⟩ := List.getElem?_eq_some_iff.mp he'
  have hi' : i < ((s.lanes l).map (·.p)).length := by simpa using hi
  have hj' : j < ((s.lanes l).map (·.p)).length := by simpa using hj
  have hget : ((s.lanes l).map (·.p))[i] = ((s.lanes l).map (·.p))[j] := by simp [hei, hej, hp]
  exact (List.Nodup.getElem_inj_iff hn).mp hget

theorem place [DecidableEq W] (h : Inv owner s) {w : W} {c : Option (Place L)}
    (ho : ∀ x, c = some x → owner x.lane = w)
    (hr : ∀ l off p, c = some ⟨l, off, some p⟩ → (s.lanes l)[off]? = some ⟨p, false⟩) :
    Inv owner (s.place w c) := by
  refine { h with owned := ?_, running := ?_ }
  · intro w' x hx
    by_cases hw : w' = w
    · subst hw
      exact ho x (by simpa [State.place] using hx)
    · exact h.owned w' x (by simpa [State.place, hw] using hx)
  · intro hh w' l off p hx
    by_cases hw : w' = w
    · subst hw
      exact hr l off p (by simpa [State.place] using hx)
    · exact h.running hh w' l off p (by simpa [State.place, hw] using hx)

theorem deref (h : Inv owner s) {p : ℕ} (hp : .ended p ∉ s.log) :
    Inv owner { s with log := .deref p :: s.log } := by
  constructor <;> simp only [enqueued_deref, popped_deref, List.mem_cons, reduceCtorEq, false_or,
    at_cons, List.count_cons_of_ne (show Event.deref p ≠ .ended _ by simp), false_implies, true_and]
  · exact h.fifo
  · exact h.fresh
  · exact h.nodup
  · exact h.disjoint
  · exact h.origin
  · exact h.waiting
  · exact h.marked
  · exact h.once
  · exact h.gone
  · exact h.done
  · exact h.popDone
  · intro q
    refine ⟨?_, h.derefs q⟩
    intro hq
    rwa [← Event.deref.inj hq]
  · exact h.owned
  · exact h.running

theorem enqueue (h : Inv owner s) (l : L) : Inv owner (s.enqueue l) := by
  have hnew : ∀ l' p, p ∈ enqueued l' (s.enqueue l).log →
      p ∈ enqueued l' s.log ∨ l = l' ∧ p = s.next := by
    intro l' p hp
    by_cases hl : l = l'
    · simpa [State.enqueue, hl] using hp
    · simpa [State.enqueue, hl] using hp
  have hlane : ∀ l' e, e ∈ (s.enqueue l).lanes l' → e ∈ s.lanes l' ∨ e = ⟨s.next, false⟩ := by
    intro l' e he
    by_cases hl : l' = l
    · subst hl
      simpa [State.enqueue] using he
    · left
      simpa [State.enqueue, hl] using he
  have hended : ∀ p, .ended p ∈ (s.enqueue l).log ↔ .ended p ∈ s.log := by
    intro p
    simp [State.enqueue]
  constructor
  · intro l'
    by_cases hl : l' = l
    · subst hl
      simp [State.enqueue, h.fifo l']
    · simp [State.enqueue, h.fifo l', hl, Ne.symm hl]
  · intro l' p hp
    rcases hnew l' p hp with hp | ⟨-, rfl⟩
    · exact Nat.lt_succ_of_lt (h.fresh l' p hp)
    · exact Nat.lt_succ_self _
  · intro l'
    by_cases hl : l = l'
    · subst hl
      have hn : (s.next :: enqueued l s.log).Nodup := List.nodup_cons.mpr ⟨h.next_notMem l, h.nodup l⟩
      simpa [State.enqueue] using (List.perm_append_singleton _ _).nodup_iff.mpr hn
    · simpa [State.enqueue, hl] using h.nodup l'
  · intro l' l'' p hp hp'
    rcases hnew l' p hp with hp | ⟨rfl, rfl⟩
    · rcases hnew l'' p hp' with hp' | ⟨rfl, rfl⟩
      · exact h.disjoint l' l'' p hp hp'
      · exact absurd hp (h.next_notMem l')
    · rcases hnew l'' _ hp' with hp' | ⟨rfl, -⟩
      · exact absurd hp' (h.next_notMem l'')
      · rfl
  · intro p hp
    obtain ⟨l', hl'⟩ := h.origin p ((hended p).mp hp)
    exact ⟨l', by simp [State.enqueue, hl']⟩
  · intro l' e he hc hp
    rw [hended] at hp
    rcases hlane l' e he with he | rfl
    · exact h.waiting l' e he hc hp
    · exact h.next_not_ended hp
  · intro hh l' e he hc
    rw [hended]
    rcases hlane l' e he with he | rfl
    · exact h.marked hh l' e he hc
    · cases hc
  · intro p
    simpa [State.enqueue] using h.once p
  · intro l' p hp
    rw [hended]
    exact h.gone l' p (by simpa [State.enqueue] using hp)
  · intro p hp
    exact List.mem_cons_of_mem _ (h.done p ((hended p).mp hp))
  · intro l' p
    exact at_cons.mpr ⟨fun hx => (by cases hx), h.popDone l' p⟩
  · intro p
    exact at_cons.mpr ⟨fun hx => (by cases hx), h.derefs p⟩
  · exact h.owned
  · intro hh w l' off p hw
    have hr := h.running hh w l' off p hw
    by_cases hl : l' = l
    · subst hl
      simp only [State.enqueue, Function.update_self]
      rw [List.getElem?_append_left (List.getElem?_eq_some_iff.mp hr).1]
      exact hr
    · simpa [State.enqueue, hl] using hr

theorem popHead (h : Inv owner s) {w : W} {l : L} {off : ℕ} (hw : s.places w = some ⟨l, off, none⟩)
    (hh : s.halted = false) (hp : ∀ e, (s.lanes l).head? = some e → e.complete = true) :
    Inv owner (s.popHead l) := by
  unfold State.popHead
  cases hl : s.lanes l with
  | nil => exact h
  | cons e rest =>
    have he : e ∈ s.lanes l := by simp [hl]
    have hcomplete : e.complete = true := hp e (by simp [hl])
    have hended : .ended e.p ∈ s.log := h.marked hh l e he hcomplete
    have hlane : ∀ l' x, x ∈ Function.update s.lanes l rest l' → x ∈ s.lanes l' := by
      intro l' x hx
      by_cases hl' : l' = l
      · subst hl'
        rw [Function.update_self] at hx
        simp [hl, hx]
      · rwa [Function.update_of_ne hl'] at hx
    constructor <;> simp only [enqueued_pop, popped_pop, List.mem_cons, reduceCtorEq, false_or, at_cons,
      List.count_cons_of_ne (show Event.pop l e.p ≠ .ended _ by simp), false_implies, true_and]
    · intro l'
      by_cases hl' : l' = l
      · subst hl'
        simp [h.fifo l', hl]
      · simp [h.fifo l', hl', Ne.symm hl']
    · exact h.fresh
    · exact h.nodup
    · exact h.disjoint
    · exact h.origin
    · intro l' x hx
      exact h.waiting l' x (hlane l' x hx)
    · intro _ l' x hx
      exact h.marked hh l' x (hlane l' x hx)
    · exact h.once
    · intro l' p hpop
      by_cases hl' : l = l'
      · subst hl'
        rcases List.mem_append.mp hpop with hpop | hpop
        · exact h.gone l p hpop
        · have hpe : p = e.p := by simpa using hpop
          rwa [hpe]
      · exact h.gone l' p (by simpa [hl'] using hpop)
    · exact h.done
    · intro l' p
      refine ⟨?_, h.popDone l' p⟩
      intro hx
      obtain ⟨-, rfl⟩ := Event.pop.inj hx
      exact h.done e.p hended
    · exact h.derefs
    · exact h.owned
    · intro _ w' l' off' p hw'
      have hne : l' ≠ l := by
        rintro rfl
        have ho := h.owned w' _ hw'
        have ho' := h.owned w _ hw
        simp only at ho ho'
        rw [← ho, ho', hw] at hw'
        cases hw'
      rw [Function.update_of_ne hne]
      exact h.running hh w' l' off' p hw'

theorem mem_mark (h : Inv owner s) {l : L} {off p : ℕ} (hp : (s.lanes l)[off]? = some ⟨p, false⟩)
    {l' : L} {e : Entry} (he : e ∈ (s.mark l off p).lanes l') :
    e = ⟨p, true⟩ ∨ e ∈ s.lanes l' ∧ e.p ≠ p := by
  obtain ⟨j, hj⟩ := List.mem_iff_getElem?.mp he
  by_cases hl : l' = l
  · subst hl
    simp only [State.mark, Function.update_self, List.getElem?_set] at hj
    by_cases hoff : off = j
    · left
      have hlt : off < (s.lanes l').length := (List.getElem?_eq_some_iff.mp hp).1
      simpa [hoff, hoff ▸ hlt, eq_comm] using hj
    · right
      rw [if_neg hoff] at hj
      refine ⟨List.mem_of_getElem? hj, ?_⟩
      intro hep
      exact hoff (h.entry_unique hj hp hep).2.symm
  · right
    simp only [State.mark, Function.update_of_ne hl] at hj
    refine ⟨List.mem_of_getElem? hj, ?_⟩
    intro hep
    exact hl (h.entry_unique hj hp hep).1

theorem map_mark {l : L} {off p : ℕ} (hp : (s.lanes l)[off]? = some ⟨p, false⟩) (l' : L) :
    ((s.mark l off p).lanes l').map (·.p) = (s.lanes l').map (·.p) := by
  by_cases hl : l' = l
  · subst hl
    obtain ⟨hlt, he⟩ := List.getElem?_eq_some_iff.mp hp
    simp only [State.mark, Function.update_self, List.map_set]
    apply List.ext_getElem?
    intro j
    rw [List.getElem?_set]
    split
    · next hj =>
      subst hj
      simp [hlt, he]
    · rfl
  · simp [State.mark, hl]

theorem abort (h : Inv owner s) {l : L} {off p : ℕ} (hp : (s.lanes l)[off]? = some ⟨p, false⟩) :
    Inv owner { s.mark l off p with halted := true } := by
  constructor <;> simp only [map_mark hp, show (s.mark l off p).log = .complete p :: s.log from rfl,
    show (s.mark l off p).next = s.next from rfl, show (s.mark l off p).places = s.places from rfl,
    enqueued_complete, popped_complete, List.mem_cons, reduceCtorEq, false_or, at_cons,
    List.count_cons_of_ne (show Event.complete p ≠ .ended _ by simp), false_implies, true_and]
  · exact h.fifo
  · exact h.fresh
  · exact h.nodup
  · exact h.disjoint
  · exact h.origin
  · intro l' e he hc
    rcases h.mem_mark hp he with rfl | ⟨he, -⟩
    · cases hc
    · exact h.waiting l' e he hc
  · exact h.once
  · exact h.gone
  · intro q hq
    exact Or.inr (h.done q hq)
  · exact h.popDone
  · exact h.derefs
  · exact h.owned

theorem close (h : Inv owner s) {b : Bool} {l : L} {p : ℕ} (hl : p ∈ enqueued l s.log)
    (hc : .complete p ∈ s.log) (hn : .ended p ∉ s.log)
    (hw : ∀ l e, e ∈ s.lanes l → e.complete = false → e.p ≠ p)
    (hm : b = false → ∀ l e, e ∈ s.lanes l → e.complete = true → e.p = p ∨ .ended e.p ∈ s.log)
    (hr : b = false → ∀ w l off p, s.places w = some ⟨l, off, some p⟩ →
      (s.lanes l)[off]? = some ⟨p, false⟩) :
    Inv owner { s with log := .ended p :: s.log, halted := b } := by
  constructor <;> simp only [enqueued_ended, popped_ended, List.mem_cons, reduceCtorEq, false_or, at_cons,
    Event.ended.injEq, false_implies, true_and]
  · exact h.fifo
  · exact h.fresh
  · exact h.nodup
  · exact h.disjoint
  · rintro q (rfl | hq)
    · exact ⟨l, hl⟩
    · exact h.origin q hq
  · rintro l' e he hcomplete (hep | hep)
    · exact hw l' e he hcomplete hep
    · exact h.waiting l' e he hcomplete hep
  · exact hm
  · intro q
    by_cases hq : q = p
    · subst hq
      have hz := List.count_eq_zero.mpr hn
      rw [List.count_cons_self]
      omega
    · rw [List.count_cons_of_ne (by simpa using Ne.symm hq)]
      exact h.once q
  · intro l' q hq
    exact Or.inr (h.gone l' q hq)
  · rintro q (rfl | hq)
    · exact hc
    · exact h.done q hq
  · exact h.popDone
  · exact h.derefs
  · exact h.owned
  · exact hr

theorem finish [DecidableEq W] (h : Inv owner s) {w : W} {l : L} {off p : ℕ}
    (hw : s.places w = some ⟨l, off, some p⟩) (hh : s.halted = false) :
    Inv owner ((s.endEntry l off p).place w (some ⟨l, off, none⟩)) := by
  have hp := h.running hh w l off p hw
  have ho : owner l = w := h.owned w _ hw
  have hmem := List.mem_of_getElem? hp
  have hplaced : Inv owner ({ s.mark l off p with halted := true }.place w (some ⟨l, off, none⟩)) := by
    apply (h.abort hp).place
    · rintro x ⟨⟩
      exact ho
    · simp
  refine hplaced.close (b := s.halted) (l := l) (p := p) (h.mem_lane hmem) List.mem_cons_self ?_ ?_ ?_ ?_
  · have hn := h.waiting l _ hmem rfl
    simpa [State.place, State.mark] using hn
  · intro l' e he hc hep
    rcases h.mem_mark hp he with rfl | ⟨-, hne⟩
    · cases hc
    · exact hne hep
  · intro hh l' e he hc
    rcases h.mem_mark hp he with rfl | ⟨he, -⟩
    · exact Or.inl rfl
    · exact Or.inr (List.mem_cons_of_mem _ (h.marked hh l' e he hc))
  · intro _ w' l' off' q hw'
    have hne : w' ≠ w := by
      rintro rfl
      simp [State.place] at hw'
    have hw'' : s.places w' = some ⟨l', off', some q⟩ := by
      simpa [State.place, State.mark, hne] using hw'
    have hl : l' ≠ l := by
      rintro rfl
      exact hne ((h.owned w' _ hw'').symm.trans ho)
    simpa [State.place, State.mark, hl] using h.running hh w' l' off' q hw''

theorem waiting_enqueue (s : State L W) (l l' : L) (q : ℕ) :
    ⟨q, false⟩ ∈ (s.enqueue l).lanes l' ↔ ⟨q, false⟩ ∈ s.lanes l' ∨ l' = l ∧ q = s.next := by
  by_cases hl : l' = l
  · subst hl
    simp [State.enqueue]
  · simp [State.enqueue, hl]

theorem waiting_popHead (hp : ∀ e, (s.lanes l).head? = some e → e.complete = true) (l' : L) (q : ℕ) :
    ⟨q, false⟩ ∈ (s.popHead l).lanes l' ↔ ⟨q, false⟩ ∈ s.lanes l' := by
  unfold State.popHead
  cases hl : s.lanes l with
  | nil => rfl
  | cons e rest =>
    by_cases hl' : l' = l
    · subst hl'
      have hne : (⟨q, false⟩ : Entry) ≠ e := by
        rintro rfl
        have hc := hp _ (by rw [hl]; rfl)
        cases hc
      simp [hl, hne]
    · simp [hl']

theorem waiting_mark (h : Inv owner s) {l : L} {off p : ℕ} (hp : (s.lanes l)[off]? = some ⟨p, false⟩)
    (l' : L) (q : ℕ) : ⟨q, false⟩ ∈ (s.mark l off p).lanes l' ↔ ⟨q, false⟩ ∈ s.lanes l' ∧ q ≠ p := by
  constructor
  · intro hq
    rcases h.mem_mark hp hq with heq | hq
    · cases heq
    · exact hq
  · rintro ⟨hq, hne⟩
    by_cases hl : l' = l
    · subst hl
      obtain ⟨j, hj⟩ := List.mem_iff_getElem?.mp hq
      have hoff : off ≠ j := by
        rintro rfl
        rw [hp, Option.some.injEq, Entry.mk.injEq] at hj
        exact hne hj.1.symm
      apply List.mem_of_getElem? (i := j)
      simp only [State.mark, Function.update_self]
      rw [List.getElem?_set_ne hoff]
      exact hj
    · simpa [State.mark, hl] using hq

theorem waiting_endAt [DecidableEq W] (h : Inv owner s) {w : W} {l : L} {off p : ℕ}
    (hp : (s.lanes l)[off]? = some ⟨p, false⟩) (l' : L) (q : ℕ) :
    ⟨q, false⟩ ∈ (s.endAt w l off p).lanes l' ↔ ⟨q, false⟩ ∈ s.lanes l' ∧ q ≠ p := by
  rw [← h.waiting_mark hp l' q]
  unfold State.endAt
  by_cases hoff : off = 0
  · subst hoff
    rw [if_pos rfl]
    apply waiting_popHead
    intro e he
    have hcons : ∃ x rest, s.lanes l = x :: rest := by
      cases hl : s.lanes l with
      | nil => simp [hl] at hp
      | cons x rest => exact ⟨x, rest, rfl⟩
    obtain ⟨x, rest, hl⟩ := hcons
    simp only [State.endEntry, State.mark, Function.update_self, hl, List.set_cons_zero, List.head?_cons,
      Option.some.injEq] at he
    rw [← he]
  · rw [if_neg hoff]
    exact Iff.rfl

theorem step [DecidableEq W] {t : State L W} (h : Inv owner s) (hst : Step owner s t) : Inv owner t := by
  cases hst with
  | enqueue l => exact h.enqueue l
  | leave w => exact h.place (by simp) (by simp)
  | move w l off ho =>
    apply h.place
    · rintro x ⟨⟩
      exact ho
    · simp
  | halt => exact { h with marked := by simp, running := by simp }
  | deref l off p hp => exact h.deref (h.waiting l _ (List.mem_of_getElem? hp) rfl)
  | enter w l off p ho hp =>
    apply h.place
    · rintro x ⟨⟩
      exact ho
    · rintro l' off' p' ⟨⟩
      exact hp
  | finish w l off p hw hh => exact h.finish hw hh
  | abort w l off p hw hh => exact h.abort (h.running hh w l off p hw)
  | pop w l hw hh hp => exact h.popHead hw hh hp

theorem steps [DecidableEq W] {t : State L W} (h : Inv owner s)
    (hst : Relation.ReflTransGen (Step owner) s t) : Inv owner t := by
  induction hst with
  | refl => exact h
  | tail _ hst ih => exact ih.step hst

end Inv

section Looks

def visitedBy : Event L → Option ℕ
  | .deref p => some p
  | _ => none

def visited (log : List (Event L)) : List ℕ := (log.filterMap visitedBy).reverse

def looked (l : L) (log : List (Event L)) : List ℕ := (visited log).filter (· ∈ enqueued l log)

variable (l : L) (log : List (Event L))

omit [DecidableEq L] in
@[simp] theorem visited_enqueue (l' : L) (p : ℕ) : visited (.enqueue l' p :: log) = visited log := rfl

omit [DecidableEq L] in
@[simp] theorem visited_deref (p : ℕ) : visited (.deref p :: log) = visited log ++ [p] := by
  simp [visited, visitedBy]

omit [DecidableEq L] in
@[simp] theorem visited_complete (p : ℕ) : visited (.complete p :: log) = visited log := rfl

omit [DecidableEq L] in
@[simp] theorem visited_ended (p : ℕ) : visited (.ended p :: log) = visited log := rfl

omit [DecidableEq L] in
@[simp] theorem visited_pop (l' : L) (p : ℕ) : visited (.pop l' p :: log) = visited log := rfl

theorem looked_deref (p : ℕ) :
    looked l (.deref p :: log) = looked l log ++ if p ∈ enqueued l log then [p] else [] := by
  rw [looked, looked, visited_deref, List.filter_append]
  apply congrArg
  by_cases hp : p ∈ enqueued l log <;> simp [hp]

variable {l log}

theorem looked_congr {log' : List (Event L)} (hd : visited log' = visited log) (ha : enqueued l log' = enqueued l log) :
    looked l log' = looked l log := by
  rw [looked, looked, hd, ha]

theorem looked_enqueue {l' : L} {p : ℕ} (hp : p ∉ visited log) : looked l (.enqueue l' p :: log) = looked l log := by
  rw [looked, looked, visited_enqueue]
  apply List.filter_congr
  intro q hq
  have hne : q ≠ p := ne_of_mem_of_not_mem hq hp
  by_cases hl : l' = l <;> simp [hl, hne]

variable {s : State L W}

theorem visited_popHead (l' : L) : visited (s.popHead l').log = visited s.log := by
  unfold State.popHead
  cases s.lanes l' <;> rfl

theorem enqueued_popHead (l l' : L) : enqueued l (s.popHead l').log = enqueued l s.log := by
  unfold State.popHead
  cases s.lanes l' <;> rfl

theorem visited_endAt [DecidableEq W] (w : W) (l' : L) (off p : ℕ) : visited (s.endAt w l' off p).log = visited s.log := by
  unfold State.endAt
  split_ifs
  · exact visited_popHead l'
  · rfl

theorem enqueued_endAt [DecidableEq W] (l : L) (w : W) (l' : L) (off p : ℕ) :
    enqueued l (s.endAt w l' off p).log = enqueued l s.log := by
  unfold State.endAt
  split_ifs
  · exact enqueued_popHead l l'
  · rfl

theorem popHead_lane (l : L) : (s.popHead l).lanes l = (s.lanes l).tail := by
  unfold State.popHead
  cases hl : s.lanes l with
  | nil => simp [hl]
  | cons e rest => simp

theorem endAt_lane [DecidableEq W] (w : W) (l : L) (off p : ℕ) : (s.endAt w l off p).lanes l =
    if off = 0 then ((s.lanes l).set off ⟨p, true⟩).tail else (s.lanes l).set off ⟨p, true⟩ := by
  unfold State.endAt
  split_ifs with hoff
  · rw [State.place, popHead_lane]
    simp [State.endEntry, State.mark]
  · simp [State.place, State.endEntry, State.mark]

theorem Inv.visited_step [DecidableEq W] {owner : L → W} {t : State L W} (h : Inv owner s)
    (hd : ∀ p ∈ visited s.log, ∃ l, p ∈ enqueued l s.log) (hst : Step owner s t) :
    ∀ p ∈ visited t.log, ∃ l, p ∈ enqueued l t.log := by
  cases hst with
  | enqueue l' =>
    intro p hp
    obtain ⟨l, hl⟩ := hd p hp
    exact ⟨l, by simp [State.enqueue, hl]⟩
  | leave w => exact hd
  | move w l' off ho => exact hd
  | halt => exact hd
  | deref l' off q hq =>
    intro p hp
    rw [visited_deref, List.mem_append, List.mem_singleton] at hp
    rcases hp with hp | rfl
    · exact hd p hp
    · exact ⟨l', h.mem_lane (List.mem_of_getElem? hq)⟩
  | enter w l' off q ho hq => exact hd
  | finish w l' off q hw hh => exact hd
  | abort w l' off q hw hh => exact hd
  | pop w l' hw hh hq =>
    intro p hp
    rw [visited_popHead] at hp
    obtain ⟨l, hl⟩ := hd p hp
    exact ⟨l, by rwa [enqueued_popHead]⟩

theorem Inv.visited_steps [DecidableEq W] {owner : L → W} {t : State L W} (h : Inv owner s)
    (hd : ∀ p ∈ visited s.log, ∃ l, p ∈ enqueued l s.log) (hst : Relation.ReflTransGen (Step owner) s t) :
    ∀ p ∈ visited t.log, ∃ l, p ∈ enqueued l t.log := by
  induction hst with
  | refl => exact hd
  | tail hsts hst ih => exact (h.steps hsts).visited_step ih hst

end Looks

end ScannedFifo
