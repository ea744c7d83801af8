import HermesRun.Lib.ScannedFifo

/-!
One queue that its consumer goes through in passes of at most `bound` iterations. An iteration drops an ended entry
from the head or steps over one behind it, or it takes an entry in hand, to end it or to leave it where it is.
-/

namespace BoundedScan

open ScannedFifo (Entry)

structure Pass where
  i : ℕ
  off : ℕ
  inHand : Bool

structure State where
  queue : List Entry
  pass : Option Pass

inductive Label where
  | enqueue (p : ℕ)
  | start
  | leave
  | passOver
  | look (p : ℕ)
  | finish
  | keep
  deriving DecidableEq

def Label.arrival : Label → Option ℕ
  | .enqueue p => some p
  | _ => none

def Label.looked : Label → Option ℕ
  | .look p => some p
  | _ => none

def arrivals (ls : List Label) : List ℕ := ls.filterMap Label.arrival

def looks (ls : List Label) : List ℕ := ls.filterMap Label.looked

def fresh (ps : List ℕ) : List Entry := ps.map fun p => ⟨p, false⟩

/-- The iteration is done with an ended entry, which leaves the queue if it is the head. -/
def next (q : List Entry) (i off : ℕ) : State :=
  if off = 0 then ⟨q.tail, some ⟨i + 1, 0, false⟩⟩ else ⟨q, some ⟨i + 1, off + 1, false⟩⟩

inductive Step (bound : ℕ) : State → Label → State → Prop
  | enqueue (s : State) (p : ℕ) : Step bound s (.enqueue p) ⟨s.queue ++ [⟨p, false⟩], s.pass⟩
  | start (q : List Entry) : Step bound ⟨q, none⟩ .start ⟨q, some ⟨0, 0, false⟩⟩
  | leave (q : List Entry) (i off : ℕ) (h : bound ≤ i ∨ q.length ≤ off) :
      Step bound ⟨q, some ⟨i, off, false⟩⟩ .leave ⟨q, none⟩
  | passOver (q : List Entry) (i off p : ℕ) (hi : i < bound) (hp : q[off]? = some ⟨p, true⟩) :
      Step bound ⟨q, some ⟨i, off, false⟩⟩ .passOver (next q i off)
  | look (q : List Entry) (i off p : ℕ) (hi : i < bound) (hp : q[off]? = some ⟨p, false⟩) :
      Step bound ⟨q, some ⟨i, off, false⟩⟩ (.look p) ⟨q, some ⟨i, off, true⟩⟩
  | finish (q : List Entry) (i off p : ℕ) (hp : q[off]? = some ⟨p, false⟩) :
      Step bound ⟨q, some ⟨i, off, true⟩⟩ .finish (next (q.set off ⟨p, true⟩) i off)
  | keep (q : List Entry) (i off : ℕ) :
      Step bound ⟨q, some ⟨i, off, true⟩⟩ .keep ⟨q, some ⟨i + 1, off + 1, false⟩⟩

inductive Steps (bound : ℕ) (s : State) : List Label → State → Prop
  | refl : Steps bound s [] s
  | tail {ls : List Label} {t u : State} {l : Label} (h : Steps bound s ls t) (hst : Step bound t l u) :
      Steps bound s (ls ++ [l]) u

variable {bound : ℕ} {s t u : State} {ls ms : List Label} {l : Label}

theorem Steps.single (hst : Step bound s l t) : Steps bound s [l] t := .tail .refl hst

theorem Steps.trans (h : Steps bound s ls t) (h' : Steps bound t ms u) : Steps bound s (ls ++ ms) u := by
  induction h' with
  | refl => simpa using h
  | tail _ hst ih =>
    rw [← List.append_assoc]
    exact .tail ih hst

theorem Steps.invariant {I : State → Prop} (hstep : ∀ s l t, I s → Step bound s l t → I t) (hs : I s)
    (h : Steps bound s ls t) : I t := by
  induction h with
  | refl => exact hs
  | tail _ hst ih => exact hstep _ _ _ ih hst

theorem arrivals_append (ls ms : List Label) : arrivals (ls ++ ms) = arrivals ls ++ arrivals ms :=
  List.filterMap_append ..

theorem looks_append (ls ms : List Label) : looks (ls ++ ms) = looks ls ++ looks ms :=
  List.filterMap_append ..

theorem arrivals_concat (ls : List Label) (l : Label) : arrivals (ls ++ [l]) = arrivals ls ++ l.arrival.toList := by
  rw [arrivals_append]
  cases l <;> rfl

theorem looks_concat (ls : List Label) (l : Label) : looks (ls ++ [l]) = looks ls ++ l.looked.toList := by
  rw [looks_append]
  cases l <;> rfl

theorem fresh_append (ps qs : List ℕ) : fresh (ps ++ qs) = fresh ps ++ fresh qs := List.map_append

theorem ended_enqueue {q : List Entry} {p r j : ℕ} (h : (q ++ [⟨p, false⟩])[j]? = some ⟨r, true⟩) :
    q[j]? = some ⟨r, true⟩ := by
  rcases Nat.lt_or_ge j q.length with hlt | hge
  · rwa [List.getElem?_append_left hlt] at h
  · rw [List.getElem?_append_right hge, List.getElem?_singleton] at h
    split_ifs at h
    cases h

section Heads

def window (bound : ℕ) : Option Pass → ℕ
  | none => bound
  | some c => bound + c.off - c.i

structure Inv (bound : ℕ) (s : State) : Prop where
  cursor : ∀ c, s.pass = some c → c.off ≤ c.i ∧ c.i ≤ bound ∧
    (c.inHand = true → c.i < bound ∧ ∃ p, s.queue[c.off]? = some ⟨p, false⟩)
  ended : ∀ (j : ℕ) p, s.queue[j]? = some ⟨p, true⟩ → j < window bound s.pass
  head : (∀ c, s.pass = some c → c.off ≠ 0) → ∀ e, s.queue[0]? = some e → e.complete = false

theorem inv_init (bound : ℕ) : Inv bound ⟨[], none⟩ := by
  constructor <;> simp

theorem Inv.next {q : List Entry} {i off : ℕ} {b : Bool} (h : Inv bound ⟨q, some ⟨i, off, b⟩⟩) (hi : i < bound)
    {q' : List Entry} (hq : ∀ j, j ≠ off → q'[j]? = q[j]?) : Inv bound (BoundedScan.next q' i off) := by
  obtain ⟨hoff, -, -⟩ := h.cursor _ rfl
  dsimp only at hoff
  unfold BoundedScan.next
  split_ifs with hz
  · subst hz
    refine ⟨?_, ?_, ?_⟩
    · rintro c ⟨⟩
      exact ⟨Nat.zero_le _, hi, by simp⟩
    · intro j p hj
      rw [List.getElem?_tail, hq (j + 1) (by omega)] at hj
      have hlt := h.ended (j + 1) p hj
      simp only [window] at hlt ⊢
      omega
    · intro hne
      exact absurd rfl (hne _ rfl)
  · refine ⟨?_, ?_, ?_⟩
    · rintro c ⟨⟩
      dsimp only
      exact ⟨by omega, hi, by simp⟩
    · intro j p hj
      simp only [window]
      by_cases hjo : j = off
      · omega
      · rw [hq j hjo] at hj
        have hlt := h.ended j p hj
        simp only [window] at hlt
        omega
    · intro _ e he
      rw [hq 0 (Ne.symm hz)] at he
      apply h.head _ e he
      rintro c ⟨⟩
      exact hz

theorem Inv.enqueue (h : Inv bound s) (p : ℕ) : Inv bound ⟨s.queue ++ [⟨p, false⟩], s.pass⟩ := by
  refine ⟨?_, ?_, ?_⟩
  · intro c hc
    obtain ⟨hoff, hi, hhand⟩ := h.cursor c hc
    refine ⟨hoff, hi, ?_⟩
    intro hb
    obtain ⟨hlt, q, hq⟩ := hhand hb
    refine ⟨hlt, q, ?_⟩
    rw [List.getElem?_append_left (List.getElem?_eq_some_iff.mp hq).1]
    exact hq
  · intro j q hj
    exact h.ended j q (ended_enqueue hj)
  · intro hne e he
    cases hq : s.queue with
    | nil =>
      rw [hq] at he
      cases he
      rfl
    | cons x xs =>
      apply h.head hne e
      rw [hq] at he ⊢
      exact he

theorem Inv.leave {q : List Entry} {i off : ℕ} (h : Inv bound ⟨q, some ⟨i, off, false⟩⟩)
    (hstop : bound ≤ i ∨ q.length ≤ off) : Inv bound ⟨q, none⟩ := by
  obtain ⟨hoff, hi, -⟩ := h.cursor _ rfl
  dsimp only at hoff hi
  refine ⟨by simp, ?_, ?_⟩
  · intro j p hj
    have hlt := h.ended j p hj
    simp only [window] at hlt ⊢
    omega
  · intro _ e he
    by_cases hz : off = 0
    · -- the pass has popped everything it came to, so nothing behind has been ended
      subst hz
      obtain ⟨p, b⟩ := e
      cases b with
      | false => rfl
      | true =>
        have hlt := h.ended 0 p he
        have hpos := (List.getElem?_eq_some_iff.mp he).1
        simp only [window] at hlt hpos
        omega
    · apply h.head _ e he
      rintro c ⟨⟩
      exact hz

theorem Inv.keep {q : List Entry} {i off : ℕ} (h : Inv bound ⟨q, some ⟨i, off, true⟩⟩) :
    Inv bound ⟨q, some ⟨i + 1, off + 1, false⟩⟩ := by
  obtain ⟨hoff, -, hhand⟩ := h.cursor _ rfl
  obtain ⟨hi, p, hp⟩ := hhand rfl
  dsimp only at hoff hi hp
  refine ⟨?_, ?_, ?_⟩
  · rintro c ⟨⟩
    dsimp only
    exact ⟨by omega, hi, by simp⟩
  · intro j r hj
    have hlt := h.ended j r hj
    simp only [window] at hlt ⊢
    omega
  · intro _ e he
    by_cases hz : off = 0
    · subst hz
      rw [hp] at he
      cases he
      rfl
    · apply h.head _ e he
      rintro c ⟨⟩
      exact hz

theorem Inv.step (h : Inv bound s) (hst : Step bound s l t) : Inv bound t := by
  cases hst with
  | enqueue _ p => exact h.enqueue p
  | start q =>
    refine ⟨?_, h.ended, ?_⟩
    · rintro c ⟨⟩
      simp
    · intro hne
      exact absurd rfl (hne _ rfl)
  | leave q i off hstop => exact h.leave hstop
  | passOver q i off p hi hp => exact h.next hi fun _ _ => rfl
  | look q i off p hi hp =>
    refine ⟨?_, h.ended, ?_⟩
    · rintro c ⟨⟩
      obtain ⟨hoff, hle, -⟩ := h.cursor _ rfl
      exact ⟨hoff, hle, fun _ => ⟨hi, p, hp⟩⟩
    · intro hne
      apply h.head
      rintro c ⟨⟩
      exact hne ⟨i, off, true⟩ rfl
  | finish q i off p hp =>
    obtain ⟨-, -, hhand⟩ := h.cursor _ rfl
    exact h.next (hhand rfl).1 fun j hj => List.getElem?_set_ne (Ne.symm hj)
  | keep q i off => exact h.keep

theorem Inv.of_steps (h : Steps bound ⟨[], none⟩ ls t) : Inv bound t :=
  h.invariant (fun _ _ _ hs hst => hs.step hst) (inv_init bound)

end Heads

section Order

structure Seen (arrived looked : List ℕ) (s : State) (m n : ℕ) : Prop where
  left : m ≤ n
  seen : n ≤ arrived.length
  queue : s.queue.map Entry.p = arrived.drop m
  mem : ∀ p, p ∈ looked ↔ p ∈ arrived.take n
  ended : ∀ (j : ℕ) p, s.queue[j]? = some ⟨p, true⟩ → m + j < n
  cursor : ∀ c, s.pass = some c → m + c.off ≤ n ∧ (c.inHand = true → m + c.off < n)

variable {arrived looked : List ℕ} {m n : ℕ}

theorem seen_init : Seen [] [] ⟨[], none⟩ 0 0 := by
  constructor <;> simp

theorem Seen.next {q : List Entry} {i off : ℕ} {b : Bool} (h : Seen arrived looked ⟨q, some ⟨i, off, b⟩⟩ m n)
    (hn : m + off < n) {q' : List Entry} (hq : ∀ j, j ≠ off → q'[j]? = q[j]?) (hmap : q'.map Entry.p = q.map Entry.p) :
    ∃ m', Seen arrived looked (BoundedScan.next q' i off) m' n := by
  have hqueue : q'.map Entry.p = arrived.drop m := hmap.trans h.queue
  unfold BoundedScan.next
  split_ifs with hz
  · subst hz
    refine ⟨m + 1, by omega, h.seen, ?_, h.mem, ?_, ?_⟩
    · rw [List.map_tail, hqueue, List.tail_drop]
    · intro j p hj
      rw [List.getElem?_tail, hq (j + 1) (by omega)] at hj
      have hlt := h.ended (j + 1) p hj
      omega
    · rintro c ⟨⟩
      exact ⟨hn, by simp⟩
  · refine ⟨m, h.left, h.seen, hqueue, h.mem, ?_, ?_⟩
    · intro j p hj
      by_cases hjo : j = off
      · omega
      · rw [hq j hjo] at hj
        exact h.ended j p hj
    · rintro c ⟨⟩
      exact ⟨hn, by simp⟩

theorem Seen.enqueue (h : Seen arrived looked s m n) (p : ℕ) :
    Seen (arrived ++ [p]) looked ⟨s.queue ++ [⟨p, false⟩], s.pass⟩ m n := by
  have hdrop : (arrived ++ [p]).drop m = arrived.drop m ++ [p] :=
    List.drop_append_of_le_length (Nat.le_trans h.left h.seen)
  have htake : (arrived ++ [p]).take n = arrived.take n := List.take_append_of_le_length h.seen
  refine ⟨h.left, ?_, ?_, ?_, ?_, h.cursor⟩
  · have hle := h.seen
    rw [List.length_append]
    omega
  · rw [List.map_append, h.queue]
    exact hdrop.symm
  · intro r
    rw [h.mem, htake]
  · intro j r hj
    exact h.ended j r (ended_enqueue hj)

theorem Seen.look {q : List Entry} {i off p : ℕ} (h : Seen arrived looked ⟨q, some ⟨i, off, false⟩⟩ m n)
    (hp : q[off]? = some ⟨p, false⟩) :
    Seen arrived (looked ++ [p]) ⟨q, some ⟨i, off, true⟩⟩ m (max n (m + off + 1)) := by
  obtain ⟨hle, -⟩ := h.cursor _ rfl
  dsimp only at hle
  -- the entry at the cursor is the one that arrived after the `m + off` before it
  have hentry : arrived[m + off]? = some p := by
    rw [← List.getElem?_drop, ← h.queue, List.getElem?_map, hp]
    rfl
  obtain ⟨hlt, hget⟩ := List.getElem?_eq_some_iff.mp hentry
  have hleft := h.left
  have hseen := h.seen
  refine ⟨by omega, by omega, h.queue, ?_, ?_, ?_⟩
  · intro r
    rw [List.mem_append, h.mem, List.mem_singleton]
    rcases Nat.lt_or_ge (m + off) n with hn | hn
    · rw [Nat.max_eq_left (by omega)]
      refine or_iff_left_of_imp ?_
      rintro rfl
      rw [← hget]
      exact List.mem_take_iff_getElem.mpr ⟨m + off, by omega, rfl⟩
    · have heq : n = m + off := by omega
      rw [Nat.max_eq_right (by omega), heq, List.take_add_one, hentry, List.mem_append, Option.toList_some,
        List.mem_singleton]
  · intro j r hj
    have hend := h.ended j r hj
    omega
  · rintro c ⟨⟩
    dsimp only
    omega

theorem map_set_ended {q : List Entry} {off p : ℕ} {b : Bool} (hp : q[off]? = some ⟨p, b⟩) :
    (q.set off ⟨p, true⟩).map Entry.p = q.map Entry.p := by
  rw [List.map_set]
  apply List.ext_getElem?
  intro j
  by_cases hj : off = j
  · subst hj
    have hlt := (List.getElem?_eq_some_iff.mp hp).1
    rw [List.getElem?_set_self (by simpa using hlt), List.getElem?_map, hp]
    rfl
  · rw [List.getElem?_set_ne hj]

theorem Seen.step (h : Seen arrived looked s m n) (hst : Step bound s l t) :
    ∃ m' n', Seen (arrived ++ l.arrival.toList) (looked ++ l.looked.toList) t m' n' := by
  cases hst with
  | enqueue _ p =>
    refine ⟨m, n, ?_⟩
    simp only [Label.arrival, Label.looked, Option.toList_none, Option.toList_some, List.append_nil]
    exact h.enqueue p
  | start q =>
    refine ⟨m, n, ?_⟩
    simp only [Label.arrival, Label.looked, Option.toList_none, List.append_nil]
    refine ⟨h.left, h.seen, h.queue, h.mem, h.ended, ?_⟩
    rintro c ⟨⟩
    exact ⟨h.left, by simp⟩
  | leave q i off hstop =>
    refine ⟨m, n, ?_⟩
    simp only [Label.arrival, Label.looked, Option.toList_none, List.append_nil]
    exact ⟨h.left, h.seen, h.queue, h.mem, h.ended, by simp⟩
  | passOver q i off p hi hp =>
    obtain ⟨m', hm'⟩ := h.next (h.ended off p hp) (fun _ _ => rfl) rfl
    exact ⟨m', n, by simpa [Label.arrival, Label.looked, fresh] using hm'⟩
  | look q i off p hi hp =>
    refine ⟨m, max n (m + off + 1), ?_⟩
    simp only [Label.arrival, Label.looked, Option.toList_none, Option.toList_some, List.append_nil]
    exact h.look hp
  | finish q i off p hp =>
    obtain ⟨-, hhand⟩ := h.cursor _ rfl
    obtain ⟨m', hm'⟩ := h.next (hhand rfl) (fun j hj => List.getElem?_set_ne (Ne.symm hj)) (map_set_ended hp)
    exact ⟨m', n, by simpa [Label.arrival, Label.looked, fresh] using hm'⟩
  | keep q i off =>
    obtain ⟨-, hhand⟩ := h.cursor _ rfl
    have hlt := hhand rfl
    refine ⟨m, n, ?_⟩
    simp only [Label.arrival, Label.looked, Option.toList_none, List.append_nil]
    refine ⟨h.left, h.seen, h.queue, h.mem, h.ended, ?_⟩
    rintro c ⟨⟩
    dsimp only at hlt ⊢
    exact ⟨by omega, by simp⟩

theorem looks_prefix (h : Steps bound ⟨[], none⟩ ls t) : ∃ n, ∀ p, p ∈ looks ls ↔ p ∈ (arrivals ls).take n := by
  have hseen : ∃ m n, Seen (arrivals ls) (looks ls) t m n := by
    induction h with
    | refl => exact ⟨0, 0, seen_init⟩
    | tail _ hst ih =>
      obtain ⟨m, n, hs⟩ := ih
      rw [arrivals_concat, looks_concat]
      exact hs.step hst
  obtain ⟨m, n, hs⟩ := hseen
  exact ⟨n, hs.mem⟩

end Order

section OnePass

def live (q : List Entry) : List ℕ := (q.filter fun e => !e.complete).map Entry.p

def Label.isInner : Label → Bool
  | .start => false
  | .leave => false
  | _ => true

theorem live_append (q q' : List Entry) : live (q ++ q') = live q ++ live q' := by
  simp [live]

structure Covers (bound : ℕ) (total : List Entry) (looked : List ℕ) (s : State) (c : Pass) : Prop where
  pass : s.pass = some c
  reach : c.i ≤ bound
  off : c.off ≤ s.queue.length
  rest : s.queue.drop c.off = total.drop c.i
  within : c.i ≤ total.length
  log : looked = live (total.take c.i) ++ if c.inHand then live (total[c.i]?.toList) else []
  hand : c.inHand = true → c.i < bound ∧ ∃ p, total[c.i]? = some ⟨p, false⟩

theorem Covers.entry {total : List Entry} {looked : List ℕ} {c : Pass} (h : Covers bound total looked s c) :
    total[c.i]? = s.queue[c.off]? := by
  have hget := congrArg (·[0]?) h.rest
  simpa [List.getElem?_drop] using hget.symm

theorem Covers.next {total : List Entry} {looked looked' : List ℕ} {q q' : List Entry} {i off : ℕ} {b : Bool}
    (h : Covers bound total looked ⟨q, some ⟨i, off, b⟩⟩ ⟨i, off, b⟩) (hi : i < bound) {e : Entry}
    (he : q[off]? = some e) (hq : q'.drop (off + 1) = q.drop (off + 1)) (hlen : q'.length = q.length)
    (hlooked : looked' = live (total.take (i + 1))) :
    ∃ c, Covers bound total looked' (BoundedScan.next q' i off) c := by
  have hentry : total[i]? = some e := h.entry.trans he
  obtain ⟨hlt, -⟩ := List.getElem?_eq_some_iff.mp hentry
  obtain ⟨hoff, -⟩ := List.getElem?_eq_some_iff.mp he
  have hrest : q'.drop (off + 1) = total.drop (i + 1) := by
    have hr : q.drop off = total.drop i := h.rest
    rw [hq, ← List.drop_drop, hr, List.drop_drop]
  unfold BoundedScan.next
  split_ifs with hz
  · subst hz
    refine ⟨_, rfl, hi, Nat.zero_le _, ?_, hlt, by simpa using hlooked, by simp⟩
    simpa using hrest
  · exact ⟨_, rfl, hi, Nat.succ_le_of_lt (hlen ▸ hoff), hrest, hlt, by simpa using hlooked, by simp⟩

theorem Covers.step {total : List Entry} {looked : List ℕ} {c : Pass} (h : Covers bound total looked s c)
    (hl : l.isInner = true) (hst : Step bound s l t) :
    ∃ c', Covers bound (total ++ fresh l.arrival.toList) (looked ++ l.looked.toList) t c' := by
  cases hst with
  | enqueue _ p =>
    have hle := h.within
    refine ⟨c, h.pass, h.reach, ?_, ?_, ?_, ?_, ?_⟩
    · have hoff := h.off
      rw [List.length_append]
      omega
    · rw [List.drop_append_of_le_length h.off, List.drop_append_of_le_length hle, h.rest]
      rfl
    · rw [List.length_append]
      omega
    · rw [List.take_append_of_le_length hle]
      simp only [Label.looked, Option.toList_none, List.append_nil]
      rw [h.log]
      cases hb : c.inHand with
      | false => simp
      | true =>
        obtain ⟨-, r, hr⟩ := h.hand hb
        rw [List.getElem?_append_left (List.getElem?_eq_some_iff.mp hr).1]
    · intro hb
      obtain ⟨hi, r, hr⟩ := h.hand hb
      refine ⟨hi, r, ?_⟩
      rw [List.getElem?_append_left (List.getElem?_eq_some_iff.mp hr).1]
      exact hr
  | start q => cases hl
  | leave q i off hstop => cases hl
  | passOver q i off p hi hp =>
    obtain rfl : c = ⟨i, off, false⟩ := (Option.some.inj h.pass).symm
    have hentry : total[i]? = some ⟨p, true⟩ := h.entry.trans hp
    have hlooked : looked = live (total.take (i + 1)) := by
      rw [h.log, List.take_add_one, hentry, live_append]
      rfl
    simpa [Label.arrival, Label.looked, fresh] using h.next hi hp rfl rfl hlooked
  | look q i off p hi hp =>
    obtain rfl : c = ⟨i, off, false⟩ := (Option.some.inj h.pass).symm
    have hentry : total[i]? = some ⟨p, false⟩ := h.entry.trans hp
    refine ⟨⟨i, off, true⟩, ?_⟩
    simp only [Label.arrival, Label.looked, Option.toList_none, Option.toList_some, fresh, List.map_nil, List.append_nil]
    refine ⟨rfl, h.reach, h.off, h.rest, h.within, ?_, fun _ => ⟨hi, p, hentry⟩⟩
    rw [h.log, hentry]
    simp [live]
  | finish q i off p hp =>
    obtain rfl : c = ⟨i, off, true⟩ := (Option.some.inj h.pass).symm
    obtain ⟨hi, -⟩ := h.hand rfl
    have hentry : total[i]? = some ⟨p, false⟩ := h.entry.trans hp
    have hlooked : looked = live (total.take (i + 1)) := by
      rw [h.log, List.take_add_one, hentry, live_append]
      simp
    have hdrop : (q.set off ⟨p, true⟩).drop (off + 1) = q.drop (off + 1) := List.drop_set_of_lt (Nat.lt_succ_self off)
    simpa [Label.arrival, Label.looked, fresh] using h.next hi hp hdrop List.length_set hlooked
  | keep q i off =>
    obtain rfl : c = ⟨i, off, true⟩ := (Option.some.inj h.pass).symm
    obtain ⟨hi, p, hentry⟩ := h.hand rfl
    have hrest : q.drop off = total.drop i := h.rest
    have hoff : off < q.length := (List.getElem?_eq_some_iff.mp (h.entry.symm.trans hentry)).1
    have hlt : i < total.length := (List.getElem?_eq_some_iff.mp hentry).1
    refine ⟨⟨i + 1, off + 1, false⟩, ?_⟩
    simp only [Label.arrival, Label.looked, Option.toList_none, fresh, List.map_nil, List.append_nil]
    refine ⟨rfl, hi, hoff, ?_, hlt, ?_, by simp⟩
    · rw [← List.drop_drop, hrest, List.drop_drop]
    · rw [h.log, List.take_add_one, hentry, live_append]
      simp

theorem Step.pass_isSome (hst : Step bound s l t) (hl : l ≠ .start) (ht : t.pass.isSome = true) :
    l.isInner = true ∧ s.pass.isSome = true := by
  cases hst with
  | enqueue _ p => exact ⟨rfl, ht⟩
  | start q => exact absurd rfl hl
  | leave q i off hstop => cases ht
  | passOver q i off p hi hp => exact ⟨rfl, rfl⟩
  | look q i off p hi hp => exact ⟨rfl, rfl⟩
  | finish q i off p hp => exact ⟨rfl, rfl⟩
  | keep q i off => exact ⟨rfl, rfl⟩

theorem Steps.inner (h : Steps bound s ls t) (hls : .start ∉ ls) (ht : t.pass.isSome = true) :
    ∀ l ∈ ls, l.isInner = true := by
  induction h with
  | refl => simp
  | tail _ hst ih =>
    simp only [List.mem_append, List.mem_singleton, not_or] at hls
    obtain ⟨hin, hpass⟩ := hst.pass_isSome (Ne.symm hls.2) ht
    intro l hl
    rw [List.mem_append, List.mem_singleton] at hl
    rcases hl with hl | rfl
    · exact ih hls.1 hpass l hl
    · exact hin

theorem Covers.steps {q : List Entry} (hls : ∀ l ∈ ls, l.isInner = true)
    (h : Steps bound ⟨q, some ⟨0, 0, false⟩⟩ ls t) :
    ∃ c, Covers bound (q ++ fresh (arrivals ls)) (looks ls) t c := by
  induction h with
  | refl =>
    refine ⟨⟨0, 0, false⟩, rfl, Nat.zero_le _, Nat.zero_le _, ?_, Nat.zero_le _, ?_, by simp⟩
    · simp [arrivals, fresh]
    · simp [looks, live]
  | tail _ hst ih =>
    obtain ⟨c, hc⟩ := ih fun l hl => hls l (List.mem_append_left _ hl)
    rw [arrivals_concat, looks_concat, fresh_append, ← List.append_assoc]
    exact hc.step (hls _ (by simp)) hst

theorem looks_pass {q : List Entry} (hls : ∀ l ∈ ls, l.isInner = true)
    (h : Steps bound ⟨q, some ⟨0, 0, false⟩⟩ ls s) (hst : Step bound s .leave t) :
    looks ls = live ((q ++ fresh (arrivals ls)).take bound) := by
  obtain ⟨c, hc⟩ := Covers.steps hls h
  generalize q ++ fresh (arrivals ls) = total at hc ⊢
  cases hst with
  | leave q' i off hstop =>
    obtain rfl : c = ⟨i, off, false⟩ := (Option.some.inj hc.pass).symm
    rw [hc.log]
    simp only [Bool.false_eq_true, if_false, List.append_nil]
    have hreach : i ≤ bound := hc.reach
    rcases hstop with hi | hend
    · rw [Nat.le_antisymm hreach hi]
    · have hrest : q'.drop off = total.drop i := hc.rest
      have hdone : total.length ≤ i := by
        rw [← List.drop_eq_nil_iff, ← hrest]
        exact List.drop_eq_nil_of_le hend
      rw [List.take_of_length_le hdone, List.take_of_length_le (Nat.le_trans hdone hreach)]

end OnePass

end BoundedScan
