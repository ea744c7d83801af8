import HermesRun.Worker.HandOff
import HermesRun.QueueManager

/-!
How often a worker polls a lane. The vector `work_queue_` is kept with its storage, since the constructors and the
assignments of `WorkEntry` leave `count_` where it is.
-/

namespace HermesRun.Period

open Bitfield
open Placement (WorkEntry)

structure Slot where
  entry : WorkEntry
  count : UInt32
  deriving DecidableEq, Repr

structure Worker where
  workQueue : List Slot
  capacity : ℕ
  fits : workQueue.length ≤ capacity
  passes : List (List WorkEntry)

/-- A call of `Run`: what `_PollQueues` pops, each entry with the words that lie in the memory of `work_queue_`
where the code leaves them as they are, and what `_RelinquishQueues` pops. -/
structure RunCall where
  polled : List (WorkEntry × (ℕ → UInt32))
  relinquished : List WorkEntry

def Worker.entries (w : Worker) : List WorkEntry := w.workQueue.map Slot.entry

def emplaceBack (w : Worker) (new : WorkEntry × (ℕ → UInt32)) : Worker :=
  if h : w.workQueue.length < w.capacity then
    { w with
      workQueue := w.workQueue ++ [⟨new.1, new.2 w.workQueue.length⟩]
      fits := by rw [List.length_append]; exact h }
  else
    { w with
      workQueue := (w.workQueue.mapIdx fun i slot => ⟨slot.entry, new.2 i⟩) ++ [⟨new.1, new.2 w.workQueue.length⟩]
      capacity := w.workQueue.length + max 1 w.workQueue.length
      fits := by
        rw [List.length_append, List.length_mapIdx, List.length_singleton]
        exact Nat.add_le_add_left (Nat.le_max_left _ _) _ }

def pollQueues (w : Worker) (polled : List (WorkEntry × (ℕ → UInt32))) : Worker := polled.foldl emplaceBack w

/-- `erase(find(..))`: the entries behind are assigned to the slots before theirs. To erase at `end()` has no
meaning. -/
def eraseEntry (w : Worker) (e : WorkEntry) : Option Worker :=
  if e ∈ w.entries then
    some { w with
      workQueue := List.zipWith Slot.mk (w.entries.erase e) (w.workQueue.map Slot.count)
      fits := by
        rw [List.length_zipWith, List.length_map]
        exact (Nat.min_le_right _ _).trans w.fits }
  else none

def relinquishQueues (w : Worker) : List WorkEntry → Option Worker
  | [] => some w
  | e :: es => (eraseEntry w e).bind (relinquishQueues · es)

section

variable (laneFlags : WorkEntry → Flags)

def isLowLatency (e : WorkEntry) : Bool := any (laneFlags e) queueLowLatency

def tick (slot : Slot) : Slot :=
  if isLowLatency laneFlags slot.entry then slot else { slot with count := slot.count + 1 }

/-- Whether the loop of `Run`, which has counted already, passes the entry to `PollGrouped`. -/
def polls (slot : Slot) : Bool := isLowLatency laneFlags slot.entry || slot.count.toNat % 4096 == 0

def pollAll (w : Worker) : Worker :=
  { w with
    workQueue := w.workQueue.map (tick laneFlags)
    fits := by rw [List.length_map]; exact w.fits
    passes := w.passes ++ [((w.workQueue.map (tick laneFlags)).filter (polls laneFlags)).map Slot.entry] }

def step (w : Worker) (call : RunCall) : Option Worker :=
  (relinquishQueues (pollQueues w call.polled) call.relinquished).map (pollAll laneFlags)

@[simp] theorem tick_entry (slot : Slot) : (tick laneFlags slot).entry = slot.entry := by
  unfold tick
  split_ifs <;> rfl

theorem entries_tick (slots : List Slot) : (slots.map (tick laneFlags)).map Slot.entry = slots.map Slot.entry := by
  rw [List.map_map, List.map_inj_left]
  intro slot _
  exact tick_entry laneFlags slot

end

theorem entries_zipWith {es : List WorkEntry} {counts : List UInt32} (h : es.length ≤ counts.length) :
    (List.zipWith Slot.mk es counts).map Slot.entry = es := by
  induction es generalizing counts with
  | nil => rfl
  | cons e es ih =>
    cases counts with
    | nil => cases h
    | cons c counts => rw [List.zipWith_cons_cons, List.map_cons, ih (Nat.le_of_succ_le_succ h)]

theorem emplaceBack_entries (w : Worker) (new : WorkEntry × (ℕ → UInt32)) :
    (emplaceBack w new).entries = w.entries ++ [new.1] := by
  unfold emplaceBack Worker.entries
  split_ifs
  · rw [List.map_append, List.map_singleton]
  · have hmoved : (w.workQueue.mapIdx fun i slot => (⟨slot.entry, new.2 i⟩ : Slot)).map Slot.entry =
        w.workQueue.map Slot.entry := by
      apply List.ext_getElem?
      intro i
      rw [List.getElem?_map, List.getElem?_mapIdx, List.getElem?_map]
      cases w.workQueue[i]? <;> rfl
    rw [List.map_append, List.map_singleton, hmoved]

theorem pollQueues_entries (w : Worker) (polled : List (WorkEntry × (ℕ → UInt32))) :
    (pollQueues w polled).entries = w.entries ++ polled.map Prod.fst := by
  induction polled generalizing w with
  | nil => simp [pollQueues]
  | cons new polled ih =>
    have hrest := ih (emplaceBack w new)
    rw [emplaceBack_entries, List.append_assoc, List.singleton_append] at hrest
    exact hrest

theorem relinquishQueues_entries (w : Worker) (rs : List WorkEntry) :
    (relinquishQueues w rs).map Worker.entries = HandOff.eraseEach rs w.entries := by
  induction rs generalizing w with
  | nil => rfl
  | cons r rs ih =>
    by_cases hmem : r ∈ w.entries
    · have hlen : (w.entries.erase r).length ≤ (w.workQueue.map Slot.count).length := by
        rw [List.length_map]
        exact List.length_erase_le.trans (by rw [Worker.entries, List.length_map])
      simp only [relinquishQueues, eraseEntry, if_pos hmem, Option.bind_some, ih, HandOff.eraseEach]
      rw [Worker.entries, entries_zipWith hlen]
    · simp only [relinquishQueues, eraseEntry, if_neg hmem, Option.bind_none, HandOff.eraseEach, Option.map_none]

theorem step_entries (laneFlags : WorkEntry → Flags) (w : Worker) (call : RunCall) :
    (step laneFlags w call).map Worker.entries =
      HandOff.eraseEach call.relinquished (w.entries ++ call.polled.map Prod.fst) := by
  have hpass : ∀ v : Worker, (pollAll laneFlags v).entries = v.entries := by
    intro v
    exact entries_tick laneFlags v.workQueue
  rw [← pollQueues_entries, ← relinquishQueues_entries, step, Option.map_map]
  congr 1
  funext v
  exact hpass v

def Holds (w : Worker) (pre : List WorkEntry) (e : WorkEntry) (c : UInt32) : Prop :=
  ∃ before behind, w.workQueue = before ++ ⟨e, c⟩ :: behind ∧ before.map Slot.entry = pre ∧ e ∉ pre ∧
    e ∉ behind.map Slot.entry

def Worker.upTo (w : Worker) (e : WorkEntry) : List WorkEntry := w.entries.takeWhile (· != e) ++ [e]

def HasRoom (w : Worker) (call : RunCall) : Prop := w.workQueue.length + call.polled.length ≤ w.capacity

/-- The call leaves the entry of the lane at its index: no new entry is for the same lane, and no entry is erased up to
the lane's. -/
structure Undisturbed (w : Worker) (e : WorkEntry) (call : RunCall) : Prop where
  new : e ∉ call.polled.map Prod.fst
  behind : ∀ r ∈ call.relinquished, r ∉ w.upTo e

variable {w w' : Worker} {pre : List WorkEntry} {e : WorkEntry} {c : UInt32} {laneFlags : WorkEntry → Flags}

theorem holds_of_entries {es : List WorkEntry} (h : w.entries = pre ++ e :: es) (hpre : e ∉ pre) (hes : e ∉ es) :
    ∃ c, Holds w pre e c := by
  obtain ⟨before, rest, hsplit, hbefore, hrest⟩ := List.map_eq_append_iff.mp h
  obtain ⟨slot, behind, rfl, rfl, rfl⟩ := List.map_eq_cons_iff.mp hrest
  exact ⟨slot.count, before, behind, hsplit, hbefore, hpre, hes⟩

theorem holds_of_count (h : w.entries.count e = 1) : ∃ pre c, Holds w pre e c := by
  obtain ⟨pre, es, hsplit⟩ := List.append_of_mem (List.count_pos_iff.mp (show 0 < w.entries.count e by omega))
  rw [hsplit, List.count_append, List.count_cons_self] at h
  obtain ⟨c, hc⟩ := holds_of_entries hsplit (List.count_eq_zero.mp (by omega)) (List.count_eq_zero.mp (by omega))
  exact ⟨pre, c, hc⟩

theorem Holds.upTo (h : Holds w pre e c) : w.upTo e = pre ++ [e] := by
  obtain ⟨before, behind, hsplit, rfl, hbefore, -⟩ := h
  have hall : ∀ x ∈ before.map Slot.entry, (x != e) = true := by
    intro x hx
    exact bne_iff_ne.mpr fun heq => hbefore (heq ▸ hx)
  rw [Worker.upTo, Worker.entries, hsplit, List.map_append, List.map_cons, List.takeWhile_append_of_pos hall,
    List.takeWhile_cons_of_neg (by simp), List.append_nil]

theorem emplaceBack_of_room (new : WorkEntry × (ℕ → UInt32)) (hroom : w.workQueue.length < w.capacity) :
    (emplaceBack w new).workQueue = w.workQueue ++ [⟨new.1, new.2 w.workQueue.length⟩] ∧
      (emplaceBack w new).capacity = w.capacity := by
  rw [emplaceBack, dif_pos hroom]
  exact ⟨rfl, rfl⟩

theorem pollQueues_passes (w : Worker) (polled : List (WorkEntry × (ℕ → UInt32))) :
    (pollQueues w polled).passes = w.passes := by
  induction polled generalizing w with
  | nil => rfl
  | cons new polled ih =>
    have hnew : (emplaceBack w new).passes = w.passes := by
      unfold emplaceBack
      split_ifs <;> rfl
    exact (ih (emplaceBack w new)).trans hnew

theorem relinquishQueues_passes {rs : List WorkEntry} (h : relinquishQueues w rs = some w') :
    w'.passes = w.passes := by
  induction rs generalizing w with
  | nil =>
    cases h
    rfl
  | cons r rs ih =>
    obtain ⟨u, hu, hrest⟩ := Option.bind_eq_some_iff.mp h
    unfold eraseEntry at hu
    split_ifs at hu
    cases hu
    have hkept := ih hrest
    exact hkept

theorem Holds.emplaceBack {new : WorkEntry × (ℕ → UInt32)} (h : Holds w pre e c)
    (hroom : w.workQueue.length < w.capacity) (hnew : new.1 ≠ e) : Holds (emplaceBack w new) pre e c := by
  obtain ⟨before, behind, hsplit, hpre, hbefore, hbehind⟩ := h
  refine ⟨before, behind ++ [⟨new.1, new.2 w.workQueue.length⟩], ?_, hpre, hbefore, ?_⟩
  · rw [(emplaceBack_of_room new hroom).1, hsplit, List.append_assoc, List.cons_append]
  · rw [List.map_append, List.mem_append, not_or]
    exact ⟨hbehind, by simpa using hnew.symm⟩

theorem Holds.pollQueues {polled : List (WorkEntry × (ℕ → UInt32))} (h : Holds w pre e c)
    (hroom : w.workQueue.length + polled.length ≤ w.capacity) (hnew : e ∉ polled.map Prod.fst) :
    Holds (pollQueues w polled) pre e c := by
  induction polled generalizing w with
  | nil => exact h
  | cons new polled ih =>
    rw [List.length_cons] at hroom
    rw [List.map_cons, List.mem_cons, not_or] at hnew
    have hfull : w.workQueue.length < w.capacity := by omega
    obtain ⟨hqueue, hcap⟩ := emplaceBack_of_room new hfull
    have hroom' : (Period.emplaceBack w new).workQueue.length + polled.length ≤ (Period.emplaceBack w new).capacity := by
      rw [hqueue, hcap, List.length_append, List.length_singleton]
      omega
    exact ih (h.emplaceBack hfull (Ne.symm hnew.1)) hroom' hnew.2

/-- A vector that is moved takes its entries along, but not their counters. -/
theorem Holds.pollQueues_moved {polled : List (WorkEntry × (ℕ → UInt32))} (h : Holds w pre e c)
    (hnew : e ∉ polled.map Prod.fst) : ∃ c', Holds (Period.pollQueues w polled) pre e c' := by
  obtain ⟨before, behind, hsplit, rfl, hbefore, hbehind⟩ := h
  have hentries : (Period.pollQueues w polled).entries
      = before.map Slot.entry ++ e :: (behind.map Slot.entry ++ polled.map Prod.fst) := by
    rw [pollQueues_entries, Worker.entries, hsplit, List.map_append, List.map_cons, List.append_assoc, List.cons_append]
  have hafter : e ∉ behind.map Slot.entry ++ polled.map Prod.fst := by
    rw [List.mem_append, not_or]
    exact ⟨hbehind, hnew⟩
  exact holds_of_entries hentries hbefore hafter

theorem Holds.eraseEntry {r : WorkEntry} (h : Holds w pre e c) (hr : r ∉ pre ++ [e])
    (herase : eraseEntry w r = some w') : Holds w' pre e c := by
  obtain ⟨before, behind, hsplit, rfl, hbefore, hbehind⟩ := h
  rw [List.mem_append, List.mem_singleton, not_or] at hr
  unfold Period.eraseEntry at herase
  split_ifs at herase
  cases herase
  -- the entries up to the lane's are assigned to themselves
  have hentries : w.entries.erase r = before.map Slot.entry ++ e :: (behind.map Slot.entry).erase r := by
    rw [Worker.entries, hsplit, List.map_append, List.map_cons, List.erase_append_right _ hr.1,
      List.erase_cons_tail (by simpa using fun heq => hr.2 heq.symm)]
  have hself : List.zipWith Slot.mk (before.map Slot.entry) (before.map Slot.count) = before := by
    rw [List.zipWith_map, List.zipWith_self]
    exact List.map_id' before
  refine ⟨before, List.zipWith Slot.mk ((behind.map Slot.entry).erase r) (behind.map Slot.count), ?_, rfl, hbefore, ?_⟩
  · dsimp only
    rw [hentries, hsplit, List.map_append, List.map_cons, List.zipWith_append (by simp), List.zipWith_cons_cons, hself]
  · rw [entries_zipWith]
    · exact fun hmem => hbehind (List.mem_of_mem_erase hmem)
    · rw [List.length_map]
      exact (List.length_erase_le).trans (by rw [List.length_map])

theorem Holds.relinquishQueues {rs : List WorkEntry} (h : Holds w pre e c) (hrs : ∀ r ∈ rs, r ∉ pre ++ [e])
    (hrel : relinquishQueues w rs = some w') : Holds w' pre e c := by
  induction rs generalizing w with
  | nil =>
    cases hrel
    exact h
  | cons r rs ih =>
    obtain ⟨u, hu, hrest⟩ := Option.bind_eq_some_iff.mp hrel
    exact ih (h.eraseEntry (hrs r List.mem_cons_self) hu) (fun r hr => hrs r (List.mem_cons_of_mem _ hr)) hrest

theorem Holds.pollAll (h : Holds w pre e c) :
    Holds (Period.pollAll laneFlags w) pre e (tick laneFlags ⟨e, c⟩).count := by
  obtain ⟨before, behind, hsplit, rfl, hbefore, hbehind⟩ := h
  have hslot : tick laneFlags ⟨e, c⟩ = ⟨e, (tick laneFlags ⟨e, c⟩).count⟩ := by
    unfold tick
    split_ifs <;> rfl
  refine ⟨before.map (tick laneFlags), behind.map (tick laneFlags), ?_, entries_tick laneFlags before, hbefore, ?_⟩
  · dsimp only [Period.pollAll]
    rw [hsplit, List.map_append, List.map_cons, ← hslot]
  · rwa [entries_tick]

variable (laneFlags) in
theorem count_polled_of_notMem {slots : List Slot} (h : e ∉ slots.map Slot.entry) :
    (((slots.map (tick laneFlags)).filter (polls laneFlags)).map Slot.entry).count e = 0 := by
  rw [← entries_tick laneFlags] at h
  refine List.count_eq_zero.mpr fun hmem => h ?_
  exact List.map_subset _ (List.filter_subset_self _) hmem

variable (laneFlags) in
theorem Holds.passes (h : Holds w pre e c) : ∃ pass, (Period.pollAll laneFlags w).passes = w.passes ++ [pass] ∧
    pass.count e = if polls laneFlags (tick laneFlags ⟨e, c⟩) then 1 else 0 := by
  obtain ⟨before, behind, hsplit, rfl, hbefore, hbehind⟩ := h
  refine ⟨_, rfl, ?_⟩
  rw [hsplit, List.map_append, List.map_cons, List.filter_append, List.map_append, List.count_append,
    count_polled_of_notMem laneFlags hbefore, List.filter_cons]
  have hbehind' := count_polled_of_notMem laneFlags hbehind
  split_ifs
  · rw [List.map_cons, tick_entry, List.count_cons_self, hbehind']
  · rw [hbehind']

theorem Holds.step {call : RunCall} (h : Holds w pre e c) (hcall : Undisturbed w e call)
    (hstep : Period.step laneFlags w call = some w') : ∃ pass c', w'.passes = w.passes ++ [pass] ∧
      Holds w' pre e (tick laneFlags ⟨e, c'⟩).count ∧
      pass.count e = (if polls laneFlags (tick laneFlags ⟨e, c'⟩) then 1 else 0) ∧ (HasRoom w call → c' = c) := by
  obtain ⟨u, hu, rfl⟩ := Option.map_eq_some_iff.mp hstep
  have hbehind : ∀ r ∈ call.relinquished, r ∉ pre ++ [e] := by
    intro r hr
    rw [← h.upTo]
    exact hcall.behind r hr
  obtain ⟨c', hpolled, hsame⟩ : ∃ c', Holds (Period.pollQueues w call.polled) pre e c' ∧ (HasRoom w call → c' = c) := by
    by_cases hroom : HasRoom w call
    · exact ⟨c, h.pollQueues hroom hcall.new, fun _ => rfl⟩
    · obtain ⟨c', hpolled⟩ := h.pollQueues_moved hcall.new
      exact ⟨c', hpolled, fun h => absurd h hroom⟩
  have hrel := hpolled.relinquishQueues hbehind hu
  obtain ⟨pass, hpass, hcount⟩ := hrel.passes laneFlags
  rw [relinquishQueues_passes hu, pollQueues_passes] at hpass
  exact ⟨pass, c', hpass, hrel.pollAll, hcount, hsame⟩

theorem polls_lowLatency (h : isLowLatency laneFlags e = true) : polls laneFlags (tick laneFlags ⟨e, c⟩) = true := by
  simp only [polls, tick_entry, h, Bool.true_or]

theorem tick_count_mod (h : isLowLatency laneFlags e = false) :
    (tick laneFlags ⟨e, c⟩).count.toNat % 4096 = (c.toNat % 4096 + 1) % 4096 := by
  have hadd : (c + 1).toNat = (c.toNat + 1) % 2 ^ 32 := UInt32.toNat_add c 1
  simp only [tick, h, Bool.false_eq_true, if_false, hadd]
  omega

theorem polls_iff (h : isLowLatency laneFlags e = false) :
    polls laneFlags (tick laneFlags ⟨e, c⟩) = true ↔ (c.toNat % 4096 + 1) % 4096 = 0 := by
  simp only [polls, tick_entry, h, Bool.false_or, beq_iff_eq, tick_count_mod h]

theorem count_passes {pass : List WorkEntry} {passes : List (List WorkEntry)} {n : ℕ}
    (h : isLowLatency laneFlags e = false)
    (hpass : pass.count e = if polls laneFlags (tick laneFlags ⟨e, c⟩) then 1 else 0)
    (hpasses : passes.flatten.count e = ((tick laneFlags ⟨e, c⟩).count.toNat % 4096 + n) / 4096) :
    (pass :: passes).flatten.count e = (c.toNat % 4096 + (n + 1)) / 4096 := by
  have hiff := polls_iff (c := c) h
  rw [List.flatten_cons, List.count_append, hpasses, tick_count_mod h, hpass]
  by_cases hzero : (c.toNat % 4096 + 1) % 4096 = 0
  · rw [if_pos (hiff.mpr hzero)]
    omega
  · rw [if_neg fun hp => hzero (hiff.mp hp)]
    omega

theorem Holds.run {calls : List RunCall} (h : Holds w pre e c)
    (hcalls : Runs.Along (Period.step laneFlags) (fun w call _ => Undisturbed w e call) w calls)
    (hrun : Runs.run (Period.step laneFlags) w calls = some w') : ∃ passes, w'.passes = w.passes ++ passes ∧
      passes.length = calls.length ∧ (isLowLatency laneFlags e = true → ∀ pass ∈ passes, pass.count e = 1) ∧
      (isLowLatency laneFlags e = false →
        Runs.Along (Period.step laneFlags) (fun w call _ => HasRoom w call) w calls →
        passes.flatten.count e = (c.toNat % 4096 + calls.length) / 4096) := by
  induction calls generalizing w c with
  | nil =>
    cases hrun
    refine ⟨[], by simp, rfl, by simp, ?_⟩
    intro _ _
    simp only [List.flatten_nil, List.count_nil, List.length_nil]
    omega
  | cons call calls ih =>
    obtain ⟨u, hu, hrest⟩ := Runs.run_cons.mp hrun
    obtain ⟨hcall, hcalls⟩ := (Runs.along_cons hu).mp hcalls
    obtain ⟨pass, c', hpass, hholds, hcount, hsame⟩ := h.step hcall hu
    obtain ⟨passes, hpasses, hlen, hlow, hhigh⟩ := ih hholds hcalls hrest
    refine ⟨pass :: passes, by rw [hpasses, hpass]; simp, by rw [List.length_cons, hlen, List.length_cons], ?_, ?_⟩
    · intro hl
      rw [polls_lowLatency hl, if_pos rfl] at hcount
      exact List.forall_mem_cons.mpr ⟨hcount, hlow hl⟩
    · intro hl hrooms
      obtain ⟨hroom, hrooms⟩ := (Runs.along_cons hu).mp hrooms
      obtain rfl := hsame hroom
      exact count_passes hl hcount (hhigh hl hrooms)

/-- In 4096 calls of `Run` that leave the lane's only entry at its index once the first of them polls, a low-latency
lane is polled in every call, and any other once when the vector is not moved. -/
theorem polled_once {first : RunCall} {rest : List RunCall} {u : Worker} (hlen : rest.length = 4095)
    (hfirst : step laneFlags w first = some u) (honce : u.entries.count e = 1)
    (hrest : Runs.Along (step laneFlags) (fun w call _ => Undisturbed w e call) u rest)
    (hroom : isLowLatency laneFlags e = false → Runs.Along (step laneFlags) (fun w call _ => HasRoom w call) u rest)
    (hrun : Runs.run (step laneFlags) w (first :: rest) = some w') : ∃ passes,
      w'.passes = w.passes ++ passes ∧ passes.length = 4096 ∧
      (isLowLatency laneFlags e = true → ∀ pass ∈ passes, pass.count e = 1) ∧
      (isLowLatency laneFlags e = false → passes.flatten.count e = 1) := by
  obtain ⟨v, hv, rfl⟩ := Option.map_eq_some_iff.mp hfirst
  have hentries : (pollAll laneFlags v).entries = v.entries := entries_tick laneFlags v.workQueue
  rw [hentries] at honce
  obtain ⟨pre, c, hholds⟩ := holds_of_count honce
  obtain ⟨pass, hpass, hcount⟩ := hholds.passes laneFlags
  rw [relinquishQueues_passes hv, pollQueues_passes] at hpass
  obtain ⟨u, hu, hrun⟩ := Runs.run_cons.mp hrun
  rw [hfirst] at hu
  cases hu
  obtain ⟨passes, hpasses, hplen, hlow, hhigh⟩ := hholds.pollAll.run hrest hrun
  refine ⟨pass :: passes, by rw [hpasses, hpass]; simp, by rw [List.length_cons, hplen, hlen], ?_, ?_⟩
  · intro hl
    rw [polls_lowLatency hl, if_pos rfl] at hcount
    exact List.forall_mem_cons.mpr ⟨hcount, hlow hl⟩
  · intro hl
    rw [count_passes hl hcount (hhigh hl (hroom hl)), hlen]
    omega

section Regrown

def lane : WorkEntry := ⟨1, 1, 0⟩

def quietCall : RunCall := ⟨[], []⟩

def growingCall : RunCall := ⟨[(⟨1, 1, 1⟩, fun _ => 4095)], []⟩

def fullWorker : Worker := ⟨[⟨lane, 4095⟩], 1, Nat.le_refl 1, []⟩

theorem quietCall_undisturbed (w : Worker) (e : WorkEntry) : Undisturbed w e quietCall where
  new := by simp [quietCall]
  behind := by simp [quietCall]

theorem along_quiet {C : Worker → RunCall → Prop} (hC : ∀ w, C w quietCall) (w : Worker) (n : ℕ) :
    Runs.Along (step laneFlags) (fun w call _ => C w call) w (List.replicate n quietCall) := by
  induction n generalizing w with
  | zero => trivial
  | succ n ih => exact ⟨hC w, ih (pollAll laneFlags w)⟩

variable (laneFlags) in
theorem run_quiet (w : Worker) (n : ℕ) : ∃ w' passes,
    Runs.run (step laneFlags) w (List.replicate n quietCall) = some w' ∧ w'.passes = w.passes ++ passes ∧
      passes.length = n ∧ w'.entries = w.entries := by
  induction n generalizing w with
  | zero => exact ⟨w, [], rfl, by simp, rfl, rfl⟩
  | succ n ih =>
    obtain ⟨w', passes, hrun, hpasses, hlen, hentries⟩ := ih (pollAll laneFlags w)
    obtain ⟨pass, hpass⟩ : ∃ pass, (pollAll laneFlags w).passes = w.passes ++ [pass] := ⟨_, rfl⟩
    refine ⟨w', pass :: passes, Runs.run_cons.mpr ⟨pollAll laneFlags w, rfl, hrun⟩, ?_, ?_, ?_⟩
    · rw [hpasses, hpass, List.append_assoc, List.singleton_append]
    · rw [List.length_cons, hlen]
    · exact hentries.trans (entries_tick laneFlags w.workQueue)

theorem polled_once_full : ∃ w, Runs.run (step fun _ => 0#32) fullWorker (List.replicate 4096 quietCall) = some w ∧
    w.passes.length = 4096 ∧ w.passes.flatten.count lane = 1 := by
  obtain ⟨w, -, hrun, -⟩ := run_quiet (fun _ => 0#32) fullWorker 4096
  have hrest : (List.replicate 4095 quietCall).length = 4095 := List.length_replicate
  obtain ⟨passes, hpasses, hlen, -, hhigh⟩ := polled_once (e := lane) hrest rfl (by decide)
    (along_quiet (fun w => quietCall_undisturbed w lane) _ 4095) (fun _ => along_quiet (fun w => w.fits) _ 4095) hrun
  rw [show fullWorker.passes = [] from rfl, List.nil_append] at hpasses
  exact ⟨w, hrun, by rw [hpasses, hlen], by rw [hpasses]; exact hhigh (by decide)⟩

theorem polled_twice : ∃ w, Runs.run (step fun _ => 0#32) fullWorker
      (quietCall :: growingCall :: List.replicate 4094 quietCall) = some w ∧
    isLowLatency (fun _ => 0#32) lane = false ∧ w.entries = [lane, ⟨1, 1, 1⟩] ∧ w.passes.length = 4096 ∧
    w.passes.flatten.count lane ≠ 1 := by
  obtain ⟨u, hu⟩ : ∃ u, Runs.run (step fun _ => 0#32) fullWorker [quietCall, growingCall] = some u := ⟨_, rfl⟩
  have hpassesu : u.passes = [[lane], [lane, ⟨1, 1, 1⟩]] := by
    cases hu
    decide
  have hentriesu : u.entries = [lane, ⟨1, 1, 1⟩] := by
    cases hu
    decide
  obtain ⟨w, passes, hrun, hpasses, hlen, hentries⟩ := run_quiet (fun _ => 0#32) u 4094
  rw [hpassesu] at hpasses
  refine ⟨w, ?_, by decide, hentries.trans hentriesu, ?_, ?_⟩
  · have happend : Runs.run (step fun _ => 0#32) fullWorker
        ([quietCall, growingCall] ++ List.replicate 4094 quietCall) = _ := Runs.run_append _ _ _
    rw [hu, Option.bind_some, hrun] at happend
    exact happend
  · rw [hpasses, List.length_append, hlen]
    rfl
  · rw [hpasses, List.flatten_append, List.count_append]
    have htwo : [[lane], [lane, ⟨1, 1, 1⟩]].flatten.count lane = 2 := by decide
    omega

end Regrown

end HermesRun.Period
