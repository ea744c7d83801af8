import HermesRun.Placement

namespace HermesRun.Placement

open QueueManager

variable {cfg : Config} {s t : State} {l : Label}

def recipient (cfg : Config) (s : State) : Label → Option ℕ
  | .serverInit => s.boot.bind fun k => (findGroup s.queueMap adminQueue.unique 0).bind fun group =>
      if k < group.info.numLanes then some 0 else none
  | .schedule => match s.boot, s.cursor with
    | none, some (.lane q g k) => (findGroup s.queueMap q g).bind fun group =>
        if k < group.info.numLanes then
          if group.isLowPriority then some 0 else some (s.count % (cfg.numWorkers - 1) + 1)
        else none
    | _, _ => none
  | _ => none

def HasRoom (cfg : Config) (s : State) (l : Label) (_ : State) : Prop :=
  ∀ w, recipient cfg s l = some w → (s.workers w).pollQueues.length < cfg.pollDepth

instance : Decidable (HasRoom cfg s l t) :=
  decidable_of_iff ((recipient cfg s l).all fun w => decide ((s.workers w).pollQueues.length < cfg.pollDepth))
    (by simp [HasRoom, Option.all_eq_true])

def LanesKept (cfg : Config) (s : State) : Prop :=
  ∀ q g group, SlotUsed s.queueMap q → findGroup s.queueMap q g = some group →
    ∀ k < group.numScheduled, ∃ w < cfg.numWorkers, (⟨q, g, k⟩ : WorkEntry) ∈ (s.workers w).entries

inductive Transition (cfg : Config) (s : State) (l : Label) (t : State) : Prop
  | quiet (hmap : t.queueMap = s.queueMap) (hactive : active t.boot t.cursor = active s.boot s.cursor)
      (hgiven : t.given = s.given) (hentries : ∀ w, (t.workers w).entries = (s.workers w).entries)
      (hnone : recipient cfg s l = none)
  | create (id : QueueId) (info : List PriorityInfo) (hmap : createQueue s.queueMap id info = some t.queueMap)
      (hactive : active t.boot t.cursor = active s.boot s.cursor) (hgiven : t.given = s.given)
      (hworkers : t.workers = s.workers) (hnone : recipient cfg s l = none)
  | openGroup (q g : ℕ) (group : LaneGroup) (hmap : t.queueMap = s.queueMap)
      (hgroup : findGroup s.queueMap q g = some group) (hold : active s.boot s.cursor = none)
      (hnew : active t.boot t.cursor = some (q, g, group.numScheduled)) (hgiven : t.given = s.given)
      (hworkers : t.workers = s.workers) (hnone : recipient cfg s l = none)
  | closeGroup (q g k : ℕ) (group : LaneGroup) (hgroup : findGroup s.queueMap q g = some group)
      (hk : ¬k < group.info.numLanes) (hmap : t.queueMap = setScheduled s.queueMap q g group.info.numLanes)
      (hold : active s.boot s.cursor = some (q, g, k)) (hnew : active t.boot t.cursor = none)
      (hgiven : t.given = s.given) (hworkers : t.workers = s.workers) (hnone : recipient cfg s l = none)
  | give (q g k w : ℕ) (u : State) (hold : active s.boot s.cursor = some (q, g, k))
      (hsome : recipient cfg s l = some w) (hgive : give cfg s w ⟨q, g, k⟩ = some u)
      (hmap : t.queueMap = u.queueMap) (hnew : active t.boot t.cursor = some (q, g, k + 1))
      (hgiven : t.given = u.given) (hworkers : t.workers = u.workers)

theorem serverInit_transition {k : ℕ} (hb : s.boot = some k) (hstep : serverInit cfg s k = some t)
    (hcur : s.cursor = none) : Transition cfg s .serverInit t := by
  have hold : active s.boot s.cursor = some (adminQueue.unique, 0, k) := by rw [hb, active_boot]
  obtain ⟨group, hg, hstep⟩ := Option.bind_eq_some_iff.mp hstep
  split_ifs at hstep with hk
  · obtain ⟨u, hu, rfl⟩ := Option.map_eq_some_iff.mp hstep
    exact .give adminQueue.unique 0 k 0 u hold (by simp [recipient, hb, hg, hk]) hu rfl
      (active_boot _ _) rfl rfl
  · cases hstep
    refine .closeGroup adminQueue.unique 0 k group hg hk rfl hold ?_ rfl rfl (by simp [recipient, hb, hg, hk])
    dsimp only
    rw [hcur, active_none (by simp)]

theorem schedule_transition {c : Cursor} (h : StateInv cfg s) (hb : s.boot = none)
    (hc : s.cursor = some c ∨ s.cursor = none ∧ c = .queue 0) (hstep : schedule cfg s c = some t) :
    Transition cfg s .schedule t := by
  cases c with
  | queue q =>
    have hidle : active s.boot s.cursor = none := by
      rcases hc with hc | ⟨hc, -⟩ <;> rw [hb, hc] <;> rfl
    have hnone : recipient cfg s .schedule = none := by
      rcases hc with hc | ⟨hc, -⟩ <;> simp [recipient, hb, hc]
    simp only [schedule] at hstep
    split at hstep
    · cases hstep
      exact .quiet rfl (by rw [hidle, hb]; rfl) rfl (fun _ => rfl) hnone
    · split_ifs at hstep
      · cases hstep
        exact .quiet rfl (by rw [hidle, hb]; rfl) rfl (fun _ => rfl) hnone
      · cases hstep
        exact .quiet rfl (by rw [hidle, hb]; rfl) rfl (fun _ => rfl) hnone
  | group q g =>
    have hcur : s.cursor = some (.group q g) := by
      rcases hc with hc | ⟨-, hc⟩
      · exact hc
      · cases hc
    have hidle : active s.boot s.cursor = none := by rw [hb, hcur]; rfl
    have hnone : recipient cfg s .schedule = none := by simp [recipient, hb, hcur]
    simp only [schedule] at hstep
    split at hstep
    · cases hstep
      exact .quiet rfl (by rw [hidle, hb]; rfl) rfl (fun _ => rfl) hnone
    · rename_i group hg
      cases hstep
      exact .openGroup q g group rfl hg hidle (by rw [hb]; rfl) rfl rfl hnone
  | lane q g k =>
    have hcur : s.cursor = some (.lane q g k) := by
      rcases hc with hc | ⟨-, hc⟩
      · exact hc
      · cases hc
    have hold : active s.boot s.cursor = some (q, g, k) := by rw [hb, hcur, active_lane]
    obtain ⟨group, hg, hstep⟩ := Option.bind_eq_some_iff.mp hstep
    rw [h.inv.prio _ _ _ hg] at hstep
    split_ifs at hstep with hk hlow
    · obtain ⟨u, hu, rfl⟩ := Option.map_eq_some_iff.mp hstep
      obtain ⟨-, hboot, -⟩ := give_spec hu
      exact .give q g k _ u hold (by simp [recipient, hb, hcur, hg, hk, hlow]) hu rfl
        (by rw [hboot, hb, active_lane]) rfl rfl
    · obtain ⟨u, hu, rfl⟩ := Option.map_eq_some_iff.mp hstep
      obtain ⟨-, hboot, -⟩ := give_spec hu
      exact .give q g k _ u hold (by simp [recipient, hb, hcur, hg, hk, hlow]) hu rfl
        (by dsimp only; rw [hboot, hb, active_lane]) rfl rfl
    · cases hstep
      exact .closeGroup q g k group hg hk rfl hold (by rw [hb]; rfl) rfl rfl
        (by simp [recipient, hb, hcur, hg, hk])

theorem entries_pollQueues {w : ℕ} {batch : List WorkEntry} {rest : List (List WorkEntry)}
    (h : (s.workers w).pollQueues = batch :: rest) (v : ℕ) :
    (Function.update s.workers w ⟨rest, (s.workers w).workQueue ++ batch⟩ v).entries =
      (s.workers v).entries := by
  by_cases hv : v = w
  · subst hv
    simp [Worker.entries, h]
  · simp [hv]

theorem step_transition (h : StateInv cfg s) (hstep : step cfg s l = some t) : Transition cfg s l t := by
  cases l with
  | serverInit =>
    obtain ⟨k, hb, hstep⟩ := Option.bind_eq_some_iff.mp hstep
    exact serverInit_transition hb hstep (h.bootFirst (by rw [hb]; rfl))
  | createQueue id info =>
    obtain ⟨m, hm, rfl⟩ := Option.map_eq_some_iff.mp hstep
    exact .create id info hm rfl rfl rfl rfl
  | schedule =>
    simp only [step] at hstep
    split_ifs at hstep with hb
    apply schedule_transition h (by simpa using hb) _ hstep
    cases hc : s.cursor with
    | none => exact Or.inr ⟨rfl, rfl⟩
    | some c => exact Or.inl rfl
  | pollQueues w =>
    simp only [step] at hstep
    split at hstep
    · cases hstep
    · rename_i batch rest hpoll
      cases hstep
      exact .quiet rfl rfl rfl (entries_pollQueues hpoll) rfl

def AllGiven (s : State) : Prop :=
  ∀ q g group, SlotUsed s.queueMap q → findGroup s.queueMap q g = some group →
    ∀ k < handedOut (active s.boot s.cursor) q g group, (⟨q, g, k⟩ : WorkEntry) ∈ s.given.map (·.2)

theorem allGiven_init (adminInfo : List PriorityInfo) (rest : List (QueueId × List PriorityInfo)) :
    AllGiven (State.init adminInfo rest) := by
  intro q g group _ hg k hk
  have hzero : handedOut (active (some 0) none) q g group = 0 := by
    simp [handedOut, active, (findGroup_boot hg).2]
  exact absurd (hk.trans_eq hzero) (Nat.not_lt_zero k)

theorem allGiven_create {m : QueueMap} {id : QueueId} {info : List PriorityInfo}
    (h : StateInv cfg s) (hall : AllGiven s) (hm : createQueue s.queueMap id info = some m)
    {q g k : ℕ} {group : LaneGroup} (hu : SlotUsed m q) (hg : findGroup m q g = some group)
    (hk : k < handedOut (active s.boot s.cursor) q g group) : (⟨q, g, k⟩ : WorkEntry) ∈ s.given.map (·.2) := by
  by_cases hold : SlotUsed s.queueMap q
  · rw [findGroup_createQueue hold hm] at hg
    exact hall q g group hold hg k hk
  · have hother : ¬∃ k, active s.boot s.cursor = some (q, g, k) := by
      rintro ⟨k, hact⟩
      exact hold (h.inv.activeUsed q g k hact)
    obtain ⟨queue, hq, hgroup⟩ := Option.bind_eq_some_iff.mp hg
    obtain ⟨queue', hq', hn⟩ := hu
    rw [hq, Option.some.injEq] at hq'
    subst hq'
    obtain hslot | ⟨-, rfl⟩ := createQueue_slot hm hq
    · exact absurd ⟨queue, hslot, hn⟩ hold
    · rw [handedOut_other group hother, (findGroup_init hgroup).2] at hk
      exact absurd hk (Nat.not_lt_zero k)

theorem step_allGiven (h : StateInv cfg s) (hall : AllGiven s) (hstep : step cfg s l = some t) : AllGiven t := by
  intro q g group hu hg j hj
  cases step_transition h hstep with
  | quiet hmap hactive hgiven =>
    rw [hmap] at hu hg
    rw [hactive] at hj
    rw [hgiven]
    exact hall q g group hu hg j hj
  | create id info hmap hactive hgiven =>
    rw [hactive] at hj
    rw [hgiven]
    exact allGiven_create h hall hmap hu hg hj
  | openGroup q' g' group' hmap hgroup hold hnew hgiven =>
    rw [hmap] at hu hg
    rw [hnew, handedOut_openGroup hgroup hg] at hj
    rw [hgiven]
    apply hall q g group hu hg
    rwa [hold]
  | closeGroup q' g' k group' hgroup hk hmap hold hnew hgiven =>
    have hbound := h.inv.bound q' g' group' hgroup
    rw [hold, handedOut_self] at hbound
    obtain rfl : k = group'.info.numLanes := by omega
    rw [hmap] at hu hg
    obtain ⟨old, hfind, -, -, hout⟩ := findGroup_closeGroup hgroup hg
    rw [hnew, hout, ← hold] at hj
    rw [hgiven]
    exact hall q g old ((slotUsed_setScheduled _).mp hu) hfind j hj
  | give q' g' k w u hold hsome hgive hmap hnew hgiven hworkers =>
    obtain ⟨humap, -, -, -, hugiven, -⟩ := give_spec hgive
    rw [hmap, humap] at hu hg
    rw [hgiven, hugiven, List.map_append, List.map_singleton, List.mem_append, List.mem_singleton]
    rw [hnew] at hj
    by_cases hqg : q = q' ∧ g = g'
    · obtain ⟨rfl, rfl⟩ := hqg
      rw [handedOut_self] at hj
      obtain rfl | hlt := (Nat.lt_succ_iff.mp hj).eq_or_lt
      · exact Or.inr rfl
      · apply Or.inl
        apply hall q g group hu hg
        rwa [hold, handedOut_self]
    · apply Or.inl
      apply hall q g group hu hg
      rw [hold, handedOut_ne _ _ hqg]
      rwa [handedOut_ne _ _ hqg] at hj

def Kept (s : State) : Prop := ∀ x ∈ s.given, x.2 ∈ (s.workers x.1).entries

theorem kept_init (adminInfo : List PriorityInfo) (rest : List (QueueId × List PriorityInfo)) :
    Kept (State.init adminInfo rest) := by
  intro x hx
  cases hx

theorem kept_give_iff {q g k w : ℕ} (h : StateInv cfg s) (hold : active s.boot s.cursor = some (q, g, k))
    (hgive : give cfg s w ⟨q, g, k⟩ = some t) :
    Kept t ↔ Kept s ∧ (s.workers w).pollQueues.length < cfg.pollDepth := by
  have hinv := h.inv
  rw [hold] at hinv
  have hfresh := hinv.fresh
  obtain ⟨-, -, -, -, hgiven, -⟩ := give_spec hgive
  unfold give at hgive
  split_ifs at hgive with hroom hdrop
  · cases hgive
    have hentries : ∀ v, ∀ e ∈ s.given.map (·.2), e ∈ (Function.update s.workers w
        { s.workers w with pollQueues := (s.workers w).pollQueues ++ [[⟨q, g, k⟩]] } v).entries ↔
        e ∈ (s.workers v).entries := by
      intro v e he
      have hne : e ≠ ⟨q, g, k⟩ := fun heq => hfresh (heq ▸ he)
      by_cases hv : v = w
      · subst hv
        simp [Worker.entries, hne]
      · simp [hv]
    rw [and_iff_left hroom]
    constructor
    · intro hkept x hx
      rw [← hentries x.1 x.2 (List.mem_map_of_mem hx)]
      exact hkept x (List.mem_append_left _ hx)
    · intro hkept x hx
      rcases List.mem_append.mp hx with hx | hx
      · rw [hentries x.1 x.2 (List.mem_map_of_mem hx)]
        exact hkept x hx
      · rw [List.mem_singleton.mp hx]
        simp [Worker.entries]
  · cases hgive
    constructor
    · intro hkept
      have hmem : (⟨q, g, k⟩ : WorkEntry) ∈ (s.workers w).entries :=
        hkept (w, ⟨q, g, k⟩) (List.mem_append_right _ (List.mem_singleton_self _))
      have hgiven := mem_lanesGiven.mp ((hinv.entries w).subset hmem)
      exact absurd (List.mem_map_of_mem hgiven) hfresh
    · intro hkept
      exact absurd hkept.2 hroom

theorem step_kept (h : StateInv cfg s) (hstep : step cfg s l = some t) : Kept t ↔ Kept s ∧ HasRoom cfg s l t := by
  have hcalm : recipient cfg s l = none → HasRoom cfg s l t := by
    intro hnone w hw
    rw [hnone] at hw
    cases hw
  cases step_transition h hstep with
  | quiet hmap hactive hgiven hentries hnone =>
    rw [and_iff_left (hcalm hnone)]
    simp only [Kept, hgiven, hentries]
  | create id info hmap hactive hgiven hworkers hnone =>
    rw [and_iff_left (hcalm hnone)]
    simp only [Kept, hgiven, hworkers]
  | openGroup q g group hmap hgroup hold hnew hgiven hworkers hnone =>
    rw [and_iff_left (hcalm hnone)]
    simp only [Kept, hgiven, hworkers]
  | closeGroup q g k group hgroup hk hmap hold hnew hgiven hworkers hnone =>
    rw [and_iff_left (hcalm hnone)]
    simp only [Kept, hgiven, hworkers]
  | give q g k w u hold hsome hgive hmap hnew hgiven hworkers =>
    have hu : Kept t ↔ Kept u := by simp only [Kept, hgiven, hworkers]
    rw [hu, kept_give_iff h hold hgive]
    simp [HasRoom, hsome]

theorem lanesKept_iff_kept (hn : 2 ≤ cfg.numWorkers) (h : StateInv cfg s) (hall : AllGiven s)
    (hboot : s.boot = none) (hcursor : s.cursor = none) : LanesKept cfg s ↔ Kept s := by
  have hidle : active s.boot s.cursor = none := by rw [hboot, hcursor]; rfl
  constructor
  · rintro hlanes ⟨v, e⟩ hx
    obtain ⟨hu, group, hg, hlt, -⟩ := h.inv.used _ hx
    rw [hidle, handedOut_none] at hlt
    obtain ⟨w, -, hw⟩ := hlanes e.queue e.prio group hu hg e.laneId hlt
    have hgiven := mem_lanesGiven.mp ((h.inv.entries w).subset hw)
    have heq := List.inj_on_of_nodup_map h.inv.distinct hx hgiven rfl
    rw [heq]
    exact hw
  · intro hkept q g group hu hg k hk
    rw [← handedOut_none q g group, ← hidle] at hk
    obtain ⟨⟨w, e⟩, hx, rfl⟩ := List.mem_map.mp (hall q g group hu hg k hk)
    obtain ⟨-, group', -, -, hfit⟩ := h.inv.used _ hx
    refine ⟨w, ?_, hkept _ hx⟩
    unfold Fits at hfit
    split_ifs at hfit <;> omega

def boundedHandOff (numWorkers : ℕ) : Config := ⟨numWorkers, 1024, true⟩

theorem lanesKept_iff_hasRoom (n : ℕ) (hn : 2 ≤ n) (adminInfo : List PriorityInfo)
    (rest : List (QueueId × List PriorityInfo)) (labels : List Label) (s : State)
    (hrun : Runs.run (step (boundedHandOff n)) (State.init adminInfo rest) labels = some s)
    (hboot : s.boot = none) (hcursor : s.cursor = none) :
    LanesKept (boundedHandOff n) s ↔
      Runs.Along (step (boundedHandOff n)) (HasRoom (boundedHandOff n)) (State.init adminInfo rest) labels := by
  have hstep : ∀ s l t, StateInv (boundedHandOff n) s ∧ AllGiven s → step (boundedHandOff n) s l = some t →
      StateInv (boundedHandOff n) t ∧ AllGiven t := by
    intro s l t h hstep
    exact ⟨step_stateInv hn h.1 hstep, step_allGiven h.1 h.2 hstep⟩
  have hinit : StateInv (boundedHandOff n) (State.init adminInfo rest) ∧ AllGiven (State.init adminInfo rest) :=
    ⟨stateInv_init _ adminInfo rest, allGiven_init adminInfo rest⟩
  obtain ⟨hinv, hall⟩ := Runs.run_invariant_all hstep hinit hrun
  rw [lanesKept_iff_kept hn hinv hall hboot hcursor]
  rw [Runs.run_iff hstep (fun s l t h hstep => step_kept h.1 hstep) hinit hrun]
  exact and_iff_right (kept_init adminInfo rest)

def processInfo : List PriorityInfo :=
  [⟨1, 1, 1024, queueUnordered⟩, ⟨1, 1, 1024, queueLongRunning⟩, ⟨2, 2, 1024, queueLowLatency⟩]

theorem lanesKept_boot : ∃ s, Runs.run (step (boundedHandOff 3))
    (State.init [⟨1, 1, 1024, queueUnordered⟩] [(processQueue, processInfo)])
    (List.replicate 2 .serverInit ++ List.replicate 17 .schedule) = some s ∧
    s.boot = none ∧ s.cursor = none ∧ LanesKept (boundedHandOff 3) s := by
  have hany : (Runs.run (step (boundedHandOff 3))
      (State.init [⟨1, 1, 1024, queueUnordered⟩] [(processQueue, processInfo)])
      (List.replicate 2 .serverInit ++ List.replicate 17 .schedule)).any
      (fun s => s.boot == none && s.cursor == none) = true := by decide +kernel
  obtain ⟨s, hs, hidle⟩ := (Option.any_eq_true _ _).mp hany
  simp only [Bool.and_eq_true, beq_iff_eq] at hidle
  have hroom : Runs.Along (step (boundedHandOff 3)) (HasRoom (boundedHandOff 3))
      (State.init [⟨1, 1, 1024, queueUnordered⟩] [(processQueue, processInfo)])
      (List.replicate 2 .serverInit ++ List.replicate 17 .schedule) := by decide +kernel
  exact ⟨s, hs, hidle.1, hidle.2,
    (lanesKept_iff_hasRoom 3 (by decide) _ _ _ s hs hidle.1 hidle.2).mpr hroom⟩

theorem step_lowLane {q g k : ℕ} {group : LaneGroup} (hb : s.boot = none) (hc : s.cursor = some (.lane q g k))
    (hg : findGroup s.queueMap q g = some group) (hlow : group.isLowPriority = true)
    (hk : k < group.info.numLanes) : step cfg s .schedule =
      (give cfg s 0 ⟨q, group.prio, k⟩).map fun s => { s with cursor := some (.lane q g (k + 1)) } := by
  simp [step, schedule, hb, hc, hg, hk, hlow]

theorem run_lanes (cfg : Config) {q g j k : ℕ} {group : LaneGroup} (hb : s.boot = none)
    (hc : s.cursor = some (.lane q g k)) (hg : findGroup s.queueMap q g = some group) (hlow : group.isLowPriority = true)
    (hj : k + j ≤ group.info.numLanes) (hroom : (s.workers 0).pollQueues.length + j ≤ cfg.pollDepth) :
    ∃ t, Runs.run (step cfg) s (List.replicate j .schedule) = some t ∧ t.boot = none ∧
      t.queueMap = s.queueMap ∧ t.cursor = some (.lane q g (k + j)) ∧
      (t.workers 0).pollQueues =
        (s.workers 0).pollQueues ++ (List.range' k j).map (fun i => [⟨q, group.prio, i⟩]) ∧
      (t.workers 0).workQueue = (s.workers 0).workQueue ∧ ∀ v, v ≠ 0 → t.workers v = s.workers v := by
  induction j generalizing s k with
  | zero => exact ⟨s, rfl, hb, rfl, hc, by simp, rfl, fun _ _ => rfl⟩
  | succ j ih =>
    have hk : k < group.info.numLanes := by omega
    -- worker 0 takes nothing over, so each lane leaves one place less
    have hfits : (s.workers 0).pollQueues.length < cfg.pollDepth := by omega
    obtain ⟨u, hu, hub, huc, humap, hupoll, huwork, hurest⟩ : ∃ u, step cfg s .schedule = some u ∧
        u.boot = none ∧ u.cursor = some (.lane q g (k + 1)) ∧ u.queueMap = s.queueMap ∧
        (u.workers 0).pollQueues = (s.workers 0).pollQueues ++ [[⟨q, group.prio, k⟩]] ∧
        (u.workers 0).workQueue = (s.workers 0).workQueue ∧ ∀ v, v ≠ 0 → u.workers v = s.workers v := by
      rw [step_lowLane hb hc hg hlow hk, give, if_pos hfits]
      refine ⟨_, rfl, hb, rfl, rfl, by simp, by simp, ?_⟩
      intro v hv
      simp [hv]
    have hlen : (u.workers 0).pollQueues.length + j ≤ cfg.pollDepth := by
      rw [hupoll, List.length_append, List.length_singleton]
      omega
    obtain ⟨t, ht, htb, htmap, htc, htpoll, htwork, htrest⟩ :=
      ih hub huc (by rw [humap]; exact hg) (by omega) hlen
    refine ⟨t, ?_, htb, htmap.trans humap, ?_, ?_, htwork.trans huwork, ?_⟩
    · rw [List.replicate_succ, Runs.run_cons]
      exact ⟨u, hu, ht⟩
    · rw [htc, Nat.add_assoc, Nat.add_comm 1 j]
    · rw [htpoll, hupoll, List.append_assoc]
      rfl
    · intro v hv
      rw [htrest v hv, hurest v hv]

theorem run_lastLane (cfg : Config) {q g k : ℕ} {group : LaneGroup} (hdrop : cfg.dropsWhenFull = true)
    (hb : s.boot = none) (hc : s.cursor = some (.lane q g k)) (hg : findGroup s.queueMap q g = some group)
    (hlow : group.isLowPriority = true) (hk : k + 1 = group.info.numLanes)
    (hfull : cfg.pollDepth ≤ (s.workers 0).pollQueues.length) (hgroups : findGroup s.queueMap q (g + 1) = none)
    (hqueues : s.queueMap[q + 1]? = none) :
    ∃ t, Runs.run (step cfg) s (List.replicate 4 .schedule) = some t ∧ t.boot = none ∧ t.cursor = none ∧
      t.queueMap = setScheduled s.queueMap q g group.info.numLanes ∧ t.workers = s.workers := by
  have hnext : findGroup (setScheduled s.queueMap q g group.info.numLanes) q (g + 1) = none := by
    rw [findGroup_setScheduled_ne _ (by omega)]
    exact hgroups
  have hend : (setScheduled s.queueMap q g group.info.numLanes)[q + 1]? = none := by
    simpa [setScheduled] using hqueues
  have hlast : step cfg s .schedule = some { s with
      given := s.given ++ [(0, ⟨q, group.prio, k⟩)], cursor := some (.lane q g (k + 1)) } := by
    rw [step_lowLane hb hc hg hlow (by omega), give, if_neg (by omega), if_pos hdrop]
    rfl
  have hclosed : ¬k + 1 < group.info.numLanes := by omega
  refine ⟨{ s with
    queueMap := setScheduled s.queueMap q g group.info.numLanes, cursor := none
    given := s.given ++ [(0, ⟨q, group.prio, k⟩)] }, ?_, hb, rfl, rfl, rfl⟩
  simp only [List.replicate, Runs.run, hlast, Option.bind_some]
  simp [step, schedule, hb, hg, hclosed, hnext, hend]

def crowdedBoot : State :=
  State.init [⟨1, 1, 1024, queueUnordered⟩] [(processQueue, processInfo), (UniqueId.getNull, [])]

def crowdedStart : List Label :=
  List.replicate 2 .serverInit ++ List.replicate 18 .schedule ++ List.replicate 3 (.pollQueues 0) ++
    [.createQueue ⟨1, 2⟩ [⟨1025, 1025, 1024, queueUnordered⟩]] ++ List.replicate 14 .schedule

theorem crowdedStart_spec : (Runs.run (step (boundedHandOff 3)) crowdedBoot crowdedStart).any (fun s =>
    s.boot == none && s.cursor == some (.lane 2 0 0) && s.queueMap.length == 3 &&
      (s.queueMap[2]?.any fun queue => !queue.id.isNull) &&
      findGroup s.queueMap 2 0 == some ⟨⟨1025, 1025, 1024, queueUnordered⟩, 0, 0⟩ &&
      findGroup s.queueMap 2 1 == none && (s.workers 0).pollQueues == [] &&
      decide (∀ w ∈ List.range 3, (⟨2, 0, 1024⟩ : WorkEntry) ∉ (s.workers w).entries)) = true := by
  decide +kernel

theorem lanesKept_crowdedRun : ∃ s, Runs.run (step (boundedHandOff 3)) crowdedBoot
    (crowdedStart ++ (List.replicate 1024 .schedule ++ List.replicate 4 .schedule)) = some s ∧
    s.boot = none ∧ s.cursor = none ∧ ¬LanesKept (boundedHandOff 3) s := by
  obtain ⟨s, hs, hspec⟩ := (Option.any_eq_true _ _).mp crowdedStart_spec
  simp only [Bool.and_eq_true, beq_iff_eq, decide_eq_true_eq, Option.any_eq_true, Bool.not_eq_true'] at hspec
  obtain ⟨⟨⟨⟨⟨⟨⟨hb, hc⟩, hlen⟩, queue, hqueue, hused⟩, hg⟩, hgroups⟩, hpoll⟩, hmem⟩ := hspec
  obtain ⟨t, ht, htb, htmap, htc, htpoll, htwork, htrest⟩ := run_lanes (boundedHandOff 3) (j := 1024)
    hb hc hg (by decide) (by decide) (by rw [hpoll]; decide)
  have hfull : (boundedHandOff 3).pollDepth ≤ (t.workers 0).pollQueues.length := by
    rw [htpoll, hpoll, List.nil_append, List.length_map, List.length_range']
    exact le_refl _
  obtain ⟨u, hu, hub, huc, humap, huworkers⟩ := run_lastLane (boundedHandOff 3) rfl htb htc
    (by rw [htmap]; exact hg) (by decide) rfl hfull (by rw [htmap]; exact hgroups)
    (by rw [htmap, List.getElem?_eq_none]; omega)
  refine ⟨u, ?_, hub, huc, ?_⟩
  · rw [Runs.run_append, hs, Option.bind_some, Runs.run_append, ht, Option.bind_some, hu]
  intro hkept
  rw [htmap] at humap
  obtain ⟨w, hw, hlost⟩ := hkept 2 0 ⟨⟨1025, 1025, 1024, queueUnordered⟩, 0, 1025⟩
    (by rw [humap, slotUsed_setScheduled]; exact ⟨queue, hqueue, hused⟩)
    (by rw [humap]; exact findGroup_setScheduled_self _ hg) 1024 (by decide)
  have hnever := hmem w (List.mem_range.mpr hw)
  rw [huworkers] at hlost
  by_cases hzero : w = 0
  · subst hzero
    rw [Worker.entries, htpoll, htwork, hpoll, List.nil_append, List.mem_append] at hlost
    rcases hlost with hlost | hlost
    · exact hnever (List.mem_append_left _ hlost)
    · simp at hlost
  · rw [htrest w hzero] at hlost
    exact hnever hlost

end HermesRun.Placement
