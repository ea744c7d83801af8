import Mathlib.Data.List.Basic

namespace History

variable {ε δ : Type*}

/-- Each time `e` was logged, `Q` held of the log so far. -/
def At (log : List ε) (e : ε) (Q : List ε → Prop) : Prop :=
  ∀ newer older, log = newer ++ e :: older → Q older

theorem at_nil (e : ε) (Q : List ε → Prop) : At [] e Q := by
  intro newer older h
  simp at h

theorem at_cons {x e : ε} {log : List ε} {Q : List ε → Prop} :
    At (x :: log) e Q ↔ (x = e → Q log) ∧ At log e Q := by
  constructor
  · intro h
    refine ⟨?_, ?_⟩
    · rintro rfl
      exact h [] log rfl
    · intro newer older hlog
      exact h (x :: newer) older (by rw [hlog, List.cons_append])
  · rintro ⟨hx, h⟩ newer older hlog
    cases newer with
    | nil =>
      obtain ⟨rfl, rfl⟩ := List.cons.inj hlog
      exact hx rfl
    | cons y newer =>
      obtain ⟨-, hlog⟩ := List.cons.inj hlog
      exact h newer older hlog

theorem at_filterMap {f : ε → Option δ} {e : ε} {d : δ} {log : List ε}
    {Q : List ε → Prop} {Q' : List δ → Prop} (he : ∀ x, f x = some d ↔ x = e)
    (hQ : ∀ older, Q' (older.filterMap f) ↔ Q older) :
    At (log.filterMap f) d Q' ↔ At log e Q := by
  induction log with
  | nil => exact ⟨fun _ => at_nil e Q, fun _ => at_nil d Q'⟩
  | cons x log ih =>
    rw [at_cons, ← ih]
    cases hx : f x with
    | none =>
      have hne : x ≠ e := by
        rintro rfl
        rw [(he x).mpr rfl] at hx
        cases hx
      rw [List.filterMap_cons_none hx]
      simp [hne]
    | some y =>
      have hy : y = d ↔ x = e := by
        rw [← he x, hx, Option.some.injEq]
      rw [List.filterMap_cons_some hx, at_cons, hQ, hy]

theorem mem_filterMap_iff {f : ε → Option δ} {e : ε} {d : δ} (he : ∀ x, f x = some d ↔ x = e)
    (log : List ε) : d ∈ log.filterMap f ↔ e ∈ log := by
  rw [List.mem_filterMap]
  constructor
  · rintro ⟨x, hx, hfx⟩
    rwa [← (he x).mp hfx]
  · intro h
    exact ⟨e, h, (he e).mpr rfl⟩

theorem count_filterMap [BEq ε] [LawfulBEq ε] [BEq δ] [LawfulBEq δ] {f : ε → Option δ} {e : ε} {d : δ}
    (he : ∀ x, f x = some d ↔ x = e) (log : List ε) : (log.filterMap f).count d = log.count e := by
  induction log with
  | nil => rfl
  | cons x log ih =>
    cases hx : f x with
    | none =>
      have hne : x ≠ e := by
        rintro rfl
        rw [(he x).mpr rfl] at hx
        cases hx
      rw [List.filterMap_cons_none hx, ih, List.count_cons_of_ne hne]
    | some y =>
      have hy : y = d ↔ x = e := by
        rw [← he x, hx, Option.some.injEq]
      rw [List.filterMap_cons_some hx]
      by_cases hxe : x = e
      · rw [hy.mpr hxe, hxe, List.count_cons_self, List.count_cons_self, ih]
      · rw [List.count_cons_of_ne (mt hy.mp hxe), List.count_cons_of_ne hxe, ih]

end History
