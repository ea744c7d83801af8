import Mathlib.Logic.Basic

namespace Runs

variable {σ ι : Type*} (step : σ → ι → Option σ)

def run : σ → List ι → Option σ
  | s, [] => some s
  | s, i :: is => (step s i).bind (run · is)

def Along (R : σ → ι → σ → Prop) : σ → List ι → Prop
  | _, [] => True
  | s, i :: is => match step s i with
    | none => True
    | some t => R s i t ∧ Along R t is

instance Along.decidable (R : σ → ι → σ → Prop) [∀ s i t, Decidable (R s i t)] :
    (s : σ) → (is : List ι) → Decidable (Along step R s is)
  | _, [] => .isTrue trivial
  | s, i :: is => match h : step s i with
    | none => .isTrue (by simp [Along, h])
    | some t => @decidable_of_iff _ (R s i t ∧ Along step R t is) (by simp [Along, h])
        (@instDecidableAnd _ _ _ (Along.decidable R t is))

variable {step}

theorem along_cons {R : σ → ι → σ → Prop} {s t : σ} {i : ι} {is : List ι}
    (h : step s i = some t) : Along step R s (i :: is) ↔ R s i t ∧ Along step R t is := by
  simp [Along, h]

theorem run_cons {s u : σ} {i : ι} {is : List ι} :
    run step s (i :: is) = some u ↔ ∃ t, step s i = some t ∧ run step t is = some u := by
  simp [run, Option.bind_eq_some_iff]

theorem run_append (s : σ) (is js : List ι) :
    run step s (is ++ js) = (run step s is).bind (run step · js) := by
  induction is generalizing s with
  | nil => rfl
  | cons i is ih =>
    simp only [List.cons_append, run]
    cases step s i with
    | none => rfl
    | some t => exact ih t

theorem run_invariant {I : σ → Prop} {C : σ → ι → σ → Prop}
    (hstep : ∀ s i t, I s → step s i = some t → C s i t → I t) {s t : σ} {is : List ι}
    (hs : I s) (hc : Along step C s is) (hr : run step s is = some t) : I t := by
  induction is generalizing s with
  | nil => cases hr; exact hs
  | cons i is ih =>
    obtain ⟨u, hu, hr⟩ := run_cons.mp hr
    obtain ⟨hi, hc⟩ := (along_cons hu).mp hc
    exact ih (hstep s i u hs hu hi) hc hr

theorem along_of_forall {P : ι → Prop} (s : σ) {is : List ι} (h : ∀ i ∈ is, P i) :
    Along step (fun _ i _ => P i) s is := by
  induction is generalizing s with
  | nil => trivial
  | cons i is ih =>
    obtain ⟨hi, his⟩ := List.forall_mem_cons.mp h
    unfold Along
    cases step s i with
    | none => trivial
    | some t => exact ⟨hi, ih t his⟩

theorem Along.and {R R' : σ → ι → σ → Prop} {s : σ} {is : List ι} (h : Along step R s is)
    (h' : Along step R' s is) : Along step (fun s i t => R s i t ∧ R' s i t) s is := by
  induction is generalizing s with
  | nil => trivial
  | cons i is ih =>
    unfold Along at h h' ⊢
    cases hst : step s i with
    | none => trivial
    | some t =>
      rw [hst] at h h'
      exact ⟨⟨h.1, h'.1⟩, ih h.2 h'.2⟩

theorem Along.mono {R R' : σ → ι → σ → Prop} {s : σ} {is : List ι} (h : Along step R s is)
    (hR : ∀ s i t, R s i t → R' s i t) : Along step R' s is := by
  induction is generalizing s with
  | nil => trivial
  | cons i is ih =>
    unfold Along at h ⊢
    cases hst : step s i with
    | none => trivial
    | some t =>
      rw [hst] at h
      exact ⟨hR s i t h.1, ih h.2⟩

theorem run_invariant_all {I : σ → Prop} (hstep : ∀ s i t, I s → step s i = some t → I t)
    {s t : σ} {is : List ι} (hs : I s) (hr : run step s is = some t) : I t :=
  run_invariant (C := fun _ _ _ => True) (fun s i t h hst _ => hstep s i t h hst) hs
    (along_of_forall s fun _ _ => trivial) hr

theorem along_of_invariant {I : σ → Prop} {C P : σ → ι → σ → Prop}
    (hstep : ∀ s i t, I s → step s i = some t → C s i t → I t ∧ P s i t) {s : σ} {is : List ι} (hs : I s)
    (hc : Along step C s is) : Along step P s is := by
  induction is generalizing s with
  | nil => trivial
  | cons i is ih =>
    cases hst : step s i with
    | none => simp [Along, hst]
    | some t =>
      obtain ⟨hi, hc⟩ := (along_cons hst).mp hc
      obtain ⟨ht, hp⟩ := hstep s i t hs hst hi
      exact (along_cons hst).mpr ⟨hp, ih ht hc⟩

/-- If, in states where `J` and `P` hold, a transition keeps `P` exactly when it satisfies `C`,
then `P` holds all along a run exactly when `C` does. -/
theorem along_iff {J P : σ → Prop} {C : σ → ι → σ → Prop}
    (hJ : ∀ s i t, J s → step s i = some t → J t)
    (hP : ∀ s i t, J s → P s → step s i = some t → (P t ↔ C s i t))
    {s : σ} (is : List ι) (hj : J s) (hp : P s) :
    Along step (fun _ _ t => P t) s is ↔ Along step C s is := by
  induction is generalizing s with
  | nil => exact Iff.rfl
  | cons i is ih =>
    cases h : step s i with
    | none => simp [Along, h]
    | some t =>
      rw [along_cons h, along_cons h]
      constructor
      · rintro ⟨ht, hrest⟩
        exact ⟨(hP s i t hj hp h).mp ht, (ih (hJ s i t hj h) ht).mp hrest⟩
      · rintro ⟨hc, hrest⟩
        have ht := (hP s i t hj hp h).mpr hc
        exact ⟨ht, (ih (hJ s i t hj h) ht).mpr hrest⟩

theorem run_iff {J P : σ → Prop} {C : σ → ι → σ → Prop}
    (hJ : ∀ s i t, J s → step s i = some t → J t)
    (hP : ∀ s i t, J s → step s i = some t → (P t ↔ P s ∧ C s i t))
    {s t : σ} {is : List ι} (hj : J s) (hr : run step s is = some t) : P t ↔ P s ∧ Along step C s is := by
  induction is generalizing s with
  | nil =>
    cases hr
    exact (and_iff_left trivial).symm
  | cons i is ih =>
    obtain ⟨u, hu, hr⟩ := run_cons.mp hr
    rw [along_cons hu, ih (hJ s i u hj hu) hr, hP s i u hj hu, and_assoc]

theorem along_of_last {J P : σ → Prop} (hJ : ∀ s i t, J s → step s i = some t → J t)
    (hP : ∀ s i t, J s → step s i = some t → P t → P s) {s t : σ} {is : List ι} (hj : J s)
    (hr : run step s is = some t) (ht : P t) : P s ∧ Along step (fun _ _ t => P t) s is := by
  induction is generalizing s with
  | nil =>
    cases hr
    exact ⟨ht, trivial⟩
  | cons i is ih =>
    obtain ⟨u, hu, hr⟩ := run_cons.mp hr
    obtain ⟨hpu, halong⟩ := ih (hJ s i u hj hu) hr
    exact ⟨hP s i u hj hu hpu, (along_cons hu).mpr ⟨hpu, halong⟩⟩

theorem run_countP (own : ι → Bool) {J : σ → Prop} {C : σ → ι → σ → Prop} {μ : σ → Nat}
    (hJ : ∀ s i t, J s → step s i = some t → J t)
    (hμ : ∀ s i t, J s → step s i = some t → C s i t → μ t + (if own i then 1 else 0) = μ s)
    {s t : σ} {is : List ι} (hj : J s) (hc : Along step C s is) (hr : run step s is = some t) :
    μ t + is.countP own = μ s := by
  induction is generalizing s with
  | nil =>
    cases hr
    rfl
  | cons i is ih =>
    obtain ⟨u, hu, hr⟩ := run_cons.mp hr
    obtain ⟨hi, hc⟩ := (along_cons hu).mp hc
    have hrest := ih (hJ s i u hj hu) hc hr
    have hone := hμ s i u hj hu hi
    rw [List.countP_cons]
    omega

theorem run_flatMap {σ' ι' : Type*} {step' : σ' → ι' → Option σ'} {f : σ → σ'} {g : ι → List ι'} {I : σ → Prop}
    (hI : ∀ s i t, I s → step s i = some t → I t)
    (hf : ∀ s i t, I s → step s i = some t → run step' (f s) (g i) = some (f t)) {s t : σ} {is : List ι} (hs : I s)
    (hr : run step s is = some t) : run step' (f s) (is.flatMap g) = some (f t) := by
  induction is generalizing s with
  | nil =>
    cases hr
    rfl
  | cons i is ih =>
    obtain ⟨u, hu, hr⟩ := run_cons.mp hr
    rw [List.flatMap_cons, run_append, hf s i u hs hu]
    exact ih (hI s i u hs hu) hr

theorem run_map {σ' : Type*} {step' : σ' → ι → Option σ'} {f : σ → σ'} {I : σ → Prop} {C : σ' → ι → σ' → Prop}
    (hI : ∀ s i t, I s → step s i = some t → C (f s) i (f t) → I t)
    (hf : ∀ s i, I s → step' (f s) i = (step s i).map f) {s : σ} {is : List ι} (hs : I s)
    (hc : Along step' C (f s) is) :
    run step' (f s) is = (run step s is).map f ∧ Along step (fun s i t => C (f s) i (f t)) s is := by
  induction is generalizing s with
  | nil => exact ⟨rfl, trivial⟩
  | cons i is ih =>
    have hfi := hf s i hs
    cases hst : step s i with
    | none =>
      rw [hst, Option.map_none] at hfi
      simp [run, Along, hfi, hst]
    | some t =>
      rw [hst, Option.map_some] at hfi
      obtain ⟨hi, hc⟩ := (along_cons hfi).mp hc
      obtain ⟨hrun, hrest⟩ := ih (hI s i t hs hst hi) hc
      refine ⟨?_, (along_cons hst).mpr ⟨hi, hrest⟩⟩
      rw [run, run, hfi, hst]
      exact hrun

theorem run_invariant_labels {I : List ι → σ → Prop}
    (hstep : ∀ is s i t, I is s → step s i = some t → I (is ++ [i]) t) {s t : σ} {is : List ι} (hs : I [] s)
    (hr : run step s is = some t) : I is t := by
  have hall : ∀ (before is : List ι) (s : σ), I before s → run step s is = some t → I (before ++ is) t := by
    intro before is
    induction is generalizing before with
    | nil =>
      intro s hs hr
      cases hr
      rwa [List.append_nil]
    | cons i is ih =>
      intro s hs hr
      obtain ⟨u, hu, hr⟩ := run_cons.mp hr
      have hrest := ih (before ++ [i]) u (hstep before s i u hs hu) hr
      rwa [List.append_assoc] at hrest
  exact hall [] is s hs hr

end Runs
