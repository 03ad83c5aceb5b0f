import Mathlib

namespace Run
set_option autoImplicit true

/-- Every input of the run meets a guard in the state it is fed to. -/
def Along (step : σ → ι → σ) (G : σ → ι → Prop) : σ → List ι → Prop
  | _, [] => True
  | s, i :: is => G s i ∧ Along step G (step s i) is

/-- Every state of the run has a property, the first and the last one included. -/
def Throughout (step : σ → ι → σ) (P : σ → Prop) : σ → List ι → Prop
  | s, [] => P s
  | s, i :: is => P s ∧ Throughout step P (step s i) is

variable {step : σ → ι → σ} {G : σ → ι → Prop} {P Inv : σ → Prop}

theorem Throughout.first (h : Throughout step P s is) : P s := by
  cases is with
  | nil => exact h
  | cons => exact h.1

theorem Throughout.last (h : Throughout step P s is) : P (is.foldl step s) := by
  induction is generalizing s with
  | nil => exact h
  | cons i is ih => exact ih h.2

theorem Throughout.mono (h : Throughout step P s is) (hPQ : ∀ s, P s → Q s) :
    Throughout step Q s is := by
  induction is generalizing s with
  | nil => exact hPQ s h
  | cons i is ih => exact ⟨hPQ s h.1, ih h.2⟩

theorem Along.append : Along step G s (is ++ js) ↔
    Along step G s is ∧ Along step G (is.foldl step s) js := by
  induction is generalizing s with
  | nil => simp [Along]
  | cons i is ih =>
    simp only [List.cons_append, Along, List.foldl_cons, ih, and_assoc]

theorem Along.and (hG : Along step G s is) (hH : Along step H s is) :
    Along step (fun s i => G s i ∧ H s i) s is := by
  induction is generalizing s with
  | nil => trivial
  | cons i is ih => exact ⟨⟨hG.1, hH.1⟩, ih hG.2 hH.2⟩

theorem Along.mono (h : Along step G s is) (hGH : ∀ s i, G s i → H s i) : Along step H s is := by
  induction is generalizing s with
  | nil => trivial
  | cons i is ih => exact ⟨hGH s i h.1, ih h.2⟩

theorem Along.congr (hGH : ∀ s i, G s i ↔ H s i) : Along step G s is ↔ Along step H s is :=
  ⟨fun h => h.mono fun s i => (hGH s i).1, fun h => h.mono fun s i => (hGH s i).2⟩

/-- A guard that is about the inputs alone. -/
theorem Along.of_forall {P : ι → Prop} (h : ∀ i ∈ is, P i) : Along step (fun _ i => P i) s is := by
  induction is generalizing s with
  | nil => trivial
  | cons i is ih =>
    exact ⟨h i List.mem_cons_self, ih fun j hj => h j (List.mem_cons_of_mem _ hj)⟩

/-- A property that guarded steps preserve holds in every state of a guarded run. -/
theorem throughout_of_along (hstep : ∀ s i, Inv s → G s i → Inv (step s i)) (hs : Inv s)
    (h : Along step G s is) : Throughout step Inv s is := by
  induction is generalizing s with
  | nil => exact hs
  | cons i is ih => exact ⟨hs, ih (hstep s i hs h.1) h.2⟩

/-- A property that guarded steps preserve holds of every step of a guarded run. -/
theorem along_of_along (hstep : ∀ s i, Inv s → G s i → Inv (step s i) ∧ H s i) (hs : Inv s)
    (h : Along step G s is) : Along step H s is := by
  induction is generalizing s with
  | nil => trivial
  | cons i is ih =>
    obtain ⟨hi, hH⟩ := hstep s i hs h.1
    exact ⟨hH, ih hi h.2⟩

/-- Two guards that agree where an invariant holds, which guarded steps preserve, let the same
runs through. -/
theorem along_iff_along (Inv : σ → Prop) (hGH : ∀ s i, Inv s → (G s i ↔ H s i))
    (hstep : ∀ s i, Inv s → H s i → Inv (step s i)) (hs : Inv s) :
    Along step G s is ↔ Along step H s is := by
  induction is generalizing s with
  | nil => exact Iff.rfl
  | cons i is ih =>
    simp only [Along, hGH s i hs]
    exact and_congr_right fun hi => ih (hstep s i hs hi)

/-- When guarded steps keep an invariant that gives the property, and any other step leaves
the property, the runs with the property are exactly the guarded ones. -/
theorem throughout_iff_along (Inv : σ → Prop) (hP : ∀ s, Inv s → P s)
    (hstep : ∀ s i, Inv s → G s i → Inv (step s i))
    (hbad : ∀ s i, Inv s → ¬ G s i → ¬ P (step s i)) (hs : Inv s) :
    Throughout step P s is ↔ Along step G s is := by
  induction is generalizing s with
  | nil => exact iff_of_true (hP s hs) trivial
  | cons i is ih =>
    by_cases hg : G s i
    · simp only [Throughout, Along, hP s hs, hg, true_and]
      exact ih (hstep s i hs hg)
    · simp only [Throughout, Along, hg, false_and, iff_false, not_and]
      exact fun _ ht => hbad s i hs hg ht.first

/-- A partial step that is defined, as `step` is, wherever an invariant of the steps holds, gets
through every run. -/
theorem foldlM_eq_foldl {part : σ → ι → Option σ} (Inv : σ → Prop)
    (hpart : ∀ s i, Inv s → part s i = some (step s i)) (hstep : ∀ s i, Inv s → Inv (step s i))
    (hs : Inv s) (is : List ι) : is.foldlM part s = some (is.foldl step s) := by
  induction is generalizing s with
  | nil => rfl
  | cons i is ih =>
    rw [List.foldlM_cons, hpart s i hs]
    exact ih (hstep s i hs)

end Run
