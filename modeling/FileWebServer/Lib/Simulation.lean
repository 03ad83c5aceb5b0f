import FileWebServer.Lib.Run

namespace Simulation
set_option autoImplicit true

variable {step : σ → ι → σ} {abs : σ → α} {label : σ → ι → κ} {spec : α → κ → α → Prop}
  {Inv : σ → Prop} {G : σ → ι → Prop} {R : α → α → Prop} {a b : α} {ks : List κ} {s : σ}
  {is : List ι}

/-- A run of a specification: which state may follow which, at each of the labels in turn. -/
inductive Path (spec : α → κ → α → Prop) : α → List κ → α → Prop
  | nil (a : α) : Path spec a [] a
  | cons {a b c : α} {k : κ} {ks : List κ} :
    spec a k b → Path spec b ks c → Path spec a (k :: ks) c

/-- A preorder that every step of a specification respects relates the ends of its runs. -/
theorem Path.ordered (hrefl : ∀ a, R a a) (htrans : ∀ a b c, R a b → R b c → R a c)
    (hstep : ∀ a k b, spec a k b → R a b) (h : Path spec a ks b) : R a b := by
  induction h with
  | nil => exact hrefl _
  | cons hs _ ih => exact htrans _ _ _ (hstep _ _ _ hs) ih

/-- The labels of a run, each read off the state that its input meets. -/
def labels (step : σ → ι → σ) (label : σ → ι → κ) : σ → List ι → List κ
  | _, [] => []
  | s, i :: is => label s i :: labels step label (step s i) is

/-- A system refines a specification: where its invariant holds and a guard is met, a step keeps
the invariant, and what is seen of it is a step of the specification. -/
structure Refines (step : σ → ι → σ) (Inv : σ → Prop) (G : σ → ι → Prop) (abs : σ → α)
    (label : σ → ι → κ) (spec : α → κ → α → Prop) : Prop where
  keeps : ∀ s i, Inv s → G s i → Inv (step s i)
  follows : ∀ s i, Inv s → G s i → spec (abs s) (label s i) (abs (step s i))

/-- What is seen of a run is a run of the specification. -/
theorem Refines.run (h : Refines step Inv G abs label spec) (hs : Inv s)
    (hG : Run.Along step G s is) :
    Path spec (abs s) (labels step label s is) (abs (is.foldl step s)) := by
  induction is generalizing s with
  | nil => exact .nil _
  | cons i is ih => exact .cons (h.follows s i hs hG.1) (ih (h.keeps s i hs hG.1) hG.2)

/-- A system refines a sharper specification, whose steps meet what its guard says. -/
theorem Refines.strengthen {spec' : α → κ → α → Prop} {H : σ → ι → Prop}
    (h : Refines step Inv G abs label spec)
    (hspec : ∀ s i, Inv s → G s i → H s i → spec (abs s) (label s i) (abs (step s i)) →
      spec' (abs s) (label s i) (abs (step s i))) :
    Refines step Inv (fun s i => G s i ∧ H s i) abs label spec' where
  keeps := fun s i hi hg => h.keeps s i hi hg.1
  follows := fun s i hi hg => hspec s i hi hg.1 hg.2 (h.follows s i hi hg.1)

end Simulation
