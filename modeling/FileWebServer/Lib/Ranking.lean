import FileWebServer.Lib.Run

namespace Ranking
set_option autoImplicit true

variable {step : σ → ι → σ} {G : σ → ι → Prop} {P Q : σ → Prop} {rank : σ → Nat}
  {work : σ → ι → Nat} {s : σ} {is : List ι}

/-- What all steps of a run do, taken together. -/
def total (step : σ → ι → σ) (work : σ → ι → Nat) : σ → List ι → Nat
  | _, [] => 0
  | s, i :: is => work s i + total step work (step s i) is

/-- As long as `P` holds, a guarded step keeps it and pays for its work with the rank of the state,
or leads to `Q`. -/
def Ranked (step : σ → ι → σ) (G : σ → ι → Prop) (P Q : σ → Prop) (rank : σ → Nat)
    (work : σ → ι → Nat) : Prop :=
  ∀ s i, P s → G s i → Q (step s i) ∨ (P (step s i) ∧ work s i + rank (step s i) ≤ rank s)

/-- A run leads to `Q`, or the rank of its first state has paid for all of its work. -/
theorem Ranked.run (h : Ranked step G P Q rank work) (hs : P s) (hG : Run.Along step G s is) :
    (∃ past, past <+: is ∧ Q (past.foldl step s)) ∨
      (P (is.foldl step s) ∧ total step work s is + rank (is.foldl step s) ≤ rank s) := by
  induction is generalizing s with
  | nil => exact .inr ⟨hs, Nat.le_of_eq (Nat.zero_add _)⟩
  | cons i is ih =>
    rcases h s i hs hG.1 with hq | ⟨hp, hle⟩
    · exact .inl ⟨[i], ⟨is, rfl⟩, hq⟩
    · rcases ih hp hG.2 with ⟨past, hpast, hq⟩ | ⟨hlast, hrest⟩
      · exact .inl ⟨i :: past, List.cons_prefix_cons.2 ⟨rfl, hpast⟩, hq⟩
      · refine .inr ⟨hlast, ?_⟩
        rw [total, List.foldl_cons]
        omega

/-- More work than the rank of the first state pays for is not done before `Q` is reached. -/
theorem Ranked.reaches (h : Ranked step G P Q rank work) (hs : P s) (hG : Run.Along step G s is)
    (hmore : rank s < total step work s is) : ∃ past, past <+: is ∧ Q (past.foldl step s) := by
  rcases h.run hs hG with hq | ⟨_, hle⟩
  · exact hq
  · omega

end Ranking
