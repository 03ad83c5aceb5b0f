import Mathlib

namespace TokenReader
set_option autoImplicit true

/-- A reader of one item from the front of a list of tokens. It reads what `render` writes for an
item, whatever comes behind, and nothing else. -/
structure Reader (τ : Type u) (ε : Type v) (β : Type w) where
  read : List τ → Except ε (β × List τ)
  render : β → List τ
  render_ne_nil : ∀ b, render b ≠ []
  read_eq_ok_iff : ∀ ts b rest, read ts = .ok (b, rest) ↔ ts = render b ++ rest

variable {τ : Type u} {ε : Type v} {β : Type w} {R : Reader τ ε β} {ts rest : List τ}
  {b : β} {bs : List β} {e : ε}

theorem Reader.read_render (R : Reader τ ε β) (b : β) (rest : List τ) :
    R.read (R.render b ++ rest) = .ok (b, rest) :=
  (R.read_eq_ok_iff _ _ _).2 rfl

theorem Reader.length_lt (h : R.read ts = .ok (b, rest)) : rest.length < ts.length := by
  rw [(R.read_eq_ok_iff ts b rest).1 h, List.length_append]
  exact Nat.lt_add_of_pos_left (List.length_pos_of_ne_nil (R.render_ne_nil b))

/-- The items that a list of tokens writes one after the other, and the error at its end if what
is left there is none. -/
inductive Reads (R : Reader τ ε β) : List τ → List β → Option ε → Prop
  | nil : Reads R [] [] none
  | cons {ts rest : List τ} {b : β} {bs : List β} {e : Option ε} :
    R.read ts = .ok (b, rest) → Reads R rest bs e → Reads R ts (b :: bs) e
  | error {ts : List τ} {e : ε} : ts ≠ [] → R.read ts = .error e → Reads R ts [] (some e)

/-- Without an error, the tokens are those of the items. -/
theorem reads_none_iff : Reads R ts bs none ↔ ts = bs.flatMap R.render := by
  constructor
  · intro h
    generalize hn : (none : Option ε) = e at h
    induction h with
    | nil => rfl
    | cons hread _ ih =>
      rw [List.flatMap_cons, ← ih hn]
      exact (R.read_eq_ok_iff _ _ _).1 hread
    | error => cases hn
  · rintro rfl
    induction bs with
    | nil => exact .nil
    | cons b bs ih => exact .cons (R.read_render b _) ih

/-- With an error, they are followed by tokens that no item begins with. -/
theorem reads_some_iff : Reads R ts bs (some e) ↔
    ∃ rest, ts = bs.flatMap R.render ++ rest ∧ rest ≠ [] ∧ R.read rest = .error e := by
  constructor
  · intro h
    generalize hn : some e = e' at h
    induction h with
    | nil => cases hn
    | cons hread _ ih =>
      obtain ⟨rest, hts, hne, herr⟩ := ih hn
      refine ⟨rest, ?_, hne, herr⟩
      rw [List.flatMap_cons, List.append_assoc, ← hts]
      exact (R.read_eq_ok_iff _ _ _).1 hread
    | error hne herr =>
      cases hn
      exact ⟨_, rfl, hne, herr⟩
  · rintro ⟨rest, rfl, hne, herr⟩
    induction bs with
    | nil => exact .error hne herr
    | cons b bs ih =>
      rw [List.flatMap_cons, List.append_assoc]
      exact .cons (R.read_render b _) ih

/-- Every list of tokens has one reading. -/
theorem reads_exists (R : Reader τ ε β) (ts : List τ) : ∃ bs e, Reads R ts bs e := by
  induction hn : ts.length using Nat.strong_induction_on generalizing ts with
  | h n ih =>
    by_cases hnil : ts = []
    · subst hnil
      exact ⟨[], none, .nil⟩
    · cases hread : R.read ts with
      | error e => exact ⟨[], some e, .error hnil hread⟩
      | ok p =>
        obtain ⟨b, rest⟩ := p
        obtain ⟨bs, e, h⟩ := ih rest.length (hn ▸ R.length_lt hread) rest rfl
        exact ⟨b :: bs, e, .cons hread h⟩

/-- A field that some items set and the others leave alone ends with what the last of them sets. -/
theorem foldl_last {σ : Type x} {φ : Type y} (apply : σ → β → σ) (get : σ → φ)
    (sets : β → Option φ) (h : ∀ s b, get (apply s b) = (sets b).getD (get s)) (s : σ)
    (bs : List β) : get (bs.foldl apply s) = (bs.filterMap sets).getLast?.getD (get s) := by
  induction bs generalizing s with
  | nil => rfl
  | cons b bs ih =>
    rw [List.foldl_cons, ih, h, List.filterMap_cons]
    cases sets b with
    | none => rfl
    | some v => cases hrest : (bs.filterMap sets) <;> simp [List.getLast?_cons]

end TokenReader
