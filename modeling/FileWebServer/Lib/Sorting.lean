import Mathlib

namespace Sorting
set_option autoImplicit true

variable {α : Type} {less : α → α → Bool} {l l' : List α}

/-- What a sort with a comparator may make of a list: the same elements, none of them behind one
that it is less than. -/
structure Sorts (less : α → α → Bool) (l l' : List α) : Prop where
  perm : l'.Perm l
  sorted : l'.Pairwise fun a b => less b a = false

/-- A comparator as a sort needs it: a strict weak order. -/
structure StrictWeak (less : α → α → Bool) : Prop where
  asymm : ∀ {a b}, less a b = true → less b a = false
  split : ∀ {a c} (b), less a c = true → less a b = true ∨ less b c = true

/-- A comparator that orders any two elements at different places of a list. -/
def Separates (less : α → α → Bool) (l : List α) : Prop :=
  l.Pairwise fun a b => less a b = true ∨ less b a = true

theorem Separates.perm (h : Separates less l) (hp : l'.Perm l) : Separates less l' :=
  List.Pairwise.perm h hp.symm fun hab => hab.symm

theorem Sorts.strict (h : Sorts less l l') (hs : Separates less l) :
    l'.Pairwise fun a b => less a b = true := by
  apply (h.sorted.and (hs.perm h.perm)).imp
  intro a b hab
  exact hab.2.resolve_right (Bool.eq_false_iff.1 hab.1)

/-- A list whose elements are told apart has one sorted order. -/
theorem StrictWeak.eq_of_sorts (hw : StrictWeak less) (hs : Separates less l)
    (h : Sorts less l l') (h' : Sorts less l l'') : l' = l'' := by
  apply List.Perm.eq_of_pairwise _ (h.strict hs) (h'.strict hs) (h.perm.trans h'.perm.symm)
  intro a b _ _ hab hba
  exact absurd hba (Bool.eq_false_iff.1 (hw.asymm hab))

theorem StrictWeak.sorts_insertionSort (hw : StrictWeak less) (l : List α) :
    Sorts less l (l.insertionSort fun a b => less b a = false) := by
  have htotal : Std.Total fun a b => less b a = false := by
    constructor
    intro a b
    cases hba : less b a with
    | false => exact .inl rfl
    | true => exact .inr (hw.asymm hba)
  have htrans : IsTrans α fun a b => less b a = false := by
    constructor
    intro a b c hab hbc
    by_contra hca
    rcases hw.split b (Bool.eq_true_of_not_eq_false hca) with h | h
    · rw [h] at hbc
      cases hbc
    · rw [h] at hab
      cases hab
  constructor
  · exact List.perm_insertionSort _ l
  · exact List.pairwise_insertionSort _ l

end Sorting
