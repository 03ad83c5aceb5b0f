import Mathlib

namespace Pieces
set_option autoImplicit true

variable {α : Type u} {whole piece : List α} {store : Nat → Option α} {offset start stop n : Nat}

/-- A store into which a piece is put. What it had at that place is replaced. -/
def put (store : Nat → Option α) (offset : Nat) (piece : List α) : Nat → Option α := fun k =>
  if offset ≤ k ∧ k < offset + piece.length then piece[k - offset]? else store k

/-- Whatever a store has, a list has at the same place. -/
def PartOf (store : Nat → Option α) (whole : List α) : Prop :=
  ∀ k a, store k = some a → whole[k]? = some a

/-- A store has all items of a range. -/
def Covers (store : Nat → Option α) (start stop : Nat) : Prop :=
  ∀ k, start ≤ k → k < stop → (store k).isSome

/-- The first items of a store, those left out that it does not have. -/
def contents (store : Nat → Option α) (n : Nat) : List α := (List.range n).filterMap store

theorem partOf_nothing (whole : List α) : PartOf (fun _ => none) whole :=
  fun _ _ h => absurd h (Option.some_ne_none _).symm

theorem PartOf.put (h : PartOf store whole) (hp : piece <+: whole.drop offset) :
    PartOf (put store offset piece) whole := by
  intro k a hk
  unfold Pieces.put at hk
  split at hk
  · next hin =>
    have hlt : k - offset < piece.length := by omega
    have hwhole : (whole.drop offset)[k - offset]? = some a := by
      obtain ⟨rest, hrest⟩ := hp
      rw [← hrest, List.getElem?_append_left hlt]
      exact hk
    rw [List.getElem?_drop, Nat.add_sub_cancel' hin.1] at hwhole
    exact hwhole
  · exact h k a hk

theorem Covers.put (h : Covers store start stop) : Covers (put store offset piece) start stop := by
  intro k hlo hhi
  unfold Pieces.put
  split
  · rw [List.getElem?_eq_getElem (by omega)]
    rfl
  · exact h k hlo hhi

theorem covers_put (store : Nat → Option α) (offset : Nat) (piece : List α) :
    Covers (put store offset piece) offset (offset + piece.length) := by
  intro k hlo hhi
  unfold Pieces.put
  rw [if_pos ⟨hlo, hhi⟩, List.getElem?_eq_getElem (by omega)]
  rfl

/-- A store that has all of the first items has them in order. -/
theorem PartOf.contents (h : PartOf store whole) (hc : Covers store 0 n) (hn : n ≤ whole.length) :
    contents store n = whole.take n := by
  induction n with
  | zero => rfl
  | succ n ih =>
    have hbefore : Covers store 0 n := fun k hlo hhi => hc k hlo (by omega)
    obtain ⟨a, ha⟩ := Option.isSome_iff_exists.1 (hc n (Nat.zero_le n) (by omega))
    have hlast : whole.take (n + 1) = whole.take n ++ [a] := by
      rw [List.take_add_one, h n a ha]
      rfl
    rw [hlast, ← ih hbefore (by omega)]
    unfold Pieces.contents
    rw [List.range_succ, List.filterMap_append, List.filterMap_cons, ha]
    rfl

end Pieces
