import Mathlib

namespace Checked
set_option autoImplicit true

/-- A difference of unsigned numbers, where it does not wrap around. -/
def sub (a b : Nat) : Option Nat := if b ≤ a then some (a - b) else none

/-- The elements of a buffer that a pointer and a length stand for, where they all lie in it. -/
def window (buf : List α) (offset len : Nat) : Option (List α) :=
  if offset + len ≤ buf.length then some ((buf.drop offset).take len) else none

/-- What lies behind a cursor into the first `size` elements of a buffer. -/
def rest (buf : List α) (size cursor : Nat) : Option (List α) := do
  let len ← sub size cursor
  window buf cursor len

theorem sub_eq_some (h : b ≤ a) : sub a b = some (a - b) := if_pos h

theorem window_eq_some {buf : List α} (hc : cursor ≤ size) (hs : size ≤ buf.length) :
    window buf cursor (size - cursor) = some ((buf.take size).drop cursor) := by
  have hfits : cursor + (size - cursor) ≤ buf.length := by omega
  rw [window, if_pos hfits, List.drop_take]

/-- The checks are passed exactly by a cursor that lies before the end of what is there. -/
theorem rest_eq_some_iff {buf : List α} : rest buf size cursor = some out ↔
    cursor ≤ size ∧ size ≤ buf.length ∧ out = (buf.take size).drop cursor := by
  unfold rest
  by_cases hc : cursor ≤ size
  · rw [sub_eq_some hc]
    by_cases hs : size ≤ buf.length
    · change window buf cursor (size - cursor) = some out ↔ _
      rw [window_eq_some hc hs]
      simp [hc, hs, eq_comm]
    · have hout : ¬ cursor + (size - cursor) ≤ buf.length := by omega
      simp [window, hout, hs]
  · simp [sub, hc]

end Checked
