import Mathlib

namespace Records
set_option autoImplicit true

/-- A stream that is cut into records: what is left of the record that has been opened, and the
records that have arrived behind it. -/
structure Stream (α : Type) where
  held : List α
  records : List (List α)

namespace Stream
variable {s : Stream α} {n : Nat}

def arrive (record : List α) (s : Stream α) : Stream α :=
  { s with records := s.records ++ [record] }

/-- A record is opened once nothing is left of the one before. -/
def opened (s : Stream α) : Stream α :=
  match s.held, s.records with
  | [], record :: records => ⟨record, records⟩
  | _, _ => s

/-- A read takes up to `n` elements of one record, and the rest of it is held. -/
def read (n : Nat) (s : Stream α) : List α × Stream α :=
  (s.opened.held.take n, { s.opened with held := s.opened.held.drop n })

theorem read_length_le (n : Nat) (s : Stream α) : (s.read n).1.length ≤ n :=
  List.length_take_le ..

theorem read_eq_nil (hn : 0 < n) : (s.read n).1 = [] ↔ s.opened.held = [] := by
  rw [read, List.take_eq_nil_iff]
  exact or_iff_right (Nat.ne_of_gt hn)

/-- Nothing is held after a read that was large enough for the record. -/
theorem held_read_eq_nil : (s.read n).2.held = [] ↔ s.opened.held.length ≤ n :=
  List.drop_eq_nil_iff

end Stream

end Records
