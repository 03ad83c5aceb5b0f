import Mathlib

namespace PercentCoding

def percent : UInt8 := 37

def hexValue (c : UInt8) : Option Nat :=
  if 48 ≤ c ∧ c ≤ 57 then some (c.toNat - 48)
  else if 65 ≤ c ∧ c ≤ 70 then some (c.toNat - 55)
  else if 97 ≤ c ∧ c ≤ 102 then some (c.toNat - 87)
  else none

/-- The byte that two hexadecimal digits stand for. -/
def octet (x y : UInt8) : Option UInt8 :=
  (hexValue x).bind fun a => (hexValue y).map fun b => UInt8.ofNat (16 * a + b)

/-- The octets that a text stands for. A percent sign without two digits behind it stands for
itself. -/
def decode : List UInt8 → List UInt8
  | [] => []
  | [a] => [a]
  | [a, b] => [a, b]
  | c :: x :: y :: rest =>
    match if c = percent then octet x y else none with
    | some b => b :: decode rest
    | none => c :: decode (x :: y :: rest)

variable {c x y b : UInt8} {rest : List UInt8}

theorem decode_cons (h : c ≠ percent) (s : List UInt8) : decode (c :: s) = c :: decode s := by
  match s with
  | [] => rfl
  | [_] => rfl
  | _ :: _ :: _ => rw [decode, if_neg h]

theorem decode_octet (h : octet x y = some b) :
    decode (percent :: x :: y :: rest) = b :: decode rest := by
  rw [decode, if_pos rfl, h]

theorem decode_of_none (h : octet x y = none) :
    decode (percent :: x :: y :: rest) = percent :: decode (x :: y :: rest) := by
  rw [decode, if_pos rfl, h]

theorem octet_eq_some (h : octet x y = some b) : ∃ m n, hexValue x = some m ∧ hexValue y = some n ∧
    b = UInt8.ofNat (16 * m + n) := by
  obtain ⟨m, hm, h⟩ := Option.bind_eq_some_iff.1 h
  obtain ⟨n, hn, rfl⟩ := Option.map_eq_some_iff.1 h
  exact ⟨m, n, hm, hn, rfl⟩

/-- No percent sign is a digit. -/
theorem octet_percent (h : octet x y = some b) : x ≠ percent ∧ y ≠ percent := by
  obtain ⟨m, n, hm, hn, _⟩ := octet_eq_some h
  constructor
  · rintro rfl
    cases hm
  · rintro rfl
    cases hn

end PercentCoding
