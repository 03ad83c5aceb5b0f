import FileWebServer.Lib.Search

namespace FileWebServer
open Search

/-- The source's `std::string`, `std::string_view` and `std::vector<char>`. -/
abbrev Bytes := List UInt8

/-- The bytes of a string literal. The source's literals are ASCII. -/
def bytes (s : String) : Bytes := s.toList.map fun c => c.toNat.toUInt8

def space : UInt8 := 32
def tab : UInt8 := 9
def slash : UInt8 := 47
def dot : UInt8 := 46
def percent : UInt8 := 37

def crlf : Bytes := [13, 10]
def crlfcrlf : Bytes := [13, 10, 13, 10]

/-- `std::to_string` of an unsigned number. -/
def decimal (n : Nat) : Bytes := (Nat.toDigits 10 n).map fun c => c.toNat.toUInt8

theorem mem_decimal {n : Nat} {b : UInt8} (h : b ∈ decimal n) : 48 ≤ b ∧ b ≤ 57 := by
  obtain ⟨c, hc, rfl⟩ := List.mem_map.1 h
  have hdigit := Nat.isDigit_of_mem_toDigits (by decide) (by decide) hc
  simp only [Char.isDigit, Bool.and_eq_true, decide_eq_true_eq] at hdigit
  obtain ⟨hlo, hhi⟩ := hdigit
  have hlo : 48 ≤ c.toNat := hlo
  have hhi : c.toNat ≤ 57 := hhi
  generalize c.toNat = d at *
  interval_cases d <;> decide

/-- `std::to_string` of a signed number. -/
def decimalInt (n : Int) : Bytes :=
  if n < 0 then bytes "-" ++ decimal n.natAbs else decimal n.natAbs

/-- `printf` with `%0wd`. -/
def zeroPadded (w : Nat) (n : Int) : Bytes :=
  let digits := decimal n.natAbs
  if n < 0 then bytes "-" ++ List.replicate (w - 1 - digits.length) 48 ++ digits
  else List.replicate (w - digits.length) 48 ++ digits

/-- `std::tolower` in the C locale. -/
def tolower (c : UInt8) : UInt8 := if 65 ≤ c ∧ c ≤ 90 then c + 32 else c

/-- A signed 64-bit result, wrapped as the hardware wraps it. -/
def wrap64 (x : Int) : Int := x.bmod (2 ^ 64)

end FileWebServer
