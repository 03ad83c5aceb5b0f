import FileWebServer.Lib.PercentCoding
import FileWebServer.Server.Normalize

namespace FileWebServer
namespace FileServer
open PercentCoding (hexValue octet)
set_option autoImplicit true
set_option maxRecDepth 20000
variable {x y b : UInt8} {path rest : Bytes}

/-- The byte that the decoder puts in the place of a percent sign and the two bytes behind it. -/
def decodedByte (x y : UInt8) : Option UInt8 :=
  let (val, consumed) := strtol16 (if x = 0 then [] else if y = 0 then [x] else [x, y])
  if consumed = 2 ∧ 0 < val then some (UInt8.ofNat val.toNat) else none

theorem percentDecode_percent (x y : UInt8) (rest : Bytes) :
    percentDecode (percent :: x :: y :: rest) =
      match decodedByte x y with
      | some b => b :: percentDecode rest
      | none => percent :: percentDecode (x :: y :: rest) := by
  unfold decodedByte
  cases hval : strtol16 (if x = 0 then [] else if y = 0 then [x] else [x, y]) with
  | mk val consumed =>
    rw [percentDecode_hex hval]
    dsimp only
    by_cases h : consumed = 2 ∧ 0 < val
    · rw [if_pos ⟨rfl, h⟩, if_pos h]
    · rw [if_neg fun hc => h hc.2, if_neg h]

/-- A digit is no white space and no sign. -/
theorem hexDigit_plain : ∀ c : UInt8, hexDigit? c ≠ none →
    isspace c = false ∧ c ≠ 45 ∧ c ≠ 43 ∧ c ≠ 0 := by
  decide

theorem hexDigit_zero : ∀ c : UInt8, hexDigit? c = some 0 → c = 48 := by decide

theorem strtol16_digit {a : Nat} (hx : hexDigit? x = some a) (y : UInt8) :
    strtol16 [x, y] = match hexDigit? y with
      | some d => ((16 * a + d : Nat), 2)
      | none => ((a : Int), 1) := by
  obtain ⟨hspace, hminus, hplus, _⟩ := hexDigit_plain x (by rw [hx]; exact Option.some_ne_none a)
  cases hy : hexDigit? y with
  | none => simp [strtol16, hspace, hminus, hplus, skipHexPrefix, hexDigits, hx, hy]
  | some d => simp [strtol16, hspace, hminus, hplus, skipHexPrefix, hexDigits, hx, hy, mul_comm]

/-- Two digits are read as a number, and zero is refused. -/
theorem decodedByte_digit {a : Nat} (hx : hexDigit? x = some a) :
    decodedByte x y =
      (hexDigit? y).bind fun d => if 0 < 16 * a + d then some (UInt8.ofNat (16 * a + d)) else none := by
  obtain ⟨_, _, _, hzero⟩ := hexDigit_plain x (by rw [hx]; exact Option.some_ne_none a)
  have hone : ∀ x : UInt8, (strtol16 [x]).2 ≠ 2 := by decide
  unfold decodedByte
  rw [if_neg hzero]
  by_cases hy : y = 0
  · subst hy
    exact if_neg fun h => hone x h.1
  · rw [if_neg hy, strtol16_digit hx]
    cases hexDigit? y with
    | none => rfl
    | some d => simp only [Option.bind_some, true_and, Int.natCast_pos, Int.toNat_natCast]

/-- White space and a plus sign are skipped in front of the one digit that is left. -/
theorem decodedByte_skip : ∀ x : UInt8, isspace x ∨ x = 43 → ∀ y,
    decodedByte x y =
      (hexDigit? y).bind fun d => if 0 < d then some (UInt8.ofNat d) else none := by
  decide

theorem decodedByte_minus : ∀ y, decodedByte 45 y = none := by decide

theorem decodedByte_other (hx : hexDigit? x = none) (hspace : ¬ isspace x) (hplus : x ≠ 43)
    (hminus : x ≠ 45) : decodedByte x y = none := by
  have hnumber (s : Bytes) (hs : s = [x] ∨ s = [x, y]) : strtol16 s = (0, 0) := by
    rcases hs with rfl | rfl
    · simp [strtol16, hspace, hminus, hplus, skipHexPrefix, hexDigits, hx]
    · simp [strtol16, hspace, hminus, hplus, skipHexPrefix, hexDigits, hx]
  unfold decodedByte
  by_cases hzero : x = 0
  · rw [if_pos hzero]
    rfl
  · rw [if_neg hzero, hnumber _ (ite_eq_or_eq _ _ _)]
    rfl

/-- Two bytes that are not taken for what they are: the digits of zero, and a digit with something
before it that the number may begin with. -/
def Misread (x y : UInt8) : Prop :=
  x = 48 ∧ y = 48 ∨ (isspace x ∨ x = 43) ∧ hexValue y ≠ none ∧ y ≠ 48

theorem decodedByte_eq_octet (h : ¬ Misread x y) : decodedByte x y = octet x y := by
  obtain ⟨hzero, hskip⟩ := not_or.1 h
  cases hx : hexDigit? x with
  | some a =>
    have hoctet : octet x y = (hexDigit? y).map fun d => UInt8.ofNat (16 * a + d) := by
      rw [octet, show hexValue x = some a from hx]
      rfl
    rw [decodedByte_digit hx, hoctet]
    cases hy : hexDigit? y with
    | none => rfl
    | some d =>
      have hpos : 0 < 16 * a + d := by
        by_contra hnot
        obtain rfl : a = 0 := by omega
        obtain rfl : d = 0 := by omega
        exact hzero ⟨hexDigit_zero x hx, hexDigit_zero y hy⟩
      rw [Option.bind_some, if_pos hpos]
      rfl
  | none =>
    have hoctet : octet x y = none := by
      rw [octet, show hexValue x = none from hx]
      rfl
    rw [hoctet]
    by_cases hfirst : isspace x ∨ x = 43
    · rw [decodedByte_skip x hfirst]
      cases hy : hexDigit? y with
      | none => rfl
      | some d =>
        have hnot : ¬ 0 < d := by
          intro hpos
          refine hskip ⟨hfirst, ?_, ?_⟩
          · rw [show hexValue y = some d from hy]
            exact Option.some_ne_none d
          · rintro rfl
            cases hy
            exact absurd hpos (by decide)
        rw [Option.bind_some, if_neg hnot]
    · obtain ⟨hspace, hplus⟩ := not_or.1 hfirst
      by_cases hminus : x = 45
      · rw [hminus, decodedByte_minus]
      · exact decodedByte_other hx hspace hplus hminus

/-- What is misread gives another first byte. -/
theorem misread_differs (h : Misread x y) :
    (decodedByte x y).getD percent ≠ (octet x y).getD percent := by
  have hskip : ∀ x : UInt8, isspace x ∨ x = 43 → ∀ y, hexValue y ≠ none → y ≠ 48 →
      (decodedByte x y).getD percent ≠ (octet x y).getD percent := by
    decide
  rcases h with ⟨rfl, rfl⟩ | ⟨hx, hy, hne⟩
  · decide
  · exact hskip x hx y hy hne

theorem head_percentDecode (x y : UInt8) (rest : Bytes) :
    (percentDecode (percent :: x :: y :: rest)).head? = some ((decodedByte x y).getD percent) := by
  rw [percentDecode_percent]
  cases decodedByte x y with
  | none => rfl
  | some b => rfl

theorem head_decode (x y : UInt8) (rest : Bytes) :
    (PercentCoding.decode (percent :: x :: y :: rest)).head? = some ((octet x y).getD percent) := by
  cases h : octet x y with
  | none => exact congrArg List.head? (PercentCoding.decode_of_none h)
  | some b => exact congrArg List.head? (PercentCoding.decode_octet h)

/-- The decoder follows the standard, and a path that it stands for control bytes is rejected. -/
structure DecodesAsStandard (path : Bytes) : Prop where
  decoded : percentDecode path = PercentCoding.decode path
  rejected : (∃ b ∈ PercentCoding.decode path, b < 32 ∧ b ≠ tab) → normalize path = []

/-- No percent sign of a path stands before two bytes that are misread. -/
def NoneMisread (path : Bytes) : Prop :=
  ∀ x y, [percent, x, y] <:+: path → ¬ Misread x y

theorem NoneMisread.cons_iff (h : b ≠ percent) :
    NoneMisread (b :: rest) ↔ NoneMisread rest := by
  have hinfix (x y : UInt8) : [percent, x, y] <:+: b :: rest ↔ [percent, x, y] <:+: rest := by
    rw [List.infix_cons_iff, or_iff_right]
    exact fun hp => h (List.cons_prefix_cons.1 hp).1.symm
  simp only [NoneMisread, hinfix]

theorem NoneMisread.percent_iff :
    NoneMisread (percent :: x :: y :: rest) ↔
      ¬ Misread x y ∧ NoneMisread (x :: y :: rest) := by
  constructor
  · intro h
    exact ⟨h x y (List.prefix_append [percent, x, y] rest).isInfix,
      fun a b hab => h a b (List.infix_cons hab)⟩
  · rintro ⟨hxy, h⟩ a b hab
    rcases List.infix_cons_iff.1 hab with hp | hi
    · simp only [List.cons_prefix_cons, true_and] at hp
      rw [hp.1, hp.2.1]
      exact hxy
    · exact h a b hi

theorem noneMisread_of_short {s : Bytes} (h : s.length < 3) : NoneMisread s := by
  intro x y hi
  exact absurd hi.length_le (Nat.not_le.2 h)

theorem percentDecode_ne_decode (h : Misread x y) (rest : Bytes) :
    percentDecode (percent :: x :: y :: rest) ≠ PercentCoding.decode (percent :: x :: y :: rest) := by
  intro he
  apply misread_differs h
  apply Option.some_injective
  rw [← head_percentDecode x y rest, ← head_decode x y rest, he]

/-- The two decoders agree exactly where nothing is misread. -/
theorem percentDecode_eq_iff (path : Bytes) :
    percentDecode path = PercentCoding.decode path ↔ NoneMisread path := by
  induction path using PercentCoding.decode.induct with
  | case1 => exact ⟨fun _ => noneMisread_of_short (by simp), fun _ => rfl⟩
  | case2 a => exact ⟨fun _ => noneMisread_of_short (by simp), fun _ => rfl⟩
  | case3 a b => exact ⟨fun _ => noneMisread_of_short (by simp), fun _ => rfl⟩
  | case4 c x y rest b h ih =>
    obtain ⟨rfl, hb⟩ : c = percent ∧ octet x y = some b := by
      split at h
      · next hc => exact ⟨hc, h⟩
      · cases h
    obtain ⟨hx, hy⟩ := PercentCoding.octet_percent hb
    rw [NoneMisread.percent_iff, NoneMisread.cons_iff hx, NoneMisread.cons_iff hy]
    by_cases hxy : Misread x y
    · exact ⟨fun he => (percentDecode_ne_decode hxy rest he).elim, fun he => (he.1 hxy).elim⟩
    · have hdecode : PercentCoding.decode (percent :: x :: y :: rest) =
          b :: PercentCoding.decode rest := PercentCoding.decode_octet hb
      rw [percentDecode_percent, decodedByte_eq_octet hxy, hb, hdecode, List.cons_inj_right, ih]
      exact ⟨fun hr => ⟨hxy, hr⟩, fun hr => hr.2⟩
  | case5 c x y rest h ih =>
    by_cases hc : c = percent
    · subst hc
      have hb : octet x y = none := h
      rw [NoneMisread.percent_iff]
      by_cases hxy : Misread x y
      · exact ⟨fun he => (percentDecode_ne_decode hxy rest he).elim, fun he => (he.1 hxy).elim⟩
      · have hdecode : PercentCoding.decode (percent :: x :: y :: rest) =
            percent :: PercentCoding.decode (x :: y :: rest) := PercentCoding.decode_of_none hb
        rw [percentDecode_percent, decodedByte_eq_octet hxy, hb, hdecode, List.cons_inj_right, ih]
        exact ⟨fun hr => ⟨hxy, hr⟩, fun hr => hr.2⟩
    · rw [percentDecode_cons hc, PercentCoding.decode_cons hc, NoneMisread.cons_iff hc,
        List.cons_inj_right, ih]

theorem normalize_of_control (h : ∃ b ∈ percentDecode path, b < 32 ∧ b ≠ tab) :
    normalize path = [] := by
  obtain ⟨b, hb, hlt, htab⟩ := h
  have hforbidden : isForbidden b = true := by
    simp [isForbidden, hlt, htab]
  exact if_pos (List.any_eq_true.2 ⟨b, hb, hforbidden⟩)

/-- For every path, the decoding is that of the standard exactly when no percent sign stands before
the digits of zero, or before white space or a plus sign and a digit other than zero. -/
theorem decodesAsStandard_iff (path : Bytes) : DecodesAsStandard path ↔ NoneMisread path := by
  rw [← percentDecode_eq_iff]
  constructor
  · exact fun h => h.decoded
  · intro h
    refine ⟨h, fun hcontrol => ?_⟩
    rw [← h] at hcontrol
    exact normalize_of_control hcontrol

/-- A plus sign is taken for a digit, so that a path without any control byte is rejected; and the
byte zero, written with its digits, is let through. -/
theorem plus_taken_for_digit :
    PercentCoding.decode (bytes "/100%+able.txt") = bytes "/100%+able.txt" ∧
      normalize (bytes "/100%+able.txt") = [] ∧
      normalize (bytes "/a%00b") = bytes "/a%00b" ∧ 0 ∈ PercentCoding.decode (bytes "/a%00b") ∧
      ¬ DecodesAsStandard (bytes "/100%+able.txt") ∧ ¬ DecodesAsStandard (bytes "/a%00b") := by
  refine ⟨by decide, by decide, by decide, by decide,
    fun h => ?_, fun h => ?_⟩
  · exact absurd h.decoded (by decide)
  · exact absurd h.decoded (by decide)

end FileServer

end FileWebServer
