import Mathlib

namespace Search
set_option autoImplicit true

variable [DecidableEq α]

/-- Offset of the first occurrence of a pattern, as `std::string_view::find` returns it. -/
def find (pat s : List α) : Option Nat :=
  s.tails.findIdx? fun t => decide (pat <+: t)

theorem find_cons (pat : List α) (a : α) (s : List α) :
    find pat (a :: s) = if pat <+: a :: s then some 0 else (find pat s).map (· + 1) := by
  simp [find, List.findIdx?_cons]

/-- The offset found is the least one at which the pattern stands. -/
theorem find_eq_some_iff {pat s : List α} :
    find pat s = some i ↔
      i ≤ s.length ∧ pat <+: s.drop i ∧ ∀ j < i, ¬ pat <+: s.drop j := by
  rw [find, List.findIdx?_eq_some_iff_getElem]
  simp only [List.length_tails, List.getElem_tails, decide_eq_true_eq]
  constructor
  · rintro ⟨hi, hp, hj⟩
    exact ⟨Nat.lt_succ_iff.1 hi, hp, hj⟩
  · rintro ⟨hi, hp, hj⟩
    exact ⟨Nat.lt_succ_of_le hi, hp, hj⟩

theorem find_eq_none_iff {pat s : List α} : find pat s = none ↔ ¬ pat <:+: s := by
  rw [find, List.findIdx?_eq_none_iff]
  simp only [List.mem_tails, decide_eq_false_iff_not]
  rw [List.infix_iff_prefix_suffix]
  grind

theorem find_le_length {pat s : List α} (h : find pat s = some i) :
    i + pat.length ≤ s.length := by
  obtain ⟨hi, hp, _⟩ := find_eq_some_iff.1 h
  have hl := hp.length_le
  rw [List.length_drop] at hl
  omega

/-- Text after the first occurrence does not move it. -/
theorem find_append_left {pat s : List α} (h : find pat s = some i) (t : List α) :
    find pat (s ++ t) = some i := by
  have hl := find_le_length h
  obtain ⟨hi, hp, hj⟩ := find_eq_some_iff.1 h
  refine find_eq_some_iff.2 ⟨by rw [List.length_append]; omega, ?_, ?_⟩
  · rw [List.drop_append_of_le_length hi]
    exact hp.trans (List.prefix_append _ _)
  · intro j hji hpre
    rw [List.drop_append_of_le_length (by omega)] at hpre
    refine hj j hji (List.prefix_of_prefix_length_le hpre (List.prefix_append _ _) ?_)
    rw [List.length_drop]
    omega

/-- What reaches past the first occurrence has it too. -/
theorem find_of_isPrefix {pat s t : List α} (h : find pat t = some i) (hp : s <+: t)
    (hlen : i + pat.length ≤ s.length) : find pat s = some i := by
  obtain ⟨rest, rfl⟩ := hp
  obtain ⟨_, hi, hj⟩ := find_eq_some_iff.1 h
  refine find_eq_some_iff.2 ⟨by omega, ?_, fun j hji hpre => ?_⟩
  · rw [List.drop_append_of_le_length (by omega)] at hi
    apply List.prefix_of_prefix_length_le hi (List.prefix_append _ _)
    rw [List.length_drop]
    omega
  · apply hj j hji
    rw [List.drop_append_of_le_length (by omega)]
    exact hpre.trans (List.prefix_append _ _)

/-- A text without the first character of the pattern is skipped as a whole. -/
theorem find_append_of_notMem {p : α} {ps s : List α} (h : p ∉ s) (t : List α) :
    find (p :: ps) (s ++ t) = (find (p :: ps) t).map (s.length + ·) := by
  induction s with
  | nil => simp
  | cons a s ih =>
    rw [List.mem_cons, not_or] at h
    have hne : ¬ p :: ps <+: a :: (s ++ t) := fun hp => h.1 (List.cons_prefix_cons.1 hp).1
    rw [List.cons_append, find_cons, if_neg hne, ih h.2, Option.map_map]
    congr 1
    funext n
    simp only [Function.comp, List.length_cons]
    omega

theorem find_prefix {pat t : List α} (h : pat <+: t) : find pat t = some 0 :=
  find_eq_some_iff.2 ⟨Nat.zero_le _, h, fun _ hj => (Nat.not_lt_zero _ hj).elim⟩

/-- The pattern right behind a text without its first character is found there. -/
theorem find_append_self {p : α} {ps s : List α} (h : p ∉ s) (t : List α) :
    find (p :: ps) (s ++ (p :: ps ++ t)) = some s.length := by
  rw [find_append_of_notMem h, find_prefix (List.prefix_append _ _)]
  rfl

theorem find_none_of_notMem {p : α} {ps s : List α} (h : p ∉ s) : find (p :: ps) s = none := by
  rw [find_eq_none_iff]
  exact fun hi => h (hi.subset List.mem_cons_self)

/-- The first occurrence of a character splits the text. -/
theorem find_singleton {c : α} {s : List α} (h : find [c] s = some i) :
    s = s.take i ++ c :: s.drop (i + 1) ∧ c ∉ s.take i := by
  obtain ⟨_, ⟨t, ht⟩, hbefore⟩ := find_eq_some_iff.1 h
  constructor
  · have hnext : s.drop (i + 1) = t := by
      rw [← List.tail_drop, ← ht]
      rfl
    rw [hnext, ← List.singleton_append, ht, List.take_append_drop]
  · intro hmem
    obtain ⟨j, hj, hget⟩ := List.mem_iff_getElem.1 hmem
    rw [List.length_take] at hj
    rw [List.getElem_take] at hget
    apply hbefore j (by omega)
    rw [List.drop_eq_getElem_cons (by omega), hget]
    exact List.prefix_append [c] _

/-- A text up to the end of the first occurrence of a pattern, and all of it if there is none. -/
def upTo (pat s : List α) : List α :=
  match find pat s with
  | some i => s.take (i + pat.length)
  | none => s

theorem upTo_of_none {pat s : List α} (h : find pat s = none) : upTo pat s = s := by
  rw [upTo, h]

theorem upTo_of_some {pat s : List α} (h : find pat s = some i) :
    upTo pat s = s.take (i + pat.length) := by
  rw [upTo, h]

theorem find_upTo (pat s : List α) : find pat (upTo pat s) = find pat s := by
  cases h : find pat s with
  | none => rw [upTo_of_none h, h]
  | some i =>
    rw [upTo_of_some h]
    apply find_of_isPrefix h (List.take_prefix _ _)
    rw [List.length_take]
    exact Nat.le_min.2 ⟨Nat.le_refl _, find_le_length h⟩

theorem upTo_isPrefix (pat s : List α) : upTo pat s <+: s := by
  cases h : find pat s with
  | none => rw [upTo_of_none h]
  | some i => rw [upTo_of_some h]; exact List.take_prefix _ _

/-- What comes behind the first occurrence can be cut off before more is added. -/
theorem upTo_append (pat s t : List α) : upTo pat (upTo pat s ++ t) = upTo pat (s ++ t) := by
  cases h : find pat s with
  | none => rw [upTo_of_none h]
  | some i =>
    have hcut : find pat (upTo pat s) = some i := by rw [find_upTo, h]
    have hlen : i + pat.length ≤ (upTo pat s).length := find_le_length hcut
    rw [upTo_of_some (find_append_left hcut t), upTo_of_some (find_append_left h t),
      List.take_append_of_le_length hlen, List.take_append_of_le_length (find_le_length h),
      upTo_of_some h, List.take_take, Nat.min_self]

end Search
