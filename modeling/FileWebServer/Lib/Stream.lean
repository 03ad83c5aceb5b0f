import Mathlib

namespace Stream
set_option autoImplicit true

/-- The messages at the front of a stream, for a reader that knows of what kind each is to be. It
stops before the first one that is not all there. -/
def readAll (read : κ → List α → Option (μ × List α)) : List κ → List α → List μ
  | [], _ => []
  | k :: ks, stream =>
    match read k stream with
    | some (m, rest) => m :: readAll read ks rest
    | none => []

/-- A text that a reader takes for a message, whatever comes behind it, and not before it is all
there. -/
structure Delimits (read : κ → List α → Option (μ × List α)) (k : κ) (text : List α) (m : μ) :
    Prop where
  whole : ∀ rest, read k (text ++ rest) = some (m, rest)
  part : ∀ part, part <+: text → part ≠ text → read k part = none

variable {read : κ → List α → Option (μ × List α)} {kind : ξ → κ} {text : ξ → List α}
  {message : ξ → μ} {xs : List ξ} {x : ξ} {stream : List α}

theorem readAll_append (h : ∀ x ∈ xs, Delimits read (kind x) (text x) (message x)) (ks : List κ)
    (rest : List α) : readAll read (xs.map kind ++ ks) ((xs.map text).flatten ++ rest) =
      xs.map message ++ readAll read ks rest := by
  induction xs with
  | nil => rfl
  | cons x xs ih =>
    obtain ⟨hx, hxs⟩ := List.forall_mem_cons.1 h
    have hread := hx.whole ((xs.map text).flatten ++ rest)
    rw [← List.append_assoc] at hread
    simp only [List.map_cons, List.flatten_cons, List.cons_append, readAll]
    rw [hread]
    exact congrArg (message x :: ·) (ih hxs)

theorem readAll_flatten (h : ∀ x ∈ xs, Delimits read (kind x) (text x) (message x)) :
    readAll read (xs.map kind) (xs.map text).flatten = xs.map message := by
  have hall := readAll_append h [] []
  rw [List.append_nil, List.append_nil] at hall
  exact hall.trans (List.append_nil _)

/-- A message that is not all there yet is not read. -/
theorem readAll_part (h : ∀ y ∈ xs, Delimits read (kind y) (text y) (message y))
    (hx : Delimits read (kind x) (text x) (message x)) {part : List α} (hpart : part <+: text x)
    (hne : part ≠ text x) :
    readAll read ((xs ++ [x]).map kind) ((xs.map text).flatten ++ part) = xs.map message := by
  rw [List.map_append, readAll_append h, List.map_singleton, readAll, hx.part part hpart hne]
  exact List.append_nil _

/-- All that is left to be read of messages that have been sent one after the other is the last
one, if it is cut short. -/
theorem readAll_cut (h : ∀ x ∈ xs, Delimits read (kind x) (text x) (message x))
    (hsent : stream <+: (xs.map text).flatten)
    (hlast : (xs.dropLast.map text).flatten <+: stream) :
    ∃ n, xs.length ≤ n + 1 ∧ readAll read (xs.map kind) stream = (xs.take n).map message := by
  rcases List.eq_nil_or_concat xs with rfl | ⟨init, x, rfl⟩
  · exact ⟨0, Nat.zero_le _, rfl⟩
  · rw [List.concat_eq_append] at *
    rw [List.dropLast_concat] at hlast
    obtain ⟨part, rfl⟩ := hlast
    rw [List.map_append, List.flatten_append, List.prefix_append_right_inj] at hsent
    have hpart : part <+: text x := by
      rw [List.map_singleton, List.flatten_singleton] at hsent
      exact hsent
    have hinit : ∀ y ∈ init, Delimits read (kind y) (text y) (message y) :=
      fun y hy => h y (List.mem_append_left _ hy)
    have hx := h x (List.mem_append_right _ (List.mem_singleton_self x))
    by_cases hne : part = text x
    · refine ⟨(init ++ [x]).length, Nat.le_succ _, ?_⟩
      have hall := readAll_flatten h
      rw [List.map_append (f := text), List.flatten_append, List.map_singleton,
        List.flatten_singleton] at hall
      rw [hne, List.take_length]
      exact hall
    · refine ⟨init.length, by rw [List.length_append, List.length_singleton], ?_⟩
      rw [readAll_part hinit hx hpart hne, List.take_left]

end Stream
