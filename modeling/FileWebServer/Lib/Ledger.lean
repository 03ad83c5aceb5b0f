import Mathlib

namespace Ledger
set_option autoImplicit true

/-- What happens to a resource: it is obtained, or given back. -/
inductive Entry (α : Type u) where
  | opened (a : α)
  | closed (a : α)
  deriving DecidableEq

variable [DecidableEq α] {m m' f : Multiset α} {es es' : List (Entry α)}

/-- The resources held after some entries, provided that only what is held is given back. -/
def balance : Multiset α → List (Entry α) → Option (Multiset α)
  | m, [] => some m
  | m, .opened a :: es => balance (a ::ₘ m) es
  | m, .closed a :: es => if a ∈ m then balance (m.erase a) es else none

@[simp] theorem balance_nil (m : Multiset α) : balance m [] = some m := rfl

theorem balance_append (m : Multiset α) (es es' : List (Entry α)) :
    balance m (es ++ es') = (balance m es).bind fun m' => balance m' es' := by
  induction es generalizing m with
  | nil => rfl
  | cons e es ih =>
    cases e with
    | opened a => exact ih _
    | closed a =>
      rw [List.cons_append, balance, balance]
      split
      · exact ih _
      · rfl

theorem balance_trans (h : balance m es = some m') :
    balance m (es ++ es') = balance m' es' := by
  rw [balance_append, h]
  rfl

/-- Resources that the entries are not about are held throughout. -/
theorem balance_frame (h : balance m es = some m') (f : Multiset α) :
    balance (m + f) es = some (m' + f) := by
  induction es generalizing m with
  | nil =>
    cases h
    rfl
  | cons e es ih =>
    cases e with
    | opened a =>
      have h' := ih h
      rwa [Multiset.cons_add] at h'
    | closed a =>
      rw [balance] at h
      split at h
      · next ha =>
        have h' := ih h
        rw [balance, if_pos (Multiset.mem_add.2 (.inl ha)), Multiset.erase_add_left_pos f ha]
        exact h'
      · cases h

theorem balance_singleton_closed (a : α) : balance {a} [.closed a] = some 0 := by
  rw [balance, if_pos (Multiset.mem_singleton_self a), Multiset.erase_singleton]
  rfl

/-- Of each resource, as many are held as were obtained and not given back. -/
theorem balance_count (h : balance m es = some m') (a : α) :
    m'.count a + es.count (.closed a) = m.count a + es.count (.opened a) := by
  induction es generalizing m with
  | nil =>
    cases h
    rfl
  | cons e es ih =>
    cases e with
    | opened b =>
      have h' := ih h
      rw [Multiset.count_cons] at h'
      simp only [List.count_cons, beq_iff_eq, reduceCtorEq, if_false, Entry.opened.injEq]
      by_cases hab : a = b
      · subst hab
        rw [if_pos rfl] at h' ⊢
        omega
      · rw [if_neg hab] at h'
        rw [if_neg (Ne.symm hab)]
        omega
    | closed b =>
      rw [balance] at h
      split at h
      · next hb =>
        have h' := ih h
        have hpos := Multiset.count_pos.2 hb
        simp only [List.count_cons, beq_iff_eq, reduceCtorEq, if_false, Entry.closed.injEq]
        by_cases hab : a = b
        · subst hab
          rw [Multiset.count_erase_self] at h'
          rw [if_pos rfl]
          omega
        · rw [Multiset.count_erase_of_ne hab] at h'
          rw [if_neg (Ne.symm hab)]
          omega
      · cases h

/-- At no time has more of a resource been given back than was obtained. -/
theorem balance_prefix (h : balance 0 es = some m) (hp : es' <+: es) (a : α) :
    es'.count (.closed a) ≤ es'.count (.opened a) := by
  obtain ⟨rest, rfl⟩ := hp
  rw [balance_append] at h
  cases hb : balance 0 es' with
  | none =>
    rw [hb] at h
    cases h
  | some m' =>
    have hcount := balance_count hb a
    rw [Multiset.count_zero] at hcount
    omega

end Ledger
