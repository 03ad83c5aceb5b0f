import FileWebServer.Lib.Ledger

namespace Ledger
set_option autoImplicit true

variable [DecidableEq α] {slots : Finset ι} {held held' : ι → Multiset α}
  {es es' : List (Entry α)}

/-- What the entries leave is held, and no more than that. -/
def Settled (slots : Finset ι) (held : ι → Multiset α) (es : List (Entry α)) : Prop :=
  balance 0 es = some (∑ i ∈ slots, held i)

theorem settled_nil (h : ∀ i, held i = 0) : Settled slots held [] := by
  unfold Settled
  rw [Finset.sum_eq_zero fun i _ => h i, balance_nil]

theorem balance_opened (m : Multiset α) (news : List α) (es : List (Entry α)) :
    balance m (news.map .opened ++ es) = balance (m + (news : Multiset α)) es := by
  induction news generalizing m with
  | nil => exact congrArg (balance · es) (add_zero m).symm
  | cons a news ih =>
    change balance (a ::ₘ m) (news.map .opened ++ es) = _
    rw [ih, ← Multiset.cons_coe, Multiset.add_cons, Multiset.cons_add]

/-- The same entries under other names. -/
def Entry.map (f : α → β) : Entry α → Entry β
  | .opened a => .opened (f a)
  | .closed a => .closed (f a)

theorem balance_map [DecidableEq β] {f : α → β} (hf : Function.Injective f)
    (h : balance m es = some m') : balance (m.map f) (es.map (.map f)) = some (m'.map f) := by
  induction es generalizing m with
  | nil =>
    cases h
    rfl
  | cons e es ih =>
    cases e with
    | opened a =>
      have hnext := ih h
      rw [Multiset.map_cons] at hnext
      exact hnext
    | closed a =>
      rw [balance] at h
      split at h
      · next ha =>
        have hnext := ih h
        rw [Multiset.map_erase f hf] at hnext
        rw [List.map_cons, Entry.map, balance, if_pos (Multiset.mem_map_of_mem f ha)]
        exact hnext
      · cases h

/-- Entries of one holder, and what has been obtained for it beforehand, change what that holder
has. -/
theorem Settled.step [DecidableEq ι] {news : List α} (h : Settled slots held es) (hi : i ∈ slots)
    (hstep : balance (held i + (news : Multiset α)) es' = some (held' i))
    (hother : ∀ j, j ≠ i → held' j = held j) :
    Settled slots held' (news.map .opened ++ es ++ es') := by
  have hrest : ∑ j ∈ slots.erase i, held' j = ∑ j ∈ slots.erase i, held j :=
    Finset.sum_congr rfl fun j hj => hother j (Finset.ne_of_mem_erase hj)
  have hnews : balance 0 (news.map .opened ++ es) =
      some (held i + (news : Multiset α) + ∑ j ∈ slots.erase i, held j) := by
    rw [balance_opened, balance_frame h, ← Finset.add_sum_erase slots held hi]
    exact congrArg some (add_right_comm ..)
  unfold Settled
  rw [← Finset.add_sum_erase slots held' hi, hrest, balance_trans hnews]
  exact balance_frame hstep _

/-- What is given back at once is held by nobody. -/
theorem Settled.pass (h : Settled slots held es) (hstep : balance 0 es' = some 0) :
    Settled slots held (es ++ es') := by
  have hframe := balance_frame hstep (∑ i ∈ slots, held i)
  rw [zero_add] at hframe
  exact (balance_trans h).trans hframe

theorem Settled.congr (h : Settled slots held es) (hheld : ∀ i, held' i = held i) :
    Settled slots held' es := by
  rw [funext hheld]
  exact h

/-- What was obtained has been given back or is held. -/
theorem Settled.count (h : Settled slots held es) (a : α) :
    es.count (.opened a) = es.count (.closed a) + ∑ i ∈ slots, (held i).count a := by
  have hcount := balance_count h a
  rw [Multiset.count_sum', Multiset.count_zero] at hcount
  omega

end Ledger
