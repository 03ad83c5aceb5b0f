import Mathlib

namespace ErrorQueue
set_option autoImplicit true

/-- The calls that have to do with a thread's queue of errors, on objects of type `α`. -/
inductive Call (α : Type u) where
  /-- The queue is emptied. -/
  | clear
  /-- The handshake of an object succeeds. -/
  | finish (a : α)
  /-- Another call on an object; one that fails for good leaves an entry. -/
  | call (a : α) (fatal : Bool)
  /-- Shutting an object down before its handshake has succeeded leaves an entry. -/
  | shutdown (a : α)
  | free (a : α)
  /-- What the last call meant is asked for, and the queue is looked at. -/
  | ask
  deriving DecidableEq

/-- The queue, each entry with the object it comes from, unless that is gone. -/
structure State (α : Type u) where
  entries : List (Option α) := []
  finished : List α := []
  last : Option α := none

variable [DecidableEq α] {q : State α} {cs ds : List (Call α)}

def step (q : State α) : Call α → State α
  | .clear => { q with entries := [] }
  | .finish a => { q with finished := a :: q.finished, last := some a }
  | .call a fatal =>
    { q with entries := if fatal then some a :: q.entries else q.entries, last := some a }
  | .shutdown a => { q with entries := if a ∈ q.finished then q.entries else some a :: q.entries }
  | .free a =>
    { q with
      entries := q.entries.map fun e => if e = some a then none else e
      finished := q.finished.filter (· ≠ a) }
  | .ask => q

/-- All entries come from one object. -/
def Owned (q : State α) (a : α) : Prop := ∀ e ∈ q.entries, e = some a

instance (q : State α) (a : α) : Decidable (Owned q a) :=
  inferInstanceAs (Decidable (∀ e ∈ q.entries, e = some a))

/-- The entries come from the object of the last call. -/
def Own (q : State α) : Prop := ∀ a ∈ q.last, Owned q a

instance (q : State α) : Decidable (Own q) :=
  inferInstanceAs (Decidable (∀ a ∈ q.last, Owned q a))

/-- Whenever the queue is looked at, its entries come from the object that is asked about. -/
def Apart : State α → List (Call α) → Prop
  | _, [] => True
  | q, c :: cs => (c = .ask → Own q) ∧ Apart (step q c) cs

instance decidableApart : (q : State α) → (cs : List (Call α)) → Decidable (Apart q cs)
  | _, [] => .isTrue trivial
  | q, c :: cs =>
    have := decidableApart (step q c) cs
    inferInstanceAs (Decidable ((c = .ask → Own q) ∧ Apart (step q c) cs))

theorem apart_append : Apart q (cs ++ ds) ↔ Apart q cs ∧ Apart (cs.foldl step q) ds := by
  induction cs generalizing q with
  | nil => simp [Apart]
  | cons c cs ih => simp only [List.cons_append, Apart, List.foldl_cons, ih, and_assoc]

/-- Calls among which none looks at the queue. -/
theorem apart_of_notMem (h : Call.ask ∉ cs) : Apart q cs := by
  induction cs generalizing q with
  | nil => trivial
  | cons c cs ih =>
    obtain ⟨hc, hcs⟩ := not_or.1 (fun hm => h (List.mem_cons.2 hm))
    exact ⟨fun he => (hc he.symm).elim, ih hcs⟩

/-- Asked about right after it has been emptied, the queue has nothing from elsewhere. -/
theorem apart_clear (q : State α) (a : α) (fatal : Bool) :
    Apart q [.clear, .call a fatal, .ask] := by
  have hown : Own (step (step q .clear) (.call a fatal)) := by
    intro b hb e he
    cases hb
    cases fatal with
    | true =>
      rcases List.mem_cons.1 he with he | he
      · exact he
      · cases he
    | false => cases he
  exact ⟨nofun, nofun, fun _ => hown, trivial⟩

/-- Asked about without that, it has what was in it before. -/
theorem apart_call (a : α) (fatal : Bool) :
    Apart q [.call a fatal, .ask] ↔ Owned q a := by
  have hown : Own (step q (.call a fatal)) ↔ Owned q a := by
    unfold Own Owned step
    cases fatal with
    | true => simp
    | false => simp
  constructor
  · exact fun h => hown.1 (h.2.1 rfl)
  · exact fun h => ⟨nofun, fun _ => hown.2 h, trivial⟩

/-- Among some calls, the handshake of `a` succeeds, and `a` is not freed after that. -/
def Succeeded (cs : List (Call α)) (a : α) : Prop :=
  ∃ pre post, cs = pre ++ .finish a :: post ∧ .free a ∉ post

/-- After some calls, the call leaves an entry of the object `a`. -/
def Leaves (pre : List (Call α)) (c : Call α) (a : α) : Prop :=
  c = .call a true ∨ c = .shutdown a ∧ ¬ Succeeded pre a

/-- Since the queue was emptied last, no call on an object other than `a`, nor on one that is
gone, has left an entry. -/
def Quiet (cs : List (Call α)) (a : α) : Prop :=
  ∀ pre c post b, cs = pre ++ c :: post → .clear ∉ post → Leaves pre c b →
    b = a ∧ .free b ∉ post

omit [DecidableEq α] in
theorem eq_concat {pre post : List (Call α)} (h : cs ++ [c] = pre ++ d :: post) :
    (cs = pre ∧ c = d ∧ post = []) ∨ ∃ rest, post = rest ++ [c] ∧ cs = pre ++ d :: rest := by
  rcases List.eq_nil_or_concat post with rfl | ⟨rest, e, rfl⟩
  · obtain ⟨hcs, hc⟩ := List.append_inj' h rfl
    exact .inl ⟨hcs, List.singleton_inj.1 hc, rfl⟩
  · rw [List.concat_eq_append, ← List.cons_append, ← List.append_assoc] at h
    obtain ⟨hcs, hc⟩ := List.append_inj' h rfl
    cases hc
    exact .inr ⟨rest, List.concat_eq_append, hcs⟩

omit [DecidableEq α] in
theorem succeeded_concat : Succeeded (cs ++ [c]) a ↔
    c = .finish a ∨ c ≠ .free a ∧ Succeeded cs a := by
  constructor
  · rintro ⟨pre, post, h, hfree⟩
    rcases eq_concat h with ⟨_, hc, _⟩ | ⟨rest, rfl, hcs⟩
    · exact .inl hc
    · have hrest : Call.free a ∉ rest ∧ Call.free a ∉ [c] := by simpa using hfree
      exact .inr ⟨fun hc => hrest.2 (by simp [hc]), pre, rest, hcs, hrest.1⟩
  · rintro (rfl | ⟨hc, pre, post, rfl, hfree⟩)
    · exact ⟨cs, [], rfl, List.not_mem_nil⟩
    · refine ⟨pre, post ++ [c], by simp, ?_⟩
      simp [hfree, Ne.symm hc]

/-- The objects whose handshakes have succeeded are kept. -/
theorem mem_finished_iff : a ∈ (cs.foldl step {}).finished ↔ Succeeded cs a := by
  induction cs using List.reverseRecOn with
  | nil => simp [Succeeded]
  | append_singleton cs c ih =>
    rw [succeeded_concat, ← ih, List.foldl_append, List.foldl_cons, List.foldl_nil]
    cases c with
    | clear => simp [step]
    | finish b => simp [step, eq_comm]
    | call b fatal => simp [step]
    | shutdown b => simp [step]
    | free b =>
      generalize cs.foldl step {} = q
      simp [step, and_comm, @eq_comm _ b a]
    | ask => simp [step]

/-- A call since the queue was emptied last has left the entry, which has lost its object if
that has been freed. -/
def Left (cs : List (Call α)) (e : Option α) : Prop :=
  ∃ pre c post b, cs = pre ++ c :: post ∧ .clear ∉ post ∧ Leaves pre c b ∧
    e = if .free b ∈ post then none else some b

theorem left_concat : Left (cs ++ [c]) e ↔ (∃ b, Leaves cs c b ∧ e = some b) ∨
    c ≠ .clear ∧ ∃ e', Left cs e' ∧ e = if ∃ b, e' = some b ∧ c = .free b then none else e' := by
  constructor
  · rintro ⟨pre, d, post, b, h, hclear, hleaves, rfl⟩
    rcases eq_concat h with ⟨rfl, rfl, rfl⟩ | ⟨rest, rfl, rfl⟩
    · exact .inl ⟨b, hleaves, rfl⟩
    · have hrest : Call.clear ∉ rest ∧ Call.clear ≠ c := by simpa using hclear
      refine .inr ⟨hrest.2.symm, _, ⟨pre, d, rest, b, rfl, hrest.1, hleaves, rfl⟩, ?_⟩
      by_cases hb : Call.free b ∈ rest
      · simp [hb]
      · simp [hb, eq_comm]
  · rintro (⟨b, hleaves, rfl⟩ | ⟨hc, e', ⟨pre, d, post, b, rfl, hclear, hleaves, rfl⟩, rfl⟩)
    · exact ⟨cs, c, [], b, rfl, List.not_mem_nil, hleaves, rfl⟩
    · refine ⟨pre, d, post ++ [c], b, by simp, by simp [hclear, Ne.symm hc], hleaves, ?_⟩
      by_cases hb : Call.free b ∈ post
      · simp [hb]
      · simp [hb, eq_comm]

/-- The entries of a queue are told by the calls since it was emptied last. -/
theorem mem_entries_iff : e ∈ (cs.foldl step {}).entries ↔ Left cs e := by
  induction cs using List.reverseRecOn generalizing e with
  | nil => simp [Left]
  | append_singleton cs c ih =>
    rw [left_concat, List.foldl_append, List.foldl_cons, List.foldl_nil]
    simp only [← ih, Leaves, ← mem_finished_iff]
    generalize cs.foldl step {} = q
    cases c with
    | clear => simp [step]
    | finish b => simp [step]
    | call b fatal => cases fatal <;> simp [step]
    | shutdown b =>
      by_cases hb : b ∈ q.finished
      · have hnone : ¬ ∃ d, (b = d ∧ d ∉ q.finished) ∧ e = some d :=
          fun ⟨d, ⟨hd, hn⟩, _⟩ => hn (hd ▸ hb)
        simp [step, hb, hnone]
      · have hone : (∃ d, (b = d ∧ d ∉ q.finished) ∧ e = some d) ↔ e = some b :=
          ⟨fun ⟨d, ⟨hd, _⟩, he⟩ => hd ▸ he, fun he => ⟨b, ⟨rfl, hb⟩, he⟩⟩
        simp [step, hb, hone]
    | free b => simp [step, eq_comm]
    | ask => simp [step]

theorem owned_iff_quiet : Owned (cs.foldl step {}) a ↔ Quiet cs a := by
  constructor
  · intro h pre c post b hcs hclear hleaves
    have he := h _ (mem_entries_iff.2 ⟨pre, c, post, b, hcs, hclear, hleaves, rfl⟩)
    split at he
    · cases he
    · next hfree =>
      cases he
      exact ⟨rfl, hfree⟩
  · intro h e he
    obtain ⟨pre, c, post, b, hcs, hclear, hleaves, rfl⟩ := mem_entries_iff.1 he
    obtain ⟨rfl, hfree⟩ := h pre c post b hcs hclear hleaves
    rw [if_neg hfree]

end ErrorQueue
