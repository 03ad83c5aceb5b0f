import Mathlib

namespace LinkedList
set_option autoImplicit true

/-- The link fields of the nodes of an intrusive doubly linked list, and its head. -/
structure Links (ι : Type) where
  next : ι → Option ι
  prev : ι → Option ι
  head : Option ι

namespace Links

variable {L L' : Links ι}

/-- The nodes `l` hang together from `h` on, behind `p`, and the last one points to `q`. -/
def Seg (L : Links ι) : Option ι → Option ι → List ι → Option ι → Prop
  | _, h, [], q => h = q
  | p, h, x :: xs, q => h = some x ∧ L.prev x = p ∧ L.Seg (some x) (L.next x) xs q

/-- The list that a well-formed structure stands for. -/
structure Represents (L : Links ι) (l : List ι) : Prop where
  seg : L.Seg none L.head l none
  nodup : l.Nodup

theorem seg_append {l₁ l₂ : List ι} {p h q : Option ι} :
    L.Seg p h (l₁ ++ l₂) q ↔ ∃ m, L.Seg p h l₁ m ∧ L.Seg (l₁.getLast?.or p) m l₂ q := by
  induction l₁ generalizing p h with
  | nil => simp [Seg]
  | cons x xs ih =>
    have hl : ((x :: xs).getLast?).or p = xs.getLast?.or (some x) := by
      cases xs with
      | nil => rfl
      | cons y ys => simp [List.getLast?_cons]
    simp only [List.cons_append, Seg, ih, hl]
    constructor
    · rintro ⟨hh, hp, m, h₁, h₂⟩
      exact ⟨m, ⟨hh, hp, h₁⟩, h₂⟩
    · rintro ⟨m, ⟨hh, hp, h₁⟩, h₂⟩
      exact ⟨hh, hp, m, h₁, h₂⟩

/-- A segment does not depend on the links of other nodes. -/
theorem Seg.frame {l : List ι} (h : L.Seg p x l q) (hn : ∀ y ∈ l, L'.next y = L.next y)
    (hp : ∀ y ∈ l, L'.prev y = L.prev y) : L'.Seg p x l q := by
  induction l generalizing p x with
  | nil => exact h
  | cons y ys ih =>
    obtain ⟨hx, hprev, hs⟩ := h
    refine ⟨hx, (hp y List.mem_cons_self).trans hprev, ?_⟩
    rw [hn y List.mem_cons_self]
    exact ih hs (fun z hz => hn z (List.mem_cons_of_mem _ hz))
      (fun z hz => hp z (List.mem_cons_of_mem _ hz))

theorem Represents.frame {l : List ι} (h : L.Represents l) (hh : L'.head = L.head)
    (hn : ∀ y ∈ l, L'.next y = L.next y) (hp : ∀ y ∈ l, L'.prev y = L.prev y) :
    L'.Represents l :=
  ⟨hh ▸ h.seg.frame hn hp, h.nodup⟩

theorem Represents.head_eq {l : List ι} (h : L.Represents l) : L.head = l.head? := by
  cases l with
  | nil => exact h.seg
  | cons x xs => exact h.seg.1

theorem Represents.next_eq {l₁ l₂ : List ι} (h : L.Represents (l₁ ++ x :: l₂)) :
    L.next x = l₂.head? := by
  obtain ⟨m, _, _, _, hs⟩ := seg_append.1 h.seg
  cases l₂ with
  | nil => exact hs
  | cons y ys => exact hs.1

theorem Represents.prev_eq {l₁ l₂ : List ι} (h : L.Represents (l₁ ++ x :: l₂)) :
    L.prev x = l₁.getLast? := by
  obtain ⟨m, _, _, hp, _⟩ := seg_append.1 h.seg
  rw [hp, Option.or_none]

/-- `prev` is the inverse of `next` on the list. -/
theorem Represents.prev_next {l : List ι} (h : L.Represents l) (hx : x ∈ l)
    (hn : L.next x = some y) : y ∈ l ∧ L.prev y = some x := by
  obtain ⟨l₁, l₂, rfl⟩ := List.append_of_mem hx
  have hl := h.next_eq
  cases l₂ with
  | nil => rw [hl] at hn; cases hn
  | cons z zs =>
    rw [hl] at hn
    cases hn
    refine ⟨by simp, ?_⟩
    have h' : L.Represents ((l₁ ++ [x]) ++ y :: zs) := by simpa using h
    rw [h'.prev_eq]
    simp

/-- `next` is the inverse of `prev` on the list. -/
theorem Represents.next_prev {l : List ι} (h : L.Represents l) (hy : y ∈ l)
    (hp : L.prev y = some x) : x ∈ l ∧ L.next x = some y := by
  obtain ⟨l₁, l₂, rfl⟩ := List.append_of_mem hy
  have hl := h.prev_eq
  rw [hp] at hl
  obtain ⟨k, rfl⟩ := List.getLast?_eq_some_iff.1 hl.symm
  have h' : L.Represents (k ++ x :: (y :: l₂)) := by simpa using h
  have hx : x ∈ k ++ [x] ++ y :: l₂ := by simp
  exact ⟨hx, h'.next_eq⟩

/-- A node is not its own predecessor. -/
theorem Represents.prev_ne {l : List ι} (h : L.Represents l) (hx : x ∈ l) :
    L.prev x ≠ some x := by
  obtain ⟨l₁, l₂, rfl⟩ := List.append_of_mem hx
  intro he
  rw [h.prev_eq] at he
  exact (List.nodup_append.1 h.nodup).2.2 x (List.mem_of_getLast? he) x List.mem_cons_self rfl

/-- Following the links from `h` on visits the nodes of a list in turn, and then ends. -/
def Visits (L : Links ι) : Option ι → List ι → Prop
  | h, [] => h = none
  | h, x :: xs => h = some x ∧ L.Visits (L.next x) xs

theorem Seg.visits {l : List ι} (h : L.Seg p x l none) : L.Visits x l := by
  induction l generalizing p x with
  | nil => exact h
  | cons y ys ih =>
    obtain ⟨hx, _, hs⟩ := h
    exact ⟨hx, ih hs⟩

/-- What a walk along the links comes by. -/
inductive Reaches (L : Links ι) : ι → Prop
  | head : L.head = some x → L.Reaches x
  | next : L.Reaches y → L.next y = some x → L.Reaches x

variable [DecidableEq ι]

/-- Insertion at the head. -/
def pushFront (L : Links ι) (x : ι) : Links ι :=
  let prev := Function.update L.prev x none
  { next := Function.update L.next x L.head
    prev := match L.head with
      | some h => Function.update prev h (some x)
      | none => prev
    head := some x }

theorem Represents.pushFront {l : List ι} (h : L.Represents l) (hx : x ∉ l) :
    (L.pushFront x).Represents (x :: l) := by
  refine ⟨?_, List.nodup_cons.2 ⟨hx, h.nodup⟩⟩
  have hne {y : ι} (hy : y ∈ l) : y ≠ x := fun he => hx (he ▸ hy)
  cases l with
  | nil =>
    have hh := h.head_eq
    simp only [List.head?_nil] at hh
    refine ⟨rfl, ?_, ?_⟩ <;> simp [Links.pushFront, hh, Seg]
  | cons y ys =>
    have hh := h.head_eq
    simp only [List.head?_cons] at hh
    have hyx := hne List.mem_cons_self
    have hy : y ∉ ys := (List.nodup_cons.1 h.nodup).1
    obtain ⟨_, hprev, hs⟩ := h.seg
    refine ⟨rfl, ?_, ?_, ?_, ?_⟩
    · simp [Links.pushFront, hh, hyx.symm]
    · simp [Links.pushFront, hh]
    · simp [Links.pushFront, hh]
    · have hnext : (L.pushFront x).next y = L.next y := by simp [Links.pushFront, hyx]
      rw [hnext]
      apply hs.frame
      · intro z hz
        have hzx := hne (List.mem_cons_of_mem _ hz)
        simp [Links.pushFront, hzx]
      · intro z hz
        have hzx := hne (List.mem_cons_of_mem _ hz)
        have hzy : z ≠ y := fun he => hy (he ▸ hz)
        simp [Links.pushFront, hh, hzx, hzy]

/-- The predecessor of a node, or the head, is pointed past it. -/
def bypassNext (L : Links ι) (x : ι) : Links ι :=
  match L.prev x with
  | some p => { L with next := Function.update L.next p (L.next x) }
  | none => { L with head := L.next x }

/-- The successor of a node is pointed back past it. -/
def bypassPrev (L : Links ι) (x : ι) : Links ι :=
  match L.next x with
  | some n => { L with prev := Function.update L.prev n (L.prev x) }
  | none => L

/-- The links of a node are cleared. -/
def clear (L : Links ι) (x : ι) : Links ι :=
  { L with next := Function.update L.next x none, prev := Function.update L.prev x none }

/-- Removal of a node. -/
def unlink (L : Links ι) (x : ι) : Links ι := ((L.bypassNext x).bypassPrev x).clear x

theorem bypassNext_prev (L : Links ι) (x : ι) : (L.bypassNext x).prev = L.prev := by
  unfold bypassNext
  cases L.prev x <;> rfl

theorem bypassNext_head (L : Links ι) (x : ι) :
    (L.bypassNext x).head = if L.prev x = none then L.next x else L.head := by
  unfold bypassNext
  cases L.prev x <;> rfl

theorem bypassNext_next (L : Links ι) (x y : ι) :
    (L.bypassNext x).next y = if L.prev x = some y then L.next x else L.next y := by
  unfold bypassNext
  cases L.prev x with
  | none => rfl
  | some p => simp [Function.update_apply, eq_comm]

theorem bypassPrev_next (L : Links ι) (x : ι) : (L.bypassPrev x).next = L.next := by
  unfold bypassPrev
  cases L.next x <;> rfl

theorem bypassPrev_head (L : Links ι) (x : ι) : (L.bypassPrev x).head = L.head := by
  unfold bypassPrev
  cases L.next x <;> rfl

theorem bypassPrev_prev (L : Links ι) (x y : ι) :
    (L.bypassPrev x).prev y = if L.next x = some y then L.prev x else L.prev y := by
  unfold bypassPrev
  cases L.next x with
  | none => rfl
  | some p => simp [Function.update_apply, eq_comm]

theorem unlink_head (L : Links ι) (x : ι) :
    (L.unlink x).head = if L.prev x = none then L.next x else L.head :=
  (bypassPrev_head _ x).trans (bypassNext_head L x)

theorem unlink_next (L : Links ι) (x y : ι) : (L.unlink x).next y =
    if y = x then none else if L.prev x = some y then L.next x else L.next y := by
  simp only [unlink, clear, Function.update_apply, bypassPrev_next, bypassNext_next]

/-- Taking out a node of a closed set does not lead out of the set. -/
theorem next_of_unlink {R : ι → Prop} (hR : ∀ y z, R y → L.next y = some z → R z) (hx : R x)
    (hy : R y) (h : (L.unlink x).next y = some z) : R z := by
  rw [unlink_next] at h
  split at h
  · cases h
  · split at h
    · exact hR x z hx h
    · exact hR y z hy h

theorem unlink_prev (hp : L.prev x ≠ some x) (y : ι) : (L.unlink x).prev y =
    if y = x then none else if L.next x = some y then L.prev x else L.prev y := by
  simp only [unlink, clear, Function.update_apply, bypassPrev_prev, bypassNext_prev,
    bypassNext_next, if_neg hp]

omit [DecidableEq ι] in
/-- The last node of a segment can be pointed elsewhere. -/
theorem Seg.retarget {l : List ι} (h : L.Seg p x (l ++ [a]) q)
    (hn : ∀ y ∈ l, L'.next y = L.next y) (hp : ∀ y ∈ l, L'.prev y = L.prev y)
    (ha : L'.prev a = L.prev a) (hq : L'.next a = q') : L'.Seg p x (l ++ [a]) q' := by
  obtain ⟨m, h₁, hm, hprev, _⟩ := seg_append.1 h
  exact seg_append.2 ⟨m, h₁.frame hn hp, hm, ha.trans hprev, hq⟩

theorem unlink_next_of_ne (hyx : y ≠ x) (hp : L.prev x ≠ some y) :
    (L.unlink x).next y = L.next y := by
  rw [unlink_next, if_neg hyx, if_neg hp]

theorem unlink_prev_of_ne (hx : L.prev x ≠ some x) (hyx : y ≠ x) (hn : L.next x ≠ some y) :
    (L.unlink x).prev y = L.prev y := by
  rw [unlink_prev hx, if_neg hyx, if_neg hn]

/-- Removal of a node changes nothing outside the list. -/
theorem Represents.unlink_outside {l : List ι} (h : L.Represents l) (hx : x ∈ l) (hy : y ∉ l) :
    (L.unlink x).next y = L.next y ∧ (L.unlink x).prev y = L.prev y := by
  have hyx : y ≠ x := fun he => hy (he ▸ hx)
  constructor
  · exact unlink_next_of_ne hyx fun he => hy (h.next_prev hx he).1
  · exact unlink_prev_of_ne (h.prev_ne hx) hyx fun he => hy (h.prev_next hx he).1

/-- The nodes before a removed one hang together, and the last of them points past it. -/
theorem Represents.unlink_before {l₁ l₂ : List ι} (h : L.Represents (l₁ ++ x :: l₂)) :
    (L.unlink x).Seg none (L.unlink x).head l₁ (L.next x) := by
  obtain ⟨hnd₁, _, hdisj⟩ := List.nodup_append.1 h.nodup
  obtain ⟨m, h₁, _⟩ := seg_append.1 h.seg
  have hne {y : ι} (hy : y ∈ l₁) : y ≠ x := hdisj y hy x List.mem_cons_self
  have hprev : ∀ y ∈ l₁, (L.unlink x).prev y = L.prev y := by
    intro y hy
    apply unlink_prev_of_ne (h.prev_ne (by simp)) (hne hy)
    intro he
    rw [h.next_eq] at he
    exact hdisj y hy y (List.mem_cons_of_mem _ (List.mem_of_head? he)) rfl
  rcases List.eq_nil_or_concat l₁ with rfl | ⟨k, a, rfl⟩
  · have hhead : (L.unlink x).head = L.next x := by rw [unlink_head, h.prev_eq]; rfl
    exact hhead
  · rw [List.concat_eq_append] at *
    have hlast : L.prev x = some a := by rw [h.prev_eq]; simp
    have hhead : (L.unlink x).head = L.head := by rw [unlink_head, hlast]; rfl
    have ha : a ∉ k := fun ha =>
      (List.nodup_append.1 hnd₁).2.2 a ha a (List.mem_singleton_self a) rfl
    rw [hhead]
    apply h₁.retarget ?_ (fun y hy => hprev y (by simp [hy])) (hprev a (by simp)) ?_
    · intro y hy
      apply unlink_next_of_ne (hne (by simp [hy]))
      rw [hlast]
      exact fun he => ha (Option.some.inj he ▸ hy)
    · rw [unlink_next, if_neg (hne (by simp)), if_pos hlast]

/-- The nodes behind a removed one hang together, and the first of them points back past it. -/
theorem Represents.unlink_after {l₁ l₂ : List ι} (h : L.Represents (l₁ ++ x :: l₂)) :
    (L.unlink x).Seg l₁.getLast? (L.next x) l₂ none := by
  obtain ⟨_, hnd₂, hdisj⟩ := List.nodup_append.1 h.nodup
  obtain ⟨m, _, _, _, h₂⟩ := seg_append.1 h.seg
  have hx : L.prev x ≠ some x := h.prev_ne (by simp)
  have hne {y : ι} (hy : y ∈ l₂) : y ≠ x := fun he => (List.nodup_cons.1 hnd₂).1 (he ▸ hy)
  have hnext : ∀ y ∈ l₂, (L.unlink x).next y = L.next y := by
    intro y hy
    apply unlink_next_of_ne (hne hy)
    intro he
    rw [h.prev_eq] at he
    exact hdisj y (List.mem_of_getLast? he) y (List.mem_cons_of_mem _ hy) rfl
  cases l₂ with
  | nil => exact h.next_eq
  | cons b k =>
    obtain ⟨hb, _, hs⟩ := h₂
    have hbk : b ∉ k := (List.nodup_cons.1 (List.nodup_cons.1 hnd₂).2).1
    refine ⟨hb, ?_, ?_⟩
    · rw [unlink_prev hx, if_neg (hne List.mem_cons_self), if_pos hb, h.prev_eq]
    · rw [hnext b List.mem_cons_self]
      apply hs.frame (fun y hy => hnext y (List.mem_cons_of_mem _ hy))
      intro y hy
      apply unlink_prev_of_ne hx (hne (List.mem_cons_of_mem _ hy))
      rw [hb]
      exact fun he => hbk (Option.some.inj he ▸ hy)

theorem Represents.unlink {l₁ l₂ : List ι} (h : L.Represents (l₁ ++ x :: l₂)) :
    (L.unlink x).Represents (l₁ ++ l₂) := by
  constructor
  · apply seg_append.2
    refine ⟨L.next x, h.unlink_before, ?_⟩
    rw [Option.or_none]
    exact h.unlink_after
  · exact h.nodup.sublist (by simp)

theorem Represents.unlink_erase {l : List ι} (h : L.Represents l) (hx : x ∈ l) :
    (L.unlink x).Represents (l.erase x) := by
  obtain ⟨l₁, l₂, rfl⟩ := List.append_of_mem hx
  have hx₁ : x ∉ l₁ := fun hx =>
    (List.nodup_append.1 h.nodup).2.2 x hx x List.mem_cons_self rfl
  rw [List.erase_append_right _ hx₁, List.erase_cons_head]
  exact h.unlink

end Links

end LinkedList
