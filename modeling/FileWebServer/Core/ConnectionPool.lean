import Mathlib

namespace FileWebServer
set_option autoImplicit true

/-- Capacity of the pool, `MAX_CONNECTIONS`. -/
def maxConnections : Nat := 16384

/-- Decrement of a `size_t`. -/
def sizeDec (n : Nat) : Nat := (n + (2 ^ 64 - 1)) % 2 ^ 64

/-- The pool: an array of objects and the stack of free indices, whose part from `freeHead`
on is in use. -/
structure ConnectionPool (α : Type) where
  connections : Nat → α
  freeList : Nat → Nat
  freeHead : Nat
  activeCount : Nat

namespace ConnectionPool

def create (default : α) : ConnectionPool α := ⟨fun _ => default, id, 0, 0⟩

def acquire (p : ConnectionPool α) : ConnectionPool α × Option Nat :=
  if maxConnections ≤ p.freeHead then (p, none)
  else
    ({ p with freeHead := p.freeHead + 1, activeCount := p.activeCount + 1 },
      some (p.freeList p.freeHead))

def release (p : ConnectionPool α) (idx : Nat) : ConnectionPool α :=
  if maxConnections ≤ idx then p
  else
    { p with
      freeHead := sizeDec p.freeHead
      freeList := Function.update p.freeList (sizeDec p.freeHead) idx
      activeCount := sizeDec p.activeCount }

/-- Writing through a pointer into the pool. -/
def set (p : ConnectionPool α) (idx : Nat) (a : α) : ConnectionPool α :=
  { p with connections := Function.update p.connections idx a }

@[simp] theorem set_connections (p : ConnectionPool α) (i : Nat) (a : α) :
    (p.set i a).connections = Function.update p.connections i a := rfl

@[simp] theorem release_connections (p : ConnectionPool α) (i : Nat) :
    (p.release i).connections = p.connections := by
  unfold release
  split <;> rfl

/-- Slot `i` is handed out: its index is not in the free part of the stack. -/
def InUse (p : ConnectionPool α) (i : Nat) : Prop :=
  i < maxConnections ∧ ∀ k, p.freeHead ≤ k → k < maxConnections → p.freeList k ≠ i

/-- The free part of the stack holds distinct indices of slots, and the count is right. -/
structure Wf (p : ConnectionPool α) : Prop where
  head_le : p.freeHead ≤ maxConnections
  free_lt : ∀ k, p.freeHead ≤ k → k < maxConnections → p.freeList k < maxConnections
  free_inj : ∀ j k, p.freeHead ≤ j → j < maxConnections → p.freeHead ≤ k → k < maxConnections →
    p.freeList j = p.freeList k → j = k
  active : p.activeCount = p.freeHead

/-- Two pools that hand out the same slots. -/
structure SameSlots (p q : ConnectionPool α) : Prop where
  head : p.freeHead = q.freeHead
  list : p.freeList = q.freeList
  active : p.activeCount = q.activeCount

theorem sizeDec_of_pos (h : 0 < n) (hn : n ≤ maxConnections) : sizeDec n = n - 1 := by
  unfold sizeDec
  simp only [maxConnections] at hn
  omega

theorem create_wf (a : α) : (create a).Wf :=
  ⟨Nat.zero_le _, fun _ _ hk => hk, fun _ _ _ _ _ _ h => h, rfl⟩

theorem not_inUse_create (a : α) (i : Nat) : ¬ (create a).InUse i :=
  fun h => h.2 i (Nat.zero_le _) h.1 rfl

@[simp] theorem set_inUse (p : ConnectionPool α) (i j : Nat) (a : α) :
    (p.set i a).InUse j ↔ p.InUse j := Iff.rfl

section
variable {p : ConnectionPool α}

theorem Wf.set (h : p.Wf) (i : Nat) (a : α) : (p.set i a).Wf := ⟨h.1, h.2, h.3, h.4⟩

theorem SameSlots.inUse {q : ConnectionPool α} (h : SameSlots p q) : p.InUse i ↔ q.InUse i := by
  rw [InUse, InUse, h.head, h.list]

theorem SameSlots.wf {q : ConnectionPool α} (h : SameSlots p q) (hq : q.Wf) : p.Wf := by
  obtain ⟨hh, hl, ha⟩ := h
  refine ⟨?_, ?_, ?_, ?_⟩
  · rw [hh]
    exact hq.head_le
  · rw [hh, hl]
    exact hq.free_lt
  · rw [hh, hl]
    exact hq.free_inj
  · rw [hh, ha]
    exact hq.active

theorem SameSlots.release {q : ConnectionPool α} (h : SameSlots p q) (i : Nat) :
    SameSlots (p.release i) (q.release i) := by
  obtain ⟨hh, hl, ha⟩ := h
  unfold ConnectionPool.release
  split
  · exact ⟨hh, hl, ha⟩
  · constructor <;> simp [hh, hl, ha]

theorem acquire_eq (h : p.freeHead < maxConnections) : p.acquire =
    ({ p with freeHead := p.freeHead + 1, activeCount := p.activeCount + 1 },
      some (p.freeList p.freeHead)) :=
  if_neg (Nat.not_le_of_lt h)

theorem acquire_full (h : maxConnections ≤ p.freeHead) : p.acquire = (p, none) := if_pos h

/-- What a successful `acquire` does. -/
theorem acquire_some (h : p.acquire = (p', some i)) :
    p.freeHead < maxConnections ∧ i = p.freeList p.freeHead ∧
      p' = { p with freeHead := p.freeHead + 1, activeCount := p.activeCount + 1 } := by
  by_cases hlt : p.freeHead < maxConnections
  · rw [acquire_eq hlt] at h
    cases h
    exact ⟨hlt, rfl, rfl⟩
  · rw [acquire_full (Nat.le_of_not_lt hlt)] at h
    cases h

theorem acquire_wf (hp : p.Wf) (h : p.acquire = (p', some i)) : p'.Wf := by
  obtain ⟨hlt, rfl, rfl⟩ := acquire_some h
  refine ⟨hlt, ?_, ?_, congrArg (· + 1) hp.active⟩
  · intro k hk hlt
    exact hp.free_lt k (Nat.le_of_succ_le hk) hlt
  · intro j k hj hjlt hk hklt he
    exact hp.free_inj j k (Nat.le_of_succ_le hj) hjlt (Nat.le_of_succ_le hk) hklt he

theorem acquire_fresh (h : p.acquire = (p', some i)) : ¬ p.InUse i := by
  obtain ⟨hlt, rfl, rfl⟩ := acquire_some h
  exact fun hi => hi.2 p.freeHead (Nat.le_refl _) hlt rfl

theorem acquire_inUse (hp : p.Wf) (h : p.acquire = (p', some i)) (j : Nat) :
    p'.InUse j ↔ j = i ∨ p.InUse j := by
  obtain ⟨hlt, rfl, rfl⟩ := acquire_some h
  constructor
  · intro hj
    by_cases hji : j = p.freeList p.freeHead
    · exact .inl hji
    · refine .inr ⟨hj.1, ?_⟩
      intro k hk hklt
      rcases Nat.eq_or_lt_of_le hk with rfl | hk
      · exact Ne.symm hji
      · exact hj.2 k hk hklt
  · rintro (rfl | hj)
    · refine ⟨hp.free_lt _ (Nat.le_refl _) hlt, ?_⟩
      intro k hk hklt he
      have hkh := hp.free_inj _ _ (Nat.le_of_succ_le hk) hklt (Nat.le_refl _) hlt he
      simp only at hk
      omega
    · exact ⟨hj.1, fun k hk => hj.2 k (Nat.le_of_succ_le hk)⟩

/-- The indices of the free part. -/
def freePart (p : ConnectionPool α) : Finset Nat :=
  (Finset.Ico p.freeHead maxConnections).image p.freeList

theorem mem_freePart : i ∈ p.freePart ↔
    ∃ k, p.freeHead ≤ k ∧ k < maxConnections ∧ p.freeList k = i := by
  simp [freePart, and_assoc]

theorem Wf.card_freePart (hp : p.Wf) : p.freePart.card = maxConnections - p.freeHead := by
  rw [freePart, Finset.card_image_of_injOn, Nat.card_Ico]
  intro j hj k hk he
  simp only [Finset.coe_Ico, Set.mem_Ico] at hj hk
  exact hp.free_inj j k hj.1 hj.2 hk.1 hk.2 he

theorem inUse_iff : p.InUse i ↔ i ∈ Finset.range maxConnections \ p.freePart := by
  simp only [InUse, Finset.mem_sdiff, Finset.mem_range, mem_freePart, not_exists, not_and]

theorem Wf.freePart_subset (hp : p.Wf) : p.freePart ⊆ Finset.range maxConnections := by
  intro i hi
  obtain ⟨k, hk, hlt, rfl⟩ := mem_freePart.1 hi
  exact Finset.mem_range.2 (hp.free_lt k hk hlt)

/-- As many slots are in use as the stack has indices taken off. -/
theorem Wf.card_inUse (hp : p.Wf) :
    (Finset.range maxConnections \ p.freePart).card = p.freeHead := by
  rw [Finset.card_sdiff_of_subset hp.freePart_subset, Finset.card_range, hp.card_freePart]
  have hle := hp.head_le
  omega

theorem Wf.head_pos (hp : p.Wf) (hi : p.InUse i) : 0 < p.freeHead := by
  rw [← hp.card_inUse]
  exact Finset.card_pos.2 ⟨i, inUse_iff.1 hi⟩

theorem release_eq (hp : p.Wf) (hi : p.InUse i) : p.release i =
    { p with
      freeHead := p.freeHead - 1
      freeList := Function.update p.freeList (p.freeHead - 1) i
      activeCount := p.activeCount - 1 } := by
  have hdec := sizeDec_of_pos (hp.head_pos hi) hp.head_le
  rw [release, if_neg (Nat.not_le_of_lt hi.1), hp.active, hdec]

theorem release_head (hp : p.Wf) (hi : p.InUse i) : (p.release i).freeHead = p.freeHead - 1 := by
  rw [release_eq hp hi]

theorem release_freeList (hp : p.Wf) (hi : p.InUse i) :
    (p.release i).freeList = Function.update p.freeList (p.freeHead - 1) i := by
  rw [release_eq hp hi]

theorem release_inUse (hp : p.Wf) (hi : p.InUse i) (j : Nat) :
    (p.release i).InUse j ↔ p.InUse j ∧ j ≠ i := by
  have hpos := hp.head_pos hi
  have hle := hp.head_le
  rw [InUse, release_head hp hi, release_freeList hp hi]
  constructor
  · intro hj
    have hne := hj.2 (p.freeHead - 1) (Nat.le_refl _) (by omega)
    rw [Function.update_self] at hne
    refine ⟨⟨hj.1, fun k hk hlt => ?_⟩, hne.symm⟩
    have hk' := hj.2 k (by omega) hlt
    rwa [Function.update_of_ne (by omega)] at hk'
  · rintro ⟨hj, hji⟩
    refine ⟨hj.1, fun k hk hlt => ?_⟩
    by_cases hkh : k = p.freeHead - 1
    · rw [hkh, Function.update_self]
      exact hji.symm
    · rw [Function.update_of_ne hkh]
      exact hj.2 k (by omega) hlt

theorem release_wf (hp : p.Wf) (hi : p.InUse i) : (p.release i).Wf := by
  have hpos := hp.head_pos hi
  have hle := hp.head_le
  have hhead := release_head hp hi
  have hlist := release_freeList hp hi
  constructor
  · rw [hhead]
    omega
  · rw [hhead, hlist]
    intro k hk hlt
    by_cases hkh : k = p.freeHead - 1
    · rw [hkh, Function.update_self]
      exact hi.1
    · rw [Function.update_of_ne hkh]
      exact hp.free_lt k (by omega) hlt
  · rw [hhead, hlist]
    intro j k hj hjlt hk hklt he
    by_cases hjh : j = p.freeHead - 1
    · by_cases hkh : k = p.freeHead - 1
      · exact hjh.trans hkh.symm
      · rw [hjh, Function.update_self, Function.update_of_ne hkh] at he
        exact (hi.2 k (by omega) hklt he.symm).elim
    · by_cases hkh : k = p.freeHead - 1
      · rw [hkh, Function.update_self, Function.update_of_ne hjh] at he
        exact (hi.2 j (by omega) hjlt he).elim
      · rw [Function.update_of_ne hjh, Function.update_of_ne hkh] at he
        exact hp.free_inj j k (by omega) hjlt (by omega) hklt he
  · rw [release_eq hp hi]
    exact congrArg (· - 1) hp.active

end

end ConnectionPool

end FileWebServer
