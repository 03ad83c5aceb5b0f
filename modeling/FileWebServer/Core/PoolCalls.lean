import FileWebServer.Core.ConnectionPool
import FileWebServer.Lib.Run

namespace FileWebServer
namespace ConnectionPool
set_option autoImplicit true
variable {p p' : ConnectionPool α}

/-- The free part of the stack, from its top on. -/
def freeIndices (p : ConnectionPool α) : List Nat :=
  (List.range' p.freeHead (maxConnections - p.freeHead)).map p.freeList

theorem mem_freeIndices : i ∈ p.freeIndices ↔
    ∃ k, p.freeHead ≤ k ∧ k < maxConnections ∧ p.freeList k = i := by
  simp only [freeIndices, List.mem_map, List.mem_range'_1]
  constructor
  · rintro ⟨k, ⟨hk, hlt⟩, he⟩
    exact ⟨k, hk, by omega, he⟩
  · rintro ⟨k, hk, hlt, he⟩
    exact ⟨k, ⟨hk, by omega⟩, he⟩

theorem Wf.nodup_freeIndices (hp : p.Wf) : p.freeIndices.Nodup := by
  apply List.Nodup.map_on _ List.nodup_range'
  intro j hj k hk he
  have hj' := List.mem_range'_1.1 hj
  have hk' := List.mem_range'_1.1 hk
  exact hp.free_inj j k hj'.1 (by omega) hk'.1 (by omega) he

/-- The free part lists the slots that are not handed out. -/
theorem Wf.mem_freeIndices_iff (hp : p.Wf) :
    i ∈ p.freeIndices ↔ i < maxConnections ∧ ¬ p.InUse i := by
  rw [mem_freeIndices]
  constructor
  · rintro ⟨k, hk, hlt, rfl⟩
    exact ⟨hp.free_lt k hk hlt, fun hi => hi.2 k hk hlt rfl⟩
  · rintro ⟨hlt, hfree⟩
    by_contra hnone
    exact hfree ⟨hlt, fun k hk hkl he => hnone ⟨k, hk, hkl, he⟩⟩

inductive Call where
  | acquire
  | release (i : Nat)

/-- A pool with the slots that its callers hold: those they were given and have not given back. -/
structure Held (α : Type) where
  pool : ConnectionPool α
  held : List Nat

namespace Held
variable {s : Held α}

def call (s : Held α) : Call → Held α
  | .acquire =>
    match s.pool.acquire with
    | (pool, some i) => ⟨pool, i :: s.held⟩
    | (pool, none) => ⟨pool, s.held⟩
  | .release i => ⟨s.pool.release i, s.held.erase i⟩

/-- Only what is held is given back. -/
def Proper (s : Held α) : Call → Prop
  | .acquire => True
  | .release i => i ∈ s.held

/-- What the pool promises its callers between any two calls. -/
structure Exact (s : Held α) : Prop where
  fresh : ∀ pool i, s.pool.acquire = (pool, some i) → i < maxConnections ∧ i ∉ s.held
  full : s.pool.acquire.2 = none ↔ ∀ i < maxConnections, i ∈ s.held
  nodup : s.held.Nodup
  active : s.pool.activeCount = s.pool.freeHead
  count : s.pool.freeHead = s.held.length
  free : s.pool.freeIndices.Perm ((List.range maxConnections).filter (· ∉ s.held))

/-- The stack agrees with its callers about what is handed out. -/
structure Inv (s : Held α) : Prop where
  wf : s.pool.Wf
  nodup : s.held.Nodup
  mem : ∀ i, i ∈ s.held ↔ s.pool.InUse i

theorem Inv.create (a : α) : Inv ⟨.create a, []⟩ :=
  ⟨create_wf a, List.nodup_nil, fun i => iff_of_false List.not_mem_nil (not_inUse_create a i)⟩

theorem Inv.acquire (h : s.Inv) : (s.call .acquire).Inv := by
  unfold call
  cases ha : s.pool.acquire with
  | mk pool i =>
    cases i with
    | none =>
      have hsame : pool = s.pool := by
        by_cases hlt : s.pool.freeHead < maxConnections
        · rw [acquire_eq hlt] at ha
          cases ha
        · rw [acquire_full (Nat.le_of_not_lt hlt)] at ha
          exact (congrArg Prod.fst ha).symm
      exact ⟨hsame ▸ h.wf, h.nodup, fun i => hsame ▸ h.mem i⟩
    | some i =>
      have hnew : i ∉ s.held := fun hi => acquire_fresh ha ((h.mem i).1 hi)
      refine ⟨acquire_wf h.wf ha, List.nodup_cons.2 ⟨hnew, h.nodup⟩, fun j => ?_⟩
      rw [List.mem_cons, h.mem, acquire_inUse h.wf ha]

theorem Inv.release (h : s.Inv) (hi : i ∈ s.held) : (s.call (.release i)).Inv := by
  have huse := (h.mem i).1 hi
  refine ⟨release_wf h.wf huse, h.nodup.erase i, fun j => ?_⟩
  have hmem := h.nodup.mem_erase_iff (a := j) (b := i)
  rw [call, hmem, h.mem, release_inUse h.wf huse, and_comm]

theorem Inv.call (h : s.Inv) {c : Call} (hc : s.Proper c) : (s.call c).Inv := by
  cases c with
  | acquire => exact h.acquire
  | release i => exact h.release hc

theorem Inv.toFinset_held (h : s.Inv) :
    s.held.toFinset = Finset.range maxConnections \ s.pool.freePart := by
  ext i
  rw [List.mem_toFinset, h.mem, inUse_iff]

theorem Inv.length_held (h : s.Inv) : s.held.length = s.pool.freeHead := by
  rw [← List.toFinset_card_of_nodup h.nodup, h.toFinset_held, h.wf.card_inUse]

theorem Inv.full_iff (h : s.Inv) :
    s.pool.acquire.2 = none ↔ ∀ i < maxConnections, i ∈ s.held := by
  by_cases hlt : s.pool.freeHead < maxConnections
  · rw [acquire_eq hlt]
    refine iff_of_false (Option.some_ne_none _) fun hall => ?_
    have htop := h.wf.free_lt _ (Nat.le_refl _) hlt
    exact ((h.mem _).1 (hall _ htop)).2 _ (Nat.le_refl _) hlt rfl
  · rw [acquire_full (Nat.le_of_not_lt hlt)]
    refine iff_of_true rfl fun i hi => (h.mem i).2 ⟨hi, fun k hk hkl => ?_⟩
    exact (hlt (Nat.lt_of_le_of_lt hk hkl)).elim

theorem Inv.exact (h : s.Inv) : s.Exact := by
  refine ⟨?_, h.full_iff, h.nodup, h.wf.active, h.length_held.symm, ?_⟩
  · intro pool i ha
    obtain ⟨hlt, rfl, _⟩ := acquire_some ha
    exact ⟨h.wf.free_lt _ (Nat.le_refl _) hlt, fun hi => acquire_fresh ha ((h.mem _).1 hi)⟩
  · rw [List.perm_ext_iff_of_nodup h.wf.nodup_freeIndices (List.nodup_range.filter _)]
    intro i
    rw [h.wf.mem_freeIndices_iff, List.mem_filter, List.mem_range, decide_eq_true_eq, h.mem]

/-- In every run of calls that give back only what is held, no slot is handed out twice or
lost. -/
theorem pool_exact (a : α) (calls : List Call)
    (h : Run.Along call Proper ⟨.create a, []⟩ calls) :
    Run.Throughout call Exact ⟨.create a, []⟩ calls := by
  have hinv : Run.Throughout call Inv ⟨.create a, []⟩ calls :=
    Run.throughout_of_along (fun s c hs hc => hs.call hc) (Inv.create a) h
  exact hinv.mono fun s hs => hs.exact

/-- Two slots are given back in the order in which they were acquired, and one is taken again. -/
theorem pool_exact_twice :
    Run.Throughout call Exact ⟨.create (0 : Nat), []⟩
      [.acquire, .acquire, .release 0, .release 1, .acquire] :=
  pool_exact 0 _ ⟨trivial, trivial, (by decide : 0 ∈ [1, 0]), (by decide : 1 ∈ [1]), trivial,
    trivial⟩

end Held

end ConnectionPool

end FileWebServer
