import Mathlib

namespace Interest
set_option autoImplicit true

/-- A request to register for a kind of event on a descriptor, or to delete the registration. -/
structure Op (ι φ : Type) where
  ident : ι
  filter : φ
  delete : Bool

/-- What an event queue knows: the open descriptors and the registrations on them. -/
structure Table (ι φ : Type) where
  isOpen : ι → Bool
  registered : ι → φ → Bool

namespace Table
variable {ι φ : Type} [DecidableEq ι] [DecidableEq φ] {t t' : Table ι φ} {d : ι}
  {op : Op ι φ} {ops : List (Op ι φ)}

/-- A descriptor is opened, with nothing registered on it. -/
def open_ (t : Table ι φ) (d : ι) : Table ι φ :=
  ⟨Function.update t.isOpen d true, Function.update t.registered d fun _ => false⟩

/-- A descriptor is closed, which drops its registrations. -/
def close (t : Table ι φ) (d : ι) : Table ι φ :=
  ⟨Function.update t.isOpen d false, Function.update t.registered d fun _ => false⟩

def setRegistered (t : Table ι φ) (d : ι) (f : φ) (b : Bool) : Table ι φ :=
  { t with registered := Function.update t.registered d (Function.update (t.registered d) f b) }

/-- A request fails on a closed descriptor, and when it deletes what is not registered. -/
def fails (t : Table ι φ) (op : Op ι φ) : Bool :=
  !t.isOpen op.ident || (op.delete && !t.registered op.ident op.filter)

def submit (t : Table ι φ) (op : Op ι φ) : Table ι φ :=
  if t.fails op then t else t.setRegistered op.ident op.filter (!op.delete)

def submitAll (t : Table ι φ) (ops : List (Op ι φ)) : Table ι φ := ops.foldl submit t

/-- How many requests of a list fail when it is submitted. -/
def failures (t : Table ι φ) : List (Op ι φ) → Nat
  | [] => 0
  | op :: ops => (if t.fails op then 1 else 0) + (t.submit op).failures ops

theorem submit_isOpen (t : Table ι φ) (op : Op ι φ) : (t.submit op).isOpen = t.isOpen := by
  unfold submit
  split <;> rfl

theorem submitAll_isOpen (t : Table ι φ) (ops : List (Op ι φ)) :
    (t.submitAll ops).isOpen = t.isOpen := by
  induction ops generalizing t with
  | nil => rfl
  | cons op ops ih => exact (ih (t.submit op)).trans (submit_isOpen t op)

theorem failures_append (t : Table ι φ) (ops ops' : List (Op ι φ)) :
    t.failures (ops ++ ops') = t.failures ops + (t.submitAll ops).failures ops' := by
  induction ops generalizing t with
  | nil => exact (Nat.zero_add _).symm
  | cons op ops ih =>
    rw [List.cons_append, failures, failures, ih, Nat.add_assoc]
    rfl

theorem failures_le_length (t : Table ι φ) (ops : List (Op ι φ)) :
    t.failures ops ≤ ops.length := by
  induction ops generalizing t with
  | nil => exact Nat.le_refl _
  | cons op ops ih =>
    have hle := ih (t.submit op)
    rw [failures, List.length_cons]
    split <;> omega

/-- Every request on a closed descriptor fails. -/
theorem failures_of_closed (h : ∀ op ∈ ops, t.isOpen op.ident = false) :
    t.failures ops = ops.length := by
  induction ops generalizing t with
  | nil => rfl
  | cons op ops ih =>
    have hop : t.fails op = true := by simp [fails, h op List.mem_cons_self]
    have hsub : t.submit op = t := if_pos hop
    rw [failures, if_pos hop, hsub, ih (fun op' hm => h op' (List.mem_cons_of_mem _ hm)),
      List.length_cons, Nat.add_comm]

omit [DecidableEq ι] [DecidableEq φ] in
/-- A registration on an open descriptor succeeds. -/
theorem not_fails_add (ho : t.isOpen op.ident = true) (hd : op.delete = false) :
    t.fails op = false := by
  simp [fails, ho, hd]

/-- Two tables that differ on one descriptor only. -/
def AgreeOff (d : ι) (t t' : Table ι φ) : Prop :=
  ∀ e, e ≠ d → t.isOpen e = t'.isOpen e ∧ t.registered e = t'.registered e

omit [DecidableEq ι] [DecidableEq φ] in
theorem AgreeOff.fails (h : AgreeOff d t t') (hop : op.ident ≠ d) : t.fails op = t'.fails op := by
  obtain ⟨ho, hr⟩ := h op.ident hop
  rw [Table.fails, Table.fails, ho, hr]

theorem AgreeOff.submit (h : AgreeOff d t t') (op : Op ι φ) :
    AgreeOff d (t.submit op) (t'.submit op) := by
  intro e he
  rw [submit_isOpen, submit_isOpen]
  refine ⟨(h e he).1, ?_⟩
  have hreg {t : Table ι φ} (hne : e ≠ op.ident) :
      (t.submit op).registered e = t.registered e := by
    unfold Table.submit
    split
    · rfl
    · exact Function.update_of_ne hne ..
  by_cases hop : e = op.ident
  · have hf : t.fails op = t'.fails op := h.fails (hop ▸ he)
    unfold Table.submit
    rw [hf]
    split
    · exact (h e he).2
    · simp only [setRegistered, hop, Function.update_self]
      rw [(h op.ident (hop ▸ he)).2]
  · rw [hreg hop, hreg hop]
    exact (h e he).2

/-- The requests of a list on one descriptor. -/
def countOn (d : ι) (ops : List (Op ι φ)) : Nat := ops.countP fun op => op.ident = d

/-- Whatever happens to a descriptor, no more requests fail than those on it. -/
theorem AgreeOff.failures_le (h : AgreeOff d t t') (ops : List (Op ι φ)) :
    t'.failures ops ≤ t.failures ops + countOn d ops := by
  induction ops generalizing t t' with
  | nil => exact Nat.zero_le _
  | cons op ops ih =>
    have hle := ih (h.submit op)
    rw [failures, failures, countOn, List.countP_cons]
    rw [countOn] at hle
    by_cases hop : op.ident = d
    · simp only [hop, decide_true, if_true]
      split <;> omega
    · simp only [hop, decide_false, Bool.false_eq_true, if_false, h.fails hop]
      omega

/-- Where a descriptor was closed, no other request fails after any change of it. -/
theorem AgreeOff.failures_le_of_closed (h : AgreeOff d t t') (hd : t.isOpen d = false)
    (ops : List (Op ι φ)) :
    t'.failures ops ≤ t.failures ops := by
  induction ops generalizing t t' with
  | nil => exact Nat.le_refl _
  | cons op ops ih =>
    have hle := ih (h.submit op) (by rwa [submit_isOpen])
    rw [failures, failures]
    by_cases hop : op.ident = d
    · have hf : t.fails op = true := by simp [Table.fails, hop, hd]
      rw [hf]
      simp only [if_true]
      split <;> omega
    · rw [h.fails hop]
      omega

omit [DecidableEq φ] in
theorem agreeOff_open (t : Table ι φ) (d : ι) : AgreeOff d t (t.open_ d) :=
  fun _ he => ⟨(Function.update_of_ne he ..).symm, (Function.update_of_ne he ..).symm⟩

omit [DecidableEq φ] in
theorem agreeOff_close (t : Table ι φ) (d : ι) : AgreeOff d t (t.close d) :=
  fun _ he => ⟨(Function.update_of_ne he ..).symm, (Function.update_of_ne he ..).symm⟩

omit [DecidableEq φ] in
theorem close_open (t : Table ι φ) (d : ι) : (t.open_ d).close d = t.close d := by
  simp [open_, close]

omit [DecidableEq φ] in
theorem open_isOpen (t : Table ι φ) (d e : ι) :
    (t.open_ d).isOpen e = if e = d then true else t.isOpen e := Function.update_apply ..

omit [DecidableEq φ] in
theorem close_isOpen (t : Table ι φ) (d e : ι) :
    (t.close d).isOpen e = if e = d then false else t.isOpen e := Function.update_apply ..

end Table

end Interest
