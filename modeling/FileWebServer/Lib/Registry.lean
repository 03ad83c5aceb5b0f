import FileWebServer.Lib.Interest

namespace Registry
open Interest (Op)
set_option autoImplicit true

/-- A request to register for a kind of event on a descriptor with some data, or, with none, to
delete the registration. -/
structure Request (ι φ υ : Type) where
  ident : ι
  filter : φ
  data : Option υ

def Request.op (r : Request ι φ υ) : Op ι φ := ⟨r.ident, r.filter, r.data.isNone⟩

/-- The open descriptors, and the data of the registrations on them. Nothing is registered on a
descriptor that is closed. -/
structure Table (ι φ υ : Type) where
  isOpen : ι → Bool
  data : ι → φ → Option υ
  closed : ∀ d, isOpen d = false → data d = fun _ => none

namespace Table
variable {ι φ υ : Type} [DecidableEq ι] [DecidableEq φ] {t : Table ι φ υ} {d e : ι}
  {g : φ → Option υ} {r : Request ι φ υ} {rs rs' : List (Request ι φ υ)}

def empty : Table ι φ υ := ⟨fun _ => false, fun _ _ => none, fun _ _ => rfl⟩

/-- A descriptor is opened or closed, with nothing registered on it. -/
def reset (t : Table ι φ υ) (d : ι) (b : Bool) : Table ι φ υ where
  isOpen := Function.update t.isOpen d b
  data := Function.update t.data d fun _ => none
  closed := by
    intro e he
    by_cases hed : e = d
    · rw [hed, Function.update_self]
    · rw [Function.update_of_ne hed] at he ⊢
      exact t.closed e he

/-- A request on a closed descriptor fails, and one that deletes what is not registered changes
nothing. A registration takes the new data. -/
def submit (t : Table ι φ υ) (r : Request ι φ υ) : Table ι φ υ where
  isOpen := t.isOpen
  data := if t.isOpen r.ident then
      Function.update t.data r.ident (Function.update (t.data r.ident) r.filter r.data)
    else t.data
  closed := by
    intro e he
    split
    · next ho =>
      have hne : e ≠ r.ident := fun h => by simp [← h, he] at ho
      rw [Function.update_of_ne hne]
      exact t.closed e he
    · exact t.closed e he

def submitAll (t : Table ι φ υ) (rs : List (Request ι φ υ)) : Table ι φ υ := rs.foldl submit t

/-- What some requests make of the registrations on one descriptor. -/
def settle (d : ι) : (φ → Option υ) → List (Request ι φ υ) → φ → Option υ
  | g, [] => g
  | g, r :: rs => settle d (if r.ident = d then Function.update g r.filter r.data else g) rs

/-- One filter is registered, with the data `u`. -/
def Only (g : φ → Option υ) (f : φ) (u : υ) : Prop := ∀ f', g f' = if f' = f then some u else none

theorem settle_append (d : ι) (g : φ → Option υ) (rs rs' : List (Request ι φ υ)) :
    settle d g (rs ++ rs') = settle d (settle d g rs) rs' := by
  induction rs generalizing g with
  | nil => rfl
  | cons r rs ih => exact ih _

/-- Requests on other descriptors make no difference. -/
theorem settle_of_ne (h : ∀ r ∈ rs, r.ident ≠ d) : settle d g rs = g := by
  induction rs generalizing g with
  | nil => rfl
  | cons r rs ih =>
    rw [settle, if_neg (h r List.mem_cons_self)]
    exact ih fun r' hr' => h r' (List.mem_cons_of_mem _ hr')

theorem submitAll_isOpen (t : Table ι φ υ) (rs : List (Request ι φ υ)) :
    (t.submitAll rs).isOpen = t.isOpen := by
  induction rs generalizing t with
  | nil => rfl
  | cons r rs ih => exact ih (t.submit r)

/-- On an open descriptor the requests are settled in their order. -/
theorem submitAll_data (ho : t.isOpen d = true) (rs : List (Request ι φ υ)) :
    (t.submitAll rs).data d = settle d (t.data d) rs := by
  induction rs generalizing t with
  | nil => rfl
  | cons r rs ih =>
    have hdata : (t.submit r).data d =
        if r.ident = d then Function.update (t.data d) r.filter r.data else t.data d := by
      unfold submit
      by_cases hd : r.ident = d
      · simp [hd, ho]
      · by_cases hr : t.isOpen r.ident = true
        · simp [hd, hr, Function.update_of_ne (Ne.symm hd)]
        · simp [hd, hr]
    rw [settle, ← hdata]
    exact ih ho

omit [DecidableEq φ] in
theorem reset_isOpen (t : Table ι φ υ) (d e : ι) (b : Bool) :
    (t.reset d b).isOpen e = if e = d then b else t.isOpen e := Function.update_apply ..

omit [DecidableEq φ] in
theorem reset_data (t : Table ι φ υ) (b : Bool) (h : e ≠ d) : (t.reset d b).data e = t.data e :=
  Function.update_of_ne h ..

omit [DecidableEq φ] in
theorem reset_data_self (t : Table ι φ υ) (d : ι) (b : Bool) :
    (t.reset d b).data d = fun _ => none := Function.update_self ..

/-- The registrations without their data. -/
def erase (t : Table ι φ υ) : Interest.Table ι φ := ⟨t.isOpen, fun d f => (t.data d f).isSome⟩

omit [DecidableEq φ] in
theorem erase_reset (t : Table ι φ υ) (d : ι) (b : Bool) :
    (t.reset d b).erase =
      ⟨Function.update t.isOpen d b, Function.update t.erase.registered d fun _ => false⟩ := by
  unfold erase
  congr 1
  funext e f
  by_cases hed : e = d
  · rw [hed, reset_data_self, Function.update_self]
    rfl
  · rw [reset_data t b hed, Function.update_of_ne hed]

/-- Submitting a request with its data is submitting it without. -/
theorem erase_submit (t : Table ι φ υ) (r : Request ι φ υ) :
    (t.submit r).erase = t.erase.submit r.op := by
  have hfails : t.erase.fails r.op =
      (!t.isOpen r.ident || (r.data.isNone && !(t.data r.ident r.filter).isSome)) := rfl
  have hset (ho : t.isOpen r.ident = true) :
      (t.submit r).erase = t.erase.setRegistered r.ident r.filter (!r.op.delete) := by
    have hdata : (t.submit r).data =
        Function.update t.data r.ident (Function.update (t.data r.ident) r.filter r.data) :=
      if_pos ho
    unfold erase Interest.Table.setRegistered
    rw [hdata]
    congr 1
    funext e f
    by_cases he : e = r.ident
    · rw [he, Function.update_self, Function.update_self]
      by_cases hf : f = r.filter
      · rw [hf, Function.update_self, Function.update_self]
        cases hd : r.data <;> simp [Request.op, hd]
      · rw [Function.update_of_ne hf, Function.update_of_ne hf]
    · rw [Function.update_of_ne he, Function.update_of_ne he]
  cases ho : t.isOpen r.ident with
  | false =>
    have hdata : (t.submit r).data = t.data := if_neg (by simp [ho])
    rw [Interest.Table.submit, hfails, ho]
    unfold erase
    rw [hdata]
    rfl
  | true =>
    rw [hset ho, Interest.Table.submit, hfails, ho]
    cases hd : r.data with
    | some u => rfl
    | none =>
      cases hr : t.data r.ident r.filter with
      | some u => rfl
      | none =>
        have hold : t.erase.registered r.ident r.filter = false := by simp [erase, hr]
        have hsame : Function.update (t.erase.registered r.ident) r.filter (!r.op.delete) =
            t.erase.registered r.ident := by
          rw [Function.update_eq_self_iff, hold]
          simp [Request.op, hd]
        simp only [Interest.Table.setRegistered, hsame, Function.update_eq_self]
        rfl

theorem erase_submitAll (t : Table ι φ υ) (rs : List (Request ι φ υ)) :
    (t.submitAll rs).erase = t.erase.submitAll (rs.map Request.op) := by
  induction rs generalizing t with
  | nil => rfl
  | cons r rs ih =>
    change ((t.submit r).submitAll rs).erase = _
    rw [ih, erase_submit]
    rfl

end Table

end Registry
