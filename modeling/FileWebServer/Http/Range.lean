import FileWebServer.Http.Request

namespace FileWebServer
set_option autoImplicit true

/-- A value that an `off_t` holds is not changed by wrapping. -/
theorem wrap64_of_fits {x : Int} (hlo : -2 ^ 63 ≤ x) (hhi : x < 2 ^ 63) : wrap64 x = x := by
  unfold wrap64
  rw [Int.bmod_def]
  norm_num at *
  split <;> omega

namespace HttpRequest

def IsDigits (ds : Bytes) : Prop := ∀ c ∈ ds, 48 ≤ c ∧ c ≤ 57

/-- The number that digits write. -/
def number (ds : Bytes) : Int := ds.foldl (fun n c => n * 10 + (c.toNat - 48)) 0

/-- Every number in a text fits in an `off_t`. -/
def NumbersFit (text : Bytes) : Prop := ∀ ds, ds <:+: text → IsDigits ds → number ds < 2 ^ 63

theorem NumbersFit.infix {text part : Bytes} (h : NumbersFit text) (hp : part <:+: text) :
    NumbersFit part := fun ds hds => h ds (hds.trans hp)

theorem number_concat (ds : Bytes) (c : UInt8) :
    number (ds ++ [c]) = number ds * 10 + (c.toNat - 48) := List.foldl_concat ..

theorem isDigits_concat (h : IsDigits ds) (hlo : 48 ≤ c) (hhi : c ≤ 57) : IsDigits (ds ++ [c]) := by
  intro d hd
  rcases List.mem_append.1 hd with hd | hd
  · exact h d hd
  · rw [List.mem_singleton.1 hd]
    exact ⟨hlo, hhi⟩

theorem number_nonneg (h : IsDigits ds) : 0 ≤ number ds := by
  induction ds using List.reverseRecOn with
  | nil => exact Int.le_refl 0
  | append_singleton ds c ih =>
    have hds := ih fun d hd => h d (List.mem_append_left _ hd)
    have hc : (48 : UInt8).toNat ≤ c.toNat := (h c (by simp)).1
    have h48 : (48 : UInt8).toNat = 48 := rfl
    rw [number_concat]
    omega

theorem number_lt (h : IsDigits ds) : number ds < 10 ^ ds.length := by
  induction ds using List.reverseRecOn with
  | nil => exact Int.one_pos
  | append_singleton ds c ih =>
    have hds := ih fun d hd => h d (List.mem_append_left _ hd)
    have hc : c.toNat ≤ (57 : UInt8).toNat := (h c (by simp)).2
    have h57 : (57 : UInt8).toNat = 57 := rfl
    rw [number_concat, List.length_append, List.length_singleton, pow_succ]
    omega

/-- The numbers of a short text fit. -/
theorem numbersFit_of_length {text : Bytes} (h : text.length ≤ 18) : NumbersFit text := by
  intro ds hds hdigits
  have hlen : ds.length ≤ 18 := Nat.le_trans hds.length_le h
  have hpow : (10 : Int) ^ ds.length ≤ 10 ^ 18 := pow_le_pow_right₀ (by decide) hlen
  have hlt := number_lt hdigits
  omega

/-- As long as the numbers fit, a digit loop computes them exactly. -/
theorem digitLoop_fits {done rest : Bytes} (hfit : NumbersFit (done ++ rest))
    (hdone : IsDigits done) (h : digitLoop (number done) rest = some n) :
    n = number (done ++ rest) ∧ IsDigits (done ++ rest) := by
  induction rest generalizing done with
  | nil =>
    rw [List.append_nil]
    exact ⟨(Option.some.inj h).symm, hdone⟩
  | cons c rest ih =>
    unfold digitLoop at h
    split at h
    · cases h
    · next hc =>
      obtain ⟨hlo, hhi⟩ := not_or.1 hc
      have hlo := UInt8.not_lt.1 hlo
      have hhi := UInt8.not_lt.1 hhi
      have hnext := isDigits_concat hdone hlo hhi
      have hsplit : done ++ c :: rest = done ++ [c] ++ rest := by simp
      have hnonneg := number_nonneg hdone
      have hbound : number (done ++ [c]) < 2 ^ 63 := by
        apply hfit _ _ hnext
        rw [hsplit]
        exact (List.prefix_append _ _).isInfix
      have h48 : (48 : UInt8).toNat ≤ c.toNat := hlo
      have h48' : (48 : UInt8).toNat = 48 := rfl
      rw [number_concat] at hbound
      have hten : wrap64 (number done * 10) = number done * 10 := by
        apply wrap64_of_fits
        · omega
        · omega
      have hsum : wrap64 (number done * 10 + (c.toNat - 48)) = number (done ++ [c]) := by
        rw [number_concat]
        apply wrap64_of_fits
        · omega
        · exact hbound
      rw [hten, hsum] at h
      rw [hsplit]
      exact ih (hsplit ▸ hfit) hnext h

theorem digitLoop_bounds {text : Bytes} (hfit : NumbersFit text) (h : digitLoop 0 text = some n) :
    0 ≤ n ∧ n < 2 ^ 63 := by
  have hnil : IsDigits [] := fun c hc => absurd hc List.not_mem_nil
  have hfit' : NumbersFit ([] ++ text) := hfit
  obtain ⟨hn, hdigits⟩ := digitLoop_fits hfit' hnil h
  rw [hn]
  exact ⟨number_nonneg hdigits, hfit text (List.infix_refl _) hdigits⟩

/-- The bounds that a range text asks for, as `off_t` values. -/
theorem rangeBounds_fits {start stop : Bytes} (hsize : 0 ≤ size) (hmax : size < 2 ^ 63)
    (hstart : NumbersFit start) (hstop : NumbersFit stop)
    (h : rangeBounds size start stop = some (s, e)) : 0 ≤ s ∧ s < 2 ^ 63 ∧ e < 2 ^ 63 := by
  have hlast : wrap64 (size - 1) = size - 1 := by
    apply wrap64_of_fits
    · omega
    · omega
  unfold rangeBounds at h
  rw [hlast] at h
  split at h
  · split at h
    · cases h
    · next suffix hs =>
      obtain ⟨hlo, hhi⟩ := digitLoop_bounds hstop hs
      split at h
      · cases h
      · next hpos =>
        have hdiff : wrap64 (size - suffix) = size - suffix := by
          apply wrap64_of_fits
          · omega
          · omega
        rw [hdiff] at h
        cases h
        omega
  · split at h
    · cases h
    · next first hs =>
      obtain ⟨hlo, hhi⟩ := digitLoop_bounds hstart hs
      split at h
      · cases h
        omega
      · obtain ⟨last, hl, he⟩ := Option.map_eq_some_iff.1 h
        obtain ⟨_, hle⟩ := digitLoop_bounds hstop hl
        cases he
        exact ⟨hlo, hhi, hle⟩

/-- A range that `parse_range` gives lies within the file. -/
theorem parseRange_within {req : HttpRequest} (hsize : 0 ≤ size) (hmax : size < 2 ^ 63)
    (hfit : NumbersFit (req.header (bytes "range"))) (h : req.parseRange size = some (s, e)) :
    0 ≤ s ∧ s ≤ e ∧ e < size := by
  have hlast : wrap64 (size - 1) = size - 1 := by
    apply wrap64_of_fits
    · omega
    · omega
  unfold parseRange at h
  dsimp only at h
  rw [hlast] at h
  split at h
  · cases h
  · split at h
    · cases h
    · split at h
      · cases h
      · next dash _ =>
        have hval := hfit.infix (List.drop_suffix 6 _).isInfix
        have hstart := hval.infix (List.take_prefix dash _).isInfix
        have hstop := hval.infix (List.drop_suffix (dash + 1) _).isInfix
        split at h
        · cases h
        · next first last hb =>
          obtain ⟨hlo, _, _⟩ := rangeBounds_fits hsize hmax hstart hstop hb
          split at h
          · cases h
          · next hin =>
            cases h
            split
            · omega
            · omega

end HttpRequest

end FileWebServer
