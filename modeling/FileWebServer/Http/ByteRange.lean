import FileWebServer.Http.Range

namespace FileWebServer
namespace HttpRequest
open Search
set_option autoImplicit true
set_option maxRecDepth 20000

theorem isDigits_nil : IsDigits [] := fun _ hc => absurd hc List.not_mem_nil

theorem isDigits_cons : IsDigits (c :: rest) ↔ (48 ≤ c ∧ c ≤ 57) ∧ IsDigits rest :=
  List.forall_mem_cons

theorem IsDigits.dash (h : IsDigits ds) : 45 ∉ ds := fun hd => absurd (h 45 hd).1 (by decide)

instance (ds : Bytes) : Decidable (IsDigits ds) := List.decidableBAll (p := _) ds

/-- A digit loop fails at the first byte that is not a digit, and nowhere else. -/
theorem digitLoop_isSome_iff (acc : Int) (text : Bytes) :
    (digitLoop acc text).isSome ↔ IsDigits text := by
  induction text generalizing acc with
  | nil => exact iff_of_true rfl isDigits_nil
  | cons c rest ih =>
    rw [digitLoop, isDigits_cons]
    split
    · next hc =>
      refine iff_of_false Bool.false_ne_true fun h => ?_
      rcases hc with hc | hc
      · exact UInt8.not_lt.2 h.1.1 hc
      · exact UInt8.not_lt.2 h.1.2 hc
    · next hc =>
      obtain ⟨hlo, hhi⟩ := not_or.1 hc
      rw [ih]
      exact ⟨fun h => ⟨⟨UInt8.not_lt.1 hlo, UInt8.not_lt.1 hhi⟩, h⟩, fun h => h.2⟩

theorem digitLoop_eq_none (h : ¬ IsDigits text) : digitLoop acc text = none := by
  rw [← Option.not_isSome_iff_eq_none, digitLoop_isSome_iff]
  exact h

/-- As long as the numbers fit, a digit loop reads exactly the texts of digits. -/
theorem digitLoop_eq_some_iff (hfit : NumbersFit text) :
    digitLoop 0 text = some n ↔ IsDigits text ∧ n = number text := by
  have hfit' : NumbersFit ([] ++ text) := hfit
  have hread {m : Int} (h : digitLoop 0 text = some m) : m = number text :=
    (digitLoop_fits hfit' isDigits_nil h).1
  constructor
  · intro h
    refine ⟨(digitLoop_isSome_iff 0 text).1 ?_, hread h⟩
    rw [h]
    rfl
  · rintro ⟨hd, rfl⟩
    obtain ⟨m, hm⟩ := Option.isSome_iff_exists.1 ((digitLoop_isSome_iff 0 text).2 hd)
    rw [hm, hread hm]

/-- The texts of the start and the end of a range. -/
def rangeParts (hdr : Bytes) : Option (Bytes × Bytes) :=
  if hdr = [] then none
  else if hdr.length < 7 ∨ hdr.take 6 ≠ bytes "bytes=" then none
  else (find (bytes "-") (hdr.drop 6)).map fun dash =>
    ((hdr.drop 6).take dash, (hdr.drop 6).drop (dash + 1))

/-- The split is at the first dash. -/
theorem rangeParts_eq_some_iff : rangeParts hdr = some (start, stop) ↔
    hdr = bytes "bytes=" ++ (start ++ bytes "-" ++ stop) ∧ 45 ∉ start := by
  have hdash : bytes "-" = [45] := by decide
  have hlen : (bytes "bytes=").length = 6 := by decide
  constructor
  · intro h
    unfold rangeParts at h
    split at h
    · cases h
    · split at h
      · cases h
      · next hpre =>
        obtain ⟨_, htake⟩ := not_or.1 hpre
        obtain ⟨dash, hf, he⟩ := Option.map_eq_some_iff.1 h
        cases he
        rw [hdash] at hf
        obtain ⟨_, hp, hfirst⟩ := find_eq_some_iff.1 hf
        obtain ⟨rest, hrest⟩ := hp
        have hdrop : (hdr.drop 6).drop (dash + 1) = rest := by
          rw [← List.drop_drop, ← hrest]
          rfl
        constructor
        · rw [hdash, hdrop, List.append_assoc, hrest, List.take_append_drop, ← not_not.1 htake,
            List.take_append_drop]
        · intro hmem
          obtain ⟨j, hj, hget⟩ := List.getElem_of_mem hmem
          rw [List.length_take] at hj
          apply hfirst j (by omega)
          rw [List.drop_eq_getElem_cons (by omega), ← hget, List.getElem_take]
          exact List.prefix_append [_] _
  · rintro ⟨rfl, hstart⟩
    have hdrop : (bytes "bytes=" ++ (start ++ bytes "-" ++ stop)).drop 6 =
        start ++ (45 :: [] ++ stop) := by
      rw [← hlen, List.drop_left, hdash, List.append_assoc]
    have hfind : find (bytes "-") (start ++ (45 :: [] ++ stop)) = some start.length := by
      rw [hdash]
      exact find_append_self hstart stop
    unfold rangeParts
    rw [if_neg (by simp [hdash]), if_neg, hdrop, hfind]
    · simp
    · rintro (hl | ht)
      · simp only [List.length_append, hlen, hdash, List.length_singleton] at hl
        omega
      · rw [← hlen, List.take_left] at ht
        exact ht rfl

/-- The last steps of `parse_range`: the bounds are compared and the end is clamped. -/
def clampRange (size : Int) : Int × Int → Option (Int × Int)
  | (s, e) => if size ≤ s ∨ e < s then none else some (s, if size ≤ e then wrap64 (size - 1) else e)

theorem parseRange_eq (req : HttpRequest) (size : Int) : req.parseRange size =
    (rangeParts (req.header (bytes "range"))).bind fun parts =>
      (rangeBounds size parts.1 parts.2).bind (clampRange size) := by
  unfold parseRange rangeParts
  dsimp only
  split
  · rfl
  · split
    · rfl
    · cases find (bytes "-") ((req.header (bytes "range")).drop 6) with
      | none => rfl
      | some dash =>
        dsimp only [Option.map_some, Option.bind_some]
        cases rangeBounds size _ _ with
        | none => rfl
        | some bounds => rfl

theorem NumbersFit.parts (h : NumbersFit (bytes "bytes=" ++ (start ++ bytes "-" ++ stop))) :
    NumbersFit start ∧ NumbersFit stop := by
  have hrest := h.infix (List.suffix_append _ _).isInfix
  constructor
  · rw [List.append_assoc] at hrest
    exact hrest.infix (List.prefix_append _ _).isInfix
  · exact hrest.infix (List.suffix_append _ _).isInfix

/-- The bytes that a single range selects of a representation of `size` bytes. -/
inductive Selects (size : Int) : Bytes → Int → Int → Prop
  | bounded {first last : Bytes} : first ≠ [] → IsDigits first → last ≠ [] → IsDigits last →
    number first ≤ number last → number first < size →
    Selects size (bytes "bytes=" ++ (first ++ bytes "-" ++ last)) (number first)
      (min (number last) (size - 1))
  | openEnded {first : Bytes} : first ≠ [] → IsDigits first → number first < size →
    Selects size (bytes "bytes=" ++ (first ++ bytes "-")) (number first) (size - 1)
  | suffix {count : Bytes} : count ≠ [] → IsDigits count → 0 < number count → 0 < size →
    Selects size (bytes "bytes=" ++ (bytes "-" ++ count)) (max 0 (size - number count)) (size - 1)

theorem wrap64_last (hsize : 0 ≤ size) (hmax : size < 2 ^ 63) : wrap64 (size - 1) = size - 1 := by
  apply wrap64_of_fits
  · omega
  · omega

/-- The bounds of the last bytes of a file, as many as the text says. -/
theorem rangeBounds_suffix_iff (hsize : 0 ≤ size) (hmax : size < 2 ^ 63) (hstop : NumbersFit stop) :
    rangeBounds size [] stop = some (s, e) ↔
      IsDigits stop ∧ 0 < number stop ∧ s = max 0 (size - number stop) ∧ e = size - 1 := by
  unfold rangeBounds
  rw [wrap64_last hsize hmax, if_pos rfl]
  by_cases hd : IsDigits stop
  · have hread := (digitLoop_eq_some_iff hstop).2 ⟨hd, rfl⟩
    obtain ⟨hlo, hhi⟩ := digitLoop_bounds hstop hread
    have hdiff : wrap64 (size - number stop) = size - number stop := by
      apply wrap64_of_fits
      · omega
      · omega
    rw [hread]
    dsimp only
    rw [hdiff]
    split
    · next hle =>
      refine iff_of_false (Option.some_ne_none _).symm ?_
      rintro ⟨_, hpos, _⟩
      exact Int.not_lt.2 hle hpos
    · next hpos =>
      simp only [hd, Int.not_le.1 hpos, max_comm, Option.some.injEq, Prod.mk.injEq, true_and,
        eq_comm]
  · rw [digitLoop_eq_none hd]
    exact iff_of_false (Option.some_ne_none _).symm fun h => hd h.1

/-- The bounds of the bytes from a number on, up to another one if there is one. -/
theorem rangeBounds_first_iff (hsize : 0 ≤ size) (hmax : size < 2 ^ 63) (hstart : NumbersFit start)
    (hstop : NumbersFit stop) (hne : start ≠ []) :
    rangeBounds size start stop = some (s, e) ↔ IsDigits start ∧ s = number start ∧
      (stop = [] ∧ e = size - 1 ∨ stop ≠ [] ∧ IsDigits stop ∧ e = number stop) := by
  unfold rangeBounds
  rw [wrap64_last hsize hmax, if_neg hne]
  by_cases hd : IsDigits start
  · rw [(digitLoop_eq_some_iff hstart).2 ⟨hd, rfl⟩]
    dsimp only
    split
    · next hnil =>
      simp only [hd, hnil, ne_eq, not_true_eq_false, true_and, false_and, or_false,
        Option.some.injEq, Prod.mk.injEq, eq_comm]
    · next hstopNe =>
      rw [Option.map_eq_some_iff]
      simp only [digitLoop_eq_some_iff hstop, hd, hstopNe, false_and, false_or, ne_eq,
        not_false_eq_true, true_and, Prod.mk.injEq]
      constructor
      · rintro ⟨m, ⟨hds, rfl⟩, rfl, rfl⟩
        exact ⟨rfl, hds, rfl⟩
      · rintro ⟨rfl, hds, rfl⟩
        exact ⟨_, ⟨hds, rfl⟩, rfl, rfl⟩
  · rw [digitLoop_eq_none hd]
    exact iff_of_false (Option.some_ne_none _).symm fun h => hd h.1

/-- What the bounds are that the texts of a range ask for, as long as the numbers fit. -/
theorem rangeBounds_eq_some_iff (hsize : 0 ≤ size) (hmax : size < 2 ^ 63)
    (hstart : NumbersFit start) (hstop : NumbersFit stop) :
    rangeBounds size start stop = some (s, e) ↔
      (start = [] ∧ IsDigits stop ∧ 0 < number stop ∧ s = max 0 (size - number stop) ∧
        e = size - 1) ∨
      (start ≠ [] ∧ IsDigits start ∧ s = number start ∧
        (stop = [] ∧ e = size - 1 ∨ stop ≠ [] ∧ IsDigits stop ∧ e = number stop)) := by
  by_cases hnil : start = []
  · subst hnil
    rw [rangeBounds_suffix_iff hsize hmax hstop]
    simp only [ne_eq, not_true_eq_false, true_and, false_and, or_false]
  · rw [rangeBounds_first_iff hsize hmax hstart hstop hnil]
    simp only [hnil, ne_eq, not_false_eq_true, true_and, false_and, false_or]

theorem clampRange_eq_some_iff (hsize : 0 ≤ size) (hmax : size < 2 ^ 63) :
    clampRange size (a, b) = some (s, e) ↔
      a < size ∧ a ≤ b ∧ s = a ∧ e = min b (size - 1) := by
  unfold clampRange
  dsimp only
  rw [wrap64_last hsize hmax]
  split
  · refine iff_of_false (Option.some_ne_none _).symm ?_
    omega
  · rw [Option.some.injEq, Prod.mk.injEq]
    split
    · omega
    · omega

theorem clamp_rangeBounds (hsize : 0 ≤ size) (hmax : size < 2 ^ 63) (hdash : 45 ∉ start)
    (hbounds : rangeBounds size start stop = some (a, b)) (ha : a < size) (hab : a ≤ b) :
    ((rangeParts (bytes "bytes=" ++ (start ++ bytes "-" ++ stop))).bind fun parts =>
      (rangeBounds size parts.1 parts.2).bind (clampRange size)) = some (a, min b (size - 1)) := by
  rw [rangeParts_eq_some_iff.2 ⟨rfl, hdash⟩, Option.bind_some, hbounds, Option.bind_some,
    clampRange_eq_some_iff hsize hmax]
  exact ⟨ha, hab, rfl, rfl⟩

/-- As long as the numbers of the header fit, `parse_range` gives exactly what the single range
in it selects, and nothing where there is none. -/
theorem parseRange_eq_some_iff (req : HttpRequest) (hsize : 0 ≤ size) (hmax : size < 2 ^ 63)
    (hfit : NumbersFit (req.header (bytes "range"))) :
    req.parseRange size = some (s, e) ↔ Selects size (req.header (bytes "range")) s e := by
  rw [parseRange_eq]
  generalize req.header (bytes "range") = hdr at hfit
  constructor
  · intro h
    obtain ⟨⟨start, stop⟩, hparts, h⟩ := Option.bind_eq_some_iff.1 h
    obtain ⟨⟨a, b⟩, hbounds, hclamp⟩ := Option.bind_eq_some_iff.1 h
    obtain ⟨rfl, hdash⟩ := rangeParts_eq_some_iff.1 hparts
    obtain ⟨hstart, hstop⟩ := hfit.parts
    obtain ⟨ha, hab, rfl, rfl⟩ := (clampRange_eq_some_iff hsize hmax).1 hclamp
    rcases (rangeBounds_eq_some_iff hsize hmax hstart hstop).1 hbounds with
      ⟨rfl, hd, hpos, rfl, rfl⟩ | ⟨hne, hd, rfl, ⟨rfl, rfl⟩ | ⟨hne', hd', rfl⟩⟩
    · rw [min_self]
      have hstop' : stop ≠ [] := by
        rintro rfl
        exact Int.lt_irrefl 0 hpos
      exact .suffix hstop' hd hpos (by omega)
    · rw [min_self, List.append_nil]
      exact .openEnded hne hd ha
    · exact .bounded hne hd hne' hd' hab ha
  · intro h
    cases h with
    | @bounded first last hne hd hne' hd' hle hlt =>
      obtain ⟨hstart, hstop⟩ := hfit.parts
      have hbounds := (rangeBounds_eq_some_iff hsize hmax hstart hstop).2
        (.inr ⟨hne, hd, rfl, .inr ⟨hne', hd', rfl⟩⟩)
      exact clamp_rangeBounds hsize hmax hd.dash hbounds hlt hle
    | @openEnded first hne hd hlt =>
      have hrest : first ++ bytes "-" = first ++ bytes "-" ++ [] := (List.append_nil _).symm
      rw [hrest] at hfit ⊢
      obtain ⟨hstart, hstop⟩ := hfit.parts
      have hbounds := (rangeBounds_eq_some_iff hsize hmax hstart hstop).2
        (.inr ⟨hne, hd, rfl, .inl ⟨rfl, rfl⟩⟩)
      have hclamp := clamp_rangeBounds hsize hmax hd.dash hbounds hlt (by omega)
      rw [min_self] at hclamp
      exact hclamp
    | @suffix count hne hd hpos hsize' =>
      have hfit' : NumbersFit (bytes "bytes=" ++ ([] ++ bytes "-" ++ count)) := hfit
      obtain ⟨hstart, hstop⟩ := hfit'.parts
      have hbounds := (rangeBounds_eq_some_iff hsize hmax hstart hstop).2
        (.inl ⟨rfl, hd, hpos, rfl, rfl⟩)
      have hclamp := clamp_rangeBounds hsize hmax List.not_mem_nil hbounds (by omega) (by omega)
      rw [min_self] at hclamp
      exact hclamp

theorem parseRange_eq_some_iff_suffix :
    ({ headers := [(bytes "range", bytes "bytes=-3")] } : HttpRequest).parseRange 10 =
        some (7, 9) ↔
      Selects 10 (({ headers := [(bytes "range", bytes "bytes=-3")] } : HttpRequest).header
        (bytes "range")) 7 9 :=
  parseRange_eq_some_iff _ (by decide) (by decide) (numbersFit_of_length (by decide))

/-- The exact values that a digit loop computes, up to the first byte that is not a digit. -/
def digitValues (acc : Int) : Bytes → List Int
  | [] => []
  | c :: rest =>
    if c < 48 ∨ 57 < c then []
    else acc * 10 :: (acc * 10 + (c.toNat - 48)) ::
      digitValues (acc * 10 + (c.toNat - 48)) rest

/-- The exact values that `parse_range` computes for `start`, `end` and `suffix`. -/
def rangeValues (req : HttpRequest) (size : Int) : List Int :=
  match rangeParts (req.header (bytes "range")) with
  | none => []
  | some (start, stop) =>
    (size - 1) :: if start = [] then
      digitValues 0 stop ++
        if IsDigits stop ∧ 0 < number stop then [size - number stop] else []
    else digitValues 0 start ++ if IsDigits start then digitValues 0 stop else []

/-- No value leaves the range of an `off_t`, and a range that is given lies within the file. -/
structure RangeSound (req : HttpRequest) (size : Int) : Prop where
  fits : ∀ v ∈ req.rangeValues size, -2 ^ 63 ≤ v ∧ v < 2 ^ 63
  within : ∀ s e, req.parseRange size = some (s, e) → 0 ≤ s ∧ s ≤ e ∧ e < size

def isDigit (c : UInt8) : Bool := 48 ≤ c && c ≤ 57

/-- The number that a text begins with fits in an `off_t`. -/
def LeadingFits (text : Bytes) : Prop := number (text.takeWhile isDigit) < 2 ^ 63

/-- Every number that `parse_range` gets to read fits: that of the end is only read after a start
that is a number, or missing. -/
def ReadsFit (req : HttpRequest) : Prop :=
  ∀ start stop, rangeParts (req.header (bytes "range")) = some (start, stop) →
    LeadingFits start ∧ (IsDigits start → LeadingFits stop)

theorem number_append (ds es : Bytes) :
    number (ds ++ es) = number ds * 10 ^ es.length + number es := by
  induction es using List.reverseRecOn with
  | nil => simp [number]
  | append_singleton es c ih =>
    rw [← List.append_assoc, number_concat, number_concat, ih, List.length_append,
      List.length_singleton, pow_succ]
    ring

theorem number_le_append (ds : Bytes) {es : Bytes} (h : IsDigits ds) (he : IsDigits es) :
    number ds ≤ number (ds ++ es) := by
  have hpow : (1 : Int) ≤ 10 ^ es.length := one_le_pow₀ (by decide)
  have hmul := mul_le_mul_of_nonneg_left hpow (number_nonneg h)
  have hes := number_nonneg he
  rw [number_append]
  omega

theorem IsDigits.infix {es : Bytes} (h : IsDigits ds) (he : es <:+: ds) : IsDigits es :=
  fun c hc => h c (he.subset hc)

/-- In a text of digits, no number is larger than the whole. -/
theorem IsDigits.numbersFit (h : IsDigits ds) (hlt : number ds < 2 ^ 63) : NumbersFit ds := by
  rintro es ⟨before, after, rfl⟩ hes
  have hbefore : IsDigits before := h.infix ⟨[], es ++ after, by simp⟩
  have hafter : IsDigits after := h.infix (List.suffix_append _ _).isInfix
  have hfront : IsDigits (before ++ es) := h.infix (List.prefix_append _ _).isInfix
  have hle := number_le_append _ hfront hafter
  have hmul := mul_nonneg (number_nonneg hbefore) (pow_nonneg (by decide : (0 : Int) ≤ 10) es.length)
  rw [number_append before] at hle
  omega

theorem isDigit_iff : isDigit c = true ↔ 48 ≤ c ∧ c ≤ 57 := by
  rw [isDigit, Bool.and_eq_true, decide_eq_true_eq, decide_eq_true_eq]

theorem isDigits_takeWhile (text : Bytes) : IsDigits (text.takeWhile isDigit) :=
  fun _ hc => isDigit_iff.1 (List.mem_takeWhile_imp hc)

theorem IsDigits.takeWhile (h : IsDigits text) : text.takeWhile isDigit = text :=
  List.takeWhile_eq_self_iff.2 fun c hc => isDigit_iff.2 (h c hc)

/-- The values of a digit loop are in range exactly if the number that it reads is. -/
theorem digitValues_fit_iff {done rest : Bytes} (hdone : IsDigits done)
    (hlt : number done < 2 ^ 63) :
    (∀ v ∈ digitValues (number done) rest, -2 ^ 63 ≤ v ∧ v < 2 ^ 63) ↔
      number (done ++ rest.takeWhile isDigit) < 2 ^ 63 := by
  induction rest generalizing done with
  | nil =>
    rw [List.takeWhile_nil, List.append_nil]
    exact iff_of_true (fun v hv => absurd hv List.not_mem_nil) hlt
  | cons c rest ih =>
    unfold digitValues
    by_cases hc : c < 48 ∨ 57 < c
    · have hno : isDigit c = false := by
        rw [← Bool.not_eq_true, isDigit_iff, ← UInt8.not_lt, ← UInt8.not_lt]
        tauto
      rw [if_pos hc, List.takeWhile_cons, hno, if_neg Bool.false_ne_true, List.append_nil]
      exact iff_of_true (fun v hv => absurd hv List.not_mem_nil) hlt
    · obtain ⟨hlo, hhi⟩ := not_or.1 hc
      have hlo := UInt8.not_lt.1 hlo
      have hhi := UInt8.not_lt.1 hhi
      have hnext := isDigits_concat hdone hlo hhi
      have hsplit : done ++ c :: rest.takeWhile isDigit = done ++ [c] ++ rest.takeWhile isDigit := by
        simp
      have h48 : (48 : UInt8).toNat ≤ c.toNat := hlo
      have h48' : (48 : UInt8).toNat = 48 := rfl
      have hnonneg := number_nonneg hdone
      have hnumber := number_concat done c
      rw [if_neg hc, List.takeWhile_cons, isDigit_iff.2 ⟨hlo, hhi⟩, if_pos rfl, hsplit, ← hnumber,
        List.forall_mem_cons, List.forall_mem_cons]
      by_cases hfits : number (done ++ [c]) < 2 ^ 63
      · rw [ih hnext hfits]
        refine ⟨fun h => h.2.2, fun h => ⟨?_, ?_, h⟩⟩
        · omega
        · omega
      · have hle := number_le_append _ hnext (isDigits_takeWhile rest)
        exact iff_of_false (fun h => hfits h.2.1.2) (fun h => hfits (Int.lt_of_le_of_lt hle h))

theorem digitValues_fit_iff_leading :
    (∀ v ∈ digitValues 0 text, -2 ^ 63 ≤ v ∧ v < 2 ^ 63) ↔ LeadingFits text :=
  digitValues_fit_iff isDigits_nil (by decide : number [] < 2 ^ 63)

theorem leadingFits_nil : LeadingFits [] := by
  unfold LeadingFits
  decide

theorem LeadingFits.numbersFit (h : LeadingFits text) (hd : IsDigits text) : NumbersFit text := by
  unfold LeadingFits at h
  rw [hd.takeWhile] at h
  exact hd.numbersFit h

/-- A range is only given when both of its texts are digits or missing. -/
theorem rangeBounds_digits (h : rangeBounds size start stop = some bounds) :
    IsDigits start ∧ IsDigits stop := by
  unfold rangeBounds at h
  by_cases hnil : start = []
  · rw [if_pos hnil] at h
    refine ⟨hnil ▸ isDigits_nil, ?_⟩
    by_contra hd
    rw [digitLoop_eq_none hd] at h
    cases h
  · rw [if_neg hnil] at h
    have hd : IsDigits start := by
      by_contra hd
      rw [digitLoop_eq_none hd] at h
      cases h
    refine ⟨hd, ?_⟩
    by_contra hd'
    have hne : stop ≠ [] := by
      rintro rfl
      exact hd' isDigits_nil
    rw [digitLoop_eq_none hd'] at h
    cases hs : digitLoop 0 start with
    | none =>
      rw [hs] at h
      cases h
    | some n =>
      rw [hs] at h
      dsimp only at h
      rw [if_neg hne] at h
      cases h

/-- Where all that is read fits, a range that is given lies within the file. -/
theorem ReadsFit.within {req : HttpRequest} (h : req.ReadsFit) (hsize : 0 ≤ size)
    (hmax : size < 2 ^ 63) (hr : req.parseRange size = some (s, e)) :
    0 ≤ s ∧ s ≤ e ∧ e < size := by
  rw [parseRange_eq] at hr
  obtain ⟨⟨start, stop⟩, hparts, hr⟩ := Option.bind_eq_some_iff.1 hr
  obtain ⟨⟨a, b⟩, hbounds, hclamp⟩ := Option.bind_eq_some_iff.1 hr
  obtain ⟨hstart, hstop⟩ := h start stop hparts
  obtain ⟨hds, hde⟩ := rangeBounds_digits hbounds
  have hfits := rangeBounds_fits hsize hmax (hstart.numbersFit hds) ((hstop hds).numbersFit hde)
    hbounds
  obtain ⟨ha, hab, rfl, rfl⟩ := (clampRange_eq_some_iff hsize hmax).1 hclamp
  omega

/-- `parse_range` computes within an `off_t`, and gives a range within the file, exactly if every
number that it gets to read fits. -/
theorem rangeSound_iff_readsFit (req : HttpRequest) (hsize : 0 ≤ size) (hmax : size < 2 ^ 63) :
    req.RangeSound size ↔ req.ReadsFit := by
  constructor
  · rintro ⟨hfits, _⟩ start stop hparts
    unfold rangeValues at hfits
    rw [hparts] at hfits
    have hrest := (List.forall_mem_cons.1 hfits).2
    by_cases hnil : start = []
    · rw [if_pos hnil] at hrest
      refine ⟨hnil ▸ leadingFits_nil, fun _ => digitValues_fit_iff_leading.1 fun v hv => ?_⟩
      exact hrest v (List.mem_append_left _ hv)
    · rw [if_neg hnil] at hrest
      constructor
      · exact digitValues_fit_iff_leading.1 fun v hv => hrest v (List.mem_append_left _ hv)
      · intro hd
        rw [if_pos hd] at hrest
        exact digitValues_fit_iff_leading.1 fun v hv => hrest v (List.mem_append_right _ hv)
  · intro h
    refine ⟨?_, fun s e hr => h.within hsize hmax hr⟩
    unfold rangeValues
    split
    · exact fun v hv => absurd hv List.not_mem_nil
    · next start stop hparts =>
      obtain ⟨hstart, hstop⟩ := h start stop hparts
      refine List.forall_mem_cons.2 ⟨by omega, ?_⟩
      split
      · next hnil =>
        have hread := hstop (hnil ▸ isDigits_nil)
        refine List.forall_mem_append.2 ⟨digitValues_fit_iff_leading.2 hread, ?_⟩
        split
        · next hd =>
          have hlt := (hread.numbersFit hd.1) stop (List.infix_refl _) hd.1
          refine List.forall_mem_singleton.2 ?_
          omega
        · exact fun v hv => absurd hv List.not_mem_nil
      · refine List.forall_mem_append.2 ⟨digitValues_fit_iff_leading.2 hstart, ?_⟩
        split
        · next hd => exact digitValues_fit_iff_leading.2 (hstop hd)
        · exact fun v hv => absurd hv List.not_mem_nil

theorem rangeSound_iff_readsFit_short :
    ({ headers := [(bytes "range", bytes "bytes=-3")] } : HttpRequest).RangeSound 10 ↔
      ({ headers := [(bytes "range", bytes "bytes=-3")] } : HttpRequest).ReadsFit :=
  rangeSound_iff_readsFit _ (by decide) (by decide)

/-- A request for everything behind the first `2 ^ 63` bytes. -/
def farRange : Bytes :=
  bytes "GET / HTTP/1.1\r\nRange: bytes=9223372036854775808-\r\nHost: a\r\n\r\n"

/-- The start of the range wraps to a negative offset. -/
theorem far_range_overflows : (parse farRange).1 = true ∧
    (parse farRange).2.parseRange 100 = some (-2 ^ 63, 99) ∧
      ¬ (parse farRange).2.RangeSound 100 := by
  have hgives : (parse farRange).2.parseRange 100 = some (-2 ^ 63, 99) := by decide
  refine ⟨by decide, hgives, fun h => ?_⟩
  exact absurd (h.within _ _ hgives).1 (by decide)

end HttpRequest

end FileWebServer
