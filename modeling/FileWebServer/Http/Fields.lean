import FileWebServer.Http.MimeTypes
import FileWebServer.Http.Response

namespace FileWebServer
open Search
set_option autoImplicit true

/-- A text that can stand inside a line of a header block. -/
def Inline (s : Bytes) : Prop := 13 ∉ s

theorem inline_nil : Inline [] := List.not_mem_nil

theorem inline_append (hs : Inline s) (ht : Inline t) : Inline (s ++ t) := by
  intro h
  rcases List.mem_append.1 h with h | h
  · exact hs h
  · exact ht h

/-- A text without control characters. -/
def Printable (s : Bytes) : Prop := ∀ b ∈ s, 32 ≤ b

instance (s : Bytes) : Decidable (Printable s) := List.decidableBAll _ s

theorem Printable.inline (h : Printable s) : Inline s := fun hmem => absurd (h 13 hmem) (by decide)

theorem Printable.append (hs : Printable s) (ht : Printable t) : Printable (s ++ t) := by
  intro b hb
  rcases List.mem_append.1 hb with hb | hb
  · exact hs b hb
  · exact ht b hb

theorem printable_decimal (n : Nat) : Printable (decimal n) := fun _ hb =>
  UInt8.le_trans (by decide) (mem_decimal hb).1

theorem printable_decimalInt (n : Int) : Printable (decimalInt n) := by
  unfold decimalInt
  split
  · exact Printable.append (by decide) (printable_decimal _)
  · exact printable_decimal _

theorem printable_zeroPadded (w : Nat) (n : Int) : Printable (zeroPadded w n) := by
  have hzeros (k : Nat) : Printable (List.replicate k 48) := by
    intro b hb
    rw [List.eq_of_mem_replicate hb]
    decide
  unfold zeroPadded
  dsimp only
  split
  · exact (Printable.append (by decide) (hzeros _)).append (printable_decimal _)
  · exact (hzeros _).append (printable_decimal _)

theorem printable_weekdayName (wday : Int) : Printable (weekdayName wday) := by
  unfold weekdayName
  split <;> decide

theorem printable_monthName (mon : Int) : Printable (monthName mon) := by
  unfold monthName
  split <;> decide

theorem printable_formatTime (t : Int) : Printable (formatTime t) := by
  have hlit : Printable (bytes ", ") ∧ Printable (bytes " ") ∧ Printable (bytes ":") ∧
      Printable (bytes " GMT") := by decide
  obtain ⟨hcomma, hspace, hcolon, hgmt⟩ := hlit
  unfold formatTime
  dsimp only
  apply Printable.append _ hgmt
  apply Printable.append _ (printable_zeroPadded _ _)
  apply Printable.append _ hcolon
  apply Printable.append _ (printable_zeroPadded _ _)
  apply Printable.append _ hcolon
  apply Printable.append _ (printable_zeroPadded _ _)
  apply Printable.append _ hspace
  apply Printable.append _ (printable_zeroPadded _ _)
  apply Printable.append _ hspace
  apply Printable.append _ (printable_monthName _)
  apply Printable.append _ hspace
  apply Printable.append _ (printable_zeroPadded _ _)
  exact (printable_weekdayName _).append hcomma

theorem printable_detectMimeType (path : Bytes) : Printable (detectMimeType path) := by
  have hfallback : Printable fallbackMime := by decide
  have htable : ∀ e ∈ mimeTable, Printable e.mime := by decide
  unfold detectMimeType
  split
  · exact hfallback
  · split
    · next e he =>
      split
      · exact htable e (List.mem_of_getElem? he)
      · exact hfallback
    · exact hfallback

/-- The lines of a text that CRLFs end, with what is left behind the last one. The fuel is more
than the text has lines. -/
def linesOf : Nat → Bytes → List Bytes
  | 0, _ => []
  | fuel + 1, s =>
    match find crlf s with
    | none => [s]
    | some eol => s.take eol :: linesOf fuel (s.drop (eol + 2))

def lines (s : Bytes) : List Bytes := linesOf (s.length + 1) s

/-- Lines, each with the CRLF that ends it. -/
def unlines (ls : List Bytes) : Bytes := ls.flatMap (· ++ crlf)

theorem linesOf_cons (hl : Inline l) (rest : Bytes) :
    linesOf (fuel + 1) (l ++ crlf ++ rest) = l :: linesOf fuel rest := by
  have hfind : find crlf (l ++ crlf ++ rest) = some l.length := by
    rw [List.append_assoc]
    exact find_append_self hl rest
  have htake : (l ++ crlf ++ rest).take l.length = l := by
    rw [List.append_assoc]
    exact List.take_left
  have hdrop : (l ++ crlf ++ rest).drop (l.length + 2) = rest := by
    have hlen : (l ++ crlf).length = l.length + 2 := List.length_append
    rw [← hlen]
    exact List.drop_left
  rw [linesOf, hfind]
  simp only [htake, hdrop]

theorem linesOf_unlines {ls : List Bytes} (h : ∀ l ∈ ls, Inline l) (hfuel : ls.length < fuel) :
    linesOf fuel (unlines ls) = ls ++ [[]] := by
  induction ls generalizing fuel with
  | nil =>
    cases fuel with
    | zero => exact absurd hfuel (Nat.not_lt_zero _)
    | succ fuel => rfl
  | cons l ls ih =>
    cases fuel with
    | zero => exact absurd hfuel (Nat.not_lt_zero _)
    | succ fuel =>
      have hrest := ih (fun x hx => h x (List.mem_cons_of_mem _ hx)) (Nat.lt_of_succ_lt_succ hfuel)
      have hcons : unlines (l :: ls) = l ++ crlf ++ unlines ls := List.flatMap_cons
      rw [hcons, linesOf_cons (h l List.mem_cons_self), hrest]
      rfl

theorem length_le_unlines (ls : List Bytes) : ls.length ≤ (unlines ls).length := by
  induction ls with
  | nil => exact Nat.zero_le _
  | cons l ls ih =>
    have hcons : unlines (l :: ls) = l ++ crlf ++ unlines ls := List.flatMap_cons
    rw [hcons, List.length_append, List.length_append, List.length_cons]
    have htwo : crlf.length = 2 := rfl
    omega

/-- Reading lines gives back those that were written. -/
theorem lines_unlines {ls : List Bytes} (h : ∀ l ∈ ls, Inline l) :
    lines (unlines ls) = ls ++ [[]] :=
  linesOf_unlines h (Nat.lt_succ_of_le (length_le_unlines ls))

/-- The value of a line with a given field name. -/
def valueOf (name line : Bytes) : Option Bytes :=
  if name ++ bytes ": " <+: line then some (line.drop (name.length + 2)) else none

/-- The values that a header block has for a field. -/
def fieldValues (name block : Bytes) : List Bytes := (lines block).filterMap (valueOf name)

def fieldText (f : Bytes × Bytes) : Bytes := f.1 ++ bytes ": " ++ f.2

theorem valueOf_fieldText (hname : 58 ∉ name) (hf : 58 ∉ f.1) :
    valueOf name (fieldText f) = if f.1 = name then some f.2 else none := by
  unfold valueOf fieldText
  by_cases he : f.1 = name
  · rw [if_pos he, if_pos]
    · have hlen : (f.1 ++ bytes ": ").length = name.length + 2 := by
        rw [he]
        exact List.length_append
      rw [← hlen, List.drop_left]
    · rw [he]
      exact List.prefix_append _ _
  · rw [if_neg he, if_neg]
    intro hp
    -- the first colon of a field ends its name
    have hcolon : bytes ": " = [58, 32] := rfl
    have hleft : find [58, 32] (f.1 ++ bytes ": " ++ f.2) = some f.1.length := by
      rw [List.append_assoc]
      exact find_append_self hf f.2
    obtain ⟨t, ht⟩ := hp
    have hright : find [58, 32] (name ++ bytes ": " ++ t) = some name.length := by
      rw [List.append_assoc]
      exact find_append_self hname t
    rw [ht, hleft, Option.some.injEq] at hright
    rw [List.append_assoc, List.append_assoc] at ht
    exact he (List.append_inj_left ht hright.symm).symm

theorem valueOf_of_notMem (h : 58 ∉ line) : valueOf name line = none := by
  apply if_neg
  intro hp
  apply h
  apply hp.subset
  rw [List.mem_append]
  exact .inr (by decide)

namespace HttpResponse
variable {r : HttpResponse}

/-- The fields that the header block of a response has, in order. -/
def fields (r : HttpResponse) (time : Int) : List (Bytes × Bytes) :=
  [(bytes "Date", formatTime time)] ++
    (if r.status ≠ .notModified ∧ r.contentType ≠ [] then
      [(bytes "Content-Type", r.contentType)] else []) ++
    (if r.status ≠ .notModified ∧ r.hasContentLength then
      [(bytes "Content-Length", decimal r.contentLength)] else []) ++
    (if r.hasLastModified then [(bytes "Last-Modified", formatTime r.lastModified)] else []) ++
    (if r.acceptRanges then [(bytes "Accept-Ranges", bytes "bytes")] else []) ++
    [(bytes "Connection", if r.keepAlive then bytes "keep-alive" else bytes "close")] ++
    r.headers

def statusLine (s : Status) : Bytes := bytes "HTTP/1.1 " ++ decimal s.code ++ bytes " " ++ s.reason

/-- Nothing in a response ends a line of its header block too early. -/
structure Clean (r : HttpResponse) : Prop where
  contentType : Inline r.contentType
  names : ∀ f ∈ r.headers, 58 ∉ f.1 ∧ Inline f.1
  values : ∀ f ∈ r.headers, Inline f.2

theorem buildHeaders_eq (r : HttpResponse) (time : Int) : r.buildHeaders time =
    unlines (statusLine r.status :: (r.fields time).map fieldText ++ [[]]) := by
  have hline : ∀ f : Bytes × Bytes, headerLine f.1 f.2 = fieldText f ++ crlf := fun _ => rfl
  have hcustom : r.headers.flatMap (fun f => headerLine f.1 f.2) =
      unlines (r.headers.map fieldText) := by
    unfold unlines
    rw [List.flatMap_map]
    rfl
  have hif : ∀ (p : Prop) [Decidable p] (f : Bytes × Bytes),
      (if p then headerLine f.1 f.2 else []) = unlines ((if p then [f] else []).map fieldText) := by
    intro p _ f
    split
    · simp [unlines, hline]
    · rfl
  have hcons : ∀ l ls, unlines (l :: ls) = l ++ crlf ++ unlines ls := fun _ _ => List.flatMap_cons
  have happ : ∀ ls ls' : List Bytes, unlines (ls ++ ls') = unlines ls ++ unlines ls' :=
    fun _ _ => List.flatMap_append
  unfold buildHeaders fields
  rw [hcustom, hif _ (_, _), hif _ (_, _), hif _ (_, _), hif _ (_, _), List.cons_append, hcons,
    happ, List.map_append, List.map_append, List.map_append, List.map_append, List.map_append,
    List.map_append, happ, happ, happ, happ, happ, happ]
  simp only [unlines, statusLine, List.flatMap_cons, List.flatMap_nil, List.map_cons,
    List.map_nil, List.nil_append, List.append_nil, List.append_assoc, fieldText, headerLine]

theorem fields_names (h : r.Clean) (time : Int) : ∀ f ∈ fields r time, 58 ∉ f.1 ∧ Inline f.1 := by
  have hlit : ∀ name ∈ [bytes "Date", bytes "Content-Type", bytes "Content-Length",
      bytes "Last-Modified", bytes "Accept-Ranges", bytes "Connection"],
      58 ∉ name ∧ Inline name := by
    unfold Inline
    decide
  intro f hf
  simp only [fields, List.mem_append, List.mem_singleton, List.mem_ite_nil_right] at hf
  rcases hf with (((((rfl | ⟨_, rfl⟩) | ⟨_, rfl⟩) | ⟨_, rfl⟩) | ⟨_, rfl⟩) | rfl) | hf
  · exact hlit _ (by simp)
  · exact hlit _ (by simp)
  · exact hlit _ (by simp)
  · exact hlit _ (by simp)
  · exact hlit _ (by simp)
  · exact hlit _ (by simp)
  · exact h.names f hf

theorem fields_values (h : r.Clean) (time : Int) : ∀ f ∈ fields r time, Inline f.2 := by
  intro f hf
  simp only [fields, List.mem_append, List.mem_singleton, List.mem_ite_nil_right] at hf
  rcases hf with (((((rfl | ⟨_, rfl⟩) | ⟨_, rfl⟩) | ⟨_, rfl⟩) | ⟨_, rfl⟩) | rfl) | hf
  · exact (printable_formatTime _).inline
  · exact h.contentType
  · exact (printable_decimal _).inline
  · exact (printable_formatTime _).inline
  · unfold Inline
    decide
  · unfold Inline
    dsimp only
    split <;> decide
  · exact h.values f hf

theorem inline_statusLine (s : Status) : Inline (statusLine s) ∧ 58 ∉ statusLine s := by
  unfold Inline
  cases s <;> decide

/-- The lines of a header block. -/
theorem lines_buildHeaders (h : r.Clean) (time : Int) : lines (r.buildHeaders time) =
    statusLine r.status :: (r.fields time).map fieldText ++ [[], []] := by
  rw [buildHeaders_eq, lines_unlines]
  · simp
  · intro l hl
    simp only [List.cons_append, List.mem_cons, List.mem_append, List.mem_map, List.not_mem_nil,
      or_false] at hl
    rcases hl with rfl | ⟨f, hf, rfl⟩ | rfl
    · exact (inline_statusLine _).1
    · have hcolon : Inline (bytes ": ") := by
        unfold Inline
        decide
      exact inline_append (inline_append (fields_names h time f hf).2 hcolon)
        (fields_values h time f hf)
    · exact inline_nil

/-- The header block of a response has the values of its fields, and no others. -/
theorem fieldValues_buildHeaders (h : r.Clean) (time : Int) (hname : 58 ∉ name) :
    fieldValues name (r.buildHeaders time) =
      ((r.fields time).filter (·.1 = name)).map Prod.snd := by
  have hfields : ∀ fs : List (Bytes × Bytes), (∀ f ∈ fs, 58 ∉ f.1) →
      (fs.map fieldText).filterMap (valueOf name) = (fs.filter (·.1 = name)).map Prod.snd := by
    intro fs hfs
    induction fs with
    | nil => rfl
    | cons f fs ih =>
      have hrest := ih fun x hx => hfs x (List.mem_cons_of_mem _ hx)
      have hv := valueOf_fieldText hname (hfs f List.mem_cons_self)
      by_cases he : f.1 = name
      · rw [if_pos he] at hv
        simp [hv, hrest, he]
      · rw [if_neg he] at hv
        simp [hv, hrest, he]
  have hempty : valueOf name [] = none := valueOf_of_notMem List.not_mem_nil
  unfold fieldValues
  rw [lines_buildHeaders h, List.filterMap_append, List.filterMap_cons,
    valueOf_of_notMem (inline_statusLine _).2, hfields _ fun f hf => (fields_names h time f hf).1]
  simp [hempty]

theorem map_filter_ite (p : Prop) [Decidable p] (f : Bytes × Bytes) (name : Bytes) :
    ((if p then [f] else []).filter (·.1 = name)).map Prod.snd =
      if p ∧ f.1 = name then [f.2] else [] := by
  by_cases hp : p
  · by_cases hf : f.1 = name
    · simp [hp, hf]
    · simp [hp, hf]
  · simp [hp]

/-- The length field of a header block. -/
theorem contentLength_buildHeaders (h : r.Clean) (time : Int)
    (hr : ∀ f ∈ r.headers, f.1 ≠ bytes "Content-Length") :
    fieldValues (bytes "Content-Length") (r.buildHeaders time) =
      if r.status ≠ .notModified ∧ r.hasContentLength then [decimal r.contentLength] else [] := by
  have hcustom : r.headers.filter (·.1 = bytes "Content-Length") = [] := by
    apply List.filter_eq_nil_iff.2
    intro f hf
    simp [hr f hf]
  have hother : ∀ name ∈ [bytes "Date", bytes "Content-Type", bytes "Last-Modified",
      bytes "Accept-Ranges", bytes "Connection"], name ≠ bytes "Content-Length" := by decide
  simp only [List.forall_mem_cons] at hother
  obtain ⟨hd, ht, hm, ha, hc, _⟩ := hother
  rw [fieldValues_buildHeaders h time (by decide), fields]
  simp only [List.filter_append, List.map_append, map_filter_ite, hcustom, ht, hm, ha, and_false,
    and_true, List.filter_cons, hd, hc, decide_false, Bool.false_eq_true]
  simp

/-- A field that only the caller can have set. -/
theorem custom_buildHeaders (h : r.Clean) (time : Int) (hname : 58 ∉ name)
    (hother : name ∉ [bytes "Date", bytes "Content-Type", bytes "Content-Length",
      bytes "Last-Modified", bytes "Accept-Ranges", bytes "Connection"]) :
    fieldValues name (r.buildHeaders time) =
      (r.headers.filter (·.1 = name)).map Prod.snd := by
  simp only [List.mem_cons, List.not_mem_nil, or_false, not_or] at hother
  obtain ⟨hd, ht, hl, hm, ha, hc⟩ := hother
  rw [fieldValues_buildHeaders h time hname, fields]
  simp only [List.filter_append, List.map_append, map_filter_ite, Ne.symm ht, Ne.symm hl,
    Ne.symm hm, Ne.symm ha, and_false, List.filter_cons, Ne.symm hd, Ne.symm hc, decide_false,
    Bool.false_eq_true]
  simp

end HttpResponse

end FileWebServer
