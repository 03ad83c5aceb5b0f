import FileWebServer.Http.Request
import FileWebServer.Http.Fields

namespace FileWebServer
namespace HttpRequest
open Search
set_option autoImplicit true
set_option maxRecDepth 20000
variable {line raw rest : Bytes} {field : Bytes × Bytes}

/-- The name and value of a header line: the name ends at the first colon of the line. -/
def fieldOfLine (line : Bytes) : Option (Bytes × Bytes) :=
  (find (bytes ":") line).map fun colon =>
    ((line.take colon).map tolower, (line.drop (colon + 1)).dropWhile isBlank)

/-- The lines in front of the first empty one, the request line among them. -/
def blockLines (raw : Bytes) : List Bytes :=
  match find crlfcrlf raw with
  | none => []
  | some block => lines (raw.take block)

def requestLine (raw : Bytes) : Bytes := (blockLines raw).headD []

def headerLines (raw : Bytes) : List Bytes := (blockLines raw).tail

/-- The lines that `parse` gets to read: the loop ends at the last one, which has no CRLF behind it
in the header block, and no header is read behind a request line without two spaces. -/
def readLines (raw : Bytes) : List Bytes :=
  if 2 ≤ (requestLine raw).count space then (headerLines raw).dropLast else []

/-- Every header is that of a line, and its name has no colon in it. -/
structure HeadersOfLines (raw : Bytes) : Prop where
  lines : ∀ h ∈ (parse raw).2.headers, ∃ line ∈ headerLines raw, fieldOfLine line = some h
  names : ∀ h ∈ (parse raw).2.headers, 58 ∉ h.1

/-- The first colon of a line has a space behind it if any has. -/
def ColonFirst (line : Bytes) : Prop :=
  find (bytes ": ") line = none ∨ find (bytes ": ") line = find (bytes ":") line

theorem linesOf_ne_nil (fuel : Nat) (s : Bytes) : linesOf (fuel + 1) s ≠ [] := by
  unfold linesOf
  split
  · exact List.cons_ne_nil _ _
  · exact List.cons_ne_nil _ _

/-- The header loop reads line by line. -/
theorem headerLoop_eq {fuel fuel' : Nat} (hf : rest.length ≤ fuel) (hf' : rest.length < fuel') :
    headerLoop fuel rest = (linesOf fuel' rest).dropLast.filterMap headerOfLine := by
  induction fuel generalizing rest fuel' with
  | zero =>
    obtain rfl := List.eq_nil_of_length_eq_zero (Nat.le_zero.1 hf)
    obtain ⟨fuel', rfl⟩ := Nat.exists_eq_add_of_le' hf'
    rfl
  | succ fuel ih =>
    obtain ⟨fuel', rfl⟩ := Nat.exists_eq_add_of_le' (Nat.zero_lt_of_lt hf')
    unfold headerLoop linesOf
    split
    · next hnil =>
      subst hnil
      rfl
    · cases heol : find crlf rest with
      | none => rfl
      | some eol =>
        have hle := find_le_length heol
        have htwo : crlf.length = 2 := rfl
        have hdrop : (rest.drop (eol + 2)).length + 2 ≤ rest.length := by
          rw [List.length_drop]
          omega
        obtain ⟨fuel', rfl⟩ : ∃ n, fuel' = n + 1 := ⟨fuel' - 1, by omega⟩
        have hnext : headerLoop fuel (rest.drop (eol + 2)) =
            (linesOf (fuel' + 1) (rest.drop (eol + 2))).dropLast.filterMap headerOfLine :=
          ih (by omega) (by omega)
        dsimp only
        rw [hnext, List.dropLast_cons_of_ne_nil (linesOf_ne_nil _ _), List.filterMap_cons]
        cases headerOfLine (rest.take eol) with
        | none => rfl
        | some h => rfl

theorem find_singleton_eq_none {c : UInt8} {s : Bytes} (h : find [c] s = none) : s.count c = 0 := by
  rw [find_eq_none_iff, List.singleton_infix_iff] at h
  exact List.count_eq_zero.2 h

theorem find_singleton_eq_some {c : UInt8} {s : Bytes} {i : Nat} (h : find [c] s = some i) :
    s.count c = (s.drop (i + 1)).count c + 1 := by
  obtain ⟨hs, hc⟩ := find_singleton h
  have hbefore : (s.take i).count c = 0 := List.count_eq_zero.2 hc
  calc s.count c
      = (s.take i ++ c :: s.drop (i + 1)).count c := congrArg (List.count c) hs
    _ = (s.drop (i + 1)).count c + 1 := by
      rw [List.count_append, hbefore, List.count_cons_self, Nat.zero_add]

theorem readLines_of_block {l : Bytes} {ls : List Bytes} (h : blockLines raw = l :: ls) :
    readLines raw = if 2 ≤ l.count space then ls.dropLast else [] := by
  simp only [readLines, requestLine, headerLines, h]
  rfl

/-- The headers that `parse` stores, line by line. -/
theorem parse_headers (raw : Bytes) :
    (parse raw).2.headers = (readLines raw).filterMap headerOfLine := by
  unfold parse
  cases hblock : find crlfcrlf raw with
  | none =>
    have hlines : blockLines raw = [] := by rw [blockLines, hblock]
    simp only [readLines, requestLine, headerLines, hlines]
    rfl
  | some block =>
    dsimp only
    cases hline : find crlf (raw.take block) with
    | none =>
      have hlines : blockLines raw = [raw.take block] := by
        rw [blockLines, hblock]
        dsimp only
        rw [lines, linesOf, hline]
      rw [readLines_of_block hlines, List.dropLast_nil, ite_self]
      rfl
    | some eol =>
      have hlines : blockLines raw = (raw.take block).take eol ::
          linesOf (raw.take block).length ((raw.take block).drop (eol + 2)) := by
        rw [blockLines, hblock]
        dsimp only
        rw [lines, linesOf, hline]
      rw [readLines_of_block hlines]
      dsimp only
      cases hsp1 : find [space] ((raw.take block).take eol) with
      | none =>
        rw [find_singleton_eq_none hsp1]
        rfl
      | some sp1 =>
        rw [find_singleton_eq_some hsp1]
        dsimp only
        cases hsp2 : find [space] (((raw.take block).take eol).drop (sp1 + 1)) with
        | none =>
          rw [find_singleton_eq_none hsp2]
          rfl
        | some sp2 =>
          rw [find_singleton_eq_some hsp2, if_pos (by omega)]
          have hle := find_le_length hline
          have htwo : crlf.length = 2 := rfl
          apply headerLoop_eq
          · rw [List.length_drop]
            omega
          · rw [List.length_drop]
            omega

theorem mem_readLines (h : line ∈ readLines raw) : line ∈ headerLines raw := by
  unfold readLines at h
  split at h
  · exact List.dropLast_subset _ h
  · cases h

theorem headerOfLine_eq (h : ColonFirst line) : headerOfLine line = fieldOfLine line := by
  unfold headerOfLine fieldOfLine
  rcases h with h | h
  · rw [h, Option.none_or]
    cases find (bytes ":") line with
    | none => rfl
    | some colon => rfl
  · rw [h, Option.or_self]
    cases find (bytes ":") line with
    | none => rfl
    | some colon => rfl

theorem tolower_colon : ∀ c : UInt8, tolower c = 58 ↔ c = 58 := by decide

theorem colon_mem_tolower {s : Bytes} : 58 ∈ s.map tolower ↔ 58 ∈ s := by
  rw [List.mem_map]
  constructor
  · rintro ⟨c, hc, he⟩
    rwa [(tolower_colon c).1 he] at hc
  · exact fun h => ⟨58, h, rfl⟩

theorem fieldOfLine_name (h : fieldOfLine line = some field) : 58 ∉ field.1 := by
  obtain ⟨colon, hcolon, rfl⟩ := Option.map_eq_some_iff.1 h
  obtain ⟨_, hname⟩ := find_singleton hcolon
  exact mt colon_mem_tolower.1 hname

/-- A line whose first colon has no space behind it, while another has, is split at that one. -/
theorem headerOfLine_colon (h : ¬ ColonFirst line) :
    ∃ field, headerOfLine line = some field ∧ 58 ∈ field.1 := by
  obtain ⟨hsome, hne⟩ := not_or.1 h
  obtain ⟨colon, hcolon⟩ := Option.ne_none_iff_exists'.1 hsome
  obtain ⟨_, hhere, _⟩ := find_eq_some_iff.1 hcolon
  refine ⟨((line.take colon).map tolower, (line.drop (colon + 1)).dropWhile isBlank), ?_, ?_⟩
  · rw [headerOfLine, hcolon]
    rfl
  · rw [colon_mem_tolower]
    by_contra hnot
    -- otherwise the first colon of the line is this one
    apply hne
    obtain ⟨t, ht⟩ := hhere
    have hline : line.take colon ++ (58 :: [] ++ ([32] ++ t)) = line := by
      have hsplit : 58 :: [] ++ ([32] ++ t) = line.drop colon := ht
      rw [hsplit, List.take_append_drop]
    have hfirst : find [58] (line.take colon ++ (58 :: [] ++ ([32] ++ t))) =
        some (line.take colon).length := find_append_self hnot _
    rw [hline, List.length_take_of_le (find_eq_some_iff.1 hcolon).1] at hfirst
    exact hcolon.trans hfirst.symm

/-- For every buffer, the stored headers are those of the lines, each split at its first colon,
exactly when no line that is read has a colon before its first colon and space. -/
theorem headersOfLines_iff (raw : Bytes) :
    HeadersOfLines raw ↔ ∀ line ∈ readLines raw, ColonFirst line := by
  constructor
  · intro h line hline
    by_contra hnot
    obtain ⟨field, hfield, hcolon⟩ := headerOfLine_colon hnot
    apply h.names field _ hcolon
    rw [parse_headers]
    exact List.mem_filterMap.2 ⟨line, hline, hfield⟩
  · intro h
    have hof : ∀ field ∈ (parse raw).2.headers,
        ∃ line ∈ headerLines raw, fieldOfLine line = some field := by
      intro field hfield
      rw [parse_headers] at hfield
      obtain ⟨line, hline, he⟩ := List.mem_filterMap.1 hfield
      rw [headerOfLine_eq (h line hline)] at he
      exact ⟨line, mem_readLines hline, he⟩
    refine ⟨hof, fun field hfield => ?_⟩
    obtain ⟨line, _, he⟩ := hof field hfield
    exact fieldOfLine_name he

/-- The name of a header is read with a part of its value. -/
theorem colon_in_name :
    (parse (bytes "GET / HTTP/1.1\r\nHost:a: b\r\nAccept: c\r\n\r\n")).2.headers =
        [(bytes "host:a", bytes "b")] ∧
      fieldOfLine (bytes "Host:a: b") = some (bytes "host", bytes "a: b") ∧
      ¬ HeadersOfLines (bytes "GET / HTTP/1.1\r\nHost:a: b\r\nAccept: c\r\n\r\n") := by
  have hheaders : (parse (bytes "GET / HTTP/1.1\r\nHost:a: b\r\nAccept: c\r\n\r\n")).2.headers =
      [(bytes "host:a", bytes "b")] := by decide
  refine ⟨hheaders, by decide, fun h => ?_⟩
  have hname := h.names (bytes "host:a", bytes "b")
  rw [hheaders] at hname
  exact hname List.mem_cons_self (by decide)

end HttpRequest

end FileWebServer
