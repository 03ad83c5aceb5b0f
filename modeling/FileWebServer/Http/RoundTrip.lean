import FileWebServer.Http.Request

namespace FileWebServer
open Search
set_option autoImplicit true

/-- A request-line field: no space, CR or LF. -/
structure IsToken (t : Bytes) : Prop where
  space : space ∉ t
  cr : 13 ∉ t
  lf : 10 ∉ t

/-- A header as clients write it. -/
structure IsHeader (h : Bytes × Bytes) : Prop where
  name_ne_nil : h.1 ≠ []
  colon : 58 ∉ h.1
  name_cr : 13 ∉ h.1
  name_lf : 10 ∉ h.1
  value_cr : 13 ∉ h.2
  value_lf : 10 ∉ h.2
  value_head : h.2.head?.any HttpRequest.isBlank = false

def headerText (h : Bytes × Bytes) : Bytes := h.1 ++ bytes ": " ++ h.2

def requestLineText (method path version : Bytes) : Bytes :=
  method ++ [space] ++ path ++ [space] ++ version

/-- A request head as clients write it. -/
def requestText (method path version : Bytes) (hs : List (Bytes × Bytes)) : Bytes :=
  requestLineText method path version ++ crlf ++ hs.flatMap (fun h => headerText h ++ crlf) ++ crlf

def lowerName (h : Bytes × Bytes) : Bytes × Bytes := (h.1.map tolower, h.2)

/-- Parsing a written request gives back what was written, whatever bytes come after it. -/
structure Recovers (m p v : Bytes) (hs : List (Bytes × Bytes)) (rest : Bytes) : Prop where
  accepted : (HttpRequest.parse (requestText m p v hs ++ rest)).1 = true
  method : (HttpRequest.parse (requestText m p v hs ++ rest)).2.rawMethod = m
  path : (HttpRequest.parse (requestText m p v hs ++ rest)).2.path = p
  version : (HttpRequest.parse (requestText m p v hs ++ rest)).2.version = v
  headers : (HttpRequest.parse (requestText m p v hs ++ rest)).2.headers = hs.map lowerName
  lookup : ∀ n : Bytes,
    (HttpRequest.parse (requestText m p v hs ++ rest)).2.header (n.map tolower) =
      ((hs.find? fun h => h.1.map tolower == n.map tolower).map Prod.snd).getD []

/-- A line that can stand in a header block: it is not empty and has no CR. -/
def IsLine (l : Bytes) : Prop := l ≠ [] ∧ 13 ∉ l

theorem IsHeader.isLine (h : IsHeader x) : IsLine (headerText x) := by
  constructor
  · simp only [headerText, ne_eq, List.append_eq_nil_iff, not_and]
    intro hn
    exact (h.name_ne_nil hn.1).elim
  · have hsep : (13 : UInt8) ∉ bytes ": " := by decide
    simp only [headerText, List.mem_append, not_or]
    exact ⟨⟨h.name_cr, hsep⟩, h.value_cr⟩

theorem requestLineText_isLine (hm : IsToken m) (hp : IsToken p) (hv : IsToken v) :
    IsLine (requestLineText m p v) := by
  constructor
  · simp [requestLineText]
  · have hsp : (13 : UInt8) ≠ space := by decide
    simp only [requestLineText, List.mem_append, List.mem_singleton, not_or]
    exact ⟨⟨⟨⟨hm.cr, hsp⟩, hp.cr⟩, hsp⟩, hv.cr⟩

/-- Lines joined by CRLF: what `parse` calls the header block. -/
def block : List Bytes → Bytes
  | [] => []
  | [l] => l
  | l :: ls => l ++ crlf ++ block ls

theorem block_cons (l : Bytes) (h : ls ≠ []) : block (l :: ls) = l ++ (crlf ++ block ls) := by
  cases ls with
  | nil => exact (h rfl).elim
  | cons => rw [block, List.append_assoc]; exact List.cons_ne_nil _ _

theorem block_ne_nil (h : ∀ l ∈ ls, IsLine l) (hne : ls ≠ []) : block ls ≠ [] := by
  cases ls with
  | nil => exact (hne rfl).elim
  | cons l ls =>
    have hl := (h l List.mem_cons_self).1
    cases ls with
    | nil => exact hl
    | cons => rw [block_cons _ (List.cons_ne_nil _ _)]; simp [hl]

theorem block_head (h : ∀ l ∈ ls, IsLine l) (hne : ls ≠ []) (t : Bytes) :
    ∃ c u, block ls ++ t = c :: u ∧ c ≠ 13 := by
  cases ls with
  | nil => exact (hne rfl).elim
  | cons l ls =>
    obtain ⟨hl, hcr⟩ := h l List.mem_cons_self
    cases l with
    | nil => exact (hl rfl).elim
    | cons c u =>
      have hc : c ≠ 13 := fun he => hcr (he ▸ List.mem_cons_self)
      cases ls with
      | nil => exact ⟨c, u ++ t, rfl, hc⟩
      | cons => exact ⟨c, _, by rw [block_cons _ (List.cons_ne_nil _ _)]; rfl, hc⟩

/-- The first CRLFCRLF is the one behind the last line. -/
theorem find_crlfcrlf_block (h : ∀ l ∈ ls, IsLine l) (hne : ls ≠ []) (t : Bytes) :
    find crlfcrlf (block ls ++ (crlfcrlf ++ t)) = some (block ls).length := by
  induction ls with
  | nil => exact (hne rfl).elim
  | cons l ls ih =>
    have hl := h l List.mem_cons_self
    by_cases hls : ls = []
    · subst hls
      exact find_append_self hl.2 t
    · have ht : ∀ l ∈ ls, IsLine l := fun x hx => h x (List.mem_cons_of_mem _ hx)
      obtain ⟨c, u, hu, hc⟩ := block_head ht hls (crlfcrlf ++ t)
      have hcr : ¬ crlfcrlf <+: 13 :: 10 :: c :: u := by
        simp only [crlfcrlf, List.cons_prefix_cons, true_and, not_and]
        exact fun he => (hc he.symm).elim
      have hlf : ¬ crlfcrlf <+: 10 :: c :: u := by
        simp [crlfcrlf, List.cons_prefix_cons]
      rw [block_cons l hls, List.append_assoc, List.append_assoc,
        show crlfcrlf = 13 :: [10, 13, 10] from rfl, find_append_of_notMem hl.2]
      change Option.map _ (find crlfcrlf (13 :: 10 :: (block ls ++ (crlfcrlf ++ t)))) = _
      rw [hu, find_cons, if_neg hcr, find_cons, if_neg hlf, ← hu, ih ht hls]
      simp only [Option.map_some, List.length_append, crlf, List.length_cons, List.length_nil]
      congr 1
      omega

theorem find_crlf_block_cons (h : IsLine l) (hls : ls ≠ []) :
    find crlf (block (l :: ls)) = some l.length := by
  rw [block_cons l hls]
  exact find_append_self h.2 _

theorem block_drop (hls : ls ≠ []) : (block (l :: ls)).drop (l.length + 2) = block ls := by
  rw [block_cons l hls, ← List.append_assoc]
  exact List.drop_left' (by simp [crlf])

theorem length_le_block (h : ∀ l ∈ l₀ :: ls, IsLine l) :
    ls.length ≤ (block (l₀ :: ls)).length := by
  induction ls generalizing l₀ with
  | nil => exact Nat.zero_le _
  | cons l ls ih =>
    have hi := ih fun x hx => h x (List.mem_cons_of_mem _ hx)
    have hl := List.length_pos_of_ne_nil (h l₀ List.mem_cons_self).1
    rw [block_cons l₀ (List.cons_ne_nil _ _)]
    simp only [List.length_append, List.length_cons]
    omega

namespace HttpRequest

theorem headerLoop_singleton (h : IsLine l) : headerLoop fuel l = [] := by
  cases fuel with
  | zero => rfl
  | succ fuel =>
    have hf : find crlf l = none := find_none_of_notMem h.2
    rw [headerLoop, if_neg h.1, hf]

/-- The loop reads every line of the block but the last, which no CRLF ends. -/
theorem headerLoop_block (h : ∀ l ∈ ls, IsLine l) (hf : ls.length ≤ fuel) :
    headerLoop fuel (block ls) = ls.dropLast.filterMap headerOfLine := by
  induction ls generalizing fuel with
  | nil => cases fuel <;> rfl
  | cons l ls ih =>
    have hl := h l List.mem_cons_self
    by_cases hls : ls = []
    · subst hls
      exact headerLoop_singleton hl
    · have ht : ∀ l ∈ ls, IsLine l := fun x hx => h x (List.mem_cons_of_mem _ hx)
      cases fuel with
      | zero => simp at hf
      | succ fuel =>
        have hne : block (l :: ls) ≠ [] := block_ne_nil h (List.cons_ne_nil _ _)
        have htake : (block (l :: ls)).take l.length = l := by
          rw [block_cons l hls]
          exact List.take_left
        rw [headerLoop, if_neg hne, find_crlf_block_cons hl hls]
        simp only [htake, block_drop hls]
        rw [ih ht (by simpa using hf), List.dropLast_cons_of_ne_nil hls]
        cases hh : headerOfLine l with
        | none => simp [hh]
        | some x => simp [hh]

theorem headerOfLine_headerText (h : IsHeader x) : headerOfLine (headerText x) =
    some (lowerName x) := by
  have hfind : find (bytes ": ") (headerText x) = some x.1.length := by
    rw [headerText, List.append_assoc]
    exact find_append_self h.colon _
  have htake : (headerText x).take x.1.length = x.1 := by
    rw [headerText, List.append_assoc]
    exact List.take_left
  have hdrop : (headerText x).drop (x.1.length + 1) = space :: x.2 := by
    rw [headerText, show bytes ": " = [58] ++ [space] from rfl, ← List.append_assoc,
      List.append_assoc (x.1 ++ [58])]
    exact List.drop_left' (by simp)
  have hvalue : x.2.dropWhile isBlank = x.2 := by
    cases hv : x.2 with
    | nil => rfl
    | cons c u =>
      have hc := h.value_head
      rw [hv] at hc
      rw [List.dropWhile_cons, show isBlank c = false from hc]
      rfl
  rw [headerOfLine, hfind]
  simp only [Option.some_or, htake, hdrop, lowerName, Option.some.injEq, Prod.mk.injEq, true_and]
  exact hvalue

end HttpRequest

theorem filterMap_headerText {hs : List (Bytes × Bytes)} (h : ∀ x ∈ hs, IsHeader x) :
    (hs.map headerText).filterMap HttpRequest.headerOfLine = hs.map lowerName := by
  induction hs with
  | nil => rfl
  | cons x hs ih =>
    have hx := HttpRequest.headerOfLine_headerText (h x List.mem_cons_self)
    rw [List.map_cons, List.filterMap_cons, hx, List.map_cons,
      ih fun y hy => h y (List.mem_cons_of_mem _ hy)]

theorem requestText_eq (m p v : Bytes) (hs : List (Bytes × Bytes)) (rest : Bytes) :
    requestText m p v hs ++ rest =
      block (requestLineText m p v :: hs.map headerText) ++ (crlfcrlf ++ rest) := by
  have hblock (l : Bytes) (hs : List (Bytes × Bytes)) :
      l ++ crlf ++ hs.flatMap (fun h => headerText h ++ crlf) =
        block (l :: hs.map headerText) ++ crlf := by
    induction hs generalizing l with
    | nil => simp [block]
    | cons h hs ih =>
      rw [List.map_cons, block_cons _ (List.cons_ne_nil _ _), List.flatMap_cons,
        ← List.append_assoc, List.append_assoc (l ++ crlf), ← List.append_assoc (l ++ crlf),
        List.append_assoc (l ++ crlf), ih]
      simp only [List.append_assoc]
  rw [requestText, hblock]
  simp only [List.append_assoc]
  rfl

theorem find_space_token (h : IsToken t) (u : Bytes) :
    find [space] (t ++ ([space] ++ u)) = some t.length :=
  find_append_self h.space u

/-- Without headers the block has no line end at all, and the request is refused. -/
theorem parse_requestText_nil (hm : IsToken m) (hp : IsToken p) (hv : IsToken v) (rest : Bytes) :
    HttpRequest.parse (requestText m p v [] ++ rest) = (false, .reset) := by
  have hl := requestLineText_isLine hm hp hv
  have hfind : find crlfcrlf (requestText m p v [] ++ rest) =
      some (requestLineText m p v).length := by
    rw [requestText_eq]
    have hlines : ∀ l ∈ [requestLineText m p v], IsLine l := by simpa using hl
    exact find_crlfcrlf_block hlines (List.cons_ne_nil _ _) rest
  have hblock : (requestText m p v [] ++ rest).take (requestLineText m p v).length =
      requestLineText m p v := by
    rw [requestText_eq]
    exact List.take_left
  have hnone : find crlf (requestLineText m p v) = none := find_none_of_notMem hl.2
  rw [HttpRequest.parse, hfind]
  simp only [hblock, hnone]

/-- With headers the request is accepted, and all of them are stored but the last. -/
theorem parse_requestText (hm : IsToken m) (hp : IsToken p) (hv : IsToken v)
    (hh : ∀ h ∈ hs, IsHeader h) (hne : hs ≠ []) (rest : Bytes) :
    HttpRequest.parse (requestText m p v hs ++ rest) =
      (true, { method := HttpRequest.methodOf m, rawMethod := m, path := p, version := v,
               headers := hs.dropLast.map lowerName }) := by
  have hl := requestLineText_isLine hm hp hv
  have htexts : ∀ l ∈ hs.map headerText, IsLine l := by
    intro l hl
    obtain ⟨h, hmem, rfl⟩ := List.mem_map.1 hl
    exact (hh h hmem).isLine
  have hlines : ∀ l ∈ requestLineText m p v :: hs.map headerText, IsLine l := by
    intro l hmem
    rcases List.mem_cons.1 hmem with rfl | hmem
    · exact hl
    · exact htexts l hmem
  have htne : hs.map headerText ≠ [] := by simpa using hne
  have hfind := find_crlfcrlf_block hlines (List.cons_ne_nil _ _) rest
  have hline : (block (requestLineText m p v :: hs.map headerText)).take
      (requestLineText m p v).length = requestLineText m p v := by
    rw [block_cons _ htne]
    exact List.take_left
  have hsp1 : find [space] (requestLineText m p v) = some m.length := by
    simp only [requestLineText, List.append_assoc]
    exact find_space_token hm _
  have hmethod : (requestLineText m p v).take m.length = m := by
    simp only [requestLineText, List.append_assoc]
    exact List.take_left
  have hrest : (requestLineText m p v).drop (m.length + 1) = p ++ ([space] ++ v) := by
    simp only [requestLineText, List.append_assoc]
    rw [← List.append_assoc]
    exact List.drop_left' (by simp)
  have hversion : (p ++ ([space] ++ v)).drop (p.length + 1) = v := by
    rw [← List.append_assoc]
    exact List.drop_left' (by simp)
  have hloop : HttpRequest.headerLoop
      (block (requestLineText m p v :: hs.map headerText)).length (block (hs.map headerText)) =
        hs.dropLast.map lowerName := by
    rw [HttpRequest.headerLoop_block htexts (length_le_block hlines), ← List.map_dropLast]
    exact filterMap_headerText fun h hmem => hh h (List.mem_of_mem_dropLast hmem)
  rw [requestText_eq, HttpRequest.parse, hfind]
  simp only [List.take_left, find_crlf_block_cons hl htne, hline, hsp1, hmethod, hrest,
    find_space_token hp, hversion, block_drop htne, hloop]

/-- No written request is recovered: its last header is lost, or the request is refused. -/
theorem requestText_not_recovered (m p v : Bytes) (hs : List (Bytes × Bytes)) (rest : Bytes)
    (hm : IsToken m) (hp : IsToken p) (hv : IsToken v) (hh : ∀ h ∈ hs, IsHeader h) :
    ¬ Recovers m p v hs rest := by
  intro hr
  by_cases hne : hs = []
  · subst hne
    have ha := hr.accepted
    rw [parse_requestText_nil hm hp hv] at ha
    exact Bool.false_ne_true ha
  · have hl := congrArg List.length hr.headers
    rw [parse_requestText hm hp hv hh hne] at hl
    simp only [List.length_map, List.length_dropLast] at hl
    have hpos := List.length_pos_of_ne_nil hne
    omega

/-- A request for the root page with the one header that HTTP/1.1 demands. -/
theorem requestText_host_not_recovered :
    ¬ Recovers (bytes "GET") (bytes "/") (bytes "HTTP/1.1") [(bytes "Host", bytes "a")] [] := by
  intro hr
  exact absurd hr.headers (by decide)

theorem requestText_two_not_recovered :
    ¬ Recovers (bytes "GET") (bytes "/a") (bytes "HTTP/1.1")
      [(bytes "Host", bytes "a"), (bytes "Range", bytes "bytes=0-1")] (bytes "x") := by
  apply requestText_not_recovered
  · exact ⟨by decide, by decide, by decide⟩
  · exact ⟨by decide, by decide, by decide⟩
  · exact ⟨by decide, by decide, by decide⟩
  · intro h hmem
    rcases List.mem_cons.1 hmem with rfl | hmem
    · exact ⟨by decide, by decide, by decide, by decide, by decide, by decide, by decide⟩
    · rw [List.mem_singleton.1 hmem]
      exact ⟨by decide, by decide, by decide, by decide, by decide, by decide, by decide⟩

end FileWebServer
