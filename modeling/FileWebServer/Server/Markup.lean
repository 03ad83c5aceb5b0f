import FileWebServer.Server.FileServer

namespace FileWebServer
namespace FileServer
set_option autoImplicit true
set_option maxRecDepth 20000

/-- The characters that open and close tags and attributes. -/
def isMarkup (c : UInt8) : Bool := c == 60 || c == 62 || c == 34

/-- The markup of a page. -/
def markup (s : Bytes) : Bytes := s.filter isMarkup

@[simp] theorem markup_append (s t : Bytes) : markup (s ++ t) = markup s ++ markup t :=
  List.filter_append ..

theorem markup_eq_nil {s : Bytes} (h : ∀ c ∈ s, isMarkup c = false) : markup s = [] :=
  List.filter_eq_nil_iff.2 fun c hc => by simp [h c hc]

theorem markup_flatMap (f : α → Bytes) (l : List α) :
    markup (l.flatMap f) = l.flatMap fun a => markup (f a) := by
  induction l with
  | nil => rfl
  | cons a l ih => rw [List.flatMap_cons, markup_append, ih, List.flatMap_cons]

theorem markup_flatMap_nil {f : UInt8 → Bytes} (h : ∀ c, markup (f c) = []) (s : Bytes) :
    markup (s.flatMap f) = [] := by
  rw [markup_flatMap]
  exact List.flatMap_eq_nil_iff.2 fun c _ => h c

/-- No byte of an escaped text is markup. -/
@[simp] theorem markup_htmlEscape (s : Bytes) : markup (htmlEscape s) = [] := by
  refine markup_flatMap_nil (fun c => ?_) s
  unfold escapeChar
  split
  · decide
  · split
    · decide
    · split
      · decide
      · split
        · decide
        · split
          · decide
          · next hlt hgt hquot _ =>
            refine markup_eq_nil fun d hd => ?_
            rw [List.mem_singleton.1 hd]
            simp [isMarkup, hlt, hgt, hquot]

theorem isMarkup_hexUpper {n : UInt8} (h : n < 16) : isMarkup (hexUpper n) = false := by
  revert n
  decide

theorem isMarkup_of_kept {c : UInt8}
    (h : isalnum c ∨ c = 45 ∨ c = 95 ∨ c = dot ∨ c = 126 ∨ c = slash) : isMarkup c = false := by
  revert c
  decide

/-- No byte of an encoded name is markup. -/
@[simp] theorem markup_urlEncodePath (s : Bytes) : markup (urlEncodePath s) = [] := by
  refine markup_flatMap_nil (fun c => ?_) s
  unfold encodeChar
  split
  · next hkept =>
    refine markup_eq_nil fun d hd => ?_
    rw [List.mem_singleton.1 hd]
    exact isMarkup_of_kept hkept
  · split
    · decide
    · have hhigh : c >>> 4 < 16 := by
        revert c
        decide
      have hlow : c &&& 15 < 16 := by
        revert c
        decide
      refine markup_eq_nil fun d hd => ?_
      simp only [List.mem_cons, List.not_mem_nil, or_false] at hd
      rcases hd with rfl | rfl | rfl
      · rfl
      · exact isMarkup_hexUpper hhigh
      · exact isMarkup_hexUpper hlow

theorem isMarkup_digit : ∀ b : UInt8, 48 ≤ b → b ≤ 57 → isMarkup b = false := by decide

@[simp] theorem markup_decimal (n : Nat) : markup (decimal n) = [] :=
  markup_eq_nil fun b hb => isMarkup_digit b (mem_decimal hb).1 (mem_decimal hb).2

@[simp] theorem markup_decimalInt (n : Int) : markup (decimalInt n) = [] := by
  unfold decimalInt
  split
  · rw [markup_append, markup_decimal]
    rfl
  · exact markup_decimal _

@[simp] theorem markup_zeroPadded (w : Nat) (n : Int) : markup (zeroPadded w n) = [] := by
  have hzeros : ∀ k, markup (List.replicate k 48) = [] := fun k =>
    markup_eq_nil fun c hc => by
      rw [List.eq_of_mem_replicate hc]
      rfl
  unfold zeroPadded
  dsimp only
  split
  · simp only [markup_append, hzeros, markup_decimal]
    rfl
  · simp only [markup_append, hzeros, markup_decimal]
    rfl

@[simp] theorem markup_formatSize (size : Int) : markup (formatSize size) = [] := by
  have hone : ∀ unit, markup (oneDecimal size unit) = [] := by
    intro unit
    simp only [oneDecimal, markup_append, markup_decimal]
    rfl
  unfold formatSize
  split
  · rw [markup_append, markup_decimalInt]
    rfl
  · split
    · rw [markup_append, hone]
      rfl
    · split
      · rw [markup_append, hone]
        rfl
      · rw [markup_append, hone]
        rfl

@[simp] theorem markup_formatLocalTime (libc : Libc) (t : Int) :
    markup (formatLocalTime libc t) = [] := by
  simp only [formatLocalTime, markup_append, markup_zeroPadded]
  rfl

/-- The markup of a link is that of the request path, where the page is not below the root page. -/
theorem markup_entryHref (path : Bytes) (showParent : Bool) (e : DirEntry) :
    markup (entryHref path showParent e) = if showParent then [] else markup path := by
  have hname : markup (if showParent = true then urlEncodePath e.name
      else if path.getLast? = some slash then path ++ urlEncodePath e.name
      else path ++ [slash] ++ urlEncodePath e.name) = if showParent then [] else markup path := by
    cases showParent with
    | true => exact markup_urlEncodePath _
    | false =>
      simp only [Bool.false_eq_true, if_false]
      split
      · rw [markup_append, markup_urlEncodePath, List.append_nil]
      · simp only [markup_append, markup_urlEncodePath, List.append_nil]
        exact List.append_nil _
  unfold entryHref
  dsimp only
  split
  · rw [markup_append, hname]
    exact List.append_nil _
  · exact hname

/-- The markup of a row of the listing, around that of the link in it. -/
def rowMarkup (link : Bytes) (isDirectory : Bool) : Bytes :=
  markup (bytes "<tr>\n<td class=\"name\"><a href=\"") ++ link ++ markup (bytes "\">" ++
    (if isDirectory then bytes "<span class=\"icon-dir\">&#x1F4C2;</span> "
      else bytes "<span class=\"icon-file\">&#x1F4C4;</span> ") ++ bytes "</a></td>\n" ++
    bytes "<td class=\"size\">" ++ bytes "</td>\n" ++ bytes "<td class=\"date\">" ++
    bytes "</td>\n</tr>\n")

theorem markup_entryRow (libc : Libc) (path : Bytes) (showParent : Bool) (e : DirEntry) :
    markup (entryRow libc path showParent e) =
      rowMarkup (if showParent then [] else markup path) e.isDirectory := by
  have hslash : markup (if e.isDirectory then [slash] else []) = [] := by
    split <;> rfl
  have hsize : markup (if e.isDirectory then bytes "-" else formatSize e.size) = [] := by
    split
    · rfl
    · exact markup_formatSize _
  simp only [entryRow, rowMarkup, markup_append, markup_entryHref, markup_htmlEscape, hslash,
    hsize, markup_formatLocalTime, List.nil_append, List.append_assoc]

/-- The markup of a page is that of its rows between two fixed parts. -/
theorem markup_page (showParent : Bool) : ∃ top bottom, ∀ libc path entries,
    markup (buildDirectoryHtml libc path entries showParent) =
      top ++ ((entries.map (·.isDirectory)).flatMap
        (rowMarkup (if showParent then [] else markup path)) ++ bottom) := by
  refine ⟨markup (bytes "<!DOCTYPE html>\n<html lang=\"zh-CN\">\n<head>\n" ++
    bytes "<meta charset=\"utf-8\">\n" ++
    bytes "<meta name=\"viewport\" content=\"width=device-width, initial-scale=1\">\n" ++
    bytes "<title>Index of " ++ bytes "</title>\n<style>\n" ++ css ++
    bytes "</style>\n</head>\n<body>\n<div class=\"container\">\n" ++
    bytes "<h1><span class=\"icon\">&#x1F4C1;</span> Index of " ++
    bytes "</h1>\n<table>\n<thead>\n<tr>" ++
    bytes "<th>Name</th><th class=\"size\">Size</th><th class=\"date\">Modified</th>" ++
    bytes "</tr>\n</thead>\n<tbody>\n" ++ (if showParent then parentRow else [])),
    markup (bytes "</tbody>\n</table>\n" ++ bytes "<footer>web_server_cpp/1.0</footer>\n" ++
      bytes "</div>\n</body>\n</html>"), fun libc path entries => ?_⟩
  have hrows : markup (entries.flatMap (entryRow libc path showParent)) =
      (entries.map (·.isDirectory)).flatMap
        (rowMarkup (if showParent then [] else markup path)) := by
    rw [markup_flatMap, List.flatMap_map]
    simp only [markup_entryRow]
  simp only [buildDirectoryHtml, markup_append, markup_htmlEscape, hrows, List.nil_append,
    List.append_assoc]

/-- Rows that are alike but for the markup in their links are told apart by it. -/
theorem rows_inj {flags : List Bool} {m m' : Bytes} (hne : flags ≠ [])
    (h : flags.flatMap (rowMarkup m) = flags.flatMap (rowMarkup m')) : m = m' := by
  have hlen : ∀ (m : Bytes) (flags : List Bool), (flags.flatMap (rowMarkup m)).length =
      flags.length * m.length + (flags.flatMap (rowMarkup [])).length := by
    intro m flags
    induction flags with
    | nil => simp
    | cons f flags ih =>
      simp only [List.flatMap_cons, List.length_append, ih, rowMarkup, List.length_cons,
        List.length_nil]
      ring
  have hle := congrArg List.length h
  rw [hlen, hlen m'] at hle
  obtain ⟨f, flags, rfl⟩ := List.exists_cons_of_ne_nil hne
  have hmlen : m.length = m'.length :=
    Nat.eq_of_mul_eq_mul_left (List.length_pos_of_ne_nil hne) (Nat.add_right_cancel hle)
  simp only [List.flatMap_cons, rowMarkup, List.append_assoc] at h
  exact (List.append_inj (List.append_cancel_left h) hmlen).1

/-- Two pages with the same rows of directories and files have the same markup exactly when they
are below the root page, have no rows, or the request paths bring the same markup. -/
theorem markup_eq_iff (libc libc' : Libc) (path path' : Bytes) (entries entries' : List DirEntry)
    (showParent : Bool)
    (hflags : entries.map (·.isDirectory) = entries'.map (·.isDirectory)) :
    markup (buildDirectoryHtml libc path entries showParent) =
        markup (buildDirectoryHtml libc' path' entries' showParent) ↔
      showParent = true ∨ entries = [] ∨ markup path = markup path' := by
  obtain ⟨top, bottom, hpage⟩ := markup_page showParent
  rw [hpage, hpage, ← hflags, List.append_cancel_left_eq, List.append_cancel_right_eq]
  cases showParent with
  | true => exact iff_of_true rfl (.inl rfl)
  | false =>
    simp only [Bool.false_eq_true, if_false, false_or]
    constructor
    · intro h
      by_cases hnil : entries = []
      · exact .inl hnil
      · exact .inr (rows_inj (mt List.map_eq_nil_iff.1 hnil) h)
    · rintro (rfl | h)
      · rfl
      · rw [h]

theorem markup_eq_iff_names :
    markup (buildDirectoryHtml .utc (bytes "/a<b") [⟨bytes "\"><i>", false, 1, 2⟩] true) =
        markup (buildDirectoryHtml .utc (bytes "/") [⟨bytes "x", false, 3, 4⟩] true) ↔
      true = true ∨ [DirEntry.mk (bytes "\"><i>") false 1 2] = [] ∨
        markup (bytes "/a<b") = markup (bytes "/") :=
  markup_eq_iff _ _ _ _ _ _ _ (by decide)

/-- A path that stands for the root page puts a tag into its links. -/
theorem root_page_takes_markup :
    normalize (bytes "/\"><b>/..") = [slash] ∧
      markup (buildDirectoryHtml .utc (bytes "/\"><b>/..") [⟨bytes "x", false, 1, 2⟩] false) ≠
        markup (buildDirectoryHtml .utc (bytes "/") [⟨bytes "x", false, 1, 2⟩] false) := by
  constructor
  · decide
  · intro h
    obtain ⟨top, bottom, hpage⟩ := markup_page false
    rw [hpage, hpage] at h
    have hrows := List.append_cancel_right (List.append_cancel_left h)
    have hlink : markup (bytes "/\"><b>/..") = markup (bytes "/") :=
      rows_inj (List.cons_ne_nil false []) hrows
    revert hlink
    decide

end FileServer

end FileWebServer
