import FileWebServer.Http.MimeTypes

namespace FileWebServer
set_option autoImplicit true
variable {path ext : Bytes} {e : MimeEntry}

/-- The search of the table from its first entry on. -/
def linearMimeType (path : Bytes) : Bytes :=
  match mimeTable.find? fun e => extension path == some e.ext with
  | some e => e.mime
  | none => fallbackMime

theorem takeWhile_concat_dot {name : Bytes} (h : dot ∉ name) (rest : Bytes) :
    (name ++ dot :: rest).takeWhile (· ≠ dot) = name := by
  have hname : ∀ b ∈ name, decide (b ≠ dot) = true := by
    intro b hb
    exact decide_eq_true fun he => h (he ▸ hb)
  rw [List.takeWhile_append_of_pos hname, List.takeWhile_cons_of_neg (by simp), List.append_nil]

/-- The extension is the text from the last dot of the path on. -/
theorem extension_eq_some_iff : extension path = some ext ↔
    ext <:+ path ∧ ∃ name, ext = dot :: name ∧ dot ∉ name := by
  constructor
  · intro h
    unfold extension at h
    split at h
    · next hdot =>
      obtain ⟨name, stem, hrev, hname⟩ := List.eq_append_cons_of_mem (List.mem_reverse.2 hdot)
      rw [hrev, takeWhile_concat_dot hname] at h
      cases h
      refine ⟨⟨stem.reverse, ?_⟩, _, rfl, fun hmem => hname (List.mem_reverse.1 hmem)⟩
      rw [← List.reverse_inj, hrev]
      simp
    · cases h
  · rintro ⟨⟨stem, rfl⟩, name, rfl, hname⟩
    have hrev : (stem ++ dot :: name).reverse = name.reverse ++ dot :: stem.reverse := by simp
    rw [extension, if_pos (by simp), hrev, takeWhile_concat_dot (mt List.mem_reverse.1 hname),
      List.reverse_reverse]

/-- What the binary search finds for an extension. -/
def mimeOfExtension (ext : Bytes) : Bytes :=
  match mimeTable[lowerBound ext mimeTable.length 0 mimeTable.length]? with
  | some e => if e.ext = ext then e.mime else fallbackMime
  | none => fallbackMime

theorem detectMimeType_of_extension (h : extension path = some ext) :
    detectMimeType path = mimeOfExtension ext := by
  rw [detectMimeType, h]
  rfl

/-- Wherever the search ends, it ends at no entry for an extension that the table does not have. -/
theorem mimeOfExtension_of_absent (h : ∀ e ∈ mimeTable, e.ext ≠ ext) :
    mimeOfExtension ext = fallbackMime := by
  unfold mimeOfExtension
  split
  · next e he => exact if_neg (h e (List.mem_of_getElem? he))
  · rfl

/-- For the extensions of the table, the search ends at their entries, but for one: `.avif` stands
before `.avi`, which is less. -/
theorem mimeOfExtension_of_mem : ∀ e ∈ mimeTable,
    mimeOfExtension e.ext = if e.ext = bytes ".avi" then fallbackMime else e.mime := by
  decide

/-- No extension has two entries, and none has the type of the files without one. -/
theorem mimeTable_find : ∀ e ∈ mimeTable,
    mimeTable.find? (fun e' => some e.ext == some e'.ext) = some e ∧ e.mime ≠ fallbackMime := by
  decide

theorem linearMimeType_of_mem (he : e ∈ mimeTable) (h : extension path = some e.ext) :
    linearMimeType path = e.mime := by
  rw [linearMimeType, h, (mimeTable_find e he).1]

theorem linearMimeType_of_absent (h : ∀ e ∈ mimeTable, extension path ≠ some e.ext) :
    linearMimeType path = fallbackMime := by
  have hfind : mimeTable.find? (fun e => extension path == some e.ext) = none := by
    rw [List.find?_eq_none]
    intro e he
    simpa using h e he
  rw [linearMimeType, hfind]

theorem detectMimeType_of_absent (h : ∀ e ∈ mimeTable, extension path ≠ some e.ext) :
    detectMimeType path = fallbackMime := by
  cases hext : extension path with
  | none => rw [detectMimeType, hext]
  | some ext =>
    rw [detectMimeType_of_extension hext]
    apply mimeOfExtension_of_absent
    rintro e he rfl
    exact h e he hext

theorem avi_suffix_iff : bytes ".avi" <:+ path ↔ extension path = some (bytes ".avi") := by
  rw [extension_eq_some_iff]
  exact ⟨fun h => ⟨h, bytes "avi", rfl, by decide⟩, fun h => h.1⟩

/-- For every path, the binary search gives what a search of the whole table gives exactly when the
path does not end in `.avi`. -/
theorem detectMimeType_eq_linear_iff (path : Bytes) :
    detectMimeType path = linearMimeType path ↔ ¬ bytes ".avi" <:+ path := by
  rw [avi_suffix_iff]
  by_cases hmem : ∃ e ∈ mimeTable, extension path = some e.ext
  · obtain ⟨e, he, hext⟩ := hmem
    rw [detectMimeType_of_extension hext, mimeOfExtension_of_mem e he, linearMimeType_of_mem he hext,
      hext, Option.some_inj]
    split
    · next havi => exact ⟨fun h => ((mimeTable_find e he).2 h.symm).elim, fun h => (h havi).elim⟩
    · next havi => exact ⟨fun _ => havi, fun _ => rfl⟩
  · have habsent : ∀ e ∈ mimeTable, extension path ≠ some e.ext := by
      intro e he hext
      exact hmem ⟨e, he, hext⟩
    rw [detectMimeType_of_absent habsent, linearMimeType_of_absent habsent]
    exact ⟨fun _ => habsent (mimeEntry ".avi" "video/x-msvideo") (by decide), fun _ => rfl⟩

/-- A film is taken for unknown data, although the table has its type. -/
theorem avi_falls_back :
    detectMimeType (bytes "/srv/film.avi") = bytes "application/octet-stream" ∧
      mimeEntry ".avi" "video/x-msvideo" ∈ mimeTable ∧
      linearMimeType (bytes "/srv/film.avi") = bytes "video/x-msvideo" ∧
      detectMimeType (bytes "/srv/film.avi") ≠ linearMimeType (bytes "/srv/film.avi") := by
  decide

end FileWebServer
