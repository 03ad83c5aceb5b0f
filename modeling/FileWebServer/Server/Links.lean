import FileWebServer.Server.Names

namespace FileWebServer
namespace FileServer
open UriReference (Reference IsDir PathOnly IsPlainName behind)
set_option autoImplicit true
set_option maxRecDepth 20000

/-- An entry name as a listing shows it, without control characters. -/
structure EntryName (name : Bytes) : Prop where
  nonempty : name ≠ []
  whole : slash ∉ name
  visible : name.head? ≠ some dot
  printable : ∀ b ∈ name, 32 ≤ b ∧ b ≠ 127

/-- The link that the page of a request path has for an entry. -/
def entryLink (path : Bytes) (e : DirEntry) : Bytes := entryHref path (normalize path ≠ [slash]) e

/-- The page that a request path stands for on a host. -/
def page (host path : Bytes) : Reference :=
  UriReference.ofPath (some (bytes "http")) (some host) path

/-- The target of an entry's link, for a client that has fetched the page from a host. -/
def target (host path : Bytes) (e : DirEntry) : Reference :=
  UriReference.resolve (page host path) (UriReference.parse (entryLink path e))

/-- The link stays on the host, and the path that it leads to is that of the entry. -/
def LinkLeads (path : Bytes) (e : DirEntry) : Prop :=
  ∀ host, (target host path e).authority = some host ∧
    normalize (target host path e).path = child (normalize path) e.name

/-- What stands before the name in the links of a page. -/
def linkPrefix (path : Bytes) : Bytes :=
  if normalize path ≠ [slash] then []
  else if path.getLast? = some slash then path
  else path ++ [slash]

def linkEnd (e : DirEntry) : Bytes := if e.isDirectory then [slash] else []

/-- The path that the links of a page are met at, with its dot segments. -/
def linkBase (path : Bytes) : Bytes := UriReference.stem (page [] path) (linkPrefix path)

/-- The page's links begin where the page is. -/
structure LinksHold (path : Bytes) : Prop where
  pathOnly : PathOnly (linkPrefix path)
  here : normalize (UriReference.removeDotSegments (linkBase path)) = normalize path

variable {path name dir s t d : Bytes} {e : DirEntry}

theorem EntryName.isSegment (h : EntryName name) : IsSegment name := by
  have hall : ∀ b : UInt8, 32 ≤ b → b ≠ 0 ∧ (32 ≤ b ∨ b = tab) := by decide
  exact ⟨⟨h.nonempty, h.whole, fun b hb => hall b (h.printable b hb).1⟩, h.visible⟩

theorem child_injective : Function.Injective (child d) := by
  intro a b h
  exact (List.cons.inj (List.append_cancel_left h)).2

theorem child_dir_injective {d' : Bytes} (hd : d ≠ []) (hd' : d' ≠ [])
    (h : child d name = child d' name) : d = d' := by
  have hpre := List.append_cancel_right h
  split at hpre
  · next hroot =>
    split at hpre
    · next hroot' => rw [hroot, hroot']
    · exact (hd' hpre.symm).elim
  · split at hpre
    · exact (hd hpre).elim
    · exact hpre

theorem endsScheme_encodeChar {c d : UInt8} (hc : c ≠ slash) (hd : d ∈ encodeChar c) :
    UriReference.endsScheme d = false := by
  have hall : ∀ c : UInt8, c ≠ slash → (encodeChar c).all fun d => !UriReference.endsScheme d := by
    decide
  have hends := List.all_eq_true.1 (hall c hc) d hd
  simpa using hends

/-- An encoded name stands in a reference as one name. -/
theorem EntryName.isPlainName (h : EntryName name) : IsPlainName (urlEncodePath name) := by
  have hplain : ∀ d ∈ urlEncodePath name, UriReference.endsScheme d = false := by
    intro d hd
    obtain ⟨c, hc, hdc⟩ := List.mem_flatMap.1 hd
    exact endsScheme_encodeChar (fun he => h.whole (he ▸ hc)) hdc
  have hhead : ∀ c : UInt8, c ≠ dot → encodeChar c ≠ [] ∧ (encodeChar c).head? ≠ some dot := by
    decide
  obtain ⟨c, cs, rfl⟩ := List.exists_cons_of_ne_nil h.nonempty
  have hcons : urlEncodePath (c :: cs) = encodeChar c ++ urlEncodePath cs := List.flatMap_cons
  obtain ⟨hne, hdot⟩ := hhead c fun he => h.visible (congrArg some he)
  have hnot : (urlEncodePath (c :: cs)).head? ≠ some dot := by
    rw [hcons, List.head?_append_of_ne_nil _ hne]
    exact hdot
  refine ⟨⟨?_, ?_, ?_, ?_⟩, hplain⟩
  · rw [hcons]
    exact List.append_ne_nil_of_left_ne_nil hne _
  · intro hmem
    exact absurd (hplain _ hmem) (by decide)
  · intro he
    exact hnot (congrArg List.head? he)
  · intro he
    exact hnot (congrArg List.head? he)

theorem linkEnd_cases (e : DirEntry) : linkEnd e = [] ∨ linkEnd e = [slash] := by
  unfold linkEnd
  split
  · exact .inr rfl
  · exact .inl rfl

theorem entryLink_eq (path : Bytes) (e : DirEntry) :
    entryLink path e = linkPrefix path ++ (urlEncodePath e.name ++ linkEnd e) := by
  have hend (s : Bytes) : (if e.isDirectory then s ++ [slash] else s) = s ++ linkEnd e := by
    unfold linkEnd
    split
    · rfl
    · exact (List.append_nil s).symm
  unfold entryLink entryHref linkPrefix
  dsimp only
  rw [hend, ← List.append_assoc]
  congr 1
  by_cases hroot : normalize path = [slash]
  · rw [if_neg (by simpa using hroot), if_neg (not_not.2 hroot)]
    split
    · rfl
    · rfl
  · rw [if_pos (by simpa using hroot), if_pos hroot]
    rfl

theorem isDir_linkPrefix (path : Bytes) : IsDir (linkPrefix path) := by
  unfold linkPrefix
  split
  · exact .inl rfl
  · split
    · next h => exact .inr h
    · exact .inr List.getLast?_concat

theorem target_eq (host : Bytes) (h : PathOnly (linkPrefix path)) (he : EntryName e.name) :
    target host path e =
      { page host path with
        path := UriReference.removeDotSegments (linkBase path) ++ (urlEncodePath e.name ++ linkEnd e)
        query := none
        fragment := none } := by
  unfold target
  rw [entryLink_eq]
  exact UriReference.resolve_name (page host path) (isDir_linkPrefix path) he.isPlainName
    (linkEnd_cases e) h

/-- The directory that the links of a page lead into. -/
theorem normalize_target (host : Bytes) (h : PathOnly (linkPrefix path)) (he : EntryName e.name) :
    normalize (target host path e).path =
      if normalize (UriReference.removeDotSegments (linkBase path)) = [] then []
      else child (normalize (UriReference.removeDotSegments (linkBase path))) e.name := by
  rw [target_eq host h he]
  exact normalize_append (((isDir_linkPrefix path).stem (page [] path)).removeDotSegments)
    he.isSegment (linkEnd_cases e)

theorem LinksHold.linkLeads (h : LinksHold path) (hne : normalize path ≠ [])
    (he : EntryName e.name) : LinkLeads path e := by
  intro host
  constructor
  · rw [target_eq host h.pathOnly he]
    rfl
  · rw [normalize_target host h.pathOnly he, h.here, if_neg hne]

/-- A link that stays on every host names none. -/
theorem LinkLeads.relative (h : LinkLeads path e) :
    (UriReference.parse (entryLink path e)).scheme = none ∧
      (UriReference.parse (entryLink path e)).authority = none := by
  have hauth (host : Bytes) := (h host).1
  simp only [target, UriReference.resolve_authority] at hauth
  split at hauth
  · have hempty := (hauth []).symm.trans (hauth [slash])
    cases hempty
  · next hnone => simpa using hnone

/-- A file with a name of one letter. -/
def letter (c : UInt8) : DirEntry := ⟨[c], false, 0, 0⟩

theorem entryName_letter {c : UInt8} (hc : isalnum c) : EntryName (letter c).name := by
  have hall : ∀ c : UInt8, isalnum c → slash ≠ c ∧ c ≠ dot ∧ 32 ≤ c ∧ c ≠ 127 := by decide
  obtain ⟨hslash, hdot, hprint⟩ := hall c hc
  refine ⟨nofun, fun hmem => hslash (List.mem_singleton.1 hmem),
    fun he => hdot (Option.some.inj he), fun b hb => ?_⟩
  rw [List.mem_singleton.1 hb]
  exact hprint

theorem linkPrefix_path (ha : LinkLeads path (letter 97)) (hb : LinkLeads path (letter 98)) :
    ∀ c ∈ linkPrefix path, UriReference.endsPath c = false := by
  intro c hc
  by_contra hends
  obtain ⟨tail, htail⟩ := UriReference.resolve_path_of_ends (page [] path)
    ⟨c, hc, Bool.not_eq_false _ ▸ hends⟩
  have hpath {e : DirEntry} (h : LinkLeads path e) :
      child (normalize path) e.name = normalize tail := by
    obtain ⟨hs, hauth⟩ := h.relative
    rw [← (h []).2, target]
    rw [entryLink_eq] at hs hauth ⊢
    rw [htail _ hs hauth]
  have hsame := child_injective ((hpath ha).trans (hpath hb).symm)
  exact absurd hsame (by decide)

theorem linksHold_of_linkLeads (hne : normalize path ≠ [])
    (h : ∀ e : DirEntry, EntryName e.name → LinkLeads path e) : LinksHold path := by
  have he := entryName_letter (c := 97) (by decide)
  have ha := h _ he
  have hends := linkPrefix_path ha (h _ (entryName_letter (c := 98) (by decide)))
  have hpath : PathOnly (linkPrefix path) := by
    obtain ⟨hs, hauth⟩ := ha.relative
    refine (UriReference.pathOnly_append (isDir_linkPrefix path) he.isPlainName
      (linkEnd_cases (letter 97))).1 ?_
    rw [← entryLink_eq]
    refine ⟨hs, (UriReference.parse_of_none hs hauth).2, fun c hc => ?_⟩
    rw [entryLink_eq] at hc
    rcases List.mem_append.1 hc with hc | hc
    · exact hends c hc
    · exact he.isPlainName.endsPath (linkEnd_cases (letter 97)) hc
  refine ⟨hpath, ?_⟩
  have hchild := (normalize_target [] hpath he).symm.trans (ha []).2
  split at hchild
  · exact (List.append_ne_nil_of_right_ne_nil _ (List.cons_ne_nil slash _) hchild.symm).elim
  · next hdir => exact child_dir_injective hdir hne hchild

/-- Every link of a directory page leads to the entry that it shows, on the same host, exactly when
the page's links begin where the page is. -/
theorem links_lead_iff {sys : FileSystem} {server : FileServer} {path : Bytes}
    (ho : openPath sys server path = .error .isDirectory) :
    (∀ e : DirEntry, EntryName e.name → LinkLeads path e) ↔ LinksHold path := by
  have hne : normalize path ≠ [] := by
    intro hnil
    unfold openPath at ho
    rw [hnil] at ho
    cases ho
  exact ⟨linksHold_of_linkLeads hne, fun h e he => h.linkLeads hne he⟩

/-- A page whose path ends with a slash, and has no query and no dot segment in it. -/
theorem linksHold_of_plain (hhead : path.head? = some slash) (hlast : path.getLast? = some slash)
    (hp : PathOnly path) (hdots : UriReference.removeDotSegments path = path) : LinksHold path := by
  by_cases hroot : normalize path = [slash]
  · have hfront : linkPrefix path = path := by
      rw [linkPrefix, if_neg (not_not.2 hroot), if_pos hlast]
    have hbase : linkBase path = path := by
      rw [linkBase, hfront]
      exact if_pos hhead
    refine ⟨?_, ?_⟩
    · rw [hfront]
      exact hp
    · rw [hbase, hdots]
  · have hfront : linkPrefix path = [] := if_pos hroot
    have hpage : (page [] path).path = path := by
      refine List.takeWhile_eq_self_iff.2 fun c hc => ?_
      rw [hp.path c hc]
      rfl
    have hne : path ≠ [] := by
      rintro rfl
      cases hhead
    have hdir : path.rdropWhile (· ≠ slash) = path := by
      obtain ⟨front, rfl⟩ := List.getLast?_eq_some_iff.1 hlast
      exact List.rdropWhile_concat_neg _ _ _ (by decide)
    have hbase : linkBase path = path := by
      rw [linkBase, hfront, UriReference.stem, if_neg nofun, UriReference.mergePaths,
        hpage, if_neg fun h => hne h.2, List.append_nil]
      exact hdir
    refine ⟨?_, ?_⟩
    · rw [hfront]
      exact ⟨rfl, by decide, nofun⟩
    · rw [hbase, hdots]

/-- A root with one directory in it, which has no index page. -/
def docsOnly : FileSystem :=
  { FileSystem.void with
    lstat := fun path => if path = bytes "/srv/docs" then some ⟨.directory, 4096, 0⟩ else none }

def notes : DirEntry := ⟨bytes "my notes.txt", false, 10, 0⟩

theorem entryName_notes : EntryName notes.name := by
  refine ⟨by decide, by decide, by decide, fun b hb => ?_⟩
  have hall : notes.name.all fun b => decide (32 ≤ b ∧ b ≠ 127) := by decide
  simpa using List.all_eq_true.1 hall b hb

/-- The page of a directory may be asked for without the final slash, and its links then lead to
the directory's siblings. -/
theorem unslashed_page_misleads :
    openPath docsOnly ⟨bytes "/srv"⟩ (bytes "/docs") = .error .isDirectory ∧
      EntryName notes.name ∧
      (target (bytes "example.org") (bytes "/docs") notes).path = bytes "/my%20notes.txt" ∧
      ¬ LinkLeads (bytes "/docs") notes := by
  have htarget : (target (bytes "example.org") (bytes "/docs") notes).path =
      bytes "/my%20notes.txt" := by decide
  refine ⟨by decide, entryName_notes, htarget, fun h => ?_⟩
  have hpath := (h (bytes "example.org")).2
  rw [htarget] at hpath
  exact absurd hpath (by decide)

theorem links_lead_iff_docs :
    openPath docsOnly ⟨bytes "/srv"⟩ (bytes "/docs/") = .error .isDirectory ∧
      LinkLeads (bytes "/docs/") notes := by
  have ho : openPath docsOnly ⟨bytes "/srv"⟩ (bytes "/docs/") = .error .isDirectory := by
    decide
  have hpath : PathOnly (bytes "/docs/") := ⟨by decide, by decide, by simp [bytes]; decide⟩
  exact ⟨ho, (links_lead_iff ho).2
    (linksHold_of_plain (by decide) (by decide) hpath (by decide)) notes entryName_notes⟩

end FileServer

end FileWebServer
