import FileWebServer.Server.Containment
import FileWebServer.Server.Listing
import FileWebServer.Core.Answer

namespace FileWebServer
set_option autoImplicit true

namespace FileServer
variable {sys sys' : FileSystem} {server : FileServer} {path : Bytes} {st : Stat}

/-- The file status that `open` goes on with for a path: that of the path itself, or that of the
target of a link that stays under the root. -/
inductive Settles (sys : FileSystem) (server : FileServer) (path : Bytes) : Stat → Prop
  | plain {st : Stat} : sys.lstat (server.fullPath path) = some st → st.kind ≠ .symlink →
      Settles sys server path st
  | link {lst st : Stat} : sys.lstat (server.fullPath path) = some lst → lst.kind = .symlink →
      sys.realpath (server.fullPath path) = some resolved →
      isWithinRoot resolved server.rootDir = true →
      sys.stat (server.fullPath path) = some st → Settles sys server path st

/-- There is no file `index.html` that `open` would take in place of the directory. -/
def HasNoIndex (sys : FileSystem) (fullPath : Bytes) : Prop :=
  ∀ ist, sys.stat (fullPath ++ bytes "/index.html") = some ist → ist.kind ≠ .regular

/-- A request path for a directory that has no index page. -/
structure NeedsListing (sys : FileSystem) (server : FileServer) (path : Bytes) : Prop where
  accepted : normalize path ≠ []
  directory : ∃ st, Settles sys server path st ∧ st.kind = .directory
  noIndex : HasNoIndex sys (server.fullPath path)

theorem openRegular_not_directory : openRegular sys path st ≠ .error .isDirectory := by
  unfold openRegular
  split
  · exact nofun
  · split <;> exact nofun

theorem openIndex_directory_iff : openIndex sys path st = .error .isDirectory ↔
    st.kind = .directory ∧ HasNoIndex sys path := by
  unfold openIndex HasNoIndex
  dsimp only
  by_cases hd : st.kind = .directory
  · rw [if_pos hd]
    cases hist : sys.stat (path ++ bytes "/index.html") with
    | none => simp [hd]
    | some ist =>
      by_cases hr : ist.kind = .regular
      · simp [hr, openRegular_not_directory]
      · simp [hr, hd]
  · rw [if_neg hd]
    exact iff_of_false openRegular_not_directory fun h => hd h.1

theorem Settles.openPath (h : Settles sys server path st) (hn : normalize path ≠ []) :
    openPath sys server path = openIndex sys (server.fullPath path) st := by
  unfold FileServer.openPath
  dsimp only
  rw [if_neg hn]
  cases h with
  | plain hl hk =>
    rw [fullPath] at hl
    rw [hl]
    exact if_neg hk
  | link hl hk hr hw hs =>
    rw [fullPath] at hl hr hs
    rw [hl]
    dsimp only
    rw [if_pos hk, hr]
    dsimp only
    rw [if_pos hw, hs]
    rfl

theorem openPath_settles (h : openPath sys server path = .error .isDirectory) :
    normalize path ≠ [] ∧ ∃ st, Settles sys server path st ∧
      openIndex sys (server.fullPath path) st = .error .isDirectory := by
  unfold openPath at h
  dsimp only at h
  split at h
  · cases h
  · next hn =>
    refine ⟨hn, ?_⟩
    split at h
    · cases h
    · next lst hl =>
      split at h
      · next hk =>
        split at h
        · cases h
        · next resolved hr =>
          split at h
          · next hw =>
            split at h
            · cases h
            · next st hs => exact ⟨st, .link hl hk hr hw hs, h⟩
          · cases h
      · next hk => exact ⟨lst, .plain hl hk, h⟩

/-- `open` answers with `IS_DIRECTORY` for directories without an index page, and only for them. -/
theorem openPath_directory_iff :
    openPath sys server path = .error .isDirectory ↔ NeedsListing sys server path := by
  constructor
  · intro h
    obtain ⟨hn, st, hst, hindex⟩ := openPath_settles h
    obtain ⟨hd, hno⟩ := openIndex_directory_iff.1 hindex
    exact ⟨hn, ⟨st, hst, hd⟩, hno⟩
  · rintro ⟨hn, ⟨st, hst, hd⟩, hno⟩
    rw [hst.openPath hn]
    exact openIndex_directory_iff.2 ⟨hd, hno⟩

/-- A directory of which no name is read has an empty listing. -/
theorem listDirectory_nothing (h : (sys.opendir (listedPath server path)).getD [] = []) :
    listDirectory sys server path = [] := by
  unfold listedPath at h
  unfold listDirectory
  dsimp only at h ⊢
  split
  · rfl
  · split
    · rfl
    · next names hopen =>
      rw [hopen, Option.getD_some] at h
      rw [h]
      rfl

end FileServer

namespace Connection
open FileServer
variable {c : Connection} {io : Io} {server : FileServer}

/-- How a request for a directory is to be answered: with a listing only if the directory could be
opened, and with 403 if it could not. -/
structure RefusesUnreadable (io : Io) (server : FileServer) (c : Connection) : Prop where
  listing : (c.prepareResponse io server).1.response.status = .ok →
    io.sys.opendir (listedPath server c.request.path) ≠ none
  refusal : io.sys.opendir (listedPath server c.request.path) = none →
    (c.prepareResponse io server).1.response.status = .forbidden

theorem prepareResponse_listing (hm : c.request.method = .get ∨ c.request.method = .head)
    (hd : NeedsListing io.sys server c.request.path) :
    (c.prepareResponse io server).1.response.status = .ok := by
  have hnot : ¬ (c.request.method ≠ .get ∧ c.request.method ≠ .head) := by tauto
  unfold prepareResponse
  dsimp only
  rw [if_neg hnot, openPath_directory_iff.2 hd]
  rfl

/-- A request for a directory without an index page is answered as it is to be exactly when
`opendir` succeeds. -/
theorem refusesUnreadable_iff (hm : c.request.method = .get ∨ c.request.method = .head)
    (hd : NeedsListing io.sys server c.request.path) :
    RefusesUnreadable io server c ↔
      io.sys.opendir (listedPath server c.request.path) ≠ none := by
  have hstatus := prepareResponse_listing hm hd
  constructor
  · exact fun h => h.listing hstatus
  · exact fun hopen => ⟨fun _ => hopen, fun hnone => absurd hnone hopen⟩

/-- A directory that cannot be opened gets the page of an empty one. -/
theorem unreadable_as_empty (h : io.sys.opendir (listedPath server c.request.path) = none) :
    c.prepareResponse io server =
      c.prepareResponse { io with sys := { io.sys with opendir := fun _ => some [] } } server := by
  have hnone : (io.sys.opendir (listedPath server c.request.path)).getD [] = [] := by
    rw [h]
    rfl
  unfold prepareResponse
  dsimp only
  rw [listDirectory_nothing hnone, listDirectory_nothing rfl]
  rfl

/-- Every path is that of a directory without an index page, of which `opendir` makes `dir`. -/
def onlyDirectories (dir : Option (List Bytes)) : Io :=
  { sys := { FileSystem.void with
      lstat := fun _ => some ⟨.directory, 64, 0⟩
      opendir := fun _ => dir } }

/-- The connection on which a client has asked for `/locked`. -/
def asksForLocked : Connection :=
  { state := .parsing
    request := (HttpRequest.parse (bytes "GET /locked HTTP/1.1\r\nHost: a\r\n\r\n")).2 }

theorem refusesUnreadable_iff_open :
    RefusesUnreadable (onlyDirectories (some [])) ⟨bytes "/srv"⟩ asksForLocked ↔
      (onlyDirectories (some [])).sys.opendir
        (listedPath ⟨bytes "/srv"⟩ asksForLocked.request.path) ≠ none := by
  apply refusesUnreadable_iff
  · exact .inl (by decide)
  · apply openPath_directory_iff.1
    decide

/-- A directory without read permission gets a listing. -/
theorem locked_directory_listed :
    asksForLocked.request.method = .get ∧
      NeedsListing (onlyDirectories none).sys ⟨bytes "/srv"⟩ asksForLocked.request.path ∧
      (onlyDirectories none).sys.opendir (bytes "/srv/locked/") = none ∧
      (asksForLocked.prepareResponse (onlyDirectories none) ⟨bytes "/srv"⟩).1.response.status =
        .ok ∧
      ¬ RefusesUnreadable (onlyDirectories none) ⟨bytes "/srv"⟩ asksForLocked := by
  have hd : NeedsListing (onlyDirectories none).sys ⟨bytes "/srv"⟩ asksForLocked.request.path := by
    apply openPath_directory_iff.1
    decide
  have hm : asksForLocked.request.method = .get := by decide
  refine ⟨hm, hd, rfl, prepareResponse_listing (.inl hm) hd, ?_⟩
  intro h
  exact h.listing (prepareResponse_listing (.inl hm) hd) rfl

end Connection

end FileWebServer
