import FileWebServer.Core.Answer
import FileWebServer.Http.Fields
import FileWebServer.Http.Range

namespace FileWebServer
namespace Connection
set_option autoImplicit true
open HttpRequest
variable {c p : Connection} {io : Io} {server : FileServer} {info : FileInfo}

/-- The number of body bytes that a GET will send. -/
def bodySize (c : Connection) : Int :=
  if 0 ≤ c.fileFd then c.sendRemaining else c.response.body.length

/-- The client has the file already, as far as its request tells. -/
def isFresh (io : Io) (info : FileInfo) (c : Connection) : Bool :=
  match HttpRequest.parseIfModifiedSince io.libc c.request with
  | some ims => info.lastModified ≤ ims
  | none => false

/-- What `parse_range` gives, where `prepare_response` gets to call it. -/
def rangeGiven (io : Io) (server : FileServer) (c : Connection) : Option (FileInfo × Int × Int) :=
  match server.openPath io.sys c.request.path with
  | .ok info =>
    if c.isFresh io info then none
    else (c.request.parseRange info.size).map fun range => (info, range.1, range.2)
  | .error _ => none

def contentRange (s e size : Int) : Bytes :=
  bytes "bytes " ++ decimalInt s ++ bytes "-" ++ decimalInt e ++ bytes "/" ++ decimalInt size

/-- The header block of a prepared response agrees with what is sent after it. -/
structure Framed (io : Io) (server : FileServer) (c p : Connection) : Prop where
  statusLine : (lines p.headerBuf).head? = some (HttpResponse.statusLine p.response.status)
  length : p.response.status ≠ .notModified →
    fieldValues (bytes "Content-Length") p.headerBuf = [decimalInt p.bodySize]
  ranged : p.response.status = .partialContent ↔ (c.rangeGiven io server).isSome
  range : ∀ info s e, c.rangeGiven io server = some (info, s, e) →
    fieldValues (bytes "Content-Range") p.headerBuf = [contentRange s e info.size] ∧
      fieldValues (bytes "Content-Length") p.headerBuf = [decimalInt (e - s + 1)] ∧
      p.sendOffset = s ∧ 0 ≤ s ∧ s ≤ e ∧ e < info.size
  notModified : p.response.status = .notModified →
    fieldValues (bytes "Content-Length") p.headerBuf = [] ∧ p.response.body = [] ∧ p.fileFd < 0

theorem decimalInt_of_nonneg {n : Int} (h : 0 ≤ n) : decimalInt n = decimal n.toNat := by
  have hnat : n.natAbs = n.toNat := by omega
  rw [decimalInt, if_neg (Int.not_lt.2 h), hnat]

/-- A length that a `uint64_t` holds is written out as it is. -/
theorem decimal_contentLength {r : HttpResponse} {n : Int} (hlo : 0 ≤ n) (hhi : n < 2 ^ 64) :
    decimal (r.setContentLength n).contentLength = decimalInt n := by
  have hmod : n % 2 ^ 64 = n := Int.emod_eq_of_lt hlo hhi
  rw [decimalInt_of_nonneg hlo]
  change decimal (n % 2 ^ 64).toNat = _
  rw [hmod]

theorem headOf_buildHeaders {r : HttpResponse} (h : r.Clean) (time : Int) :
    (lines (r.buildHeaders time)).head? = some (HttpResponse.statusLine r.status) := by
  rw [HttpResponse.lines_buildHeaders h]
  rfl

/-- A page from memory is as long as its header block says. -/
theorem preparePage_framed (io : Io) (status : Status) (body : Bytes)
    (hr : c.response.headers = []) (hfile : c.fileFd < 0)
    (hstatus : status ≠ .notModified ∧ status ≠ .partialContent)
    (hlen : body.length < 2 ^ 64) (hnone : d.rangeGiven io server = none) :
    Framed io server d (c.preparePage io status body).1 := by
  have hclean : (c.preparePage io status body).1.response.Clean := by
    constructor
    · change Inline (bytes "text/html; charset=utf-8")
      unfold Inline
      decide
    · intro f hf
      change f ∈ c.response.headers at hf
      rw [hr] at hf
      exact absurd hf List.not_mem_nil
    · intro f hf
      change f ∈ c.response.headers at hf
      rw [hr] at hf
      exact absurd hf List.not_mem_nil
  have hlength : decimal (c.preparePage io status body).1.response.contentLength =
      decimalInt body.length := by
    apply decimal_contentLength
    · exact Int.natCast_nonneg _
    · exact_mod_cast hlen
  constructor
  · exact headOf_buildHeaders hclean io.time
  · intro _
    have hval := HttpResponse.contentLength_buildHeaders hclean io.time (by
      intro f hf
      change f ∈ c.response.headers at hf
      rw [hr] at hf
      exact absurd hf List.not_mem_nil)
    have hsize : (c.preparePage io status body).1.bodySize = body.length :=
      if_neg (Int.not_le.2 hfile)
    rw [hlength, if_pos ⟨hstatus.1, rfl⟩] at hval
    rw [hsize]
    exact hval
  · rw [hnone]
    constructor
    · exact fun h => absurd h hstatus.2
    · exact fun h => absurd h Bool.false_ne_true
  · intro info s e h
    rw [hnone] at h
    cases h
  · exact fun h => absurd h hstatus.1

theorem prepareFile_fresh (h : c.isFresh io info = true) : c.prepareFile io info =
    ({ c with response :=
        { c.response with status := .notModified }.setLastModified info.lastModified
      }.prepareHeaders io.time, [.openFile info.fd, .prepareHeaders, .closeFile info.fd]) := by
  unfold isFresh at h
  unfold prepareFile
  cases hims : parseIfModifiedSince io.libc c.request with
  | none =>
    rw [hims] at h
    cases h
  | some ims =>
    rw [hims] at h
    exact if_pos (of_decide_eq_true h)

theorem prepareFile_stale (h : c.isFresh io info = false) :
    c.prepareFile io info = prepareFile.serveFile io info c := by
  unfold isFresh at h
  unfold prepareFile
  cases hims : parseIfModifiedSince io.libc c.request with
  | none => rfl
  | some ims =>
    rw [hims] at h
    exact if_neg (of_decide_eq_false h)

/-- A client that has the file already is sent nothing of it. -/
theorem fresh_framed (h : c.isFresh io info = true) (hr : c.response = { HttpResponse.reset with keepAlive := k })
    (hfile : c.fileFd < 0) (hnone : d.rangeGiven io server = none) :
    Framed io server d (c.prepareFile io info).1 := by
  rw [prepareFile_fresh h, hr]
  have hclean : ({ { { HttpResponse.reset with keepAlive := k } with
      status := .notModified }.setLastModified info.lastModified with } : HttpResponse).Clean := by
    constructor
    · exact inline_nil
    · exact fun f hf => absurd hf List.not_mem_nil
    · exact fun f hf => absurd hf List.not_mem_nil
  constructor
  · exact headOf_buildHeaders hclean io.time
  · exact fun hne => absurd rfl hne
  · rw [hnone]
    constructor
    · exact fun hp => Status.noConfusion hp
    · exact fun hp => absurd hp Bool.false_ne_true
  · intro info s e hg
    rw [hnone] at hg
    cases hg
  · intro _
    have hval := HttpResponse.contentLength_buildHeaders hclean io.time
      fun f hf => absurd hf List.not_mem_nil
    exact ⟨hval, rfl, hfile⟩

/-- A response that sends `len` bytes of an opened file from `offset` on. -/
structure Serves (io : Io) (info : FileInfo) (status : Status) (headers : List (Bytes × Bytes))
    (offset len : Int) (p : Connection) : Prop where
  header : p.headerBuf = p.response.buildHeaders io.time
  status : p.response.status = status
  headers : p.response.headers = headers
  contentType : p.response.contentType = info.mimeType
  hasLength : p.response.hasContentLength = true
  length : decimal p.response.contentLength = decimalInt len
  file : p.fileFd = info.fd
  offset : p.sendOffset = offset
  remaining : p.sendRemaining = len

theorem serveFile_whole (hsize : 0 ≤ info.size) (hmax : info.size < 2 ^ 63)
    (hr : c.response.headers = []) (hrange : c.request.parseRange info.size = none) :
    Serves io info .ok [] 0 info.size (prepareFile.serveFile io info c).1 := by
  have hlast : wrap64 (info.size - 1) = info.size - 1 := by
    apply wrap64_of_fits
    · omega
    · omega
  have hlen : wrap64 (wrap64 (info.size - 1) - 0 + 1) = info.size := by
    rw [hlast]
    have hone : info.size - 1 - 0 + 1 = info.size := by omega
    rw [hone]
    apply wrap64_of_fits
    · omega
    · exact hmax
  have hif : (if 0 < info.size then wrap64 (wrap64 (info.size - 1) - 0 + 1) else 0) =
      info.size := by
    split
    · exact hlen
    · omega
  unfold prepareFile.serveFile
  rw [hrange]
  constructor
  · rfl
  · rfl
  · exact hr
  · rfl
  · rfl
  · change decimal (HttpResponse.reset.setContentLength
      (if 0 < info.size then wrap64 (wrap64 (info.size - 1) - 0 + 1) else 0)).contentLength = _
    rw [hif]
    exact decimal_contentLength hsize (by omega)
  · rfl
  · rfl
  · dsimp only [setSendFile]
    split
    · exact hlen
    · next hpos =>
      rw [hlast] at hpos
      omega

theorem serveFile_range (hs : 0 ≤ s) (he : s ≤ e) (hsize : e < info.size)
    (hmax : info.size < 2 ^ 63) (hr : c.response.headers = [])
    (hrange : c.request.parseRange info.size = some (s, e)) :
    Serves io info .partialContent [(bytes "Content-Range", contentRange s e info.size)] s
      (e - s + 1) (prepareFile.serveFile io info c).1 := by
  have hlen : wrap64 (e - s + 1) = e - s + 1 := by
    apply wrap64_of_fits
    · omega
    · omega
  unfold prepareFile.serveFile
  rw [hrange]
  constructor
  · rfl
  · rfl
  · change c.response.headers ++ _ = _
    rw [hr]
    rfl
  · rfl
  · rfl
  · have hpos : 0 < info.size := by omega
    change decimal (HttpResponse.reset.setContentLength
      (if 0 < info.size then wrap64 (e - s + 1) else 0)).contentLength = _
    rw [if_pos hpos, hlen]
    apply decimal_contentLength
    · omega
    · omega
  · rfl
  · rfl
  · dsimp only [setSendFile]
    rw [if_pos he, hlen]

theorem printable_contentRange (s e size : Int) : Printable (contentRange s e size) := by
  have hlit : Printable (bytes "bytes ") ∧ Printable (bytes "-") ∧ Printable (bytes "/") := by
    decide
  obtain ⟨hbytes, hdash, hslash⟩ := hlit
  apply Printable.append _ (printable_decimalInt _)
  apply Printable.append _ hslash
  apply Printable.append _ (printable_decimalInt _)
  apply Printable.append _ hdash
  exact hbytes.append (printable_decimalInt _)

/-- The header block of a served file: its length is that of what is sent. -/
theorem Serves.length_field {st : Status} {hs : List (Bytes × Bytes)} {len : Int}
    (h : Serves io info st hs start len p)
    (hclean : p.response.Clean) (hstatus : st ≠ .notModified)
    (hheaders : ∀ f ∈ hs, f.1 ≠ bytes "Content-Length") :
    fieldValues (bytes "Content-Length") p.headerBuf = [decimalInt len] := by
  rw [h.header, HttpResponse.contentLength_buildHeaders hclean io.time (h.headers ▸ hheaders),
    if_pos ⟨h.status ▸ hstatus, h.hasLength⟩, h.length]

theorem Serves.clean {st : Status} {hs : List (Bytes × Bytes)}
    (h : Serves io info st hs start len p)
    (hmime : Inline info.mimeType)
    (hheaders : ∀ f ∈ hs, (58 ∉ f.1 ∧ Inline f.1) ∧ Inline f.2) : p.response.Clean := by
  constructor
  · rw [h.contentType]
    exact hmime
  · rw [h.headers]
    exact fun f hf => (hheaders f hf).1
  · rw [h.headers]
    exact fun f hf => (hheaders f hf).2

theorem Serves.bodySize {st : Status} {hs : List (Bytes × Bytes)}
    (h : Serves io info st hs start len p) (hfd : 0 ≤ info.fd) :
    p.bodySize = len := by
  have hfile : 0 ≤ p.fileFd := h.file ▸ hfd
  rw [Connection.bodySize, if_pos hfile, h.remaining]

theorem whole_framed (h : Serves io info .ok [] 0 info.size p) (hfd : 0 ≤ info.fd)
    (hmime : Inline info.mimeType) (hnone : d.rangeGiven io server = none) :
    Framed io server d p := by
  have hclean := h.clean hmime fun f hf => absurd hf List.not_mem_nil
  constructor
  · rw [h.header]
    exact headOf_buildHeaders hclean io.time
  · intro _
    rw [h.bodySize hfd]
    exact h.length_field hclean Status.noConfusion fun f hf => absurd hf List.not_mem_nil
  · rw [hnone, h.status]
    constructor
    · exact fun hp => Status.noConfusion hp
    · exact fun hp => absurd hp Bool.false_ne_true
  · intro info s e hg
    rw [hnone] at hg
    cases hg
  · rw [h.status]
    exact fun hn => Status.noConfusion hn

theorem range_framed (h : Serves io info .partialContent
    [(bytes "Content-Range", contentRange s e info.size)] s (e - s + 1) p)
    (hfd : 0 ≤ info.fd) (hmime : Inline info.mimeType) (hwithin : 0 ≤ s ∧ s ≤ e ∧ e < info.size)
    (hgiven : d.rangeGiven io server = some (info, s, e)) : Framed io server d p := by
  have hname : 58 ∉ bytes "Content-Range" ∧ Inline (bytes "Content-Range") := by
    unfold Inline
    decide
  have hclean : p.response.Clean := by
    apply h.clean hmime
    intro f hf
    rw [List.mem_singleton.1 hf]
    exact ⟨hname, (printable_contentRange _ _ _).inline⟩
  have hlength : fieldValues (bytes "Content-Length") p.headerBuf = [decimalInt (e - s + 1)] := by
    apply h.length_field hclean Status.noConfusion
    intro f hf
    rw [List.mem_singleton.1 hf]
    exact (by decide : bytes "Content-Range" ≠ bytes "Content-Length")
  constructor
  · rw [h.header]
    exact headOf_buildHeaders hclean io.time
  · intro _
    rw [h.bodySize hfd]
    exact hlength
  · rw [hgiven, h.status]
    exact iff_of_true rfl rfl
  · intro info' s' e' hg
    rw [hgiven] at hg
    cases hg
    have hcustom := HttpResponse.custom_buildHeaders hclean io.time hname.1 (by decide)
    rw [h.headers] at hcustom
    rw [h.header, hcustom]
    exact ⟨rfl, h.header ▸ hlength, h.offset, hwithin⟩
  · rw [h.status]
    exact fun hn => Status.noConfusion hn

/-- For every GET or HEAD, the header block that `prepare_response` builds agrees with what is
sent after it. Sizes are those of an `off_t` and of a `std::string`. -/
theorem prepareResponse_framed (io : Io) (server : FileServer) (c : Connection)
    (hm : c.request.method = .get ∨ c.request.method = .head) (hfile : c.fileFd < 0)
    (hsize : ∀ info, server.openPath io.sys c.request.path = .ok info →
      0 ≤ info.size ∧ info.size < 2 ^ 63)
    (hfit : NumbersFit (c.request.header (bytes "range")))
    (hbody : (c.prepareResponse io server).1.response.body.length < 2 ^ 64) :
    Framed io server c (c.prepareResponse io server).1 := by
  cases hopen : server.openPath io.sys c.request.path with
  | error err =>
    have hnone : c.rangeGiven io server = none := by rw [rangeGiven, hopen]
    obtain ⟨status, body, hstatus, hp⟩ := prepareResponse_refused hm hopen
    rw [hp] at hbody ⊢
    exact preparePage_framed io status body rfl hfile hstatus hbody hnone
  | ok info =>
    obtain ⟨hfd, hmime⟩ := FileServer.openPath_info hopen
    have hinline : Inline info.mimeType := hmime ▸ (printable_detectMimeType _).inline
    obtain ⟨hlo, hhi⟩ := hsize info hopen
    rw [prepareResponse_opened hm hopen]
    cases hfresh : c.blank.isFresh io info with
    | true =>
      have hnone : c.rangeGiven io server = none := by
        rw [rangeGiven, hopen]
        exact if_pos hfresh
      exact fresh_framed hfresh rfl hfile hnone
    | false =>
      have hgiven : c.rangeGiven io server =
          (c.request.parseRange info.size).map fun range => (info, range.1, range.2) := by
        have hnot : ¬ c.isFresh io info = true := by
          change ¬ c.blank.isFresh io info = true
          rw [hfresh]
          exact Bool.false_ne_true
        rw [rangeGiven, hopen]
        exact if_neg hnot
      rw [prepareFile_stale hfresh]
      cases hrange : c.request.parseRange info.size with
      | none =>
        rw [hrange] at hgiven
        exact whole_framed (serveFile_whole hlo hhi rfl hrange) hfd hinline hgiven
      | some range =>
        obtain ⟨s, e⟩ := range
        obtain ⟨hs, he, hlt⟩ := parseRange_within hlo hhi hfit hrange
        rw [hrange] at hgiven
        exact range_framed (serveFile_range hs he hlt hhi rfl hrange) hfd hinline ⟨hs, he, hlt⟩
          hgiven

/-- A file system on which every path is a file of ten bytes. -/
def tenBytes : FileSystem :=
  { FileSystem.void with
    lstat := fun _ => some ⟨.regular, 10, 0⟩
    openRdonly := fun _ => some 9 }

/-- A request for all but the first two bytes of a file. -/
def rangeRequest : HttpRequest :=
  (HttpRequest.parse (bytes "GET /a.txt HTTP/1.1\r\nRange: bytes=2-\r\n\r\n")).2

theorem prepareResponse_framed_range :
    Framed { sys := tenBytes } ⟨bytes "/srv"⟩ { request := rangeRequest }
      (prepareResponse { sys := tenBytes } ⟨bytes "/srv"⟩ { request := rangeRequest }).1 := by
  apply prepareResponse_framed
  · exact .inl (by decide)
  · decide
  · intro info h
    obtain ⟨path, st, hr⟩ := FileServer.openPath_regular h
    have hopen : FileServer.openPath tenBytes ⟨bytes "/srv"⟩ rangeRequest.path =
        .ok ⟨9, 10, 0, bytes "text/plain", bytes "/srv/a.txt"⟩ := by rfl
    rw [hopen] at h
    cases h
    decide
  · exact numbersFit_of_length (by decide)
  · decide

end Connection

end FileWebServer
