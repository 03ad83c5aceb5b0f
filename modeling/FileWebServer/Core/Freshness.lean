import FileWebServer.Http.Dates
import FileWebServer.Core.Framing

namespace FileWebServer
namespace Connection
open HttpRequest
set_option autoImplicit true
variable {c : Connection} {io : Io} {server : FileServer} {info : FileInfo} {libc : Libc}
  {offset : Int → Int} {t : Int}

/-- A client that names the date that it was sent is understood, and gets the file again exactly
when the file is newer. -/
structure DatesReturn (libc : Libc) (t : Int) : Prop where
  parsed : ∀ req : HttpRequest, req.header (bytes "if-modified-since") = formatTime t →
    req.parseIfModifiedSince libc = some t
  notModified : ∀ (io : Io) (server : FileServer) (c : Connection) (info : FileInfo),
    io.libc = libc → c.request.method = .get ∨ c.request.method = .head →
    c.request.header (bytes "if-modified-since") = formatTime t →
    server.openPath io.sys c.request.path = .ok info →
    ((c.prepareResponse io server).1.response.status = .notModified ↔ info.lastModified ≤ t)

theorem serveFile_status (io : Io) (info : FileInfo) (c : Connection) :
    (prepareFile.serveFile io info c).1.response.status ≠ .notModified := by
  change (if (c.request.parseRange info.size).isSome then Status.partialContent else .ok) ≠
    .notModified
  split
  · exact Status.noConfusion
  · exact Status.noConfusion

/-- The answer is 304 exactly when the client is up to date. -/
theorem prepareFile_status (io : Io) (info : FileInfo) (c : Connection) :
    (c.prepareFile io info).1.response.status = .notModified ↔ c.isFresh io info = true := by
  cases h : c.isFresh io info with
  | true =>
    rw [prepareFile_fresh h]
    exact ⟨fun _ => rfl, fun _ => rfl⟩
  | false =>
    rw [prepareFile_stale h]
    exact ⟨fun hs => (serveFile_status io info c hs).elim, fun hf => (Bool.false_ne_true hf).elim⟩

theorem datesReturn_of_parsed
    (h : ∀ req : HttpRequest, req.header (bytes "if-modified-since") = formatTime t →
      req.parseIfModifiedSince libc = some t) : DatesReturn libc t := by
  refine ⟨h, fun io server c info hlibc hm hreq ho => ?_⟩
  rw [prepareResponse_opened hm ho, prepareFile_status]
  have hparsed : c.blank.request.parseIfModifiedSince io.libc = some t := by
    rw [hlibc]
    exact h _ hreq
  rw [isFresh, hparsed]
  exact decide_eq_true_iff

/-- A request that names a date. -/
def since (date : Bytes) : HttpRequest := { headers := [(bytes "if-modified-since", date)] }

theorem header_since (date : Bytes) : (since date).header (bytes "if-modified-since") = date := by
  simp [since, HttpRequest.header]

/-- For every date from 1970 to 9999 and every time zone, the dates return exactly when the zone
agrees with UTC at that time. -/
theorem datesReturn_iff (hlibc : BsdLibc libc offset) (h0 : 0 ≤ t) (h1 : t ≤ 253402300799) :
    DatesReturn libc t ↔ offset t = 0 := by
  constructor
  · intro h
    have hparsed := (h.parsed _ (header_since _)).symm.trans
      (parse_formatTime hlibc h0 h1 (header_since _))
    have hsum := Option.some.inj hparsed
    omega
  · intro hoffset
    apply datesReturn_of_parsed
    intro req hreq
    rw [parse_formatTime hlibc h0 h1 hreq, hoffset, Int.add_zero]

theorem datesReturn_iff_utc :
    DatesReturn (bsdLibc fun _ => 0) 1445412480 ↔ (fun _ : Int => (0 : Int)) 1445412480 = 0 :=
  datesReturn_iff (bsdLibc_bsd _) (by decide) (by decide)

/-- Eight hours ahead of UTC, a client is told for eight hours that a changed file is the old one. -/
theorem shanghai_dates_shifted :
    BsdLibc (bsdLibc fun _ => 28800) (fun _ => 28800) ∧
      formatTime 1445412480 = bytes "Wed, 21 Oct 2015 07:28:00 GMT" ∧
      (since (bytes "Wed, 21 Oct 2015 07:28:00 GMT")).parseIfModifiedSince (bsdLibc fun _ => 28800) =
        some (1445412480 + 28800) ∧
      ¬ DatesReturn (bsdLibc fun _ => 28800) 1445412480 := by
  have hread : (since (bytes "Wed, 21 Oct 2015 07:28:00 GMT")).parseIfModifiedSince
      (bsdLibc fun _ => 28800) = some (1445412480 + 28800) := by
    decide
  have hwrite : formatTime 1445412480 = bytes "Wed, 21 Oct 2015 07:28:00 GMT" := by
    decide
  refine ⟨bsdLibc_bsd _, hwrite, hread, fun h => ?_⟩
  have hparsed := h.parsed (since (bytes "Wed, 21 Oct 2015 07:28:00 GMT"))
    ((header_since _).trans hwrite.symm)
  rw [hread] at hparsed
  exact absurd (Option.some.inj hparsed) (by decide)

end Connection

end FileWebServer
