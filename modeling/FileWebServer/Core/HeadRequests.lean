import FileWebServer.Core.Framing
import FileWebServer.Core.Histories
import FileWebServer.Core.Resumption

namespace FileWebServer
set_option autoImplicit true

namespace HttpRequest

/-- Two requests that differ in their methods at most. -/
structure SameTarget (q q' : HttpRequest) : Prop where
  path : q.path = q'.path
  version : q.version = q'.version
  headers : q.headers = q'.headers

theorem SameTarget.header (h : SameTarget q q') (name : Bytes) :
    q.header name = q'.header name := by
  unfold HttpRequest.header
  rw [h.headers]

theorem SameTarget.isKeepAlive (h : SameTarget q q') : q.isKeepAlive = q'.isKeepAlive := by
  unfold HttpRequest.isKeepAlive
  rw [h.header, h.version]

theorem SameTarget.parseRange (h : SameTarget q q') (size : Int) :
    q.parseRange size = q'.parseRange size := by
  unfold HttpRequest.parseRange
  rw [h.header]

theorem SameTarget.parseIfModifiedSince (h : SameTarget q q') (libc : Libc) :
    q.parseIfModifiedSince libc = q'.parseIfModifiedSince libc := by
  unfold HttpRequest.parseIfModifiedSince
  rw [h.header]

end HttpRequest

namespace Connection
open HttpRequest
variable {c d : Connection} {r : Outcome} {io : Io} {tls : Bool} {server : FileServer} {raw : Bytes}

theorem prepareFile_mirrors (h : SameTarget c.request d.request) (hr : c.response = d.response)
    (io : Io) (info : FileInfo) :
    (c.prepareFile io info).1.response = (d.prepareFile io info).1.response := by
  have hfresh : c.isFresh io info = d.isFresh io info := by
    unfold isFresh
    rw [h.parseIfModifiedSince]
  cases hd : d.isFresh io info with
  | true =>
    rw [prepareFile_fresh hd, prepareFile_fresh (hfresh.trans hd)]
    dsimp only [prepareHeaders]
    rw [hr]
  | false =>
    rw [prepareFile_stale hd, prepareFile_stale (hfresh.trans hd)]
    unfold prepareFile.serveFile
    dsimp only [prepareHeaders, setSendFile]
    rw [hr, h.parseRange]

/-- A request for HEAD gets the header block of the same request for GET. -/
theorem prepareResponse_mirrors (h : SameTarget c.request d.request)
    (hc : c.request.method = .get ∨ c.request.method = .head)
    (hd : d.request.method = .get ∨ d.request.method = .head) (io : Io) (server : FileServer) :
    (c.prepareResponse io server).1.response = (d.prepareResponse io server).1.response := by
  have hblank : c.blank.response = d.blank.response := by
    unfold blank
    rw [h.isKeepAlive]
  cases hopen : server.openPath io.sys d.request.path with
  | ok info =>
    rw [prepareResponse_opened hd hopen, prepareResponse_opened hc (by rw [h.path]; exact hopen)]
    exact prepareFile_mirrors (c := c.blank) (d := d.blank) h hblank io info
  | error err =>
    have hc' : ¬ (c.request.method ≠ .get ∧ c.request.method ≠ .head) := by tauto
    have hd' : ¬ (d.request.method ≠ .get ∧ d.request.method ≠ .head) := by tauto
    unfold prepareResponse
    dsimp only
    rw [if_neg hc', if_neg hd', h.path, hopen, h.isKeepAlive]
    cases err with
    | isDirectory => rfl
    | notFound => rfl
    | forbidden => rfl
    | badRequest => rfl

/-- The header blocks that `prepare_response` builds for a request, whatever the files and the
clock. -/
def headerBlocks (server : FileServer) (q : HttpRequest) : Set Bytes :=
  {block | ∃ (io : Io) (d : Connection),
    d.request = q ∧ block = (d.prepareResponse io server).1.headerBuf}

/-- A step in the answer to the request in `raw`: it sends bytes of a header block only, and it
ends the answer or leaves it to be built again. -/
structure Withholds (server : FileServer) (raw : Bytes) (r : Outcome) : Prop where
  sent : ∃ block ∈ headerBlocks server (HttpRequest.parse raw).2, wire r.actions <+: block
  next : r.conn.state = .keepAlive ∨ r.conn.state = .closed ∨
    (r.conn.state = .parsing ∧ r.conn.readBuf = raw)

/-- Without a body, what is sent is the beginning of the header block. -/
theorem doSendHeaders_bodiless (hb : c.bodiless = true) (hsent : c.headerSent = 0) (io : Io) :
    wire (c.doSendHeaders io).actions <+: c.headerBuf ∧
      ((c.doSendHeaders io).conn.state = .keepAlive ∨ (c.doSendHeaders io).conn.state = .closed ∨
        (c.doSendHeaders io).conn.state = c.state) := by
  have hnext : ∀ d : Connection, d.bodiless = true →
      headersSent io d = ⟨{ d with state := .keepAlive }, .read, []⟩ := fun d hd => if_pos hd
  have hwire := transmit_wire c io.headerWrite io.headerSslWrite c.headerBuf
  rw [doSendHeaders, headerRest_unsent hsent]
  cases hattempt : c.transmit io.headerWrite io.headerSslWrite c.headerBuf with
  | mk sent as =>
    rw [hattempt] at hwire
    have hbegins : wire as <+: c.headerBuf := by
      rw [hwire]
      cases sent with
      | bytes n => exact List.take_prefix n _
      | wait want => exact List.nil_prefix
      | fatal => exact List.nil_prefix
    cases sent with
    | bytes n =>
      dsimp only [onSent]
      rw [Outcome.after_actions, wire_append]
      split
      · rw [hnext { c with headerSent := c.headerSent + n } hb]
        refine ⟨?_, .inl rfl⟩
        change wire as ++ [] <+: _
        rw [List.append_nil]
        exact hbegins
      · refine ⟨?_, .inr (.inr rfl)⟩
        change wire as ++ [] <+: _
        rw [List.append_nil]
        exact hbegins
    | wait want => exact ⟨hbegins, .inr (.inr rfl)⟩
    | fatal =>
      refine ⟨?_, .inr (.inl (close_state c))⟩
      change wire (c.hangUp as).actions <+: _
      rw [hangUp_wire]
      exact hbegins

/-- An answer to HEAD, built from `PARSING` or right after a read. -/
theorem advance_withholds (hc : ¬ c.Sending)
    (hparsed : (inlineParse io (c.firstHalf io tls)).conn = d) (hstate : d.state = .parsing)
    (hbuf : d.readBuf = raw) (hreq : d.request = (HttpRequest.parse raw).2)
    (hm : (HttpRequest.parse raw).2.method = .head) :
    Withholds server raw (c.advance io tls server) := by
  obtain ⟨as, _, hbuilt⟩ := prepareResponse_built io server d
  have hdue : (inlineParse io (c.firstHalf io tls)).conn.answerDue := by
    rw [hparsed]
    refine ⟨.inl hstate, ?_⟩
    rw [hreq, hm]
    exact Method.noConfusion
  have hbodiless : (d.prepareResponse io server).1.bodiless = true := by
    have hhead : (d.prepareResponse io server).1.isHead = true := by
      rw [hbuilt.isHead]
      change (d.request.method == .head) = true
      rw [hreq, hm]
      rfl
    rw [bodiless, hhead]
    rfl
  have hmsg := (doSendHeaders_sends io (d.prepareResponse io server).1).message
  simp only [message, Prod.mk.injEq] at hmsg
  obtain ⟨hsent, hnext⟩ := doSendHeaders_bodiless hbodiless hbuilt.headerSent io
  have hkept : (d.prepareResponse io server).1.state = .parsing :=
    (prepareResponse_prepared io server d).state.trans hstate
  unfold advance secondHalf
  rw [answer_due io server hdue, hparsed]
  constructor
  · refine ⟨_, ⟨io, d, hreq, rfl⟩, ?_⟩
    rw [Outcome.after_actions, wire_append, wire_append, firstHalf_wire io tls hc,
      prepareResponse_wire]
    exact hsent
  · rw [Outcome.after_conn, hmsg.1, hbuilt.readBuf]
    rw [hkept] at hnext
    rcases hnext with h | h | h
    · exact .inl h
    · exact .inr (.inl h)
    · exact .inr (.inr ⟨h, hbuf⟩)

/-- The call that completes a request for HEAD. -/
theorem ReadsRequest.withholds (h : ReadsRequest io tls c raw) (ho : Opens c)
    (hacc : (HttpRequest.parse raw).1 = true) (hm : (HttpRequest.parse raw).2.method = .head) :
    Withholds server raw (c.advance io tls server) := by
  have hread := h.hasRead ho
  apply advance_withholds h.not_sending
  · rw [hread.accepted io hacc]
  · exact hread.state
  · exact hread.buffer
  · rfl
  · exact hm

/-- A call from `PARSING` builds the answer again. -/
theorem parsing_withholds (hc : c.state = .parsing) (hbuf : c.readBuf = raw)
    (hacc : (HttpRequest.parse raw).1 = true) (hm : (HttpRequest.parse raw).2.method = .head) :
    Withholds server raw (c.advance io tls server) := by
  subst hbuf
  have hparsed := inlineParse_parsing io tls hc
  rw [if_pos hacc] at hparsed
  have hnot : ¬ c.Sending := by
    rintro (hs | hs)
    · rw [hc] at hs
      cases hs
    · rw [hc] at hs
      cases hs
  exact advance_withholds hnot hparsed hc rfl rfl hm

/-- A connection whose answer to the request in `raw` is still to be built, or that is gone. -/
def Pending (raw : Bytes) (c : Connection) : Prop :=
  c.state = .closed ∨ (c.state = .parsing ∧ c.readBuf = raw)

theorem Withholds.silent (h : Pending raw r.conn) (hw : wire r.actions = []) :
    Withholds server raw r := by
  refine ⟨⟨_, ⟨{}, { request := (HttpRequest.parse raw).2 }, rfl, rfl⟩, ?_⟩, .inr h⟩
  rw [hw]
  exact List.nil_prefix

theorem Pending.visit (h : Pending raw c) (hacc : (HttpRequest.parse raw).1 = true)
    (hm : (HttpRequest.parse raw).2.method = .head) (timeout : Int) (v : Visit) :
    Withholds server raw (c.visit tls server timeout v) := by
  have hhangUp : Withholds server raw (c.hangUp []) :=
    .silent (.inl (close_state c)) (hangUp_wire c [])
  cases v with
  | process io =>
    rcases h with hc | ⟨hc, hbuf⟩
    · have hact : c.stateAction io tls = ⟨c, .none, []⟩ := by rw [stateAction, hc]
      have hadv : c.advance io tls server = ⟨c, .none, []⟩ := by
        rw [advance_settled, hact]
        rw [hact]
        simp [Settled, hc]
      change Withholds server raw (c.advance io tls server)
      rw [hadv]
      exact .silent (.inl hc) rfl
    · exact parsing_withholds hc hbuf hacc hm
  | sweep now =>
    unfold Connection.visit
    dsimp only
    split
    · exact hhangUp
    · exact .silent h rfl
  | destroy => exact hhangUp

/-- Until the connection is in `KEEP_ALIVE`, all that is sent is the beginning of one of the
blocks, and it is never in `SENDING_BODY`. -/
def OnlyHeaders (blocks : Set Bytes) : List Seen → Prop
  | [] => True
  | x :: l => (∃ block ∈ blocks, x.sent <+: block) ∧ x.state ≠ .sendingBody ∧
    (x.state = .keepAlive ∨ OnlyHeaders blocks l)

theorem Withholds.onlyHeaders {l : List Seen} {want : Want} (h : Withholds server raw r)
    (hl : Pending raw r.conn → OnlyHeaders (headerBlocks server (HttpRequest.parse raw).2) l) :
    OnlyHeaders (headerBlocks server (HttpRequest.parse raw).2)
      (⟨r.conn.state, want, wire r.actions⟩ :: l) := by
  refine ⟨h.sent, ?_, h.next.imp id hl⟩
  rcases h.next with hs | hs | ⟨hs, _⟩
  · rw [hs]
    exact State.noConfusion
  · rw [hs]
    exact State.noConfusion
  · rw [hs]
    exact State.noConfusion

theorem Pending.history (h : Pending raw c) (hacc : (HttpRequest.parse raw).1 = true)
    (hm : (HttpRequest.parse raw).2.method = .head) (timeout : Int) (vs : List Visit) :
    OnlyHeaders (headerBlocks server (HttpRequest.parse raw).2)
      (c.history tls server timeout vs) := by
  induction vs generalizing c with
  | nil => trivial
  | cons v vs ih =>
    rw [history_cons]
    exact (h.visit hacc hm timeout v).onlyHeaders fun hp => ih hp

end Connection

namespace EventLoop
open Connection HttpRequest
variable {s : EventLoop} {i : Nat} {io : Io} {raw : Bytes} {vs : List Visit} {l : List Seen}

theorem head_withholds (hs : s.Reachable) (hreq : ReadsRequest io s.tlsCtx (s.conn i) raw)
    (hacc : (HttpRequest.parse raw).1 = true) (hm : (HttpRequest.parse raw).2.method = .head)
    (hl : Lives i s (.process io :: vs) l) :
    OnlyHeaders (headerBlocks s.fileServer (HttpRequest.parse raw).2) l := by
  rw [hl.eq_history, slotHistory, history_cons]
  apply (hreq.withholds (hs.conn opens_invariant i) hacc hm).onlyHeaders
  exact fun hp => hp.history hacc hm _ vs

def headText : Bytes := bytes "HEAD / HTTP/1.1\r\nHost: a\r\n\r\n"

/-- A request for HEAD is read while the socket takes ten bytes of the header block. -/
def readHead : Io := { read := .done headText, headerWrite := .done 10 }

end EventLoop

end FileWebServer
