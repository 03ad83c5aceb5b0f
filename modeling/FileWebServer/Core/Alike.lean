import FileWebServer.Core.Sending

namespace FileWebServer
namespace Connection
set_option autoImplicit true
variable {c d c' d' : Connection} {r r' : Outcome} {p q : Prop}

/-- Two connections that nobody can tell apart by what they do: their sockets, their places and
what is left over in their buffers may differ. The header block counts only where `p` holds. -/
structure Alike (p : Prop) (c d : Connection) : Prop where
  state : c.state = d.state
  transport : c.isTls = d.isTls
  readBuf : c.readBuf = d.readBuf
  header : p → c.headerBuf = d.headerBuf
  headerSent : c.headerSent = d.headerSent
  file : c.fileFd = d.fileFd ∨ (c.fileFd < 0 ∧ d.fileFd < 0)
  offset : c.sendOffset = d.sendOffset
  remaining : c.sendRemaining = d.sendRemaining
  chunk : c.chunkRest = d.chunkRest
  chunkUsed : c.chunkUsed = d.chunkUsed
  chunkSent : c.chunkSent = d.chunkSent
  bodySent : c.bodySent = d.bodySent
  request : c.request = d.request
  response : c.response = d.response
  isHead : c.isHead = d.isHead
  lastActive : c.lastActive = d.lastActive

/-- Two steps that look the same from outside. -/
structure Twin (p : Prop) (r r' : Outcome) : Prop where
  conn : Alike p r.conn r'.conn
  want : r.want = r'.want
  sent : wire r.actions = wire r'.actions

theorem Alike.mono (h : Alike p c d) (hqp : q → p) : Alike q c d :=
  { h with header := fun hq => h.header (hqp hq) }

theorem Alike.setState (h : Alike p c d) (s : State) :
    Alike p { c with state := s } { d with state := s } := { h with state := rfl }

theorem Alike.touch (h : Alike p c d) (now : Int) : Alike p (c.touch now) (d.touch now) :=
  { h with lastActive := rfl }

theorem Alike.file_neg (h : Alike p c d) : c.fileFd < 0 ↔ d.fileFd < 0 := by
  rcases h.file with he | ⟨hc, hd⟩
  · rw [he]
  · exact iff_of_true hc hd

theorem Alike.toRead (h : Alike p c d) : c.toRead = d.toRead := by
  unfold Connection.toRead
  rw [h.remaining]

theorem Alike.readChunk (h : Alike p c d) (io : Io) : c.readChunk io = d.readChunk io := by
  unfold Connection.readChunk
  rw [h.toRead, h.offset]

theorem Alike.bodiless (h : Alike p c d) : c.bodiless = d.bodiless := by
  have hneg : decide (c.fileFd < 0) = decide (d.fileFd < 0) := decide_eq_decide.2 h.file_neg
  unfold Connection.bodiless
  rw [h.isHead, h.response, hneg]

/-- Closing a file leaves no file in either. -/
theorem Alike.closeFile (h : Alike p c d) : Alike p c.closeFile d.closeFile := by
  have hneg : ∀ fd : Int, (if 0 ≤ fd then -1 else fd) < 0 := by
    intro fd
    split
    · decide
    · omega
  exact { h with file := .inr ⟨hneg _, hneg _⟩ }

theorem Alike.close (h : Alike p c d) : Alike p c.close d.close := by
  by_cases hc : c.state = .closed
  · have hd : d.state = .closed := h.state ▸ hc
    unfold Connection.close
    rw [if_pos hc, if_pos hd]
    exact h
  · have hd : d.state ≠ .closed := h.state ▸ hc
    unfold Connection.close
    rw [if_neg hc, if_neg hd]
    exact { h.closeFile with state := rfl, transport := rfl }

theorem Alike.hangUp (h : Alike p c d) {as bs : List Action} (hw : wire as = wire bs) :
    Twin p (c.hangUp as) (d.hangUp bs) := by
  constructor
  · exact h.close
  · rfl
  · rw [hangUp_wire, hangUp_wire, hw]

theorem Alike.twin (h : Alike p c d) (want : Want) {as bs : List Action}
    (hw : wire as = wire bs) : Twin p ⟨c, want, as⟩ ⟨d, want, bs⟩ := ⟨h, rfl, hw⟩

theorem Twin.mono (h : Twin p r r') (hqp : q → p) : Twin q r r' :=
  ⟨h.conn.mono hqp, h.want, h.sent⟩

theorem Twin.after (h : Twin p r r') {as bs : List Action} (hw : wire as = wire bs) :
    Twin p (r.after as) (r'.after bs) := by
  constructor
  · exact h.conn
  · exact h.want
  · rw [Outcome.after_actions, Outcome.after_actions, wire_append, wire_append, hw, h.sent]

/-- Two steps after which the header blocks count if they are still to be sent. -/
abbrev Steps (r r' : Outcome) : Prop := Twin (r.conn.state = .sendingHeaders) r r'

theorem Twin.steps (h : Twin p r r') (hr : r.conn.state ≠ .sendingHeaders) : Steps r r' :=
  h.mono fun he => absurd he hr

theorem Alike.stays (h : Alike p c d) (hc : c.state ≠ .sendingHeaders) (want : Want)
    {as bs : List Action} (hw : wire as = wire bs) : Steps ⟨c, want, as⟩ ⟨d, want, bs⟩ :=
  (h.twin want hw).steps hc

theorem Alike.answers (h : Alike True c d) (want : Want) {as bs : List Action}
    (hw : wire as = wire bs) : Steps ⟨c, want, as⟩ ⟨d, want, bs⟩ :=
  (h.twin want hw).mono fun _ => trivial

/-- A response that both have built in the same way is ready to be sent. -/
theorem Alike.prepareHeaders (h : Alike p c d) (time : Int) :
    Alike True (c.prepareHeaders time) (d.prepareHeaders time) := by
  have hheader : c.response.buildHeaders time = d.response.buildHeaders time := by rw [h.response]
  exact { h with header := fun _ => hheader, headerSent := rfl }

theorem Alike.setResponse (h : Alike p c d) {f : HttpResponse → HttpResponse} :
    Alike p { c with response := f c.response } { d with response := f d.response } :=
  { h with response := congrArg f h.response }

theorem Alike.prepareError (h : Alike p c d) (status : Status) (note : Bytes) (time : Int) :
    Alike True (c.prepareError status note time) (d.prepareError status note time) := by
  have hresp : Alike p _ _ := h.setResponse (f := fun r => HttpResponse.setContentLength
    { r with
      status := status
      body := HttpResponse.errorBody status ++ note
      keepAlive := false
      contentType := bytes "text/html; charset=utf-8" } (HttpResponse.errorBody status ++ note).length)
  exact (hresp.prepareHeaders time).setState .sendingHeaders

theorem Alike.hangUp_steps (h : Alike p c d) {as bs : List Action} (hw : wire as = wire bs) :
    Steps (c.hangUp as) (d.hangUp bs) := by
  apply (h.hangUp hw).steps
  change c.close.state ≠ _
  rw [close_state]
  exact State.noConfusion

theorem Alike.doProtoDetect (h : Alike p c d) (hc : c.state ≠ .sendingHeaders) (io : Io)
    (tls : Bool) : Steps (c.doProtoDetect io tls) (d.doProtoDetect io tls) := by
  unfold Connection.doProtoDetect
  rcases io.peek with (_ | b) | _ | _
  · exact h.hangUp_steps rfl
  · dsimp only
    split
    · split
      · exact (h.setState .tlsAccept).stays State.noConfusion _ rfl
      · exact (h.prepareError ..).answers _ rfl
    · exact ((h.touch io.now).setState .reading).stays State.noConfusion _ rfl
  · exact h.stays hc _ rfl
  · exact h.hangUp_steps rfl

theorem Alike.doTlsAccept (h : Alike p c d) (hc : c.state ≠ .sendingHeaders) (io : Io)
    (ret : SslResult Unit) : Steps (c.doTlsAccept io ret) (d.doTlsAccept io ret) := by
  cases ret with
  | done => exact ((h.touch io.now).setState .reading).stays State.noConfusion _ rfl
  | wantRead => exact h.stays hc _ rfl
  | wantWrite => exact h.stays hc _ rfl
  | error => exact (h.prepareError ..).answers _ rfl

theorem Alike.received (h : Alike p c d) (hc : c.state ≠ .sendingHeaders) (data : Bytes)
    {as bs : List Action} (hw : wire as = wire bs) :
    Steps (c.received data as) (d.received data bs) := by
  have hread : Alike p { c with readBuf := c.readBuf ++ data }
      { d with readBuf := d.readBuf ++ data } :=
    { h with readBuf := congrArg (· ++ data) h.readBuf }
  unfold Connection.received
  dsimp only
  rw [h.readBuf] at hread ⊢
  split
  · exact Twin.steps ⟨{ hread with state := rfl }, rfl, hw⟩ State.noConfusion
  · split
    · exact hread.hangUp_steps hw
    · exact hread.stays hc _ hw

theorem Alike.doRead (h : Alike p c d) (hc : c.state ≠ .sendingHeaders) (io : Io) :
    Steps (c.doRead io) (d.doRead io) := by
  have ht := h.touch io.now
  have htls := h.transport
  unfold isTls at htls
  unfold Connection.doRead
  cases hs : c.ssl with
  | some ssl =>
    rw [hs] at htls
    obtain ⟨ssl', hd⟩ := Option.isSome_iff_exists.1 htls.symm
    simp only [touch_ssl, hs, hd]
    cases io.sslRead with
    | done data =>
      dsimp only
      split
      · exact ht.hangUp_steps rfl
      · exact ht.received hc _ rfl
    | wantRead => exact ht.stays hc _ rfl
    | wantWrite => exact ht.stays hc _ rfl
    | error => exact ht.hangUp_steps rfl
  | none =>
    rw [hs] at htls
    have hd : d.ssl = none := Option.isNone_iff_eq_none.1 (by simpa using htls.symm)
    simp only [touch_ssl, hs, hd]
    cases io.read with
    | done data =>
      dsimp only
      split
      · apply Alike.hangUp_steps
        · exact { ht with
            transport := rfl
            readBuf := congrArg (· ++ List.replicate 4096 0) h.readBuf }
        · rfl
      · exact ht.received hc _ rfl
    | again => exact ht.stays hc _ rfl
    | error => exact ht.hangUp_steps rfl

theorem Alike.doParse (h : Alike p c d) (hc : c.state ≠ .sendingHeaders) (io : Io) :
    Steps (c.doParse io) (d.doParse io) := by
  have hreq : Alike p { c with request := (HttpRequest.parse c.readBuf).2 }
      { d with request := (HttpRequest.parse d.readBuf).2 } :=
    { h with request := by rw [h.readBuf] }
  unfold Connection.doParse
  dsimp only
  rw [h.readBuf] at hreq ⊢
  split
  · exact hreq.stays hc _ rfl
  · exact (hreq.prepareError ..).answers _ rfl

/-- Both transports take the same bytes and go on in the same way. -/
theorem Alike.onSent (h : Alike p c d) {attempt attempt' : Sent × List Action}
    {next next' : Nat → Outcome} (he : attempt.1 = attempt'.1)
    (hw : wire attempt.2 = wire attempt'.2) (hnext : ∀ n, Twin p (next n) (next' n)) :
    Twin p (c.onSent attempt next) (d.onSent attempt' next') := by
  obtain ⟨sent, as⟩ := attempt
  obtain ⟨sent', bs⟩ := attempt'
  cases he
  cases sent with
  | bytes n => exact (hnext n).after hw
  | wait want => exact h.twin _ hw
  | fatal => exact h.hangUp hw

theorem sslWrite_sent (ssl ssl' : Option Nat) (ret : SslResult Nat) (offered : Bytes) :
    (sslWrite ssl ret offered).1 = (sslWrite ssl' ret offered).1 := by
  unfold sslWrite
  cases ret with
  | done n =>
    dsimp only
    split <;> rfl
  | wantRead => rfl
  | wantWrite => rfl
  | error => rfl

theorem plainWrite_sent (fd fd' : Int) (ret : SysResult Nat) (offered : Bytes) :
    (plainWrite fd ret offered).1 = (plainWrite fd' ret offered).1 := by
  cases ret <;> rfl

theorem Alike.transmit (h : Alike p c d) (ret : SysResult Nat) (sslRet : SslResult Nat)
    (offered : Bytes) :
    (c.transmit ret sslRet offered).1 = (d.transmit ret sslRet offered).1 := by
  have htls := h.transport
  unfold isTls at htls
  unfold Connection.transmit
  cases hc : c.ssl with
  | some ssl =>
    rw [hc] at htls
    obtain ⟨ssl', hd⟩ := Option.isSome_iff_exists.1 htls.symm
    rw [hd]
    exact sslWrite_sent ..
  | none =>
    rw [hc] at htls
    have hd : d.ssl = none := Option.isNone_iff_eq_none.1 (by simpa using htls.symm)
    rw [hd]
    exact plainWrite_sent ..

theorem Alike.transmit_wire (h : Alike p c d) (ret : SysResult Nat) (sslRet : SslResult Nat)
    (offered : Bytes) : wire (c.transmit ret sslRet offered).2 =
      wire (d.transmit ret sslRet offered).2 := by
  rw [Connection.transmit_wire, Connection.transmit_wire, h.transmit]

theorem sslWrite_wire_eq (ssl ssl' : Option Nat) (ret : SslResult Nat) (offered : Bytes) :
    wire (sslWrite ssl ret offered).2 = wire (sslWrite ssl' ret offered).2 := by
  rw [sslWrite_wire, sslWrite_wire, sslWrite_sent ssl ssl']

theorem Alike.finishFile (h : Alike p c d) {as bs : List Action} (hw : wire as = wire bs) :
    Twin p (c.finishFile as) (d.finishFile bs) := by
  constructor
  · exact h.closeFile.setState .keepAlive
  · rfl
  · rw [finishFile_wire, finishFile_wire, hw]

theorem chunkRest_sent (c : Connection) (n : Nat) :
    { c with chunkSent := c.chunkSent + n }.chunkRest = c.chunkRest.drop n := List.drop_drop.symm

theorem chunkRest_of_le (h : c.chunkUsed ≤ c.chunkSent) : c.chunkRest = [] := by
  apply List.drop_eq_nil_of_le
  exact Nat.le_trans (List.length_take_le _ _) h

theorem Alike.sendChunk (h : Alike p c d) (io : Io) :
    Twin p (c.sendChunk io) (d.sendChunk io) := by
  unfold Connection.sendChunk
  rw [h.chunk]
  apply h.onSent
  · exact sslWrite_sent ..
  · exact sslWrite_wire_eq ..
  · intro n
    have hs : Alike p { c with chunkSent := c.chunkSent + n }
        { d with chunkSent := d.chunkSent + n } :=
      { h with
        chunk := by rw [chunkRest_sent, chunkRest_sent, h.chunk]
        chunkSent := congrArg (· + n) h.chunkSent }
    have hoff : c.sendOffset + c.chunkUsed = d.sendOffset + d.chunkUsed := by
      rw [h.offset, h.chunkUsed]
    have hrem : c.sendRemaining - c.chunkUsed = d.sendRemaining - d.chunkUsed := by
      rw [h.remaining, h.chunkUsed]
    have hend : c.chunkUsed ≤ c.chunkSent + n ↔ d.chunkUsed ≤ d.chunkSent + n := by
      rw [h.chunkUsed, h.chunkSent]
    dsimp only
    by_cases hn : c.chunkUsed ≤ c.chunkSent + n
    · rw [if_pos hn, if_pos (hend.1 hn)]
      exact ⟨{ hs with offset := hoff, remaining := hrem }, rfl, rfl⟩
    · rw [if_neg hn, if_neg fun hn' => hn (hend.2 hn')]
      exact hs.twin _ rfl

theorem Alike.loadChunk (h : Alike p c d) (data : Bytes) :
    Alike p (c.loadChunk data) (d.loadChunk data) := by
  have hchunk : (c.loadChunk data).chunkRest = (d.loadChunk data).chunkRest := by
    rw [loadChunk_rest, loadChunk_rest]
  exact { h with chunk := hchunk, chunkUsed := rfl, chunkSent := rfl }

theorem Alike.doSendBodyTls (h : Alike p c d) (io : Io) :
    Twin p (c.doSendBodyTls io) (d.doSendBodyTls io) := by
  have hend : c.chunkUsed ≤ c.chunkSent ↔ d.chunkUsed ≤ d.chunkSent := by
    rw [h.chunkUsed, h.chunkSent]
  unfold Connection.doSendBodyTls
  by_cases hc : c.chunkUsed ≤ c.chunkSent
  · have hd := hend.1 hc
    have hrem : c.sendRemaining ≤ 0 ↔ d.sendRemaining ≤ 0 := by rw [h.remaining]
    rw [if_pos hc, if_pos hd, h.readChunk]
    by_cases hz : c.sendRemaining ≤ 0
    · rw [if_pos hz, if_pos (hrem.1 hz)]
      exact h.finishFile rfl
    · rw [if_neg hz, if_neg fun hz' => hz (hrem.2 hz')]
      dsimp only
      split
      · have hcr : { c with chunkBuf := resize c.chunkBuf c.toRead }.chunkRest = [] :=
          chunkRest_of_le hc
        have hdr : { d with chunkBuf := resize d.chunkBuf d.toRead }.chunkRest = [] :=
          chunkRest_of_le hd
        apply Alike.hangUp
        · exact { h with chunk := hcr.trans hdr.symm }
        · rfl
      · exact ((h.loadChunk _).sendChunk io).after rfl
  · rw [if_neg hc, if_neg fun hd => hc (hend.2 hd)]
    exact h.sendChunk io

theorem Alike.doSendBodyPlain (h : Alike p c d) (io : Io) :
    Twin p (c.doSendBodyPlain io) (d.doSendBodyPlain io) := by
  unfold Connection.doSendBodyPlain
  rw [h.remaining, h.offset]
  split
  · exact h.finishFile rfl
  · dsimp only
    split
    · exact h.hangUp rfl
    · cases io.sendfile with
      | done =>
        apply Alike.finishFile
        · exact { h with offset := rfl, remaining := rfl }
        · rfl
      | again n => exact ⟨{ h with offset := rfl, remaining := rfl }, rfl, rfl⟩
      | error n => exact h.hangUp rfl

theorem Alike.doSendBodyMemory (h : Alike p c d) (io : Io) :
    Twin p (c.doSendBodyMemory io) (d.doSendBodyMemory io) := by
  unfold Connection.doSendBodyMemory
  dsimp only
  rw [h.response, h.bodySent]
  split
  · exact ⟨{ h with state := rfl, bodySent := rfl, response := rfl }, rfl, rfl⟩
  · apply h.onSent
    · exact h.transmit ..
    · exact h.transmit_wire ..
    · intro n
      split
      · exact ⟨{ h with state := rfl, bodySent := rfl, response := rfl }, rfl, rfl⟩
      · exact ⟨{ h with bodySent := rfl, response := rfl }, rfl, rfl⟩

theorem Alike.doSendBody (h : Alike p c d) (io : Io) :
    Twin p (c.doSendBody io) (d.doSendBody io) := by
  have hmem : (c.fileFd < 0 ∧ c.response.hasBody) ↔ (d.fileFd < 0 ∧ d.response.hasBody) := by
    rw [h.file_neg, h.response]
  unfold Connection.doSendBody
  by_cases hc : c.fileFd < 0 ∧ c.response.hasBody
  · rw [if_pos hc, if_pos (hmem.1 hc)]
    exact h.doSendBodyMemory io
  · rw [if_neg hc, if_neg fun hd => hc (hmem.2 hd), h.transport]
    split
    · exact h.doSendBodyTls io
    · exact h.doSendBodyPlain io

theorem Alike.headersSent (h : Alike p c d) (io : Io) :
    Twin p (c.headersSent io) (d.headersSent io) := by
  unfold Connection.headersSent
  rw [h.bodiless]
  split
  · exact (h.setState .keepAlive).twin _ rfl
  · exact (h.setState .sendingBody).doSendBody io

/-- Here the header blocks are sent. -/
theorem Alike.doSendHeaders (h : Alike True c d) (io : Io) :
    Twin True (c.doSendHeaders io) (d.doSendHeaders io) := by
  have hbuf := h.header trivial
  unfold Connection.doSendHeaders headerRest
  rw [hbuf, h.headerSent]
  apply h.onSent
  · exact h.transmit ..
  · exact h.transmit_wire ..
  · intro n
    have hs : Alike True { c with headerBuf := d.headerBuf, headerSent := d.headerSent + n }
        { d with headerSent := d.headerSent + n } :=
      { h with header := fun _ => rfl, headerSent := rfl }
    dsimp only
    split
    · exact hs.headersSent io
    · exact hs.twin _ rfl

theorem Alike.setSendFile (h : Alike p c d) (fd size start rangeEnd : Int) :
    Alike p (c.setSendFile fd size start rangeEnd c.isHead)
      (d.setSendFile fd size start rangeEnd d.isHead) :=
  { h with file := .inl rfl, offset := rfl, remaining := rfl }

theorem Alike.preparePage (h : Alike p c d) (io : Io) (status : Status) (body : Bytes) :
    Alike True (c.preparePage io status body).1 (d.preparePage io status body).1 := by
  have hresp : Alike p _ _ := h.setResponse (f := fun r => HttpResponse.setContentLength
    { r with
      status := status
      body := body
      contentType := bytes "text/html; charset=utf-8" } body.length)
  exact hresp.prepareHeaders io.time

theorem Alike.serveFile (h : Alike p c d) (io : Io) (info : FileInfo) :
    Alike True (prepareFile.serveFile io info c).1 (prepareFile.serveFile io info d).1 := by
  unfold prepareFile.serveFile
  rw [h.request, h.response]
  apply Alike.setSendFile
  apply Alike.prepareHeaders
  exact { h with request := rfl, response := rfl }

theorem Alike.prepareFile (h : Alike p c d) (io : Io) (info : FileInfo) :
    Alike True (c.prepareFile io info).1 (d.prepareFile io info).1 := by
  unfold Connection.prepareFile
  rw [h.request, h.response]
  split
  · split
    · apply Alike.prepareHeaders
      exact { h with request := rfl, response := rfl }
    · exact h.serveFile io info
  · exact h.serveFile io info

/-- Whatever a connection has sent before, a response is built anew. -/
theorem Alike.prepareResponse (h : Alike p c d) (io : Io) (server : FileServer) :
    Alike True (c.prepareResponse io server).1 (d.prepareResponse io server).1 := by
  unfold Connection.prepareResponse
  dsimp only
  rw [h.request]
  split
  · apply Alike.preparePage
    exact { h with request := rfl, response := rfl, isHead := rfl }
  · split
    · apply Alike.preparePage
      exact { h with request := rfl, response := rfl, isHead := rfl }
    · apply Alike.preparePage
      exact { h with request := rfl, response := rfl, isHead := rfl }
    · apply Alike.prepareFile
      exact { h with request := rfl, response := rfl, isHead := rfl }

theorem doSendBody_state (io : Io) (hc : c.state = .sendingBody) :
    (c.doSendBody io).conn.state ≠ .sendingHeaders := by
  rcases doSendBody_leads io c with h | h | h | h
  · rw [h, hc]
    exact State.noConfusion
  · rw [h]
    exact State.noConfusion
  · rw [h]
    exact State.noConfusion
  · rw [h]
    exact State.noConfusion

/-- Two connections whose header blocks count while they are being sent. -/
abbrev Steady (c d : Connection) : Prop := Alike (c.state = .sendingHeaders) c d

theorem Alike.reset (h : Alike p c d) : Alike True c.reset d.reset := by
  have hclosed := h.closeFile.file
  exact { h with
    readBuf := rfl
    header := fun _ => rfl
    headerSent := rfl
    file := hclosed
    offset := rfl
    remaining := rfl
    chunk := rfl
    chunkUsed := rfl
    chunkSent := rfl
    bodySent := rfl
    request := rfl
    response := rfl
    isHead := rfl }

theorem Alike.stateAction (h : Steady c d) (io : Io) (tls : Bool) :
    Steps (c.stateAction io tls) (d.stateAction io tls) := by
  have hstate := h.state
  have hnot {s : State} (hs : c.state = s) (hne : s ≠ .sendingHeaders) :
      c.state ≠ .sendingHeaders := by rwa [hs]
  unfold Connection.stateAction
  rw [← hstate]
  cases hs : c.state with
  | closed => exact h.stays (hnot hs State.noConfusion) _ rfl
  | protoDetect => exact h.doProtoDetect (hnot hs State.noConfusion) io tls
  | tlsAccept => exact h.doTlsAccept (hnot hs State.noConfusion) io _
  | reading => exact h.doRead (hnot hs State.noConfusion) io
  | parsing => exact h.doParse (hnot hs State.noConfusion) io
  | sendingHeaders =>
    have hall : Alike True c d := h.mono fun _ => hs
    exact (hall.doSendHeaders io).mono fun _ => trivial
  | sendingBody => exact (h.doSendBody io).steps (doSendBody_state io hs)
  | keepAlive =>
    have hread : Steps (c.reset.doRead io) (d.reset.doRead io) :=
      h.reset.doRead (hnot hs State.noConfusion) io
    apply hread.after
    rw [closeFileActions_wire, closeFileActions_wire]

theorem Twin.injectSsl (h : Steps r r') (io : Io) (tls : Bool) :
    Steps (injectSsl io tls r) (injectSsl io tls r') := by
  have hcond : (r.conn.state = .tlsAccept ∧ ¬ r.conn.isTls) ↔
      (r'.conn.state = .tlsAccept ∧ ¬ r'.conn.isTls) := by rw [h.conn.state, h.conn.transport]
  unfold Connection.injectSsl
  by_cases hr : r.conn.state = .tlsAccept ∧ ¬ r.conn.isTls
  · rw [if_pos hr, if_pos (hcond.1 hr)]
    have hconn : Steady { r.conn with ssl := if tls then io.newSsl else none }
        { r'.conn with ssl := if tls then io.newSsl else none } :=
      { h.conn with transport := rfl }
    have hne : r.conn.state ≠ .sendingHeaders := by
      rw [hr.1]
      exact State.noConfusion
    exact (hconn.doTlsAccept hne io _).after h.sent
  · rw [if_neg hr, if_neg fun hr' => hr (hcond.2 hr')]
    exact h

theorem Twin.inlineParse (h : Steps r r') (io : Io) :
    Steps (inlineParse io r) (inlineParse io r') := by
  have hcond : (r.conn.state = .parsing ∧ r.conn.request.method = .unknown) ↔
      (r'.conn.state = .parsing ∧ r'.conn.request.method = .unknown) := by
    rw [h.conn.state, h.conn.request]
  unfold Connection.inlineParse
  by_cases hr : r.conn.state = .parsing ∧ r.conn.request.method = .unknown
  · rw [if_pos hr, if_pos (hcond.1 hr)]
    have hne : r.conn.state ≠ .sendingHeaders := by
      rw [hr.1]
      exact State.noConfusion
    exact (h.conn.doParse hne io).after h.sent
  · rw [if_neg hr, if_neg fun hr' => hr (hcond.2 hr')]
    exact h

theorem Alike.answerDue (h : Alike p c d) : c.answerDue ↔ d.answerDue := by
  unfold Connection.answerDue
  rw [h.state, h.request]

theorem Twin.answer (h : Steps r r') (io : Io) (server : FileServer) :
    Steps (answer io server r) (answer io server r') := by
  by_cases hr : r.conn.answerDue
  · rw [answer_due io server hr, answer_due io server (h.conn.answerDue.1 hr)]
    have hsend := (h.conn.prepareResponse io server).doSendHeaders io
    apply (hsend.mono fun _ => trivial).after
    rw [wire_append, wire_append, prepareResponse_wire, prepareResponse_wire, h.sent]
  · rw [answer_not_due io server hr,
      answer_not_due io server fun hr' => hr (h.conn.answerDue.2 hr')]
    exact h

/-- A call of `process_connection` tells two such connections apart no more than before. -/
theorem Alike.advance (h : Steady c d) (io : Io) (tls : Bool) (server : FileServer) :
    Steps (c.advance io tls server) (d.advance io tls server) := by
  have hfirst : Steps (c.firstHalf io tls) (d.firstHalf io tls) :=
    (h.stateAction io tls).injectSsl io tls
  exact (hfirst.inlineParse io).answer io server

end Connection

end FileWebServer
