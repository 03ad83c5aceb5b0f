import FileWebServer.Core.FirstRead
import FileWebServer.Core.HalfClose

namespace FileWebServer
open Search
set_option autoImplicit true

namespace Connection

/-- A connection with another buffer. -/
def withBuf (c : Connection) (buf : Bytes) : Connection := { c with readBuf := buf }

end Connection

def Outcome.withBuf (r : Outcome) (buf : Bytes) : Outcome := { r with conn := r.conn.withBuf buf }

/-- What an event meets when the client has sent something else. -/
def Io.withReads (io : Io) (read : SysResult Bytes) (sslRead : SslResult Bytes) : Io :=
  { io with read := read, sslRead := sslRead }

namespace Connection

variable {c d : Connection} {r r' : Outcome} {io io' : Io} {buf : Bytes} {read : SysResult Bytes}
  {sslRead : SslResult Bytes}

theorem close_withBuf (c : Connection) (buf : Bytes) :
    (c.withBuf buf).close = c.close.withBuf buf := by
  unfold close withBuf
  dsimp only
  split
  · rfl
  · rfl

theorem hangUp_withBuf (c : Connection) (buf : Bytes) (as : List Action) :
    (c.withBuf buf).hangUp as = (c.hangUp as).withBuf buf := by
  unfold hangUp
  rw [close_withBuf]
  rfl

/-- The buffer has no part in sending. -/
theorem onSent_withBuf (attempt : Sent × List Action) {next next' : Nat → Outcome}
    (h : ∀ n, next' n = (next n).withBuf buf) :
    (c.withBuf buf).onSent attempt next' = (c.onSent attempt next).withBuf buf := by
  obtain ⟨sent, as⟩ := attempt
  cases sent with
  | bytes n =>
    change (next' n).after as = _
    rw [h n]
    rfl
  | wait want => rfl
  | fatal => exact hangUp_withBuf c buf as

/-- The buffer settles no case of a step that sends. -/
theorem ite_withBuf {p : Prop} [Decidable p] {r₁ r₂ r₁' r₂' : Outcome}
    (h₁ : r₁' = r₁.withBuf buf) (h₂ : r₂' = r₂.withBuf buf) :
    (if p then r₁' else r₂') = (if p then r₁ else r₂).withBuf buf := by
  split
  · exact h₁
  · exact h₂

theorem sendChunk_withBuf (io : Io) (c : Connection) (buf : Bytes) :
    sendChunk (io.withReads read sslRead) (c.withBuf buf) = (sendChunk io c).withBuf buf := by
  apply onSent_withBuf
  exact fun n => ite_withBuf rfl rfl

theorem doSendBodyTls_withBuf (io : Io) (c : Connection) (buf : Bytes) :
    doSendBodyTls (io.withReads read sslRead) (c.withBuf buf) =
      (doSendBodyTls io c).withBuf buf := by
  unfold doSendBodyTls
  refine ite_withBuf ?_ (sendChunk_withBuf io c buf)
  refine ite_withBuf rfl ?_
  refine ite_withBuf ?_ ?_
  · exact hangUp_withBuf { c with chunkBuf := resize c.chunkBuf c.toRead } buf _
  · have hsend : sendChunk (io.withReads read sslRead)
        ((c.loadChunk (c.readChunk io)).withBuf buf) =
          (sendChunk io (c.loadChunk (c.readChunk io))).withBuf buf := sendChunk_withBuf io _ buf
    exact congrArg (·.after [.pread c.fileFd c.sendOffset (c.readChunk io)]) hsend

theorem doSendBodyPlain_withBuf (io : Io) (c : Connection) (buf : Bytes) :
    doSendBodyPlain (io.withReads read sslRead) (c.withBuf buf) =
      (doSendBodyPlain io c).withBuf buf := by
  unfold doSendBodyPlain
  refine ite_withBuf rfl ?_
  refine ite_withBuf (hangUp_withBuf c buf _) ?_
  dsimp only [Io.withReads]
  cases io.sendfile with
  | done => rfl
  | again n => rfl
  | error n => exact hangUp_withBuf c buf _

theorem doSendBodyMemory_withBuf (io : Io) (c : Connection) (buf : Bytes) :
    doSendBodyMemory (io.withReads read sslRead) (c.withBuf buf) =
      (doSendBodyMemory io c).withBuf buf := by
  unfold doSendBodyMemory
  refine ite_withBuf rfl ?_
  apply onSent_withBuf
  exact fun n => ite_withBuf rfl rfl

theorem doSendBody_withBuf (io : Io) (c : Connection) (buf : Bytes) :
    doSendBody (io.withReads read sslRead) (c.withBuf buf) = (doSendBody io c).withBuf buf := by
  apply ite_withBuf (doSendBodyMemory_withBuf io c buf)
  exact ite_withBuf (doSendBodyTls_withBuf io c buf) (doSendBodyPlain_withBuf io c buf)

theorem headersSent_withBuf (io : Io) (c : Connection) (buf : Bytes) :
    headersSent (io.withReads read sslRead) (c.withBuf buf) = (headersSent io c).withBuf buf :=
  ite_withBuf rfl (doSendBody_withBuf io { c with state := .sendingBody } buf)

theorem doSendHeaders_withBuf (io : Io) (c : Connection) (buf : Bytes) :
    doSendHeaders (io.withReads read sslRead) (c.withBuf buf) =
      (doSendHeaders io c).withBuf buf := by
  apply onSent_withBuf
  intro n
  exact ite_withBuf (headersSent_withBuf io { c with headerSent := c.headerSent + n } buf) rfl

theorem doProtoDetect_withBuf (io : Io) (tls : Bool) (c : Connection) (buf : Bytes) :
    doProtoDetect (io.withReads read sslRead) tls (c.withBuf buf) =
      (doProtoDetect io tls c).withBuf buf := by
  unfold doProtoDetect
  dsimp only [Io.withReads]
  cases io.peek with
  | done b =>
    cases b with
    | none => exact hangUp_withBuf c buf _
    | some b => exact ite_withBuf (ite_withBuf rfl rfl) rfl
  | again => rfl
  | error => exact hangUp_withBuf c buf _

theorem doTlsAccept_withBuf (io : Io) (ret : SslResult Unit) (c : Connection) (buf : Bytes) :
    doTlsAccept (io.withReads read sslRead) ret (c.withBuf buf) =
      (doTlsAccept io ret c).withBuf buf := by
  cases ret <;> rfl

theorem prepareFile_withBuf (io : Io) (info : FileInfo) (c : Connection) (buf : Bytes) :
    prepareFile (io.withReads read sslRead) info (c.withBuf buf) =
      ((prepareFile io info c).1.withBuf buf, (prepareFile io info c).2) := by
  unfold prepareFile
  dsimp only [withBuf, Io.withReads]
  cases HttpRequest.parseIfModifiedSince io.libc c.request with
  | none => rfl
  | some ims =>
    dsimp only
    by_cases h : info.lastModified ≤ ims
    · rw [if_pos h, if_pos h]
      rfl
    · rw [if_neg h, if_neg h]
      rfl

theorem prepareResponse_withBuf (io : Io) (server : FileServer) (c : Connection) (buf : Bytes) :
    prepareResponse (io.withReads read sslRead) server (c.withBuf buf) =
      ((prepareResponse io server c).1.withBuf buf, (prepareResponse io server c).2) := by
  unfold prepareResponse
  dsimp only [withBuf, Io.withReads]
  by_cases hm : c.request.method ≠ .get ∧ c.request.method ≠ .head
  · rw [if_pos hm, if_pos hm]
    rfl
  · rw [if_neg hm, if_neg hm]
    cases server.openPath io.sys c.request.path with
    | error err => cases err <;> rfl
    | ok info =>
      have hfile : prepareFile (io.withReads read sslRead) info (c.blank.withBuf buf) =
          ((prepareFile io info c.blank).1.withBuf buf, (prepareFile io info c.blank).2) :=
        prepareFile_withBuf io info c.blank buf
      exact congrArg (fun p => (p.1, Action.prepareResponse :: p.2)) hfile

/-- Two connections that differ in nothing but what their buffers hold behind a request. -/
structure SameFront (c d : Connection) : Prop where
  rest : d = c.withBuf d.readBuf
  front : upTo crlfcrlf d.readBuf = upTo crlfcrlf c.readBuf

/-- Two steps that look the same, and leave such connections. -/
structure Echoes (r r' : Outcome) : Prop where
  conn : SameFront r.conn r'.conn
  want : r'.want = r.want
  sent : wire r'.actions = wire r.actions

theorem SameFront.refl (c : Connection) : SameFront c c := ⟨rfl, rfl⟩

theorem SameFront.state (h : SameFront c d) : d.state = c.state := by
  rw [h.rest]
  rfl

theorem SameFront.ssl (h : SameFront c d) : d.ssl = c.ssl := by
  rw [h.rest]
  rfl

theorem SameFront.request (h : SameFront c d) : d.request = c.request := by
  rw [h.rest]
  rfl

theorem Echoes.after (h : Echoes r r') {as bs : List Action} (hw : wire bs = wire as) :
    Echoes (r.after as) (r'.after bs) := by
  refine ⟨h.conn, h.want, ?_⟩
  rw [Outcome.after_actions, Outcome.after_actions, wire_append, wire_append, hw, h.sent]

/-- A step that the buffer has no part in leaves it as it is. -/
theorem SameFront.echoes (h : SameFront c d) (f : Io → Connection → Outcome)
    (hf : ∀ (read : SysResult Bytes) (sslRead : SslResult Bytes) (buf : Bytes),
      f (io.withReads read sslRead) (c.withBuf buf) = (f io c).withBuf buf) :
    Echoes (f io c) (f (io.withReads read sslRead) d) := by
  have hkept : (f io c).conn.readBuf = c.readBuf :=
    congrArg (fun r : Outcome => r.conn.readBuf) (hf io.read io.sslRead c.readBuf)
  rw [h.rest, hf]
  refine ⟨⟨rfl, ?_⟩, rfl, rfl⟩
  rw [hkept]
  exact h.front

theorem SameFront.hangUp (h : SameFront c d) {as bs : List Action} (hw : wire bs = wire as) :
    Echoes (c.hangUp as) (d.hangUp bs) := by
  have hd : d.hangUp bs = (c.hangUp bs).withBuf d.readBuf := by
    rw [← hangUp_withBuf, ← h.rest]
  rw [hd]
  refine ⟨⟨rfl, ?_⟩, rfl, ?_⟩
  · change upTo crlfcrlf d.readBuf = upTo crlfcrlf c.close.readBuf
    rw [close_readBuf]
    exact h.front
  · change wire (c.hangUp bs).actions = wire (c.hangUp as).actions
    rw [hangUp_wire, hangUp_wire, hw]

end Connection

/-- What has been read, behind what has been read already, makes the same beginning. -/
structure SameData (begun data data' : Bytes) : Prop where
  ends : data' = [] ↔ data = []
  front : upTo crlfcrlf (begun ++ data'.take 4096) = upTo crlfcrlf (begun ++ data.take 4096)

/-- Two answers of `read` that differ at most behind the end of a request. -/
def SameRead (begun : Bytes) : SysResult Bytes → SysResult Bytes → Prop
  | .done data, .done data' => SameData begun data data'
  | ret, ret' => ret' = ret

def SameSslRead (begun : Bytes) : SslResult Bytes → SslResult Bytes → Prop
  | .done data, .done data' => SameData begun data data'
  | ret, ret' => ret' = ret

namespace Connection

variable {c d : Connection} {r r' : Outcome} {io io' : Io} {read : SysResult Bytes}
  {sslRead : SslResult Bytes}

theorem SameFront.append (h : SameFront c d) {data data' : Bytes}
    (hdata : upTo crlfcrlf (c.readBuf ++ data') = upTo crlfcrlf (c.readBuf ++ data)) :
    SameFront { c with readBuf := c.readBuf ++ data } { d with readBuf := d.readBuf ++ data' } := by
  constructor
  · rw [h.rest]
    rfl
  · change upTo crlfcrlf (d.readBuf ++ data') = upTo crlfcrlf (c.readBuf ++ data)
    rw [← upTo_append, h.front, upTo_append, hdata]

/-- The end of a request is found in both buffers or in none, and then they are the same. -/
theorem SameFront.received (h : SameFront c d) {data data' : Bytes}
    (hdata : upTo crlfcrlf (c.readBuf ++ data') = upTo crlfcrlf (c.readBuf ++ data))
    {as bs : List Action} (hw : wire bs = wire as) :
    Echoes (c.received data as) (d.received data' bs) := by
  have hsame := h.append hdata
  have hfront : upTo crlfcrlf (d.readBuf ++ data') = upTo crlfcrlf (c.readBuf ++ data) :=
    hsame.front
  have hfind : find crlfcrlf (d.readBuf ++ data') = find crlfcrlf (c.readBuf ++ data) := by
    rw [← find_upTo, hfront, find_upTo]
  unfold Connection.received
  dsimp only
  rw [hfind]
  cases hc : find crlfcrlf (c.readBuf ++ data) with
  | some k =>
    refine ⟨⟨?_, hfront⟩, rfl, hw⟩
    exact congrArg (fun e : Connection => { e with headersComplete := true, state := .parsing })
      hsame.rest
  | none =>
    have heq : d.readBuf ++ data' = c.readBuf ++ data := by
      rw [upTo_of_none hc, upTo_of_none (hfind.trans hc)] at hfront
      exact hfront
    rw [heq] at hsame ⊢
    simp only [Option.isSome_none, Bool.false_eq_true, if_false]
    split
    · exact hsame.hangUp hw
    · exact ⟨hsame, rfl, hw⟩

theorem SameFront.touch (h : SameFront c d) (now : Int) : SameFront (c.touch now) (d.touch now) :=
  ⟨congrArg (fun e : Connection => e.touch now) h.rest, h.front⟩

theorem SameFront.doRead (h : SameFront c d) (hread : SameRead c.readBuf io.read read)
    (hsslRead : SameSslRead c.readBuf io.sslRead sslRead) :
    Echoes (c.doRead io) (d.doRead (io.withReads read sslRead)) := by
  have hd := h.touch io.now
  unfold Connection.doRead
  dsimp only [Io.withReads]
  have hend : Echoes
      ({ c.touch io.now with
          readBuf := (c.touch io.now).readBuf ++ List.replicate 4096 0 }.hangUp
        [.read (c.touch io.now).fd []])
      ({ d.touch io.now with
          readBuf := (d.touch io.now).readBuf ++ List.replicate 4096 0 }.hangUp
        [.read (d.touch io.now).fd []]) := (hd.append rfl).hangUp rfl
  dsimp only at hend
  rw [hd.ssl] at hend ⊢
  -- The read without an SSL object stays as it is when the object is named.
  generalize (c.touch io.now).ssl = ssl at hend ⊢
  cases ssl with
  | some ssl =>
    dsimp only
    cases hr : io.sslRead with
    | done data =>
      rw [hr] at hsslRead
      cases sslRead with
      | done data' =>
        dsimp only
        by_cases hnil : data = []
        · rw [if_pos hnil, if_pos (hsslRead.ends.2 hnil)]
          exact hd.hangUp rfl
        · rw [if_neg hnil, if_neg fun he => hnil (hsslRead.ends.1 he)]
          exact hd.received hsslRead.front rfl
      | wantRead => cases hsslRead
      | wantWrite => cases hsslRead
      | error => cases hsslRead
    | wantRead =>
      rw [hr] at hsslRead
      cases hsslRead
      exact ⟨hd, rfl, rfl⟩
    | wantWrite =>
      rw [hr] at hsslRead
      cases hsslRead
      exact ⟨hd, rfl, rfl⟩
    | error =>
      rw [hr] at hsslRead
      cases hsslRead
      exact hd.hangUp rfl
  | none =>
    dsimp only
    cases hr : io.read with
    | done data =>
      rw [hr] at hread
      cases read with
      | done data' =>
        dsimp only
        by_cases hnil : data = []
        · rw [if_pos hnil, if_pos (hread.ends.2 hnil)]
          exact hend
        · rw [if_neg hnil, if_neg fun he => hnil (hread.ends.1 he)]
          exact hd.received hread.front rfl
      | again => cases hread
      | error => cases hread
    | again =>
      rw [hr] at hread
      cases hread
      exact ⟨hd, rfl, rfl⟩
    | error =>
      rw [hr] at hread
      cases hread
      exact hd.hangUp rfl

/-- The parser looks at nothing behind the end of a request. -/
theorem parse_upTo (raw : Bytes) :
    HttpRequest.parse (upTo crlfcrlf raw) = HttpRequest.parse raw := by
  cases h : find crlfcrlf raw with
  | none => rw [upTo_of_none h]
  | some k =>
    apply HttpRequest.parse_prefix (upTo_isPrefix _ _)
    rw [find_upTo, h]
    rfl

theorem SameFront.doParse (h : SameFront c d) : Echoes (c.doParse io)
    (d.doParse (io.withReads read sslRead)) := by
  have hparse : HttpRequest.parse d.readBuf = HttpRequest.parse c.readBuf := by
    rw [← parse_upTo, h.front, parse_upTo]
  unfold Connection.doParse
  rw [hparse]
  dsimp only
  have hset : { d with request := (HttpRequest.parse c.readBuf).2 } =
      ({ c with request := (HttpRequest.parse c.readBuf).2 } : Connection).withBuf d.readBuf :=
    congrArg (fun e : Connection => { e with request := (HttpRequest.parse c.readBuf).2 }) h.rest
  split
  · exact ⟨⟨hset, h.front⟩, rfl, rfl⟩
  · refine ⟨⟨?_, h.front⟩, rfl, rfl⟩
    exact congrArg (fun e : Connection => e.prepareError .badRequest [] io.time) hset

theorem SameFront.reset (h : SameFront c d) : d.reset = c.reset := by
  rw [h.rest]
  rfl

theorem SameFront.stateAction (h : SameFront c d) (hread : SameRead c.begun io.read read)
    (hsslRead : SameSslRead c.begun io.sslRead sslRead) (tls : Bool) :
    Echoes (c.stateAction io tls) (d.stateAction (io.withReads read sslRead) tls) := by
  unfold Connection.stateAction
  rw [h.state]
  unfold begun at hread hsslRead
  cases hs : c.state with
  | protoDetect =>
    exact h.echoes (fun io c => c.doProtoDetect io tls) fun _ _ buf =>
      doProtoDetect_withBuf io tls c buf
  | tlsAccept =>
    exact h.echoes (fun io c => c.doTlsAccept io io.sslAccept) fun _ _ buf =>
      doTlsAccept_withBuf io io.sslAccept c buf
  | reading =>
    rw [if_pos hs] at hread hsslRead
    exact h.doRead hread hsslRead
  | parsing => exact h.doParse
  | sendingHeaders => exact h.echoes doSendHeaders fun _ _ buf => doSendHeaders_withBuf io c buf
  | sendingBody => exact h.echoes doSendBody fun _ _ buf => doSendBody_withBuf io c buf
  | keepAlive =>
    rw [hs, if_neg State.noConfusion] at hread hsslRead
    have hfile : d.closeFileActions = c.closeFileActions := by
      rw [h.rest]
      rfl
    dsimp only
    rw [h.reset, hfile]
    exact ((SameFront.refl c.reset).doRead hread hsslRead).after rfl
  | closed => exact ⟨h, rfl, rfl⟩

/-- The SSL object is set, and the handshake begins. -/
def shake (tls : Bool) (io : Io) (c : Connection) : Outcome :=
  { c with ssl := if tls then io.newSsl else none }.doTlsAccept io io.sslAcceptInline

theorem Echoes.injectSsl (h : Echoes r r') (tls : Bool) : Echoes (injectSsl io tls r)
    (injectSsl (io.withReads read sslRead) tls r') := by
  unfold Connection.injectSsl Connection.isTls
  rw [h.conn.state, h.conn.ssl]
  split
  · have hshake : Echoes (shake tls io r.conn) (shake tls (io.withReads read sslRead) r'.conn) :=
      h.conn.echoes (shake tls) fun _ _ buf => doTlsAccept_withBuf io io.sslAcceptInline
        { r.conn with ssl := if tls then io.newSsl else none } buf
    exact hshake.after h.sent
  · exact h

theorem Echoes.inlineParse (h : Echoes r r') : Echoes (inlineParse io r)
    (inlineParse (io.withReads read sslRead) r') := by
  unfold Connection.inlineParse
  rw [h.conn.state, h.conn.request]
  split
  · exact h.conn.doParse.after h.sent
  · exact h

/-- A response is prepared, and the sending of it begins. -/
def respond (server : FileServer) (io : Io) (c : Connection) : Outcome :=
  ((c.prepareResponse io server).1.doSendHeaders io).after (c.prepareResponse io server).2

theorem respond_withBuf (server : FileServer) (io : Io) (c : Connection) (buf : Bytes) :
    respond server (io.withReads read sslRead) (c.withBuf buf) =
      (respond server io c).withBuf buf := by
  unfold respond
  rw [prepareResponse_withBuf, doSendHeaders_withBuf]
  rfl

theorem Echoes.answer (h : Echoes r r') (server : FileServer) : Echoes (answer io server r)
    (answer (io.withReads read sslRead) server r') := by
  have hanswer (io : Io) (r : Outcome) (as : List Action) :
      ((r.conn.prepareResponse io server).1.doSendHeaders io).after
        (as ++ (r.conn.prepareResponse io server).2) = (respond server io r.conn).after as := by
    unfold respond Outcome.after
    rw [List.append_assoc]
  unfold Connection.answer
  rw [h.conn.state, h.conn.request]
  split
  · dsimp only
    rw [hanswer, hanswer]
    have hrespond : Echoes (respond server io r.conn)
        (respond server (io.withReads read sslRead) r'.conn) :=
      h.conn.echoes (respond server) fun _ _ buf => respond_withBuf server io r.conn buf
    exact hrespond.after h.sent
  · exact h

/-- A call of `process_connection` does not look at what comes behind a request. -/
theorem SameFront.advance (h : SameFront c d) (hread : SameRead c.begun io.read read)
    (hsslRead : SameSslRead c.begun io.sslRead sslRead) (tls : Bool) (server : FileServer) :
    Echoes (c.advance io tls server) (d.advance (io.withReads read sslRead) tls server) :=
  (((h.stateAction hread hsslRead tls).injectSsl tls).inlineParse).answer server

/-- Two visits in which the client has sent the same, up to the end of a request. -/
inductive SameVisit (c : Connection) : Visit → Visit → Prop
  | process {io : Io} {read : SysResult Bytes} {sslRead : SslResult Bytes} :
    SameRead c.begun io.read read → SameSslRead c.begun io.sslRead sslRead →
    SameVisit c (.process io) (.process (io.withReads read sslRead))
  | sweep (now : Int) : SameVisit c (.sweep now) (.sweep now)
  | destroy : SameVisit c .destroy .destroy

/-- Two clients that send the same requests to a connection, and anything behind each of them. -/
inductive SameRequests (tls : Bool) (server : FileServer) (timeout : Int) :
    Connection → List Visit → List Visit → Prop
  | nil (c : Connection) : SameRequests tls server timeout c [] []
  | cons {c : Connection} {v w : Visit} {vs ws : List Visit} : SameVisit c v w →
    SameRequests tls server timeout (c.visit tls server timeout v).conn vs ws →
    SameRequests tls server timeout c (v :: vs) (w :: ws)

variable {tls : Bool} {server : FileServer} {timeout : Int} {v w : Visit} {vs ws : List Visit}

theorem SameFront.visit (h : SameFront c d) (hv : SameVisit c v w) :
    Echoes (c.visit tls server timeout v) (d.visit tls server timeout w) := by
  cases hv with
  | process hread hsslRead => exact h.advance hread hsslRead tls server
  | sweep now =>
    have hexpired : d.isExpired now timeout = c.isExpired now timeout := by
      rw [h.rest]
      rfl
    unfold Connection.visit
    dsimp only
    rw [h.state, hexpired]
    split
    · exact h.hangUp rfl
    · exact ⟨h, rfl, rfl⟩
  | destroy => exact h.hangUp rfl

/-- What comes behind a request in the same read is as good as never sent. -/
theorem SameRequests.history (hsame : SameRequests tls server timeout c vs ws)
    (h : SameFront c d) :
    d.history tls server timeout ws = c.history tls server timeout vs := by
  induction hsame generalizing d with
  | nil => rfl
  | @cons c v w vs ws hv _ ih =>
    have hstep : Echoes (c.visit tls server timeout v) (d.visit tls server timeout w) := h.visit hv
    rw [history_cons, history_cons, hstep.conn.state, hstep.want, hstep.sent, ih hstep.conn]

end Connection

namespace EventLoop
open Connection

variable {s s' t t' : EventLoop} {i j : Nat} {vs ws : List Visit} {l l' : List Seen}

/-- A client that pipelines is answered as one that does not: whatever follows a request in the
read that completes it makes no difference to any state, `Want` or byte sent, whatever the slots
held before and whatever the event loops do elsewhere. -/
theorem pipelined_bytes_ignored {fd fd' now : Int} (hc : s.config = t.config)
    (hs : s.createConnection fd now = (s', some i))
    (ht : t.createConnection fd' now = (t', some j))
    (hsame : SameRequests s'.tlsCtx s'.fileServer s'.keepAliveTimeout (s'.conn i) vs ws)
    (hl : Lives i s' vs l) (hl' : Lives j t' ws l') : l = l' := by
  obtain ⟨hconfig, hlike⟩ := createConnection_alike hc hs ht
  rw [hl.eq_history, hl'.eq_history, ← slotHistory_congr hconfig hlike ws]
  exact (hsame.history (.refl _)).symm

def newcomer : EventLoop := ((create ⟨bytes "/srv"⟩ 75 false).createConnection 5 0).1

/-- A client in a slot that has been left. -/
def successor : EventLoop := (leftSlot.createConnection 6 0).1

def firstByte (b : UInt8) : Visit := .process { peek := .done (some b) }

def readsGet : Io := { read := .done getText, headerWrite := .done 4096 }

/-- Two requests come in one read. -/
def readsTwo : Io := readsGet.withReads (.done (getText ++ getText)) .wantRead

theorem pipelined_bytes_ignored_get :
    [newcomer.seen 0 (firstByte 0x47),
        (newcomer.visit 0 (firstByte 0x47)).seen 0 (.process readsGet)] =
      [successor.seen 0 (firstByte 0x47),
        (successor.visit 0 (firstByte 0x47)).seen 0 (.process readsTwo)] := by
  have hs : (create ⟨bytes "/srv"⟩ 75 false).createConnection 5 0 = (newcomer, some 0) :=
    Prod.ext rfl (by decide)
  have ht : leftSlot.createConnection 6 0 = (successor, some 0) :=
    Prod.ext rfl (by decide)
  have hc : leftSlot.config = (create ⟨bytes "/srv"⟩ 75 false).config :=
    (destroyConnection_config ..).trans (processConnection_config ..)
  have hread : SameData [] getText (getText ++ getText) := ⟨by decide, by decide⟩
  have hbegun : ((newcomer.conn 0).visit newcomer.tlsCtx newcomer.fileServer
      newcomer.keepAliveTimeout (firstByte 0x47)).conn.begun = [] := by decide
  have hfirst : SameVisit (newcomer.conn 0) (firstByte 0x47) (firstByte 0x47) := .process rfl rfl
  have hsecond : SameVisit ((newcomer.conn 0).visit newcomer.tlsCtx newcomer.fileServer
      newcomer.keepAliveTimeout (firstByte 0x47)).conn (.process readsGet) (.process readsTwo) := by
    refine .process ?_ rfl
    rw [hbegun]
    exact hread
  have hsame := SameRequests.cons hfirst (.cons hsecond (.nil _))
  exact pipelined_bytes_ignored hc.symm hs ht hsame (.visit (.visit (.nil _))) (.visit (.visit (.nil _)))

end EventLoop
end FileWebServer
