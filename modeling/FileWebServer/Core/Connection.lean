import FileWebServer.Core.Io

namespace FileWebServer
open Search

inductive State where
  | closed
  | protoDetect
  | tlsAccept
  | reading
  | parsing
  | sendingHeaders
  | sendingBody
  | keepAlive
  deriving DecidableEq, Repr

inductive Want where
  | none
  | read
  | write
  deriving DecidableEq, Repr

/-- A connection slot. A pointer to a connection is its slot's index in the pool, a pointer
to an SSL object is a number. -/
structure Connection where
  fd : Int := -1
  state : State := .closed
  ssl : Option Nat := none
  tlsAvailable : Bool := false
  readBuf : Bytes := []
  headersComplete : Bool := false
  headerBuf : Bytes := []
  headerSent : Nat := 0
  fileFd : Int := -1
  fileSize : Int := 0
  sendOffset : Int := 0
  sendRemaining : Int := 0
  chunkBuf : Bytes := []
  chunkUsed : Nat := 0
  chunkSent : Nat := 0
  bodySent : Nat := 0
  request : HttpRequest := {}
  response : HttpResponse := {}
  isHead : Bool := false
  keepalivePrev : Option Nat := none
  keepaliveNext : Option Nat := none
  inKeepaliveList : Bool := false
  lastActive : Int := 0
  keepAliveTimeout : Int := 75
  rootDir : Bytes := []
  deriving DecidableEq, Repr

/-- What a step of a connection's state machine leaves behind. -/
structure Outcome where
  conn : Connection
  want : Want
  actions : List Action

/-- The outcome of a step that other actions have come before. -/
def Outcome.after (r : Outcome) (actions : List Action) : Outcome :=
  { r with actions := actions ++ r.actions }

@[simp] theorem Outcome.after_conn (r : Outcome) (as : List Action) : (r.after as).conn = r.conn :=
  rfl

@[simp] theorem Outcome.after_want (r : Outcome) (as : List Action) : (r.after as).want = r.want :=
  rfl

@[simp] theorem Outcome.after_actions (r : Outcome) (as : List Action) :
    (r.after as).actions = as ++ r.actions := rfl

namespace Connection

def isClosed (c : Connection) : Bool := c.state = .closed

def isTls (c : Connection) : Bool := c.ssl.isSome

def init (c : Connection) (fd : Int) (rootDir : Bytes) (kaTimeout now : Int) : Connection :=
  { c with
    fd := fd
    ssl := none
    tlsAvailable := false
    rootDir := rootDir
    keepAliveTimeout := kaTimeout
    state := .protoDetect
    lastActive := now
    headersComplete := false
    headerSent := 0
    fileFd := -1
    fileSize := 0
    sendOffset := 0
    sendRemaining := 0
    chunkUsed := 0
    chunkSent := 0
    bodySent := 0
    isHead := false
    readBuf := []
    request := .reset
    response := .reset
    keepalivePrev := none
    keepaliveNext := none
    inKeepaliveList := false }

def reset (c : Connection) : Connection :=
  { c with
    request := .reset
    response := .reset
    headerBuf := []
    headerSent := 0
    fileFd := if 0 ≤ c.fileFd then -1 else c.fileFd
    fileSize := 0
    sendOffset := 0
    sendRemaining := 0
    chunkUsed := 0
    bodySent := 0
    chunkSent := 0
    isHead := false
    readBuf := [] }

/-- The call that closes the file being sent, if there is one. -/
def closeFileActions (c : Connection) : List Action :=
  if 0 ≤ c.fileFd then [.closeFile c.fileFd] else []

def closeFile (c : Connection) : Connection :=
  { c with fileFd := if 0 ≤ c.fileFd then -1 else c.fileFd }

def close (c : Connection) : Connection :=
  if c.state = .closed then c
  else
    { c with
      fd := if 0 ≤ c.fd then -1 else c.fd
      ssl := none
      fileFd := if 0 ≤ c.fileFd then -1 else c.fileFd
      state := .closed }

def closeActions (c : Connection) : List Action :=
  if c.state = .closed then []
  else
    (if 0 ≤ c.fd then [.shutdown c.fd, .close c.fd] else []) ++
      (match c.ssl with
        | some ssl => [.sslShutdown ssl, .sslFree ssl]
        | none => []) ++ c.closeFileActions

/-- `close(); return Want::NONE;` after some calls. -/
def hangUp (c : Connection) (actions : List Action) : Outcome :=
  ⟨c.close, .none, actions ++ c.closeActions⟩

def prepareHeaders (c : Connection) (time : Int) : Connection :=
  { c with headerBuf := c.response.buildHeaders time, headerSent := 0 }

/-- The answers built inside `Connection`: an error page that closes the connection. -/
def prepareError (c : Connection) (status : Status) (note : Bytes) (time : Int) : Connection :=
  let body := HttpResponse.errorBody status ++ note
  let response := { c.response with
    status := status
    body := body
    keepAlive := false
    contentType := bytes "text/html; charset=utf-8" }
  { prepareHeaders { c with response := response.setContentLength body.length } time with
    state := .sendingHeaders }

def doProtoDetect (io : Io) (tlsAvailable : Bool) (c : Connection) : Outcome :=
  match io.peek with
  | .done none => c.hangUp [.recvPeek c.fd]
  | .again => ⟨c, .read, [.recvPeek c.fd]⟩
  | .error => c.hangUp [.recvPeek c.fd]
  | .done (some b) =>
    if b = 0x16 then
      if tlsAvailable then ⟨{ c with state := .tlsAccept }, .none, [.recvPeek c.fd]⟩
      else
        ⟨c.prepareError .badRequest (bytes "\n(Server does not support HTTPS/TLS)") io.time,
          .write, [.recvPeek c.fd, .prepareHeaders]⟩
    else ⟨{ c with lastActive := io.now, state := .reading }, .read, [.recvPeek c.fd]⟩

def doTlsAccept (io : Io) (ret : SslResult Unit) (c : Connection) : Outcome :=
  match ret with
  | .done _ =>
    ⟨{ c with state := .reading, lastActive := io.now }, .read, [.sslAccept c.ssl ret]⟩
  | .wantRead => ⟨c, .read, [.sslAccept c.ssl ret, .sslGetError]⟩
  | .wantWrite => ⟨c, .write, [.sslAccept c.ssl ret, .sslGetError]⟩
  | .error =>
    ⟨c.prepareError .internalError [] io.time, .write,
      [.sslAccept c.ssl ret, .sslGetError, .prepareHeaders]⟩

/-- The end of `do_read`, on the bytes that have arrived. -/
def received (c : Connection) (data : Bytes) (actions : List Action) : Outcome :=
  let c := { c with readBuf := c.readBuf ++ data }
  if (find crlfcrlf c.readBuf).isSome then
    ⟨{ c with headersComplete := true, state := .parsing }, .none, actions⟩
  else if 65536 < c.readBuf.length then c.hangUp actions
  else ⟨c, .read, actions⟩

def touch (c : Connection) (now : Int) : Connection := { c with lastActive := now }

/-- A read takes 4096 bytes at most; none are the end of the stream, at which the plain branch
leaves the buffer at its enlarged size. -/
def doRead (io : Io) (c : Connection) : Outcome :=
  let c := c.touch io.now
  match c.ssl with
  | some ssl =>
    match io.sslRead with
    | .done data =>
      if data = [] then c.hangUp [.errClearError, .sslRead ssl (.done []), .sslGetError]
      else c.received (data.take 4096) [.errClearError, .sslRead ssl (.done (data.take 4096))]
    | .wantRead => ⟨c, .read, [.errClearError, .sslRead ssl .wantRead, .sslGetError]⟩
    | .wantWrite => ⟨c, .write, [.errClearError, .sslRead ssl .wantWrite, .sslGetError]⟩
    | .error => c.hangUp [.errClearError, .sslRead ssl .error, .sslGetError]
  | none =>
    match io.read with
    | .done data =>
      if data = [] then
        { c with readBuf := c.readBuf ++ List.replicate 4096 0 }.hangUp [.read c.fd []]
      else c.received (data.take 4096) [.read c.fd (data.take 4096)]
    | .again => ⟨c, .read, [.read c.fd []]⟩
    | .error => c.hangUp [.read c.fd []]

def doParse (io : Io) (c : Connection) : Outcome :=
  let (accepted, request) := HttpRequest.parse c.readBuf
  let c := { c with request := request }
  if accepted then ⟨c, .none, [.parse c.readBuf]⟩
  else ⟨c.prepareError .badRequest [] io.time, .write, [.parse c.readBuf, .prepareHeaders]⟩

/-- How an attempt to send ended: some bytes were taken, or none yet, or it failed for good. -/
inductive Sent where
  | bytes (n : Nat)
  | wait (want : Want)
  | fatal
  deriving DecidableEq

/-- `SSL_write` takes at least one byte when it succeeds, and no more than it is offered. -/
def sslWrite (ssl : Option Nat) (ret : SslResult Nat) (offered : Bytes) : Sent × List Action :=
  match ret with
  | .done n =>
    let taken := min n offered.length
    if taken = 0 then (.fatal, [.errClearError, .sslWrite ssl offered .error, .sslGetError])
    else (.bytes taken, [.errClearError, .sslWrite ssl offered (.done taken)])
  | .wantWrite => (.wait .write, [.errClearError, .sslWrite ssl offered .wantWrite, .sslGetError])
  | .wantRead => (.wait .read, [.errClearError, .sslWrite ssl offered .wantRead, .sslGetError])
  | .error => (.fatal, [.errClearError, .sslWrite ssl offered .error, .sslGetError])

def plainWrite (fd : Int) (ret : SysResult Nat) (offered : Bytes) : Sent × List Action :=
  match ret with
  | .done n => (.bytes (min n offered.length), [.write fd (offered.take n)])
  | .again => (.wait .write, [.write fd []])
  | .error => (.fatal, [.write fd []])

/-- One `SSL_write` or `write`, whichever the connection's transport is. -/
def transmit (c : Connection) (ret : SysResult Nat) (sslRet : SslResult Nat) (offered : Bytes) :
    Sent × List Action :=
  match c.ssl with
  | some ssl => sslWrite (some ssl) sslRet offered
  | none => plainWrite c.fd ret offered

/-- Every attempt to send leaves the connection waiting, closes it, or goes on with the number
of bytes taken. -/
def onSent (c : Connection) (attempt : Sent × List Action) (next : Nat → Outcome) : Outcome :=
  match attempt with
  | (.wait want, actions) => ⟨c, want, actions⟩
  | (.fatal, actions) => c.hangUp actions
  | (.bytes n, actions) => (next n).after actions

/-- The state in which a response has been sent, once the file is closed. -/
def finishFile (c : Connection) (actions : List Action) : Outcome :=
  ⟨{ c.closeFile with state := .keepAlive }, .read, actions ++ c.closeFileActions⟩

/-- The bytes `[offset, offset + len)` of a file, as far as it has them. -/
def slice (file : Bytes) (offset len : Int) : Bytes := (file.drop offset.toNat).take len.toNat

/-- `sendfile` refuses a negative offset, and fails only while bytes are left to send. -/
def doSendBodyPlain (io : Io) (c : Connection) : Outcome :=
  if c.sendRemaining ≤ 0 then c.finishFile []
  else
    let data := slice io.file c.sendOffset c.sendRemaining
    if c.sendOffset < 0 then c.hangUp [.sendfile c.fileFd c.fd []]
    else match io.sendfile with
      | .done =>
        { c with sendRemaining := 0 }.finishFile [.sendfile c.fileFd c.fd data]
      | .again n =>
        let sent := min n data.length
        ⟨{ c with
            sendOffset := c.sendOffset + sent
            sendRemaining := c.sendRemaining - sent },
          .write, [.sendfile c.fileFd c.fd (data.take n)]⟩
      | .error n => c.hangUp [.sendfile c.fileFd c.fd (data.take (min n (data.length - 1)))]

/-- `std::vector::resize`. -/
def resize (buf : Bytes) (n : Nat) : Bytes := buf.take n ++ List.replicate (n - buf.length) 0

def chunkSize : Nat := 65536

/-- What is left to send of the current chunk. -/
def chunkRest (c : Connection) : Bytes := (c.chunkBuf.take c.chunkUsed).drop c.chunkSent

/-- The second half of `do_send_body_tls`: one `SSL_write` from the current chunk. -/
def sendChunk (io : Io) (c : Connection) : Outcome :=
  c.onSent (sslWrite c.ssl io.bodySslWrite c.chunkRest) fun n =>
    let c := { c with chunkSent := c.chunkSent + n }
    if c.chunkUsed ≤ c.chunkSent then
      ⟨{ c with
          sendOffset := c.sendOffset + c.chunkUsed
          sendRemaining := c.sendRemaining - c.chunkUsed },
        .write, []⟩
    else ⟨c, .write, []⟩

/-- How many bytes of the file the next chunk is to have. -/
def toRead (c : Connection) : Nat := min c.sendRemaining.toNat chunkSize

/-- The bytes that `pread` gives for the next chunk; it refuses a negative offset. -/
def readChunk (io : Io) (c : Connection) : Bytes :=
  match io.pread with
  | .done n =>
    if c.sendOffset < 0 then [] else slice io.file c.sendOffset (min n c.toRead : Nat)
  | _ => []

/-- The chunk is replaced by the next bytes of the file. -/
def loadChunk (data : Bytes) (c : Connection) : Connection :=
  { c with
    chunkBuf := data ++ (resize c.chunkBuf c.toRead).drop data.length
    chunkUsed := data.length
    chunkSent := 0 }

def doSendBodyTls (io : Io) (c : Connection) : Outcome :=
  if c.chunkUsed ≤ c.chunkSent then
    if c.sendRemaining ≤ 0 then c.finishFile []
    else
      let data := c.readChunk io
      let action := Action.pread c.fileFd c.sendOffset data
      if data = [] then { c with chunkBuf := resize c.chunkBuf c.toRead }.hangUp [action]
      else (sendChunk io (c.loadChunk data)).after [action]
  else sendChunk io c

/-- The branch of `do_send_body` for a body that is in memory. -/
def doSendBodyMemory (io : Io) (c : Connection) : Outcome :=
  let body := c.response.body
  if body.length ≤ c.bodySent then ⟨{ c with state := .keepAlive }, .read, []⟩
  else
    c.onSent (c.transmit io.bodyWrite io.bodySslWrite (body.drop c.bodySent)) fun n =>
      let c := { c with bodySent := c.bodySent + n }
      if body.length ≤ c.bodySent then ⟨{ c with state := .keepAlive }, .read, []⟩
      else ⟨c, .write, []⟩

def doSendBody (io : Io) (c : Connection) : Outcome :=
  if c.fileFd < 0 ∧ c.response.hasBody then doSendBodyMemory io c
  else if c.isTls then doSendBodyTls io c
  else doSendBodyPlain io c

/-- What is left to send of the header block. -/
def headerRest (c : Connection) : Bytes := c.headerBuf.drop c.headerSent

/-- No body follows the header block. -/
def bodiless (c : Connection) : Bool := c.isHead || (!c.response.hasBody && c.fileFd < 0)

/-- The part of `do_send_headers` that comes after the last byte of the header block. -/
def headersSent (io : Io) (c : Connection) : Outcome :=
  if c.bodiless then ⟨{ c with state := .keepAlive }, .read, []⟩
  else doSendBody io { c with state := .sendingBody }

def doSendHeaders (io : Io) (c : Connection) : Outcome :=
  c.onSent (c.transmit io.headerWrite io.headerSslWrite c.headerRest) fun n =>
    let c := { c with headerSent := c.headerSent + n }
    if c.headerBuf.length ≤ c.headerSent then headersSent io c
    else ⟨c, .write, []⟩

def setSendFile (c : Connection) (fd size start rangeEnd : Int) (isHead : Bool) : Connection :=
  { c with
    fileFd := fd
    fileSize := size
    sendOffset := start
    sendRemaining := if start ≤ rangeEnd then wrap64 (rangeEnd - start + 1) else 0
    isHead := isHead }

/-- Nanoseconds of the steady clock against seconds of the timeout. -/
def isExpired (now timeout : Int) (c : Connection) : Bool :=
  timeout * 1000000000 < now - c.lastActive

end Connection

end FileWebServer
