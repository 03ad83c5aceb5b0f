import FileWebServer.Core.Connection
import FileWebServer.Core.ConnectionPool

namespace FileWebServer

inductive Filter where
  | read
  | write
  deriving DecidableEq, Repr

/-- The user data of a registration. -/
inductive Udata where
  | null
  | listener
  | timer
  | conn (slot : Nat)
  deriving DecidableEq, Repr

/-- An entry of `changelist_`: `EV_ADD | EV_ENABLE` or `EV_DELETE`. -/
structure Change where
  ident : Int
  filter : Filter
  delete : Bool
  udata : Udata
  deriving DecidableEq, Repr

/-- An event as `kevent` returns it, with the flags `EV_ERROR` and `EV_EOF`. -/
structure Kevent where
  error : Bool := false
  eof : Bool := false
  udata : Udata
  deriving DecidableEq, Repr

/-- Capacity of the event array, `MAX_EVENTS`. -/
def maxEvents : Nat := 1024

/-- The event loop, with a record of what it has done so far in `trace`. -/
structure EventLoop where
  tlsCtx : Bool
  fileServer : FileServer
  pool : ConnectionPool Connection
  keepAliveTimeout : Int
  keepaliveHead : Option Nat
  changelist : List Change
  trace : List Action

namespace Connection

/-- `EventLoop::prepare_response`, from the opened file on. -/
def prepareFile (io : Io) (info : FileInfo) (c : Connection) : Connection × List Action :=
  match HttpRequest.parseIfModifiedSince io.libc c.request with
  | some ims =>
    if info.lastModified ≤ ims then
      ({ c with response :=
          { c.response with status := .notModified }.setLastModified info.lastModified
        }.prepareHeaders io.time, [.openFile info.fd, .prepareHeaders, .closeFile info.fd])
    else serveFile
  | none => serveFile
where
  serveFile : Connection × List Action :=
    let range := c.request.parseRange info.size
    let rangeStart := match range with | some (s, _) => s | none => 0
    let rangeEnd := match range with | some (_, e) => e | none => wrap64 (info.size - 1)
    let resp := match range with
      | some (s, e) =>
        { c.response with status := .partialContent }.setHeader (bytes "Content-Range")
          (bytes "bytes " ++ decimalInt s ++ bytes "-" ++ decimalInt e ++ bytes "/" ++
            decimalInt info.size)
      | none => c.response
    let contentLength := if 0 < info.size then wrap64 (rangeEnd - rangeStart + 1) else 0
    let resp := { resp with
      status := if range.isSome then .partialContent else .ok
      contentType := info.mimeType }
    let resp := { (resp.setContentLength contentLength).setLastModified info.lastModified with
      acceptRanges := true }
    (({ c with response := resp }.prepareHeaders io.time).setSendFile info.fd info.size
      rangeStart rangeEnd c.isHead, [.openFile info.fd, .prepareHeaders])

/-- The in-memory pages of `EventLoop::prepare_response`. -/
def preparePage (io : Io) (status : Status) (body : Bytes) (c : Connection) :
    Connection × List Action :=
  let resp := { c.response with
    status := status
    body := body
    contentType := bytes "text/html; charset=utf-8" }
  ({ c with response := resp.setContentLength body.length }.prepareHeaders io.time,
    [.prepareHeaders])

def errorStatus : FileError → Status
  | .notFound => .notFound
  | .forbidden => .forbidden
  | .badRequest => .badRequest
  | .isDirectory => .internalError

/-- `EventLoop::prepare_response`. -/
def prepareResponse (io : Io) (server : FileServer) (c : Connection) :
    Connection × List Action :=
  let c := { c with
    response := { HttpResponse.reset with keepAlive := c.request.isKeepAlive }
    isHead := c.request.method == Method.head }
  let (c, actions) :=
    if c.request.method ≠ .get ∧ c.request.method ≠ .head then
      c.preparePage io .notImplemented (HttpResponse.errorBody .notImplemented)
    else match server.openPath io.sys c.request.path with
      | .error .isDirectory =>
        let entries := server.listDirectory io.sys c.request.path
        let showParent := FileServer.normalize c.request.path ≠ [slash]
        c.preparePage io .ok
          (FileServer.buildDirectoryHtml io.libc c.request.path entries showParent)
      | .error err => c.preparePage io (errorStatus err) (HttpResponse.errorBody (errorStatus err))
      | .ok info => c.prepareFile io info
  (c, .prepareResponse :: actions)

/-- The switch of `process_connection`. -/
def stateAction (io : Io) (tls : Bool) (c : Connection) : Outcome :=
  match c.state with
  | .protoDetect => c.doProtoDetect io tls
  | .tlsAccept => c.doTlsAccept io io.sslAccept
  | .reading => c.doRead io
  | .parsing => c.doParse io
  | .sendingHeaders => c.doSendHeaders io
  | .sendingBody => c.doSendBody io
  | .keepAlive => (c.reset.doRead io).after c.closeFileActions
  | .closed => ⟨c, .none, []⟩

/-- The SSL object is injected once the first byte was that of a TLS record. -/
def injectSsl (io : Io) (tls : Bool) (r : Outcome) : Outcome :=
  if r.conn.state = .tlsAccept ∧ ¬ r.conn.isTls then
    let ssl := if tls then io.newSsl else none
    ({ r.conn with ssl := ssl }.doTlsAccept io io.sslAcceptInline).after r.actions
  else r

def inlineParse (io : Io) (r : Outcome) : Outcome :=
  if r.conn.state = .parsing ∧ r.conn.request.method = .unknown then
    (r.conn.doParse io).after r.actions
  else r

/-- The step in which a parsed request gets its response. -/
def answer (io : Io) (server : FileServer) (r : Outcome) : Outcome :=
  if (r.conn.state = .parsing ∨ r.conn.state = .reading) ∧ r.conn.request.method ≠ .unknown then
    let (c, actions) := r.conn.prepareResponse io server
    (c.doSendHeaders io).after (r.actions ++ actions)
  else r

/-- `process_connection` up to its check of `is_closed`. -/
def firstHalf (io : Io) (tls : Bool) (c : Connection) : Outcome :=
  injectSsl io tls (c.stateAction io tls)

/-- `process_connection` between its check of `is_closed` and the keep-alive list. -/
def secondHalf (io : Io) (server : FileServer) (r : Outcome) : Outcome :=
  answer io server (inlineParse io r)

end Connection

namespace EventLoop

/-- The connection that a pointer points to. -/
def conn (s : EventLoop) (i : Nat) : Connection := s.pool.connections i

def setConn (s : EventLoop) (i : Nat) (c : Connection) : EventLoop :=
  { s with pool := s.pool.set i c }

def log (s : EventLoop) (actions : List Action) : EventLoop :=
  { s with trace := s.trace ++ actions }

/-- Calls of `add_event`, one for each change. -/
def addEvents (s : EventLoop) (changes : List Change) : EventLoop :=
  { s with changelist := s.changelist ++ changes }

def create (server : FileServer) (keepAliveTimeout : Int) (tlsCtx : Bool) : EventLoop :=
  { tlsCtx := tlsCtx
    fileServer := server
    pool := .create {}
    keepAliveTimeout := keepAliveTimeout
    keepaliveHead := none
    changelist := []
    trace := [] }

def setNext (s : EventLoop) (i : Nat) (next : Option Nat) : EventLoop :=
  s.setConn i { s.conn i with keepaliveNext := next }

def setPrev (s : EventLoop) (i : Nat) (prev : Option Nat) : EventLoop :=
  s.setConn i { s.conn i with keepalivePrev := prev }

def setListed (s : EventLoop) (i : Nat) (listed : Bool) : EventLoop :=
  s.setConn i { s.conn i with inKeepaliveList := listed }

def setHead (s : EventLoop) (head : Option Nat) : EventLoop := { s with keepaliveHead := head }

def addToKeepaliveList (s : EventLoop) (i : Nat) : EventLoop :=
  if (s.conn i).inKeepaliveList then s
  else
    let s := ((s.setListed i true).setPrev i none).setNext i s.keepaliveHead
    let s := match s.keepaliveHead with
      | some h => s.setPrev h (some i)
      | none => s
    s.setHead (some i)

/-- The predecessor in the list, or its head, is pointed past a connection. -/
def bypassNext (s : EventLoop) (i : Nat) : EventLoop :=
  match (s.conn i).keepalivePrev with
  | some p => s.setNext p (s.conn i).keepaliveNext
  | none => s.setHead (s.conn i).keepaliveNext

def bypassPrev (s : EventLoop) (i : Nat) : EventLoop :=
  match (s.conn i).keepaliveNext with
  | some n => s.setPrev n (s.conn i).keepalivePrev
  | none => s

def removeFromKeepaliveList (s : EventLoop) (i : Nat) : EventLoop :=
  if (s.conn i).inKeepaliveList then
    let s := ((s.setListed i false).bypassNext i).bypassPrev i
    (s.setPrev i none).setNext i none
  else s

/-- The changes that register for one direction and delete the other. -/
def wantChanges (fd : Int) (i : Nat) : Want → List Change
  | .read => [⟨fd, .read, false, .conn i⟩, ⟨fd, .write, true, .null⟩]
  | .write => [⟨fd, .read, true, .null⟩, ⟨fd, .write, false, .conn i⟩]
  | .none => []

def updateEvents (s : EventLoop) (i : Nat) (want : Want) : EventLoop :=
  let fd := (s.conn i).fd
  if fd < 0 ∨ (s.conn i).isClosed then s else s.addEvents (wantChanges fd i want)

def createConnection (s : EventLoop) (fd : Int) (now : Int) : EventLoop × Option Nat :=
  match s.pool.acquire with
  | (_, none) => (s, none)
  | (pool, some i) =>
    let s := { s with pool := pool }.log [.acquire i]
    let c := { (s.conn i).init fd s.fileServer.rootDir s.keepAliveTimeout now with
      tlsAvailable := s.tlsCtx }
    ((s.setConn i c).addEvents [⟨fd, .read, false, .conn i⟩], some i)

/-- The changes that delete both registrations of a descriptor. -/
def destroyChanges (fd : Int) : List Change :=
  if 0 ≤ fd then [⟨fd, .read, true, .null⟩, ⟨fd, .write, true, .null⟩] else []

/-- `ConnectionPool::release` does nothing for a pointer outside the pool. -/
def releaseActions (i : Nat) : List Action := if i < maxConnections then [.release i] else []

def destroyConnection (s : EventLoop) (i : Nat) : EventLoop :=
  let s := s.removeFromKeepaliveList i
  let c := s.conn i
  let s := ((s.addEvents (destroyChanges c.fd)).setConn i c.close).log c.closeActions
  { s with pool := s.pool.release i }.log (releaseActions i)

/-- The loop of `handle_accept` over the descriptors that `accept` returns. -/
def acceptLoop (s : EventLoop) : List (Nat × Int) → EventLoop
  | [] => s
  | (fd, now) :: rest =>
    match (s.log [.accept fd]).createConnection fd now with
    | (s, none) => s.log [.close fd]
    | (s, some _) => acceptLoop s rest

def handleAccept (s : EventLoop) (io : Io) : EventLoop := s.acceptLoop io.accepts

/-- The loop of `handle_timer`. A well-formed list has no more than `maxConnections` nodes,
and the fuel covers those. -/
def timerLoop (clock : Nat → Int) : Nat → EventLoop → Option Nat → EventLoop
  | 0, s, _ => s
  | _ + 1, s, none => s
  | fuel + 1, s, some i =>
    let next := (s.conn i).keepaliveNext
    let s := if (s.conn i).isExpired (clock i) s.keepAliveTimeout then s.destroyConnection i
      else s
    timerLoop clock fuel s next

def handleTimer (s : EventLoop) (io : Io) : EventLoop :=
  timerLoop io.clock (maxConnections + 1) s s.keepaliveHead

/-- The connection and the record take what a step has left behind. -/
def writeBack (s : EventLoop) (i : Nat) (r : Outcome) : EventLoop :=
  (s.setConn i r.conn).log r.actions

/-- The end of `process_connection` compares the state with the one at its entry. -/
def syncKeepaliveList (s : EventLoop) (i : Nat) (prevState : State) : EventLoop :=
  if prevState ≠ .keepAlive ∧ (s.conn i).state = .keepAlive then s.addToKeepaliveList i
  else if prevState = .keepAlive ∧ (s.conn i).state ≠ .keepAlive then
    s.removeFromKeepaliveList i
  else s

/-- `process_connection` on the connection in slot `i`. -/
def processConnection (s : EventLoop) (io : Io) (i : Nat) : EventLoop :=
  let c := s.conn i
  if c.isClosed then s
  else
    let r := c.firstHalf io s.tlsCtx
    if r.conn.isClosed then (s.writeBack i r).destroyConnection i
    else
      let r := Connection.secondHalf io s.fileServer r
      ((s.writeBack i r).syncKeepaliveList i c.state).updateEvents i r.want

/-- An event without user data is that of a failed `EV_DELETE`, and carries `EV_ERROR`. -/
def dispatch (s : EventLoop) (io : Io) (ev : Kevent) : EventLoop :=
  if ev.error ∨ ev.eof then
    match ev.udata with
    | .conn i => s.destroyConnection i
    | _ => s
  else match ev.udata with
    | .listener => s.handleAccept io
    | .timer => s.handleTimer io
    | .conn i => s.processConnection io i
    | .null => s

/-- What `run` is fed with: `kevent` takes the change list and returns a batch, whose events
are then dispatched one by one, each with the answers it meets. -/
inductive Input where
  | kevent
  | event (ev : Kevent) (io : Io)

def step (s : EventLoop) : Input → EventLoop
  | .kevent => { s with changelist := [] }
  | .event ev io => s.dispatch io ev

/-- The inputs of one round of `run`. -/
def round (batch : List (Kevent × Io)) : List Input :=
  .kevent :: batch.map fun e => .event e.1 e.2

end EventLoop

end FileWebServer
