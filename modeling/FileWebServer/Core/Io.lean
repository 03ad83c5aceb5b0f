import FileWebServer.Http.Request
import FileWebServer.Http.Response
import FileWebServer.Server.FileServer

namespace FileWebServer

/-- What a plain system call returns: `-1` with `EAGAIN` is `again`, with any other `errno`
it is `error`. -/
inductive SysResult (α : Type) where
  | done (a : α)
  | again
  | error
  deriving DecidableEq, Repr

/-- What an SSL call returns, with the code that `SSL_get_error` gives when it fails. -/
inductive SslResult (α : Type) where
  | done (a : α)
  | wantRead
  | wantWrite
  | error
  deriving DecidableEq, Repr

/-- What `sendfile` returns, with the number of bytes it has sent. -/
inductive SendfileResult where
  | done
  | again (sent : Nat)
  | error (sent : Nat)
  deriving DecidableEq, Repr

/-- The answers of the outside world while one event is handled. No call below is made twice
for one event, except `SSL_accept`, and `accept` and `is_expired` in their loops. -/
structure Io where
  /-- `Clock::now` in nanoseconds. -/
  now : Int := 0
  /-- `std::time`. -/
  time : Int := 0
  /-- `recv` with `MSG_PEEK`; no byte at the end of the stream. -/
  peek : SysResult (Option UInt8) := .again
  newSsl : Option Nat := none
  sslAccept : SslResult Unit := .wantRead
  /-- `SSL_accept` right after the injection of the SSL object. -/
  sslAcceptInline : SslResult Unit := .wantRead
  /-- `read`; no bytes at the end of the stream. -/
  read : SysResult Bytes := .again
  sslRead : SslResult Bytes := .wantRead
  /-- How many bytes `write` and `SSL_write` take of the header block. -/
  headerWrite : SysResult Nat := .again
  headerSslWrite : SslResult Nat := .wantWrite
  /-- How many bytes they take of an in-memory body or of a chunk. -/
  bodyWrite : SysResult Nat := .again
  bodySslWrite : SslResult Nat := .wantWrite
  sendfile : SendfileResult := .again 0
  pread : SysResult Nat := .error
  /-- The bytes of the file that is being sent. -/
  file : Bytes := []
  sys : FileSystem := .void
  libc : Libc := .utc
  /-- The descriptors that `accept` returns before it fails, each with `Clock::now`. -/
  accepts : List (Nat × Int) := []
  /-- `Clock::now` when the timer sweep looks at a slot. -/
  clock : Nat → Int := fun _ => 0

/-- What the code does that can be seen from outside a function: system and SSL calls, with
the bytes moved, the steps on a request, and the traffic with the connection pool. -/
inductive Action where
  | accept (fd : Int)
  | recvPeek (fd : Int)
  | read (fd : Int) (data : Bytes)
  | write (fd : Int) (data : Bytes)
  | sendfile (file fd : Int) (data : Bytes)
  | pread (file offset : Int) (data : Bytes)
  | sslAccept (ssl : Option Nat) (ret : SslResult Unit)
  | sslRead (ssl : Nat) (ret : SslResult Bytes)
  | sslWrite (ssl : Option Nat) (offered : Bytes) (ret : SslResult Nat)
  | sslGetError
  | errClearError
  | sslShutdown (ssl : Nat)
  | sslFree (ssl : Nat)
  | shutdown (fd : Int)
  | close (fd : Int)
  | openFile (fd : Int)
  | closeFile (fd : Int)
  | parse (raw : Bytes)
  | prepareResponse
  | prepareHeaders
  | acquire (slot : Nat)
  | release (slot : Nat)
  deriving DecidableEq, Repr

/-- The bytes an action puts on its connection's socket, before encryption. -/
def Action.sent : Action → Bytes
  | .write _ data | .sendfile _ _ data => data
  | .sslWrite _ offered (.done n) => offered.take n
  | _ => []

/-- The bytes an action takes from its connection's socket, after decryption. -/
def Action.received : Action → Bytes
  | .read _ data | .sslRead _ (.done data) => data
  | _ => []

/-- All bytes that a list of actions puts on the socket, in order. -/
def wire (actions : List Action) : Bytes := actions.flatMap Action.sent

@[simp] theorem wire_nil : wire [] = [] := rfl

@[simp] theorem wire_cons (a : Action) (as : List Action) : wire (a :: as) = a.sent ++ wire as :=
  List.flatMap_cons

@[simp] theorem wire_append (as bs : List Action) : wire (as ++ bs) = wire as ++ wire bs :=
  List.flatMap_append

end FileWebServer
