import FileWebServer.Core.Handles
import FileWebServer.Server.Cli

namespace FileWebServer
open Ledger
set_option autoImplicit true

namespace EventLoop

/-- What `kevent` returns: some events, or an error, of which `EINTR` is not one to give up at. -/
inductive Batch where
  | events (batch : List (Kevent × Io))
  | interrupted
  | failed

/-- A round of `run`. `running` is what `g_running` is at its head: a signal may have come. -/
structure Round where
  running : Bool
  kevent : Batch

/-- What a round feeds the event loop with. `kevent` has room for `MAX_EVENTS` events. -/
def Batch.inputs : Batch → List Input
  | events batch => round (batch.take maxEvents)
  | interrupted => [.kevent]
  | failed => [.kevent]

/-- `EventLoop::run`, and whether it has returned. -/
def run (s : EventLoop) : List Round → EventLoop × Bool
  | [] => (s, false)
  | r :: rounds =>
    if r.running then
      let s := r.kevent.inputs.foldl step s
      match r.kevent with
      | .failed => (s, true)
      | _ => run s rounds
    else (s, true)

/-- What the rounds of `run` feed it with before it returns. -/
def taken : List Round → List Input
  | [] => []
  | r :: rounds =>
    if r.running then
      match r.kevent with
      | .failed => r.kevent.inputs
      | _ => r.kevent.inputs ++ taken rounds
    else []

theorem run_eq (s : EventLoop) (rounds : List Round) :
    (s.run rounds).1 = (taken rounds).foldl step s := by
  induction rounds generalizing s with
  | nil => rfl
  | cons r rounds ih =>
    unfold run taken
    split
    · cases hk : r.kevent with
      | events batch => exact (ih _).trans List.foldl_append.symm
      | interrupted => exact (ih _).trans List.foldl_append.symm
      | failed => rfl
    · rfl

theorem step_config (s : EventLoop) (input : Input) : (s.step input).config = s.config := by
  apply step_keeps (Q := fun u => u.config = s.config) _ _ _ _ _ rfl
  · exact fun u h => h
  · exact fun u fd h => ⟨h, h⟩
  · intro u u' i fd now h hc
    obtain ⟨_, _, rfl⟩ := createConnection_some hc
    exact h
  · exact fun u i h => (destroyConnection_config u i).trans h
  · exact fun u io i h => (processConnection_config u io i).trans h

/-- What an event loop is set up with it keeps. -/
theorem run_config (s : EventLoop) (inputs : List Input) :
    (inputs.foldl step s).config = s.config := by
  induction inputs generalizing s with
  | nil => rfl
  | cons input inputs ih => exact (ih (s.step input)).trans (step_config s input)

end EventLoop

open EventLoop (Round)

/-- The answers of the system while the program starts. -/
structure StartIo where
  socket : Int
  bind : Bool
  listen : Bool
  sslCtx : Option Nat
  certificate : Bool
  privateKey : Bool
  keyMatches : Bool
  kqueue : Int
  sys : FileSystem

/-- What the program does that can be seen from outside. -/
inductive Call where
  | print (text : Bytes)
  | complain (text : Bytes)
  | perror (name : Bytes)
  | socket (fd : Int)
  | setsockopt (fd : Int)
  | bind (fd : Int) (port : UInt16)
  | listen (fd : Int)
  | sslCtxNew (ctx : Option Nat)
  | useCertificate (ctx : Nat) (file : Bytes)
  | usePrivateKey (ctx : Nat) (file : Bytes)
  | checkPrivateKey (ctx : Nat)
  | sslCtxFree (ctx : Nat)
  | kqueue (fd : Int)
  | addListener (fd : Int)
  | loop (action : Action)
  | close (fd : Int)

/-- `create_listener`. -/
def createListener (io : StartIo) (port : UInt16) : Int × List Call :=
  let fd := io.socket
  if fd < 0 then (-1, [.socket fd, .perror (bytes "socket")])
  else if ¬ io.bind then
    (-1, [.socket fd, .setsockopt fd, .bind fd port, .perror (bytes "bind"), .close fd])
  else if ¬ io.listen then
    (-1, [.socket fd, .setsockopt fd, .bind fd port, .listen fd, .perror (bytes "listen"),
      .close fd])
  else (fd, [.socket fd, .setsockopt fd, .bind fd port, .listen fd])

structure TlsContext where
  ctx : Option Nat
  loaded : Bool

namespace TlsContext

def create (io : StartIo) : TlsContext × List Call := (⟨io.sslCtx, false⟩, [.sslCtxNew io.sslCtx])

/-- The destructor. -/
def destroy (t : TlsContext) : List Call :=
  match t.ctx with
  | some ctx => [.sslCtxFree ctx]
  | none => []

def loadCertificate (io : StartIo) (certFile keyFile : Bytes) (t : TlsContext) :
    Bool × TlsContext × List Call :=
  match t.ctx with
  | none => (false, t, [])
  | some ctx =>
    if ¬ io.certificate then (false, t, [.useCertificate ctx certFile])
    else if ¬ io.privateKey then
      (false, t, [.useCertificate ctx certFile, .usePrivateKey ctx keyFile])
    else if ¬ io.keyMatches then
      (false, t, [.useCertificate ctx certFile, .usePrivateKey ctx keyFile, .checkPrivateKey ctx])
    else (true, { t with loaded := true },
      [.useCertificate ctx certFile, .usePrivateKey ctx keyFile, .checkPrivateKey ctx])

end TlsContext

/-- `WEB_SERVER_VERSION_STR`. -/
def versionText : Bytes := bytes "file_web_server 1.0.0 (kqueue + HTTP/1.1 + optional TLS)"

def helpText (prog : Bytes) : Bytes :=
  bytes "Usage: " ++ prog ++ bytes " [options]\n" ++
    bytes "Options:\n" ++
    bytes "  --root <dir>     Root directory to serve (default: .)\n" ++
    bytes "  --port <num>     Port to listen on (default: 8080)\n" ++
    bytes "  --cert <file>    TLS certificate file (PEM)\n" ++
    bytes "  --key <file>     TLS private key file (PEM)\n" ++
    bytes "  --timeout <sec>  Keep-Alive timeout (default: 75)\n" ++
    bytes "  --version        Show version\n" ++
    bytes "  --help, -h       Show this help\n"

/-- The certificate is loaded if there is one. -/
def enableTls (io : StartIo) (cfg : ServerConfig) (t : TlsContext) :
    Bool × TlsContext × List Call :=
  match cfg.certFile, cfg.keyFile with
  | some cert, some key =>
    let (loaded, t, calls) := t.loadCertificate io cert key
    if loaded then (true, t, calls ++ [.print (bytes "TLS enabled (cert: " ++ cert ++
      bytes ", key: " ++ key ++ bytes ")\n")])
    else (false, t, calls ++ [.complain (bytes "error: failed to load TLS certificate\n")])
  | _, _ => (true, t, [])

/-- How far `main` gets before `loop.run()`: it returns, or it is about to serve. -/
inductive Startup where
  | exits (code : Nat) (calls : List Call)
  | serves (listenFd : Int) (tls : TlsContext) (loop : EventLoop) (calls : List Call)

/-- `main` up to `loop.run()`. -/
def startUp (io : StartIo) (args : List Bytes) : Startup :=
  match parseArgs args with
  | .error e => .exits 1 [.complain e.text]
  | .ok cfg =>
    if cfg.version then .exits 0 [.print (versionText ++ bytes "\n")]
    else if cfg.help then .exits 0 [.print (helpText (args.headD []))]
    else
      let (listenFd, calls) := createListener io cfg.port
      if listenFd < 0 then .exits 1 calls
      else
        let calls := calls ++ [.print (bytes "Listening on port " ++ decimal cfg.port.toNat ++
          bytes ", serving: " ++ cfg.rootDir ++ bytes "\n")]
        let (tls, created) := TlsContext.create io
        let (enabled, tls, loading) := enableTls io cfg tls
        let calls := calls ++ created ++ loading
        if ¬ enabled then .exits 1 (calls ++ [.close listenFd] ++ tls.destroy)
        else .serves listenFd tls
          (.create (.create io.sys cfg.rootDir) cfg.keepAliveTimeout tls.loaded)
          (calls ++ [.kqueue io.kqueue, .addListener listenFd])

/-- `main` behind `loop.run()`, down to the destructors of the event loop and of the context. -/
def shutDown (io : StartIo) (listenFd : Int) (tls : TlsContext) : List Call :=
  [.close listenFd, .print (bytes "\nServer shut down.\n")] ++
    (if 0 ≤ io.kqueue then [.close io.kqueue] else []) ++ tls.destroy

/-- The program after some rounds of its event loop. -/
structure Process where
  /-- The exit status, if it has ended. -/
  exit : Option Nat
  loop : Option EventLoop
  calls : List Call

def main (io : StartIo) (args : List Bytes) (rounds : List Round) : Process :=
  match startUp io args with
  | .exits code calls => ⟨some code, none, calls⟩
  | .serves listenFd tls loop calls =>
    let (s, returned) := loop.run rounds
    let calls := calls ++ s.trace.map .loop
    if returned then ⟨some 0, some s, calls ++ shutDown io listenFd tls⟩
    else ⟨none, some s, calls⟩

/-- What the program has to give back. -/
inductive Resource where
  | descriptor (fd : Int)
  | context (ctx : Nat)
  | client (handle : Handle)
  deriving DecidableEq

/-- The entry that a call makes in the ledger of these. -/
def Call.entry : Call → Option (Entry Resource)
  | .socket fd => if 0 ≤ fd then some (.opened (.descriptor fd)) else none
  | .kqueue fd => if 0 ≤ fd then some (.opened (.descriptor fd)) else none
  | .close fd => some (.closed (.descriptor fd))
  | .sslCtxNew (some ctx) => some (.opened (.context ctx))
  | .sslCtxFree ctx => some (.closed (.context ctx))
  | .loop action => action.handle.map (.map .client)
  | _ => none

def resources (calls : List Call) : List (Entry Resource) := calls.filterMap Call.entry

@[simp] theorem resources_append (calls calls' : List Call) :
    resources (calls ++ calls') = resources calls ++ resources calls' := List.filterMap_append

def descriptorHeld (fd : Int) : Multiset Resource := if 0 ≤ fd then {.descriptor fd} else 0

def contextHeld : Option Nat → Multiset Resource
  | some ctx => {.context ctx}
  | none => 0

/-- What a program that serves has besides its clients. -/
def ownHeld (io : StartIo) (listenFd : Int) (tls : TlsContext) : Multiset Resource :=
  descriptorHeld listenFd + contextHeld tls.ctx + descriptorHeld io.kqueue

/-- What its clients have. -/
def clientsHeld (s : EventLoop) : Multiset Resource :=
  (∑ i ∈ Finset.range maxConnections, (s.conn i).held).map .client

/-- A call that returns a descriptor, unless it fails. -/
theorem obtain_books {call : Call} {fd : Int} (hc : call.entry =
    if 0 ≤ fd then some (.opened (.descriptor fd)) else none) :
    balance 0 (resources [call]) = some (descriptorHeld fd) := by
  unfold descriptorHeld resources
  by_cases h : 0 ≤ fd
  · rw [if_pos h] at hc ⊢
    rw [List.filterMap_cons_some hc]
    rfl
  · rw [if_neg h] at hc ⊢
    rw [List.filterMap_cons_none hc]
    rfl

theorem close_books_descriptor {fd : Int} (h : 0 ≤ fd) :
    balance (descriptorHeld fd) (resources [.close fd]) = some 0 := by
  unfold descriptorHeld
  rw [if_pos h]
  exact balance_singleton_closed _

/-- A listener that cannot be set up is closed again. -/
theorem createListener_books (io : StartIo) (port : UInt16) :
    balance 0 (resources (createListener io port).2) =
      some (descriptorHeld (createListener io port).1) := by
  have hopened (calls : List Call) : balance 0 (resources (.socket io.socket :: calls)) =
      balance (descriptorHeld io.socket) (resources calls) := by
    change balance 0 (resources ([.socket io.socket] ++ calls)) = _
    rw [resources_append, balance_trans (obtain_books rfl)]
  unfold createListener
  dsimp only
  by_cases hfd : io.socket < 0
  · rw [if_pos hfd]
    dsimp only
    rw [hopened, descriptorHeld, if_neg (Int.not_le.2 hfd)]
    rfl
  · have hclose := close_books_descriptor (Int.not_lt.1 hfd)
    rw [if_neg hfd]
    by_cases hbind : io.bind
    · rw [if_neg (not_not.2 hbind)]
      by_cases hlisten : io.listen
      · rw [if_neg (not_not.2 hlisten)]
        exact hopened _
      · rw [if_pos hlisten]
        exact (hopened _).trans hclose
    · rw [if_pos hbind]
      exact (hopened _).trans hclose

/-- What a listener takes to be set up. -/
theorem createListener_ok {io : StartIo} {port : UInt16} (h : 0 ≤ (createListener io port).1) :
    (createListener io port).1 = io.socket ∧ 0 ≤ io.socket ∧ io.bind = true ∧ io.listen = true := by
  have hneg : ¬ (0 : Int) ≤ -1 := by decide
  unfold createListener at h ⊢
  dsimp only at h ⊢
  by_cases hfd : io.socket < 0
  · rw [if_pos hfd] at h
    exact absurd h hneg
  rw [if_neg hfd] at h ⊢
  by_cases hbind : io.bind
  · rw [if_neg (not_not.2 hbind)] at h ⊢
    by_cases hlisten : io.listen
    · rw [if_neg (not_not.2 hlisten)]
      exact ⟨rfl, Int.not_lt.1 hfd, hbind, hlisten⟩
    · rw [if_pos hlisten] at h
      exact absurd h hneg
  · rw [if_pos hbind] at h
    exact absurd h hneg

/-- Loading a certificate obtains nothing, and leaves the context as it is. -/
theorem enableTls_quiet (io : StartIo) (cfg : ServerConfig) (t : TlsContext) :
    resources (enableTls io cfg t).2.2 = [] ∧ (enableTls io cfg t).2.1.ctx = t.ctx := by
  have hload (cert key : Bytes) : resources (t.loadCertificate io cert key).2.2 = [] ∧
      (t.loadCertificate io cert key).2.1.ctx = t.ctx := by
    unfold TlsContext.loadCertificate
    cases hctx : t.ctx with
    | none => exact ⟨rfl, hctx⟩
    | some ctx =>
      dsimp only
      split
      · exact ⟨rfl, hctx⟩
      split
      · exact ⟨rfl, hctx⟩
      split
      · exact ⟨rfl, hctx⟩
      · exact ⟨rfl, rfl⟩
  unfold enableTls
  split
  · next cert key _ _ =>
    obtain ⟨hquiet, hctx⟩ := hload cert key
    dsimp only
    split
    · refine ⟨?_, hctx⟩
      rw [resources_append, hquiet]
      rfl
    · refine ⟨?_, hctx⟩
      rw [resources_append, hquiet]
      rfl
  · exact ⟨rfl, rfl⟩

theorem sslCtxNew_books (ctx : Option Nat) :
    balance 0 (resources [.sslCtxNew ctx]) = some (contextHeld ctx) := by
  cases ctx <;> rfl

theorem destroy_books (t : TlsContext) :
    balance (contextHeld t.ctx) (resources t.destroy) = some 0 := by
  unfold TlsContext.destroy contextHeld
  cases t.ctx with
  | none => rfl
  | some ctx => exact balance_singleton_closed _

/-- The destructors give back what the program has, in the reverse order. -/
theorem shutDown_books (io : StartIo) (tls : TlsContext) {listenFd : Int} (h : 0 ≤ listenFd) :
    balance (ownHeld io listenFd tls) (resources (shutDown io listenFd tls)) = some 0 := by
  have hqueue : balance (descriptorHeld io.kqueue)
      (resources (if 0 ≤ io.kqueue then [.close io.kqueue] else [])) = some 0 := by
    by_cases hkq : 0 ≤ io.kqueue
    · rw [if_pos hkq]
      exact close_books_descriptor hkq
    · rw [if_neg hkq, descriptorHeld, if_neg hkq]
      rfl
  have hlistener : balance (descriptorHeld listenFd)
      (resources [.close listenFd, .print (bytes "\nServer shut down.\n")]) = some 0 :=
    close_books_descriptor h
  unfold shutDown ownHeld
  rw [resources_append, resources_append, List.append_assoc, add_assoc,
    balance_trans (balance_frame hlistener _), zero_add, add_comm,
    balance_trans (balance_frame hqueue _), zero_add]
  exact destroy_books tls

/-- Where the start leads: every path on which it ends has given everything back. -/
inductive Starts (io : StartIo) (args : List Bytes) : Startup → Prop
  | exits (code : Nat) (calls : List Call) : balance 0 (resources calls) = some 0 →
    Starts io args (.exits code calls)
  | serves {cfg : ServerConfig} {tls : TlsContext} (calls : List Call) :
    parseArgs args = .ok cfg → cfg.version = false → cfg.help = false → 0 ≤ io.socket →
    io.bind = true → io.listen = true → tls.ctx = io.sslCtx →
    balance 0 (resources calls) = some (ownHeld io io.socket tls) →
    Starts io args (.serves io.socket tls
      (.create (.create io.sys cfg.rootDir) cfg.keepAliveTimeout tls.loaded) calls)

theorem startUp_starts (io : StartIo) (args : List Bytes) : Starts io args (startUp io args) := by
  unfold startUp
  cases hcfg : parseArgs args with
  | error e => exact .exits _ _ rfl
  | ok cfg =>
    dsimp only
    by_cases hversion : cfg.version
    · rw [if_pos hversion]
      exact .exits _ _ rfl
    rw [if_neg hversion]
    by_cases hhelp : cfg.help
    · rw [if_pos hhelp]
      exact .exits _ _ rfl
    rw [if_neg hhelp]
    have hbooks := createListener_books io cfg.port
    by_cases hfd : (createListener io cfg.port).1 < 0
    · rw [if_pos hfd]
      rw [descriptorHeld, if_neg (Int.not_le.2 hfd)] at hbooks
      exact .exits _ _ hbooks
    rw [if_neg hfd]
    obtain ⟨hlisten, hsocket, hb, hl⟩ := createListener_ok (Int.not_lt.1 hfd)
    obtain ⟨hquiet, hctx⟩ := enableTls_quiet io cfg (TlsContext.create io).1
    rw [hlisten] at hbooks ⊢
    -- What has been obtained before the certificate is loaded or refused.
    have hloaded (text : Bytes) : balance 0 (resources ((createListener io cfg.port).2 ++
        [.print text] ++ (TlsContext.create io).2 ++
        (enableTls io cfg (TlsContext.create io).1).2.2)) =
          some (descriptorHeld io.socket + contextHeld io.sslCtx) := by
      have hcreated := balance_frame (sslCtxNew_books io.sslCtx) (descriptorHeld io.socket)
      rw [zero_add, add_comm] at hcreated
      rw [resources_append, hquiet, List.append_nil, resources_append, resources_append,
        List.append_assoc, balance_trans hbooks]
      exact hcreated
    by_cases hok : (enableTls io cfg (TlsContext.create io).1).1
    · rw [if_neg (not_not.2 hok)]
      refine .serves _ hcfg (Bool.not_eq_true _ ▸ hversion) (Bool.not_eq_true _ ▸ hhelp) hsocket hb
        hl hctx ?_
      have hkqueue : balance 0 (resources [.kqueue io.kqueue]) = some (descriptorHeld io.kqueue) :=
        obtain_books rfl
      have hqueue := balance_frame hkqueue (descriptorHeld io.socket + contextHeld io.sslCtx)
      rw [zero_add, add_comm (descriptorHeld io.kqueue)] at hqueue
      rw [resources_append, balance_trans (hloaded _), ownHeld, hctx]
      exact hqueue
    · rw [if_pos hok]
      have hclose := balance_frame (close_books_descriptor hsocket) (contextHeld io.sslCtx)
      rw [zero_add] at hclose
      have hdestroy := destroy_books (enableTls io cfg (TlsContext.create io).1).2.1
      rw [hctx] at hdestroy
      apply Starts.exits
      rw [resources_append, resources_append, List.append_assoc, balance_trans (hloaded _),
        balance_trans hclose]
      exact hdestroy

/-- The books of the event loop after some rounds. -/
def bookAfter (s : EventLoop) (rounds : List Round) : EventLoop.Book :=
  (EventLoop.taken rounds).foldl EventLoop.Book.step ⟨s, []⟩

theorem bookAfter_loop (s : EventLoop) (rounds : List Round) :
    (bookAfter s rounds).loop = (s.run rounds).1 := by
  rw [EventLoop.run_eq]
  unfold bookAfter
  generalize EventLoop.taken rounds = inputs
  have hfold (b : EventLoop.Book) :
      (inputs.foldl EventLoop.Book.step b).loop = inputs.foldl EventLoop.step b.loop := by
    induction inputs generalizing b with
    | nil => rfl
    | cons input inputs ih => exact ih (b.step input)
  exact hfold ⟨s, []⟩

/-- The SSL objects that are made while the program runs. -/
def objectsMade (io : StartIo) (args : List Bytes) (rounds : List Round) : List (Entry Resource) :=
  match startUp io args with
  | .exits _ _ => []
  | .serves _ _ s _ => (bookAfter s rounds).made.map fun ssl => .opened (.client (.ssl ssl))

/-- What the program has after some rounds: nothing if it does not get to serve, only what its
clients have once it has ended, and besides that its own as long as it serves. -/
def stillHeld (io : StartIo) (args : List Bytes) (rounds : List Round) : Multiset Resource :=
  match startUp io args with
  | .exits _ _ => 0
  | .serves listenFd tls s _ =>
    clientsHeld (s.run rounds).1 +
      if (s.run rounds).2 then 0 else ownHeld io listenFd tls

theorem along_book {b : EventLoop.Book} {inputs : List EventLoop.Input}
    (h : Run.Along EventLoop.step EventLoop.FreshInput b.loop inputs) :
    Run.Along EventLoop.Book.step (fun b input => b.loop.FreshInput input) b inputs := by
  induction inputs generalizing b with
  | nil => trivial
  | cons input inputs ih => exact ⟨h.1, ih (b := b.step input) h.2⟩

/-- The clients of an event loop have what was obtained for them and not given back. -/
theorem clients_books {server : FileServer} {timeout : Int} {tls : Bool} {rounds : List Round}
    (h : Run.Along EventLoop.step EventLoop.FreshInput (.create server timeout tls)
      (EventLoop.taken rounds)) :
    balance ((bookAfter (.create server timeout tls) rounds).made.map
        fun ssl => Resource.client (.ssl ssl) : Multiset Resource)
      (resources (((EventLoop.create server timeout tls).run rounds).1.trace.map .loop)) =
        some (clientsHeld ((EventLoop.create server timeout tls).run rounds).1) := by
  have hall : Run.Throughout EventLoop.Book.step (fun b => (∃ l, EventLoop.Good b.loop l) ∧
      EventLoop.Balanced b.made b.loop) (EventLoop.openBook server timeout tls)
      (EventLoop.taken rounds) :=
    Run.throughout_of_along
      (fun b input ⟨⟨_, hg⟩, hb⟩ hf => ⟨EventLoop.step_good hg hf, hb.input hg input⟩)
      ⟨⟨[], EventLoop.create_good server timeout tls⟩,
        EventLoop.openBook_balanced server timeout tls⟩
      (along_book h)
  have hlast : EventLoop.Balanced (bookAfter (.create server timeout tls) rounds).made
      (bookAfter (.create server timeout tls) rounds).loop := hall.last.2
  rw [bookAfter_loop] at hlast
  have hmap := balance_map (fun _ _ he => Resource.client.inj he) hlast.settled
  have htrace (as : List Action) :
      resources (as.map .loop) = (handles as).map (.map .client) := by
    unfold resources handles
    rw [List.filterMap_map, List.map_filterMap]
    rfl
  rw [EventLoop.entries, List.map_append, List.map_map, Multiset.map_zero,
    ← htrace] at hmap
  have hmade := balance_opened (0 : Multiset Resource)
    ((bookAfter (.create server timeout tls) rounds).made.map fun ssl => Resource.client (.ssl ssl))
    (resources (((EventLoop.create server timeout tls).run rounds).1.trace.map .loop))
  rw [zero_add] at hmade
  rw [← hmade, List.map_map]
  rw [List.map_map] at hmap
  exact hmap

/-- What is made for the clients comes first in the books, and what is done for them between the
start and the end. -/
theorem serving_books {server : FileServer} {timeout : Int} {tls : Bool} {rounds : List Round}
    {own : Multiset Resource} {calls : List Call}
    (h : Run.Along EventLoop.step EventLoop.FreshInput (.create server timeout tls)
      (EventLoop.taken rounds))
    (hbooks : balance 0 (resources calls) = some own) (later : List Call) :
    balance 0 (((bookAfter (.create server timeout tls) rounds).made.map
        fun ssl => .opened (.client (.ssl ssl))) ++ resources (calls ++
          ((EventLoop.create server timeout tls).run rounds).1.trace.map .loop ++ later)) =
      balance (clientsHeld ((EventLoop.create server timeout tls).run rounds).1 + own)
        (resources later) := by
  have hclients := balance_frame (clients_books h) own
  have hmade := balance_opened (0 : Multiset Resource)
    ((bookAfter (.create server timeout tls) rounds).made.map fun ssl => Resource.client (.ssl ssl))
    (resources (calls ++ ((EventLoop.create server timeout tls).run rounds).1.trace.map .loop ++
      later))
  rw [List.map_map, resources_append, resources_append, List.append_assoc,
    balance_trans (balance_frame hbooks _), add_comm own, balance_trans hclients] at hmade
  rw [resources_append, resources_append, List.append_assoc]
  exact hmade

/-- A client connects to a server with TLS and says hello, and then a signal comes. -/
def interruptedHello : List Round :=
  [⟨true, .events [(⟨false, false, .listener⟩, { accepts := [(5, 0)] })]⟩,
    ⟨true, .events [(⟨false, false, .conn 0⟩, { peek := .done (some 0x16), newSsl := some 7 })]⟩,
    ⟨true, .interrupted⟩, ⟨false, .interrupted⟩]

def willing : StartIo := ⟨3, true, true, some 1, true, true, true, 4, .void⟩

def secureArgs : List Bytes :=
  [bytes "file_web_server", bytes "--cert", bytes "cert.pem", bytes "--key", bytes "key.pem"]

/-- What it takes to load a certificate. -/
def Loadable (io : StartIo) (ctx : Option Nat) : Prop :=
  ctx.isSome ∧ io.certificate = true ∧ io.privateKey = true ∧ io.keyMatches = true

theorem loadCertificate_iff (io : StartIo) (cert key : Bytes) (t : TlsContext) :
    ((t.loadCertificate io cert key).1 = true ↔ Loadable io t.ctx) ∧
      ((t.loadCertificate io cert key).1 = true →
        (t.loadCertificate io cert key).2.1.loaded = true) := by
  unfold TlsContext.loadCertificate Loadable
  have hno {b : Bool} (h : false = true) : b = true := absurd h Bool.false_ne_true
  cases hctx : t.ctx with
  | none => exact ⟨iff_of_false Bool.false_ne_true fun h => Bool.false_ne_true h.1, hno⟩
  | some ctx =>
    dsimp only
    split
    · next hcert => exact ⟨iff_of_false Bool.false_ne_true fun h => hcert h.2.1, hno⟩
    split
    · next hkey => exact ⟨iff_of_false Bool.false_ne_true fun h => hkey h.2.2.1, hno⟩
    split
    · next hmatch => exact ⟨iff_of_false Bool.false_ne_true fun h => hmatch h.2.2.2, hno⟩
    · next hcert hkey hmatch =>
      exact ⟨iff_of_true rfl ⟨rfl, not_not.1 hcert, not_not.1 hkey, not_not.1 hmatch⟩,
        fun _ => rfl⟩

/-- The context has a certificate afterwards exactly if there was one to load, unless that
failed. -/
theorem enableTls_iff (io : StartIo) {cfg : ServerConfig} {t : TlsContext}
    (hpaired : cfg.certFile.isSome = cfg.keyFile.isSome) (hfresh : t.loaded = false) :
    ((enableTls io cfg t).1 = true ↔ (cfg.certFile.isSome → Loadable io t.ctx)) ∧
      ((enableTls io cfg t).1 = true →
        (enableTls io cfg t).2.1.loaded = cfg.certFile.isSome) := by
  unfold enableTls
  cases hcert : cfg.certFile with
  | none =>
    exact ⟨iff_of_true rfl fun h => absurd h Bool.false_ne_true, fun _ => hfresh⟩
  | some cert =>
    rw [hcert] at hpaired
    obtain ⟨key, hkey⟩ := Option.isSome_iff_exists.1 hpaired.symm
    rw [hkey]
    obtain ⟨hiff, hloaded⟩ := loadCertificate_iff io cert key t
    dsimp only
    by_cases hok : (t.loadCertificate io cert key).1
    · rw [if_pos hok]
      exact ⟨iff_of_true rfl fun _ => hiff.1 hok, fun _ => hloaded hok⟩
    · rw [if_neg hok]
      refine ⟨iff_of_false Bool.false_ne_true fun h => hok (hiff.2 (h rfl)), fun h => ?_⟩
      cases h

theorem paired_of_parseArgs {args : List Bytes} {cfg : ServerConfig}
    (h : parseArgs args = .ok cfg) : cfg.certFile.isSome = cfg.keyFile.isSome := by
  unfold parseArgs at h
  split at h
  · cases h
  split at h
  · cases h
  · next cfg' _ hpaired =>
    have hparts : cfg.certFile = cfg'.certFile ∧ cfg.keyFile = cfg'.keyFile := by
      split at h <;> cases h <;> exact ⟨rfl, rfl⟩
    rw [hparts.1, hparts.2]
    exact not_not.1 hpaired

/-- What it takes to serve as the command line asks: a listener, and a certificate if it names
one. -/
structure Granted (io : StartIo) (cfg : ServerConfig) : Prop where
  version : cfg.version = false
  help : cfg.help = false
  socket : 0 ≤ io.socket
  bind : io.bind = true
  listen : io.listen = true
  certificate : cfg.certFile.isSome → Loadable io io.sslCtx

theorem createListener_granted {io : StartIo} {port : UInt16} (hsocket : 0 ≤ io.socket)
    (hbind : io.bind = true) (hlisten : io.listen = true) :
    (createListener io port).1 = io.socket := by
  unfold createListener
  dsimp only
  rw [if_neg (Int.not_lt.2 hsocket), if_neg (not_not.2 hbind), if_neg (not_not.2 hlisten)]

/-- If it serves, it does so with the certificate that the command line names, if it names one. -/
theorem Granted.of_serves {io : StartIo} {args : List Bytes} {listenFd : Int} {tls : TlsContext}
    {s : EventLoop} {calls : List Call} (h : startUp io args = .serves listenFd tls s calls) :
    ∃ cfg, parseArgs args = .ok cfg ∧ Granted io cfg ∧
      s = .create (.create io.sys cfg.rootDir) cfg.keepAliveTimeout cfg.certFile.isSome := by
  unfold startUp at h
  cases hcfg : parseArgs args with
  | error e =>
    rw [hcfg] at h
    cases h
  | ok cfg =>
    rw [hcfg] at h
    dsimp only at h
    by_cases hversion : cfg.version
    · rw [if_pos hversion] at h
      cases h
    rw [if_neg hversion] at h
    by_cases hhelp : cfg.help
    · rw [if_pos hhelp] at h
      cases h
    rw [if_neg hhelp] at h
    by_cases hfd : (createListener io cfg.port).1 < 0
    · rw [if_pos hfd] at h
      cases h
    rw [if_neg hfd] at h
    obtain ⟨_, hsocket, hbind, hlisten⟩ := createListener_ok (Int.not_lt.1 hfd)
    obtain ⟨hiff, hloaded⟩ := enableTls_iff io (t := (TlsContext.create io).1)
      (paired_of_parseArgs hcfg) rfl
    by_cases hok : (enableTls io cfg (TlsContext.create io).1).1
    · rw [if_neg (not_not.2 hok), hloaded hok] at h
      cases h
      exact ⟨cfg, rfl, ⟨Bool.not_eq_true _ ▸ hversion, Bool.not_eq_true _ ▸ hhelp, hsocket, hbind,
        hlisten, hiff.1 hok⟩, rfl⟩
    · rw [if_pos hok] at h
      cases h

theorem Granted.serves {io : StartIo} {args : List Bytes} {cfg : ServerConfig}
    (hcfg : parseArgs args = .ok cfg) (h : Granted io cfg) :
    ∃ listenFd tls s calls, startUp io args = .serves listenFd tls s calls := by
  have hok := (enableTls_iff io (t := (TlsContext.create io).1) (paired_of_parseArgs hcfg)
    rfl).1.2 h.certificate
  have hfd : ¬ (createListener io cfg.port).1 < 0 := by
    rw [createListener_granted h.socket h.bind h.listen]
    exact Int.not_lt.2 h.socket
  unfold startUp
  rw [hcfg]
  dsimp only
  rw [h.version, h.help, if_neg Bool.false_ne_true, if_neg Bool.false_ne_true, if_neg hfd,
    if_neg (not_not.2 hok)]
  exact ⟨_, _, _, _, rfl⟩

/-- The program serves exactly if the command line can be read, asks to serve and gets what it asks
for, above all the certificate; and its event loop is then set up as the command line says for as
long as it runs. -/
theorem main_as_asked (io : StartIo) (args : List Bytes) (rounds : List Round) :
    ((main io args rounds).loop.isSome ↔ ∃ cfg, parseArgs args = .ok cfg ∧ Granted io cfg) ∧
      ∀ cfg s, parseArgs args = .ok cfg → (main io args rounds).loop = some s →
        s.Reachable ∧
          s.config = (cfg.certFile.isSome, .create io.sys cfg.rootDir, cfg.keepAliveTimeout) := by
  cases hstart : startUp io args with
  | exits code calls =>
    have hnone : (main io args rounds).loop = none := by
      unfold main
      rw [hstart]
    rw [hnone]
    constructor
    · apply iff_of_false Bool.false_ne_true
      rintro ⟨cfg, hcfg, hgranted⟩
      obtain ⟨_, _, _, _, hserves⟩ := hgranted.serves hcfg
      rw [hstart] at hserves
      cases hserves
    · intro cfg s _ hs
      cases hs
  | serves listenFd tls s calls =>
    obtain ⟨cfg, hcfg, hgranted, hs⟩ := Granted.of_serves hstart
    have hloop : (main io args rounds).loop = some (s.run rounds).1 := by
      unfold main
      rw [hstart]
      dsimp only
      split <;> rfl
    rw [hloop]
    refine ⟨iff_of_true rfl ⟨cfg, hcfg, hgranted⟩, fun cfg' t hcfg' ht => ?_⟩
    cases hcfg.symm.trans hcfg'
    cases ht
    rw [EventLoop.run_eq, hs, EventLoop.run_config]
    exact ⟨EventLoop.reachable_run .., rfl⟩

end FileWebServer
