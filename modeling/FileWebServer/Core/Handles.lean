import FileWebServer.Lib.Holders
import FileWebServer.Core.FileOwnership
import FileWebServer.Core.Transport

namespace FileWebServer
open Ledger
set_option autoImplicit true

/-- What the server has to give back: a client's socket, or the SSL object for it. -/
inductive Handle where
  | socket (fd : Int)
  | ssl (ssl : Nat)
  deriving DecidableEq

/-- The entry that an action makes in the ledger of these. That an SSL object is made is no action
of its own. -/
def Action.handle : Action → Option (Entry Handle)
  | .accept fd => some (.opened (.socket fd))
  | .close fd => some (.closed (.socket fd))
  | .sslFree ssl => some (.closed (.ssl ssl))
  | _ => none

def handles (actions : List Action) : List (Entry Handle) := actions.filterMap Action.handle

@[simp] theorem handles_nil : handles [] = [] := rfl

@[simp] theorem handles_append (as bs : List Action) :
    handles (as ++ bs) = handles as ++ handles bs := List.filterMap_append

namespace Connection
variable {c d : Connection} {r r' : Outcome} {io : Io} {tls : Bool} {server : FileServer}

def heldSocket (c : Connection) : Multiset Handle := if 0 ≤ c.fd then {.socket c.fd} else 0

def heldSsl (c : Connection) : Multiset Handle :=
  match c.ssl with
  | some ssl => {.ssl ssl}
  | none => 0

/-- What a connection has to give back. -/
def held (c : Connection) : Multiset Handle := c.heldSocket + c.heldSsl

theorem held_congr (hfd : d.fd = c.fd) (hssl : d.ssl = c.ssl) : d.held = c.held := by
  unfold held heldSocket heldSsl
  rw [hfd, hssl]

/-- A closed connection has nothing to give back. -/
def Shut (c : Connection) : Prop := c.state = .closed → c.held = 0

/-- A step after which the connection holds what it has not given back. -/
structure Holds (c : Connection) (r : Outcome) : Prop where
  books : balance c.held (handles r.actions) = some r.conn.held
  shut : Shut c → Shut r.conn

theorem Holds.after {as : List Action} (h : Holds c ⟨d, want, as⟩) (h' : Holds d r) :
    Holds c (r.after as) := by
  refine ⟨?_, fun hc => h'.shut (h.shut hc)⟩
  rw [Outcome.after_actions, handles_append, balance_trans h.books]
  exact h'.books

theorem Holds.base (h : Holds d r) (hfd : d.fd = c.fd) (hssl : d.ssl = c.ssl)
    (hs : d.state = c.state ∨ d.state ≠ .closed) : Holds c r := by
  have hheld := held_congr hfd hssl
  refine ⟨hheld ▸ h.books, fun hc => h.shut fun hcl => ?_⟩
  rcases hs with hs | hs
  · rw [hheld]
    exact hc (hs ▸ hcl)
  · exact (hs hcl).elim

/-- A step that obtains nothing and gives nothing back. -/
theorem Holds.quiet {as : List Action} (hfd : d.fd = c.fd) (hssl : d.ssl = c.ssl)
    (hs : d.state = c.state ∨ d.state ≠ .closed) (has : handles as = []) :
    Holds c ⟨d, want, as⟩ := by
  have hd : Holds d ⟨d, want, as⟩ := by
    refine ⟨?_, id⟩
    change balance d.held (handles as) = _
    rw [has, balance_nil]
  exact hd.base hfd hssl hs

theorem handles_closeFileActions (c : Connection) : handles c.closeFileActions = [] := by
  unfold closeFileActions
  split <;> rfl

theorem heldSocket_books (c : Connection) :
    balance c.heldSocket (handles (if 0 ≤ c.fd then [.shutdown c.fd, .close c.fd] else [])) =
      some 0 := by
  unfold heldSocket
  split
  · exact balance_singleton_closed _
  · rfl

theorem heldSsl_books (c : Connection) :
    balance c.heldSsl (handles (match c.ssl with
      | some ssl => [.sslShutdown ssl, .sslFree ssl]
      | none => [])) = some 0 := by
  unfold heldSsl
  cases c.ssl with
  | none => rfl
  | some ssl => exact balance_singleton_closed _

theorem close_held (hc : c.state ≠ .closed) : c.close.held = 0 := by
  have hfd : ¬ 0 ≤ c.close.fd := Int.not_le.2 (close_fd hc)
  have hssl : c.close.ssl = none := by rw [close, if_neg hc]
  rw [held, heldSocket, heldSsl, if_neg hfd, hssl]
  rfl

/-- Closing a connection gives everything back. -/
theorem close_books_handles (c : Connection) :
    balance c.held (handles c.closeActions) = some c.close.held := by
  by_cases hc : c.state = .closed
  · rw [closeActions, close, if_pos hc, if_pos hc]
    rfl
  · have hsocket := balance_frame c.heldSocket_books c.heldSsl
    rw [zero_add] at hsocket
    rw [closeActions, if_neg hc, handles_append, handles_append, handles_closeFileActions,
      List.append_nil, held, balance_trans hsocket, close_held hc]
    exact c.heldSsl_books

theorem close_shut (h : Shut c) : Shut c.close := by
  intro _
  by_cases hc : c.state = .closed
  · rw [close, if_pos hc]
    exact h hc
  · exact close_held hc

theorem hangUp_holds {as : List Action} (hfd : d.fd = c.fd) (hssl : d.ssl = c.ssl)
    (hs : d.state = c.state ∨ d.state ≠ .closed) (has : handles as = []) :
    Holds c (d.hangUp as) := by
  have hd : Holds d (d.hangUp as) := by
    refine ⟨?_, fun hd => close_shut hd⟩
    rw [hangUp, handles_append, has, List.nil_append]
    exact d.close_books_handles
  exact hd.base hfd hssl hs

theorem finishFile_holds {as : List Action} (hfd : d.fd = c.fd) (hssl : d.ssl = c.ssl)
    (has : handles as = []) : Holds c (d.finishFile as) := by
  have hquiet : handles (as ++ d.closeFileActions) = [] := by
    rw [handles_append, has, handles_closeFileActions]
    rfl
  exact .quiet (d := { d.closeFile with state := .keepAlive }) hfd hssl (.inr State.noConfusion)
    hquiet

theorem sslWrite_handles (ssl : Option Nat) (ret : SslResult Nat) (offered : Bytes) :
    handles (sslWrite ssl ret offered).2 = [] := by
  unfold sslWrite
  cases ret with
  | done n =>
    dsimp only
    split <;> rfl
  | wantRead => rfl
  | wantWrite => rfl
  | error => rfl

theorem transmit_handles (c : Connection) (ret : SysResult Nat) (sslRet : SslResult Nat)
    (offered : Bytes) : handles (c.transmit ret sslRet offered).2 = [] := by
  unfold transmit
  cases c.ssl with
  | none => cases ret <;> rfl
  | some => exact sslWrite_handles ..

theorem onSent_holds {attempt : Sent × List Action} {next : Nat → Outcome}
    (ha : handles attempt.2 = []) (hnext : ∀ n, Holds c (next n)) :
    Holds c (c.onSent attempt next) := by
  obtain ⟨sent, as⟩ := attempt
  cases sent with
  | bytes n =>
    have hquiet : Holds c ⟨c, .none, as⟩ := .quiet rfl rfl (.inl rfl) ha
    exact hquiet.after (hnext n)
  | wait want => exact .quiet rfl rfl (.inl rfl) ha
  | fatal => exact hangUp_holds rfl rfl (.inl rfl) ha

theorem sendChunk_holds (io : Io) (c : Connection) : Holds c (sendChunk io c) := by
  apply onSent_holds
  · exact sslWrite_handles ..
  · intro n
    dsimp only
    split
    · exact .quiet rfl rfl (.inl rfl) rfl
    · exact .quiet rfl rfl (.inl rfl) rfl

theorem doSendBodyTls_holds (io : Io) (c : Connection) : Holds c (doSendBodyTls io c) := by
  unfold doSendBodyTls
  split
  · split
    · exact finishFile_holds rfl rfl rfl
    · dsimp only
      split
      · exact hangUp_holds rfl rfl (.inl rfl) rfl
      · have hload : Holds c ⟨c.loadChunk (c.readChunk io), .none,
            [.pread c.fileFd c.sendOffset (c.readChunk io)]⟩ := .quiet rfl rfl (.inl rfl) rfl
        exact hload.after (sendChunk_holds io _)
  · exact sendChunk_holds io c

theorem doSendBodyPlain_holds (io : Io) (c : Connection) : Holds c (doSendBodyPlain io c) := by
  unfold doSendBodyPlain
  split
  · exact finishFile_holds rfl rfl rfl
  · dsimp only
    split
    · exact hangUp_holds rfl rfl (.inl rfl) rfl
    · cases io.sendfile with
      | done => exact finishFile_holds rfl rfl rfl
      | again n => exact .quiet rfl rfl (.inl rfl) rfl
      | error n => exact hangUp_holds rfl rfl (.inl rfl) rfl

theorem doSendBodyMemory_holds (io : Io) (c : Connection) : Holds c (doSendBodyMemory io c) := by
  unfold doSendBodyMemory
  dsimp only
  split
  · exact .quiet rfl rfl (.inr State.noConfusion) rfl
  · apply onSent_holds
    · exact transmit_handles ..
    · intro n
      split
      · exact .quiet rfl rfl (.inr State.noConfusion) rfl
      · exact .quiet rfl rfl (.inl rfl) rfl

theorem doSendBody_holds (io : Io) (c : Connection) : Holds c (doSendBody io c) := by
  unfold doSendBody
  split
  · exact doSendBodyMemory_holds io c
  · split
    · exact doSendBodyTls_holds io c
    · exact doSendBodyPlain_holds io c

theorem headersSent_holds (io : Io) (c : Connection) : Holds c (headersSent io c) := by
  unfold headersSent
  split
  · exact .quiet rfl rfl (.inr State.noConfusion) rfl
  · exact (doSendBody_holds io { c with state := .sendingBody }).base rfl rfl
      (.inr State.noConfusion)

theorem doSendHeaders_holds (io : Io) (c : Connection) : Holds c (doSendHeaders io c) := by
  apply onSent_holds
  · exact transmit_handles ..
  · intro n
    dsimp only
    split
    · exact (headersSent_holds io _).base rfl rfl (.inl rfl)
    · exact .quiet rfl rfl (.inl rfl) rfl

theorem doProtoDetect_holds (io : Io) (tls : Bool) (c : Connection) :
    Holds c (doProtoDetect io tls c) := by
  unfold doProtoDetect
  rcases io.peek with (_ | b) | _ | _
  · exact hangUp_holds rfl rfl (.inl rfl) rfl
  · dsimp only
    split
    · split
      · exact .quiet rfl rfl (.inr State.noConfusion) rfl
      · exact .quiet rfl rfl (.inr State.noConfusion) rfl
    · exact .quiet rfl rfl (.inr State.noConfusion) rfl
  · exact .quiet rfl rfl (.inl rfl) rfl
  · exact hangUp_holds rfl rfl (.inl rfl) rfl

theorem doTlsAccept_holds (io : Io) (ret : SslResult Unit) (c : Connection) :
    Holds c (doTlsAccept io ret c) := by
  cases ret with
  | done => exact .quiet rfl rfl (.inr State.noConfusion) rfl
  | wantRead => exact .quiet rfl rfl (.inl rfl) rfl
  | wantWrite => exact .quiet rfl rfl (.inl rfl) rfl
  | error => exact .quiet rfl rfl (.inr State.noConfusion) rfl

theorem received_holds (c : Connection) (data : Bytes) {as : List Action}
    (has : handles as = []) : Holds c (c.received data as) := by
  unfold received
  dsimp only
  split
  · exact .quiet rfl rfl (.inr State.noConfusion) has
  · split
    · exact hangUp_holds rfl rfl (.inl rfl) has
    · exact .quiet rfl rfl (.inl rfl) has

theorem ReadCalls.handles {ssl : Option Nat} {as : List Action} (h : ReadCalls ssl as) :
    handles as = [] := by
  cases h with
  | tls => rfl
  | tlsDone => rfl
  | plain => rfl

theorem doRead_holds (io : Io) (c : Connection) : Holds c (doRead io c) := by
  obtain ⟨as, has, ⟨want, h⟩ | ⟨data, _, h⟩ | ⟨buf, _, h⟩⟩ := doRead_forms io c
  · rw [h]
    exact .quiet rfl rfl (.inl rfl) has.handles
  · rw [h]
    exact (received_holds _ _ has.handles).base rfl rfl (.inl rfl)
  · rw [h]
    exact hangUp_holds rfl rfl (.inl rfl) has.handles

theorem doParse_holds (io : Io) (c : Connection) : Holds c (doParse io c) := by
  unfold doParse
  dsimp only
  split
  · exact .quiet rfl rfl (.inl rfl) rfl
  · exact .quiet rfl rfl (.inr State.noConfusion) rfl

theorem stateAction_holds (io : Io) (tls : Bool) (c : Connection) :
    Holds c (c.stateAction io tls) := by
  unfold stateAction
  cases c.state with
  | closed => exact .quiet rfl rfl (.inl rfl) rfl
  | protoDetect => exact doProtoDetect_holds ..
  | tlsAccept => exact doTlsAccept_holds ..
  | reading => exact doRead_holds ..
  | parsing => exact doParse_holds ..
  | sendingHeaders => exact doSendHeaders_holds ..
  | sendingBody => exact doSendBody_holds ..
  | keepAlive =>
    have hreset : Holds c ⟨c.reset, .none, c.closeFileActions⟩ :=
      .quiet rfl rfl (.inl rfl) (handles_closeFileActions c)
    exact hreset.after (doRead_holds ..)

/-- The SSL objects that `new_ssl` makes in a call of `process_connection`. -/
def newObjects (io : Io) (tls : Bool) (c : Connection) : List Nat :=
  if (c.stateAction io tls).conn.state = .tlsAccept ∧ ¬ (c.stateAction io tls).conn.isTls then
    (if tls then io.newSsl else none).toList
  else []

theorem held_inject (h : d.ssl = none) (ssl : Option Nat) :
    held { d with ssl := ssl } = d.held + (ssl.toList.map Handle.ssl : Multiset Handle) := by
  have hnone : d.held = d.heldSocket := by
    rw [held, heldSsl, h]
    exact add_zero _
  rw [hnone]
  cases ssl with
  | none => rfl
  | some ssl => rfl

/-- A new object is held by the connection that it is injected into. -/
theorem firstHalf_books (io : Io) (tls : Bool) (c : Connection) :
    balance (c.held + ((c.newObjects io tls).map Handle.ssl : Multiset Handle))
        (handles (c.firstHalf io tls).actions) = some (c.firstHalf io tls).conn.held ∧
      (Shut c → Shut (c.firstHalf io tls).conn) := by
  have haction := stateAction_holds io tls c
  unfold newObjects firstHalf injectSsl
  split
  · next ht =>
    have hnone : (c.stateAction io tls).conn.ssl = none := Option.not_isSome_iff_eq_none.1 ht.2
    have haccept := doTlsAccept_holds io io.sslAcceptInline
      { (c.stateAction io tls).conn with ssl := if tls then io.newSsl else none }
    refine ⟨?_, fun _ => haccept.shut fun hcl => State.noConfusion (ht.1.symm.trans hcl)⟩
    rw [Outcome.after_actions, handles_append, balance_trans (balance_frame haction.books _),
      ← held_inject hnone]
    exact haccept.books
  · rw [List.map_nil, Multiset.coe_nil, add_zero]
    exact ⟨haction.books, haction.shut⟩

theorem prepareResponse_handles (io : Io) (server : FileServer) (c : Connection) :
    handles (c.prepareResponse io server).2 = [] := by
  rcases prepareResponse_cases io server c with ⟨status, body, hp, _⟩ | ⟨info, hp, _⟩
  · rw [hp]
    rfl
  · rw [hp]
    obtain ⟨resp, _, hf | ⟨start, stop, hf⟩⟩ := prepareFile_cases io info c.blank
    · rw [hf]
      rfl
    · rw [hf]
      rfl

theorem prepareResponse_holds (io : Io) (server : FileServer) (c : Connection) :
    Holds c ⟨(c.prepareResponse io server).1, .none, (c.prepareResponse io server).2⟩ := by
  have hprep := prepareResponse_prepared io server c
  exact .quiet hprep.fd (prepareResponse_line io server c).1 (.inl hprep.state)
    (prepareResponse_handles io server c)

/-- What the second half of a call adds to the first. -/
theorem secondHalf_holds (io : Io) (server : FileServer) (r : Outcome) :
    ∃ r', (secondHalf io server r).conn = r'.conn ∧
      (secondHalf io server r).actions = r.actions ++ r'.actions ∧ Holds r.conn r' := by
  have hparse : ∃ r', inlineParse io r = r'.after r.actions ∧ Holds r.conn r' := by
    unfold inlineParse
    split
    · exact ⟨_, rfl, doParse_holds io r.conn⟩
    · refine ⟨⟨r.conn, r.want, []⟩, ?_, .quiet rfl rfl (.inl rfl) rfl⟩
      rw [Outcome.after, List.append_nil]
  obtain ⟨p, hp, hholds⟩ := hparse
  unfold secondHalf
  rw [hp]
  by_cases hd : (p.after r.actions).conn.answerDue
  · have hanswer := (prepareResponse_holds io server p.conn).after
      (doSendHeaders_holds io (p.conn.prepareResponse io server).1)
    have hboth : Holds r.conn (((doSendHeaders io (p.conn.prepareResponse io server).1).after
        (p.conn.prepareResponse io server).2).after p.actions) := hholds.after hanswer
    rw [answer_due io server hd]
    refine ⟨((doSendHeaders io (p.conn.prepareResponse io server).1).after
      (p.conn.prepareResponse io server).2).after p.actions, rfl, ?_, hboth⟩
    simp only [Outcome.after_actions, Outcome.after_conn, List.append_assoc]
  · rw [answer_not_due io server hd]
    exact ⟨p, rfl, rfl, hholds⟩

/-- A call of `process_connection` keeps account of the socket and of the SSL object. -/
theorem advance_books (io : Io) (tls : Bool) (server : FileServer) (c : Connection) :
    balance (c.held + ((c.newObjects io tls).map Handle.ssl : Multiset Handle))
        (handles (c.advance io tls server).actions) = some (c.advance io tls server).conn.held ∧
      (Shut c → Shut (c.advance io tls server).conn) := by
  obtain ⟨hfirst, hshut⟩ := firstHalf_books io tls c
  obtain ⟨r, hconn, hactions, hr⟩ := secondHalf_holds io server (c.firstHalf io tls)
  unfold advance
  rw [hconn, hactions, handles_append, balance_trans hfirst]
  exact ⟨hr.books, fun hc => hr.shut (hshut hc)⟩

theorem held_core (h : c.core = d.core) : c.held = d.held := by
  have hheld := congrArg held h
  exact hheld

theorem shut_core (h : c.core = d.core) (hd : Shut d) : Shut c := by
  intro hc
  rw [held_core h]
  exact hd (core_state h ▸ hc)

end Connection

namespace EventLoop
open Connection
variable {s s' : EventLoop} {i j : Nat} {made : List Nat} {l : List Nat}

/-- The entries of what has been done, behind those of the SSL objects made in the meantime. -/
def entries (made : List Nat) (s : EventLoop) : List (Entry Handle) :=
  (made.map Handle.ssl).map .opened ++ handles s.trace

/-- Everything that has been obtained and not been given back is held by an open connection. -/
structure Balanced (made : List Nat) (s : EventLoop) : Prop where
  settled : Settled (Finset.range maxConnections) (fun i => (s.conn i).held) (entries made s)
  shut : ∀ i, Shut (s.conn i)

theorem entries_concat (made news : List Nat) {as : List Action}
    (ht : handles s'.trace = handles s.trace ++ handles as) :
    entries (news ++ made) s' = (news.map Handle.ssl).map .opened ++ entries made s ++
      handles as := by
  simp only [entries, ht, List.map_append, List.append_assoc]

/-- A step of one connection settles what that connection has obtained. -/
theorem Balanced.step {r : Outcome} (h : Balanced made s) (news : List Nat)
    (hi : i < maxConnections)
    (hbooks : balance ((s.conn i).held + (news.map Handle.ssl : Multiset Handle))
      (handles r.actions) = some r.conn.held) (hshut : Shut r.conn)
    (hconn : (s'.conn i).core = r.conn.core)
    (hother : ∀ j, j ≠ i → (s'.conn j).core = (s.conn j).core)
    (ht : handles s'.trace = handles s.trace ++ handles r.actions) :
    Balanced (news ++ made) s' := by
  constructor
  · rw [entries_concat made news ht]
    apply h.settled.step (Finset.mem_range.2 hi)
    · rw [hbooks, held_core hconn]
    · exact fun j hji => held_core (hother j hji)
  · intro j
    by_cases hji : j = i
    · subst hji
      exact shut_core hconn hshut
    · exact shut_core (hother j hji) (h.shut j)

theorem Balanced.congr (h : Balanced made s) (hc : ∀ i, (s'.conn i).core = (s.conn i).core)
    (ht : handles s'.trace = handles s.trace) : Balanced made s' := by
  constructor
  · unfold entries
    rw [ht]
    exact h.settled.congr fun i => held_core (hc i)
  · exact fun i => shut_core (hc i) (h.shut i)

theorem releaseActions_handles (i : Nat) : handles (releaseActions i) = [] := by
  unfold releaseActions
  split <;> rfl

theorem destroyConnection_core (hji : j ≠ i) :
    ((s.destroyConnection i).conn j).core = (s.conn j).core := by
  have hcore := destroyConnection_conn s i j
  rwa [if_neg hji] at hcore

/-- A connection that is destroyed has given back everything. -/
theorem Balanced.destroy (h : Balanced made s) (hi : i < maxConnections) :
    Balanced made (s.destroyConnection i) := by
  have hr : Holds (s.conn i) ((s.conn i).hangUp []) := hangUp_holds rfl rfl (.inl rfl) rfl
  refine h.step [] hi ?_ (hr.shut (h.shut i)) (destroyConnection_outcome s i).1
    (fun j hji => destroyConnection_core hji) ?_
  · rw [List.map_nil, Multiset.coe_nil, add_zero]
    exact hr.books
  · rw [destroyConnection_trace, handles_append, handles_append, releaseActions_handles,
      List.append_nil]
    rfl

/-- A pointer from outside the pool destroys nothing. -/
theorem Balanced.destroy_outside (h : Balanced made s) (hg : Good s l)
    (hi : maxConnections ≤ i) : Balanced made (s.destroyConnection i) := by
  have hclosed : (s.conn i).state = .closed := by
    by_contra hlive
    exact absurd (hg.slots.live i hlive).1 (Nat.not_lt_of_le hi)
  apply h.congr
  · intro j
    by_cases hji : j = i
    · rw [hji, (destroyConnection_outcome s i).1, hangUp, close, if_pos hclosed]
    · exact destroyConnection_core hji
  · rw [destroyConnection_trace, handles_append, handles_append, releaseActions_handles,
      closeActions, if_pos hclosed, handles_nil, List.append_nil, List.append_nil]

theorem Balanced.process (h : Balanced made s) (io : Io) (hi : i < maxConnections) :
    Balanced ((s.conn i).newObjects io s.tlsCtx ++ made) (s.processConnection io i) := by
  obtain ⟨hbooks, hshut⟩ := advance_books io s.tlsCtx s.fileServer (s.conn i)
  obtain ⟨hcore, released, hreleased, htrace⟩ := processConnection_outcome s io i
  refine h.step _ hi hbooks (hshut (h.shut i)) hcore
    (fun j hji => (processConnection_elsewhere s io hji).conn) ?_
  have hquiet : handles released = [] := by
    rcases hreleased with h | h
    · rw [h]
      rfl
    · rw [h]
      exact releaseActions_handles i
  rw [htrace, handles_append, handles_append, hquiet, List.append_nil]

/-- A new connection gets a slot whose last connection has been closed. -/
theorem SlotInv.created {fd now : Int} (h : SlotInv s)
    (hc : s.createConnection fd now = (s', some i)) :
    i < maxConnections ∧ (s.conn i).state = .closed := by
  obtain ⟨pool, ha, _⟩ := createConnection_some hc
  have hi := (ConnectionPool.acquire_inUse h.pool ha i).2 (.inl rfl)
  refine ⟨hi.1, ?_⟩
  by_contra hlive
  exact ConnectionPool.acquire_fresh ha (h.live i hlive)

/-- The socket of a new client is held by its connection. -/
theorem Balanced.create {fd : Nat} {now : Int} (h : Balanced made s) (hg : Good s l)
    (hc : (s.log [.accept fd]).createConnection fd now = (s', some i)) : Balanced made s' := by
  have hlog : SlotInv (s.log [.accept fd]) :=
    (hg.log fun i => by simp [traffic, Action.isTraffic]).slots
  obtain ⟨hi, hclosed⟩ := hlog.created hc
  obtain ⟨_, _, _, _, htrace⟩ := createConnection_slot hc
  have hnone : (s.conn i).held = 0 := h.shut i hclosed
  have hnew : (s'.conn i).held = {.socket fd} := by
    rw [createConnection_conn hc, if_pos rfl]
    rfl
  refine h.step (r := ⟨s'.conn i, .none, [.accept fd, .acquire i]⟩) [] hi ?_ ?_ rfl ?_ ?_
  · rw [hnone, hnew]
    rfl
  · rw [createConnection_conn hc, if_pos rfl]
    exact fun hcl => State.noConfusion hcl
  · intro j hji
    rw [createConnection_conn hc, if_neg hji]
    rfl
  · rw [htrace, ← handles_append]
    exact congrArg handles (List.append_assoc ..)

/-- A client that there is no room for is sent away. -/
theorem Balanced.refuse (h : Balanced made s) (fd : Int) :
    Balanced made ((s.log [.accept fd]).log [.close fd]) := by
  have hpass : balance (0 : Multiset Handle) (handles [.accept fd, .close fd]) = some 0 :=
    balance_singleton_closed _
  refine ⟨?_, h.shut⟩
  have hentries : entries made ((s.log [.accept fd]).log [.close fd]) =
      entries made s ++ handles [.accept fd, .close fd] := by
    simp only [entries, log, handles_append, List.append_assoc]
    rfl
  rw [hentries]
  exact h.settled.pass hpass

theorem Balanced.acceptLoop (h : Balanced made s) (hg : Good s l) (fds : List (Nat × Int)) :
    Balanced made (s.acceptLoop fds) :=
  (acceptLoop_rule (Q := fun _ u => Balanced made u)
    (fun _ _ _ _ _ _ _ hg hQ hc => hQ.create hg hc)
    (fun _ _ _ _ _ _ hQ => hQ.refuse _) hg h).2

theorem Balanced.timer (h : Balanced made s) (hg : Good s l) (io : Io) :
    Balanced made (s.handleTimer io) :=
  (handleTimer_rule (Q := fun _ u => Balanced made u) io
    (fun _ _ _ _ _ hi _ hQ => hQ.destroy hi.1) (fun _ _ _ _ _ _ hQ => hQ) hg h).2

/-- The SSL objects that are made while an input is dealt with. -/
def newObjects (s : EventLoop) : Input → List Nat
  | .kevent => []
  | .event ev io =>
    if ev.error ∨ ev.eof then []
    else match ev.udata with
      | .conn i => (s.conn i).newObjects io s.tlsCtx
      | _ => []

theorem newObjects_closed {c : Connection} (io : Io) (tls : Bool) (h : c.state = .closed) :
    c.newObjects io tls = [] := by
  apply if_neg
  rintro ⟨ht, _⟩
  rw [stateAction, h] at ht
  exact State.noConfusion (h.symm.trans ht)

theorem Balanced.input (h : Balanced made s) (hg : Good s l) (input : Input) :
    Balanced (s.newObjects input ++ made) (s.step input) := by
  cases input with
  | kevent => exact h.congr (fun _ => rfl) rfl
  | event ev io =>
    unfold EventLoop.step dispatch EventLoop.newObjects
    dsimp only
    split
    · cases ev.udata with
      | conn i =>
        by_cases hi : i < maxConnections
        · exact h.destroy hi
        · exact h.destroy_outside hg (Nat.le_of_not_lt hi)
      | null => exact h
      | listener => exact h
      | timer => exact h
    · cases ev.udata with
      | conn i =>
        by_cases hclosed : (s.conn i).state = .closed
        · dsimp only
          rw [newObjects_closed io _ hclosed, processConnection_closed io hclosed]
          exact h
        · exact h.process io (hg.slots.live i hclosed).1
      | null => exact h
      | listener => exact h.acceptLoop hg io.accepts
      | timer => exact h.timer hg io

/-- An event loop, and the SSL objects that it has had made. -/
structure Book where
  loop : EventLoop
  made : List Nat

def Book.step (b : Book) (input : Input) : Book where
  loop := b.loop.step input
  made := b.loop.newObjects input ++ b.made

/-- The open connections with a property. -/
def openConnections (s : EventLoop) (p : Connection → Prop) [DecidablePred p] : Finset Nat :=
  (Finset.range maxConnections).filter fun i => (s.conn i).state ≠ .closed ∧ p (s.conn i)

/-- Every client's socket and every SSL object that has not been given back belongs to an open
connection, and only to one unless it was obtained more than once. -/
structure Book.Owned (b : Book) : Prop where
  sockets : ∀ fd : Nat, b.loop.trace.count (.accept fd) =
    b.loop.trace.count (.close fd) + (b.loop.openConnections fun c => c.fd = fd).card
  objects : ∀ ssl, b.made.count ssl =
    b.loop.trace.count (.sslFree ssl) + (b.loop.openConnections fun c => c.ssl = some ssl).card

theorem count_objects (made : List Nat) (h : Handle) :
    ((made.map Handle.ssl).map Entry.opened).count (.closed h) = 0 ∧
      (∀ fd, ((made.map Handle.ssl).map Entry.opened).count (.opened (.socket fd)) = 0) ∧
      ∀ ssl, ((made.map Handle.ssl).map Entry.opened).count (.opened (.ssl ssl)) =
        made.count ssl := by
  induction made with
  | nil => exact ⟨rfl, fun _ => rfl, fun _ => rfl⟩
  | cons p made ih =>
    obtain ⟨hclosed, hsocket, hssl⟩ := ih
    refine ⟨?_, fun fd => ?_, fun ssl => ?_⟩
    · rw [List.map_cons, List.map_cons, List.count_cons_of_ne (by simp), hclosed]
    · rw [List.map_cons, List.map_cons, List.count_cons_of_ne (by simp), hsocket]
    · rw [List.map_cons, List.map_cons, List.count_cons, List.count_cons, hssl]
      simp

theorem count_handles (as : List Action) (fd : Int) (ssl : Nat) :
    (handles as).count (.opened (.socket fd)) = as.count (.accept fd) ∧
      (handles as).count (.closed (.socket fd)) = as.count (.close fd) ∧
      (handles as).count (.opened (.ssl ssl)) = 0 ∧
      (handles as).count (.closed (.ssl ssl)) = as.count (.sslFree ssl) := by
  induction as with
  | nil => exact ⟨rfl, rfl, rfl, rfl⟩
  | cons a as ih =>
    obtain ⟨haccept, hclose, hmade, hfree⟩ := ih
    have hcons : handles (a :: as) = a.handle.toList ++ handles as := by
      cases a <;> rfl
    rw [hcons, List.count_append, List.count_append, List.count_append, List.count_append, haccept,
      hclose, hmade, hfree, List.count_cons, List.count_cons, List.count_cons]
    cases a <;> simp [Action.handle, List.count_cons, Nat.add_comm]

theorem count_held_socket {c : Connection} (h : Shut c) (fd : Nat) :
    c.held.count (.socket fd) = if c.state ≠ .closed ∧ c.fd = fd then 1 else 0 := by
  by_cases hc : c.state = .closed
  · rw [h hc, if_neg fun hlive => hlive.1 hc]
    rfl
  · have hssl : c.heldSsl.count (.socket fd) = 0 := by
      unfold heldSsl
      cases c.ssl with
      | none => rfl
      | some ssl => exact Multiset.count_eq_zero.2 (by simp)
    rw [held, Multiset.count_add, hssl, heldSocket, Nat.add_zero]
    by_cases hfd : c.fd = fd
    · have hpos : 0 ≤ c.fd := hfd ▸ Int.natCast_nonneg fd
      rw [if_pos hpos, if_pos ⟨hc, hfd⟩, hfd, Multiset.count_singleton_self]
    · have hnot : ¬ (c.state ≠ .closed ∧ c.fd = fd) := fun hlive => hfd hlive.2
      rw [if_neg hnot]
      split
      · rw [Multiset.count_singleton, if_neg]
        exact fun he => hfd (Handle.socket.inj he).symm
      · rfl

theorem count_held_ssl {c : Connection} (h : Shut c) (ssl : Nat) :
    c.held.count (.ssl ssl) = if c.state ≠ .closed ∧ c.ssl = some ssl then 1 else 0 := by
  by_cases hc : c.state = .closed
  · rw [h hc, if_neg fun hlive => hlive.1 hc]
    rfl
  · have hsocket : c.heldSocket.count (.ssl ssl) = 0 := by
      unfold heldSocket
      split
      · exact Multiset.count_eq_zero.2 (by simp)
      · rfl
    rw [held, Multiset.count_add, hsocket, heldSsl, Nat.zero_add]
    cases hssl : c.ssl with
    | none => rw [if_neg (by simp)]; rfl
    | some p =>
      dsimp only
      rw [Multiset.count_singleton]
      by_cases hp : p = ssl
      · rw [hp, if_pos rfl, if_pos ⟨hc, rfl⟩]
      · rw [if_neg fun he => hp (Handle.ssl.inj he).symm, if_neg fun hlive =>
          hp (Option.some.inj hlive.2)]

theorem Balanced.owned {b : Book} (h : Balanced b.made b.loop) : b.Owned := by
  constructor
  · intro fd
    have hcount := h.settled.count (.socket fd)
    obtain ⟨haccept, hclose, _, _⟩ := count_handles b.loop.trace fd 0
    obtain ⟨hclosed, hsocket, _⟩ := count_objects b.made (.socket fd)
    rw [entries, List.count_append, List.count_append, haccept, hclose, hclosed, hsocket,
      Nat.zero_add, Nat.zero_add] at hcount
    rw [hcount, openConnections, Finset.card_filter,
      Finset.sum_congr rfl fun i _ => count_held_socket (h.shut i) fd]
  · intro ssl
    have hcount := h.settled.count (.ssl ssl)
    obtain ⟨_, _, hmade, hfree⟩ := count_handles b.loop.trace 0 ssl
    obtain ⟨hclosed, _, hssl⟩ := count_objects b.made (.ssl ssl)
    rw [entries, List.count_append, List.count_append, hmade, hfree, hclosed, hssl,
      Nat.zero_add, Nat.add_zero] at hcount
    rw [hcount, openConnections, Finset.card_filter,
      Finset.sum_congr rfl fun i _ => count_held_ssl (h.shut i) ssl]

/-- The books at the start of an event loop. -/
def openBook (server : FileServer) (timeout : Int) (tls : Bool) : Book :=
  ⟨create server timeout tls, []⟩

theorem openBook_balanced (server : FileServer) (timeout : Int) (tls : Bool) :
    Balanced (openBook server timeout tls).made (openBook server timeout tls).loop where
  settled := settled_nil fun _ => rfl
  shut := fun _ _ => rfl

/-- In every run in which no slot is released twice, every client's socket and every SSL object
belongs to an open connection until it is given back, and is given back once. -/
theorem handles_owned (server : FileServer) (timeout : Int) (tls : Bool) (inputs : List Input)
    (h : Run.Along Book.step (fun b input => b.loop.FreshInput input)
      (openBook server timeout tls) inputs) :
    Run.Throughout Book.step Book.Owned (openBook server timeout tls) inputs := by
  have hall : Run.Throughout Book.step (fun b => (∃ l, Good b.loop l) ∧ Balanced b.made b.loop)
      (openBook server timeout tls) inputs :=
    Run.throughout_of_along (fun b input ⟨⟨_, hg⟩, hb⟩ hf => ⟨step_good hg hf, hb.input hg input⟩)
      ⟨⟨[], create_good server timeout tls⟩, openBook_balanced server timeout tls⟩ h
  exact hall.mono fun b hb => hb.2.owned

/-- A client says hello, gets an SSL object, and leaves. -/
def helloAndLeave : List Input :=
  round [(⟨false, false, .listener⟩, { accepts := [(5, 0)] })] ++
    round [(⟨false, false, .conn 0⟩, { peek := .done (some 0x16), newSsl := some 7 })] ++
    round [(⟨false, false, .conn 0⟩, { sslAccept := .done () })] ++
    round [(⟨false, false, .conn 0⟩, { sslRead := .error })]

theorem helloAndLeave_owned :
    Run.Throughout Book.step Book.Owned (openBook ⟨bytes "/srv"⟩ 75 true) helloAndLeave :=
  handles_owned ⟨bytes "/srv"⟩ 75 true helloAndLeave
    ⟨trivial, fresh_of_plain rfl rfl, trivial, fresh_of_plain rfl rfl, trivial,
      fresh_of_plain rfl rfl, trivial, fresh_of_plain rfl rfl, trivial⟩

end EventLoop

end FileWebServer
