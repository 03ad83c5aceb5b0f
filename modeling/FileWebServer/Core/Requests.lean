import FileWebServer.Core.Answer

namespace FileWebServer
open Search
set_option autoImplicit true
set_option maxRecDepth 20000

namespace HttpRequest

theorem parse_method (raw : Bytes) : (parse raw).2.method = methodOf (parse raw).2.rawMethod := by
  unfold parse
  split
  · rfl
  · dsimp only
    split
    · rfl
    · split
      · rfl
      · split <;> rfl

theorem methodOf_ne_unknown (m : Bytes) :
    methodOf m ≠ .unknown ↔ m = bytes "GET" ∨ m = bytes "HEAD" := by
  unfold methodOf
  split
  · next h => simp [h]
  · next hg =>
    split
    · next h => simp [h]
    · next hh => simp [hg, hh]

theorem methodOf_cases (m : Bytes) (h : methodOf m ≠ .unknown) :
    methodOf m = .get ∨ methodOf m = .head := by
  cases hm : methodOf m with
  | get => exact .inl rfl
  | head => exact .inr rfl
  | unknown => exact (h hm).elim

/-- What comes after the head of a request is not looked at. -/
theorem parse_prefix {raw data : Bytes} (h : raw <+: data) (hf : (find crlfcrlf raw).isSome) :
    parse raw = parse data := by
  obtain ⟨rest, rfl⟩ := h
  obtain ⟨block, hb⟩ := Option.isSome_iff_exists.1 hf
  have htake : (raw ++ rest).take block = raw.take block :=
    List.take_append_of_le_length (Nat.le_of_add_right_le (find_le_length hb))
  unfold parse
  simp only [hb, find_append_left hb, htake]

end HttpRequest

/-- The buffers that were parsed. -/
def parsed (actions : List Action) : List Bytes :=
  (work actions).filterMap fun
    | .parse raw => some raw
    | _ => none

theorem parsed_append (as bs : List Action) : parsed (as ++ bs) = parsed as ++ parsed bs := by
  rw [parsed, work_append, List.filterMap_append]
  rfl

theorem parsed_of_work {as : List Action} (h : work as = []) : parsed as = [] := by
  rw [parsed, h]
  rfl

namespace Connection
variable {c : Connection} {io : Io} {tls : Bool} {server : FileServer} {r : Outcome} {raw : Bytes}

/-- `do_read` completes the head of a request in this call, and the buffer holds `raw`. -/
structure ReadsRequest (io : Io) (tls : Bool) (c : Connection) (raw : Bytes) : Prop where
  waits : c.state = .reading ∨ c.state = .keepAlive
  completes : (c.stateAction io tls).conn.state = .parsing
  buffer : (c.stateAction io tls).conn.readBuf = raw

theorem received_work (c : Connection) (data : Bytes) (as : List Action) :
    work (c.received data as).actions = work as := by
  unfold received
  dsimp only
  split
  · rfl
  · split
    · rw [hangUp, work_append, closeActions_work, List.append_nil]
    · rfl

theorem ReadCalls.work {ssl : Option Nat} {as : List Action} (h : ReadCalls ssl as) :
    FileWebServer.work as = [] := by
  cases h with
  | tls => rfl
  | tlsDone => rfl
  | plain => rfl

theorem doRead_work (io : Io) (c : Connection) : work (c.doRead io).actions = [] := by
  obtain ⟨as, has, ⟨want, h⟩ | ⟨data, _, h⟩ | ⟨buf, _, h⟩⟩ := doRead_forms io c
  · rw [h]
    exact has.work
  · rw [h, received_work, has.work]
  · rw [h]
    exact (hangUp_sends rfl has.work).work

/-- The connection right after `do_read` has completed the head of a request. -/
structure HasRead (c : Connection) (raw : Bytes) (r : Outcome) : Prop where
  state : r.conn.state = .parsing
  buffer : r.conn.readBuf = raw
  unbegun : Unbegun r.conn
  work : work r.actions = []

theorem ReadsRequest.hasRead (h : ReadsRequest io tls c raw) (ho : Opens c) :
    HasRead c raw (c.firstHalf io tls) := by
  obtain ⟨hw, hs, hb⟩ := h
  have hlive : c.state ≠ .closed := by
    rcases hw with hw | hw
    · rw [hw]
      exact State.noConfusion
    · rw [hw]
      exact State.noConfusion
  have hf : ¬ stateFails io c := by
    intro hf
    have hc := (stateAction_ends io tls hlive).closed_iff.2 hf
    rw [hs] at hc
    cases hc
  have hfirst : c.firstHalf io tls = c.stateAction io tls := by
    refine if_neg ?_
    rw [hs]
    simp
  have hread : Unbegun (c.stateAction io tls).conn ∧
      FileWebServer.work (c.stateAction io tls).actions = [] := by
    unfold stateFails at hf
    unfold stateAction
    rcases hw with hw | hw
    · rw [hw] at hf ⊢
      exact ⟨doRead_unbegun io hf (ho (by rw [hw]; rfl)), doRead_work io c⟩
    · rw [hw] at hf ⊢
      refine ⟨doRead_unbegun io hf (reset_unbegun c), ?_⟩
      change FileWebServer.work (c.closeFileActions ++ (c.reset.doRead io).actions) = []
      rw [work_append, closeFileActions_work, doRead_work io _]
      rfl
  rw [hfirst]
  exact ⟨hs, hb, hread.1, hread.2⟩

/-- The request is parsed in the call that completes its head. -/
theorem HasRead.accepted (h : HasRead c raw r) (io : Io)
    (hacc : (HttpRequest.parse raw).1 = true) : inlineParse io r =
      ⟨{ r.conn with request := (HttpRequest.parse raw).2 }, .none, r.actions ++ [.parse raw]⟩ := by
  obtain ⟨hs, rfl, hu, _⟩ := h
  unfold inlineParse
  rw [if_pos ⟨hs, hu.request⟩, doParse]
  simp only [hacc, if_true]
  rfl

theorem HasRead.rejected (h : HasRead c raw r) (io : Io)
    (hrej : (HttpRequest.parse raw).1 = false) : inlineParse io r =
      ⟨{ r.conn with request := (HttpRequest.parse raw).2 }.prepareError .badRequest [] io.time,
        .write, r.actions ++ [.parse raw, .prepareHeaders]⟩ := by
  obtain ⟨hs, rfl, hu, _⟩ := h
  unfold inlineParse
  rw [if_pos ⟨hs, hu.request⟩, doParse]
  simp only [hrej, Bool.false_eq_true, if_false]
  rfl

/-- An accepted request with a method that is not known is left where it is. -/
theorem HasRead.ignored (h : HasRead c raw r) (io : Io) (server : FileServer)
    (hacc : (HttpRequest.parse raw).1 = true)
    (hm : (HttpRequest.parse raw).2.method = .unknown) : secondHalf io server r =
      ⟨{ r.conn with request := (HttpRequest.parse raw).2 }, .none, r.actions ++ [.parse raw]⟩ := by
  unfold secondHalf
  rw [h.accepted io hacc]
  exact answer_not_due io server (fun hd => hd.2 hm)

/-- An accepted request with a known method is answered in the same call. -/
theorem HasRead.answered (h : HasRead c raw r) (io : Io) (server : FileServer)
    (hacc : (HttpRequest.parse raw).1 = true)
    (hm : (HttpRequest.parse raw).2.method ≠ .unknown) :
    ∃ d : Connection, d = { r.conn with request := (HttpRequest.parse raw).2 } ∧
      secondHalf io server r = ((d.prepareResponse io server).1.doSendHeaders io).after
        (r.actions ++ [.parse raw] ++ (d.prepareResponse io server).2) := by
  refine ⟨_, rfl, ?_⟩
  unfold secondHalf
  rw [h.accepted io hacc]
  exact answer_due io server ⟨.inl h.state, hm⟩

theorem work_prepareResponse (io : Io) (server : FileServer) (c : Connection) :
    work (c.prepareResponse io server).2 = [.prepareResponse, .prepareHeaders] := by
  obtain ⟨as, has, hb⟩ := prepareResponse_built io server c
  rw [has]
  change .prepareResponse :: work as = _
  rw [hb.work]

/-- The call that completes a request, told by its work. -/
theorem HasRead.work_eq (h : HasRead c raw r) (io : Io) (server : FileServer) :
    FileWebServer.work (secondHalf io server r).actions = .parse raw ::
      (if (HttpRequest.parse raw).1 then
        if (HttpRequest.parse raw).2.method = .unknown then []
        else [.prepareResponse, .prepareHeaders]
      else [.prepareHeaders]) := by
  cases hacc : (HttpRequest.parse raw).1 with
  | true =>
    by_cases hm : (HttpRequest.parse raw).2.method = .unknown
    · rw [h.ignored io server hacc hm, work_append, h.work, if_pos rfl, if_pos hm]
      rfl
    · obtain ⟨d, _, hans⟩ := h.answered io server hacc hm
      rw [hans, Outcome.after_actions, work_append, work_append, work_append, h.work,
        work_prepareResponse, (doSendHeaders_sends io _).work, if_pos rfl, if_neg hm]
      rfl
  | false =>
    have hnot : ¬ answerDue (inlineParse io r).conn := by
      rw [h.rejected io hacc]
      rintro ⟨hs | hs, _⟩
      · cases hs
      · cases hs
    unfold secondHalf
    rw [answer_not_due io server hnot, h.rejected io hacc, work_append, h.work,
      if_neg Bool.false_ne_true]
    rfl

end Connection

namespace EventLoop
open Connection
variable {s s' : EventLoop} {i : Nat} {io : Io} {raw : Bytes}

/-- The actions between two states. -/
def during (s s' : EventLoop) : List Action := s'.trace.drop s.trace.length

theorem processed_conn {r : Outcome} {prev : State} :
    ((((s.writeBack i r).syncKeepaliveList i prev).updateEvents i r.want).conn i).core =
      r.conn.core := by
  rw [updateEvents_conn, core_conn (syncKeepaliveList_core _ i prev) i, conn_writeBack, if_pos rfl]

theorem destroyConnection_closed {r : Outcome} (s : EventLoop) (h : r.conn.state = .closed) :
    (((s.writeBack i r).destroyConnection i).conn i).core = r.conn.core ∧
      ((s.writeBack i r).destroyConnection i).trace = s.trace ++ r.actions ++ releaseActions i := by
  have hconn : (s.writeBack i r).conn i = r.conn := by rw [conn_writeBack, if_pos rfl]
  have hclose : r.conn.close = r.conn := by rw [Connection.close, if_pos h]
  have hquiet : r.conn.closeActions = [] := by rw [closeActions, if_pos h]
  have htrace : (s.writeBack i r).trace = s.trace ++ r.actions := rfl
  constructor
  · rw [destroyConnection_conn, if_pos rfl, hconn, ← core_close, hclose]
  · rw [destroyConnection_trace, hconn, hquiet, htrace, List.append_nil]

/-- `process_connection` leaves the connection as its steps do, also when they close it. -/
theorem processConnection_outcome (s : EventLoop) (io : Io) (i : Nat) :
    ((s.processConnection io i).conn i).core =
        ((s.conn i).advance io s.tlsCtx s.fileServer).conn.core ∧
      ∃ released, (released = [] ∨ released = releaseActions i) ∧
        (s.processConnection io i).trace =
          s.trace ++ ((s.conn i).advance io s.tlsCtx s.fileServer).actions ++ released := by
  unfold processConnection
  dsimp only
  by_cases hc : (s.conn i).state = .closed
  · have hact : (s.conn i).stateAction io s.tlsCtx = ⟨s.conn i, .none, []⟩ := by
      rw [stateAction, hc]
    have hadv : (s.conn i).advance io s.tlsCtx s.fileServer = ⟨s.conn i, .none, []⟩ := by
      rw [advance_settled, hact]
      rw [hact]
      simp [Settled, hc]
    rw [if_pos (by simp [isClosed, hc]), hadv]
    exact ⟨rfl, [], .inl rfl, by simp⟩
  · rw [if_neg (by simp [isClosed, hc])]
    by_cases hr : ((s.conn i).firstHalf io s.tlsCtx).conn.state = .closed
    · have hadv : (s.conn i).advance io s.tlsCtx s.fileServer =
          (s.conn i).firstHalf io s.tlsCtx := by
        have hparse : inlineParse io ((s.conn i).firstHalf io s.tlsCtx) =
            (s.conn i).firstHalf io s.tlsCtx := if_neg (by simp [hr])
        rw [advance, secondHalf, hparse]
        apply answer_not_due
        simp [answerDue, hr]
      obtain ⟨hconn, htrace⟩ := destroyConnection_closed (i := i) s hr
      rw [if_pos (by simp [isClosed, hr]), hadv]
      exact ⟨hconn, _, .inr rfl, htrace⟩
    · rw [if_neg (by simp [isClosed, hr])]
      exact ⟨processed_conn, [], .inl rfl, by rw [processed_trace, List.append_nil]; rfl⟩

theorem processConnection_during (s : EventLoop) (io : Io) (i : Nat) :
    ∃ released, (released = [] ∨ released = releaseActions i) ∧
      during s (s.processConnection io i) =
        ((s.conn i).advance io s.tlsCtx s.fileServer).actions ++ released := by
  obtain ⟨_, released, hreleased, htrace⟩ := processConnection_outcome s io i
  refine ⟨released, hreleased, ?_⟩
  rw [during, htrace, List.append_assoc, List.drop_left]

theorem releaseActions_work (i : Nat) : work (releaseActions i) = [] := by
  unfold releaseActions
  split <;> rfl

/-- A call of `process_connection` works on what its steps work on. -/
theorem processConnection_work (s : EventLoop) (io : Io) (i : Nat) :
    work (during s (s.processConnection io i)) =
      work ((s.conn i).advance io s.tlsCtx s.fileServer).actions := by
  obtain ⟨released, hreleased, hduring⟩ := processConnection_during s io i
  rw [hduring, work_append]
  rcases hreleased with rfl | rfl
  · exact List.append_nil _
  · rw [releaseActions_work, List.append_nil]

/-- A response to the request that has just been parsed is built, with the right status for a
method that is not supported. -/
structure Answered (s s' : EventLoop) (io : Io) (i : Nat) : Prop where
  prepared : .prepareResponse ∈ during s s' ∧ .prepareHeaders ∈ during s s'
  header : (s'.conn i).headerBuf = (s'.conn i).response.buildHeaders io.time
  refused : (s'.conn i).request.method ≠ .get → (s'.conn i).request.method ≠ .head →
    (s'.conn i).response.status = .notImplemented

theorem mem_work {as : List Action} {a : Action} (h : a ∈ work as) : a ∈ as :=
  (List.mem_filter.1 h).1

/-- The message of a connection whose request has been answered is that of the response. -/
theorem processConnection_message (hs : s.Reachable)
    (hreq : ReadsRequest io s.tlsCtx (s.conn i) raw) (hacc : (HttpRequest.parse raw).1 = true)
    (hm : (HttpRequest.parse raw).2.method ≠ .unknown) :
    ∃ d : Connection, d.request = (HttpRequest.parse raw).2 ∧
      ((s.processConnection io i).conn i).message =
        (d.prepareResponse io s.fileServer).1.message := by
  obtain ⟨hconn, _⟩ := processConnection_outcome s io i
  have hread := hreq.hasRead (hs.conn opens_invariant i)
  obtain ⟨d, hd, hans⟩ := hread.answered io s.fileServer hacc hm
  have hsends := doSendHeaders_sends io (d.prepareResponse io s.fileServer).1
  refine ⟨d, by rw [hd], (congrArg Connection.message hconn).trans ?_⟩
  rw [advance, hans]
  exact hsends.message

/-- The request that is answered is the one that was read. -/
theorem processConnection_keeps_request (hs : s.Reachable)
    (hreq : ReadsRequest io s.tlsCtx (s.conn i) raw) (hacc : (HttpRequest.parse raw).1 = true)
    (hm : (HttpRequest.parse raw).2.method ≠ .unknown) :
    ((s.processConnection io i).conn i).request = (HttpRequest.parse raw).2 := by
  obtain ⟨d, hd, hmsg⟩ := processConnection_message hs hreq hacc hm
  obtain ⟨as, _, hbuilt⟩ := prepareResponse_built io s.fileServer d
  simp only [message, Prod.mk.injEq] at hmsg
  rw [hmsg.2.1, hbuilt.request]
  exact hd

/-- In every reachable state, an accepted request is answered in the call that completes it
exactly when its method is GET or HEAD. -/
theorem answered_iff_supported (hs : s.Reachable)
    (hreq : ReadsRequest io s.tlsCtx (s.conn i) raw)
    (hacc : (HttpRequest.parse raw).1 = true) :
    Answered s (s.processConnection io i) io i ↔
      (HttpRequest.parse raw).2.rawMethod = bytes "GET" ∨
        (HttpRequest.parse raw).2.rawMethod = bytes "HEAD" := by
  have hread := hreq.hasRead (hs.conn opens_invariant i)
  have hwork := hread.work_eq io s.fileServer
  rw [← HttpRequest.methodOf_ne_unknown, ← HttpRequest.parse_method]
  rw [hacc, if_pos rfl] at hwork
  constructor
  · intro h hm
    have hmem : Action.prepareResponse ∈ work (during s (s.processConnection io i)) :=
      List.mem_filter.2 ⟨h.prepared.1, rfl⟩
    rw [processConnection_work, advance, hwork, if_pos hm] at hmem
    simp at hmem
  · intro hm
    rw [if_neg hm] at hwork
    obtain ⟨d, _, hmsg⟩ := processConnection_message hs hreq hacc hm
    simp only [message, Prod.mk.injEq] at hmsg
    obtain ⟨_, _, hresponse, hheader, _⟩ := hmsg
    refine ⟨⟨mem_work ?_, mem_work ?_⟩, ?_, ?_⟩
    · rw [processConnection_work, advance, hwork]
      simp
    · rw [processConnection_work, advance, hwork]
      simp
    · rw [hheader, hresponse]
      exact prepareResponse_header io s.fileServer d
    · intro hg hh
      rw [processConnection_keeps_request hs hreq hacc hm] at hg hh
      rw [HttpRequest.parse_method] at hm hg hh
      rcases HttpRequest.methodOf_cases _ hm with h | h
      · exact (hg h).elim
      · exact (hh h).elim

/-- A client that has connected and sent a first byte. -/
def greeted : EventLoop :=
  (round [(⟨false, false, .listener⟩, { accepts := [(5, 0)] })] ++
    round [(⟨false, false, .conn 0⟩, { peek := .done (some 0x50) })]).foldl step
      (create ⟨bytes "/srv"⟩ 75 false)

def getText : Bytes := bytes "GET / HTTP/1.1\r\nHost: a\r\n\r\n"

def postText : Bytes := bytes "POST / HTTP/1.1\r\nHost: a\r\n\r\n"

theorem answered_iff_supported_get :
    Answered greeted (greeted.processConnection { read := .done getText } 0)
        { read := .done getText } 0 ↔
      (HttpRequest.parse getText).2.rawMethod = bytes "GET" ∨
        (HttpRequest.parse getText).2.rawMethod = bytes "HEAD" :=
  answered_iff_supported (reachable_run ..)
    ⟨.inl (by decide), by decide, by decide⟩ (by decide)

theorem post_not_answered :
    greeted.Reachable ∧
      ReadsRequest { read := .done postText } greeted.tlsCtx (greeted.conn 0) postText ∧
      (HttpRequest.parse postText).1 = true ∧
      ¬ Answered greeted (greeted.processConnection { read := .done postText } 0)
        { read := .done postText } 0 := by
  refine ⟨reachable_run .., ⟨.inl ?_, ?_, ?_⟩, ?_, fun h => absurd h.prepared.1 ?_⟩
  · decide
  · decide
  · decide
  · decide
  · decide

end EventLoop

namespace Connection
variable {tls : Bool} {server : FileServer}

/-- The calls of `process_connection` on a connection, one after the other. -/
def calls (tls : Bool) (server : FileServer) (c : Connection) : List Io → Outcome
  | [] => ⟨c, .none, []⟩
  | io :: ios =>
    (calls tls server (c.advance io tls server).conn ios).after (c.advance io tls server).actions

/-- The next read of the socket brings `data`. -/
def Delivers (io : Io) (data : Bytes) : Prop := io.read = .done data ∧ io.sslRead = .done data

theorem Delivers.transport {io : Io} {data : Bytes} (h : Delivers io data) (c : Connection) :
    if c.isTls then io.sslRead = .done data else io.read = .done data := by
  split
  · exact h.2
  · exact h.1

/-- A connection that waits for the next request starts from an empty buffer in every call. -/
theorem keepAlive_reads {c : Connection} {io : Io} {data : Bytes} (tls : Bool)
    (hc : c.state = .keepAlive) (hio : Delivers io data) (hne : data ≠ [])
    (hlen : data.length ≤ 4096) : ∃ as, work as = [] ∧
      c.stateAction io tls = ((c.reset.touch io.now).received data as).after c.closeFileActions := by
  obtain ⟨as, has, hd⟩ := doRead_data c.reset hne (hio.transport _)
  rw [List.take_of_length_le hlen] at hd
  refine ⟨as, has, ?_⟩
  unfold stateAction
  rw [hc]
  exact congrArg (fun r => r.after c.closeFileActions) hd

/-- A part of a request without its end is read and leaves the connection waiting. -/
theorem keepAlive_incomplete {c : Connection} {io : Io} {data : Bytes} (tls : Bool)
    (server : FileServer) (hc : c.state = .keepAlive) (hio : Delivers io data) (hne : data ≠ [])
    (hlen : data.length ≤ 4096) (hf : find crlfcrlf data = none) :
    (c.advance io tls server).conn.state = .keepAlive ∧
      parsed (c.advance io tls server).actions = [] := by
  obtain ⟨as, has, hact⟩ := keepAlive_reads tls hc hio hne hlen
  have hrec : (c.reset.touch io.now).received data as =
      ⟨{ c.reset.touch io.now with readBuf := [] ++ data }, .read, as⟩ := by
    have hf' : find crlfcrlf ((c.reset.touch io.now).readBuf ++ data) = none := hf
    refine (received_incomplete hf').trans (if_neg ?_)
    change ¬ 65536 < ([] ++ data).length
    rw [List.nil_append]
    omega
  have hstate : (c.stateAction io tls).conn.state = .keepAlive := by
    rw [hact, hrec]
    exact hc
  rw [advance_settled io tls server (by simp [Settled, hstate])]
  refine ⟨hstate, parsed_of_work ?_⟩
  rw [hact, hrec, Outcome.after_actions, work_append, closeFileActions_work]
  exact has

/-- The end of a request is read and the bytes of this call are parsed. -/
theorem keepAlive_complete {c : Connection} {io : Io} {data : Bytes} (tls : Bool)
    (server : FileServer) (hc : c.state = .keepAlive) (hio : Delivers io data) (hne : data ≠ [])
    (hlen : data.length ≤ 4096) (hf : (find crlfcrlf data).isSome) :
    parsed (c.advance io tls server).actions = [data] := by
  obtain ⟨as, has, hact⟩ := keepAlive_reads tls hc hio hne hlen
  have hrec : (c.reset.touch io.now).received data as = _ := received_complete hf
  have hreads : ReadsRequest io tls c data := by
    refine ⟨.inr hc, ?_, ?_⟩
    · rw [hact, hrec]
      rfl
    · rw [hact, hrec]
      rfl
  have hread := hreads.hasRead (opens_of_late (by rw [hc]; rfl))
  rw [parsed, advance, hread.work_eq io server]
  split
  · split <;> rfl
  · rfl

/-- Of a request that comes in several reads, only the last one is parsed, if anything is. -/
theorem parsed_last (tls : Bool) (server : FileServer) {c : Connection} {chunks : List Bytes}
    {ios : List Io} {last : Bytes} (hc : c.state = .keepAlive)
    (hio : List.Forall₂ Delivers ios (chunks ++ [last]))
    (hchunks : ∀ chunk ∈ chunks ++ [last], chunk ≠ [] ∧ chunk.length ≤ 4096)
    (hnone : find crlfcrlf chunks.flatten = none) :
    parsed (calls tls server c ios).actions = [last] ∨
      parsed (calls tls server c ios).actions = [] := by
  induction chunks generalizing c ios with
  | nil =>
    obtain ⟨hne, hlen⟩ := hchunks last (by simp)
    cases hio with
    | cons hio hnil =>
      cases hnil
      change parsed ((c.advance _ tls server).actions ++ []) = _ ∨
        parsed ((c.advance _ tls server).actions ++ []) = _
      rw [List.append_nil]
      cases hf : find crlfcrlf last with
      | none => exact .inr (keepAlive_incomplete tls server hc hio hne hlen hf).2
      | some i => exact .inl (keepAlive_complete tls server hc hio hne hlen (by simp [hf]))
  | cons chunk chunks ih =>
    obtain ⟨hne, hlen⟩ := hchunks chunk (by simp)
    have hhead : find crlfcrlf chunk = none := by
      cases hf : find crlfcrlf chunk with
      | none => rfl
      | some i =>
        rw [List.flatten_cons, find_append_left hf] at hnone
        cases hnone
    have htail : find crlfcrlf chunks.flatten = none := by
      rw [find_eq_none_iff] at hnone ⊢
      exact fun hi => hnone (hi.trans (List.suffix_append _ _).isInfix)
    cases hio with
    | cons hio hrest =>
      obtain ⟨hstate, hparsed⟩ := keepAlive_incomplete tls server hc hio hne hlen hhead
      change parsed ((c.advance _ tls server).actions ++ _) = _ ∨
        parsed ((c.advance _ tls server).actions ++ _) = _
      rw [parsed_append, hparsed, List.nil_append]
      exact ih hstate hrest (fun ch hm => hchunks ch (List.mem_cons_of_mem _ hm)) htail

/-- A request that reaches a waiting connection in reads of its own is parsed whole exactly when
it comes in one read. -/
theorem parsed_whole_iff_one_read (tls : Bool) (server : FileServer) {c : Connection}
    {chunks : List Bytes} {ios : List Io} (hc : c.state = .keepAlive)
    (hio : List.Forall₂ Delivers ios chunks)
    (hchunks : ∀ chunk ∈ chunks, chunk ≠ [] ∧ chunk.length ≤ 4096)
    (hhead : find crlfcrlf chunks.flatten = some (chunks.flatten.length - 4)) :
    parsed (calls tls server c ios).actions = [chunks.flatten] ↔ chunks.length = 1 := by
  rcases List.eq_nil_or_concat chunks with rfl | ⟨init, last, rfl⟩
  · cases hhead
  · rw [List.concat_eq_append] at *
    have hlast := hchunks last (by simp)
    by_cases hinit : init = []
    · subst hinit
      refine iff_of_true ?_ rfl
      cases hio with
      | cons hio hnil =>
        cases hnil
        have hf : (find crlfcrlf last).isSome := by simpa using Option.isSome_of_eq_some hhead
        change parsed ((c.advance _ tls server).actions ++ []) = _
        rw [List.append_nil, keepAlive_complete tls server hc hio hlast.1 hlast.2 hf]
        simp
    · have hpos : 0 < init.flatten.length := by
        obtain ⟨a, ha⟩ := List.exists_mem_of_ne_nil _ hinit
        have hpa := List.length_pos_of_ne_nil (hchunks a (by simp [ha])).1
        have hle := (List.sublist_flatten_of_mem ha).length_le
        omega
      have hlpos := List.length_pos_of_ne_nil hlast.1
      have hflat : (init ++ [last]).flatten = init.flatten ++ last := by simp
      have hnone : find crlfcrlf init.flatten = none := by
        cases hf : find crlfcrlf init.flatten with
        | none => rfl
        | some i =>
          have hle := find_le_length hf
          rw [hflat, find_append_left hf, Option.some.injEq, List.length_append] at hhead
          have h4 : crlfcrlf.length = 4 := rfl
          omega
      refine iff_of_false ?_ ?_
      · rcases parsed_last tls server hc hio hchunks hnone with hp | hp
        · rw [hp, hflat]
          intro he
          have hl := congrArg List.length (List.cons.inj he).1
          rw [List.length_append] at hl
          omega
        · rw [hp]
          exact (List.cons_ne_nil _ _).symm
      · rw [List.length_append, List.length_singleton]
        have hi := List.length_pos_of_ne_nil hinit
        omega

/-- A connection that waits for its next request. -/
def waiting : Connection :=
  (EventLoop.waitingClient.foldl EventLoop.step (.create ⟨bytes "/srv"⟩ 75 false)).conn 0

def delivery (data : Bytes) : Io := { read := .done data, sslRead := .done data }

theorem parsed_whole_iff_one_read_get :
    parsed (calls false ⟨bytes "/srv"⟩ waiting [delivery EventLoop.getText]).actions =
      [[EventLoop.getText].flatten] ↔ [EventLoop.getText].length = 1 :=
  parsed_whole_iff_one_read false ⟨bytes "/srv"⟩ (by decide)
    (.cons ⟨rfl, rfl⟩ .nil) (by decide) (by decide)

theorem split_request_not_parsed_whole :
    waiting.state = .keepAlive ∧
      find crlfcrlf [bytes "GET / HT", bytes "TP/1.1\r\nHost: a\r\n\r\n"].flatten = some 23 ∧
      parsed (calls false ⟨bytes "/srv"⟩ waiting
        [delivery (bytes "GET / HT"), delivery (bytes "TP/1.1\r\nHost: a\r\n\r\n")]).actions ≠
          [[bytes "GET / HT", bytes "TP/1.1\r\nHost: a\r\n\r\n"].flatten] := by
  refine ⟨?_, ?_, ?_⟩
  · decide
  · decide
  · decide

end Connection

end FileWebServer
