import FileWebServer.Core.Requests

namespace FileWebServer
set_option autoImplicit true
set_option maxRecDepth 20000

namespace Connection
variable {c d : Connection} {r : Outcome} {io : Io} {tls : Bool} {server : FileServer}

/-- The bytes that an attempt to send has taken. -/
def Sent.taken (offered : Bytes) : Sent → Bytes
  | .bytes n => offered.take n
  | _ => []

theorem closeFileActions_wire (c : Connection) : wire c.closeFileActions = [] := by
  unfold closeFileActions
  split <;> rfl

theorem closeActions_wire (c : Connection) : wire c.closeActions = [] := by
  unfold closeActions
  split
  · rfl
  · rw [wire_append, wire_append, closeFileActions_wire]
    cases c.ssl with
    | none => split <;> rfl
    | some => split <;> rfl

theorem hangUp_wire (c : Connection) (as : List Action) :
    wire (c.hangUp as).actions = wire as := by
  rw [hangUp, wire_append, closeActions_wire, List.append_nil]

theorem finishFile_wire (c : Connection) (as : List Action) :
    wire (c.finishFile as).actions = wire as := by
  rw [finishFile, wire_append, closeFileActions_wire, List.append_nil]

theorem sslWrite_wire (ssl : Option Nat) (ret : SslResult Nat) (offered : Bytes) :
    wire (sslWrite ssl ret offered).2 = (sslWrite ssl ret offered).1.taken offered := by
  unfold sslWrite
  cases ret with
  | done n =>
    dsimp only
    split
    · rfl
    · exact List.append_nil _
  | wantRead => rfl
  | wantWrite => rfl
  | error => rfl

theorem plainWrite_wire (fd : Int) (ret : SysResult Nat) (offered : Bytes) :
    wire (plainWrite fd ret offered).2 = (plainWrite fd ret offered).1.taken offered := by
  cases ret with
  | done n =>
    change offered.take n ++ [] = offered.take (min n offered.length)
    rw [List.append_nil]
    exact List.take_eq_take_min
  | again => rfl
  | error => rfl

theorem transmit_wire (c : Connection) (ret : SysResult Nat) (sslRet : SslResult Nat)
    (offered : Bytes) :
    wire (c.transmit ret sslRet offered).2 = (c.transmit ret sslRet offered).1.taken offered := by
  unfold transmit
  cases c.ssl with
  | none => exact plainWrite_wire ..
  | some => exact sslWrite_wire ..

/-- What is sent by an attempt and by what comes after it. -/
theorem onSent_wire (c : Connection) (attempt : Sent × List Action) (next : Nat → Outcome) :
    wire (c.onSent attempt next).actions = wire attempt.2 ++
      match attempt.1 with
      | .bytes n => wire (next n).actions
      | _ => [] := by
  obtain ⟨sent, as⟩ := attempt
  cases sent with
  | bytes n => exact wire_append as (next n).actions
  | wait want => exact (List.append_nil _).symm
  | fatal => exact (hangUp_wire c as).trans (List.append_nil _).symm

/-- How many bytes of the body are left to send. -/
def bodyOwed (c : Connection) : Nat :=
  if c.fileFd < 0 ∧ c.response.hasBody then c.response.body.length - c.bodySent
  else if c.isTls ∧ c.chunkSent < c.chunkUsed then
    c.chunkUsed - c.chunkSent + (c.sendRemaining - c.chunkUsed).toNat
  else c.sendRemaining.toNat

/-- How many bytes of a response are left to send. -/
def owed (c : Connection) : Nat :=
  if c.state = .sendingBody then c.bodyOwed
  else c.headerRest.length + if c.bodiless then 0 else c.bodyOwed

/-- A body of which nothing is left to send. -/
def Finished (c : Connection) : Prop :=
  if c.fileFd < 0 ∧ c.response.hasBody then c.response.body.length ≤ c.bodySent
  else (c.isTls = true → c.chunkUsed ≤ c.chunkSent) ∧ c.sendRemaining ≤ 0

/-- The end of a response: the connection waits for a request, or has only its file to close. -/
def Ended (c : Connection) : Prop :=
  c.state = .keepAlive ∨ (c.state = .sendingBody ∧ Finished c)

theorem Finished.next (h : Finished c) (io : Io) :
    (doSendBody io c).conn.state = .keepAlive := by
  unfold Finished at h
  unfold doSendBody
  split at h
  · next hm =>
    rw [if_pos hm, doSendBodyMemory]
    dsimp only
    rw [if_pos h]
  · next hm =>
    rw [if_neg hm]
    split
    · next ht =>
      rw [doSendBodyTls, if_pos (h.1 ht), if_pos h.2]
      rfl
    · rw [doSendBodyPlain, if_pos h.2]
      rfl

/-- A step that sends a body sends no more than is owed, and ends the response if it sends all. -/
structure Pays (owed : Nat) (r : Outcome) : Prop where
  le : (wire r.actions).length ≤ owed
  last : (wire r.actions).length = owed → Ended r.conn

theorem Pays.of_ended (hle : (wire r.actions).length ≤ n) (h : Ended r.conn) : Pays n r :=
  ⟨hle, fun _ => h⟩

theorem Pays.of_lt (h : (wire r.actions).length < n) : Pays n r :=
  ⟨Nat.le_of_lt h, fun he => absurd he (Nat.ne_of_lt h)⟩

theorem Pays.after {as : List Action} (h : Pays n r) (has : wire as = []) :
    Pays n (r.after as) := by
  have hw : wire (r.after as).actions = wire r.actions := by
    rw [Outcome.after_actions, wire_append, has, List.nil_append]
  exact ⟨hw ▸ h.le, hw ▸ h.last⟩

/-- An attempt pays for what it sends, and what comes after it for the rest. -/
theorem onSent_pays {attempt : Sent × List Action} {next : Nat → Outcome} {offered : Bytes}
    (hw : wire attempt.2 = attempt.1.taken offered) (hpos : 0 < total)
    (hnext : ∀ n, attempt.1 = .bytes n → n ≤ offered.length ∧ n ≤ total ∧ Pays (total - n) (next n)) :
    Pays total (c.onSent attempt next) := by
  have hall := onSent_wire c attempt next
  obtain ⟨sent, as⟩ := attempt
  cases sent with
  | bytes n =>
    obtain ⟨hn, hnt, hle, hlast⟩ := hnext n rfl
    have hlen : (wire (c.onSent (.bytes n, as) next).actions).length =
        n + (wire (next n).actions).length := by
      rw [hall, hw, List.length_append, Sent.taken, List.length_take, Nat.min_eq_left hn]
    refine ⟨?_, fun he => hlast ?_⟩
    · rw [hlen]
      omega
    · rw [hlen] at he
      omega
  | wait want =>
    apply Pays.of_lt
    rw [hall, hw]
    exact hpos
  | fatal =>
    apply Pays.of_lt
    rw [hall, hw]
    exact hpos

theorem doSendBodyMemory_pays (io : Io) (c : Connection) :
    Pays (c.response.body.length - c.bodySent) (doSendBodyMemory io c) := by
  unfold doSendBodyMemory
  dsimp only
  split
  · exact .of_ended (Nat.zero_le _) (.inl rfl)
  · next hlen =>
    refine onSent_pays (transmit_wire ..) (by omega) fun n hn => ?_
    have hle := transmit_le hn
    refine ⟨hle, by rwa [List.length_drop] at hle, ?_⟩
    split
    · exact .of_ended (Nat.zero_le _) (.inl rfl)
    · next hmore =>
      apply Pays.of_lt
      change 0 < c.response.body.length - c.bodySent - n
      omega

/-- What is owed of a file whose current chunk has been sent up to a point. -/
theorem sendChunk_pays (io : Io) (hc : c.state = .sendingBody)
    (hm : ¬ (c.fileFd < 0 ∧ c.response.hasBody)) (ht : c.isTls = true)
    (hlt : c.chunkSent < c.chunkUsed) :
    Pays (c.chunkUsed - c.chunkSent + (c.sendRemaining - c.chunkUsed).toNat) (sendChunk io c) := by
  have hrest : c.chunkRest.length ≤ c.chunkUsed - c.chunkSent := by
    rw [chunkRest, List.length_drop, List.length_take]
    omega
  refine onSent_pays (sslWrite_wire ..) (by omega) fun n hn => ?_
  have hle : n ≤ c.chunkRest.length := by
    obtain ⟨ssl, hssl⟩ := Option.isSome_iff_exists.1 ht
    have htr : (c.transmit .again io.bodySslWrite c.chunkRest).1 = .bytes n := by
      rw [transmit, hssl]
      rw [hssl] at hn
      exact hn
    exact transmit_le htr
  refine ⟨hle, by omega, ?_⟩
  dsimp only
  split
  · next hdone =>
    refine ⟨Nat.zero_le _, fun hlast => .inr ⟨hc, ?_⟩⟩
    change 0 = _ at hlast
    have hrem : c.sendRemaining - c.chunkUsed ≤ 0 := by omega
    rw [Finished, if_neg]
    · exact ⟨fun _ => hdone, hrem⟩
    · exact hm
  · apply Pays.of_lt
    change 0 < _
    omega

theorem doSendBodyTls_pays (io : Io) (hc : c.state = .sendingBody)
    (hm : ¬ (c.fileFd < 0 ∧ c.response.hasBody)) (ht : c.isTls = true) :
    Pays (if c.chunkSent < c.chunkUsed then
        c.chunkUsed - c.chunkSent + (c.sendRemaining - c.chunkUsed).toNat
      else c.sendRemaining.toNat) (doSendBodyTls io c) := by
  unfold doSendBodyTls
  by_cases hle : c.chunkUsed ≤ c.chunkSent
  · rw [if_neg (Nat.not_lt_of_le hle), if_pos hle]
    split
    · refine .of_ended ?_ (.inl rfl)
      rw [finishFile_wire]
      exact Nat.zero_le _
    · next hrem =>
      dsimp only
      split
      · apply Pays.of_lt
        rw [hangUp_wire]
        change 0 < _
        omega
      · next hdata =>
        have hlen := readChunk_length_le io c
        have hpos := List.length_pos_of_ne_nil hdata
        have hread : c.toRead ≤ c.sendRemaining.toNat := Nat.min_le_left ..
        have htotal : (c.readChunk io).length - 0 +
            (c.sendRemaining - (c.readChunk io).length).toNat = c.sendRemaining.toNat := by
          omega
        rw [← htotal]
        exact Pays.after (sendChunk_pays (c := c.loadChunk _) io hc hm ht hpos) rfl
  · rw [if_pos (Nat.lt_of_not_le hle), if_neg hle]
    exact sendChunk_pays io hc hm ht (Nat.lt_of_not_le hle)

theorem doSendBodyPlain_pays (io : Io) (hc : c.state = .sendingBody)
    (hm : ¬ (c.fileFd < 0 ∧ c.response.hasBody)) (ht : c.isTls = false) :
    Pays c.sendRemaining.toNat (doSendBodyPlain io c) := by
  have hdata := slice_length_le io.file c.sendOffset c.sendRemaining
  unfold doSendBodyPlain
  split
  · refine .of_ended ?_ (.inl rfl)
    rw [finishFile_wire]
    exact Nat.zero_le _
  · next hrem =>
    dsimp only
    split
    · apply Pays.of_lt
      rw [hangUp_wire]
      change 0 < _
      omega
    · cases io.sendfile with
      | done =>
        refine .of_ended ?_ (.inl rfl)
        rw [finishFile_wire]
        change (slice io.file c.sendOffset c.sendRemaining ++ []).length ≤ _
        rwa [List.append_nil]
      | again n =>
        have hw : (wire [Action.sendfile c.fileFd c.fd
            ((slice io.file c.sendOffset c.sendRemaining).take n)]).length =
              min n (slice io.file c.sendOffset c.sendRemaining).length := by
          change (_ ++ ([] : Bytes)).length = _
          rw [List.append_nil]
          exact List.length_take
        constructor
        · rw [hw]
          omega
        · intro hlast
          rw [hw] at hlast
          have hrem : c.sendRemaining -
              (min n (slice io.file c.sendOffset c.sendRemaining).length : Nat) ≤ 0 := by
            omega
          have hplain : c.isTls = true → c.chunkUsed ≤ c.chunkSent := by
            rw [ht]
            exact fun h => Bool.noConfusion h
          refine .inr ⟨hc, ?_⟩
          rw [Finished, if_neg]
          · exact ⟨hplain, hrem⟩
          · exact hm
      | error n =>
        apply Pays.of_lt
        rw [hangUp_wire]
        change ((slice io.file c.sendOffset c.sendRemaining).take
          (min n ((slice io.file c.sendOffset c.sendRemaining).length - 1)) ++ []).length < _
        rw [List.append_nil, List.length_take]
        omega

theorem doSendBody_pays (io : Io) (hc : c.state = .sendingBody) :
    Pays c.bodyOwed (doSendBody io c) := by
  unfold doSendBody bodyOwed
  split
  · exact doSendBodyMemory_pays io c
  · next hm =>
    cases ht : c.isTls with
    | true =>
      have hp := doSendBodyTls_pays io hc hm ht
      simpa using hp
    | false =>
      have hp := doSendBodyPlain_pays io hc hm ht
      simpa using hp

theorem headersSent_pays (io : Io) (c : Connection) :
    Pays (if c.bodiless then 0 else c.bodyOwed) (headersSent io c) := by
  unfold headersSent
  split
  · exact .of_ended (Nat.zero_le _) (.inl rfl)
  · exact doSendBody_pays (c := { c with state := .sendingBody }) io rfl

theorem doSendHeaders_pays (io : Io) (c : Connection)
    (hpos : 0 < c.headerRest.length + if c.bodiless then 0 else c.bodyOwed) :
    Pays (c.headerRest.length + if c.bodiless then 0 else c.bodyOwed) (doSendHeaders io c) := by
  refine onSent_pays (transmit_wire ..) hpos fun n hn => ?_
  have hle := transmit_le hn
  have hrest : c.headerRest.length = c.headerBuf.length - c.headerSent := List.length_drop ..
  refine ⟨hle, by omega, ?_⟩
  dsimp only
  by_cases hall : c.headerBuf.length ≤ c.headerSent + n
  · rw [if_pos hall, show n = c.headerRest.length by omega, Nat.add_sub_cancel_left]
    exact headersSent_pays io { c with headerSent := c.headerSent + c.headerRest.length }
  · rw [if_neg hall]
    apply Pays.of_lt
    change 0 < _
    omega

theorem received_wire (c : Connection) (data : Bytes) (as : List Action) :
    wire (c.received data as).actions = wire as := by
  unfold received
  dsimp only
  split
  · rfl
  · split
    · exact hangUp_wire ..
    · rfl

/-- Nothing is sent while a request is read. -/
theorem ReadCalls.wire {ssl : Option Nat} {as : List Action} (h : ReadCalls ssl as) :
    wire as = [] := by
  cases h with
  | tls => rfl
  | tlsDone => rfl
  | plain => rfl

theorem doRead_wire (io : Io) (c : Connection) : wire (doRead io c).actions = [] := by
  obtain ⟨as, has, ⟨want, h⟩ | ⟨data, _, h⟩ | ⟨buf, _, h⟩⟩ := doRead_forms io c
  · rw [h]
    exact has.wire
  · rw [h, received_wire, has.wire]
  · rw [h, hangUp_wire, has.wire]

theorem doProtoDetect_wire (io : Io) (tls : Bool) (c : Connection) :
    wire (doProtoDetect io tls c).actions = [] := by
  unfold doProtoDetect
  rcases io.peek with (_ | b) | _ | _
  · exact hangUp_wire ..
  · dsimp only
    split
    · split
      · rfl
      · rfl
    · rfl
  · rfl
  · exact hangUp_wire ..

theorem doTlsAccept_wire (io : Io) (ret : SslResult Unit) (c : Connection) :
    wire (doTlsAccept io ret c).actions = [] := by
  cases ret with
  | done => rfl
  | wantRead => rfl
  | wantWrite => rfl
  | error => rfl

theorem doParse_wire (io : Io) (c : Connection) : wire (doParse io c).actions = [] := by
  unfold doParse
  dsimp only
  split
  · rfl
  · rfl

/-- The states in which a response is being sent. -/
def Sending (c : Connection) : Prop := c.state = .sendingHeaders ∨ c.state = .sendingBody

/-- Only a connection that is sending its response has anything to send. -/
theorem stateAction_wire (io : Io) (tls : Bool) (h : ¬ c.Sending) :
    wire (c.stateAction io tls).actions = [] := by
  unfold stateAction
  cases hs : c.state with
  | closed => rfl
  | protoDetect => exact doProtoDetect_wire ..
  | tlsAccept => exact doTlsAccept_wire ..
  | reading => exact doRead_wire ..
  | parsing => exact doParse_wire ..
  | sendingHeaders => exact (h (.inl hs)).elim
  | sendingBody => exact (h (.inr hs)).elim
  | keepAlive =>
    change wire (c.closeFileActions ++ (c.reset.doRead io).actions) = []
    rw [wire_append, closeFileActions_wire, doRead_wire]
    rfl

theorem injectSsl_wire (io : Io) (tls : Bool) (r : Outcome) :
    wire (injectSsl io tls r).actions = wire r.actions := by
  unfold injectSsl
  split
  · rw [Outcome.after_actions, wire_append, doTlsAccept_wire, List.append_nil]
  · rfl

theorem inlineParse_wire (io : Io) (r : Outcome) :
    wire (inlineParse io r).actions = wire r.actions := by
  unfold inlineParse
  split
  · rw [Outcome.after_actions, wire_append, doParse_wire, List.append_nil]
  · rfl

theorem prepareFile_wire (io : Io) (info : FileInfo) (c : Connection) :
    wire (c.prepareFile io info).2 = [] := by
  unfold prepareFile
  split
  · split
    · rfl
    · rfl
  · rfl

theorem prepareResponse_wire (io : Io) (server : FileServer) (c : Connection) :
    wire (c.prepareResponse io server).2 = [] := by
  rcases prepareResponse_cases io server c with ⟨status, body, hp, _⟩ | ⟨info, hp, _⟩
  · rw [hp]
    rfl
  · rw [hp]
    exact prepareFile_wire ..

/-- A response that has begun to be sent is followed by no other answer in the same call. -/
theorem Leads.settled (h : Leads c r) (hc : c.Sending) : Settled r.conn := by
  have hs : Settled c := by
    rcases hc with hc | hc
    · simp [Settled, hc]
    · simp [Settled, hc]
  rcases h with h | h | h | h
  · unfold Settled
    rw [h]
    exact hs
  · simp [Settled, h]
  · simp [Settled, h]
  · simp [Settled, h]

theorem stateAction_settled (io : Io) (tls : Bool) (h : c.Sending) :
    Settled (c.stateAction io tls).conn := by
  have hleads : Leads c (c.stateAction io tls) := by
    unfold stateAction
    rcases h with hs | hs
    · rw [hs]
      exact doSendHeaders_leads io c
    · rw [hs]
      exact doSendBody_leads io c
  exact hleads.settled h

instance (c : Connection) : Decidable c.answerDue :=
  inferInstanceAs (Decidable ((_ ∨ _) ∧ _))

/-- The connection whose response a call of `process_connection` sends: the one it has been
left with, unless the response is built in the call itself. -/
def responding (io : Io) (tls : Bool) (server : FileServer) (c : Connection) : Connection :=
  let d := (inlineParse io (c.firstHalf io tls)).conn
  if d.answerDue then (d.prepareResponse io server).1 else c

/-- A call of `process_connection` sends the last byte of a response that is to be the last one
on its connection. -/
structure LastByte (io : Io) (tls : Bool) (server : FileServer) (c : Connection) : Prop where
  flag : (responding io tls server c).response.keepAlive = false
  some : 0 < (responding io tls server c).owed
  all : (wire (c.advance io tls server).actions).length = (responding io tls server c).owed

theorem settled_not_due (io : Io) (tls : Bool) (h : Settled (c.stateAction io tls).conn) :
    ¬ (inlineParse io (c.firstHalf io tls)).conn.answerDue := by
  obtain ⟨ht, hp, hr⟩ := h
  have hmid : inlineParse io (c.firstHalf io tls) = c.stateAction io tls := by
    rw [firstHalf, injectSsl, if_neg fun h => ht h.1, inlineParse, if_neg fun h => hp h.1]
  rw [hmid]
  exact fun hd => hd.1.elim hp hr

theorem advance_sending (io : Io) (tls : Bool) (server : FileServer) (h : c.Sending) :
    c.advance io tls server = c.stateAction io tls ∧ responding io tls server c = c := by
  have hs := stateAction_settled io tls h
  exact ⟨advance_settled io tls server hs, if_neg (settled_not_due io tls hs)⟩

/-- What is parsed from `PARSING` is the buffer, once or twice. -/
theorem inlineParse_parsing (io : Io) (tls : Bool) (hc : c.state = .parsing) :
    (inlineParse io (c.firstHalf io tls)).conn =
      if (HttpRequest.parse c.readBuf).1 then
        { c with request := (HttpRequest.parse c.readBuf).2 }
      else { c with request := (HttpRequest.parse c.readBuf).2 }.prepareError .badRequest []
        io.time := by
  have hact : c.stateAction io tls = c.doParse io := by rw [stateAction, hc]
  have hfirst : c.firstHalf io tls = c.doParse io := by
    rw [firstHalf, hact, injectSsl, if_neg]
    unfold doParse
    dsimp only
    split
    · rw [hc]
      exact fun h => State.noConfusion h.1
    · exact fun h => State.noConfusion h.1
  rw [hfirst]
  unfold inlineParse doParse
  cases hacc : (HttpRequest.parse c.readBuf).1 with
  | true =>
    simp only [hacc, if_true]
    split
    · rfl
    · rfl
  | false =>
    simp only [hacc, Bool.false_eq_true, if_false]
    rw [if_neg fun h => State.noConfusion h.1]

theorem inlineParse_due (io : Io) (tls : Bool) (hc : c.state = .parsing)
    (hd : (inlineParse io (c.firstHalf io tls)).conn.answerDue) :
    (HttpRequest.parse c.readBuf).1 = true ∧ (inlineParse io (c.firstHalf io tls)).conn =
      { c with request := (HttpRequest.parse c.readBuf).2 } := by
  rw [inlineParse_parsing io tls hc] at hd ⊢
  cases hacc : (HttpRequest.parse c.readBuf).1 with
  | true => exact ⟨rfl, rfl⟩
  | false =>
    rw [hacc, if_neg Bool.false_ne_true] at hd
    rcases hd.1 with h | h
    · cases h
    · cases h

/-- An answer is due only on a connection that has been parsed or is to be read. -/
theorem state_of_due (io : Io) (tls : Bool)
    (hd : (inlineParse io (c.firstHalf io tls)).conn.answerDue) :
    c.state = .parsing ∨ c.state.isEarly = true ∨ c.state = .keepAlive := by
  by_contra hnot
  refine settled_not_due io tls ?_ hd
  cases hc : c.state with
  | closed =>
    have hact : c.stateAction io tls = ⟨c, .none, []⟩ := by rw [stateAction, hc]
    rw [hact]
    simp [Settled, hc]
  | sendingHeaders => exact stateAction_settled io tls (.inl hc)
  | sendingBody => exact stateAction_settled io tls (.inr hc)
  | parsing => exact (hnot (.inl hc)).elim
  | keepAlive => exact (hnot (.inr (.inr hc))).elim
  | protoDetect => exact (hnot (.inr (.inl (by rw [hc]; rfl)))).elim
  | tlsAccept => exact (hnot (.inr (.inl (by rw [hc]; rfl)))).elim
  | reading => exact (hnot (.inr (.inl (by rw [hc]; rfl)))).elim

theorem firstHalf_wire (io : Io) (tls : Bool) (h : ¬ c.Sending) :
    wire (inlineParse io (c.firstHalf io tls)).actions = [] := by
  rw [inlineParse_wire, firstHalf, injectSsl_wire, stateAction_wire io tls h]

/-- A call of `process_connection` pays for what it sends, if there is something to send. -/
theorem advance_pays (io : Io) (tls : Bool) (server : FileServer)
    (hpos : 0 < (responding io tls server c).owed) :
    Pays (responding io tls server c).owed (c.advance io tls server) := by
  by_cases hs : c.Sending
  · obtain ⟨hadv, hresp⟩ := advance_sending io tls server hs
    rw [hresp] at hpos ⊢
    rw [hadv]
    unfold owed at hpos ⊢
    unfold stateAction
    rcases hs with hs | hs
    · rw [hs] at hpos ⊢
      exact doSendHeaders_pays io c hpos
    · rw [if_pos hs, hs]
      exact doSendBody_pays io hs
  · have hwire := firstHalf_wire io tls hs
    unfold responding at hpos ⊢
    unfold advance secondHalf
    by_cases hd : (inlineParse io (c.firstHalf io tls)).conn.answerDue
    · have hstate : ((inlineParse io (c.firstHalf io tls)).conn.prepareResponse io server).1.state
          ≠ .sendingBody := by
        rw [(prepareResponse_prepared io server _).state]
        rcases hd.1 with hd | hd
        · rw [hd]
          exact State.noConfusion
        · rw [hd]
          exact State.noConfusion
      dsimp only at hpos ⊢
      rw [if_pos hd, owed, if_neg hstate] at hpos ⊢
      rw [answer_due io server hd]
      refine (doSendHeaders_pays io _ hpos).after ?_
      rw [wire_append, hwire, prepareResponse_wire]
      rfl
    · rw [answer_not_due io server hd]
      apply Pays.of_lt
      rw [hwire]
      exact hpos

theorem LastByte.ended (h : LastByte io tls server c) : Ended (c.advance io tls server).conn :=
  (advance_pays io tls server h.some).last h.all

theorem Ended.live (h : Ended c) : c.state ≠ .closed := by
  rcases h with h | ⟨h, _⟩
  · rw [h]
    exact State.noConfusion
  · rw [h]
    exact State.noConfusion

/-- A connection that its first step closes is left alone for the rest of the call. -/
theorem advance_closed (io : Io) (tls : Bool) (server : FileServer)
    (h : (c.stateAction io tls).conn.state = .closed) :
    (c.advance io tls server).conn.state = .closed := by
  rw [advance_settled io tls server (by simp [Settled, h])]
  exact h

end Connection

namespace EventLoop
open Connection
variable {s : EventLoop} {io : Io} {i : Nat}

/-- A connection waits for a further request, or does after its next event. -/
def WaitsForMore (s : EventLoop) (i : Nat) : Prop :=
  (s.conn i).state = .keepAlive ∨ ((s.conn i).state = .sendingBody ∧
    ∀ io, ((s.processConnection io i).conn i).state = .keepAlive)

theorem waitsForMore_of_ended (h : Ended (s.conn i)) : WaitsForMore s i := by
  rcases h with h | ⟨hs, h⟩
  · exact .inl h
  · refine .inr ⟨hs, fun io => ?_⟩
    have hact : (s.conn i).stateAction io s.tlsCtx = doSendBody io (s.conn i) := by
      rw [stateAction, hs]
    have hnext := h.next io
    have hcore := congrArg Connection.state (processConnection_outcome s io i).1
    rw [(advance_sending io s.tlsCtx s.fileServer (.inr hs)).1, hact] at hcore
    exact hcore.trans hnext

/-- After the last byte of any response that announces the end of its connection, the connection
is still open, and waits for a further request. -/
theorem last_byte_keeps_open (h : LastByte io s.tlsCtx s.fileServer (s.conn i)) :
    ((s.processConnection io i).conn i).state ≠ .closed ∧
      WaitsForMore (s.processConnection io i) i := by
  have hcore := (processConnection_outcome s io i).1
  have hended : Ended ((s.processConnection io i).conn i) := by
    have hiff : Ended ((s.processConnection io i).conn i).core := by
      rw [hcore]
      exact h.ended
    exact hiff
  exact ⟨hended.live, waitsForMore_of_ended hended⟩

/-- A client that has begun with a TLS record, of a server that speaks no TLS. -/
def refusedClient : EventLoop :=
  (round [(⟨false, false, .listener⟩, { accepts := [(5, 0)] })] ++
    round [(⟨false, false, .conn 0⟩, { peek := .done (some 0x16) })]).foldl step
      (create ⟨bytes "/srv"⟩ 75 false)

/-- The socket takes all of a short response at once. -/
def takesAll : Io := { headerWrite := .done 4096, bodyWrite := .done 4096 }

theorem refusedClient_lastByte :
    LastByte takesAll refusedClient.tlsCtx refusedClient.fileServer (refusedClient.conn 0) := by
  refine ⟨?_, ?_, ?_⟩
  · decide
  · decide
  · decide

theorem last_byte_keeps_open_refused :
    ((refusedClient.processConnection takesAll 0).conn 0).state ≠ .closed ∧
      WaitsForMore (refusedClient.processConnection takesAll 0) 0 :=
  last_byte_keeps_open refusedClient_lastByte

/-- The refused client stays connected, and what it sends next is parsed as a request. -/
theorem refused_client_served_on :
    refusedClient.Reachable ∧
      LastByte takesAll refusedClient.tlsCtx refusedClient.fileServer (refusedClient.conn 0) ∧
      ((refusedClient.processConnection takesAll 0).conn 0).state ≠ .closed ∧
      .parse getText ∈ during (refusedClient.processConnection takesAll 0)
        ((refusedClient.processConnection takesAll 0).processConnection
          { read := .done getText } 0) := by
  refine ⟨reachable_run .., refusedClient_lastByte, ?_, ?_⟩
  · decide
  · decide

end EventLoop

end FileWebServer
