import FileWebServer.Core.Answer

namespace FileWebServer
set_option autoImplicit true

/-- A call that moves bytes without encryption, or that is made on no SSL object. -/
def Action.inClear : Action → Bool
  | .read _ _ | .write _ _ | .sendfile _ _ _ | .sslAccept none _ | .sslWrite none _ _ => true
  | _ => false

/-- Nothing is said in the clear. -/
def Sealed (actions : List Action) : Prop := ∀ a ∈ actions, a.inClear = false

theorem Sealed.append (h : Sealed as) (h' : Sealed bs) : Sealed (as ++ bs) := by
  intro a ha
  rcases List.mem_append.1 ha with ha | ha
  · exact h a ha
  · exact h' a ha

theorem sealed_append : Sealed (as ++ bs) ↔ Sealed as ∧ Sealed bs :=
  ⟨fun h => ⟨fun a ha => h a (List.mem_append_left _ ha), fun a ha =>
    h a (List.mem_append_right _ ha)⟩, fun h => h.1.append h.2⟩

namespace Connection
variable {c d : Connection} {r r' : Outcome} {io : Io}

/-- A step that leaves the transport of a connection as it is, unless it closes it, and that keeps
to it. -/
structure KeepsLine (io : Io) (c : Connection) (r : Outcome) : Prop where
  ssl : r.conn.ssl = c.ssl ∨ r.conn.state = .closed
  lastActive : r.conn.lastActive = c.lastActive ∨ r.conn.lastActive = io.now
  quiet : c.ssl ≠ none → Sealed r.actions

/-- A step goes on where another one has left the connection open. -/
theorem KeepsLine.after (h : KeepsLine io c r) (hr : r.conn.state ≠ .closed)
    (h' : KeepsLine io r.conn r') : KeepsLine io c (r'.after r.actions) := by
  have hssl := h.ssl.resolve_right hr
  refine ⟨?_, ?_, fun hc => (h.quiet hc).append (h'.quiet (hssl ▸ hc))⟩
  · rw [← hssl]
    exact h'.ssl
  · rcases h'.lastActive with hl | hl
    · rw [Outcome.after_conn, hl]
      exact h.lastActive
    · exact .inr hl

theorem KeepsLine.base (h : KeepsLine io d r) (hs : d.ssl = c.ssl)
    (hl : d.lastActive = c.lastActive ∨ d.lastActive = io.now) : KeepsLine io c r := by
  refine ⟨hs ▸ h.ssl, ?_, fun hc => h.quiet (hs ▸ hc)⟩
  rcases h.lastActive with ha | ha
  · rw [ha]
    exact hl
  · exact .inr ha

/-- A step after some calls that say nothing in the clear. -/
theorem KeepsLine.behind (h : KeepsLine io c r) (has : c.ssl ≠ none → Sealed as) :
    KeepsLine io c (r.after as) :=
  ⟨h.ssl, h.lastActive, fun hc => (has hc).append (h.quiet hc)⟩

theorem closeFileActions_sealed (c : Connection) : Sealed c.closeFileActions := by
  unfold closeFileActions
  split
  · simp [Sealed, Action.inClear]
  · simp [Sealed]

theorem closeActions_sealed (c : Connection) : Sealed c.closeActions := by
  unfold closeActions
  split
  · simp [Sealed]
  · refine ((?_ : Sealed _).append ?_).append c.closeFileActions_sealed
    · split
      · simp [Sealed, Action.inClear]
      · simp [Sealed]
    · cases c.ssl with
      | none => simp [Sealed]
      | some => simp [Sealed, Action.inClear]

theorem close_lastActive (c : Connection) : c.close.lastActive = c.lastActive := by
  unfold close
  split <;> rfl

theorem hangUp_keepsLine (hl : d.lastActive = c.lastActive ∨ d.lastActive = io.now)
    (has : c.ssl ≠ none → Sealed as) : KeepsLine io c (d.hangUp as) := by
  refine ⟨.inr (close_state d), ?_, fun hc => (has hc).append d.closeActions_sealed⟩
  exact (close_lastActive d).symm ▸ hl

theorem sslWrite_sealed {ssl : Option Nat} (h : ssl ≠ none) (ret : SslResult Nat)
    (offered : Bytes) : Sealed (sslWrite ssl ret offered).2 := by
  obtain ⟨n, rfl⟩ := Option.ne_none_iff_exists'.1 h
  unfold sslWrite
  cases ret with
  | done n =>
    dsimp only
    split <;> simp [Sealed, Action.inClear]
  | wantRead => simp [Sealed, Action.inClear]
  | wantWrite => simp [Sealed, Action.inClear]
  | error => simp [Sealed, Action.inClear]

theorem transmit_sealed (h : c.ssl ≠ none) (ret : SysResult Nat) (sslRet : SslResult Nat)
    (offered : Bytes) : Sealed (c.transmit ret sslRet offered).2 := by
  obtain ⟨n, hn⟩ := Option.ne_none_iff_exists'.1 h
  unfold transmit
  rw [hn]
  exact sslWrite_sealed (Option.some_ne_none n) sslRet offered

theorem onSent_keepsLine {attempt : Sent × List Action} {next : Nat → Outcome}
    (hattempt : c.ssl ≠ none → Sealed attempt.2) (hnext : ∀ n, KeepsLine io c (next n)) :
    KeepsLine io c (c.onSent attempt next) := by
  obtain ⟨sent, as⟩ := attempt
  cases sent with
  | bytes n => exact (hnext n).behind hattempt
  | wait want => exact ⟨.inl rfl, .inl rfl, hattempt⟩
  | fatal => exact hangUp_keepsLine (.inl rfl) hattempt

theorem keepsLine_quiet {want : Want} (hs : d.ssl = c.ssl)
    (hl : d.lastActive = c.lastActive ∨ d.lastActive = io.now)
    (has : c.ssl ≠ none → Sealed as) : KeepsLine io c ⟨d, want, as⟩ := ⟨.inl hs, hl, has⟩

theorem sealed_nil : Sealed [] := by simp [Sealed]

theorem finishFile_keepsLine (hs : d.ssl = c.ssl) (hl : d.lastActive = c.lastActive)
    (has : c.ssl ≠ none → Sealed as) : KeepsLine io c (d.finishFile as) :=
  ⟨.inl hs, .inl hl, fun hc => (has hc).append d.closeFileActions_sealed⟩

theorem sendChunk_keepsLine (io : Io) (c : Connection) : KeepsLine io c (sendChunk io c) := by
  apply onSent_keepsLine fun hc => sslWrite_sealed hc _ _
  intro n
  dsimp only
  split
  · exact keepsLine_quiet rfl (.inl rfl) fun _ => sealed_nil
  · exact keepsLine_quiet rfl (.inl rfl) fun _ => sealed_nil

theorem doSendBodyTls_keepsLine (io : Io) (c : Connection) :
    KeepsLine io c (doSendBodyTls io c) := by
  unfold doSendBodyTls
  split
  · split
    · exact finishFile_keepsLine rfl rfl fun _ => sealed_nil
    · dsimp only
      split
      · exact hangUp_keepsLine (.inl rfl) fun _ => by
          simp [Sealed, Action.inClear]
      · have hsend : KeepsLine io c (sendChunk io (c.loadChunk (c.readChunk io))) :=
          (sendChunk_keepsLine io _).base rfl (.inl rfl)
        exact hsend.behind fun _ => by simp [Sealed, Action.inClear]
  · exact sendChunk_keepsLine io c

theorem doSendBodyPlain_keepsLine (io : Io) (hs : c.ssl = none) :
    KeepsLine io c (doSendBodyPlain io c) := by
  have hno {as : List Action} (hc : c.ssl ≠ none) : Sealed as := (hc hs).elim
  unfold doSendBodyPlain
  split
  · exact finishFile_keepsLine rfl rfl hno
  · dsimp only
    split
    · exact hangUp_keepsLine (.inl rfl) hno
    · cases io.sendfile with
      | done => exact finishFile_keepsLine rfl rfl hno
      | again n => exact keepsLine_quiet rfl (.inl rfl) hno
      | error n => exact hangUp_keepsLine (.inl rfl) hno

theorem doSendBodyMemory_keepsLine (io : Io) (c : Connection) :
    KeepsLine io c (doSendBodyMemory io c) := by
  unfold doSendBodyMemory
  dsimp only
  split
  · exact keepsLine_quiet rfl (.inl rfl) fun _ => sealed_nil
  · apply onSent_keepsLine fun hc => transmit_sealed hc _ _ _
    intro n
    split
    · exact keepsLine_quiet rfl (.inl rfl) fun _ => sealed_nil
    · exact keepsLine_quiet rfl (.inl rfl) fun _ => sealed_nil

theorem doSendBody_keepsLine (io : Io) (c : Connection) : KeepsLine io c (doSendBody io c) := by
  unfold doSendBody
  split
  · exact doSendBodyMemory_keepsLine io c
  · split
    · exact doSendBodyTls_keepsLine io c
    · next htls => exact doSendBodyPlain_keepsLine io (by simpa [isTls] using htls)

theorem headersSent_keepsLine (io : Io) (c : Connection) :
    KeepsLine io c (headersSent io c) := by
  unfold headersSent
  split
  · exact keepsLine_quiet rfl (.inl rfl) fun _ => sealed_nil
  · exact (doSendBody_keepsLine io _).base rfl (.inl rfl)

theorem doSendHeaders_keepsLine (io : Io) (c : Connection) :
    KeepsLine io c (doSendHeaders io c) := by
  apply onSent_keepsLine fun hc => transmit_sealed hc _ _ _
  intro n
  dsimp only
  split
  · exact (headersSent_keepsLine io _).base rfl (.inl rfl)
  · exact keepsLine_quiet rfl (.inl rfl) fun _ => sealed_nil

theorem ReadCalls.sealed {ssl : Option Nat} (h : ReadCalls ssl as) (hs : ssl ≠ none) :
    Sealed as := by
  cases h with
  | tls => simp [Sealed, Action.inClear]
  | tlsDone => simp [Sealed, Action.inClear]
  | plain => exact (hs rfl).elim

theorem received_keepsLine (io : Io) (data : Bytes) (has : c.ssl ≠ none → Sealed as) :
    KeepsLine io c (c.received data as) := by
  unfold received
  dsimp only
  split
  · exact keepsLine_quiet rfl (.inl rfl) has
  · split
    · exact hangUp_keepsLine (.inl rfl) has
    · exact keepsLine_quiet rfl (.inl rfl) has

/-- A read marks the time of the last activity, whatever it brings. -/
theorem doRead_keepsLine (io : Io) (c : Connection) :
    KeepsLine io (c.touch io.now) (c.doRead io) := by
  obtain ⟨as, has, ⟨want, hd⟩ | ⟨data, _, hd⟩ | ⟨buf, _, hd⟩⟩ := doRead_forms io c
  · rw [hd]
    exact keepsLine_quiet rfl (.inl rfl) has.sealed
  · rw [hd]
    exact received_keepsLine io data has.sealed
  · rw [hd]
    exact hangUp_keepsLine (.inl rfl) has.sealed

theorem prepareError_line (c : Connection) (status : Status) (note : Bytes) (time : Int) :
    (c.prepareError status note time).ssl = c.ssl ∧
      (c.prepareError status note time).lastActive = c.lastActive := by
  unfold prepareError prepareHeaders
  exact ⟨rfl, rfl⟩

theorem doParse_keepsLine (io : Io) (c : Connection) : KeepsLine io c (c.doParse io) := by
  unfold doParse
  dsimp only
  split
  · exact keepsLine_quiet rfl (.inl rfl) fun _ => by
      simp [Sealed, Action.inClear]
  · obtain ⟨hs, hl⟩ := prepareError_line
      { c with request := (HttpRequest.parse c.readBuf).2 } .badRequest [] io.time
    exact keepsLine_quiet hs (.inl hl) fun _ => by
      simp [Sealed, Action.inClear]

theorem doTlsAccept_keepsLine (io : Io) (ret : SslResult Unit) (c : Connection) :
    KeepsLine io c (c.doTlsAccept io ret) := by
  have haccept (hc : c.ssl ≠ none) : Sealed [.sslAccept c.ssl ret, .sslGetError] ∧
      Sealed [.sslAccept c.ssl ret] ∧
      Sealed [.sslAccept c.ssl ret, .sslGetError, .prepareHeaders] := by
    obtain ⟨n, hn⟩ := Option.ne_none_iff_exists'.1 hc
    simp [hn, Sealed, Action.inClear]
  cases ret with
  | done => exact keepsLine_quiet rfl (.inr rfl) fun hc => (haccept hc).2.1
  | wantRead => exact keepsLine_quiet rfl (.inl rfl) fun hc => (haccept hc).1
  | wantWrite => exact keepsLine_quiet rfl (.inl rfl) fun hc => (haccept hc).1
  | error =>
    obtain ⟨hs, hl⟩ := prepareError_line c .internalError [] io.time
    exact keepsLine_quiet hs (.inl hl) fun hc => (haccept hc).2.2

theorem doProtoDetect_keepsLine (io : Io) (tls : Bool) (c : Connection) :
    KeepsLine io c (c.doProtoDetect io tls) := by
  have hpeek : c.ssl ≠ none → Sealed [.recvPeek c.fd] := by simp [Sealed, Action.inClear]
  unfold doProtoDetect
  rcases io.peek with (_ | b) | _ | _
  · exact hangUp_keepsLine (.inl rfl) hpeek
  · dsimp only
    split
    · split
      · exact keepsLine_quiet rfl (.inl rfl) hpeek
      · obtain ⟨hs, hl⟩ := prepareError_line c .badRequest
          (bytes "\n(Server does not support HTTPS/TLS)") io.time
        exact keepsLine_quiet hs (.inl hl) fun _ => by
          simp [Sealed, Action.inClear]
    · exact keepsLine_quiet rfl (.inr rfl) hpeek
  · exact keepsLine_quiet rfl (.inl rfl) hpeek
  · exact hangUp_keepsLine (.inl rfl) hpeek

theorem stateAction_keepsLine (io : Io) (tls : Bool) (c : Connection) :
    KeepsLine io c (c.stateAction io tls) := by
  unfold stateAction
  cases c.state with
  | closed => exact keepsLine_quiet rfl (.inl rfl) fun _ => sealed_nil
  | protoDetect => exact doProtoDetect_keepsLine io tls c
  | tlsAccept => exact doTlsAccept_keepsLine io _ c
  | reading => exact (doRead_keepsLine io c).base rfl (.inr rfl)
  | parsing => exact doParse_keepsLine io c
  | sendingHeaders => exact doSendHeaders_keepsLine io c
  | sendingBody => exact doSendBody_keepsLine io c
  | keepAlive =>
    have hread : KeepsLine io c (c.reset.doRead io) :=
      (doRead_keepsLine io c.reset).base rfl (.inr rfl)
    exact hread.behind fun _ => c.closeFileActions_sealed

theorem prepareFile_line (io : Io) (info : FileInfo) (c : Connection) :
    (c.prepareFile io info).1.ssl = c.ssl ∧
      (c.prepareFile io info).1.lastActive = c.lastActive ∧
      Sealed (c.prepareFile io info).2 := by
  obtain ⟨resp, _, hp | ⟨start, stop, hp⟩⟩ := prepareFile_cases io info c
  · rw [hp]
    unfold prepareHeaders
    exact ⟨rfl, rfl, by simp [Sealed, Action.inClear]⟩
  · rw [hp]
    unfold prepareHeaders setSendFile
    exact ⟨rfl, rfl, by simp [Sealed, Action.inClear]⟩

theorem prepareResponse_line (io : Io) (server : FileServer) (c : Connection) :
    (c.prepareResponse io server).1.ssl = c.ssl ∧
      (c.prepareResponse io server).1.lastActive = c.lastActive ∧
      Sealed (c.prepareResponse io server).2 := by
  rcases prepareResponse_cases io server c with ⟨status, body, hp, _⟩ | ⟨info, hp, _⟩
  · rw [hp]
    unfold preparePage prepareHeaders
    exact ⟨rfl, rfl, by simp [Sealed, Action.inClear]⟩
  · obtain ⟨hs, hl, hq⟩ := prepareFile_line io info c.blank
    rw [hp]
    refine ⟨hs, hl, fun a ha => ?_⟩
    rcases List.mem_cons.1 ha with rfl | ha
    · rfl
    · exact hq a ha

/-- Parsing and answering keep to the transport that the first half of a call has left. -/
theorem secondHalf_keepsLine (server : FileServer) (h : KeepsLine io c r) :
    KeepsLine io c (secondHalf io server r) := by
  have hparse : KeepsLine io c (inlineParse io r) := by
    unfold inlineParse
    split
    · next hp =>
      apply h.after _ (doParse_keepsLine io r.conn)
      rw [hp.1]
      exact State.noConfusion
    · exact h
  unfold secondHalf
  by_cases hd : (inlineParse io r).conn.answerDue
  · obtain ⟨hs, hl, hq⟩ := prepareResponse_line io server (inlineParse io r).conn
    have hlive : (inlineParse io r).conn.state ≠ .closed := by
      rcases hd.1 with hs | hs
      · rw [hs]
        exact State.noConfusion
      · rw [hs]
        exact State.noConfusion
    have hsend := ((doSendHeaders_keepsLine io
      ((inlineParse io r).conn.prepareResponse io server).1).base hs (.inl hl)).behind fun _ => hq
    have hall := hparse.after hlive hsend
    rw [answer_due io server hd]
    refine ⟨hall.ssl, hall.lastActive, fun hc => ?_⟩
    have hq' := hall.quiet hc
    rw [Outcome.after_actions, Outcome.after_actions] at hq'
    rw [Outcome.after_actions, List.append_assoc]
    exact hq'
  · rw [answer_not_due io server hd]
    exact hparse

/-- `process_connection` calls `do_read` in these states. -/
def Reads (c : Connection) : Prop := c.state = .reading ∨ c.state = .keepAlive

instance (c : Connection) : Decidable c.Reads := inferInstanceAs (Decidable (_ ∨ _))

/-- A call that has nothing to do with the injection of an SSL object keeps to its transport. -/
theorem advance_keepsLine (io : Io) (tls : Bool) (server : FileServer)
    (h : (c.stateAction io tls).conn.state = .tlsAccept →
      (c.stateAction io tls).conn.ssl ≠ none) : KeepsLine io c (c.advance io tls server) := by
  have hfirst : c.firstHalf io tls = c.stateAction io tls := by
    apply if_neg
    rintro ⟨ht, htls⟩
    exact htls (Option.isSome_iff_ne_none.2 (h ht))
  unfold advance
  rw [hfirst]
  exact secondHalf_keepsLine server (stateAction_keepsLine io tls c)

/-- A connection that has an SSL object keeps to it. -/
theorem advance_keepsLine_of_ssl (io : Io) (tls : Bool) (server : FileServer)
    (hs : c.ssl ≠ none) : KeepsLine io c (c.advance io tls server) := by
  apply advance_keepsLine
  intro ht
  rcases (stateAction_keepsLine io tls c).ssl with he | he
  · rw [he]
    exact hs
  · rw [he] at ht
    cases ht

end Connection

end FileWebServer
