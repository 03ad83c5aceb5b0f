import FileWebServer.Core.Histories

namespace FileWebServer
open Search
set_option autoImplicit true
set_option maxRecDepth 20000

namespace Connection
variable {c d : Connection} {r : Outcome} {io : Io} {tls : Bool} {server : FileServer}
  {raw : Bytes}

/-- A connection that has not read a request yet is as `init` leaves it. -/
def Untouched (c : Connection) : Prop :=
  c.state.isEarly = true → c.slate = (.reset, .reset, 0, 0, 0, 0, 0, 0, false)

theorem untouched_invariant : ConnInvariant Untouched := by
  apply early_invariant
  · exact fun c d hslate _ hc => hslate ▸ hc
  · exact fun c hc => congrArg (fun p => p.1.method) hc
  · exact fun c fd root timeout now tls => rfl

/-- A request arrives whole in one read. -/
structure Whole (io : Io) (tls : Bool) (raw : Bytes) : Prop where
  arrives : if tls then io.sslRead = .done raw else io.read = .done raw
  complete : (find crlfcrlf raw).isSome
  fits : raw.length ≤ 4096

theorem Whole.ne_nil (h : Whole io tls raw) : raw ≠ [] := by
  rintro rfl
  exact absurd h.complete (by decide)

/-- A connection with an empty buffer goes on to parse such a request. -/
theorem Whole.doRead (h : Whole io c.isTls raw) (hbuf : c.readBuf = []) :
    ∃ as, c.doRead io = ⟨{ c.touch io.now with
      readBuf := raw, headersComplete := true, state := .parsing }, .none, as⟩ ∧ wire as = [] := by
  obtain ⟨as, _, hd⟩ := doRead_data c h.ne_nil h.arrives
  rw [List.take_of_length_le h.fits] at hd
  have hbuf' : (c.touch io.now).readBuf ++ raw = raw := by
    change c.readBuf ++ raw = raw
    rw [hbuf, List.nil_append]
  have hcomplete : (find crlfcrlf ((c.touch io.now).readBuf ++ raw)).isSome := by
    rw [hbuf']
    exact h.complete
  have hwire := doRead_wire io c
  rw [hd, received_complete hcomplete, hbuf'] at hwire ⊢
  exact ⟨as, rfl, hwire⟩

/-- After a whole request, a connection that has waited for it is like one that has just begun. -/
theorem Whole.alike (h : Whole io c.isTls raw) (hc : c.state = .keepAlive)
    (hd : d.state = .reading) (hbuf : d.readBuf = []) (ht : c.isTls = d.isTls)
    (hnew : Untouched d) (hopen : Opens d) :
    Steps (c.stateAction io tls) (d.stateAction io tls) := by
  have hearly : d.state.isEarly = true := by
    rw [hd]
    rfl
  have hslate := hnew hearly
  have hfile := (hopen hearly).file
  have hreset : Whole io c.reset.isTls raw := h
  obtain ⟨as, hread, has⟩ := hreset.doRead rfl
  obtain ⟨bs, hread', hbs⟩ := (ht ▸ h : Whole io d.isTls raw).doRead hbuf
  simp only [slate, Prod.mk.injEq] at hslate
  obtain ⟨hreq, hresp, hheader, hoff, hrem, hused, hsent, hbody, hhead⟩ := hslate
  unfold stateAction
  rw [hc, hd]
  dsimp only
  rw [hread, hread']
  constructor
  · have hcr : c.reset.chunkRest = [] := chunkRest_of_le (Nat.le_refl _)
    have hdr : d.chunkRest = [] := by
      apply chunkRest_of_le
      rw [hused]
      exact Nat.zero_le _
    exact {
      state := rfl
      transport := ht
      readBuf := rfl
      header := fun h => State.noConfusion h
      headerSent := hheader.symm
      file := .inr ⟨(reset_unbegun c).file, hfile⟩
      offset := hoff.symm
      remaining := hrem.symm
      chunk := hcr.trans hdr.symm
      chunkUsed := hused.symm
      chunkSent := hsent.symm
      bodySent := hbody.symm
      request := hreq.symm
      response := hresp.symm
      isHead := hhead.symm
      lastActive := rfl }
  · rfl
  · rw [Outcome.after_actions, wire_append, closeFileActions_wire, has, hbs]
    rfl

end Connection

namespace EventLoop
open Connection
variable {s t : EventLoop} {i j : Nat} {io : Io} {raw : Bytes} {vs : List Visit}
  {l l' : List Seen}

/-- A connection that waits for its next request, whatever requests it has served, and one of a
reachable state that has not read any yet show the same states, wants and bytes from the visit on
in which the same whole request reaches them. -/
theorem next_request_as_first (ht : t.Reachable) (hc : s.config = t.config)
    (hwaits : (s.conn i).state = .keepAlive) (hfresh : (t.conn j).state = .reading)
    (hnone : (t.conn j).readBuf = []) (htls : (s.conn i).isTls = (t.conn j).isTls)
    (hwhole : Whole io (s.conn i).isTls raw) (hl : Lives i s (.process io :: vs) l)
    (hl' : Lives j t (.process io :: vs) l') : l = l' := by
  have hnew : Untouched (t.conn j) := ht.conn untouched_invariant j
  have hopen : Opens (t.conn j) := ht.conn opens_invariant j
  have hadv : Steps ((s.conn i).advance io s.tlsCtx s.fileServer)
      ((t.conn j).advance io s.tlsCtx s.fileServer) := by
    have hread : Steps ((s.conn i).stateAction io s.tlsCtx)
        ((t.conn j).stateAction io s.tlsCtx) :=
      hwhole.alike hwaits hfresh hnone htls hnew hopen
    exact ((hread.injectSsl io s.tlsCtx).inlineParse io).answer io s.fileServer
  have htlsCtx : s.tlsCtx = t.tlsCtx := congrArg (fun p => p.1) hc
  have hserver : s.fileServer = t.fileServer := congrArg (fun p => p.2.1) hc
  have htime : s.keepAliveTimeout = t.keepAliveTimeout := congrArg (fun p => p.2.2) hc
  rw [hl.eq_history, hl'.eq_history]
  unfold slotHistory
  rw [← htlsCtx, ← hserver, ← htime, history_cons, history_cons]
  unfold Connection.visit
  dsimp only
  rw [hadv.conn.state, hadv.want, hadv.sent, hadv.conn.history _ _ _ vs]

/-- The socket brings a request and takes all of the response to it. -/
def servesAtOnce : Io := { read := .done getText, headerWrite := .done 4096, bodyWrite := .done 4096 }

theorem next_request_as_first_get :
    [(greeted.processConnection servesAtOnce 0).seen 0 (.process servesAtOnce)] =
      [greeted.seen 0 (.process servesAtOnce)] := by
  have hwhole : Whole servesAtOnce ((greeted.processConnection servesAtOnce 0).conn 0).isTls
      getText := ⟨by decide, by decide, by decide⟩
  refine next_request_as_first (reachable_run ..) (processConnection_config ..) ?_ ?_ ?_ ?_ hwhole
    (.visit (.nil _)) (.visit (.nil _))
  · decide
  · decide
  · decide
  · decide

end EventLoop

end FileWebServer
