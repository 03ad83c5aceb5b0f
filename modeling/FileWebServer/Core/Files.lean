import FileWebServer.Core.Framing
import FileWebServer.Core.Sending
import FileWebServer.Lib.Ledger

namespace FileWebServer
open Ledger
set_option autoImplicit true

/-- The entry that an action makes in the ledger of file descriptors. -/
def Action.entry : Action → Option (Entry Int)
  | .openFile fd => some (.opened fd)
  | .closeFile fd => some (.closed fd)
  | _ => none

def files (actions : List Action) : List (Entry Int) := actions.filterMap Action.entry

@[simp] theorem files_nil : files [] = [] := rfl

@[simp] theorem files_append (as bs : List Action) : files (as ++ bs) = files as ++ files bs :=
  List.filterMap_append

namespace Connection
variable {c d : Connection} {r r' : Outcome} {io : Io} {server : FileServer} {lost lost' : Multiset Int}

/-- The descriptor that a connection owns. -/
def heldFile (c : Connection) : Multiset Int := if 0 ≤ c.fileFd then {c.fileFd} else 0

theorem heldFile_eq_zero : c.heldFile = 0 ↔ c.fileFd < 0 := by
  unfold heldFile
  split
  · next h => exact iff_of_false (Multiset.singleton_ne_zero _) (Int.not_lt.2 h)
  · next h => exact iff_of_true rfl (Int.not_le.1 h)

theorem heldFile_congr (h : c.fileFd = d.fileFd) : c.heldFile = d.heldFile := by
  unfold heldFile
  rw [h]

/-- A closed connection owns no file. -/
def Tidy (c : Connection) : Prop := c.state = .closed → c.fileFd < 0

/-- A step that loses track of the descriptors `lost`. -/
structure Leaves (lost : Multiset Int) (c : Connection) (r : Outcome) : Prop where
  books : balance c.heldFile (files r.actions) = some (r.conn.heldFile + lost)
  tidy : Tidy c → Tidy r.conn

theorem Leaves.append {as : List Action} (h : Leaves lost c ⟨d, want, as⟩)
    (h' : Leaves lost' d r) : Leaves (lost' + lost) c (r.after as) := by
  refine ⟨?_, fun hc => h'.tidy (h.tidy hc)⟩
  have hrest := balance_frame h'.books lost
  rw [add_assoc] at hrest
  rw [Outcome.after_actions, files_append, balance_trans h.books]
  exact hrest

theorem Leaves.after {as : List Action} (h : Leaves lost c ⟨d, want, as⟩) (h' : Leaves 0 d r) :
    Leaves lost c (r.after as) := by
  have hall := h.append h'
  rwa [zero_add] at hall

theorem Leaves.base (h : Leaves lost d r) (hf : d.fileFd = c.fileFd)
    (hd : d.state = c.state ∨ c.state ≠ .closed ∧ d.state ≠ .closed) : Leaves lost c r := by
  refine ⟨heldFile_congr hf ▸ h.books, fun hc => h.tidy fun hcl => ?_⟩
  rcases hd with hd | hd
  · rw [hf]
    exact hc (hd ▸ hcl)
  · exact (hd.2 hcl).elim

/-- A step that does nothing with files. -/
theorem Leaves.quiet (hf : r.conn.fileFd = c.fileFd)
    (hs : r.conn.state = c.state ∨ r.conn.state ≠ .closed) (has : files r.actions = []) :
    Leaves 0 c r := by
  constructor
  · rw [has, balance_nil, add_zero, heldFile_congr hf]
  · intro hc hcl
    rcases hs with hs | hs
    · rw [hf]
      exact hc (hs ▸ hcl)
    · exact (hs hcl).elim

theorem closeFile_fileFd (c : Connection) : c.closeFile.fileFd < 0 := by
  unfold closeFile
  dsimp only
  split <;> omega

/-- Closing the file closes the descriptor that the connection owns. -/
theorem closeFileActions_books (c : Connection) :
    balance c.heldFile (files c.closeFileActions) = some 0 := by
  unfold heldFile closeFileActions
  split
  · exact balance_singleton_closed _
  · rfl

theorem close_books (c : Connection) :
    balance c.heldFile (files c.closeActions) = some c.close.heldFile := by
  by_cases hc : c.state = .closed
  · rw [closeActions, close, if_pos hc, if_pos hc]
    rfl
  · have hclosed : c.close.heldFile = 0 := by
      rw [heldFile_eq_zero, close, if_neg hc]
      exact c.closeFile_fileFd
    have hquiet : files (if 0 ≤ c.fd then [.shutdown c.fd, .close c.fd] else []) = [] := by
      split <;> rfl
    have hall : files c.closeActions = files c.closeFileActions := by
      rw [closeActions, if_neg hc, files_append, files_append, hquiet]
      cases c.ssl with
      | none => rfl
      | some ssl => rfl
    rw [hall, hclosed]
    exact c.closeFileActions_books

theorem close_tidy (h : Tidy c) : Tidy c.close := by
  intro _
  by_cases hc : c.state = .closed
  · rw [close, if_pos hc]
    exact h hc
  · rw [close, if_neg hc]
    exact c.closeFile_fileFd

theorem hangUp_leaves {as : List Action} (hf : d.fileFd = c.fileFd) (hs : d.state = c.state)
    (has : files as = []) : Leaves 0 c (d.hangUp as) := by
  constructor
  · rw [hangUp, files_append, has, List.nil_append, add_zero, ← heldFile_congr hf]
    exact d.close_books
  · intro hc
    apply close_tidy
    intro hd
    rw [hf]
    exact hc (hs ▸ hd)

theorem finishFile_leaves {as : List Action} (hf : d.fileFd = c.fileFd) (has : files as = []) :
    Leaves 0 c (d.finishFile as) := by
  have hclosed : d.closeFile.heldFile = 0 := heldFile_eq_zero.2 d.closeFile_fileFd
  constructor
  · rw [finishFile, files_append, has, List.nil_append, ← heldFile_congr hf,
      d.closeFileActions_books]
    exact congrArg some (hclosed.symm.trans (add_zero _).symm)
  · exact fun _ => State.noConfusion

theorem sslWrite_files (ssl : Option Nat) (ret : SslResult Nat) (offered : Bytes) :
    files (sslWrite ssl ret offered).2 = [] := by
  unfold sslWrite
  cases ret with
  | done n =>
    dsimp only
    split <;> rfl
  | wantRead => rfl
  | wantWrite => rfl
  | error => rfl

theorem transmit_files (c : Connection) (ret : SysResult Nat) (sslRet : SslResult Nat)
    (offered : Bytes) : files (c.transmit ret sslRet offered).2 = [] := by
  unfold transmit
  cases c.ssl with
  | none => cases ret <;> rfl
  | some => exact sslWrite_files ..

theorem onSent_leaves {attempt : Sent × List Action} {next : Nat → Outcome}
    (ha : files attempt.2 = []) (hnext : ∀ n, Leaves 0 c (next n)) :
    Leaves 0 c (c.onSent attempt next) := by
  obtain ⟨sent, as⟩ := attempt
  cases sent with
  | bytes n => exact Leaves.after (.quiet (r := ⟨c, .none, as⟩) rfl (.inl rfl) ha) (hnext n)
  | wait want => exact .quiet rfl (.inl rfl) ha
  | fatal => exact hangUp_leaves rfl rfl ha

theorem sendChunk_leaves (io : Io) (c : Connection) : Leaves 0 c (sendChunk io c) := by
  apply onSent_leaves
  · exact sslWrite_files ..
  · intro n
    dsimp only
    split
    · exact .quiet rfl (.inl rfl) rfl
    · exact .quiet rfl (.inl rfl) rfl

theorem doSendBodyTls_leaves (io : Io) (c : Connection) : Leaves 0 c (doSendBodyTls io c) := by
  unfold doSendBodyTls
  split
  · split
    · exact finishFile_leaves rfl rfl
    · dsimp only
      split
      · exact hangUp_leaves rfl rfl rfl
      · have hload : Leaves 0 c ⟨c.loadChunk (c.readChunk io), .none,
            [.pread c.fileFd c.sendOffset (c.readChunk io)]⟩ := .quiet rfl (.inl rfl) rfl
        exact hload.after (sendChunk_leaves io _)
  · exact sendChunk_leaves io c

theorem doSendBodyPlain_leaves (io : Io) (c : Connection) :
    Leaves 0 c (doSendBodyPlain io c) := by
  unfold doSendBodyPlain
  split
  · exact finishFile_leaves rfl rfl
  · dsimp only
    split
    · exact hangUp_leaves rfl rfl rfl
    · cases io.sendfile with
      | done => exact finishFile_leaves rfl rfl
      | again n => exact .quiet rfl (.inl rfl) rfl
      | error n => exact hangUp_leaves rfl rfl rfl

theorem doSendBodyMemory_leaves (io : Io) (c : Connection) :
    Leaves 0 c (doSendBodyMemory io c) := by
  unfold doSendBodyMemory
  dsimp only
  split
  · exact .quiet rfl (.inr State.noConfusion) rfl
  · apply onSent_leaves
    · exact transmit_files ..
    · intro n
      split
      · exact .quiet rfl (.inr State.noConfusion) rfl
      · exact .quiet rfl (.inl rfl) rfl

theorem doSendBody_leaves (io : Io) (c : Connection) : Leaves 0 c (doSendBody io c) := by
  unfold doSendBody
  split
  · exact doSendBodyMemory_leaves io c
  · split
    · exact doSendBodyTls_leaves io c
    · exact doSendBodyPlain_leaves io c

theorem headersSent_leaves (io : Io) (c : Connection) : Leaves 0 c (headersSent io c) := by
  unfold headersSent
  split
  · exact .quiet rfl (.inr State.noConfusion) rfl
  · have hbody : Leaves 0 c ⟨{ c with state := .sendingBody }, .none, []⟩ :=
      .quiet rfl (.inr State.noConfusion) rfl
    exact hbody.after (doSendBody_leaves io _)

theorem doSendHeaders_leaves (io : Io) (c : Connection) : Leaves 0 c (doSendHeaders io c) := by
  apply onSent_leaves
  · exact transmit_files ..
  · intro n
    dsimp only
    split
    · exact (headersSent_leaves io _).base rfl (.inl rfl)
    · exact .quiet rfl (.inl rfl) rfl

theorem doProtoDetect_leaves (io : Io) (tls : Bool) (c : Connection) :
    Leaves 0 c (doProtoDetect io tls c) := by
  unfold doProtoDetect
  rcases io.peek with (_ | b) | _ | _
  · exact hangUp_leaves rfl rfl rfl
  · dsimp only
    split
    · split
      · exact .quiet rfl (.inr State.noConfusion) rfl
      · exact .quiet rfl (.inr State.noConfusion) rfl
    · exact .quiet rfl (.inr State.noConfusion) rfl
  · exact .quiet rfl (.inl rfl) rfl
  · exact hangUp_leaves rfl rfl rfl

theorem doTlsAccept_leaves (io : Io) (ret : SslResult Unit) (c : Connection) :
    Leaves 0 c (doTlsAccept io ret c) := by
  cases ret with
  | done => exact .quiet rfl (.inr State.noConfusion) rfl
  | wantRead => exact .quiet rfl (.inl rfl) rfl
  | wantWrite => exact .quiet rfl (.inl rfl) rfl
  | error => exact .quiet rfl (.inr State.noConfusion) rfl

theorem received_leaves (c : Connection) (data : Bytes) {as : List Action} (has : files as = []) :
    Leaves 0 c (c.received data as) := by
  unfold received
  dsimp only
  split
  · exact .quiet rfl (.inr State.noConfusion) has
  · split
    · exact hangUp_leaves rfl rfl has
    · exact .quiet rfl (.inl rfl) has

theorem ReadCalls.files {ssl : Option Nat} {as : List Action} (h : ReadCalls ssl as) :
    files as = [] := by
  cases h with
  | tls => rfl
  | tlsDone => rfl
  | plain => rfl

theorem doRead_leaves (io : Io) (c : Connection) : Leaves 0 c (doRead io c) := by
  obtain ⟨as, has, ⟨want, h⟩ | ⟨data, _, h⟩ | ⟨buf, _, h⟩⟩ := doRead_forms io c
  · rw [h]
    exact .quiet rfl (.inl rfl) has.files
  · rw [h]
    exact (received_leaves _ _ has.files).base rfl (.inl rfl)
  · rw [h]
    exact hangUp_leaves rfl rfl has.files

theorem doParse_leaves (io : Io) (c : Connection) : Leaves 0 c (doParse io c) := by
  unfold doParse
  dsimp only
  split
  · exact .quiet rfl (.inl rfl) rfl
  · exact .quiet rfl (.inr State.noConfusion) rfl

/-- A connection that waits for a request first gives up the file it may still have. -/
theorem reset_leaves (c : Connection) : Leaves 0 c ⟨c.reset, .none, c.closeFileActions⟩ := by
  have hclosed : c.reset.heldFile = 0 := heldFile_eq_zero.2 (reset_unbegun c).file
  constructor
  · rw [hclosed, c.closeFileActions_books]
    rfl
  · exact fun _ _ => (reset_unbegun c).file

theorem stateAction_leaves (io : Io) (tls : Bool) (c : Connection) :
    Leaves 0 c (c.stateAction io tls) := by
  unfold stateAction
  cases c.state with
  | closed => exact .quiet rfl (.inl rfl) rfl
  | protoDetect => exact doProtoDetect_leaves ..
  | tlsAccept => exact doTlsAccept_leaves ..
  | reading => exact doRead_leaves ..
  | parsing => exact doParse_leaves ..
  | sendingHeaders => exact doSendHeaders_leaves ..
  | sendingBody => exact doSendBody_leaves ..
  | keepAlive => exact (reset_leaves c).after (doRead_leaves ..)

theorem firstHalf_leaves (io : Io) (tls : Bool) (c : Connection) :
    Leaves 0 c (c.firstHalf io tls) := by
  have hs := stateAction_leaves io tls c
  unfold firstHalf injectSsl
  split
  · have haccept : Leaves 0 (c.stateAction io tls).conn
        ({ (c.stateAction io tls).conn with ssl := if tls then io.newSsl else none }.doTlsAccept io
          io.sslAcceptInline) := (doTlsAccept_leaves ..).base rfl (.inl rfl)
    exact hs.after haccept
  · exact hs

theorem inlineParse_leaves (io : Io) (h : Leaves lost c r) :
    Leaves lost c (inlineParse io r) := by
  unfold inlineParse
  split
  · exact h.after (doParse_leaves io r.conn)
  · exact h

/-- `prepare_response` takes over a descriptor from `open`. -/
def OpensFile (io : Io) (server : FileServer) (c : Connection) : Prop :=
  (c.request.method = .get ∨ c.request.method = .head) ∧
    ∃ info, server.openPath io.sys c.request.path = .ok info ∧ c.isFresh io info = false

/-- A descriptor that is not handed over is closed again. -/
theorem prepareResponse_leaves (h : ¬ OpensFile io server c) :
    Leaves 0 c ⟨(c.prepareResponse io server).1, .none, (c.prepareResponse io server).2⟩ := by
  by_cases hm : c.request.method = .get ∨ c.request.method = .head
  · cases ho : server.openPath io.sys c.request.path with
    | error err =>
      obtain ⟨status, body, _, hp⟩ := prepareResponse_refused hm ho
      rw [hp]
      exact .quiet rfl (.inl rfl) rfl
    | ok info =>
      have hfresh : c.blank.isFresh io info = true := by
        by_contra hs
        exact h ⟨hm, info, ho, Bool.eq_false_iff.2 hs⟩
      rw [prepareResponse_opened hm ho, prepareFile_fresh hfresh]
      constructor
      · change balance c.heldFile [.opened info.fd, .closed info.fd] = some (c.heldFile + 0)
        rw [balance, balance, if_pos (Multiset.mem_cons_self _ _), Multiset.erase_cons_head,
          add_zero]
        rfl
      · exact fun hc => hc
  · rcases prepareResponse_cases io server c with ⟨status, body, hp, _⟩ | ⟨info, _, _, hm'⟩
    · rw [hp]
      exact .quiet rfl (.inl rfl) rfl
    · exact (hm hm').elim

/-- A descriptor that is taken over replaces the one that the connection has had. -/
theorem prepareResponse_loses (hc : c.state ≠ .closed) (h : OpensFile io server c) :
    Leaves c.heldFile c
      ⟨(c.prepareResponse io server).1, .none, (c.prepareResponse io server).2⟩ := by
  obtain ⟨hm, info, hopen, hstale⟩ := h
  have hfd := (FileServer.openPath_info hopen).1
  have hblank : c.blank.isFresh io info = false := hstale
  rw [prepareResponse_opened hm hopen, prepareFile_stale hblank]
  have hheld : heldFile (prepareFile.serveFile io info c.blank).1 = {info.fd} := if_pos hfd
  constructor
  · rw [hheld]
    rfl
  · exact fun _ hcl => (hc hcl).elim

theorem answer_leaves (h : Leaves 0 c r)
    (hnot : ¬ (r.conn.answerDue ∧ OpensFile io server r.conn ∧ 0 ≤ r.conn.fileFd)) :
    Leaves 0 c (answer io server r) := by
  by_cases hd : r.conn.answerDue
  · have hprep : Leaves 0 r.conn ⟨(r.conn.prepareResponse io server).1, .none,
        (r.conn.prepareResponse io server).2⟩ := by
      by_cases ho : OpensFile io server r.conn
      · have hnone : r.conn.heldFile = 0 := by
          rw [heldFile_eq_zero]
          by_contra hf
          exact hnot ⟨hd, ho, Int.not_lt.1 hf⟩
        have hlive : r.conn.state ≠ .closed := by
          rcases hd.1 with hs | hs
          · rw [hs]
            exact State.noConfusion
          · rw [hs]
            exact State.noConfusion
        have hloses := prepareResponse_loses hlive ho
        rwa [hnone] at hloses
      · exact prepareResponse_leaves ho
    rw [answer_due io server hd]
    exact Leaves.after (h.after hprep) (doSendHeaders_leaves io _)
  · rw [answer_not_due io server hd]
    exact h

/-- The answer to a request loses the file that is left over from an earlier answer. -/
theorem answer_loses (h : Leaves 0 c r) (hd : r.conn.answerDue)
    (ho : OpensFile io server r.conn) : Leaves r.conn.heldFile c (answer io server r) := by
  have hlive : r.conn.state ≠ .closed := by
    rcases hd.1 with hs | hs
    · rw [hs]
      exact State.noConfusion
    · rw [hs]
      exact State.noConfusion
  have hall := h.append (prepareResponse_loses hlive ho)
  rw [add_zero] at hall
  rw [answer_due io server hd]
  exact hall.after (doSendHeaders_leaves io _)

theorem close_noFile (h : c.fileFd < 0) : c.close.fileFd < 0 := by
  unfold close
  split
  · exact h
  · exact c.closeFile_fileFd

theorem received_noFile (data : Bytes) (as : List Action) (h : c.fileFd < 0) :
    (c.received data as).conn.fileFd < 0 := by
  unfold received
  dsimp only
  split
  · exact h
  · split
    · exact close_noFile h
    · exact h

theorem doRead_noFile (io : Io) (hnone : c.fileFd < 0) : (c.doRead io).conn.fileFd < 0 := by
  have ht : (c.touch io.now).fileFd < 0 := hnone
  obtain ⟨as, _, ⟨want, h⟩ | ⟨data, _, h⟩ | ⟨buf, _, h⟩⟩ := doRead_forms io c
  · rw [h]
    exact ht
  · rw [h]
    exact received_noFile _ _ ht
  · rw [h]
    exact close_noFile ht

theorem doProtoDetect_noFile (io : Io) (tls : Bool) (h : c.fileFd < 0) :
    (c.doProtoDetect io tls).conn.fileFd < 0 := by
  unfold doProtoDetect
  rcases io.peek with (_ | b) | _ | _
  · exact close_noFile h
  · dsimp only
    split
    · split
      · exact h
      · exact h
    · exact h
  · exact h
  · exact close_noFile h

theorem doTlsAccept_noFile (io : Io) (ret : SslResult Unit) (h : c.fileFd < 0) :
    (c.doTlsAccept io ret).conn.fileFd < 0 := by
  cases ret with
  | done => exact h
  | wantRead => exact h
  | wantWrite => exact h
  | error => exact h

theorem doParse_fileFd (io : Io) (c : Connection) : (c.doParse io).conn.fileFd = c.fileFd := by
  unfold doParse
  dsimp only
  split
  · rfl
  · rfl

theorem inlineParse_fileFd (io : Io) (r : Outcome) :
    (inlineParse io r).conn.fileFd = r.conn.fileFd := by
  unfold inlineParse
  split
  · exact doParse_fileFd io r.conn
  · rfl

/-- Before a request has been parsed there is no file. -/
theorem firstHalf_noFile (io : Io) (tls : Bool) (ho : Opens c)
    (hs : c.state.isEarly = true ∨ c.state = .keepAlive) :
    (c.firstHalf io tls).conn.fileFd < 0 := by
  have hact : (c.stateAction io tls).conn.fileFd < 0 := by
    unfold stateAction
    rcases hs with hs | hs
    · have hfile := (ho hs).file
      cases hc : c.state with
      | protoDetect => exact doProtoDetect_noFile io tls hfile
      | tlsAccept => exact doTlsAccept_noFile io _ hfile
      | reading => exact doRead_noFile io hfile
      | closed => exact hfile
      | parsing =>
        rw [hc] at hs
        cases hs
      | sendingHeaders =>
        rw [hc] at hs
        cases hs
      | sendingBody =>
        rw [hc] at hs
        cases hs
      | keepAlive =>
        rw [hc] at hs
        cases hs
    · rw [hs]
      exact doRead_noFile io (reset_unbegun c).file
  unfold firstHalf injectSsl
  split
  · exact doTlsAccept_noFile io _ hact
  · exact hact

/-- A connection that is left in `PARSING` with a file opens one again. -/
def Reopens (io : Io) (server : FileServer) (c : Connection) : Prop :=
  c.state = .parsing ∧ 0 ≤ c.fileFd ∧ (HttpRequest.parse c.readBuf).1 = true ∧
    OpensFile io server { c with request := (HttpRequest.parse c.readBuf).2 }

/-- A call of `process_connection` keeps account of its files. -/
theorem advance_leaves (io : Io) (tls : Bool) (server : FileServer) (ho : Opens c)
    (hnot : ¬ Reopens io server c) : Leaves 0 c (c.advance io tls server) := by
  apply answer_leaves (inlineParse_leaves io (firstHalf_leaves io tls c))
  rintro ⟨hd, hopen, hfd⟩
  rcases state_of_due io tls hd with hp | hearly
  · obtain ⟨hacc, hmid⟩ := inlineParse_due io tls hp hd
    rw [hmid] at hopen hfd
    exact hnot ⟨hp, hfd, hacc, hopen⟩
  · have hnone := firstHalf_noFile io tls ho hearly
    rw [inlineParse_fileFd] at hfd
    omega

theorem advance_loses (io : Io) (tls : Bool) (server : FileServer) (h : Reopens io server c) :
    Leaves c.heldFile c (c.advance io tls server) := by
  obtain ⟨hc, _, hacc, hopen⟩ := h
  have hmid : (inlineParse io (c.firstHalf io tls)).conn =
      { c with request := (HttpRequest.parse c.readBuf).2 } := by
    rw [inlineParse_parsing io tls hc, if_pos hacc]
  have hall := inlineParse_leaves io (firstHalf_leaves io tls c)
  have hheld : (inlineParse io (c.firstHalf io tls)).conn.heldFile = c.heldFile := by
    rw [hmid]
    rfl
  unfold advance
  rw [← hheld]
  apply answer_loses hall
  · rw [hmid]
    refine ⟨.inl hc, ?_⟩
    rcases hopen.1 with hm | hm
    · rw [hm]
      exact Method.noConfusion
    · rw [hm]
      exact Method.noConfusion
  · rw [hmid]
    exact hopen

end Connection

end FileWebServer
