import FileWebServer.Core.Histories
import FileWebServer.Lib.ErrorQueue

namespace FileWebServer
open ErrorQueue (Apart Owned Quiet)
set_option autoImplicit true

/-- What an action has to do with the error queue of the thread. `SSL_read` and `SSL_write` leave
the handshake as it is, and leave an entry when they fail for good. -/
def Action.sslCall : Action → Option (ErrorQueue.Call (Option Nat))
  | .errClearError => some .clear
  | .sslAccept ssl (.done _) => some (.finish ssl)
  | .sslAccept ssl ret => some (.call ssl (ret = .error))
  | .sslRead ssl ret => some (.call (some ssl) (ret = .error))
  | .sslWrite ssl _ ret => some (.call ssl (ret = .error))
  | .sslShutdown ssl => some (.shutdown (some ssl))
  | .sslFree ssl => some (.free (some ssl))
  | .sslGetError => some .ask
  | _ => none

def sslCalls (actions : List Action) : List (ErrorQueue.Call (Option Nat)) :=
  actions.filterMap Action.sslCall

@[simp] theorem sslCalls_append (as bs : List Action) :
    sslCalls (as ++ bs) = sslCalls as ++ sslCalls bs := List.filterMap_append

/-- Whatever is in the queue, the actions ask about nothing that is not their own. -/
def Careful (actions : List Action) : Prop := ∀ q, Apart q (sslCalls actions)

namespace Connection
variable {c : Connection} {r : Outcome} {as bs : List Action}
  {q : ErrorQueue.State (Option Nat)}

theorem careful_append (ha : Careful as) (hb : Careful bs) : Careful (as ++ bs) := by
  intro q
  rw [sslCalls_append]
  exact ErrorQueue.apart_append.2 ⟨ha q, hb _⟩

/-- Actions that do not ask at all. -/
theorem careful_of_notMem (h : Action.sslGetError ∉ as) : Careful as := by
  intro q
  apply ErrorQueue.apart_of_notMem
  intro hm
  obtain ⟨a, ha, hask⟩ := List.mem_filterMap.1 hm
  have he : a = .sslGetError := by
    cases a with
    | sslGetError => rfl
    | sslAccept ssl ret => cases ret <;> cases hask
    | _ => cases hask
  exact h (he ▸ ha)

theorem closeFileActions_careful (c : Connection) : Careful c.closeFileActions := by
  apply careful_of_notMem
  unfold closeFileActions
  split <;> simp

theorem closeActions_careful (c : Connection) : Careful c.closeActions := by
  unfold closeActions
  split
  · exact fun _ => trivial
  · apply careful_append (careful_append _ _) c.closeFileActions_careful
    · apply careful_of_notMem
      split <;> simp
    · apply careful_of_notMem
      cases c.ssl with
      | none => simp
      | some ssl => simp

theorem hangUp_careful (c : Connection) (h : Careful as) : Careful (c.hangUp as).actions :=
  careful_append h c.closeActions_careful

theorem sslWrite_careful (ssl : Option Nat) (ret : SslResult Nat) (offered : Bytes) :
    Careful (sslWrite ssl ret offered).2 := by
  have hask (ret : SslResult Nat) :
      Careful [.errClearError, .sslWrite ssl offered ret, .sslGetError] :=
    fun q => ErrorQueue.apart_clear q ssl _
  unfold sslWrite
  cases ret with
  | done n =>
    dsimp only
    split
    · exact hask .error
    · apply careful_of_notMem
      simp
  | wantRead => exact hask .wantRead
  | wantWrite => exact hask .wantWrite
  | error => exact hask .error

theorem transmit_careful (c : Connection) (ret : SysResult Nat) (sslRet : SslResult Nat)
    (offered : Bytes) : Careful (c.transmit ret sslRet offered).2 := by
  unfold transmit
  cases c.ssl with
  | some ssl => exact sslWrite_careful (some ssl) sslRet offered
  | none =>
    apply careful_of_notMem
    unfold plainWrite
    cases ret <;> simp

theorem onSent_careful {attempt : Sent × List Action} {next : Nat → Outcome} (c : Connection)
    (h : Careful attempt.2) (hnext : ∀ n, Careful (next n).actions) :
    Careful (c.onSent attempt next).actions := by
  obtain ⟨sent, actions⟩ := attempt
  cases sent with
  | bytes n => exact careful_append h (hnext n)
  | wait want => exact h
  | fatal => exact c.hangUp_careful h

theorem finishFile_careful (c : Connection) (h : Careful as) :
    Careful (c.finishFile as).actions := careful_append h c.closeFileActions_careful

theorem received_careful (c : Connection) (data : Bytes) (h : Careful as) :
    Careful (c.received data as).actions := by
  unfold received
  dsimp only
  split
  · exact h
  · split
    · exact hangUp_careful _ h
    · exact h

theorem ReadCalls.careful {ssl : Option Nat} (h : ReadCalls ssl as) : Careful as := by
  cases h with
  | tls ssl ret => exact fun q => ErrorQueue.apart_clear q (some ssl) _
  | tlsDone ssl data =>
    apply careful_of_notMem
    simp
  | plain fd data =>
    apply careful_of_notMem
    simp

theorem doRead_careful (io : Io) (c : Connection) : Careful (c.doRead io).actions := by
  obtain ⟨as, has, ⟨want, h⟩ | ⟨data, _, h⟩ | ⟨buf, _, h⟩⟩ := doRead_forms io c
  · rw [h]
    exact has.careful
  · rw [h]
    exact received_careful _ _ has.careful
  · rw [h]
    exact hangUp_careful _ has.careful

theorem sendChunk_careful (io : Io) (c : Connection) : Careful (c.sendChunk io).actions := by
  apply onSent_careful c (sslWrite_careful _ _ _)
  intro n
  dsimp only
  split <;> exact fun _ => trivial

theorem doSendBody_careful (io : Io) (c : Connection) : Careful (c.doSendBody io).actions := by
  have hone (a : Action) (ha : a ≠ .sslGetError) : Careful [a] :=
    careful_of_notMem fun hm => ha (List.mem_singleton.1 hm).symm
  unfold doSendBody
  split
  · unfold doSendBodyMemory
    dsimp only
    split
    · exact fun _ => trivial
    · apply onSent_careful c (c.transmit_careful _ _ _)
      intro n
      split <;> exact fun _ => trivial
  · split
    · unfold doSendBodyTls
      split
      · split
        · exact c.finishFile_careful fun _ => trivial
        · dsimp only
          split
          · exact hangUp_careful _ (hone _ Action.noConfusion)
          · exact careful_append (hone _ Action.noConfusion) (sendChunk_careful io _)
      · exact sendChunk_careful io c
    · unfold doSendBodyPlain
      split
      · exact c.finishFile_careful fun _ => trivial
      · dsimp only
        split
        · exact hangUp_careful _ (hone _ Action.noConfusion)
        · cases io.sendfile with
          | done => exact finishFile_careful _ (hone _ Action.noConfusion)
          | again n => exact hone _ Action.noConfusion
          | error n => exact hangUp_careful _ (hone _ Action.noConfusion)

theorem doSendHeaders_careful (io : Io) (c : Connection) :
    Careful (c.doSendHeaders io).actions := by
  apply onSent_careful c (c.transmit_careful _ _ _)
  intro n
  dsimp only
  split
  · unfold headersSent
    split
    · exact fun _ => trivial
    · exact doSendBody_careful io _
  · exact fun _ => trivial

theorem doParse_careful (io : Io) (c : Connection) : Careful (c.doParse io).actions := by
  apply careful_of_notMem
  unfold doParse
  dsimp only
  split <;> simp

theorem doProtoDetect_careful (io : Io) (tls : Bool) (c : Connection) :
    Careful (c.doProtoDetect io tls).actions := by
  have hpeek : Careful [.recvPeek c.fd] := by
    apply careful_of_notMem
    simp
  unfold doProtoDetect
  rcases io.peek with (_ | b) | _ | _
  · exact c.hangUp_careful hpeek
  · dsimp only
    split
    · split
      · exact hpeek
      · apply careful_of_notMem
        simp
    · exact hpeek
  · exact hpeek
  · exact c.hangUp_careful hpeek

theorem prepareResponse_careful (io : Io) (server : FileServer) (c : Connection) :
    Careful (c.prepareResponse io server).2 := by
  apply careful_of_notMem
  rcases prepareResponse_cases io server c with ⟨status, body, hp, _⟩ | ⟨info, hp, _⟩
  · rw [hp]
    simp [preparePage]
  · rw [hp]
    obtain ⟨resp, _, hf | ⟨start, stop, hf⟩⟩ := prepareFile_cases io info c.blank
    · rw [hf]
      simp
    · rw [hf]
      simp

/-- A handshake that succeeds does not ask; one that does not, asks without having emptied the
queue. -/
theorem doTlsAccept_apart (io : Io) (ret : SslResult Unit)
    (c : Connection) :
    Apart q (sslCalls (c.doTlsAccept io ret).actions) ↔ (ret ≠ .done () → Owned q c.ssl) := by
  have hfails (fatal : Bool) (h : sslCalls (c.doTlsAccept io ret).actions =
      [.call c.ssl fatal, .ask]) (hret : ret ≠ .done ()) :
      Apart q (sslCalls (c.doTlsAccept io ret).actions) ↔ (ret ≠ .done () → Owned q c.ssl) := by
    rw [h, ErrorQueue.apart_call]
    exact ⟨fun ho _ => ho, fun ho => ho hret⟩
  cases ret with
  | done u =>
    refine iff_of_true ?_ fun h => (h rfl).elim
    exact ErrorQueue.apart_of_notMem (by simp [doTlsAccept, sslCalls, Action.sslCall])
  | wantRead => exact hfails false rfl nofun
  | wantWrite => exact hfails false rfl nofun
  | error => exact hfails true rfl nofun

/-- The calls of `SSL_accept` that handling an event begins with, each with its SSL object. -/
def attempts (io : Io) (tls : Bool) (c : Connection) : List (Option Nat × SslResult Unit) :=
  let injected := (if tls then io.newSsl else none, io.sslAcceptInline)
  match c.state with
  | .tlsAccept =>
    (c.ssl, io.sslAccept) ::
      if c.ssl = none ∧ (io.sslAccept = .wantRead ∨ io.sslAccept = .wantWrite) then [injected]
      else []
  | .protoDetect =>
    if io.peek = .done (some 0x16) ∧ tls ∧ c.ssl = none then [injected] else []
  | _ => []

/-- No attempt at a handshake that does not succeed comes after another connection has left an
entry in the queue. -/
def Undisturbed (io : Io) (tls : Bool) (calls : List (ErrorQueue.Call (Option Nat)))
    (c : Connection) : Prop :=
  ∀ a ∈ c.attempts io tls, a.2 ≠ .done () → Quiet calls a.1

theorem doRead_state (io : Io) (hc : c.state ≠ .closed) (ht : c.state ≠ .tlsAccept) :
    (c.doRead io).conn.state ≠ .tlsAccept := by
  rcases doRead_ends io hc with ⟨_, h⟩ | ⟨hf, _⟩
  · rw [h.closed]
    exact State.noConfusion
  · obtain ⟨buf, complete, state, want, as, _, hstate, h⟩ := doRead_goes_on io hf
    rw [h]
    rcases hstate with rfl | rfl
    · exact ht
    · exact State.noConfusion

theorem state_of_late (h : c.state.isEarly = false) : c.state ≠ .tlsAccept := by
  intro ht
  rw [ht] at h
  cases h

/-- Only a connection that shakes hands, or is about to, has to do with `SSL_accept`. -/
theorem stateAction_calm (io : Io) (tls : Bool) (hp : c.state ≠ .protoDetect)
    (ht : c.state ≠ .tlsAccept) :
    Careful (c.stateAction io tls).actions ∧ (c.stateAction io tls).conn.state ≠ .tlsAccept := by
  unfold stateAction
  cases hs : c.state with
  | closed => exact ⟨fun _ => trivial, ht⟩
  | protoDetect => exact (hp hs).elim
  | tlsAccept => exact (ht hs).elim
  | reading => exact ⟨doRead_careful io c, doRead_state io (by simp [hs]) ht⟩
  | parsing =>
    exact ⟨doParse_careful io c, state_of_late (doParse_late io (by rw [hs]; rfl))⟩
  | sendingHeaders =>
    refine ⟨doSendHeaders_careful io c, state_of_late ?_⟩
    exact (doSendHeaders_leads io c).late (by rw [hs]; rfl)
  | sendingBody =>
    refine ⟨doSendBody_careful io c, state_of_late ?_⟩
    exact (doSendBody_leads io c).late (by rw [hs]; rfl)
  | keepAlive =>
    have hreset : c.reset.state = .keepAlive := hs
    refine ⟨careful_append c.closeFileActions_careful (doRead_careful io _), ?_⟩
    exact doRead_state io (by simp [hreset]) (by simp [hreset])

theorem injectSsl_none (io : Io) (tls : Bool)
    (h : r.conn.state = .tlsAccept → r.conn.ssl ≠ none) : injectSsl io tls r = r := by
  apply if_neg
  rintro ⟨ht, htls⟩
  apply htls
  exact Option.isSome_iff_ne_none.2 (h ht)

theorem injectSsl_some (io : Io) (tls : Bool) (ht : r.conn.state = .tlsAccept)
    (hs : r.conn.ssl = none) :
    Apart q (sslCalls (injectSsl io tls r).actions) ↔ Apart q (sslCalls r.actions) ∧
      (io.sslAcceptInline ≠ .done () →
        Owned ((sslCalls r.actions).foldl ErrorQueue.step q) (if tls then io.newSsl else none)) := by
  have hcond : r.conn.state = .tlsAccept ∧ ¬ r.conn.isTls := ⟨ht, by simp [isTls, hs]⟩
  rw [injectSsl, if_pos hcond, Outcome.after_actions, sslCalls_append, ErrorQueue.apart_append,
    doTlsAccept_apart]

theorem attempts_waiting (io : Io) (tls : Bool) (ht : c.state = .tlsAccept)
    (h : c.ssl = none ∧ (io.sslAccept = .wantRead ∨ io.sslAccept = .wantWrite)) :
    c.attempts io tls =
      [(c.ssl, io.sslAccept), (if tls then io.newSsl else none, io.sslAcceptInline)] := by
  simp only [attempts, ht]
  rw [if_pos h]

theorem attempts_shaking (io : Io) (tls : Bool) (ht : c.state = .tlsAccept)
    (h : ¬ (c.ssl = none ∧ (io.sslAccept = .wantRead ∨ io.sslAccept = .wantWrite))) :
    c.attempts io tls = [(c.ssl, io.sslAccept)] := by
  simp only [attempts, ht]
  rw [if_neg h]

/-- A handshake that waits leaves the queue as it was. -/
theorem waiting_apart {want : Want} (io : Io) (tls : Bool) (ht : c.state = .tlsAccept)
    (hret : io.sslAccept = .wantRead ∨ io.sslAccept = .wantWrite)
    (hr : c.doTlsAccept io io.sslAccept =
      ⟨c, want, [.sslAccept c.ssl io.sslAccept, .sslGetError]⟩) :
    Apart q (sslCalls (injectSsl io tls (c.doTlsAccept io io.sslAccept)).actions) ↔
      ∀ a ∈ c.attempts io tls, a.2 ≠ .done () → Owned q a.1 := by
  have hone := c.doTlsAccept_apart (q := q) io io.sslAccept
  have hcalls : sslCalls (c.doTlsAccept io io.sslAccept).actions = [.call c.ssl false, .ask] := by
    rw [hr]
    rcases hret with h | h
    · rw [h]
      rfl
    · rw [h]
      rfl
  by_cases hs : c.ssl = none
  · rw [injectSsl_some io tls (by rw [hr]; exact ht) (by rw [hr]; exact hs), hone, hcalls,
      attempts_waiting io tls ht ⟨hs, hret⟩, List.forall_mem_cons, List.forall_mem_singleton]
    exact Iff.rfl
  · rw [injectSsl_none io tls (by rw [hr]; exact fun _ => hs), hone,
      attempts_shaking io tls ht fun h => hs h.1, List.forall_mem_singleton]

theorem shaking_apart (io : Io) (tls : Bool) (ht : c.state = .tlsAccept) :
    Apart q (sslCalls (injectSsl io tls (c.doTlsAccept io io.sslAccept)).actions) ↔
      ∀ a ∈ c.attempts io tls, a.2 ≠ .done () → Owned q a.1 := by
  have hover (hw : ¬ (io.sslAccept = .wantRead ∨ io.sslAccept = .wantWrite))
      (hstate : (c.doTlsAccept io io.sslAccept).conn.state ≠ .tlsAccept) :
      Apart q (sslCalls (injectSsl io tls (c.doTlsAccept io io.sslAccept)).actions) ↔
        ∀ a ∈ c.attempts io tls, a.2 ≠ .done () → Owned q a.1 := by
    rw [injectSsl_none io tls fun h => (hstate h).elim, doTlsAccept_apart,
      attempts_shaking io tls ht fun h => hw h.2, List.forall_mem_singleton]
  cases hret : io.sslAccept with
  | done u => exact hret ▸ hover (by simp [hret]) (by rw [hret]; exact State.noConfusion)
  | wantRead =>
    exact hret ▸ waiting_apart io tls ht (.inl hret) (by rw [hret]; rfl)
  | wantWrite =>
    exact hret ▸ waiting_apart io tls ht (.inr hret) (by rw [hret]; rfl)
  | error => exact hret ▸ hover (by simp [hret]) (by rw [hret]; exact State.noConfusion)

theorem doProtoDetect_state (io : Io) (tls : Bool) (hp : c.state = .protoDetect)
    (h : ¬ (io.peek = .done (some 0x16) ∧ tls)) :
    (c.doProtoDetect io tls).conn.state ≠ .tlsAccept := by
  have hclosed : (c.hangUp [.recvPeek c.fd]).conn.state ≠ .tlsAccept := by
    change c.close.state ≠ .tlsAccept
    rw [close_state]
    exact State.noConfusion
  unfold doProtoDetect
  rcases hpeek : io.peek with (_ | b) | _ | _
  · exact hclosed
  · dsimp only
    split
    · next hb =>
      have htls : ¬ tls = true := fun ht => h ⟨by rw [hpeek, hb], ht⟩
      rw [if_neg htls]
      exact State.noConfusion
    · exact State.noConfusion
  · rw [hp]
    exact State.noConfusion
  · exact hclosed

/-- A connection whose first byte is that of a TLS record gets its SSL object at once. -/
theorem detecting_apart (io : Io) (tls : Bool) (hp : c.state = .protoDetect) :
    Apart q (sslCalls (injectSsl io tls (c.doProtoDetect io tls)).actions) ↔
      ∀ a ∈ c.attempts io tls, a.2 ≠ .done () → Owned q a.1 := by
  by_cases hpeek : io.peek = .done (some 0x16) ∧ tls
  · have hdetect : c.doProtoDetect io tls =
        ⟨{ c with state := .tlsAccept }, .none, [.recvPeek c.fd]⟩ := by
      simp [doProtoDetect, hpeek.1, hpeek.2]
    rw [hdetect]
    by_cases hs : c.ssl = none
    · have hatt : c.attempts io tls = [(if tls then io.newSsl else none, io.sslAcceptInline)] := by
        simp only [attempts, hp]
        rw [if_pos ⟨hpeek.1, hpeek.2, hs⟩]
      rw [injectSsl_some io tls rfl hs, hatt, List.forall_mem_singleton]
      exact and_iff_right trivial
    · have hatt : c.attempts io tls = [] := by simp [attempts, hp, hs]
      rw [injectSsl_none io tls fun _ => hs, hatt]
      exact iff_of_true trivial (by simp)
  · have hatt : c.attempts io tls = [] := by
      simp only [attempts, hp]
      exact if_neg fun h => hpeek ⟨h.1, h.2.1⟩
    have hstate := doProtoDetect_state io tls hp hpeek
    rw [injectSsl_none io tls fun h => (hstate h).elim, hatt]
    exact iff_of_true (doProtoDetect_careful io tls c q) (by simp)

/-- What handling an event begins with is apart from other connections exactly if its attempts at
a handshake are. -/
theorem firstHalf_apart (io : Io) (tls : Bool) (c : Connection) :
    Apart q (sslCalls (c.firstHalf io tls).actions) ↔
      ∀ a ∈ c.attempts io tls, a.2 ≠ .done () → Owned q a.1 := by
  unfold firstHalf
  by_cases ht : c.state = .tlsAccept
  · have hact : c.stateAction io tls = c.doTlsAccept io io.sslAccept := by
      rw [stateAction, ht]
    rw [hact]
    exact shaking_apart io tls ht
  · by_cases hp : c.state = .protoDetect
    · have hact : c.stateAction io tls = c.doProtoDetect io tls := by
        rw [stateAction, hp]
      rw [hact]
      exact detecting_apart io tls hp
    · obtain ⟨hcalm, hstate⟩ := stateAction_calm io tls hp ht
      rw [injectSsl_none _ _ fun h => (hstate h).elim]
      refine iff_of_true (hcalm q) ?_
      intro a ha
      cases hs : c.state with
      | tlsAccept => exact (ht hs).elim
      | protoDetect => exact (hp hs).elim
      | _ => simp [attempts, hs] at ha

theorem inlineParse_apart (io : Io) (r : Outcome) :
    Apart q (sslCalls (inlineParse io r).actions) ↔ Apart q (sslCalls r.actions) := by
  unfold inlineParse
  split
  · rw [Outcome.after_actions, sslCalls_append, ErrorQueue.apart_append]
    exact and_iff_left (doParse_careful io _ _)
  · exact Iff.rfl

theorem answer_apart (io : Io) (server : FileServer) (r : Outcome) :
    Apart q (sslCalls (answer io server r).actions) ↔ Apart q (sslCalls r.actions) := by
  by_cases hd : r.conn.answerDue
  · rw [answer_due io server hd, Outcome.after_actions, List.append_assoc, sslCalls_append,
      ErrorQueue.apart_append]
    refine and_iff_left (careful_append ?_ ?_ _)
    · exact prepareResponse_careful io server r.conn
    · exact doSendHeaders_careful io _
  · rw [answer_not_due io server hd]

/-- Everything after the handshake empties the queue before it asks. -/
theorem advance_apart (io : Io) (tls : Bool) (server : FileServer) (c : Connection) :
    Apart q (sslCalls (c.advance io tls server).actions) ↔
      ∀ a ∈ c.attempts io tls, a.2 ≠ .done () → Owned q a.1 := by
  unfold advance secondHalf
  rw [answer_apart, inlineParse_apart, firstHalf_apart]

end Connection

namespace EventLoop
open Connection
variable {s s' : EventLoop}

/-- Whenever `SSL_get_error` has been called, the error queue held no entry that another
connection had left. -/
def HandshakesApart (s : EventLoop) : Prop := Apart {} (sslCalls s.trace)

instance (s : EventLoop) : Decidable s.HandshakesApart :=
  inferInstanceAs (Decidable (Apart {} (sslCalls s.trace)))

/-- An input comes with no attempt at a handshake that does not succeed, or with one that no other
connection has disturbed. -/
def ShakesUndisturbed (s : EventLoop) : Input → Prop
  | .event ⟨false, false, .conn i⟩ io =>
    (s.conn i).Undisturbed io s.tlsCtx (sslCalls s.trace)
  | _ => True

/-- Actions that are careful leave the handshakes apart. -/
theorem HandshakesApart.log {as : List Action} (h : s.HandshakesApart) (ha : Careful as)
    (ht : s'.trace = s.trace ++ as) : s'.HandshakesApart := by
  unfold HandshakesApart
  rw [ht, sslCalls_append]
  exact ErrorQueue.apart_append.2 ⟨h, ha _⟩

theorem releaseActions_careful (i : Nat) : Careful (releaseActions i) := by
  apply careful_of_notMem
  unfold releaseActions
  split <;> simp

theorem HandshakesApart.destroy (h : s.HandshakesApart) (i : Nat) :
    (s.destroyConnection i).HandshakesApart := by
  apply h.log (careful_append (s.conn i).closeActions_careful (releaseActions_careful i))
  rw [destroyConnection_trace, List.append_assoc]

theorem HandshakesApart.create {fd now : Int} (h : s.HandshakesApart)
    (hc : s.createConnection fd now = (s', some i)) : s'.HandshakesApart := by
  obtain ⟨pool, _, rfl⟩ := createConnection_some hc
  have hquiet : Careful [.acquire i] := by
    apply careful_of_notMem
    simp
  exact h.log hquiet rfl

theorem processConnection_apart (h : s.HandshakesApart) (io : Io) (i : Nat) :
    (s.processConnection io i).HandshakesApart ↔
      (s.conn i).Undisturbed io s.tlsCtx (sslCalls s.trace) := by
  obtain ⟨_, released, hreleased, htrace⟩ := processConnection_outcome s io i
  have hquiet : Careful released := by
    rcases hreleased with rfl | rfl
    · exact fun _ => trivial
    · exact releaseActions_careful i
  unfold HandshakesApart Undisturbed
  rw [htrace, sslCalls_append, sslCalls_append, ErrorQueue.apart_append, ErrorQueue.apart_append,
    and_iff_left (hquiet _), advance_apart]
  simp only [ErrorQueue.owned_iff_quiet]
  exact and_iff_right h

theorem step_apart (h : s.HandshakesApart) (input : Input) :
    (s.step input).HandshakesApart ↔ s.ShakesUndisturbed input := by
  cases input with
  | kevent => exact iff_of_true h trivial
  | event ev io =>
    obtain ⟨error, eof, udata⟩ := ev
    have hone (fd : Int) (u : EventLoop) (hu : u.HandshakesApart) :
        (u.log [.accept fd]).HandshakesApart ∧ (u.log [.close fd]).HandshakesApart := by
      constructor
      · exact hu.log (careful_of_notMem (by simp)) rfl
      · exact hu.log (careful_of_notMem (by simp)) rfl
    have hends (hend : error = true ∨ eof = true) :
        (s.dispatch io ⟨error, eof, udata⟩).HandshakesApart := by
      rw [dispatch, if_pos hend]
      cases udata with
      | conn i => exact h.destroy i
      | _ => exact h
    change (s.dispatch io ⟨error, eof, udata⟩).HandshakesApart ↔ _
    cases error with
    | true => exact iff_of_true (hends (.inl rfl)) trivial
    | false =>
      cases eof with
      | true => exact iff_of_true (hends (.inr rfl)) trivial
      | false =>
        rw [dispatch, if_neg (by simp)]
        cases udata with
        | null => exact iff_of_true h trivial
        | listener =>
          refine iff_of_true (acceptLoop_keeps _ ?_ ?_ h) trivial
          · exact fun u fd hu => hone fd u hu
          · exact fun u u' i fd now hu hc => hu.create hc
        | timer =>
          exact iff_of_true (timerLoop_keeps _ _ (fun u i hu => hu.destroy i) h) trivial
        | conn i => exact processConnection_apart h io i

/-- Two clients begin a handshake, the first one hangs up in the middle of it, and the second one
goes on. -/
def abortedHandshake : List Input :=
  round [(⟨false, false, .listener⟩, { accepts := [(5, 0), (6, 0)] })] ++
  round [(⟨false, false, .conn 0⟩, { peek := .done (some 0x16), newSsl := some 100 }),
    (⟨false, false, .conn 1⟩, { peek := .done (some 0x16), newSsl := some 200 })] ++
  round [(⟨false, true, .conn 0⟩, {}), (⟨false, false, .conn 1⟩, { sslAccept := .error })]

end EventLoop

end FileWebServer
