import FileWebServer.Core.HalfClose
import FileWebServer.Core.Handshakes
import FileWebServer.Core.Transport

namespace FileWebServer
set_option autoImplicit true

namespace Connection
variable {c : Connection} {io : Io} {r : Outcome} {tls : Bool} {server : FileServer}

/-- The connection enters `TLS_ACCEPT` in this call, or is still there. -/
def ShakesHands (io : Io) (tls : Bool) (c : Connection) : Prop :=
  (c.stateAction io tls).conn.state = .tlsAccept

/-- The call asks for an SSL object, and gets one. -/
def GetsObject (io : Io) (tls : Bool) (c : Connection) : Prop :=
  ShakesHands io tls c → (c.stateAction io tls).conn.ssl = none → tls = true ∧ io.newSsl ≠ none

theorem inlineParse_extends (io : Io) (r : Outcome) :
    ∃ as, (inlineParse io r).actions = r.actions ++ as := by
  unfold inlineParse
  split
  · exact ⟨_, rfl⟩
  · exact ⟨[], (List.append_nil _).symm⟩

/-- What the first half of a call has done stays done. -/
theorem secondHalf_extends (io : Io) (server : FileServer) (r : Outcome) :
    ∃ as, (secondHalf io server r).actions = r.actions ++ as := by
  obtain ⟨as, has⟩ := inlineParse_extends io r
  unfold secondHalf
  by_cases hd : (inlineParse io r).conn.answerDue
  · rw [answer_due io server hd, Outcome.after_actions, has, List.append_assoc, List.append_assoc]
    exact ⟨_, rfl⟩
  · rw [answer_not_due io server hd]
    exact ⟨as, has⟩

/-- A connection is in `TLS_ACCEPT` after a call only if the switch has left it there. -/
theorem shakesHands_of_advance (h : (c.advance io tls server).conn.state = .tlsAccept) :
    ShakesHands io tls c := by
  by_contra hno
  have hfirst : c.firstHalf io tls = c.stateAction io tls := if_neg fun ht => hno ht.1
  have hparse : (inlineParse io (c.stateAction io tls)).conn.state ≠ .tlsAccept := by
    unfold inlineParse
    split
    · next hp => exact state_of_late (doParse_late io (by rw [hp.1]; rfl))
    · exact hno
  rw [advance, secondHalf, hfirst] at h
  by_cases hd : (inlineParse io (c.stateAction io tls)).conn.answerDue
  · rw [answer_due io server hd] at h
    have hstate := (prepareResponse_prepared io server
      (inlineParse io (c.stateAction io tls)).conn).state
    rcases doSendHeaders_leads io
      ((inlineParse io (c.stateAction io tls)).conn.prepareResponse io server).1 with hl | hl | hl | hl
    · exact hparse ((hl.trans hstate).symm.trans h)
    · exact absurd (hl.symm.trans h) State.noConfusion
    · exact absurd (hl.symm.trans h) State.noConfusion
    · exact absurd (hl.symm.trans h) State.noConfusion
  · rw [answer_not_due io server hd] at h
    exact hparse h

/-- A connection that has no SSL object yet enters `TLS_ACCEPT` from `PROTO_DETECT`. -/
theorem stateAction_of_shakesHands (h : ShakesHands io tls c) (ht : c.state ≠ .tlsAccept) :
    c.stateAction io tls = ⟨{ c with state := .tlsAccept }, .none, [.recvPeek c.fd]⟩ := by
  unfold ShakesHands at h
  by_cases hp : c.state = .protoDetect
  · have hact : c.stateAction io tls = c.doProtoDetect io tls := by rw [stateAction, hp]
    rw [hact] at h ⊢
    by_cases hpeek : io.peek = .done (some 0x16) ∧ tls
    · simp [doProtoDetect, hpeek.1, hpeek.2]
    · exact (doProtoDetect_state io tls hp hpeek h).elim
  · exact ((stateAction_calm io tls hp ht).2 h).elim

/-- With an SSL object, or one to come in this call, nothing is said in the clear, and the object
stays until the connection is closed. -/
theorem advance_sealed (hobject : c.state = .tlsAccept → c.ssl ≠ none)
    (h : c.ssl ≠ none ∨ ShakesHands io tls c) (hgets : GetsObject io tls c) :
    Sealed (c.advance io tls server).actions ∧
      ((c.advance io tls server).conn.ssl ≠ none ∨
        (c.advance io tls server).conn.state = .closed) := by
  by_cases hs : c.ssl = none
  · have hshakes := h.resolve_left fun hn => hn hs
    have hact := stateAction_of_shakesHands hshakes fun ht => hobject ht hs
    have hnone : (c.stateAction io tls).conn.ssl = none := by
      rw [hact]
      exact hs
    obtain ⟨htls, hnew⟩ := hgets hshakes hnone
    have hfirst : c.firstHalf io tls =
        ({ c with state := .tlsAccept, ssl := io.newSsl }.doTlsAccept io io.sslAcceptInline).after
          [.recvPeek c.fd] := by
      have hcond : (c.stateAction io tls).conn.state = .tlsAccept ∧
          ¬ (c.stateAction io tls).conn.isTls := ⟨hshakes, by simp [isTls, hnone]⟩
      rw [firstHalf, injectSsl, if_pos hcond, hact, htls]
      rfl
    have hline : KeepsLine io { c with state := .tlsAccept, ssl := io.newSsl }
        (c.advance io tls server) := by
      rw [advance, hfirst]
      apply secondHalf_keepsLine
      apply (doTlsAccept_keepsLine io io.sslAcceptInline _).behind
      exact fun _ => by simp [Sealed, Action.inClear]
    refine ⟨hline.quiet hnew, hline.ssl.imp_left fun he => ?_⟩
    rw [he]
    exact hnew
  · have hline := advance_keepsLine_of_ssl io tls server hs
    refine ⟨hline.quiet hs, hline.ssl.imp_left fun he => ?_⟩
    rw [he]
    exact hs

/-- Without an SSL object, `SSL_accept` is called all the same. -/
theorem advance_unsealed (h : ¬ GetsObject io tls c) :
    ShakesHands io tls c ∧ ¬ Sealed (c.advance io tls server).actions := by
  unfold GetsObject at h
  push Not at h
  obtain ⟨hshakes, hnone, hno⟩ := h
  have hssl : (if tls then io.newSsl else none) = none := by
    split
    · next htls => exact hno htls
    · rfl
  have hcond : (c.stateAction io tls).conn.state = .tlsAccept ∧
      ¬ (c.stateAction io tls).conn.isTls := ⟨hshakes, by simp [isTls, hnone]⟩
  have hmem : .sslAccept none io.sslAcceptInline ∈ (c.firstHalf io tls).actions := by
    rw [firstHalf, injectSsl, if_pos hcond, hssl, Outcome.after_actions]
    apply List.mem_append_right
    cases io.sslAcceptInline with
    | done => exact List.mem_cons_self
    | wantRead => exact List.mem_cons_self
    | wantWrite => exact List.mem_cons_self
    | error => exact List.mem_cons_self
  obtain ⟨as, has⟩ := secondHalf_extends io server (c.firstHalf io tls)
  refine ⟨hshakes, fun hsealed => ?_⟩
  rw [advance, has] at hsealed
  exact absurd (hsealed _ (List.mem_append_left _ hmem)) Bool.noConfusion

end Connection

namespace EventLoop
open Connection
variable {s s' : EventLoop} {i j : Nat} {input : Input}

theorem releaseActions_sealed (i : Nat) : Sealed (releaseActions i) := by
  unfold releaseActions
  split
  · simp [Sealed, Action.inClear]
  · exact sealed_nil

/-- What is done in a step for a connection is sealed if what its own call does is. -/
theorem processConnection_sealed_iff (s : EventLoop) (io : Io) (i : Nat) :
    Sealed (during s (s.processConnection io i)) ↔
      Sealed ((s.conn i).advance io s.tlsCtx s.fileServer).actions := by
  obtain ⟨released, hreleased, hduring⟩ := processConnection_during s io i
  rw [hduring, sealed_append]
  apply and_iff_left
  rcases hreleased with rfl | rfl
  · exact sealed_nil
  · exact releaseActions_sealed i

/-- No connection is in `TLS_ACCEPT` without an SSL object. -/
def Equipped (s : EventLoop) : Prop :=
  ∀ i, (s.conn i).state = .tlsAccept → (s.conn i).ssl ≠ none

theorem core_ssl {c d : Connection} (h : c.core = d.core) : c.ssl = d.ssl := by
  have hs := congrArg Connection.ssl h
  exact hs

/-- What a slot holds elsewhere is equipped as before. -/
theorem Equipped.elsewhere (h : s.Equipped) (he : Elsewhere i s s')
    (ht : (s'.conn i).state = .tlsAccept) : (s'.conn i).ssl ≠ none := by
  rw [core_ssl he.conn]
  apply h i
  rw [← core_state he.conn]
  exact ht

theorem Equipped.destroy (h : s.Equipped) (j : Nat) : (s.destroyConnection j).Equipped := by
  intro i ht
  by_cases hij : i = j
  · rw [destroyConnection_state, if_pos hij] at ht
    cases ht
  · exact h.elsewhere (destroyConnection_elsewhere s hij) ht

theorem Equipped.create {fd now : Int} (h : s.Equipped)
    (hc : s.createConnection fd now = (s', some j)) : s'.Equipped := by
  intro i ht
  rw [createConnection_conn hc] at ht ⊢
  split at ht
  · cases ht
  · next hij =>
    rw [if_neg hij]
    exact h i ht

theorem Equipped.process (h : s.Equipped) (io : Io) (j : Nat)
    (hgets : GetsObject io s.tlsCtx (s.conn j)) : (s.processConnection io j).Equipped := by
  intro i ht
  by_cases hij : i = j
  · subst hij
    obtain ⟨hcore, _⟩ := processConnection_outcome s io i
    rw [core_state hcore] at ht
    have hshakes := shakesHands_of_advance ht
    rw [core_ssl hcore]
    apply (advance_sealed (h i) (.inr hshakes) hgets).2.resolve_right
    rw [ht]
    exact State.noConfusion
  · exact h.elsewhere (processConnection_elsewhere s io hij) ht

/-- An event loop, and the slots whose connections have been recognised as TLS and are open. -/
structure Watch where
  loop : EventLoop
  recognised : Nat → Prop

/-- An input is for slot `i` a call in which its connection shakes hands. -/
def Recognises (i : Nat) (s : EventLoop) (input : Input) : Prop :=
  ∃ io, input.visitOf i = some (.process io) ∧ ShakesHands io s.tlsCtx (s.conn i)

/-- A connection is recognised until it is closed, or its slot is given away. -/
def Watch.step (w : Watch) (input : Input) : Watch where
  loop := w.loop.step input
  recognised i := w.loop.Remains i input ∧ (w.recognised i ∨ w.loop.Recognises i input)

/-- A call of a connection that has been recognised as TLS, or is in this call, says nothing in
the clear and has an SSL object for every SSL call. -/
def Watch.Discreet (w : Watch) (input : Input) : Prop :=
  ∀ i io, input.visitOf i = some (.process io) →
    (w.recognised i ∨ ShakesHands io w.loop.tlsCtx (w.loop.conn i)) →
    Sealed (during w.loop (w.loop.step input))

/-- Whenever an SSL object is asked for, there is one. -/
def Watch.Supplied (w : Watch) (input : Input) : Prop :=
  ∀ i io, input.visitOf i = some (.process io) →
    GetsObject io w.loop.tlsCtx (w.loop.conn i)

/-- Every connection that has been recognised has its SSL object. -/
structure Watch.Inv (w : Watch) : Prop where
  equipped : w.loop.Equipped
  recognised : ∀ i, w.recognised i → (w.loop.conn i).ssl ≠ none

variable {w : Watch}

theorem Watch.Inv.discreet_iff (h : w.Inv) : w.Discreet input ↔ w.Supplied input := by
  constructor
  · intro hd i io hv
    by_contra hno
    obtain ⟨hshakes, hclear⟩ : ShakesHands io w.loop.tlsCtx (w.loop.conn i) ∧
        ¬ Sealed ((w.loop.conn i).advance io w.loop.tlsCtx w.loop.fileServer).actions :=
      advance_unsealed hno
    have hsealed := hd i io hv (.inr hshakes)
    rw [step_of_process hv, processConnection_sealed_iff] at hsealed
    exact hclear hsealed
  · intro hs i io hv hrec
    rw [step_of_process hv, processConnection_sealed_iff]
    exact (advance_sealed (h.equipped i) (hrec.imp_left (h.recognised i)) (hs i io hv)).1

theorem step_equipped (h : s.Equipped)
    (hs : ∀ i io, input.visitOf i = some (.process io) →
      GetsObject io s.tlsCtx (s.conn i)) : (s.step input).Equipped := by
  apply step_keeps_of _ _ _ _ h
  · rintro ev io i rfl hend hu
    apply h.process io i
    exact hs i io (Input.visitOf_process_iff.2 ⟨ev, rfl, hend, hu⟩)
  · exact fun u hu => hu
  · exact fun u fd hu => ⟨hu, hu⟩
  · exact fun u u' i fd now hu hc => hu.create hc
  · exact fun u i hu => hu.destroy i

theorem Watch.Inv.step (h : w.Inv) (hs : w.Supplied input) : (w.step input).Inv := by
  refine ⟨step_equipped h.equipped hs, fun i hi => ?_⟩
  obtain ⟨hremains, hrec⟩ := hi
  by_cases hv : ∃ io, input.visitOf i = some (.process io)
  · obtain ⟨io, hv⟩ := hv
    have hrec' : (w.loop.conn i).ssl ≠ none ∨ ShakesHands io w.loop.tlsCtx (w.loop.conn i) := by
      rcases hrec with hrec | ⟨io', hv', hshakes⟩
      · exact .inl (h.recognised i hrec)
      · rw [hv] at hv'
        cases hv'
        exact .inr hshakes
    have hkeeps : ((w.loop.conn i).advance io w.loop.tlsCtx w.loop.fileServer).conn.ssl ≠ none ∨
        ((w.loop.conn i).advance io w.loop.tlsCtx w.loop.fileServer).conn.state = .closed :=
      (advance_sealed (h.equipped i) hrec' (hs i io hv)).2
    obtain ⟨hcore, _⟩ := processConnection_outcome w.loop io i
    have hlive := hremains.1
    change ((w.loop.step input).conn i).ssl ≠ none
    rw [step_of_process hv] at hlive ⊢
    rw [core_ssl hcore]
    apply hkeeps.resolve_right
    rw [← core_state hcore]
    exact hlive
  · push Not at hv
    have hrec' : w.recognised i := by
      rcases hrec with hrec | ⟨io, hv', _⟩
      · exact hrec
      · exact (hv io hv').elim
    have helse := hremains.elsewhere hv
    change ((w.loop.step input).conn i).ssl ≠ none
    rw [core_ssl helse.conn]
    exact h.recognised i hrec'

/-- An event loop at its start. -/
def watched (server : FileServer) (timeout : Int) (tls : Bool) : Watch :=
  ⟨create server timeout tls, fun _ => False⟩

/-- In every run, connections that have been recognised as TLS never speak in the clear exactly if
every SSL object that is asked for is there. -/
theorem never_in_clear_iff (server : FileServer) (timeout : Int) (tls : Bool)
    (inputs : List Input) :
    Run.Along Watch.step Watch.Discreet (watched server timeout tls) inputs ↔
      Run.Along Watch.step Watch.Supplied (watched server timeout tls) inputs := by
  apply Run.along_iff_along Watch.Inv
  · exact fun w input h => h.discreet_iff
  · exact fun w input h hs => h.step hs
  · refine ⟨fun i ht => ?_, fun i hi => hi.elim⟩
    cases ht

/-- A client says hello, and memory is short. -/
def helloWithoutMemory : List Input :=
  round [(⟨false, false, .listener⟩, { accepts := [(5, 0)] })] ++
  round [(⟨false, false, .conn 0⟩, { peek := .done (some 0x16), newSsl := none })]

theorem hello_without_memory_in_clear :
    ¬ Run.Along Watch.step Watch.Discreet (watched ⟨bytes "/srv"⟩ 75 true)
      helloWithoutMemory := by
  rintro ⟨_, _, _, hd, _⟩
  have hsealed := hd 0 _ rfl (.inr (by unfold ShakesHands; decide))
  revert hsealed
  unfold Sealed
  decide

end EventLoop

end FileWebServer
