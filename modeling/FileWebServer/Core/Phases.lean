import FileWebServer.Core.HeaderBlocks

namespace FileWebServer
set_option autoImplicit true

/-- Where a session stands: its client is yet to say which protocol it speaks, shakes hands, sends
its first request, has one that is not answered yet, gets the header block or the body of a
response, or may send a further request. The socket of a `defunct` session is closed already. -/
inductive Phase where
  | greeting
  | handshake
  | request
  | pending
  | header
  | body
  | idle
  | defunct
  deriving DecidableEq, Repr

namespace Phase

/-- Where one call can lead a session from a phase. -/
def next : Phase → List Phase
  | greeting => [greeting, handshake, request, header]
  | handshake => [handshake, request, header]
  | request => [request, pending, header, body, idle, defunct]
  | pending => [pending, body, idle, defunct]
  | header => [header, body, idle]
  | body => [body, idle]
  | idle => [idle, pending, header, body, defunct]
  | defunct => [defunct]

/-- The phases in which a call can end a session. -/
def ends : Phase → Bool
  | handshake | pending | defunct => false
  | _ => true

/-- How far a session has come: what is behind it does not come again. -/
def rank : Phase → Nat
  | greeting => 0
  | handshake => 1
  | request => 2
  | _ => 3

theorem rank_le_of_next {p q : Phase} (h : q ∈ p.next) : p.rank ≤ q.rank := by
  revert q
  cases p with
  | greeting => decide
  | handshake => decide
  | request => decide
  | pending => decide
  | header => decide
  | body => decide
  | idle => decide
  | defunct => decide

variable {p q : Phase}

theorem rank_le_of_reach (h : Relation.ReflTransGen (fun p q : Phase => q ∈ p.next) p q) :
    p.rank ≤ q.rank := by
  induction h with
  | refl => exact Nat.le_refl _
  | tail _ hn ih => exact ih.trans (rank_le_of_next hn)

theorem defunct_of_reach (h : Relation.ReflTransGen (fun p q : Phase => q ∈ p.next) p q)
    (hp : p = .defunct) : q = .defunct := by
  induction h with
  | refl => exact hp
  | tail _ hn ih =>
    rw [ih] at hn
    exact List.mem_singleton.1 hn

end Phase

/-- What a state of a connection means for its client. -/
def State.phase : State → Phase
  | .closed => .defunct
  | .protoDetect => .greeting
  | .tlsAccept => .handshake
  | .reading => .request
  | .parsing => .pending
  | .sendingHeaders => .header
  | .sendingBody => .body
  | .keepAlive => .idle

namespace Connection
variable {c : Connection} {r : Outcome} {io : Io} {tls : Bool} {server : FileServer}

theorem doProtoDetect_phase (io : Io) (tls : Bool) (hc : c.state = .protoDetect)
    (hf : ¬ protoDetectFails io) :
    (c.doProtoDetect io tls).conn.state.phase ∈ Phase.greeting.next := by
  unfold doProtoDetect
  unfold protoDetectFails at hf
  rcases hp : io.peek with (_ | b) | _ | _
  · exact (hf (.inl hp)).elim
  · dsimp only
    split
    · split
      · exact (by decide : Phase.handshake ∈ Phase.greeting.next)
      · exact (by decide : Phase.header ∈ Phase.greeting.next)
    · exact (by decide : Phase.request ∈ Phase.greeting.next)
  · dsimp only
    rw [hc]
    decide
  · exact (hf (.inr hp)).elim

theorem doTlsAccept_phase (io : Io) (ret : SslResult Unit) (hc : c.state = .tlsAccept) :
    (c.doTlsAccept io ret).conn.state.phase ∈ Phase.handshake.next := by
  cases ret with
  | done => exact (by decide : Phase.request ∈ Phase.handshake.next)
  | wantRead =>
    change c.state.phase ∈ _
    rw [hc]
    decide
  | wantWrite =>
    change c.state.phase ∈ _
    rw [hc]
    decide
  | error => exact (by decide : Phase.header ∈ Phase.handshake.next)

/-- Nothing is answered before a request has been read. -/
theorem secondHalf_unasked (io : Io) (server : FileServer) (hp : r.conn.state ≠ .parsing)
    (hm : r.conn.request.method = .unknown) : secondHalf io server r = r := by
  have hparse : inlineParse io r = r := if_neg fun h => hp h.1
  unfold secondHalf
  rw [hparse]
  exact answer_not_due io server fun h => h.2 hm

/-- A request that is answered in the call that has parsed it leads on from there. -/
theorem answer_phase (io : Io) (server : FileServer) (hp : r.conn.state = .parsing) :
    (answer io server r).conn.state.phase ∈ Phase.pending.next := by
  by_cases hd : r.conn.answerDue
  · rw [answer_due io server hd, Outcome.after_conn]
    have hstate := (prepareResponse_prepared io server r.conn).state
    rcases doSendHeaders_leads io (r.conn.prepareResponse io server).1 with h | h | h | h
    · rw [h, hstate, hp]
      decide
    · rw [h]
      decide
    · rw [h]
      decide
    · rw [h]
      decide
  · rw [answer_not_due io server hd, hp]
    decide

/-- What is parsed is answered, or refused with an error page. -/
theorem secondHalf_phase (io : Io) (server : FileServer) (hp : r.conn.state = .parsing)
    (hm : r.conn.request.method = .unknown) :
    (secondHalf io server r).conn.state.phase ∈ Phase.header :: Phase.pending.next := by
  have hparse : inlineParse io r = (r.conn.doParse io).after r.actions := if_pos ⟨hp, hm⟩
  unfold secondHalf
  rw [hparse]
  unfold doParse
  dsimp only
  split
  · exact List.mem_cons_of_mem _ (answer_phase io server hp)
  · rw [answer_not_due]
    · exact List.mem_cons_self
    · exact fun h => h.1.elim State.noConfusion State.noConfusion

/-- A read leaves its connection where it was, or has it parsed at once. -/
theorem read_phase (io : Io) (server : FileServer) (as : List Action)
    (hs : c.state = .reading ∨ c.state = .keepAlive) (hm : c.request.method = .unknown)
    (hf : ¬ readFails io c) :
    (secondHalf io server ((c.doRead io).after as)).conn.state.phase ∈
      c.state.phase :: Phase.header :: Phase.pending.next := by
  obtain ⟨buf, complete, state, want, bs, _, hstate, hd⟩ := doRead_goes_on io hf
  rw [hd]
  rcases hstate with rfl | rfl
  · rw [secondHalf_unasked io server _ hm]
    · exact List.mem_cons_self
    · rcases hs with hs | hs
      · exact fun h => State.noConfusion (hs.symm.trans h)
      · exact fun h => State.noConfusion (hs.symm.trans h)
  · exact List.mem_cons_of_mem _ (secondHalf_phase io server rfl hm)

theorem injectSsl_read (io : Io) (tls : Bool) (as : List Action)
    (hs : c.state = .reading ∨ c.state = .keepAlive) (hf : ¬ readFails io c) :
    injectSsl io tls ((c.doRead io).after as) = (c.doRead io).after as := by
  apply if_neg
  rintro ⟨ht, _⟩
  rw [Outcome.after_conn] at ht
  rcases (doRead_slate io hf).2 with h | h
  · rw [h] at ht
    rcases hs with hs | hs
    · exact State.noConfusion (hs.symm.trans ht)
    · exact State.noConfusion (hs.symm.trans ht)
  · exact State.noConfusion (h.symm.trans ht)

theorem injectSsl_phase (io : Io) (tls : Bool) (h : r.conn.state.phase ∈ Phase.greeting.next) :
    (injectSsl io tls r).conn.state.phase ∈ Phase.greeting.next := by
  unfold injectSsl
  split
  · next ht =>
    have hhand := doTlsAccept_phase (c := { r.conn with ssl := if tls then io.newSsl else none })
      io io.sslAcceptInline ht.1
    exact (by decide : Phase.handshake.next ⊆ Phase.greeting.next) hhand
  · exact h

/-- Before the first request, no call does more than its first half. -/
theorem firstHalf_unasked (ho : Opens c) (hf : ¬ stateFails io c)
    (hp : (c.firstHalf io tls).conn.state.phase ∈ Phase.greeting.next) :
    c.advance io tls server = c.firstHalf io tls := by
  have hearly : Early (fun c => c.request.method = .unknown) (c.firstHalf io tls).conn := by
    apply firstHalf_early (P := fun c => c.request.method = .unknown) _ io tls hf
    · exact fun he => (ho he).request
    · intro c d hslate _ hm
      simp only [slate, Prod.mk.injEq] at hslate
      exact hslate.1 ▸ hm
  unfold advance secondHalf
  rw [inlineParse, if_neg]
  · apply answer_not_due
    rintro ⟨hs | hs, hm⟩
    · rw [hs] at hp
      exact absurd hp (by decide)
    · exact hm (hearly (by rw [hs]; rfl))
  · intro h
    rw [h.1] at hp
    exact absurd hp (by decide)

/-- Where a call of `process_connection` can lead a connection that its first step leaves open. -/
theorem advance_phase (hord : Orderly c) (ho : Opens c) (hc : c.state ≠ .closed)
    (hf : ¬ stateFails io c) :
    (c.advance io tls server).conn.state.phase ∈ c.state.phase.next := by
  have hfails := hf
  unfold stateFails at hfails
  have hopen := fun h => hf ((stateAction_ends io tls hc).closed_iff.1 h)
  cases hs : c.state with
  | closed => exact (hc hs).elim
  | protoDetect =>
    rw [hs] at hfails
    have hact : c.stateAction io tls = c.doProtoDetect io tls := by rw [stateAction, hs]
    have hfirst : (c.firstHalf io tls).conn.state.phase ∈ Phase.greeting.next := by
      rw [firstHalf, hact]
      exact injectSsl_phase io tls (doProtoDetect_phase io tls hs hfails)
    rw [firstHalf_unasked ho hf hfirst]
    exact hfirst
  | tlsAccept =>
    have hact : c.stateAction io tls = c.doTlsAccept io io.sslAccept := by rw [stateAction, hs]
    have hfirst : (c.firstHalf io tls).conn.state.phase ∈ Phase.handshake.next := by
      rw [firstHalf, hact, injectSsl]
      split
      · next ht => exact doTlsAccept_phase io _ ht.1
      · exact doTlsAccept_phase io _ hs
    rw [firstHalf_unasked ho hf ((by
      decide : Phase.handshake.next ⊆ Phase.greeting.next) hfirst)]
    exact hfirst
  | reading =>
    rw [hs] at hfails
    have hact : c.stateAction io tls = (c.doRead io).after [] := by
      rw [stateAction, hs]
      rfl
    have hskip := injectSsl_read io tls [] (.inl hs) hfails
    have hm : c.request.method = .unknown := (ho (by rw [hs]; rfl)).request
    have hread := read_phase io server [] (.inl hs) hm hfails
    unfold advance firstHalf
    rw [hact, hskip]
    rw [hs] at hread
    exact (by decide : Phase.request :: Phase.header :: Phase.pending.next ⊆
      Phase.request.next) hread
  | parsing =>
    have hparsed := inlineParse_parsing io tls hs
    rw [if_pos (hord.accepted hs)] at hparsed
    unfold advance secondHalf
    apply answer_phase
    rw [hparsed]
    exact hs
  | sendingHeaders =>
    rw [(advance_sending io tls server (.inl hs)).1]
    have hact : c.stateAction io tls = c.doSendHeaders io := by rw [stateAction, hs]
    rw [hact] at hopen ⊢
    rcases doSendHeaders_leads io c with h | h | h | h
    · rw [h, hs]
      decide
    · rw [h]
      decide
    · rw [h]
      decide
    · exact (hopen h).elim
  | sendingBody =>
    rw [(advance_sending io tls server (.inr hs)).1]
    have hact : c.stateAction io tls = c.doSendBody io := by rw [stateAction, hs]
    rw [hact] at hopen ⊢
    rcases doSendBody_leads io c with h | h | h | h
    · rw [h, hs]
      decide
    · rw [h]
      decide
    · rw [h]
      decide
    · exact (hopen h).elim
  | keepAlive =>
    rw [hs] at hfails
    have hact : c.stateAction io tls = (c.reset.doRead io).after c.closeFileActions := by
      rw [stateAction, hs]
    have hreset : c.reset.state = .keepAlive := hs
    have hskip := injectSsl_read io tls c.closeFileActions (.inr hreset) hfails
    have hread := read_phase io server c.closeFileActions (.inr hreset) rfl hfails
    unfold advance firstHalf
    rw [hact, hskip]
    rw [hreset] at hread
    exact (by decide : Phase.idle :: Phase.header :: Phase.pending.next ⊆ Phase.idle.next) hread

/-- The phases in which the first step of a call can close the connection. -/
theorem ends_of_stateFails (h : stateFails io c) : c.state.phase.ends = true := by
  unfold stateFails at h
  cases hs : c.state with
  | closed =>
    rw [hs] at h
    exact h.elim
  | tlsAccept =>
    rw [hs] at h
    exact h.elim
  | parsing =>
    rw [hs] at h
    exact h.elim
  | protoDetect => rfl
  | reading => rfl
  | sendingHeaders => rfl
  | sendingBody => rfl
  | keepAlive => rfl

end Connection

end FileWebServer
