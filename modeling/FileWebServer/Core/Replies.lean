import FileWebServer.Core.Phases
import FileWebServer.Core.Resumption

namespace FileWebServer
set_option autoImplicit true

namespace Connection
variable {c d p : Connection} {r : Outcome} {io : Io} {file : Bytes} {tls : Bool}
  {server : FileServer}

/-- What is left to send of the response that a connection is in the middle of. -/
def replyRest (file : Bytes) (c : Connection) : Bytes :=
  if c.state = .sendingBody then c.bodyRest file
  else if c.state = .sendingHeaders then
    c.headerRest ++ if c.bodiless then [] else c.bodyRest file
  else []

theorem replyRest_body (hc : c.state = .sendingBody) : c.replyRest file = c.bodyRest file :=
  if_pos hc

theorem replyRest_header (file : Bytes) (hc : c.state = .sendingHeaders) :
    c.replyRest file = c.headerRest ++ if c.bodiless then [] else c.bodyRest file := by
  rw [replyRest, if_neg (hc ▸ State.noConfusion), if_pos hc]

theorem replyRest_idle (hc : ¬ c.Sending) : c.replyRest file = [] := by
  rw [replyRest, if_neg fun h => hc (.inr h), if_neg fun h => hc (.inl h)]

/-- A step sends a beginning of what is left of a response, and leaves exactly what comes behind
that unless it closes the connection. -/
structure Pours (file due : Bytes) (r : Outcome) : Prop where
  sent : wire r.actions <+: due
  left : r.conn.state ≠ .closed → wire r.actions ++ r.conn.replyRest file = due

theorem Pours.of_left (h : wire r.actions ++ r.conn.replyRest file = due) : Pours file due r :=
  ⟨h ▸ List.prefix_append _ _, fun _ => h⟩

theorem Pours.of_closed (hc : r.conn.state = .closed) (h : wire r.actions <+: due) :
    Pours file due r := ⟨h, fun hne => absurd hc hne⟩

theorem Pours.after (h : Pours file due r) (as : List Action) :
    Pours file (wire as ++ due) (r.after as) := by
  constructor
  · rw [Outcome.after_actions, wire_append]
    exact (List.prefix_append_right_inj _).2 h.sent
  · intro hne
    rw [Outcome.after_actions, wire_append, List.append_assoc]
    exact congrArg (wire as ++ ·) (h.left hne)

/-- A step that sends a body says what it leaves, so what is to be known is what it sends before
it closes the connection. -/
theorem Resumes.pours (h : Resumes file due r)
    (hclosed : r.conn.state = .closed → wire r.actions <+: due) : Pours file due r := by
  rcases h with hc | ⟨hk, h⟩ | ⟨hs, h⟩
  · exact .of_closed hc (hclosed hc)
  · apply Pours.of_left
    rw [replyRest_idle, List.append_nil, h]
    rintro (hs | hs)
    · exact State.noConfusion (hk.symm.trans hs)
    · exact State.noConfusion (hk.symm.trans hs)
  · apply Pours.of_left
    rw [replyRest_body hs]
    exact h

/-- An attempt to send that ends the connection has sent nothing. -/
theorem onSent_closed {attempt : Sent × List Action} {next : Nat → Outcome} {offered : Bytes}
    (hw : wire attempt.2 = attempt.1.taken offered) (hc : c.state ≠ .closed)
    (hnext : ∀ n, (next n).conn.state ≠ .closed)
    (h : (c.onSent attempt next).conn.state = .closed) :
    wire (c.onSent attempt next).actions = [] := by
  obtain ⟨sent, as⟩ := attempt
  cases sent with
  | bytes n => exact (hnext n h).elim
  | wait want => exact (hc h).elim
  | fatal => exact (hangUp_wire c as).trans hw

theorem sendChunk_closed (io : Io) (hc : c.state ≠ .closed)
    (h : (sendChunk io c).conn.state = .closed) : wire (sendChunk io c).actions = [] := by
  apply onSent_closed (sslWrite_wire ..) hc _ h
  intro n
  dsimp only
  split
  · exact hc
  · exact hc

/-- Before it closes the connection, a step that sends a body sends a beginning of it. -/
theorem doSendBodyMemory_closed (io : Io) (hc : c.state ≠ .closed)
    (h : (doSendBodyMemory io c).conn.state = .closed) :
    wire (doSendBodyMemory io c).actions = [] := by
  unfold doSendBodyMemory at h ⊢
  dsimp only at h ⊢
  split at h
  · cases h
  · next hlen =>
    rw [if_neg hlen]
    apply onSent_closed (transmit_wire ..) hc _ h
    intro n
    split
    · exact State.noConfusion
    · exact hc

theorem doSendBodyTls_closed (io : Io) (hc : c.state ≠ .closed)
    (h : (doSendBodyTls io c).conn.state = .closed) :
    wire (doSendBodyTls io c).actions = [] := by
  unfold doSendBodyTls at h ⊢
  by_cases hused : c.chunkUsed ≤ c.chunkSent
  · rw [if_pos hused] at h ⊢
    by_cases hrem : c.sendRemaining ≤ 0
    · rw [if_pos hrem] at h
      cases h
    rw [if_neg hrem] at h ⊢
    by_cases hdata : c.readChunk io = []
    · rw [if_pos hdata, hangUp_wire]
      rfl
    · rw [if_neg hdata] at h ⊢
      exact sendChunk_closed (c := c.loadChunk (c.readChunk io)) io hc h
  · rw [if_neg hused] at h ⊢
    exact sendChunk_closed io hc h

/-- Only `sendfile` may have sent something when it fails. -/
theorem doSendBodyPlain_closed (io : Io) (hc : c.state ≠ .closed)
    (h : (doSendBodyPlain io c).conn.state = .closed) :
    wire (doSendBodyPlain io c).actions <+: slice io.file c.sendOffset c.sendRemaining := by
  unfold doSendBodyPlain at h ⊢
  by_cases hrem : c.sendRemaining ≤ 0
  · rw [if_pos hrem] at h
    cases h
  rw [if_neg hrem] at h ⊢
  dsimp only at h ⊢
  by_cases hoff : c.sendOffset < 0
  · rw [if_pos hoff, hangUp_wire]
    exact List.nil_prefix
  rw [if_neg hoff] at h ⊢
  cases hsend : io.sendfile with
  | done =>
    rw [hsend] at h
    cases h
  | again n =>
    rw [hsend] at h
    exact (hc h).elim
  | error n =>
    rw [hangUp_wire, wire_cons, wire_nil, List.append_nil]
    exact List.take_prefix _ _

theorem doSendBody_closed (hfile : io.file = file) (hc : c.state = .sendingBody)
    (h : (doSendBody io c).conn.state = .closed) :
    wire (doSendBody io c).actions <+: c.bodyRest file := by
  have hlive : c.state ≠ .closed := hc ▸ State.noConfusion
  unfold doSendBody at h ⊢
  split at h
  · next hm =>
    rw [if_pos hm, doSendBodyMemory_closed io hlive h]
    exact List.nil_prefix
  next hm =>
  rw [if_neg hm]
  split at h
  · next ht =>
    rw [if_pos ht, doSendBodyTls_closed io hlive h]
    exact List.nil_prefix
  · next ht =>
    have hplain : ¬ (c.isTls = true ∧ c.chunkSent < c.chunkUsed) := fun h => ht h.1
    rw [if_neg ht, bodyRest_file file hm hplain, ← hfile]
    exact doSendBodyPlain_closed io hlive h

theorem doSendBody_pours (hfile : io.file = file) (hc : c.state = .sendingBody) :
    Pours file (c.bodyRest file) (doSendBody io c) :=
  (doSendBody_resumes hfile hc).pours (doSendBody_closed hfile hc)

/-- What comes right after the last byte of a header block. -/
theorem headersSent_pours (hfile : io.file = file) (c : Connection) :
    Pours file (if c.bodiless then [] else c.bodyRest file) (headersSent io c) := by
  apply (headersSent_resumes hfile c).pours
  intro h
  unfold headersSent at h ⊢
  split at h
  · cases h
  · next hb =>
    rw [if_neg hb, if_neg hb]
    exact doSendBody_closed (c := { c with state := .sendingBody }) hfile rfl h

/-- A header block that is taken in several steps is followed by the body. -/
theorem doSendHeaders_pours (hfile : io.file = file) (hc : c.state = .sendingHeaders) :
    Pours file (c.replyRest file) (doSendHeaders io c) := by
  have hwire := transmit_wire c io.headerWrite io.headerSslWrite c.headerRest
  rw [replyRest_header file hc]
  unfold doSendHeaders
  cases hattempt : c.transmit io.headerWrite io.headerSslWrite c.headerRest with
  | mk sent as =>
    rw [hattempt] at hwire
    cases sent with
    | wait want =>
      have hnone : wire as = [] := hwire
      apply Pours.of_left
      change wire as ++ c.replyRest file = _
      rw [replyRest_header file hc, hnone]
      rfl
    | fatal =>
      apply Pours.of_closed (close_state c)
      change wire (c.hangUp as).actions <+: _
      rw [hangUp_wire, hwire]
      exact List.nil_prefix
    | bytes n =>
      have hsome : wire as = c.headerRest.take n := hwire
      change Pours file _ (Outcome.after (if c.headerBuf.length ≤ c.headerSent + n then
        headersSent io { c with headerSent := c.headerSent + n }
        else ⟨{ c with headerSent := c.headerSent + n }, .write, []⟩) as)
      by_cases hall : c.headerBuf.length ≤ c.headerSent + n
      · have hlen : c.headerRest.length ≤ n := by
          rw [headerRest, List.length_drop]
          omega
        rw [List.take_of_length_le hlen] at hsome
        rw [if_pos hall, ← hsome]
        exact (headersSent_pours hfile { c with headerSent := c.headerSent + n }).after as
      · have hrest : ({ c with headerSent := c.headerSent + n } : Connection).replyRest file =
            c.headerRest.drop n ++ if c.bodiless then [] else c.bodyRest file := by
          have hdrop := replyRest_header file (c := { c with headerSent := c.headerSent + n }) hc
          rw [headerRest, ← List.drop_drop] at hdrop
          exact hdrop
        rw [if_neg hall]
        apply Pours.of_left
        change wire (as ++ []) ++ replyRest file { c with headerSent := c.headerSent + n } = _
        rw [List.append_nil, hsome, hrest, ← List.append_assoc, List.take_append_drop]

/-- A call on a connection in the middle of a response goes on with it. -/
theorem advance_pours (hfile : io.file = file) (hc : c.Sending) :
    Pours file (c.replyRest file) (c.advance io tls server) := by
  rw [(advance_sending io tls server hc).1]
  rcases hc with hc | hc
  · rw [stateAction, hc]
    exact doSendHeaders_pours hfile hc
  · rw [stateAction, hc, replyRest_body hc]
    exact doSendBody_pours hfile hc

/-- A connection on which nothing is left of a response. -/
structure Cleared (c : Connection) : Prop where
  file : c.fileFd < 0
  body : c.bodySent = 0
  chunk : c.chunkUsed ≤ c.chunkSent
  headers : c.response.headers = []
  get : c.isHead = false

/-- A connection on which no request has been read either. -/
structure Pristine (c : Connection) : Prop extends Cleared c where
  request : c.request.method = .unknown

theorem Cleared.congr (h : Cleared c) (hslate : c.slate.2 = d.slate.2) (hfile : c.fileFd = d.fileFd) :
    Cleared d := by
  simp only [slate, Prod.mk.injEq] at hslate
  obtain ⟨hresp, _, _, _, hused, hsent, hbody, hhead⟩ := hslate
  exact {
    file := hfile ▸ h.file
    body := hbody ▸ h.body
    chunk := hused ▸ hsent ▸ h.chunk
    headers := hresp ▸ h.headers
    get := hhead ▸ h.get }

theorem pristine_slate (c d : Connection) (hslate : c.slate = d.slate) (hfile : c.fileFd = d.fileFd)
    (h : Pristine c) : Pristine d :=
  ⟨h.toCleared.congr (congrArg Prod.snd hslate) hfile,
    (congrArg (fun q => q.1.method) hslate).symm.trans h.request⟩

theorem pristine_invariant : ConnInvariant (Early Pristine) := by
  apply early_invariant pristine_slate
  · exact fun c hc => hc.request
  · intro c fd root timeout now tls
    exact ⟨⟨(by decide : (-1 : Int) < 0), rfl, Nat.le_refl 0, rfl, rfl⟩, rfl⟩

theorem reset_pristine (c : Connection) : Pristine c.reset :=
  ⟨⟨(reset_unbegun c).file, rfl, Nat.le_refl 0, rfl, rfl⟩, rfl⟩

/-- A request that is left in `PARSING` is one that the server has accepted and does not answer. -/
def Ignores (c : Connection) : Prop :=
  c.state = .parsing → (HttpRequest.parse c.readBuf).1 = true ∧
    (HttpRequest.parse c.readBuf).2.method = .unknown

theorem Ignores.of_ne (h : c.state ≠ .parsing) : Ignores c := fun hp => absurd hp h

/-- The error pages that are built inside `Connection`. -/
def refusals : List (Status × Bytes) :=
  [(.badRequest, []), (.badRequest, bytes "\n(Server does not support HTTPS/TLS)"),
    (.internalError, [])]

/-- The response that is built in the second half of a call, or has been in the first. -/
def replyIn (io : Io) (server : FileServer) (r : Outcome) : Option Connection :=
  let q := inlineParse io r
  if q.conn.answerDue then some (q.conn.prepareResponse io server).1
  else if .prepareHeaders ∈ q.actions then some q.conn
  else none

/-- The response that a call of `process_connection` builds, none of it sent. -/
def reply (io : Io) (tls : Bool) (server : FileServer) (c : Connection) : Option Connection :=
  replyIn io server (c.firstHalf io tls)

/-- What a call does on a connection that is not in the middle of a response: it sends nothing, or
it builds an error page to be sent next, or it builds the answer to a request and begins to send
it. -/
inductive Turns (io : Io) (server : FileServer) : Option Connection → Outcome → Prop
  | waits {r : Outcome} : wire r.actions = [] → ¬ r.conn.Sending → Ignores r.conn →
    Turns io server none r
  | refuses {e : Connection} {status : Status} {note : Bytes} {r : Outcome} : Cleared e →
    (status, note) ∈ refusals → wire r.actions = [] →
    r.conn = e.prepareError status note io.time → Turns io server (some r.conn) r
  | answers {d : Connection} {as : List Action} : Cleared d → d.state = .parsing →
    d.request.method = .get ∨ d.request.method = .head → wire as = [] →
    Turns io server (some (d.prepareResponse io server).1)
      (((d.prepareResponse io server).1.doSendHeaders io).after as)

/-- What a step before the first request leaves behind. -/
inductive Opening (io : Io) : Outcome → Prop
  | waits {r : Outcome} : wire r.actions = [] → work r.actions = [] →
    r.conn.state.isEarly = true → Pristine r.conn → Opening io r
  | ends {r : Outcome} : wire r.actions = [] → work r.actions = [] → r.conn.state = .closed →
    Opening io r
  | refuses {e : Connection} {status : Status} {note : Bytes} {r : Outcome} : Cleared e →
    (status, note) ∈ refusals → wire r.actions = [] → .prepareHeaders ∈ r.actions →
    r.conn = e.prepareError status note io.time → Opening io r

theorem Opening.hangUp {as : List Action} (hw : wire as = []) (hwork : work as = []) :
    Opening io (c.hangUp as) := by
  apply Opening.ends
  · rw [hangUp_wire, hw]
  · exact (hangUp_sends (c := c) rfl hwork).work
  · exact close_state c

theorem Opening.after {as : List Action} (h : Opening io r) (hw : wire as = [])
    (hwork : work as = []) : Opening io (r.after as) := by
  have hwire (h : wire r.actions = []) : wire (r.after as).actions = [] := by
    rw [Outcome.after_actions, wire_append, hw, h]
    rfl
  have hquiet (h : work r.actions = []) : work (r.after as).actions = [] := by
    rw [Outcome.after_actions, work_append, hwork, h]
    rfl
  cases h with
  | waits hrw hrq hs hu => exact .waits (hwire hrw) (hquiet hrq) hs hu
  | ends hrw hrq hs => exact .ends (hwire hrw) (hquiet hrq) hs
  | refuses hu hmem hrw hb hr =>
    exact .refuses hu hmem (hwire hrw) (List.mem_append_right _ hb) hr

theorem doTlsAccept_opening (io : Io) (ret : SslResult Unit) (hc : c.state = .tlsAccept)
    (hu : Pristine c) : Opening io (c.doTlsAccept io ret) := by
  have hearly : c.state.isEarly = true := by
    rw [hc]
    rfl
  unfold doTlsAccept
  cases ret with
  | done => exact .waits rfl rfl rfl (pristine_slate c _ rfl rfl hu)
  | wantRead => exact .waits rfl rfl hearly hu
  | wantWrite => exact .waits rfl rfl hearly hu
  | error =>
    exact .refuses hu.toCleared (by decide : (Status.internalError, []) ∈ refusals) rfl (by simp) rfl

theorem doProtoDetect_opening (io : Io) (tls : Bool) (hc : c.state = .protoDetect)
    (hu : Pristine c) : Opening io (c.doProtoDetect io tls) := by
  have hearly : c.state.isEarly = true := by
    rw [hc]
    rfl
  unfold doProtoDetect
  rcases io.peek with (_ | b) | _ | _
  · exact .hangUp rfl rfl
  · dsimp only
    split
    · split
      · exact .waits rfl rfl rfl (pristine_slate c _ rfl rfl hu)
      · exact .refuses hu.toCleared (by decide) rfl (by simp) rfl
    · exact .waits rfl rfl rfl (pristine_slate c _ rfl rfl hu)
  · exact .waits rfl rfl hearly hu
  · exact .hangUp rfl rfl

/-- The handshake that is begun in the call that finds the first byte. -/
theorem Opening.injectSsl (h : Opening io r) (tls : Bool) :
    Opening io (Connection.injectSsl io tls r) := by
  unfold Connection.injectSsl
  split
  · next ht =>
    cases h with
    | waits hw hq hs hu =>
      exact (doTlsAccept_opening (c := { r.conn with ssl := if tls then io.newSsl else none }) io
        io.sslAcceptInline ht.1 (pristine_slate r.conn _ rfl rfl hu)).after hw hq
    | ends hw hq hs => exact State.noConfusion (hs.symm.trans ht.1)
    | refuses hu hmem hw hb hr =>
      rw [hr] at ht
      cases ht.1
  · exact h

theorem not_built {as : List Action} (h : work as = []) : .prepareHeaders ∉ as := by
  intro hm
  have hw : Action.prepareHeaders ∈ work as := List.mem_filter.2 ⟨hm, rfl⟩
  rw [h] at hw
  exact List.not_mem_nil hw

/-- Where no request has been read, the second half of a call adds nothing. -/
theorem replyIn_idle (io : Io) (server : FileServer) (hp : r.conn.state ≠ .parsing)
    (hd : r.conn.state = .reading → r.conn.request.method = .unknown) :
    secondHalf io server r = r ∧
      replyIn io server r = if .prepareHeaders ∈ r.actions then some r.conn else none := by
  have hparse : inlineParse io r = r := if_neg fun h => hp h.1
  have hdue : ¬ r.conn.answerDue := fun h => h.1.elim hp fun hs => h.2 (hd hs)
  constructor
  · rw [secondHalf, hparse]
    exact answer_not_due io server hdue
  · unfold replyIn
    rw [hparse]
    exact if_neg hdue

theorem Opening.turns (h : Opening io r) (server : FileServer) :
    Turns io server (replyIn io server r) (secondHalf io server r) := by
  cases h with
  | waits hw hq hs hu =>
    have hp : r.conn.state ≠ .parsing := by
      intro hp
      rw [hp] at hs
      cases hs
    obtain ⟨hsame, hreply⟩ := replyIn_idle io server hp fun _ => hu.request
    rw [hsame, hreply, if_neg (not_built hq)]
    apply Turns.waits hw _ (.of_ne hp)
    rintro (hsend | hsend)
    · rw [hsend] at hs
      cases hs
    · rw [hsend] at hs
      cases hs
  | ends hw hq hs =>
    have hne {st : State} (h : st ≠ .closed) : r.conn.state ≠ st := fun he => h (he ▸ hs)
    obtain ⟨hsame, hreply⟩ := replyIn_idle io server (r := r)
      (hne State.noConfusion) fun he => absurd he (hne State.noConfusion)
    rw [hsame, hreply, if_neg (not_built hq)]
    apply Turns.waits hw _ (.of_ne (hne State.noConfusion))
    exact fun hsend => hsend.elim (hne State.noConfusion) (hne State.noConfusion)
  | refuses hu hmem hw hb hr =>
    have hs : r.conn.state = .sendingHeaders := by rw [hr]; rfl
    have hne {st : State} (h : st ≠ .sendingHeaders) : r.conn.state ≠ st := fun he => h (he ▸ hs)
    obtain ⟨hsame, hreply⟩ := replyIn_idle io server (r := r)
      (hne State.noConfusion) fun he => absurd he (hne State.noConfusion)
    rw [hsame, hreply, if_pos hb]
    exact .refuses hu hmem hw hr

/-- The request that a read has completed is refused, ignored or answered. -/
theorem read_turns (io : Io) (server : FileServer) (hs : r.conn.state = .parsing)
    (hu : Pristine r.conn) (hw : wire r.actions = []) (hq : work r.actions = []) :
    Turns io server (replyIn io server r) (secondHalf io server r) := by
  have hread : HasRead r.conn r.conn.readBuf r :=
    ⟨hs, rfl, ⟨hu.request, hu.file, hu.body, hu.chunk⟩, hq⟩
  have hsilent {bs : List Action} (hb : wire bs = []) : wire (r.actions ++ bs) = [] := by
    rw [wire_append, hw, hb]
    rfl
  have hclear (q : HttpRequest) : Cleared { r.conn with request := q } :=
    hu.toCleared.congr rfl rfl
  unfold replyIn
  cases hacc : (HttpRequest.parse r.conn.readBuf).1 with
  | false =>
    have hnot : ¬ answerDue (inlineParse io r).conn := by
      rw [hread.rejected io hacc]
      exact fun h => h.1.elim State.noConfusion State.noConfusion
    dsimp only
    rw [secondHalf, answer_not_due io server hnot, if_neg hnot, hread.rejected io hacc,
      if_pos (List.mem_append_right _ (by simp))]
    exact .refuses (hclear _) (by decide : (Status.badRequest, []) ∈ refusals) (hsilent rfl) rfl
  | true =>
    by_cases hm : (HttpRequest.parse r.conn.readBuf).2.method = .unknown
    · have hnot : ¬ answerDue (inlineParse io r).conn := by
        rw [hread.accepted io hacc]
        exact fun h => h.2 hm
      have hbuilt : .prepareHeaders ∉ r.actions ++ [.parse r.conn.readBuf] := by
        rw [List.mem_append, List.mem_singleton]
        exact fun h => h.elim (not_built hq) Action.noConfusion
      dsimp only
      rw [secondHalf, answer_not_due io server hnot, if_neg hnot, hread.accepted io hacc,
        if_neg hbuilt]
      apply Turns.waits (hsilent rfl)
      · rintro (h | h)
        · exact State.noConfusion (hs.symm.trans h)
        · exact State.noConfusion (hs.symm.trans h)
      · exact fun _ => ⟨hacc, hm⟩
    · have hdue : answerDue (inlineParse io r).conn := by
        rw [hread.accepted io hacc]
        exact ⟨.inl hs, hm⟩
      dsimp only
      rw [secondHalf, answer_due io server hdue, if_pos hdue, hread.accepted io hacc]
      apply Turns.answers (hclear _)
      · exact hs
      · rw [HttpRequest.parse_method] at hm ⊢
        exact HttpRequest.methodOf_cases _ hm
      · rw [wire_append, hsilent rfl, prepareResponse_wire]
        rfl

/-- A read leaves its connection as it was, or completes a request. -/
theorem doRead_turns (io : Io) (server : FileServer) {as : List Action}
    (hs : c.state = .reading ∨ c.state = .keepAlive) (hu : Pristine c) (hf : ¬ readFails io c)
    (hw : wire as = []) (hq : work as = []) :
    Turns io server (replyIn io server ((c.doRead io).after as))
      (secondHalf io server ((c.doRead io).after as)) := by
  have hwire : wire ((c.doRead io).after as).actions = [] := by
    rw [Outcome.after_actions, wire_append, hw, doRead_wire]
    rfl
  have hwork : work ((c.doRead io).after as).actions = [] := by
    rw [Outcome.after_actions, work_append, hq, doRead_work]
    rfl
  obtain ⟨⟨hslate, hfile⟩, hstate⟩ := doRead_slate io hf
  have hnext : Pristine ((c.doRead io).after as).conn :=
    pristine_slate c _ hslate.symm hfile.symm hu
  rcases hstate with hstate | hstate
  · have hne {st : State} (hr : st ≠ .reading) (hk : st ≠ .keepAlive) :
        ((c.doRead io).after as).conn.state ≠ st := by
      intro he
      rcases hs with hs | hs
      · exact hr (he ▸ hstate.trans hs)
      · exact hk (he ▸ hstate.trans hs)
    have hp : ((c.doRead io).after as).conn.state ≠ .parsing :=
      hne State.noConfusion State.noConfusion
    obtain ⟨hsame, hreply⟩ := replyIn_idle io server hp fun _ => hnext.request
    rw [hsame, hreply, if_neg (not_built hwork)]
    apply Turns.waits hwire _ (.of_ne hp)
    exact fun h => h.elim (hne State.noConfusion State.noConfusion)
      (hne State.noConfusion State.noConfusion)
  · exact read_turns io server hstate hnext hwire hwork

theorem doParse_accepts (io : Io) (hacc : (HttpRequest.parse c.readBuf).1 = true) :
    c.doParse io = ⟨{ c with request := (HttpRequest.parse c.readBuf).2 }, .none,
      [.parse c.readBuf]⟩ := by
  unfold doParse
  simp only [hacc, if_true]

/-- A request that was left in `PARSING` is parsed twice, and ignored again. -/
theorem parsing_turns (io : Io) (tls : Bool) (server : FileServer) (hc : c.state = .parsing)
    (hi : Ignores c) : Turns io server (c.reply io tls server) (c.advance io tls server) := by
  obtain ⟨hacc, hm⟩ := hi hc
  have hfirst : c.firstHalf io tls = c.doParse io := by
    rw [firstHalf, stateAction, hc]
    apply if_neg
    rw [doParse_accepts io hacc]
    exact fun h => State.noConfusion (hc.symm.trans h.1)
  have hinline : inlineParse io (c.firstHalf io tls) =
      ⟨{ c with request := (HttpRequest.parse c.readBuf).2 }, .none,
        [.parse c.readBuf, .parse c.readBuf]⟩ := by
    have hagain : ({ c with request := (HttpRequest.parse c.readBuf).2 } : Connection).doParse io =
        ⟨{ c with request := (HttpRequest.parse c.readBuf).2 }, .none, [.parse c.readBuf]⟩ :=
      doParse_accepts io hacc
    rw [hfirst, doParse_accepts io hacc, inlineParse, if_pos ⟨hc, hm⟩, hagain]
    rfl
  have hdue : ¬ (inlineParse io (c.firstHalf io tls)).conn.answerDue := by
    rw [hinline]
    exact fun h => h.2 hm
  unfold reply replyIn advance secondHalf
  dsimp only
  rw [if_neg hdue, answer_not_due io server hdue, hinline, if_neg (by simp)]
  apply Turns.waits rfl
  · rintro (h | h)
    · exact State.noConfusion (hc.symm.trans h)
    · exact State.noConfusion (hc.symm.trans h)
  · exact fun _ => ⟨hacc, hm⟩

/-- A step that closes the connection ends the call. -/
theorem closed_turns (server : FileServer) (hc : (c.stateAction io tls).conn.state = .closed)
    (hw : wire (c.stateAction io tls).actions = []) (hq : work (c.stateAction io tls).actions = []) :
    Turns io server (c.reply io tls server) (c.advance io tls server) := by
  have hfirst : c.firstHalf io tls = c.stateAction io tls :=
    if_neg fun h => State.noConfusion (hc.symm.trans h.1)
  unfold reply advance
  rw [hfirst]
  exact (Opening.ends hw hq hc).turns server

/-- What a call of `process_connection` does on a connection that is not in the middle of a
response. -/
theorem advance_turns (io : Io) (tls : Bool) (server : FileServer) (hu : Early Pristine c)
    (hi : Ignores c) (hc : ¬ c.Sending) :
    Turns io server (c.reply io tls server) (c.advance io tls server) := by
  cases hs : c.state with
  | sendingHeaders => exact (hc (.inl hs)).elim
  | sendingBody => exact (hc (.inr hs)).elim
  | parsing => exact parsing_turns io tls server hs hi
  | closed =>
    have hact : c.stateAction io tls = ⟨c, .none, []⟩ := by rw [stateAction, hs]
    apply closed_turns
    · rw [hact]
      exact hs
    · rw [hact]
      rfl
    · rw [hact]
      rfl
  | protoDetect =>
    have hact : c.stateAction io tls = c.doProtoDetect io tls := by rw [stateAction, hs]
    unfold reply advance firstHalf
    rw [hact]
    exact ((doProtoDetect_opening io tls hs (hu (by rw [hs]; rfl))).injectSsl tls).turns server
  | tlsAccept =>
    have hact : c.stateAction io tls = c.doTlsAccept io io.sslAccept := by rw [stateAction, hs]
    unfold reply advance firstHalf
    rw [hact]
    exact ((doTlsAccept_opening io _ hs (hu (by rw [hs]; rfl))).injectSsl tls).turns server
  | reading =>
    have hact : c.stateAction io tls = (c.doRead io).after [] := by
      rw [stateAction, hs]
      rfl
    by_cases hf : readFails io c
    · apply closed_turns
      · rw [hact]
        exact (doRead_ends io (by rw [hs]; exact State.noConfusion)).closed_iff.2 hf
      · rw [hact]
        exact doRead_wire io c
      · rw [hact]
        exact doRead_work io c
    · have hskip := injectSsl_read io tls [] (.inl hs) hf
      unfold reply advance firstHalf
      rw [hact, hskip]
      exact doRead_turns io server (.inl hs) (hu (by rw [hs]; rfl)) hf rfl rfl
  | keepAlive =>
    have hact : c.stateAction io tls = (c.reset.doRead io).after c.closeFileActions := by
      rw [stateAction, hs]
    have hreset : c.reset.state = .keepAlive := hs
    by_cases hf : readFails io c.reset
    · have hlive : c.reset.state ≠ .closed := by
        rw [hreset]
        exact State.noConfusion
      apply closed_turns
      · rw [hact]
        exact (doRead_ends io hlive).closed_iff.2 hf
      · rw [hact, Outcome.after_actions, wire_append, closeFileActions_wire, doRead_wire]
        rfl
      · rw [hact, Outcome.after_actions, work_append, closeFileActions_work, doRead_work]
        rfl
    · have hskip := injectSsl_read io tls c.closeFileActions (.inr hreset) hf
      unfold reply advance firstHalf
      rw [hact, hskip]
      exact doRead_turns io server (.inr hreset) (reset_pristine c) hf (closeFileActions_wire c)
        (closeFileActions_work c)

/-- A call that goes on with a response builds no other. -/
theorem reply_sending (io : Io) (tls : Bool) (server : FileServer) (hc : c.Sending) :
    c.reply io tls server = none := by
  have hset := stateAction_settled io tls hc
  have hfirst : c.firstHalf io tls = c.stateAction io tls := if_neg fun h => hset.1 h.1
  have hwork : work (c.stateAction io tls).actions = [] := by
    rcases hc with hc | hc
    · rw [stateAction, hc]
      exact (doSendHeaders_sends io c).work
    · rw [stateAction, hc]
      exact (doSendBody_sends io c).work
  obtain ⟨_, hreply⟩ := replyIn_idle io server (r := c.stateAction io tls)
    hset.2.1 fun h => absurd h hset.2.2
  rw [reply, hfirst, hreply, if_neg (not_built hwork)]

end Connection

end FileWebServer
