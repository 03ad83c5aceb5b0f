import FileWebServer.Lib.Checked
import FileWebServer.Core.Answer

namespace FileWebServer
set_option autoImplicit true

namespace Connection
variable {c d : Connection} {r r' : Outcome} {io : Io}

/-- `onSent`, where what comes after the bytes taken may fail a check. -/
def checkedOnSent (c : Connection) (attempt : Sent × List Action) (next : Nat → Option Outcome) :
    Option Outcome :=
  match attempt with
  | (.wait want, actions) => some ⟨c, want, actions⟩
  | (.fatal, actions) => some (c.hangUp actions)
  | (.bytes n, actions) => (next n).map fun r => r.after actions

/-- The second half of `do_send_body_tls`, with a check of the bounds of the chunk, of the
difference `chunk_used_ - chunk_sent_` and of the pointer that `SSL_write` gets. -/
def checkedSendChunk (io : Io) (c : Connection) : Option Outcome :=
  if c.chunkSent < c.chunkUsed ∧ c.chunkUsed ≤ c.chunkBuf.length ∧
      c.chunkBuf.length ≤ chunkSize then do
    let offered ← Checked.rest c.chunkBuf c.chunkUsed c.chunkSent
    c.checkedOnSent (sslWrite c.ssl io.bodySslWrite offered) fun n =>
      let c := { c with chunkSent := c.chunkSent + n }
      if c.chunkUsed ≤ c.chunkSent then
        some ⟨{ c with
            sendOffset := c.sendOffset + c.chunkUsed
            sendRemaining := c.sendRemaining - c.chunkUsed },
          .write, []⟩
      else some ⟨c, .write, []⟩
  else none

def checkedSendBodyTls (io : Io) (c : Connection) : Option Outcome :=
  if c.chunkUsed ≤ c.chunkSent then
    if c.sendRemaining ≤ 0 then some (c.finishFile [])
    else
      let data := c.readChunk io
      let action := Action.pread c.fileFd c.sendOffset data
      if data = [] then some ({ c with chunkBuf := resize c.chunkBuf c.toRead }.hangUp [action])
      else ((c.loadChunk data).checkedSendChunk io).map fun r => r.after [action]
  else checkedSendChunk io c

/-- The in-memory branch of `do_send_body`, with a check of `body.size() - body_sent_` and of the
pointer that is written from. -/
def checkedSendBodyMemory (io : Io) (c : Connection) : Option Outcome := do
  let body := c.response.body
  let remaining ← Checked.sub body.length c.bodySent
  if remaining = 0 then some ⟨{ c with state := .keepAlive }, .read, []⟩
  else do
    let offered ← Checked.window body c.bodySent remaining
    c.checkedOnSent (c.transmit io.bodyWrite io.bodySslWrite offered) fun n =>
      let c := { c with bodySent := c.bodySent + n }
      if body.length ≤ c.bodySent then some ⟨{ c with state := .keepAlive }, .read, []⟩
      else some ⟨c, .write, []⟩

def checkedSendBody (io : Io) (c : Connection) : Option Outcome :=
  if c.fileFd < 0 ∧ c.response.hasBody then checkedSendBodyMemory io c
  else if c.isTls then checkedSendBodyTls io c
  else some (doSendBodyPlain io c)

def checkedHeadersSent (io : Io) (c : Connection) : Option Outcome :=
  if c.bodiless then some ⟨{ c with state := .keepAlive }, .read, []⟩
  else checkedSendBody io { c with state := .sendingBody }

/-- `do_send_headers`, with a check of `header_buf_.size() - header_sent_` and of the pointer that
is written from. -/
def checkedSendHeaders (io : Io) (c : Connection) : Option Outcome := do
  let offered ← Checked.rest c.headerBuf c.headerBuf.length c.headerSent
  c.checkedOnSent (c.transmit io.headerWrite io.headerSslWrite offered) fun n =>
    let c := { c with headerSent := c.headerSent + n }
    if c.headerBuf.length ≤ c.headerSent then checkedHeadersSent io c
    else some ⟨c, .write, []⟩

/-- The switch of `process_connection`. -/
def checkedStateAction (io : Io) (tls : Bool) (c : Connection) : Option Outcome :=
  match c.state with
  | .sendingHeaders => c.checkedSendHeaders io
  | .sendingBody => c.checkedSendBody io
  | _ => some (c.stateAction io tls)

def checkedFirstHalf (io : Io) (tls : Bool) (c : Connection) : Option Outcome :=
  (c.checkedStateAction io tls).map (injectSsl io tls)

def checkedAnswer (io : Io) (server : FileServer) (r : Outcome) : Option Outcome :=
  if (r.conn.state = .parsing ∨ r.conn.state = .reading) ∧ r.conn.request.method ≠ .unknown then
    let (c, actions) := r.conn.prepareResponse io server
    (c.checkedSendHeaders io).map fun sent => sent.after (r.actions ++ actions)
  else some r

def checkedSecondHalf (io : Io) (server : FileServer) (r : Outcome) : Option Outcome :=
  checkedAnswer io server (inlineParse io r)

/-- A chunk that is sent lies in its buffer. The two lemmas after this one tell the same of a body
and of a header block. -/
theorem checkedSendChunk_some (h : c.checkedSendChunk io = some r) :
    c.chunkSent < c.chunkUsed ∧ c.chunkUsed ≤ c.chunkBuf.length ∧
      c.chunkBuf.length ≤ chunkSize := by
  unfold checkedSendChunk at h
  split at h
  · next hcheck => exact hcheck
  · cases h

theorem checkedSendBodyMemory_some (h : c.checkedSendBodyMemory io = some r) :
    c.bodySent ≤ c.response.body.length := by
  unfold checkedSendBodyMemory at h
  obtain ⟨_, hsub, _⟩ := Option.bind_eq_some_iff.1 h
  unfold Checked.sub at hsub
  split at hsub
  · next hle => exact hle
  · cases hsub

theorem checkedSendHeaders_some (h : c.checkedSendHeaders io = some r) :
    c.headerSent ≤ c.headerBuf.length := by
  unfold checkedSendHeaders at h
  obtain ⟨_, hrest, _⟩ := Option.bind_eq_some_iff.1 h
  exact (Checked.rest_eq_some_iff.1 hrest).1

/-- The cursors of a connection lie within their buffers. The one into the chunk is told of only
while something of the chunk is left. -/
structure InBounds (c : Connection) : Prop where
  header : c.headerSent ≤ c.headerBuf.length
  unbegun : c.state ≠ .sendingBody → c.state ≠ .keepAlive → c.bodySent = 0
  body : c.state = .sendingBody → c.bodySent ≤ c.response.body.length
  chunk : c.chunkSent < c.chunkUsed →
    c.chunkUsed ≤ c.chunkBuf.length ∧ c.chunkBuf.length ≤ chunkSize

/-- In bounds, in whatever state: nothing of a body has been sent. -/
structure Poised (c : Connection) : Prop where
  header : c.headerSent ≤ c.headerBuf.length
  body : c.bodySent = 0
  chunk : c.chunkSent < c.chunkUsed →
    c.chunkUsed ≤ c.chunkBuf.length ∧ c.chunkBuf.length ≤ chunkSize

/-- A closed connection sends nothing. -/
def Contained (c : Connection) : Prop := c.state ≠ .closed → InBounds c

theorem Poised.inBounds (h : Poised c) : InBounds c :=
  ⟨h.header, fun _ _ => h.body, fun _ => h.body ▸ Nat.zero_le _, h.chunk⟩

theorem Poised.contained (h : Poised c) : Contained c := fun _ => h.inBounds

theorem Contained.poised {state : State} (h : Contained c) (hs : c.state = state)
    (hstate : state ≠ .closed ∧ state ≠ .sendingBody ∧ state ≠ .keepAlive) : Poised c := by
  rw [← hs] at hstate
  obtain ⟨hlive, hb, hk⟩ := hstate
  exact ⟨(h hlive).header, (h hlive).unbegun hb hk, (h hlive).chunk⟩

theorem contained_hangUp (c : Connection) (as : List Action) : Contained (c.hangUp as).conn :=
  fun h => absurd (close_state c) h

/-- Nothing is asked of a body that has been sent. -/
theorem contained_keepAlive (hs : d.state = .keepAlive)
    (hheader : d.headerSent ≤ d.headerBuf.length) (hchunk : d.chunkSent < d.chunkUsed →
      d.chunkUsed ≤ d.chunkBuf.length ∧ d.chunkBuf.length ≤ chunkSize) : Contained d := by
  intro _
  refine ⟨hheader, fun _ hk => absurd hs hk, fun hb => ?_, hchunk⟩
  rw [hs] at hb
  cases hb

/-- A checked call that goes as the unchecked one does, and leaves the connection in bounds. -/
structure Passes (checked : Option Outcome) (r : Outcome) : Prop where
  agrees : checked = some r
  contained : Contained r.conn

theorem Passes.after (h : Passes checked r) (as : List Action) :
    Passes (checked.map fun r => r.after as) (r.after as) := by
  constructor
  · rw [h.agrees]
    rfl
  · exact h.contained

theorem checkedOnSent_passes {attempt : Sent × List Action} {next : Nat → Outcome}
    {next' : Nat → Option Outcome} (h : Contained c)
    (hnext : ∀ n, attempt.1 = .bytes n → Passes (next' n) (next n)) :
    Passes (c.checkedOnSent attempt next') (c.onSent attempt next) := by
  obtain ⟨sent, as⟩ := attempt
  cases sent with
  | bytes n => exact (hnext n rfl).after as
  | wait want => exact ⟨rfl, h⟩
  | fatal => exact ⟨rfl, contained_hangUp c as⟩

theorem sendChunk_passes (io : Io) (h : InBounds c) (hleft : c.chunkSent < c.chunkUsed) :
    Passes (c.checkedSendChunk io) (c.sendChunk io) := by
  obtain ⟨hused, hsize⟩ := h.chunk hleft
  have hrest : Checked.rest c.chunkBuf c.chunkUsed c.chunkSent = some c.chunkRest :=
    Checked.rest_eq_some_iff.2 ⟨Nat.le_of_lt hleft, hused, rfl⟩
  have hcheck : c.chunkSent < c.chunkUsed ∧ c.chunkUsed ≤ c.chunkBuf.length ∧
      c.chunkBuf.length ≤ chunkSize := ⟨hleft, hused, hsize⟩
  unfold checkedSendChunk sendChunk
  rw [if_pos hcheck, hrest]
  apply checkedOnSent_passes fun _ => h
  intro n _
  dsimp only
  split
  · exact ⟨rfl, fun _ => ⟨h.header, h.unbegun, h.body, fun _ => ⟨hused, hsize⟩⟩⟩
  · exact ⟨rfl, fun _ => ⟨h.header, h.unbegun, h.body, fun _ => ⟨hused, hsize⟩⟩⟩

theorem resize_length (buf : Bytes) (n : Nat) : (resize buf n).length = n := by
  rw [resize, List.length_append, List.length_take, List.length_replicate]
  omega

theorem loadChunk_length {data : Bytes} (h : data.length ≤ c.toRead) :
    (c.loadChunk data).chunkBuf.length = c.toRead := by
  rw [loadChunk, List.length_append, List.length_drop, resize_length]
  omega

theorem InBounds.loadChunk {data : Bytes} (h : InBounds c) (hd : data.length ≤ c.toRead) :
    InBounds (c.loadChunk data) := by
  refine ⟨h.header, h.unbegun, h.body, fun _ => ?_⟩
  rw [loadChunk_length hd]
  exact ⟨hd, Nat.min_le_right ..⟩

theorem doSendBodyTls_passes (io : Io) (h : InBounds c) :
    Passes (c.checkedSendBodyTls io) (c.doSendBodyTls io) := by
  unfold checkedSendBodyTls doSendBodyTls
  by_cases hsent : c.chunkUsed ≤ c.chunkSent
  · rw [if_pos hsent, if_pos hsent]
    by_cases hrem : c.sendRemaining ≤ 0
    · rw [if_pos hrem, if_pos hrem]
      exact ⟨rfl, contained_keepAlive rfl h.header h.chunk⟩
    · rw [if_neg hrem, if_neg hrem]
      dsimp only
      by_cases hdata : c.readChunk io = []
      · rw [if_pos hdata, if_pos hdata]
        exact ⟨rfl, contained_hangUp _ _⟩
      · rw [if_neg hdata, if_neg hdata]
        have hload := h.loadChunk (readChunk_length_le io c)
        exact (sendChunk_passes io hload (List.length_pos_of_ne_nil hdata)).after _
  · rw [if_neg hsent, if_neg hsent]
    exact sendChunk_passes io h (Nat.lt_of_not_le hsent)

theorem doSendBodyPlain_contained (io : Io) (h : InBounds c) :
    Contained (c.doSendBodyPlain io).conn := by
  unfold doSendBodyPlain
  split
  · exact contained_keepAlive rfl h.header h.chunk
  · dsimp only
    split
    · exact contained_hangUp _ _
    · cases io.sendfile with
      | done => exact contained_keepAlive rfl h.header h.chunk
      | again n => exact fun _ => ⟨h.header, h.unbegun, h.body, h.chunk⟩
      | error n => exact contained_hangUp _ _

theorem doSendBodyMemory_passes (io : Io) (h : InBounds c) (hs : c.state = .sendingBody) :
    Passes (c.checkedSendBodyMemory io) (c.doSendBodyMemory io) := by
  have hbody := h.body hs
  unfold checkedSendBodyMemory doSendBodyMemory
  dsimp only
  rw [Checked.sub_eq_some hbody]
  change Passes (if c.response.body.length - c.bodySent = 0 then _ else _) _
  by_cases hall : c.response.body.length ≤ c.bodySent
  · rw [if_pos (Nat.sub_eq_zero_of_le hall), if_pos hall]
    exact ⟨rfl, contained_keepAlive rfl h.header h.chunk⟩
  · rw [if_neg (by omega), if_neg hall, Checked.window_eq_some hbody (Nat.le_refl _),
      List.take_length]
    apply checkedOnSent_passes fun _ => h
    intro n hn
    have hle := transmit_le hn
    rw [List.length_drop] at hle
    split
    · exact ⟨rfl, contained_keepAlive rfl h.header h.chunk⟩
    · refine ⟨rfl, fun _ => ⟨h.header, fun hb => absurd hs hb, fun _ => ?_, h.chunk⟩⟩
      change c.bodySent + n ≤ c.response.body.length
      omega

theorem doSendBody_passes (io : Io) (h : InBounds c) (hs : c.state = .sendingBody) :
    Passes (c.checkedSendBody io) (c.doSendBody io) := by
  unfold checkedSendBody doSendBody
  split
  · exact doSendBodyMemory_passes io h hs
  · split
    · exact doSendBodyTls_passes io h
    · exact ⟨rfl, doSendBodyPlain_contained io h⟩

theorem headersSent_passes (io : Io) (h : Poised c) :
    Passes (c.checkedHeadersSent io) (c.headersSent io) := by
  unfold checkedHeadersSent headersSent
  split
  · exact ⟨rfl, contained_keepAlive rfl h.header h.chunk⟩
  · have hsending : Poised { c with state := .sendingBody } := ⟨h.header, h.body, h.chunk⟩
    exact doSendBody_passes io hsending.inBounds rfl

theorem doSendHeaders_passes (io : Io) (h : Poised c) :
    Passes (c.checkedSendHeaders io) (c.doSendHeaders io) := by
  have hrest : Checked.rest c.headerBuf c.headerBuf.length c.headerSent = some c.headerRest := by
    apply Checked.rest_eq_some_iff.2
    refine ⟨h.header, Nat.le_refl _, ?_⟩
    rw [List.take_length]
    rfl
  unfold checkedSendHeaders doSendHeaders
  rw [hrest]
  apply checkedOnSent_passes h.contained
  intro n hn
  have hle := transmit_le hn
  rw [headerRest, List.length_drop] at hle
  have hmoved : Poised { c with headerSent := c.headerSent + n } := by
    refine ⟨?_, h.body, h.chunk⟩
    have hheader := h.header
    change c.headerSent + n ≤ c.headerBuf.length
    omega
  dsimp only
  split
  · exact headersSent_passes io hmoved
  · exact ⟨rfl, hmoved.contained⟩

/-- A header block that has been built has not been sent. -/
theorem Poised.built (h : Poised c) (hheader : d.headerSent = 0) (hbody : d.bodySent = c.bodySent)
    (hchunk : (d.chunkSent, d.chunkUsed, d.chunkBuf) = (c.chunkSent, c.chunkUsed, c.chunkBuf)) :
    Poised d := by
  simp only [Prod.mk.injEq] at hchunk
  obtain ⟨hsent, hused, hbuf⟩ := hchunk
  constructor
  · rw [hheader]
    exact Nat.zero_le _
  · exact hbody.trans h.body
  · rw [hsent, hused, hbuf]
    exact h.chunk

theorem doProtoDetect_contained (io : Io) (tls : Bool) (h : Poised c) :
    Contained (c.doProtoDetect io tls).conn := by
  unfold doProtoDetect
  rcases io.peek with (_ | b) | _ | _
  · exact contained_hangUp _ _
  · dsimp only
    split
    · split
      · exact Poised.contained ⟨h.header, h.body, h.chunk⟩
      · exact Poised.contained (h.built rfl rfl rfl)
    · exact Poised.contained ⟨h.header, h.body, h.chunk⟩
  · exact h.contained
  · exact contained_hangUp _ _

theorem doTlsAccept_contained (io : Io) (ret : SslResult Unit) (h : Poised c) :
    Contained (c.doTlsAccept io ret).conn := by
  cases ret with
  | done => exact Poised.contained ⟨h.header, h.body, h.chunk⟩
  | wantRead => exact h.contained
  | wantWrite => exact h.contained
  | error => exact Poised.contained (h.built rfl rfl rfl)

theorem received_contained (data : Bytes) (as : List Action) (h : Poised c) :
    Contained (c.received data as).conn := by
  unfold received
  dsimp only
  split
  · exact Poised.contained ⟨h.header, h.body, h.chunk⟩
  · split
    · exact contained_hangUp _ _
    · exact Poised.contained ⟨h.header, h.body, h.chunk⟩

theorem doRead_contained (io : Io) (h : Poised c) : Contained (c.doRead io).conn := by
  have htouch : Poised (c.touch io.now) := ⟨h.header, h.body, h.chunk⟩
  obtain ⟨as, _, ⟨want, hd⟩ | ⟨data, _, hd⟩ | ⟨buf, _, hd⟩⟩ := doRead_forms io c
  · rw [hd]
    exact htouch.contained
  · rw [hd]
    exact received_contained data as htouch
  · rw [hd]
    exact contained_hangUp _ _

theorem doParse_contained (io : Io) (h : Poised c) : Contained (c.doParse io).conn := by
  unfold doParse
  dsimp only
  split
  · exact Poised.contained ⟨h.header, h.body, h.chunk⟩
  · exact Poised.contained (h.built rfl rfl rfl)

theorem reset_poised (c : Connection) : Poised c.reset :=
  ⟨Nat.le_refl _, rfl, fun h => absurd h (Nat.lt_irrefl 0)⟩

theorem prepareFile_poised (io : Io) (info : FileInfo) (h : Poised c) :
    Poised (c.prepareFile io info).1 := by
  obtain ⟨hheader, hbody, hchunk⟩ := prepareFile_cursors io info c
  exact h.built hheader hbody hchunk

theorem prepareResponse_poised (io : Io) (server : FileServer) (h : Poised c) :
    Poised (c.prepareResponse io server).1 := by
  have hblank : Poised c.blank := ⟨h.header, h.body, h.chunk⟩
  rcases prepareResponse_cases io server c with ⟨status, body, hp, _⟩ | ⟨info, hp, _⟩
  · rw [hp]
    exact hblank.built rfl rfl rfl
  · rw [hp]
    exact prepareFile_poised io info hblank

/-- A connection passes the checks in whatever state it is. -/
theorem stateAction_passes (io : Io) (tls : Bool) (h : Contained c) :
    Passes (c.checkedStateAction io tls) (c.stateAction io tls) := by
  unfold checkedStateAction stateAction
  cases hs : c.state with
  | closed => exact ⟨rfl, h⟩
  | protoDetect => exact ⟨rfl, doProtoDetect_contained io tls (h.poised hs (by decide))⟩
  | tlsAccept => exact ⟨rfl, doTlsAccept_contained io _ (h.poised hs (by decide))⟩
  | reading => exact ⟨rfl, doRead_contained io (h.poised hs (by decide))⟩
  | parsing => exact ⟨rfl, doParse_contained io (h.poised hs (by decide))⟩
  | sendingHeaders => exact doSendHeaders_passes io (h.poised hs (by decide))
  | sendingBody => exact doSendBody_passes io (h (by rw [hs]; exact State.noConfusion)) hs
  | keepAlive => exact ⟨rfl, doRead_contained io (reset_poised c)⟩

theorem firstHalf_passes (io : Io) (tls : Bool) (h : Contained c) :
    Passes (c.checkedFirstHalf io tls) (c.firstHalf io tls) := by
  have hact := stateAction_passes io tls h
  unfold checkedFirstHalf firstHalf
  rw [hact.agrees]
  refine ⟨rfl, ?_⟩
  unfold injectSsl
  split
  · next ht =>
    have hpoised := hact.contained.poised ht.1 (by decide)
    exact doTlsAccept_contained io _ ⟨hpoised.header, hpoised.body, hpoised.chunk⟩
  · exact hact.contained

theorem inlineParse_contained (io : Io) (h : Contained r.conn) :
    Contained (inlineParse io r).conn := by
  unfold inlineParse
  split
  · next hp => exact doParse_contained io (h.poised hp.1 (by decide))
  · exact h

theorem answer_passes (io : Io) (server : FileServer) (h : Contained r.conn) :
    Passes (checkedAnswer io server r) (answer io server r) := by
  unfold checkedAnswer answer
  split
  · next hd =>
    have hpoised : Poised r.conn := by
      rcases hd.1 with hs | hs
      · exact h.poised hs (by decide)
      · exact h.poised hs (by decide)
    exact (doSendHeaders_passes io (prepareResponse_poised io server hpoised)).after _
  · exact ⟨rfl, h⟩

theorem secondHalf_passes (io : Io) (server : FileServer) (h : Contained r.conn) :
    Passes (checkedSecondHalf io server r) (secondHalf io server r) :=
  answer_passes io server (inlineParse_contained io h)

theorem contained_invariant : ConnInvariant Contained := by
  constructor
  · exact fun c => ⟨fun h hl => ⟨(h hl).header, (h hl).unbegun, (h hl).body, (h hl).chunk⟩,
      fun h hl => ⟨(h hl).header, (h hl).unbegun, (h hl).body, (h hl).chunk⟩⟩
  · exact fun c hc hl => absurd hc hl
  · exact fun c fd root timeout now tls =>
      Poised.contained ⟨Nat.zero_le _, rfl, fun h => absurd h (Nat.lt_irrefl 0)⟩
  · intro c io tls server _ _ h
    exact (secondHalf_passes io server (firstHalf_passes io tls h).contained).contained

end Connection

namespace EventLoop
open Connection
variable {s : EventLoop}

/-- `process_connection`, with the checks of what it sends. -/
def checkedProcessConnection (s : EventLoop) (io : Io) (i : Nat) : Option EventLoop :=
  let c := s.conn i
  if c.isClosed then some s
  else do
    let r ← c.checkedFirstHalf io s.tlsCtx
    if r.conn.isClosed then some ((s.writeBack i r).destroyConnection i)
    else do
      let r ← checkedSecondHalf io s.fileServer r
      some (((s.writeBack i r).syncKeepaliveList i c.state).updateEvents i r.want)

/-- A step of `run`, with the checks of what is sent in it. It is not defined where one fails. -/
def checkedStep (s : EventLoop) : Input → Option EventLoop
  | .kevent => some (s.step .kevent)
  | .event ev io =>
    if ev.error ∨ ev.eof then some (s.dispatch io ev)
    else match ev.udata with
      | .conn i => s.checkedProcessConnection io i
      | _ => some (s.dispatch io ev)

theorem checkedProcessConnection_eq (io : Io) (i : Nat) (h : Contained (s.conn i)) :
    s.checkedProcessConnection io i = some (s.processConnection io i) := by
  have hfirst := firstHalf_passes io s.tlsCtx h
  have hsecond := secondHalf_passes io s.fileServer hfirst.contained
  unfold checkedProcessConnection processConnection
  dsimp only
  split
  · rfl
  · rw [hfirst.agrees]
    change (if _ then _ else _) = _
    split
    · rfl
    · rw [hsecond.agrees]
      rfl

theorem checkedStep_eq (h : ∀ i, Contained (s.conn i)) (input : Input) :
    s.checkedStep input = some (s.step input) := by
  cases input with
  | kevent => rfl
  | event ev io =>
    change _ = some (s.dispatch io ev)
    unfold checkedStep
    dsimp only
    by_cases hend : ev.error = true ∨ ev.eof = true
    · rw [if_pos hend]
    · rw [if_neg hend]
      cases hu : ev.udata with
      | conn i =>
        rw [dispatch_conn io hu, if_neg hend]
        exact checkedProcessConnection_eq io i (h i)
      | null => rfl
      | listener => rfl
      | timer => rfl

/-- In every run, whatever is read and however much is written, every header block, every body in
memory and every chunk is sent from within its buffer, and no difference of cursors wraps: all the
checks are passed. The bounds hold between the steps, too. -/
theorem sends_within_buffers (server : FileServer) (timeout : Int) (tls : Bool)
    (inputs : List Input) :
    inputs.foldlM checkedStep (create server timeout tls) =
        some (inputs.foldl step (create server timeout tls)) ∧
      ∀ i, ((inputs.foldl step (create server timeout tls)).conn i).Contained := by
  constructor
  · apply Run.foldlM_eq_foldl fun s => ∀ i, Contained (s.conn i)
    · exact fun s input h => checkedStep_eq h input
    · exact fun s input h => ConnInvariant.input contained_invariant h input
    · exact fun i => contained_invariant.closed _ rfl
  · exact (reachable_run server timeout tls inputs).conn contained_invariant

end EventLoop

end FileWebServer
