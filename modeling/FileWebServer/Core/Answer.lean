import FileWebServer.Core.Reachable

namespace FileWebServer
open Search
set_option autoImplicit true

/-- The actions that work on a request or build a response. -/
def Action.isWork : Action → Bool
  | .parse _ | .prepareResponse | .prepareHeaders => true
  | _ => false

def work (actions : List Action) : List Action := actions.filter Action.isWork

@[simp] theorem work_nil : work [] = [] := rfl

@[simp] theorem work_append (as bs : List Action) : work (as ++ bs) = work as ++ work bs :=
  List.filter_append ..

/-- Before any request has been read. -/
def State.isEarly : State → Bool
  | .protoDetect | .tlsAccept | .reading => true
  | _ => false

namespace Connection
variable {c d : Connection} {r r' : Outcome}

/-- The request and the response of a connection. -/
def message (c : Connection) : Bytes × HttpRequest × HttpResponse × Bytes × Bool :=
  (c.readBuf, c.request, c.response, c.headerBuf, c.isHead)

/-- A step that neither works on a request nor builds a response. -/
structure Sends (c : Connection) (r : Outcome) : Prop where
  message : r.conn.message = c.message
  work : work r.actions = []

theorem Sends.after (h : r.conn.message = c.message) (hw : FileWebServer.work as = [])
    (h' : Sends r.conn r') : Sends c (r'.after as) := by
  refine ⟨h'.message.trans h, ?_⟩
  rw [Outcome.after_actions, work_append, hw, h'.work]
  rfl

theorem Sends.base (h : Sends d r) (hm : d.message = c.message) : Sends c r :=
  ⟨h.message.trans hm, h.work⟩

theorem close_message (c : Connection) : c.close.message = c.message := by
  unfold close
  split <;> rfl

theorem closeFileActions_work (c : Connection) : work c.closeFileActions = [] := by
  unfold closeFileActions
  split <;> rfl

theorem closeActions_work (c : Connection) : work c.closeActions = [] := by
  unfold closeActions
  split
  · rfl
  · rw [work_append, work_append, closeFileActions_work]
    cases c.ssl with
    | none => split <;> rfl
    | some => split <;> rfl

theorem hangUp_sends {as : List Action} (hm : d.message = c.message) (hw : work as = []) :
    Sends c (d.hangUp as) := by
  refine ⟨(close_message d).trans hm, ?_⟩
  rw [hangUp, work_append, hw, closeActions_work]
  rfl

theorem sslWrite_work (ssl : Option Nat) (ret : SslResult Nat) (offered : Bytes) :
    work (sslWrite ssl ret offered).2 = [] := by
  unfold sslWrite
  cases ret with
  | done n =>
    dsimp only
    split <;> rfl
  | wantRead => rfl
  | wantWrite => rfl
  | error => rfl

theorem transmit_work (c : Connection) (ret : SysResult Nat) (sslRet : SslResult Nat)
    (offered : Bytes) : work (c.transmit ret sslRet offered).2 = [] := by
  unfold transmit
  cases c.ssl with
  | none => cases ret <;> rfl
  | some => exact sslWrite_work ..

theorem onSent_sends {attempt : Sent × List Action} {next : Nat → Outcome}
    (hw : work attempt.2 = []) (hnext : ∀ n, Sends c (next n)) :
    Sends c (c.onSent attempt next) := by
  obtain ⟨sent, as⟩ := attempt
  cases sent with
  | bytes n => exact Sends.after (r := ⟨c, .none, []⟩) rfl hw (hnext n)
  | wait want => exact ⟨rfl, hw⟩
  | fatal => exact hangUp_sends rfl hw

theorem finishFile_sends {as : List Action} (hm : d.message = c.message) (hw : work as = []) :
    Sends c (d.finishFile as) := by
  refine ⟨hm, ?_⟩
  rw [finishFile, work_append, hw, closeFileActions_work]
  rfl

theorem sendChunk_sends (io : Io) (c : Connection) : Sends c (sendChunk io c) := by
  refine onSent_sends (sslWrite_work ..) fun n => ?_
  dsimp only
  split
  · exact ⟨rfl, rfl⟩
  · exact ⟨rfl, rfl⟩

theorem doSendBodyTls_sends (io : Io) (c : Connection) : Sends c (doSendBodyTls io c) := by
  unfold doSendBodyTls
  split
  · split
    · exact finishFile_sends rfl rfl
    · dsimp only
      split
      · exact hangUp_sends rfl rfl
      · refine Sends.after (r := ⟨_, .none, []⟩) ?_ rfl (sendChunk_sends io _)
        rfl
  · exact sendChunk_sends io c

theorem doSendBodyPlain_sends (io : Io) (c : Connection) : Sends c (doSendBodyPlain io c) := by
  unfold doSendBodyPlain
  split
  · exact finishFile_sends rfl rfl
  · dsimp only
    split
    · exact hangUp_sends rfl rfl
    · cases io.sendfile with
      | done => exact finishFile_sends rfl rfl
      | again n => exact ⟨rfl, rfl⟩
      | error n => exact hangUp_sends rfl rfl

theorem doSendBodyMemory_sends (io : Io) (c : Connection) : Sends c (doSendBodyMemory io c) := by
  unfold doSendBodyMemory
  dsimp only
  split
  · exact ⟨rfl, rfl⟩
  · refine onSent_sends (transmit_work ..) fun n => ?_
    split
    · exact ⟨rfl, rfl⟩
    · exact ⟨rfl, rfl⟩

theorem doSendBody_sends (io : Io) (c : Connection) : Sends c (doSendBody io c) := by
  unfold doSendBody
  split
  · exact doSendBodyMemory_sends io c
  · split
    · exact doSendBodyTls_sends io c
    · exact doSendBodyPlain_sends io c

theorem headersSent_sends (io : Io) (c : Connection) : Sends c (headersSent io c) := by
  unfold headersSent
  split
  · exact ⟨rfl, rfl⟩
  · exact (doSendBody_sends io _).base rfl

theorem doSendHeaders_sends (io : Io) (c : Connection) : Sends c (doSendHeaders io c) := by
  refine onSent_sends (transmit_work ..) fun n => ?_
  dsimp only
  split
  · exact (headersSent_sends io _).base rfl
  · exact ⟨rfl, rfl⟩

@[simp] theorem touch_ssl (c : Connection) (now : Int) : (c.touch now).ssl = c.ssl := rfl

/-- A read of some bytes, over either transport. -/
theorem doRead_data {io : Io} {data : Bytes} (c : Connection) (hd : data ≠ [])
    (hio : if c.isTls then io.sslRead = .done data else io.read = .done data) :
    ∃ as, work as = [] ∧ c.doRead io = (c.touch io.now).received (data.take 4096) as := by
  unfold isTls at hio
  cases hs : c.ssl with
  | some ssl =>
    rw [hs] at hio
    have hr : io.sslRead = .done data := hio
    refine ⟨[.errClearError, .sslRead ssl (.done (data.take 4096))], rfl, ?_⟩
    simp [doRead, hs, hr, hd]
  | none =>
    rw [hs] at hio
    have hr : io.read = .done data := hio
    refine ⟨[.read c.fd (data.take 4096)], rfl, ?_⟩
    simp only [doRead, touch_ssl, hs, hr, if_neg hd]
    rfl

/-- A read that does not fail brings some bytes, or none yet. -/
theorem doRead_cases (io : Io) (hf : ¬ readFails io c) :
    (∃ want as, work as = [] ∧ c.doRead io = ⟨c.touch io.now, want, as⟩) ∨
    ∃ data as, work as = [] ∧ ¬ c.overflows data ∧
      c.doRead io = (c.touch io.now).received data as := by
  have hdata {data : Bytes}
      (hio : if c.isTls then io.sslRead = .done data else io.read = .done data)
      (hr : ¬ (data = [] ∨ c.overflows (data.take 4096))) :
      ∃ data as, work as = [] ∧ ¬ c.overflows data ∧
        c.doRead io = (c.touch io.now).received data as := by
    obtain ⟨hne, hover⟩ := not_or.1 hr
    obtain ⟨as, has, hd⟩ := doRead_data c hne hio
    exact ⟨_, as, has, hover, hd⟩
  unfold readFails at hf
  cases hs : c.ssl with
  | some ssl =>
    rw [hs] at hf
    cases hr : io.sslRead with
    | done data =>
      rw [hr] at hf
      exact .inr (hdata (by simp [isTls, hs, hr]) hf)
    | wantRead =>
      refine .inl ⟨.read, [.errClearError, .sslRead ssl .wantRead, .sslGetError], rfl, ?_⟩
      simp [doRead, hs, hr]
    | wantWrite =>
      refine .inl ⟨.write, [.errClearError, .sslRead ssl .wantWrite, .sslGetError], rfl, ?_⟩
      simp [doRead, hs, hr]
    | error =>
      rw [hr] at hf
      exact (hf trivial).elim
  | none =>
    rw [hs] at hf
    cases hr : io.read with
    | done data =>
      rw [hr] at hf
      exact .inr (hdata (by simp [isTls, hs, hr]) hf)
    | again =>
      refine .inl ⟨.read, [.read c.fd []], rfl, ?_⟩
      simp only [doRead, touch_ssl, hs, hr]
      rfl
    | error =>
      rw [hr] at hf
      exact (hf trivial).elim

/-- Without an overflow, the end of the headers decides on the state. -/
theorem received_cases {data : Bytes} (as : List Action) (h : ¬ c.overflows data) :
    ((find crlfcrlf (c.readBuf ++ data)).isSome ∧ c.received data as =
      ⟨{ c with readBuf := c.readBuf ++ data, headersComplete := true, state := .parsing },
        .none, as⟩) ∨
    (find crlfcrlf (c.readBuf ++ data) = none ∧
      c.received data as = ⟨{ c with readBuf := c.readBuf ++ data }, .read, as⟩) := by
  cases hf : find crlfcrlf (c.readBuf ++ data) with
  | some i => exact .inl ⟨rfl, received_complete (by simp [hf])⟩
  | none =>
    refine .inr ⟨rfl, ?_⟩
    rw [received_incomplete hf, if_neg]
    exact fun hl => h ⟨hf, hl⟩

/-- A read that does not end the connection changes its buffer, and maybe its state. -/
theorem doRead_goes_on (io : Io) (hf : ¬ readFails io c) :
    ∃ buf complete state want as, work as = [] ∧ (state = c.state ∨ state = .parsing) ∧
      c.doRead io = ⟨{ c.touch io.now with
        readBuf := buf
        headersComplete := complete
        state := state }, want, as⟩ := by
  rcases doRead_cases io hf with ⟨want, as, has, hd⟩ | ⟨data, as, has, hover, hd⟩
  · exact ⟨_, _, _, want, as, has, .inl rfl, hd⟩
  · have hover' : ¬ (c.touch io.now).overflows data := hover
    rw [hd]
    rcases received_cases as hover' with ⟨_, hrec⟩ | ⟨_, hrec⟩
    · exact ⟨_, _, _, _, as, has, .inr rfl, hrec⟩
    · exact ⟨_, _, _, _, as, has, .inl rfl, hrec⟩

/-- What a built response looks like. -/
structure Built (io : Io) (c : Connection) (p : Connection × List Action) : Prop where
  request : p.1.request = c.request
  readBuf : p.1.readBuf = c.readBuf
  isHead : p.1.isHead = c.isHead
  header : p.1.headerBuf = p.1.response.buildHeaders io.time
  headerSent : p.1.headerSent = 0
  work : work p.2 = [.prepareHeaders]

theorem preparePage_built (io : Io) (status : Status) (body : Bytes) (c : Connection) :
    Built io c (c.preparePage io status body) := by
  unfold preparePage prepareHeaders
  exact ⟨rfl, rfl, rfl, rfl, rfl, rfl⟩

theorem prepareFile_built (io : Io) (info : FileInfo) (c : Connection) :
    Built io c (c.prepareFile io info) := by
  obtain ⟨resp, _, hp | ⟨start, stop, hp⟩⟩ := prepareFile_cases io info c
  · rw [hp]
    unfold prepareHeaders
    exact ⟨rfl, rfl, rfl, rfl, rfl, rfl⟩
  · rw [hp]
    unfold prepareHeaders setSendFile
    exact ⟨rfl, rfl, rfl, rfl, rfl, rfl⟩

/-- A file is set up to be sent from the start of a new header block. The cursors into a body and
into a chunk stay. -/
theorem prepareFile_cursors (io : Io) (info : FileInfo) (c : Connection) :
    (c.prepareFile io info).1.headerSent = 0 ∧ (c.prepareFile io info).1.bodySent = c.bodySent ∧
      ((c.prepareFile io info).1.chunkSent, (c.prepareFile io info).1.chunkUsed,
        (c.prepareFile io info).1.chunkBuf) = (c.chunkSent, c.chunkUsed, c.chunkBuf) := by
  obtain ⟨resp, _, hp | ⟨start, stop, hp⟩⟩ := prepareFile_cases io info c
  · rw [hp]
    exact ⟨rfl, rfl, rfl⟩
  · rw [hp]
    exact ⟨rfl, rfl, rfl⟩

/-- The connection that `prepare_response` starts from: the response is empty but for the flag. -/
def blank (c : Connection) : Connection :=
  { c with
    response := { HttpResponse.reset with keepAlive := c.request.isKeepAlive }
    isHead := c.request.method == .head }

/-- `prepare_response` builds one response, of one of two kinds. -/
theorem prepareResponse_cases (io : Io) (server : FileServer) (c : Connection) :
    (∃ status body, c.prepareResponse io server =
      ((c.blank.preparePage io status body).1,
        .prepareResponse :: (c.blank.preparePage io status body).2) ∧
      (c.request.method ≠ .get → c.request.method ≠ .head → status = .notImplemented)) ∨
    (∃ info, c.prepareResponse io server =
      ((c.blank.prepareFile io info).1, .prepareResponse :: (c.blank.prepareFile io info).2) ∧
      server.openPath io.sys c.request.path = .ok info ∧
      (c.request.method = .get ∨ c.request.method = .head)) := by
  unfold prepareResponse
  dsimp only
  split
  · exact .inl ⟨_, _, rfl, fun _ _ => rfl⟩
  · next hm =>
    have hm' : c.request.method = .get ∨ c.request.method = .head := by tauto
    have hno {status : Status} : c.request.method ≠ .get → c.request.method ≠ .head →
        status = .notImplemented := by tauto
    split
    · exact .inl ⟨_, _, rfl, hno⟩
    · exact .inl ⟨_, _, rfl, hno⟩
    · next ho => exact .inr ⟨_, rfl, ho, hm'⟩

/-- A file that cannot be opened gives a page. -/
theorem prepareResponse_refused {err : FileError}
    (hm : c.request.method = .get ∨ c.request.method = .head)
    (ho : server.openPath io.sys c.request.path = .error err) :
    ∃ status body, (status ≠ .notModified ∧ status ≠ .partialContent) ∧
      c.prepareResponse io server = ((c.blank.preparePage io status body).1,
        .prepareResponse :: (c.blank.preparePage io status body).2) := by
  have hnot : ¬ (c.request.method ≠ .get ∧ c.request.method ≠ .head) := by tauto
  unfold prepareResponse
  dsimp only
  rw [if_neg hnot, ho]
  cases err with
  | isDirectory => exact ⟨_, _, ⟨Status.noConfusion, Status.noConfusion⟩, rfl⟩
  | notFound => exact ⟨_, _, ⟨Status.noConfusion, Status.noConfusion⟩, rfl⟩
  | forbidden => exact ⟨_, _, ⟨Status.noConfusion, Status.noConfusion⟩, rfl⟩
  | badRequest => exact ⟨_, _, ⟨Status.noConfusion, Status.noConfusion⟩, rfl⟩

theorem prepareResponse_opened {info : FileInfo}
    (hm : c.request.method = .get ∨ c.request.method = .head)
    (ho : server.openPath io.sys c.request.path = .ok info) :
    c.prepareResponse io server = ((c.blank.prepareFile io info).1,
      .prepareResponse :: (c.blank.prepareFile io info).2) := by
  have hnot : ¬ (c.request.method ≠ .get ∧ c.request.method ≠ .head) := by tauto
  unfold prepareResponse
  dsimp only
  rw [if_neg hnot, ho]
  rfl

theorem prepareResponse_built (io : Io) (server : FileServer) (c : Connection) :
    ∃ as, (c.prepareResponse io server).2 = .prepareResponse :: as ∧
      Built io c.blank ((c.prepareResponse io server).1, as) := by
  rcases prepareResponse_cases io server c with ⟨status, body, hp, _⟩ | ⟨info, hp, _⟩
  · rw [hp]
    exact ⟨_, rfl, preparePage_built ..⟩
  · rw [hp]
    exact ⟨_, rfl, prepareFile_built ..⟩

theorem prepareResponse_header (io : Io) (server : FileServer) (c : Connection) :
    (c.prepareResponse io server).1.headerBuf =
      (c.prepareResponse io server).1.response.buildHeaders io.time := by
  obtain ⟨_, _, hbuilt⟩ := prepareResponse_built io server c
  exact hbuilt.header

/-- A connection on which nothing has been read and nothing is left to send. -/
structure Unbegun (c : Connection) : Prop where
  request : c.request.method = .unknown
  file : c.fileFd < 0
  body : c.bodySent = 0
  chunk : c.chunkUsed ≤ c.chunkSent

/-- A connection that has not read a request yet has none. -/
def Opens (c : Connection) : Prop := c.state.isEarly = true → Unbegun c

theorem reset_unbegun (c : Connection) : Unbegun c.reset := by
  refine ⟨rfl, ?_, rfl, Nat.le_refl _⟩
  unfold reset
  dsimp only
  split <;> omega

/-- What a connection keeps of its requests and of what it has sent. -/
def slate (c : Connection) :
    HttpRequest × HttpResponse × Nat × Int × Int × Nat × Nat × Nat × Bool :=
  (c.request, c.response, c.headerSent, c.sendOffset, c.sendRemaining, c.chunkUsed, c.chunkSent,
    c.bodySent, c.isHead)

/-- What leads to the first request leaves the slate alone. -/
theorem doProtoDetect_slate (io : Io) (tls : Bool) (hf : ¬ protoDetectFails io)
    (he : (c.doProtoDetect io tls).conn.state.isEarly = true) :
    (c.doProtoDetect io tls).conn.slate = c.slate ∧
      (c.doProtoDetect io tls).conn.fileFd = c.fileFd := by
  unfold protoDetectFails at hf
  unfold doProtoDetect at he ⊢
  rcases hp : io.peek with (_ | b) | _ | _
  · exact (hf (.inl hp)).elim
  · rw [hp] at he
    dsimp only at he ⊢
    split
    · split
      · exact ⟨rfl, rfl⟩
      · next hb ht =>
        rw [if_pos hb, if_neg ht] at he
        cases he
    · exact ⟨rfl, rfl⟩
  · exact ⟨rfl, rfl⟩
  · exact (hf (.inr hp)).elim

theorem doTlsAccept_slate (io : Io) (ret : SslResult Unit)
    (he : (c.doTlsAccept io ret).conn.state.isEarly = true) :
    (c.doTlsAccept io ret).conn.slate = c.slate ∧
      (c.doTlsAccept io ret).conn.fileFd = c.fileFd := by
  cases ret with
  | done => exact ⟨rfl, rfl⟩
  | wantRead => exact ⟨rfl, rfl⟩
  | wantWrite => exact ⟨rfl, rfl⟩
  | error => cases he

/-- A read leaves everything alone but the buffer, and goes on only at the end of the headers. -/
theorem doRead_slate (io : Io) (hf : ¬ readFails io c) :
    ((c.doRead io).conn.slate = c.slate ∧ (c.doRead io).conn.fileFd = c.fileFd) ∧
      ((c.doRead io).conn.state = c.state ∨ (c.doRead io).conn.state = .parsing) := by
  obtain ⟨buf, complete, state, want, as, _, hstate, hd⟩ := doRead_goes_on io hf
  rw [hd]
  exact ⟨⟨rfl, rfl⟩, hstate⟩

theorem doRead_unbegun (io : Io) (hf : ¬ readFails io c) (h : Unbegun c) :
    Unbegun (c.doRead io).conn := by
  obtain ⟨buf, complete, state, want, as, _, _, hd⟩ := doRead_goes_on io hf
  rw [hd]
  exact ⟨h.request, h.file, h.body, h.chunk⟩

/-- Where a step that sends can lead. -/
def Leads (c : Connection) (r : Outcome) : Prop :=
  r.conn.state = c.state ∨ r.conn.state = .sendingBody ∨ r.conn.state = .keepAlive ∨
    r.conn.state = .closed

theorem Leads.stays (h : r.conn.state = c.state) : Leads c r := .inl h

theorem Leads.ends (h : r.conn.state = .keepAlive) : Leads c r := .inr (.inr (.inl h))

theorem Leads.hangUp (c d : Connection) (as : List Action) : Leads c (d.hangUp as) :=
  .inr (.inr (.inr (close_state d)))

theorem Leads.base (h : Leads d r) (hd : d.state = c.state ∨ d.state = .sendingBody) :
    Leads c r := by
  rcases h with h | h
  · rcases hd with hd | hd
    · exact .inl (h.trans hd)
    · exact .inr (.inl (h.trans hd))
  · exact .inr h

theorem Leads.late (h : Leads c r) (hc : c.state.isEarly = false) :
    r.conn.state.isEarly = false := by
  rcases h with h | h | h | h
  · rw [h]
    exact hc
  · rw [h]
    rfl
  · rw [h]
    rfl
  · rw [h]
    rfl

theorem onSent_leads {attempt : Sent × List Action} {next : Nat → Outcome}
    (hnext : ∀ n, Leads c (next n)) : Leads c (c.onSent attempt next) := by
  obtain ⟨sent, as⟩ := attempt
  cases sent with
  | bytes n => exact hnext n
  | wait want => exact .stays rfl
  | fatal => exact .hangUp ..

theorem sendChunk_leads (io : Io) (c : Connection) : Leads c (sendChunk io c) := by
  refine onSent_leads fun n => ?_
  dsimp only
  split
  · exact .stays rfl
  · exact .stays rfl

theorem doSendBodyMemory_leads (io : Io) (c : Connection) : Leads c (doSendBodyMemory io c) := by
  unfold doSendBodyMemory
  dsimp only
  split
  · exact .ends rfl
  · refine onSent_leads fun n => ?_
    split
    · exact .ends rfl
    · exact .stays rfl

theorem doSendBodyTls_leads (io : Io) (c : Connection) : Leads c (doSendBodyTls io c) := by
  unfold doSendBodyTls
  split
  · split
    · exact .ends rfl
    · dsimp only
      split
      · exact .hangUp ..
      · exact (sendChunk_leads io (c.loadChunk _)).base (.inl rfl)
  · exact sendChunk_leads io c

theorem doSendBodyPlain_leads (io : Io) (c : Connection) : Leads c (doSendBodyPlain io c) := by
  unfold doSendBodyPlain
  split
  · exact .ends rfl
  · dsimp only
    split
    · exact .hangUp ..
    · cases io.sendfile with
      | done => exact .ends rfl
      | again n => exact .stays rfl
      | error n => exact .hangUp ..

theorem doSendBody_leads (io : Io) (c : Connection) : Leads c (doSendBody io c) := by
  unfold doSendBody
  split
  · exact doSendBodyMemory_leads io c
  · split
    · exact doSendBodyTls_leads io c
    · exact doSendBodyPlain_leads io c

theorem headersSent_leads (io : Io) (c : Connection) : Leads c (headersSent io c) := by
  unfold headersSent
  split
  · exact .ends rfl
  · exact (doSendBody_leads io _).base (.inr rfl)

theorem doSendHeaders_leads (io : Io) (c : Connection) : Leads c (doSendHeaders io c) := by
  refine onSent_leads fun n => ?_
  dsimp only
  split
  · exact (headersSent_leads io _).base (.inl rfl)
  · exact .stays rfl

theorem doParse_late (io : Io) (hc : c.state.isEarly = false) :
    (c.doParse io).conn.state.isEarly = false := by
  unfold doParse
  dsimp only
  split
  · exact hc
  · rfl

theorem answer_due (io : Io) (server : FileServer) (hd : r.conn.answerDue) :
    answer io server r = ((r.conn.prepareResponse io server).1.doSendHeaders io).after
      (r.actions ++ (r.conn.prepareResponse io server).2) := if_pos hd

theorem answer_not_due (io : Io) (server : FileServer) (hd : ¬ r.conn.answerDue) :
    answer io server r = r := if_neg hd

/-- A property of the connections that have not read a request yet. -/
def Early (P : Connection → Prop) (c : Connection) : Prop := c.state.isEarly = true → P c

section
variable {P : Connection → Prop}

theorem early_of_late (h : c.state.isEarly = false) : Early P c := by
  intro he
  rw [h] at he
  cases he

/-- What is told by the slate is left alone by what leads to the first request. -/
theorem stateAction_early
    (hP : ∀ c d : Connection, c.slate = d.slate → c.fileFd = d.fileFd → P c → P d)
    (io : Io) (tls : Bool) (hf : ¬ stateFails io c) (h : Early P c) :
    Early P (c.stateAction io tls).conn := by
  have hkeep {r : Outcome} (hc : c.state.isEarly = true)
      (hr : r.conn.slate = c.slate ∧ r.conn.fileFd = c.fileFd) : P r.conn :=
    hP c r.conn hr.1.symm hr.2.symm (h hc)
  unfold stateAction
  unfold stateFails at hf
  cases hs : c.state with
  | closed => exact h
  | protoDetect =>
    rw [hs] at hf
    exact fun he => hkeep (by rw [hs]; rfl) (doProtoDetect_slate io tls hf he)
  | tlsAccept => exact fun he => hkeep (by rw [hs]; rfl) (doTlsAccept_slate io _ he)
  | reading =>
    rw [hs] at hf
    exact fun _ => hkeep (by rw [hs]; rfl) (doRead_slate io hf).1
  | parsing => exact early_of_late (doParse_late io (by rw [hs]; rfl))
  | sendingHeaders => exact early_of_late ((doSendHeaders_leads io c).late (by rw [hs]; rfl))
  | sendingBody => exact early_of_late ((doSendBody_leads io c).late (by rw [hs]; rfl))
  | keepAlive =>
    rw [hs] at hf
    apply early_of_late
    change (c.reset.doRead io).conn.state.isEarly = false
    have hreset : c.reset.state = .keepAlive := hs
    rcases (doRead_slate io hf).2 with h | h
    · rw [h, hreset]
      rfl
    · rw [h]
      rfl

theorem firstHalf_early
    (hP : ∀ c d : Connection, c.slate = d.slate → c.fileFd = d.fileFd → P c → P d)
    (io : Io) (tls : Bool) (hf : ¬ stateFails io c) (h : Early P c) :
    Early P (c.firstHalf io tls).conn := by
  have hact := stateAction_early hP io tls hf h
  unfold firstHalf injectSsl
  split
  · next ht =>
    intro he
    obtain ⟨hslate, hfile⟩ := doTlsAccept_slate io _ he
    exact hP (c.stateAction io tls).conn _ hslate.symm hfile.symm (hact (by rw [ht.1]; rfl))
  · exact hact

theorem inlineParse_early (io : Io) (h : Early P r.conn) : Early P (inlineParse io r).conn := by
  unfold inlineParse
  split
  · next hp => exact early_of_late (doParse_late io (by rw [hp.1]; rfl))
  · exact h

/-- An answer is only due once a request has been parsed. -/
theorem answer_early (hunread : ∀ c, P c → c.request.method = .unknown) (io : Io)
    (server : FileServer) (h : Early P r.conn) : Early P (answer io server r).conn := by
  by_cases hd : r.conn.answerDue
  · have hparsing : r.conn.state = .parsing := by
      obtain ⟨hp | hr, hm⟩ := hd
      · exact hp
      · exact (hm (hunread _ (h (by rw [hr]; rfl)))).elim
    have hlate : (r.conn.prepareResponse io server).1.state.isEarly = false := by
      rw [(prepareResponse_prepared io server r.conn).state, hparsing]
      rfl
    rw [answer_due io server hd]
    exact early_of_late ((doSendHeaders_leads io _).late hlate)
  · rw [answer_not_due io server hd]
    exact h

theorem early_invariant
    (hP : ∀ c d : Connection, c.slate = d.slate → c.fileFd = d.fileFd → P c → P d)
    (hunread : ∀ c, P c → c.request.method = .unknown)
    (hinit : ∀ (c : Connection) fd root timeout now tls,
      P { c.init fd root timeout now with tlsAvailable := tls }) : ConnInvariant (Early P) := by
  constructor
  · exact fun c => ⟨fun h he => hP c.core c rfl rfl (h he), fun h he => hP c c.core rfl rfl (h he)⟩
  · exact fun c hc => early_of_late (by rw [hc]; rfl)
  · exact fun c fd root timeout now tls _ => hinit c fd root timeout now tls
  · intro c io tls server _ hf h
    exact answer_early hunread io server (inlineParse_early io (firstHalf_early hP io tls hf h))

end

theorem opens_of_late (h : c.state.isEarly = false) : Opens c := early_of_late h

theorem opens_invariant : ConnInvariant Opens := by
  apply early_invariant
  · intro c d hslate hfile hc
    simp only [slate, Prod.mk.injEq] at hslate
    obtain ⟨hreq, _, _, _, _, hused, hsent, hbody, _⟩ := hslate
    exact ⟨hreq ▸ hc.request, hfile ▸ hc.file, hbody ▸ hc.body, hused ▸ hsent ▸ hc.chunk⟩
  · exact fun c hc => hc.request
  · exact fun c fd root timeout now tls =>
      ⟨rfl, by exact (by decide : (-1 : Int) < 0), rfl, Nat.le_refl _⟩

/-- The states in which a call of `process_connection` has nothing to add to its first step. -/
def Settled (c : Connection) : Prop :=
  c.state ≠ .tlsAccept ∧ c.state ≠ .parsing ∧ c.state ≠ .reading

theorem advance_settled (io : Io) (tls : Bool) (server : FileServer)
    (h : Settled (c.stateAction io tls).conn) :
    c.advance io tls server = c.stateAction io tls := by
  obtain ⟨ht, hp, hr⟩ := h
  have hfirst : c.firstHalf io tls = c.stateAction io tls := if_neg fun h => ht h.1
  have hparse : inlineParse io (c.stateAction io tls) = c.stateAction io tls :=
    if_neg fun h => hp h.1
  unfold advance secondHalf
  rw [hfirst, hparse]
  exact answer_not_due io server fun h => h.1.elim hp hr

end Connection

end FileWebServer
