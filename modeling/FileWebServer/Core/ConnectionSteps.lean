import FileWebServer.Core.KeepaliveList

namespace FileWebServer
open Search
set_option autoImplicit true

/-- The actions that change who owns a slot or a socket. -/
def Action.isTraffic : Action → Bool
  | .accept _ | .close _ | .acquire _ | .release _ => true
  | _ => false

def traffic (actions : List Action) : List Action := actions.filter Action.isTraffic

@[simp] theorem traffic_append (as bs : List Action) :
    traffic (as ++ bs) = traffic as ++ traffic bs := List.filter_append ..

/-- What is made of the actions can be told from the traffic, if nothing is made of the others. -/
theorem foldl_traffic {act : κ → Action → κ} (h : ∀ k a, a.isTraffic = false → act k a = k) (k : κ)
    (as : List Action) : (traffic as).foldl act k = as.foldl act k := by
  induction as generalizing k with
  | nil => rfl
  | cons a as ih =>
    cases ha : a.isTraffic with
    | true =>
      rw [traffic, List.filter_cons_of_pos ha]
      exact ih (act k a)
    | false =>
      rw [traffic, List.filter_cons_of_neg (by simp [ha]), List.foldl_cons, h k a ha]
      exact ih k

namespace Connection
variable {c d : Connection} {r r' : Outcome}

/-- The traffic of a connection that is closed. -/
def hung (c : Connection) : List Action := if 0 ≤ c.fd then [.close c.fd] else []

/-- A step after which the connection is still open. -/
structure Kept (c : Connection) (r : Outcome) : Prop where
  place : r.conn.place = c.place
  live : r.conn.state ≠ .closed
  fd : r.conn.fd = c.fd
  quiet : traffic r.actions = []

/-- A step that has closed the connection. -/
structure HungUp (c : Connection) (r : Outcome) : Prop where
  place : r.conn.place = c.place
  closed : r.conn.state = .closed
  fd : r.conn.fd < 0
  traffic : traffic r.actions = c.hung

/-- A step closes the connection exactly when `fails` says so. -/
def Ends (fails : Prop) (c : Connection) (r : Outcome) : Prop :=
  (fails ∧ HungUp c r) ∨ (¬ fails ∧ Kept c r)

theorem Ends.closed_iff (h : Ends fails c r) : r.conn.state = .closed ↔ fails := by
  rcases h with ⟨hf, hr⟩ | ⟨hf, hr⟩
  · exact iff_of_true hr.closed hf
  · exact iff_of_false hr.live hf

theorem Ends.place (h : Ends fails c r) : r.conn.place = c.place := by
  rcases h with ⟨_, hr⟩ | ⟨_, hr⟩
  · exact hr.place
  · exact hr.place

theorem Ends.congr (h : Ends fails c r) (hf : fails ↔ fails') : Ends fails' c r := by
  rcases h with ⟨hF, hr⟩ | ⟨hF, hr⟩
  · exact .inl ⟨hf.1 hF, hr⟩
  · exact .inr ⟨fun h => hF (hf.2 h), hr⟩

/-- A step is judged by the descriptor and the place that the connection had before it. -/
theorem Ends.base (h : Ends fails d r) (hp : d.place = c.place) (hfd : d.fd = c.fd) :
    Ends fails c r := by
  rcases h with ⟨hf, hr⟩ | ⟨hf, hr⟩
  · refine .inl ⟨hf, hr.place.trans hp, hr.closed, hr.fd, ?_⟩
    rw [hr.traffic, hung, hung, hfd]
  · exact .inr ⟨hf, hr.place.trans hp, hr.live, hr.fd.trans hfd, hr.quiet⟩

theorem Kept.base (h : Kept d r) (hp : d.place = c.place) (hfd : d.fd = c.fd) : Kept c r :=
  ⟨h.place.trans hp, h.live, h.fd.trans hfd, h.quiet⟩

theorem Kept.ends (h : Kept c r) : Ends False c r := .inr ⟨not_false, h⟩

theorem HungUp.ends (h : HungUp c r) : Ends True c r := .inl ⟨trivial, h⟩

/-- A step goes on where a step that kept the connection has stopped. -/
theorem Ends.after (h : Kept c r) (h' : Ends fails r.conn r') :
    Ends fails c (r'.after r.actions) := by
  rcases h' with ⟨hf, hr⟩ | ⟨hf, hr⟩
  · refine .inl ⟨hf, hr.place.trans h.place, hr.closed, hr.fd, ?_⟩
    rw [Outcome.after_actions, traffic_append, h.quiet, hr.traffic, List.nil_append, hung, hung,
      h.fd]
  · refine .inr ⟨hf, hr.place.trans h.place, hr.live, hr.fd.trans h.fd, ?_⟩
    rw [Outcome.after_actions, traffic_append, h.quiet, hr.quiet, List.nil_append]

theorem traffic_closeFileActions (c : Connection) : traffic c.closeFileActions = [] := by
  unfold closeFileActions
  split <;> rfl

theorem traffic_closeActions (hc : c.state ≠ .closed) : traffic c.closeActions = c.hung := by
  rw [closeActions, if_neg hc, traffic_append, traffic_append, traffic_closeFileActions,
    List.append_nil, hung]
  cases c.ssl with
  | none => split <;> rfl
  | some => split <;> rfl

theorem close_state (c : Connection) : c.close.state = .closed := by
  unfold close
  split
  · assumption
  · rfl

theorem close_fd (hc : c.state ≠ .closed) : c.close.fd < 0 := by
  rw [close, if_neg hc]
  dsimp only
  split <;> omega

theorem close_place (c : Connection) : c.close.place = c.place := by
  unfold close
  split <;> rfl

theorem hangUp_hungUp {as : List Action} (hd : d.state ≠ .closed) (hp : d.place = c.place)
    (hfd : d.fd = c.fd) (has : traffic as = []) : HungUp c (d.hangUp as) := by
  refine ⟨(close_place d).trans hp, close_state d, close_fd hd, ?_⟩
  simp only [hangUp, traffic_append, has, traffic_closeActions hd, List.nil_append, hung, hfd]

/-- The error pages of `Connection` keep it open. -/
theorem prepareError_kept (c : Connection) (status : Status) (note : Bytes) (time : Int)
    (want : Want) {as : List Action} (has : traffic as = []) :
    Kept c ⟨c.prepareError status note time, want, as⟩ := by
  unfold prepareError prepareHeaders
  exact ⟨rfl, State.noConfusion, rfl, has⟩

/-- Peeking at a socket fails, or finds the end of the stream. -/
def protoDetectFails (io : Io) : Prop := io.peek = .done none ∨ io.peek = .error

theorem doProtoDetect_ends (io : Io) (tls : Bool) (hc : c.state ≠ .closed) :
    Ends (protoDetectFails io) c (c.doProtoDetect io tls) := by
  unfold doProtoDetect protoDetectFails
  rcases io.peek with (_ | b) | _ | _
  · exact .inl ⟨.inl rfl, hangUp_hungUp hc rfl rfl rfl⟩
  · refine .inr ⟨by simp, ?_⟩
    dsimp only
    split
    · split
      · exact ⟨rfl, State.noConfusion, rfl, rfl⟩
      · exact prepareError_kept _ _ _ _ _ rfl
    · exact ⟨rfl, State.noConfusion, rfl, rfl⟩
  · exact .inr ⟨by simp, rfl, hc, rfl, rfl⟩
  · exact .inl ⟨.inr rfl, hangUp_hungUp hc rfl rfl rfl⟩

theorem doTlsAccept_kept (io : Io) (ret : SslResult Unit) (hc : c.state ≠ .closed) :
    Kept c (c.doTlsAccept io ret) := by
  cases ret with
  | done => exact ⟨rfl, State.noConfusion, rfl, rfl⟩
  | wantRead => exact ⟨rfl, hc, rfl, rfl⟩
  | wantWrite => exact ⟨rfl, hc, rfl, rfl⟩
  | error => exact prepareError_kept _ _ _ _ _ rfl

/-- A request grows past 64 KiB without the end of its headers. -/
def overflows (c : Connection) (data : Bytes) : Prop :=
  find crlfcrlf (c.readBuf ++ data) = none ∧ 65536 < (c.readBuf ++ data).length

theorem received_complete {data : Bytes} {as : List Action}
    (h : (find crlfcrlf (c.readBuf ++ data)).isSome) : c.received data as =
      ⟨{ c with readBuf := c.readBuf ++ data, headersComplete := true, state := .parsing },
        .none, as⟩ := if_pos h

theorem received_incomplete {data : Bytes} {as : List Action}
    (h : find crlfcrlf (c.readBuf ++ data) = none) : c.received data as =
      if 65536 < (c.readBuf ++ data).length then
        { c with readBuf := c.readBuf ++ data }.hangUp as
      else ⟨{ c with readBuf := c.readBuf ++ data }, .read, as⟩ :=
  if_neg (by simp [h])

/-- The calls of one read, over the transport of the connection. -/
inductive ReadCalls : Option Nat → List Action → Prop
  | tls (ssl : Nat) (ret : SslResult Bytes) :
    ReadCalls (some ssl) [.errClearError, .sslRead ssl ret, .sslGetError]
  | tlsDone (ssl : Nat) (data : Bytes) :
    ReadCalls (some ssl) [.errClearError, .sslRead ssl (.done data)]
  | plain (fd : Int) (data : Bytes) : ReadCalls none [.read fd data]

/-- A read brings nothing yet, or more bytes, or the end of the connection. -/
theorem doRead_forms (io : Io) (c : Connection) : ∃ as, ReadCalls c.ssl as ∧
    ((∃ want, c.doRead io = ⟨c.touch io.now, want, as⟩) ∨
      (∃ data, data.length ≤ 4096 ∧ c.doRead io = (c.touch io.now).received data as) ∨
      ∃ buf, buf.length ≤ c.readBuf.length + 4096 ∧
        c.doRead io = { c.touch io.now with readBuf := buf }.hangUp as) := by
  have htake (data : Bytes) : (data.take 4096).length ≤ 4096 := List.length_take_le ..
  have hfails {as : List Action} (h : c.doRead io = (c.touch io.now).hangUp as) :
      ∃ buf, buf.length ≤ c.readBuf.length + 4096 ∧
        c.doRead io = { c.touch io.now with readBuf := buf }.hangUp as :=
    ⟨c.readBuf, Nat.le_add_right .., h⟩
  have hssl : (c.touch io.now).ssl = c.ssl := rfl
  cases hs : c.ssl with
  | some ssl =>
    cases hr : io.sslRead with
    | done data =>
      by_cases hd : data = []
      · exact ⟨_, .tls ssl (.done []), .inr (.inr (hfails (by simp [doRead, hssl, hs, hr, hd])))⟩
      · refine ⟨_, .tlsDone ssl (data.take 4096), .inr (.inl ⟨_, htake data, ?_⟩)⟩
        simp [doRead, hssl, hs, hr, hd]
    | wantRead =>
      exact ⟨_, .tls ssl .wantRead, .inl ⟨.read, by simp [doRead, hssl, hs, hr]⟩⟩
    | wantWrite =>
      exact ⟨_, .tls ssl .wantWrite, .inl ⟨.write, by simp [doRead, hssl, hs, hr]⟩⟩
    | error => exact ⟨_, .tls ssl .error, .inr (.inr (hfails (by simp [doRead, hssl, hs, hr])))⟩
  | none =>
    cases hr : io.read with
    | done data =>
      by_cases hd : data = []
      · refine ⟨_, .plain c.fd [], .inr (.inr ⟨c.readBuf ++ List.replicate 4096 0, ?_, ?_⟩)⟩
        · rw [List.length_append, List.length_replicate]
        · simp only [doRead, hssl, hs, hr, if_pos hd]
          rfl
      · refine ⟨_, .plain c.fd (data.take 4096), .inr (.inl ⟨_, htake data, ?_⟩)⟩
        simp only [doRead, hssl, hs, hr, if_neg hd]
        rfl
    | again =>
      refine ⟨_, .plain c.fd [], .inl ⟨.read, ?_⟩⟩
      simp only [doRead, hssl, hs, hr]
      rfl
    | error =>
      refine ⟨_, .plain c.fd [], .inr (.inr (hfails ?_))⟩
      simp only [doRead, hssl, hs, hr]
      rfl

theorem received_ends {as : List Action} (data : Bytes) (hc : c.state ≠ .closed)
    (has : traffic as = []) : Ends (c.overflows data) c (c.received data as) := by
  cases hf : find crlfcrlf (c.readBuf ++ data) with
  | some i =>
    rw [received_complete (by simp [hf])]
    exact .inr ⟨by simp [overflows, hf], rfl, State.noConfusion, rfl, has⟩
  | none =>
    rw [received_incomplete hf]
    by_cases hl : 65536 < (c.readBuf ++ data).length
    · rw [if_pos hl]
      exact .inl ⟨⟨hf, hl⟩, hangUp_hungUp hc rfl rfl has⟩
    · rw [if_neg hl]
      exact .inr ⟨fun h => hl h.2, rfl, hc, rfl, has⟩

/-- Reading fails, finds the end of the stream, or overflows the buffer. -/
def readFails (io : Io) (c : Connection) : Prop :=
  match c.ssl with
  | some _ =>
    match io.sslRead with
    | .done data => data = [] ∨ c.overflows (data.take 4096)
    | .error => True
    | _ => False
  | none =>
    match io.read with
    | .done data => data = [] ∨ c.overflows (data.take 4096)
    | .error => True
    | .again => False

theorem doRead_ends (io : Io) (hc : c.state ≠ .closed) :
    Ends (readFails io c) c (c.doRead io) := by
  unfold doRead readFails touch
  dsimp only
  cases c.ssl with
  | some ssl =>
    cases io.sslRead with
    | done data =>
      by_cases hd : data = []
      · subst hd
        exact .inl ⟨.inl rfl, hangUp_hungUp hc rfl rfl rfl⟩
      · dsimp only
        rw [if_neg hd]
        refine Ends.congr (Ends.base (received_ends _ hc rfl) rfl rfl) ?_
        simp [hd, overflows]
    | wantRead => exact .inr ⟨not_false, rfl, hc, rfl, rfl⟩
    | wantWrite => exact .inr ⟨not_false, rfl, hc, rfl, rfl⟩
    | error => exact .inl ⟨trivial, hangUp_hungUp hc rfl rfl rfl⟩
  | none =>
    cases io.read with
    | done data =>
      by_cases hd : data = []
      · subst hd
        exact .inl ⟨.inl rfl, hangUp_hungUp hc rfl rfl rfl⟩
      · dsimp only
        rw [if_neg hd]
        refine Ends.congr (Ends.base (received_ends _ hc rfl) rfl rfl) ?_
        simp [hd, overflows]
    | again => exact .inr ⟨not_false, rfl, hc, rfl, rfl⟩
    | error => exact .inl ⟨trivial, hangUp_hungUp hc rfl rfl rfl⟩

theorem doParse_kept (io : Io) (hc : c.state ≠ .closed) : Kept c (c.doParse io) := by
  unfold doParse
  dsimp only
  split
  · exact ⟨rfl, hc, rfl, rfl⟩
  · exact Kept.base (prepareError_kept _ _ _ _ _ rfl) rfl rfl

/-- `SSL_write` fails for good; it has nothing to write when it is offered nothing. -/
def sslFails (ret : SslResult Nat) (offered : Bytes) : Prop :=
  ret = .error ∨ ∃ n, ret = .done n ∧ min n offered.length = 0

/-- An attempt to send fails for good. -/
def transmitFails (c : Connection) (ret : SysResult Nat) (sslRet : SslResult Nat)
    (offered : Bytes) : Prop :=
  match c.ssl with
  | some _ => sslFails sslRet offered
  | none => ret = .error

/-- An attempt to send takes everything it is offered. -/
def transmitsAll (c : Connection) (ret : SysResult Nat) (sslRet : SslResult Nat)
    (offered : Bytes) : Prop :=
  match c.ssl with
  | some _ => 0 < offered.length ∧ ∃ n, sslRet = .done n ∧ offered.length ≤ n
  | none => ∃ n, ret = .done n ∧ offered.length ≤ n

theorem sslWrite_traffic (ssl : Option Nat) (ret : SslResult Nat) (offered : Bytes) :
    traffic (sslWrite ssl ret offered).2 = [] := by
  unfold sslWrite
  cases ret with
  | done n =>
    dsimp only
    split <;> rfl
  | wantRead => rfl
  | wantWrite => rfl
  | error => rfl

theorem transmit_traffic (c : Connection) (ret : SysResult Nat) (sslRet : SslResult Nat)
    (offered : Bytes) : traffic (c.transmit ret sslRet offered).2 = [] := by
  unfold transmit
  cases c.ssl with
  | none => cases ret <;> rfl
  | some => exact sslWrite_traffic ..

theorem sslWrite_fatal_iff (ssl : Option Nat) (ret : SslResult Nat) (offered : Bytes) :
    (sslWrite ssl ret offered).1 = .fatal ↔ sslFails ret offered := by
  unfold sslWrite sslFails
  cases ret with
  | done n =>
    dsimp only
    split
    · next h => exact iff_of_true rfl (.inr ⟨n, rfl, h⟩)
    · next h =>
      refine iff_of_false (by simp) ?_
      rintro (he | ⟨m, hm, h'⟩)
      · cases he
      · cases hm
        exact h h'
  | wantRead => simp
  | wantWrite => simp
  | error => simp

theorem transmit_fatal_iff (c : Connection) (ret : SysResult Nat) (sslRet : SslResult Nat)
    (offered : Bytes) :
    (c.transmit ret sslRet offered).1 = .fatal ↔ c.transmitFails ret sslRet offered := by
  unfold transmit transmitFails
  cases c.ssl with
  | none => cases ret <;> simp [plainWrite]
  | some => exact sslWrite_fatal_iff ..

/-- No attempt takes more than it is offered. -/
theorem sslWrite_le {ssl : Option Nat} {ret : SslResult Nat} {offered : Bytes}
    (h : (sslWrite ssl ret offered).1 = .bytes n) : n ≤ offered.length := by
  unfold sslWrite at h
  cases ret with
  | done m =>
    dsimp only at h
    split at h
    · cases h
    · cases h
      exact Nat.min_le_right ..
  | wantRead => cases h
  | wantWrite => cases h
  | error => cases h

theorem transmit_le {ret : SysResult Nat} {sslRet : SslResult Nat} {offered : Bytes}
    (h : (c.transmit ret sslRet offered).1 = .bytes n) : n ≤ offered.length := by
  unfold transmit at h
  cases hs : c.ssl with
  | none =>
    rw [hs] at h
    cases ret with
    | done m =>
      cases h
      exact Nat.min_le_right ..
    | again => cases h
    | error => cases h
  | some ssl =>
    rw [hs] at h
    exact sslWrite_le h

theorem transmit_all_iff (c : Connection) (ret : SysResult Nat) (sslRet : SslResult Nat)
    (offered : Bytes) :
    (c.transmit ret sslRet offered).1 = .bytes offered.length ↔
      c.transmitsAll ret sslRet offered := by
  unfold transmit transmitsAll
  cases c.ssl with
  | none =>
    cases ret with
    | done m => simp [plainWrite]
    | again => simp [plainWrite]
    | error => simp [plainWrite]
  | some ssl =>
    cases sslRet with
    | done m =>
      simp only [sslWrite]
      split
      · next h => simp; omega
      · next h => simp; omega
    | wantRead => simp [sslWrite]
    | wantWrite => simp [sslWrite]
    | error => simp [sslWrite]

/-- How an attempt to send ends is known from the attempt and from what comes after it. -/
theorem onSent_ends {attempt : Sent × List Action} {next : Nat → Outcome} (fails : Nat → Prop)
    (hc : c.state ≠ .closed) (ht : traffic attempt.2 = [])
    (hnext : ∀ n, attempt.1 = .bytes n → Ends (fails n) c (next n)) :
    Ends (attempt.1 = .fatal ∨ ∃ n, attempt.1 = .bytes n ∧ fails n) c (c.onSent attempt next) := by
  obtain ⟨sent, as⟩ := attempt
  cases sent with
  | bytes n =>
    have hk : Kept c ⟨c, .none, as⟩ := ⟨rfl, hc, rfl, ht⟩
    exact (Ends.after hk (hnext n rfl)).congr (by simp)
  | wait want => exact .inr ⟨by simp, rfl, hc, rfl, ht⟩
  | fatal => exact .inl ⟨.inl rfl, hangUp_hungUp hc rfl rfl ht⟩

theorem sendChunk_ends (io : Io) (hc : c.state ≠ .closed) :
    Ends (sslFails io.bodySslWrite c.chunkRest) c (sendChunk io c) := by
  unfold sendChunk
  refine Ends.congr (onSent_ends (fun _ => False) hc (sslWrite_traffic ..) ?_) ?_
  · intro n _
    dsimp only
    split
    · exact .inr ⟨not_false, rfl, hc, rfl, rfl⟩
    · exact .inr ⟨not_false, rfl, hc, rfl, rfl⟩
  · simp [sslWrite_fatal_iff]

theorem finishFile_kept (c : Connection) : Kept c (c.finishFile []) :=
  ⟨rfl, State.noConfusion, rfl, traffic_closeFileActions c⟩

/-- Sending a file over TLS fails. -/
def tlsBodyFails (io : Io) (c : Connection) : Prop :=
  if c.chunkUsed ≤ c.chunkSent then
    0 < c.sendRemaining ∧ (c.readChunk io = [] ∨ sslFails io.bodySslWrite (c.readChunk io))
  else sslFails io.bodySslWrite c.chunkRest

theorem slice_length_le (file : Bytes) (offset len : Int) :
    (slice file offset len).length ≤ len.toNat := by
  rw [slice, List.length_take]
  exact Nat.min_le_left ..

/-- `pread` gives no more than it is asked for. -/
theorem readChunk_length_le (io : Io) (c : Connection) :
    (c.readChunk io).length ≤ c.toRead := by
  unfold readChunk
  cases io.pread with
  | done n =>
    dsimp only
    split
    · exact Nat.zero_le _
    · have hle := slice_length_le io.file c.sendOffset (min n c.toRead : Nat)
      rw [Int.toNat_natCast] at hle
      exact Nat.le_trans hle (Nat.min_le_right ..)
  | again => exact Nat.zero_le _
  | error => exact Nat.zero_le _

@[simp] theorem loadChunk_rest (data : Bytes) (c : Connection) :
    (c.loadChunk data).chunkRest = data := by
  simp [loadChunk, chunkRest]

theorem doSendBodyTls_ends (io : Io) (hc : c.state ≠ .closed) :
    Ends (tlsBodyFails io c) c (doSendBodyTls io c) := by
  unfold doSendBodyTls tlsBodyFails
  split
  · by_cases hr : c.sendRemaining ≤ 0
    · rw [if_pos hr]
      exact (finishFile_kept c).ends.congr (by simp [hr])
    · rw [if_neg hr]
      dsimp only
      split
      · next hd =>
        refine .inl ⟨⟨Int.lt_of_not_ge hr, .inl hd⟩, hangUp_hungUp hc rfl rfl rfl⟩
      · next hd =>
        have hk : Kept c ⟨c, .none, [.pread c.fileFd c.sendOffset (c.readChunk io)]⟩ :=
          ⟨rfl, hc, rfl, rfl⟩
        have hs := sendChunk_ends (c := c.loadChunk (c.readChunk io)) io hc
        rw [loadChunk_rest] at hs
        exact (Ends.after hk (hs.base rfl rfl)).congr (by simp [hd, Int.lt_of_not_ge hr])
  · exact sendChunk_ends io hc

/-- Sending a file without TLS fails. -/
def plainBodyFails (io : Io) (c : Connection) : Prop :=
  0 < c.sendRemaining ∧ (c.sendOffset < 0 ∨ ∃ n, io.sendfile = .error n)

theorem doSendBodyPlain_ends (io : Io) (hc : c.state ≠ .closed) :
    Ends (plainBodyFails io c) c (doSendBodyPlain io c) := by
  unfold doSendBodyPlain plainBodyFails
  by_cases hr : c.sendRemaining ≤ 0
  · rw [if_pos hr]
    exact (finishFile_kept c).ends.congr (by simp [hr])
  · rw [if_neg hr]
    by_cases ho : c.sendOffset < 0
    · simp only [if_pos ho]
      exact .inl ⟨⟨Int.lt_of_not_ge hr, .inl ho⟩, hangUp_hungUp hc rfl rfl rfl⟩
    · simp only [if_neg ho]
      cases io.sendfile with
      | done =>
        exact .inr ⟨by simp [ho], rfl, State.noConfusion, rfl, traffic_closeFileActions c⟩
      | again n => exact .inr ⟨by simp [ho], rfl, hc, rfl, rfl⟩
      | error n =>
        exact .inl ⟨⟨Int.lt_of_not_ge hr, .inr ⟨n, rfl⟩⟩, hangUp_hungUp hc rfl rfl rfl⟩

/-- Sending a body from memory fails. -/
def memoryBodyFails (io : Io) (c : Connection) : Prop :=
  c.bodySent < c.response.body.length ∧
    c.transmitFails io.bodyWrite io.bodySslWrite (c.response.body.drop c.bodySent)

theorem doSendBodyMemory_ends (io : Io) (hc : c.state ≠ .closed) :
    Ends (memoryBodyFails io c) c (doSendBodyMemory io c) := by
  unfold doSendBodyMemory memoryBodyFails
  dsimp only
  by_cases hb : c.response.body.length ≤ c.bodySent
  · rw [if_pos hb]
    exact .inr ⟨by omega, rfl, State.noConfusion, rfl, rfl⟩
  · rw [if_neg hb]
    refine Ends.congr (onSent_ends (fun _ => False) hc (transmit_traffic ..) ?_) ?_
    · intro n _
      split
      · exact .inr ⟨not_false, rfl, State.noConfusion, rfl, rfl⟩
      · exact .inr ⟨not_false, rfl, hc, rfl, rfl⟩
    · simp [transmit_fatal_iff, Nat.lt_of_not_le hb]

/-- Sending the body of a response fails. -/
def bodyFails (io : Io) (c : Connection) : Prop :=
  if c.fileFd < 0 ∧ c.response.hasBody then memoryBodyFails io c
  else if c.isTls then tlsBodyFails io c
  else plainBodyFails io c

theorem doSendBody_ends (io : Io) (hc : c.state ≠ .closed) :
    Ends (bodyFails io c) c (doSendBody io c) := by
  unfold doSendBody bodyFails
  split
  · exact doSendBodyMemory_ends io hc
  · split
    · exact doSendBodyTls_ends io hc
    · exact doSendBodyPlain_ends io hc

/-- Sending the header block fails, or the body that is begun right after it. -/
def headersFail (io : Io) (c : Connection) : Prop :=
  c.transmitFails io.headerWrite io.headerSslWrite c.headerRest ∨
    (c.transmitsAll io.headerWrite io.headerSslWrite c.headerRest ∧ ¬ c.bodiless ∧
      bodyFails io c)

theorem headersSent_ends (io : Io) (c : Connection) :
    Ends (¬ c.bodiless ∧ bodyFails io c) c (headersSent io c) := by
  unfold headersSent
  split
  · next hb => exact .inr ⟨fun h => h.1 hb, rfl, State.noConfusion, rfl, rfl⟩
  · next hb =>
    refine Ends.congr (Ends.base (doSendBody_ends io State.noConfusion) rfl rfl) ?_
    exact ⟨fun h => ⟨hb, h⟩, fun h => h.2⟩

theorem doSendHeaders_ends (io : Io) (hc : c.state ≠ .closed) :
    Ends (headersFail io c) c (doSendHeaders io c) := by
  unfold doSendHeaders headersFail
  refine Ends.congr (onSent_ends
    (fun n => c.headerBuf.length ≤ c.headerSent + n ∧ ¬ c.bodiless ∧ bodyFails io c)
    hc (transmit_traffic ..) ?_) ?_
  · intro n _
    dsimp only
    split
    · next hn =>
      refine Ends.congr (Ends.base (headersSent_ends io _) rfl rfl) ?_
      exact ⟨fun h => ⟨hn, h⟩, fun h => h.2⟩
    · next hn => exact .inr ⟨fun h => hn h.1, rfl, hc, rfl, rfl⟩
  · rw [transmit_fatal_iff, ← transmit_all_iff]
    have hall : ∀ n, (c.transmit io.headerWrite io.headerSslWrite c.headerRest).1 = .bytes n →
        (c.headerBuf.length ≤ c.headerSent + n ↔ n = c.headerRest.length) := by
      intro n hn
      have hle := transmit_le hn
      rw [headerRest, List.length_drop] at *
      omega
    constructor
    · rintro (hf | ⟨n, hn, hle, hb⟩)
      · exact .inl hf
      · rw [← (hall n hn).1 hle]
        exact .inr ⟨hn, hb⟩
    · rintro (hf | ⟨hn, hb⟩)
      · exact .inl hf
      · exact .inr ⟨_, hn, (hall _ hn).2 rfl, hb⟩

/-- The step that `process_connection` takes for the state of a connection fails. -/
def stateFails (io : Io) (c : Connection) : Prop :=
  match c.state with
  | .protoDetect => protoDetectFails io
  | .reading => readFails io c
  | .keepAlive => readFails io c.reset
  | .sendingHeaders => headersFail io c
  | .sendingBody => bodyFails io c
  | _ => False

theorem stateAction_ends (io : Io) (tls : Bool) (hc : c.state ≠ .closed) :
    Ends (stateFails io c) c (c.stateAction io tls) := by
  unfold stateAction stateFails
  cases hs : c.state with
  | closed => exact (hc hs).elim
  | protoDetect => exact doProtoDetect_ends io tls hc
  | tlsAccept => exact (doTlsAccept_kept io io.sslAccept hc).ends
  | reading => exact doRead_ends io hc
  | parsing => exact (doParse_kept io hc).ends
  | sendingHeaders => exact doSendHeaders_ends io hc
  | sendingBody => exact doSendBody_ends io hc
  | keepAlive =>
    have hk : Kept c ⟨c.reset, .none, c.closeFileActions⟩ :=
      ⟨rfl, hc, rfl, traffic_closeFileActions c⟩
    exact Ends.after hk (doRead_ends io hc)

theorem injectSsl_kept (io : Io) (tls : Bool) (h : Kept c r) : Kept c (injectSsl io tls r) := by
  unfold injectSsl
  split
  · have hk := doTlsAccept_kept (c := { r.conn with ssl := if tls then io.newSsl else none }) io
      io.sslAcceptInline h.live
    refine ⟨hk.place.trans h.place, hk.live, hk.fd.trans h.fd, ?_⟩
    rw [Outcome.after_actions, traffic_append, h.quiet, hk.quiet]
    rfl
  · exact h

theorem injectSsl_closed (io : Io) (tls : Bool) (h : r.conn.state = .closed) :
    injectSsl io tls r = r := by
  refine if_neg ?_
  rw [h]
  simp

theorem firstHalf_ends (io : Io) (tls : Bool) (hc : c.state ≠ .closed) :
    Ends (stateFails io c) c (c.firstHalf io tls) := by
  unfold firstHalf
  rcases stateAction_ends io tls hc with ⟨hf, hr⟩ | ⟨hf, hr⟩
  · rw [injectSsl_closed io tls hr.closed]
    exact .inl ⟨hf, hr⟩
  · exact .inr ⟨hf, injectSsl_kept io tls hr⟩

theorem inlineParse_kept (io : Io) (h : Kept c r) : Kept c (inlineParse io r) := by
  unfold inlineParse
  split
  · have hk := doParse_kept io h.live
    refine ⟨hk.place.trans h.place, hk.live, hk.fd.trans h.fd, ?_⟩
    rw [Outcome.after_actions, traffic_append, h.quiet, hk.quiet]
    rfl
  · exact h

/-- What building a response leaves alone. -/
structure Prepared (c : Connection) (p : Connection × List Action) : Prop where
  place : p.1.place = c.place
  state : p.1.state = c.state
  fd : p.1.fd = c.fd
  quiet : traffic p.2 = []

theorem preparePage_prepared (io : Io) (status : Status) (body : Bytes) (c : Connection) :
    Prepared c (c.preparePage io status body) := by
  unfold preparePage prepareHeaders
  exact ⟨rfl, rfl, rfl, rfl⟩

/-- Serving a file sets up a response for a part of it. -/
theorem serveFile_eq (io : Io) (info : FileInfo) (c : Connection) :
    ∃ resp start stop, resp.body = c.response.body ∧ prepareFile.serveFile io info c =
      (({ c with response := resp }.prepareHeaders io.time).setSendFile info.fd info.size start
        stop c.isHead, [.openFile info.fd, .prepareHeaders]) := by
  unfold prepareFile.serveFile
  cases c.request.parseRange info.size with
  | none =>
    refine ⟨_, _, _, ?_, rfl⟩
    rfl
  | some range =>
    refine ⟨_, _, _, ?_, rfl⟩
    rfl

/-- An opened file is either closed again, with a response that has no body, or sent. -/
theorem prepareFile_cases (io : Io) (info : FileInfo) (c : Connection) :
    ∃ resp, resp.body = c.response.body ∧
      (c.prepareFile io info = ({ c with response := resp }.prepareHeaders io.time,
        [.openFile info.fd, .prepareHeaders, .closeFile info.fd]) ∨
      ∃ start stop, c.prepareFile io info =
        (({ c with response := resp }.prepareHeaders io.time).setSendFile info.fd info.size start
          stop c.isHead, [.openFile info.fd, .prepareHeaders])) := by
  obtain ⟨resp, start, stop, hbody, hserve⟩ := serveFile_eq io info c
  unfold prepareFile
  split
  · split
    · refine ⟨_, ?_, .inl rfl⟩
      rfl
    · exact ⟨resp, hbody, .inr ⟨start, stop, hserve⟩⟩
  · exact ⟨resp, hbody, .inr ⟨start, stop, hserve⟩⟩

theorem prepareFile_prepared (io : Io) (info : FileInfo) (c : Connection) :
    Prepared c (c.prepareFile io info) := by
  obtain ⟨resp, _, hp | ⟨start, stop, hp⟩⟩ := prepareFile_cases io info c
  · rw [hp]
    unfold prepareHeaders
    exact ⟨rfl, rfl, rfl, rfl⟩
  · rw [hp]
    unfold prepareHeaders setSendFile
    exact ⟨rfl, rfl, rfl, rfl⟩

theorem prepareResponse_prepared (io : Io) (server : FileServer) (c : Connection) :
    Prepared c (c.prepareResponse io server) := by
  have h {c' : Connection} {p : Connection × List Action} (hp : Prepared c' p)
      (hplace : c'.place = c.place) (hstate : c'.state = c.state) (hfd : c'.fd = c.fd) :
      Prepared c (p.1, .prepareResponse :: p.2) :=
    ⟨hp.place.trans hplace, hp.state.trans hstate, hp.fd.trans hfd, hp.quiet⟩
  unfold prepareResponse
  dsimp only
  split
  · exact h (preparePage_prepared ..) rfl rfl rfl
  · split
    · exact h (preparePage_prepared ..) rfl rfl rfl
    · exact h (preparePage_prepared ..) rfl rfl rfl
    · exact h (prepareFile_prepared ..) rfl rfl rfl

/-- A response is due: a request has been parsed, and the connection is still to answer it. -/
def answerDue (c : Connection) : Prop :=
  (c.state = .parsing ∨ c.state = .reading) ∧ c.request.method ≠ .unknown

/-- The response that is built right away cannot be sent. -/
def answerFails (io : Io) (server : FileServer) (c : Connection) : Prop :=
  c.answerDue ∧ headersFail io (c.prepareResponse io server).1

theorem answer_ends (io : Io) (server : FileServer) (h : Kept c r) :
    Ends (r.conn.answerFails io server) c (answer io server r) := by
  unfold answer answerFails answerDue
  split
  · next hd =>
    have hp := prepareResponse_prepared io server r.conn
    have hk : Kept c ⟨(r.conn.prepareResponse io server).1, .none,
        r.actions ++ (r.conn.prepareResponse io server).2⟩ := by
      refine ⟨hp.place.trans h.place, ?_, hp.fd.trans h.fd, ?_⟩
      · rw [hp.state]
        exact h.live
      · rw [traffic_append, h.quiet, hp.quiet]
        rfl
    exact Ends.congr (Ends.after hk (doSendHeaders_ends io hk.live)) (by simp [hd])
  · next hd => exact h.ends.congr (by simp [hd])

theorem secondHalf_ends (io : Io) (server : FileServer) (h : Kept c r) :
    Ends ((inlineParse io r).conn.answerFails io server) c (secondHalf io server r) :=
  answer_ends io server (inlineParse_kept io h)

/-- Answering a request fails after `process_connection` has looked for a closed connection. -/
def inlineFails (io : Io) (tls : Bool) (server : FileServer) (c : Connection) : Prop :=
  (inlineParse io (c.firstHalf io tls)).conn.answerFails io server

/-- The connection that `process_connection` leaves behind when its first step succeeds. -/
def advance (io : Io) (tls : Bool) (server : FileServer) (c : Connection) : Outcome :=
  secondHalf io server (c.firstHalf io tls)

theorem advance_ends (io : Io) (tls : Bool) (server : FileServer) (hc : c.state ≠ .closed)
    (hf : ¬ stateFails io c) :
    Ends (inlineFails io tls server c) c (c.advance io tls server) := by
  rcases firstHalf_ends io tls hc with ⟨hF, _⟩ | ⟨_, hk⟩
  · exact (hf hF).elim
  · exact secondHalf_ends io server hk

end Connection

namespace EventLoop
variable {s : EventLoop} {i : Nat}

/-- The three things that `process_connection` can do. -/
theorem processConnection_cases (s : EventLoop) (io : Io) (i : Nat) :
    ((s.conn i).state = .closed ∧ s.processConnection io i = s) ∨
    ((s.conn i).state ≠ .closed ∧ Connection.stateFails io (s.conn i) ∧
      ∃ r, Connection.HungUp (s.conn i) r ∧
        s.processConnection io i = (s.writeBack i r).destroyConnection i) ∨
    ((s.conn i).state ≠ .closed ∧ ¬ Connection.stateFails io (s.conn i) ∧
      ∃ r, r = (s.conn i).advance io s.tlsCtx s.fileServer ∧
        Connection.Ends ((s.conn i).inlineFails io s.tlsCtx s.fileServer) (s.conn i) r ∧
        s.processConnection io i =
          ((s.writeBack i r).syncKeepaliveList i (s.conn i).state).updateEvents i r.want) := by
  unfold processConnection
  dsimp only
  by_cases hc : (s.conn i).state = .closed
  · exact .inl ⟨hc, by simp [Connection.isClosed, hc]⟩
  · have hcl : ¬ (s.conn i).isClosed = true := by simpa [Connection.isClosed] using hc
    rw [if_neg hcl]
    rcases Connection.firstHalf_ends io s.tlsCtx hc with ⟨hf, hr⟩ | ⟨hf, hr⟩
    · have hrc : ((s.conn i).firstHalf io s.tlsCtx).conn.isClosed = true := by
        simp [Connection.isClosed, hr.closed]
      rw [if_pos hrc]
      exact .inr (.inl ⟨hc, hf, _, hr, rfl⟩)
    · have hrc : ¬ ((s.conn i).firstHalf io s.tlsCtx).conn.isClosed = true := by
        simpa [Connection.isClosed] using hr.live
      rw [if_neg hrc]
      exact .inr (.inr ⟨hc, hf, _, rfl, Connection.advance_ends io s.tlsCtx s.fileServer hc hf,
        rfl⟩)

end EventLoop

end FileWebServer
