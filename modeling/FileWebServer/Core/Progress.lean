import FileWebServer.Lib.Ranking
import FileWebServer.Core.Histories

namespace FileWebServer
open Ranking
set_option autoImplicit true
set_option maxRecDepth 20000
namespace Connection
variable {c d : Connection} {r : Outcome} {io : Io} {tls : Bool} {server : FileServer}

/-- The socket takes at least one byte of what it is offered, or fails. -/
def ready (c : Connection) (ret : SysResult Nat) (sslRet : SslResult Nat) : Bool :=
  if c.isTls then sslRet ≠ .wantRead ∧ sslRet ≠ .wantWrite else ret ≠ .again ∧ ret ≠ .done 0

/-- So does `sendfile`. It has something to send unless the file has been cut off meanwhile. -/
def fileReady (c : Connection) (io : Io) : Bool :=
  match io.sendfile with
  | .again n => 0 < n ∧ c.sendOffset < io.file.length
  | _ => true

/-- A call in which the socket takes something, whatever it is offered. -/
structure TakesSome (io : Io) (c : Connection) : Prop where
  header : c.ready io.headerWrite io.headerSslWrite = true
  body : c.ready io.bodyWrite io.bodySslWrite = true
  file : c.fileReady io = true

instance (io : Io) (c : Connection) : Decidable (TakesSome io c) :=
  decidable_of_iff (c.ready io.headerWrite io.headerSslWrite = true ∧
      c.ready io.bodyWrite io.bodySslWrite = true ∧ c.fileReady io = true)
    ⟨fun h => ⟨h.1, h.2.1, h.2.2⟩, fun h => ⟨h.header, h.body, h.file⟩⟩

/-- A step of a connection that owes `owed` bytes waits for a request or has closed the
connection, or it has paid at least `paid` of these bytes. -/
def Lowers (owed paid : Nat) (r : Outcome) : Prop :=
  (r.conn.state = .keepAlive ∨ r.conn.state = .closed) ∨
    (r.conn.Sending ∧ paid + r.conn.owed ≤ owed)

theorem Lowers.waits (h : r.conn.state = .keepAlive) : Lowers n k r := .inl (.inl h)

theorem Lowers.of_hangUp (c : Connection) (as : List Action) : Lowers n k (c.hangUp as) :=
  .inl (.inr (close_state c))

theorem Lowers.after (as : List Action) (h : Lowers n k r) : Lowers n k (r.after as) := h

theorem Lowers.mono (h : Lowers n k r) (hn : n + k' ≤ n' + k) : Lowers n' k' r := by
  refine h.imp_right fun ⟨hs, hle⟩ => ⟨hs, ?_⟩
  omega

/-- An attempt to send that the socket is not ready for leaves everything owed. -/
theorem onSent_lowers {attempt : Sent × List Action} {next : Nat → Outcome} (hs : c.Sending)
    (hn : c.owed ≤ n) (hwait : ∀ want, attempt.1 = .wait want → k = 0)
    (hnext : ∀ m, attempt.1 = .bytes m → Lowers n k (next m)) :
    Lowers n k (c.onSent attempt next) := by
  obtain ⟨sent, as⟩ := attempt
  cases sent with
  | bytes m => exact (hnext m rfl).after as
  | wait want =>
    refine .inr ⟨hs, ?_⟩
    rw [hwait want rfl, Nat.zero_add]
    exact hn
  | fatal => exact .of_hangUp c as

theorem sslWrite_ready {ssl : Option Nat} {ret : SslResult Nat} {offered : Bytes}
    (h : (sslWrite ssl ret offered).1 = .wait want) : ret = .wantRead ∨ ret = .wantWrite := by
  cases ret with
  | done n =>
    unfold sslWrite at h
    dsimp only at h
    split at h
    · cases h
    · cases h
  | wantRead => exact .inl rfl
  | wantWrite => exact .inr rfl
  | error => cases h

theorem sslWrite_pos {ssl : Option Nat} {ret : SslResult Nat} {offered : Bytes}
    (h : (sslWrite ssl ret offered).1 = .bytes n) : 0 < n := by
  cases ret with
  | done m =>
    unfold sslWrite at h
    dsimp only at h
    split at h
    · cases h
    · next hne =>
      cases h
      exact Nat.pos_of_ne_zero hne
  | wantRead => cases h
  | wantWrite => cases h
  | error => cases h

/-- A socket that is ready does not make the connection wait. -/
theorem transmit_ready {ret : SysResult Nat} {sslRet : SslResult Nat} {offered : Bytes}
    (hr : c.ready ret sslRet = true) : (c.transmit ret sslRet offered).1 ≠ .wait want := by
  intro h
  unfold ready at hr
  unfold transmit at h
  cases hssl : c.ssl with
  | none =>
    rw [isTls, hssl, if_neg (by decide)] at hr
    rw [hssl] at h
    cases ret with
    | done n => cases h
    | again => exact (of_decide_eq_true hr).1 rfl
    | error => cases h
  | some ssl =>
    rw [isTls, hssl, Option.isSome_some, if_pos rfl] at hr
    rw [hssl] at h
    rcases sslWrite_ready h with rfl | rfl
    · exact (of_decide_eq_true hr).1 rfl
    · exact (of_decide_eq_true hr).2 rfl

/-- It takes something, if there is something to take. -/
theorem transmit_pos {ret : SysResult Nat} {sslRet : SslResult Nat} {offered : Bytes}
    (hr : c.ready ret sslRet = true) (ho : offered ≠ [])
    (h : (c.transmit ret sslRet offered).1 = .bytes n) : 0 < n := by
  unfold ready at hr
  unfold transmit at h
  cases hssl : c.ssl with
  | none =>
    rw [isTls, hssl, if_neg (by decide)] at hr
    rw [hssl] at h
    cases ret with
    | done m =>
      have hm : m ≠ 0 := fun hm => (of_decide_eq_true hr).2 (congrArg _ hm)
      have hlen := List.length_pos_of_ne_nil ho
      have hn : min m offered.length = n := Sent.bytes.inj h
      omega
    | again => cases h
    | error => cases h
  | some ssl =>
    rw [hssl] at h
    exact sslWrite_pos h

theorem owed_body (hc : c.state = .sendingBody) : c.owed = c.bodyOwed := if_pos hc

theorem bodyOwed_memory (hm : c.fileFd < 0 ∧ c.response.hasBody) :
    c.bodyOwed = c.response.body.length - c.bodySent := if_pos hm

theorem bodyOwed_chunk (hm : ¬ (c.fileFd < 0 ∧ c.response.hasBody)) (ht : c.isTls = true)
    (hlt : c.chunkSent < c.chunkUsed) :
    c.bodyOwed = c.chunkUsed - c.chunkSent + (c.sendRemaining - c.chunkUsed).toNat := by
  unfold bodyOwed
  rw [if_neg hm, if_pos ⟨ht, hlt⟩]

theorem bodyOwed_file (hm : ¬ (c.fileFd < 0 ∧ c.response.hasBody))
    (h : ¬ (c.isTls = true ∧ c.chunkSent < c.chunkUsed)) :
    c.bodyOwed = c.sendRemaining.toNat := by
  unfold bodyOwed
  rw [if_neg hm, if_neg h]

/-- A step after which less of the body is owed. -/
theorem Lowers.sends (hd : d.state = .sendingBody) (hm : d.bodyOwed = m) (hle : k + m ≤ n) :
    Lowers n k ⟨d, want, as⟩ := by
  refine .inr ⟨.inr hd, ?_⟩
  change k + d.owed ≤ n
  rw [owed_body hd, hm]
  exact hle

theorem doSendBodyMemory_lowers (hc : c.state = .sendingBody)
    (hm : c.fileFd < 0 ∧ c.response.hasBody) (hk : k ≤ 1) (hr : 0 < k → TakesSome io c) :
    Lowers c.bodyOwed k (doSendBodyMemory io c) := by
  unfold doSendBodyMemory
  dsimp only
  split
  · exact .waits rfl
  · next hlen =>
    apply onSent_lowers (.inr hc) (Nat.le_of_eq (owed_body hc))
    · intro want hw
      by_contra hne
      exact transmit_ready (hr (Nat.pos_of_ne_zero hne)).body hw
    · intro n hn
      have hrest : c.response.body.drop c.bodySent ≠ [] := by
        rw [Ne, List.drop_eq_nil_iff]
        exact hlen
      have hpaid : k ≤ n := by
        by_cases hpos : 0 < k
        · exact hk.trans (transmit_pos (hr hpos).body hrest hn)
        · omega
      split
      · exact .waits rfl
      · next hmore =>
        refine .sends hc (bodyOwed_memory hm) ?_
        rw [bodyOwed_memory hm]
        dsimp only at hmore ⊢
        omega

theorem sendChunk_lowers (hc : c.state = .sendingBody)
    (hm : ¬ (c.fileFd < 0 ∧ c.response.hasBody)) (ht : c.isTls = true)
    (hlt : c.chunkSent < c.chunkUsed) (hk : k ≤ 1) (hr : 0 < k → TakesSome io c) :
    Lowers c.bodyOwed k (sendChunk io c) := by
  apply onSent_lowers (.inr hc) (Nat.le_of_eq (owed_body hc))
  · intro want hw
    by_contra hne
    have hready := (hr (Nat.pos_of_ne_zero hne)).body
    rw [ready, if_pos ht] at hready
    rcases sslWrite_ready hw with h | h
    · exact (of_decide_eq_true hready).1 h
    · exact (of_decide_eq_true hready).2 h
  · intro n hn
    have hpos := sslWrite_pos hn
    dsimp only
    split
    · next hdone =>
      refine .sends hc (bodyOwed_file hm fun h => Nat.not_lt_of_le hdone h.2) ?_
      rw [bodyOwed_chunk hm ht hlt]
      dsimp only
      omega
    · next hmore =>
      refine .sends hc (bodyOwed_chunk hm ht (Nat.lt_of_not_le hmore)) ?_
      rw [bodyOwed_chunk hm ht hlt]
      dsimp only at hmore ⊢
      omega

theorem doSendBodyTls_lowers (hc : c.state = .sendingBody)
    (hm : ¬ (c.fileFd < 0 ∧ c.response.hasBody)) (ht : c.isTls = true) (hk : k ≤ 1)
    (hr : 0 < k → TakesSome io c) : Lowers c.bodyOwed k (doSendBodyTls io c) := by
  unfold doSendBodyTls
  by_cases hle : c.chunkUsed ≤ c.chunkSent
  · rw [if_pos hle]
    split
    · exact .waits rfl
    · next hrem =>
      dsimp only
      split
      · exact .of_hangUp _ _
      · next hdata =>
        have hlen := readChunk_length_le io c
        have hpos := List.length_pos_of_ne_nil hdata
        have hread : c.toRead ≤ c.sendRemaining.toNat := Nat.min_le_left ..
        have hchunk : Lowers (c.loadChunk (c.readChunk io)).bodyOwed k
            (sendChunk io (c.loadChunk (c.readChunk io))) :=
          sendChunk_lowers hc hm ht hpos hk fun h => ⟨(hr h).header, (hr h).body, (hr h).file⟩
        apply (hchunk.mono _).after
        rw [bodyOwed_chunk (c := c.loadChunk (c.readChunk io)) hm ht hpos,
          bodyOwed_file hm fun h => Nat.not_lt_of_le hle h.2]
        change (c.readChunk io).length - 0 +
          (c.sendRemaining - (c.readChunk io).length).toNat + k ≤ _
        omega
  · rw [if_neg hle]
    exact sendChunk_lowers hc hm ht (Nat.lt_of_not_le hle) hk hr

theorem slice_pos {file : Bytes} {offset len : Int} (ho : 0 ≤ offset)
    (hlt : offset < file.length) (hlen : 0 < len) : 0 < (slice file offset len).length := by
  rw [slice, List.length_take, List.length_drop]
  omega

theorem doSendBodyPlain_lowers (hc : c.state = .sendingBody)
    (hm : ¬ (c.fileFd < 0 ∧ c.response.hasBody)) (ht : c.isTls = false) (hk : k ≤ 1)
    (hr : 0 < k → TakesSome io c) : Lowers c.bodyOwed k (doSendBodyPlain io c) := by
  unfold doSendBodyPlain
  split
  · exact .waits rfl
  · next hrem =>
    dsimp only
    split
    · exact .of_hangUp _ _
    · next hoff =>
      have hplain : ¬ (c.isTls = true ∧ c.chunkSent < c.chunkUsed) := by
        rw [ht]
        exact fun h => Bool.noConfusion h.1
      cases hsend : io.sendfile with
      | done => exact .waits rfl
      | again n =>
        have hdata := slice_length_le io.file c.sendOffset c.sendRemaining
        have hpaid : k ≤ min n (slice io.file c.sendOffset c.sendRemaining).length := by
          by_cases hpos : 0 < k
          · have hready := (hr hpos).file
            rw [fileReady, hsend] at hready
            obtain ⟨hn, hfile⟩ := of_decide_eq_true hready
            have hslice := slice_pos (Int.not_lt.1 hoff) hfile (Int.not_le.1 hrem)
            omega
          · omega
        refine .sends hc (bodyOwed_file hm hplain) ?_
        rw [bodyOwed_file hm hplain]
        dsimp only
        omega
      | error n => exact .of_hangUp _ _

/-- One call that sends a body, over either transport and from either source. -/
theorem doSendBody_lowers (hc : c.state = .sendingBody) (hk : k ≤ 1) (hr : 0 < k → TakesSome io c) :
    Lowers c.bodyOwed k (doSendBody io c) := by
  unfold doSendBody
  split
  · next hm => exact doSendBodyMemory_lowers hc hm hk hr
  · next hm =>
    split
    · next ht => exact doSendBodyTls_lowers hc hm ht hk hr
    · next ht => exact doSendBodyPlain_lowers hc hm (Bool.eq_false_iff.2 ht) hk hr

theorem headersSent_lowers (hk : k ≤ 1) (hr : 0 < k → TakesSome io c) :
    Lowers (if c.bodiless then 0 else c.bodyOwed) k (headersSent io c) := by
  unfold headersSent
  split
  · exact .waits rfl
  · exact doSendBody_lowers (c := { c with state := .sendingBody }) rfl hk
      fun h => ⟨(hr h).header, (hr h).body, (hr h).file⟩

theorem doSendHeaders_lowers (hc : c.state = .sendingHeaders) (hk : k ≤ 1)
    (hr : 0 < k → TakesSome io c) : Lowers c.owed k (doSendHeaders io c) := by
  have howed : c.owed = c.headerRest.length + if c.bodiless then 0 else c.bodyOwed := by
    apply if_neg
    rw [hc]
    exact State.noConfusion
  have hrest : c.headerRest.length = c.headerBuf.length - c.headerSent := List.length_drop ..
  apply onSent_lowers (.inl hc) (Nat.le_refl _)
  · intro want hw
    by_contra hne
    exact transmit_ready (hr (Nat.pos_of_ne_zero hne)).header hw
  · intro n hn
    have hle := transmit_le hn
    dsimp only
    by_cases hall : c.headerBuf.length ≤ c.headerSent + n
    · rw [if_pos hall, howed]
      have hbody := headersSent_lowers (c := { c with headerSent := c.headerSent + n }) hk
        fun h => ⟨(hr h).header, (hr h).body, (hr h).file⟩
      apply hbody.mono
      change (if c.bodiless then 0 else c.bodyOwed) + k ≤ _
      omega
    · rw [if_neg hall, howed]
      have hpaid : k ≤ n := by
        by_cases hpos : 0 < k
        · refine hk.trans (transmit_pos (hr hpos).header ?_ hn)
          apply List.ne_nil_of_length_pos
          omega
        · omega
      refine .inr ⟨.inl hc, ?_⟩
      have howed' : owed { c with headerSent := c.headerSent + n } =
          (c.headerBuf.drop (c.headerSent + n)).length + if c.bodiless then 0 else c.bodyOwed := by
        apply if_neg
        change ¬ c.state = .sendingBody
        rw [hc]
        exact State.noConfusion
      change k + owed { c with headerSent := c.headerSent + n } ≤ _
      rw [howed', List.length_drop]
      omega

/-- A call of `process_connection` on a connection that is sending its response ends the response
or the connection, or leaves it with less to send if the socket is ready. -/
theorem advance_lowers (tls : Bool) (server : FileServer) (hs : c.Sending) (hk : k ≤ 1)
    (hr : 0 < k → TakesSome io c) :
    Lowers c.owed k (c.advance io tls server) := by
  rw [(advance_sending io tls server hs).1]
  rcases hs with hc | hc
  · rw [stateAction, hc]
    exact doSendHeaders_lowers hc hk hr
  · rw [stateAction, hc, owed_body hc]
    exact doSendBody_lowers hc hk hr

theorem Sending.live (h : c.Sending) : c.state ≠ .closed := by
  rcases h with h | h
  · rw [h]
    exact State.noConfusion
  · rw [h]
    exact State.noConfusion

theorem owed_core (h : c.core = d.core) : c.owed = d.owed := by
  have howed := congrArg owed h
  exact howed

theorem sending_core (h : c.core = d.core) (hs : d.Sending) : c.Sending := by
  unfold Sending
  rw [core_state h]
  exact hs

end Connection

namespace EventLoop
open Connection
variable {s : EventLoop} {i : Nat} {inputs : List Input}

/-- Whether an input is a call for slot `i` in which its socket takes something. -/
def readyCall (i : Nat) (s : EventLoop) (input : Input) : Nat :=
  match input.visitOf i with
  | some (.process io) => if TakesSome io (s.conn i) then 1 else 0
  | _ => 0

/-- While a connection sends its response, what it still owes pays for the calls in which its
socket takes something, whatever else the event loop does. -/
theorem ranked_response (i : Nat) : Ranked step FreshInput
    (fun s => (∃ l, Good s l) ∧ (s.conn i).Sending)
    (fun s => (s.conn i).state = .keepAlive ∨ (s.conn i).state = .closed)
    (fun s => (s.conn i).owed) (readyCall i) := by
  rintro s input ⟨⟨l, hg⟩, hs⟩ hf
  have hlive := hs.live
  have hgood := step_good hg hf
  have helse := (step_elsewhere hg (hg.slots.live i hlive) input).conn
  have hsame (hcore : ((s.step input).conn i).core = (s.conn i).core) :
      ((∃ l, Good (s.step input) l) ∧ ((s.step input).conn i).Sending) ∧
        0 + ((s.step input).conn i).owed ≤ (s.conn i).owed := by
    rw [Nat.zero_add, owed_core hcore]
    exact ⟨⟨hgood, sending_core hcore hs⟩, Nat.le_refl _⟩
  unfold readyCall
  dsimp only
  cases hv : input.visitOf i with
  | none =>
    rw [hv] at helse
    exact .inr (hsame helse)
  | some v =>
    rw [hv] at helse
    have hcore := helse.trans (visit_outcome s i v).1
    cases v with
    | destroy =>
      refine .inl (.inr ?_)
      rw [core_state hcore]
      exact close_state _
    | sweep now =>
      have hwaiting : (s.conn i).visit s.tlsCtx s.fileServer s.keepAliveTimeout (.sweep now) =
          ⟨s.conn i, .none, []⟩ := by
        apply if_neg
        rintro ⟨hk, _⟩
        rcases hs with hs | hs
        · exact State.noConfusion (hs.symm.trans hk)
        · exact State.noConfusion (hs.symm.trans hk)
      rw [hwaiting] at hcore
      exact .inr (hsame hcore)
    | process io =>
      have hk : (if TakesSome io (s.conn i) then 1 else 0) ≤ 1 := by split <;> decide
      have hr : 0 < (if TakesSome io (s.conn i) then 1 else 0) → TakesSome io (s.conn i) := by
        intro hpos
        by_contra hnot
        rw [if_neg hnot] at hpos
        exact absurd hpos (by decide)
      rcases advance_lowers s.tlsCtx s.fileServer hs hk hr with
        hend | ⟨hsend, hle⟩
      · left
        rw [core_state hcore]
        exact hend
      · right
        rw [owed_core hcore]
        exact ⟨⟨hgood, sending_core hcore hsend⟩, hle⟩

/-- The socket is ready for one byte of a body. -/
def oneByte : Io := { headerWrite := .done 4096, bodyWrite := .done 1, sendfile := .done }

end EventLoop

end FileWebServer
