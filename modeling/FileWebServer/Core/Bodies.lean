import FileWebServer.Core.Alike
import FileWebServer.Core.Framing
import FileWebServer.Core.Resumption

namespace FileWebServer
set_option autoImplicit true
set_option maxRecDepth 20000

namespace Connection
variable {c : Connection} {r : Outcome} {io : Io} {file sent more : Bytes} {start len : Int}

/-- What comes right behind a beginning of a slice makes it longer. -/
theorem slice_extend (h : sent <+: slice file start len) (hs : 0 ≤ start)
    (hmore : more <+: slice file (start + sent.length) (len - sent.length)) :
    sent ++ more <+: slice file start len := by
  rw [← slice_split file len sent.length hs, ← List.prefix_iff_eq_take.1 h]
  exact (List.prefix_append_right_inj sent).2 hmore

/-- A beginning of a slice that is as long as the slice was to be is all of it. -/
theorem slice_whole (h : sent <+: slice file start len) (hlen : len ≤ sent.length) :
    sent = slice file start len ∧ sent.length = len.toNat := by
  have hle := slice_length_le file start len
  have hpre := h.length_le
  exact ⟨h.eq_of_length_le (by omega), by omega⟩

/-- A connection that sends a file, with what its socket has taken so far. -/
structure Transfer where
  conn : Connection
  sent : Bytes

/-- An event makes one more call as long as the body is being sent. -/
def Transfer.call (send : Io → Connection → Outcome) (t : Transfer) (io : Io) : Transfer :=
  if t.conn.state = .sendingBody then
    ⟨(send io t.conn).conn, t.sent ++ wire (send io t.conn).actions⟩
  else t

/-- What has been sent is a beginning of the bytes `[start, start + len)` of a file, and all of
them when the connection goes back to waiting. -/
structure BodyExact (file : Bytes) (start len : Int) (t : Transfer) : Prop where
  begun : t.sent <+: slice file start len
  whole : t.conn.state = .keepAlive → t.sent = slice file start len ∧ t.sent.length = len.toNat

/-- How many bytes of the current chunk have been sent without being counted as sent. -/
def uncounted (c : Connection) : Nat := if c.chunkUsed ≤ c.chunkSent then 0 else c.chunkSent

/-- The two cursors of a body over TLS are where the bytes sent have led them, and what is left of
the chunk is what comes next. -/
structure Ahead (file : Bytes) (start len : Int) (c : Connection) (sent : Bytes) : Prop where
  origin : 0 ≤ start ∨ (sent = [] ∧ c.chunkUsed ≤ c.chunkSent)
  chunk : sent ++ c.chunkRest <+: slice file start len
  size : c.chunkRest.length = c.chunkUsed - c.chunkSent
  offset : c.sendOffset + c.uncounted = start + sent.length
  remaining : c.sendRemaining - c.uncounted = len - sent.length

/-- What a call leaves behind: the connection is closed, or has sent all, or can go on. -/
structure Proceeds (file : Bytes) (start len : Int) (sent : Bytes) (r : Outcome) : Prop where
  begun : sent ++ wire r.actions <+: slice file start len
  ends : r.conn.state = .closed ∨
    (r.conn.state = .keepAlive ∧ len ≤ (sent ++ wire r.actions).length) ∨
    (r.conn.state = .sendingBody ∧ Ahead file start len r.conn (sent ++ wire r.actions))

theorem Proceeds.after {as : List Action} (h : Proceeds file start len sent r)
    (has : wire as = []) : Proceeds file start len sent (r.after as) := by
  have hw : wire (r.after as).actions = wire r.actions := by
    rw [Outcome.after_actions, wire_append, has, List.nil_append]
  exact ⟨hw ▸ h.begun, hw ▸ h.ends⟩

theorem Proceeds.hangUp {as : List Action} (h : sent <+: slice file start len)
    (has : wire as = []) : Proceeds file start len sent (c.hangUp as) := by
  refine ⟨?_, .inl (close_state c)⟩
  rw [hangUp_wire, has, List.append_nil]
  exact h

theorem Ahead.begun (h : Ahead file start len c sent) : sent <+: slice file start len :=
  (List.prefix_append _ _).trans h.chunk

/-- A file is only read from its beginning on. -/
theorem Ahead.start_nonneg (h : Ahead file start len c sent) (hle : c.chunkUsed ≤ c.chunkSent)
    (hoff : 0 ≤ c.sendOffset) : 0 ≤ start := by
  rcases h.origin with hs | ⟨hn, _⟩
  · exact hs
  · have hun : c.uncounted = 0 := if_pos hle
    have hoffset := h.offset
    rw [hun, hn, List.length_nil] at hoffset
    omega

/-- The cursors stay where they should be when `n` more bytes of the chunk have been taken. -/
theorem Ahead.taken {d : Connection} {n : Nat} (h : Ahead file start len c sent)
    (hlt : c.chunkSent < c.chunkUsed) (hn : n ≤ c.chunkRest.length)
    (hrest : d.chunkRest = c.chunkRest.drop n)
    (hsize : d.chunkUsed - d.chunkSent = c.chunkUsed - (c.chunkSent + n))
    (hoffset : d.sendOffset + d.uncounted = c.sendOffset + (c.chunkSent + n))
    (hremaining : d.sendRemaining - d.uncounted = c.sendRemaining - (c.chunkSent + n)) :
    Ahead file start len d (sent ++ c.chunkRest.take n) := by
  have hun : c.uncounted = c.chunkSent := if_neg (Nat.not_le_of_lt hlt)
  have hlen : (sent ++ c.chunkRest.take n).length = sent.length + n := by
    rw [List.length_append, List.length_take, Nat.min_eq_left hn]
  have hoff := h.offset
  have hrem := h.remaining
  rw [hun] at hoff hrem
  constructor
  · exact .inl (h.origin.resolve_right fun hs => Nat.not_le_of_lt hlt hs.2)
  · rw [hrest, List.append_assoc, List.take_append_drop]
    exact h.chunk
  · rw [hrest, hsize, List.length_drop, h.size]
    omega
  · rw [hoffset, hlen]
    push_cast
    omega
  · rw [hremaining, hlen]
    push_cast
    omega

/-- `SSL_write` takes a part of the current chunk. -/
theorem sendChunk_proceeds (io : Io) (hc : c.state = .sendingBody)
    (h : Ahead file start len c sent) (hlt : c.chunkSent < c.chunkUsed) :
    Proceeds file start len sent (sendChunk io c) := by
  have hw := sslWrite_wire c.ssl io.bodySslWrite c.chunkRest
  have hle {n : Nat} (hn : (sslWrite c.ssl io.bodySslWrite c.chunkRest).1 = .bytes n) :
      n ≤ c.chunkRest.length := sslWrite_le hn
  unfold sendChunk
  generalize sslWrite c.ssl io.bodySslWrite c.chunkRest = attempt at hw hle
  obtain ⟨taken, as⟩ := attempt
  cases taken with
  | wait want =>
    have hnil : wire as = [] := hw
    have hquiet : sent ++ wire as = sent := by
      rw [hnil, List.append_nil]
    exact ⟨hquiet.symm ▸ h.begun, .inr (.inr ⟨hc, hquiet.symm ▸ h⟩)⟩
  | fatal => exact .hangUp h.begun hw
  | bytes n =>
    have hn : n ≤ c.chunkRest.length := hle rfl
    have htaken : sent ++ wire as = sent ++ c.chunkRest.take n := congrArg (sent ++ ·) hw
    have hgoes {d : Connection} (hd : d.state = .sendingBody)
        (ha : Ahead file start len d (sent ++ c.chunkRest.take n)) :
        Proceeds file start len sent (Outcome.after ⟨d, .write, []⟩ as) := by
      rw [← htaken] at ha
      rw [Outcome.after, List.append_nil]
      exact ⟨ha.begun, .inr (.inr ⟨hd, ha⟩)⟩
    dsimp only [onSent]
    split
    · next hdone =>
      have hnone : uncounted { c with
          chunkSent := c.chunkSent + n
          sendOffset := c.sendOffset + c.chunkUsed
          sendRemaining := c.sendRemaining - c.chunkUsed } = 0 := if_pos hdone
      have hused : (c.chunkUsed : Int) = c.chunkSent + n := by
        have hsize := h.size
        omega
      refine hgoes hc (h.taken hlt hn (chunkRest_sent c n) rfl ?_ ?_)
      · rw [hnone, ← hused]
        exact add_zero _
      · rw [hnone, ← hused]
        exact sub_zero _
    · next hmore =>
      have hsome : uncounted { c with chunkSent := c.chunkSent + n } = c.chunkSent + n :=
        if_neg hmore
      refine hgoes hc (h.taken hlt hn (chunkRest_sent c n) rfl ?_ ?_)
      · rw [hsome]
        rfl
      · rw [hsome]
        rfl

/-- One call of `do_send_body_tls`. -/
theorem doSendBodyTls_proceeds (hfile : io.file = file) (hc : c.state = .sendingBody)
    (h : Ahead file start len c sent) : Proceeds file start len sent (doSendBodyTls io c) := by
  have hbegun := h.begun
  unfold doSendBodyTls
  by_cases hle : c.chunkUsed ≤ c.chunkSent
  · have hun : c.uncounted = 0 := if_pos hle
    have hoffset := h.offset
    have hremaining := h.remaining
    rw [hun] at hoffset hremaining
    rw [if_pos hle]
    split
    · next hrem =>
      have hw : sent ++ wire (c.finishFile []).actions = sent := by
        rw [finishFile_wire]
        exact List.append_nil sent
      refine ⟨hw.symm ▸ hbegun, .inr (.inl ⟨rfl, ?_⟩)⟩
      rw [hw]
      omega
    · dsimp only
      split
      · exact .hangUp hbegun rfl
      · next hdata =>
        obtain ⟨hoff, hread⟩ := readChunk_eq hfile hdata
        have hpos := List.length_pos_of_ne_nil hdata
        have hstart := h.start_nonneg hle hoff
        have hnext : c.readChunk io <+: slice file (start + sent.length) (len - sent.length) := by
          have ho : start + sent.length = c.sendOffset := by omega
          have hl : len - sent.length = c.sendRemaining := by omega
          rw [ho, hl, hread]
          exact List.take_prefix ..
        have hload : (c.loadChunk (c.readChunk io)).uncounted = 0 :=
          if_neg (Nat.not_le_of_lt hpos)
        refine Proceeds.after (sendChunk_proceeds io hc ?_ hpos) rfl
        constructor
        · exact .inl hstart
        · rw [loadChunk_rest]
          exact slice_extend hbegun hstart hnext
        · rw [loadChunk_rest]
          exact (Nat.sub_zero _).symm
        · rw [hload]
          exact hoffset
        · rw [hload]
          exact hremaining
  · rw [if_neg hle]
    exact sendChunk_proceeds io hc h (Nat.lt_of_not_le hle)

/-- Where a transfer is: it can go on, or its connection is closed, or waits after all was sent. -/
structure Transfer.Inv (file : Bytes) (start len : Int) (t : Transfer) : Prop where
  exact : BodyExact file start len t
  ahead : t.conn.state = .sendingBody → Ahead file start len t.conn t.sent

theorem Proceeds.inv (h : Proceeds file start len sent r) :
    Transfer.Inv file start len ⟨r.conn, sent ++ wire r.actions⟩ := by
  refine ⟨⟨h.begun, fun hk => ?_⟩, fun hs => ?_⟩
  · rcases h.ends with hend | ⟨_, hlen⟩ | ⟨hend, _⟩
    · rw [hend] at hk
      cases hk
    · exact slice_whole h.begun hlen
    · rw [hend] at hk
      cases hk
  · rcases h.ends with hend | ⟨hend, _⟩ | ⟨_, hahead⟩
    · rw [hend] at hs
      cases hs
    · rw [hend] at hs
      cases hs
    · exact hahead

variable {t : Transfer}

theorem Transfer.Inv.tls (h : t.Inv file start len) (hfile : io.file = file) :
    (t.call doSendBodyTls io).Inv file start len := by
  unfold call
  split
  · next hc => exact (doSendBodyTls_proceeds hfile hc (h.ahead hc)).inv
  · exact h

/-- Once the bytes that the file has are sent, the next call finds no more of them. -/
theorem Ahead.cut (h : Ahead file start len c sent) (hall : sent = slice file start len)
    (hlen : sent.length < len.toNat) (hfile : io.file = file) :
    (doSendBodyTls io c).conn.state = .closed := by
  have hnil : c.chunkRest = [] := by
    have hchunk := h.chunk.length_le
    rw [← hall, List.length_append] at hchunk
    exact List.length_eq_zero_iff.1 (by omega)
  have hsize := h.size
  have hoffset := h.offset
  have hremaining := h.remaining
  rw [hnil, List.length_nil] at hsize
  have hle : c.chunkUsed ≤ c.chunkSent := by omega
  have hun : c.uncounted = 0 := if_pos hle
  rw [hun] at hoffset hremaining
  have hnone : c.readChunk io = [] := by
    by_contra hdata
    obtain ⟨hoff, hread⟩ := readChunk_eq hfile hdata
    have hend : slice file c.sendOffset c.sendRemaining = [] := by
      have hsplit := slice_split file len sent.length (h.start_nonneg hle hoff)
      rw [← hall, List.take_length, List.append_right_eq_self] at hsplit
      have ho : start + sent.length = c.sendOffset := by omega
      have hl : len - sent.length = c.sendRemaining := by omega
      rw [← ho, ← hl, hsplit]
    rw [hend, List.take_nil] at hread
    exact hdata hread
  rw [doSendBodyTls, if_pos hle, if_neg (by omega)]
  dsimp only
  rw [if_pos hnone]
  exact close_state _

/-- What an attempt to write offers to the SSL object. -/
def offers (actions : List Action) : List Bytes :=
  actions.filterMap fun
    | .sslWrite _ offered _ => some offered
    | _ => none

theorem sslWrite_offers (ssl : Option Nat) (ret : SslResult Nat) (offered : Bytes) :
    offers (sslWrite ssl ret offered).2 = [offered] := by
  unfold sslWrite
  cases ret with
  | done n =>
    dsimp only
    split <;> rfl
  | wantRead => rfl
  | wantWrite => rfl
  | error => rfl

theorem offers_append (as bs : List Action) : offers (as ++ bs) = offers as ++ offers bs :=
  List.filterMap_append

theorem mem_offers {ssl : Option Nat} {data : Bytes} {ret : SslResult Nat}
    (h : .sslWrite ssl data ret ∈ actions) : data ∈ offers actions :=
  List.mem_filterMap.2 ⟨_, h, rfl⟩

theorem closeFileActions_offers (c : Connection) : offers c.closeFileActions = [] := by
  unfold closeFileActions
  split <;> rfl

theorem closeActions_offers (c : Connection) : offers c.closeActions = [] := by
  unfold closeActions
  split
  · rfl
  · rw [offers_append, offers_append, closeFileActions_offers]
    cases c.ssl with
    | none => split <;> rfl
    | some => split <;> rfl

theorem hangUp_offers (c : Connection) (as : List Action) :
    offers (c.hangUp as).actions = offers as := by
  rw [hangUp, offers_append, closeActions_offers, List.append_nil]

/-- There is one attempt to write in a call, from the current chunk. -/
theorem sendChunk_offers (io : Io) (c : Connection) :
    offers (sendChunk io c).actions = [c.chunkRest] := by
  have hw := sslWrite_offers c.ssl io.bodySslWrite c.chunkRest
  unfold sendChunk
  generalize sslWrite c.ssl io.bodySslWrite c.chunkRest = attempt at hw
  obtain ⟨taken, as⟩ := attempt
  cases taken with
  | wait want => exact hw
  | fatal => exact (hangUp_offers c as).trans hw
  | bytes n =>
    dsimp only [onSent]
    rw [Outcome.after_actions, offers_append, hw]
    split <;> rfl

theorem sslWrite_wantWrite {ssl ssl' : Option Nat} {data offered : Bytes} {ret : SslResult Nat}
    (h : .sslWrite ssl data .wantWrite ∈ (sslWrite ssl' ret offered).2) :
    (sslWrite ssl' ret offered).1 = .wait .write := by
  unfold sslWrite at h ⊢
  cases ret with
  | done n =>
    dsimp only at h
    split at h <;> simp at h
  | wantRead => simp at h
  | wantWrite => rfl
  | error => simp at h

/-- An attempt that is to be repeated leaves the chunk as it is. -/
theorem sendChunk_waits {ssl : Option Nat} {data : Bytes}
    (h : .sslWrite ssl data .wantWrite ∈ (sendChunk io c).actions) : (sendChunk io c).conn = c := by
  have hwait (hm : .sslWrite ssl data .wantWrite ∈
      (sslWrite c.ssl io.bodySslWrite c.chunkRest).2) := sslWrite_wantWrite hm
  unfold sendChunk at h ⊢
  generalize sslWrite c.ssl io.bodySslWrite c.chunkRest = attempt at h hwait
  obtain ⟨taken, as⟩ := attempt
  cases taken with
  | wait want => rfl
  | fatal =>
    rcases List.mem_append.1 h with hm | hm
    · cases hwait hm
    · have hoff := mem_offers hm
      rw [closeActions_offers] at hoff
      cases hoff
  | bytes n =>
    dsimp only [onSent] at h
    rw [Outcome.after_actions] at h
    rcases List.mem_append.1 h with hm | hm
    · cases hwait hm
    · split at hm <;> cases hm

/-- A retry after `SSL_ERROR_WANT_WRITE` offers the same bytes again. -/
theorem doSendBodyTls_retry {ssl : Option Nat} {data : Bytes}
    (h : .sslWrite ssl data .wantWrite ∈ (doSendBodyTls io c).actions) (io' : Io) :
    offers (doSendBodyTls io' (doSendBodyTls io c).conn).actions = [data] := by
  have hagain {d : Connection} (hlt : d.chunkSent < d.chunkUsed)
      (hd : .sslWrite ssl data .wantWrite ∈ (sendChunk io d).actions) :
      offers (doSendBodyTls io' (sendChunk io d).conn).actions = [data] := by
    have hdata := mem_offers hd
    rw [sendChunk_offers, List.mem_singleton] at hdata
    rw [sendChunk_waits hd, doSendBodyTls, if_neg (Nat.not_le_of_lt hlt), sendChunk_offers, hdata]
  unfold doSendBodyTls at h ⊢
  by_cases hle : c.chunkUsed ≤ c.chunkSent
  · rw [if_pos hle] at h ⊢
    by_cases hrem : c.sendRemaining ≤ 0
    · rw [if_pos hrem] at h
      have hoff := mem_offers h
      rw [finishFile, List.nil_append, closeFileActions_offers] at hoff
      cases hoff
    · rw [if_neg hrem] at h ⊢
      by_cases hnone : c.readChunk io = []
      · dsimp only at h
        rw [if_pos hnone] at h
        have hoff := mem_offers h
        rw [hangUp_offers] at hoff
        cases hoff
      · dsimp only at h ⊢
        rw [if_neg hnone] at h ⊢
        have hd := (List.mem_append.1 h).resolve_left (by simp)
        exact hagain (List.length_pos_of_ne_nil hnone) hd
  · rw [if_neg hle] at h ⊢
    exact hagain (Nat.lt_of_not_le hle) h

/-- A transfer over TLS: it is exact, cut short if the file is, and repeats what was not taken. -/
structure TlsBodyExact (file : Bytes) (start len : Int) (t : Transfer) : Prop
    extends BodyExact file start len t where
  cut : t.conn.state = .sendingBody → t.sent = slice file start len →
    t.sent.length < len.toNat → ∀ io : Io, io.file = file →
      (t.call doSendBodyTls io).conn.state = .closed
  retry : ∀ io ssl data, .sslWrite ssl data .wantWrite ∈ (doSendBodyTls io t.conn).actions →
    ∀ io', offers (doSendBodyTls io' (doSendBodyTls io t.conn).conn).actions = [data]

theorem Transfer.Inv.tlsExact (h : t.Inv file start len) : TlsBodyExact file start len t := by
  refine ⟨h.exact, fun hc hall hlen io hfile => ?_, fun io ssl data hw io' => ?_⟩
  · rw [call, if_pos hc]
    exact (h.ahead hc).cut hall hlen hfile
  · exact doSendBodyTls_retry hw io'

/-- A connection that has nothing of a chunk left over is at the beginning of its file. -/
theorem Ahead.first (hchunk : c.chunkUsed ≤ c.chunkSent) :
    Ahead file c.sendOffset c.sendRemaining c [] := by
  have hun : c.uncounted = 0 := if_pos hchunk
  have hnil := chunkRest_of_le hchunk
  refine ⟨.inr ⟨rfl, hchunk⟩, ?_, ?_, ?_, ?_⟩
  · rw [hnil]
    exact List.nil_prefix
  · rw [hnil, List.length_nil]
    omega
  · rw [hun, List.length_nil]
  · rw [hun, List.length_nil]

theorem Transfer.Inv.first (hc : c.state = .sendingBody) (hchunk : c.chunkUsed ≤ c.chunkSent) :
    Transfer.Inv file c.sendOffset c.sendRemaining ⟨c, []⟩ := by
  refine ⟨⟨List.nil_prefix, fun hk => ?_⟩, fun _ => .first hchunk⟩
  rw [hc] at hk
  cases hk

/-- Whatever `pread` and `SSL_write` return, a file is sent exactly over TLS. -/
theorem tls_body_exact (hc : c.state = .sendingBody) (hchunk : c.chunkUsed ≤ c.chunkSent)
    (ios : List Io) (hfile : ∀ io ∈ ios, io.file = file) :
    Run.Throughout (Transfer.call doSendBodyTls) (TlsBodyExact file c.sendOffset c.sendRemaining)
      ⟨c, []⟩ ios := by
  have halong : Run.Along (Transfer.call doSendBodyTls) (fun _ io => io.file = file) ⟨c, []⟩ ios :=
    Run.Along.of_forall hfile
  have hinv : Run.Throughout (Transfer.call doSendBodyTls)
      (Transfer.Inv file c.sendOffset c.sendRemaining) ⟨c, []⟩ ios :=
    Run.throughout_of_along (fun t io ht hio => ht.tls hio) (Transfer.Inv.first hc hchunk) halong
  exact hinv.mono fun t ht => ht.tlsExact

/-- `pread` gives four bytes of a file at a time. -/
def fourAtATime (taken : SslResult Nat) : Io :=
  { file := bytes "abcdefgh", pread := .done 4, bodySslWrite := taken }

/-- A connection that is to send the last six bytes of a file. -/
def lastSix : Connection :=
  { state := .sendingBody, ssl := some 1, fileFd := 9, sendOffset := 2, sendRemaining := 6 }

theorem tls_body_exact_lastSix :
    Run.Throughout (Transfer.call doSendBodyTls) (TlsBodyExact (bytes "abcdefgh") 2 6)
      ⟨lastSix, []⟩ [fourAtATime (.done 3), fourAtATime .wantWrite, fourAtATime (.done 3)] := by
  apply tls_body_exact (c := lastSix) rfl (Nat.le_refl 0)
  simp [fourAtATime]

/-- What a call meets of a file that nobody changes but by truncating it. -/
def Truncations (file : Bytes) : Type := {io : Io // io.file <+: file}

def plainCall (t : Transfer) (io : Truncations file) : Transfer := t.call doSendBodyPlain io.1

/-- Whenever `sendfile` returns 0, the file still reaches to the end of what is to be sent. -/
def Reaches (t : Transfer) (io : Truncations file) : Prop :=
  t.conn.state = .sendingBody → 0 ≤ t.conn.sendOffset → 0 < t.conn.sendRemaining →
    io.1.sendfile = .done → t.conn.sendOffset + t.conn.sendRemaining ≤ io.1.file.length

/-- The cursor of a plain body is where the bytes sent have led it. -/
structure Transfer.PlainInv (file : Bytes) (start len : Int) (t : Transfer) : Prop where
  exact : BodyExact file start len t
  origin : 0 ≤ start ∨ t.sent = []
  cursor : t.conn.state = .sendingBody → t.conn.sendOffset = start + t.sent.length ∧
    t.conn.sendRemaining = len - t.sent.length

theorem slice_isPrefix {part : Bytes} (h : part <+: file) (offset len : Int) :
    slice part offset len <+: slice file offset len := by
  unfold slice
  exact (h.drop _).take _

/-- What `sendfile` puts on the socket comes right behind what has been sent. -/
theorem Transfer.PlainInv.extend (h : t.PlainInv file start len) (io : Truncations file)
    (hc : t.conn.state = .sendingBody) (hoff : 0 ≤ t.conn.sendOffset)
    (hmore : more <+: slice io.1.file t.conn.sendOffset t.conn.sendRemaining) :
    0 ≤ start ∧ t.sent ++ more <+: slice file start len := by
  obtain ⟨ho, hr⟩ := h.cursor hc
  have hstart : 0 ≤ start := by
    rcases h.origin with hs | hn
    · exact hs
    · rw [hn, List.length_nil] at ho
      omega
  refine ⟨hstart, slice_extend h.exact.begun hstart ?_⟩
  rw [← ho, ← hr]
  exact hmore.trans (slice_isPrefix io.2 _ _)

/-- A slice that the file reaches the end of has its full length. -/
theorem slice_length {offset : Int} (hoff : 0 ≤ offset) (h : 0 ≤ len)
    (hreach : offset + len ≤ file.length) : ((slice file offset len).length : Int) = len := by
  rw [slice, List.length_take, List.length_drop]
  omega

theorem slice_length_lt {offset : Int} (hoff : 0 ≤ offset) (h : 0 < len)
    (hshort : ¬ offset + len ≤ file.length) : ((slice file offset len).length : Int) < len := by
  rw [slice, List.length_take, List.length_drop]
  omega

/-- A call that closes the connection leaves nothing to be gone on with. -/
theorem Transfer.PlainInv.closed (hbegun : sent <+: slice file start len)
    (horigin : 0 ≤ start ∨ sent = []) (hc : c.state = .closed) :
    Transfer.PlainInv file start len ⟨c, sent⟩ := by
  refine ⟨⟨hbegun, fun hk => ?_⟩, horigin, fun hs => ?_⟩
  · rw [hc] at hk
    cases hk
  · rw [hc] at hs
    cases hs

/-- A call that ends the body has sent it all. -/
theorem Transfer.PlainInv.finished (hbegun : sent <+: slice file start len)
    (horigin : 0 ≤ start ∨ sent = []) (hc : c.state = .keepAlive) (hlen : len ≤ sent.length) :
    Transfer.PlainInv file start len ⟨c, sent⟩ := by
  refine ⟨⟨hbegun, fun _ => slice_whole hbegun hlen⟩, horigin, fun hs => ?_⟩
  rw [hc] at hs
  cases hs

theorem Transfer.PlainInv.call (h : t.PlainInv file start len) {io : Truncations file}
    (hreach : Reaches t io) : (plainCall t io).PlainInv file start len := by
  unfold plainCall Transfer.call
  split
  · next hc =>
    obtain ⟨ho, hr⟩ := h.cursor hc
    have hbegun := h.exact.begun
    unfold doSendBodyPlain
    split
    · next hrem =>
      rw [finishFile_wire, wire_nil, List.append_nil]
      exact .finished hbegun h.origin rfl (by omega)
    · next hrem =>
      dsimp only
      split
      · rw [hangUp_wire]
        change Transfer.PlainInv file start len ⟨_, t.sent ++ []⟩
        rw [List.append_nil]
        exact .closed hbegun h.origin (close_state _)
      · next hoff =>
        have hoff := Int.not_lt.1 hoff
        have hextend {more : Bytes}
            (hmore : more <+: slice io.1.file t.conn.sendOffset t.conn.sendRemaining) :=
          h.extend io hc hoff hmore
        cases hs : io.1.sendfile with
        | done =>
          obtain ⟨hstart, hall⟩ := hextend (List.prefix_refl _)
          have hlen := slice_length hoff (by omega) (hreach hc hoff (by omega) hs)
          rw [finishFile_wire]
          change Transfer.PlainInv file start len ⟨_, t.sent ++ (slice io.1.file _ _ ++ [])⟩
          rw [List.append_nil]
          refine .finished hall (.inl hstart) rfl ?_
          rw [List.length_append]
          push_cast
          omega
        | again n =>
          obtain ⟨hstart, hall⟩ := hextend (List.take_prefix n _)
          change Transfer.PlainInv file start len ⟨_, t.sent ++ ((slice io.1.file _ _).take n ++ [])⟩
          rw [List.append_nil]
          refine ⟨⟨hall, fun hk => ?_⟩, .inl hstart, fun _ => ?_⟩
          · cases hc.symm.trans hk
          · dsimp only
            rw [List.length_append, List.length_take]
            push_cast
            omega
        | error n =>
          obtain ⟨hstart, hall⟩ := hextend (List.take_prefix _ _)
          rw [hangUp_wire]
          change Transfer.PlainInv file start len ⟨_, t.sent ++ ((slice io.1.file _ _).take _ ++ [])⟩
          rw [List.append_nil]
          exact .closed hall (.inl hstart) (close_state _)
  · exact h

/-- When `sendfile` returns 0, the body is taken to be sent. -/
theorem doSendBodyPlain_done (hrem : 0 < c.sendRemaining) (hoff : 0 ≤ c.sendOffset)
    (hs : io.sendfile = .done) : (doSendBodyPlain io c).conn.state = .keepAlive ∧
      wire (doSendBodyPlain io c).actions = slice io.file c.sendOffset c.sendRemaining := by
  unfold doSendBodyPlain
  rw [if_neg (Int.not_le.2 hrem)]
  dsimp only
  rw [if_neg (Int.not_lt.2 hoff), hs]
  dsimp only
  rw [finishFile_wire]
  exact ⟨rfl, List.append_nil _⟩

/-- When `sendfile` returns 0 at the end of a truncated file, too little has been sent. -/
theorem Transfer.PlainInv.falls_short (h : t.PlainInv file start len) {io : Truncations file}
    (hreach : ¬ Reaches t io) : ¬ BodyExact file start len (plainCall t io) := by
  unfold Reaches at hreach
  simp only [Classical.not_imp] at hreach
  obtain ⟨hc, hoff, hrem, hs, hshort⟩ := hreach
  obtain ⟨ho, hr⟩ := h.cursor hc
  have hlt := slice_length_lt hoff hrem hshort
  obtain ⟨hwaits, hwire⟩ := doSendBodyPlain_done hrem hoff hs
  have hcall : plainCall t io = ⟨(doSendBodyPlain io.1 t.conn).conn,
      t.sent ++ wire (doSendBodyPlain io.1 t.conn).actions⟩ := if_pos hc
  rw [hcall, hwire]
  intro hexact
  have hlen := (hexact.whole hwaits).2
  rw [List.length_append] at hlen
  omega

/-- A file is sent exactly over a plain socket in just those runs in which `sendfile` never
returns 0 at the end of a file that has been truncated. -/
theorem plain_body_exact_iff (hc : c.state = .sendingBody) (ios : List (Truncations file)) :
    Run.Throughout plainCall (BodyExact file c.sendOffset c.sendRemaining) ⟨c, []⟩ ios ↔
      Run.Along plainCall Reaches ⟨c, []⟩ ios := by
  apply Run.throughout_iff_along (Transfer.PlainInv file c.sendOffset c.sendRemaining)
  · exact fun t ht => ht.exact
  · exact fun t io ht hg => ht.call hg
  · exact fun t io ht hg => ht.falls_short hg
  · refine ⟨⟨List.nil_prefix, fun hk => ?_⟩, .inr rfl, fun _ => ?_⟩
    · cases hc.symm.trans hk
    · simp

end Connection

namespace EventLoop
open Connection

/-- A client has got the header block of a file of ten bytes, and none of the file yet. -/
def streaming : EventLoop :=
  (round [(⟨false, false, .listener⟩, { accepts := [(5, 0)] })] ++
    round [(⟨false, false, .conn 0⟩, { peek := .done (some 0x47) })] ++
    round [(⟨false, false, .conn 0⟩,
      { read := .done getText, headerWrite := .done 4096, sys := tenBytes })]).foldl step
        (create ⟨bytes "/srv"⟩ 75 false)

def tenLetters : Bytes := bytes "abcdefghij"

/-- The file is cut to its first `n` bytes before `sendfile` sends what there is. -/
def cutTo (n : Nat) : Truncations tenLetters :=
  ⟨{ file := tenLetters.take n, sendfile := .done }, List.take_prefix n _⟩

theorem plain_body_exact_iff_streaming :
    Run.Throughout plainCall (BodyExact tenLetters (streaming.conn 0).sendOffset
        (streaming.conn 0).sendRemaining) ⟨streaming.conn 0, []⟩ [cutTo 10] ↔
      Run.Along plainCall Reaches ⟨streaming.conn 0, []⟩ [cutTo 10] :=
  plain_body_exact_iff (by decide) _

/-- Four bytes of a body of ten are sent, and the connection waits for the next request. -/
theorem truncated_body_kept_alive :
    streaming.Reachable ∧ (streaming.conn 0).state = .sendingBody ∧
      (plainCall ⟨streaming.conn 0, []⟩ (cutTo 4)).conn.state = .keepAlive ∧
      (plainCall ⟨streaming.conn 0, []⟩ (cutTo 4)).sent = bytes "abcd" ∧
      ¬ Run.Throughout plainCall (BodyExact tenLetters (streaming.conn 0).sendOffset
        (streaming.conn 0).sendRemaining) ⟨streaming.conn 0, []⟩ [cutTo 4] := by
  have hwaits : (plainCall ⟨streaming.conn 0, []⟩ (cutTo 4)).conn.state = .keepAlive := by
    decide
  have hsent : (plainCall ⟨streaming.conn 0, []⟩ (cutTo 4)).sent = bytes "abcd" := by
    decide
  have hall : (streaming.conn 0).sendRemaining.toNat = 10 := by decide
  refine ⟨reachable_run .., by decide, hwaits, hsent, fun h => ?_⟩
  have hlast : BodyExact tenLetters (streaming.conn 0).sendOffset (streaming.conn 0).sendRemaining
      (plainCall ⟨streaming.conn 0, []⟩ (cutTo 4)) := h.2
  have hlen := (hlast.whole hwaits).2
  have hfour : (plainCall ⟨streaming.conn 0, []⟩ (cutTo 4)).sent.length = 4 := by
    rw [hsent]
    decide
  have hten : 4 = 10 := hfour.symm.trans (hlen.trans hall)
  exact absurd hten (by decide)

end EventLoop

end FileWebServer
