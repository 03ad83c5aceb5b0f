import FileWebServer.Core.Requests

namespace FileWebServer
open Search
set_option autoImplicit true

namespace Connection
variable {c d : Connection} {io : Io} {r : Outcome} {data chunk : Bytes}

/-- A connection after the event loop has handled an event for it. -/
def event (tls : Bool) (server : FileServer) (c : Connection) (io : Io) : Connection :=
  (c.advance io tls server).conn

/-- Before the head of its first request is complete, a connection has read 65536 bytes at most,
and no read takes more than 4096. -/
structure Bounded (c : Connection) : Prop where
  always : c.readBuf.length ≤ 65536 + 4096
  early : c.state.isEarly = true → c.readBuf.length ≤ 65536

/-- A step that leaves the buffer alone and does not go back to an early state. -/
theorem Bounded.keeps (h : Bounded c) (hb : d.readBuf = c.readBuf)
    (hs : d.state = c.state ∨ d.state.isEarly = false ∨ c.state.isEarly = true) : Bounded d := by
  refine ⟨hb ▸ h.always, fun he => ?_⟩
  rw [hb]
  rcases hs with hs | hs | hs
  · exact h.early (hs ▸ he)
  · rw [hs] at he
    cases he
  · exact h.early hs

theorem close_readBuf (c : Connection) : c.close.readBuf = c.readBuf :=
  congrArg Prod.fst (close_message c)

theorem Bounded.closed (h : c.readBuf.length ≤ 65536 + 4096) (as : List Action) :
    Bounded (c.hangUp as).conn := by
  constructor
  · exact (close_readBuf c).symm ▸ h
  · intro he
    rw [show (c.hangUp as).conn.state = .closed from close_state c] at he
    cases he

theorem received_bounded {as : List Action} (hlen : (c.readBuf ++ data).length ≤ 65536 + 4096) :
    Bounded (c.received data as).conn := by
  cases hf : find crlfcrlf (c.readBuf ++ data) with
  | some i =>
    rw [received_complete (by simp [hf])]
    exact ⟨hlen, fun he => by cases he⟩
  | none =>
    rw [received_incomplete hf]
    split
    · exact .closed hlen as
    · next hl => exact ⟨hlen, fun _ => Nat.le_of_not_lt hl⟩

/-- The size is checked after every read that does not complete the head. -/
theorem doRead_bounded (io : Io) (h : c.readBuf.length ≤ 65536) :
    Bounded (c.doRead io).conn := by
  obtain ⟨as, _, ⟨want, hd⟩ | ⟨data, hdata, hd⟩ | ⟨buf, hbuf, hd⟩⟩ := doRead_forms io c
  · rw [hd]
    exact ⟨Nat.le_add_right_of_le h, fun _ => h⟩
  · rw [hd]
    apply received_bounded
    rw [List.length_append]
    exact Nat.add_le_add h hdata
  · rw [hd]
    exact .closed (hbuf.trans (Nat.add_le_add_right h 4096)) as

theorem Sends.bounded (hsends : Sends c r) (hleads : Leads c r) (h : Bounded c) :
    Bounded r.conn := by
  apply h.keeps (congrArg Prod.fst hsends.message)
  rcases hleads with hs | hs | hs | hs
  · exact .inl hs
  · exact .inr (.inl (by rw [hs]; rfl))
  · exact .inr (.inl (by rw [hs]; rfl))
  · exact .inr (.inl (by rw [hs]; rfl))

theorem doProtoDetect_bounded (io : Io) (tls : Bool) (hc : c.state = .protoDetect)
    (h : Bounded c) : Bounded (c.doProtoDetect io tls).conn := by
  have hearly : c.state.isEarly = true := by rw [hc]; rfl
  unfold doProtoDetect
  rcases io.peek with (_ | b) | _ | _
  · exact .closed h.always _
  · dsimp only
    split
    · split
      · exact h.keeps rfl (.inr (.inr hearly))
      · exact h.keeps rfl (.inr (.inl rfl))
    · exact h.keeps rfl (.inr (.inr hearly))
  · exact h
  · exact .closed h.always _

theorem doTlsAccept_bounded (io : Io) (ret : SslResult Unit) (hc : c.state = .tlsAccept)
    (h : Bounded c) : Bounded (c.doTlsAccept io ret).conn := by
  cases ret with
  | done => exact h.keeps rfl (.inr (.inr (by rw [hc]; rfl)))
  | wantRead => exact h
  | wantWrite => exact h
  | error => exact h.keeps rfl (.inr (.inl rfl))

theorem doParse_bounded (io : Io) (h : Bounded c) : Bounded (c.doParse io).conn := by
  unfold doParse
  dsimp only
  split
  · exact h.keeps rfl (.inl rfl)
  · exact h.keeps rfl (.inr (.inl rfl))

theorem stateAction_bounded (io : Io) (tls : Bool) (h : Bounded c) :
    Bounded (c.stateAction io tls).conn := by
  unfold stateAction
  cases hs : c.state with
  | closed => exact h
  | protoDetect => exact doProtoDetect_bounded io tls hs h
  | tlsAccept => exact doTlsAccept_bounded io _ hs h
  | reading => exact doRead_bounded io (h.early (by rw [hs]; rfl))
  | parsing => exact doParse_bounded io h
  | sendingHeaders => exact (doSendHeaders_sends io c).bounded (doSendHeaders_leads io c) h
  | sendingBody => exact (doSendBody_sends io c).bounded (doSendBody_leads io c) h
  | keepAlive => exact doRead_bounded io (Nat.zero_le 65536)

/-- No call of `process_connection` makes the buffer grow any further. -/
theorem event_bounded (tls : Bool) (server : FileServer) (io : Io) (h : Bounded c) :
    Bounded (c.event tls server io) := by
  have hfirst : Bounded (c.firstHalf io tls).conn := by
    have hact := stateAction_bounded io tls h
    unfold firstHalf injectSsl
    split
    · next ht => exact doTlsAccept_bounded io _ ht.1 (hact.keeps rfl (.inl rfl))
    · exact hact
  have hparse : Bounded (inlineParse io (c.firstHalf io tls)).conn := by
    unfold inlineParse
    split
    · exact doParse_bounded io hfirst
    · exact hfirst
  unfold event advance secondHalf
  by_cases hd : (inlineParse io (c.firstHalf io tls)).conn.answerDue
  · rw [answer_due io server hd]
    obtain ⟨_, _, hbuilt⟩ := prepareResponse_built io server
      (inlineParse io (c.firstHalf io tls)).conn
    have hstate := (prepareResponse_prepared io server
      (inlineParse io (c.firstHalf io tls)).conn).state
    apply (doSendHeaders_sends io _).bounded (doSendHeaders_leads io _)
    exact hparse.keeps hbuilt.readBuf (.inl hstate)
  · rw [answer_not_due io server hd]
    exact hparse

/-- A connection in `READING` that has the beginning `data` of its first request. -/
structure Gathers (c : Connection) (data : Bytes) : Prop where
  state : c.state = .reading
  request : c.request.method = .unknown
  buffer : c.readBuf = data

/-- A read adds what it brings to the buffer. -/
theorem Gathers.reads (h : Gathers c data) (tls : Bool) (hio : Delivers io chunk)
    (hne : chunk ≠ []) (hlen : chunk.length ≤ 4096) :
    ∃ as, c.stateAction io tls = (c.touch io.now).received chunk as := by
  obtain ⟨as, _, hd⟩ := doRead_data c hne (hio.transport c)
  rw [List.take_of_length_le hlen] at hd
  refine ⟨as, ?_⟩
  rw [stateAction, h.state]
  exact hd

theorem Gathers.goes_on (h : Gathers c data) (tls : Bool) (server : FileServer)
    (hio : Delivers io chunk) (hne : chunk ≠ []) (hlen : chunk.length ≤ 4096)
    (hf : find crlfcrlf (data ++ chunk) = none) (hsize : (data ++ chunk).length ≤ 65536) :
    Gathers (c.event tls server io) (data ++ chunk) := by
  obtain ⟨as, hact⟩ := h.reads tls hio hne hlen
  obtain ⟨hs, hm, rfl⟩ := h
  have hmore : c.stateAction io tls =
      ⟨{ c.touch io.now with readBuf := c.readBuf ++ chunk }, .read, as⟩ := by
    have hf' : find crlfcrlf ((c.touch io.now).readBuf ++ chunk) = none := hf
    rw [hact, received_incomplete hf']
    exact if_neg (Nat.not_lt_of_le hsize)
  have hstate : (c.touch io.now).state = .reading := hs
  have hfirst : c.firstHalf io tls = c.stateAction io tls := by
    apply if_neg
    rw [hmore]
    simp [hstate]
  have hadv : c.advance io tls server = c.stateAction io tls := by
    have hparse : inlineParse io (c.stateAction io tls) = c.stateAction io tls := by
      apply if_neg
      rw [hmore]
      simp [hstate]
    rw [advance, secondHalf, hfirst, hparse]
    apply answer_not_due
    rw [hmore]
    exact fun hd => hd.2 hm
  unfold event
  rw [hadv, hmore]
  exact ⟨hs, hm, rfl⟩

theorem Gathers.completes (h : Gathers c data) (tls : Bool) (hio : Delivers io chunk)
    (hne : chunk ≠ []) (hlen : chunk.length ≤ 4096)
    (hf : (find crlfcrlf (data ++ chunk)).isSome) : ReadsRequest io tls c (data ++ chunk) := by
  obtain ⟨as, hact⟩ := h.reads tls hio hne hlen
  obtain ⟨hs, _, rfl⟩ := h
  have hf' : (find crlfcrlf ((c.touch io.now).readBuf ++ chunk)).isSome := hf
  rw [received_complete hf'] at hact
  refine ⟨.inl hs, ?_, ?_⟩
  · rw [hact]
  · rw [hact]
    rfl

/-- In the events `ios`, a connection stays in `READING` until one of them leads it to `PARSING`,
with a buffer in which `parse` finds what it finds in `head`. -/
def ComesToParse (tls : Bool) (server : FileServer) (c : Connection) (ios : List Io)
    (head : Bytes) : Prop :=
  ∃ before io behind raw, ios = before ++ io :: behind ∧
    Run.Throughout (event tls server) (fun d => d.state = .reading) c before ∧
    ReadsRequest io tls (before.foldl (event tls server) c) raw ∧
    HttpRequest.parse raw = HttpRequest.parse head

theorem ComesToParse.cons {head : Bytes} {ios : List Io} (hc : c.state = .reading)
    (h : ComesToParse tls server (c.event tls server io) ios head) :
    ComesToParse tls server c (io :: ios) head := by
  obtain ⟨before, last, behind, raw, rfl, hreading, hreads, hparse⟩ := h
  exact ⟨io :: before, last, behind, raw, rfl, ⟨hc, hreading⟩, hreads, hparse⟩

/-- What has been gathered before the end of the head is short of the limit, so the size is not
what ends the reading. -/
theorem Gathers.completes_of_find (h : Gathers c data) (tls : Bool) (server : FileServer)
    {chunks : List Bytes} {ios : List Io} (hio : List.Forall₂ Delivers ios chunks)
    (hchunks : ∀ chunk ∈ chunks, chunk ≠ [] ∧ chunk.length ≤ 4096)
    (hnone : find crlfcrlf data = none)
    (hfind : find crlfcrlf (data ++ chunks.flatten) = some i) (hi : i + 4 ≤ 65536) :
    ComesToParse tls server c ios ((data ++ chunks.flatten).take (i + 4)) := by
  induction hio generalizing c data with
  | nil =>
    rw [List.flatten_nil, List.append_nil, hnone] at hfind
    cases hfind
  | @cons io chunk ios chunks hio _ ih =>
    obtain ⟨hne, hlen⟩ := hchunks chunk List.mem_cons_self
    have hstream : data ++ (chunk :: chunks).flatten = data ++ chunk ++ chunks.flatten := by
      rw [List.flatten_cons, List.append_assoc]
    rw [hstream] at hfind ⊢
    have hpre : data ++ chunk <+: data ++ chunk ++ chunks.flatten := List.prefix_append _ _
    cases hf : find crlfcrlf (data ++ chunk) with
    | some j =>
      have hhead := h.completes tls hio hne hlen (by simp [hf])
      refine ⟨[], io, ios, _, rfl, h.state, hhead, ?_⟩
      have hcut : find crlfcrlf ((data ++ chunk ++ chunks.flatten).take (i + 4)) = some i := by
        have hend := find_le_length hfind
        apply find_of_isPrefix hfind (List.take_prefix _ _)
        rw [List.length_take]
        exact le_min (Nat.le_refl _) hend
      rw [HttpRequest.parse_prefix hpre (by rw [hf]; rfl)]
      exact (HttpRequest.parse_prefix (List.take_prefix _ _) (by rw [hcut]; rfl)).symm
    | none =>
      have hshort : (data ++ chunk).length < i + 4 := by
        by_contra hlong
        rw [find_of_isPrefix hfind hpre (Nat.le_of_not_lt hlong)] at hf
        cases hf
      apply ComesToParse.cons h.state
      apply ih (h.goes_on tls server hio hne hlen hf (by omega)) _ hf hfind
      exact fun chunk hm => hchunks chunk (List.mem_cons_of_mem _ hm)

end Connection

namespace EventLoop
open Connection
variable {s : EventLoop} {i : Nat}

/-- However its bytes are split into reads, the first request of a connection keeps the buffer
bounded, and is parsed as if it had been cut right behind its head. -/
theorem first_request_segmented (hs : s.Reachable) (hc : (s.conn i).state = .reading)
    (hb : (s.conn i).readBuf = []) {chunks : List Bytes} {ios : List Io}
    (hio : List.Forall₂ Delivers ios chunks)
    (hchunks : ∀ chunk ∈ chunks, chunk ≠ [] ∧ chunk.length ≤ 4096) :
    Run.Throughout (event s.tlsCtx s.fileServer) Bounded (s.conn i) ios ∧
      ∀ k, find crlfcrlf chunks.flatten = some k → k + 4 ≤ 65536 →
        ComesToParse s.tlsCtx s.fileServer (s.conn i) ios (chunks.flatten.take (k + 4)) := by
  have hopens : Unbegun (s.conn i) := hs.conn opens_invariant i (by rw [hc]; rfl)
  constructor
  · apply Run.throughout_of_along (G := fun _ _ => True)
    · exact fun c io h _ => event_bounded _ _ io h
    · exact ⟨by rw [hb]; exact Nat.zero_le _, fun _ => by rw [hb]; exact Nat.zero_le _⟩
    · exact Run.Along.of_forall fun _ _ => trivial
  · intro k hk hlimit
    have hempty : Gathers (s.conn i) [] := ⟨hc, hopens.request, hb⟩
    exact hempty.completes_of_find _ _ hio hchunks rfl hk hlimit

/-- The end of the head comes in two reads. -/
theorem first_request_segmented_get :
    ComesToParse greeted.tlsCtx greeted.fileServer (greeted.conn 0)
      [delivery (getText.take 25), delivery (getText.drop 25)]
      ([getText.take 25, getText.drop 25].flatten.take 27) :=
  (first_request_segmented (reachable_run ..) (by decide) (by decide)
    (.cons ⟨rfl, rfl⟩ (.cons ⟨rfl, rfl⟩ .nil)) (by decide)).2 23 (by decide)
    (by decide)

end EventLoop

end FileWebServer
