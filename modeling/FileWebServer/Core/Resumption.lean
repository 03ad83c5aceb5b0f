import FileWebServer.Core.Sending

namespace FileWebServer
set_option autoImplicit true
set_option maxRecDepth 20000

namespace Connection
variable {c d p : Connection} {r : Outcome} {io : Io} {ios : List Io} {file raw : Bytes}
  {tls : Bool} {server : FileServer}

/-- The first `k` bytes of a slice are followed by the slice of what is left. -/
theorem slice_split (file : Bytes) {offset : Int} (len : Int) (k : Nat) (h : 0 ≤ offset) :
    (slice file offset len).take k ++ slice file (offset + k) (len - k) =
      slice file offset len := by
  have hoff : (offset + k).toNat = offset.toNat + k := by omega
  have hlen : (len - k).toNat = len.toNat - k := by omega
  have hrest : slice file (offset + k) (len - k) = (slice file offset len).drop k := by
    rw [slice, slice, hoff, hlen, List.drop_take, List.drop_drop]
  rw [hrest, List.take_append_drop]

theorem slice_nil (file : Bytes) (offset : Int) {len : Int} (h : len ≤ 0) :
    slice file offset len = [] := by
  rw [slice, Int.toNat_of_nonpos h, List.take_zero]

/-- What is left to send of a body. -/
def bodyRest (file : Bytes) (c : Connection) : Bytes :=
  if c.fileFd < 0 ∧ c.response.hasBody then c.response.body.drop c.bodySent
  else if c.isTls ∧ c.chunkSent < c.chunkUsed then
    c.chunkRest ++ slice file (c.sendOffset + c.chunkUsed) (c.sendRemaining - c.chunkUsed)
  else slice file c.sendOffset c.sendRemaining

theorem bodyRest_chunk (file : Bytes) (hm : ¬ (c.fileFd < 0 ∧ c.response.hasBody))
    (h : c.isTls ∧ c.chunkSent < c.chunkUsed) : bodyRest file c = c.chunkRest ++
      slice file (c.sendOffset + c.chunkUsed) (c.sendRemaining - c.chunkUsed) := by
  rw [bodyRest, if_neg hm, if_pos h]

theorem bodyRest_file (file : Bytes) (hm : ¬ (c.fileFd < 0 ∧ c.response.hasBody))
    (h : ¬ (c.isTls ∧ c.chunkSent < c.chunkUsed)) :
    bodyRest file c = slice file c.sendOffset c.sendRemaining := by
  rw [bodyRest, if_neg hm, if_neg h]

/-- A step that sends a body, unless it closes the connection, ends with the last byte of the
body or leaves exactly the bytes that it has not sent. -/
def Resumes (file body : Bytes) (r : Outcome) : Prop :=
  r.conn.state = .closed ∨ (r.conn.state = .keepAlive ∧ wire r.actions = body) ∨
    (r.conn.state = .sendingBody ∧ wire r.actions ++ bodyRest file r.conn = body)

theorem Resumes.of_hangUp (c : Connection) (as : List Action) : Resumes file body (c.hangUp as) :=
  .inl (close_state c)

theorem Resumes.of_finish {as : List Action} (h : wire as = body) :
    Resumes file body (c.finishFile as) :=
  .inr (.inl ⟨rfl, (finishFile_wire c as).trans h⟩)

theorem Resumes.after {as : List Action} (h : Resumes file rest r) (hb : wire as ++ rest = body) :
    Resumes file body (r.after as) := by
  rcases h with h | ⟨hs, h⟩ | ⟨hs, h⟩
  · exact .inl h
  · refine .inr (.inl ⟨hs, ?_⟩)
    rw [Outcome.after_actions, wire_append, h, hb]
  · refine .inr (.inr ⟨hs, ?_⟩)
    rw [Outcome.after_actions, wire_append, List.append_assoc]
    exact (congrArg (wire as ++ ·) h).trans hb

/-- An attempt to send a body is followed by a step that has the rest to send. -/
theorem onSent_resumes {attempt : Sent × List Action} {next : Nat → Outcome} {offered : Bytes}
    (later : Bytes) (hw : wire attempt.2 = attempt.1.taken offered) (hc : c.state = .sendingBody)
    (hrest : bodyRest file c = offered ++ later)
    (hnext : ∀ n, attempt.1 = .bytes n → Resumes file (offered.drop n ++ later) (next n)) :
    Resumes file (bodyRest file c) (c.onSent attempt next) := by
  obtain ⟨sent, as⟩ := attempt
  cases sent with
  | bytes n =>
    refine (hnext n rfl).after ?_
    rw [hw, hrest, ← List.append_assoc]
    exact congrArg (· ++ later) (List.take_append_drop n offered)
  | wait want =>
    refine .inr (.inr ⟨hc, ?_⟩)
    change wire as ++ _ = _
    rw [hw]
    rfl
  | fatal => exact .of_hangUp ..

theorem doSendBodyMemory_resumes (io : Io) (hc : c.state = .sendingBody)
    (hm : c.fileFd < 0 ∧ c.response.hasBody) :
    Resumes file (bodyRest file c) (doSendBodyMemory io c) := by
  have hrest : bodyRest file c = c.response.body.drop c.bodySent := if_pos hm
  unfold doSendBodyMemory
  dsimp only
  split
  · next hlen =>
    refine .inr (.inl ⟨rfl, ?_⟩)
    rw [hrest, List.drop_of_length_le hlen]
    rfl
  · refine onSent_resumes [] (transmit_wire ..) hc ?_ fun n hn => ?_
    · rw [hrest, List.append_nil]
    · rw [List.append_nil, List.drop_drop]
      split
      · next hlen =>
        refine .inr (.inl ⟨rfl, ?_⟩)
        rw [List.drop_of_length_le hlen]
        rfl
      · refine .inr (.inr ⟨hc, ?_⟩)
        rw [bodyRest, if_pos]
        · rfl
        · exact hm

/-- A chunk that has been sent makes room for the next one. -/
theorem sendChunk_resumes (io : Io) (hc : c.state = .sendingBody)
    (hm : ¬ (c.fileFd < 0 ∧ c.response.hasBody)) (ht : c.isTls = true)
    (hlt : c.chunkSent < c.chunkUsed) :
    Resumes file (bodyRest file c) (sendChunk io c) := by
  refine onSent_resumes _ (sslWrite_wire ..) hc (bodyRest_chunk file hm ⟨ht, hlt⟩) fun n hn => ?_
  dsimp only
  split
  · next hdone =>
    have hlen : c.chunkRest.length ≤ n := by
      rw [chunkRest, List.length_drop, List.length_take]
      omega
    refine .inr (.inr ⟨hc, ?_⟩)
    rw [List.drop_of_length_le hlen, bodyRest_file file]
    · rfl
    · exact hm
    · exact fun h => absurd h.2 (Nat.not_lt_of_le hdone)
  · next hmore =>
    have hdrop : c.chunkRest.drop n = (c.chunkBuf.take c.chunkUsed).drop (c.chunkSent + n) :=
      List.drop_drop ..
    refine .inr (.inr ⟨hc, ?_⟩)
    rw [hdrop, bodyRest_chunk file]
    · rfl
    · exact hm
    · exact ⟨ht, Nat.lt_of_not_le hmore⟩

/-- What `pread` gives is the beginning of what is left of the file. -/
theorem readChunk_eq (hfile : io.file = file) (hdata : c.readChunk io ≠ []) :
    0 ≤ c.sendOffset ∧
      c.readChunk io = (slice file c.sendOffset c.sendRemaining).take (c.readChunk io).length := by
  subst hfile
  have hread : 0 ≤ c.sendOffset ∧
      ∃ n, c.readChunk io = (slice io.file c.sendOffset c.sendRemaining).take n := by
    unfold readChunk at hdata ⊢
    cases hp : io.pread with
    | done n =>
      rw [hp] at hdata
      by_cases ho : c.sendOffset < 0
      · exact (hdata (if_pos ho)).elim
      · have hle : min n c.toRead ≤ c.sendRemaining.toNat :=
          Nat.le_trans (Nat.min_le_right ..) (Nat.min_le_left ..)
        refine ⟨Int.not_lt.1 ho, min n c.toRead, (if_neg ho).trans ?_⟩
        rw [slice, slice, List.take_take, Int.toNat_natCast, Nat.min_eq_left hle]
    | again =>
      rw [hp] at hdata
      exact (hdata rfl).elim
    | error =>
      rw [hp] at hdata
      exact (hdata rfl).elim
  obtain ⟨hoff, n, hn⟩ := hread
  refine ⟨hoff, ?_⟩
  rw [hn, List.length_take, ← List.take_eq_take_min]

theorem doSendBodyTls_resumes (hfile : io.file = file) (hc : c.state = .sendingBody)
    (hm : ¬ (c.fileFd < 0 ∧ c.response.hasBody)) (ht : c.isTls = true) :
    Resumes file (bodyRest file c) (doSendBodyTls io c) := by
  unfold doSendBodyTls
  by_cases hle : c.chunkUsed ≤ c.chunkSent
  · have hrest := bodyRest_file file hm fun h => absurd h.2 (Nat.not_lt_of_le hle)
    rw [if_pos hle, hrest]
    split
    · next hrem => exact .of_finish (slice_nil file _ hrem).symm
    · dsimp only
      split
      · exact .of_hangUp ..
      · next hdata =>
        obtain ⟨hoff, hread⟩ := readChunk_eq hfile hdata
        have hlen := List.length_pos_of_ne_nil hdata
        have hload : bodyRest file (c.loadChunk (c.readChunk io)) =
            slice file c.sendOffset c.sendRemaining := by
          rw [bodyRest_chunk file, loadChunk_rest, ← slice_split file _ _ hoff, ← hread]
          · rfl
          · exact hm
          · exact ⟨ht, hlen⟩
        have hsend : Resumes file (slice file c.sendOffset c.sendRemaining)
            (sendChunk io (c.loadChunk (c.readChunk io))) := by
          rw [← hload]
          exact sendChunk_resumes io hc hm ht hlen
        exact hsend.after rfl
  · rw [if_neg hle]
    exact sendChunk_resumes io hc hm ht (Nat.lt_of_not_le hle)

theorem doSendBodyPlain_resumes (hfile : io.file = file) (hc : c.state = .sendingBody)
    (hm : ¬ (c.fileFd < 0 ∧ c.response.hasBody)) (ht : c.isTls = false) :
    Resumes file (bodyRest file c) (doSendBodyPlain io c) := by
  have hplain : ¬ (c.isTls = true ∧ c.chunkSent < c.chunkUsed) := by simp [ht]
  subst hfile
  rw [bodyRest_file _ hm hplain]
  unfold doSendBodyPlain
  split
  · next hrem => exact .of_finish (slice_nil _ _ hrem).symm
  · dsimp only
    split
    · exact .of_hangUp ..
    · next hoff =>
      cases io.sendfile with
      | done =>
        apply Resumes.of_finish
        exact List.append_nil _
      | again n =>
        refine .inr (.inr ⟨hc, ?_⟩)
        rw [bodyRest_file]
        · have hsplit := slice_split io.file c.sendRemaining
            (min n (slice io.file c.sendOffset c.sendRemaining).length) (Int.not_lt.1 hoff)
          rw [← List.take_eq_take_min] at hsplit
          change ((slice io.file c.sendOffset c.sendRemaining).take n ++ []) ++ _ = _
          rw [List.append_nil]
          exact hsplit
        · exact hm
        · exact hplain
      | error n => exact .of_hangUp ..

/-- One call that sends a body, over either transport and from either source. -/
theorem doSendBody_resumes (hfile : io.file = file) (hc : c.state = .sendingBody) :
    Resumes file (bodyRest file c) (doSendBody io c) := by
  unfold doSendBody
  split
  · next hm => exact doSendBodyMemory_resumes io hc hm
  · next hm =>
    cases ht : c.isTls with
    | true => exact doSendBodyTls_resumes hfile hc hm ht
    | false => exact doSendBodyPlain_resumes hfile hc hm ht

/-- What comes right after the last byte of the header block. -/
theorem headersSent_resumes (hfile : io.file = file) (c : Connection) :
    Resumes file (if c.bodiless then [] else bodyRest file c) (headersSent io c) := by
  unfold headersSent
  split
  · exact .inr (.inl ⟨rfl, rfl⟩)
  · exact doSendBody_resumes (c := { c with state := .sendingBody }) hfile rfl

/-- The calls lead to `KEEP_ALIVE`, and the last of them is the first that does. -/
def FirstWaits (tls : Bool) (server : FileServer) : Connection → List Io → Prop
  | c, [] => c.state = .keepAlive
  | c, io :: ios =>
    c.state ≠ .keepAlive ∧ FirstWaits tls server (c.advance io tls server).conn ios

instance decidableFirstWaits (tls : Bool) (server : FileServer) :
    (c : Connection) → (ios : List Io) → Decidable (FirstWaits tls server c ios)
  | c, [] => inferInstanceAs (Decidable (c.state = .keepAlive))
  | c, io :: ios =>
    have := decidableFirstWaits tls server (c.advance io tls server).conn ios
    inferInstanceAs (Decidable (_ ∧ _))

theorem not_firstWaits_closed (hc : c.state = .closed) : ¬ FirstWaits tls server c ios := by
  induction ios generalizing c with
  | nil =>
    intro h
    rw [FirstWaits, hc] at h
    cases h
  | cons io ios ih =>
    intro h
    refine ih (advance_closed io tls server ?_) h.2
    unfold stateAction
    rw [hc]
    exact hc

/-- A body whose sending has begun is sent in full by the calls that lead to `KEEP_ALIVE`, and
no request is worked on meanwhile. -/
theorem calls_resumed (h : Resumes file body r) (hfile : ∀ io ∈ ios, io.file = file)
    (hw : FirstWaits tls server r.conn ios) :
    wire (r.actions ++ (calls tls server r.conn ios).actions) = body ∧
      work (calls tls server r.conn ios).actions = [] := by
  induction ios generalizing r with
  | nil =>
    rcases h with h | ⟨_, h⟩ | ⟨h, _⟩
    · exact (not_firstWaits_closed h hw).elim
    · refine ⟨?_, rfl⟩
      change wire (r.actions ++ []) = body
      rw [List.append_nil, h]
    · rw [FirstWaits, h] at hw
      cases hw
  | cons io ios ih =>
    rcases h with h | ⟨h, _⟩ | ⟨hs, h⟩
    · exact (not_firstWaits_closed h hw).elim
    · exact (hw.1 h).elim
    · have hadv : r.conn.advance io tls server = doSendBody io r.conn := by
        rw [(advance_sending io tls server (.inr hs)).1, stateAction, hs]
      have hstep := (doSendBody_resumes (hfile io (by simp)) hs).after h
      have hrest := hw.2
      rw [hadv] at hrest
      obtain ⟨hwire, hwork⟩ := ih hstep (fun io' hm => hfile io' (List.mem_cons_of_mem _ hm)) hrest
      have hcalls : (calls tls server r.conn (io :: ios)).actions =
          (doSendBody io r.conn).actions ++
            (calls tls server (doSendBody io r.conn).conn ios).actions := by
        rw [calls, hadv]
        rfl
      rw [hcalls, work_append, (doSendBody_sends io r.conn).work, ← List.append_assoc]
      exact ⟨hwire, hwork⟩

/-- The body of a response. -/
def content (file : Bytes) (c : Connection) : Bytes :=
  if c.response.hasBody then c.response.body
  else if 0 ≤ c.fileFd then slice file c.sendOffset c.sendRemaining
  else []

/-- A response of which nothing has been sent. -/
structure Unsent (c : Connection) : Prop where
  header : c.headerSent = 0
  body : c.bodySent = 0
  chunk : c.chunkUsed ≤ c.chunkSent
  memory : c.response.hasBody = true → c.fileFd < 0

/-- A file is answered without a body in memory. -/
theorem prepareFile_body (io : Io) (info : FileInfo) (c : Connection) :
    (c.prepareFile io info).1.response.body = c.response.body := by
  obtain ⟨resp, hbody, hp | ⟨start, stop, hp⟩⟩ := prepareFile_cases io info c
  · rw [hp]
    exact hbody
  · rw [hp]
    exact hbody

theorem prepareResponse_unsent (io : Io) (server : FileServer) (hfile : d.fileFd < 0)
    (hbody : d.bodySent = 0) (hchunk : d.chunkUsed ≤ d.chunkSent) :
    Unsent (d.prepareResponse io server).1 := by
  rcases prepareResponse_cases io server d with ⟨status, body, hp, _⟩ | ⟨info, hp, _⟩
  · rw [hp]
    exact ⟨rfl, hbody, hchunk, fun _ => hfile⟩
  · obtain ⟨hheader, hsent, hcursors⟩ := prepareFile_cursors io info d.blank
    simp only [Prod.mk.injEq] at hcursors
    obtain ⟨hchunkSent, hused, _⟩ := hcursors
    have hnone : (d.blank.prepareFile io info).1.response.hasBody = false := by
      rw [HttpResponse.hasBody, prepareFile_body]
      rfl
    rw [hp]
    refine ⟨hheader, hsent.trans hbody, ?_, fun h => ?_⟩
    · dsimp only
      rw [hused, hchunkSent]
      exact hchunk
    · dsimp only at h
      rw [hnone] at h
      cases h

theorem Unsent.bodyRest (h : Unsent c) (hb : c.bodiless = false) :
    c.bodyRest file = c.content file := by
  unfold content
  split
  · next hm =>
    rw [Connection.bodyRest, if_pos ⟨h.memory hm, hm⟩, h.body]
    rfl
  · next hm =>
    have hfd : 0 ≤ c.fileFd := by
      simp only [bodiless, hm] at hb
      simp at hb
      omega
    rw [bodyRest_file file (fun hf => hm hf.2) fun hc => absurd hc.2 (Nat.not_lt_of_le h.chunk),
      if_pos hfd]

theorem content_bodiless (hb : c.bodiless = true) (hh : c.isHead = false) :
    c.content file = [] := by
  simp only [bodiless, hh] at hb
  simp at hb
  rw [content, if_neg, if_neg]
  · omega
  · simp [hb.1]

/-- What a request gets for its body: nothing, unless its method is GET. -/
def payload (file : Bytes) (c : Connection) : Bytes :=
  if c.request.method = .get then c.content file else []

theorem Unsent.payload (h : Unsent c) (hm : c.request.method = .get ∨ c.request.method = .head)
    (hh : c.isHead = (c.request.method == .head)) :
    c.payload file = if c.bodiless then [] else c.bodyRest file := by
  unfold Connection.payload
  rcases hm with hm | hm
  · have hnot : c.isHead = false := by
      rw [hh, hm]
      rfl
    rw [if_pos hm]
    cases hb : c.bodiless with
    | false => exact (h.bodyRest hb).symm
    | true => exact content_bodiless hb hnot
  · have hb : c.bodiless = true := by
      rw [bodiless, hh, hm]
      rfl
    rw [hb, hm]
    rfl

theorem headerRest_unsent (h : c.headerSent = 0) : c.headerRest = c.headerBuf := by
  rw [headerRest, h]
  rfl

/-- A header block that is taken whole is followed by the body in the same call. -/
theorem doSendHeaders_all (h : c.headerSent = 0)
    (hall : c.transmitsAll io.headerWrite io.headerSslWrite c.headerBuf) :
    ∃ as, work as = [] ∧ wire as = c.headerBuf ∧ c.doSendHeaders io =
      (headersSent io { c with headerSent := c.headerSent + c.headerBuf.length }).after as := by
  have hwork := transmit_work c io.headerWrite io.headerSslWrite c.headerBuf
  have hwire := transmit_wire c io.headerWrite io.headerSslWrite c.headerBuf
  rw [← transmit_all_iff] at hall
  obtain ⟨as, hattempt⟩ : ∃ as, c.transmit io.headerWrite io.headerSslWrite c.headerBuf =
      (.bytes c.headerBuf.length, as) := ⟨_, Prod.ext hall rfl⟩
  rw [hattempt] at hwork hwire
  refine ⟨as, hwork, hwire.trans List.take_length, ?_⟩
  rw [doSendHeaders, headerRest_unsent h, hattempt]
  change Outcome.after (if _ then _ else _) as = _
  rw [if_pos (Nat.le_add_left ..)]

/-- Otherwise the connection is left in the state that it was in. -/
theorem doSendHeaders_short (h : c.headerSent = 0)
    (hall : ¬ c.transmitsAll io.headerWrite io.headerSslWrite c.headerBuf) :
    (c.doSendHeaders io).conn.state = c.state ∨ (c.doSendHeaders io).conn.state = .closed := by
  rw [← transmit_all_iff] at hall
  rw [doSendHeaders, headerRest_unsent h]
  cases hattempt : c.transmit io.headerWrite io.headerSslWrite c.headerBuf with
  | mk sent as =>
    rw [hattempt] at hall
    cases sent with
    | bytes n =>
      have hle : n ≤ c.headerBuf.length :=
        transmit_le (congrArg Prod.fst hattempt)
      have hne : n ≠ c.headerBuf.length := fun he => hall (congrArg Sent.bytes he)
      refine .inl ?_
      change Connection.state (Outcome.conn (if _ then _ else _)) = _
      rw [if_neg]
      dsimp only
      omega
    | wait want => exact .inl rfl
    | fatal => exact .inr (close_state c)

/-- A header block that is taken whole leaves the body to be sent. -/
theorem doSendHeaders_resumes (h : Unsent c) (hfile : io.file = file)
    (hm : c.request.method = .get ∨ c.request.method = .head)
    (hh : c.isHead = (c.request.method == .head))
    (hall : c.transmitsAll io.headerWrite io.headerSslWrite c.headerBuf) :
    Resumes file (c.headerBuf ++ c.payload file) (c.doSendHeaders io) := by
  obtain ⟨as, _, hwire, hsend⟩ := doSendHeaders_all h.header hall
  have hrest := headersSent_resumes hfile
    { c with headerSent := c.headerSent + c.headerBuf.length }
  rw [hsend, h.payload hm hh]
  exact hrest.after (congrArg (· ++ _) hwire)

/-- A response is sent once: its request is parsed once, and one header block that is built once
is followed by one copy of the body. -/
structure SentOnce (file raw : Bytes) (p : Connection) (as : List Action) : Prop where
  built : work as = [.parse raw, .prepareResponse, .prepareHeaders]
  bytes : wire as = p.headerBuf ++ p.payload file

theorem ReadsRequest.not_sending (h : ReadsRequest io tls c raw) : ¬ c.Sending := by
  rintro (hs | hs)
  · rcases h.waits with hw | hw
    · rw [hs] at hw
      cases hw
    · rw [hs] at hw
      cases hw
  · rcases h.waits with hw | hw
    · rw [hs] at hw
      cases hw
    · rw [hs] at hw
      cases hw

/-- The call with which `c` answers the request `raw`: the response `p` is built, and its header
block is sent for the first time. -/
structure Responds (io : Io) (tls : Bool) (server : FileServer) (c p : Connection) (raw : Bytes) :
    Prop where
  request : p.request = (HttpRequest.parse raw).2
  isHead : p.isHead = (p.request.method == .head)
  state : p.state = .parsing
  unsent : Unsent p
  sends : ∃ as, c.advance io tls server = (p.doSendHeaders io).after as ∧ wire as = []
  once : work (c.advance io tls server).actions = [.parse raw, .prepareResponse, .prepareHeaders]

/-- The call that completes an accepted request answers it. -/
theorem ReadsRequest.responds (h : ReadsRequest io tls c raw) (ho : Opens c)
    (server : FileServer) (hacc : (HttpRequest.parse raw).1 = true)
    (hm : (HttpRequest.parse raw).2.method ≠ .unknown) :
    Responds io tls server c (responding io tls server c) raw := by
  have hread := h.hasRead ho
  have hparse := hread.accepted io hacc
  have hu := hread.unbegun
  have hnot := h.not_sending
  obtain ⟨d, hd⟩ : ∃ d, d = (inlineParse io (c.firstHalf io tls)).conn := ⟨_, rfl⟩
  have hdc : d = { (c.firstHalf io tls).conn with request := (HttpRequest.parse raw).2 } := by
    rw [hd, hparse]
  have hstate : d.state = .parsing := by
    rw [hdc]
    exact hread.state
  have hdue : d.answerDue := by
    rw [hdc]
    exact ⟨.inl hread.state, hm⟩
  have hresp : responding io tls server c = (d.prepareResponse io server).1 := by
    rw [responding, ← hd]
    exact if_pos hdue
  have hadv : c.advance io tls server = ((d.prepareResponse io server).1.doSendHeaders io).after
      ((inlineParse io (c.firstHalf io tls)).actions ++ (d.prepareResponse io server).2) := by
    rw [hd] at hdue
    rw [advance, secondHalf, answer_due io server hdue, ← hd]
  obtain ⟨_, _, hbuilt⟩ := prepareResponse_built io server d
  have hrequest : (d.prepareResponse io server).1.request = d.request := hbuilt.request
  rw [hresp]
  constructor
  · rw [hrequest, hdc]
  · rw [hrequest]
    exact hbuilt.isHead
  · exact (prepareResponse_prepared io server d).state.trans hstate
  · apply prepareResponse_unsent
    · rw [hdc]
      exact hu.file
    · rw [hdc]
      exact hu.body
    · rw [hdc]
      exact hu.chunk
  · refine ⟨_, hadv, ?_⟩
    rw [wire_append, firstHalf_wire io tls hnot, prepareResponse_wire]
    rfl
  · rw [hadv, hparse, Outcome.after_actions, work_append, work_append, work_append, hread.work,
      work_prepareResponse, (doSendHeaders_sends io _).work]
    rfl

/-- A connection that is left in `PARSING` parses its buffer again. -/
theorem advance_parses (io : Io) (tls : Bool) (server : FileServer) (hc : c.state = .parsing) :
    work (c.advance io tls server).actions ≠ [] := by
  have hparse : .parse c.readBuf ∈ (c.stateAction io tls).actions := by
    rw [stateAction, hc]
    dsimp only
    unfold doParse
    dsimp only
    split
    · exact List.mem_cons_self ..
    · exact List.mem_cons_self ..
  have hmono {r : Outcome} {as : List Action} (h : .parse c.readBuf ∈ as) :
      .parse c.readBuf ∈ (r.after as).actions := List.mem_append_left _ h
  have hfirst : .parse c.readBuf ∈ (c.firstHalf io tls).actions := by
    unfold firstHalf injectSsl
    split
    · exact hmono hparse
    · exact hparse
  have hinline : .parse c.readBuf ∈ (inlineParse io (c.firstHalf io tls)).actions := by
    unfold inlineParse
    split
    · exact hmono hfirst
    · exact hfirst
  have hall : .parse c.readBuf ∈ (c.advance io tls server).actions := by
    unfold advance secondHalf answer
    split
    · exact hmono (List.mem_append_left _ hinline)
    · exact hinline
  exact List.ne_nil_of_mem (List.mem_filter.2 ⟨hall, rfl⟩)

theorem calls_cons (tls : Bool) (server : FileServer) (c : Connection) (io : Io)
    (ios : List Io) : (calls tls server c (io :: ios)).actions =
      (c.advance io tls server).actions ++
        (calls tls server (c.advance io tls server).conn ios).actions := rfl

/-- From `PARSING` no calls lead to `KEEP_ALIVE` without work on a request. -/
theorem calls_parsing (hc : c.state = .parsing) (hw : FirstWaits tls server c ios) :
    work (calls tls server c ios).actions ≠ [] := by
  cases ios with
  | nil =>
    rw [FirstWaits, hc] at hw
    cases hw
  | cons io ios =>
    rw [calls_cons, work_append]
    exact fun h => advance_parses io tls server hc (List.append_eq_nil_iff.1 h).1

/-- After a short write of the header block the request is parsed again. -/
theorem Responds.parses_again (h : Responds io tls server c p raw)
    (hall : ¬ p.transmitsAll io.headerWrite io.headerSslWrite p.headerBuf)
    (hw : FirstWaits tls server (c.advance io tls server).conn ios) :
    work (calls tls server (c.advance io tls server).conn ios).actions ≠ [] := by
  obtain ⟨as, hadv, _⟩ := h.sends
  rw [hadv, Outcome.after_conn] at hw ⊢
  rcases doSendHeaders_short h.unsent.header hall with hst | hst
  · exact calls_parsing (hst.trans h.state) hw
  · exact absurd hw (not_firstWaits_closed hst)

/-- A header block that is taken whole is followed by the body. -/
theorem Responds.resumes (h : Responds io tls server c p raw) (hfile : io.file = file)
    (hm : (HttpRequest.parse raw).2.method = .get ∨ (HttpRequest.parse raw).2.method = .head)
    (hall : p.transmitsAll io.headerWrite io.headerSslWrite p.headerBuf) :
    Resumes file (p.headerBuf ++ p.payload file) (c.advance io tls server) := by
  obtain ⟨as, hadv, hwire⟩ := h.sends
  rw [← h.request] at hm
  have hsend := doSendHeaders_resumes h.unsent hfile hm h.isHead hall
  rw [hadv]
  exact hsend.after (congrArg (· ++ _) hwire)

end Connection

namespace EventLoop
open Connection
variable {s : EventLoop} {i : Nat} {io : Io} {ios : List Io} {file raw : Bytes}

/-- A request is read while the socket takes `n` bytes of the header block. -/
def readThenSend (n : Nat) : Io :=
  { read := .done getText, headerWrite := .done n, bodyWrite := .done 10 }

end EventLoop

end FileWebServer
