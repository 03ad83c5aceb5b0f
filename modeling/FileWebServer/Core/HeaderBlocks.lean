import FileWebServer.Core.Framing
import FileWebServer.Core.Histories
import FileWebServer.Http.RoundTrip

namespace FileWebServer
open Search
set_option autoImplicit true
set_option maxRecDepth 20000

/-- The fields that a response can have: each name with the values that can stand behind it. -/
inductive Field : Bytes × Bytes → Prop where
  | date (time : Int) : Field (bytes "Date", formatTime time)
  | page : Field (bytes "Content-Type", bytes "text/html; charset=utf-8")
  | mimeType {e : MimeEntry} (h : e ∈ mimeTable) : Field (bytes "Content-Type", e.mime)
  | fallback : Field (bytes "Content-Type", fallbackMime)
  | contentLength (n : Nat) : Field (bytes "Content-Length", decimal n)
  | lastModified (time : Int) : Field (bytes "Last-Modified", formatTime time)
  | acceptRanges : Field (bytes "Accept-Ranges", bytes "bytes")
  | keepAlive : Field (bytes "Connection", bytes "keep-alive")
  | close : Field (bytes "Connection", bytes "close")
  | contentRange (s e size : Int) :
      Field (bytes "Content-Range", Connection.contentRange s e size)

/-- The names of these fields, in the order in which they are written. -/
def fieldNames : List Bytes :=
  [bytes "Date", bytes "Content-Type", bytes "Content-Length", bytes "Last-Modified",
    bytes "Accept-Ranges", bytes "Connection", bytes "Content-Range"]

theorem Field.name (h : Field f) : f.1 ∈ fieldNames := by
  unfold fieldNames
  cases h <;> simp

/-- A header block that ends where its last line does, and has no line but those of a response.
Names that differ in case are the same name. -/
structure HeaderBlock (block : Bytes) : Prop where
  ends : ∀ k, crlfcrlf <+: block.drop k ↔ k + 4 = block.length
  lines : ∃ (status : Status) (fields : List (Bytes × Bytes)),
    FileWebServer.lines block =
      HttpResponse.statusLine status :: fields.map fieldText ++ [[], []] ∧
      (∀ f ∈ fields, f.1 ≠ [] ∧ 58 ∉ f.1 ∧ Field f) ∧ (fields.map fun f => f.1.map tolower).Nodup

/-- Lines that a blank one ends are a block of them, and the CRLFCRLF behind it. -/
theorem unlines_block (h : ls ≠ []) : unlines (ls ++ [[]]) = block ls ++ crlfcrlf := by
  have hcons : ∀ l ls, unlines (l :: ls) = l ++ crlf ++ unlines ls := fun _ _ => List.flatMap_cons
  induction ls with
  | nil => exact (h rfl).elim
  | cons l ls ih =>
    rw [List.cons_append, hcons]
    by_cases hls : ls = []
    · subst hls
      change l ++ crlf ++ crlf = l ++ crlfcrlf
      rw [List.append_assoc]
      rfl
    · rw [ih hls, block_cons l hls, List.append_assoc, List.append_assoc, List.append_assoc]

/-- Such a block has its CRLFCRLF at the end and nowhere else. -/
theorem ends_of_block (h : ∀ l ∈ ls, IsLine l) (hne : ls ≠ []) (k : Nat) :
    crlfcrlf <+: (block ls ++ crlfcrlf).drop k ↔ k + 4 = (block ls ++ crlfcrlf).length := by
  have hlen : (block ls ++ crlfcrlf).length = (block ls).length + 4 := List.length_append
  have hfind := find_crlfcrlf_block h hne []
  rw [List.append_nil] at hfind
  obtain ⟨_, hat, hbefore⟩ := find_eq_some_iff.1 hfind
  rw [hlen]
  constructor
  · intro hk
    have hle := hk.length_le
    have hfirst : ¬ k < (block ls).length := fun hlt => hbefore k hlt hk
    have hfour : crlfcrlf.length = 4 := rfl
    rw [List.length_drop, hlen, hfour] at hle
    omega
  · intro hk
    have hk : k = (block ls).length := by omega
    rw [hk]
    exact hat

/-- A response whose type and custom fields are the program's own. -/
structure HttpResponse.Plain (r : HttpResponse) : Prop where
  contentType : r.contentType = [] ∨ Field (bytes "Content-Type", r.contentType)
  headers : r.headers = [] ∨
    ∃ s e size, r.headers = [(bytes "Content-Range", Connection.contentRange s e size)]

theorem Field.printable (h : Field f) : Printable f.2 := by
  have htable : ∀ e ∈ mimeTable, Printable e.mime := by decide
  cases h with
  | date time => exact printable_formatTime time
  | page => decide
  | mimeType h => exact htable _ h
  | fallback => decide
  | contentLength n => exact printable_decimal n
  | lastModified time => exact printable_formatTime time
  | acceptRanges => decide
  | keepAlive => decide
  | close => decide
  | contentRange s e size => exact Connection.printable_contentRange s e size

namespace HttpResponse
variable {r : HttpResponse}

theorem Plain.custom (h : r.Plain) : ∀ f ∈ r.headers, Field f := by
  intro f hf
  rcases h.headers with hnil | ⟨s, e, size, hrange⟩
  · rw [hnil] at hf
    exact absurd hf List.not_mem_nil
  · rw [hrange, List.mem_singleton] at hf
    rw [hf]
    exact .contentRange s e size

theorem Plain.fields (h : r.Plain) (time : Int) : ∀ f ∈ r.fields time, Field f := by
  intro f hf
  simp only [HttpResponse.fields, List.mem_append, List.mem_singleton,
    List.mem_ite_nil_right] at hf
  rcases hf with (((((rfl | ⟨⟨_, hne⟩, rfl⟩) | ⟨_, rfl⟩) | ⟨_, rfl⟩) | ⟨_, rfl⟩) | rfl) | hf
  · exact .date time
  · exact h.contentType.resolve_left hne
  · exact .contentLength r.contentLength
  · exact .lastModified r.lastModified
  · exact .acceptRanges
  · cases r.keepAlive with
    | true => exact .keepAlive
    | false => exact .close
  · exact h.custom f hf

/-- The names of a response's fields are among those of all fields, in their order. -/
theorem Plain.names (h : r.Plain) (time : Int) :
    ((r.fields time).map Prod.fst).Sublist fieldNames := by
  have hif : ∀ (p : Prop) [Decidable p] (f : Bytes × Bytes),
      ((if p then [f] else []).map Prod.fst).Sublist [f.1] := by
    intro p _ f
    split
    · exact .refl _
    · exact List.nil_sublist _
  have hcustom : (r.headers.map Prod.fst).Sublist [bytes "Content-Range"] := by
    rcases h.headers with hnil | ⟨s, e, size, hrange⟩
    · rw [hnil]
      exact List.nil_sublist _
    · rw [hrange]
      exact .refl _
  have hnames : fieldNames = [bytes "Date"] ++ [bytes "Content-Type"] ++ [bytes "Content-Length"] ++
      [bytes "Last-Modified"] ++ [bytes "Accept-Ranges"] ++ [bytes "Connection"] ++
      [bytes "Content-Range"] := rfl
  unfold HttpResponse.fields
  simp only [List.map_append]
  rw [hnames]
  apply List.Sublist.append _ hcustom
  apply List.Sublist.append _ (.refl _)
  apply List.Sublist.append _ (hif _ _)
  apply List.Sublist.append _ (hif _ _)
  apply List.Sublist.append _ (hif _ _)
  exact List.Sublist.append (.refl _) (hif _ _)

theorem Plain.clean (h : r.Plain) : r.Clean := by
  have hnames : ∀ name ∈ fieldNames, 58 ∉ name ∧ Inline name := by
    unfold Inline
    decide
  constructor
  · rcases h.contentType with hnil | hf
    · rw [hnil]
      exact inline_nil
    · exact hf.printable.inline
  · exact fun f hf => hnames f.1 (h.custom f hf).name
  · exact fun f hf => (h.custom f hf).printable.inline

/-- The header block of such a response. -/
theorem Plain.headerBlock (h : r.Plain) (time : Int) : HeaderBlock (r.buildHeaders time) := by
  have hnames : ∀ name ∈ fieldNames, name ≠ [] ∧ 58 ∉ name ∧ Inline name := by
    unfold Inline
    decide
  have hdistinct : (fieldNames.map fun name => name.map tolower).Nodup := by decide
  have hcolon : Inline (bytes ": ") := by
    unfold Inline
    decide
  have hlines : ∀ l ∈ statusLine r.status :: (r.fields time).map fieldText, IsLine l := by
    intro l hl
    rcases List.mem_cons.1 hl with rfl | hl
    · refine ⟨?_, (inline_statusLine _).1⟩
      exact List.append_ne_nil_of_left_ne_nil (List.append_ne_nil_of_left_ne_nil
        (List.append_ne_nil_of_left_ne_nil (by decide) _) _) _
    · obtain ⟨f, hf, rfl⟩ := List.mem_map.1 hl
      have hfield := h.fields time f hf
      obtain ⟨hne, _, hinline⟩ := hnames f.1 hfield.name
      refine ⟨?_, inline_append (inline_append hinline hcolon) hfield.printable.inline⟩
      exact List.append_ne_nil_of_left_ne_nil (List.append_ne_nil_of_left_ne_nil hne _) _
  constructor
  · rw [buildHeaders_eq, unlines_block (List.cons_ne_nil _ _)]
    exact ends_of_block hlines (List.cons_ne_nil _ _)
  · refine ⟨r.status, r.fields time, lines_buildHeaders h.clean time, ?_, ?_⟩
    · intro f hf
      have hfield := h.fields time f hf
      obtain ⟨hne, hcol, _⟩ := hnames f.1 hfield.name
      exact ⟨hne, hcol, hfield⟩
    · have hsub := ((h.names time).map fun name => name.map tolower).nodup hdistinct
      rw [List.map_map] at hsub
      exact hsub

end HttpResponse

namespace Connection
variable {c : Connection} {r r' : Outcome} {io : Io} {tls : Bool} {server : FileServer}

theorem field_detectMimeType (path : Bytes) :
    Field (bytes "Content-Type", detectMimeType path) := by
  unfold detectMimeType
  split
  · exact .fallback
  · split
    · next e he =>
      split
      · exact .mimeType (List.mem_of_getElem? he)
      · exact .fallback
    · exact .fallback

theorem preparePage_plain (io : Io) (status : Status) (body : Bytes)
    (h : c.response.headers = []) : (c.preparePage io status body).1.response.Plain :=
  ⟨.inr .page, .inl h⟩

theorem prepareError_plain (status : Status) (note : Bytes) (time : Int)
    (h : c.response.headers = []) : (c.prepareError status note time).response.Plain :=
  ⟨.inr .page, .inl h⟩

theorem prepareFile_plain {info : FileInfo} (io : Io)
    (h : c.response = { HttpResponse.reset with keepAlive := k })
    (hmime : Field (bytes "Content-Type", info.mimeType)) :
    (c.prepareFile io info).1.response.Plain := by
  cases hfresh : c.isFresh io info with
  | true =>
    rw [prepareFile_fresh hfresh, h]
    exact ⟨.inl rfl, .inl rfl⟩
  | false =>
    rw [prepareFile_stale hfresh]
    unfold prepareFile.serveFile
    constructor
    · exact .inr hmime
    · rw [h]
      cases hrange : c.request.parseRange info.size with
      | none => exact .inl rfl
      | some range => exact .inr ⟨range.1, range.2, info.size, rfl⟩

/-- For every request, whatever the file server finds and whatever the clock says. -/
theorem prepareResponse_plain (io : Io) (server : FileServer) (c : Connection) :
    (c.prepareResponse io server).1.response.Plain := by
  rcases prepareResponse_cases io server c with ⟨status, body, hp, _⟩ | ⟨info, hp, hopen, _⟩
  · rw [hp]
    exact preparePage_plain io status body rfl
  · rw [hp]
    apply prepareFile_plain io rfl
    rw [(FileServer.openPath_info hopen).2]
    exact field_detectMimeType _

theorem prepareResponse_headerBlock (io : Io) (server : FileServer) (c : Connection) :
    HeaderBlock (c.prepareResponse io server).1.headerBuf := by
  rw [prepareResponse_header]
  exact (prepareResponse_plain io server c).headerBlock io.time

theorem prepareError_headerBlock (status : Status) (note : Bytes) (time : Int)
    (h : c.response.headers = []) : HeaderBlock (c.prepareError status note time).headerBuf :=
  (prepareError_plain status note time h).headerBlock time

/-- A connection that has not been asked for anything has nothing in its response. -/
structure Unasked (c : Connection) : Prop where
  request : c.request.method = .unknown
  response : c.response.headers = []

/-- A connection in `PARSING` has a request that will be accepted, or it has just been read. -/
def Ready (c : Connection) : Prop :=
  c.state = .parsing → (HttpRequest.parse c.readBuf).1 = true ∨ Unasked c

/-- An error page that a step builds on its own has a sound header block, and is sent next. -/
def Refuses (r : Outcome) : Prop :=
  .prepareHeaders ∈ r.actions → HeaderBlock r.conn.headerBuf ∧ r.conn.state = .sendingHeaders

/-- A step before the answer to a request. -/
structure Preparing (r : Outcome) : Prop where
  early : Early Unasked r.conn
  ready : Ready r.conn
  refuses : Refuses r

theorem Refuses.of_work (h : work r.actions = []) : Refuses r := by
  intro hmem
  have hwork : Action.prepareHeaders ∈ work r.actions := List.mem_filter.2 ⟨hmem, rfl⟩
  rw [h] at hwork
  exact absurd hwork List.not_mem_nil

theorem Refuses.after (h : Refuses r) (hs : r.conn.state ≠ .sendingHeaders) (h' : Refuses r') :
    Refuses (r'.after r.actions) := by
  intro hmem
  rcases List.mem_append.1 hmem with hmem | hmem
  · exact absurd (h hmem).2 hs
  · exact h' hmem

theorem Ready.of_ne (h : c.state ≠ .parsing) : Ready c := fun hp => absurd hp h

theorem unasked_slate (c d : Connection) (hslate : c.slate = d.slate) (_ : c.fileFd = d.fileFd)
    (hc : Unasked c) : Unasked d := by
  simp only [slate, Prod.mk.injEq] at hslate
  obtain ⟨hreq, hresp, _⟩ := hslate
  exact ⟨hreq ▸ hc.request, hresp ▸ hc.response⟩

theorem unasked_invariant : ConnInvariant (Early Unasked) := by
  apply early_invariant unasked_slate
  · exact fun c hc => hc.request
  · exact fun c fd root timeout now tls => ⟨rfl, rfl⟩

theorem doProtoDetect_refuses (io : Io) (tls : Bool) (h : c.response.headers = []) :
    Refuses (c.doProtoDetect io tls) := by
  unfold doProtoDetect
  rcases io.peek with (_ | b) | _ | _
  · exact .of_work (hangUp_sends (c := c) rfl rfl).work
  · dsimp only
    split
    · split
      · exact .of_work rfl
      · exact fun _ => ⟨prepareError_headerBlock _ _ _ h, rfl⟩
    · exact .of_work rfl
  · exact .of_work rfl
  · exact .of_work (hangUp_sends (c := c) rfl rfl).work

theorem doTlsAccept_refuses (io : Io) (ret : SslResult Unit) (h : c.response.headers = []) :
    Refuses (c.doTlsAccept io ret) := by
  cases ret with
  | done => exact .of_work rfl
  | wantRead => exact .of_work rfl
  | wantWrite => exact .of_work rfl
  | error => exact fun _ => ⟨prepareError_headerBlock _ _ _ h, rfl⟩

theorem doParse_refuses (io : Io) (hc : c.state = .parsing) (h : Ready c) :
    Refuses (c.doParse io) := by
  unfold doParse
  dsimp only
  split
  · exact fun hmem => absurd hmem (by simp)
  · next hrej =>
    have hunasked := (h hc).resolve_left hrej
    exact fun _ => ⟨prepareError_headerBlock _ _ _ hunasked.response, rfl⟩

/-- What is left in `PARSING` has been accepted. -/
theorem doParse_accepted (io : Io) (h : (c.doParse io).conn.state = .parsing) :
    (HttpRequest.parse (c.doParse io).conn.readBuf).1 = true := by
  unfold doParse at h ⊢
  dsimp only at h ⊢
  by_cases hacc : (HttpRequest.parse c.readBuf).1 = true
  · rw [if_pos hacc]
    exact hacc
  · rw [if_neg hacc] at h
    cases h

theorem doProtoDetect_not_parsing (io : Io) (tls : Bool) (hc : c.state = .protoDetect) :
    (c.doProtoDetect io tls).conn.state ≠ .parsing := by
  unfold doProtoDetect
  rcases io.peek with (_ | b) | _ | _
  · simp [hangUp, close_state]
  · dsimp only
    split
    · split
      · exact State.noConfusion
      · exact State.noConfusion
    · exact State.noConfusion
  · simp [hc]
  · simp [hangUp, close_state]

theorem doTlsAccept_not_parsing (io : Io) (ret : SslResult Unit) (hc : c.state = .tlsAccept) :
    (c.doTlsAccept io ret).conn.state ≠ .parsing := by
  cases ret with
  | done => exact State.noConfusion
  | wantRead => simp [doTlsAccept, hc]
  | wantWrite => simp [doTlsAccept, hc]
  | error => exact State.noConfusion

/-- A step that leaves the connection open has not failed. -/
theorem goes_on_of_live (h : (c.stateAction io tls).conn.state ≠ .closed) :
    c.state ≠ .closed ∧ ¬ stateFails io c := by
  have hlive : c.state ≠ .closed := by
    intro hc
    rw [stateAction, hc] at h
    exact h hc
  exact ⟨hlive, fun hf => h ((stateAction_ends io tls hlive).closed_iff.2 hf)⟩

theorem doRead_unasked (io : Io) (hf : ¬ readFails io c) (h : Unasked c) :
    Unasked (c.doRead io).conn := by
  obtain ⟨buf, complete, state, want, as, _, _, hd⟩ := doRead_goes_on io hf
  rw [hd]
  exact ⟨h.request, h.response⟩

/-- A step that leads to `PARSING` begins there, or reads. -/
theorem stateAction_ready (io : Io) (tls : Bool) (h : Early Unasked c) :
    Ready (c.stateAction io tls).conn := by
  intro hp
  obtain ⟨hlive, hf⟩ := goes_on_of_live (by rw [hp]; exact State.noConfusion)
  have hsending : ¬ c.Sending := fun hs => (stateAction_settled io tls hs).2.1 hp
  unfold stateAction at hp ⊢
  unfold stateFails at hf
  cases hs : c.state with
  | closed => exact absurd hs hlive
  | protoDetect =>
    rw [hs] at hp
    exact absurd hp (doProtoDetect_not_parsing io tls hs)
  | tlsAccept =>
    rw [hs] at hp
    exact absurd hp (doTlsAccept_not_parsing io _ hs)
  | reading =>
    rw [hs] at hf
    exact .inr (doRead_unasked io hf (h (by rw [hs]; rfl)))
  | parsing =>
    rw [hs] at hp
    exact .inl (doParse_accepted io hp)
  | sendingHeaders => exact absurd (.inl hs) hsending
  | sendingBody => exact absurd (.inr hs) hsending
  | keepAlive =>
    rw [hs] at hf
    exact .inr (doRead_unasked io hf ⟨rfl, rfl⟩)

theorem stateAction_refuses (io : Io) (tls : Bool) (h : Early Unasked c) (hr : Ready c) :
    Refuses (c.stateAction io tls) := by
  unfold stateAction
  cases hs : c.state with
  | closed => exact .of_work rfl
  | protoDetect => exact doProtoDetect_refuses io tls (h (by rw [hs]; rfl)).response
  | tlsAccept => exact doTlsAccept_refuses io _ (h (by rw [hs]; rfl)).response
  | reading => exact .of_work (doRead_work io c)
  | parsing => exact doParse_refuses io hs hr
  | sendingHeaders => exact .of_work (doSendHeaders_sends io c).work
  | sendingBody => exact .of_work (doSendBody_sends io c).work
  | keepAlive =>
    apply Refuses.of_work
    rw [Outcome.after_actions, work_append, closeFileActions_work, doRead_work]
    rfl

theorem stateAction_preparing (io : Io) (tls : Bool) (h : Early Unasked c) (hr : Ready c) :
    Preparing (c.stateAction io tls) := by
  refine ⟨?_, stateAction_ready io tls h, stateAction_refuses io tls h hr⟩
  by_cases hs : (c.stateAction io tls).conn.state = .closed
  · exact early_of_late (by rw [hs]; rfl)
  · exact stateAction_early unasked_slate io tls (goes_on_of_live hs).2 h

theorem firstHalf_preparing (io : Io) (tls : Bool) (h : Early Unasked c) (hr : Ready c) :
    Preparing (c.firstHalf io tls) := by
  have hact := stateAction_preparing io tls h hr
  unfold firstHalf injectSsl
  split
  · next ht =>
    have hunasked := hact.early (by rw [ht.1]; rfl)
    have haccept : (Connection.doTlsAccept io io.sslAcceptInline
        { (c.stateAction io tls).conn with ssl := if tls then io.newSsl else none }).conn.state ≠
          .parsing := doTlsAccept_not_parsing io _ ht.1
    refine ⟨?_, .of_ne haccept, ?_⟩
    · intro he
      obtain ⟨hslate, hfile⟩ := doTlsAccept_slate io _ he
      exact unasked_slate (c.stateAction io tls).conn _ hslate.symm hfile.symm hunasked
    · apply hact.refuses.after (by rw [ht.1]; exact State.noConfusion)
      exact doTlsAccept_refuses io _ hunasked.response
  · exact hact

/-- Once it has been parsed, a request in `PARSING` is one that has been accepted. -/
def Accepted (c : Connection) : Prop :=
  c.state = .parsing → (HttpRequest.parse c.readBuf).1 = true

theorem inlineParse_accepted (io : Io) (h : Preparing r) : Accepted (inlineParse io r).conn := by
  intro hp
  unfold inlineParse at hp ⊢
  split at hp
  · next hc =>
    rw [if_pos hc]
    exact doParse_accepted io hp
  · next hc =>
    rw [if_neg hc]
    exact (h.ready hp).resolve_right fun hu => hc ⟨hp, hu.request⟩

theorem inlineParse_refuses (io : Io) (h : Preparing r) : Refuses (inlineParse io r) := by
  unfold inlineParse
  split
  · next hc =>
    apply h.refuses.after
    · rw [hc.1]
      exact State.noConfusion
    · exact doParse_refuses io hc.1 h.ready
  · exact h.refuses

/-- The answer to a request has a sound header block, and keeps the buffer of the request. -/
theorem answer_headerBlock (io : Io) (server : FileServer) (h : Refuses r)
    (hbuilt : .prepareHeaders ∈ (answer io server r).actions) :
    HeaderBlock (answer io server r).conn.headerBuf := by
  by_cases hd : r.conn.answerDue
  · have hsends := doSendHeaders_sends io (r.conn.prepareResponse io server).1
    have hmsg := hsends.message
    simp only [message, Prod.mk.injEq] at hmsg
    rw [answer_due io server hd, Outcome.after_conn, hmsg.2.2.2.1]
    exact prepareResponse_headerBlock io server r.conn
  · rw [answer_not_due io server hd] at hbuilt ⊢
    exact (h hbuilt).1

theorem answer_accepted (io : Io) (server : FileServer) (h : Early Unasked r.conn)
    (ha : Accepted r.conn) : Accepted (answer io server r).conn := by
  by_cases hd : r.conn.answerDue
  · have hparsing : r.conn.state = .parsing := by
      obtain ⟨hp | hr, hm⟩ := hd
      · exact hp
      · exact absurd (h (by rw [hr]; rfl)).request hm
    obtain ⟨as, _, hbuilt⟩ := prepareResponse_built io server r.conn
    have hmsg := (doSendHeaders_sends io (r.conn.prepareResponse io server).1).message
    simp only [message, Prod.mk.injEq] at hmsg
    intro _
    rw [answer_due io server hd, Outcome.after_conn, hmsg.1, hbuilt.readBuf]
    exact ha hparsing
  · rw [answer_not_due io server hd]
    exact ha

/-- What holds of every connection between two calls. -/
structure Orderly (c : Connection) : Prop where
  early : Early Unasked c
  accepted : Accepted c

theorem Orderly.ready (h : Orderly c) : Ready c := fun hp => .inl (h.accepted hp)

theorem orderly_invariant : ConnInvariant Orderly := by
  constructor
  · exact fun c => ⟨fun h => ⟨(unasked_invariant.core c).1 h.early, h.accepted⟩,
      fun h => ⟨(unasked_invariant.core c).2 h.early, h.accepted⟩⟩
  · intro c hc
    refine ⟨early_of_late (by rw [hc]; rfl), fun hp => ?_⟩
    rw [hc] at hp
    cases hp
  · exact fun c fd root timeout now tls =>
      ⟨unasked_invariant.init c fd root timeout now tls, fun hp => State.noConfusion hp⟩
  · intro c io tls server hc hf h
    have hfirst := firstHalf_preparing io tls h.early h.ready
    refine ⟨unasked_invariant.step c io tls server hc hf h.early, ?_⟩
    exact answer_accepted io server (inlineParse_early io hfirst.early)
      (inlineParse_accepted io hfirst)

theorem advance_headerBlock (io : Io) (tls : Bool) (server : FileServer) (h : Orderly c)
    (hbuilt : .prepareHeaders ∈ (c.advance io tls server).actions) :
    HeaderBlock (c.advance io tls server).conn.headerBuf :=
  answer_headerBlock io server
    (inlineParse_refuses io (firstHalf_preparing io tls h.early h.ready)) hbuilt

end Connection

namespace EventLoop
open Connection
variable {s : EventLoop}

theorem processConnection_headerBlock {io : Io} {i : Nat} (hs : s.Reachable)
    (hbuilt : .prepareHeaders ∈ during s (s.processConnection io i)) :
    HeaderBlock ((s.processConnection io i).conn i).headerBuf := by
  obtain ⟨hconn, _⟩ := processConnection_outcome s io i
  have hadv : .prepareHeaders ∈ ((s.conn i).advance io s.tlsCtx s.fileServer).actions := by
    apply mem_work
    rw [← processConnection_work]
    exact List.mem_filter.2 ⟨hbuilt, rfl⟩
  have hheader : ((s.processConnection io i).conn i).headerBuf =
      ((s.conn i).advance io s.tlsCtx s.fileServer).conn.headerBuf := by
    have hcore := congrArg Connection.headerBuf hconn
    exact hcore
  rw [hheader]
  exact advance_headerBlock io s.tlsCtx s.fileServer (hs.conn orderly_invariant i) hadv

/-- No header block is split: none that `prepare_response` builds, from whatever request, files
and clock, and none that any call builds in any run, with the error pages of `Connection`. -/
theorem header_block_unsplit :
    (∀ (io : Io) (server : FileServer) (c : Connection),
      HeaderBlock (c.prepareResponse io server).1.headerBuf) ∧
    ∀ (s : EventLoop) (io : Io) (i : Nat), s.Reachable →
      .prepareHeaders ∈ during s (s.processConnection io i) →
      HeaderBlock ((s.processConnection io i).conn i).headerBuf :=
  ⟨prepareResponse_headerBlock, fun _ _ _ hs hbuilt => processConnection_headerBlock hs hbuilt⟩

theorem header_block_unsplit_get :
    HeaderBlock (Connection.prepareResponse {} ⟨bytes "/srv"⟩ {}).1.headerBuf ∧
      HeaderBlock ((greeted.processConnection { read := .done getText } 0).conn 0).headerBuf := by
  constructor
  · exact header_block_unsplit.1 {} ⟨bytes "/srv"⟩ {}
  · apply header_block_unsplit.2 greeted { read := .done getText } 0
    · exact reachable_run ..
    · decide

end EventLoop

end FileWebServer
