import FileWebServer.Core.Bodies
import FileWebServer.Core.Transport
import FileWebServer.Http.ByteRange
import FileWebServer.Http.Dates
import FileWebServer.Lib.Pieces

namespace FileWebServer
open Pieces
set_option autoImplicit true
set_option maxRecDepth 20000

namespace Connection

variable {c d : Connection} {r : Outcome} {io : Io} {file : Bytes} {start len : Int} {t : Transfer}

/-- While a body goes on being sent, its file stays the same. -/
def SameFile (c : Connection) (r : Outcome) : Prop :=
  r.conn.state = .sendingBody → r.conn.fileFd = c.fileFd

theorem hangUp_sameFile (c d : Connection) (as : List Action) : SameFile c (d.hangUp as) := by
  intro hs
  have hclosed : (d.hangUp as).conn.state = .closed := close_state d
  rw [hclosed] at hs
  exact State.noConfusion hs

theorem onSent_sameFile {attempt : Sent × List Action} {next : Nat → Outcome}
    (h : ∀ n, SameFile c (next n)) : SameFile c (c.onSent attempt next) := by
  obtain ⟨sent, as⟩ := attempt
  cases sent with
  | bytes n => exact h n
  | wait want => exact fun _ => rfl
  | fatal => exact hangUp_sameFile c c as

theorem sendChunk_sameFile (io : Io) (c : Connection) : SameFile c (sendChunk io c) := by
  apply onSent_sameFile
  intro n
  dsimp only
  split
  · exact fun _ => rfl
  · exact fun _ => rfl

theorem doSendBodyTls_sameFile (io : Io) (c : Connection) : SameFile c (doSendBodyTls io c) := by
  unfold doSendBodyTls
  split
  · split
    · exact fun hs => State.noConfusion hs
    · dsimp only
      split
      · exact hangUp_sameFile c _ _
      · exact sendChunk_sameFile io (c.loadChunk (c.readChunk io))
  · exact sendChunk_sameFile io c

theorem doSendBodyPlain_sameFile (io : Io) (c : Connection) :
    SameFile c (doSendBodyPlain io c) := by
  unfold doSendBodyPlain
  split
  · exact fun hs => State.noConfusion hs
  · dsimp only
    split
    · exact hangUp_sameFile c _ _
    · cases io.sendfile with
      | done => exact fun hs => State.noConfusion hs
      | again n => exact fun _ => rfl
      | error n => exact hangUp_sameFile c _ _

/-- What a connection that sends a file does is settled by its transport. -/
theorem doSendBody_file (io : Io) (hfd : 0 ≤ c.fileFd) :
    doSendBody io c = if c.isTls then doSendBodyTls io c else doSendBodyPlain io c :=
  if_neg fun h => absurd hfd (Int.not_le.2 h.1)

theorem doSendBody_sameFile (io : Io) (hfd : 0 ≤ c.fileFd) : SameFile c (doSendBody io c) := by
  rw [doSendBody_file io hfd]
  split
  · exact doSendBodyTls_sameFile io c
  · exact doSendBodyPlain_sameFile io c

/-- `sendfile` never finds the file too short for the range that is being sent. -/
theorem Transfer.PlainInv.reaches (h : t.PlainInv file start len)
    (hwithin : start + len ≤ file.length) (io : Truncations file) (hio : io.1.file = file) :
    Reaches t io := by
  intro hs _ _ _
  obtain ⟨hoffset, hremaining⟩ := h.cursor hs
  rw [hio]
  omega

/-- The transfer of a file that nobody changes, over TLS or over a plain socket. -/
structure Transfer.Exact (file : Bytes) (start len : Int) (t : Transfer) : Prop where
  body : BodyExact file start len t
  opened : t.conn.state = .sendingBody → 0 ≤ t.conn.fileFd
  tls : t.conn.state = .sendingBody → t.conn.isTls → t.Inv file start len
  plain : t.conn.state = .sendingBody → ¬ t.conn.isTls → t.PlainInv file start len

theorem Transfer.Exact.call (h : t.Exact file start len) (hwithin : start + len ≤ file.length)
    (hio : io.file = file) : (t.call doSendBody io).Exact file start len := by
  by_cases hs : t.conn.state = .sendingBody
  · have hfd := h.opened hs
    have hkeep (hs' : (t.call doSendBody io).conn.state = .sendingBody) :
        0 ≤ (t.call doSendBody io).conn.fileFd ∧
          (t.call doSendBody io).conn.isTls = t.conn.isTls := by
      unfold Transfer.call at hs' ⊢
      rw [if_pos hs] at hs' ⊢
      have hssl : (doSendBody io t.conn).conn.ssl = t.conn.ssl := by
        apply (doSendBody_keepsLine io t.conn).ssl.resolve_right
        intro hclosed
        exact State.noConfusion (hs'.symm.trans hclosed)
      exact ⟨(doSendBody_sameFile io hfd hs').symm ▸ hfd, congrArg Option.isSome hssl⟩
    by_cases htls : t.conn.isTls
    · have hinv := (h.tls hs htls).tls hio
      have hcall : t.call doSendBody io = t.call doSendBodyTls io := by
        unfold Transfer.call
        rw [doSendBody_file io hfd, if_pos htls]
      rw [hcall] at hkeep ⊢
      refine ⟨hinv.exact, fun hs' => (hkeep hs').1, fun _ _ => hinv, fun hs' hplain => ?_⟩
      rw [(hkeep hs').2] at hplain
      exact absurd htls hplain
    · have hplain := h.plain hs htls
      have hio' : io.file <+: file := hio ▸ List.prefix_refl _
      have hinv := hplain.call (hplain.reaches hwithin ⟨io, hio'⟩ hio)
      have hcall : t.call doSendBody io = plainCall t ⟨io, hio'⟩ := by
        unfold plainCall Transfer.call
        rw [doSendBody_file io hfd, if_neg htls]
      rw [hcall] at hkeep ⊢
      refine ⟨hinv.exact, fun hs' => (hkeep hs').1, fun hs' htls' => ?_, fun _ _ => hinv⟩
      rw [(hkeep hs').2] at htls'
      exact absurd htls' htls
  · have hcall : t.call doSendBody io = t := if_neg hs
    rw [hcall]
    exact h

/-- A connection that is at the beginning of its file. -/
theorem Transfer.Exact.first (hs : c.state = .sendingBody) (hfd : 0 ≤ c.fileFd)
    (hchunk : c.chunkUsed ≤ c.chunkSent) :
    Transfer.Exact file c.sendOffset c.sendRemaining ⟨c, []⟩ where
  body := (Transfer.Inv.first hs hchunk).exact
  opened := fun _ => hfd
  tls := fun _ _ => Transfer.Inv.first hs hchunk
  plain := fun _ _ => ⟨(Transfer.Inv.first hs hchunk).exact, .inr rfl, fun _ => by simp⟩

theorem Transfer.Exact.calls (h : t.Exact file start len) (hwithin : start + len ≤ file.length)
    {ios : List Io} (hios : ∀ io ∈ ios, io.file = file) :
    (ios.foldl (Transfer.call doSendBody) t).Exact file start len := by
  induction ios generalizing t with
  | nil => exact h
  | cons io ios ih =>
    obtain ⟨hio, hios⟩ := List.forall_mem_cons.1 hios
    exact ih (h.call hwithin hio) hios

/-- A client asks for a file, or for a part of it, and gets what the calls of `do_send_body` put
on the socket until one of the two has had enough. -/
structure Attempt where
  io : Io
  server : FileServer
  conn : Connection
  calls : List Io

/-- Where a header block says that what follows it begins in the file. -/
def statedOffset (header : Bytes) : Nat :=
  match fieldValues (bytes "Content-Range") header with
  | value :: _ => (HttpRequest.number ((value.drop 6).takeWhile HttpRequest.isDigit)).toNat
  | [] => 0

/-- How many bytes a header block says to follow it. -/
def statedLength (header : Bytes) : Nat :=
  match fieldValues (bytes "Content-Length") header with
  | value :: _ => (HttpRequest.number value).toNat
  | [] => 0

namespace Attempt

def answer (a : Attempt) : Connection := (a.conn.prepareResponse a.io a.server).1

/-- The header block has been sent, and the body is. -/
def transfer (a : Attempt) : Transfer :=
  a.calls.foldl (Transfer.call doSendBody) ⟨{ a.answer with state := .sendingBody }, []⟩

/-- The client puts what it has got where the header block says. -/
def save (store : Nat → Option UInt8) (a : Attempt) : Nat → Option UInt8 :=
  put store (statedOffset a.answer.headerBuf) a.transfer.sent

/-- A GET request for a file that does not change, with any range whose numbers are those of an
`off_t`. -/
structure Gets (file : Bytes) (a : Attempt) : Prop where
  method : a.conn.request.method = .get
  chunk : a.conn.chunkUsed ≤ a.conn.chunkSent
  opens : ∃ info, a.server.openPath a.io.sys a.conn.request.path = .ok info ∧
    info.size = file.length ∧ a.conn.isFresh a.io info = false
  fits : HttpRequest.NumbersFit (a.conn.request.header (bytes "range"))
  unchanged : ∀ io ∈ a.calls, io.file = file

end Attempt

theorem number_decimalInt {n : Int} (h : 0 ≤ n) : HttpRequest.number (decimalInt n) = n := by
  rw [decimalInt_of_nonneg h, number_decimal, Int.toNat_of_nonneg h]

theorem takeWhile_decimalInt {n : Int} (h : 0 ≤ n) (rest : Bytes) :
    (decimalInt n ++ (bytes "-" ++ rest)).takeWhile HttpRequest.isDigit = decimalInt n := by
  have hdigits : ∀ b ∈ decimalInt n, HttpRequest.isDigit b = true := by
    rw [decimalInt_of_nonneg h]
    exact fun b hb => HttpRequest.isDigit_iff.2 (mem_decimal hb)
  rw [List.takeWhile_append_of_pos hdigits]
  exact List.append_nil _

variable {info : FileInfo} {p : Connection} {s e : Int}

/-- The header block of a whole file says that what follows is the file from its beginning on. -/
theorem Serves.stated_whole (h : Serves io info .ok [] 0 info.size p) (hmime : Inline info.mimeType)
    (hsize : 0 ≤ info.size) :
    statedOffset p.headerBuf = 0 ∧ statedLength p.headerBuf = info.size.toNat := by
  have hclean := h.clean hmime fun f hf => absurd hf List.not_mem_nil
  have hlength := h.length_field hclean Status.noConfusion fun f hf => absurd hf List.not_mem_nil
  have hname : 58 ∉ bytes "Content-Range" := by decide
  have hcustom := HttpResponse.custom_buildHeaders hclean io.time hname (by decide)
  rw [h.headers, ← h.header] at hcustom
  constructor
  · unfold statedOffset
    rw [hcustom]
    rfl
  · unfold statedLength
    rw [hlength]
    dsimp only
    rw [number_decimalInt hsize]

/-- The header block of a part of a file says where the part begins. -/
theorem Serves.stated_range (h : Serves io info .partialContent
    [(bytes "Content-Range", contentRange s e info.size)] s (e - s + 1) p)
    (hmime : Inline info.mimeType) (hs : 0 ≤ s) (he : s ≤ e) :
    statedOffset p.headerBuf = s.toNat ∧ statedLength p.headerBuf = (e - s + 1).toNat := by
  have hname : 58 ∉ bytes "Content-Range" ∧ Inline (bytes "Content-Range") := by
    unfold Inline
    decide
  have hclean : p.response.Clean := by
    apply h.clean hmime
    intro f hf
    rw [List.mem_singleton.1 hf]
    exact ⟨hname, (printable_contentRange _ _ _).inline⟩
  have hlength : fieldValues (bytes "Content-Length") p.headerBuf = [decimalInt (e - s + 1)] := by
    apply h.length_field hclean Status.noConfusion
    intro f hf
    rw [List.mem_singleton.1 hf]
    exact (by decide : bytes "Content-Range" ≠ bytes "Content-Length")
  have hcustom := HttpResponse.custom_buildHeaders hclean io.time hname.1 (by decide)
  rw [h.headers, ← h.header] at hcustom
  constructor
  · unfold statedOffset
    rw [hcustom]
    have hvalue : (contentRange s e info.size).drop 6 =
        decimalInt s ++ (bytes "-" ++ (decimalInt e ++ (bytes "/" ++ decimalInt info.size))) := by
      unfold contentRange
      rw [List.append_assoc, List.append_assoc, List.append_assoc, List.append_assoc]
      rfl
    change (HttpRequest.number
      (((contentRange s e info.size).drop 6).takeWhile HttpRequest.isDigit)).toNat = _
    rw [hvalue, takeWhile_decimalInt hs, number_decimalInt hs]
  · unfold statedLength
    rw [hlength]
    dsimp only
    rw [number_decimalInt (by omega)]

theorem serveFile_chunk (io : Io) (info : FileInfo) (c : Connection) :
    (prepareFile.serveFile io info c).1.chunkUsed = c.chunkUsed ∧
      (prepareFile.serveFile io info c).1.chunkSent = c.chunkSent :=
  ⟨rfl, rfl⟩

namespace Attempt

variable {a : Attempt} {store : Nat → Option UInt8}

/-- What a client is promised: the header block says which bytes of the file the body has. -/
theorem Gets.promised (h : Gets file a) (hlen : file.length < 2 ^ 63) :
    ∃ start len : Nat, start + len ≤ file.length ∧ 0 ≤ a.answer.fileFd ∧
      a.answer.chunkUsed ≤ a.answer.chunkSent ∧ a.answer.sendOffset = start ∧
      a.answer.sendRemaining = len ∧ statedOffset a.answer.headerBuf = start ∧
      statedLength a.answer.headerBuf = len := by
  obtain ⟨info, hopen, hsize, hfresh⟩ := h.opens
  obtain ⟨hfd, hmime⟩ := FileServer.openPath_info hopen
  have hinline : Inline info.mimeType := hmime ▸ (printable_detectMimeType _).inline
  have hstale : a.conn.blank.isFresh a.io info = false := hfresh
  have hanswer : a.answer = (prepareFile.serveFile a.io info a.conn.blank).1 := by
    unfold answer
    rw [prepareResponse_opened (.inl h.method) hopen, prepareFile_stale hstale]
  obtain ⟨hused, hsent⟩ := serveFile_chunk a.io info a.conn.blank
  have hchunk : a.answer.chunkUsed ≤ a.answer.chunkSent := by
    rw [hanswer, hused, hsent]
    exact h.chunk
  rw [hanswer] at hchunk ⊢
  cases hrange : a.conn.request.parseRange info.size with
  | none =>
    have hserves : Serves a.io info .ok [] 0 info.size
        (prepareFile.serveFile a.io info a.conn.blank).1 :=
      serveFile_whole (by omega) (by omega) rfl hrange
    obtain ⟨hoffset, hlength⟩ := hserves.stated_whole hinline (by omega)
    exact ⟨0, info.size.toNat, by omega, hserves.file ▸ hfd, hchunk, hserves.offset,
      by rw [hserves.remaining]; omega, hoffset, hlength⟩
  | some range =>
    obtain ⟨s, e⟩ := range
    obtain ⟨hs, he, hlt⟩ := HttpRequest.parseRange_within (by omega) (by omega) h.fits hrange
    have hserves : Serves a.io info .partialContent
        [(bytes "Content-Range", contentRange s e info.size)] s (e - s + 1)
        (prepareFile.serveFile a.io info a.conn.blank).1 :=
      serveFile_range hs he hlt (by omega) rfl hrange
    obtain ⟨hoffset, hlength⟩ := hserves.stated_range hinline hs he
    exact ⟨s.toNat, (e - s + 1).toNat, by omega, hserves.file ▸ hfd, hchunk,
      by rw [hserves.offset]; omega, by rw [hserves.remaining]; omega, hoffset, hlength⟩

/-- What a client gets: a beginning of the bytes that the header block promises, and all of them
if the connection goes back to waiting. -/
theorem Gets.kept (h : Gets file a) (hlen : file.length < 2 ^ 63) :
    a.transfer.sent <+: file.drop (statedOffset a.answer.headerBuf) ∧
      (a.transfer.conn.state = .keepAlive →
        a.transfer.sent.length = statedLength a.answer.headerBuf) := by
  obtain ⟨start, len, hwithin, hfd, hchunk, hoffset, hremaining, hso, hsl⟩ := h.promised hlen
  have hfirst : Transfer.Exact file a.answer.sendOffset a.answer.sendRemaining
      ⟨{ a.answer with state := .sendingBody }, []⟩ :=
    .first (c := { a.answer with state := .sendingBody }) rfl hfd hchunk
  have hexact : a.transfer.Exact file a.answer.sendOffset a.answer.sendRemaining := by
    apply hfirst.calls _ h.unchanged
    rw [hoffset, hremaining]
    omega
  rw [hoffset, hremaining] at hexact
  rw [hso, hsl]
  refine ⟨hexact.body.begun.trans ?_, fun hk => (hexact.body.whole hk).2⟩
  exact List.take_prefix _ _

theorem save_partOf (hlen : file.length < 2 ^ 63) {attempts : List Attempt}
    (h : ∀ a ∈ attempts, a.Gets file) (hstore : PartOf store file) :
    PartOf (attempts.foldl save store) file := by
  induction attempts generalizing store with
  | nil => exact hstore
  | cons a attempts ih =>
    obtain ⟨ha, hrest⟩ := List.forall_mem_cons.1 h
    exact ih hrest (hstore.put (ha.kept hlen).1)

theorem save_covers {start stop : Nat} (hstore : Covers store start stop)
    (attempts : List Attempt) : Covers (attempts.foldl save store) start stop := by
  induction attempts generalizing store with
  | nil => exact hstore
  | cons a attempts ih => exact ih hstore.put

/-- What was got from one of the attempts is still there after the others. -/
theorem covers_of_mem {attempts : List Attempt} (h : a ∈ attempts) (store : Nat → Option UInt8) :
    Covers (attempts.foldl save store) (statedOffset a.answer.headerBuf)
      (statedOffset a.answer.headerBuf + a.transfer.sent.length) := by
  induction attempts generalizing store with
  | nil => exact absurd h List.not_mem_nil
  | cons b attempts ih =>
    rcases List.mem_cons.1 h with rfl | h
    · exact save_covers (covers_put store _ _) attempts
    · exact ih h _

/-- A request for a part of a file of ten letters, with the calls that send it. -/
def letters (range : String) (ssl : Option Nat) (calls : List Io) : Attempt where
  io := { sys := tenBytes }
  server := ⟨bytes "/srv"⟩
  conn := { ssl := ssl, request := (HttpRequest.parse (bytes "GET /a.txt HTTP/1.1\r\n" ++
    bytes "Range: bytes=" ++ bytes range ++ bytes "\r\nHost: a\r\n\r\n")).2 }
  calls := calls

/-- The last letters come over TLS, then the first ones in the clear, until the client leaves. -/
def twoParts : List Attempt :=
  [letters "4-" (some 1)
      [{ file := bytes "abcdefghij", pread := .done 6, bodySslWrite := .done 2 },
        { file := bytes "abcdefghij", bodySslWrite := .done 4 },
        { file := bytes "abcdefghij" }],
    letters "0-7" none [{ file := bytes "abcdefghij", sendfile := .again 5 }]]

theorem letters_gets {range : String} {ssl : Option Nat} {calls : List Io}
    (hm : (letters range ssl calls).conn.request.method = .get)
    (hpath : (letters range ssl calls).conn.request.path = bytes "/a.txt")
    (hfresh : (letters range ssl calls).conn.request.header (bytes "if-modified-since") = [])
    (hlen : ((letters range ssl calls).conn.request.header (bytes "range")).length ≤ 18)
    (hcalls : ∀ io ∈ calls, io.file = bytes "abcdefghij") :
    (letters range ssl calls).Gets (bytes "abcdefghij") where
  method := hm
  chunk := Nat.le_refl 0
  opens := by
    refine ⟨⟨9, 10, 0, bytes "text/plain", bytes "/srv/a.txt"⟩, ?_, rfl, ?_⟩
    · rw [hpath]
      rfl
    · unfold isFresh HttpRequest.parseIfModifiedSince
      rw [if_pos hfresh]
  fits := HttpRequest.numbersFit_of_length hlen
  unchanged := hcalls

end Attempt

end Connection
end FileWebServer
