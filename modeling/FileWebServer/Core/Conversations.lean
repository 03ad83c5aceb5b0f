import FileWebServer.Core.Downloads
import FileWebServer.Core.Replies
import FileWebServer.Lib.Stream

namespace FileWebServer
open Search Stream
set_option autoImplicit true
set_option maxRecDepth 20000

/-- A response as a client gets it. -/
structure Received where
  header : Bytes
  body : Bytes
  deriving DecidableEq

def Received.text (r : Received) : Bytes := r.header ++ r.body

/-- A client reads a header block up to its blank line, and behind it as many bytes as the block
says, or none if it has asked for no more than the block. -/
def readReply (head : Bool) (stream : Bytes) : Option (Received × Bytes) :=
  match find crlfcrlf stream with
  | none => none
  | some k =>
    let header := stream.take (k + 4)
    let rest := stream.drop (k + 4)
    let n := if head then 0 else Connection.statedLength header
    if n ≤ rest.length then some (⟨header, rest.take n⟩, rest.drop n) else none

theorem readReply_of_find {block rest : Bytes} {k : Nat} (h : find crlfcrlf (block ++ rest) = some k)
    (hk : k + 4 = block.length) (head : Bool) : readReply head (block ++ rest) =
      if (if head then 0 else Connection.statedLength block) ≤ rest.length then
        some (⟨block, rest.take (if head then 0 else Connection.statedLength block)⟩,
          rest.drop (if head then 0 else Connection.statedLength block))
      else none := by
  unfold readReply
  rw [h]
  dsimp only
  rw [hk, List.take_left, List.drop_left]

/-- A header block with its only blank line at its end, and a body as long as the block says, are
read back from the front of a stream. -/
theorem delimits_reply {head : Bool} {block body : Bytes}
    (hends : ∀ k, crlfcrlf <+: block.drop k ↔ k + 4 = block.length) (hfour : 4 ≤ block.length)
    (hbody : (if head then 0 else Connection.statedLength block) = body.length) :
    Delimits readReply head (block ++ body) ⟨block, body⟩ := by
  have hfind : find crlfcrlf block = some (block.length - 4) := by
    refine find_eq_some_iff.2 ⟨Nat.sub_le _ _, (hends _).2 (Nat.sub_add_cancel hfour), ?_⟩
    intro j hj hpre
    have hlast := (hends j).1 hpre
    omega
  have hread (rest : Bytes) := readReply_of_find (find_append_left hfind rest)
    (Nat.sub_add_cancel hfour) head
  rw [hbody] at hread
  constructor
  · intro rest
    rw [List.append_assoc, hread, if_pos, List.take_left, List.drop_left]
    rw [List.length_append]
    exact Nat.le_add_right _ _
  · intro part hpart hne
    rcases List.prefix_or_prefix_of_prefix hpart (List.prefix_append block body) with h | h
    · by_cases heq : part = block
      · subst heq
        have hshort := hread []
        rw [List.append_nil] at hshort
        rw [hshort, if_neg]
        intro hle
        rw [List.eq_nil_of_length_eq_zero (Nat.le_zero.1 hle), List.append_nil] at hne
        exact hne rfl
      · have hnone : find crlfcrlf part = none := by
          cases hp : find crlfcrlf part with
          | none => rfl
          | some k =>
            obtain ⟨rest, rfl⟩ := h
            have hk := (find_append_left hp rest).symm.trans hfind
            have hle := find_le_length hp
            have hfourk : crlfcrlf.length = 4 := rfl
            have hrest : 0 < rest.length := by
              apply List.length_pos_of_ne_nil
              rintro rfl
              exact heq (List.append_nil _).symm
            rw [Option.some.injEq, List.length_append] at hk
            rw [List.length_append] at hfour
            omega
        unfold readReply
        rw [hnone]
    · obtain ⟨rest, rfl⟩ := h
      rw [List.prefix_append_right_inj] at hpart
      rw [hread, if_neg]
      intro hle
      exact hne (congrArg (block ++ ·) (hpart.eq_of_length_le hle))

namespace HttpResponse
variable {r : HttpResponse}

theorem four_le_buildHeaders (r : HttpResponse) (time : Int) :
    4 ≤ (r.buildHeaders time).length := by
  rw [buildHeaders_eq, unlines_block (List.cons_ne_nil _ _), List.length_append]
  exact Nat.le_add_left _ _

/-- A header block says how long its body is, unless it is that of a 304. -/
theorem Clean.stated (h : r.Clean) (time : Int) (hnot : ∀ f ∈ r.headers, f.1 ≠ bytes "Content-Length")
    (hstatus : r.status ≠ .notModified) (hlen : r.hasContentLength = true) {n : Nat}
    (hn : decimal r.contentLength = decimalInt n) :
    Connection.statedLength (r.buildHeaders time) = n := by
  unfold Connection.statedLength
  rw [contentLength_buildHeaders h time hnot, if_pos ⟨hstatus, hlen⟩, hn]
  dsimp only
  rw [Connection.number_decimalInt (Int.natCast_nonneg n), Int.toNat_natCast]

theorem Clean.unstated (h : r.Clean) (time : Int)
    (hnot : ∀ f ∈ r.headers, f.1 ≠ bytes "Content-Length") (hstatus : r.status = .notModified) :
    Connection.statedLength (r.buildHeaders time) = 0 := by
  unfold Connection.statedLength
  rw [contentLength_buildHeaders h time hnot, if_neg fun h => h.1 hstatus]

end HttpResponse

namespace Connection
variable {c d e p : Connection} {r : Outcome} {io : Io} {file : Bytes} {tls : Bool}
  {server : FileServer} {status : Status} {note : Bytes}

/-- What a client gets of a response that is sent in full. -/
def wholeReply (file : Bytes) (p : Connection) : Received :=
  ⟨p.headerBuf, if p.isHead then [] else p.content file⟩

theorem Unsent.wholeReply (h : Unsent p) (file : Bytes) :
    p.headerBuf ++ (if p.bodiless then [] else p.bodyRest file) = (p.wholeReply file).text := by
  have hbody : (if p.bodiless then [] else p.bodyRest file) = (p.wholeReply file).body := by
    cases hh : p.isHead with
    | true =>
      have hb : p.bodiless = true := by rw [bodiless, hh, Bool.true_or]
      rw [if_pos hb, Connection.wholeReply, hh]
      rfl
    | false =>
      rw [Connection.wholeReply, hh]
      cases hb : p.bodiless with
      | true => exact (content_bodiless hb hh).symm
      | false => exact h.bodyRest hb
  rw [hbody]
  rfl

theorem content_memory (file : Bytes) (h : p.fileFd < 0) : p.content file = p.response.body := by
  unfold content
  split
  · rfl
  · next hb =>
    have hempty : p.response.body = [] := by simpa [HttpResponse.hasBody] using hb
    rw [if_neg (Int.not_le.2 h), hempty]

/-- The file that is opened for a request has as many bytes as its size says, and the numbers of
the answer are in the ranges of their types. -/
structure Fits (io : Io) (server : FileServer) (p : Connection) : Prop where
  file : ∀ info, server.openPath io.sys p.request.path = .ok info → info.size = io.file.length
  fileSize : io.file.length < 2 ^ 63
  bodySize : p.response.body.length < 2 ^ 64
  range : HttpRequest.NumbersFit (p.request.header (bytes "range"))

theorem prepareResponse_request (io : Io) (server : FileServer) (d : Connection) :
    (d.prepareResponse io server).1.request = d.request := by
  obtain ⟨_, _, hbuilt⟩ := prepareResponse_built io server d
  exact hbuilt.request

theorem prepareResponse_isHead (io : Io) (server : FileServer) (d : Connection) :
    (d.prepareResponse io server).1.isHead = (d.request.method == .head) := by
  obtain ⟨_, _, hbuilt⟩ := prepareResponse_built io server d
  exact hbuilt.isHead

/-- The answer to a GET says how long its body is. -/
theorem answer_stated (hd : Cleared d) (hm : d.request.method = .get)
    (hfit : Fits io server (d.prepareResponse io server).1) :
    statedLength (d.prepareResponse io server).1.headerBuf =
      ((d.prepareResponse io server).1.content io.file).length := by
  obtain ⟨hfile, hsize, hbody, hrange⟩ := hfit
  rw [prepareResponse_request] at hfile hrange
  have hclean := (prepareResponse_plain io server d).clean
  have hheader := prepareResponse_header io server d
  cases hopen : server.openPath io.sys d.request.path with
  | error err =>
    obtain ⟨status, body, hstatus, hp⟩ := prepareResponse_refused (.inl hm) hopen
    have hfd : (d.prepareResponse io server).1.fileFd < 0 := by
      rw [hp]
      exact hd.file
    rw [content_memory io.file hfd, hheader]
    rw [hp] at hbody hclean ⊢
    apply hclean.stated io.time
    · exact fun f hf => absurd hf List.not_mem_nil
    · exact hstatus.1
    · rfl
    · exact decimal_contentLength (Int.natCast_nonneg _) (by exact_mod_cast hbody)
  | ok info =>
    cases hfresh : d.blank.isFresh io info with
    | true =>
      have hp := prepareResponse_opened (.inl hm) hopen
      rw [prepareFile_fresh hfresh] at hp
      have hfd : (d.prepareResponse io server).1.fileFd < 0 := by
        rw [hp]
        exact hd.file
      rw [content_memory io.file hfd, hheader]
      rw [hp] at hclean ⊢
      apply hclean.unstated io.time
      · exact fun f hf => absurd hf List.not_mem_nil
      · rfl
    | false =>
      have hgets : Attempt.Gets io.file ⟨io, server, d, []⟩ := {
        method := hm
        chunk := hd.chunk
        opens := ⟨info, hopen, hfile info hopen, hfresh⟩
        fits := hrange
        unchanged := fun io hio => absurd hio List.not_mem_nil }
      obtain ⟨start, len, hwithin, hfd, _, hoffset, hremaining, _, hstated⟩ := hgets.promised hsize
      have hnone : (d.prepareResponse io server).1.response.hasBody = false := by
        rw [prepareResponse_opened (.inl hm) hopen, HttpResponse.hasBody, prepareFile_body]
        rfl
      change statedLength (d.prepareResponse io server).1.headerBuf = len at hstated
      change (d.prepareResponse io server).1.sendOffset = start at hoffset
      change (d.prepareResponse io server).1.sendRemaining = len at hremaining
      change 0 ≤ (d.prepareResponse io server).1.fileFd at hfd
      rw [hstated, content, hnone, if_neg Bool.false_ne_true, if_pos hfd, hoffset, hremaining, slice,
        List.length_take, List.length_drop]
      omega

theorem answer_delimits (hd : Cleared d) (hm : d.request.method = .get ∨ d.request.method = .head)
    (hfit : Fits io server (d.prepareResponse io server).1) :
    Delimits readReply (d.prepareResponse io server).1.isHead
      ((d.prepareResponse io server).1.wholeReply io.file).text
      ((d.prepareResponse io server).1.wholeReply io.file) := by
  unfold wholeReply
  rw [prepareResponse_isHead]
  apply delimits_reply (prepareResponse_headerBlock io server d).ends
  · rw [prepareResponse_header]
    exact HttpResponse.four_le_buildHeaders _ _
  · rcases hm with hm | hm
    · rw [hm]
      exact answer_stated hd hm hfit
    · rw [hm]
      rfl

/-- The error pages of `Connection` say how long they are. -/
theorem refusal_delimits (he : Cleared e) (hmem : (status, note) ∈ refusals) (time : Int)
    (file : Bytes) : Delimits readReply (e.prepareError status note time).isHead
      ((e.prepareError status note time).wholeReply file).text
      ((e.prepareError status note time).wholeReply file) := by
  have hknown : status ≠ .notModified ∧ (HttpResponse.errorBody status ++ note).length < 2 ^ 64 := by
    revert hmem
    simp only [refusals, List.mem_cons, List.not_mem_nil, or_false, Prod.mk.injEq]
    rintro (⟨rfl, rfl⟩ | ⟨rfl, rfl⟩ | ⟨rfl, rfl⟩)
    · decide
    · decide
    · decide
  have hclean := (prepareError_plain status note time he.headers).clean
  have hhead : (e.prepareError status note time).isHead = false := he.get
  unfold wholeReply
  rw [hhead, if_neg Bool.false_ne_true]
  apply delimits_reply (prepareError_headerBlock status note time he.headers).ends
  · exact HttpResponse.four_le_buildHeaders _ _
  · rw [if_neg Bool.false_ne_true]
    have hcontent : (e.prepareError status note time).content file =
        HttpResponse.errorBody status ++ note := content_memory file he.file
    rw [hcontent]
    apply hclean.stated time
    · intro f hf
      have hnil : f ∈ ([] : List (Bytes × Bytes)) := he.headers ▸ hf
      exact absurd hnil List.not_mem_nil
    · exact hknown.1
    · rfl
    · exact decimal_contentLength (Int.natCast_nonneg _) (by exact_mod_cast hknown.2)

theorem Cleared.unsent (hd : Cleared d) (io : Io) (server : FileServer) :
    Unsent (d.prepareResponse io server).1 :=
  prepareResponse_unsent io server hd.file hd.body hd.chunk

theorem Cleared.refusal_unsent (he : Cleared e) (status : Status) (note : Bytes) (time : Int) :
    Unsent (e.prepareError status note time) :=
  ⟨rfl, he.body, he.chunk, fun _ => he.file⟩

/-- An answer whose header block is taken whole is followed by its body. -/
theorem answer_pours (hd : Cleared d) (hall : (d.prepareResponse io server).1.transmitsAll
      io.headerWrite io.headerSslWrite (d.prepareResponse io server).1.headerBuf) :
    Pours io.file ((d.prepareResponse io server).1.wholeReply io.file).text
        ((d.prepareResponse io server).1.doSendHeaders io) ∧
      ((d.prepareResponse io server).1.doSendHeaders io).conn.state ≠ .parsing := by
  have hun := hd.unsent io server
  rw [← hun.wholeReply io.file]
  generalize (d.prepareResponse io server).1 = p at hall hun
  obtain ⟨as, _, hwire, hsend⟩ := doSendHeaders_all hun.header hall
  have hpours := headersSent_pours (rfl : io.file = io.file)
    { p with headerSent := p.headerSent + p.headerBuf.length }
  have hresumes := headersSent_resumes (rfl : io.file = io.file)
    { p with headerSent := p.headerSent + p.headerBuf.length }
  have hafter := hpours.after as
  rw [hwire] at hafter
  rw [hsend]
  refine ⟨hafter, ?_⟩
  rw [Outcome.after_conn]
  rcases hresumes with h | ⟨h, _⟩ | ⟨h, _⟩
  · exact fun he => State.noConfusion (h.symm.trans he)
  · exact fun he => State.noConfusion (h.symm.trans he)
  · exact fun he => State.noConfusion (h.symm.trans he)

end Connection

open Connection

/-- A connection with what its client is to get and what it has got: the replies, each with whether
it is a header block only, and the bytes sent. `file` is what the file being sent has. -/
structure Conversation where
  conn : Connection
  file : Bytes := []
  replies : List (Bool × Received) := []
  sent : Bytes := []

namespace Conversation
variable {x : Conversation} {tls : Bool} {server : FileServer} {timeout : Int} {io : Io}

/-- The replies as they are to be sent. -/
def texts (x : Conversation) : List Bytes := x.replies.map fun r => r.2.text

def visit (tls : Bool) (server : FileServer) (timeout : Int) (x : Conversation) (v : Visit) :
    Conversation :=
  let r := x.conn.visit tls server timeout v
  let next := { x with conn := r.conn, sent := x.sent ++ wire r.actions }
  match v with
  | .process io =>
    match x.conn.reply io tls server with
    | some p => { next with
        file := io.file
        replies := x.replies ++ [(p.isHead, p.wholeReply io.file)] }
    | none => next
  | _ => next

/-- A file stays as it is while it is sent, and the header block of an answer, which is built in
`PARSING`, is taken whole in the call that builds it. -/
def Undisturbed (tls : Bool) (server : FileServer) (x : Conversation) : Visit → Prop
  | .process io => (x.conn.Sending → io.file = x.file) ∧
      ∀ p, x.conn.reply io tls server = some p → p.state = .parsing →
        p.transmitsAll io.headerWrite io.headerSslWrite p.headerBuf ∧ Fits io server p
  | _ => True

/-- What holds between two visits. -/
structure Sound (x : Conversation) : Prop where
  pristine : Early Pristine x.conn
  ignores : Ignores x.conn
  delimited : ∀ r ∈ x.replies, Delimits readReply r.1 r.2.text r.2
  sent : x.sent <+: x.texts.flatten
  last : (x.replies.dropLast.map fun r => r.2.text).flatten <+: x.sent
  rest : x.conn.state ≠ .closed → x.sent ++ x.conn.replyRest x.file = x.texts.flatten

theorem Sound.idle (h : x.Sound) (hc : x.conn.state ≠ .closed) (hs : ¬ x.conn.Sending) :
    x.sent = x.texts.flatten := by
  have hrest := h.rest hc
  rw [replyRest_idle hs, List.append_nil] at hrest
  exact hrest

/-- Nothing happens to a connection that has been closed. -/
theorem closed_visit (hc : x.conn.state = .closed) (v : Visit) :
    x.visit tls server timeout v = x := by
  have hstill : ({ x with sent := x.sent ++ wire [] } : Conversation) = x := by
    rw [wire_nil, List.append_nil]
  cases v with
  | process io =>
    have hact : x.conn.stateAction io tls = ⟨x.conn, .none, []⟩ := by rw [stateAction, hc]
    have hfirst : x.conn.firstHalf io tls = ⟨x.conn, .none, []⟩ := by
      rw [firstHalf, hact]
      exact if_neg fun h => State.noConfusion (hc.symm.trans h.1)
    have hidle := replyIn_idle io server (r := ⟨x.conn, .none, []⟩)
      (fun h => State.noConfusion (hc.symm.trans h))
      fun h => (State.noConfusion (hc.symm.trans h))
    have hreply : x.conn.reply io tls server = none := by
      rw [reply, hfirst, hidle.2]
      rfl
    have hadv : x.conn.advance io tls server = ⟨x.conn, .none, []⟩ := by
      rw [advance, hfirst, hidle.1]
    unfold visit
    dsimp only [Connection.visit]
    rw [hreply, hadv]
    exact hstill
  | sweep now =>
    unfold visit
    dsimp only [Connection.visit]
    rw [if_neg fun h => State.noConfusion (hc.symm.trans h.1)]
    exact hstill
  | destroy =>
    have hclose : x.conn.close = x.conn := by rw [close, if_pos hc]
    have hquiet : x.conn.closeActions = [] := by rw [closeActions, if_pos hc]
    unfold visit
    dsimp only [Connection.visit, hangUp]
    rw [hclose, hquiet]
    exact hstill

/-- A visit in which nothing is sent and no response is built. -/
theorem Sound.silent (h : x.Sound) {r : Outcome} (hw : wire r.actions = [])
    (hu : Early Pristine r.conn) (hi : Ignores r.conn) (hs : ¬ x.conn.Sending)
    (hr : r.conn.state ≠ .closed → x.conn.state ≠ .closed ∧ ¬ r.conn.Sending) :
    Sound { x with conn := r.conn, sent := x.sent ++ wire r.actions } := by
  rw [hw, List.append_nil]
  refine ⟨hu, hi, h.delimited, h.sent, h.last, fun hne => ?_⟩
  obtain ⟨hlive, hidle⟩ := hr hne
  rw [replyRest_idle hidle, List.append_nil]
  exact h.idle hlive hs

/-- A visit that goes on with the response that is being sent. -/
theorem Sound.pours (h : x.Sound) {r : Outcome} (hu : Early Pristine r.conn)
    (hi : Ignores r.conn) (hlive : x.conn.state ≠ .closed)
    (hp : Pours x.file (x.conn.replyRest x.file) r) :
    Sound { x with conn := r.conn, sent := x.sent ++ wire r.actions } := by
  have hrest := h.rest hlive
  constructor
  · exact hu
  · exact hi
  · exact h.delimited
  · change x.sent ++ wire r.actions <+: x.texts.flatten
    rw [← hrest]
    exact (List.prefix_append_right_inj _).2 hp.sent
  · exact h.last.trans (List.prefix_append _ _)
  · intro hne
    change x.sent ++ wire r.actions ++ r.conn.replyRest x.file = x.texts.flatten
    rw [List.append_assoc, hp.left hne, hrest]

/-- A visit that builds a response, after the ones before have been sent. -/
theorem Sound.replies (h : x.Sound) {r : Outcome} {file : Bytes} {head : Bool} {reply : Received}
    (hu : Early Pristine r.conn) (hi : Ignores r.conn) (hlive : x.conn.state ≠ .closed)
    (hs : ¬ x.conn.Sending) (hd : Delimits readReply head reply.text reply)
    (hp : Pours file reply.text r) :
    Sound ⟨r.conn, file, x.replies ++ [(head, reply)], x.sent ++ wire r.actions⟩ := by
  have hall := h.idle hlive hs
  have htexts : ((x.replies ++ [(head, reply)]).map fun r => r.2.text).flatten =
      x.sent ++ reply.text := by
    rw [List.map_append, List.flatten_append, hall]
    exact congrArg (_ ++ ·) (List.append_nil _)
  constructor
  · exact hu
  · exact hi
  · intro y hy
    rcases List.mem_append.1 hy with hy | hy
    · exact h.delimited y hy
    · rw [List.mem_singleton.1 hy]
      exact hd
  · change _ <+: ((x.replies ++ [(head, reply)]).map fun r => r.2.text).flatten
    rw [htexts]
    exact (List.prefix_append_right_inj _).2 hp.sent
  · change ((x.replies ++ [(head, reply)]).dropLast.map fun r => r.2.text).flatten <+: _
    rw [List.dropLast_concat]
    change x.texts.flatten <+: _
    rw [← hall]
    exact List.prefix_append _ _
  · intro hne
    change x.sent ++ wire r.actions ++ r.conn.replyRest file = _
    rw [List.append_assoc, hp.left hne]
    exact htexts.symm

/-- The end of a connection outside a call. -/
theorem Sound.ends (h : x.Sound) :
    Sound { x with conn := (x.conn.hangUp []).conn,
                   sent := x.sent ++ wire (x.conn.hangUp []).actions } := by
  have hclosed : (x.conn.hangUp []).conn.state = .closed := close_state x.conn
  rw [hangUp_wire, wire_nil, List.append_nil]
  refine ⟨early_of_late (by rw [hclosed]; rfl), .of_ne ?_, h.delimited, h.sent, h.last,
    fun hne => absurd hclosed hne⟩
  rw [hclosed]
  exact State.noConfusion

theorem advance_pristine {c : Connection} (io : Io) (tls : Bool) (server : FileServer)
    (h : Early Pristine c) (hc : c.state ≠ .closed) :
    Early Pristine (c.advance io tls server).conn := by
  by_cases hf : stateFails io c
  · have hclosed := advance_closed io tls server ((stateAction_ends io tls hc).closed_iff.2 hf)
    exact early_of_late (by rw [hclosed]; rfl)
  · exact pristine_invariant.step c io tls server hc hf h

theorem Sound.process (h : x.Sound) (hg : x.Undisturbed tls server (.process io))
    (hc : x.conn.state ≠ .closed) : (x.visit tls server timeout (.process io)).Sound := by
  have hu := advance_pristine io tls server h.pristine hc
  by_cases hs : x.conn.Sending
  · have hreply := reply_sending io tls server hs
    have hset := stateAction_settled io tls hs
    have hadv := (advance_sending io tls server hs).1
    have hi : Ignores (x.conn.advance io tls server).conn := by
      rw [hadv]
      exact .of_ne hset.2.1
    unfold visit
    dsimp only [Connection.visit]
    rw [hreply]
    exact h.pours hu hi hc (advance_pours (hg.1 hs) hs)
  · have hturns := advance_turns io tls server h.pristine h.ignores hs
    have hbuilt := hg.2
    unfold visit
    dsimp only [Connection.visit]
    generalize x.conn.reply io tls server = reply at hturns hbuilt
    generalize x.conn.advance io tls server = r at hturns hu
    cases hturns with
    | waits hw hidle hi => exact h.silent hw hu hi hs fun _ => ⟨hc, hidle⟩
    | @refuses e status note _ he hmem hw hr =>
      have hsend : r.conn.state = .sendingHeaders := by rw [hr]; rfl
      have hun := he.refusal_unsent status note io.time
      have htext := hun.wholeReply io.file
      have hd := refusal_delimits he hmem io.time io.file
      rw [← hr] at htext hd hun
      apply h.replies hu (.of_ne (hsend ▸ State.noConfusion)) hc hs hd
      apply Pours.of_left
      rw [hw, replyRest_header _ hsend, headerRest_unsent hun.header]
      exact htext
    | @answers d as hd hstate hm hw =>
      have hp := (prepareResponse_prepared io server d).state.trans hstate
      obtain ⟨hall, hfits⟩ := hbuilt _ rfl hp
      obtain ⟨hpours, hi⟩ := answer_pours hd hall
      have hafter := hpours.after as
      rw [hw] at hafter
      exact h.replies hu (.of_ne hi) hc hs (answer_delimits hd hm hfits) hafter

theorem Sound.visit (h : x.Sound) {v : Visit} (hg : x.Undisturbed tls server v) :
    (x.visit tls server timeout v).Sound := by
  by_cases hc : x.conn.state = .closed
  · rw [closed_visit hc]
    exact h
  cases v with
  | process io => exact h.process hg hc
  | destroy => exact h.ends
  | sweep now =>
    unfold Conversation.visit
    dsimp only [Connection.visit]
    split
    · exact h.ends
    · rw [wire_nil, List.append_nil]
      exact h

/-- A connection that has just been created. -/
theorem sound_init (c : Connection) (fd : Int) (root : Bytes) (timeout now : Int) (tls : Bool) :
    Sound { conn := { c.init fd root timeout now with tlsAvailable := tls } } := by
  refine ⟨pristine_invariant.init c fd root timeout now tls, .of_ne State.noConfusion,
    fun r hr => absurd hr List.not_mem_nil, List.nil_prefix, List.nil_prefix, fun _ => ?_⟩
  have hrest : replyRest [] { c.init fd root timeout now with tlsAvailable := tls } = [] :=
    replyRest_idle fun h => h.elim State.noConfusion State.noConfusion
  exact hrest

theorem foldl_visit (x : Conversation) (vs : List Visit) :
    (vs.foldl (visit tls server timeout) x).sent =
      x.sent ++ (x.conn.history tls server timeout vs).flatMap Seen.sent := by
  induction vs generalizing x with
  | nil => exact (List.append_nil _).symm
  | cons v vs ih =>
    have hnext : (x.visit tls server timeout v).conn = (x.conn.visit tls server timeout v).conn ∧
        (x.visit tls server timeout v).sent =
          x.sent ++ wire (x.conn.visit tls server timeout v).actions := by
      unfold visit
      dsimp only
      split
      · split <;> exact ⟨rfl, rfl⟩
      · exact ⟨rfl, rfl⟩
    rw [List.foldl_cons, ih, hnext.1, hnext.2, history_cons, List.flatMap_cons, List.append_assoc]

/-- What a client makes of the bytes that it has got, when it knows to which of its requests it
gets a header block only. -/
def understood (x : Conversation) : List Received :=
  readAll readReply (x.replies.map Prod.fst) x.sent

/-- A client has read all replies but for the last one, which may be on its way. -/
theorem Sound.understood (h : x.Sound) : (∃ n, x.replies.length ≤ n + 1 ∧
      x.understood = (x.replies.take n).map Prod.snd) ∧
    (x.conn.state = .keepAlive → x.understood = x.replies.map Prod.snd) := by
  constructor
  · exact readAll_cut h.delimited h.sent h.last
  · intro hk
    have hall := h.idle (hk ▸ State.noConfusion) fun hs =>
      hs.elim (fun hs => State.noConfusion (hk.symm.trans hs))
        fun hs => State.noConfusion (hk.symm.trans hs)
    unfold Conversation.understood
    rw [hall]
    exact readAll_flatten h.delimited

end Conversation

namespace EventLoop
open Connection
variable {s s' : EventLoop} {i : Nat} {vs : List Visit} {l : List Seen}

/-- The conversation with the client of slot `i`, from here on. -/
def converse (s : EventLoop) (i : Nat) (vs : List Visit) : Conversation :=
  vs.foldl (Conversation.visit s.tlsCtx s.fileServer s.keepAliveTimeout) { conn := s.conn i }

/-- A client that has just connected. -/
def newClient : EventLoop := ((create ⟨bytes "/srv"⟩ 75 false).createConnection 5 0).1

/-- It asks for a file of ten bytes, of which four are taken in the call that answers it. -/
def asksForFile : List Visit :=
  [.process { peek := .done (some 0x47) },
    .process { read := .done (bytes "GET /a.txt HTTP/1.1\r\nHost: a\r\n\r\n"), sys := tenBytes,
               headerWrite := .done 4096, sendfile := .again 4, file := bytes "abcdefghij" },
    .process { sendfile := .done, file := bytes "abcdefghij" }]

end EventLoop

end FileWebServer
