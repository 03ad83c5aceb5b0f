import FileWebServer.Core.HalfClose
import FileWebServer.Core.Transport
import FileWebServer.Lib.Records

namespace FileWebServer
open Search Records
set_option autoImplicit true

/-- `SSL_read` with room for 4096 bytes, on an SSL object and the socket below it. -/
def sslRead (stream : Stream UInt8) : SslResult Bytes :=
  if (stream.read 4096).1 = [] then .wantRead else .done (stream.read 4096).1

namespace Connection
variable {c d : Connection} {io : Io} {tls : Bool} {data : Bytes}

/-- With these bytes the head of the request is complete, or longer than it may be. -/
def EndsReading (data : Bytes) : Prop := (find crlfcrlf data).isSome ∨ 65536 < data.length

theorem received_want (c : Connection) (data : Bytes) (as : List Action) :
    (c.received data as).want = .read ↔ ¬ EndsReading (c.readBuf ++ data) := by
  unfold EndsReading
  cases hf : find crlfcrlf (c.readBuf ++ data) with
  | some i =>
    rw [received_complete (by simp [hf])]
    exact iff_of_false Want.noConfusion (by simp)
  | none =>
    rw [received_incomplete hf]
    split
    · next hl => exact iff_of_false Want.noConfusion fun hn => hn (.inr hl)
    · next hl => exact iff_of_true rfl fun he => he.elim (fun hs => by cases hs) hl

/-- What `do_read` asks for is up to the bytes that it has so far. -/
theorem stateAction_want (tls : Bool) (hr : c.Reads) (hs : c.ssl ≠ none) (hne : data ≠ [])
    (hlen : data.length ≤ 4096) (hio : io.sslRead = .done data) :
    (c.stateAction io tls).want = .read ↔ ¬ EndsReading (c.begun ++ data) := by
  have hread {d : Connection} (hd : d.ssl = c.ssl) :
      (d.doRead io).want = .read ↔ ¬ EndsReading (d.readBuf ++ data) := by
    have htls : d.isTls = true := by
      rw [isTls, hd]
      exact Option.isSome_iff_ne_none.2 hs
    obtain ⟨as, _, hdr⟩ := doRead_data d hne (by rw [if_pos htls]; exact hio)
    rw [hdr, List.take_of_length_le hlen]
    exact received_want (d.touch io.now) data as
  unfold stateAction
  rcases hr with hr | hr
  · rw [hr, begun, if_pos hr]
    exact hread rfl
  · rw [hr, begun, if_neg (by rw [hr]; exact State.noConfusion)]
    exact hread rfl

end Connection

open Connection

/-- A connection over TLS with what its SSL object and its socket hold, and the `Want` of its last
`do_read`. -/
structure Session where
  conn : Connection
  stream : Stream UInt8
  want : Want

namespace Session
variable {s : Session} {tls : Bool} {server : FileServer}

/-- A record arrives in the socket, or an event is handled for the connection. -/
inductive Input where
  | arrives (record : Bytes)
  | event (io : Io)

/-- The answers that an event meets, with those of the SSL object. -/
def answers (s : Session) (io : Io) : Io := { io with sslRead := sslRead s.stream }

def step (tls : Bool) (server : FileServer) (s : Session) : Input → Session
  | .arrives record => { s with stream := s.stream.arrive record }
  | .event io =>
    let conn := (s.conn.advance (s.answers io) tls server).conn
    if s.conn.Reads then
      ⟨conn, (s.stream.read 4096).2, (s.conn.stateAction (s.answers io) tls).want⟩
    else { s with conn := conn }

/-- A connection that waits for more bytes to arrive has taken all bytes that its SSL object had. -/
def Awake (s : Session) : Prop := s.want = .read → s.stream.held = []

/-- A `do_read` meets a record, or the rest of one, that one read takes whole, or whose first 4096
bytes end the reading. -/
def TakesWhole (s : Session) : Input → Prop
  | .arrives _ => True
  | .event _ =>
    s.conn.Reads → s.stream.opened.held.length ≤ 4096 ∨
      EndsReading (s.conn.begun ++ s.stream.opened.held.take 4096)

theorem event_awake_iff (io : Io) (hs : s.conn.ssl ≠ none) (hr : s.conn.Reads) :
    (s.step tls server (.event io)).Awake ↔ s.TakesWhole (.event io) := by
  have hstep : s.step tls server (.event io) =
      ⟨(s.conn.advance (s.answers io) tls server).conn, (s.stream.read 4096).2,
        (s.conn.stateAction (s.answers io) tls).want⟩ := if_pos hr
  rw [hstep]
  unfold Awake TakesWhole
  dsimp only
  rw [Stream.held_read_eq_nil, forall_prop_of_true hr]
  by_cases hnil : (s.stream.read 4096).1 = []
  · have hlen : s.stream.opened.held.length ≤ 4096 := by
      rw [(Stream.read_eq_nil (by decide)).1 hnil]
      exact Nat.zero_le _
    exact iff_of_true (fun _ => hlen) (.inl hlen)
  · have hio : (s.answers io).sslRead = .done (s.stream.read 4096).1 := if_neg hnil
    rw [stateAction_want tls hr hs hnil (Stream.read_length_le ..) hio, or_comm]
    exact Classical.or_iff_not_imp_left.symm

/-- An event that does not read moves nothing. -/
theorem event_quiet (io : Io) (hr : ¬ s.conn.Reads) :
    s.step tls server (.event io) =
      { s with conn := (s.conn.advance (s.answers io) tls server).conn } := if_neg hr

theorem step_conn (h : s.conn.ssl ≠ none ∨ s.conn.state = .closed) (input : Input) :
    (s.step tls server input).conn.ssl ≠ none ∨
      (s.step tls server input).conn.state = .closed := by
  cases input with
  | arrives record => exact h
  | event io =>
    have hconn : (s.step tls server (.event io)).conn =
        (s.conn.advance (s.answers io) tls server).conn := by
      unfold step
      dsimp only
      split <;> rfl
    rw [hconn]
    rcases h with hs | hc
    · rcases (advance_keepsLine_of_ssl (s.answers io) tls server hs).ssl with he | he
      · rw [he]
        exact .inl hs
      · exact .inr he
    · have hact : s.conn.stateAction (s.answers io) tls = ⟨s.conn, .none, []⟩ := by
        rw [stateAction, hc]
      rw [advance_settled, hact]
      · exact .inr hc
      · rw [hact]
        simp [Settled, hc]

theorem reads_ssl (hr : s.conn.Reads) (h : s.conn.ssl ≠ none ∨ s.conn.state = .closed) :
    s.conn.ssl ≠ none := by
  apply h.resolve_right
  intro hc
  rcases hr with hr | hr
  · rw [hr] at hc
    cases hc
  · rw [hr] at hc
    cases hc

theorem step_awake_iff (h : s.Awake) (hlive : s.conn.ssl ≠ none ∨ s.conn.state = .closed)
    (input : Input) : (s.step tls server input).Awake ↔ s.TakesWhole input := by
  cases input with
  | arrives record => exact iff_of_true h trivial
  | event io =>
    by_cases hr : s.conn.Reads
    · exact event_awake_iff io (reads_ssl hr hlive) hr
    · rw [event_quiet io hr]
      exact iff_of_true h fun hn => (hr hn).elim

/-- A connection over TLS never waits for bytes that its SSL object already has exactly if every
record that it meets is taken whole by one read, or ends the reading before. -/
theorem never_sleeps_iff (tls : Bool) (server : FileServer) {conn : Connection}
    (hs : conn.ssl ≠ none) (stream : Stream UInt8) (inputs : List Input) :
    Run.Throughout (step tls server) Awake ⟨conn, stream, .none⟩ inputs ↔
      Run.Along (step tls server) TakesWhole ⟨conn, stream, .none⟩ inputs := by
  apply Run.throughout_iff_along
    fun s => s.Awake ∧ (s.conn.ssl ≠ none ∨ s.conn.state = .closed)
  · exact fun s h => h.1
  · exact fun s input h hg => ⟨(step_awake_iff h.1 h.2 input).2 hg, step_conn h.2 input⟩
  · exact fun s input h hg ha => hg ((step_awake_iff h.1 h.2 input).1 ha)
  · exact ⟨fun hw => (Want.noConfusion hw), .inl hs⟩

/-- A client that has shaken hands. -/
def shaken : Connection :=
  ((EventLoop.round [(⟨false, false, .listener⟩, { accepts := [(5, 0)] })] ++
    EventLoop.round [(⟨false, false, .conn 0⟩,
      { peek := .done (some 0x16), newSsl := some 100, sslAcceptInline := .done () })]).foldl
    EventLoop.step (.create ⟨bytes "/srv"⟩ 75 true)).conn 0

theorem never_sleeps_iff_halves :
    Run.Throughout (step true ⟨bytes "/srv"⟩) Awake ⟨shaken, ⟨[], []⟩, .none⟩
        [.arrives (bytes "GET / HT"), .event {}, .arrives (bytes "TP/1.1\r\n\r\n"), .event {}] ↔
      Run.Along (step true ⟨bytes "/srv"⟩) TakesWhole ⟨shaken, ⟨[], []⟩, .none⟩
        [.arrives (bytes "GET / HT"), .event {}, .arrives (bytes "TP/1.1\r\n\r\n"), .event {}] :=
  never_sleeps_iff true ⟨bytes "/srv"⟩ (by decide) ⟨[], []⟩ _

/-- A request with a long path, in one record. -/
def longRequest : Bytes := bytes "GET /" ++ List.replicate 5000 97 ++ bytes " HTTP/1.1\r\n\r\n"

/-- The record is in the SSL object, none of it is left in the socket, and the connection waits for
the socket to become readable. -/
theorem long_request_sleeps :
    ¬ Run.Throughout (step true ⟨bytes "/srv"⟩) Awake ⟨shaken, ⟨[], []⟩, .none⟩
      [.arrives longRequest, .event {}] := by
  intro h
  have halong := (never_sleeps_iff true ⟨bytes "/srv"⟩ (by decide) ⟨[], []⟩ _).1 h
  have hreads : shaken.Reads := .inl (by decide)
  have hempty : shaken.begun = [] := by decide
  have hpath : (bytes "GET /" ++ List.replicate 5000 97).length = 5005 := by
    rw [List.length_append, List.length_replicate]
    rfl
  have hlong : 4096 < longRequest.length := by
    rw [longRequest, List.length_append, hpath]
    omega
  have htake : longRequest.take 4096 = (bytes "GET /" ++ List.replicate 5000 97).take 4096 := by
    apply List.take_append_of_le_length
    omega
  have hfind : find crlfcrlf (longRequest.take 4096) = none := by
    apply find_none_of_notMem
    rw [htake]
    intro hmem
    rcases List.mem_append.1 (List.mem_of_mem_take hmem) with hm | hm
    · revert hm
      decide
    · cases List.eq_of_mem_replicate hm
  rcases halong.2.1 hreads with hlen | hend | hlarge
  · exact Nat.not_le_of_lt hlong hlen
  · change (find crlfcrlf (shaken.begun ++ longRequest.take 4096)).isSome at hend
    rw [hempty, List.nil_append, hfind] at hend
    cases hend
  · change 65536 < (shaken.begun ++ longRequest.take 4096).length at hlarge
    have hle : (longRequest.take 4096).length ≤ 4096 := List.length_take_le ..
    rw [hempty, List.nil_append] at hlarge
    omega

end Session

end FileWebServer
