import FileWebServer.Core.Histories

namespace FileWebServer
open Search
set_option autoImplicit true

namespace Connection
variable {c d : Connection} {io : Io} {unread : Bytes}

/-- The bytes that the next read takes from the socket. -/
def incoming (io : Io) (c : Connection) : Bytes :=
  match c.ssl with
  | some _ =>
    match io.sslRead with
    | .done data => data.take 4096
    | _ => []
  | none =>
    match io.read with
    | .done data => data.take 4096
    | _ => []

/-- What a connection has read already of the request that it waits for. -/
def begun (c : Connection) : Bytes := if c.state = .reading then c.readBuf else []

/-- The connection waits for a request, and the bytes that lie unread in its socket complete it;
it is valid, and its method is supported. -/
structure Unread (c : Connection) (unread : Bytes) : Prop where
  waits : c.state = .reading ∨ c.state = .keepAlive
  rest : unread ≠ []
  accepted : (HttpRequest.parse (c.begun ++ unread)).1 = true
  supported : (HttpRequest.parse (c.begun ++ unread)).2.method ≠ .unknown

/-- A read takes what is there, up to its 4096 bytes; one over TLS may take less. -/
structure Takes (io : Io) (c : Connection) (unread : Bytes) : Prop where
  some : c.incoming io ≠ []
  front : c.incoming io <+: unread
  plain : c.isTls = false → c.incoming io = unread.take 4096

/-- The next read completes the head of the request. -/
def Completes (io : Io) (c : Connection) : Prop :=
  (find crlfcrlf (c.begun ++ c.incoming io)).isSome

theorem incoming_data (h : c.incoming io ≠ []) :
    ∃ data, data ≠ [] ∧ data.take 4096 = c.incoming io ∧
      if c.isTls then io.sslRead = .done data else io.read = .done data := by
  unfold incoming isTls at *
  cases hs : c.ssl with
  | some ssl =>
    rw [hs] at h
    cases hr : io.sslRead with
    | done data =>
      rw [hr] at h
      exact ⟨data, fun he => h (by rw [he]; rfl), rfl, rfl⟩
    | wantRead => simp [hr] at h
    | wantWrite => simp [hr] at h
    | error => simp [hr] at h
  | none =>
    rw [hs] at h
    cases hr : io.read with
    | done data =>
      rw [hr] at h
      exact ⟨data, fun he => h (by rw [he]; rfl), rfl, rfl⟩
    | again => simp [hr] at h
    | error => simp [hr] at h

/-- A waiting connection reads on from what it has begun. -/
theorem stateAction_reads (tls : Bool) (hw : c.state = .reading ∨ c.state = .keepAlive)
    (h : c.incoming io ≠ []) : ∃ (d : Connection) (as : List Action), work as = [] ∧
      d.readBuf = c.begun ∧ d.state = c.state ∧ (Opens c → d.request.method = .unknown) ∧
      (c.stateAction io tls).conn = (d.received (c.incoming io) as).conn ∧
      work (c.stateAction io tls).actions = work (d.received (c.incoming io) as).actions := by
  obtain ⟨data, hne, htake, hio⟩ := incoming_data h
  unfold stateAction
  rcases hw with hw | hw
  · obtain ⟨as, has, hd⟩ := doRead_data c hne hio
    rw [hw, begun, if_pos hw, ← htake]
    refine ⟨c.touch io.now, as, has, rfl, hw, ?_, congrArg Outcome.conn hd, ?_⟩
    · exact fun ho => (ho (by rw [hw]; rfl)).request
    · exact congrArg (fun r => work r.actions) hd
  · have hio' : if c.reset.isTls then io.sslRead = .done data else io.read = .done data := hio
    obtain ⟨as, has, hd⟩ := doRead_data c.reset hne hio'
    rw [hw, begun, if_neg (by rw [hw]; exact State.noConfusion), ← htake]
    refine ⟨c.reset.touch io.now, as, has, rfl, hw, fun _ => rfl, ?_, ?_⟩
    · dsimp only
      rw [Outcome.after_conn, hd]
    · dsimp only
      rw [Outcome.after_actions, work_append, closeFileActions_work, hd]
      rfl

theorem Completes.readsRequest (h : Completes io c) (tls : Bool)
    (hw : c.state = .reading ∨ c.state = .keepAlive) (hs : c.incoming io ≠ []) :
    ReadsRequest io tls c (c.begun ++ c.incoming io) := by
  obtain ⟨d, as, _, hbuf, _, _, hconn, _⟩ := stateAction_reads tls hw hs
  have hfind : (find crlfcrlf (d.readBuf ++ c.incoming io)).isSome := by
    rw [hbuf]
    exact h
  rw [received_complete hfind, hbuf] at hconn
  exact ⟨hw, by rw [hconn], by rw [hconn]⟩

/-- Without the end of the head there is nothing to work on. -/
theorem work_of_incomplete (tls : Bool) (server : FileServer)
    (hw : c.state = .reading ∨ c.state = .keepAlive) (ho : Opens c) (hs : c.incoming io ≠ [])
    (h : ¬ Completes io c) : work (c.advance io tls server).actions = [] := by
  obtain ⟨d, as, has, hbuf, hstate, hreq, hconn, hwork⟩ := stateAction_reads tls hw hs
  have hfind : find crlfcrlf (d.readBuf ++ c.incoming io) = none := by
    rw [hbuf]
    exact Option.not_isSome_iff_eq_none.1 h
  have hmethod := hreq ho
  rw [received_incomplete hfind] at hconn hwork
  have hrest : (c.stateAction io tls).conn.state = .closed ∨
      (c.stateAction io tls).conn.state = c.state ∧
        (c.stateAction io tls).conn.request.method = .unknown := by
    rw [hconn]
    split
    · exact .inl (close_state _)
    · exact .inr ⟨hstate, hmethod⟩
  have hquiet : work (c.stateAction io tls).actions = [] := by
    rw [hwork]
    split
    · rw [hangUp, work_append, has, closeActions_work]
      rfl
    · exact has
  have hne : (c.stateAction io tls).conn.state ≠ .tlsAccept ∧
      (c.stateAction io tls).conn.state ≠ .parsing := by
    rcases hrest with hr | ⟨hr, _⟩
    · simp [hr]
    · rcases hw with hw | hw
      · simp [hr, hw]
      · simp [hr, hw]
  have hdue : ¬ (c.stateAction io tls).conn.answerDue := by
    rintro ⟨hp | hr, hm⟩
    · exact hne.2 hp
    · rcases hrest with hc | ⟨_, hu⟩
      · rw [hc] at hr
        cases hr
      · exact hm hu
  have hfirst : c.firstHalf io tls = c.stateAction io tls := if_neg fun h => hne.1 h.1
  have hparse : inlineParse io (c.stateAction io tls) = c.stateAction io tls :=
    if_neg fun h => hne.2 h.1
  rw [advance, secondHalf, hfirst, hparse, answer_not_due io server hdue, hquiet]

end Connection

namespace EventLoop
open Connection
variable {s s' : EventLoop} {i : Nat} {io : Io} {input : Input} {inputs : List Input}
  {unread : Bytes} {request : HttpRequest}

/-- An input neither destroys the connection in slot `i` nor gives the slot to another one. -/
def Remains (i : Nat) (s : EventLoop) (input : Input) : Prop :=
  ((s.step input).conn i).state ≠ .closed ∧ .acquire i ∉ during s (s.step input)

/-- The connection in slot `i` takes a step in which `request` is answered. -/
def Answers (i : Nat) (request : HttpRequest) (s : EventLoop) (input : Input) : Prop :=
  ∃ io, input.visitOf i = some (.process io) ∧ ((s.step input).conn i).request = request ∧
    Answered s (s.step input) io i

/-- A run answers `request` before the connection in slot `i` is destroyed. -/
def Serves (i : Nat) (request : HttpRequest) : EventLoop → List Input → Prop
  | _, [] => False
  | s, input :: inputs =>
    s.Answers i request input ∨ (s.Remains i input ∧ Serves i request (s.step input) inputs)

/-- After the input there may be an event of slot `i` still to come that is in the same batch: a
batch has one at most. -/
def Input.keepsBatch (i : Nat) : Input → Bool
  | .kevent => false
  | .event ev io =>
    match Input.visitOf i (.event ev io) with
    | some (.process _) => false
    | _ => true

/-- A run after the peer has shut down its sending side, with `unread` in the socket. As long as
the connection is there, all events for it carry `EV_EOF` but one that was collected before. -/
def HalfClosed (i : Nat) (unread : Bytes) : Bool → EventLoop → List Input → Prop
  | _, _, [] => True
  | before, s, input :: inputs =>
    (∀ io, input.visitOf i = some (.process io) → before = true ∧ Takes io (s.conn i) unread) ∧
      (s.Remains i input →
        HalfClosed i unread (before && input.keepsBatch i) (s.step input) inputs)

/-- Before anything ends the connection in slot `i`, an event for it that carries no `EV_EOF` is
dispatched, and its read completes the head of the request. -/
def Timely (i : Nat) : EventLoop → List Input → Prop
  | _, [] => False
  | s, input :: inputs =>
    match input.visitOf i with
    | some (.process io) => Completes io (s.conn i)
    | _ => s.Remains i input ∧ Timely i (s.step input) inputs

theorem step_of_process (h : input.visitOf i = some (.process io)) :
    s.step input = s.processConnection io i := by
  obtain ⟨ev, rfl, hend, hu⟩ := Input.visitOf_process_iff.1 h
  change s.dispatch io ev = _
  rw [dispatch_conn io hu, if_neg hend]

/-- Slots that are not acquired meanwhile keep their connections while clients are accepted. -/
theorem acceptLoop_remains (fds : List (Nat × Int))
    (h : .acquire i ∉ during s (s.acceptLoop fds)) : Elsewhere i s (s.acceptLoop fds) := by
  have hall : ∃ as, (s.acceptLoop fds).trace = s.trace ++ as ∧
      (.acquire i ∉ as → Elsewhere i s (s.acceptLoop fds)) := by
    apply acceptLoop_keeps (Q := fun u => ∃ as, u.trace = s.trace ++ as ∧
      (.acquire i ∉ as → Elsewhere i s u)) fds
    · rintro u fd ⟨as, ht, hu⟩
      constructor
      · refine ⟨as ++ [.accept fd], by rw [← List.append_assoc, ← ht]; rfl, fun ha => ?_⟩
        exact (hu fun hm => ha (List.mem_append_left _ hm)).trans ⟨rfl, rfl⟩
      · refine ⟨as ++ [.close fd], by rw [← List.append_assoc, ← ht]; rfl, fun ha => ?_⟩
        exact (hu fun hm => ha (List.mem_append_left _ hm)).trans ⟨rfl, rfl⟩
    · rintro u u' j fd now ⟨as, ht, hu⟩ hc
      have htrace := (createConnection_slot hc).2.2.2.2
      refine ⟨as ++ [.acquire j], by rw [← List.append_assoc, ← ht, htrace], fun ha => ?_⟩
      have hij : i ≠ j := by
        rintro rfl
        exact ha (List.mem_append_right _ List.mem_cons_self)
      refine (hu fun hm => ha (List.mem_append_left _ hm)).trans ⟨?_, ?_⟩
      · rw [createConnection_conn hc, if_neg hij]
      · obtain ⟨pool, _, rfl⟩ := createConnection_some hc
        rfl
    · exact ⟨[], (List.append_nil _).symm, fun _ => .refl s⟩
  obtain ⟨as, ht, helse⟩ := hall
  apply helse
  rwa [during, ht, List.drop_left] at h

/-- A sweep of the timer closes a connection or leaves it alone. -/
theorem timerLoop_remains (clock : Nat → Int) (fuel : Nat) (cursor : Option Nat)
    (h : ((timerLoop clock fuel s cursor).conn i).state ≠ .closed) :
    Elsewhere i s (timerLoop clock fuel s cursor) := by
  have hall : Elsewhere i s (timerLoop clock fuel s cursor) ∨
      ((timerLoop clock fuel s cursor).conn i).state = .closed := by
    apply timerLoop_keeps (Q := fun u => Elsewhere i s u ∨ (u.conn i).state = .closed)
    · intro u j hu
      by_cases hij : i = j
      · right
        rw [destroyConnection_state, if_pos hij]
      · rcases hu with hu | hu
        · exact .inl (hu.trans (destroyConnection_elsewhere u hij))
        · right
          rw [destroyConnection_state, if_neg hij]
          exact hu
    · exact .inl (.refl s)
  exact hall.resolve_right h

/-- What is not a step of the connection leaves it as it is, if it remains. -/
theorem Remains.elsewhere (h : s.Remains i input)
    (hv : ∀ io, input.visitOf i ≠ some (.process io)) : Elsewhere i s (s.step input) := by
  obtain ⟨hlive, hacquire⟩ := h
  cases input with
  | kevent => exact ⟨rfl, rfl⟩
  | event ev io =>
    unfold step dispatch at hlive hacquire ⊢
    dsimp only at hlive hacquire ⊢
    by_cases hend : ev.error = true ∨ ev.eof = true
    · rw [if_pos hend] at hlive ⊢
      cases hu : ev.udata with
      | conn j =>
        rw [hu] at hlive
        have hij : i ≠ j := by
          intro hij
          dsimp only at hlive
          rw [destroyConnection_state, if_pos hij] at hlive
          exact hlive rfl
        exact destroyConnection_elsewhere s hij
      | null => exact .refl s
      | listener => exact .refl s
      | timer => exact .refl s
    · rw [if_neg hend] at hlive hacquire ⊢
      cases hu : ev.udata with
      | conn j =>
        have hij : i ≠ j := by
          rintro rfl
          exact hv io (Input.visitOf_process_iff.2 ⟨ev, rfl, hend, hu⟩)
        exact processConnection_elsewhere s io hij
      | null => exact .refl s
      | listener =>
        rw [hu] at hacquire
        exact acceptLoop_remains _ hacquire
      | timer =>
        rw [hu] at hlive
        exact timerLoop_remains _ _ _ hlive

theorem begun_congr {c d : Connection} (h : d.core = c.core) : d.begun = c.begun := by
  have hbuf := congrArg Connection.readBuf h
  change d.readBuf = c.readBuf at hbuf
  rw [begun, begun, core_state h, hbuf]

theorem unread_congr {c d : Connection} (h : d.core = c.core) (hu : Unread c unread) :
    Unread d unread := by
  obtain ⟨hw, hrest, hacc, hm⟩ := hu
  rw [← begun_congr h] at hacc hm
  rw [← core_state h] at hw
  exact ⟨hw, hrest, hacc, hm⟩

theorem keepsBatch_of_process (hv : input.visitOf i = some (.process io)) :
    input.keepsBatch i = false := by
  cases input with
  | kevent => rfl
  | event ev io =>
    unfold Input.keepsBatch
    dsimp only
    rw [hv]

/-- A step whose read completes the head answers the request that has been sent. -/
theorem answers_of_completes (hs : s.Reachable) (hu : Unread (s.conn i) unread)
    (hv : input.visitOf i = some (.process io)) (ht : Takes io (s.conn i) unread)
    (hc : Completes io (s.conn i)) :
    s.Answers i (HttpRequest.parse ((s.conn i).begun ++ unread)).2 input := by
  have hread := hc.readsRequest s.tlsCtx hu.waits ht.some
  have hsame := HttpRequest.parse_prefix
    ((List.prefix_append_right_inj (s.conn i).begun).2 ht.front) hc
  have hacc := hu.accepted
  have hm := hu.supported
  rw [← hsame] at hacc hm ⊢
  refine ⟨io, hv, ?_, ?_⟩
  · rw [step_of_process hv]
    exact processConnection_keeps_request hs hread hacc hm
  · rw [step_of_process hv, answered_iff_supported hs hread hacc,
      ← HttpRequest.methodOf_ne_unknown, ← HttpRequest.parse_method]
    exact hm

/-- A step whose read does not complete the head answers nothing. -/
theorem not_answers_of_incomplete (hs : s.Reachable) (hu : Unread (s.conn i) unread)
    (hv : input.visitOf i = some (.process io)) (ht : Takes io (s.conn i) unread)
    (hc : ¬ Completes io (s.conn i)) : ¬ s.Answers i request input := by
  rintro ⟨_, _, _, hans⟩
  have hwork := work_of_incomplete s.tlsCtx s.fileServer hu.waits (hs.conn opens_invariant i)
    ht.some hc
  have hmem : Action.prepareResponse ∈ work (during s (s.step input)) :=
    List.mem_filter.2 ⟨hans.prepared.1, rfl⟩
  rw [step_of_process hv, processConnection_work, hwork] at hmem
  cases hmem

/-- Once no event without `EV_EOF` is left, the request is not answered any more. -/
theorem not_serves (h : HalfClosed i unread false s inputs) : ¬ s.Serves i request inputs := by
  induction inputs generalizing s with
  | nil => exact fun hs => hs
  | cons input inputs ih =>
    obtain ⟨hone, hrest⟩ := h
    rintro (⟨io, hv, _⟩ | ⟨hr, hs⟩)
    · exact Bool.false_ne_true (hone io hv).1
    · exact ih (hrest hr) hs

theorem not_timely (h : HalfClosed i unread false s inputs) : ¬ s.Timely i inputs := by
  induction inputs generalizing s with
  | nil => exact fun hs => hs
  | cons input inputs ih =>
    obtain ⟨hone, hrest⟩ := h
    unfold Timely
    split
    · next io hv => exact fun _ => Bool.false_ne_true (hone io hv).1
    · exact fun hs => ih (hrest hs.1) hs.2

theorem Reachable.step (h : s.Reachable) (input : Input) : (s.step input).Reachable := by
  obtain ⟨server, timeout, tls, inputs, rfl⟩ := h
  refine ⟨server, timeout, tls, inputs ++ [input], ?_⟩
  rw [List.foldl_append, List.foldl_cons, List.foldl_nil]

/-- A client whose first byte has been seen. -/
def arrived : EventLoop :=
  (round [(⟨false, false, .listener⟩, { accepts := [(5, 0)] })] ++
    round [(⟨false, false, .conn 0⟩, { peek := .done (some 0x47) })]).foldl step
      (create ⟨bytes "/srv"⟩ 75 false)

theorem arrived_unread : Unread (arrived.conn 0) getText := by
  refine ⟨.inl ?_, ?_, ?_, ?_⟩
  · decide
  · decide
  · decide
  · decide

/-- The next event for the connection carries `EV_EOF`. -/
def closing (i : Nat) : List Input := round [(⟨false, true, .conn i⟩, {})]

theorem closing_visitOf (i : Nat) : ∀ input ∈ closing i, ∀ io,
    input.visitOf i ≠ some (.process io) := by
  intro input hi io
  rcases List.mem_cons.1 hi with rfl | hi
  · exact nofun
  · rw [List.mem_singleton.1 hi]
    simp [Input.visitOf]

theorem halfClosed_of_none {before : Bool}
    (h : ∀ input ∈ inputs, ∀ io, input.visitOf i ≠ some (.process io)) :
    HalfClosed i unread before s inputs := by
  induction inputs generalizing s before with
  | nil => trivial
  | cons input inputs ih =>
    refine ⟨fun io hv => (h input List.mem_cons_self io hv).elim, fun _ => ?_⟩
    exact ih fun input' hi => h input' (List.mem_cons_of_mem _ hi)

theorem not_serves_of_none (h : ∀ input ∈ inputs, ∀ io, input.visitOf i ≠ some (.process io)) :
    ¬ s.Serves i request inputs := by
  have hhalf : HalfClosed i [] false s inputs := halfClosed_of_none h
  exact not_serves hhalf

/-- The event of the client was collected before it has shut down its sending side. -/
def collected : List Input :=
  .event ⟨false, false, .conn 0⟩ { read := .done getText } :: closing 0

end EventLoop

end FileWebServer
