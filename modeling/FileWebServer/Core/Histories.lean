import FileWebServer.Core.Alike
import FileWebServer.Core.TimerSweep

namespace FileWebServer
set_option autoImplicit true

/-- What the event loop does with one connection: it processes it, looks at it in a sweep of the
timer, or destroys it. -/
inductive Visit where
  | process (io : Io)
  | sweep (now : Int)
  | destroy

/-- What can be seen of a visit: the state it leads to, the `Want` it returns, and the bytes it
hands to the socket. -/
structure Seen where
  state : State
  want : Want
  sent : Bytes
  deriving DecidableEq

namespace Connection
variable {c d : Connection} {tls : Bool} {server : FileServer} {timeout : Int}

def visit (tls : Bool) (server : FileServer) (timeout : Int) (c : Connection) : Visit → Outcome
  | .process io => c.advance io tls server
  | .sweep now =>
    if c.state = .keepAlive ∧ c.isExpired now timeout then c.hangUp [] else ⟨c, .none, []⟩
  | .destroy => c.hangUp []

def history (tls : Bool) (server : FileServer) (timeout : Int) : Connection → List Visit → List Seen
  | _, [] => []
  | c, v :: vs =>
    let r := c.visit tls server timeout v
    ⟨r.conn.state, r.want, wire r.actions⟩ :: history tls server timeout r.conn vs

theorem history_cons (c : Connection) (v : Visit) (vs : List Visit) :
    c.history tls server timeout (v :: vs) =
      ⟨(c.visit tls server timeout v).conn.state, (c.visit tls server timeout v).want,
        wire (c.visit tls server timeout v).actions⟩ ::
        (c.visit tls server timeout v).conn.history tls server timeout vs := rfl

theorem Alike.refl (c : Connection) : Alike p c c where
  state := rfl
  transport := rfl
  readBuf := rfl
  header := fun _ => rfl
  headerSent := rfl
  file := .inl rfl
  offset := rfl
  remaining := rfl
  chunk := rfl
  chunkUsed := rfl
  chunkSent := rfl
  bodySent := rfl
  request := rfl
  response := rfl
  isHead := rfl
  lastActive := rfl

/-- The place in the keep-alive list makes no difference. -/
theorem alike_of_core (h : c.core = d.core) : Alike p c d := by
  have hcore : Alike p c.core d.core := h ▸ Alike.refl c.core
  exact { hcore with }

theorem Alike.isExpired (h : Alike p c d) (now timeout : Int) :
    c.isExpired now timeout = d.isExpired now timeout := by
  unfold Connection.isExpired
  rw [h.lastActive]

theorem Alike.visit (h : Steady c d) (tls : Bool) (server : FileServer) (timeout : Int)
    (v : Visit) :
    Steps (c.visit tls server timeout v) (d.visit tls server timeout v) := by
  cases v with
  | process io => exact h.advance io tls server
  | sweep now =>
    unfold Connection.visit
    dsimp only
    rw [h.state, h.isExpired]
    split
    · exact h.hangUp_steps rfl
    · exact h.twin _ rfl
  | destroy => exact h.hangUp_steps rfl

/-- Two such connections have the same history. -/
theorem Alike.history (h : Steady c d) (tls : Bool) (server : FileServer) (timeout : Int)
    (vs : List Visit) :
    c.history tls server timeout vs = d.history tls server timeout vs := by
  induction vs generalizing c d with
  | nil => rfl
  | cons v vs ih =>
    have hv := h.visit tls server timeout v
    rw [history_cons, history_cons, hv.conn.state, hv.want, hv.sent, ih hv.conn]

end Connection

namespace EventLoop
open Connection
variable {s s' t t' : EventLoop} {i j : Nat} {v : Visit} {vs : List Visit} {l l' : List Seen}

/-- What an event loop is set up with. -/
def config (s : EventLoop) : Bool × FileServer × Int :=
  (s.tlsCtx, s.fileServer, s.keepAliveTimeout)

theorem core_config (h : s.core = s'.core) : s.config = s'.config := by
  have hc := congrArg EventLoop.config h
  exact hc

theorem destroyConnection_config (s : EventLoop) (i : Nat) :
    (s.destroyConnection i).config = s.config := by
  have h : (s.removeFromKeepaliveList i).config = s.config :=
    core_config (removeFromKeepaliveList_core s i)
  exact h

theorem updateEvents_config (s : EventLoop) (i : Nat) (want : Want) :
    (s.updateEvents i want).config = s.config := by
  unfold updateEvents
  dsimp only
  split <;> rfl

theorem processConnection_config (s : EventLoop) (io : Io) (i : Nat) :
    (s.processConnection io i).config = s.config := by
  rcases processConnection_cases s io i with
    ⟨_, hp⟩ | ⟨_, _, r, _, hp⟩ | ⟨_, _, r, _, _, hp⟩
  · rw [hp]
  · rw [hp, destroyConnection_config]
    rfl
  · rw [hp, updateEvents_config, core_config (syncKeepaliveList_core (s.writeBack i r) i _)]
    rfl

theorem releaseActions_wire (i : Nat) : wire (releaseActions i) = [] := by
  unfold releaseActions
  split <;> rfl

/-- Destroying a connection closes it, and sends nothing. -/
theorem destroyConnection_outcome (s : EventLoop) (i : Nat) :
    ((s.destroyConnection i).conn i).core = ((s.conn i).hangUp []).conn.core ∧
      wire (during s (s.destroyConnection i)) = [] := by
  constructor
  · rw [destroyConnection_conn, if_pos rfl, ← core_close]
    rfl
  · rw [during, destroyConnection_trace, List.append_assoc, List.drop_left, wire_append,
      closeActions_wire, releaseActions_wire]
    rfl

theorem processConnection_wire (s : EventLoop) (io : Io) (i : Nat) :
    wire (during s (s.processConnection io i)) =
      wire ((s.conn i).advance io s.tlsCtx s.fileServer).actions := by
  obtain ⟨released, hreleased, hduring⟩ := processConnection_during s io i
  rw [hduring, wire_append]
  rcases hreleased with rfl | rfl
  · exact List.append_nil _
  · rw [releaseActions_wire, List.append_nil]

/-- One visit of the event loop to the connection in slot `i`. -/
def visit (s : EventLoop) (i : Nat) : Visit → EventLoop
  | .process io => s.processConnection io i
  | .sweep now =>
    if (s.conn i).state = .keepAlive ∧ (s.conn i).isExpired now s.keepAliveTimeout then
      s.destroyConnection i
    else s
  | .destroy => s.destroyConnection i

/-- A visit does to the connection what its own definition says. -/
theorem visit_outcome (s : EventLoop) (i : Nat) (v : Visit) :
    ((s.visit i v).conn i).core =
        ((s.conn i).visit s.tlsCtx s.fileServer s.keepAliveTimeout v).conn.core ∧
      wire (during s (s.visit i v)) =
        wire ((s.conn i).visit s.tlsCtx s.fileServer s.keepAliveTimeout v).actions ∧
      (s.visit i v).config = s.config := by
  have hdestroy : ((s.destroyConnection i).conn i).core = ((s.conn i).hangUp []).conn.core ∧
      wire (during s (s.destroyConnection i)) = wire ((s.conn i).hangUp []).actions ∧
      (s.destroyConnection i).config = s.config := by
    obtain ⟨hconn, hwire⟩ := destroyConnection_outcome s i
    rw [hangUp_wire]
    exact ⟨hconn, hwire, destroyConnection_config s i⟩
  cases v with
  | process io =>
    obtain ⟨hconn, _⟩ := processConnection_outcome s io i
    exact ⟨hconn, processConnection_wire s io i, processConnection_config s io i⟩
  | sweep now =>
    unfold visit Connection.visit
    dsimp only
    split
    · exact hdestroy
    · rw [during, List.drop_length]
      exact ⟨rfl, rfl, rfl⟩
  | destroy => exact hdestroy

/-- What is seen of a visit to slot `i`. -/
def seen (s : EventLoop) (i : Nat) (v : Visit) : Seen :=
  { state := ((s.visit i v).conn i).state
    want := ((s.conn i).visit s.tlsCtx s.fileServer s.keepAliveTimeout v).want
    sent := wire (during s (s.visit i v)) }

/-- What the event loop does elsewhere than in slot `i`. -/
structure Elsewhere (i : Nat) (s s' : EventLoop) : Prop where
  conn : (s'.conn i).core = (s.conn i).core
  config : s'.config = s.config

/-- A stretch of a run in which slot `i` gets the visits `vs`, with whatever else between them,
and `l` is seen of them. -/
inductive Lives (i : Nat) : EventLoop → List Visit → List Seen → Prop
  | nil (s : EventLoop) : Lives i s [] []
  | visit {s : EventLoop} {v : Visit} {vs : List Visit} {l : List Seen} :
    Lives i (s.visit i v) vs l → Lives i s (v :: vs) (s.seen i v :: l)
  | elsewhere {s s' : EventLoop} {vs : List Visit} {l : List Seen} :
    Elsewhere i s s' → Lives i s' vs l → Lives i s vs l

/-- The history of a slot, as far as the connection in it and the configuration determine it. -/
def slotHistory (s : EventLoop) (i : Nat) (vs : List Visit) : List Seen :=
  (s.conn i).history s.tlsCtx s.fileServer s.keepAliveTimeout vs

theorem slotHistory_congr (hc : s.config = t.config) (h : Steady (s.conn i) (t.conn j))
    (vs : List Visit) : s.slotHistory i vs = t.slotHistory j vs := by
  have htls : s.tlsCtx = t.tlsCtx := congrArg (fun p => p.1) hc
  have hserver : s.fileServer = t.fileServer := congrArg (fun p => p.2.1) hc
  have htime : s.keepAliveTimeout = t.keepAliveTimeout := congrArg (fun p => p.2.2) hc
  unfold slotHistory
  rw [htls, hserver, htime]
  exact h.history _ _ _ vs

theorem slotHistory_cons (s : EventLoop) (i : Nat) (v : Visit) (vs : List Visit) :
    s.slotHistory i (v :: vs) = s.seen i v :: (s.visit i v).slotHistory i vs := by
  obtain ⟨hconn, hwire, hc⟩ := s.visit_outcome i v
  have htls : (s.visit i v).tlsCtx = s.tlsCtx := congrArg (fun p => p.1) hc
  have hserver : (s.visit i v).fileServer = s.fileServer := congrArg (fun p => p.2.1) hc
  have htime : (s.visit i v).keepAliveTimeout = s.keepAliveTimeout :=
    congrArg (fun p => p.2.2) hc
  have hlike : Steady _ _ := alike_of_core hconn
  have hrest := hlike.history s.tlsCtx s.fileServer s.keepAliveTimeout vs
  unfold slotHistory seen
  rw [history_cons, core_state hconn, hwire, htls, hserver, htime, hrest]

/-- What is seen of a slot depends on the connection in it and on nothing else. -/
theorem Lives.eq_history (h : Lives i s vs l) : l = s.slotHistory i vs := by
  induction h with
  | nil => rfl
  | visit _ ih => rw [slotHistory_cons, ih]
  | elsewhere he _ ih => rw [ih, slotHistory_congr he.config (alike_of_core he.conn)]

theorem Elsewhere.refl (s : EventLoop) : Elsewhere i s s := ⟨rfl, rfl⟩

theorem Elsewhere.trans {u : EventLoop} (h : Elsewhere i s t) (h' : Elsewhere i t u) :
    Elsewhere i s u := ⟨h'.conn.trans h.conn, h'.config.trans h.config⟩

theorem destroyConnection_elsewhere (s : EventLoop) (h : i ≠ j) :
    Elsewhere i s (s.destroyConnection j) := by
  refine ⟨?_, destroyConnection_config s j⟩
  rw [destroyConnection_conn, if_neg h]

theorem processConnection_elsewhere (s : EventLoop) (io : Io) (h : i ≠ j) :
    Elsewhere i s (s.processConnection io j) := by
  refine ⟨?_, processConnection_config s io j⟩
  rcases processConnection_cases s io j with
    ⟨_, hp⟩ | ⟨_, _, r, _, hp⟩ | ⟨_, _, r, _, _, hp⟩
  · rw [hp]
  · rw [hp, destroyConnection_conn, if_neg h, conn_writeBack, if_neg h]
  · rw [hp, updateEvents_conn, core_conn (syncKeepaliveList_core _ j _) i, conn_writeBack,
      if_neg h]

/-- A new connection gets a slot that was not in use. -/
theorem createConnection_elsewhere {fd now : Int} (hs : SlotInv s) (hi : s.pool.InUse i)
    (h : s.createConnection fd now = (s', some j)) : s'.pool.InUse i ∧ Elsewhere i s s' := by
  obtain ⟨pool, ha, rfl⟩ := createConnection_some h
  have hij : i ≠ j := fun he => ConnectionPool.acquire_fresh ha (he ▸ hi)
  have huse : pool.InUse i := (ConnectionPool.acquire_inUse hs.pool ha i).2 (.inr hi)
  refine ⟨huse, ?_, rfl⟩
  rw [conn_addEvents, conn_setConn, if_neg hij]
  obtain ⟨_, _, rfl⟩ := ConnectionPool.acquire_some ha
  rfl

theorem handleAccept_elsewhere {l : List Nat} (io : Io) (hg : Good s l) (hi : s.pool.InUse i) :
    Elsewhere i s (s.handleAccept io) := by
  have hall : Good (s.acceptLoop io.accepts) l ∧ (s.acceptLoop io.accepts).pool.InUse i ∧
      Elsewhere i s (s.acceptLoop io.accepts) :=
    acceptLoop_rule (Q := fun _ u => u.pool.InUse i ∧ Elsewhere i s u) ?_ ?_ hg ⟨hi, .refl s⟩
  · exact hall.2.2
  · intro u u' l k fd now rest hu ⟨huse, helse⟩ hc
    have hlog : Good (u.log [.accept fd]) l :=
      hu.log fun i => by simp [traffic, Action.isTraffic]
    obtain ⟨huse', hnew⟩ := createConnection_elsewhere (i := i) hlog.slots huse hc
    exact ⟨huse', helse.trans ⟨hnew.conn, hnew.config⟩⟩
  · rintro u l fd now rest _ ⟨huse, helse⟩
    exact ⟨huse, helse.trans ⟨rfl, rfl⟩⟩

theorem sweep_of_expired {now : Int} (hk : (s.conn i).state = .keepAlive)
    (he : (s.conn i).isExpired now s.keepAliveTimeout = true) :
    s.visit i (.sweep now) = s.destroyConnection i := if_pos ⟨hk, he⟩

theorem sweep_of_waiting {now : Int} (h : ¬ ((s.conn i).state = .keepAlive ∧
    (s.conn i).isExpired now s.keepAliveTimeout = true)) : s.visit i (.sweep now) = s := if_neg h

theorem Swept.config {clock : Nat → Int} {l : List Nat} (h : Swept clock l s s') :
    s'.config = s.config := by
  have hall : ∀ (gone : List Nat) (s : EventLoop),
      (gone.foldl destroyConnection s).config = s.config := by
    intro gone
    induction gone with
    | nil => exact fun s => rfl
    | cons i gone ih =>
      intro s
      rw [List.foldl_cons, ih, destroyConnection_config]
  rw [h.destroys]
  exact hall _ s

/-- A sweep of the timer visits every connection once. -/
theorem handleTimer_elsewhere {l : List Nat} (io : Io) (hg : Good s l) :
    Elsewhere i (s.visit i (.sweep (io.clock i))) (s.handleTimer io) := by
  have hswept := hg.swept io
  by_cases hi : i ∈ l ∧ s.timedOut io.clock i = true
  · rw [sweep_of_expired ((hg.waits i).1 hi.1) hi.2]
    constructor
    · rw [hswept.gone i hi.1 hi.2, destroyConnection_conn, if_pos rfl, ← core_close]
      rfl
    · rw [hswept.config, destroyConnection_config]
  · rw [sweep_of_waiting fun h => hi ⟨(hg.waits i).2 h.1, h.2⟩]
    exact ⟨hswept.spared i hi, hswept.config⟩

/-- What an input of the event loop means for the connection in slot `i`. -/
def Input.visitOf (i : Nat) : Input → Option Visit
  | .kevent => none
  | .event ev io =>
    if ev.error ∨ ev.eof then if ev.udata = .conn i then some .destroy else none
    else match ev.udata with
      | .conn j => if j = i then some (.process io) else none
      | .timer => some (.sweep (io.clock i))
      | _ => none

theorem Input.visitOf_process_iff {io : Io} : Input.visitOf i input = some (.process io) ↔
    ∃ ev, input = .event ev io ∧ ¬ (ev.error ∨ ev.eof) ∧ ev.udata = .conn i := by
  constructor
  · intro h
    cases input with
    | kevent => cases h
    | event ev io' =>
      unfold Input.visitOf at h
      dsimp only at h
      by_cases hend : ev.error = true ∨ ev.eof = true
      · rw [if_pos hend] at h
        split at h <;> cases h
      · rw [if_neg hend] at h
        cases hu : ev.udata with
        | conn j =>
          rw [hu] at h
          dsimp only at h
          split at h
          · next hji =>
            cases h
            exact ⟨ev, rfl, hend, hji ▸ hu⟩
          · cases h
        | null => rw [hu] at h; cases h
        | listener => rw [hu] at h; cases h
        | timer => rw [hu] at h; cases h
  · rintro ⟨ev, rfl, hend, hu⟩
    unfold Input.visitOf
    dsimp only
    rw [if_neg hend, hu]
    exact if_pos rfl

/-- Every input is for a connection one visit or none, and does the rest elsewhere. -/
theorem step_elsewhere {l : List Nat} (hg : Good s l) (hi : s.pool.InUse i) (input : Input) :
    Elsewhere i ((input.visitOf i).elim s fun v => s.visit i v) (s.step input) := by
  cases input with
  | kevent => exact ⟨rfl, rfl⟩
  | event ev io =>
    unfold step dispatch Input.visitOf
    dsimp only
    split
    · cases hu : ev.udata with
      | conn j =>
        by_cases hij : i = j
        · subst hij
          rw [if_pos rfl]
          exact .refl _
        · rw [if_neg fun h => hij (Udata.conn.inj h).symm]
          exact destroyConnection_elsewhere s hij
      | null => exact .refl s
      | listener => exact .refl s
      | timer => exact .refl s
    · cases ev.udata with
      | conn j =>
        by_cases hij : i = j
        · subst hij
          dsimp only
          rw [if_pos rfl]
          exact .refl _
        · dsimp only
          rw [if_neg fun h => hij h.symm]
          exact processConnection_elsewhere s io hij
      | null => exact .refl s
      | listener => exact handleAccept_elsewhere io hg hi
      | timer => exact handleTimer_elsewhere io hg

/-- In every run during which no slot is released twice and slot `i` stays in use, the connection
in it lives through the visits that the inputs mean for it. -/
theorem run_lives {l : List Nat} (inputs : List Input) (hg : Good s l)
    (h : Run.Along step (fun s input => s.FreshInput input ∧ s.pool.InUse i) s inputs) :
    ∃ seen, Lives i s (inputs.filterMap (Input.visitOf i)) seen := by
  induction inputs generalizing s l with
  | nil => exact ⟨_, .nil s⟩
  | cons input inputs ih =>
    obtain ⟨⟨hfresh, hi⟩, hrest⟩ := h
    obtain ⟨l', hg'⟩ := step_good hg hfresh
    obtain ⟨seen, hseen⟩ := ih hg' hrest
    have helse := step_elsewhere hg hi input
    rw [List.filterMap_cons]
    cases hv : input.visitOf i with
    | none =>
      rw [hv] at helse
      exact ⟨_, .elsewhere helse hseen⟩
    | some v =>
      rw [hv] at helse
      exact ⟨_, .visit (.elsewhere helse hseen)⟩

/-- Connections that have just been created are alike, whatever their slots held before. -/
theorem createConnection_alike {fd fd' now : Int} (hc : s.config = t.config)
    (hs : s.createConnection fd now = (s', some i))
    (ht : t.createConnection fd' now = (t', some j)) :
    s'.config = t'.config ∧ Steady (s'.conn i) (t'.conn j) := by
  obtain ⟨_, _, rfl⟩ := createConnection_some hs
  obtain ⟨_, _, rfl⟩ := createConnection_some ht
  refine ⟨hc, ?_⟩
  rw [conn_addEvents, conn_addEvents, conn_setConn, conn_setConn, if_pos rfl, if_pos rfl]
  exact {
    state := rfl
    transport := rfl
    readBuf := rfl
    header := fun h => State.noConfusion h
    headerSent := rfl
    file := .inl rfl
    offset := rfl
    remaining := rfl
    chunk := rfl
    chunkUsed := rfl
    chunkSent := rfl
    bodySent := rfl
    request := rfl
    response := rfl
    isHead := rfl
    lastActive := rfl }

/-- Two connections that are created in any two slots of equally configured event loops show the
same states, wants and bytes at the same visits, whatever the slots held before and whatever the
loops do elsewhere. -/
theorem recycled_slot_as_new {fd fd' now : Int} (hc : s.config = t.config)
    (hs : s.createConnection fd now = (s', some i))
    (ht : t.createConnection fd' now = (t', some j))
    (hl : Lives i s' vs l) (hl' : Lives j t' vs l') : l = l' := by
  obtain ⟨hconfig, hlike⟩ := createConnection_alike hc hs ht
  rw [hl.eq_history, hl'.eq_history]
  exact slotHistory_congr hconfig hlike vs

/-- A slot whose first client has been told that its request is not a request, and has left. -/
def leftSlot : EventLoop :=
  ((greeted.processConnection { read := .done (bytes "\r\n\r\n") } 0).destroyConnection 0)

theorem recycled_slot_as_new_get :
    [(leftSlot.createConnection 6 0).1.seen 0 (.process { peek := .done (some 0x47) })] =
      [((create ⟨bytes "/srv"⟩ 75 false).createConnection 5 0).1.seen 0
        (.process { peek := .done (some 0x47) })] := by
  have hs : leftSlot.createConnection 6 0 = ((leftSlot.createConnection 6 0).1, some 0) :=
    Prod.ext rfl (by decide)
  have ht : (create ⟨bytes "/srv"⟩ 75 false).createConnection 5 0 =
      (((create ⟨bytes "/srv"⟩ 75 false).createConnection 5 0).1, some 0) :=
    Prod.ext rfl (by decide)
  have hc : leftSlot.config = (create ⟨bytes "/srv"⟩ 75 false).config :=
    (destroyConnection_config ..).trans (processConnection_config ..)
  exact recycled_slot_as_new hc hs ht (.visit (.nil _)) (.visit (.nil _))

end EventLoop

end FileWebServer
