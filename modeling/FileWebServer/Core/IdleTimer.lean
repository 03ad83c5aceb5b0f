import FileWebServer.Core.HalfClose
import FileWebServer.Core.Handshakes
import FileWebServer.Core.Transport

namespace FileWebServer
set_option autoImplicit true
set_option maxRecDepth 20000

/-- A call that moves bytes over the socket of a connection. A call of OpenSSL may move some
whatever it returns. -/
def Action.moves : Action → Bool
  | .read _ data | .write _ data | .sendfile _ _ data => data ≠ []
  | .sslAccept _ _ | .sslRead _ _ | .sslWrite _ _ _ => true
  | _ => false

namespace Connection
variable {c d : Connection} {io : Io} {tls : Bool} {server : FileServer} {r : Outcome}

/-- What came before the second half of a call makes no difference to where it leads. -/
theorem secondHalf_conn (io : Io) (server : FileServer) (r : Outcome) :
    (secondHalf io server r).conn = (secondHalf io server ⟨r.conn, .none, []⟩).conn := by
  have hparse : (inlineParse io r).conn = (inlineParse io ⟨r.conn, .none, []⟩).conn := by
    unfold inlineParse
    dsimp only
    split <;> rfl
  unfold secondHalf answer
  rw [hparse]
  split
  · rfl
  · exact hparse

theorem secondHalf_lastActive (io : Io) (server : FileServer) (r : Outcome) :
    (secondHalf io server r).conn.lastActive = r.conn.lastActive ∨
      (secondHalf io server r).conn.lastActive = io.now := by
  have hnone : KeepsLine io r.conn ⟨r.conn, .none, []⟩ :=
    keepsLine_quiet rfl (.inl rfl) fun _ => sealed_nil
  rw [secondHalf_conn]
  exact (secondHalf_keepsLine server hnone).lastActive

theorem advance_lastActive (io : Io) (tls : Bool) (server : FileServer) (c : Connection) :
    (c.advance io tls server).conn.lastActive = c.lastActive ∨
      (c.advance io tls server).conn.lastActive = io.now := by
  have hfirst : (c.firstHalf io tls).conn.lastActive = c.lastActive ∨
      (c.firstHalf io tls).conn.lastActive = io.now := by
    have hact := (stateAction_keepsLine io tls c).lastActive
    unfold firstHalf injectSsl
    split
    · rcases (doTlsAccept_keepsLine io io.sslAcceptInline { (c.stateAction io tls).conn with
        ssl := if tls then io.newSsl else none }).lastActive with hl | hl
      · rw [Outcome.after_conn, hl]
        exact hact
      · exact .inr hl
    · exact hact
  unfold advance
  rcases secondHalf_lastActive io server (c.firstHalf io tls) with hl | hl
  · rw [hl]
    exact hfirst
  · exact .inr hl

/-- A call that goes through `do_read` marks its time. -/
theorem Reads.lastActive (h : c.Reads) (io : Io) (tls : Bool) (server : FileServer) :
    (c.advance io tls server).conn.lastActive = io.now := by
  have hread : (c.stateAction io tls).conn.lastActive = io.now ∧
      (c.stateAction io tls).conn.state ≠ .tlsAccept := by
    have hd (d : Connection) (hd : d.state = c.state) :
        (d.doRead io).conn.lastActive = io.now ∧ (d.doRead io).conn.state ≠ .tlsAccept := by
      have hne : d.state ≠ .closed ∧ d.state ≠ .tlsAccept := by
        rw [hd]
        rcases h with h | h
        · simp [h]
        · simp [h]
      refine ⟨?_, doRead_state io hne.1 hne.2⟩
      rcases (doRead_keepsLine io d).lastActive with hl | hl
      · exact hl
      · exact hl
    unfold stateAction
    rcases h with h | h
    · rw [h]
      exact hd c rfl
    · rw [h]
      exact hd c.reset rfl
  have hfirst : c.firstHalf io tls = c.stateAction io tls := if_neg fun ht => hread.2 ht.1
  rw [advance, hfirst]
  rcases secondHalf_lastActive io server (c.stateAction io tls) with hl | hl
  · exact hl.trans hread.1
  · exact hl

end Connection

namespace EventLoop
open Connection ConnectionPool LinkedList
variable {s s' : EventLoop} {i j k : Nat} {input : Input} {inputs : List Input}

/-- The connections that a sweep of the timer closes are among those that the list leads to, and
have expired. -/
theorem timerLoop_closes {R : Nat → Prop} (clock : Nat → Int) (fuel : Nat) {cursor : Option Nat}
    (hnext : ∀ y z, R y → s.links.next y = some z → R z) (hcursor : ∀ k, cursor = some k → R k)
    (hopen : (s.conn i).state ≠ .closed)
    (hclosed : ((timerLoop clock fuel s cursor).conn i).state = .closed) :
    R i ∧ (s.conn i).isExpired (clock i) s.keepAliveTimeout = true := by
  induction fuel generalizing s cursor with
  | zero => exact (hopen hclosed).elim
  | succ fuel ih =>
    cases cursor with
    | none => exact (hopen hclosed).elim
    | some k =>
      have hk := hcursor k rfl
      have hcursor' : ∀ n, (s.conn k).keepaliveNext = some n → R n := fun n hn => hnext k n hk hn
      unfold timerLoop at hclosed
      dsimp only at hclosed
      split at hclosed
      · next hexp =>
        by_cases hik : i = k
        · subst hik
          exact ⟨hk, hexp⟩
        · have helse := destroyConnection_elsewhere s hik
          have hlike : Alike True ((s.destroyConnection k).conn i) (s.conn i) :=
            alike_of_core helse.conn
          have htime : (s.destroyConnection k).keepAliveTimeout = s.keepAliveTimeout :=
            congrArg (fun p => p.2.2) helse.config
          have hnext' : ∀ y z, R y → (s.destroyConnection k).links.next y = some z → R z := by
            intro y z hy hz
            rw [destroyConnection_links] at hz
            by_cases hlisted : (s.conn k).inKeepaliveList = true
            · rw [removeFromKeepaliveList_links hlisted] at hz
              exact Links.next_of_unlink hnext hk hy hz
            · rw [removeFromKeepaliveList, if_neg hlisted] at hz
              exact hnext y z hy hz
          rw [← hlike.isExpired, ← htime]
          apply ih hnext' hcursor' _ hclosed
          rw [core_state helse.conn]
          exact hopen
      · exact ih hnext hcursor' hopen hclosed

/-- Bytes of a connection are moved in one of its calls, which begins with `do_read` or not. -/
structure Move where
  time : Int
  reading : Bool
  deriving DecidableEq

/-- An event loop, with what has been moved for the connection that is in a slot. -/
structure Diary where
  loop : EventLoop
  moves : Nat → List Move

/-- A call is put down if it moves bytes; a connection that is new in its slot has moved none. -/
def Diary.step (d : Diary) (input : Input) : Diary where
  loop := d.loop.step input
  moves i :=
    if .acquire i ∈ during d.loop (d.loop.step input) then []
    else match input.visitOf i with
      | some (.process io) =>
        if (during d.loop (d.loop.step input)).any Action.moves then
          ⟨io.now, decide (d.loop.conn i).Reads⟩ :: d.moves i
        else d.moves i
      | _ => d.moves i

/-- The clock in a call of `process_connection`. -/
def Input.reading : Input → Option Int
  | .kevent => none
  | .event ev io =>
    match ev.udata with
    | .conn _ => some io.now
    | _ => none

/-- `keep_alive_timeout` in nanoseconds. -/
def patience (s : EventLoop) : Int := s.keepAliveTimeout * 1000000000

/-- Of a connection that the timer closes, no bytes were moved for as long as the timeout. -/
def Diary.ClosesIdle (d : Diary) : Input → Prop
  | .event ⟨false, false, .timer⟩ io =>
    ∀ i, (d.loop.conn i).state ≠ .closed →
      ((d.loop.step (.event ⟨false, false, .timer⟩ io)).conn i).state = .closed →
      ∀ m ∈ d.moves i, m.time + d.loop.patience < io.clock i
  | _ => True

/-- When the timer comes by a connection after a call that moved bytes without `do_read`, the time
that the last `do_read` has marked is not over, or that of the call is over as well. -/
def Diary.Settled (d : Diary) : Input → Prop
  | .event ⟨false, false, .timer⟩ io =>
    ∀ i, d.loop.links.Reaches i → ∀ m ∈ d.moves i, m.reading = false →
      ¬ ((d.loop.conn i).lastActive + d.loop.patience < io.clock i ∧
        io.clock i ≤ m.time + d.loop.patience)
  | _ => True

/-- No call of `process_connection` comes before those that are put down. -/
def Diary.OnTime (d : Diary) (input : Input) : Prop :=
  ∀ t, input.reading = some t → ∀ i, ∀ m ∈ d.moves i, m.time ≤ t

/-- As long as a connection is open, its calls of `do_read` are no later than it has marked. -/
def Diary.Marked (d : Diary) : Prop :=
  ∀ i, (d.loop.conn i).state ≠ .closed → ∀ m ∈ d.moves i, m.reading = true →
    m.time ≤ (d.loop.conn i).lastActive

variable {d : Diary} {m : Move}

theorem reading_of_process {io : Io} (h : input.visitOf i = some (.process io)) :
    input.reading = some io.now := by
  obtain ⟨ev, rfl, _, hu⟩ := Input.visitOf_process_iff.1 h
  unfold Input.reading
  dsimp only
  rw [hu]

/-- What is put down for a slot after a step was there before, or comes from a call. -/
theorem mem_step_moves (h : m ∈ (d.step input).moves i) :
    .acquire i ∉ during d.loop (d.loop.step input) ∧ (m ∈ d.moves i ∨
      ∃ io, input.visitOf i = some (.process io) ∧
        m = ⟨io.now, decide (d.loop.conn i).Reads⟩) := by
  unfold Diary.step at h
  dsimp only at h
  split at h
  · cases h
  · next ha =>
    refine ⟨ha, ?_⟩
    split at h
    · next io hv =>
      split at h
      · rcases List.mem_cons.1 h with rfl | hm
        · exact .inr ⟨io, hv, rfl⟩
        · exact .inl hm
      · exact .inl h
    · exact .inl h

theorem along_onTime (hclock : (inputs.filterMap Input.reading).Pairwise (· ≤ ·))
    (hpast : ∀ t ∈ inputs.filterMap Input.reading, ∀ i, ∀ m ∈ d.moves i, m.time ≤ t) :
    Run.Along Diary.step Diary.OnTime d inputs := by
  induction inputs generalizing d with
  | nil => trivial
  | cons input inputs ih =>
    have hrest : (inputs.filterMap Input.reading).Pairwise (· ≤ ·) := by
      rw [List.filterMap_cons] at hclock
      split at hclock
      · exact hclock
      · exact hclock.of_cons
    have hlater {u : Int} (hu : u ∈ inputs.filterMap Input.reading) :
        u ∈ (input :: inputs).filterMap Input.reading := by
      rw [List.filterMap_cons]
      split
      · exact hu
      · exact List.mem_cons_of_mem _ hu
    refine ⟨fun t ht => hpast t ?_, ih hrest fun u hu i m hm => ?_⟩
    · rw [List.filterMap_cons, ht]
      exact List.mem_cons_self
    · rcases (mem_step_moves hm).2 with hold | ⟨io, hv, rfl⟩
      · exact hpast u (hlater hu) i m hold
      · rw [List.filterMap_cons, reading_of_process hv] at hclock
        exact (List.pairwise_cons.1 hclock).1 u hu

theorem core_lastActive {c d : Connection} (h : c.core = d.core) :
    c.lastActive = d.lastActive := by
  have hl := congrArg Connection.lastActive h
  exact hl

theorem Diary.Marked.step (h : d.Marked) (ht : d.OnTime input) : (d.step input).Marked := by
  intro i hopen m hm hreading
  obtain ⟨hacquire, hmove⟩ := mem_step_moves hm
  have hopen' : ((d.loop.step input).conn i).state ≠ .closed := hopen
  change m.time ≤ ((d.loop.step input).conn i).lastActive
  by_cases hv : ∃ io, input.visitOf i = some (.process io)
  · obtain ⟨io, hv⟩ := hv
    obtain ⟨hcore, _⟩ := processConnection_outcome d.loop io i
    rw [step_of_process hv] at hopen' ⊢
    rw [core_lastActive hcore]
    rcases hmove with hold | ⟨io', hv', rfl⟩
    · have hnow := ht io.now (reading_of_process hv) i m hold
      have hbefore : (d.loop.conn i).state ≠ .closed := by
        intro hc
        apply hopen'
        unfold processConnection
        dsimp only
        rw [if_pos (by simp [isClosed, hc])]
        exact hc
      rcases advance_lastActive io d.loop.tlsCtx d.loop.fileServer (d.loop.conn i) with hl | hl
      · rw [hl]
        exact h i hbefore m hold hreading
      · rw [hl]
        exact hnow
    · rw [hv] at hv'
      cases hv'
      have hreads : (d.loop.conn i).Reads := of_decide_eq_true hreading
      exact le_of_eq (hreads.lastActive io _ _).symm
  · push Not at hv
    have hremains : d.loop.Remains i input := ⟨hopen', hacquire⟩
    have helse := hremains.elsewhere hv
    rw [core_lastActive helse.conn]
    rcases hmove with hold | ⟨io, hv', _⟩
    · apply h i _ m hold hreading
      rw [← core_state helse.conn]
      exact hopen'
    · exact (hv io hv').elim

/-- Where the calls of `do_read` are marked and the others settled, only idle connections are
closed. -/
theorem Diary.Marked.closesIdle (h : d.Marked) (hs : d.Settled input) : d.ClosesIdle input := by
  unfold ClosesIdle
  split
  · next io =>
    intro i hopen hclosed m hm
    obtain ⟨hreach, hexp⟩ := timerLoop_closes io.clock (maxConnections + 1)
      (R := d.loop.links.Reaches) (fun y z hy hz => hy.next hz) (fun k hk => .head hk) hopen hclosed
    have hexp' : d.loop.keepAliveTimeout * 1000000000 <
        io.clock i - (d.loop.conn i).lastActive := of_decide_eq_true hexp
    unfold patience
    cases hr : m.reading with
    | true =>
      have hmark := h i hopen m hm hr
      omega
    | false =>
      have hset := hs i hreach m hm hr
      unfold patience at hset
      omega
  · trivial

/-- An event loop at its start. -/
def opened (server : FileServer) (timeout : Int) (tls : Bool) : Diary :=
  ⟨create server timeout tls, fun _ => []⟩

/-- In a run whose clock never runs backwards, the timer closes idle connections only, as long as
it comes by no connection in the meantime between the end of the time that its last `do_read` has
marked and that of a later call that moved bytes. -/
theorem timer_closes_idle (server : FileServer) (timeout : Int) (tls : Bool)
    (hclock : (inputs.filterMap Input.reading).Pairwise (· ≤ ·))
    (h : Run.Along Diary.step Diary.Settled (opened server timeout tls) inputs) :
    Run.Along Diary.step Diary.ClosesIdle (opened server timeout tls) inputs := by
  have htime : Run.Along Diary.step Diary.OnTime (opened server timeout tls) inputs :=
    along_onTime hclock fun _ _ _ _ hm => (List.not_mem_nil hm).elim
  have hopened : (opened server timeout tls).Marked := fun i _ m hm => (List.not_mem_nil hm).elim
  apply Run.along_of_along _ hopened (htime.and h)
  exact fun d input hd hg => ⟨hd.step hg.1, hd.closesIdle hg.2⟩

/-- Nothing is put down for a slot without a call for it. -/
theorem moves_of_no_visit (hd : d.moves i = [])
    (h : ∀ input ∈ inputs, ∀ io, input.visitOf i ≠ some (.process io)) :
    (inputs.foldl Diary.step d).moves i = [] := by
  induction inputs generalizing d with
  | nil => exact hd
  | cons input inputs ih =>
    apply ih _ fun input hi => h input (List.mem_cons_of_mem _ hi)
    rw [List.eq_nil_iff_forall_not_mem] at hd ⊢
    intro m hm
    rcases (mem_step_moves hm).2 with hold | ⟨io, hv, _⟩
    · exact hd m hold
    · exact h input List.mem_cons_self io hv

/-- A client whose request is answered at once, before the timer comes by. -/
def servedAtOnce : List Input :=
  round [(⟨false, false, .listener⟩, { accepts := [(5, 0)] })] ++
  round [(⟨false, false, .conn 0⟩, { peek := .done (some 0x47) })] ++
  round [(⟨false, false, .conn 0⟩,
    { now := 1, read := .done getText, headerWrite := .done 1000, bodyWrite := .done 1000 })]

def timerAt (t : Int) : Input := .event ⟨false, false, .timer⟩ { clock := fun _ => t }

theorem timer_closes_idle_at_once :
    Run.Along Diary.step Diary.ClosesIdle (opened ⟨bytes "/srv"⟩ 75 false)
      (servedAtOnce ++ [timerAt 76000000000]) := by
  apply timer_closes_idle
  · decide
  · refine Run.Along.append.2 ⟨⟨trivial, trivial, trivial, trivial, trivial, trivial, trivial⟩,
      fun i _ m hm hr => ?_, trivial⟩
    by_cases hi : i = 0
    · subst hi
      have hall : ∀ m ∈ (servedAtOnce.foldl Diary.step (opened ⟨bytes "/srv"⟩ 75 false)).moves 0,
          m.reading = true := by decide
      rw [hall m hm] at hr
      cases hr
    · rw [moves_of_no_visit rfl] at hm
      · cases hm
      · intro input hinput io hv
        simp only [servedAtOnce, round, List.map_cons, List.map_nil, List.mem_append,
          List.mem_cons, List.not_mem_nil, or_false] at hinput
        rcases hinput with ((rfl | rfl) | rfl | rfl) | rfl | rfl
        all_goals simp [Input.visitOf, Ne.symm hi] at hv

/-- A client that takes its answer after 100 seconds, one second before the timer comes by. -/
def slowReader : List Input :=
  round [(⟨false, false, .listener⟩, { accepts := [(5, 0)] })] ++
  round [(⟨false, false, .conn 0⟩, { peek := .done (some 0x47) })] ++
  round [(⟨false, false, .conn 0⟩, { read := .done getText })] ++
  round [(⟨false, false, .conn 0⟩,
    { now := 100000000000, headerWrite := .done 1000, bodyWrite := .done 1000 })] ++
  round [(⟨false, false, .timer⟩, { clock := fun _ => 101000000000 })]

theorem slow_reader_closed_early :
    (slowReader.filterMap Input.reading).Pairwise (· ≤ ·) ∧
      ¬ Run.Along Diary.step Diary.ClosesIdle (opened ⟨bytes "/srv"⟩ 75 false) slowReader := by
  constructor
  · decide
  · rintro ⟨_, _, _, _, _, _, _, _, _, hidle, _⟩
    have hclosed := hidle 0 (by decide) (by decide) ⟨100000000000, false⟩
      (by decide)
    revert hclosed
    decide

end EventLoop

end FileWebServer
