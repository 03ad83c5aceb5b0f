import FileWebServer.Core.Slots

namespace FileWebServer
namespace EventLoop
set_option autoImplicit true
set_option maxRecDepth 20000
variable {s s' : EventLoop} {i j : Nat}

/-- Every slot has been released at most once for each time it was acquired, and the free part
of the pool's stack is a set of slots. -/
def SlotSafe (s : EventLoop) : Prop :=
  ReleasesOnce s.trace ∧ s.pool.freeHead ≤ maxConnections ∧
    ∀ j k, s.pool.freeHead ≤ j → j < maxConnections → s.pool.freeHead ≤ k → k < maxConnections →
      s.pool.freeList j = s.pool.freeList k → j = k

/-- An input at which no slot is released twice. -/
def FreshInput (s : EventLoop) : Input → Prop
  | .kevent => True
  | .event ev _ => s.Fresh ev

theorem Good.slotSafe {l : List Nat} (h : Good s l) : SlotSafe s :=
  ⟨h.slots.once, h.slots.pool.head_le, h.slots.pool.free_inj⟩

theorem step_good {l : List Nat} {input : Input} (h : Good s l) (hf : s.FreshInput input) :
    ∃ l', Good (s.step input) l' := by
  cases input with
  | kevent => exact ⟨l, h.queue []⟩
  | event ev io => exact dispatch_good io h hf

/-- Releasing a slot that is not in use breaks the count. -/
theorem release_unused (h : SlotInv s) (hi : i < maxConnections) (hnot : ¬ s.pool.InUse i) :
    ¬ SlotSafe (s.destroyConnection i) := by
  rintro ⟨honce, _⟩
  have hle := honce.le i
  have hq := closeActions_poolQuiet (s.conn i)
  rw [destroyConnection_trace, releaseActions, if_pos hi, releases_release, acquires_release,
    hq.releases_eq, hq.acquires_eq, h.free i hnot, if_pos rfl] at hle
  omega

/-- In every run, the slots are safe throughout exactly when each event that ends a connection
finds its slot in use. -/
theorem slotSafe_iff_fresh (server : FileServer) (timeout : Int) (tls : Bool)
    (inputs : List Input) :
    Run.Throughout step SlotSafe (create server timeout tls) inputs ↔
      Run.Along step FreshInput (create server timeout tls) inputs := by
  apply Run.throughout_iff_along (fun s => ∃ l, Good s l)
  · rintro s ⟨l, h⟩
    exact h.slotSafe
  · rintro s input ⟨l, h⟩ hf
    exact step_good h hf
  · rintro s input ⟨l, h⟩ hf
    cases input with
    | kevent => exact (hf trivial).elim
    | event ev io =>
      obtain ⟨i, hs, hi, hnot⟩ := dispatch_not_fresh io hf
      change ¬ SlotSafe (s.dispatch io ev)
      rw [hs]
      exact release_unused h.slots hi hnot
  · exact ⟨[], create_good server timeout tls⟩

/-- A client whose connection waits for a next request. It began with a TLS record although the
server speaks none, and has been told so. -/
def waitingClient : List Input :=
  round [(⟨false, false, .listener⟩, { accepts := [(5, 0)] })] ++
    round [(⟨false, false, .conn 0⟩, { peek := .done (some 0x16) })] ++
    round [(⟨false, false, .conn 0⟩, { headerWrite := .done 4096, bodyWrite := .done 4096 })]

/-- The connection expires and its peer closes it, in one batch. -/
def expiryThenEof : List Input :=
  waitingClient ++
    round [(⟨false, false, .timer⟩, { clock := fun _ => 76000000000 }),
      (⟨false, true, .conn 0⟩, {})]

theorem expiry_then_eof_releases_twice :
    ¬ SlotSafe (expiryThenEof.foldl step (create ⟨bytes "/srv"⟩ 75 false)) := by
  rintro ⟨honce, _⟩
  exact absurd (honce.le 0) (by decide)

/-- Every slot in use holds an open connection. -/
def Tight (s : EventLoop) : Prop := ∀ i, s.pool.InUse i → (s.conn i).state ≠ .closed

/-- The number of open connections. -/
def liveCount (s : EventLoop) : Nat :=
  ((Finset.range maxConnections).filter fun i => (s.conn i).state ≠ .closed).card

/-- No slot is in use without an open connection, and the pool's count is right. -/
def NoSlotLost (s : EventLoop) : Prop := Tight s ∧ s.pool.activeCount = s.liveCount

theorem Good.noSlotLost {l : List Nat} (h : Good s l) (ht : Tight s) : NoSlotLost s := by
  refine ⟨ht, ?_⟩
  have hset : (Finset.range maxConnections).filter (fun i => (s.conn i).state ≠ .closed) =
      Finset.range maxConnections \ s.pool.freePart := by
    ext i
    rw [← ConnectionPool.inUse_iff, Finset.mem_filter, Finset.mem_range]
    constructor
    · exact fun hi => h.slots.live i hi.2
    · exact fun hi => ⟨hi.1, ht i hi⟩
  rw [liveCount, hset, h.slots.pool.card_inUse, h.slots.pool.active]

theorem destroyConnection_inUse (h : SlotInv s) (hi : s.pool.InUse i) :
    (s.destroyConnection i).pool.InUse j ↔ s.pool.InUse j ∧ j ≠ i :=
  (destroyConnection_slots s i).inUse.trans (ConnectionPool.release_inUse h.pool hi j)

/-- Destroying a connection leaves the others as they were. -/
theorem Tight.destroy (h : SlotInv s) (hi : s.pool.InUse i)
    (ht : ∀ j, j ≠ i → s.pool.InUse j → (s.conn j).state ≠ .closed) :
    Tight (s.destroyConnection i) := by
  intro j hj
  obtain ⟨hju, hji⟩ := (destroyConnection_inUse h hi).1 hj
  rw [destroyConnection_state, if_neg hji]
  exact ht j hji hju

theorem Tight.create {l : List Nat} {fd now : Int} (h : Good s l) (ht : Tight s)
    (hc : s.createConnection fd now = (s', some i)) : Tight s' := by
  obtain ⟨pool, ha, rfl⟩ := createConnection_some hc
  intro j hj
  have hju := (ConnectionPool.acquire_inUse h.slots.pool ha j).1 hj
  obtain ⟨_, _, rfl⟩ := ConnectionPool.acquire_some ha
  rw [conn_addEvents, conn_setConn]
  split
  · exact State.noConfusion
  · next hji =>
    rcases hju with hji' | hju
    · exact (hji hji').elim
    · exact ht j hju

theorem Tight.of_core (ht : Tight s) (h : s'.core = s.core) : Tight s' := by
  intro i hi
  rw [Connection.core_state (core_conn h i)]
  exact ht i ((core_slots h).inUse.1 hi)

theorem updateEvents_conn (s : EventLoop) (i j : Nat) (want : Want) :
    (s.updateEvents i want).conn j = s.conn j := by
  unfold updateEvents
  dsimp only
  split <;> rfl

theorem updateEvents_pool (s : EventLoop) (i : Nat) (want : Want) :
    (s.updateEvents i want).pool = s.pool := by
  unfold updateEvents
  dsimp only
  split <;> rfl

/-- An input at which no slot is released twice, and at which no answer that is sent as soon as
it is built meets an error. -/
def AnswerInput (s : EventLoop) (input : Input) : Prop :=
  s.FreshInput input ∧
    match input with
    | .kevent => True
    | .event ev io =>
      ∀ i, ¬ (ev.error ∨ ev.eof) → ev.udata = .conn i → (s.conn i).state ≠ .closed →
        ¬ Connection.stateFails io (s.conn i) →
        ¬ Connection.inlineFails io s.tlsCtx s.fileServer (s.conn i)

/-- The state of every connection after `process_connection` has come to its end. -/
theorem processed_state {r : Outcome} {prev : State} :
    ((((s.writeBack i r).syncKeepaliveList i prev).updateEvents i r.want).conn j).state =
      if j = i then r.conn.state else (s.conn j).state := by
  rw [updateEvents_conn, Connection.core_state (core_conn (syncKeepaliveList_core _ i prev) j),
    conn_writeBack]
  split <;> rfl

theorem processed_slots {r : Outcome} {prev : State} : ConnectionPool.SameSlots
    (((s.writeBack i r).syncKeepaliveList i prev).updateEvents i r.want).pool s.pool := by
  rw [updateEvents_pool]
  obtain ⟨hh, hl, ha⟩ := core_slots (syncKeepaliveList_core (s.writeBack i r) i prev)
  exact ⟨hh, hl, ha⟩

theorem Tight.process {l : List Nat} (io : Io) (i : Nat) (h : Good s l) (ht : Tight s)
    (hf : (s.conn i).state ≠ .closed → ¬ Connection.stateFails io (s.conn i) →
      ¬ Connection.inlineFails io s.tlsCtx s.fileServer (s.conn i)) :
    Tight (s.processConnection io i) := by
  rcases processConnection_cases s io i with
    ⟨_, hp⟩ | ⟨hlive, _, r, hr, hp⟩ | ⟨hlive, hs, r, _, hr, hp⟩
  · rw [hp]
    exact ht
  · rw [hp]
    have hu := h.slots.live i hlive
    refine Tight.destroy (h.slots.step hu (.of_hung hr.traffic)) hu fun j hji hju => ?_
    rw [conn_writeBack, if_neg hji]
    exact ht j hju
  · rw [hp]
    intro j hj
    rw [processed_state]
    split
    · exact fun hcl => hf hlive hs (hr.closed_iff.1 hcl)
    · exact ht j (processed_slots.inUse.1 hj)

theorem step_tight {l : List Nat} {input : Input} (h : Good s l) (ht : Tight s)
    (hg : s.AnswerInput input) : Tight (s.step input) := by
  obtain ⟨hfresh, hans⟩ := hg
  cases input with
  | kevent => exact ht
  | event ev io =>
    change Tight (s.dispatch io ev)
    unfold dispatch
    split
    · next hend =>
      cases hu : ev.udata with
      | conn i =>
        by_cases hi : i < maxConnections
        · exact Tight.destroy h.slots (hfresh i hend hu hi) (fun j _ => ht j)
        · intro j hj
          have hslots := destroyConnection_slots s i
          rw [ConnectionPool.release, if_pos (Nat.le_of_not_lt hi)] at hslots
          have hju := hslots.inUse.1 hj
          have hji : j ≠ i := fun he => hi (he ▸ hju.1)
          rw [destroyConnection_state, if_neg hji]
          exact ht j hju
      | null => exact ht
      | listener => exact ht
      | timer => exact ht
    · next hend =>
      cases hu : ev.udata with
      | conn i => exact ht.process io i h (hans i hend hu)
      | null => exact ht
      | listener =>
        refine (acceptLoop_rule (Q := fun _ => Tight) ?_ ?_ h ht).2
        · intro s s' l i fd now rest h ht hc
          exact Tight.create (h.log (fun i => by simp [traffic, Action.isTraffic])) ht hc
        · exact fun s l fd now rest _ ht => ht
      | timer =>
        refine (handleTimer_rule (Q := fun _ => Tight) io ?_ ?_ h ht).2
        · exact fun s kept i rest h hu _ ht => Tight.destroy h.slots hu (fun j _ => ht j)
        · exact fun s kept i rest _ _ ht => ht

theorem sizeDec_ne (n : Nat) : sizeDec n ≠ n := by
  unfold sizeDec
  omega

/-- Releasing a slot that is not in use breaks the number of active connections. -/
theorem release_unused_count {l : List Nat} (h : Good s l) (ht : Tight s)
    (hi : i < maxConnections) (hnot : ¬ s.pool.InUse i) :
    ¬ NoSlotLost (s.destroyConnection i) := by
  rintro ⟨_, hcount⟩
  have hclosed : (s.conn i).state = .closed := by
    by_contra hc
    exact hnot (h.slots.live i hc)
  have hlive : (s.destroyConnection i).liveCount = s.liveCount := by
    refine congrArg Finset.card (Finset.filter_congr fun j _ => ?_)
    rw [destroyConnection_state]
    split
    · next hji => simp [hji, hclosed]
    · rfl
  have hactive : (s.destroyConnection i).pool.activeCount = sizeDec s.pool.activeCount := by
    rw [(destroyConnection_slots s i).active, ConnectionPool.release,
      if_neg (Nat.not_le_of_lt hi)]
  rw [hlive, hactive, ← (h.noSlotLost ht).2] at hcount
  exact sizeDec_ne _ hcount

/-- An answer that meets an error leaves a slot in use by a closed connection. -/
theorem slotLost_of_unanswered {l : List Nat} {input : Input} (h : Good s l)
    (hf : s.FreshInput input) (hg : ¬ s.AnswerInput input) : ¬ NoSlotLost (s.step input) := by
  simp only [AnswerInput, hf, true_and] at hg
  cases input with
  | kevent => exact (hg trivial).elim
  | event ev io =>
    simp only [not_forall, not_not] at hg
    obtain ⟨i, hend, hu, hlive, hs, hfails⟩ := hg
    have hstep : s.step (.event ev io) = s.processConnection io i := by
      change s.dispatch io ev = _
      rw [dispatch, if_neg hend, hu]
    rintro ⟨hn, _⟩
    rw [hstep] at hn
    rcases processConnection_cases s io i with
      ⟨hc, _⟩ | ⟨_, hs', _⟩ | ⟨_, _, r, _, hr, hp⟩
    · exact hlive hc
    · exact hs hs'
    · rw [hp] at hn
      apply hn i (processed_slots.inUse.2 (h.slots.live i hlive))
      rw [processed_state, if_pos rfl]
      exact hr.closed_iff.2 hfails

/-- A slot that is released twice is lost or handed out twice. -/
theorem slotLost_of_not_fresh {l : List Nat} {input : Input} (h : Good s l) (ht : Tight s)
    (hf : ¬ s.FreshInput input) : ¬ NoSlotLost (s.step input) := by
  cases input with
  | kevent => exact (hf trivial).elim
  | event ev io =>
    obtain ⟨i, hs, hi, hnot⟩ := dispatch_not_fresh io hf
    change ¬ NoSlotLost (s.dispatch io ev)
    rw [hs]
    exact release_unused_count h ht hi hnot

/-- In every run, no slot is lost throughout exactly when no slot is released twice and no answer
that is sent as soon as it is built meets an error. -/
theorem noSlotLost_iff_answers (server : FileServer) (timeout : Int) (tls : Bool)
    (inputs : List Input) :
    Run.Throughout step NoSlotLost (create server timeout tls) inputs ↔
      Run.Along step AnswerInput (create server timeout tls) inputs := by
  apply Run.throughout_iff_along (fun s => ∃ l, Good s l ∧ Tight s)
  · rintro s ⟨l, h, ht⟩
    exact h.noSlotLost ht
  · rintro s input ⟨l, h, ht⟩ hg
    obtain ⟨l', h'⟩ := step_good h hg.1
    exact ⟨l', h', step_tight h ht hg⟩
  · rintro s input ⟨l, h, ht⟩ hg
    by_cases hf : s.FreshInput input
    · exact slotLost_of_unanswered h hf hg
    · exact slotLost_of_not_fresh h ht hf
  · exact ⟨[], create_good server timeout tls, fun i hi =>
      (ConnectionPool.not_inUse_create _ i hi).elim⟩

/-- An input that ends no connection from outside. -/
def Input.isPlain : Input → Bool
  | .kevent => true
  | .event ev _ => !ev.error && !ev.eof

theorem fresh_of_plain {ev : Kevent} (he : ev.error = false) (hf : ev.eof = false) :
    s.Fresh ev := by
  rintro i (h | h)
  · rw [he] at h
    cases h
  · rw [hf] at h
    cases h

theorem run_good_of_plain {l : List Nat} (inputs : List Input) (h : Good s l)
    (hp : inputs.all Input.isPlain = true) : ∃ l', Good (inputs.foldl step s) l' := by
  induction inputs generalizing s l with
  | nil => exact ⟨l, h⟩
  | cons input inputs ih =>
    obtain ⟨hi, hrest⟩ := Bool.and_eq_true_iff.1 hp
    have hf : s.FreshInput input := by
      cases input with
      | kevent => trivial
      | event ev io =>
        simp only [Input.isPlain, Bool.and_eq_true, Bool.not_eq_true'] at hi
        exact fresh_of_plain hi.1 hi.2
    obtain ⟨l', h'⟩ := step_good h hf
    exact ih h' hrest

/-- A request is answered at once, and the write of the answer fails. -/
def failedAnswer : List Input :=
  round [(⟨false, false, .listener⟩, { accepts := [(5, 0)] })] ++
    round [(⟨false, false, .conn 0⟩, { peek := .done (some 0x47) })] ++
    round [(⟨false, false, .conn 0⟩, {
      read := .done (bytes "GET / HTTP/1.1\r\nHost: a\r\n\r\n")
      headerWrite := .error })]

theorem failed_answer_loses_slot :
    ¬ NoSlotLost (failedAnswer.foldl step (create ⟨bytes "/srv"⟩ 75 false)) := by
  rintro ⟨ht, _⟩
  obtain ⟨l, h⟩ := run_good_of_plain failedAnswer (create_good ⟨bytes "/srv"⟩ 75 false) (by decide)
  have hu : (failedAnswer.foldl step (create ⟨bytes "/srv"⟩ 75 false)).pool.InUse 0 := by
    by_contra hn
    exact absurd (h.slots.free 0 hn) (by decide)
  exact ht 0 hu (by decide)

/-- The tenant of a slot, told from earlier ones by the number of times the slot was acquired. -/
def tenant (s : EventLoop) (i : Nat) : Nat := acquires s.trace i

theorem releaseActions_acquires (t : List Action) (i j : Nat) :
    acquires (t ++ releaseActions i) j = acquires t j := by
  unfold releaseActions
  split
  · exact acquires_release t i j
  · rw [List.append_nil]

theorem destroyConnection_tenant (s : EventLoop) (i j : Nat) :
    (s.destroyConnection i).tenant j = s.tenant j := by
  rw [tenant, destroyConnection_trace, releaseActions_acquires,
    (closeActions_poolQuiet (s.conn i)).acquires_eq, tenant]

theorem updateEvents_trace (s : EventLoop) (i : Nat) (want : Want) :
    (s.updateEvents i want).trace = s.trace := by
  unfold updateEvents
  dsimp only
  split <;> rfl

theorem processed_trace {r : Outcome} {prev : State} :
    (((s.writeBack i r).syncKeepaliveList i prev).updateEvents i r.want).trace =
      s.trace ++ r.actions := by
  rw [updateEvents_trace, core_trace (syncKeepaliveList_core (s.writeBack i r) i prev)]
  rfl

theorem Ends.poolQuiet {fails : Prop} {c : Connection} {r : Outcome}
    (h : Connection.Ends fails c r) : PoolQuiet r.actions := by
  rcases h with ⟨_, h⟩ | ⟨_, h⟩
  · exact .of_hung h.traffic
  · exact .of_traffic h.quiet

theorem processConnection_tenant (s : EventLoop) (io : Io) (i j : Nat) :
    (s.processConnection io i).tenant j = s.tenant j := by
  rcases processConnection_cases s io i with
    ⟨_, hp⟩ | ⟨_, _, r, hr, hp⟩ | ⟨_, _, r, _, hr, hp⟩
  · rw [hp]
  · rw [hp, destroyConnection_tenant]
    exact (PoolQuiet.of_hung hr.traffic).acquires_eq s.trace j
  · rw [hp, tenant, processed_trace, (Ends.poolQuiet hr).acquires_eq, tenant]

/-- The connections that `process_connection` leaves open. -/
theorem processConnection_closed_iff (s : EventLoop) (io : Io) (i j : Nat)
    (hj : (s.conn j).state ≠ .closed) :
    ((s.processConnection io i).conn j).state = .closed ↔
      j = i ∧ (Connection.stateFails io (s.conn i) ∨
        Connection.inlineFails io s.tlsCtx s.fileServer (s.conn i)) := by
  rcases processConnection_cases s io i with
    ⟨hc, hp⟩ | ⟨_, hs, r, hr, hp⟩ | ⟨_, hs, r, _, hr, hp⟩
  · rw [hp]
    refine iff_of_false hj ?_
    rintro ⟨rfl, _⟩
    exact hj hc
  · rw [hp, destroyConnection_state, conn_writeBack]
    by_cases hji : j = i
    · rw [if_pos hji]
      exact iff_of_true rfl ⟨hji, .inl hs⟩
    · rw [if_neg hji, if_neg hji]
      exact iff_of_false hj (fun h => hji h.1)
  · rw [hp, processed_state]
    by_cases hji : j = i
    · rw [if_pos hji, hr.closed_iff]
      simp [hji, hs]
    · rw [if_neg hji]
      exact iff_of_false hj (fun h => hji h.1)

/-- An event that was collected in the state `s₀`, and is dispatched in a later one, leaves every
other connection open than the one it was collected for. -/
def Isolates (s₀ s : EventLoop) : Input → Prop
  | .kevent => True
  | .event ev io =>
    ∀ i, ev.udata = .conn i → ∀ j, (s.conn j).state ≠ .closed →
      ¬ (j = i ∧ s.tenant i = s₀.tenant i) →
      ((s.dispatch io ev).conn j).state ≠ .closed ∧ (s.dispatch io ev).tenant j = s.tenant j

/-- Where the slot of an event has got another tenant since, the event is no end of a connection
and the new tenant's own calls do not fail. -/
def Spares (s₀ s : EventLoop) : Input → Prop
  | .kevent => True
  | .event ev io =>
    ∀ i, ev.udata = .conn i → (s.conn i).state ≠ .closed → s.tenant i ≠ s₀.tenant i →
      ¬ (ev.error ∨ ev.eof) ∧ ¬ Connection.stateFails io (s.conn i) ∧
        ¬ Connection.inlineFails io s.tlsCtx s.fileServer (s.conn i)

theorem dispatch_conn {ev : Kevent} (io : Io) (hu : ev.udata = .conn i) : s.dispatch io ev =
    if ev.error ∨ ev.eof then s.destroyConnection i else s.processConnection io i := by
  unfold dispatch
  rw [hu]

/-- An event that carries a connection hands out no slot. -/
theorem dispatch_conn_tenant {ev : Kevent} (io : Io) (hu : ev.udata = .conn i) (j : Nat) :
    (s.dispatch io ev).tenant j = s.tenant j := by
  rw [dispatch_conn io hu]
  split
  · exact destroyConnection_tenant s i j
  · exact processConnection_tenant s io i j

theorem dispatch_conn_closed_iff {ev : Kevent} (io : Io) (hu : ev.udata = .conn i)
    (hj : (s.conn j).state ≠ .closed) : ((s.dispatch io ev).conn j).state = .closed ↔
      j = i ∧ ((ev.error ∨ ev.eof) ∨ Connection.stateFails io (s.conn i) ∨
        Connection.inlineFails io s.tlsCtx s.fileServer (s.conn i)) := by
  rw [dispatch_conn io hu]
  split
  · next hend =>
    rw [destroyConnection_state]
    by_cases hji : j = i
    · rw [if_pos hji]
      exact iff_of_true rfl ⟨hji, .inl hend⟩
    · rw [if_neg hji]
      exact iff_of_false hj (fun h => hji h.1)
  · next hend => rw [processConnection_closed_iff s io i j hj, or_iff_right hend]

theorem isolates_iff (s₀ s : EventLoop) (input : Input) :
    Isolates s₀ s input ↔ Spares s₀ s input := by
  cases input with
  | kevent => exact Iff.rfl
  | event ev io =>
    constructor
    · intro h i hu hlive hne
      obtain ⟨hopen, _⟩ := h i hu i hlive (fun he => hne he.2)
      rw [Ne, dispatch_conn_closed_iff io hu hlive] at hopen
      tauto
    · intro h i hu j hj hother
      refine ⟨?_, dispatch_conn_tenant io hu j⟩
      rw [Ne, dispatch_conn_closed_iff io hu hj]
      rintro ⟨rfl, hfails⟩
      have hne : s.tenant j ≠ s₀.tenant j := fun he => hother ⟨rfl, he⟩
      obtain ⟨hend, hs, hi⟩ := h j hu hj hne
      tauto

/-- In every state and for every batch, no event of the batch ends another connection than its
own exactly when each event that meets a new tenant spares it. -/
theorem isolated_iff_spared (s₀ : EventLoop) (batch : List (Kevent × Io)) :
    Run.Along step (Isolates s₀) s₀ (round batch) ↔ Run.Along step (Spares s₀) s₀ (round batch) :=
  Run.Along.congr (isolates_iff s₀)

/-- A connection expires, its slot goes to a new client, and the peer of the expired one has
closed it: all in one batch. -/
def expiryReuseEof : List (Kevent × Io) :=
  [(⟨false, false, .timer⟩, { clock := fun _ => 76000000000 }),
    (⟨false, false, .listener⟩, { accepts := [(6, 76000000000)] }),
    (⟨false, true, .conn 0⟩, {})]

theorem stale_eof_ends_new_tenant :
    ¬ Run.Along step
      (Isolates (waitingClient.foldl step (create ⟨bytes "/srv"⟩ 75 false)))
      (waitingClient.foldl step (create ⟨bytes "/srv"⟩ 75 false)) (round expiryReuseEof) := by
  rintro ⟨_, _, _, heof, _⟩
  exact (heof 0 rfl 0 (by decide) (by decide)).1 (by decide)

end EventLoop

end FileWebServer
