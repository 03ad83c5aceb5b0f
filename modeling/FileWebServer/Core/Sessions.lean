import FileWebServer.Lib.Simulation
import FileWebServer.Core.Histories
import FileWebServer.Core.Phases

namespace FileWebServer
open Simulation
set_option autoImplicit true
set_option maxRecDepth 20000

/-- The server as its clients see it: the sessions that it has, each at some place. -/
abbrev Sessions := Nat → Option Phase

namespace Sessions
variable {σ σ' : Sessions} {i j n : Nat} {p q : Option Phase}

/-- The places that are free. -/
def vacant (σ : Sessions) : Finset Nat := (Finset.range maxConnections).filter fun i => σ i = none

/-- New sessions are begun at some places. -/
def greet (σ : Sessions) (new : Finset Nat) : Sessions :=
  fun i => if i ∈ new then some .greeting else σ i

/-- What the server is told: that clients have arrived, what time it is for the sessions, that a
session may go on, or that a client is gone. -/
inductive Label where
  | rest
  | arrivals (n : Nat)
  | tick (expired : Nat → Bool)
  | call (i : Nat)
  | hangUp (i : Nat)

/-- What a call may make of a place. -/
inductive Follows : Option Phase → Option Phase → Prop
  | vacant : Follows none none
  | goes {p q : Phase} : q ∈ p.next → Follows (some p) (some q)
  | ends {p : Phase} : p.ends = true → Follows (some p) none

/-- The session at a place has gone on along the phases, if there was one. -/
def GoesOn (i : Nat) (σ σ' : Sessions) : Prop :=
  ∀ p, σ i = some p → ∃ q, σ' i = some q ∧ Relation.ReflTransGen (fun p q => q ∈ p.next) p q

/-- What the server promises. It takes in as many clients as it has room for; the time ends the
expired sessions that are idle, and no others; a call leads the one session that it is for along
the phases or ends it; a client that is gone has no session. -/
inductive Honours : Sessions → Label → Sessions → Prop
  | rest (σ : Sessions) : Honours σ .rest σ
  | arrivals {σ : Sessions} {n : Nat} (new : Finset Nat) : new ⊆ σ.vacant →
    new.card = min n σ.vacant.card → Honours σ (.arrivals n) (σ.greet new)
  | tick (σ : Sessions) (expired : Nat → Bool) :
    Honours σ (.tick expired) fun i => if σ i = some .idle ∧ expired i = true then none else σ i
  | call {σ : Sessions} {i : Nat} {p : Option Phase} : Follows (σ i) p →
    Honours σ (.call i) (Function.update σ i p)
  | hangUp (σ : Sessions) (i : Nat) : Honours σ (.hangUp i) (Function.update σ i none)

theorem mem_vacant : i ∈ σ.vacant ↔ i < maxConnections ∧ σ i = none := by
  rw [vacant, Finset.mem_filter, Finset.mem_range]

theorem greet_empty (σ : Sessions) : σ.greet ∅ = σ := by
  funext i
  exact if_neg (Finset.notMem_empty i)

theorem honours_none (σ : Sessions) : Honours σ (.arrivals 0) σ := by
  have h := Honours.arrivals (n := 0) ∅ (Finset.empty_subset σ.vacant) (by simp)
  rwa [greet_empty] at h

theorem honours_full (h : σ.vacant = ∅) (n : Nat) : Honours σ (.arrivals n) σ := by
  have hs := Honours.arrivals (n := n) ∅ (Finset.empty_subset σ.vacant) (by simp [h])
  rwa [greet_empty] at hs

theorem vacant_update (p : Phase) :
    vacant (Function.update σ i (some p)) = σ.vacant.erase i := by
  ext j
  rw [Finset.mem_erase, mem_vacant, mem_vacant]
  by_cases hji : j = i
  · subst hji
    rw [Function.update_self]
    simp
  · rw [Function.update_of_ne hji]
    simp [hji]

/-- Clients are taken in one by one. -/
theorem honours_cons (hi : i ∈ σ.vacant)
    (h : Honours (Function.update σ i (some .greeting)) (.arrivals n) σ') :
    Honours σ (.arrivals (n + 1)) σ' := by
  cases h with
  | arrivals new hnew hcard =>
    rw [vacant_update] at hnew hcard
    have hni : i ∉ new := fun hmem => Finset.notMem_erase i _ (hnew hmem)
    have hgreet : greet (Function.update σ i (some .greeting)) new = σ.greet (insert i new) := by
      funext j
      unfold greet
      by_cases hji : j = i
      · subst hji
        rw [if_neg hni, Function.update_self, if_pos (Finset.mem_insert_self _ _)]
      · rw [Function.update_of_ne hji]
        simp [hji]
    rw [hgreet]
    apply Honours.arrivals
    · exact Finset.insert_subset hi (hnew.trans (Finset.erase_subset i _))
    · have hpos := Finset.card_pos.2 ⟨i, hi⟩
      rw [Finset.card_insert_of_notMem hni, hcard, Finset.card_erase_of_mem hi]
      omega

theorem GoesOn.refl (σ : Sessions) : GoesOn i σ σ := fun p hp => ⟨p, hp, .refl⟩

theorem GoesOn.trans (σ σ' σ'' : Sessions) (h : GoesOn i σ σ') (h' : GoesOn i σ' σ'') :
    GoesOn i σ σ'' := by
  intro p hp
  obtain ⟨q, hq, hpq⟩ := h p hp
  obtain ⟨r, hr, hqr⟩ := h' q hq
  exact ⟨r, hr, hpq.trans hqr⟩

/-- A step that leaves a session where it is, or leads it on. -/
theorem GoesOn.of_eq (h : σ' i = σ i) : GoesOn i σ σ' := fun p hp => ⟨p, h.trans hp, .refl⟩

/-- As long as a session is not ended, all that the server does leads it along the phases. -/
theorem Honours.goesOn {k : Label} (h : Honours σ k σ') (hi : σ' i ≠ none) : GoesOn i σ σ' := by
  cases h with
  | rest => exact .refl σ
  | arrivals new hnew hcard =>
    intro p hp
    have hni : i ∉ new := by
      intro hmem
      rw [(mem_vacant.1 (hnew hmem)).2] at hp
      cases hp
    exact ⟨p, (if_neg hni).trans hp, .refl⟩
  | tick expired =>
    apply GoesOn.of_eq
    apply if_neg
    intro hgone
    exact hi (if_pos hgone)
  | @call j p hf =>
    by_cases hij : i = j
    · subst hij
      rw [Function.update_self] at hi
      intro p' hp'
      rw [hp'] at hf
      cases hf with
      | goes hnext => exact ⟨_, Function.update_self .., .single hnext⟩
      | ends hends => exact (hi rfl).elim
    · exact .of_eq (Function.update_of_ne hij ..)
  | hangUp j =>
    by_cases hij : i = j
    · subst hij
      exact (hi (Function.update_self ..)).elim
    · exact .of_eq (Function.update_of_ne hij ..)

end Sessions

namespace EventLoop
open Connection Sessions
variable {s s' : EventLoop} {i j : Nat} {l : List Nat} {input : Input} {p : Phase}

open Classical in
/-- The sessions of an event loop: those of the slots that are in use. -/
noncomputable def sessions (s : EventLoop) : Sessions :=
  fun i => if s.pool.InUse i then some (s.conn i).state.phase else none

/-- What an input tells the server. -/
def Input.label (s : EventLoop) : Input → Label
  | .kevent => .rest
  | .event ev io =>
    if ev.error ∨ ev.eof then
      match ev.udata with
      | .conn i => .hangUp i
      | _ => .rest
    else match ev.udata with
      | .listener => .arrivals io.accepts.length
      | .timer => .tick (s.timedOut io.clock)
      | .conn i => .call i
      | .null => .rest

theorem sessions_some (h : s.pool.InUse i) : s.sessions i = some (s.conn i).state.phase := if_pos h

theorem sessions_eq_none : s.sessions i = none ↔ ¬ s.pool.InUse i := by
  unfold sessions
  split
  · next h => simp [h]
  · next h => simp [h]

theorem sessions_congr (hu : s'.pool.InUse i ↔ s.pool.InUse i)
    (hs : s.pool.InUse i → (s'.conn i).state = (s.conn i).state) :
    s'.sessions i = s.sessions i := by
  by_cases h : s.pool.InUse i
  · rw [sessions_some h, sessions_some (hu.2 h), hs h]
  · rw [sessions_eq_none.2 h, sessions_eq_none.2 fun h' => h (hu.1 h')]

theorem sessions_create (server : FileServer) (timeout : Int) (tls : Bool) :
    (create server timeout tls).sessions = fun _ => none := by
  funext i
  exact sessions_eq_none.2 (ConnectionPool.not_inUse_create _ i)

theorem SlotInv.destroy_sessions (h : SlotInv s) (hi : s.pool.InUse i) :
    (s.destroyConnection i).sessions = Function.update s.sessions i none := by
  funext j
  have huse : (s.destroyConnection i).pool.InUse j ↔ s.pool.InUse j ∧ j ≠ i :=
    destroyConnection_inUse h hi
  by_cases hji : j = i
  · subst hji
    rw [Function.update_self]
    exact sessions_eq_none.2 fun hu => (huse.1 hu).2 rfl
  · rw [Function.update_of_ne hji]
    apply sessions_congr
    · exact huse.trans (and_iff_left hji)
    · intro _
      rw [destroyConnection_state, if_neg hji]

/-- A pointer from outside the pool is that of no session. -/
theorem destroy_sessions_outside (hi : maxConnections ≤ i) :
    (s.destroyConnection i).sessions = Function.update s.sessions i none := by
  have hout : ¬ s.pool.InUse i := fun hu => absurd hu.1 (Nat.not_lt_of_le hi)
  have hrelease : s.pool.release i = s.pool := if_pos hi
  have huse (j : Nat) : (s.destroyConnection i).pool.InUse j ↔ s.pool.InUse j := by
    rw [(destroyConnection_slots s i).inUse, hrelease]
  funext j
  by_cases hji : j = i
  · subst hji
    rw [Function.update_self]
    exact sessions_eq_none.2 fun hu => hout ((huse j).1 hu)
  · rw [Function.update_of_ne hji]
    apply sessions_congr (huse j)
    intro _
    rw [destroyConnection_state, if_neg hji]

theorem SlotInv.create_sessions {fd now : Int} (h : SlotInv s)
    (hc : s.createConnection fd now = (s', some i)) :
    i ∈ s.sessions.vacant ∧ s'.sessions = Function.update s.sessions i (some .greeting) := by
  have hconn := fun j => createConnection_conn (j := j) hc
  obtain ⟨pool, ha, hs'⟩ := createConnection_some hc
  have huse : ∀ j, s'.pool.InUse j ↔ j = i ∨ s.pool.InUse j := by
    intro j
    rw [hs']
    exact ConnectionPool.acquire_inUse h.pool ha j
  have hiu : s'.pool.InUse i := (huse i).2 (.inl rfl)
  refine ⟨mem_vacant.2 ⟨hiu.1, sessions_eq_none.2 (ConnectionPool.acquire_fresh ha)⟩, ?_⟩
  funext j
  by_cases hji : j = i
  · subst hji
    rw [Function.update_self, sessions_some hiu, hconn, if_pos rfl]
    rfl
  · rw [Function.update_of_ne hji]
    apply sessions_congr
    · rw [huse]
      exact or_iff_right hji
    · intro _
      rw [hconn, if_neg hji]

/-- A pool without a free slot has no room for a session. -/
theorem vacant_empty (hfull : maxConnections ≤ s.pool.freeHead) :
    s.sessions.vacant = ∅ := by
  apply Finset.eq_empty_of_forall_notMem
  intro i hi
  obtain ⟨hlt, hnone⟩ := mem_vacant.1 hi
  refine sessions_eq_none.1 hnone ⟨hlt, fun k hk hlt' => ?_⟩
  omega

theorem Good.acceptLoop_honours (fds : List (Nat × Int)) (h : Good s l) :
    Honours s.sessions (.arrivals fds.length) (s.acceptLoop fds).sessions := by
  induction fds generalizing s with
  | nil => exact honours_none _
  | cons p fds ih =>
    obtain ⟨fd, now⟩ := p
    have hlog : Good (s.log [.accept fd]) l := h.log fun i => by simp [traffic, Action.isTraffic]
    unfold acceptLoop
    split
    · next s' hc =>
      have hfull : maxConnections ≤ (s.log [.accept fd]).pool.freeHead := createConnection_full hc
      rw [createConnection_none hc]
      exact honours_full (vacant_empty hfull) _
    · next s' i hc =>
      obtain ⟨hi, hs⟩ := hlog.slots.create_sessions hc
      have hrest := ih (hlog.create hc)
      rw [hs] at hrest
      exact honours_cons hi hrest

theorem Good.destroyAll_sessions {gone : List Nat} (h : Good s l) (hnd : gone.Nodup)
    (hu : ∀ i ∈ gone, s.pool.InUse i) : (gone.foldl destroyConnection s).sessions =
      fun i => if i ∈ gone then none else s.sessions i := by
  induction gone generalizing s l with
  | nil =>
    funext i
    exact (if_neg List.not_mem_nil).symm
  | cons j gone ih =>
    obtain ⟨hj, hnd'⟩ := List.nodup_cons.1 hnd
    have hju := hu j List.mem_cons_self
    rw [List.foldl_cons, ih (h.destroy hju) hnd', h.slots.destroy_sessions hju]
    · funext i
      by_cases hij : i = j
      · subst hij
        simp [hj]
      · simp [hij]
    · intro i hi
      refine (destroyConnection_inUse h.slots hju).2 ⟨hu i (List.mem_cons_of_mem _ hi), ?_⟩
      rintro rfl
      exact hj hi

/-- The sessions of the keep-alive list are the idle ones. -/
theorem Good.mem_iff_idle (h : Good s l) : i ∈ l ↔ s.sessions i = some .idle := by
  rw [h.waits]
  constructor
  · intro hs
    rw [sessions_some (h.slots.live i (by rw [hs]; exact State.noConfusion)), hs]
    rfl
  · intro hs
    by_cases hu : s.pool.InUse i
    · rw [sessions_some hu] at hs
      cases hst : (s.conn i).state <;> simp [hst, State.phase] at hs ⊢
    · rw [sessions_eq_none.2 hu] at hs
      cases hs

theorem Good.timer_honours (h : Good s l) (io : Io) :
    Honours s.sessions (.tick (s.timedOut io.clock)) (s.handleTimer io).sessions := by
  have hu : ∀ i ∈ l.filter (s.timedOut io.clock), s.pool.InUse i := by
    intro i hi
    apply h.slots.live
    rw [(h.waits i).1 (List.mem_filter.1 hi).1]
    exact State.noConfusion
  rw [(h.swept io).destroys, h.destroyAll_sessions (h.list.links.nodup.filter _) hu]
  have hmem (i : Nat) : i ∈ l.filter (s.timedOut io.clock) ↔
      s.sessions i = some .idle ∧ s.timedOut io.clock i = true := by
    rw [List.mem_filter, h.mem_iff_idle]
  simp only [hmem]
  exact Honours.tick _ _

/-- What an event loop keeps in all runs in which no slot is released twice. -/
structure Sound (s : EventLoop) : Prop where
  good : ∃ l, Good s l
  orderly : ∀ i, Orderly (s.conn i)
  opens : ∀ i, Opens (s.conn i)

theorem Sound.step (h : Sound s) (hf : s.FreshInput input) : Sound (s.step input) where
  good := by
    obtain ⟨l, hl⟩ := h.good
    exact step_good hl hf
  orderly := ConnInvariant.input orderly_invariant h.orderly input
  opens := ConnInvariant.input opens_invariant h.opens input

theorem sound_create (server : FileServer) (timeout : Int) (tls : Bool) :
    Sound (create server timeout tls) where
  good := ⟨[], create_good server timeout tls⟩
  orderly := (reachable_run server timeout tls []).conn orderly_invariant
  opens := (reachable_run server timeout tls []).conn opens_invariant

theorem Sound.inUse (h : Sound s) (hs : (s.conn i).state ≠ .closed) : s.pool.InUse i := by
  obtain ⟨l, hg⟩ := h.good
  exact hg.slots.live i hs

theorem Sound.destroy_honours (h : Sound s) (hu : i < maxConnections → s.pool.InUse i) :
    Honours s.sessions (.hangUp i) (s.destroyConnection i).sessions := by
  obtain ⟨l, hg⟩ := h.good
  have hs : (s.destroyConnection i).sessions = Function.update s.sessions i none := by
    by_cases hi : i < maxConnections
    · exact hg.slots.destroy_sessions (hu hi)
    · exact destroy_sessions_outside (Nat.le_of_not_lt hi)
  rw [hs]
  exact .hangUp _ i

/-- A step of a connection that has its slot changes the session in that slot. -/
theorem sessions_processed {r : Outcome} {prev : State} (hu : s.pool.InUse i) :
    (((s.writeBack i r).syncKeepaliveList i prev).updateEvents i r.want).sessions =
      Function.update s.sessions i (some r.conn.state.phase) := by
  funext j
  have huse : (((s.writeBack i r).syncKeepaliveList i prev).updateEvents i r.want).pool.InUse j ↔
      s.pool.InUse j := processed_slots.inUse
  by_cases hji : j = i
  · subst hji
    rw [Function.update_self, sessions_some (huse.2 hu), processed_state, if_pos rfl]
  · rw [Function.update_of_ne hji]
    apply sessions_congr huse
    intro _
    rw [processed_state, if_neg hji]

theorem sessions_writeBack {r : Outcome} :
    Function.update (s.writeBack i r).sessions i none = Function.update s.sessions i none := by
  funext j
  by_cases hji : j = i
  · subst hji
    rw [Function.update_self, Function.update_self]
  · rw [Function.update_of_ne hji, Function.update_of_ne hji]
    have huse : (s.writeBack i r).pool.InUse j ↔ s.pool.InUse j := Iff.rfl
    apply sessions_congr huse
    intro _
    rw [conn_writeBack, if_neg hji]

theorem Sound.process_honours (h : Sound s) (io : Io) (i : Nat) :
    Honours s.sessions (.call i) (s.processConnection io i).sessions := by
  obtain ⟨l, hg⟩ := h.good
  rcases processConnection_cases s io i with
    ⟨hcl, hp⟩ | ⟨hlive, hf, r, hr, hp⟩ | ⟨hlive, hf, r, hadv, _, hp⟩
  · have hsame : (s.processConnection io i).sessions =
        Function.update s.sessions i (s.sessions i) := by
      rw [hp, Function.update_eq_self]
    rw [hsame]
    apply Honours.call
    by_cases hu : s.pool.InUse i
    · rw [sessions_some hu, hcl]
      exact .goes (by decide : Phase.defunct ∈ Phase.defunct.next)
    · rw [sessions_eq_none.2 hu]
      exact .vacant
  · have hu := hg.slots.live i hlive
    have hgone : (s.processConnection io i).sessions = Function.update s.sessions i none := by
      rw [hp, (hg.slots.step hu (.of_hung hr.traffic)).destroy_sessions hu, sessions_writeBack]
    rw [hgone]
    apply Honours.call
    rw [sessions_some hu]
    exact .ends (ends_of_stateFails hf)
  · have hu := hg.slots.live i hlive
    rw [hp, sessions_processed hu]
    apply Honours.call
    rw [sessions_some hu, hadv]
    exact .goes (advance_phase (h.orderly i) (h.opens i) hlive hf)

theorem Sound.dispatch_honours (h : Sound s) {ev : Kevent} (io : Io) (hf : s.Fresh ev) :
    Honours s.sessions (Input.label s (.event ev io)) (s.dispatch io ev).sessions := by
  obtain ⟨l, hg⟩ := h.good
  unfold dispatch
  dsimp only [Input.label]
  by_cases hend : ev.error ∨ ev.eof
  · rw [if_pos hend, if_pos hend]
    cases hu : ev.udata with
    | conn i => exact h.destroy_honours (hf i hend hu)
    | null => exact .rest _
    | listener => exact .rest _
    | timer => exact .rest _
  · rw [if_neg hend, if_neg hend]
    cases ev.udata with
    | conn i => exact h.process_honours io i
    | null => exact .rest _
    | listener => exact hg.acceptLoop_honours io.accepts
    | timer => exact hg.timer_honours io

/-- The event loop refines the server that its clients see, as long as no slot is released
twice. -/
theorem refines_sessions :
    Refines step Sound FreshInput sessions Input.label Honours where
  keeps := fun _ _ h hf => h.step hf
  follows := fun s input h hf => by
    cases input with
    | kevent => exact .rest _
    | event ev io => exact h.dispatch_honours io hf

theorem waitingClient_fresh :
    Run.Along step FreshInput (create ⟨bytes "/srv"⟩ 75 false) waitingClient :=
  ⟨trivial, fresh_of_plain rfl rfl, trivial, fresh_of_plain rfl rfl, trivial,
    fresh_of_plain rfl rfl, trivial⟩

/-- Every run in which no slot is released twice is one of the server that its clients see. -/
theorem run_honours (server : FileServer) (timeout : Int) (tls : Bool) (inputs : List Input)
    (h : Run.Along step FreshInput (create server timeout tls) inputs) :
    Path Honours (fun _ => none) (labels step Input.label (create server timeout tls) inputs)
      (inputs.foldl step (create server timeout tls)).sessions := by
  rw [← sessions_create server timeout tls]
  exact refines_sessions.run (sound_create server timeout tls) h

theorem waitingClient_honoured :
    Path Honours (fun _ => none)
      (labels step Input.label (create ⟨bytes "/srv"⟩ 75 false) waitingClient)
      (waitingClient.foldl step (create ⟨bytes "/srv"⟩ 75 false)).sessions :=
  run_honours ⟨bytes "/srv"⟩ 75 false waitingClient waitingClient_fresh

/-- In such a run, a session never goes back to a phase that no call leads to from where it was:
one that has sent a request is never asked for its protocol or a handshake again, and one whose
connection has failed while it was answered is never served again. -/
theorem session_goes_on (server : FileServer) (timeout : Int) (tls : Bool)
    (past inputs : List Input)
    (h : Run.Along step FreshInput (create server timeout tls) (past ++ inputs))
    (huse : Run.Along step (fun s input => (s.step input).pool.InUse i)
      (past.foldl step (create server timeout tls)) inputs)
    (hp : (past.foldl step (create server timeout tls)).sessions i = some p) :
    ∃ q, ((past ++ inputs).foldl step (create server timeout tls)).sessions i = some q ∧
      p.rank ≤ q.rank ∧ (p = .defunct → q = .defunct) := by
  obtain ⟨hpast, hnow⟩ := Run.Along.append.1 h
  have hsound := Run.throughout_of_along (fun _ _ hs hf => Sound.step hs hf)
    (sound_create server timeout tls) hpast
  have hsharp : Refines step Sound (fun s input => s.FreshInput input ∧ (s.step input).pool.InUse i)
      sessions Input.label (fun σ k σ' => Honours σ k σ' ∧ σ' i ≠ none) :=
    refines_sessions.strengthen fun s input _ _ hu hs =>
      ⟨hs, fun hnone => sessions_eq_none.1 hnone hu⟩
  have hpath := hsharp.run hsound.last (hnow.and huse)
  rw [List.foldl_append]
  obtain ⟨q, hq, hpq⟩ := hpath.ordered (R := GoesOn i) GoesOn.refl GoesOn.trans
    (fun _ _ _ hs => hs.1.goesOn hs.2) p hp
  exact ⟨q, hq, Phase.rank_le_of_reach hpq, Phase.defunct_of_reach hpq⟩

theorem waitingClient_goes_on :
    ∃ q, (waitingClient.foldl step (create ⟨bytes "/srv"⟩ 75 false)).sessions 0 = some q ∧
      Phase.greeting.rank ≤ q.rank ∧ (Phase.greeting = .defunct → q = .defunct) := by
  have hopen : Run.Along step
      (fun s input => s.FreshInput input ∧ ((s.step input).conn 0).state ≠ .closed)
      ((waitingClient.take 2).foldl step (create ⟨bytes "/srv"⟩ 75 false))
      (waitingClient.drop 2) :=
    ⟨⟨trivial, by decide⟩, ⟨fresh_of_plain rfl rfl, by decide⟩, ⟨trivial, by decide⟩,
      ⟨fresh_of_plain rfl rfl, by decide⟩, trivial⟩
  have hpast : Run.Along step FreshInput (create ⟨bytes "/srv"⟩ 75 false)
      (waitingClient.take 2) := ⟨trivial, fresh_of_plain rfl rfl, trivial⟩
  have hsound := (Run.throughout_of_along (fun _ _ hs hf => Sound.step hs hf)
    (sound_create _ _ _) hpast).last
  have huse : Run.Along step (fun s input => (s.step input).pool.InUse 0)
      ((waitingClient.take 2).foldl step (create ⟨bytes "/srv"⟩ 75 false))
      (waitingClient.drop 2) :=
    Run.along_of_along (fun s input (hs : Sound s) hg => ⟨hs.step hg.1, (hs.step hg.1).inUse hg.2⟩)
      hsound hopen
  apply session_goes_on _ _ _ (waitingClient.take 2) (waitingClient.drop 2) waitingClient_fresh huse
  exact sessions_some (hsound.inUse (by decide))

end EventLoop

end FileWebServer
