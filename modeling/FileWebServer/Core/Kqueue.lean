import FileWebServer.Core.SlotSafety
import FileWebServer.Lib.Interest

namespace FileWebServer
open Interest
set_option autoImplicit true

def Change.op (ch : Change) : Op Int Filter := ⟨ch.ident, ch.filter, ch.delete⟩

/-- The open sockets and the registrations of the queue. -/
abbrev Kernel := Table Int Filter

namespace Kernel
variable {k : Kernel} {as bs : List Action}

/-- What the kernel makes of an action. -/
def act (k : Kernel) : Action → Kernel
  | .accept fd => k.open_ fd
  | .close fd => k.close fd
  | _ => k

def acts (k : Kernel) (actions : List Action) : Kernel := actions.foldl act k

theorem acts_append (k : Kernel) (as bs : List Action) :
    acts k (as ++ bs) = acts (acts k as) bs := List.foldl_append ..

/-- Only the traffic matters to the kernel. -/
theorem acts_traffic (k : Kernel) (as : List Action) : acts k (traffic as) = acts k as := by
  refine foldl_traffic (fun k a ha => ?_) k as
  cases a with
  | accept => cases ha
  | close => cases ha
  | _ => rfl

theorem acts_of_quiet (k : Kernel) (h : traffic as = []) : acts k as = k := by
  rw [← acts_traffic, h]
  rfl

theorem acts_of_hung (k : Kernel) {c : Connection} (h : traffic as = c.hung) (hfd : 0 ≤ c.fd) :
    acts k as = k.close c.fd := by
  rw [← acts_traffic, h, Connection.hung, if_pos hfd]
  rfl

end Kernel

namespace EventLoop
open Kernel
variable {s s' s'' : EventLoop} {k k' k'' : Kernel} {i j n m : Nat}

/-- How many of the queued changes fail when they are submitted. -/
def failing (k : Kernel) (s : EventLoop) : Nat := k.failures (s.changelist.map Change.op)

/-- The queued changes of a descriptor. -/
def queued (s : EventLoop) (fd : Int) : Nat := s.changelist.countP fun ch => ch.ident = fd

theorem countOn_eq_queued (s : EventLoop) (fd : Int) :
    Table.countOn fd (s.changelist.map Change.op) = s.queued fd := by
  rw [Table.countOn, List.countP_map]
  rfl

/-- Each open connection has an open socket of its own, and a closed one has none. -/
structure Owned (k : Kernel) (s : EventLoop) : Prop where
  isOpen : ∀ i, (s.conn i).state ≠ .closed → 0 ≤ (s.conn i).fd ∧ k.isOpen (s.conn i).fd = true
  distinct : ∀ i j, (s.conn i).state ≠ .closed → (s.conn j).state ≠ .closed →
    (s.conn i).fd = (s.conn j).fd → i = j
  closed : ∀ i, (s.conn i).state = .closed → (s.conn i).fd < 0

/-- From one state of the system to a later one, in which at most `n` more changes fail. -/
structure Moves (k : Kernel) (s : EventLoop) (k' : Kernel) (s' : EventLoop) (n : Nat) : Prop where
  done : ∃ as, s'.trace = s.trace ++ as ∧ k' = acts k as
  owned : Owned k' s'
  bound : failing k' s' ≤ failing k s + n

theorem Moves.refl (h : Owned k s) : Moves k s k s 0 :=
  ⟨⟨[], (List.append_nil _).symm, rfl⟩, h, Nat.le_refl _⟩

theorem Moves.trans (h : Moves k s k' s' n) (h' : Moves k' s' k'' s'' m) :
    Moves k s k'' s'' (n + m) := by
  obtain ⟨as, ht, hk⟩ := h.done
  obtain ⟨bs, ht', hk'⟩ := h'.done
  refine ⟨⟨as ++ bs, ?_, ?_⟩, h'.owned, ?_⟩
  · rw [ht', ht, List.append_assoc]
  · rw [hk', hk, acts_append]
  · have hle := h.bound
    have hle' := h'.bound
    omega

theorem Moves.mono (h : Moves k s k' s' n) (hnm : n ≤ m) : Moves k s k' s' m :=
  ⟨h.done, h.owned, Nat.le_trans h.bound (Nat.add_le_add_left hnm _)⟩

/-- Only the states and the descriptors matter. -/
theorem Owned.congr (h : Owned k s)
    (hstate : ∀ i, (s'.conn i).state = .closed ↔ (s.conn i).state = .closed)
    (hfd : ∀ i, (s'.conn i).fd = (s.conn i).fd) : Owned k s' := by
  constructor
  · intro i hi
    rw [hfd]
    exact h.isOpen i (fun hc => hi ((hstate i).2 hc))
  · intro i j hi hj he
    rw [hfd, hfd] at he
    exact h.distinct i j (fun hc => hi ((hstate i).2 hc)) (fun hc => hj ((hstate j).2 hc)) he
  · intro i hi
    rw [hfd]
    exact h.closed i ((hstate i).1 hi)

theorem Owned.of_core (h : Owned k s) (hcore : s'.core = s.core) : Owned k s' :=
  h.congr (fun i => by rw [Connection.core_state (core_conn hcore i)])
    (fun i => Connection.core_fd (core_conn hcore i))

theorem Moves.of_core (h : Owned k s) (hcore : s'.core = s.core) : Moves k s k s' 0 := by
  refine ⟨⟨[], ?_, rfl⟩, h.of_core hcore, ?_⟩
  · rw [core_trace hcore, List.append_nil]
  · rw [failing, failing, core_changelist hcore]
    exact Nat.le_refl _

/-- A step after which a connection is still open. -/
theorem Moves.kept {r : Outcome} (h : Owned k s) (hlive : (s.conn i).state ≠ .closed)
    (hr : Connection.Kept (s.conn i) r) : Moves k s k (s.writeBack i r) 0 := by
  refine ⟨⟨r.actions, rfl, (acts_of_quiet k hr.quiet).symm⟩, ?_, Nat.le_refl _⟩
  apply h.congr
  · intro j
    rw [conn_writeBack]
    split
    · next hji =>
      rw [hji]
      exact iff_of_false hr.live hlive
    · rfl
  · intro j
    rw [conn_writeBack]
    split
    · next hji => rw [hji, hr.fd]
    · rfl

/-- A connection that is open stays so when the socket of another one is closed. -/
theorem Owned.close (h : Owned k s) (hlive : (s.conn i).state ≠ .closed)
    (hstate : ∀ j, j ≠ i → (s'.conn j).state = (s.conn j).state)
    (hfd : ∀ j, j ≠ i → (s'.conn j).fd = (s.conn j).fd)
    (hclosed : (s'.conn i).state = .closed) (hneg : (s'.conn i).fd < 0) :
    Owned (k.close (s.conn i).fd) s' := by
  have hother : ∀ j, (s'.conn j).state ≠ .closed → j ≠ i ∧ (s.conn j).state ≠ .closed := by
    intro j hj
    have hji : j ≠ i := fun he => hj (he ▸ hclosed)
    rw [hstate j hji] at hj
    exact ⟨hji, hj⟩
  constructor
  · intro j hj
    obtain ⟨hji, hj⟩ := hother j hj
    have hne : (s.conn j).fd ≠ (s.conn i).fd := fun he => hji (h.distinct j i hj hlive he)
    rw [hfd j hji, Table.close_isOpen, if_neg hne]
    exact h.isOpen j hj
  · intro j j' hj hj' he
    obtain ⟨hji, hj⟩ := hother j hj
    obtain ⟨hji', hj'⟩ := hother j' hj'
    rw [hfd j hji, hfd j' hji'] at he
    exact h.distinct j j' hj hj' he
  · intro j hj
    by_cases hji : j = i
    · rw [hji]
      exact hneg
    · rw [hfd j hji]
      rw [hstate j hji] at hj
      exact h.closed j hj

theorem failing_close_le (k : Kernel) (s : EventLoop) (fd : Int) :
    failing (k.close fd) s ≤ failing k s + s.queued fd := by
  have hle := (Table.agreeOff_close k fd).failures_le (s.changelist.map Change.op)
  rwa [countOn_eq_queued] at hle

/-- A step in which a connection closes itself. -/
theorem Moves.hungUp {r : Outcome} (h : Owned k s) (hlive : (s.conn i).state ≠ .closed)
    (hr : Connection.HungUp (s.conn i) r) :
    Moves k s (k.close (s.conn i).fd) (s.writeBack i r) (s.queued (s.conn i).fd) := by
  refine ⟨⟨r.actions, rfl, (acts_of_hung k hr.traffic (h.isOpen i hlive).1).symm⟩, ?_,
    failing_close_le k s _⟩
  apply h.close hlive
  · intro j hji
    rw [conn_writeBack, if_neg hji]
  · intro j hji
    rw [conn_writeBack, if_neg hji]
  · rw [conn_writeBack, if_pos rfl]
    exact hr.closed
  · rw [conn_writeBack, if_pos rfl]
    exact hr.fd

theorem failing_addEvents (k : Kernel) (s : EventLoop) (chs : List Change) :
    failing k (s.addEvents chs) = failing k s +
      (k.submitAll (s.changelist.map Change.op)).failures (chs.map Change.op) := by
  rw [failing, addEvents, List.map_append, Table.failures_append]
  rfl

theorem destroyConnection_fd (s : EventLoop) (hji : j ≠ i) :
    ((s.destroyConnection i).conn j).fd = (s.conn j).fd := by
  have h := destroyConnection_conn s i j
  rw [if_neg hji] at h
  exact Connection.core_fd h

theorem destroyConnection_fd_self (s : EventLoop) (hlive : (s.conn i).state ≠ .closed) :
    ((s.destroyConnection i).conn i).fd < 0 := by
  have h := congrArg Connection.fd (destroyConnection_conn s i i)
  rw [if_pos rfl] at h
  change ((s.destroyConnection i).conn i).fd = _ at h
  rw [h]
  exact Connection.close_fd hlive

theorem releaseActions_acts (k : Kernel) (i : Nat) : acts k (releaseActions i) = k := by
  unfold releaseActions
  split <;> rfl

/-- How many changes may fail more after a connection is destroyed. -/
def destroyCost (s : EventLoop) (i : Nat) : Nat :=
  if (s.conn i).state = .closed then 0 else 2 + s.queued (s.conn i).fd

theorem Moves.destroy_open (h : Owned k s) (hc : (s.conn i).state ≠ .closed) :
    Moves k s (k.close (s.conn i).fd) (s.destroyConnection i) (2 + s.queued (s.conn i).fd) := by
  obtain ⟨hfd, _⟩ := h.isOpen i hc
  have ht := destroyConnection_trace s i
  rw [List.append_assoc] at ht
  refine ⟨⟨_, ht, ?_⟩, ?_, ?_⟩
  · rw [acts_append, acts_of_hung k (Connection.traffic_closeActions hc) hfd,
      releaseActions_acts]
  · apply h.close hc
    · intro j hji
      rw [destroyConnection_state, if_neg hji]
    · exact fun j hji => destroyConnection_fd s hji
    · rw [destroyConnection_state, if_pos rfl]
    · exact destroyConnection_fd_self s hc
  · have hchs : (destroyChanges (s.conn i).fd).length = 2 := by rw [destroyChanges, if_pos hfd]; rfl
    have hle := failing_close_le k s (s.conn i).fd
    have happ := failing_addEvents (k.close (s.conn i).fd) s (destroyChanges (s.conn i).fd)
    have htwo := Table.failures_le_length
      ((k.close (s.conn i).fd).submitAll (s.changelist.map Change.op))
      ((destroyChanges (s.conn i).fd).map Change.op)
    rw [List.length_map, hchs] at htwo
    have heq : failing (k.close (s.conn i).fd) (s.destroyConnection i) =
        failing (k.close (s.conn i).fd) (s.addEvents (destroyChanges (s.conn i).fd)) := by
      rw [failing, failing, destroyConnection_changelist]
      rfl
    omega

/-- Destroying a connection that is closed already leaves the connections as they are. -/
theorem destroyConnection_closed_state (hc : (s.conn i).state = .closed) (j : Nat) :
    ((s.destroyConnection i).conn j).state = .closed ↔ (s.conn j).state = .closed := by
  rw [destroyConnection_state]
  split
  · next hji => simp [hji, hc]
  · rfl

theorem destroyConnection_closed_fd (hc : (s.conn i).state = .closed) (j : Nat) :
    ((s.destroyConnection i).conn j).fd = (s.conn j).fd := by
  by_cases hji : j = i
  · have hconn := destroyConnection_conn s i i
    rw [if_pos rfl, Connection.close, if_pos (show (s.conn i).core.state = _ from hc)] at hconn
    rw [hji]
    exact Connection.core_fd hconn
  · exact destroyConnection_fd s hji

theorem destroyConnection_closed_changelist (hfd : (s.conn i).fd < 0) :
    (s.destroyConnection i).changelist = s.changelist := by
  have hchs : destroyChanges (s.conn i).fd = [] := if_neg (Int.not_le.2 hfd)
  rw [destroyConnection_changelist, hchs, List.append_nil]

/-- A connection that is closed already costs nothing. -/
theorem Moves.destroy_closed (h : Owned k s) (hc : (s.conn i).state = .closed) :
    Moves k s k (s.destroyConnection i) 0 := by
  have has : (s.conn i).closeActions = [] := by rw [Connection.closeActions, if_pos hc]
  have ht := destroyConnection_trace s i
  rw [has, List.append_nil] at ht
  refine ⟨⟨_, ht, (releaseActions_acts k i).symm⟩, ?_, ?_⟩
  · exact h.congr (destroyConnection_closed_state hc) (destroyConnection_closed_fd hc)
  · rw [failing, destroyConnection_closed_changelist (h.closed i hc)]
    exact Nat.le_refl _

theorem Moves.destroy (h : Owned k s) (i : Nat) :
    ∃ k', Moves k s k' (s.destroyConnection i) (s.destroyCost i) := by
  unfold destroyCost
  split
  · next hc => exact ⟨k, .destroy_closed h hc⟩
  · next hc => exact ⟨_, .destroy_open h hc⟩

/-- Registering for one direction and deleting the other fails in one change at most. -/
theorem wantChanges_failures {fd : Int} (want : Want) (ho : k.isOpen fd = true) :
    k.failures ((wantChanges fd i want).map Change.op) ≤ 1 := by
  cases want with
  | none => exact Nat.zero_le _
  | read =>
    have hadd : k.fails (Change.op ⟨fd, .read, false, .conn i⟩) = false :=
      Table.not_fails_add ho rfl
    simp only [wantChanges, List.map, Table.failures, hadd, Bool.false_eq_true, if_false]
    split <;> omega
  | write =>
    have hadd : (k.submit (Change.op ⟨fd, .read, true, .null⟩)).fails
        (Change.op ⟨fd, .write, false, .conn i⟩) = false := by
      apply Table.not_fails_add _ rfl
      rw [Table.submit_isOpen]
      exact ho
    simp only [wantChanges, List.map, Table.failures, hadd, Bool.false_eq_true, if_false]
    split <;> omega

theorem Moves.updateEvents (h : Owned k s) (i : Nat) (want : Want) :
    Moves k s k (s.updateEvents i want) 1 := by
  refine ⟨⟨[], ?_, rfl⟩, h.congr (fun j => by rw [updateEvents_conn])
    (fun j => by rw [updateEvents_conn]), ?_⟩
  · rw [updateEvents_trace, List.append_nil]
  · unfold EventLoop.updateEvents
    dsimp only
    split
    · exact Nat.le_add_right ..
    · next hc =>
      have hlive : (s.conn i).state ≠ .closed := by
        intro hs
        exact hc (.inr (by simp [Connection.isClosed, hs]))
      rw [failing_addEvents]
      apply Nat.add_le_add_left
      apply wantChanges_failures
      rw [Table.submitAll_isOpen]
      exact (h.isOpen i hlive).2

theorem updateEvents_closed (want : Want) (hc : (s.conn i).state = .closed) :
    s.updateEvents i want = s :=
  if_pos (.inr (by simp [Connection.isClosed, hc]))

/-- How many changes may fail more after `process_connection`: one deletion, or what was queued
for a connection that closes. -/
def processCost (s : EventLoop) (i : Nat) : Nat :=
  if (s.conn i).state = .closed then 0 else max 1 (s.queued (s.conn i).fd)

theorem Moves.process (h : Owned k s) (io : Io) (i : Nat) :
    ∃ k', Moves k s k' (s.processConnection io i) (s.processCost i) := by
  rcases processConnection_cases s io i with
    ⟨hc, hp⟩ | ⟨hlive, _, r, hr, hp⟩ | ⟨hlive, _, r, _, hr, hp⟩
  · rw [hp, processCost, if_pos hc]
    exact ⟨k, .refl h⟩
  · rw [hp, processCost, if_neg hlive]
    have hm := Moves.hungUp h hlive hr
    obtain ⟨k', hd⟩ := Moves.destroy hm.owned i
    have hcost : (s.writeBack i r).destroyCost i = 0 := by
      rw [destroyCost, if_pos]
      rw [conn_writeBack, if_pos rfl]
      exact hr.closed
    rw [hcost] at hd
    exact ⟨k', (hm.trans hd).mono (Nat.le_max_right ..)⟩
  · rw [hp, processCost, if_neg hlive]
    rcases hr with ⟨_, hr⟩ | ⟨_, hr⟩
    · have hm := Moves.hungUp h hlive hr
      have hs := Moves.of_core hm.owned
        (syncKeepaliveList_core (s.writeBack i r) i (s.conn i).state)
      rw [updateEvents_closed]
      · exact ⟨_, (hm.trans hs).mono (Nat.le_max_right ..)⟩
      · rw [Connection.core_state (core_conn (syncKeepaliveList_core _ i _) i), conn_writeBack,
          if_pos rfl]
        exact hr.closed
    · have hm := Moves.kept h hlive hr
      have hs := Moves.of_core hm.owned
        (syncKeepaliveList_core (s.writeBack i r) i (s.conn i).state)
      have hu := Moves.updateEvents hs.owned i r.want
      exact ⟨k, ((hm.trans hs).trans hu).mono (Nat.le_max_left ..)⟩

/-- What a new client changes: its slot was free, and holds the new descriptor, for which a change
is queued. -/
structure Created (s s' : EventLoop) (i : Nat) (fd : Int) : Prop where
  free : (s.conn i).state = .closed
  live : (s'.conn i).state ≠ .closed
  socket : (s'.conn i).fd = fd
  other : ∀ j, j ≠ i → s'.conn j = s.conn j
  queued : s'.changelist = s.changelist ++ [⟨fd, .read, false, .conn i⟩]

theorem createConnection_created {l : List Nat} {fd now : Int} (hg : Good s l)
    (hc : (s.log [.accept fd]).createConnection fd now = (s', some i)) : Created s s' i fd := by
  have hqueued := createConnection_changelist hc
  refine ⟨?_, ?_, ?_, fun j hji => ?_, hqueued⟩
  · by_contra hlive
    obtain ⟨pool, ha, _⟩ := createConnection_some hc
    exact ConnectionPool.acquire_fresh ha (hg.slots.live i hlive)
  · rw [createConnection_conn hc, if_pos rfl]
    exact State.noConfusion
  · rw [createConnection_conn hc, if_pos rfl]
    rfl
  · rw [createConnection_conn hc, if_neg hji]
    rfl

/-- No open connection has the descriptor of a new client. -/
theorem Created.others {fd : Int} (hc : Created s s' i fd) (h : Owned k s)
    (hnew : k.isOpen fd = false) (hji : j ≠ i) (hj : (s'.conn j).state ≠ .closed) :
    (s.conn j).state ≠ .closed ∧ (s'.conn j).fd = (s.conn j).fd ∧ (s.conn j).fd ≠ fd := by
  rw [hc.other j hji] at hj ⊢
  refine ⟨hj, rfl, fun he => ?_⟩
  have ho := (h.isOpen j hj).2
  rw [he, hnew] at ho
  cases ho

theorem Created.owned {fd : Int} (hc : Created s s' i fd) (h : Owned k s)
    (hnew : k.isOpen fd = false) (hfd : 0 ≤ fd) : Owned (k.open_ fd) s' := by
  constructor
  · intro j hj
    rw [Table.open_isOpen]
    by_cases hji : j = i
    · rw [hji, hc.socket]
      exact ⟨hfd, if_pos rfl⟩
    · obtain ⟨hlive, he, hne⟩ := hc.others h hnew hji hj
      rw [he, if_neg hne]
      exact h.isOpen j hlive
  · intro j j' hj hj' he
    by_cases hji : j = i
    · by_cases hji' : j' = i
      · rw [hji, hji']
      · obtain ⟨_, he', hne⟩ := hc.others h hnew hji' hj'
        rw [hji, hc.socket, he'] at he
        exact (hne he.symm).elim
    · obtain ⟨hlive, he₁, hne⟩ := hc.others h hnew hji hj
      by_cases hji' : j' = i
      · rw [hji', hc.socket, he₁] at he
        exact (hne he).elim
      · obtain ⟨hlive', he₂, _⟩ := hc.others h hnew hji' hj'
        exact h.distinct j j' hlive hlive' (he₁.symm.trans (he.trans he₂))
  · intro j hj
    by_cases hji : j = i
    · exact (hc.live (hji ▸ hj)).elim
    · rw [hc.other j hji] at hj ⊢
      exact h.closed j hj

/-- The change that is queued for a new client does not fail, since its descriptor is open. -/
theorem Created.failing_le {fd : Int} (hc : Created s s' i fd) (hnew : k.isOpen fd = false) :
    failing (k.open_ fd) s' ≤ failing k s := by
  have hle := (Table.agreeOff_open k fd).failures_le_of_closed hnew (s.changelist.map Change.op)
  have hadd : ((k.open_ fd).submitAll (s.changelist.map Change.op)).failures
      ([(⟨fd, .read, false, .conn i⟩ : Change)].map Change.op) = 0 := by
    have hf : ((k.open_ fd).submitAll (s.changelist.map Change.op)).fails
        (Change.op ⟨fd, .read, false, .conn i⟩) = false := by
      apply Table.not_fails_add _ rfl
      rw [Table.submitAll_isOpen, Table.open_isOpen]
      exact if_pos rfl
    simp [Table.failures, hf]
  rw [failing, hc.queued, List.map_append, Table.failures_append, hadd]
  exact hle

/-- A new client gets a slot. -/
theorem Moves.create {l : List Nat} {fd now : Int} (hg : Good s l) (h : Owned k s)
    (hnew : k.isOpen fd = false) (hfd : 0 ≤ fd)
    (hc : (s.log [.accept fd]).createConnection fd now = (s', some i)) :
    Moves k s (k.open_ fd) s' 0 := by
  have hcreated := createConnection_created hg hc
  refine ⟨⟨[.accept fd, .acquire i], ?_, rfl⟩, hcreated.owned h hnew hfd, hcreated.failing_le hnew⟩
  rw [(createConnection_slot hc).2.2.2.2]
  exact List.append_assoc ..

/-- A client that the pool has no room for is closed at once. -/
theorem Moves.refuse {fd : Int} (h : Owned k s) (hnew : k.isOpen fd = false) :
    Moves k s (k.close fd) ((s.log [.accept fd]).log [.close fd]) 0 := by
  refine ⟨⟨[.accept fd, .close fd], ?_, ?_⟩, ⟨?_, h.distinct, h.closed⟩, ?_⟩
  · exact List.append_assoc ..
  · exact (Table.close_open k fd).symm
  · intro j hj
    obtain ⟨hfd, ho⟩ := h.isOpen j hj
    refine ⟨hfd, ?_⟩
    have hne : (s.conn j).fd ≠ fd := by
      intro he
      rw [he, hnew] at ho
      cases ho
    change (k.close fd).isOpen (s.conn j).fd = true
    rw [Table.close_isOpen, if_neg hne]
    exact ho
  · exact (Table.agreeOff_close k fd).failures_le_of_closed hnew _

/-- `accept` returns descriptors that were not open. -/
def Accepts (k : Kernel) (fds : List (Nat × Int)) : Prop :=
  (fds.map Prod.fst).Nodup ∧ ∀ p ∈ fds, k.isOpen (p.1 : Int) = false

theorem Accepts.open_ {fd : Nat} {now : Int} {rest : List (Nat × Int)}
    (h : Accepts k ((fd, now) :: rest)) : Accepts (k.open_ fd) rest := by
  obtain ⟨hnd, hnew⟩ := h
  obtain ⟨hfd, hnd⟩ := List.nodup_cons.1 hnd
  refine ⟨hnd, fun p hp => ?_⟩
  have hne : (p.1 : Int) ≠ fd := by
    intro he
    have hpf : p.1 = fd := by exact_mod_cast he
    exact hfd (List.mem_map.2 ⟨p, hp, hpf⟩)
  rw [Table.open_isOpen, if_neg hne]
  exact hnew p (List.mem_cons_of_mem _ hp)

theorem Moves.accept {l : List Nat} {fds : List (Nat × Int)} (hg : Good s l) (h : Owned k s)
    (ha : Accepts k fds) : ∃ k', Moves k s k' (s.acceptLoop fds) 0 := by
  have hrule := acceptLoop_rule
    (Q := fun rest s' => ∃ k', Moves k s k' s' 0 ∧ Accepts k' rest) ?_ ?_ hg ⟨k, .refl h, ha⟩
  · obtain ⟨_, k', hm, _⟩ := hrule
    exact ⟨k', hm⟩
  · rintro s₁ s₂ l i fd now rest hg₁ ⟨k', hm, ha'⟩ hc
    refine ⟨_, hm.trans (Moves.create hg₁ hm.owned (ha'.2 _ List.mem_cons_self)
      (Int.natCast_nonneg fd) hc), ha'.open_⟩
  · rintro s₁ l fd now rest hg₁ ⟨k', hm, ha'⟩
    refine ⟨_, hm.trans (Moves.refuse hm.owned (ha'.2 _ List.mem_cons_self)), List.nodup_nil, ?_⟩
    simp

/-- The connections that a sweep finds expired. -/
def expired (s : EventLoop) (io : Io) : Finset Nat :=
  (Finset.range maxConnections).filter fun i =>
    (s.conn i).state = .keepAlive ∧ (s.conn i).isExpired (io.clock i) s.keepAliveTimeout = true

/-- How many changes may fail more after a sweep. -/
def timerCost (s : EventLoop) (io : Io) : Nat := ∑ i ∈ s.expired io, s.destroyCost i

/-- What a sweep may still cost on the connections it has not looked at. -/
def sweepCost (s : EventLoop) (io : Io) (rest : List Nat) : Nat :=
  (rest.map fun i =>
    if (s.conn i).isExpired (io.clock i) s.keepAliveTimeout then s.destroyCost i else 0).sum

theorem sweepCost_eq {l : List Nat} (h : Good s l) (io : Io) :
    s.sweepCost io l = s.timerCost io := by
  have hset : l.toFinset = (Finset.range maxConnections).filter
      fun i => (s.conn i).state = .keepAlive := by
    ext i
    rw [List.mem_toFinset, h.waits i, Finset.mem_filter, Finset.mem_range]
    refine ⟨fun hs => ⟨?_, hs⟩, fun hs => hs.2⟩
    exact (h.slots.live i (by rw [hs]; exact State.noConfusion)).1
  rw [sweepCost, timerCost, expired, ← List.sum_toFinset _ h.list.links.nodup, hset,
    ← Finset.sum_filter, Finset.filter_filter]

theorem isExpired_core {c d : Connection} (h : c.core = d.core) (now timeout : Int) :
    c.isExpired now timeout = d.isExpired now timeout := by
  have hl := congrArg Connection.lastActive h
  change c.lastActive = d.lastActive at hl
  rw [Connection.isExpired, Connection.isExpired, hl]

theorem destroyConnection_timeout (s : EventLoop) (i : Nat) :
    (s.destroyConnection i).keepAliveTimeout = s.keepAliveTimeout := by
  have h := congrArg EventLoop.keepAliveTimeout (removeFromKeepaliveList_core s i)
  exact h

/-- Destroying one connection does not make another one cost more. -/
theorem destroyConnection_cost (h : Owned k s) (hi : (s.conn i).state ≠ .closed) (hji : j ≠ i)
    (hj : (s.conn j).state ≠ .closed) :
    (s.destroyConnection i).destroyCost j = s.destroyCost j := by
  have hne : (s.conn i).fd ≠ (s.conn j).fd := fun he => hji (h.distinct i j hi hj he).symm
  rw [destroyCost, destroyCost, destroyConnection_state, if_neg hji, destroyConnection_fd s hji,
    queued, queued, destroyConnection_changelist, List.countP_append]
  have hzero : (destroyChanges (s.conn i).fd).countP
      (fun ch => decide (ch.ident = (s.conn j).fd)) = 0 := by
    unfold destroyChanges
    split <;> simp [hne]
  rw [hzero, Nat.add_zero]

theorem destroyConnection_sweepCost {rest : List Nat} (h : Owned k s) (io : Io)
    (hi : (s.conn i).state ≠ .closed) (hrest : ∀ j ∈ rest, j ≠ i ∧ (s.conn j).state ≠ .closed) :
    (s.destroyConnection i).sweepCost io rest = s.sweepCost io rest := by
  unfold sweepCost
  congr 1
  apply List.map_congr_left
  intro j hj
  obtain ⟨hji, hjc⟩ := hrest j hj
  have hcore := destroyConnection_conn s i j
  rw [if_neg hji] at hcore
  rw [isExpired_core hcore, destroyConnection_timeout, destroyConnection_cost h hi hji hjc]

theorem Moves.sweep {l : List Nat} (hg : Good s l) (h : Owned k s) (io : Io) :
    ∃ k', Moves k s k' (s.handleTimer io) (s.timerCost io) := by
  have hrule := handleTimer_rule
    (Q := fun rest s' => ∃ k' n, Moves k s k' s' n ∧ n + s'.sweepCost io rest ≤ s.sweepCost io l)
    io ?_ ?_ hg ⟨k, 0, .refl h, by rw [Nat.zero_add]⟩
  · obtain ⟨_, k', n, hm, hle⟩ := hrule
    rw [← sweepCost_eq hg io]
    exact ⟨k', hm.mono (Nat.le_of_add_right_le hle)⟩
  · rintro s₁ kept i rest hg₁ hu hexp ⟨k', n, hm, hle⟩
    obtain ⟨k₂, hd⟩ := Moves.destroy hm.owned i
    refine ⟨k₂, _, hm.trans hd, ?_⟩
    have hwait : ∀ j ∈ i :: rest, (s₁.conn j).state ≠ .closed := by
      intro j hj
      rw [(hg₁.waits j).1 (List.mem_append_right _ hj)]
      exact State.noConfusion
    have hnd := (List.nodup_append.1 hg₁.list.links.nodup).2.1
    have hrest : ∀ j ∈ rest, j ≠ i ∧ (s₁.conn j).state ≠ .closed := by
      intro j hj
      exact ⟨fun he => (List.nodup_cons.1 hnd).1 (he ▸ hj),
        hwait j (List.mem_cons_of_mem _ hj)⟩
    rw [destroyConnection_sweepCost hm.owned io (hwait i List.mem_cons_self) hrest]
    rw [sweepCost, List.map_cons, List.sum_cons, if_pos hexp] at hle
    rw [sweepCost]
    omega
  · rintro s₁ kept i rest hg₁ hexp ⟨k', n, hm, hle⟩
    refine ⟨k', n, hm, ?_⟩
    rw [sweepCost, List.map_cons, List.sum_cons, if_neg hexp, Nat.zero_add] at hle
    exact hle

/-- How many changes may fail more after an event: two and those queued before for a connection
that is destroyed, one for a connection that takes a step. -/
def eventCost (s : EventLoop) (io : Io) (ev : Kevent) : Nat :=
  if ev.error ∨ ev.eof then
    match ev.udata with
    | .conn i => s.destroyCost i
    | _ => 0
  else match ev.udata with
    | .timer => s.timerCost io
    | .conn i => s.processCost i
    | _ => 0

theorem Moves.dispatch {l : List Nat} (hg : Good s l) (h : Owned k s) (io : Io) (ev : Kevent)
    (ha : Accepts k io.accepts) : ∃ k', Moves k s k' (s.dispatch io ev) (s.eventCost io ev) := by
  unfold EventLoop.dispatch eventCost
  split
  · cases ev.udata with
    | conn i => exact Moves.destroy h i
    | null => exact ⟨k, .refl h⟩
    | listener => exact ⟨k, .refl h⟩
    | timer => exact ⟨k, .refl h⟩
  · cases ev.udata with
    | conn i => exact Moves.process h io i
    | null => exact ⟨k, .refl h⟩
    | listener => exact Moves.accept hg h ha
    | timer => exact Moves.sweep hg h io

end EventLoop

/-- The event loop together with the kernel's event queue. -/
structure World where
  kernel : Kernel
  loop : EventLoop

namespace World
open EventLoop

/-- `kevent` takes the change list and collects a batch. -/
def kevent (w : World) : World :=
  ⟨w.kernel.submitAll (w.loop.changelist.map Change.op), w.loop.step .kevent⟩

/-- An event is dispatched, and the kernel sees what is done meanwhile. -/
def dispatch (w : World) (e : Kevent × Io) : World :=
  let s := w.loop.step (.event e.1 e.2)
  ⟨w.kernel.acts (s.trace.drop w.loop.trace.length), s⟩

/-- One round of `run`. -/
def round (w : World) (batch : List (Kevent × Io)) : World := batch.foldl dispatch w.kevent

def create (server : FileServer) (timeout : Int) (tls : Bool) : World :=
  ⟨⟨fun _ => false, fun _ _ => false⟩, .create server timeout tls⟩

/-- How many of the queued changes will fail in the next call of `kevent`. Each failure takes a
place in the event list, and when there is none left `kevent` fails. -/
def failing (w : World) : Nat := EventLoop.failing w.kernel w.loop

/-- The sum of the costs of the events of a batch, each in the state it is dispatched in. -/
def batchCost (w : World) : List (Kevent × Io) → Nat
  | [] => 0
  | e :: es => w.loop.eventCost e.2 e.1 + (w.dispatch e).batchCost es

/-- An event that releases no slot twice; `accept` returns descriptors that were not open. -/
def Admissible (w : World) (e : Kevent × Io) : Prop :=
  w.loop.Fresh e.1 ∧ Accepts w.kernel e.2.accepts

/-- A batch that costs no more than the event list has places. -/
def Light (w : World) (batch : List (Kevent × Io)) : Prop :=
  Run.Along dispatch Admissible w.kevent batch ∧ w.kevent.batchCost batch ≤ maxEvents

def Inv (w : World) : Prop := ∃ l, Good w.loop l ∧ Owned w.kernel w.loop

theorem dispatch_inv {w : World} {e : Kevent × Io} (h : w.Inv) (ha : w.Admissible e) :
    (w.dispatch e).Inv ∧ (w.dispatch e).failing ≤ w.failing + w.loop.eventCost e.2 e.1 := by
  obtain ⟨l, hg, ho⟩ := h
  obtain ⟨hf, hacc⟩ := ha
  obtain ⟨l', hg'⟩ := dispatch_good e.2 hg hf
  obtain ⟨k', ⟨as, ht, rfl⟩, ho', hle⟩ := Moves.dispatch hg ho e.2 e.1 hacc
  have hk : (w.dispatch e).kernel = w.kernel.acts as := by
    change w.kernel.acts ((w.loop.dispatch e.2 e.1).trace.drop _) = _
    rw [ht, List.drop_left]
  refine ⟨⟨l', hg', ?_⟩, ?_⟩
  · rw [hk]
    exact ho'
  · rw [failing, hk]
    exact hle

theorem batch_inv {w : World} {batch : List (Kevent × Io)} (h : w.Inv)
    (ha : Run.Along dispatch Admissible w batch) :
    (batch.foldl dispatch w).Inv ∧ (batch.foldl dispatch w).failing ≤ w.failing + w.batchCost batch := by
  induction batch generalizing w with
  | nil => exact ⟨h, Nat.le_refl _⟩
  | cons e es ih =>
    obtain ⟨he, hes⟩ := ha
    obtain ⟨hi, hle⟩ := dispatch_inv h he
    obtain ⟨hi', hle'⟩ := ih hi hes
    refine ⟨hi', ?_⟩
    rw [batchCost]
    rw [List.foldl_cons]
    omega

theorem kevent_inv {w : World} (h : w.Inv) : w.kevent.Inv ∧ w.kevent.failing = 0 := by
  obtain ⟨l, hg, ho⟩ := h
  refine ⟨⟨l, hg.queue [], ?_, ho.distinct, ho.closed⟩, rfl⟩
  intro i hi
  obtain ⟨hfd, hopen⟩ := ho.isOpen i hi
  refine ⟨hfd, ?_⟩
  change (Table.submitAll _ _).isOpen _ = true
  rw [Table.submitAll_isOpen]
  exact hopen

theorem create_inv (server : FileServer) (timeout : Int) (tls : Bool) :
    (create server timeout tls).Inv := by
  refine ⟨[], create_good server timeout tls, ?_, ?_, ?_⟩
  · exact fun i hi => (hi rfl).elim
  · exact fun i j hi => (hi rfl).elim
  · intro i _
    exact (by decide : (-1 : Int) < 0)

theorem round_inv {w : World} {batch : List (Kevent × Io)} (h : w.Inv) (hb : w.Light batch) :
    (w.round batch).Inv ∧ (w.round batch).failing ≤ maxEvents := by
  obtain ⟨hk, hzero⟩ := kevent_inv h
  obtain ⟨hi, hle⟩ := batch_inv hk hb.1
  refine ⟨hi, ?_⟩
  rw [hzero, Nat.zero_add] at hle
  exact Nat.le_trans hle hb.2

/-- In every run of light batches, the change list never has more changes that must fail than
the event list has places. -/
theorem failing_le_maxEvents (server : FileServer) (timeout : Int) (tls : Bool)
    (batches : List (List (Kevent × Io)))
    (h : Run.Along round Light (create server timeout tls) batches) :
    Run.Throughout round (fun w => w.failing ≤ maxEvents) (create server timeout tls) batches := by
  have hrun : Run.Throughout round (fun w => w.Inv ∧ w.failing ≤ maxEvents)
      (create server timeout tls) batches := by
    apply Run.throughout_of_along _ ⟨create_inv server timeout tls, Nat.zero_le _⟩ h
    intro w batch hw hb
    exact round_inv hw.1 hb
  exact hrun.mono fun w hw => hw.2

/-- The end of a connection, seen by the event queue. -/
def eof (i : Nat) : Kevent × Io := (⟨false, true, .conn i⟩, {})

theorem dispatch_eof {w : World} (ho : Owned w.kernel w.loop)
    (hlive : (w.loop.conn i).state ≠ .closed) :
    w.dispatch (eof i) =
      ⟨w.kernel.close (w.loop.conn i).fd, w.loop.destroyConnection i⟩ := by
  have hm := Moves.destroy_open ho hlive
  obtain ⟨as, ht, hk⟩ := hm.done
  have hd : w.loop.step (.event (eof i).1 (eof i).2) = w.loop.destroyConnection i :=
    dispatch_conn _ rfl
  simp only [dispatch, hd, ht, List.drop_left, hk]

/-- When many connections end in one batch, two changes for each of them must fail. -/
theorem eofs_failing {w : World} {slots : List Nat} (h : w.Inv) (hnd : slots.Nodup)
    (hlive : ∀ i ∈ slots, (w.loop.conn i).state ≠ .closed)
    (hclosed : ∀ ch ∈ w.loop.changelist, w.kernel.isOpen ch.ident = false) :
    ((slots.map eof).foldl dispatch w).failing =
      w.loop.changelist.length + 2 * slots.length := by
  induction slots generalizing w with
  | nil =>
    rw [List.map_nil, List.foldl_nil, failing, EventLoop.failing, Table.failures_of_closed,
      List.length_map]
    · rfl
    · intro op hop
      obtain ⟨ch, hch, rfl⟩ := List.mem_map.1 hop
      exact hclosed ch hch
  | cons i slots ih =>
    obtain ⟨l, hg, ho⟩ := h
    obtain ⟨hi, hnd⟩ := List.nodup_cons.1 hnd
    have hil := hlive i List.mem_cons_self
    obtain ⟨hfd, _⟩ := ho.isOpen i hil
    have hstep := dispatch_eof ho hil
    have hinv : (w.dispatch (eof i)).Inv := by
      rw [hstep]
      exact ⟨_, hg.destroy (hg.slots.live i hil), (Moves.destroy_open ho hil).owned⟩
    have hchs : (w.dispatch (eof i)).loop.changelist =
        w.loop.changelist ++ destroyChanges (w.loop.conn i).fd := by
      rw [hstep]
      exact destroyConnection_changelist w.loop i
    rw [List.map_cons, List.foldl_cons, ih hinv hnd, hchs, List.length_append, destroyChanges,
      if_pos hfd]
    · simp only [List.length_cons, List.length_nil]
      omega
    · intro j hj
      have hji : j ≠ i := fun he => hi (he ▸ hj)
      rw [hstep]
      change ((w.loop.destroyConnection i).conn j).state ≠ .closed
      rw [destroyConnection_state, if_neg hji]
      exact hlive j (List.mem_cons_of_mem _ hj)
    · intro ch hch
      rw [hchs, List.mem_append] at hch
      rw [hstep]
      change (w.kernel.close (w.loop.conn i).fd).isOpen ch.ident = false
      rw [Table.close_isOpen]
      rcases hch with hch | hch
      · rw [hclosed ch hch]
        exact ite_self _
      · have hid : ch.ident = (w.loop.conn i).fd := by
          rw [destroyChanges, if_pos hfd] at hch
          simp only [List.mem_cons, List.not_mem_nil, or_false] at hch
          rcases hch with rfl | rfl <;> rfl
        rw [if_pos hid]

/-- The clients `i` up to, but without, `i + n`, each with a descriptor of its own. -/
def clients (i n : Nat) : List (Nat × Int) := (List.range' i n).map fun j => (j + 10, 0)

theorem clients_accepts {k : Kernel} (i n : Nat) (h : ∀ fd, k.isOpen fd = false) :
    Accepts k (clients i n) := by
  refine ⟨?_, fun p _ => h p.1⟩
  rw [clients, List.map_map]
  apply List.Nodup.map _ List.nodup_range'
  intro a b he
  exact Nat.add_right_cancel he

/-- What `create_connection` does while there is room. -/
theorem createConnection_room {s : EventLoop} (fd now : Int)
    (h : s.pool.freeHead < maxConnections) : ∃ s',
    s.createConnection fd now = (s', some (s.pool.freeList s.pool.freeHead)) ∧
      s'.pool.freeList = s.pool.freeList ∧ s'.pool.freeHead = s.pool.freeHead + 1 ∧
      ∀ j, (s'.conn j).state =
        if j = s.pool.freeList s.pool.freeHead then .protoDetect else (s.conn j).state := by
  unfold createConnection
  rw [ConnectionPool.acquire_eq h]
  refine ⟨_, rfl, rfl, rfl, fun j => ?_⟩
  rw [conn_addEvents, conn_setConn]
  split <;> rfl

/-- As long as there is room, every client gets a slot. -/
theorem acceptLoop_clients {s : EventLoop} (hlist : s.pool.freeList = id)
    (hhead : s.pool.freeHead = m) (hroom : m + n ≤ maxConnections)
    (hlive : ∀ i < m, (s.conn i).state ≠ .closed) :
    ∀ i < m + n, ((s.acceptLoop (clients m n)).conn i).state ≠ .closed := by
  induction n generalizing s m with
  | zero => exact hlive
  | succ n ih =>
    have hlt : (s.log [.accept ((m + 10 : Nat) : Int)]).pool.freeHead < maxConnections := by
      change s.pool.freeHead < _
      omega
    obtain ⟨s', hc, hlist', hhead', hstate⟩ := 
      createConnection_room ((m + 10 : Nat) : Int) 0 hlt
    have hsplit : clients m (n + 1) = (m + 10, 0) :: clients (m + 1) n := rfl
    rw [hsplit, acceptLoop, hc]
    intro i hi
    refine ih (m := m + 1) (hlist'.trans hlist) ?_ (by omega) ?_ i (by omega)
    · rw [hhead']
      exact congrArg (· + 1) hhead
    · intro j hj
      have hslot : (s.log [.accept ((m + 10 : Nat) : Int)]).pool.freeList
          (s.log [.accept ((m + 10 : Nat) : Int)]).pool.freeHead = m := by
        change s.pool.freeList s.pool.freeHead = m
        rw [hlist, hhead]
        rfl
      rw [hstate, hslot]
      split
      · exact State.noConfusion
      · exact hlive j (by omega)

/-- Clients come, and then go, in one batch each. -/
def comeAndGo (n : Nat) : List (List (Kevent × Io)) :=
  [[(⟨false, false, .listener⟩, { accepts := clients 0 n })], (List.range n).map eof]

theorem comeAndGo_failing (server : FileServer) (timeout : Int) (tls : Bool)
    (hn : n ≤ maxConnections) :
    ((comeAndGo n).foldl round (create server timeout tls)).failing = 2 * n := by
  have hstart := (kevent_inv (create_inv server timeout tls)).1
  have hadm : (create server timeout tls).kevent.Admissible
      (⟨false, false, .listener⟩, { accepts := clients 0 n }) :=
    ⟨fresh_of_plain rfl rfl, clients_accepts 0 n fun _ => rfl⟩
  have hcome := kevent_inv (dispatch_inv hstart hadm).1
  have hlive : ∀ i ∈ List.range n, (((create server timeout tls).kevent.dispatch
      (⟨false, false, .listener⟩, { accepts := clients 0 n })).kevent.loop.conn i).state ≠
        .closed := by
    intro i hi
    have hroom : 0 + n ≤ maxConnections := (Nat.zero_add n).symm ▸ hn
    have hi' : i < 0 + n := (Nat.zero_add n).symm ▸ List.mem_range.1 hi
    exact acceptLoop_clients (s := (EventLoop.create server timeout tls).step .kevent)
      rfl rfl hroom (fun j hj => absurd hj (Nat.not_lt_zero j)) i hi'
  have hgo := eofs_failing hcome.1 List.nodup_range hlive (fun ch hch => nomatch hch)
  rw [List.length_range] at hgo
  exact hgo.trans (Nat.zero_add _)

theorem many_eofs_fill_event_list :
    ¬ ((comeAndGo 513).foldl round (create ⟨bytes "/srv"⟩ 75 false)).failing ≤ maxEvents := by
  rw [comeAndGo_failing _ _ _ (by decide)]
  decide

theorem failing_le_maxEvents_greeting :
    Run.Throughout round (fun w => w.failing ≤ maxEvents) (create ⟨bytes "/srv"⟩ 75 false)
      [[(⟨false, false, .listener⟩, { accepts := clients 0 1 })],
        [(⟨false, false, .conn 0⟩, { peek := .done (some 0x47) })]] :=
  failing_le_maxEvents _ _ _ _
    ⟨⟨⟨⟨fresh_of_plain rfl rfl, clients_accepts 0 1 fun _ => rfl⟩, trivial⟩, by decide⟩,
      ⟨⟨⟨fresh_of_plain rfl rfl, List.nodup_nil, nofun⟩, trivial⟩, by decide⟩, trivial⟩

end World

end FileWebServer
