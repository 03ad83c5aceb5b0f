import FileWebServer.Core.ConnectionSteps
import FileWebServer.Lib.Run

namespace FileWebServer
open ConnectionPool
set_option autoImplicit true

/-- How often a slot has been handed out: the number tells its tenants apart. -/
def acquires (trace : List Action) (i : Nat) : Nat := trace.count (.acquire i)

/-- How often a slot has been returned. -/
def releases (trace : List Action) (i : Nat) : Nat := trace.count (.release i)

/-- No slot is released more often than it has been acquired, at any time. -/
def ReleasesOnce (trace : List Action) : Prop :=
  ∀ (past : List Action) (i : Nat), past <+: trace → releases past i ≤ acquires past i

theorem releasesOnce_nil : ReleasesOnce [] := by
  intro past i h
  rw [List.prefix_nil.1 h]
  exact Nat.le_refl _

theorem ReleasesOnce.le {t : List Action} (h : ReleasesOnce t) (i : Nat) :
    releases t i ≤ acquires t i := h t i (List.prefix_refl t)

theorem releasesOnce_concat {t : List Action} {a : Action} : ReleasesOnce (t ++ [a]) ↔
    ReleasesOnce t ∧ ∀ i, releases (t ++ [a]) i ≤ acquires (t ++ [a]) i := by
  constructor
  · intro h
    exact ⟨fun past i hp => h past i (hp.trans (List.prefix_append ..)), fun i => h.le i⟩
  · rintro ⟨ht, hl⟩ past i hp
    rcases List.prefix_concat_iff.1 hp with rfl | hp
    · exact hl i
    · exact ht past i hp

theorem count_eq_zero_of_traffic {as : List Action} {a : Action} (ha : a.isTraffic = true)
    (h : a ∉ traffic as) : as.count a = 0 := by
  rw [List.count_eq_zero]
  exact fun hm => h (List.mem_filter.2 ⟨hm, ha⟩)

/-- Actions without traffic of the pool. -/
def PoolQuiet (as : List Action) : Prop :=
  ∀ i, Action.acquire i ∉ traffic as ∧ Action.release i ∉ traffic as

section
variable {as t : List Action}

theorem PoolQuiet.acquires_eq (h : PoolQuiet as) (t : List Action) (i : Nat) :
    acquires (t ++ as) i = acquires t i := by
  rw [acquires, acquires, List.count_append, count_eq_zero_of_traffic rfl (h i).1, Nat.add_zero]

theorem PoolQuiet.releases_eq (h : PoolQuiet as) (t : List Action) (i : Nat) :
    releases (t ++ as) i = releases t i := by
  rw [releases, releases, List.count_append, count_eq_zero_of_traffic rfl (h i).2, Nat.add_zero]

theorem PoolQuiet.of_traffic (h : traffic as = []) : PoolQuiet as := by
  intro i
  rw [h]
  simp

theorem PoolQuiet.of_hung {c : Connection} (h : traffic as = c.hung) : PoolQuiet as := by
  intro i
  rw [h, Connection.hung]
  split <;> simp

theorem PoolQuiet.of_append {bs : List Action} (h : PoolQuiet (as ++ bs)) : PoolQuiet as := by
  intro i
  have hi := h i
  rw [traffic_append] at hi
  exact ⟨fun hm => hi.1 (List.mem_append_left _ hm), fun hm => hi.2 (List.mem_append_left _ hm)⟩

theorem PoolQuiet.releasesOnce (h : PoolQuiet as) (ht : ReleasesOnce t) :
    ReleasesOnce (t ++ as) := by
  induction as using List.reverseRecOn with
  | nil => rwa [List.append_nil]
  | append_singleton as a ih =>
    have hall : ∀ i, releases (t ++ (as ++ [a])) i ≤ acquires (t ++ (as ++ [a])) i := by
      intro i
      rw [h.acquires_eq, h.releases_eq]
      exact ht.le i
    rw [← List.append_assoc] at *
    exact releasesOnce_concat.2 ⟨ih h.of_append, hall⟩

end

theorem acquires_acquire (t : List Action) (i j : Nat) :
    acquires (t ++ [.acquire i]) j = acquires t j + if j = i then 1 else 0 := by
  rw [acquires, acquires, List.count_append, List.count_singleton]
  by_cases hj : j = i
  · simp [hj]
  · simp [hj, Ne.symm hj]

theorem releases_acquire (t : List Action) (i j : Nat) :
    releases (t ++ [.acquire i]) j = releases t j := by
  simp [releases, List.count_append]

theorem acquires_release (t : List Action) (i j : Nat) :
    acquires (t ++ [.release i]) j = acquires t j := by
  simp [acquires, List.count_append]

theorem releases_release (t : List Action) (i j : Nat) :
    releases (t ++ [.release i]) j = releases t j + if j = i then 1 else 0 := by
  rw [releases, releases, List.count_append, List.count_singleton]
  by_cases hj : j = i
  · simp [hj]
  · simp [hj, Ne.symm hj]

namespace EventLoop
variable {s s' : EventLoop} {i j : Nat}

theorem destroyConnection_trace (s : EventLoop) (i : Nat) :
    (s.destroyConnection i).trace =
      s.trace ++ (s.conn i).closeActions ++ releaseActions i := by
  have hcore := removeFromKeepaliveList_core s i
  have ht := core_trace hcore
  have hc := Connection.core_closeActions (core_conn hcore i)
  change (s.removeFromKeepaliveList i).trace ++
    ((s.removeFromKeepaliveList i).conn i).closeActions ++ releaseActions i = _
  rw [ht, hc]

theorem destroyConnection_changelist (s : EventLoop) (i : Nat) :
    (s.destroyConnection i).changelist = s.changelist ++ destroyChanges (s.conn i).fd := by
  have hcore := removeFromKeepaliveList_core s i
  have hl := core_changelist hcore
  have hc := Connection.core_fd (core_conn hcore i)
  change (s.removeFromKeepaliveList i).changelist ++
    destroyChanges ((s.removeFromKeepaliveList i).conn i).fd = _
  rw [hl, hc]

theorem destroyConnection_conn (s : EventLoop) (i j : Nat) :
    ((s.destroyConnection i).conn j).core =
      if j = i then (s.conn i).core.close else (s.conn j).core := by
  have hcore := core_conn (removeFromKeepaliveList_core s i)
  have hconn : (s.destroyConnection i).conn j = if j = i then
      ((s.removeFromKeepaliveList i).conn i).close else (s.removeFromKeepaliveList i).conn j := by
    change ((s.removeFromKeepaliveList i).pool.set i _ |>.release i).connections j = _
    rw [release_connections]
    exact Function.update_apply ..
  rw [hconn]
  split
  · rw [Connection.core_close, hcore i]
  · exact hcore j

theorem destroyConnection_state (s : EventLoop) (i j : Nat) :
    ((s.destroyConnection i).conn j).state = if j = i then .closed else (s.conn j).state := by
  have h := congrArg Connection.state (destroyConnection_conn s i j)
  change ((s.destroyConnection i).conn j).state = _ at h
  rw [h]
  split
  · exact Connection.close_state _
  · rfl

/-- `destroyConnection` gives the slot back as it is asked to. -/
theorem destroyConnection_slots (s : EventLoop) (i : Nat) :
    SameSlots (s.destroyConnection i).pool (s.pool.release i) := by
  have hcore := core_slots (removeFromKeepaliveList_core s i)
  have hset : SameSlots ((s.removeFromKeepaliveList i).pool.set i
      ((s.removeFromKeepaliveList i).conn i).close) s.pool := ⟨hcore.1, hcore.2, hcore.3⟩
  exact hset.release i

/-- Destroying a connection takes it out of the list, if it is in there. -/
theorem destroyConnection_links (s : EventLoop) (i : Nat) :
    (s.destroyConnection i).links = (s.removeFromKeepaliveList i).links := by
  have hlinks := setConn_links (s := s.removeFromKeepaliveList i) (i := i)
    (Connection.close_place ((s.removeFromKeepaliveList i).conn i))
  simp only [destroyConnection, log, links, conn, release_connections]
  exact hlinks

theorem destroyConnection_listed {l : List Nat} (h : s.Listed l) (i : Nat) :
    (s.destroyConnection i).Listed (l.erase i) := by
  have hr : (s.removeFromKeepaliveList i).Listed (l.erase i) := h.remove i
  have hc := hr.setConn (i := i) (Connection.close_place _)
  apply hc.congr
  · unfold links
    simp only [destroyConnection, log, conn, release_connections]
    rfl
  · intro j
    unfold listed
    simp only [destroyConnection, log, conn, release_connections]
    rfl

/-- What the pool, the connections and the record of what was done have to do with each other:
an open connection has its slot, and each slot in use was acquired once more than released. -/
structure SlotInv (s : EventLoop) : Prop where
  pool : s.pool.Wf
  live : ∀ i, (s.conn i).state ≠ .closed → s.pool.InUse i
  once : ReleasesOnce s.trace
  held : ∀ i, s.pool.InUse i → acquires s.trace i = releases s.trace i + 1
  free : ∀ i, ¬ s.pool.InUse i → acquires s.trace i = releases s.trace i

/-- A step of a connection that has its slot. -/
theorem SlotInv.step {r : Outcome} (h : SlotInv s) (hi : s.pool.InUse i)
    (has : PoolQuiet r.actions) : SlotInv (s.writeBack i r) := by
  refine ⟨h.pool.set i r.conn, ?_, has.releasesOnce h.once, ?_, ?_⟩
  · intro j hj
    rw [conn_writeBack] at hj
    split at hj
    · next he =>
      rw [he]
      exact hi
    · exact h.live j hj
  · intro j hj
    change acquires (s.trace ++ r.actions) j = releases (s.trace ++ r.actions) j + 1
    rw [has.acquires_eq, has.releases_eq]
    exact h.held j hj
  · intro j hj
    change acquires (s.trace ++ r.actions) j = releases (s.trace ++ r.actions) j
    rw [has.acquires_eq, has.releases_eq]
    exact h.free j hj

theorem SlotInv.of_core (h : SlotInv s) (hcore : s'.core = s.core) : SlotInv s' := by
  have hslots := core_slots hcore
  have ht := core_trace hcore
  refine ⟨hslots.wf h.pool, ?_, ht ▸ h.once, ?_, ?_⟩
  · intro i hi
    rw [Connection.core_state (core_conn hcore i)] at hi
    exact hslots.inUse.2 (h.live i hi)
  · intro i hi
    rw [ht]
    exact h.held i (hslots.inUse.1 hi)
  · intro i hi
    rw [ht]
    exact h.free i (fun hu => hi (hslots.inUse.2 hu))

theorem releaseActions_of_inUse {p : ConnectionPool Connection} (hi : p.InUse i) :
    releaseActions i = [.release i] := if_pos hi.1

theorem closeActions_poolQuiet (c : Connection) : PoolQuiet c.closeActions := by
  by_cases hc : c.state = .closed
  · apply PoolQuiet.of_traffic
    rw [Connection.closeActions, if_pos hc]
    rfl
  · exact PoolQuiet.of_hung (Connection.traffic_closeActions hc)

theorem SlotInv.destroy (h : SlotInv s) (hi : s.pool.InUse i) :
    SlotInv (s.destroyConnection i) := by
  have hslots := destroyConnection_slots s i
  have huse : ∀ j, (s.destroyConnection i).pool.InUse j ↔ s.pool.InUse j ∧ j ≠ i := by
    intro j
    exact hslots.inUse.trans (release_inUse h.pool hi j)
  have hq := closeActions_poolQuiet (s.conn i)
  have ht : (s.destroyConnection i).trace =
      (s.trace ++ (s.conn i).closeActions) ++ [.release i] := by
    rw [destroyConnection_trace, releaseActions_of_inUse hi]
  have hacq : ∀ j, acquires (s.destroyConnection i).trace j = acquires s.trace j := by
    intro j
    rw [ht, acquires_release, hq.acquires_eq]
  have hrel : ∀ j, releases (s.destroyConnection i).trace j =
      releases s.trace j + if j = i then 1 else 0 := by
    intro j
    rw [ht, releases_release, hq.releases_eq]
  have hheld := h.held i hi
  refine ⟨hslots.wf (release_wf h.pool hi), ?_, ?_, ?_, ?_⟩
  · intro j hj
    rw [destroyConnection_state] at hj
    split at hj
    · exact (hj rfl).elim
    · next hji => exact (huse j).2 ⟨h.live j hj, hji⟩
  · rw [ht]
    refine releasesOnce_concat.2 ⟨hq.releasesOnce h.once, fun j => ?_⟩
    rw [← ht, hacq, hrel]
    have hle := h.once.le j
    split
    · next hji =>
      rw [hji]
      omega
    · exact hle
  · intro j hj
    obtain ⟨hju, hji⟩ := (huse j).1 hj
    rw [hacq, hrel, if_neg hji]
    exact h.held j hju
  · intro j hj
    rw [hacq, hrel]
    split
    · next hji =>
      rw [hji]
      exact hheld
    · next hji => exact h.free j (fun hju => hj ((huse j).2 ⟨hju, hji⟩))

/-- The invariant of the event loop, with the keep-alive list spelled out: the connections that
wait for a request are those in the list. -/
structure Good (s : EventLoop) (l : List Nat) : Prop where
  slots : SlotInv s
  list : s.Listed l
  waits : ∀ i, i ∈ l ↔ (s.conn i).state = .keepAlive

theorem create_good (server : FileServer) (timeout : Int) (tls : Bool) :
    Good (create server timeout tls) [] := by
  refine ⟨⟨create_wf _, fun i hi => (hi rfl).elim, releasesOnce_nil, ?_, fun _ _ => rfl⟩,
    ⟨⟨rfl, List.nodup_nil⟩, fun i => by simp [listed, create, conn, ConnectionPool.create]⟩, ?_⟩
  · intro i hi
    exact (not_inUse_create _ i hi).elim
  · intro i
    simp [create, conn, ConnectionPool.create]

/-- Destroying a connection whose state has changed since the list was last brought up to date. -/
theorem destroyConnection_good {l : List Nat} (hs : SlotInv s) (hl : s.Listed l)
    (hw : ∀ j, j ≠ i → (j ∈ l ↔ (s.conn j).state = .keepAlive)) (hi : s.pool.InUse i) :
    Good (s.destroyConnection i) (l.erase i) := by
  refine ⟨hs.destroy hi, destroyConnection_listed hl i, fun j => ?_⟩
  rw [destroyConnection_state, hl.links.nodup.mem_erase_iff]
  split
  · next hji => simp [hji]
  · next hji => simp [hji, hw j hji]

theorem Good.destroy {l : List Nat} (h : Good s l) (hi : s.pool.InUse i) :
    Good (s.destroyConnection i) (l.erase i) :=
  destroyConnection_good h.slots h.list (fun j _ => h.waits j) hi

/-- A pointer from outside the pool destroys nothing. -/
theorem Good.destroy_outside {l : List Nat} (h : Good s l) (hi : maxConnections ≤ i) :
    Good (s.destroyConnection i) l := by
  have hnot : ¬ s.pool.InUse i := fun hu => absurd hu.1 (Nat.not_lt_of_le hi)
  have hclosed : (s.conn i).state = .closed := by
    by_contra hc
    exact hnot (h.slots.live i hc)
  have hil : i ∉ l := by
    rw [h.waits i, hclosed]
    exact State.noConfusion
  have hstate : ∀ j, ((s.destroyConnection i).conn j).state = (s.conn j).state := by
    intro j
    rw [destroyConnection_state]
    split
    · next hji => rw [hji, hclosed]
    · rfl
  have ht : (s.destroyConnection i).trace = s.trace := by
    rw [destroyConnection_trace, Connection.closeActions, if_pos hclosed, releaseActions,
      if_neg (Nat.not_lt_of_le hi)]
    simp
  have hslots : SameSlots (s.destroyConnection i).pool s.pool := by
    have hd := destroyConnection_slots s i
    rwa [ConnectionPool.release, if_pos hi] at hd
  have hlist := destroyConnection_listed h.list i
  rw [List.erase_of_not_mem hil] at hlist
  refine ⟨⟨hslots.wf h.slots.pool, ?_, ht ▸ h.slots.once, ?_, ?_⟩, hlist, ?_⟩
  · intro j hj
    rw [hstate] at hj
    exact hslots.inUse.2 (h.slots.live j hj)
  · intro j hj
    rw [ht]
    exact h.slots.held j (hslots.inUse.1 hj)
  · intro j hj
    rw [ht]
    exact h.slots.free j (fun hu => hj (hslots.inUse.2 hu))
  · intro j
    rw [hstate]
    exact h.waits j

/-- Nothing that the invariant speaks of depends on the change list. -/
theorem Good.queue {l : List Nat} (h : Good s l) (chs : List Change) :
    Good { s with changelist := chs } l := by
  obtain ⟨⟨hp, hlive, honce, hheld, hfree⟩, ⟨hl, hf⟩, hw⟩ := h
  exact ⟨⟨hp, hlive, honce, hheld, hfree⟩, ⟨hl, hf⟩, hw⟩

theorem Good.log {l : List Nat} {as : List Action} (h : Good s l) (has : PoolQuiet as) :
    Good (s.log as) l := by
  obtain ⟨⟨hp, hlive, honce, hheld, hfree⟩, ⟨hl, hf⟩, hw⟩ := h
  refine ⟨⟨hp, hlive, has.releasesOnce honce, ?_, ?_⟩, ⟨hl, hf⟩, hw⟩
  · intro i hi
    rw [EventLoop.log, has.acquires_eq, has.releases_eq]
    exact hheld i hi
  · intro i hi
    rw [EventLoop.log, has.acquires_eq, has.releases_eq]
    exact hfree i hi

/-- What a successful `create_connection` does. -/
theorem createConnection_some {fd now : Int} (h : s.createConnection fd now = (s', some i)) :
    ∃ pool, s.pool.acquire = (pool, some i) ∧
      s' = ((({ s with pool := pool }.log [.acquire i]).setConn i
        { (s.conn i).init fd s.fileServer.rootDir s.keepAliveTimeout now with
          tlsAvailable := s.tlsCtx }).addEvents [⟨fd, .read, false, .conn i⟩]) := by
  unfold createConnection at h
  split at h
  · cases h
  · next pool k ha =>
    cases h
    obtain ⟨_, rfl, rfl⟩ := acquire_some ha
    exact ⟨_, ha, rfl⟩

theorem createConnection_conn {fd now : Int} (hc : s.createConnection fd now = (s', some i)) :
    s'.conn j = if j = i then
        { (s.conn i).init fd s.fileServer.rootDir s.keepAliveTimeout now with
          tlsAvailable := s.tlsCtx }
      else s.conn j := by
  obtain ⟨pool, ha, rfl⟩ := createConnection_some hc
  obtain ⟨_, _, rfl⟩ := acquire_some ha
  rw [conn_addEvents, conn_setConn]
  rfl

/-- What `create_connection` takes from the pool. -/
theorem createConnection_slot {fd now : Int} (hc : s.createConnection fd now = (s', some i)) :
    s.pool.freeHead < maxConnections ∧ i = s.pool.freeList s.pool.freeHead ∧
      s'.pool.freeHead = s.pool.freeHead + 1 ∧ s'.pool.freeList = s.pool.freeList ∧
      s'.trace = s.trace ++ [.acquire i] := by
  obtain ⟨pool, ha, rfl⟩ := createConnection_some hc
  obtain ⟨hlt, hi, rfl⟩ := acquire_some ha
  exact ⟨hlt, hi, rfl, rfl, rfl⟩

theorem createConnection_changelist {fd now : Int}
    (hc : s.createConnection fd now = (s', some i)) :
    s'.changelist = s.changelist ++ [⟨fd, .read, false, .conn i⟩] := by
  obtain ⟨pool, _, rfl⟩ := createConnection_some hc
  rfl

theorem createConnection_none {fd now : Int} (h : s.createConnection fd now = (s', none)) :
    s' = s := by
  unfold createConnection at h
  split at h
  · cases h
    rfl
  · cases h

theorem createConnection_full {fd now : Int} (h : s.createConnection fd now = (s', none)) :
    maxConnections ≤ s.pool.freeHead := by
  by_contra hlt
  unfold createConnection at h
  rw [ConnectionPool.acquire_eq (Nat.lt_of_not_le hlt)] at h
  cases h

theorem SlotInv.acquire {pool : ConnectionPool Connection} {c : Connection} (h : SlotInv s)
    (ha : s.pool.acquire = (pool, some i)) :
    SlotInv (({ s with pool := pool }.log [.acquire i]).setConn i c) := by
  have huse := acquire_inUse h.pool ha
  have hfree := acquire_fresh ha
  have hconn : ({ s with pool := pool } : EventLoop).conn = s.conn := by
    obtain ⟨_, _, rfl⟩ := acquire_some ha
    rfl
  refine ⟨(acquire_wf h.pool ha).set i c, ?_, ?_, ?_, ?_⟩
  · intro j hj
    rw [conn_setConn] at hj
    split at hj
    · next hji => exact (huse j).2 (.inl hji)
    · rw [conn_log, hconn] at hj
      exact (huse j).2 (.inr (h.live j hj))
  · refine releasesOnce_concat.2 ⟨h.once, fun j => ?_⟩
    rw [releases_acquire, acquires_acquire]
    exact Nat.le_trans (h.once.le j) (Nat.le_add_right ..)
  · intro j hj
    change acquires (s.trace ++ [.acquire i]) j = releases (s.trace ++ [.acquire i]) j + 1
    rw [releases_acquire, acquires_acquire]
    rcases (huse j).1 hj with rfl | hju
    · rw [h.free j hfree, if_pos rfl]
    · have hji : j ≠ i := fun hji => hfree (hji ▸ hju)
      rw [if_neg hji]
      exact h.held j hju
  · intro j hj
    change acquires (s.trace ++ [.acquire i]) j = releases (s.trace ++ [.acquire i]) j
    rw [releases_acquire, acquires_acquire, if_neg (fun hji => hj ((huse j).2 (.inl hji)))]
    exact h.free j (fun hju => hj ((huse j).2 (.inr hju)))

theorem Good.create {l : List Nat} {fd now : Int} (h : Good s l)
    (hc : s.createConnection fd now = (s', some i)) : Good s' l := by
  obtain ⟨pool, ha, rfl⟩ := createConnection_some hc
  have hclosed : (s.conn i).state = .closed := by
    by_contra hne
    exact acquire_fresh ha (h.slots.live i hne)
  have hil : i ∉ l := by
    rw [h.waits i, hclosed]
    exact State.noConfusion
  have hconn : ({ s with pool := pool } : EventLoop).conn = s.conn := by
    obtain ⟨_, _, rfl⟩ := acquire_some ha
    rfl
  have hl : ({ s with pool := pool }.log [.acquire i]).Listed l := by
    apply h.list.congr
    · simp only [links, conn_log, hconn]
      rfl
    · intro j
      simp only [listed, conn_log, hconn]
  refine Good.queue ⟨h.slots.acquire ha, hl.setConn_of_notMem hil rfl, fun j => ?_⟩ _
  rw [conn_setConn]
  split
  · next hji =>
    rw [hji]
    exact iff_of_false hil State.noConfusion
  · rw [conn_log, hconn]
    exact h.waits j

/-- The rule of the loop of `handle_accept`: `Q fds` holds while the descriptors `fds` are still
to be taken. -/
theorem acceptLoop_rule {Q : List (Nat × Int) → EventLoop → Prop} {l : List Nat}
    {fds : List (Nat × Int)}
    (hcreate : ∀ s s' l i fd now rest, Good s l → Q ((fd, now) :: rest) s →
      (s.log [.accept fd]).createConnection fd now = (s', some i) → Q rest s')
    (hfull : ∀ s l fd now rest, Good s l → Q ((fd, now) :: rest) s →
      Q [] ((s.log [.accept fd]).log [.close fd]))
    (h : Good s l) (hQ : Q fds s) : Good (s.acceptLoop fds) l ∧ Q [] (s.acceptLoop fds) := by
  induction fds generalizing s with
  | nil => exact ⟨h, hQ⟩
  | cons p rest ih =>
    obtain ⟨fd, now⟩ := p
    have hlog : Good (s.log [.accept fd]) l := h.log (fun i => by simp [traffic, Action.isTraffic])
    unfold acceptLoop
    split
    · next s' hs' =>
      rw [createConnection_none hs']
      exact ⟨hlog.log (fun i => by simp [traffic, Action.isTraffic]), hfull s l fd now rest h hQ⟩
    · next s' j hs' => exact ih (hlog.create hs') (hcreate s s' l j fd now rest h hQ hs')

theorem acceptLoop_good {l : List Nat} (fds : List (Nat × Int)) (h : Good s l) :
    Good (s.acceptLoop fds) l :=
  (acceptLoop_rule (Q := fun _ _ => True) (fun _ _ _ _ _ _ _ _ _ _ => trivial)
    (fun _ _ _ _ _ _ _ => trivial) h trivial).1

/-- The rule of the sweep: `Q rest` holds while the connections `rest` of the list are still to
be looked at. -/
theorem timerLoop_rule {Q : List Nat → EventLoop → Prop} {rest kept : List Nat}
    (clock : Nat → Int)
    (hdestroy : ∀ s kept i rest, Good s (kept ++ i :: rest) → s.pool.InUse i →
      (s.conn i).isExpired (clock i) s.keepAliveTimeout = true → Q (i :: rest) s →
      Q rest (s.destroyConnection i))
    (hkeep : ∀ s kept i rest, Good s (kept ++ i :: rest) →
      ¬ (s.conn i).isExpired (clock i) s.keepAliveTimeout = true → Q (i :: rest) s → Q rest s)
    (h : Good s (kept ++ rest)) (hfuel : rest.length < fuel) (hQ : Q rest s) :
    (∃ l, Good (timerLoop clock fuel s rest.head?) l) ∧
      Q [] (timerLoop clock fuel s rest.head?) := by
  induction rest generalizing s kept fuel with
  | nil =>
    cases fuel with
    | zero => exact ⟨⟨_, h⟩, hQ⟩
    | succ fuel => exact ⟨⟨_, h⟩, hQ⟩
  | cons i rest ih =>
    cases fuel with
    | zero => simp at hfuel
    | succ fuel =>
      have hnext : (s.conn i).keepaliveNext = rest.head? := h.list.links.next_eq
      have hnd := h.list.links.nodup
      have hil : i ∉ kept := by
        intro hi
        exact (List.nodup_append.1 hnd).2.2 i hi i List.mem_cons_self rfl
      have hfuel' : rest.length < fuel := Nat.lt_of_succ_lt_succ hfuel
      simp only [List.head?_cons, timerLoop, hnext]
      split
      · next hexp =>
        have hu : s.pool.InUse i := by
          apply h.slots.live
          rw [(h.waits i).1 (by simp)]
          exact State.noConfusion
        have hd := h.destroy hu
        rw [List.erase_append_right _ hil, List.erase_cons_head] at hd
        exact ih hd hfuel' (hdestroy s kept i rest h hu hexp hQ)
      · next hexp =>
        have h' : Good s ((kept ++ [i]) ++ rest) := by simpa using h
        exact ih h' hfuel' (hkeep s kept i rest h hexp hQ)

/-- A list of slots is no longer than the pool. -/
theorem length_le_of_slots {l : List Nat} (hnd : l.Nodup) (h : ∀ i ∈ l, i < maxConnections) :
    l.length ≤ maxConnections := by
  have hsub : l ⊆ List.range maxConnections := fun i hi => List.mem_range.2 (h i hi)
  have hle := (hnd.subperm hsub).length_le
  rwa [List.length_range] at hle

theorem Good.length_le {l : List Nat} (h : Good s l) : l.length ≤ maxConnections := by
  apply length_le_of_slots h.list.links.nodup
  intro i hi
  have hlive := (h.waits i).1 hi
  have hu := h.slots.live i (by rw [hlive]; exact State.noConfusion)
  exact hu.1

theorem handleTimer_rule {Q : List Nat → EventLoop → Prop} {l : List Nat} (io : Io)
    (hdestroy : ∀ s kept i rest, Good s (kept ++ i :: rest) → s.pool.InUse i →
      (s.conn i).isExpired (io.clock i) s.keepAliveTimeout = true → Q (i :: rest) s →
      Q rest (s.destroyConnection i))
    (hkeep : ∀ s kept i rest, Good s (kept ++ i :: rest) →
      ¬ (s.conn i).isExpired (io.clock i) s.keepAliveTimeout = true → Q (i :: rest) s → Q rest s)
    (h : Good s l) (hQ : Q l s) : (∃ l', Good (s.handleTimer io) l') ∧ Q [] (s.handleTimer io) := by
  have hhead : s.keepaliveHead = l.head? := h.list.links.head_eq
  unfold handleTimer
  rw [hhead]
  have h' : Good s ([] ++ l) := h
  exact timerLoop_rule io.clock hdestroy hkeep h' (Nat.lt_succ_of_le h.length_le) hQ

theorem handleTimer_good {l : List Nat} (io : Io) (h : Good s l) :
    ∃ l', Good (s.handleTimer io) l' :=
  (handleTimer_rule (Q := fun _ _ => True) io (fun _ _ _ _ _ _ _ _ => trivial)
    (fun _ _ _ _ _ _ _ => trivial) h trivial).1

/-- The keep-alive list is brought up to date after a step of a connection. -/
theorem syncKeepaliveList_good {l : List Nat} {prev : State} (hs : SlotInv s) (hl : s.Listed l)
    (hw : ∀ j, j ≠ i → (j ∈ l ↔ (s.conn j).state = .keepAlive))
    (hi : i ∈ l ↔ prev = .keepAlive) : ∃ l', Good (s.syncKeepaliveList i prev) l' := by
  have hslots := hs.of_core (syncKeepaliveList_core s i prev)
  have hstate : ∀ j, ((s.syncKeepaliveList i prev).conn j).state = (s.conn j).state :=
    fun j => Connection.core_state (core_conn (syncKeepaliveList_core s i prev) j)
  unfold syncKeepaliveList at *
  split
  · next h =>
    have hil : i ∉ l := fun hm => h.1 (hi.1 hm)
    rw [if_pos h] at hslots hstate
    refine ⟨i :: l, hslots, hl.add hil, fun j => ?_⟩
    rw [hstate, List.mem_cons]
    by_cases hji : j = i
    · rw [hji]
      exact iff_of_true (.inl rfl) h.2
    · rw [← hw j hji]
      exact or_iff_right hji
  · next hadd =>
    rw [if_neg hadd] at hslots hstate
    split
    · next h =>
      rw [if_pos h] at hslots hstate
      refine ⟨l.erase i, hslots, hl.remove i, fun j => ?_⟩
      rw [hstate, hl.links.nodup.mem_erase_iff]
      by_cases hji : j = i
      · rw [hji]
        exact iff_of_false (fun hm => hm.1 rfl) h.2
      · rw [← hw j hji]
        exact and_iff_right hji
    · next hremove =>
      refine ⟨l, hs, hl, fun j => ?_⟩
      by_cases hji : j = i
      · rw [hji, hi]
        by_contra hne
        tauto
      · exact hw j hji

theorem Good.updateEvents {l : List Nat} (h : Good s l) (i : Nat) (want : Want) :
    Good (s.updateEvents i want) l := by
  unfold EventLoop.updateEvents
  dsimp only
  split
  · exact h
  · exact h.queue _

theorem Listed.writeBack {l : List Nat} {r : Outcome} (h : s.Listed l)
    (hr : r.conn.place = (s.conn i).place) : (s.writeBack i r).Listed l :=
  (h.setConn hr).congr rfl (fun _ => rfl)

theorem processConnection_good {l : List Nat} (io : Io) (i : Nat) (h : Good s l) :
    ∃ l', Good (s.processConnection io i) l' := by
  have hwaits {r : Outcome} : ∀ j, j ≠ i →
      (j ∈ l ↔ ((s.writeBack i r).conn j).state = .keepAlive) := by
    intro j hji
    rw [conn_writeBack, if_neg hji]
    exact h.waits j
  rcases processConnection_cases s io i with
    ⟨_, hp⟩ | ⟨hlive, _, r, hr, hp⟩ | ⟨hlive, _, r, _, hr, hp⟩
  · rw [hp]
    exact ⟨l, h⟩
  · rw [hp]
    have hu := h.slots.live i hlive
    exact ⟨_, destroyConnection_good (h.slots.step hu (.of_hung hr.traffic))
      (h.list.writeBack hr.place) hwaits hu⟩
  · rw [hp]
    have hu := h.slots.live i hlive
    have hq : PoolQuiet r.actions := by
      rcases hr with ⟨_, hr⟩ | ⟨_, hr⟩
      · exact .of_hung hr.traffic
      · exact .of_traffic hr.quiet
    obtain ⟨l', hg⟩ := syncKeepaliveList_good (h.slots.step hu hq) (h.list.writeBack hr.place)
      hwaits (h.waits i)
    exact ⟨l', hg.updateEvents i _⟩

/-- An event that ends a connection finds the slot of that connection in use. -/
def Fresh (s : EventLoop) (ev : Kevent) : Prop :=
  ∀ i, (ev.error ∨ ev.eof) → ev.udata = .conn i → i < maxConnections → s.pool.InUse i

theorem dispatch_good {l : List Nat} {ev : Kevent} (io : Io) (h : Good s l) (hf : s.Fresh ev) :
    ∃ l', Good (s.dispatch io ev) l' := by
  unfold dispatch
  split
  · next hend =>
    cases hu : ev.udata with
    | conn i =>
      by_cases hi : i < maxConnections
      · exact ⟨_, h.destroy (hf i hend hu hi)⟩
      · exact ⟨l, h.destroy_outside (Nat.le_of_not_lt hi)⟩
    | null => exact ⟨l, h⟩
    | listener => exact ⟨l, h⟩
    | timer => exact ⟨l, h⟩
  · cases ev.udata with
    | conn i => exact processConnection_good io i h
    | null => exact ⟨l, h⟩
    | listener => exact ⟨l, acceptLoop_good io.accepts h⟩
    | timer => exact handleTimer_good io h

/-- An event that is not fresh destroys a connection whose slot nobody has. -/
theorem dispatch_not_fresh {ev : Kevent} (io : Io) (h : ¬ s.Fresh ev) :
    ∃ i, s.dispatch io ev = s.destroyConnection i ∧ i < maxConnections ∧ ¬ s.pool.InUse i := by
  simp only [Fresh, not_forall] at h
  obtain ⟨i, hend, hu, hi, hnot⟩ := h
  refine ⟨i, ?_, hi, hnot⟩
  unfold dispatch
  rw [if_pos hend, hu]

end EventLoop

end FileWebServer
