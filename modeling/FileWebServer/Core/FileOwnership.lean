import FileWebServer.Core.Files
import FileWebServer.Core.Histories

namespace FileWebServer
open Ledger Connection
set_option autoImplicit true
set_option maxRecDepth 20000

/-- How often a descriptor has been obtained from `open`. -/
def fileOpens (trace : List Action) (fd : Int) : Nat := trace.count (.openFile fd)

/-- How often it has been closed. -/
def fileCloses (trace : List Action) (fd : Int) : Nat := trace.count (.closeFile fd)

theorem count_files (as : List Action) (fd : Int) :
    (files as).count (.opened fd) = fileOpens as fd ∧
      (files as).count (.closed fd) = fileCloses as fd := by
  unfold fileOpens fileCloses
  induction as with
  | nil => exact ⟨rfl, rfl⟩
  | cons a as ih =>
    obtain ⟨ho, hc⟩ := ih
    have hcons : files (a :: as) = a.entry.toList ++ files as := by
      cases a <;> rfl
    rw [hcons, List.count_append, List.count_append, ho, hc, List.count_cons, List.count_cons]
    cases a <;> simp [Action.entry, List.count_cons, Nat.add_comm]

namespace EventLoop
variable {s s' : EventLoop} {i j : Nat} {lost : Multiset Int}

theorem files_releaseActions (i : Nat) : files (releaseActions i) = [] := by
  unfold releaseActions
  split <;> rfl

/-- How many connections own a descriptor. -/
def fileHolders (s : EventLoop) (fd : Int) : Nat :=
  ((Finset.range maxConnections).filter fun i => (s.conn i).fileFd = fd).card

/-- Every descriptor that has been obtained from `open` and not been closed is owned by a
connection of its own, and none is closed more often than it has been obtained, at any time. -/
structure FilesOwned (s : EventLoop) : Prop where
  once : ∀ past, past <+: s.trace → ∀ fd, fileCloses past fd ≤ fileOpens past fd
  owned : ∀ fd, 0 ≤ fd → fileOpens s.trace fd = fileCloses s.trace fd + s.fileHolders fd

/-- The descriptors that the connections of the pool own. -/
def heldFiles (s : EventLoop) : Multiset Int :=
  ∑ i ∈ Finset.range maxConnections, (s.conn i).heldFile

theorem count_heldFiles (s : EventLoop) (fd : Int) (hfd : 0 ≤ fd) :
    s.heldFiles.count fd = s.fileHolders fd := by
  have hone : ∀ c : Connection, c.heldFile.count fd = if c.fileFd = fd then 1 else 0 := by
    intro c
    unfold heldFile
    by_cases hc : c.fileFd = fd
    · rw [hc, if_pos hfd, if_pos rfl, Multiset.count_singleton_self]
    · rw [if_neg hc]
      split
      · rw [Multiset.count_singleton, if_neg (Ne.symm hc)]
      · exact Multiset.count_zero fd
  rw [heldFiles, Multiset.count_sum', fileHolders, Finset.card_filter]
  exact Finset.sum_congr rfl fun i _ => hone (s.conn i)

/-- The descriptors in the books are those that the connections own, and the lost ones. -/
def Accounts (lost : Multiset Int) (s : EventLoop) : Prop :=
  balance 0 (files s.trace) = some (s.heldFiles + lost)

theorem Accounts.owned (h : Accounts 0 s) : FilesOwned s := by
  rw [Accounts, add_zero] at h
  constructor
  · rintro past ⟨rest, htrace⟩ fd
    have hpre : files past <+: files s.trace := ⟨files rest, by rw [← files_append, htrace]⟩
    have hle := balance_prefix h hpre fd
    obtain ⟨ho, hc⟩ := count_files past fd
    rwa [ho, hc] at hle
  · intro fd hfd
    have hcount := balance_count h fd
    obtain ⟨ho, hc⟩ := count_files s.trace fd
    rw [ho, hc, Multiset.count_zero, count_heldFiles s fd hfd] at hcount
    omega

/-- A lost descriptor is owned by nobody. -/
theorem Accounts.not_owned (h : Accounts lost s) (hl : ∃ fd, 0 ≤ fd ∧ fd ∈ lost) :
    ¬ FilesOwned s := by
  obtain ⟨fd, hfd, hmem⟩ := hl
  intro ho
  have hcount := balance_count h fd
  obtain ⟨hopens, hcloses⟩ := count_files s.trace fd
  have hpos := Multiset.count_pos.2 hmem
  have howned := ho.owned fd hfd
  rw [hopens, hcloses, Multiset.count_zero, Multiset.count_add, count_heldFiles s fd hfd]
    at hcount
  omega

/-- What is true of every state, whatever has been lost. -/
structure Books (s : EventLoop) : Prop where
  tidy : ∀ i, Tidy (s.conn i)
  opens : ∀ i, Opens (s.conn i)
  outside : ∀ i, maxConnections ≤ i → (s.conn i).state = .closed
  free : ∀ k, k < maxConnections → s.pool.freeList k < maxConnections

theorem Books.lt (h : Books s) (hi : (s.conn i).state ≠ .closed) : i < maxConnections := by
  by_contra hlt
  exact hi (h.outside i (Nat.le_of_not_lt hlt))

theorem heldFiles_congr (h : ∀ i, (s'.conn i).fileFd = (s.conn i).fileFd) :
    s'.heldFiles = s.heldFiles := by
  unfold heldFiles
  apply Finset.sum_congr rfl
  intro i _
  exact heldFile_congr (h i)

/-- Where one summand changes, the sum of the others is left. -/
theorem sum_split {slots : Finset Nat} {f g : Nat → Multiset Int} (hi : i ∈ slots)
    (h : ∀ j, j ≠ i → g j = f j) :
    ∃ rest, ∑ j ∈ slots, f j = f i + rest ∧ ∑ j ∈ slots, g j = g i + rest := by
  refine ⟨∑ j ∈ slots.erase i, f j, (Finset.add_sum_erase _ f hi).symm, ?_⟩
  rw [← Finset.add_sum_erase _ g hi]
  congr 1
  exact Finset.sum_congr rfl fun j hj => h j (Finset.ne_of_mem_erase hj)

/-- A change of one connection changes what that connection owns. -/
theorem heldFiles_update (hi : i < maxConnections)
    (h : ∀ j, j ≠ i → (s'.conn j).fileFd = (s.conn j).fileFd) :
    ∃ rest, s.heldFiles = (s.conn i).heldFile + rest ∧
      s'.heldFiles = (s'.conn i).heldFile + rest :=
  sum_split (Finset.mem_range.2 hi) fun j hj => heldFile_congr (h j hj)

/-- A step of one connection adds to the lost descriptors those that the step loses. -/
theorem Accounts.step {lost' : Multiset Int} {r : Outcome} (h : Accounts lost s)
    (hi : i < maxConnections) (hr : Leaves lost' (s.conn i) r)
    (hconn : (s'.conn i).fileFd = r.conn.fileFd)
    (hother : ∀ j, j ≠ i → (s'.conn j).fileFd = (s.conn j).fileFd)
    (htrace : files s'.trace = files s.trace ++ files r.actions) : Accounts (lost' + lost) s' := by
  obtain ⟨rest, hheld, hheld'⟩ := heldFiles_update hi hother
  rw [Accounts, hheld, add_assoc] at h
  have hall := balance_frame hr.books (rest + lost)
  have hend : balance 0 (files s'.trace) = some (r.conn.heldFile + lost' + (rest + lost)) := by
    rw [htrace, balance_trans h]
    exact hall
  have hsum : r.conn.heldFile + lost' + (rest + lost) = s'.heldFiles + (lost' + lost) := by
    rw [hheld', heldFile_congr hconn]
    abel
  exact hend.trans (congrArg some hsum)

theorem core_fileFd {c d : Connection} (h : c.core = d.core) : c.fileFd = d.fileFd := by
  have hf := congrArg Connection.fileFd h
  exact hf

theorem tidy_of_core {c d : Connection} (h : c.core = d.core) (hd : Tidy d) : Tidy c := by
  intro hc
  rw [core_fileFd h]
  exact hd (core_state h ▸ hc)

theorem destroyConnection_fileFd (hji : j ≠ i) :
    ((s.destroyConnection i).conn j).fileFd = (s.conn j).fileFd := by
  have hcore := destroyConnection_conn s i j
  rw [if_neg hji] at hcore
  exact core_fileFd hcore

theorem processConnection_fileFd (io : Io) (hji : j ≠ i) :
    ((s.processConnection io i).conn j).fileFd = (s.conn j).fileFd :=
  core_fileFd (processConnection_elsewhere s io hji).conn

theorem Accounts.congr (h : Accounts lost s) (hf : ∀ i, (s'.conn i).fileFd = (s.conn i).fileFd)
    (ht : files s'.trace = files s.trace) : Accounts lost s' := by
  unfold Accounts
  rw [ht, heldFiles_congr hf]
  exact h

/-- Destroying a connection closes its file. -/
theorem Accounts.destroy (hb : Books s) (h : Accounts lost s) (i : Nat) :
    Accounts lost (s.destroyConnection i) := by
  have htrace : files (s.destroyConnection i).trace =
      files s.trace ++ files ((s.conn i).hangUp []).actions := by
    rw [destroyConnection_trace, files_append, files_append, files_releaseActions,
      List.append_nil]
    rfl
  have hself : ((s.destroyConnection i).conn i).fileFd = ((s.conn i).hangUp []).conn.fileFd :=
    core_fileFd (destroyConnection_outcome s i).1
  by_cases hi : i < maxConnections
  · have hstep := h.step hi (hangUp_leaves rfl rfl rfl) hself
      (fun j hji => destroyConnection_fileFd hji) htrace
    rwa [zero_add] at hstep
  · have hclosed := hb.outside i (Nat.le_of_not_lt hi)
    apply h.congr
    · intro j
      by_cases hji : j = i
      · rw [hji, hself, hangUp, close, if_pos hclosed]
      · exact destroyConnection_fileFd hji
    · rw [htrace, hangUp, closeActions, if_pos hclosed]
      exact List.append_nil _

theorem files_process (s : EventLoop) (io : Io) (i : Nat) :
    files (s.processConnection io i).trace = files s.trace ++
      files ((s.conn i).advance io s.tlsCtx s.fileServer).actions := by
  obtain ⟨_, released, hreleased, htrace⟩ := processConnection_outcome s io i
  have hquiet : files released = [] := by
    rcases hreleased with h | h
    · rw [h]
      rfl
    · rw [h]
      exact files_releaseActions i
  rw [htrace, files_append, files_append, hquiet, List.append_nil]

/-- Outside the pool there is nothing to process. -/
theorem processConnection_closed (io : Io) (h : (s.conn i).state = .closed) :
    s.processConnection io i = s := by
  rcases processConnection_cases s io i with ⟨_, hp⟩ | ⟨hc, _⟩ | ⟨hc, _⟩
  · exact hp
  · exact (hc h).elim
  · exact (hc h).elim

theorem Accounts.process {lost' : Multiset Int} (io : Io) (hi : i < maxConnections)
    (h : Accounts lost s)
    (hr : Leaves lost' (s.conn i) ((s.conn i).advance io s.tlsCtx s.fileServer)) :
    Accounts (lost' + lost) (s.processConnection io i) :=
  h.step hi hr (core_fileFd (processConnection_outcome s io i).1)
    (fun _ hji => processConnection_fileFd io hji) (files_process s io i)

/-- A slot that is acquired loses the file of the connection in it. -/
theorem Accounts.create {fd now : Int} (hb : Books s) (h : Accounts lost s)
    (hc : s.createConnection fd now = (s', some i)) :
    Accounts ((s.conn i).heldFile + lost) s' := by
  obtain ⟨hlt, hi, _, _, htrace⟩ := createConnection_slot hc
  have hself : (s'.conn i).fileFd = -1 := by
    rw [createConnection_conn hc, if_pos rfl]
    rfl
  have hr : Leaves (s.conn i).heldFile (s.conn i) ⟨s'.conn i, .none, []⟩ := by
    constructor
    · have hnone : (s'.conn i).heldFile = 0 := by
        rw [heldFile_eq_zero, hself]
        decide
      rw [hnone, zero_add]
      rfl
    · rw [createConnection_conn hc, if_pos rfl]
      exact fun _ hcl => State.noConfusion hcl
  apply h.step (hi ▸ hb.free _ hlt) hr rfl
  · intro j hji
    rw [createConnection_conn hc, if_neg hji]
  · rw [htrace, files_append]
    rfl

theorem Books.log (h : Books s) (as : List Action) : Books (s.log as) :=
  ⟨h.tidy, h.opens, h.outside, h.free⟩

theorem Books.create {fd now : Int} (h : Books s)
    (hc : s.createConnection fd now = (s', some i)) : Books s' := by
  obtain ⟨hlt, hi, _, hlist, _⟩ := createConnection_slot hc
  constructor
  · intro j
    rw [createConnection_conn hc]
    split
    · exact fun hcl => State.noConfusion hcl
    · exact h.tidy j
  · exact ConnInvariant.create opens_invariant h.opens hc
  · intro j hj
    have hji : j ≠ i := by
      have hlt' := h.free _ hlt
      rw [← hi] at hlt'
      omega
    rw [createConnection_conn hc, if_neg hji]
    exact h.outside j hj
  · rw [hlist]
    exact h.free

theorem destroyConnection_free (i : Nat)
    (h : ∀ k, k < maxConnections → s.pool.freeList k < maxConnections) (k : Nat)
    (hk : k < maxConnections) : (s.destroyConnection i).pool.freeList k < maxConnections := by
  rw [(destroyConnection_slots s i).list, ConnectionPool.release]
  split
  · exact h k hk
  · next hi =>
    dsimp only
    by_cases hkh : k = sizeDec s.pool.freeHead
    · rw [hkh, Function.update_self]
      exact Nat.lt_of_not_le hi
    · rw [Function.update_of_ne hkh]
      exact h k hk

theorem Books.destroy (h : Books s) (i : Nat) : Books (s.destroyConnection i) := by
  constructor
  · intro j
    have hcore := destroyConnection_conn s i j
    split at hcore
    · rw [← core_close] at hcore
      exact tidy_of_core hcore (close_tidy (h.tidy i))
    · exact tidy_of_core hcore (h.tidy j)
  · exact ConnInvariant.destroy opens_invariant h.opens i
  · intro j hj
    rw [destroyConnection_state]
    split
    · rfl
    · exact h.outside j hj
  · exact destroyConnection_free i h.free

theorem Books.process (h : Books s) (io : Io) (i : Nat) : Books (s.processConnection io i) := by
  by_cases hcl : (s.conn i).state = .closed
  · rw [processConnection_closed io hcl]
    exact h
  have hi := h.lt hcl
  constructor
  · intro j
    by_cases hji : j = i
    · have hcore := (processConnection_outcome s io i).1
      rw [hji]
      apply tidy_of_core hcore
      by_cases hr : Reopens io s.fileServer (s.conn i)
      · exact (advance_loses io s.tlsCtx s.fileServer hr).tidy (h.tidy i)
      · exact (advance_leaves io s.tlsCtx s.fileServer (h.opens i) hr).tidy (h.tidy i)
    · exact tidy_of_core (processConnection_elsewhere s io hji).conn (h.tidy j)
  · exact ConnInvariant.process opens_invariant h.opens io i
  · intro j hj
    have hji : j ≠ i := by omega
    rw [core_state (processConnection_elsewhere s io hji).conn]
    exact h.outside j hj
  · intro k hk
    rcases processConnection_cases s io i with
      ⟨_, hp⟩ | ⟨_, _, r, _, hp⟩ | ⟨_, _, r, _, _, hp⟩
    · rw [hp]
      exact h.free k hk
    · rw [hp]
      exact destroyConnection_free (s := s.writeBack i r) i h.free k hk
    · rw [hp, processed_slots.list]
      exact h.free k hk

theorem Books.step (h : Books s) (input : Input) : Books (s.step input) := by
  apply step_keeps _ _ _ _ _ h
  · exact fun s h => ⟨h.tidy, h.opens, h.outside, h.free⟩
  · exact fun s fd h => ⟨h.log _, h.log _⟩
  · exact fun s s' i fd now h hc => h.create hc
  · exact fun s i h => h.destroy i
  · exact fun s io i h => h.process io i

theorem create_books (server : FileServer) (timeout : Int) (tls : Bool) :
    Books (create server timeout tls) := by
  constructor
  · exact fun i _ => (by decide : (-1 : Int) < 0)
  · exact fun i => opens_of_late rfl
  · exact fun i _ => rfl
  · exact fun k hk => hk

/-- The next slots that the pool hands out hold connections without files. -/
def EmptySlots (s : EventLoop) (n : Nat) : Prop :=
  ∀ k, k < n → s.pool.freeHead + k < maxConnections →
    (s.conn (s.pool.freeList (s.pool.freeHead + k))).fileFd < 0

/-- The first of these slots is taken before the others are. -/
theorem emptySlots_succ {fd now : Int} {n : Nat} (hc : s.createConnection fd now = (s', some i)) :
    EmptySlots s (n + 1) ↔ (s.conn i).fileFd < 0 ∧ EmptySlots s' n := by
  obtain ⟨hlt, hi, hhead, hlist, _⟩ := createConnection_slot hc
  have hconn : (s.conn i).fileFd < 0 → ∀ j, (s'.conn j).fileFd < 0 ↔ (s.conn j).fileFd < 0 := by
    intro hnone j
    rw [createConnection_conn hc]
    split
    · next hji =>
      rw [hji]
      exact iff_of_true (by decide : (-1 : Int) < 0) hnone
    · rfl
  unfold EmptySlots
  rw [hhead, hlist]
  constructor
  · intro h
    have hnone : (s.conn i).fileFd < 0 := hi ▸ h 0 (Nat.succ_pos n) hlt
    refine ⟨hnone, fun k hk hle => ?_⟩
    rw [hconn hnone, Nat.add_assoc, Nat.add_comm 1]
    exact h (k + 1) (Nat.succ_lt_succ hk) (by omega)
  · rintro ⟨hnone, h⟩ k hk hle
    cases k with
    | zero => exact hi ▸ hnone
    | succ k =>
      have hk' := h k (Nat.lt_of_succ_lt_succ hk) (by omega)
      rwa [hconn hnone, Nat.add_assoc, Nat.add_comm 1] at hk'

theorem Accounts.log (h : Accounts lost s) {as : List Action} (has : files as = []) :
    Accounts lost (s.log as) := by
  apply h.congr
  · exact fun i => rfl
  · rw [EventLoop.log, files_append, has, List.append_nil]

/-- Accepting connections loses the files that the acquired slots still hold. -/
theorem acceptLoop_accounts (fds : List (Nat × Int)) (hb : Books s) (h : Accounts lost s) :
    ∃ more, Accounts (more + lost) (s.acceptLoop fds) ∧
      (EmptySlots s fds.length → more = 0) ∧
      (¬ EmptySlots s fds.length → ∃ fd, 0 ≤ fd ∧ fd ∈ more) := by
  induction fds generalizing s lost with
  | nil =>
    refine ⟨0, ?_, fun _ => rfl, fun hnot => (hnot fun k hk => absurd hk (Nat.not_lt_zero k)).elim⟩
    rw [zero_add]
    exact h
  | cons p fds ih =>
    obtain ⟨fd, now⟩ := p
    have hlog : Accounts lost (s.log [.accept fd]) := h.log rfl
    unfold acceptLoop
    split
    · next s' hc =>
      have hfull := createConnection_full hc
      rw [createConnection_none hc]
      have hempty : EmptySlots s (fds.length + 1) := by
        intro k _ hle
        change maxConnections ≤ s.pool.freeHead at hfull
        omega
      refine ⟨0, ?_, fun _ => rfl, fun hnot => (hnot hempty).elim⟩
      rw [zero_add]
      exact hlog.log rfl
    · next s' i hc =>
      obtain ⟨more, hall, hzero, hmore⟩ := ih ((hb.log _).create hc) (hlog.create (hb.log _) hc)
      have hsucc : EmptySlots s (fds.length + 1) ↔
          (s.conn i).fileFd < 0 ∧ EmptySlots s' fds.length :=
        emptySlots_succ (s := s.log [.accept fd]) hc
      refine ⟨more + (s.conn i).heldFile, ?_, ?_, ?_⟩
      · rw [add_assoc]
        exact hall
      · intro hempty
        obtain ⟨hnone, hrest⟩ := hsucc.1 hempty
        rw [hzero hrest, heldFile_eq_zero.2 hnone, add_zero]
      · intro hnot
        by_cases hnone : (s.conn i).fileFd < 0
        · obtain ⟨f, hf, hmem⟩ := hmore fun hrest => hnot (hsucc.2 ⟨hnone, hrest⟩)
          exact ⟨f, hf, Multiset.mem_add.2 (.inl hmem)⟩
        · have hf : 0 ≤ (s.conn i).fileFd := Int.not_lt.1 hnone
          refine ⟨_, hf, Multiset.mem_add.2 (.inr ?_)⟩
          rw [heldFile, if_pos hf]
          exact Multiset.mem_singleton_self _

/-- An event at which no connection that has a file opens one or is created anew. -/
def KeepsFiles (s : EventLoop) : Input → Prop
  | .kevent => True
  | .event ev io => ¬ (ev.error ∨ ev.eof) →
    match ev.udata with
    | .conn i => ¬ Reopens io s.fileServer (s.conn i)
    | .listener => EmptySlots s io.accepts.length
    | _ => True

theorem timer_accounts (io : Io) (hb : Books s) (h : Accounts lost s) :
    Accounts lost (s.handleTimer io) := by
  have hall : Books (s.handleTimer io) ∧ Accounts lost (s.handleTimer io) :=
    timerLoop_keeps (Q := fun s => Books s ∧ Accounts lost s) _ _
      (fun s i h => ⟨h.1.destroy i, h.2.destroy h.1 i⟩) ⟨hb, h⟩
  exact hall.2

/-- One input keeps account of all files exactly when it meets the condition. -/
theorem step_accounts (hb : Books s) (h : Accounts 0 s) (input : Input) :
    (s.KeepsFiles input → Accounts 0 (s.step input)) ∧
      (¬ s.KeepsFiles input → ¬ FilesOwned (s.step input)) := by
  cases input with
  | kevent => exact ⟨fun _ => h.congr (fun _ => rfl) rfl, fun hnot => (hnot trivial).elim⟩
  | event ev io =>
    unfold KeepsFiles step dispatch
    dsimp only
    by_cases hend : ev.error ∨ ev.eof
    · rw [if_pos hend]
      refine ⟨fun _ => ?_, fun hnot => (hnot fun hne => (hne hend).elim).elim⟩
      cases ev.udata with
      | conn i => exact h.destroy hb i
      | null => exact h
      | listener => exact h
      | timer => exact h
    · rw [if_neg hend]
      simp only [hend, not_false_eq_true, forall_true_left]
      cases ev.udata with
      | null => exact ⟨fun _ => h, fun hnot => (hnot trivial).elim⟩
      | timer => exact ⟨fun _ => timer_accounts io hb h, fun hnot => (hnot trivial).elim⟩
      | listener =>
        obtain ⟨more, hall, hzero, hmore⟩ := acceptLoop_accounts io.accepts hb h
        rw [add_zero] at hall
        constructor
        · intro hempty
          rw [hzero hempty] at hall
          exact hall
        · intro hnot
          obtain ⟨fd, hfd, hmem⟩ := hmore hnot
          exact hall.not_owned ⟨fd, hfd, hmem⟩
      | conn i =>
        dsimp only
        by_cases hcl : (s.conn i).state = .closed
        · have hno : ¬ Reopens io s.fileServer (s.conn i) := by
            rintro ⟨hp, _⟩
            rw [hcl] at hp
            cases hp
          rw [processConnection_closed io hcl]
          exact ⟨fun _ => h, fun hnot => (hnot hno).elim⟩
        · have hi := hb.lt hcl
          constructor
          · intro hr
            have hall := h.process io hi
              (advance_leaves io s.tlsCtx s.fileServer (hb.opens i) hr)
            rwa [add_zero] at hall
          · intro hnot
            have hr := not_not.1 hnot
            have hall := h.process io hi (advance_loses io s.tlsCtx s.fileServer hr)
            refine hall.not_owned ⟨(s.conn i).fileFd, hr.2.1, ?_⟩
            rw [add_zero, heldFile, if_pos hr.2.1]
            exact Multiset.mem_singleton_self _

theorem create_accounts (server : FileServer) (timeout : Int) (tls : Bool) :
    Accounts 0 (create server timeout tls) := by
  have hzero : (create server timeout tls).heldFiles = 0 := Finset.sum_eq_zero fun i _ => rfl
  rw [Accounts, hzero]
  rfl

/-- In every run, every file descriptor has one owner until it is closed, once, exactly when no
connection that has a file opens one again, and no slot is acquired with a file in it. -/
theorem filesOwned_iff_keepsFiles (server : FileServer) (timeout : Int) (tls : Bool)
    (inputs : List Input) :
    Run.Throughout step FilesOwned (create server timeout tls) inputs ↔
      Run.Along step KeepsFiles (create server timeout tls) inputs := by
  apply Run.throughout_iff_along fun s => Books s ∧ Accounts 0 s
  · exact fun s h => h.2.owned
  · exact fun s input h hg => ⟨h.1.step input, (step_accounts h.1 h.2 input).1 hg⟩
  · exact fun s input h hg => (step_accounts h.1 h.2 input).2 hg
  · exact ⟨create_books server timeout tls, create_accounts server timeout tls⟩

/-- A client that asks for a file, of whose response the socket takes ten bytes. -/
def slowClient : List Input :=
  round [(⟨false, false, .listener⟩, { accepts := [(5, 0)] })] ++
    round [(⟨false, false, .conn 0⟩, { peek := .done (some 0x47) })] ++
    round [(⟨false, false, .conn 0⟩, {
      read := .done (bytes "GET /a.txt HTTP/1.1\r\nHost: a\r\n\r\n")
      sys := tenBytes
      headerWrite := .done 10 })]

/-- The socket becomes writable, and `open` returns another descriptor. -/
def writableAgain : Input :=
  .event ⟨false, false, .conn 0⟩ { sys := { tenBytes with openRdonly := fun _ => some 10 } }

theorem slowClient_keepsFiles :
    Run.Along step KeepsFiles (create ⟨bytes "/srv"⟩ 75 false) slowClient := by
  refine ⟨trivial, fun _ => ?_, trivial, fun _ => ?_, trivial, fun _ => ?_, trivial⟩
  · exact fun k _ _ => (by decide : (-1 : Int) < 0)
  · exact fun h => absurd h.1 (by decide)
  · exact fun h => absurd h.1 (by decide)

theorem short_header_write_loses_file :
    ¬ FilesOwned ((slowClient ++ [writableAgain]).foldl step (create ⟨bytes "/srv"⟩ 75 false)) := by
  have hpre : Run.Throughout step (fun s => Books s ∧ Accounts 0 s)
      (create ⟨bytes "/srv"⟩ 75 false) slowClient :=
    Run.throughout_of_along
      (fun s input h hg => ⟨h.1.step input, (step_accounts h.1 h.2 input).1 hg⟩)
      ⟨create_books .., create_accounts ..⟩ slowClient_keepsFiles
  obtain ⟨hb, ha⟩ := hpre.last
  rw [List.foldl_append, List.foldl_cons, List.foldl_nil]
  refine (step_accounts hb ha writableAgain).2 fun hkeeps => hkeeps (by decide) ?_
  refine ⟨?_, ?_, ?_, .inl ?_, ⟨10, 10, 0, bytes "text/plain", bytes "/srv/a.txt"⟩, ?_, ?_⟩
  · decide
  · decide
  · decide
  · decide
  · decide
  · decide

end EventLoop

end FileWebServer
