import FileWebServer.Core.Kqueue
import FileWebServer.Lib.Registry

namespace FileWebServer
open Registry (Request)
open Registry.Table (settle Only)
set_option autoImplicit true

def Change.request (ch : Change) : Request Int Filter Udata :=
  ⟨ch.ident, ch.filter, if ch.delete then none else some ch.udata⟩

theorem Change.request_op (ch : Change) : ch.request.op = ch.op := by
  obtain ⟨ident, filter, delete, udata⟩ := ch
  cases delete <;> rfl

/-- The open sockets, and the registrations of the queue with their user data. -/
abbrev Registrations := Registry.Table Int Filter Udata

namespace Registrations
variable {k : Registrations}

/-- What the kernel makes of an action. -/
def act (k : Registrations) : Action → Registrations
  | .accept fd => k.reset fd true
  | .close fd => k.reset fd false
  | _ => k

def acts (k : Registrations) (actions : List Action) : Registrations := actions.foldl act k

theorem acts_append (k : Registrations) (as bs : List Action) :
    acts k (as ++ bs) = acts (acts k as) bs := List.foldl_append ..

/-- Only the traffic matters to the kernel. -/
theorem acts_traffic (k : Registrations) (as : List Action) : acts k (traffic as) = acts k as := by
  refine foldl_traffic (fun k a ha => ?_) k as
  cases a with
  | accept => cases ha
  | close => cases ha
  | _ => rfl

theorem acts_erase (k : Registrations) (as : List Action) :
    (acts k as).erase = Kernel.acts k.erase as := by
  induction as generalizing k with
  | nil => rfl
  | cons a as ih =>
    have hact : (k.act a).erase = Kernel.act k.erase a := by
      cases a with
      | accept fd => exact k.erase_reset fd true
      | close fd => exact k.erase_reset fd false
      | _ => rfl
    change (acts (k.act a) as).erase = Kernel.acts (Kernel.act k.erase a) as
    rw [ih, hact]

end Registrations

/-- The filter that a connection waits on. -/
def Want.filter : Want → Option Filter
  | .none => Option.none
  | .read => some .read
  | .write => some .write

namespace EventLoop
open Registrations
variable {s s' : EventLoop} {k k' : Registrations} {wants wants' : Nat → Want}
  {rest rest' : List Nat} {i j : Nat} {want : Want}

/-- The queued changes, with their user data. -/
def requests (s : EventLoop) : List (Request Int Filter Udata) := s.changelist.map Change.request

/-- Once the queued changes are applied, every open connection has the filter of its last `Want`
registered, and no other. The slots `rest` still have an event to come in the batch. -/
structure Wakes (k : Registrations) (s : EventLoop) (wants : Nat → Want) (rest : List Nat) :
    Prop where
  owned : Owned k.erase s
  owner : ∀ d, k.isOpen d = true → ∃ i, (s.conn i).state ≠ .closed ∧ (s.conn i).fd = d
  watched : ∀ i, (s.conn i).state ≠ .closed → ∃ f, (wants i).filter = some f ∧
    Only (settle (s.conn i).fd (k.data (s.conn i).fd) s.requests) f (.conn i)
  clear : ∀ d, k.isOpen d = false → settle d (fun _ => none) s.requests .write = none
  pending : ∀ i ∈ rest, (s.conn i).state ≠ .closed →
    settle (s.conn i).fd (fun _ => none) s.requests .write = none

/-- Changes that are queued for one descriptor leave the others alone. -/
theorem settle_requests {chs : List Change} {d e : Int} {g : Filter → Option Udata}
    (hchs : s'.changelist = s.changelist ++ chs) (hd : ∀ ch ∈ chs, ch.ident = d) (he : e ≠ d) :
    settle e g s'.requests = settle e g s.requests := by
  rw [requests, hchs, List.map_append, Registry.Table.settle_append]
  apply Registry.Table.settle_of_ne
  intro r hr
  obtain ⟨ch, hch, rfl⟩ := List.mem_map.1 hr
  exact fun h => he (h.symm.trans (hd ch hch))

/-- The states and descriptors of the connections, the queued changes and what the open ones want
are all that matters. -/
theorem Wakes.congr (h : Wakes k s wants rest)
    (hstate : ∀ j, (s'.conn j).state = .closed ↔ (s.conn j).state = .closed)
    (hfd : ∀ j, (s'.conn j).fd = (s.conn j).fd) (hchs : s'.changelist = s.changelist)
    (hw : ∀ j, (s.conn j).state ≠ .closed → wants' j = wants j) (hr : ∀ j ∈ rest', j ∈ rest) :
    Wakes k s' wants' rest' := by
  have hreq : s'.requests = s.requests := by rw [requests, hchs, requests]
  have hlive : ∀ j, (s'.conn j).state ≠ .closed → (s.conn j).state ≠ .closed :=
    fun j hj hc => hj ((hstate j).2 hc)
  constructor
  · exact h.owned.congr hstate hfd
  · intro d hd
    obtain ⟨j, hj, he⟩ := h.owner d hd
    exact ⟨j, fun hc => hj ((hstate j).1 hc), (hfd j).trans he⟩
  · intro j hj
    rw [hfd, hreq, hw j (hlive j hj)]
    exact h.watched j (hlive j hj)
  · rw [hreq]
    exact h.clear
  · intro j hj hjl
    rw [hfd, hreq]
    exact h.pending j (hr j hj) (hlive j hjl)

/-- A connection is closed, after some changes for its descriptor. -/
theorem Wakes.close {chs : List Change} (h : Wakes k s wants rest)
    (hlive : (s.conn i).state ≠ .closed)
    (hstate : ∀ j, j ≠ i → (s'.conn j).state = (s.conn j).state)
    (hfd : ∀ j, j ≠ i → (s'.conn j).fd = (s.conn j).fd)
    (hclosed : (s'.conn i).state = .closed) (hneg : (s'.conn i).fd < 0)
    (hchs : s'.changelist = s.changelist ++ chs) (hd : ∀ ch ∈ chs, ch.ident = (s.conn i).fd)
    (hclear : settle (s.conn i).fd (fun _ => none) s'.requests .write = none)
    (hw : ∀ j, j ≠ i → wants' j = wants j) (hr : ∀ j ∈ rest', j ∈ rest) :
    Wakes (k.reset (s.conn i).fd false) s' wants' rest' := by
  have hother : ∀ j, (s'.conn j).state ≠ .closed →
      j ≠ i ∧ (s.conn j).state ≠ .closed ∧ (s.conn j).fd ≠ (s.conn i).fd := by
    intro j hj
    have hji : j ≠ i := fun he => hj (he ▸ hclosed)
    rw [hstate j hji] at hj
    exact ⟨hji, hj, fun he => hji (h.owned.distinct j i hj hlive he)⟩
  constructor
  · rw [Registry.Table.erase_reset]
    exact h.owned.close hlive hstate hfd hclosed hneg
  · intro d hdo
    rw [Registry.Table.reset_isOpen] at hdo
    split at hdo
    · cases hdo
    · next hdi =>
      obtain ⟨j, hj, he⟩ := h.owner d hdo
      have hji : j ≠ i := fun hji => hdi (he.symm.trans (congrArg (fun j => (s.conn j).fd) hji))
      exact ⟨j, by rwa [hstate j hji], (hfd j hji).trans he⟩
  · intro j hj
    obtain ⟨hji, hjl, hne⟩ := hother j hj
    rw [hfd j hji, hw j hji, Registry.Table.reset_data k false hne, settle_requests hchs hd hne]
    exact h.watched j hjl
  · intro d hdo
    rw [Registry.Table.reset_isOpen] at hdo
    by_cases hdi : d = (s.conn i).fd
    · rw [hdi]
      exact hclear
    · rw [if_neg hdi] at hdo
      rw [settle_requests hchs hd hdi]
      exact h.clear d hdo
  · intro j hj hjl
    obtain ⟨hji, hjl, hne⟩ := hother j hjl
    rw [hfd j hji, settle_requests hchs hd hne]
    exact h.pending j (hr j hj) hjl

/-- What destroying a connection queues leaves nothing registered. -/
theorem settle_destroyChanges {d : Int} (hd : 0 ≤ d) (g : Filter → Option Udata) :
    settle d g ((destroyChanges d).map Change.request) = fun _ => none := by
  rw [destroyChanges, if_pos hd]
  funext f
  cases f <;> simp [settle, Change.request, Function.update]

/-- Destroying a connection that is open. -/
theorem Wakes.destroy_open (h : Wakes k s wants rest) (hlive : (s.conn i).state ≠ .closed) :
    Wakes (k.reset (s.conn i).fd false) (s.destroyConnection i) wants rest := by
  obtain ⟨hfd, _⟩ := h.owned.isOpen i hlive
  refine h.close hlive ?_ (fun j hji => destroyConnection_fd s hji) ?_
    (destroyConnection_fd_self s hlive) (destroyConnection_changelist s i) ?_ ?_
    (fun _ _ => rfl) (fun _ hj => hj)
  · intro j hji
    rw [destroyConnection_state, if_neg hji]
  · rw [destroyConnection_state, if_pos rfl]
  · intro ch hch
    rw [destroyChanges, if_pos hfd] at hch
    simp only [List.mem_cons, List.not_mem_nil, or_false] at hch
    rcases hch with rfl | rfl <;> rfl
  · rw [requests, destroyConnection_changelist, List.map_append, Registry.Table.settle_append,
      settle_destroyChanges hfd]

theorem Wakes.destroy (h : Wakes k s wants rest) (i : Nat) :
    ∃ as, (s.destroyConnection i).trace = s.trace ++ as ∧
      Wakes (acts k as) (s.destroyConnection i) wants rest := by
  have ht := destroyConnection_trace s i
  rw [List.append_assoc] at ht
  refine ⟨_, ht, ?_⟩
  by_cases hc : (s.conn i).state = .closed
  · have has : traffic ((s.conn i).closeActions ++ releaseActions i) =
        traffic (releaseActions i) := by rw [Connection.closeActions, if_pos hc]; rfl
    have hk : acts k ((s.conn i).closeActions ++ releaseActions i) = k := by
      rw [← acts_traffic, has]
      unfold releaseActions
      split <;> rfl
    rw [hk]
    exact h.congr (destroyConnection_closed_state hc) (destroyConnection_closed_fd hc)
      (destroyConnection_closed_changelist (h.owned.closed i hc)) (fun _ _ => rfl)
      (fun _ hj => hj)
  · have hk : acts k ((s.conn i).closeActions ++ releaseActions i) =
        k.reset (s.conn i).fd false := by
      rw [← acts_traffic, traffic_append, Connection.traffic_closeActions hc, Connection.hung,
        if_pos (h.owned.isOpen i hc).1]
      unfold releaseActions
      split <;> rfl
    rw [hk]
    exact h.destroy_open hc

/-- A connection that closes itself queues nothing, so nothing may be queued for it but
what its slot's event of this batch has found. -/
theorem Wakes.hungUp {r : Outcome} (h : Wakes k s wants (i :: rest))
    (hlive : (s.conn i).state ≠ .closed) (hr : Connection.HungUp (s.conn i) r)
    (hw : ∀ j, j ≠ i → wants' j = wants j) :
    Wakes (k.reset (s.conn i).fd false) (s.writeBack i r) wants' rest := by
  have hsame : (s.writeBack i r).changelist = s.changelist ++ [] := (List.append_nil _).symm
  refine h.close hlive ?_ ?_ ?_ ?_ hsame (fun ch hch => absurd hch List.not_mem_nil)
    (h.pending i List.mem_cons_self hlive) hw (fun j hj => List.mem_cons_of_mem _ hj)
  · intro j hji
    rw [conn_writeBack, if_neg hji]
  · intro j hji
    rw [conn_writeBack, if_neg hji]
  · rw [conn_writeBack, if_pos rfl]
    exact hr.closed
  · rw [conn_writeBack, if_pos rfl]
    exact hr.fd

/-- The last `Want` other than `NONE`. -/
def latest (old : Want) : Want → Want
  | .none => old
  | want => want

/-- Registering for one direction and deleting the other leaves that one alone registered. -/
theorem only_wantChanges {f : Filter} (d : Int) (i : Nat) (g : Filter → Option Udata)
    (hf : want.filter = some f) :
    Only (settle d g ((wantChanges d i want).map Change.request)) f (.conn i) := by
  cases want with
  | none => cases hf
  | read =>
    cases hf
    intro f'
    cases f' <;> simp [settle, wantChanges, Change.request, Function.update]
  | write =>
    cases hf
    intro f'
    cases f' <;> simp [settle, wantChanges, Change.request, Function.update]

theorem Wakes.updateEvents (h : Wakes k s wants rest) (hi : i ∉ rest)
    (hlive : (s.conn i).state ≠ .closed) :
    Wakes k (s.updateEvents i want) (Function.update wants i (latest (wants i) want)) rest := by
  obtain ⟨hfd, ho⟩ := h.owned.isOpen i hlive
  have hchs : (s.updateEvents i want).changelist =
      s.changelist ++ wantChanges (s.conn i).fd i want := by
    have hno : ¬ ((s.conn i).fd < 0 ∨ (s.conn i).isClosed = true) := by
      simp [Connection.isClosed, hlive, hfd]
    unfold EventLoop.updateEvents
    dsimp only
    rw [if_neg hno]
    rfl
  have hd : ∀ ch ∈ wantChanges (s.conn i).fd i want, ch.ident = (s.conn i).fd := by
    intro ch hch
    cases want with
    | none => cases hch
    | _ =>
      simp only [wantChanges, List.mem_cons, List.not_mem_nil, or_false] at hch
      rcases hch with rfl | rfl <;> rfl
  have hne : ∀ j, j ≠ i → (s.conn j).state ≠ .closed → (s.conn j).fd ≠ (s.conn i).fd :=
    fun j hji hj he => hji (h.owned.distinct j i hj hlive he)
  constructor
  · exact h.owned.congr (fun j => by rw [updateEvents_conn]) fun j => by rw [updateEvents_conn]
  · intro d hdo
    obtain ⟨j, hj, he⟩ := h.owner d hdo
    exact ⟨j, by rwa [updateEvents_conn], by rwa [updateEvents_conn]⟩
  · intro j hj
    rw [updateEvents_conn] at hj ⊢
    by_cases hji : j = i
    · rw [hji, Function.update_self, requests, hchs, List.map_append,
        Registry.Table.settle_append]
      cases hwant : want with
      | none => exact h.watched i hlive
      | read => exact ⟨.read, rfl, only_wantChanges _ i _ rfl⟩
      | write => exact ⟨.write, rfl, only_wantChanges _ i _ rfl⟩
    · rw [Function.update_of_ne hji, settle_requests hchs hd (hne j hji hj)]
      exact h.watched j hj
  · intro d hdo
    have hdi : d ≠ (s.conn i).fd := by
      intro he
      rw [he] at hdo
      exact Bool.noConfusion (hdo.symm.trans ho)
    rw [settle_requests hchs hd hdi]
    exact h.clear d hdo
  · intro j hj hjl
    rw [updateEvents_conn] at hjl ⊢
    have hji : j ≠ i := fun he => hi (he ▸ hj)
    rw [settle_requests hchs hd (hne j hji hjl)]
    exact h.pending j hj hjl

theorem Wakes.of_core (h : Wakes k s wants rest) (hcore : s'.core = s.core) :
    Wakes k s' wants rest :=
  h.congr (fun j => by rw [Connection.core_state (core_conn hcore j)])
    (fun j => Connection.core_fd (core_conn hcore j)) (core_changelist hcore) (fun _ _ => rfl)
    (fun _ hj => hj)

theorem Wakes.kept {r : Outcome} (h : Wakes k s wants rest) (hlive : (s.conn i).state ≠ .closed)
    (hr : Connection.Kept (s.conn i) r) (hrest : ∀ j ∈ rest', j ∈ rest) :
    Wakes k (s.writeBack i r) wants rest' := by
  refine h.congr ?_ ?_ rfl (fun _ _ => rfl) hrest
  · intro j
    rw [conn_writeBack]
    split
    · next hji =>
      rw [hji]
      exact iff_of_false hr.live hlive
    · rfl
  · intro j
    rw [conn_writeBack]
    split
    · next hji => rw [hji, hr.fd]
    · rfl

/-- The event of a slot is dispatched; no other one for it is to come in the batch. -/
theorem Wakes.process (h : Wakes k s wants (i :: rest)) (hi : i ∉ rest) (io : Io) :
    ∃ as, (s.processConnection io i).trace = s.trace ++ as ∧
      Wakes (acts k as) (s.processConnection io i) (Function.update wants i
        (latest (wants i) ((s.conn i).advance io s.tlsCtx s.fileServer).want)) rest := by
  have hw : ∀ (want : Want) j, j ≠ i → Function.update wants i want j = wants j :=
    fun want j hji => Function.update_of_ne hji ..
  have htail : ∀ j ∈ rest, j ∈ i :: rest := fun j hj => List.mem_cons_of_mem _ hj
  have hhung {r : Outcome} (hlive : (s.conn i).state ≠ .closed)
      (hr : Connection.HungUp (s.conn i) r) : acts k r.actions = k.reset (s.conn i).fd false := by
    rw [← acts_traffic, hr.traffic, Connection.hung, if_pos (h.owned.isOpen i hlive).1]
    rfl
  rcases processConnection_cases s io i with
    ⟨hc, hp⟩ | ⟨hlive, _, r, hr, hp⟩ | ⟨hlive, _, r, hadv, hr, hp⟩
  · rw [hp]
    refine ⟨[], (List.append_nil _).symm, h.congr (fun _ => Iff.rfl) (fun _ => rfl) rfl ?_ htail⟩
    exact fun j hj => hw _ j fun he => hj (he ▸ hc)
  · obtain ⟨as, ht, hd⟩ := (h.hungUp hlive hr (hw _)).destroy i
    rw [hp]
    refine ⟨r.actions ++ as, ht.trans (List.append_assoc ..), ?_⟩
    rw [acts_append, hhung hlive hr]
    exact hd
  · have hsync := syncKeepaliveList_core (s.writeBack i r) i (s.conn i).state
    have ht : (((s.writeBack i r).syncKeepaliveList i (s.conn i).state).updateEvents i
        r.want).trace = s.trace ++ r.actions := by
      rw [updateEvents_trace, core_trace hsync]
      rfl
    rw [hp, ← hadv]
    refine ⟨r.actions, ht, ?_⟩
    have hstate : (((s.writeBack i r).syncKeepaliveList i (s.conn i).state).conn i).state =
        r.conn.state := by
      rw [Connection.core_state (core_conn hsync i), conn_writeBack, if_pos rfl]
    rcases hr with ⟨_, hr⟩ | ⟨_, hr⟩
    · rw [hhung hlive hr, updateEvents_closed _ (hstate.trans hr.closed)]
      exact (h.hungUp hlive hr (hw _)).of_core hsync
    · have hkept := h.kept hlive hr htail
      have hk : acts k r.actions = k := by
        rw [← acts_traffic, hr.quiet]
        rfl
      rw [hk]
      exact (hkept.of_core hsync).updateEvents hi (by rw [hstate]; exact hr.live)

/-- A new client gets a slot. -/
theorem Wakes.create {l : List Nat} {fd now : Int} (h : Wakes k s wants rest) (hg : Good s l)
    (hnew : k.isOpen fd = false) (hfd : 0 ≤ fd)
    (hc : (s.log [.accept fd]).createConnection fd now = (s', some i)) :
    Wakes (k.reset fd true) s' (Function.update wants i .read) rest := by
  have hcreated := createConnection_created hg hc
  have hother {j : Nat} (hji : j ≠ i) (hj : (s'.conn j).state ≠ .closed) :=
    hcreated.others h.owned hnew hji hj
  have hd : ∀ ch ∈ [(⟨fd, .read, false, .conn i⟩ : Change)], ch.ident = fd := by simp
  have hsettle : settle fd (fun _ => none) s'.requests =
      Function.update (settle fd (fun _ => none) s.requests) .read (some (.conn i)) := by
    rw [requests, hcreated.queued, List.map_append, Registry.Table.settle_append]
    simp [settle, Change.request, requests]
  have hwrite : settle fd (fun _ => none) s'.requests .write = none := by
    rw [hsettle, Function.update_of_ne Filter.noConfusion]
    exact h.clear fd hnew
  constructor
  · rw [Registry.Table.erase_reset]
    exact hcreated.owned h.owned hnew hfd
  · intro d hdo
    rw [Registry.Table.reset_isOpen] at hdo
    by_cases hdf : d = fd
    · exact ⟨i, hcreated.live, hcreated.socket.trans hdf.symm⟩
    · rw [if_neg hdf] at hdo
      obtain ⟨j, hj, he⟩ := h.owner d hdo
      have hsame := hcreated.other j fun hji => hj (hji ▸ hcreated.free)
      exact ⟨j, by rwa [hsame], by rwa [hsame]⟩
  · intro j hj
    by_cases hji : j = i
    · refine ⟨.read, by rw [hji, Function.update_self]; rfl, ?_⟩
      rw [hji, hcreated.socket, Registry.Table.reset_data_self]
      intro f
      cases f with
      | read => rw [hsettle, Function.update_self]; rfl
      | write => exact hwrite
    · obtain ⟨hjl, hjfd, hjne⟩ := hother hji hj
      rw [Function.update_of_ne hji, hjfd, Registry.Table.reset_data k true hjne,
        settle_requests hcreated.queued hd hjne]
      exact h.watched j hjl
  · intro d hdo
    rw [Registry.Table.reset_isOpen] at hdo
    by_cases hdf : d = fd
    · rw [if_pos hdf] at hdo
      cases hdo
    · rw [if_neg hdf] at hdo
      rw [settle_requests hcreated.queued hd hdf]
      exact h.clear d hdo
  · intro j hj hjl
    by_cases hji : j = i
    · rw [hji, hcreated.socket]
      exact hwrite
    · obtain ⟨hjl, hjfd, hjne⟩ := hother hji hjl
      rw [hjfd, settle_requests hcreated.queued hd hjne]
      exact h.pending j hj hjl

/-- A client that the pool has no room for is closed at once. -/
theorem Wakes.refuse {fd : Int} (h : Wakes k s wants rest) (hnew : k.isOpen fd = false) :
    Wakes ((k.reset fd true).reset fd false) ((s.log [.accept fd]).log [.close fd]) wants rest := by
  have hm := Moves.refuse h.owned hnew
  have herase : ((k.reset fd true).reset fd false).erase = k.erase.close fd := by
    have hopen : (k.reset fd true).erase = k.erase.open_ fd := k.erase_reset fd true
    have hclose : ((k.reset fd true).reset fd false).erase = (k.reset fd true).erase.close fd :=
      (k.reset fd true).erase_reset fd false
    rw [hclose, hopen, Interest.Table.close_open]
  have hopen : ∀ d, ((k.reset fd true).reset fd false).isOpen d = k.isOpen d := by
    intro d
    rw [Registry.Table.reset_isOpen, Registry.Table.reset_isOpen]
    split
    · next hd => rw [hd, hnew]
    · rfl
  have hdata : ∀ d, ((k.reset fd true).reset fd false).data d = k.data d := by
    intro d
    by_cases hd : d = fd
    · rw [hd, Registry.Table.reset_data_self, k.closed fd hnew]
    · rw [Registry.Table.reset_data _ _ hd, Registry.Table.reset_data _ _ hd]
  constructor
  · rw [herase]
    exact hm.owned
  · intro d hd
    exact h.owner d ((hopen d).symm.trans hd)
  · intro j hj
    obtain ⟨f, hf, hone⟩ := h.watched j hj
    refine ⟨f, hf, ?_⟩
    change Only (settle (s.conn j).fd
      (((k.reset fd true).reset fd false).data (s.conn j).fd) s.requests) f (.conn j)
    rw [hdata]
    exact hone
  · intro d hd
    exact h.clear d ((hopen d).symm.trans hd)
  · exact h.pending

/-- Slots that a stretch of the record acquires begin with `READ`. -/
def greet (wants : Nat → Want) (as : List Action) (j : Nat) : Want :=
  if .acquire j ∈ as then .read else wants j

theorem greet_acquire (wants : Nat → Want) (as : List Action) (fd : Int) (i : Nat) :
    greet wants (as ++ [.accept fd, .acquire i]) = Function.update (greet wants as) i .read := by
  funext j
  by_cases hji : j = i
  · rw [hji, Function.update_self, greet, if_pos (by simp)]
  · have hmem : .acquire j ∈ as ++ [.accept fd, .acquire i] ↔ .acquire j ∈ as := by simp [hji]
    rw [Function.update_of_ne hji, greet, greet]
    simp only [hmem]

theorem Wakes.accept {l : List Nat} {fds : List (Nat × Int)} (h : Wakes k s wants rest)
    (hg : Good s l) (ha : Accepts k.erase fds) :
    ∃ as, (s.acceptLoop fds).trace = s.trace ++ as ∧
      Wakes (acts k as) (s.acceptLoop fds) (greet wants as) rest := by
  have hrule := acceptLoop_rule (Q := fun fds u => ∃ as, u.trace = s.trace ++ as ∧
    Wakes (acts k as) u (greet wants as) rest ∧ Accepts (acts k as).erase fds) ?_ ?_ hg
    ⟨[], (List.append_nil _).symm, h, ha⟩
  · obtain ⟨_, as, ht, hw, _⟩ := hrule
    exact ⟨as, ht, hw⟩
  · rintro u u' l i fd now fds hu ⟨as, ht, hw, hacc⟩ hc
    have hnew : (acts k as).isOpen fd = false := hacc.2 _ List.mem_cons_self
    have hk : acts k (as ++ [.accept fd, .acquire i]) = (acts k as).reset fd true := by
      rw [acts_append]
      rfl
    have hrest := Accepts.open_ hacc
    have htr : u'.trace = s.trace ++ (as ++ [.accept fd, .acquire i]) := by
      rw [(createConnection_slot hc).2.2.2.2, ← List.append_assoc, ← ht]
      exact List.append_assoc ..
    refine ⟨as ++ [.accept fd, .acquire i], htr, ?_, ?_⟩
    · rw [hk, greet_acquire]
      exact hw.create hu hnew (Int.natCast_nonneg fd) hc
    · rw [hk, Registry.Table.erase_reset]
      exact hrest
  · rintro u l fd now fds hu ⟨as, ht, hw, hacc⟩
    have hnew : (acts k as).isOpen fd = false := hacc.2 _ List.mem_cons_self
    have hk : acts k (as ++ [.accept fd, .close fd]) =
        ((acts k as).reset fd true).reset fd false := by
      rw [acts_append]
      rfl
    have hgreet : greet wants (as ++ [.accept fd, .close fd]) = greet wants as := by
      funext j
      simp [greet]
    refine ⟨as ++ [.accept fd, .close fd], ?_, ?_, List.nodup_nil, by simp⟩
    · rw [← List.append_assoc, ← ht]
      exact List.append_assoc ..
    · rw [hk, hgreet]
      exact hw.refuse hnew

/-- A sweep of the timer. -/
theorem Wakes.sweep {l : List Nat} (h : Wakes k s wants rest) (hg : Good s l) (io : Io) :
    ∃ as, (s.handleTimer io).trace = s.trace ++ as ∧
      Wakes (acts k as) (s.handleTimer io) wants rest := by
  have hrule := handleTimer_rule (Q := fun _ u => ∃ as, u.trace = s.trace ++ as ∧
    Wakes (acts k as) u wants rest) io ?_ ?_ hg ⟨[], (List.append_nil _).symm, h⟩
  · exact hrule.2
  · rintro u kept i todo _ _ _ ⟨as, ht, hw⟩
    obtain ⟨bs, ht', hw'⟩ := hw.destroy i
    refine ⟨as ++ bs, by rw [ht', ht, List.append_assoc], ?_⟩
    rw [acts_append]
    exact hw'
  · exact fun u kept i todo _ _ hw => hw

end EventLoop

/-- An event of a batch, with the descriptor and the filter that it is about. -/
structure Report where
  ident : Int
  filter : Filter
  event : Kevent
  io : Io

/-- The slot that `process_connection` is called for. -/
def Report.slot (r : Report) : Option Nat :=
  if r.event.error ∨ r.event.eof then none
  else match r.event.udata with
    | .conn i => some i
    | _ => none

/-- The event loop together with the registrations of the kernel, and with the last `Want` other
than `NONE` of every connection. -/
structure Poll where
  kernel : Registrations
  loop : EventLoop
  wants : Nat → Want

namespace Poll
open EventLoop Registrations
variable {w : Poll} {r : Report} {batch : List Report}

/-- The same without the user data. -/
def world (w : Poll) : World := ⟨w.kernel.erase, w.loop⟩

/-- `kevent` takes the change list and collects a batch. -/
def kevent (w : Poll) : Poll :=
  { w with kernel := w.kernel.submitAll w.loop.requests, loop := w.loop.step .kevent }

/-- A connection that is created wants `READ`, and one that is processed what it returns. -/
def wantsAfter (w : Poll) (r : Report) (as : List Action) : Nat → Want :=
  if r.event.error ∨ r.event.eof then w.wants
  else match r.event.udata with
    | .listener => greet w.wants as
    | .conn i => Function.update w.wants i (latest (w.wants i)
        ((w.loop.conn i).advance r.io w.loop.tlsCtx w.loop.fileServer).want)
    | _ => w.wants

/-- An event is dispatched, and the kernel sees what is done meanwhile. -/
def dispatch (w : Poll) (r : Report) : Poll :=
  let s := w.loop.step (.event r.event r.io)
  let as := s.trace.drop w.loop.trace.length
  ⟨w.kernel.acts as, s, w.wantsAfter r as⟩

/-- One round of `run`. -/
def round (w : Poll) (batch : List Report) : Poll := batch.foldl dispatch w.kevent

def create (server : FileServer) (timeout : Int) (tls : Bool) : Poll :=
  ⟨.empty, .create server timeout tls, fun _ => .none⟩

theorem world_kevent (w : Poll) : w.kevent.world = w.world.kevent := by
  have hops : w.loop.requests.map Request.op = w.loop.changelist.map Change.op := by
    rw [requests, List.map_map]
    exact List.map_congr_left fun ch _ => ch.request_op
  have herase : w.kevent.kernel.erase =
      w.kernel.erase.submitAll (w.loop.changelist.map Change.op) := by
    rw [← hops]
    exact w.kernel.erase_submitAll _
  unfold world World.kevent
  rw [herase]
  rfl

theorem world_dispatch (w : Poll) (r : Report) :
    (w.dispatch r).world = w.world.dispatch (r.event, r.io) := by
  have herase := acts_erase w.kernel
    ((w.loop.step (.event r.event r.io)).trace.drop w.loop.trace.length)
  unfold world World.dispatch
  exact congrArg (fun k => World.mk k _) herase

/-- A batch reports at most one event for each registered filter, with its user data. Only the
events that `process_connection` is called for are looked at. -/
def Collected (k : Registrations) (batch : List Report) : Prop :=
  (∀ r ∈ batch, ∀ i, r.slot = some i → k.data r.ident r.filter = some (.conn i)) ∧
    batch.Pairwise fun r r' => r.slot ≠ none → r'.slot ≠ none →
      (r.ident, r.filter) ≠ (r'.ident, r'.filter)

/-- An event that ends a connection finds its slot acquired; `accept` returns descriptors that
were not open. -/
def Admissible (w : Poll) (r : Report) : Prop := w.world.Admissible (r.event, r.io)

/-- A batch as `kevent` returns it, whose steps are applied to acquired connections. -/
def Proper (w : Poll) (batch : List Report) : Prop :=
  Run.Along dispatch Admissible w.kevent batch ∧ Collected w.kevent.kernel batch

def Inv (w : Poll) (rest : List Nat) : Prop :=
  (∃ l, Good w.loop l) ∧ Wakes w.kernel w.loop w.wants rest

/-- Every acquired connection that is not closed will have the filter of its last `Want`
registered, with itself as the user data, and no other filter. -/
def Watched (w : Poll) : Prop :=
  ∀ i, w.loop.pool.InUse i → (w.loop.conn i).state ≠ .closed → ∃ f, (w.wants i).filter = some f ∧
    Only ((w.kernel.submitAll w.loop.requests).data (w.loop.conn i).fd) f (.conn i)

theorem Inv.watched {rest : List Nat} (h : w.Inv rest) : w.Watched := by
  intro i _ hi
  rw [Registry.Table.submitAll_data (h.2.owned.isOpen i hi).2]
  exact h.2.watched i hi

theorem kevent_inv {rest rest' : List Nat} (h : w.Inv rest) : w.kevent.Inv rest' := by
  obtain ⟨⟨l, hg⟩, hw⟩ := h
  obtain ⟨⟨l', hg', ho⟩, _⟩ := World.kevent_inv (w := w.world) ⟨l, hg, hw.owned⟩
  rw [← world_kevent] at ho
  refine ⟨⟨l, hg.queue []⟩, ho, ?_, ?_, fun _ _ => rfl, fun _ _ _ => rfl⟩
  · intro d hd
    apply hw.owner d
    rw [← Registry.Table.submitAll_isOpen w.kernel w.loop.requests]
    exact hd
  · intro i hi
    obtain ⟨f, hf, hone⟩ := hw.watched i hi
    refine ⟨f, hf, ?_⟩
    rw [← Registry.Table.submitAll_data (hw.owned.isOpen i hi).2] at hone
    exact hone

/-- Right after `kevent`, whatever is registered is what its connection waits on. -/
theorem registered_for {rest : List Nat} {d : Int} {f : Filter} {i : Nat} (hw : w.Inv rest)
    (hnone : w.loop.changelist = []) (hd : w.kernel.data d f = some (.conn i)) :
    (w.loop.conn i).fd = d ∧ (w.wants i).filter = some f := by
  have ho : w.kernel.isOpen d = true := by
    by_contra hc
    rw [w.kernel.closed d (Bool.eq_false_iff.2 hc)] at hd
    cases hd
  obtain ⟨j, hj, rfl⟩ := hw.2.owner d ho
  obtain ⟨f', hf', hone⟩ := hw.2.watched j hj
  have hreq : w.loop.requests = [] := by rw [requests, hnone]; rfl
  have hdata := hone f
  rw [hreq] at hdata
  change w.kernel.data (w.loop.conn j).fd f = _ at hdata
  rw [hd] at hdata
  split at hdata
  · next hff =>
    cases hdata
    exact ⟨rfl, hff ▸ hf'⟩
  · cases hdata

/-- A batch has at most one event for each slot. -/
theorem Collected.nodup {rest : List Nat} (h : Collected w.kernel batch) (hw : w.Inv rest)
    (hnone : w.loop.changelist = []) : (batch.filterMap Report.slot).Nodup := by
  apply List.pairwise_filterMap.2
  apply h.2.imp_of_mem
  intro r r' hr hr' hne i hi i' hi' hii
  obtain ⟨hfd, hf⟩ := registered_for hw hnone (h.1 r hr i hi)
  obtain ⟨hfd', hf'⟩ := registered_for hw hnone (h.1 r' hr' i' hi')
  apply hne (by simp [hi]) (by simp [hi'])
  subst hii
  have hfilter : some r.filter = some r'.filter := hf.symm.trans hf'
  rw [← hfd, ← hfd', Option.some.inj hfilter]

theorem dispatch_eq {as : List Action}
    (ht : (w.loop.dispatch r.io r.event).trace = w.loop.trace ++ as) :
    w.dispatch r =
      ⟨w.kernel.acts as, w.loop.dispatch r.io r.event, w.wantsAfter r as⟩ := by
  have has : (w.loop.dispatch r.io r.event).trace.drop w.loop.trace.length = as := by
    rw [ht, List.drop_left]
  unfold dispatch step
  dsimp only
  rw [has]

theorem dispatch_wakes {rest : List Report}
    (h : w.Inv ((r :: rest).filterMap Report.slot))
    (hnd : ((r :: rest).filterMap Report.slot).Nodup) (ha : w.Admissible r) :
    ∃ as, (w.loop.dispatch r.io r.event).trace = w.loop.trace ++ as ∧
      Wakes (w.kernel.acts as) (w.loop.dispatch r.io r.event) (w.wantsAfter r as)
        (rest.filterMap Report.slot) := by
  obtain ⟨⟨l, hg⟩, hw⟩ := h
  have hnil : w.loop.trace = w.loop.trace ++ [] := (List.append_nil _).symm
  unfold EventLoop.dispatch wantsAfter
  rw [List.filterMap_cons] at hw hnd
  unfold Report.slot at hw hnd
  by_cases hend : r.event.error = true ∨ r.event.eof = true
  · rw [if_pos hend] at hw
    simp only [if_pos hend]
    cases r.event.udata with
    | conn i => exact hw.destroy i
    | null => exact ⟨[], hnil, hw⟩
    | listener => exact ⟨[], hnil, hw⟩
    | timer => exact ⟨[], hnil, hw⟩
  · rw [if_neg hend] at hw hnd
    simp only [if_neg hend]
    cases hu : r.event.udata with
    | conn i =>
      rw [hu] at hw hnd
      exact hw.process (List.nodup_cons.1 hnd).1 r.io
    | null =>
      rw [hu] at hw
      exact ⟨[], hnil, hw⟩
    | listener =>
      rw [hu] at hw
      exact hw.accept hg ha.2
    | timer =>
      rw [hu] at hw
      exact hw.sweep hg r.io

theorem dispatch_inv {rest : List Report} (h : w.Inv ((r :: rest).filterMap Report.slot))
    (hnd : ((r :: rest).filterMap Report.slot).Nodup) (ha : w.Admissible r) :
    (w.dispatch r).Inv (rest.filterMap Report.slot) := by
  obtain ⟨as, ht, hw⟩ := dispatch_wakes h hnd ha
  obtain ⟨l, hg⟩ := h.1
  rw [dispatch_eq ht]
  exact ⟨dispatch_good r.io hg ha.1, hw⟩

theorem batch_inv (h : w.Inv (batch.filterMap Report.slot))
    (hnd : (batch.filterMap Report.slot).Nodup) (ha : Run.Along dispatch Admissible w batch) :
    (batch.foldl dispatch w).Inv [] := by
  induction batch generalizing w with
  | nil => exact h
  | cons r rest ih =>
    obtain ⟨hr, hrest⟩ := ha
    have hsub := (List.sublist_cons_self r rest).filterMap Report.slot
    exact ih (dispatch_inv h hnd hr) (hsub.nodup hnd) hrest

theorem round_inv (h : w.Inv []) (hb : w.Proper batch) : (w.round batch).Inv [] := by
  obtain ⟨ha, hc⟩ := hb
  have hk : w.kevent.Inv (batch.filterMap Report.slot) := kevent_inv h
  exact batch_inv hk (hc.nodup hk rfl) ha

theorem create_inv (server : FileServer) (timeout : Int) (tls : Bool) :
    (create server timeout tls).Inv [] := by
  obtain ⟨l, hg, ho⟩ := World.create_inv server timeout tls
  refine ⟨⟨l, hg⟩, ho, ?_, fun i hi => (hi rfl).elim, fun _ _ => rfl, fun _ _ hi => (hi rfl).elim⟩
  intro d hd
  cases hd

/-- In every run of proper batches, whenever `kevent` is about to be called, the queued changes
leave every acquired connection that is not closed with the filter of its last `Want`, and with
no other. -/
theorem no_lost_wakeup (server : FileServer) (timeout : Int) (tls : Bool)
    (batches : List (List Report))
    (h : Run.Along round Proper (create server timeout tls) batches) :
    Run.Throughout round Watched (create server timeout tls) batches := by
  have hstep : ∀ (w : Poll) batch, w.Inv [] → w.Proper batch → (w.round batch).Inv [] :=
    fun w batch hw hb => round_inv hw hb
  have hrun := Run.throughout_of_along hstep (create_inv server timeout tls) h
  exact hrun.mono fun w hw => hw.watched

def welcome (fd : Nat) : Report := ⟨3, .read, ⟨false, false, .listener⟩, { accepts := [(fd, 0)] }⟩

def readable (fd : Int) (i : Nat) (io : Io) : Report := ⟨fd, .read, ⟨false, false, .conn i⟩, io⟩

/-- A client fails, and the next one gets its descriptor in the same round. -/
def reusedDescriptor : List (List Report) :=
  [[welcome 5], [readable 5 0 { peek := .error }, welcome 5],
    [readable 5 0 { peek := .done (some 0x47) }]]

theorem no_lost_wakeup_reused :
    Run.Throughout round Watched (create ⟨bytes "/srv"⟩ 75 false) reusedDescriptor := by
  have hplain (w : Poll) (r : Report) (he : r.event.error = false) (hf : r.event.eof = false)
      (ha : Accepts w.kernel.erase r.io.accepts) : w.Admissible r := ⟨fresh_of_plain he hf, ha⟩
  have hone (k : Registrations) (fd : Nat) (now : Int) (hk : k.isOpen fd = false) :
      Accepts k.erase [(fd, now)] :=
    ⟨List.nodup_singleton fd, fun p hp => by rw [List.mem_singleton.1 hp]; exact hk⟩
  have hnone (k : Registrations) : Accepts k.erase [] := ⟨List.nodup_nil, by simp⟩
  refine no_lost_wakeup _ _ _ _ ⟨⟨⟨?_, trivial⟩, ?_, ?_⟩, ⟨⟨?_, ?_, trivial⟩, ?_, ?_⟩,
    ⟨⟨?_, trivial⟩, ?_, ?_⟩, trivial⟩
  · exact hplain _ _ rfl rfl (hone _ _ _ rfl)
  · simp [welcome, Report.slot]
  · simp
  · exact hplain _ _ rfl rfl (hnone _)
  · exact hplain _ _ rfl rfl (hone _ _ _ (by decide))
  · intro r hr i hi
    rcases List.mem_cons.1 hr with rfl | hr
    · cases hi
      decide
    · rw [List.mem_singleton.1 hr] at hi
      cases hi
  · simp [welcome, readable, Report.slot]
  · exact hplain _ _ rfl rfl (hnone _)
  · intro r hr i hi
    rw [List.mem_singleton.1 hr] at hi ⊢
    cases hi
    decide
  · simp

end Poll

end FileWebServer
