import FileWebServer.Core.Slots

namespace FileWebServer
open LinkedList
set_option autoImplicit true

namespace Connection

/-- A connection is its core at its place. -/
theorem ext_core {c d : Connection} (h : c.core = d.core) (hp : c.place = d.place) : c = d := by
  simp only [core, mk.injEq] at h
  simp only [place, Prod.mk.injEq] at hp
  cases c
  cases d
  simp only [mk.injEq]
  tauto

end Connection

namespace EventLoop
variable {s : EventLoop} {i j : Nat} {l kept rest gone : List Nat} {clock : Nat → Int}

/-- `is_expired`, at the time at which `handle_timer` asks it of the connection. -/
def timedOut (clock : Nat → Int) (s : EventLoop) (i : Nat) : Bool :=
  (s.conn i).isExpired (clock i) s.keepAliveTimeout

/-- The body of the loop of `handle_timer`. -/
def sweepOne (clock : Nat → Int) (s : EventLoop) (i : Nat) : EventLoop :=
  if s.timedOut clock i then s.destroyConnection i else s

/-- What makes a connection expire is left alone where others are destroyed. -/
theorem destroyConnection_timedOut (s : EventLoop) (h : j ≠ i) :
    (s.destroyConnection i).timedOut clock j = s.timedOut clock j := by
  have htimeout : (s.destroyConnection i).keepAliveTimeout = s.keepAliveTimeout := by
    have hsame := congrArg EventLoop.keepAliveTimeout (removeFromKeepaliveList_core s i)
    exact hsame
  have hcore := destroyConnection_conn s i j
  rw [if_neg h] at hcore
  have hactive : ((s.destroyConnection i).conn j).lastActive = (s.conn j).lastActive := by
    have hsame := congrArg Connection.lastActive hcore
    exact hsame
  unfold timedOut Connection.isExpired
  rw [htimeout, hactive]

/-- The walk along the links, which are changed on the way, is a walk along the list that they
stood for at its beginning. -/
theorem timerLoop_eq_foldl {fuel : Nat} (h : s.Listed (kept ++ rest)) (hfuel : rest.length < fuel) :
    timerLoop clock fuel s rest.head? = rest.foldl (sweepOne clock) s := by
  induction rest generalizing s kept fuel with
  | nil =>
    cases fuel with
    | zero => rfl
    | succ fuel => rfl
  | cons i rest ih =>
    cases fuel with
    | zero => exact absurd hfuel (Nat.not_lt_zero _)
    | succ fuel =>
      have hfuel' : rest.length < fuel := Nat.lt_of_succ_lt_succ hfuel
      have hnext : (s.conn i).keepaliveNext = rest.head? := h.links.next_eq
      have hkept : i ∉ kept := fun hi =>
        (List.nodup_append.1 h.links.nodup).2.2 i hi i List.mem_cons_self rfl
      have hloop : timerLoop clock (fuel + 1) s (i :: rest).head? =
          timerLoop clock fuel (sweepOne clock s i) rest.head? := by
        rw [List.head?_cons, timerLoop, hnext]
        rfl
      rw [hloop, List.foldl_cons]
      by_cases hexp : s.timedOut clock i = true
      · -- the node is taken out, and the walk goes on with the successor it had
        have hlist := destroyConnection_listed h i
        rw [List.erase_append_right _ hkept, List.erase_cons_head] at hlist
        rw [sweepOne, if_pos hexp]
        exact ih hlist hfuel'
      · have hlist : s.Listed ((kept ++ [i]) ++ rest) := by
          rw [List.append_assoc]
          exact h
        rw [sweepOne, if_neg hexp]
        exact ih hlist hfuel'

/-- It destroys the connections that were expired at its beginning. -/
theorem foldl_sweepOne (h : rest.Nodup) :
    rest.foldl (sweepOne clock) s = (rest.filter (s.timedOut clock)).foldl destroyConnection s := by
  induction rest generalizing s with
  | nil => rfl
  | cons i rest ih =>
    obtain ⟨hi, hrest⟩ := List.nodup_cons.1 h
    rw [List.foldl_cons]
    by_cases hexp : s.timedOut clock i = true
    · have hlater : rest.filter ((s.destroyConnection i).timedOut clock) =
          rest.filter (s.timedOut clock) := by
        apply List.filter_congr
        intro j hj
        exact destroyConnection_timedOut s fun he => hi (he ▸ hj)
      rw [sweepOne, if_pos hexp, ih hrest, hlater, List.filter_cons_of_pos hexp, List.foldl_cons]
    · rw [sweepOne, if_neg hexp, ih hrest, List.filter_cons_of_neg hexp]

/-- Taking a node out of the list changes nothing outside it. -/
theorem destroyConnection_outside (h : s.Listed l) (hi : i ∈ l) (hj : j ∉ l) :
    (s.destroyConnection i).conn j = s.conn j := by
  have hji : j ≠ i := fun he => hj (he ▸ hi)
  have hlist := destroyConnection_listed h i
  have hlinks := (destroyConnection_links s i).trans
    (removeFromKeepaliveList_links ((h.flag i).2 hi))
  have hcore := destroyConnection_conn s i j
  rw [if_neg hji] at hcore
  apply Connection.ext_core hcore
  obtain ⟨hnext, hprev⟩ := h.links.unlink_outside hi hj
  have hprevs : (s.destroyConnection i).links.prev j = s.links.prev j := by
    rw [hlinks, hprev]
  have hnexts : (s.destroyConnection i).links.next j = s.links.next j := by
    rw [hlinks, hnext]
  have hflags : (s.destroyConnection i).listed j = s.listed j := by
    rw [Bool.eq_iff_iff, hlist.flag, h.flag, List.mem_erase_of_ne hji]
  exact Prod.ext hprevs (Prod.ext hnexts hflags)

/-- A destroyed connection is closed, and its links and its flag are cleared. -/
theorem destroyConnection_gone (h : s.Listed l) (hi : i ∈ l) :
    (s.destroyConnection i).conn i = (s.conn i).close.core := by
  have hlist := destroyConnection_listed h i
  have hlinks := (destroyConnection_links s i).trans
    (removeFromKeepaliveList_links ((h.flag i).2 hi))
  have hcore := destroyConnection_conn s i i
  rw [if_pos rfl, ← Connection.core_close] at hcore
  apply Connection.ext_core (c := (s.destroyConnection i).conn i) (d := (s.conn i).close.core) hcore
  have hnexts : (s.destroyConnection i).links.next i = none := by
    rw [hlinks, Links.unlink_next, if_pos rfl]
  have hprevs : (s.destroyConnection i).links.prev i = none := by
    rw [hlinks]
    exact Function.update_self ..
  have hflags : (s.destroyConnection i).listed i = false := by
    apply Bool.eq_false_of_not_eq_true
    rw [hlist.flag]
    exact h.links.nodup.not_mem_erase
  exact Prod.ext hprevs (Prod.ext hnexts hflags)

theorem foldl_destroy_listed (h : s.Listed l) (gone : List Nat) :
    (gone.foldl destroyConnection s).Listed (l.diff gone) := by
  induction gone generalizing s l with
  | nil =>
    rw [List.diff_nil]
    exact h
  | cons i gone ih =>
    rw [List.foldl_cons, List.diff_cons]
    exact ih (destroyConnection_listed h i)

theorem foldl_destroy_core (hj : j ∉ gone) :
    ((gone.foldl destroyConnection s).conn j).core = (s.conn j).core := by
  induction gone generalizing s with
  | nil => rfl
  | cons i gone ih =>
    rw [List.mem_cons, not_or] at hj
    obtain ⟨hji, hj⟩ := hj
    have hcore := destroyConnection_conn s i j
    rw [if_neg hji] at hcore
    rw [List.foldl_cons, ih hj, hcore]

/-- The nodes that are still to be destroyed are in the list without the first one. -/
theorem subset_erase (hsub : i :: gone ⊆ l) (hnd : (i :: gone).Nodup) : gone ⊆ l.erase i := by
  intro j hj
  have hji : j ≠ i := fun he => (List.nodup_cons.1 hnd).1 (he ▸ hj)
  exact (List.mem_erase_of_ne hji).2 (hsub (List.mem_cons_of_mem _ hj))

theorem foldl_destroy_outside (h : s.Listed l) (hsub : gone ⊆ l) (hnd : gone.Nodup) (hj : j ∉ l) :
    (gone.foldl destroyConnection s).conn j = s.conn j := by
  induction gone generalizing s l with
  | nil => rfl
  | cons i gone ih =>
    rw [List.foldl_cons, ih (destroyConnection_listed h i) (subset_erase hsub hnd)
      (List.nodup_cons.1 hnd).2 fun hm => hj (List.mem_of_mem_erase hm)]
    exact destroyConnection_outside h (hsub List.mem_cons_self) hj

theorem foldl_destroy_gone (h : s.Listed l) (hsub : gone ⊆ l) (hnd : gone.Nodup) (hj : j ∈ gone) :
    (gone.foldl destroyConnection s).conn j = (s.conn j).close.core := by
  induction gone generalizing s l with
  | nil => exact absurd hj List.not_mem_nil
  | cons i gone ih =>
    have hlist := destroyConnection_listed h i
    have hsub' := subset_erase hsub hnd
    obtain ⟨hi, hnd'⟩ := List.nodup_cons.1 hnd
    rw [List.foldl_cons]
    by_cases hji : j = i
    · rw [hji, foldl_destroy_outside hlist hsub' hnd' h.links.nodup.not_mem_erase]
      exact destroyConnection_gone h (hsub List.mem_cons_self)
    · have hcore := destroyConnection_conn s i j
      rw [if_neg hji] at hcore
      rw [ih hlist hsub' hnd' (List.mem_of_ne_of_mem hji hj), Connection.core_close,
        Connection.core_close, hcore]

/-- The calls that destroying a connection makes. -/
def destroyActions (c : Connection) (i : Nat) : List Action := c.closeActions ++ releaseActions i

theorem foldl_destroy_trace (hnd : gone.Nodup) : (gone.foldl destroyConnection s).trace =
    s.trace ++ gone.flatMap fun i => destroyActions (s.conn i) i := by
  induction gone generalizing s with
  | nil => exact (List.append_nil _).symm
  | cons i gone ih =>
    obtain ⟨hi, hnd'⟩ := List.nodup_cons.1 hnd
    have hlater : (gone.flatMap fun j => destroyActions ((s.destroyConnection i).conn j) j) =
        gone.flatMap fun j => destroyActions (s.conn j) j := by
      apply List.flatMap_congr
      intro j hj
      have hji : j ≠ i := fun he => hi (he ▸ hj)
      have hcore := destroyConnection_conn s i j
      rw [if_neg hji] at hcore
      rw [destroyActions, destroyActions, Connection.core_closeActions hcore]
    rw [List.foldl_cons, ih hnd', hlater, destroyConnection_trace, List.flatMap_cons,
      destroyActions, List.append_assoc, List.append_assoc, List.append_assoc]

/-- What `handle_timer` leaves of an event loop: the expired connections of the list have been
destroyed, each once and in the order of the list, and the others make up the list. -/
structure Swept (clock : Nat → Int) (l : List Nat) (s s' : EventLoop) : Prop where
  destroys : s' = (l.filter (s.timedOut clock)).foldl destroyConnection s
  calls : s'.trace = s.trace ++
    (l.filter (s.timedOut clock)).flatMap fun i => destroyActions (s.conn i) i
  list : s'.Listed (l.filter fun i => !s.timedOut clock i)
  gone : ∀ i ∈ l, s.timedOut clock i = true → s'.conn i = (s.conn i).close.core
  spared : ∀ i, ¬ (i ∈ l ∧ s.timedOut clock i = true) → (s'.conn i).core = (s.conn i).core
  outside : ∀ i, i ∉ l → s'.conn i = s.conn i

theorem swept_foldl (h : s.Listed l) : Swept clock l s (l.foldl (sweepOne clock) s) := by
  have hsub : l.filter (s.timedOut clock) ⊆ l := List.filter_subset_self l
  have hnd : (l.filter (s.timedOut clock)).Nodup := h.links.nodup.filter _
  rw [foldl_sweepOne h.links.nodup]
  constructor
  · rfl
  · exact foldl_destroy_trace hnd
  · have hrest : l.diff (l.filter (s.timedOut clock)) = l.filter fun i => !s.timedOut clock i := by
      rw [h.links.nodup.sdiff_eq_filter]
      apply List.filter_congr
      intro i hi
      simp [hi]
    rw [← hrest]
    exact foldl_destroy_listed h _
  · exact fun i hi hexp => foldl_destroy_gone h hsub hnd (List.mem_filter.2 ⟨hi, hexp⟩)
  · exact fun i hi => foldl_destroy_core fun hm => hi (List.mem_filter.1 hm)
  · exact fun i hi => foldl_destroy_outside h hsub hnd hi

theorem walk_eq_foldl {fuel : Nat} (h : s.Listed l) (hfuel : l.length < fuel) :
    timerLoop clock fuel s s.keepaliveHead = l.foldl (sweepOne clock) s := by
  have hhead : s.keepaliveHead = l.head? := h.links.head_eq
  have hall : s.Listed ([] ++ l) := h
  rw [hhead]
  exact timerLoop_eq_foldl hall hfuel

/-- For every well-formed list, whatever its length and the times of its connections, the loop of
`handle_timer` ends, and it has swept the list then. -/
theorem handleTimer_sweeps (h : s.Listed l) (io : Io) : ∃ s', Swept io.clock l s s' ∧
    (∀ fuel, l.length < fuel → timerLoop io.clock fuel s s.keepaliveHead = s') ∧
    ((∀ i ∈ l, i < maxConnections) → s.handleTimer io = s') := by
  refine ⟨_, swept_foldl h, fun fuel hfuel => walk_eq_foldl h hfuel, fun hslots => ?_⟩
  apply walk_eq_foldl h
  exact Nat.lt_succ_of_le (length_le_of_slots h.links.nodup hslots)

/-- A list of two connections. -/
def twoListed : EventLoop :=
  ((create ⟨bytes "/srv"⟩ 75 false).addToKeepaliveList 0).addToKeepaliveList 1

/-- The connection in slot 0 has been idle for 76 seconds. -/
def idleFirst : Io := { clock := fun i => if i = 0 then 76000000000 else 0 }

theorem handleTimer_sweeps_two :
    Swept idleFirst.clock [1, 0] twoListed (twoListed.handleTimer idleFirst) := by
  have hempty : (create ⟨bytes "/srv"⟩ 75 false).Listed [] := (create_good _ _ _).list
  have hlist : twoListed.Listed [1, 0] := (hempty.add List.not_mem_nil).add (by decide)
  obtain ⟨s', hswept, _, hsame⟩ := handleTimer_sweeps hlist idleFirst
  rw [hsame (by decide)]
  exact hswept

/-- In particular in a state that a run of the event loop leads to. -/
theorem Good.swept (h : Good s l) (io : Io) : Swept io.clock l s (s.handleTimer io) := by
  rw [handleTimer, walk_eq_foldl h.list (Nat.lt_succ_of_le h.length_le)]
  exact swept_foldl h.list

end EventLoop

end FileWebServer
