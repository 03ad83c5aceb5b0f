import FileWebServer.Core.EventLoop
import FileWebServer.Lib.LinkedList

namespace FileWebServer
open LinkedList
set_option autoImplicit true

namespace Connection

/-- A connection without its place in the keep-alive list. -/
def core (c : Connection) : Connection :=
  { c with keepalivePrev := none, keepaliveNext := none, inKeepaliveList := false }

/-- The place of a connection in the keep-alive list. -/
def place (c : Connection) : Option Nat × Option Nat × Bool :=
  (c.keepalivePrev, c.keepaliveNext, c.inKeepaliveList)

theorem core_state {c d : Connection} (h : c.core = d.core) : c.state = d.state := by
  have hs := congrArg Connection.state h
  exact hs

theorem core_fd {c d : Connection} (h : c.core = d.core) : c.fd = d.fd := by
  have hs := congrArg Connection.fd h
  exact hs

theorem core_closeActions {c d : Connection} (h : c.core = d.core) :
    c.closeActions = d.closeActions := by
  have hs := congrArg Connection.closeActions h
  exact hs

theorem core_close (c : Connection) : c.close.core = c.core.close := by
  unfold close core
  split <;> rfl

end Connection

namespace EventLoop
variable {s s' : EventLoop} {i j : Nat}

/-- The links of the keep-alive list. -/
def links (s : EventLoop) : Links Nat :=
  { next := fun i => (s.conn i).keepaliveNext
    prev := fun i => (s.conn i).keepalivePrev
    head := s.keepaliveHead }

/-- The event loop without its keep-alive list. -/
def core (s : EventLoop) : EventLoop :=
  { s with
    pool := { s.pool with connections := fun i => (s.conn i).core }
    keepaliveHead := none }

theorem core_trace (h : s.core = s'.core) : s.trace = s'.trace := by
  have ht := congrArg EventLoop.trace h
  exact ht

theorem core_changelist (h : s.core = s'.core) : s.changelist = s'.changelist := by
  have hc := congrArg EventLoop.changelist h
  exact hc

theorem core_slots (h : s.core = s'.core) : ConnectionPool.SameSlots s.pool s'.pool :=
  ⟨congrArg (fun s => s.pool.freeHead) h, congrArg (fun s => s.pool.freeList) h,
    congrArg (fun s => s.pool.activeCount) h⟩

theorem core_conn (h : s.core = s'.core) (i : Nat) : (s.conn i).core = (s'.conn i).core :=
  congrArg (fun s => s.conn i) h

@[simp] theorem conn_setConn (s : EventLoop) (i j : Nat) (c : Connection) :
    (s.setConn i c).conn j = if j = i then c else s.conn j :=
  Function.update_apply ..

@[simp] theorem conn_log (s : EventLoop) (as : List Action) : (s.log as).conn i = s.conn i := rfl

@[simp] theorem conn_writeBack (s : EventLoop) (i j : Nat) (r : Outcome) :
    (s.writeBack i r).conn j = if j = i then r.conn else s.conn j := conn_setConn ..

@[simp] theorem conn_addEvents (s : EventLoop) (chs : List Change) :
    (s.addEvents chs).conn i = s.conn i := rfl

/-- Writing back a connection with another place only changes the list. -/
theorem setConn_core {c : Connection} (h : c.core = (s.conn i).core) :
    (s.setConn i c).core = s.core := by
  have hc : (fun j => ((s.setConn i c).conn j).core) = fun j => (s.conn j).core := by
    funext j
    rw [conn_setConn]
    split
    · next hj =>
      rw [hj]
      exact h
    · rfl
  unfold core
  rw [hc]
  rfl

@[simp] theorem setNext_core (s : EventLoop) (i : Nat) (n : Option Nat) :
    (s.setNext i n).core = s.core := setConn_core rfl

@[simp] theorem setPrev_core (s : EventLoop) (i : Nat) (p : Option Nat) :
    (s.setPrev i p).core = s.core := setConn_core rfl

@[simp] theorem setListed_core (s : EventLoop) (i : Nat) (b : Bool) :
    (s.setListed i b).core = s.core := setConn_core rfl

@[simp] theorem setHead_core (s : EventLoop) (h : Option Nat) : (s.setHead h).core = s.core := rfl

theorem addToKeepaliveList_core (s : EventLoop) (i : Nat) :
    (s.addToKeepaliveList i).core = s.core := by
  unfold addToKeepaliveList
  split
  · rfl
  · rw [setHead_core]
    split
    · simp only [setPrev_core, setNext_core, setListed_core]
    · simp only [setPrev_core, setNext_core, setListed_core]

theorem bypassNext_core (s : EventLoop) (i : Nat) : (s.bypassNext i).core = s.core := by
  unfold bypassNext
  split
  · exact setNext_core ..
  · exact setHead_core ..

theorem bypassPrev_core (s : EventLoop) (i : Nat) : (s.bypassPrev i).core = s.core := by
  unfold bypassPrev
  split
  · exact setPrev_core ..
  · rfl

theorem removeFromKeepaliveList_core (s : EventLoop) (i : Nat) :
    (s.removeFromKeepaliveList i).core = s.core := by
  unfold removeFromKeepaliveList
  split
  · rw [setNext_core, setPrev_core, bypassPrev_core, bypassNext_core, setListed_core]
  · rfl

theorem syncKeepaliveList_core (s : EventLoop) (i : Nat) (prev : State) :
    (s.syncKeepaliveList i prev).core = s.core := by
  unfold syncKeepaliveList
  split
  · exact addToKeepaliveList_core s i
  · split
    · exact removeFromKeepaliveList_core s i
    · rfl

/-- Writing back a connection changes the links of its slot. -/
theorem setConn_links_update (s : EventLoop) (i : Nat) (c : Connection) :
    (s.setConn i c).links =
      { s.links with
        next := Function.update s.links.next i c.keepaliveNext
        prev := Function.update s.links.prev i c.keepalivePrev } := by
  simp only [links, conn_setConn, Links.mk.injEq]
  refine ⟨?_, ?_, rfl⟩
  · funext j
    rw [Function.update_apply]
    split <;> rfl
  · funext j
    rw [Function.update_apply]
    split <;> rfl

@[simp] theorem setNext_links (s : EventLoop) (i : Nat) (n : Option Nat) :
    (s.setNext i n).links = { s.links with next := Function.update s.links.next i n } := by
  have hprev : Function.update s.links.prev i (s.conn i).keepalivePrev = s.links.prev :=
    Function.update_eq_self i _
  rw [setNext, setConn_links_update, hprev]

@[simp] theorem setPrev_links (s : EventLoop) (i : Nat) (p : Option Nat) :
    (s.setPrev i p).links = { s.links with prev := Function.update s.links.prev i p } := by
  have hnext : Function.update s.links.next i (s.conn i).keepaliveNext = s.links.next :=
    Function.update_eq_self i _
  rw [setPrev, setConn_links_update, hnext]

@[simp] theorem setHead_links (s : EventLoop) (h : Option Nat) :
    (s.setHead h).links = { s.links with head := h } := rfl

/-- Writing back a connection with its old links leaves the list alone. -/
theorem setConn_links_same {c : Connection} (hn : c.keepaliveNext = (s.conn i).keepaliveNext)
    (hp : c.keepalivePrev = (s.conn i).keepalivePrev) : (s.setConn i c).links = s.links := by
  have hnext : Function.update s.links.next i c.keepaliveNext = s.links.next := by
    rw [hn]
    exact Function.update_eq_self i _
  have hprev : Function.update s.links.prev i c.keepalivePrev = s.links.prev := by
    rw [hp]
    exact Function.update_eq_self i _
  rw [setConn_links_update, hnext, hprev]

theorem setConn_links {c : Connection} (h : c.place = (s.conn i).place) :
    (s.setConn i c).links = s.links := by
  simp only [Connection.place, Prod.mk.injEq] at h
  exact setConn_links_same h.2.1 h.1

@[simp] theorem setListed_links (s : EventLoop) (i : Nat) (b : Bool) :
    (s.setListed i b).links = s.links := setConn_links_same rfl rfl

theorem bypassNext_links (s : EventLoop) (i : Nat) :
    (s.bypassNext i).links = s.links.bypassNext i := by
  have hlink : s.links.prev i = (s.conn i).keepalivePrev := rfl
  unfold bypassNext Links.bypassNext
  rw [hlink]
  cases (s.conn i).keepalivePrev with
  | none => exact setHead_links ..
  | some p => exact setNext_links ..

theorem bypassPrev_links (s : EventLoop) (i : Nat) :
    (s.bypassPrev i).links = s.links.bypassPrev i := by
  have hlink : s.links.next i = (s.conn i).keepaliveNext := rfl
  unfold bypassPrev Links.bypassPrev
  rw [hlink]
  cases (s.conn i).keepaliveNext with
  | none => rfl
  | some p => exact setPrev_links ..

theorem removeFromKeepaliveList_links (h : (s.conn i).inKeepaliveList = true) :
    (s.removeFromKeepaliveList i).links = s.links.unlink i := by
  rw [removeFromKeepaliveList, if_pos h, setNext_links, setPrev_links, bypassPrev_links,
    bypassNext_links, setListed_links]
  rfl

theorem addToKeepaliveList_links (h : (s.conn i).inKeepaliveList = false) :
    (s.addToKeepaliveList i).links = s.links.pushFront i := by
  have hhead : (((s.setListed i true).setPrev i none).setNext i s.keepaliveHead).keepaliveHead =
    s.links.head := rfl
  rw [addToKeepaliveList, if_neg (by simp [h]), setHead_links]
  dsimp only
  rw [hhead]
  unfold Links.pushFront
  cases hl : s.links.head with
  | none =>
    have hk : s.keepaliveHead = none := hl
    rw [setNext_links, setPrev_links, setListed_links, hk]
  | some n =>
    have hk : s.keepaliveHead = some n := hl
    rw [setPrev_links, setNext_links, setPrev_links, setListed_links, hk]

/-- The flag that says whether a connection is in the list. -/
def listed (s : EventLoop) (i : Nat) : Bool := (s.conn i).inKeepaliveList

@[simp] theorem setNext_listed (s : EventLoop) (i : Nat) (n : Option Nat) :
    (s.setNext i n).listed j = s.listed j := by
  unfold listed setNext
  rw [conn_setConn]
  split
  · next hj => rw [hj]
  · rfl

@[simp] theorem setPrev_listed (s : EventLoop) (i : Nat) (p : Option Nat) :
    (s.setPrev i p).listed j = s.listed j := by
  unfold listed setPrev
  rw [conn_setConn]
  split
  · next hj => rw [hj]
  · rfl

@[simp] theorem setHead_listed (s : EventLoop) (h : Option Nat) :
    (s.setHead h).listed j = s.listed j := rfl

theorem setListed_listed (s : EventLoop) (i : Nat) (b : Bool) :
    (s.setListed i b).listed j = if j = i then b else s.listed j := by
  unfold listed setListed
  rw [conn_setConn]
  split <;> rfl

@[simp] theorem bypassNext_listed (s : EventLoop) (i : Nat) :
    (s.bypassNext i).listed j = s.listed j := by
  unfold bypassNext
  split
  · exact setNext_listed ..
  · exact setHead_listed ..

@[simp] theorem bypassPrev_listed (s : EventLoop) (i : Nat) :
    (s.bypassPrev i).listed j = s.listed j := by
  unfold bypassPrev
  split
  · exact setPrev_listed ..
  · rfl

theorem removeFromKeepaliveList_listed (s : EventLoop) (i : Nat) :
    (s.removeFromKeepaliveList i).listed j = if j = i then false else s.listed j := by
  unfold removeFromKeepaliveList
  split
  · rw [setNext_listed, setPrev_listed, bypassPrev_listed, bypassNext_listed, setListed_listed]
  · next h =>
    split
    · next hj =>
      rw [hj]
      exact Bool.eq_false_of_not_eq_true h
    · rfl

theorem addToKeepaliveList_listed (s : EventLoop) (i : Nat) :
    (s.addToKeepaliveList i).listed j = if j = i then true else s.listed j := by
  unfold addToKeepaliveList
  split
  · next h =>
    split
    · next hj =>
      rw [hj]
      exact h
    · rfl
  · rw [setHead_listed]
    split
    · rw [setPrev_listed, setNext_listed, setPrev_listed, setListed_listed]
    · rw [setNext_listed, setPrev_listed, setListed_listed]

/-- The keep-alive list is the list `l`: its links are well-formed and the flags agree. -/
structure Listed (s : EventLoop) (l : List Nat) : Prop where
  links : s.links.Represents l
  flag : ∀ i, s.listed i = true ↔ i ∈ l

theorem Listed.add {l : List Nat} (h : s.Listed l) (hi : i ∉ l) :
    (s.addToKeepaliveList i).Listed (i :: l) := by
  have hflag : (s.conn i).inKeepaliveList = false :=
    Bool.eq_false_of_not_eq_true fun hf => hi ((h.flag i).1 hf)
  constructor
  · rw [addToKeepaliveList_links hflag]
    exact h.links.pushFront hi
  · intro j
    rw [addToKeepaliveList_listed]
    split
    · next hj => simp [hj]
    · next hj => simp [hj, h.flag j]

theorem Listed.remove {l : List Nat} (h : s.Listed l) (i : Nat) :
    (s.removeFromKeepaliveList i).Listed (l.erase i) := by
  by_cases hi : i ∈ l
  · constructor
    · rw [removeFromKeepaliveList_links ((h.flag i).2 hi)]
      exact h.links.unlink_erase hi
    · intro j
      rw [removeFromKeepaliveList_listed, h.links.nodup.mem_erase_iff]
      split
      · next hj => simp [hj]
      · next hj => simp [hj, h.flag j]
  · have hflag : ¬ (s.conn i).inKeepaliveList = true := fun hf => hi ((h.flag i).1 hf)
    rw [removeFromKeepaliveList, if_neg hflag, List.erase_of_not_mem hi]
    exact h

/-- The list does not depend on anything but the connections' places and the head. -/
theorem Listed.congr {l : List Nat} (h : s.Listed l) (hl : s'.links = s.links)
    (hf : ∀ i, s'.listed i = s.listed i) : s'.Listed l :=
  ⟨hl ▸ h.links, fun i => (hf i) ▸ h.flag i⟩

theorem Listed.setConn {l : List Nat} {c : Connection} (h : s.Listed l)
    (hc : c.place = (s.conn i).place) : (s.setConn i c).Listed l := by
  apply h.congr (setConn_links hc)
  intro j
  unfold listed
  rw [conn_setConn]
  split
  · next hj =>
    simp only [Connection.place, Prod.mk.injEq] at hc
    rw [hj, hc.2.2]
  · rfl

/-- A connection outside the list may change in any way that leaves it outside. -/
theorem Listed.setConn_of_notMem {l : List Nat} {c : Connection} (h : s.Listed l) (hi : i ∉ l)
    (hc : c.inKeepaliveList = false) : (s.setConn i c).Listed l := by
  constructor
  · have hhead : (s.setConn i c).links.head = s.links.head := rfl
    refine h.links.frame hhead ?_ ?_
    · intro j hj
      have hji : j ≠ i := fun he => hi (he ▸ hj)
      simp only [EventLoop.links, conn_setConn, if_neg hji]
    · intro j hj
      have hji : j ≠ i := fun he => hi (he ▸ hj)
      simp only [EventLoop.links, conn_setConn, if_neg hji]
  · intro j
    unfold listed
    rw [conn_setConn]
    split
    · next hji => simp [hji, hc, hi]
    · exact h.flag j

end EventLoop

end FileWebServer
