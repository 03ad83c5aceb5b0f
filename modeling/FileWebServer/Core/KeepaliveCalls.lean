import FileWebServer.Core.SlotSafety

namespace FileWebServer
namespace EventLoop
set_option autoImplicit true
set_option maxRecDepth 20000
variable {s s' : EventLoop}

/-- The calls that keep the keep-alive list. -/
inductive Call where
  | create (fd now : Int)
  | process (io : Io) (i : Nat)
  | timer (io : Io)
  | destroy (i : Nat)

def call (s : EventLoop) : Call → EventLoop
  | .create fd now => (s.createConnection fd now).1
  | .process io i => s.processConnection io i
  | .timer io => s.handleTimer io
  | .destroy i => s.destroyConnection i

/-- A call is applied to a connection that is acquired. -/
def OnAcquired (s : EventLoop) : Call → Prop
  | .process _ i | .destroy i => s.pool.InUse i
  | _ => True

/-- The keep-alive list is well formed and exact: the connections that it visits are the acquired
ones that wait for a request. -/
structure KeepaliveExact (s : EventLoop) (visited : List Nat) : Prop where
  ends : s.links.Visits s.keepaliveHead visited
  nodup : visited.Nodup
  head : ∀ i, s.keepaliveHead = some i → (s.conn i).keepalivePrev = none
  inverse : ∀ i ∈ visited, ∀ j ∈ visited,
    (s.conn i).keepaliveNext = some j ↔ (s.conn j).keepalivePrev = some i
  closed : ∀ i ∈ visited, ∀ j, (s.conn i).keepaliveNext = some j ∨
    (s.conn i).keepalivePrev = some j → j ∈ visited
  flag : ∀ i, (s.conn i).inKeepaliveList = true ↔ i ∈ visited
  waits : ∀ i, i ∈ visited ↔ s.pool.InUse i ∧ (s.conn i).state = .keepAlive

theorem Good.exact {l : List Nat} (h : Good s l) : KeepaliveExact s l := by
  have hl := h.list.links
  constructor
  · exact hl.seg.visits
  · exact hl.nodup
  · intro i hi
    cases l with
    | nil =>
      have hnone : s.keepaliveHead = none := hl.head_eq
      rw [hnone] at hi
      cases hi
    | cons x xs =>
      obtain ⟨hx, hprev, _⟩ := hl.seg
      have hxi : some x = some i := hx.symm.trans hi
      cases hxi
      exact hprev
  · intro i hi j hj
    constructor
    · intro hn
      exact (hl.prev_next hi hn).2
    · intro hp
      exact (hl.next_prev hj hp).2
  · intro i hi j hj
    rcases hj with hn | hp
    · exact (hl.prev_next hi hn).1
    · exact (hl.next_prev hi hp).1
  · exact h.list.flag
  · intro i
    rw [h.waits i]
    constructor
    · intro hs
      have hlive : (s.conn i).state ≠ .closed := by
        rw [hs]
        exact State.noConfusion
      exact ⟨h.slots.live i hlive, hs⟩
    · exact fun hs => hs.2

theorem call_good {l : List Nat} {c : Call} (h : Good s l) (hc : s.OnAcquired c) :
    ∃ l', Good (s.call c) l' := by
  cases c with
  | create fd now =>
    cases hs : s.createConnection fd now with
    | mk s' i =>
      have hcall : s.call (.create fd now) = s' := congrArg Prod.fst hs
      rw [hcall]
      cases i with
      | none =>
        rw [createConnection_none hs]
        exact ⟨l, h⟩
      | some i => exact ⟨l, h.create hs⟩
  | process io i => exact processConnection_good io i h
  | timer io => exact handleTimer_good io h
  | destroy i => exact ⟨_, h.destroy hc⟩

/-- In every run of calls on acquired connections, the keep-alive list is well formed and exact
between any two of them. -/
theorem keepalive_exact (server : FileServer) (timeout : Int) (tls : Bool) (calls : List Call)
    (h : Run.Along call OnAcquired (create server timeout tls) calls) :
    Run.Throughout call (fun s => ∃ visited, KeepaliveExact s visited)
      (create server timeout tls) calls := by
  have hgood : Run.Throughout call (fun s => ∃ l, Good s l) (create server timeout tls) calls := by
    apply Run.throughout_of_along _ ⟨[], create_good server timeout tls⟩ h
    rintro s c ⟨l, hg⟩ hc
    exact call_good hg hc
  apply hgood.mono
  rintro s ⟨l, hg⟩
  exact ⟨l, hg.exact⟩

/-- A call is applied to a connection that is open. -/
def OnOpen (s : EventLoop) : Call → Prop
  | .process _ i | .destroy i => (s.conn i).state ≠ .closed
  | _ => True

instance decidableOnOpen (s : EventLoop) : (c : Call) → Decidable (s.OnOpen c)
  | .create _ _ => .isTrue trivial
  | .process _ i => inferInstanceAs (Decidable ((s.conn i).state ≠ .closed))
  | .timer _ => .isTrue trivial
  | .destroy i => inferInstanceAs (Decidable ((s.conn i).state ≠ .closed))

/-- Open connections are acquired. -/
theorem onAcquired_of_onOpen {l : List Nat} (calls : List Call) (hg : Good s l)
    (h : Run.Along call OnOpen s calls) : Run.Along call OnAcquired s calls := by
  have hstep : ∀ (s : EventLoop) (c : Call), (∃ l, Good s l) → s.OnOpen c →
      (∃ l, Good (s.call c) l) ∧ s.OnAcquired c := by
    rintro s c ⟨l, hg⟩ hc
    have hon : s.OnAcquired c := by
      cases c with
      | create => trivial
      | process io i => exact hg.slots.live i hc
      | timer => trivial
      | destroy i => exact hg.slots.live i hc
    exact ⟨call_good hg hon, hon⟩
  exact Run.along_of_along hstep ⟨l, hg⟩ h

/-- Two clients that wait for a request, the first of which then expires. -/
def twoWaiting : List Call :=
  [.create 5 0, .create 6 0, .process { peek := .done (some 0x16) } 0,
    .process { peek := .done (some 0x16) } 1,
    .process { headerWrite := .done 4096, bodyWrite := .done 4096 } 0,
    .process { headerWrite := .done 4096, bodyWrite := .done 4096 } 1,
    .timer { clock := fun i => if i = 0 then 76000000000 else 0 }, .destroy 1]

theorem keepalive_exact_twoWaiting :
    Run.Throughout call (fun s => ∃ visited, KeepaliveExact s visited)
      (create ⟨bytes "/srv"⟩ 75 false) twoWaiting :=
  keepalive_exact _ _ _ _ (onAcquired_of_onOpen _ (create_good _ _ _)
    ⟨trivial, trivial, by decide, by decide, by decide,
      by decide, trivial, by decide, trivial⟩)

end EventLoop

end FileWebServer
