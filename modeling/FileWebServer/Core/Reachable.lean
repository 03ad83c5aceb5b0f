import FileWebServer.Core.SlotSafety

namespace FileWebServer
set_option autoImplicit true

/-- A property of connections that everything the event loop does to them preserves. -/
structure ConnInvariant (K : Connection → Prop) : Prop where
  core : ∀ c : Connection, K c.core ↔ K c
  closed : ∀ c : Connection, c.state = .closed → K c
  init : ∀ (c : Connection) fd root timeout now tls,
    K { c.init fd root timeout now with tlsAvailable := tls }
  step : ∀ (c : Connection) io tls server, c.state ≠ .closed → ¬ Connection.stateFails io c →
    K c → K (c.advance io tls server).conn

theorem ConnInvariant.congr {c d : Connection} (hK : ConnInvariant K) (h : c.core = d.core)
    (hc : K c) : K d := by
  rw [← hK.core, ← h, hK.core]
  exact hc

namespace EventLoop
variable {s s' : EventLoop} {K : Connection → Prop}

/-- A state that some run of the event loop leads to. -/
def Reachable (s : EventLoop) : Prop :=
  ∃ server timeout tls inputs, s = List.foldl step (create server timeout tls) inputs

theorem ConnInvariant.destroy (hK : ConnInvariant K) (h : ∀ j, K (s.conn j)) (i j : Nat) :
    K ((s.destroyConnection i).conn j) := by
  by_cases hji : j = i
  · apply hK.closed
    rw [destroyConnection_state, if_pos hji]
  · have hcore := destroyConnection_conn s i j
    rw [if_neg hji] at hcore
    exact hK.congr hcore.symm (h j)

theorem ConnInvariant.create {fd now : Int} (hK : ConnInvariant K) (h : ∀ j, K (s.conn j))
    (hc : s.createConnection fd now = (s', some i)) (j : Nat) : K (s'.conn j) := by
  rw [createConnection_conn hc]
  split
  · exact hK.init ..
  · exact h j

theorem ConnInvariant.process (hK : ConnInvariant K) (h : ∀ j, K (s.conn j)) (io : Io)
    (i j : Nat) : K ((s.processConnection io i).conn j) := by
  have hwrite {r : Outcome} (hr : K r.conn) : ∀ j, K ((s.writeBack i r).conn j) := by
    intro j
    rw [conn_writeBack]
    split
    · exact hr
    · exact h j
  rcases processConnection_cases s io i with
    ⟨_, hp⟩ | ⟨_, _, r, hr, hp⟩ | ⟨hlive, hs, r, hr, _, hp⟩
  · rw [hp]
    exact h j
  · rw [hp]
    exact ConnInvariant.destroy hK (hwrite (hK.closed _ hr.closed)) i j
  · rw [hp, updateEvents_conn]
    have hstep := hK.step _ io s.tlsCtx s.fileServer hlive hs (h i)
    rw [← hr] at hstep
    exact hK.congr (core_conn (syncKeepaliveList_core _ i _) j).symm (hwrite hstep j)

theorem acceptLoop_keeps {Q : EventLoop → Prop} (fds : List (Nat × Int))
    (hlog : ∀ s fd, Q s → Q (s.log [.accept fd]) ∧ Q (s.log [.close fd]))
    (hcreate : ∀ s s' i fd now, Q s → s.createConnection fd now = (s', some i) → Q s')
    (h : Q s) : Q (s.acceptLoop fds) := by
  induction fds generalizing s with
  | nil => exact h
  | cons p fds ih =>
    have ha := (hlog s p.1 h).1
    unfold acceptLoop
    split
    · next hc =>
      rw [createConnection_none hc]
      exact (hlog _ _ ha).2
    · next hc => exact ih (hcreate _ _ _ _ _ ha hc)

theorem timerLoop_keeps {Q : EventLoop → Prop} (clock : Nat → Int) (fuel : Nat)
    {cursor : Option Nat} (hdestroy : ∀ s i, Q s → Q (s.destroyConnection i)) (h : Q s) :
    Q (timerLoop clock fuel s cursor) := by
  induction fuel generalizing s cursor with
  | zero => exact h
  | succ fuel ih =>
    cases cursor with
    | none => exact h
    | some i =>
      unfold timerLoop
      dsimp only
      split
      · exact ih (hdestroy s i h)
      · exact ih h

/-- What the other operations of the event loop keep, an input keeps if the call of
`process_connection` in it does, if there is one. -/
theorem step_keeps_of {Q : EventLoop → Prop} {input : Input}
    (hclear : ∀ s : EventLoop, Q s → Q { s with changelist := [] })
    (hlog : ∀ s fd, Q s → Q (s.log [.accept fd]) ∧ Q (s.log [.close fd]))
    (hcreate : ∀ s s' i fd now, Q s → s.createConnection fd now = (s', some i) → Q s')
    (hdestroy : ∀ s i, Q s → Q (s.destroyConnection i)) (h : Q s)
    (hprocess : ∀ ev io i, input = .event ev io → ¬ (ev.error ∨ ev.eof) → ev.udata = .conn i →
      Q (s.processConnection io i)) : Q (s.step input) := by
  cases input with
  | kevent => exact hclear s h
  | event ev io =>
    have hconn := hprocess ev io
    change Q (s.dispatch io ev)
    unfold dispatch
    split
    · cases ev.udata with
      | conn i => exact hdestroy s i h
      | null => exact h
      | listener => exact h
      | timer => exact h
    · next hend =>
      cases hu : ev.udata with
      | conn i => exact hconn i rfl hend hu
      | null => exact h
      | listener => exact acceptLoop_keeps _ hlog hcreate h
      | timer => exact timerLoop_keeps _ _ hdestroy h

/-- What the operations of the event loop keep, its inputs keep. -/
theorem step_keeps {Q : EventLoop → Prop}
    (hclear : ∀ s : EventLoop, Q s → Q { s with changelist := [] })
    (hlog : ∀ s fd, Q s → Q (s.log [.accept fd]) ∧ Q (s.log [.close fd]))
    (hcreate : ∀ s s' i fd now, Q s → s.createConnection fd now = (s', some i) → Q s')
    (hdestroy : ∀ s i, Q s → Q (s.destroyConnection i))
    (hprocess : ∀ s io i, Q s → Q (s.processConnection io i)) (h : Q s) (input : Input) :
    Q (s.step input) :=
  step_keeps_of hclear hlog hcreate hdestroy h fun _ io i _ _ _ => hprocess s io i h

theorem ConnInvariant.input (hK : ConnInvariant K) (h : ∀ j, K (s.conn j)) (input : Input)
    (j : Nat) : K ((s.step input).conn j) := by
  have hall : ∀ j, K ((s.step input).conn j) := by
    apply step_keeps (Q := fun s => ∀ j, K (s.conn j)) _ _ _ _ _ h
    · exact fun s h => h
    · exact fun s fd h => ⟨h, h⟩
    · exact fun s s' i fd now h hc => ConnInvariant.create hK h hc
    · exact fun s i h => ConnInvariant.destroy hK h i
    · exact fun s io i h => ConnInvariant.process hK h io i
  exact hall j

/-- Such a property holds of every connection of every reachable event loop. -/
theorem Reachable.conn (h : s.Reachable) (hK : ConnInvariant K) (i : Nat) : K (s.conn i) := by
  obtain ⟨server, timeout, tls, inputs, rfl⟩ := h
  have hrun : ∀ (inputs : List Input) (s : EventLoop), (∀ j, K (s.conn j)) →
      ∀ j, K ((inputs.foldl step s).conn j) := by
    intro inputs
    induction inputs with
    | nil => exact fun s h => h
    | cons input inputs ih => exact fun s h => ih _ (ConnInvariant.input hK h input)
  exact hrun inputs _ (fun j => hK.closed _ rfl) i

theorem reachable_run (server : FileServer) (timeout : Int) (tls : Bool) (inputs : List Input) :
    Reachable (inputs.foldl step (create server timeout tls)) :=
  ⟨server, timeout, tls, inputs, rfl⟩

end EventLoop

end FileWebServer
