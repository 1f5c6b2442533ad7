/-
The handover of a connection from the engine to the frontend that asked for it.

A request has one take-once result, and the success that the reactor stores there carries
the only handle of the connection.  The frontend takes the result or drops its future; the
reactor stores it, withdraws it, or takes it itself.  What both kinds of requests share is
here: the result, the phases of the waiting future, and the count of the handle over the
places where it can be.
-/
import RdmaIo.Lib.Run

namespace RdmaIo.Engine

/-- `TakeOnceResult`; a success carries the handle of the connection. -/
inductive ResultCell where
  | pending
  | ok
  | err
  | taken
deriving Repr, DecidableEq

namespace ResultCell

def handles : ResultCell → Nat
  | .ok => 1
  | .pending | .err | .taken => 0

/-- What is left when the success is withdrawn: nobody takes a success from it. -/
def withdraw : ResultCell → ResultCell
  | .pending | .ok => .err
  | .err => .err
  | .taken => .taken

end ResultCell

/-- The future that waits for the result, with the points inside its `poll` and its `drop`
that other threads can see. -/
inductive WaiterPhase where
  | waiting
  /-- It has taken the connection and has not said so. -/
  | took
  | finished
  /-- It is dropped and has set the cancellation flag. -/
  | flagged
  /-- It has visited the result. -/
  | cancelled
  | dropped
deriving Repr, DecidableEq

/-- How much the future still has to do, each step with what it asks of the reactor. -/
def WaiterPhase.rank : WaiterPhase → Nat
  | .flagged => 5
  | .waiting => 4
  | .took | .cancelled => 3
  | .finished | .dropped => 0

/-- `closeControl` is the queued request to close the connection, `closed` says that its
close has begun.  `shutdown` is the closed admission of the engine, `terminal` its failure,
`gone` says that its driver is dropped, and `stopped` that the drop has stopped the
connection.  The last five fields record the history of the connection. -/
structure Handover where
  cell : ResultCell
  cancelled : Bool
  delivered : Bool
  waiter : WaiterPhase
  closeControl : Bool
  closed : Bool
  shutdown : Bool
  terminal : Bool
  gone : Bool
  stopped : Bool
  established : Bool
  peerGone : Bool
  ownerClosed : Bool
  /-- Handles that a frontend has taken, and those dropped without delivery. -/
  taken : Nat
  dropped : Nat
deriving Repr, DecidableEq

namespace Handover

def init : Handover where
  cell := .pending
  cancelled := false
  delivered := false
  waiter := .waiting
  closeControl := false
  closed := false
  shutdown := false
  terminal := false
  gone := false
  stopped := false
  established := false
  peerGone := false
  ownerClosed := false
  taken := 0
  dropped := 0

/-- Drop handles; the drop of the last one requests the close of the connection, which a
closed engine does not take. -/
def dropHandles (h : Handover) (n : Nat) : Handover :=
  { h with
    dropped := h.dropped + n
    closeControl := h.closeControl || (n != 0 && !h.shutdown) }

/-- Store the connection as the result; one that comes too late is dropped. -/
def completeOk (h : Handover) : Handover :=
  match h.cell with
  | .pending => { h with cell := .ok }
  | .ok | .err | .taken => h.dropHandles 1

def completeErr (h : Handover) : Handover :=
  match h.cell with
  | .pending => { h with cell := .err }
  | .ok | .err | .taken => h

/-- Withdraw a success that was not taken, and drop it with `held` other handles. -/
def claim (h : Handover) (held : Nat) : Handover :=
  { h with cell := h.cell.withdraw }.dropHandles (h.cell.handles + held)

/-- The reactor takes the result itself. -/
def discard (h : Handover) : Handover :=
  match h.cell with
  | .pending => h
  | .ok | .err | .taken => { h with cell := .taken }.dropHandles h.cell.handles

/-- The future takes the result; `marks` says if this alone records the delivery. -/
def poll (h : Handover) (marks : Bool) : Handover :=
  match h.cell with
  | .ok =>
    { h with
      cell := .taken, waiter := .took, taken := h.taken + 1
      delivered := h.delivered || marks }
  | .err => { h with cell := .taken, waiter := .finished }
  | .pending | .taken => h

def flagDrop (h : Handover) : Handover := { h with cancelled := true, waiter := .flagged }

/-- The owner of the delivered connection closes or drops it. -/
def ownerClose (h : Handover) : Handover :=
  { h with ownerClosed := true, closeControl := h.closeControl || !h.shutdown }

def requestShutdown (h : Handover) : Handover := { h with shutdown := true }

def engineFails (h : Handover) : Handover := { h with shutdown := true, terminal := true }

/-- `synchronously_prepare_driver_drop` -/
def driverDrop (h : Handover) : Handover := { h with stopped := true }

/-- The frontend has nothing to do until the result changes. -/
def Quiet (h : Handover) : Prop :=
  h.waiter = .finished ∨ h.waiter = .dropped ∨
    h.waiter = .waiting ∧ (h.cell = .pending ∨ h.cell = .taken)

/-- What holds of a request whose engine holds `onWay` handles outside the result. -/
structure Sound (onWay : Nat) (h : Handover) : Prop where
  one : onWay + h.cell.handles + h.taken + h.dropped = 1
  takenBy : h.taken = 1 → h.waiter = .took ∨ h.waiter = .finished
  tookCell : h.waiter = .took ∨ h.waiter = .finished → h.cell = .taken
  took : h.waiter = .took → h.taken = 1
  flagged : h.waiter = .flagged ∨ h.waiter = .cancelled ∨ h.waiter = .dropped → h.cancelled = true
  delivered : h.delivered = true → h.taken = 1
  closeAsked : h.closeControl = true → h.ownerClosed = true ∨ h.dropped = 1
  closeCause : h.closed = true →
    h.peerGone = true ∨ h.ownerClosed = true ∨ h.shutdown = true ∨ h.dropped = 1
  failed : h.terminal = true → h.shutdown = true
  stopping : h.stopped = true → h.terminal = true
  gone : h.gone = true → h.stopped = true

/-- The one handle of an established connection was taken, or it was dropped and the engine
has closed the connection or stopped it. -/
def Settled (h : Handover) : Prop :=
  h.established = true → (h.taken = 1 ∧ h.dropped = 0) ∨
    (h.taken = 0 ∧ h.dropped = 1 ∧ (h.closed = true ∨ h.stopped = true))

/-- An established connection is delivered once or closed without delivery: no handle is
both taken and dropped, a delivered connection is closed only when its peer is gone, its
owner asks for it or the engine shuts down, and when the request is at rest it is settled. -/
structure Resolved (h : Handover) (rest : Prop) : Prop where
  once : h.taken + h.dropped ≤ 1
  kept : h.taken = 1 → h.closed = true ∨ h.stopped = true →
    h.peerGone = true ∨ h.ownerClosed = true ∨ h.shutdown = true
  settled : rest → h.Settled

theorem sound_init : Sound 1 init where
  one := rfl
  takenBy h := by cases h
  tookCell h := by rcases h with h | h <;> cases h
  took h := by cases h
  flagged h := by rcases h with h | h | h <;> cases h
  delivered h := by cases h
  closeAsked h := by cases h
  closeCause h := by cases h
  failed h := by cases h
  stopping h := by cases h
  gone h := by cases h

variable {h : Handover} {onWay : Nat}

/-- A poll gets the future on, or there is no result and nothing changes. -/
theorem poll_falls (hwaiter : h.waiter = .waiting) (marks : Bool) :
    ((h.poll marks).waiter.rank < h.waiter.rank ∧ (h.poll marks).closeControl = h.closeControl ∧
      (h.poll marks).closed = h.closed) ∨ h.poll marks = h ∧ h.Quiet := by
  unfold poll
  split
  case h_3 hcell => exact .inr ⟨rfl, .inr (.inr ⟨hwaiter, .inl hcell⟩)⟩
  case h_4 hcell => exact .inr ⟨rfl, .inr (.inr ⟨hwaiter, .inr hcell⟩)⟩
  all_goals
    rw [hwaiter]
    exact .inl ⟨by simp [WaiterPhase.rank], rfl, rfl⟩

theorem completeOk_kept :
    h.completeOk.waiter = h.waiter ∧ h.completeOk.closed = h.closed := by
  unfold completeOk
  split <;> exact ⟨rfl, rfl⟩

theorem completeErr_kept :
    h.completeErr.waiter = h.waiter ∧ h.completeErr.closed = h.closed := by
  unfold completeErr
  split <;> exact ⟨rfl, rfl⟩

theorem discard_kept : h.discard.waiter = h.waiter ∧ h.discard.closed = h.closed := by
  unfold discard
  split <;> exact ⟨rfl, rfl⟩

namespace Sound

theorem taken_le (s : h.Sound onWay) : h.taken + h.dropped ≤ 1 := by
  have := s.one
  omega

/-- A handle that was dropped is delivered to nobody. -/
theorem kept (s : h.Sound onWay) (htaken : h.taken = 1)
    (hover : h.closed = true ∨ h.stopped = true) :
    h.peerGone = true ∨ h.ownerClosed = true ∨ h.shutdown = true := by
  rcases hover with hclosed | hstopped
  · rcases s.closeCause hclosed with hpeer | howner | hshutdown | hdropped
    · exact .inl hpeer
    · exact .inr (.inl howner)
    · exact .inr (.inr hshutdown)
    · have := s.one
      omega
  · exact .inr (.inr (s.failed (s.stopping hstopped)))

/-- A result that is there before the success is stored has failed. -/
theorem late (s : h.Sound (onWay + 1)) (hcell : h.cell ≠ .pending) :
    h.cell = .err ∨ h.cell = .taken ∧ h.taken = 0 := by
  have hone := s.one
  cases hc : h.cell <;> simp only [hc, ResultCell.handles] at hone
  case pending => exact absurd hc hcell
  case ok => omega
  case err => exact .inl rfl
  case taken => exact .inr ⟨rfl, by omega⟩

/-- A request whose handle is neither on its way nor in the result. -/
theorem settled (s : h.Sound 0) (hcell : h.cell ≠ .ok)
    (hover : h.dropped = 1 → h.closed = true ∨ h.stopped = true) : (h.taken = 1 ∧ h.dropped = 0) ∨
      (h.taken = 0 ∧ h.dropped = 1 ∧ (h.closed = true ∨ h.stopped = true)) := by
  have hone := s.one
  have hempty : h.cell.handles = 0 := by
    cases hc : h.cell <;> first | rfl | exact absurd hc hcell
  by_cases htaken : h.taken = 1
  · exact .inl ⟨htaken, by omega⟩
  · have hdropped : h.dropped = 1 := by omega
    exact .inr ⟨by omega, hdropped, hover hdropped⟩

theorem not_taken (s : h.Sound onWay)
    (hwaiter : h.waiter ≠ .took) (hfinished : h.waiter ≠ .finished) : h.taken = 0 := by
  have := s.one
  by_contra hne
  rcases s.takenBy (by omega) with hw | hw
  · exact hwaiter hw
  · exact hfinished hw

/-- Handles in the hands of the engine are dropped. -/
theorem dropHandles {n : Nat} (s : h.Sound (onWay + n)) : (h.dropHandles n).Sound onWay :=
  { s with
    one := by
      have := s.one
      show onWay + h.cell.handles + h.taken + (h.dropped + n) = 1
      omega
    closeAsked := fun hasked => by
      have hone := s.one
      show h.ownerClosed = true ∨ h.dropped + n = 1
      simp only [Handover.dropHandles, Bool.or_eq_true, Bool.and_eq_true, bne_iff_ne,
        ne_eq] at hasked
      rcases hasked with hasked | ⟨hn, _⟩
      · rcases s.closeAsked hasked with howner | hdropped
        · exact .inl howner
        · right
          omega
      · right
        omega
    closeCause := fun hclosed => by
      have hone := s.one
      rcases s.closeCause hclosed with hpeer | howner | hshutdown | hdropped
      · exact .inl hpeer
      · exact .inr (.inl howner)
      · exact .inr (.inr (.inl hshutdown))
      · right; right; right
        show h.dropped + n = 1
        omega }

theorem completeOk (s : h.Sound (onWay + 1)) : h.completeOk.Sound onWay := by
  unfold Handover.completeOk
  split
  · next hcell =>
    have hone := s.one
    rw [hcell] at hone
    exact { s with
      one := by
        show onWay + 1 + h.taken + h.dropped = 1
        simp only [ResultCell.handles] at hone
        omega
      tookCell := fun hw => by
        have := s.tookCell hw
        rw [hcell] at this
        cases this }
  all_goals exact s.dropHandles

theorem completeErr (s : h.Sound onWay) : h.completeErr.Sound onWay := by
  unfold Handover.completeErr
  split
  · next hcell =>
    have hone := s.one
    rw [hcell] at hone
    exact { s with
      one := hone
      tookCell := fun hw => by
        have := s.tookCell hw
        rw [hcell] at this
        cases this }
  all_goals exact s

theorem claim {held : Nat} (s : h.Sound (onWay + held)) : (h.claim held).Sound onWay := by
  have hwithdrawn : { h with cell := h.cell.withdraw }.Sound (onWay + (h.cell.handles + held)) :=
    { s with
      one := by
        have := s.one
        show onWay + (h.cell.handles + held) + h.cell.withdraw.handles + h.taken + h.dropped = 1
        cases hcell : h.cell <;> rw [hcell] at this <;>
          simp only [ResultCell.handles, ResultCell.withdraw] at this ⊢ <;> omega
      tookCell := fun hw => by
        show h.cell.withdraw = .taken
        rw [s.tookCell hw]
        rfl }
  exact hwithdrawn.dropHandles

variable (s : h.Sound onWay)

include s

theorem discard : h.discard.Sound onWay := by
  have htaken : { h with cell := .taken }.Sound (onWay + h.cell.handles) :=
    { s with
      one := by
        have := s.one
        show onWay + h.cell.handles + 0 + h.taken + h.dropped = 1
        omega
      tookCell := fun _ => rfl }
  unfold Handover.discard
  split
  · exact s
  all_goals exact htaken.dropHandles

theorem poll (hwaiter : h.waiter = .waiting) (marks : Bool) : (h.poll marks).Sound onWay := by
  have hnone := s.not_taken (by rw [hwaiter]; decide) (by rw [hwaiter]; decide)
  unfold Handover.poll
  split
  · next hcell =>
    have hone := s.one
    rw [hcell, hnone] at hone
    exact { s with
      one := by
        show onWay + 0 + (h.taken + 1) + h.dropped = 1
        simp only [ResultCell.handles] at hone
        omega
      takenBy := fun _ => .inl rfl
      tookCell := fun _ => rfl
      took := fun _ => by
        show h.taken + 1 = 1
        omega
      flagged := fun hw => by rcases hw with hw | hw | hw <;> cases hw
      delivered := fun _ => by
        show h.taken + 1 = 1
        omega }
  · next hcell =>
    have hone := s.one
    rw [hcell] at hone
    exact { s with
      one := hone
      takenBy := fun _ => .inr rfl
      tookCell := fun _ => rfl
      took := nofun
      flagged := fun hw => by rcases hw with hw | hw | hw <;> cases hw }
  all_goals exact s

/-- The future moves on inside its `drop`. -/
theorem dropping {cancelled : Bool} {waiter : WaiterPhase} (hflag : cancelled = true)
    (hbefore : h.waiter ≠ .took ∧ h.waiter ≠ .finished)
    (hafter : waiter ≠ .took ∧ waiter ≠ .finished) : { h with cancelled, waiter }.Sound onWay :=
  { s with
    takenBy := fun htaken => by
      have := s.not_taken hbefore.1 hbefore.2
      rw [this] at htaken
      cases htaken
    tookCell := fun hw => by
      rcases hw with hw | hw
      · exact absurd hw hafter.1
      · exact absurd hw hafter.2
    took := fun hw => absurd hw hafter.1
    flagged := fun _ => hflag }

/-- The future that took the connection says so. -/
theorem marks (hwaiter : h.waiter = .took) (delivered : Bool) :
    { h with waiter := .finished, delivered }.Sound onWay :=
  { s with
    takenBy := fun _ => .inr rfl
    tookCell := fun _ => s.tookCell (.inl hwaiter)
    took := nofun
    flagged := fun hw => by rcases hw with hw | hw | hw <;> cases hw
    delivered := fun _ => s.took hwaiter }

theorem ownerClose : h.ownerClose.Sound onWay :=
  { s with
    closeAsked := fun _ => .inl rfl
    closeCause := fun _ => .inr (.inl rfl) }

theorem shuts {terminal : Bool} (hterminal : h.terminal = true → terminal = true) :
    { h with shutdown := true, terminal }.Sound onWay :=
  { s with
    closeCause := fun _ => .inr (.inr (.inl rfl))
    failed := fun _ => rfl
    stopping := fun hstopped => hterminal (s.stopping hstopped) }

theorem driverDrop (hterminal : h.terminal = true) :
    { h.driverDrop with gone := true }.Sound onWay :=
  { s with
    stopping := fun _ => hterminal
    gone := fun _ => rfl }

/-- The queued request to close is executed. -/
theorem popsClose : { h with closeControl := false }.Sound onWay :=
  { s with closeAsked := nofun }

end Sound

end Handover

end RdmaIo.Engine
