/-
The delivery of an outbound connection.

A connect differs from an accept in three ways.  The future that is dropped withdraws the
result itself and then asks the reactor to cancel, through a queue that takes each request
once.  The delivery is recorded after the result was taken and not with it.  And the route
of a connection that lost its peer keeps waiting for the delivery.
-/
import RdmaIo.Engine.AcceptDelivery

namespace RdmaIo.Engine

open AcceptDelivery
open Handover
open Machine

/-- `retired` also stands for a quarantined route, which has given its request up too. -/
inductive ConnectRoute where
  | awaitEstablished
  | establishedAwaitingDelivery
  | disconnectedAwaitingDelivery
  | disconnected
  | failedAwaitingDelivery
  | failed
  | closing
  | retired
deriving Repr, DecidableEq

/-- What the reactor still has to do with the result of a connect. -/
inductive ConnectHand where
  | idle
  /-- The route awaits delivery and the result is not stored yet. -/
  | completing
  /-- `fail_registered_connection` has closed the connection. -/
  | failing
  /-- `process_cancellation` has closed the connection. -/
  | discarding
  /-- `cancel_into` has set the flag; the shutdown of the routes enqueues a cancellation. -/
  | cancelling (enqueue : Bool)
deriving Repr, DecidableEq

/-- `connectCancel` is the control of the dropped future, `cancellation` the entry in the
queue of the reactor and `cancellationEnqueued` the flag that keeps it unique. -/
structure ConnectDelivery extends Handover where
  route : ConnectRoute
  hand : ConnectHand
  connectCancel : Bool
  cancellation : Bool
  cancellationEnqueued : Bool
deriving Repr, DecidableEq

inductive ConnectDeliveryLabel where
  | poll
  | markDelivered
  | dropFlag
  | dropCancel
  | dropNotify
  | ownerClose
  | establishedEvent
  | disconnectedEvent
  | failureEvent
  | closeConnection
  | shutdownConnection
  | takeConnectCancel
  | processCancellation
  | shutdownRoute
  | terminalize
  | retire
  | requestShutdown
  | engineFails
  | driverDrop
  | resume
deriving Repr, DecidableEq

/-- The steps that the frontend and the reactor take on their own. -/
def ConnectDeliveryLabel.due : List ConnectDeliveryLabel :=
  [.poll, .markDelivered, .dropCancel, .dropNotify, .closeConnection, .shutdownConnection,
    .takeConnectCancel, .processCancellation, .resume]

namespace ConnectRoute

/-- Handles of the connection that the route owns. -/
def handles : ConnectRoute → Nat
  | .awaitEstablished => 1
  | .establishedAwaitingDelivery | .disconnectedAwaitingDelivery | .disconnected
  | .failedAwaitingDelivery | .failed | .closing | .retired => 0

def awaitsDelivery : ConnectRoute → Bool
  | .establishedAwaitingDelivery | .disconnectedAwaitingDelivery
  | .failedAwaitingDelivery => true
  | .awaitEstablished | .disconnected | .failed | .closing | .retired => false

/-- `OutboundRoute::request` -/
def holdsRequest (route : ConnectRoute) : Bool :=
  route == .awaitEstablished || route.awaitsDelivery

end ConnectRoute

def ConnectHand.handles : ConnectHand → Nat
  | .completing => 1
  | .idle | .failing | .discarding | .cancelling _ => 0

/-- What the reactor still has to do, with what that may ask of it. -/
def ConnectHand.rank : ConnectHand → Nat
  | .idle => 0
  | .completing | .failing | .discarding => 2
  | .cancelling _ => 3

namespace ConnectDelivery

/-- The connection is installed and its route awaits the peer. -/
def init : ConnectDelivery where
  toHandover := Handover.init
  route := .awaitEstablished
  hand := .idle
  connectCancel := false
  cancellation := false
  cancellationEnqueued := false

variable (d : ConnectDelivery)

/-- Whether somebody still owns the request: the route, the reactor, or its queue. -/
def requestAlive : Bool :=
  d.route.holdsRequest || d.hand != .idle || d.cancellation

/-- `fail_registered_connection` up to the completion of the request. -/
def failRegistered : ConnectDelivery :=
  { d with
    toHandover := { d.toHandover.dropHandles 1 with closed := true }
    route := .closing, hand := .failing }

/-- `enqueue_cancellation` -/
def enqueueCancellation : ConnectDelivery :=
  if d.cancellationEnqueued then d
  else { d with cancellation := true, cancellationEnqueued := true }

/-- The connection of a route that has lost its peer is closed; the route goes on to wait
for the delivery if the future has not recorded it. -/
def losePeer (awaiting ended : ConnectRoute) : ConnectDelivery :=
  { d with
    route := if d.delivered then ended else awaiting
    closed := true, peerGone := true }

def resume : Option ConnectDelivery :=
  match d.hand with
  | .idle => none
  | .completing => some { d with toHandover := d.toHandover.completeOk, hand := .idle }
  | .failing => some { d with toHandover := d.toHandover.completeErr, hand := .idle }
  | .discarding => some { d with toHandover := d.toHandover.discard, hand := .idle }
  | .cancelling enqueue =>
    let d := { d with toHandover := d.toHandover.claim 0, hand := .idle }
    some (if enqueue then d.enqueueCancellation else d)

def step : ConnectDeliveryLabel → Option ConnectDelivery
  | .poll =>
    if d.waiter = .waiting then some { d with toHandover := d.toHandover.poll false }
    else none
  | .markDelivered =>
    if d.waiter = .took then some { d with waiter := .finished, delivered := true }
    else none
  | .dropFlag =>
    if d.waiter = .waiting then some { d with toHandover := d.toHandover.flagDrop }
    else none
  | .dropCancel =>
    if d.waiter = .flagged then
      some { d with toHandover := { d.toHandover.claim 0 with waiter := .cancelled } }
    else none
  | .dropNotify =>
    if d.waiter = .cancelled then
      some { d with waiter := .dropped, connectCancel := d.requestAlive }
    else none
  | .ownerClose =>
    if d.taken = 1 then some { d with toHandover := d.toHandover.ownerClose } else none
  | .establishedEvent =>
    if d.hand = .idle ∧ d.route = .awaitEstablished then
      let d := { d with established := true }
      if d.cancelled || d.shutdown then some d.failRegistered
      else some { d with route := .establishedAwaitingDelivery, hand := .completing }
    else none
  | .disconnectedEvent =>
    if d.hand = .idle then
      match d.route with
      | .awaitEstablished => some { d with peerGone := true }.failRegistered
      | .establishedAwaitingDelivery =>
        some (d.losePeer .disconnectedAwaitingDelivery .disconnected)
      -- rejected as a duplicate
      | .disconnectedAwaitingDelivery | .disconnected | .failedAwaitingDelivery | .failed
      | .closing | .retired => some d
    else none
  | .failureEvent =>
    if d.hand = .idle then
      match d.route with
      | .awaitEstablished => some { d with peerGone := true }.failRegistered
      | .establishedAwaitingDelivery | .disconnectedAwaitingDelivery =>
        some (d.losePeer .failedAwaitingDelivery .failed)
      | .disconnected => some (d.losePeer .failed .failed)
      | .failedAwaitingDelivery | .failed | .closing | .retired => some d
    else none
  | .closeConnection =>
    -- the close of an outbound connection leaves its route as it is
    if d.hand = .idle ∧ d.gone = false ∧ d.closeControl = true then
      some { d with closeControl := false, closed := true }
    else none
  | .shutdownConnection =>
    if d.hand = .idle ∧ d.gone = false ∧ d.shutdown = true then some { d with closed := true }
    else none
  | .takeConnectCancel =>
    if d.hand = .idle ∧ d.gone = false ∧ d.connectCancel = true then
      some { d with connectCancel := false }.enqueueCancellation
    else none
  | .processCancellation =>
    if d.hand = .idle ∧ d.gone = false ∧ d.cancellation = true then
      let d := { d with cancellation := false }
      if d.route.awaitsDelivery then
        some { d with route := .closing, closed := true, hand := .discarding }
      else some d
    else none
  | .shutdownRoute =>
    if d.hand = .idle ∧ d.shutdown = true ∧ d.route.holdsRequest = true then
      some { d with cancelled := true, hand := .cancelling true }
    else none
  | .terminalize =>
    if d.hand = .idle ∧ d.terminal = true ∧ d.route.holdsRequest = true then
      some { d with cancelled := true, hand := .cancelling false }
    else none
  | .retire =>
    -- a route that was not established fails the engine
    if d.hand = .idle ∧ d.closed = true ∧ d.route ≠ .awaitEstablished then
      some { d with route := .retired }
    else none
  | .requestShutdown => some { d with toHandover := d.toHandover.requestShutdown }
  | .engineFails => some { d with toHandover := d.toHandover.engineFails }
  | .driverDrop =>
    if d.hand = .idle ∧ d.terminal = true then
      some { d with toHandover := { d.toHandover.driverDrop with gone := true } }
    else none
  | .resume => d.resume

/-- The engine and the frontend have nothing left to do about the request. -/
abbrev AtRest : Prop := Machine.AtRest step ConnectDeliveryLabel.due d

/-- What the frontend and the engine still have to do. -/
def rank : Nat :=
  d.waiter.rank + 2 * d.route.awaitsDelivery.toNat + d.hand.rank + 2 * d.connectCancel.toNat +
    d.cancellation.toNat + d.closeControl.toNat + (!d.closed).toNat

/-- The connection is closed, or something that closes it is on its way. -/
def Doomed : Prop :=
  d.closed = true ∨ d.shutdown = true ∨ d.waiter = .cancelled ∨ d.connectCancel = true ∨
    d.cancellation = true ∨ (d.route = .awaitEstablished ∧ d.cancelled = true)

/-- What the state of the route says about its connection. -/
def RouteFits : Prop :=
  match d.route with
  | .awaitEstablished => d.established = false
  | .establishedAwaitingDelivery => True
  | .disconnectedAwaitingDelivery | .disconnected | .failedAwaitingDelivery | .failed | .closing
  | .retired => d.closed = true

/-- What the reactor has in hand belongs to the connection. -/
def HandFits : ConnectHand → Prop
  | .idle => True
  | .completing => d.route = .establishedAwaitingDelivery
  | .failing | .discarding => d.closed = true
  | .cancelling _ => d.shutdown = true ∧ d.cancelled = true

/-- The invariant of a connect and its route. -/
structure Tracked (d : ConnectDelivery) : Prop where
  sound : d.toHandover.Sound (d.route.handles + d.hand.handles)
  routeFits : d.RouteFits
  handFits : d.HandFits d.hand
  asked : d.connectCancel = true ∨ d.cancellation = true →
    d.cancelled = true ∧ (d.waiter = .dropped ∨ d.shutdown = true)
  /-- A request that was enqueued once is not enqueued again, and need not be. -/
  enqueued : d.cancellationEnqueued = true →
    d.closed = true ∨ d.shutdown = true ∨ d.cancellation = true ∨
      (d.route = .awaitEstablished ∧ d.cancelled = true)
  withdrawn : d.waiter = .cancelled ∨ d.waiter = .dropped → d.cell = .err ∨ d.cell = .taken
  failed : d.cell = .err ∨ (d.cell = .taken ∧ d.taken = 0) ∨ d.dropped = 1 → d.Doomed

theorem tracked_init : init.Tracked where
  sound := Handover.sound_init
  routeFits := rfl
  handFits := trivial
  asked h := by rcases h with h | h <;> cases h
  enqueued h := by cases h
  withdrawn h := by rcases h with h | h <;> cases h
  failed h := by rcases h with h | ⟨h, _⟩ | h <;> cases h

namespace Tracked

variable {d : ConnectDelivery}

theorem closed_of_route (h : d.Tracked) (hawait : d.route ≠ .awaitEstablished)
    (hdelivery : d.route ≠ .establishedAwaitingDelivery) : d.closed = true := by
  have hfits := h.routeFits
  unfold RouteFits at hfits
  split at hfits
  · exact absurd ‹_› hawait
  · exact absurd ‹_› hdelivery
  all_goals exact hfits

theorem route_ne (h : d.Tracked) (hestablished : d.established = true) :
    d.route ≠ .awaitEstablished := fun hroute => by
  have hfits := h.routeFits
  unfold RouteFits at hfits
  rw [hroute, hestablished] at hfits
  cases hfits

theorem cancelling (h : d.Tracked) {enqueue : Bool} (hhand : d.hand = .cancelling enqueue) :
    d.shutdown = true ∧ d.cancelled = true := by
  have hfits := h.handFits
  rwa [hhand] at hfits

/-- The handles outside the result, counted in the state at hand. -/
theorem sound_at (h : d.Tracked) {n : Nat} (hn : d.route.handles + d.hand.handles = n) :
    d.toHandover.Sound n := hn ▸ h.sound

/-- A dropped future has taken nothing. -/
theorem not_taken_of_dropped (h : d.Tracked) (hwaiter : d.waiter = .dropped) : d.taken = 0 :=
  h.sound.not_taken (by rw [hwaiter]; decide) (by rw [hwaiter]; decide)

/-- Before its future is dropped, only a shutdown cancels a connect. -/
theorem asked_shutdown (h : d.Tracked) (hwaiter : d.waiter ≠ .dropped)
    (hcontrol : d.connectCancel = true ∨ d.cancellation = true) :
    d.cancelled = true ∧ d.shutdown = true := by
  obtain ⟨hcancelled, hdropped | hshutdown⟩ := h.asked hcontrol
  · exact absurd hdropped hwaiter
  · exact ⟨hcancelled, hshutdown⟩

/-- Before the future withdraws the result, its phase is not what dooms the connection. -/
theorem doomed_otherwise (h : d.Tracked) (hwaiter : d.waiter ≠ .cancelled) {p q : Prop}
    (hq : d.cancelled = true → q)
    (hc : d.cell = .err ∨ (d.cell = .taken ∧ d.taken = 0) ∨ d.dropped = 1) :
    d.closed = true ∨ d.shutdown = true ∨ p ∨ d.connectCancel = true ∨
      d.cancellation = true ∨ (d.route = .awaitEstablished ∧ q) := by
  have hdoomed := h.failed hc
  simp only [Doomed, hwaiter, false_or] at hdoomed
  exact hdoomed.imp id (Or.imp id fun hd => .inr (hd.imp id (Or.imp id (And.imp id hq))))

theorem poll (h : d.Tracked) (hwaiter : d.waiter = .waiting) :
    { d with toHandover := d.toHandover.poll false }.Tracked := by
  have hsound := h.sound.poll hwaiter false
  have hasked := h.asked_shutdown (by rw [hwaiter]; decide)
  have hkept : d.waiter ≠ .cancelled := by
    rw [hwaiter]
    decide
  unfold Handover.poll at hsound ⊢
  split
  · next hcell =>
    rw [hcell] at hsound
    exact { h with
      sound := hsound
      asked := fun hcontrol => (hasked hcontrol).imp id .inr
      withdrawn := nofun
      failed := fun hc => by
        rcases hc with hc | ⟨_, hc⟩ | hc
        · cases hc
        · cases hc
        · exact h.doomed_otherwise hkept id (.inr (.inr hc)) }
  · next hcell =>
    rw [hcell] at hsound
    exact { h with
      sound := hsound
      asked := fun hcontrol => (hasked hcontrol).imp id .inr
      withdrawn := nofun
      failed := fun _ => h.doomed_otherwise hkept id (.inl hcell) }
  all_goals exact h

theorem markDelivered (h : d.Tracked) (hwaiter : d.waiter = .took) :
    { d with waiter := .finished, delivered := true }.Tracked :=
  { h with
    sound := h.sound.marks hwaiter true
    asked := fun hcontrol =>
      (h.asked_shutdown (by rw [hwaiter]; decide) hcontrol).imp id .inr
    withdrawn := nofun
    failed := h.doomed_otherwise (by rw [hwaiter]; decide) id }

theorem dropFlag (h : d.Tracked) (hwaiter : d.waiter = .waiting) :
    { d with toHandover := d.toHandover.flagDrop }.Tracked :=
  { h with
    sound := h.sound.dropping rfl (by rw [hwaiter]; decide) (by decide)
    handFits := by
      have hfits := h.handFits
      cases hhand : d.hand <;> rw [hhand] at hfits <;> first | exact hfits | exact ⟨hfits.1, rfl⟩
    asked := fun hcontrol =>
      ⟨rfl, .inr (h.asked_shutdown (by rw [hwaiter]; decide) hcontrol).2⟩
    enqueued := fun henqueued =>
      (h.enqueued henqueued).imp id (Or.imp id (Or.imp id fun hd => ⟨hd.1, rfl⟩))
    withdrawn := nofun
    failed := h.doomed_otherwise (by rw [hwaiter]; decide) fun _ => rfl }

theorem withdraw_cell (cell : ResultCell) : cell.withdraw = .err ∨ cell.withdraw = .taken := by
  cases cell <;> decide

theorem claim_sound (h : d.Tracked) :
    (d.toHandover.claim 0).Sound (d.route.handles + d.hand.handles) :=
  (h.sound_at (Nat.add_zero _).symm).claim

theorem dropCancel (h : d.Tracked) (hwaiter : d.waiter = .flagged) :
    { d with toHandover := { d.toHandover.claim 0 with waiter := .cancelled } }.Tracked := by
  have hclaim := h.claim_sound
  have hflag : (d.toHandover.claim 0).waiter = .flagged := hwaiter
  exact { h with
    sound := hclaim.dropping (hclaim.flagged (.inl hflag)) (by rw [hflag]; decide) (by decide)
    asked := fun hcontrol =>
      (h.asked_shutdown (by rw [hwaiter]; decide) hcontrol).imp id .inr
    withdrawn := fun _ => withdraw_cell d.cell
    failed := fun _ => .inr (.inr (.inl rfl)) }

theorem dropNotify (h : d.Tracked) (hwaiter : d.waiter = .cancelled) :
    { d with waiter := .dropped, connectCancel := d.requestAlive }.Tracked := by
  have hcancelled := h.sound.flagged (.inr (.inl hwaiter))
  have hdoomed : d.closed = true ∨ d.requestAlive = true := by
    cases halive : d.requestAlive with
    | true => exact .inr rfl
    | false =>
      -- the route has given the request up, which it does only to close
      left
      simp only [requestAlive, ConnectRoute.holdsRequest, Bool.or_eq_false_iff] at halive
      apply h.closed_of_route
      · intro hr
        rw [hr] at halive
        simp at halive
      · intro hr
        rw [hr] at halive
        simp [ConnectRoute.awaitsDelivery] at halive
  exact { h with
    sound := h.sound.dropping hcancelled (by rw [hwaiter]; decide) (by decide)
    asked := fun _ => ⟨hcancelled, .inl rfl⟩
    withdrawn := fun _ => h.withdrawn (.inl hwaiter)
    failed := fun _ => hdoomed.imp id fun halive => .inr (.inr (.inl halive)) }

theorem ownerClose (h : d.Tracked) : { d with toHandover := d.toHandover.ownerClose }.Tracked :=
  { h with sound := h.sound.ownerClose }

section

variable (h : d.Tracked) (hhand : d.hand = .idle)

include h hhand

/-- The connection of a route that awaits the peer is given up. -/
theorem failRegistered (hroute : d.route = .awaitEstablished) {established peerGone : Bool} :
    { d with established, peerGone }.failRegistered.Tracked := by
  have hbefore : { d.toHandover with established, peerGone := d.peerGone }.Sound (0 + 1) :=
    { h.sound_at (by rw [hroute, hhand]; rfl) with }
  have hdropped := hbefore.dropHandles
  have hone := hdropped.one
  have hgone : d.dropped + 1 = 1 := by
    have hone : 0 + d.cell.handles + d.taken + (d.dropped + 1) = 1 := hone
    omega
  exact { h with
    sound := { hdropped with closeCause := fun _ => .inr (.inr (.inr hgone)) }
    routeFits := rfl
    handFits := rfl
    enqueued := fun _ => .inl rfl
    failed := fun _ => .inl rfl }

theorem establish (hroute : d.route = .awaitEstablished) (hcancelled : d.cancelled = false) :
    { d with
      established := true, route := .establishedAwaitingDelivery
      hand := .completing }.Tracked := by
  -- the event that establishes the connection has seen that the flag is not set
  exact { h with
    sound := { h.sound_at (by rw [hroute, hhand]; rfl) with }
    routeFits := trivial
    handFits := rfl
    enqueued := fun henqueued => by simpa [hcancelled] using h.enqueued henqueued
    failed := fun hc => by simpa [Doomed, hcancelled] using h.failed hc }

/-- The connection is closed for one of its reasons; a route that moves on has waited for
the delivery or is over. -/
theorem closes {route : ConnectRoute} {peerGone closeControl : Bool}
    (hroute : route = d.route ∨ d.route.handles = 0 ∧ route.handles = 0)
    (hcontrol : closeControl = true → d.closeControl = true)
    (hcause : peerGone = true ∨ d.ownerClosed = true ∨ d.shutdown = true ∨ d.dropped = 1) :
    { d with route, closed := true, peerGone, closeControl }.Tracked :=
  { h with
    sound := by
      have hhandles : d.route.handles = route.handles := by
        rcases hroute with rfl | ⟨hbefore, hafter⟩
        · rfl
        · rw [hbefore, hafter]
      exact { h.sound_at (by rw [hhandles]) with
        closeAsked := fun hasked => h.sound.closeAsked (hcontrol hasked)
        closeCause := fun _ => hcause }
    routeFits := by
      unfold RouteFits
      split <;> try first | trivial | rfl
      next hawait =>
        have hawait : route = .awaitEstablished := hawait
        have hfits := h.routeFits
        unfold RouteFits at hfits
        rcases hroute with rfl | ⟨_, hafter⟩
        · rwa [hawait] at hfits
        · rw [hawait] at hafter
          cases hafter
    handFits := by
      rw [hhand]
      trivial
    enqueued := fun _ => .inl rfl
    failed := fun _ => .inl rfl }

theorem losePeer (hroute : d.route.handles = 0) {awaiting ended : ConnectRoute}
    (hawaiting : awaiting.handles = 0) (hended : ended.handles = 0) :
    (d.losePeer awaiting ended).Tracked := by
  apply h.closes hhand (.inr ⟨hroute, _⟩) id (.inl rfl)
  split
  · exact hended
  · exact hawaiting

end

variable {after : ConnectDelivery}

section

variable (h : d.Tracked)

include h

theorem establishedEvent (hstep : d.step .establishedEvent = some after) : after.Tracked := by
  obtain ⟨hguard, hstep⟩ := Option.ite_none_right_eq_some.mp hstep
  split at hstep
  · cases hstep
    exact h.failRegistered hguard.1 hguard.2
  · next hopen =>
    cases hstep
    apply h.establish hguard.1 hguard.2
    simp only [Bool.or_eq_true, not_or, Bool.not_eq_true] at hopen
    exact hopen.1

theorem disconnectedEvent (hstep : d.step .disconnectedEvent = some after) : after.Tracked := by
  obtain ⟨hhand, hstep⟩ := Option.ite_none_right_eq_some.mp hstep
  split at hstep
  · next hroute =>
    cases hstep
    exact h.failRegistered hhand hroute
  · next hroute =>
    cases hstep
    exact h.losePeer hhand (by rw [hroute]; rfl) rfl rfl
  all_goals
    cases hstep
    exact h

theorem failureEvent (hstep : d.step .failureEvent = some after) : after.Tracked := by
  obtain ⟨hhand, hstep⟩ := Option.ite_none_right_eq_some.mp hstep
  split at hstep
  · next hroute =>
    cases hstep
    exact h.failRegistered hhand hroute
  iterate 3
    · next hroute =>
      cases hstep
      exact h.losePeer hhand (by rw [hroute]; rfl) rfl rfl
  all_goals
    cases hstep
    exact h

/-- A cancellation is enqueued for a request whose flag is set, unless it was before. -/
theorem enqueueCancellation (hcancelled : d.cancelled = true)
    (hdropped : d.waiter = .dropped ∨ d.shutdown = true) : d.enqueueCancellation.Tracked := by
  unfold ConnectDelivery.enqueueCancellation
  split
  · exact h
  · exact { h with
      asked := fun _ => ⟨hcancelled, hdropped⟩
      enqueued := fun _ => .inr (.inr (.inl rfl))
      failed := fun _ => .inr (.inr (.inr (.inr (.inl rfl)))) }

/-- The control of the dropped future reaches the queue, or was there before it. -/
theorem takeConnectCancel (hasked : d.connectCancel = true) :
    { d with connectCancel := false }.enqueueCancellation.Tracked := by
  obtain ⟨hcancelled, hdropped⟩ := h.asked (.inl hasked)
  unfold ConnectDelivery.enqueueCancellation
  split
  · next henqueued =>
    have hover := h.enqueued henqueued
    exact { h with
      asked := fun hcontrol => h.asked (.inr (hcontrol.resolve_left nofun))
      failed := fun _ => hover.imp id (Or.imp id fun hd => .inr (.inr hd)) }
  · exact { h with
      asked := fun _ => ⟨hcancelled, hdropped⟩
      enqueued := fun _ => .inr (.inr (.inl rfl))
      failed := fun _ => .inr (.inr (.inr (.inr (.inl rfl)))) }

/-- The cancellation finds a connection that awaits its delivery, and closes it. -/
theorem discards (hhand : d.hand = .idle) (hasked : d.cancellation = true)
    (hroute : d.route.awaitsDelivery = true) :
    { d with
      cancellation := false, route := .closing, closed := true
      hand := .discarding }.Tracked := by
  have hhandles : d.route.handles = 0 := by
    cases hr : d.route <;> first | rfl | (rw [hr] at hroute; cases hroute)
  have hsound : d.toHandover.Sound 0 := h.sound_at (by rw [hhandles, hhand]; rfl)
  have hcause : d.peerGone = true ∨ d.ownerClosed = true ∨ d.shutdown = true ∨ d.dropped = 1 := by
    right; right
    rcases (h.asked (.inr hasked)).2 with hwaiter | hshutdown
    · -- the dropped future has withdrawn the success that the route waits for
      right
      have htaken := h.not_taken_of_dropped hwaiter
      have hone := hsound.one
      rcases h.withdrawn (.inr hwaiter) with hcell | hcell <;>
        rw [hcell] at hone <;> simp only [ResultCell.handles] at hone <;> omega
    · exact .inl hshutdown
  exact { h with
    sound := { hsound with closeCause := fun _ => hcause }
    routeFits := rfl
    handFits := rfl
    asked := fun hcontrol => h.asked (.inl (hcontrol.resolve_right Bool.false_ne_true))
    enqueued := fun _ => .inl rfl
    failed := fun _ => .inl rfl }

/-- The cancellation finds nothing to close: the connection is closed, or the event that
establishes it will see the flag. -/
theorem ignoresCancellation (hasked : d.cancellation = true)
    (hroute : d.route.awaitsDelivery = false) :
    { d with cancellation := false }.Tracked := by
  have hcancelled := (h.asked (.inr hasked)).1
  have hover : d.closed = true ∨ (d.route = .awaitEstablished ∧ d.cancelled = true) := by
    by_cases hr : d.route = .awaitEstablished
    · exact .inr ⟨hr, hcancelled⟩
    · left
      apply h.closed_of_route hr
      intro hr
      rw [hr] at hroute
      cases hroute
  exact { h with
    asked := fun hcontrol => h.asked (.inl (hcontrol.resolve_right Bool.false_ne_true))
    enqueued := fun _ => hover.imp id fun hd => .inr (.inr hd)
    failed := fun _ => hover.imp id fun hd => .inr (.inr (.inr (.inr hd))) }

theorem processCancellation (hstep : d.step .processCancellation = some after) : after.Tracked := by
  obtain ⟨hguard, hstep⟩ := Option.ite_none_right_eq_some.mp hstep
  split at hstep
  · next hroute =>
    cases hstep
    exact h.discards hguard.1 hguard.2.2 hroute
  · next hroute =>
    cases hstep
    exact h.ignoresCancellation hguard.2.2 (Bool.not_eq_true _ ▸ hroute)

/-- The reactor sets the flag of a request, on its way to withdraw the result. -/
theorem cancels (hhand : d.hand = .idle) (hshutdown : d.shutdown = true) (enqueue : Bool) :
    { d with cancelled := true, hand := .cancelling enqueue }.Tracked :=
  { h with
    sound := { h.sound_at (by rw [hhand]; rfl) with flagged := fun _ => rfl }
    handFits := ⟨hshutdown, rfl⟩
    asked := fun hcontrol => ⟨rfl, (h.asked hcontrol).2⟩
    enqueued := fun _ => .inr (.inl hshutdown)
    failed := fun _ => .inr (.inl hshutdown) }

theorem retire (hhand : d.hand = .idle) (hclosed : d.closed = true)
    (hroute : d.route ≠ .awaitEstablished) : { d with route := .retired }.Tracked := by
  have hhandles : d.route.handles = 0 := by
    cases hr : d.route <;> first | rfl | exact absurd hr hroute
  exact { h with
    sound := h.sound_at (by rw [hhandles]; rfl)
    routeFits := hclosed
    handFits := by
      rw [hhand]
      trivial
    enqueued := fun _ => .inl hclosed
    failed := fun _ => .inl hclosed }

theorem shuts {terminal : Bool} (hterminal : d.terminal = true → terminal = true) :
    { d with shutdown := true, terminal }.Tracked :=
  { h with
    sound := h.sound.shuts hterminal
    handFits := by
      have hfits := h.handFits
      cases hhand : d.hand <;> rw [hhand] at hfits <;> first | exact hfits | exact ⟨rfl, hfits.2⟩
    asked := fun hcontrol => ⟨(h.asked hcontrol).1, .inr rfl⟩
    enqueued := fun _ => .inr (.inl rfl)
    failed := fun _ => .inr (.inl rfl) }

/-- The success is stored; one that comes too late is dropped. -/
theorem completes (hhand : d.hand = .completing) :
    { d with toHandover := d.toHandover.completeOk, hand := .idle }.Tracked := by
  have hroute : d.route = .establishedAwaitingDelivery := by
    have hfits := h.handFits
    rwa [hhand] at hfits
  have hbefore : d.toHandover.Sound (0 + 1) := h.sound_at (by rw [hhand, hroute]; rfl)
  have hsound : d.toHandover.completeOk.Sound (d.route.handles + ConnectHand.idle.handles) := by
    rw [hroute]
    exact hbefore.completeOk
  unfold completeOk at hsound ⊢
  split
  · next hcell =>
    rw [hcell] at hsound
    exact { h with
      sound := hsound
      handFits := trivial
      withdrawn := fun hw => by
        have := h.withdrawn hw
        rw [hcell] at this
        rcases this with hc | hc <;> cases hc
      failed := fun hc => by
        rcases hc with hc | ⟨hc, _⟩ | hc
        · cases hc
        · cases hc
        · exact h.failed (.inr (.inr hc)) }
  all_goals
    next hcell =>
      have hlate := hbefore.late (by rw [hcell]; decide)
      rw [hcell] at hsound
      exact { h with
        sound := hsound
        handFits := trivial
        failed := fun _ => h.failed (hlate.imp id .inl) }

/-- The reactor visits the result of a connection that it has closed. -/
theorem visits (hclosed : d.closed = true) (hhand : d.hand.handles = 0) {after : Handover}
    (hsound : after.Sound (d.route.handles + d.hand.handles))
    (hframe : { after with cell := d.cell, dropped := d.dropped, closeControl := d.closeControl } = d.toHandover)
    (hcell : d.cell = .err ∨ d.cell = .taken → after.cell = .err ∨ after.cell = .taken) :
    { d with toHandover := after, hand := .idle }.Tracked := by
  have hsame : after.closed = d.closed ∧ after.shutdown = d.shutdown ∧
      after.established = d.established ∧ after.cancelled = d.cancelled ∧
      after.waiter = d.waiter := by
    rw [← hframe]
    exact ⟨rfl, rfl, rfl, rfl, rfl⟩
  obtain ⟨hc, hs, he, hf, hw⟩ := hsame
  have hover : after.closed = true := hc.trans hclosed
  exact
    { sound := by
        rw [hhand] at hsound
        exact hsound
      routeFits := by
        have hfits := h.routeFits
        unfold RouteFits at hfits ⊢
        split at hfits <;> next hroute => rw [hroute]; first | exact hover | exact he.trans hfits | exact hfits
      handFits := trivial
      asked := fun hcontrol => by
        have := h.asked hcontrol
        show after.cancelled = true ∧ (after.waiter = .dropped ∨ after.shutdown = true)
        rwa [hf, hw, hs]
      enqueued := fun _ => .inl hover
      withdrawn := fun hwaiter => by
        have hwaiter : after.waiter = .cancelled ∨ after.waiter = .dropped := hwaiter
        rw [hw] at hwaiter
        exact hcell (h.withdrawn hwaiter)
      failed := fun _ => .inl hover }

theorem closed_of_hand (hhand : d.hand = .failing ∨ d.hand = .discarding) : d.closed = true := by
  have hfits := h.handFits
  rcases hhand with hhand | hhand <;> rwa [hhand] at hfits

theorem failing (hhand : d.hand = .failing) :
    { d with toHandover := d.toHandover.completeErr, hand := .idle }.Tracked := by
  apply h.visits (h.closed_of_hand (.inl hhand)) (by rw [hhand]; rfl) h.sound.completeErr
  · unfold completeErr
    split <;> rfl
  · intro hcell
    unfold completeErr
    rcases hcell with hcell | hcell <;> simp [hcell]

theorem discarding (hhand : d.hand = .discarding) :
    { d with toHandover := d.toHandover.discard, hand := .idle }.Tracked := by
  apply h.visits (h.closed_of_hand (.inr hhand)) (by rw [hhand]; rfl) h.sound.discard
  · unfold Handover.discard
    split <;> rfl
  · intro hcell
    unfold Handover.discard
    rcases hcell with hcell | hcell <;> simp [hcell, Handover.dropHandles]

theorem cancelled {enqueue : Bool} (hhand : d.hand = .cancelling enqueue) :
    { d with toHandover := d.toHandover.claim 0, hand := .idle }.Tracked := by
  have hshutdown := (h.cancelling hhand).1
  have hsound := h.claim_sound
  rw [hhand] at hsound
  exact { h with
    sound := hsound
    handFits := trivial
    withdrawn := fun _ => withdraw_cell d.cell
    failed := fun _ => .inr (.inl hshutdown) }

theorem resume (hstep : d.resume = some after) : after.Tracked := by
  unfold ConnectDelivery.resume at hstep
  split at hstep
  · cases hstep
  · next hhand =>
    cases hstep
    exact h.completes hhand
  · next hhand =>
    cases hstep
    exact h.failing hhand
  · next hhand =>
    cases hstep
    exact h.discarding hhand
  · next hhand =>
    cases hstep
    obtain ⟨hshutdown, hflag⟩ := h.cancelling hhand
    split
    · exact (h.cancelled hhand).enqueueCancellation hflag (.inr hshutdown)
    · exact h.cancelled hhand

theorem step {label : ConnectDeliveryLabel} (hstep : d.step label = some after) :
    after.Tracked := by
  cases label with
  | poll =>
    obtain ⟨hwaiter, rfl⟩ := of_guard hstep
    exact h.poll hwaiter
  | markDelivered =>
    obtain ⟨hwaiter, rfl⟩ := of_guard hstep
    exact h.markDelivered hwaiter
  | dropFlag =>
    obtain ⟨hwaiter, rfl⟩ := of_guard hstep
    exact h.dropFlag hwaiter
  | dropCancel =>
    obtain ⟨hwaiter, rfl⟩ := of_guard hstep
    exact h.dropCancel hwaiter
  | dropNotify =>
    obtain ⟨hwaiter, rfl⟩ := of_guard hstep
    exact h.dropNotify hwaiter
  | ownerClose =>
    obtain ⟨_, rfl⟩ := of_guard hstep
    exact h.ownerClose
  | establishedEvent => exact h.establishedEvent hstep
  | disconnectedEvent => exact h.disconnectedEvent hstep
  | failureEvent => exact h.failureEvent hstep
  | closeConnection =>
    obtain ⟨⟨hhand, _, hasked⟩, rfl⟩ := of_guard hstep
    apply h.closes hhand (.inl rfl) (fun heq => by cases heq)
    right
    exact (h.sound.closeAsked hasked).imp id .inr
  | shutdownConnection =>
    obtain ⟨⟨hhand, _, hshutdown⟩, rfl⟩ := of_guard hstep
    exact h.closes hhand (.inl rfl) id (.inr (.inr (.inl hshutdown)))
  | takeConnectCancel =>
    obtain ⟨⟨_, _, hasked⟩, rfl⟩ := of_guard hstep
    exact h.takeConnectCancel hasked
  | processCancellation => exact h.processCancellation hstep
  | shutdownRoute =>
    obtain ⟨⟨hhand, hshutdown, _⟩, rfl⟩ := of_guard hstep
    exact h.cancels hhand hshutdown true
  | terminalize =>
    obtain ⟨⟨hhand, hterminal, _⟩, rfl⟩ := of_guard hstep
    exact h.cancels hhand (h.sound.failed hterminal) false
  | retire =>
    obtain ⟨⟨hhand, hclosed, hroute⟩, rfl⟩ := of_guard hstep
    exact h.retire hhand hclosed hroute
  | requestShutdown =>
    cases hstep
    exact h.shuts id
  | engineFails =>
    cases hstep
    exact h.shuts fun _ => rfl
  | driverDrop =>
    obtain ⟨⟨_, hterminal⟩, rfl⟩ := of_guard hstep
    exact { h with sound := h.sound.driverDrop hterminal }
  | resume => exact h.resume hstep

end

/-! ### The steps that are due -/

theorem enqueueCancellation_rank : d.enqueueCancellation.rank ≤ d.rank + 1 := by
  unfold ConnectDelivery.enqueueCancellation
  split
  · omega
  · simp only [rank, Bool.toNat_true]
    omega

/-- The reactor visits the result; that may ask for the close of the connection. -/
theorem visits_falls {h : Handover} (n : Nat) (hwaiter : h.waiter = d.waiter)
    (hclosed : h.closed = d.closed) (hhand : n ≤ d.hand.rank) :
    { d with toHandover := h, hand := .idle }.rank + n ≤ d.rank + 1 := by
  have hasked := Bool.toNat_le h.closeControl
  have hidle : ConnectHand.idle.rank = 0 := rfl
  simp only [rank, hwaiter, hclosed]
  omega

theorem resume_falls (hstep : d.resume = some after) : after.rank < d.rank := by
  unfold ConnectDelivery.resume at hstep
  split at hstep
  · cases hstep
  · next hhand =>
    cases hstep
    exact Nat.le_of_succ_le_succ (visits_falls 2 completeOk_kept.1
      completeOk_kept.2 (by rw [hhand]; decide))
  · next hhand =>
    cases hstep
    exact Nat.le_of_succ_le_succ (visits_falls 2 completeErr_kept.1
      completeErr_kept.2 (by rw [hhand]; decide))
  · next hhand =>
    cases hstep
    exact Nat.le_of_succ_le_succ (visits_falls 2 discard_kept.1
      discard_kept.2 (by rw [hhand]; decide))
  · next hhand =>
    cases hstep
    have hfalls := visits_falls (d := d) (h := d.toHandover.claim 0) 3 rfl rfl
      (by rw [hhand]; exact Nat.le_refl 3)
    dsimp only
    split
    · exact Nat.lt_of_le_of_lt enqueueCancellation_rank (by omega)
    · omega

/-- A due step lowers the rank, or it changes nothing: a poll without a result, or the
shutdown of a connection that is closed. -/
theorem falls {label : ConnectDeliveryLabel} (hdue : label ∈ ConnectDeliveryLabel.due)
    (hstep : d.step label = some after) :
    after.rank < d.rank ∨ after = d ∧ (label = .poll ∧ d.toHandover.Quiet ∨
      label = .shutdownConnection ∧ d.closed = true) := by
  simp only [ConnectDeliveryLabel.due, List.mem_cons, List.not_mem_nil, or_false] at hdue
  rcases hdue with rfl | rfl | rfl | rfl | rfl | rfl | rfl | rfl | rfl
  · obtain ⟨hwaiter, rfl⟩ := of_guard hstep
    rcases poll_falls hwaiter false with ⟨hlt, hasked, hclosed⟩ | ⟨hsame, hquiet⟩
    · left
      simp only [rank, hasked, hclosed]
      omega
    · exact .inr ⟨by rw [hsame], .inl ⟨rfl, hquiet⟩⟩
  · obtain ⟨hwaiter, rfl⟩ := of_guard hstep
    left
    simp only [rank, hwaiter, WaiterPhase.rank]
    omega
  · obtain ⟨hwaiter, rfl⟩ := of_guard hstep
    left
    have hasked := Bool.toNat_le (d.toHandover.claim 0).closeControl
    have hclosed : (d.toHandover.claim 0).closed = d.closed := rfl
    simp only [rank, hwaiter, hclosed, WaiterPhase.rank]
    omega
  · obtain ⟨hwaiter, rfl⟩ := of_guard hstep
    left
    have hcontrol := Bool.toNat_le d.requestAlive
    simp only [rank, hwaiter, WaiterPhase.rank]
    omega
  · obtain ⟨⟨_, _, hasked⟩, rfl⟩ := of_guard hstep
    left
    simp only [rank, hasked, Bool.not_true, Bool.toNat_true, Bool.toNat_false]
    omega
  · obtain ⟨_, rfl⟩ := of_guard hstep
    cases hclosed : d.closed with
    | true =>
      exact .inr ⟨congrArg (fun closed => { d with closed }) hclosed.symm, .inr ⟨rfl, rfl⟩⟩
    | false =>
      left
      simp only [rank, hclosed, Bool.not_true, Bool.not_false, Bool.toNat_true, Bool.toNat_false]
      omega
  · obtain ⟨⟨_, _, hcontrol⟩, rfl⟩ := of_guard hstep
    left
    have hqueued := enqueueCancellation_rank (d := { d with connectCancel := false })
    have hpopped : { d with connectCancel := false }.rank + 2 = d.rank := by
      simp only [rank, hcontrol, Bool.toNat_true, Bool.toNat_false]
      omega
    omega
  · obtain ⟨⟨hhand, _, hqueue⟩, hstep⟩ := Option.ite_none_right_eq_some.mp hstep
    left
    split at hstep
    · next hroute =>
      cases hstep
      have hroute : d.route.awaitsDelivery = true := hroute
      have hclosing : ConnectRoute.closing.awaitsDelivery = false := rfl
      simp only [rank, hhand, hqueue, hroute, hclosing, ConnectHand.rank, Bool.not_true,
        Bool.toNat_true, Bool.toNat_false]
      omega
    · cases hstep
      simp only [rank, hqueue, Bool.toNat_true, Bool.toNat_false]
      omega
  · exact .inl (resume_falls hstep)

section

variable (hrest : d.AtRest)

include hrest

theorem rest_blocked (label : ConnectDeliveryLabel) (hlabel : label ∈ ConnectDeliveryLabel.due ∧
    label ≠ .poll ∧ label ≠ .shutdownConnection) (hstep : d.step label = some after) : False := by
  rcases (hrest.idle hlabel.1 hstep (falls hlabel.1 hstep)).2 with ⟨heq, _⟩ | ⟨heq, _⟩
  · exact hlabel.2.1 heq
  · exact hlabel.2.2 heq

theorem rest_hand : d.hand = .idle := by
  by_contra hhand
  have hsome : ∃ after, d.resume = some after := by
    unfold ConnectDelivery.resume
    split
    · next hidle => exact absurd hidle hhand
    all_goals exact ⟨_, rfl⟩
  obtain ⟨_, hstep⟩ := hsome
  exact rest_blocked hrest .resume (by decide) hstep

theorem rest_quiet : d.toHandover.Quiet := by
  cases hwaiter : d.waiter with
  | finished => exact .inl hwaiter
  | dropped => exact .inr (.inl hwaiter)
  | waiting =>
    have hstep : d.step .poll = some _ := if_pos hwaiter
    rcases (hrest.idle (by decide) hstep (falls (by decide) hstep)).2 with ⟨_, hquiet⟩ | ⟨heq, _⟩
    · exact hquiet
    · cases heq
  | took => exact (rest_blocked hrest .markDelivered (by decide) (if_pos hwaiter)).elim
  | flagged => exact (rest_blocked hrest .dropCancel (by decide) (if_pos hwaiter)).elim
  | cancelled => exact (rest_blocked hrest .dropNotify (by decide) (if_pos hwaiter)).elim

end

variable (h : d.Tracked)

include h

theorem rest_cell (hquiet : d.toHandover.Quiet) : d.cell ≠ .ok := by
  rcases hquiet with hwaiter | hwaiter | ⟨_, hcell | hcell⟩
  · rw [h.sound.tookCell (.inr hwaiter)]
    decide
  · rcases h.withdrawn (.inr hwaiter) with hcell | hcell <;> rw [hcell] <;> decide
  all_goals
    rw [hcell]
    decide

/-- A handle that was dropped belongs to a connection that the engine has closed, or that
the drop of the driver has stopped. -/
theorem rest_over (hrest : d.AtRest) (hroute : d.route ≠ .awaitEstablished)
    (hdropped : d.dropped = 1) : d.closed = true ∨ d.stopped = true := by
  by_cases hgone : d.gone = true
  · exact .inr (h.sound.gone hgone)
  rw [Bool.not_eq_true] at hgone
  have hhand := rest_hand hrest
  left
  rcases h.failed (.inr (.inr hdropped)) with hd | hd | hd | hd | hd | hd
  · exact hd
  · have hstep : d.step .shutdownConnection = some _ := if_pos ⟨hhand, hgone, hd⟩
    rcases (hrest.idle (by decide) hstep (falls (by decide) hstep)).2 with ⟨heq, _⟩ | ⟨_, hclosed⟩
    · cases heq
    · exact hclosed
  · exact (rest_blocked hrest .dropNotify (by decide) (if_pos hd)).elim
  · exact (rest_blocked hrest .takeConnectCancel (by decide) (if_pos ⟨hhand, hgone, hd⟩)).elim
  · have hsome : ∃ after, d.step .processCancellation = some after := by
      simp only [ConnectDelivery.step, hhand, hgone, hd, and_self, if_true]
      split <;> exact ⟨_, rfl⟩
    obtain ⟨_, hstep⟩ := hsome
    exact (rest_blocked hrest .processCancellation (by decide) hstep).elim
  · exact absurd hd.1 hroute

theorem resolved : d.toHandover.Resolved d.AtRest where
  once := h.sound.taken_le
  kept := h.sound.kept
  settled hrest hestablished := by
    have hroute := h.route_ne hestablished
    have hhandles : d.route.handles = 0 := by
      cases hr : d.route <;> first | rfl | exact absurd hr hroute
    have hsound : d.toHandover.Sound 0 := h.sound_at (by rw [hhandles, rest_hand hrest]; rfl)
    exact hsound.settled (h.rest_cell (rest_quiet hrest)) (h.rest_over hrest hroute)

theorem settles : Machine.Settles ConnectDelivery.step ConnectDeliveryLabel.due rank
    (fun rest => rest.toHandover.Settled) d :=
  Machine.settles (fun _ _ _ hinv _ hstep => hinv.step hstep)
    (fun _ _ _ _ hdue hstep => (falls hdue hstep).imp id And.left)
    (fun _ hinv hrest => hinv.resolved.settled hrest) h

end Tracked

end ConnectDelivery

/-- In every run of an accept and of a connect, whatever the frontend, the listener, the
peer and the engine do, an established connection is delivered once or closed without
delivery: every step that the request itself has due changes nothing or lowers a rank, a run
of such steps comes to rest, and at rest the connection is settled. -/
theorem established_delivered_or_closed {accepts : List AcceptDeliveryLabel} {a : AcceptDelivery}
    {connects : List ConnectDeliveryLabel} {c : ConnectDelivery}
    (haccept : run step init accepts = some a)
    (hconnect : run ConnectDelivery.step ConnectDelivery.init connects = some c) :
    (a.toHandover.Resolved a.AtRest ∧ Machine.Settles step AcceptDeliveryLabel.due
      rank (fun rest => rest.toHandover.Settled) a) ∧
    (c.toHandover.Resolved c.AtRest ∧ Machine.Settles ConnectDelivery.step ConnectDeliveryLabel.due
      ConnectDelivery.rank (fun rest => rest.toHandover.Settled) c) := by
  have ha : a.Tracked :=
    run_invariant_of_step (fun _ _ _ hinv hstep => hinv.step hstep) tracked_init haccept
  have hc : c.Tracked :=
    run_invariant_of_step (fun _ _ _ hinv hstep => hinv.step hstep)
      ConnectDelivery.tracked_init hconnect
  exact ⟨⟨ha.resolved, ha.settles⟩, ⟨hc.resolved, hc.settles⟩⟩

/-- The engine shuts down before the future of an accept takes its connection, and fails
after the future of a connect has: at rest the first connection is closed without delivery
and the second is delivered. -/
theorem established_delivered_or_closed_shutdown : ∃ a c, run step init
          [.establishedEvent, .resume, .requestShutdown, .shutdownConnection, .resume, .poll] =
        some a ∧
      run ConnectDelivery.step ConnectDelivery.init
          [.establishedEvent, .resume, .poll, .engineFails, .markDelivered, .shutdownConnection] =
        some c ∧
      (a.established = true ∧ a.AtRest) ∧ (c.established = true ∧ c.AtRest) ∧
      a.toHandover.Resolved a.AtRest ∧ c.toHandover.Resolved c.AtRest ∧
      (a.taken = 0 ∧ a.dropped = 1 ∧ a.closed = true) ∧ (c.taken = 1 ∧ c.dropped = 0) := by
  obtain ⟨a, ha, hresta, hdropped⟩ : ∃ a, run step init
        [.establishedEvent, .resume, .requestShutdown, .shutdownConnection, .resume, .poll] =
          some a ∧
      (a.established = true ∧ a.AtRest) ∧ a.taken = 0 ∧ a.dropped = 1 ∧ a.closed = true := by
    decide +kernel
  obtain ⟨c, hc, hrestc, htaken⟩ : ∃ c, run ConnectDelivery.step ConnectDelivery.init
        [.establishedEvent, .resume, .poll, .engineFails, .markDelivered, .shutdownConnection] =
          some c ∧
      (c.established = true ∧ c.AtRest) ∧ c.taken = 1 ∧ c.dropped = 0 := by
    decide +kernel
  have hboth := established_delivered_or_closed ha hc
  exact ⟨a, c, ha, hc, hresta, hrestc, hboth.1.1, hboth.2.1, hdropped, htaken⟩

end RdmaIo.Engine
