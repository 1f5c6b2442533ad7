/-
The delivery of an accepted connection.

The route of the connection, the listener whose selected pair it is, and the waiting accept
run side by side: the reactor reads the flags of the request at one point and visits its
result at another, and the frontend may take the result or drop the future in between.  What
the reactor still has to do with the result is kept in `hand`.
-/
import RdmaIo.Engine.Delivery

namespace RdmaIo.Engine

open Machine

inductive AcceptRoute where
  | awaitEstablished
  | establishedAwaitingDelivery
  | established
  | closing
  | transitioning
  | retired
deriving Repr, DecidableEq

/-- Why the reactor withdraws the result of an accept. -/
inductive ClaimReason where
  /-- `close_accepted_connection` -/
  | closeAccepted
  /-- `close_after_inbound_terminal` -/
  | peerTerminal
  /-- `prepare_selected_connection_close` -/
  | prepareClose
  /-- `terminalize_waiters_into` -/
  | terminalize
deriving Repr, DecidableEq

inductive AcceptHand where
  | idle
  /-- The route awaits delivery and the result is not stored yet. -/
  | completing
  /-- `next_action` has found the request undelivered. -/
  | observing
  /-- A result is about to be withdrawn, with the handle of the route if it had one. -/
  | claiming (reason : ClaimReason) (held : Bool)
deriving Repr, DecidableEq

/-- `selected` is the `cancel_started` flag while the pair selected by the listener is this
one, `permit` the accept permit of the request and `work` the requested listener work. -/
structure AcceptDelivery extends Handover where
  route : AcceptRoute
  hand : AcceptHand
  selected : Option Bool
  permit : Bool
  listenerClosing : Bool
  work : Bool
deriving Repr, DecidableEq

inductive AcceptDeliveryLabel where
  | poll
  | markDelivered
  | dropFlag
  | dropCancel
  | dropNotify
  | ownerClose
  | establishedEvent
  | terminalEvent
  | closeConnection
  | shutdownConnection
  | service
  | dropService
  | requestWork
  | closeListener
  | terminalize
  | retire
  | requestShutdown
  | engineFails
  | driverDrop
  | resume
deriving Repr, DecidableEq

/-- The steps that the frontend and the reactor take on their own, with no new event,
request or failure from outside. -/
def AcceptDeliveryLabel.due : List AcceptDeliveryLabel :=
  [.poll, .markDelivered, .dropCancel, .dropNotify, .closeConnection, .shutdownConnection,
    .service, .terminalize, .resume]

namespace AcceptRoute

/-- Handles of the connection that the route owns. -/
def handles : AcceptRoute → Nat
  | .awaitEstablished => 1
  | .establishedAwaitingDelivery | .established | .closing | .transitioning | .retired => 0

def holdsRequest : AcceptRoute → Bool
  | .awaitEstablished | .establishedAwaitingDelivery => true
  | .established | .closing | .transitioning | .retired => false

/-- What the engine still has to do with the route. -/
def rank : AcceptRoute → Nat
  | .awaitEstablished | .establishedAwaitingDelivery => 6
  | .established => 1
  | .closing | .transitioning | .retired => 0

end AcceptRoute

def AcceptHand.handles : AcceptHand → Nat
  | .completing => 1
  | .claiming _ held => held.toNat
  | .idle | .observing => 0

/-- A withdrawal may ask for more work; that of a failed engine gives up the permit. -/
def AcceptHand.rank : AcceptHand → Nat
  | .claiming .terminalize _ => 0
  | .idle => 1
  | .observing => 2
  | .completing => 3
  | .claiming _ _ => 6

open AcceptHand (idle handles claiming)

namespace AcceptDelivery

/-- The provider has accepted the child; its route awaits the peer. -/
def init : AcceptDelivery where
  toHandover := Handover.init
  route := .awaitEstablished
  hand := .idle
  selected := some false
  permit := true
  listenerClosing := false
  work := false

variable (d : AcceptDelivery)

/-- Whether somebody still owns the request: the listener, the route, or the reactor. -/
def requestAlive : Bool :=
  d.selected.isSome || d.route.holdsRequest || d.hand != .idle

/-- `cancel_inbound_route` -/
def cancelRoute : AcceptDelivery :=
  match d.route with
  | .awaitEstablished =>
    { d with route := .transitioning, hand := .claiming .closeAccepted true }
  | .establishedAwaitingDelivery =>
    { d with route := .transitioning, hand := .claiming .closeAccepted false }
  | .established | .closing | .transitioning | .retired => { d with hand := .idle }

/-- `begin_connection_close_into`, which prepares the route of a selected pair first. -/
def beginClose : AcceptDelivery :=
  match d.route with
  | .awaitEstablished =>
    { d with route := .transitioning, hand := .claiming .prepareClose true }
  | .establishedAwaitingDelivery =>
    { d with route := .transitioning, hand := .claiming .prepareClose false }
  | .established => { d with route := .closing, closed := true }
  | .closing | .transitioning | .retired => { d with closed := true }

/-- The listener has seen that its connection was taken. -/
def acknowledgeDelivery : AcceptDelivery :=
  match d.route with
  | .establishedAwaitingDelivery =>
    { d with route := .established, selected := none, work := true }
  | .awaitEstablished | .established | .closing | .transitioning | .retired =>
    { d with selected := some true }.cancelRoute

/-- `next_action` after it has found the request undelivered. -/
def observe (started : Bool) : AcceptDelivery :=
  if (d.listenerClosing || d.cancelled) && !started then
    { d with selected := some true }.cancelRoute
  else { d with hand := .idle }

/-- The listener serves the work that was requested of it. -/
def serviced : AcceptDelivery :=
  let d := { d with work := false }
  match d.selected with
  | none => d
  | some _ => if d.delivered then d.acknowledgeDelivery else { d with hand := .observing }

/-- The reactor visits the result that it withdraws. -/
def claimed (reason : ClaimReason) (held : Bool) : AcceptDelivery :=
  let d := { d with toHandover := d.toHandover.claim held.toNat, hand := .idle }
  match reason with
  | .closeAccepted =>
    if d.delivered then { d with route := .established, selected := none, work := true }
    else { d with route := .closing, closed := true }
  | .peerTerminal => { d with route := .closing, closed := true, peerGone := true }
  | .prepareClose => { d with route := .closing, closed := true }
  | .terminalize => { d with permit := false }

/-- What the reactor still has to do with the result. -/
def resume : Option AcceptDelivery :=
  match d.hand with
  | .idle => none
  | .completing => some { d with toHandover := d.toHandover.completeOk, hand := .idle }
  | .observing => d.selected.map d.observe
  | .claiming reason held => some (d.claimed reason held)

def step : AcceptDeliveryLabel → Option AcceptDelivery
  | .poll =>
    -- taking the connection marks it as delivered under the lock of the result
    if d.waiter = .waiting then some { d with toHandover := d.toHandover.poll true }
    else none
  | .markDelivered =>
    if d.waiter = .took then
      some { d with waiter := .finished, work := d.work || d.requestAlive }
    else none
  | .dropFlag =>
    if d.waiter = .waiting then some { d with toHandover := d.toHandover.flagDrop }
    else none
  | .dropCancel =>
    if d.waiter = .flagged then some { d with waiter := .cancelled } else none
  | .dropNotify =>
    if d.waiter = .cancelled then
      some { d with waiter := .dropped, work := d.work || d.requestAlive }
    else none
  | .ownerClose =>
    if d.taken = 1 then some { d with toHandover := d.toHandover.ownerClose } else none
  | .establishedEvent =>
    if d.hand = .idle ∧ d.route = .awaitEstablished then
      let d := { d with established := true }
      if d.cancelled || d.listenerClosing || d.shutdown then
        some { d with route := .transitioning, hand := .claiming .closeAccepted true }
      else some { d with route := .establishedAwaitingDelivery, hand := .completing }
    else none
  | .terminalEvent =>
    if d.hand = .idle then
      match d.route with
      | .awaitEstablished =>
        some { d with route := .transitioning, hand := .claiming .peerTerminal true }
      | .establishedAwaitingDelivery =>
        some { d with route := .transitioning, hand := .claiming .peerTerminal false }
      | .established =>
        some { d with route := .closing, closed := true, peerGone := true }
      | .closing | .transitioning | .retired => some d
    else none
  | .closeConnection =>
    if d.hand = .idle ∧ d.gone = false ∧ d.closeControl = true then
      some { d with closeControl := false }.beginClose
    else none
  | .shutdownConnection =>
    if d.hand = .idle ∧ d.gone = false ∧ d.shutdown = true then some d.beginClose else none
  | .service =>
    if d.hand = .idle ∧ d.gone = false ∧ d.work = true then some d.serviced else none
  | .dropService =>
    -- the drop of the driver serves the listeners once more
    if d.hand = .idle ∧ d.gone = true ∧ d.work = true then some d.serviced else none
  | .requestWork => some { d with work := true }
  | .closeListener => some { d with listenerClosing := true, work := true }
  | .terminalize =>
    if d.hand = .idle ∧ d.terminal = true ∧ d.selected.isSome = true ∧ d.permit = true then
      some { d with hand := .claiming .terminalize false }
    else none
  | .retire =>
    if d.hand = .idle ∧ d.closed = true then
      match d.route with
      | .established => some { d with route := .retired }
      | .closing => some { d with route := .retired, selected := none, work := true }
      -- a route in any other state fails the engine
      | .awaitEstablished | .establishedAwaitingDelivery | .transitioning | .retired => none
    else none
  | .requestShutdown => some { d with toHandover := d.toHandover.requestShutdown }
  | .engineFails => some { d with toHandover := d.toHandover.engineFails }
  | .driverDrop =>
    if d.hand = .idle ∧ d.terminal = true then
      some { d with toHandover := { d.toHandover.driverDrop with gone := true } }
    else none
  | .resume => d.resume

/-- The engine and the frontend have nothing left to do about the request. -/
abbrev AtRest : Prop := Machine.AtRest step AcceptDeliveryLabel.due d

/-- What the frontend and the engine still have to do. -/
def rank : Nat :=
  d.waiter.rank + d.route.rank + d.hand.rank + 3 * d.permit.toNat + 2 * d.work.toNat +
    d.closeControl.toNat

/-- What the state of the route says about its connection. -/
def RouteFits : Prop :=
  match d.route with
  | .awaitEstablished => d.closed = false ∧ d.established = false
  | .establishedAwaitingDelivery => d.closed = false
  | .established => d.taken = 1 ∧ d.selected = none
  | .transitioning => True
  | .closing | .retired => d.closed = true

/-- What the reactor has in hand belongs to the route: a route is in transition while its
result is withdrawn for a reason that ends it. -/
def HandFits : AcceptHand → Prop
  | .idle => d.route ≠ .transitioning
  | .completing => d.route = .establishedAwaitingDelivery
  | .observing => d.route ≠ .transitioning ∧ d.selected ≠ none
  | .claiming .terminalize held =>
    d.route ≠ .transitioning ∧ held = false ∧ d.terminal = true ∧ d.permit = true
  | .claiming .prepareClose _ =>
    d.route = .transitioning ∧ (d.ownerClosed = true ∨ d.shutdown = true ∨ d.dropped = 1)
  | .claiming .closeAccepted _ | .claiming .peerTerminal _ => d.route = .transitioning

/-- The invariant of an accept and its route. -/
structure Tracked (d : AcceptDelivery) : Prop where
  sound : d.toHandover.Sound (d.route.handles + d.hand.handles)
  routeFits : d.RouteFits
  handFits : d.HandFits d.hand
  marked : d.taken = 1 → d.delivered = true
  started : d.selected = some true → d.closed = true ∨ d.route = .transitioning
  unselected : d.selected = none → d.closed = true ∨ d.taken = 1
  /-- A dropped accept is on its way to the listener until the close begins. -/
  pending : d.waiter = .dropped →
    d.closed = true ∨ d.terminal = true ∨ d.work = true ∨ d.hand = .observing ∨
      d.route = .transitioning
  failed : d.cell = .err ∨ (d.cell = .taken ∧ d.taken = 0) ∨ d.dropped = 1 →
    d.closed = true ∨ d.terminal = true
  /-- The close of an accepted connection withdraws its result first. -/
  closedCell : d.closed = true → d.cell ≠ .ok
  permitless : d.permit = false → d.cell = .err ∨ d.cell = .taken

theorem tracked_init : init.Tracked where
  sound := Handover.sound_init
  routeFits := ⟨rfl, rfl⟩
  handFits h := by cases h
  marked h := by cases h
  started h := by cases h
  unselected h := by cases h
  pending h := by cases h
  failed h := by revert h; decide
  closedCell h := by cases h
  permitless h := by cases h

namespace Tracked

variable {d : AcceptDelivery}

section

variable (h : d.Tracked)

include h

theorem closed_of_route (hroute : d.route = .closing ∨ d.route = .retired) : d.closed = true := by
  have hfits := h.routeFits
  unfold RouteFits at hfits
  rcases hroute with hroute | hroute <;> rwa [hroute] at hfits

theorem open_of_route (hroute : d.route.holdsRequest = true) : d.closed = false := by
  have hfits := h.routeFits
  unfold RouteFits at hfits
  cases hr : d.route <;> rw [hr] at hroute hfits
  case awaitEstablished => exact hfits.1
  case establishedAwaitingDelivery => exact hfits
  all_goals cases hroute

theorem taken_of_established (hroute : d.route = .established) :
    d.taken = 1 ∧ d.selected = none := by
  have hfits := h.routeFits
  unfold RouteFits at hfits
  rwa [hroute] at hfits

theorem ready_route (hhand : d.hand = .idle ∨ d.hand = .observing) : d.route ≠ .transitioning := by
  have hfits := h.handFits
  rcases hhand with hhand | hhand <;> rw [hhand] at hfits
  · exact hfits
  · exact hfits.1

/-- The handles outside the result, counted in the state at hand. -/
theorem sound_at {n : Nat} (hn : d.route.handles + d.hand.handles = n) :
    d.toHandover.Sound n := hn ▸ h.sound

theorem poll (hwaiter : d.waiter = .waiting) :
    { d with toHandover := d.toHandover.poll true }.Tracked := by
  have hsound := h.sound.poll hwaiter true
  have htaken : d.taken = 0 :=
    h.sound.not_taken (by rw [hwaiter]; decide) (by rw [hwaiter]; decide)
  unfold Handover.poll at hsound ⊢
  split
  · next hcell =>
    rw [hcell] at hsound
    exact { h with
      sound := hsound
      routeFits := by
        have hfits := h.routeFits
        unfold RouteFits at hfits ⊢
        cases hroute : d.route <;> rw [hroute] at hfits <;> simp_all
      marked := fun _ => by simp
      unselected := fun _ => .inr (by simp [htaken])
      pending := nofun
      failed := fun hc => h.failed (by
        simp only [htaken, reduceCtorEq, Nat.zero_add, Nat.one_ne_zero, and_false, false_or] at hc
        exact .inr (.inr hc))
      closedCell := fun _ => by simp
      permitless := fun _ => .inr rfl }
  · next hcell =>
    rw [hcell] at hsound
    exact { h with
      sound := hsound
      pending := nofun
      failed := fun _ => h.failed (.inl hcell)
      closedCell := fun _ => by simp
      permitless := fun _ => .inr rfl }
  all_goals exact h

theorem markDelivered (hwaiter : d.waiter = .took) (work : Bool) :
    { d with waiter := .finished, work }.Tracked :=
  { h with
    sound := h.sound.marks hwaiter d.delivered
    pending := nofun }

theorem dropFlag (hwaiter : d.waiter = .waiting) :
    { d with toHandover := d.toHandover.flagDrop }.Tracked :=
  { h with
    sound := h.sound.dropping rfl (by rw [hwaiter]; decide) (by decide)
    pending := nofun }

theorem dropCancel (hwaiter : d.waiter = .flagged) : { d with waiter := .cancelled }.Tracked :=
  { h with
    sound := h.sound.dropping (h.sound.flagged (.inl hwaiter)) (by rw [hwaiter]; decide) (by decide)
    pending := nofun }

/-- A pair that is over without a connection taken is that of a closed one. -/
theorem closed_of_untaken (hdone : d.selected = none ∨ d.taken = 1) (htook : d.waiter ≠ .took)
    (hfinished : d.waiter ≠ .finished) : d.closed = true := by
  rcases hdone.elim h.unselected .inr with hclosed | htaken
  · exact hclosed
  · rw [h.sound.not_taken htook hfinished] at htaken
    cases htaken

theorem dropNotify (hwaiter : d.waiter = .cancelled) :
    { d with waiter := .dropped, work := d.work || d.requestAlive }.Tracked :=
  { h with
    sound := h.sound.dropping (h.sound.flagged (.inr (.inl hwaiter)))
      (by rw [hwaiter]; decide) (by decide)
    pending := fun _ => by
      cases halive : d.requestAlive with
      | true =>
        right; right; left
        exact Bool.or_true _
      | false =>
        -- nobody owns the request any more, so its pair is over
        left
        have hselected : d.selected = none := by
          simp only [requestAlive, Bool.or_eq_false_iff, Option.isSome_eq_false_iff,
            Option.isNone_iff_eq_none] at halive
          exact halive.1.1
        exact h.closed_of_untaken (.inl hselected) (by rw [hwaiter]; decide)
          (by rw [hwaiter]; decide) }

/-- Reasons to close the connection are added, and the engine may fail. -/
theorem handFits_of_causes {ownerClosed shutdown terminal : Bool}
    (howner : d.ownerClosed = true → ownerClosed = true)
    (hshutdown : d.shutdown = true → shutdown = true)
    (hterminal : d.terminal = true → terminal = true) :
    { d with ownerClosed, shutdown, terminal }.HandFits d.hand := by
  have hfits := h.handFits
  generalize d.hand = hand at hfits ⊢
  unfold HandFits at hfits ⊢
  split at hfits
  case h_4 => exact ⟨hfits.1, hfits.2.1, hterminal hfits.2.2.1, hfits.2.2.2⟩
  case h_5 => exact ⟨hfits.1, hfits.2.imp howner (Or.imp hshutdown id)⟩
  all_goals exact hfits

theorem ownerClose : { d with toHandover := d.toHandover.ownerClose }.Tracked :=
  { h with
    sound := h.sound.ownerClose
    handFits := h.handFits_of_causes (fun _ => rfl) id id }

theorem shuts {terminal : Bool} (hterminal : d.terminal = true → terminal = true) :
    { d with shutdown := true, terminal }.Tracked :=
  { h with
    sound := h.sound.shuts hterminal
    handFits := h.handFits_of_causes id (fun _ => rfl) hterminal
    pending := fun hw => (h.pending hw).imp id (Or.imp hterminal id)
    failed := fun hc => (h.failed hc).imp id hterminal }

end

variable {held : Bool}

/-- The reactor takes the route to withdraw the result of its request. -/
theorem withdraws (h : d.Tracked) (hhand : d.hand = .idle ∨ d.hand = .observing)
    {reason : ClaimReason} {selected : Option Bool} {established : Bool}
    (hroute : d.route = .awaitEstablished ∧ held = true ∨
      d.route = .establishedAwaitingDelivery ∧ held = false)
    (hselected : selected = none → d.selected = none)
    (hfits : { d with
      route := .transitioning, selected, established }.HandFits (.claiming reason held)) :
    { d with
      route := .transitioning, hand := .claiming reason held, selected
      established }.Tracked := by
  have hhandles : d.hand.handles = 0 := by
    rcases hhand with hhand | hhand <;> rw [hhand] <;> rfl
  have hroutes : d.route.handles = held.toNat := by
    rcases hroute with ⟨hroute, rfl⟩ | ⟨hroute, rfl⟩ <;> rw [hroute] <;> rfl
  exact { h with
    sound := { h.sound_at (by rw [hroutes, hhandles, Nat.add_comm]; rfl) with }
    routeFits := trivial
    handFits := hfits
    started := fun _ => .inr rfl
    unselected := fun hnone => h.unselected (hselected hnone)
    pending := fun _ => .inr (.inr (.inr (.inr rfl))) }

/-- A connection that was delivered and acknowledged is closed. -/
theorem closesEstablished (h : d.Tracked) (hhand : d.hand = .idle)
    (hroute : d.route = .established) {peerGone : Bool}
    (hcause : peerGone = true ∨ d.ownerClosed = true ∨ d.shutdown = true ∨ d.dropped = 1) :
    { d with route := .closing, closed := true, peerGone }.Tracked := by
  have htaken := (h.taken_of_established hroute).1
  have hcell : d.cell ≠ .ok := by
    rw [h.sound.tookCell (h.sound.takenBy htaken)]
    decide
  exact { h with
    sound := { h.sound_at (by rw [hroute]; rfl) with closeCause := fun _ => hcause }
    routeFits := rfl
    handFits := by
      rw [hhand]
      nofun
    started := fun _ => .inl rfl
    unselected := fun _ => .inl rfl
    pending := fun _ => .inl rfl
    failed := fun _ => .inl rfl
    closedCell := fun _ => hcell }

theorem establish (h : d.Tracked) (hhand : d.hand = .idle)
    (hroute : d.route = .awaitEstablished) :
    { d with
      established := true, route := .establishedAwaitingDelivery
      hand := .completing }.Tracked := by
  have hopen := h.open_of_route (by rw [hroute]; rfl)
  exact { h with
    sound := { h.sound_at (by rw [hroute, hhand]; rfl) with }
    routeFits := hopen
    handFits := rfl
    started := fun hs => by
      have := h.started hs
      rw [hroute] at this
      exact this.imp id nofun
    pending := fun hw => by
      have := h.pending hw
      rw [hhand, hroute] at this
      simpa using this }

variable {after : AcceptDelivery}

section

variable (h : d.Tracked)

include h

theorem terminalEvent (hstep : d.step .terminalEvent = some after) : after.Tracked := by
  obtain ⟨hhand, hstep⟩ := Option.ite_none_right_eq_some.mp hstep
  split at hstep
  · next hroute =>
    cases hstep
    exact h.withdraws (.inl hhand) (.inl ⟨hroute, rfl⟩) id rfl
  · next hroute =>
    cases hstep
    exact h.withdraws (.inl hhand) (.inr ⟨hroute, rfl⟩) id rfl
  · next hroute =>
    cases hstep
    exact h.closesEstablished hhand hroute (.inl rfl)
  all_goals
    cases hstep
    exact h

/-- A connection whose route has ended is closed already. -/
theorem closes_again (hroute : d.route = .closing ∨ d.route = .retired) :
    { d with closed := true } = d :=
  congrArg (fun closed => { d with closed }) (h.closed_of_route hroute).symm

theorem beginClose (hhand : d.hand = .idle)
    (hcause : d.ownerClosed = true ∨ d.shutdown = true ∨ d.dropped = 1) : d.beginClose.Tracked := by
  unfold AcceptDelivery.beginClose
  split
  · next hroute =>
    exact h.withdraws (.inl hhand) (.inl ⟨hroute, rfl⟩) id ⟨rfl, hcause⟩
  · next hroute =>
    exact h.withdraws (.inl hhand) (.inr ⟨hroute, rfl⟩) id ⟨rfl, hcause⟩
  · next hroute => exact h.closesEstablished hhand hroute (.inr hcause)
  · next hroute =>
    rw [h.closes_again (.inl hroute)]
    exact h
  · next hroute => exact absurd hroute (h.ready_route (.inl hhand))
  · next hroute =>
    rw [h.closes_again (.inr hroute)]
    exact h

/-- The listener gives up the route of its selected pair. -/
theorem cancelRoute (hhand : d.hand = .idle ∨ d.hand = .observing)
    (hselected : d.selected ≠ none) :
    { d with selected := some true }.cancelRoute.Tracked := by
  have hover : d.route = .closing ∨ d.route = .retired →
      { d with selected := some true, hand := .idle }.Tracked := fun hroute => by
    have hclosed := h.closed_of_route hroute
    have hhandles : d.hand.handles = 0 := by
      rcases hhand with hhand | hhand <;> rw [hhand] <;> rfl
    exact { h with
      sound := h.sound_at (by rw [hhandles]; rfl)
      routeFits := by
        rw [RouteFits]
        rcases hroute with hroute | hroute <;> rw [hroute] <;> exact hclosed
      handFits := h.ready_route hhand
      started := fun _ => .inl hclosed
      unselected := fun _ => .inl hclosed
      pending := fun _ => .inl hclosed }
  unfold AcceptDelivery.cancelRoute
  split
  · next hroute => exact h.withdraws hhand (.inl ⟨hroute, rfl⟩) nofun rfl
  · next hroute => exact h.withdraws hhand (.inr ⟨hroute, rfl⟩) nofun rfl
  · next hroute => exact absurd (h.taken_of_established hroute).2 hselected
  · next hroute => exact hover (.inl hroute)
  · next hroute => exact absurd hroute (h.ready_route hhand)
  · next hroute => exact hover (.inr hroute)

/-- The pair of a connection that was taken is over. -/
theorem acknowledges (hhand : d.hand = .idle) (hdelivered : d.taken = 1)
    (hroute : d.route = .establishedAwaitingDelivery) :
    { d with route := .established, selected := none, work := true }.Tracked :=
  { h with
    sound := h.sound_at (by rw [hroute]; rfl)
    routeFits := ⟨hdelivered, rfl⟩
    handFits := by
      rw [hhand]
      nofun
    started := nofun
    unselected := fun _ => .inr hdelivered
    pending := fun _ => .inr (.inr (.inl rfl)) }

theorem requestWork (closing : Bool) :
    { d with listenerClosing := closing, work := true }.Tracked :=
  { h with pending := fun _ => .inr (.inr (.inl rfl)) }

/-- The work is popped for a listener that is done with the request, or whose request was
not dropped. -/
theorem popsWork (hdone : d.selected = none ∨ d.taken = 1) : { d with work := false }.Tracked :=
  { h with
    pending := fun hwaiter =>
      .inl (h.closed_of_untaken hdone (by rw [show d.waiter = _ from hwaiter]; decide)
        (by rw [show d.waiter = _ from hwaiter]; decide)) }

/-- The work is popped, and the request is found undelivered. -/
theorem observes (hhand : d.hand = .idle) (hselected : d.selected ≠ none) :
    { d with work := false, hand := .observing }.Tracked :=
  { h with
    sound := h.sound_at (by rw [hhand]; rfl)
    handFits := ⟨h.ready_route (.inl hhand), hselected⟩
    pending := fun _ => .inr (.inr (.inr (.inl rfl))) }

theorem acknowledgeDelivery (hhand : d.hand = .idle) (hdelivered : d.taken = 1)
    (hselected : d.selected ≠ none) : d.acknowledgeDelivery.Tracked := by
  unfold AcceptDelivery.acknowledgeDelivery
  split
  · next hroute => exact h.acknowledges hhand hdelivered hroute
  all_goals exact h.cancelRoute (.inl hhand) hselected

theorem serviced (hhand : d.hand = .idle) : d.serviced.Tracked := by
  unfold AcceptDelivery.serviced
  dsimp only
  split
  · next hselected => exact h.popsWork (.inl hselected)
  · next hselected =>
    have hsome : d.selected ≠ none := by
      rw [hselected]
      exact Option.some_ne_none _
    split
    · next hdelivered =>
      have htaken := h.sound.delivered hdelivered
      exact (h.popsWork (.inr htaken)).acknowledgeDelivery hhand htaken hsome
    · exact h.observes hhand hsome

/-- `next_action` looks no further at the selected pair. -/
theorem looksAway (hhand : d.hand = .observing)
    (hpending : d.waiter = .dropped → d.closed = true) : { d with hand := .idle }.Tracked :=
  { h with
    sound := h.sound_at (by rw [hhand]; rfl)
    handFits := h.ready_route (.inr hhand)
    pending := fun hw => .inl (hpending hw) }

theorem observe (hhand : d.hand = .observing) {started : Bool}
    (hselected : d.selected = some started) : (d.observe started).Tracked := by
  unfold AcceptDelivery.observe
  split
  · exact h.cancelRoute (.inr hhand) (by rw [hselected]; exact Option.some_ne_none _)
  · next hquiet =>
    apply h.looksAway hhand
    intro hw
    -- a dropped accept is cancelled, so the listener gave it up before
    have hcancelled := h.sound.flagged (.inr (.inr hw))
    cases started with
    | false =>
      rw [hcancelled] at hquiet
      simp at hquiet
    | true =>
      exact (h.started hselected).resolve_right (h.ready_route (.inr hhand))

theorem completing_route (hhand : d.hand = .completing) :
    d.route = .establishedAwaitingDelivery := by
  have hfits := h.handFits
  rwa [hhand] at hfits

theorem completes (hhand : d.hand = .completing) :
    { d with toHandover := d.toHandover.completeOk, hand := .idle }.Tracked := by
  have hroute := h.completing_route hhand
  have hopen := h.open_of_route (by rw [hroute]; rfl)
  have hbefore : d.toHandover.Sound (0 + 1) := h.sound_at (by rw [hhand, hroute]; rfl)
  have hsound : d.toHandover.completeOk.Sound (d.route.handles + idle.handles) := by
    rw [hroute]
    exact hbefore.completeOk
  have hready : d.route ≠ .transitioning := by
    rw [hroute]
    decide
  have hpending : d.waiter = .dropped → d.closed = true ∨ d.terminal = true ∨ d.work = true ∨
        idle = .observing ∨ d.route = .transitioning := by
    have := h.pending
    rw [hhand] at this
    simpa using this
  -- a late success is dropped: its result failed, with the engine or with the route
  have hlate : d.cell ≠ .pending → d.closed = true ∨ d.terminal = true := by
    intro hcell
    exact h.failed ((hbefore.late hcell).imp id .inl)
  unfold Handover.completeOk at hsound ⊢
  split
  · next hcell =>
    rw [hcell] at hsound
    exact { h with
      sound := hsound
      handFits := hready
      pending := hpending
      permitless := fun hpermit => by
        have := h.permitless hpermit
        rw [hcell] at this
        rcases this with hc | hc <;> cases hc
      failed := fun hc => by
        apply h.failed
        rcases hc with hc | ⟨hc, _⟩ | hc
        · cases hc
        · cases hc
        · exact .inr (.inr hc)
      closedCell := fun hclosed => by
        have hclosed : d.closed = true := hclosed
        rw [hopen] at hclosed
        cases hclosed }
  all_goals
    next hcell =>
      rw [hcell] at hsound
      exact { h with
        sound := hsound
        handFits := hready
        pending := hpending
        failed := fun _ => hlate (by rw [hcell]; decide) }

theorem claim_sound {reason : ClaimReason} (hhand : d.hand = .claiming reason held) :
    (d.toHandover.claim held.toNat).Sound d.route.handles :=
  (h.sound_at (by rw [hhand]; rfl)).claim

theorem claiming_route {reason : ClaimReason} (hhand : d.hand = .claiming reason held)
    (hreason : reason ≠ .terminalize) : d.route = .transitioning := by
  have hfits := h.handFits
  rw [hhand] at hfits
  cases reason with
  | closeAccepted | peerTerminal => exact hfits
  | prepareClose => exact hfits.1
  | terminalize => exact absurd rfl hreason

end

theorem claim_cell (d : AcceptDelivery) (held : Bool) :
    (d.toHandover.claim held.toNat).cell = .err ∨
      (d.toHandover.claim held.toNat).cell = .taken := by
  show d.cell.withdraw = .err ∨ d.cell.withdraw = .taken
  cases d.cell <;> decide

theorem claim_cell_ne (d : AcceptDelivery) (held : Bool) :
    (d.toHandover.claim held.toNat).cell ≠ .ok := by
  rcases claim_cell d held with hcell | hcell <;> rw [hcell] <;> decide

theorem cancelRoute_falls (hhand : d.hand = .idle ∨ d.hand = .observing) :
    { d with selected := some true }.cancelRoute.rank + d.hand.rank ≤ d.rank + 1 := by
  have hrank : 1 ≤ d.hand.rank ∧ AcceptHand.idle.rank = 1 := by
    rcases hhand with hhand | hhand <;> rw [hhand] <;> decide
  unfold AcceptDelivery.cancelRoute
  split <;> next hroute =>
    have hroute : d.route = _ := hroute
    simp only [rank, hroute, AcceptRoute.rank]
    first | omega | (simp only [AcceptHand.rank.eq_5]; omega)

theorem serviced_falls (hhand : d.hand = .idle) (hwork : d.work = true) :
    d.serviced.rank < d.rank := by
  have hpopped : { d with work := false }.rank + 2 = d.rank := by
    simp only [rank, hwork, Bool.toNat_true, Bool.toNat_false]
    omega
  have hcancel := cancelRoute_falls (d := { d with work := false }) (.inl hhand)
  have hidle : d.hand.rank = 1 := by
    rw [hhand]
    rfl
  unfold AcceptDelivery.serviced AcceptDelivery.acknowledgeDelivery
  dsimp only
  split
  · omega
  · split
    · split
      · next hroute =>
        simp only [rank, hroute, hwork, AcceptRoute.rank]
        omega
      all_goals
        dsimp only at hcancel
        omega
    · simp only [rank, hhand, hwork, AcceptHand.rank, Bool.toNat_true, Bool.toNat_false]
      omega

variable (h : d.Tracked)

include h

variable {reason : ClaimReason}

/-- The result is withdrawn and the connection is closed without delivery, or after it. -/
theorem claimCloses {peerGone : Bool}
    (hhand : d.hand = .claiming reason held) (hreason : reason ≠ .terminalize)
    (hcause : peerGone = true ∨ d.ownerClosed = true ∨ d.shutdown = true ∨
      d.dropped + (d.cell.handles + held.toNat) = 1) :
    { d with
      toHandover := { d.toHandover.claim held.toNat with closed := true, peerGone }
      hand := .idle, route := .closing }.Tracked := by
  have hsound := h.claim_sound hhand
  rw [h.claiming_route hhand hreason] at hsound
  exact { h with
    sound := { hsound with closeCause := fun _ => hcause }
    routeFits := rfl
    handFits := nofun
    started := fun _ => .inl rfl
    unselected := fun _ => .inl rfl
    pending := fun _ => .inl rfl
    failed := fun _ => .inl rfl
    closedCell := fun _ => claim_cell_ne d held
    permitless := fun _ => claim_cell d held }

/-- The frontend was faster: the connection is its own. -/
theorem claimFindsDelivered (hhand : d.hand = .claiming .closeAccepted held)
    (hdelivered : d.delivered = true) :
    { d with
      toHandover := d.toHandover.claim held.toNat
      hand := .idle, route := .established, selected := none, work := true }.Tracked := by
  have hsound := h.claim_sound hhand
  rw [h.claiming_route hhand (by decide)] at hsound
  have htaken : d.taken = 1 := h.sound.delivered hdelivered
  have hcell : d.cell = .taken := h.sound.tookCell (h.sound.takenBy htaken)
  have hone := hsound.one
  exact { h with
    sound := hsound
    routeFits := ⟨htaken, rfl⟩
    handFits := nofun
    started := nofun
    unselected := fun _ => .inr htaken
    pending := fun _ => .inr (.inr (.inl rfl))
    failed := fun hc => by
      have hone : AcceptRoute.transitioning.handles + d.cell.withdraw.handles + d.taken +
        (d.toHandover.claim held.toNat).dropped = 1 := hone
      rcases hc with hc | ⟨_, hc⟩ | hc
      · have hc : d.cell.withdraw = .err := hc
        rw [hcell] at hc
        cases hc
      · have hc : d.taken = 0 := hc
        omega
      · have hc : (d.toHandover.claim held.toNat).dropped = 1 := hc
        omega
    closedCell := fun _ => claim_cell_ne d held
    permitless := fun _ => claim_cell d held }

theorem terminalizing (hhand : d.hand = .claiming .terminalize held) :
    d.route ≠ .transitioning ∧ held = false ∧ d.terminal = true ∧ d.permit = true := by
  have hfits := h.handFits
  rwa [hhand] at hfits

/-- A failed engine withdraws the result and leaves the route alone. -/
theorem claimTerminalizes (hhand : d.hand = .claiming .terminalize held) :
    { d with
      toHandover := d.toHandover.claim held.toNat
      hand := .idle, permit := false }.Tracked := by
  obtain ⟨hroute, _, hterminal, _⟩ := h.terminalizing hhand
  exact { h with
    sound := h.claim_sound hhand
    handFits := hroute
    pending := fun _ => .inr (.inl hterminal)
    failed := fun _ => .inr hterminal
    closedCell := fun _ => claim_cell_ne d held
    permitless := fun _ => claim_cell d held }

theorem claimed (hhand : d.hand = .claiming reason held) : (d.claimed reason held).Tracked := by
  have hone := h.sound.one
  rw [hhand] at hone
  cases reason with
  | closeAccepted =>
    rw [h.claiming_route hhand (by decide)] at hone
    by_cases hdelivered : d.delivered = true
    · have hbranch : (d.claimed .closeAccepted held) =
          { d with
            toHandover := d.toHandover.claim held.toNat
            hand := .idle, route := .established, selected := none, work := true } :=
        if_pos hdelivered
      rw [hbranch]
      exact h.claimFindsDelivered hhand hdelivered
    · have hbranch : (d.claimed .closeAccepted held) =
          { d with
            toHandover := { d.toHandover.claim held.toNat with closed := true }
            hand := .idle, route := .closing } :=
        if_neg hdelivered
      rw [hbranch]
      apply h.claimCloses hhand (by decide)
      -- nobody has taken the connection, so its handle was withdrawn just now
      have htaken : d.taken ≠ 1 := fun htaken => hdelivered (h.marked htaken)
      right; right; right
      simp only [AcceptRoute.handles, handles] at hone
      omega
  | peerTerminal => exact h.claimCloses hhand (by decide) (.inl rfl)
  | prepareClose =>
    apply h.claimCloses hhand (by decide)
    have hfits := h.handFits
    rw [hhand] at hfits
    rcases hfits.2 with howner | hshutdown | hdropped
    · exact .inr (.inl howner)
    · exact .inr (.inr (.inl hshutdown))
    · right; right; right
      simp only [handles] at hone
      omega
  | terminalize => exact h.claimTerminalizes hhand

theorem resume (hstep : d.resume = some after) : after.Tracked := by
  unfold AcceptDelivery.resume at hstep
  split at hstep
  · cases hstep
  · next hhand =>
    cases hstep
    exact h.completes hhand
  · next hhand =>
    obtain ⟨_, hselected, rfl⟩ := Option.map_eq_some_iff.mp hstep
    exact h.observe hhand hselected
  · next hhand =>
    cases hstep
    exact h.claimed hhand

theorem terminalizes (hhand : d.hand = .idle) (hterminal : d.terminal = true)
    (hpermit : d.permit = true) : { d with hand := .claiming .terminalize false }.Tracked :=
  { h with
    sound := h.sound_at (by rw [hhand]; rfl)
    handFits := ⟨h.ready_route (.inl hhand), rfl, hterminal, hpermit⟩
    pending := fun _ => .inr (.inl hterminal) }

theorem retire (hstep : d.step .retire = some after) : after.Tracked := by
  obtain ⟨⟨hhand, hclosed⟩, hstep⟩ := Option.ite_none_right_eq_some.mp hstep
  have hretires : ∀ {selected : Option Bool} {work : Bool},
      d.route = .established ∨ d.route = .closing →
      { d with route := .retired, selected, work }.Tracked := by
    intro selected work hroute
    exact { h with
      sound := h.sound_at (by rcases hroute with hroute | hroute <;> rw [hroute] <;> rfl)
      routeFits := hclosed
      handFits := by
        rw [hhand]
        nofun
      started := fun _ => .inl hclosed
      unselected := fun _ => .inl hclosed
      pending := fun _ => .inl hclosed }
  split at hstep
  · next hroute =>
    cases hstep
    exact hretires (.inl hroute)
  · next hroute =>
    cases hstep
    exact hretires (.inr hroute)
  all_goals cases hstep

theorem popsClose : { d with closeControl := false }.Tracked :=
  { h with sound := h.sound.popsClose }

theorem step {label : AcceptDeliveryLabel} (hstep : d.step label = some after) : after.Tracked := by
  cases label with
  | poll =>
    obtain ⟨hwaiter, rfl⟩ := of_guard hstep
    exact h.poll hwaiter
  | markDelivered =>
    obtain ⟨hwaiter, rfl⟩ := of_guard hstep
    exact h.markDelivered hwaiter _
  | dropFlag =>
    obtain ⟨hwaiter, rfl⟩ := of_guard hstep
    exact h.dropFlag hwaiter
  | dropCancel =>
    obtain ⟨hwaiter, rfl⟩ := of_guard hstep
    exact h.dropCancel hwaiter
  | dropNotify =>
    obtain ⟨hwaiter, rfl⟩ := of_guard hstep
    exact h.dropNotify hwaiter
  | ownerClose =>
    obtain ⟨_, rfl⟩ := of_guard hstep
    exact h.ownerClose
  | establishedEvent =>
    obtain ⟨hguard, hstep⟩ := Option.ite_none_right_eq_some.mp hstep
    split at hstep
    · cases hstep
      exact h.withdraws (.inl hguard.1) (.inl ⟨hguard.2, rfl⟩) id rfl
    · cases hstep
      exact h.establish hguard.1 hguard.2
  | terminalEvent => exact h.terminalEvent hstep
  | closeConnection =>
    obtain ⟨⟨hhand, _, hasked⟩, rfl⟩ := of_guard hstep
    apply h.popsClose.beginClose hhand
    exact (h.sound.closeAsked hasked).imp id .inr
  | shutdownConnection =>
    obtain ⟨⟨hhand, _, hshutdown⟩, rfl⟩ := of_guard hstep
    exact h.beginClose hhand (.inr (.inl hshutdown))
  | service =>
    obtain ⟨⟨hhand, _⟩, rfl⟩ := of_guard hstep
    exact h.serviced hhand
  | dropService =>
    obtain ⟨⟨hhand, _⟩, rfl⟩ := of_guard hstep
    exact h.serviced hhand
  | requestWork =>
    cases hstep
    exact h.requestWork d.listenerClosing
  | closeListener =>
    cases hstep
    exact h.requestWork true
  | terminalize =>
    obtain ⟨⟨hhand, hterminal, _, hpermit⟩, rfl⟩ := of_guard hstep
    exact h.terminalizes hhand hterminal hpermit
  | retire => exact h.retire hstep
  | requestShutdown =>
    cases hstep
    exact h.shuts id
  | engineFails =>
    cases hstep
    exact h.shuts fun _ => rfl
  | driverDrop =>
    obtain ⟨⟨_, hterminal⟩, rfl⟩ := of_guard hstep
    exact { h with sound := h.sound.driverDrop hterminal }
  | resume => exact h.resume hstep

/-! ### The steps that are due -/

theorem beginClose_falls (hhand : d.hand = .idle) :
    d.beginClose.rank < d.rank ∨ d.beginClose = d ∧ d.closed = true := by
  unfold AcceptDelivery.beginClose
  split
  case h_4 hroute => exact .inr ⟨h.closes_again (.inl hroute), h.closed_of_route (.inl hroute)⟩
  case h_5 hroute => exact absurd hroute (h.ready_route (.inl hhand))
  case h_6 hroute => exact .inr ⟨h.closes_again (.inr hroute), h.closed_of_route (.inr hroute)⟩
  all_goals
    next hroute =>
      left
      simp only [rank, hroute, hhand, AcceptRoute.rank, AcceptHand.rank]
      omega

theorem claimed_falls (hhand : d.hand = .claiming reason held) :
    (d.claimed reason held).rank < d.rank := by
  have hasked := Bool.toNat_le (d.toHandover.claim held.toNat).closeControl
  have hwork := Bool.toNat_le d.work
  have hwaiter : (d.toHandover.claim held.toNat).waiter = d.waiter := rfl
  cases reason with
  | terminalize =>
    obtain ⟨_, _, _, hpermit⟩ := h.terminalizing hhand
    simp only [AcceptDelivery.claimed, rank, hhand, hpermit, hwaiter, AcceptHand.rank,
      Bool.toNat_true, Bool.toNat_false]
    omega
  | closeAccepted =>
    have hroute := h.claiming_route hhand (by decide)
    simp only [AcceptDelivery.claimed]
    split <;> simp only [rank, hhand, hroute, hwaiter, AcceptHand.rank, AcceptRoute.rank,
      Bool.toNat_true] <;> omega
  | peerTerminal | prepareClose =>
    have hroute := h.claiming_route hhand (by decide)
    simp only [AcceptDelivery.claimed, rank, hhand, hroute, hwaiter, AcceptHand.rank,
      AcceptRoute.rank]
    omega

theorem resume_falls (hstep : d.resume = some after) : after.rank < d.rank := by
  unfold AcceptDelivery.resume at hstep
  split at hstep
  · cases hstep
  · next hhand =>
    cases hstep
    have hasked := Bool.toNat_le d.toHandover.completeOk.closeControl
    simp only [rank, hhand, Handover.completeOk_kept.1, AcceptHand.rank]
    omega
  · next hhand =>
    obtain ⟨_, _, rfl⟩ := Option.map_eq_some_iff.mp hstep
    have hcancel := cancelRoute_falls (.inr hhand)
    have hobserving : d.hand.rank = 2 := by
      rw [hhand]
      rfl
    unfold AcceptDelivery.observe
    split
    · omega
    · simp only [rank, hhand, AcceptHand.rank]
      omega
  · next hhand =>
    cases hstep
    exact h.claimed_falls hhand

/-- A due step lowers the rank, or it changes nothing: a poll without a result, or the
shutdown of a connection that is closed. -/
theorem falls {label : AcceptDeliveryLabel} (hdue : label ∈ AcceptDeliveryLabel.due)
    (hstep : d.step label = some after) :
    after.rank < d.rank ∨ after = d ∧ (label = .poll ∧ d.toHandover.Quiet ∨
      label = .shutdownConnection ∧ d.closed = true) := by
  simp only [AcceptDeliveryLabel.due, List.mem_cons, List.not_mem_nil, or_false] at hdue
  rcases hdue with rfl | rfl | rfl | rfl | rfl | rfl | rfl | rfl | rfl
  · obtain ⟨hwaiter, rfl⟩ := of_guard hstep
    rcases Handover.poll_falls hwaiter true with ⟨hlt, hasked, _⟩ | ⟨hsame, hquiet⟩
    · left
      simp only [rank, hasked]
      omega
    · exact .inr ⟨by rw [hsame], .inl ⟨rfl, hquiet⟩⟩
  · obtain ⟨hwaiter, rfl⟩ := of_guard hstep
    left
    have hwork := Bool.toNat_le (d.work || d.requestAlive)
    simp only [rank, hwaiter, WaiterPhase.rank]
    omega
  · obtain ⟨hwaiter, rfl⟩ := of_guard hstep
    left
    simp only [rank, hwaiter, WaiterPhase.rank]
    omega
  · obtain ⟨hwaiter, rfl⟩ := of_guard hstep
    left
    have hwork := Bool.toNat_le (d.work || d.requestAlive)
    simp only [rank, hwaiter, WaiterPhase.rank]
    omega
  · obtain ⟨⟨hhand, _, hasked⟩, rfl⟩ := of_guard hstep
    left
    have hpopped : { d with closeControl := false }.rank + 1 = d.rank := by
      simp only [rank, hasked, Bool.toNat_true, Bool.toNat_false]
    rcases h.popsClose.beginClose_falls hhand with hlt | ⟨hsame, _⟩
    · omega
    · rw [hsame]
      omega
  · obtain ⟨⟨hhand, _⟩, rfl⟩ := of_guard hstep
    exact (h.beginClose_falls hhand).imp_right fun hidle => ⟨hidle.1, .inr ⟨rfl, hidle.2⟩⟩
  · obtain ⟨⟨hhand, _, hwork⟩, rfl⟩ := of_guard hstep
    exact .inl (serviced_falls hhand hwork)
  · obtain ⟨⟨hhand, _, _, _⟩, rfl⟩ := of_guard hstep
    left
    simp only [rank, hhand, AcceptHand.rank]
    omega
  · exact .inl (h.resume_falls hstep)

section

variable (hrest : d.AtRest)

include hrest

theorem rest_blocked (label : AcceptDeliveryLabel) (hlabel : label ∈ AcceptDeliveryLabel.due ∧
    label ≠ .poll ∧ label ≠ .shutdownConnection) (hstep : d.step label = some after) : False := by
  rcases (hrest.idle hlabel.1 hstep (h.falls hlabel.1 hstep)).2 with ⟨heq, _⟩ | ⟨heq, _⟩
  · exact hlabel.2.1 heq
  · exact hlabel.2.2 heq

theorem rest_hand : d.hand = .idle := by
  by_contra hhand
  have hsome : ∃ after, d.resume = some after := by
    have hfits := h.handFits
    cases hd : d.hand with
    | idle => exact absurd hd hhand
    | observing =>
      rw [hd] at hfits
      obtain ⟨started, hselected⟩ := Option.ne_none_iff_exists'.mp hfits.2
      exact ⟨d.observe started, by simp [AcceptDelivery.resume, hd, hselected]⟩
    | completing => exact ⟨_, by rw [AcceptDelivery.resume, hd]⟩
    | claiming => exact ⟨_, by rw [AcceptDelivery.resume, hd]⟩
  obtain ⟨_, hstep⟩ := hsome
  exact h.rest_blocked hrest .resume (by decide) hstep

theorem rest_quiet : d.toHandover.Quiet := by
  cases hwaiter : d.waiter with
  | finished => exact .inl hwaiter
  | dropped => exact .inr (.inl hwaiter)
  | waiting =>
    have hstep : d.step .poll = some _ := if_pos hwaiter
    rcases (hrest.idle (by decide) hstep (h.falls (by decide) hstep)).2 with ⟨_, hquiet⟩ | ⟨heq, _⟩
    · exact hquiet
    · cases heq
  | took => exact (h.rest_blocked hrest .markDelivered (by decide) (if_pos hwaiter)).elim
  | flagged => exact (h.rest_blocked hrest .dropCancel (by decide) (if_pos hwaiter)).elim
  | cancelled => exact (h.rest_blocked hrest .dropNotify (by decide) (if_pos hwaiter)).elim

/-- A dropped accept at rest: its success was withdrawn, by the close of the connection or
by the failure of the engine. -/
theorem dropped_cell (hwaiter : d.waiter = .dropped) : d.cell ≠ .ok := by
  have hhand := h.rest_hand hrest
  have hfailed : d.terminal = true → d.cell ≠ .ok := fun hterminal => by
    by_cases hselected : d.selected.isSome = true
    · by_cases hpermit : d.permit = true
      · exact (h.rest_blocked hrest .terminalize (by decide)
          (if_pos ⟨hhand, hterminal, hselected, hpermit⟩)).elim
      · rcases h.permitless (Bool.eq_false_iff.mpr hpermit) with hcell | hcell <;>
          rw [hcell] <;> decide
    · apply h.closedCell
      exact h.closed_of_untaken (.inl (by simpa using hselected)) (by rw [hwaiter]; decide)
        (by rw [hwaiter]; decide)
  rcases h.pending hwaiter with hclosed | hterminal | hwork | hobserving | hroute
  · exact h.closedCell hclosed
  · exact hfailed hterminal
  · by_cases hgone : d.gone = true
    · exact hfailed (h.sound.stopping (h.sound.gone hgone))
    · exact (h.rest_blocked hrest .service (by decide)
        (if_pos ⟨hhand, Bool.eq_false_iff.mpr hgone, hwork⟩)).elim
  · rw [hhand] at hobserving
    cases hobserving
  · exact absurd hroute (h.ready_route (.inl hhand))

theorem rest_cell : d.cell ≠ .ok := by
  rcases h.rest_quiet hrest with hwaiter | hwaiter | ⟨_, hcell | hcell⟩
  · rw [h.sound.tookCell (.inr hwaiter)]
    decide
  · exact h.dropped_cell hrest hwaiter
  all_goals
    rw [hcell]
    decide

/-- A handle that was dropped belongs to a connection that the engine has closed, or that
the drop of the driver has stopped. -/
theorem rest_over (hdropped : d.dropped = 1) : d.closed = true ∨ d.stopped = true := by
  rcases h.failed (.inr (.inr hdropped)) with hclosed | hterminal
  · exact .inl hclosed
  · by_cases hgone : d.gone = true
    · exact .inr (h.sound.gone hgone)
    · have hstep : d.step .shutdownConnection = some _ :=
        if_pos ⟨h.rest_hand hrest, Bool.eq_false_iff.mpr hgone, h.sound.failed hterminal⟩
      rcases (hrest.idle (by decide) hstep (h.falls (by decide) hstep)).2 with ⟨heq, _⟩ | ⟨_, hclosed⟩
      · cases heq
      · exact .inl hclosed

end

theorem resolved : d.toHandover.Resolved d.AtRest where
  once := h.sound.taken_le
  kept := h.sound.kept
  settled hrest hestablished := by
    have hhandles : d.route.handles = 0 := by
      have hfits := h.routeFits
      unfold RouteFits at hfits
      cases hr : d.route <;> first | rfl | (rw [hr, hestablished] at hfits; cases hfits.2)
    have hsound : d.toHandover.Sound 0 := h.sound_at (by rw [hhandles, h.rest_hand hrest]; rfl)
    exact hsound.settled (h.rest_cell hrest) (h.rest_over hrest)

theorem settles : Machine.Settles AcceptDelivery.step AcceptDeliveryLabel.due rank
    (fun rest => rest.toHandover.Settled) d :=
  Machine.settles (fun _ _ _ hinv _ hstep => hinv.step hstep)
    (fun _ _ _ hinv hdue hstep => (hinv.falls hdue hstep).imp id And.left)
    (fun _ hinv hrest => hinv.resolved.settled hrest) h

end Tracked

end AcceptDelivery

end RdmaIo.Engine
