/-
A listener of the engine: the accept requests waiting for a connection, the incoming
children waiting for a request, and the one pair that is being set up.  Whether a
request was cancelled or its connection taken is known to the frontend only, so both
are arguments of the functions that read them.
-/
import RdmaIo.Engine.Connection

namespace RdmaIo.Engine

open SlotRegistry

/-- An incoming child, named by the slot of its route. -/
structure IncomingChild where
  route : ConnectionToken
deriving Repr, DecidableEq

inductive SelectedAccept where
  | ready (request : RequestId) (child : IncomingChild)
  | processing (request : RequestId)
  | routed (request : RequestId) (route : ConnectionToken) (cancelStarted : Bool)
deriving Repr, DecidableEq

def SelectedAccept.request : SelectedAccept → RequestId
  | .ready request _ | .processing request | .routed request _ _ => request

structure ListenerQueues where
  waiters : List RequestId
  children : List IncomingChild
  selected : Option SelectedAccept
deriving Repr, DecidableEq

/-- Pair the oldest waiter with the oldest child when no pair is selected. -/
def selectPair (cancelled : RequestId → Bool) (queues : ListenerQueues) : ListenerQueues :=
  match queues.selected, queues.waiters, queues.children with
  | none, request :: waiters, child :: children =>
    if cancelled request then queues
    else ⟨waiters, children, some (.ready request child)⟩
  | _, _, _ => queues

/-- `permits` are the requests that still hold a permit of the accept admission and
`open_` its flag, which the frontend clears as well; `outcome` is the memoized result
of the close. -/
structure ListenerEntry where
  backlog : Nat
  queues : ListenerQueues
  childSlotsUsed : Nat
  closing : Bool
  finalizationStarted : Bool
  failure : Option Error
  outcome : Option (Except Error Unit)
  open_ : Bool
  permits : List RequestId

inductive ListenerAction where
  | cancelledBeforeSelection (request : RequestId)
  | failUnselected (request : RequestId)
  | rejectChild (child : IncomingChild) (reason : InboundRejectReason)
  | processSelected (request : RequestId) (child : IncomingChild)
  | rejectSelected (request : RequestId) (child : IncomingChild) (reason : Error)
  | cancelAfterAccept (request : RequestId) (route : ConnectionToken)
  | acknowledgeDelivery (request : RequestId) (route : ConnectionToken)
  | finalizeClose
  | none
deriving DecidableEq

namespace ListenerEntry

def creating (backlog : Nat) : ListenerEntry where
  backlog := backlog
  queues := ⟨[], [], .none⟩
  childSlotsUsed := 0
  closing := false
  finalizationStarted := false
  failure := .none
  outcome := .none
  open_ := true
  permits := []

variable (l : ListenerEntry)

def isClosing : Bool := l.closing || !l.open_

def closeError : Error := l.failure.getD .transportClosed

def releasePermit (request : RequestId) : ListenerEntry :=
  { l with permits := l.permits.filter (· ≠ request) }

variable (cancelled : RequestId → Bool)

/-- Queue an accept request, which holds one of the backlog permits. -/
def registerWaiter (request : RequestId) : Except Error ListenerEntry :=
  if l.isClosing then .error l.closeError
  else .ok { l with
    permits := l.permits ++ [request]
    queues := selectPair cancelled { l.queues with waiters := l.queues.waiters ++ [request] } }

def admitChild (child : IncomingChild) : Option InboundRejectReason × ListenerEntry :=
  if l.isClosing then (some .listenerClosed, l)
  else if l.childSlotsUsed ≥ l.backlog then (some .backlogFull, l)
  else (.none, { l with
    childSlotsUsed := l.childSlotsUsed + 1
    queues := selectPair cancelled { l.queues with children := l.queues.children ++ [child] } })

/-- The action of a closing listener that has no cancelled waiter in front. -/
def nextClosingAction : ListenerAction × ListenerEntry :=
  match l.queues.waiters, l.queues.children with
  | request :: waiters, _ =>
    (.failUnselected request,
      { l with queues := { l.queues with waiters := waiters } }.releasePermit request)
  | [], child :: children =>
    (.rejectChild child .listenerClosed,
      { l with queues := { l.queues with children := children } })
  | [], [] =>
    match l.queues.selected with
    | some (.ready request child) =>
      (.rejectSelected request child l.closeError,
        { l with queues := { l.queues with selected := some (.processing request) } })
    | some (.routed request route cancelStarted) =>
      (if cancelStarted then .none else .cancelAfterAccept request route,
        { l with queues :=
            { l.queues with selected := some (.routed request route true) } })
    | some (.processing _) => (.none, l)
    | .none =>
      if l.finalizationStarted then (.none, l)
      else (.finalizeClose, { l with finalizationStarted := true })

/-- The action of an open listener that has no cancelled waiter in front. -/
def nextOpenAction : ListenerAction × ListenerEntry :=
  let queues := selectPair cancelled l.queues
  let l := { l with queues := queues }
  match queues.selected with
  | some (.ready request child) =>
    (.processSelected request child,
      { l with queues := { queues with selected := some (.processing request) } })
  | some (.routed request route false) =>
    if cancelled request then
      (.cancelAfterAccept request route,
        { l with queues := { queues with selected := some (.routed request route true) } })
    else (.none, l)
  | some (.routed _ _ true) | some (.processing _) | .none => (.none, l)

/-- What remains of `next_action` when no accepted route asks for attention. -/
def nextQueuedAction : ListenerAction × ListenerEntry :=
  match l.queues.waiters with
  | request :: waiters =>
    if cancelled request then
      (.cancelledBeforeSelection request,
        { l with queues := { l.queues with waiters := waiters } }.releasePermit request)
    else if l.isClosing then l.nextClosingAction
    else l.nextOpenAction cancelled
  | [] => if l.isClosing then l.nextClosingAction else l.nextOpenAction cancelled

def nextAction (cancelled delivered : RequestId → Bool) : ListenerAction × ListenerEntry :=
  match l.queues.selected with
  | some (.routed request route cancelStarted) =>
    -- A delivered connection wins over a close that is seen at the same time.
    if delivered request then (.acknowledgeDelivery request route, l)
    else if l.isClosing || cancelled request then
      if cancelStarted then (.none, l)
      else (.cancelAfterAccept request route,
        { l with queues := { l.queues with selected := some (.routed request route true) } })
    else l.nextQueuedAction cancelled
  | some (.ready ..) | some (.processing _) | .none => l.nextQueuedAction cancelled

/-- `route_selected` for the request whose pair is being processed. -/
def routeSelected (request : RequestId) (route : ConnectionToken) : Except Error ListenerEntry :=
  match l.queues.selected with
  | some (.processing current) =>
    if current = request then
      .ok { l with queues := { l.queues with selected := some (.routed request route false) } }
    else .error (.invalidConfig "listener selected pair changed during setup")
  | some _ => .error (.invalidConfig "listener selected pair changed during setup")
  | .none => .error (.invalidConfig "listener lost its selected pair during setup")

def releaseChildSlot : ListenerEntry :=
  { l with childSlotsUsed := l.childSlotsUsed - 1 }

/-- Resolve the selected pair if it satisfies the predicate, and say if it did. -/
def finishSelectedIf (matches_ : SelectedAccept → Bool) : Bool × ListenerEntry :=
  match l.queues.selected with
  | some selected =>
    if matches_ selected then
      let l := (l.releasePermit selected.request).releaseChildSlot
      (true, { l with queues := selectPair cancelled { l.queues with selected := .none } })
    else (false, l)
  | .none => (false, l)

def finishSelectedRequest (request : RequestId) : Bool × ListenerEntry :=
  l.finishSelectedIf cancelled fun selected => selected.request == request

def finishSelectedRoute (route : ConnectionToken) : Bool × ListenerEntry :=
  l.finishSelectedIf cancelled fun
    | .routed _ current _ => current == route
    | .ready .. | .processing _ => false

/-- True if the selected route was not closing before. -/
def markSelectedRouteClosing (route : ConnectionToken) : Bool × ListenerEntry :=
  match l.queues.selected with
  | some (.routed request current cancelStarted) =>
    if current = route then
      (!cancelStarted,
        { l with queues := { l.queues with selected := some (.routed request current true) } })
    else (false, l)
  | some (.ready ..) | some (.processing _) | .none => (false, l)

def requestClose : Bool × ListenerEntry :=
  if l.closing then (false, l) else (true, { l with closing := true, open_ := false })

def fail (error : Error) : Bool × ListenerEntry :=
  { l with failure := l.failure <|> some error, open_ := false }.requestClose

/-- Pop up to a number of waiters, each of which gives its permit back. -/
def popWaiters : Nat → ListenerEntry → List RequestId × ListenerEntry
  | 0, l => ([], l)
  | budget + 1, l =>
    match l.queues.waiters with
    | [] => ([], l)
    | request :: waiters =>
      let rest := popWaiters budget
        ({ l with queues := { l.queues with waiters := waiters } }.releasePermit request)
      (request :: rest.1, rest.2)

/-- Fail the waiters of a listener whose engine has failed, and the request of its
selected pair when the budget is not used up; the requests that it completes. -/
def terminalizeWaiters (error : Error) (budget : Nat) : List RequestId × ListenerEntry :=
  let l := { l with open_ := false }.requestClose.2
  let l := { l with outcome := l.outcome <|> some (.error error) }
  let popped := popWaiters budget l
  match popped.2.queues.selected with
  | some selected =>
    if popped.1.length < budget ∧ selected.request ∈ popped.2.permits then
      (popped.1 ++ [selected.request], popped.2.releasePermit selected.request)
    else popped
  | .none => popped

end ListenerEntry

end RdmaIo.Engine
