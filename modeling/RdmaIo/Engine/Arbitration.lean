/-
Arbitration of a listener: the accept requests of its frontends, the children that
connect requests bring, and the pairs made of them.

The accept permits are counted from the frontend that acquires one, through the command
queue and the listener, until the request gives it back.  An action that the listener has
chosen stays in `hand` while the reactor executes it, so that a rejection in progress is
a state of its own; the outcome of setting a pair up is an input of the execution.
-/
import RdmaIo.Engine.Listener
import RdmaIo.Lib.Run
import Mathlib.Data.List.Perm.Subperm

namespace RdmaIo.Engine

open List
open SlotRegistry

/-- How a waiter was resolved. -/
inductive WaiterEnd where
  | cancelled
  | failed
  | paired
deriving Repr, DecidableEq

/-- How a child was resolved. -/
inductive ChildEnd where
  | rejected
  | failed
  | paired
deriving Repr, DecidableEq

structure AcceptSystem where
  entry : ListenerEntry
  /-- Accept commands that the reactor has not executed. -/
  ingress : List RequestId
  cancelled : List RequestId
  delivered : List RequestId
  /-- The action being executed, `none` between two services. -/
  hand : ListenerAction
  /-- Requests that acquired a permit, and those that gave theirs back. -/
  granted : List RequestId
  returned : List RequestId
  /-- Requests that became waiters, and those that left with their end. -/
  registered : List RequestId
  left : List (RequestId × WaiterEnd)
  /-- Requests whose result was set. -/
  completed : List RequestId
  /-- Children that arrived, and those that left with their end. -/
  arrived : List IncomingChild
  ended : List (IncomingChild × ChildEnd)

/-- What became of a pair whose setup the reactor runs: its child is rejected before it
has a route, it gets a route, it gets a route and fails, or the engine fails. -/
inductive PairOutcome where
  | rejects
  | routes
  | failsRouted
  | errs
deriving Repr, DecidableEq

inductive AcceptLabel where
  | accept (request : RequestId)
  | cancel (request : RequestId)
  | withdraw (request : RequestId)
  | admitAccept
  | connectRequest (child : IncomingChild)
  | service
  | execute (outcome : PairOutcome)
  | establish
  | deliver (request : RequestId)
  | routeCloses
  | routeEnds
  | close
  | closeAdmission
  | fail (error : Error)
  | terminalize (error : Error) (budget : Nat)

namespace AcceptSystem

def init (backlog : Nat) : AcceptSystem where
  entry := ListenerEntry.creating backlog
  ingress := []
  cancelled := []
  delivered := []
  hand := .none
  granted := []
  returned := []
  registered := []
  left := []
  completed := []
  arrived := []
  ended := []

variable (sys : AcceptSystem) (request : RequestId)

def isCancelled : Bool :=
  request ∈ sys.cancelled

def isDelivered : Bool :=
  request ∈ sys.delivered

/-- Store the listener after a call, with the permits that the call gave back. -/
def withEntry (entry : ListenerEntry) : AcceptSystem :=
  { sys with
    entry
    returned := sys.returned ++ sys.entry.permits.filter (· ∉ entry.permits) }

/-- Set the result of a request that has none. -/
def complete : AcceptSystem :=
  { sys with completed := sys.completed.insert request }

def leaves (how : WaiterEnd) : AcceptSystem :=
  { sys.complete request with left := sys.left ++ [(request, how)] }

variable (child : IncomingChild)

def ends (how : ChildEnd) : AcceptSystem :=
  { sys with ended := sys.ended ++ [(child, how)] }

/-- The pair of a route that is over leaves the listener. -/
def finishRoute (route : ConnectionToken) (waiter : WaiterEnd) (child : ChildEnd) : AcceptSystem :=
  let sys := (sys.leaves request waiter).ends ⟨route⟩ child
  sys.withEntry (sys.entry.finishSelectedRoute sys.isCancelled route).2

/-- The pair of a request that got no route leaves the listener. -/
def finishRequest : AcceptSystem :=
  let sys := (sys.leaves request .failed).ends child .rejected
  sys.withEntry (sys.entry.finishSelectedRequest sys.isCancelled request).2

/-- What `process_selected_pair` does to the listener. -/
def processSelected : PairOutcome → Option AcceptSystem
  | .rejects => some (sys.finishRequest request child)
  | .errs => some (sys.ends child .failed)
  | .routes =>
    match sys.entry.routeSelected request child.route with
    | .ok entry => some (sys.withEntry entry)
    | .error _ => none
  | .failsRouted =>
    match sys.entry.routeSelected request child.route with
    | .ok entry =>
      some ((sys.withEntry entry).finishRoute request child.route .failed .failed)
    | .error _ => none

/-- Execute the action in hand. -/
def execute (outcome : PairOutcome) : Option AcceptSystem :=
  let idle := { sys with hand := .none }
  match sys.hand with
  | .cancelledBeforeSelection request => some (idle.leaves request .cancelled)
  | .failUnselected request => some (idle.leaves request .failed)
  | .rejectChild child _ =>
    some ((idle.ends child .rejected).withEntry sys.entry.releaseChildSlot)
  | .processSelected request child => idle.processSelected request child outcome
  | .rejectSelected request child _ => some (idle.finishRequest request child)
  | .acknowledgeDelivery request route =>
    if outcome = .routes then some (idle.finishRoute request route .paired .paired)
    else some (idle.withEntry (sys.entry.markSelectedRouteClosing route).2)
  | .cancelAfterAccept _ _ | .finalizeClose => some idle
  | .none => none

def step : AcceptLabel → Option AcceptSystem
  | .accept request =>
    if request ∉ sys.granted ∧ sys.entry.open_ = true ∧
        sys.ingress.length + sys.entry.permits.length < sys.entry.backlog then
      some { sys with
        ingress := sys.ingress ++ [request], granted := sys.granted ++ [request] }
    else none
  | .cancel request =>
    if request ∈ sys.granted then some { sys with cancelled := request :: sys.cancelled }
    else none
  -- after the flag is set, a command that is still queued is removed with its permit
  | .withdraw request =>
    if request ∈ sys.cancelled ∧ request ∈ sys.ingress then
      some { sys with
        ingress := sys.ingress.erase request
        returned := sys.returned ++ [request] }
    else none
  | .admitAccept =>
    match sys.hand, sys.ingress with
    | .none, request :: ingress =>
      match sys.entry.registerWaiter sys.isCancelled request with
      | .ok entry =>
        some { sys with entry, ingress, registered := sys.registered ++ [request] }
      | .error _ =>
        some ({ sys with ingress, returned := sys.returned ++ [request] }.complete request)
    | _, _ => none
  | .connectRequest child =>
    if sys.hand = .none ∧ child ∉ sys.arrived then
      let admission := sys.entry.admitChild sys.isCancelled child
      let sys := { sys with arrived := sys.arrived ++ [child] }
      match admission.1 with
      | none => some { sys with entry := admission.2 }
      | some _ => some (sys.ends child .rejected)
    else none
  | .service =>
    if sys.hand = .none then
      let next := sys.entry.nextAction sys.isCancelled sys.isDelivered
      some { sys.withEntry next.2 with hand := next.1 }
    else none
  | .execute outcome => sys.execute outcome
  | .establish =>
    match sys.hand, sys.entry.queues.selected with
    | .none, some (.routed request _ _) => some (sys.complete request)
    | _, _ => none
  | .deliver request =>
    if request ∈ sys.completed then
      some { sys with delivered := request :: sys.delivered }
    else none
  | .routeCloses =>
    match sys.hand, sys.entry.queues.selected with
    | .none, some (.routed _ route _) =>
      some { sys with entry := (sys.entry.markSelectedRouteClosing route).2 }
    | _, _ => none
  | .routeEnds =>
    match sys.hand, sys.entry.queues.selected with
    | .none, some (.routed request route _) =>
      some (sys.finishRoute request route
        (if request ∈ sys.delivered then .paired else .failed) .paired)
    | _, _ => none
  | .close => some { sys with entry := sys.entry.requestClose.2 }
  | .closeAdmission => some { sys with entry := { sys.entry with open_ := false } }
  | .fail error => some { sys with entry := (sys.entry.fail error).2 }
  | .terminalize error budget =>
    if sys.hand = .none then
      let popped := sys.entry.terminalizeWaiters error budget
      -- a request still selected stays in the listener until its pair ends
      let out := popped.1.filter (· ∈ sys.entry.queues.waiters)
      let done := popped.1.foldl complete (sys.withEntry popped.2)
      some { done with left := sys.left ++ out.map fun request => (request, .failed) }
    else none

/-! ### What the listener holds -/

end AcceptSystem

def SelectedAccept.child : SelectedAccept → List IncomingChild
  | .ready _ child => [child]
  | .routed _ route _ => [⟨route⟩]
  | .processing _ => []

/-- The request that an action in hand took from the waiters. -/
def ListenerAction.requests : ListenerAction → List RequestId
  | .cancelledBeforeSelection request | .failUnselected request => [request]
  | _ => []

/-- The child that an action in hand took from the listener. -/
def ListenerAction.children : ListenerAction → List IncomingChild
  | .rejectChild child _ | .processSelected _ child | .rejectSelected _ child _ => [child]
  | _ => []

/-- Rejections of queued children in progress. -/
def ListenerAction.rejecting : ListenerAction → Nat
  | .rejectChild _ _ => 1
  | _ => 0

namespace ListenerQueues

variable (q : ListenerQueues)

def request : List RequestId :=
  (q.selected.map SelectedAccept.request).toList

def child : List IncomingChild :=
  q.selected.elim [] SelectedAccept.child

/-- Requests in the listener, oldest first. -/
def line : List RequestId := q.request ++ q.waiters

/-- Children in the listener, oldest first. -/
def shelf : List IncomingChild := q.child ++ q.children

/-- Child slots that the queues account for. -/
def slots : Nat := q.children.length + q.request.length

end ListenerQueues

def SelectedAccept.pair : SelectedAccept → Option (RequestId × IncomingChild)
  | .ready request child => some (request, child)
  | .routed request route _ => some (request, ⟨route⟩)
  | .processing _ => none

/-- The selected pair, or the one that an action in hand has taken. -/
def ListenerAction.pair (action : ListenerAction) (selected : Option SelectedAccept) :
    Option (RequestId × IncomingChild) :=
  match action with
  | .processSelected request child | .rejectSelected request child _ =>
    some (request, child)
  | _ => selected.bind SelectedAccept.pair

open ListenerAction (requests rejecting)

namespace AcceptSystem

variable (sys : AcceptSystem)

/-- Requests that the listener has not resolved, oldest first. -/
def line : List RequestId :=
  sys.entry.queues.request ++ sys.hand.requests ++ sys.entry.queues.waiters

/-- Children that the listener has not resolved, oldest first. -/
def shelf : List IncomingChild :=
  sys.entry.queues.child ++ sys.hand.children ++ sys.entry.queues.children

/-- The selected pair, also while the reactor sets it up or rejects it. -/
def pair : Option (RequestId × IncomingChild) :=
  sys.hand.pair sys.entry.queues.selected

end AcceptSystem

/-! ### The functions of the listener -/

section

variable (cancelled : RequestId → Bool) (q : ListenerQueues)

theorem selectPair_cases : selectPair cancelled q = q ∨
      ∃ r ws c cs, q = ⟨r :: ws, c :: cs, none⟩ ∧ cancelled r = false ∧
        selectPair cancelled q = ⟨ws, cs, some (.ready r c)⟩ := by
  obtain ⟨waiters, children, selected⟩ := q
  cases selected with
  | some => exact .inl rfl
  | none =>
    cases waiters with
    | nil => exact .inl rfl
    | cons r ws =>
      cases children with
      | nil => exact .inl rfl
      | cons c cs =>
        cases hr : cancelled r with
        | true => exact .inl (by simp [selectPair, hr])
        | false => exact .inr ⟨r, ws, c, cs, rfl, hr, by simp [selectPair, hr]⟩

@[simp] theorem selectPair_line : (selectPair cancelled q).line = q.line := by
  obtain h | ⟨r, _, c, _, rfl, _, h⟩ := selectPair_cases cancelled q
  · rw [h]
  · rw [h]; rfl

@[simp] theorem selectPair_shelf : (selectPair cancelled q).shelf = q.shelf := by
  obtain h | ⟨r, _, c, _, rfl, _, h⟩ := selectPair_cases cancelled q
  · rw [h]
  · rw [h]; rfl

theorem selectPair_waiters : (selectPair cancelled q).waiters.Sublist q.waiters := by
  obtain heq | ⟨r, _, c, _, rfl, _, heq⟩ := selectPair_cases cancelled q
  · rw [heq]
  · rw [heq]
    exact sublist_cons_self _ _

@[simp] theorem selectPair_slots : (selectPair cancelled q).slots = q.slots := by
  obtain heq | ⟨r, _, c, _, rfl, _, heq⟩ := selectPair_cases cancelled q
  · rw [heq]
  · rw [heq]; rfl

end

/-- A pair stays as it is, or one is made where there was none, of a request that was
not cancelled. -/
def Paired (cancelled : RequestId → Bool)
    (before after : Option (RequestId × IncomingChild)) : Prop :=
  after = before ∨ (before = none ∧ ∃ p, after = some p ∧ cancelled p.1 = false)

theorem Paired.trans {cancelled : RequestId → Bool}
    {a b c : Option (RequestId × IncomingChild)} (hab : Paired cancelled a b)
    (hbc : Paired cancelled b c) : Paired cancelled a c := by
  rcases hab with rfl | ⟨rfl, p, rfl, hp⟩
  · exact hbc
  · rcases hbc with rfl | ⟨hnone, _⟩
    · exact .inr ⟨rfl, p, rfl, hp⟩
    · cases hnone

theorem selectPair_pair (cancelled : RequestId → Bool) (q : ListenerQueues) :
    Paired cancelled (ListenerAction.none.pair q.selected)
      (ListenerAction.none.pair (selectPair cancelled q).selected) := by
  obtain heq | ⟨r, _, c, _, rfl, hr, heq⟩ := selectPair_cases cancelled q
  · rw [heq]
    exact .inl rfl
  · rw [heq]
    exact .inr ⟨rfl, (r, c), rfl, hr⟩

/-- An action in hand agrees with the selected pair. -/
def ListenerAction.Fits : ListenerAction → Option SelectedAccept → Prop
  | .processSelected request _, selected | .rejectSelected request _ _, selected =>
    selected = some (.processing request)
  | .cancelAfterAccept request route, selected
  | .acknowledgeDelivery request route, selected =>
    ∃ started, selected = some (.routed request route started)
  | _, _ => True

namespace ListenerEntry

/-- What choosing an action does: nothing leaves the listener but into the hand. -/
structure Chooses (cancelled delivered : RequestId → Bool) (l : ListenerEntry)
    (next : ListenerAction × ListenerEntry) : Prop where
  line : next.2.queues.request ++ next.1.requests ++ next.2.queues.waiters = l.queues.line
  shelf : next.2.queues.child ++ next.1.children ++ next.2.queues.children = l.queues.shelf
  slots : next.2.queues.slots + next.1.rejecting = l.queues.slots
  permits : next.2.permits = l.permits.filter (· ∉ next.1.requests)
  used : next.2.childSlotsUsed = l.childSlotsUsed
  backlog : next.2.backlog = l.backlog
  closing : next.2.isClosing = l.isClosing
  fits : next.1.Fits next.2.queues.selected
  pair : Paired cancelled (ListenerAction.none.pair l.queues.selected)
    (next.1.pair next.2.queues.selected)
  delivered : ∀ request route, next.1 = .acknowledgeDelivery request route →
    delivered request = true
  waiters : (next.1.requests ++ next.2.queues.waiters).Sublist l.queues.waiters
  finalized : next.2.finalizationStarted = true → l.finalizationStarted = true ∨
    (l.isClosing = true ∧ l.queues.line = [] ∧ l.queues.shelf = [])

variable {cancelled delivered : RequestId → Bool} {l : ListenerEntry}

/-- An action that takes no waiter and no queued child. -/
theorem Chooses.reselects {action : ListenerAction} {selected : Option SelectedAccept}
    (hrequests : action.requests = []) (hrejecting : action.rejecting = 0)
    (hrequest : selected.map SelectedAccept.request =
      l.queues.selected.map SelectedAccept.request)
    (hchild : selected.elim [] SelectedAccept.child ++ action.children = l.queues.child)
    (hfits : action.Fits selected)
    (hpair : action.pair selected = ListenerAction.none.pair l.queues.selected)
    (hdelivered : ∀ request route, action = .acknowledgeDelivery request route →
      delivered request = true) :
    Chooses cancelled delivered l (action, { l with queues := { l.queues with selected } }) where
  line := by simp [hrequests, ListenerQueues.line, ListenerQueues.request, hrequest]
  shelf := by
    show selected.elim [] SelectedAccept.child ++ action.children ++ l.queues.children = _
    rw [hchild]
    rfl
  slots := by simp [hrejecting, ListenerQueues.slots, ListenerQueues.request, hrequest]
  permits := by simp [hrequests]
  used := rfl
  backlog := rfl
  closing := rfl
  fits := hfits
  pair := .inl hpair
  delivered := hdelivered
  waiters := by
    rw [hrequests]
    exact Sublist.refl _
  finalized := .inl

theorem Chooses.nothing (l : ListenerEntry) : Chooses cancelled delivered l (.none, l) :=
  .reselects rfl rfl rfl (append_nil _) trivial rfl nofun

variable {request : RequestId}

/-- A waiter is taken from the front of the queue. -/
theorem Chooses.pops {waiters : List RequestId}
    {action : ListenerAction} (hwaiters : l.queues.waiters = request :: waiters)
    (haction : action = .cancelledBeforeSelection request ∨
      action = .failUnselected request) :
    Chooses cancelled delivered l (action,
      { l with queues := { l.queues with waiters := waiters } }.releasePermit request) := by
  rcases haction with rfl | rfl
  all_goals
    exact
      { line := by
          simp [requests, ListenerQueues.line, ListenerQueues.request, releasePermit, hwaiters]
        shelf := by
          simp [ListenerAction.children, ListenerQueues.shelf, ListenerQueues.child, releasePermit]
        slots := rfl
        permits := by simp [requests, releasePermit]
        used := rfl
        backlog := rfl
        closing := rfl
        fits := trivial
        pair := .inl rfl
        delivered := nofun
        waiters := by simp [requests, releasePermit, hwaiters]
        finalized := .inl }

theorem Chooses.starts {route : ConnectionToken} {started : Bool} {action : ListenerAction}
    (hselected : l.queues.selected = some (.routed request route started))
    (haction : action = .cancelAfterAccept request route ∨ action = .none) :
    Chooses cancelled delivered l (action,
      { l with queues :=
          { l.queues with selected := some (.routed request route true) } }) := by
  rcases haction with rfl | rfl
  all_goals apply Chooses.reselects rfl rfl
  case inl.hfits => exact ⟨true, rfl⟩
  case inr.hfits => trivial
  all_goals simp [ListenerQueues.child, hselected, SelectedAccept.request, SelectedAccept.child,
    ListenerAction.children, ListenerAction.pair, SelectedAccept.pair]

/-- A pair is taken to be set up or rejected. -/
theorem Chooses.takes {child : IncomingChild} {action : ListenerAction}
    (hselected : l.queues.selected = some (.ready request child))
    (haction : action = .processSelected request child ∨
      ∃ reason, action = .rejectSelected request child reason) :
    Chooses cancelled delivered l (action,
      { l with queues :=
          { l.queues with selected := some (.processing request) } }) := by
  rcases haction with rfl | ⟨reason, rfl⟩
  all_goals apply Chooses.reselects rfl rfl
  case inl.hfits | inr.hfits => rfl
  all_goals simp [ListenerQueues.child, hselected, SelectedAccept.request, SelectedAccept.child,
    ListenerAction.children, ListenerAction.pair, SelectedAccept.pair]

theorem nextClosingAction_chooses (cancelled delivered : RequestId → Bool) (l : ListenerEntry)
    (hclosing : l.isClosing = true) : Chooses cancelled delivered l l.nextClosingAction := by
  unfold nextClosingAction
  split
  · next hwaiters => exact .pops hwaiters (.inr rfl)
  · next hchildren =>
    exact
      { line := by
          simp [requests, ListenerQueues.line, ListenerQueues.request]
        shelf := by
          simp [ListenerAction.children, ListenerQueues.shelf, ListenerQueues.child, hchildren]
        slots := by
          simp [rejecting, ListenerQueues.slots, ListenerQueues.request, hchildren]
          omega
        permits := by simp [requests]
        used := rfl
        backlog := rfl
        closing := rfl
        fits := trivial
        pair := .inl rfl
        delivered := nofun
        waiters := Sublist.refl _
        finalized := .inl }
  · next hwaiters hchildren =>
    split
    · next hselected => exact .takes hselected (.inr ⟨_, rfl⟩)
    · next started hselected =>
      apply Chooses.starts hselected
      cases started
      · exact .inl rfl
      · exact .inr rfl
    · exact .nothing l
    · next hselected =>
      split
      · exact .nothing l
      · have hnothing : Chooses cancelled delivered l (.none, l) := .nothing l
        exact { hnothing with
          pair := .inl rfl
          fits := trivial
          delivered := nofun
          finalized := fun _ => .inr ⟨hclosing, by
            simp [ListenerQueues.line, ListenerQueues.request, ListenerQueues.shelf,
              ListenerQueues.child, hwaiters, hchildren, hselected]⟩ }

theorem Chooses.of_selected {queues : ListenerQueues} {next : ListenerAction × ListenerEntry}
    (hqueues : queues = selectPair cancelled l.queues)
    (h : Chooses cancelled delivered { l with queues } next) :
    Chooses cancelled delivered l next where
  line := by rw [h.line, hqueues, selectPair_line]
  shelf := by rw [h.shelf, hqueues, selectPair_shelf]
  slots := by rw [h.slots, hqueues, selectPair_slots]
  __ := h
  pair := by
    refine Paired.trans ?_ h.pair
    rw [hqueues]
    exact selectPair_pair cancelled l.queues
  waiters := by
    refine h.waiters.trans ?_
    rw [hqueues]
    exact selectPair_waiters cancelled l.queues
  finalized hstarted := by
    have := h.finalized hstarted
    rwa [hqueues, selectPair_line, selectPair_shelf] at this

section

variable (cancelled delivered : RequestId → Bool) (l : ListenerEntry)

theorem nextOpenAction_chooses : Chooses cancelled delivered l (l.nextOpenAction cancelled) := by
  unfold nextOpenAction
  generalize hqueues : selectPair cancelled l.queues = queues
  apply Chooses.of_selected hqueues.symm
  dsimp only
  split
  · next hselected => exact .takes hselected (.inl rfl)
  · next hselected =>
    split
    · exact .starts hselected (.inl rfl)
    · exact .nothing _
  all_goals exact .nothing _

theorem nextQueuedAction_chooses :
    Chooses cancelled delivered l (l.nextQueuedAction cancelled) := by
  unfold nextQueuedAction
  split
  · next hwaiters =>
    split
    · exact .pops hwaiters (.inl rfl)
    · split
      · next hclosing => exact nextClosingAction_chooses cancelled delivered l hclosing
      · exact nextOpenAction_chooses cancelled delivered l
  · split
    · next hclosing => exact nextClosingAction_chooses cancelled delivered l hclosing
    · exact nextOpenAction_chooses cancelled delivered l

theorem nextAction_chooses : Chooses cancelled delivered l (l.nextAction cancelled delivered) := by
  unfold nextAction
  split
  · next started hselected =>
    split
    · next hdelivered =>
      have hnothing : Chooses cancelled delivered l (.none, l) := .nothing l
      exact { hnothing with
        fits := ⟨started, hselected⟩
        pair := .inl rfl
        delivered := fun r _ h => by
          injection h with hr
          exact hr ▸ hdelivered }
    · split
      · split
        · exact .nothing l
        · exact .starts hselected (.inl rfl)
      · exact nextQueuedAction_chooses cancelled delivered l
  all_goals exact nextQueuedAction_chooses cancelled delivered l

end

theorem requestClose_eq (l : ListenerEntry) : l.requestClose.2 =
      { l with closing := true, open_ := l.closing && l.open_ } := by
  obtain ⟨_, _, _, closing, _, _, _, _, _⟩ := l
  cases closing <;> rfl

theorem markSelectedRouteClosing_permits (l : ListenerEntry) (route : ConnectionToken) :
    (l.markSelectedRouteClosing route).2.permits = l.permits := by
  unfold markSelectedRouteClosing
  split
  · split <;> rfl
  all_goals rfl

theorem markSelectedRouteClosing_pair (l : ListenerEntry) (route : ConnectionToken) :
    ListenerAction.none.pair (l.markSelectedRouteClosing route).2.queues.selected =
      ListenerAction.none.pair l.queues.selected := by
  unfold markSelectedRouteClosing
  split
  · next hselected =>
    split
    · rw [hselected]
      rfl
    · rfl
  all_goals rfl

theorem popWaiters_permits (budget : Nat) (l : ListenerEntry) :
    ∃ keep : RequestId → Bool, (popWaiters budget l).2.permits = l.permits.filter keep := by
  induction budget generalizing l with
  | zero => exact ⟨fun _ => true, by simp [popWaiters]⟩
  | succ _ ih =>
    unfold popWaiters
    split
    · exact ⟨fun _ => true, by simp⟩
    · next request waiters _ =>
      obtain ⟨_, hkeep⟩ := ih
        ({ l with queues := { l.queues with waiters := waiters } }.releasePermit request)
      rw [releasePermit, filter_filter] at hkeep
      exact ⟨_, hkeep⟩

theorem popWaiters_frame (budget : Nat) (l : ListenerEntry) :
    (popWaiters budget l).2.queues.selected = l.queues.selected ∧
      (popWaiters budget l).2.isClosing = l.isClosing := by
  induction budget generalizing l with
  | zero => exact ⟨rfl, rfl⟩
  | succ _ ih =>
    unfold popWaiters
    split
    · exact ⟨rfl, rfl⟩
    · exact ih _

theorem mem_popWaiters {budget : Nat} {r : RequestId}
    (hr : r ∈ (popWaiters budget l).1) : r ∈ l.queues.waiters := by
  induction budget generalizing l with
  | zero => cases hr
  | succ _ ih =>
    unfold popWaiters at hr
    split at hr
    · cases hr
    · next hwaiters =>
      rw [hwaiters]
      rcases mem_cons.mp hr with rfl | hr
      · exact mem_cons_self
      · exact mem_cons_of_mem _ (ih hr)

/-- The listener that a failed engine closes. -/
def closedBy (l : ListenerEntry) (error : Error) : ListenerEntry :=
  { l with closing := true, open_ := false, outcome := l.outcome <|> some (.error error) }

theorem terminalizeWaiters_cases (l : ListenerEntry) (error : Error) (budget : Nat) :
    l.terminalizeWaiters error budget = popWaiters budget (l.closedBy error) ∨
      ∃ selected, (popWaiters budget (l.closedBy error)).2.queues.selected = some selected ∧
        l.terminalizeWaiters error budget =
          ((popWaiters budget (l.closedBy error)).1 ++ [selected.request],
            (popWaiters budget (l.closedBy error)).2.releasePermit selected.request) := by
  unfold terminalizeWaiters
  simp only [requestClose_eq, Bool.and_false]
  rw [← closedBy]
  split
  · next selected hselected =>
    split
    · exact .inr ⟨selected, hselected, rfl⟩
    · exact .inl rfl
  · exact .inl rfl

theorem terminalizeWaiters_selected (l : ListenerEntry) (error : Error) (budget : Nat) :
    (l.terminalizeWaiters error budget).2.queues.selected = l.queues.selected := by
  have hframe := (popWaiters_frame budget (l.closedBy error)).1
  obtain heq | ⟨_, _, heq⟩ := terminalizeWaiters_cases l error budget
  · rw [heq]
    exact hframe
  · rw [heq]
    exact hframe

/-- The listener after its selected pair is over. -/
def withoutPair (l : ListenerEntry) (cancelled : RequestId → Bool) (request : RequestId) :
    ListenerEntry :=
  { (l.releasePermit request).releaseChildSlot with
    queues := selectPair cancelled { l.queues with selected := .none } }

theorem finishSelectedIf_of_matches {matches_ : SelectedAccept → Bool} {selected : SelectedAccept}
    (hselected : l.queues.selected = some selected) (hmatches : matches_ selected = true) :
    (l.finishSelectedIf cancelled matches_).2 =
      l.withoutPair cancelled selected.request := by
  simp only [finishSelectedIf, hselected, hmatches, if_true]
  rfl

theorem finishSelectedRoute_of_routed {route : ConnectionToken}
    {started : Bool} (hselected : l.queues.selected = some (.routed request route started)) :
    (l.finishSelectedRoute cancelled route).2 = l.withoutPair cancelled request :=
  finishSelectedIf_of_matches hselected (by simp)

theorem finishSelectedRequest_of_processing
    (hselected : l.queues.selected = some (.processing request)) :
    (l.finishSelectedRequest cancelled request).2 = l.withoutPair cancelled request :=
  finishSelectedIf_of_matches hselected (by simp [SelectedAccept.request])

theorem routeSelected_of_processing (route : ConnectionToken)
    (hselected : l.queues.selected = some (.processing request)) : l.routeSelected request route =
      .ok { l with queues :=
        { l.queues with selected := some (.routed request route false) } } := by
  simp [routeSelected, hselected]

end ListenerEntry

open ListenerEntry (popWaiters creating popWaiters_permits)

section

variable {α : Type} [DecidableEq α] {a : α} {l : List α}

theorem count_singleton_le (h : a ∈ l) (r : α) : [a].count r ≤ l.count r :=
  (singleton_sublist.mpr h).count_le r

theorem count_singleton_add_le (h : a ∉ l) {r : α} (hr : l.count r ≤ 1) :
    [a].count r + l.count r ≤ 1 := by
  by_cases heq : a = r
  · rw [← heq, count_eq_zero.mpr h, count_singleton_self]
  · rw [count_singleton, beq_false_of_ne heq]
    simpa using hr

theorem count_filter_notMem (l m : List α) (r : α) :
    (m.count r = 0 → (l.filter (· ∉ m)).count r = l.count r) ∧
      (0 < m.count r → (l.filter (· ∉ m)).count r = 0) := by
  constructor
  · intro hr
    exact count_filter (by simpa using count_eq_zero.mp hr)
  · intro hr
    rw [count_eq_zero, mem_filter]
    simpa using fun _ => count_pos_iff.mp hr

theorem count_filter_ne (l : List α) (a r : α) :
    ([a].count r = 0 → (l.filter (· ≠ a)).count r = l.count r) ∧
      (0 < [a].count r → (l.filter (· ≠ a)).count r = 0) := by
  simpa only [mem_singleton, ne_eq] using count_filter_notMem l [a] r

end

namespace AcceptSystem

/-- Where a request is, and how often: it is granted once and has its permit in one place;
it waits in the command queue, in the listener or in hand until it leaves; and its result
is set at most once, no earlier than it leaves the queue. -/
structure Accounted (sys : AcceptSystem) (r : RequestId) : Prop where
  grantedOnce : sys.granted.count r ≤ 1
  permits : sys.granted.count r =
    sys.returned.count r + (sys.ingress.count r + sys.entry.permits.count r)
  waiters : sys.registered.count r = (sys.left.map Prod.fst).count r +
    (sys.entry.queues.request.count r + sys.hand.requests.count r +
      sys.entry.queues.waiters.count r)
  known : sys.registered.count r + sys.ingress.count r ≤ sys.granted.count r
  completed : sys.completed.count r ≤ sys.granted.count r
  resolved : (sys.left.map Prod.fst).count r ≤ sys.completed.count r
  unresolved : sys.hand.requests.count r + sys.entry.queues.waiters.count r +
    sys.ingress.count r + sys.completed.count r ≤ 1
  permitHeld : sys.entry.permits.count r ≤
    sys.entry.queues.request.count r + sys.entry.queues.waiters.count r
  waiterHolds : sys.entry.queues.waiters.count r ≤ sys.entry.permits.count r
  selectedHolds : sys.entry.queues.request.count r ≤
    sys.entry.permits.count r + sys.entry.isClosing.toNat
  selectedDone : sys.entry.queues.request.count r ≤
    sys.entry.permits.count r + sys.completed.count r

/-- The invariant of a listener and of everything that passes through it. -/
structure Arbitrated (sys : AcceptSystem) : Prop where
  requests : ∀ r, sys.Accounted r
  lineOrder : sys.line.Sublist sys.registered
  children : ∀ c, sys.arrived.count c = (sys.ended.map Prod.fst).count c + sys.shelf.count c
  arrivedOnce : sys.arrived.Nodup
  shelfOrder : sys.shelf.Sublist sys.arrived
  slots : sys.entry.childSlotsUsed = sys.entry.queues.slots + sys.hand.rejecting
  slotsBound : sys.entry.childSlotsUsed ≤ sys.entry.backlog
  permitBound : sys.ingress.length + sys.entry.permits.length ≤ sys.entry.backlog
  fits : sys.hand.Fits sys.entry.queues.selected
  delivered : ∀ r ∈ sys.delivered, r ∈ sys.completed
  acknowledged : ∀ r route, sys.hand = .acknowledgeDelivery r route → r ∈ sys.delivered
  finalized : sys.entry.finalizationStarted = true →
    sys.entry.isClosing = true ∧ sys.line = [] ∧ sys.shelf = []

variable {sys : AcceptSystem}

/-- The permits that a call does not keep are given back. -/
theorem withEntry_permits {entry : ListenerEntry} {keep : RequestId → Bool}
    (h : entry.permits = sys.entry.permits.filter keep) (r : RequestId) :
    (sys.withEntry entry).returned.count r + entry.permits.count r =
      sys.returned.count r + sys.entry.permits.count r := by
  have hreturned := count_filter_notMem sys.entry.permits entry.permits r
  have hkept : entry.permits.count r ≤ sys.entry.permits.count r := by
    rw [h]
    exact filter_sublist.count_le r
  have hall : entry.permits.count r = 0 ∨ entry.permits.count r = sys.entry.permits.count r := by
    rw [h]
    by_cases hr : keep r = true
    · exact .inr (count_filter hr)
    · refine .inl (count_eq_zero.mpr fun hmem => hr (mem_filter.mp hmem).2)
  rw [withEntry, count_append]
  omega

theorem withEntry_withEntry {l₁ l₂ : ListenerEntry} {keep₁ keep₂ : RequestId → Bool}
    (h₁ : l₁.permits = sys.entry.permits.filter keep₁) (h₂ : l₂.permits = l₁.permits.filter keep₂)
    (r : RequestId) : ((sys.withEntry l₁).withEntry l₂).returned.count r =
      (sys.withEntry l₂).returned.count r := by
  have hboth : l₂.permits = sys.entry.permits.filter fun r => keep₂ r && keep₁ r := by
    rw [h₂, h₁, filter_filter]
  have hfirst := withEntry_permits h₁ r
  have hsecond := @withEntry_permits (sys.withEntry l₁) _ _ h₂ r
  have hdirect := withEntry_permits hboth r
  have hentry : (sys.withEntry l₁).entry.permits = l₁.permits := rfl
  rw [hentry] at hsecond
  omega

theorem foldl_complete (requests : List RequestId) (sys : AcceptSystem) :
    requests.foldl complete sys =
      { sys with
        completed := requests.foldl (fun done r => done.insert r) sys.completed } := by
  induction requests generalizing sys with
  | nil => rfl
  | cons r _ ih => exact ih (sys.complete r)

theorem withEntry_of_permits {entry : ListenerEntry}
    (h : entry.permits = sys.entry.permits) : sys.withEntry entry = { sys with entry } := by
  have : sys.entry.permits.filter (· ∉ entry.permits) = [] := by
    rw [h, filter_eq_nil_iff]
    simp
  rw [withEntry, this, append_nil]

/-- What one step does to the selected pair: another pair takes its place only after both
of its sides are resolved, and no pair is made of a request that was cancelled. -/
structure Exchanges (before after : AcceptSystem) : Prop where
  uncancelled : ∀ p, after.pair = some p → before.pair ≠ some p → before.isCancelled p.1 = false
  resolved : ∀ p q, before.pair = some p → after.pair = some q → q ≠ p →
    p.1 ∈ after.left.map Prod.fst ∧ p.2 ∈ after.ended.map Prod.fst

namespace Exchanges

variable {after : AcceptSystem}

theorem of_paired (h : Paired sys.isCancelled sys.pair after.pair) : sys.Exchanges after := by
  rcases h with h | ⟨hnone, p, hsome, hp⟩
  · constructor
    · intro p hafter hbefore
      exact absurd (h ▸ hafter) hbefore
    · intro p q hbefore hafter hne
      rw [h, hbefore] at hafter
      exact absurd (Option.some.inj hafter).symm hne
  · constructor
    · intro q hafter _
      rw [hsome] at hafter
      exact Option.some.inj hafter ▸ hp
    · intro q _ hbefore
      rw [hnone] at hbefore
      cases hbefore

theorem of_resolved (h : Paired sys.isCancelled none after.pair)
    (hresolved : ∀ p, sys.pair = some p →
      p.1 ∈ after.left.map Prod.fst ∧ p.2 ∈ after.ended.map Prod.fst) :
    sys.Exchanges after where
  uncancelled p hafter _ := by
    rcases h with h | ⟨_, q, hsome, hq⟩
    · rw [h] at hafter
      cases hafter
    · rw [hsome] at hafter
      exact Option.some.inj hafter ▸ hq
  resolved p _ hbefore _ _ := hresolved p hbefore

theorem of_same (h : after.pair = sys.pair) : sys.Exchanges after := of_paired (.inl h)

/-- Steps before the exchange that leave the pair and the cancellations alone. -/
theorem of_before {mid : AcceptSystem} (h : mid.Exchanges after) (hpair : mid.pair = sys.pair)
    (hcancelled : mid.cancelled = sys.cancelled) : sys.Exchanges after where
  uncancelled p hafter hbefore := by
    have := h.uncancelled p hafter (hpair ▸ hbefore)
    rwa [isCancelled, hcancelled] at this
  resolved p q hbefore := h.resolved p q (hpair.trans hbefore)

end Exchanges

namespace Arbitrated

variable {request : RequestId}

section

variable (h : sys.Arbitrated)

include h

theorem accept (hfresh : request ∉ sys.granted)
    (hroom : sys.ingress.length + sys.entry.permits.length < sys.entry.backlog) :
    { sys with
      ingress := sys.ingress ++ [request]
      granted := sys.granted ++ [request] }.Arbitrated :=
  { h with
    requests := fun r => by
      have hnew := count_singleton_add_le hfresh (h.requests r).grantedOnce
      cases h.requests r
      constructor <;> simp -failIfUnchanged only [count_append] <;> omega
    permitBound := by
      simp only [length_append, length_singleton]
      omega }

theorem cancelled (cancelled : List RequestId) : { sys with cancelled }.Arbitrated :=
  { h with requests := fun r => { h.requests r with } }

/-- A command still queued is removed, with its permit. -/
theorem cancelQueued (hqueued : request ∈ sys.ingress) :
    { sys with
      ingress := sys.ingress.erase request
      returned := sys.returned ++ [request] }.Arbitrated :=
  { h with
    requests := fun r => by
      have herase := (perm_cons_erase hqueued).count_eq r
      rw [← singleton_append, count_append] at herase
      cases h.requests r
      constructor <;> simp -failIfUnchanged only [count_append] <;> omega
    permitBound :=
      Nat.le_trans (Nat.add_le_add_right erase_sublist.length_le _) h.permitBound }

theorem setComplete (hknown : request ∈ sys.granted)
    (hheld : request ∉ sys.hand.requests ++ sys.entry.queues.waiters ++ sys.ingress) :
    (sys.complete request).Arbitrated :=
  { h with
    requests := fun r => by
      have hgranted := count_singleton_le hknown r
      have hunheld := count_singleton_add_le (r := r) hheld (by
        have := (h.requests r).unresolved
        simp only [count_append]
        omega)
      simp only [count_append] at hunheld
      cases h.requests r
      constructor <;> simp -failIfUnchanged only [complete, count_insert,
        ← count_singleton] <;> omega
    delivered := fun r hr => mem_insert_of_mem (h.delivered r hr) }

theorem delivers (hcompleted : request ∈ sys.completed) :
    { sys with delivered := request :: sys.delivered }.Arbitrated :=
  { h with
    requests := fun r => { h.requests r with }
    delivered := forall_mem_cons.mpr ⟨hcompleted, h.delivered⟩
    acknowledged := fun r route hr => mem_cons_of_mem _ (h.acknowledged r route hr) }

/-- An action is chosen. -/
theorem chooses (hhand : sys.hand = .none) {next : ListenerAction × ListenerEntry}
    (hnext : ListenerEntry.Chooses sys.isCancelled sys.isDelivered sys.entry next) :
    { sys.withEntry next.2 with hand := next.1 }.Arbitrated := by
  have hline : sys.line = sys.entry.queues.line := by
    simp [line, hhand, ListenerAction.requests, ListenerQueues.line]
  have hline' : { sys.withEntry next.2 with hand := next.1 }.line = sys.line :=
    hnext.line.trans hline.symm
  have hshelf' : { sys.withEntry next.2 with hand := next.1 }.shelf = sys.shelf := by
    refine hnext.shelf.trans ?_
    simp [shelf, hhand, ListenerAction.children, ListenerQueues.shelf]
  exact { h with
    requests := fun r => by
      have hcount := congrArg (List.count r) hnext.line
      have hwaiters := hnext.waiters.count_le r
      have hpermits := count_filter_notMem sys.entry.permits next.1.requests r
      have hreturned := withEntry_permits hnext.permits r
      rw [← hnext.permits] at hpermits
      simp only [ListenerQueues.line, count_append] at hcount hwaiters
      have hidle : sys.hand.requests.count r = 0 := by
        rw [hhand]
        rfl
      have hclosing : next.2.isClosing.toNat = sys.entry.isClosing.toNat := by rw [hnext.closing]
      cases h.requests r
      constructor <;> simp -failIfUnchanged only [withEntry] at * <;> omega
    lineOrder := hline' ▸ h.lineOrder
    children := fun c => by
      rw [hshelf']
      exact h.children c
    shelfOrder := hshelf' ▸ h.shelfOrder
    slots := by
      refine hnext.used.trans ?_
      rw [h.slots, hhand]
      exact hnext.slots.symm
    slotsBound := by
      refine le_trans (le_of_eq hnext.used) ?_
      exact le_trans h.slotsBound (le_of_eq hnext.backlog.symm)
    permitBound := by
      show sys.ingress.length + next.2.permits.length ≤ next.2.backlog
      rw [hnext.permits, hnext.backlog]
      exact Nat.le_trans (Nat.add_le_add_left (length_filter_le _ _) _) h.permitBound
    fits := hnext.fits
    acknowledged := fun r route hr => by
      show r ∈ sys.delivered
      simpa [isDelivered] using hnext.delivered r route hr
    finalized := fun hstarted => by
      rw [hline', hshelf']
      show next.2.isClosing = true ∧ _
      rw [hnext.closing]
      rcases hnext.finalized hstarted with hbefore | ⟨hclosing, hnoline, hnoshelf⟩
      · exact h.finalized hbefore
      · refine ⟨hclosing, hline.trans hnoline, ?_⟩
        rw [← hshelf']
        exact hnext.shelf.trans hnoshelf }

/-- Pairing moves nothing out of the listener. -/
theorem selects (hhand : sys.hand = .none) :
    { sys with
      entry := { sys.entry with
        queues := selectPair sys.isCancelled sys.entry.queues } }.Arbitrated := by
  have hchosen := h.chooses hhand (.of_selected rfl (.nothing _))
  rw [withEntry_of_permits (by rfl), ← hhand] at hchosen
  exact hchosen

variable {ingress : List RequestId}

/-- The next accept command of the queue is refused. -/
theorem refuseAccept (hingress : sys.ingress = request :: ingress) :
    ({ sys with ingress, returned := sys.returned ++ [request] }.complete
      request).Arbitrated := by
  have hpopped : { sys with
      ingress, returned := sys.returned ++ [request] }.Arbitrated := by
    have := @cancelQueued sys request h (by simp [hingress])
    rwa [hingress, erase_cons_head] at this
  obtain ⟨_, _, _, _, _, _, hunresolved, _⟩ := h.requests request
  obtain ⟨_, hpermits, _⟩ := h.requests request
  rw [hingress, count_cons_self] at hunresolved hpermits
  apply hpopped.setComplete
  · exact count_pos_iff.mp (by omega : 0 < sys.granted.count request)
  · rw [← count_eq_zero]
    simp only [count_append]
    omega

/-- The next accept command of the queue becomes a waiter. -/
theorem enqueueWaiter (hopen : ¬ sys.entry.isClosing = true)
    (hingress : sys.ingress = request :: ingress) :
    { sys with
      entry := { sys.entry with
        permits := sys.entry.permits ++ [request]
        queues := { sys.entry.queues with
          waiters := sys.entry.queues.waiters ++ [request] } }
      ingress
      registered := sys.registered ++ [request] }.Arbitrated :=
  { h with
    requests := fun r => by
      have hmoved := congrArg (List.count r) hingress
      rw [← singleton_append, count_append] at hmoved
      cases h.requests r
      constructor <;> simp -failIfUnchanged only [ListenerQueues.request,
        ListenerEntry.isClosing, count_append] at * <;> omega
    lineOrder := by
      have hline := h.lineOrder.append (Sublist.refl [request])
      rw [line, append_assoc] at hline
      exact hline
    permitBound := by
      have := h.permitBound
      rw [hingress] at this
      simp only [length_append, length_cons, length_nil] at this ⊢
      omega
    finalized := fun hstarted => absurd (h.finalized hstarted).1 hopen }

theorem registerWaiter {entry : ListenerEntry}
    (hhand : sys.hand = .none) (hingress : sys.ingress = request :: ingress)
    (hentry : sys.entry.registerWaiter sys.isCancelled request = .ok entry) :
    let after := { sys with entry, ingress, registered := sys.registered ++ [request] }
    after.Arbitrated ∧ sys.Exchanges after := by
  unfold ListenerEntry.registerWaiter at hentry
  split at hentry
  · cases hentry
  · next hopen =>
    rw [Except.ok.injEq] at hentry
    subst hentry
    refine ⟨(h.enqueueWaiter hopen hingress).selects hhand, .of_paired ?_⟩
    rw [pair, pair, hhand]
    exact selectPair_pair sys.isCancelled { sys.entry.queues with
      waiters := sys.entry.queues.waiters ++ [request] }

end

variable {child : IncomingChild}

section

variable (h : sys.Arbitrated)

include h

theorem arrives (hfresh : child ∉ sys.arrived) : (sys.arrived ++ [child]).Nodup := by
  simp only [nodup_iff_count_le_one, count_append] at h ⊢
  intro c
  have := count_singleton_add_le hfresh (nodup_iff_count_le_one.mp h.arrivedOnce c)
  omega

/-- A child that the listener turns away is rejected at once. -/
theorem refuseChild (hfresh : child ∉ sys.arrived) :
    ({ sys with arrived := sys.arrived ++ [child] }.ends child .rejected).Arbitrated :=
  { h with
    requests := fun r => { h.requests r with }
    children := fun c => by
      have := h.children c
      show (sys.arrived ++ [child]).count c =
        ((sys.ended ++ [(child, ChildEnd.rejected)]).map Prod.fst).count c + sys.shelf.count c
      simp only [map_append, map_cons, map_nil, count_append]
      omega
    arrivedOnce := h.arrives hfresh
    shelfOrder := h.shelfOrder.trans (sublist_append_left _ _) }

theorem enqueueChild (hopen : ¬ sys.entry.isClosing = true) (hfresh : child ∉ sys.arrived)
    (hroom : sys.entry.childSlotsUsed < sys.entry.backlog) :
    { sys with
      arrived := sys.arrived ++ [child]
      entry := { sys.entry with
        childSlotsUsed := sys.entry.childSlotsUsed + 1
        queues := { sys.entry.queues with
          children := sys.entry.queues.children ++ [child] } } }.Arbitrated :=
  { h with
    requests := fun r => { h.requests r with }
    children := fun c => by
      have := h.children c
      simp only [shelf, count_append] at this ⊢
      exact (congrArg (· + _) this).trans (by simp only [add_assoc]; rfl)
    arrivedOnce := h.arrives hfresh
    shelfOrder := by
      have hshelf := h.shelfOrder.append (Sublist.refl [child])
      rw [shelf, append_assoc] at hshelf
      exact hshelf
    slots := by
      have := h.slots
      simp only [ListenerQueues.slots, ListenerQueues.request, length_append,
        length_singleton] at this ⊢
      omega
    slotsBound := hroom
    finalized := fun hstarted => absurd (h.finalized hstarted).1 hopen }

theorem admitChild (hhand : sys.hand = .none) (hfresh : child ∉ sys.arrived)
    (hadmitted : (sys.entry.admitChild sys.isCancelled child).1 = none) :
    let after := { sys with
      arrived := sys.arrived ++ [child]
      entry := (sys.entry.admitChild sys.isCancelled child).2 }
    after.Arbitrated ∧ sys.Exchanges after := by
  unfold ListenerEntry.admitChild at hadmitted ⊢
  split at hadmitted
  · cases hadmitted
  · next hopen =>
    split at hadmitted
    · cases hadmitted
    · next hroom =>
      rw [if_neg hopen, if_neg hroom]
      refine ⟨(h.enqueueChild hopen hfresh (Nat.lt_of_not_le hroom)).selects hhand, .of_paired ?_⟩
      rw [pair, pair, hhand]
      exact selectPair_pair sys.isCancelled { sys.entry.queues with
        children := sys.entry.queues.children ++ [child] }

/-- A request leaves, with its permit if it still holds one. -/
theorem requestLeaves {before : List RequestId} {selected : Option SelectedAccept}
    {used : Nat} (how : WaiterEnd)
    (hrequests : sys.entry.queues.request ++ sys.hand.requests = before ++ [request])
    (hkept : before.Sublist sys.entry.queues.request)
    (hrequest : (selected.map SelectedAccept.request).toList = before)
    (hchildren : sys.hand.children = [])
    (hchild : selected.elim [] SelectedAccept.child = sys.entry.queues.child)
    (hused : used ≤ sys.entry.childSlotsUsed)
    (hslots : used = sys.entry.queues.children.length + before.length) :
    (({ sys with hand := .none }.leaves request how).withEntry
      { sys.entry.releasePermit request with
        childSlotsUsed := used
        queues := { sys.entry.queues with selected } }).Arbitrated := by
  have hline : sys.line = before ++ [request] ++ sys.entry.queues.waiters := by
    rw [line, hrequests]
  have hshelf : selected.elim [] SelectedAccept.child ++ [] ++ sys.entry.queues.children =
      sys.shelf := by
    rw [shelf, hchild, hchildren]
  have hrequest' : ({ sys.entry.queues with selected } : ListenerQueues).request = before := hrequest
  exact { h with
    requests := fun r => by
      have hcount := congrArg (List.count r) hrequests
      have hbefore := hkept.count_le r
      have hpermits := count_filter_ne sys.entry.permits request r
      have hreturned := @withEntry_permits ({ sys with hand := .none }.leaves request how)
        { sys.entry.releasePermit request with
          childSlotsUsed := used
          queues := { sys.entry.queues with selected } } (· ≠ request) rfl r
      simp only [count_append] at hcount
      cases h.requests r
      constructor <;> simp -failIfUnchanged only [withEntry, leaves, complete,
        ListenerEntry.releasePermit, ListenerEntry.isClosing, hrequest', map_append, map_cons, map_nil,
        count_append, count_nil, count_insert, ← count_singleton,
        ListenerAction.requests] at * <;> omega
    lineOrder := by
      show ((selected.map _).toList ++ [] ++ sys.entry.queues.waiters).Sublist _
      refine Sublist.trans ?_ h.lineOrder
      rw [hline, hrequest]
      exact ((nil_sublist _).append_left _).append (Sublist.refl _)
    children := fun c => (h.children c).trans (by rw [← hshelf]; rfl)
    shelfOrder := (show (_ ++ [] ++ _).Sublist _ from hshelf ▸ h.shelfOrder)
    slots := by
      show used = sys.entry.queues.children.length + (selected.map _).toList.length
      rw [hrequest]
      exact hslots
    slotsBound := le_trans hused h.slotsBound
    permitBound :=
      Nat.le_trans (Nat.add_le_add_left (length_filter_le _ _) _) h.permitBound
    fits := trivial
    delivered := fun r hr => mem_insert_of_mem (h.delivered r hr)
    acknowledged := nofun
    finalized := fun hstarted => by
      have := (h.finalized hstarted).2.1
      rw [hline] at this
      simp at this }

/-- The waiter in hand is resolved. -/
theorem waiterLeaves (how : WaiterEnd) (hhand : sys.hand = .cancelledBeforeSelection request ∨
      sys.hand = .failUnselected request) :
    ({ sys with hand := .none }.leaves request how).Arbitrated := by
  obtain ⟨hrequests, hchildren, hrejecting⟩ : sys.hand.requests = [request] ∧
      sys.hand.children = [] ∧ sys.hand.rejecting = 0 := by
    rcases hhand with hhand | hhand <;> rw [hhand] <;> exact ⟨rfl, rfl, rfl⟩
  have hslots := h.slots
  rw [hrejecting] at hslots
  have hleaves := h.requestLeaves how (congrArg _ hrequests) (Sublist.refl _) rfl hchildren
    rfl le_rfl hslots
  -- its permit was released when it was taken from the queue
  have hpermit : request ∉ sys.entry.permits := by
    have hone : sys.hand.requests.count request = 1 := by
      rw [hrequests, count_singleton_self]
    cases h.requests request
    exact count_eq_zero.mp (by omega)
  have hreleased : sys.entry.releasePermit request = sys.entry := by
    rw [ListenerEntry.releasePermit, filter_eq_self.mpr]
    exact fun r hr => decide_eq_true (ne_of_mem_of_not_mem hr hpermit)
  rw [hreleased, withEntry_of_permits (by rfl)] at hleaves
  exact hleaves

/-- The child in hand is resolved; its slot is free if it was being rejected. -/
theorem childEnds (how : ChildEnd) (hrequests : sys.hand.requests = [])
    (hchildren : sys.hand.children = [child]) : ({ sys with
      hand := .none
      entry := { sys.entry with
        childSlotsUsed := sys.entry.childSlotsUsed - sys.hand.rejecting } }.ends child
      how).Arbitrated := by
  have hline : sys.entry.queues.request ++ [] ++ sys.entry.queues.waiters = sys.line := by
    rw [line, hrequests]
  have hshelf : sys.shelf = sys.entry.queues.child ++ [child] ++ sys.entry.queues.children := by
    rw [shelf, hchildren]
  exact { h with
    requests := fun r => by
      have hr := h.requests r
      exact { hr with
        waiters := hr.waiters.trans (by rw [hrequests]; rfl)
        unresolved := by
          have hunresolved := hr.unresolved
          rw [hrequests] at hunresolved
          exact hunresolved }
    lineOrder := (show (_ ++ [] ++ _).Sublist _ from hline ▸ h.lineOrder)
    children := fun c => by
      have hcount := h.children c
      show sys.arrived.count c = ((sys.ended ++ [(child, how)]).map Prod.fst).count c +
        (sys.entry.queues.child ++ [] ++ sys.entry.queues.children).count c
      simp only [hshelf, map_append, map_cons, map_nil, append_nil, count_append] at hcount ⊢
      omega
    shelfOrder := by
      refine Sublist.trans ?_ h.shelfOrder
      rw [hshelf]
      exact ((nil_sublist _).append_left _).append (Sublist.refl _)
    slots := by
      show sys.entry.childSlotsUsed - sys.hand.rejecting = sys.entry.queues.slots
      rw [h.slots, Nat.add_sub_cancel]
    slotsBound := le_trans (Nat.sub_le _ _) h.slotsBound
    fits := trivial
    acknowledged := nofun
    finalized := fun hstarted => by
      have := (h.finalized hstarted).2.2
      rw [hshelf] at this
      simp at this }

/-- The hand is emptied, a child that it held goes into the selected pair. -/
theorem putsDown {selected : Option SelectedAccept} (hrequests : sys.hand.requests = [])
    (hrejecting : sys.hand.rejecting = 0) (hrequest : selected.map SelectedAccept.request =
      sys.entry.queues.selected.map SelectedAccept.request)
    (hchild : selected.elim [] SelectedAccept.child = sys.entry.queues.child ++ sys.hand.children) :
    { sys with
      hand := .none
      entry := { sys.entry with
        queues := { sys.entry.queues with selected } } }.Arbitrated := by
  have hrequest : ({ sys.entry.queues with selected } : ListenerQueues).request =
      sys.entry.queues.request := congrArg Option.toList hrequest
  have hline : ({ sys.entry.queues with selected } : ListenerQueues).request ++ [] ++
      sys.entry.queues.waiters = sys.line := by
    rw [hrequest, line, hrequests]
  have hshelf : selected.elim [] SelectedAccept.child ++ [] ++
      sys.entry.queues.children = sys.shelf := by
    rw [hchild, append_nil, shelf]
  exact { h with
    requests := fun r => by
      have hnone : sys.hand.requests.count r = 0 := by
        rw [hrequests]
        rfl
      cases h.requests r
      constructor <;> simp -failIfUnchanged only [hrequest, ListenerEntry.isClosing,
        ListenerAction.requests, count_nil] at * <;> omega
    lineOrder := (show List.Sublist (_ ++ [] ++ _) _ from hline ▸ h.lineOrder)
    children := fun c => (h.children c).trans (by rw [← hshelf]; rfl)
    shelfOrder := (show List.Sublist (_ ++ [] ++ _) _ from hshelf ▸ h.shelfOrder)
    slots := by
      have := h.slots
      rw [ListenerQueues.slots, ← hrequest, hrejecting] at this
      exact this
    fits := trivial
    acknowledged := nofun
    finalized := fun hstarted => by
      obtain ⟨hclosing, hnoline, hnoshelf⟩ := h.finalized hstarted
      exact ⟨hclosing, hline.trans hnoline, hshelf.trans hnoshelf⟩ }

/-- The selected request waits nowhere else. -/
theorem selected_unheld (hmem : request ∈ sys.entry.queues.request) : request ∈ sys.granted ∧
      request ∉ sys.hand.requests ++ sys.entry.queues.waiters ++ sys.ingress := by
  have hselected := count_pos_iff.mpr hmem
  rw [← count_pos_iff, ← count_eq_zero]
  simp only [count_append]
  cases h.requests request
  omega

theorem marksClosing (hhand : sys.hand = .none) (route : ConnectionToken) :
    { sys with entry := (sys.entry.markSelectedRouteClosing route).2 }.Arbitrated := by
  unfold ListenerEntry.markSelectedRouteClosing
  split
  · next request current _ hselected =>
    split
    · have hmarked := @putsDown sys h (some (.routed request current true))
        (by rw [hhand]; rfl) (by rw [hhand]; rfl) (by rw [hselected]; rfl)
        (by rw [ListenerQueues.child, hselected, hhand]; rfl)
      rw [← hhand] at hmarked
      exact hmarked
    · exact h
  all_goals exact h

/-- The selected pair is over, its child already resolved, and the listener chooses the
next one. -/
theorem pairEnds (hhand : sys.hand = .none) (how : WaiterEnd)
    (hselected : sys.entry.queues.selected = some (.processing request)) :
    ((sys.leaves request how).withEntry
      (sys.entry.withoutPair sys.isCancelled request)).Arbitrated := by
  have hrequest : sys.entry.queues.request = [request] := by
    rw [ListenerQueues.request, hselected]
    rfl
  have hslots := h.slots
  rw [hhand, ListenerQueues.slots, hrequest] at hslots
  have hslots : sys.entry.childSlotsUsed = sys.entry.queues.children.length + 1 := hslots
  have hleaves := @requestLeaves sys request h [] none (sys.entry.childSlotsUsed - 1) how
    (by rw [hrequest, hhand]; rfl) (nil_sublist _) rfl (by rw [hhand]; rfl)
    (by rw [ListenerQueues.child, hselected]; rfl) (Nat.sub_le _ _) (by rw [hslots]; rfl)
  rw [← hhand] at hleaves
  exact hleaves.selects hhand

/-- The pair that the reactor works on. -/
theorem taken (hhand : sys.hand = .processSelected request child ∨
      ∃ reason, sys.hand = .rejectSelected request child reason) :
    sys.entry.queues.selected = some (.processing request) ∧ sys.hand.requests = [] ∧
      sys.hand.children = [child] ∧ sys.hand.rejecting = 0 ∧ sys.pair = some (request, child) := by
  have hfits := h.fits
  rw [pair]
  rcases hhand with hhand | ⟨reason, hhand⟩
  all_goals
    rw [hhand] at hfits ⊢
    exact ⟨hfits, rfl, rfl, rfl, rfl⟩

theorem finishRequest (hhand : sys.hand = .processSelected request child ∨
      ∃ reason, sys.hand = .rejectSelected request child reason) :
    ({ sys with hand := .none }.finishRequest request child).Arbitrated ∧
      sys.Exchanges ({ sys with hand := .none }.finishRequest request child) := by
  obtain ⟨hselected, hrequests, hchildren, hrejecting, hpair⟩ := h.taken hhand
  have hended := h.childEnds .rejected hrequests hchildren
  rw [hrejecting] at hended
  have hentry : ({ sys with hand := .none }.finishRequest request child).entry =
      sys.entry.withoutPair sys.isCancelled request :=
    ListenerEntry.finishSelectedRequest_of_processing hselected
  constructor
  · have hends : ((({ sys with hand := .none }.leaves request .failed).ends child
        .rejected).withEntry (sys.entry.withoutPair sys.isCancelled request)).Arbitrated :=
      hended.pairEnds rfl .failed hselected
    rw [← ListenerEntry.finishSelectedRequest_of_processing hselected] at hends
    exact hends
  · apply Exchanges.of_resolved
    · rw [pair, hentry]
      exact selectPair_pair sys.isCancelled { sys.entry.queues with selected := none }
    · intro p hp
      rw [hpair] at hp
      cases hp
      show request ∈ (sys.left ++ [(request, WaiterEnd.failed)]).map Prod.fst ∧
        child ∈ (sys.ended ++ [(child, ChildEnd.rejected)]).map Prod.fst
      simp

theorem finishRoute (hhand : sys.hand = .none) {route : ConnectionToken} {started : Bool}
    (hselected : sys.entry.queues.selected = some (.routed request route started))
    (waiterEnd : WaiterEnd) (childEnd : ChildEnd) :
    (sys.finishRoute request route waiterEnd childEnd).Arbitrated ∧
      sys.Exchanges (sys.finishRoute request route waiterEnd childEnd) := by
  have hentry : (sys.finishRoute request route waiterEnd childEnd).entry =
      sys.entry.withoutPair sys.isCancelled request :=
    ListenerEntry.finishSelectedRoute_of_routed hselected
  constructor
  · -- the pair is taken in hand, and then its child and its waiter are resolved
    have hready := @putsDown sys h (some (.ready request ⟨route⟩)) (by rw [hhand]; rfl)
      (by rw [hhand]; rfl) (by rw [hselected]; rfl)
      (by rw [ListenerQueues.child, hselected, hhand]; rfl)
    have htaken := hready.chooses rfl (.takes rfl (.inl rfl))
    rw [withEntry_of_permits (by rfl)] at htaken
    have hends : ((({ sys with hand := .none }.leaves request waiterEnd).ends ⟨route⟩
        childEnd).withEntry (sys.entry.withoutPair sys.isCancelled request)).Arbitrated :=
      (htaken.childEnds childEnd rfl rfl).pairEnds rfl waiterEnd rfl
    rw [← ListenerEntry.finishSelectedRoute_of_routed hselected, ← hhand] at hends
    exact hends
  · apply Exchanges.of_resolved
    · rw [pair, hentry]
      show Paired _ _ (sys.hand.pair _)
      rw [hhand]
      exact selectPair_pair sys.isCancelled { sys.entry.queues with selected := none }
    · intro p hp
      rw [pair, hhand, hselected] at hp
      cases hp
      show request ∈ (sys.left ++ [(request, waiterEnd)]).map Prod.fst ∧ IncomingChild.mk route ∈
          (sys.ended ++ [(IncomingChild.mk route, childEnd)]).map Prod.fst
      simp

theorem processSelected (hhand : sys.hand = .processSelected request child)
    {outcome : PairOutcome} {after : AcceptSystem}
    (hafter : { sys with hand := .none }.processSelected request child outcome =
      some after) : after.Arbitrated ∧ sys.Exchanges after := by
  obtain ⟨hselected, hrequests, hchildren, hrejecting, hpair⟩ := h.taken (.inl hhand)
  have hrouted := ListenerEntry.routeSelected_of_processing child.route hselected
  have hroutes : { sys with
      hand := .none
      entry := { sys.entry with
        queues := { sys.entry.queues with
          selected := some (.routed request child.route false) } } }.Arbitrated := by
    apply h.putsDown hrequests hrejecting
    · rw [hselected]
      rfl
    · rw [ListenerQueues.child, hselected, hchildren]
      rfl
  cases outcome with
  | rejects =>
    cases hafter
    exact h.finishRequest (.inl hhand)
  | errs =>
    -- the pair is given up and no other one is chosen
    cases hafter
    have hended := h.childEnds .failed hrequests hchildren
    rw [hrejecting] at hended
    have hnone : ({ sys with hand := .none }.ends child .failed).pair = none := by
      show ListenerAction.none.pair sys.entry.queues.selected = none
      rw [hselected]
      rfl
    refine ⟨hended, ?_, ?_⟩
    · intro p hp
      rw [hnone] at hp
      cases hp
    · intro p q _ hq
      rw [hnone] at hq
      cases hq
  | routes =>
    simp only [AcceptSystem.processSelected, hrouted, Option.some.injEq] at hafter
    subst hafter
    rw [withEntry_of_permits (by rfl)]
    exact ⟨hroutes, .of_same hpair.symm⟩
  | failsRouted =>
    simp only [AcceptSystem.processSelected, hrouted, Option.some.injEq] at hafter
    subst hafter
    rw [withEntry_of_permits (by rfl)]
    obtain ⟨hends, hexchanges⟩ := hroutes.finishRoute rfl rfl .failed .failed
    exact ⟨hends, hexchanges.of_before hpair.symm rfl⟩

theorem execute {outcome : PairOutcome} {after : AcceptSystem}
    (hafter : sys.execute outcome = some after) : after.Arbitrated ∧ sys.Exchanges after := by
  have hdown (hrequests : sys.hand.requests = []) (hchildren : sys.hand.children = [])
      (hrejecting : sys.hand.rejecting = 0) : { sys with hand := .none }.Arbitrated :=
    h.putsDown hrequests hrejecting rfl (by rw [hchildren, append_nil]; rfl)
  unfold AcceptSystem.execute at hafter
  split at hafter
  · next hhand =>
    cases hafter
    exact ⟨h.waiterLeaves .cancelled (.inl hhand), .of_same (by rw [pair, pair, hhand]; rfl)⟩
  · next hhand =>
    cases hafter
    exact ⟨h.waiterLeaves .failed (.inr hhand), .of_same (by rw [pair, pair, hhand]; rfl)⟩
  · next hhand =>
    cases hafter
    have hended := h.childEnds .rejected (by rw [hhand]; rfl) (by rw [hhand]; rfl)
    rw [hhand] at hended
    rw [withEntry_of_permits (by rfl)]
    exact ⟨hended, .of_same (by rw [pair, pair, hhand]; rfl)⟩
  · next hhand => exact h.processSelected hhand hafter
  · next reason hhand =>
    cases hafter
    exact h.finishRequest (.inr ⟨reason, hhand⟩)
  · next request route hhand =>
    have hidle := hdown (by rw [hhand]; rfl) (by rw [hhand]; rfl) (by rw [hhand]; rfl)
    have hpair : { sys with hand := ListenerAction.none }.pair = sys.pair := by
      rw [pair, pair, hhand]
      rfl
    split at hafter
    · cases hafter
      obtain ⟨started, hselected⟩ : ∃ started,
          sys.entry.queues.selected = some (.routed request route started) := by
        have := h.fits
        rwa [hhand] at this
      obtain ⟨hends, hexchanges⟩ := hidle.finishRoute rfl hselected .paired .paired
      exact ⟨hends, hexchanges.of_before hpair rfl⟩
    · cases hafter
      rw [withEntry_of_permits (ListenerEntry.markSelectedRouteClosing_permits _ _)]
      refine ⟨hidle.marksClosing rfl route, .of_same ?_⟩
      rw [← hpair]
      exact ListenerEntry.markSelectedRouteClosing_pair _ _
  case h_9 => cases hafter
  all_goals
    next hhand =>
    cases hafter
    exact ⟨hdown (by rw [hhand]; rfl) (by rw [hhand]; rfl) (by rw [hhand]; rfl),
      .of_same (by rw [pair, pair, hhand]; rfl)⟩

/-- The listener starts to close, or has its result stored. -/
theorem closes {closing open_ : Bool} {failure : Option Error}
    {outcome : Option (Except Error Unit)}
    (hclosing : sys.entry.isClosing = true → (closing || !open_) = true) :
    { sys with entry := { sys.entry with closing, open_, failure, outcome } }.Arbitrated :=
  { h with
    requests := fun r =>
      { h.requests r with
        selectedHolds := by
          refine Nat.le_trans (h.requests r).selectedHolds (Nat.add_le_add_left ?_ _)
          exact Bool.toNat_le_toNat hclosing }
    finalized := fun hstarted => by
      obtain ⟨hbefore, hempty⟩ := h.finalized hstarted
      exact ⟨hclosing hbefore, hempty⟩ }

theorem requestClose : { sys with entry := sys.entry.requestClose.2 }.Arbitrated := by
  rw [ListenerEntry.requestClose_eq]
  exact h.closes fun _ => rfl

theorem fail (error : Error) :
    { sys with entry := (sys.entry.fail error).2 }.Arbitrated := by
  rw [ListenerEntry.fail, ListenerEntry.requestClose_eq]
  exact h.closes fun _ => rfl

/-- Which permits were given back matters, not in which order. -/
theorem of_returned {returned : List RequestId}
    (hcount : ∀ r, sys.returned.count r = returned.count r) : { sys with returned }.Arbitrated :=
  { h with
    requests := fun r =>
      { h.requests r with permits := (h.requests r).permits.trans (by rw [hcount r]) } }

end

/-- The engine fails waiters from the front of the queue. -/
theorem failWaiters (budget : Nat) (h : sys.Arbitrated) (hhand : sys.hand = .none) :
    { (popWaiters budget sys.entry).1.foldl complete
        (sys.withEntry (popWaiters budget sys.entry).2) with
      left := sys.left ++ (popWaiters budget sys.entry).1.map
        fun request => (request, WaiterEnd.failed) }.Arbitrated := by
  induction budget generalizing sys with
  | zero =>
    rw [popWaiters, withEntry_of_permits rfl]
    simpa using h
  | succ budget ih =>
    cases hwaiters : sys.entry.queues.waiters with
    | nil =>
      simp only [popWaiters, hwaiters]
      rw [withEntry_of_permits rfl]
      simpa using h
    | cons request waiters =>
      let l := { sys.entry with
        queues := { sys.entry.queues with waiters := waiters } }.releasePermit request
      have hpop : { sys.withEntry l with
          hand := .failUnselected request }.Arbitrated :=
        h.chooses hhand (.pops hwaiters (.inr rfl))
      have hrest := ih (hpop.waiterLeaves .failed (.inr rfl)) rfl
      obtain ⟨_, hkeep⟩ := popWaiters_permits budget l
      have hreturned (r : RequestId) :
          ((sys.withEntry l).withEntry (popWaiters budget l).2).returned.count r =
            (sys.withEntry (popWaiters budget l).2).returned.count r :=
        withEntry_withEntry rfl hkeep r
      rw [foldl_complete] at hrest
      have hordered := hrest.of_returned hreturned
      simp only [popWaiters, hwaiters]
      rw [foldl_complete]
      rw [map_cons, append_cons]
      rw [← hhand] at hordered
      exact hordered

/-- The permit of a selected request is released by the failure of the engine. -/
theorem failSelected (h : sys.Arbitrated) (hclosing : sys.entry.isClosing = true)
    (hmem : request ∈ sys.entry.queues.request) :
    ((sys.withEntry (sys.entry.releasePermit request)).complete request).Arbitrated := by
  obtain ⟨hknown, hunheld⟩ := h.selected_unheld hmem
  have hcompleted := h.setComplete hknown hunheld
  exact { hcompleted with
    requests := fun r => by
      have hselected := count_singleton_le hmem r
      have hpermits := count_filter_ne sys.entry.permits request r
      have hreturned := @withEntry_permits sys (sys.entry.releasePermit request) (· ≠ request) rfl r
      have hclosed : sys.entry.isClosing.toNat = 1 := by rw [hclosing]; rfl
      cases h.requests r
      constructor <;> simp -failIfUnchanged only [withEntry, complete, ListenerEntry.releasePermit,
        ListenerEntry.isClosing, count_insert, ← count_singleton] at * <;> omega
    permitBound :=
      Nat.le_trans (Nat.add_le_add_left (length_filter_le _ _) _) h.permitBound }

theorem terminalize (h : sys.Arbitrated) (hhand : sys.hand = .none) (error : Error)
    (budget : Nat) {after : AcceptSystem}
    (hafter : sys.step (.terminalize error budget) = some after) : after.Arbitrated := by
  simp only [step, hhand, if_true, Option.some.injEq] at hafter
  have hclosed : { sys with entry := sys.entry.closedBy error }.Arbitrated :=
    h.closes fun _ => rfl
  have hfailed := hclosed.failWaiters budget hhand
  obtain ⟨hframe, hclosing⟩ :=
    ListenerEntry.popWaiters_frame budget (sys.entry.closedBy error)
  have hwaiting : ∀ r ∈ (popWaiters budget (sys.entry.closedBy error)).1,
      r ∈ (sys.entry.closedBy error).queues.waiters :=
    fun r hr => ListenerEntry.mem_popWaiters hr
  have hall : (popWaiters budget (sys.entry.closedBy error)).1.filter
      (· ∈ sys.entry.queues.waiters) = (popWaiters budget (sys.entry.closedBy error)).1 := by
    rw [filter_eq_self]
    intro r hr
    exact decide_eq_true (hwaiting r hr)
  obtain heq | ⟨selected, hselected, heq⟩ :=
    ListenerEntry.terminalizeWaiters_cases sys.entry error budget
  · rw [heq, hall] at hafter
    subst hafter
    exact hfailed
  · rw [heq] at hafter
    have hmem : selected.request ∈ sys.entry.queues.request := by
      have : sys.entry.queues.selected = some selected := hframe.symm.trans hselected
      simp [ListenerQueues.request, this]
    have hnot : selected.request ∉ sys.entry.queues.waiters := fun hr =>
      (h.selected_unheld hmem).2 (mem_append_left _ (mem_append_right _ hr))
    have hout : [selected.request].filter (· ∈ sys.entry.queues.waiters) = [] := by
      simp [hnot]
    rw [filter_append, hall, hout, append_nil, foldl_append,
      foldl_complete (popWaiters budget (sys.entry.closedBy error)).1] at hafter
    rw [foldl_complete] at hfailed
    have hkept : selected.request ∈ (popWaiters budget
        (sys.entry.closedBy error)).2.queues.request := by
      simp [ListenerQueues.request, hselected]
    obtain ⟨keep, hkeep⟩ :=
      popWaiters_permits budget (sys.entry.closedBy error)
    have hkeep : (popWaiters budget (sys.entry.closedBy error)).2.permits =
        sys.entry.permits.filter keep := hkeep
    have hboth := (hfailed.failSelected hclosing hkept).of_returned (withEntry_withEntry hkeep rfl)
    subst hafter
    exact hboth

theorem step (h : sys.Arbitrated) {label : AcceptLabel} {after : AcceptSystem}
    (hstep : sys.step label = some after) : after.Arbitrated ∧ sys.Exchanges after := by
  cases label with
  | accept =>
    obtain ⟨hguard, rfl⟩ := Machine.of_guard hstep
    exact ⟨h.accept hguard.1 hguard.2.2, .of_same rfl⟩
  | cancel =>
    obtain ⟨_, rfl⟩ := Machine.of_guard hstep
    exact ⟨h.cancelled _, .of_same rfl⟩
  | withdraw =>
    obtain ⟨hqueued, rfl⟩ := Machine.of_guard hstep
    exact ⟨h.cancelQueued hqueued.2, .of_same rfl⟩
  | admitAccept =>
    simp only [AcceptSystem.step] at hstep
    split at hstep
    · next hhand hingress =>
      split at hstep
      · next hentry =>
        cases hstep
        exact h.registerWaiter hhand hingress hentry
      · cases hstep
        exact ⟨h.refuseAccept hingress, .of_same rfl⟩
    · cases hstep
  | connectRequest =>
    obtain ⟨hguard, hsome⟩ := Option.ite_none_right_eq_some.mp hstep
    dsimp only at hsome
    split at hsome
    · next hadmitted =>
      cases hsome
      exact h.admitChild hguard.1 hguard.2 hadmitted
    · cases hsome
      exact ⟨h.refuseChild hguard.2, .of_same rfl⟩
  | service =>
    obtain ⟨hhand, rfl⟩ := Machine.of_guard hstep
    have hnext := ListenerEntry.nextAction_chooses sys.isCancelled sys.isDelivered sys.entry
    refine ⟨h.chooses hhand hnext, .of_paired ?_⟩
    rw [pair, hhand]
    exact hnext.pair
  | execute => exact h.execute hstep
  | establish =>
    simp only [AcceptSystem.step] at hstep
    split at hstep
    · next request _ _ _ hselected =>
      cases hstep
      have hmem : request ∈ sys.entry.queues.request := by
        simp [ListenerQueues.request, hselected, SelectedAccept.request]
      obtain ⟨hknown, hunheld⟩ := h.selected_unheld hmem
      exact ⟨h.setComplete hknown hunheld, .of_same rfl⟩
    · cases hstep
  | deliver =>
    obtain ⟨hcompleted, rfl⟩ := Machine.of_guard hstep
    exact ⟨h.delivers hcompleted, .of_same rfl⟩
  | routeCloses =>
    simp only [AcceptSystem.step] at hstep
    split at hstep
    · next hhand _ =>
      cases hstep
      refine ⟨h.marksClosing hhand _, .of_same ?_⟩
      rw [pair, pair, hhand]
      exact ListenerEntry.markSelectedRouteClosing_pair _ _
    · cases hstep
  | routeEnds =>
    simp only [AcceptSystem.step] at hstep
    split at hstep
    · next hhand hselected =>
      cases hstep
      exact h.finishRoute hhand hselected _ _
    · cases hstep
  | close =>
    cases hstep
    refine ⟨h.requestClose, .of_same ?_⟩
    rw [pair, ListenerEntry.requestClose_eq]
    rfl
  | closeAdmission =>
    cases hstep
    exact ⟨h.closes fun _ => by simp, .of_same rfl⟩
  | fail error =>
    cases hstep
    refine ⟨h.fail error, .of_same ?_⟩
    rw [pair, ListenerEntry.fail, ListenerEntry.requestClose_eq]
    rfl
  | terminalize error budget =>
    obtain ⟨hhand, hsome⟩ := Option.ite_none_right_eq_some.mp hstep
    refine ⟨h.terminalize hhand error budget hstep, ?_⟩
    cases hsome
    apply Exchanges.of_same
    rw [foldl_complete]
    exact congrArg sys.hand.pair (ListenerEntry.terminalizeWaiters_selected _ _ _)

end Arbitrated

namespace Arbitrated

theorem room (h : sys.Arbitrated) (hopen : sys.entry.isClosing = false)
    (hingress : sys.ingress ≠ []) :
    sys.entry.queues.waiters.length + sys.entry.queues.request.length <
      sys.entry.backlog := by
  have hheld : sys.entry.queues.line.Subperm sys.entry.permits := by
    refine subperm_ext_iff.mpr fun r _ => ?_
    have hclosing : sys.entry.isClosing.toNat = 0 := by rw [hopen]; rfl
    rw [ListenerQueues.line, count_append]
    cases h.requests r
    omega
  have hle := hheld.length_le
  have hpos := length_pos_iff.mpr hingress
  have hbound := h.permitBound
  rw [ListenerQueues.line, length_append] at hle
  omega

end Arbitrated

end AcceptSystem

end RdmaIo.Engine
