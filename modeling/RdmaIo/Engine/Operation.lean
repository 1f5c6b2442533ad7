/-
The backend record of one submitted operation and its transitions.  The record
lives in the reactor's operation registry; the frontend observer is shared, so
whether an observer has been cancelled is an argument of the transitions that
read it, and the calls made on an observer are part of what they return.
-/
import RdmaIo.Engine.Error
import RdmaIo.Lib.SlotRegistry

namespace RdmaIo.Engine

open SlotRegistry

abbrev OperationToken := Token
abbrev ConnectionToken := Token

inductive WcOpcode where
  | send
  | rdmaWrite
  | rdmaRead
  | compSwap
  | fetchAdd
  | bindMw
  | localInv
  | tso
  | flush
  | atomicWrite
  | recv
  | recvRdmaWithImm
  | tmAdd
  | tmDel
  | tmSync
  | tmRecv
  | tmNoTag
  | unknown (raw : Nat)
deriving Repr, DecidableEq

/-- The fields of a completion queue entry that the engine reads. -/
structure WorkCompletion where
  wrId : Nat
  status : Nat
  vendorErr : Nat
  opcode : WcOpcode
  qpNum : Nat
deriving Repr, DecidableEq

def WorkCompletion.isSuccess (completion : WorkCompletion) : Bool :=
  completion.status == 0

/-- `Completion::result`, with the typed completion as its value. -/
def WorkCompletion.result (completion : WorkCompletion) : Except Error WorkCompletion :=
  if completion.isSuccess then .ok completion
  else .error (.completionError completion.status completion.vendorErr)

/-- A registered memory region. -/
structure Mr where
  id : Nat
  addr : Nat
  len : Nat
deriving Repr, DecidableEq

inductive Direction where
  | send
  | recv
deriving Repr, DecidableEq

inductive OperationKind where
  | send
  | recv
  | write
  | read
deriving Repr, DecidableEq

def OperationKind.direction : OperationKind → Direction
  | .recv => .recv
  | .send | .write | .read => .send

def OperationKind.expectedCompletionOpcode : OperationKind → WcOpcode
  | .send => .send
  | .recv => .recv
  | .write => .rdmaWrite
  | .read => .rdmaRead

/-- The connection and queue pair an operation was posted to. -/
structure EstablishedIoIdentity where
  connection : ConnectionToken
  qpNum : Nat
deriving Repr, DecidableEq

/-- The key of a shared `OperationObserver`. -/
abbrev ObserverId := Nat

/-- What `OperationObserver::complete` is called with. -/
abbrev ObserverOutput := Except Error WorkCompletion × Option Mr

/-- An `IoCompletionEvent` on its way to the port of `destination`. -/
structure IoCompletionEvent where
  destination : Nat
  identity : Option OperationToken
  result : Except Error WorkCompletion
  mr : Option Mr
  provenUnaccepted : Bool

inductive OperationLifecycle where
  | posting
  | inFlight
  | completing
  | cancelled
  | reclaiming
  | quarantined
  | released
deriving Repr, DecidableEq

inductive CompletionOwnership where
  | none
  | queued
  | early (completion : WorkCompletion)
deriving Repr, DecidableEq

structure OperationState where
  token : OperationToken
  identity : EstablishedIoIdentity
  direction : Direction
  expectedOpcode : WcOpcode
  mrLen : Nat
  lifecycle : OperationLifecycle
  mr : Option Mr
  completion : CompletionOwnership
  observer : Option ObserverId
  reclamationPending : Bool
  eventDestination : Option Nat
  quarantined : Bool
deriving Repr, DecidableEq

namespace OperationState

variable (op : OperationState)

def connectionToken : ConnectionToken :=
  op.identity.connection

variable (token : OperationToken) (identity : EstablishedIoIdentity) (direction : Direction)

variable (expectedOpcode : WcOpcode)

def newWithObserver (mr : Option Mr) (mrLen : Nat)
    (eventDestination : Option Nat) (observer : Option ObserverId) : OperationState where
  token := token
  identity := identity
  direction := direction
  expectedOpcode := expectedOpcode
  mrLen := mrLen
  lifecycle := .posting
  mr := mr
  completion := .none
  observer := observer
  reclamationPending := false
  eventDestination := eventDestination
  quarantined := false

def newWithEvent (mr : Option Mr) (mrLen : Nat) (eventDestination : Option Nat) : OperationState :=
  newWithObserver token identity direction expectedOpcode mr mrLen eventDestination none

def newScalar (mr : Option Mr) (mrLen : Nat) (observer : ObserverId) : OperationState :=
  newWithObserver token identity direction expectedOpcode mr mrLen none (some observer)

variable (cancelled : ObserverId → Bool)

/-- Whether the operation's observer is there and has been cancelled. -/
def observerCancelled : Bool :=
  op.observer.any cancelled

structure CommitAccepted where
  early : Option WorkCompletion
  cancellationNeedsReclamation : Bool

def commitAccepted : CommitAccepted × OperationState :=
  let isCancelled := op.observerCancelled cancelled
  let accepted : OperationLifecycle := if isCancelled then .cancelled else .inFlight
  let op := { op with reclamationPending := op.reclamationPending || isCancelled }
  let needsReclamation := isCancelled && op.reclamationPending
  match op.completion with
  | .none | .queued => (⟨none, needsReclamation⟩, { op with lifecycle := accepted })
  | .early completion =>
    (⟨some completion, needsReclamation⟩, { op with lifecycle := .completing, completion := .none })

/-- Claim the queue hand-off of one completion, at most once. -/
def markCompletionQueued : Option OperationState :=
  if op.lifecycle = .completing ∨ op.lifecycle = .released ∨ op.completion ≠ .none then none
  else some { op with completion := .queued }

inductive CompletionDisposition where
  | deferred
  | complete
  | duplicate
deriving Repr, DecidableEq

def recordCompletion (completion : WorkCompletion) : CompletionDisposition × OperationState :=
  if op.completion ≠ .queued then (.duplicate, op)
  else
    match op.lifecycle with
    | .posting => (.deferred, { op with completion := .early completion })
    | .inFlight | .cancelled | .reclaiming | .quarantined =>
      (.complete, { op with completion := .none, lifecycle := .completing })
    | .completing | .released => (.duplicate, { op with completion := .none })

def cancelBackend : Bool × OperationState :=
  match op.lifecycle with
  | .inFlight =>
    (true, { op with lifecycle := .cancelled, observer := none, reclamationPending := true })
  | .released => (false, { op with observer := none })
  | .posting => (true, { op with observer := none, reclamationPending := true })
  | .cancelled | .reclaiming | .quarantined | .completing => (false, op)

def markReclaiming : OperationState :=
  if op.lifecycle = .cancelled then { op with lifecycle := .reclaiming } else op

structure QuarantineTransition where
  newlyQuarantined : Bool
  wasReclaiming : Bool

def markQuarantined : QuarantineTransition × OperationState :=
  match op.lifecycle with
  | .inFlight | .cancelled | .reclaiming =>
    (⟨!op.quarantined, op.reclamationPending⟩,
      { op with lifecycle := .quarantined, reclamationPending := false,
                quarantined := true })
  | .posting | .completing | .quarantined | .released => (⟨false, false⟩, op)

/-- Detach the observer of accepted work; the caller completes it with the error. -/
def failObserverForClose : Option ObserverId × OperationState :=
  match op.lifecycle with
  | .inFlight | .cancelled | .reclaiming | .quarantined =>
    (op.observer, { op with observer := none })
  | .posting | .completing | .released => (none, op)

/-- What a finished operation leaves behind.  `completed` is the call of
`OperationObserver::complete`, `dropped` the region that is dropped with no
receiver. -/
structure FinishState where
  wasReclaiming : Bool
  wasQuarantined : Bool
  event : Option IoCompletionEvent
  observer : Option ObserverId
  completed : Option ObserverOutput
  dropped : Option Mr

def finishCompletion (completion : WorkCompletion)
    (cancelled : ObserverId → Bool) : FinishState × OperationState :=
  let finished : OperationState :=
    { op with reclamationPending := false, quarantined := false, mr := none,
              eventDestination := none, observer := none, lifecycle := .released }
  let event := op.eventDestination.map fun destination =>
    { destination := destination, identity := some op.token, result := completion.result,
      mr := op.mr, provenUnaccepted := false : IoCompletionEvent }
  match event, op.observer with
  | some event, observer =>
    (⟨op.reclamationPending, op.quarantined, some event, observer, none, none⟩, finished)
  | none, some observer =>
    if cancelled observer then
      (⟨op.reclamationPending, op.quarantined, none, some observer, none, op.mr⟩, finished)
    else
      (⟨op.reclamationPending, op.quarantined, none, some observer,
        some (completion.result, op.mr), none⟩, finished)
  | none, none =>
    (⟨op.reclamationPending, op.quarantined, none, none, none, op.mr⟩, finished)

def finishAfterQpDestroy (error : Error)
    (cancelled : ObserverId → Bool) : FinishState × OperationState :=
  let finished : OperationState :=
    { op with reclamationPending := false, quarantined := false, mr := none,
              eventDestination := none, observer := none, lifecycle := .released }
  let event := op.eventDestination.map fun destination =>
    { destination := destination, identity := some op.token, result := .error error,
      mr := op.mr, provenUnaccepted := false : IoCompletionEvent }
  match event, op.observer with
  | some event, observer =>
    (⟨op.reclamationPending, op.quarantined, some event, observer, none, none⟩, finished)
  | none, some observer =>
    (⟨op.reclamationPending, op.quarantined, none, some observer,
      if cancelled observer then none else some (.error error, none), op.mr⟩, finished)
  | none, none =>
    (⟨op.reclamationPending, op.quarantined, none, none, none, op.mr⟩, finished)

def canReleaseUnaccepted : Bool :=
  op.lifecycle == .posting && op.completion == .none

/-- Ownership taken from an operation that never reached the provider. -/
structure UnacceptedRelease where
  event : Option IoCompletionEvent
  mr : Option Mr

def takeUnacceptedOwned (error : Error) : UnacceptedRelease × OperationState :=
  let taken : OperationState :=
    { op with lifecycle := .released, mr := none, eventDestination := none }
  match op.eventDestination with
  | some destination =>
    (⟨some { destination := destination, identity := some op.token, result := .error error,
             mr := op.mr, provenUnaccepted := true }, none⟩, taken)
  | none => (⟨none, op.mr⟩, taken)

/-- Detach an operation whose post ended ambiguously; true if its reclamation is
newly pending. -/
def detachWithPostError : Bool × OperationState :=
  (!op.reclamationPending,
    { op with observer := none, lifecycle := .cancelled, reclamationPending := true })

structure TerminalizeState where
  wasReclaiming : Bool
  newlyQuarantined : Bool
  observer : Option ObserverId

/-- Quarantine accepted work at the driver's terminal failure.  The returned
observer has been completed with the terminal error. -/
def finalizeTerminal : TerminalizeState × OperationState :=
  match op.lifecycle with
  | .inFlight | .cancelled | .reclaiming | .quarantined =>
    (⟨op.reclamationPending, op.lifecycle != .quarantined && !op.quarantined,
      op.observer.filter fun observer => !cancelled observer⟩,
      { op with lifecycle := .quarantined,
                quarantined := op.quarantined || op.lifecycle != .quarantined,
                reclamationPending := false, observer := none })
  | .posting | .completing | .released => (⟨false, false, none⟩, op)

end OperationState

end RdmaIo.Engine
