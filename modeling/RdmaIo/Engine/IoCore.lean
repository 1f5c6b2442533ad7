/-
The I/O core of the engine: the operation registry with its completion queue
credits, the ledger of one established connection, and the functions that submit,
complete, cancel, quarantine and reclaim operations.  A function that works on a
connection takes its ledger and returns the new one; what it publishes is returned
as effects.  The provider's answers, the availability of a fresh registry page and
the set of cancelled observers are arguments.
-/
import RdmaIo.Engine.Operation

namespace RdmaIo.Engine

open SlotRegistry

/-- Credits of the shared completion queue. -/
structure CqCreditPool where
  capacity : Nat
  used : Nat
  retained : Nat
deriving Repr, DecidableEq

namespace CqCreditPool

variable (pool : CqCreditPool)

def reserve : Option CqCreditPool :=
  if pool.used ≥ pool.capacity then none else some { pool with used := pool.used + 1 }

def release : CqCreditPool :=
  { pool with used := pool.used - 1 }

def retain : CqCreditPool :=
  { pool with retained := pool.retained + 1 }

def releaseRetained : CqCreditPool :=
  { pool with retained := pool.retained - 1 }

end CqCreditPool

inductive CqeReject where
  | staleConnection
  | staleOperation
  | retiredOperation
  | unknown
  | duplicate
  | wrongConnection
  | wrongQpNum
  | unexpectedOpcode
deriving Repr, DecidableEq

structure IoState where
  operations : Registry OperationState
  cqCredits : CqCreditPool
  rejectedCqes : Nat
  rejectedCqeReasons : List CqeReject
  acceptedOperations : Nat
  pendingReclamations : Nat
  quarantinedOperations : Nat
  quarantinedMrs : Nat
  quarantinedBytes : Nat
  publishedCompletionConnections : List ConnectionToken
  admissionError : Option Error
  shutdownRequested : Bool
  completionDispatchBudget : Nat
  reclamationRequests : List OperationToken
  terminalFailure : Option Error

/-- The ledger of the work one connection has with the provider. -/
structure ConnectionIoState where
  identity : EstablishedIoIdentity
  maxSendWr : Nat
  maxRecvWr : Nat
  localSend : Nat
  localRecv : Nat
  accepted : Finset OperationToken
  completions : List WorkCompletion
  quarantined : Finset OperationToken

namespace ConnectionIoState

def fromConnection (identity : EstablishedIoIdentity) (maxSendWr maxRecvWr : Nat) :
    ConnectionIoState where
  identity := identity
  maxSendWr := maxSendWr
  maxRecvWr := maxRecvWr
  localSend := 0
  localRecv := 0
  accepted := ∅
  completions := []
  quarantined := ∅

variable (ledger : ConnectionIoState)

def acceptedCount : Nat :=
  ledger.accepted.card

/-- The source asserts that the operation is accepted. -/
def markOperationQuarantined (operation : OperationToken) : Bool × ConnectionIoState :=
  (operation ∉ ledger.quarantined,
    { ledger with quarantined := insert operation ledger.quarantined })

def clearOperationQuarantined (operation : OperationToken) : Bool × ConnectionIoState :=
  (operation ∈ ledger.quarantined ∧ ledger.quarantined.erase operation = ∅,
    { ledger with quarantined := ledger.quarantined.erase operation })

def localUsed : Direction → Nat
  | .send => ledger.localSend
  | .recv => ledger.localRecv

def reserveLocal : Direction → Option ConnectionIoState
  | .send =>
    if ledger.localSend ≥ ledger.maxSendWr then none
    else some { ledger with localSend := ledger.localSend + 1 }
  | .recv =>
    if ledger.localRecv ≥ ledger.maxRecvWr then none
    else some { ledger with localRecv := ledger.localRecv + 1 }

def releaseLocal : Direction → ConnectionIoState
  | .send => { ledger with localSend := ledger.localSend - 1 }
  | .recv => { ledger with localRecv := ledger.localRecv - 1 }

def releaseOperationLocal (identity : EstablishedIoIdentity)
    (direction : Direction) : ConnectionIoState :=
  if ledger.identity ≠ identity then ledger else ledger.releaseLocal direction

def addAccepted (token : OperationToken) : ConnectionIoState :=
  { ledger with accepted := insert token ledger.accepted }

def addOperationAccepted (identity : EstablishedIoIdentity)
    (token : OperationToken) : ConnectionIoState :=
  if ledger.identity = identity then ledger.addAccepted token else ledger

def removeAccepted (token : OperationToken) : Bool × ConnectionIoState :=
  (token ∈ ledger.accepted, { ledger with accepted := ledger.accepted.erase token })

def removeOperationAccepted (identity : EstablishedIoIdentity)
    (token : OperationToken) : Bool × ConnectionIoState :=
  if ledger.identity ≠ identity then (false, ledger) else ledger.removeAccepted token

def enqueueCompletion (completion : WorkCompletion) : ConnectionIoState :=
  { ledger with completions := ledger.completions ++ [completion] }

end ConnectionIoState

inductive OperationQuarantineEffect where
  | added (connection : ConnectionToken) (operation : OperationToken)
  | cleared (connection : ConnectionToken) (operation : OperationToken)
deriving Repr, DecidableEq

/-- What an I/O step publishes once the session has applied its quarantine and
drain effects.  `observed` are the results stored in observers and `dropped` the
regions that are freed, both at once. -/
structure IoCoreEffects where
  events : List IoCompletionEvent
  operations : List ObserverId
  closes : List ConnectionToken
  observed : List (ObserverId × ObserverOutput)
  dropped : List Mr
  quarantine : List OperationQuarantineEffect
  drained : List ConnectionToken

namespace IoCoreEffects

def empty : IoCoreEffects := ⟨[], [], [], [], [], [], []⟩

def extend (effects other : IoCoreEffects) : IoCoreEffects where
  events := effects.events ++ other.events
  operations := effects.operations ++ other.operations
  closes := effects.closes ++ other.closes
  observed := effects.observed ++ other.observed
  dropped := effects.dropped ++ other.dropped
  quarantine := effects.quarantine ++ other.quarantine
  drained := effects.drained ++ other.drained

def ofEvents (events : List IoCompletionEvent) : IoCoreEffects :=
  { empty with events := events }

end IoCoreEffects

/-- The error of a refused slot allocation. -/
def allocateError : AllocateError → Error
  | .capacityExhausted => .capacityExhausted
  | .pageAllocationFailed => .invalidConfig "registry page allocation failed"
  | .nonVacantSlot => .invalidConfig "registry allocator selected a non-vacant slot"

/-- `OperationToken::encode`. -/
def encode (token : Token) : Nat := token.generation * 2 ^ 32 + token.slot

/-- `OperationToken::decode`. -/
def decode (raw : Nat) : Token := ⟨raw % 2 ^ 32, raw / 2 ^ 32⟩

/-- A completion matched to a registered operation, before it is proven to belong
to its connection. -/
structure PendingCompletion where
  completion : WorkCompletion
  token : OperationToken
  identity : EstablishedIoIdentity

/-- `LiveIoConnectionProof`. -/
structure LiveIoConnectionProof where
  connection : ConnectionToken
  qpNum : Nat
deriving Repr, DecidableEq

namespace IoState

def newOwned (maxInflightOperations cqCapacity completionDispatchBudget : Nat) : IoState where
  operations := .new maxInflightOperations
  cqCredits := ⟨cqCapacity, 0, 0⟩
  rejectedCqes := 0
  rejectedCqeReasons := []
  acceptedOperations := 0
  pendingReclamations := 0
  quarantinedOperations := 0
  quarantinedMrs := 0
  quarantinedBytes := 0
  publishedCompletionConnections := []
  admissionError := none
  shutdownRequested := false
  completionDispatchBudget := completionDispatchBudget
  reclamationRequests := []
  terminalFailure := none

variable (io : IoState)

def closeAdmission (error : Option Error) : IoState :=
  { io with shutdownRequested := true, admissionError := error }

variable (connection : ConnectionToken)

/-- Forget a released connection, whose ledger is empty. -/
def retireConnectionIo : IoState :=
  { io with publishedCompletionConnections :=
      io.publishedCompletionConnections.filter (· ≠ connection) }

def rejectCqe (reason : CqeReject) : IoState :=
  { io with rejectedCqes := io.rejectedCqes + 1,
            rejectedCqeReasons := io.rejectedCqeReasons ++ [reason] }

/-- The reason under which a completion for a token that is not occupied is
rejected. -/
def lookupReject {α : Type} : Lookup α → CqeReject
  | .duplicate | .occupied _ => .duplicate
  | .stale => .staleOperation
  | .retired => .retiredOperation
  | .unknown => .unknown

def prepareCompletion (completion : WorkCompletion) : Option PendingCompletion × IoState :=
  let token := decode completion.wrId
  match io.operations.lookup token with
  | .occupied operation => (some ⟨completion, token, operation.identity⟩, io)
  | refused => (none, io.rejectCqe (lookupReject refused))

/-- The last step of `enqueue_prepared_completion`: claim the single hand-off. -/
def queueCompletion (pending : PendingCompletion)
    (ledger : ConnectionIoState) : Option ConnectionToken × IoState × ConnectionIoState :=
  match (io.operations.get? pending.token).bind OperationState.markCompletionQueued with
  | some queued =>
    (some pending.identity.connection,
      { io with operations := io.operations.set pending.token queued },
      ledger.enqueueCompletion pending.completion)
  | none => (none, io.rejectCqe .duplicate, ledger)

/-- `connection` is the identity of the established connection the session looked
up for the completion. -/
def enqueuePreparedCompletion (pending : PendingCompletion)
    (live : Option LiveIoConnectionProof) (connection : EstablishedIoIdentity)
    (ledger : ConnectionIoState) : Option ConnectionToken × IoState × ConnectionIoState :=
  let identity := pending.identity
  if pending.completion.qpNum ≠ identity.qpNum then
    (none, io.rejectCqe .wrongQpNum, ledger)
  else if live ≠ some ⟨identity.connection, identity.qpNum⟩ ∨ connection ≠ identity
      ∨ ledger.identity ≠ identity then
    (none, io.rejectCqe .wrongConnection, ledger)
  else if pending.completion.isSuccess then
    match io.operations.lookup pending.token with
    | .occupied operation =>
      if pending.completion.opcode ≠ operation.expectedOpcode then
        (none, io.rejectCqe .unexpectedOpcode, ledger)
      else io.queueCompletion pending ledger
    | refused => (none, io.rejectCqe (lookupReject refused), ledger)
  else io.queueCompletion pending ledger

/-- The counters a released operation gives back, in the order of the source. -/
def unwindRelease (mrLen : Nat) (finished : OperationState.FinishState) : IoState :=
  let io := { io with cqCredits := io.cqCredits.release,
                      acceptedOperations := io.acceptedOperations - 1 }
  let io := if finished.wasReclaiming then
      { io with pendingReclamations := io.pendingReclamations - 1 } else io
  if finished.wasQuarantined then
    { io with cqCredits := io.cqCredits.releaseRetained,
              quarantinedOperations := io.quarantinedOperations - 1,
              quarantinedMrs := io.quarantinedMrs - 1,
              quarantinedBytes := io.quarantinedBytes - mrLen }
  else io

variable (ledger : ConnectionIoState)

/-- The effects of a finished operation: its event, its observer and its region,
and the quarantine it leaves if the ledger lists it. -/
def finishedEffects (operation : OperationState) (finished : OperationState.FinishState)
    (closes : List ConnectionToken) : IoCoreEffects where
  events := finished.event.toList
  operations := finished.observer.toList
  closes := closes
  observed := (finished.observer.bind fun observer =>
    finished.completed.map fun output => (observer, output)).toList
  dropped := finished.dropped.toList
  quarantine :=
    if finished.wasQuarantined ∧ operation.token ∈ ledger.quarantined then
      [.cleared operation.connectionToken operation.token] else []
  drained := []

variable (token : OperationToken)

def finishOperationWithDrained (completion : WorkCompletion) (emitDrained : Bool)
    (cancelled : ObserverId → Bool) : IoState × ConnectionIoState × IoCoreEffects :=
  match io.operations.release token true with
  | none => (io.rejectCqe .duplicate, ledger, .empty)
  | some (operation, operations) =>
    let (removed, ledger) :=
      ledger.removeOperationAccepted operation.identity operation.token
    let ledger := ledger.releaseOperationLocal operation.identity operation.direction
    let finished := (operation.finishCompletion completion cancelled).1
    let io := { io with operations := operations }.unwindRelease operation.mrLen finished
    let effects := finishedEffects ledger operation finished
      (if removed then [operation.connectionToken] else [])
    let count := if ledger.identity = operation.identity then ledger.acceptedCount else 0
    (io, ledger, { effects with
      drained := if emitDrained ∧ removed ∧ count = 0 then [operation.connectionToken]
        else [] })

def finishOperation (completion : WorkCompletion) (cancelled : ObserverId → Bool) :
    IoState × ConnectionIoState × IoCoreEffects :=
  io.finishOperationWithDrained ledger token completion true cancelled

def finishEarlyCompletion (completion : WorkCompletion) (cancelled : ObserverId → Bool) :
    IoState × ConnectionIoState × IoCoreEffects :=
  io.finishOperationWithDrained ledger token completion false cancelled

/-- Route one dequeued completion to its operation. -/
def dispatchQueuedCompletion (completion : WorkCompletion) (cancelled : ObserverId → Bool) :
    IoState × ConnectionIoState × IoCoreEffects :=
  let token := decode completion.wrId
  match io.operations.lookup token with
  | .occupied operation =>
    let (disposition, recorded) := operation.recordCompletion completion
    let io := { io with operations := io.operations.set token recorded }
    match disposition with
    | .deferred => (io, ledger, .empty)
    | .complete => io.finishOperation ledger token completion cancelled
    | .duplicate => (io.rejectCqe .duplicate, ledger, .empty)
  | refused => (io.rejectCqe (lookupReject refused), ledger, .empty)

/-- Dispatch at most `quantum` queued completions of one connection. -/
def dispatchConnectionCompletions (io : IoState) (ledger : ConnectionIoState)
    (cancelled : ObserverId → Bool) : Nat → IoState × ConnectionIoState × IoCoreEffects
  | 0 => (io, ledger, .empty)
  | quantum + 1 =>
    match ledger.completions with
    | [] => (io, ledger, .empty)
    | completion :: rest =>
      let (io, ledger, effects) :=
        io.dispatchQueuedCompletion { ledger with completions := rest } completion cancelled
      let (io, ledger, more) :=
        io.dispatchConnectionCompletions ledger cancelled quantum
      (io, ledger, effects.extend more)

def beginReclamation : IoState :=
  { io with operations := io.operations.modify token OperationState.markReclaiming }

def scheduleReclamation : IoState :=
  let io := io.beginReclamation token
  { io with reclamationRequests := io.reclamationRequests ++ [token] }

/-- `pending_reclamations += 1` and `schedule_reclamation`. -/
def addReclamation : IoState :=
  { io with pendingReclamations := io.pendingReclamations + 1 }.scheduleReclamation token

def cancelOperation : IoState :=
  match io.operations.get? token with
  | none => io
  | some operation =>
    let (cancelled, operation) := operation.cancelBackend
    let io := { io with operations := io.operations.set token operation }
    if cancelled then io.addReclamation token else io

/-- Count a newly quarantined operation. -/
def addQuarantined (mrLen : Nat) : IoState :=
  { io with quarantinedOperations := io.quarantinedOperations + 1,
            quarantinedMrs := io.quarantinedMrs + 1,
            quarantinedBytes := io.quarantinedBytes + mrLen,
            cqCredits := io.cqCredits.retain }

def quarantineOperation : IoState × IoCoreEffects :=
  match io.operations.get? token with
  | none => (io, .empty)
  | some operation =>
    let (transition, marked) := operation.markQuarantined
    let io := { io with operations := io.operations.set token marked }
    if !transition.newlyQuarantined then (io, .empty)
    else
      let io := if transition.wasReclaiming then
          { io with pendingReclamations := io.pendingReclamations - 1 } else io
      (io.addQuarantined operation.mrLen,
        { IoCoreEffects.empty with
          quarantine := [.added operation.connectionToken token] })

/-- Apply a scan step to each token it found. -/
def scanTokens (visit : IoState → OperationToken → IoState × IoCoreEffects) :
    IoState → List OperationToken → IoState × IoCoreEffects
  | io, [] => (io, .empty)
  | io, token :: rest =>
    let (io, effects) := visit io token
    let (io, more) := scanTokens visit io rest
    (io, effects.extend more)

/-- Fail the observer of one operation of a closing connection. -/
def failObserver (error : Error) (io : IoState)
    (token : OperationToken) : IoState × IoCoreEffects :=
  match io.operations.get? token with
  | none => (io, .empty)
  | some operation =>
    if operation.connectionToken ≠ connection then (io, .empty)
    else
      let (observer, detached) := operation.failObserverForClose
      ({ io with operations := io.operations.set token detached },
        { IoCoreEffects.empty with
          operations := observer.toList
          observed := (observer.map fun observer => (observer, .error error, none)).toList })

def scanConnectionObserversForClose
    (start : Nat) (error : Error) (scanBudget : Nat) : (IoState × IoCoreEffects) × Nat × Bool :=
  let (tokens, next, complete, _) := io.operations.table.scanOccupied start scanBudget
  (io.scanTokens (failObserver connection error) tokens, next, complete)

/-- Quarantine one operation of a connection under bundle quarantine. -/
def quarantineOwned (io : IoState) (token : OperationToken) : IoState × IoCoreEffects :=
  match io.operations.get? token with
  | none => (io, .empty)
  | some operation =>
    if operation.connectionToken = connection then io.quarantineOperation token
    else (io, .empty)

def scanConnectionQuarantine (start scanBudget : Nat) : (IoState × IoCoreEffects) × Nat × Bool :=
  let (tokens, next, complete, _) := io.operations.table.scanOccupied start scanBudget
  (io.scanTokens (quarantineOwned connection) tokens, next, complete)

/-- Quarantine one operation at the driver's terminal failure. -/
def terminalizeOperation (outcome : Error) (cancelled : ObserverId → Bool) (io : IoState)
    (token : OperationToken) : IoState × IoCoreEffects :=
  match io.operations.get? token with
  | none => (io, .empty)
  | some operation =>
    let (terminalized, operation') := operation.finalizeTerminal cancelled
    let io := { io with operations := io.operations.set token operation' }
    let io := if terminalized.wasReclaiming then
        { io with pendingReclamations := io.pendingReclamations - 1 } else io
    let io := if terminalized.newlyQuarantined then io.addQuarantined operation.mrLen else io
    (io, { IoCoreEffects.empty with
      operations := terminalized.observer.toList
      observed := (terminalized.observer.map fun observer =>
        (observer, .error outcome, none)).toList
      quarantine := if terminalized.newlyQuarantined then
        [.added operation.connectionToken token] else [] })

def terminalizeOperationsBounded (outcome : Error) (cancelled : ObserverId → Bool)
    (cursor budget : Nat) : (IoState × IoCoreEffects) × Nat × Bool × Nat :=
  let (tokens, next, complete, scanned) := io.operations.table.scanOccupied cursor budget
  (io.scanTokens (terminalizeOperation outcome cancelled) tokens, next, complete, scanned)

/-- Reclaim one accepted operation under a proof that its queue pair is gone. -/
def reclaimAfterQpDestroy (proof : LiveIoConnectionProof) (identity : EstablishedIoIdentity)
    (ledger : ConnectionIoState) (closeError : Error) (token : OperationToken)
    (cancelled : ObserverId → Bool) : Bool × IoState × ConnectionIoState × IoCoreEffects :=
  if proof.connection ≠ identity.connection ∨ proof.qpNum ≠ identity.qpNum then
    (false, io, ledger, .empty)
  else
    match io.operations.get? token with
    | none => (false, io, ledger, .empty)
    | some operation =>
      if operation.connectionToken ≠ identity.connection then (false, io, ledger, .empty)
      else
        let (removed, ledger') := ledger.removeAccepted token
        if !removed then (false, io, ledger, .empty)
        else
          match io.operations.release token false with
          | none => (false, io, ledger'.addAccepted token, .empty)
          | some (operation, operations) =>
            let ledger' := ledger'.releaseLocal operation.direction
            let finished := (operation.finishAfterQpDestroy closeError cancelled).1
            let io := { io with operations := operations }.unwindRelease operation.mrLen finished
            (true, io, ledger', finishedEffects ledger' operation finished [identity.connection])

end IoState

end RdmaIo.Engine
