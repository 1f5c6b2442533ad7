/-
Submission of operations to the provider: the single scalar post and the batched post
of the protocol port.  Each reserves every entry, posts once, and then assigns one
owner to what was reserved according to the provider's outcome.
-/
import RdmaIo.Engine.IoCore

namespace RdmaIo.Engine

open SlotRegistry

structure RemoteMr where
  addr : Nat
  len : Nat
deriving Repr, DecidableEq

inductive BatchPostOutcome where
  | allAccepted
  | prefixAccepted (accepted firstUnaccepted : Nat)
  | ambiguous
deriving Repr, DecidableEq

/-- The checks of `ValidatedOperation::new`; the answer is the opcode its completion
will carry. -/
def validateOperation (kind : OperationKind) (mr : Mr) (remote : Option RemoteMr)
    (range : Option (Nat × Nat)) : Except Error WcOpcode :=
  let (offset, len) := range.getD (0, mr.len)
  let stop := offset + len
  let mrLen := mr.len
  if stop ≥ 2 ^ 64 then .error (.invalidConfig "operation range overflow")
  else if stop > mr.len then
    .error (.invalidConfig s!"operation range {offset}..{stop} exceeds MR length {mrLen}")
  else if len ≥ 2 ^ 32 then .error (.invalidConfig "operation length does not fit u32")
  else if mr.addr + offset ≥ 2 ^ 64 then .error (.invalidConfig "local SGE address overflow")
  else
    match kind, remote with
    | .write, none | .read, none =>
      .error (.invalidConfig "RDMA read/write requires a remote MR")
    | .write, some remote | .read, some remote =>
      let remoteLen := remote.len
      if len > remote.len then
        .error (.invalidConfig s!"operation length {len} exceeds remote MR length {remoteLen}")
      else if remote.addr + len ≥ 2 ^ 64 then
        .error (.invalidConfig "remote address range overflow")
      else .ok kind.expectedCompletionOpcode
    | .send, some _ | .recv, some _ =>
      .error (.invalidConfig "SEND/RECV must not carry a remote MR")
    | .send, none | .recv, none => .ok kind.expectedCompletionOpcode

namespace IoState

/-! ### Scalar operations -/

inductive StartResult where
  | inFlight (token : OperationToken)
  | immediate (output : ObserverOutput)

variable (io : IoState) (ledger : ConnectionIoState)

/-- Own an operation that the provider accepted or may have accepted. -/
def commitScalar (token : OperationToken) (cancelled : ObserverId → Bool) :
    Option WorkCompletion × IoState × ConnectionIoState :=
  let io := { io with acceptedOperations := io.acceptedOperations + 1 }
  let ledger := ledger.addAccepted token
  match io.operations.get? token with
  | none => (none, io, ledger)
  | some operation =>
    let (committed, operation) := operation.commitAccepted cancelled
    let io := { io with operations := io.operations.set token operation }
    (committed.early,
      if committed.cancellationNeedsReclamation then io.addReclamation token else io,
      ledger)

/-- Drop a registered operation that never reached the provider. -/
def discardUnposted (token : OperationToken) : Option Mr × IoState :=
  match io.operations.release token false with
  | none => (none, io)
  | some (operation, operations) => (operation.mr, { io with operations := operations })

/-- The end of an accepted scalar post. -/
def finishAccepted (token : OperationToken) (cancelled : ObserverId → Bool) :
    StartResult × IoState × ConnectionIoState × IoCoreEffects :=
  match io.commitScalar ledger token cancelled with
  | (some completion, io, ledger) =>
    let (io, ledger, effects) := io.finishEarlyCompletion ledger token completion cancelled
    (.inFlight token, io, ledger, effects)
  | (none, io, ledger) => (.inFlight token, io, ledger, .empty)

/-- The end of a scalar post whose outcome is unknown. -/
def finishAmbiguous (token : OperationToken) (cancelled : ObserverId → Bool) :
    StartResult × IoState × ConnectionIoState × IoCoreEffects :=
  match io.commitScalar ledger token cancelled with
  | (some completion, io, ledger) =>
    let (io, ledger, effects) := io.finishEarlyCompletion ledger token completion cancelled
    (.inFlight token, io, ledger, effects)
  | (none, io, ledger) =>
    match io.operations.get? token with
    | none => (.immediate (.error .postFailed, none), io, ledger, .empty)
    | some operation =>
      let (newlyPending, operation) := operation.detachWithPostError
      let io := { io with operations := io.operations.set token operation }
      (.immediate (.error .postFailed, none),
        if newlyPending then io.addReclamation token else io, ledger, .empty)

variable (direction : Direction)

/-- The reconciliation of a scalar post with the provider's outcome. -/
def reconcileScalar (token : OperationToken) (outcome : BatchPostOutcome)
    (cancelled : ObserverId → Bool) : StartResult × IoState × ConnectionIoState × IoCoreEffects :=
  match outcome with
  | .allAccepted => io.finishAccepted ledger token cancelled
  | .prefixAccepted 0 0 =>
    if (io.operations.get? token).any OperationState.canReleaseUnaccepted then
      let (mr, io) := io.discardUnposted token
      (.immediate (.error .postFailed, mr),
        { io with cqCredits := io.cqCredits.release }, ledger.releaseLocal direction, .empty)
    else io.finishAccepted ledger token cancelled
  | .prefixAccepted .. | .ambiguous => io.finishAmbiguous ledger token cancelled

variable (identity : EstablishedIoIdentity)

def startOperation (ledger : ConnectionIoState) (kind : OperationKind) (mr : Mr)
    (remote : Option RemoteMr) (range : Option (Nat × Nat)) (observer : ObserverId)
    (pageAvailable : Bool) (answer : Except Error BatchPostOutcome)
    (cancelled : ObserverId → Bool) : StartResult × IoState × ConnectionIoState × IoCoreEffects :=
  match validateOperation kind mr remote range with
  | .error error => (.immediate (.error error, some mr), io, ledger, .empty)
  | .ok expectedOpcode =>
    match io.admissionError with
    | some error => (.immediate (.error error, some mr), io, ledger, .empty)
    | none =>
      match ledger.reserveLocal kind.direction with
      | none => (.immediate (.error .capacityExhausted, some mr), io, ledger, .empty)
      | some reserved =>
        match io.operations.allocate pageAvailable fun token =>
            .newScalar token identity kind.direction expectedOpcode (some mr) mr.len observer with
        | .error refused =>
          (.immediate (.error (allocateError refused), some mr), io,
            reserved.releaseLocal kind.direction, .empty)
        | .ok (token, operations) =>
          let io := { io with operations := operations }
          match io.cqCredits.reserve with
          | none =>
            let (mr, io) := io.discardUnposted token
            (.immediate (.error .capacityExhausted, mr), io,
              reserved.releaseLocal kind.direction, .empty)
          | some credits =>
            let io := { io with cqCredits := credits }
            match answer with
            | .error error =>
              let (mr, io) := io.discardUnposted token
              (.immediate (.error error, mr), { io with cqCredits := io.cqCredits.release },
                reserved.releaseLocal kind.direction, .empty)
            | .ok outcome =>
              io.reconcileScalar reserved kind.direction token outcome cancelled

/-! ### Batches -/

/-- One entry of a batch: its region and range, the port context its event returns to,
and whether a registry page could be allocated for it. -/
structure BatchEntry where
  mr : Mr
  range : Option (Nat × Nat)
  destination : Nat
  pageAvailable : Bool
deriving Repr, DecidableEq

inductive IoSubmissionDisposition where
  | allAccepted (accepted : Nat)
  | exactPrefix (accepted provenUnaccepted : Nat) (error : Error)
  | fullyUnaccepted (provenUnaccepted : Nat) (error : Error)
  | retainedAfterEarlyCompletion (retained : Nat) (error : Error)
  | retainedAmbiguous (retained : Nat) (error : Error)
deriving Repr, DecidableEq

/-- The event of an entry that never reached the provider. -/
def BatchEntry.unaccepted (error : Error) (entry : BatchEntry) : IoCompletionEvent where
  destination := entry.destination
  identity := none
  result := .error error
  mr := some entry.mr
  provenUnaccepted := true

/-- What is published for an operation that never reached the provider. -/
def releasedEffects (release : OperationState.UnacceptedRelease) : IoCoreEffects :=
  { IoCoreEffects.empty with events := release.event.toList, dropped := release.mr.toList }

/-- Release operations that are proven not to have reached the provider. -/
def releaseUnaccepted (io : IoState) (ledger : ConnectionIoState) (direction : Direction)
    (error : Error) : List OperationToken → IoState × ConnectionIoState × IoCoreEffects
  | [] => (io, ledger, .empty)
  | token :: rest =>
    match io.operations.release token false with
    | none => io.releaseUnaccepted ledger direction error rest
    | some (operation, operations) =>
      let release := (operation.takeUnacceptedOwned error).1
      let (io, ledger, more) :=
        { io with operations := operations, cqCredits := io.cqCredits.release
          }.releaseUnaccepted (ledger.releaseLocal direction) direction error rest
      (io, ledger, (releasedEffects release).extend more)

/-- `release_proven_unaccepted_entries`: nothing is released unless every operation
can be. -/
def releaseProvenUnaccepted (tokens : List OperationToken) (error : Error) :
    Option (IoState × ConnectionIoState × IoCoreEffects) :=
  if tokens.all fun token =>
      (io.operations.get? token).any OperationState.canReleaseUnaccepted then
    some (io.releaseUnaccepted ledger direction error tokens)
  else none

/-- Commit the accepted operations of a batch and collect their early completions. -/
def commitTokens (io : IoState) (ledger : ConnectionIoState) (cancelled : ObserverId → Bool) :
    List OperationToken →
      List (OperationToken × WorkCompletion) × IoState × ConnectionIoState
  | [] => ([], io, ledger)
  | token :: rest =>
    match io.operations.get? token with
    | none => io.commitTokens ledger cancelled rest
    | some operation =>
      let ledger := ledger.addOperationAccepted operation.identity token
      let (committed, operation) := operation.commitAccepted cancelled
      let (early, io, ledger) :=
        { io with operations := io.operations.set token operation }.commitTokens ledger
          cancelled rest
      ((committed.early.map fun completion => (token, completion)).toList ++ early, io, ledger)

def finishEarlyCompletions (io : IoState) (ledger : ConnectionIoState)
    (cancelled : ObserverId → Bool) :
    List (OperationToken × WorkCompletion) → IoState × ConnectionIoState × IoCoreEffects
  | [] => (io, ledger, .empty)
  | (token, completion) :: rest =>
    let (io, ledger, effects) := io.finishEarlyCompletion ledger token completion cancelled
    let (io, ledger, more) := io.finishEarlyCompletions ledger cancelled rest
    (io, ledger, effects.extend more)

variable (cancelled : ObserverId → Bool)

def commitInternalEntries (tokens : List OperationToken) :
    IoState × ConnectionIoState × IoCoreEffects :=
  let (early, io, ledger) :=
    { io with acceptedOperations := io.acceptedOperations + tokens.length }.commitTokens ledger
      cancelled tokens
  io.finishEarlyCompletions ledger cancelled early

def rollbackInternalEntries (tokens : List OperationToken)
    (error : Error) : IoState × ConnectionIoState × IoCoreEffects :=
  match io.releaseProvenUnaccepted ledger direction tokens error with
  | some released => released
  | none => io.commitInternalEntries ledger cancelled tokens

/-- The rollback of a batch before it was posted: `own` is published for the entry it failed
at, and `rest` are the entries after it. -/
def failBatch (reserved : List OperationToken) (error : Error)
    (own : IoCoreEffects) (rest : List BatchEntry) :
    Except Error (List OperationToken) × IoState × ConnectionIoState × IoCoreEffects :=
  let (io, ledger, effects) :=
    io.rollbackInternalEntries ledger direction cancelled reserved error
  (.error error, io, ledger,
    effects.extend (own.extend (.ofEvents (rest.map (BatchEntry.unaccepted error)))))

/-- Reserve the entries of a batch one after another, all or none. -/
def reserveBatch (io : IoState) (identity : EstablishedIoIdentity) (ledger : ConnectionIoState)
    (kind : OperationKind) (cancelled : ObserverId → Bool) : List BatchEntry → List OperationToken →
      Except Error (List OperationToken) × IoState × ConnectionIoState × IoCoreEffects
  | [], reserved => (.ok reserved, io, ledger, .empty)
  | entry :: rest, reserved =>
    match validateOperation kind entry.mr none entry.range with
    | .error error =>
      io.failBatch ledger kind.direction cancelled reserved error
        (.ofEvents [entry.unaccepted error]) rest
    | .ok expectedOpcode =>
      match ledger.reserveLocal kind.direction with
      | none =>
        io.failBatch ledger kind.direction cancelled reserved .capacityExhausted
          (.ofEvents [entry.unaccepted .capacityExhausted]) rest
      | some local_ =>
        match io.operations.allocate entry.pageAvailable fun token =>
            .newWithEvent token identity kind.direction expectedOpcode (some entry.mr)
              entry.mr.len (some entry.destination) with
        | .error refused =>
          io.failBatch (local_.releaseLocal kind.direction) kind.direction cancelled
            reserved (allocateError refused)
            (.ofEvents [entry.unaccepted (allocateError refused)]) rest
        | .ok (token, operations) =>
          match io.cqCredits.reserve with
          | none =>
            -- The slot is freed again; the entry's event carries its token.
            let (own, operations) :=
              match operations.release token false with
              | some (operation, operations) =>
                (releasedEffects (operation.takeUnacceptedOwned .capacityExhausted).1, operations)
              | none => (.empty, operations)
            { io with operations := operations }.failBatch
              (local_.releaseLocal kind.direction) kind.direction cancelled reserved
              .capacityExhausted own rest
          | some credits =>
            { io with operations := operations, cqCredits := credits }.reserveBatch
              identity local_ kind cancelled rest (reserved ++ [token])

/-- The reconciliation of a posted batch with the provider's outcome. -/
def reconcileBatch (tokens : List OperationToken) (outcome : BatchPostOutcome) :
    IoSubmissionDisposition × IoState × ConnectionIoState × IoCoreEffects :=
  let count := tokens.length
  match outcome with
  | .allAccepted => (.allAccepted count, io.commitInternalEntries ledger cancelled tokens)
  | .prefixAccepted accepted firstUnaccepted =>
    if accepted = firstUnaccepted ∧ accepted ≤ count then
      let unaccepted := tokens.drop accepted
      match io.releaseProvenUnaccepted ledger direction unaccepted .postFailed with
      | some (io, ledger, released) =>
        let (io, ledger, effects) :=
          io.commitInternalEntries ledger cancelled (tokens.take accepted)
        (if accepted = 0 then .fullyUnaccepted unaccepted.length .postFailed
          else .exactPrefix accepted unaccepted.length .postFailed,
          io, ledger, released.extend effects)
      | none =>
        (.retainedAfterEarlyCompletion count .postFailed,
          io.commitInternalEntries ledger cancelled tokens)
    else (.retainedAmbiguous count .postFailed, io.commitInternalEntries ledger cancelled tokens)
  | .ambiguous =>
    (.retainedAmbiguous count .postFailed, io.commitInternalEntries ledger cancelled tokens)

def postIoBatch (ledger : ConnectionIoState) (kind : OperationKind) (entries : List BatchEntry)
    (answer : Except Error BatchPostOutcome) (cancelled : ObserverId → Bool) :
    IoSubmissionDisposition × IoState × ConnectionIoState × IoCoreEffects :=
  let count := entries.length
  if entries.isEmpty then
    (.fullyUnaccepted 0 (.invalidConfig "I/O operation batch must not be empty"),
      io, ledger, .empty)
  else
    match io.admissionError with
    | some error =>
      (.fullyUnaccepted count error, io, ledger,
        .ofEvents (entries.map (BatchEntry.unaccepted error)))
    | none =>
      if kind = .write ∨ kind = .read then
        let error := .invalidConfig "I/O batches support only SEND and RECV"
        (.fullyUnaccepted count error, io, ledger,
          .ofEvents (entries.map (BatchEntry.unaccepted error)))
      else
        match io.reserveBatch identity ledger kind cancelled entries [] with
        | (.error error, io, ledger, effects) =>
          (.fullyUnaccepted count error, io, ledger, effects)
        | (.ok tokens, io, ledger, _) =>
          match answer with
          | .error error =>
            (.fullyUnaccepted count error,
              io.rollbackInternalEntries ledger kind.direction cancelled tokens error)
          | .ok outcome =>
            io.reconcileBatch ledger kind.direction cancelled tokens outcome

end IoState

end RdmaIo.Engine
