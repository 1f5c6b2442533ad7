/-
The session of the reactor: the connection registry, the I/O core and the publications of
the current turn.  A handler is a computation over this state that can stop with an error,
which keeps what it changed so far, as a Rust function does that leaves through the
question mark operator.  Flags that frontends set are read from an `Answers` record, and
are indexed by the place of the read.

This module has the handlers that route and dispatch completions.
-/
import RdmaIo.Engine.ConnectionRegistry
import RdmaIo.Engine.Submit

namespace RdmaIo.Engine

open SlotRegistry

/-! ### Publications -/

inductive IoTerminalEvent where
  | disconnected
  | terminal (error : Error)
  | closed
deriving DecidableEq

/-- A user-visible publication, executed after the turn. -/
inductive Leaf where
  | ioEvent (event : IoCompletionEvent)
  | submission (connection : ConnectionToken) (disposition : IoState.IoSubmissionDisposition)
  | terminalEvent (connection : ConnectionToken) (event : IoTerminalEvent)
  | operationWake (observer : ObserverId)
  | connectResult (request : RequestId)
  | drainedWake (connection : ConnectionToken)
  | closeResult (connection : ConnectionToken) (result : Option (Except Error Unit))
      (retired : Bool)
  | acceptResult (request : RequestId)
  | listenResult (request : RequestId)
  | listenerClosed (listener : ListenerToken)
  | engineTerminal

inductive LeafClass where
  | event
  | operation
  | closeOrListener
  | terminal
deriving Repr, DecidableEq

def Leaf.class_ : Leaf → LeafClass
  | .ioEvent _ | .submission .. | .terminalEvent .. => .event
  | .operationWake _ | .connectResult _ => .operation
  | .drainedWake _ | .closeResult .. | .acceptResult _ | .listenResult _
  | .listenerClosed _ => .closeOrListener
  | .engineTerminal => .terminal

def reactorActionBudget : Nat := 32

/-- A bounded batch of publications, in four queues. -/
structure ReactorActions where
  capacity : Nat
  events : List Leaf
  operations : List Leaf
  closesAndListeners : List Leaf
  terminal : List Leaf

namespace ReactorActions

def ofCapacity (capacity : Nat) : ReactorActions := ⟨capacity, [], [], [], []⟩

/-- The batch of one turn. -/
def default : ReactorActions := ofCapacity reactorActionBudget

variable (actions : ReactorActions)

def len : Nat :=
  actions.events.length + actions.operations.length + actions.closesAndListeners.length
    + actions.terminal.length

def remaining : Nat := actions.capacity - actions.len

def canAccept (leaves : Nat) : Bool :=
  leaves ≤ actions.remaining

/-- Put a leaf into the queue of its class. -/
def insert (leaf : Leaf) : ReactorActions :=
  match leaf.class_ with
  | .event => { actions with events := actions.events ++ [leaf] }
  | .operation => { actions with operations := actions.operations ++ [leaf] }
  | .closeOrListener =>
    { actions with closesAndListeners := actions.closesAndListeners ++ [leaf] }
  | .terminal => { actions with terminal := actions.terminal ++ [leaf] }

/-- Push one leaf; `none` is the failed assertion. -/
def push (leaf : Leaf) : Option ReactorActions :=
  if actions.canAccept 1 then some (actions.insert leaf) else none

/-- Push leaves one after another. -/
def pushAll (leaves : List Leaf) : Option ReactorActions :=
  leaves.foldlM push actions

end ReactorActions

/-- `AfterEngineUnlock` as leaves, in the order of `append_to`. -/
def IoCoreEffects.publications (effects : IoCoreEffects) : List Leaf :=
  effects.events.map .ioEvent ++ effects.operations.map .operationWake
    ++ effects.closes.map .drainedWake

/-! ### State -/

structure Session where
  connections : ConnectionRegistry
  io : IoState
  actions : ReactorActions

def Session.new (maxLiveConnections maxInflightOperations cqCapacity
    completionDispatchBudget : Nat) : Session where
  connections := .newWithAdmission maxLiveConnections
  io := .newOwned maxInflightOperations cqCapacity completionDispatchBudget
  actions := .default

/-- How a handler can stop: at the assertion of a push. -/
inductive Fault where
  | full

/-- What the frontends answer during one step. -/
structure Answers where
  observerCancelled : Nat → ObserverId → Bool

abbrev SessionM := EStateM Fault Session

namespace SessionM

def modifyConnections (f : ConnectionRegistry → ConnectionRegistry) : SessionM Unit :=
  modify fun s => { s with connections := f s.connections }

def modifyIo (f : IoState → IoState) : SessionM Unit :=
  modify fun s => { s with io := f s.io }

/-- `append_to`: nothing is pushed unless everything fits. -/
def appendLeaves (leaves : List Leaf) : SessionM Unit := do
  match (← get).actions.pushAll leaves with
  | some actions => modify fun s => { s with actions := actions }
  | none => throw .full

end SessionM

open SessionM

namespace ConnectionRegistry

variable (r : ConnectionRegistry)

def applyQuarantine : OperationQuarantineEffect → ConnectionRegistry
  | .added connection operation => (r.trackOperationQuarantine connection operation).2
  | .cleared connection operation => (r.clearOperationQuarantine connection operation).2

def markDrainedOnce (token : ConnectionToken) : ConnectionRegistry :=
  r.modifyConnection token ConnectionState.markDrainedOnce

def applyDrained (token : ConnectionToken) : ConnectionRegistry :=
  if r.closeStarted token then
    ((((r.clearBundleQuarantine token).2).markDrainedOnce token).requestRetirement token).2
  else r

/-- `IoCoreEffects::apply_session`, without the publications it returns. -/
def applyEffects (effects : IoCoreEffects) : ConnectionRegistry :=
  effects.drained.foldl applyDrained (effects.quarantine.foldl applyQuarantine r)

end ConnectionRegistry

def commitIoEffects (effects : IoCoreEffects) : SessionM Unit := do
  modifyConnections fun r => r.applyEffects effects
  appendLeaves effects.publications

/-- Work on the I/O state and the ledger of a connection. -/
def withConnectionIo {α : Type} (token : ConnectionToken)
    (f : IoState → EstablishedIoIdentity → ConnectionIoState → α × IoState × ConnectionIoState) :
    SessionM (Option α) := do
  let s ← get
  match s.connections.connection? token with
  | none => return none
  | some c =>
    let (output, io, ledger) := f s.io c.identity c.ledger
    set { s with
      io := io
      connections := s.connections.modifyConnection token fun c => { c with ledger := ledger } }
    return some output

/-- Route a completion to the queue of its connection. -/
def enqueueCompletionWithCore (completion : WorkCompletion) :
    SessionM (Option ConnectionToken) := do
  let (pending, io) := (← get).io.prepareCompletion completion
  modifyIo fun _ => io
  match pending with
  | none => return none
  | some pending =>
    let connection := pending.identity.connection
    let connections := (← get).connections
    if (connections.connection? connection).isNone then
      modifyIo fun io => io.rejectCqe .staleConnection
      return none
    else
      let live := connections.proveLiveIo connection pending.identity.qpNum
      let queued ← withConnectionIo connection fun io identity ledger =>
        io.enqueuePreparedCompletion pending live identity ledger
      return queued.join

def dispatchConnectionCompletions (a : Answers) (token : ConnectionToken) (quantum : Nat) :
    SessionM Unit := do
  let effects ← withConnectionIo token fun io _ ledger =>
    let (io, ledger, effects) :=
      io.dispatchConnectionCompletions ledger (a.observerCancelled 1) quantum
    (effects, io, ledger)
  match effects with
  | some effects => commitIoEffects effects
  | none => pure ()

end RdmaIo.Engine
