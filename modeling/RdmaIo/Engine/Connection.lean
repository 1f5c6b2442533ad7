/-
One connection of the engine: what its close and its quarantine read of its state, the CM
route it was set up through, and the lifecycle entry that its registry slot holds.  The
source has the outbound and inbound variants of an entry side by side; here a route is
either, and the lifecycle is shared.
-/
import RdmaIo.Engine.IoCore
import RdmaIo.Engine.Reservation

namespace RdmaIo.Engine

open SlotRegistry

abbrev ListenerToken := Token

/-- A CM ID, by its raw identity. -/
abbrev CmId := Nat

/-- The key of a shared connect or accept request. -/
abbrev RequestId := Nat

structure ConnectionState where
  token : ConnectionToken
  qpNum : Nat
  ledger : ConnectionIoState
  errorTransitionComplete : Bool
  qpDestroyed : Bool
  drainedRecorded : Bool
  reservation : ConnectionReservation

namespace ConnectionState

def new (token : ConnectionToken) (qpNum maxSendWr maxRecvWr : Nat)
    (reservation : ConnectionReservation) (admission : ConnectionAdmission) :
    ConnectionState × ConnectionAdmission :=
  let (reservation, admission) := reservation.markRegistered admission
  ({ token := token
     qpNum := qpNum
     ledger := .fromConnection ⟨token, qpNum⟩ maxSendWr maxRecvWr
     errorTransitionComplete := false
     qpDestroyed := false
     drainedRecorded := false
     reservation := reservation }, admission)

variable (c : ConnectionState)

def identity : EstablishedIoIdentity := ⟨c.token, c.qpNum⟩

def recoverReservationQuarantine (admission : ConnectionAdmission) :
    ConnectionState × ConnectionAdmission :=
  let (reservation, admission) := c.reservation.recoverQuarantine (!c.qpDestroyed) admission
  ({ c with reservation := reservation }, admission)

def markDrainedOnce : ConnectionState :=
  { c with drainedRecorded := true }

end ConnectionState

/-! ### Routes -/

inductive InboundRejectReason where
  | listenerClosed
  | backlogFull
  | contextMismatch
  | connectionCapacity
  | admissionClosed
  | setupFailure
deriving Repr, DecidableEq

inductive OutboundState where
  | awaitAddr (cmId : CmId) (request : RequestId) (reservation : ConnectionReservation)
  | awaitRoute (cmId : CmId) (request : RequestId) (reservation : ConnectionReservation)
  | awaitEstablished (request : RequestId) (connection : ConnectionToken)
  | establishedAwaitingDelivery (request : RequestId) (connection : ConnectionToken)
  | disconnectedAwaitingDelivery (request : RequestId) (connection : ConnectionToken)
  | disconnected (connection : ConnectionToken)
  | failedAwaitingDelivery (request : RequestId) (connection : ConnectionToken)
  | failed (connection : ConnectionToken)
  | closing (connection : ConnectionToken)
  | quarantined (connection : Option ConnectionToken)
  | transitioning
deriving DecidableEq

inductive InboundPeerState where
  | preAccept (reject : Option InboundRejectReason)
  | accepted
deriving Repr, DecidableEq

inductive InboundState where
  | pendingSelection (cmId : CmId) (reservation : ConnectionReservation)
  | awaitEstablished (request : RequestId) (connection : ConnectionToken)
  | establishedAwaitingDelivery (request : RequestId) (connection : ConnectionToken)
  | established (connection : ConnectionToken)
  | closing (connection : ConnectionToken) (request : Option RequestId)
      (completion : Option Error) (selected : Bool) (peer : InboundPeerState)
  | quarantined (connection : Option ConnectionToken)
  | transitioning
deriving DecidableEq

/-- A CM route, outbound or inbound under its listener. -/
inductive Route where
  | outbound (state : OutboundState)
  | inbound (listener : ListenerToken) (state : InboundState)
deriving DecidableEq

/-! ### Lifecycle entries -/

/-- The lifecycle of a slot.  An established connection may have lost its route. -/
inductive Lifecycle where
  | establishing (route : Route)
  | registered (route : Route) (connection : ConnectionState)
  | active (route : Option Route) (connection : ConnectionState)
  | draining (route : Option Route) (connection : ConnectionState)
  | retiring (route : Option Route) (connection : ConnectionState) (started : Bool)

/-- What a quarantine wraps: a lifecycle, or a setup whose rollback failed. -/
inductive QuarantinedLifecycle where
  | setup (route : Route) (reservation : ConnectionReservation)
  | of (lifecycle : Lifecycle)

inductive ConnectionEntry where
  | running (lifecycle : Lifecycle)
  | quarantined (lifecycle : QuarantinedLifecycle) (bundle : Bool)
  | retired (route : Option Route) (connection : ConnectionState)

namespace Lifecycle

def connection : Lifecycle → Option ConnectionState
  | .establishing _ => none
  | .registered _ c | .active _ c | .draining _ c | .retiring _ c _ => some c

def mapConnection (f : ConnectionState → ConnectionState) : Lifecycle → Lifecycle
  | .establishing route => .establishing route
  | .registered route c => .registered route (f c)
  | .active route c => .active route (f c)
  | .draining route c => .draining route (f c)
  | .retiring route c started => .retiring route (f c) started

def closeStarted : Lifecycle → Bool
  | .draining .. | .retiring .. => true
  | _ => false

end Lifecycle

namespace QuarantinedLifecycle

def connection : QuarantinedLifecycle → Option ConnectionState
  | .setup .. => none
  | .of l => l.connection

def mapConnection (f : ConnectionState → ConnectionState) :
    QuarantinedLifecycle → QuarantinedLifecycle
  | .setup route reservation => .setup route reservation
  | .of l => .of (l.mapConnection f)

def closeStarted : QuarantinedLifecycle → Bool
  | .setup .. => false
  | .of l => l.closeStarted

end QuarantinedLifecycle

namespace ConnectionEntry

def connection : ConnectionEntry → Option ConnectionState
  | .running l => l.connection
  | .quarantined q _ => q.connection
  | .retired _ c => some c

def mapConnection (f : ConnectionState → ConnectionState) : ConnectionEntry → ConnectionEntry
  | .running l => .running (l.mapConnection f)
  | .quarantined q bundle => .quarantined (q.mapConnection f) bundle
  | .retired route c => .retired route (f c)

def closeStarted : ConnectionEntry → Bool
  | .running l => l.closeStarted
  | .quarantined q _ => q.closeStarted
  | .retired .. => false

end ConnectionEntry

end RdmaIo.Engine
