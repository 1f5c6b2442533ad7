/-
The connection registry of the reactor: the generational slots with their lifecycle
entries, the index from queue pair numbers to slots, the admission state, and the queue
of retirements.  Every change of an entry goes through `transition`.
-/
import RdmaIo.Engine.Connection

namespace RdmaIo.Engine

open SlotRegistry

structure ConnectionRegistry where
  slots : Registry ConnectionEntry
  qpIndex : Nat → Option ConnectionToken
  admission : ConnectionAdmission
  retirements : List ConnectionToken

namespace ConnectionRegistry

def newWithAdmission (capacity : Nat) : ConnectionRegistry where
  slots := .new capacity
  qpIndex _ := none
  admission := ⟨capacity, 0⟩
  retirements := []

variable (r : ConnectionRegistry) (token : ConnectionToken)

def enqueueRetirement : ConnectionRegistry :=
  { r with retirements := r.retirements ++ [token] }

/-! ### Entries -/

/-- Replace the entry of a slot, if there is one, and answer the transition's output. -/
def transition (f : ConnectionEntry → ConnectionAdmission →
      Bool × ConnectionEntry × ConnectionAdmission) : Bool × ConnectionRegistry :=
  match r.slots.get? token with
  | none => (false, r)
  | some entry =>
    let (output, next, admission) := f entry r.admission
    (output, { r with slots := r.slots.set token next, admission := admission })

def connection? : Option ConnectionState :=
  (r.slots.get? token).bind ConnectionEntry.connection

/-- Update the connection of a slot in place. -/
def modifyConnection (f : ConnectionState → ConnectionState) : ConnectionRegistry :=
  (r.transition token fun entry admission => (true, entry.mapConnection f, admission)).2

def closeStarted : Bool :=
  (r.slots.get? token).any ConnectionEntry.closeStarted

/-! ### Lifecycle transitions -/

def requestRetirement : Bool × ConnectionRegistry :=
  let (requested, r) := r.transition token fun entry admission =>
    match entry with
    | .running (.draining route c) =>
      if c.errorTransitionComplete then
        (true, .running (.retiring route c false), admission)
      else (false, .running (.draining route c), admission)
    | other => (false, other, admission)
  (requested, if requested then r.enqueueRetirement token else r)

/-! ### Quarantine -/

def trackOperationQuarantine (operation : OperationToken) : Bool × ConnectionRegistry :=
  r.transition token fun entry admission =>
    let mark (c : ConnectionState) : ConnectionState :=
      { c with ledger := (c.ledger.markOperationQuarantined operation).2 }
    match entry with
    | .quarantined q bundle =>
      (q.connection.any fun c => (c.ledger.markOperationQuarantined operation).1,
        .quarantined (q.mapConnection mark) bundle, admission)
    | .running l =>
      (l.connection.any fun c => (c.ledger.markOperationQuarantined operation).1,
        .quarantined (.of (l.mapConnection mark)) false, admission)
    | .retired route c => (false, .retired route c, admission)

def restoreQuarantined : QuarantinedLifecycle → ConnectionEntry
  | .setup route reservation => .quarantined (.setup route reservation) true
  | .of l => .running l

/-- Recover the reservation of a connection whose bundle quarantine is cleared. -/
def recoverReservation (q : QuarantinedLifecycle) (admission : ConnectionAdmission) :
    QuarantinedLifecycle × ConnectionAdmission :=
  match q.connection with
  | some c =>
    let (c, admission) := c.recoverReservationQuarantine admission
    (q.mapConnection fun _ => c, admission)
  | none => (q, admission)

def clearBundleQuarantine : Bool × ConnectionRegistry :=
  r.transition token fun entry admission =>
    match entry with
    | .quarantined q true =>
      let (q, admission) := recoverReservation q admission
      if q.connection.any fun c => c.ledger.quarantined ≠ ∅ then
        (false, .quarantined q false, admission)
      else (true, restoreQuarantined q, admission)
    | other => (false, other, admission)

def clearOperationQuarantine (operation : OperationToken) : Bool × ConnectionRegistry :=
  r.transition token fun entry admission =>
    match entry with
    | .quarantined q bundle =>
      let emptied := q.connection.any fun c =>
        (c.ledger.clearOperationQuarantined operation).1
      let q := q.mapConnection fun c =>
        { c with ledger := (c.ledger.clearOperationQuarantined operation).2 }
      if emptied && !bundle then (true, restoreQuarantined q, admission)
      else (false, .quarantined q bundle, admission)
    | other => (false, other, admission)

def proveLiveIo (connection : ConnectionToken) (qpNum : Nat) : Option LiveIoConnectionProof :=
  match r.connection? connection with
  | none => none
  | some c =>
    if c.qpNum ≠ qpNum ∨ r.qpIndex qpNum ≠ some connection then none
    else some ⟨connection, qpNum⟩

end ConnectionRegistry

end RdmaIo.Engine
