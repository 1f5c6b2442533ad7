/-
Connection admission.  Every connection, from the start of its setup to the release
of its slot, holds one permit of the admission semaphore in a reservation.  An indexed
reservation also contributes to the diagnostics gauge.
-/
import Mathlib.Algebra.Group.Defs

namespace RdmaIo.Engine

inductive ReservationState where
  | establishing
  | established
  | draining
  | quarantinedEstablishing
  | quarantinedEstablished
  | quarantinedDraining
deriving Repr, DecidableEq

structure ConnectionStateCountSnapshot where
  live : Nat
  establishing : Nat
  established : Nat
  draining : Nat
  registeredLiveQps : Nat
  quarantinedBundles : Nat
deriving Repr, DecidableEq

namespace ConnectionStateCountSnapshot

instance : Zero ConnectionStateCountSnapshot := ⟨⟨0, 0, 0, 0, 0, 0⟩⟩

/-- `add_snapshot`. -/
instance : Add ConnectionStateCountSnapshot :=
  ⟨fun a b => ⟨a.live + b.live, a.establishing + b.establishing, a.established + b.established,
    a.draining + b.draining, a.registeredLiveQps + b.registeredLiveQps, a.quarantinedBundles +
    b.quarantinedBundles⟩⟩

/-- `sub_snapshot`, which saturates. -/
instance : Sub ConnectionStateCountSnapshot :=
  ⟨fun a b => ⟨a.live - b.live, a.establishing - b.establishing, a.established - b.established,
    a.draining - b.draining, a.registeredLiveQps - b.registeredLiveQps,
    a.quarantinedBundles - b.quarantinedBundles⟩⟩

end ConnectionStateCountSnapshot

/-- `ConnectionDiagnosticsGauge::contribution`. -/
def contribution (state : ReservationState) (qpCounted : Bool) : ConnectionStateCountSnapshot where
  live := 0
  establishing := if state = .establishing then 1 else 0
  established := if state = .established then 1 else 0
  draining := if state = .draining ∨ state = .quarantinedDraining then 1 else 0
  registeredLiveQps := if qpCounted then 1 else 0
  quarantinedBundles :=
    if state = .quarantinedEstablishing ∨ state = .quarantinedEstablished
      ∨ state = .quarantinedDraining then 1 else 0

/-- One held permit.  A reservation that is indexed always knows the gauge. -/
structure ConnectionReservation where
  state : ReservationState
  qpCounted : Bool
  diagnostics : Bool
  indexed : Bool
  diagnostics_of_indexed : indexed = true → diagnostics = true
deriving DecidableEq

/-- The semaphore and the gauge that reservations share. -/
structure ConnectionAdmission where
  availablePermits : Nat
  counts : ConnectionStateCountSnapshot
deriving Repr, DecidableEq

namespace ConnectionReservation

/-- `ConnectionReservation::update` with the gauge's `transition`. -/
def update (f : ReservationState × Bool → ReservationState × Bool) (r : ConnectionReservation)
    (admission : ConnectionAdmission) : ConnectionReservation × ConnectionAdmission :=
  let next := f (r.state, r.qpCounted)
  ({ r with state := next.1, qpCounted := next.2 },
    if r.indexed then
      { admission with
        counts := admission.counts - contribution r.state r.qpCounted
          + contribution next.1 next.2 }
    else admission)

def markRegistered : ConnectionReservation → ConnectionAdmission →
    ConnectionReservation × ConnectionAdmission :=
  update fun
    | (.establishing, _) => (.established, true)
    | unchanged => unchanged

def recoverQuarantine (qpIsLive : Bool) : ConnectionReservation → ConnectionAdmission →
    ConnectionReservation × ConnectionAdmission :=
  update fun
    | (.quarantinedEstablished, _) => (.established, qpIsLive)
    | (.quarantinedDraining, _) => (.draining, qpIsLive)
    | unchanged => unchanged

end ConnectionReservation

end RdmaIo.Engine
