/-
The errors of the v2 API that the modelled functions return or compare.  A
provider's errno is not part of the model.
-/

namespace RdmaIo

/-- `WcStatus::WrFlushErr`. -/
def wcWrFlushErr : Nat := 5

inductive Error where
  | verbs
  | invalidConfig (message : String)
  | postFailed
  | completionError (status vendorErr : Nat)
  | messageTooLarge (size capacity : Nat)
  | transportClosed
  | driverShutdown
  | capacityExhausted
  | connectionQuarantined (outstandingOperations cqDebt : Nat)
  | connectionDestroyQuarantined (cause : String)
  | engineWedged (retainedBundles outstandingOperations cqDebt : Nat)
  | protocolViolation (message : String)
deriving Repr, DecidableEq

/-- A check that raises an error was passed. -/
theorem ite_error_eq_ok {ε α : Type} {p : Prop} [Decidable p] {e : ε} {x : Except ε α}
    {a : α} : (if p then .error e else x) = .ok a ↔ ¬p ∧ x = .ok a := by
  by_cases hp : p
  · simp [hp]
  · simp [hp]

end RdmaIo
