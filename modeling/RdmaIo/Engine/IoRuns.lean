/-
Runs of the I/O core.

The state is the core with the ledgers of the established connections, and a label is one call
of the reactor with the answers it receives.  The regions that callers handed in and those that
went out in events, results and refused calls are kept beside it.
-/
import RdmaIo.Engine.IoCalls
import RdmaIo.Lib.Run

namespace RdmaIo.Engine

open IoState
open SlotRegistry OperationState

structure IoCore where
  io : IoState
  ledgers : ConnectionToken → Option ConnectionIoState
  given : Multiset Mr
  gone : Multiset Mr

inductive IoCoreCall where
  | connect (identity : EstablishedIoIdentity) (maxSendWr maxRecvWr : Nat)
  | retire (connection : ConnectionToken)
  | start (connection : ConnectionToken) (kind : OperationKind) (mr : Mr)
      (remote : Option RemoteMr) (range : Option (Nat × Nat)) (observer : ObserverId)
      (pageAvailable : Bool) (answer : Except Error BatchPostOutcome)
      (cancelled : ObserverId → Bool)
  | post (connection : ConnectionToken) (kind : OperationKind) (entries : List IoState.BatchEntry)
      (answer : Except Error BatchPostOutcome) (cancelled : ObserverId → Bool)
  | completion (completion : WorkCompletion) (live : Option LiveIoConnectionProof)
  | dispatch (connection : ConnectionToken) (quantum : Nat) (cancelled : ObserverId → Bool)
  | cancel (token : OperationToken)
  | reclamationDeadline (token : OperationToken)
  | scanClose (connection : ConnectionToken) (start : Nat) (error : Error) (scanBudget : Nat)
  | scanQuarantine (connection : ConnectionToken) (start scanBudget : Nat)
  | terminalize (outcome : Error) (cancelled : ObserverId → Bool) (cursor budget : Nat)
  | reclaim (connection : ConnectionToken) (proof : LiveIoConnectionProof) (closeError : Error)
      (token : OperationToken) (cancelled : ObserverId → Bool)
  | closeAdmission (error : Option Error)

namespace OperationQuarantineEffect

def connection : OperationQuarantineEffect → ConnectionToken
  | .added connection _ | .cleared connection _ => connection

def update (ledger : ConnectionIoState) : OperationQuarantineEffect → ConnectionIoState
  | .added _ operation => (ledger.markOperationQuarantined operation).2
  | .cleared _ operation => (ledger.clearOperationQuarantined operation).2

/-- What the session does with a quarantine effect. -/
def apply (ledgers : ConnectionToken → Option ConnectionIoState)
    (effect : OperationQuarantineEffect) : ConnectionToken → Option ConnectionIoState :=
  Function.update ledgers effect.connection ((ledgers effect.connection).map effect.update)

end OperationQuarantineEffect

namespace IoCore

variable (maxInflightOperations cqCapacity completionDispatchBudget : Nat)

def new : IoCore where
  io := .newOwned maxInflightOperations cqCapacity completionDispatchBudget
  ledgers := fun _ => none
  given := 0
  gone := 0

/-- Publish the effects of a call. -/
def publish (s : IoCore) (io : IoState) (effects : IoCoreEffects) : IoCore :=
  { s with
    io := io
    ledgers := effects.quarantine.foldl OperationQuarantineEffect.apply s.ledgers
    gone := s.gone + effects.regions }

/-- Store the ledger that a call on a connection returned. -/
def store (s : IoCore) (connection : ConnectionToken) (ledger : ConnectionIoState)
    (given returned : Multiset Mr) : IoCore :=
  { s with
    ledgers := Function.update s.ledgers connection (some ledger)
    given := s.given + given
    gone := s.gone + returned }

def step (s : IoCore) : IoCoreCall → Option IoCore
  | .connect identity maxSendWr maxRecvWr =>
    if s.ledgers identity.connection = none then
      some (s.store identity.connection (.fromConnection identity maxSendWr maxRecvWr) 0 0)
    else none
  | .retire connection =>
    (s.ledgers connection).bind fun ledger =>
      if ledger.accepted = ∅ then
        some { s with
          io := s.io.retireConnectionIo connection
          ledgers := Function.update s.ledgers connection none }
      else none
  | .start connection kind mr remote range observer pageAvailable answer cancelled =>
    (s.ledgers connection).map fun ledger =>
      let (result, io, ledger, effects) := s.io.startOperation ledger.identity ledger kind mr
        remote range observer pageAvailable answer cancelled
      (s.store connection ledger {mr} result.regions).publish io effects
  | .post connection kind entries answer cancelled =>
    (s.ledgers connection).map fun ledger =>
      let (_, io, ledger, effects) := s.io.postIoBatch ledger.identity ledger kind entries answer
        cancelled
      (s.store connection ledger (batchRegions entries) 0).publish io effects
  | .completion completion live =>
    match s.io.prepareCompletion completion with
    | (none, io) => some { s with io := io }
    | (some pending, io) =>
      match s.ledgers pending.identity.connection with
      | none => some { s with io := io.rejectCqe .staleConnection }
      | some ledger =>
        let (_, io, ledger) := io.enqueuePreparedCompletion pending live ledger.identity ledger
        some { s.store pending.identity.connection ledger 0 0 with io := io }
  | .dispatch connection quantum cancelled =>
    (s.ledgers connection).map fun ledger =>
      let (io, ledger, effects) := s.io.dispatchConnectionCompletions ledger cancelled quantum
      (s.store connection ledger 0 0).publish io effects
  | .cancel token => some { s with io := s.io.cancelOperation token }
  | .reclamationDeadline token =>
    let (io, effects) := s.io.quarantineOperation token
    some (s.publish io effects)
  | .scanClose connection start error scanBudget =>
    let ((io, effects), _) := s.io.scanConnectionObserversForClose connection start error scanBudget
    some (s.publish io effects)
  | .scanQuarantine connection start scanBudget =>
    let ((io, effects), _) := s.io.scanConnectionQuarantine connection start scanBudget
    some (s.publish io effects)
  | .terminalize outcome cancelled cursor budget =>
    let ((io, effects), _) := s.io.terminalizeOperationsBounded outcome cancelled cursor budget
    some (s.publish io effects)
  | .reclaim connection proof closeError token cancelled =>
    (s.ledgers connection).map fun ledger =>
      let (_, io, ledger, effects) := s.io.reclaimAfterQpDestroy proof ledger.identity ledger
        closeError token cancelled
      (s.store connection ledger 0 0).publish io effects
  | .closeAdmission error => some { s with io := s.io.closeAdmission error }

/-- Between two calls the counters are exact, every ledger is that of its connection, every
operation is one of a ledger, and the regions handed in are held or gone. -/
structure Conserved (s : IoCore) : Prop where
  books : s.io.Books [] 0
  ledger : ∀ connection ledger, s.ledgers connection = some ledger →
    ledger.identity.connection = connection ∧ ledger.Exact s.io.operations []
  owner : ∀ token op, s.io.operations.get? token = some op →
    ∃ ledger, s.ledgers op.identity.connection = some ledger ∧ ledger.identity = op.identity
  regions : s.given = s.io.held + s.gone

variable {s s' : IoCore} {connection : ConnectionToken} {ledger ledger' : ConnectionIoState}
  {io : IoState} {given gone : Multiset Mr} {left : List OperationToken}

theorem Conserved.idle (h : s.Conserved) (hledger : s.ledgers connection = some ledger) :
    (Work.idle s.io ledger).Kept :=
  ⟨h.books, (h.ledger connection ledger hledger).2, List.nodup_nil, by simp⟩

/-- A ledger lists the operations of its connection. -/
theorem Conserved.listed {token : OperationToken} {op : OperationState} (h : s.Conserved)
    (hledger : s.ledgers connection = some ledger) (hop : s.io.operations.get? token = some op)
    (hidentity : op.identity = ledger.identity) : token ∈ ledger.accepted :=
  ((h.idle hledger).exact.accepted token).mpr ⟨⟨op, hop, hidentity⟩, List.not_mem_nil⟩

/-- A call on one connection. -/
theorem Conserved.goes (h : s.Conserved) (hledger : s.ledgers connection = some ledger)
    (hgoes : (Work.idle s.io ledger).Goes (Work.idle io ledger') given gone left) :
    ({ s.store connection ledger' given gone with io := io } : IoCore).Conserved where
  books := hgoes.kept.books
  ledger other l hl := by
    obtain ⟨hconnection, -⟩ := h.ledger connection ledger hledger
    change Function.update s.ledgers connection (some ledger') other = some l at hl
    by_cases hother : other = connection
    · subst hother
      rw [Function.update_self] at hl
      cases hl
      exact ⟨(congrArg _ hgoes.identity).trans hconnection, hgoes.kept.exact⟩
    · rw [Function.update_of_ne hother] at hl
      obtain ⟨hl', hexact⟩ := h.ledger other l hl
      refine ⟨hl', hexact.apart (hgoes.apart _ ?_) hgoes.later⟩
      intro heq
      exact hother (hl'.symm.trans ((congrArg _ heq).trans hconnection))
  owner token op hop := by
    change ∃ l, Function.update s.ledgers connection (some ledger') op.identity.connection =
      some l ∧ _
    obtain ⟨hconnection, -⟩ := h.ledger connection ledger hledger
    by_cases hown : op.identity = ledger.identity
    · rw [hown, hconnection, Function.update_self]
      exact ⟨ledger', rfl, hgoes.identity⟩
    · obtain ⟨old, hold, hidentity⟩ := ((hgoes.apart _ hown).owns token).mp ⟨op, hop, rfl⟩
      obtain ⟨l, hl, hl'⟩ := h.owner token old hold
      rw [hidentity] at hl hl'
      have hother : op.identity.connection ≠ connection := by
        intro heq
        rw [heq, hledger, Option.some.injEq] at hl
        exact hown (hl'.symm.trans (congrArg _ hl.symm))
      rw [Function.update_of_ne hother]
      exact ⟨l, hl, hl'⟩
  regions := by
    change s.given + given = io.held + (s.gone + gone)
    have hregions := hgoes.regions
    change s.io.held + given = io.held + gone at hregions
    rw [h.regions, add_right_comm, hregions, add_right_comm, add_assoc]

/-- What a ledger lists as quarantined is no part of the accounts. -/
theorem Conserved.quarantine (effects : List OperationQuarantineEffect) {s : IoCore}
    (h : s.Conserved) :
    ({ s with ledgers := effects.foldl OperationQuarantineEffect.apply s.ledgers } :
      IoCore).Conserved := by
  induction effects generalizing s with
  | nil => exact h
  | cons effect _ ih =>
    refine ih (s := { s with ledgers := effect.apply s.ledgers }) ?_
    have hupdate (l : ConnectionIoState) : (effect.update l).identity = l.identity ∧
        (l.Exact s.io.operations [] → (effect.update l).Exact s.io.operations []) := by
      cases effect <;>
        exact ⟨rfl, fun he => ⟨he.credits, he.bounded, he.accepted, he.queue⟩⟩
    have hget (other : ConnectionToken) : effect.apply s.ledgers other = s.ledgers other ∨
        effect.apply s.ledgers other = (s.ledgers other).map effect.update := by
      by_cases hother : other = effect.connection
      · exact .inr (by rw [hother, OperationQuarantineEffect.apply, Function.update_self])
      · exact .inl (Function.update_of_ne hother ..)
    refine { h with ledger := fun other l hl => ?_, owner := fun token op hop => ?_ }
    · rcases hget other with heq | heq <;> simp only [heq] at hl
      · exact h.ledger other l hl
      · obtain ⟨l', hl', rfl⟩ := Option.map_eq_some_iff.mp hl
        obtain ⟨hconnection, hexact⟩ := h.ledger other l' hl'
        exact ⟨(congrArg _ (hupdate l').1).trans hconnection, (hupdate l').2 hexact⟩
    · obtain ⟨l, hl, hidentity⟩ := h.owner token op hop
      rcases hget op.identity.connection with heq | heq <;> simp only [heq, hl]
      · exact ⟨l, rfl, hidentity⟩
      · exact ⟨_, rfl, (hupdate l).1.trans hidentity⟩

/-- The state goes on, and of the registered operations only those in `leaves` are over. -/
structure Steps (s s' : IoCore) (leaves : OperationToken → OperationState → Prop) : Prop where
  conserved : s'.Conserved
  stays : ∀ token op, s.io.operations.get? token = some op →
    (s'.io.operations.get? token).isSome ∨ leaves token op

variable {leaves : OperationToken → OperationState → Prop}

/-- An operation that is over was one of the connection, and one that the call may end. -/
theorem Conserved.steps (h : s.Conserved) (hledger : s.ledgers connection = some ledger)
    (hgoes : (Work.idle s.io ledger).Goes (Work.idle io ledger') given gone left)
    (hleaves : ∀ token ∈ left, ∀ op, s.io.operations.get? token = some op →
      op.identity = ledger.identity → leaves token op) :
    s.Steps { s.store connection ledger' given gone with io := io } leaves := by
  refine ⟨h.goes hledger hgoes, fun token op hop => ?_⟩
  change (io.operations.get? token).isSome ∨ _
  have hstay (hown : Owns io.operations op.identity token) : (io.operations.get? token).isSome := by
    obtain ⟨_, hop', -⟩ := hown
    simp [hop']
  by_cases hown : op.identity = ledger.identity
  · rcases hgoes.stays token (h.listed hledger hop hown) with hin | hleft
    · have howns := ((hgoes.kept.exact.accepted token).mp hin).1
      rw [hgoes.identity] at howns
      exact .inl (hstay (hown ▸ howns))
    · exact .inr (hleaves token hleft op hop hown)
  · exact .inl (hstay (((hgoes.apart _ hown).owns token).mpr ⟨op, hop, rfl⟩))

theorem Steps.publish {effects : IoCoreEffects} {t : IoCore}
    (h : s.Steps { t with io := io, gone := t.gone + effects.regions } leaves) :
    s.Steps (t.publish io effects) leaves :=
  ⟨h.conserved.quarantine effects.quarantine, h.stays⟩

/-- A call on one operation, whose connection it does not name. -/
theorem Conserved.inPlace (h : s.Conserved) (token : OperationToken)
    (hnone : s.io.operations.get? token = none → io = s.io ∧ gone = 0)
    (hsome : ∀ op ledger, s.io.operations.get? token = some op → (Work.idle s.io ledger).Kept →
      op.identity = ledger.identity →
        (Work.idle s.io ledger).Goes (Work.idle io ledger) 0 gone []) :
    s.Steps { s with io := io, gone := s.gone + gone } fun _ _ => False := by
  cases hop : s.io.operations.get? token with
  | none =>
    obtain ⟨rfl, rfl⟩ := hnone hop
    rw [add_zero]
    exact ⟨h, fun _ op hop => .inl (by simp [hop])⟩
  | some op =>
    obtain ⟨l, hl, hidentity⟩ := h.owner token op hop
    have hsteps : s.Steps _ fun _ _ => False := h.steps hl
      (hsome op l hop (h.idle hl) hidentity.symm) (by simp)
    simpa [store, ← hl] using hsteps

/-- A scan, from what it does with one operation. -/
theorem Conserved.scan {visit : IoState → OperationToken → IoState × IoCoreEffects}
    (hvisit : ∀ (s : IoCore) (token : OperationToken), s.Conserved →
      s.Steps { s with io := (visit s.io token).1, gone := s.gone + (visit s.io token).2.regions }
        fun _ _ => False) (tokens : List OperationToken) {s : IoCore} (h : s.Conserved) :
    s.Steps { s with
      io := (scanTokens visit s.io tokens).1
      gone := s.gone + (scanTokens visit s.io tokens).2.regions } fun _ _ => False := by
  induction tokens generalizing s with
  | nil =>
    simp only [scanTokens, IoCoreEffects.regions_empty, add_zero]
    exact ⟨h, fun _ op hop => .inl (by simp [hop])⟩
  | cons token _ ih =>
    have hfirst := hvisit s token h
    have hrest := ih hfirst.conserved
    simp only [scanTokens, IoCoreEffects.regions_extend]
    rw [← add_assoc]
    refine ⟨hrest.conserved, fun t op hop => .inl ?_⟩
    rcases hfirst.stays t op hop with hin | ⟨⟨⟩⟩
    obtain ⟨op', hop'⟩ := Option.isSome_iff_exists.mp hin
    simpa using hrest.stays t op' hop'

/-- How a call can end an operation: a dispatch by a queued completion that carries its token and
its queue pair, a reclamation under a proof that its queue pair is gone. -/
def Ends (s : IoCore) : IoCoreCall → OperationToken → OperationState → Prop
  | .dispatch connection quantum _, token, op =>
    op.identity.connection = connection ∧ ∃ ledger, s.ledgers connection = some ledger ∧
      ∃ completion ∈ ledger.completions.take quantum,
        decode completion.wrId = token ∧ completion.qpNum = op.identity.qpNum
  | .reclaim connection proof _ reclaimed _, token, op =>
    token = reclaimed ∧ op.identity.connection = connection ∧
      proof = ⟨op.identity.connection, op.identity.qpNum⟩
  | _, _, _ => False

/-- A call on one connection, with what it publishes. -/
theorem Conserved.call {effects : IoCoreEffects} (h : s.Conserved)
    (hledger : s.ledgers connection = some ledger)
    (hgoes : (Work.idle s.io ledger).Goes (Work.idle io ledger') given gone left)
    {returned : Multiset Mr} (hgone : returned + effects.regions = gone)
    (hleaves : ∀ token ∈ left, ∀ op, s.io.operations.get? token = some op →
      op.identity = ledger.identity → leaves token op) :
    s.Steps ((s.store connection ledger' given returned).publish io effects) leaves := by
  subst hgone
  apply Steps.publish
  simpa [store, add_assoc] using h.steps hledger hgoes hleaves

theorem Conserved.connect {identity : EstablishedIoIdentity} (h : s.Conserved)
    (hfree : s.ledgers identity.connection = none) (maxSendWr maxRecvWr : Nat) :
    (s.store identity.connection (.fromConnection identity maxSendWr maxRecvWr) 0 0).Conserved := by
  have hnone (token : OperationToken) (op : OperationState)
      (hop : s.io.operations.get? token = some op) :
      op.identity.connection ≠ identity.connection := by
    intro heq
    obtain ⟨l, hl, -⟩ := h.owner token op hop
    simp [heq, hfree] at hl
  refine ⟨h.books, fun other l hl => ?_, fun token op hop => ?_, ?_⟩
  · change Function.update s.ledgers identity.connection _ other = some l at hl
    by_cases hother : other = identity.connection
    · rw [hother, Function.update_self] at hl
      cases hl
      refine ⟨hother.symm, fun d => ?_, ⟨Nat.zero_le _, Nat.zero_le _⟩, fun token => ?_,
        by simp [ConnectionIoState.fromConnection]⟩
      · have hzero : s.io.operations.total (credit identity d) = 0 :=
          Registry.total_eq_zero fun token op hop =>
            if_neg fun hcredit => hnone token op hop (congrArg _ hcredit.1)
        cases d <;> exact hzero.symm
      · refine iff_of_false (Finset.notMem_empty _) ?_
        rintro ⟨⟨op, hop, hidentity⟩, -⟩
        exact hnone token op hop (congrArg _ hidentity)
    · rw [Function.update_of_ne hother] at hl
      exact h.ledger other l hl
  · obtain ⟨l, hl, hidentity⟩ := h.owner token op hop
    exact ⟨l, (Function.update_of_ne (hnone token op hop) ..).trans hl, hidentity⟩
  · simpa [store] using h.regions

theorem Conserved.retire (h : s.Conserved) (hledger : s.ledgers connection = some ledger)
    (hempty : ledger.accepted = ∅) :
    ({ s with
      io := s.io.retireConnectionIo connection
      ledgers := Function.update s.ledgers connection none } : IoCore).Conserved := by
  refine ⟨{ h.books with }, fun other l hl => ?_, fun token op hop => ?_, h.regions⟩
  · by_cases hother : other = connection
    · simp [hother] at hl
    · simp only [Function.update_of_ne hother] at hl
      exact h.ledger other l hl
  · obtain ⟨l, hl, hidentity⟩ := h.owner token op hop
    have hother : op.identity.connection ≠ connection := by
      intro heq
      rw [heq, hledger, Option.some.injEq] at hl
      have hmem := h.listed hledger hop (hidentity.symm.trans (congrArg _ hl.symm))
      simp [hempty] at hmem
    exact ⟨l, (Function.update_of_ne hother ..).trans hl, hidentity⟩

theorem Conserved.step (h : s.Conserved) {call : IoCoreCall} (hstep : s.step call = some s') :
    s.Steps s' (s.Ends call) := by
  have hself {t : IoCore} (ht : t.Conserved) (hops : t.io.operations = s.io.operations) :
      s.Steps t fun _ _ => False :=
    ⟨ht, fun _ op hop => .inl (by simp [hops, hop])⟩
  cases call with
  | connect _ maxSendWr maxRecvWr =>
    obtain ⟨hfree, rfl⟩ := Machine.of_guard hstep
    exact hself (h.connect hfree maxSendWr maxRecvWr) rfl
  | retire =>
    obtain ⟨ledger, hledger, hstep⟩ := Option.bind_eq_some_iff.mp hstep
    obtain ⟨hempty, rfl⟩ := Machine.of_guard hstep
    exact hself (h.retire hledger hempty) rfl
  | start _ kind mr remote range observer pageAvailable answer cancelled =>
    obtain ⟨ledger, hledger, rfl⟩ := Option.map_eq_some_iff.mp hstep
    exact h.call hledger ((h.idle hledger).startOperation cancelled kind mr remote range observer
      pageAvailable answer) rfl (by simp)
  | post _ kind entries answer cancelled =>
    obtain ⟨ledger, hledger, rfl⟩ := Option.map_eq_some_iff.mp hstep
    exact h.call hledger ((h.idle hledger).postIoBatch cancelled kind entries answer)
      (zero_add _) (by simp)
  | completion _ live =>
    simp only [IoCore.step] at hstep
    split at hstep
    next hprepare =>
      obtain ⟨_, rfl⟩ := prepareCompletion_eq_none hprepare
      cases hstep
      exact hself ⟨{ h.books with }, h.ledger, h.owner, h.regions⟩ rfl
    next hprepare =>
      obtain ⟨rfl, -⟩ := prepareCompletion_eq_some hprepare
      split at hstep
      next =>
        cases hstep
        exact hself ⟨{ h.books with }, h.ledger, h.owner, h.regions⟩ rfl
      next ledger hledger =>
        cases hstep
        exact h.steps hledger ((h.idle hledger).enqueuePreparedCompletion hprepare live
          ledger.identity) (by simp)
  | dispatch connection quantum cancelled =>
    obtain ⟨ledger, hledger, rfl⟩ := Option.map_eq_some_iff.mp hstep
    obtain ⟨io, _, _, heq, hgoes⟩ :=
      Work.Kept.dispatchConnectionCompletions cancelled quantum (h.idle hledger)
    obtain ⟨hconnection, hexact⟩ := h.ledger connection ledger hledger
    simp only [heq]
    refine h.call hledger hgoes (by simp) fun token htoken op hop hidentity => ?_
    obtain ⟨completion, hmem, rfl⟩ := List.mem_map.mp htoken
    refine ⟨(congrArg _ hidentity).trans hconnection, ledger, hledger, completion, hmem, rfl, ?_⟩
    rw [hidentity]
    exact (hexact.queue completion (List.mem_of_mem_take hmem)).qpNum
  | cancel token =>
    cases hstep
    have hsteps : s.Steps { s with io := s.io.cancelOperation token, gone := s.gone + 0 }
        fun _ _ => False :=
      h.inPlace token (fun hnone => ⟨by simp [cancelOperation, hnone], rfl⟩)
        fun op ledger hop hkept hidentity => hkept.cancelOperation hop hidentity
    rw [add_zero] at hsteps
    exact hsteps
  | reclamationDeadline token =>
    cases hstep
    exact (h.inPlace token (fun hnone => by simp [quarantineOperation, hnone])
      fun op ledger hop hkept hidentity => hkept.quarantineOperation hop hidentity).publish
  | scanClose connection _ error =>
    cases hstep
    exact (Conserved.scan (fun s token h => h.inPlace token
      (fun hnone => by simp [failObserver, hnone])
      fun op ledger hop hkept hidentity => hkept.failObserver hop hidentity connection error)
      _ h).publish
  | scanQuarantine =>
    cases hstep
    refine (Conserved.scan (fun s token h => h.inPlace token
      (fun hnone => by simp [quarantineOwned, hnone])
      fun op ledger hop hkept hidentity => ?_) _ h).publish
    simp only [quarantineOwned, hop]
    split
    next => exact hkept.quarantineOperation hop hidentity
    next => exact .refl hkept
  | terminalize outcome cancelled =>
    cases hstep
    exact (Conserved.scan (fun s token h => h.inPlace token
      (fun hnone => by simp [terminalizeOperation, hnone]) fun op ledger hop hkept hidentity =>
        hkept.terminalizeOperation cancelled hop hidentity outcome) _ h).publish
  | reclaim connection proof closeError token cancelled =>
    obtain ⟨ledger, hledger, rfl⟩ := Option.map_eq_some_iff.mp hstep
    obtain ⟨hconnection, -⟩ := h.ledger connection ledger hledger
    by_cases hproof : proof.connection ≠ ledger.identity.connection ∨
        proof.qpNum ≠ ledger.identity.qpNum
    · simp only [reclaimAfterQpDestroy, if_pos hproof]
      exact h.call hledger (.refl (h.idle hledger)) rfl (by simp)
    · refine h.call hledger
        ((h.idle hledger).reclaimAfterQpDestroy cancelled proof closeError token)
        (zero_add _) fun t ht op hop hidentity => ?_
      rw [not_or, not_not, not_not, ← hidentity] at hproof
      refine ⟨List.mem_singleton.mp ht, (congrArg _ hidentity).trans hconnection, ?_⟩
      cases proof
      simp_all
  | closeAdmission =>
    cases hstep
    exact hself ⟨{ h.books with }, h.ledger, h.owner, h.regions⟩ rfl

theorem conserved_new :
    (new maxInflightOperations cqCapacity completionDispatchBudget).Conserved := by
  refine ⟨⟨?_, ?_, rfl, Nat.zero_le _, rfl, rfl, rfl, rfl, rfl, rfl⟩, ?_, ?_, rfl⟩
  · intro token op hop
    cases hop
  · intro token op hop
    cases hop
  · intro connection ledger hledger
    cases hledger
  · intro token op hop
    cases hop

/-- The core gets to this state by calls. -/
def Reachable (s : IoCore) : Prop :=
  ∃ maxInflightOperations cqCapacity completionDispatchBudget calls, Machine.run step
    (new maxInflightOperations cqCapacity completionDispatchBudget) calls = some s

theorem Reachable.conserved (h : s.Reachable) : s.Conserved := by
  obtain ⟨_, _, _, _, hrun⟩ := h
  exact Machine.run_invariant_of_step (fun _ _ _ h hstep => (h.step hstep).conserved)
    (conserved_new ..) hrun

/-- A connection posts one region, and its completion returns it. -/
def roundTrip : List IoCoreCall :=
  [.connect ⟨⟨0, 1⟩, 7⟩ 1 1,
    .start ⟨0, 1⟩ .send ⟨0, 4096, 4⟩ none none 0 true (.ok .allAccepted) fun _ => false,
    .completion ⟨encode ⟨0, 1⟩, 0, 0, .send, 7⟩ (some ⟨⟨0, 1⟩, 7⟩),
    .dispatch ⟨0, 1⟩ 1 fun _ => false]

/-- The counters of the core are sums over the registered operations, and a ledger counts and
lists those of its connection, within the capacities of the queue pair. -/
theorem counters_exact (hreachable : s.Reachable) :
    (s.io.cqCredits.used = s.io.operations.live ∧ s.io.acceptedOperations = s.io.operations.live ∧
      s.io.cqCredits.used ≤ s.io.cqCredits.capacity) ∧
    s.io.pendingReclamations = s.io.operations.total reclaims ∧
    (s.io.quarantinedOperations = s.io.operations.total quarantines ∧
      s.io.quarantinedMrs = s.io.operations.total quarantines ∧
      s.io.cqCredits.retained = s.io.operations.total quarantines ∧
      s.io.quarantinedBytes = s.io.operations.total quarantinedLen) ∧
    ∀ connection ledger, s.ledgers connection = some ledger →
      (∀ d, ledger.localUsed d = s.io.operations.total (credit ledger.identity d)) ∧
      ledger.localSend ≤ ledger.maxSendWr ∧ ledger.localRecv ≤ ledger.maxRecvWr ∧
      ∀ token, token ∈ ledger.accepted ↔
        ∃ op, s.io.operations.get? token = some op ∧ op.identity = ledger.identity := by
  have h := hreachable.conserved
  have hlive : s.io.operations.live = s.io.operations.total fun _ => 1 :=
    s.io.operations.wellFormed.counted
  have hused := h.books.credits
  have haccepted := h.books.accepted
  refine ⟨⟨by omega, by omega, h.books.capacity⟩, h.books.pending,
    ⟨h.books.quarantined, h.books.mrs, h.books.retained, h.books.bytes⟩,
    fun connection ledger hledger => ?_⟩
  obtain ⟨-, hexact⟩ := h.ledger connection ledger hledger
  refine ⟨hexact.credits, hexact.bounded.1, hexact.bounded.2, fun token => ?_⟩
  simpa [Owns] using hexact.accepted token

theorem counters_exact_posted : ∃ s : IoCore, s.Reachable ∧ s.io.acceptedOperations = 1 ∧
    s.io.cqCredits.used = s.io.operations.live := by
  obtain ⟨s, hrun, hone⟩ : ∃ s, Machine.run step (new 1 1 8) (roundTrip.take 2) = some s ∧
      s.io.acceptedOperations = 1 := ⟨_, rfl, rfl⟩
  have hreachable : s.Reachable := ⟨_, _, _, _, hrun⟩
  exact ⟨s, hreachable, hone, (counters_exact hreachable).1.1⟩

/-- Regions are neither lost nor handed out twice, and a core whose ledgers list nothing holds
nothing. -/
theorem regions_conserved (hreachable : s.Reachable) : s.given = s.io.held + s.gone ∧
    ((∀ connection ledger, s.ledgers connection = some ledger → ledger.accepted = ∅) →
      s.gone = s.given ∧ s.io.operations.live = 0 ∧ s.io.cqCredits.used = 0 ∧
        s.io.pendingReclamations = 0 ∧ s.io.quarantinedBytes = 0) := by
  have h := hreachable.conserved
  refine ⟨h.regions, fun hempty => ?_⟩
  have hnone (token : OperationToken) (op : OperationState)
      (hop : s.io.operations.get? token = some op) : False := by
    obtain ⟨ledger, hledger, hidentity⟩ := h.owner token op hop
    have hmem := h.listed hledger hop hidentity.symm
    simp [hempty _ ledger hledger] at hmem
  have hzero {M : Type} [AddCommMonoid M] (f : OperationState → M) : s.io.operations.total f = 0 :=
    Registry.total_eq_zero fun token op hop => (hnone token op hop).elim
  have hlive : s.io.operations.live = s.io.operations.total fun _ => 1 :=
    s.io.operations.wellFormed.counted
  refine ⟨?_, hlive.trans (hzero _), h.books.credits.trans (hzero _),
    h.books.pending.trans (hzero _), h.books.bytes.trans (hzero _)⟩
  rw [h.regions, held, hzero, zero_add]

theorem regions_conserved_roundTrip : ∃ s : IoCore, s.Reachable ∧ s.gone = {⟨0, 4096, 4⟩} ∧
    s.given = s.io.held + s.gone := by
  obtain ⟨s, hrun, hgone⟩ : ∃ s, Machine.run step (new 1 1 8) roundTrip = some s ∧
      s.gone = {⟨0, 4096, 4⟩} := ⟨_, rfl, rfl⟩
  have hreachable : s.Reachable := ⟨_, _, _, _, hrun⟩
  exact ⟨s, hreachable, hgone, (regions_conserved hreachable).1⟩

/-- An operation is over only through a queued completion with its own token and queue pair, or
through a reclamation under a proof about its own queue pair. -/
theorem ends_of_step {call : IoCoreCall} {token : OperationToken} {op : OperationState}
    (hreachable : s.Reachable) (hstep : s.step call = some s')
    (hop : s.io.operations.get? token = some op) (hgone : s'.io.operations.get? token = none) :
    s.Ends call token op := by
  simpa [hgone] using (hreachable.conserved.step hstep).stays token op hop

theorem ends_of_step_roundTrip : ∃ (s s' : IoCore) (op : OperationState), s.Reachable ∧
    s.step (.dispatch ⟨0, 1⟩ 1 fun _ => false) = some s' ∧
    s.io.operations.get? ⟨0, 1⟩ = some op ∧ s'.io.operations.get? ⟨0, 1⟩ = none ∧
    s.Ends (.dispatch ⟨0, 1⟩ 1 fun _ => false) ⟨0, 1⟩ op := by
  obtain ⟨s, s', op, hrun, hstep, hop, hgone⟩ : ∃ (s s' : IoCore) (op : OperationState),
      Machine.run step (new 1 1 8) (roundTrip.take 3) = some s ∧
      s.step (.dispatch ⟨0, 1⟩ 1 fun _ => false) = some s' ∧
      s.io.operations.get? ⟨0, 1⟩ = some op ∧ s'.io.operations.get? ⟨0, 1⟩ = none :=
    ⟨_, _, _, rfl, rfl, rfl, rfl⟩
  have hreachable : s.Reachable := ⟨_, _, _, _, hrun⟩
  exact ⟨s, s', op, hreachable, hstep, hop, hgone, ends_of_step hreachable hstep hop hgone⟩

/-- Between two calls every registered operation is with the provider, so that no completion is
ever deferred and none finds an operation that is over. -/
theorem operations_settled {token : OperationToken} {op : OperationState}
    (hreachable : s.Reachable) (hop : s.io.operations.get? token = some op) :
    op.token = token ∧ op.Settled ∧ ∀ completion, (op.recordCompletion completion).1 ≠ .deferred ∧
      ((op.recordCompletion completion).1 = .complete ↔ op.completion = .queued) := by
  have h := hreachable.conserved
  have hsettled := h.books.settled token op hop (by simp)
  refine ⟨h.books.token token op hop, hsettled, fun completion => ?_⟩
  have hlifecycle := hsettled.lifecycle
  unfold recordCompletion
  cases hl : op.lifecycle <;> simp [hl] at hlifecycle ⊢
  all_goals by_cases hq : op.completion = .queued <;> simp [hq]

theorem operations_settled_posted : ∃ (s : IoCore) (op : OperationState), s.Reachable ∧
    s.io.operations.get? ⟨0, 1⟩ = some op ∧ op.Settled := by
  obtain ⟨s, op, hrun, hop⟩ : ∃ (s : IoCore) (op : OperationState), Machine.run step (new 1 1 8)
      (roundTrip.take 2) = some s ∧ s.io.operations.get? ⟨0, 1⟩ = some op := ⟨_, _, rfl, rfl⟩
  have hreachable : s.Reachable := ⟨_, _, _, _, hrun⟩
  exact ⟨s, op, hreachable, hop, (operations_settled hreachable hop).2.1⟩

end IoCore

end RdmaIo.Engine
