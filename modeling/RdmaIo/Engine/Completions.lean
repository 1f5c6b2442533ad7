/-
Completions the engine refuses.  A completion is checked in four places: its token
against the operation registry, its connection against the session registry, its queue
pair and opcode against the operation, and the operation's own hand-off.  Whichever check
refuses it, the session keeps its state but for the counters of refused completions.
-/
import RdmaIo.Engine.Session

namespace RdmaIo.Engine

open SlotRegistry

/-- The connection of an identity is registered with its queue pair. -/
def Session.Live (s : Session) (identity : EstablishedIoIdentity) : Prop :=
  ∃ c, s.connections.connection? identity.connection = some c ∧ c.qpNum = identity.qpNum ∧
    s.connections.qpIndex identity.qpNum = some identity.connection

/-- The operation has a completion already, on its way or recorded. -/
def OperationState.Completed (op : OperationState) : Prop :=
  op.completion ≠ .none ∨ op.lifecycle = .completing ∨ op.lifecycle = .released

/-- A completion that no operation of the engine is waiting for. -/
def Session.Adversarial (s : Session) (completion : WorkCompletion) : Prop :=
  ∀ op, s.io.operations.get? (decode completion.wrId) = some op →
    ¬ s.Live op.identity ∨ completion.qpNum ≠ op.identity.qpNum ∨
      (completion.isSuccess = true ∧ completion.opcode ≠ op.expectedOpcode) ∨ op.Completed

/-- A dequeued completion whose operation is gone, or is not the one that queued it. -/
def IoState.Unclaimed (io : IoState) (completion : WorkCompletion) : Prop :=
  ∀ op, io.operations.get? (decode completion.wrId) = some op → op.completion ≠ .queued

/-! ### The registries keep what is not changed -/

variable {f g : ConnectionState → ConnectionState} {r : ConnectionRegistry}
  {token : ConnectionToken} {s : Session} {pending : PendingCompletion}
  {op : OperationState} {c : ConnectionState}

theorem Lifecycle.mapConnection_congr {l : Lifecycle} (h : ∀ c, l.connection = some c → f c = g c) :
    l.mapConnection f = l.mapConnection g := by
  cases l with
  | establishing => rfl
  | registered _ c | active _ c | draining _ c | retiring _ c =>
    simp only [Lifecycle.mapConnection, h c rfl]

theorem ConnectionEntry.mapConnection_congr {e : ConnectionEntry}
    (h : ∀ c, e.connection = some c → f c = g c) : e.mapConnection f = e.mapConnection g := by
  cases e with
  | running => exact congrArg _ (Lifecycle.mapConnection_congr h)
  | quarantined q =>
    cases q with
    | setup => rfl
    | of =>
      simp only [ConnectionEntry.mapConnection, QuarantinedLifecycle.mapConnection,
        Lifecycle.mapConnection_congr h]
  | retired _ c => simp only [ConnectionEntry.mapConnection, h c rfl]

theorem ConnectionEntry.mapConnection_id (e : ConnectionEntry) : e.mapConnection id = e := by
  rcases e with l | ⟨⟨⟩ | l, _⟩ | _
  · cases l <;> rfl
  · rfl
  · cases l <;> rfl
  · rfl

theorem ConnectionRegistry.modifyConnection_congr
    (h : ∀ c, r.connection? token = some c → f c = g c) :
    r.modifyConnection token f = r.modifyConnection token g := by
  unfold modifyConnection transition
  cases hentry : r.slots.get? token with
  | none => rfl
  | some entry =>
    have hsame : entry.mapConnection f = entry.mapConnection g :=
      ConnectionEntry.mapConnection_congr fun c hc => h c (by simp [connection?, hentry, hc])
    simp only [hsame]

theorem ConnectionRegistry.modifyConnection_id (r : ConnectionRegistry)
    (token : ConnectionToken) : r.modifyConnection token id = r := by
  unfold modifyConnection transition
  cases hentry : r.slots.get? token with
  | none => rfl
  | some =>
    simp only [ConnectionEntry.mapConnection_id, Registry.set_self hentry]

theorem ConnectionRegistry.proveLiveIo_eq_none {identity : EstablishedIoIdentity}
    (h : ¬ s.Live identity) :
    s.connections.proveLiveIo identity.connection identity.qpNum = none := by
  unfold proveLiveIo
  cases hc : s.connections.connection? identity.connection with
  | none => rfl
  | some c =>
    apply if_pos
    by_contra hlive
    rw [not_or, not_not, not_not] at hlive
    exact h ⟨c, hc, hlive⟩

variable {io : IoState}

/-! ### One layer after the other -/

theorem IoState.queueCompletion_refused (ledger : ConnectionIoState)
    (hop : io.operations.get? pending.token = some op) (h : op.Completed) :
    io.queueCompletion pending ledger = (none, io.rejectCqe .duplicate, ledger) := by
  have hmark : op.markCompletionQueued = none := by
    apply if_pos
    rcases h with hcompletion | hcompleting | hreleased
    · exact .inr (.inr hcompletion)
    · exact .inl hcompleting
    · exact .inr (.inl hreleased)
  simp [queueCompletion, hop, hmark]

/-- A prepared completion that fails a check leaves the ledger alone. -/
theorem IoState.enqueuePreparedCompletion_refused {live : Option LiveIoConnectionProof}
    (connection : EstablishedIoIdentity) (ledger : ConnectionIoState)
    (hop : io.operations.get? pending.token = some op) (hidentity : pending.identity = op.identity)
    (h : live = none ∨ pending.completion.qpNum ≠ op.identity.qpNum ∨
      (pending.completion.isSuccess = true ∧ pending.completion.opcode ≠ op.expectedOpcode) ∨
      op.Completed) :
    ∃ reason, io.enqueuePreparedCompletion pending live connection ledger =
      (none, io.rejectCqe reason, ledger) := by
  unfold enqueuePreparedCompletion
  simp only [hidentity, Registry.lookup_eq_occupied.mpr hop]
  by_cases hqp : pending.completion.qpNum ≠ op.identity.qpNum
  · exact ⟨_, if_pos hqp⟩
  · rw [if_neg hqp]
    split
    next => exact ⟨_, rfl⟩
    next hproof =>
      have hlive : live ≠ none := by
        intro hnone
        exact hproof (.inl (by simp [hnone]))
      split
      next hsuccess =>
        split
        next => exact ⟨_, rfl⟩
        next hopcode =>
          rcases h with h | h | h | h
          · exact absurd h hlive
          · exact absurd h hqp
          · exact absurd h.2 hopcode
          · exact ⟨_, queueCompletion_refused ledger hop h⟩
      next hfailed =>
        rcases h with h | h | h | h
        · exact absurd h hlive
        · exact absurd h hqp
        · exact absurd h.1 hfailed
        · exact ⟨_, queueCompletion_refused ledger hop h⟩

variable {completion : WorkCompletion}

theorem IoState.dispatchQueuedCompletion_refused
    (ledger : ConnectionIoState) (cancelled : ObserverId → Bool) (h : io.Unclaimed completion) :
    ∃ reason, io.dispatchQueuedCompletion ledger completion cancelled =
      (io.rejectCqe reason, ledger, .empty) := by
  unfold dispatchQueuedCompletion
  cases hlookup : io.operations.lookup (decode completion.wrId) with
  | occupied op =>
    have hop := Registry.lookup_eq_occupied.mp hlookup
    have hrecord : op.recordCompletion completion = (.duplicate, op) := if_pos (h op hop)
    simp only [hlookup, hrecord, Registry.set_self hop]
    exact ⟨_, rfl⟩
  | duplicate | stale | retired | unknown =>
    simp only [hlookup]
    exact ⟨_, rfl⟩

theorem IoState.prepareCompletion_of_some
    (h : io.operations.get? (decode completion.wrId) = some op) : io.prepareCompletion completion =
      (some ⟨completion, decode completion.wrId, op.identity⟩, io) := by
  simp only [prepareCompletion, Registry.lookup_eq_occupied.mpr h]

theorem IoState.prepareCompletion_of_none (h : io.operations.get? (decode completion.wrId) = none) :
    ∃ reason, io.prepareCompletion completion = (none, io.rejectCqe reason) := by
  unfold prepareCompletion
  cases hlookup : io.operations.lookup (decode completion.wrId) with
  | occupied =>
    rw [Registry.lookup_eq_occupied.mp hlookup] at h
    cases h
  | duplicate | stale | retired | unknown =>
    simp only [hlookup]
    exact ⟨_, rfl⟩

/-! ### The session -/

theorem withConnectionIo_run {α : Type}
    (f : IoState → EstablishedIoIdentity → ConnectionIoState → α × IoState × ConnectionIoState)
    (hc : s.connections.connection? token = some c) : (withConnectionIo token f).run s =
      .ok (some (f s.io c.identity c.ledger).1)
        { s with
          io := (f s.io c.identity c.ledger).2.1
          connections := s.connections.modifyConnection token fun c' =>
            { c' with ledger := (f s.io c.identity c.ledger).2.2 } } := by
  simp only [withConnectionIo, EStateM.run, bind, EStateM.bind, get, getThe, MonadStateOf.get,
    EStateM.get, hc]
  rfl

/-- Writing back the ledger that was read changes nothing. -/
theorem ConnectionRegistry.modifyConnection_ledger_self (hc : r.connection? token = some c) :
    r.modifyConnection token (fun c' => { c' with ledger := c.ledger }) = r := by
  have hid : r.modifyConnection token (fun c' => { c' with ledger := c.ledger }) =
      r.modifyConnection token id := by
    apply modifyConnection_congr
    intro c' hc'
    rw [hc] at hc'
    cases hc'
    rfl
  rw [hid, modifyConnection_id]

/-- A completion that a check refuses on its way to the queue of its connection. -/
theorem enqueueCompletionWithCore_refused (h : s.Adversarial completion) :
    ∃ reason, (enqueueCompletionWithCore completion).run s =
      .ok none { s with io := s.io.rejectCqe reason } := by
  cases hop : s.io.operations.get? (decode completion.wrId) with
  | none =>
    obtain ⟨reason, hprepare⟩ := IoState.prepareCompletion_of_none hop
    refine ⟨reason, ?_⟩
    simp only [enqueueCompletionWithCore, EStateM.run, bind, EStateM.bind, get, getThe,
      MonadStateOf.get, EStateM.get, hprepare]
    rfl
  | some op =>
    have hprepare := IoState.prepareCompletion_of_some hop
    cases hc : s.connections.connection? op.identity.connection with
    | none =>
      refine ⟨.staleConnection, ?_⟩
      simp only [enqueueCompletionWithCore, EStateM.run, bind, EStateM.bind, get, getThe,
        MonadStateOf.get, EStateM.get, hprepare, SessionM.modifyIo, modify, modifyGet,
        MonadStateOf.modifyGet, EStateM.modifyGet, hc]
      rfl
    | some c =>
      have hrefused := h op hop
      have hlive : ¬ s.Live op.identity →
          s.connections.proveLiveIo op.identity.connection op.identity.qpNum = none :=
        ConnectionRegistry.proveLiveIo_eq_none
      have hquiet : ∃ reason, s.io.enqueuePreparedCompletion ⟨completion, decode completion.wrId,
            op.identity⟩ (s.connections.proveLiveIo op.identity.connection op.identity.qpNum)
            c.identity c.ledger = (none, s.io.rejectCqe reason, c.ledger) := by
        apply IoState.enqueuePreparedCompletion_refused c.identity c.ledger hop rfl
        exact hrefused.imp_left hlive
      obtain ⟨reason, henqueue⟩ := hquiet
      refine ⟨reason, ?_⟩
      have hrun := withConnectionIo_run (fun io identity ledger =>
        io.enqueuePreparedCompletion ⟨completion, decode completion.wrId, op.identity⟩
          (s.connections.proveLiveIo op.identity.connection op.identity.qpNum) identity ledger) hc
      simp only [henqueue, ConnectionRegistry.modifyConnection_ledger_self hc] at hrun
      simp only [EStateM.run] at hrun
      simp only [enqueueCompletionWithCore, EStateM.run, bind, EStateM.bind, get, getThe,
        MonadStateOf.get, EStateM.get, hprepare, SessionM.modifyIo, modify, modifyGet,
        MonadStateOf.modifyGet, EStateM.modifyGet, hc, Option.isNone_some,
        Bool.false_eq_true, if_false, hrun]
      rfl

/-- A dequeued completion that no operation claims leaves the queue and nothing else. -/
theorem dispatchConnectionCompletions_refused {rest : List WorkCompletion} (a : Answers)
    (hc : s.connections.connection? token = some c)
    (hqueue : c.ledger.completions = completion :: rest) (h : s.io.Unclaimed completion) :
    ∃ reason, (dispatchConnectionCompletions a token 1).run s =
      .ok () { s with
        io := s.io.rejectCqe reason
        connections := s.connections.modifyConnection token fun c =>
          { c with ledger := { c.ledger with completions := rest } } } := by
  obtain ⟨reason, hdispatch⟩ := IoState.dispatchQueuedCompletion_refused
    { c.ledger with completions := rest } (a.observerCancelled 1) h
  refine ⟨reason, ?_⟩
  have hledger : s.connections.modifyConnection token (fun c' =>
        { c' with ledger := { c.ledger with completions := rest } }) =
      s.connections.modifyConnection token fun c' =>
        { c' with ledger := { c'.ledger with completions := rest } } := by
    apply ConnectionRegistry.modifyConnection_congr
    intro c' hc'
    rw [hc] at hc'
    cases hc'
    rfl
  have hloop : s.io.dispatchConnectionCompletions c.ledger (a.observerCancelled 1) 1 =
      (s.io.rejectCqe reason, { c.ledger with completions := rest }, .empty) := by
    simp only [IoState.dispatchConnectionCompletions, hqueue, hdispatch]
    rfl
  have hrun := withConnectionIo_run (fun io _ ledger =>
    ((io.dispatchConnectionCompletions ledger (a.observerCancelled 1) 1).2.2,
      (io.dispatchConnectionCompletions ledger (a.observerCancelled 1) 1).1,
      (io.dispatchConnectionCompletions ledger (a.observerCancelled 1) 1).2.1)) hc
  simp only [hloop, hledger, EStateM.run] at hrun
  simp only [dispatchConnectionCompletions, EStateM.run, bind, EStateM.bind]
  rw [hrun]
  rfl

/-- A completion that no operation waits for changes the counters of refused completions
and nothing else, and nothing is published: on its way to the queue of its connection,
and, if its operation went away while it was queued, when it is taken out of it. -/
theorem adversarial_completion_inert (s : Session) (completion : WorkCompletion) :
    (s.Adversarial completion →
      ∃ reason, (enqueueCompletionWithCore completion).run s =
        .ok none { s with io := s.io.rejectCqe reason }) ∧
    (∀ (a : Answers) (token : ConnectionToken) (c : ConnectionState) (rest : List WorkCompletion),
      s.connections.connection? token = some c →
      c.ledger.completions = completion :: rest → s.io.Unclaimed completion →
      ∃ reason, (dispatchConnectionCompletions a token 1).run s = .ok () { s with
          io := s.io.rejectCqe reason
          connections := s.connections.modifyConnection token fun c =>
            { c with ledger := { c.ledger with completions := rest } } }) := by
  constructor
  · exact enqueueCompletionWithCore_refused
  · intro a token c rest hc hqueue h
    exact dispatchConnectionCompletions_refused a hc hqueue h

/-- A successful receive completion of generation `generation` of slot 0, from queue pair 7. -/
def slotZeroCompletion (generation : Nat) : WorkCompletion :=
  ⟨generation * 2 ^ 32, 0, 0, .recv, 7⟩

/-- A receive in slot 0 whose completion is queued. -/
def queuedReceive : OperationState :=
  { OperationState.newWithEvent ⟨0, 1⟩ ⟨⟨0, 1⟩, 7⟩ .recv .recv none 0 none with
    lifecycle := .inFlight, completion := .queued }

/-- Its connection, with a completion of another generation in front of the queue. -/
def queuedConnection : ConnectionState :=
  let c := (ConnectionState.new ⟨0, 1⟩ 7 1 1
    ⟨.established, true, true, true, fun _ => rfl⟩ ⟨0, 0⟩).1
  { c with ledger := { c.ledger with
      accepted := insert ⟨0, 1⟩ ∅
      completions := [slotZeroCompletion 2, slotZeroCompletion 1] } }

def queuedSession : Session :=
  let s := Session.new 1 1 2 1
  match s.connections.slots.allocate true fun _ => .running (.active none queuedConnection),
      s.io.operations.allocate true fun _ => queuedReceive with
  | .ok (token, slots), .ok (_, operations) =>
    { s with
      connections := { s.connections with
        slots := slots
        qpIndex := fun qpNum => if qpNum = 7 then some token else none }
      io := { s.io with operations := operations } }
  | _, _ => s

/-- The repeated completion of a live operation, and the dispatch of a stale one. -/
theorem adversarial_completion_inert_repeated : queuedSession.Live queuedReceive.identity ∧
    (∃ reason, (enqueueCompletionWithCore (slotZeroCompletion 1)).run queuedSession =
      .ok none { queuedSession with io := queuedSession.io.rejectCqe reason }) ∧
    ∀ a : Answers, ∃ reason, (dispatchConnectionCompletions a ⟨0, 1⟩ 1).run queuedSession =
      .ok () { queuedSession with
        io := queuedSession.io.rejectCqe reason
        connections := queuedSession.connections.modifyConnection ⟨0, 1⟩ fun c =>
          { c with ledger := { c.ledger with completions := [slotZeroCompletion 1] } } } := by
  refine ⟨⟨queuedConnection, rfl, rfl, rfl⟩, ?_, ?_⟩
  · apply (adversarial_completion_inert queuedSession (slotZeroCompletion 1)).1
    intro op hop
    have hqueued : queuedSession.io.operations.get? (decode (slotZeroCompletion 1).wrId) =
        some queuedReceive := rfl
    rw [hqueued] at hop
    cases hop
    exact .inr (.inr (.inr (.inl (by decide))))
  · intro a
    apply (adversarial_completion_inert queuedSession (slotZeroCompletion 2)).2 a ⟨0, 1⟩
      queuedConnection [slotZeroCompletion 1] rfl rfl
    intro op hop
    have hstale : queuedSession.io.operations.get? (decode (slotZeroCompletion 2).wrId) =
        none := rfl
    rw [hstale] at hop
    cases hop

end RdmaIo.Engine
