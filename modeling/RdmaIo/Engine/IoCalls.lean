/-
The calls of the I/O core, each as a sequence of moves: what a call keeps in the books, which
regions it was given and gives out, and which accepted operations are over when it returns.
-/
import RdmaIo.Engine.IoBooks

namespace RdmaIo.Engine

open ConnectionIoState
open IoCoreEffects
open List
open SlotRegistry OperationState

/-! ### Regions that a call gives out -/

/-- The regions in the events, in the results of observers and among those that are freed. -/
def IoCoreEffects.regions (effects : IoCoreEffects) : Multiset Mr :=
  ↑(effects.events.filterMap IoCompletionEvent.mr) +
    ↑(effects.observed.filterMap fun observed => observed.2.2) + ↑effects.dropped

@[simp] theorem IoCoreEffects.regions_empty : empty.regions = 0 := rfl

@[simp] theorem IoCoreEffects.regions_extend (effects other : IoCoreEffects) :
    (effects.extend other).regions = effects.regions + other.regions := by
  simp only [regions, extend, filterMap_append, ← Multiset.coe_add]
  ac_rfl

variable (entries : List IoState.BatchEntry)

/-- The regions of the entries of a batch. -/
def batchRegions : Multiset Mr :=
  ↑(entries.map IoState.BatchEntry.mr)

@[simp] theorem IoCoreEffects.regions_unaccepted (error : Error) :
    (ofEvents (entries.map (IoState.BatchEntry.unaccepted error))).regions =
      batchRegions entries := by
  simp [regions, ofEvents, empty, batchRegions, filterMap_map, Function.comp_def,
    IoState.BatchEntry.unaccepted]

variable (op : OperationState)

theorem regions_releasedEffects (error : Error) :
    (IoState.releasedEffects (op.takeUnacceptedOwned error).1).regions = op.region := by
  unfold takeUnacceptedOwned
  cases op.eventDestination <;> cases hmr : op.mr <;>
    simp [IoState.releasedEffects, regions, empty, region, hmr]

/-- A finished operation says what it was counted for and hands its region on, to one place. -/
structure Finishes (op : OperationState) (finished : FinishState) : Prop where
  reclaiming : finished.wasReclaiming = op.reclamationPending
  quarantined : finished.wasQuarantined = op.quarantined
  regions : ∀ ledger closes, (IoState.finishedEffects ledger op finished closes).regions = op.region

theorem finishes_finishCompletion (completion : WorkCompletion)
    (cancelled : ObserverId → Bool) : Finishes op (op.finishCompletion completion cancelled).1 := by
  unfold finishCompletion
  cases op.eventDestination with
  | some => cases hmr : op.mr <;>
      exact ⟨rfl, rfl, by simp [IoState.finishedEffects, regions, region, hmr]⟩
  | none =>
    cases op.observer with
    | none => exact ⟨rfl, rfl, by simp [IoState.finishedEffects, regions, region]⟩
    | some observer =>
      cases hcancelled : cancelled observer <;> cases hmr : op.mr <;>
        simp only [Option.map_none, hcancelled, if_true, Bool.false_eq_true, if_false] <;>
        exact ⟨rfl, rfl, by simp [IoState.finishedEffects, regions, region, hmr]⟩

theorem finishes_finishAfterQpDestroy (error : Error)
    (cancelled : ObserverId → Bool) : Finishes op (op.finishAfterQpDestroy error cancelled).1 := by
  unfold finishAfterQpDestroy
  cases op.eventDestination with
  | some => cases hmr : op.mr <;>
      exact ⟨rfl, rfl, by simp [IoState.finishedEffects, regions, region, hmr]⟩
  | none =>
    cases op.observer with
    | none => exact ⟨rfl, rfl, by simp [IoState.finishedEffects, regions, region]⟩
    | some observer =>
      cases hcancelled : cancelled observer <;>
        exact ⟨rfl, rfl, by
          simp [IoState.finishedEffects, regions, region, hcancelled]⟩

/-! ### Transitions of one operation -/

namespace OperationState

variable {op : OperationState}

theorem commitAccepted_fresh (h : op.Fresh) (cancelled : ObserverId → Bool) :
    op.commitAccepted cancelled =
      (⟨none, op.observerCancelled cancelled⟩,
        { op with
          lifecycle := if op.observerCancelled cancelled then .cancelled else .inFlight
          reclamationPending := op.observerCancelled cancelled }) := by
  simp [commitAccepted, h.completion, h.reclamation]

theorem canReleaseUnaccepted_fresh (h : op.Fresh) : op.canReleaseUnaccepted = true := by
  simp [canReleaseUnaccepted, h.lifecycle, h.completion]

theorem alike_markReclaiming (op : OperationState) : op.Alike op.markReclaiming := by
  unfold markReclaiming
  split <;> exact ⟨rfl, rfl, rfl, rfl, rfl⟩

theorem Settled.not_quarantined (h : op.Settled) (hlifecycle : op.lifecycle ≠ .quarantined) :
    op.quarantined = false := by
  rwa [Bool.eq_false_iff, Ne, h.quarantine]

theorem Settled.markReclaiming (h : op.Settled) : op.markReclaiming.Settled := by
  unfold OperationState.markReclaiming
  split
  next hcancelled =>
    have hq := h.not_quarantined (by simp [hcancelled])
    exact ⟨by simp, h.completion, by simp [hq], by simp [hq]⟩
  next => exact h

end OperationState

theorem IoState.prepareCompletion_eq_none {io io' : IoState} {completion : WorkCompletion}
    (h : io.prepareCompletion completion = (none, io')) : ∃ reason, io' = io.rejectCqe reason := by
  cases hlookup : io.operations.lookup (decode completion.wrId) <;>
    simp only [prepareCompletion, hlookup] at h <;> cases h <;> exact ⟨_, rfl⟩

theorem IoState.prepareCompletion_eq_some {io io' : IoState} {completion : WorkCompletion}
    {pending : PendingCompletion} (h : io.prepareCompletion completion = (some pending, io')) :
    io' = io ∧ pending.completion = completion ∧ pending.token = decode completion.wrId ∧
      ∃ op, io.operations.get? pending.token = some op ∧ pending.identity = op.identity := by
  cases hlookup : io.operations.lookup (decode completion.wrId) <;>
    simp only [prepareCompletion, hlookup] at h <;> cases h
  exact ⟨rfl, rfl, rfl, _, Registry.lookup_eq_occupied.mp hlookup, rfl⟩

/-- The region that a scalar call returns at once. -/
def IoState.StartResult.regions : IoState.StartResult → Multiset Mr
  | .inFlight _ => 0
  | .immediate output => ↑output.2.toList

theorem ConnectionIoState.releaseLocal_reserveLocal {ledger ledger' : ConnectionIoState}
    {d : Direction} (h : ledger.reserveLocal d = some ledger') :
    ledger'.releaseLocal d = ledger := by
  cases d <;> simp only [reserveLocal] at h <;> split at h <;> cases h <;> rfl

namespace Work

variable {w : Work} {io io' : IoState} {ledger ledger' : ConnectionIoState}
  {token : OperationToken} {op op' : OperationState} {rest more : List OperationToken} {n : Nat}
  {given gone gone' : Multiset Mr} {left : List OperationToken} (cancelled : ObserverId → Bool)

/-- No call is at work. -/
abbrev idle (io : IoState) (ledger : ConnectionIoState) : Work := ⟨io, ledger, .send, none, [], 0⟩

/-- A batch is at work, with the operations it has reserved so far. -/
abbrev batch (kind : OperationKind) (io : IoState) (ledger : ConnectionIoState)
    (reserved : List OperationToken) : Work :=
  ⟨io, ledger, kind.direction, none, reserved, reserved.length⟩

/-- A part of a call returns the core, the ledger and what it publishes. -/
def Returns (w : Work) (given : Multiset Mr) (out : IoState × ConnectionIoState × IoCoreEffects)
    (reserved : List OperationToken) (unposted : Nat) : Prop :=
  w.Goes (w.on out.1 out.2.1 reserved unposted) given out.2.2.regions []

/-- A scalar call returns its result besides. -/
def Starts (w : Work) (given : Multiset Mr)
    (out : IoState.StartResult × IoState × ConnectionIoState × IoCoreEffects) : Prop :=
  w.Goes (w.on out.2.1 out.2.2.1 [] 0) given (out.1.regions + out.2.2.2.regions) []

/-- What was given first goes out later. -/
theorem Goes.andThen {w' w'' : Work} (h : w.Goes w' given 0 []) (h' : w'.Goes w'' 0 gone left) :
    w.Goes w'' given gone left := by
  simpa using h.trans h'

theorem Goes.congr {w' : Work} (h : w.Goes w' given gone left) (hgone : gone' = gone) :
    w.Goes w' given gone' left :=
  hgone ▸ h

/-- A region passes through a call. -/
theorem Goes.pass {w' : Work} (h : w.Goes w' given gone left) (region : Multiset Mr) :
    w.Goes w' (given + region) (gone + region) left :=
  { h with regions := by rw [← add_assoc, h.regions, add_assoc] }

section

variable {direction : Direction} {observer : Option ObserverId}

theorem Kept.start (h : Kept ⟨io, ledger, direction, observer, [], 0⟩) (direction' : Direction)
    (observer' : Option ObserverId) : Kept ⟨io, ledger, direction', observer', [], 0⟩ :=
  ⟨h.books, h.exact, nodup_nil, by simp⟩

/-- What a call posts is forgotten when it returns. -/
theorem Goes.idle
    (h : Goes ⟨io, ledger, direction, observer, [], 0⟩ ⟨io', ledger', direction, observer, [], 0⟩
      given gone left) :
    (idle io ledger).Goes (idle io' ledger') given gone left :=
  ⟨h.kept.start _ _, h.identity, h.apart, h.later, h.regions, h.stays⟩

end

/-- A slot is taken and given back. -/
theorem Kept.untouched {r : Registry OperationState} (h : w.Kept)
    (hmoved : Registry.Moved token none none w.io.operations r) :
    w.Goes (w.on { w.io with operations := r } w.ledger w.reserved w.unposted) 0 0 [] := by
  obtain ⟨hfree, hunaccepted⟩ := h.unlisted hmoved.get?_before
  refine h.moved hmoved rfl (by simp) (by simp) h.books.capacity h.books.accepted ?_ ⟨rfl, rfl⟩
    (fun d => rfl) h.exact.bounded ?_ (fun _ _ => Iff.rfl) h.nodup ⟨rfl, rfl⟩
    (fun hmem => absurd hmem hfree) fun hmem => .inl hmem
  · constructor <;> rfl
  · intro t
    by_cases ht : t = token <;> simp [ht, hunaccepted]

section Settled

variable (h : w.Kept) (hop : w.io.operations.get? token = some op) (hfree : token ∉ w.reserved)
  (hidentity : op.identity = w.ledger.identity)

include h hop hfree hidentity

/-- A settled operation waits for its reclamation. -/
theorem Kept.schedule :
    w.Goes (w.on (w.io.scheduleReclamation token) w.ledger w.reserved w.unposted) 0 0 [] := by
  refine h.amend hop hfree hidentity (alike_markReclaiming op)
    (h.books.settled token op hop hfree).markReclaiming ?_ ⟨rfl, rfl⟩ rfl ?_
  · simp [IoState.scheduleReclamation, IoState.beginReclamation, Registry.modify, hop]
  · unfold OperationState.markReclaiming
    split <;> constructor <;> rfl

/-- A settled operation changes in what no counter is about. -/
theorem Kept.update (halike : op.Alike op') (hsettled : op'.Settled)
    (hpending : op'.reclamationPending = op.reclamationPending)
    (hquarantined : op'.quarantined = op.quarantined) :
    w.Goes (w.on { w.io with operations := w.io.operations.set token op' } w.ledger w.reserved
      w.unposted) 0 0 [] := by
  refine h.amend hop hfree hidentity halike hsettled rfl ⟨rfl, rfl⟩ rfl ?_
  constructor <;>
    simp [reclaims, quarantines, quarantinedLen, hpending, hquarantined, halike.mrLen]

/-- A reclamation of a settled operation is counted and scheduled. -/
theorem Kept.pend (halike : op.Alike op') (hsettled : op'.Settled)
    (hquarantined : op.quarantined = false ∧ op'.quarantined = false)
    (hpending : op.reclamationPending = false ∧ op'.reclamationPending = true) : w.Goes (w.on
      ({ w.io with operations := w.io.operations.set token op' }.addReclamation token) w.ledger
      w.reserved w.unposted) 0 0 [] := by
  have hamend : w.Goes (w.on
      { w.io with
        operations := w.io.operations.set token op'
        pendingReclamations := w.io.pendingReclamations + 1 } w.ledger w.reserved w.unposted)
      0 0 [] := by
    refine h.amend hop hfree hidentity halike hsettled rfl ⟨rfl, rfl⟩ rfl ?_
    constructor <;> simp [reclaims, quarantines, quarantinedLen, hquarantined, hpending,
      add_comm]
  have hset := (Registry.moved_set op' hop).get?_eq token
  rw [if_pos rfl] at hset
  exact hamend.trans (hamend.kept.schedule hset hfree (halike.identity.trans hidentity))

end Settled

/-! ### Scalar operations -/

/-- The first reserved operation is accepted, or may be. -/
theorem Kept.commit {accepted : Nat} (h : w.Kept) (hreserved : w.reserved = token :: rest)
    (hop : w.io.operations.get? token = some op) (hposted : accepted + n = w.io.cqCredits.used) :
    w.Goes (w.on
      { w.io with
        operations := w.io.operations.set token (op.commitAccepted cancelled).2
        acceptedOperations := accepted
        pendingReclamations :=
          w.io.pendingReclamations + (op.observerCancelled cancelled).toNat }
      (w.ledger.addAccepted token) rest n) 0 0 [] := by
  obtain ⟨hfresh, hidentity, -, -, hrest, hnodup⟩ := h.get?_reserved hreserved hop
  rw [commitAccepted_fresh hfresh]
  refine h.replace hop hidentity ?_ ?_ hrest hnodup (fun t ht => by simp [hreserved, ht]) rfl
    h.books.capacity hposted ?_
  · exact ⟨rfl, rfl, rfl, rfl, rfl⟩
  · cases op.observerCancelled cancelled <;>
      exact ⟨by simp, .inl hfresh.completion, by simp [hfresh.quarantine],
        by simp [hfresh.quarantine]⟩
  · constructor <;> simp [reclaims, quarantines, quarantinedLen, hfresh.reclamation,
      hfresh.quarantine, add_comm]

section Scalar

variable (h : w.Kept) (hreserved : w.reserved = [token]) (hunposted : w.unposted = 1)

include h hreserved hunposted

/-- The end of a scalar post leaves one settled operation. -/
theorem Kept.commitScalar : ∃ io' op', w.io.commitScalar w.ledger token cancelled =
        (none, io', w.ledger.addAccepted token) ∧
      w.Goes (w.on io' (w.ledger.addAccepted token) [] 0) 0 0 [] ∧
      io'.operations.get? token = some op' ∧ op'.quarantined = false := by
  obtain ⟨op, hop, hfresh, hidentity, -⟩ := h.fresh token (by simp [hreserved])
  have hposted := h.books.accepted
  have hgoes := h.commit cancelled hreserved hop (n := 0)
    (show w.io.acceptedOperations + 1 + 0 = _ by omega)
  have hset := (Registry.moved_set (op.commitAccepted cancelled).2 hop).get?_eq token
  rw [if_pos rfl] at hset
  have hcommit := commitAccepted_fresh hfresh cancelled
  unfold IoState.commitScalar
  simp only [hop]
  cases hc : op.observerCancelled cancelled with
  | false =>
    rw [hc] at hgoes hcommit
    refine ⟨_, _, ?_, hgoes, hset, ?_⟩
    · simp [hcommit]
    · simp [hcommit, hfresh.quarantine]
  | true =>
    rw [hc] at hgoes hcommit
    have hschedule := hgoes.kept.schedule hset (by simp) (by simp [hcommit, hidentity, addAccepted])
    refine ⟨_, (op.commitAccepted cancelled).2.markReclaiming, ?_, hgoes.trans hschedule, ?_, ?_⟩
    · simp [hcommit, IoState.addReclamation]
    · have hmark := (Registry.moved_set (op.commitAccepted cancelled).2.markReclaiming hset).get?_eq
        token
      rw [if_pos rfl] at hmark
      simpa [IoState.scheduleReclamation, IoState.beginReclamation, Registry.modify, hset]
        using hmark
    · simp [hcommit, OperationState.markReclaiming, hfresh.quarantine]

theorem Kept.finishAccepted : w.Starts 0 (w.io.finishAccepted w.ledger token cancelled) := by
  obtain ⟨_, _, hcommit, hgoes, -⟩ := h.commitScalar cancelled hreserved hunposted
  rw [IoState.finishAccepted, hcommit]
  exact hgoes

theorem Kept.finishAmbiguous : w.Starts 0 (w.io.finishAmbiguous w.ledger token cancelled) := by
  obtain ⟨_, op', hcommit, hgoes, hop', hq⟩ := h.commitScalar cancelled hreserved hunposted
  have hown : op'.identity = w.ledger.identity := by
    obtain ⟨⟨_, hop, hidentity⟩, -⟩ :=
      (hgoes.kept.exact.accepted token).mp (Finset.mem_insert_self ..)
    rw [hop'] at hop
    cases hop
    exact hidentity
  have hsettled := hgoes.kept.books.settled token op' hop' (by simp)
  have halike : op'.Alike op'.detachWithPostError.2 := ⟨rfl, rfl, rfl, rfl, rfl⟩
  have hdetached : op'.detachWithPostError.2.Settled :=
    ⟨by simp [detachWithPostError], hsettled.completion, by simp [detachWithPostError, hq],
      by simp [detachWithPostError, hq]⟩
  simp only [IoState.finishAmbiguous, hcommit, hop']
  cases hpending : op'.reclamationPending with
  | true =>
    rw [if_neg (by simp [detachWithPostError, hpending])]
    exact hgoes.trans (hgoes.kept.update hop' (by simp) hown halike hdetached hpending.symm rfl)
  | false =>
    rw [if_pos (by simp [detachWithPostError, hpending])]
    exact hgoes.trans (hgoes.kept.pend hop' (by simp) hown halike hdetached ⟨hq, hq⟩
      ⟨hpending, rfl⟩)

/-- A reserved operation is dropped before its post. -/
theorem Kept.discardUnposted (error : Error) :
    w.Starts 0 (.immediate (.error error, (w.io.discardUnposted token).1),
      { (w.io.discardUnposted token).2 with
        cqCredits := (w.io.discardUnposted token).2.cqCredits.release },
      w.ledger.releaseLocal w.direction, .empty) := by
  obtain ⟨_, hop, -⟩ := h.fresh token (by simp [hreserved])
  obtain ⟨r, hrelease⟩ := Registry.exists_release hop false
  simp only [IoState.discardUnposted, hrelease]
  exact (h.withdraw hreserved hunposted hrelease).congr (add_zero _)

theorem Kept.reconcileScalar (outcome : BatchPostOutcome) :
    w.Starts 0 (w.io.reconcileScalar w.ledger w.direction token outcome cancelled) := by
  obtain ⟨_, hop, hfresh, -⟩ := h.fresh token (by simp [hreserved])
  unfold IoState.reconcileScalar
  split
  · exact h.finishAccepted cancelled hreserved hunposted
  · rw [if_pos (by simp [hop, canReleaseUnaccepted_fresh hfresh])]
    exact h.discardUnposted hreserved hunposted _
  · exact h.finishAmbiguous cancelled hreserved hunposted
  · exact h.finishAmbiguous cancelled hreserved hunposted

end Scalar

theorem Kept.startOperation (h : (idle io ledger).Kept) (kind : OperationKind) (mr : Mr)
    (remote : Option RemoteMr) (range : Option (Nat × Nat)) (observer : ObserverId) (page : Bool)
    (answer : Except Error BatchPostOutcome) :
    (idle io ledger).Starts {mr} (io.startOperation ledger.identity ledger kind mr remote range
      observer page answer cancelled) := by
  have hrefused (error : Error) :
      (idle io ledger).Starts {mr} (.immediate (.error error, some mr), io, ledger, .empty) := by
    simpa [Starts, IoState.StartResult.regions] using (Goes.refl h).pass {mr}
  have hstart := h.start kind.direction (some observer)
  unfold IoState.startOperation
  split
  next error _ => exact hrefused error
  next opcode _ =>
  split
  next error _ => exact hrefused error
  next =>
  split
  next => exact hrefused _
  next reserved hlocal =>
  have hback := releaseLocal_reserveLocal hlocal
  split
  next => exact hback.symm ▸ hrefused _
  next token operations hallocate =>
  cases hcredits : io.cqCredits.reserve with
  | none =>
    obtain ⟨r, hrelease⟩ := Registry.exists_release (Registry.get?_allocate_self hallocate) false
    have huntouched := hstart.untouched
      ((Registry.moved_allocate hallocate).trans (Registry.moved_release hrelease))
    simp only [hcredits, IoState.discardUnposted, hrelease, hback]
    exact huntouched.idle.pass {mr}
  | some =>
    have hreserve := hstart.reserve hlocal hallocate hcredits ⟨rfl, rfl, rfl, rfl⟩ rfl rfl rfl rfl
    simp only [hcredits]
    cases answer with
    | error error =>
      exact (hreserve.andThen (hreserve.kept.discardUnposted rfl rfl error)).idle
    | ok outcome =>
      exact (hreserve.andThen (hreserve.kept.reconcileScalar cancelled rfl rfl outcome)).idle

/-! ### Batches -/

/-- The order in which operations were reserved does not matter. -/
theorem Kept.perm {tokens : List OperationToken} (h : w.Kept) (hperm : w.reserved.Perm tokens) :
    w.Goes (w.on w.io w.ledger tokens w.unposted) 0 0 [] := by
  have hmem (t : OperationToken) : t ∉ tokens ↔ t ∉ w.reserved := by rw [hperm.mem_iff]
  refine ⟨⟨{ h.books with settled := ?_ }, { h.exact with accepted := ?_ },
    hperm.nodup_iff.mp h.nodup, fun t ht => h.fresh t (hperm.mem_iff.mpr ht)⟩, rfl,
    fun _ _ => .refl _ _, .refl _, rfl, fun _ => .inl⟩
  · intro t op hop hfree
    exact h.books.settled t op hop ((hmem t).mp hfree)
  · intro t
    rw [hmem]
    exact h.exact.accepted t

/-- Everything reserved is counted as accepted. -/
theorem Kept.posted (h : w.Kept) :
    w.Goes (w.on { w.io with acceptedOperations := w.io.acceptedOperations + w.unposted } w.ledger
      w.reserved 0) 0 0 [] :=
  ⟨⟨{ h.books with accepted := h.books.accepted }, h.exact, h.nodup, h.fresh⟩, rfl,
    fun _ _ => .refl _ _, .refl _, rfl, fun _ => .inl⟩

theorem Kept.commitTokens (tokens : List OperationToken) {w : Work} (h : w.Kept)
    (hreserved : w.reserved = tokens) (hunposted : w.unposted = 0) (hobserver : w.observer = none) :
    ∃ io' ledger', w.io.commitTokens w.ledger cancelled tokens = ([], io', ledger') ∧
      w.Goes (w.on io' ledger' [] 0) 0 0 [] := by
  induction tokens generalizing w with
  | nil =>
    have hself : w.on w.io w.ledger [] 0 = w := by rw [← hreserved, ← hunposted]
    exact ⟨w.io, w.ledger, rfl, hself.symm ▸ Goes.refl h⟩
  | cons token _ ih =>
    obtain ⟨op, hop, hfresh, hidentity, -, hobserver'⟩ := h.fresh token (by simp [hreserved])
    have hposted := h.books.accepted
    have hlive : op.observerCancelled cancelled = false := by
      simp [observerCancelled, hobserver', hobserver]
    have hcommit := h.commit cancelled hreserved hop (n := 0)
      (show w.io.acceptedOperations + 0 = _ by omega)
    rw [hlive] at hcommit
    obtain ⟨io', ledger', heq, hgoes⟩ := ih hcommit.kept rfl rfl hobserver
    refine ⟨io', ledger', ?_, hcommit.trans hgoes⟩
    simp only [Bool.toNat_false, add_zero, commitAccepted_fresh hfresh, hlive] at heq
    simp only [IoState.commitTokens, hop, addOperationAccepted,
      hidentity.symm, if_true, commitAccepted_fresh hfresh, hlive, heq]
    rfl

theorem Kept.releaseUnaccepted (error : Error) (tokens : List OperationToken) {w : Work}
    (h : w.Kept) (hreserved : w.reserved = tokens ++ more)
    (hunposted : w.unposted = tokens.length + n) :
    w.Returns 0 (w.io.releaseUnaccepted w.ledger w.direction error tokens) more n := by
  induction tokens generalizing w with
  | nil =>
    have hself : w.on w.io w.ledger more n = w := by
      rw [nil_append] at hreserved
      rw [length_nil, zero_add] at hunposted
      rw [← hreserved, ← hunposted]
    exact (hself.symm ▸ Goes.refl h : w.Goes (w.on w.io w.ledger more n) 0 0 [])
  | cons token rest ih =>
    obtain ⟨op, hop, -⟩ := h.fresh token (by simp [hreserved])
    obtain ⟨r, hrelease⟩ := Registry.exists_release hop false
    have hwithdraw := h.withdraw (n := rest.length + n) hreserved
      (by rw [hunposted, length_cons]; omega) hrelease
    have hrest := ih hwithdraw.kept rfl rfl
    simp only [IoState.releaseUnaccepted, hrelease]
    refine (hwithdraw.trans hrest).congr ?_
    rw [← regions_releasedEffects op error, ← regions_extend]

section Batch

variable {kind : OperationKind} {tokens : List OperationToken}
  (h : (batch kind io ledger tokens).Kept)

include h

theorem Kept.commitInternalEntries :
    (batch kind io ledger tokens).Returns 0 (io.commitInternalEntries ledger cancelled tokens)
      [] 0 := by
  obtain ⟨_, _, heq, hgoes⟩ := h.posted.kept.commitTokens cancelled tokens rfl rfl rfl
  simp only [IoState.commitInternalEntries, heq, IoState.finishEarlyCompletions]
  exact h.posted.trans hgoes

/-- What is reserved can be released, since its post has not returned. -/
theorem Kept.releaseProvenUnaccepted (error : Error) {released : List OperationToken}
    (hperm : tokens.Perm (released ++ more)) :
    ∃ out, io.releaseProvenUnaccepted ledger kind.direction released error = some out ∧
      (batch kind io ledger tokens).Returns 0 out more more.length := by
  have hturned := h.perm hperm
  refine ⟨_, if_pos ?_, hturned.trans (hturned.kept.releaseUnaccepted error released rfl ?_)⟩
  · rw [all_eq_true]
    intro token htoken
    obtain ⟨op, hop, hfresh, -⟩ := hturned.kept.fresh token (by simp [htoken])
    have hop' : io.operations.get? token = some op := hop
    simp [hop', canReleaseUnaccepted_fresh hfresh]
  · rw [← length_append]
    exact hperm.length_eq

theorem Kept.rollbackInternalEntries (error : Error) : (batch kind io ledger tokens).Returns 0
      (io.rollbackInternalEntries ledger kind.direction cancelled tokens error) [] 0 := by
  obtain ⟨_, heq, hreturns⟩ :=
    h.releaseProvenUnaccepted error (by rw [append_nil] : tokens.Perm (tokens ++ []))
  rw [IoState.rollbackInternalEntries, heq]
  exact hreturns

/-- A batch that fails before its post returns the regions of its entries. -/
theorem Kept.failBatch (error : Error) (own : IoCoreEffects) (rest : List IoState.BatchEntry) :
    (batch kind io ledger tokens).Returns (own.regions + batchRegions rest)
      (io.failBatch ledger kind.direction cancelled tokens error own rest).2 [] 0 := by
  have hrollback := h.rollbackInternalEntries cancelled error
  simpa [Returns, IoState.failBatch] using hrollback.pass (own.regions + batchRegions rest)

/-- Whatever the provider answers, each reserved operation is settled or released. -/
theorem Kept.reconcileBatch (outcome : BatchPostOutcome) : (batch kind io ledger tokens).Returns 0
      (io.reconcileBatch ledger kind.direction cancelled tokens outcome).2 [] 0 := by
  have hcommit := h.commitInternalEntries cancelled
  unfold IoState.reconcileBatch
  cases outcome with
  | allAccepted | ambiguous => exact hcommit
  | prefixAccepted accepted =>
    simp only
    split
    next hexact =>
      -- the suffix is released first, and then the prefix is committed
      have hperm : (tokens.take accepted ++ tokens.drop accepted).Perm
          (tokens.drop accepted ++ tokens.take accepted) := perm_append_comm
      rw [take_append_drop] at hperm
      obtain ⟨⟨io', ledger', _⟩, heq, hreturns⟩ :=
        h.releaseProvenUnaccepted .postFailed hperm
      have hprefix : (batch kind io' ledger' (tokens.take accepted)).Returns 0 _ [] 0 :=
        Kept.commitInternalEntries cancelled hreturns.kept
      simp only [heq]
      exact (hreturns.trans hprefix).congr (regions_extend ..)
    next => exact hcommit

end Batch

/-- A batch is reserved as a whole, or nothing of it stays reserved. -/
theorem Kept.reserveBatch {kind : OperationKind} {identity : EstablishedIoIdentity}
    (entries : List IoState.BatchEntry) {io : IoState} {ledger : ConnectionIoState}
    {reserved : List OperationToken} (h : (batch kind io ledger reserved).Kept)
    (hidentity : ledger.identity = identity) :
    (∃ error out, io.reserveBatch identity ledger kind cancelled entries reserved =
        (.error error, out) ∧
      (batch kind io ledger reserved).Returns (batchRegions entries) out [] 0) ∨
    ∃ tokens io' ledger', io.reserveBatch identity ledger kind cancelled entries reserved =
        (.ok tokens, io', ledger', .empty) ∧
      (batch kind io ledger reserved).Goes (batch kind io' ledger' tokens) (batchRegions entries)
        0 [] := by
  induction entries generalizing io ledger reserved with
  | nil => exact .inr ⟨reserved, io, ledger, rfl, Goes.refl h⟩
  | cons entry rest ih =>
    have hfail (error : Error) :
        (batch kind io ledger reserved).Returns (batchRegions (entry :: rest))
          (io.failBatch ledger kind.direction cancelled reserved error
            (.ofEvents [entry.unaccepted error]) rest).2 [] 0 :=
      h.failBatch cancelled error (.ofEvents [entry.unaccepted error]) rest
    unfold IoState.reserveBatch
    cases validateOperation kind entry.mr none entry.range with
    | error error => exact .inl ⟨_, _, rfl, hfail error⟩
    | ok =>
    cases hlocal : ledger.reserveLocal kind.direction with
    | none => exact .inl ⟨_, _, rfl, hfail _⟩
    | some local_ =>
    have hback := releaseLocal_reserveLocal hlocal
    simp only [hback]
    split
    next refused _ => exact .inl ⟨_, _, rfl, hfail _⟩
    next token operations hallocate =>
    cases hcredits : io.cqCredits.reserve with
    | none =>
      obtain ⟨r, hrelease⟩ := Registry.exists_release (Registry.get?_allocate_self hallocate) false
      have huntouched := h.untouched
        ((Registry.moved_allocate hallocate).trans (Registry.moved_release hrelease))
      simp only [hrelease]
      exact .inl ⟨_, _, rfl, huntouched.trans
        (Kept.failBatch cancelled huntouched.kept .capacityExhausted _ rest)⟩
    | some credits =>
      have hreserve : (batch kind io ledger reserved).Goes
          (batch kind { io with operations := operations, cqCredits := credits } local_
            (reserved ++ [token])) {entry.mr} 0 [] := by
        have hlength : (reserved ++ [token]).length = reserved.length + 1 := length_append ..
        simp only [batch, hlength]
        exact h.reserve hlocal hallocate hcredits ⟨rfl, rfl, rfl, rfl⟩ rfl hidentity.symm rfl rfl
      rcases ih hreserve.kept ((reserveLocal_eq_some hlocal).1.trans hidentity)
        with ⟨error, out, heq, hreturns⟩ | ⟨tokens, io', ledger', heq, hgoes⟩
      · exact .inl ⟨error, out, heq, (hreserve.trans hreturns).congr (zero_add _).symm⟩
      · exact .inr ⟨tokens, io', ledger', heq, hreserve.trans hgoes⟩

theorem Kept.postIoBatch (h : (idle io ledger).Kept) (kind : OperationKind)
    (entries : List IoState.BatchEntry) (answer : Except Error BatchPostOutcome) :
    (idle io ledger).Returns (batchRegions entries)
      (io.postIoBatch ledger.identity ledger kind entries answer cancelled).2 [] 0 := by
  have hrefused (error : Error) : (idle io ledger).Returns (batchRegions entries)
        (io, ledger, .ofEvents (entries.map (IoState.BatchEntry.unaccepted error))) [] 0 := by
    simpa [Returns] using (Goes.refl h).pass (batchRegions entries)
  have hstart : (batch kind io ledger []).Kept := h.start kind.direction none
  unfold IoState.postIoBatch
  simp only
  split
  next hempty =>
    rw [isEmpty_iff.mp hempty]
    exact Goes.refl h
  next =>
  split
  next error _ => exact hrefused error
  next =>
  split
  next => exact hrefused _
  next =>
  rcases hstart.reserveBatch cancelled entries rfl with
    ⟨error, out, heq, hreturns⟩ | ⟨tokens, io', ledger', heq, hgoes⟩
  · simp only [heq]
    exact Goes.idle hreturns
  · simp only [heq]
    cases answer with
    | error error =>
      exact (hgoes.andThen (Kept.rollbackInternalEntries cancelled hgoes.kept error)).idle
    | ok outcome =>
      exact (hgoes.andThen (Kept.reconcileBatch cancelled hgoes.kept outcome)).idle

/-! ### Completions -/

section Idle

variable (h : (idle io ledger).Kept)

include h

theorem Kept.rejectCqe (reason : CqeReject) :
    (idle io ledger).Goes (idle (io.rejectCqe reason) ledger) 0 0 left :=
  ⟨⟨{ h.books with }, h.exact, h.nodup, h.fresh⟩, rfl, fun _ _ => .refl _ _, .refl _, rfl,
    fun _ => .inl⟩

/-- The queue of completions is replaced. -/
theorem Kept.requeue {queue : List WorkCompletion}
    (hqueue : ∀ c ∈ queue, Routed io.operations ledger.identity c) :
    (idle io ledger).Goes (idle io { ledger with completions := queue }) 0 0 [] :=
  ⟨⟨h.books, ⟨h.exact.credits, h.exact.bounded, h.exact.accepted, hqueue⟩, h.nodup, h.fresh⟩, rfl,
    fun _ _ => .refl _ _, .refl _, rfl, fun _ => .inl⟩

/-- The hand-off of a completion is claimed, or refused. -/
theorem Kept.queueCompletion {pending : PendingCompletion}
    (hop : io.operations.get? pending.token = some op) (hidentity : op.identity = ledger.identity)
    (hqp : pending.completion.qpNum = ledger.identity.qpNum)
    (htoken : pending.token = decode pending.completion.wrId) :
    (idle io ledger).Goes (idle (io.queueCompletion pending ledger).2.1
      (io.queueCompletion pending ledger).2.2) 0 0 [] := by
  have hsettled := h.books.settled _ op hop (by simp)
  unfold IoState.queueCompletion
  rw [hop, Option.bind_some]
  cases hmark : op.markCompletionQueued with
  | none => exact h.rejectCqe _
  | some queued =>
    have hqueued : queued = { op with completion := .queued } := by
      unfold markCompletionQueued at hmark
      split at hmark <;> cases hmark
      rfl
    subst hqueued
    have halike : op.Alike { op with completion := .queued } := ⟨rfl, rfl, rfl, rfl, rfl⟩
    have hupdate := h.update hop (by simp) hidentity halike
      ⟨hsettled.lifecycle, .inr rfl, hsettled.quarantine, hsettled.reclamation⟩ rfl rfl
    have hmoved := Registry.moved_set { op with completion := .queued } hop
    refine hupdate.trans (Kept.requeue hupdate.kept ?_)
    rw [forall_mem_append, forall_mem_singleton]
    refine ⟨hupdate.kept.exact.queue, hqp, ?_, fun other howns => ?_⟩
    · rw [← htoken]
      exact hmoved.issued _ (Registry.issued_of_get? hop)
    · rw [← htoken, owns_moved hmoved, if_pos rfl] at howns
      obtain ⟨_, ⟨⟩, hother⟩ := howns
      exact hother.symm.trans hidentity

theorem Kept.enqueuePreparedCompletion {completion : WorkCompletion}
    {pending : PendingCompletion} (hprepare : io.prepareCompletion completion = (some pending, io'))
    (live : Option LiveIoConnectionProof) (connection : EstablishedIoIdentity) :
    (idle io ledger).Goes
      (idle (io.enqueuePreparedCompletion pending live connection ledger).2.1
        (io.enqueuePreparedCompletion pending live connection ledger).2.2) 0 0 [] := by
  obtain ⟨-, hcompletion, htoken, _, hop, hidentity⟩ := IoState.prepareCompletion_eq_some hprepare
  rw [← hcompletion] at htoken
  unfold IoState.enqueuePreparedCompletion
  simp only
  split
  next => exact h.rejectCqe _
  next hqp =>
  split
  next => exact h.rejectCqe _
  next hmatch =>
  rw [not_or, not_or, not_not, not_not, not_not] at hmatch
  rw [not_not, ← hmatch.2.2] at hqp
  have hqueue := h.queueCompletion hop (hidentity.symm.trans hmatch.2.2.symm) hqp htoken
  split
  next =>
    rw [Registry.lookup_eq_occupied.mpr hop]
    simp only
    split
    next => exact h.rejectCqe _
    next => exact hqueue
  next => exact hqueue

/-- A recorded completion finishes its operation. -/
theorem Kept.finishOperation {recorded : OperationState}
    (hop : io.operations.get? token = some op) (hidentity : op.identity = ledger.identity)
    (halike : op.Alike recorded) (hpending : recorded.reclamationPending = op.reclamationPending)
    (hquarantined : recorded.quarantined = op.quarantined) (completion : WorkCompletion) :
    ∃ io' ledger' effects,
      { io with operations := io.operations.set token recorded }.finishOperation ledger token
        completion cancelled = (io', ledger', effects) ∧
      (idle io ledger).Goes (idle io' ledger') 0 effects.regions [token] ∧
      ledger'.completions = ledger.completions := by
  have hset := Registry.moved_set recorded hop
  have hget := hset.get?_eq token
  rw [if_pos rfl] at hget
  obtain ⟨r, hrelease⟩ := Registry.exists_release hget true
  have hfinishes := finishes_finishCompletion recorded completion cancelled
  have hgoes := h.finish rfl rfl (hset.trans (Registry.moved_release hrelease)) hidentity
    (hfinishes.reclaiming.trans hpending) (hfinishes.quarantined.trans hquarantined)
  have htoken : recorded.token = token := halike.token.trans (h.books.token token op hop)
  have hledger : recorded.identity = ledger.identity := halike.identity.trans hidentity
  have hregion : recorded.region = op.region := by simp [region, halike.mr]
  unfold IoState.finishOperation IoState.finishOperationWithDrained
  simp only [hrelease, removeOperationAccepted, hledger, ne_eq, not_true_eq_false, if_false,
    removeAccepted, htoken, releaseOperationLocal, halike.mrLen, halike.direction]
  refine ⟨_, _, _, rfl, hgoes.congr ((hfinishes.regions ledger []).trans hregion), ?_⟩
  cases op.direction <;> rfl

theorem Kept.dispatchQueuedCompletion {completion : WorkCompletion}
    (hrouted : Routed io.operations ledger.identity completion) : ∃ io' ledger' effects,
      io.dispatchQueuedCompletion ledger completion cancelled = (io', ledger', effects) ∧
      (idle io ledger).Goes (idle io' ledger') 0 effects.regions [decode completion.wrId] ∧
      ledger'.completions = ledger.completions := by
  unfold IoState.dispatchQueuedCompletion
  simp only
  split
  next op hlookup =>
    have hop := Registry.lookup_eq_occupied.mp hlookup
    have hlifecycle := (h.books.settled _ op hop (by simp)).lifecycle
    by_cases hqueued : op.completion = .queued
    · have hrecord : op.recordCompletion completion =
          (.complete, { op with completion := .none, lifecycle := .completing }) := by
        unfold recordCompletion
        rw [if_neg (by simp [hqueued])]
        cases hl : op.lifecycle <;> simp [hl] at hlifecycle ⊢
      simp only [hrecord]
      refine h.finishOperation cancelled hop (hrouted.owner _ ⟨op, hop, rfl⟩) ?_ ?_ ?_ completion
      · exact ⟨rfl, rfl, rfl, rfl, rfl⟩
      · rfl
      · rfl
    · have hrecord : op.recordCompletion completion = (.duplicate, op) := by
        simp [recordCompletion, hqueued]
      simp only [hrecord, Registry.set_self hop]
      exact ⟨_, _, _, rfl, h.rejectCqe _, rfl⟩
  next => exact ⟨_, _, _, rfl, h.rejectCqe _, rfl⟩

end Idle

/-- Only operations whose completions were queued are over. -/
theorem Kept.dispatchConnectionCompletions (quantum : Nat) {io : IoState}
    {ledger : ConnectionIoState} (h : (idle io ledger).Kept) : ∃ io' ledger' effects,
      io.dispatchConnectionCompletions ledger cancelled quantum = (io', ledger', effects) ∧
      (idle io ledger).Goes (idle io' ledger') 0 effects.regions
        ((ledger.completions.take quantum).map fun c => decode c.wrId) := by
  induction quantum generalizing io ledger with
  | zero => exact ⟨_, _, _, rfl, Goes.refl h⟩
  | succ _ ih =>
    unfold IoState.dispatchConnectionCompletions
    cases hqueue : ledger.completions with
    | nil => exact ⟨_, _, _, rfl, Goes.refl h⟩
    | cons =>
      have hrouted : ∀ c ∈ ledger.completions, _ := h.exact.queue
      rw [hqueue, forall_mem_cons] at hrouted
      have hdequeue := h.requeue hrouted.2
      obtain ⟨_, _, _, heq, hgoes, hrest⟩ :=
        hdequeue.kept.dispatchQueuedCompletion cancelled hrouted.1
      obtain ⟨_, _, _, heq', hgoes'⟩ := ih hgoes.kept
      simp only [heq, heq']
      refine ⟨_, _, _, rfl, ?_⟩
      simpa [hrest] using (hdequeue.trans hgoes).trans hgoes'

/-! ### Operations that change in place -/

section InPlace

variable (h : (idle io ledger).Kept) (hop : io.operations.get? token = some op)
  (hidentity : op.identity = ledger.identity)

include h hop hidentity

theorem Kept.cancelOperation :
    (idle io ledger).Goes (idle (io.cancelOperation token) ledger) 0 0 [] := by
  have hsettled := h.books.settled token op hop (by simp)
  have hlifecycle := hsettled.lifecycle
  simp only [IoState.cancelOperation, hop]
  cases hl : op.lifecycle <;> simp only [hl, cancelBackend, ne_eq, not_true_eq_false, false_and,
    and_false] at hlifecycle ⊢
  case inFlight =>
    have hq := hsettled.not_quarantined (by simp [hl])
    refine h.pend hop (by simp) hidentity ?_ ?_ ⟨hq, hq⟩ ⟨hsettled.reclamation (.inr hl), rfl⟩
    · exact ⟨rfl, rfl, rfl, rfl, rfl⟩
    · exact ⟨by simp, hsettled.completion, by simp [hq], by simp [hq]⟩
  all_goals
    rw [Registry.set_self hop]
    exact Goes.refl h

/-- A settled operation is quarantined: it is counted as such and no longer as pending. -/
theorem Kept.quarantine (halike : op.Alike op') (hsettled : op'.Settled)
    (hnew : op.quarantined = false ∧ op'.quarantined = true) : (idle io ledger).Goes (idle
      ((if op.reclamationPending then
          { io with
            operations := io.operations.set token op'
            pendingReclamations := io.pendingReclamations - 1 }
        else { io with operations := io.operations.set token op' }).addQuarantined op.mrLen)
      ledger) 0 0 [] := by
  have hpending := hsettled.reclamation (.inl hnew.2)
  have hle : reclaims op ≤ io.pendingReclamations :=
    h.books.pending ▸ Registry.le_total hop reclaims
  refine h.amend hop (by simp) hidentity halike hsettled ?_ ?_ ?_ ?_
  · cases op.reclamationPending <;> rfl
  · cases op.reclamationPending <;> exact ⟨rfl, rfl⟩
  · cases op.reclamationPending <;> rfl
  · cases hr : op.reclamationPending <;> simp only [reclaims, hr] at hle <;> constructor <;>
      simp [reclaims, quarantines, quarantinedLen, hr, hnew, hpending, halike.mrLen,
        IoState.addQuarantined, CqCreditPool.retain, add_comm]
    exact Nat.add_sub_of_le hle

theorem Kept.quarantineOperation :
    (idle io ledger).Goes (idle (io.quarantineOperation token).1 ledger) 0
      (io.quarantineOperation token).2.regions [] := by
  have hsettled := h.books.settled token op hop (by simp)
  by_cases hl : op.lifecycle = .quarantined
  · have hmark : op.markQuarantined = (⟨false, false⟩, op) := by simp [markQuarantined, hl]
    simp only [IoState.quarantineOperation, hop, hmark, Registry.set_self hop]
    exact Goes.refl h
  · have hq := hsettled.not_quarantined hl
    have hmark : op.markQuarantined = (⟨true, op.reclamationPending⟩,
        { op with
          lifecycle := .quarantined, reclamationPending := false, quarantined := true }) := by
      have hlifecycle := hsettled.lifecycle
      cases hl' : op.lifecycle <;> simp [markQuarantined, hl', hq] at hl hlifecycle ⊢
    simp only [IoState.quarantineOperation, hop, hmark]
    refine h.quarantine hop hidentity ?_ ?_ ⟨hq, rfl⟩
    · exact ⟨rfl, rfl, rfl, rfl, rfl⟩
    · exact ⟨by simp, hsettled.completion, by simp, by simp⟩

/-- A settled operation loses its observer. -/
theorem Kept.detach :
    (idle io ledger).Goes (idle { io with
      operations := io.operations.set token { op with observer := none } } ledger) 0 0 [] := by
  have hsettled := h.books.settled token op hop (by simp)
  exact h.update hop (by simp) hidentity ⟨rfl, rfl, rfl, rfl, rfl⟩
    ⟨hsettled.lifecycle, hsettled.completion, hsettled.quarantine, hsettled.reclamation⟩ rfl rfl

theorem Kept.failObserver (connection : ConnectionToken) (error : Error) :
    (idle io ledger).Goes (idle (IoState.failObserver connection error io token).1 ledger) 0
      (IoState.failObserver connection error io token).2.regions [] := by
  have hfail : op.failObserverForClose = (op.observer, { op with observer := none }) := by
    have hlifecycle := (h.books.settled token op hop (by simp)).lifecycle
    cases hl : op.lifecycle <;> simp [failObserverForClose, hl] at hlifecycle ⊢
  simp only [IoState.failObserver, hop]
  split
  next => exact Goes.refl h
  next =>
    simp only [hfail]
    refine (h.detach hop hidentity).congr ?_
    cases op.observer <;> rfl

theorem Kept.terminalizeOperation (outcome : Error) :
    (idle io ledger).Goes (idle (IoState.terminalizeOperation outcome cancelled io token).1 ledger)
      0 (IoState.terminalizeOperation outcome cancelled io token).2.regions [] := by
  have hsettled := h.books.settled token op hop (by simp)
  have hregions (observer : Option ObserverId) (quarantine : List OperationQuarantineEffect) :
      regions { empty with
        operations := observer.toList
        observed := (observer.map fun observer => (observer, .error outcome, none)).toList
        quarantine := quarantine } = 0 := by
    cases observer <;> rfl
  simp only [IoState.terminalizeOperation, hop]
  by_cases hl : op.lifecycle = .quarantined
  · have hq := hsettled.quarantine.mpr hl
    have hmark : op.finalizeTerminal cancelled = (⟨false, false,
        op.observer.filter fun observer => !cancelled observer⟩, { op with observer := none }) := by
      simp [finalizeTerminal, hl, hq, hsettled.reclamation (.inl hq)]
    simp only [hmark, Bool.false_eq_true, if_false]
    exact (h.detach hop hidentity).congr (hregions _ [])
  · have hq := hsettled.not_quarantined hl
    have hmark : op.finalizeTerminal cancelled = (⟨op.reclamationPending, true,
        op.observer.filter fun observer => !cancelled observer⟩,
        { op with
          lifecycle := .quarantined, quarantined := true, reclamationPending := false,
          observer := none }) := by
      have hlifecycle := hsettled.lifecycle
      cases hl' : op.lifecycle <;> simp [finalizeTerminal, hl', hq] at hl hlifecycle ⊢
    simp only [hmark, if_true]
    refine (h.quarantine hop hidentity ?_ ?_ ⟨hq, rfl⟩).congr (hregions _ _)
    · exact ⟨rfl, rfl, rfl, rfl, rfl⟩
    · exact ⟨by simp, hsettled.completion, by simp, by simp⟩

end InPlace

theorem Kept.reclaimAfterQpDestroy (h : (idle io ledger).Kept) (proof : LiveIoConnectionProof)
    (closeError : Error) (token : OperationToken) : (idle io ledger).Goes
      (idle (io.reclaimAfterQpDestroy proof ledger.identity ledger closeError token cancelled).2.1
        (io.reclaimAfterQpDestroy proof ledger.identity ledger closeError token cancelled).2.2.1) 0
      (io.reclaimAfterQpDestroy proof ledger.identity ledger closeError token
        cancelled).2.2.2.regions [token] := by
  have hrefused : (idle io ledger).Goes (idle io ledger) 0 0 [token] :=
    { Goes.refl h with stays := fun _ => .inl }
  unfold IoState.reclaimAfterQpDestroy
  split
  next => exact hrefused
  next =>
  split
  next => exact hrefused
  next op hop =>
  split
  next => exact hrefused
  next =>
  simp only [removeAccepted]
  by_cases hmem : token ∈ ledger.accepted
  · obtain ⟨r, hrelease⟩ := Registry.exists_release hop false
    obtain ⟨⟨op', hop', hidentity⟩, -⟩ := (h.exact.accepted token).mp hmem
    rw [show io.operations.get? token = some op' from hop'] at hop
    cases hop
    have hfinishes := finishes_finishAfterQpDestroy op closeError cancelled
    have hgoes := h.finish rfl rfl (Registry.moved_release hrelease) hidentity hfinishes.reclaiming
      hfinishes.quarantined
    simp only [hmem, decide_true, Bool.not_true, Bool.false_eq_true, if_false, hrelease]
    exact hgoes.congr (hfinishes.regions ledger [])
  · simp only [hmem, decide_false, Bool.not_false, if_true]
    exact hrefused

end Work

end RdmaIo.Engine
