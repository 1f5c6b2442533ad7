/-
The books of the I/O core.

The counters of the core are sums over the registered operations, and the ledger of a
connection lists those that are its own.  Between two calls every registered operation is with
the provider or may be; while a call submits, the operations it has reserved are registered
but not yet accepted.  Every change of the registry is a move of one token.
-/
import RdmaIo.Engine.Submit
import RdmaIo.Lib.SlotHistory

namespace RdmaIo.Engine

open ConnectionIoState
open SlotRegistry

/-! ### One operation -/

namespace OperationState

/-- The operation is registered for a post that has not returned. -/
structure Fresh (op : OperationState) : Prop where
  lifecycle : op.lifecycle = .posting
  completion : op.completion = .none
  reclamation : op.reclamationPending = false
  quarantine : op.quarantined = false

/-- The operation is with the provider, or may be. -/
structure Settled (op : OperationState) : Prop where
  lifecycle : op.lifecycle ≠ .posting ∧ op.lifecycle ≠ .completing ∧ op.lifecycle ≠ .released
  completion : op.completion = .none ∨ op.completion = .queued
  quarantine : op.quarantined = true ↔ op.lifecycle = .quarantined
  reclamation : op.quarantined = true ∨ op.lifecycle = .inFlight → op.reclamationPending = false

/-- What a transition of an operation leaves as it is. -/
structure Alike (op op' : OperationState) : Prop where
  token : op'.token = op.token
  identity : op'.identity = op.identity
  direction : op'.direction = op.direction
  mr : op'.mr = op.mr
  mrLen : op'.mrLen = op.mrLen

variable (op : OperationState)

def reclaims : Nat := op.reclamationPending.toNat

def quarantines : Nat := op.quarantined.toNat

def quarantinedLen : Nat := if op.quarantined then op.mrLen else 0

/-- One credit of a connection and direction. -/
def credit (identity : EstablishedIoIdentity) (direction : Direction) (op : OperationState) :
    Nat :=
  if op.identity = identity ∧ op.direction = direction then 1 else 0

def region : Multiset Mr := op.mr.toList

end OperationState

open OperationState

/-! ### The registry as one connection sees it -/

section Registry

variable {r r' : Registry OperationState} {token : OperationToken}
  {identity : EstablishedIoIdentity} {before after : Option OperationState}

/-- The token is that of an operation of the connection. -/
def Owns (r : Registry OperationState) (identity : EstablishedIoIdentity)
    (token : OperationToken) : Prop :=
  ∃ op, r.get? token = some op ∧ op.identity = identity

/-- The registry has gone on: tokens that were handed out do not change their owner. -/
def Later (r r' : Registry OperationState) : Prop :=
  ∀ token, r.table.Issued token →
    r'.table.Issued token ∧ ∀ identity, Owns r' identity token → Owns r identity token

/-- A connection has the same operations in both registries. -/
structure Apart (identity : EstablishedIoIdentity) (r r' : Registry OperationState) : Prop where
  credits : ∀ d, r'.total (credit identity d) = r.total (credit identity d)
  owns : ∀ token, Owns r' identity token ↔ Owns r identity token

theorem Later.refl (r : Registry OperationState) : Later r r :=
  fun _ hissued => ⟨hissued, fun _ => id⟩

theorem Later.trans {r'' : Registry OperationState} (h : Later r r') (h' : Later r' r'') :
    Later r r'' := by
  intro token hissued
  obtain ⟨hissued', howns⟩ := h token hissued
  obtain ⟨hissued'', howns'⟩ := h' token hissued'
  exact ⟨hissued'', fun identity => howns identity ∘ howns' identity⟩

theorem Apart.refl (identity : EstablishedIoIdentity) (r : Registry OperationState) :
    Apart identity r r :=
  ⟨fun _ => rfl, fun _ => Iff.rfl⟩

theorem Apart.trans {r'' : Registry OperationState} (h : Apart identity r r')
    (h' : Apart identity r' r'') : Apart identity r r'' :=
  ⟨fun d => (h'.credits d).trans (h.credits d), fun t => (h'.owns t).trans (h.owns t)⟩

theorem owns_moved (h : Registry.Moved token before after r r') (identity : EstablishedIoIdentity)
    (other : OperationToken) : Owns r' identity other ↔
      if other = token then ∃ op, after = some op ∧ op.identity = identity
      else Owns r identity other := by
  unfold Owns
  rw [h.get?_eq]
  by_cases hother : other = token <;> simp [hother]

/-- The operation at the token stays the same connection's. -/
theorem later_moved (h : Registry.Moved token before after r r')
    (hsame : ∀ op op', before = some op → after = some op' → op'.identity = op.identity) :
    Later r r' := by
  refine fun other hissued => ⟨h.issued other hissued, fun identity howns => ?_⟩
  rw [owns_moved h] at howns
  split at howns
  next heq =>
    subst heq
    obtain ⟨op', hafter, rfl⟩ := howns
    cases hbefore : before with
    | none => exact absurd hissued (h.new hbefore)
    | some op => exact ⟨op, h.get?_before.trans hbefore, (hsame op op' hbefore hafter).symm⟩
  next => exact howns

/-- A connection sees nothing of the operations of others. -/
theorem apart_moved (h : Registry.Moved token before after r r')
    (hother : ∀ op, before = some op ∨ after = some op → op.identity ≠ identity) :
    Apart identity r r' := by
  have hnone (o : Option OperationState) (ho : ∀ op, o = some op → op.identity ≠ identity) :
      (∀ d, o.elim 0 (credit identity d) = 0) ∧ ¬∃ op, o = some op ∧ op.identity = identity := by
    cases o with
    | none => simp
    | some op => simp [credit, ho op rfl]
  obtain ⟨hbefore, hbefore'⟩ := hnone before fun op hop => hother op (.inl hop)
  obtain ⟨hafter, hafter'⟩ := hnone after fun op hop => hother op (.inr hop)
  refine ⟨fun d => ?_, fun other => ?_⟩
  · have htotal := h.total_eq (credit identity d)
    rwa [hbefore, hafter, zero_add, zero_add] at htotal
  · rw [owns_moved h]
    split
    next heq =>
      rw [heq, Owns, h.get?_before]
      exact iff_of_false hafter' hbefore'
    next => rfl

end Registry

/-! ### The books -/

/-- The regions that the registered operations hold. -/
def IoState.held (io : IoState) : Multiset Mr := io.operations.total region

/-- The counters are sums over the registered operations, of which those reserved by the
current call are not settled and `unposted` are not counted as accepted. -/
structure IoState.Books (io : IoState) (reserved : List OperationToken) (unposted : Nat) :
    Prop where
  settled : ∀ token op, io.operations.get? token = some op → token ∉ reserved → op.Settled
  token : ∀ token op, io.operations.get? token = some op → op.token = token
  credits : io.cqCredits.used = io.operations.total fun _ => 1
  capacity : io.cqCredits.used ≤ io.cqCredits.capacity
  accepted : io.acceptedOperations + unposted = io.cqCredits.used
  pending : io.pendingReclamations = io.operations.total reclaims
  quarantined : io.quarantinedOperations = io.operations.total quarantines
  mrs : io.quarantinedMrs = io.operations.total quarantines
  retained : io.cqCredits.retained = io.operations.total quarantines
  bytes : io.quarantinedBytes = io.operations.total quarantinedLen

/-- A completion is one of the queue pair, and its token is no other connection's. -/
structure Routed (r : Registry OperationState) (identity : EstablishedIoIdentity)
    (completion : WorkCompletion) : Prop where
  qpNum : completion.qpNum = identity.qpNum
  issued : r.table.Issued (decode completion.wrId)
  owner : ∀ other, Owns r other (decode completion.wrId) → other = identity

/-- The ledger counts the operations of its connection, lists those that are accepted and queues
completions of its own. -/
structure ConnectionIoState.Exact (ledger : ConnectionIoState) (r : Registry OperationState)
    (reserved : List OperationToken) : Prop where
  credits : ∀ d, ledger.localUsed d = r.total (credit ledger.identity d)
  bounded : ledger.localSend ≤ ledger.maxSendWr ∧ ledger.localRecv ≤ ledger.maxRecvWr
  accepted : ∀ token, token ∈ ledger.accepted ↔ Owns r ledger.identity token ∧ token ∉ reserved
  queue : ∀ c ∈ ledger.completions, Routed r ledger.identity c

section Books

variable {io io' : IoState} {ledger : ConnectionIoState} {r r' : Registry OperationState}
  {reserved reserved' : List OperationToken} {unposted unposted' : Nat}
  {token : OperationToken} {before after : Option OperationState}

theorem Routed.later {identity : EstablishedIoIdentity} {completion : WorkCompletion}
    (h : Routed r identity completion) (hlater : Later r r') : Routed r' identity completion := by
  obtain ⟨hissued, howns⟩ := hlater _ h.issued
  exact ⟨h.qpNum, hissued, fun other => h.owner other ∘ howns other⟩

theorem ConnectionIoState.Exact.apart (h : ledger.Exact r reserved)
    (hapart : Apart ledger.identity r r') (hlater : Later r r') : ledger.Exact r' reserved where
  credits d := (h.credits d).trans (hapart.credits d).symm
  bounded := h.bounded
  accepted token := by
    rw [hapart.owns]
    exact h.accepted token
  queue c hc := (h.queue c hc).later hlater

/-- The counters follow the operation that is moved. -/
structure IoState.Recounts (before after : Option OperationState) (io io' : IoState) : Prop where
  used : before.elim 0 (fun _ => 1) + io'.cqCredits.used =
    after.elim 0 (fun _ => 1) + io.cqCredits.used
  pending : before.elim 0 reclaims + io'.pendingReclamations =
    after.elim 0 reclaims + io.pendingReclamations
  quarantined : before.elim 0 quarantines + io'.quarantinedOperations =
    after.elim 0 quarantines + io.quarantinedOperations
  mrs : before.elim 0 quarantines + io'.quarantinedMrs =
    after.elim 0 quarantines + io.quarantinedMrs
  retained : before.elim 0 quarantines + io'.cqCredits.retained =
    after.elim 0 quarantines + io.cqCredits.retained
  bytes : before.elim 0 quarantinedLen + io'.quarantinedBytes =
    after.elim 0 quarantinedLen + io.quarantinedBytes

theorem IoState.Books.moved (h : io.Books reserved unposted)
    (hmoved : Registry.Moved token before after io.operations io'.operations)
    (hafter : ∀ op, after = some op → op.token = token ∧ (token ∉ reserved' → op.Settled))
    (hreserved : ∀ t, t ≠ token → t ∉ reserved' → t ∉ reserved)
    (hcapacity : io'.cqCredits.used ≤ io'.cqCredits.capacity)
    (haccepted : io'.acceptedOperations + unposted' = io'.cqCredits.used)
    (hcounts : IoState.Recounts before after io io') : io'.Books reserved' unposted' := by
  have hkeep (f : OperationState → Nat) {n n' : Nat} (hn : n = io.operations.total f)
      (hmoves : before.elim 0 f + n' = after.elim 0 f + n) : n' = io'.operations.total f := by
    rw [hn, ← hmoved.total_eq f] at hmoves
    exact add_left_cancel hmoves
  have hget (t : OperationToken) (op : OperationState) (hop : io'.operations.get? t = some op) :
      t = token ∧ after = some op ∨ t ≠ token ∧ io.operations.get? t = some op := by
    rw [hmoved.get?_eq] at hop
    by_cases ht : t = token
    · exact .inl ⟨ht, by simpa [ht] using hop⟩
    · exact .inr ⟨ht, by simpa [ht] using hop⟩
  constructor
  · intro t op hop hfree
    rcases hget t op hop with ⟨rfl, hnew⟩ | ⟨hne, hold⟩
    · exact (hafter op hnew).2 hfree
    · exact h.settled t op hold (hreserved t hne hfree)
  · intro t op hop
    rcases hget t op hop with ⟨rfl, hnew⟩ | ⟨-, hold⟩
    · exact (hafter op hnew).1
    · exact h.token t op hold
  · exact hkeep _ h.credits hcounts.used
  · exact hcapacity
  · exact haccepted
  · exact hkeep _ h.pending hcounts.pending
  · exact hkeep _ h.quarantined hcounts.quarantined
  · exact hkeep _ h.mrs hcounts.mrs
  · exact hkeep _ h.retained hcounts.retained
  · exact hkeep _ h.bytes hcounts.bytes

end Books

/-! ### A call that works on one connection -/

/-- `reserved` are the operations the call has registered for its post in `direction`, each with
the same observer. -/
structure Work where
  io : IoState
  ledger : ConnectionIoState
  direction : Direction
  observer : Option ObserverId
  reserved : List OperationToken
  unposted : Nat

namespace Work

/-- The call goes on with another core and ledger. -/
abbrev on (w : Work) (io : IoState) (ledger : ConnectionIoState)
    (reserved : List OperationToken) (unposted : Nat) : Work :=
  ⟨io, ledger, w.direction, w.observer, reserved, unposted⟩

structure Kept (w : Work) : Prop where
  books : w.io.Books w.reserved w.unposted
  exact : w.ledger.Exact w.io.operations w.reserved
  nodup : w.reserved.Nodup
  fresh : ∀ token ∈ w.reserved, ∃ op, w.io.operations.get? token = some op ∧ op.Fresh ∧
    op.identity = w.ledger.identity ∧ op.direction = w.direction ∧ op.observer = w.observer

/-- A call goes from `w` to `w'`: it keeps the books, changes no operation of another
connection, the regions it was given and gave out account for those that are held, and of the
accepted operations only some of `left` are over. -/
structure Goes (w w' : Work) (given gone : Multiset Mr) (left : List OperationToken) : Prop where
  kept : w'.Kept
  identity : w'.ledger.identity = w.ledger.identity
  apart : ∀ identity ≠ w.ledger.identity, Apart identity w.io.operations w'.io.operations
  later : Later w.io.operations w'.io.operations
  regions : w.io.held + given = w'.io.held + gone
  stays : ∀ token ∈ w.ledger.accepted, token ∈ w'.ledger.accepted ∨ token ∈ left

variable {w w' w'' : Work} {given given' gone gone' : Multiset Mr}
  {left left' : List OperationToken}

theorem Goes.refl (h : w.Kept) : w.Goes w 0 0 [] :=
  ⟨h, rfl, fun _ _ => .refl _ _, .refl _, rfl, fun _ => .inl⟩

theorem Goes.trans (h : w.Goes w' given gone left) (h' : w'.Goes w'' given' gone' left') :
    w.Goes w'' (given + given') (gone + gone') (left ++ left') where
  kept := h'.kept
  identity := h'.identity.trans h.identity
  apart identity hne := (h.apart identity hne).trans (h'.apart identity (h.identity ▸ hne))
  later := h.later.trans h'.later
  regions := by rw [← add_assoc, h.regions, add_right_comm, h'.regions, add_assoc, add_comm gone']
  stays token htoken := by
    rw [List.mem_append]
    rcases h.stays token htoken with hin | hleft
    · exact (h'.stays token hin).imp id .inr
    · exact .inr (.inl hleft)

theorem Goes.cancel {region : Multiset Mr} (h : w.Goes w' (given + region) (gone + region) left) :
    w.Goes w' given gone left :=
  { h with
    regions := by
      have hregions := h.regions
      rw [← add_assoc, ← add_assoc] at hregions
      exact add_right_cancel hregions }

/-- A call goes on by moving one operation of its connection. -/
theorem Kept.moved {token : OperationToken} {before after : Option OperationState}
    {r : Registry OperationState} (h : w.Kept)
    (hmoved : Registry.Moved token before after w.io.operations r) (hops : w'.io.operations = r)
    (hown : ∀ op, before = some op ∨ after = some op → op.identity = w.ledger.identity)
    (hafter : ∀ op, after = some op → op.token = token ∧ (token ∉ w'.reserved → op.Settled))
    (hcapacity : w'.io.cqCredits.used ≤ w'.io.cqCredits.capacity)
    (hposted : w'.io.acceptedOperations + w'.unposted = w'.io.cqCredits.used)
    (hcounts : IoState.Recounts before after w.io w'.io)
    (hledger : w'.ledger.identity = w.ledger.identity ∧
      w'.ledger.completions = w.ledger.completions)
    (hcredits : ∀ d, before.elim 0 (credit w.ledger.identity d) + w'.ledger.localUsed d =
      after.elim 0 (credit w.ledger.identity d) + w.ledger.localUsed d)
    (hbounded : w'.ledger.localSend ≤ w'.ledger.maxSendWr ∧
      w'.ledger.localRecv ≤ w'.ledger.maxRecvWr)
    (haccepted : ∀ t, t ∈ w'.ledger.accepted ↔
      if t = token then after.isSome ∧ token ∉ w'.reserved else t ∈ w.ledger.accepted)
    (hreserved : ∀ t, t ≠ token → (t ∈ w'.reserved ↔ t ∈ w.reserved))
    (hnodup : w'.reserved.Nodup)
    (hkind : w'.direction = w.direction ∧ w'.observer = w.observer)
    (hfresh : token ∈ w'.reserved → ∃ op, after = some op ∧ op.Fresh ∧
      op.direction = w.direction ∧ op.observer = w.observer)
    (hstays : token ∈ w.ledger.accepted → token ∈ w'.ledger.accepted ∨ token ∈ left) :
    w.Goes w' (after.elim 0 region) (before.elim 0 region) left := by
  subst hops
  have hlater : Later w.io.operations w'.io.operations :=
    later_moved hmoved fun op op' hop hop' => (hown op' (.inr hop')).trans (hown op (.inl hop)).symm
  refine ⟨⟨?_, ?_, hnodup, ?_⟩, hledger.1, fun identity hne => ?_, hlater, ?_, fun t ht => ?_⟩
  · exact h.books.moved hmoved hafter (fun t ht => by rw [hreserved t ht]; exact id) hcapacity
      hposted hcounts
  · refine ⟨fun d => ?_, hbounded, fun t => ?_, ?_⟩
    · have htotal := hmoved.total_eq (credit w.ledger.identity d)
      rw [← h.exact.credits d, ← hcredits d] at htotal
      rw [hledger.1]
      exact (add_left_cancel htotal).symm
    · rw [haccepted, hledger.1, owns_moved hmoved]
      by_cases ht : t = token
      · have howner : (∃ op, after = some op ∧ op.identity = w.ledger.identity) ↔ after.isSome :=
          (exists_congr fun op => and_iff_left_of_imp fun hop => hown op (.inr hop)).trans
            Option.isSome_iff_exists.symm
        simp [ht, howner]
      · simp [ht, h.exact.accepted t, hreserved t ht]
    · rw [hledger.1, hledger.2]
      exact fun c hc => (h.exact.queue c hc).later hlater
  · intro t ht
    rw [hmoved.get?_eq, hledger.1, hkind.1, hkind.2]
    by_cases heq : t = token
    · obtain ⟨op, hop, hop', hd⟩ := hfresh (heq ▸ ht)
      exact ⟨op, by simp [heq, hop], hop', hown op (.inr hop), hd⟩
    · simpa [heq] using h.fresh t ((hreserved t heq).mp ht)
  · exact apart_moved hmoved fun op hop => hown op hop ▸ hne.symm
  · have htotal := hmoved.total_eq region
    exact (add_comm _ _).trans (htotal.symm.trans (add_comm _ _))
  · by_cases heq : t = token
    · exact heq ▸ hstays (heq ▸ ht)
    · simp [haccepted, heq, ht]

end Work

/-! ### The moves of a call -/

theorem CqCreditPool.reserve_eq_some {pool pool' : CqCreditPool} (h : pool.reserve = some pool') :
    pool.used < pool.capacity ∧ pool' = { pool with used := pool.used + 1 } := by
  unfold reserve at h
  split at h
  · cases h
  next hfree =>
    cases h
    exact ⟨Nat.lt_of_not_le hfree, rfl⟩

theorem ConnectionIoState.reserveLocal_eq_some {ledger ledger' : ConnectionIoState}
    {d : Direction} (h : ledger.reserveLocal d = some ledger') :
    ledger'.identity = ledger.identity ∧ ledger'.completions = ledger.completions ∧
      ledger'.accepted = ledger.accepted ∧
      (∀ d', ledger'.localUsed d' = (if d = d' then 1 else 0) + ledger.localUsed d') ∧
      (ledger.localSend ≤ ledger.maxSendWr ∧ ledger.localRecv ≤ ledger.maxRecvWr →
        ledger'.localSend ≤ ledger'.maxSendWr ∧ ledger'.localRecv ≤ ledger'.maxRecvWr) := by
  cases d <;> simp only [reserveLocal] at h <;> split at h <;> cases h <;>
    refine ⟨rfl, rfl, rfl, fun d' => ?_, fun hbounded => ?_⟩ <;>
    first
    | (cases d' <;> simp [localUsed, add_comm])
    | (simp only; omega)

/-- What giving back a credit does. -/
theorem ConnectionIoState.localUsed_releaseLocal (ledger : ConnectionIoState)
    (d d' : Direction) :
    (ledger.releaseLocal d).localUsed d' = ledger.localUsed d' - if d = d' then 1 else 0 := by
  cases d <;> cases d' <;> rfl

theorem ConnectionIoState.bounded_releaseLocal {ledger : ConnectionIoState} (d : Direction)
    (h : ledger.localSend ≤ ledger.maxSendWr ∧ ledger.localRecv ≤ ledger.maxRecvWr) :
    (ledger.releaseLocal d).localSend ≤ (ledger.releaseLocal d).maxSendWr ∧
      (ledger.releaseLocal d).localRecv ≤ (ledger.releaseLocal d).maxRecvWr := by
  cases d <;> simp only [releaseLocal] <;> omega

/-- What giving back a released operation does to the registry, the pool and the accepted count. -/
theorem IoState.unwindRelease_spec (io : IoState) (mrLen : Nat) (finished : FinishState) :
    (io.unwindRelease mrLen finished).operations = io.operations ∧
      (io.unwindRelease mrLen finished).cqCredits.capacity = io.cqCredits.capacity ∧
      (io.unwindRelease mrLen finished).cqCredits.used = io.cqCredits.used - 1 ∧
      (io.unwindRelease mrLen finished).acceptedOperations = io.acceptedOperations - 1 := by
  unfold unwindRelease
  split <;> split <;> exact ⟨rfl, rfl, rfl, rfl⟩

namespace Work

variable {w : Work} {token : OperationToken} {op op' : OperationState}
  {r : Registry OperationState} {ledger : ConnectionIoState} {rest left : List OperationToken}

theorem Kept.unlisted (h : w.Kept) (hnone : w.io.operations.get? token = none) :
    token ∉ w.reserved ∧ token ∉ w.ledger.accepted := by
  constructor
  · intro hmem
    obtain ⟨op, hop, -⟩ := h.fresh token hmem
    simp [hnone] at hop
  · rw [h.exact.accepted]
    rintro ⟨⟨_, hop, -⟩, -⟩
    simp [hnone] at hop

theorem Kept.reserve {page : Bool} {make : OperationToken → OperationState} {credits : CqCreditPool}
    (h : w.Kept) (hlocal : w.ledger.reserveLocal w.direction = some ledger)
    (hallocate : w.io.operations.allocate page make = .ok (token, r))
    (hcredits : w.io.cqCredits.reserve = some credits) (hfresh : (make token).Fresh)
    (htoken : (make token).token = token) (hidentity : (make token).identity = w.ledger.identity)
    (hdirection : (make token).direction = w.direction)
    (hobserver : (make token).observer = w.observer) :
    w.Goes (w.on { w.io with operations := r, cqCredits := credits } ledger
      (w.reserved ++ [token]) (w.unposted + 1)) (make token).region 0 [] := by
  obtain ⟨hroom, rfl⟩ := CqCreditPool.reserve_eq_some hcredits
  obtain ⟨hid, hqueue, haccepted, hused, hbounded⟩ :=
    reserveLocal_eq_some hlocal
  have hmoved := Registry.moved_allocate hallocate
  obtain ⟨hnew, hunaccepted⟩ := h.unlisted hmoved.get?_before
  have hposted := h.books.accepted
  refine h.moved hmoved ?_ ?_ ?_ ?_ ?_ ?_ ?_ ?_ ?_ ?_ ?_ ?_ ?_ ?_
    fun hmem => absurd hmem hunaccepted
  · rfl
  · simpa using hidentity
  · rintro _ ⟨⟩
    exact ⟨htoken, by simp⟩
  · exact hroom
  · simp only
    omega
  · constructor <;> simp [reclaims, quarantines, quarantinedLen, hfresh.reclamation,
      hfresh.quarantine, add_comm]
  · exact ⟨hid, hqueue⟩
  · intro d
    simp [hused, credit, hidentity, hdirection]
  · exact hbounded h.exact.bounded
  · intro t
    by_cases ht : t = token <;> simp [ht, haccepted, hunaccepted]
  · intro t ht
    simp [ht]
  · exact List.nodup_append_comm.mp (List.nodup_cons.mpr ⟨hnew, h.nodup⟩)
  · exact ⟨rfl, rfl⟩
  · exact fun _ => ⟨_, rfl, hfresh, hdirection, hobserver⟩

theorem Kept.get?_reserved (h : w.Kept) (hreserved : w.reserved = token :: rest)
    (hop : w.io.operations.get? token = some op) : op.Fresh ∧ op.identity = w.ledger.identity ∧
      (op.direction = w.direction ∧ op.observer = w.observer) ∧ token ∉ w.ledger.accepted ∧
      token ∉ rest ∧ rest.Nodup := by
  obtain ⟨_, hop', hfresh⟩ := h.fresh token (by simp [hreserved])
  rw [hop, Option.some.injEq] at hop'
  subst hop'
  have hnodup := h.nodup
  rw [hreserved, List.nodup_cons] at hnodup
  refine ⟨hfresh.1, hfresh.2.1, hfresh.2.2, ?_, hnodup⟩
  rw [h.exact.accepted]
  simp [hreserved]

/-- An operation of the connection is replaced by a settled one. -/
theorem Kept.replace {io : IoState} {n : Nat} (h : w.Kept)
    (hop : w.io.operations.get? token = some op) (hidentity : op.identity = w.ledger.identity)
    (halike : op.Alike op') (hsettled : op'.Settled) (hrest : token ∉ rest) (hnodup : rest.Nodup)
    (hreserved : ∀ t, t ≠ token → (t ∈ rest ↔ t ∈ w.reserved))
    (hops : io.operations = w.io.operations.set token op')
    (hcapacity : io.cqCredits.used ≤ io.cqCredits.capacity)
    (hposted : io.acceptedOperations + n = io.cqCredits.used)
    (hcounts : IoState.Recounts (some op) (some op') w.io io) :
    w.Goes (w.on io (w.ledger.addAccepted token) rest n) 0 0 [] := by
  have hregion : op'.region = op.region := by simp [region, halike.mr]
  have hgoes : w.Goes (w.on io (w.ledger.addAccepted token) rest n) op'.region op.region [] := by
    refine h.moved (Registry.moved_set op' hop) hops ?_ ?_ hcapacity hposted hcounts ⟨rfl, rfl⟩ ?_
      h.exact.bounded ?_ hreserved hnodup ⟨rfl, rfl⟩ (fun hmem => absurd hmem hrest) fun _ =>
        .inl (Finset.mem_insert_self ..)
    · rintro o (⟨⟨⟩⟩ | ⟨⟨⟩⟩)
      · exact hidentity
      · exact halike.identity.trans hidentity
    · rintro o ⟨⟩
      exact ⟨halike.token.trans (h.books.token token op hop), fun _ => hsettled⟩
    · intro d
      simp only [Option.elim_some, credit, halike.identity, halike.direction]
      cases d <;> rfl
    · intro t
      by_cases ht : t = token <;> simp [ht, addAccepted, hrest]
  rw [hregion] at hgoes
  exact Goes.cancel (by rwa [zero_add])

/-- A settled operation of the connection changes in place. -/
theorem Kept.amend {io : IoState} (h : w.Kept) (hop : w.io.operations.get? token = some op)
    (hfree : token ∉ w.reserved) (hidentity : op.identity = w.ledger.identity)
    (halike : op.Alike op') (hsettled : op'.Settled)
    (hops : io.operations = w.io.operations.set token op')
    (hpool : io.cqCredits.used = w.io.cqCredits.used ∧
      io.cqCredits.capacity = w.io.cqCredits.capacity)
    (hposted : io.acceptedOperations = w.io.acceptedOperations)
    (hcounts : IoState.Recounts (some op) (some op') w.io io) :
    w.Goes (w.on io w.ledger w.reserved w.unposted) 0 0 [] := by
  have hself : w.ledger.addAccepted token = w.ledger := by
    have hmem := (h.exact.accepted token).mpr ⟨⟨op, hop, hidentity⟩, hfree⟩
    simp only [addAccepted, Finset.insert_eq_self.mpr hmem]
  have hcapacity := h.books.capacity
  have haccepted := h.books.accepted
  have hgoes := h.replace hop hidentity halike hsettled hfree h.nodup (fun _ _ => Iff.rfl) hops
    (by omega) (n := w.unposted) (by omega) hcounts
  rwa [hself] at hgoes

/-- An operation of the connection is released. -/
theorem Kept.remove {io : IoState} {n : Nat} (h : w.Kept)
    (hmoved : Registry.Moved token (some op) none w.io.operations r)
    (hcounts : IoState.Recounts (some op) none w.io io)
    (hidentity : op.identity = w.ledger.identity) (hrest : token ∉ rest) (hnodup : rest.Nodup)
    (hreserved : ∀ t, t ≠ token → (t ∈ rest ↔ t ∈ w.reserved)) (hops : io.operations = r)
    (hcapacity : io.cqCredits.capacity = w.io.cqCredits.capacity)
    (hposted : io.acceptedOperations + n = io.cqCredits.used)
    (hleft : token ∈ w.ledger.accepted → token ∈ left) :
    w.Goes (w.on io ({ w.ledger with accepted := w.ledger.accepted.erase token }.releaseLocal
      op.direction) rest n) 0 op.region left := by
  have hroom : io.cqCredits.used ≤ io.cqCredits.capacity := by
    have hused := hcounts.used
    have hbound := h.books.capacity
    simp only [Option.elim_some, Option.elim_none] at hused
    omega
  refine h.moved hmoved hops ?_ (by simp) hroom hposted hcounts ?_ ?_ ?_ ?_ hreserved hnodup
    ⟨rfl, rfl⟩ (fun hmem => absurd hmem hrest) fun hmem => .inr (hleft hmem)
  · simpa using hidentity
  · cases op.direction <;> exact ⟨rfl, rfl⟩
  · intro d
    have hcredit := hmoved.total_eq (credit w.ledger.identity d)
    have hcredits := h.exact.credits d
    rw [localUsed_releaseLocal]
    simp only [Option.elim_some, Option.elim_none, credit, hidentity, true_and] at hcredit ⊢
    change _ + (w.ledger.localUsed d - _) = _
    omega
  · exact bounded_releaseLocal _ h.exact.bounded
  · intro t
    cases op.direction <;> by_cases ht : t = token <;> simp [releaseLocal, ht]

/-- An operation that did not reach the provider is released. -/
theorem Kept.withdraw {n : Nat} {completed : Bool} (h : w.Kept)
    (hreserved : w.reserved = token :: rest) (hunposted : w.unposted = n + 1)
    (hrelease : w.io.operations.release token completed = some (op, r)) :
    w.Goes (w.on { w.io with operations := r, cqCredits := w.io.cqCredits.release }
      (w.ledger.releaseLocal w.direction) rest n) 0 op.region [] := by
  have hposted := h.books.accepted
  have hmoved := Registry.moved_release hrelease
  obtain ⟨hfresh, hidentity, ⟨hdirection, -⟩, hunaccepted, hrest, hnodup⟩ :=
    h.get?_reserved hreserved hmoved.get?_before
  have hcounts : IoState.Recounts (some op) none w.io
      { w.io with operations := r, cqCredits := w.io.cqCredits.release } := by
    constructor <;> simp [reclaims, quarantines, quarantinedLen, hfresh.reclamation,
      hfresh.quarantine, CqCreditPool.release]
    omega
  have hgoes := h.remove (n := n) hmoved hcounts hidentity hrest hnodup
    (fun t ht => by simp [hreserved, ht]) rfl rfl (by simp only [CqCreditPool.release]; omega)
    fun hmem => (absurd hmem hunaccepted : token ∈ ([] : List OperationToken))
  rwa [Finset.erase_eq_of_notMem hunaccepted, hdirection] at hgoes

/-- An operation that is over is released with what it was counted for. -/
theorem Kept.finish {finished : FinishState} (h : w.Kept) (hreserved : w.reserved = [])
    (hunposted : w.unposted = 0) (hmoved : Registry.Moved token (some op) none w.io.operations r)
    (hidentity : op.identity = w.ledger.identity)
    (hreclaiming : finished.wasReclaiming = op.reclamationPending)
    (hquarantined : finished.wasQuarantined = op.quarantined) :
    w.Goes (w.on ({ w.io with operations := r }.unwindRelease op.mrLen finished)
      ({ w.ledger with accepted := w.ledger.accepted.erase token }.releaseLocal op.direction)
      [] 0) 0 op.region [token] := by
  have hle (f : OperationState → Nat) {n : Nat} (hn : n = w.io.operations.total f) : f op ≤ n :=
    hn ▸ Registry.le_total hmoved.get?_before f
  have hbooks := h.books
  have hused : 1 ≤ w.io.cqCredits.used := hle (fun _ => 1) hbooks.credits
  have hpending := hle reclaims hbooks.pending
  have hoperations := hle quarantines hbooks.quarantined
  have hmrs := hle quarantines hbooks.mrs
  have hretained := hle quarantines hbooks.retained
  have hbytes := hle quarantinedLen hbooks.bytes
  have hposted := hbooks.accepted
  have hcounts : IoState.Recounts (some op) none w.io
      ({ w.io with operations := r }.unwindRelease op.mrLen finished) := by
    simp only [reclaims, quarantines, quarantinedLen] at hpending hoperations hmrs hretained hbytes
    cases hr : op.reclamationPending <;> cases hq : op.quarantined <;> constructor <;>
      simp [IoState.unwindRelease, hreclaiming, hquarantined, hr, hq, reclaims, quarantines,
        quarantinedLen, CqCreditPool.release, CqCreditPool.releaseRetained] at * <;> omega
  obtain ⟨hops, hcapacity, hused', haccepted⟩ :=
    IoState.unwindRelease_spec { w.io with operations := r } op.mrLen finished
  refine h.remove hmoved hcounts hidentity (by simp) List.nodup_nil (by simp [hreserved]) hops
    hcapacity ?_ (by simp)
  rw [hused', haccepted]
  change w.io.acceptedOperations - 1 + 0 = w.io.cqCredits.used - 1
  omega

end Work

end RdmaIo.Engine
