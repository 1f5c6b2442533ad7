/-
Conservation of message credits between two endpoints.

The ledgers of the two endpoints meet on the wire: what one has posted is what the
other has taken, up to its send queue.  So the credits of each direction add up to
the capacity that the receiver announced, and the receives of each endpoint cover
the frames of its peer.
-/
import RdmaIo.Message.Ledger

namespace RdmaIo.Message

open MessageNode
open Duplex
open List

section Framed

variable {enqueued : List (List UInt8)} {capacity size : Nat} {send : PostedSend} {frame : Frame}

theorem Mr.holds_eq {mr : Mr} {kind : Nat} (h : mr.holds kind = true) (other : Nat) :
    mr.holds other = (other == kind) := by
  simp only [Mr.holds, beq_iff_eq] at h
  simp only [Mr.holds, h]
  exact Bool.beq_comm

variable (h : Framed enqueued capacity size send frame) (hcapacity : capacity < 2 ^ 32)
  (hsize : size < 2 ^ 32) (mr : Mr)

include h hcapacity hsize

/-- A frame arrives as what it was sent for. -/
theorem Framed.carries (kind : Nat) :
    (IoEvent.completion (mr.arrival send.bytes)).carries kind = send.context.carries kind := by
  have hheader := h.parseHeader hcapacity hsize (mr.content.drop send.bytes.length)
  have hholds := @holds_of_parseHeader ⟨mr.key, _⟩ _ _ hheader
  rw [carries_of_ok rfl rfl rfl, Mr.holds_eq hholds]
  cases h with
  | hello hcontext | data hcontext | credit hcontext => rw [hcontext]; rfl

/-- The credits of a frame arrive. -/
theorem Framed.credits : (IoEvent.completion (mr.arrival send.bytes)).credits = send.credits := by
  have hheader := h.parseHeader hcapacity hsize (mr.content.drop send.bytes.length)
  have hpayload := h.payloadOf (mr.content.drop send.bytes.length)
  cases h with
  | hello hcontext =>
    rw [credits_of_frameType rfl rfl rfl hheader
      (by simp [Frame.frameType, frameHello, frameCredit])]
    simp [PostedSend.credits, hcontext]
  | data hcontext =>
    rw [credits_of_frameType rfl rfl rfl hheader
      (by simp [Frame.frameType, frameData, frameCredit])]
    simp [PostedSend.credits, hcontext]
  | @credit credits hcontext _ hfits hbytes =>
    have hparse := (congrArg parseCredit hpayload).trans (parseCredit_toLeBytes hfits)
    have hsent : send.credits = fromLeBytes (toLeBytes credits) := by
      rw [PostedSend.credits, hcontext, hbytes]
      rfl
    rw [credits_of_parseCredit rfl rfl rfl hheader rfl hparse, hsent, fromLeBytes_toLeBytes,
      Nat.mod_eq_of_lt hfits]

end Framed

/-- What holds of an endpoint for good, also after its transport has closed. -/
structure Bounds (peer : Nat) (posted : List PostedSend) (reposted : List Mr)
    (arrived : List PostedSend) : Prop where
  returned : (posted.map PostedSend.credits).sum ≤ reposted.countP (·.holds frameData)
  taken : ∀ kind, reposted.countP (·.holds kind) ≤ arrived.countP (·.context.carries kind)
  announced : posted.countP (·.context.carries frameHello) ≤ 1
  opened : 0 < posted.countP (·.context.carries frameData) →
    0 < reposted.countP (·.holds frameHello)
  spent : posted.countP (·.context.carries frameData) ≤ peer + (arrived.map PostedSend.credits).sum

theorem Bounds.arrive {peer : Nat} {posted : List PostedSend} {reposted : List Mr}
    {arrived : List PostedSend} (h : Bounds peer posted reposted arrived) (send : PostedSend) :
    Bounds peer posted reposted (arrived ++ [send]) := by
  refine { h with taken := fun kind => ?_, spent := ?_ }
  · rw [countP_append]
    exact Nat.le_add_right_of_le (h.taken kind)
  · have hspent := h.spent
    rw [map_append, sum_append]
    omega

namespace NodeView

variable {peer : Nat} {log : List PendingProtocolTransition} {posted : List PostedSend}
  {reposted : List Mr} {arrived : List PostedSend} {v : NodeView}

variable (h : Ledger peer log posted reposted arrived v)

include h

theorem Ledger.bounds : Bounds peer posted reposted arrived := by
  have hinFlight : v.transport.inFlight ≤ peer := by
    have hbalance := h.balance
    rw [TransportView.total] at hbalance
    split at hbalance <;> omega
  refine ⟨?_, fun kind => ?_, ?_, fun hpos => ?_, ?_⟩
  · have hreturns := h.returns
    omega
  · have hbuffers := h.buffers kind
    omega
  · have hannounced := h.announced
    have hone := Bool.toNat_le v.transport.announced
    omega
  · have hopen := h.opened (Nat.lt_add_left _ hpos)
    have hgrants := h.grants
    rw [NodeView.grants, hopen] at hgrants
    change 1 + _ = _ at hgrants
    omega
  · have hflight := h.flight
    omega

/-- A ready transport has been granted the capacity of its peer. -/
theorem Ledger.balance_of_ready (hready : v.transport.state = .ready) :
    v.transport.available + v.transport.requests.countP (·.credit) + v.transport.inFlight +
      v.acquired = peer := by
  rcases h.holdings.state with hcreated | ⟨-, hgranted⟩
  · cases hready.symm.trans hcreated
  · have hbalance := h.balance
    rw [hgranted, if_pos rfl] at hbalance
    exact hbalance

/-- A frame of the peer completes a receive. -/
theorem Ledger.arrive {enqueued : List (List UInt8)} {capacity size : Nat}
    {send : PostedSend} {frame : Frame} (hframe : Framed enqueued capacity size send frame)
    (hcapacity : capacity < 2 ^ 32) (hsize : size < 2 ^ 32) (mr : Mr) (rq : List Mr) :
    Ledger peer log posted reposted (arrived ++ [send])
      { v with rq, completions := v.completions ++ [mr.arrival send.bytes] } := by
  have hframes : { v with
      rq, completions := v.completions ++ [mr.arrival send.bytes] }.frames =
      v.frames ++ [.completion (mr.arrival send.bytes)] := by
    simp [frames, arrivals, IoEvent.isFrame, Mr.arrival]
  refine { h with
    records := { h.records with accepted := ?_ }, holdings := { h.holdings with }
    requests := { h.requests with }, buffers := fun kind => ?_, flight := ?_ }
  · exact forall_mem_append.mpr ⟨h.records.accepted, forall_mem_singleton.mpr rfl⟩
  · have hbuffers := h.buffers kind
    have hcarries := hframe.carries hcapacity hsize mr kind
    rw [NodeView.buffers, hframes, countP_append, countP_append,
      countP_singleton, countP_singleton, hcarries]
    rw [NodeView.buffers] at hbuffers
    change (if kind = frameData then v.transport.received.length + v.held.length +
      v.transport.events.countP _ else 0) + (v.frames.countP _ + _) + (bufferLoad kind).of v +
        _ = _
    omega
  · have hflight := h.flight
    have hcredits := hframe.credits hcapacity hsize mr
    rw [credited, hframes, map_append, sum_append, map_append, sum_append,
      map_singleton, sum_singleton, map_singleton, sum_singleton, hcredits]
    rw [credited] at hflight
    change v.transport.inFlight + _ = (sendLoad _).of v + _ + _
    omega

end NodeView

theorem exists_brings {frames : List IoEvent} {inside : List PostedSend}
    (h : List.Forall₂ Brings frames inside) {e : IoEvent} (he : e ∈ frames) :
    ∃ send ∈ inside, Brings e send := by
  induction h with
  | nil => cases he
  | @cons _ send _ _ hfirst _ ih =>
    rcases mem_cons.mp he with rfl | he
    · exact ⟨send, mem_cons_self, hfirst⟩
    · obtain ⟨other, hother, hbrings⟩ := ih he
      exact ⟨other, mem_cons_of_mem _ hother, hbrings⟩

namespace MessageNode

variable {peer : Nat} {n n' : MessageNode} {j : Journal} {arrived : List PostedSend} {l : NodeLabel}

/-- While receipts come in order, an endpoint may rely on its peer. -/
theorem orderly (halive : n.msg.Alive) (hcorrelated : n.Correlated)
    {returned enqueued own : List (List UInt8)} {taken inside posted : List PostedSend}
    {capacity size ownCapacity ownSize : Nat}
    (hreceiver : n.view.Receiver returned taken inside)
    (hframed : ∀ send ∈ inside, ∃ frame, Framed enqueued capacity size send frame)
    (hcapacity : capacity < 2 ^ 32) (hsize : size < 2 ^ 32)
    (hsender : n.view.Sender ownCapacity ownSize own posted)
    (hunacked : ∀ send ∈ n.unacked, send.context ≠ .receive) : n.view.Orderly capacity := by
  refine ⟨fun c hc => ?_, ?_, ?_, fun request r mr hr hmr => ?_, hreceiver.published, hunacked⟩
  · obtain ⟨send, -, mr, hbrings⟩ := exists_brings hreceiver.frames hc
    rw [IoEvent.completion.inj hbrings]
    rfl
  · intro c mr len header hello hc hresult hmr hheader htype hparse
    obtain ⟨send, hsend, buffer, hbrings⟩ := exists_brings hreceiver.frames hc
    obtain ⟨_, hframe⟩ := hframed send hsend
    obtain rfl := IoEvent.completion.inj hbrings
    obtain rfl := Except.ok.inj hresult
    cases hmr
    have hparsed := hframe.parseHeader hcapacity hsize (buffer.content.drop send.bytes.length)
    have hpayload := hframe.payloadOf (buffer.content.drop send.bytes.length)
    obtain rfl := Except.ok.inj (hparsed.symm.trans hheader)
    cases hframe with
    | data | credit => cases htype
    | hello =>
      have hread := (congrArg parseHello hpayload).trans (parseHello_payload hcapacity hsize)
      rw [Except.ok.inj (hparse.symm.trans hread)]
  · intro id d port p rest hport htransitions
    obtain ⟨-, horder⟩ := hcorrelated.order.opened halive.admission
    have hport' : n.msg.port.events = .submission id d :: port := hport
    have htransitions' : n.msg.pendingProtocolTransitions = p :: rest := htransitions
    simp only [EngineMessageState.receiptView, hport', htransitions', receiptIds, IoEvent.receipt,
      filterMap_cons, map_cons, cons_append, List.cons.injEq] at horder
    exact horder.1.symm
  · exact (hsender.holds.framed request r mr hr hmr).1

/-- The accounts of an endpoint, live or closed. -/
def Accounts (peer : Nat) (n : MessageNode) (j : Journal) (arrived : List PostedSend) : Prop :=
  n.msg.Alive ∧ (∃ log, n.view.Ledger peer log j.posted j.reposted arrived) ∨
    n.msg.Dead ∧ Bounds peer j.posted j.reposted arrived

variable (h : n.Accounts peer j arrived)

include h

theorem Accounts.bounds : Bounds peer j.posted j.reposted arrived := by
  rcases h with ⟨-, log, hledger⟩ | ⟨-, hbounds⟩
  · exact hledger.bounds
  · exact hbounds

theorem Accounts.step (horderly : n.msg.Alive → n.view.Orderly peer)
    (hcovered : (arrived.map PostedSend.credits).sum ≤
      j.posted.countP (·.context.carries frameData))
    (honce : arrived.countP (·.context.carries frameHello) ≤ 1) (hlocal : l.isLocal = true)
    (hstep : n.step l = some n') : n'.Accounts peer (j.record l n n') arrived := by
  have hclosed (hdead : n'.msg.Dead) (hsq : n'.sq = n.sq) (hrq : n'.rq.length ≤ n.rq.length) :
      n'.Accounts peer (j.record l n n') arrived := by
    have hposted : (j.record l n n').posted = j.posted := by simp [Journal.record, hsq]
    have hreposted : (j.record l n n').reposted = j.reposted := by
      simp [Journal.record, drop_eq_nil_of_le hrq]
    refine .inr ⟨hdead, ?_⟩
    rw [hposted, hreposted]
    exact h.bounds
  rcases h with ⟨halive, log, hledger⟩ | ⟨hdead, hbounds⟩
  · rcases outcome_step halive hlocal hstep with ⟨halive', hstep'⟩ | ⟨hhalts, -⟩
    · obtain ⟨_, hnext⟩ := hledger.step (horderly halive) hcovered honce hstep'
      exact .inl ⟨halive', _, hnext⟩
    · exact hclosed hhalts.transport.dead hhalts.sq (le_of_eq (congrArg _ hhalts.rq))
  · have hidles := idles_step hdead hlocal hstep
    exact hclosed hidles.dead hidles.sq hidles.rq.length_le

theorem Accounts.arrive {enqueued : List (List UInt8)} {capacity size : Nat}
    {send : PostedSend} {frame : Frame} (hframe : Framed enqueued capacity size send frame)
    (hcapacity : capacity < 2 ^ 32) (hsize : size < 2 ^ 32)
    (harrived : n.arrive (.ok send.bytes) = some n') :
    n'.Accounts peer j (arrived ++ [send]) := by
  obtain ⟨mr, rq, _, rfl⟩ := arrive_eq_some harrived
  refine h.imp ?_ ?_
  · rintro ⟨halive, log, hledger⟩
    refine ⟨halive, log, ?_⟩
    have hnext := hledger.arrive hframe hcapacity hsize mr rq
    convert hnext using 1
    simp [view, msg]
  · rintro ⟨hdead, hbounds⟩
    exact ⟨hdead, hbounds.arrive send⟩

theorem Accounts.transmit {send : PostedSend} (hsent : n.transmit = some (n', send)) :
    n'.Accounts peer j arrived := by
  obtain ⟨_, _, rfl⟩ := transmit_eq_some hsent
  refine h.imp ?_ id
  rintro ⟨halive, log, hledger⟩
  exact ⟨halive, log, { hledger with
    records := { hledger.records with }, holdings := { hledger.holdings with }
    requests := { hledger.requests with } }⟩

end MessageNode

namespace Exchange

variable {ends : Duplex Endpoint} {x x' : Exchange} {side : Side}

/-- Admission resolves a command of either side by itself only while that side's
reactor is quiet. -/
def resolvesInOrder (x : Exchange) : ConversationLabel → Bool
  | .node side label => (x.nodes.get side).resolvesInOrder label
  | .deliver _ => true

/-- One direction: the frames of the side, and the accounts of the other side that
takes them. -/
structure Direction (ends : Duplex Endpoint) (x : Exchange) (side : Side)
    (taken inside : List PostedSend) : Prop where
  passes : Passes ends x side taken inside
  accounts : (x.nodes.get side.other).Accounts (ends.get side).recvCount
    (x.journals.get side.other) (taken ++ inside)

def Fair (ends : Duplex Endpoint) (x : Exchange) : Prop :=
  (∀ side, (x.nodes.get side).Correlated) ∧
    ∀ side, ∃ taken inside, Direction ends x side taken inside

variable {taken inside : List PostedSend}

section

variable (h : Direction ends x side taken inside)

include h

theorem Direction.framed :
    ∀ send ∈ (x.journals.get side).posted, ∃ frame, Framed (x.journals.get side).enqueued
      (ends.get side).recvCount (ends.get side).bufferSize send frame :=
  h.passes.sends.posted.framed

/-- What has arrived was posted. -/
theorem Direction.countP_le (p : PostedSend → Bool) :
    (taken ++ inside).countP p ≤ (x.journals.get side).posted.countP p := by
  rw [h.passes.posted]
  exact (sublist_append_left _ _).countP_le

theorem Direction.credits_le : ((taken ++ inside).map PostedSend.credits).sum ≤
      ((x.journals.get side).posted.map PostedSend.credits).sum := by
  simp only [h.passes.posted, map_append, sum_append]
  omega

/-- No more credits come back than frames were posted: every credit stands for a
buffer that a frame had taken. -/
theorem Direction.covered {taken' inside' : List PostedSend}
    (hback : Direction ends x side.other taken' inside') :
    ((taken' ++ inside').map PostedSend.credits).sum ≤
      (x.journals.get side).posted.countP (·.context.carries frameData) := by
  have hreturned := h.accounts.bounds.returned
  have htaken := h.accounts.bounds.taken frameData
  have hposted := h.countP_le (·.context.carries frameData)
  have hcredits := hback.credits_le
  omega

end

theorem not_dead {s : EngineMessageState} (halive : s.Alive) (hdead : s.Dead) : False := by
  cases halive.state.symm.trans hdead.state

/-- The side that takes the frames may rely on the side that sends them. -/
theorem Direction.orderly (hconfigured : (ends.get side.other).Configured)
    {taken' inside' : List PostedSend} (h : Direction ends x side taken inside)
    (hback : Direction ends x side.other taken' inside')
    (hcorrelated : (x.nodes.get side).Correlated) (halive : (x.nodes.get side).msg.Alive) :
    (x.nodes.get side).view.Orderly (ends.get side.other).recvCount := by
  obtain ⟨-, hcapacity, hsize⟩ := hconfigured.bounds
  have hreceives := hback.passes.receives
  rw [Side.other_other] at hreceives
  rcases hreceives with ⟨-, hreceiver⟩ | ⟨hdead, -⟩
  · rcases h.passes.sends with ⟨-, hsender⟩ | ⟨hdead, -⟩
    · have hframed : ∀ send ∈ inside', _ := fun send hsend => hback.framed send (by
        rw [hback.passes.posted]
        exact mem_append_left _ (mem_append_right _ hsend))
      exact MessageNode.orderly halive hcorrelated hreceiver hframed hcapacity hsize hsender
        h.passes.context_ne
    · exact (not_dead halive hdead).elim
  · exact (not_dead halive hdead).elim

theorem Fair.step (hconfigured : ∀ s, (ends.get s).Configured) (h : Fair ends x)
    {l : ConversationLabel} (hresolves : x.resolvesInOrder l = true)
    (hstep : x.step l = some x') : Fair ends x' := by
  obtain ⟨hcorrelated, hdirections⟩ := h
  cases l with
  | node p =>
    obtain ⟨hlocal, n, hn, rfl⟩ := step_node hstep
    obtain ⟨taken, inside, hforth⟩ := hdirections p
    obtain ⟨taken', inside', hback⟩ := hdirections p.other
    refine ⟨forall_side p ?_ ?_, forall_side p ?_ ?_⟩
    · simpa using (hcorrelated p).step hresolves hn
    · simpa using hcorrelated p.other
    · refine ⟨taken, inside, ?_, ?_⟩
      · have hnext := hforth.passes.sender_step hlocal hn
        simpa [Passes] using hnext
      · simpa using hforth.accounts
    · have hpasses := hback.passes
      have haccounts := hback.accounts
      have honce := le_trans (hback.countP_le _) hforth.accounts.bounds.announced
      obtain ⟨-, hcapacity, hsize⟩ := (hconfigured p.other).bounds
      simp only [Passes, Side.other_other] at hpasses haccounts
      obtain ⟨moved, rest, rfl, hnext⟩ :=
        hpasses.receiver_step hcapacity hsize hforth.passes.context_ne hlocal hn
      have hstepped := haccounts.step (hforth.orderly (hconfigured p.other) hback (hcorrelated p))
        (hforth.covered hback) honce hlocal hn
      refine ⟨taken' ++ moved, rest, ?_, ?_⟩
      · simpa [Passes] using hnext
      · simpa using hstepped
  | deliver p =>
    obtain ⟨sender, send, receiver, hsent, harrived, rfl⟩ := step_deliver hstep
    obtain ⟨taken, inside, hforth⟩ := hdirections p
    obtain ⟨taken', inside', hback⟩ := hdirections p.other
    refine ⟨forall_side p ?_ ?_, forall_side p ?_ ?_⟩
    · have hsent' : (x.nodes.get p).step .transmit = some sender := by
        simp [MessageNode.step, hsent]
      simpa using (hcorrelated p).step rfl hsent'
    · have harrived' : (x.nodes.get p.other).step (.arrive (.ok send.bytes)) = some receiver :=
        harrived
      simpa using (hcorrelated p.other).step rfl harrived'
    · obtain ⟨-, hcapacity, hsize⟩ := (hconfigured p).bounds
      obtain ⟨_, hsq, -⟩ := transmit_eq_some hsent
      obtain ⟨_, hframe⟩ := hforth.framed send (by
        rw [hforth.passes.posted, hsq]
        exact mem_append_right _ mem_cons_self)
      have hnext := hforth.passes.deliver hsent harrived
      have haccounts := hforth.accounts.arrive hframe hcapacity hsize harrived
      refine ⟨taken, inside ++ [send], ?_, ?_⟩
      · simpa [Passes] using hnext
      · simpa [append_assoc] using haccounts
    · have hpasses := hback.passes
      have haccounts := hback.accounts
      simp only [Passes, Side.other_other] at hpasses haccounts
      have hnext := hpasses.delivered harrived hsent
      refine ⟨taken', inside', ?_, ?_⟩
      · simpa [Passes] using hnext
      · simpa using haccounts.transmit hsent

theorem ledger_new (e : Endpoint) (peer : Nat) : e.node.view.Ledger peer [] [] [] [] := by
  have hevents : e.node.view.transport.events = [.start] := rfl
  have hnone (kind : Nat) : e.node.view.buffers kind = 0 := by
    simp only [NodeView.buffers]
    split <;> rfl
  have hrecords : e.node.view.Records peer [] :=
    ⟨forall_mem_nil _, rfl, forall_mem_nil _, forall_mem_nil _,
      fun _ _ hmem => absurd hmem not_mem_nil, by simp, by simp⟩
  refine ⟨hrecords, ⟨.inl rfl, fun _ => ⟨rfl, rfl, ?_⟩, forall_mem_nil _, ?_⟩,
    ⟨fun request => ?_, fun _ hpos => absurd hpos (lt_irrefl 0), ?_⟩, hnone, rfl, rfl, rfl,
    rfl, fun hpos => absurd hpos (lt_irrefl 0), rfl⟩
  · simp [hevents, EngineMessageEvent.isRepost]
  · simp [hevents]
  · rw [hevents]
    exact Nat.zero_le 1
  · simp [hevents]

theorem fair_start (ends : Duplex Endpoint) : Fair ends (start ends) := by
  have hdirection (e other : Endpoint) : other.node.Accounts e.recvCount .empty ([] ++ []) :=
    .inl ⟨⟨rfl, rfl, rfl⟩, [], ledger_new other e.recvCount⟩
  refine ⟨fun side => ?_, fun side => ?_⟩
  · cases side <;> exact correlated_new ..
  · cases side with
    | a => exact ⟨[], [], passage_new ends.a ends.b, hdirection ends.a ends.b⟩
    | b => exact ⟨[], [], passage_new ends.b ends.a, hdirection ends.b ends.a⟩

end Exchange

namespace MessageNode

variable {peer : Nat} {n : MessageNode} {log : List PendingProtocolTransition}
  {posted : List PostedSend} {reposted : List Mr} {arrived : List PostedSend}

/-- Credits of send calls and requests whose frame is not posted. -/
def unpostedCredits (n : MessageNode) : Nat :=
  n.acquired + n.view.transport.requests.countP (·.credit) +
    (sendLoad (·.carries frameData)).of n.view

/-- Messages that were received and whose buffer is not reposted. -/
def unrepostedMessages (n : MessageNode) : Nat :=
  n.msg.received.length + n.held.length + n.msg.events.countP (·.isRepost) +
    (bufferLoad frameData).of n.view

/-- Credits that are to be returned: counted, to be counted when a receipt is
taken, or in a CREDIT frame that is not posted. -/
def pendingReturns (n : MessageNode) : Nat :=
  n.msg.pendingCreditReturns +
    (creditLoad fun id => n.msg.pendingProtocolTransitions.lookup id).of n.view

theorem buffers_frameData (n : MessageNode) : n.view.buffers frameData =
      n.view.frames.countP (·.carries frameData) + n.unrepostedMessages := by
  rw [NodeView.buffers, if_pos rfl, unrepostedMessages]
  change n.msg.received.length + n.held.length + n.msg.events.countP _ + _ + _ = _
  omega

/-- A receipt on its way finds its transition. -/
theorem lookup_receipt (halive : n.msg.Alive) (hcorrelated : n.Correlated)
    (hrecords : n.view.Records peer log) {id : Nat} {d : IoSubmissionDisposition}
    (hmem : .submission id d ∈ n.view.notices) :
    n.msg.pendingProtocolTransitions.lookup id = log[id]? := by
  obtain ⟨-, horder⟩ := hcorrelated.order.opened halive.admission
  have hreceipt {events : List IoEvent} (h : .submission id d ∈ events) :
      id ∈ receiptIds events := mem_filterMap.mpr ⟨_, h, rfl⟩
  have hids : id ∈ n.msg.pendingProtocolTransitions.map Prod.fst := by
    change id ∈ n.msg.receiptView.transitions
    rw [← horder]
    simp only [NodeView.notices, mem_append] at hmem ⊢
    rcases hmem with (hmem | hmem) | hmem
    · exact .inl (.inl (.inl (hreceipt hmem)))
    · exact .inl (.inl (.inr (hreceipt hmem)))
    · obtain ⟨entry, hentry, hpublished⟩ := mem_flatMap.mp hmem
      refine .inl (.inr (mem_flatMap.mpr ⟨entry, hentry, ?_⟩))
      cases entry with
      | command => cases hpublished
      | publication => exact hreceipt hpublished
  cases hlookup : n.msg.pendingProtocolTransitions.lookup id with
  | none =>
    obtain ⟨p, hp, rfl⟩ := mem_map.mp hids
    have hne := lookup_eq_none_iff.mp hlookup p hp
    simp at hne
  | some transition =>
    obtain ⟨_, _, hsplit, -⟩ := lookup_eq_some_iff.mp hlookup
    refine (hrecords.transitions (id, transition) ?_).symm
    change (id, transition) ∈ n.msg.pendingProtocolTransitions
    rw [hsplit]
    simp

end MessageNode

namespace Exchange

variable {ends : Duplex Endpoint} {x : Exchange}

/-- The credits of the direction from the side to its peer. -/
def credits (x : Exchange) (side : Side) : Nat :=
  let sender := x.nodes.get side
  let receiver := x.nodes.get side.other
  let framesInFlight := sender.sq.countP (·.context.carries frameData) +
    receiver.view.frames.countP (·.carries frameData)
  let returnsInFlight := (receiver.sq.map PostedSend.credits).sum + sender.view.credited
  sender.msg.remoteCredits + sender.unpostedCredits + framesInFlight +
    receiver.unrepostedMessages + (receiver.pendingReturns + returnsInFlight)

/-- In every run in which admission resolves a command by itself only while the
reactor is quiet, the credits of each direction are the capacity that the receiver
announced, in every state in which both sides are ready. -/
theorem credits_conserved (ends : Duplex Endpoint) (hconfigured : ∀ s, (ends.get s).Configured)
    (trace : List ConversationLabel) (x : Exchange)
    (hresolves : Machine.Along step (fun x l => x.resolvesInOrder l = true) (start ends) trace)
    (hrun : Machine.run step (start ends) trace = some x)
    (hready : ∀ s, (x.nodes.get s).msg.state = .ready) (side : Side) : x.credits side =
    (ends.get side.other).recvCount := by
  have hfair : Fair ends x :=
    Machine.run_invariant (fun _ _ _ h hl hstep => h.step hconfigured hl hstep)
      (fair_start ends) hresolves hrun
  obtain ⟨hcorrelated, hdirections⟩ := hfair
  obtain ⟨taken, inside, hforth⟩ := hdirections side
  obtain ⟨taken', inside', hback⟩ := hdirections side.other
  have hlive (s : Side) : ¬ (x.nodes.get s).msg.Dead := fun hdead => by
    have hclosing := hdead.state
    rw [hready s] at hclosing
    cases hclosing
  have haccounts := hback.accounts
  rw [Side.other_other] at haccounts
  obtain ⟨halive, log, hreceiver⟩ := hforth.accounts.resolve_right fun h => hlive _ h.1
  obtain ⟨-, _, hsender⟩ := haccounts.resolve_right fun h => hlive _ h.1
  have hbalance := hsender.balance_of_ready (hready side)
  have hflight := hsender.flight
  have hbuffers := hreceiver.buffers frameData
  have hreturns := hreceiver.returns
  have hpending : (x.nodes.get side.other).pendingReturns =
      (x.nodes.get side.other).view.returns (log[·]?) := by
    rw [pendingReturns, creditLoad_congr fun id d hmem =>
      lookup_receipt halive (hcorrelated side.other) hreceiver.records hmem]
    rfl
  have hstored := (x.nodes.get side.other).buffers_frameData
  have hposted : (x.journals.get side).posted.countP (·.context.carries frameData) =
      (taken ++ inside).countP (·.context.carries frameData) +
        (x.nodes.get side).sq.countP (·.context.carries frameData) := by
    rw [hforth.passes.posted, countP_append]
  have hcredits : ((x.journals.get side.other).posted.map PostedSend.credits).sum =
      ((taken' ++ inside').map PostedSend.credits).sum +
        ((x.nodes.get side.other).sq.map PostedSend.credits).sum := by
    rw [hback.passes.posted, map_append, sum_append]
  simp only [credits, hpending, unpostedCredits]
  change (x.nodes.get side).view.transport.available +
    ((x.nodes.get side).view.acquired + _ + _) + _ + _ + _ = _
  omega

section Traces

open Conversation (twin on answered submitted confirmed delivered exchange)
open MessageNode (driveGranted serviceAccepted)

theorem credits_conserved_exchange : ((Machine.run step (start ⟨twin, twin⟩) exchange).map fun x =>
        (x.nodes.a.msg.state, x.nodes.b.msg.state)) = some (.ready, .ready) ∧
      ∀ x, Machine.run step (start ⟨twin, twin⟩) exchange = some x →
        ∀ side, x.credits side = 1 := by
  have hstates : ((Machine.run step (start ⟨twin, twin⟩) exchange).map fun x =>
      (x.nodes.a.msg.state, x.nodes.b.msg.state)) = some (.ready, .ready) := by
    decide +kernel
  refine ⟨hstates, fun x hrun side => ?_⟩
  rw [hrun] at hstates
  obtain ⟨ha, hb⟩ := Prod.mk.inj (Option.some.inj hstates)
  have hcredits := credits_conserved ⟨twin, twin⟩
    (forall_side .a twin_configured twin_configured) exchange x (by decide +kernel) hrun
    (forall_side .a ha hb) side
  cases side <;> exact hcredits

/-- The second side drops the message that it received; its repost is with the
reactor when a send behind it is cancelled. -/
def overtakenReturn : List ConversationLabel :=
  answered ++ delivered .a ++ on .b submitted ++ on .a confirmed ++ on .b confirmed ++
    on .a ([.sendAcquire, .sendEnqueue [7]] ++ submitted) ++ delivered .a ++
    on .b ([driveGranted, .recv, .dropMessage 0, driveGranted, driveGranted, .sendAcquire,
      .sendEnqueue [9], driveGranted, .sendCancel 0, driveGranted, driveGranted,
      driveGranted] ++ serviceAccepted ++ [driveGranted])

/-- The only credit of the first side is gone while both sides are ready. -/
theorem overtakenReturn_loses_credit :
    ((Machine.run step (start ⟨twin, twin⟩) overtakenReturn).map fun x =>
        (x.credits .a, x.nodes.a.msg.state, x.nodes.b.msg.state)) =
      some (0, .ready, .ready) ∧ twin.recvCount = 1 := by
  decide +kernel

end Traces

end Exchange

namespace MessageNode

variable {n n' : MessageNode} {l : NodeLabel}

theorem service_sq {terminalError : Option Error} {outcome : PostOutcome} {room : Nat}
    (hstep : n.service terminalError outcome room = some n') :
    n'.sq = n.sq ∨ ∃ command queue, n.queue = .command command :: queue ∧
      n'.sq = n.sq ++ command.batch.posts := by
  cases service_serviced hstep with
  | publication => exact .inl rfl
  | @command command queue _ hqueue hserved =>
    cases hserved with
    | lost | cancelled | rejected => exact .inl rfl
    | posted =>
      refine .inr ⟨command, queue, hqueue, ?_⟩
      exact congrArg NodeView.sq (view_post { n with queue } command)

/-- Only the service of a command posts a send. -/
theorem sq_of_step (hservice : ∀ terminalError outcome room, l ≠ .service terminalError outcome room)
    (hlocal : l.isLocal = true) (hstep : n.step l = some n') : n'.sq = n.sq := by
  cases l with
  | service => exact absurd rfl (hservice _ _ _)
  | transmit => cases hlocal
  | sendCancel | close | finishClose | deadline | driverDrop | publish | terminate =>
    exact Option.some.inj hstep ▸ rfl
  | drive =>
    obtain ⟨_, _, -, rfl⟩ := drive_eq_some hstep
    rfl
  | sendAcquire | sendAbandon | sendEnqueue | recv | dropMessage | arrive | complete | reap
  | dispatch =>
    simp only [step, sendAcquire, sendAbandon, sendEnqueue, recv, dropMessage, arrive,
      complete, reap, dispatch] at hstep
    repeat' split at hstep
    all_goals first | cases hstep; done | exact Option.some.inj hstep ▸ rfl

end MessageNode

/-- A posted frame is of one kind. -/
theorem length_eq_kinds {sends : List PostedSend} (h : ∀ send ∈ sends, send.context ≠ .receive) :
    sends.length = sends.countP (·.context.carries frameHello) +
      sends.countP (·.context.carries frameData) +
      sends.countP (·.context.carries frameCredit) := by
  induction sends with
  | nil => rfl
  | cons send _ ih =>
    have hrest := ih fun other hother => h other (mem_cons_of_mem _ hother)
    have hone : (if send.context.carries frameHello then 1 else 0) +
        (if send.context.carries frameData then 1 else 0) +
        (if send.context.carries frameCredit then 1 else 0) = 1 := by
      have hfirst := h send mem_cons_self
      cases hcontext : send.context with
      | receive => exact absurd hcontext hfirst
      | helloSend | send | controlSend => rfl
    rw [length_cons, countP_cons, countP_cons, countP_cons]
    omega

/-- A reposted buffer holds one frame at most. -/
theorem kinds_le_length (buffers : List Mr) :
    buffers.countP (·.holds frameHello) + buffers.countP (·.holds frameData) +
      buffers.countP (·.holds frameCredit) ≤ buffers.length := by
  induction buffers with
  | nil => exact le_refl _
  | cons _ _ ih =>
    simp only [length_cons, countP_cons, Mr.holds, beq_iff_eq, frameHello, frameData,
      frameCredit] at ih ⊢
    split_ifs <;> omega

/-- Every CREDIT frame brings a credit. -/
theorem countP_credit_le {enqueued : List (List UInt8)} {capacity size : Nat}
    {sends : List PostedSend}
    (h : ∀ send ∈ sends, ∃ frame, Framed enqueued capacity size send frame) :
    sends.countP (·.context.carries frameCredit) ≤ (sends.map PostedSend.credits).sum := by
  induction sends with
  | nil => exact le_refl _
  | cons send _ ih =>
    have hrest := ih fun other hother => h other (mem_cons_of_mem _ hother)
    obtain ⟨_, hframe⟩ := h send mem_cons_self
    rw [countP_cons, map_cons, sum_cons]
    cases hframe with
    | hello hcontext | data hcontext =>
      rw [hcontext]
      exact le_trans hrest (Nat.le_add_left _ _)
    | @credit credits hcontext _ hfits hbytes =>
      have hcredits : send.credits = credits := by
        have hread : send.credits = fromLeBytes (toLeBytes credits) := by
          rw [PostedSend.credits, hcontext, hbytes]
          rfl
        rw [hread, fromLeBytes_toLeBytes, Nat.mod_eq_of_lt hfits]
      rw [hcredits]
      split <;> omega

theorem ProtocolCommand.countP_credit_posts (command : ProtocolCommand) :
    command.batch.posts.countP (·.context.carries frameCredit) =
      if command.context = .controlSend then 1 else 0 := by
  obtain ⟨_, batch⟩ := command
  cases batch with
  | recv => rfl
  | send _ _ context => cases context <;> rfl

namespace Exchange

variable {ends : Duplex Endpoint} {x x' : Exchange}

/-- The reactor of a side serves a CREDIT command only while fewer than
`ctrlRecvCount` CREDIT frames of that side are not reposted by the other. -/
def creditRoom (x : Exchange) : ConversationLabel → Bool
  | .node side (.service _ _ _) =>
    match (x.nodes.get side).queue with
    | .command command :: _ =>
      command.context != .controlSend ||
        decide ((x.journals.get side).posted.countP (·.context.carries frameCredit) <
          (x.journals.get side.other).reposted.countP (·.holds frameCredit) + ctrlRecvCount)
    | _ => true
  | _ => true

/-- Every receive of a side is posted, has failed, or was taken by a frame that
left the other side's send queue. -/
def Received (ends : Duplex Endpoint) (x : Exchange) (side : Side) : Prop :=
  (x.nodes.get side.other).rq.length + (x.journals.get side.other).failed +
      (x.journals.get side).posted.length =
    (ends.get side.other).receives.length + (x.journals.get side.other).reposted.length +
      (x.nodes.get side).sq.length

def Roomy (x : Exchange) (side : Side) : Prop :=
  (x.journals.get side).posted.countP (·.context.carries frameCredit) ≤
    (x.journals.get side.other).reposted.countP (·.holds frameCredit) + ctrlRecvCount

structure Covered (ends : Duplex Endpoint) (x : Exchange) : Prop where
  fair : Fair ends x
  received : ∀ side, Received ends x side
  roomy : ∀ side, x.Roomy side

/-- A side is live or closed. -/
theorem Fair.alive_or_dead (h : Fair ends x) (side : Side) :
    (x.nodes.get side).msg.Alive ∨ (x.nodes.get side).msg.Dead := by
  obtain ⟨_, _, hdirection⟩ := h.2 side
  exact hdirection.passes.sends.imp And.left And.left

/-- What a step of a side posts fits the room for CREDIT frames. -/
theorem countP_credit_posted {p : Side} {label : NodeLabel} {n : MessageNode}
    (hroom : x.creditRoom (.node p label) = true) (hlocal : label.isLocal = true)
    (hn : (x.nodes.get p).step label = some n) (h : x.Roomy p) :
    ((x.journals.get p).posted ++ n.sq.drop (x.nodes.get p).sq.length).countP
        (·.context.carries frameCredit) ≤
      (x.journals.get p.other).reposted.countP (·.holds frameCredit) + ctrlRecvCount := by
  have hquiet (hsq : n.sq = (x.nodes.get p).sq) :
      ((x.journals.get p).posted ++ n.sq.drop (x.nodes.get p).sq.length).countP
          (·.context.carries frameCredit) ≤
        (x.journals.get p.other).reposted.countP (·.holds frameCredit) + ctrlRecvCount := by
    rw [hsq, drop_length, append_nil]
    exact h
  by_cases hservice : ∃ terminalError outcome room, label = .service terminalError outcome room
  · obtain ⟨terminalError, outcome, room, rfl⟩ := hservice
    rcases service_sq hn with hsq | ⟨command, queue, hqueue, hsq⟩
    · exact hquiet hsq
    · rw [hsq, drop_left, countP_append]
      simp only [creditRoom, hqueue, Bool.or_eq_true, bne_iff_ne, decide_eq_true_eq] at hroom
      have hone := command.countP_credit_posts
      unfold Roomy at h
      rcases hroom with hother | hfree
      · rw [if_neg hother] at hone
        omega
      · split at hone <;> omega
  · apply hquiet
    refine sq_of_step ?_ hlocal hn
    rintro terminalError outcome room rfl
    exact hservice ⟨_, _, _, rfl⟩

theorem Covered.step (hconfigured : ∀ s, (ends.get s).Configured) (h : Covered ends x)
    {l : ConversationLabel} (hresolves : x.resolvesInOrder l = true)
    (hroom : x.creditRoom l = true) (hstep : x.step l = some x') : Covered ends x' := by
  refine ⟨h.fair.step hconfigured hresolves hstep, ?_, ?_⟩
  · cases l with
    | node p =>
      obtain ⟨hlocal, n, hn, rfl⟩ := step_node hstep
      refine forall_side p ?_ ?_
      · obtain ⟨hsq, -⟩ := sq_record (h.fair.alive_or_dead p) hlocal hn
        have hlength := congrArg List.length hsq
        have hold := h.received p
        simp only [Received, get_set_self, get_set_other, Journal.record,
          length_append] at hold hlength ⊢
        omega
      · have hold := h.received p.other
        simp only [Received, Side.other_other, get_set_self, get_set_other,
          Journal.record, length_append, length_drop] at hold ⊢
        omega
    | deliver p =>
      obtain ⟨sender, send, receiver, hsent, harrived, rfl⟩ := step_deliver hstep
      obtain ⟨_, hsq, rfl⟩ := transmit_eq_some hsent
      obtain ⟨_, _, hrq, rfl⟩ := arrive_eq_some harrived
      refine forall_side p ?_ ?_
      · have hold := h.received p
        simp only [Received, hsq, hrq, length_cons] at hold
        simp only [Received, get_set_self, get_set_of_other]
        omega
      · have hold := h.received p.other
        simpa [Received] using hold
  · cases l with
    | node p =>
      obtain ⟨hlocal, n, hn, rfl⟩ := step_node hstep
      refine forall_side p ?_ ?_
      · have hposted := countP_credit_posted hroom hlocal hn (h.roomy p)
        simpa [Roomy, Journal.record] using hposted
      · have hold := h.roomy p.other
        simp only [Roomy, Side.other_other, get_set_self, get_set_other,
          Journal.record, countP_append] at hold ⊢
        omega
    | deliver =>
      obtain ⟨_, _, _, _, _, rfl⟩ := step_deliver hstep
      exact h.roomy

theorem covered_start (ends : Duplex Endpoint) : Covered ends (start ends) := by
  refine ⟨fair_start ends, fun side => ?_, fun side => ?_⟩
  · cases side <;> rfl
  · cases side <;> exact Nat.zero_le _

/-- DATA frames are paid for by credits, CREDIT frames have their room, and a HELLO
is reposted before its peer posts DATA, which any CREDIT frame answers. -/
theorem Covered.frames_le (h : Covered ends x) {side : Side}
    {taken inside taken' inside' : List PostedSend} (hforth : Direction ends x side taken inside)
    (hback : Direction ends x side.other taken' inside') : (x.journals.get side).posted.length ≤
    (x.journals.get side.other).reposted.length +
      ((ends.get side.other).recvCount + ctrlRecvCount) := by
  have hsender := hback.accounts.bounds
  have hreceiver := hforth.accounts.bounds
  rw [Side.other_other] at hsender
  have hlength := length_eq_kinds fun send hsend =>
    (hforth.framed send hsend).elim fun _ hframe => hframe.context_ne
  have hkinds := kinds_le_length (x.journals.get side.other).reposted
  have hcredits := countP_credit_le hforth.framed
  have hroomy := h.roomy side
  have hannounced := hsender.announced
  have hspent := hsender.spent
  have hreturned := hsender.returned
  have htaken := hsender.taken frameData
  have hreturned' := hreceiver.returned
  have hpaid := hback.credits_le
  have harrived := hback.countP_le (·.context.carries frameData)
  unfold Roomy at hroomy
  by_cases hopen : 0 < (x.journals.get side.other).reposted.countP (·.holds frameHello)
  · omega
  · have hnone := mt hreceiver.opened hopen
    have hctrl : 1 ≤ ctrlRecvCount := by decide
    omega

/-- In every run in which receipts come in order and a side posts no third CREDIT
frame while two are not reposted, the receives of each side cover the frames of the
other: in every state, frames that were posted and not reposted are no more than
the receives that were set up, and there is a receive for every frame that has not
arrived, unless one has failed. -/
theorem receives_cover (ends : Duplex Endpoint) (hconfigured : ∀ s, (ends.get s).Configured)
    (trace : List ConversationLabel) (x : Exchange) (hconditions : Machine.Along step
      (fun x l => x.resolvesInOrder l = true ∧ x.creditRoom l = true) (start ends) trace)
    (hrun : Machine.run step (start ends) trace = some x) (side : Side) :
    (x.journals.get side).posted.length ≤ (x.journals.get side.other).reposted.length +
        ((ends.get side.other).recvCount + ctrlRecvCount) ∧
      (x.nodes.get side).sq.length ≤
        (x.nodes.get side.other).rq.length + (x.journals.get side.other).failed := by
  have hcovered : Covered ends x :=
    Machine.run_invariant (fun _ _ _ h hl hstep => h.step hconfigured hl.1 hl.2 hstep)
      (covered_start ends) hconditions hrun
  obtain ⟨_, _, hforth⟩ := hcovered.fair.2 side
  obtain ⟨_, _, hback⟩ := hcovered.fair.2 side.other
  have hframes := hcovered.frames_le hforth hback
  have hreceived := hcovered.received side
  obtain ⟨b, _, -, hrecv, -, hreceives⟩ := (hconfigured side.other).derived
  refine ⟨hframes, ?_⟩
  rw [Received, hreceives, ← hrecv] at hreceived
  omega

section Stalled

open Conversation (twin on answered submitted confirmed delivered exchange)
open MessageNode (driveGranted)

theorem receives_cover_exchange : ((Machine.run step (start ⟨twin, twin⟩) exchange).map fun x =>
        (x.journals.a.posted.length, x.journals.b.reposted.length)) = some (2, 2) ∧
      ∀ x, Machine.run step (start ⟨twin, twin⟩) exchange = some x →
        x.journals.a.posted.length ≤ x.journals.b.reposted.length + (1 + 2) :=
  ⟨by decide +kernel, fun x hrun =>
    (receives_cover ⟨twin, twin⟩ (forall_side .a twin_configured twin_configured)
      exchange x (by decide +kernel) hrun .a).1⟩

/-- An endpoint with three receive buffers for data. -/
def wide : Endpoint :=
  { twin with
    recvCount := 3
    receives := [⟨5, []⟩, ⟨6, []⟩, ⟨7, []⟩, ⟨8, []⟩, ⟨9, []⟩] }

theorem wide_configured : wide.Configured :=
  ⟨⟨3, 1, 16, 10 ^ 9, none⟩, ⟨⟨4, 5⟩, 1, 3, 16, 28, 10 ^ 9⟩, by decide +kernel, rfl, rfl, rfl⟩

/-- The first side drops a message and returns its credit in a frame of its own,
which reaches the other side's queue pair. -/
def returnedAtOnce : List ConversationLabel :=
  on .a ([driveGranted, .recv, .dropMessage 0] ++ submitted ++ submitted) ++ [.deliver .a] ++
    on .a confirmed

/-- The second side sends three messages and its driver then runs no more; the first
side returns the credits one by one and sends a message. -/
def stalledDriver : List ConversationLabel :=
  answered ++ delivered .a ++ on .b submitted ++ on .a confirmed ++ on .b confirmed ++
    (on .b ([.sendAcquire, .sendEnqueue [7]] ++ submitted) ++ [.deliver .b] ++ on .b confirmed ++
      on .b ([.sendAcquire, .sendEnqueue [7]] ++ submitted) ++ [.deliver .b] ++ on .b confirmed ++
      on .b ([.sendAcquire, .sendEnqueue [7]] ++ submitted) ++ [.deliver .b] ++
      on .b confirmed) ++
    (on .a [.reap, .dispatch, .publish] ++ returnedAtOnce ++ on .a [.reap, .dispatch, .publish] ++
      returnedAtOnce ++ on .a [.reap, .dispatch, .publish] ++ returnedAtOnce) ++
    on .a ([.sendAcquire, .sendEnqueue [9]] ++ submitted)

/-- Five frames are posted and one is reposted, against three receives; the last
frame finds none. -/
theorem stalledDriver_exhausts_receives :
    wide.Configured ∧ twin.Configured ∧ twin.recvCount + ctrlRecvCount = 3 ∧
      ((Machine.run step (start ⟨wide, twin⟩) stalledDriver).map fun x =>
        (x.journals.a.posted.length, x.journals.b.reposted.length, x.nodes.a.sq.length,
          x.nodes.b.rq.length, x.journals.b.failed)) = some (5, 1, 1, 0, 0) :=
  ⟨wide_configured, twin_configured, rfl, by decide +kernel⟩

end Stalled

end Exchange

end RdmaIo.Message
