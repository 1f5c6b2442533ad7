/-
`CreditRingTransport`: a ring transport whose sender holds one credit for every
message slot of the receiver and gets credits back by Send-with-Imm messages
that carry the receiver's absolute count of freed slots.

As in the read ring, a call takes the outcomes of the posts it makes and the
script of its polls.  The queue pair is part of the state: a post appends to it.
-/
import RdmaIo.Ring.SendLog

namespace RdmaIo

structure CreditRingConfig where
  ringCapacity : Nat
  maxMessageSize : Nat
  maxInFlight : Option Nat
deriving Repr, DecidableEq

def creditRingSqHeadroom : Nat := 2

/-- What is posted on the queue pair of a transport. -/
structure RingQp where
  /-- Requests not yet arrived at the peer. -/
  wire : List SendWr
  /-- Requests not yet completed. -/
  sq : List SendWr
  /-- Doorbell receives not yet consumed. -/
  doorbells : Nat
deriving Repr, DecidableEq

def RingQp.post (qp : RingQp) (wr : SendWr) : RingQp :=
  { qp with wire := qp.wire ++ [wr], sq := qp.sq ++ [wr] }

structure CreditRing where
  config : CreditRingConfig
  peerDisconnected : Bool
  virtualIdxMap : VirtualIdxMap
  nextVirtIdx : Nat
  maxOutstanding : Nat
  recvArrivalSeq : Nat
  recvStash : List RecvCompletion
  remoteCredits : Nat
  /-- Last freed count received from the peer, a `u32`. -/
  remoteFreedReceived : Nat
  localFreedCredits : Nat
  creditsSent : Nat
  sendInFlight : Nat
  sqCapacity : Nat
  qp : RingQp
  sendRing : RingBuffer
  recvRing : RingBuffer
  remoteCapacity : Nat
  remoteWriteTail : Nat
  recvTracker : CompletionTracker
deriving Repr, DecidableEq

/-- Outcomes of the posts made while one receive completion is handled: the
doorbell repost and the credit Send. -/
structure RecvPosts where
  repost : Bool
  credit : Bool
deriving Repr, DecidableEq

namespace CreditRing

def fromParts (config : CreditRingConfig) (remoteCapacity maxOutstanding : Nat) : CreditRing where
  config := config
  peerDisconnected := false
  virtualIdxMap := List.replicate maxOutstanding none
  nextVirtIdx := 0
  maxOutstanding := maxOutstanding
  recvArrivalSeq := 0
  recvStash := []
  remoteCredits := maxOutstanding
  remoteFreedReceived := 0
  localFreedCredits := 0
  creditsSent := 0
  sendInFlight := 0
  sqCapacity := maxOutstanding + creditRingSqHeadroom
  qp := { wire := [], sq := [], doorbells := maxOutstanding }
  sendRing := RingBuffer.new config.ringCapacity
  recvRing := RingBuffer.new config.ringCapacity
  remoteCapacity := remoteCapacity
  remoteWriteTail := 0
  recvTracker := CompletionTracker.new maxOutstanding

def creditWr (freed : Nat) : SendWr :=
  { kind := .credit, wrId := wrIdCreditFlag ||| freed % 2 ^ 64,
    imm := freed % 2 ^ 32, remoteOffset := 0, payload := [] }

variable (s : CreditRing)

/-- Post the absolute freed count if it is news and the send queue has room. -/
def flushCredits (post : Bool) : CreditRing × Except TransportError Unit :=
  if s.localFreedCredits > s.creditsSent ∧ s.sendInFlight < s.sqCapacity then
    if post then
      ({ s with
          qp := s.qp.post (creditWr s.localFreedCredits)
          creditsSent := s.localFreedCredits
          sendInFlight := s.sendInFlight + 1 }, .ok ())
    else (s, .error .verbs)
  else (s, .ok ())

/-- Release a tracker slot; credits go back for contiguous advances only. -/
def releaseSlot (slot : Nat) (post : Bool) : CreditRing × Except TransportError Unit :=
  let (tracker, contiguous) := s.recvTracker.release slot
  let s := { s with recvTracker := tracker }
  if contiguous > 0 then
    { s with localFreedCredits := s.localFreedCredits + contiguous
      }.flushCredits post
  else (s, .ok ())

/-- A credit update: the freed count is taken if it is at most
`max_outstanding` ahead, modulo 2^32. -/
def creditUpdate (freedCount : Nat) : CreditRing :=
  let delta := (freedCount + 2 ^ 32 - s.remoteFreedReceived) % 2 ^ 32
  if delta > 0 ∧ delta ≤ s.maxOutstanding then
    { s with
      remoteCredits := s.remoteCredits + delta
      remoteFreedReceived := freedCount }
  else s

def repostDoorbell : CreditRing :=
  { s with qp := { s.qp with doorbells := s.qp.doorbells + 1 } }

/-- A padding arrival takes a slot and is released at once. -/
def recvPadding (post : Bool) : CreditRing × Except TransportError Unit :=
  { s with recvArrivalSeq := s.recvArrivalSeq + 1 }.releaseSlot
    (s.recvArrivalSeq % s.maxOutstanding) post

/-- A data arrival is entered under virtual index `virtIdx`. -/
def recvData (virtIdx offset length : Nat) : CreditRing :=
  { s with
    recvArrivalSeq := s.recvArrivalSeq + 1
    virtualIdxMap :=
      s.virtualIdxMap.set virtIdx (some (offset, length, s.recvArrivalSeq))
    nextVirtIdx := (virtIdx + 1) % s.maxOutstanding }

def dead : CreditRing :=
  { s with peerDisconnected := true }

/-- Handling one completion: go on, possibly without having kept the message,
or stop with an error. -/
inductive RecvStep where
  | next (delivered : Option RecvCompletion) (kept credits : Bool)
  | stop (error : TransportError)

/-- One completion of the inline credit drain. -/
def drainOne (wc : WorkCompletion) (posts : RecvPosts) : CreditRing × RecvStep :=
  if !wc.isSuccess then (s.dead, .stop (.workCompletion wc.status wc.vendorErr))
  else
    match wc.opcode with
    | .recvRdmaWithImm =>
      let (offset, length) := decodeRingImm wc.immData
      if length = 0 then
        if posts.repost then
          match s.repostDoorbell.recvPadding posts.credit with
          | (s, .ok ()) => (s, .next none true false)
          | (s, .error e) => (s.dead, .stop e)
        else (s.dead, .stop .verbs)
      else
        match findVirtIdx s.virtualIdxMap s.maxOutstanding s.maxOutstanding s.nextVirtIdx with
        | some virtIdx =>
          ({ s.recvData virtIdx offset length with
            recvStash := s.recvStash ++ [⟨virtIdx, length⟩] },
            .next none true false)
        | none => (s, .next none false false)
    | .recv =>
      let s := if wc.withImm then s.creditUpdate wc.immData else s
      if posts.repost then (s.repostDoorbell, .next none true false)
      else (s.dead, .stop .verbs)
    | .other => (s, .next none true false)

/-- The inline drain over one batch: stops silently at the first failure;
returns the completions whose messages it dropped. -/
def drainBatch (s : CreditRing) :
    List (WorkCompletion × RecvPosts) → CreditRing × List WorkCompletion
  | [] => (s, [])
  | (wc, posts) :: rest =>
    match s.drainOne wc posts with
    | (s, .stop _) => (s, wc :: rest.map Prod.fst)
    | (s, .next _ kept _) =>
      let (s, lost) := s.drainBatch rest
      (s, if kept then lost else wc :: lost)

/-- `drain_recv_credits`: one non-blocking pass over at most eight completions;
returns the queue left over and the completions dropped. -/
def drainRecvCredits (cq : List WorkCompletion) (drain : Except TransportError (List RecvPosts)) :
    CreditRing × List WorkCompletion × List WorkCompletion :=
  match drain with
  | .error _ => (s.dead, cq, [])
  | .ok posts =>
    let batch := cq.zip (posts.take 8)
    let (s, lost) := s.drainBatch batch
    (s, cq.drop batch.length, lost)

structure SendOutcome where
  result : Except TransportError Nat
  inner : CreditRing
  cq : List WorkCompletion
  lost : List WorkCompletion

/-- Length of the message that a send of `totalLen` bytes posts. -/
def dataLen (totalLen : Nat) : Nat :=
  min (min (min totalLen s.config.maxMessageSize) s.remoteCapacity) 0xFFFF

variable (bufs : List (List UInt8))

theorem dataLen_spec : s.dataLen (bufs.map List.length).sum < 2 ^ 16 ∧
      (gatherInto (s.dataLen (bufs.map List.length).sum) bufs).length =
        s.dataLen (bufs.map List.length).sum := by
  rw [gatherInto_length]
  unfold dataLen
  omega

/-- Post the data Write for the reserved bytes. -/
def postData (dataLen padding : Nat)
    (post : WrKind → Bool) : CreditRing × Except TransportError Nat :=
  if post .data then
    ({ s with
        qp := s.qp.post (dataWr s.remoteWriteTail dataLen padding bufs)
        remoteWriteTail := (s.remoteWriteTail + dataLen) % s.remoteCapacity
        remoteCredits := s.remoteCredits - 1
        sendInFlight := s.sendInFlight + 1 }, .ok dataLen)
  else (s, .error .verbs)

/-- The part of `send_gather` after the credit gate. -/
def sendWithCredit (post : WrKind → Bool) : CreditRing × Except TransportError Nat :=
  let dataLen := s.dataLen (bufs.map List.length).sum
  if s.sendInFlight + 2 > s.sqCapacity then (s, .ok 0)
  else
    match s.sendRing.reserve dataLen with
    | none => (s, .ok 0)
    | some (ring, localOffset, padding) =>
      if padding > 0 then
        if s.remoteCredits < 2 then
          -- roll the reserve back
          let tail :=
            if localOffset = 0 then ring.capacity - padding else localOffset
          ({ s with sendRing := { ring with tail } }, .ok 0)
        else if post .padding then
          { s with
            sendRing := ring
            qp := s.qp.post (paddingWr s.remoteWriteTail)
            remoteCredits := s.remoteCredits - 1
            sendInFlight := s.sendInFlight + 1
            remoteWriteTail := 0 }.postData bufs dataLen padding post
        else ({ s with sendRing := ring }, .error .verbs)
      else { s with sendRing := ring }.postData bufs dataLen padding post

/-- The state after a send of `len` bytes behind `padding` bytes. -/
def sent (ring : RingBuffer) (len padding : Nat) : CreditRing :=
  let wrs := sentWrs s.remoteWriteTail len padding bufs
  { s with
    sendRing := ring
    qp := { s.qp with wire := s.qp.wire ++ wrs, sq := s.qp.sq ++ wrs }
    remoteWriteTail := (writeAt s.remoteWriteTail padding + len) % s.remoteCapacity
    remoteCredits := s.remoteCredits - wrs.length
    sendInFlight := s.sendInFlight + wrs.length }

/-- What `send_gather` does once it holds a credit: nothing; stop at a failed
Write, with at most the padding posted; or send, for one credit per Write. -/
theorem sendWithCredit_spec {s : CreditRing} (hplaced : s.sendRing.Placed)
    (hcredit : 0 < s.remoteCredits) (bufs : List (List UInt8)) (post : WrKind → Bool) :
    (s.sendWithCredit bufs post).1 = s ∨
      (post .padding = false ∨ post .data = false) ∧
        ((s.sendWithCredit bufs post).1.qp.wire = s.qp.wire ∨
          (s.sendWithCredit bufs post).1.qp.wire = s.qp.wire ++ [paddingWr s.remoteWriteTail]) ∨
      ∃ ring offset padding, s.sendRing.reserve (s.dataLen (bufs.map List.length).sum) =
          some (ring, offset, padding) ∧
        (padWrs s.remoteWriteTail padding).length + 1 ≤ s.remoteCredits ∧
        (s.sendWithCredit bufs post).1 =
          s.sent bufs ring (s.dataLen (bufs.map List.length).sum) padding := by
  unfold sendWithCredit
  simp only
  split
  · exact .inl rfl
  split
  · exact .inl rfl
  rename_i ring offset padding hreserve
  split
  · rename_i hpad
    split
    · -- the rollback restores the tail from which the wrap was reserved
      left
      rw [RingBuffer.rollback (hplaced.reserve hreserve).1 hreserve hpad]
    · rename_i htwo
      split
      · cases hdata : post .data with
        | false =>
          refine .inr (.inl ⟨.inr rfl, .inr ?_⟩)
          simp [postData, hdata, RingQp.post]
        | true =>
          refine .inr (.inr ⟨ring, offset, padding, hreserve, ?_, ?_⟩)
          · simp only [padWrs, hpad, if_true, List.length_singleton]
            omega
          · simp [postData, hdata, RingQp.post, sent, sentWrs, padWrs, writeAt, hpad]
            omega
      · rename_i hfail
        exact .inr (.inl ⟨.inl (by simpa using hfail), .inl rfl⟩)
  · rename_i hpad
    cases hdata : post .data with
    | false =>
      exact .inr (.inl ⟨.inr rfl, .inl (by simp [postData, hdata])⟩)
    | true =>
      refine .inr (.inr ⟨ring, offset, padding, hreserve, ?_, ?_⟩)
      · simp only [padWrs, hpad, if_false, List.length_nil]
        omega
      · simp [postData, hdata, RingQp.post, sent, sentWrs, padWrs, writeAt, hpad]

def sendGather (post : WrKind → Bool)
    (cq : List WorkCompletion) (drain : Except TransportError (List RecvPosts)) :
    SendOutcome :=
  if s.peerDisconnected then
    ⟨.error (.workCompletion ibvWcWrFlushErr 0), s, cq, []⟩
  else if (bufs.map List.length).sum = 0 then ⟨.ok 0, s, cq, []⟩
  else if s.remoteCredits = 0 then
    let (s, cq, lost) := s.drainRecvCredits cq drain
    if s.remoteCredits = 0 then ⟨.ok 0, s, cq, lost⟩
    else
      let (s, result) := s.sendWithCredit bufs post
      ⟨result, s, cq, lost⟩
  else
    let (s, result) := s.sendWithCredit bufs post
    ⟨result, s, cq, []⟩

/-- Account for one successful send completion. -/
def sendDone (wrId : Nat) : CreditRing :=
  let sendRing :=
    if wrId &&& wrIdCreditFlag ≠ 0 then s.sendRing
    else if wrId = wrIdPaddingSentinel then s.sendRing
    else if wrId > 0 ∧ wrId ≤ s.sendRing.capacity then s.sendRing.release wrId
    else s.sendRing
  { s with sendRing, sendInFlight := s.sendInFlight - 1 }

def processSendCompletions (s : CreditRing) :
    List WorkCompletion → CreditRing × Except TransportError Unit
  | [] => (s, .ok ())
  | wc :: wcs =>
    if wc.isSuccess then (s.sendDone wc.wrId).processSendCompletions wcs
    else (s.dead, .error (.workCompletion wc.status wc.vendorErr))

/-- `poll_send_completion`: one poll (`none` is pending), then a deferred credit
update if there is one. -/
def pollSendCompletion (cq : List WorkCompletion) (poll : Option (Except TransportError Nat))
    (post : Bool) : CreditRing × Option (Except TransportError Unit) × List WorkCompletion :=
  match poll with
  | none => (s, none, cq)
  | some (.error e) => (s, some (.error e), cq)
  | some (.ok n) =>
    let wcs := cq.take (min n 8)
    match s.processSendCompletions wcs with
    | (s, .error e) => (s, some (.error e), cq.drop wcs.length)
    | (s, .ok ()) =>
      match s.flushCredits post with
      | (s, .error e) => (s.dead, some (.error e), cq.drop wcs.length)
      | (s, .ok ()) => (s, some (.ok ()), cq.drop wcs.length)

/-- `drain_send_cq`: poll until a poll returns nothing. -/
def drainSendCq (s : CreditRing) (cq : List WorkCompletion) : List (Except TransportError Nat) →
      CreditRing × Except TransportError Unit × List WorkCompletion
  | [] => (s, .ok (), cq)
  | .error e :: _ => (s, .error e, cq)
  | .ok n :: polls =>
    let wcs := cq.take (min n 8)
    if wcs.isEmpty then (s, .ok (), cq)
    else
      match s.processSendCompletions wcs with
      | (s, .error e) => (s, .error e, cq.drop wcs.length)
      | (s, .ok ()) => s.drainSendCq (cq.drop wcs.length) polls

/-- One receive completion of `poll_recv`. -/
def recvOne (wc : WorkCompletion) (posts : RecvPosts) : CreditRing × RecvStep :=
  if !wc.isSuccess then (s.dead, .stop (.workCompletion wc.status wc.vendorErr))
  else
    match wc.opcode with
    | .recvRdmaWithImm =>
      let (offset, length) := decodeRingImm wc.immData
      if offset ≥ s.recvRing.capacity ∨ length > 0 ∧ offset + length > s.recvRing.capacity then
        (s.dead, .stop (.invalidArg "recv ring offset/length out of bounds"))
      else if length = 0 then
        if posts.repost then
          match s.repostDoorbell.recvPadding posts.credit with
          | (s, .ok ()) => (s, .next none true false)
          | (s, .error _) =>
            (s.dead, .stop (.invalidArg "credit post_send failed"))
        else (s.dead, .stop (.invalidArg "repost_doorbell failed"))
      else
        match findVirtIdx s.virtualIdxMap s.maxOutstanding s.maxOutstanding s.nextVirtIdx with
        | none =>
          (s.dead, .stop (.invalidArg "recv virtual index map exhausted"))
        | some virtIdx =>
          (s.recvData virtIdx offset length, .next (some ⟨virtIdx, length⟩) true false)
    | .recv =>
      let s := if wc.withImm then s.creditUpdate wc.immData else s
      if posts.repost then (s.repostDoorbell, .next none true wc.withImm)
      else (s.dead, .stop (.invalidArg "repost_doorbell failed"))
    | .other => (s, .next none true false)

structure RecvBatchOutcome where
  inner : CreditRing
  out : List RecvCompletion
  gotData : Bool
  gotCredits : Bool
  stop : Option TransportError
  lost : List WorkCompletion

/-- Process a polled batch; deliver while `out` holds fewer than `outLen`
messages, then stash. -/
def recvBatch (outLen : Nat) (s : CreditRing) (out : List RecvCompletion)
    (gotData gotCredits : Bool) : List (WorkCompletion × RecvPosts) → RecvBatchOutcome
  | [] => ⟨s, out, gotData, gotCredits, none, []⟩
  | (wc, posts) :: rest =>
    match s.recvOne wc posts with
    | (s, .stop e) =>
      ⟨s, out, gotData, gotCredits, some e, wc :: rest.map Prod.fst⟩
    | (s, .next none _ credits) =>
      recvBatch outLen s out gotData (gotCredits || credits) rest
    | (s, .next (some rc) _ credits) =>
      if out.length < outLen then
        recvBatch outLen s (out ++ [rc]) true (gotCredits || credits) rest
      else
        recvBatch outLen { s with recvStash := s.recvStash ++ [rc] } out true
          (gotCredits || credits) rest

structure PollRecvOutcome where
  inner : CreditRing
  ready : Option (Except TransportError (List RecvCompletion))
  sendCq : List WorkCompletion
  cq : List WorkCompletion
  lost : List WorkCompletion

/-- The polling loop of `poll_recv`. -/
def pollRecvLoop (outLen : Nat) (sendCq : List WorkCompletion) (s : CreditRing)
    (out : List RecvCompletion) (cq : List WorkCompletion) :
    List (Except TransportError (List RecvPosts)) → PollRecvOutcome
  | [] => ⟨s, if out.isEmpty then none else some (.ok out), sendCq, cq, []⟩
  | .error e :: _ => ⟨s, some (.error e), sendCq, cq, []⟩
  | .ok posts :: polls =>
    let batch := cq.zip (posts.take 8)
    let r := recvBatch outLen s out false false batch
    let cq := cq.drop batch.length
    match r.stop with
    | some e => ⟨r.inner, some (.error e), sendCq, cq, r.lost⟩
    | none =>
      if !r.out.isEmpty || r.gotData then
        ⟨r.inner, some (.ok r.out), sendCq, cq, []⟩
      else if r.gotCredits then ⟨r.inner, some (.ok []), sendCq, cq, []⟩
      else pollRecvLoop outLen sendCq r.inner r.out cq polls

def pollRecv (outLen : Nat) (sendCq cq : List WorkCompletion)
    (drains : List (Except TransportError Nat)) (post : Bool)
    (polls : List (Except TransportError (List RecvPosts))) : PollRecvOutcome :=
  let out := s.recvStash.take outLen
  let s := { s with recvStash := s.recvStash.drop outLen }
  if out.length ≥ outLen then ⟨s, some (.ok out), sendCq, cq, []⟩
  else
    match s.drainSendCq sendCq drains with
    | (s, .error e, sendCq) => ⟨s.dead, some (.error e), sendCq, cq, []⟩
    | (s, .ok (), sendCq) =>
      match s.flushCredits post with
      | (s, .error e) => ⟨s.dead, some (.error e), sendCq, cq, []⟩
      | (s, .ok ()) => pollRecvLoop outLen sendCq s out cq polls

/-- `repost_recv`; `none` where the source panics on an index not held. -/
def repostRecv (bufIdx : Nat) (posts : RecvPosts) :
    Option (CreditRing × Except TransportError Unit) :=
  match s.virtualIdxMap.getD bufIdx none with
  | none => none
  | some (_, _, arrivalSeq) =>
    let s := { s with virtualIdxMap := s.virtualIdxMap.set bufIdx none }
    some (if posts.repost then
      s.repostDoorbell.releaseSlot (arrivalSeq % s.maxOutstanding) posts.credit
    else (s, .error .verbs))

end CreditRing

end RdmaIo
