/-
`ReadRingInner`: a ring transport whose sender learns the receiver's head by
RDMA Reads of an offset buffer.

A call that posts work takes the outcome of each post as an argument and
returns the requests it posted; a call that polls a completion queue takes the
queue and the script of its polls.
-/
import RdmaIo.Ring.SendLog

namespace RdmaIo

open WorkCompletion (wrId)

structure ReadRingConfig where
  ringCapacity : Nat
  maxMessageSize : Nat
  maxInFlight : Option Nat
  minFreeThreshold : Nat
deriving Repr, DecidableEq

def readRingSqHeadroom : Nat := 3

/-- Padding Write, data Write and RDMA Read of one `send_copy`. -/
def sendCopyMaxWrs : Nat := 3

def wrIdReadSentinel : Nat := 2 ^ 64 - 1 - 30

structure ReadRingInner where
  config : ReadRingConfig
  peerDisconnected : Bool
  virtualIdxMap : VirtualIdxMap
  nextVirtIdx : Nat
  maxOutstanding : Nat
  recvArrivalSeq : Nat
  recvStash : List RecvCompletion
  cachedRemoteHead : Nat
  readInFlight : Bool
  slotLengths : List Nat
  headSlotIdx : Nat
  sendInFlight : Nat
  sqCapacity : Nat
  sendRing : RingBuffer
  recvRing : RingBuffer
  /-- Landing buffer of the offset Read. -/
  readBuf : Nat
  /-- The `AtomicU32` that the peer reads. -/
  offsetBuffer : Nat
  remoteCapacity : Nat
  remoteWriteTail : Nat
  recvTracker : CompletionTracker
  /-- Doorbell receives posted on the queue pair and not yet consumed. -/
  doorbells : Nat
deriving Repr, DecidableEq

structure SendOutcome where
  result : Except TransportError Nat
  inner : ReadRingInner
  posted : List SendWr

namespace ReadRingInner

def fromParts (config : ReadRingConfig) (remoteCapacity maxOutstanding : Nat) : ReadRingInner where
  config := config
  peerDisconnected := false
  virtualIdxMap := List.replicate maxOutstanding none
  nextVirtIdx := 0
  maxOutstanding := maxOutstanding
  recvArrivalSeq := 0
  recvStash := []
  cachedRemoteHead := 0
  readInFlight := false
  slotLengths := List.replicate maxOutstanding 0
  headSlotIdx := 0
  sendInFlight := 0
  sqCapacity := maxOutstanding + readRingSqHeadroom
  sendRing := RingBuffer.new config.ringCapacity
  recvRing := RingBuffer.new config.ringCapacity
  readBuf := 0
  offsetBuffer := 0
  remoteCapacity := remoteCapacity
  remoteWriteTail := 0
  recvTracker := CompletionTracker.new maxOutstanding
  doorbells := maxOutstanding

variable (s : ReadRingInner)

/-- Free space in the remote receive ring, as far as the cached head tells.  The source
subtracts in `usize`: for a head inside the peer's ring no subtraction goes below zero.
Only a peer that breaks the protocol reports a head beyond it, and what is proved about
such a head holds whatever the value is. -/
def remoteFreeSpace : Nat :=
  let used :=
    if s.remoteWriteTail ≥ s.cachedRemoteHead then
      s.remoteWriteTail - s.cachedRemoteHead
    else s.remoteCapacity - s.cachedRemoteHead + s.remoteWriteTail
  s.remoteCapacity - (used + 1)

def readWr : SendWr :=
  { kind := .read, wrId := wrIdReadSentinel, imm := 0, remoteOffset := 0,
    payload := [] }

/-- Backpressure: keep one offset Read in flight and accept nothing. -/
def heartbeat (post : WrKind → Bool) : SendOutcome :=
  if s.readInFlight then ⟨.ok 0, s, []⟩
  else if post .read then ⟨.ok 0, { s with readInFlight := true }, [readWr]⟩
  else ⟨.error .verbs, s, []⟩

/-- The proactive Read after a data post; its failure only marks the peer. -/
def proactiveRead (dataLen : Nat) (post : WrKind → Bool) : ReadRingInner × List SendWr :=
  if !s.readInFlight &&
      decide (s.remoteFreeSpace < dataLen * 2 + s.config.minFreeThreshold) then
    if post .read then ({ s with readInFlight := true }, [readWr])
    else ({ s with peerDisconnected := true }, [])
  else (s, [])

variable (bufs : List (List UInt8))

/-- Post the data Write for the reserved bytes, after `prior` requests. -/
def postData (dataLen padding : Nat) (post : WrKind → Bool) (prior : List SendWr) : SendOutcome :=
  if post .data then
    let remoteOffset := s.remoteWriteTail
    let wr := dataWr remoteOffset dataLen padding bufs
    let s := { s with
      remoteWriteTail := (remoteOffset + dataLen) % s.remoteCapacity
      sendInFlight := s.sendInFlight + 1 }
    let (s, reads) := s.proactiveRead dataLen post
    ⟨.ok dataLen, s, prior ++ [wr] ++ reads⟩
  else ⟨.error .verbs, s, prior⟩

/-- Length of the message that a send of `totalLen` bytes posts. -/
def dataLen (totalLen : Nat) : Nat :=
  min (min (min totalLen s.config.maxMessageSize) s.remoteCapacity) 0xFFFF

def sendGather (post : WrKind → Bool) : SendOutcome :=
  let totalLen := (bufs.map List.length).sum
  let sqUsed := s.sendInFlight + s.readInFlight.toNat
  let free := s.remoteFreeSpace
  let dataLen := s.dataLen totalLen
  if s.peerDisconnected then
    ⟨.error (.workCompletion ibvWcWrFlushErr 0), s, []⟩
  else if totalLen = 0 then ⟨.ok 0, s, []⟩
  else if sqUsed + sendCopyMaxWrs > s.maxOutstanding then s.heartbeat post
  else if free < dataLen + s.config.minFreeThreshold then s.heartbeat post
  else
    match s.sendRing.reserve dataLen with
    | none => ⟨.ok 0, s, []⟩
    | some (ring, localOffset, padding) =>
      if padding > 0 then
        if free < padding + dataLen + s.config.minFreeThreshold then
          -- roll the reserve back
          let tail :=
            if localOffset = 0 then ring.capacity - padding else localOffset
          { s with sendRing := { ring with tail } }.heartbeat post
        else if post .padding then
          { s with
            sendRing := ring
            sendInFlight := s.sendInFlight + 1
            remoteWriteTail := 0 }.postData bufs dataLen padding post
              [paddingWr s.remoteWriteTail]
        else ⟨.error .verbs, { s with sendRing := ring }, []⟩
      else { s with sendRing := ring }.postData bufs dataLen padding post []

theorem heartbeat_spec (post : WrKind → Bool) :
    (∃ reading, (s.heartbeat post).inner = { s with readInFlight := reading }) ∧
      ((s.heartbeat post).posted = [] ∨ (s.heartbeat post).posted = [readWr]) := by
  unfold heartbeat
  split
  · exact ⟨⟨s.readInFlight, rfl⟩, .inl rfl⟩
  split
  · exact ⟨⟨true, rfl⟩, .inr rfl⟩
  · exact ⟨⟨s.readInFlight, rfl⟩, .inl rfl⟩

theorem proactiveRead_spec (len : Nat) (post : WrKind → Bool) :
    (∃ reading dead, (s.proactiveRead len post).1 =
        { s with readInFlight := reading, peerDisconnected := dead }) ∧
      ((s.proactiveRead len post).2 = [] ∨ (s.proactiveRead len post).2 = [readWr]) := by
  unfold proactiveRead
  split
  · split
    · exact ⟨⟨true, s.peerDisconnected, rfl⟩, .inr rfl⟩
    · exact ⟨⟨s.readInFlight, true, rfl⟩, .inl rfl⟩
  · exact ⟨⟨s.readInFlight, s.peerDisconnected, rfl⟩, .inl rfl⟩

/-- A call that posts no Write: it changes nothing but the Read flag. -/
def Quiet (r : SendOutcome) : Prop :=
  (∃ reading, r.inner = { s with readInFlight := reading }) ∧ (r.posted = [] ∨ r.posted = [readWr])

/-- A call that posts a message of `len` bytes after `padding` bytes, both
within the free space, and possibly a Read. -/
def Sends (r : SendOutcome) (ring : RingBuffer) (len padding : Nat) : Prop :=
  len = s.dataLen (bufs.map List.length).sum ∧
  padding + len ≤ s.remoteFreeSpace ∧
  (∃ reading dead sending, r.inner =
    { s with
      sendRing := ring
      remoteWriteTail := (writeAt s.remoteWriteTail padding + len) % s.remoteCapacity
      sendInFlight := sending, readInFlight := reading, peerDisconnected := dead }) ∧
  ∃ reads, (reads = [] ∨ reads = [readWr]) ∧
    r.posted = sentWrs s.remoteWriteTail len padding bufs ++ reads

theorem postData_spec (len padding : Nat) {post : WrKind → Bool} (prior : List SendWr)
    (hdata : post .data = true) : (∃ reading dead, (s.postData bufs len padding post prior).inner =
      { s with
        remoteWriteTail := (s.remoteWriteTail + len) % s.remoteCapacity
        sendInFlight := s.sendInFlight + 1
        readInFlight := reading, peerDisconnected := dead }) ∧
    ∃ reads, (reads = [] ∨ reads = [readWr]) ∧ (s.postData bufs len padding post prior).posted =
        prior ++ [dataWr s.remoteWriteTail len padding bufs] ++ reads := by
  unfold postData
  rw [if_pos hdata]
  obtain ⟨⟨reading, dead, hinner⟩, hreads⟩ := proactiveRead_spec
    { s with
      remoteWriteTail := (s.remoteWriteTail + len) % s.remoteCapacity
      sendInFlight := s.sendInFlight + 1 } len post
  exact ⟨⟨reading, dead, hinner⟩, _, hreads, rfl⟩

/-- A call that stops at a failed Write: at most the padding is posted. -/
def Fails (post : WrKind → Bool) (r : SendOutcome) : Prop :=
  (post .padding = false ∨ post .data = false) ∧
    (r.posted = [] ∨ r.posted = [paddingWr s.remoteWriteTail])

/-- The part of `send_gather` that posts the Writes for reserved bytes. -/
def sendReserved (post : WrKind → Bool) (ring : RingBuffer) (len padding : Nat) : SendOutcome :=
  if padding > 0 ∧ post .padding = false then ⟨.error .verbs, { s with sendRing := ring }, []⟩
  else
    { s with
      sendRing := ring
      sendInFlight := s.sendInFlight + (padWrs s.remoteWriteTail padding).length
      remoteWriteTail := writeAt s.remoteWriteTail padding }.postData bufs len padding post
        (padWrs s.remoteWriteTail padding)

theorem sendReserved_spec {post : WrKind → Bool} (ring : RingBuffer) (len padding : Nat)
    (hpadding : ¬(padding > 0 ∧ post .padding = false)) (hdata : post .data = true) :
    (∃ reading dead, (s.sendReserved bufs post ring len padding).inner =
      { s with
        sendRing := ring
        remoteWriteTail := (writeAt s.remoteWriteTail padding + len) % s.remoteCapacity
        sendInFlight := s.sendInFlight + (sentWrs s.remoteWriteTail len padding bufs).length
        readInFlight := reading, peerDisconnected := dead }) ∧
    ∃ reads, (reads = [] ∨ reads = [readWr]) ∧ (s.sendReserved bufs post ring len padding).posted =
        sentWrs s.remoteWriteTail len padding bufs ++ reads := by
  rw [sendReserved, if_neg hpadding, sentWrs, List.length_append]
  exact postData_spec _ bufs len padding (padWrs s.remoteWriteTail padding) hdata

/-- What a call of `send_gather` comes to, with a message of `len` bytes. -/
inductive SendCase (s : ReadRingInner) (bufs : List (List UInt8)) (post : WrKind → Bool)
    (len : Nat) : SendOutcome → Prop
  | gone (hgone : s.peerDisconnected = true) :
      SendCase s bufs post len ⟨.error (.workCompletion ibvWcWrFlushErr 0), s, []⟩
  | empty (hempty : (bufs.map List.length).sum = 0) : SendCase s bufs post len ⟨.ok 0, s, []⟩
  /-- No room for three requests, or for the message in the remote ring. -/
  | waits (halive : s.peerDisconnected = false)
      (hfull : s.maxOutstanding < s.sendInFlight + s.readInFlight.toNat + sendCopyMaxWrs ∨
        s.remoteFreeSpace < len + s.config.minFreeThreshold ∨
        ∃ ring offset padding, s.sendRing.reserve len = some (ring, offset, padding) ∧
          s.remoteFreeSpace < padding + len + s.config.minFreeThreshold) :
      SendCase s bufs post len (s.heartbeat post)
  | refused (halive : s.peerDisconnected = false) (hrefused : s.sendRing.reserve len = none) :
      SendCase s bufs post len ⟨.ok 0, s, []⟩
  | reserved (ring : RingBuffer) (offset padding : Nat)
      (hroom : s.sendInFlight + s.readInFlight.toNat + sendCopyMaxWrs ≤ s.maxOutstanding)
      (hfree : padding + len ≤ s.remoteFreeSpace)
      (hreserve : s.sendRing.reserve len = some (ring, offset, padding)) :
      SendCase s bufs post len (s.sendReserved bufs post ring len padding)

theorem sendGather_cases {s : ReadRingInner} (hplaced : s.sendRing.Placed)
    (bufs : List (List UInt8)) (post : WrKind → Bool) :
    SendCase s bufs post (s.dataLen (bufs.map List.length).sum) (s.sendGather bufs post) := by
  unfold sendGather
  simp only
  split
  · exact .gone ‹_›
  rename_i hgone
  have halive : s.peerDisconnected = false := by simpa using hgone
  split
  · exact .empty ‹_›
  split
  · exact .waits halive (.inl ‹_›)
  rename_i hroom
  split
  · exact .waits halive (.inr (.inl ‹_›))
  rename_i hfree
  split
  · exact .refused halive ‹_›
  rename_i ring offset padding hreserve
  split
  · rename_i hpad
    split
    · rename_i hwrap
      -- the rollback restores the tail from which the wrap was reserved
      rw [RingBuffer.rollback (hplaced.reserve hreserve).1 hreserve hpad]
      exact .waits halive (.inr (.inr ⟨ring, offset, padding, hreserve, hwrap⟩))
    · have hsend : SendCase s bufs post _ _ := .reserved ring offset padding
        (Nat.le_of_not_lt hroom) (by omega) hreserve
      simp only [sendReserved, padWrs, writeAt, hpad, true_and, if_true] at hsend
      cases hpost : post .padding <;> simpa [hpost] using hsend
  · rename_i hpad
    have hsend : SendCase s bufs post _ _ := .reserved ring offset padding
      (Nat.le_of_not_lt hroom) (by omega) hreserve
    simpa only [sendReserved, padWrs, writeAt, hpad, false_and, if_false, List.length_nil,
      add_zero] using hsend

/-- What `send_gather` does. -/
theorem sendGather_spec {s : ReadRingInner} (hring : s.sendRing.InRing) (bufs : List (List UInt8))
    (post : WrKind → Bool) : s.Quiet (s.sendGather bufs post) ∨
      s.Fails post (s.sendGather bufs post) ∨
      ∃ ring offset len padding, s.sendRing.reserve len = some (ring, offset, padding) ∧
        s.Sends bufs (s.sendGather bufs post) ring len padding := by
  have hcase := sendGather_cases (.inl hring) bufs post
  generalize s.sendGather bufs post = r at hcase ⊢
  cases hcase with
  | gone | empty | refused => exact .inl ⟨⟨s.readInFlight, rfl⟩, .inl rfl⟩
  | waits => exact .inl (heartbeat_spec s post)
  | reserved ring offset padding _ hfree hreserve =>
    right
    by_cases hpadding : padding > 0 ∧ post .padding = false
    · rw [sendReserved, if_pos hpadding]
      exact .inl ⟨.inl hpadding.2, .inl rfl⟩
    cases hdata : post .data with
    | false =>
      refine .inl ⟨.inr hdata, ?_⟩
      simp only [sendReserved, if_neg hpadding, postData, hdata, padWrs,
        Bool.false_eq_true, if_false]
      split
      · exact .inr rfl
      · exact .inl rfl
    | true =>
      obtain ⟨⟨reading, dead, hinner⟩, hposted⟩ :=
        s.sendReserved_spec bufs ring _ padding hpadding hdata
      exact .inr ⟨ring, offset, _, padding, hreserve, rfl, hfree,
        ⟨reading, dead, _, hinner⟩, hposted⟩

/-- Account for one successful send completion. -/
def sendDone (wrId : Nat) : ReadRingInner :=
  if wrId = wrIdReadSentinel then
    { s with cachedRemoteHead := s.readBuf, readInFlight := false }
  else if wrId = wrIdPaddingSentinel then
    { s with sendInFlight := s.sendInFlight - 1 }
  else
    { s with
      sendRing :=
        if wrId > 0 ∧ wrId ≤ s.sendRing.capacity then s.sendRing.release wrId
        else s.sendRing
      sendInFlight := s.sendInFlight - 1 }

/-- Process a polled batch of send completions up to the first failure. -/
def sendBatch (s : ReadRingInner) : List WorkCompletion → ReadRingInner × Except TransportError Unit
  | [] => (s, .ok ())
  | wc :: wcs =>
    if wc.isSuccess then (s.sendDone wc.wrId).sendBatch wcs
    else
      ({ s with peerDisconnected := true }, .error (.workCompletion wc.status wc.vendorErr))

/-- `poll_send_completion`: poll until a batch made progress, the queue is
empty (`none`, pending) or something failed; returns the queue left over. -/
def pollSendCompletion (s : ReadRingInner) (cq : List WorkCompletion) :
    List (Except TransportError Nat) →
      ReadRingInner × Option (Except TransportError Unit) × List WorkCompletion
  | [] => (s, none, cq)
  | .error e :: _ => (s, some (.error e), cq)
  | .ok n :: polls =>
    let wcs := cq.take (min n 8)
    match s.sendBatch wcs with
    | (s, .error e) => (s, some (.error e), cq.drop wcs.length)
    | (s, .ok ()) =>
      if wcs.isEmpty then s.pollSendCompletion (cq.drop wcs.length) polls
      else (s, some (.ok ()), cq.drop wcs.length)

/-- The completions that `poll_send_completion` takes and does not process. -/
def pollSendDropped (cq : List WorkCompletion) :
    List (Except TransportError Nat) → List WorkCompletion
  | [] => []
  | .error _ :: _ => []
  | .ok n :: polls =>
    let wcs := cq.take (min n 8)
    if wcs.isEmpty then pollSendDropped (cq.drop wcs.length) polls
    else unprocessed wcs

section Polling

variable {P : List Nat → ReadRingInner → Prop}
  (hdone : ∀ {id ids s}, P (id :: ids) s → P ids (s.sendDone id))
  (hdead : ∀ {ids} {s : ReadRingInner}, P ids s → P ids { s with peerDisconnected := true })
  {ids : List Nat} {s : ReadRingInner}

include hdone hdead

/-- What every completion and the loss of the peer keep, a batch keeps. -/
theorem sendBatch_keeps {wcs : List WorkCompletion} (h : P (wcs.map wrId ++ ids) s) : P
    ((unprocessed wcs).map wrId ++ ids) (s.sendBatch wcs).1 := by
  induction wcs generalizing s with
  | nil => exact h
  | cons _ wcs ih =>
    rw [sendBatch]
    split
    · rename_i hok
      rw [unprocessed_cons_success wcs hok]
      exact ih (hdone h)
    · rename_i hfail
      rw [unprocessed_cons_failure wcs hfail]
      exact hdead h

theorem pollSendCompletion_keeps (ids : List Nat) (polls : List (Except TransportError Nat))
    {cq : List WorkCompletion} (h : P (cq.map wrId ++ ids) s) : P
    ((pollSendDropped cq polls).map wrId ++
        ((s.pollSendCompletion cq polls).2.2.map wrId ++ ids))
      (s.pollSendCompletion cq polls).1 := by
  induction polls generalizing s cq with
  | nil => exact h
  | cons poll _ ih =>
    cases poll with
    | error => exact h
    | ok n =>
      have hsplit : cq = cq.take (min n 8) ++ cq.drop (cq.take (min n 8)).length := by
        rw [List.length_take]
        rcases le_total (min n 8) cq.length with hle | hge
        · rw [Nat.min_eq_left hle, List.take_append_drop]
        · rw [Nat.min_eq_right hge, List.take_of_length_le hge, List.drop_length, List.append_nil]
      have hbatch : P ((unprocessed (cq.take (min n 8))).map wrId ++
          ((cq.drop (cq.take (min n 8)).length).map wrId ++ ids))
          (s.sendBatch (cq.take (min n 8))).1 := by
        apply sendBatch_keeps hdone hdead
        rw [← List.append_assoc, ← List.map_append, ← hsplit]
        exact h
      simp only [pollSendCompletion, pollSendDropped]
      by_cases hempty : (cq.take (min n 8)).isEmpty = true
      · rw [if_pos hempty]
        rw [List.isEmpty_iff] at hempty
        simp only [hempty, sendBatch, List.isEmpty_nil, if_true, List.length_nil, List.drop_zero]
        exact ih h
      · rw [if_neg hempty]
        split
        · rename_i heq
          rwa [heq] at hbatch
        · rename_i heq
          rw [heq] at hbatch
          simpa only [if_neg hempty] using hbatch

end Polling

/-- Advance the receive head over `contiguous` released slots. -/
def releaseSlots (s : ReadRingInner) : Nat → ReadRingInner
  | 0 => s
  | contiguous + 1 =>
    { s with
      recvRing := s.recvRing.release (s.slotLengths.getD s.headSlotIdx 0)
      headSlotIdx := (s.headSlotIdx + 1) % s.maxOutstanding
      }.releaseSlots contiguous

/-- `advance_recv_head`: advance, then publish the head for the peer's Reads. -/
def advanceRecvHead (contiguous : Nat) : ReadRingInner :=
  let s := s.releaseSlots contiguous
  { s with offsetBuffer := s.recvRing.head % 2 ^ 32 }

/-- Release a tracker slot and advance the head over what became contiguous. -/
def releaseSlot (slot : Nat) : ReadRingInner :=
  let (tracker, contiguous) := s.recvTracker.release slot
  let s := { s with recvTracker := tracker }
  if contiguous > 0 then s.advanceRecvHead contiguous else s

theorem releaseSlots_frame (s : ReadRingInner) (contiguous : Nat) : ∃ recvRing headSlotIdx,
      s.releaseSlots contiguous = { s with recvRing, headSlotIdx } := by
  induction contiguous generalizing s with
  | zero => exact ⟨s.recvRing, s.headSlotIdx, rfl⟩
  | succ _ ih =>
    obtain ⟨recvRing, headSlotIdx, heq⟩ := ih
      { s with
        recvRing := s.recvRing.release (s.slotLengths.getD s.headSlotIdx 0)
        headSlotIdx := (s.headSlotIdx + 1) % s.maxOutstanding }
    exact ⟨recvRing, headSlotIdx, heq⟩

/-- What releasing a slot can change. -/
theorem releaseSlot_frame (slot : Nat) : ∃ recvRing headSlotIdx offsetBuffer recvTracker,
      s.releaseSlot slot =
        { s with recvRing, headSlotIdx, offsetBuffer, recvTracker } := by
  unfold releaseSlot advanceRecvHead
  simp only
  split
  · obtain ⟨_, _, heq⟩ := releaseSlots_frame
      { s with recvTracker := (s.recvTracker.release slot).1 } (s.recvTracker.release slot).2
    rw [heq]
    exact ⟨_, _, _, _, rfl⟩
  · exact ⟨s.recvRing, s.headSlotIdx, s.offsetBuffer, _, rfl⟩

/-- Why a receive batch stops, and whether the completion at hand had already
been entered in the virtual index map. -/
structure RecvStop where
  error : TransportError
  entered : Bool

/-- A padding arrival takes a slot and is released at once. -/
def recvPadding (offset : Nat) : ReadRingInner :=
  let slot := s.recvArrivalSeq % s.maxOutstanding
  { s with
    recvArrivalSeq := s.recvArrivalSeq + 1
    slotLengths := s.slotLengths.set slot (s.recvRing.capacity - offset)
    }.releaseSlot slot

/-- A data arrival is entered under virtual index `virtIdx`. -/
def recvData (virtIdx offset length : Nat) : ReadRingInner :=
  { s with
    recvArrivalSeq := s.recvArrivalSeq + 1
    virtualIdxMap :=
      s.virtualIdxMap.set virtIdx (some (offset, length, s.recvArrivalSeq))
    slotLengths :=
      s.slotLengths.set (s.recvArrivalSeq % s.maxOutstanding) length
    nextVirtIdx := (virtIdx + 1) % s.maxOutstanding }

/-- A doorbell receive was reposted. -/
def repostDoorbell : ReadRingInner :=
  { s with doorbells := s.doorbells + 1 }

/-- One receive completion of `poll_recv`; `repost` is the outcome of reposting
its doorbell. -/
def recvOne (wc : WorkCompletion) (repost : Bool) :
    ReadRingInner × Except RecvStop (Option RecvCompletion) :=
  let dead := { s with peerDisconnected := true }
  if !wc.isSuccess then
    (dead, .error ⟨.workCompletion wc.status wc.vendorErr, false⟩)
  else if wc.opcode ≠ .recvRdmaWithImm then (s, .ok none)
  else
    let (offset, length) := decodeRingImm wc.immData
    if offset ≥ s.recvRing.capacity ∨ length > 0 ∧ offset + length > s.recvRing.capacity then
      (dead, .error ⟨.invalidArg "recv ring offset/length out of bounds", false⟩)
    else if length = 0 then
      if repost then (s.repostDoorbell.recvPadding offset, .ok none)
      else (dead, .error ⟨.invalidArg "repost_doorbell failed", false⟩)
    else
      match findVirtIdx s.virtualIdxMap s.maxOutstanding s.maxOutstanding s.nextVirtIdx with
      | none =>
        (dead, .error ⟨.invalidArg "recv virtual index map exhausted", false⟩)
      | some virtIdx =>
        let s := s.recvData virtIdx offset length
        if repost then (s.repostDoorbell, .ok (some ⟨virtIdx, length⟩))
        else
          ({ s with peerDisconnected := true }, .error ⟨.invalidArg "repost_doorbell failed", true⟩)

/-- Outcome of one polled batch: what went to the caller, whether any data
arrived, the error that stopped it and the completions that the stop lost. -/
structure RecvBatchOutcome where
  inner : ReadRingInner
  out : List RecvCompletion
  gotData : Bool
  stop : Option TransportError
  lost : List WorkCompletion

/-- Process a polled batch; deliver while `out` holds fewer than `outLen`
messages, then stash. -/
def recvBatch (outLen : Nat) (s : ReadRingInner) (out : List RecvCompletion)
    (gotData : Bool) : List (WorkCompletion × Bool) → RecvBatchOutcome
  | [] => ⟨s, out, gotData, none, []⟩
  | (wc, repost) :: rest =>
    match s.recvOne wc repost with
    | (s, .error stop) =>
      let after := rest.map Prod.fst
      ⟨s, out, gotData, some stop.error,
        if stop.entered then after else wc :: after⟩
    | (s, .ok none) => recvBatch outLen s out gotData rest
    | (s, .ok (some rc)) =>
      if out.length < outLen then
        recvBatch outLen s (out ++ [rc]) true rest
      else
        recvBatch outLen { s with recvStash := s.recvStash ++ [rc] } out true rest

/-- Outcome of `poll_recv`; `ready = none` is pending. -/
structure PollRecvOutcome where
  inner : ReadRingInner
  ready : Option (Except TransportError (List RecvCompletion))
  cq : List WorkCompletion
  lost : List WorkCompletion

/-- The polling loop of `poll_recv`.  Each poll fails or returns completions,
one per doorbell repost outcome and at most eight. -/
def pollRecvLoop (outLen : Nat) (s : ReadRingInner) (out : List RecvCompletion)
    (cq : List WorkCompletion) : List (Except TransportError (List Bool)) → PollRecvOutcome
  | [] => ⟨s, if out.isEmpty then none else some (.ok out), cq, []⟩
  | .error e :: _ => ⟨s, some (.error e), cq, []⟩
  | .ok reposts :: polls =>
    let batch := cq.zip (reposts.take 8)
    let r := recvBatch outLen s out false batch
    let cq := cq.drop batch.length
    match r.stop with
    | some e => ⟨r.inner, some (.error e), cq, r.lost⟩
    | none =>
      if !r.out.isEmpty || r.gotData then
        ⟨r.inner, some (.ok r.out), cq, []⟩
      else pollRecvLoop outLen r.inner r.out cq polls

def pollRecv (outLen : Nat) (cq : List WorkCompletion)
    (polls : List (Except TransportError (List Bool))) : PollRecvOutcome :=
  let out := s.recvStash.take outLen
  let s := { s with recvStash := s.recvStash.drop outLen }
  if out.length ≥ outLen then ⟨s, some (.ok out), cq, []⟩
  else pollRecvLoop outLen s out cq polls

/-- `repost_recv`; `none` where the source panics on an index not held. -/
def repostRecv (bufIdx : Nat) : Option ReadRingInner :=
  match s.virtualIdxMap.getD bufIdx none with
  | none => none
  | some (_, _, arrivalSeq) =>
    some ({ s with virtualIdxMap := s.virtualIdxMap.set bufIdx none
      }.releaseSlot (arrivalSeq % s.maxOutstanding))

end ReadRingInner

end RdmaIo
