/-
The send-queue accounts of the ring transports.

One end of a connection with its send queue: the transport posts requests, the network
completes the oldest one with any status, and the transport polls the completions.  A failed
completion stops its batch, so it and those behind it leave the queue without being
processed.  What the peer sends and when a Read lands is left open, and posts may fail.
-/
import RdmaIo.Ring.CreditMoves
import RdmaIo.Ring.ReadRing

namespace RdmaIo

open ReadRingInner
open List

/-- New entries join the ones set aside. -/
theorem perm_reorder {α : Type} (taken left aside rest : List α) :
    (taken ++ (left ++ (aside ++ rest))).Perm (aside ++ taken ++ left ++ rest) := by
  rw [← append_assoc, ← append_assoc, append_assoc aside]
  exact perm_append_comm.append_right _

/-- The completion of a request with a status of the network's choice. -/
def SendWr.completionWith (wr : SendWr) (status vendorErr : Nat) : WorkCompletion :=
  { wr.completion with status, vendorErr }

@[simp] theorem SendWr.wrId_completionWith (wr : SendWr) (status vendorErr : Nat) :
    (wr.completionWith status vendorErr).wrId = wr.wrId := rfl

namespace ReadRingInner

/-- Number of offset Reads among the ids of requests. -/
def reads (ids : List Nat) : Nat :=
  ids.count wrIdReadSentinel

@[simp] theorem reads_append (ids more : List Nat) : reads (ids ++ more) = reads ids + reads more :=
  count_append

theorem reads_le (ids : List Nat) : reads ids ≤ ids.length :=
  count_le_length

/-- From `s` to `t` the transport posts requests with these ids. -/
structure Posts (s : ReadRingInner) (ids : List Nat) (t : ReadRingInner) : Prop where
  sending : t.sendInFlight + reads ids = s.sendInFlight + ids.length
  reading : t.readInFlight.toNat = s.readInFlight.toNat + reads ids
  maxOutstanding : t.maxOutstanding = s.maxOutstanding
  sqCapacity : t.sqCapacity = s.sqCapacity
  placed : t.sendRing.Placed

namespace Posts

variable {s t u : ReadRingInner} {ids more : List Nat}

theorem none (hsending : t.sendInFlight = s.sendInFlight)
    (hreading : t.readInFlight = s.readInFlight) (hmax : t.maxOutstanding = s.maxOutstanding)
    (hsq : t.sqCapacity = s.sqCapacity) (hplaced : t.sendRing.Placed) : Posts s [] t :=
  ⟨by simp [reads, hsending], by simp [reads, hreading], hmax, hsq, hplaced⟩

theorem trans (hst : Posts s ids t) (htu : Posts t more u) : Posts s (ids ++ more) u where
  sending := by
    have hfirst := hst.sending
    have hlast := htu.sending
    rw [reads_append, length_append]
    omega
  reading := by rw [htu.reading, hst.reading, reads_append, add_assoc]
  maxOutstanding := htu.maxOutstanding.trans hst.maxOutstanding
  sqCapacity := htu.sqCapacity.trans hst.sqCapacity
  placed := htu.placed

end Posts

variable {s : ReadRingInner}

/-- The one Read that may be in flight is posted. -/
theorem posts_read (hidle : ¬s.readInFlight = true) (hplaced : s.sendRing.Placed) :
    Posts s [readWr.wrId] { s with readInFlight := true } := by
  refine ⟨?_, ?_, rfl, rfl, hplaced⟩
  · simp [reads, readWr]
  · simp [reads, readWr, hidle]

variable {t : ReadRingInner}

/-- A Write is posted and counted. -/
theorem posts_write {id : Nat} (hid : id ≠ wrIdReadSentinel)
    (hsending : t.sendInFlight = s.sendInFlight + 1) (hreading : t.readInFlight = s.readInFlight)
    (hmax : t.maxOutstanding = s.maxOutstanding) (hsq : t.sqCapacity = s.sqCapacity)
    (hplaced : t.sendRing.Placed) : Posts s [id] t :=
  ⟨by simp [reads, hid, hsending], by simp [reads, hid, hreading], hmax, hsq, hplaced⟩

/-- What `heartbeat` posts: at most the Read. -/
theorem heartbeat_posts (hplaced : s.sendRing.Placed) (post : WrKind → Bool) :
    Posts s ((s.heartbeat post).posted.map SendWr.wrId) (s.heartbeat post).inner ∧
      (s.heartbeat post).inner.sendInFlight = s.sendInFlight := by
  unfold heartbeat
  split
  · exact ⟨.none rfl rfl rfl rfl hplaced, rfl⟩
  rename_i hidle
  split
  · exact ⟨posts_read hidle hplaced, rfl⟩
  · exact ⟨.none rfl rfl rfl rfl hplaced, rfl⟩

theorem proactiveRead_posts (hplaced : s.sendRing.Placed) (len : Nat) (post : WrKind → Bool) :
    Posts s ((s.proactiveRead len post).2.map SendWr.wrId) (s.proactiveRead len post).1 ∧
      (s.proactiveRead len post).1.sendInFlight = s.sendInFlight := by
  unfold proactiveRead
  split
  · rename_i hlow
    split
    · refine ⟨posts_read ?_ hplaced, rfl⟩
      intro hreading
      simp [hreading] at hlow
    · exact ⟨.none rfl rfl rfl rfl hplaced, rfl⟩
  · exact ⟨.none rfl rfl rfl rfl hplaced, rfl⟩

/-- A data Write is posted behind the requests with the ids `prior`. -/
theorem postData_posts {prior : List SendWr} (hprior : Posts s (prior.map SendWr.wrId) t)
    (bufs : List (List UInt8)) {len padding : Nat} (hlen : len < 2 ^ 16)
    (hpadding : padding ≤ len) (post : WrKind → Bool) :
    Posts s ((t.postData bufs len padding post prior).posted.map SendWr.wrId)
        (t.postData bufs len padding post prior).inner ∧
      (t.postData bufs len padding post prior).inner.sendInFlight ≤ t.sendInFlight + 1 := by
  unfold postData
  split
  · have hid : (dataWr t.remoteWriteTail len padding bufs).wrId ≠ wrIdReadSentinel := by
      simp only [dataWr, wrIdReadSentinel]
      omega
    have hdata := posts_write hid (s := t) (t := { t with
        remoteWriteTail := (t.remoteWriteTail + len) % t.remoteCapacity
        sendInFlight := t.sendInFlight + 1 }) rfl rfl rfl rfl hprior.placed
    obtain ⟨hread, hsending⟩ := proactiveRead_posts hdata.placed len post
    simp only [map_append, map_cons, map_nil]
    exact ⟨(hprior.trans hdata).trans hread, hsending.le⟩
  · exact ⟨hprior, Nat.le_succ _⟩

/-- What `send_gather` posts, whether its posts succeed or not: it counts what it posts, and
it adds Writes only while the send queue has room for three more requests. -/
theorem sendGather_posts (hplaced : s.sendRing.Placed) (bufs : List (List UInt8))
    (post : WrKind → Bool) : Posts s ((s.sendGather bufs post).posted.map SendWr.wrId)
        (s.sendGather bufs post).inner ∧
      ((s.sendGather bufs post).inner.sendInFlight = s.sendInFlight ∨
        (s.sendGather bufs post).inner.sendInFlight ≤ s.maxOutstanding) := by
  have hcase := sendGather_cases hplaced bufs post
  generalize s.sendGather bufs post = r at hcase ⊢
  cases hcase with
  | gone | empty | refused => exact ⟨.none rfl rfl rfl rfl hplaced, .inl rfl⟩
  | waits =>
    have hquiet := heartbeat_posts hplaced post
    exact ⟨hquiet.1, .inl hquiet.2⟩
  | reserved ring _ padding hroom _ hreserve =>
    obtain ⟨-, hin, hshort⟩ := hplaced.reserve hreserve
    have hlen : s.dataLen (bufs.map List.length).sum < 2 ^ 16 := by
      unfold dataLen
      omega
    simp only [sendCopyMaxWrs] at hroom
    unfold sendReserved
    split
    · exact ⟨.none rfl rfl rfl rfl (.inl hin), .inl rfl⟩
    have hpadding : Posts s ((padWrs s.remoteWriteTail padding).map SendWr.wrId)
        { s with
          sendRing := ring
          sendInFlight := s.sendInFlight + (padWrs s.remoteWriteTail padding).length
          remoteWriteTail := writeAt s.remoteWriteTail padding } := by
      unfold padWrs
      split
      · exact posts_write (show wrIdPaddingSentinel ≠ wrIdReadSentinel by decide) rfl rfl
          rfl rfl (.inl hin)
      · exact .none rfl rfl rfl rfl (.inl hin)
    have hone : (padWrs s.remoteWriteTail padding).length ≤ 1 := by
      unfold padWrs
      split <;> simp
    obtain ⟨hposts, hcount⟩ := postData_posts hpadding bufs hlen hshort post
    refine ⟨hposts, .inr (hcount.trans ?_)⟩
    simp only
    omega

/-- The counters of a transport agree with the ids of the requests that are open. -/
structure Accounts (ids : List Nat) (s : ReadRingInner) : Prop where
  reading : s.readInFlight.toNat = reads ids
  sending : s.sendInFlight + reads ids = ids.length
  room : s.sendInFlight ≤ s.maxOutstanding
  sqCapacity : s.sqCapacity = s.maxOutstanding + readRingSqHeadroom
  placed : s.sendRing.Placed

/-- Processing would count down from zero at some completion of the batch. -/
def clamps (s : ReadRingInner) : List WorkCompletion → Bool
  | [] => false
  | wc :: wcs =>
    wc.isSuccess && (wc.wrId != wrIdReadSentinel && s.sendInFlight == 0 ||
      (s.sendDone wc.wrId).clamps wcs)

namespace Accounts

variable {s t : ReadRingInner} {ids more : List Nat}

section

variable (h : Accounts ids s)

include h

/-- The sum of the two counters is the number of open requests. -/
theorem total : s.sendInFlight + s.readInFlight.toNat = ids.length := by
  rw [h.reading, h.sending]

theorem total_le : s.sendInFlight + s.readInFlight.toNat ≤ s.sqCapacity := by
  have hroom := h.room
  have hone := Bool.toNat_le s.readInFlight
  rw [h.sqCapacity, readRingSqHeadroom]
  omega

theorem of_perm (hperm : ids.Perm more) : Accounts more s where
  reading := h.reading.trans (hperm.count_eq _)
  sending := by
    rw [← hperm.length_eq, ← h.sending]
    exact congrArg _ (hperm.count_eq _).symm
  __ := h

/-- A change of what the accounts do not read. -/
theorem of_same (hsending : t.sendInFlight = s.sendInFlight)
    (hreading : t.readInFlight = s.readInFlight) (hmax : t.maxOutstanding = s.maxOutstanding)
    (hsq : t.sqCapacity = s.sqCapacity) (hring : t.sendRing = s.sendRing) : Accounts ids t :=
  ⟨hreading ▸ h.reading, hsending ▸ h.sending, by rw [hsending, hmax]; exact h.room,
    by rw [hsq, hmax]; exact h.sqCapacity, hring ▸ h.placed⟩

theorem posts (hposts : Posts s more t)
    (hroom : t.sendInFlight = s.sendInFlight ∨ t.sendInFlight ≤ s.maxOutstanding) :
    Accounts (ids ++ more) t where
  reading := by rw [hposts.reading, h.reading, reads_append]
  sending := by
    have hbefore := h.sending
    have hadded := hposts.sending
    rw [reads_append, length_append]
    omega
  room := by
    have hbefore := h.room
    rw [hposts.maxOutstanding]
    omega
  sqCapacity := by rw [hposts.sqCapacity, hposts.maxOutstanding, h.sqCapacity]
  placed := hposts.placed

end

/-- The completion of an open request: its counter is not zero, and goes down by one. -/
theorem sendDone {id : Nat} (h : Accounts (id :: ids) s) :
    (id ≠ wrIdReadSentinel → 0 < s.sendInFlight) ∧ Accounts ids (s.sendDone id) := by
  have hreading := h.reading
  have hsending := h.sending
  have hroom := h.room
  have hle := reads_le ids
  rw [length_cons] at hsending
  unfold ReadRingInner.sendDone
  by_cases hread : id = wrIdReadSentinel
  · have hone : reads (id :: ids) = reads ids + 1 := by simp [reads, hread]
    have hflag := Bool.toNat_le s.readInFlight
    rw [if_pos hread]
    refine ⟨fun hne => absurd hread hne, ?_, ?_, hroom, h.sqCapacity, h.placed⟩
    · simp only [Bool.toNat_false]
      omega
    · simp only
      omega
  · have hnone : reads (id :: ids) = reads ids := by simp [reads, hread]
    rw [if_neg hread]
    refine ⟨fun _ => by omega, ?_⟩
    split
    · exact ⟨by simp only; omega, by simp only; omega, by simp only; omega, h.sqCapacity, h.placed⟩
    · refine ⟨by simp only; omega, by simp only; omega, by simp only; omega, h.sqCapacity, ?_⟩
      simp only
      split
      · exact h.placed.release id
      · exact h.placed

/-- No completion of a batch counts down from zero. -/
theorem clamps_eq_false {wcs : List WorkCompletion}
    (h : Accounts (wcs.map WorkCompletion.wrId ++ ids) s) : s.clamps wcs = false := by
  induction wcs generalizing s with
  | nil => rfl
  | cons wc _ ih =>
    obtain ⟨hpos, hrest⟩ := sendDone h
    have htail := ih hrest
    simp only [clamps, htail, Bool.or_false, Bool.and_eq_false_iff, bne_eq_false_iff_eq,
      beq_eq_false_iff_ne]
    by_cases hread : wc.wrId = wrIdReadSentinel
    · exact .inr (.inl hread)
    · exact .inr (.inr (ne_of_gt (hpos hread)))

end Accounts

/-- What the send-queue accounts read is the same. -/
structure SameQueue (s t : ReadRingInner) : Prop where
  sendInFlight : t.sendInFlight = s.sendInFlight
  readInFlight : t.readInFlight = s.readInFlight
  maxOutstanding : t.maxOutstanding = s.maxOutstanding
  sqCapacity : t.sqCapacity = s.sqCapacity
  sendRing : t.sendRing = s.sendRing

/-- What receiving leaves alone; it may find the peer gone. -/
structure SameEnd (s t : ReadRingInner) : Prop extends SameQueue s t where
  config : t.config = s.config
  remoteCapacity : t.remoteCapacity = s.remoteCapacity
  gone : s.peerDisconnected = true → t.peerDisconnected = true

theorem SameEnd.refl (s : ReadRingInner) : s.SameEnd s :=
  ⟨⟨rfl, rfl, rfl, rfl, rfl⟩, rfl, rfl, id⟩

theorem SameEnd.trans {u : ReadRingInner} (hst : s.SameEnd t) (htu : t.SameEnd u) : s.SameEnd u :=
  ⟨⟨htu.1.1.trans hst.1.1, htu.1.2.trans hst.1.2, htu.1.3.trans hst.1.3, htu.1.4.trans hst.1.4,
    htu.1.5.trans hst.1.5⟩, htu.2.trans hst.2, htu.3.trans hst.3, fun hgone => htu.4 (hst.4 hgone)⟩

theorem sameEnd_gone (s : ReadRingInner) : s.SameEnd { s with peerDisconnected := true } :=
  ⟨⟨rfl, rfl, rfl, rfl, rfl⟩, rfl, rfl, fun _ => rfl⟩

theorem releaseSlot_sameEnd (s : ReadRingInner) (slot : Nat) : s.SameEnd (s.releaseSlot slot) := by
  obtain ⟨_, _, _, _, heq⟩ := s.releaseSlot_frame slot
  rw [heq]
  exact { SameEnd.refl s with }

theorem recvOne_sameEnd (s : ReadRingInner) (wc : WorkCompletion) (repost : Bool) :
    s.SameEnd (s.recvOne wc repost).1 := by
  unfold recvOne
  simp only
  split
  · exact s.sameEnd_gone
  split
  · exact .refl s
  split
  · exact s.sameEnd_gone
  split
  · split
    · have hrelease := releaseSlot_sameEnd
        { s.repostDoorbell with
          recvArrivalSeq := s.recvArrivalSeq + 1
          slotLengths := s.slotLengths.set (s.recvArrivalSeq % s.maxOutstanding)
            (s.recvRing.capacity - (decodeRingImm wc.immData).1) }
        (s.recvArrivalSeq % s.maxOutstanding)
      exact { hrelease with }
    · exact s.sameEnd_gone
  split
  · exact s.sameEnd_gone
  split
  · exact { SameEnd.refl s with }
  · exact { s.sameEnd_gone with }

theorem recvBatch_sameEnd (outLen : Nat) (s : ReadRingInner) (out : List RecvCompletion)
    (got : Bool) (batch : List (WorkCompletion × Bool)) :
    s.SameEnd (recvBatch outLen s out got batch).inner := by
  induction batch generalizing s out got with
  | nil => exact .refl s
  | cons b _ ih =>
    obtain ⟨wc, repost⟩ := b
    have hone := s.recvOne_sameEnd wc repost
    rw [recvBatch]
    split
    · rename_i heq
      rwa [heq] at hone
    · rename_i heq
      rw [heq] at hone
      exact hone.trans (ih _ _ _)
    · rename_i t rc heq
      rw [heq] at hone
      split
      · exact hone.trans (ih _ _ _)
      · have hstash : s.SameEnd { t with recvStash := t.recvStash ++ [rc] } :=
          { hone with }
        exact hstash.trans (ih _ _ _)

theorem pollRecvLoop_sameEnd (outLen : Nat) (polls : List (Except TransportError (List Bool)))
    (s : ReadRingInner) (out : List RecvCompletion) (cq : List WorkCompletion) : s.SameEnd
    (pollRecvLoop outLen s out cq polls).inner := by
  induction polls generalizing s out cq with
  | nil => exact .refl s
  | cons poll _ ih =>
    cases poll with
    | error => exact .refl s
    | ok reposts =>
      have hbatch := recvBatch_sameEnd outLen s out false (cq.zip (reposts.take 8))
      simp only [pollRecvLoop]
      split
      · exact hbatch
      split
      · exact hbatch
      · exact hbatch.trans (ih _ _ _)

/-- Receiving posts nothing on the send queue of a read ring. -/
theorem pollRecv_sameEnd (s : ReadRingInner) (outLen : Nat) (cq : List WorkCompletion)
    (polls : List (Except TransportError (List Bool))) :
    s.SameEnd (s.pollRecv outLen cq polls).inner := by
  have hstash : s.SameEnd { s with recvStash := s.recvStash.drop outLen } :=
    { SameEnd.refl s with }
  unfold pollRecv
  simp only
  split
  · exact hstash
  · exact hstash.trans (pollRecvLoop_sameEnd outLen polls _ _ cq)

theorem repostRecv_sameEnd {bufIdx : Nat} (h : s.repostRecv bufIdx = some t) : s.SameEnd t := by
  unfold repostRecv at h
  split at h
  · cases h
  · simp only [Option.some.injEq] at h
    rw [← h]
    exact { releaseSlot_sameEnd
      { s with virtualIdxMap := s.virtualIdxMap.set bufIdx none } _ with }

/-- A statement about a transport and the ids of its open requests that only their
completion and the posting of new ones can change. -/
structure QueueInvariant (P : List Nat → ReadRingInner → Prop) : Prop where
  perm : ∀ {ids more s}, ids.Perm more → P ids s → P more s
  same : ∀ {ids s t}, SameEnd s t → P ids s → P ids t
  done : ∀ {id ids s}, P (id :: ids) s → P ids (s.sendDone id)

theorem Accounts.invariant : QueueInvariant fun ids s => Accounts ids s where
  perm hperm h := h.of_perm hperm
  same hsame h := h.of_same hsame.sendInFlight hsame.readInFlight hsame.maxOutstanding
    hsame.sqCapacity hsame.sendRing
  done h := h.sendDone.2

end ReadRingInner

/-- One end of a read ring with its send queue and completion queue. -/
structure ReadSendQueue where
  inner : ReadRingInner
  /-- Requests posted and not yet completed. -/
  sq : List SendWr
  sendCq : List WorkCompletion
  /-- Completions taken from the queue and not processed. -/
  dropped : List WorkCompletion

inductive ReadSendLabel where
  | sendGather (bufs : List (List UInt8)) (post : WrKind → Bool)
  | complete (status vendorErr : Nat)
  | readLand (head : Nat)
  | pollSend (polls : List (Except TransportError Nat))
  | pollRecv (outLen : Nat) (cq : List WorkCompletion)
      (polls : List (Except TransportError (List Bool)))
  | repostRecv (bufIdx : Nat)

namespace ReadSendQueue

def start (config : ReadRingConfig) (remoteCapacity maxOutstanding : Nat) : ReadSendQueue where
  inner := fromParts config remoteCapacity maxOutstanding
  sq := []
  sendCq := []
  dropped := []

variable (q : ReadSendQueue)

/-- Posted requests whose completion has not been processed. -/
def outstanding : Nat :=
  q.sq.length + q.sendCq.length + q.dropped.length

def step : ReadSendLabel → Option ReadSendQueue
  | .sendGather bufs post =>
    let r := q.inner.sendGather bufs post
    some { q with inner := r.inner, sq := q.sq ++ r.posted }
  | .complete status vendorErr =>
    match q.sq with
    | [] => none
    | wr :: sq =>
      some { q with sq, sendCq := q.sendCq ++ [wr.completionWith status vendorErr] }
  | .readLand head => some { q with inner := { q.inner with readBuf := head } }
  | .pollSend polls =>
    let (inner, _, sendCq) := q.inner.pollSendCompletion q.sendCq polls
    some { q with
      inner
      sendCq
      dropped := q.dropped ++ pollSendDropped q.sendCq polls }
  | .pollRecv outLen cq polls =>
    some { q with inner := (q.inner.pollRecv outLen cq polls).inner }
  | .repostRecv bufIdx =>
    (q.inner.repostRecv bufIdx).map fun inner => { q with inner }

/-- Ids of the requests whose completion has not been processed. -/
def openIds : List Nat :=
  q.dropped.map WorkCompletion.wrId ++ q.sendCq.map WorkCompletion.wrId ++ q.sq.map SendWr.wrId

theorem length_openIds : q.openIds.length = q.outstanding := by
  simp only [openIds, outstanding, length_append, length_map]
  omega

/-- The counters of the transport agree with its open requests. -/
def Accounted : Prop :=
  q.inner.Accounts q.openIds

theorem accounted_start (config : ReadRingConfig) (remoteCapacity maxOutstanding : Nat) :
    (start config remoteCapacity maxOutstanding).Accounted :=
  ⟨rfl, rfl, Nat.zero_le _, rfl, .new _⟩

theorem perm_queue_first : q.openIds.Perm (q.sendCq.map WorkCompletion.wrId ++
      (q.dropped.map WorkCompletion.wrId ++ q.sq.map SendWr.wrId)) := by
  rw [openIds, ← append_assoc]
  exact perm_append_comm.append_right _

variable {q q' : ReadSendQueue} {label : ReadSendLabel}

/-- A step keeps what a send keeps. -/
theorem step_keeps {P : List Nat → ReadRingInner → Prop} (hP : ReadRingInner.QueueInvariant P)
    (hsend : ∀ bufs post, label = .sendGather bufs post →
      P (q.openIds ++ (q.inner.sendGather bufs post).posted.map SendWr.wrId)
        (q.inner.sendGather bufs post).inner) (h : P q.openIds q.inner)
    (hstep : step q label = some q') :
    P q'.openIds q'.inner := by
  cases label with
  | sendGather bufs post =>
    cases hstep
    simpa only [openIds, map_append, append_assoc] using hsend bufs post rfl
  | complete =>
    simp only [step] at hstep
    split at hstep
    · cases hstep
    rename_i wr sq hsq
    simp only [Option.some.injEq] at hstep
    subst hstep
    simp only [openIds, hsq, map_cons] at h
    simpa only [openIds, map_append, map_cons, map_nil, append_assoc,
      cons_append, nil_append, SendWr.wrId_completionWith] using h
  | readLand =>
    cases hstep
    exact hP.same { ReadRingInner.SameEnd.refl q.inner with } h
  | pollSend polls =>
    cases hstep
    apply hP.perm ?_ (pollSendCompletion_keeps hP.done
      (hP.same (sameEnd_gone _)) _ polls (hP.perm q.perm_queue_first h))
    simp only [openIds, map_append]
    exact perm_reorder _ _ _ _
  | pollRecv outLen cq polls =>
    cases hstep
    exact hP.same (q.inner.pollRecv_sameEnd outLen cq polls) h
  | repostRecv =>
    obtain ⟨_, hinner, rfl⟩ := Option.map_eq_some_iff.mp hstep
    exact hP.same (repostRecv_sameEnd hinner) h

theorem step_accounted (h : q.Accounted) (hstep : step q label = some q') : q'.Accounted := by
  refine step_keeps ReadRingInner.Accounts.invariant (fun bufs post _ => ?_) h hstep
  obtain ⟨hposts, hroom⟩ := sendGather_posts h.placed bufs post
  exact ReadRingInner.Accounts.posts h hposts hroom

/-- What holds of an accounted end: the counters, the bound and no count below zero. -/
theorem Accounted.outcome (h : q.Accounted) :
    q.inner.sendInFlight + q.inner.readInFlight.toNat = q.outstanding ∧
      q.inner.sendInFlight + q.inner.readInFlight.toNat ≤ q.inner.sqCapacity ∧
      ∀ n, q.inner.clamps (q.sendCq.take n) = false := by
  refine ⟨?_, ReadRingInner.Accounts.total_le h, fun n => ?_⟩
  · rw [ReadRingInner.Accounts.total h, q.length_openIds]
  · have hfirst := ReadRingInner.Accounts.of_perm h q.perm_queue_first
    rw [← take_append_drop n q.sendCq, map_append, append_assoc] at hfirst
    exact hfirst.clamps_eq_false

end ReadSendQueue

namespace CreditRing

/-- From `s` to `t` the transport counts each request it posts and keeps to the queue. -/
structure Counts (s t : CreditRing) : Prop where
  sending : t.sendInFlight + s.qp.sq.length = s.sendInFlight + t.qp.sq.length
  sqCapacity : t.sqCapacity = s.sqCapacity
  room : s.sendInFlight ≤ s.sqCapacity → t.sendInFlight ≤ t.sqCapacity

namespace Counts

variable {s t : CreditRing}

theorem of_same (hsending : t.sendInFlight = s.sendInFlight)
    (hsq : t.qp.sq = s.qp.sq) (hcapacity : t.sqCapacity = s.sqCapacity) : Counts s t :=
  ⟨by rw [hsending, hsq], hcapacity, fun h => by rw [hsending, hcapacity]; exact h⟩

theorem refl (s : CreditRing) : Counts s s :=
  of_same rfl rfl rfl

theorem dead (h : Counts s t) : Counts s t.dead :=
  ⟨h.sending, h.sqCapacity, h.room⟩

theorem of_act {cq cq' : List WorkCompletion} (h : CreditCall.Act (s.call cq) (t.call cq')) :
    Counts s t :=
  ⟨h.sending, h.sqCapacity, h.room⟩

end Counts

variable (s : CreditRing)

theorem sendCq_pollRecvLoop (outLen : Nat) (sendCq : List WorkCompletion)
    (out : List RecvCompletion) (cq : List WorkCompletion)
    (polls : List (Except TransportError (List RecvPosts))) :
    (pollRecvLoop outLen sendCq s out cq polls).sendCq = sendCq := by
  induction polls generalizing s out cq with
  | nil => rfl
  | cons poll _ ih =>
    cases poll with
    | error => rfl
    | ok =>
      simp only [pollRecvLoop]
      split
      · rfl
      split
      · rfl
      split
      · rfl
      · exact ih _ _ _

/-- The counter agrees with the send queue and `k` completions not yet processed. -/
structure Accounts (k : Nat) (s : CreditRing) : Prop where
  sending : s.sendInFlight = s.qp.sq.length + k
  room : s.sendInFlight ≤ s.sqCapacity

/-- Processing would count down from zero at some completion of the batch. -/
def clamps (s : CreditRing) : List WorkCompletion → Bool
  | [] => false
  | wc :: wcs =>
    wc.isSuccess && (s.sendInFlight == 0 || (s.sendDone wc.wrId).clamps wcs)

/-- The completions that `drain_send_cq` takes and does not process. -/
def drainDropped (cq : List WorkCompletion) : List (Except TransportError Nat) → List WorkCompletion
  | [] => []
  | .error _ :: _ => []
  | .ok n :: polls =>
    let wcs := cq.take (min n 8)
    if wcs.isEmpty then []
    else if (unprocessed wcs).isEmpty then drainDropped (cq.drop wcs.length) polls
    else unprocessed wcs

/-- The completions that `poll_send_completion` takes and does not process. -/
def pollSendDropped (cq : List WorkCompletion) :
    Option (Except TransportError Nat) → List WorkCompletion
  | some (.ok n) => unprocessed (cq.take (min n 8))
  | _ => []

/-- The send completions that `poll_recv` takes and does not process. -/
def pollRecvDropped (s : CreditRing) (outLen : Nat) (sendCq : List WorkCompletion)
    (drains : List (Except TransportError Nat)) : List WorkCompletion :=
  if (s.recvStash.take outLen).length ≥ outLen then [] else drainDropped sendCq drains

namespace Accounts

variable {k : Nat} {s t : CreditRing}

theorem of_eq {j : Nat} (h : Accounts k s) (heq : k = j) : Accounts j s :=
  heq ▸ h

theorem counts (h : Accounts k s) (hcounts : Counts s t) : Accounts k t where
  sending := by
    have hbefore := h.sending
    have hposted := hcounts.sending
    omega
  room := hcounts.room h.room

theorem sendDone (h : Accounts (k + 1) s) (wrId : Nat) :
    0 < s.sendInFlight ∧ Accounts k (s.sendDone wrId) := by
  have hsending := h.sending
  have hroom := h.room
  refine ⟨by omega, ?_, ?_⟩
  · simp only [CreditRing.sendDone]
    omega
  · simp only [CreditRing.sendDone]
    omega

variable {wcs cq : List WorkCompletion}

theorem processSendCompletions (h : Accounts (wcs.length + k) s) :
    Accounts ((unprocessed wcs).length + k) (s.processSendCompletions wcs).1 ∧
      ((s.processSendCompletions wcs).2 = .ok () ↔ unprocessed wcs = []) := by
  induction wcs generalizing s with
  | nil => exact ⟨h, by simp [CreditRing.processSendCompletions]⟩
  | cons wc wcs ih =>
    unfold CreditRing.processSendCompletions
    split
    · rename_i hok
      rw [length_cons, add_right_comm] at h
      rw [unprocessed_cons_success wcs hok]
      exact ih (h.sendDone wc.wrId).2
    · rename_i hfail
      rw [unprocessed_cons_failure wcs hfail]
      exact ⟨⟨h.sending, h.room⟩, by simp⟩

theorem clamps_eq_false (h : Accounts (wcs.length + k) s) : s.clamps wcs = false := by
  induction wcs generalizing s with
  | nil => rfl
  | cons wc _ ih =>
    rw [length_cons, add_right_comm] at h
    obtain ⟨hpos, hrest⟩ := h.sendDone wc.wrId
    have htail := ih hrest
    simp only [CreditRing.clamps, htail, Bool.or_false, Bool.and_eq_false_iff, beq_eq_false_iff_ne]
    exact .inr (ne_of_gt hpos)

/-- A polled batch and what is left of the queue. -/
theorem split (h : Accounts (cq.length + k) s) (n : Nat) :
    Accounts ((cq.take n).length + ((cq.drop (cq.take n).length).length + k)) s := by
  have hlength : (cq.take n).length + (cq.drop (cq.take n).length).length = cq.length := by
    rw [length_drop, length_take]
    omega
  rwa [← add_assoc, hlength]

theorem drainSendCq (drains : List (Except TransportError Nat)) (h : Accounts (cq.length + k) s) :
    Accounts ((drainDropped cq drains).length + ((s.drainSendCq cq drains).2.2.length + k))
      (s.drainSendCq cq drains).1 := by
  induction drains generalizing s cq with
  | nil => simpa [drainDropped, CreditRing.drainSendCq] using h
  | cons drain _ ih =>
    cases drain with
    | error => simpa [drainDropped, CreditRing.drainSendCq] using h
    | ok n =>
      obtain ⟨hbatch, hok⟩ := (h.split (min n 8)).processSendCompletions
      simp only [CreditRing.drainSendCq, drainDropped]
      by_cases hempty : (cq.take (min n 8)).isEmpty = true
      · simpa only [if_pos hempty, length_nil, zero_add] using h
      rw [if_neg hempty, if_neg hempty]
      rcases hprocess : s.processSendCompletions (cq.take (min n 8)) with ⟨t, e | done⟩
      · rw [hprocess] at hbatch hok
        have hleft : ¬(unprocessed (cq.take (min n 8))).isEmpty = true := by
          rw [List.isEmpty_iff, ← hok]
          simp
        rw [if_neg hleft]
        exact hbatch
      · rw [hprocess] at hbatch hok
        have hnone : unprocessed (cq.take (min n 8)) = [] := hok.mp rfl
        rw [hnone, length_nil, zero_add] at hbatch
        simp only [hnone, isEmpty_nil, if_true]
        exact ih hbatch

theorem pollSendCompletion (poll : Option (Except TransportError Nat)) (post : Bool)
    (h : Accounts (cq.length + k) s) : Accounts ((pollSendDropped cq poll).length +
        ((s.pollSendCompletion cq poll post).2.2.length + k))
      (s.pollSendCompletion cq poll post).1 := by
  rcases poll with _ | (e | n)
  · simpa [pollSendDropped, CreditRing.pollSendCompletion] using h
  · simpa [pollSendDropped, CreditRing.pollSendCompletion] using h
  · obtain ⟨hbatch, -⟩ := (h.split (min n 8)).processSendCompletions
    simp only [CreditRing.pollSendCompletion, pollSendDropped]
    split
    · rename_i heq
      rwa [heq] at hbatch
    · rename_i t heq
      rw [heq] at hbatch
      have hflush := Counts.of_act (t.flushCredits_act [] post)
      split
      · rename_i heq'
        rw [heq'] at hflush
        exact hbatch.counts hflush.dead
      · rename_i heq'
        rw [heq'] at hflush
        exact hbatch.counts hflush

theorem pollRecv (outLen : Nat) (cq : List WorkCompletion)
    (drains : List (Except TransportError Nat)) (post : Bool)
    (polls : List (Except TransportError (List RecvPosts))) {sendCq : List WorkCompletion}
    (h : Accounts (sendCq.length + k) s) :
    Accounts ((s.pollRecvDropped outLen sendCq drains).length +
        ((s.pollRecv outLen sendCq cq drains post polls).sendCq.length + k))
      (s.pollRecv outLen sendCq cq drains post polls).inner := by
  have hstash : Counts s { s with recvStash := s.recvStash.drop outLen } :=
    .of_same rfl rfl rfl
  unfold CreditRing.pollRecv pollRecvDropped
  simp only
  by_cases hready : (s.recvStash.take outLen).length ≥ outLen
  · rw [if_pos hready, if_pos hready]
    simpa using h.counts hstash
  rw [if_neg hready, if_neg hready]
  have hdrain := (h.counts hstash).drainSendCq drains
  split
  · rename_i heq
    rw [heq] at hdrain
    exact hdrain.counts (Counts.refl _).dead
  · rename_i t _ heq
    rw [heq] at hdrain
    have hflush := Counts.of_act (t.flushCredits_act [] post)
    split
    · rename_i heq'
      rw [heq'] at hflush
      exact hdrain.counts hflush.dead
    · rename_i heq'
      rw [heq'] at hflush
      rw [sendCq_pollRecvLoop]
      exact (hdrain.counts hflush).counts (.of_act (pollRecvLoop_act _ _ _ _ _ _))

end Accounts

end CreditRing

/-- One end of a credit ring, its send queue in its queue pair. -/
structure CreditSendQueue where
  inner : CreditRing
  sendCq : List WorkCompletion
  /-- Completions taken from the queue and not processed. -/
  dropped : List WorkCompletion

inductive CreditSendLabel where
  | sendGather (bufs : List (List UInt8)) (post : WrKind → Bool)
      (cq : List WorkCompletion) (drain : Except TransportError (List RecvPosts))
  | complete (status vendorErr : Nat)
  | pollSend (poll : Option (Except TransportError Nat)) (post : Bool)
  | pollRecv (outLen : Nat) (cq : List WorkCompletion)
      (drains : List (Except TransportError Nat)) (post : Bool)
      (polls : List (Except TransportError (List RecvPosts)))
  | repostRecv (bufIdx : Nat) (posts : RecvPosts)

namespace CreditSendQueue

def start (config : CreditRingConfig) (remoteCapacity maxOutstanding : Nat) : CreditSendQueue where
  inner := CreditRing.fromParts config remoteCapacity maxOutstanding
  sendCq := []
  dropped := []

variable (q : CreditSendQueue)

/-- Posted requests whose completion has not been processed. -/
def outstanding : Nat :=
  q.inner.qp.sq.length + q.sendCq.length + q.dropped.length

def step : CreditSendLabel → Option CreditSendQueue
  | .sendGather bufs post cq drain =>
    some { q with inner := (q.inner.sendGather bufs post cq drain).inner }
  | .complete status vendorErr =>
    match q.inner.qp.sq with
    | [] => none
    | wr :: sq =>
      some { q with
        inner := { q.inner with qp := { q.inner.qp with sq } }
        sendCq := q.sendCq ++ [wr.completionWith status vendorErr] }
  | .pollSend poll post =>
    let (inner, _, sendCq) := q.inner.pollSendCompletion q.sendCq poll post
    some { inner, sendCq, dropped := q.dropped ++ CreditRing.pollSendDropped q.sendCq poll }
  | .pollRecv outLen cq drains post polls =>
    let r := q.inner.pollRecv outLen q.sendCq cq drains post polls
    some { q with
      inner := r.inner
      sendCq := r.sendCq
      dropped := q.dropped ++ q.inner.pollRecvDropped outLen q.sendCq drains }
  | .repostRecv bufIdx posts =>
    (q.inner.repostRecv bufIdx posts).map fun r => { q with inner := r.1 }

/-- The counter of the transport agrees with its open requests. -/
def Accounted : Prop :=
  q.inner.Accounts (q.sendCq.length + q.dropped.length)

theorem accounted_start (config : CreditRingConfig) (remoteCapacity maxOutstanding : Nat) :
    (start config remoteCapacity maxOutstanding).Accounted :=
  ⟨rfl, Nat.zero_le _⟩

variable {q : CreditSendQueue}

theorem step_accounted {q' : CreditSendQueue} {label : CreditSendLabel} (h : q.Accounted)
    (hstep : step q label = some q') : q'.Accounted := by
  cases label with
  | sendGather bufs post cq drain =>
    cases hstep
    exact CreditRing.Accounts.counts h (.of_act (q.inner.sendGather_act cq bufs post drain))
  | complete =>
    simp only [step] at hstep
    split at hstep
    · cases hstep
    rename_i wr sq hsq
    simp only [Option.some.injEq] at hstep
    subst hstep
    have hsending := h.sending
    rw [hsq, length_cons] at hsending
    refine ⟨?_, h.room⟩
    simp only [length_append, length_singleton]
    omega
  | pollSend poll post =>
    simp only [step, Option.some.injEq] at hstep
    subst hstep
    have hpolled := CreditRing.Accounts.pollSendCompletion poll post h
    generalize q.inner.pollSendCompletion q.sendCq poll post = r at hpolled ⊢
    obtain ⟨_, _, _⟩ := r
    simp only [Accounted, length_append] at hpolled ⊢
    exact hpolled.of_eq (by omega)
  | pollRecv outLen cq drains post polls =>
    cases hstep
    have hpolled := CreditRing.Accounts.pollRecv outLen cq drains post polls h
    simp only [Accounted, length_append]
    exact hpolled.of_eq (by omega)
  | repostRecv =>
    obtain ⟨r, hr, rfl⟩ := Option.map_eq_some_iff.mp hstep
    exact CreditRing.Accounts.counts h (.of_act (q.inner.repostRecv_act [] hr))

/-- What holds of an accounted end: the counter, the bound and no count below zero. -/
theorem Accounted.outcome (h : q.Accounted) :
    q.inner.sendInFlight = q.outstanding ∧ q.inner.sendInFlight ≤ q.inner.sqCapacity ∧
      ∀ n, q.inner.clamps (q.sendCq.take n) = false := by
  refine ⟨?_, h.room, fun n => ?_⟩
  · rw [h.sending, outstanding, add_assoc]
  · exact (CreditRing.Accounts.split h n).clamps_eq_false

end CreditSendQueue

/-- In every run of either transport the counters equal the requests whose completion has
not been processed, they stay within the send queue, and no completion counts down from
zero. -/
theorem send_queue_accounted : (∀ (config : ReadRingConfig) (remoteCapacity maxOutstanding : Nat)
        (trace : List ReadSendLabel) (q : ReadSendQueue),
      Machine.run ReadSendQueue.step
        (ReadSendQueue.start config remoteCapacity maxOutstanding) trace = some q →
      q.inner.sendInFlight + q.inner.readInFlight.toNat = q.outstanding ∧
        q.inner.sendInFlight + q.inner.readInFlight.toNat ≤ q.inner.sqCapacity ∧
        ∀ n, q.inner.clamps (q.sendCq.take n) = false) ∧
    ∀ (config : CreditRingConfig) (remoteCapacity maxOutstanding : Nat)
        (trace : List CreditSendLabel) (q : CreditSendQueue),
      Machine.run CreditSendQueue.step
        (CreditSendQueue.start config remoteCapacity maxOutstanding) trace = some q →
      q.inner.sendInFlight = q.outstanding ∧ q.inner.sendInFlight ≤ q.inner.sqCapacity ∧
        ∀ n, q.inner.clamps (q.sendCq.take n) = false := by
  constructor
  · intro config remoteCapacity maxOutstanding trace q hrun
    exact (Machine.run_invariant_of_step (fun _ _ _ h hstep => ReadSendQueue.step_accounted h hstep)
      (ReadSendQueue.accounted_start config remoteCapacity maxOutstanding) hrun).outcome
  · intro config remoteCapacity maxOutstanding trace q hrun
    exact (Machine.run_invariant_of_step
      (fun _ _ _ h hstep => CreditSendQueue.step_accounted h hstep)
      (CreditSendQueue.accounted_start config remoteCapacity maxOutstanding) hrun).outcome

/-- Two messages, of which the first fails: one poll takes both completions and processes
neither, so both requests stay counted. -/
theorem send_queue_accounted_failure :
    (∃ q, Machine.run ReadSendQueue.step (ReadSendQueue.start ⟨16, 2, none, 0⟩ 16 8)
        [.sendGather [[0]] (fun _ => true), .sendGather [[0]] (fun _ => true),
          .complete 12 0, .complete 0 0, .pollSend [.ok 8]] = some q ∧
      q.dropped.length = 2 ∧
      q.inner.sendInFlight + q.inner.readInFlight.toNat = q.outstanding) ∧
    ∃ q, Machine.run CreditSendQueue.step (CreditSendQueue.start ⟨16, 2, none⟩ 16 8)
        [.sendGather [[0]] (fun _ => true) [] (.ok []),
          .sendGather [[0]] (fun _ => true) [] (.ok []), .complete 12 0, .complete 0 0,
          .pollRecv 1 [] [.ok 8] true []] = some q ∧
      q.dropped.length = 2 ∧ q.inner.sendInFlight = q.outstanding := by
  constructor
  · refine Machine.ends_imp (·.dropped.length = 2) (by decide +kernel) fun q hq hdropped => ?_
    exact ⟨hdropped, (send_queue_accounted.1 ⟨16, 2, none, 0⟩ 16 8 _ q hq).1⟩
  · refine Machine.ends_imp (·.dropped.length = 2) (by decide +kernel) fun q hq hdropped => ?_
    exact ⟨hdropped, (send_queue_accounted.2 ⟨16, 2, none⟩ 16 8 _ q hq).1⟩

end RdmaIo
