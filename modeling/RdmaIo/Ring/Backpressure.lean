/-
What stands behind a send that accepts nothing.

Every byte reserved in the send ring is freed by the completion of an open request, as long
as the Writes of a send are posted.  A read ring that refuses a message then has a request
in flight, whose completion lets the caller try again.
-/
import RdmaIo.Ring.SendQueue
import RdmaIo.Ring.SendState

namespace RdmaIo

open ReadRingInner
open ReadSendQueue

namespace RingBuffer

variable {r r' : RingBuffer} {len offset padding : Nat}

theorem used_release (hin : r.InRing) (hle : len ≤ r.used) :
    (r.release len).used + len = r.used := by
  have hhead := hin.head_lt
  have htail := hin.tail_lt
  unfold used at hle
  have hmod := RingLog.add_mod_of_le (c := r.capacity) (x := r.head) (d := len)
    (by omega) (by split_ifs at hle <;> omega)
  rw [Nat.mod_eq_of_lt hhead] at hmod
  simp only [used, release, hmod]
  split_ifs at hle ⊢ <;> omega

/-- A ring in which nothing is reserved takes any message of at most half its size. -/
theorem reserve_of_used_eq_zero (hin : r.InRing) (hused : r.used = 0) (hpos : 0 < len)
    (hhalf : 2 * len ≤ r.capacity) : r.reserve len ≠ none := by
  have hhead := hin.head_lt
  have htail := hin.tail_lt
  have heq : r.tail = r.head := by
    unfold used at hused
    split at hused <;> omega
  unfold reserve available contiguousFree
  simp only [hused, heq, ge_iff_le, le_refl, if_true]
  rw [if_neg (by omega)]
  by_cases hzero : r.head = 0
  · rw [if_pos hzero, if_pos (by omega)]
    exact Option.some_ne_none _
  · rw [if_neg hzero]
    split
    · exact Option.some_ne_none _
    · -- the message does not fit behind the head, so it fits before it
      rw [if_neg (by omega), if_neg (by omega)]
      exact Option.some_ne_none _

end RingBuffer

namespace ReadRingInner

/-- Every reserved byte of the send ring is freed by an open request. -/
structure Backed (config : ReadRingConfig) (remoteCapacity : Nat) (ids : List Nat)
    (s : ReadRingInner) : Prop where
  inRing : s.sendRing.InRing
  used : s.sendRing.used = freed ids
  capacity : s.sendRing.capacity = config.ringCapacity
  config : s.config = config
  remoteCapacity : s.remoteCapacity = remoteCapacity

namespace Backed

variable {config : ReadRingConfig} {remoteCapacity : Nat} {ids : List Nat} {s : ReadRingInner}

theorem sendDone {id : Nat} (h : Backed config remoteCapacity (id :: ids) s) :
    Backed config remoteCapacity ids (s.sendDone id) := by
  have hused : s.sendRing.used = (if id = wrIdReadSentinel ∨ id = wrIdPaddingSentinel
      then 0 else id) + freed ids := h.used
  unfold ReadRingInner.sendDone
  by_cases hread : id = wrIdReadSentinel
  · rw [if_pos (.inl hread), zero_add] at hused
    rw [if_pos hread]
    exact { h with used := hused }
  rw [if_neg hread]
  by_cases hmark : id = wrIdPaddingSentinel
  · rw [if_pos (.inr hmark), zero_add] at hused
    rw [if_pos hmark]
    exact { h with used := hused }
  rw [if_neg (not_or.mpr ⟨hread, hmark⟩)] at hused
  rw [if_neg hmark]
  have hle : id ≤ s.sendRing.used := by omega
  have hrelease := RingBuffer.used_release h.inRing hle
  by_cases hid : id > 0 ∧ id ≤ s.sendRing.capacity
  · refine ⟨?_, ?_, ?_, h.config, h.remoteCapacity⟩ <;> simp only [if_pos hid]
    · exact h.inRing.release id
    · omega
    · exact h.capacity
  · -- an id beyond the ring is not among the reserved bytes, so this one is 0
    have hlt : s.sendRing.used < s.sendRing.capacity := by
      have hhead := h.inRing.head_lt
      have htail := h.inRing.tail_lt
      unfold RingBuffer.used
      split <;> omega
    refine ⟨?_, ?_, ?_, h.config, h.remoteCapacity⟩ <;> simp only [if_neg hid]
    · exact h.inRing
    · omega
    · exact h.capacity

theorem invariant (config : ReadRingConfig) (remoteCapacity : Nat) :
    QueueInvariant fun ids s => Backed config remoteCapacity ids s where
  perm hperm h := { h with used := h.used.trans (freed_perm hperm) }
  same hsame h :=
    { inRing := hsame.sendRing ▸ h.inRing
      used := hsame.sendRing ▸ h.used
      capacity := hsame.sendRing ▸ h.capacity
      config := hsame.config.trans h.config
      remoteCapacity := hsame.remoteCapacity.trans h.remoteCapacity }
  done h := h.sendDone

theorem sendGather (h : Backed config remoteCapacity ids s) (bufs : List (List UInt8))
    {post : WrKind → Bool} (hpadding : post .padding = true) (hdata : post .data = true) :
    Backed config remoteCapacity (ids ++ (s.sendGather bufs post).posted.map SendWr.wrId)
      (s.sendGather bufs post).inner := by
  have hused : (s.sendGather bufs post).inner.sendRing.used =
      freed (ids ++ (s.sendGather bufs post).posted.map SendWr.wrId) := by
    rw [freed_append, ← h.used]
    exact (sendGather_described (.inl h.inRing) bufs hpadding hdata).covered
  rcases sendGather_spec h.inRing bufs post with
    ⟨⟨reading, hinner⟩, -⟩ | ⟨hfails, -⟩ |
      ⟨ring, offset, len, padding, hreserve, -, -, ⟨reading, dead, sending, hinner⟩, -⟩
  · rw [hinner] at hused ⊢
    exact { h with used := hused }
  · simp [hpadding, hdata] at hfails
  · obtain ⟨-, hin, hcap, -⟩ := RingBuffer.reserve_some h.inRing hreserve
    rw [hinner] at hused ⊢
    exact ⟨hin, hused, hcap.trans h.capacity, h.config, h.remoteCapacity⟩

end Backed

theorem sendReserved_ne_ok_zero (s : ReadRingInner) (bufs : List (List UInt8))
    (post : WrKind → Bool) (ring : RingBuffer) {len : Nat} (padding : Nat) (hlen : 0 < len) :
    (s.sendReserved bufs post ring len padding).result ≠ .ok 0 := by
  unfold sendReserved postData
  split
  · exact nofun
  split
  · simp only [ne_eq, Except.ok.injEq]
    omega
  · exact nofun

/-- A send of a message that accepts nothing leaves a Read in flight, unless the local ring
refused the message. -/
theorem sendGather_ok_zero {s : ReadRingInner} {bufs : List (List UInt8)} {post : WrKind → Bool}
    (hplaced : s.sendRing.Placed) (hbufs : (bufs.map List.length).sum ≠ 0)
    (hlen : 0 < s.dataLen (bufs.map List.length).sum)
    (hresult : (s.sendGather bufs post).result = .ok 0) : s.peerDisconnected = false ∧
    ((s.sendGather bufs post).inner.readInFlight = true ∨
      s.sendRing.reserve (s.dataLen (bufs.map List.length).sum) = none) := by
  have hcase := sendGather_cases hplaced bufs post
  generalize s.sendGather bufs post = r at hcase hresult ⊢
  cases hcase with
  | gone => cases hresult
  | empty => contradiction
  | waits halive =>
    refine ⟨halive, .inl ?_⟩
    unfold heartbeat at hresult ⊢
    split
    · assumption
    · split
      · rfl
      · simp_all
  | refused halive hrefused => exact ⟨halive, .inr hrefused⟩
  | reserved ring _ padding =>
    exact absurd hresult (s.sendReserved_ne_ok_zero bufs post ring padding hlen)

theorem sendBatch_gone {wcs : List WorkCompletion} {s : ReadRingInner}
    (h : unprocessed wcs ≠ []) : (s.sendBatch wcs).1.peerDisconnected = true := by
  induction wcs generalizing s with
  | nil => contradiction
  | cons _ wcs ih =>
    rw [sendBatch]
    split
    · rename_i hok
      rw [unprocessed_cons_success wcs hok] at h
      exact ih h
    · rfl

/-- A poll that loses completions marks the peer. -/
theorem pollSendCompletion_gone (polls : List (Except TransportError Nat))
    {cq : List WorkCompletion} {s : ReadRingInner} (h : pollSendDropped cq polls ≠ []) :
    (s.pollSendCompletion cq polls).1.peerDisconnected = true := by
  induction polls generalizing s cq with
  | nil => contradiction
  | cons poll _ ih =>
    cases poll with
    | error => contradiction
    | ok n =>
      simp only [pollSendDropped] at h
      simp only [pollSendCompletion]
      by_cases hempty : (cq.take (min n 8)).isEmpty = true
      · rw [if_pos hempty] at h
        rw [List.isEmpty_iff] at hempty
        simp only [hempty, sendBatch, List.isEmpty_nil, if_true, List.length_nil,
          List.drop_zero] at h ⊢
        exact ih h
      · rw [if_neg hempty] at h
        have hgone := sendBatch_gone (s := s) h
        split
        · rename_i heq
          rwa [heq] at hgone
        · rename_i heq
          rw [heq] at hgone
          simpa only [if_neg hempty] using hgone

theorem gone_invariant : QueueInvariant fun _ s => s.peerDisconnected = true where
  perm _ h := h
  same hsame h := hsame.gone h
  done {id _ s} h := by
    unfold sendDone
    split
    · exact h
    · split <;> exact h

end ReadRingInner

/-- The step posts the Writes that it asks for. -/
def ReadSendLabel.postsWrites : ReadSendLabel → Bool
  | .sendGather _ post => post .padding && post .data
  | _ => true

namespace ReadSendQueue

/-- Every reserved byte is backed by an open request, and completions are only lost with
the peer. -/
structure Wakeable (config : ReadRingConfig) (remoteCapacity : Nat) (q : ReadSendQueue) : Prop where
  accounted : q.Accounted
  backed : q.inner.Backed config remoteCapacity q.openIds
  gone : q.dropped ≠ [] → q.inner.peerDisconnected = true

theorem wakeable_start {config : ReadRingConfig} (remoteCapacity maxOutstanding : Nat)
    (hpos : 0 < config.ringCapacity) :
    (start config remoteCapacity maxOutstanding).Wakeable config remoteCapacity where
  accounted := accounted_start config remoteCapacity maxOutstanding
  backed := ⟨⟨hpos, hpos⟩, rfl, rfl, rfl, rfl⟩
  gone h := absurd rfl h

theorem gone_step {q q' : ReadSendQueue} {label : ReadSendLabel}
    (hgone : q.dropped ≠ [] → q.inner.peerDisconnected = true) (hstep : step q label = some q')
    (hdropped : q'.dropped ≠ []) : q'.inner.peerDisconnected = true := by
  by_cases hdrop : q.dropped = []
  · cases label with
    | pollSend polls =>
      cases hstep
      simp only [hdrop, List.nil_append] at hdropped
      exact pollSendCompletion_gone polls hdropped
    | complete =>
      simp only [step] at hstep
      split at hstep
      · cases hstep
      · cases hstep
        contradiction
    | repostRecv =>
      obtain ⟨_, -, rfl⟩ := Option.map_eq_some_iff.mp hstep
      contradiction
    | _ =>
      cases hstep
      contradiction
  · refine step_keeps gone_invariant (fun bufs post _ => ?_) (hgone hdrop) hstep
    simp [sendGather, hgone hdrop]

theorem Wakeable.step {config : ReadRingConfig} {remoteCapacity : Nat}
    {q q' : ReadSendQueue} {label : ReadSendLabel} (h : q.Wakeable config remoteCapacity)
    (hposts : label.postsWrites = true) (hstep : q.step label = some q') :
    q'.Wakeable config remoteCapacity where
  accounted := step_accounted h.accounted hstep
  backed := by
    refine step_keeps (ReadRingInner.Backed.invariant config remoteCapacity) ?_ h.backed hstep
    rintro bufs post rfl
    rw [ReadSendLabel.postsWrites, Bool.and_eq_true] at hposts
    exact h.backed.sendGather bufs hposts.1 hposts.2
  gone := gone_step h.gone hstep

end ReadSendQueue

/-- With a ring of two messages or more and every Write posted, a read ring that accepts
nothing of a message has a request whose completion is still to be polled. -/
theorem read_backpressure_wakes {config : ReadRingConfig} {remoteCapacity maxOutstanding : Nat}
    (hmessage : 0 < config.maxMessageSize) (hring : 2 * config.maxMessageSize ≤ config.ringCapacity)
    (hremote : 0 < remoteCapacity) {trace : List ReadSendLabel} {q : ReadSendQueue}
    (hposts : Machine.Along step (fun _ label => label.postsWrites = true)
      (start config remoteCapacity maxOutstanding) trace)
    (hrun : Machine.run step (start config remoteCapacity maxOutstanding) trace = some q)
    (bufs : List (List UInt8)) (post : WrKind → Bool)
    (hbufs : (bufs.map List.length).sum ≠ 0)
    (hresult : (q.inner.sendGather bufs post).result = .ok 0) :
    q.sendCq ≠ [] ∨ q.sq ++ (q.inner.sendGather bufs post).posted ≠ [] := by
  have hwake : q.Wakeable config remoteCapacity := Machine.run_invariant
    (fun _ _ _ h hposts hstep => h.step hposts hstep)
    (wakeable_start remoteCapacity maxOutstanding (by omega)) hposts hrun
  have hle : q.inner.dataLen (bufs.map List.length).sum ≤ config.maxMessageSize := by
    unfold dataLen
    rw [hwake.backed.config]
    omega
  have hlen : 0 < q.inner.dataLen (bufs.map List.length).sum := by
    unfold dataLen
    rw [hwake.backed.config, hwake.backed.remoteCapacity]
    omega
  obtain ⟨halive, hreason⟩ := sendGather_ok_zero hwake.accounted.placed hbufs hlen hresult
  have hkept : q.dropped = [] := by
    by_contra hdropped
    rw [hwake.gone hdropped] at halive
    cases halive
  by_contra hnone
  rw [not_or, not_not, not_not, List.append_eq_nil_iff] at hnone
  obtain ⟨hcq, hsq, hposted⟩ := hnone
  have hopen : q.openIds = [] := by
    simp only [openIds, hkept, hcq, hsq, List.map_nil, List.append_nil]
  rcases hreason with hreading | hrefused
  · -- the flag counts a Read, and no request is open after the send
    obtain ⟨hsent, -⟩ := sendGather_posts hwake.accounted.placed bufs post
    have hflag := hsent.reading
    have hbefore := hwake.accounted.reading
    rw [hopen] at hbefore
    rw [hreading, hposted, hbefore] at hflag
    cases hflag
  · have hused := hwake.backed.used
    rw [hopen] at hused
    have hcapacity := hwake.backed.capacity
    exact RingBuffer.reserve_of_used_eq_zero hwake.backed.inRing hused hlen (by omega) hrefused

/-- One byte after a first send that is still in flight, with one slot left: the Read that
the refusal posts wakes the caller. -/
theorem read_backpressure_wakes_full : ∃ q, Machine.run step (start ⟨8, 4, none, 0⟩ 8 3)
        [.sendGather [[0]] (fun _ => true)] = some q ∧
      (q.inner.sendGather [[1]] fun _ => true).result = .ok 0 ∧
      (q.sendCq ≠ [] ∨ q.sq ++ (q.inner.sendGather [[1]] fun _ => true).posted ≠ []) := by
  have hrun : (Machine.run step (start ⟨8, 4, none, 0⟩ 8 3)
      [.sendGather [[0]] (fun _ => true)]).any
      (fun q => (q.inner.sendGather [[1]] fun _ => true).result.toOption == some 0) = true := by
    decide +kernel
  obtain ⟨q, hq, hsome⟩ := (Option.any_eq_true _ _).mp hrun
  have hresult : (q.inner.sendGather [[1]] fun _ => true).result = .ok 0 := by
    cases hr : (q.inner.sendGather [[1]] fun _ => true).result <;> rw [hr] at hsome
    · cases hsome
    · rw [Option.some.inj (eq_of_beq hsome)]
  exact ⟨q, hq, hresult, read_backpressure_wakes (by decide) (by decide)
    (by decide) (by decide +kernel) hq [[1]] (fun _ => true) (by decide) hresult⟩

/-- A ring of 8 bytes and messages of 6: with every request reaped and the peer's head read
back, the 6 bytes fit neither behind position 3 nor before it.  The send accepts nothing,
posts nothing and has no request in flight. -/
theorem read_backpressure_stuck : (Machine.run step (start ⟨8, 6, some 4, 0⟩ 8 4)
      [.sendGather [[0, 1, 2]] (fun _ => true), .complete 0 0, .complete 0 0, .readLand 3,
        .pollSend [.ok 8]]).any (fun q =>
      ((q.inner.sendGather [[0, 1, 2, 3, 4, 5]] fun _ => true).result matches .ok 0) &&
        (q.inner.cachedRemoteHead == 3 && q.sendCq.isEmpty && q.sq.isEmpty &&
          (q.inner.sendGather [[0, 1, 2, 3, 4, 5]] fun _ => true).posted.isEmpty)) =
      true := by
  decide +kernel

end RdmaIo
