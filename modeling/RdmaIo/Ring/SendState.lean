/-
What a send moves, against the requests that it posts.

A send reserves bytes of the send ring, posts one or two Writes and moves its place in the
peer's ring.  When every Write is posted, the completions of the Writes free exactly the
reserved bytes and the peer expects the next Write where the sender puts it.
-/
import RdmaIo.Ring.CreditMoves
import RdmaIo.Ring.ReadRing

namespace RdmaIo

open ReadRingInner (readWr)

/-- A reserve takes the message and the padding before it. -/
theorem RingBuffer.used_reserve {r r' : RingBuffer} {len offset padding : Nat} (hin : r.InRing)
    (h : r.reserve len = some (r', offset, padding)) : r'.used = r.used + (padding + len) := by
  have hhead := hin.head_lt
  have htail := hin.tail_lt
  unfold reserve at h
  split at h
  · cases h
  rename_i hlen
  unfold available used at hlen
  split at h
  · rename_i hcontig
    simp only [Option.some.injEq, Prod.mk.injEq] at h
    obtain ⟨rfl, -, rfl⟩ := h
    unfold contiguousFree at hcontig
    have hmod := RingLog.add_mod_of_le (c := r.capacity) (x := r.tail) (d := len)
      (by omega) (by split_ifs at hcontig <;> omega)
    rw [Nat.mod_eq_of_lt htail] at hmod
    simp only [used, hmod]
    split_ifs at hcontig ⊢ <;> omega
  · rename_i hcontig
    simp only at h
    split at h
    · cases h
    split at h
    · cases h
    simp only [Option.some.injEq, Prod.mk.injEq] at h
    obtain ⟨rfl, -, rfl⟩ := h
    -- A wrap is only needed with the tail at or after the head.
    unfold contiguousFree at hcontig
    simp only [used]
    split_ifs at hcontig hlen ⊢ <;> omega

/-- Bytes of the send ring that the completions of these requests free. -/
def freed (ids : List Nat) : Nat :=
  (ids.map fun id =>
    if id = wrIdReadSentinel ∨ id = wrIdPaddingSentinel then 0 else id).sum

@[simp] theorem freed_append (ids more : List Nat) :
    freed (ids ++ more) = freed ids + freed more := by
  simp [freed]

theorem freed_perm {ids more : List Nat} (h : ids.Perm more) : freed ids = freed more :=
  (h.map _).sum_nat

/-- The Writes of a send free what it reserved. -/
theorem freed_sentWrs (tail : Nat) {len padding : Nat} (bufs : List (List UInt8))
    (hlen : len ≤ 0xFFFF) (hpad : padding ≤ len) :
    freed ((sentWrs tail len padding bufs).map SendWr.wrId) = padding + len := by
  have hread : ¬padding + len = wrIdReadSentinel := by unfold wrIdReadSentinel; omega
  have hmark : ¬padding + len = wrIdPaddingSentinel := by unfold wrIdPaddingSentinel; omega
  unfold sentWrs padWrs
  split <;> simp [freed, paddingWr, dataWr, hread, hmark]

theorem freed_reads {reads : List SendWr} (h : reads = [] ∨ reads = [readWr]) :
    freed (reads.map SendWr.wrId) = 0 := by
  rcases h with rfl | rfl <;> simp [freed, readWr]

/-- What a send moves: the send ring, the place of the next Write in the peer's ring and
the count of the Writes in flight. -/
structure SendState where
  ring : RingBuffer
  remoteCapacity : Nat
  remoteTail : Nat
  inFlight : Nat

def ReadRingInner.sendState (s : ReadRingInner) : SendState :=
  ⟨s.sendRing, s.remoteCapacity, s.remoteWriteTail, s.sendInFlight⟩

def CreditRing.sendState (s : CreditRing) : SendState :=
  ⟨s.sendRing, s.remoteCapacity, s.remoteWriteTail, s.sendInFlight⟩

/-- Where the peer expects the Write after this request. -/
def SendWr.nextAt (remoteCapacity tail : Nat) (wr : SendWr) : Nat :=
  match wr.kind with
  | .padding => 0
  | .data => (wr.remoteOffset + wr.payload.length) % remoteCapacity
  | .read | .credit => tail

namespace SendState

/-- From `v` to `w`, a sender's positions and counters move by exactly these requests. -/
structure Describes (v : SendState) (posted : List SendWr) (w : SendState) : Prop where
  /-- Every reserved byte is freed by the completion of a request. -/
  covered : w.ring.used = v.ring.used + freed (posted.map SendWr.wrId)
  counted : w.inFlight = v.inFlight + posted.countP SendWr.isWrite
  ordered : w.remoteTail = posted.foldl (SendWr.nextAt v.remoteCapacity) v.remoteTail
  /-- The local and the remote position stay in step. -/
  synced : v.ring.tail = v.remoteTail → v.ring.capacity = v.remoteCapacity →
    w.ring.tail = w.remoteTail

variable {v : SendState} {posted : List SendWr}

theorem Describes.quiet (h : posted = [] ∨ posted = [readWr]) : v.Describes posted v := by
  refine ⟨?_, ?_, ?_, fun htail _ => htail⟩
  · rw [freed_reads h, add_zero]
  all_goals rcases h with rfl | rfl <;> rfl

/-- A message whose Writes are all posted. -/
theorem Describes.sent {ring : RingBuffer} {len offset padding : Nat}
    {bufs : List (List UInt8)} (hplaced : v.ring.Placed)
    (hreserve : v.ring.reserve len = some (ring, offset, padding)) (hshort : len ≤ 0xFFFF)
    (hfull : (gatherInto len bufs).length = len) (hposted : posted = [] ∨ posted = [readWr]) :
    v.Describes (sentWrs v.remoteTail len padding bufs ++ posted)
      { v with
        ring
        remoteTail := (writeAt v.remoteTail padding + len) % v.remoteCapacity
        inFlight := v.inFlight + (sentWrs v.remoteTail len padding bufs).length } := by
  obtain ⟨hin, -, hpad⟩ := hplaced.reserve hreserve
  obtain ⟨-, -, -, -, hplace⟩ := RingBuffer.reserve_some hin hreserve
  refine ⟨?_, ?_, ?_, ?_⟩
  · rw [List.map_append, freed_append, freed_sentWrs _ bufs hshort hpad, freed_reads hposted]
    exact (RingBuffer.used_reserve hin hreserve).trans (by rw [add_zero])
  · rw [List.countP_append, List.countP_eq_length_filter, sentWrs_filter_isWrite]
    rcases hposted with rfl | rfl <;> rfl
  · have hwrites : (sentWrs v.remoteTail len padding bufs).foldl
        (SendWr.nextAt v.remoteCapacity) v.remoteTail =
        (writeAt v.remoteTail padding + len) % v.remoteCapacity := by
      simp only [sentWrs, List.foldl_append, List.foldl_cons, List.foldl_nil, SendWr.nextAt,
        dataWr, hfull]
    rw [List.foldl_append, hwrites]
    rcases hposted with rfl | rfl <;> rfl
  · intro htail hcap
    rcases hplace with ⟨rfl, -, -, hring⟩ | ⟨hpos, -, -, -, hlen, hring⟩
    · simp only [hring, writeAt, lt_irrefl, if_false, htail, hcap]
    · simp only [hring, writeAt, gt_iff_lt, hpos, if_true, zero_add]
      rw [Nat.mod_eq_of_lt (hcap ▸ hlen)]

end SendState

theorem ReadRingInner.sendGather_described {s : ReadRingInner} (hplaced : s.sendRing.Placed)
    (bufs : List (List UInt8)) {post : WrKind → Bool} (hpadding : post .padding = true)
    (hdata : post .data = true) : s.sendState.Describes (s.sendGather bufs post).posted
      (s.sendGather bufs post).inner.sendState := by
  have hcase := sendGather_cases hplaced bufs post
  generalize s.sendGather bufs post = r at hcase ⊢
  cases hcase with
  | gone | empty | refused => exact .quiet (.inl rfl)
  | waits =>
    obtain ⟨⟨reading, hinner⟩, hposted⟩ := heartbeat_spec s post
    rw [hinner]
    exact .quiet hposted
  | reserved ring _ padding _ _ hreserve =>
    obtain ⟨⟨_, _, hinner⟩, _, hreads, hposted⟩ :=
      s.sendReserved_spec bufs ring _ padding (by simp [hpadding]) hdata
    rw [hinner, hposted]
    refine .sent hplaced hreserve (min_le_right _ _) ?_ hreads
    rw [gatherInto_length]
    unfold dataLen
    omega

/-- What a credit ring posts from `s` to `t`, with a credit for each Write. -/
structure CreditRing.Described (s : CreditRing) (posted : List SendWr) (t : CreditRing) : Prop where
  queue : t.qp.sq = s.qp.sq ++ posted
  state : s.sendState.Describes posted t.sendState
  credits : t.remoteCredits + posted.countP SendWr.isWrite = s.remoteCredits

namespace CreditRing

variable {s : CreditRing}

theorem Described.none (s : CreditRing) : s.Described [] s :=
  ⟨(List.append_nil _).symm, .quiet (.inl rfl), rfl⟩

theorem sendWithCredit_described (hplaced : s.sendRing.Placed) (hcredit : 0 < s.remoteCredits)
    (bufs : List (List UInt8)) {post : WrKind → Bool} (hpadding : post .padding = true)
    (hdata : post .data = true) : ∃ posted, s.Described posted (s.sendWithCredit bufs post).1 := by
  rcases sendWithCredit_spec hplaced hcredit bufs post with
    hsame | ⟨hfails, -⟩ | ⟨ring, offset, padding, hreserve, hwrites, hsent⟩
  · rw [hsame]
    exact ⟨[], .none s⟩
  · simp [hpadding, hdata] at hfails
  · obtain ⟨_, hfull⟩ := s.dataLen_spec bufs
    have hstate := SendState.Describes.sent (v := s.sendState) hplaced hreserve
      (by omega) hfull (.inl rfl)
    rw [List.append_nil] at hstate
    rw [hsent]
    refine ⟨_, rfl, hstate, ?_⟩
    rw [List.countP_eq_length_filter, sentWrs_filter_isWrite]
    refine Nat.sub_add_cancel ?_
    rwa [sentWrs, List.length_append]

theorem sendGather_described (hplaced : s.sendRing.Placed) (bufs : List (List UInt8))
    {post : WrKind → Bool} (hpadding : post .padding = true) (hdata : post .data = true)
    (cq : List WorkCompletion) (drain : Except TransportError (List RecvPosts)) :
    ∃ t posted, (t = s ∨ t = (s.drainRecvCredits cq drain).1) ∧
      t.Described posted (s.sendGather bufs post cq drain).inner := by
  unfold sendGather
  split
  · exact ⟨s, [], .inl rfl, .none s⟩
  split
  · exact ⟨s, [], .inl rfl, .none s⟩
  split
  · have hdrained := (s.drainRecvCredits_act cq drain).placed hplaced
    simp only
    split
    · exact ⟨_, [], .inr rfl, .none _⟩
    · obtain ⟨posted, hposted⟩ := sendWithCredit_described hdrained
        (Nat.pos_of_ne_zero ‹_›) bufs hpadding hdata
      exact ⟨_, posted, .inr rfl, hposted⟩
  · obtain ⟨posted, hposted⟩ := sendWithCredit_described hplaced
      (Nat.pos_of_ne_zero ‹_›) bufs hpadding hdata
    exact ⟨s, posted, .inl rfl, hposted⟩

end CreditRing

/-- When the Writes of a send are posted, the positions, counters and credits of both
transports describe what was posted, also when a Read is not. -/
theorem failed_read_described {r : ReadRingInner} {c : CreditRing}
    (hread : r.sendRing.Placed) (hcredit : c.sendRing.Placed) (bufs : List (List UInt8))
    {post : WrKind → Bool} (hpadding : post .padding = true) (hdata : post .data = true)
    (cq : List WorkCompletion) (drain : Except TransportError (List RecvPosts)) :
    r.sendState.Describes (r.sendGather bufs post).posted
        (r.sendGather bufs post).inner.sendState ∧
      ∃ t posted, (t = c ∨ t = (c.drainRecvCredits cq drain).1) ∧
        t.Described posted (c.sendGather bufs post cq drain).inner :=
  ⟨ReadRingInner.sendGather_described hread bufs hpadding hdata,
    CreditRing.sendGather_described hcredit bufs hpadding hdata cq drain⟩

/-- A fresh read ring with four slots: the Write is posted, the Read after it fails. -/
theorem failed_read_described_fresh :
    let r := ReadRingInner.fromParts ⟨8, 4, none, 0⟩ 8 4
    let c := CreditRing.fromParts ⟨8, 4, none⟩ 8 2
    let post : WrKind → Bool := fun kind => kind != .read
    let bufs : List (List UInt8) := [[0, 1, 2, 3]]
    ((r.sendGather bufs post).posted.map SendWr.kind = [.data] ∧
        (r.sendGather bufs post).inner.peerDisconnected = true) ∧
      r.sendState.Describes (r.sendGather bufs post).posted
        (r.sendGather bufs post).inner.sendState ∧
      ∃ t posted, (t = c ∨ t = (c.drainRecvCredits [] (.ok [])).1) ∧
        t.Described posted (c.sendGather bufs post [] (.ok [])).inner :=
  ⟨by decide, failed_read_described (.new 8) (.new 8) _ rfl rfl [] (.ok [])⟩

end RdmaIo
