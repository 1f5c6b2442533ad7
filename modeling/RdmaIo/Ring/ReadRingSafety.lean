/-
No-overwrite of the read ring.

For one direction, `done`, `arrived` and `pending` split the log of all Writes
posted by the sender into those taken by the receiver's polls, those waiting in
its completion queue and those on the wire.  The sender's cached head, a landed
snapshot and the receiver's head are all virtual positions of that log, in this
order, and the sender never runs a full ring ahead of its cached head.
-/
import RdmaIo.Ring.ReadRingSystem

namespace RdmaIo

open List
open ReadRingInner (fromParts readWr sendGather_spec dataLen)
open ReadEndpoint (afterPost new pollRecv complete repostRecv)

namespace ReadRingInner

/-- The receive side of a peer that has taken the entries `done`, of which all
before number `h` are released. -/
structure RecvSide (c : Nat) (done : List Entry) (h : Nat) (s : ReadRingInner) : Prop where
  window : RecvWindow s.maxOutstanding s.virtualIdxMap s.recvTracker done h s.recvArrivalSeq
  count : s.recvArrivalSeq = done.length
  capacity : s.recvRing.capacity = c
  head : s.recvRing.head = logPos done h % c
  published : s.offsetBuffer = s.recvRing.head
  slotIdx : s.headSlotIdx = h % s.maxOutstanding
  slotCount : s.slotLengths.length = s.maxOutstanding
  slots : ∀ (i : Nat) (e : Entry), h ≤ i → done[i]? = some e →
    s.slotLengths[i % s.maxOutstanding]? = some e.len
  cursor : s.nextVirtIdx < s.maxOutstanding

/-- The fields that describe what a peer has sent are the same. -/
structure SameSend (s t : ReadRingInner) : Prop where
  config : t.config = s.config
  remoteCapacity : t.remoteCapacity = s.remoteCapacity
  sendRing : t.sendRing = s.sendRing
  remoteWriteTail : t.remoteWriteTail = s.remoteWriteTail
  cachedRemoteHead : t.cachedRemoteHead = s.cachedRemoteHead
  readBuf : t.readBuf = s.readBuf
  maxOutstanding : t.maxOutstanding = s.maxOutstanding

theorem SameSend.refl (s : ReadRingInner) : s.SameSend s :=
  ⟨rfl, rfl, rfl, rfl, rfl, rfl, rfl⟩

variable {s t : ReadRingInner}

variable {u : ReadRingInner} {k r landed : Nat} {e : Entry}
  {polls : List (Except TransportError (List Bool))} {arrived : List Entry}

theorem SameSend.trans (hst : s.SameSend t) (htu : t.SameSend u) : s.SameSend u :=
  ⟨htu.1.trans hst.1, htu.2.trans hst.2, htu.3.trans hst.3, htu.4.trans hst.4,
    htu.5.trans hst.5, htu.6.trans hst.6, htu.7.trans hst.7⟩

/-- The fields that describe what a peer has received are the same. -/
structure SameRecv (s t : ReadRingInner) : Prop where
  virtualIdxMap : t.virtualIdxMap = s.virtualIdxMap
  nextVirtIdx : t.nextVirtIdx = s.nextVirtIdx
  maxOutstanding : t.maxOutstanding = s.maxOutstanding
  recvArrivalSeq : t.recvArrivalSeq = s.recvArrivalSeq
  slotLengths : t.slotLengths = s.slotLengths
  headSlotIdx : t.headSlotIdx = s.headSlotIdx
  recvRing : t.recvRing = s.recvRing
  offsetBuffer : t.offsetBuffer = s.offsetBuffer
  recvTracker : t.recvTracker = s.recvTracker
  doorbells : t.doorbells = s.doorbells

theorem SameRecv.refl (s : ReadRingInner) : s.SameRecv s :=
  ⟨rfl, rfl, rfl, rfl, rfl, rfl, rfl, rfl, rfl, rfl⟩

theorem SameRecv.trans (hst : s.SameRecv t) (htu : t.SameRecv u) : s.SameRecv u :=
  ⟨htu.1.trans hst.1, htu.2.trans hst.2, htu.3.trans hst.3, htu.4.trans hst.4, htu.5.trans hst.5,
    htu.6.trans hst.6, htu.7.trans hst.7, htu.8.trans hst.8, htu.9.trans hst.9, htu.10.trans hst.10⟩

variable {c h : Nat} {done : List Entry}

theorem RecvSide.of_sameRecv (hs : RecvSide c done h s) (hst : s.SameRecv t) :
    RecvSide c done h t where
  window := by
    rw [hst.maxOutstanding, hst.virtualIdxMap, hst.recvTracker, hst.recvArrivalSeq]
    exact hs.window
  count := hst.recvArrivalSeq.trans hs.count
  capacity := by rw [hst.recvRing, hs.capacity]
  head := by rw [hst.recvRing, hs.head]
  published := by rw [hst.offsetBuffer, hst.recvRing, hs.published]
  slotIdx := by rw [hst.headSlotIdx, hst.maxOutstanding, hs.slotIdx]
  slotCount := by rw [hst.slotLengths, hst.maxOutstanding, hs.slotCount]
  slots := by
    rw [hst.slotLengths, hst.maxOutstanding]
    exact hs.slots
  cursor := by
    rw [hst.nextVirtIdx, hst.maxOutstanding]
    exact hs.cursor

/-- Passing `k` slots moves the head by their lengths. -/
theorem releaseSlots_eq (hcap : s.recvRing.capacity = c)
    (hhead : s.recvRing.head = logPos done h % c) (hidx : s.headSlotIdx = h % s.maxOutstanding)
    (hslots : ∀ (i : Nat) (e : Entry), h ≤ i → done[i]? = some e →
      s.slotLengths[i % s.maxOutstanding]? = some e.len) (hk : h + k ≤ done.length) :
    s.releaseSlots k =
      { s with
        recvRing := { s.recvRing with head := logPos done (h + k) % c }
        headSlotIdx := (h + k) % s.maxOutstanding } := by
  induction k generalizing h s with
  | zero => rw [releaseSlots, add_zero, ← hhead, ← hidx]
  | succ k ih =>
    obtain ⟨e, he⟩ : ∃ e, done[h]? = some e :=
      ⟨_, List.getElem?_eq_getElem (by omega)⟩
    have hlen : s.slotLengths.getD s.headSlotIdx 0 = e.len := by
      rw [getD_eq_getElem?_getD, hidx, hslots h e le_rfl he]
      rfl
    rw [releaseSlots, hlen, ih (h := h + 1)]
    · simp only [RingBuffer.release, show h + 1 + k = h + (k + 1) by omega]
    · exact hcap
    · simp only [RingBuffer.release]
      rw [hhead, hcap, logPos_succ he, Nat.mod_add_mod]
    · simp only [hidx, Nat.mod_add_mod]
    · intro i e' hi he'
      exact hslots i e' (by omega) he'
    · omega

theorem releaseSlot_sameSend (s : ReadRingInner) (slot : Nat) : s.SameSend (s.releaseSlot slot) ∧
      (s.releaseSlot slot).doorbells = s.doorbells ∧
      (s.releaseSlot slot).virtualIdxMap = s.virtualIdxMap ∧
      (s.releaseSlot slot).recvArrivalSeq = s.recvArrivalSeq := by
  obtain ⟨_, _, _, _, heq⟩ := s.releaseSlot_frame slot
  rw [heq]
  exact ⟨⟨rfl, rfl, rfl, rfl, rfl, rfl, rfl⟩, rfl, rfl, rfl⟩

/-- Releasing a tracker slot keeps the receive side in step with its log. -/
theorem releaseSlot_recvSide (hc : c ≤ 65536) (hpos : 0 < c) {slot : Nat}
    (hk : (s.recvTracker.release slot).2 = k) (hle : h + k ≤ done.length)
    (hwindow : RecvWindow s.maxOutstanding s.virtualIdxMap
      (s.recvTracker.release slot).1 done (h + k) s.recvArrivalSeq)
    (hcount : s.recvArrivalSeq = done.length) (hcap : s.recvRing.capacity = c)
    (hhead : s.recvRing.head = logPos done h % c) (hpub : s.offsetBuffer = s.recvRing.head)
    (hidx : s.headSlotIdx = h % s.maxOutstanding)
    (hslotCount : s.slotLengths.length = s.maxOutstanding)
    (hslots : ∀ (i : Nat) (e : Entry), h ≤ i → done[i]? = some e →
      s.slotLengths[i % s.maxOutstanding]? = some e.len)
    (hcursor : s.nextVirtIdx < s.maxOutstanding) :
    RecvSide c done (h + k) (s.releaseSlot slot) := by
  unfold releaseSlot
  simp only [hk]
  split
  · have heq := releaseSlots_eq (s := { s with recvTracker := (s.recvTracker.release slot).1 })
      hcap hhead hidx hslots hle
    simp only [advanceRecvHead, heq]
    refine ⟨hwindow, hcount, hcap, rfl, ?_, rfl, hslotCount, ?_, hcursor⟩
    · have := Nat.mod_lt (logPos done (h + k)) hpos
      exact Nat.mod_eq_of_lt (by omega)
    · intro i e hi he
      exact hslots i e (by omega) he
  · have hzero : k = 0 := by omega
    subst hzero
    exact ⟨hwindow, hcount, hcap, hhead, hpub, hidx, hslotCount, hslots, hcursor⟩

/-- Appending an entry leaves the positions of what was taken before. -/
theorem RecvSide.slots_append (hs : RecvSide c done h s) (e : Entry)
    (hroom : s.recvArrivalSeq < h + s.maxOutstanding) (i : Nat) (f : Entry)
    (hi : h ≤ i) (hf : (done ++ [e])[i]? = some f) :
    (s.slotLengths.set (s.recvArrivalSeq % s.maxOutstanding) e.len)[
      i % s.maxOutstanding]? = some f.len := by
  have hpos := hs.window.pos
  have hslot : s.recvArrivalSeq % s.maxOutstanding < s.slotLengths.length := by
    rw [hs.slotCount]
    exact Nat.mod_lt _ hpos
  rcases lt_or_ge i done.length with hlt | hge
  · rw [List.getElem?_append_left hlt] at hf
    rw [List.getElem?_set_ne, hs.slots i f hi hf]
    intro hmod
    have := CompletionTracker.mod_window_inj (h := h) ⟨hs.window.le, hroom⟩
      ⟨hi, by rw [hs.count] at hroom; omega⟩ hmod
    rw [hs.count] at this
    omega
  · have hlast : i = done.length := by
      have := (List.getElem?_eq_some_iff.mp hf).1
      rw [length_append, length_singleton] at this
      omega
    subst hlast
    simp only [List.getElem?_concat_length, Option.some.injEq] at hf
    subst hf
    rw [← hs.count, List.getElem?_set_self hslot]

/-- Taking the completion of the next entry, with room for its number in the
tracker and its doorbell reposted, succeeds and keeps the receive side in step. -/
theorem recvOne_recvSide (hc : c ≤ 65536) (hs : RecvSide c done h s) (he : e.Fits c)
    (hroom : s.recvArrivalSeq < h + s.maxOutstanding) :
    ∃ t rc h', s.recvOne e.arrival true = (t, .ok rc) ∧ h ≤ h' ∧
      RecvSide c (done ++ [e]) h' t ∧ s.SameSend t ∧
      t.doorbells = s.doorbells + 1 ∧
      t.recvArrivalSeq = s.recvArrivalSeq + 1 ∧
      ∀ (idx o l q : Nat), t.virtualIdxMap[idx]? = some (some (o, l, q)) →
        s.virtualIdxMap[idx]? = some (some (o, l, q)) ∨ q = s.recvArrivalSeq := by
  have hdecode := Entry.decode_arrival hc he
  obtain ⟨hpos, _, hpad, -⟩ := he
  have hcapacity := hs.capacity
  have hwin := hs.window.append [e]
  have hhead : s.recvRing.head = logPos (done ++ [e]) h % c := by
    rw [logPos_append _ (by rw [← hs.count]; exact hs.window.le), hs.head]
  have hcount : s.recvArrivalSeq + 1 = (done ++ [e]).length := by
    rw [length_append, length_singleton, hs.count]
  have hlog : (done ++ [e])[s.recvArrivalSeq]? = some e := by
    rw [hs.count]
    simp
  have hnot : ¬(e.offset ≥ s.recvRing.capacity ∨ (if e.data then e.len else 0) > 0 ∧
        e.offset + (if e.data then e.len else 0) > s.recvRing.capacity) := by
    split <;> omega
  unfold recvOne
  simp only [hdecode, if_neg hnot]
  cases hdata : e.data with
  | false =>
    have hlen : s.recvRing.capacity - e.offset = e.len := by
      have := hpad hdata
      omega
    obtain ⟨k, hk, hle, hwin'⟩ := hwin.arrive_padding hroom
    obtain ⟨hsame, hbells, hmap, hseq⟩ := releaseSlot_sameSend
      { s.repostDoorbell with
        recvArrivalSeq := s.recvArrivalSeq + 1
        slotLengths := s.slotLengths.set (s.recvArrivalSeq % s.maxOutstanding) e.len }
      (s.recvArrivalSeq % s.maxOutstanding)
    refine ⟨_, none, h + k, rfl, Nat.le_add_right h k, ?_, ?_, ?_, ?_, ?_⟩
    · simp only [recvPadding, repostDoorbell, hlen]
      refine releaseSlot_recvSide hc (by omega) (h := h) (k := k) hk
        (by rw [← hcount]; exact hle) hwin' hcount hcapacity hhead
        hs.published hs.slotIdx ?_ (hs.slots_append e hroom) hs.cursor
      simp [hs.slotCount]
    · simp only [recvPadding, repostDoorbell, hlen]
      exact { hsame with }
    · simp only [recvPadding, repostDoorbell, hlen]
      exact hbells
    · simp only [recvPadding, repostDoorbell, hlen]
      exact hseq
    · intro idx o l q hq
      simp only [recvPadding, repostDoorbell, hlen] at hq
      exact .inl (hmap ▸ hq)
  | true =>
    obtain ⟨idx, hfind⟩ := hs.window.findVirtIdx_isSome hroom hs.cursor
    have hfree := findVirtIdx_some hs.window.mapSize hs.window.pos hs.cursor hfind
    have hentry : (done ++ [e])[s.recvArrivalSeq]? = some ⟨e.offset, e.len, true⟩ := by
      rw [hlog, ← hdata]
    refine ⟨(s.recvData idx e.offset e.len).repostDoorbell, some ⟨idx, e.len⟩, h, ?_, le_rfl, ?_,
      ⟨rfl, rfl, rfl, rfl, rfl, rfl, rfl⟩, rfl, rfl, ?_⟩
    · simp [hfind, ne_of_gt hpos, Entry.arrival, WorkCompletion.isSuccess]
    · refine ⟨hwin.arrive_data hroom hfree hentry, hcount, hcapacity, hhead, hs.published,
        hs.slotIdx, ?_, hs.slots_append e hroom, Nat.mod_lt _ hs.window.pos⟩
      simp [recvData, repostDoorbell, hs.slotCount]
    · intro j o l q hj
      simp only [recvData, repostDoorbell, List.getElem?_set] at hj
      split at hj
      · split at hj
        · simp only [Option.some.injEq, Prod.mk.injEq] at hj
          exact .inr hj.2.2.symm
        · cases hj
      · exact .inl hj

/-- Every message still held leaves room for `r` more arrivals in the tracker. -/
def Room (s : ReadRingInner) (r : Nat) : Prop :=
  ∀ cell ∈ s.virtualIdxMap, ∀ held ∈ cell, s.recvArrivalSeq + r ≤ held.2.2 + s.maxOutstanding

instance (s : ReadRingInner) (r : Nat) : Decidable (s.Room r) :=
  inferInstanceAs (Decidable (∀ cell ∈ s.virtualIdxMap, ∀ held ∈ cell, _ ≤ _))

theorem room_iff : s.Room r ↔ ∀ (idx o l q : Nat), s.virtualIdxMap[idx]? = some (some (o, l, q)) →
        s.recvArrivalSeq + r ≤ q + s.maxOutstanding := by
  constructor
  · intro hroom idx o l q hq
    exact hroom _ (mem_of_getElem? hq) (o, l, q) rfl
  · intro hroom cell hcell held hheld
    obtain ⟨idx, hidx⟩ := mem_iff_getElem?.mp hcell
    exact hroom idx held.1 held.2.1 held.2.2 (by rw [hidx, hheld])

theorem RecvSide.lt_of_room (hs : RecvSide c done h s) (hroom : s.Room (r + 1)) :
    s.recvArrivalSeq < h + s.maxOutstanding := by
  apply hs.window.lt_of_held
  intro idx o l q hq
  have := room_iff.mp hroom idx o l q hq
  omega

theorem RecvSide.stash (hs : RecvSide c done h s) (stash : List RecvCompletion) :
    RecvSide c done h { s with recvStash := stash } :=
  { hs with }

theorem SameSend.stash (hst : s.SameSend t)
    (stash : List RecvCompletion) : s.SameSend { t with recvStash := stash } :=
  { hst with }

/-- The result of taking the entries `es` without losing any. -/
structure Took (c : Nat) (done es : List Entry) (h : Nat) (s t : ReadRingInner) : Prop where
  recv : ∃ h', h ≤ h' ∧ RecvSide c (done ++ es) h' t
  send : s.SameSend t
  doorbells : t.doorbells = s.doorbells + es.length
  room : ∀ r, s.Room (es.length + r) → es.length + r ≤ s.maxOutstanding → t.Room r

theorem Took.refl (hs : RecvSide c done h s) (stash : List RecvCompletion) :
    Took c done [] h s { s with recvStash := stash } where
  recv := ⟨h, le_rfl, by simpa using hs.stash stash⟩
  send := (SameSend.refl s).stash stash
  doorbells := rfl
  room r hroom _ := by simpa [Room] using hroom

/-- Going on from where the first entries left the receive side. -/
theorem Took.join {es : List Entry} (hst : Took c done es h s t) :
    ∃ h', RecvSide c (done ++ es) h' t ∧
      ∀ (fs : List Entry) (u : ReadRingInner),
        Took c (done ++ es) fs h' t u → Took c done (es ++ fs) h s u := by
  obtain ⟨h', hle, ht⟩ := hst.recv
  refine ⟨h', ht, fun fs u hnext => ?_⟩
  obtain ⟨h'', hle', hu⟩ := hnext.recv
  refine ⟨⟨h'', hle.trans hle', by simpa using hu⟩, hst.send.trans hnext.send, ?_, ?_⟩
  · rw [hnext.doorbells, hst.doorbells, length_append]
    omega
  · intro r hroom hlen
    rw [length_append] at hroom hlen
    apply hnext.room r
    · apply hst.room
      · rwa [← add_assoc]
      · omega
    · rw [hst.send.maxOutstanding]
      omega

theorem recvOne_took (hc : c ≤ 65536) (hs : RecvSide c done h s) (he : e.Fits c)
    (hroom : s.Room (r + 1)) :
    ∃ t rc, s.recvOne e.arrival true = (t, .ok rc) ∧ Took c done [e] h s t := by
  obtain ⟨t, rc, h', heq, hle, ht, hsame, hbells, hseq, hmap⟩ :=
    recvOne_recvSide hc hs he (hs.lt_of_room hroom)
  refine ⟨t, rc, heq, ⟨h', hle, ht⟩, hsame, hbells, ?_⟩
  intro r' hroom' hlen
  refine room_iff.mpr fun idx o l q hq => ?_
  simp only [length_singleton] at hroom' hlen
  rw [hseq, hsame.maxOutstanding]
  rcases hmap idx o l q hq with hold | rfl
  · have := room_iff.mp hroom' idx o l q hold
    omega
  · omega

/-- With room for its number and its place in the ring, a completion fails for its doorbell
only. -/
theorem recvOne_refused (hc : c ≤ 65536) (hs : RecvSide c done h s) (he : e.Fits c)
    (hroom : s.recvArrivalSeq < h + s.maxOutstanding) : ∃ t entered, s.recvOne e.arrival false =
      (t, .error ⟨.invalidArg "repost_doorbell failed", entered⟩) := by
  have hdecode := Entry.decode_arrival hc he
  obtain ⟨hpos, _, -, -⟩ := he
  have hcapacity := hs.capacity
  have hnot : ¬(e.offset ≥ s.recvRing.capacity ∨ (if e.data then e.len else 0) > 0 ∧
        e.offset + (if e.data then e.len else 0) > s.recvRing.capacity) := by
    split <;> omega
  unfold recvOne
  simp only [hdecode, if_neg hnot]
  cases hdata : e.data with
  | false => exact ⟨_, false, rfl⟩
  | true =>
    obtain ⟨idx, hfind⟩ := hs.window.findVirtIdx_isSome hroom hs.cursor
    refine ⟨{ s.recvData idx e.offset e.len with peerDisconnected := true }, true, ?_⟩
    simp [hfind, ne_of_gt hpos, Entry.arrival, WorkCompletion.isSuccess]

/-- What comes of a batch: it is taken whole, or it stops at a doorbell that is not
reposted. -/
def BatchTook (c : Nat) (done : List Entry) (batch : List (Entry × Bool)) (h : Nat)
    (s : ReadRingInner) (r : RecvBatchOutcome) : Prop :=
  r.stop = none ∧ Took c done (batch.map Prod.fst) h s r.inner ∨
    r.stop = some (.invalidArg "repost_doorbell failed") ∧ ∃ b ∈ batch, b.2 = false

theorem recvBatch_took (hc : c ≤ 65536) (outLen : Nat) {batch : List (Entry × Bool)}
    (hs : RecvSide c done h s) (hfits : ∀ b ∈ batch, b.1.Fits c)
    (hroom : s.Room batch.length) (hlen : batch.length ≤ s.maxOutstanding)
    (out : List RecvCompletion) (got : Bool) : BatchTook c done batch h s
      (recvBatch outLen s out got (batch.map fun b => (b.1.arrival, b.2))) := by
  induction batch generalizing done h s out got with
  | nil => exact .inl ⟨rfl, Took.refl hs s.recvStash⟩
  | cons b batch ih =>
    obtain ⟨e, repost⟩ := b
    have he := hfits (e, repost) mem_cons_self
    cases repost with
    | false =>
      obtain ⟨t, _, hone⟩ := recvOne_refused hc hs he (hs.lt_of_room hroom)
      refine .inr ⟨?_, (e, false), mem_cons_self, rfl⟩
      simp only [map_cons, recvBatch, hone]
    | true =>
      obtain ⟨t, rc, hone, htook⟩ := recvOne_took hc hs he hroom
      -- the rest of the batch, after an optional change of the stash
      have hrest : ∀ (stash out : List RecvCompletion) (got : Bool),
          BatchTook c done ((e, true) :: batch) h s
            (recvBatch outLen { t with recvStash := stash } out got
              (batch.map fun b => (b.1.arrival, b.2))) := by
        intro stash out got
        have hroom' : t.Room batch.length := by
          apply htook.room batch.length
          · simpa [add_comm] using hroom
          · simpa [add_comm] using hlen
        have hlen' : batch.length ≤ t.maxOutstanding := by
          rw [htook.send.maxOutstanding]
          exact Nat.le_of_succ_le hlen
        have hstashed : Took c done [e] h s { t with recvStash := stash } := by
          obtain ⟨h', hle, ht⟩ := htook.recv
          exact ⟨⟨h', hle, ht.stash stash⟩, htook.send.stash stash, htook.doorbells, htook.room⟩
        obtain ⟨_, ht, hjoin⟩ := hstashed.join
        rcases ih ht (fun b hb => hfits b (mem_cons_of_mem _ hb)) hroom' hlen'
          out got with ⟨hstop, htail⟩ | ⟨hstop, b, hb, hfalse⟩
        · exact .inl ⟨hstop, hjoin _ _ htail⟩
        · exact .inr ⟨hstop, b, mem_cons_of_mem _ hb, hfalse⟩
      rw [map_cons, recvBatch, hone]
      cases rc with
      | none => exact hrest t.recvStash out got
      | some rc =>
        simp only
        split
        · exact hrest t.recvStash (out ++ [rc]) true
        · exact hrest (t.recvStash ++ [rc]) out true

/-- Completions that a script of polls can take at most. -/
def polled (polls : List (Except TransportError (List Bool))) : Nat :=
  (polls.map fun poll =>
    match poll with
    | .ok reposts => min reposts.length 8
    | .error _ => 0).sum

/-- No doorbell repost of the script fails. -/
def reposts (polls : List (Except TransportError (List Bool))) : Bool :=
  polls.all fun poll =>
    match poll with
    | .ok outcomes => outcomes.all id
    | .error _ => true

theorem map_fst_zip_eq_take {α β : Type} (xs : List α) (ys : List β) :
    (xs.zip ys).map Prod.fst = xs.take (xs.zip ys).length := by
  induction xs generalizing ys with
  | nil => rfl
  | cons _ _ ih =>
    cases ys with
    | nil => rfl
    | cons _ ys => simp [ih ys]

/-- The errors of a `poll_recv` that has room: those of the completion queue, and a doorbell
repost that fails. -/
def PollError (polls : List (Except TransportError (List Bool))) (e : TransportError) :
    Prop :=
  .error e ∈ polls ∨ reposts polls = false ∧ e = .invalidArg "repost_doorbell failed"

theorem PollError.cons {poll : Except TransportError (List Bool)} {e : TransportError}
    (h : PollError polls e) : PollError (poll :: polls) e := by
  rcases h with hmem | ⟨hrepost, he⟩
  · exact .inl (mem_cons_of_mem _ hmem)
  · refine .inr ⟨?_, he⟩
    rw [reposts] at hrepost ⊢
    rw [all_cons, hrepost, Bool.and_false]

/-- What `poll_recv` comes to when the tracker has room for all that it can take: it
loses nothing while its doorbell reposts succeed. -/
structure Polled (c : Nat) (done arrived : List Entry) (h : Nat)
    (polls : List (Except TransportError (List Bool))) (s : ReadRingInner)
    (r : PollRecvOutcome) : Prop where
  took : reposts polls = true → r.lost = [] ∧ ∃ k, r.cq = (arrived.drop k).map Entry.arrival ∧
      Took c done (arrived.take k) h s r.inner
  error : ∀ e, r.ready = some (.error e) → PollError polls e

theorem pollRecvLoop_took (hc : c ≤ 65536) (outLen : Nat) (hs : RecvSide c done h s)
    (hfits : ∀ e ∈ arrived, e.Fits c) (hroom : s.Room (min arrived.length (polled polls)))
    (hlen : arrived.length ≤ s.maxOutstanding) (out : List RecvCompletion) :
    Polled c done arrived h polls s
      (pollRecvLoop outLen s out (arrived.map Entry.arrival) polls) := by
  induction polls generalizing done arrived h s out with
  | nil =>
    refine ⟨fun _ => ⟨rfl, 0, rfl, Took.refl hs s.recvStash⟩, fun e he => ?_⟩
    simp only [pollRecvLoop] at he
    split at he <;> cases he
  | cons poll polls ih =>
    cases poll with
    | error =>
      refine ⟨fun _ => ⟨rfl, 0, rfl, Took.refl hs s.recvStash⟩, fun e he => ?_⟩
      cases he
      exact .inl mem_cons_self
    | ok outcomes =>
      have hbatch : (arrived.map Entry.arrival).zip (outcomes.take 8) =
          (arrived.zip (outcomes.take 8)).map fun b => (b.1.arrival, b.2) := by
        rw [zip_map_left]
        rfl
      have hfirst := map_fst_zip_eq_take arrived (outcomes.take 8)
      have hcount : (arrived.zip (outcomes.take 8)).length =
          min arrived.length (min 8 outcomes.length) := by
        rw [length_zip, length_take]
      have hpolled : polled (.ok outcomes :: polls) = min 8 outcomes.length + polled polls := by
        simp [polled, Nat.min_comm]
      have hroom' : s.Room (arrived.zip (outcomes.take 8)).length := by
        refine room_iff.mpr fun idx o l q hq => ?_
        have := room_iff.mp hroom idx o l q hq
        omega
      rcases recvBatch_took hc outLen hs
        (fun b hb => hfits b.1 (of_mem_zip hb).1) hroom' (by omega) out false with
        ⟨hstop, htook⟩ | ⟨hstop, b, hb, hfalse⟩
      · rw [hfirst] at htook
        have hsplit : (arrived.take (arrived.zip (outcomes.take 8)).length).length +
            min (arrived.drop (arrived.zip (outcomes.take 8)).length).length
              (polled polls) =
            min arrived.length (polled (.ok outcomes :: polls)) := by
          rw [hpolled, length_take, length_drop]
          omega
        simp only [pollRecvLoop, hbatch, hstop, length_map, ← map_drop]
        split
        · exact ⟨fun _ => ⟨rfl, _, rfl, htook⟩, nofun⟩
        · obtain ⟨_, ht, hjoin⟩ := htook.join
          have htail := ih ht (fun e he => hfits e (mem_of_mem_drop he))
            (htook.room _ (by rw [hsplit]; exact hroom) (by rw [hsplit]; omega))
            (by rw [htook.send.maxOutstanding, length_drop]; omega) (recvBatch outLen s out false
              ((arrived.zip (outcomes.take 8)).map fun b => (b.1.arrival, b.2))).out
          refine ⟨fun hreposts => ?_, fun e he => (htail.error e he).cons⟩
          rw [reposts, all_cons, Bool.and_eq_true] at hreposts
          obtain ⟨hlost, k, hk, hlast⟩ := htail.took hreposts.2
          refine ⟨hlost, (arrived.zip (outcomes.take 8)).length + k, ?_, ?_⟩
          · rw [hk, drop_drop]
          · rw [take_add]
            exact hjoin _ _ hlast
      · have hbad : reposts (.ok outcomes :: polls) = false := by
          have hmem := mem_of_mem_take (of_mem_zip hb).2
          have hnot : outcomes.all id = false :=
            all_eq_false.mpr ⟨b.2, hmem, by simp [hfalse]⟩
          simp only [reposts, all_cons, hnot, Bool.false_and]
        simp only [pollRecvLoop, hbatch, hstop]
        refine ⟨fun hreposts => ?_, fun e he => .inr ⟨hbad, ?_⟩⟩
        · rw [hbad] at hreposts
          cases hreposts
        · cases he
          rfl

theorem pollRecv_took (hc : c ≤ 65536) (outLen : Nat) (hs : RecvSide c done h s)
    (hfits : ∀ e ∈ arrived, e.Fits c) (hroom : s.Room (min arrived.length (polled polls)))
    (hlen : arrived.length ≤ s.maxOutstanding) : Polled c done arrived h polls s
      (s.pollRecv outLen (arrived.map Entry.arrival) polls) := by
  have hstash := Took.refl hs (s.recvStash.drop outLen)
  unfold pollRecv
  simp only
  split
  · exact ⟨fun _ => ⟨rfl, 0, rfl, hstash⟩, nofun⟩
  · obtain ⟨_, ht, hjoin⟩ := hstash.join
    have hloop := pollRecvLoop_took hc outLen ht hfits hroom hlen (s.recvStash.take outLen)
    refine ⟨fun hreposts => ?_, hloop.error⟩
    obtain ⟨hlost, k, hk, htook⟩ := hloop.took hreposts
    exact ⟨hlost, k, hk, hjoin _ _ htook⟩

/-- The send side of a peer that has posted `log` and knows the receiver's head
to be at position `cached` at least. -/
structure SendSide (c : Nat) (log : List Entry) (cached : Nat) (s : ReadRingInner) : Prop where
  capacity : s.remoteCapacity = c
  ringCapacity : s.sendRing.capacity = c
  inRing : s.sendRing.InRing
  tail : s.remoteWriteTail = logPos log log.length % c
  sync : s.sendRing.tail = s.remoteWriteTail
  cachedHead : s.cachedRemoteHead = cached % c
  behind : cached ≤ logPos log log.length
  ahead : logPos log log.length < cached + c

variable {log : List Entry} {cached : Nat}

theorem SendSide.of_sameSend (hs : SendSide c log cached s) (hst : s.SameSend t) :
    SendSide c log cached t where
  capacity := hst.remoteCapacity.trans hs.capacity
  ringCapacity := by rw [hst.sendRing, hs.ringCapacity]
  inRing := by rw [hst.sendRing]; exact hs.inRing
  tail := hst.remoteWriteTail.trans hs.tail
  sync := by rw [hst.sendRing, hst.remoteWriteTail, hs.sync]
  cachedHead := hst.cachedRemoteHead.trans hs.cachedHead
  __ := hs

/-- The free space that the sender computes is what its cached head leaves. -/
theorem SendSide.remoteFreeSpace_eq (hs : SendSide c log cached s) :
    s.remoteFreeSpace + (logPos log log.length - cached + 1) = c := by
  have hbehind := hs.behind
  have hahead := hs.ahead
  have hfree : s.remoteFreeSpace = c - (RingLog.used c
      (logPos log log.length % c) (cached % c) + 1) := by
    rw [← hs.tail, ← hs.cachedHead, ← hs.capacity]
    rfl
  rw [hfree, RingLog.used_mod hbehind hahead]
  omega

/-- A reserve within the free space grows the log within one ring of the cached
head. -/
theorem SendSide.grow {len offset padding : Nat} {ring : RingBuffer} (hs : SendSide c log cached s)
    (hlog : Layout c log) (hreserve : s.sendRing.reserve len = some (ring, offset, padding))
    (hfree : padding + len ≤ s.remoteFreeSpace) (hlen : len < 2 ^ 16) :
    Grows c log s.remoteWriteTail ring len padding ∧
      logPos log log.length + padding + len < cached + c := by
  have hspace := hs.remoteFreeSpace_eq
  have hbehind := hs.behind
  exact ⟨grows_of_reserve hlog hs.inRing hs.ringCapacity hs.sync hs.tail hreserve hlen, by omega⟩

theorem sendDone_sameRecv (s : ReadRingInner) (wrId : Nat) :
    s.SameRecv (s.sendDone wrId) ∧ (s.sendDone wrId).readBuf = s.readBuf := by
  unfold sendDone
  split
  · exact ⟨⟨rfl, rfl, rfl, rfl, rfl, rfl, rfl, rfl, rfl, rfl⟩, rfl⟩
  split <;> exact ⟨⟨rfl, rfl, rfl, rfl, rfl, rfl, rfl, rfl, rfl, rfl⟩, rfl⟩

/-- A send completion may refresh the cached head with the landed snapshot. -/
theorem SendSide.sendDone (hs : SendSide c log cached s) (hbuf : s.readBuf = landed % c)
    (hle : cached ≤ landed) (hbehind : landed ≤ logPos log log.length) (wrId : Nat) :
    ∃ cached', cached' ≤ landed ∧ SendSide c log cached' (s.sendDone wrId) := by
  unfold ReadRingInner.sendDone
  split
  · have := hs.ahead
    exact ⟨landed, le_rfl, { hs with cachedHead := hbuf, behind := hbehind, ahead := by omega }⟩
  split
  · exact ⟨cached, hle, { hs with }⟩
  · refine ⟨cached, hle, { hs with ringCapacity := ?_, inRing := ?_, sync := ?_ }⟩ <;> simp only
    · split <;> simp [hs.ringCapacity]
    · split
      · exact hs.inRing.release wrId
      · exact hs.inRing
    · split <;> simp [hs.sync]

/-- What a poll of the send queue keeps of both sides. -/
theorem SendSide.pollSendCompletion (hs : SendSide c log cached s) (hbuf : s.readBuf = landed % c)
    (hle : cached ≤ landed) (hbehind : landed ≤ logPos log log.length) (cq : List WorkCompletion)
    (polls : List (Except TransportError Nat)) : s.SameRecv (s.pollSendCompletion cq polls).1 ∧
      (s.pollSendCompletion cq polls).1.readBuf = s.readBuf ∧
      ∃ cached', cached' ≤ landed ∧ SendSide c log cached' (s.pollSendCompletion cq polls).1 := by
  refine pollSendCompletion_keeps (P := fun _ t => s.SameRecv t ∧ t.readBuf = s.readBuf ∧
      ∃ cached', cached' ≤ landed ∧ SendSide c log cached' t) ?_ ?_ [] polls
    ⟨.refl s, rfl, cached, hle, hs⟩
  · rintro id - t ⟨hsame, hkeep, cached', hle', hs'⟩
    obtain ⟨hsame', hkeep'⟩ := sendDone_sameRecv t id
    exact ⟨hsame.trans hsame', hkeep'.trans hkeep, hs'.sendDone (hkeep.trans hbuf) hle' hbehind id⟩
  · rintro - t ⟨hsame, hkeep, cached', hle', hs'⟩
    exact ⟨{ hsame with }, hkeep, cached', hle', { hs' with }⟩

end ReadRingInner

/-- One direction of the connection, from `e` to `f`. -/
structure Flow (c : Nat) (done arrived pending : List Entry)
    (cached landed h : Nat) (e f : ReadEndpoint) : Prop where
  layout : Layout c (done ++ arrived ++ pending)
  send : e.inner.SendSide c (done ++ arrived ++ pending) cached
  wire : e.wire.map (SendWr.entry c) = pending
  imms : ∀ wr ∈ e.wire, wr.arrival = (wr.entry c).arrival
  recvCq : f.recvCq = arrived.map Entry.arrival
  recv : f.inner.RecvSide c done h
  doorbells : f.inner.doorbells + arrived.length ≤ f.inner.maxOutstanding
  lost : f.lost = []
  readBuf : e.inner.readBuf = landed % c
  cachedLe : cached ≤ landed
  landedLe : landed ≤ logPos done h
  snapshot : ∀ v, e.read = .snapshot v → ∃ seen, v = seen % c ∧ landed ≤ seen ∧ seen ≤ logPos done h

namespace Flow

variable {c cached landed h : Nat} {done arrived pending : List Entry} {e f e' f' : ReadEndpoint}

variable {bufs : List (List UInt8)} {len : Nat} {r : SendOutcome} {wr : SendWr}

theorem sends_len {s : ReadRingInner} (hlen : len = s.dataLen (bufs.map List.length).sum) :
    len < 2 ^ 16 ∧ (gatherInto len bufs).length = len := by
  unfold dataLen at hlen
  refine ⟨by omega, ?_⟩
  rw [gatherInto_length]
  omega

variable (hf : Flow c done arrived pending cached landed h e f)

include hf

/-- A change of the sender that leaves the direction as it is. -/
theorem of_sender (hsend : e.inner.SameSend e'.inner) (hwire : e'.wire = e.wire)
    (hread : e'.read = e.read ∨ ∀ v, e'.read ≠ .snapshot v) :
    Flow c done arrived pending cached landed h e' f where
  __ := hf
  send := hf.send.of_sameSend hsend
  wire := hwire ▸ hf.wire
  imms := hwire ▸ hf.imms
  readBuf := hsend.readBuf.trans hf.readBuf
  snapshot v hv := by
    rcases hread with heq | hne
    · exact hf.snapshot v (heq ▸ hv)
    · exact absurd hv (hne v)

/-- A change of the receiver that leaves the direction as it is. -/
theorem of_receiver (hrecv : f.inner.SameRecv f'.inner) (hcq : f'.recvCq = f.recvCq)
    (hlost : f'.lost = f.lost) : Flow c done arrived pending cached landed h e f' where
  __ := hf
  recvCq := hcq.trans hf.recvCq
  recv := hf.recv.of_sameRecv hrecv
  doorbells := by
    rw [hrecv.doorbells, hrecv.maxOutstanding]
    exact hf.doorbells
  lost := hlost.trans hf.lost

theorem fits_arrived : ∀ x ∈ arrived, x.Fits c :=
  fun _ hx => hf.layout.fits (by simp [hx])

theorem head_le : h ≤ done.length :=
  hf.recv.count ▸ hf.recv.window.le

theorem logPos_head : logPos (done ++ arrived ++ pending) h = logPos done h := by
  rw [append_assoc]
  exact logPos_append _ hf.head_le

/-- Posting the message of a send, after its padding if it needs one. -/
theorem sends {ring : RingBuffer} {offset padding : Nat}
    (hreserve : e.inner.sendRing.reserve len = some (ring, offset, padding))
    (hsends : e.inner.Sends bufs r ring len padding) : Flow c done arrived
      (pending ++ sentEntries e.inner.remoteWriteTail len padding)
      cached landed h (e.afterPost r.inner r.posted) f := by
  obtain ⟨hlen, hfree, ⟨_, _, _, hinner⟩, _, hreads, hposted⟩ :=
    hsends
  obtain ⟨hlen16, hpayload⟩ := sends_len hlen
  obtain ⟨hgrow, _⟩ := hf.send.grow hf.layout hreserve hfree hlen16
  have hfilter : r.posted.filter SendWr.isWrite =
      sentWrs e.inner.remoteWriteTail len padding bufs := by
    rw [hposted, filter_append, sentWrs_filter_isWrite]
    rcases hreads with rfl | rfl <;> simp [readWr, SendWr.isWrite]
  have hassoc : done ++ arrived ++ (pending ++ sentEntries e.inner.remoteWriteTail len padding) =
      done ++ arrived ++ pending ++
        sentEntries e.inner.remoteWriteTail len padding := by
    simp only [append_assoc]
  refine ⟨hassoc ▸ hgrow.layout, ?_, ?_, ?_, hf.recvCq, hf.recv, hf.doorbells,
    hf.lost, ?_, hf.cachedLe, hf.landedLe, ?_⟩
  · have hbehind := hf.send.behind
    rw [hassoc]
    simp only [afterPost, hinner]
    refine ⟨hf.send.capacity, hgrow.ringCapacity, hgrow.inRing, ?_, ?_,
      hf.send.cachedHead, by rw [hgrow.end_eq]; omega, by rw [hgrow.end_eq]; omega⟩
    · simp only [hf.send.capacity]
      rw [hgrow.end_eq, hgrow.next_tail]
    · simp only [hf.send.capacity]
      exact hgrow.ringTail
  · simp only [afterPost, hfilter]
    rw [map_append, hf.wire, hgrow.map_entry hpayload]
  · simp only [afterPost, hfilter]
    exact forall_mem_append.mpr ⟨hf.imms, fun wr => arrival_eq_of_mem hpayload⟩
  · simp only [afterPost, hinner]
    exact hf.readBuf
  · intro v hv
    simp only [afterPost] at hv
    split at hv
    · cases hv
    · exact hf.snapshot v hv

/-- A call that posts no Write. -/
theorem quiet (hquiet : e.inner.Quiet r) :
    Flow c done arrived pending cached landed h (e.afterPost r.inner r.posted) f := by
  obtain ⟨⟨_, hinner⟩, hposted⟩ := hquiet
  apply hf.of_sender
  · rw [afterPost, hinner]
    exact ⟨rfl, rfl, rfl, rfl, rfl, rfl, rfl⟩
  · rcases hposted with hnil | hread
    · simp [afterPost, hnil]
    · simp [afterPost, hread, SendWr.isWrite, readWr]
  · rcases hposted with hnil | hread
    · exact .inl (by simp [afterPost, hnil])
    · exact .inr (by
        simp [afterPost, hread, SendWr.isWrite, readWr])

/-- The oldest Write on the wire arrives. -/
theorem arrive {wire : List SendWr} (hwire : e.wire = wr :: wire) (hbells : f.inner.doorbells ≠ 0) :
    Flow c done (arrived ++ [wr.entry c]) (wire.map (SendWr.entry c)) cached
      landed h { e with wire }
      { f with
        inner := { f.inner with doorbells := f.inner.doorbells - 1 }
        recvCq := f.recvCq ++ [wr.arrival] } := by
  have hpending := hf.wire
  rw [hwire, map_cons] at hpending
  have hlog : done ++ (arrived ++ [wr.entry c]) ++ wire.map (SendWr.entry c) =
      done ++ arrived ++ pending := by
    rw [← hpending]
    simp
  have hfbells := hf.doorbells
  refine { hf with
    layout := hlog ▸ hf.layout, send := hlog ▸ hf.send, wire := rfl
    imms := ?_, recvCq := ?_, recv := ?_, doorbells := ?_ }
  · intro w hw
    exact hf.imms w (by rw [hwire]; exact mem_cons_of_mem _ hw)
  · rw [map_append, ← hf.recvCq, map_singleton, ← hf.imms wr (by rw [hwire]; exact mem_cons_self)]
  · exact { hf.recv with }
  · simp only [length_append, length_singleton]
    omega

/-- The receiver's head only moves forward. -/
theorem landedLe_of_recv (more : List Entry) {h' : Nat} (hle : h ≤ h') :
    logPos done h ≤ logPos (done ++ more) h' := by
  rw [← logPos_append more hf.head_le]
  exact logPos_mono _ hle

/-- A poll takes arrivals from the completion queue. -/
theorem took {k : Nat} (hcq : f'.recvCq = (arrived.drop k).map Entry.arrival) (hlost : f'.lost = [])
    (htook : ReadRingInner.Took c done (arrived.take k) h f.inner f'.inner) : ∃ h', Flow c
    (done ++ arrived.take k) (arrived.drop k) pending cached landed
      h' e f' := by
  obtain ⟨h', hle, hrecv⟩ := htook.recv
  have hlog : done ++ arrived.take k ++ arrived.drop k ++ pending = done ++ arrived ++ pending := by
    rw [append_assoc done, take_append_drop]
  have hpos := hf.landedLe_of_recv (arrived.take k) hle
  refine ⟨h', hlog ▸ hf.layout, hlog ▸ hf.send, hf.wire, hf.imms, hcq, hrecv, ?_,
    hlost, hf.readBuf, hf.cachedLe, hf.landedLe.trans hpos, ?_⟩
  · have := hf.doorbells
    have hsplit : (arrived.take k).length + (arrived.drop k).length = arrived.length := by
      rw [← length_append, take_append_drop]
    rw [htook.doorbells, htook.send.maxOutstanding]
    omega
  · intro v hv
    obtain ⟨seen, hv, hlo, hhi⟩ := hf.snapshot v hv
    exact ⟨seen, hv, hlo, hhi.trans hpos⟩

/-- The application releases a message. -/
theorem repost (hc : c ≤ 65536) (hpos : 0 < c) {bufIdx : Nat} {inner : ReadRingInner}
    (hrepost : f.inner.repostRecv bufIdx = some inner) : f.inner.SameSend inner ∧ inner.doorbells =
    f.inner.doorbells ∧ ∃ h', ∀ delivered, Flow c done arrived pending cached landed h' e
      { f with inner, delivered } := by
  unfold ReadRingInner.repostRecv at hrepost
  split at hrepost
  · cases hrepost
  rename_i o l q hget
  simp only [Option.some.injEq] at hrepost
  have hidx := getElem?_of_getD_eq_some hget
  obtain ⟨k, hk, hle, hwin⟩ := hf.recv.window.release_held hidx
  obtain ⟨hsame, hbells, -⟩ := ReadRingInner.releaseSlot_sameSend
    { f.inner with virtualIdxMap := f.inner.virtualIdxMap.set bufIdx none }
    (q % f.inner.maxOutstanding)
  have hrecv : inner.RecvSide c done (h + k) := by
    rw [← hrepost]
    exact ReadRingInner.releaseSlot_recvSide hc hpos hk
      (by rw [← hf.recv.count]; exact hle) hwin hf.recv.count hf.recv.capacity
      hf.recv.head hf.recv.published hf.recv.slotIdx hf.recv.slotCount hf.recv.slots hf.recv.cursor
  rw [hrepost] at hsame hbells
  have hforward := logPos_mono done (Nat.le_add_right h k)
  refine ⟨{ hsame with }, hbells, h + k, fun delivered => { hf with
      recv := hrecv, doorbells := ?_, landedLe := hf.landedLe.trans hforward, snapshot := ?_ }⟩
  · rw [hbells, hsame.maxOutstanding]
    exact hf.doorbells
  · intro v hv
    obtain ⟨seen, hv, hlo, hhi⟩ := hf.snapshot v hv
    exact ⟨seen, hv, hlo, hhi.trans hforward⟩

/-- The sender reaps completions. -/
theorem pollSend (polls : List (Except TransportError Nat)) (sendCq : List WorkCompletion) :
    e.inner.SameRecv (e.inner.pollSendCompletion e.sendCq polls).1 ∧
    ∃ cached', Flow c done arrived pending cached' landed h
      { e with inner := (e.inner.pollSendCompletion e.sendCq polls).1, sendCq } f := by
  have hbehind : landed ≤ logPos (done ++ arrived ++ pending)
      (done ++ arrived ++ pending).length := by
    refine hf.landedLe.trans ?_
    rw [← hf.logPos_head]
    refine logPos_mono _ (hf.head_le.trans ?_)
    simp only [length_append]
    omega
  obtain ⟨hsame, hkeep, cached', hle, hsend⟩ :=
    hf.send.pollSendCompletion hf.readBuf hf.cachedLe hbehind e.sendCq polls
  exact ⟨hsame, cached', { hf with
    send := hsend, readBuf := hkeep.trans hf.readBuf, cachedLe := hle }⟩

/-- An offset Read takes its snapshot of the head that the receiver shows. -/
theorem readSnapshot : Flow c done arrived pending cached landed h
      { e with read := .snapshot f.inner.offsetBuffer } f where
  __ := hf
  snapshot v hv := by
    simp only [ReadStage.snapshot.injEq] at hv
    refine ⟨logPos done h, ?_, hf.landedLe, le_rfl⟩
    rw [← hv, hf.recv.published, hf.recv.head]

/-- An offset Read lands. -/
theorem readLand (hland : e.readLand = some e') :
    e.inner.SameRecv e'.inner ∧ e'.recvCq = e.recvCq ∧ e'.lost = e.lost ∧
    ∃ landed', Flow c done arrived pending cached landed' h e' f := by
  unfold ReadEndpoint.readLand at hland
  split at hland
  · rename_i v hv
    simp only [Option.some.injEq] at hland
    subst hland
    obtain ⟨seen, hseen, hlo, hhi⟩ := hf.snapshot v hv
    refine ⟨⟨rfl, rfl, rfl, rfl, rfl, rfl, rfl, rfl, rfl, rfl⟩, rfl, rfl, seen,
      hf.layout, ?_, hf.wire, hf.imms, hf.recvCq, hf.recv, hf.doorbells, hf.lost,
      hseen, hf.cachedLe.trans hlo, hhi, by simp⟩
    exact ⟨hf.send.1, hf.send.2, hf.send.3, hf.send.4, hf.send.5, hf.send.6, hf.send.7, hf.send.8⟩
  · cases hland

/-- Every message not yet released is an entry from number `h` on. -/
theorem unreleased_entry (hc : c ≤ 65536) {sys : ReadRingSystem} {p : Side} (he : sys.get p = e)
    (hfeq : sys.get p.other = f) {range : Nat × Nat} (hrange : range ∈ sys.unreleased p) : ∃ i x,
    (done ++ arrived ++ pending)[i]? = some x ∧ h ≤ i ∧
      range = (x.offset, x.len) := by
  refine RdmaIo.unreleased_entry hc e.wire f.recvCq hf.recv.window hf.recv.count
    hf.fits_arrived ?_ ?_ ?_
  · intro wr hwr _
    rw [← hf.wire]
    exact mem_map_of_mem hwr
  · rw [hf.recvCq, filter_eq_self]
    intro wc hwc
    obtain ⟨x, -, rfl⟩ := mem_map.mp hwc
    rfl
  · simpa only [ReadRingSystem.unreleased, he, hfeq, hf.lost, rangesOf,
      filter_nil, map_nil, append_nil] using hrange

/-- No data Write of a send covers a byte of an entry from number `h` on. -/
theorem send_disjoint {post : WrKind → Bool} (hposted : wr ∈ (e.inner.sendGather bufs post).posted)
    (hkind : wr.kind = .data) {i : Nat} {x : Entry} (hi : (done ++ arrived ++ pending)[i]? = some x)
    (hhi : h ≤ i) {b : Nat} (hcover : wr.Covers b) (hrange : x.offset ≤ b ∧ b < x.offset + x.len) :
    False := by
  rcases sendGather_spec hf.send.inRing bufs post with
    ⟨-, hnone | hread⟩ | ⟨-, hnone | hpad⟩ | ⟨ring, offset, len, padding, hreserve, hsends⟩
  · simp [hnone] at hposted
  · rw [hread, mem_singleton] at hposted
    subst hposted
    cases hkind
  · simp [hnone] at hposted
  · rw [hpad, mem_singleton] at hposted
    subst hposted
    cases hkind
  obtain ⟨hlen, hfree, -, _, hreads, hall⟩ := hsends
  obtain ⟨hlen16, hpayload⟩ := sends_len hlen
  obtain ⟨hgrow, _⟩ := hf.send.grow hf.layout hreserve hfree hlen16
  have hwr : wr = dataWr (writeAt e.inner.remoteWriteTail padding) len padding bufs := by
    rw [hall] at hposted
    rcases mem_append.mp hposted with hsent | hread
    · exact eq_dataWr_of_mem_sentWrs hsent hkind
    · rcases hreads with rfl | rfl
      · simp at hread
      · rw [mem_singleton] at hread
        subst hread
        cases hkind
  rw [hwr, SendWr.Covers, dataWr] at hcover
  simp only [hpayload] at hcover
  have hlanded := hf.landedLe
  have hcached := hf.cachedLe
  refine hgrow.disjoint hi hhi ?_ hcover hrange
  rw [hf.logPos_head]
  omega

end Flow

theorem ReadEndpoint.complete_spec {e e' : ReadEndpoint} (h : e.complete = some e') :
    e'.inner = e.inner ∧ e'.wire = e.wire ∧
      (e'.read = e.read ∨ ∀ v, e'.read ≠ .snapshot v) ∧
      e'.recvCq = e.recvCq ∧ e'.lost = e.lost := by
  unfold complete at h
  split at h
  · cases h
  split at h
  · split at h
    · simp only [Option.some.injEq] at h
      subst h
      exact ⟨rfl, rfl, .inl rfl, rfl, rfl⟩
    · cases h
  · split at h
    · simp only [Option.some.injEq] at h
      subst h
      exact ⟨rfl, rfl, .inr (by simp), rfl, rfl⟩
    · cases h

namespace ReadRingSystem

/-- What a run must keep to: no Write post and no doorbell repost fails, and a
poll takes no arrival that is `max_outstanding` or more numbers after a message
the application still holds. -/
def Spaced (sys : ReadRingSystem) : ReadRingLabel → Prop
  | .sendGather _ _ post => post .padding = true ∧ post .data = true
  | .pollRecv p _ polls =>
    ReadRingInner.reposts polls = true ∧ (sys.get p).inner.Room
        (min (sys.get p).recvCq.length (ReadRingInner.polled polls))
  | _ => True

instance (sys : ReadRingSystem) : (label : ReadRingLabel) → Decidable (Spaced sys label)
  | .sendGather _ _ _ => inferInstanceAs (Decidable (_ ∧ _))
  | .pollRecv _ _ _ => inferInstanceAs (Decidable (_ ∧ _))
  | .arrive _ | .complete _ | .pollSend _ _ | .readSnapshot _ | .readLand _
  | .repostRecv _ _ => inferInstanceAs (Decidable True)

/-- The direction from `e` to `f` flows, for some split of its log. -/
def FlowsTo (c : Nat) (e f : ReadEndpoint) : Prop :=
  ∃ done arrived pending cached landed h, Flow c done arrived pending cached landed h e f

/-- Both directions flow. -/
def Flows (c : Nat) (sys : ReadRingSystem) : Prop :=
  ∀ p : Side, FlowsTo c (sys.get p) (sys.get p.other)

/-- The direction from `e` to `f` flows, with a log of which `Q` holds. -/
def FlowsWith (c : Nat) (Q : List Entry → Prop) (e f : ReadEndpoint) : Prop :=
  ∃ done arrived pending cached landed h,
    Flow c done arrived pending cached landed h e f ∧ Q (done ++ arrived ++ pending)

/-- Both directions flow, with logs of which `Q` holds. -/
def Carries (c : Nat) (Q : Side → List Entry → Prop) (sys : ReadRingSystem) : Prop :=
  ∀ p : Side, FlowsWith c (Q p) (sys.get p) (sys.get p.other)

variable {c : Nat} {sys : ReadRingSystem}

variable {Q : Side → List Entry → Prop} {config : ReadRingConfig} {e : ReadEndpoint}
  {sys' : ReadRingSystem} {label : ReadRingLabel}

theorem Carries.back (hflows : Carries c Q sys) (p : Side) :
    FlowsWith c (Q p.other) (sys.get p.other) (sys.get p) := by
  simpa using hflows p.other

theorem carries_of (p : Side) (hsend : FlowsWith c (Q p) (sys.get p) (sys.get p.other))
    (hrecv : FlowsWith c (Q p.other) (sys.get p.other) (sys.get p)) : Carries c Q sys :=
  Duplex.forall_side p hsend (by simpa using hrecv)

theorem flows_of (p : Side) (hsend : FlowsTo c (sys.get p) (sys.get p.other))
    (hrecv : FlowsTo c (sys.get p.other) (sys.get p)) : Flows c sys :=
  Duplex.forall_side p hsend (by simpa using hrecv)

theorem flow_new (hc : config.ringCapacity = c) (hpos : 0 < c) (limit limit' : Nat) :
    Flow c [] [] [] 0 0 0 (new config c limit)
      (new config c limit') := by
  have hm := clampMaxOutstanding_pos config.ringCapacity config.maxMessageSize
    config.maxInFlight readRingSqHeadroom limit'
  have hzero : logPos [] ([] : List Entry).length % c = 0 := by simp
  refine ⟨by simp [Layout], ?_, rfl, by simp [new], rfl, ?_, ?_, rfl,
    ?_, le_rfl, by simp, by simp [new]⟩
  · refine ⟨rfl, hc, ⟨?_, ?_⟩, hzero.symm, rfl, ?_, by simp, ?_⟩ <;>
      simp [new, fromParts, RingBuffer.new, hc, hpos]
  · refine ⟨RecvWindow.new hm, rfl, hc, ?_, rfl, ?_, ?_, ?_, hm⟩ <;>
      simp [new, fromParts, RingBuffer.new]
  · simp [new, fromParts]
  · simp [new, fromParts]

/-- The slots of a peer are fixed at setup, and every doorbell is posted or its completion
waits for a poll. -/
structure SameBells (e e' : ReadEndpoint) : Prop where
  slots : e'.inner.maxOutstanding = e.inner.maxOutstanding
  bells : e'.inner.doorbells + e'.recvCq.length = e.inner.doorbells + e.recvCq.length

theorem SameBells.of_sameRecv {e' : ReadEndpoint} (hsame : e.inner.SameRecv e'.inner)
    (hcq : e'.recvCq = e.recvCq) : SameBells e e' :=
  ⟨hsame.maxOutstanding, by rw [hsame.doorbells, hcq]⟩

/-- A step of one endpoint keeps both directions if it keeps the direction it
sends in and the direction it receives in. -/
theorem carries_set {p : Side} (hsend : FlowsWith c (Q p) e (sys.get p.other))
    (hrecv : FlowsWith c (Q p.other) (sys.get p.other) e) (hbells : SameBells (sys.get p) e) :
    Carries c Q (sys.set p e) ∧ ∀ q, SameBells (sys.get q) ((sys.set p e).get q) := by
  refine ⟨carries_of p (by simpa using hsend) (by simpa using hrecv), fun q => ?_⟩
  rcases p.eq_or_eq_other q with rfl | rfl
  · rwa [Duplex.get_set_self]
  · rw [Duplex.get_set_other]
    exact ⟨rfl, rfl⟩

/-- What the sends of a label add to a log keeps `Q`. -/
def Adds (Q : Side → List Entry → Prop) (sys : ReadRingSystem) : ReadRingLabel → Prop
  | .sendGather p bufs _ =>
    ∀ (log : List Entry) (ring : RingBuffer) (offset padding : Nat),
      (sys.get p).inner.sendRing.InRing → (sys.get p).inner.sendRing.reserve
        ((sys.get p).inner.dataLen (bufs.map List.length).sum) = some (ring, offset, padding) →
      Q p log → Q p (log ++ sentEntries (sys.get p).inner.remoteWriteTail
        ((sys.get p).inner.dataLen (bufs.map List.length).sum) padding)
  | _ => True

/-- Each step of a spaced run keeps both directions flowing, what holds of their logs if
its sends keep it, and the doorbells. -/
theorem step_carries (hc : c ≤ 65536) (hpos : 0 < c) (hflows : Carries c Q sys)
    (hspaced : Spaced sys label) (hadds : Adds Q sys label) (hstep : step sys label = some sys') :
    Carries c Q sys' ∧ ∀ q, SameBells (sys.get q) (sys'.get q) := by
  cases label with
  | sendGather p bufs post =>
    obtain ⟨done, arrived, pending, _, _, _, hf, hQ⟩ := hflows p
    obtain ⟨_, _, _, _, _, _, hg, hR⟩ := hflows.back p
    cases hstep
    rcases sendGather_spec hf.send.inRing bufs post with
      hquiet | hfails | ⟨ring, offset, len, padding, hreserve, hsends⟩
    · have hsame : (sys.get p).inner.SameRecv ((sys.get p).inner.sendGather bufs post).inner := by
        obtain ⟨⟨reading, hinner⟩, -⟩ := hquiet
        rw [hinner]
        exact ⟨rfl, rfl, rfl, rfl, rfl, rfl, rfl, rfl, rfl, rfl⟩
      exact carries_set ⟨_, _, _, _, _, _, hf.quiet hquiet, hQ⟩
        ⟨_, _, _, _, _, _, hg.of_receiver hsame rfl rfl, hR⟩ (.of_sameRecv hsame rfl)
    · rcases hfails.1 with hpad | hdata
      · rw [hspaced.1] at hpad
        cases hpad
      · rw [hspaced.2] at hdata
        cases hdata
    · have hsent : Q p (done ++ arrived ++
          (pending ++ sentEntries (sys.get p).inner.remoteWriteTail len padding)) := by
        obtain ⟨rfl, -⟩ := id hsends
        rw [← append_assoc]
        exact hadds _ ring offset padding hf.send.inRing hreserve hQ
      have hsame : (sys.get p).inner.SameRecv ((sys.get p).inner.sendGather bufs post).inner := by
        obtain ⟨-, -, ⟨_, _, _, hinner⟩, -⟩ := hsends
        rw [hinner]
        exact ⟨rfl, rfl, rfl, rfl, rfl, rfl, rfl, rfl, rfl, rfl⟩
      exact carries_set ⟨_, _, _, _, _, _, hf.sends hreserve hsends, hsent⟩
        ⟨_, _, _, _, _, _, hg.of_receiver hsame rfl rfl, hR⟩ (.of_sameRecv hsame rfl)
  | arrive p =>
    obtain ⟨_, _, _, _, _, _, hf, hQ⟩ := hflows p
    obtain ⟨done', arrived', pending', cached', landed', h', hg, hR⟩ := hflows.back p
    simp only [step] at hstep
    split at hstep
    · cases hstep
    rename_i wr wire hwire
    split at hstep
    · cases hstep
    rename_i hbells
    simp only [Option.some.injEq] at hstep
    subst hstep
    refine ⟨carries_of p ?_ ?_, fun q => ?_⟩
    · simp only [Duplex.get_set_self, Duplex.get_set_of_other]
      refine ⟨_, _, _, _, _, _, hf.arrive hwire hbells, ?_⟩
      have hpending := hf.wire
      rw [hwire, map_cons] at hpending
      rw [← hpending] at hQ
      simpa using hQ
    · simp only [Duplex.get_set_self, Duplex.get_set_of_other]
      have hback : Flow c done' arrived' pending' cached' landed' h' (sys.get p.other)
          { sys.get p with wire } := hg.of_receiver (.refl _) rfl rfl
      exact ⟨_, _, _, _, _, _, hback.of_sender
        ⟨rfl, rfl, rfl, rfl, rfl, rfl, rfl⟩ rfl (.inl rfl), hR⟩
    · rcases p.eq_or_eq_other q with rfl | rfl
      · simp only [Duplex.get_set_self, Duplex.get_set_of_other]
        exact ⟨rfl, rfl⟩
      · simp only [Duplex.get_set_self]
        refine ⟨rfl, ?_⟩
        simp only [length_append, length_singleton]
        omega
  | complete p =>
    obtain ⟨_, _, _, _, _, _, hf, hQ⟩ := hflows p
    obtain ⟨_, _, _, _, _, _, hg, hR⟩ := hflows.back p
    obtain ⟨e, hcomplete, rfl⟩ := Option.map_eq_some_iff.mp hstep
    obtain ⟨hinner, hwire, hread, hcq, hlost⟩ :=
      ReadEndpoint.complete_spec hcomplete
    have hsame : (sys.get p).inner.SameRecv e.inner := hinner ▸ .refl _
    exact carries_set ⟨_, _, _, _, _, _, hf.of_sender (hinner ▸ .refl _) hwire hread, hQ⟩ ⟨_, _, _,
      _, _, _, hg.of_receiver hsame hcq hlost, hR⟩ (.of_sameRecv hsame hcq)
  | pollSend p polls =>
    obtain ⟨_, _, _, _, _, _, hf, hQ⟩ := hflows p
    obtain ⟨_, _, _, _, _, _, hg, hR⟩ := hflows.back p
    cases hstep
    obtain ⟨hsame, _, hf'⟩ := hf.pollSend polls
      ((sys.get p).inner.pollSendCompletion (sys.get p).sendCq polls).2.2
    exact carries_set ⟨_, _, _, _, _, _, hf', hQ⟩
      ⟨_, _, _, _, _, _, hg.of_receiver hsame rfl rfl, hR⟩ (.of_sameRecv hsame rfl)
  | readSnapshot p =>
    obtain ⟨_, _, _, _, _, _, hf, hQ⟩ := hflows p
    obtain ⟨_, _, _, _, _, _, hg, hR⟩ := hflows.back p
    simp only [step] at hstep
    split at hstep
    · simp only [Option.some.injEq] at hstep
      subst hstep
      exact carries_set ⟨_, _, _, _, _, _, hf.readSnapshot, hQ⟩
        ⟨_, _, _, _, _, _, hg.of_receiver (.refl _) rfl rfl, hR⟩ ⟨rfl, rfl⟩
    · cases hstep
  | readLand p =>
    obtain ⟨_, _, _, _, _, _, hf, hQ⟩ := hflows p
    obtain ⟨_, _, _, _, _, _, hg, hR⟩ := hflows.back p
    obtain ⟨e, hland, rfl⟩ := Option.map_eq_some_iff.mp hstep
    obtain ⟨hsame, hcq, hlost, _, hf'⟩ := hf.readLand hland
    exact carries_set ⟨_, _, _, _, _, _, hf', hQ⟩
      ⟨_, _, _, _, _, _, hg.of_receiver hsame hcq hlost, hR⟩ (.of_sameRecv hsame hcq)
  | pollRecv p outLen polls =>
    obtain ⟨_, _, _, _, _, _, hf, hQ⟩ := hflows p
    obtain ⟨done', arrived', pending', _, _, _, hg, hR⟩ := hflows.back p
    cases hstep
    obtain ⟨hreposts, hroom⟩ := hspaced
    have hlen : arrived'.length ≤ (sys.get p).inner.maxOutstanding :=
      (Nat.le_add_left _ _).trans hg.doorbells
    rw [hg.recvCq, length_map] at hroom
    obtain ⟨hlost, k, hcq, htook⟩ :=
      (ReadRingInner.pollRecv_took hc outLen hg.recv hg.fits_arrived hroom hlen).took hreposts
    rw [← hg.recvCq] at hlost hcq htook
    have hnone : ((sys.get p).pollRecv outLen polls).lost = [] := by
      simp [pollRecv, hlost, hg.lost]
    obtain ⟨h'', hg'⟩ := hg.took hcq hnone htook
    have hlog : done' ++ arrived'.take k ++ arrived'.drop k ++ pending' =
        done' ++ arrived' ++ pending' := by
      rw [append_assoc done', take_append_drop]
    refine carries_set ⟨_, _, _, _, _, _, hf.of_sender htook.send rfl (.inl rfl), hQ⟩
      ⟨_, _, _, _, _, _, hg', hlog ▸ hR⟩ ⟨htook.send.maxOutstanding, ?_⟩
    have hsplit : (arrived'.take k).length + (arrived'.drop k).length = arrived'.length := by
      rw [← length_append, take_append_drop]
    simp only [pollRecv]
    rw [hcq, htook.doorbells, hg.recvCq, length_map, length_map]
    omega
  | repostRecv p =>
    obtain ⟨_, _, _, _, _, _, hf, hQ⟩ := hflows p
    obtain ⟨_, _, _, _, _, _, hg, hR⟩ := hflows.back p
    obtain ⟨e, hrepost, rfl⟩ := Option.map_eq_some_iff.mp hstep
    unfold repostRecv at hrepost
    split at hrepost
    · obtain ⟨_, hinner, rfl⟩ := Option.map_eq_some_iff.mp hrepost
      obtain ⟨hsame, hbells, _, hg'⟩ := hg.repost hc hpos hinner
      exact carries_set ⟨_, _, _, _, _, _, hf.of_sender hsame rfl (.inl rfl), hQ⟩ ⟨_, _, _, _, _, _,
        hg' _, hR⟩ ⟨hsame.maxOutstanding, congrArg (· + (sys.get p).recvCq.length) hbells⟩
    · cases hrepost

theorem carries_true : Carries c (fun _ _ => True) sys ↔ Flows c sys := by
  simp only [Carries, FlowsWith, Flows, FlowsTo, and_true]

/-- Each step of a spaced run keeps both directions flowing. -/
theorem step_flows (hc : c ≤ 65536) (hpos : 0 < c) (hflows : Flows c sys)
    (hspaced : Spaced sys label) (hstep : step sys label = some sys') : Flows c sys' := by
  have hadds : Adds (fun _ _ => True) sys label := by
    cases label <;> simp [Adds]
  exact carries_true.mp (step_carries hc hpos (carries_true.mpr hflows) hspaced hadds hstep).1

/-- Peers whose capacity the 32-bit token field carries start in step. -/
theorem build_flows {deviceLimit : Side → Nat} (hcap : config.ringCapacity < 2 ^ 32)
    (hbuild : build config deviceLimit = some sys) :
    0 < config.ringCapacity ∧ config.ringCapacity ≤ 65536 ∧
      Flows config.ringCapacity sys := by
  unfold build at hbuild
  split at hbuild
  · cases hbuild
  rename_i c haccept
  obtain ⟨hc, hpos, hle⟩ := acceptPeerCapacity_ok haccept
  rw [Nat.mod_eq_of_lt hcap] at hc
  subst hc
  simp only [Option.some.injEq] at hbuild
  subst hbuild
  refine ⟨hpos, hle, flows_of .a ?_ ?_⟩
  · exact ⟨_, _, _, _, _, _, flow_new rfl hpos _ _⟩
  · exact ⟨_, _, _, _, _, _, flow_new rfl hpos _ _⟩

/-- In a run in which no Write post or doorbell repost fails and every poll
takes only arrivals within `max_outstanding` numbers of the messages still
held, no data Write covers a message that is not released. -/
theorem noOverwrite_of_spaced {config : ReadRingConfig} {deviceLimit : Side → Nat}
    {sys sys' : ReadRingSystem} {trace : List ReadRingLabel}
    (hcap : config.ringCapacity < 2 ^ 32)
    (hbuild : build config deviceLimit = some sys)
    (hspaced : Machine.Along step Spaced sys trace)
    (hrun : Machine.run step sys trace = some sys') : NoOverwrite sys' := by
  obtain ⟨hpos, hle, hflows⟩ := build_flows hcap hbuild
  have hinv : Flows config.ringCapacity sys' :=
    Machine.run_invariant (fun _ _ _ hf hs hstep => step_flows hle hpos hf hs hstep)
      hflows hspaced hrun
  intro p bufs post wr hposted hkind range hrange b hcover hin
  obtain ⟨_, _, _, _, _, h, hf⟩ := hinv p
  obtain ⟨i, x, hi, hhi, rfl⟩ := hf.unreleased_entry hle rfl rfl hrange
  exact hf.send_disjoint hposted hkind hi hhi hcover hin

/-- An 8-byte ring with 2-byte messages: four tracker slots. -/
def smallConfig : ReadRingConfig :=
  { ringCapacity := 8, maxMessageSize := 2, maxInFlight := none,
    minFreeThreshold := 0 }

/-- Both peers of `smallConfig` on a device with deep queues. -/
def smallStart : ReadRingSystem :=
  { a := ReadEndpoint.new smallConfig 8 1024
    b := ReadEndpoint.new smallConfig 8 1024 }

/-- Peer `a` sends `n` bytes and `b` takes them; nothing fails. -/
def passMessage (n : Nat) : List ReadRingLabel :=
  [.sendGather .a [List.replicate n 0] (fun _ => true), .arrive .a, .complete .a,
    .pollSend .a [.ok 8], .pollRecv .b 1 [.ok [true]]]

/-- The application keeps the first message and releases the next four. -/
def slotReuse : List ReadRingLabel :=
  passMessage 2 ++ passMessage 1 ++ [.repostRecv .b 1] ++ passMessage 1 ++ [.repostRecv .b 2] ++
    passMessage 1 ++ [.repostRecv .b 3] ++ passMessage 1 ++ [.repostRecv .b 1] ++
    [.readSnapshot .a, .readLand .a, .complete .a, .pollSend .a [.ok 8]] ++ passMessage 2

/-- The fifth message reuses the slot of the first, which is still held; its
release moves the head over the first message, and a later Write covers it. -/
theorem slotReuse_overwrites : build smallConfig (fun _ => 1024) = some smallStart ∧
      ∃ sys, Machine.run step smallStart slotReuse = some sys ∧ ¬NoOverwrite sys := by
  obtain ⟨sys, hsys, hheld, hposted⟩ : ∃ sys, Machine.run step smallStart slotReuse = some sys ∧
      (0, 2) ∈ sys.unreleased .a ∧ dataWr 0 2 0 [[0, 0]] ∈
        ((sys.get .a).inner.sendGather [[0, 0]] fun _ => true).posted := by
    decide +kernel
  refine ⟨rfl, sys, hsys, fun hno => ?_⟩
  refine hno .a [[0, 0]] (fun _ => true) _ hposted rfl (0, 2) hheld 0 ?_ ?_
  · exact ⟨le_rfl, by decide⟩
  · exact ⟨le_rfl, by decide⟩

/-- A run that keeps to the spacing: two messages are taken and neither is released. -/
theorem noOverwrite_of_spaced_pass :
    ∃ sys, Machine.run step smallStart (passMessage 2 ++ passMessage 2) = some sys ∧
      (sys.unreleased .a).length = 2 ∧ NoOverwrite sys := by
  have hbuild : build smallConfig (fun _ => 1024) = some smallStart := rfl
  refine Machine.ends_imp (fun sys => (sys.unreleased .a).length = 2) (by decide +kernel)
    fun sys hsys hheld => ⟨hheld, ?_⟩
  refine noOverwrite_of_spaced (by decide) hbuild ?_ hsys
  decide +kernel

end ReadRingSystem

end RdmaIo
