/-
No-overwrite of the credit ring, for configurations whose slots cover the ring.

For one direction, `done`, `arrived` and `pending` split the log of the Writes
posted by the sender as for the read ring.  The receiver has freed `h` entries,
the sender has received the count `r`, and `counts` are the freed counts of the
credit Sends still on their way.  Credits keep the sender within
`max_outstanding` entries of `r`, and each entry covers at most `m` bytes.
-/
import RdmaIo.Ring.CreditRingSystem

namespace RdmaIo

open SendWr
open CreditRing
open List
open CreditEndpoint (new maxOutstanding)
open CreditRing (fromParts recvBatch pollRecvLoop creditWr pollRecv dead dataLen)

namespace CreditRing

/-- The send side of a peer that has posted `log` and received count `r`. -/
structure SendSide (c m slots : Nat) (log : List Entry) (r : Nat) (s : CreditRing) : Prop where
  capacity : s.remoteCapacity = c
  ringCapacity : s.sendRing.capacity = c
  inRing : s.sendRing.InRing
  tail : s.remoteWriteTail = logPos log log.length % c
  sync : s.sendRing.tail = s.remoteWriteTail
  small : ∀ total, s.dataLen total ≤ m
  maxOutstanding : s.maxOutstanding = slots
  credits : s.remoteCredits + log.length = slots + r
  received : s.remoteFreedReceived = r % 2 ^ 32

/-- The receive side of a peer that has taken `done` and freed `h` entries. -/
structure RecvSide (c slots : Nat) (done : List Entry) (h : Nat) (s : CreditRing) : Prop where
  window : RecvWindow slots s.virtualIdxMap s.recvTracker done h s.recvArrivalSeq
  count : s.recvArrivalSeq = done.length
  maxOutstanding : s.maxOutstanding = slots
  capacity : s.recvRing.capacity = c
  cursor : s.nextVirtIdx < slots
  freed : s.localFreedCredits = h

/-- The fields that describe what a peer has sent are the same. -/
structure SameSend (s t : CreditRing) : Prop where
  config : t.config = s.config
  remoteCapacity : t.remoteCapacity = s.remoteCapacity
  sendRing : t.sendRing = s.sendRing
  remoteWriteTail : t.remoteWriteTail = s.remoteWriteTail
  maxOutstanding : t.maxOutstanding = s.maxOutstanding
  remoteCredits : t.remoteCredits = s.remoteCredits
  remoteFreedReceived : t.remoteFreedReceived = s.remoteFreedReceived

variable {c m slots r k h : Nat} {log : List Entry} {s t : CreditRing}

theorem SendSide.of_sameSend (hs : SendSide c m slots log r s) (hst : s.SameSend t) :
    SendSide c m slots log r t where
  capacity := hst.remoteCapacity.trans hs.capacity
  ringCapacity := by rw [hst.sendRing, hs.ringCapacity]
  inRing := by rw [hst.sendRing]; exact hs.inRing
  tail := hst.remoteWriteTail.trans hs.tail
  sync := by rw [hst.sendRing, hst.remoteWriteTail, hs.sync]
  small total := by
    rw [dataLen, hst.config, hst.remoteCapacity]
    exact hs.small total
  maxOutstanding := hst.maxOutstanding.trans hs.maxOutstanding
  credits := by rw [hst.remoteCredits, hs.credits]
  received := hst.remoteFreedReceived.trans hs.received

theorem creditUpdate_eq (s : CreditRing) (freedCount : Nat) :
    ∃ credits received, s.remoteCredits ≤ credits ∧ s.creditUpdate freedCount =
      { s with remoteCredits := credits, remoteFreedReceived := received } := by
  unfold creditUpdate
  simp only
  split
  · exact ⟨_, _, Nat.le_add_right _ _, rfl⟩
  · exact ⟨s.remoteCredits, s.remoteFreedReceived, le_rfl, rfl⟩

/-- A later count of at most all entries brings the sender up to it: the 32-bit
difference of the counts is their difference. -/
theorem SendSide.creditUpdate {imm : Nat} (hs : SendSide c m slots log r s)
    (hslots : slots < 2 ^ 32) (hrk : r < k) (hk : k ≤ log.length) (himm : imm = k % 2 ^ 32) :
    SendSide c m slots log k (s.creditUpdate imm) := by
  have hcredits := hs.credits
  have hdelta : (imm + 2 ^ 32 - s.remoteFreedReceived) % 2 ^ 32 = k - r := by
    rw [himm, hs.received]
    omega
  unfold CreditRing.creditUpdate
  simp only [hdelta]
  rw [if_pos ⟨by omega, by rw [hs.maxOutstanding]; omega⟩]
  refine { hs with credits := ?_, received := himm }
  simp only
  omega

/-- A send adds its entries to the log, each for one credit. -/
theorem SendSide.sent {len padding : Nat} {ring : RingBuffer} {bufs : List (List UInt8)}
    (hs : SendSide c m slots log r s) (hgrow : Grows c log s.remoteWriteTail ring len padding)
    (hcredits : (padWrs s.remoteWriteTail padding).length + 1 ≤ s.remoteCredits) :
    SendSide c m slots (log ++ sentEntries s.remoteWriteTail len padding) r
      (s.sent bufs ring len padding) where
  __ := hs
  ringCapacity := hgrow.ringCapacity
  inRing := hgrow.inRing
  tail := by
    simp only [CreditRing.sent, hs.capacity]
    rw [hgrow.end_eq, hgrow.next_tail]
  sync := by
    simp only [CreditRing.sent, hs.capacity]
    exact hgrow.ringTail
  credits := by
    have hcount := hs.credits
    simp only [CreditRing.sent, sentWrs, length_append, length_singleton, length_sentEntries]
    omega

/-- The Writes of a send that holds a credit, whether the posts succeed or not. -/
theorem SendSide.posts (hs : SendSide c m slots log k s) (hlog : Layout c log) (hk : k ≤ h)
    (hcredit : 0 < s.remoteCredits) (bufs : List (List UInt8)) (post : WrKind → Bool) :
    ∃ new, (s.sendWithCredit bufs post).1.qp.wire = s.qp.wire ++ new ∧
      ∀ wr ∈ new, wr.kind = .data →
        ∃ tail ring len padding, Grows c log tail ring len padding ∧ len ≤ m ∧
          (log ++ sentEntries tail len padding).length ≤ h + slots ∧
          wr = dataWr (writeAt tail padding) len padding bufs ∧
          (gatherInto len bufs).length = len := by
  rcases sendWithCredit_spec (.inl hs.inRing) hcredit bufs post with
    hsame | ⟨-, hnone | hpad⟩ | ⟨ring, offset, padding, hreserve, hcredits, hsent⟩
  · exact ⟨[], by simp [hsame], by simp⟩
  · exact ⟨[], by simp [hnone], by simp⟩
  · exact ⟨_, hpad, by simp [paddingWr]⟩
  · obtain ⟨hlen16, hpayload⟩ := s.dataLen_spec bufs
    have hgrow := grows_of_reserve hlog hs.inRing hs.ringCapacity hs.sync hs.tail hreserve hlen16
    refine ⟨_, by rw [hsent]; rfl, fun wr hwr hkind =>
      ⟨_, ring, _, padding, hgrow, hs.small _, ?_, eq_dataWr_of_mem_sentWrs hwr hkind, hpayload⟩⟩
    have hcount := hs.credits
    rw [length_append, length_sentEntries]
    omega

/-- The fields that describe what a peer has received are the same. -/
structure SameRecv (s t : CreditRing) : Prop where
  virtualIdxMap : t.virtualIdxMap = s.virtualIdxMap
  nextVirtIdx : t.nextVirtIdx = s.nextVirtIdx
  maxOutstanding : t.maxOutstanding = s.maxOutstanding
  recvArrivalSeq : t.recvArrivalSeq = s.recvArrivalSeq
  recvRing : t.recvRing = s.recvRing
  recvTracker : t.recvTracker = s.recvTracker
  localFreedCredits : t.localFreedCredits = s.localFreedCredits

theorem RecvSide.of_sameRecv {done : List Entry} (hs : RecvSide c slots done h s)
    (hst : s.SameRecv t) : RecvSide c slots done h t where
  window := by
    rw [hst.virtualIdxMap, hst.recvTracker, hst.recvArrivalSeq]
    exact hs.window
  count := hst.recvArrivalSeq.trans hs.count
  maxOutstanding := hst.maxOutstanding.trans hs.maxOutstanding
  capacity := by rw [hst.recvRing, hs.capacity]
  cursor := hst.nextVirtIdx ▸ hs.cursor
  freed := hst.localFreedCredits.trans hs.freed

/-- The state after a slot is released and counted, before the count is sent. -/
def freed (s : CreditRing) (slot : Nat) : CreditRing :=
  { s with
    recvTracker := (s.recvTracker.release slot).1
    localFreedCredits := s.localFreedCredits + (s.recvTracker.release slot).2 }

theorem releaseSlot_cases (s : CreditRing) (slot : Nat) (post : Bool) :
    s.releaseSlot slot post = (s.freed slot).flushCredits post ∨
      s.releaseSlot slot post = (s.freed slot, .ok ()) := by
  unfold releaseSlot freed
  simp only
  split
  · exact .inl rfl
  · rename_i hzero
    right
    rw [Nat.eq_zero_of_not_pos hzero, add_zero]

/-- Doorbells that are posted or owed by a message the application holds. -/
def bells (s : CreditRing) : Nat :=
  s.qp.doorbells + occupied s.virtualIdxMap

theorem bells_repostDoorbell (s : CreditRing) : s.repostDoorbell.bells = s.bells + 1 :=
  add_right_comm _ 1 _

namespace RecvSide

variable {c slots h : Nat} {done : List Entry} {s : CreditRing}

variable (hs : RecvSide c slots done h s)

include hs

/-- A padding arrives; its slot is released and counted. -/
theorem padding (a : Entry) (hroom : s.recvArrivalSeq < h + slots) :
    ∃ k, RecvSide c slots (done ++ [a]) (h + k)
      ({ s with recvArrivalSeq := s.recvArrivalSeq + 1 }.freed
        (s.recvArrivalSeq % s.maxOutstanding)) := by
  obtain rfl := hs.maxOutstanding
  obtain ⟨k, hk, -, hwin⟩ := (hs.window.append [a]).arrive_padding hroom
  refine ⟨k, hwin, ?_, rfl, hs.capacity, hs.cursor, ?_⟩
  · simp [CreditRing.freed, hs.count]
  · simp [CreditRing.freed, hs.freed, hk]

/-- A message arrives and is entered under a free virtual index. -/
theorem data {a : Entry} (hdata : a.data = true) (hroom : s.recvArrivalSeq < h + slots) :
    ∃ idx, findVirtIdx s.virtualIdxMap s.maxOutstanding s.maxOutstanding
        s.nextVirtIdx = some idx ∧
      (s.recvData idx a.offset a.len).bells = s.bells + 1 ∧
      RecvSide c slots (done ++ [a]) h (s.recvData idx a.offset a.len) := by
  obtain ⟨idx, hfind⟩ := hs.window.findVirtIdx_isSome hroom hs.cursor
  have hfree := findVirtIdx_some hs.window.mapSize hs.window.pos hs.cursor hfind
  refine ⟨idx, by rw [hs.maxOutstanding, hfind], ?_, ?_, ?_, hs.maxOutstanding,
    hs.capacity, ?_, hs.freed⟩
  · simp only [bells, recvData, occupied_set_some hfree]
    omega
  · refine (hs.window.append [a]).arrive_data hroom hfree ?_
    rw [hs.count, List.getElem?_append_right le_rfl, Nat.sub_self, ← hdata]
    rfl
  · simp [recvData, hs.count]
  · simp only [recvData, hs.maxOutstanding]
    exact Nat.mod_lt _ hs.window.pos

/-- A held message is released and counted. -/
theorem repost {idx o l q : Nat} (hidx : s.virtualIdxMap[idx]? = some (some (o, l, q))) :
    ∃ k, RecvSide c slots done (h + k)
      ({ s with virtualIdxMap := s.virtualIdxMap.set idx none }.freed (q % s.maxOutstanding)) := by
  obtain rfl := hs.maxOutstanding
  obtain ⟨k, hk, -, hwin⟩ := hs.window.release_held hidx
  refine ⟨k, hwin, hs.count, rfl, hs.capacity, hs.cursor, ?_⟩
  simp [CreditRing.freed, hs.freed, hk]

end RecvSide

end CreditRing

/-- The freed count, modulo 2^32, that a receive completion carries. -/
def WorkCompletion.isCredit (wc : WorkCompletion) : Bool :=
  wc.opcode == .recv

def SendWr.isCredit (wr : SendWr) : Bool :=
  wr.kind == .credit

theorem length_sentWrs_le (tail len padding : Nat) (bufs : List (List UInt8)) :
    (sentWrs tail len padding bufs).length ≤ 2 := by
  unfold sentWrs padWrs
  split <;> simp

theorem sentWrs_filter_isCredit (tail len padding : Nat) (bufs : List (List UInt8)) :
    (sentWrs tail len padding bufs).filter isCredit = [] := by
  unfold sentWrs padWrs
  split <;> rfl

/-- A completion raised by the arrival of a Write or a credit Send. -/
def WorkCompletion.Arrived (wc : WorkCompletion) : Prop :=
  wc.status = 0 ∧ wc.withImm = true ∧ wc.opcode ≠ .other

theorem SendWr.arrived_arrival (wr : SendWr) : wr.arrival.Arrived := by
  refine ⟨rfl, rfl, ?_⟩
  unfold arrival
  simp only
  split <;> simp

theorem SendWr.isCredit_arrival (wr : SendWr) : wr.arrival.isCredit = wr.isCredit := by
  unfold arrival WorkCompletion.isCredit isCredit
  cases wr.kind <;> rfl

variable {wr : SendWr} {c m slots : Nat} {x y : CreditEndpoint}

theorem SendWr.isWrite_of_isCredit (h : wr.isCredit = true) : wr.isWrite = false := by
  rw [isWrite, eq_of_beq h]
  rfl

/-- One direction of the connection, from `e` to `f`. -/
structure CreditFlow (c m slots : Nat) (done arrived pending : List Entry)
    (r : Nat) (counts : List Nat) (h : Nat) (e f : CreditEndpoint) : Prop where
  layout : Layout c (done ++ arrived ++ pending)
  short : ∀ x ∈ done ++ arrived ++ pending, x.len ≤ m
  send : e.inner.SendSide c m slots (done ++ arrived ++ pending) r
  wire : (e.inner.qp.wire.filter isWrite).map (entry c) = pending
  imms : ∀ wr ∈ e.inner.qp.wire, wr.isWrite = true → wr.arrival = (wr.entry c).arrival
  kinds : ∀ wr ∈ e.inner.qp.wire, wr.isWrite = true ∨ wr.isCredit = true
  recvCq : f.recvCq.filter (fun wc => !wc.isCredit) = arrived.map Entry.arrival
  ok : ∀ wc ∈ f.recvCq, wc.Arrived
  recv : f.inner.RecvSide c slots done h
  lost : f.lost = []
  onTheWay : (e.recvCq.filter WorkCompletion.isCredit).map WorkCompletion.immData ++
    (f.inner.qp.wire.filter isCredit).map imm = counts.map (· % 2 ^ 32)
  increasing : (r :: counts).Pairwise (· < ·)
  bounded : ∀ k ∈ r :: counts, k ≤ f.inner.creditsSent
  sentLe : f.inner.creditsSent ≤ h

namespace CreditFlow

variable {c m slots r h : Nat} {done arrived pending : List Entry}
  {counts : List Nat} {e f e' f' : CreditEndpoint}

variable (hf : CreditFlow c m slots done arrived pending r counts h e f)

include hf

/-- A change of the sender that leaves the direction as it is. -/
theorem of_sender (hsend : e.inner.SameSend e'.inner) (hwire : e'.inner.qp.wire.filter isWrite =
      e.inner.qp.wire.filter isWrite)
    (hkinds : ∀ wr ∈ e'.inner.qp.wire, wr.isWrite = true ∨ wr.isCredit = true)
    (hcq : e'.recvCq.filter WorkCompletion.isCredit = e.recvCq.filter WorkCompletion.isCredit) :
    CreditFlow c m slots done arrived pending r counts h e' f where
  __ := hf
  send := hf.send.of_sameSend hsend
  wire := hwire ▸ hf.wire
  imms wr hwr hwrite := by
    have hmem : wr ∈ e'.inner.qp.wire.filter isWrite :=
      mem_filter.mpr ⟨hwr, hwrite⟩
    rw [hwire] at hmem
    exact hf.imms wr (mem_filter.mp hmem).1 hwrite
  kinds := hkinds
  onTheWay := hcq ▸ hf.onTheWay

/-- The receiver moves on: entries of `arrived` join `done`, and the freed count
does not fall. -/
theorem of_recv {done' arrived' : List Entry} {h' : Nat}
    (hsplit : done' ++ arrived' = done ++ arrived) (hle : h ≤ h')
    (hcq : f'.recvCq.filter (fun wc => !wc.isCredit) = arrived'.map Entry.arrival)
    (hok : ∀ wc ∈ f'.recvCq, wc ∈ f.recvCq ∨ wc.Arrived)
    (hrecv : f'.inner.RecvSide c slots done' h') (hwire : f'.inner.qp.wire.filter isCredit =
      f.inner.qp.wire.filter isCredit)
    (hsent : f'.inner.creditsSent = f.inner.creditsSent) (hlost : f'.lost = f.lost) :
    CreditFlow c m slots done' arrived' pending r counts h' e f' where
  layout := hsplit ▸ hf.layout
  short := hsplit ▸ hf.short
  send := hsplit ▸ hf.send
  __ := hf
  recvCq := hcq
  ok wc hwc := (hok wc hwc).elim (hf.ok wc) id
  recv := hrecv
  lost := hlost.trans hf.lost
  onTheWay := hwire ▸ hf.onTheWay
  bounded := hsent ▸ hf.bounded
  sentLe := (hsent ▸ hf.sentLe).trans hle

/-- A change of the receiver that leaves the direction as it is. -/
theorem of_receiver (hrecv : f.inner.SameRecv f'.inner)
    (hcq : f'.recvCq.filter (fun wc => !wc.isCredit) =
      f.recvCq.filter fun wc => !wc.isCredit)
    (hok : ∀ wc ∈ f'.recvCq, wc ∈ f.recvCq ∨ wc.Arrived)
    (hwire : f'.inner.qp.wire.filter isCredit = f.inner.qp.wire.filter isCredit)
    (hsent : f'.inner.creditsSent = f.inner.creditsSent) (hlost : f'.lost = f.lost) :
    CreditFlow c m slots done arrived pending r counts h e f' :=
  hf.of_recv rfl le_rfl (hcq.trans hf.recvCq) hok (hf.recv.of_sameRecv hrecv) hwire hsent hlost

theorem received_le : r ≤ h :=
  (hf.bounded r mem_cons_self).trans hf.sentLe

theorem head_le : h ≤ done.length :=
  hf.recv.count ▸ hf.recv.window.le

/-- Credits keep the log within the slots that the receiver has not freed. -/
theorem length_le : (done ++ arrived ++ pending).length + e.inner.remoteCredits ≤ h + slots := by
  have hcredits := hf.send.credits
  have hr := hf.received_le
  omega

/-- The receiver has room for every entry that is on its way. -/
theorem room (harrived : arrived ≠ []) : f.inner.recvArrivalSeq < h + slots := by
  have hlen := hf.length_le
  have hpos := length_pos_iff.mpr harrived
  have hcount := hf.recv.count
  simp only [length_append] at hlen
  omega

theorem fits_arrived : ∀ x ∈ arrived, x.Fits c :=
  fun _ hx => hf.layout.fits (by simp [hx])

/-- The front of the receive queue, if it is not a credit, is the oldest entry
that the receiver has not taken. -/
theorem front {wc : WorkCompletion} {cq : List WorkCompletion} (hcq : f.recvCq = wc :: cq)
    (hcredit : wc.isCredit = false) : ∃ a rest, arrived = a :: rest ∧ wc = a.arrival ∧
      cq.filter (fun wc => !wc.isCredit) = rest.map Entry.arrival := by
  have hfront := hf.recvCq
  rw [hcq, filter_cons_of_pos (by simp [hcredit])] at hfront
  cases arrived with
  | nil => simp at hfront
  | cons a rest =>
    rw [map_cons, List.cons.injEq] at hfront
    exact ⟨a, rest, rfl, hfront.1, hfront.2⟩

end CreditFlow

/-- The direction from `e` to `f` flows, for some split of its log. -/
def CreditFlowsTo (c m slots : Nat) (e f : CreditEndpoint) : Prop :=
  ∃ done arrived pending r counts h, CreditFlow c m slots done arrived pending r counts h e f

/-- Both directions between two endpoints flow. -/
def Linked (c m slots : Nat) (x y : CreditEndpoint) : Prop :=
  CreditFlowsTo c m slots x y ∧ CreditFlowsTo c m slots y x

theorem Linked.symm (hl : Linked c m slots x y) : Linked c m slots y x :=
  ⟨hl.2, hl.1⟩

/-- From `e` to `x`, the doorbell of each completion taken is reposted or held,
and at most `k` credits are spent. -/
structure CreditEndpoint.Answers (k : Nat) (e x : CreditEndpoint) : Prop where
  bells : x.inner.bells + x.recvCq.length = e.inner.bells + e.recvCq.length
  credits : e.inner.remoteCredits ≤ x.inner.remoteCredits + k

/-- A completion is taken and its doorbell reposted or held. -/
theorem CreditEndpoint.Answers.took {k : Nat} {e : CreditEndpoint} {s : CreditRing}
    {wc : WorkCompletion} {cq : List WorkCompletion} (h : e.Answers k x)
    (hcq : x.recvCq = wc :: cq) (hbells : s.bells = x.inner.bells + 1) :
    s.bells + cq.length = e.inner.bells + e.recvCq.length := by
  rw [hbells, ← h.bells, hcq, length_cons]
  omega

theorem CreditEndpoint.Answers.refl (k : Nat) (e : CreditEndpoint) : e.Answers k e :=
  ⟨rfl, Nat.le_add_right _ _⟩

/-- The endpoint that was `e` is `x` by now; it answers what it takes and is
linked to `y`. -/
structure Served (c m slots k : Nat) (e x y : CreditEndpoint) : Prop where
  linked : Linked c m slots x y
  answers : e.Answers k x

theorem Linked.served (hl : Linked c m slots x y) : Served c m slots 0 x x y :=
  ⟨hl, .refl 0 x⟩

namespace Served

variable {c m slots k : Nat} {e x y x' : CreditEndpoint}

section

variable (hl : Served c m slots k e x y)

include hl

/-- A change of an endpoint that neither direction depends on. -/
theorem of_same (hsend : x.inner.SameSend x'.inner) (hrecv : x.inner.SameRecv x'.inner)
    (hwire : x'.inner.qp.wire = x.inner.qp.wire)
    (hbells : x'.inner.qp.doorbells = x.inner.qp.doorbells)
    (hsent : x'.inner.creditsSent = x.inner.creditsSent) (hcq : x'.recvCq = x.recvCq)
    (hlost : x'.lost = x.lost) : Served c m slots k e x' y := by
  obtain ⟨⟨⟨_, _, _, _, _, _, hf⟩, ⟨_, _, _, _, _, _, hg⟩⟩, ha⟩ := hl
  refine ⟨⟨⟨_, _, _, _, _, _, hf.of_sender hsend ?_ ?_ ?_⟩,
    ⟨_, _, _, _, _, _, hg.of_receiver hrecv ?_ ?_ ?_ hsent hlost⟩⟩, ?_, ?_⟩
  · rw [hwire]
  · rw [hwire]
    exact hf.kinds
  · rw [hcq]
  · rw [hcq]
  · rw [hcq]
    exact fun wc hwc => .inl hwc
  · rw [hwire]
  · rw [bells, hbells, hrecv.virtualIdxMap, hcq]
    exact ha.bells
  · rw [hsend.remoteCredits]
    exact ha.credits

theorem mono {k' : Nat} (hk : k ≤ k') : Served c m slots k' e x y :=
  ⟨hl.linked, hl.answers.bells, hl.answers.credits.trans (Nat.add_le_add_left hk _)⟩

theorem stash (stash : List RecvCompletion) :
    Served c m slots k e { x with inner := { x.inner with recvStash := stash } } y :=
  hl.of_same ⟨rfl, rfl, rfl, rfl, rfl, rfl, rfl⟩ ⟨rfl, rfl, rfl, rfl, rfl, rfl, rfl⟩
    rfl rfl rfl rfl rfl

/-- A credit Send that is posted carries a count above all those before it. -/
theorem flush : ∃ t, x.inner.flushCredits true = (t, .ok ()) ∧
      Served c m slots k e { x with inner := t } y := by
  unfold flushCredits
  split
  · rename_i hnews
    obtain ⟨⟨⟨_, _, _, _, _, _, hf⟩, ⟨done, arrived, pending, r, counts, h, hg⟩⟩, ha⟩ := hl
    refine ⟨_, rfl, ⟨⟨_, _, _, _, _, _, hf.of_sender
      ⟨rfl, rfl, rfl, rfl, rfl, rfl, rfl⟩ ?_ ?_ rfl⟩, done, arrived, pending, r,
      counts ++ [x.inner.localFreedCredits], h, ?_⟩, ha.bells, ha.credits⟩
    · simp [RingQp.post, isWrite, creditWr]
    · exact forall_mem_append.mpr ⟨hf.kinds, forall_mem_singleton.mpr (.inr rfl)⟩
    · refine { hg with
        recv := hg.recv.of_sameRecv ⟨rfl, rfl, rfl, rfl, rfl, rfl, rfl⟩
        onTheWay := ?_, increasing := ?_, bounded := ?_, sentLe := hg.recv.freed.le }
      · have hway := hg.onTheWay
        simp only [RingQp.post, filter_append, map_append, ← append_assoc, hway]
        rfl
      · rw [← cons_append, pairwise_append]
        refine ⟨hg.increasing, pairwise_singleton _ _, fun a ha b hb => ?_⟩
        rw [mem_singleton] at hb
        have := hg.bounded a ha
        omega
      · rw [← cons_append]
        exact forall_mem_append.mpr ⟨fun k hk => (hg.bounded k hk).trans hnews.1.le,
          forall_mem_singleton.mpr le_rfl⟩
  · exact ⟨x.inner, rfl, hl⟩

/-- A send completion only frees bytes of the local ring. -/
theorem sendDone (wrId : Nat) :
    Served c m slots k e { x with inner := x.inner.sendDone wrId } y := by
  obtain ⟨⟨⟨done, arrived, pending, r, counts, h, hf⟩, ⟨_, _, _, _, _, _, hg⟩⟩, ha⟩ := hl
  refine ⟨⟨⟨done, arrived, pending, r, counts, h, ?_⟩, ⟨_, _, _, _, _, _,
    hg.of_receiver ⟨rfl, rfl, rfl, rfl, rfl, rfl, rfl⟩ rfl (fun _ => .inl) rfl rfl rfl⟩⟩,
    ha.bells, ha.credits⟩
  refine { hf with send := ?_ }
  have hring : (x.inner.sendDone wrId).sendRing = x.inner.sendRing ∨
      (x.inner.sendDone wrId).sendRing = x.inner.sendRing.release wrId := by
    unfold CreditRing.sendDone
    simp only
    split
    · exact .inl rfl
    split
    · exact .inl rfl
    split
    · exact .inr rfl
    · exact .inl rfl
  refine { hf.send with ringCapacity := ?_, inRing := ?_, sync := ?_ }
  · rcases hring with heq | heq <;> simp [heq, hf.send.ringCapacity]
  · rcases hring with heq | heq
    · exact heq ▸ hf.send.inRing
    · exact heq ▸ hf.send.inRing.release wrId
  · rcases hring with heq | heq
    · exact heq ▸ hf.send.sync
    · exact heq ▸ hf.send.sync

end

variable {cq : List WorkCompletion}

/-- A credit completion brings the sender up to the count it carries. -/
theorem credit (hl : Served c m slots k e x y) (hslots : slots < 2 ^ 32) {wc : WorkCompletion}
    (hcq : x.recvCq = wc :: cq) (hcredit : wc.isCredit = true) : Served c m slots k e
      { x with
        inner := (x.inner.creditUpdate wc.immData).repostDoorbell
        recvCq := cq } y := by
  obtain ⟨⟨⟨done, arrived, pending, r, counts, h, hf⟩, ⟨_, _, _, _, _, _, hg⟩⟩, ha⟩ := hl
  have hway := hf.onTheWay
  rw [hcq, filter_cons_of_pos hcredit, map_cons, cons_append] at hway
  cases counts with
  | nil => simp at hway
  | cons k counts =>
    rw [map_cons, List.cons.injEq] at hway
    obtain ⟨himm, hway⟩ := hway
    have hpair := pairwise_cons.mp hf.increasing
    have hrk := hpair.1 k mem_cons_self
    have hkh := (hf.bounded k (by simp)).trans hf.sentLe
    have hdone := hf.head_le
    have hsend := hf.send.creditUpdate hslots hrk (by simp only [length_append]; omega) himm
    obtain ⟨_, _, hmore, hupdate⟩ := x.inner.creditUpdate_eq wc.immData
    rw [hupdate] at hsend ⊢
    refine ⟨⟨⟨done, arrived, pending, k, counts, h, { hf with
        send := hsend.of_sameSend ⟨rfl, rfl, rfl, rfl, rfl, rfl, rfl⟩
        onTheWay := hway
        increasing := hpair.2
        bounded := fun j hj => hf.bounded j (mem_cons_of_mem r hj) }⟩,
      ⟨_, _, _, _, _, _, hg.of_receiver ⟨rfl, rfl, rfl, rfl, rfl, rfl, rfl⟩ ?_ ?_ rfl
        rfl rfl⟩⟩, ha.took hcq x.inner.bells_repostDoorbell,
      ha.credits.trans (Nat.add_le_add_right hmore _)⟩
    · rw [hcq, filter_cons_of_neg (by simp [hcredit])]
    · intro w hw
      exact .inl (by rw [hcq]; exact mem_cons_of_mem wc hw)

/-- Releasing a slot sends the new count after the slot is counted. -/
theorem releaseSlot {s : CreditRing} {slot : Nat}
    (hl : Served c m slots k e { x with inner := s.freed slot } y) :
    ∃ t, s.releaseSlot slot true = (t, .ok ()) ∧
      Served c m slots k e { x with inner := t } y := by
  rcases s.releaseSlot_cases slot true with heq | heq
  · rw [heq]
    exact hl.flush
  · exact ⟨_, heq, hl⟩

section

variable (hl : Served c m slots k e x y) (hc : c ≤ 65536) (hslots : slots < 2 ^ 32)

include hl hc hslots

variable {wc : WorkCompletion}

/-- What the front of the receive queue can be: a credit update, a padding whose
slot is freed at once, or a message for which there is a virtual index. -/
theorem arrival (hcq : x.recvCq = wc :: cq) : wc.isSuccess = true ∧ wc.withImm = true ∧
      (wc.opcode = .recv ∧ Served c m slots k e
            { x with
              inner := (x.inner.creditUpdate wc.immData).repostDoorbell
              recvCq := cq } y ∨
        wc.opcode = .recvRdmaWithImm ∧ ∃ offset length,
          decodeRingImm wc.immData = (offset, length) ∧ offset < x.inner.recvRing.capacity ∧
          offset + length ≤ x.inner.recvRing.capacity ∧
          (length = 0 ∧ (∃ t, x.inner.repostDoorbell.recvPadding true = (t, .ok ()) ∧
              Served c m slots k e { x with inner := t, recvCq := cq } y) ∨
            0 < length ∧ ∃ idx, findVirtIdx x.inner.virtualIdxMap x.inner.maxOutstanding
                x.inner.maxOutstanding x.inner.nextVirtIdx = some idx ∧
              Served c m slots k e
                { x with inner := x.inner.recvData idx offset length, recvCq := cq }
                y)) := by
  obtain ⟨⟨hf, ⟨_, _, _, r, _, h, hg⟩⟩, ha⟩ := id hl
  obtain ⟨hstatus, himm, _⟩ := hg.ok wc (by simp [hcq])
  refine ⟨by simp [WorkCompletion.isSuccess, hstatus], himm, ?_⟩
  cases hcredit : wc.isCredit with
  | true => exact .inl ⟨eq_of_beq hcredit, hl.credit hslots hcq hcredit⟩
  | false =>
    obtain ⟨a, _, rfl, rfl, hrest⟩ := hg.front hcq hcredit
    refine .inr ⟨rfl, a.offset, if a.data then a.len else 0,
      Entry.decode_arrival hc (hg.fits_arrived a mem_cons_self), ?_⟩
    obtain ⟨hpos, _, -, -⟩ := hg.fits_arrived a mem_cons_self
    have hsend : CreditFlowsTo c m slots { x with recvCq := cq } y := by
      obtain ⟨_, _, _, _, _, _, hf⟩ := hf
      refine ⟨_, _, _, _, _, _, hf.of_sender ⟨rfl, rfl, rfl, rfl, rfl, rfl, rfl⟩ rfl hf.kinds ?_⟩
      rw [hcq, filter_cons_of_neg (by simp [hcredit])]
    rw [hg.recv.capacity]
    refine ⟨by omega, by split <;> omega, ?_⟩
    cases hdata : a.data with
    | false =>
      refine .inl ⟨rfl, releaseSlot (x := { x with recvCq := cq })
        ⟨⟨?_, ?_⟩, ha.took hcq x.inner.bells_repostDoorbell, ha.credits⟩⟩
      · obtain ⟨_, _, _, _, _, _, hf⟩ := hsend
        exact ⟨_, _, _, _, _, _, hf.of_sender ⟨rfl, rfl, rfl, rfl, rfl, rfl, rfl⟩ rfl hf.kinds rfl⟩
      · obtain ⟨k, hrecv⟩ := CreditRing.RecvSide.padding (s := x.inner.repostDoorbell)
          (hg.recv.of_sameRecv ⟨rfl, rfl, rfl, rfl, rfl, rfl, rfl⟩) a (hg.room (by simp))
        exact ⟨_, _, _, _, _, _, hg.of_recv (by simp) (Nat.le_add_right h k) hrest
          (fun w hw => .inl (by rw [hcq]; exact mem_cons_of_mem _ hw)) hrecv rfl rfl rfl⟩
    | true =>
      obtain ⟨idx, hfind, hbells, hrecv⟩ :=
        hg.recv.data hdata (hg.room (by simp))
      refine .inr ⟨hpos, idx, hfind, ⟨?_, ?_⟩, ha.took hcq hbells, ha.credits⟩
      · obtain ⟨_, _, _, _, _, _, hf⟩ := hsend
        exact ⟨_, _, _, _, _, _, hf.of_sender ⟨rfl, rfl, rfl, rfl, rfl, rfl, rfl⟩ rfl hf.kinds rfl⟩
      · exact ⟨_, _, _, _, _, _, hg.of_recv (by simp) le_rfl hrest
          (fun w hw => .inl (by rw [hcq]; exact mem_cons_of_mem _ hw)) hrecv rfl rfl rfl⟩

/-- One completion of a poll, when its posts succeed. -/
theorem recvOne (hcq : x.recvCq = wc :: cq) : ∃ t delivered credits,
      x.inner.recvOne wc ⟨true, true⟩ = (t, .next delivered true credits) ∧
      Served c m slots k e { x with inner := t, recvCq := cq } y := by
  obtain ⟨hok, himm, hcase⟩ := hl.arrival hc hslots hcq
  unfold CreditRing.recvOne
  rw [if_neg (by simp [hok])]
  rcases hcase with ⟨hop, hl'⟩ | ⟨hop, offset, length, hdecode, hoff, hend, hcase⟩
  · rw [hop]
    simp only
    rw [if_pos himm, if_true]
    exact ⟨_, _, _, rfl, hl'⟩
  · have hin : ¬(offset ≥ x.inner.recvRing.capacity ∨
        length > 0 ∧ offset + length > x.inner.recvRing.capacity) := by
      omega
    rw [hop]
    simp only [hdecode]
    rw [if_neg hin]
    rcases hcase with ⟨rfl, t, hpadding, hl'⟩ | ⟨hpos, idx, hfind, hl'⟩
    · rw [if_pos rfl, if_true, hpadding]
      exact ⟨_, _, _, rfl, hl'⟩
    · rw [if_neg (ne_of_gt hpos), hfind]
      exact ⟨_, _, _, rfl, hl'⟩

/-- One completion of the inline drain, when its posts succeed. -/
theorem drainOne (hcq : x.recvCq = wc :: cq) : ∃ t delivered credits,
      x.inner.drainOne wc ⟨true, true⟩ = (t, .next delivered true credits) ∧
      Served c m slots k e { x with inner := t, recvCq := cq } y := by
  obtain ⟨hok, himm, hcase⟩ := hl.arrival hc hslots hcq
  unfold CreditRing.drainOne
  rw [if_neg (by simp [hok])]
  rcases hcase with ⟨hop, hl'⟩ | ⟨hop, offset, length, hdecode, -, -, hcase⟩
  · rw [hop]
    simp only
    rw [if_pos himm, if_true]
    exact ⟨_, _, _, rfl, hl'⟩
  · rw [hop]
    simp only [hdecode]
    rcases hcase with ⟨rfl, t, hpadding, hl'⟩ | ⟨hpos, idx, hfind, hl'⟩
    · rw [if_pos rfl, if_true, hpadding]
      exact ⟨_, _, _, rfl, hl'⟩
    · rw [if_neg (ne_of_gt hpos), hfind]
      exact ⟨_, _, _, rfl, hl'.stash _⟩

end

theorem drainBatch (hc : c ≤ 65536) (hslots : slots < 2 ^ 32)
    (batch : List (WorkCompletion × RecvPosts)) (hposts : ∀ b ∈ batch, b.2 = ⟨true, true⟩)
    (hl : Served c m slots k e x y) (hcq : x.recvCq = batch.map Prod.fst ++ cq) :
    (x.inner.drainBatch batch).2 = [] ∧
      Served c m slots k e
        { x with inner := (x.inner.drainBatch batch).1, recvCq := cq } y := by
  induction batch generalizing x with
  | nil =>
    rw [map_nil, nil_append] at hcq
    subst hcq
    exact ⟨rfl, hl⟩
  | cons b _ ih =>
    obtain ⟨_, posts⟩ := b
    obtain rfl : posts = ⟨true, true⟩ := hposts _ mem_cons_self
    obtain ⟨t, _, _, hone, hl'⟩ :=
      hl.drainOne hc hslots (by rw [hcq]; rfl)
    obtain ⟨hlost, hl''⟩ :=
      ih (fun b hb => hposts b (mem_cons_of_mem _ hb)) hl' rfl
    simp only [drainBatch, hone]
    exact ⟨hlost, hl''⟩

theorem recvBatch (hc : c ≤ 65536) (hslots : slots < 2 ^ 32) (outLen : Nat)
    (batch : List (WorkCompletion × RecvPosts)) (hposts : ∀ b ∈ batch, b.2 = ⟨true, true⟩)
    (hl : Served c m slots k e x y) (hcq : x.recvCq = batch.map Prod.fst ++ cq)
    (out : List RecvCompletion) (gotData gotCredits : Bool) :
    (recvBatch outLen x.inner out gotData gotCredits batch).stop = none ∧
      Served c m slots k e
        { x with
          inner :=
            (recvBatch outLen x.inner out gotData gotCredits batch).inner
          recvCq := cq } y := by
  induction batch generalizing x out gotData gotCredits with
  | nil =>
    rw [map_nil, nil_append] at hcq
    subst hcq
    exact ⟨rfl, hl⟩
  | cons b _ ih =>
    obtain ⟨_, posts⟩ := b
    obtain rfl : posts = ⟨true, true⟩ := hposts _ mem_cons_self
    obtain ⟨t, delivered, _, hone, hl'⟩ :=
      hl.recvOne hc hslots (by rw [hcq]; rfl)
    have hposts' := fun b hb => hposts b (mem_cons_of_mem _ hb)
    cases delivered with
    | none =>
      simp only [recvBatch, hone]
      exact ih hposts' hl' rfl out gotData _
    | some rc =>
      simp only [recvBatch, hone]
      split
      · exact ih hposts' hl' rfl _ true _
      · exact ih hposts' (hl'.stash (t.recvStash ++ [rc])) rfl out true _

/-- What an endpoint keeps about its own sends and deliveries matters to
neither direction. -/
theorem with_local (hl : Served c m slots k e x y) (sendCq : List WorkCompletion)
    (delivered : List Nat) : Served c m slots k e { x with sendCq, delivered } y :=
  hl.of_same ⟨rfl, rfl, rfl, rfl, rfl, rfl, rfl⟩ ⟨rfl, rfl, rfl, rfl, rfl, rfl, rfl⟩
    rfl rfl rfl rfl rfl

theorem dead (hl : Served c m slots k e x y) :
    Served c m slots k e { x with inner := x.inner.dead } y :=
  hl.of_same ⟨rfl, rfl, rfl, rfl, rfl, rfl, rfl⟩ ⟨rfl, rfl, rfl, rfl, rfl, rfl, rfl⟩
    rfl rfl rfl rfl rfl

end Served

/-- A polled batch and what is left of the queue make up the queue. -/
theorem zip_append_drop {α β : Type} (xs : List α) (ys : List β) :
    xs = (xs.zip ys).map Prod.fst ++ xs.drop (xs.zip ys).length := by
  induction xs generalizing ys with
  | nil => rfl
  | cons x _ ih =>
    cases ys with
    | nil => rfl
    | cons _ ys =>
      simp only [zip_cons_cons, map_cons, length_cons, drop_succ_cons, cons_append]
      exact congrArg (x :: ·) (ih ys)

/-- Every post of a poll succeeds. -/
def pollOk : Except TransportError (List RecvPosts) → Bool
  | .error _ => true
  | .ok posts => posts.all fun p => p.repost && p.credit

theorem pollOk_batch {posts : List RecvPosts} (h : pollOk (.ok posts) = true) (n : Nat)
    (cq : List WorkCompletion) : ∀ b ∈ cq.zip (posts.take n), b.2 = ⟨true, true⟩ := by
  intro b hb
  have hmem := mem_of_mem_take (of_mem_zip (a := b.1) (b := b.2) hb).2
  have hok := all_eq_true.mp h _ hmem
  rw [Bool.and_eq_true] at hok
  cases hb2 : b.2
  simp_all

namespace Served

variable {c m slots k : Nat} {e x y : CreditEndpoint}

theorem pollRecvLoop (hc : c ≤ 65536) (hslots : slots < 2 ^ 32) (outLen : Nat)
    (sendCq : List WorkCompletion) (polls : List (Except TransportError (List RecvPosts)))
    (hpolls : polls.all pollOk = true) (hl : Served c m slots k e x y) (out : List RecvCompletion) :
    (pollRecvLoop outLen sendCq x.inner out x.recvCq polls).lost = [] ∧
      Served c m slots k e
        { x with
          inner :=
            (pollRecvLoop outLen sendCq x.inner out x.recvCq polls).inner
          recvCq :=
            (pollRecvLoop outLen sendCq x.inner out x.recvCq polls).cq
        } y := by
  induction polls generalizing x out with
  | nil => exact ⟨rfl, hl⟩
  | cons poll _ ih =>
    rw [all_cons, Bool.and_eq_true] at hpolls
    cases poll with
    | error => exact ⟨rfl, hl⟩
    | ok posts =>
      obtain ⟨hstop, hl'⟩ := recvBatch hc hslots outLen
        (x.recvCq.zip (posts.take 8)) (pollOk_batch hpolls.1 8 x.recvCq) hl
        (zip_append_drop x.recvCq (posts.take 8)) out false false
      simp only [pollRecvLoop, hstop]
      split
      · exact ⟨rfl, hl'⟩
      split
      · exact ⟨rfl, hl'⟩
      · exact ih hpolls.2 hl' _

theorem processSendCompletions (wcs : List WorkCompletion) (hl : Served c m slots k e x y) :
    Served c m slots k e
      { x with inner := (x.inner.processSendCompletions wcs).1 } y := by
  induction wcs generalizing x with
  | nil => exact hl
  | cons wc _ ih =>
    unfold processSendCompletions
    split
    · exact ih (hl.sendDone wc.wrId)
    · exact hl.dead

theorem drainSendCq (drains : List (Except TransportError Nat))
    (cq : List WorkCompletion) (hl : Served c m slots k e x y) :
    Served c m slots k e { x with inner := (x.inner.drainSendCq cq drains).1 } y := by
  induction drains generalizing x cq with
  | nil => exact hl
  | cons drain _ ih =>
    cases drain with
    | error => exact hl
    | ok n =>
      simp only [drainSendCq]
      split
      · exact hl
      have hl' := hl.processSendCompletions (cq.take (min n 8))
      split
      · rename_i heq
        simpa only [heq] using hl'
      · rename_i heq
        simp only [heq] at hl'
        exact ih _ hl'

section

variable (hl : Served c m slots k e x y)

include hl

theorem pollSend (cq : List WorkCompletion) (poll : Option (Except TransportError Nat)) :
    Served c m slots k e
      { x with inner := (x.inner.pollSendCompletion cq poll true).1 } y := by
  unfold pollSendCompletion
  rcases poll with _ | (e | n)
  · exact hl
  · exact hl
  · simp only
    have hl' := hl.processSendCompletions (cq.take (min n 8))
    split
    · rename_i heq
      simpa only [heq] using hl'
    · rename_i heq
      simp only [heq] at hl'
      obtain ⟨t, hflush, hl''⟩ := hl'.flush
      simp only [hflush]
      exact hl''

variable {polls : List (Except TransportError (List RecvPosts))}

theorem pollRecv_inner (hc : c ≤ 65536) (hslots : slots < 2 ^ 32) (outLen : Nat)
    (drains : List (Except TransportError Nat)) (hpolls : polls.all pollOk = true) :
    (x.inner.pollRecv outLen x.sendCq x.recvCq drains true polls).lost = [] ∧
      Served c m slots k e
        { x with
          inner := (x.inner.pollRecv outLen x.sendCq x.recvCq drains true polls).inner
          recvCq := (x.inner.pollRecv outLen x.sendCq x.recvCq drains true polls).cq
        } y := by
  have hl' := hl.stash (x.inner.recvStash.drop outLen)
  unfold pollRecv
  simp only
  split
  · exact ⟨rfl, hl'⟩
  have hl'' := hl'.drainSendCq drains x.sendCq
  simp only at hl''
  split
  · rename_i heq
    rw [heq] at hl''
    exact ⟨rfl, hl''.dead⟩
  · rename_i heq
    rw [heq] at hl''
    obtain ⟨t, hflush, hflushed⟩ := hl''.flush
    simp only [hflush]
    exact hflushed.pollRecvLoop hc hslots outLen _ polls hpolls _

theorem pollRecv (hc : c ≤ 65536) (hslots : slots < 2 ^ 32) (outLen : Nat)
    (drains : List (Except TransportError Nat)) (hpolls : polls.all pollOk = true) :
    Served c m slots k e (x.pollRecv outLen drains true polls) y := by
  obtain ⟨hlost, hl'⟩ := hl.pollRecv_inner hc hslots outLen drains hpolls
  refine hl'.of_same ⟨rfl, rfl, rfl, rfl, rfl, rfl, rfl⟩
    ⟨rfl, rfl, rfl, rfl, rfl, rfl, rfl⟩ rfl rfl rfl rfl ?_
  simp only [CreditEndpoint.pollRecv, hlost, append_nil]

/-- Releasing a message that the application held. -/
theorem repostRecv {bufIdx : Nat} {x' : CreditEndpoint}
    (h : x.repostRecv bufIdx ⟨true, true⟩ = some x') : Served c m slots k e x' y := by
  unfold CreditEndpoint.repostRecv CreditRing.repostRecv at h
  split at h
  swap
  · cases h
  split at h
  · cases h
  rename_i o l q hheld
  have hidx := getElem?_of_getD_eq_some hheld
  have hfreed : Served c m slots k e
      { x with
        inner := { x.inner with
          virtualIdxMap := x.inner.virtualIdxMap.set bufIdx none
          }.repostDoorbell.freed (q % x.inner.maxOutstanding) } y := by
    obtain ⟨⟨⟨_, _, _, _, _, _, hf⟩, ⟨_, _, _, _, _, n, hg⟩⟩, ha⟩ := hl
    obtain ⟨k, hrecv⟩ := hg.recv.repost hidx
    refine ⟨⟨⟨_, _, _, _, _, _, hf.of_sender ⟨rfl, rfl, rfl, rfl, rfl, rfl, rfl⟩ rfl hf.kinds rfl⟩,
      ⟨_, _, _, _, _, _, hg.of_recv rfl (Nat.le_add_right n k) hg.recvCq
        (fun _ => .inl) (hrecv.of_sameRecv ⟨rfl, rfl, rfl, rfl, rfl, rfl, rfl⟩) rfl rfl
        rfl⟩⟩, ?_, ha.credits⟩
    have hcount := occupied_set_none hidx
    have hbells := ha.bells
    simp only [bells, CreditRing.freed, repostDoorbell] at hbells ⊢
    omega
  obtain ⟨t, hrelease, hl'⟩ := releaseSlot hfreed
  simp only [if_true, hrelease, Option.map_some, Option.some.injEq] at h
  subst h
  exact hl'.with_local _ _

/-- Posting the message of a send, after its padding if it needs one. -/
theorem sent {bufs : List (List UInt8)} {ring : RingBuffer} {offset padding : Nat}
    (hreserve : x.inner.sendRing.reserve
      (x.inner.dataLen (bufs.map List.length).sum) = some (ring, offset, padding))
    (hcredits : (padWrs x.inner.remoteWriteTail padding).length + 1 ≤ x.inner.remoteCredits) :
    Served c m slots (k + 2) e
      { x with
        inner := x.inner.sent bufs ring
          (x.inner.dataLen (bufs.map List.length).sum) padding } y := by
  obtain ⟨⟨⟨done, arrived, pending, r, counts, h, hf⟩, ⟨_, _, _, _, _, _, hg⟩⟩, ha⟩ := hl
  refine ⟨⟨⟨done, arrived, pending ++ sentEntries x.inner.remoteWriteTail
    (x.inner.dataLen (bufs.map List.length).sum) padding, r, counts, h, ?_⟩,
    ⟨_, _, _, _, _, _, hg.of_receiver ⟨rfl, rfl, rfl, rfl, rfl, rfl, rfl⟩ rfl
      (fun _ => .inl) ?_ rfl rfl⟩⟩, ha.bells, ?_⟩
  · obtain ⟨hlen16, hpayload⟩ := x.inner.dataLen_spec bufs
    have hsmall := hf.send.small (bufs.map List.length).sum
    have hgrow := grows_of_reserve hf.layout hf.send.inRing hf.send.ringCapacity
      hf.send.sync hf.send.tail hreserve hlen16
    have hwire : (x.inner.sent bufs ring (x.inner.dataLen (bufs.map List.length).sum)
        padding).qp.wire = x.inner.qp.wire ++ sentWrs x.inner.remoteWriteTail
          (x.inner.dataLen (bufs.map List.length).sum) padding bufs := rfl
    refine { hf with layout := ?_, short := ?_, send := ?_, wire := ?_, imms := ?_, kinds := ?_ }
    · rw [← append_assoc]
      exact hgrow.layout
    · rw [← append_assoc]
      exact forall_mem_append.mpr ⟨hf.short, fun e he => (hgrow.entry_len_le he).trans hsmall⟩
    · rw [← append_assoc]
      exact hf.send.sent hgrow hcredits
    · rw [hwire, filter_append, sentWrs_filter_isWrite, map_append, hf.wire,
        hgrow.map_entry hpayload]
    · rw [hwire]
      exact forall_mem_append.mpr ⟨hf.imms, fun wr hwr _ => arrival_eq_of_mem hpayload hwr⟩
    · rw [hwire]
      refine forall_mem_append.mpr ⟨hf.kinds, fun wr hwr => .inl ?_⟩
      exact filter_eq_self.mp (sentWrs_filter_isWrite _ _ _ _) wr hwr
  · simp only [CreditRing.sent, filter_append]
    rw [sentWrs_filter_isCredit, append_nil]
  · have hcredits := ha.credits
    have htwo := length_sentWrs_le x.inner.remoteWriteTail
      (x.inner.dataLen (bufs.map List.length).sum) padding bufs
    simp only [CreditRing.sent]
    omega

theorem sendWithCredit (hcredit : 0 < x.inner.remoteCredits) (bufs : List (List UInt8))
    {post : WrKind → Bool} (hpost : post .padding = true ∧ post .data = true) :
    Served c m slots (k + 2) e
      { x with inner := (x.inner.sendWithCredit bufs post).1 } y := by
  obtain ⟨_, _, _, _, _, _, hf⟩ := hl.linked.1
  rcases sendWithCredit_spec (.inl hf.send.inRing) hcredit bufs post with
    hsame | ⟨hfail, -⟩ | ⟨ring, offset, padding, hreserve, hcredits, hsent⟩
  · rw [hsame]
    exact hl.mono (Nat.le_add_right k 2)
  · simp [hpost.1, hpost.2] at hfail
  · rw [hsent]
    exact hl.sent hreserve hcredits

theorem drainRecvCredits (hc : c ≤ 65536) (hslots : slots < 2 ^ 32)
    {drain : Except TransportError (List RecvPosts)} (hdrain : pollOk drain = true) :
    (x.inner.drainRecvCredits x.recvCq drain).2.2 = [] ∧
      Served c m slots k e
        { x with
          inner := (x.inner.drainRecvCredits x.recvCq drain).1
          recvCq := (x.inner.drainRecvCredits x.recvCq drain).2.1 } y := by
  cases drain with
  | error => exact ⟨rfl, hl.dead⟩
  | ok posts =>
    exact drainBatch hc hslots (x.recvCq.zip (posts.take 8))
      (pollOk_batch hdrain 8 x.recvCq) hl (zip_append_drop x.recvCq (posts.take 8))

end

/-- A call of `send_gather` spends at most two credits, and none for no bytes. -/
theorem sendGather (hl : Linked c m slots x y) (hc : c ≤ 65536)
    (hslots : slots < 2 ^ 32) (bufs : List (List UInt8)) {post : WrKind → Bool}
    {drain : Except TransportError (List RecvPosts)}
    (hpost : post .padding = true ∧ post .data = true) (hdrain : pollOk drain = true) :
    Served c m slots (if (bufs.map List.length).sum = 0 then 0 else 2) x
      (x.sendGather bufs post drain) y := by
  have hnone := hl.served
  obtain ⟨hlost, hl'⟩ := hnone.drainRecvCredits hc hslots hdrain
  unfold CreditEndpoint.sendGather CreditRing.sendGather
  simp only
  split
  · split
    · simpa using hnone
    · simpa using hnone
  split
  · simpa using hnone.mono (Nat.zero_le 2)
  split
  · split
    · simpa [hlost] using hl'.mono (Nat.zero_le 2)
    · rename_i hcredit
      have hl'' := hl'.sendWithCredit (Nat.pos_of_ne_zero hcredit) bufs hpost
      simpa [hlost] using hl''
  · rename_i hcredit
    have hl'' := hnone.sendWithCredit (Nat.pos_of_ne_zero hcredit) bufs hpost
    simpa using hl''

theorem complete (hl : Served c m slots k e x y) {x' : CreditEndpoint}
    (h : x.complete = some x') : Served c m slots k e x' y := by
  unfold CreditEndpoint.complete at h
  split at h
  · cases h
  split at h
  · simp only [Option.some.injEq] at h
    subst h
    exact hl.of_same ⟨rfl, rfl, rfl, rfl, rfl, rfl, rfl⟩
      ⟨rfl, rfl, rfl, rfl, rfl, rfl, rfl⟩ rfl rfl rfl rfl rfl
  · cases h

end Served

/-- The oldest request of `x` arrives at `y`. -/
theorem Linked.arrive (hl : Linked c m slots x y) {wire : List SendWr}
    (hwire : x.inner.qp.wire = wr :: wire) (doorbells : Nat) : Linked c m slots
      { x with inner := { x.inner with qp := { x.inner.qp with wire } } }
      { y with
        inner := { y.inner with qp := { y.inner.qp with doorbells } }
        recvCq := y.recvCq ++ [wr.arrival] } := by
  obtain ⟨⟨done, arrived, pending, r, counts, h, hf⟩,
    ⟨done', arrived', pending', r', counts', h', hg⟩⟩ := hl
  have hok : ∀ wc ∈ y.recvCq ++ [wr.arrival], wc.Arrived :=
    forall_mem_append.mpr ⟨hf.ok, forall_mem_singleton.mpr wr.arrived_arrival⟩
  have hwrite := hf.wire
  have hway := hg.onTheWay
  have hkinds : ∀ wr ∈ wire, wr.isWrite = true ∨ wr.isCredit = true :=
    fun w hw => hf.kinds w (by rw [hwire]; exact mem_cons_of_mem _ hw)
  have himms : ∀ wr ∈ wire, wr.isWrite = true → wr.arrival = (wr.entry c).arrival :=
    fun w hw => hf.imms w (by rw [hwire]; exact mem_cons_of_mem _ hw)
  rw [hwire] at hwrite hway
  constructor
  · cases hcredit : wr.isCredit with
    | true =>
      have hnot := isWrite_of_isCredit hcredit
      have hcq : (y.recvCq ++ [wr.arrival]).filter (fun wc => !wc.isCredit) =
          y.recvCq.filter fun wc => !wc.isCredit := by
        simp [wr.isCredit_arrival, hcredit]
      rw [filter_cons_of_neg (by simp [hnot])] at hwrite
      exact ⟨done, arrived, pending, r, counts, h, hf.layout, hf.short,
        hf.send.of_sameSend ⟨rfl, rfl, rfl, rfl, rfl, rfl, rfl⟩, hwrite, himms, hkinds,
        hcq.trans hf.recvCq, hok, hf.recv.of_sameRecv ⟨rfl, rfl, rfl, rfl, rfl, rfl, rfl⟩,
        hf.lost, hf.onTheWay, hf.increasing, hf.bounded, hf.sentLe⟩
    | false =>
      have hiswrite := (hf.kinds wr (by simp [hwire])).resolve_right (by simp [hcredit])
      have hcq : (y.recvCq ++ [wr.arrival]).filter (fun wc => !wc.isCredit) =
          (arrived ++ [wr.entry c]).map Entry.arrival := by
        rw [filter_append, hf.recvCq, map_append, map_singleton,
          ← hf.imms wr (by simp [hwire]) hiswrite]
        simp [wr.isCredit_arrival, hcredit]
      rw [filter_cons_of_pos hiswrite, map_cons] at hwrite
      have hsplit : done ++ (arrived ++ [wr.entry c]) ++
          (wire.filter isWrite).map (entry c) = done ++ arrived ++ pending := by
        rw [← hwrite]
        simp
      refine ⟨done, arrived ++ [wr.entry c], _, r, counts, h, hsplit ▸ hf.layout, hsplit ▸ hf.short,
        ?_, rfl, himms, hkinds, hcq, hok, hf.recv.of_sameRecv ⟨rfl, rfl, rfl, rfl, rfl, rfl, rfl⟩,
        hf.lost, hf.onTheWay, hf.increasing, hf.bounded, hf.sentLe⟩
      rw [hsplit]
      exact hf.send.of_sameSend ⟨rfl, rfl, rfl, rfl, rfl, rfl, rfl⟩
  · refine ⟨done', arrived', pending', r', counts', h', hg.layout, hg.short,
      hg.send.of_sameSend ⟨rfl, rfl, rfl, rfl, rfl, rfl, rfl⟩, hg.wire, hg.imms, hg.kinds,
      hg.recvCq, hg.ok, hg.recv.of_sameRecv ⟨rfl, rfl, rfl, rfl, rfl, rfl, rfl⟩, hg.lost,
      ?_, hg.increasing, hg.bounded, hg.sentLe⟩
    -- a credit update on the wire is now in the queue
    rw [← hway, filter_append, filter_singleton, wr.isCredit_arrival, filter_cons]
    cases wr.isCredit <;> simp [arrival]

namespace CreditRing

/-- The state changes only in what it has received; its queue pair grows by
credit Sends at most. -/
def OnlyCredits (s t : CreditRing) : Prop :=
  s.SameSend t ∧ ∃ more, t.qp.wire = s.qp.wire ++ more ∧ ∀ wr ∈ more, wr.kind = .credit

variable {s t : CreditRing}

theorem OnlyCredits.of_wire (hsame : s.SameSend t) (hwire : t.qp.wire = s.qp.wire) :
    s.OnlyCredits t :=
  ⟨hsame, [], by simp [hwire], by simp⟩

theorem OnlyCredits.trans {u : CreditRing} (hst : s.OnlyCredits t) (htu : t.OnlyCredits u) :
    s.OnlyCredits u := by
  obtain ⟨hst, more, hwire, hmore⟩ := hst
  obtain ⟨htu, more', hwire', hmore'⟩ := htu
  refine ⟨⟨htu.1.trans hst.1, htu.2.trans hst.2, htu.3.trans hst.3, htu.4.trans hst.4,
    htu.5.trans hst.5, htu.6.trans hst.6, htu.7.trans hst.7⟩, more ++ more', ?_, ?_⟩
  · rw [hwire', hwire, append_assoc]
  · intro wr hwr
    exact (mem_append.mp hwr).elim (hmore wr) (hmore' wr)

section

variable (s : CreditRing)

theorem dead_only : s.OnlyCredits s.dead :=
  .of_wire ⟨rfl, rfl, rfl, rfl, rfl, rfl, rfl⟩ rfl

theorem repostDoorbell_only : s.OnlyCredits s.repostDoorbell :=
  .of_wire ⟨rfl, rfl, rfl, rfl, rfl, rfl, rfl⟩ rfl

theorem flushCredits_only (post : Bool) : s.OnlyCredits (s.flushCredits post).1 := by
  unfold flushCredits
  split
  · split
    · exact ⟨⟨rfl, rfl, rfl, rfl, rfl, rfl, rfl⟩, [creditWr s.localFreedCredits], rfl,
        by simp [creditWr]⟩
    · exact .of_wire ⟨rfl, rfl, rfl, rfl, rfl, rfl, rfl⟩ rfl
  · exact .of_wire ⟨rfl, rfl, rfl, rfl, rfl, rfl, rfl⟩ rfl

theorem recvPadding_only (post : Bool) : s.OnlyCredits (s.recvPadding post).1 := by
  have hfreed : s.OnlyCredits ({ s with recvArrivalSeq := s.recvArrivalSeq + 1 }.freed
      (s.recvArrivalSeq % s.maxOutstanding)) :=
    .of_wire ⟨rfl, rfl, rfl, rfl, rfl, rfl, rfl⟩ rfl
  unfold recvPadding
  rcases releaseSlot_cases { s with recvArrivalSeq := s.recvArrivalSeq + 1 }
    (s.recvArrivalSeq % s.maxOutstanding) post with heq | heq
  · rw [heq]
    exact hfreed.trans (flushCredits_only _ post)
  · rw [heq]
    exact hfreed

/-- What one completion of the inline drain does to the send side, whether its
posts succeed or not. -/
theorem drainOne_only {wc : WorkCompletion} (hwc : wc.Arrived) (posts : RecvPosts) :
    (if wc.isCredit then s.creditUpdate wc.immData else s).OnlyCredits
      (s.drainOne wc posts).1 := by
  obtain ⟨hstatus, himm, hopcode⟩ := hwc
  have hok : ¬(!wc.isSuccess) = true := by
    simp [WorkCompletion.isSuccess, hstatus]
  unfold drainOne
  rw [if_neg hok]
  cases hop : wc.opcode with
  | other => exact absurd hop hopcode
  | recv =>
    rw [if_pos (by rw [WorkCompletion.isCredit, hop]; rfl)]
    simp only [himm, if_true]
    split
    · exact repostDoorbell_only _
    · exact dead_only _
  | recvRdmaWithImm =>
    rw [if_neg (by rw [WorkCompletion.isCredit, hop]; decide)]
    simp only
    split
    · split
      · have hpad := (repostDoorbell_only s).trans (recvPadding_only s.repostDoorbell posts.credit)
        split
        · rename_i heq
          rwa [heq] at hpad
        · rename_i heq
          rw [heq] at hpad
          exact hpad.trans (dead_only _)
      · exact dead_only s
    · split
      · exact .of_wire ⟨rfl, rfl, rfl, rfl, rfl, rfl, rfl⟩ rfl
      · exact .of_wire ⟨rfl, rfl, rfl, rfl, rfl, rfl, rfl⟩ rfl

end

/-- A drained batch leaves the sender with one of the counts on their way. -/
theorem drainBatch_send {c m slots : Nat} {log : List Entry} (hslots : slots < 2 ^ 32)
    (batch : List (WorkCompletion × RecvPosts)) (hok : ∀ b ∈ batch, b.1.Arrived) {counts : List Nat}
    {r : Nat} (himms : ((batch.map Prod.fst).filter WorkCompletion.isCredit).map
      WorkCompletion.immData <+: counts.map (· % 2 ^ 32))
    (hinc : (r :: counts).Pairwise (· < ·)) (hle : ∀ k ∈ r :: counts, k ≤ log.length)
    (hs : s.SendSide c m slots log r) :
    (∃ k ∈ r :: counts, (s.drainBatch batch).1.SendSide c m slots log k) ∧
      ∃ more, (s.drainBatch batch).1.qp.wire = s.qp.wire ++ more ∧
        ∀ wr ∈ more, wr.kind = .credit := by
  induction batch generalizing counts r s with
  | nil => exact ⟨⟨r, mem_cons_self, hs⟩, [], by simp [drainBatch], by simp⟩
  | cons b batch ih =>
    obtain ⟨wc, posts⟩ := b
    have hone := s.drainOne_only (hok _ mem_cons_self) posts
    -- after the front completion, the counts that are still on their way
    obtain ⟨k, rest, hsub, hrest, hupdated⟩ : ∃ k rest, (k :: rest).Sublist (r :: counts) ∧
        ((batch.map Prod.fst).filter WorkCompletion.isCredit).map
          WorkCompletion.immData <+: rest.map (· % 2 ^ 32) ∧
        (s.drainOne wc posts).1.SendSide c m slots log k := by
      cases hcredit : wc.isCredit with
      | false =>
        rw [map_cons, filter_cons_of_neg (by simp [hcredit])] at himms
        rw [if_neg (by simp [hcredit])] at hone
        exact ⟨r, counts, .refl _, himms, hs.of_sameSend hone.1⟩
      | true =>
        rw [map_cons, filter_cons_of_pos hcredit, map_cons] at himms
        rw [if_pos hcredit] at hone
        cases counts with
        | nil => simp at himms
        | cons k rest =>
          rw [map_cons, cons_prefix_cons] at himms
          have hrk := (pairwise_cons.mp hinc).1 k mem_cons_self
          exact ⟨k, rest, sublist_cons_self r (k :: rest), himms.2,
            (hs.creditUpdate hslots hrk (hle k (by simp)) himms.1).of_sameSend
              hone.1⟩
    have hwire : ∃ more, (s.drainOne wc posts).1.qp.wire = s.qp.wire ++ more ∧
        ∀ wr ∈ more, wr.kind = .credit := by
      obtain ⟨-, more, hwire, hmore⟩ := hone
      refine ⟨more, ?_, hmore⟩
      rw [hwire]
      split
      · obtain ⟨_, _, -, hupdate⟩ := s.creditUpdate_eq wc.immData
        rw [hupdate]
      · rfl
    unfold drainBatch
    split
    · rename_i heq
      rw [heq] at hupdated hwire
      exact ⟨⟨k, hsub.subset mem_cons_self, hupdated⟩, hwire⟩
    · rename_i t _ _ _ heq
      rw [heq] at hupdated hwire
      obtain ⟨⟨j, hj, hsend⟩, more', hwire', hmore'⟩ :=
        ih (fun b hb => hok b (mem_cons_of_mem _ hb)) hrest
          (hinc.sublist hsub) (fun j hj => hle j (hsub.subset hj)) hupdated
      obtain ⟨more, hwire, hmore⟩ := hwire
      refine ⟨⟨j, hsub.subset hj, hsend⟩, more ++ more', ?_, ?_⟩
      · simp only
        rw [hwire', hwire, append_assoc]
      · intro wr hwr
        exact (mem_append.mp hwr).elim (hmore wr) (hmore' wr)

end CreditRing

namespace CreditFlow

variable {c m slots r h : Nat} {done arrived pending : List Entry}
  {counts : List Nat} {e f : CreditEndpoint}

section

variable (hf : CreditFlow c m slots done arrived pending r counts h e f)
  (hok : ∀ wc ∈ e.recvCq, wc.Arrived) (hslots : slots < 2 ^ 32)

include hf hok hslots

/-- What a call has when it comes to the Writes: one of the counts that were on
their way, and a queue pair grown by credit Sends at most. -/
theorem drained (drain : Except TransportError (List RecvPosts)) :
    (∃ k ≤ h, (e.inner.drainRecvCredits e.recvCq drain).1.SendSide c m slots
        (done ++ arrived ++ pending) k) ∧
      ∃ more, (e.inner.drainRecvCredits e.recvCq drain).1.qp.wire =
          e.inner.qp.wire ++ more ∧ ∀ wr ∈ more, wr.kind = .credit := by
  cases drain with
  | error =>
    exact ⟨⟨r, hf.received_le, hf.send.of_sameSend ⟨rfl, rfl, rfl, rfl, rfl, rfl, rfl⟩⟩, [], by
      simp [drainRecvCredits, dead], by simp⟩
  | ok posts =>
    have hpolled : (e.recvCq.zip (posts.take 8)).map Prod.fst <+: e.recvCq :=
      ⟨_, (zip_append_drop e.recvCq (posts.take 8)).symm⟩
    have hhead := hf.head_le
    have hbound : ∀ k ∈ r :: counts, k ≤ h := fun k hk =>
      (hf.bounded k hk).trans hf.sentLe
    obtain ⟨⟨k, hk, hsend⟩, hwire⟩ := drainBatch_send hslots
      (e.recvCq.zip (posts.take 8)) (fun b hb => hok b.1
        (of_mem_zip (a := b.1) (b := b.2) hb).1)
      (by
        rw [← hf.onTheWay]
        exact ((hpolled.filter _).map _).trans (prefix_append _ _))
      hf.increasing (fun k hk => by
        have := hbound k hk
        simp only [length_append]
        omega) hf.send
    exact ⟨⟨k, hbound k hk, hsend⟩, hwire⟩

/-- What a call posts: credit Sends, and the Writes of a send that holds a credit
for each. -/
theorem sendGather_posts (bufs : List (List UInt8)) (post : WrKind → Bool)
    (drain : Except TransportError (List RecvPosts)) :
    ∃ new, (e.sendGather bufs post drain).inner.qp.wire = e.inner.qp.wire ++ new ∧
      ∀ wr ∈ new, wr.kind = .data → ∃ tail ring len padding,
          Grows c (done ++ arrived ++ pending) tail ring len padding ∧ len ≤ m ∧
          (done ++ arrived ++ pending ++ sentEntries tail len padding).length ≤ h + slots ∧
          wr = dataWr (writeAt tail padding) len padding bufs ∧
          (gatherInto len bufs).length = len := by
  obtain ⟨⟨k, hk, hsend⟩, more, hwire, hmore⟩ := hf.drained hok hslots drain
  unfold CreditEndpoint.sendGather CreditRing.sendGather
  simp only
  split
  · exact ⟨[], by simp, by simp⟩
  split
  · exact ⟨[], by simp, by simp⟩
  split
  · split
    · refine ⟨more, hwire, fun wr hwr hkind => ?_⟩
      rw [hmore wr hwr] at hkind
      cases hkind
    · rename_i hcredit
      obtain ⟨new, hnew, hall⟩ := hsend.posts hf.layout hk (Nat.pos_of_ne_zero hcredit) bufs post
      refine ⟨more ++ new, ?_, fun wr hwr hkind => ?_⟩
      · simp only
        rw [hnew, hwire, append_assoc]
      · rcases mem_append.mp hwr with hold | hdata
        · rw [hmore wr hold] at hkind
          cases hkind
        · exact hall wr hdata hkind
  · rename_i hcredit
    exact hf.send.posts hf.layout hf.received_le (Nat.pos_of_ne_zero hcredit) bufs post

/-- No data Write of a send covers a byte of an entry from number `h` on. -/
theorem send_disjoint (hcover : slots * m ≤ c) {bufs : List (List UInt8)}
    {post : WrKind → Bool} {drain : Except TransportError (List RecvPosts)} {wr : SendWr}
    (hposted : wr ∈ (e.sendGather bufs post drain).inner.qp.wire.drop
      e.inner.qp.wire.length) (hkind : wr.kind = .data) {i : Nat} {x : Entry}
    (hi : (done ++ arrived ++ pending)[i]? = some x) (hhi : h ≤ i) {b : Nat}
    (hwr : wr.Covers b) (hrange : x.offset ≤ b ∧ b < x.offset + x.len) : False := by
  obtain ⟨_, hwire, hall⟩ := hf.sendGather_posts hok hslots bufs post drain
  rw [hwire, drop_left] at hposted
  obtain ⟨tail, _, len, padding, hgrow, hlen, _, rfl, hpayload⟩ :=
    hall wr hposted hkind
  rw [SendWr.Covers, dataWr] at hwr
  simp only [hpayload] at hwr
  refine hgrow.disjoint hi hhi ?_ hwr hrange
  -- the entries from `h` on, those of this send included, fit the slots
  have hbound : ∀ l ∈ (done ++ arrived ++ pending ++
      sentEntries tail len padding).map Entry.len, l ≤ m := by
    refine forall_mem_map.mpr (forall_mem_append.mpr ⟨hf.short, fun y hy => ?_⟩)
    exact (hgrow.entry_len_le hy).trans hlen
  have hhead := hf.head_le
  have hle : h ≤ (done ++ arrived ++ pending).length := by
    simp only [length_append]
    omega
  obtain ⟨d, hd⟩ : ∃ d, (done ++ arrived ++ pending ++
      sentEntries tail len padding).length = h + d :=
    Nat.exists_eq_add_of_le (by rw [length_append]; omega)
  have hwindow : logPos _ (h + d) ≤ logPos _ h + d * m := RingLog.pos_le_add_mul hbound
  have hroom : d * m ≤ slots * m := Nat.mul_le_mul_right m (by omega)
  rw [← hd, hgrow.end_eq, logPos_append _ hle] at hwindow
  omega

end

/-- Every message not yet released is an entry from number `h` on. -/
theorem unreleased_entry (hf : CreditFlow c m slots done arrived pending r counts h e f)
    (hc : c ≤ 65536) {sys : CreditRingSystem} {p : Side} (he : sys.get p = e)
    (hfeq : sys.get p.other = f) {range : Nat × Nat} (hrange : range ∈ sys.unreleased p) : ∃ i x,
    (done ++ arrived ++ pending)[i]? = some x ∧ h ≤ i ∧
      range = (x.offset, x.len) := by
  refine RdmaIo.unreleased_entry hc e.inner.qp.wire f.recvCq hf.recv.window
    hf.recv.count hf.fits_arrived ?_ ?_ ?_
  · intro wr hwr hkind
    rw [← hf.wire]
    refine mem_map_of_mem (mem_filter.mpr ⟨hwr, ?_⟩)
    rw [isWrite, hkind]
    rfl
  · rw [← hf.recvCq]
    refine filter_congr fun wc hwc => ?_
    have harrived := (hf.ok wc hwc).2.2
    unfold WorkCompletion.isCredit
    cases hop : wc.opcode with
    | other => exact absurd hop harrived
    | recv => rfl
    | recvRdmaWithImm => rfl
  · simpa only [CreditRingSystem.unreleased, he, hfeq, hf.lost, rangesOf,
      filter_nil, map_nil, append_nil] using hrange

end CreditFlow

namespace CreditRingSystem

/-- No Write, credit Send or doorbell repost of the call fails. -/
def PostsOk : CreditRingLabel → Prop
  | .sendGather _ _ post drain =>
    (post .padding = true ∧ post .data = true) ∧ pollOk drain = true
  | .pollSend _ _ post => post = true
  | .pollRecv _ _ _ post polls => post = true ∧ polls.all pollOk = true
  | .repostRecv _ _ posts => posts = ⟨true, true⟩
  | .arrive _ | .complete _ => True

instance : DecidablePred PostsOk
  | .sendGather _ _ _ _ => inferInstanceAs (Decidable (_ ∧ _))
  | .pollSend _ _ _ => inferInstanceAs (Decidable (_ = _))
  | .pollRecv _ _ _ _ _ => inferInstanceAs (Decidable (_ ∧ _))
  | .repostRecv _ _ _ => inferInstanceAs (Decidable (_ = _))
  | .arrive _ | .complete _ => inferInstanceAs (Decidable True)

/-- The slots of both peers, at the longest message, fit into the ring. -/
structure SlotsCover (config : CreditRingConfig) (deviceLimit : Side → Nat)
    (slots : Nat) : Prop where
  capacity : config.ringCapacity < 2 ^ 32
  same : ∀ p, CreditEndpoint.maxOutstanding config (deviceLimit p) = slots
  narrow : slots < 2 ^ 32
  cover : slots * min (min config.maxMessageSize config.ringCapacity) 0xFFFF ≤ config.ringCapacity

/-- The two peers are linked, seen from either side. -/
def LinkedAt (c m slots : Nat) (sys : CreditRingSystem) (p : Side) : Prop :=
  Linked c m slots (sys.get p) (sys.get p.other)

variable {slots : Nat}

variable {c m : Nat} {sys : CreditRingSystem} {p : Side} {label : CreditRingLabel}
  {config : CreditRingConfig}

theorem LinkedAt.all (hl : LinkedAt c m slots sys p) (q : Side) : LinkedAt c m slots sys q := by
  rcases Side.eq_or_eq_other p q with rfl | rfl
  · exact hl
  · unfold LinkedAt
    rw [Side.other_other]
    exact hl.symm

/-- Credits of peer `q` that a step can spend. -/
def spent : CreditRingLabel → Side → Nat
  | .sendGather p bufs _ _, q =>
    if q = p then if (bufs.map List.length).sum = 0 then 0 else 2 else 0
  | _, _ => 0

/-- What a step keeps: the peers stay linked, and each answers what it takes. -/
structure Kept (c m slots : Nat) (sys : CreditRingSystem) (label : CreditRingLabel)
    (sys' : CreditRingSystem) : Prop where
  linked : ∀ q, LinkedAt c m slots sys' q
  answers : ∀ q, (sys.get q).Answers (spent label q) (sys'.get q)

theorem kept_set {k : Nat} {e : CreditEndpoint}
    (hs : Served c m slots k (sys.get p) e (sys.get p.other)) (hk : k = spent label p) :
    Kept c m slots sys label (sys.set p e) := by
  subst hk
  refine ⟨LinkedAt.all (p := p) ?_, Duplex.forall_side p ?_ ?_⟩
  · simpa [LinkedAt] using hs.linked
  · rw [Duplex.get_set_self]
    exact hs.answers
  · rw [Duplex.get_set_other]
    exact .refl _ _

/-- Each step whose posts succeed keeps the peers linked. -/
theorem step_kept (hc : c ≤ 65536) (hslots : slots < 2 ^ 32) {sys' : CreditRingSystem}
    (hl : ∀ p, LinkedAt c m slots sys p) (hposts : PostsOk label)
    (hstep : step sys label = some sys') : Kept c m slots sys label sys' := by
  cases label with
  | sendGather p bufs =>
    cases hstep
    exact kept_set (Served.sendGather (hl p) hc hslots bufs hposts.1 hposts.2) (if_pos rfl).symm
  | arrive p =>
    simp only [step] at hstep
    split at hstep
    · cases hstep
    rename_i wr wire hwire
    split at hstep
    · cases hstep
    rename_i hbells
    simp only [Option.some.injEq] at hstep
    subst hstep
    refine ⟨LinkedAt.all (p := p) ?_, Duplex.forall_side p ?_ ?_⟩
    · unfold LinkedAt
      simp only [Duplex.get_set_self, Duplex.get_set_of_other]
      exact (hl p).arrive hwire _
    · rw [Duplex.get_set_of_other, Duplex.get_set_self]
      exact ⟨rfl, le_rfl⟩
    · rw [Duplex.get_set_self]
      refine ⟨?_, le_rfl⟩
      simp only [bells, length_append, length_singleton]
      omega
  | complete p =>
    obtain ⟨e, hcomplete, rfl⟩ := Option.map_eq_some_iff.mp hstep
    exact kept_set ((hl p).served.complete hcomplete) rfl
  | pollSend p poll post =>
    obtain rfl : post = true := hposts
    cases hstep
    exact kept_set (((hl p).served.pollSend _ poll).with_local _ _) rfl
  | pollRecv p outLen drains post =>
    obtain ⟨rfl, hpolls⟩ : post = true ∧ _ := hposts
    cases hstep
    exact kept_set ((hl p).served.pollRecv hc hslots outLen drains hpolls) rfl
  | repostRecv p _ posts =>
    obtain rfl : posts = ⟨true, true⟩ := hposts
    obtain ⟨e, hrepost, rfl⟩ := Option.map_eq_some_iff.mp hstep
    exact kept_set ((hl p).served.repostRecv hrepost) rfl

theorem creditFlow_new {limit limit' : Nat} (hc : config.ringCapacity = c) (hpos : 0 < c)
    (hsend : maxOutstanding config limit = slots) (hrecv : maxOutstanding config limit' = slots) :
    CreditFlow c (min (min config.maxMessageSize c) 0xFFFF) slots [] [] [] 0 [] 0
      (new config c limit) (new config c limit') := by
  have hm : 0 < slots := hsend ▸ clampMaxOutstanding_pos _ _ _ _ _
  unfold new
  rw [hsend, hrecv]
  refine ⟨by simp [Layout], by simp, ?_, rfl, by simp [fromParts],
    by simp [fromParts], rfl, by simp, ?_, rfl, rfl, by simp, by simp, le_rfl⟩
  · refine ⟨rfl, hc, ⟨?_, ?_⟩, ?_, rfl, ?_, rfl, ?_, rfl⟩
    · simp [fromParts, RingBuffer.new, hc, hpos]
    · simp [fromParts, RingBuffer.new, hc, hpos]
    · simp [fromParts]
    · intro total
      simp only [dataLen, fromParts]
      omega
    · simp [fromParts]
  · exact ⟨RecvWindow.new hm, rfl, rfl, hc, hm, rfl⟩

/-- Peers with the same slots start linked. -/
theorem build_linked_of_same {deviceLimit : Side → Nat} (hcap : config.ringCapacity < 2 ^ 32)
    (hsame : ∀ p, maxOutstanding config (deviceLimit p) = slots)
    (hbuild : build config deviceLimit = some sys) : config.ringCapacity ≤ 65536 ∧ ∀ p, LinkedAt
    config.ringCapacity
      (min (min config.maxMessageSize config.ringCapacity) 0xFFFF) slots sys p := by
  unfold build at hbuild
  split at hbuild
  · cases hbuild
  rename_i c haccept
  obtain ⟨hc, hpos, hle⟩ := acceptPeerCapacity_ok haccept
  rw [Nat.mod_eq_of_lt hcap] at hc
  subst hc
  simp only [Option.some.injEq] at hbuild
  subst hbuild
  have hflow : ∀ p q, CreditFlowsTo config.ringCapacity
      (min (min config.maxMessageSize config.ringCapacity) 0xFFFF) slots
      (new config config.ringCapacity (deviceLimit p))
      (new config config.ringCapacity (deviceLimit q)) := fun p q =>
    ⟨_, _, _, _, _, _, creditFlow_new rfl hpos (hsame p) (hsame q)⟩
  exact ⟨hle, LinkedAt.all (p := .a) ⟨hflow .a .b, hflow .b .a⟩⟩

/-- When both peers have the same slots, these cover the ring at the longest
message, and no post fails, no data Write covers a message that is not
released. -/
theorem noOverwrite_of_slotsCover {config : CreditRingConfig}
    {deviceLimit : Side → Nat} {slots : Nat} {sys sys' : CreditRingSystem}
    {trace : List CreditRingLabel} (hcover : SlotsCover config deviceLimit slots)
    (hbuild : build config deviceLimit = some sys)
    (hposts : Machine.Along step (fun _ label => PostsOk label) sys trace)
    (hrun : Machine.run step sys trace = some sys') : NoOverwrite sys' := by
  obtain ⟨hle, hstart⟩ := build_linked_of_same hcover.capacity hcover.same hbuild
  have hlinked := Machine.run_invariant
    (fun _ _ _ hl hp hstep => (step_kept hle hcover.narrow hl hp hstep).linked) hstart hposts hrun
  intro p bufs post drain wr hposted hkind range hrange b hwr hin
  obtain ⟨⟨_, _, _, _, _, _, hf⟩, ⟨_, _, _, _, _, _, hg⟩⟩ := hlinked p
  obtain ⟨i, x, hi, hhi, rfl⟩ := hf.unreleased_entry hle rfl rfl hrange
  exact hf.send_disjoint hg.ok hcover.narrow hcover.cover hposted hkind hi hhi hwr hin

/-- An 8-byte ring with 4-byte messages: two slots unless told otherwise. -/
def smallConfig (maxInFlight : Option Nat) : CreditRingConfig :=
  { ringCapacity := 8, maxMessageSize := 4, maxInFlight }

/-- Both peers of `smallConfig` on a device with deep queues. -/
def smallStart (maxInFlight : Option Nat) : CreditRingSystem :=
  { a := CreditEndpoint.new (smallConfig maxInFlight) 8 1024
    b := CreditEndpoint.new (smallConfig maxInFlight) 8 1024 }

/-- Peer `a` sends `n` bytes and `b` takes them; nothing fails. -/
def passMessage (n : Nat) : List CreditRingLabel :=
  [.sendGather .a [List.replicate n 0] (fun _ => true) (.ok []), .arrive .a, .complete .a,
    .pollSend .a (some (.ok 8)) true, .pollRecv .b 1 [] true [.ok [⟨true, true⟩]]]

/-- With three slots for an 8-byte ring, two messages of four bytes fill the ring
and a credit is left: the third Write covers the first message, still held. -/
theorem thirdCredit_overwrites :
    build (smallConfig (some 3)) (fun _ => 1024) = some (smallStart (some 3)) ∧
      ∃ sys, Machine.run step (smallStart (some 3)) (passMessage 4 ++ passMessage 4) =
        some sys ∧ ¬NoOverwrite sys := by
  obtain ⟨sys, hsys, hheld, hposted⟩ :
      ∃ sys, Machine.run step (smallStart (some 3)) (passMessage 4 ++ passMessage 4) = some sys ∧
        (0, 4) ∈ sys.unreleased .a ∧ dataWr 0 4 0 [[0, 0, 0, 0]] ∈
          ((sys.get .a).sendGather [[0, 0, 0, 0]] (fun _ => true)
            (.ok [])).inner.qp.wire.drop (sys.get .a).inner.qp.wire.length := by
    decide +kernel
  refine ⟨rfl, sys, hsys, fun hno => ?_⟩
  refine hno .a [[0, 0, 0, 0]] (fun _ => true) (.ok []) _ hposted rfl (0, 4) hheld 0 ?_ ?_
  · exact ⟨le_rfl, by decide⟩
  · exact ⟨le_rfl, by decide⟩

/-- The derived slot count covers the ring: a message is taken and not released. -/
theorem noOverwrite_of_slotsCover_pass :
    ∃ sys, Machine.run step (smallStart none) (passMessage 4) = some sys ∧
      (sys.unreleased .a).length = 1 ∧ NoOverwrite sys := by
  have hcover : SlotsCover (smallConfig none) (fun _ => 1024) 2 :=
    ⟨by decide, fun _ => by decide, by decide, by decide⟩
  have hbuild : build (smallConfig none) (fun _ => 1024) = some (smallStart none) := rfl
  refine Machine.ends_imp (fun sys => (sys.unreleased .a).length = 1) (by decide +kernel)
    fun sys hsys hheld => ⟨hheld, ?_⟩
  refine noOverwrite_of_slotsCover hcover hbuild ?_ hsys
  decide +kernel

end CreditRingSystem

end RdmaIo
