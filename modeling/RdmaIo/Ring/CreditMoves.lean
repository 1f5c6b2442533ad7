/-
What the calls of a credit ring do to its credits, one small move at a time.

A view keeps what the accounts of credits read: the credits held and received,
the queue pair, the receive queue, the slots and the counts of freed slots.
Every call, whether its posts succeed or not, is a sequence of moves, so a fact
that each move keeps is kept by every call.
-/
import RdmaIo.Ring.CreditRingSafety
import Mathlib.Logic.Relation

namespace RdmaIo

/-- What the accounts of credits read of a transport and its receive queue. -/
structure CreditView where
  slots : Nat
  credits : Nat
  /-- Last freed count received, a `u32`. -/
  received : Nat
  wire : List SendWr
  recvCq : List WorkCompletion
  map : VirtualIdxMap
  cursor : Nat
  arrivals : Nat
  tracker : CompletionTracker
  freed : Nat
  /-- Freed count of the last credit Send. -/
  announced : Nat

def CreditRing.view (s : CreditRing) (recvCq : List WorkCompletion) : CreditView where
  slots := s.maxOutstanding
  credits := s.remoteCredits
  received := s.remoteFreedReceived
  wire := s.qp.wire
  recvCq := recvCq
  map := s.virtualIdxMap
  cursor := s.nextVirtIdx
  arrivals := s.recvArrivalSeq
  tracker := s.recvTracker
  freed := s.localFreedCredits
  announced := s.creditsSent

def CreditEndpoint.view (e : CreditEndpoint) : CreditView :=
  e.inner.view e.recvCq

namespace CreditView

variable (v : CreditView)

/-- Mark a slot as released and count the slots passed. -/
def release (slot : Nat) : CreditView :=
  { v with
    tracker := (v.tracker.release slot).1
    freed := v.freed + (v.tracker.release slot).2 }

/-- Take a freed count that is at most all slots ahead, modulo 2^32. -/
def update (count : Nat) : CreditView :=
  let delta := (count + 2 ^ 32 - v.received) % 2 ^ 32
  if delta > 0 ∧ delta ≤ v.slots then
    { v with credits := v.credits + delta, received := count }
  else v

theorem update_eq (count : Nat) :
    ∃ credits received, v.update count = { v with credits, received } := by
  unfold update
  simp only
  split
  · exact ⟨_, _, rfl⟩
  · exact ⟨v.credits, v.received, rfl⟩

/-- One move of a transport. -/
inductive Move : CreditView → CreditView → Prop
  /-- A Write is posted for a credit. -/
  | post (v : CreditView) (wr : SendWr) (hwrite : wr.isWrite = true)
      (hcredit : 0 < v.credits) :
      Move v { v with wire := v.wire ++ [wr], credits := v.credits - 1 }
  /-- A credit Send is posted with a new count. -/
  | announce (v : CreditView) (hnews : v.announced < v.freed) :
      Move v { v with
        wire := v.wire ++ [CreditRing.creditWr v.freed], announced := v.freed }
  /-- A credit update is taken from the receive queue. -/
  | credit (v : CreditView) (wc : WorkCompletion) (cq : List WorkCompletion)
      (hcq : v.recvCq = wc :: cq) (hcredit : wc.isCredit = true) :
      Move v ({ v with recvCq := cq }.update wc.immData)
  /-- A padding takes a slot and is released at once. -/
  | padding (v : CreditView) (wc : WorkCompletion) (cq : List WorkCompletion)
      (hcq : v.recvCq = wc :: cq) (hwrite : wc.isCredit = false) :
      Move v ({ v with recvCq := cq, arrivals := v.arrivals + 1 }.release (v.arrivals % v.slots))
  /-- A message takes a slot and is entered under a free virtual index. -/
  | data (v : CreditView) (wc : WorkCompletion) (cq : List WorkCompletion)
      (idx offset length : Nat) (hcq : v.recvCq = wc :: cq)
      (hwrite : wc.isCredit = false)
      (hfind : findVirtIdx v.map v.slots v.slots v.cursor = some idx) :
      Move v { v with
        recvCq := cq
        map := v.map.set idx (some (offset, length, v.arrivals))
        cursor := (idx + 1) % v.slots
        arrivals := v.arrivals + 1 }
  /-- A completion is dropped. -/
  | drop (v : CreditView) (wc : WorkCompletion) (cq : List WorkCompletion)
      (hcq : v.recvCq = wc :: cq) : Move v { v with recvCq := cq }
  /-- A held message is released. -/
  | release (v : CreditView) (idx offset length seq : Nat)
      (hheld : v.map[idx]? = some (some (offset, length, seq))) :
      Move v ({ v with map := v.map.set idx none }.release (seq % v.slots))
  /-- A held message is given up without releasing its slot: no doorbell could be
  reposted for it. -/
  | forget (v : CreditView) (idx : Nat) : Move v { v with map := v.map.set idx none }

abbrev Moves : CreditView → CreditView → Prop :=
  Relation.ReflTransGen Move

theorem Move.moves {v w : CreditView} (h : Move v w) : Moves v w :=
  Relation.ReflTransGen.single h

/-- Completions given up one after another. -/
theorem moves_drop (wcs : List WorkCompletion) (cq : List WorkCompletion)
    (hcq : v.recvCq = wcs ++ cq) : Moves v { v with recvCq := cq } := by
  induction wcs generalizing v with
  | nil =>
    rw [List.nil_append] at hcq
    subst hcq
    exact .refl
  | cons wc wcs ih =>
    have hdrop := Move.drop v wc (wcs ++ cq) hcq
    exact .head hdrop (ih { v with recvCq := wcs ++ cq } rfl)

end CreditView

/-- What a call reads of a transport: its credits, its send queue and its send ring. -/
structure CreditCall where
  credits : CreditView
  sending : Nat
  sq : List SendWr
  sqCapacity : Nat
  sendRing : RingBuffer

def CreditRing.call (s : CreditRing) (recvCq : List WorkCompletion) : CreditCall where
  credits := s.view recvCq
  sending := s.sendInFlight
  sq := s.qp.sq
  sqCapacity := s.sqCapacity
  sendRing := s.sendRing

namespace CreditCall

open CreditView

/-- The moves of a call, which counts each request it posts and keeps to the queue. -/
structure Act (v w : CreditCall) : Prop where
  moves : Moves v.credits w.credits
  sending : w.sending + v.sq.length = v.sending + w.sq.length
  sqCapacity : w.sqCapacity = v.sqCapacity
  room : v.sending ≤ v.sqCapacity → w.sending ≤ w.sqCapacity
  placed : v.sendRing.Placed → w.sendRing.Placed

namespace Act

variable {v w x : CreditCall}

theorem refl (v : CreditCall) : Act v v :=
  ⟨.refl, rfl, rfl, id, id⟩

theorem trans (hvw : Act v w) (hwx : Act w x) : Act v x where
  moves := hvw.moves.trans hwx.moves
  sending := by
    have hfirst := hvw.sending
    have hlast := hwx.sending
    omega
  sqCapacity := hwx.sqCapacity.trans hvw.sqCapacity
  room h := hwx.room (hvw.room h)
  placed h := hwx.placed (hvw.placed h)

/-- Moves that post nothing. -/
theorem of_moves {c : CreditView} (h : Moves v.credits c) : Act v { v with credits := c } :=
  ⟨h, rfl, rfl, id, id⟩

theorem of_placed {ring : RingBuffer} (h : v.sendRing.Placed → ring.Placed) :
    Act v { v with sendRing := ring } :=
  ⟨.refl, rfl, rfl, id, h⟩

/-- A request is posted while the send queue has room for it. -/
theorem post {c : CreditView} (wr : SendWr) (h : Move v.credits c)
    (hroom : v.sending < v.sqCapacity) :
    Act v { v with credits := c, sending := v.sending + 1, sq := v.sq ++ [wr] } where
  moves := h.moves
  sending := by
    simp only [List.length_append, List.length_singleton]
    omega
  sqCapacity := rfl
  room _ := hroom
  placed := id

end Act

end CreditCall

namespace CreditRing

open CreditView CreditCall

variable (s : CreditRing) (cq : List WorkCompletion)

theorem flushCredits_act (post : Bool) : Act (s.call cq) ((s.flushCredits post).1.call cq) := by
  unfold flushCredits
  split
  · rename_i hnews
    split
    · exact .post (creditWr s.localFreedCredits) (Move.announce (s.view cq) hnews.1) hnews.2
    · exact .refl _
  · exact .refl _

theorem releaseSlot_act (slot : Nat) (post : Bool) :
    Act ((s.freed slot).call cq) ((s.releaseSlot slot post).1.call cq) := by
  rcases s.releaseSlot_cases slot post with heq | heq
  · rw [heq]
    exact (s.freed slot).flushCredits_act cq post
  · rw [heq]
    exact .refl _

variable {wc : WorkCompletion}

theorem recvPadding_act (hwrite : wc.isCredit = false)
    (post : Bool) : Act (s.call (wc :: cq)) ((s.recvPadding post).1.call cq) := by
  have htake := Move.padding (s.view (wc :: cq)) wc cq rfl hwrite
  exact (Act.of_moves htake.moves).trans (releaseSlot_act
    { s with recvArrivalSeq := s.recvArrivalSeq + 1 } cq _ post)

theorem recvData_act (hwrite : wc.isCredit = false) {idx : Nat} (offset length : Nat)
    (hfind : findVirtIdx s.virtualIdxMap s.maxOutstanding s.maxOutstanding
      s.nextVirtIdx = some idx) :
    Act (s.call (wc :: cq)) ((s.recvData idx offset length).call cq) :=
  .of_moves (Move.data (s.view (wc :: cq)) wc cq idx offset length rfl hwrite hfind).moves

theorem creditUpdate_call (freedCount : Nat) : (s.creditUpdate freedCount).call cq =
      { s.call cq with credits := (s.view cq).update freedCount } := by
  have hview : (s.creditUpdate freedCount).view cq = (s.view cq).update freedCount := by
    unfold creditUpdate CreditView.update
    exact apply_ite (fun t : CreditRing => t.view cq) _ _ _
  rw [← hview]
  unfold creditUpdate
  simp only
  split <;> rfl

theorem drop_act (wc : WorkCompletion) : Act (s.call (wc :: cq)) (s.call cq) :=
  .of_moves (Move.drop (s.view (wc :: cq)) wc cq rfl).moves

/-- A padding completion of either loop: `next` if its posts succeed. -/
theorem padding_act (hwrite : wc.isCredit = false) (posts : RecvPosts)
    {next stop : RecvStep} {fail : TransportError → RecvStep} : Act (s.call (wc :: cq))
      ((if posts.repost then
          match s.repostDoorbell.recvPadding posts.credit with
          | (s, .ok ()) => (s, next)
          | (s, .error e) => (s.dead, fail e)
        else (s.dead, stop)).1.call cq) := by
  by_cases hrepost : posts.repost = true
  · rw [if_pos hrepost]
    have hact := s.repostDoorbell.recvPadding_act cq hwrite posts.credit
    split
    · rename_i heq
      rwa [heq] at hact
    · rename_i heq
      rwa [heq] at hact
  · rw [if_neg hrepost]
    exact s.drop_act cq wc

/-- A credit completion of either loop. -/
theorem recv_act (hop : wc.opcode = .recv) (repost : Bool) {next stop : RecvStep} :
    Act (s.call (wc :: cq))
      ((if repost then
          ((if wc.withImm then s.creditUpdate wc.immData else s).repostDoorbell, next)
        else
          ((if wc.withImm then s.creditUpdate wc.immData else s).dead, stop)).1.call
        cq) := by
  have hact : Act (s.call (wc :: cq))
      ((if wc.withImm then s.creditUpdate wc.immData else s).call cq) := by
    by_cases himm : wc.withImm = true
    · have hcredit : wc.isCredit = true := by simp [WorkCompletion.isCredit, hop]
      rw [if_pos himm, creditUpdate_call]
      exact .of_moves (Move.credit (s.view (wc :: cq)) wc cq rfl hcredit).moves
    · rw [if_neg himm]
      exact s.drop_act cq wc
  cases repost with
  | true => exact hact
  | false => exact hact

/-- One completion of a poll, whatever comes of its posts. -/
theorem recvOne_act (wc : WorkCompletion) (posts : RecvPosts) :
    Act (s.call (wc :: cq)) ((s.recvOne wc posts).1.call cq) := by
  unfold recvOne
  split
  · exact s.drop_act cq wc
  cases hop : wc.opcode with
  | other => exact s.drop_act cq wc
  | recv =>
    exact s.recv_act cq hop posts.repost
  | recvRdmaWithImm =>
    have hwrite : wc.isCredit = false := by simp [WorkCompletion.isCredit, hop]
    simp only
    split
    · exact s.drop_act cq wc
    split
    · exact s.padding_act cq hwrite posts
    · split
      · exact s.drop_act cq wc
      · rename_i hfind
        exact s.recvData_act cq hwrite _ _ hfind

/-- One completion of the inline drain, whatever comes of its posts. -/
theorem drainOne_act (wc : WorkCompletion) (posts : RecvPosts) :
    Act (s.call (wc :: cq)) ((s.drainOne wc posts).1.call cq) := by
  unfold drainOne
  split
  · exact s.drop_act cq wc
  cases hop : wc.opcode with
  | other => exact s.drop_act cq wc
  | recv =>
    exact s.recv_act cq hop posts.repost
  | recvRdmaWithImm =>
    have hwrite : wc.isCredit = false := by simp [WorkCompletion.isCredit, hop]
    simp only
    split
    · exact s.padding_act cq hwrite posts
    · split
      · rename_i hfind
        exact s.recvData_act cq hwrite _ _ hfind
      · exact s.drop_act cq wc

theorem drainBatch_act (batch : List (WorkCompletion × RecvPosts)) :
    Act (s.call (batch.map Prod.fst ++ cq)) ((s.drainBatch batch).1.call cq) := by
  induction batch generalizing s with
  | nil => exact .refl _
  | cons b batch ih =>
    obtain ⟨wc, posts⟩ := b
    have hone := s.drainOne_act (batch.map Prod.fst ++ cq) wc posts
    unfold drainBatch
    split
    · rename_i heq
      rw [heq] at hone
      exact hone.trans (.of_moves (moves_drop _ (batch.map Prod.fst) cq rfl))
    · rename_i t _ _ _ heq
      rw [heq] at hone
      exact hone.trans (ih t)

theorem recvBatch_act (outLen : Nat) (batch : List (WorkCompletion × RecvPosts))
    (out : List RecvCompletion) (gotData gotCredits : Bool) :
    Act (s.call (batch.map Prod.fst ++ cq))
      ((recvBatch outLen s out gotData gotCredits batch).inner.call cq) := by
  induction batch generalizing s out gotData gotCredits with
  | nil => exact .refl _
  | cons b batch ih =>
    obtain ⟨wc, posts⟩ := b
    have hone := s.recvOne_act (batch.map Prod.fst ++ cq) wc posts
    unfold recvBatch
    split
    · rename_i heq
      rw [heq] at hone
      exact hone.trans (.of_moves (moves_drop _ (batch.map Prod.fst) cq rfl))
    · rename_i t _ _ heq
      rw [heq] at hone
      exact hone.trans (ih t out gotData _)
    · rename_i t rc _ _ heq
      rw [heq] at hone
      split
      · exact hone.trans (ih t _ true _)
      · exact hone.trans (ih { t with recvStash := t.recvStash ++ [rc] } out true _)

theorem pollRecvLoop_act (outLen : Nat) (sendCq : List WorkCompletion)
    (out : List RecvCompletion) (polls : List (Except TransportError (List RecvPosts))) :
    Act (s.call cq) ((pollRecvLoop outLen sendCq s out cq polls).inner.call
      (pollRecvLoop outLen sendCq s out cq polls).cq) := by
  induction polls generalizing s out cq with
  | nil => exact .refl _
  | cons poll _ ih =>
    cases poll with
    | error => exact .refl _
    | ok posts =>
      have hbatch := s.recvBatch_act (cq.drop (cq.zip (posts.take 8)).length) outLen
        (cq.zip (posts.take 8)) out false false
      rw [← zip_append_drop cq (posts.take 8)] at hbatch
      simp only [pollRecvLoop]
      split
      · exact hbatch
      split
      · exact hbatch
      split
      · exact hbatch
      · exact hbatch.trans (ih _ _ _)

theorem drainRecvCredits_act (drain : Except TransportError (List RecvPosts)) : Act (s.call cq)
      ((s.drainRecvCredits cq drain).1.call (s.drainRecvCredits cq drain).2.1) := by
  cases drain with
  | error => exact .refl _
  | ok posts =>
    have hbatch := s.drainBatch_act (cq.drop (cq.zip (posts.take 8)).length) (cq.zip (posts.take 8))
    rw [← zip_append_drop cq (posts.take 8)] at hbatch
    exact hbatch

/-- Send completions touch no credit. -/
theorem processSendCompletions_view (wcs : List WorkCompletion) :
    (s.processSendCompletions wcs).1.view cq = s.view cq := by
  induction wcs generalizing s with
  | nil => rfl
  | cons wc _ ih =>
    unfold processSendCompletions
    split
    · exact ih (s.sendDone wc.wrId)
    · rfl

theorem drainSendCq_view (sendCq : List WorkCompletion)
    (drains : List (Except TransportError Nat)) :
    (s.drainSendCq sendCq drains).1.view cq = s.view cq := by
  induction drains generalizing s sendCq with
  | nil => rfl
  | cons drain _ ih =>
    cases drain with
    | error => rfl
    | ok n =>
      simp only [drainSendCq]
      split
      · rfl
      have hview := s.processSendCompletions_view cq (sendCq.take (min n 8))
      split
      · rename_i heq
        rwa [heq] at hview
      · rename_i t heq
        rw [heq] at hview
        rw [ih t, hview]

theorem pollSendCompletion_moves (sendCq : List WorkCompletion)
    (poll : Option (Except TransportError Nat)) (post : Bool) :
    Moves (s.view cq) ((s.pollSendCompletion sendCq poll post).1.view cq) := by
  unfold pollSendCompletion
  rcases poll with _ | (e | n)
  · exact .refl
  · exact .refl
  · simp only
    have hview := s.processSendCompletions_view cq (sendCq.take (min n 8))
    split
    · rename_i heq
      rw [heq] at hview
      rw [hview]
    · rename_i t heq
      rw [heq] at hview
      rw [← hview]
      have hflush := (t.flushCredits_act cq post).moves
      split
      · rename_i heq
        rwa [heq] at hflush
      · rename_i heq
        rwa [heq] at hflush

theorem pollRecv_moves (outLen : Nat) (sendCq : List WorkCompletion)
    (drains : List (Except TransportError Nat)) (post : Bool)
    (polls : List (Except TransportError (List RecvPosts))) :
    Moves (s.view cq) ((s.pollRecv outLen sendCq cq drains post polls).inner.view
      (s.pollRecv outLen sendCq cq drains post polls).cq) := by
  unfold pollRecv
  simp only
  split
  · exact .refl
  have hview := drainSendCq_view { s with recvStash := s.recvStash.drop outLen } cq sendCq drains
  change _ = s.view cq at hview
  split
  · rename_i heq
    rw [heq] at hview
    rw [← hview]
    exact .refl
  · rename_i t _ heq
    rw [heq] at hview
    rw [← hview]
    have hflush := (t.flushCredits_act cq post).moves
    split
    · rename_i heq
      rwa [heq] at hflush
    · rename_i u heq
      rw [heq] at hflush
      exact hflush.trans (u.pollRecvLoop_act cq outLen _ _ polls).moves

variable (bufs : List (List UInt8))

theorem postData_act (len padding : Nat) (post : WrKind → Bool)
    (hcredit : 0 < s.remoteCredits) (hroom : s.sendInFlight < s.sqCapacity) : Act (s.call cq)
    ((s.postData bufs len padding post).1.call cq) := by
  unfold postData
  split
  · exact .post _ (Move.post (s.view cq) (dataWr s.remoteWriteTail len padding bufs) rfl
      hcredit) hroom
  · exact .refl _

/-- A send posts its Writes for one credit each, as far as the posts succeed and while the
queue has room for both. -/
theorem sendWithCredit_act (post : WrKind → Bool)
    (hcredit : 0 < s.remoteCredits) : Act (s.call cq) ((s.sendWithCredit bufs post).1.call cq) := by
  unfold sendWithCredit
  simp only
  split
  · exact .refl _
  rename_i hroom
  split
  · exact .refl _
  rename_i ring offset padding hreserve
  have htake : Act (s.call cq) ({ s with sendRing := ring }.call cq) :=
    .of_placed fun hplaced => .inl (hplaced.reserve hreserve).2.1
  split
  · rename_i hwrap
    split
    · refine .of_placed fun hplaced => ?_
      rwa [RingBuffer.rollback (hplaced.reserve hreserve).1 hreserve hwrap]
    rename_i htwo
    split
    · have hpad := Move.post (s.view cq) (paddingWr s.remoteWriteTail) rfl hcredit
      refine htake.trans (Act.trans
        (.post _ hpad (by change s.sendInFlight < s.sqCapacity; omega)) (postData_act
        { s with
          sendRing := ring
          qp := s.qp.post (paddingWr s.remoteWriteTail)
          remoteCredits := s.remoteCredits - 1
          sendInFlight := s.sendInFlight + 1
          remoteWriteTail := 0 } cq bufs _ padding post ?_ ?_))
      · change 0 < s.remoteCredits - 1
        omega
      · change s.sendInFlight + 1 < s.sqCapacity
        omega
    · exact htake
  · refine htake.trans (postData_act { s with sendRing := ring } cq bufs _ padding post hcredit ?_)
    change s.sendInFlight < s.sqCapacity
    omega

theorem sendGather_act (post : WrKind → Bool)
    (drain : Except TransportError (List RecvPosts)) : Act (s.call cq)
      ((s.sendGather bufs post cq drain).inner.call (s.sendGather bufs post cq drain).cq) := by
  unfold sendGather
  split
  · exact .refl _
  split
  · exact .refl _
  split
  · have hdrain := s.drainRecvCredits_act cq drain
    simp only
    split
    · exact hdrain
    · rename_i hcredit
      exact hdrain.trans (sendWithCredit_act _ _ bufs post (Nat.pos_of_ne_zero hcredit))
  · rename_i hcredit
    exact s.sendWithCredit_act cq bufs post (Nat.pos_of_ne_zero hcredit)

theorem repostRecv_act {bufIdx : Nat} {posts : RecvPosts}
    {r : CreditRing × Except TransportError Unit}
    (h : s.repostRecv bufIdx posts = some r) : Act (s.call cq) (r.1.call cq) := by
  unfold repostRecv at h
  split at h
  · cases h
  rename_i o l q hheld
  rw [Option.some.injEq] at h
  subst h
  have hidx : s.virtualIdxMap[bufIdx]? = some (some (o, l, q)) :=
    getElem?_of_getD_eq_some hheld
  by_cases hrepost : posts.repost = true
  · rw [if_pos hrepost]
    exact (Act.of_moves (Move.release (s.view cq) bufIdx o l q hidx).moves).trans
      (releaseSlot_act { s with virtualIdxMap := s.virtualIdxMap.set bufIdx none
        }.repostDoorbell cq _ posts.credit)
  · rw [if_neg hrepost]
    exact .of_moves (Move.forget (s.view cq) bufIdx).moves

end CreditRing

end RdmaIo
