/-
The message transport as an end of a credit link.

When the engine refuses nothing, each function of the transport is one move of
the link end that it stands for.  A credit is counted where the transport keeps
it: with a send call or a request while it is set aside, and with a received
message, its repost or its receipt while it is owed.
-/
import RdmaIo.Lib.CreditLink
import RdmaIo.Message.Receipts

namespace RdmaIo.Message

open RdmaIo.Message.Frame
open List
open CreditLink (Packet Peer Move)

/-- The frame that carries a packet between endpoints of one buffer size. -/
def packetFrame (size : Nat) : Packet (List UInt8) → Frame
  | .hello capacity => .hello capacity size
  | .data payload => .data payload
  | .credit credits => .credit credits

/-- What an endpoint of the buffer size can send. -/
def Sendable (size : Nat) : Packet (List UInt8) → Prop
  | .hello capacity => 0 < capacity ∧ capacity < 2 ^ 32
  | .data payload => payload.length ≤ size
  | .credit credits => credits < 2 ^ 32

/-- The bytes on the wire are those of the packet. -/
def Carries (size : Nat) (bytes : List UInt8) (packet : Packet (List UInt8)) : Prop :=
  bytes = (packetFrame size packet).bytes ∧ Sendable size packet

theorem Sendable.fits {size : Nat} (hsize : size < 2 ^ 32)
    {packet : Packet (List UInt8)} (h : Sendable size packet) :
    (packetFrame size packet).Fits := by
  cases packet with
  | hello => exact ⟨h.2, hsize⟩
  | data => exact lt_of_le_of_lt h hsize
  | credit => exact h

/-- Every frame fits a receive buffer that is large enough for a HELLO. -/
theorem Sendable.length_le {size : Nat} (hsize : helloPayloadSize ≤ size)
    {packet : Packet (List UInt8)} (h : Sendable size packet) :
    (packetFrame size packet).bytes.length ≤ headerSize + size := by
  unfold helloPayloadSize at hsize
  rw [bytes_eq, length_append, header_length]
  cases packet with
  | hello =>
    simp only [packetFrame, payload, toLeBytes, length_append, length_cons, length_nil]
    omega
  | data => exact Nat.add_le_add_left h _
  | credit =>
    simp only [packetFrame, payload, toLeBytes, length_cons, length_nil]
    omega

theorem Carries.dataOf {size : Nat} (hsize : size < 2 ^ 32) {bytes payload : List UInt8}
    (h : Carries size bytes (.data payload)) (rest : List UInt8) :
    dataOf (bytes ++ rest) bytes.length = some payload := by
  obtain ⟨rfl, hsendable⟩ := h
  simp only [Message.dataOf, parseHeader_bytes (hsendable.fits hsize) rest, payloadOf_bytes]
  rfl

/-- The credits that go back to the peer with the transition. -/
@[simp] def PendingProtocolTransition.returned : PendingProtocolTransition → Nat
  | receive returnCredit => returnCredit.toNat
  | send | controlSend _ | helloSend | helloReceiveRepost _ => 0

/-- A link end with one more transition that waits for its receipt. -/
def PendingProtocolTransition.addTo (transition : PendingProtocolTransition) (p : Peer) : Peer :=
  { p with
    heard := p.heard ++ transition.heard
    owed := p.owed + transition.returned }

/-- A transition that announces and returns nothing. -/
theorem PendingProtocolTransition.addTo_self {transition : PendingProtocolTransition}
    (hheard : transition.heard = []) (hreturned : transition.returned = 0) (p : Peer) :
    transition.addTo p = p := by
  simp only [addTo, hheard, hreturned, append_nil, add_zero]

open PendingProtocolTransition (addTo_self addTo)

def EngineMessageEvent.isRepost : EngineMessageEvent → Bool
  | repost _ => true
  | start | sendRequest _ => false

@[simp] theorem EngineMessageEvent.isRepost_repost (mr : Mr) : (repost mr).isRepost = true := rfl

/-- The send that a command carries. -/
def ProtocolBatch.posts : ProtocolBatch → List PostedSend
  | recv _ => []
  | send mr len context => [{ mr, len, context }]

def PostedSend.bytes (send : PostedSend) : List UInt8 :=
  send.mr.content.take send.len

/-- A send operation; a HELLO is only sent after it was recorded as posted. -/
structure PostedSend.Clean (posted : Bool) (send : PostedSend) : Prop where
  context : send.context ≠ .receive
  hello : send.context = .helloSend → posted = true

theorem PostedSend.Clean.mono {posted posted' : Bool} (hposted : posted = true → posted' = true)
    {send : PostedSend} (h : send.Clean posted) : send.Clean posted' :=
  ⟨h.context, fun hcontext => hposted (h.hello hcontext)⟩

/-- A request that still has its buffer has a frame in it, and a credit. -/
structure EngineSendRequest.Honest (size : Nat) (r : EngineSendRequest) : Prop where
  cancelled : r.cancelled = false
  framed : ∀ mr, r.mr = some mr → r.credit = true ∧
    ∃ payload, payload.length ≤ size ∧ mr.content = writeDataFrame payload ∧
      r.frameLen = mr.content.length

namespace EngineMessageState

/-- The transport as a link end; `acquired` credits are with send calls, and the
application holds `held` messages. -/
def peer (s : EngineMessageState) (acquired held : Nat) : Peer where
  capacity := s.localRecvCapacity
  announced := s.helloSendPosted
  confirmed := s.helloSendComplete
  heard := s.pendingProtocolTransitions.flatMap (·.2.heard)
  granted := s.helloReceiveComplete
  limit := s.peerRecvCapacity
  available := s.remoteCredits
  reserved := acquired + s.requests.countP (·.mr.isSome)
  inFlight := s.creditsInFlight
  owed := s.received.length + held + s.events.countP (·.isRepost) +
    (s.pendingProtocolTransitions.map (·.2.returned)).sum + s.pendingCreditReturns

/-- The sends that wait for admission. -/
def sends (s : EngineMessageState) : List PostedSend :=
  s.admissionPending.flatMap (·.batch.posts)

/-- A transport that nothing has disturbed. -/
structure Live (size : Nat) (s : EngineMessageState) : Prop where
  state : s.state =
    if s.helloSendComplete && s.helloReceiveComplete then .ready else .created
  admissionOpen : s.admissionOpen = true
  portOpen : s.port.isOpen = true
  bufferSize : s.bufferSize = size
  helloSend : s.helloSendPosted = false → s.helloSend.isSome = true
  capacity : 0 < s.localRecvCapacity ∧ s.localRecvCapacity < 2 ^ 32
  requests : ∀ r ∈ s.requests, r.Honest size

/-- The transport makes a move, and the frames it sends join the admission
queue. -/
structure Advance (size : Nat) (s s' : EngineMessageState)
    (taken sent : List (Packet (List UInt8))) (posts : List PostedSend) : Prop where
  move : ∀ acquired held, Move (s.peer acquired held) taken sent (s'.peer acquired held)
  live : s'.Live size
  sends : s'.sends = s.sends ++ posts
  carries : List.Forall₂ (Carries size) (posts.map PostedSend.bytes) sent
  clean : ∀ send ∈ posts, send.Clean s'.helloSendPosted
  posted : s.helloSendPosted = true → s'.helloSendPosted = true
  port : s'.port = s.port

end EngineMessageState

namespace EngineMessageState

section Submit

variable {size : Nat} {s t : EngineMessageState}

/-- A submitted command puts its send at the end of the admission queue, and its
transition at the end of the transitions. -/
theorem Advance.submit {batch : ProtocolBatch} {transition : PendingProtocolTransition}
    {taken sent : List (Packet (List UInt8))} (hlive : t.Live size) (hsends : t.sends = s.sends)
    (hport : t.port = s.port) (hposted : s.helloSendPosted = true → t.helloSendPosted = true)
    (hcarries : List.Forall₂ (Carries size) (batch.posts.map PostedSend.bytes) sent)
    (hclean : ∀ send ∈ batch.posts, send.Clean t.helloSendPosted)
    (hmove : ∀ acquired held, Move (s.peer acquired held) taken sent
      (transition.addTo (t.peer acquired held))) :
    Advance size s (t.submitTracked batch transition none) taken sent batch.posts := by
  rw [submitTracked_granted hlive.admissionOpen]
  refine ⟨?_, { hlive with }, ?_, hcarries, hclean, hposted, hport⟩
  · intro acquired held
    convert hmove acquired held using 1
    ext1 <;> simp [peer, addTo]
    omega
  · rw [← hsends]
    simp [EngineMessageState.sends]

/-- A move without a submission. -/
theorem Advance.quiet {taken : List (Packet (List UInt8))}
    (hmove : ∀ acquired held, Move (s.peer acquired held) taken [] (t.peer acquired held))
    (hlive : t.Live size) (hsends : t.sends = s.sends) (hport : t.port = s.port)
    (hposted : t.helloSendPosted = s.helloSendPosted) : Advance size s t taken [] [] :=
  ⟨hmove, hlive, by rw [hsends, append_nil], .nil, nofun, hposted ▸ id, hport⟩

theorem Advance.idle (hpeer : ∀ acquired held, t.peer acquired held = s.peer acquired held)
    (hlive : t.Live size) (hsends : t.sends = s.sends) (hport : t.port = s.port)
    (hposted : t.helloSendPosted = s.helloSendPosted) : Advance size s t [] [] [] := by
  refine .quiet ?_ hlive hsends hport hposted
  intro acquired held
  rw [hpeer]
  exact .idle _

/-- The first HELLO is the announcement of the link end. -/
theorem Live.startHelloSend (h : s.Live size) :
    ∃ sent posts, Advance size s (s.startHelloSend none) [] sent posts := by
  unfold EngineMessageState.startHelloSend
  split
  next => exact ⟨[], [], .idle (fun _ _ => rfl) h rfl rfl rfl⟩
  next hfirst =>
    rw [not_or, Bool.not_eq_true] at hfirst
    obtain ⟨mr, hmr⟩ := Option.isSome_iff_exists.mp (h.helloSend hfirst.2)
    simp only [hmr]
    refine ⟨[.hello s.localRecvCapacity], _, .submit ?_ rfl rfl ?_ ?_ ?_ ?_⟩
    · exact { h with helloSend := nofun }
    · exact fun _ => rfl
    · refine .cons ⟨?_, h.capacity⟩ .nil
      rw [packetFrame, bytes, ← h.bufferSize]
      exact take_length
    · intro send hsend
      obtain rfl := mem_singleton.mp hsend
      exact ⟨nofun, fun _ => rfl⟩
    · intro acquired held
      rw [addTo_self rfl rfl]
      exact Move.announce (s.peer acquired held) hfirst.2

/-- A message's buffer goes from its event to its receipt. -/
theorem Live.processRepost (h : s.Live size) {mr : Mr}
    {events : List EngineMessageEvent} (hevents : s.events = .repost mr :: events)
    (hready : s.state = .ready) :
    ∃ sent posts, Advance size s ({ s with events }.processRepost mr none) [] sent posts := by
  unfold EngineMessageState.processRepost
  rw [if_pos hready]
  refine ⟨[], _, .submit { h with } rfl rfl id .nil nofun ?_⟩
  intro acquired held
  convert Move.idle (s.peer acquired held) using 1
  ext1 <;> simp [peer, hevents, countP_cons, addTo]
  omega

theorem Live.ready_iff (h : s.Live size) (acquired held : Nat) :
    s.state = .ready ↔ (s.peer acquired held).opened = true := by
  rw [h.state]
  change _ ↔ (s.helloSendComplete && s.helloReceiveComplete) = true
  split
  next hopened => exact iff_of_true rfl hopened
  next hclosed => exact iff_of_false nofun hclosed

/-- An update of a request that leaves its buffer alone. -/
theorem peer_updateRequest {f : EngineSendRequest → EngineSendRequest}
    (request acquired held : Nat) (hf : ∀ r, (f r).mr = r.mr) :
    (s.updateRequest request f).peer acquired held = s.peer acquired held := by
  have hcount : (s.requests.modify request f).countP (·.mr.isSome) =
      s.requests.countP (·.mr.isSome) :=
    countP_modify (fun r => by rw [hf]) _ _
  simp only [peer, updateRequest, hcount]

/-- Apart from the requests, the bookkeeping of sends does not disturb. -/
theorem Live.of_withoutSends (h : s.Live size) (hkeep : t.withoutSends = s.withoutSends)
    (honest : ∀ r ∈ t.requests, r.Honest size) : t.Live size := by
  have keep {β : Type} (f : EngineMessageState → β)
      (hf : ∀ s, f s = f s.withoutSends := by intro; rfl) : f t = f s := by
    rw [hf t, hkeep, ← hf s]
  refine ⟨?_, ?_, ?_, ?_, ?_, ?_, honest⟩
  · rw [keep EngineMessageState.state, keep helloSendComplete, keep helloReceiveComplete]
    exact h.state
  · exact (keep EngineMessageState.admissionOpen).trans h.admissionOpen
  · exact (keep fun s => s.port.isOpen).trans h.portOpen
  · exact (keep EngineMessageState.bufferSize).trans h.bufferSize
  · rw [keep helloSendPosted, keep EngineMessageState.helloSend]
    exact h.helloSend
  · rw [keep localRecvCapacity]
    exact h.capacity

/-- Starting a request takes its framed buffer and the credit set aside. -/
theorem Live.startRequest (h : s.Live size) (request : Nat) :
    s.startRequest request = (s, .alreadyHandled) ∨
      ∃ requests mr payload, s.startRequest request =
            ({ s with requests }, .post mr true mr.content.length) ∧
          mr.content = writeDataFrame payload ∧ payload.length ≤ size ∧
          (∀ r ∈ requests, r.Honest size) ∧
          requests.countP (·.mr.isSome) + 1 = s.requests.countP (·.mr.isSome) := by
  unfold EngineMessageState.startRequest
  cases hr : s.requests[request]? with
  | none => exact .inl rfl
  | some r =>
    have honest := h.requests r (mem_of_getElem? hr)
    cases hmr : r.mr with
    | none => exact .inl (by simp only [hmr])
    | some mr =>
      obtain ⟨hcredit, payload, hsize, hcontent, hlen⟩ := honest.framed mr hmr
      refine .inr ⟨s.requests.modify request fun r => { r with mr := none, credit := false },
          mr, payload, ?_, hcontent, hsize, ?_, ?_⟩
      · simp only [hmr, honest.cancelled, hcredit, hlen]
        rfl
      · apply forall_mem_modify h.requests
        exact fun r hr => ⟨hr.cancelled, nofun⟩
      · exact countP_modify_add_one hr (by rw [hmr]; rfl) rfl

/-- A send request becomes a DATA frame, or gives its credit back. -/
theorem Live.processSendRequest (h : s.Live size) (request : Nat) :
    ∃ sent posts, Advance size s (s.processSendRequest request none) [] sent posts := by
  unfold EngineMessageState.processSendRequest
  rcases h.startRequest request with hstart | hstart
  · rw [hstart]
    exact ⟨[], [], .idle (fun _ _ => rfl) h rfl rfl rfl⟩
  obtain ⟨requests, mr, payload, hstart, hcontent, hsize, honest, hcount⟩ := hstart
  rw [hstart]
  simp only [if_true]
  split
  next hready =>
    refine ⟨[.data payload], _, .submit ?_ rfl rfl id ?_ ?_ ?_⟩
    · refine h.of_withoutSends rfl (forall_mem_modify honest ?_ request)
      exact fun r hr => ⟨hr.cancelled, hr.framed⟩
    · refine .cons ⟨?_, hsize⟩ .nil
      exact take_length.trans hcontent
    · intro send hsend
      obtain rfl := mem_singleton.mp hsend
      exact ⟨nofun, nofun⟩
    · intro acquired held
      rw [addTo_self rfl rfl, peer_updateRequest]
      · convert Move.send (s.peer acquired held) payload (by simp only [peer]; omega) using 1
        ext1 <;> simp only [peer]
        omega
      · exact fun _ => rfl
  next hready =>
    refine ⟨[], [], .quiet ?_ ?_ rfl rfl rfl⟩
    · intro acquired held
      rw [completeRequest, peer_updateRequest]
      · convert Move.release (s.peer acquired held) (by simp only [peer]; omega) using 1
        ext1 <;> simp only [peer, putDataSend, dropCredit, if_true]
        omega
      · exact fun _ => rfl
    · refine h.of_withoutSends rfl (forall_mem_modify honest ?_ request)
      exact fun r hr => ⟨hr.cancelled, hr.framed⟩

/-- A CREDIT frame gives owed credits back. -/
theorem Live.flushOneCredit (h : s.Live size) (hflush : s.flushOneCredit none = some t) :
    ∃ sent posts, Advance size s t [] sent posts := by
  unfold EngineMessageState.flushOneCredit at hflush
  split at hflush
  · cases hflush
  next hpending =>
  rw [not_or, Decidable.not_not] at hpending
  split at hflush
  · cases hflush
  next mr entries hentries =>
  cases hflush
  have hpos : 0 < claimPendingCreditReturns s.pendingCreditReturns := by
    unfold claimPendingCreditReturns
    omega
  have hle : claimPendingCreditReturns s.pendingCreditReturns ≤ s.pendingCreditReturns :=
    min_le_left _ _
  have hfits : claimPendingCreditReturns s.pendingCreditReturns < 2 ^ 32 := by
    unfold claimPendingCreditReturns
    omega
  generalize claimPendingCreditReturns s.pendingCreditReturns = credits at hpos hle hfits
  refine ⟨[.credit credits], _, .submit { h with } rfl rfl id ?_ ?_ ?_⟩
  · refine .cons ⟨?_, hfits⟩ .nil
    exact take_length
  · intro send hsend
    obtain rfl := mem_singleton.mp hsend
    exact ⟨nofun, nofun⟩
  · intro acquired held
    rw [addTo_self rfl rfl]
    convert Move.giveBack (s.peer acquired held) ((h.ready_iff _ _).mp hpending.2) hpos
      (by simp only [peer]; omega) using 1
    ext1 <;> simp only [peer]
    omega

end Submit

section IoEvents

variable {size : Nat} {s : EngineMessageState}

theorem tryMarkReady_eq (hstate : s.state = .created ∨
      s.state = .ready ∧ s.helloSendComplete = true ∧ s.helloReceiveComplete = true) :
    s.tryMarkReady =
      { s with
        state :=
          if s.helloSendComplete && s.helloReceiveComplete then .ready else .created } := by
  unfold tryMarkReady
  rcases hstate with hstate | ⟨hstate, hsend, hreceive⟩
  · by_cases hboth : (s.helloSendComplete && s.helloReceiveComplete) = true
    · simp only [hboth, hstate, beq_self_eq_true, Bool.and_self, if_true]
    · simp only [hboth, hstate, Bool.false_and, Bool.false_eq_true, if_false]
      rw [← hstate]
  · rw [if_neg (by simp [hstate]), if_pos (by simp [hsend, hreceive]), ← hstate]

section

variable (h : s.Live size)

include h

/-- A live transport is created, or ready with both halves of the handshake. -/
theorem Live.state_cases : s.state = .created ∨
    s.state = .ready ∧ s.helloSendComplete = true ∧ s.helloReceiveComplete = true := by
  rw [h.state]
  split
  next hboth => exact .inr ⟨rfl, by simpa using hboth⟩
  next => exact .inl rfl

theorem Live.not_closing : s.state.isClosing = false := by
  rcases h.state_cases with hstate | ⟨hstate, -⟩ <;> rw [hstate] <;> rfl

theorem Live.not_lost : s.receiverLost = false := by
  simp [receiverLost, h.admissionOpen, h.portOpen]

theorem Live.not_cancelled (command : ProtocolCommand) : s.isCancelled command = false := by
  unfold isCancelled
  split
  next request _ =>
    cases hr : s.requests[request]? with
    | none => rfl
    | some r => exact (h.requests r (mem_of_getElem? hr)).cancelled
  next => rfl

/-- The receipt of an accepted command settles its transition. -/
theorem Live.processReceipt (id : Nat) {recorded : Nat}
    {transition : PendingProtocolTransition}
    {rest : List (Nat × PendingProtocolTransition)}
    (htransitions : s.pendingProtocolTransitions = (recorded, transition) :: rest) :
    Advance size s (s.processIoEvent (.submission id (.allAccepted 1)) none) [] [] [] := by
  simp only [processIoEvent, htransitions]
  cases transition with
  | receive returnCredit =>
    cases returnCredit with
    | true =>
      refine .idle ?_ { h with } rfl rfl rfl
      intro acquired held
      ext1 <;> simp [peer, htransitions, applyProtocolDisposition,
        IoSubmissionDisposition.isAllAccepted]
      omega
    | false =>
      refine .idle ?_ { h with } rfl rfl rfl
      intro acquired held
      ext1 <;> simp [peer, htransitions, applyProtocolDisposition, failPotential,
        IoSubmissionDisposition.isAllAccepted, IoSubmissionDisposition.error]
  | send | helloSend | controlSend credits =>
    refine .idle ?_ { h with } rfl rfl rfl
    intro acquired held
    ext1 <;> simp [peer, htransitions, applyProtocolDisposition,
      IoSubmissionDisposition.isAllAccepted]
  | helloReceiveRepost capacity =>
    simp only [applyProtocolDisposition, IoSubmissionDisposition.isAllAccepted, if_true]
    rw [tryMarkReady_eq]
    · refine .quiet ?_ { h with state := rfl } rfl rfl rfl
      intro acquired held
      have hheard : (s.peer acquired held).heard = capacity :: rest.flatMap (·.2.heard) := by
        simp [peer, htransitions]
      convert Move.grant (s.peer acquired held) hheard using 1
      ext1 <;> simp [peer, htransitions]
    · refine h.state_cases.imp_right ?_
      rintro ⟨hready, hsend, -⟩
      exact ⟨hready, hsend, rfl⟩

/-- The completion of the HELLO confirms the announcement. -/
theorem Live.processHelloSend {event : IoCompletionEvent}
    (hcontext : event.context = .helloSend) {len : Nat} (hresult : event.result = .ok len)
    (haccepted : event.provenUnaccepted = false) (hposted : s.helloSendPosted = true) :
    Advance size s (s.processIoCompletion event none) [] [] [] := by
  simp only [processIoCompletion, hcontext, hresult, haccepted, Bool.false_eq_true, if_false]
  rw [tryMarkReady_eq]
  · refine .quiet ?_ { h with state := rfl } rfl rfl rfl
    exact fun acquired held => Move.confirm (s.peer acquired held) hposted
  · exact h.state_cases.imp_right fun ⟨hready, _, hreceive⟩ => ⟨hready, rfl, hreceive⟩

end

variable {mr : Mr}

/-- The completion of a DATA or CREDIT frame gives a buffer back. -/
theorem Live.processSend (h : s.Live size) {event : IoCompletionEvent}
    (hcontext : event.context = .controlSend ∨ ∃ request, event.context = .send request)
    {len : Nat} (hresult : event.result = .ok len) (hmr : event.mr = some mr)
    (haccepted : event.provenUnaccepted = false)
    (hcancelled : event.cancelledBeforeSubmit = false) :
    Advance size s (s.processIoCompletion event none) [] [] [] := by
  rcases hcontext with hcontext | ⟨request, hcontext⟩
  · simp only [processIoCompletion, hcontext, hresult, hmr]
    exact .idle (fun _ _ => rfl) { h with } rfl rfl rfl
  · simp only [processIoCompletion, processSendCompletion, hcontext, hresult, hmr,
      haccepted, hcancelled, Bool.false_eq_true, if_false]
    refine .idle ?_ ?_ rfl rfl rfl
    · intro acquired held
      rw [completeRequest, peer_updateRequest]
      · rfl
      · exact fun _ => rfl
    · refine h.of_withoutSends rfl (forall_mem_modify h.requests ?_ request)
      exact fun r hr => ⟨hr.cancelled, hr.framed⟩

variable {rest : List UInt8}

variable (h : s.Live size) (hmin : helloPayloadSize ≤ size) (hmax : size < 2 ^ 32)

include h hmin hmax

/-- A HELLO of a compatible peer passes every check. -/
theorem Live.parseHello {capacity : Nat} (hsendable : Sendable size (.hello capacity))
    (hcontent : mr.content = (hello capacity size).bytes ++ rest) :
    s.parseHelloReceive (hello capacity size).bytes.length mr = .ok capacity := by
  have hlen := hsendable.length_le hmin
  simp only [packetFrame] at hlen
  have hfits : (hello capacity size).Fits := hsendable.fits hmax
  have hpermits : capacity ≤ maxPermits := by
    have := hsendable.2
    unfold maxPermits
    omega
  unfold parseHelloReceive
  rw [if_neg (by rw [mrSize, h.bufferSize]; omega), hcontent, parseHeader_bytes hfits rest]
  simp only [bind, Except.bind, payloadOf_bytes]
  rw [if_neg (by simp [frameType]), parseHello_payload hsendable.2 hmax]
  simp only [validatePeerHello, h.bufferSize]
  rw [if_neg (ne_of_gt hsendable.1), if_neg (by omega), if_neg (by omega)]

/-- The announcement of the peer is heard. -/
theorem Live.processHelloReceive {capacity : Nat} (hsendable : Sendable size (.hello capacity))
    (hcontent : mr.content = (hello capacity size).bytes ++ rest)
    (hfirst : s.helloReceiveComplete = false) : ∃ posts, Advance size s
      (s.processHelloReceive (.ok (hello capacity size).bytes.length) (some mr) none)
      [.hello capacity] [] posts := by
  simp only [EngineMessageState.processHelloReceive,
    h.parseHello hmin hmax hsendable hcontent, hfirst, Bool.false_eq_true, if_false]
  refine ⟨_, .submit h rfl rfl id .nil nofun ?_⟩
  exact fun acquired held => Move.hear (s.peer acquired held) capacity

/-- A DATA frame is taken and owed. -/
theorem Live.processData (hready : s.state = .ready) {payload : List UInt8}
    (hsendable : Sendable size (.data payload))
    (hcontent : mr.content = (data payload).bytes ++ rest) :
    Advance size s (s.processFrame (data payload).bytes.length mr none)
      [.data payload] [] [] := by
  have hlen := hsendable.length_le hmin
  simp only [packetFrame] at hlen
  have hfits : (data payload).Fits := hsendable.fits hmax
  have hparse := parseHeader_bytes hfits rest
  rw [← hcontent] at hparse
  have hsize : ¬ (data payload).payload.length > s.bufferSize := by
    rw [h.bufferSize]
    exact not_lt.mpr hsendable
  unfold processFrame
  rw [if_neg (by rw [mrSize, h.bufferSize]; omega), hparse]
  simp only [frameType, if_true, hsize, if_false]
  refine .quiet ?_ { h with } rfl rfl rfl
  intro acquired held
  convert Move.take (s.peer acquired held) payload ((h.ready_iff _ _).mp hready) using 1
  ext1 <;> simp only [peer, length_append, length_singleton]
  omega

/-- A CREDIT frame refills the credits of the sender. -/
theorem Live.processCredit {credits : Nat} (hsendable : Sendable size (.credit credits))
    (hpos : 0 < credits) (hinFlight : credits ≤ s.creditsInFlight)
    (hlimit : s.remoteCredits + credits ≤ s.peerRecvCapacity)
    (hcontent : mr.content = (credit credits).bytes ++ rest) :
    ∃ posts, Advance size s (s.processFrame (credit credits).bytes.length mr none)
      [.credit credits] [] posts := by
  have hlen := hsendable.length_le hmin
  simp only [packetFrame] at hlen
  have hfits : (credit credits).Fits := hsendable.fits hmax
  have hparse := parseHeader_bytes hfits rest
  have hpayload := payloadOf_bytes (.credit credits) rest
  rw [← hcontent] at hparse hpayload
  have hcheck : checkCreditReturn credits s.creditsInFlight s.remoteCredits
      s.peerRecvCapacity = .ok () := by
    unfold checkCreditReturn
    rw [if_neg (by omega), if_neg (by omega), if_neg (by omega)]
  unfold processFrame
  rw [if_neg (by rw [mrSize, h.bufferSize]; omega), hparse]
  simp only [frameType, payload] at hpayload ⊢
  rw [if_neg (by decide), if_pos trivial, hpayload, parseCredit_toLeBytes hsendable]
  simp only [validateAndAddCredits, hcheck, bind, Except.bind, pure, Except.pure]
  refine ⟨_, .submit { h with } rfl rfl id .nil (forall_mem_nil _) ?_⟩
  intro acquired held
  rw [addTo_self rfl rfl]
  exact Move.refill (s.peer acquired held) credits

/-- A frame that the link end accepts is taken; DATA only once the transport is
ready. -/
theorem Live.processReceive {bytes : List UInt8} {packet : Packet (List UInt8)}
    (hcarries : Carries size bytes packet) {acquired held : Nat}
    (haccepts : (s.peer acquired held).Accepts packet)
    (hdata : ∀ payload, packet = .data payload → s.state = .ready)
    (hcontent : mr.content = bytes ++ rest) :
    ∃ posts, Advance size s (s.processReceive (.ok bytes.length) (some mr) none)
      [packet] [] posts := by
  obtain ⟨rfl, hsendable⟩ := hcarries
  unfold EngineMessageState.processReceive
  cases packet with
  | hello =>
    have hfirst : s.helloReceiveComplete = false := haccepts.2
    rcases h.state_cases with hstate | ⟨-, -, hreceive⟩
    · rw [hstate]
      exact h.processHelloReceive hmin hmax hsendable hcontent hfirst
    · exact nomatch hfirst.symm.trans hreceive
  | data payload =>
    rw [hdata payload rfl]
    exact ⟨[], h.processData hmin hmax (hdata payload rfl) hsendable hcontent⟩
  | credit =>
    obtain ⟨hopened, hpos, hinFlight, hlimit⟩ := haccepts
    rw [(h.ready_iff acquired held).mpr hopened]
    exact h.processCredit hmin hmax hsendable hpos hinFlight hlimit hcontent

end IoEvents

end EngineMessageState

end RdmaIo.Message
