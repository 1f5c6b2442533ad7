/-
`EngineMessageState`: the message transport of one connection, with its half of
the I/O boundary (the admission queue and the event port).

Where a submission can be refused by the engine the call takes the refusal as an
argument.  Wakers, notifications and the HELLO deadline's clock are left out.
-/
import RdmaIo.Message.Io

namespace RdmaIo.Message

/-- Transport lifecycle states. -/
inductive TransportState where
  | created
  | ready
  | closing
  | stopped
  | failed
deriving Repr, DecidableEq

/-- `state >= STATE_CLOSING`. -/
def TransportState.isClosing : TransportState → Bool
  | created | ready => false
  | closing | stopped | failed => true

inductive PendingProtocolTransition where
  | receive (returnCredit : Bool)
  | send
  | controlSend (credits : Nat)
  | helloSend
  | helloReceiveRepost (peerCapacity : Nat)
deriving Repr, DecidableEq

structure CompletedRecv where
  mr : Mr
  byteLen : Nat
deriving Repr, DecidableEq

inductive EngineMessageEvent where
  | start
  | repost (mr : Mr)
  | sendRequest (request : Nat)
deriving Repr, DecidableEq

/-- A send request; `cancelled` also stands for its `io_cancellation`. -/
structure EngineSendRequest where
  mr : Option Mr
  credit : Bool
  frameLen : Nat
  output : Option (Except Error Unit)
  cancelled : Bool
  creditCommitted : Bool
deriving Repr, DecidableEq

structure RegisteredMrPool where
  closed : Bool
  entries : List Mr
deriving Repr, DecidableEq

def RegisteredMrPool.put (pool : RegisteredMrPool) (mr : Mr) : RegisteredMrPool :=
  if pool.closed then pool else { pool with entries := mr :: pool.entries }

structure EngineMessageState where
  state : TransportState
  error : Option Error
  remoteCredits : Nat
  remoteCreditsClosed : Bool
  peerRecvCapacity : Nat
  creditsInFlight : Nat
  localRecvCapacity : Nat
  bufferSize : Nat
  dataSends : RegisteredMrPool
  controlSends : RegisteredMrPool
  helloSend : Option Mr
  helloSendPosted : Bool
  helloSendComplete : Bool
  helloReceiveComplete : Bool
  events : List EngineMessageEvent
  received : List CompletedRecv
  pendingCreditReturns : Nat
  /-- Transitions waiting for a receipt, each with its command. -/
  pendingProtocolTransitions : List (Nat × PendingProtocolTransition)
  localCloseStarted : Bool
  requests : List EngineSendRequest
  admissionOpen : Bool
  admissionPending : List ProtocolCommand
  port : IoEventPort
  /-- `request_close` has reached the engine. -/
  closeRequested : Bool
  nextCommand : Nat
  /-- The command a receipt was applied for, and the command of the receipt. -/
  applied : List (Nat × Nat)
deriving Repr, DecidableEq

/-- `Semaphore::MAX_PERMITS` on a 64-bit target. -/
def maxPermits : Nat := (2 ^ 64 - 1) / 8

def checkCreditReturn (credits inFlight available capacity : Nat) :
    Except Error Unit :=
  if credits = 0 then
    .error (.protocolViolation "CREDIT frame with zero credits")
  else if credits > inFlight then
    .error (.protocolViolation
      s!"CREDIT exceeds in-flight sends: returned={credits} > in_flight={inFlight}")
  else if available + credits > capacity then
    .error (.protocolViolation ("CREDIT would exceed negotiated capacity: " ++
        s!"available={available} + returned={credits} > capacity={capacity}"))
  else .ok ()

def validatePeerHello (hello : HelloPayload) (localBufferSize : Nat) :
    Except Error Nat :=
  let peerCapacity := hello.dataRecvCapacity
  let peerMax := hello.maxMessageSize
  if peerCapacity = 0 then
    .error (.protocolViolation "peer data_recv_capacity is 0")
  else if peerCapacity > maxPermits then
    .error (.protocolViolation
      s!"peer data_recv_capacity {peerCapacity} exceeds maximum ({maxPermits})")
  else if peerMax < localBufferSize then
    .error (.protocolViolation
      s!"peer max_message_size {peerMax} < local buffer_size {localBufferSize}")
  else .ok peerCapacity

/-- Ordinary flush teardown is reported as a closed transport. -/
def normalizeCompletionError : Error → Error
  | .completionError status vendorErr =>
    if status = wcWrFlushErr then .transportClosed
    else .completionError status vendorErr
  | error => error

inductive EngineSendRequestAction where
  | post (mr : Mr) (credit : Bool) (frameLen : Nat)
  | cancelled (mr : Mr) (credit : Bool)
  | alreadyHandled
deriving Repr, DecidableEq

namespace EngineMessageState

variable (s : EngineMessageState)

/-- Size of a receive or data-send region. -/
def mrSize : Nat :=
  headerSize + s.bufferSize

def new (recvCount bufferSize : Nat) (dataSends controlSends : List Mr)
    (helloSend : Mr) : EngineMessageState where
  state := .created
  error := none
  remoteCredits := 0
  remoteCreditsClosed := false
  peerRecvCapacity := 0
  creditsInFlight := 0
  localRecvCapacity := recvCount
  bufferSize := bufferSize
  dataSends := { closed := false, entries := dataSends }
  controlSends := { closed := false, entries := controlSends }
  helloSend := some helloSend
  helloSendPosted := false
  helloSendComplete := false
  helloReceiveComplete := false
  -- `attach` queues the start event
  events := [.start]
  received := []
  pendingCreditReturns := 0
  pendingProtocolTransitions := []
  localCloseStarted := false
  requests := []
  admissionOpen := true
  admissionPending := []
  port := { isOpen := true, events := [] }
  closeRequested := false
  nextCommand := 0
  applied := []

def terminalError : Error :=
  s.error.getD .transportClosed

variable (request : Nat)

def updateRequest (f : EngineSendRequest → EngineSendRequest) : EngineMessageState :=
  { s with requests := s.requests.modify request f }

/-- `EngineSendRequest::complete`: the first output stays. -/
def completeRequest (result : Except Error Unit) : EngineMessageState :=
  s.updateRequest request fun r =>
    { r with output := r.output.or (some result) }

/-- `EngineSendRequest::start` takes the region and the credit. -/
def startRequest : EngineMessageState × EngineSendRequestAction :=
  match s.requests[request]? with
  | none => (s, .alreadyHandled)
  | some r =>
    match r.mr with
    | none => (s, .alreadyHandled)
    | some mr =>
      (s.updateRequest request fun r => { r with mr := none, credit := false },
        if r.cancelled then .cancelled mr r.credit
        else .post mr r.credit r.frameLen)

/-- Dropping an owned permit gives it back. -/
def dropCredit (credit : Bool) : EngineMessageState :=
  if credit then { s with remoteCredits := s.remoteCredits + 1 } else s

def rollbackUnacceptedSend : EngineMessageState :=
  match s.requests[request]? with
  | none => s
  | some r =>
    if r.creditCommitted then
      let s := s.updateRequest request fun r => { r with creditCommitted := false }
      if s.creditsInFlight = 0 then s
      else
        { s with
          creditsInFlight := s.creditsInFlight - 1
          remoteCredits := s.remoteCredits + 1 }
    else s

def closePools : EngineMessageState :=
  { s with
    dataSends := { closed := true, entries := [] }
    controlSends := { closed := true, entries := [] }
    helloSend := none }

def disposeTerminalEvent : EngineMessageEvent → EngineMessageState
  | .start => s
  | .repost _ => s
  | .sendRequest request =>
    match s.startRequest request with
    | (s, .post _ credit _) | (s, .cancelled _ credit) =>
      (s.dropCredit credit).completeRequest request (.error s.terminalError)
    | (s, .alreadyHandled) => s

def disposeIoEvent : IoEvent → EngineMessageState
  | .submission _ _ =>
    { s with pendingProtocolTransitions := s.pendingProtocolTransitions.tail }
  | .terminal _ => s
  | .completion event =>
    match event.context with
    | .send request =>
      let s :=
        if event.provenUnaccepted then s.rollbackUnacceptedSend request else s
      s.completeRequest request (.error s.terminalError)
    | .helloSend | .receive | .controlSend => s

def discardPendingProtocol : EngineMessageState :=
  { s with admissionOpen := false, admissionPending := [] }

/-- Dispose of the queued events and of the commands not yet admitted. -/
def disposeEvents : EngineMessageState :=
  (s.events.foldl disposeTerminalEvent { s with events := [] } ).discardPendingProtocol

/-- `drain_terminal_events(true)`: the port closes and its events are disposed. -/
def drainClosing : EngineMessageState :=
  let s := s.disposeEvents
  s.port.events.foldl disposeIoEvent { s with port := { isOpen := false, events := [] } }

/-- `enter_failed`, unless a terminal state was reached before. -/
def enterFailed (error : Error) : EngineMessageState :=
  { s with
    state := .failed
    error := s.error.or (some error)
    remoteCreditsClosed := true
    pendingCreditReturns := 0 }.closePools.drainClosing

def fail (error : Error) (closeConnection : Bool) : EngineMessageState :=
  match s.state with
  | .stopped | .failed => s
  | .created | .ready | .closing =>
    let s := s.enterFailed error
    { s with closeRequested := s.closeRequested || closeConnection }

def finishClose (result : Except Error Unit) : EngineMessageState :=
  match result with
  | .error error => s.fail error false
  | .ok () =>
    let state :=
      match s.state with
      | .stopped | .failed => s.state
      | .created | .ready | .closing => .stopped
    { s with state }.closePools.drainClosing

/-- `try_mark_ready`. -/
def tryMarkReady : EngineMessageState :=
  if s.helloSendComplete && s.helloReceiveComplete && s.state == .created then
    { s with state := .ready }
  else s

/-- A command that the provider may have accepted fails the transport with its
error. -/
def failPotential (disposition : IoSubmissionDisposition) : EngineMessageState :=
  match disposition.potentiallyAccepted, disposition.error with
  | true, some error => s.fail error true
  | _, _ => s

/-- Apply the outcome of a command to the transition recorded for it. -/
def applyProtocolDisposition (transition : PendingProtocolTransition)
    (disposition : IoSubmissionDisposition) : EngineMessageState :=
  match transition with
  | .receive returnCredit =>
    if disposition.isAllAccepted && returnCredit then
      { s with pendingCreditReturns := s.pendingCreditReturns + 1 }
    else s.failPotential disposition
  | .send | .helloSend =>
    if disposition.isAllAccepted then s else s.failPotential disposition
  | .controlSend credits =>
    if disposition.isAllAccepted then s
    else if disposition.potentiallyAccepted then s.failPotential disposition
    else if s.state = .ready then
      { s with pendingCreditReturns := s.pendingCreditReturns + credits }
    else s
  | .helloReceiveRepost peerCapacity =>
    if disposition.isAllAccepted then
      { s with
        peerRecvCapacity := peerCapacity
        remoteCredits := s.remoteCredits + peerCapacity
        helloReceiveComplete := true }.tryMarkReady
    else s.failPotential disposition

/-- `IoConnection::submit_protocol`: admitted, or rejected on the spot. -/
def submitProtocol (batch : ProtocolBatch) (refusal : Option Error) :
    EngineMessageState × Nat × IoSubmissionDisposition :=
  let command : ProtocolCommand := { id := s.nextCommand, batch }
  let s := { s with nextCommand := s.nextCommand + 1 }
  let reject (error : Error) :=
    ({ s with port := s.port.send [command.unaccepted error] }, command.id,
      IoSubmissionDisposition.fullyUnaccepted 1 error)
  if s.admissionOpen then
    match refusal with
    | some error => reject error
    | none =>
      ({ s with admissionPending := s.admissionPending ++ [command] }, command.id, .pending 1)
  else reject .transportClosed

def trackProtocolDisposition (command : Nat) (transition : PendingProtocolTransition)
    (disposition : IoSubmissionDisposition) : EngineMessageState :=
  match disposition with
  | .pending _ =>
    { s with
      pendingProtocolTransitions :=
        s.pendingProtocolTransitions ++ [(command, transition)] }
  | disposition => s.applyProtocolDisposition transition disposition

/-- Submit a command and record the transition that waits for its receipt. -/
def submitTracked (batch : ProtocolBatch)
    (transition : PendingProtocolTransition) (refusal : Option Error) :
    EngineMessageState :=
  let (s, command, disposition) := s.submitProtocol batch refusal
  s.trackProtocolDisposition command transition disposition

def postReceive (mr : Mr) (returnCredit : Bool) (refusal : Option Error) : EngineMessageState :=
  s.submitTracked (.recv mr) (.receive returnCredit) refusal

def validateAndAddCredits (credits : Nat) : Except Error EngineMessageState := do
  checkCreditReturn credits s.creditsInFlight s.remoteCredits s.peerRecvCapacity
  return { s with
    creditsInFlight := s.creditsInFlight - credits
    remoteCredits := s.remoteCredits + credits }

theorem checkCreditReturn_eq_ok {credits inFlight available capacity : Nat} {u : Unit}
    (h : checkCreditReturn credits inFlight available capacity = .ok u) :
    0 < credits ∧ credits ≤ inFlight ∧ available + credits ≤ capacity := by
  unfold checkCreditReturn at h
  split at h
  · cases h
  split at h
  · cases h
  split at h
  · cases h
  next hzero hspent hcapacity =>
    exact ⟨Nat.pos_of_ne_zero hzero, not_lt.mp hspent, not_lt.mp hcapacity⟩

theorem validateAndAddCredits_eq_ok {s s' : EngineMessageState} {credits : Nat}
    (h : s.validateAndAddCredits credits = .ok s') : 0 < credits ∧ credits ≤ s.creditsInFlight ∧
      s.remoteCredits + credits ≤ s.peerRecvCapacity ∧
      s' = { s with
        creditsInFlight := s.creditsInFlight - credits
        remoteCredits := s.remoteCredits + credits } := by
  unfold validateAndAddCredits at h
  cases hcheck : checkCreditReturn credits s.creditsInFlight s.remoteCredits s.peerRecvCapacity with
  | error => simp [hcheck, bind, Except.bind] at h
  | ok =>
    obtain ⟨hpos, hspent, hcapacity⟩ := checkCreditReturn_eq_ok hcheck
    simp only [hcheck, bind, Except.bind, pure, Except.pure, Except.ok.injEq] at h
    exact ⟨hpos, hspent, hcapacity, h.symm⟩

/-- `parse_hello_receive`: the receive capacity that the peer announces. -/
def parseHelloReceive (receivedLen : Nat) (mr : Mr) : Except Error Nat :=
  if receivedLen > s.mrSize then
    .error (.protocolViolation s!"HELLO receive length {receivedLen} exceeds MR length {s.mrSize}")
  else do
    let header ← parseHeader mr.content receivedLen
    if header.frameType ≠ frameHello then
      .error (.protocolViolation s!"expected HELLO, got frame_type={header.frameType}")
    else
      let hello ← parseHello (payloadOf mr.content header)
      validatePeerHello hello s.bufferSize

theorem parseHelloReceive_eq_ok {s : EngineMessageState} {len capacity : Nat} {mr : Mr}
    (h : s.parseHelloReceive len mr = .ok capacity) :
    ∃ header hello, parseHeader mr.content len = .ok header ∧
      header.frameType = frameHello ∧
      parseHello (payloadOf mr.content header) = .ok hello ∧
      capacity = hello.dataRecvCapacity := by
  unfold parseHelloReceive at h
  split at h
  · cases h
  cases hheader : parseHeader mr.content len with
  | error => simp [hheader, bind, Except.bind] at h
  | ok header =>
    by_cases htype : header.frameType = frameHello
    · cases hhello : parseHello (payloadOf mr.content header) with
      | error => simp [hheader, htype, hhello, bind, Except.bind] at h
      | ok hello =>
        refine ⟨header, hello, rfl, htype, hhello, ?_⟩
        simp only [hheader, htype, hhello, bind, Except.bind, ne_eq, not_true_eq_false,
          if_false, validatePeerHello] at h
        split_ifs at h
        exact (Except.ok.inj h).symm
    · simp [hheader, htype, bind, Except.bind] at h

def processHelloReceive (result : Except Error Nat)
    (mr : Option Mr) (refusal : Option Error) : EngineMessageState :=
  match result, mr with
  | .error error, _ => s.fail (normalizeCompletionError error) true
  | .ok _, none => s.fail .driverShutdown true
  | .ok receivedLen, some mr =>
    match s.parseHelloReceive receivedLen mr with
    | .error error => s.fail error true
    | .ok peerCapacity =>
      if s.helloReceiveComplete then
        s.fail (.protocolViolation "duplicate HELLO during negotiation") true
      else
        s.submitTracked (.recv mr) (.helloReceiveRepost peerCapacity) refusal

/-- A frame received in the ready state. -/
def processFrame (receivedLen : Nat) (mr : Mr) (refusal : Option Error) : EngineMessageState :=
  if receivedLen > s.mrSize then
    s.fail (.protocolViolation s!"receive length {receivedLen} exceeds MR length {s.mrSize}") true
  else
    match parseHeader mr.content receivedLen with
    | .error error => s.fail error true
    | .ok header =>
      if header.frameType = frameData then
        if header.payloadLen > s.bufferSize then
          s.fail (.protocolViolation
            (s!"DATA payload {header.payloadLen} exceeds negotiated maximum " ++
              s!"{s.bufferSize}")) true
        else
          { s with
            received := s.received ++ [{ mr, byteLen := header.payloadLen }] }
      else if header.frameType = frameCredit then
        match parseCredit (payloadOf mr.content header) with
        | .error error => s.fail error true
        | .ok credits =>
          match s.validateAndAddCredits credits with
          | .error error => s.fail error true
          | .ok s => s.postReceive mr false refusal
      else
        s.fail (.protocolViolation "unexpected HELLO frame during steady-state operation") true

def processReceive (result : Except Error Nat)
    (mr : Option Mr) (refusal : Option Error) : EngineMessageState :=
  match s.state with
  | .created => s.processHelloReceive result mr refusal
  | .ready =>
    match result, mr with
    | .error error, _ => s.fail (normalizeCompletionError error) true
    | .ok _, none => s.fail .driverShutdown true
    | .ok receivedLen, some mr => s.processFrame receivedLen mr refusal
  | .closing | .stopped | .failed => s

def putDataSend (mr : Option Mr) : EngineMessageState :=
  match mr with
  | some mr => { s with dataSends := s.dataSends.put mr }
  | none => s

def processSendCompletion (event : IoCompletionEvent) : EngineMessageState :=
  let s :=
    if event.provenUnaccepted then s.rollbackUnacceptedSend request else s
  let s := s.putDataSend event.mr
  match event.result with
  | .ok _ => s.completeRequest request (.ok ())
  | .error error =>
    let error := normalizeCompletionError error
    let s := s.completeRequest request (.error error)
    if s.state = .ready ∧ error ≠ .capacityExhausted then s.fail error true
    else s

def processIoCompletion (event : IoCompletionEvent) (refusal : Option Error) : EngineMessageState :=
  match event.context with
  | .helloSend =>
    match event.result with
    | .ok _ =>
      if event.provenUnaccepted then
        s.fail (.invalidConfig "proven-unaccepted HELLO completion reported success") true
      else { s with helloSendComplete := true }.tryMarkReady
    | .error error => s.fail (normalizeCompletionError error) true
  | .receive => s.processReceive event.result event.mr refusal
  | .send request =>
    if event.cancelledBeforeSubmit then
      let s :=
        if event.provenUnaccepted then s.rollbackUnacceptedSend request else s
      (s.putDataSend event.mr).completeRequest request (.error .driverShutdown)
    else s.processSendCompletion request event
  | .controlSend =>
    match event.mr with
    | none => s.fail .driverShutdown true
    | some mr =>
      let s := { s with controlSends := s.controlSends.put mr }
      match event.result with
      | .ok _ => s
      | .error error =>
        if s.state = .ready then s.fail (normalizeCompletionError error) true
        else s

def processIoEvent (event : IoEvent) (refusal : Option Error) : EngineMessageState :=
  match event with
  | .submission command disposition =>
    match s.pendingProtocolTransitions with
    | [] =>
      s.fail (.invalidConfig "protocol submission receipt has no pending transition") true
    | (recorded, transition) :: rest =>
      { s with
        pendingProtocolTransitions := rest
        applied := s.applied ++ [(recorded, command)]
        }.applyProtocolDisposition transition disposition
  | .terminal .disconnected => s.fail .transportClosed true
  | .terminal (.terminal error) => s.fail error false
  | .terminal (.closed result) => s.finishClose result
  | .completion event =>
    if s.state.isClosing then s.disposeIoEvent (.completion event)
    else s.processIoCompletion event refusal

/-- `begin_close` up to the draining of the port. -/
def enterClosing : EngineMessageState :=
  let locallyInitiated := !s.state.isClosing
  { s with
    state := if locallyInitiated then .closing else s.state
    localCloseStarted := s.localCloseStarted || locallyInitiated
    remoteCreditsClosed := true
    pendingCreditReturns := 0 }.closePools.disposeEvents

/-- `begin_close`; the events of the port are processed in the closing state. -/
def beginClose : EngineMessageState :=
  let closing := s.enterClosing
  let drained :=
    closing.port.events.foldl (fun (s : EngineMessageState) event => s.processIoEvent event none)
      { closing with port := { closing.port with events := [] } }
  { drained with closeRequested := drained.closeRequested || !s.state.isClosing }

def processRepost (mr : Mr) (refusal : Option Error) : EngineMessageState :=
  if s.state = .ready then s.postReceive mr true refusal else s

variable (refusal : Option Error)

def processSendRequest : EngineMessageState :=
  match s.startRequest request with
  | (s, .cancelled mr credit) => (s.dropCredit credit).putDataSend (some mr)
  | (s, .alreadyHandled) => s
  | (s, .post mr credit frameLen) =>
    if s.state = .ready then
      let s :=
        if credit then
          { s with creditsInFlight := s.creditsInFlight + 1 }.updateRequest request
            fun r => { r with creditCommitted := true }
        else s
      s.submitTracked (.send mr frameLen (.send request)) .send refusal
    else
      ((s.dropCredit credit).putDataSend (some mr)).completeRequest request (.error s.terminalError)

def startHelloSend : EngineMessageState :=
  if s.state ≠ .created ∨ s.helloSendPosted then s
  else
    let s := { s with helloSendPosted := true }
    match s.helloSend with
    | none => s.fail (.invalidConfig "HELLO send buffer is unavailable") true
    | some mr =>
      let frame := writeHelloFrame s.localRecvCapacity s.bufferSize
      { s with helloSend := none }.submitTracked
        (.send { mr with content := frame } frame.length .helloSend) .helloSend refusal

def processEvent (event : EngineMessageEvent) (refusal : Option Error) : EngineMessageState :=
  match event with
  | .start => s.startHelloSend refusal
  | .repost mr => s.processRepost mr refusal
  | .sendRequest request => s.processSendRequest request refusal

/-- `claim_pending_credit_returns`. -/
def claimPendingCreditReturns (pending : Nat) : Nat :=
  min pending (2 ^ 32 - 1)

/-- `flush_one_credit`: `none` if there is nothing to flush or no buffer. -/
def flushOneCredit : Option EngineMessageState :=
  if s.pendingCreditReturns = 0 ∨ s.state ≠ .ready then none
  else
    match s.controlSends.entries with
    | [] => none
    | mr :: entries =>
      let credits := claimPendingCreditReturns s.pendingCreditReturns
      let frame := writeCreditFrame credits
      some ({ s with
        controlSends := { s.controlSends with entries }
        pendingCreditReturns := s.pendingCreditReturns - credits }.submitTracked
          (.send { mr with content := frame } frame.length .controlSend)
          (.controlSend credits) refusal)

/-- `deadline_expired`. -/
def deadlineExpired : EngineMessageState :=
  if s.state = .created then
    s.fail (.protocolViolation "HELLO handshake timeout") true
  else s

/-- `queue_event`: a closing transport disposes of the event at once. -/
def queueEvent (event : EngineMessageEvent) : EngineMessageState :=
  if s.state.isClosing then s.disposeTerminalEvent event
  else { s with events := s.events ++ [event] }

/-- The command's owner no longer listens. -/
def receiverLost : Bool :=
  !s.admissionOpen || !s.port.isOpen

def isCancelled (command : ProtocolCommand) : Bool :=
  match command.batch with
  | .send _ _ (.send request) => (s.requests[request]?).any (·.cancelled)
  | _ => false

/-- The state without the bookkeeping of sends. -/
def withoutSends : EngineMessageState :=
  { s with
    requests := []
    remoteCredits := 0
    creditsInFlight := 0
    dataSends := { closed := false, entries := [] } }

section WithoutSends

variable (s : EngineMessageState) (request : Nat)

@[simp] theorem withoutSends_updateRequest (f : EngineSendRequest → EngineSendRequest) :
    (s.updateRequest request f).withoutSends = s.withoutSends := rfl

@[simp] theorem withoutSends_completeRequest (result : Except Error Unit) :
    (s.completeRequest request result).withoutSends = s.withoutSends := rfl

@[simp] theorem withoutSends_dropCredit (credit : Bool) :
    (s.dropCredit credit).withoutSends = s.withoutSends := by
  cases credit <;> rfl

@[simp] theorem withoutSends_putDataSend (mr : Option Mr) :
    (s.putDataSend mr).withoutSends = s.withoutSends := by
  cases mr <;> rfl

@[simp] theorem withoutSends_rollbackUnacceptedSend :
    (s.rollbackUnacceptedSend request).withoutSends = s.withoutSends := by
  unfold rollbackUnacceptedSend
  split
  · rfl
  · split
    · simp only
      split <;> rfl
    · rfl

@[simp] theorem withoutSends_startRequest : (s.startRequest request).1.withoutSends = s.withoutSends := by
  unfold startRequest
  split
  · rfl
  · split <;> rfl

@[simp] theorem withoutSends_disposeTerminalEvent (event : EngineMessageEvent) :
    (s.disposeTerminalEvent event).withoutSends = s.withoutSends := by
  cases event with
  | start => rfl
  | repost => rfl
  | sendRequest request =>
    have hstart := s.withoutSends_startRequest request
    simp only [disposeTerminalEvent]
    rcases hs : s.startRequest request with ⟨s', action⟩
    rw [hs] at hstart
    cases action <;> simpa using hstart

theorem withoutSends_foldl_disposeTerminalEvent (events : List EngineMessageEvent) :
    (events.foldl disposeTerminalEvent s).withoutSends = s.withoutSends := by
  induction events generalizing s with
  | nil => rfl
  | cons _ _ ih =>
    rw [List.foldl_cons, ih, withoutSends_disposeTerminalEvent]

@[simp] theorem withoutSends_disposeIoEvent (event : IoCompletionEvent) :
    (s.disposeIoEvent (.completion event)).withoutSends = s.withoutSends := by
  simp only [disposeIoEvent]
  cases event.context with
  | send => cases event.provenUnaccepted <;> simp
  | helloSend | receive | controlSend => rfl

end WithoutSends

end EngineMessageState

end RdmaIo.Message
