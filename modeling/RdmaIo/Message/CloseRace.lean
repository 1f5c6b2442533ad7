/-
The message transport at the granularity of its locks and atomics.

Every call of the application, of the driver and of the engine is cut into the
atomic operations it makes, in the order of the source, and calls interleave at
every operation.  The mutex of the event queue and that of the error are modelled
where they are held over more than one operation; atomics are sequentially
consistent.  A weak compare-exchange that fails spuriously repeats itself and is
left out.
-/
import RdmaIo.Lib.Threads
import RdmaIo.Message.Node

namespace RdmaIo.Message

/-- FAILED and STOPPED. -/
def TransportState.isTerminal : TransportState → Bool
  | created | ready | closing => false
  | stopped | failed => true

/-- What became of an event that was queued. -/
inductive EventFate where
  | processed
  | disposed
deriving Repr, DecidableEq

/-- The operations of `queue_event`, `dispose_terminal_event`, `dispose_io_event` and
`drain_terminal_events`.  An event that was in the queue carries its number in the
order of arrival. -/
inductive DrainOp where
  | queueEvent (event : EngineMessageEvent)
  | pushEvent (event : EngineMessageEvent)
  | skipEvent (event : EngineMessageEvent)
  | disposeTerminalEvent (ticket : Option Nat) (event : EngineMessageEvent)
  | disposeIoEvent (event : IoEvent)
  | dropCredit (credit : Bool)
  | completeTerminal (request : Nat)
  | complete (request : Nat) (result : Except Error Unit)
  | rollback (request : Nat)
  | uncountSend
  | takeEvents (closeIo : Bool)
  | closeAdmission
  | discardAdmission
  | drainPort (closeIo : Bool)
deriving Repr, DecidableEq

/-- The operations of `fail`, `begin_close` and `finish_close`. -/
inductive CloseOp where
  | enterFailed (error : Error) (closeConnection : Bool)
  | casFailed (current : TransportState) (error : Error) (closeConnection : Bool)
  | storeError (error : Error)
  | closeCredits
  | resetReturns
  | closeDataSends
  | closeControlSends
  | dropHelloSend
  | requestClose
  | closeCreated
  | closeReady (created : Bool)
  | markLocalClose
  | finishClose (result : Except Error Unit)
  | casStopped (current : TransportState)
deriving Repr, DecidableEq

/-- The operations of `process_event` and of the submissions it makes. -/
inductive ProcessOp where
  | processEvent (ticket : Nat) (event : EngineMessageEvent)
  | markHelloPosted
  | takeHelloSend
  | postSend (request : Nat) (mr : Mr) (credit : Bool) (frameLen : Nat)
  | countSend
  | commitSend (request : Nat)
  | submit (batch : ProtocolBatch) (transition : PendingProtocolTransition)
  | deliver (event : IoEvent)
  | pushTransition (command : Nat) (transition : PendingProtocolTransition)
  | applyDisposition (transition : PendingProtocolTransition)
      (disposition : IoSubmissionDisposition)
  | addReturns (credits : Nat)
  | storeCapacity (capacity : Nat)
  | addPermits (credits : Nat)
  | markHelloReceived
  | tryMarkReady
  | casReady
deriving Repr, DecidableEq

/-- The operations of `process_io_event`. -/
inductive IoOp where
  | processIoEvent (event : IoEvent)
  | processIoCompletion (event : IoCompletionEvent)
  | markHelloSent
  | putDataSend (mr : Option Mr)
  | putControlSend (mr : Mr)
  | failReady (error : Error)
  | processReceive (result : Except Error Nat) (mr : Option Mr)
  | acceptHello (mr : Mr) (peerCapacity : Nat)
  | deliverMessage (message : CompletedRecv)
  | checkCredits (credits : Nat) (mr : Mr)
  | returnCredits (credits : Nat) (mr : Mr)
deriving Repr, DecidableEq

/-- The operations of the driver loop, and those of `send` before its request is
queued. -/
inductive DriveOp where
  | popEvent
  | popIo
  | pollAdmission (permit : PermitPoll)
  | pollPermit (command : ProtocolCommand) (permit : PermitPoll)
  | pushAdmission (command : ProtocolCommand)
  | enqueueProtocol (command : ProtocolCommand)
  | flushOneCredit
  | flushReady
  | takeControlSend
  | claimReturns (mr : Mr)
  | deadlineExpired
  | acquireCredit (data : List UInt8)
  | takeDataSend (data : List UInt8)
deriving Repr, DecidableEq

inductive RaceOp where
  | drain (op : DrainOp)
  | close (op : CloseOp)
  | process (op : ProcessOp)
  | io (op : IoOp)
  | drive (op : DriveOp)
deriving Repr, DecidableEq

instance : Coe DrainOp RaceOp := ⟨.drain⟩
instance : Coe CloseOp RaceOp := ⟨.close⟩
instance : Coe ProcessOp RaceOp := ⟨.process⟩
instance : Coe IoOp RaceOp := ⟨.io⟩
instance : Coe DriveOp RaceOp := ⟨.drive⟩

/-- The transport as the calls share it.  The last seven fields are journals that
no operation reads: the events accepted by the queue, how many of them left it,
what became of those, the requests whose buffer and credit were taken, those whose
event was disposed of, the requests that were completed, and the credits that the
peer's HELLO granted. -/
structure RaceShared where
  msg : EngineMessageState
  eventsLocked : Bool
  errorLocked : Bool
  /-- Commands that the reactor or the queue pair holds. -/
  engine : List ProtocolCommand
  held : List CompletedRecv
  accepted : List EngineMessageEvent
  removed : Nat
  fates : List (Nat × EventFate)
  started : List Nat
  disposed : List Nat
  completed : List Nat
  granted : Nat
deriving Repr, DecidableEq

namespace RaceOp

open DrainOp CloseOp ProcessOp

/-- Operations that the call makes if the condition holds. -/
def provided (b : Bool) (ops : List RaceOp) : List RaceOp :=
  if b then ops else []

/-- One after another. -/
def chain (parts : List (List RaceOp)) : List RaceOp :=
  parts.flatten

/-- `close_pools`. -/
def closePools : List RaceOp :=
  [closeDataSends, closeControlSends, dropHelloSend]

/-- What follows the transition to FAILED. -/
def failing (error : Error) (closeConnection : Bool) : List RaceOp :=
  chain [[storeError error, closeCredits, resetReturns], closePools, [takeEvents true],
    provided closeConnection [requestClose]]

/-- What follows the two exchanges of `begin_close`. -/
def closing (locallyInitiated : Bool) : List RaceOp :=
  chain [provided locallyInitiated [markLocalClose], [closeCredits, resetReturns],
    closePools, [takeEvents false], provided locallyInitiated [requestClose]]

/-- What `finish_close` ends with. -/
def stopping : List RaceOp :=
  chain [closePools, [takeEvents true]]

def failPotential (disposition : IoSubmissionDisposition) : List RaceOp :=
  match disposition.potentiallyAccepted, disposition.error with
  | true, some error => [enterFailed error true]
  | _, _ => []

/-- The delivery of several events, one after another. -/
def deliverAll (events : List IoEvent) : List RaceOp :=
  events.map fun event => deliver event

/-- Events taken from the queue are disposed of; `first` is the number of the
oldest. -/
def disposeAll (first : Nat) : List EngineMessageEvent → List RaceOp
  | [] => []
  | event :: events =>
    disposeTerminalEvent (some first) event :: disposeAll (first + 1) events

end RaceOp

namespace RaceShared

open RaceOp DrainOp CloseOp ProcessOp IoOp DriveOp

variable (s : RaceShared)

def setMsg (msg : EngineMessageState) : RaceShared :=
  { s with msg }

/-- The call goes on with `more`, and the shared state stays. -/
def proceed (more : List RaceOp) : Option (RaceShared × List RaceOp) :=
  some (s, more)

/-- The transport changes and the call goes on with `more`. -/
def update (msg : EngineMessageState) (more : List RaceOp) : Option (RaceShared × List RaceOp) :=
  some (s.setMsg msg, more)

/-- `request.start()`, journalled if it takes the buffer. -/
def start (request : Nat) : RaceShared × EngineSendRequestAction :=
  match s.msg.startRequest request with
  | (msg, .alreadyHandled) => (s.setMsg msg, .alreadyHandled)
  | (msg, action) => ({ s.setMsg msg with started := s.started ++ [request] }, action)

def recordFate (ticket : Option Nat) (fate : EventFate) : RaceShared :=
  { s with fates := s.fates ++ (ticket.map fun t => (t, fate)).toList }

/-- `queue_event`, `dispose_terminal_event`, `dispose_io_event` and
`drain_terminal_events`. -/
def execDrain : DrainOp → Option (RaceShared × List RaceOp)
  | queueEvent event =>
    if s.eventsLocked then none
    else
      { s with eventsLocked := true }.proceed
        [if s.msg.state.isClosing then skipEvent event else pushEvent event]
  | pushEvent event =>
    { s with
      eventsLocked := false
      accepted := s.accepted ++ [event] }.update
      { s.msg with events := s.msg.events ++ [event] } []
  | skipEvent event =>
    { s with eventsLocked := false }.proceed [disposeTerminalEvent none event]
  | disposeTerminalEvent ticket event =>
    let s := s.recordFate ticket .disposed
    match event with
    | .start | .repost _ => s.proceed []
    | .sendRequest request =>
      match s.start request with
      | (s, .post _ credit _) | (s, .cancelled _ credit) =>
        { s with disposed := s.disposed ++ [request] }.proceed
          [dropCredit credit, completeTerminal request]
      | (s, .alreadyHandled) => s.proceed []
  | disposeIoEvent event =>
    match event with
    | .submission _ _ =>
      s.update
        { s.msg with
          pendingProtocolTransitions := s.msg.pendingProtocolTransitions.tail } []
    | .terminal _ => s.proceed []
    | .completion c =>
      match c.context with
      | .send request =>
        s.proceed (chain [provided c.provenUnaccepted [rollback request],
            [completeTerminal request]])
      | .helloSend | .receive | .controlSend => s.proceed []
  | dropCredit credit => s.update (s.msg.dropCredit credit) []
  | completeTerminal request =>
    if s.errorLocked then none
    else s.proceed [complete request (.error s.msg.terminalError)]
  | complete request result =>
    { s with completed := s.completed ++ [request] }.update
      (s.msg.completeRequest request result) []
  | rollback request =>
    match s.msg.requests[request]? with
    | none => s.proceed []
    | some q =>
      if q.creditCommitted then
        s.update (s.msg.updateRequest request fun q =>
          { q with creditCommitted := false }) [uncountSend]
      else s.proceed []
  | uncountSend =>
    if s.msg.creditsInFlight = 0 then s.proceed []
    else
      s.update { s.msg with creditsInFlight := s.msg.creditsInFlight - 1 } [addPermits 1]
  | takeEvents closeIo =>
    if s.eventsLocked then none
    else
      { s with removed := s.removed + s.msg.events.length }.update { s.msg with events := [] }
        (chain [disposeAll s.removed s.msg.events,
          [closeAdmission, discardAdmission, drainPort closeIo]])
  | closeAdmission => s.update { s.msg with admissionOpen := false } []
  | discardAdmission => s.update { s.msg with admissionPending := [] } []
  | drainPort closeIo =>
    if closeIo then
      s.update { s.msg with port := { isOpen := false, events := [] } }
        (s.msg.port.events.map fun event => disposeIoEvent event)
    else
      s.update { s.msg with port := { s.msg.port with events := [] } }
        (s.msg.port.events.map fun event => processIoEvent event)

/-- `fail`, `begin_close` and `finish_close`. -/
def execClose : CloseOp → Option (RaceShared × List RaceOp)
  | enterFailed error closeConnection =>
    if s.errorLocked then none
    else if s.msg.state.isTerminal then s.proceed []
    else
      { s with errorLocked := true }.proceed [casFailed s.msg.state error closeConnection]
  | casFailed current error closeConnection =>
    if s.msg.state = current then
      s.update { s.msg with state := .failed } (failing error closeConnection)
    else if s.msg.state.isTerminal then { s with errorLocked := false }.proceed []
    else s.proceed [casFailed s.msg.state error closeConnection]
  | storeError error =>
    { s with errorLocked := false }.update { s.msg with error := s.msg.error.or (some error) } []
  | closeCredits => s.update { s.msg with remoteCreditsClosed := true } []
  | resetReturns => s.update { s.msg with pendingCreditReturns := 0 } []
  | closeDataSends => s.update { s.msg with dataSends := { closed := true, entries := [] } } []
  | closeControlSends =>
    s.update { s.msg with controlSends := { closed := true, entries := [] } } []
  | dropHelloSend => s.update { s.msg with helloSend := none } []
  | requestClose => s.update { s.msg with closeRequested := true } []
  | closeCreated =>
    if s.msg.state = .created then
      s.update { s.msg with state := .closing } [closeReady true]
    else s.proceed [closeReady false]
  | closeReady created =>
    if s.msg.state = .ready then s.update { s.msg with state := .closing } (closing true)
    else s.proceed (closing created)
  | markLocalClose => s.update { s.msg with localCloseStarted := true } []
  | finishClose (.error error) => s.proceed [enterFailed error false]
  | finishClose (.ok _) =>
    if s.msg.state.isTerminal then s.proceed stopping
    else s.proceed [casStopped s.msg.state]
  | casStopped current =>
    if s.msg.state = current then
      s.update { s.msg with state := .stopped } stopping
    else if s.msg.state.isTerminal then s.proceed stopping
    else s.proceed [casStopped s.msg.state]

/-- `process_event` and the submissions it makes. -/
def execProcess (refusal : Option Error) (s : RaceShared) :
    ProcessOp → Option (RaceShared × List RaceOp)
  | processEvent ticket event =>
    let s := s.recordFate (some ticket) .processed
    match event with
    | .start => s.proceed (if s.msg.state = .created then [markHelloPosted] else [])
    | .repost mr =>
      s.proceed (if s.msg.state = .ready then [submit (.recv mr) (.receive true)] else [])
    | .sendRequest request =>
      match s.start request with
      | (s, .cancelled mr credit) => s.proceed [dropCredit credit, putDataSend (some mr)]
      | (s, .alreadyHandled) => s.proceed []
      | (s, .post mr credit frameLen) => s.proceed [postSend request mr credit frameLen]
  | markHelloPosted =>
    if s.msg.helloSendPosted then s.proceed []
    else s.update { s.msg with helloSendPosted := true } [takeHelloSend]
  | takeHelloSend =>
    match s.msg.helloSend with
    | none =>
      s.proceed [enterFailed (.invalidConfig "HELLO send buffer is unavailable") true]
    | some mr =>
      let frame := writeHelloFrame s.msg.localRecvCapacity s.msg.bufferSize
      s.update { s.msg with helloSend := none }
        [submit (.send { mr with content := frame } frame.length .helloSend) .helloSend]
  | postSend request mr credit frameLen =>
    if s.msg.state = .ready then
      s.proceed (chain [provided credit [countSend, commitSend request],
        [submit (.send mr frameLen (.send request)) .send]])
    else s.proceed [dropCredit credit, putDataSend (some mr), completeTerminal request]
  | countSend => s.update { s.msg with creditsInFlight := s.msg.creditsInFlight + 1 } []
  | commitSend request =>
    s.update (s.msg.updateRequest request fun q => { q with creditCommitted := true }) []
  | submit batch transition =>
    let command : ProtocolCommand := { id := s.msg.nextCommand, batch }
    let msg := { s.msg with nextCommand := s.msg.nextCommand + 1 }
    let reject (error : Error) :=
      s.update msg [deliver (command.unaccepted error),
          applyDisposition transition (.fullyUnaccepted 1 error)]
    if msg.admissionOpen then
      match refusal with
      | some error => reject error
      | none =>
        s.update { msg with admissionPending := msg.admissionPending ++ [command] }
          [pushTransition command.id transition]
    else reject .transportClosed
  | deliver event => s.update { s.msg with port := s.msg.port.send [event] } []
  | pushTransition command transition =>
    s.update
      { s.msg with
        pendingProtocolTransitions :=
          s.msg.pendingProtocolTransitions ++ [(command, transition)] } []
  | applyDisposition transition disposition =>
    match transition with
    | .receive returnCredit =>
      s.proceed (if disposition.isAllAccepted && returnCredit then [addReturns 1]
          else failPotential disposition)
    | .send | .helloSend =>
      s.proceed (if disposition.isAllAccepted then [] else failPotential disposition)
    | .controlSend credits =>
      s.proceed (if disposition.isAllAccepted then []
          else if disposition.potentiallyAccepted then failPotential disposition
          else if s.msg.state = .ready then [addReturns credits]
          else [])
    | .helloReceiveRepost peerCapacity =>
      if disposition.isAllAccepted then
        { s with granted := s.granted + peerCapacity }.proceed
          [storeCapacity peerCapacity, addPermits peerCapacity, markHelloReceived,
            tryMarkReady]
      else s.proceed (failPotential disposition)
  | addReturns credits =>
    s.update { s.msg with pendingCreditReturns := s.msg.pendingCreditReturns + credits } []
  | storeCapacity capacity => s.update { s.msg with peerRecvCapacity := capacity } []
  | addPermits credits =>
    s.update { s.msg with remoteCredits := s.msg.remoteCredits + credits } []
  | markHelloReceived => s.update { s.msg with helloReceiveComplete := true } []
  | tryMarkReady =>
    s.proceed (if s.msg.helloSendComplete && s.msg.helloReceiveComplete then [casReady] else [])
  | casReady =>
    if s.msg.state = .created then s.update { s.msg with state := .ready } []
    else s.proceed []

/-- `process_io_event`. -/
def execIo : IoOp → Option (RaceShared × List RaceOp)
  | processIoEvent event =>
    match event with
    | .submission command disposition =>
      match s.msg.pendingProtocolTransitions with
      | [] =>
        s.proceed [enterFailed (.invalidConfig
          "protocol submission receipt has no pending transition") true]
      | (recorded, transition) :: rest =>
        s.update
          { s.msg with
            pendingProtocolTransitions := rest
            applied := s.msg.applied ++ [(recorded, command)] }
          [applyDisposition transition disposition]
    | .terminal .disconnected => s.proceed [enterFailed .transportClosed true]
    | .terminal (.terminal error) => s.proceed [enterFailed error false]
    | .terminal (.closed result) => s.proceed [finishClose result]
    | .completion c =>
      s.proceed [if s.msg.state.isClosing then disposeIoEvent (.completion c)
          else processIoCompletion c]
  | processIoCompletion c =>
    match c.context with
    | .helloSend =>
      match c.result with
      | .ok _ =>
        s.proceed [if c.provenUnaccepted then
            enterFailed (.invalidConfig "proven-unaccepted HELLO completion reported success") true
          else markHelloSent]
      | .error error => s.proceed [enterFailed (normalizeCompletionError error) true]
    | .receive => s.proceed [processReceive c.result c.mr]
    | .send request =>
      let unaccepted := provided c.provenUnaccepted [rollback request]
      if c.cancelledBeforeSubmit then
        s.proceed (chain [unaccepted,
          [putDataSend c.mr, complete request (.error .driverShutdown)]])
      else
        match c.result with
        | .ok _ =>
          s.proceed (chain [unaccepted, [putDataSend c.mr, complete request (.ok ())]])
        | .error error =>
          let error := normalizeCompletionError error
          s.proceed (chain [unaccepted, [putDataSend c.mr, complete request (.error error)],
            provided (error ≠ .capacityExhausted) [failReady error]])
    | .controlSend =>
      match c.mr with
      | none => s.proceed [enterFailed .driverShutdown true]
      | some mr =>
        match c.result with
        | .ok _ => s.proceed [putControlSend mr]
        | .error error =>
          s.proceed [putControlSend mr, failReady (normalizeCompletionError error)]
  | markHelloSent => s.update { s.msg with helloSendComplete := true } [tryMarkReady]
  | putDataSend mr => s.update (s.msg.putDataSend mr) []
  | putControlSend mr =>
    s.update { s.msg with controlSends := s.msg.controlSends.put mr } []
  | failReady error =>
    s.proceed (if s.msg.state = .ready then [enterFailed error true] else [])
  | processReceive result mr =>
    match s.msg.state with
    | .created =>
      match result, mr with
      | .error error, _ => s.proceed [enterFailed (normalizeCompletionError error) true]
      | .ok _, none => s.proceed [enterFailed .driverShutdown true]
      | .ok receivedLen, some mr =>
        match s.msg.parseHelloReceive receivedLen mr with
        | .error error => s.proceed [enterFailed error true]
        | .ok peerCapacity => s.proceed [acceptHello mr peerCapacity]
    | .ready =>
      match result, mr with
      | .error error, _ => s.proceed [enterFailed (normalizeCompletionError error) true]
      | .ok _, none => s.proceed [enterFailed .driverShutdown true]
      | .ok receivedLen, some mr =>
        if receivedLen > s.msg.mrSize then
          s.proceed [enterFailed (.protocolViolation
            s!"receive length {receivedLen} exceeds MR length {s.msg.mrSize}") true]
        else
          match parseHeader mr.content receivedLen with
          | .error error => s.proceed [enterFailed error true]
          | .ok header =>
            if header.frameType = frameData then
              if header.payloadLen > s.msg.bufferSize then
                s.proceed [enterFailed (.protocolViolation
                  (s!"DATA payload {header.payloadLen} exceeds negotiated maximum " ++
                    s!"{s.msg.bufferSize}")) true]
              else s.proceed [deliverMessage { mr, byteLen := header.payloadLen }]
            else if header.frameType = frameCredit then
              match parseCredit (payloadOf mr.content header) with
              | .error error => s.proceed [enterFailed error true]
              | .ok credits => s.proceed [checkCredits credits mr]
            else
              s.proceed [enterFailed (.protocolViolation
                "unexpected HELLO frame during steady-state operation") true]
    | .closing | .stopped | .failed => s.proceed []
  | acceptHello mr peerCapacity =>
    s.proceed [if s.msg.helloReceiveComplete then
        enterFailed (.protocolViolation "duplicate HELLO during negotiation") true
      else submit (.recv mr) (.helloReceiveRepost peerCapacity)]
  | deliverMessage message =>
    s.update { s.msg with received := s.msg.received ++ [message] } []
  | checkCredits credits mr =>
    match checkCreditReturn credits s.msg.creditsInFlight s.msg.remoteCredits
        s.msg.peerRecvCapacity with
    | .error error => s.proceed [enterFailed error true]
    | .ok () => s.proceed [returnCredits credits mr]
  | returnCredits credits mr =>
    if s.msg.creditsInFlight < credits then
      s.proceed [enterFailed (.protocolViolation ("CREDIT exceeds in-flight sends (atomic): " ++
          s!"returned={credits} > in_flight={s.msg.creditsInFlight}")) true]
    else
      s.update { s.msg with creditsInFlight := s.msg.creditsInFlight - credits }
        [addPermits credits, submit (.recv mr) (.receive false)]

/-- The driver loop, and `send` up to the queueing of its request. -/
def execDrive : DriveOp → Option (RaceShared × List RaceOp)
  | popEvent =>
    if s.eventsLocked then none
    else
      match s.msg.events with
      | [] => s.proceed []
      | event :: events =>
        { s with removed := s.removed + 1 }.update { s.msg with events }
          [processEvent s.removed event]
  | popIo =>
    match s.msg.port.events with
    | [] => s.proceed []
    | event :: events =>
      s.update { s.msg with port := { s.msg.port with events } } [processIoEvent event]
  | pollAdmission permit =>
    match s.msg.admissionPending with
    | [] => s.proceed []
    | command :: rest =>
      s.update { s.msg with admissionPending := rest } [pollPermit command permit]
  | pollPermit command permit =>
    if s.msg.receiverLost then s.proceed []
    else if s.msg.isCancelled command then s.proceed (deliverAll command.cancelledEvents)
    else
      match permit with
      | .pending => s.proceed [pushAdmission command]
      | .closed error | .ready (some error) =>
        s.proceed (deliverAll (command.rejectedEvents error))
      | .ready none => s.proceed [enqueueProtocol command]
  | pushAdmission command =>
    s.update { s.msg with admissionPending := command :: s.msg.admissionPending } []
  | enqueueProtocol command => { s with engine := s.engine ++ [command] }.proceed []
  | flushOneCredit =>
    s.proceed (if s.msg.pendingCreditReturns = 0 then [] else [flushReady])
  | flushReady => s.proceed (if s.msg.state = .ready then [takeControlSend] else [])
  | takeControlSend =>
    match s.msg.controlSends.entries with
    | [] => s.proceed []
    | mr :: entries =>
      s.update { s.msg with controlSends := { s.msg.controlSends with entries } } [claimReturns mr]
  | claimReturns mr =>
    let credits := EngineMessageState.claimPendingCreditReturns s.msg.pendingCreditReturns
    if credits = 0 then s.proceed [putControlSend mr]
    else
      let frame := writeCreditFrame credits
      s.update { s.msg with pendingCreditReturns := s.msg.pendingCreditReturns - credits }
        [submit (.send { mr with content := frame } frame.length .controlSend)
          (.controlSend credits)]
  | deadlineExpired =>
    s.proceed (if s.msg.state = .created then
        [enterFailed (.protocolViolation "HELLO handshake timeout") true] else [])
  | acquireCredit data =>
    if s.msg.remoteCreditsClosed then s.proceed []
    else if s.msg.state ≠ .created ∧ 0 < s.msg.remoteCredits then
      s.update { s.msg with remoteCredits := s.msg.remoteCredits - 1 } [takeDataSend data]
    else none
  | takeDataSend data =>
    if s.msg.dataSends.closed then s.proceed [dropCredit true]
    else
      match s.msg.dataSends.entries with
      | [] => none
      | mr :: entries =>
        let frame := writeDataFrame data
        let request : EngineSendRequest :=
          { mr := some { mr with content := frame }, credit := true
            frameLen := frame.length, output := none, cancelled := false
            creditCommitted := false }
        s.update
          { s.msg with
            dataSends := { s.msg.dataSends with entries }
            requests := s.msg.requests ++ [request] }
          [queueEvent (.sendRequest s.msg.requests.length)]

/-- One atomic operation: the shared state after it and what its call goes on
with; `none` while it has to wait.  A submission may meet a refusal. -/
def exec (refusal : Option Error) (op : RaceOp) (s : RaceShared) :
    Option (RaceShared × List RaceOp) :=
  match op with
  | .drain op => s.execDrain op
  | .close op => s.execClose op
  | .process op => s.execProcess refusal op
  | .io op => s.execIo op
  | .drive op => s.execDrive op

end RaceShared

/-- The calls in progress over the shared state; the first is the driver's. -/
structure RaceState where
  shared : RaceShared
  driverLive : Bool
  calls : List (List RaceOp)
deriving Repr, DecidableEq

/-- What an iteration of the driver can begin with. -/
def DriveOp.begins : DriveOp → Bool
  | popEvent | popIo | pollAdmission _ | flushOneCredit | deadlineExpired => true
  | _ => false

inductive RaceLabel where
  /-- The next operation of a call. -/
  | run (call : Nat) (refusal : Option Error)
  | drive (op : DriveOp)
  | driverDrop
  | send (data : List UInt8)
  /-- A send that waits for its credit or its buffer is dropped. -/
  | abandon (call : Nat)
  /-- A send that waits for its completion is dropped. -/
  | cancel (request : Nat)
  | recv
  | dropMessage (index : Nat)
  | close
  | finishClose (result : Except Error Unit)
  /-- The engine sends a receipt or a terminal event. -/
  | notify (event : IoEvent)
  /-- The engine is done with a command. -/
  | complete (index : Nat) (result : Except Error Nat) (unaccepted cancelled : Bool)
  /-- The engine drops a command whose owner no longer listens. -/
  | discard (index : Nat)
deriving Repr, DecidableEq

/-- The completion of a command. -/
def ProtocolCommand.completion (command : ProtocolCommand) (result : Except Error Nat)
    (unaccepted cancelled : Bool) : IoEvent :=
  .completion
    { context := command.context, result, mr := some command.mr
      provenUnaccepted := unaccepted, cancelledBeforeSubmit := cancelled }

namespace RaceState

/-- A transport whose receives are posted and whose driver has not run. -/
def start (msg : EngineMessageState) (receives : List Mr) : RaceState where
  shared :=
    { msg, eventsLocked := false, errorLocked := false
      engine := receives.map fun mr => { id := 0, batch := .recv mr }
      held := []
      accepted := msg.events, removed := 0, fates := [], started := [], disposed := []
      completed := [], granted := 0 }
  driverLive := true
  calls := [[]]

variable (c : RaceState)

def msg : EngineMessageState :=
  c.shared.msg

/-- The operations that the calls in progress still have to make. -/
def pending : List RaceOp :=
  c.calls.flatten

def setShared (shared : RaceShared) : RaceState :=
  { c with shared }

/-- Another call begins. -/
def begin (op : RaceOp) : RaceState :=
  { c with calls := c.calls ++ [[op]] }

/-- The driver, which has no call in progress, begins one. -/
def beginDriver (op : RaceOp) : RaceState :=
  { c with calls := c.calls.set 0 [op] }

/-- The driver exists and is not being polled. -/
def driverIdle : Bool :=
  c.driverLive && c.calls[0]? == some []

/-- A send call that is dropped while it waits. -/
def abandoned : List RaceOp → Option (List RaceOp)
  | [.drive (.acquireCredit _)] => some []
  | [.drive (.takeDataSend _)] => some [.drain (.dropCredit true)]
  | _ => none

def step : RaceLabel → Option RaceState
  | .run call refusal =>
    (Threads.advance (RaceShared.exec refusal) c.shared c.calls call).map
      fun result => { c with shared := result.1, calls := result.2 }
  | .drive op =>
    if c.driverIdle && op.begins then some (c.beginDriver (.drive op)) else none
  | .driverDrop =>
    if c.driverIdle then
      some { c.beginDriver (.close (.enterFailed .driverShutdown true)) with
        driverLive := false }
    else none
  | .send data =>
    if data.length ≤ c.msg.bufferSize then some (c.begin (.drive (.acquireCredit data)))
    else none
  | .abandon call =>
    (c.calls[call]?.bind abandoned).map fun rest =>
      { c with calls := c.calls.set call rest }
  | .cancel request =>
    some (c.setShared (c.shared.setMsg (c.msg.updateRequest request fun q =>
      { q with cancelled := true })))
  | .recv =>
    match c.msg.received with
    | [] => none
    | message :: received =>
      some (c.setShared
        { c.shared.setMsg { c.msg with received } with
          held := c.shared.held ++ [message] })
  | .dropMessage index =>
    match c.shared.held[index]? with
    | none => none
    | some message =>
      some ((c.setShared { c.shared with held := c.shared.held.eraseIdx index }).begin
        (.drain (.queueEvent (.repost message.mr))))
  | .close => some (c.begin (.close .closeCreated))
  | .finishClose result => some (c.begin (.close (.finishClose result)))
  | .notify event =>
    match event with
    | .completion _ => none
    | .submission _ _ | .terminal _ =>
      some (c.setShared (c.shared.setMsg { c.msg with port := c.msg.port.send [event] }))
  | .complete index result unaccepted cancelled =>
    match c.shared.engine[index]? with
    | none => none
    | some command =>
      some (c.setShared
        { c.shared.setMsg { c.msg with
            port := c.msg.port.send [command.completion result unaccepted cancelled] } with
          engine := c.shared.engine.eraseIdx index })
  | .discard index =>
    if c.msg.receiverLost then
      some (c.setShared { c.shared with engine := c.shared.engine.eraseIdx index })
    else none

end RaceState

end RdmaIo.Message
