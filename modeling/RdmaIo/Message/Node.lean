/-
One endpoint of the message transport over the engine: the transport with its
driver, the reactor's protocol queue and turn-local publications, and the queue
pair of the connection.

A step is one iteration of the driver loop, one call of the application, or one
piece of reactor or fabric work, so budgets and quanta bound nothing here: every
interleaving of the budgeted loops is a sequence of these steps.
-/
import RdmaIo.Lib.Run
import RdmaIo.Message.Transport

namespace RdmaIo.Message

/-- How polling the permit of the oldest admission goes; a ready permit may
still meet a refusal when the command is enqueued. -/
inductive PermitPoll where
  | pending
  | closed (error : Error)
  | ready (refusal : Option Error)
deriving Repr, DecidableEq

/-- The poll resolves the command without the reactor. -/
def PermitPoll.refuses : PermitPoll → Bool
  | pending | ready none => false
  | closed _ | ready (some _) => true

namespace EngineMessageState

/-- `poll_admission` with a budget of one: `none` without progress, otherwise
with the command that goes to the reactor. -/
def pollAdmission (s : EngineMessageState) (permit : PermitPoll) :
    Option (EngineMessageState × Option ProtocolCommand) :=
  match s.admissionPending with
  | [] => none
  | command :: rest =>
    let popped := { s with admissionPending := rest }
    let deliver (events : List IoEvent) :=
      some ({ popped with port := popped.port.send events }, none)
    if s.receiverLost then some (popped, none)
    else if s.isCancelled command then deliver command.cancelledEvents
    else
      match permit with
      | .pending => none
      | .closed error | .ready (some error) =>
        deliver (command.rejectedEvents error)
      | .ready none => some (popped, some command)

/-- What the poll does with the oldest command. -/
inductive PolledAdmission (s : EngineMessageState) (permit : PermitPoll) (command : ProtocolCommand)
    (rest : List ProtocolCommand) : EngineMessageState → Option ProtocolCommand → Prop
  | lost (hlost : s.receiverLost = true) :
      PolledAdmission s permit command rest { s with admissionPending := rest } none
  | cancelled (hlost : s.receiverLost = false) (hcancelled : s.isCancelled command = true) :
      PolledAdmission s permit command rest
        { s with admissionPending := rest, port := s.port.send command.cancelledEvents } none
  | rejected (hlost : s.receiverLost = false) (hrefuses : permit.refuses = true)
      (error : Error) :
      PolledAdmission s permit command rest
        { s with admissionPending := rest, port := s.port.send (command.rejectedEvents error) } none
  | granted (hlost : s.receiverLost = false) (hpermit : permit = .ready none) :
      PolledAdmission s permit command rest { s with admissionPending := rest } (some command)

theorem pollAdmission_cases {s s' : EngineMessageState} {permit : PermitPoll}
    {out : Option ProtocolCommand} (h : s.pollAdmission permit = some (s', out)) :
    ∃ command rest, s.admissionPending = command :: rest ∧
      PolledAdmission s permit command rest s' out := by
  unfold pollAdmission at h
  split at h
  · cases h
  next command rest hpending =>
  refine ⟨command, rest, hpending, ?_⟩
  split at h
  next hlost =>
    obtain ⟨rfl, rfl⟩ := Prod.mk.inj (Option.some.inj h)
    exact .lost hlost
  next hlost =>
  have hlost := eq_false_of_ne_true hlost
  split at h
  next hcancelled =>
    obtain ⟨rfl, rfl⟩ := Prod.mk.inj (Option.some.inj h)
    exact .cancelled hlost hcancelled
  match permit with
  | .pending => cases h
  | .closed error | .ready (some error) =>
    obtain ⟨rfl, rfl⟩ := Prod.mk.inj (Option.some.inj h)
    exact .rejected hlost rfl error
  | .ready none =>
    obtain ⟨rfl, rfl⟩ := Prod.mk.inj (Option.some.inj h)
    exact .granted hlost rfl

end EngineMessageState

inductive EngineMessageWork where
  | protocol (event : EngineMessageEvent)
  | io (event : IoEvent)
deriving Repr, DecidableEq

structure MessageTransportDriver where
  state : EngineMessageState
  preferCredit : Bool
  preferIo : Bool
  preferAdmission : Bool
deriving Repr, DecidableEq

/-- What the engine answers during one iteration of the driver loop. -/
structure DriveEnv where
  /-- The permit, if admission is polled first. -/
  permit : PermitPoll
  /-- The permit, if admission is polled because there is no other work. -/
  idlePermit : PermitPoll
  /-- The answer to a submission. -/
  refusal : Option Error
deriving Repr, DecidableEq

namespace MessageTransportDriver

def new (state : EngineMessageState) : MessageTransportDriver where
  state := state
  preferCredit := false
  preferIo := false
  preferAdmission := false

variable (d : MessageTransportDriver)

def popProtocol : Option (MessageTransportDriver × EngineMessageWork) :=
  match d.state.events with
  | [] => none
  | event :: events =>
    some ({ d with state := { d.state with events }, preferIo := true }, .protocol event)

def popIo : Option (MessageTransportDriver × EngineMessageWork) :=
  match d.state.port.events with
  | [] => none
  | event :: events =>
    some ({ d with
      state := { d.state with port := { d.state.port with events } }
      preferIo := false }, .io event)

/-- `pop_work`: the two queues take turns. -/
def popWork : Option (MessageTransportDriver × EngineMessageWork) :=
  if d.preferIo then d.popIo.or d.popProtocol else d.popProtocol.or d.popIo

def processWork (s : EngineMessageState) (work : EngineMessageWork)
    (refusal : Option Error) : EngineMessageState :=
  match work with
  | .protocol event => s.processEvent event refusal
  | .io event => s.processIoEvent event refusal

/-- One iteration of the loop in `process`; `none` where the loop breaks. -/
def processOne (env : DriveEnv) : Option (MessageTransportDriver × Option ProtocolCommand) :=
  match if d.preferAdmission then d.state.pollAdmission env.permit else none with
  | some (state, command) =>
    some ({ d with state, preferAdmission := false }, command)
  | none =>
    match if d.preferCredit then d.state.flushOneCredit env.refusal else none with
    | some state =>
      some ({ d with state, preferCredit := false, preferAdmission := true }, none)
    | none =>
      match d.popWork with
      | some (d, work) =>
        some ({ d with
          state := processWork d.state work env.refusal
          preferCredit := true
          preferAdmission := true }, none)
      | none =>
        match d.state.pollAdmission env.idlePermit with
        | some (state, command) =>
          some ({ d with state, preferAdmission := false }, command)
        | none =>
          (d.state.flushOneCredit env.refusal).map fun state => ({ d with state }, none)

/-- What one iteration can do: poll admission, flush a credit, or take the
oldest event of one of the two queues. -/
inductive Iteration (s : EngineMessageState) (env : DriveEnv) :
    EngineMessageState → Option ProtocolCommand → Prop
  | admission {permit : PermitPoll} {s' : EngineMessageState}
      {out : Option ProtocolCommand} (hpermit : permit = env.permit ∨ permit = env.idlePermit)
      (hpoll : s.pollAdmission permit = some (s', out)) : Iteration s env s' out
  | credit {s' : EngineMessageState} (hflush : s.flushOneCredit env.refusal = some s') :
      Iteration s env s' none
  | protocol {event : EngineMessageEvent} {events : List EngineMessageEvent}
      (hevents : s.events = event :: events) :
      Iteration s env ({ s with events }.processEvent event env.refusal) none
  | io {event : IoEvent} {events : List IoEvent}
      (hevents : s.port.events = event :: events) :
      Iteration s env ({ s with port := { s.port with events } }.processIoEvent event env.refusal)
        none

variable {d d' : MessageTransportDriver} {work : EngineMessageWork}

theorem popProtocol_eq_some (h : d.popProtocol = some (d', work)) :
    ∃ event events, d.state.events = event :: events ∧
      d'.state = { d.state with events } ∧ work = .protocol event := by
  unfold popProtocol at h
  split at h
  · cases h
  next event events hevents =>
    obtain ⟨rfl, rfl⟩ := Prod.mk.inj (Option.some.inj h)
    exact ⟨event, events, hevents, rfl, rfl⟩

theorem popIo_eq_some (h : d.popIo = some (d', work)) :
    ∃ event events, d.state.port.events = event :: events ∧
      d'.state = { d.state with port := { d.state.port with events } } ∧
      work = .io event := by
  unfold popIo at h
  split at h
  · cases h
  next event events hevents =>
    obtain ⟨rfl, rfl⟩ := Prod.mk.inj (Option.some.inj h)
    exact ⟨event, events, hevents, rfl, rfl⟩

theorem popWork_eq_some (h : d.popWork = some (d', work)) :
    d.popProtocol = some (d', work) ∨ d.popIo = some (d', work) := by
  unfold popWork at h
  split at h <;> rcases Option.or_eq_some_iff.mp h with h | ⟨-, h⟩
  · exact .inr h
  · exact .inl h
  · exact .inl h
  · exact .inr h

theorem popWork_iteration (h : d.popWork = some (d', work))
    (env : DriveEnv) : Iteration d.state env (processWork d'.state work env.refusal) none := by
  rcases popWork_eq_some h with h | h
  · obtain ⟨event, events, hevents, hstate, rfl⟩ := popProtocol_eq_some h
    exact hstate ▸ .protocol hevents
  · obtain ⟨_, _, hevents, hstate, rfl⟩ := popIo_eq_some h
    exact hstate ▸ .io hevents

theorem processOne_iteration {env : DriveEnv}
    {out : Option ProtocolCommand} (h : d.processOne env = some (d', out)) :
    Iteration d.state env d'.state out := by
  unfold processOne at h
  split at h
  next hadmission =>
    obtain ⟨rfl, rfl⟩ := Prod.mk.inj (Option.some.inj h)
    split at hadmission
    · exact .admission (.inl rfl) hadmission
    · cases hadmission
  split at h
  next hflush =>
    obtain ⟨rfl, rfl⟩ := Prod.mk.inj (Option.some.inj h)
    split at hflush
    · exact .credit hflush
    · cases hflush
  split at h
  next hwork =>
    obtain ⟨rfl, rfl⟩ := Prod.mk.inj (Option.some.inj h)
    exact popWork_iteration hwork env
  split at h
  next hadmission =>
    obtain ⟨rfl, rfl⟩ := Prod.mk.inj (Option.some.inj h)
    exact .admission (.inr rfl) hadmission
  next =>
    obtain ⟨_, hflush, heq⟩ := Option.map_eq_some_iff.mp h
    obtain ⟨rfl, rfl⟩ := Prod.mk.inj heq
    exact .credit hflush

end MessageTransportDriver

/-- The outcome of posting a command of one operation. -/
inductive PostOutcome where
  | allAccepted
  | unaccepted (error : Error)
  | exactPrefix (error : Error)
  | ambiguous (error : Error)
deriving Repr, DecidableEq

namespace PostOutcome

def disposition : PostOutcome → IoSubmissionDisposition
  | allAccepted => .allAccepted 1
  | unaccepted error => .fullyUnaccepted 1 error
  | exactPrefix error => .exactPrefix 1 0 error
  | ambiguous error => .retainedAmbiguous 1 error

end PostOutcome

/-- An entry of the reactor's protocol queue that belongs to the connection. -/
inductive ProtocolQueueEntry where
  | command (command : ProtocolCommand)
  | publication (events : List IoEvent)
deriving Repr, DecidableEq

structure PostedSend where
  mr : Mr
  len : Nat
  context : MessageIoContext
deriving Repr, DecidableEq

structure MessageNode where
  driver : MessageTransportDriver
  /-- Send calls that hold a credit and wait for a buffer. -/
  acquired : Nat
  /-- Messages that the application holds. -/
  held : List CompletedRecv
  queue : List ProtocolQueueEntry
  /-- Events of the reactor turn, published when the turn ends. -/
  turn : List IoEvent
  rq : List Mr
  sq : List PostedSend
  /-- Sends that the peer has received, not yet completed. -/
  unacked : List PostedSend
  cq : List IoCompletionEvent
  /-- Completions reaped from the completion queue, not yet dispatched. -/
  completions : List IoCompletionEvent
  ioClosed : Bool
deriving Repr, DecidableEq

namespace MessageNode

/-- An endpoint whose receives are posted and whose driver has not run. -/
def new (state : EngineMessageState) (receives : List Mr) : MessageNode where
  driver := .new state
  acquired := 0
  held := []
  queue := []
  turn := []
  rq := receives
  sq := []
  unacked := []
  cq := []
  completions := []
  ioClosed := false

variable (n : MessageNode)

def msg : EngineMessageState :=
  n.driver.state

def setMsg (s : EngineMessageState) : MessageNode :=
  { n with driver := { n.driver with state := s } }

/-- `send` acquires a credit once the transport is ready. -/
def sendAcquire : Option MessageNode :=
  if n.msg.state ≠ .created ∧ !n.msg.remoteCreditsClosed ∧ 0 < n.msg.remoteCredits then
    some { n.setMsg { n.msg with remoteCredits := n.msg.remoteCredits - 1 } with
      acquired := n.acquired + 1 }
  else none

/-- A send call ends before it has a buffer; its credit returns. -/
def sendAbandon : Option MessageNode :=
  if 0 < n.acquired then
    some { n.setMsg (n.msg.dropCredit true) with acquired := n.acquired - 1 }
  else none

/-- `send` takes a buffer, writes the frame and queues the request. -/
def sendEnqueue (data : List UInt8) : Option MessageNode :=
  match n.msg.dataSends.entries with
  | [] => none
  | mr :: entries =>
    if 0 < n.acquired ∧ data.length ≤ n.msg.bufferSize then
      let frame := writeDataFrame data
      let request : EngineSendRequest :=
        { mr := some { mr with content := frame }, credit := true
          frameLen := frame.length, output := none, cancelled := false
          creditCommitted := false }
      let s :=
        { n.msg with
          dataSends := { n.msg.dataSends with entries }
          requests := n.msg.requests ++ [request] }
      some { n.setMsg (s.queueEvent (.sendRequest n.msg.requests.length)) with
        acquired := n.acquired - 1 }
    else none

/-- The future of a send call is dropped. -/
def sendCancel (request : Nat) : MessageNode :=
  n.setMsg (n.msg.updateRequest request fun r => { r with cancelled := true })

/-- `recv` returns the oldest message. -/
def recv : Option MessageNode :=
  match n.msg.received with
  | [] => none
  | message :: received =>
    some { n.setMsg { n.msg with received } with held := n.held ++ [message] }

theorem recv_eq_some {n n' : MessageNode} (h : n.recv = some n') :
    ∃ message received, n.msg.received = message :: received ∧
      n' = { n.setMsg { n.msg with received } with held := n.held ++ [message] } := by
  unfold recv at h
  split at h
  · cases h
  next message received hcons => exact ⟨message, received, hcons, (Option.some.inj h).symm⟩

/-- The application drops a message; its buffer is queued for reposting. -/
def dropMessage (index : Nat) : Option MessageNode :=
  match n.held[index]? with
  | none => none
  | some message =>
    some { n.setMsg (n.msg.queueEvent (.repost message.mr)) with
      held := n.held.eraseIdx index }

end MessageNode

namespace MessageNode

variable (n : MessageNode)

/-- One iteration of the driver loop; an admitted command joins the queue. -/
def drive (env : DriveEnv) : Option MessageNode :=
  (n.driver.processOne env).map fun (driver, command) =>
    { n with
      driver
      queue := n.queue ++ (command.map ProtocolQueueEntry.command).toList }

theorem drive_eq_some {n n' : MessageNode} {env : DriveEnv} (h : n.drive env = some n') :
    ∃ driver out, MessageTransportDriver.Iteration n.msg env driver.state out ∧
      n' = { n with
        driver
        queue := n.queue ++ (out.map ProtocolQueueEntry.command).toList } := by
  obtain ⟨⟨driver, out⟩, hone, rfl⟩ := Option.map_eq_some_iff.mp h
  exact ⟨driver, out, MessageTransportDriver.processOne_iteration hone, rfl⟩

variable (command : ProtocolCommand)

/-- The queue pair takes the operation of a command. -/
def post : MessageNode :=
  match command.batch with
  | .recv mr => { n with rq := n.rq ++ [mr] }
  | .send mr len context => { n with sq := n.sq ++ [{ mr, len, context }] }

/-- `execute_into` on an open connection. -/
def execute (outcome : PostOutcome) : MessageNode × List IoEvent :=
  let receipt := IoEvent.submission command.id outcome.disposition
  match outcome with
  | .unaccepted error => (n, [command.unaccepted error, receipt])
  | .allAccepted | .exactPrefix _ | .ambiguous _ => (n.post command, [receipt])

variable (terminalError : Option Error)

/-- What servicing a queued command does and publishes. -/
def serviceCommand (outcome : PostOutcome) : MessageNode × List IoEvent :=
  if n.msg.receiverLost then (n, [])
  else if n.msg.isCancelled command then (n, command.cancelledEvents)
  else
    match terminalError with
    | some error => (n, command.rejectedEvents error)
    | none =>
      if n.ioClosed then (n, command.rejectedEvents .transportClosed)
      else n.execute command outcome

theorem post_frame : (n.post command).msg = n.msg ∧ (n.post command).turn = n.turn ∧
      (n.post command).queue = n.queue ∧
      (n.post command).completions = n.completions := by
  unfold post
  split <;> exact ⟨rfl, rfl, rfl, rfl⟩

/-- Servicing a command touches only the queue pair. -/
theorem serviceCommand_frame (outcome : PostOutcome) :
    let served := (n.serviceCommand command terminalError outcome).1
    served.msg = n.msg ∧ served.turn = n.turn ∧ served.queue = n.queue ∧
      served.completions = n.completions := by
  unfold serviceCommand execute
  repeat' split
  all_goals first | exact ⟨rfl, rfl, rfl, rfl⟩ | exact n.post_frame command

/-- What servicing a command can do: its owner is gone, it is cancelled, it is
rejected, or the queue pair may have taken it. -/
inductive Served (n : MessageNode) (command : ProtocolCommand) : MessageNode × List IoEvent → Prop
  | lost (hlost : n.msg.receiverLost = true) : Served n command (n, [])
  | cancelled (hlost : n.msg.receiverLost = false)
      (hcancelled : n.msg.isCancelled command = true) :
      Served n command (n, command.cancelledEvents)
  | rejected (hlost : n.msg.receiverLost = false) (error : Error) :
      Served n command (n, command.rejectedEvents error)
  | posted (hlost : n.msg.receiverLost = false) (disposition : IoSubmissionDisposition)
      (haccepted : disposition.potentiallyAccepted = true) :
      Served n command (n.post command, [.submission command.id disposition])

theorem serviceCommand_served (outcome : PostOutcome) :
    Served n command (n.serviceCommand command terminalError outcome) := by
  unfold serviceCommand
  split
  next hlost => exact .lost hlost
  next hlost =>
    have hlost : n.msg.receiverLost = false := by simpa using hlost
    split
    next hcancelled => exact .cancelled hlost hcancelled
    cases terminalError with
    | some error => exact .rejected hlost error
    | none =>
      simp only
      split
      · exact .rejected hlost .transportClosed
      cases outcome with
      | unaccepted error => exact .rejected hlost error
      | allAccepted => exact .posted hlost _ rfl
      | exactPrefix => exact .posted hlost _ rfl
      | ambiguous => exact .posted hlost _ rfl

/-- Events move to the turn while it has room; the rest stays at the front. -/
def appendBounded (events : List IoEvent) (room : Nat) : MessageNode :=
  { n with
    turn := n.turn ++ events.take room
    queue :=
      if (events.drop room).isEmpty then n.queue
      else .publication (events.drop room) :: n.queue }

/-- `service_turn_into` on the oldest protocol entry of the connection. -/
def service (outcome : PostOutcome) (room : Nat) : Option MessageNode :=
  match n.queue with
  | [] => none
  | .publication events :: queue =>
    some ({ n with queue }.appendBounded events room)
  | .command command :: queue =>
    let served := { n with queue }.serviceCommand command terminalError outcome
    some (served.1.appendBounded served.2 room)

/-- What servicing the oldest entry does. -/
inductive Serviced (n : MessageNode) (room : Nat) : MessageNode → Prop
  | publication {events : List IoEvent} {queue : List ProtocolQueueEntry}
      (hqueue : n.queue = .publication events :: queue) :
      Serviced n room ({ n with queue }.appendBounded events room)
  | command {command : ProtocolCommand} {queue : List ProtocolQueueEntry}
      {served : MessageNode × List IoEvent} (hqueue : n.queue = .command command :: queue)
      (hserved : Served { n with queue } command served) :
      Serviced n room (served.1.appendBounded served.2 room)

theorem service_serviced {n n' : MessageNode} {terminalError : Option Error}
    {outcome : PostOutcome} {room : Nat}
    (h : n.service terminalError outcome room = some n') : Serviced n room n' := by
  unfold service at h
  split at h
  · cases h
  next hqueue => exact Option.some.inj h ▸ .publication hqueue
  next hqueue =>
    exact Option.some.inj h ▸ .command hqueue (serviceCommand_served _ _ _ _)

/-- The turn ends and its events reach the port. -/
def publish : MessageNode :=
  { n.setMsg { n.msg with port := n.msg.port.send n.turn } with turn := [] }

/-- The oldest receive completes, with the bytes that arrived or with an error. -/
def arrive (outcome : Except Error (List UInt8)) : Option MessageNode :=
  match n.rq with
  | [] => none
  | mr :: rq =>
    let completion : IoCompletionEvent :=
      match outcome with
      | .ok bytes =>
        { context := .receive, result := .ok bytes.length
          mr := some { mr with content := bytes ++ mr.content.drop bytes.length }
          provenUnaccepted := false, cancelledBeforeSubmit := false }
      | .error error =>
        { context := .receive, result := .error error, mr := some mr
          provenUnaccepted := false, cancelledBeforeSubmit := false }
    some { n with rq, cq := n.cq ++ [completion] }

/-- The oldest send request leaves for the peer. -/
def transmit : Option (MessageNode × PostedSend) :=
  match n.sq with
  | [] => none
  | send :: sq => some ({ n with sq, unacked := n.unacked ++ [send] }, send)

theorem transmit_eq_some {n n' : MessageNode} {send : PostedSend}
    (h : n.transmit = some (n', send)) :
    ∃ sq, n.sq = send :: sq ∧ n' = { n with sq, unacked := n.unacked ++ [send] } := by
  unfold transmit at h
  split at h
  · cases h
  next sq hsq =>
    obtain ⟨rfl, rfl⟩ := Prod.mk.inj (Option.some.inj h)
    exact ⟨sq, hsq, rfl⟩

/-- The oldest send that has left completes. -/
def complete (result : Except Error Unit) : Option MessageNode :=
  match n.unacked with
  | [] => none
  | send :: unacked =>
    some { n with
      unacked
      cq := n.cq ++
        [{ context := send.context, result := result.map fun _ => send.len
           mr := some send.mr, provenUnaccepted := false
           cancelledBeforeSubmit := false }] }

/-- The reactor reaps the oldest completion. -/
def reap : Option MessageNode :=
  match n.cq with
  | [] => none
  | completion :: cq => some { n with cq, completions := n.completions ++ [completion] }

theorem reap_eq_some {n n' : MessageNode} (h : n.reap = some n') :
    ∃ completion cq, n.cq = completion :: cq ∧
      n' = { n with cq, completions := n.completions ++ [completion] } := by
  unfold reap at h
  split at h
  · cases h
  next completion cq hcq => exact ⟨completion, cq, hcq, (Option.some.inj h).symm⟩

/-- The reactor dispatches the oldest reaped completion. -/
def dispatch : Option MessageNode :=
  match n.completions with
  | [] => none
  | completion :: completions =>
    some { n with completions, turn := n.turn ++ [.completion completion] }

theorem dispatch_eq_some {n n' : MessageNode} (h : n.dispatch = some n') :
    ∃ completion completions, n.completions = completion :: completions ∧
      n' = { n with completions, turn := n.turn ++ [.completion completion] } := by
  unfold dispatch at h
  split at h
  · cases h
  next completion completions hcons =>
    exact ⟨completion, completions, hcons, (Option.some.inj h).symm⟩

/-- The engine stops posting and reports a terminal event. -/
def terminate (event : IoTerminalEvent) : MessageNode :=
  { n with ioClosed := true, turn := n.turn ++ [.terminal event] }

end MessageNode

inductive NodeLabel where
  | sendAcquire
  | sendAbandon
  | sendEnqueue (data : List UInt8)
  | sendCancel (request : Nat)
  | recv
  | dropMessage (index : Nat)
  | close
  | finishClose (result : Except Error Unit)
  | drive (env : DriveEnv)
  | deadline
  | driverDrop
  | service (terminalError : Option Error) (outcome : PostOutcome) (room : Nat)
  | publish
  | arrive (outcome : Except Error (List UInt8))
  | transmit
  | complete (result : Except Error Unit)
  | reap
  | dispatch
  | terminate (event : IoTerminalEvent)
deriving Repr, DecidableEq

namespace MessageNode

def step (n : MessageNode) : NodeLabel → Option MessageNode
  | .sendAcquire => n.sendAcquire
  | .sendAbandon => n.sendAbandon
  | .sendEnqueue data => n.sendEnqueue data
  | .sendCancel request => some (n.sendCancel request)
  | .recv => n.recv
  | .dropMessage index => n.dropMessage index
  | .close => some (n.setMsg n.msg.beginClose)
  | .finishClose result => some (n.setMsg (n.msg.finishClose result))
  | .drive env => n.drive env
  | .deadline => some (n.setMsg n.msg.deadlineExpired)
  | .driverDrop => some (n.setMsg (n.msg.fail .driverShutdown true))
  | .service terminalError outcome room => n.service terminalError outcome room
  | .publish => some n.publish
  | .arrive outcome => n.arrive outcome
  | .transmit => n.transmit.map Prod.fst
  | .complete result => n.complete result
  | .reap => n.reap
  | .dispatch => n.dispatch
  | .terminate event => some (n.terminate event)

/-- An endpoint with one data buffer each way, for concrete runs. -/
def small : MessageNode :=
  .new (.new 1 16 [⟨1, []⟩] [⟨2, []⟩, ⟨3, []⟩] ⟨4, []⟩) [⟨5, []⟩, ⟨6, []⟩, ⟨7, []⟩]

/-- The driver iterates with the engine granting every permit. -/
def driveGranted : NodeLabel :=
  .drive { permit := .ready none, idlePermit := .ready none, refusal := none }

/-- A frame arrives and the driver processes its completion. -/
def receiveFrame (frame : List UInt8) : List NodeLabel :=
  [.arrive (.ok frame), .reap, .dispatch, .publish, driveGranted]

/-- The oldest queued command is accepted and its receipt published. -/
def serviceAccepted : List NodeLabel :=
  [.service none .allAccepted 32, .publish]

/-- The steps that bring `small` to READY against an equal peer. -/
def handshake : List NodeLabel :=
  [driveGranted, driveGranted] ++ serviceAccepted ++
    [driveGranted, .transmit, .complete (.ok ()), .reap, .dispatch, .publish,
      driveGranted] ++
    receiveFrame (writeHelloFrame 1 16) ++ [driveGranted] ++ serviceAccepted ++
    [driveGranted]

example : (Machine.run step small handshake).map (·.msg.state) = some .ready := by
  decide +kernel

end MessageNode

end RdmaIo.Message
