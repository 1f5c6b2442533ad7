/-
The I/O boundary of a protocol driver (`engine/io.rs`): submitted commands, the
classification of their outcome, and the event port of one connection.

A command carries an identity that the source does not have.  It is recorded
with the receipt of the command and with the transition that waits for it, and
no function reads it.
-/
import RdmaIo.Message.Frame

namespace RdmaIo.Message

/-- A registered memory region: which one it is and the bytes written to it.
Every region has the size of the pool it belongs to. -/
structure Mr where
  key : Nat
  content : List UInt8
deriving Repr, DecidableEq

/-- The context that an operation of the message transport carries; `request` is
the number of a send request. -/
inductive MessageIoContext where
  | helloSend
  | receive
  | send (request : Nat)
  | controlSend
deriving Repr, DecidableEq

/-- Post-reconciliation ownership of a submitted command. -/
inductive IoSubmissionDisposition where
  | pending (operations : Nat)
  | allAccepted (accepted : Nat)
  | exactPrefix (accepted provenUnaccepted : Nat) (error : Error)
  | fullyUnaccepted (provenUnaccepted : Nat) (error : Error)
  | retainedAmbiguous (retained : Nat) (error : Error)
  | retainedAfterEarlyCompletion (retained : Nat) (error : Error)
deriving Repr, DecidableEq

namespace IoSubmissionDisposition

def isAllAccepted : IoSubmissionDisposition → Bool
  | allAccepted _ => true
  | _ => false

def potentiallyAccepted : IoSubmissionDisposition → Bool
  | pending _ => false
  | allAccepted accepted => accepted ≠ 0
  | exactPrefix accepted _ _ => accepted ≠ 0
  | fullyUnaccepted _ _ => false
  | retainedAmbiguous retained _ => retained ≠ 0
  | retainedAfterEarlyCompletion retained _ => retained ≠ 0

def error : IoSubmissionDisposition → Option Error
  | pending _ | allAccepted _ => none
  | exactPrefix _ _ error | fullyUnaccepted _ error | retainedAmbiguous _ error
  | retainedAfterEarlyCompletion _ error => some error

end IoSubmissionDisposition

/-- An owned completion; a successful result is the byte count. -/
structure IoCompletionEvent where
  context : MessageIoContext
  result : Except Error Nat
  mr : Option Mr
  provenUnaccepted : Bool
  cancelledBeforeSubmit : Bool
deriving Repr, DecidableEq

inductive IoTerminalEvent where
  | disconnected
  | terminal (error : Error)
  | closed (result : Except Error Unit)
deriving Repr, DecidableEq

inductive IoEvent where
  | completion (event : IoCompletionEvent)
  | submission (command : Nat) (disposition : IoSubmissionDisposition)
  | terminal (event : IoTerminalEvent)
deriving Repr, DecidableEq

/-- The command whose receipt an event is. -/
def IoEvent.receipt : IoEvent → Option Nat
  | submission command _ => some command
  | _ => none

/-- The payload of the DATA frame that a completion delivers. -/
def IoCompletionEvent.data (c : IoCompletionEvent) : Option (List UInt8) :=
  match c.context, c.result, c.mr with
  | .receive, .ok len, some mr => dataOf mr.content len
  | _, _, _ => none

def IoEvent.data : IoEvent → Option (List UInt8)
  | completion event => event.data
  | submission _ _ | terminal _ => none

/-- Events of the connection that its driver has not taken. -/
structure IoEventPort where
  isOpen : Bool
  events : List IoEvent
deriving Repr, DecidableEq

/-- A closed port drops what it is sent. -/
def IoEventPort.send (port : IoEventPort) (events : List IoEvent) : IoEventPort :=
  if port.isOpen then { port with events := port.events ++ events } else port

inductive ProtocolBatch where
  | recv (mr : Mr)
  | send (mr : Mr) (len : Nat) (context : MessageIoContext)
deriving Repr, DecidableEq

structure ProtocolCommand where
  id : Nat
  batch : ProtocolBatch
deriving Repr, DecidableEq

namespace ProtocolCommand

variable (command : ProtocolCommand)

def context : MessageIoContext :=
  match command.batch with
  | .recv _ => .receive
  | .send _ _ context => context

def mr : Mr :=
  match command.batch with
  | .recv mr | .send mr _ _ => mr

/-- `IoEventDestination::unaccepted` for the command's operation. -/
def unaccepted (error : Error) : IoEvent :=
  .completion
    { context := command.context, result := .error error, mr := some command.mr
      provenUnaccepted := true, cancelledBeforeSubmit := false }

/-- `IoEventDestination::cancelled` for the command's operation. -/
def cancelled : IoEvent :=
  .completion
    { context := command.context, result := .error .driverShutdown
      mr := some command.mr, provenUnaccepted := true
      cancelledBeforeSubmit := true }

/-- What `reject_after_pending` and `reject_into` publish. -/
def rejectedEvents (error : Error) : List IoEvent :=
  [command.unaccepted error, .submission command.id (.fullyUnaccepted 1 error)]

/-- What `cancel_after_pending` and `cancel_into` publish. -/
def cancelledEvents : List IoEvent :=
  [command.cancelled, .submission command.id (.fullyUnaccepted 1 .driverShutdown)]

end ProtocolCommand

end RdmaIo.Message
