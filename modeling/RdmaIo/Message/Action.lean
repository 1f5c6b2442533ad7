/-
What a live transport can do in one iteration of its driver.

The view of a transport keeps what it owes and owns: credits, requests, queued
events, received messages, recorded transitions and the commands and events on
their way.  Buffer pools, outputs and errors are left out.  Each iteration of the
driver is one action on the view, or it closes the transport for good.
-/
import RdmaIo.Message.Lifecycle
import RdmaIo.Message.LinkEnd

namespace RdmaIo.Message

open EngineMessageState

structure RequestView where
  mr : Option Mr
  credit : Bool
  committed : Bool
  frameLen : Nat

def EngineSendRequest.view (r : EngineSendRequest) : RequestView where
  mr := r.mr
  credit := r.credit
  committed := r.creditCommitted
  frameLen := r.frameLen

/-- The request without its buffer and its credit. -/
def RequestView.taken (r : RequestView) : RequestView :=
  { r with mr := none, credit := false }

/-- The request with its credit, if it has one, spent on a send. -/
def RequestView.spent (r : RequestView) : RequestView :=
  { r.taken with committed := r.committed || r.credit }

structure TransportView where
  state : TransportState
  capacity : Nat
  size : Nat
  available : Nat
  inFlight : Nat
  limit : Nat
  announced : Bool
  confirmed : Bool
  granted : Bool
  requests : List RequestView
  events : List EngineMessageEvent
  received : List CompletedRecv
  owing : Nat
  transitions : List (Nat × PendingProtocolTransition)
  admission : List ProtocolCommand
  port : List IoEvent
  next : Nat

/-- Credits that the receipt of a command adds to the ones owed. -/
def PendingProtocolTransition.settled (state : TransportState)
    (disposition : IoSubmissionDisposition) : PendingProtocolTransition → Nat
  | receive returnCredit => (disposition.isAllAccepted && returnCredit).toNat
  | controlSend credits =>
    if disposition.isAllAccepted || disposition.potentiallyAccepted then 0
    else (controlSend credits).restored state
  | send | helloSend | helloReceiveRepost _ => 0

open PendingProtocolTransition (settled controlSend)

namespace TransportView

/-- A command is submitted: it waits for admission and its transition for the
receipt, or it is refused at once. -/
inductive Submitted (v : TransportView) (batch : ProtocolBatch)
    (transition : PendingProtocolTransition) : TransportView → Prop
  | admitted : Submitted v batch transition
      { v with
        next := v.next + 1
        admission := v.admission ++ [{ id := v.next, batch }]
        transitions := v.transitions ++ [(v.next, transition)] }
  | refused (error : Error) : Submitted v batch transition
      { v with
        next := v.next + 1
        port := v.port ++ [ProtocolCommand.unaccepted { id := v.next, batch } error]
        owing := v.owing + transition.restored v.state }

/-- The state after both halves of the handshake. -/
def opened (state : TransportState) (confirmed granted : Bool) : TransportState :=
  if confirmed && granted && state == .created then .ready else state

/-- A send that was not posted takes its credit back, once. -/
def rollback (v : TransportView) (request : Nat) : TransportView :=
  if (v.requests[request]?).any (·.committed) then
    let v := { v with
      requests := v.requests.modify request fun r => { r with committed := false } }
    if v.inFlight = 0 then v
    else { v with inFlight := v.inFlight - 1, available := v.available + 1 }
  else v

/-- The credit frame that carries what is owed. -/
def creditFrame (mr : Mr) (credits : Nat) : ProtocolBatch :=
  .send { mr with content := writeCreditFrame credits } (writeCreditFrame credits).length
    .controlSend

def helloFrame (v : TransportView) (mr : Mr) : ProtocolBatch :=
  .send { mr with content := writeHelloFrame v.capacity v.size }
    (writeHelloFrame v.capacity v.size).length .helloSend

/-- One iteration of the driver; `out` is a command that goes to the reactor. -/
inductive Action (v : TransportView) : Option ProtocolCommand → TransportView → Prop
  | skip {event : EngineMessageEvent} {events : List EngineMessageEvent}
      (hevents : v.events = event :: events)
      (hevent : event.isRepost = true → v.state = .created) :
      Action v none { v with events }
  | release {request : Nat} {events : List EngineMessageEvent} {r : RequestView}
      (hevents : v.events = .sendRequest request :: events)
      (hr : v.requests[request]? = some r) :
      Action v none
        { v with
          events
          requests := v.requests.modify request .taken
          available := v.available + r.credit.toNat }
  | send {request : Nat} {events : List EngineMessageEvent} {r : RequestView} {mr : Mr}
      {w : TransportView} (hevents : v.events = .sendRequest request :: events)
      (hready : v.state = .ready) (hr : v.requests[request]? = some r)
      (hmr : r.mr = some mr)
      (hsubmit : Submitted
        { v with
          events
          requests := v.requests.modify request .spent
          inFlight := v.inFlight + r.credit.toNat }
        (.send mr r.frameLen (.send request)) .send w) : Action v none w
  | repost {mr : Mr} {events : List EngineMessageEvent} {w : TransportView}
      (hevents : v.events = .repost mr :: events) (hready : v.state = .ready)
      (hsubmit : Submitted { v with events } (.recv mr) (.receive true) w) :
      Action v none w
  | announce {mr : Mr} {events : List EngineMessageEvent} {w : TransportView}
      (hevents : v.events = .start :: events) (hfirst : v.announced = false)
      (hsubmit : Submitted { v with events, announced := true } (v.helloFrame mr)
        .helloSend w) : Action v none w
  | flush {mr : Mr} {w : TransportView} (hready : v.state = .ready)
      (howing : 0 < v.owing)
      (hsubmit : Submitted
        { v with
          owing := v.owing - claimPendingCreditReturns v.owing }
        (creditFrame mr (claimPendingCreditReturns v.owing))
        (.controlSend (claimPendingCreditReturns v.owing)) w) :
      Action v none w
  | handOver {command : ProtocolCommand} {rest : List ProtocolCommand}
      (hadmission : v.admission = command :: rest) :
      Action v (some command) { v with admission := rest }
  | cancel {command : ProtocolCommand} {rest : List ProtocolCommand} {request : Nat}
      (hadmission : v.admission = command :: rest)
      (hcontext : command.context = .send request) :
      Action v none { v with admission := rest, port := v.port ++ command.cancelledEvents }
  | reject {command : ProtocolCommand} {rest : List ProtocolCommand}
      (hadmission : v.admission = command :: rest) (error : Error) :
      Action v none { v with admission := rest, port := v.port ++ command.rejectedEvents error }
  | receipt {id recorded : Nat} {disposition : IoSubmissionDisposition}
      {transition : PendingProtocolTransition}
      {rest : List (Nat × PendingProtocolTransition)} {port : List IoEvent}
      (hport : v.port = .submission id disposition :: port)
      (htransitions : v.transitions = (recorded, transition) :: rest)
      (hplain : transition.heard = [] ∨ disposition.isAllAccepted = false)
      (hkept : disposition.potentiallyAccepted = true → disposition.error = none) :
      Action v none
        { v with
          port
          transitions := rest
          owing := v.owing + transition.settled v.state disposition }
  | grant {id recorded capacity : Nat} {disposition : IoSubmissionDisposition}
      {rest : List (Nat × PendingProtocolTransition)} {port : List IoEvent}
      (hport : v.port = .submission id disposition :: port)
      (htransitions : v.transitions = (recorded, .helloReceiveRepost capacity) :: rest)
      (haccepted : disposition.isAllAccepted = true) :
      Action v none
        { v with
          port
          transitions := rest
          limit := capacity
          available := v.available + capacity
          granted := true
          state := opened v.state v.confirmed true }
  | message {c : IoCompletionEvent} {mr : Mr} {len : Nat} {header : FrameHeader}
      {port : List IoEvent} (hport : v.port = .completion c :: port)
      (hcontext : c.context = .receive) (hresult : c.result = .ok len)
      (hmr : c.mr = some mr) (hready : v.state = .ready)
      (hheader : parseHeader mr.content len = .ok header)
      (htype : header.frameType = frameData) :
      Action v none
        { v with
          port
          received := v.received ++ [{ mr, byteLen := header.payloadLen }] }
  | credit {c : IoCompletionEvent} {mr : Mr} {len credits : Nat} {header : FrameHeader}
      {port : List IoEvent} {w : TransportView} (hport : v.port = .completion c :: port)
      (hcontext : c.context = .receive) (hresult : c.result = .ok len)
      (hmr : c.mr = some mr) (hready : v.state = .ready)
      (hheader : parseHeader mr.content len = .ok header)
      (htype : header.frameType = frameCredit)
      (hparse : parseCredit (payloadOf mr.content header) = .ok credits)
      (hspent : credits ≤ v.inFlight)
      (hsubmit : Submitted
        { v with
          port
          inFlight := v.inFlight - credits
          available := v.available + credits } (.recv mr) (.receive false) w) :
      Action v none w
  | hear {c : IoCompletionEvent} {mr : Mr} {len : Nat} {header : FrameHeader}
      {hello : HelloPayload} {port : List IoEvent} {w : TransportView}
      (hport : v.port = .completion c :: port)
      (hcontext : c.context = .receive) (hresult : c.result = .ok len)
      (hmr : c.mr = some mr) (hcreated : v.state = .created) (hfirst : v.granted = false)
      (hheader : parseHeader mr.content len = .ok header)
      (htype : header.frameType = frameHello)
      (hparse : parseHello (payloadOf mr.content header) = .ok hello)
      (hsubmit : Submitted { v with port } (.recv mr)
        (.helloReceiveRepost hello.dataRecvCapacity) w) : Action v none w
  | confirm {c : IoCompletionEvent} {len : Nat} {port : List IoEvent}
      (hport : v.port = .completion c :: port) (hcontext : c.context = .helloSend)
      (hresult : c.result = .ok len) (haccepted : c.provenUnaccepted = false) :
      Action v none
        { v with
          port
          confirmed := true
          state := opened v.state true v.granted }
  | sent {c : IoCompletionEvent} {request : Nat} {port : List IoEvent}
      (hport : v.port = .completion c :: port) (hcontext : c.context = .send request) :
      Action v none
        (if c.provenUnaccepted then rollback { v with port } request else { v with port })
  | returned {c : IoCompletionEvent} {port : List IoEvent}
      (hport : v.port = .completion c :: port) (hcontext : c.context = .controlSend)
      (hresult : v.state = .ready → c.result.isOk = true) :
      Action v none { v with port }

end TransportView

namespace EngineMessageState

open TransportView (Submitted Action)

def view (s : EngineMessageState) : TransportView where
  state := s.state
  capacity := s.localRecvCapacity
  size := s.bufferSize
  available := s.remoteCredits
  inFlight := s.creditsInFlight
  limit := s.peerRecvCapacity
  announced := s.helloSendPosted
  confirmed := s.helloSendComplete
  granted := s.helloReceiveComplete
  requests := s.requests.map EngineSendRequest.view
  events := s.events
  received := s.received
  owing := s.pendingCreditReturns
  transitions := s.pendingProtocolTransitions
  admission := s.admissionPending
  port := s.port.events
  next := s.nextCommand

/-- The transport takes part in the protocol. -/
structure Alive (s : EngineMessageState) : Prop where
  state : s.state.isClosing = false
  admission : s.admissionOpen = true
  port : s.port.isOpen = true

/-- The transport is closing or closed, and nothing waits in it. -/
structure Dead (s : EngineMessageState) : Prop where
  state : s.state.isClosing = true
  admission : s.admissionOpen = false
  pending : s.admissionPending = []
  events : s.events = []

variable {s s' : EngineMessageState}

theorem Dead.of_view (h : s.callView.Dead) : s.Dead :=
  ⟨h.state, h.admission, List.map_eq_nil_iff.mp h.pending, h.events⟩

/-- A dead transport stays dead, whatever is called. -/
theorem Dead.life (h : s.Dead) (hlife : s.callView.Life s'.callView) : s'.Dead :=
  .of_view (hlife.dead ⟨h.state, h.admission, congrArg (List.map _) h.pending, h.events⟩)

theorem dead_fail (error : Error) (closeConnection : Bool)
    (h : s.state.isClosing = false ∨ s.Dead) : (s.fail error closeConnection).Dead := by
  have hfailed : (s.enterFailed error).Dead := .of_view (dead_drainClosing _ rfl)
  unfold fail
  split
  next hstate =>
    refine h.resolve_left ?_
    rw [hstate]
    nofun
  next hstate =>
    refine h.resolve_left ?_
    rw [hstate]
    nofun
  all_goals exact { hfailed with }

theorem dead_finishClose (result : Except Error Unit)
    (h : s.state.isClosing = false ∨ s.Dead) : (s.finishClose result).Dead := by
  cases result with
  | error error => exact dead_fail error false h
  | ok =>
    refine .of_view (dead_drainClosing _ ?_)
    dsimp only [closePools]
    cases s.state <;> rfl

theorem dead_beginClose (s : EngineMessageState) : s.beginClose.Dead :=
  .of_view (s.life_enterClosing_beginClose.dead s.dead_enterClosing)

theorem Alive.submitTracked (h : s.Alive) (batch : ProtocolBatch)
    (transition : PendingProtocolTransition) (refusal : Option Error) :
    (s.submitTracked batch transition refusal).Alive ∧
      Submitted s.view batch transition (s.submitTracked batch transition refusal).view := by
  rcases s.submitTracked_cases batch transition refusal with ⟨hopen, rfl⟩ | ⟨error, heq⟩
  · rw [submitTracked_granted hopen]
    exact ⟨{ h with }, .admitted⟩
  · have hsent : s.port.send [ProtocolCommand.unaccepted ⟨s.nextCommand, batch⟩ error] =
        { s.port with
          events := s.port.events ++ [ProtocolCommand.unaccepted ⟨s.nextCommand, batch⟩ error] } :=
      if_pos h.port
    rw [heq, hsent]
    exact ⟨⟨h.state, h.admission, h.port⟩, .refused error⟩

/-- The transport closes; what it has received stays. -/
structure Halts (s s' : EngineMessageState) : Prop where
  dead : s'.Dead
  received : s'.received = s.received

/-- The transport works on by an action, or it closes. -/
def Outcome (s : EngineMessageState) (out : Option ProtocolCommand)
    (s' : EngineMessageState) : Prop :=
  s'.Alive ∧ Action s.view out s'.view ∨ Halts s s' ∧ out = none

theorem fail_received (s : EngineMessageState) (error : Error) (closeConnection : Bool) :
    (s.fail error closeConnection).received = s.received := by
  have hfailed : (s.enterFailed error).received = s.received :=
    congrArg (·.received) (withoutSends_drainClosing _)
  unfold fail
  split
  · rfl
  · rfl
  all_goals exact hfailed

theorem Alive.fail (h : s'.Alive) (hreceived : s'.received = s.received) (error : Error)
    (closeConnection : Bool) : Halts s (s'.fail error closeConnection) :=
  ⟨dead_fail error closeConnection (.inl h.state),
    (s'.fail_received error closeConnection).trans hreceived⟩

theorem Alive.finishClose (h : s'.Alive) (hreceived : s'.received = s.received)
    (result : Except Error Unit) : Halts s (s'.finishClose result) := by
  refine ⟨dead_finishClose result (.inl h.state), Eq.trans ?_ hreceived⟩
  cases result with
  | error error => exact s'.fail_received error false
  | ok => exact congrArg (·.received) (withoutSends_drainClosing _)

theorem halts_beginClose (s : EngineMessageState) : Halts s s.beginClose := by
  have hlife := s.life_enterClosing_beginClose
  exact ⟨s.dead_beginClose,
    (hlife.received s.dead_enterClosing.state).trans s.enterClosing_received⟩

theorem tryMarkReady_view (s : EngineMessageState) : s.tryMarkReady.view =
      { s.view with
        state := TransportView.opened s.state s.helloSendComplete s.helloReceiveComplete } := by
  unfold tryMarkReady TransportView.opened
  split <;> rfl

theorem Alive.tryMarkReady (h : s.Alive) : s.tryMarkReady.Alive := by
  unfold EngineMessageState.tryMarkReady
  split
  · exact ⟨rfl, h.admission, h.port⟩
  · exact h

/-- A disposition that a live transport survives has no error, or left nothing
behind. -/
theorem failPotential_cases (h : s'.Alive) (hreceived : s'.received = s.received)
    (disposition : IoSubmissionDisposition) : Halts s (s'.failPotential disposition) ∨
      s'.failPotential disposition = s' ∧
        (disposition.potentiallyAccepted = true → disposition.error = none) := by
  unfold failPotential
  split
  · exact .inl (h.fail hreceived _ _)
  next hkept =>
    refine .inr ⟨rfl, fun haccepted => ?_⟩
    cases herror : disposition.error with
    | none => rfl
    | some error => exact absurd herror (hkept error haccepted)

theorem error_of_isAllAccepted {disposition : IoSubmissionDisposition}
    (h : disposition.isAllAccepted = true) : disposition.error = none := by
  cases disposition <;> first | rfl | cases h

/-- A live transport settles the oldest transition with a receipt. -/
theorem Alive.processReceipt (h : s.Alive) {id : Nat} {disposition : IoSubmissionDisposition}
    {events : List IoEvent} (hevents : s.port.events = .submission id disposition :: events)
    (refusal : Option Error) :
    Outcome s none ({ s with port := { s.port with events } }.processIoEvent
      (.submission id disposition) refusal) := by
  have hpopped : { s with port := { s.port with events } }.Alive := { h with }
  simp only [processIoEvent]
  split
  · exact .inr ⟨hpopped.fail (s := s) rfl _ _, rfl⟩
  next recorded transition rest htransitions =>
  generalize hsettled : { s with
    port := { s.port with events }
    pendingProtocolTransitions := rest
    applied := s.applied ++ [(recorded, id)] } = t
  have ht : t.Alive := by
    subst hsettled
    exact { h with }
  have hreceipt {u : EngineMessageState} (hu : u.Alive)
      (hplain : transition.heard = [] ∨ disposition.isAllAccepted = false)
      (hkept : disposition.potentiallyAccepted = true → disposition.error = none) (hview : u.view =
        { s.view with
          port := events
          transitions := rest
          owing := s.view.owing + transition.settled s.view.state disposition }) :
      Outcome s none u := by
    refine .inl ⟨hu, ?_⟩
    rw [hview]
    exact .receipt hevents htransitions hplain hkept
  have hpotential (hplain : transition.heard = [] ∨ disposition.isAllAccepted = false)
      (hnone : transition.settled s.view.state disposition = 0) :
      Outcome s none (t.failPotential disposition) := by
    rcases failPotential_cases (s := s) ht (by rw [← hsettled]) disposition with hdead | ⟨hsame, hkept⟩
    · exact .inr ⟨hdead, rfl⟩
    · rw [hsame]
      refine hreceipt ht hplain hkept ?_
      rw [hnone, ← hsettled]
      rfl
  have haccepted (hall : disposition.isAllAccepted = true) (hheard : transition.heard = [])
      (hnone : transition.settled s.view.state disposition = 0) : Outcome s none t := by
    refine hreceipt ht (.inl hheard) (fun _ => error_of_isAllAccepted hall) ?_
    rw [hnone, ← hsettled]
    rfl
  unfold applyProtocolDisposition
  cases transition with
  | receive returnCredit =>
    simp only
    split
    next hboth =>
      have hall := (Bool.and_eq_true_iff.mp hboth).1
      refine hreceipt { ht with } (.inl rfl) (fun _ => error_of_isAllAccepted hall) ?_
      simp only [settled, hboth, ← hsettled]
      rfl
    next hnot =>
      refine hpotential (.inl rfl) ?_
      simpa [settled] using hnot
  | send | helloSend =>
    simp only
    split
    next hall => exact haccepted hall rfl rfl
    next => exact hpotential (.inl rfl) rfl
  | controlSend credits =>
    simp only
    split
    next hall =>
      refine haccepted hall rfl ?_
      simp [settled, hall]
    next hall =>
      split
      next hpossible =>
        refine hpotential (.inl rfl) ?_
        simp [settled, hpossible]
      next hpossible =>
        have hsettles : (controlSend credits).settled
            s.view.state disposition = if t.state = .ready then credits else 0 := by
          rw [settled, if_neg (by simp [hall, hpossible]), ← hsettled]
          rfl
        split
        next hready =>
          refine hreceipt { ht with } (.inl rfl) (absurd · hpossible) ?_
          rw [hsettles, if_pos hready, ← hsettled]
          rfl
        next hready =>
          refine hreceipt ht (.inl rfl) (absurd · hpossible) ?_
          rw [hsettles, if_neg hready, ← hsettled]
          rfl
  | helloReceiveRepost capacity =>
    simp only
    split
    next hall =>
      refine .inl ⟨Alive.tryMarkReady { ht with }, ?_⟩
      rw [tryMarkReady_view, ← hsettled]
      exact .grant hevents htransitions hall
    next hall =>
      exact hpotential (.inr (by simpa using hall)) rfl

/-- A submission ends an action. -/
theorem Alive.submit (h : s'.Alive) {batch : ProtocolBatch}
    {transition : PendingProtocolTransition} (refusal : Option Error)
    (haction : ∀ w, Submitted s'.view batch transition w → Action s.view none w) :
    Outcome s none (s'.submitTracked batch transition refusal) := by
  obtain ⟨halive, hsubmitted⟩ := h.submitTracked batch transition refusal
  exact .inl ⟨halive, haction _ hsubmitted⟩

theorem view_completeRequest (s : EngineMessageState) (request : Nat)
    (result : Except Error Unit) : (s.completeRequest request result).view = s.view := by
  have hsame : (s.requests.modify request fun r =>
      { r with output := r.output.or (some result) }).map EngineSendRequest.view =
      (s.requests.map EngineSendRequest.view).modify request id :=
    map_modify (by intro; rfl) _ _
  rw [List.modify_id] at hsame
  simp only [view, completeRequest, updateRequest, hsame]

@[simp] theorem view_putDataSend (s : EngineMessageState) (mr : Option Mr) :
    (s.putDataSend mr).view = s.view := by
  cases mr <;> rfl

theorem view_rollbackUnacceptedSend (s : EngineMessageState) (request : Nat) :
    (s.rollbackUnacceptedSend request).view = s.view.rollback request := by
  have hmap : (s.requests.modify request fun r => { r with creditCommitted := false }).map
      EngineSendRequest.view =
      s.view.requests.modify request fun r => { r with committed := false } :=
    map_modify (by intro; rfl) _ _
  have hget : s.view.requests[request]? = (s.requests[request]?).map EngineSendRequest.view :=
    List.getElem?_map
  unfold rollbackUnacceptedSend TransportView.rollback
  cases hr : s.requests[request]? with
  | none => simp [hget, hr]
  | some r =>
    have hcommitted : ((s.view.requests[request]?).any (·.committed)) = r.creditCommitted := by
      rw [hget, hr]
      rfl
    simp only [hcommitted]
    split
    · simp only [← hmap, updateRequest]
      exact apply_ite view _ _ _
    · rfl

theorem Alive.of_withoutSends (h : s.Alive) (hkeep : s'.withoutSends = s.withoutSends) :
    s'.Alive where
  state := (congrArg (·.state.isClosing) hkeep).trans h.state
  admission := (congrArg (·.admissionOpen) hkeep).trans h.admission
  port := (congrArg (·.port.isOpen) hkeep).trans h.port

section Completion

variable {c : IoCompletionEvent} {events : List IoEvent} {len : Nat} {mr : Mr}

variable (h : s.Alive) (hevents : s.port.events = .completion c :: events)

include h hevents

/-- A frame that reaches a ready transport. -/
theorem Alive.processFrame (hcontext : c.context = .receive) (hresult : c.result = .ok len)
    (hmr : c.mr = some mr) (hready : s.state = .ready) (refusal : Option Error) : Outcome s none
      ({ s with port := { s.port with events } }.processFrame len mr refusal) := by
  have hpopped : { s with port := { s.port with events } }.Alive := { h with }
  have hfail (error : Error) : Outcome s none
      ({ s with port := { s.port with events } }.fail error true) :=
    .inr ⟨hpopped.fail (s := s) rfl _ _, rfl⟩
  unfold EngineMessageState.processFrame
  split
  · exact hfail _
  cases hheader : parseHeader mr.content len with
  | error => exact hfail _
  | ok header =>
    simp only
    split
    next htype =>
      split
      · exact hfail _
      · refine .inl ⟨{ h with }, ?_⟩
        exact .message hevents hcontext hresult hmr hready hheader htype
    split
    next htype =>
      cases hparse : parseCredit (payloadOf mr.content header) with
      | error => exact hfail _
      | ok =>
        simp only
        split
        · exact hfail _
        next hadd =>
          obtain ⟨-, hspent, -, rfl⟩ := validateAndAddCredits_eq_ok hadd
          apply Alive.submit
          · exact { h with }
          intro w hsubmit
          exact .credit hevents hcontext hresult hmr hready hheader htype hparse hspent hsubmit
    · exact hfail _

/-- A completed receive brings a HELLO before the transport is ready, and a frame
after. -/
theorem Alive.processReceive (hcontext : c.context = .receive) (refusal : Option Error) :
    Outcome s none
      ({ s with port := { s.port with events } }.processReceive c.result c.mr refusal) := by
  have hframe (len : Nat) (mr : Mr) (hresult : c.result = .ok len) (hmr : c.mr = some mr) :=
    h.processFrame hevents hcontext hresult hmr
  generalize hpop : { s with port := { s.port with events } } = popped at hframe ⊢
  have hpopped : popped.Alive := by
    subst hpop
    exact { h with }
  have hfail (error : Error) : Outcome s none (popped.fail error true) :=
    .inr ⟨hpopped.fail (s := s) (by rw [← hpop]) _ _, rfl⟩
  have hstate : popped.state = s.state := by rw [← hpop]
  unfold EngineMessageState.processReceive
  split
  next hcreated =>
    unfold processHelloReceive
    split
    · exact hfail _
    · exact hfail _
    next len mr hresult hmr =>
    split
    · exact hfail _
    next capacity hhello =>
    obtain ⟨_, _, hheader, htype, hparse, rfl⟩ := parseHelloReceive_eq_ok hhello
    split
    · exact hfail _
    next hfirst =>
      refine hpopped.submit refusal fun w hsubmit => ?_
      subst hpop
      exact .hear hevents hcontext hresult hmr hcreated
        (eq_false_of_ne_true hfirst) hheader htype hparse hsubmit
  next hready =>
    split
    · exact hfail _
    · exact hfail _
    next len mr hresult hmr => exact hframe len mr hresult hmr (hstate ▸ hready) refusal
  all_goals
    next hclosing =>
      have hlive := hpopped.state
      rw [hclosing] at hlive
      cases hlive

/-- The completion of a send, posted or not. -/
theorem Alive.processSend {request : Nat} (hcontext : c.context = .send request)
    (refusal : Option Error) : Outcome s none
      ({ s with port := { s.port with events } }.processIoCompletion c refusal) := by
  generalize hpop : { s with port := { s.port with events } } = popped
  have hpopped : popped.Alive := by
    subst hpop
    exact { h with }
  have hkeep (result : Except Error Unit) :
      (((if c.provenUnaccepted then popped.rollbackUnacceptedSend request
        else popped).putDataSend c.mr).completeRequest request result).withoutSends =
        popped.withoutSends := by
    split <;> simp
  have hdone (result : Except Error Unit) :
      let t := (((if c.provenUnaccepted then popped.rollbackUnacceptedSend request
        else popped).putDataSend c.mr).completeRequest request result)
      t.Alive ∧ Action s.view none t.view := by
    refine ⟨hpopped.of_withoutSends (hkeep result), ?_⟩
    rw [view_completeRequest, view_putDataSend]
    convert Action.sent (v := s.view) hevents hcontext using 1
    subst hpop
    split
    · exact view_rollbackUnacceptedSend _ _
    · rfl
  have hreceived (result : Except Error Unit) :
      (((if c.provenUnaccepted then popped.rollbackUnacceptedSend request
        else popped).putDataSend c.mr).completeRequest request result).received =
        s.received := by
    refine (congrArg (·.received) (hkeep result)).trans ?_
    rw [← hpop]
    rfl
  simp only [processIoCompletion, hcontext, processSendCompletion]
  generalize (if c.provenUnaccepted then popped.rollbackUnacceptedSend request
    else popped) = rolled at hdone hreceived ⊢
  split
  · exact .inl (hdone _)
  cases hresult : c.result with
  | ok => exact .inl (hdone _)
  | error =>
    simp only
    split
    · exact .inr ⟨(hdone _).1.fail (s := s) (hreceived _) _ _, rfl⟩
    · exact .inl (hdone _)

theorem Alive.processIoCompletion (refusal : Option Error) : Outcome s none
      ({ s with port := { s.port with events } }.processIoCompletion c refusal) := by
  have hpopped : { s with port := { s.port with events } }.Alive := { h with }
  have hfail (error : Error) : Outcome s none
      ({ s with port := { s.port with events } }.fail error true) :=
    .inr ⟨hpopped.fail (s := s) rfl _ _, rfl⟩
  cases hcontext : c.context with
  | send => exact h.processSend hevents hcontext refusal
  | receive =>
    simp only [EngineMessageState.processIoCompletion, hcontext]
    exact h.processReceive hevents hcontext refusal
  | helloSend =>
    simp only [EngineMessageState.processIoCompletion, hcontext]
    cases hresult : c.result with
    | error => exact hfail _
    | ok =>
      simp only
      split
      · exact hfail _
      next haccepted =>
        refine .inl ⟨Alive.tryMarkReady { hpopped with }, ?_⟩
        rw [tryMarkReady_view]
        exact .confirm hevents hcontext hresult (eq_false_of_ne_true haccepted)
  | controlSend =>
    simp only [EngineMessageState.processIoCompletion, hcontext]
    cases c.mr with
    | none => exact hfail _
    | some =>
      cases hresult : c.result with
      | ok =>
        refine .inl ⟨{ h with }, .returned hevents hcontext fun _ => ?_⟩
        rw [hresult]
        rfl
      | error =>
        simp only
        split
        · refine .inr ⟨Alive.fail ?_ ?_ _ _, rfl⟩
          · exact { h with }
          · rfl
        next hready => exact .inl ⟨{ h with }, .returned hevents hcontext (absurd · hready)⟩

end Completion

section Event

variable {events : List EngineMessageEvent} {request : Nat}

theorem view_startRequest {r : EngineSendRequest} {mr : Mr} (hr : s.requests[request]? = some r)
    (hmr : r.mr = some mr) : ∃ t, s.startRequest request =
        (t, if r.cancelled then .cancelled mr r.credit else .post mr r.credit r.frameLen) ∧
      t.view = { s.view with requests := s.view.requests.modify request .taken } ∧
      t.withoutSends = s.withoutSends := by
  have hmap : (s.requests.modify request fun r => { r with mr := none, credit := false }).map
      EngineSendRequest.view = s.view.requests.modify request .taken :=
    map_modify (by intro; rfl) _ _
  refine ⟨s.updateRequest request fun r => { r with mr := none, credit := false }, ?_, ?_, rfl⟩
  · simp only [startRequest, hr, hmr]
  · rw [← hmap]
    rfl

/-- The credit of a request moves from the request to the ones in flight. -/
theorem view_spend {t : EngineMessageState} {v : TransportView} {r : EngineSendRequest}
    (ht : t.view = { v with requests := v.requests.modify request .taken })
    (hr : v.requests[request]? = some r.view) : (if r.credit then
      { t with creditsInFlight := t.creditsInFlight + 1 }.updateRequest request
        fun r => { r with creditCommitted := true }
    else t).view =
      { v with
        requests := v.requests.modify request .spent
        inFlight := v.inFlight + r.credit.toNat } := by
  split
  next hcredit =>
    have hmap : (t.requests.modify request fun r => { r with creditCommitted := true }).map
        EngineSendRequest.view =
        t.view.requests.modify request fun r => { r with committed := true } :=
      map_modify (by intro; rfl) _ _
    have hspent : (v.requests.modify request .taken).modify request
        (fun r => { r with committed := true }) = v.requests.modify request .spent := by
      rw [List.modify_modify_eq]
      exact modify_congr hr
        (by simp [RequestView.spent, RequestView.taken, EngineSendRequest.view, hcredit])
    change { t.view with
      inFlight := t.view.inFlight + 1
      requests := (t.requests.modify request fun r => { r with creditCommitted := true }).map
        EngineSendRequest.view } = _
    rw [hmap, ht, hcredit, hspent]
    rfl
  next hcredit =>
    have hsame : v.requests.modify request .taken = v.requests.modify request .spent :=
      modify_congr hr (by simp [RequestView.spent, RequestView.taken,
        EngineSendRequest.view, hcredit])
    rw [ht, hsame, eq_false_of_ne_true hcredit]
    rfl

/-- A send request is posted, or it gives its buffer and credit back. -/
theorem Alive.processSendRequest (h : s.Alive)
    (hevents : s.events = .sendRequest request :: events) (refusal : Option Error) :
    Outcome s none ({ s with events }.processSendRequest request refusal) := by
  generalize hpop : { s with events } = popped
  have hpopped : popped.Alive := by
    subst hpop
    exact { h with }
  have hview : popped.view = { s.view with events } := by
    subst hpop
    rfl
  have hskip : Outcome s none popped := by
    refine .inl ⟨hpopped, ?_⟩
    rw [hview]
    exact .skip hevents nofun
  unfold EngineMessageState.processSendRequest
  cases hr : popped.requests[request]? with
  | none => simpa only [startRequest, hr] using hskip
  | some r =>
    cases hmr : r.mr with
    | none => simpa only [startRequest, hr, hmr] using hskip
    | some =>
      obtain ⟨t, hstart, htaken, hkeep⟩ := view_startRequest hr hmr
      have ht := hpopped.of_withoutSends hkeep
      have hvr : s.view.requests[request]? = some r.view := by
        subst hpop
        simp [view, hr]
      have hrelease : (t.dropCredit r.credit).Alive ∧
          Action s.view none (t.dropCredit r.credit).view := by
        refine ⟨ht.of_withoutSends (by simp), ?_⟩
        convert Action.release (v := s.view) hevents hvr using 1
        rw [dropCredit]
        split
        next hcredit =>
          change { t.view with available := t.view.available + 1 } = _
          rw [htaken, hview, EngineSendRequest.view, hcredit]
          rfl
        next hcredit =>
          rw [htaken, hview, EngineSendRequest.view, eq_false_of_ne_true hcredit]
          rfl
      rw [hstart]
      cases hcancelled : r.cancelled with
      | true =>
        simp only [if_true]
        refine .inl ⟨hrelease.1.of_withoutSends (by simp), ?_⟩
        rw [view_putDataSend]
        exact hrelease.2
      | false =>
        simp only [Bool.false_eq_true, if_false]
        split
        next hready =>
          apply Alive.submit
          · exact ht.of_withoutSends (by split <;> rfl)
          intro w hsubmit
          rw [hview] at htaken
          rw [view_spend htaken hvr] at hsubmit
          refine .send hevents ?_ hvr hmr hsubmit
          have hstate := congrArg TransportView.state htaken
          exact hstate.symm.trans hready
        next hready =>
          refine .inl ⟨hrelease.1.of_withoutSends (by simp), ?_⟩
          rw [view_completeRequest, view_putDataSend]
          exact hrelease.2

theorem Alive.startHelloSend (h : s.Alive) (hevents : s.events = .start :: events)
    (refusal : Option Error) : Outcome s none ({ s with events }.startHelloSend refusal) := by
  unfold EngineMessageState.startHelloSend
  split
  · exact .inl ⟨{ h with }, .skip hevents nofun⟩
  next hfirst =>
    rw [not_or] at hfirst
    have hposted : s.helloSendPosted = false := eq_false_of_ne_true hfirst.2
    simp only
    split
    · refine .inr ⟨Alive.fail ?_ ?_ _ _, rfl⟩
      · exact { h with }
      · rfl
    next mr hmr =>
      apply Alive.submit
      · exact { h with }
      intro w hsubmit
      exact .announce hevents hposted hsubmit

theorem Alive.processRepost (h : s.Alive) {mr : Mr} (hevents : s.events = .repost mr :: events)
    (refusal : Option Error) : Outcome s none ({ s with events }.processRepost mr refusal) := by
  have hlive := h.state
  unfold EngineMessageState.processRepost
  split
  next hready =>
    apply Alive.submit
    · exact { h with }
    intro w hsubmit
    exact .repost hevents hready hsubmit
  next hready =>
    refine .inl ⟨{ h with }, .skip hevents fun _ => ?_⟩
    change s.state = .created
    cases hstate : s.state with
    | created => rfl
    | ready => exact absurd hstate hready
    | closing | stopped | failed =>
      rw [hstate] at hlive
      cases hlive

theorem Alive.processEvent (h : s.Alive) {event : EngineMessageEvent}
    (hevents : s.events = event :: events) (refusal : Option Error) :
    Outcome s none ({ s with events }.processEvent event refusal) := by
  cases event with
  | start => exact h.startHelloSend hevents refusal
  | repost => exact h.processRepost hevents refusal
  | sendRequest => exact h.processSendRequest hevents refusal

end Event

theorem Alive.flushOneCredit (h : s.Alive) {refusal : Option Error}
    (hflush : s.flushOneCredit refusal = some s') : Outcome s none s' := by
  unfold EngineMessageState.flushOneCredit at hflush
  split at hflush
  · cases hflush
  next hpending =>
  rw [not_or, not_not] at hpending
  split at hflush
  · cases hflush
  next mr entries hentries =>
  cases hflush
  apply Alive.submit
  · exact { h with }
  intro w hsubmit
  exact .flush hpending.2 (Nat.pos_of_ne_zero hpending.1) hsubmit

theorem isCancelled_context {command : ProtocolCommand} (h : s.isCancelled command = true) :
    ∃ request, command.context = .send request := by
  unfold isCancelled at h
  split at h
  next request hbatch => exact ⟨request, by rw [ProtocolCommand.context, hbatch]⟩
  · cases h

theorem Alive.not_lost (h : s.Alive) : s.receiverLost = false := by
  simp [receiverLost, h.admission, h.port]

theorem Alive.pollAdmission (h : s.Alive) {permit : PermitPoll} {out : Option ProtocolCommand}
    (hpoll : s.pollAdmission permit = some (s', out)) : Outcome s out s' := by
  have hsend (events : List IoEvent) :
      s.port.send events = { s.port with events := s.port.events ++ events } := if_pos h.port
  obtain ⟨_, _, hadmission, hpolled⟩ := pollAdmission_cases hpoll
  cases hpolled with
  | lost hlost => cases h.not_lost.symm.trans hlost
  | cancelled _ hcancelled =>
    obtain ⟨_, hcontext⟩ := isCancelled_context hcancelled
    rw [hsend]
    exact .inl ⟨{ h with }, .cancel hadmission hcontext⟩
  | rejected _ _ error =>
    rw [hsend]
    exact .inl ⟨{ h with }, .reject hadmission error⟩
  | granted => exact .inl ⟨{ h with }, .handOver hadmission⟩

/-- An iteration of a live transport is an action, or it closes the transport. -/
theorem Alive.iteration (h : s.Alive) {env : DriveEnv} {out : Option ProtocolCommand}
    (hiteration : MessageTransportDriver.Iteration s env s' out) : Outcome s out s' := by
  cases hiteration with
  | admission _ hpoll => exact h.pollAdmission hpoll
  | credit hflush => exact h.flushOneCredit hflush
  | protocol hevents => exact h.processEvent hevents _
  | @io event events hevents =>
    have hpopped : { s with port := { s.port with events } }.Alive := { h with }
    cases event with
    | submission => exact h.processReceipt hevents _
    | terminal event =>
      refine .inr ⟨?_, rfl⟩
      cases event with
      | disconnected => exact hpopped.fail (s := s) rfl _ _
      | terminal => exact hpopped.fail (s := s) rfl _ _
      | closed result => exact hpopped.finishClose (s := s) rfl result
    | completion =>
      have hstate := h.state
      simp only [processIoEvent, hstate, Bool.false_eq_true, if_false]
      exact h.processIoCompletion hevents _

end EngineMessageState

end RdmaIo.Message
