/-
Delivery of received messages up to a disconnect.

A DATA frame passes through four queues: the completions that the reactor has
reaped, the events of its turn, the port of the connection, and the messages
that wait for `recv`.  The CM event adds its terminal event behind the turn, so
it overtakes the frames that are reaped and not yet dispatched.
-/
import RdmaIo.Message.Calls

namespace RdmaIo.Message

open EngineMessageState
open MessageNode
open List
open IoCompletionEvent (data)

def IoEvent.isTerminal : IoEvent → Bool
  | terminal _ => true
  | completion _ | submission _ _ => false

/-- What the application reads from a message. -/
def CompletedRecv.payload (message : CompletedRecv) : List UInt8 :=
  (message.mr.content.drop headerSize).take message.byteLen

/-- The frames among the events that come before the first terminal event. -/
def dataBefore (events : List IoEvent) : List (List UInt8) :=
  (events.takeWhile fun e => !e.isTerminal).filterMap IoEvent.data

namespace EngineMessageState

/-- A received frame that the transport can take in its state. -/
def takesFrame (s : EngineMessageState) (len : Nat) (mr : Mr) : Bool :=
  match s.state with
  | .created => (s.parseHelloReceive len mr).isOk && !s.helloReceiveComplete
  | .ready =>
    len ≤ s.mrSize &&
      match parseHeader mr.content len with
      | .error _ => false
      | .ok header =>
        if header.frameType = frameData then header.payloadLen ≤ s.bufferSize
        else if header.frameType = frameCredit then
          match parseCredit (payloadOf mr.content header) with
          | .error _ => false
          | .ok credits =>
            (checkCreditReturn credits s.creditsInFlight s.remoteCredits s.peerRecvCapacity).isOk
        else false
  | .closing | .stopped | .failed => true

/-- An event that reports no failure: operations succeed, frames can be taken,
receipts find a transition, and the only terminal event is a disconnect. -/
def tolerates (s : EngineMessageState) : IoEvent → Bool
  | .terminal .disconnected => true
  | .terminal _ => false
  | .submission _ disposition =>
    !s.pendingProtocolTransitions.isEmpty &&
      !(disposition.potentiallyAccepted && disposition.error.isSome)
  | .completion event =>
    match event.context with
    | .helloSend => event.result.isOk && !event.provenUnaccepted
    | .controlSend => event.result.isOk && event.mr.isSome
    | .send _ =>
      event.cancelledBeforeSubmit || event.result.isOk || event.result == .error .capacityExhausted
    | .receive =>
      match event.result, event.mr with
      | .ok len, some mr => s.takesFrame len mr
      | _, _ => false

end EngineMessageState

/-- A run of an endpoint with what its application has seen. -/
structure DeliveryRun where
  node : MessageNode
  /-- The frames reaped before the disconnect was handled. -/
  reaped : List (List UInt8)
  disconnected : Bool
  /-- The messages that `recv` has returned. -/
  returned : List (List UInt8)
  /-- `recv` has reported an error. -/
  reported : Bool
deriving Repr, DecidableEq

inductive DeliveryLabel where
  | node (label : NodeLabel)
  | recvError
deriving Repr, DecidableEq

namespace DeliveryRun

def new (node : MessageNode) : DeliveryRun where
  node := node
  reaped := []
  disconnected := false
  returned := []
  reported := false

/-- What a step of the endpoint adds to the record. -/
def record (r : DeliveryRun) (node : MessageNode) : NodeLabel → DeliveryRun
  | .reap =>
    { r with
      node
      reaped :=
        if r.disconnected then r.reaped
        else r.reaped ++ (r.node.cq.head?.bind IoCompletionEvent.data).toList }
  | .terminate .disconnected => { r with node, disconnected := true }
  | .recv =>
    { r with
      node
      returned :=
        r.returned ++ (r.node.msg.received.head?.map CompletedRecv.payload).toList }
  | _ => { r with node }

def step (r : DeliveryRun) : DeliveryLabel → Option DeliveryRun
  | .node label => (r.node.step label).map fun node => r.record node label
  | .recvError =>
    -- `recv` looks for a message before it looks at the state
    if r.node.msg.received.isEmpty && r.node.msg.state.isClosing then
      some { r with reported := true }
    else none

end DeliveryRun

/-- Events that carry no frame and end nothing. -/
def Harmless (events : List IoEvent) : Prop :=
  ∀ e ∈ events, e.data = none ∧ e.isTerminal = false

theorem harmless_nil : Harmless [] := nofun

theorem harmless_unaccepted (command : ProtocolCommand) (error : Error) :
    Harmless [command.unaccepted error] := by
  intro e he
  obtain rfl := mem_singleton.mp he
  refine ⟨?_, rfl⟩
  simp [IoEvent.data, data, ProtocolCommand.unaccepted]

variable {es : List IoEvent}

theorem Harmless.append {fs : List IoEvent} (hes : Harmless es) (hfs : Harmless fs) :
    Harmless (es ++ fs) := by
  intro e he
  exact (mem_append.mp he).elim (hes e) (hfs e)

theorem IoEventPort.send_nil (port : IoEventPort) : port.send [] = port := by
  unfold IoEventPort.send
  split
  · simp
  · rfl

theorem IoEventPort.send_send (port : IoEventPort) (es fs : List IoEvent) :
    (port.send es).send fs = port.send (es ++ fs) := by
  cases hopen : port.isOpen <;> simp [IoEventPort.send, hopen]

namespace EngineMessageState

/-- The HELLO buffer is there as long as it has not been used. -/
def helloReady (s : EngineMessageState) : Bool :=
  s.helloSendPosted || s.helloSend.isSome

/-- A live transport works on without failing and without a new message. -/
structure Quiet (s s' : EngineMessageState) : Prop where
  received : s'.received = s.received
  state : s'.state.isClosing = s.state.isClosing
  port : ∃ events, Harmless events ∧ s'.port = s.port.send events
  hello : s.helloReady = true → s'.helloReady = true

variable {s s₁ s' : EngineMessageState}

theorem Quiet.of_keep (hreceived : s'.received = s.received)
    (hstate : s'.state.isClosing = s.state.isClosing) (hport : s'.port = s.port)
    (hhello : s.helloReady = true → s'.helloReady = true) : Quiet s s' :=
  ⟨hreceived, hstate, ⟨[], harmless_nil, by rw [hport, s.port.send_nil]⟩, hhello⟩

theorem Quiet.refl (s : EngineMessageState) : Quiet s s :=
  .of_keep rfl rfl rfl id

theorem Quiet.trans (h₁ : Quiet s s₁) (h₂ : Quiet s₁ s') : Quiet s s' := by
  obtain ⟨es, hes, hport₁⟩ := h₁.port
  obtain ⟨fs, hfs, hport₂⟩ := h₂.port
  refine ⟨h₂.received.trans h₁.received, h₂.state.trans h₁.state,
    ⟨es ++ fs, hes.append hfs, ?_⟩, fun hready => h₂.hello (h₁.hello hready)⟩
  rw [hport₂, hport₁, IoEventPort.send_send]

theorem Quiet.of_withoutSends (h : s'.withoutSends = s.withoutSends) : Quiet s s' :=
  .of_keep (congrArg (·.received) h) (congrArg (·.state.isClosing) h) (congrArg (·.port) h)
    fun hready => (congrArg helloReady h :
      s'.withoutSends.helloReady = s.withoutSends.helloReady).trans hready

section

variable (s : EngineMessageState)

theorem quiet_tryMarkReady : Quiet s s.tryMarkReady := by
  unfold tryMarkReady
  split
  next hready =>
    have hstate : s.state = .created := by simp_all
    exact .of_keep rfl (by rw [hstate]; rfl) rfl id
  · exact .refl s

/-- A receipt that reports no failure. -/
theorem quiet_applyProtocolDisposition (transition : PendingProtocolTransition)
    (disposition : IoSubmissionDisposition)
    (h : (disposition.potentiallyAccepted && disposition.error.isSome) = false) :
    Quiet s (s.applyProtocolDisposition transition disposition) := by
  have hfail : s.failPotential disposition = s := by
    unfold failPotential
    split
    · simp_all
    · rfl
  have hkeep := Quiet.refl s
  unfold applyProtocolDisposition
  cases transition with
  | receive =>
    simp only [hfail]
    split
    · exact .of_keep rfl rfl rfl id
    · exact hkeep
  | send | helloSend =>
    simp only [hfail]
    split <;> exact hkeep
  | controlSend =>
    simp only [hfail]
    repeat' split
    all_goals first | exact hkeep | exact .of_keep rfl rfl rfl id
  | helloReceiveRepost =>
    simp only [hfail]
    split
    · refine Quiet.trans ?_ (quiet_tryMarkReady _)
      exact .of_keep rfl rfl rfl id
    · exact hkeep

theorem quiet_submitTracked (batch : ProtocolBatch) (transition : PendingProtocolTransition)
    (refusal : Option Error) : Quiet s (s.submitTracked batch transition refusal) := by
  rcases s.submitTracked_cases batch transition refusal with ⟨hopen, rfl⟩ | ⟨error, heq⟩
  · rw [submitTracked_granted hopen]
    exact .of_keep rfl rfl rfl id
  · rw [heq]
    exact ⟨rfl, rfl, ⟨_, harmless_unaccepted ⟨s.nextCommand, batch⟩ error, rfl⟩, id⟩

theorem quiet_processEvent (event : EngineMessageEvent) (refusal : Option Error)
    (hhello : s.helloReady = true) : Quiet s (s.processEvent event refusal) := by
  cases event with
  | repost =>
    simp only [processEvent, processRepost]
    split
    · exact quiet_submitTracked _ _ _ _
    · exact .refl s
  | start =>
    simp only [processEvent, startHelloSend]
    split
    · exact .refl s
    next hstart =>
      split
      next hnone => simp_all [helloReady]
      · refine Quiet.trans ?_ (quiet_submitTracked _ _ _ _)
        exact .of_keep rfl rfl rfl fun _ => rfl
  | sendRequest request =>
    have hstart := Quiet.of_withoutSends (s.withoutSends_startRequest request)
    simp only [processEvent, processSendRequest]
    rcases hs : s.startRequest request with ⟨s₁, action⟩
    rw [hs] at hstart
    cases action with
    | alreadyHandled => exact hstart
    | cancelled => exact hstart.trans (.of_withoutSends (by simp))
    | post mr credit frameLen =>
      simp only
      split
      · refine (hstart.trans ?_).trans (quiet_submitTracked _ _ _ _)
        split <;> exact .of_withoutSends rfl
      · exact hstart.trans (.of_withoutSends (by simp))

end

theorem quiet_flushOneCredit {refusal : Option Error}
    (h : s.flushOneCredit refusal = some s') : Quiet s s' := by
  unfold flushOneCredit at h
  split at h
  · cases h
  · split at h
    · cases h
    · cases h
      refine Quiet.trans ?_ (quiet_submitTracked _ _ _ _)
      exact .of_keep rfl rfl rfl id

theorem harmless_cancelledEvents (command : ProtocolCommand) :
    Harmless command.cancelledEvents := by
  intro e he
  simp only [ProtocolCommand.cancelledEvents, mem_cons, not_mem_nil, or_false] at he
  rcases he with rfl | rfl <;>
    simp [IoEvent.data, data, ProtocolCommand.cancelled, IoEvent.isTerminal]

theorem harmless_rejectedEvents (command : ProtocolCommand) (error : Error) :
    Harmless (command.rejectedEvents error) := by
  refine Harmless.append (harmless_unaccepted command error) ?_
  intro e he
  obtain rfl := mem_singleton.mp he
  exact ⟨rfl, rfl⟩

theorem quiet_pollAdmission {permit : PermitPoll} {out : Option ProtocolCommand}
    (h : s.pollAdmission permit = some (s', out)) : Quiet s s' := by
  obtain ⟨command, rest, -, hpolled⟩ := pollAdmission_cases h
  have hdeliver (events : List IoEvent) (hevents : Harmless events) :
      Quiet s { s with admissionPending := rest, port := s.port.send events } :=
    ⟨rfl, rfl, ⟨events, hevents, rfl⟩, id⟩
  have hpopped : Quiet s { s with admissionPending := rest } := .of_keep rfl rfl rfl id
  cases hpolled with
  | lost | granted => exact hpopped
  | cancelled => exact hdeliver _ (harmless_cancelledEvents command)
  | rejected _ _ error => exact hdeliver _ (harmless_rejectedEvents command error)

/-- What a live transport does with an event: it takes the frame, if there is
one, and works on. -/
inductive Takes (s : EngineMessageState) : EngineMessageState → Option (List UInt8) → Prop
  | quiet {s' : EngineMessageState} (h : Quiet s s') : Takes s s' none
  | message (message : CompletedRecv) :
      Takes s { s with received := s.received ++ [message] } (some message.payload)

variable {c : IoCompletionEvent}

/-- The frame of a receive completion, in the state in which it is taken. -/
theorem takes_processReceive {len : Nat} {mr : Mr} (refusal : Option Error)
    (hlive : s.state.isClosing = false) (htakes : s.takesFrame len mr = true)
    (hcontext : c.context = .receive) (hresult : c.result = .ok len) (hmr : c.mr = some mr) :
    Takes s (s.processReceive (.ok len) (some mr) refusal) c.data := by
  have hdata : c.data = dataOf mr.content len := by
    simp only [data, hcontext, hresult, hmr]
  rw [dataOf] at hdata
  unfold processReceive
  unfold takesFrame at htakes
  cases hstate : s.state with
  | closing | stopped | failed => simp [hstate, TransportState.isClosing] at hlive
  | created =>
    simp only [hstate, Bool.and_eq_true, Bool.not_eq_true'] at htakes
    obtain ⟨hparse, hfirst⟩ := htakes
    cases hhello : s.parseHelloReceive len mr with
    | error => simp [hhello, Except.isOk, Except.toBool] at hparse
    | ok =>
      obtain ⟨header, _, hheader, htype, -⟩ := parseHelloReceive_eq_ok hhello
      have hnone : c.data = none := by
        rw [hdata, hheader]
        simp [htype, frameHello, frameData]
      simp only [hnone, processHelloReceive, hhello, hfirst, Bool.false_eq_true, if_false]
      exact .quiet (quiet_submitTracked _ _ _ _)
  | ready =>
    simp only [hstate, Bool.and_eq_true, decide_eq_true_eq] at htakes
    obtain ⟨hlen, hframe⟩ := htakes
    cases hheader : parseHeader mr.content len with
    | error => simp [hheader] at hframe
    | ok header =>
      simp only [hheader] at hframe hdata
      simp only [processFrame, if_neg (not_lt.mpr hlen), hheader, hdata]
      by_cases htype : header.frameType = frameData
      · simp only [htype, if_true, decide_eq_true_eq] at hframe
        simp only [htype, if_true, if_neg (not_lt.mpr hframe)]
        exact .message { mr, byteLen := header.payloadLen }
      · simp only [htype, if_false] at hframe ⊢
        split at hframe
        next hcredit =>
          simp only [hcredit, if_true]
          cases hparse : parseCredit (payloadOf mr.content header) with
          | error => simp [hparse] at hframe
          | ok credits =>
            simp only [hparse] at hframe
            cases hcheck : checkCreditReturn credits s.creditsInFlight
                s.remoteCredits s.peerRecvCapacity with
            | error => simp [hcheck, Except.isOk, Except.toBool] at hframe
            | ok =>
              simp only [validateAndAddCredits, hcheck, bind, Except.bind, pure, Except.pure]
              refine .quiet (Quiet.trans ?_ (quiet_submitTracked _ _ _ _))
              exact .of_withoutSends rfl
        next => cases hframe

theorem quiet_processSendCompletion {request : Nat}
    (h : c.result.isOk = true ∨ c.result = .error .capacityExhausted) :
    Quiet s (s.processSendCompletion request c) := by
  have hrollback : Quiet s
      (if c.provenUnaccepted then s.rollbackUnacceptedSend request else s) := by
    split
    · exact .of_withoutSends (by simp)
    · exact .refl s
  unfold processSendCompletion
  cases hresult : c.result with
  | ok => exact hrollback.trans (.of_withoutSends (by simp))
  | error error =>
    have hcapacity : error = .capacityExhausted := by
      simpa [hresult, Except.isOk, Except.toBool] using h
    subst hcapacity
    simp only [normalizeCompletionError, ne_eq, not_true_eq_false, and_false, if_false]
    exact hrollback.trans (.of_withoutSends (by simp))

/-- A live transport takes an event that it tolerates. -/
theorem takes_processIoEvent {event : IoEvent} (refusal : Option Error)
    (hlive : s.state.isClosing = false) (htolerates : s.tolerates event = true)
    (hterminal : event.isTerminal = false) :
    Takes s (s.processIoEvent event refusal) event.data := by
  cases event with
  | terminal => cases hterminal
  | submission =>
    simp only [tolerates, Bool.and_eq_true, Bool.not_eq_true', isEmpty_eq_false_iff] at htolerates
    obtain ⟨hpending, hdisposition⟩ := htolerates
    obtain ⟨⟨_, _⟩, _, hcons⟩ := exists_cons_of_ne_nil hpending
    simp only [processIoEvent, hcons, IoEvent.data]
    refine .quiet (Quiet.trans ?_ (quiet_applyProtocolDisposition _ _ _ hdisposition))
    exact .of_keep rfl rfl rfl id
  | completion c =>
    simp only [processIoEvent, hlive, Bool.false_eq_true, if_false, IoEvent.data]
    simp only [tolerates] at htolerates
    unfold processIoCompletion
    cases hcontext : c.context with
    | receive =>
      simp only [hcontext] at htolerates ⊢
      cases hresult : c.result with
      | error => simp [hresult] at htolerates
      | ok =>
        cases hmr : c.mr with
        | none => simp [hresult, hmr] at htolerates
        | some =>
          simp only [hresult, hmr] at htolerates
          exact takes_processReceive refusal hlive htolerates hcontext hresult hmr
    | helloSend =>
      have hnone : c.data = none := by simp [data, hcontext]
      simp only [hcontext, Bool.and_eq_true, Bool.not_eq_true'] at htolerates
      rw [hnone]
      cases hresult : c.result with
      | error => simp [hresult, Except.isOk, Except.toBool] at htolerates
      | ok =>
        simp only [htolerates.2, Bool.false_eq_true, if_false]
        refine .quiet (Quiet.trans ?_ (quiet_tryMarkReady _))
        exact .of_keep rfl rfl rfl id
    | controlSend =>
      have hnone : c.data = none := by simp [data, hcontext]
      simp only [hcontext, Bool.and_eq_true] at htolerates
      obtain ⟨_, hmr⟩ := Option.isSome_iff_exists.mp htolerates.2
      rw [hnone]
      cases hresult : c.result with
      | error => simp [hresult, Except.isOk, Except.toBool] at htolerates
      | ok =>
        simp only [hmr]
        exact .quiet (.of_keep rfl rfl rfl id)
    | send =>
      have hnone : c.data = none := by simp [data, hcontext]
      simp only [hcontext, Bool.or_eq_true, beq_iff_eq] at htolerates
      rw [hnone]
      refine .quiet ?_
      simp only
      split
      next =>
        split
        · exact .of_withoutSends (by simp)
        · exact .of_withoutSends (by simp)
      next hcancelled =>
        refine quiet_processSendCompletion ?_
        simpa [hcancelled, or_assoc] using htolerates

/-- The state and the waiting messages stay. -/
structure Settled (s s' : EngineMessageState) : Prop where
  state : s'.state = s.state
  received : s'.received = s.received

theorem fail_of_live (hlive : s.state.isClosing = false) (error : Error) (closeConnection : Bool) :
    (s.fail error closeConnection).state = .failed ∧
      (s.fail error closeConnection).received = s.received := by
  have hstate : (s.enterFailed error).state = .failed :=
    congrArg (·.state) (withoutSends_drainClosing _)
  have hreceived : (s.enterFailed error).received = s.received :=
    congrArg (·.received) (withoutSends_drainClosing _)
  unfold fail
  split <;> simp_all [TransportState.isClosing]

end EngineMessageState

theorem dataBefore_cons {e : IoEvent} (h : e.isTerminal = false) (es : List IoEvent) :
    dataBefore (e :: es) = e.data.toList ++ dataBefore es := by
  simp only [dataBefore, takeWhile_cons, h, Bool.not_false, if_true]
  cases hdata : e.data with
  | none => simp [hdata]
  | some => simp [hdata]

theorem dataBefore_harmless {hs : List IoEvent} (h : Harmless hs) (es fs : List IoEvent) :
    dataBefore (es ++ hs ++ fs) = dataBefore (es ++ fs) := by
  induction es with
  | cons e _ ih =>
    cases he : e.isTerminal with
    | true => simp [dataBefore, he]
    | false =>
      simp only [cons_append, dataBefore_cons he]
      rw [ih]
  | nil =>
    induction hs with
    | nil => rfl
    | cons e hs ih =>
      obtain ⟨hdata, hterminal⟩ := h e mem_cons_self
      have htail : Harmless hs := fun e he => h e (mem_cons_of_mem _ he)
      simpa [dataBefore_cons hterminal, hdata] using ih htail

/-- What comes after a terminal event does not count. -/
theorem dataBefore_append_of_any (h : es.any IoEvent.isTerminal = true) (fs : List IoEvent) :
    dataBefore (es ++ fs) = dataBefore es := by
  induction es with
  | nil => cases h
  | cons e _ ih =>
    cases he : e.isTerminal with
    | true => simp [dataBefore, he]
    | false =>
      simp only [any_cons, he, Bool.false_or] at h
      simp only [cons_append, dataBefore_cons he, ih h]

theorem dataBefore_append_of_not_any (h : es.any IoEvent.isTerminal = false) (fs : List IoEvent) :
    dataBefore (es ++ fs) = dataBefore es ++ dataBefore fs := by
  induction es with
  | nil => rfl
  | cons e es ih =>
    simp only [any_cons, Bool.or_eq_false_iff] at h
    simp only [cons_append, dataBefore_cons h.1, ih h.2, append_assoc]

theorem Harmless.any_isTerminal (h : Harmless es) : es.any IoEvent.isTerminal = false := by
  simp only [any_eq_false, Bool.not_eq_true]
  exact fun e he => (h e he).2

namespace MessageNode

open EngineMessageState

variable {n n' : MessageNode} {l : NodeLabel}

/-- A failed transport stays failed and keeps its messages, whatever happens. -/
theorem settled_step_of_failed (hfailed : n.msg.state = .failed) (hrecv : l ≠ .recv)
    (hstep : n.step l = some n') : Settled n.msg n'.msg := by
  have hlife := life_step hrecv hstep
  have hclosing : n.msg.state.isClosing = true := by rw [hfailed]; rfl
  exact ⟨(hlife.failed hfailed).trans hfailed.symm, hlife.received hclosing⟩

theorem harmless_serviceCommand (n : MessageNode) (command : ProtocolCommand)
    (terminalError : Option Error) (outcome : PostOutcome) :
    Harmless (n.serviceCommand command terminalError outcome).2 := by
  have hreceipt (disposition : IoSubmissionDisposition) :
      Harmless [.submission command.id disposition] := by
    intro e he
    obtain rfl := mem_singleton.mp he
    exact ⟨rfl, rfl⟩
  unfold serviceCommand execute
  repeat' split
  · exact harmless_nil
  · exact harmless_cancelledEvents command
  · exact harmless_rejectedEvents command _
  · exact harmless_rejectedEvents command _
  · exact (harmless_unaccepted command _).append (hreceipt _)
  all_goals exact hreceipt _

def HarmlessQueue (queue : List ProtocolQueueEntry) : Prop :=
  ∀ events, .publication events ∈ queue → Harmless events

/-- Servicing adds harmless events to the turn and changes nothing else that
delivery depends on. -/
theorem service_frame {terminalError : Option Error} {outcome : PostOutcome} {room : Nat}
    (hqueue : HarmlessQueue n.queue) (h : n.service terminalError outcome room = some n') :
    ∃ events, Harmless events ∧ n'.msg = n.msg ∧ n'.turn = n.turn ++ events ∧
      n'.completions = n.completions ∧ HarmlessQueue n'.queue := by
  have hbounded (m : MessageNode) (events : List IoEvent) (hevents : Harmless events)
      (hm : HarmlessQueue m.queue) : HarmlessQueue (m.appendBounded events room).queue := by
    intro es hes
    simp only [appendBounded] at hes
    split at hes
    · exact hm es hes
    · rcases mem_cons.mp hes with heq | hes
      · obtain rfl := ProtocolQueueEntry.publication.inj heq
        exact fun e he => hevents e (mem_of_mem_drop he)
      · exact hm es hes
  have htake {events : List IoEvent} (hevents : Harmless events) : Harmless (events.take room) :=
    fun e he => hevents e (mem_of_mem_take he)
  unfold service at h
  split at h
  · cases h
  next events _ hcons =>
    cases h
    rw [hcons] at hqueue
    have hevents := hqueue events mem_cons_self
    exact ⟨_, htake hevents, rfl, rfl, rfl,
      hbounded _ events hevents fun es hes => hqueue es (mem_cons_of_mem _ hes)⟩
  next command queue hcons =>
    cases h
    rw [hcons] at hqueue
    obtain ⟨hmsg, hturn, hkept, hcompletions⟩ :=
      serviceCommand_frame { n with queue } command terminalError outcome
    have hevents := harmless_serviceCommand { n with queue } command terminalError outcome
    refine ⟨_, htake hevents, hmsg, congrArg (· ++ _) hturn, hcompletions, hbounded _ _ hevents ?_⟩
    rw [hkept]
    exact fun es hes => hqueue es (mem_cons_of_mem _ hes)

/-- The reactor's queue gains publications only by servicing. -/
theorem harmlessQueue_step (hqueue : HarmlessQueue n.queue) (hstep : n.step l = some n') :
    HarmlessQueue n'.queue := by
  cases l with
  | service =>
    obtain ⟨_, _, _, _, _, h⟩ := service_frame hqueue hstep
    exact h
  | drive =>
    obtain ⟨_, out, -, rfl⟩ := drive_eq_some hstep
    intro events hevents
    rcases mem_append.mp hevents with h | h
    · exact hqueue events h
    · cases out <;> simp at h
  | publish => exact Option.some.inj hstep ▸ hqueue
  | _ =>
    have hframe := turn_step hstep
    exact hframe.2 ▸ hqueue

end MessageNode

namespace DeliveryRun

variable (r : DeliveryRun)

/-- Until the transport has failed: a disconnect is handled only when every
reaped completion has been dispatched, nothing else ends the transport, and the
driver meets no event that reports a failure. -/
def orderly : DeliveryLabel → Bool
  | .recvError => true
  | .node label =>
    r.node.msg.state == .failed ||
      match label with
      | .terminate .disconnected => r.node.completions.isEmpty
      | .terminate _ | .close | .finishClose _ | .driverDrop => false
      | .deadline => r.node.msg.state != .created
      | .drive _ => r.node.msg.port.events.head?.all r.node.msg.tolerates
      | _ => true

/-- The events on their way to the driver. -/
def transit : List IoEvent :=
  r.node.msg.port.events ++ r.node.turn

/-- The frames that are reaped and not dispatched, before a disconnect. -/
def undispatched : List (List UInt8) :=
  if r.disconnected then [] else r.node.completions.filterMap IoCompletionEvent.data

/-- Every frame reaped before the disconnect is where `recv` will find it. -/
structure Live (r : DeliveryRun) : Prop where
  state : r.node.msg.state.isClosing = false
  port : r.node.msg.port.isOpen = true
  hello : r.node.msg.helloReady = true
  terminal : r.transit.any IoEvent.isTerminal = r.disconnected
  frames : r.returned ++ r.node.msg.received.map CompletedRecv.payload ++
    dataBefore r.transit ++ r.undispatched = r.reaped
  reported : r.reported = false

structure Over (r : DeliveryRun) : Prop where
  state : r.node.msg.state = .failed
  disconnected : r.disconnected = true
  frames : r.returned ++ r.node.msg.received.map CompletedRecv.payload = r.reaped
  reported : r.reported = true → r.reaped <+: r.returned

structure Delivering (r : DeliveryRun) : Prop where
  phase : r.Live ∨ r.Over
  queue : MessageNode.HarmlessQueue r.node.queue

section LiveSteps

variable {r : DeliveryRun} {n' : MessageNode}

variable {events : List IoEvent}

/-- Work of the transport that takes no frame, with harmless events for the turn. -/
theorem Live.of_quiet (h : r.Live) (hmsg : r.node.msg.Quiet n'.msg)
    (hturn : n'.turn = r.node.turn ++ events) (hevents : Harmless events)
    (hcompletions : n'.completions = r.node.completions) : Live { r with node := n' } := by
  obtain ⟨sent, hsent, hport⟩ := hmsg.port
  have hopen := h.port
  have htransit : transit { r with node := n' } =
      r.node.msg.port.events ++ sent ++ r.node.turn ++ events := by
    simp [transit, hport, hturn, IoEventPort.send, hopen]
  have hdata : dataBefore (transit { r with node := n' }) = dataBefore r.transit := by
    have hlast := dataBefore_harmless hevents (r.node.msg.port.events ++ sent ++ r.node.turn) []
    rw [htransit]
    simp only [List.append_nil] at hlast
    rw [hlast, dataBefore_harmless hsent]
    rfl
  refine ⟨hmsg.state.trans h.state, ?_, hmsg.hello h.hello, ?_, ?_, h.reported⟩
  · simp [hport, IoEventPort.send, hopen]
  · rw [htransit]
    simpa [hsent.any_isTerminal, hevents.any_isTerminal, transit] using h.terminal
  · rw [hdata]
    simpa [undispatched, hmsg.received, hcompletions] using h.frames

theorem Live.of_keep (h : r.Live) (hmsg : r.node.msg.Quiet n'.msg) (hturn : n'.turn = r.node.turn)
    (hcompletions : n'.completions = r.node.completions) : Live { r with node := n' } :=
  h.of_quiet hmsg (by rw [hturn, List.append_nil]) harmless_nil hcompletions

/-- The driver takes the oldest event of the port. -/
theorem Live.processIoEvent (h : r.Live) {event : IoEvent}
    (hevents : r.node.msg.port.events = event :: events)
    (htolerates : r.node.msg.tolerates event = true) (refusal : Option Error)
    (hmsg : n'.msg = { r.node.msg with
      port := { r.node.msg.port with events } }.processIoEvent event refusal)
    (hturn : n'.turn = r.node.turn) (hcompletions : n'.completions = r.node.completions) :
    Live { r with node := n' } ∨ Over { r with node := n' } := by
  let popped : EngineMessageState :=
    { r.node.msg with port := { r.node.msg.port with events } }
  have htransit : r.transit = event :: (events ++ r.node.turn) := by
    simp [transit, hevents]
  have hterminal := h.terminal
  have hframes := h.frames
  rw [htransit] at hterminal hframes
  cases hlast : event.isTerminal with
  | true =>
    -- the disconnect: every frame before it has been taken
    have hdisconnect : event = .terminal .disconnected := by
      cases event with
      | terminal t => cases t <;> simp_all [tolerates]
      | completion | submission => cases hlast
    subst hdisconnect
    have hdisconnected : r.disconnected = true := by simpa [hlast] using hterminal.symm
    have hlive : popped.state.isClosing = false := h.state
    have hfail : (popped.processIoEvent (.terminal .disconnected) refusal).state = .failed ∧
        (popped.processIoEvent (.terminal .disconnected) refusal).received =
          popped.received := by
      simp only [EngineMessageState.processIoEvent]
      exact EngineMessageState.fail_of_live hlive _ _
    refine .inr ⟨?_, hdisconnected, ?_, ?_⟩
    · exact (congrArg (·.state) hmsg).trans hfail.1
    · have hreceived : n'.msg.received = r.node.msg.received :=
        (congrArg (·.received) hmsg).trans hfail.2
      simpa [hreceived, dataBefore, hlast, undispatched, hdisconnected] using hframes
    · intro hreported
      cases h.reported.symm.trans hreported
  | false =>
    rw [dataBefore_cons hlast] at hframes
    simp only [any_cons, hlast, Bool.false_or] at hterminal
    have htakes : popped.Takes n'.msg event.data := by
      rw [hmsg]
      refine takes_processIoEvent refusal h.state ?_ hlast
      exact htolerates
    left
    generalize hdata : event.data = data at htakes hframes
    generalize hs' : n'.msg = s' at htakes
    cases htakes with
    | quiet hquiet =>
      -- the run with the event removed is live, and the transport works on
      have hpopped : Live { r with node := r.node.setMsg popped } :=
        ⟨h.state, h.port, h.hello, hterminal, hframes, h.reported⟩
      exact hpopped.of_keep (hs' ▸ hquiet) hturn hcompletions
    | message =>
      refine ⟨?_, ?_, ?_, ?_, ?_, h.reported⟩
      · rw [hs']; exact h.state
      · rw [hs']; exact h.port
      · rw [hs']; exact h.hello
      · simpa [transit, hs', hturn, popped] using hterminal
      · simpa [transit, undispatched, hs', hturn, hcompletions, popped] using hframes

theorem Live.publish (h : r.Live) : Live { r with node := r.node.publish } := by
  have hopen := h.port
  have hport : r.node.publish.msg.port =
      { isOpen := true, events := r.node.msg.port.events ++ r.node.turn } := by
    simp [MessageNode.publish, MessageNode.msg, MessageNode.setMsg, IoEventPort.send,
      show r.node.driver.state.port.isOpen = true from hopen]
  have htransit : transit { r with node := r.node.publish } = r.transit := by
    simp only [transit, hport]
    exact List.append_nil _
  exact ⟨h.state, congrArg (·.isOpen) hport, h.hello, htransit ▸ h.terminal,
    htransit ▸ h.frames, h.reported⟩

theorem Live.reap (h : r.Live) (hreap : r.node.reap = some n') : Live (r.record n' .reap) := by
  obtain ⟨completion, cq, hcq, rfl⟩ := reap_eq_some hreap
  refine ⟨h.state, h.port, h.hello, h.terminal, ?_, h.reported⟩
  have hframes := h.frames
  simp only [record, hcq, undispatched, transit, MessageNode.msg] at hframes ⊢
  cases hdisconnected : r.disconnected with
  | true => simpa [hdisconnected] using hframes
  | false =>
    simp only [hdisconnected, Bool.false_eq_true, if_false] at hframes ⊢
    rw [← hframes]
    cases hdata : completion.data <;> simp [hdata]

/-- A further event at the end of the turn. -/
theorem transit_push (r : DeliveryRun) (event : IoEvent) :
    transit { r with node := { r.node with turn := r.node.turn ++ [event] } } =
      r.transit ++ [event] :=
  (append_assoc _ _ _).symm

theorem Live.dispatch (h : r.Live) (hdispatch : r.node.dispatch = some n') :
    Live { r with node := n' } := by
  obtain ⟨completion, completions, hcompletions, rfl⟩ := dispatch_eq_some hdispatch
  have hframes := h.frames
  have hterminal := h.terminal
  have htransit := transit_push r (.completion completion)
  refine ⟨h.state, h.port, h.hello, ?_, ?_, h.reported⟩
  · refine (congrArg (List.any · IoEvent.isTerminal) htransit).trans ?_
    simp [hterminal, IoEvent.isTerminal]
  · refine (congrArg (r.returned ++ r.node.msg.received.map CompletedRecv.payload ++
      dataBefore · ++ (if r.disconnected then []
        else completions.filterMap data)) htransit).trans ?_
    cases hdisconnected : r.disconnected with
    | true =>
      rw [dataBefore_append_of_any (hterminal.trans hdisconnected)]
      simpa [undispatched, hdisconnected] using hframes
    | false =>
      rw [dataBefore_append_of_not_any (hterminal.trans hdisconnected),
        dataBefore_cons rfl, ← hframes]
      cases hdata : completion.data <;>
        simp [undispatched, hdisconnected, hcompletions, IoEvent.data, hdata, dataBefore]

/-- The disconnect is handled when nothing reaped waits for dispatch. -/
theorem Live.disconnect (h : r.Live) (hdispatched : r.node.completions = []) :
    Live { r with node := r.node.terminate .disconnected, disconnected := true } := by
  have hframes := h.frames
  have hterminal := h.terminal
  have htransit := transit_push r (.terminal .disconnected)
  refine ⟨h.state, h.port, h.hello, ?_, ?_, h.reported⟩
  · refine (congrArg (List.any · IoEvent.isTerminal) htransit).trans ?_
    simp [IoEvent.isTerminal]
  · refine (congrArg (r.returned ++ r.node.msg.received.map CompletedRecv.payload ++
      dataBefore · ++ []) htransit).trans ?_
    have hnone : r.undispatched = [] := by simp [undispatched, hdispatched]
    rw [hnone] at hframes
    rw [← hframes]
    cases hdisconnected : r.disconnected with
    | true => rw [dataBefore_append_of_any (hterminal.trans hdisconnected)]
    | false =>
      rw [dataBefore_append_of_not_any (hterminal.trans hdisconnected)]
      simp [dataBefore, IoEvent.isTerminal]

theorem Live.recv (h : r.Live) (hrecv : r.node.recv = some n') : Live (r.record n' .recv) := by
  obtain ⟨_, _, hreceived, rfl⟩ := recv_eq_some hrecv
  refine ⟨h.state, h.port, h.hello, h.terminal, ?_, h.reported⟩
  have hframes := h.frames
  simp only [record, hreceived, undispatched, transit] at hframes ⊢
  simpa [MessageNode.setMsg, MessageNode.msg] using hframes

end LiveSteps

variable {r : DeliveryRun} {l : NodeLabel} {n' : MessageNode}

/-- A step of an endpoint whose transport is live. -/
theorem Live.step (h : r.Live) (hqueue : MessageNode.HarmlessQueue r.node.queue)
    (horderly : r.orderly (.node l) = true) (hstep : r.node.step l = some n') :
    Live (r.record n' l) ∨ Over (r.record n' l) := by
  have hfailed : (r.node.msg.state == .failed) = false := by
    have hlive := h.state
    cases hs : r.node.msg.state <;> simp_all [TransportState.isClosing]
  simp only [orderly, hfailed, Bool.false_or] at horderly
  have hqueueEvent (s : EngineMessageState) (hs : s.state.isClosing = false)
      (event : EngineMessageEvent) : s.Quiet (s.queueEvent event) := by
    simp only [queueEvent, hs, Bool.false_eq_true, if_false]
    exact .of_keep rfl rfl rfl id
  cases l with
  | close | finishClose | driverDrop => cases horderly
  | publish => exact Option.some.inj hstep ▸ .inl h.publish
  | reap => exact .inl (h.reap hstep)
  | dispatch => exact .inl (h.dispatch hstep)
  | recv => exact .inl (h.recv hstep)
  | terminate event =>
    cases hstep
    cases event with
    | disconnected => exact .inl (h.disconnect (List.isEmpty_iff.mp horderly))
    | terminal | closed => cases horderly
  | drive env =>
    obtain ⟨driver, out, hiteration, rfl⟩ := drive_eq_some hstep
    generalize hs' : driver.state = s' at hiteration
    have hkeep (hquiet : r.node.msg.Quiet s') : Live { r with node := { r.node with
          driver
          queue := r.node.queue ++ (out.map ProtocolQueueEntry.command).toList } } :=
      h.of_keep (show r.node.msg.Quiet driver.state from hs'.symm ▸ hquiet) rfl rfl
    cases hiteration with
    | admission _ hpoll =>
      exact .inl (hkeep (quiet_pollAdmission hpoll))
    | credit hflush =>
      exact .inl (hkeep (quiet_flushOneCredit hflush))
    | @protocol event events =>
      have hevent := quiet_processEvent { r.node.msg with events } event env.refusal h.hello
      have hpopped : r.node.msg.Quiet { r.node.msg with events } :=
        .of_keep rfl rfl rfl id
      exact .inl (hkeep (hpopped.trans hevent))
    | @io event _ hevents =>
      have htolerates : r.node.msg.tolerates event = true := by
        simpa [hevents] using horderly
      exact h.processIoEvent hevents htolerates env.refusal hs' rfl rfl
  | deadline =>
    cases hstep
    have hkeep : r.node.msg.deadlineExpired = r.node.msg :=
      if_neg (by simpa using horderly)
    have hquiet : r.node.msg.Quiet r.node.msg.deadlineExpired := hkeep.symm ▸ .refl _
    exact .inl (h.of_keep hquiet rfl rfl)
  | service =>
    obtain ⟨_, hevents, hmsg, hturn, hcompletions, -⟩ :=
      service_frame hqueue hstep
    exact .inl (h.of_quiet (hmsg ▸ .refl _) hturn hevents hcompletions)
  | sendEnqueue =>
    simp only [MessageNode.step, MessageNode.sendEnqueue] at hstep
    repeat' split at hstep
    all_goals cases hstep
    refine .inl (h.of_keep (EngineMessageState.Quiet.trans ?_ (hqueueEvent _ ?_ _)) rfl rfl)
    · exact .of_withoutSends rfl
    · exact h.state
  | dropMessage =>
    simp only [MessageNode.step, MessageNode.dropMessage] at hstep
    split at hstep <;> cases hstep
    exact .inl (h.of_keep (hqueueEvent _ h.state _) rfl rfl)
  | transmit =>
    obtain ⟨⟨_, _⟩, hsent, rfl⟩ := Option.map_eq_some_iff.mp hstep
    unfold transmit at hsent
    split at hsent <;> cases hsent
    exact .inl (h.of_keep (.refl _) rfl rfl)
  | sendAcquire | sendAbandon | sendCancel | arrive | complete =>
    simp only [MessageNode.step, MessageNode.sendAcquire, MessageNode.sendAbandon,
      MessageNode.arrive, MessageNode.complete] at hstep
    repeat' split at hstep
    all_goals cases hstep
    all_goals exact .inl (h.of_keep (.of_withoutSends rfl) rfl rfl)

/-- A step of an endpoint whose transport has failed after the disconnect. -/
theorem Over.step (h : r.Over) (hstep : r.node.step l = some n') : Over (r.record n' l) := by
  have hsettled (hrecv : l ≠ .recv) := settled_step_of_failed h.state hrecv hstep
  have hframes (hrecv : l ≠ .recv) :
      r.returned ++ n'.msg.received.map CompletedRecv.payload = r.reaped := by
    rw [(hsettled hrecv).received]
    exact h.frames
  cases l with
  | recv =>
    obtain ⟨_, _, hreceived, rfl⟩ := recv_eq_some hstep
    have hall := h.frames
    rw [hreceived] at hall
    refine ⟨h.state, h.disconnected, ?_, fun hreported => ?_⟩
    · simp only [record, hreceived]
      simpa [MessageNode.setMsg, MessageNode.msg] using hall
    · exact (h.reported hreported).trans (prefix_append _ _)
  | reap =>
    have hnone : (r.record n' .reap).reaped = r.reaped := if_pos h.disconnected
    have hne : NodeLabel.reap ≠ .recv := nofun
    exact ⟨(hsettled hne).state.trans h.state, h.disconnected,
      (hframes hne).trans hnone.symm, hnone.symm ▸ h.reported⟩
  | terminate event =>
    have hne : NodeLabel.terminate event ≠ .recv := nofun
    cases event with
    | disconnected =>
      exact ⟨(hsettled hne).state.trans h.state, rfl, hframes hne, h.reported⟩
    | terminal | closed =>
      exact ⟨(hsettled hne).state.trans h.state, h.disconnected, hframes hne, h.reported⟩
  | _ =>
    exact ⟨(hsettled nofun).state.trans h.state, h.disconnected, hframes nofun, h.reported⟩

theorem Delivering.step {r' : DeliveryRun} {l : DeliveryLabel} (h : r.Delivering)
    (horderly : r.orderly l = true) (hstep : r.step l = some r') : r'.Delivering := by
  cases l with
  | recvError =>
    simp only [DeliveryRun.step] at hstep
    split at hstep
    next hempty =>
      cases hstep
      simp only [Bool.and_eq_true, List.isEmpty_iff] at hempty
      obtain ⟨hempty, hclosing⟩ := hempty
      refine ⟨?_, h.queue⟩
      rcases h.phase with hlive | hover
      · cases hlive.state.symm.trans hclosing
      · refine .inr ⟨hover.state, hover.disconnected, hover.frames, fun _ => ?_⟩
        have hall := hover.frames
        rw [hempty, List.map_nil, List.append_nil] at hall
        exact ⟨[], by simp [hall]⟩
    next => cases hstep
  | node label =>
    obtain ⟨n', hn', rfl⟩ := Option.map_eq_some_iff.mp hstep
    have hnode : (r.record n' label).node = n' := by
      unfold record
      split <;> rfl
    refine ⟨?_, hnode.symm ▸ harmlessQueue_step h.queue hn'⟩
    rcases h.phase with hlive | hover
    · exact hlive.step h.queue horderly hn'
    · exact .inr (hover.step hn')

theorem delivering_new (recvCount bufferSize : Nat) (dataSends controlSends : List Mr)
    (helloSend : Mr) (receives : List Mr) :
    (new (.new (.new recvCount bufferSize dataSends controlSends helloSend)
      receives)).Delivering :=
  ⟨.inl ⟨rfl, rfl, rfl, rfl, rfl, rfl⟩, nofun⟩

/-- In every orderly run, each DATA frame that was reaped before the disconnect
was handled is returned by `recv`, in order, before `recv` reports an error. -/
theorem reaped_returned_before_error (recvCount bufferSize : Nat) (dataSends controlSends : List Mr)
    (helloSend : Mr) (receives : List Mr) (trace : List DeliveryLabel) (r : DeliveryRun)
    (horderly : Machine.Along step (fun r l => r.orderly l = true)
      (new (.new (.new recvCount bufferSize dataSends controlSends helloSend) receives))
      trace)
    (hrun : Machine.run step
      (new (.new (.new recvCount bufferSize dataSends controlSends helloSend) receives))
      trace = some r)
    (hreported : r.reported = true) : r.reaped <+: r.returned := by
  have hdelivering := Machine.run_invariant (fun _ _ _ h hl hstep => h.step hl hstep)
    (delivering_new recvCount bufferSize dataSends controlSends helloSend receives) horderly hrun
  rcases hdelivering.phase with hlive | hover
  · cases hlive.reported.symm.trans hreported
  · exact hover.reported hreported

/-- A frame is reaped and dispatched, and the disconnect follows it. -/
def dispatchedFirst : List DeliveryLabel :=
  (handshake ++ [.arrive (.ok (writeDataFrame [7])), .reap, .dispatch, .terminate .disconnected,
      .publish, driveGranted, driveGranted,
      .recv]).map .node ++ [.recvError]

theorem reaped_returned_before_error_dispatchedFirst :
    (Machine.run step (new small) dispatchedFirst).map
        (fun r => (r.reaped, r.returned, r.reported)) = some ([[7]], [[7]], true) ∧
      ∀ r, Machine.run step (new small) dispatchedFirst = some r →
        r.reported = true → r.reaped <+: r.returned :=
  ⟨by decide +kernel, fun r hrun hreported =>
    reaped_returned_before_error 1 16 _ _ _ _ dispatchedFirst r (by decide +kernel) hrun hreported⟩

/-- The CM event is handled in the turn that reaped the frame, before the next
turn dispatches it. -/
def disconnectOvertakes : List DeliveryLabel :=
  (handshake ++ [.arrive (.ok (writeDataFrame [7])), .reap, .terminate .disconnected, .publish,
      .dispatch, .publish, driveGranted]).map .node ++ [.recvError]

/-- The frame was reaped before the disconnect, and `recv` reports the error
without returning it. -/
theorem disconnectOvertakes_loses_frame : (Machine.run step (new small) disconnectOvertakes).map
        (fun r => (r.reaped, r.returned, r.reported, r.node.msg.error)) =
      some ([[7]], [], true, some .transportClosed) := by
  decide +kernel

end DeliveryRun

end RdmaIo.Message
