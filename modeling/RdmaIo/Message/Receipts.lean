/-
Correlation of submission receipts.  A receipt names no command: the transport
applies it to the oldest transition it has recorded.

The transition queue is matched against every command on its way, through the
admission queue, the reactor's queue, the turn and the port.  The match holds as
long as admission resolves a command by itself only when no earlier command is
still with the reactor.
-/
import RdmaIo.Message.Calls

namespace RdmaIo.Message

open EngineMessageState
open List
open EngineMessageState (receiptView receiverLost call_processEvent)

namespace EngineMessageState

variable (s : EngineMessageState)

/-- An event that is not a receipt leaves the recorded transitions alone. -/
theorem processIoEvent_step {event : IoEvent} (hevent : event.receipt = none)
    (refusal : Option Error) :
    ReceiptView.Step s.receiptView (s.processIoEvent event refusal).receiptView :=
  (s.call_processIoEvent (q := False) hevent refusal).receiptStep

/-- A receipt is applied to the oldest recorded transition. -/
theorem processIoEvent_submission_step {id recorded : Nat} {rest : List Nat}
    (disposition : IoSubmissionDisposition) (refusal : Option Error)
    (htransitions : s.receiptView.transitions = recorded :: rest) : ReceiptView.Step
      { s.receiptView with
        transitions := rest
        applied := s.receiptView.applied ++ [(recorded, id)] }
      (s.processIoEvent (.submission id disposition) refusal).receiptView := by
  obtain ⟨transition, _, hpending, hfirst, hrest⟩ := map_eq_cons_iff.mp htransitions
  obtain ⟨recorded', transition⟩ := transition
  obtain rfl : recorded' = recorded := hfirst
  rw [← hrest]
  exact (s.resolves_submission hpending id disposition refusal).receipts

end EngineMessageState

/-- The receipts on their way match the recorded transitions: `turn` and `front`
are the receipts that the reactor has produced and not published, `queue` the
commands that it has. -/
structure InOrder (v : ReceiptView) (turn queue front : List Nat) : Prop where
  applied : ∀ p ∈ v.applied, p.1 = p.2
  opened : v.admissionOpen = true →
    v.portOpen = true ∧ v.port ++ turn ++ queue ++ v.pending = v.transitions
  closed : v.admissionOpen = false →
    v.pending = [] ∧ (v.portOpen = true → v.port ++ turn ++ front <+: v.transitions)
  dead : v.portOpen = false → v.port = []
  front : front <+: queue

namespace InOrder

variable {v w : ReceiptView} {turn queue front : List Nat}

/-- While the port is open its receipts come first among the transitions. -/
theorem receipts_prefix (h : InOrder v turn queue front) (hport : v.portOpen = true) :
    v.port ++ turn ++ front <+: v.transitions := by
  cases hopen : v.admissionOpen with
  | false => exact (h.closed hopen).2 hport
  | true =>
    obtain ⟨-, heq⟩ := h.opened hopen
    obtain ⟨later, hqueue⟩ := h.front
    exact ⟨later ++ v.pending, by rw [← heq, ← hqueue]; simp⟩

theorem of_step (h : InOrder v turn queue front) (hstep : v.Step w) :
    InOrder w turn queue front := by
  cases hstep with
  | keep => exact h
  | submit _ hopen =>
    obtain ⟨hport, heq⟩ := h.opened hopen
    refine ⟨h.applied, fun _ => ⟨hport, ?_⟩, fun hclosed => ?_, h.dead, h.front⟩
    · simp [ReceiptView.submit, ← heq]
    · cases hopen.symm.trans hclosed
  | shut =>
    exact ⟨h.applied, by simp [ReceiptView.shut], fun _ => ⟨rfl, by simp [ReceiptView.shut]⟩,
      fun _ => rfl, h.front⟩

/-- Taking the oldest receipt from the port finds its own transition. -/
theorem pop_receipt {id : Nat} {port : List Nat} (h : InOrder v turn queue front)
    (hport : v.port = id :: port) : ∃ rest, v.transitions = id :: rest ∧
      InOrder { v with
        port := port
        transitions := rest
        applied := v.applied ++ [(id, id)] } turn queue front := by
  have hopen : v.portOpen = true := by
    cases hdead : v.portOpen with
    | true => rfl
    | false => cases (h.dead hdead).symm.trans hport
  obtain ⟨later, hprefix⟩ := h.receipts_prefix hopen
  rw [hport] at hprefix
  refine ⟨port ++ turn ++ front ++ later, by simp [← hprefix], ?_, ?_, ?_, ?_, h.front⟩
  · exact forall_mem_append.mpr ⟨h.applied, forall_mem_singleton.mpr rfl⟩
  · intro hadmission
    obtain ⟨-, heq⟩ := h.opened hadmission
    refine ⟨hopen, ?_⟩
    rw [hport, ← hprefix] at heq
    simpa using heq
  · intro hadmission
    exact ⟨(h.closed hadmission).1, fun _ => ⟨later, by simp⟩⟩
  · intro hdead
    cases hopen.symm.trans hdead

end InOrder

/-- A closing transport works through the events it took from the port. -/
structure Draining (v : ReceiptView) (events turn front : List Nat) : Prop where
  applied : ∀ p ∈ v.applied, p.1 = p.2
  admission : v.admissionOpen = false
  pending : v.pending = []
  port : v.port = []
  taken : events <+: v.transitions
  published : v.portOpen = true → events ++ turn ++ front <+: v.transitions

namespace Draining

variable {v w : ReceiptView} {events turn front : List Nat}

theorem of_step (h : Draining v events turn front) (hstep : v.Step w) :
    Draining w events turn front := by
  cases hstep with
  | keep => exact h
  | submit _ hopen => cases hopen.symm.trans h.admission
  | shut =>
    -- the port is empty, so closing it disposes of no transition
    have htransitions : v.shut.transitions = v.transitions := by
      simp [ReceiptView.shut, h.port]
    exact ⟨h.applied, rfl, rfl, rfl, htransitions ▸ h.taken, by simp [ReceiptView.shut]⟩

theorem pop_receipt {id : Nat} (h : Draining v (id :: events) turn front) :
    ∃ rest, v.transitions = id :: rest ∧
      Draining { v with
        transitions := rest
        applied := v.applied ++ [(id, id)] } events turn front := by
  obtain ⟨later, hprefix⟩ := h.taken
  have hpublished := h.published
  rw [← hprefix] at hpublished
  refine ⟨events ++ later, hprefix.symm, ?_, h.admission, h.pending, h.port,
    ⟨later, rfl⟩, fun hopen => ?_⟩
  · exact forall_mem_append.mpr ⟨h.applied, forall_mem_singleton.mpr rfl⟩
  · obtain ⟨rest, hrest⟩ := hpublished hopen
    exact ⟨rest, by simpa using hrest⟩

theorem foldl_processIoEvent {s : EngineMessageState} {events : List IoEvent}
    (h : Draining s.receiptView (receiptIds events) turn front) : Draining
      (events.foldl (fun s event => s.processIoEvent event none) s).receiptView
      [] turn front := by
  induction events generalizing s with
  | nil => exact h
  | cons event _ ih =>
    rw [foldl_cons]
    apply ih
    cases event with
    | submission _ disposition =>
      obtain ⟨_, htransitions, hpopped⟩ := h.pop_receipt
      exact hpopped.of_step (s.processIoEvent_submission_step disposition none htransitions)
    | completion => exact h.of_step (s.processIoEvent_step rfl none)
    | terminal => exact h.of_step (s.processIoEvent_step rfl none)

end Draining

/-- Closing keeps the order: the events of the port meet their transitions. -/
theorem InOrder.beginClose {s : EngineMessageState} {turn queue front : List Nat}
    (h : InOrder s.receiptView turn queue front) :
    InOrder s.beginClose.receiptView turn queue front := by
  let s₁ := s.enterClosing
  have hs₁ : s₁.receiptView = { s.receiptView with admissionOpen := false, pending := [] } :=
    receiptView_disposeEvents _
  have hports : receiptIds s₁.port.events = s.receiptView.port :=
    congrArg ReceiptView.port hs₁
  have hview : { s₁ with port := { s₁.port with events := [] } }.receiptView =
      { s.receiptView with admissionOpen := false, pending := [], port := [] } :=
    congrArg (fun v : ReceiptView => { v with port := [] }) hs₁
  have hdraining : Draining
      { s₁ with port := { s₁.port with events := [] } }.receiptView
      (receiptIds s₁.port.events) turn front := by
    rw [hview, hports]
    refine ⟨h.applied, rfl, rfl, rfl, ?_, h.receipts_prefix⟩
    cases hport : s.receiptView.portOpen with
    | false => exact h.dead hport ▸ nil_prefix
    | true =>
      refine List.IsPrefix.trans ?_ (h.receipts_prefix hport)
      exact ⟨turn ++ front, by simp⟩
  have hdrained : Draining s.beginClose.receiptView [] turn front :=
    hdraining.foldl_processIoEvent
  refine ⟨hdrained.applied, fun hopen => ?_, fun _ => ⟨hdrained.pending, fun hopen => ?_⟩,
    fun _ => hdrained.port, h.front⟩
  · cases hopen.symm.trans hdrained.admission
  · rw [hdrained.port]
    exact hdrained.published hopen

namespace ProtocolQueueEntry

/-- The commands whose receipts an entry holds or will produce. -/
def ids : ProtocolQueueEntry → List Nat
  | command queued => [queued.id]
  | publication events => receiptIds events

def isCommand : ProtocolQueueEntry → Bool
  | command _ => true
  | publication _ => false

end ProtocolQueueEntry

def queueIds (queue : List ProtocolQueueEntry) : List Nat :=
  queue.flatMap ProtocolQueueEntry.ids

/-- Receipts that the oldest entry has produced and the turn had no room for. -/
def frontIds : List ProtocolQueueEntry → List Nat
  | .publication events :: _ => receiptIds events
  | _ => []

theorem frontIds_prefix (queue : List ProtocolQueueEntry) : frontIds queue <+: queueIds queue := by
  match queue with
  | [] => exact nil_prefix
  | .command _ :: _ => exact nil_prefix
  | .publication events :: queue => exact ⟨queueIds queue, rfl⟩

theorem frontIds_of_commands {queue : List ProtocolQueueEntry}
    (h : ∀ e ∈ queue, e.isCommand = true) : frontIds queue = [] := by
  match queue with
  | [] => rfl
  | .command _ :: _ => rfl
  | .publication _ :: _ => cases h _ mem_cons_self

theorem receiptIds_cancelledEvents (command : ProtocolCommand) :
    receiptIds command.cancelledEvents = [command.id] := rfl

theorem receiptIds_rejectedEvents (command : ProtocolCommand) (error : Error) :
    receiptIds (command.rejectedEvents error) = [command.id] := rfl

/-- The oldest waiting command is cancelled, or its permit is refused, so that
admission publishes its receipt itself. -/
def EngineMessageState.resolvesAtAdmission (s : EngineMessageState) (permit : PermitPoll) : Bool :=
  match s.admissionPending with
  | [] => false
  | command :: _ => s.isCancelled command || permit.refuses

namespace MessageNode

variable (n : MessageNode)

/-- No command of the connection is with the reactor. -/
def reactorQuiet : Bool :=
  n.queue.isEmpty && (receiptIds n.turn).isEmpty

/-- Admission resolves a command by itself only while the reactor is quiet. -/
def resolvesInOrder : NodeLabel → Bool
  | .drive env =>
    n.reactorQuiet || !(n.msg.resolvesAtAdmission env.permit ||
        n.msg.resolvesAtAdmission env.idlePermit)
  | _ => true

/-- Servicing a command publishes its receipt, unless its owner is gone. -/
theorem serviceCommand_receiptIds (command : ProtocolCommand) (terminalError : Option Error)
    (outcome : PostOutcome) : receiptIds (n.serviceCommand command terminalError outcome).2 =
      if n.msg.receiverLost then [] else [command.id] := by
  unfold serviceCommand execute
  repeat' split
  all_goals simp_all [receiptIds_cancelledEvents, receiptIds_rejectedEvents,
    ProtocolCommand.unaccepted]

structure Correlated (n : MessageNode) : Prop where
  order : InOrder n.msg.receiptView (receiptIds n.turn) (queueIds n.queue) (frontIds n.queue)
  commands : ∀ e ∈ n.queue.tail, e.isCommand = true

namespace Correlated

variable {n : MessageNode}

/-- The events of an entry taken from the front move to the turn, as far as it
has room. -/
theorem appendBounded {events : List IoEvent} (room : Nat)
    (h : InOrder n.msg.receiptView (receiptIds n.turn)
      (receiptIds events ++ queueIds n.queue) (receiptIds events))
    (hcommands : ∀ e ∈ n.queue, e.isCommand = true) :
    (n.appendBounded events room).Correlated := by
  have hsplit : receiptIds events =
      receiptIds (events.take room) ++ receiptIds (events.drop room) := by
    rw [← receiptIds_append, take_append_drop]
  have hqueue : queueIds (n.appendBounded events room).queue =
      receiptIds (events.drop room) ++ queueIds n.queue := by
    simp only [MessageNode.appendBounded]
    split
    next hnil => simp [isEmpty_iff.mp hnil]
    next => rfl
  have hfront : frontIds (n.appendBounded events room).queue = receiptIds (events.drop room) := by
    simp only [MessageNode.appendBounded]
    split
    next hnil => simp [isEmpty_iff.mp hnil, frontIds_of_commands hcommands]
    next => rfl
  refine ⟨⟨h.applied, fun hopen => ?_, fun hclosed => ?_, h.dead,
    frontIds_prefix _⟩, fun e he => hcommands e ?_⟩
  · obtain ⟨hport, heq⟩ := h.opened hopen
    refine ⟨hport, Eq.trans ?_ heq⟩
    rw [hqueue, hsplit]
    simp [MessageNode.appendBounded, MessageNode.msg]
  · refine ⟨(h.closed hclosed).1, fun hport => ?_⟩
    have hprefix := (h.closed hclosed).2 hport
    rw [hfront]
    rw [hsplit] at hprefix
    simpa [MessageNode.appendBounded, MessageNode.msg] using hprefix
  · simp only [MessageNode.appendBounded] at he
    split at he
    · exact mem_of_mem_tail he
    · exact he

variable (h : n.Correlated)

include h

/-- A step of the transport's view, with no new receipt and the queue kept. -/
theorem of_step {n' : MessageNode} (hstep : ReceiptView.Step n.msg.receiptView n'.msg.receiptView)
    (hturn : receiptIds n'.turn = receiptIds n.turn) (hqueue : n'.queue = n.queue) :
    n'.Correlated := by
  refine ⟨?_, hqueue ▸ h.commands⟩
  rw [hturn, hqueue]
  exact h.order.of_step hstep

/-- The owner of a queued command listens as long as admission is open. -/
theorem not_receiverLost (hopen : n.msg.admissionOpen = true) : n.msg.receiverLost = false := by
  have hport : n.msg.port.isOpen = true := (h.order.opened hopen).1
  simp [receiverLost, hopen, hport]

theorem admissionOpen_of_pending {command : ProtocolCommand} {rest : List ProtocolCommand}
    (hpending : n.msg.admissionPending = command :: rest) : n.msg.admissionOpen = true := by
  cases hopen : n.msg.admissionOpen with
  | true => rfl
  | false =>
    have hnil := (h.order.closed hopen).1
    simp [receiptView, hpending] at hnil

/-- Polling admission keeps the order if a resolved command is the oldest. -/
theorem pollAdmission {permit : PermitPoll} {s' : EngineMessageState} {out : Option ProtocolCommand}
    (hquiet : n.msg.resolvesAtAdmission permit = true → n.reactorQuiet = true)
    (hpoll : n.msg.pollAdmission permit = some (s', out)) :
    InOrder s'.receiptView (receiptIds n.turn)
      (queueIds (n.queue ++ (out.map ProtocolQueueEntry.command).toList))
      (frontIds (n.queue ++ (out.map ProtocolQueueEntry.command).toList)) := by
  obtain ⟨command, rest, hpending, hpolled⟩ :=
    pollAdmission_cases hpoll
  have hopen := h.admissionOpen_of_pending hpending
  have hlost := h.not_receiverLost hopen
  obtain ⟨hport, heq⟩ := h.order.opened hopen
  have hport' : n.msg.port.isOpen = true := hport
  simp only [receiptView, hpending, map_cons] at heq
  have hresolve {events : List IoEvent} (hids : receiptIds events = [command.id])
      (hresolved : n.msg.isCancelled command = true ∨ permit.refuses = true) : InOrder { n.msg with
        admissionPending := rest, port := n.msg.port.send events }.receiptView
        (receiptIds n.turn) (queueIds (n.queue ++ [])) (frontIds (n.queue ++ [])) := by
    have hquiet : n.reactorQuiet = true := hquiet (by
      simpa [resolvesAtAdmission, hpending] using hresolved)
    obtain ⟨hqueue, hturn⟩ : n.queue = [] ∧ receiptIds n.turn = [] := by
      simpa [reactorQuiet] using hquiet
    simp only [hqueue, hturn, queueIds, flatMap_nil, append_nil] at heq
    refine ⟨h.order.applied, fun _ => ⟨?_, ?_⟩, fun hclosed => ?_, fun hdead => ?_,
      frontIds_prefix _⟩
    · simp [receiptView, IoEventPort.send, hport']
    · simp [receiptView, IoEventPort.send, hport', hids, hqueue, hturn, queueIds, ← heq]
    · cases hopen.symm.trans hclosed
    · simp [receiptView, IoEventPort.send, hport'] at hdead
  cases hpolled with
  | lost hlost' => cases hlost.symm.trans hlost'
  | cancelled _ hcancelled =>
    exact hresolve (receiptIds_cancelledEvents command) (.inl hcancelled)
  | rejected _ hrefuses error =>
    exact hresolve (receiptIds_rejectedEvents command error) (.inr hrefuses)
  | granted =>
    refine ⟨h.order.applied, fun _ => ⟨hport, ?_⟩, fun hclosed => ?_, h.order.dead,
      frontIds_prefix _⟩
    · simp [receiptView, ← heq, queueIds, ProtocolQueueEntry.ids]
    · cases hopen.symm.trans hclosed

/-- Taking the oldest event of the port. -/
theorem processIoEvent {event : IoEvent} {events : List IoEvent}
    (hevents : n.msg.port.events = event :: events) (refusal : Option Error) : InOrder
      ({ n.msg with port := { n.msg.port with events } }.processIoEvent event refusal).receiptView
      (receiptIds n.turn) (queueIds n.queue) (frontIds n.queue) := by
  have hport : n.msg.receiptView.port = receiptIds (event :: events) :=
    congrArg receiptIds hevents
  have hkeep (hreceipt : event.receipt = none)
      (hids : receiptIds (event :: events) = receiptIds events) : InOrder
        ({ n.msg with port := { n.msg.port with events } }.processIoEvent event refusal).receiptView
        (receiptIds n.turn) (queueIds n.queue) (frontIds n.queue) := by
    have hview : { n.msg with port := { n.msg.port with events } }.receiptView =
        n.msg.receiptView :=
      ReceiptView.ext rfl rfl (hids.symm.trans hport.symm) rfl rfl rfl
    exact (hview.symm ▸ h.order).of_step (processIoEvent_step _ hreceipt refusal)
  cases event with
  | completion => exact hkeep rfl rfl
  | terminal => exact hkeep rfl rfl
  | submission _ disposition =>
    obtain ⟨_, htransitions, hpopped⟩ := h.order.pop_receipt hport
    exact hpopped.of_step (processIoEvent_submission_step
        { n.msg with port := { n.msg.port with events } } disposition refusal htransitions)

theorem drive {env : DriveEnv} {n' : MessageNode}
    (hresolves : n.resolvesInOrder (.drive env) = true) (hdrive : n.drive env = some n') :
    n'.Correlated := by
  obtain ⟨driver, out, hiteration, rfl⟩ := drive_eq_some hdrive
  have hquiet (permit : PermitPoll) (hpermit : permit = env.permit ∨ permit = env.idlePermit)
      (hresolved : n.msg.resolvesAtAdmission permit = true) : n.reactorQuiet = true := by
    rcases hpermit with rfl | rfl <;> simpa [resolvesInOrder, hresolved] using hresolves
  have horder : InOrder driver.state.receiptView (receiptIds n.turn)
      (queueIds (n.queue ++ (out.map ProtocolQueueEntry.command).toList))
      (frontIds (n.queue ++ (out.map ProtocolQueueEntry.command).toList)) := by
    generalize driver.state = s' at hiteration
    cases hiteration with
    | admission hpermit hpoll => exact h.pollAdmission (hquiet _ hpermit) hpoll
    | credit hflush =>
      have hstep : ReceiptView.Step n.msg.receiptView s'.receiptView :=
        (call_flushOneCredit (p := False) (q := False) hflush).receiptStep
      simpa using h.order.of_step hstep
    | @protocol event events hevents =>
      have hcall := call_processEvent (p := False) (q := False)
        { n.msg with events } event env.refusal
      have hstep : ReceiptView.Step n.msg.receiptView
          ({ n.msg with events }.processEvent event env.refusal).receiptView :=
        hcall.receiptStep
      simpa using h.order.of_step hstep
    | io hevents => simpa using h.processIoEvent hevents env.refusal
  refine ⟨horder, ?_⟩
  intro e he
  rcases hqueue : n.queue with _ | ⟨first, queue⟩
  · cases out <;> simp [hqueue] at he
  · have hcommands := h.commands
    simp only [hqueue, cons_append, tail_cons, mem_append] at he hcommands
    rcases he with he | he
    · exact hcommands e he
    · cases out with
      | none => simp at he
      | some command =>
        obtain rfl := mem_singleton.mp he
        rfl

theorem service {terminalError : Option Error} {outcome : PostOutcome} {room : Nat}
    {n' : MessageNode} (hservice : n.service terminalError outcome room = some n') :
    n'.Correlated := by
  obtain ⟨horder, hcommands⟩ := h
  unfold MessageNode.service at hservice
  split at hservice
  · cases hservice
  next hqueue =>
    cases hservice
    rw [hqueue] at horder hcommands
    exact appendBounded room horder hcommands
  next command queue hqueue =>
    cases hservice
    rw [hqueue] at horder hcommands
    obtain ⟨hmsg, hturn, hqueue₁, -⟩ :=
      serviceCommand_frame { n with queue } command terminalError outcome
    have hids := serviceCommand_receiptIds { n with queue } command terminalError outcome
    refine appendBounded room ?_ (hqueue₁ ▸ hcommands)
    rw [hmsg, hturn, hqueue₁, hids]
    change InOrder n.msg.receiptView _ ((if n.msg.receiverLost then _ else _) ++ _)
      (if n.msg.receiverLost then _ else _)
    cases hreceiver : n.msg.receiverLost with
    | false =>
      have hopen : n.msg.admissionOpen = true := by
        simp only [receiverLost, Bool.or_eq_false_iff, Bool.not_eq_false'] at hreceiver
        exact hreceiver.1
      exact ⟨horder.applied, horder.opened, fun hclosed => (nomatch hopen.symm.trans hclosed),
        horder.dead, ⟨queueIds queue, rfl⟩⟩
    | true =>
      -- the owner is gone, so the command leaves no receipt behind
      refine ⟨horder.applied, fun hopen => ?_, horder.closed, horder.dead, nil_prefix⟩
      have hport : n.msg.port.isOpen = true := (horder.opened hopen).1
      have hadmission : n.msg.admissionOpen = true := hopen
      simp [receiverLost, hadmission, hport] at hreceiver

theorem publish : n.publish.Correlated := by
  obtain ⟨horder, hcommands⟩ := h
  refine ⟨?_, hcommands⟩
  change InOrder n.publish.msg.receiptView [] (queueIds n.queue) (frontIds n.queue)
  cases hport : n.msg.port.isOpen with
  | true =>
    have hview : n.publish.msg.receiptView =
        { n.msg.receiptView with
          port := n.msg.receiptView.port ++ receiptIds n.turn } := by
      simp [MessageNode.publish, MessageNode.msg, MessageNode.setMsg, receiptView, IoEventPort.send,
        show n.driver.state.port.isOpen = true from hport]
    rw [hview]
    refine ⟨horder.applied, fun hopen => ?_, fun hclosed => ?_, fun hdead => ?_, horder.front⟩
    · simpa using horder.opened hopen
    · simpa using horder.closed hclosed
    · cases hport.symm.trans hdead
  | false =>
    have hview : n.publish.msg.receiptView = n.msg.receiptView := by
      simp [MessageNode.publish, MessageNode.msg, MessageNode.setMsg, receiptView, IoEventPort.send,
        show n.driver.state.port.isOpen = false from hport]
    rw [hview]
    refine ⟨horder.applied, fun hopen => ?_,
      fun hclosed => ⟨(horder.closed hclosed).1, fun hopen => ?_⟩, horder.dead, horder.front⟩
    · cases hport.symm.trans (horder.opened hopen).1
    · cases hport.symm.trans hopen

/-- Every step keeps the order, if admission resolves commands in order. -/
theorem step {l : NodeLabel} {n' : MessageNode} (hresolves : n.resolvesInOrder l = true)
    (hstep : n.step l = some n') : n'.Correlated := by
  cases l with
  | drive => exact h.drive hresolves hstep
  | service => exact h.service hstep
  | publish => exact Option.some.inj hstep ▸ h.publish
  | close =>
    cases hstep
    exact ⟨h.order.beginClose, h.commands⟩
  | recv =>
    obtain ⟨hturn, hqueue⟩ := turn_step hstep
    simp only [MessageNode.step, MessageNode.recv] at hstep
    split at hstep <;> cases hstep
    exact h.of_step (.keep _) hturn hqueue
  | _ =>
    obtain ⟨hturn, hqueue⟩ := turn_step hstep
    exact h.of_step (call_step rfl hstep).receiptStep hturn hqueue

end Correlated

theorem correlated_new (recvCount bufferSize : Nat) (dataSends controlSends : List Mr)
    (helloSend : Mr) (receives : List Mr) :
    (MessageNode.new (.new recvCount bufferSize dataSends controlSends helloSend)
      receives).Correlated := by
  refine ⟨⟨?_, fun _ => ⟨rfl, rfl⟩, nofun, nofun, nil_prefix⟩, ?_⟩
  · intro p hp
    cases hp
  · intro e he
    cases he

/-- In every run in which admission resolves a command by itself only while no
earlier command is with the reactor, each receipt is applied to the transition
that was recorded for its command. -/
theorem receipts_correlated (recvCount bufferSize : Nat) (dataSends controlSends : List Mr)
    (helloSend : Mr) (receives : List Mr) (trace : List NodeLabel) (n : MessageNode)
    (hresolves : Machine.Along step (fun n l => n.resolvesInOrder l = true)
      (.new (.new recvCount bufferSize dataSends controlSends helloSend) receives)
      trace)
    (hrun : Machine.run step
      (.new (.new recvCount bufferSize dataSends controlSends helloSend) receives) trace = some n) :
    ∀ p ∈ n.msg.applied, p.1 = p.2 :=
  (Machine.run_invariant (fun _ _ _ h hl hstep => h.step hl hstep)
    (correlated_new recvCount bufferSize dataSends controlSends helloSend receives)
    hresolves hrun).order.applied

/-- A send is cancelled while it waits for admission and the reactor is quiet. -/
def quietCancel : List NodeLabel :=
  handshake ++ [.sendAcquire, .sendEnqueue [9], driveGranted, .sendCancel 0,
    driveGranted, driveGranted, driveGranted]

theorem receipts_correlated_quietCancel :
    ((Machine.run step small quietCancel).map (·.msg.applied) =
        some [(0, 0), (1, 1), (2, 2)]) ∧
      ∀ n, Machine.run step small quietCancel = some n → ∀ p ∈ n.msg.applied, p.1 = p.2 :=
  ⟨by decide +kernel, fun n hrun =>
    receipts_correlated 1 16 _ _ _ _ quietCancel n (by decide +kernel) hrun⟩

/-- The buffer of a dropped message is on its way to be reposted when a send
behind it is cancelled: admission publishes the receipt of the send at once. -/
def overtakingCancel : List NodeLabel :=
  handshake ++ receiveFrame (writeDataFrame [7]) ++
    [.recv, .dropMessage 0, driveGranted, driveGranted, .sendAcquire,
      .sendEnqueue [9], driveGranted, .sendCancel 0, driveGranted, driveGranted,
      driveGranted] ++
    serviceAccepted ++ [driveGranted]

/-- The repost (command 2) is resolved with the outcome of the cancelled send
(command 3) and the other way round; the peer's credit is never returned. -/
theorem overtakingCancel_swaps_receipts : (Machine.run step small overtakingCancel).map
        (fun n => (n.msg.applied, n.msg.pendingCreditReturns, n.msg.state)) =
      some ([(0, 0), (1, 1), (2, 3), (3, 2)], 0, .ready) := by
  decide +kernel

end MessageNode

end RdmaIo.Message
