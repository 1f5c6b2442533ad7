/-
Two endpoints of the message transport in conversation over one connection.

Nothing disturbs them: the engine grants every permit, accepts every command and
completes every operation, and the connection delivers each frame once and in
order.  Between the transports each frame passes the admission queue, the
reactor's queue and the queue pairs, so the wire of the credit link is spread
over both endpoints.
-/
import RdmaIo.Message.LinkEnd

namespace RdmaIo.Message

open IoEvent
open MessageNode
open List
open CreditLink (Packet Peer Move Link)

/-- The bytes that a receive completion brings. -/
def IoCompletionEvent.received (c : IoCompletionEvent) : List (List UInt8) :=
  match c.context, c.result, c.mr with
  | .receive, .ok len, some mr => [mr.content.take len]
  | _, _, _ => []

def IoEvent.received : IoEvent → List (List UInt8)
  | completion event => event.received
  | submission _ _ | terminal _ => []

/-- The completion of an operation that succeeded. -/
structure IoCompletionEvent.Clean (posted : Bool) (c : IoCompletionEvent) : Prop where
  accepted : c.provenUnaccepted = false
  started : c.cancelledBeforeSubmit = false
  succeeded : ∃ mr len, c.mr = some mr ∧ c.result = .ok len ∧
    (c.context = .receive → len ≤ mr.content.length)
  hello : c.context = .helloSend → posted = true

def IoEvent.Clean (posted : Bool) : IoEvent → Prop
  | completion event => event.Clean posted
  | submission _ disposition => disposition = .allAccepted 1
  | terminal _ => False

variable {posted : Bool} {events : List IoEvent}

theorem IoEvent.Clean.mono {posted' : Bool} (hposted : posted = true → posted' = true)
    {e : IoEvent} (h : e.Clean posted) : e.Clean posted' := by
  cases e with
  | completion event => exact { h with hello := fun hcontext => hposted (h.hello hcontext) }
  | submission => exact h
  | terminal => exact h

/-- Receipts of accepted commands. -/
def Receipts (events : List IoEvent) : Prop :=
  ∀ e ∈ events, ∃ id, e = .submission id (.allAccepted 1)

theorem Receipts.received (h : Receipts events) : events.flatMap received = [] := by
  rw [flatMap_eq_nil_iff]
  intro e he
  obtain ⟨id, rfl⟩ := h e he
  rfl

theorem Receipts.take (h : Receipts events) (room : Nat) : Receipts (events.take room) :=
  fun e he => h e (mem_of_mem_take he)

theorem Receipts.drop (h : Receipts events) (room : Nat) : Receipts (events.drop room) :=
  fun e he => h e (mem_of_mem_drop he)

def ProtocolQueueEntry.posts : ProtocolQueueEntry → List PostedSend
  | command queued => queued.batch.posts
  | publication _ => []

theorem IoCompletionEvent.received_eq_nil {c : IoCompletionEvent}
    (h : c.context ≠ .receive) : c.received = [] := by
  unfold received
  split
  next hcontext _ _ => exact absurd hcontext h
  next => rfl

/-- The completion of a receive that brings bytes. -/
def Mr.arrival (mr : Mr) (bytes : List UInt8) : IoCompletionEvent where
  context := .receive
  result := .ok bytes.length
  mr := some { mr with content := bytes ++ mr.content.drop bytes.length }
  provenUnaccepted := false
  cancelledBeforeSubmit := false

/-- The completion of a send that succeeded. -/
def PostedSend.completion (send : PostedSend) : IoCompletionEvent where
  context := send.context
  result := .ok send.len
  mr := some send.mr
  provenUnaccepted := false
  cancelledBeforeSubmit := false

theorem PostedSend.Clean.completion {send : PostedSend} (h : send.Clean posted) :
    send.completion.Clean posted :=
  ⟨rfl, rfl, ⟨send.mr, send.len, rfl, rfl, fun hcontext => absurd hcontext h.context⟩, h.hello⟩

namespace MessageNode

variable (n : MessageNode)

def peer : Peer :=
  n.msg.peer n.acquired n.held.length

/-- The events on their way to the transport, in order. -/
def arrivals : List IoEvent :=
  n.msg.port.events ++ n.turn ++ (n.completions ++ n.cq).map completion

/-- The sends on their way to the connection, in order. -/
def departures : List PostedSend :=
  n.sq ++ n.queue.flatMap ProtocolQueueEntry.posts ++ n.msg.sends

def inbound : List (List UInt8) :=
  n.arrivals.flatMap received

def outbound : List (List UInt8) :=
  n.departures.map PostedSend.bytes

theorem inbound_append {n n' : MessageNode} {events : List IoEvent}
    (h : n'.arrivals = n.arrivals ++ events) :
    n'.inbound = n.inbound ++ events.flatMap received := by
  rw [inbound, h, flatMap_append, inbound]

theorem arrivals_cq (more : List IoCompletionEvent) :
    { n with cq := n.cq ++ more }.arrivals = n.arrivals ++ more.map completion := by
  simp [arrivals, msg]

/-- An endpoint that nothing has disturbed. -/
structure Whole (size : Nat) (n : MessageNode) : Prop where
  live : n.msg.Live size
  ioOpen : n.ioClosed = false
  arrivals : ∀ e ∈ n.arrivals, e.Clean n.msg.helloSendPosted
  departures : ∀ send ∈ n.departures, send.Clean n.msg.helloSendPosted
  unacked : ∀ send ∈ n.unacked, send.Clean n.msg.helloSendPosted
  receipts : ∀ events, .publication events ∈ n.queue → Receipts events
  correlated : n.Correlated

/-- The endpoint stands for a link end; the first packets of its incoming wire
and the last of its outgoing wire are inside the endpoint. -/
structure Refines (size : Nat) (n : MessageNode) (p : Peer)
    (inbox outbox : List (Packet (List UInt8))) : Prop where
  peer : n.peer = p
  inbox : List.Forall₂ (Carries size) n.inbound inbox
  outbox : List.Forall₂ (Carries size) n.outbound outbox
  whole : n.Whole size

/-- The endpoint has made a move of its link end. -/
def Moved (size : Nat) (p : Peer) (inbox outbox : List (Packet (List UInt8)))
    (n : MessageNode) : Prop :=
  ∃ taken sent rest p', inbox = taken ++ rest ∧ Move p taken sent p' ∧
    n.Refines size p' rest (outbox ++ sent)

end MessageNode

/-- Labels without failure, cancellation or close. -/
def NodeLabel.undisturbed : NodeLabel → Bool
  | sendAcquire | sendAbandon | sendEnqueue _ | recv | dropMessage _ | publish | reap
  | dispatch => true
  | drive env => !env.permit.refuses && !env.idlePermit.refuses && env.refusal.isNone
  | service terminalError outcome _ => terminalError.isNone && outcome == .allAccepted
  | complete result => result.isOk
  | sendCancel _ | close | finishClose _ | deadline | driverDrop | arrive _ | transmit
  | terminate _ => false

namespace MessageNode

section Steps

variable {size : Nat} {n n' : MessageNode} {p p' : Peer}
  {inbox outbox : List (Packet (List UInt8))}

/-- A move that takes and sends nothing. -/
theorem Refines.of_whole (h : n.Refines size p inbox outbox)
    (hmove : Move (α := List UInt8) p [] [] n'.peer) (hinbound : n'.inbound = n.inbound)
    (houtbound : n'.outbound = n.outbound) (hwhole : n'.Whole size) :
    n'.Moved size p inbox outbox := by
  refine ⟨[], [], inbox, n'.peer, rfl, hmove, rfl, ?_, ?_, hwhole⟩
  · rw [hinbound]
    exact h.inbox
  · rw [houtbound, append_nil]
    exact h.outbox

/-- The transport moves while its endpoint's queues stay. -/
theorem Refines.moved (h : n.Refines size p inbox outbox)
    (hmove : Move (α := List UInt8) p [] [] n'.peer) (hlive : n'.msg.Live size)
    (hposted : n'.msg.helloSendPosted = n.msg.helloSendPosted)
    (hio : n'.ioClosed = n.ioClosed) (harrivals : n'.arrivals = n.arrivals)
    (hdepartures : n'.departures = n.departures) (hunacked : n'.unacked = n.unacked)
    (hqueue : n'.queue = n.queue) (hcorrelated : n'.Correlated) : n'.Moved size p inbox outbox := by
  refine h.of_whole hmove ?_ ?_ ⟨hlive, ?_, ?_, ?_, ?_, ?_, hcorrelated⟩
  · rw [inbound, harrivals, inbound]
  · rw [outbound, hdepartures, outbound]
  · exact hio.trans h.whole.ioOpen
  · rw [harrivals, hposted]
    exact h.whole.arrivals
  · rw [hdepartures, hposted]
    exact h.whole.departures
  · rw [hunacked, hposted]
    exact h.whole.unacked
  · rw [hqueue]
    exact h.whole.receipts

theorem Refines.idle (h : n.Refines size p inbox outbox) :
    Move (α := List UInt8) p [] [] n.peer := by
  rw [h.peer]
  exact .idle p

theorem Whole.arrivals_append {events : List IoEvent} (h : n.Whole size)
    (harrivals : n'.arrivals = n.arrivals ++ events)
    (hposted : n'.msg.helloSendPosted = n.msg.helloSendPosted)
    (hevents : ∀ e ∈ events, e.Clean n.msg.helloSendPosted) :
    ∀ e ∈ n'.arrivals, e.Clean n'.msg.helloSendPosted := by
  rw [harrivals, hposted]
  exact forall_mem_append.mpr ⟨h.arrivals, hevents⟩

section Calls

variable (h : n.Refines size p inbox outbox) (hcorrelated : n'.Correlated)

include h hcorrelated

theorem Refines.sendAcquire (hstep : n.sendAcquire = some n') : n'.Moved size p inbox outbox := by
  obtain ⟨hfree, rfl⟩ := Machine.of_guard hstep
  have hready : n.msg.state = .ready :=
    h.whole.live.state_cases.resolve_left hfree.1 |>.1
  have hopened := (h.whole.live.ready_iff n.acquired n.held.length).mp hready
  refine h.moved ?_ { h.whole.live with } rfl rfl rfl rfl rfl rfl hcorrelated
  obtain rfl := h.peer
  convert Move.reserve n.peer hopened hfree.2.2 using 1
  ext1
  case reserved => exact add_right_comm _ _ _
  all_goals rfl

theorem Refines.sendAbandon (hstep : n.sendAbandon = some n') : n'.Moved size p inbox outbox := by
  obtain ⟨hacquired, rfl⟩ := Machine.of_guard hstep
  refine h.moved ?_ { h.whole.live with } rfl rfl rfl rfl rfl rfl hcorrelated
  obtain rfl := h.peer
  convert Move.release n.peer (Nat.add_pos_left hacquired _) using 1
  ext1
  case reserved => exact (Nat.sub_add_comm hacquired).symm
  all_goals rfl

/-- The credit of the call goes to the request. -/
theorem Refines.sendEnqueue {data : List UInt8} (hstep : n.sendEnqueue data = some n') :
    n'.Moved size p inbox outbox := by
  unfold MessageNode.sendEnqueue at hstep
  split at hstep
  · cases hstep
  next mr entries hentries =>
  obtain ⟨hfree, rfl⟩ := Machine.of_guard hstep
  simp only [EngineMessageState.queueEvent, h.whole.live.not_closing,
    Bool.false_eq_true, if_false] at hcorrelated ⊢
  refine h.moved ?_ { h.whole.live with requests := ?_ } rfl rfl rfl rfl rfl rfl hcorrelated
  · convert h.idle using 1
    ext1
    case reserved =>
      change n.acquired - 1 + List.countP _ (n.msg.requests ++ [_]) =
        n.acquired + List.countP _ n.msg.requests
      rw [countP_append, countP_singleton]
      simp only [Option.isSome_some, if_true]
      omega
    case owed =>
      change _ + _ + List.countP _ (n.msg.events ++ [_]) + _ + _ = _
      rw [countP_append]
      rfl
    all_goals rfl
  · refine forall_mem_append.mpr ⟨h.whole.live.requests, forall_mem_singleton.mpr ?_⟩
    refine ⟨rfl, fun mr hmr => ?_⟩
    cases hmr
    exact ⟨rfl, data, h.whole.live.bufferSize ▸ hfree.2, rfl, rfl⟩

/-- A message goes from the transport to the application. -/
theorem Refines.recv (hstep : n.recv = some n') : n'.Moved size p inbox outbox := by
  obtain ⟨message, received, hreceived, rfl⟩ := recv_eq_some hstep
  refine h.moved ?_ { h.whole.live with } rfl rfl rfl rfl rfl rfl hcorrelated
  convert h.idle using 1
  ext1
  case owed =>
    have hcount : received.length + (n.held ++ [message]).length =
        n.msg.received.length + n.held.length := by
      simp only [hreceived, length_append, length_cons, length_nil]
      omega
    exact congrArg (· + _ + _ + _) hcount
  all_goals rfl

theorem Refines.dropMessage {index : Nat} (hstep : n.dropMessage index = some n') :
    n'.Moved size p inbox outbox := by
  unfold MessageNode.dropMessage at hstep
  split at hstep
  · cases hstep
  next message hheld =>
    cases hstep
    have hindex := (List.getElem?_eq_some_iff.mp hheld).1
    simp only [EngineMessageState.queueEvent, h.whole.live.not_closing,
      Bool.false_eq_true, if_false] at hcorrelated ⊢
    refine h.moved ?_ { h.whole.live with } rfl rfl rfl rfl rfl rfl hcorrelated
    convert h.idle using 1
    ext1
    case owed =>
      have hcount : n.msg.received.length + (n.held.eraseIdx index).length +
            (n.msg.events ++ [EngineMessageEvent.repost message.mr]).countP (·.isRepost) =
          n.msg.received.length + n.held.length + n.msg.events.countP (·.isRepost) := by
        have hrepost : (EngineMessageEvent.repost message.mr).isRepost = true := rfl
        rw [countP_append, length_eraseIdx_of_lt hindex, countP_singleton, if_pos hrepost]
        omega
      exact congrArg (· + _ + _) hcount
    all_goals rfl

end Calls

theorem serviceCommand_accepted {m : MessageNode} (hlive : m.msg.Live size)
    (hio : m.ioClosed = false) (command : ProtocolCommand) :
    m.serviceCommand command none .allAccepted =
      (m.post command, [.submission command.id (.allAccepted 1)]) := by
  simp only [serviceCommand, hlive.not_lost, hlive.not_cancelled, hio, Bool.false_eq_true,
    if_false, execute]
  rfl

section Reactor

variable (h : n.Refines size p inbox outbox) (hcorrelated : n'.Correlated)

include h hcorrelated

theorem Refines.publish (hstep : n.publish = n') : n'.Moved size p inbox outbox := by
  subst hstep
  refine h.moved h.idle { h.whole.live with portOpen := ?_ } rfl rfl ?_ rfl rfl rfl hcorrelated
  · change (n.msg.port.send n.turn).isOpen = true
    simp [IoEventPort.send, h.whole.live.portOpen]
  · change (n.msg.port.send n.turn).events ++ [] ++ _ = _
    simp only [IoEventPort.send, h.whole.live.portOpen, if_true, append_nil]
    rfl

theorem Refines.reap (hstep : n.reap = some n') : n'.Moved size p inbox outbox := by
  obtain ⟨_, _, hcq, rfl⟩ := reap_eq_some hstep
  refine h.moved h.idle h.whole.live rfl rfl ?_ rfl rfl rfl hcorrelated
  simp [arrivals, hcq, msg]

theorem Refines.dispatch (hstep : n.dispatch = some n') : n'.Moved size p inbox outbox := by
  obtain ⟨completion, completions, hcompletions, rfl⟩ := dispatch_eq_some hstep
  refine h.moved h.idle h.whole.live rfl rfl ?_ rfl rfl rfl hcorrelated
  simp [arrivals, hcompletions, msg]

/-- The completion of a send brings no bytes. -/
theorem Refines.complete (hstep : n.complete (.ok ()) = some n') :
    n'.Moved size p inbox outbox := by
  unfold MessageNode.complete at hstep
  split at hstep
  · cases hstep
  next send unacked hunacked =>
    cases hstep
    have hclean := h.whole.unacked
    rw [hunacked, forall_mem_cons] at hclean
    refine h.of_whole h.idle ?_ rfl { h.whole with
      arrivals := ?_
      unacked := hclean.2
      correlated := hcorrelated }
    · refine (inbound_append (arrivals_cq n [send.completion])).trans ?_
      have hbytes := IoCompletionEvent.received_eq_nil (c := send.completion) hclean.1.context
      simp [received, hbytes]
    · refine h.whole.arrivals_append (arrivals_cq n [send.completion]) rfl ?_
      intro e he
      obtain rfl := mem_singleton.mp he
      exact hclean.1.completion

/-- Receipts join the turn as far as it has room. -/
theorem Refines.appendBounded {queue : List ProtocolQueueEntry} (sq : List PostedSend)
    (rq : List Mr) {events : List IoEvent} (room : Nat)
    (hdepartures : sq ++ queue.flatMap ProtocolQueueEntry.posts =
      n.sq ++ n.queue.flatMap ProtocolQueueEntry.posts)
    (hqueue : ∀ es, .publication es ∈ queue → Receipts es) (hevents : Receipts events)
    (hstep : { n with queue, sq, rq }.appendBounded events room = n') :
    n'.Moved size p inbox outbox := by
  subst hstep
  have hposts : (({ n with queue, sq, rq }.appendBounded events room).queue).flatMap
      ProtocolQueueEntry.posts = queue.flatMap ProtocolQueueEntry.posts := by
    simp only [appendBounded]
    split <;> rfl
  have houtbound : ({ n with queue, sq, rq }.appendBounded events room).departures =
      n.departures := by
    rw [departures, hposts]
    exact congrArg (· ++ n.msg.sends) hdepartures
  have harrivals : ({ n with queue, sq, rq }.appendBounded events room).arrivals =
      n.msg.port.events ++ (n.turn ++ events.take room) ++
        (n.completions ++ n.cq).map completion := rfl
  refine h.of_whole h.idle ?_ ?_ ⟨h.whole.live, h.whole.ioOpen, ?_, ?_, h.whole.unacked, ?_,
    hcorrelated⟩
  · rw [inbound, harrivals, inbound, arrivals]
    simp only [flatMap_append, (hevents.take room).received, append_nil]
  · rw [outbound, houtbound, outbound]
  · rw [harrivals]
    intro e he
    simp only [mem_append] at he
    rcases he with (he | he | he) | he
    · exact h.whole.arrivals e (by simp [arrivals, he])
    · exact h.whole.arrivals e (by simp [arrivals, he])
    · obtain ⟨id, rfl⟩ := (hevents.take room) e he
      rfl
    · exact h.whole.arrivals e (mem_append_right _ he)
  · rw [houtbound]
    exact h.whole.departures
  · intro es hes
    simp only [appendBounded] at hes
    split at hes
    · exact hqueue es hes
    · rcases mem_cons.mp hes with hes | hes
      · obtain rfl := ProtocolQueueEntry.publication.inj hes
        exact hevents.drop room
      · exact hqueue es hes

/-- An accepted command goes to the queue pair and leaves its receipt. -/
theorem Refines.service {room : Nat} (hstep : n.service none .allAccepted room = some n') :
    n'.Moved size p inbox outbox := by
  have hreceipts := h.whole.receipts
  unfold MessageNode.service at hstep
  split at hstep
  · cases hstep
  next events queue hqueue =>
    rw [hqueue] at hreceipts
    refine h.appendBounded hcorrelated n.sq n.rq room ?_ ?_ ?_ (Option.some.inj hstep)
    · rw [hqueue]
      rfl
    · exact fun es hes => hreceipts es (mem_cons_of_mem _ hes)
    · exact hreceipts events mem_cons_self
  next command queue hqueue =>
    rw [hqueue] at hreceipts
    have hreceipt : Receipts [.submission command.id (.allAccepted 1)] := by
      intro e he
      exact ⟨command.id, mem_singleton.mp he⟩
    have hlater := fun es hes => hreceipts es (mem_cons_of_mem _ hes)
    rw [serviceCommand_accepted (m := { n with queue }) h.whole.live h.whole.ioOpen] at hstep
    have hstep := Option.some.inj hstep
    cases hbatch : command.batch with
    | recv mr =>
      refine h.appendBounded hcorrelated n.sq (n.rq ++ [mr]) room ?_ hlater hreceipt
        (Eq.trans ?_ hstep)
      · rw [hqueue]
        simp [ProtocolQueueEntry.posts, ProtocolBatch.posts, hbatch]
      · simp only [post, hbatch]
    | send mr len context =>
      refine h.appendBounded hcorrelated (n.sq ++ [⟨mr, len, context⟩]) n.rq room ?_
        hlater hreceipt (Eq.trans ?_ hstep)
      · rw [hqueue]
        simp [ProtocolQueueEntry.posts, ProtocolBatch.posts, hbatch]
      · simp only [post, hbatch]

end Reactor

section Drive

variable (h : n.Refines size p inbox outbox)

include h

variable {driver : MessageTransportDriver}

variable {t : EngineMessageState} {taken sent : List (Packet (List UInt8))}
  {posts : List PostedSend} {event : IoEvent} {events : List IoEvent}

/-- The driver's transport moves; the frames it sends join those on their way. -/
theorem Refines.advance {rest : List (Packet (List UInt8))}
    (hadvance : EngineMessageState.Advance size t driver.state taken sent posts)
    (hpeer : ∀ acquired held, t.peer acquired held = n.msg.peer acquired held)
    (hsends : t.sends = n.msg.sends) (hposted : t.helloSendPosted = n.msg.helloSendPosted)
    (hinbox : inbox = taken ++ rest)
    (hinbound : List.Forall₂ (Carries size) { n with driver }.inbound rest)
    (harrivals : ∀ e ∈ { n with driver }.arrivals, e ∈ n.arrivals)
    (hcorrelated : { n with driver }.Correlated) :
    { n with driver }.Moved size p inbox outbox := by
  have hdepartures : { n with driver }.departures = n.departures ++ posts := by
    change n.sq ++ n.queue.flatMap ProtocolQueueEntry.posts ++ driver.state.sends = _
    rw [hadvance.sends, hsends, ← append_assoc, departures]
  have hkept : n.msg.helloSendPosted = true → driver.state.helloSendPosted = true :=
    fun hn => hadvance.posted (hposted.trans hn)
  refine ⟨taken, sent, rest, _, hinbox, ?_, rfl, hinbound, ?_,
    ⟨hadvance.live, h.whole.ioOpen, ?_, ?_, ?_, h.whole.receipts, hcorrelated⟩⟩
  · have hmove := hadvance.move n.acquired n.held.length
    rw [hpeer] at hmove
    exact h.peer ▸ hmove
  · rw [outbound, hdepartures, map_append]
    exact rel_append h.outbox hadvance.carries
  · exact fun e he => (h.whole.arrivals e (harrivals e he)).mono hkept
  · rw [hdepartures]
    refine forall_mem_append.mpr ⟨fun send hsend => ?_, hadvance.clean⟩
    exact (h.whole.departures send hsend).mono hkept
  · exact fun send hsend => (h.whole.unacked send hsend).mono hkept

/-- A command goes from the admission queue to the reactor. -/
theorem Refines.admission {permit : PermitPoll}
    {out : Option ProtocolCommand} (hgranted : permit.refuses = false)
    (hpoll : n.msg.pollAdmission permit = some (driver.state, out)) (hn' : n' = { n with
      driver
      queue := n.queue ++ (out.map ProtocolQueueEntry.command).toList })
    (hcorrelated : n'.Correlated) : n'.Moved size p inbox outbox := by
  have hlive := h.whole.live
  generalize hstate : driver.state = t at hpoll
  obtain ⟨command, rest, hpending, hpolled⟩ := EngineMessageState.pollAdmission_cases hpoll
  cases hpolled with
  | lost hlost => cases hlive.not_lost.symm.trans hlost
  | cancelled _ hcancelled =>
    cases (hlive.not_cancelled command).symm.trans hcancelled
  | rejected _ hrefused => cases hgranted.symm.trans hrefused
  | granted =>
    have hmsg : n'.msg = { n.msg with admissionPending := rest } := hn' ▸ hstate
    have hpeer : n'.peer = n.peer := by
      rw [MessageNode.peer, hmsg, hn']
      rfl
    have harrivals : n'.arrivals = n.arrivals := by
      rw [arrivals, hmsg, hn']
      rfl
    have hdepartures : n'.departures = n.departures := by
      rw [departures, hmsg, hn', departures, EngineMessageState.sends,
        EngineMessageState.sends, hpending]
      simp [ProtocolQueueEntry.posts]
    refine h.of_whole (hpeer ▸ h.idle) ?_ ?_ ⟨?_, ?_, ?_, ?_, ?_, ?_, hcorrelated⟩
    · rw [inbound, harrivals, inbound]
    · rw [outbound, hdepartures, outbound]
    · rw [hmsg]
      exact { hlive with }
    · rw [hn']
      exact h.whole.ioOpen
    · rw [harrivals, hmsg]
      exact h.whole.arrivals
    · rw [hdepartures, hmsg]
      exact h.whole.departures
    · rw [hmsg, hn']
      exact h.whole.unacked
    · rw [hn']
      intro events hevents
      rcases mem_append.mp hevents with hevents | hevents
      · exact h.whole.receipts events hevents
      · cases mem_singleton.mp hevents

/-- The driver's transport moves without taking an event of the port. -/
theorem Refines.advance_keep
    (hadvance : EngineMessageState.Advance size t driver.state [] sent posts)
    (hpeer : ∀ acquired held, t.peer acquired held = n.msg.peer acquired held)
    (hsends : t.sends = n.msg.sends) (hposted : t.helloSendPosted = n.msg.helloSendPosted)
    (hport : t.port = n.msg.port) (hcorrelated : { n with driver }.Correlated) :
    { n with driver }.Moved size p inbox outbox := by
  have harrivals : { n with driver }.arrivals = n.arrivals := by
    simp [arrivals, msg, hadvance.port, hport]
  refine h.advance hadvance hpeer hsends hposted rfl ?_ ?_ hcorrelated
  · rw [inbound, harrivals]
    exact h.inbox
  · rw [harrivals]
    exact fun _ => id

/-- The driver takes the oldest event of the port; `taken` is the packet that the
event brings, if any. -/
theorem Refines.pop (hevents : n.msg.port.events = event :: events)
    (hadvance : EngineMessageState.Advance size
      { n.msg with port := { n.msg.port with events } } driver.state taken sent posts)
    (htaken : ∀ rest, List.Forall₂ (Carries size) (event.received ++ rest) inbox →
      ∃ later, inbox = taken ++ later ∧ List.Forall₂ (Carries size) rest later)
    (hcorrelated : { n with driver }.Correlated) :
    { n with driver }.Moved size p inbox outbox := by
  have harrivals : n.arrivals = event :: { n with driver }.arrivals := by
    rw [arrivals, hevents, arrivals, msg, hadvance.port]
    rfl
  have hinbound : n.inbound = event.received ++ { n with driver }.inbound := by
    rw [inbound, harrivals, flatMap_cons, inbound]
  obtain ⟨_, hinbox, hlater⟩ := htaken _ (hinbound ▸ h.inbox)
  refine h.advance hadvance (fun _ _ => rfl) rfl rfl hinbox hlater ?_ hcorrelated
  rw [harrivals]
  exact fun e he => mem_cons_of_mem event he

/-- A receipt finds the transition of its command. -/
theorem Refines.receipt {id : Nat} {disposition : IoSubmissionDisposition}
    (hevents : n.msg.port.events = .submission id disposition :: events) :
    ∃ transition rest, n.msg.pendingProtocolTransitions = (id, transition) :: rest := by
  obtain ⟨-, horder⟩ := h.whole.correlated.order.opened h.whole.live.admissionOpen
  simp only [EngineMessageState.receiptView, hevents, receiptIds_submission, cons_append] at horder
  cases htransitions : n.msg.pendingProtocolTransitions with
  | nil => simp [htransitions] at horder
  | cons recorded rest =>
    obtain ⟨rfl, -⟩ : id = recorded.1 ∧ _ := by simpa [htransitions] using horder
    exact ⟨recorded.2, rest, rfl⟩

variable (hmin : helloPayloadSize ≤ size) (hmax : size < 2 ^ 32)
  (haccepts : ∀ x rest, inbox = x :: rest → p.Accepts x)

include hmin hmax haccepts

/-- The driver takes an event of the port. -/
theorem Refines.io (hevents : n.msg.port.events = event :: events)
    (hdata : n.msg.state = .created → event.data = none) (hstate : driver.state =
      { n.msg with port := { n.msg.port with events } }.processIoEvent event none)
    (hcorrelated : { n with driver }.Correlated) :
    { n with driver }.Moved size p inbox outbox := by
  have hlive : EngineMessageState.Live size
      { n.msg with port := { n.msg.port with events } } := { h.whole.live with }
  have hclean := h.whole.arrivals event (by simp [arrivals, hevents])
  cases event with
  | terminal event => exact hclean.elim
  | submission id disposition =>
    obtain rfl : disposition = .allAccepted 1 := hclean
    obtain ⟨transition, rest, htransitions⟩ := h.receipt hevents
    have hadvance := hlive.processReceipt id htransitions
    refine h.pop hevents (hstate ▸ hadvance) ?_ hcorrelated
    exact fun rest hrest => ⟨inbox, rfl, hrest⟩
  | completion c =>
    have hstate : driver.state =
        { n.msg with port := { n.msg.port with events } }.processIoCompletion c none := by
      rw [hstate, EngineMessageState.processIoEvent, if_neg]
      exact Bool.eq_false_iff.mp hlive.not_closing
    obtain ⟨mr, len, hmr, hresult, hlen⟩ := hclean.succeeded
    have hquiet (hcontext : c.context ≠ .receive) (hadvance : EngineMessageState.Advance size
          { n.msg with port := { n.msg.port with events } } driver.state [] [] []) :
        { n with driver }.Moved size p inbox outbox := by
      refine h.pop hevents hadvance ?_ hcorrelated
      rw [received, IoCompletionEvent.received_eq_nil hcontext]
      exact fun rest hrest => ⟨inbox, rfl, hrest⟩
    cases hcontext : c.context with
    | helloSend =>
      refine hquiet (by simp [hcontext]) (hstate ▸ ?_)
      exact hlive.processHelloSend hcontext hresult hclean.accepted (hclean.hello hcontext)
    | send request =>
      refine hquiet (by simp [hcontext]) (hstate ▸ ?_)
      exact hlive.processSend (.inr ⟨request, hcontext⟩) hresult hmr hclean.accepted hclean.started
    | controlSend =>
      refine hquiet (by simp [hcontext]) (hstate ▸ ?_)
      exact hlive.processSend (.inl hcontext) hresult hmr hclean.accepted hclean.started
    | receive =>
      have hbytes : (completion c).received = [mr.content.take len] := by
        simp only [received, IoCompletionEvent.received, hcontext, hresult, hmr]
      have hcontent : mr.content = mr.content.take len ++ mr.content.drop len :=
        (take_append_drop len mr.content).symm
      have htake : (mr.content.take len).length = len :=
        length_take_of_le (hlen hcontext)
      obtain ⟨packet, later, hcarries, hinbox⟩ : ∃ packet later,
          Carries size (mr.content.take len) packet ∧ inbox = packet :: later := by
        have hinbox := h.inbox
        simp only [inbound, arrivals, hevents, cons_append, flatMap_cons,
          hbytes, nil_append] at hinbox
        cases hinbox with
        | cons hcarries => exact ⟨_, _, hcarries, rfl⟩
      have haccepts : n.peer.Accepts packet := h.peer ▸ haccepts packet later hinbox
      have hready (payload : List UInt8) (hpacket : packet = .data payload) :
          n.msg.state = .ready := by
        refine (hlive.state_cases.resolve_left ?_).1
        intro hcreated
        have hsome := (hpacket ▸ hcarries).dataOf hmax (mr.content.drop len)
        rw [← hcontent, htake] at hsome
        have hnone := hdata hcreated
        simp only [data, IoCompletionEvent.data, hcontext, hresult, hmr, hsome] at hnone
        cases hnone
      obtain ⟨posts, hadvance⟩ :=
        hlive.processReceive hmin hmax hcarries haccepts hready hcontent
      have hadvance : EngineMessageState.Advance size
          { n.msg with port := { n.msg.port with events } } driver.state [packet] []
          posts := by
        rw [htake] at hadvance
        rw [hstate]
        simpa only [EngineMessageState.processIoCompletion, hcontext, hresult, hmr] using hadvance
      refine h.pop hevents hadvance ?_ hcorrelated
      intro rest hrest
      rw [hbytes, hinbox] at hrest
      cases hrest with
      | cons _ hrest => exact ⟨later, hinbox, hrest⟩

/-- One iteration of the driver.  DATA is taken only by a ready transport. -/
theorem Refines.drive (hclosed : p.opened = false → p.owed = 0)
    (hdata : n.msg.state = .created → ∀ e events, n.msg.port.events = e :: events →
      e.data = none) {env : DriveEnv} (hpermit : env.permit.refuses = false)
    (hidle : env.idlePermit.refuses = false) (hrefusal : env.refusal = none)
    (hstep : n.drive env = some n') (hcorrelated : n'.Correlated) :
    n'.Moved size p inbox outbox := by
  have hlive := h.whole.live
  obtain ⟨driver, _, hiteration, hn'⟩ := drive_eq_some hstep
  generalize hstate : driver.state = state at hiteration
  cases hiteration with
  | admission hwhich hpoll =>
    subst hstate
    refine h.admission ?_ hpoll hn' hcorrelated
    rcases hwhich with rfl | rfl
    · exact hpermit
    · exact hidle
  | credit hflush =>
    rw [hrefusal] at hflush
    obtain ⟨sent, posts, hadvance⟩ := hlive.flushOneCredit hflush
    simp only [Option.map_none, Option.toList_none, append_nil] at hn'
    subst hstate hn'
    exact h.advance_keep hadvance (fun _ _ => rfl) rfl rfl rfl hcorrelated
  | @protocol event events hevents =>
    simp only [Option.map_none, Option.toList_none, append_nil] at hn'
    subst hn'
    rw [hrefusal] at hstate
    have hpopped (hevent : event.isRepost = false) (acquired held : Nat) :
        { n.msg with events }.peer acquired held = n.msg.peer acquired held := by
      simp [EngineMessageState.peer, hevents, hevent]
    cases event with
    | start =>
      obtain ⟨sent, posts, hadvance⟩ :=
        EngineMessageState.Live.startHelloSend (s := { n.msg with events }) { hlive with }
      exact h.advance_keep (by rw [hstate]; exact hadvance) (hpopped rfl) rfl rfl rfl hcorrelated
    | repost =>
      have hready : n.msg.state = .ready := by
        rw [hlive.ready_iff n.acquired n.held.length]
        by_contra hopened
        have howed := hclosed (h.peer ▸ Bool.eq_false_iff.mpr hopened)
        rw [← h.peer] at howed
        simp [MessageNode.peer, EngineMessageState.peer, hevents, countP_cons] at howed
      obtain ⟨sent, posts, hadvance⟩ := hlive.processRepost hevents hready
      exact h.advance_keep (by rw [hstate]; exact hadvance) (fun _ _ => rfl) rfl rfl rfl hcorrelated
    | sendRequest request =>
      obtain ⟨sent, posts, hadvance⟩ :=
        EngineMessageState.Live.processSendRequest (s := { n.msg with events })
          { hlive with } request
      exact h.advance_keep (by rw [hstate]; exact hadvance) (hpopped rfl) rfl rfl rfl hcorrelated
  | @io event events hevents =>
    simp only [Option.map_none, Option.toList_none, append_nil] at hn'
    subst hn'
    rw [hrefusal] at hstate
    exact h.io hmin hmax haccepts hevents (fun hcreated => hdata hcreated _ _ hevents)
      hstate hcorrelated

end Drive

theorem arrive_eq_some {bytes : List UInt8} (h : n.arrive (.ok bytes) = some n') :
    ∃ mr rq, n.rq = mr :: rq ∧ n' = { n with rq, cq := n.cq ++ [mr.arrival bytes] } := by
  unfold arrive at h
  split at h
  · cases h
  next mr rq hrq => exact ⟨mr, rq, hrq, (Option.some.inj h).symm⟩

variable {l : NodeLabel}

/-- Nothing is resolved at admission. -/
theorem Whole.resolvesInOrder (h : n.Whole size) (hl : l.undisturbed = true) :
    n.resolvesInOrder l = true := by
  cases l with
  | drive env =>
    simp only [NodeLabel.undisturbed, Bool.and_eq_true, Bool.not_eq_true'] at hl
    have hquiet (permit : PermitPoll) (hpermit : permit.refuses = false) :
        n.msg.resolvesAtAdmission permit = false := by
      unfold EngineMessageState.resolvesAtAdmission
      split
      · rfl
      · rw [h.live.not_cancelled, hpermit]
        rfl
    simp [resolvesInOrder, hquiet _ hl.1.1, hquiet _ hl.1.2]
  | _ => rfl

variable (h : n.Refines size p inbox outbox)

include h

/-- Every undisturbed step of an endpoint is a move of its link end. -/
theorem Refines.step (hmin : helloPayloadSize ≤ size) (hmax : size < 2 ^ 32)
    (haccepts : ∀ x rest, inbox = x :: rest → p.Accepts x) (hclosed : p.opened = false → p.owed = 0)
    (hl : l.undisturbed = true) (hdata : ∀ env, l = .drive env → n.msg.state = .created →
      ∀ e events, n.msg.port.events = e :: events → e.data = none)
    (hstep : n.step l = some n') : n'.Moved size p inbox outbox := by
  have hcorrelated := h.whole.correlated.step (h.whole.resolvesInOrder hl) hstep
  cases l with
  | sendAcquire => exact h.sendAcquire hcorrelated hstep
  | sendAbandon => exact h.sendAbandon hcorrelated hstep
  | sendEnqueue => exact h.sendEnqueue hcorrelated hstep
  | recv => exact h.recv hcorrelated hstep
  | dropMessage => exact h.dropMessage hcorrelated hstep
  | drive env =>
    simp only [NodeLabel.undisturbed, Bool.and_eq_true, Bool.not_eq_true',
      Option.isNone_iff_eq_none] at hl
    exact h.drive hmin hmax haccepts hclosed (hdata env rfl) hl.1.1 hl.1.2 hl.2 hstep hcorrelated
  | service =>
    simp only [NodeLabel.undisturbed, Bool.and_eq_true, Option.isNone_iff_eq_none, beq_iff_eq] at hl
    obtain ⟨rfl, rfl⟩ := hl
    exact h.service hcorrelated hstep
  | publish => exact h.publish hcorrelated (Option.some.inj hstep)
  | complete result =>
    cases result with
    | ok => exact h.complete hcorrelated hstep
    | error _ => cases hl
  | reap => exact h.reap hcorrelated hstep
  | dispatch => exact h.dispatch hcorrelated hstep
  | _ => cases hl

/-- The oldest send leaves the endpoint. -/
theorem Refines.transmit {send : PostedSend} (hstep : n.transmit = some (n', send)) :
    ∃ packet rest, outbox = packet :: rest ∧ Carries size send.bytes packet ∧
      n'.Refines size p inbox rest := by
  have hcorrelated : n'.Correlated := h.whole.correlated.step (l := .transmit) rfl
    (by rw [MessageNode.step, hstep]; rfl)
  obtain ⟨sq, hsq, rfl⟩ := transmit_eq_some hstep
  have hdepartures : n.departures = send ::
      (sq ++ n.queue.flatMap ProtocolQueueEntry.posts ++ n.msg.sends) := by
    rw [departures, hsq]
    rfl
  have houtbox := h.outbox
  have hclean := h.whole.departures
  rw [outbound, hdepartures, map_cons] at houtbox
  rw [hdepartures, forall_mem_cons] at hclean
  cases houtbox with
  | cons hcarries hrest =>
    refine ⟨_, _, rfl, hcarries, h.peer, h.inbox, hrest, { h.whole with
      departures := hclean.2
      unacked := ?_
      correlated := hcorrelated }⟩
    exact forall_mem_append.mpr ⟨h.whole.unacked, forall_mem_singleton.mpr hclean.1⟩

/-- A frame reaches the endpoint. -/
theorem Refines.arrive {bytes : List UInt8} {packet : Packet (List UInt8)}
    (hcarries : Carries size bytes packet) (hstep : n.arrive (.ok bytes) = some n') :
    n'.Refines size p (inbox ++ [packet]) outbox := by
  have hcorrelated : n'.Correlated := h.whole.correlated.step (l := .arrive (.ok bytes)) rfl hstep
  obtain ⟨mr, rq, -, rfl⟩ := arrive_eq_some hstep
  have hinbound : inbound { n with rq, cq := n.cq ++ [mr.arrival bytes] } =
      n.inbound ++ [bytes] := by
    refine (inbound_append (arrivals_cq n [mr.arrival bytes])).trans ?_
    simp [received, IoCompletionEvent.received, Mr.arrival]
  refine ⟨h.peer, ?_, h.outbox, { h.whole with
    arrivals := ?_
    correlated := hcorrelated }⟩
  · rw [hinbound]
    exact rel_append h.inbox (.cons hcarries .nil)
  · refine h.whole.arrivals_append (arrivals_cq n [mr.arrival bytes]) rfl ?_
    intro e he
    obtain rfl := mem_singleton.mp he
    exact ⟨rfl, rfl, ⟨_, _, rfl, rfl, fun _ => by simp⟩, nofun⟩

end Steps

end MessageNode

/-- The parameters and buffers with which an endpoint is set up. -/
structure Endpoint where
  recvCount : Nat
  bufferSize : Nat
  dataSends : List Mr
  controlSends : List Mr
  helloSend : Mr
  receives : List Mr
deriving Repr, DecidableEq

def Endpoint.node (e : Endpoint) : MessageNode :=
  .new (.new e.recvCount e.bufferSize e.dataSends e.controlSends e.helloSend) e.receives

/-- Each endpoint can take the other's HELLO: the buffer sizes agree, a HELLO fits
a buffer, and the announced numbers fit 32 bits. -/
structure Compatible (size : Nat) (ends : Duplex Endpoint) : Prop where
  hello : helloPayloadSize ≤ size
  size_lt : size < 2 ^ 32
  bufferSize : ∀ s, (ends.get s).bufferSize = size
  recvCount : ∀ s, 0 < (ends.get s).recvCount ∧ (ends.get s).recvCount < 2 ^ 32

inductive ConversationLabel where
  | node (side : Side) (label : NodeLabel)
  /-- The oldest frame of the side reaches the other side. -/
  | deliver (side : Side)
deriving Repr, DecidableEq

namespace Conversation

def start (ends : Duplex Endpoint) : Duplex MessageNode where
  a := ends.a.node
  b := ends.b.node

def step (nodes : Duplex MessageNode) : ConversationLabel → Option (Duplex MessageNode)
  | .node side label =>
    if label.undisturbed then ((nodes.get side).step label).map (nodes.set side)
    else none
  | .deliver side =>
    (nodes.get side).transmit.bind fun sent =>
      ((nodes.get side.other).arrive (.ok sent.2.bytes)).map
        ((nodes.set side sent.1).set side.other)

/-- No driver iteration of a side that is still CREATED finds a DATA frame at the
head of its port. -/
def dataAwaitsReady (nodes : Duplex MessageNode) : ConversationLabel → Bool
  | .node side (.drive _) =>
    !((nodes.get side).msg.state == .created &&
      (nodes.get side).msg.port.events.head?.any fun e => e.data.isSome)
  | _ => true

/-- Both endpoints stand for the ends of a link whose wires are spread over
them. -/
def Refines (size : Nat) (nodes : Duplex MessageNode) (link : Link (List UInt8)) : Prop :=
  ∃ inbox outbox : Duplex (List (Packet (List UInt8))),
    (∀ s, (nodes.get s).Refines size (link.peers.get s) (inbox.get s) (outbox.get s)) ∧
      ∀ s, link.wires.get s = inbox.get s.other ++ outbox.get s

variable {size : Nat} {nodes nodes' : Duplex MessageNode} {link : Link (List UInt8)}

variable {side : Side}

/-- A frame on its way between the endpoints stays on its wire. -/
theorem Refines.deliver (h : Refines size nodes link)
    (hstep : step nodes (.deliver side) = some nodes') : Refines size nodes' link := by
  obtain ⟨⟨_, _⟩, hsent, harrived⟩ := Option.bind_eq_some_iff.mp hstep
  obtain ⟨_, harrive, rfl⟩ := Option.map_eq_some_iff.mp harrived
  obtain ⟨inbox, outbox, hnodes, hwires⟩ := h
  obtain ⟨packet, rest, houtbox, hcarries, hsender⟩ := (hnodes side).transmit hsent
  have hreceiver := (hnodes side.other).arrive hcarries harrive
  refine ⟨inbox.set side.other (inbox.get side.other ++ [packet]), outbox.set side rest,
    Duplex.forall_side side ?_ ?_, Duplex.forall_side side ?_ ?_⟩
  · simpa using hsender
  · simpa using hreceiver
  · simp [hwires, houtbox]
  · simp [hwires]

/-- A step of an endpoint is a step of the link. -/
theorem Refines.node (h : Refines size nodes link) (hsound : link.Sound)
    (hmin : helloPayloadSize ≤ size) (hmax : size < 2 ^ 32) {l : NodeLabel}
    (hawaits : dataAwaitsReady nodes (.node side l) = true)
    (hstep : step nodes (.node side l) = some nodes') :
    ∃ link', link.Step link' ∧ Refines size nodes' link' := by
  simp only [step] at hstep
  split at hstep
  next hl =>
    obtain ⟨n, hnode, rfl⟩ := Option.map_eq_some_iff.mp hstep
    obtain ⟨inbox, outbox, hnodes, hwires⟩ := h
    have hwire : link.wires.get side.other = inbox.get side ++ outbox.get side.other := by
      simpa using hwires side.other
    have haccepts (x : Packet (List UInt8)) (rest : List (Packet (List UInt8)))
        (hinbox : inbox.get side = x :: rest) : (link.peers.get side).Accepts x := by
      rw [hinbox] at hwire
      exact hsound.accepts hwire
    have hclosed (hopened : (link.peers.get side).opened = false) :
        (link.peers.get side).owed = 0 :=
      ((hsound side).closed hopened).2.2
    have hdata (env : DriveEnv) (hdrive : l = .drive env)
        (hcreated : (nodes.get side).msg.state = .created) (e : IoEvent)
        (events : List IoEvent) (hevents : (nodes.get side).msg.port.events = e :: events) :
        e.data = none := by
      subst hdrive
      simpa [dataAwaitsReady, hcreated, hevents] using hawaits
    obtain ⟨taken, sent, rest, p, hinbox, hmove, hrefines⟩ :=
      (hnodes side).step hmin hmax haccepts hclosed hl hdata hnode
    have htaken : link.wires.get side.other = taken ++ (rest ++ outbox.get side.other) := by
      rw [hwire, hinbox, append_assoc]
    refine ⟨_, .move side hmove htaken, inbox.set side rest, outbox.set side (outbox.get side ++ sent),
      Duplex.forall_side side ?_ ?_, Duplex.forall_side side ?_ ?_⟩
    · simpa using hrefines
    · simpa using hnodes side.other
    · simp [hwires]
    · simp
  next => cases hstep

/-- The endpoints stand for a link whose traffic is sound. -/
def Orderly (size : Nat) (nodes : Duplex MessageNode) : Prop :=
  ∃ link, link.Sound ∧ Refines size nodes link

theorem Orderly.step (hmin : helloPayloadSize ≤ size) (hmax : size < 2 ^ 32)
    (h : Orderly size nodes) {l : ConversationLabel} (hawaits : dataAwaitsReady nodes l = true)
    (hstep : step nodes l = some nodes') : Orderly size nodes' := by
  obtain ⟨link, hsound, hrefines⟩ := h
  cases l with
  | node side label =>
    obtain ⟨link', hlink, hrefines'⟩ := hrefines.node hsound hmin hmax hawaits hstep
    exact ⟨link', hsound.step hlink, hrefines'⟩
  | deliver side => exact ⟨link, hsound, hrefines.deliver hstep⟩

/-- A new endpoint stands for a fresh link end. -/
theorem refines_new (e : Endpoint) (hrecv : 0 < e.recvCount ∧ e.recvCount < 2 ^ 32) :
    e.node.Refines e.bufferSize (.fresh e.recvCount) [] [] where
  peer := rfl
  inbox := .nil
  outbox := .nil
  whole :=
    { live :=
        { state := rfl, admissionOpen := rfl, portOpen := rfl, bufferSize := rfl
          helloSend := fun _ => rfl, capacity := hrecv, requests := nofun }
      ioOpen := rfl
      arrivals := forall_mem_nil _
      departures := forall_mem_nil _
      unacked := forall_mem_nil _
      receipts := nofun
      correlated := correlated_new _ _ _ _ _ _ }

theorem orderly_start {ends : Duplex Endpoint} (h : Compatible size ends) :
    Orderly size (start ends) := by
  refine ⟨⟨⟨.fresh ends.a.recvCount, .fresh ends.b.recvCount⟩, ⟨[], []⟩⟩, ?_,
    ⟨[], []⟩, ⟨[], []⟩, ?_, ?_⟩
  · exact Duplex.forall_side .a (CreditLink.Flow.fresh _ _) (CreditLink.Flow.fresh _ _)
  · refine Duplex.forall_side .a ?_ ?_
    · exact h.bufferSize .a ▸ refines_new ends.a (h.recvCount .a)
    · exact h.bufferSize .b ▸ refines_new ends.b (h.recvCount .b)
  · exact Duplex.forall_side .a rfl rfl

theorem Orderly.not_failed (h : Orderly size nodes) (side : Side) :
    (nodes.get side).msg.state ≠ .failed := by
  obtain ⟨link, -, inbox, outbox, hnodes, -⟩ := h
  rcases (hnodes side).whole.live.state_cases with hstate | ⟨hstate, -⟩ <;>
    rw [hstate] <;> nofun

/-- In every run in which no driver iteration of a CREATED side finds a DATA
frame at the head of its port, neither side fails with a protocol violation. -/
theorem peers_never_violate (size : Nat) (ends : Duplex Endpoint)
    (hcompatible : Compatible size ends) (trace : List ConversationLabel)
    (nodes : Duplex MessageNode)
    (hawaits : Machine.Along step (fun nodes l => dataAwaitsReady nodes l = true)
      (start ends) trace)
    (hrun : Machine.run step (start ends) trace = some nodes) (side : Side) :
    ¬ ((nodes.get side).msg.state = .failed ∧
      ∃ text, (nodes.get side).msg.error = some (.protocolViolation text)) := by
  intro hviolated
  have horderly : Orderly size nodes :=
    Machine.run_invariant (fun _ _ _ h hl hstep =>
        h.step hcompatible.hello hcompatible.size_lt hl hstep)
      (orderly_start hcompatible) hawaits hrun
  exact horderly.not_failed side hviolated.1

/-- An endpoint with one data buffer each way, for concrete runs. -/
def twin : Endpoint where
  recvCount := 1
  bufferSize := 16
  dataSends := [⟨1, []⟩]
  controlSends := [⟨2, []⟩, ⟨3, []⟩]
  helloSend := ⟨4, []⟩
  receives := [⟨5, []⟩, ⟨6, []⟩, ⟨7, []⟩]

section Traces

open MessageNode (driveGranted serviceAccepted)

def on (side : Side) (labels : List NodeLabel) : List ConversationLabel :=
  labels.map (.node side)

/-- A submission passes admission and the reactor, and its receipt is applied. -/
def submitted : List NodeLabel :=
  [driveGranted, driveGranted] ++ serviceAccepted ++ [driveGranted]

/-- A frame of the side reaches the port of the other side. -/
def delivered (side : Side) : List ConversationLabel :=
  .deliver side :: on side.other [.reap, .dispatch, .publish]

/-- The HELLO of the side has completed. -/
def confirmed : List NodeLabel :=
  [.complete (.ok ()), .reap, .dispatch, .publish, driveGranted]

/-- Both sides announce themselves and the first side is answered. -/
def answered : List ConversationLabel :=
  on .a submitted ++ on .b submitted ++ delivered .b ++ on .a submitted

/-- A message is sent once both sides are ready, and its credit returns. -/
def exchange : List ConversationLabel :=
  answered ++ delivered .a ++ on .b submitted ++ on .a confirmed ++ on .b confirmed ++
    on .a ([.sendAcquire, .sendEnqueue [7]] ++ submitted) ++ delivered .a ++
    on .b ([driveGranted, .recv, .dropMessage 0] ++ submitted ++ submitted) ++
    delivered .b ++ on .a [driveGranted]

/-- The first side is ready and sends before the second side's driver has taken
its HELLO; the HELLO and the DATA frame reach the second side's port together. -/
def earlyData : List ConversationLabel :=
  answered ++ [.deliver .a] ++ on .a confirmed ++
    on .a ([.sendAcquire, .sendEnqueue [7]] ++ submitted) ++ [.deliver .a] ++
    on .b [.reap, .reap, .dispatch, .dispatch, .publish, driveGranted, driveGranted,
      driveGranted]

end Traces

theorem peers_never_violate_exchange :
    ((Machine.run step (start ⟨twin, twin⟩) exchange).map fun nodes =>
        (nodes.a.msg.state, nodes.b.msg.state, nodes.a.msg.remoteCredits)) =
      some (.ready, .ready, 1) ∧
    ∀ nodes, Machine.run step (start ⟨twin, twin⟩) exchange = some nodes →
      ∀ side, ¬ ((nodes.get side).msg.state = .failed ∧
        ∃ text, (nodes.get side).msg.error = some (.protocolViolation text)) :=
  ⟨by decide +kernel, fun nodes hrun side =>
    peers_never_violate 16 ⟨twin, twin⟩ ⟨by decide, by decide, Duplex.forall_side .a rfl rfl,
        Duplex.forall_side .a (by decide) (by decide)⟩
      exchange nodes (by decide +kernel) hrun side⟩

/-- The second side waits for the receipt of its repost and takes the DATA frame
for a HELLO. -/
theorem earlyData_violates : ((Machine.run step (start ⟨twin, twin⟩) earlyData).map fun nodes =>
        (nodes.a.msg.state, nodes.b.msg.state, nodes.b.msg.error)) =
      some (.ready, .failed,
        some (.protocolViolation "expected HELLO, got frame_type=0")) := by
  decide +kernel

end Conversation

end RdmaIo.Message
