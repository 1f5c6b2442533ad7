/-
What a live endpoint can do in one step.

The view of an endpoint is the view of its transport with the queues around it.
Each step of an endpoint is a step of its view, or it closes the transport; an
endpoint whose transport is closed posts nothing and receives nothing more.
-/
import RdmaIo.Message.Action
import RdmaIo.Message.Conversation

namespace RdmaIo.Message

open TransportView (Action)

/-- Labels that an endpoint takes without its peer. -/
def NodeLabel.isLocal : NodeLabel → Bool
  | transmit | arrive (.ok _) => false
  | _ => true

/-- The payload that a send call enqueues. -/
def NodeLabel.enqueued : NodeLabel → List (List UInt8)
  | sendEnqueue data => [data]
  | _ => []

/-- The buffer that a command posts for receiving. -/
def ProtocolBatch.receives : ProtocolBatch → List Mr
  | recv mr => [mr]
  | send _ _ _ => []

structure NodeView where
  transport : TransportView
  acquired : Nat
  held : List CompletedRecv
  queue : List ProtocolQueueEntry
  turn : List IoEvent
  rq : List Mr
  sq : List PostedSend
  unacked : List PostedSend
  /-- Completions that the reactor has not dispatched. -/
  completions : List IoCompletionEvent

namespace NodeView

def appendBounded (v : NodeView) (events : List IoEvent) (room : Nat) : NodeView :=
  { v with
    turn := v.turn ++ events.take room
    queue :=
      if (events.drop room).isEmpty then v.queue
      else .publication (events.drop room) :: v.queue }

def post (v : NodeView) (command : ProtocolCommand) : NodeView :=
  { v with
    rq := v.rq ++ command.batch.receives
    sq := v.sq ++ command.batch.posts }

/-- A call of the application, which may enqueue a payload, or an iteration of the
driver. -/
inductive Call (v : NodeView) : List (List UInt8) → NodeView → Prop
  | acquire (hfree : 0 < v.transport.available) :
      Call v []
        { v with
          transport := { v.transport with available := v.transport.available - 1 }
          acquired := v.acquired + 1 }
  | abandon (hacquired : 0 < v.acquired) :
      Call v []
        { v with
          transport := { v.transport with available := v.transport.available + 1 }
          acquired := v.acquired - 1 }
  | enqueue (data : List UInt8) (mr : Mr) (hacquired : 0 < v.acquired)
      (hsize : data.length ≤ v.transport.size) :
      Call v [data]
        { v with
          transport :=
            { v.transport with
              requests := v.transport.requests ++
                [{ mr := some { mr with content := writeDataFrame data }, credit := true
                   committed := false, frameLen := (writeDataFrame data).length }]
              events := v.transport.events ++ [.sendRequest v.transport.requests.length] }
          acquired := v.acquired - 1 }
  | recv {message : CompletedRecv} {received : List CompletedRecv}
      (hreceived : v.transport.received = message :: received) :
      Call v []
        { v with
          transport := { v.transport with received }
          held := v.held ++ [message] }
  | drop {index : Nat} {message : CompletedRecv} (hheld : v.held[index]? = some message) :
      Call v []
        { v with
          transport :=
            { v.transport with events := v.transport.events ++ [.repost message.mr] }
          held := v.held.eraseIdx index }
  | act {out : Option ProtocolCommand} {t : TransportView} (haction : Action v.transport out t) :
      Call v []
        { v with
          transport := t
          queue := v.queue ++ (out.map ProtocolQueueEntry.command).toList }

/-- A piece of work of the reactor or the queue pair. -/
inductive Work (v : NodeView) : NodeView → Prop
  | keep : Work v v
  | republish {events : List IoEvent} {queue : List ProtocolQueueEntry}
      (hqueue : v.queue = .publication events :: queue) (room : Nat) :
      Work v ({ v with queue }.appendBounded events room)
  | cancel {command : ProtocolCommand} {queue : List ProtocolQueueEntry} {request : Nat}
      (hqueue : v.queue = .command command :: queue)
      (hcontext : command.context = .send request) (room : Nat) :
      Work v ({ v with queue }.appendBounded command.cancelledEvents room)
  | reject {command : ProtocolCommand} {queue : List ProtocolQueueEntry}
      (hqueue : v.queue = .command command :: queue) (error : Error) (room : Nat) :
      Work v ({ v with queue }.appendBounded (command.rejectedEvents error) room)
  | post {command : ProtocolCommand} {queue : List ProtocolQueueEntry}
      (hqueue : v.queue = .command command :: queue) {disposition : IoSubmissionDisposition}
      (haccepted : disposition.potentiallyAccepted = true) (room : Nat) :
      Work v (({ v with queue }.post command).appendBounded
        [.submission command.id disposition] room)
  | publish :
      Work v
        { v with
          transport := { v.transport with port := v.transport.port ++ v.turn }
          turn := [] }
  | fault {mr : Mr} {rq : List Mr} (hrq : v.rq = mr :: rq) (error : Error) :
      Work v
        { v with
          rq
          completions := v.completions ++
            [{ context := .receive, result := .error error, mr := some mr
               provenUnaccepted := false, cancelledBeforeSubmit := false }] }
  | complete {send : PostedSend} {unacked : List PostedSend}
      (hunacked : v.unacked = send :: unacked) (result : Except Error Nat) :
      Work v
        { v with
          unacked
          completions := v.completions ++
            [{ context := send.context, result, mr := some send.mr
               provenUnaccepted := false, cancelledBeforeSubmit := false }] }
  | dispatch {completion : IoCompletionEvent} {completions : List IoCompletionEvent}
      (hcompletions : v.completions = completion :: completions) :
      Work v { v with completions, turn := v.turn ++ [.completion completion] }
  | terminate (event : IoTerminalEvent) :
      Work v { v with turn := v.turn ++ [.terminal event] }

/-- A step of a live endpoint that enqueues the payloads. -/
inductive Step (v : NodeView) : List (List UInt8) → NodeView → Prop
  | call {data : List (List UInt8)} {v' : NodeView} (h : Call v data v') : Step v data v'
  | work {v' : NodeView} (h : Work v v') : Step v [] v'

end NodeView

namespace MessageNode

def view (n : MessageNode) : NodeView where
  transport := n.msg.view
  acquired := n.acquired
  held := n.held
  queue := n.queue
  turn := n.turn
  rq := n.rq
  sq := n.sq
  unacked := n.unacked
  completions := n.completions ++ n.cq

/-- The transport closes and the queue pair is left as it is. -/
structure Halts (n n' : MessageNode) : Prop where
  transport : n.msg.Halts n'.msg
  held : n'.held = n.held
  rq : n'.rq = n.rq
  sq : n'.sq = n.sq
  unacked : n'.unacked = n.unacked

/-- A live endpoint works on, or it closes. -/
def Outcome (n : MessageNode) (enqueued : List (List UInt8)) (n' : MessageNode) : Prop :=
  n'.msg.Alive ∧ n.view.Step enqueued n'.view ∨ n.Halts n' ∧ enqueued = []

variable {n n' : MessageNode}

theorem outcome_drive (h : n.msg.Alive) {env : DriveEnv} (hstep : n.drive env = some n') :
    n.Outcome [] n' := by
  obtain ⟨_, _, hiteration, rfl⟩ := drive_eq_some hstep
  rcases h.iteration hiteration with ⟨halive, haction⟩ | ⟨hhalts, rfl⟩
  · exact .inl ⟨halive, .call (.act haction)⟩
  · exact .inr ⟨⟨hhalts, rfl, rfl, rfl, rfl⟩, rfl⟩

theorem view_appendBounded (n : MessageNode) (events : List IoEvent) (room : Nat) :
    (n.appendBounded events room).view = n.view.appendBounded events room := rfl

theorem view_post (n : MessageNode) (command : ProtocolCommand) :
    (n.post command).view = n.view.post command := by
  cases hbatch : command.batch with
  | recv mr | send mr len context =>
    simp [post, NodeView.post, hbatch, ProtocolBatch.receives, ProtocolBatch.posts, view, msg]

theorem outcome_service (h : n.msg.Alive) {terminalError : Option Error}
    {outcome : PostOutcome} {room : Nat}
    (hstep : n.service terminalError outcome room = some n') : n.Outcome [] n' := by
  have hlost := h.not_lost
  cases service_serviced hstep with
  | publication hqueue => exact .inl ⟨h, .work (.republish hqueue room)⟩
  | @command command queue _ hqueue hserved =>
    cases hserved with
    | lost hlost' => cases hlost.symm.trans hlost'
    | cancelled _ hcancelled =>
      obtain ⟨_, hcontext⟩ := EngineMessageState.isCancelled_context hcancelled
      exact .inl ⟨h, .work (.cancel hqueue hcontext room)⟩
    | rejected _ error => exact .inl ⟨h, .work (.reject hqueue error room)⟩
    | posted _ _ haccepted =>
      have hmsg := (({ n with queue } : MessageNode).post_frame command).1
      refine .inl ⟨?_, ?_⟩
      · change (({ n with queue } : MessageNode).post command).msg.Alive
        rw [hmsg]
        exact h
      · rw [view_appendBounded, view_post]
        exact .work (.post hqueue haccepted room)

theorem outcome_sendEnqueue (h : n.msg.Alive) {data : List UInt8}
    (hstep : n.sendEnqueue data = some n') : n.Outcome [data] n' := by
  unfold sendEnqueue at hstep
  split at hstep
  · cases hstep
  next mr entries hentries =>
  split at hstep
  next hfree =>
    cases hstep
    have hstate : n.driver.state.state.isClosing = false := h.state
    simp only [EngineMessageState.queueEvent, msg, hstate, Bool.false_eq_true, if_false]
    refine .inl ⟨{ h with }, .call ?_⟩
    convert NodeView.Call.enqueue (v := n.view) data mr hfree.1 hfree.2 using 1
    simp [view, EngineMessageState.view, setMsg, msg, EngineSendRequest.view]
  · cases hstep

/-- A step of a live endpoint. -/
theorem outcome_step (h : n.msg.Alive) {l : NodeLabel} (hlocal : l.isLocal = true)
    (hstep : n.step l = some n') : n.Outcome l.enqueued n' := by
  have hkeep (hn : n'.msg.Alive) (hview : n'.view = n.view) : n.Outcome [] n' := by
    refine .inl ⟨hn, ?_⟩
    rw [hview]
    exact .work .keep
  have hhalt (s : EngineMessageState) (hs : n.msg.Halts s) : n.Outcome [] (n.setMsg s) :=
    .inr ⟨⟨hs, rfl, rfl, rfl, rfl⟩, rfl⟩
  cases l with
  | sendEnqueue => exact outcome_sendEnqueue h hstep
  | drive => exact outcome_drive h hstep
  | service => exact outcome_service h hstep
  | close => exact Option.some.inj hstep ▸ hhalt _ n.msg.halts_beginClose
  | finishClose result => exact Option.some.inj hstep ▸ hhalt _ (h.finishClose rfl result)
  | driverDrop => exact Option.some.inj hstep ▸ hhalt _ (h.fail rfl _ _)
  | deadline =>
    cases hstep
    by_cases hcreated : n.msg.state = .created
    · have hexpired : n.msg.deadlineExpired = _ := if_pos hcreated
      rw [hexpired]
      exact hhalt _ (h.fail rfl _ _)
    · have hexpired : n.msg.deadlineExpired = n.msg := if_neg hcreated
      rw [hexpired]
      exact .inl ⟨h, .work .keep⟩
  | sendCancel request =>
    cases hstep
    refine hkeep { h with } ?_
    have hsame : (n.msg.requests.modify request fun r => { r with cancelled := true }).map
        EngineSendRequest.view = (n.msg.requests.map EngineSendRequest.view).modify request id :=
      map_modify (by intro; rfl) _ _
    rw [List.modify_id] at hsame
    change { n.view with
      transport := { n.view.transport with
        requests := (n.msg.requests.modify request fun r =>
          { r with cancelled := true }).map EngineSendRequest.view } } = n.view
    rw [hsame]
    rfl
  | sendAcquire =>
    obtain ⟨hfree, rfl⟩ := Machine.of_guard hstep
    exact .inl ⟨{ h with }, .call (.acquire hfree.2.2)⟩
  | sendAbandon =>
    obtain ⟨hacquired, rfl⟩ := Machine.of_guard hstep
    exact .inl ⟨{ h with }, .call (.abandon hacquired)⟩
  | recv =>
    obtain ⟨_, _, hreceived, rfl⟩ := recv_eq_some hstep
    exact .inl ⟨{ h with }, .call (.recv hreceived)⟩
  | dropMessage =>
    simp only [step, dropMessage] at hstep
    split at hstep
    · cases hstep
    next hheld =>
      cases hstep
      rw [EngineMessageState.queueEvent, if_neg (by simp [h.state])]
      exact .inl ⟨{ h with }, .call (.drop hheld)⟩
  | publish =>
    cases hstep
    have hsend : n.msg.port.send n.turn =
        { n.msg.port with events := n.msg.port.events ++ n.turn } := if_pos h.port
    unfold publish
    rw [hsend]
    exact .inl ⟨{ h with }, .work .publish⟩
  | arrive outcome =>
    cases outcome with
    | ok => cases hlocal
    | error error =>
      simp only [step, arrive] at hstep
      split at hstep
      · cases hstep
      next hrq =>
        cases hstep
        refine .inl ⟨h, .work ?_⟩
        convert NodeView.Work.fault (v := n.view) hrq error using 1
        simp [view, msg]
  | transmit => cases hlocal
  | complete result =>
    simp only [step, complete] at hstep
    split at hstep
    · cases hstep
    next send _ hunacked =>
      cases hstep
      refine .inl ⟨h, .work ?_⟩
      convert NodeView.Work.complete (v := n.view) hunacked (result.map fun _ => send.len) using 1
      simp [view, msg]
  | reap =>
    obtain ⟨completion, _, hcq, rfl⟩ := reap_eq_some hstep
    refine hkeep h ?_
    simp [view, msg, hcq]
  | dispatch =>
    obtain ⟨completion, completions, hcompletions, rfl⟩ := dispatch_eq_some hstep
    have hall : n.view.completions = completion :: (completions ++ n.cq) := by
      simp [view, hcompletions]
    exact .inl ⟨h, .work (.dispatch hall)⟩
  | terminate event => exact Option.some.inj hstep ▸ .inl ⟨h, .work (.terminate event)⟩

/-- A closed endpoint posts nothing; the application may still take what was
received before. -/
structure Idles (n n' : MessageNode) : Prop where
  dead : n'.msg.Dead
  sq : n'.sq = n.sq
  rq : n'.rq <:+ n.rq
  unacked : n'.unacked <:+ n.unacked
  received : n.msg.received = n'.held.drop n.held.length ++ n'.msg.received

theorem service_of_dead (h : n.msg.Dead) {terminalError : Option Error} {outcome : PostOutcome}
    {room : Nat} (hstep : n.service terminalError outcome room = some n') : n'.msg = n.msg ∧ n'.sq =
    n.sq ∧ n'.rq = n.rq ∧ n'.held = n.held ∧
      n'.unacked = n.unacked := by
  have hlost : n.msg.receiverLost = true := by
    simp [EngineMessageState.receiverLost, h.admission]
  cases service_serviced hstep with
  | publication => exact ⟨rfl, rfl, rfl, rfl, rfl⟩
  | command _ hserved =>
    cases hserved with
    | lost => exact ⟨rfl, rfl, rfl, rfl, rfl⟩
    | cancelled hkept | rejected hkept | posted hkept => cases hlost.symm.trans hkept

/-- A step of a closed endpoint. -/
theorem idles_step (h : n.msg.Dead) {l : NodeLabel} (hlocal : l.isLocal = true)
    (hstep : n.step l = some n') : n.Idles n' := by
  have hidle (hrecv : l ≠ .recv) (hsq : n'.sq = n.sq) (hrq : n'.rq <:+ n.rq)
      (hunacked : n'.unacked <:+ n.unacked) (hheld : n'.held.length ≤ n.held.length) :
      n.Idles n' := by
    have hlife := life_step hrecv hstep
    have hreceived : n'.msg.received = n.msg.received := hlife.received h.state
    refine ⟨h.life hlife, hsq, hrq, hunacked, ?_⟩
    rw [List.drop_eq_nil_of_le hheld, hreceived, List.nil_append]
  have hkeep (hrecv : l ≠ .recv)
      (hsame : n'.sq = n.sq ∧ n'.rq = n.rq ∧ n'.held = n.held ∧ n'.unacked = n.unacked) :
      n.Idles n' := by
    obtain ⟨hsq, hrq, hheld, hunacked⟩ := hsame
    exact hidle hrecv hsq (hrq ▸ List.suffix_rfl) (hunacked ▸ List.suffix_rfl)
      (le_of_eq (congrArg List.length hheld))
  cases l with
  | recv =>
    obtain ⟨_, _, hreceived, rfl⟩ := recv_eq_some hstep
    refine ⟨{ h with }, rfl, List.suffix_rfl, List.suffix_rfl, ?_⟩
    simpa [setMsg, msg] using hreceived
  | drive =>
    obtain ⟨_, _, -, rfl⟩ := drive_eq_some hstep
    exact hkeep (by simp) ⟨rfl, rfl, rfl, rfl⟩
  | service => exact hkeep (by simp) (service_of_dead h hstep).2
  | dropMessage =>
    simp only [step, dropMessage] at hstep
    split at hstep <;> cases hstep
    exact hidle (by simp) rfl List.suffix_rfl List.suffix_rfl (List.eraseIdx_sublist _ _).length_le
  | arrive =>
    simp only [step, arrive] at hstep
    split at hstep
    · cases hstep
    next mr rq hrq =>
      cases hstep
      refine hidle (by simp) rfl ?_ List.suffix_rfl (le_refl _)
      rw [hrq]
      exact List.suffix_cons mr rq
  | transmit => cases hlocal
  | complete =>
    simp only [step, complete] at hstep
    split at hstep
    · cases hstep
    next send unacked hunacked =>
      cases hstep
      refine hidle (by simp) rfl List.suffix_rfl ?_ (le_refl _)
      rw [hunacked]
      exact List.suffix_cons send unacked
  | _ =>
    refine hkeep (by simp) ?_
    simp only [step, sendAcquire, sendAbandon, sendEnqueue, reap, dispatch] at hstep
    repeat' split at hstep
    all_goals cases hstep
    all_goals exact ⟨rfl, rfl, rfl, rfl⟩

end MessageNode

end RdmaIo.Message
