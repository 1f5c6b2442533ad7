/-
Every registered region of an endpoint is in exactly one place until the transport
starts to close, and in at most one afterwards.
-/
import RdmaIo.Message.Custody

namespace RdmaIo.Message

open CompletedRecv
open List

/-- The places of a connection that hold registered regions. -/
inductive Place where
  | pool
  | request
  | repost
  | delivery
  | message
  | event
  | engine
deriving Repr, DecidableEq

def Place.all : List Place :=
  [.pool, .request, .repost, .delivery, .message, .event, .engine]

/-- Where a region of a role can be. -/
def MrRole.places : MrRole → List Place
  | receive => [.engine, .event, .delivery, .message, .repost]
  | data | control => [.pool, .request, .event, .engine]
  | hello => []

def ProtocolQueueEntry.regions : ProtocolQueueEntry → List Region
  | .command c => [c.region]
  | .publication events => events.flatMap IoEvent.regions

namespace MessageNode

open EngineMessageState (Retains)

variable (n : MessageNode)

/-- The regions that the reactor and the queue pair hold. -/
def engineRegions : List Region :=
  n.queue.flatMap ProtocolQueueEntry.regions ++ n.turn.flatMap IoEvent.regions ++
    n.rq.map (Mr.region .receive) ++ n.sq.map PostedSend.region ++
    n.unacked.map PostedSend.region ++ n.cq.flatMap IoCompletionEvent.regions ++
    n.completions.flatMap IoCompletionEvent.regions

/-- The regions at an endpoint, except that of the HELLO frame before it is sent. -/
def regions : List Region :=
  n.msg.regions ++ n.held.map region ++ n.engineRegions

/-- What a place holds. -/
def regionsAt : Place → List Region
  | .pool =>
    n.msg.dataSends.entries.map (Mr.region .data) ++
      n.msg.controlSends.entries.map (Mr.region .control)
  | .request => n.msg.requests.flatMap EngineSendRequest.regions
  | .repost => n.msg.events.flatMap EngineMessageEvent.regions
  | .delivery => n.msg.received.map region
  | .message => n.held.map region
  | .event => n.msg.port.events.flatMap IoEvent.regions
  | .engine => n.msg.admissionPending.map ProtocolCommand.region ++ n.engineRegions

variable {n n' : MessageNode} {r : Region} {given left total : Nat}

theorem count_engineRegions (n : MessageNode) (r : Region) : n.engineRegions.count r =
      (n.queue.flatMap ProtocolQueueEntry.regions).count r +
        (n.turn.flatMap IoEvent.regions).count r + (n.rq.map (Mr.region .receive)).count r +
        (n.sq.map PostedSend.region).count r + (n.unacked.map PostedSend.region).count r +
        (n.cq.flatMap IoCompletionEvent.regions).count r +
        (n.completions.flatMap IoCompletionEvent.regions).count r := by
  simp only [engineRegions, count_append]

/-- The regions outside the transport. -/
def outside (n : MessageNode) (r : Region) : Nat :=
  (n.held.map region).count r + n.engineRegions.count r

theorem count_regions (n : MessageNode) (r : Region) :
    n.regions.count r = n.msg.regions.count r + n.outside r := by
  simp only [regions, outside, count_append, add_assoc]

/-- The endpoint had `total` copies of the region; it has no more, and no less
unless it is closing. -/
structure Custody (r : Region) (total : Nat) (n : MessageNode) : Prop where
  le : n.regions.count r ≤ total
  live : n.msg.state.isClosing = false → n.regions.count r = total
  doors : n.msg.doors.Open
  fresh : n.msg.state = .created → n.held = []

theorem Custody.of_retains (h : Custody r total n) (hretains : Retains r given n.msg left n'.msg)
    (hle : n'.outside r + given ≤ n.outside r + left)
    (hlive : n'.msg.state.isClosing = false → n'.outside r + given = n.outside r + left)
    (hheld : n'.msg.state = .created → n'.held = []) : Custody r total n' where
  le := by
    have hbefore := h.le
    have hmsg := hretains.le
    rw [count_regions] at hbefore ⊢
    omega
  live hafter := by
    have hlivebefore : n.msg.state.isClosing = false := by
      by_contra hclosing
      rw [hretains.closing (by simpa using hclosing)] at hafter
      cases hafter
    have hbefore := h.live hlivebefore
    have hmsg := hretains.live h.doors hafter
    have hout := hlive hafter
    rw [count_regions] at hbefore ⊢
    omega
  doors := hretains.opens h.doors
  fresh := hheld

theorem Custody.of_eq (h : Custody r total n) (hretains : Retains r given n.msg left n'.msg)
    (houtside : n'.outside r + given = n.outside r + left) (hheld : n'.held = n.held) :
    Custody r total n' :=
  h.of_retains hretains houtside.le (fun _ => houtside) fun hcreated =>
    hheld.trans (h.fresh (hretains.created hcreated))

/-- The regions move within the transport. -/
theorem Custody.of_msg (h : Custody r total n) (hretains : Retains r 0 n.msg 0 n'.msg)
    (hheld : n'.held = n.held) (hengine : n'.engineRegions = n.engineRegions) :
    Custody r total n' := by
  refine h.of_eq hretains ?_ hheld
  rw [outside, outside, hheld, hengine]

/-- The regions move within the engine. -/
theorem Custody.of_engine (h : Custody r total n) (hmsg : n'.msg = n.msg) (hheld : n'.held = n.held)
    (hengine : n'.engineRegions.count r = n.engineRegions.count r) : Custody r total n' := by
  have hretains : Retains r 0 n.msg 0 n'.msg := by
    rw [hmsg]
    exact .refl _
  refine h.of_eq hretains ?_ hheld
  rw [outside, outside, hheld, hengine]

section Application

theorem Custody.sendAcquire (h : Custody r total n) (hstep : n.sendAcquire = some n') :
    Custody r total n' := by
  obtain ⟨_, rfl⟩ := Machine.of_guard hstep
  exact h.of_msg (.of_eq rfl rfl) rfl rfl

theorem Custody.sendAbandon (h : Custody r total n) (hstep : n.sendAbandon = some n') :
    Custody r total n' := by
  obtain ⟨_, rfl⟩ := Machine.of_guard hstep
  exact h.of_msg (n.msg.retains_dropCredit true) rfl rfl

/-- A buffer moves from the pool to the new request. -/
theorem Custody.sendEnqueue (h : Custody r total n) {data : List UInt8}
    (hstep : n.sendEnqueue data = some n') : Custody r total n' := by
  unfold MessageNode.sendEnqueue at hstep
  split at hstep
  · cases hstep
  next mr _ hentries =>
    obtain ⟨_, rfl⟩ := Machine.of_guard hstep
    refine h.of_msg ?_ rfl rfl
    refine Retains.trans ?_ (EngineMessageState.retains_queueEvent _ (.sendRequest _) fun _ => rfl)
    apply Retains.of_count
    · rfl
    · rw [EngineMessageState.count_regions, EngineMessageState.count_regions, hentries]
      simp only [map_cons, count_cons, flatMap_append,
        flatMap_singleton, count_append, EngineSendRequest.regions,
        Option.map_some, Option.toList_some, count_nil, EngineMessageEvent.regions]
      change _ + _ + (_ + (0 + if (mr.region .data == r) then 1 else 0)) + _ + _ + _ + _ + _ = _
      omega

theorem Custody.recv (h : Custody r total n) (hstep : n.recv = some n') : Custody r total n' := by
  obtain ⟨message, received, hreceived, rfl⟩ := MessageNode.recv_eq_some hstep
  have hdelivered : n.msg.doors.delivered ≠ [] := by
    simp [EngineMessageState.doors, hreceived]
  have hcount : ({ n.msg with received } : EngineMessageState).regions.count r +
      [message.region].count r = n.msg.regions.count r + 0 := by
    rw [EngineMessageState.count_regions, EngineMessageState.count_regions, hreceived]
    simp only [map_cons, count_cons, count_nil]
    omega
  have hretains : Retains r 0 n.msg ([message.region].count r) { n.msg with received } := by
    refine ⟨hcount.le, fun _ _ => hcount, fun hopen => ?_, id, id⟩
    refine ⟨hopen.port, hopen.admission, hopen.data, hopen.control, fun hcreated => ?_⟩
    exact absurd (hopen.fresh hcreated) hdelivered
  have houtside : ((n.held ++ [message]).map region).count r +
      n.engineRegions.count r = n.outside r + [message.region].count r := by
    rw [map_append, count_append, outside]
    simp only [map_cons, map_nil]
    omega
  refine h.of_retains hretains houtside.le (fun _ => houtside) fun hcreated => ?_
  exact absurd (h.doors.fresh hcreated) hdelivered

theorem count_eraseIdx {messages : List CompletedRecv} {index : Nat}
    {message : CompletedRecv} (hmessage : messages[index]? = some message) (r : Region) :
    ((messages.eraseIdx index).map region).count r +
        [message.region].count r = (messages.map region).count r := by
  obtain ⟨hindex, rfl⟩ := List.getElem?_eq_some_iff.mp hmessage
  have hperm := (getElem_cons_eraseIdx_perm hindex).map region
  rw [← hperm.count_eq r, map_cons, count_cons, count_cons, count_nil, zero_add]

theorem Custody.dropMessage (h : Custody r total n) {index : Nat}
    (hstep : n.dropMessage index = some n') : Custody r total n' := by
  unfold MessageNode.dropMessage at hstep
  split at hstep
  · cases hstep
  next message hmessage =>
    cases hstep
    have hsome : n.held ≠ [] := by
      intro hnil
      simp [hnil] at hmessage
    have hretains := n.msg.retains_queueEvent (r := r) (.repost message.mr) fun hcreated =>
      absurd (h.fresh hcreated) hsome
    have houtside : ((n.held.eraseIdx index).map region).count r +
        n.engineRegions.count r + [message.region].count r = n.outside r + 0 := by
      have := count_eraseIdx hmessage r
      rw [outside]
      omega
    refine h.of_retains hretains houtside.le (fun _ => houtside) fun hcreated => ?_
    exact absurd (h.fresh (hretains.created hcreated)) hsome

theorem Custody.drive (hr : r.1 ≠ .hello) (h : Custody r total n) {env : DriveEnv}
    (hstep : n.drive env = some n') : Custody r total n' := by
  obtain ⟨_, out, hiteration, rfl⟩ := drive_eq_some hstep
  refine h.of_eq (EngineMessageState.retains_iteration hr h.doors hiteration) ?_ rfl
  have hout : (out.map ProtocolQueueEntry.command).toList.flatMap ProtocolQueueEntry.regions =
      (out.map ProtocolCommand.region).toList := by
    cases out <;> rfl
  simp only [outside, count_engineRegions, flatMap_append, count_append, hout]
  omega

end Application

section Engine

/-- What servicing published is in the turn or at the front of the queue. -/
theorem count_appendBounded (n : MessageNode) (events : List IoEvent) (room : Nat) (r : Region) :
    (n.appendBounded events room).engineRegions.count r =
      n.engineRegions.count r + (events.flatMap IoEvent.regions).count r := by
  have hsplit : ((events.take room).flatMap IoEvent.regions).count r +
      ((events.drop room).flatMap IoEvent.regions).count r =
      (events.flatMap IoEvent.regions).count r := by
    rw [← count_append, ← flatMap_append, take_append_drop]
  have hrest : ((n.appendBounded events room).queue.flatMap ProtocolQueueEntry.regions).count r =
      ((events.drop room).flatMap IoEvent.regions).count r +
        (n.queue.flatMap ProtocolQueueEntry.regions).count r := by
    simp only [appendBounded]
    split
    next hempty => simp [isEmpty_iff.mp hempty]
    · rw [flatMap_cons, count_append]
      rfl
  rw [count_engineRegions, count_engineRegions, hrest]
  simp only [appendBounded, flatMap_append, count_append]
  omega

theorem count_post (n : MessageNode) (command : ProtocolCommand) (r : Region) :
    (n.post command).engineRegions.count r =
      n.engineRegions.count r + [command.region].count r := by
  rw [count_engineRegions, count_engineRegions]
  unfold MessageNode.post ProtocolCommand.region ProtocolCommand.mr ProtocolCommand.context
  cases command.batch with
  | recv mr =>
    simp only [map_append, map_cons, map_nil, count_append]
    change _ = _ + [mr.region .receive].count r
    omega
  | send mr _ context =>
    simp only [map_append, map_cons, map_nil, count_append]
    change _ + _ + _ + (_ + [mr.region context.role].count r) + _ + _ + _ = _
    omega

/-- A serviced command keeps its buffer unless its owner no longer listens. -/
theorem Served.count {command : ProtocolCommand} {served : MessageNode × List IoEvent}
    (h : Served n command served) (r : Region) :
    served.1.engineRegions.count r + (served.2.flatMap IoEvent.regions).count r ≤
        n.engineRegions.count r + [command.region].count r ∧
      (n.msg.receiverLost = false →
        served.1.engineRegions.count r + (served.2.flatMap IoEvent.regions).count r =
          n.engineRegions.count r + [command.region].count r) := by
  cases h with
  | lost hlost =>
    refine ⟨Nat.add_le_add_left (Nat.zero_le _) _, fun hheard => ?_⟩
    cases hlost.symm.trans hheard
  | cancelled =>
    rw [command.regions_cancelledEvents]
    exact ⟨le_rfl, fun _ => rfl⟩
  | rejected _ error =>
    rw [command.regions_rejectedEvents error]
    exact ⟨le_rfl, fun _ => rfl⟩
  | posted =>
    rw [n.count_post command r]
    exact ⟨le_rfl, fun _ => rfl⟩

theorem Served.frame {command : ProtocolCommand} {served : MessageNode × List IoEvent}
    (h : Served n command served) : served.1.msg = n.msg ∧ served.1.held = n.held := by
  cases h with
  | posted =>
    simp only [MessageNode.post]
    split <;> exact ⟨rfl, rfl⟩
  | lost | cancelled | rejected => exact ⟨rfl, rfl⟩

variable (h : Custody r total n)

include h

theorem Custody.service {terminalError : Option Error} {outcome : PostOutcome} {room : Nat}
    (hstep : n.service terminalError outcome room = some n') : Custody r total n' := by
  cases service_serviced hstep with
  | publication hqueue =>
    refine h.of_engine rfl rfl ?_
    rw [count_appendBounded, count_engineRegions, count_engineRegions, hqueue,
      flatMap_cons, count_append]
    simp only [ProtocolQueueEntry.regions]
    omega
  | @command command queue served hqueue hserved =>
    obtain ⟨_, heq⟩ := hserved.count r
    obtain ⟨hmsg, hheld⟩ := hserved.frame
    have hqueued : ({ n with queue } : MessageNode).engineRegions.count r +
        [command.region].count r = n.engineRegions.count r := by
      rw [count_engineRegions, count_engineRegions, hqueue, flatMap_cons, count_append]
      simp only [ProtocolQueueEntry.regions]
      omega
    have hretains : Retains r 0 n.msg 0 (served.1.appendBounded served.2 room).msg := by
      change Retains r 0 n.msg 0 served.1.msg
      rw [hmsg]
      exact .refl _
    have hrest : (served.1.appendBounded served.2 room).held = n.held := hheld
    refine h.of_retains hretains ?_ (fun hlive => ?_) fun hcreated => ?_
    · rw [outside, outside, count_appendBounded, hrest]
      omega
    · have hclosing : n.msg.state.isClosing = false := by
        change served.1.msg.state.isClosing = false at hlive
        rwa [hmsg] at hlive
      have := heq (h.doors.receiverLost_eq_false hclosing)
      rw [outside, outside, count_appendBounded, hrest]
      omega
    · exact hrest.trans (h.fresh (hretains.created hcreated))

theorem Custody.publish : Custody r total n.publish := by
  refine h.of_eq (n.msg.retains_send n.turn) ?_ rfl
  simp only [outside, count_engineRegions, MessageNode.publish, setMsg, flatMap_nil, count_nil]
  omega

theorem Custody.arrive {outcome : Except Error (List UInt8)}
    (hstep : n.arrive outcome = some n') : Custody r total n' := by
  unfold MessageNode.arrive at hstep
  split at hstep
  · cases hstep
  next mr _ hrq =>
    cases hstep
    refine h.of_engine rfl rfl ?_
    rw [count_engineRegions, count_engineRegions, hrq]
    simp only [map_cons, count_cons, flatMap_append, flatMap_singleton, count_append]
    cases outcome with
    | ok | error =>
      change _ + _ + _ + _ + _ + (_ + [mr.region .receive].count r) + _ = _
      rw [count_cons, count_nil]
      omega

theorem Custody.transmit {send : PostedSend} (hstep : n.transmit = some (n', send)) :
    Custody r total n' := by
  obtain ⟨_, hsq, rfl⟩ := transmit_eq_some hstep
  refine h.of_engine rfl rfl ?_
  rw [count_engineRegions, count_engineRegions, hsq]
  simp only [map_cons, map_append, map_nil, count_cons, count_append, count_nil]
  omega

theorem Custody.complete {result : Except Error Unit} (hstep : n.complete result = some n') :
    Custody r total n' := by
  unfold MessageNode.complete at hstep
  split at hstep
  · cases hstep
  next send _ hunacked =>
    cases hstep
    refine h.of_engine rfl rfl ?_
    rw [count_engineRegions, count_engineRegions, hunacked]
    simp only [map_cons, count_cons, flatMap_append, flatMap_singleton, count_append]
    change _ + _ + _ + _ + _ + (_ + [send.region].count r) + _ = _
    rw [count_cons, count_nil]
    omega

theorem Custody.reap (hstep : n.reap = some n') : Custody r total n' := by
  obtain ⟨_, _, hcq, rfl⟩ := reap_eq_some hstep
  refine h.of_engine rfl rfl ?_
  rw [count_engineRegions, count_engineRegions, hcq]
  simp only [flatMap_cons, flatMap_append, flatMap_nil, append_nil, count_append]
  omega

theorem Custody.dispatch (hstep : n.dispatch = some n') : Custody r total n' := by
  obtain ⟨_, _, hcompletions, rfl⟩ := dispatch_eq_some hstep
  refine h.of_engine rfl rfl ?_
  rw [count_engineRegions, count_engineRegions, hcompletions]
  simp only [flatMap_cons, flatMap_append, flatMap_nil, append_nil, count_append, IoEvent.regions]
  omega

theorem Custody.terminate (event : IoTerminalEvent) : Custody r total (n.terminate event) := by
  refine h.of_engine rfl rfl ?_
  rw [count_engineRegions, count_engineRegions]
  simp only [MessageNode.terminate, flatMap_append, flatMap_singleton, IoEvent.regions, append_nil]

end Engine

theorem custody_step (hr : r.1 ≠ .hello) {label : NodeLabel} (h : Custody r total n)
    (hstep : n.step label = some n') : Custody r total n' := by
  have hmsg {s : EngineMessageState} (hretains : Retains r 0 n.msg 0 s) :
      Custody r total (n.setMsg s) := h.of_msg hretains rfl rfl
  cases label with
  | sendAcquire => exact h.sendAcquire hstep
  | sendAbandon => exact h.sendAbandon hstep
  | sendEnqueue => exact h.sendEnqueue hstep
  | sendCancel request =>
    cases hstep
    exact hmsg (n.msg.retains_updateRequest request fun _ => rfl)
  | recv => exact h.recv hstep
  | dropMessage => exact h.dropMessage hstep
  | close =>
    cases hstep
    exact hmsg (n.msg.retains_beginClose hr)
  | finishClose result =>
    cases hstep
    exact hmsg (n.msg.retains_finishClose result)
  | drive => exact h.drive hr hstep
  | deadline =>
    cases hstep
    exact hmsg n.msg.retains_deadlineExpired
  | driverDrop =>
    cases hstep
    exact hmsg (n.msg.retains_fail _ _)
  | service => exact h.service hstep
  | publish =>
    cases hstep
    exact h.publish
  | arrive => exact h.arrive hstep
  | transmit =>
    obtain ⟨⟨_, _⟩, htransmit, rfl⟩ := Option.map_eq_some_iff.mp hstep
    exact h.transmit htransmit
  | complete => exact h.complete hstep
  | reap => exact h.reap hstep
  | dispatch => exact h.dispatch hstep
  | terminate event =>
    cases hstep
    exact h.terminate event

/-- The regions that an endpoint is set up with, except that of the HELLO frame. -/
def setupRegions (dataSends controlSends receives : List Mr) : List Region :=
  dataSends.map (Mr.region .data) ++ controlSends.map (Mr.region .control) ++
    receives.map (Mr.region .receive)

theorem count_regions_new (recvCount bufferSize : Nat) (dataSends controlSends : List Mr)
    (helloSend : Mr) (receives : List Mr) (r : Region) :
    (new (.new recvCount bufferSize dataSends controlSends helloSend) receives
      ).regions.count r = (setupRegions dataSends controlSends receives).count r := by
  rw [count_regions, EngineMessageState.count_regions, outside, count_engineRegions]
  simp only [setupRegions, count_append]
  change (dataSends.map (Mr.region .data)).count r +
    (controlSends.map (Mr.region .control)).count r + 0 + 0 + 0 + 0 + 0 +
    (0 + (0 + 0 + (receives.map (Mr.region .receive)).count r + 0 + 0 + 0 + 0)) = _
  omega

theorem custody_new (recvCount bufferSize : Nat) (dataSends controlSends : List Mr)
    (helloSend : Mr) (receives : List Mr) (r : Region) :
    Custody r ((setupRegions dataSends controlSends receives).count r)
      (new (.new recvCount bufferSize dataSends controlSends helloSend) receives) where
  le := (count_regions_new ..).le
  live _ := count_regions_new ..
  doors := ⟨fun _ => rfl, fun _ => rfl, fun _ => rfl, fun _ => rfl, fun _ => rfl⟩
  fresh _ := rfl

theorem count_regions_eq_sum (n : MessageNode) (r : Region) :
    n.regions.count r = (Place.all.map fun p => (n.regionsAt p).count r).sum := by
  rw [count_regions, EngineMessageState.count_regions]
  simp only [outside, Place.all, map_cons, map_nil, sum_cons, sum_nil, regionsAt, count_append]
  omega

/-- Pools and requests hold send buffers, and what is delivered are receive buffers. -/
theorem role_of_mem_regionsAt {p : Place} (h : r ∈ n.regionsAt p) :
    match p with
    | .pool => r.1 = .data ∨ r.1 = .control
    | .request => r.1 = .data
    | .repost | .delivery | .message => r.1 = .receive
    | .event | .engine => True := by
  have hmap {α : Type} {role : MrRole} {f : α → Region} (hf : ∀ a, (f a).1 = role)
      {l : List α} (hmem : r ∈ l.map f) : r.1 = role := by
    obtain ⟨a, -, rfl⟩ := mem_map.mp hmem
    exact hf a
  cases p with
  | pool =>
    rcases mem_append.mp h with hmem | hmem
    · exact .inl (hmap (fun _ => rfl) hmem)
    · exact .inr (hmap (fun _ => rfl) hmem)
  | request =>
    obtain ⟨q, -, hmem⟩ := mem_flatMap.mp h
    obtain ⟨mr, -, rfl⟩ := Option.map_eq_some_iff.mp (Option.mem_toList.mp hmem)
    rfl
  | repost =>
    obtain ⟨event, -, hmem⟩ := mem_flatMap.mp h
    cases event with
    | start => cases hmem
    | sendRequest => cases hmem
    | repost => exact congrArg Prod.fst (mem_singleton.mp hmem)
  | delivery => exact hmap (fun _ => rfl) h
  | message => exact hmap (fun _ => rfl) h
  | event => trivial
  | engine => trivial

theorem mem_places_of_mem_regionsAt (hr : r.1 ≠ .hello) {p : Place}
    (h : r ∈ n.regionsAt p) : p ∈ r.1.places := by
  have hrole := role_of_mem_regionsAt h
  cases hrole' : r.1 <;> cases p <;> simp_all [MrRole.places]

theorem exists_of_sum_eq_one {α : Type} {f : α → Nat} {l : List α} (hnodup : l.Nodup)
    (hsum : (l.map f).sum = 1) : ∃ a ∈ l, f a = 1 ∧ ∀ b ∈ l, b ≠ a → f b = 0 := by
  induction l with
  | nil => simp at hsum
  | cons a l ih =>
    obtain ⟨_, hnodup⟩ := nodup_cons.mp hnodup
    rw [map_cons, sum_cons] at hsum
    by_cases ha : f a = 0
    · obtain ⟨b, hb, hone, hzero⟩ := ih hnodup (by omega)
      refine ⟨b, mem_cons_of_mem _ hb, hone, fun c hc hne => ?_⟩
      rcases mem_cons.mp hc with rfl | hc
      · exact ha
      · exact hzero c hc hne
    · have hrest : (l.map f).sum = 0 := by omega
      refine ⟨a, mem_cons_self, by omega, fun c hc hne => ?_⟩
      rcases mem_cons.mp hc with rfl | hc
      · exact absurd rfl hne
      · by_contra hpos
        have := List.sum_pos_iff_exists_pos_nat.mpr
          ⟨f c, mem_map_of_mem hc, Nat.pos_of_ne_zero hpos⟩
        omega

/-- A region of which there is one copy is in one place, one that fits its role. -/
theorem exists_place_of_count_eq_one (hr : r.1 ≠ .hello) (hone : n.regions.count r = 1) :
    ∃ p ∈ r.1.places, (n.regionsAt p).count r = 1 ∧ ∀ q, q ≠ p → r ∉ n.regionsAt q := by
  rw [count_regions_eq_sum] at hone
  obtain ⟨p, -, hp, hothers⟩ := exists_of_sum_eq_one (by decide) hone
  have hmem : r ∈ n.regionsAt p := count_pos_iff.mp (by omega)
  refine ⟨p, mem_places_of_mem_regionsAt hr hmem, hp, fun q hne => ?_⟩
  apply count_eq_zero.mp
  exact hothers q (by cases q <;> decide) hne

/-- Until the transport starts to close, every region it was set up with is in one
place that fits its role, and the regions it has are those it was set up with.  In
every state, also of a closing or closed transport, no region is there twice. -/
theorem regions_partition {recvCount bufferSize : Nat} {dataSends controlSends : List Mr}
    {helloSend : Mr} {receives : List Mr} {labels : List NodeLabel} {n : MessageNode}
    (hrun : Machine.run step
      (new (.new recvCount bufferSize dataSends controlSends helloSend) receives) labels = some n) :
    (n.msg.state.isClosing = false → (∀ r, r.1 ≠ .hello →
        n.regions.count r = (setupRegions dataSends controlSends receives).count r) ∧
      ∀ r, (setupRegions dataSends controlSends receives).count r = 1 →
        ∃ p ∈ r.1.places, (n.regionsAt p).count r = 1 ∧
          ∀ q, q ≠ p → r ∉ n.regionsAt q) ∧
    ∀ r, r.1 ≠ .hello →
      n.regions.count r ≤ (setupRegions dataSends controlSends receives).count r := by
  have hcustody (r : Region) (hr : r.1 ≠ .hello) :
      Custody r ((setupRegions dataSends controlSends receives).count r) n :=
    Machine.run_invariant_of_step (fun _ _ _ h hstep => custody_step hr h hstep)
      (custody_new recvCount bufferSize dataSends controlSends helloSend receives r) hrun
  refine ⟨fun hlive => ⟨fun r hr => (hcustody r hr).live hlive, fun r hone => ?_⟩,
    fun r hr => (hcustody r hr).le⟩
  have hr : r.1 ≠ .hello := by
    have hmem : r ∈ setupRegions dataSends controlSends receives :=
      count_pos_iff.mp (by omega)
    intro hhello
    simp only [setupRegions, mem_append, mem_map] at hmem
    rcases hmem with (⟨mr, -, rfl⟩ | ⟨mr, -, rfl⟩) | ⟨mr, -, rfl⟩ <;> cases hhello
  exact exists_place_of_count_eq_one hr (((hcustody r hr).live hlive).trans hone)

theorem regions_partition_handshake :
    ∃ n, Machine.run step small handshake = some n ∧ n.msg.state = .ready ∧
      ∀ r, (setupRegions [⟨1, []⟩] [⟨2, []⟩, ⟨3, []⟩] [⟨5, []⟩, ⟨6, []⟩, ⟨7, []⟩]).count r = 1 →
        ∃ p ∈ r.1.places, (n.regionsAt p).count r = 1 ∧ ∀ q, q ≠ p → r ∉ n.regionsAt q := by
  obtain ⟨n, hrun, hready⟩ :
      ∃ n, Machine.run step small handshake = some n ∧ n.msg.state = .ready := by
    decide +kernel
  refine ⟨n, hrun, hready, ?_⟩
  exact ((regions_partition hrun).1 (by rw [hready]; rfl)).2

/-- A transport that is closing, not yet stopped or failed, has dropped the buffers
of its pools. -/
theorem close_drops_pools : (Machine.run step small [.close]).any (fun n =>
      n.msg.state == .closing && (n.regions.count (.data, 1) == 0)) = true ∧
      (small.regions.count (.data, 1)) = 1 := by
  decide +kernel

end MessageNode

end RdmaIo.Message
