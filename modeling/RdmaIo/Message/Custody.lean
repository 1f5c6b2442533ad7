/-
Where the registered regions of an endpoint are.

A region is named by its role and its key.  The places that can hold one are the
pools, the send requests, the queued events, the delivery queue, the application,
and the engine with the commands, posted work requests and completions on their
way.  No step makes a second copy of a region, and a step loses one only if it
closes the transport or finds it closing.
-/
import RdmaIo.Message.Action

namespace RdmaIo.Message

open List

/-- What a registered region is used for. -/
inductive MrRole where
  | receive
  | data
  | control
  | hello
deriving Repr, DecidableEq

abbrev Region := MrRole × Nat

def Mr.region (role : MrRole) (mr : Mr) : Region :=
  (role, mr.key)

def MessageIoContext.role : MessageIoContext → MrRole
  | helloSend => .hello
  | receive => .receive
  | send _ => .data
  | controlSend => .control

variable (command : ProtocolCommand)

def ProtocolCommand.region : Region :=
  command.mr.region command.context.role

open ProtocolCommand (region unaccepted)

def IoCompletionEvent.regions (c : IoCompletionEvent) : List Region :=
  (c.mr.map (Mr.region c.context.role)).toList

def IoEvent.regions : IoEvent → List Region
  | completion event => event.regions
  | submission _ _ | terminal _ => []

def EngineMessageEvent.regions : EngineMessageEvent → List Region
  | repost mr => [mr.region .receive]
  | start | sendRequest _ => []

def EngineSendRequest.regions (request : EngineSendRequest) : List Region :=
  (request.mr.map (Mr.region .data)).toList

def CompletedRecv.region (message : CompletedRecv) : Region :=
  message.mr.region .receive

def PostedSend.region (send : PostedSend) : Region :=
  send.mr.region send.context.role

/-- The buffer that starting a request takes from it. -/
def EngineSendRequestAction.regions : EngineSendRequestAction → List Region
  | post mr _ _ | cancelled mr _ => [mr.region .data]
  | alreadyHandled => []

theorem ProtocolCommand.regions_rejectedEvents (error : Error) :
    (command.rejectedEvents error).flatMap IoEvent.regions = [command.region] := rfl

theorem ProtocolCommand.regions_cancelledEvents :
    command.cancelledEvents.flatMap IoEvent.regions = [command.region] := rfl

namespace EngineMessageState

variable (s : EngineMessageState)

/-- The regions in the transport, except that of the HELLO frame. -/
def regions : List Region :=
  s.dataSends.entries.map (Mr.region .data) ++ s.controlSends.entries.map (Mr.region .control) ++
    s.requests.flatMap EngineSendRequest.regions ++ s.events.flatMap EngineMessageEvent.regions ++
    s.received.map CompletedRecv.region ++ s.admissionPending.map ProtocolCommand.region ++
    s.port.events.flatMap IoEvent.regions

theorem count_regions (r : Region) : s.regions.count r =
      (s.dataSends.entries.map (Mr.region .data)).count r +
        (s.controlSends.entries.map (Mr.region .control)).count r +
        (s.requests.flatMap EngineSendRequest.regions).count r +
        (s.events.flatMap EngineMessageEvent.regions).count r +
        (s.received.map CompletedRecv.region).count r + (s.admissionPending.map region).count r +
        (s.port.events.flatMap IoEvent.regions).count r := by
  simp only [regions, count_append]

/-- What decides whether the transport takes a region back. -/
structure Doors where
  state : TransportState
  port : Bool
  admission : Bool
  data : Bool
  control : Bool
  /-- Receive buffers that have been delivered. -/
  delivered : List Region

def doors : Doors where
  state := s.state
  port := s.port.isOpen
  admission := s.admissionOpen
  data := s.dataSends.closed
  control := s.controlSends.closed
  delivered :=
    s.received.map CompletedRecv.region ++ s.events.flatMap EngineMessageEvent.regions

/-- A transport that is not closing takes buffers back and hears of its commands;
before it is ready nothing has been delivered. -/
structure Doors.Open (d : Doors) : Prop where
  port : d.state.isClosing = false → d.port = true
  admission : d.state.isClosing = false → d.admission = true
  data : d.state.isClosing = false → d.data = false
  control : d.state.isClosing = false → d.control = false
  fresh : d.state = .created → d.delivered = []

theorem Doors.Open.receiverLost_eq_false {s : EngineMessageState} (h : s.doors.Open)
    (hlive : s.state.isClosing = false) : s.receiverLost = false := by
  have hadmission : s.admissionOpen = true := h.admission hlive
  have hport : s.port.isOpen = true := h.port hlive
  rw [receiverLost, hadmission, hport]
  rfl

/-- From `s` with `given` copies of the region at hand to `s'` with `left`. -/
structure Retains (r : Region) (given : Nat) (s : EngineMessageState) (left : Nat)
    (s' : EngineMessageState) : Prop where
  le : s'.regions.count r + left ≤ s.regions.count r + given
  live : s.doors.Open → s'.state.isClosing = false →
    s'.regions.count r + left = s.regions.count r + given
  opens : s.doors.Open → s'.doors.Open
  closing : s.state.isClosing = true → s'.state.isClosing = true
  created : s'.state = .created → s.state = .created

variable {r : Region} {given middle left : Nat} {s s₁ s' : EngineMessageState}

theorem Retains.trans (h₁ : Retains r given s middle s₁) (h₂ : Retains r middle s₁ left s') :
    Retains r given s left s' where
  le := by
    have := h₁.le
    have := h₂.le
    omega
  live hopen hlive := by
    have hbefore : s₁.state.isClosing = false := by
      by_contra hclosing
      rw [h₂.closing (by simpa using hclosing)] at hlive
      cases hlive
    have := h₁.live hopen hbefore
    have := h₂.live (h₁.opens hopen) hlive
    omega
  opens hopen := h₂.opens (h₁.opens hopen)
  closing hclosing := h₂.closing (h₁.closing hclosing)
  created hcreated := h₁.created (h₂.created hcreated)

theorem Retains.of_count (hdoors : s'.doors = s.doors)
    (hcount : s'.regions.count r + left = s.regions.count r + given) :
    Retains r given s left s' where
  le := hcount.le
  live _ _ := hcount
  opens hopen := hdoors ▸ hopen
  closing hclosing := (congrArg (·.state.isClosing) hdoors).trans hclosing
  created hcreated := (congrArg (·.state) hdoors).symm.trans hcreated

theorem Retains.of_eq (hdoors : s'.doors = s.doors) (hregions : s'.regions = s.regions) :
    Retains r given s given s' :=
  .of_count hdoors (by rw [hregions])

theorem Retains.refl (s : EngineMessageState) : Retains r given s given s :=
  .of_eq rfl rfl

/-- The transport is closing; what it does not keep is lost. -/
theorem Retains.of_closing (hclosing : s'.state.isClosing = true)
    (hle : s'.regions.count r + left ≤ s.regions.count r + given) : Retains r given s left s' := by
  have hnot {p : Prop} (hlive : s'.state.isClosing = false) : p := by
    rw [hclosing] at hlive
    cases hlive
  refine ⟨hle, fun _ => hnot, fun _ => ⟨hnot, hnot, hnot, hnot, ?_⟩, fun _ => hclosing, ?_⟩
  all_goals
    intro hcreated
    apply hnot
    exact congrArg TransportState.isClosing hcreated

section Requests

theorem flatMap_regions_modify (requests : List EngineSendRequest)
    {f : EngineSendRequest → EngineSendRequest} (hf : ∀ q, (f q).mr = q.mr) (request : Nat) :
    (requests.modify request f).flatMap EngineSendRequest.regions =
      requests.flatMap EngineSendRequest.regions := by
  induction requests generalizing request with
  | nil => simp
  | cons _ _ ih =>
    cases request with
    | zero => simp [EngineSendRequest.regions, hf]
    | succ => simp [ih]

/-- A request that is started gives up its buffer. -/
theorem count_regions_taken {requests : List EngineSendRequest} {request : Nat}
    {q : EngineSendRequest} (hq : requests[request]? = some q) (r : Region) :
    ((requests.modify request fun q => { q with mr := none, credit := false }).flatMap
        EngineSendRequest.regions).count r + q.regions.count r =
      (requests.flatMap EngineSendRequest.regions).count r := by
  induction requests generalizing request with
  | nil => simp at hq
  | cons _ _ ih =>
    cases request with
    | zero =>
      rw [List.getElem?_cons_zero, Option.some.injEq] at hq
      subst hq
      simp [EngineSendRequest.regions, add_comm]
    | succ request =>
      rw [List.getElem?_cons_succ] at hq
      have := ih hq
      simp only [modify_succ_cons, flatMap_cons, count_append]
      omega

section

variable (s : EngineMessageState)

theorem retains_updateRequest (request : Nat) {f : EngineSendRequest → EngineSendRequest}
    (hf : ∀ q, (f q).mr = q.mr) : Retains r given s given (s.updateRequest request f) := by
  apply Retains.of_eq
  · rfl
  · simp only [regions, updateRequest, flatMap_regions_modify s.requests hf]

theorem retains_completeRequest (request : Nat) (result : Except Error Unit) :
    Retains r given s given (s.completeRequest request result) :=
  s.retains_updateRequest request fun _ => rfl

theorem retains_dropCredit (credit : Bool) : Retains r given s given (s.dropCredit credit) := by
  cases credit <;> exact .of_eq rfl rfl

theorem retains_rollbackUnacceptedSend (request : Nat) :
    Retains r given s given (s.rollbackUnacceptedSend request) := by
  unfold rollbackUnacceptedSend
  split
  · exact .refl s
  split
  · have hupdate : Retains r given s given
        (s.updateRequest request fun q => { q with creditCommitted := false }) :=
      s.retains_updateRequest request fun _ => rfl
    simp only
    split
    · exact hupdate
    · exact hupdate.trans (.of_eq rfl rfl)
  · exact .refl s

end

/-- Starting a request puts its buffer at hand. -/
theorem retains_startRequest {request : Nat} {action : EngineSendRequestAction}
    (h : s.startRequest request = (s', action)) : Retains r 0 s (action.regions.count r) s' := by
  unfold startRequest at h
  split at h
  · obtain ⟨rfl, rfl⟩ := Prod.mk.inj h
    exact .refl s
  next q hq =>
    split at h
    · obtain ⟨rfl, rfl⟩ := Prod.mk.inj h
      exact .refl s
    next mr hmr =>
      obtain ⟨rfl, rfl⟩ := Prod.mk.inj h
      have htaken := count_regions_taken hq r
      have haction : (if q.cancelled then EngineSendRequestAction.cancelled mr q.credit
          else .post mr q.credit q.frameLen).regions = q.regions := by
        rw [EngineSendRequest.regions, hmr]
        split <;> rfl
      apply Retains.of_count
      · rfl
      · rw [haction, count_regions, count_regions]
        change _ + _ + (List.flatMap EngineSendRequest.regions
          (s.requests.modify request _)).count r + _ + _ + _ + _ + _ = _
        simp only [updateRequest]
        omega

end Requests

section Closing

variable (s : EngineMessageState)

theorem disposeTerminalEvent_le (event : EngineMessageEvent) :
    (s.disposeTerminalEvent event).regions.count r ≤ s.regions.count r := by
  cases event with
  | start => exact le_rfl
  | repost => exact le_rfl
  | sendRequest request =>
    simp only [disposeTerminalEvent]
    rcases hs : s.startRequest request with ⟨t, action⟩
    have hstart := (retains_startRequest (r := r) hs).le
    have hend (credit : Bool) : Retains r 0 t 0 ((t.dropCredit credit).completeRequest
        request (.error t.terminalError)) :=
      (t.retains_dropCredit credit).trans (retains_completeRequest _ request _)
    cases action with
    | post _ credit =>
      have := (hend credit).le
      simp only
      omega
    | cancelled _ credit =>
      have := (hend credit).le
      simp only
      omega
    | alreadyHandled =>
      simp only
      omega

theorem foldl_disposeTerminalEvent_le (events : List EngineMessageEvent) :
    (events.foldl disposeTerminalEvent s).regions.count r ≤ s.regions.count r := by
  induction events generalizing s with
  | nil => exact le_rfl
  | cons event _ ih => exact (ih _).trans (s.disposeTerminalEvent_le event)

theorem retains_disposeIoEvent (event : IoEvent) :
    Retains r given s given (s.disposeIoEvent event) := by
  cases event with
  | submission => exact .of_eq rfl rfl
  | terminal => exact .refl s
  | completion c =>
    simp only [disposeIoEvent]
    cases c.context with
    | send request =>
      simp only
      split
      · exact (s.retains_rollbackUnacceptedSend request).trans (retains_completeRequest _ request _)
      · exact s.retains_completeRequest request _
    | helloSend => exact .refl s
    | receive => exact .refl s
    | controlSend => exact .refl s

theorem retains_foldl_disposeIoEvent (events : List IoEvent) :
    Retains r given s given (events.foldl disposeIoEvent s) := by
  induction events generalizing s with
  | nil => exact .refl s
  | cons event _ ih => exact (s.retains_disposeIoEvent event).trans (ih _)

theorem disposeEvents_le : s.disposeEvents.regions.count r ≤ s.regions.count r := by
  have hfold := foldl_disposeTerminalEvent_le (r := r) { s with events := [] } s.events
  have hdiscard : s.disposeEvents.regions.count r ≤
      (s.events.foldl disposeTerminalEvent { s with events := [] }).regions.count r := by
    rw [count_regions, count_regions]
    simp only [disposeEvents, discardPendingProtocol, map_nil, count_nil]
    omega
  have htake : { s with events := [] }.regions.count r ≤ s.regions.count r := by
    rw [count_regions, count_regions]
    simp only [flatMap_nil, count_nil]
    omega
  exact hdiscard.trans (hfold.trans htake)

theorem drainClosing_le : s.drainClosing.regions.count r ≤ s.regions.count r := by
  have hfold : Retains r 0 { s.disposeEvents with port := { isOpen := false, events := [] } } 0
      s.drainClosing :=
    retains_foldl_disposeIoEvent _ s.disposeEvents.port.events
  have hshut : { s.disposeEvents with port := { isOpen := false, events := [] }
      }.regions.count r ≤ s.disposeEvents.regions.count r := by
    rw [count_regions, count_regions]
    simp only [flatMap_nil, count_nil]
    omega
  exact hfold.le.trans (hshut.trans s.disposeEvents_le)

theorem closePools_le : s.closePools.regions.count r ≤ s.regions.count r := by
  rw [count_regions, count_regions]
  simp only [closePools, map_nil, count_nil]
  omega

/-- A transport that fails is closing; a buffer at hand is dropped. -/
theorem retains_fail (error : Error) (closeConnection : Bool) :
    Retains r given s 0 (s.fail error closeConnection) := by
  have hfailed : (s.enterFailed error).regions.count r ≤ s.regions.count r :=
    (drainClosing_le _).trans (closePools_le _)
  unfold fail
  split
  next hstate =>
    exact .of_closing (by rw [hstate]; rfl) (Nat.le_add_right _ _)
  next hstate =>
    exact .of_closing (by rw [hstate]; rfl) (Nat.le_add_right _ _)
  all_goals
    apply Retains.of_closing
    · exact (dead_drainClosing _ rfl).state
    · exact hfailed.trans (Nat.le_add_right _ _)

theorem retains_finishClose (result : Except Error Unit) :
    Retains r given s 0 (s.finishClose result) := by
  cases result with
  | error error => exact s.retains_fail error false
  | ok =>
    apply Retains.of_closing
    · simp only [finishClose]
      cases s.state <;> exact (dead_drainClosing _ rfl).state
    · refine ((drainClosing_le _).trans (closePools_le _)).trans ?_
      exact Nat.le_add_right _ _

end Closing

section Submission

variable (s : EngineMessageState)

theorem retains_tryMarkReady : Retains r given s given s.tryMarkReady := by
  unfold tryMarkReady
  split
  next hready =>
    have hstate : s.state = .created := by simp_all
    refine ⟨le_rfl, fun _ _ => rfl, fun hopen => ?_, ?_, nofun⟩
    · have hlive : s.doors.state.isClosing = false := congrArg TransportState.isClosing hstate
      exact ⟨fun _ => hopen.port hlive, fun _ => hopen.admission hlive,
        fun _ => hopen.data hlive, fun _ => hopen.control hlive, nofun⟩
    · rw [hstate]
      nofun
  · exact .refl s

theorem retains_failPotential (disposition : IoSubmissionDisposition) :
    Retains r 0 s 0 (s.failPotential disposition) := by
  unfold failPotential
  split
  · exact s.retains_fail _ _
  · exact .refl s

theorem retains_applyProtocolDisposition (transition : PendingProtocolTransition)
    (disposition : IoSubmissionDisposition) :
    Retains r 0 s 0 (s.applyProtocolDisposition transition disposition) := by
  have hfail := s.retains_failPotential (r := r) disposition
  unfold applyProtocolDisposition
  cases transition with
  | receive =>
    simp only
    split
    · exact .of_eq rfl rfl
    · exact hfail
  | send | helloSend =>
    simp only
    split
    · exact .refl s
    · exact hfail
  | controlSend =>
    simp only
    split
    · exact .refl s
    split
    · exact hfail
    split
    · exact .of_eq rfl rfl
    · exact .refl s
  | helloReceiveRepost capacity =>
    simp only
    split
    · refine Retains.trans ?_ (retains_tryMarkReady _)
      exact .of_eq rfl rfl
    · exact hfail

/-- Events sent to the port stay there, or the transport is closing. -/
theorem retains_send (events : List IoEvent) :
    Retains r ((events.flatMap IoEvent.regions).count r) s 0
      { s with port := s.port.send events } := by
  by_cases hport : s.port.isOpen = true
  · apply Retains.of_count
    · simp only [doors, IoEventPort.send, hport, if_true]
    · rw [count_regions, count_regions]
      simp only [IoEventPort.send, hport, if_true, flatMap_append, count_append]
      omega
  · have hsame : { s with port := s.port.send events } = s := by
      simp only [IoEventPort.send, hport]
      rfl
    rw [hsame]
    refine ⟨Nat.le_add_right _ _, fun hopen hlive => ?_, id, id, id⟩
    exact absurd (hopen.port hlive) hport

theorem retains_submitTracked (batch : ProtocolBatch) (transition : PendingProtocolTransition)
    (refusal : Option Error) : Retains r ([region ⟨s.nextCommand, batch⟩].count r) s 0
      (s.submitTracked batch transition refusal) := by
  have hreject (error : Error) : Retains r ([region ⟨s.nextCommand, batch⟩].count r) s 0
        ({ s with
        nextCommand := s.nextCommand + 1
        port := s.port.send [unaccepted ⟨s.nextCommand, batch⟩ error]
        }.applyProtocolDisposition transition (.fullyUnaccepted 1 error)) := by
    refine Retains.trans ?_ (retains_applyProtocolDisposition _ _ _)
    refine Retains.trans ?_ (retains_send { s with nextCommand := s.nextCommand + 1 }
      [unaccepted ⟨s.nextCommand, batch⟩ error])
    exact .of_eq rfl rfl
  unfold submitTracked submitProtocol
  simp only
  split
  · cases refusal with
    | some error => exact hreject error
    | none =>
      apply Retains.of_count
      · rfl
      · rw [count_regions, count_regions]
        simp only [trackProtocolDisposition, map_append, map_cons, map_nil, count_append]
        omega
  · exact hreject .transportClosed

end Submission

section Processing

theorem retains_putDataSend (s : EngineMessageState) (mr : Option Mr) :
    Retains r ((mr.map (Mr.region .data)).toList.count r) s 0 (s.putDataSend mr) := by
  cases mr with
  | none => exact .refl s
  | some mr =>
    simp only [putDataSend, RegisteredMrPool.put]
    split
    next hclosed =>
      refine ⟨Nat.le_add_right _ _, fun hopen hlive => ?_, id, id, id⟩
      cases hclosed.symm.trans (hopen.data hlive)
    next =>
      apply Retains.of_count
      · rfl
      · rw [count_regions, count_regions]
        simp only [map_cons, count_cons, Option.map_some, Option.toList_some, count_nil]
        omega

theorem retains_putControlSend (s : EngineMessageState) (mr : Mr) :
    Retains r ([mr.region .control].count r) s 0
      { s with controlSends := s.controlSends.put mr } := by
  simp only [RegisteredMrPool.put]
  split
  next hclosed =>
    refine ⟨Nat.le_add_right _ _, fun hopen hlive => ?_, id, id, id⟩
    cases hclosed.symm.trans (hopen.control hlive)
  next =>
    apply Retains.of_count
    · rfl
    · rw [count_regions, count_regions]
      simp only [map_cons, count_cons, count_nil]
      omega

theorem retains_processHelloReceive (s : EngineMessageState) (result : Except Error Nat)
    (mr : Option Mr) (refusal : Option Error) :
    Retains r ((mr.map (Mr.region .receive)).toList.count r) s 0
      (s.processHelloReceive result mr refusal) := by
  unfold processHelloReceive
  split
  · exact s.retains_fail _ _
  · exact s.retains_fail _ _
  · split
    · exact s.retains_fail _ _
    split
    · exact s.retains_fail _ _
    · exact s.retains_submitTracked (.recv _) _ _

/-- A frame is taken in the ready state only. -/
theorem retains_processFrame (hready : s.state = .ready) (receivedLen : Nat) (mr : Mr)
    (refusal : Option Error) :
    Retains r ([mr.region .receive].count r) s 0 (s.processFrame receivedLen mr refusal) := by
  unfold processFrame
  split
  · exact s.retains_fail _ _
  split
  · exact s.retains_fail _ _
  next header hheader =>
  split
  · split
    · exact s.retains_fail _ _
    · -- the buffer goes to the delivery queue, with what the frame carries
      have hcount : ({ s with
          received := s.received ++ [⟨mr, header.payloadLen⟩] } : EngineMessageState
          ).regions.count r + 0 = s.regions.count r + [mr.region .receive].count r := by
        rw [count_regions, count_regions]
        simp only [map_append, map_cons, map_nil, count_append, CompletedRecv.region]
        omega
      refine ⟨hcount.le, fun _ _ => hcount, fun hopen => ?_, id, id⟩
      refine ⟨hopen.port, hopen.admission, hopen.data, hopen.control, fun hcreated => ?_⟩
      cases hready.symm.trans hcreated
  split
  · split
    · exact s.retains_fail _ _
    split
    · exact s.retains_fail _ _
    next credited hcredits =>
      obtain ⟨-, -, -, rfl⟩ := validateAndAddCredits_eq_ok hcredits
      refine Retains.trans ?_ (retains_submitTracked _ (.recv mr) _ _)
      exact .of_eq rfl rfl
  · exact s.retains_fail _ _

theorem retains_processReceive (s : EngineMessageState) (result : Except Error Nat) (mr : Option Mr)
    (refusal : Option Error) : Retains r ((mr.map (Mr.region .receive)).toList.count r) s 0
      (s.processReceive result mr refusal) := by
  unfold processReceive
  split
  · exact s.retains_processHelloReceive result mr refusal
  next hready =>
    split
    · exact s.retains_fail _ _
    · exact s.retains_fail _ _
    · exact retains_processFrame hready _ _ refusal
  all_goals
    next hstate =>
      exact .of_closing (by rw [hstate]; rfl) (Nat.le_add_right _ _)

theorem retains_rollback (s : EngineMessageState) (request : Nat) (unaccepted : Bool) :
    Retains r given s given
      (if unaccepted then s.rollbackUnacceptedSend request else s) := by
  split
  · exact s.retains_rollbackUnacceptedSend request
  · exact .refl s

theorem retains_processSendCompletion (s : EngineMessageState) (request : Nat)
    (event : IoCompletionEvent) : Retains r ((event.mr.map (Mr.region .data)).toList.count r) s 0
      (s.processSendCompletion request event) := by
  unfold processSendCompletion
  refine (s.retains_rollback request event.provenUnaccepted).trans ?_
  generalize (if event.provenUnaccepted then s.rollbackUnacceptedSend request else s) = s₁
  refine (s₁.retains_putDataSend event.mr).trans ?_
  cases event.result with
  | ok _ => exact retains_completeRequest _ request _
  | error error =>
    refine (retains_completeRequest _ request (.error (normalizeCompletionError error))).trans ?_
    simp only
    split
    · exact retains_fail _ _ _
    · exact .refl _

section

variable (hr : r.1 ≠ .hello) (s : EngineMessageState)

include hr

theorem retains_processIoCompletion (event : IoCompletionEvent) (refusal : Option Error) :
    Retains r (event.regions.count r) s 0 (s.processIoCompletion event refusal) := by
  unfold processIoCompletion IoCompletionEvent.regions
  cases event.context with
  | receive => exact s.retains_processReceive _ _ _
  | helloSend =>
    have hnone : ((event.mr.map (Mr.region .hello)).toList).count r = 0 := by
      rw [count_eq_zero]
      intro hmem
      obtain ⟨mr, -, hregion⟩ := Option.map_eq_some_iff.mp (Option.mem_toList.mp hmem)
      exact hr (congrArg Prod.fst hregion).symm
    change Retains r (((event.mr.map (Mr.region .hello)).toList).count r) s 0 _
    rw [hnone]
    cases event.result with
    | error => exact s.retains_fail _ _
    | ok _ =>
      simp only
      split
      · exact s.retains_fail _ _
      · refine Retains.trans ?_ (retains_tryMarkReady _)
        exact .of_eq rfl rfl
  | send request =>
    simp only
    split
    · refine (s.retains_rollback request event.provenUnaccepted).trans ?_
      exact (retains_putDataSend _ event.mr).trans (retains_completeRequest _ request _)
    · exact s.retains_processSendCompletion request event
  | controlSend =>
    cases event.mr with
    | none => exact s.retains_fail _ _
    | some mr =>
      refine (s.retains_putControlSend mr).trans ?_
      cases event.result with
      | ok => exact .refl _
      | error =>
        simp only
        split
        · exact retains_fail _ _ _
        · exact .refl _

theorem retains_processIoEvent (event : IoEvent) (refusal : Option Error) :
    Retains r (event.regions.count r) s 0 (s.processIoEvent event refusal) := by
  cases event with
  | submission id disposition =>
    simp only [processIoEvent]
    split
    · exact s.retains_fail _ _
    · refine Retains.trans ?_ (retains_applyProtocolDisposition _ _ _)
      exact .of_eq rfl rfl
  | terminal event =>
    cases event with
    | disconnected => exact s.retains_fail _ _
    | terminal error => exact s.retains_fail _ _
    | closed result => exact s.retains_finishClose result
  | completion c =>
    simp only [processIoEvent]
    split
    next hclosing =>
      refine Retains.trans ?_ (s.retains_disposeIoEvent _)
      exact .of_closing hclosing (Nat.le_add_right _ _)
    · exact s.retains_processIoCompletion hr c refusal

theorem foldl_processIoEvent_le (events : List IoEvent) :
    (events.foldl (fun (s : EngineMessageState) event => s.processIoEvent event none)
        s).regions.count r ≤
      s.regions.count r + (events.flatMap IoEvent.regions).count r := by
  induction events generalizing s with
  | nil => exact Nat.le_add_right _ _
  | cons event events ih =>
    have hevent := (s.retains_processIoEvent hr event none).le
    have hrest := ih (s.processIoEvent event none)
    rw [foldl_cons, flatMap_cons, count_append]
    omega

theorem retains_beginClose : Retains r 0 s 0 s.beginClose := by
  apply Retains.of_closing
  · exact s.dead_beginClose.state
  have henter : s.enterClosing.regions.count r ≤ s.regions.count r :=
    (disposeEvents_le _).trans (closePools_le _)
  have hdrain := foldl_processIoEvent_le hr
    { s.enterClosing with port := { s.enterClosing.port with events := [] } }
    s.enterClosing.port.events
  have htake : { s.enterClosing with port := { s.enterClosing.port with events := [] }
      }.regions.count r + (s.enterClosing.port.events.flatMap IoEvent.regions).count r =
      s.enterClosing.regions.count r := by
    rw [count_regions, count_regions]
    simp only [flatMap_nil, count_nil]
    omega
  exact hdrain.trans (htake.le.trans henter)

end

theorem retains_processRepost (s : EngineMessageState) (mr : Mr) (refusal : Option Error)
    (hcreated : s.state ≠ .created) :
    Retains r ([mr.region .receive].count r) s 0 (s.processRepost mr refusal) := by
  unfold processRepost
  split
  · exact s.retains_submitTracked (.recv mr) _ _
  next hready =>
    refine .of_closing ?_ (Nat.le_add_right _ _)
    cases hstate : s.state with
    | created => exact absurd hstate hcreated
    | ready => exact absurd hstate hready
    | closing => rfl
    | stopped => rfl
    | failed => rfl

theorem retains_processSendRequest (s : EngineMessageState) (request : Nat)
    (refusal : Option Error) : Retains r 0 s 0 (s.processSendRequest request refusal) := by
  unfold processSendRequest
  rcases hs : s.startRequest request with ⟨t, action⟩
  refine (retains_startRequest hs).trans ?_
  cases action with
  | alreadyHandled => exact .refl t
  | cancelled mr credit =>
    exact (t.retains_dropCredit credit).trans (retains_putDataSend _ (some mr))
  | post mr credit frameLen =>
    simp only
    split
    · split
      · refine Retains.trans ?_ (retains_submitTracked _ (.send mr frameLen (.send request)) _ _)
        refine Retains.trans ?_ (retains_updateRequest _ request fun _ => rfl)
        exact .of_eq rfl rfl
      · exact t.retains_submitTracked (.send mr frameLen (.send request)) _ _
    · refine (t.retains_dropCredit credit).trans ?_
      exact (retains_putDataSend _ (some mr)).trans (retains_completeRequest _ request _)

theorem retains_startHelloSend (hr : r.1 ≠ .hello) (s : EngineMessageState)
    (refusal : Option Error) : Retains r 0 s 0 (s.startHelloSend refusal) := by
  unfold startHelloSend
  split
  · exact .refl s
  simp only
  split
  · have hposted : Retains r 0 s 0 { s with helloSendPosted := true } := .of_eq rfl rfl
    exact hposted.trans (retains_fail _ _ _)
  next mr hmr =>
    have hnone (command : Nat) (mr : Mr) (len : Nat) :
        [region ⟨command, .send mr len .helloSend⟩].count r = 0 := by
      rw [count_eq_zero, mem_singleton]
      intro hregion
      exact hr (congrArg Prod.fst hregion)
    have hsubmit := retains_submitTracked (r := r)
      { s with helloSendPosted := true, helloSend := none }
      (.send { mr with content := writeHelloFrame s.localRecvCapacity s.bufferSize }
        (writeHelloFrame s.localRecvCapacity s.bufferSize).length .helloSend)
      .helloSend refusal
    rw [hnone] at hsubmit
    refine Retains.trans ?_ hsubmit
    exact .of_eq rfl rfl

/-- An event leaves the queue with its buffer. -/
theorem retains_popEvent {event : EngineMessageEvent} {events : List EngineMessageEvent}
    (hevents : s.events = event :: events) :
    Retains r 0 s (event.regions.count r) { s with events } := by
  have hcount : { s with events }.regions.count r + event.regions.count r =
      s.regions.count r + 0 := by
    rw [count_regions, count_regions, hevents, flatMap_cons, count_append]
    simp only
    omega
  refine ⟨hcount.le, fun _ _ => hcount, fun hopen => ?_, id, id⟩
  refine ⟨hopen.port, hopen.admission, hopen.data, hopen.control, fun hcreated => ?_⟩
  have hfresh := hopen.fresh hcreated
  simp only [doors, hevents, flatMap_cons, append_eq_nil_iff] at hfresh ⊢
  exact ⟨hfresh.1, hfresh.2.2⟩

theorem retains_popIo {event : IoEvent} {events : List IoEvent}
    (hevents : s.port.events = event :: events) :
    Retains r 0 s (event.regions.count r) { s with port := { s.port with events } } := by
  apply Retains.of_count
  · rfl
  · rw [count_regions, count_regions, hevents, flatMap_cons, count_append]
    simp only
    omega

/-- The oldest event of the queue is taken from it and processed. -/
theorem retains_protocol (hr : r.1 ≠ .hello) (hopen : s.doors.Open)
    {event : EngineMessageEvent} {events : List EngineMessageEvent}
    (hevents : s.events = event :: events) (refusal : Option Error) :
    Retains r 0 s 0 ({ s with events }.processEvent event refusal) := by
  refine (retains_popEvent hevents).trans ?_
  cases event with
  | start => exact retains_startHelloSend hr _ refusal
  | sendRequest request => exact retains_processSendRequest _ request refusal
  | repost mr =>
    apply retains_processRepost
    intro hcreated
    have hfresh := hopen.fresh hcreated
    simp [doors, hevents, EngineMessageEvent.regions] at hfresh

theorem retains_flushOneCredit {refusal : Option Error}
    (h : s.flushOneCredit refusal = some s') : Retains r 0 s 0 s' := by
  unfold flushOneCredit at h
  split at h
  · cases h
  split at h
  · cases h
  next mr entries hentries =>
    cases h
    refine Retains.trans ?_ (retains_submitTracked _ (.send _ _ .controlSend) _ refusal)
    apply Retains.of_count
    · rfl
    · rw [count_regions, count_regions, hentries, map_cons, count_cons]
      simp only [region, count_cons, count_nil]
      change _ + _ + _ + _ + _ + _ + _ + (0 + if (mr.region .control == r) then 1 else 0) = _
      omega

theorem retains_pollAdmission {permit : PermitPoll} {out : Option ProtocolCommand}
    (h : s.pollAdmission permit = some (s', out)) :
    Retains r 0 s ((out.map region).toList.count r) s' := by
  obtain ⟨command, rest, hpending, hpolled⟩ := pollAdmission_cases h
  have hpop : Retains r 0 s ([command.region].count r)
      { s with admissionPending := rest } := by
    apply Retains.of_count
    · rfl
    · rw [count_regions, count_regions, hpending, map_cons, count_cons]
      simp only [count_cons, count_nil]
      omega
  have hdeliver {events : List IoEvent}
      (hregions : events.flatMap IoEvent.regions = [command.region]) :
      Retains r 0 s 0 { s with admissionPending := rest, port := s.port.send events } := by
    refine hpop.trans ?_
    rw [← hregions]
    exact retains_send _ events
  cases hpolled with
  | lost hlost =>
    refine ⟨?_, fun hopen hlive => ?_, hpop.opens, id, id⟩
    · exact (Nat.le_add_right _ _).trans hpop.le
    · cases hlost.symm.trans (hopen.receiverLost_eq_false hlive)
  | cancelled => exact hdeliver command.regions_cancelledEvents
  | rejected _ _ error => exact hdeliver (command.regions_rejectedEvents error)
  | granted => exact hpop

/-- One iteration of the driver loop moves buffers, with an admitted command to
the reactor. -/
theorem retains_iteration (hr : r.1 ≠ .hello) (hopen : s.doors.Open) {env : DriveEnv}
    {out : Option ProtocolCommand}
    (h : MessageTransportDriver.Iteration s env s' out) :
    Retains r 0 s ((out.map region).toList.count r) s' := by
  cases h with
  | admission _ hpoll => exact retains_pollAdmission hpoll
  | credit hflush => exact retains_flushOneCredit hflush
  | protocol hevents => exact retains_protocol hr hopen hevents _
  | io hevents => exact (retains_popIo hevents).trans (retains_processIoEvent hr _ _ _)

theorem retains_queueEvent (s : EngineMessageState) (event : EngineMessageEvent)
    (hfresh : s.state = .created → event.regions = []) :
    Retains r (event.regions.count r) s 0 (s.queueEvent event) := by
  unfold queueEvent
  split
  next hclosing =>
    have hkeep := s.withoutSends_disposeTerminalEvent event
    apply Retains.of_closing
    · exact (congrArg (·.state.isClosing) hkeep).trans hclosing
    · exact (s.disposeTerminalEvent_le event).trans (Nat.le_add_right _ _)
  next hlive =>
    have hcount : { s with events := s.events ++ [event] }.regions.count r + 0 =
        s.regions.count r + event.regions.count r := by
      rw [count_regions, count_regions]
      simp only [flatMap_append, flatMap_singleton, count_append]
      omega
    refine ⟨hcount.le, fun _ _ => hcount, fun hopen => ?_, id, id⟩
    refine ⟨hopen.port, hopen.admission, hopen.data, hopen.control, fun hcreated => ?_⟩
    have hbefore := hopen.fresh hcreated
    simp only [doors, append_eq_nil_iff] at hbefore
    simp [doors, hbefore, hfresh hcreated]

theorem retains_deadlineExpired (s : EngineMessageState) : Retains r 0 s 0 s.deadlineExpired := by
  unfold deadlineExpired
  split
  · exact s.retains_fail _ _
  · exact .refl s

end Processing

end EngineMessageState

end RdmaIo.Message
