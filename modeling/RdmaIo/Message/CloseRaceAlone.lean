/-
A call that no other call interrupts.

The operations of each call, run one after another, come to an end and compute
what the function of the call computes in one step.
-/
import RdmaIo.Message.CloseRace

namespace RdmaIo.Message

open RaceOp
open RaceShared
open DrainOp CloseOp ProcessOp IoOp DriveOp

/-- No call holds a lock. -/
def RaceShared.Unlocked (s : RaceShared) : Prop :=
  s.eventsLocked = false ∧ s.errorLocked = false

/-- From `s` the operations come to an end with the transport `msg`. -/
def Ends (refusal : Option Error) (s : RaceShared) (ops : List RaceOp)
    (msg : EngineMessageState) : Prop :=
  ∃ s', Threads.Finishes (exec refusal) s ops s' ∧ s'.msg = msg ∧ s'.Unlocked

/-- The operations compute `f`, from wherever no lock is held. -/
def Computes (refusal : Option Error) (ops : List RaceOp)
    (f : EngineMessageState → EngineMessageState) : Prop :=
  ∀ s : RaceShared, s.Unlocked → Ends refusal s ops (f s.msg)

section

variable {refusal : Option Error} {s s₁ : RaceShared} {op : RaceOp} {ops more : List RaceOp}
  {msg : EngineMessageState} {f g : EngineMessageState → EngineMessageState}

theorem Ends.nil (hs : s.Unlocked) : Ends refusal s [] s.msg :=
  ⟨s, .nil s, rfl, hs⟩

theorem Ends.cons (hexec : s.exec refusal op = some (s₁, more))
    (h : Ends refusal s₁ (more ++ ops) msg) : Ends refusal s (op :: ops) msg := by
  obtain ⟨s', hfinishes, hmsg, hs'⟩ := h
  exact ⟨s', .cons hexec hfinishes, hmsg, hs'⟩

theorem Ends.single (hexec : s.exec refusal op = some (s₁, more))
    (h : Ends refusal s₁ more msg) : Ends refusal s [op] msg := by
  obtain ⟨s', hfinishes, hmsg, hs'⟩ := h
  exact ⟨s', .single hexec hfinishes, hmsg, hs'⟩

theorem Computes.nil : Computes refusal [] id :=
  fun _ hs => .nil hs

theorem Computes.append (h₁ : Computes refusal ops f) (h₂ : Computes refusal more g) :
    Computes refusal (ops ++ more) fun msg => g (f msg) := by
  intro s hs
  obtain ⟨s₁, hfinishes₁, hmsg₁, hs₁⟩ := h₁ s hs
  obtain ⟨s₂, hfinishes₂, hmsg₂, hs₂⟩ := h₂ s₁ hs₁
  exact ⟨s₂, hfinishes₁.append hfinishes₂, by rw [hmsg₂, hmsg₁], hs₂⟩

theorem Computes.cons (h₁ : Computes refusal [op] f) (h₂ : Computes refusal more g) :
    Computes refusal (op :: more) fun msg => g (f msg) :=
  h₁.append h₂

/-- An operation that only changes the transport. -/
theorem Computes.atomic (hexec : ∀ s : RaceShared, s.exec refusal op = s.update (f s.msg) []) :
    Computes refusal [op] f := by
  intro s hs
  exact ⟨s.setMsg (f s.msg), .atomic (hexec s), rfl, hs⟩

theorem Computes.provided {b : Bool} (h : Computes refusal ops f) :
    Computes refusal (provided b ops) fun msg => if b then f msg else msg := by
  cases b
  · exact .nil
  · exact h

/-- One operation for each element of a list. -/
theorem Computes.map {α : Type} {step : EngineMessageState → α → EngineMessageState}
    {next : α → RaceOp} (h : ∀ a, Computes refusal [next a] fun msg => step msg a)
    (l : List α) : Computes refusal (l.map next) fun msg => l.foldl step msg := by
  induction l with
  | nil => exact .nil
  | cons a _ ih => exact (h a).cons ih

end

section Dispose

variable {refusal : Option Error}

theorem RaceShared.start_alone {s t : RaceShared} {request : Nat}
    {action : EngineSendRequestAction} (h : s.start request = (t, action))
    (hs : s.Unlocked) : s.msg.startRequest request = (t.msg, action) ∧ t.Unlocked := by
  unfold start at h
  rcases hstart : s.msg.startRequest request with ⟨msg, taken⟩
  rw [hstart] at h
  cases taken <;> obtain ⟨rfl, rfl⟩ := Prod.mk.inj h <;> exact ⟨rfl, hs⟩

theorem computes_dropCredit (credit : Bool) :
    Computes refusal [↑(dropCredit credit)] fun msg => msg.dropCredit credit :=
  .atomic fun _ => rfl

theorem computes_completeTerminal (request : Nat) :
    Computes refusal [↑(completeTerminal request)] fun msg =>
      msg.completeRequest request (.error msg.terminalError) := by
  intro s hs
  have hexec : s.exec refusal (completeTerminal request) =
      s.proceed [↑(complete request (.error s.msg.terminalError))] := by
    change (if s.errorLocked = true then none else _) = _
    rw [hs.2]
    rfl
  exact .single hexec ⟨_, .atomic rfl, rfl, hs⟩

theorem computes_disposeTerminalEvent (ticket : Option Nat) (event : EngineMessageEvent) :
    Computes refusal [↑(disposeTerminalEvent ticket event)] fun msg =>
      msg.disposeTerminalEvent event := by
  intro s hs
  cases event with
  | start => exact .single rfl (.nil hs)
  | repost => exact .single rfl (.nil hs)
  | sendRequest request =>
    rcases hstart : (s.recordFate ticket .disposed).start request with ⟨t, action⟩
    obtain ⟨hcoarse, ht⟩ := start_alone hstart hs
    have htaken (credit : Bool) : Ends refusal { t with disposed := t.disposed ++ [request] }
        [↑(dropCredit credit), ↑(completeTerminal request)]
        ((t.msg.dropCredit credit).completeRequest request
          (.error t.msg.terminalError)) := by
      have herror : (t.msg.dropCredit credit).terminalError = t.msg.terminalError := by
        cases credit <;> rfl
      rw [← herror]
      exact (computes_dropCredit credit).cons (computes_completeTerminal request) _ ht
    simp only [EngineMessageState.disposeTerminalEvent]
    rw [show s.msg.startRequest request = (t.msg, action) from hcoarse]
    cases action with
    | post _ credit =>
      refine .single ?_ (htaken credit)
      simp only [exec, execDrain, hstart]
      rfl
    | cancelled _ credit =>
      refine .single ?_ (htaken credit)
      simp only [exec, execDrain, hstart]
      rfl
    | alreadyHandled =>
      refine .single ?_ (.nil ht)
      simp only [exec, execDrain, hstart]
      rfl

theorem computes_disposeAll (first : Nat) (events : List EngineMessageEvent) :
    Computes refusal (disposeAll first events) fun msg =>
      events.foldl EngineMessageState.disposeTerminalEvent msg := by
  induction events generalizing first with
  | nil => exact .nil
  | cons event _ ih =>
    exact (computes_disposeTerminalEvent (some first) event).cons (ih (first + 1))

theorem computes_uncountSend : Computes refusal [↑uncountSend] fun msg =>
      if msg.creditsInFlight = 0 then msg
      else
        { msg with
          creditsInFlight := msg.creditsInFlight - 1
          remoteCredits := msg.remoteCredits + 1 } := by
  intro s hs
  by_cases hzero : s.msg.creditsInFlight = 0
  · have hexec : s.exec refusal uncountSend = s.proceed [] := if_pos hzero
    simp only [hzero, if_true]
    exact .single hexec (.nil hs)
  · have hexec : s.exec refusal uncountSend =
        s.update { s.msg with creditsInFlight := s.msg.creditsInFlight - 1 }
          [↑(addPermits 1)] := if_neg hzero
    simp only [hzero, if_false]
    exact .single hexec ⟨_, .atomic rfl, rfl, hs⟩

theorem computes_rollback (request : Nat) :
    Computes refusal [↑(rollback request)] fun msg => msg.rollbackUnacceptedSend request := by
  intro s hs
  change Ends refusal s _ (s.msg.rollbackUnacceptedSend request)
  unfold EngineMessageState.rollbackUnacceptedSend
  cases hrequest : s.msg.requests[request]? with
  | none =>
    refine .single ?_ (.nil hs)
    simp only [exec, execDrain, hrequest]
    rfl
  | some q =>
    by_cases hcommitted : q.creditCommitted = true
    · simp only [hcommitted, if_true]
      refine .single ?_ (computes_uncountSend
        (s.setMsg (s.msg.updateRequest request fun q => { q with creditCommitted := false })) hs)
      simp only [exec, execDrain, hrequest, hcommitted, if_true]
      rfl
    · simp only [hcommitted]
      refine .single ?_ (.nil hs)
      simp only [exec, execDrain, hrequest, hcommitted]
      rfl

theorem computes_disposeIoEvent (event : IoEvent) :
    Computes refusal [↑(disposeIoEvent event)] fun msg => msg.disposeIoEvent event := by
  intro s hs
  cases event with
  | submission => exact ⟨_, .atomic rfl, rfl, hs⟩
  | terminal => exact .single rfl (.nil hs)
  | completion c =>
    rcases c with ⟨context, result, mr, provenUnaccepted, cancelledBeforeSubmit⟩
    cases context with
    | send request =>
      exact .single rfl ((computes_rollback request).provided.append
          (computes_completeTerminal request) s hs)
    | helloSend => exact .single rfl (.nil hs)
    | receive => exact .single rfl (.nil hs)
    | controlSend => exact .single rfl (.nil hs)

/-- `drain_terminal_events(true)`. -/
theorem computes_takeEvents :
    Computes refusal [↑(takeEvents true)] fun msg => msg.drainClosing := by
  intro s hs
  have hexec : s.exec refusal (takeEvents true) =
      { s with removed := s.removed + s.msg.events.length }.update
        { s.msg with events := [] }
        (chain [disposeAll s.removed s.msg.events,
          [↑closeAdmission, ↑discardAdmission, ↑(drainPort true)]]) := by
    change (if s.eventsLocked = true then none else _) = _
    rw [hs.1]
    rfl
  have hport : Computes refusal [↑(drainPort true)] fun msg =>
      msg.port.events.foldl EngineMessageState.disposeIoEvent
        { msg with port := { isOpen := false, events := [] } } := by
    intro t ht
    exact .single rfl (Computes.map computes_disposeIoEvent t.msg.port.events
      (t.setMsg { t.msg with port := { isOpen := false, events := [] } }) ht)
  have hadmission : Computes refusal [↑closeAdmission, ↑discardAdmission]
      EngineMessageState.discardPendingProtocol :=
    fun _ ht => ⟨_, .cons rfl (.cons rfl (.nil _)), rfl, ht⟩
  exact .single hexec
    (((computes_disposeAll s.removed s.msg.events).append (hadmission.append hport)) _ hs)

end Dispose

section Close

variable {refusal : Option Error}

/-- `queue_event`. -/
theorem computes_queueEvent (event : EngineMessageEvent) :
    Computes refusal [↑(queueEvent event)] fun msg => msg.queueEvent event := by
  intro s hs
  have hexec : s.exec refusal (queueEvent event) = { s with eventsLocked := true }.proceed
        [if s.msg.state.isClosing then ↑(skipEvent event) else ↑(pushEvent event)] := by
    change (if s.eventsLocked = true then none else _) = _
    rw [hs.1]
    rfl
  simp only [EngineMessageState.queueEvent]
  by_cases hclosing : s.msg.state.isClosing = true
  · simp only [hclosing, if_true] at hexec ⊢
    exact .single hexec (.single rfl (computes_disposeTerminalEvent none event
        { s with eventsLocked := false } ⟨rfl, hs.2⟩))
  · simp only [hclosing] at hexec ⊢
    exact .single hexec ⟨_, .atomic rfl, rfl, rfl, hs.2⟩

/-- A receive buffer is given back before the driver has run. -/
theorem computes_queueEvent_repost :
    let s := (RaceState.start (.new 1 64 [] [] ⟨0, []⟩) []).shared
    ∃ s', Threads.Finishes (exec none) s [↑(queueEvent (.repost ⟨1, []⟩))] s' ∧
      s'.msg.events = [.start, .repost ⟨1, []⟩] ∧ s'.Unlocked := by
  intro s
  obtain ⟨s', hfinishes, hmsg, hs'⟩ := @computes_queueEvent none (.repost ⟨1, []⟩) s ⟨rfl, rfl⟩
  refine ⟨s', hfinishes, ?_, hs'⟩
  rw [hmsg]
  rfl

theorem computes_closePools : Computes refusal closePools fun msg => msg.closePools :=
  fun _ hs => ⟨_, .cons rfl (.cons rfl (.cons rfl (.nil _))), rfl, hs⟩

/-- What follows the transition to FAILED, with the error still locked. -/
theorem ends_failing (error : Error) (closeConnection : Bool) {s : RaceShared}
    (hs : s.eventsLocked = false) : Ends refusal (s.setMsg { s.msg with state := .failed })
      (failing error closeConnection)
      { s.msg.enterFailed error with
        closeRequested := (s.msg.enterFailed error).closeRequested || closeConnection } := by
  have hclose : Computes refusal (provided closeConnection [↑requestClose])
      fun msg => { msg with closeRequested := msg.closeRequested || closeConnection } := by
    intro t ht
    cases closeConnection
    · simp only [Bool.or_false]
      exact .nil ht
    · simp only [Bool.or_true]
      exact ⟨_, .atomic rfl, rfl, ht⟩
  have hrest := computes_closePools.append (computes_takeEvents.cons hclose)
  have hops : failing error closeConnection =
      ↑(storeError error) :: ↑closeCredits :: ↑resetReturns :: (closePools ++
        ↑(takeEvents true) :: provided closeConnection [↑requestClose]) := by
    simp [failing, chain]
  rw [hops]
  refine .cons rfl (.cons rfl (.cons rfl (hrest _ ?_)))
  exact ⟨hs, rfl⟩

/-- `fail`. -/
theorem computes_fail (error : Error) (closeConnection : Bool) :
    Computes refusal [↑(enterFailed error closeConnection)] fun msg =>
      msg.fail error closeConnection := by
  intro s hs
  have hexec : s.exec refusal (enterFailed error closeConnection) =
      if s.msg.state.isTerminal then s.proceed []
      else
        { s with errorLocked := true }.proceed
          [↑(casFailed s.msg.state error closeConnection)] := by
    change (if s.errorLocked = true then none else _) = _
    rw [hs.2]
    rfl
  by_cases hterminal : s.msg.state.isTerminal = true
  · have hfail : s.msg.fail error closeConnection = s.msg := by
      unfold EngineMessageState.fail
      cases hstate : s.msg.state <;> simp_all [TransportState.isTerminal]
    simp only [hterminal, if_true] at hexec
    simp only [hfail]
    exact .single hexec (.nil hs)
  · have hfail : s.msg.fail error closeConnection =
        { s.msg.enterFailed error with
          closeRequested := (s.msg.enterFailed error).closeRequested || closeConnection } := by
      unfold EngineMessageState.fail
      cases hstate : s.msg.state <;> simp_all [TransportState.isTerminal]
    simp only [hterminal] at hexec
    simp only [hfail]
    exact .single hexec (.single (if_pos rfl) (ends_failing error closeConnection hs.1))

/-- `finish_close`. -/
theorem computes_finishClose (result : Except Error Unit) :
    Computes refusal [↑(finishClose result)] fun msg => msg.finishClose result := by
  intro s hs
  cases result with
  | error error => exact .single rfl (computes_fail error false s hs)
  | ok =>
    have hstopping : Computes refusal stopping fun msg =>
        msg.closePools.drainClosing :=
      computes_closePools.append computes_takeEvents
    have hexec : s.exec refusal (finishClose (.ok ())) =
        if s.msg.state.isTerminal then s.proceed stopping
        else s.proceed [↑(casStopped s.msg.state)] := rfl
    by_cases hterminal : s.msg.state.isTerminal = true
    · have hfinish : s.msg.finishClose (.ok ()) = s.msg.closePools.drainClosing := by
        unfold EngineMessageState.finishClose
        cases hstate : s.msg.state with
        | created | ready | closing => simp [hstate, TransportState.isTerminal] at hterminal
        | stopped | failed => simp only [← hstate]
      simp only [hterminal, if_true] at hexec
      simp only [hfinish]
      exact .single hexec (hstopping s hs)
    · have hfinish : s.msg.finishClose (.ok ()) =
          { s.msg with state := .stopped }.closePools.drainClosing := by
        unfold EngineMessageState.finishClose
        cases hstate : s.msg.state <;> simp_all [TransportState.isTerminal]
      simp only [hterminal] at hexec
      simp only [hfinish]
      exact .single hexec (.single (if_pos rfl)
        (hstopping (s.setMsg { s.msg with state := .stopped }) hs))

/-- The close ends before the driver has run, with the start event still queued. -/
theorem computes_finishClose_started :
    let s := (RaceState.start (.new 1 64 [] [] ⟨0, []⟩) []).shared
    ∃ s', Threads.Finishes (exec none) s [↑(finishClose (.ok ()))] s' ∧
      s'.msg.state = .stopped ∧ s'.msg.events = [] ∧ s'.Unlocked := by
  intro s
  obtain ⟨s', hfinishes, hmsg, hs'⟩ := @computes_finishClose none (.ok ()) s ⟨rfl, rfl⟩
  refine ⟨s', hfinishes, ?_, ?_, hs'⟩ <;> rw [hmsg] <;> rfl

end Close

end RdmaIo.Message
