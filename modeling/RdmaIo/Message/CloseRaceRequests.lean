/-
What becomes of a send request in every interleaving of the calls.

A request is in the queue, or in the hands of one call, until `start` takes its
buffer and its credit, and that happens once.  From then on at most one command,
completion or call will complete it.  No operation loses or doubles a credit.
-/
import RdmaIo.Message.CloseRaceSafety

namespace RdmaIo.Message

open EngineMessageState
open List

def EngineMessageEvent.requests : EngineMessageEvent → List Nat
  | start | repost _ => []
  | sendRequest request => [request]

def MessageIoContext.requests : MessageIoContext → List Nat
  | helloSend | receive | controlSend => []
  | send request => [request]

def IoEvent.requests : IoEvent → List Nat
  | completion event => event.context.requests
  | submission _ _ | terminal _ => []

def ProtocolBatch.requests : ProtocolBatch → List Nat
  | recv _ => []
  | send _ _ context => context.requests

theorem ProtocolCommand.requests_context (command : ProtocolCommand) :
    command.context.requests = command.batch.requests := by
  unfold ProtocolCommand.context
  cases command.batch <;> rfl

namespace RaceOp

/-- The request that is not yet started and that the call has in hand. -/
def sends : RaceOp → List Nat
  | drain (.queueEvent event) | drain (.pushEvent event) | drain (.skipEvent event)
  | drain (.disposeTerminalEvent _ event) | process (.processEvent _ event) =>
    event.requests
  | _ => []

/-- The request that is started and that the call will complete, or hand on. -/
def owes : RaceOp → List Nat
  | drain (.completeTerminal request) | drain (.complete request _)
  | process (.postSend request _ _ _) => [request]
  | drain (.disposeIoEvent event) | process (.deliver event) | io (.processIoEvent event) =>
    event.requests
  | io (.processIoCompletion event) => event.context.requests
  | process (.submit batch _) => batch.requests
  | drive (.pollPermit command _) | drive (.pushAdmission command)
  | drive (.enqueueProtocol command) => command.batch.requests
  | _ => []

/-- The request that the call is about to complete. -/
def finishes : RaceOp → List Nat
  | drain (.completeTerminal request) | drain (.complete request _) => [request]
  | _ => []

/-- The credits that the call has in hand. -/
def permits : RaceOp → Nat
  | drain (.dropCredit credit) | process (.postSend _ _ credit _) => credit.toNat
  | process .countSend | drive (.takeDataSend _) => 1
  | process (.addPermits credits) => credits
  | _ => 0

/-- The operation has no part in the requests and the credits. -/
def aloof (op : RaceOp) : Bool :=
  op.sends.isEmpty && op.owes.isEmpty && op.finishes.isEmpty && op.permits == 0

end RaceOp

/-- Whether the request has its buffer, its credit and its output. -/
def EngineSendRequest.holding (q : EngineSendRequest) : Bool × Bool × Bool :=
  (q.mr.isSome, q.credit, q.output.isSome)

open EngineSendRequest (holding)

/-- What the operations see and change of the requests. -/
structure RequestCustody where
  /-- Whether a request still has its buffer and its credit, and has its output. -/
  holdings : List (Bool × Bool × Bool)
  queued : List Nat
  /-- The requests of commands and completions on their way. -/
  outstanding : List Nat
  started : List Nat
  disposed : List Nat
  completed : List Nat
  /-- The credits that are free, in flight, or held by a request. -/
  permits : Nat
  granted : Nat

def RaceShared.requestCustody (s : RaceShared) : RequestCustody where
  holdings := s.msg.requests.map EngineSendRequest.holding
  queued := s.msg.events.flatMap EngineMessageEvent.requests
  outstanding :=
    s.msg.admissionPending.flatMap (·.batch.requests) ++
      s.engine.flatMap (·.batch.requests) ++ s.msg.port.events.flatMap IoEvent.requests
  started := s.started
  disposed := s.disposed
  completed := s.completed
  permits :=
    s.msg.remoteCredits + s.msg.creditsInFlight +
      (s.msg.requests.map EngineSendRequest.holding).countP (·.2.1)
  granted := s.granted

/-- What one operation does to the requests and the credits. -/
inductive RequestStep (v : RequestCustody) : RaceOp → RequestCustody → List RaceOp → Prop
  /-- Requests are handed on, and one that is lost on the way is not completed. -/
  | carry {op : RaceOp} {queued outstanding : List Nat} {permits granted : Nat}
      {more : List RaceOp}
      (hsends : ∀ r, (more.flatMap RaceOp.sends).count r + queued.count r =
        op.sends.count r + v.queued.count r)
      (howes : ∀ r, (more.flatMap RaceOp.owes).count r + outstanding.count r ≤
        op.owes.count r + v.outstanding.count r)
      (hfinishes : op.finishes = [] ∨ more.flatMap RaceOp.finishes = op.finishes)
      (hpermits : permits + (more.map RaceOp.permits).sum + v.granted =
        v.permits + op.permits + granted) :
      RequestStep v op { v with queued, outstanding, permits, granted } more
  /-- A request gives up its buffer and its credit. -/
  | start {op : RaceOp} {request permits : Nat} {disposed : List Nat} {more : List RaceOp}
      (hop : op.sends = [request] ∧ op.owes = [] ∧ op.finishes = [] ∧ op.permits = 0)
      (hmore : more.flatMap RaceOp.sends = [])
      (howes : ∀ r, (more.flatMap RaceOp.owes).count r ≤ [request].count r)
      (hdisposed : ∀ r, disposed.count r ≤
        v.disposed.count r + (more.flatMap RaceOp.finishes).count r)
      (hpermits : permits + (more.map RaceOp.permits).sum = v.permits) :
      RequestStep v op
        { v with
          holdings := v.holdings.modify request fun q => (false, false, q.2.2)
          started := v.started ++ [request]
          disposed
          permits } more
  /-- The request was started before. -/
  | late {op : RaceOp} {request : Nat} {more : List RaceOp} (hop : op.sends = [request])
      (hlate : (v.holdings[request]?).any Prod.fst = false) : RequestStep v op v more
  | create {data : List UInt8} :
      RequestStep v (.drive (.takeDataSend data))
        { v with holdings := v.holdings ++ [(true, true, false)], permits := v.permits + 1 }
        [.drain (.queueEvent (.sendRequest v.holdings.length))]
  | complete {request : Nat} {result : Except Error Unit} :
      RequestStep v (.drain (.complete request result))
        { v with
          holdings := v.holdings.modify request fun q => (q.1, q.2.1, true)
          completed := v.completed ++ [request] } []

namespace RaceOp

theorem aloof_iff {op : RaceOp} : op.aloof = true ↔
    op.sends = [] ∧ op.owes = [] ∧ op.finishes = [] ∧ op.permits = 0 := by
  simp [aloof, and_assoc]

theorem flatMap_of_aloof {ops : List RaceOp} (h : ops.all aloof = true) :
    ops.flatMap sends = [] ∧ ops.flatMap owes = [] ∧ (ops.map permits).sum = 0 := by
  simp only [List.flatMap_eq_nil_iff, List.sum_eq_zero_iff_forall_eq_nat, List.forall_mem_map]
  simp only [all_eq_true, aloof_iff] at h
  exact ⟨fun op hop => (h op hop).1, fun op hop => (h op hop).2.1, fun op hop => (h op hop).2.2.2⟩

end RaceOp

open RaceOp (owes sends quiet aloof finishes permits aloof_iff disposeAll chain deliverAll idle
  takes shuts io)

section

variable {s s' : RaceShared} {msg : EngineMessageState} {ops more : List RaceOp} {op : RaceOp}
  {refusal : Option Error}

/-- A request is handed on from one operation to the next. -/
theorem RequestStep.of_handover (hview : s'.requestCustody = s.requestCustody)
    (hsends : more.flatMap sends = op.sends) (howes : more.flatMap owes = op.owes)
    (hpermits : (more.map permits).sum = op.permits)
    (hfinishes : op.finishes = [] ∨ more.flatMap finishes = op.finishes) :
    RequestStep s.requestCustody op s'.requestCustody more := by
  rw [hview]
  generalize s.requestCustody = v
  refine .carry (fun r => ?_) (fun r => ?_) hfinishes ?_
  · rw [hsends]
  · rw [howes]
  · rw [hpermits]

theorem RequestStep.of_view (hview : s'.requestCustody = s.requestCustody) (hop : op.aloof = true)
    (hmore : more.all aloof = true) : RequestStep s.requestCustody op s'.requestCustody more := by
  obtain ⟨hsends, howes, hfinishes, hpermits⟩ := aloof_iff.mp hop
  obtain ⟨hsends', howes', hpermits'⟩ := RaceOp.flatMap_of_aloof hmore
  exact .of_handover hview (hsends'.trans hsends.symm) (howes'.trans howes.symm)
    (hpermits'.trans hpermits.symm) (.inl hfinishes)

/-- The operation has no part in the queues or the requests. -/
def RaceOp.plain (op : RaceOp) : Bool :=
  op.quiet && op.aloof

theorem RaceOp.all_plain (h : ops.all plain = true) :
    ops.all quiet = true ∧ ops.all aloof = true := by
  simp only [all_eq_true, plain, Bool.and_eq_true] at h ⊢
  exact ⟨fun op hop => (h op hop).1, fun op hop => (h op hop).2⟩

/-- What one operation does to the queues and to the requests. -/
structure RaceStep (s : RaceShared) (op : RaceOp) (s' : RaceShared) (more : List RaceOp) :
    Prop where
  queues : QueueStep s.queues op s'.queues more
  requests : RequestStep s.requestCustody op s'.requestCustody more

theorem RaceStep.of_views (hqueues : s'.queues = s.queues)
    (hview : s'.requestCustody = s.requestCustody) (hop : op.plain = true)
    (hmore : more.all RaceOp.plain = true) : RaceStep s op s' more := by
  obtain ⟨hquiet, haloof⟩ := Bool.and_eq_true_iff.mp hop
  obtain ⟨hquiets, haloofs⟩ := RaceOp.all_plain hmore
  refine ⟨?_, .of_view hview haloof haloofs⟩
  rw [hqueues]
  exact .quiet (Bool.and_eq_true_iff.mp hquiet).1 hquiets

theorem RaceStep.of_proceed (h : s.proceed ops = some (s', more)) (hop : op.plain = true)
    (hmore : ops.all RaceOp.plain = true) : RaceStep s op s' more := by
  obtain ⟨rfl, rfl⟩ := RaceShared.proceed_eq_some h
  exact .of_views rfl rfl hop hmore

theorem RaceStep.of_update (h : s.update msg ops = some (s', more)) (hop : op.plain = true)
    (hqueues : (s.setMsg msg).queues = s.queues)
    (hview : (s.setMsg msg).requestCustody = s.requestCustody)
    (hmore : ops.all RaceOp.plain = true) : RaceStep s op s' more := by
  obtain ⟨rfl, rfl⟩ := RaceShared.update_eq_some h
  exact .of_views hqueues hview hop hmore

theorem RaceStep.of_handover (h : s.proceed ops = some (s', more)) (hidle : op.idle = true)
    (hquiet : ops.all quiet = true) (hsends : ops.flatMap sends = op.sends)
    (howes : ops.flatMap owes = op.owes) (hpermits : (ops.map permits).sum = op.permits)
    (hfinishes : op.finishes = [] ∨ ops.flatMap finishes = op.finishes) : RaceStep s op s' more := by
  obtain ⟨rfl, rfl⟩ := RaceShared.proceed_eq_some h
  exact ⟨.quiet hidle hquiet, .of_handover rfl hsends howes hpermits hfinishes⟩

/-- Credits change hands, and no request has a part in it. -/
theorem RaceStep.of_credits (h : s.update msg ops = some (s', more))
    (hop : op.idle = true ∧ op.sends = [] ∧ op.owes = [] ∧ op.finishes = [])
    (hqueues : (s.setMsg msg).queues = s.queues) (hview : (s.setMsg msg).requestCustody =
      { s.requestCustody with
        permits := msg.remoteCredits + msg.creditsInFlight +
          (s.msg.requests.map holding).countP (·.2.1) })
    (hmore : ops.all quiet = true ∧ ops.flatMap sends = [] ∧ ops.flatMap owes = [])
    (hpermits : msg.remoteCredits + msg.creditsInFlight + (ops.map permits).sum =
      s.msg.remoteCredits + s.msg.creditsInFlight + op.permits) : RaceStep s op s' more := by
  obtain ⟨rfl, rfl⟩ := RaceShared.update_eq_some h
  obtain ⟨hidle, hsends, howes, hfinishes⟩ := hop
  constructor
  · rw [hqueues]
    exact .quiet hidle hmore.1
  · rw [hview]
    refine .carry (fun r => ?_) (fun r => ?_) (.inl hfinishes) ?_
    · rw [hsends, hmore.2.1]
    · rw [howes, hmore.2.2]
    · simp only [RaceShared.requestCustody]
      omega

end

namespace RaceShared

variable {s s' : RaceShared} {more : List RaceOp} {refusal : Option Error}

theorem map_holding_modify (requests : List EngineSendRequest)
    {f : EngineSendRequest → EngineSendRequest} {g : Bool × Bool × Bool → Bool × Bool × Bool}
    (hf : ∀ q, (f q).holding = g q.holding) (request : Nat) :
    (requests.modify request f).map holding = (requests.map holding).modify request g := by
  induction requests generalizing request with
  | nil => simp
  | cons _ _ ih =>
    cases request with
    | zero => simp [hf]
    | succ => simp [ih]

theorem countP_modify {holdings : List (Bool × Bool × Bool)} {request : Nat}
    {q : Bool × Bool × Bool} (g : Bool × Bool × Bool → Bool × Bool × Bool)
    (h : holdings[request]? = some q) : (holdings.modify request g).countP (·.2.1) + q.2.1.toNat =
      holdings.countP (·.2.1) + (g q).2.1.toNat := by
  induction holdings generalizing request with
  | nil => cases h
  | cons head _ ih =>
    cases request with
    | zero =>
      obtain rfl := Option.some.inj h
      simp only [modify_zero_cons, countP_cons]
      cases head.2.1 <;> cases (g head).2.1 <;> simp +arith
    | succ =>
      have hrest := ih h
      simp only [modify_succ_cons, countP_cons]
      omega

theorem requestCustody_updateRequest (s : RaceShared) (request : Nat)
    {f : EngineSendRequest → EngineSendRequest} (hf : ∀ q, (f q).holding = q.holding) :
    (s.setMsg (s.msg.updateRequest request f)).requestCustody = s.requestCustody := by
  simp only [requestCustody, setMsg, updateRequest, map_holding_modify (g := id) _ hf, modify_id]

/-- `start` takes the buffer and the credit of a request that still has its buffer. -/
theorem start_requests {request : Nat} {action : EngineSendRequestAction}
    (h : s.start request = (s', action)) :
    (action = .alreadyHandled ∧ s'.requestCustody = s.requestCustody ∧
        (s.requestCustody.holdings[request]?).any Prod.fst = false) ∨
      ∃ mr credit frameLen permits,
        (action = .post mr credit frameLen ∨ action = .cancelled mr credit) ∧ permits +
        credit.toNat = s.requestCustody.permits ∧ s'.requestCustody =
          { s.requestCustody with
            holdings := s.requestCustody.holdings.modify request fun q => (false, false, q.2.2)
            started := s.requestCustody.started ++ [request]
            permits } := by
  have hflag : s.requestCustody.holdings[request]? = (s.msg.requests[request]?).map holding := by
    simp only [requestCustody, List.getElem?_map]
  unfold start startRequest at h
  cases hrequest : s.msg.requests[request]? with
  | none =>
    rw [hrequest] at h hflag
    obtain ⟨rfl, rfl⟩ := Prod.mk.inj h
    exact .inl ⟨rfl, rfl, by rw [hflag]; rfl⟩
  | some q =>
    rw [hrequest, Option.map_some] at hflag
    rw [hrequest] at h
    cases hmr : q.mr with
    | none =>
      simp only [hmr] at h
      obtain ⟨rfl, rfl⟩ := Prod.mk.inj h
      exact .inl ⟨rfl, rfl, by rw [hflag]; simp [holding, hmr]⟩
    | some mr =>
      have hcount := countP_modify (fun q => (false, false, q.2.2)) hflag
      have hmap := map_holding_modify s.msg.requests
        (f := fun q => { q with mr := none, credit := false })
        (g := fun q => (false, false, q.2.2)) (fun _ => rfl) request
      simp only [hmr] at h
      refine .inr ⟨mr, q.credit, q.frameLen, s.msg.remoteCredits + s.msg.creditsInFlight +
        (s.requestCustody.holdings.modify request fun q => (false, false, q.2.2)).countP
          (·.2.1), ?_⟩
      have hpermits : _ + q.credit.toNat = s.requestCustody.permits :=
        (add_assoc _ _ _).trans (congrArg _ hcount)
      by_cases hcancelled : q.cancelled = true
      · simp only [hcancelled, if_true] at h
        obtain ⟨rfl, rfl⟩ := Prod.mk.inj h
        refine ⟨.inr rfl, hpermits, ?_⟩
        simp only [requestCustody, setMsg, updateRequest, hmap]
      · simp only [hcancelled] at h
        obtain ⟨rfl, rfl⟩ := Prod.mk.inj h
        refine ⟨.inl rfl, hpermits, ?_⟩
        simp only [requestCustody, setMsg, updateRequest, hmap]

theorem requestCustody_putDataSend (s : RaceShared) (mr : Option Mr) :
    (s.setMsg (s.msg.putDataSend mr)).requestCustody = s.requestCustody := by
  cases mr <;> rfl

theorem sends_disposeAll (first : Nat) (events : List EngineMessageEvent) :
    (disposeAll first events).flatMap sends =
        events.flatMap EngineMessageEvent.requests ∧
      (disposeAll first events).flatMap owes = [] ∧
      ((disposeAll first events).map permits).sum = 0 := by
  induction events generalizing first with
  | nil => exact ⟨rfl, rfl, rfl⟩
  | cons _ _ ih =>
    obtain ⟨hsends, howes, hpermits⟩ := ih (first + 1)
    simp only [disposeAll, flatMap_cons, map_cons, sum_cons, hsends, howes, hpermits]
    exact ⟨rfl, rfl, rfl⟩

/-- Events of the port, each in the hands of an operation. -/
theorem flatMap_map_requests {f : IoEvent → RaceOp}
    (hf : ∀ e, (f e).sends = [] ∧ (f e).owes = e.requests ∧ (f e).permits = 0)
    (events : List IoEvent) : (events.map f).flatMap sends = [] ∧
      (events.map f).flatMap owes = events.flatMap IoEvent.requests ∧
      ((events.map f).map permits).sum = 0 := by
  induction events with
  | nil => exact ⟨rfl, rfl, rfl⟩
  | cons _ _ ih =>
    obtain ⟨hsends, howes, hpermits⟩ := ih
    simp only [map_cons, flatMap_cons, sum_cons, hsends, howes, hpermits, hf]
    exact ⟨rfl, trivial, trivial⟩

open DrainOp in
theorem execDrain_raceStep {op : DrainOp} (h : s.execDrain op = some (s', more)) :
    RaceStep s op s' more := by
  cases op with
  | queueEvent =>
    simp only [execDrain] at h
    split at h
    · cases h
    next hlock =>
      have hlock : s.queues.locked = false := eq_false_of_ne_true hlock
      obtain ⟨rfl, rfl⟩ := proceed_eq_some h
      by_cases hclosing : s.msg.state.isClosing = true
      · rw [if_pos hclosing]
        refine ⟨.refuse hlock, .of_handover rfl ?_ rfl rfl (.inl rfl)⟩
        exact append_nil _
      · rw [if_neg hclosing]
        refine ⟨.accept hlock (eq_false_of_ne_true hclosing),
          .of_handover rfl ?_ rfl rfl (.inl rfl)⟩
        exact append_nil _
  | pushEvent =>
    obtain ⟨rfl, rfl⟩ := update_eq_some h
    refine ⟨.push, .carry (fun r => ?_) (fun _ => le_rfl) (.inl rfl) rfl⟩
    simp only [requestCustody, setMsg, flatMap_append, flatMap_singleton,
      count_append, flatMap_nil, count_nil, sends]
    omega
  | skipEvent =>
    obtain ⟨rfl, rfl⟩ := proceed_eq_some h
    refine ⟨.skip rfl, .of_handover rfl ?_ rfl rfl (.inl rfl)⟩
    exact append_nil _
  | disposeTerminalEvent ticket event =>
    have hfate (hmore : more.all quiet = true)
        (hqueues : s'.queues = (s.recordFate ticket .disposed).queues) :
        QueueStep s.queues (disposeTerminalEvent ticket event) s'.queues more := by
      have hrecord : (s.recordFate ticket .disposed).queues =
          { s.queues with
            fates := s.queues.fates ++ ticket.toList.map (·, EventFate.disposed) } := by
        cases ticket <;> rfl
      rw [hqueues, hrecord]
      exact .fate .disposed ⟨rfl, rfl, rfl⟩ hmore
    simp only [execDrain] at h
    cases event with
    | start | repost _ =>
      obtain ⟨rfl, rfl⟩ := proceed_eq_some h
      exact ⟨hfate rfl rfl, .of_view rfl rfl rfl⟩
    | sendRequest request =>
      rcases hstart : (s.recordFate ticket .disposed).start request with ⟨t, action⟩
      have hqueues := start_queues hstart
      simp only [hstart] at h
      rcases start_requests hstart with
        ⟨rfl, hview, hlate⟩ | ⟨mr, credit, frameLen, permits, haction, hpermits, hview⟩
      · obtain ⟨rfl, rfl⟩ := proceed_eq_some h
        refine ⟨hfate rfl hqueues, ?_⟩
        rw [hview]
        exact .late rfl hlate
      · have htaken : RequestStep s.requestCustody
            (disposeTerminalEvent ticket (.sendRequest request))
            ({ t with disposed := t.disposed ++ [request] } : RaceShared).requestCustody
            [dropCredit credit, completeTerminal request] := by
          change RequestStep _ _ { t.requestCustody with
            disposed := t.requestCustody.disposed ++ [request] } _
          rw [hview]
          refine .start ⟨rfl, rfl, rfl, rfl⟩ rfl (fun _ => le_rfl) (fun r => ?_) hpermits
          exact (count_append ..).le
        rcases haction with rfl | rfl
        all_goals
          obtain ⟨rfl, rfl⟩ := proceed_eq_some h
          exact ⟨hfate rfl hqueues, htaken⟩
  | disposeIoEvent event =>
    simp only [execDrain] at h
    cases event with
    | submission command disposition => exact .of_update h rfl rfl rfl rfl
    | terminal event => exact .of_proceed h rfl rfl
    | completion c =>
      cases hcontext : c.context with
      | send request =>
        simp only [hcontext] at h
        refine .of_handover h rfl ?_ ?_ ?_ ?_ (.inl rfl)
        · cases c.provenUnaccepted <;> rfl
        · cases c.provenUnaccepted <;> rfl
        · change _ = c.context.requests
          rw [hcontext]
          cases c.provenUnaccepted <;> rfl
        · cases c.provenUnaccepted <;> rfl
      | helloSend | receive | controlSend =>
        simp only [hcontext] at h
        refine .of_proceed h ?_ rfl
        change (quiet _ && aloof _) = true
        simp [quiet, idle, RaceOp.holdsEvents, takes, shuts, RaceOp.tickets, RaceOp.expects, aloof,
          sends, owes, finishes, permits, IoEvent.requests, hcontext, MessageIoContext.requests]
  | dropCredit credit =>
    cases credit with
    | false => exact .of_update h rfl rfl rfl rfl
    | true =>
      exact .of_credits h ⟨rfl, rfl, rfl, rfl⟩ rfl rfl ⟨rfl, rfl, rfl⟩
        (add_right_comm s.msg.remoteCredits 1 s.msg.creditsInFlight)
  | completeTerminal =>
    simp only [execDrain] at h
    split at h
    · cases h
    · exact .of_handover h rfl rfl rfl rfl rfl (.inr rfl)
  | complete request result =>
    obtain ⟨rfl, rfl⟩ := update_eq_some h
    refine ⟨.quiet rfl rfl, ?_⟩
    have hmap := map_holding_modify s.msg.requests
      (f := fun q => { q with output := q.output.or (some result) })
      (g := fun q => (q.1, q.2.1, true)) (fun q => by cases h : q.output <;> simp [holding, h])
      request
    have hcount : ((s.msg.requests.map holding).modify request fun q =>
        (q.1, q.2.1, true)).countP (·.2.1) = (s.msg.requests.map holding).countP (·.2.1) := by
      cases hrequest : (s.msg.requests.map holding)[request]? with
      | none => rw [modify_eq_set_getElem?, hrequest]; rfl
      | some q => exact add_right_cancel (countP_modify (fun q => (q.1, q.2.1, true)) hrequest)
    have hview : ({ s with completed := s.completed ++ [request] }.setMsg
        (s.msg.completeRequest request result)).requestCustody =
        { s.requestCustody with
          holdings := s.requestCustody.holdings.modify request fun q => (q.1, q.2.1, true)
          completed := s.requestCustody.completed ++ [request] } := by
      simp only [requestCustody, setMsg, completeRequest, updateRequest, hmap, hcount]
    rw [hview]
    exact .complete
  | rollback request =>
    simp only [execDrain] at h
    split at h
    · exact .of_proceed h rfl rfl
    split at h
    · exact .of_update h rfl rfl (s.requestCustody_updateRequest request fun _ => rfl) rfl
    · exact .of_proceed h rfl rfl
  | uncountSend =>
    simp only [execDrain] at h
    split at h
    · exact .of_proceed h rfl rfl
    · refine .of_credits h ⟨rfl, rfl, rfl, rfl⟩ rfl rfl ⟨rfl, rfl, rfl⟩ ?_
      change s.msg.remoteCredits + (s.msg.creditsInFlight - 1) + 1 = _ + _ + 0
      omega
  | takeEvents =>
    simp only [execDrain] at h
    split at h
    · cases h
    next hlock =>
      obtain ⟨rfl, rfl⟩ := update_eq_some h
      obtain ⟨hsends, howes, hpermits⟩ := sends_disposeAll s.removed s.msg.events
      refine ⟨.take (eq_false_of_ne_true hlock), .carry (fun r => ?_) (fun r => ?_) (.inl rfl) ?_⟩
      · simp only [chain, flatten_cons, flatMap_append, hsends]
        change (_ ++ []).count r + 0 = 0 + (s.msg.events.flatMap _).count r
        rw [append_nil, add_comm]
      · simp only [chain, flatten_cons, flatMap_append, howes]
        exact le_rfl
      · simp only [chain, flatten_cons, map_append, sum_append, hpermits]
        rfl
  | closeAdmission => exact .of_update h rfl rfl rfl rfl
  | discardAdmission =>
    obtain ⟨rfl, rfl⟩ := update_eq_some h
    refine ⟨.quiet rfl rfl, .carry (fun _ => rfl) (fun r => ?_) (.inl rfl) rfl⟩
    simp only [requestCustody, setMsg, flatMap_nil, count_append, count_nil]
    omega
  | drainPort closeIo =>
    have hport {msg : EngineMessageState} {f : IoEvent → RaceOp}
        (hmsg : (s.setMsg msg).requestCustody =
          { s.requestCustody with
            outstanding :=
              s.msg.admissionPending.flatMap (·.batch.requests) ++
                s.engine.flatMap (·.batch.requests) })
        (hf : ∀ e, (f e).sends = [] ∧ (f e).owes = e.requests ∧ (f e).permits = 0) :
        RequestStep s.requestCustody (drainPort closeIo) (s.setMsg msg).requestCustody
          (s.msg.port.events.map f) := by
      obtain ⟨hnone, hevents, hpermits⟩ := flatMap_map_requests hf s.msg.port.events
      rw [hmsg]
      refine .carry (fun r => ?_) (fun r => ?_) (.inl rfl) ?_
      · rw [hnone]
        rfl
      · rw [hevents]
        simp only [requestCustody, count_append, owes, count_nil]
        omega
      · rw [hpermits]
        rfl
    have hquiet {f : IoEvent → RaceOp} (hf : ∀ e, (f e).quiet = true) :
        (s.msg.port.events.map f).all quiet = true := by
      rw [all_map, all_eq_true]
      exact fun e _ => hf e
    simp only [execDrain] at h
    split at h
    next hclose =>
      subst hclose
      obtain ⟨rfl, rfl⟩ := update_eq_some h
      refine ⟨.shut (hquiet fun _ => rfl), hport ?_ fun _ => ⟨rfl, rfl, rfl⟩⟩
      simp [requestCustody, setMsg]
    next hclose =>
      obtain rfl := eq_false_of_ne_true hclose
      obtain ⟨rfl, rfl⟩ := update_eq_some h
      refine ⟨.drain (hquiet fun _ => rfl), hport ?_ fun _ => ⟨rfl, rfl, rfl⟩⟩
      simp [requestCustody, setMsg]

open CloseOp in
theorem execClose_raceStep {op : CloseOp} (h : s.execClose op = some (s', more)) :
    RaceStep s op s' more := by
  have hexpects (hlive : ¬s.msg.state.isTerminal = true) : (!s.msg.state.isTerminal) = true := by
    simpa using hlive
  cases op with
  | enterFailed =>
    simp only [execClose] at h
    split at h
    · cases h
    split at h
    · exact .of_proceed h rfl rfl
    next hlive =>
      obtain ⟨rfl, rfl⟩ := proceed_eq_some h
      exact ⟨.attempt rfl rfl rfl (hexpects hlive), .of_view rfl rfl rfl⟩
  | casFailed _ _ closeConnection =>
    simp only [execClose] at h
    split at h
    next hstate =>
      obtain ⟨rfl, rfl⟩ := update_eq_some h
      subst hstate
      exact ⟨.failed, .of_view rfl rfl (by cases closeConnection <;> rfl)⟩
    split at h
    · obtain ⟨rfl, rfl⟩ := proceed_eq_some h
      exact ⟨.quiet rfl rfl, .of_view rfl rfl rfl⟩
    next hlive =>
      obtain ⟨rfl, rfl⟩ := proceed_eq_some h
      exact ⟨.attempt rfl rfl rfl (hexpects hlive), .of_view rfl rfl rfl⟩
  | closeCreated =>
    simp only [execClose] at h
    split at h
    next hstate =>
      obtain ⟨rfl, rfl⟩ := update_eq_some h
      exact ⟨.closeCreated hstate, .of_view rfl rfl rfl⟩
    · obtain ⟨rfl, rfl⟩ := proceed_eq_some h
      exact ⟨.attempt rfl rfl rfl rfl, .of_view rfl rfl rfl⟩
  | closeReady created =>
    simp only [execClose] at h
    split at h
    next hstate =>
      obtain ⟨rfl, rfl⟩ := update_eq_some h
      exact ⟨.closeReady hstate, .of_view rfl rfl rfl⟩
    · obtain ⟨rfl, rfl⟩ := proceed_eq_some h
      exact ⟨.closeLate, .of_view rfl rfl (by cases created <;> rfl)⟩
  | finishClose result =>
    cases result with
    | error => exact .of_proceed h rfl rfl
    | ok =>
      simp only [execClose] at h
      split at h
      · obtain ⟨rfl, rfl⟩ := proceed_eq_some h
        exact ⟨.stop rfl, .of_view rfl rfl rfl⟩
      next hlive =>
        obtain ⟨rfl, rfl⟩ := proceed_eq_some h
        exact ⟨.attempt rfl rfl rfl (hexpects hlive), .of_view rfl rfl rfl⟩
  | casStopped =>
    simp only [execClose] at h
    split at h
    next hstate =>
      obtain ⟨rfl, rfl⟩ := update_eq_some h
      subst hstate
      exact ⟨.stopped, .of_view rfl rfl rfl⟩
    split at h
    · obtain ⟨rfl, rfl⟩ := proceed_eq_some h
      exact ⟨.stop rfl, .of_view rfl rfl rfl⟩
    next hlive =>
      obtain ⟨rfl, rfl⟩ := proceed_eq_some h
      exact ⟨.attempt rfl rfl rfl (hexpects hlive), .of_view rfl rfl rfl⟩
  | storeError =>
    obtain ⟨rfl, rfl⟩ := update_eq_some h
    exact .of_views rfl rfl rfl rfl
  | closeCredits | resetReturns | closeDataSends | closeControlSends | dropHelloSend
  | requestClose | markLocalClose => exact .of_update h rfl rfl rfl rfl

theorem all_plain_failPotential (disposition : IoSubmissionDisposition) :
    (RaceOp.failPotential disposition).all RaceOp.plain = true := by
  unfold RaceOp.failPotential
  split <;> rfl

/-- An event that is delivered is in the port, or lost if the port is closed. -/
theorem outstanding_send (s : RaceShared) (events : List IoEvent) (r : Nat) :
    (s.setMsg { s.msg with port := s.msg.port.send events }).requestCustody.outstanding.count r ≤
      (events.flatMap IoEvent.requests).count r + s.requestCustody.outstanding.count r := by
  simp only [requestCustody, setMsg, count_append, IoEventPort.send]
  split
  · rw [flatMap_append, count_append]
    omega
  · omega

open ProcessOp in
theorem execProcess_raceStep {op : ProcessOp}
    (h : s.execProcess refusal op = some (s', more)) : RaceStep s op s' more := by
  cases op with
  | processEvent ticket event =>
    have hfate (hmore : more.all quiet = true)
        (hqueues : s'.queues = (s.recordFate (some ticket) .processed).queues) :
        QueueStep s.queues (processEvent ticket event) s'.queues more := by
      rw [hqueues]
      exact .fate .processed ⟨rfl, rfl, rfl⟩ hmore
    simp only [execProcess] at h
    cases event with
    | start | repost _ =>
      obtain ⟨rfl, rfl⟩ := proceed_eq_some h
      exact ⟨hfate (by split <;> rfl) rfl, .of_view rfl rfl (by split <;> rfl)⟩
    | sendRequest request =>
      rcases hstart : (s.recordFate (some ticket) .processed).start request with ⟨t, action⟩
      have hqueues := start_queues hstart
      simp only [hstart] at h
      rcases start_requests hstart with
        ⟨rfl, hview, hlate⟩ | ⟨mr, credit, frameLen, permits, haction, hpermits, hview⟩
      · obtain ⟨rfl, rfl⟩ := proceed_eq_some h
        refine ⟨hfate rfl hqueues, ?_⟩
        rw [hview]
        exact .late rfl hlate
      · rcases haction with rfl | rfl
        all_goals
          obtain ⟨rfl, rfl⟩ := proceed_eq_some h
          refine ⟨hfate rfl hqueues, ?_⟩
          rw [hview]
        · exact .start ⟨rfl, rfl, rfl, rfl⟩ rfl (fun _ => le_rfl) (fun _ => le_rfl) hpermits
        · exact .start ⟨rfl, rfl, rfl, rfl⟩ rfl (fun _ => Nat.zero_le _) (fun _ => le_rfl) hpermits
  | markHelloPosted | takeHelloSend =>
    simp only [execProcess] at h
    split at h
    · exact .of_proceed h rfl rfl
    · exact .of_update h rfl rfl rfl rfl
  | postSend request mr credit frameLen =>
    simp only [execProcess] at h
    split at h
    · apply RaceStep.of_handover h rfl ?_ ?_ ?_ ?_ (.inl rfl)
      all_goals cases credit <;> rfl
    · exact .of_handover h rfl rfl rfl rfl rfl (.inl rfl)
  | submit batch transition =>
    have hreject {error : Error} (h : s.update { s.msg with nextCommand := s.msg.nextCommand + 1 }
        [deliver (ProtocolCommand.unaccepted ⟨s.msg.nextCommand, batch⟩ error),
          applyDisposition transition (.fullyUnaccepted 1 error)] = some (s', more)) :
        RaceStep s (submit batch transition) s' more := by
      obtain ⟨rfl, rfl⟩ := update_eq_some h
      refine ⟨.quiet rfl rfl, .of_handover rfl rfl ?_ rfl (.inl rfl)⟩
      cases batch <;> exact append_nil _
    simp only [execProcess] at h
    split at h
    · split at h
      · exact hreject h
      · obtain ⟨rfl, rfl⟩ := update_eq_some h
        refine ⟨.quiet rfl rfl, .carry (fun _ => rfl) (fun r => ?_) (.inl rfl) rfl⟩
        simp only [requestCustody, setMsg, flatMap_append, flatMap_singleton, count_append, owes]
        change 0 + _ ≤ _
        omega
    · exact hreject h
  | deliver event =>
    obtain ⟨rfl, rfl⟩ := update_eq_some h
    refine ⟨.deliver, .carry (fun _ => rfl) (fun r => ?_) (.inl rfl) rfl⟩
    have hsend := s.outstanding_send [event] r
    rw [flatMap_singleton] at hsend
    rw [flatMap_nil, count_nil, zero_add]
    exact hsend
  | applyDisposition transition disposition =>
    have hfail := all_plain_failPotential disposition
    cases transition with
    | receive | send | helloSend =>
      refine .of_proceed h rfl ?_
      split
      · rfl
      · exact hfail
    | helloReceiveRepost peerCapacity =>
      simp only [execProcess] at h
      split at h
      · obtain ⟨rfl, rfl⟩ := proceed_eq_some h
        refine ⟨.quiet rfl rfl, .carry (fun _ => rfl) (fun _ => le_rfl) (.inl rfl) ?_⟩
        change _ + (0 + (peerCapacity + 0)) + _ = _ + 0 + (_ + peerCapacity)
        simp only [requestCustody]
        omega
      · exact .of_proceed h rfl hfail
    | controlSend =>
      refine .of_proceed h rfl ?_
      split
      · rfl
      split
      · exact hfail
      split <;> rfl
  | tryMarkReady => exact .of_proceed h rfl (by split <;> rfl)
  | casReady =>
    simp only [execProcess] at h
    split at h
    next hstate =>
      obtain ⟨rfl, rfl⟩ := update_eq_some h
      exact ⟨.ready hstate, .of_view rfl rfl rfl⟩
    · exact .of_proceed h rfl rfl
  | commitSend request =>
    exact .of_update h rfl rfl (s.requestCustody_updateRequest request fun _ => rfl) rfl
  | countSend => exact .of_credits h ⟨rfl, rfl, rfl, rfl⟩ rfl rfl ⟨rfl, rfl, rfl⟩ rfl
  | addPermits credits =>
    exact .of_credits h ⟨rfl, rfl, rfl, rfl⟩ rfl rfl ⟨rfl, rfl, rfl⟩
      (add_right_comm s.msg.remoteCredits credits s.msg.creditsInFlight)
  | pushTransition | addReturns | storeCapacity | markHelloReceived =>
    exact .of_update h rfl rfl rfl rfl

open IoOp in
theorem execIo_raceStep {op : IoOp} (h : s.execIo op = some (s', more)) :
    RaceStep s op s' more := by
  cases op with
  | processIoEvent event =>
    simp only [execIo] at h
    cases event with
    | submission command disposition =>
      simp only at h
      split at h
      · exact .of_proceed h rfl rfl
      · exact .of_update h rfl rfl rfl rfl
    | terminal event => cases event <;> exact .of_proceed h rfl rfl
    | completion c =>
      refine .of_handover h rfl ?_ ?_ ?_ ?_ (.inl rfl)
      · split <;> rfl
      · split <;> rfl
      · split <;> exact append_nil _
      · split <;> rfl
  | processIoCompletion c =>
    have hplain (hnone : c.context.requests = []) : (io (processIoCompletion c)).plain = true := by
      change (true && aloof _) = true
      simp [aloof, sends, owes, finishes, permits, hnone]
    simp only [execIo] at h
    cases hcontext : c.context with
    | helloSend =>
      simp only [hcontext] at h
      split at h
      · exact .of_proceed h (hplain (by rw [hcontext]; rfl)) (by split <;> rfl)
      · exact .of_proceed h (hplain (by rw [hcontext]; rfl)) rfl
    | receive =>
      simp only [hcontext] at h
      exact .of_proceed h (hplain (by rw [hcontext]; rfl)) rfl
    | send request =>
      have howed : (io (processIoCompletion c)).owes = [request] := by
        change c.context.requests = _
        rw [hcontext]
        rfl
      simp only [hcontext] at h
      split at h
      · apply RaceStep.of_handover h rfl ?_ ?_ (.trans ?_ howed.symm) ?_ (.inl rfl)
        all_goals cases c.provenUnaccepted <;> rfl
      split at h
      · apply RaceStep.of_handover h rfl ?_ ?_ (.trans ?_ howed.symm) ?_ (.inl rfl)
        all_goals cases c.provenUnaccepted <;> rfl
      next error _ =>
        generalize decide (normalizeCompletionError error ≠ .capacityExhausted) = fails at h
        apply RaceStep.of_handover h rfl ?_ ?_ (.trans ?_ howed.symm) ?_ (.inl rfl)
        all_goals cases c.provenUnaccepted <;> cases fails <;> rfl
    | controlSend =>
      simp only [hcontext] at h
      have hop := hplain (by rw [hcontext]; rfl)
      split at h
      · exact .of_proceed h hop rfl
      · split at h <;> exact .of_proceed h hop rfl
  | processReceive =>
    simp only [execIo] at h
    repeat' split at h
    all_goals exact .of_proceed h rfl rfl
  | acceptHello mr peerCapacity | failReady error =>
    exact .of_proceed h rfl (by split <;> rfl)
  | checkCredits =>
    simp only [execIo] at h
    split at h <;> exact .of_proceed h rfl rfl
  | returnCredits credits mr =>
    simp only [execIo] at h
    split at h
    · exact .of_proceed h rfl rfl
    · refine .of_credits h ⟨rfl, rfl, rfl, rfl⟩ rfl rfl ⟨rfl, rfl, rfl⟩ ?_
      change s.msg.remoteCredits + (s.msg.creditsInFlight - credits) + credits = _ + _ + 0
      omega
  | putDataSend mr =>
    exact .of_update h rfl (queues_of_withoutSends (by simp)) (s.requestCustody_putDataSend mr) rfl
  | markHelloSent | putControlSend | deliverMessage => exact .of_update h rfl rfl rfl rfl

open DriveOp in
theorem execDrive_raceStep {op : DriveOp} (h : s.execDrive op = some (s', more)) :
    RaceStep s op s' more := by
  cases op with
  | popEvent =>
    simp only [execDrive] at h
    split at h
    · cases h
    next hlock =>
      split at h
      · exact .of_proceed h rfl rfl
      next hevents =>
        obtain ⟨rfl, rfl⟩ := update_eq_some h
        refine ⟨.pop (eq_false_of_ne_true hlock) hevents,
          .carry (fun r => ?_) (fun _ => le_rfl) (.inl rfl) rfl⟩
        simp only [requestCustody, setMsg, hevents, flatMap_cons, flatMap_nil,
          append_nil, count_append, sends, count_nil]
        omega
  | popIo =>
    simp only [execDrive] at h
    split at h
    · exact .of_proceed h rfl rfl
    next hevents =>
      obtain ⟨rfl, rfl⟩ := update_eq_some h
      refine ⟨.popIo hevents, .carry (fun _ => rfl) (fun r => ?_) (.inl rfl) rfl⟩
      simp only [requestCustody, setMsg, hevents, flatMap_cons, flatMap_nil,
        append_nil, count_append, owes, count_nil]
      omega
  | pollAdmission =>
    simp only [execDrive] at h
    split at h
    · exact .of_proceed h rfl rfl
    next command rest hpending =>
      obtain ⟨rfl, rfl⟩ := update_eq_some h
      refine ⟨.quiet rfl rfl, .carry (fun _ => rfl) (fun r => ?_) (.inl rfl) rfl⟩
      simp only [requestCustody, setMsg, hpending, flatMap_cons, flatMap_nil,
        append_nil, count_append, owes, count_nil]
      omega
  | pollPermit command permit =>
    have hdeliver {events : List IoEvent} (hquiet : (deliverAll events).all quiet = true)
        (hevents : events.flatMap IoEvent.requests = command.context.requests)
        (h : s.proceed (deliverAll events) = some (s', more)) :
        RaceStep s (pollPermit command permit) s' more := by
      obtain ⟨hsends, howes, hpermits⟩ := flatMap_map_requests
        (f := fun event => ProcessOp.deliver event) (fun _ => ⟨rfl, rfl, rfl⟩) events
      refine .of_handover h rfl hquiet hsends ?_ hpermits (.inl rfl)
      exact howes.trans (hevents.trans command.requests_context)
    simp only [execDrive] at h
    split at h
    · obtain ⟨rfl, rfl⟩ := proceed_eq_some h
      refine ⟨.quiet rfl rfl, .carry (fun _ => rfl) (fun r => ?_) (.inl rfl) rfl⟩
      exact Nat.add_le_add_right (Nat.zero_le _) _
    split at h
    · exact hdeliver rfl (append_nil _) h
    split at h
    · exact .of_handover h rfl rfl rfl (append_nil _) rfl (.inl rfl)
    · exact hdeliver rfl (append_nil _) h
    · exact hdeliver rfl (append_nil _) h
    · exact .of_handover h rfl rfl rfl (append_nil _) rfl (.inl rfl)
  | pushAdmission =>
    obtain ⟨rfl, rfl⟩ := update_eq_some h
    refine ⟨.quiet rfl rfl, .carry (fun _ => rfl) (fun r => ?_) (.inl rfl) rfl⟩
    simp only [requestCustody, setMsg, flatMap_cons, flatMap_nil, count_append, owes, count_nil]
    omega
  | enqueueProtocol =>
    obtain ⟨rfl, rfl⟩ := proceed_eq_some h
    refine ⟨.quiet rfl rfl, .carry (fun _ => rfl) (fun r => ?_) (.inl rfl) rfl⟩
    simp only [requestCustody, flatMap_append, flatMap_singleton, flatMap_nil,
      count_append, owes, count_nil]
    omega
  | flushOneCredit | flushReady | deadlineExpired =>
    exact .of_proceed h rfl (by split <;> rfl)
  | takeControlSend | claimReturns _ =>
    simp only [execDrive] at h
    split at h
    · exact .of_proceed h rfl rfl
    · exact .of_update h rfl rfl rfl rfl
  | acquireCredit =>
    simp only [execDrive] at h
    split at h
    · exact .of_proceed h rfl rfl
    split at h
    next hfree =>
      refine .of_credits h ⟨rfl, rfl, rfl, rfl⟩ rfl rfl ⟨rfl, rfl, rfl⟩ ?_
      change s.msg.remoteCredits - 1 + s.msg.creditsInFlight + 1 = _ + _ + 0
      omega
    · cases h
  | takeDataSend =>
    simp only [execDrive] at h
    split at h
    · exact .of_handover h rfl rfl rfl rfl rfl (.inl rfl)
    split at h
    · cases h
    next entries _ =>
      obtain ⟨rfl, rfl⟩ := update_eq_some h
      have hview (request : EngineSendRequest) (hnew : request.holding = (true, true, false)) :
          (s.setMsg { s.msg with
            dataSends := { s.msg.dataSends with entries }
            requests := s.msg.requests ++ [request] }).requestCustody =
          { s.requestCustody with
            holdings := s.requestCustody.holdings ++ [(true, true, false)]
            permits := s.requestCustody.permits + 1 } := by
        simp [requestCustody, setMsg, hnew, add_assoc]
      have hlength : s.msg.requests.length = s.requestCustody.holdings.length :=
        (length_map _).symm
      refine ⟨.quiet rfl rfl, ?_⟩
      rw [hview _ rfl, hlength]
      exact .create

theorem exec_raceStep {op : RaceOp} (h : s.exec refusal op = some (s', more)) :
    RaceStep s op s' more := by
  cases op with
  | drain => exact execDrain_raceStep h
  | close => exact execClose_raceStep h
  | process => exact execProcess_raceStep h
  | io => exact execIo_raceStep h
  | drive => exact execDrive_raceStep h

end RaceShared

/-- What a request has: its buffer and its credit until it is started, and its output
once it is completed. -/
def RequestCustody.expected (v : RequestCustody) (r : Nat) : Bool × Bool × Bool :=
  (v.started.count r == 0, v.started.count r == 0, v.completed.count r != 0)

/-- Each request is queued or in hand until it is started, which happens once, and
from then on at most one call, command or completion will complete it; the credits
that were granted are free, in flight, with a request or in the hands of a call. -/
structure RequestCustody.Sound (v : RequestCustody) (ops : List RaceOp) : Prop where
  once : ∀ r, (ops.flatMap RaceOp.sends).count r + v.queued.count r + v.started.count r =
    if r < v.holdings.length then 1 else 0
  held : ∀ r q, v.holdings[r]? = some q → q = v.expected r
  owes : ∀ r, (ops.flatMap RaceOp.owes).count r + v.outstanding.count r +
    v.completed.count r ≤ v.started.count r
  finishes : ∀ r, v.disposed.count r ≤ (ops.flatMap RaceOp.finishes).count r + v.completed.count r
  permits : v.permits + (ops.map RaceOp.permits).sum = v.granted

section Sound

variable {v v' : RequestCustody} {op : RaceOp} {more before after : List RaceOp}

/-- A request in hand still has its buffer. -/
theorem RequestCustody.Sound.held_of_sends (h : v.Sound (before ++ op :: after)) {r : Nat}
    (hop : op.sends = [r]) : (v.holdings[r]?).any Prod.fst = true := by
  have honce := h.once r
  simp only [flatMap_append, flatMap_cons, count_append, hop, count_singleton_self] at honce
  split at honce
  next hlt =>
    have hq := List.getElem?_eq_getElem hlt
    rw [hq, h.held r _ hq, RequestCustody.expected, show v.started.count r = 0 by omega]
    rfl
  · omega

theorem RequestCustody.held_modify {g : Bool × Bool × Bool → Bool × Bool × Bool} {request : Nat}
    (hheld : ∀ r q, v.holdings[r]? = some q → q = v.expected r)
    (hself : g (v.expected request) = v'.expected request)
    (hother : ∀ r, request ≠ r → v.expected r = v'.expected r) (r : Nat) (q : Bool × Bool × Bool)
    (hq : (v.holdings.modify request g)[r]? = some q) : q = v'.expected r := by
  rw [List.getElem?_modify] at hq
  obtain ⟨q₀, hq₀, rfl⟩ := Option.map_eq_some_iff.mp hq
  obtain rfl := hheld r q₀ hq₀
  by_cases heq : request = r
  · subst heq
    simp only [if_true]
    exact hself
  · simp only [heq, if_false]
    exact hother r heq

theorem RequestCustody.Sound.step (h : v.Sound (before ++ op :: after))
    (hstep : RequestStep v op v' more) : v'.Sound (before ++ (more ++ after)) := by
  have honce := h.once
  have howed := h.owes
  have hfinish := h.finishes
  have hbalance := h.permits
  simp only [flatMap_append, flatMap_cons, count_append, map_append,
    map_cons, sum_append, sum_cons] at honce howed hfinish hbalance
  cases hstep with
  | carry hsends howes hfinishes =>
    refine ⟨fun r => ?_, h.held, fun r => ?_, fun r => ?_, ?_⟩
    · have := honce r
      have := hsends r
      simp only [flatMap_append, count_append]
      omega
    · have := howed r
      have := howes r
      simp only [flatMap_append, count_append]
      omega
    · have := hfinish r
      simp only [flatMap_append, count_append]
      rcases hfinishes with hnone | hmore
      · rw [hnone, count_nil] at this
        omega
      · rw [hmore]
        omega
    · simp only [map_append, sum_append]
      omega
  | start hop hmore howes hdisposed =>
    rename_i request permits disposed
    obtain ⟨hsends, hnoneOwed, hnoneFinish, hnone⟩ := hop
    refine ⟨fun r => ?_, ?_, fun r => ?_, fun r => ?_, ?_⟩
    · have := honce r
      simp only [flatMap_append, count_append, hmore, hsends, length_modify, count_nil] at this ⊢
      omega
    · apply RequestCustody.held_modify h.held
      · simp [RequestCustody.expected]
      · intro r heq
        simp [RequestCustody.expected, count_append, heq]
    · have := howed r
      have := howes r
      simp only [flatMap_append, count_append, hnoneOwed, count_nil] at *
      omega
    · have := hfinish r
      have := hdisposed r
      simp only [flatMap_append, count_append, hnoneFinish, count_nil] at *
      omega
    · simp only [map_append, sum_append]
      omega
  | late hop hlate =>
    rw [h.held_of_sends hop] at hlate
    cases hlate
  | create =>
    have hfresh (r : Nat) (hr : v.holdings.length ≤ r) : v.started.count r = 0 := by
      have := honce r
      rw [if_neg (by omega)] at this
      omega
    refine ⟨fun r => ?_, fun r q hq => ?_, fun r => ?_, fun r => ?_, ?_⟩
    · have := honce r
      simp only [flatMap_append, flatMap_singleton, count_append, sends,
        EngineMessageEvent.requests, count_nil, length_append, length_singleton,
        count_singleton, beq_iff_eq] at this ⊢
      split at this <;> split <;> split <;> omega
    · rcases lt_or_ge r v.holdings.length with hlt | hge
      · rw [List.getElem?_append_left hlt] at hq
        exact h.held r q hq
      · have hstarted := hfresh r hge
        have hcompleted : v.completed.count r = 0 := by
          have := howed r
          omega
        rw [List.getElem?_append_right hge] at hq
        have hq : q = (true, true, false) := by
          simpa using mem_of_getElem? hq
        rw [hq]
        simp only [RequestCustody.expected, hstarted, hcompleted]
        rfl
    · simp only [flatMap_append, count_append]
      exact howed r
    · simp only [flatMap_append, count_append]
      exact hfinish r
    · simp only [map_append, sum_append]
      change v.permits + (_ + (1 + _)) = _ at hbalance
      change v.permits + 1 + (_ + (0 + _)) = _
      omega
  | complete =>
    rename_i request result
    refine ⟨fun r => ?_, ?_, fun r => ?_, fun r => ?_, ?_⟩
    · simp only [flatMap_append, count_append, length_modify]
      exact honce r
    · apply RequestCustody.held_modify h.held
      · simp [RequestCustody.expected]
      · intro r heq
        simp [RequestCustody.expected, count_append, heq]
    · have := howed r
      simp only [flatMap_append, count_append, nil_append, RaceOp.owes] at this ⊢
      omega
    · have := hfinish r
      simp only [flatMap_append, count_append, nil_append, RaceOp.finishes] at this ⊢
      omega
    · simp only [map_append, sum_append]
      exact hbalance

/-- A call begins with an operation that has no part in the requests. -/
theorem RequestCustody.Sound.insert (h : v.Sound (before ++ after)) (hop : op.aloof = true) :
    v.Sound (before ++ op :: after) := by
  obtain ⟨hsends, howes, hfinishes, hpermits⟩ := aloof_iff.mp hop
  obtain ⟨_, _, _, _, _⟩ := h
  constructor
  all_goals simp only [flatMap_append, flatMap_cons, map_append, map_cons, sum_append, sum_cons,
    hsends, howes, hfinishes, hpermits, nil_append, zero_add] at *
  all_goals assumption

theorem RequestCustody.Sound.of_outstanding {ops : List RaceOp} (h : v.Sound ops)
    (hview : v' = { v with outstanding := v'.outstanding })
    (hle : ∀ r, v'.outstanding.count r ≤ v.outstanding.count r) : v'.Sound ops := by
  rw [hview]
  refine ⟨h.once, h.held, fun r => ?_, h.finishes, h.permits⟩
  have := h.owes r
  have := hle r
  simp only
  omega

end Sound

namespace RaceState

variable {c c' : RaceState} {label : RaceLabel}

def RequestsSound (c : RaceState) : Prop :=
  c.shared.requestCustody.Sound c.pending

theorem RequestsSound.begin (h : c.RequestsSound) {op : RaceOp} (hop : op.aloof = true) :
    (c.begin op).RequestsSound := by
  unfold RequestsSound
  rw [pending_begin]
  apply RequestCustody.Sound.insert ?_ hop
  rw [append_nil]
  exact h

theorem RequestsSound.beginDriver (h : c.RequestsSound) (hidle : c.driverIdle = true)
    {op : RaceOp} (hop : op.aloof = true) : (c.beginDriver op).RequestsSound := by
  unfold RequestsSound
  rw [pending_beginDriver hidle]
  exact @RequestCustody.Sound.insert c.shared.requestCustody _ [] c.pending h hop

theorem count_eraseIdx_add {engine : List ProtocolCommand} {index : Nat}
    {command : ProtocolCommand} (h : engine[index]? = some command) (r : Nat) :
    ((engine.eraseIdx index).flatMap (·.batch.requests)).count r +
        command.batch.requests.count r = (engine.flatMap (·.batch.requests)).count r := by
  obtain ⟨hindex, rfl⟩ := List.getElem?_eq_some_iff.mp h
  have hperm := (getElem_cons_eraseIdx_perm hindex).flatMap_right (·.batch.requests)
  rw [← hperm.count_eq r, flatMap_cons, count_append, add_comm]

theorem count_eraseIdx_le (engine : List ProtocolCommand) (index r : Nat) :
    ((engine.eraseIdx index).flatMap (·.batch.requests)).count r ≤
      (engine.flatMap (·.batch.requests)).count r := by
  cases h : engine[index]? with
  | none => rw [eraseIdx_of_length_le (List.getElem?_eq_none_iff.mp h)]
  | some =>
    have := count_eraseIdx_add h r
    omega

/-- A step of the calls is one of the queues' steps, and keeps the custody of the
requests. -/
theorem step_moves (h : c.step label = some c') :
    CallStep (c.shared.queues, c.pending) (c'.shared.queues, c'.pending) ∧
      (c.RequestsSound → c'.RequestsSound) := by
  have hbegins {op : RaceOp} (hop : op.plain = true) :
      CallStep (c.shared.queues, c.pending) (c.shared.queues, (c.begin op).pending) ∧
        (c.RequestsSound → (c.begin op).RequestsSound) := by
    obtain ⟨hquiet, haloof⟩ := Bool.and_eq_true_iff.mp hop
    rw [pending_begin]
    exact ⟨.begin hquiet, fun hsound => hsound.begin haloof⟩
  have hdrives {op : RaceOp} (hidle : c.driverIdle = true) (hop : op.plain = true) :
      CallStep (c.shared.queues, c.pending) (c.shared.queues, (c.beginDriver op).pending) ∧
        (c.RequestsSound → (c.beginDriver op).RequestsSound) := by
    obtain ⟨hquiet, haloof⟩ := Bool.and_eq_true_iff.mp hop
    rw [pending_beginDriver hidle]
    exact ⟨.drive hquiet, fun hsound => hsound.beginDriver hidle haloof⟩
  cases label with
  | run =>
    obtain ⟨⟨_, _⟩, hadvance, rfl⟩ := Option.map_eq_some_iff.mp h
    obtain ⟨op, _, before, after, hexec, hpending, hpending'⟩ :=
      Threads.advance_eq_some hadvance
    obtain ⟨hqueues, hrequests⟩ := RaceShared.exec_raceStep hexec
    unfold RequestsSound pending
    rw [hpending, hpending']
    exact ⟨.exec hqueues, fun hsound => hsound.step hrequests⟩
  | drive op =>
    simp only [step] at h
    split at h
    next hcond =>
      cases h
      rw [Bool.and_eq_true] at hcond
      refine hdrives hcond.1 ?_
      cases op <;> first | rfl | cases hcond.2
    · cases h
  | driverDrop =>
    simp only [step] at h
    split at h
    next hidle =>
      cases h
      exact hdrives hidle rfl
    · cases h
  | send =>
    simp only [step] at h
    split at h
    · cases h
      exact hbegins rfl
    · cases h
  | abandon call =>
    obtain ⟨rest, hrest, rfl⟩ := Option.map_eq_some_iff.mp h
    obtain ⟨_, hops, habandoned⟩ := Option.bind_eq_some_iff.mp hrest
    have hexec {op : RaceOp} (hstep : RaceStep c.shared op c.shared rest)
        (hcall : c.calls[call]? = some [op]) : CallStep (c.shared.queues, c.pending)
            (c.shared.queues, (c.calls.set call rest).flatten) ∧
          (c.RequestsSound → c.shared.requestCustody.Sound (c.calls.set call rest).flatten) := by
      obtain ⟨_, _, hpending, hset⟩ := Threads.flatten_set hcall
      obtain ⟨hqueues, hrequests⟩ := hstep
      have hpending' := hset rest
      rw [append_nil] at hpending'
      unfold RequestsSound pending
      rw [hpending, hpending']
      exact ⟨.exec hqueues, fun hsound => hsound.step hrequests⟩
    unfold abandoned at habandoned
    split at habandoned
    · cases habandoned
      exact hexec (.of_views rfl rfl rfl rfl) hops
    · cases habandoned
      exact hexec ⟨.quiet rfl rfl, .of_handover rfl rfl rfl rfl (.inl rfl)⟩ hops
    · cases habandoned
  | cancel request =>
    cases h
    have hview := c.shared.requestCustody_updateRequest request
      (f := fun q => { q with cancelled := true }) fun _ => rfl
    refine ⟨.same, fun hsound => ?_⟩
    unfold RequestsSound at hsound
    rw [← hview] at hsound
    exact hsound
  | recv =>
    simp only [step] at h
    split at h
    · cases h
    · cases h
      exact ⟨.same, id⟩
  | dropMessage index =>
    simp only [step] at h
    split at h
    · cases h
    · cases h
      exact hbegins rfl
  | close | finishClose =>
    cases h
    exact hbegins rfl
  | notify event =>
    have hsend (hnone : event.requests = []) (r : Nat) : (c.shared.setMsg { c.msg with
          port := c.msg.port.send [event] }).requestCustody.outstanding.count r ≤
          c.shared.requestCustody.outstanding.count r := by
      have hle := c.shared.outstanding_send [event] r
      rw [flatMap_singleton, hnone, count_nil, zero_add] at hle
      exact hle
    cases event with
    | completion event => cases h
    | submission command disposition =>
      cases h
      exact ⟨.send [.submission command disposition],
        fun hsound => hsound.of_outstanding rfl (hsend rfl)⟩
    | terminal event =>
      cases h
      exact ⟨.send [.terminal event], fun hsound => hsound.of_outstanding rfl (hsend rfl)⟩
  | complete index result unaccepted cancelled =>
    simp only [step] at h
    split at h
    · cases h
    next command hcommand =>
      cases h
      refine ⟨.send [command.completion result unaccepted cancelled],
        fun hsound => hsound.of_outstanding rfl fun r => ?_⟩
      have hsend := ({ c.shared with
        engine := c.shared.engine.eraseIdx index } : RaceShared).outstanding_send
          [command.completion result unaccepted cancelled] r
      have herase := count_eraseIdx_add hcommand r
      refine hsend.trans ?_
      rw [flatMap_singleton]
      change command.context.requests.count r + _ ≤ _
      rw [command.requests_context]
      simp only [RaceShared.requestCustody, count_append]
      omega
  | discard index =>
    simp only [step] at h
    split at h
    · cases h
      refine ⟨.same, fun hsound => hsound.of_outstanding rfl fun r => ?_⟩
      have herase := count_eraseIdx_le c.shared.engine index r
      simp only [setShared, RaceShared.requestCustody, count_append]
      omega
    · cases h

theorem step_callStep (h : c.step label = some c') :
    CallStep (c.shared.queues, c.pending) (c'.shared.queues, c'.pending) :=
  (step_moves h).1

theorem Sound.step (h : c.Sound) (hstep : c.step label = some c') : c'.Sound :=
  (step_callStep hstep).sound h

theorem RequestsSound.step (h : c.RequestsSound) (hstep : c.step label = some c') :
    c'.RequestsSound :=
  (step_moves hstep).2 h

end RaceState

end RdmaIo.Message
