/-
The send credits of one endpoint against any peer.

A credit is free, with a send call or a request, or spent on a send whose credit
has not come back.  The sum of the three changes at one place only: the receipt
of a HELLO's repost adds the capacity that the HELLO announced.
-/
import RdmaIo.Message.Lifecycle
import RdmaIo.Message.LinkEnd

namespace RdmaIo.Message

namespace CreditView

variable {v w : CreditView}

/-- At most one HELLO has taken effect. -/
def Once (v : CreditView) : Prop :=
  v.granted = false ∧ v.total = 0 ∧ v.heard.length ≤ 1 ∨
    v.granted = true ∧ v.total = v.limit ∧ v.heard = []

theorem Once.keeps (h : v.Once) (hkeeps : Keeps v w) : w.Once := by
  rcases h with ⟨hgranted, htotal, hheard⟩ | ⟨hgranted, htotal, hheard⟩
  · refine .inl ⟨hkeeps.granted.trans hgranted, hkeeps.total.trans htotal, ?_⟩
    exact le_trans hkeeps.heard.length_le hheard
  · refine .inr ⟨hkeeps.granted.trans hgranted, ?_, ?_⟩
    · rw [hkeeps.total, hkeeps.limit, htotal]
    · exact List.suffix_nil.mp (hheard ▸ hkeeps.heard)

/-- A HELLO that is heard when none waits keeps the effect at one. -/
theorem Once.step {first resolved : Prop} (h : v.Once)
    (hfirst : first → v.granted = false ∧ v.heard = []) (hstep : Step first resolved v w) :
    w.Once := by
  cases hstep with
  | keep hkeeps => exact h.keeps hkeeps
  | hear _ hheard =>
    obtain ⟨hgranted, hnone⟩ := hfirst hheard
    rcases h with ⟨-, htotal, -⟩ | ⟨hgranted', -, -⟩
    · exact .inl ⟨hgranted, htotal, by simp [hnone]⟩
    · cases hgranted.symm.trans hgranted'
  | @grant _ rest hheard =>
    rcases h with ⟨-, htotal, hlength⟩ | ⟨-, -, hnone⟩
    · have hrest : rest = [] := by
        rw [hheard, List.length_cons] at hlength
        exact List.eq_nil_of_length_eq_zero (by omega)
      exact .inr ⟨rfl, by simp [htotal], hrest⟩
    · cases hheard.symm.trans hnone

end CreditView

namespace EngineMessageState

variable (s : EngineMessageState)

/-- A transport that is ready or closing hears no HELLO. -/
theorem takesHello_of_ne_created (hstate : s.state ≠ .created) (event : IoEvent) :
    s.takesHello event = false := by
  cases event with
  | submission | terminal => rfl
  | completion => simp [takesHello, hstate]

end EngineMessageState

namespace MessageNode

open CreditView (Keeps Step)
open EngineMessageState

variable (n : MessageNode)

/-- All credits of the endpoint: free, with send calls and requests, and spent on
sends whose credit has not come back. -/
def creditTotal : Nat :=
  n.acquired + n.msg.creditTotal

def creditView : CreditView :=
  n.msg.creditView.hold n.acquired

/-- A driver iteration finds no HELLO at the head of the port while an earlier
HELLO waits for the receipt of its repost. -/
def helloAwaitsReceipt : NodeLabel → Bool
  | .drive _ => n.msg.heard.isEmpty || !n.msg.port.events.head?.any n.msg.takesHello
  | _ => true

/-- Closing applies the receipts of the port and hears nothing. -/
theorem once_foldl_processIoEvent {s : EngineMessageState} {acquired : Nat}
    (hclosing : s.state.isClosing = true) (events : List IoEvent)
    (h : (s.creditView.hold acquired).Once) :
    ((events.foldl (fun (s : EngineMessageState) event => s.processIoEvent event none)
      s).creditView.hold acquired).Once := by
  induction events generalizing s with
  | nil => exact h
  | cons event _ ih =>
    rw [List.foldl_cons]
    apply ih
    · exact (s.life_processIoEvent event none).1.closing hclosing
    · refine h.step ?_ ((s.life_processIoEvent event none).2.hold acquired)
      rintro ⟨htakes, -⟩
      have hstate : s.state ≠ .created := fun hcreated => by
        rw [hcreated] at hclosing
        cases hclosing
      rw [s.takesHello_of_ne_created hstate event] at htakes
      cases htakes

theorem once_beginClose {n : MessageNode} (h : n.creditView.Once) :
    (n.msg.beginClose.creditView.hold n.acquired).Once := by
  have hview : { n.msg.enterClosing with
      port := { n.msg.enterClosing.port with events := [] } }.creditView =
      n.msg.creditView :=
    creditView_disposeEvents _
  refine once_foldl_processIoEvent ?_ n.msg.enterClosing.port.events (hview ▸ h)
  exact n.msg.dead_enterClosing.state

/-- What an iteration of the driver can do to the credits; a HELLO is heard from
the head of the port. -/
theorem iteration_credit {s s' : EngineMessageState} {env : DriveEnv}
    {out : Option ProtocolCommand} (h : MessageTransportDriver.Iteration s env s' out) :
    Step (s.port.events.head?.any s.takesHello = true ∧ s.helloReceiveComplete = false) True
      s.creditView s'.creditView := by
  cases h with
  | admission _ hpoll => exact .keep (.of_eq (life_pollAdmission hpoll).2)
  | credit hflush => exact (call_flushOneCredit hflush).creditStep
  | @protocol event events =>
    exact (call_processEvent { s with events } event env.refusal).creditStep
  | @io event events hevents =>
    have hstep := life_processIoEvent { s with port := { s.port with events } } event env.refusal
    rw [hevents]
    exact hstep.2

/-- A step other than the driver's and `close` leaves the credits alone. -/
theorem keeps_step {n n' : MessageNode} {l : NodeLabel} (hdrive : ∀ env, l ≠ .drive env)
    (hclose : l ≠ .close) (hstep : n.step l = some n') : Keeps n.creditView n'.creditView := by
  cases l with
  | drive env => exact absurd rfl (hdrive env)
  | close => exact absurd rfl hclose
  | publish => exact Option.some.inj hstep ▸ .refl _
  | recv =>
    simp only [MessageNode.step, recv] at hstep
    split at hstep <;> cases hstep
    exact .refl _
  | _ => exact (call_step rfl hstep).creditStep.keeps

theorem once_step {n n' : MessageNode} {l : NodeLabel} (h : n.creditView.Once)
    (hawaits : n.helloAwaitsReceipt l = true) (hstep : n.step l = some n') :
    n'.creditView.Once := by
  by_cases hclose : l = .close
  · subst hclose
    exact Option.some.inj hstep ▸ once_beginClose h
  by_cases hdrive : ∃ env, l = .drive env
  · obtain ⟨env, rfl⟩ := hdrive
    obtain ⟨_, _, hiteration, rfl⟩ := drive_eq_some hstep
    refine h.step ?_ ((iteration_credit hiteration).hold n.acquired)
    rintro ⟨htakes, hcomplete⟩
    refine ⟨hcomplete, ?_⟩
    change n.msg.heard = []
    simpa [helloAwaitsReceipt, htakes] using hawaits
  · exact h.keeps (keeps_step (fun env hl => hdrive ⟨env, hl⟩) hclose hstep)

theorem once_new (recvCount bufferSize : Nat) (dataSends controlSends : List Mr)
    (helloSend : Mr) (receives : List Mr) :
    (MessageNode.new (.new recvCount bufferSize dataSends controlSends helloSend)
      receives).creditView.Once :=
  .inl ⟨rfl, rfl, Nat.zero_le 1⟩

end MessageNode

/-- The completion brings a HELLO frame, valid or not. -/
def IoCompletionEvent.isHello (c : IoCompletionEvent) : Bool :=
  match c.context, c.result, c.mr with
  | .receive, .ok len, some mr =>
    match parseHeader mr.content len with
    | .ok header => header.frameType == frameHello
    | .error _ => false
  | _, _, _ => false

/-- The number that a CREDIT frame brings. -/
def IoCompletionEvent.credits (c : IoCompletionEvent) : Option Nat :=
  match c.context, c.result, c.mr with
  | .receive, .ok len, some mr =>
    match parseHeader mr.content len with
    | .ok header =>
      if header.frameType = frameCredit then
        (parseCredit (payloadOf mr.content header)).toOption
      else none
    | .error _ => none
  | _, _, _ => none

namespace EngineMessageState

variable {s : EngineMessageState}

/-- After a HELLO took effect a further one fails the transport. -/
theorem processIoEvent_further_hello {c : IoCompletionEvent} (hhello : c.isHello = true)
    (hlive : s.state.isClosing = false) (hcomplete : s.helloReceiveComplete = true)
    (refusal : Option Error) :
    ∃ error, s.processIoEvent (.completion c) refusal = s.fail error true := by
  unfold IoCompletionEvent.isHello at hhello
  split at hhello
  next hcontext hresult hmr =>
    split at hhello
    next header hheader =>
      have htype : header.frameType = frameHello := by simpa using hhello
      simp only [processIoEvent, hlive, Bool.false_eq_true, if_false, processIoCompletion,
        hcontext, hresult, hmr, processReceive]
      cases hstate : s.state with
      | created =>
        simp only [processHelloReceive]
        split
        · exact ⟨_, rfl⟩
        · exact ⟨_, by simp only [hcomplete, if_true]; rfl⟩
      | ready =>
        simp only [processFrame, hheader, htype]
        split
        · exact ⟨_, rfl⟩
        · exact ⟨_, rfl⟩
      | closing | stopped | failed => simp [hstate, TransportState.isClosing] at hlive
    next => cases hhello
  next => cases hhello

/-- A CREDIT frame that returns more than is in flight, or more than the peer's
capacity allows, fails the transport. -/
theorem processIoEvent_excess_credit {c : IoCompletionEvent} {credits : Nat}
    (hcredits : c.credits = some credits) (hready : s.state = .ready)
    (hexcess : ¬ (credits ≤ s.creditsInFlight ∧
      s.remoteCredits + credits ≤ s.peerRecvCapacity))
    (refusal : Option Error) :
    ∃ error, s.processIoEvent (.completion c) refusal = s.fail error true := by
  unfold IoCompletionEvent.credits at hcredits
  split at hcredits
  next mr hcontext hresult hmr =>
    split at hcredits
    next header hheader =>
      split at hcredits
      next htype =>
        have hparse : parseCredit (payloadOf mr.content header) = .ok credits := by
          cases hp : parseCredit (payloadOf mr.content header) with
          | error => simp [hp, Except.toOption] at hcredits
          | ok => simpa [hp, Except.toOption] using hcredits
        simp only [processIoEvent, hready, TransportState.isClosing, Bool.false_eq_true,
          if_false, processIoCompletion, hcontext, hresult, hmr, processReceive,
          processFrame, hheader, htype, hparse]
        split
        · exact ⟨_, rfl⟩
        simp only [frameCredit, frameData, Nat.succ_ne_zero, if_false, if_true]
        cases hvalid : s.validateAndAddCredits credits with
        | error => exact ⟨_, rfl⟩
        | ok =>
          obtain ⟨-, hspent, hcapacity, -⟩ := validateAndAddCredits_eq_ok hvalid
          exact absurd ⟨hspent, hcapacity⟩ hexcess
      next => cases hcredits
    next => cases hcredits
  next => cases hcredits

end EngineMessageState

namespace MessageNode

open EngineMessageState MessageTransportDriver

theorem popIo_frame {d d' : MessageTransportDriver} {event : IoEvent}
    (h : d.popIo = some (d', .io event)) :
    ∃ events, d'.state = { d.state with port := { d.state.port with events } } := by
  obtain ⟨_, events, -, hstate, -⟩ := popIo_eq_some h
  exact ⟨events, hstate⟩

/-- A live transport that fails on an event of its port keeps its credits. -/
theorem failed_of_popIo {n : MessageNode} {d : MessageTransportDriver} {c : IoCompletionEvent}
    {refusal : Option Error} (hpop : n.driver.popIo = some (d, .io (.completion c)))
    (hlive : n.msg.state.isClosing = false)
    (hfail : ∃ error, d.state.processIoEvent (.completion c) refusal =
      d.state.fail error true) :
    (processWork d.state (.io (.completion c)) refusal).state = .failed ∧
      (processWork d.state (.io (.completion c)) refusal).creditTotal =
        n.msg.creditTotal := by
  obtain ⟨_, hd⟩ := popIo_frame hpop
  obtain ⟨error, hfail⟩ := hfail
  have hlive' : d.state.state.isClosing = false := by rw [hd]; exact hlive
  have htotal : d.state.creditTotal = n.msg.creditTotal := by rw [hd]; rfl
  rw [processWork, hfail, ← htotal]
  have hcall := d.state.call_fail (p := False) (q := False) error true
  exact ⟨(fail_of_live hlive' error true).1, hcall.creditStep.keeps.total⟩

/-- In every run in which no HELLO is taken while an earlier one waits for the
receipt of its repost, the endpoint was given nothing or the capacity of one
HELLO, and once it was, a further HELLO fails it and gives nothing. -/
theorem hello_counts_once (recvCount bufferSize : Nat) (dataSends controlSends : List Mr)
    (helloSend : Mr) (receives : List Mr) (trace : List NodeLabel) (n : MessageNode)
    (hawaits : Machine.Along step (fun n l => n.helloAwaitsReceipt l = true)
      (.new (.new recvCount bufferSize dataSends controlSends helloSend) receives) trace)
    (hrun : Machine.run step
      (.new (.new recvCount bufferSize dataSends controlSends helloSend) receives) trace = some n) :
    (n.msg.helloReceiveComplete = false ∧ n.creditTotal = 0 ∨
      n.msg.helloReceiveComplete = true ∧ n.creditTotal = n.msg.peerRecvCapacity) ∧
    (n.msg.helloReceiveComplete = true → n.msg.state.isClosing = false →
      ∀ d c refusal, n.driver.popIo = some (d, .io (.completion c)) → c.isHello = true →
        (processWork d.state (.io (.completion c)) refusal).state = .failed ∧
          (processWork d.state (.io (.completion c)) refusal).creditTotal =
            n.msg.creditTotal) := by
  have honce : n.creditView.Once :=
    Machine.run_invariant (fun _ _ _ h hl hstep => once_step h hl hstep)
      (once_new recvCount bufferSize dataSends controlSends helloSend receives) hawaits hrun
  constructor
  · rcases honce with ⟨hgranted, htotal, -⟩ | ⟨hgranted, htotal, -⟩
    · exact .inl ⟨hgranted, htotal⟩
    · exact .inr ⟨hgranted, htotal⟩
  · intro hcomplete hlive d c refusal hpop hhello
    obtain ⟨_, hd⟩ := popIo_frame hpop
    apply failed_of_popIo hpop hlive
    apply processIoEvent_further_hello hhello
    · rw [hd]
      exact hlive
    · rw [hd]
      exact hcomplete

theorem hello_counts_once_handshake : (Machine.run step small handshake).map
        (fun n => (n.msg.helloReceiveComplete, n.creditTotal, n.msg.peerRecvCapacity)) =
      some (true, 1, 1) ∧
    ∀ n, Machine.run step small handshake = some n →
      n.msg.helloReceiveComplete = false ∧ n.creditTotal = 0 ∨
        n.msg.helloReceiveComplete = true ∧ n.creditTotal = n.msg.peerRecvCapacity :=
  ⟨by decide +kernel, fun n hrun =>
    (hello_counts_once 1 16 _ _ _ _ handshake n (by decide +kernel) hrun).1⟩

/-- Two HELLO frames are in the port before the receipt of the first repost. -/
def doubleHello : List NodeLabel :=
  [driveGranted, driveGranted] ++ serviceAccepted ++
    [driveGranted, .transmit, .complete (.ok ()), .reap, .dispatch, .publish,
      driveGranted, .arrive (.ok (writeHelloFrame 1 16)),
      .arrive (.ok (writeHelloFrame 1 16)), .reap, .reap, .dispatch, .dispatch, .publish,
      driveGranted, driveGranted, driveGranted, driveGranted] ++
    serviceAccepted ++ serviceAccepted ++ [driveGranted, driveGranted]

/-- The capacity of one buffer is granted twice and the transport is ready. -/
theorem doubleHello_counts_twice : (Machine.run step small doubleHello).map
        (fun n => (n.msg.state, n.msg.remoteCredits, n.creditTotal, n.msg.peerRecvCapacity)) =
      some (.ready, 2, 2, 1) := by
  decide +kernel

/-- The endpoint is ready and balanced against the peer's capacity, with no HELLO that
waits for the receipt of its repost, or it closes. -/
def Balanced (capacity : Nat) (n : MessageNode) : Prop :=
  n.msg.state = .ready ∧ n.msg.peerRecvCapacity = capacity ∧ n.creditTotal = capacity ∧
    n.msg.heard = [] ∨ n.msg.state.isClosing = true

theorem Balanced.step {capacity : Nat} {n n' : MessageNode} {l : NodeLabel}
    (h : n.Balanced capacity) (hstep : n.step l = some n') : n'.Balanced capacity := by
  rcases h with ⟨hready, hlimit, htotal, hnone⟩ | hclosing
  swap
  · exact .inr (closing_step hstep hclosing)
  by_cases hclosing : n'.msg.state.isClosing = true
  · exact .inr hclosing
  have hstate : n'.msg.state = .ready := by
    have hcreated : n'.msg.state ≠ .created := by
      intro hcreated
      by_cases hrecv : l = .recv
      · subst hrecv
        rw [(recv_frame hstep).1, hready] at hcreated
        cases hcreated
      · have hearlier := (later_step hrecv hstep).created hcreated
        rw [hready] at hearlier
        cases hearlier
    cases hs : n'.msg.state <;> simp_all [TransportState.isClosing]
  have hkept : CreditView.Keeps n.creditView n'.creditView := by
    by_cases hclose : l = .close
    · subst hclose
      cases hstep
      exact absurd (n.msg.life_enterClosing_beginClose.dead n.msg.dead_enterClosing).state hclosing
    by_cases hdrive : ∃ env, l = .drive env
    · obtain ⟨env, rfl⟩ := hdrive
      obtain ⟨driver, _, hiteration, heq⟩ := drive_eq_some hstep
      have hview := (iteration_credit hiteration).hold n.acquired
      have hn' : n'.creditView = driver.state.creditView.hold n.acquired := by
        rw [heq]
        rfl
      rw [hn']
      generalize driver.state.creditView.hold n.acquired = w at hview
      cases hview with
      | keep hkeeps => exact hkeeps
      | hear _ hfirst =>
        -- a ready transport hears no HELLO
        obtain ⟨event, -, htakes⟩ := (Option.any_eq_true ..).mp hfirst.1
        rw [n.msg.takesHello_of_ne_created (by rw [hready]; decide) event] at htakes
        cases htakes
      | grant hheard => cases hnone.symm.trans hheard
    · exact keeps_step (fun env hl => hdrive ⟨env, hl⟩) hclose hstep
  refine .inl ⟨hstate, hkept.limit.trans hlimit, hkept.total.trans htotal, ?_⟩
  exact List.suffix_nil.mp (hnone ▸ hkept.heard)

/-- From a ready and balanced state in which no HELLO waits for the receipt of its
repost, whatever the endpoint does and the peer sends: as long as the endpoint is ready
its credits add up to the peer's capacity, and a CREDIT frame that would break this
fails it and leaves the credits alone. -/
theorem credit_balance_kept (start : MessageNode) (capacity : Nat)
    (hready : start.msg.state = .ready) (hlimit : start.msg.peerRecvCapacity = capacity)
    (htotal : start.creditTotal = capacity) (hhello : start.msg.heard = []) (trace : List NodeLabel)
    (n : MessageNode) (hrun : Machine.run step start trace = some n) (hn : n.msg.state = .ready) :
    n.acquired + n.msg.requests.countP (·.credit) + n.msg.remoteCredits +
        n.msg.creditsInFlight = capacity ∧
    ∀ d c credits refusal, n.driver.popIo = some (d, .io (.completion c)) →
      c.credits = some credits →
      ¬ (credits ≤ n.msg.creditsInFlight ∧ n.msg.remoteCredits + credits ≤ capacity) →
      (processWork d.state (.io (.completion c)) refusal).state = .failed ∧
        (processWork d.state (.io (.completion c)) refusal).creditTotal = n.msg.creditTotal := by
  have hbalanced : n.Balanced capacity :=
    Machine.run_invariant_of_step (fun _ _ _ h hstep => h.step hstep)
      (.inl ⟨hready, hlimit, htotal, hhello⟩) hrun
  rcases hbalanced with ⟨-, hcapacity, hsum, -⟩ | hclosing
  swap
  · rw [hn] at hclosing
    cases hclosing
  constructor
  · rw [← hsum, creditTotal, EngineMessageState.creditTotal]
    omega
  · intro d c credits refusal hpop hcredits hexcess
    obtain ⟨_, hd⟩ := popIo_frame hpop
    have hlive : n.msg.state.isClosing = false := by rw [hn]; rfl
    apply failed_of_popIo hpop hlive
    apply processIoEvent_excess_credit hcredits
    · rw [hd]
      exact hn
    · rw [← hcapacity] at hexcess
      rw [hd]
      exact hexcess

/-- The endpoint `small` when it has become ready. -/
def smallReady : MessageNode :=
  (Machine.run step small handshake).getD small

/-- A send is posted and a second one is cancelled before it is. -/
def sendAndCancel : List NodeLabel :=
  [.sendAcquire, .sendEnqueue [9], driveGranted, driveGranted] ++ serviceAccepted ++
    [driveGranted, .transmit, .complete (.ok ()), .reap, .dispatch, .publish, driveGranted] ++
    receiveFrame (writeCreditFrame 1) ++
    [.sendAcquire, .sendEnqueue [8], .sendCancel 1, driveGranted, driveGranted]

theorem credit_balance_kept_sendAndCancel : (Machine.run step smallReady sendAndCancel).map
        (fun n => (n.msg.state, n.msg.remoteCredits, n.msg.creditsInFlight)) =
      some (.ready, 1, 0) ∧
    ∀ n, Machine.run step smallReady sendAndCancel = some n → n.msg.state = .ready →
      n.acquired + n.msg.requests.countP (·.credit) + n.msg.remoteCredits +
        n.msg.creditsInFlight = 1 :=
  ⟨by decide +kernel, fun n hrun hn =>
    (credit_balance_kept smallReady 1 (by decide +kernel) (by decide +kernel)
      (by decide +kernel) (by decide +kernel) sendAndCancel n hrun hn).1⟩

end MessageNode

end RdmaIo.Message
