/-
What one call of the message transport can do.

The functions of the transport are walked through once, for the three things that
the later results follow through them: the receipts of commands on their way, the
send credits, and the way to the closed state.  A call submits at most one command
and resolves at most one receipt, so what it does to the views is one step.
-/
import RdmaIo.Message.Node

namespace RdmaIo.Message

open List
open MessageNode (step transmit)

section Modify

variable {α : Type*} {p : α → Bool} {f : α → α}

theorem countP_modify (hf : ∀ x, p (f x) = p x) (l : List α) (i : Nat) :
    (l.modify i f).countP p = l.countP p := by
  induction l generalizing i with
  | nil => simp
  | cons _ _ ih =>
    cases i with
    | zero => simp [countP_cons, hf]
    | succ => simp [countP_cons, ih]

variable {l : List α} {i : Nat} {x : α}

/-- An update of one element changes the count by that element. -/
theorem countP_modify_toNat (hx : l[i]? = some x) :
    (l.modify i f).countP p + (p x).toNat = l.countP p + (p (f x)).toNat := by
  induction l generalizing i with
  | nil => simp at hx
  | cons y _ ih =>
    cases i with
    | zero =>
      obtain rfl : y = x := by simpa using hx
      cases hy : p y <;> cases hfy : p (f y) <;> simp [hy, hfy]
    | succ i =>
      have := ih (i := i) (by simpa using hx)
      simp only [modify_succ_cons, countP_cons]
      omega

/-- An update that takes one element out of the count. -/
theorem countP_modify_add_one (hx : l[i]? = some x) (hp : p x = true) (hf : p (f x) = false) :
    (l.modify i f).countP p + 1 = l.countP p := by
  simpa [hp, hf] using countP_modify_toNat (p := p) (f := f) hx

theorem forall_mem_modify {P : α → Prop} (h : ∀ x ∈ l, P x) (hf : ∀ x, P x → P (f x))
    (i : Nat) : ∀ x ∈ l.modify i f, P x := by
  induction l generalizing i with
  | nil => simp
  | cons y _ ih =>
    rw [forall_mem_cons] at h
    cases i with
    | zero => simpa using ⟨hf y h.1, h.2⟩
    | succ i => simpa using ⟨h.1, ih h.2 i⟩

theorem map_modify {β : Type*} {g : α → β} {f' : β → β} (h : ∀ x, g (f x) = f' (g x))
    (l : List α) (i : Nat) : (l.modify i f).map g = (l.map g).modify i f' := by
  induction l generalizing i with
  | nil => simp
  | cons _ _ ih =>
    cases i with
    | zero => simp [h]
    | succ => simp [ih]

theorem modify_congr {g : α → α} (hx : l[i]? = some x) (h : f x = g x) :
    l.modify i f = l.modify i g := by
  apply ext_getElem?
  intro j
  rw [List.getElem?_modify, List.getElem?_modify]
  by_cases hj : i = j
  · subst hj
    simp [hx, h]
  · simp [hj]

end Modify

/-- The commands whose receipts are among the events, in order. -/
def receiptIds (events : List IoEvent) : List Nat :=
  events.filterMap IoEvent.receipt

@[simp] theorem receiptIds_nil : receiptIds [] = [] := rfl

@[simp] theorem receiptIds_append (es fs : List IoEvent) :
    receiptIds (es ++ fs) = receiptIds es ++ receiptIds fs :=
  filterMap_append

@[simp] theorem receiptIds_submission (id : Nat) (d : IoSubmissionDisposition) (es : List IoEvent) :
    receiptIds (.submission id d :: es) = id :: receiptIds es := rfl

@[simp] theorem receiptIds_completion (c : IoCompletionEvent) (es : List IoEvent) :
    receiptIds (.completion c :: es) = receiptIds es := rfl

@[simp] theorem receiptIds_terminal (t : IoTerminalEvent) (es : List IoEvent) :
    receiptIds (.terminal t :: es) = receiptIds es := rfl

/-- What the correlation of receipts depends on. -/
@[ext] structure ReceiptView where
  admissionOpen : Bool
  portOpen : Bool
  port : List Nat
  pending : List Nat
  transitions : List Nat
  applied : List (Nat × Nat)

namespace ReceiptView

/-- Admission and port close, and the receipts of the port are disposed of. -/
def shut (v : ReceiptView) : ReceiptView :=
  { v with
    admissionOpen := false
    portOpen := false
    port := []
    pending := []
    transitions := v.transitions.drop v.port.length }

def submit (v : ReceiptView) (id : Nat) : ReceiptView :=
  { v with pending := v.pending ++ [id], transitions := v.transitions ++ [id] }

/-- What a function of the transport can do, the taking of receipts apart. -/
inductive Step : ReceiptView → ReceiptView → Prop
  | keep (v : ReceiptView) : Step v v
  | submit (v : ReceiptView) (id : Nat) (hopen : v.admissionOpen = true) :
      Step v (v.submit id)
  | shut (v : ReceiptView) : Step v v.shut

end ReceiptView

namespace EngineMessageState

def receiptView (s : EngineMessageState) : ReceiptView where
  admissionOpen := s.admissionOpen
  portOpen := s.port.isOpen
  port := receiptIds s.port.events
  pending := s.admissionPending.map ProtocolCommand.id
  transitions := s.pendingProtocolTransitions.map Prod.fst
  applied := s.applied

variable (s : EngineMessageState)

variable {s} in
/-- The bookkeeping of sends is not part of the view. -/
theorem receiptView_of_withoutSends {s' : EngineMessageState}
    (h : s'.withoutSends = s.withoutSends) : s'.receiptView = s.receiptView :=
  show s'.withoutSends.receiptView = s.withoutSends.receiptView from
    congrArg receiptView h

end EngineMessageState

/-- What the peer announced, in a transition that waits for its receipt. -/
@[simp] def PendingProtocolTransition.heard : PendingProtocolTransition → List Nat
  | helloReceiveRepost peerCapacity => [peerCapacity]
  | receive _ | send | controlSend _ | helloSend => []

/-- Credits that a refused or unaccepted command gives back to the ones owed. -/
def PendingProtocolTransition.restored (state : TransportState) : PendingProtocolTransition → Nat
  | controlSend credits => if state = .ready then credits else 0
  | receive _ | send | helloSend | helloReceiveRepost _ => 0

/-- What the credits of a transport depend on; `heard` are the capacities whose
HELLO waits for the receipt of its repost. -/
@[ext] structure CreditView where
  total : Nat
  limit : Nat
  granted : Bool
  heard : List Nat

namespace CreditView

/-- The credits stay; recorded HELLOs may be forgotten with their receipts. -/
structure Keeps (v w : CreditView) : Prop where
  total : w.total = v.total
  limit : w.limit = v.limit
  granted : w.granted = v.granted
  heard : w.heard <:+ v.heard

theorem Keeps.refl (v : CreditView) : Keeps v v :=
  ⟨rfl, rfl, rfl, suffix_refl _⟩

variable {v w : CreditView}

theorem Keeps.of_eq (h : w = v) : Keeps v w :=
  h ▸ .refl v

/-- What a step can do to the credits; `first` is known where a HELLO is heard,
and `resolved` where its capacity is granted. -/
inductive Step (first resolved : Prop) (v : CreditView) : CreditView → Prop
  | keep {w : CreditView} (h : Keeps v w) : Step first resolved v w
  | hear (capacity : Nat) (hfirst : first) :
      Step first resolved v { v with heard := v.heard ++ [capacity] }
  | grant {capacity : Nat} {rest : List Nat} (hheard : v.heard = capacity :: rest)
      (hresolved : resolved) :
      Step first resolved v
        { total := v.total + capacity, limit := capacity, granted := true, heard := rest }

variable {first resolved : Prop}

theorem Step.imp {first' resolved' : Prop} (h : Step first resolved v w) (hfirst : first → first')
    (hresolved : resolved → resolved') : Step first' resolved' v w := by
  cases h with
  | keep hkeeps => exact .keep hkeeps
  | hear capacity hheard => exact .hear capacity (hfirst hheard)
  | grant hheard hgranted => exact .grant hheard (hresolved hgranted)

/-- The view together with the credits that send calls hold. -/
def hold (v : CreditView) (acquired : Nat) : CreditView :=
  { v with total := acquired + v.total }

theorem Keeps.hold (h : Keeps v w) (acquired : Nat) : Keeps (v.hold acquired) (w.hold acquired) :=
  ⟨congrArg (acquired + ·) h.total, h.limit, h.granted, h.heard⟩

theorem Step.hold (h : Step first resolved v w) (acquired : Nat) :
    Step first resolved (v.hold acquired) (w.hold acquired) := by
  cases h with
  | keep hkeeps => exact .keep (hkeeps.hold acquired)
  | hear capacity hfirst => exact .hear capacity hfirst
  | @grant _ _ hheard hresolved =>
    have hgrant : Step first resolved (v.hold acquired) _ := .grant hheard hresolved
    simpa only [CreditView.hold, add_assoc] using hgrant

theorem Step.keeps (h : Step False False v w) : Keeps v w := by
  cases h with
  | keep hkeeps => exact hkeeps
  | hear _ hfirst => cases hfirst
  | grant _ hresolved => cases hresolved

end CreditView

namespace EngineMessageState

variable (s : EngineMessageState)

/-- The credits of the transport, apart from those that send calls hold. -/
def creditTotal : Nat :=
  s.remoteCredits + s.requests.countP (·.credit) + s.creditsInFlight

def heard : List Nat :=
  s.pendingProtocolTransitions.flatMap (·.2.heard)

def creditView : CreditView where
  total := s.creditTotal
  limit := s.peerRecvCapacity
  granted := s.helloReceiveComplete
  heard := s.heard

end EngineMessageState

/-- The credit that a started request gives up. -/
def EngineSendRequestAction.credit : EngineSendRequestAction → Bool
  | post _ credit _ | cancelled _ credit => credit
  | alreadyHandled => false

/-- What the walk through the transport follows. -/
@[ext] structure CallView where
  state : TransportState
  received : List CompletedRecv
  events : List EngineMessageEvent
  receipts : ReceiptView
  credits : CreditView

namespace CallView

/-- The transport closes or is closed, and nothing waits in it. -/
structure Dead (v : CallView) : Prop where
  state : v.state.isClosing = true
  admission : v.receipts.admissionOpen = false
  pending : v.receipts.pending = []
  events : v.events = []

/-- What no call can undo. -/
structure Life (v w : CallView) : Prop where
  closing : v.state.isClosing = true → w.state.isClosing = true
  received : v.state.isClosing = true → w.received = v.received
  admission : v.receipts.admissionOpen = false → w.receipts.admissionOpen = false
  /-- A transport starts to close with its admission. -/
  shut : w.state.isClosing = true → v.state.isClosing = true ∨ w.receipts.admissionOpen = false
  created : w.state = .created → v.state = .created
  failed : v.state = .failed → w.state = .failed
  dead : v.Dead → w.Dead

variable {u v w : CallView}

theorem Life.of_keep (hstate : w.state = v.state) (hreceived : w.received = v.received)
    (hadmission : w.receipts.admissionOpen = v.receipts.admissionOpen)
    (hdead : v.Dead → w.Dead) : Life v w where
  closing := by rw [hstate]; exact id
  received _ := hreceived
  admission := hadmission.trans
  shut := by rw [hstate]; exact .inl
  created := by rw [hstate]; exact id
  failed := hstate.trans
  dead := hdead

theorem Life.refl (v : CallView) : Life v v :=
  .of_keep rfl rfl rfl id

theorem Life.trans (h₁ : Life u v) (h₂ : Life v w) : Life u w where
  closing hclosing := h₂.closing (h₁.closing hclosing)
  received hclosing := (h₂.received (h₁.closing hclosing)).trans (h₁.received hclosing)
  admission hclosed := h₂.admission (h₁.admission hclosed)
  shut hclosing := by
    rcases h₂.shut hclosing with hearlier | hshut
    · exact (h₁.shut hearlier).imp_right h₂.admission
    · exact .inr hshut
  created hcreated := h₁.created (h₂.created hcreated)
  failed hfailed := h₂.failed (h₁.failed hfailed)
  dead hdead := h₂.dead (h₁.dead hdead)

/-- The transport closes for good. -/
theorem Life.of_dead (hdead : w.Dead) (hreceived : w.received = v.received)
    (hfailed : v.state = .failed → w.state = .failed) : Life v w where
  closing _ := hdead.state
  received _ := hreceived
  admission _ := hdead.admission
  shut _ := .inr hdead.admission
  created hcreated := by
    have hclosing := hdead.state
    rw [hcreated] at hclosing
    cases hclosing
  failed := hfailed
  dead _ := hdead

/-- A call that takes no receipt. -/
structure Call (first resolved : Prop) (v w : CallView) : Prop extends Life v w where
  receiptStep : ReceiptView.Step v.receipts w.receipts
  creditStep : CreditView.Step first resolved v.credits w.credits

variable {p q : Prop}

theorem Call.refl (v : CallView) : Call p q v v :=
  ⟨.refl v, .keep _, .keep (.refl _)⟩

theorem Call.of_eq (h : w = v) : Call p q v w := by
  subst h
  exact .refl w

/-- The view together with the credits that send calls hold. -/
def hold (v : CallView) (acquired : Nat) : CallView :=
  { v with credits := v.credits.hold acquired }

theorem Life.hold (h : Life v w) (acquired : Nat) : Life (v.hold acquired) (w.hold acquired) :=
  { h with dead := fun hdead => { h.dead { hdead with } with } }

theorem Call.hold (h : Call p q v w) (acquired : Nat) :
    Call p q (v.hold acquired) (w.hold acquired) :=
  ⟨h.toLife.hold acquired, h.receiptStep, h.creditStep.hold acquired⟩

end CallView

namespace EngineMessageState

open CallView (Life Call)
open CreditView (Keeps Step)

def callView (s : EngineMessageState) : CallView where
  state := s.state
  received := s.received
  events := s.events
  receipts := s.receiptView
  credits := s.creditView

section Bookkeeping

variable {s s' : EngineMessageState}

theorem callView_of_withoutSends (h : s'.withoutSends = s.withoutSends)
    (htotal : s'.creditTotal = s.creditTotal) : s'.callView = s.callView :=
  CallView.ext (congrArg (·.state) h) (congrArg (·.received) h) (congrArg (·.events) h)
    (receiptView_of_withoutSends h) (CreditView.ext htotal (congrArg (·.peerRecvCapacity) h)
      (congrArg (·.helloReceiveComplete) h) (congrArg (·.heard) h))

variable (s) (request : Nat)

/-- An update of a request that leaves its credit alone. -/
theorem creditTotal_updateRequest
    {f : EngineSendRequest → EngineSendRequest} (hf : ∀ r, (f r).credit = r.credit) :
    (s.updateRequest request f).creditTotal = s.creditTotal := by
  have hcount : (s.requests.modify request f).countP (·.credit) = s.requests.countP (·.credit) :=
    countP_modify hf _ _
  simp only [creditTotal, updateRequest, hcount]

@[simp] theorem creditTotal_completeRequest (result : Except Error Unit) :
    (s.completeRequest request result).creditTotal = s.creditTotal :=
  s.creditTotal_updateRequest request fun _ => rfl

@[simp] theorem creditTotal_putDataSend (mr : Option Mr) :
    (s.putDataSend mr).creditTotal = s.creditTotal := by
  cases mr <;> rfl

/-- A dropped permit is free again. -/
theorem creditTotal_dropCredit (credit : Bool) :
    (s.dropCredit credit).creditTotal = s.creditTotal + credit.toNat := by
  cases credit with
  | false => rfl
  | true =>
    change s.remoteCredits + 1 + s.requests.countP _ + s.creditsInFlight =
      s.remoteCredits + s.requests.countP _ + s.creditsInFlight + 1
    omega

/-- Starting a request takes its credit from it. -/
theorem creditTotal_startRequest :
    (s.startRequest request).1.creditTotal + (s.startRequest request).2.credit.toNat =
      s.creditTotal := by
  unfold startRequest
  split
  · rfl
  next r hr =>
    split
    · rfl
    next mr hmr =>
      have hcredit : (if r.cancelled then EngineSendRequestAction.cancelled mr r.credit
          else .post mr r.credit r.frameLen).credit = r.credit := by
        split <;> rfl
      have hcount := countP_modify_toNat (p := fun r : EngineSendRequest => r.credit)
        (f := fun r => { r with mr := none, credit := false }) hr
      simp only [Bool.toNat_false, add_zero] at hcount
      simp only [hcredit, creditTotal, updateRequest]
      omega

@[simp] theorem creditTotal_rollbackUnacceptedSend :
    (s.rollbackUnacceptedSend request).creditTotal = s.creditTotal := by
  unfold rollbackUnacceptedSend
  split
  · rfl
  split
  next r _ _ =>
    have hupdate := s.creditTotal_updateRequest request
      (f := fun r => { r with creditCommitted := false }) fun _ => rfl
    simp only
    split
    · exact hupdate
    next hspent =>
      rw [← hupdate]
      have hmove (a b c : Nat) (hc : c ≠ 0) : a + 1 + b + (c - 1) = a + b + c := by omega
      exact hmove _ _ _ hspent
  · rfl

/-- A request that is started and dropped gives its credit back. -/
theorem creditTotal_dropCredit_startRequest {request : Nat}
    {action : EngineSendRequestAction} (h : s.startRequest request = (s', action)) :
    (s'.dropCredit action.credit).creditTotal = s.creditTotal := by
  rw [creditTotal_dropCredit, ← s.creditTotal_startRequest request, h]

@[simp] theorem creditTotal_disposeTerminalEvent (event : EngineMessageEvent) :
    (s.disposeTerminalEvent event).creditTotal = s.creditTotal := by
  cases event with
  | start => rfl
  | repost => rfl
  | sendRequest request =>
    simp only [disposeTerminalEvent]
    rcases hs : s.startRequest request with ⟨s', action⟩
    have hdropped := s.creditTotal_dropCredit_startRequest hs
    cases action with
    | post mr credit frameLen => exact (creditTotal_completeRequest _ _ _).trans hdropped
    | cancelled mr credit => exact (creditTotal_completeRequest _ _ _).trans hdropped
    | alreadyHandled => exact hdropped

theorem callView_queueEvent_of_closing (hclosing : s.state.isClosing = true)
    (event : EngineMessageEvent) : (s.queueEvent event).callView = s.callView := by
  unfold queueEvent
  rw [if_pos hclosing]
  exact callView_of_withoutSends (s.withoutSends_disposeTerminalEvent event)
    (s.creditTotal_disposeTerminalEvent event)

/-- What a rolled back send leaves behind. -/
theorem callView_rollback (proven : Bool) (request : Nat) :
    (if proven then s.rollbackUnacceptedSend request else s).callView = s.callView := by
  cases proven with
  | false => rfl
  | true => exact callView_of_withoutSends (by simp) (by simp)

@[simp] theorem callView_completeRequest (result : Except Error Unit) :
    (s.completeRequest request result).callView = s.callView :=
  callView_of_withoutSends (by simp) (by simp)

@[simp] theorem callView_putDataSend (mr : Option Mr) : (s.putDataSend mr).callView = s.callView :=
  callView_of_withoutSends (by simp) (by simp)

theorem callView_disposeCompletion (c : IoCompletionEvent) :
    (s.disposeIoEvent (.completion c)).callView = s.callView := by
  simp only [disposeIoEvent]
  cases c.context with
  | send => rw [callView_completeRequest, callView_rollback]
  | helloSend | receive | controlSend => rfl

end Bookkeeping

section Dispose

variable (s : EngineMessageState)

theorem withoutSends_disposeEvents : s.disposeEvents.withoutSends =
    { s with events := [], admissionOpen := false, admissionPending := [] }.withoutSends :=
  congrArg discardPendingProtocol
    (withoutSends_foldl_disposeTerminalEvent { s with events := [] } s.events)

theorem creditTotal_disposeEvents : s.disposeEvents.creditTotal = s.creditTotal := by
  have hfold (events : List EngineMessageEvent) (s : EngineMessageState) :
      (events.foldl disposeTerminalEvent s).creditTotal = s.creditTotal := by
    induction events generalizing s with
    | nil => rfl
    | cons _ _ ih => rw [foldl_cons, ih, creditTotal_disposeTerminalEvent]
  exact hfold s.events { s with events := [] }

theorem creditView_disposeEvents : s.disposeEvents.creditView = s.creditView :=
  congrArg CallView.credits
    (callView_of_withoutSends s.withoutSends_disposeEvents s.creditTotal_disposeEvents)

theorem receiptView_disposeEvents : s.disposeEvents.receiptView =
      { s.receiptView with admissionOpen := false, pending := [] } :=
  receiptView_of_withoutSends s.withoutSends_disposeEvents

/-- A disposed receipt takes the oldest transition with it. -/
theorem withoutSends_foldl_disposeIoEvent (events : List IoEvent) :
    (events.foldl disposeIoEvent s).withoutSends =
      { s with
        pendingProtocolTransitions :=
          s.pendingProtocolTransitions.drop (receiptIds events).length }.withoutSends := by
  induction events generalizing s with
  | nil => rfl
  | cons event events ih =>
    rw [foldl_cons, ih]
    cases event with
    | submission => simp [disposeIoEvent, withoutSends]
    | terminal => rfl
    | completion c =>
      exact congrArg (fun t : EngineMessageState => { t with
        pendingProtocolTransitions :=
          t.pendingProtocolTransitions.drop (receiptIds events).length })
        (s.withoutSends_disposeIoEvent c)

theorem creditTotal_foldl_disposeIoEvent (events : List IoEvent) :
    (events.foldl disposeIoEvent s).creditTotal = s.creditTotal := by
  induction events generalizing s with
  | nil => rfl
  | cons event _ ih =>
    rw [foldl_cons, ih]
    cases event with
    | submission => rfl
    | terminal => rfl
    | completion c => exact congrArg (·.credits.total) (s.callView_disposeCompletion c)

theorem withoutSends_drainClosing : s.drainClosing.withoutSends =
    { s with
      events := []
      admissionOpen := false
      admissionPending := []
      port := { isOpen := false, events := [] }
      pendingProtocolTransitions :=
        s.pendingProtocolTransitions.drop (receiptIds s.port.events).length }.withoutSends := by
  have hdisposed := s.withoutSends_disposeEvents
  have hport : s.disposeEvents.port = s.port := congrArg (·.port) hdisposed
  rw [drainClosing, withoutSends_foldl_disposeIoEvent, hport]
  exact congrArg (fun t : EngineMessageState => { t with
    port := { isOpen := false, events := [] }
    pendingProtocolTransitions :=
      t.pendingProtocolTransitions.drop (receiptIds s.port.events).length }) hdisposed

theorem creditTotal_drainClosing : s.drainClosing.creditTotal = s.creditTotal :=
  (creditTotal_foldl_disposeIoEvent
    { s.disposeEvents with port := { isOpen := false, events := [] } } _).trans
    s.creditTotal_disposeEvents

theorem receiptView_drainClosing : s.drainClosing.receiptView = s.receiptView.shut := by
  rw [receiptView_of_withoutSends s.withoutSends_drainClosing]
  simp [receiptView, ReceiptView.shut]

theorem keeps_drainClosing : Keeps s.creditView s.drainClosing.creditView := by
  have hdrained := s.withoutSends_drainClosing
  refine ⟨s.creditTotal_drainClosing, congrArg (·.peerRecvCapacity) hdrained,
    congrArg (·.helloReceiveComplete) hdrained, ?_⟩
  have hheard : s.drainClosing.heard = (s.pendingProtocolTransitions.drop
      (receiptIds s.port.events).length).flatMap (·.2.heard) :=
    congrArg (·.heard) hdrained
  refine ⟨(s.pendingProtocolTransitions.take
    (receiptIds s.port.events).length).flatMap (·.2.heard), ?_⟩
  change _ ++ s.drainClosing.heard = s.heard
  rw [hheard, ← flatMap_append, take_append_drop]
  rfl

theorem dead_drainClosing (hclosing : s.state.isClosing = true) : s.drainClosing.callView.Dead := by
  have hdrained := s.withoutSends_drainClosing
  have hreceipts := s.receiptView_drainClosing
  refine ⟨?_, congrArg (·.admissionOpen) hreceipts, congrArg (·.pending) hreceipts,
    congrArg (·.events) hdrained⟩
  exact (congrArg (·.state.isClosing) hdrained).trans hclosing

variable {p q : Prop} {v : CallView}

/-- A transport in a closing state is drained; `v` is its view before. -/
theorem call_drainClosing (hview : { s.callView with state := v.state } = v)
    (hclosing : s.state.isClosing = true) (hfailed : v.state = .failed → s.state = .failed) :
    Call p q v s.drainClosing.callView := by
  have hdrained := s.withoutSends_drainClosing
  rw [← hview]
  refine ⟨.of_dead (s.dead_drainClosing hclosing) (congrArg (·.received) hdrained) ?_, ?_,
    .keep s.keeps_drainClosing⟩
  · exact fun hv => (congrArg (·.state) hdrained).trans (hfailed hv)
  · change ReceiptView.Step s.receiptView s.drainClosing.receiptView
    rw [receiptView_drainClosing]
    exact .shut _

end Dispose

section Walk

variable (s : EngineMessageState) {p q : Prop}

theorem call_fail (error : Error) (closeConnection : Bool) :
    Call p q s.callView (s.fail error closeConnection).callView := by
  have hfailed : Call p q s.callView (s.enterFailed error).callView :=
    call_drainClosing _ rfl rfl fun _ => rfl
  unfold fail
  split
  · exact .refl _
  · exact .refl _
  all_goals exact hfailed

theorem call_finishClose (result : Except Error Unit) :
    Call p q s.callView (s.finishClose result).callView := by
  cases result with
  | error error => exact s.call_fail error false
  | ok =>
    apply call_drainClosing
    · rfl
    · dsimp only [closePools]
      cases s.state <;> rfl
    · intro hfailed
      change s.state = .failed at hfailed
      simp [closePools, hfailed]

theorem creditView_tryMarkReady : s.tryMarkReady.creditView = s.creditView := by
  unfold tryMarkReady
  split <;> rfl

theorem call_tryMarkReady : Call p q s.callView s.tryMarkReady.callView := by
  unfold tryMarkReady
  split
  next hready =>
    have hstate : s.callView.state = .created := by simp_all [callView]
    refine ⟨⟨?_, fun _ => rfl, id, nofun, nofun, ?_, fun hdead => ?_⟩, .keep _, .keep (.refl _)⟩
    · rw [hstate]
      nofun
    · rw [hstate]
      nofun
    · have hclosing := hdead.state
      rw [hstate] at hclosing
      cases hclosing
  · exact .refl _

theorem call_failPotential (disposition : IoSubmissionDisposition) :
    Call p q s.callView (s.failPotential disposition).callView := by
  unfold failPotential
  split
  · exact s.call_fail _ _
  · exact .refl _

variable (transition : PendingProtocolTransition)

/-- Only the accepted repost of a HELLO changes the credits. -/
theorem call_applyProtocolDisposition (disposition : IoSubmissionDisposition)
    (h : transition.heard = [] ∨ disposition.isAllAccepted = false) :
    Call p q s.callView (s.applyProtocolDisposition transition disposition).callView := by
  have hfail := s.call_failPotential (p := p) (q := q) disposition
  unfold applyProtocolDisposition
  cases transition with
  | receive | send | helloSend =>
    simp only
    split
    · exact .refl _
    · exact hfail
  | controlSend =>
    simp only
    split
    · exact .refl _
    split
    · exact hfail
    split <;> exact .refl _
  | helloReceiveRepost peerCapacity =>
    have haccepted : disposition.isAllAccepted = false := h.resolve_left nofun
    simp only [haccepted]
    exact hfail

/-- An unaccepted command only gives back the credits it carried. -/
theorem applyProtocolDisposition_unaccepted
    (error : Error) : s.applyProtocolDisposition transition (.fullyUnaccepted 1 error) =
      { s with
        pendingCreditReturns := s.pendingCreditReturns + transition.restored s.state } := by
  cases transition with
  | controlSend =>
    simp only [applyProtocolDisposition, IoSubmissionDisposition.isAllAccepted,
      IoSubmissionDisposition.potentiallyAccepted, Bool.false_eq_true, if_false,
      PendingProtocolTransition.restored]
    split <;> rfl
  | receive returnCredit => rfl
  | send => rfl
  | helloSend => rfl
  | helloReceiveRepost capacity => rfl

variable {s} in
theorem submitTracked_granted (hopen : s.admissionOpen = true) (batch : ProtocolBatch)
    (transition : PendingProtocolTransition) : s.submitTracked batch transition none =
      { s with
        nextCommand := s.nextCommand + 1
        admissionPending := s.admissionPending ++ [{ id := s.nextCommand, batch }]
        pendingProtocolTransitions :=
          s.pendingProtocolTransitions ++ [(s.nextCommand, transition)] } := by
  simp [submitTracked, submitProtocol, hopen, trackProtocolDisposition]

/-- A submission is recorded with its transition, or refused at once. -/
theorem submitTracked_cases (batch : ProtocolBatch) (transition : PendingProtocolTransition)
    (refusal : Option Error) : s.admissionOpen = true ∧ refusal = none ∨
      ∃ error, s.submitTracked batch transition refusal =
        { s with
          nextCommand := s.nextCommand + 1
          port := s.port.send [ProtocolCommand.unaccepted ⟨s.nextCommand, batch⟩ error]
          pendingCreditReturns := s.pendingCreditReturns + transition.restored s.state } := by
  cases hopen : s.admissionOpen with
  | false =>
    refine .inr ⟨.transportClosed, ?_⟩
    simp [submitTracked, submitProtocol, trackProtocolDisposition, hopen,
      applyProtocolDisposition_unaccepted]
  | true =>
    cases refusal with
    | none => exact .inl ⟨rfl, rfl⟩
    | some error =>
      refine .inr ⟨error, ?_⟩
      simp [submitTracked, submitProtocol, trackProtocolDisposition, hopen,
        applyProtocolDisposition_unaccepted]

theorem call_submitTracked (batch : ProtocolBatch) (transition : PendingProtocolTransition)
    (refusal : Option Error) (hheard : ∀ capacity, transition = .helloReceiveRepost capacity → p) :
    Call p q s.callView (s.submitTracked batch transition refusal).callView := by
  rcases s.submitTracked_cases batch transition refusal with ⟨hopen, rfl⟩ | ⟨error, heq⟩
  · rw [submitTracked_granted hopen]
    refine ⟨.of_keep rfl rfl rfl fun hdead => ?_, ?_, ?_⟩
    · cases hopen.symm.trans hdead.admission
    · have hsubmit := ReceiptView.Step.submit s.receiptView s.nextCommand hopen
      simpa [callView, receiptView, ReceiptView.submit] using hsubmit
    · have hview : creditView { s with
          nextCommand := s.nextCommand + 1
          admissionPending := s.admissionPending ++ [{ id := s.nextCommand, batch }]
          pendingProtocolTransitions :=
            s.pendingProtocolTransitions ++ [(s.nextCommand, transition)] } =
          { s.creditView with heard := s.heard ++ transition.heard } := by
        ext1
        case heard => simp [creditView, heard]
        all_goals rfl
      change Step p q s.creditView (creditView _)
      rw [hview]
      cases transition with
      | helloReceiveRepost capacity => exact .hear capacity (hheard capacity rfl)
      | receive | send | controlSend | helloSend =>
        rw [PendingProtocolTransition.heard, append_nil]
        exact .keep (.refl _)
  · rw [heq]
    refine .of_eq (CallView.ext rfl rfl rfl ?_ rfl)
    cases hopen : s.port.isOpen <;>
      simp [callView, receiptView, IoEventPort.send, hopen, ProtocolCommand.unaccepted]

/-- The event is a HELLO that a CREATED transport can take. -/
def takesHello (s : EngineMessageState) : IoEvent → Bool
  | .completion c =>
    c.context == .receive && s.state == .created &&
      match c.result, c.mr with
      | .ok len, some mr => (s.parseHelloReceive len mr).isOk
      | _, _ => false
  | .submission _ _ | .terminal _ => false

variable {c : IoCompletionEvent} {out : Option ProtocolCommand}

theorem call_processHelloReceive (hcontext : c.context = .receive)
    (hcreated : s.state = .created) (refusal : Option Error) :
    Call (s.takesHello (.completion c) = true ∧ s.helloReceiveComplete = false) q
      s.callView (s.processHelloReceive c.result c.mr refusal).callView := by
  unfold processHelloReceive
  split
  · exact s.call_fail _ _
  · exact s.call_fail _ _
  next hresult hmr =>
    split
    · exact s.call_fail _ _
    next hparse =>
      split
      · exact s.call_fail _ _
      next hfirst =>
        refine s.call_submitTracked _ _ _ fun _ _ => ⟨?_, by simpa using hfirst⟩
        simp [takesHello, hcontext, hcreated, hresult, hmr, hparse, Except.isOk, Except.toBool]

theorem creditTotal_validateAndAddCredits {s' : EngineMessageState} {credits : Nat}
    (h : s.validateAndAddCredits credits = .ok s') : s'.creditTotal = s.creditTotal := by
  obtain ⟨-, hspent, -, rfl⟩ := validateAndAddCredits_eq_ok h
  have hmove (a b c : Nat) (hc : credits ≤ c) :
      a + credits + b + (c - credits) = a + b + c := by omega
  exact hmove _ _ _ hspent

/-- A frame is taken in the ready state only. -/
theorem call_processFrame (hready : s.state = .ready) (receivedLen : Nat) (mr : Mr)
    (refusal : Option Error) :
    Call p q s.callView (s.processFrame receivedLen mr refusal).callView := by
  have hlive : s.callView.state.isClosing = false := congrArg (·.isClosing) hready
  unfold processFrame
  split
  · exact s.call_fail _ _
  split
  · exact s.call_fail _ _
  split
  · split
    · exact s.call_fail _ _
    · refine ⟨⟨id, ?_, id, .inl, id, id, fun hdead => ?_⟩, .keep _, .keep (.refl _)⟩
      · rw [hlive]
        nofun
      · exact { hdead with }
  split
  · split
    · exact s.call_fail _ _
    split
    · exact s.call_fail _ _
    next credited hcredits =>
      have hview : credited.callView = s.callView := by
        refine callView_of_withoutSends ?_ (s.creditTotal_validateAndAddCredits hcredits)
        obtain ⟨-, -, -, rfl⟩ := validateAndAddCredits_eq_ok hcredits
        rfl
      exact hview ▸ credited.call_submitTracked _ _ _ nofun
  · exact s.call_fail _ _

theorem call_processReceive (hcontext : c.context = .receive) (refusal : Option Error) :
    Call (s.takesHello (.completion c) = true ∧ s.helloReceiveComplete = false) q
      s.callView (s.processReceive c.result c.mr refusal).callView := by
  unfold processReceive
  split
  next hcreated => exact s.call_processHelloReceive hcontext hcreated refusal
  next hready =>
    split
    · exact s.call_fail _ _
    · exact s.call_fail _ _
    · exact s.call_processFrame hready _ _ refusal
  all_goals exact .refl _

theorem call_processSendCompletion (request : Nat) (event : IoCompletionEvent) :
    Call p q s.callView (s.processSendCompletion request event).callView := by
  have hrollback := s.callView_rollback event.provenUnaccepted request
  unfold processSendCompletion
  generalize (if event.provenUnaccepted then s.rollbackUnacceptedSend request
    else s) = s₁ at hrollback ⊢
  rw [← hrollback]
  cases event.result with
  | ok => exact .of_eq (by simp)
  | error error =>
    simp only
    split
    · have hview : ((s₁.putDataSend event.mr).completeRequest request
          (.error (normalizeCompletionError error))).callView = s₁.callView := by simp
      exact hview ▸ call_fail _ _ _
    · exact .of_eq (by simp)

theorem call_processIoCompletion (c : IoCompletionEvent) (refusal : Option Error) :
    Call (s.takesHello (.completion c) = true ∧ s.helloReceiveComplete = false) q
      s.callView (s.processIoCompletion c refusal).callView := by
  unfold processIoCompletion
  cases hcontext : c.context with
  | receive => exact s.call_processReceive hcontext refusal
  | helloSend =>
    cases c.result with
    | error => exact s.call_fail _ _
    | ok =>
      simp only
      split
      · exact s.call_fail _ _
      · exact call_tryMarkReady { s with helloSendComplete := true }
  | send request =>
    simp only
    split
    · refine .of_eq ?_
      rw [callView_completeRequest, callView_putDataSend, callView_rollback]
    · exact s.call_processSendCompletion request c
  | controlSend =>
    cases c.mr with
    | none => exact s.call_fail _ _
    | some mr =>
      cases c.result with
      | ok => exact .refl _
      | error =>
        simp only
        split
        · exact call_fail { s with controlSends := s.controlSends.put mr } _ _
        · exact .refl _

/-- An event that is not a receipt leaves the recorded transitions alone. -/
theorem call_processIoEvent {event : IoEvent} (hevent : event.receipt = none)
    (refusal : Option Error) : Call (s.takesHello event = true ∧ s.helloReceiveComplete = false) q
      s.callView (s.processIoEvent event refusal).callView := by
  cases event with
  | submission => cases hevent
  | terminal event =>
    cases event with
    | disconnected => exact s.call_fail _ _
    | terminal error => exact s.call_fail _ _
    | closed result => exact s.call_finishClose result
  | completion c =>
    simp only [processIoEvent]
    split
    · exact .of_eq (s.callView_disposeCompletion c)
    · exact s.call_processIoCompletion c refusal

/-- A receipt resolves the oldest transition; that of a HELLO grants its
capacity. -/
structure Resolves (recorded id : Nat) (rest : List (Nat × PendingProtocolTransition))
    (s' : EngineMessageState) : Prop where
  life : Life s.callView s'.callView
  receipts : ReceiptView.Step
    { s.receiptView with
      transitions := rest.map Prod.fst
      applied := s.applied ++ [(recorded, id)] } s'.receiptView
  credits : Step False True s.creditView s'.creditView

theorem resolves_submission {recorded : Nat} {transition : PendingProtocolTransition}
    {rest : List (Nat × PendingProtocolTransition)}
    (htransitions : s.pendingProtocolTransitions = (recorded, transition) :: rest) (id : Nat)
    (disposition : IoSubmissionDisposition) (refusal : Option Error) : Resolves s recorded id rest
      (s.processIoEvent (.submission id disposition) refusal) := by
  have hheard : s.creditView.heard = transition.heard ++ rest.flatMap (·.2.heard) := by
    rw [creditView, heard, htransitions, flatMap_cons]
  simp only [processIoEvent, htransitions]
  by_cases h : transition.heard = [] ∨ disposition.isAllAccepted = false
  · have hcall : Call False False _ _ := call_applyProtocolDisposition
      { s with
        pendingProtocolTransitions := rest
        applied := s.applied ++ [(recorded, id)] } transition disposition h
    refine ⟨Life.trans ?_ hcall.toLife, hcall.receiptStep, .keep ?_⟩
    · exact .of_keep rfl rfl rfl fun hdead => { hdead with }
    · have hkeeps := hcall.creditStep.keeps
      refine ⟨hkeeps.total, hkeeps.limit, hkeeps.granted, hkeeps.heard.trans ?_⟩
      rw [hheard]
      exact suffix_append _ _
  · obtain ⟨capacity, rfl⟩ : ∃ capacity, transition = .helloReceiveRepost capacity := by
      cases transition <;> simp_all
    have haccepted : disposition.isAllAccepted = true := by simp_all
    have hcall : Call False False _ _ := call_tryMarkReady
      { s with
        pendingProtocolTransitions := rest
        applied := s.applied ++ [(recorded, id)]
        peerRecvCapacity := capacity
        remoteCredits := s.remoteCredits + capacity
        helloReceiveComplete := true }
    simp only [applyProtocolDisposition, haccepted, if_true]
    refine ⟨Life.trans ?_ hcall.toLife, hcall.receiptStep, ?_⟩
    · exact .of_keep rfl rfl rfl fun hdead => { hdead with }
    · have hgrant : (tryMarkReady { s with
          pendingProtocolTransitions := rest
          applied := s.applied ++ [(recorded, id)]
          peerRecvCapacity := capacity
          remoteCredits := s.remoteCredits + capacity
          helloReceiveComplete := true }).creditView =
          { total := s.creditTotal + capacity, limit := capacity, granted := true
            heard := rest.flatMap (·.2.heard) } := by
        rw [creditView_tryMarkReady]
        refine CreditView.ext ?_ rfl rfl rfl
        have hmove (a b c : Nat) : a + capacity + b + c = a + b + c + capacity := by omega
        exact hmove _ _ _
      rw [hgrant]
      exact .grant hheard trivial

/-- What every event of the port can do, receipts included. -/
theorem life_processIoEvent (event : IoEvent) (refusal : Option Error) :
    Life s.callView (s.processIoEvent event refusal).callView ∧
      Step (s.takesHello event = true ∧ s.helloReceiveComplete = false) True
        s.creditView (s.processIoEvent event refusal).creditView := by
  have hcall (hevent : event.receipt = none) := s.call_processIoEvent (q := True) hevent refusal
  cases event with
  | completion | terminal => exact ⟨(hcall rfl).toLife, (hcall rfl).creditStep⟩
  | submission id disposition =>
    cases htransitions : s.pendingProtocolTransitions with
    | nil =>
      have hfail := s.call_fail (p := False) (q := False)
        (.invalidConfig "protocol submission receipt has no pending transition") true
      simp only [processIoEvent, htransitions]
      exact ⟨hfail.toLife, hfail.creditStep.imp nofun nofun⟩
    | cons =>
      have hresolves := s.resolves_submission htransitions id disposition refusal
      exact ⟨hresolves.life, hresolves.credits.imp nofun fun _ => trivial⟩

theorem life_foldl_processIoEvent (events : List IoEvent) : Life s.callView (events.foldl
      (fun (s : EngineMessageState) event => s.processIoEvent event none) s).callView := by
  induction events generalizing s with
  | nil => exact .refl _
  | cons event events ih => exact (s.life_processIoEvent event none).1.trans (ih _)

theorem dead_enterClosing : s.enterClosing.callView.Dead := by
  refine ⟨?_, rfl, rfl, congrArg (·.events) (withoutSends_disposeEvents _)⟩
  have hstate : s.enterClosing.state = if !s.state.isClosing then .closing else s.state :=
    congrArg (·.state) (withoutSends_disposeEvents _)
  change s.enterClosing.state.isClosing = true
  rw [hstate]
  cases s.state <;> rfl

theorem enterClosing_received : s.enterClosing.received = s.received :=
  congrArg (·.received) (withoutSends_disposeEvents _)

theorem life_enterClosing_beginClose : Life s.enterClosing.callView s.beginClose.callView := by
  refine Life.trans ?_ (life_foldl_processIoEvent
    { s.enterClosing with port := { s.enterClosing.port with events := [] } }
    s.enterClosing.port.events)
  exact .of_keep rfl rfl rfl fun hdead => { hdead with }

theorem life_beginClose : Life s.callView s.beginClose.callView := by
  refine Life.trans (.of_dead s.dead_enterClosing s.enterClosing_received fun hfailed => ?_)
    s.life_enterClosing_beginClose
  have hstate : s.enterClosing.state = if !s.state.isClosing then .closing else s.state :=
    congrArg (·.state) (withoutSends_disposeEvents _)
  exact hstate.trans (by rw [show s.state = .failed from hfailed]; rfl)

theorem call_processSendRequest (request : Nat) (refusal : Option Error) :
    Call p q s.callView (s.processSendRequest request refusal).callView := by
  have hstart := s.withoutSends_startRequest request
  unfold processSendRequest
  rcases hs : s.startRequest request with ⟨s', action⟩
  have hdropped := s.creditTotal_dropCredit_startRequest hs
  rw [hs] at hstart
  cases action with
  | alreadyHandled => exact .of_eq (callView_of_withoutSends hstart hdropped)
  | cancelled mr credit =>
    refine .of_eq ((callView_putDataSend _ _).trans (callView_of_withoutSends ?_ hdropped))
    simpa using hstart
  | post mr credit frameLen =>
    simp only
    split
    · have hview : (if credit then
          { s' with creditsInFlight := s'.creditsInFlight + 1 }.updateRequest request
            fun r => { r with creditCommitted := true }
          else s').callView = s.callView := by
        apply callView_of_withoutSends
        · rw [← hstart]
          split <;> rfl
        · rw [← hdropped, creditTotal_dropCredit]
          cases credit with
          | false => rfl
          | true =>
            exact creditTotal_updateRequest
              { s' with creditsInFlight := s'.creditsInFlight + 1 } request
              (f := fun r => { r with creditCommitted := true }) fun _ => rfl
      exact hview ▸ call_submitTracked _ _ _ _ nofun
    · refine .of_eq ?_
      rw [callView_completeRequest, callView_putDataSend]
      exact callView_of_withoutSends (by simpa using hstart) hdropped

theorem call_processEvent (event : EngineMessageEvent) (refusal : Option Error) :
    Call p q s.callView (s.processEvent event refusal).callView := by
  cases event with
  | sendRequest request => exact s.call_processSendRequest request refusal
  | repost =>
    simp only [processEvent, processRepost]
    split
    · exact s.call_submitTracked _ _ _ nofun
    · exact .refl _
  | start =>
    simp only [processEvent, startHelloSend]
    split
    · exact .refl _
    split
    · exact call_fail { s with helloSendPosted := true } _ _
    · exact call_submitTracked { s with helloSendPosted := true, helloSend := none } _ _ _
        nofun

theorem call_queueEvent (event : EngineMessageEvent) :
    Call p q s.callView (s.queueEvent event).callView := by
  cases hclosing : s.state.isClosing with
  | true => exact .of_eq (s.callView_queueEvent_of_closing hclosing event)
  | false =>
    simp only [queueEvent, hclosing, Bool.false_eq_true, if_false]
    refine ⟨.of_keep rfl rfl rfl fun hdead => ?_, .keep _, .keep (.refl _)⟩
    cases hclosing.symm.trans hdead.state

variable {s} {s' : EngineMessageState}

theorem call_flushOneCredit {refusal : Option Error}
    (h : s.flushOneCredit refusal = some s') : Call p q s.callView s'.callView := by
  unfold flushOneCredit at h
  split at h
  · cases h
  split at h
  · cases h
  next entries _ =>
    cases h
    exact call_submitTracked { s with
      controlSends := { s.controlSends with entries }
      pendingCreditReturns :=
        s.pendingCreditReturns - claimPendingCreditReturns s.pendingCreditReturns } _ _ _ nofun

theorem life_pollAdmission {permit : PermitPoll} (h : s.pollAdmission permit = some (s', out)) :
    Life s.callView s'.callView ∧ s'.creditView = s.creditView := by
  obtain ⟨_, _, hpending, hpolled⟩ := pollAdmission_cases h
  have hdead (hdead : s.callView.Dead) : s'.callView.Dead := by
    have hnone := hdead.pending
    simp [callView, receiptView, hpending] at hnone
  cases hpolled with
  | lost | cancelled | rejected | granted => exact ⟨.of_keep rfl rfl rfl hdead, rfl⟩

theorem life_iteration {env : DriveEnv}
    (h : MessageTransportDriver.Iteration s env s' out) : Life s.callView s'.callView := by
  cases h with
  | admission _ hpoll => exact (life_pollAdmission hpoll).1
  | credit hflush => exact (call_flushOneCredit (p := False) (q := False) hflush).toLife
  | @protocol event events hevents =>
    have hcall : Call False False _ _ :=
      call_processEvent { s with events } event env.refusal
    refine Life.trans ?_ hcall.toLife
    refine .of_keep rfl rfl rfl fun hdead => ?_
    cases hevents.symm.trans hdead.events
  | @io event events =>
    have hlife := life_processIoEvent { s with port := { s.port with events } } event env.refusal
    refine Life.trans ?_ hlife.1
    exact .of_keep rfl rfl rfl fun hdead => { hdead with }

end Walk

end EngineMessageState

/-- The step is at most one call of the transport. -/
def NodeLabel.isCall : NodeLabel → Bool
  | drive _ | close | recv | publish => false
  | _ => true

namespace MessageNode

open CallView (Life Call)
open EngineMessageState

def callView (n : MessageNode) : CallView :=
  n.msg.callView.hold n.acquired

variable {n n' : MessageNode} {l : NodeLabel}

theorem call_step (hcall : l.isCall = true) (hstep : n.step l = some n') :
    Call False False n.callView n'.callView := by
  cases l with
  | drive | close | recv | publish => cases hcall
  | finishClose result =>
    exact Option.some.inj hstep ▸ (n.msg.call_finishClose result).hold n.acquired
  | driverDrop => exact Option.some.inj hstep ▸ (n.msg.call_fail _ _).hold n.acquired
  | deadline =>
    cases hstep
    change Call _ _ _ (n.msg.deadlineExpired.callView.hold n.acquired)
    unfold deadlineExpired
    split
    · exact (n.msg.call_fail _ _).hold n.acquired
    · exact .refl _
  | sendCancel request =>
    cases hstep
    refine .of_eq (congrArg (CallView.hold · n.acquired) (callView_of_withoutSends rfl ?_))
    exact n.msg.creditTotal_updateRequest request fun _ => rfl
  | sendAcquire =>
    obtain ⟨hfree, rfl⟩ := Machine.of_guard hstep
    refine .of_eq (CallView.ext rfl rfl rfl rfl (CreditView.ext ?_ rfl rfl rfl))
    have hmove (a b c d : Nat) (hb : 0 < b) : a + 1 + (b - 1 + c + d) = a + (b + c + d) := by omega
    exact hmove _ _ _ _ hfree.2.2
  | sendAbandon =>
    obtain ⟨hheld, rfl⟩ := Machine.of_guard hstep
    refine .of_eq (CallView.ext rfl rfl rfl rfl (CreditView.ext ?_ rfl rfl rfl))
    have hmove (a b c d : Nat) (ha : 0 < a) : a - 1 + (b + 1 + c + d) = a + (b + c + d) := by omega
    exact hmove _ _ _ _ hheld
  | sendEnqueue data =>
    simp only [step, sendEnqueue] at hstep
    split at hstep
    · cases hstep
    split at hstep
    next mr entries _ _ =>
      cases hstep
      let request : EngineSendRequest :=
        { mr := some { mr with content := writeDataFrame data }, credit := true
          frameLen := (writeDataFrame data).length, output := none, cancelled := false
          creditCommitted := false }
      let taken : EngineMessageState :=
        { n.msg with
          dataSends := { n.msg.dataSends with entries }
          requests := n.msg.requests ++ [request] }
      have hview : taken.callView.hold (n.acquired - 1) = n.callView := by
        refine CallView.ext rfl rfl rfl rfl (CreditView.ext ?_ rfl rfl rfl)
        change n.acquired - 1 + (n.msg.remoteCredits + (n.msg.requests ++ [request]).countP _ +
          n.msg.creditsInFlight) = n.acquired + (n.msg.remoteCredits + n.msg.requests.countP _ +
            n.msg.creditsInFlight)
        rw [countP_append, countP_singleton, if_pos rfl]
        omega
      exact hview ▸ (taken.call_queueEvent _).hold (n.acquired - 1)
    · cases hstep
  | dropMessage =>
    simp only [step, dropMessage] at hstep
    split at hstep
    · cases hstep
    · exact Option.some.inj hstep ▸ (n.msg.call_queueEvent _).hold n.acquired
  | service =>
    cases service_serviced hstep with
    | publication => exact .refl _
    | command _ hserved =>
      cases hserved with
      | posted =>
        change Call _ _ _ (post _ _).callView
        unfold post
        split <;> exact .refl _
      | lost | cancelled | rejected => exact .refl _
  | transmit =>
    obtain ⟨⟨_, _⟩, hsent, rfl⟩ := Option.map_eq_some_iff.mp hstep
    unfold transmit at hsent
    split at hsent <;> cases hsent
    exact .refl _
  | arrive | complete | reap | dispatch | terminate =>
    simp only [step, arrive, complete, reap, dispatch] at hstep
    repeat' split at hstep
    all_goals cases hstep
    all_goals exact .refl _

/-- The driver and the reactor's service apart, a step adds no receipt to the turn
and no entry to the queue. -/
theorem turn_step (hstep : n.step l = some n') :
    match l with
    | .drive _ | .service _ _ _ | .publish => True
    | _ => receiptIds n'.turn = receiptIds n.turn ∧ n'.queue = n.queue := by
  cases l with
  | drive | service | publish => trivial
  | transmit =>
    obtain ⟨⟨_, _⟩, hsent, rfl⟩ := Option.map_eq_some_iff.mp hstep
    unfold transmit at hsent
    split at hsent <;> cases hsent
    exact ⟨rfl, rfl⟩
  | dispatch =>
    simp only [step, dispatch] at hstep
    split at hstep <;> cases hstep
    exact ⟨by simp, rfl⟩
  | terminate =>
    cases hstep
    exact ⟨by simp [terminate], rfl⟩
  | _ =>
    simp only [step, sendAcquire, sendAbandon, sendEnqueue, recv, dropMessage,
      arrive, complete, reap] at hstep
    repeat' split at hstep
    all_goals cases hstep
    all_goals exact ⟨rfl, rfl⟩

/-- A step of the endpoint, apart from `recv`, undoes nothing. -/
theorem life_step (hrecv : l ≠ .recv) (hstep : n.step l = some n') :
    Life n.msg.callView n'.msg.callView := by
  have hcalled (hcall : l.isCall = true) : Life n.msg.callView n'.msg.callView := by
    have hlife := (call_step hcall hstep).toLife
    exact { hlife with dead := fun hdead => { hlife.dead { hdead with } with } }
  cases l with
  | recv => exact absurd rfl hrecv
  | close => exact Option.some.inj hstep ▸ n.msg.life_beginClose
  | publish =>
    cases hstep
    exact .of_keep rfl rfl rfl fun hdead => { hdead with }
  | drive =>
    obtain ⟨driver, out, hiteration, rfl⟩ := drive_eq_some hstep
    exact life_iteration hiteration
  | _ => exact hcalled rfl

end MessageNode

end RdmaIo.Message
