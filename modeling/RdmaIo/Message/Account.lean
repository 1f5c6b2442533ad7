/-
The accounts of a live endpoint: where its credits and buffers are.

Each account is one equation between what the transport keeps, the load of the
commands and events on their way, and what the endpoint has posted, reposted and
taken.  An action of the transport moves amounts within its accounts.
-/
import RdmaIo.Message.Credits
import RdmaIo.Message.Load

namespace RdmaIo.Message

open IoEvent
open Load
open EngineMessageState (claimPendingCreditReturns)
open ProtocolCommand (unaccepted context cancelled mr)
open ProtocolBatch (receives posts)
open List

/-- The buffer holds a frame of the type. -/
def Mr.holds (mr : Mr) (frameType : Nat) : Bool :=
  byteAt mr.content 5 == frameType

/-- The credits that a send gives back. -/
def PostedSend.credits (send : PostedSend) : Nat :=
  match send.context with
  | .controlSend => fromLeBytes ((send.bytes.drop headerSize).take 4)
  | .helloSend | .receive | .send _ => 0

/-- The operation sends a frame of the type. -/
def MessageIoContext.carries (frameType : Nat) : MessageIoContext → Bool
  | send _ => frameType == frameData
  | controlSend => frameType == frameCredit
  | helloSend => frameType == frameHello
  | receive => false

/-- The provider may have accepted the command. -/
def IoSubmissionDisposition.possible (d : IoSubmissionDisposition) : Bool :=
  d.isAllAccepted || d.potentiallyAccepted

open IoSubmissionDisposition (possible fullyUnaccepted error potentiallyAccepted
  isAllAccepted)

namespace PendingProtocolTransition

/-- Credits that the receipt will give back. -/
def returning (d : IoSubmissionDisposition) : PendingProtocolTransition → Nat
  | receive returnCredit => (d.possible && returnCredit).toNat
  | controlSend credits => if d.possible then 0 else credits
  | send | helloSend | helloReceiveRepost _ => 0

/-- The receipt will grant the credits of the peer. -/
def granting (d : IoSubmissionDisposition) : PendingProtocolTransition → Nat
  | helloReceiveRepost _ => d.possible.toNat
  | receive _ | send | controlSend _ | helloSend => 0

/-- The transition recorded for a command. -/
inductive Matches : PendingProtocolTransition → ProtocolBatch → Prop
  | data {mr : Mr} (hmr : mr.holds frameData = true) : Matches (.receive true) (.recv mr)
  | credit {mr : Mr} (hmr : mr.holds frameCredit = true) :
      Matches (.receive false) (.recv mr)
  | hello {mr : Mr} {capacity : Nat} (hmr : mr.holds frameHello = true) :
      Matches (.helloReceiveRepost capacity) (.recv mr)
  | send {mr : Mr} {len request : Nat} : Matches .send (.send mr len (.send request))
  | control {mr : Mr} {len credits : Nat}
      (hcredits : PostedSend.credits ⟨mr, len, .controlSend⟩ = credits) :
      Matches (.controlSend credits) (.send mr len .controlSend)
  | announce {mr : Mr} {len : Nat} : Matches .helloSend (.send mr len .helloSend)

end PendingProtocolTransition

open PendingProtocolTransition (returning granting settled restored controlSend heard)
open PendingProtocolTransition (Matches)

variable {mr : Mr}

/-- A buffer holds one frame. -/
theorem Mr.holds_unique {kind other : Nat} (h : mr.holds kind = true)
    (hne : kind ≠ other) : mr.holds other = false := by
  simp only [Mr.holds, beq_iff_eq] at h
  simp [Mr.holds, h, hne]

/-- The sends of a kind that wait, and those that were not posted. -/
def sendLoad (p : MessageIoContext → Bool) : Load where
  command c := (p c.context).toNat
  event
    | .completion c => (c.provenUnaccepted && p c.context).toNat
    | .submission _ _ | .terminal _ => 0
  sent send := (p send.context).toNat
  freed _ := 0
  gained _ := 0
  completion c hc := by simp [hc]
  terminal _ := rfl

/-- The buffers with a kind of frame that wait to be reposted, and those that were
not reposted. -/
def bufferLoad (kind : Nat) : Load where
  command c := (c.batch.receives.map fun mr => (mr.holds kind).toNat).sum
  event
    | .completion c =>
      (c.provenUnaccepted && c.context == .receive && c.mr.any (·.holds kind)).toNat
    | .submission _ _ | .terminal _ => 0
  sent _ := 0
  freed mr := (mr.holds kind).toNat
  gained _ := 0
  completion c hc := by simp [hc]
  terminal _ := rfl

variable (find : Nat → Option PendingProtocolTransition)

/-- The credits on their way to be returned: a reposted buffer owes its credit
until the receipt is taken.  `find` has the transition of a command by its
number. -/
def creditLoad : Load where
  command c := (c.batch.posts.map PostedSend.credits).sum
  event
    | .submission id d => ((find id).map (·.returning d)).getD 0
    | .completion _ | .terminal _ => 0
  sent send := send.credits
  freed _ := 0
  gained mr := (mr.holds frameData).toNat
  completion _ _ := rfl
  terminal _ := rfl

/-- The receipts that will grant credits. -/
def grantLoad : Load where
  command _ := 0
  event
    | .submission id d => ((find id).map (·.granting d)).getD 0
    | .completion _ | .terminal _ => 0
  sent _ := 0
  freed _ := 0
  gained mr := (mr.holds frameHello).toNat
  completion _ _ := rfl
  terminal _ := rfl

theorem sum_map_toNat {α : Type} (p : α → Bool) (l : List α) :
    (l.map fun x => (p x).toNat).sum = l.countP p := by
  induction l with
  | nil => rfl
  | cons x _ ih => cases hx : p x <;> simp [hx, ih, add_comm]

section Balanced

variable {v v' : NodeView} {find : Nat → Option PendingProtocolTransition}

theorem sendLoad_balanced {p : MessageIoContext → Bool} (h : (sendLoad p).Balanced v v') :
    (sendLoad p).of v' + (v'.sq.drop v.sq.length).countP (p ·.context) =
      (sendLoad p).of v := by
  rw [← sum_map_toNat]
  simpa [Load.Balanced, sendLoad] using h

theorem bufferLoad_balanced {kind : Nat} (h : (bufferLoad kind).Balanced v v') :
    (bufferLoad kind).of v' + (v'.rq.drop v.rq.length).countP (·.holds kind) =
      (bufferLoad kind).of v := by
  rw [← sum_map_toNat]
  simpa [Load.Balanced, bufferLoad] using h

theorem creditLoad_balanced (h : (creditLoad find).Balanced v v') :
    (creditLoad find).of v' + ((v'.sq.drop v.sq.length).map PostedSend.credits).sum =
      (creditLoad find).of v + (v'.rq.drop v.rq.length).countP (·.holds frameData) := by
  rw [← sum_map_toNat]
  simpa [Load.Balanced, creditLoad] using h

theorem grantLoad_balanced (h : (grantLoad find).Balanced v v') : (grantLoad find).of v' =
      (grantLoad find).of v + (v'.rq.drop v.rq.length).countP (·.holds frameHello) := by
  rw [← sum_map_toNat]
  simpa [Load.Balanced, grantLoad] using h

variable {find' : Nat → Option PendingProtocolTransition}

/-- Only the transitions of the receipts on their way are looked up. -/
theorem creditLoad_congr (h : ∀ id d, .submission id d ∈ v.notices → find id = find' id) :
    (creditLoad find).of v = (creditLoad find').of v := by
  refine of_congr rfl fun e he => ?_
  cases e with
  | submission id d => simp only [creditLoad, h id d he]
  | completion | terminal => rfl

theorem grantLoad_congr (h : ∀ id d, .submission id d ∈ v.notices → find id = find' id) :
    (grantLoad find).of v = (grantLoad find').of v := by
  refine of_congr rfl fun e he => ?_
  cases e with
  | submission id d => simp only [grantLoad, h id d he]
  | completion | terminal => rfl

end Balanced

section Lawful

variable {c : ProtocolCommand} {t : PendingProtocolTransition}
  {find : Nat → Option PendingProtocolTransition}

theorem sendLoad_lawful {p : MessageIoContext → Bool} (hp : p .receive = false)
    (h : Matches t c.batch) : (sendLoad p).Lawful c := by
  obtain ⟨id, batch⟩ := c
  refine ⟨fun error => ?_, ?_, fun d hd => ?_⟩
  · simp [sendLoad, unaccepted]
  · simp [sendLoad, cancelled]
  · cases h <;>
      simp [sendLoad, context, posts, receives, hp]

theorem bufferLoad_lawful (kind : Nat) (h : Matches t c.batch) : (bufferLoad kind).Lawful c := by
  obtain ⟨id, batch⟩ := c
  refine ⟨fun error => ?_, ?_, fun d hd => ?_⟩
  · cases h <;>
      simp [bufferLoad, unaccepted, context, mr, receives]
  · cases h <;>
      simp [bufferLoad, cancelled, context, mr, receives]
  · cases h <;> simp [bufferLoad, posts, receives]

theorem possible_of_potentiallyAccepted {d : IoSubmissionDisposition}
    (h : d.potentiallyAccepted = true) : d.possible = true := by
  simp [possible, h]

theorem possible_fullyUnaccepted (n : Nat) (error : Error) :
    (fullyUnaccepted n error).possible = false := rfl

theorem creditLoad_lawful (hfind : find c.id = some t) (h : Matches t c.batch) :
    (creditLoad find).Lawful c := by
  obtain ⟨id, batch⟩ := c
  simp only at hfind
  have hunaccepted (error : Error) :
      (creditLoad find).event (.submission id (.fullyUnaccepted 1 error)) =
        (creditLoad find).command ⟨id, batch⟩ := by
    cases h with
    | control hcredits =>
      simp [creditLoad, hfind, returning, possible_fullyUnaccepted, posts, hcredits]
    | data hmr | credit hmr | hello hmr | send | announce =>
      simp [creditLoad, hfind, returning, possible_fullyUnaccepted, posts, PostedSend.credits]
  refine ⟨fun error => ?_, ?_, fun d hd => ?_⟩
  · simpa [creditLoad, unaccepted] using hunaccepted error
  · simpa [creditLoad, cancelled] using hunaccepted .driverShutdown
  · have hpossible := possible_of_potentiallyAccepted hd
    cases h with
    | credit hmr | hello hmr =>
      simp [creditLoad, hfind, returning, posts, receives,
        Mr.holds_unique hmr (show _ ≠ frameData by decide)]
    | data hmr =>
      simp [creditLoad, hfind, returning, posts, receives, hpossible, hmr]
    | send | announce | control hcredits =>
      simp [creditLoad, hfind, returning, posts, receives, hpossible, PostedSend.credits]

theorem grantLoad_lawful (hfind : find c.id = some t) (h : Matches t c.batch) :
    (grantLoad find).Lawful c := by
  obtain ⟨id, batch⟩ := c
  simp only at hfind
  have hunaccepted (error : Error) :
      (grantLoad find).event (.submission id (.fullyUnaccepted 1 error)) = 0 := by
    cases h <;>
      simp [grantLoad, hfind, granting, possible_fullyUnaccepted]
  refine ⟨fun error => ?_, ?_, fun d hd => ?_⟩
  · simpa [grantLoad, unaccepted] using hunaccepted error
  · simpa [grantLoad, cancelled] using hunaccepted .driverShutdown
  · have hpossible := possible_of_potentiallyAccepted hd
    cases h with
    | data hmr | credit hmr =>
      simp [grantLoad, hfind, granting, receives,
        Mr.holds_unique hmr (show _ ≠ frameHello by decide)]
    | hello hmr =>
      simp [grantLoad, hfind, granting, receives, hpossible, hmr]
    | send | announce | control hcredits =>
      simp [grantLoad, hfind, granting, receives]

end Lawful

/-- A frame of the type. -/
def IoEvent.carries (frameType : Nat) : IoEvent → Bool
  | completion c =>
    match c.context, c.result, c.mr with
    | .receive, .ok _, some mr => mr.holds frameType
    | _, _, _ => false
  | submission _ _ | terminal _ => false

variable {c : IoCompletionEvent} {len : Nat} {header : FrameHeader}

theorem carries_of_ok (hcontext : c.context = .receive) (hresult : c.result = .ok len)
    (hmr : c.mr = some mr) (frameType : Nat) :
    (completion c).carries frameType = mr.holds frameType := by
  simp [carries, hcontext, hresult, hmr]

theorem holds_of_parseHeader (h : parseHeader mr.content len = .ok header) :
    mr.holds header.frameType = true := by
  unfold parseHeader at h
  split at h
  · cases h
  simp only at h
  split_ifs at h
  rw [← Except.ok.inj h]
  simp [Mr.holds]

namespace TransportView

variable {v w : TransportView} {out : Option ProtocolCommand}

/-- A submission adds its load, if completions carry all of it. -/
theorem Submitted.load {L : Load} {batch : ProtocolBatch}
    {transition : PendingProtocolTransition} (hlawful : L.Lawful ⟨v.next, batch⟩)
    (hreceipt : ∀ id d, L.event (.submission id d) = 0)
    (h : Submitted v batch transition w) :
    L.transport w = L.transport v + L.command ⟨v.next, batch⟩ := by
  rcases L.transport_submitted h with ⟨hload, -⟩ | ⟨⟨error, hload⟩, -⟩
  · exact hload
  · rw [hload, ← hlawful.reject error, hreceipt, add_zero]

/-- A credit frame carries the credits that were claimed for it. -/
theorem credits_creditFrame (mr : Mr) (owing : Nat) :
    ((creditFrame mr (claimPendingCreditReturns owing)).posts.map
      PostedSend.credits).sum = claimPendingCreditReturns owing := by
  have hfits : claimPendingCreditReturns owing < 2 ^ 32 := by
    unfold claimPendingCreditReturns
    omega
  have hbytes (k : Nat) : ((creditFrame mr k).posts.map PostedSend.credits).sum =
      fromLeBytes (toLeBytes k) := rfl
  rw [hbytes, fromLeBytes_toLeBytes, Nat.mod_eq_of_lt hfits]

theorem matches_creditFrame (mr : Mr) (owing : Nat) :
    Matches (.controlSend (claimPendingCreditReturns owing))
      (creditFrame mr (claimPendingCreditReturns owing)) :=
  .control (credits_creditFrame mr owing)

section Buffers

variable {kind : Nat}

/-- The buffers of the transport that hold a kind of frame: messages that wait for
a receive call or a repost, frames not looked at, and reposts on their way. -/
def buffers (kind : Nat) (t : TransportView) : Nat :=
  (if kind = frameData then t.received.length + t.events.countP (·.isRepost) else 0) +
    t.frames.countP (·.carries kind) + (bufferLoad kind).transport t

variable {port : List IoEvent} {c : ProtocolCommand} {rest : List ProtocolCommand}

theorem buffers_pop {e : IoEvent} (hport : v.port = e :: port) (hframe : e.isFrame = false)
    (hload : (bufferLoad kind).event e = 0) : v.buffers kind = { v with port }.buffers kind := by
  rw [buffers, frames_pop hport hframe, transport_pop hport, hload, zero_add]
  rfl

/-- The buffer of a frame leaves the port. -/
theorem buffers_pop_frame {c : IoCompletionEvent} {mr : Mr} {len : Nat}
    (hport : v.port = .completion c :: port) (hcontext : c.context = .receive)
    (hresult : c.result = .ok len) (hmr : c.mr = some mr) (haccepted : c.provenUnaccepted = false) :
    v.buffers kind = { v with port }.buffers kind + (mr.holds kind).toNat := by
  have hload : (bufferLoad kind).event (.completion c) = 0 :=
    (bufferLoad kind).completion c haccepted
  have hcarries := carries_of_ok hcontext hresult hmr kind
  rw [buffers, frames_pop_frame hport hcontext hresult, transport_pop hport, hload,
    countP_cons, hcarries, buffers]
  cases mr.holds kind <;> simp only [Bool.toNat, cond, if_true, Bool.false_eq_true, if_false] <;>
    omega

theorem Submitted.buffers {batch : ProtocolBatch} {transition : PendingProtocolTransition}
    (h : Submitted v batch transition w) (hmatches : Matches transition batch) :
    w.buffers kind = v.buffers kind + (batch.receives.map fun mr => (mr.holds kind).toNat).sum := by
  have hlawful : (bufferLoad kind).Lawful ⟨v.next, batch⟩ := bufferLoad_lawful kind hmatches
  have hload := h.load hlawful fun _ _ => rfl
  rw [TransportView.buffers, hload, h.takes.1, h.takes.2, h.frame.2.2.2, ← add_assoc]
  rfl

/-- A buffer that holds data is of that kind alone. -/
theorem toNat_holds {mr : Mr} (hmr : mr.holds frameData = true) :
    (mr.holds kind).toNat = if kind = frameData then 1 else 0 := by
  split
  next hkind => rw [hkind, hmr]; rfl
  next hkind => rw [Mr.holds_unique hmr (Ne.symm hkind)]; rfl

theorem buffers_events {event : EngineMessageEvent} {events : List EngineMessageEvent}
    (hevents : v.events = event :: events) : v.buffers kind = { v with events }.buffers kind +
      if kind = frameData ∧ event.isRepost = true then 1 else 0 := by
  change _ = (if kind = frameData then
      v.received.length + events.countP (·.isRepost) else 0) +
    v.frames.countP (·.carries kind) + (bufferLoad kind).transport v + _
  rw [buffers, hevents, countP_cons]
  by_cases hkind : kind = frameData
  · simp only [hkind, if_true, true_and]
    omega
  · simp only [hkind, if_false, false_and, add_zero]

theorem buffers_admission (hadmission : v.admission = c :: rest) :
    v.buffers kind = { v with admission := rest }.buffers kind + (bufferLoad kind).command c := by
  rw [buffers, transport_admission hadmission, add_comm ((bufferLoad kind).command c),
    ← add_assoc]
  rfl

theorem buffers_served (hadmission : v.admission = c :: rest) {events : List IoEvent}
    (hframes : ∀ e ∈ events, e.isFrame = false)
    (hevents : (events.map (bufferLoad kind).event).sum = (bufferLoad kind).command c) :
    { v with admission := rest, port := v.port ++ events }.buffers kind = v.buffers kind := by
  have hkept : { v with admission := rest, port := v.port ++ events }.frames = v.frames :=
    v.frames_append hframes
  rw [buffers, transport_served hadmission hevents, hkept]
  rfl

theorem buffers_received (v : TransportView) (message : CompletedRecv) :
    { v with received := v.received ++ [message] }.buffers kind =
      v.buffers kind + if kind = frameData then 1 else 0 := by
  change (if kind = frameData then
      (v.received ++ [message]).length + v.events.countP (·.isRepost) else 0) +
    v.frames.countP (·.carries kind) + (bufferLoad kind).transport v = _
  rw [buffers, length_append, length_singleton]
  split_ifs <;> omega

/-- An action keeps the buffers of each kind, up to the command it hands over. -/
theorem Action.buffers (h : Action v out w)
    (hlawful : ∀ c ∈ v.admission, (bufferLoad kind).Lawful c)
    (haccepted : ∀ c, .completion c ∈ v.frames → c.provenUnaccepted = false)
    (hfresh : v.state = .created → ∀ e ∈ v.events, e.isRepost = false)
    (hreposts : ∀ mr, .repost mr ∈ v.events → mr.holds frameData = true) :
    w.buffers kind + (out.toList.map (bufferLoad kind).command).sum = v.buffers kind := by
  have hframe {c : IoCompletionEvent} {len : Nat} {port : List IoEvent}
      (hport : v.port = .completion c :: port) (hcontext : c.context = .receive)
      (hresult : c.result = .ok len) : c.provenUnaccepted = false := by
    apply haccepted
    rw [frames_pop_frame hport hcontext hresult]
    exact mem_cons_self
  have hpop {c : IoCompletionEvent} {port : List IoEvent}
      (hport : v.port = .completion c :: port) (hcontext : c.context ≠ .receive) :
      v.buffers kind = { v with port }.buffers kind := by
    refine buffers_pop hport ?_ ?_
    · cases hc : c.context <;> simp_all [isFrame]
    · simp [bufferLoad, hcontext]
  cases h with
  | @skip event _ hevents hevent =>
    have hquiet : event.isRepost = false := by
      cases hrepost : event.isRepost with
      | false => rfl
      | true =>
        have hnone := hfresh (hevent hrepost) event (hevents ▸ mem_cons_self)
        exact hrepost.symm.trans hnone
    rw [buffers_events hevents, if_neg (by simp [hquiet])]
    rfl
  | release hevents =>
    rw [buffers_events hevents, if_neg (by simp [EngineMessageEvent.isRepost])]
    rfl
  | send hevents _ _ _ hsubmit =>
    rw [buffers_events hevents, if_neg (by simp [EngineMessageEvent.isRepost]),
      hsubmit.buffers .send]
    rfl
  | @repost mr _ _ hevents _ hsubmit =>
    have hmr := hreposts mr (hevents ▸ mem_cons_self)
    rw [buffers_events hevents, hsubmit.buffers (.data hmr)]
    simp [receives, toNat_holds hmr]
  | announce hevents _ hsubmit =>
    rw [buffers_events hevents, if_neg (by simp [EngineMessageEvent.isRepost]),
      hsubmit.buffers .announce]
    rfl
  | flush _ _ hsubmit =>
    rw [hsubmit.buffers (matches_creditFrame _ _)]
    rfl
  | @handOver _ _ hadmission =>
    rw [buffers_admission hadmission]
    rfl
  | @cancel command _ _ hadmission =>
    exact buffers_served hadmission (isFrame_cancelledEvents _)
      (hlawful command (hadmission ▸ mem_cons_self)).cancelledEvents
  | @reject command _ hadmission error =>
    exact buffers_served hadmission (isFrame_rejectedEvents _ error)
      ((hlawful command (hadmission ▸ mem_cons_self)).rejectedEvents error)
  | receipt hport | grant hport => rw [buffers_pop hport rfl rfl]; rfl
  | @message _ _ _ _ port hport hcontext hresult hmr _ hheader htype =>
    have hdata := htype ▸ holds_of_parseHeader hheader
    rw [buffers_pop_frame hport hcontext hresult hmr (hframe hport hcontext hresult),
      toNat_holds hdata]
    exact { v with port }.buffers_received _
  | credit hport hcontext hresult hmr _ hheader htype _ _ hsubmit =>
    have hcredit := htype ▸ holds_of_parseHeader hheader
    rw [buffers_pop_frame hport hcontext hresult hmr (hframe hport hcontext hresult),
      hsubmit.buffers (.credit hcredit)]
    rfl
  | hear hport hcontext hresult hmr _ _ hheader htype _ hsubmit =>
    have hhello := htype ▸ holds_of_parseHeader hheader
    rw [buffers_pop_frame hport hcontext hresult hmr (hframe hport hcontext hresult),
      hsubmit.buffers (.hello hhello)]
    rfl
  | confirm hport hcontext | returned hport hcontext =>
    rw [hpop hport (by simp [hcontext])]
    rfl
  | sent hport hcontext =>
    rw [hpop hport (by simp [hcontext])]
    split
    · obtain ⟨_, _, _, hrolled, -⟩ :=
        { v with port := _ }.rollback_eq _
      rw [hrolled]
      rfl
    · rfl

end Buffers

section Returns

variable {find : Nat → Option PendingProtocolTransition}

variable {d : IoSubmissionDisposition} {transition : PendingProtocolTransition}
  {e : IoEvent} {port : List IoEvent} {batch : ProtocolBatch}

/-- A receipt that keeps the transport open is of a command that was accepted, or
surely was not. -/
theorem possible_eq_isAllAccepted (hkept : d.potentiallyAccepted = true → d.error = none) :
    d.possible = d.isAllAccepted := by
  unfold possible
  cases hpotential : d.potentiallyAccepted with
  | false => rw [Bool.or_false]
  | true =>
    have herror := hkept hpotential
    cases d <;> simp_all [error, potentiallyAccepted, isAllAccepted]

theorem settled_eq_returning {state : TransportState}
    (hkept : d.potentiallyAccepted = true → d.error = none)
    (hcontrol : ∀ credits, transition = .controlSend credits → state = .ready) :
    transition.settled state d = transition.returning d := by
  cases transition with
  | receive returnCredit =>
    simp only [settled, returning, possible_eq_isAllAccepted hkept]
  | controlSend credits =>
    simp only [settled, returning, restored, hcontrol credits rfl, if_true]
    rfl
  | send | helloSend | helloReceiveRepost capacity => rfl

/-- The credits that the transport will return. -/
def returns (find : Nat → Option PendingProtocolTransition) (t : TransportView) : Nat :=
  t.owing + (creditLoad find).transport t

theorem returns_pop (hport : v.port = e :: port) :
    v.returns find = { v with port }.returns find + (creditLoad find).event e := by
  rw [returns, transport_pop hport, add_comm ((creditLoad find).event e), ← add_assoc]
  rfl

theorem Submitted.returns (h : Submitted v batch transition w)
    (hrestored : transition.restored v.state = (batch.posts.map PostedSend.credits).sum) :
    w.returns find = v.returns find + (batch.posts.map PostedSend.credits).sum := by
  rw [TransportView.returns, TransportView.returns]
  rcases (creditLoad find).transport_submitted h with ⟨hload, howing⟩ | ⟨⟨error, hload⟩, howing⟩
  · rw [hload, howing, ← add_assoc]
    rfl
  · have hweight : (creditLoad find).event (unaccepted ⟨v.next, batch⟩ error) = 0 := rfl
    rw [hload, howing, hrestored, hweight]
    omega

/-- An action keeps the credits to be returned. -/
theorem Action.returns (h : Action v out w)
    (hlawful : ∀ c ∈ v.admission, (creditLoad find).Lawful c)
    (hreceipt : ∀ id d port p rest, v.port = .submission id d :: port →
      v.transitions = p :: rest → find id = some p.2)
    (hcontrol : ∀ id credits, find id = some (.controlSend credits) → v.state = .ready) :
    w.returns find + (out.toList.map (creditLoad find).command).sum = v.returns find := by
  have hpop {c : IoCompletionEvent} {port : List IoEvent} (hport : v.port = .completion c :: port) :
      v.returns find = { v with port }.returns find := returns_pop hport
  cases h with
  | skip | release => rfl
  | send _ _ _ _ hsubmit | repost _ _ hsubmit | announce _ _ hsubmit => exact hsubmit.returns rfl
  | @flush mr _ hready _ hsubmit =>
    have hcredits := credits_creditFrame mr v.owing
    have hclaimed : claimPendingCreditReturns v.owing ≤ v.owing :=
      min_le_left _ _
    generalize claimPendingCreditReturns v.owing = k at *
    have hrestored : (controlSend k).restored v.state = k :=
      if_pos hready
    rw [hsubmit.returns (hrestored.trans hcredits.symm), hcredits]
    change v.owing - k + (creditLoad find).transport v + k + 0 =
      v.owing + (creditLoad find).transport v
    omega
  | @handOver command _ hadmission =>
    rw [returns, returns, transport_admission hadmission]
    change v.owing + _ + (creditLoad find).command command = v.owing + _
    omega
  | @cancel command _ _ hadmission =>
    have hlaw := hlawful command (hadmission ▸ mem_cons_self)
    rw [returns, transport_served hadmission hlaw.cancelledEvents]
    rfl
  | @reject command _ hadmission error =>
    have hlaw := hlawful command (hadmission ▸ mem_cons_self)
    rw [returns, transport_served hadmission (hlaw.rejectedEvents error)]
    rfl
  | @receipt id _ d transition rest port hport htransitions _ hkept =>
    have hfind := hreceipt id d port _ rest hport htransitions
    have hweight : (creditLoad find).event (.submission id d) = transition.settled v.state d := by
      rw [settled_eq_returning hkept]
      · simp [creditLoad, hfind]
      · exact fun credits heq => hcontrol id credits (heq ▸ hfind)
    rw [returns_pop hport, hweight]
    change v.owing + _ + (creditLoad find).transport { v with port } + 0 =
      v.owing + (creditLoad find).transport { v with port } + _
    omega
  | @grant id recorded capacity d rest port hport htransitions haccepted =>
    have hfind := hreceipt id d port _ rest hport htransitions
    have hweight : (creditLoad find).event (.submission id d) = 0 := by
      simp [creditLoad, hfind, returning]
    rw [returns_pop hport, hweight]
    rfl
  | message hport | confirm hport | returned hport =>
    rw [hpop hport]
    rfl
  | credit hport _ _ _ _ _ _ _ _ hsubmit | hear hport _ _ _ _ _ _ _ _ hsubmit =>
    rw [hpop hport]
    exact hsubmit.returns rfl
  | @sent _ request port hport =>
    rw [hpop hport]
    split
    · obtain ⟨_, _, _, hrolled, -⟩ :=
        { v with port }.rollback_eq request
      rw [hrolled]
      rfl
    · rfl

/-- What grants credits: the grant made, and the receipts that will make one. -/
def grants (find : Nat → Option PendingProtocolTransition) (t : TransportView) : Nat :=
  t.granted.toNat + (grantLoad find).transport t

theorem grants_pop (hport : v.port = e :: port) :
    v.grants find = { v with port }.grants find + (grantLoad find).event e := by
  rw [grants, transport_pop hport, add_comm ((grantLoad find).event e), ← add_assoc]
  rfl

theorem Submitted.grants (h : Submitted v batch transition w) : w.grants find = v.grants find := by
  rw [TransportView.grants, TransportView.grants]
  have hgranted : w.granted = v.granted := by cases h <;> rfl
  rcases (grantLoad find).transport_submitted h with ⟨hload, -⟩ | ⟨⟨error, hload⟩, -⟩
  · rw [hload, hgranted]
    rfl
  · rw [hload, hgranted]
    rfl

/-- An action keeps the grants, if there is at most one. -/
theorem Action.grants (h : Action v out w) (hlawful : ∀ c ∈ v.admission, (grantLoad find).Lawful c)
    (hreceipt : ∀ id d port p rest, v.port = .submission id d :: port →
      v.transitions = p :: rest → find id = some p.2)
    (honce : v.grants find ≤ 1) : w.grants find = v.grants find := by
  have hpop {c : IoCompletionEvent} {port : List IoEvent} (hport : v.port = .completion c :: port) :
      v.grants find = { v with port }.grants find := grants_pop hport
  cases h with
  | skip | release => rfl
  | send _ _ _ _ hsubmit | repost _ _ hsubmit | announce _ _ hsubmit
  | flush _ _ hsubmit => exact hsubmit.grants
  | @handOver _ _ hadmission =>
    rw [grants, grants, transport_admission hadmission]
    exact congrArg _ (zero_add _).symm
  | @cancel command _ _ hadmission =>
    have hlaw := hlawful command (hadmission ▸ mem_cons_self)
    rw [grants, transport_served hadmission hlaw.cancelledEvents]
    rfl
  | @reject command rest hadmission error =>
    have hlaw := hlawful command (hadmission ▸ mem_cons_self)
    rw [grants, transport_served hadmission (hlaw.rejectedEvents error)]
    rfl
  | @receipt id recorded d transition rest port hport htransitions hplain hkept =>
    have hfind := hreceipt id d port _ rest hport htransitions
    have hweight : (grantLoad find).event (.submission id d) = 0 := by
      have hpossible := possible_eq_isAllAccepted hkept
      rcases hplain with hheard | hrefused
      · cases transition <;>
          simp_all [grantLoad, granting, heard]
      · cases transition <;>
          simp_all [grantLoad, granting]
    rw [grants_pop hport, hweight]
    rfl
  | @grant id recorded capacity d rest port hport htransitions haccepted =>
    have hfind := hreceipt id d port _ rest hport htransitions
    have hweight : (grantLoad find).event (.submission id d) = 1 := by
      simp [grantLoad, hfind, granting, possible, haccepted]
    rw [grants_pop hport, hweight] at honce ⊢
    change v.granted.toNat + (grantLoad find).transport { v with port } + 1 ≤ 1 at honce
    change 1 + (grantLoad find).transport { v with port } =
      v.granted.toNat + (grantLoad find).transport { v with port } + 1
    omega
  | message hport | confirm hport | returned hport => exact (hpop hport).symm
  | credit hport _ _ _ _ _ _ _ _ hsubmit | hear hport _ _ _ _ _ _ _ _ hsubmit =>
    rw [hpop hport]
    exact hsubmit.grants
  | @sent _ request port hport =>
    rw [hpop hport]
    split
    · obtain ⟨_, _, _, hrolled, -⟩ :=
        { v with port }.rollback_eq request
      rw [hrolled]
      rfl
    · rfl

end Returns

end TransportView

/-- The credits that an event brings. -/
def IoEvent.credits : IoEvent → Nat
  | completion c => c.credits.getD 0
  | submission _ _ | terminal _ => 0

theorem credits_of_parseCredit {credits : Nat} (hcontext : c.context = .receive)
    (hresult : c.result = .ok len) (hmr : c.mr = some mr)
    (hheader : parseHeader mr.content len = .ok header) (htype : header.frameType = frameCredit)
    (hparse : parseCredit (payloadOf mr.content header) = .ok credits) :
    (completion c).credits = credits := by
  simp [IoEvent.credits, IoCompletionEvent.credits, hcontext, hresult, hmr, hheader, htype,
    hparse, Except.toOption]

theorem credits_of_frameType (hcontext : c.context = .receive) (hresult : c.result = .ok len)
    (hmr : c.mr = some mr) (hheader : parseHeader mr.content len = .ok header)
    (htype : header.frameType ≠ frameCredit) : (completion c).credits = 0 := by
  simp [IoEvent.credits, IoCompletionEvent.credits, hcontext, hresult, hmr, hheader, htype]

namespace TransportView

variable {v w : TransportView} {out : Option ProtocolCommand}

section Sending

/-- The credits in the frames that the transport has not looked at. -/
def credited (t : TransportView) : Nat :=
  (t.frames.map IoEvent.credits).sum

/-- The request has spent its credit on a send. -/
def committed (t : TransportView) (request : Nat) : Bool :=
  (t.requests[request]?).any (·.committed)

/-- What an action does to the sends and what was spent on them. -/
inductive Sending (v : TransportView) (out : Option ProtocolCommand) (w : TransportView) : Prop
  | keep
      (hload : ∀ p : MessageIoContext → Bool, p .receive = false → p .controlSend = false →
        (sendLoad p).transport w + (out.toList.map (sendLoad p).command).sum =
          (sendLoad p).transport v)
      (hinFlight : w.inFlight + v.credited = v.inFlight + w.credited)
      (hannounced : w.announced = v.announced)
      (hcommitted : ∀ request, w.committed request = v.committed request)
      (hlength : w.requests.length = v.requests.length) (hevents : w.events <+ v.events)
  | send (request : Nat) (hout : out = none)
      (hload : ∀ p : MessageIoContext → Bool, p .receive = false → p .controlSend = false →
        (sendLoad p).transport w = (sendLoad p).transport v + (p (.send request)).toNat)
      (hinFlight : w.inFlight = v.inFlight + 1) (hcredited : w.credited = v.credited)
      (hannounced : w.announced = v.announced)
      (hcommitted : ∀ other, w.committed other = (v.committed other || other == request))
      (hlength : w.requests.length = v.requests.length)
      (hevents : v.events = .sendRequest request :: w.events) (hready : v.state = .ready)
  | announce (hout : out = none)
      (hload : ∀ p : MessageIoContext → Bool, p .receive = false → p .controlSend = false →
        (sendLoad p).transport w = (sendLoad p).transport v + (p .helloSend).toNat)
      (hinFlight : w.inFlight = v.inFlight) (hcredited : w.credited = v.credited)
      (hfirst : v.announced = false) (hannounced : w.announced = true)
      (hrequests : w.requests = v.requests) (hevents : w.events <+ v.events)
  | fail (request : Nat) (hout : out = none)
      (hload : ∀ p : MessageIoContext → Bool, p .receive = false → p .controlSend = false →
        (sendLoad p).transport v = (sendLoad p).transport w + (p (.send request)).toNat)
      (hinFlight : v.committed request = true → w.inFlight = v.inFlight - 1)
      (hcredited : w.credited = v.credited) (hannounced : w.announced = v.announced)
      (hcommitted : ∀ other, w.committed other = (v.committed other && other != request))
      (hlength : w.requests.length = v.requests.length) (hevents : w.events = v.events)

theorem committed_modify (requests : List RequestView) (f : RequestView → RequestView)
    (request other : Nat) : ((requests.modify request f)[other]?).any (·.committed) =
      if request = other then (requests[other]?).any fun r => (f r).committed
      else (requests[other]?).any (·.committed) := by
  rw [List.getElem?_modify]
  split <;> cases requests[other]? <;> simp

variable {e : IoEvent} {port : List IoEvent} {batch : ProtocolBatch}
  {transition : PendingProtocolTransition}

theorem credited_pop (hport : v.port = e :: port) (hframe : e.isFrame = false) :
    v.credited = { v with port }.credited := by
  rw [credited, frames_pop hport hframe, credited]

theorem credited_pop_frame {c : IoCompletionEvent} {len : Nat}
    (hport : v.port = .completion c :: port) (hcontext : c.context = .receive)
    (hresult : c.result = .ok len) :
    v.credited = (completion c).credits + { v with port }.credited := by
  rw [credited, frames_pop_frame hport hcontext hresult, credited, map_cons, sum_cons]

theorem Submitted.credited (h : Submitted v batch transition w) : w.credited = v.credited := by
  rw [TransportView.credited, h.takes.1, TransportView.credited]

theorem Submitted.spending (h : Submitted v batch transition w) :
    w.inFlight = v.inFlight ∧ w.announced = v.announced := by
  cases h <;> exact ⟨rfl, rfl⟩

theorem Submitted.sendLoad (h : Submitted v batch transition w)
    (hmatches : Matches transition batch) {p : MessageIoContext → Bool} (hp : p .receive = false) :
    (sendLoad p).transport w = (sendLoad p).transport v +
      (p (context ⟨v.next, batch⟩)).toNat :=
  h.load (sendLoad_lawful hp hmatches) fun _ _ => rfl

/-- A submission that is no send of a request or a HELLO. -/
theorem Sending.submit {u : TransportView} (hsubmit : Submitted u batch transition w)
    (hmatches : Matches transition batch)
    (hbatch : ∀ p : MessageIoContext → Bool, p .receive = false → p .controlSend = false →
      p (context ⟨u.next, batch⟩) = false)
    (hload : ∀ p : MessageIoContext → Bool, p .receive = false →
      (sendLoad p).transport u = (sendLoad p).transport v)
    (hinFlight : u.inFlight + v.credited = v.inFlight + u.credited)
    (hannounced : u.announced = v.announced) (hrequests : u.requests = v.requests)
    (hevents : u.events <+ v.events) : Sending v none w := by
  obtain ⟨-, -, hrequests', hevents'⟩ := hsubmit.frame
  refine .keep (fun p hp hcontrol => ?_) ?_ ?_ (fun request => ?_) ?_ ?_
  · rw [hsubmit.sendLoad hmatches hp, hbatch p hp hcontrol, hload p hp]
    rfl
  · rw [hsubmit.credited, hsubmit.spending.1]
    exact hinFlight
  · rw [hsubmit.spending.2, hannounced]
  · rw [committed, committed, hrequests', hrequests]
  · rw [hrequests', hrequests]
  · rw [hevents']
    exact hevents

/-- An event without a load is taken from the port. -/
theorem Sending.pop (hport : v.port = e :: port) (hframe : e.isFrame = false)
    (hload : ∀ p : MessageIoContext → Bool, p .receive = false → p .controlSend = false →
      (sendLoad p).event e = 0) (hport' : w.port = port)
    (hadmission : w.admission = v.admission) (hinFlight : w.inFlight = v.inFlight)
    (hannounced : w.announced = v.announced) (hrequests : w.requests = v.requests)
    (hevents : w.events = v.events) :
    Sending v none w := by
  have hkept (L : Load) : L.transport w = L.transport { v with port } := by
    rw [transport, hport', hadmission, transport]
  have hcredited : w.credited = v.credited := by
    rw [credited_pop hport hframe, credited, frames, hport', credited, frames]
  refine .keep (fun p hp hcontrol => ?_) ?_ hannounced (fun request => ?_) ?_ ?_
  · rw [hkept, transport_pop hport, hload p hp hcontrol, zero_add]
    rfl
  · rw [hinFlight, hcredited]
  · rw [committed, committed, hrequests]
  · rw [hrequests]
  · rw [hevents]

theorem committed_rollback (v : TransportView) (request other : Nat) :
    (v.rollback request).committed other = (v.committed other && other != request) := by
  have hmodify : ((v.requests.modify request fun r => { r with committed := false })[other]?).any
      (·.committed) = (v.committed other && other != request) := by
    rw [committed_modify, committed]
    split
    next heq => simp [heq]
    next hne => simp [Ne.symm hne]
  unfold rollback
  split
  · simp only
    split
    · exact hmodify
    · exact hmodify
  next hfree =>
    by_cases heq : other = request
    · have hnone : v.committed request = false := eq_false_of_ne_true hfree
      rw [heq, hnone, Bool.false_and]
    · simp [heq]

theorem inFlight_rollback {request : Nat} (h : v.committed request = true) :
    (v.rollback request).inFlight = v.inFlight - 1 := by
  unfold committed at h
  unfold rollback
  rw [if_pos h]
  simp only
  split
  next hzero => simp [hzero]
  · rfl

theorem Action.sending (h : Action v out w)
    (hmatches : ∀ c ∈ v.admission, ∃ transition, Matches transition c.batch)
    (haccepted : ∀ c, .completion c ∈ v.frames → c.provenUnaccepted = false)
    (hreposts : ∀ mr, .repost mr ∈ v.events → mr.holds frameData = true)
    (hcredit : ∀ (request : Nat) (r : RequestView) (mr : Mr), v.requests[request]? = some r →
      r.mr = some mr → r.credit = true) : Sending v out w := by
  have hserved {c : ProtocolCommand} {rest : List ProtocolCommand}
      (hadmission : v.admission = c :: rest) (p : MessageIoContext → Bool)
      (hp : p .receive = false) : (sendLoad p).Lawful c := by
    obtain ⟨_, htransition⟩ := hmatches c (hadmission ▸ mem_cons_self)
    exact sendLoad_lawful hp htransition
  have hpop {c : IoCompletionEvent} {len : Nat} {port : List IoEvent}
      (hport : v.port = .completion c :: port) (hcontext : c.context = .receive)
      (hresult : c.result = .ok len) (p : MessageIoContext → Bool) :
      (sendLoad p).transport v = (sendLoad p).transport { v with port } := by
    have hmem : .completion c ∈ v.frames := by
      rw [frames_pop_frame hport hcontext hresult]
      exact mem_cons_self
    rw [transport_pop hport, (sendLoad p).completion c (haccepted c hmem), zero_add]
  cases h with
  | skip hevents =>
    refine .keep (fun _ _ _ => rfl) rfl rfl (fun _ => rfl) rfl ?_
    rw [hevents]
    exact sublist_cons_self _ _
  | @release _ _ _ hevents =>
    refine .keep (fun _ _ _ => rfl) rfl rfl (fun other => ?_) (length_modify ..) ?_
    · rw [committed, committed_modify, committed]
      split <;> rfl
    · rw [hevents]
      exact sublist_cons_self _ _
  | @send request _ r mr _ hevents hready hr hmr hsubmit =>
    have hspent := hcredit request r mr hr hmr
    obtain ⟨-, -, hrequests, hevents'⟩ := hsubmit.frame
    refine .send request rfl (fun p hp _ => hsubmit.sendLoad .send hp) ?_ hsubmit.credited
      hsubmit.spending.2 (fun other => ?_) ?_ (hevents' ▸ hevents) hready
    · rw [hsubmit.spending.1, hspent]
      rfl
    · rw [committed, hrequests, committed_modify, committed]
      split
      next heq => simp [← heq, hr, RequestView.spent, hspent]
      next hne => simp [Ne.symm hne]
    · rw [hrequests, length_modify]
  | @repost mr _ _ hevents _ hsubmit =>
    have hmr := hreposts mr (hevents ▸ mem_cons_self)
    refine .submit hsubmit (.data hmr) (fun p hp _ => hp) (fun _ _ => rfl) rfl rfl rfl ?_
    rw [hevents]
    exact sublist_cons_self _ _
  | announce hevents hfirst hsubmit =>
    obtain ⟨-, -, hrequests, hevents'⟩ := hsubmit.frame
    refine .announce rfl (fun p hp _ => hsubmit.sendLoad .announce hp) hsubmit.spending.1
      hsubmit.credited hfirst hsubmit.spending.2 hrequests ?_
    rw [hevents', hevents]
    exact sublist_cons_self _ _
  | flush _ _ hsubmit =>
    exact .submit hsubmit (matches_creditFrame _ _) (fun _ _ hcontrol => hcontrol)
      (fun _ _ => rfl) rfl rfl rfl (Sublist.refl _)
  | @handOver _ _ hadmission =>
    refine .keep (fun p hp hcontrol => ?_) rfl rfl (fun _ => rfl) rfl (Sublist.refl _)
    rw [transport_admission hadmission, add_comm]
    rfl
  | @cancel command _ _ hadmission =>
    refine .keep (fun p hp hcontrol => ?_) ?_ rfl (fun _ => rfl) rfl (Sublist.refl _)
    · exact transport_served hadmission (hserved hadmission p hp).cancelledEvents
    · have hkept := v.frames_append (isFrame_cancelledEvents command)
      exact congrArg (v.inFlight + ·) (congrArg (fun e => (e.map IoEvent.credits).sum) hkept.symm)
  | @reject command _ hadmission error =>
    refine .keep (fun p hp hcontrol => ?_) ?_ rfl (fun _ => rfl) rfl (Sublist.refl _)
    · exact transport_served hadmission ((hserved hadmission p hp).rejectedEvents error)
    · have hkept := v.frames_append (isFrame_rejectedEvents command error)
      exact congrArg (v.inFlight + ·) (congrArg (fun e => (e.map IoEvent.credits).sum) hkept.symm)
  | receipt hport | grant hport =>
    exact .pop hport rfl (fun _ _ _ => rfl) rfl rfl rfl rfl rfl rfl
  | @message _ _ _ _ _ hport hcontext hresult hmr _ hheader htype =>
    have hnone := credits_of_frameType hcontext hresult hmr hheader (by rw [htype]; decide)
    refine .keep (fun p hp hcontrol => ?_) ?_ rfl (fun _ => rfl) rfl (Sublist.refl _)
    · exact (hpop hport hcontext hresult p).symm
    · rw [credited_pop_frame hport hcontext hresult, hnone, zero_add]
      rfl
  | @credit _ _ _ credits _ port _ hport hcontext hresult hmr _ hheader htype hparse _ hsubmit =>
      have hcredits := credits_of_parseCredit hcontext hresult hmr hheader htype hparse
      have hmr' := htype ▸ holds_of_parseHeader hheader
      refine .submit hsubmit (.credit hmr') (fun _ hp _ => hp)
        (fun p _ => (hpop hport hcontext hresult p).symm) ?_ rfl rfl (Sublist.refl _)
      rw [credited_pop_frame hport hcontext hresult, hcredits]
      change v.inFlight - credits + (credits + { v with port }.credited) =
        v.inFlight + { v with port }.credited
      omega
  | hear hport hcontext hresult hmr _ _ hheader htype _ hsubmit =>
    have hnone := credits_of_frameType hcontext hresult hmr hheader (by rw [htype]; decide)
    have hmr' := htype ▸ holds_of_parseHeader hheader
    refine .submit hsubmit (.hello hmr') (fun _ hp _ => hp)
      (fun p _ => (hpop hport hcontext hresult p).symm) ?_ rfl rfl (Sublist.refl _)
    rw [credited_pop_frame hport hcontext hresult, hnone, zero_add]
  | confirm hport hcontext _ haccepted =>
    refine .pop hport (by simp [isFrame, hcontext]) (fun p hp hcontrol => ?_) rfl rfl
      rfl rfl rfl rfl
    exact (sendLoad p).completion _ haccepted
  | returned hport hcontext =>
    refine .pop hport (by simp [isFrame, hcontext]) (fun p hp hcontrol => ?_) rfl rfl
      rfl rfl rfl rfl
    simp [sendLoad, hcontext, hcontrol]
  | @sent c request port hport hcontext =>
    have hframe : (completion c).isFrame = false := by
      simp [isFrame, hcontext]
    split
    next hunaccepted =>
      obtain ⟨_, _, _, hrolled, hmodified⟩ :=
        { v with port }.rollback_eq request
      refine .fail request rfl (fun p hp hcontrol => ?_) (fun hcommitted => ?_) ?_ ?_
        (fun other => ?_) ?_ ?_
      · rw [transport_pop hport, hrolled, add_comm]
        simp [sendLoad, hunaccepted, hcontext, transport]
      · have hcommitted' : { v with port }.committed request = true := hcommitted
        exact inFlight_rollback hcommitted'
      · rw [hrolled, credited_pop hport hframe]
        rfl
      · rw [hrolled]
      · exact { v with port }.committed_rollback request other
      · rw [hrolled]
        rcases hmodified with rfl | rfl
        · rfl
        · exact length_modify ..
      · rw [hrolled]
    next haccepted =>
      refine .pop hport hframe (fun p hp hcontrol => ?_) rfl rfl rfl rfl rfl rfl
      exact (sendLoad p).completion _ (eq_false_of_ne_true haccepted)

end Sending

/-- The credits of the sender: available, held by requests, and in flight. -/
def total (t : TransportView) : Nat :=
  t.available + t.requests.countP (·.credit) + t.inFlight

theorem Submitted.total {batch : ProtocolBatch} {transition : PendingProtocolTransition}
    (h : Submitted v batch transition w) : w.total = v.total ∧ w.granted = v.granted := by
  cases h <;> exact ⟨rfl, rfl⟩

theorem total_rollback (v : TransportView) (request : Nat) :
    (v.rollback request).total = v.total ∧ (v.rollback request).granted = v.granted := by
  have hcount : (v.requests.modify request fun r => { r with committed := false }).countP
      (·.credit) = v.requests.countP (·.credit) :=
    countP_modify (by intro; rfl) _ _
  unfold rollback
  split
  · simp only
    split
    · exact ⟨by rw [total, hcount, total], rfl⟩
    · refine ⟨?_, rfl⟩
      change v.available + 1 + _ + (v.inFlight - 1) = v.available + _ + v.inFlight
      rw [hcount]
      omega
  · exact ⟨rfl, rfl⟩

/-- A request gives its credit away. -/
theorem countP_release {requests : List RequestView} {request : Nat} {r : RequestView}
    (hr : requests[request]? = some r) {f : RequestView → RequestView} (hf : (f r).credit = false) :
    (requests.modify request f).countP (·.credit) + r.credit.toNat =
      requests.countP (·.credit) := by
  have hcount := countP_modify_toNat (p := fun r : RequestView => r.credit) (f := f) hr
  simpa only [hf, Bool.toNat_false, add_zero] using hcount

/-- The credits stay, except that the receipt of a HELLO's repost adds the peer's
capacity. -/
theorem Action.total (h : Action v out w) : w.total = v.total ∧ w.granted = v.granted ∨
      ∃ id recorded d capacity port rest, v.port = .submission id d :: port ∧
        v.transitions = (recorded, .helloReceiveRepost capacity) :: rest ∧
        d.isAllAccepted = true ∧ w.total = v.total + capacity ∧ w.granted = true := by
  cases h with
  | skip | handOver | cancel | reject | receipt | message | confirm | returned =>
    exact .inl ⟨rfl, rfl⟩
  | @release request _ r _ hr =>
    have hcount := countP_release hr (f := .taken) rfl
    refine .inl ⟨?_, rfl⟩
    change v.available + r.credit.toNat + (v.requests.modify request .taken).countP _ +
      v.inFlight = v.available + v.requests.countP _ + v.inFlight
    omega
  | @send request _ r _ _ _ _ hr _ hsubmit =>
    have hcount := countP_release hr (f := .spent) rfl
    refine .inl ⟨hsubmit.total.1.trans ?_, hsubmit.total.2⟩
    change v.available + (v.requests.modify request .spent).countP _ +
      (v.inFlight + r.credit.toNat) = v.available + v.requests.countP _ + v.inFlight
    omega
  | repost _ _ hsubmit | announce _ _ hsubmit | flush _ _ hsubmit => exact .inl hsubmit.total
  | hear _ _ _ _ _ _ _ _ _ hsubmit =>
    exact .inl hsubmit.total
  | credit _ _ _ _ _ _ _ _ _ hsubmit =>
    refine .inl ⟨hsubmit.total.1.trans ?_, hsubmit.total.2⟩
    change v.available + _ + v.requests.countP _ + (v.inFlight - _) =
      v.available + v.requests.countP _ + v.inFlight
    omega
  | @grant id recorded capacity d rest port hport htransitions haccepted =>
    refine .inr ⟨id, recorded, d, capacity, port, rest, hport, htransitions, haccepted, ?_, rfl⟩
    change v.available + capacity + v.requests.countP _ + v.inFlight =
      v.available + v.requests.countP _ + v.inFlight + capacity
    omega
  | @sent _ request port =>
    refine .inl ?_
    split
    · exact { v with port }.total_rollback request
    · exact ⟨rfl, rfl⟩

end TransportView

end RdmaIo.Message
