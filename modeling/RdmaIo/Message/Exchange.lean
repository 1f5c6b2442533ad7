/-
Two endpoints of the message transport over one reliable connection, with
nothing held back: any call, cancellation, refusal, failure or close may come at
any point.  The connection delivers the frames of a queue pair in the order in
which they were posted.

A journal of each endpoint records what it enqueued, posted and returned.  No
step reads it.
-/
import RdmaIo.Message.Progress

namespace RdmaIo.Message

open CompletedRecv
open ProtocolQueueEntry (posts command)
open List

/-- `max_send_wr` and `max_recv_wr` of a connection. -/
structure RdmaConnectionConfig where
  maxSendWr : Nat
  maxRecvWr : Nat
deriving Repr, DecidableEq

/-- The HELLO deadline is in nanoseconds. -/
structure MessageTransportBuilder where
  recvBufferCount : Nat
  sendBufferCount : Nat
  bufferSize : Nat
  helloDeadline : Nat
  connectionConfig : Option RdmaConnectionConfig
deriving Repr, DecidableEq

structure EngineMessageConfig where
  connection : RdmaConnectionConfig
  sendCount : Nat
  recvCount : Nat
  bufferSize : Nat
  mrSize : Nat
  helloDeadline : Nat
deriving Repr, DecidableEq

def minMessageHelloDeadline : Nat := 10 ^ 6
def maxMessageHelloDeadline : Nat := 5 * 60 * 10 ^ 9

/-- `usize::checked_add` on a 64-bit target. -/
def checkedAdd (a b : Nat) (message : String) : Except Error Nat :=
  if a + b < 2 ^ 64 then .ok (a + b) else .error (.invalidConfig message)

/-- `u32::try_from`. -/
def checkU32 (a : Nat) (message : String) : Except Error Unit :=
  if a < 2 ^ 32 then .ok () else .error (.invalidConfig message)

namespace MessageTransportBuilder

variable (b : MessageTransportBuilder)

def validate : Except Error Unit :=
  if b.recvBufferCount = 0 then .error (.invalidConfig "recv_buffers must be > 0")
  else if b.sendBufferCount = 0 then .error (.invalidConfig "send_buffers must be > 0")
  else if b.bufferSize = 0 then .error (.invalidConfig "buffer_size must be > 0")
  else if b.helloDeadline < minMessageHelloDeadline ∨ maxMessageHelloDeadline < b.helloDeadline then
    .error (.invalidConfig "message HELLO deadline must be in 1ms..=300s")
  else .ok ()

/-- The connection of the configuration, or one with exactly the work requests
that the protocol needs. -/
def deriveConnection (requiredSendWr requiredRecvWr : Nat) : Except Error RdmaConnectionConfig :=
  match b.connectionConfig with
  | some config =>
    if config.maxSendWr < requiredSendWr then
      .error (.invalidConfig
        (s!"connection maximum send WRs ({config.maxSendWr}) is below the message " ++
          s!"requirement ({requiredSendWr})"))
    else if config.maxRecvWr < requiredRecvWr then
      .error (.invalidConfig
        (s!"connection maximum receive WRs ({config.maxRecvWr}) is below the message " ++
          s!"requirement ({requiredRecvWr})"))
    else .ok config
  | none => .ok { maxSendWr := requiredSendWr, maxRecvWr := requiredRecvWr }

def deriveEngineConfig : Except Error EngineMessageConfig := do
  b.validate
  let controls ← checkedAdd b.sendBufferCount ctrlSendCount "message send WR derivation overflow"
  let requiredSendWr ← checkedAdd controls 1 "message send WR derivation overflow"
  let requiredRecvWr ← checkedAdd b.recvBufferCount ctrlRecvCount
    "message receive WR derivation overflow"
  let mrSize ← checkedAdd headerSize b.bufferSize "message MR size overflow"
  checkU32 b.recvBufferCount "recv_buffers does not fit the HELLO wire field"
  checkU32 b.bufferSize "buffer_size does not fit the HELLO wire field"
  checkU32 mrSize "message MR size does not fit a receive SGE"
  let connection ← b.deriveConnection requiredSendWr requiredRecvWr
  return {
    connection
    sendCount := b.sendBufferCount
    recvCount := b.recvBufferCount
    bufferSize := b.bufferSize
    mrSize
    helloDeadline := b.helloDeadline }

end MessageTransportBuilder

/-- The endpoint is set up from a configuration that a builder derives. -/
structure Endpoint.Configured (e : Endpoint) : Prop where
  derived : ∃ b config, MessageTransportBuilder.deriveEngineConfig b = .ok config ∧
    e.recvCount = config.recvCount ∧ e.bufferSize = config.bufferSize ∧
    e.receives.length = config.recvCount + ctrlRecvCount

theorem bind_eq_ok {α β : Type} {x : Except Error α} {f : α → Except Error β} {b : β}
    (h : (x >>= f) = .ok b) : ∃ a, x = .ok a ∧ f a = .ok b := by
  cases x with
  | error => cases h
  | ok a => exact ⟨a, rfl, h⟩

theorem checkU32_eq_ok {a : Nat} {message : String} {u : Unit}
    (h : checkU32 a message = .ok u) : a < 2 ^ 32 := by
  unfold checkU32 at h
  split at h
  next hlt => exact hlt
  · cases h

/-- What the derivation has checked. -/
theorem deriveEngineConfig_eq_ok {b : MessageTransportBuilder} {config : EngineMessageConfig}
    (h : b.deriveEngineConfig = .ok config) :
    0 < config.recvCount ∧ config.recvCount < 2 ^ 32 ∧ config.bufferSize < 2 ^ 32 := by
  obtain ⟨_, hvalid, h⟩ := bind_eq_ok h
  obtain ⟨_, -, h⟩ := bind_eq_ok h
  obtain ⟨_, -, h⟩ := bind_eq_ok h
  obtain ⟨_, -, h⟩ := bind_eq_ok h
  obtain ⟨_, -, h⟩ := bind_eq_ok h
  obtain ⟨_, hrecv, h⟩ := bind_eq_ok h
  obtain ⟨_, hsize, h⟩ := bind_eq_ok h
  obtain ⟨_, -, h⟩ := bind_eq_ok h
  obtain ⟨_, -, h⟩ := bind_eq_ok h
  cases h
  refine ⟨?_, checkU32_eq_ok hrecv, checkU32_eq_ok hsize⟩
  unfold MessageTransportBuilder.validate at hvalid
  split at hvalid
  · cases hvalid
  next hpos => exact Nat.pos_of_ne_zero hpos

theorem Endpoint.Configured.bounds {e : Endpoint} (h : e.Configured) :
    0 < e.recvCount ∧ e.recvCount < 2 ^ 32 ∧ e.bufferSize < 2 ^ 32 := by
  obtain ⟨b, _, hderived, hrecv, hsize, -⟩ := h.derived
  rw [hrecv, hsize]
  exact deriveEngineConfig_eq_ok hderived

/-- What an endpoint has done. -/
structure Journal where
  /-- The payload of each send request, by its number. -/
  enqueued : List (List UInt8)
  posted : List PostedSend
  reposted : List Mr
  /-- Receives that completed with an error. -/
  failed : Nat
  returned : List (List UInt8)
deriving Repr, DecidableEq

namespace Journal

def empty : Journal where
  enqueued := []
  posted := []
  reposted := []
  failed := 0
  returned := []

/-- A step adds what it appends to the queues of the queue pair and to the
messages that the application holds. -/
def record (j : Journal) (l : NodeLabel) (n n' : MessageNode) : Journal where
  enqueued := j.enqueued ++ l.enqueued
  posted := j.posted ++ n'.sq.drop n.sq.length
  reposted := j.reposted ++ n'.rq.drop n.rq.length
  failed := j.failed + (n.rq.length - n'.rq.length)
  returned := j.returned ++ (n'.held.drop n.held.length).map payload

end Journal

structure Exchange where
  nodes : Duplex MessageNode
  journals : Duplex Journal
deriving Repr, DecidableEq

namespace Exchange

def start (ends : Duplex Endpoint) : Exchange where
  nodes := Conversation.start ends
  journals := ⟨.empty, .empty⟩

def step (x : Exchange) : ConversationLabel → Option Exchange
  | .node side label =>
    if label.isLocal then
      ((x.nodes.get side).step label).map fun n =>
        { nodes := x.nodes.set side n
          journals := x.journals.set side
            ((x.journals.get side).record label (x.nodes.get side) n) }
    else none
  | .deliver side =>
    (x.nodes.get side).transmit.bind fun sent =>
      ((x.nodes.get side.other).arrive (.ok sent.2.bytes)).map fun n =>
        { x with nodes := (x.nodes.set side sent.1).set side.other n }

end Exchange

/-- The number of the request that a send carries. -/
def PostedSend.request (send : PostedSend) : Option Nat :=
  match send.context with
  | .send request => some request
  | .helloSend | .receive | .controlSend => none

open PostedSend (request bytes)

def EngineMessageEvent.request : EngineMessageEvent → Option Nat
  | sendRequest request => some request
  | start | repost _ => none

/-- The send carries the frame: a HELLO, the payload of its request, or credits. -/
inductive Framed (enqueued : List (List UInt8)) (capacity size : Nat) (send : PostedSend) :
    Frame → Prop
  | hello (hcontext : send.context = .helloSend)
      (hbytes : send.bytes = (Frame.hello capacity size).bytes) :
      Framed enqueued capacity size send (.hello capacity size)
  | data {request : Nat} {payload : List UInt8} (hcontext : send.context = .send request)
      (hpayload : enqueued[request]? = some payload) (hsize : payload.length ≤ size)
      (hbytes : send.bytes = (Frame.data payload).bytes) :
      Framed enqueued capacity size send (.data payload)
  | credit {credits : Nat} (hcontext : send.context = .controlSend) (hpos : 0 < credits)
      (hfits : credits < 2 ^ 32) (hbytes : send.bytes = (Frame.credit credits).bytes) :
      Framed enqueued capacity size send (.credit credits)

namespace Framed

variable {enqueued enqueued' : List (List UInt8)} {capacity size : Nat} {send : PostedSend}
  {frame : Frame}

variable (h : Framed enqueued capacity size send frame)

include h

theorem mono (hmore : enqueued <+: enqueued') : Framed enqueued' capacity size send frame := by
  cases h with
  | hello hcontext hbytes => exact .hello hcontext hbytes
  | credit hcontext hpos hfits hbytes => exact .credit hcontext hpos hfits hbytes
  | data hcontext hpayload hsize hbytes =>
    obtain ⟨_, rfl⟩ := hmore
    refine .data hcontext ?_ hsize hbytes
    rw [List.getElem?_append_left (List.getElem?_eq_some_iff.mp hpayload).1]
    exact hpayload

theorem bytes : send.bytes = frame.bytes := by
  cases h <;> assumption

theorem fits (hcapacity : capacity < 2 ^ 32) (hsize : size < 2 ^ 32) : frame.Fits := by
  cases h with
  | hello => exact ⟨hcapacity, hsize⟩
  | data _ _ hlen => exact lt_of_le_of_lt hlen hsize
  | credit _ _ hfits => exact hfits

end Framed

/-- Each request that has its buffer holds the frame of its payload, and a
credit. -/
structure Holds (size : Nat) (enqueued : List (List UInt8)) (requests : List RequestView) :
    Prop where
  length : requests.length = enqueued.length
  framed : ∀ (request : Nat) (r : RequestView) (mr : Mr), requests[request]? = some r →
    r.mr = some mr → r.credit = true ∧ ∃ payload, enqueued[request]? = some payload ∧
      payload.length ≤ size ∧ mr.content = writeDataFrame payload ∧
      r.frameLen = mr.content.length

variable {enqueued : List (List UInt8)}

/-- An update that leaves a request alone or takes its buffer. -/
theorem Holds.modify {size : Nat} {requests : List RequestView}
    (h : Holds size enqueued requests) {f : RequestView → RequestView}
    (hf : ∀ r, (f r).mr = none ∨ (f r).mr = r.mr ∧ (f r).credit = r.credit ∧
      (f r).frameLen = r.frameLen) (index : Nat) :
    Holds size enqueued (requests.modify index f) := by
  refine ⟨by rw [length_modify, h.length], ?_⟩
  intro request r mr hr hmr
  rw [List.getElem?_modify] at hr
  obtain ⟨r₀, hr₀, rfl⟩ := Option.map_eq_some_iff.mp hr
  split at hmr
  next hindex =>
    rw [if_pos hindex]
    rcases hf r₀ with hnone | ⟨hsame, hcredit, hlen⟩
    · cases hnone.symm.trans hmr
    · rw [hcredit, hlen]
      exact h.framed request r₀ mr hr₀ (hsame ▸ hmr)
  next hindex =>
    rw [if_neg hindex]
    exact h.framed request r₀ mr hr₀ hmr

theorem Holds.enqueue {size : Nat} {requests : List RequestView} (h : Holds size enqueued requests)
    {data : List UInt8} (hsize : data.length ≤ size) {mr : Mr} {committed : Bool} :
    Holds size (enqueued ++ [data])
      (requests ++
        [{ mr := some { mr with content := writeDataFrame data }, credit := true, committed
           frameLen := (writeDataFrame data).length }]) := by
  refine ⟨by simp [h.length], ?_⟩
  intro request r m hr hmr
  by_cases hold : request < requests.length
  · rw [List.getElem?_append_left hold] at hr
    rw [List.getElem?_append_left (h.length ▸ hold)]
    exact h.framed request r m hr hmr
  · have hlast : request = requests.length := by
      have hlt := (List.getElem?_eq_some_iff.mp hr).1
      rw [length_append, length_singleton] at hlt
      omega
    subst hlast
    rw [List.getElem?_concat_length] at hr
    cases hr
    cases hmr
    refine ⟨rfl, data, ?_, hsize, rfl, rfl⟩
    rw [h.length]
    exact List.getElem?_concat_length

namespace TransportView

/-- The sends that wait for admission. -/
def sends (v : TransportView) : List PostedSend :=
  v.admission.flatMap (·.batch.posts)

/-- The requests that the transport has not taken up. -/
def queued (v : TransportView) : List Nat :=
  v.events.filterMap EngineMessageEvent.request

variable {v w : TransportView} {out : Option ProtocolCommand}

theorem queued_cons {event : EngineMessageEvent} {events : List EngineMessageEvent}
    (h : v.events = event :: events) :
    v.queued = event.request.toList ++ { v with events }.queued := by
  simp only [queued, h]
  cases hrequest : event.request <;> simp [hrequest]

/-- A rollback leaves all but the credit counts and the commitments alone. -/
theorem rollback_eq (v : TransportView) (request : Nat) : ∃ requests inFlight available,
      v.rollback request = { v with requests, inFlight, available } ∧ (requests = v.requests ∨
        requests = v.requests.modify request fun r => { r with committed := false }) := by
  unfold rollback
  split
  · simp only
    split
    · exact ⟨_, v.inFlight, v.available, rfl, .inr rfl⟩
    · exact ⟨_, v.inFlight - 1, v.available + 1, rfl, .inr rfl⟩
  · exact ⟨v.requests, v.inFlight, v.available, rfl, .inl rfl⟩

theorem Submitted.sends {batch : ProtocolBatch} {transition : PendingProtocolTransition}
    (h : Submitted v batch transition w) : w.sends <+ v.sends ++ batch.posts := by
  cases h with
  | admitted => simp [TransportView.sends]
  | refused => exact sublist_append_left _ _

/-- A submission leaves the requests and the queued events alone. -/
theorem Submitted.frame {batch : ProtocolBatch} {transition : PendingProtocolTransition}
    (h : Submitted v batch transition w) :
    w.size = v.size ∧ w.capacity = v.capacity ∧ w.requests = v.requests ∧
      w.events = v.events := by
  cases h <;> exact ⟨rfl, rfl, rfl, rfl⟩

/-- What an action does to the sends on their way: it takes up the oldest
requests, and what it adds is framed. -/
structure Sends (enqueued : List (List UInt8)) (v : TransportView) (out : Option ProtocolCommand)
    (w : TransportView) (popped : List Nat) (added : List PostedSend) : Prop where
  size : w.size = v.size
  capacity : w.capacity = v.capacity
  queued : v.queued = popped ++ w.queued
  sends : out.toList.flatMap (·.batch.posts) ++ w.sends <+ v.sends ++ added
  requests : added.filterMap PostedSend.request <+ popped
  framed : ∀ send ∈ added, ∃ frame, Framed enqueued v.capacity v.size send frame
  holds : Holds v.size enqueued w.requests

variable {enqueued : List (List UInt8)}

/-- An action that adds no send. -/
theorem Sends.quiet {popped : List Nat} (hsize : w.size = v.size)
    (hcapacity : w.capacity = v.capacity) (hqueued : v.queued = popped ++ w.queued)
    (hsends : out.toList.flatMap (·.batch.posts) ++ w.sends <+ v.sends)
    (hholds : Holds v.size enqueued w.requests) : Sends enqueued v out w popped [] :=
  ⟨hsize, hcapacity, hqueued, by rwa [append_nil], nil_sublist _, nofun, hholds⟩

theorem Sends.submit {popped : List Nat}
    {batch : ProtocolBatch} {transition : PendingProtocolTransition} {u : TransportView}
    (hsubmit : Submitted u batch transition w) (hsize : u.size = v.size)
    (hcapacity : u.capacity = v.capacity) (hqueued : v.queued = popped ++ u.queued)
    (hsends : u.sends = v.sends)
    (hrequests : batch.posts.filterMap request <+ popped)
    (hframed : ∀ send ∈ batch.posts, ∃ frame, Framed enqueued v.capacity v.size send frame)
    (hholds : Holds v.size enqueued u.requests) :
    Sends enqueued v none w popped batch.posts := by
  obtain ⟨hsize', hcapacity', hrequests', hevents'⟩ := hsubmit.frame
  refine ⟨hsize'.trans hsize, hcapacity'.trans hcapacity, ?_, ?_, hrequests, hframed, ?_⟩
  · rw [hqueued]
    exact congrArg _ (congrArg (List.filterMap _) hevents'.symm)
  · rw [← hsends]
    exact hsubmit.sends
  · rw [hrequests']
    exact hholds

/-- The frame of a request as it goes to the queue pair. -/
theorem framed_request {capacity size request : Nat}
    {requests : List RequestView} (h : Holds size enqueued requests) {r : RequestView}
    {mr : Mr} (hr : requests[request]? = some r) (hmr : r.mr = some mr) :
    ∃ frame, Framed enqueued capacity size ⟨mr, r.frameLen, .send request⟩ frame := by
  obtain ⟨-, _, hpayload, hsize, hcontent, hlen⟩ := h.framed request r mr hr hmr
  refine ⟨_, .data rfl hpayload hsize ?_⟩
  simp only [bytes, hlen, take_length, hcontent]
  rfl

theorem framed_creditFrame {capacity size owing : Nat} (howing : 0 < owing) (mr : Mr) :
    ∀ send ∈ (creditFrame mr (EngineMessageState.claimPendingCreditReturns owing)).posts,
      ∃ frame, Framed enqueued capacity size send frame := by
  intro send hsend
  obtain rfl := mem_singleton.mp hsend
  refine ⟨_, .credit rfl ?_ ?_ take_length⟩
  · unfold EngineMessageState.claimPendingCreditReturns
    omega
  · unfold EngineMessageState.claimPendingCreditReturns
    omega

theorem Action.sends (h : Action v out w) (hholds : Holds v.size enqueued v.requests) :
    ∃ popped added, Sends enqueued v out w popped added := by
  have htaken (request : Nat) : Holds v.size enqueued (v.requests.modify request .taken) :=
    hholds.modify (fun _ => .inl rfl) request
  cases h with
  | @skip event _ hevents =>
    exact ⟨event.request.toList, [], .quiet rfl rfl (queued_cons hevents) (Sublist.refl _) hholds⟩
  | @release request events r hevents hr =>
    exact ⟨[request], [], .quiet rfl rfl (queued_cons hevents) (Sublist.refl _) (htaken request)⟩
  | @send request events r mr w hevents hready hr hmr hsubmit =>
    refine ⟨[request], _, .submit hsubmit rfl rfl (queued_cons hevents) rfl (Sublist.refl _) ?_ ?_⟩
    · intro send hsend
      obtain rfl := mem_singleton.mp hsend
      exact framed_request hholds hr hmr
    · exact hholds.modify (fun _ => .inl rfl) request
  | repost hevents hready hsubmit =>
    exact ⟨[], _, .submit hsubmit rfl rfl (queued_cons hevents) rfl (Sublist.refl _)
      nofun hholds⟩
  | announce hevents hfirst hsubmit =>
    refine ⟨[], _, .submit hsubmit rfl rfl (queued_cons hevents) rfl (Sublist.refl _) ?_ hholds⟩
    intro send hsend
    obtain rfl := mem_singleton.mp hsend
    exact ⟨_, .hello rfl take_length⟩
  | flush _ howing hsubmit =>
    exact ⟨[], _, .submit hsubmit rfl rfl rfl rfl (Sublist.refl _)
      (framed_creditFrame howing _) hholds⟩
  | handOver hadmission | cancel hadmission | reject hadmission =>
    refine ⟨[], [], .quiet rfl rfl rfl ?_ hholds⟩
    simp [TransportView.sends, hadmission]
  | credit _ _ _ _ _ _ _ _ _ hsubmit | hear _ _ _ _ _ _ _ _ _ hsubmit =>
    exact ⟨[], _, .submit hsubmit rfl rfl rfl rfl (Sublist.refl _) nofun hholds⟩
  | receipt | grant | message | confirm | returned =>
    exact ⟨[], [], .quiet rfl rfl rfl (Sublist.refl _) hholds⟩
  | @sent _ request port =>
    split
    · obtain ⟨_, _, _, hrolled, hrequests⟩ :=
        { v with port }.rollback_eq request
      rw [hrolled]
      refine ⟨[], [], .quiet rfl rfl rfl (Sublist.refl _) ?_⟩
      rcases hrequests with rfl | rfl
      · exact hholds
      · apply hholds.modify
        exact fun r => .inr ⟨rfl, rfl, rfl⟩
    · exact ⟨[], [], .quiet rfl rfl rfl (Sublist.refl _) hholds⟩

end TransportView

/-- The sends of an endpoint, posted and on their way, with the requests not yet
taken up: they are framed, and their requests in the order of enqueueing. -/
structure Ordered (capacity size : Nat) (enqueued : List (List UInt8))
    (sends : List PostedSend) (queued : List Nat) : Prop where
  order : (sends.filterMap PostedSend.request ++ queued).Pairwise (· < ·)
  bound : ∀ request ∈ sends.filterMap PostedSend.request ++ queued, request < enqueued.length
  framed : ∀ send ∈ sends, ∃ frame, Framed enqueued capacity size send frame

namespace Ordered

variable {capacity size : Nat} {enqueued : List (List UInt8)} {sends sends' : List PostedSend}
  {queued queued' : List Nat}

variable (h : Ordered capacity size enqueued sends queued)

include h

/-- Requests are taken up, sends are added for them, and some sends are dropped. -/
theorem take_up {popped : List Nat} {added : List PostedSend}
    (hqueued : queued = popped ++ queued') (hsends : sends' <+ sends ++ added)
    (hrequests : added.filterMap request <+ popped)
    (hframed : ∀ send ∈ added, ∃ frame, Framed enqueued capacity size send frame) :
    Ordered capacity size enqueued sends' queued' := by
  have hsublist : sends'.filterMap request ++ queued' <+ sends.filterMap request ++ queued := by
    rw [hqueued, ← append_assoc]
    refine Sublist.append ((hsends.filterMap _).trans ?_) (Sublist.refl _)
    rw [filterMap_append]
    exact (Sublist.refl _).append hrequests
  refine ⟨h.order.sublist hsublist, fun request hrequest => ?_, fun send hsend => ?_⟩
  · exact h.bound request (hsublist.subset hrequest)
  · exact forall_mem_append.mpr ⟨h.framed, hframed⟩ send (hsends.subset hsend)

theorem sublist (hsends : sends' <+ sends) (hqueued : queued' <+ queued) :
    Ordered capacity size enqueued sends' queued' := by
  have hsublist := (hsends.filterMap request).append hqueued
  exact ⟨h.order.sublist hsublist, fun request hrequest =>
    h.bound request (hsublist.subset hrequest), fun send hsend =>
    h.framed send (hsends.subset hsend)⟩

/-- A new request comes last. -/
theorem enqueue (data : List UInt8) :
    Ordered capacity size (enqueued ++ [data]) sends (queued ++ [enqueued.length]) := by
  refine ⟨?_, ?_, fun send hsend => ?_⟩
  · rw [← append_assoc, pairwise_append]
    refine ⟨h.order, pairwise_singleton _ _, fun request hrequest last hlast => ?_⟩
    rw [mem_singleton.mp hlast]
    exact h.bound request hrequest
  · intro request hrequest
    rw [← append_assoc, mem_append, mem_singleton] at hrequest
    rw [length_append, length_singleton]
    rcases hrequest with hrequest | rfl
    · exact Nat.lt_succ_of_lt (h.bound request hrequest)
    · exact Nat.lt_succ_self _
  · obtain ⟨frame, hframe⟩ := h.framed send hsend
    exact ⟨frame, hframe.mono (prefix_append _ _)⟩

theorem more (data : List (List UInt8)) :
    Ordered capacity size (enqueued ++ data) sends queued := by
  refine ⟨h.order, fun request hrequest => ?_, fun send hsend => ?_⟩
  · rw [length_append]
    exact Nat.lt_add_right _ (h.bound request hrequest)
  · obtain ⟨frame, hframe⟩ := h.framed send hsend
    exact ⟨frame, hframe.mono (prefix_append _ _)⟩

end Ordered

namespace NodeView

/-- The sends on their way to the queue pair. -/
def sends (v : NodeView) : List PostedSend :=
  v.queue.flatMap ProtocolQueueEntry.posts ++ v.transport.sends

theorem posts_appendBounded (v : NodeView) (events : List IoEvent) (room : Nat) :
    (v.appendBounded events room).queue.flatMap posts =
      v.queue.flatMap posts := by
  unfold appendBounded
  simp only
  split
  · rfl
  · simp [posts]

/-- A live endpoint that has enqueued the payloads and posted the sends. -/
structure Sender (capacity size : Nat) (enqueued : List (List UInt8))
    (posted : List PostedSend) (v : NodeView) : Prop where
  capacity_eq : v.transport.capacity = capacity
  size_eq : v.transport.size = size
  holds : Holds size enqueued v.transport.requests
  ordered : Ordered capacity size enqueued (posted ++ v.sends) v.transport.queued

variable {capacity size : Nat} {enqueued : List (List UInt8)} {posted : List PostedSend}
  {v v' : NodeView}

variable (h : Sender capacity size enqueued posted v)

include h

/-- A step that leaves the requests and the commands alone. -/
theorem Sender.keep (hcapacity : v'.transport.capacity = v.transport.capacity)
    (hsize : v'.transport.size = v.transport.size)
    (hrequests : v'.transport.requests = v.transport.requests)
    (hsends : v'.sends <+ v.sends) (hqueued : v'.transport.queued = v.transport.queued) :
    Sender capacity size enqueued posted v' := by
  refine ⟨hcapacity.trans h.capacity_eq, hsize.trans h.size_eq, hrequests ▸ h.holds, ?_⟩
  rw [hqueued]
  exact h.ordered.sublist ((Sublist.refl _).append hsends) (Sublist.refl _)

/-- The oldest entry of the queue leaves it, and what it publishes is no send. -/
theorem Sender.serve {entry : ProtocolQueueEntry} {queue : List ProtocolQueueEntry}
    (hqueue : v.queue = entry :: queue) (events : List IoEvent) (room : Nat) :
    Sender capacity size enqueued posted ({ v with queue }.appendBounded events room) := by
  refine h.keep rfl rfl rfl ?_ rfl
  rw [sends, posts_appendBounded, sends, hqueue]
  exact (sublist_append_right _ _).append (Sublist.refl _)

theorem Sender.act {out : Option ProtocolCommand} {t : TransportView}
    (haction : TransportView.Action v.transport out t) : Sender capacity size enqueued posted
      { v with
        transport := t
        queue := v.queue ++ (out.map command).toList } := by
  obtain ⟨rfl, rfl, hholds, hordered⟩ := h
  obtain ⟨_, _, hsends⟩ := haction.sends hholds
  refine ⟨hsends.capacity, hsends.size, hsends.holds, ?_⟩
  refine hordered.take_up hsends.queued ?_ hsends.requests hsends.framed
  have hout : (out.map command).toList.flatMap posts = out.toList.flatMap (·.batch.posts) := by
    cases out <;> simp [posts]
  simp only [sends, flatMap_append, append_assoc, hout]
  refine (Sublist.refl _).append ((Sublist.refl _).append ?_)
  exact hsends.sends

/-- A call posts nothing. -/
theorem Sender.call {data : List (List UInt8)} (hcall : v.Call data v') :
    Sender capacity size (enqueued ++ data) posted v' ∧ v'.sq = v.sq := by
  have hsame {w : NodeView} (hw : Sender capacity size enqueued posted w) :
      Sender capacity size (enqueued ++ []) posted w := by
    rw [append_nil]
    exact hw
  cases hcall with
  | acquire | abandon | recv =>
    exact ⟨hsame (h.keep rfl rfl rfl (Sublist.refl _) rfl), rfl⟩
  | drop hheld =>
    refine ⟨hsame (h.keep rfl rfl rfl (Sublist.refl _) ?_), rfl⟩
    simp [TransportView.queued, EngineMessageEvent.request]
  | enqueue data mr hacquired hsize =>
    refine ⟨⟨h.capacity_eq, h.size_eq, h.holds.enqueue (h.size_eq ▸ hsize), ?_⟩, rfl⟩
    have hqueued : (v.transport.events ++
        [EngineMessageEvent.sendRequest v.transport.requests.length]).filterMap
        EngineMessageEvent.request = v.transport.queued ++ [enqueued.length] := by
      rw [filterMap_append, h.holds.length]
      rfl
    rw [TransportView.queued, hqueued]
    exact h.ordered.enqueue data
  | act haction => exact ⟨hsame (h.act haction), rfl⟩

/-- What the reactor posts joins the sends posted before. -/
theorem Sender.work (hwork : v.Work v') :
    Sender capacity size enqueued (posted ++ v'.sq.drop v.sq.length) v' := by
  have hsame (w : NodeView) (hsq : w.sq = v.sq) (hw : Sender capacity size enqueued posted w) :
      Sender capacity size enqueued (posted ++ w.sq.drop v.sq.length) w := by
    rw [hsq, drop_length, append_nil]
    exact hw
  cases hwork with
  | keep => exact hsame _ rfl h
  | publish | fault | complete | dispatch | terminate =>
    exact hsame _ rfl (h.keep rfl rfl rfl (Sublist.refl _) rfl)
  | republish hqueue room | cancel hqueue _ room | reject hqueue _ room =>
    exact hsame _ rfl (h.serve hqueue _ room)
  | @post command queue hqueue disposition _ room =>
    have hsq : (({ v with queue }.post command).appendBounded
        [.submission command.id disposition] room).sq.drop v.sq.length =
        command.batch.posts := drop_left
    rw [hsq]
    refine ⟨h.capacity_eq, h.size_eq, h.holds, ?_⟩
    have hsends : posted ++ v.sends = posted ++ command.batch.posts ++
        (({ v with queue }.post command).appendBounded
          [.submission command.id disposition] room).sends := by
      rw [sends, hqueue, sends, posts_appendBounded]
      simp only [flatMap_cons, posts, append_assoc]
      rfl
    exact hsends ▸ h.ordered

theorem Sender.step {data : List (List UInt8)} (hstep : v.Step data v') :
    Sender capacity size (enqueued ++ data) (posted ++ v'.sq.drop v.sq.length) v' := by
  cases hstep with
  | call hcall =>
    obtain ⟨hsender, hsq⟩ := h.call hcall
    rw [hsq, drop_length, append_nil]
    exact hsender
  | work hwork =>
    rw [append_nil]
    exact h.work hwork

end NodeView

/-- The event brings a frame: a receive completed with bytes. -/
def IoEvent.isFrame : IoEvent → Bool
  | completion c =>
    match c.context, c.result with
    | .receive, .ok _ => true
    | _, _ => false
  | submission _ _ | terminal _ => false

open IoEvent (isFrame completion)

/-- The payload of the DATA frame that a send carries. -/
def PostedSend.data (send : PostedSend) : Option (List UInt8) :=
  dataOf send.bytes send.bytes.length

/-- The event brings the bytes of the send. -/
def Brings (e : IoEvent) (send : PostedSend) : Prop :=
  ∃ mr : Mr, e = .completion (mr.arrival send.bytes)

def ProtocolQueueEntry.published : ProtocolQueueEntry → List IoEvent
  | command _ => []
  | publication events => events

variable (command : ProtocolCommand)

theorem isFrame_unaccepted (error : Error) : (command.unaccepted error).isFrame = false := by
  cases hcontext : command.context <;>
    simp [ProtocolCommand.unaccepted, isFrame, hcontext]

theorem isFrame_rejectedEvents (error : Error) :
    ∀ e ∈ command.rejectedEvents error, e.isFrame = false := by
  intro e he
  rcases mem_pair.mp he with rfl | rfl
  · exact isFrame_unaccepted command error
  · rfl

theorem isFrame_cancelledEvents : ∀ e ∈ command.cancelledEvents, e.isFrame = false := by
  cases hcontext : command.context <;>
    simp [ProtocolCommand.cancelledEvents, ProtocolCommand.cancelled, isFrame, hcontext]

variable {capacity size : Nat} {send : PostedSend} {frame : Frame}

/-- What the header of a framed send says, read from a buffer that holds it. -/
theorem Framed.parseHeader (h : Framed enqueued capacity size send frame)
    (hcapacity : capacity < 2 ^ 32) (hsize : size < 2 ^ 32) (rest : List UInt8) :
    parseHeader (send.bytes ++ rest) send.bytes.length =
      .ok ⟨frame.frameType, frame.payload.length⟩ := by
  rw [h.bytes]
  exact Frame.parseHeader_bytes (h.fits hcapacity hsize) rest

theorem Framed.payloadOf (h : Framed enqueued capacity size send frame) (rest : List UInt8) :
    payloadOf (send.bytes ++ rest) ⟨frame.frameType, frame.payload.length⟩ =
      frame.payload := by
  rw [h.bytes]
  exact Frame.payloadOf_bytes frame rest

/-- A framed send carries data for its request only. -/
theorem Framed.data_eq (h : Framed enqueued capacity size send frame)
    (hcapacity : capacity < 2 ^ 32) (hsize : size < 2 ^ 32) :
    send.data = if frame.frameType = frameData then some frame.payload else none := by
  have hheader := h.parseHeader hcapacity hsize []
  have hpayload := h.payloadOf []
  rw [append_nil] at hheader hpayload
  simp only [PostedSend.data, dataOf, hheader, hpayload]

namespace TransportView

variable {v w : TransportView} {out : Option ProtocolCommand}

/-- The frames that the transport has not looked at. -/
def frames (v : TransportView) : List IoEvent :=
  v.port.filter IoEvent.isFrame

theorem frames_pop {e : IoEvent} {port : List IoEvent} (hport : v.port = e :: port)
    (he : e.isFrame = false) : v.frames = { v with port }.frames := by
  rw [frames, hport, filter_cons_of_neg (by simp [he])]
  rfl

theorem frames_pop_frame {c : IoCompletionEvent} {port : List IoEvent} {len : Nat}
    (hport : v.port = .completion c :: port) (hcontext : c.context = .receive)
    (hresult : c.result = .ok len) : v.frames = .completion c :: { v with port }.frames := by
  rw [frames, hport, filter_cons_of_pos (by simp [isFrame, hcontext, hresult])]
  rfl

theorem frames_append (v : TransportView) {events : List IoEvent}
    (hevents : ∀ e ∈ events, e.isFrame = false) :
    { v with port := v.port ++ events }.frames = v.frames := by
  have hnone : events.filter isFrame = [] :=
    filter_eq_nil_iff.mpr (by simpa using hevents)
  rw [frames, filter_append, hnone, append_nil]
  rfl

/-- What an action takes from the port: no frame, or one frame, whose payload is
received if it is data. -/
inductive Takes (v w : TransportView) : Prop
  | quiet (hframes : w.frames = v.frames) (hreceived : w.received = v.received)
  | frame {c : IoCompletionEvent} {mr : Mr} {len : Nat} {header : FrameHeader}
      (hframes : v.frames = .completion c :: w.frames)
      (hresult : c.result = .ok len) (hmr : c.mr = some mr)
      (hheader : parseHeader mr.content len = .ok header)
      (hreceived : w.received = v.received ++
        if header.frameType = frameData then [{ mr, byteLen := header.payloadLen }] else [])

theorem Submitted.takes {batch : ProtocolBatch} {transition : PendingProtocolTransition}
    (h : Submitted v batch transition w) : w.frames = v.frames ∧ w.received = v.received := by
  cases h with
  | admitted => exact ⟨rfl, rfl⟩
  | refused error =>
    refine ⟨v.frames_append ?_, rfl⟩
    exact fun e he => mem_singleton.mp he ▸ isFrame_unaccepted _ error

theorem Action.takes (h : Action v out w) : Takes v w := by
  cases h with
  | skip | release | handOver => exact .quiet rfl rfl
  | send _ _ _ _ hsubmit | repost _ _ hsubmit | announce _ _ hsubmit | flush _ _ hsubmit =>
    exact .quiet hsubmit.takes.1 hsubmit.takes.2
  | cancel =>
    exact .quiet (v.frames_append (isFrame_cancelledEvents _)) rfl
  | reject hadmission error =>
    exact .quiet (v.frames_append (isFrame_rejectedEvents _ error)) rfl
  | receipt hport | grant hport => exact .quiet (frames_pop hport rfl).symm rfl
  | confirm hport hcontext hresult haccepted | returned hport hcontext hresult =>
    exact .quiet (frames_pop hport (by simp [isFrame, hcontext])).symm rfl
  | @sent c request port hport hcontext =>
    have hframes := frames_pop hport (by simp [isFrame, hcontext])
    split
    · obtain ⟨_, _, _, hrolled, -⟩ :=
        { v with port }.rollback_eq request
      rw [hrolled]
      exact .quiet hframes.symm rfl
    · exact .quiet hframes.symm rfl
  | message hport hcontext hresult hmr _ hheader htype =>
    refine .frame (frames_pop_frame hport hcontext hresult) hresult hmr hheader ?_
    rw [if_pos htype]
  | credit hport hcontext hresult hmr hready hheader htype hparse hspent hsubmit
  | hear hport hcontext hresult hmr hcreated hfirst hheader htype hparse hsubmit =>
    refine .frame ?_ hresult hmr hheader ?_
    · rw [hsubmit.takes.1]
      exact frames_pop_frame hport hcontext hresult
    · rw [hsubmit.takes.2, if_neg (by rw [htype]; decide), append_nil]

end TransportView

namespace NodeView

variable (v : NodeView)

/-- The events on their way to the transport, in order. -/
def arrivals : List IoEvent :=
  v.transport.port ++ v.turn ++ v.completions.map IoEvent.completion

def frames : List IoEvent :=
  v.arrivals.filter IoEvent.isFrame

theorem frames_eq : v.frames = v.transport.frames ++
      (v.turn ++ v.completions.map completion).filter isFrame := by
  rw [frames, arrivals, append_assoc, filter_append]
  rfl

/-- A live endpoint that has returned the payloads: it has taken some sends of
its peer, and others are inside it. -/
structure Receiver (returned : List (List UInt8)) (taken inside : List PostedSend)
    (v : NodeView) : Prop where
  frames : List.Forall₂ Brings v.frames inside
  messages : returned ++ v.transport.received.map payload = taken.filterMap PostedSend.data
  published : ∀ e ∈ v.queue.flatMap ProtocolQueueEntry.published, e.isFrame = false

variable {capacity size : Nat} {enqueued returned : List (List UInt8)}
  {taken inside : List PostedSend} {v v' : NodeView}

theorem Receiver.keep (h : Receiver returned taken inside v) (hframes : v'.frames = v.frames)
    (hreceived : v'.transport.received = v.transport.received)
    (hpublished : ∀ e ∈ v'.queue.flatMap ProtocolQueueEntry.published, e.isFrame = false) :
    Receiver returned taken inside v' :=
  ⟨hframes ▸ h.frames, hreceived ▸ h.messages, hpublished⟩

/-- Events that bring no frame may join the turn anywhere. -/
theorem frames_turn (v : NodeView) {events : List IoEvent}
    (hevents : ∀ e ∈ events, e.isFrame = false) :
    { v with turn := v.turn ++ events }.frames = v.frames := by
  have hnone : events.filter isFrame = [] :=
    filter_eq_nil_iff.mpr (by simpa using hevents)
  simp [frames, arrivals, filter_append, hnone]

section

/-- The reactor and the queue pair bring no frame by themselves, and no publication holds
one. -/
theorem Work.frames (hwork : v.Work v')
    (hpublished : ∀ e ∈ v.queue.flatMap ProtocolQueueEntry.published, e.isFrame = false)
    (hunacked : ∀ send ∈ v.unacked, send.context ≠ .receive) : v'.frames = v.frames ∧
      ∀ e ∈ v'.queue.flatMap ProtocolQueueEntry.published, e.isFrame = false := by
  have hbring {c : IoCompletionEvent} (hc : (completion c).isFrame = false) :
      { v with completions := v.completions ++ [c] }.frames = v.frames := by
    simp [NodeView.frames, arrivals, filter_append, hc]
  have hserve {entry : ProtocolQueueEntry} {queue : List ProtocolQueueEntry}
      (hqueue : v.queue = entry :: queue) {w : NodeView} (hframes : w.frames = v.frames)
      (hrest : w.queue = queue) {events : List IoEvent} (hevents : ∀ e ∈ events, e.isFrame = false)
      (room : Nat) : (w.appendBounded events room).frames = v.frames ∧
        ∀ e ∈ (w.appendBounded events room).queue.flatMap ProtocolQueueEntry.published,
          e.isFrame = false := by
    refine ⟨?_, fun e he => ?_⟩
    · rw [← hframes]
      exact w.frames_turn fun e he => hevents e (mem_of_mem_take he)
    · rw [hqueue, flatMap_cons] at hpublished
      simp only [appendBounded, hrest] at he
      split at he
      · exact hpublished e (mem_append_right _ he)
      · rcases mem_append.mp he with he | he
        · exact hevents e (mem_of_mem_drop he)
        · exact hpublished e (mem_append_right _ he)
  cases hwork with
  | keep => exact ⟨rfl, hpublished⟩
  | republish hqueue room =>
    refine hserve hqueue (by rfl) (by rfl) (fun e he => hpublished e ?_) room
    rw [hqueue]
    exact mem_append_left _ he
  | cancel hqueue _ room =>
    exact hserve hqueue (by rfl) (by rfl) (isFrame_cancelledEvents _) room
  | reject hqueue error room =>
    exact hserve hqueue (by rfl) (by rfl) (isFrame_rejectedEvents _ error) room
  | post hqueue haccepted room =>
    exact hserve hqueue (by rfl) (by rfl) (by simp [isFrame]) room
  | publish => exact ⟨by simp [NodeView.frames, arrivals], hpublished⟩
  | fault hrq error => exact ⟨hbring rfl, hpublished⟩
  | @complete send unacked hsend result =>
    refine ⟨hbring ?_, hpublished⟩
    have hcontext := hunacked send (by simp [hsend])
    cases hsendContext : send.context <;> simp_all [isFrame]
  | dispatch hcompletions =>
    exact ⟨by simp [NodeView.frames, arrivals, hcompletions], hpublished⟩
  | terminate event => exact ⟨v.frames_turn (by simp [isFrame]), hpublished⟩

/-- Work leaves the messages alone. -/
theorem Work.received (hwork : v.Work v') :
    v'.transport.received = v.transport.received ∧ v'.held = v.held := by
  cases hwork <;> exact ⟨rfl, rfl⟩

variable (h : Receiver returned taken inside v)

include h

theorem Receiver.work (hunacked : ∀ send ∈ v.unacked, send.context ≠ .receive)
    (hwork : v.Work v') : Receiver returned taken inside v' ∧ v'.held = v.held := by
  obtain ⟨hframes, hpublished⟩ := hwork.frames h.published hunacked
  exact ⟨h.keep hframes hwork.received.1 hpublished, hwork.received.2⟩

variable (hframed : ∀ send ∈ inside, ∃ frame, Framed enqueued capacity size send frame)
  (hcapacity : capacity < 2 ^ 32) (hsize : size < 2 ^ 32)

include hframed hcapacity hsize

/-- The frame at the head of the port is taken, and its payload received if it is
data. -/
theorem Receiver.act {out : Option ProtocolCommand} {t : TransportView}
    (haction : TransportView.Action v.transport out t) {queue : List ProtocolQueueEntry}
    (hpublished : ∀ e ∈ queue.flatMap ProtocolQueueEntry.published, e.isFrame = false) :
    ∃ moved rest, inside = moved ++ rest ∧
      Receiver returned (taken ++ moved) rest { v with transport := t, queue } := by
  cases haction.takes with
  | quiet hquiet hreceived =>
    refine ⟨[], inside, rfl, ?_⟩
    rw [append_nil]
    refine h.keep ?_ hreceived hpublished
    rw [frames_eq, frames_eq, hquiet]
  | @frame c _ _ _ htaken hresult hmr hheader hreceived =>
    have hframes : v.frames = .completion c ::
        { v with transport := t, queue }.frames := by
      rw [frames_eq, frames_eq, htaken, cons_append]
    have hbrings := h.frames
    rw [hframes] at hbrings
    cases hbrings with
    | @cons _ send _ rest hfirst hrest =>
    refine ⟨[send], rest, rfl, hrest, ?_, hpublished⟩
    obtain ⟨buffer, harrival⟩ := hfirst
    obtain rfl := completion.inj harrival
    obtain rfl := Except.ok.inj hresult
    cases hmr
    obtain ⟨_, hframe⟩ := hframed send mem_cons_self
    have hparsed := hframe.parseHeader hcapacity hsize (buffer.content.drop send.bytes.length)
    obtain rfl := Except.ok.inj (hparsed.symm.trans hheader)
    change returned ++ t.received.map payload = _
    rw [hreceived, map_append, ← append_assoc, h.messages, filterMap_append]
    congr 1
    rw [filterMap_cons, hframe.data_eq hcapacity hsize]
    split
    next htype =>
      have hpayload := hframe.payloadOf (buffer.content.drop send.bytes.length)
      simpa [htype, payload, payloadOf] using hpayload
    next htype => simp

/-- A call takes the oldest of the sends inside the endpoint, if any. -/
theorem Receiver.call {data : List (List UInt8)} (hcall : v.Call data v') :
    ∃ moved rest, inside = moved ++ rest ∧
      Receiver (returned ++ (v'.held.drop v.held.length).map payload)
        (taken ++ moved) rest v' := by
  have hkeep {w : NodeView} (hheld : w.held.length ≤ v.held.length)
      (hw : Receiver returned taken inside w) : ∃ moved rest, inside = moved ++ rest ∧
        Receiver (returned ++ (w.held.drop v.held.length).map payload)
          (taken ++ moved) rest w := by
    refine ⟨[], inside, rfl, ?_⟩
    rw [drop_eq_nil_of_le hheld, map_nil, append_nil, append_nil]
    exact hw
  cases hcall with
  | acquire | abandon | enqueue =>
    exact hkeep (le_refl _) (h.keep rfl rfl h.published)
  | drop =>
    exact hkeep (eraseIdx_sublist _ _).length_le (h.keep rfl rfl h.published)
  | @recv _ _ hreceived =>
    refine ⟨[], inside, rfl, ?_⟩
    rw [append_nil]
    refine ⟨h.frames, ?_, h.published⟩
    rw [← h.messages, hreceived]
    simp
  | @act out _ haction =>
    rw [drop_length, map_nil, append_nil]
    refine h.act hframed hcapacity hsize haction ?_
    cases out with
    | none => simpa using h.published
    | some => simpa [ProtocolQueueEntry.published] using h.published

theorem Receiver.step (hunacked : ∀ send ∈ v.unacked, send.context ≠ .receive)
    {data : List (List UInt8)} (hstep : v.Step data v') : ∃ moved rest, inside = moved ++ rest ∧
      Receiver (returned ++ (v'.held.drop v.held.length).map payload)
        (taken ++ moved) rest v' := by
  cases hstep with
  | call hcall => exact h.call hframed hcapacity hsize hcall
  | work hwork =>
    obtain ⟨hreceiver, hheld⟩ := h.work hunacked hwork
    refine ⟨[], inside, rfl, ?_⟩
    rw [hheld, drop_length, map_nil, append_nil, append_nil]
    exact hreceiver

end

/-- The queue pair's send queue only grows. -/
theorem Step.sq {data : List (List UInt8)} (h : v.Step data v') : v.sq <+: v'.sq := by
  rcases h with ⟨hcall⟩ | ⟨hwork⟩
  · cases hcall <;> exact prefix_rfl
  · cases hwork with
    | post => exact prefix_append _ _
    | _ => exact prefix_rfl

theorem Step.unacked {data : List (List UInt8)} (h : v.Step data v') :
    v'.unacked <:+ v.unacked := by
  rcases h with ⟨hcall⟩ | ⟨hwork⟩
  · cases hcall <;> exact suffix_rfl
  · cases hwork with
    | complete hunacked => rw [hunacked]; exact suffix_cons _ _
    | _ => exact suffix_rfl

end NodeView

namespace MessageNode

/-- An endpoint as a sender, live or closed. -/
def Sends (capacity size : Nat) (n : MessageNode) (j : Journal) : Prop :=
  n.msg.Alive ∧ n.view.Sender capacity size j.enqueued j.posted ∨
    n.msg.Dead ∧ Ordered capacity size j.enqueued j.posted []

/-- An endpoint as a receiver, live or closed. -/
def Receives (n : MessageNode) (j : Journal) (taken inside : List PostedSend) : Prop :=
  n.msg.Alive ∧ n.view.Receiver j.returned taken inside ∨
    n.msg.Dead ∧ j.returned ++ n.msg.received.map payload =
      taken.filterMap PostedSend.data

variable {capacity size : Nat} {n n' : MessageNode} {j : Journal}
  {taken inside : List PostedSend} {l : NodeLabel}

theorem Sends.posted (h : Sends capacity size n j) :
    Ordered capacity size j.enqueued j.posted [] := by
  rcases h with ⟨-, hsender⟩ | ⟨-, hordered⟩
  · exact hsender.ordered.sublist (sublist_append_left _ _) (nil_sublist _)
  · exact hordered

theorem Sends.step (h : Sends capacity size n j) (hlocal : l.isLocal = true)
    (hstep : n.step l = some n') : Sends capacity size n' (j.record l n n') := by
  have hclosed (hdead : n'.msg.Dead) (hsq : n'.sq = n.sq) :
      Sends capacity size n' (j.record l n n') := by
    refine .inr ⟨hdead, ?_⟩
    simp only [Journal.record, hsq, drop_length, append_nil]
    exact h.posted.more _
  rcases h with ⟨halive, hsender⟩ | ⟨hdead, hordered⟩
  · rcases outcome_step halive hlocal hstep with ⟨halive', hstep'⟩ | ⟨hhalts, hnone⟩
    · exact .inl ⟨halive', hsender.step hstep'⟩
    · exact hclosed hhalts.transport.dead hhalts.sq
  · have hidles := idles_step hdead hlocal hstep
    exact hclosed hidles.dead hidles.sq

theorem Receives.step (h : n.Receives j taken inside) {enqueued : List (List UInt8)}
    (hframed : ∀ send ∈ inside, ∃ frame, Framed enqueued capacity size send frame)
    (hcapacity : capacity < 2 ^ 32) (hsize : size < 2 ^ 32)
    (hunacked : ∀ send ∈ n.unacked, send.context ≠ .receive) (hlocal : l.isLocal = true)
    (hstep : n.step l = some n') : ∃ moved rest, inside = moved ++ rest ∧
      n'.Receives (j.record l n n') (taken ++ moved) rest := by
  rcases h with ⟨halive, hreceiver⟩ | ⟨hdead, hmessages⟩
  · rcases outcome_step halive hlocal hstep with ⟨halive', hstep'⟩ | ⟨hhalts, -⟩
    · obtain ⟨moved, rest, rfl, hreceiver'⟩ :=
        hreceiver.step hframed hcapacity hsize hunacked hstep'
      exact ⟨moved, rest, rfl, .inl ⟨halive', hreceiver'⟩⟩
    · refine ⟨[], inside, rfl, .inr ⟨hhalts.transport.dead, ?_⟩⟩
      simp only [Journal.record, hhalts.held, drop_length, map_nil, append_nil,
        hhalts.transport.received]
      exact hreceiver.messages
  · have hidles := idles_step hdead hlocal hstep
    refine ⟨[], inside, rfl, .inr ⟨hidles.dead, ?_⟩⟩
    rw [append_nil, ← hmessages, hidles.received]
    simp [Journal.record]

/-- The send queue of an endpoint grows by what the journal records. -/
theorem sq_record (halive : n.msg.Alive ∨ n.msg.Dead) (hlocal : l.isLocal = true)
    (hstep : n.step l = some n') :
    n.sq ++ n'.sq.drop n.sq.length = n'.sq ∧ n'.unacked <:+ n.unacked := by
  have hsame (hsq : n'.sq = n.sq) : n.sq ++ n'.sq.drop n.sq.length = n'.sq := by
    rw [hsq, drop_length, append_nil]
  rcases halive with halive | hdead
  · rcases outcome_step halive hlocal hstep with ⟨-, hstep'⟩ | ⟨hhalts, -⟩
    · exact ⟨prefix_iff_eq_append.mp hstep'.sq, hstep'.unacked⟩
    · exact ⟨hsame hhalts.sq, hhalts.unacked ▸ suffix_rfl⟩
  · have hidles := idles_step hdead hlocal hstep
    exact ⟨hsame hidles.sq, hidles.unacked⟩

end MessageNode

theorem Framed.context_ne (h : Framed enqueued capacity size send frame) :
    send.context ≠ .receive := by
  cases h with
  | hello hcontext | data hcontext | credit hcontext => rw [hcontext]; nofun

/-- The frames of one direction: taken by the receiver, inside it, and in the
send queue. -/
structure Passage (capacity size : Nat) (sender : MessageNode) (sent : Journal)
    (receiver : MessageNode) (got : Journal) (taken inside : List PostedSend) : Prop where
  posted : sent.posted = taken ++ inside ++ sender.sq
  unacked : ∀ send ∈ sender.unacked, send ∈ sent.posted
  sends : sender.Sends capacity size sent
  receives : receiver.Receives got taken inside

namespace Passage

variable {capacity size : Nat} {sender receiver n : MessageNode} {sent got : Journal}
  {taken inside : List PostedSend} {l : NodeLabel}

variable (h : Passage capacity size sender sent receiver got taken inside)

include h

theorem context_ne : ∀ send ∈ sender.unacked, send.context ≠ .receive := by
  intro send hsend
  obtain ⟨_, hframe⟩ := h.sends.posted.framed send (h.unacked send hsend)
  exact hframe.context_ne

theorem sender_step (hlocal : l.isLocal = true) (hstep : sender.step l = some n) :
    Passage capacity size n (sent.record l sender n) receiver got taken inside := by
  have halive : sender.msg.Alive ∨ sender.msg.Dead := h.sends.imp And.left And.left
  obtain ⟨hsq, hunacked⟩ := MessageNode.sq_record halive hlocal hstep
  refine ⟨?_, fun send hsend => ?_, h.sends.step hlocal hstep, h.receives⟩
  · rw [← hsq, ← append_assoc, ← h.posted]
    rfl
  · exact mem_append_left _ (h.unacked send (hunacked.subset hsend))

theorem receiver_step (hcapacity : capacity < 2 ^ 32) (hsize : size < 2 ^ 32)
    (hunacked : ∀ send ∈ receiver.unacked, send.context ≠ .receive) (hlocal : l.isLocal = true)
    (hstep : receiver.step l = some n) : ∃ moved rest, inside = moved ++ rest ∧
      Passage capacity size sender sent n (got.record l receiver n) (taken ++ moved) rest := by
  have hframed : ∀ send ∈ inside, ∃ frame, Framed sent.enqueued capacity size send frame := by
    intro send hsend
    apply h.sends.posted.framed
    rw [h.posted]
    exact mem_append_left _ (mem_append_right _ hsend)
  obtain ⟨moved, rest, rfl, hreceives⟩ :=
    h.receives.step hframed hcapacity hsize hunacked hlocal hstep
  refine ⟨moved, rest, rfl, ?_, h.unacked, h.sends, hreceives⟩
  rw [h.posted, append_assoc taken moved rest]

/-- A frame leaves the send queue and completes a receive. -/
theorem deliver {sender' receiver' : MessageNode} {send : PostedSend}
    (hsent : sender.transmit = some (sender', send))
    (harrived : receiver.arrive (.ok send.bytes) = some receiver') :
    Passage capacity size sender' sent receiver' got taken (inside ++ [send]) := by
  obtain ⟨sq, hsq, rfl⟩ := MessageNode.transmit_eq_some hsent
  obtain ⟨mr, rq, hrq, rfl⟩ := MessageNode.arrive_eq_some harrived
  have hposted : sent.posted = taken ++ (inside ++ [send]) ++ sq := by
    rw [h.posted, hsq]
    simp
  refine ⟨hposted, ?_, h.sends.imp ?_ ?_, h.receives.imp ?_ id⟩
  · refine forall_mem_append.mpr ⟨h.unacked, forall_mem_singleton.mpr ?_⟩
    rw [hposted]
    simp
  · exact fun ⟨halive, hsender⟩ => ⟨halive, { hsender with }⟩
  · exact fun ⟨hdead, hordered⟩ => ⟨hdead, hordered⟩
  · rintro ⟨halive, hreceiver⟩
    refine ⟨halive, ?_, hreceiver.messages, hreceiver.published⟩
    have hframes : ({ receiver with
        rq, cq := receiver.cq ++ [mr.arrival send.bytes] } : MessageNode).view.frames =
        receiver.view.frames ++ [.completion (mr.arrival send.bytes)] := by
      simp [NodeView.frames, NodeView.arrivals, MessageNode.view, MessageNode.msg,
        isFrame, Mr.arrival]
    rw [hframes]
    exact rel_append hreceiver.frames (.cons ⟨mr, rfl⟩ .nil)

/-- Neither end of the other direction notices. -/
theorem delivered {sender' receiver' : MessageNode} {send : PostedSend}
    (harrived : sender.arrive (.ok send.bytes) = some sender')
    (hsent : receiver.transmit = some (receiver', send)) :
    Passage capacity size sender' sent receiver' got taken inside := by
  obtain ⟨_, _, rfl⟩ := MessageNode.transmit_eq_some hsent
  obtain ⟨_, _, _, rfl⟩ := MessageNode.arrive_eq_some harrived
  refine ⟨h.posted, h.unacked, h.sends.imp ?_ id, h.receives.imp ?_ id⟩
  · exact fun ⟨halive, hsender⟩ => ⟨halive, { hsender with }⟩
  · exact fun ⟨halive, hreceiver⟩ => ⟨halive, { hreceiver with }⟩

end Passage

namespace Exchange

variable {ends : Duplex Endpoint} {x x' : Exchange}

/-- One direction of the exchange. -/
def Passes (ends : Duplex Endpoint) (x : Exchange) (side : Side)
    (taken inside : List PostedSend) : Prop :=
  Passage (ends.get side).recvCount (ends.get side).bufferSize (x.nodes.get side)
    (x.journals.get side) (x.nodes.get side.other) (x.journals.get side.other) taken inside

theorem step_node {side : Side} {l : NodeLabel} (h : x.step (.node side l) = some x') :
    l.isLocal = true ∧ ∃ n, (x.nodes.get side).step l = some n ∧
      x' = { nodes := x.nodes.set side n
             journals := x.journals.set side
               ((x.journals.get side).record l (x.nodes.get side) n) } := by
  simp only [step] at h
  split at h
  next hlocal =>
    obtain ⟨n, hn, rfl⟩ := Option.map_eq_some_iff.mp h
    exact ⟨hlocal, n, hn, rfl⟩
  · cases h

theorem step_deliver {side : Side} (h : x.step (.deliver side) = some x') :
    ∃ sender send receiver, (x.nodes.get side).transmit = some (sender, send) ∧
      (x.nodes.get side.other).arrive (.ok send.bytes) = some receiver ∧
      x' = { x with nodes := (x.nodes.set side sender).set side.other receiver } := by
  obtain ⟨⟨sender, send⟩, hsent, harrived⟩ := Option.bind_eq_some_iff.mp h
  obtain ⟨receiver, harrive, rfl⟩ := Option.map_eq_some_iff.mp harrived
  exact ⟨sender, send, receiver, hsent, harrive, rfl⟩

/-- Both directions of the exchange. -/
def Coherent (ends : Duplex Endpoint) (x : Exchange) : Prop :=
  ∀ side, ∃ taken inside, Passes ends x side taken inside

/-- Each step moves the frames of a direction forward. -/
theorem Coherent.step (hconfigured : ∀ s, (ends.get s).Configured) (h : Coherent ends x)
    {l : ConversationLabel} (hstep : x.step l = some x') : Coherent ends x' := by
  intro side
  cases l with
  | node p =>
    obtain ⟨hlocal, n, hn, rfl⟩ := step_node hstep
    obtain ⟨taken, inside, hpasses⟩ := h side
    rcases p.eq_or_eq_other side with rfl | rfl
    · refine ⟨taken, inside, ?_⟩
      have hnext := hpasses.sender_step hlocal hn
      simpa [Passes] using hnext
    · obtain ⟨_, _, hown⟩ := h p
      obtain ⟨-, hcapacity, hsize⟩ := (hconfigured p.other).bounds
      simp only [Passes, Side.other_other] at hpasses
      obtain ⟨moved, rest, -, hnext⟩ :=
        hpasses.receiver_step hcapacity hsize hown.context_ne hlocal hn
      refine ⟨taken ++ moved, rest, ?_⟩
      simpa [Passes] using hnext
  | deliver p =>
    obtain ⟨sender, send, receiver, hsent, harrived, rfl⟩ := step_deliver hstep
    obtain ⟨taken, inside, hpasses⟩ := h side
    rcases p.eq_or_eq_other side with rfl | rfl
    · refine ⟨taken, inside ++ [send], ?_⟩
      have hnext := hpasses.deliver hsent harrived
      simpa [Passes] using hnext
    · refine ⟨taken, inside, ?_⟩
      simp only [Passes, Side.other_other] at hpasses
      have hnext := hpasses.delivered harrived hsent
      simpa [Passes] using hnext

theorem passage_new (e other : Endpoint) :
    Passage e.recvCount e.bufferSize e.node .empty other.node .empty [] [] := by
  refine ⟨rfl, nofun, .inl ⟨⟨rfl, rfl, rfl⟩, rfl, rfl, ⟨rfl, nofun⟩, ?_⟩,
    .inl ⟨⟨rfl, rfl, rfl⟩, .nil, rfl, nofun⟩⟩
  exact ⟨.nil, nofun, nofun⟩

theorem coherent_start (ends : Duplex Endpoint) : Coherent ends (start ends) := by
  intro side
  cases side with
  | a => exact ⟨[], [], passage_new ends.a ends.b⟩
  | b => exact ⟨[], [], passage_new ends.b ends.a⟩

/-- The payloads of framed sends are those of their requests. -/
theorem data_eq_payloads {enqueued : List (List UInt8)} {capacity size : Nat}
    (hcapacity : capacity < 2 ^ 32) (hsize : size < 2 ^ 32) {sends : List PostedSend}
    (h : ∀ send ∈ sends, ∃ frame, Framed enqueued capacity size send frame) :
    sends.filterMap PostedSend.data =
      (sends.filterMap request).map fun request => enqueued.getD request [] := by
  rw [map_filterMap]
  refine filterMap_congr fun send hsend => ?_
  obtain ⟨_, hframe⟩ := h send hsend
  rw [hframe.data_eq hcapacity hsize]
  cases hframe with
  | hello hcontext => simp [request, hcontext, Frame.frameType, frameHello, frameData]
  | credit hcontext =>
    simp [request, hcontext, Frame.frameType, frameCredit, frameData]
  | data hcontext hpayload =>
    simp [request, hcontext, Frame.frameType, Frame.payload, hpayload]

/-- What `recv` returns is a prefix of the payloads of the requests that the peer
has posted, and these were posted in the order in which they were enqueued. -/
theorem messages_in_order (ends : Duplex Endpoint)
    (hconfigured : ∀ s, (ends.get s).Configured) (trace : List ConversationLabel)
    (x : Exchange) (hrun : Machine.run step (start ends) trace = some x) (side : Side) :
    let sent := x.journals.get side
    let requests := sent.posted.filterMap PostedSend.request
    requests.Pairwise (· < ·) ∧ (∀ request ∈ requests, request < sent.enqueued.length) ∧
      (x.journals.get side.other).returned <+:
        requests.map fun request => sent.enqueued.getD request [] := by
  intro sent requests
  have hcoherent : Coherent ends x :=
    Machine.run_invariant_of_step (fun _ _ _ h hstep => h.step hconfigured hstep)
      (coherent_start ends) hrun
  obtain ⟨taken, _, hpasses⟩ := hcoherent side
  obtain ⟨-, hcapacity, hsize⟩ := (hconfigured side).bounds
  have hordered := hpasses.sends.posted
  refine ⟨?_, ?_, ?_⟩
  · simpa using hordered.order
  · exact fun request hrequest => hordered.bound request (mem_append_left _ hrequest)
  · rw [← data_eq_payloads hcapacity hsize hordered.framed]
    have htaken : taken <+: sent.posted := by
      rw [hpasses.posted, append_assoc]
      exact prefix_append _ _
    refine List.IsPrefix.trans ?_ (htaken.filterMap PostedSend.data)
    rcases hpasses.receives with ⟨-, hreceiver⟩ | ⟨-, hmessages⟩
    · exact ⟨_, hreceiver.messages⟩
    · exact ⟨_, hmessages⟩

section Traces

open Conversation (twin on submitted confirmed delivered exchange)
open MessageNode (driveGranted serviceAccepted)

/-- After one message the second is cancelled and the third goes through. -/
def cancelledBetween : List ConversationLabel :=
  exchange ++ on .a (confirmed ++ [driveGranted] ++ serviceAccepted ++ [driveGranted]) ++
    on .a [.sendAcquire, .sendEnqueue [8], .sendCancel 1, driveGranted] ++
    on .a ([.sendAcquire, .sendEnqueue [9]] ++ submitted) ++ delivered .a ++
    on .b [driveGranted, .recv]

theorem twin_configured : twin.Configured :=
  ⟨⟨1, 1, 16, 10 ^ 9, none⟩, ⟨⟨4, 3⟩, 1, 1, 16, 28, 10 ^ 9⟩, by decide +kernel, rfl, rfl, rfl⟩

theorem messages_in_order_cancelledBetween :
    ((Machine.run step (start ⟨twin, twin⟩) cancelledBetween).map fun x =>
        (x.journals.a.enqueued, x.journals.a.posted.filterMap PostedSend.request,
          x.journals.b.returned)) =
      some ([[7], [8], [9]], [0, 2], [[7], [9]]) ∧
    ∀ x, Machine.run step (start ⟨twin, twin⟩) cancelledBetween = some x → x.journals.b.returned <+:
        (x.journals.a.posted.filterMap PostedSend.request).map
          fun request => x.journals.a.enqueued.getD request [] :=
  ⟨by decide +kernel, fun x hrun =>
    (messages_in_order ⟨twin, twin⟩ (Duplex.forall_side .a twin_configured twin_configured)
      cancelledBetween x hrun .a).2.2⟩

end Traces

end Exchange

end RdmaIo.Message
