/-
Two credit-ring peers on one reliable, in-order connection.

Data Writes and credit Sends of a peer share its queue pair, so they arrive at
the other peer in the order in which they were posted.
-/
import RdmaIo.Lib.Run
import RdmaIo.Ring.CreditRing

namespace RdmaIo

/-- A peer with its completion queues and application. -/
structure CreditEndpoint where
  inner : CreditRing
  sendCq : List WorkCompletion
  recvCq : List WorkCompletion
  /-- Buffers handed to the application and not yet reposted. -/
  delivered : List Nat
  /-- Arrivals whose message a poll or an inline drain dropped. -/
  lost : List WorkCompletion
deriving Repr, DecidableEq

abbrev CreditRingSystem := Duplex CreditEndpoint

inductive CreditRingLabel where
  | sendGather (p : Side) (bufs : List (List UInt8)) (post : WrKind → Bool)
      (drain : Except TransportError (List RecvPosts))
  | arrive (p : Side)
  | complete (p : Side)
  | pollSend (p : Side) (poll : Option (Except TransportError Nat)) (post : Bool)
  | pollRecv (p : Side) (outLen : Nat) (drains : List (Except TransportError Nat))
      (post : Bool) (polls : List (Except TransportError (List RecvPosts)))
  | repostRecv (p : Side) (bufIdx : Nat) (posts : RecvPosts)

namespace CreditEndpoint

def maxOutstanding (config : CreditRingConfig) (deviceLimit : Nat) : Nat :=
  clampMaxOutstanding config.ringCapacity config.maxMessageSize
    config.maxInFlight creditRingSqHeadroom deviceLimit

def new (config : CreditRingConfig) (remoteCapacity deviceLimit : Nat) : CreditEndpoint where
  inner := CreditRing.fromParts config remoteCapacity (maxOutstanding config deviceLimit)
  sendCq := []
  recvCq := []
  delivered := []
  lost := []

variable (e : CreditEndpoint)

def sendGather (bufs : List (List UInt8))
    (post : WrKind → Bool) (drain : Except TransportError (List RecvPosts)) :
    CreditEndpoint :=
  let r := e.inner.sendGather bufs post e.recvCq drain
  { e with inner := r.inner, recvCq := r.cq, lost := e.lost ++ r.lost }

/-- The oldest request completes once it has arrived at the peer. -/
def complete : Option CreditEndpoint :=
  match e.inner.qp.sq with
  | [] => none
  | wr :: sq =>
    if e.inner.qp.wire.length < e.inner.qp.sq.length then
      some { e with
        inner := { e.inner with qp := { e.inner.qp with sq } }
        sendCq := e.sendCq ++ [wr.completion] }
    else none

def pollRecv (outLen : Nat) (drains : List (Except TransportError Nat)) (post : Bool)
    (polls : List (Except TransportError (List RecvPosts))) : CreditEndpoint :=
  let r := e.inner.pollRecv outLen e.sendCq e.recvCq drains post polls
  { inner := r.inner
    sendCq := r.sendCq
    recvCq := r.cq
    lost := e.lost ++ r.lost
    delivered :=
      match r.ready with
      | some (.ok out) => e.delivered ++ out.map RecvCompletion.bufIdx
      | _ => e.delivered }

def repostRecv (bufIdx : Nat) (posts : RecvPosts) : Option CreditEndpoint :=
  if bufIdx ∈ e.delivered then
    (e.inner.repostRecv bufIdx posts).map fun r =>
      { e with inner := r.1, delivered := e.delivered.erase bufIdx }
  else none

end CreditEndpoint

namespace CreditRingSystem

/-- Two peers built from one configuration; their devices may differ. -/
def build (config : CreditRingConfig) (deviceLimit : Side → Nat) :
    Option CreditRingSystem :=
  match acceptPeerCapacity config.ringCapacity with
  | .error _ => none
  | .ok remoteCapacity =>
    some
      { a := CreditEndpoint.new config remoteCapacity (deviceLimit .a)
        b := CreditEndpoint.new config remoteCapacity (deviceLimit .b) }

variable (sys : CreditRingSystem)

def step : CreditRingLabel → Option CreditRingSystem
  | .sendGather p bufs post drain =>
    some (sys.set p ((sys.get p).sendGather bufs post drain))
  | .arrive p =>
    let e := sys.get p
    let f := sys.get p.other
    match e.inner.qp.wire with
    | [] => none
    | wr :: wire =>
      -- a message waits for a doorbell receive at the peer
      if f.inner.qp.doorbells = 0 then none
      else
        some ((sys.set p { e with inner := { e.inner with qp := { e.inner.qp with wire } } }
          ).set p.other
          { f with
            inner := { f.inner with
              qp := { f.inner.qp with doorbells := f.inner.qp.doorbells - 1 } }
            recvCq := f.recvCq ++ [wr.arrival] })
  | .complete p => (sys.get p).complete.map (sys.set p)
  | .pollSend p poll post =>
    let e := sys.get p
    let (inner, _, sendCq) := e.inner.pollSendCompletion e.sendCq poll post
    some (sys.set p { e with inner, sendCq })
  | .pollRecv p outLen drains post polls =>
    some (sys.set p ((sys.get p).pollRecv outLen drains post polls))
  | .repostRecv p bufIdx posts =>
    ((sys.get p).repostRecv bufIdx posts).map (sys.set p)

/-- Byte ranges of the data messages that `p` has posted and that the peer's
application has not released. -/
def unreleased (p : Side) : List (Nat × Nat) :=
  let e := sys.get p
  let f := sys.get p.other
  (e.inner.qp.wire.filter fun wr => wr.kind == .data).map
      (fun wr => (wr.remoteOffset, wr.payload.length)) ++
    rangesOf f.recvCq ++ rangesOf f.lost ++
    f.inner.virtualIdxMap.filterMap fun held =>
      held.map fun (offset, length, _) => (offset, length)

/-- No data Write that either peer could post now covers a byte of a message
posted to the same ring and not yet released. -/
def NoOverwrite : Prop :=
  ∀ (p : Side) (bufs : List (List UInt8)) (post : WrKind → Bool)
    (drain : Except TransportError (List RecvPosts)) (wr : SendWr),
    wr ∈ ((sys.get p).sendGather bufs post drain).inner.qp.wire.drop
      (sys.get p).inner.qp.wire.length → wr.kind = .data →
    ∀ range ∈ sys.unreleased p, ∀ b : Nat, wr.Covers b → ¬(range.1 ≤ b ∧ b < range.1 + range.2)

end CreditRingSystem

end RdmaIo
