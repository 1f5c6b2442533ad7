/-
Two read-ring peers on one reliable, in-order connection.

Every label is one action of a peer or of the network: a call of the transport,
the arrival of the oldest Write, the completion of the oldest request, or the
two moments of an offset Read, when it takes its snapshot and when it lands.
-/
import RdmaIo.Lib.Run
import RdmaIo.Ring.ReadRing

namespace RdmaIo

/-- Progress of the one offset Read that a peer may have in flight. -/
inductive ReadStage where
  | idle
  | posted
  | snapshot (head : Nat)
  | landed
deriving Repr, DecidableEq

/-- A peer with its queue pair, completion queues and application. -/
structure ReadEndpoint where
  inner : ReadRingInner
  /-- Writes posted and not yet arrived at the peer. -/
  wire : List SendWr
  /-- Requests posted and not yet completed. -/
  sq : List SendWr
  sendCq : List WorkCompletion
  read : ReadStage
  recvCq : List WorkCompletion
  /-- Buffers handed to the application and not yet reposted. -/
  delivered : List Nat
  /-- Arrivals that a failed `poll_recv` took from the queue and dropped. -/
  lost : List WorkCompletion
deriving Repr, DecidableEq

abbrev ReadRingSystem := Duplex ReadEndpoint

inductive ReadRingLabel where
  | sendGather (p : Side) (bufs : List (List UInt8)) (post : WrKind → Bool)
  | arrive (p : Side)
  | complete (p : Side)
  | pollSend (p : Side) (polls : List (Except TransportError Nat))
  | readSnapshot (p : Side)
  | readLand (p : Side)
  | pollRecv (p : Side) (outLen : Nat)
      (polls : List (Except TransportError (List Bool)))
  | repostRecv (p : Side) (bufIdx : Nat)

namespace ReadEndpoint

def new (config : ReadRingConfig) (remoteCapacity deviceLimit : Nat) : ReadEndpoint where
  inner := ReadRingInner.fromParts config remoteCapacity
    (clampMaxOutstanding config.ringCapacity config.maxMessageSize
      config.maxInFlight readRingSqHeadroom deviceLimit)
  wire := []
  sq := []
  sendCq := []
  read := .idle
  recvCq := []
  delivered := []
  lost := []

variable (e : ReadEndpoint)

/-- The endpoint after its transport posted `posted`. -/
def afterPost (inner : ReadRingInner) (posted : List SendWr) : ReadEndpoint :=
  { e with
    inner
    wire := e.wire ++ posted.filter SendWr.isWrite
    sq := e.sq ++ posted
    read := if posted.any (fun wr => !wr.isWrite) then .posted else e.read }

/-- Complete the oldest request: a Write once it has arrived at the peer, a
Read once it has landed. -/
def complete : Option ReadEndpoint :=
  match e.sq with
  | [] => none
  | wr :: rest =>
    if wr.isWrite then
      if e.wire.length < (e.sq.filter SendWr.isWrite).length then
        some { e with sq := rest, sendCq := e.sendCq ++ [wr.completion] }
      else none
    else if e.read = .landed then
      some { e with
        sq := rest, sendCq := e.sendCq ++ [wr.completion], read := .idle }
    else none

def readLand : Option ReadEndpoint :=
  match e.read with
  | .snapshot head =>
    some { e with inner := { e.inner with readBuf := head }, read := .landed }
  | _ => none

def pollRecv (outLen : Nat) (polls : List (Except TransportError (List Bool))) : ReadEndpoint :=
  let r := e.inner.pollRecv outLen e.recvCq polls
  { e with
    inner := r.inner
    recvCq := r.cq
    lost := e.lost ++ r.lost
    delivered :=
      match r.ready with
      | some (.ok out) => e.delivered ++ out.map RecvCompletion.bufIdx
      | _ => e.delivered }

def repostRecv (bufIdx : Nat) : Option ReadEndpoint :=
  if bufIdx ∈ e.delivered then
    (e.inner.repostRecv bufIdx).map fun inner =>
      { e with inner, delivered := e.delivered.erase bufIdx }
  else none

end ReadEndpoint

namespace ReadRingSystem

/-- Two peers built from one configuration; their devices may differ. -/
def build (config : ReadRingConfig) (deviceLimit : Side → Nat) :
    Option ReadRingSystem :=
  match acceptPeerCapacity config.ringCapacity with
  | .error _ => none
  | .ok remoteCapacity =>
    some
      { a := ReadEndpoint.new config remoteCapacity (deviceLimit .a)
        b := ReadEndpoint.new config remoteCapacity (deviceLimit .b) }

variable (sys : ReadRingSystem)

def step : ReadRingLabel → Option ReadRingSystem
  | .sendGather p bufs post =>
    let e := sys.get p
    let r := e.inner.sendGather bufs post
    some (sys.set p (e.afterPost r.inner r.posted))
  | .arrive p =>
    let e := sys.get p
    let f := sys.get p.other
    match e.wire with
    | [] => none
    | wr :: wire =>
      -- a Write waits for a doorbell receive at the peer
      if f.inner.doorbells = 0 then none
      else
        some ((sys.set p { e with wire }).set p.other
          { f with
            inner := { f.inner with doorbells := f.inner.doorbells - 1 }
            recvCq := f.recvCq ++ [wr.arrival] })
  | .complete p => (sys.get p).complete.map (sys.set p)
  | .pollSend p polls =>
    let e := sys.get p
    let (inner, _, sendCq) := e.inner.pollSendCompletion e.sendCq polls
    some (sys.set p { e with inner, sendCq })
  | .readSnapshot p =>
    let e := sys.get p
    if e.read = .posted then
      some (sys.set p { e with read := .snapshot (sys.get p.other).inner.offsetBuffer })
    else none
  | .readLand p => (sys.get p).readLand.map (sys.set p)
  | .pollRecv p outLen polls =>
    some (sys.set p ((sys.get p).pollRecv outLen polls))
  | .repostRecv p bufIdx =>
    ((sys.get p).repostRecv bufIdx).map (sys.set p)

/-- Byte ranges of the data messages that `p` has posted and that the peer's
application has not released: on the wire, in the completion queue, dropped by
a failed poll, or held under a virtual index. -/
def unreleased (p : Side) : List (Nat × Nat) :=
  let e := sys.get p
  let f := sys.get p.other
  (e.wire.filter fun wr => wr.kind == .data).map (fun wr => (wr.remoteOffset, wr.payload.length)) ++
    rangesOf f.recvCq ++ rangesOf f.lost ++
    f.inner.virtualIdxMap.filterMap fun held =>
      held.map fun (offset, length, _) => (offset, length)

/-- No data Write that either peer could post now covers a byte of a message
posted to the same ring and not yet released. -/
def NoOverwrite : Prop :=
  ∀ (p : Side) (bufs : List (List UInt8)) (post : WrKind → Bool) (wr : SendWr),
    wr ∈ ((sys.get p).inner.sendGather bufs post).posted → wr.kind = .data →
    ∀ range ∈ sys.unreleased p, ∀ b : Nat,
      wr.Covers b → ¬(range.1 ≤ b ∧ b < range.1 + range.2)

end ReadRingSystem

end RdmaIo
