/-
One core of the busy-poll runtime: its driver, the two shared completion queues
it reaps, and the connections set up on it.

A connection is named by the order in which it was made, so that its slot, its
queue pair and its completions keep one name when the provider gives the number
of a destroyed queue pair to a new one.  The driver never reads that name: a
completion is routed by `qpNum` alone, and `poster` only records which
connection posted the request.

Wakers and log lines are left out.  The runtime is single threaded, so a call
of the driver or of a connection is one step; the device works between steps.
-/
import RdmaIo.Lib.Run
import Mathlib.Logic.Function.Basic

namespace RdmaIo

open Function

inductive Dir where
  | send
  | recv
deriving Repr, DecidableEq

/-- A work completion: the queue pair number that it carries, and the
connection whose request it completes. -/
structure Cqe where
  qpNum : Nat
  poster : Nat
deriving Repr, DecidableEq

inductive SlotState where
  | connecting
  | established
  | closing
  | drained
deriving Repr, DecidableEq

inductive TerminalFault where
  | inboxOverflow
  | sharedCqPollFailed
deriving Repr, DecidableEq

def TerminalFault.asStr : TerminalFault → String
  | .inboxOverflow => "busy-poll inbox overflow (completion undeliverable)"
  | .sharedCqPollFailed => "busy-poll shared CQ poll failed"

/-- One direction of a slot. -/
structure DirState where
  inbox : List Cqe
  capacity : Nat
  posted : Nat
deriving Repr, DecidableEq

structure ConnSlot where
  dir : Dir → DirState
  state : SlotState
  terminal : Option TerminalFault
  qpNum : Nat
  generation : Nat

namespace ConnSlot

def new (qpNum sendCapacity recvCapacity : Nat) : ConnSlot where
  dir
    | .send => { inbox := [], capacity := sendCapacity, posted := 0 }
    | .recv => { inbox := [], capacity := recvCapacity, posted := 0 }
  state := .connecting
  terminal := none
  qpNum
  generation := 0

variable (slot : ConnSlot) (d : Dir)

def setDir (s : DirState) : ConnSlot :=
  { slot with dir := update slot.dir d s }

def posted : Nat := (slot.dir d).posted

def incPosted : ConnSlot :=
  slot.setDir d { slot.dir d with posted := slot.posted d + 1 }

/-- Count a reaped completion down; `none` is the failed underflow assertion. -/
def decPosted : Option ConnSlot :=
  if slot.posted d = 0 then none
  else some (slot.setDir d { slot.dir d with posted := slot.posted d - 1 })

/-- Push to the inbox; `none` when it is full. -/
def deliver (wc : Cqe) : Option ConnSlot :=
  if (slot.dir d).capacity ≤ (slot.dir d).inbox.length then none
  else some (slot.setDir d { slot.dir d with inbox := (slot.dir d).inbox ++ [wc] })

def setState (state : SlotState) : ConnSlot :=
  { slot with state }

/-- The first fault is kept. -/
def markFatal (fault : TerminalFault) : ConnSlot :=
  { slot with terminal := slot.terminal.or (some fault) }

def terminalError : Option String :=
  slot.terminal.map TerminalFault.asStr

def drainComplete : Bool :=
  slot.posted .send == 0 && slot.posted .recv == 0 &&
    (slot.dir .send).inbox.isEmpty && (slot.dir .recv).inbox.isEmpty

def retire : ConnSlot :=
  { slot with generation := slot.generation + 1 }

def abandon : ConnSlot :=
  { slot with generation := slot.generation + 1 }

/-- Take up to `out` completions from the inbox. -/
def drainInbox (out : Nat) : List Cqe × ConnSlot :=
  ((slot.dir d).inbox.take out,
    slot.setDir d { slot.dir d with inbox := (slot.dir d).inbox.drop out })

/-- The data path's drain; an empty list is `Pending`. -/
def pollInbox (out : Nat) : Except String (List Cqe) × ConnSlot :=
  match slot.terminalError with
  | some e => (.error e, slot)
  | none => ((.ok (slot.drainInbox d out).1), (slot.drainInbox d out).2)

/-- The reclaim pass's `while drain_inbox(..) > 0` loop. -/
def discardInbox : ConnSlot :=
  slot.setDir d { slot.dir d with inbox := [] }

end ConnSlot

/-- A bundle handed off for teardown: the connection whose resources it owns,
and the admission lease that travels with them. -/
structure Bundle where
  conn : Nat
  lease : Option Nat
deriving Repr, DecidableEq

structure ReclaimEntry where
  bundle : Bundle
  turns : Nat
deriving Repr, DecidableEq

/-- Who owns the resources of a connection. -/
inductive Owner where
  /-- `PendingReadRing`, with or without the CM connection. -/
  | pending (cm : Bool)
  | transport (lease : Option Nat)
  | driver
  | nobody
deriving Repr, DecidableEq

/-- The connection is under construction or in use on this core. -/
def Owner.inUse : Owner → Bool
  | .pending _ | .transport _ => true
  | .driver | .nobody => false

structure BusyCore where
  /-- Connections whose slot was registered so far. -/
  issued : Nat
  slotOf : Nat → ConnSlot
  owner : Nat → Owner
  /-- The routing map of the driver. -/
  slots : Nat → Option Nat
  reclaim : List ReclaimEntry
  unknownQp : Nat
  /-- An assertion of the driver failed. -/
  panicked : Bool
  /-- The queue pair of the connection exists. -/
  qp : Nat → Bool
  /-- Requests that the device has not completed. -/
  wrs : Nat → Dir → Nat
  cq : Dir → List Cqe
  /-- Completions counted down so far, each with the slot it was counted on. -/
  counted : List (Nat × Cqe)
  /-- Bundles ever handed to the reclaim queue. -/
  handed : List Bundle
  /-- Bundles whose resources and lease the driver dropped. -/
  released : List Bundle

namespace BusyCore

def maxCqePerCq : Nat := 64

def reclaimMaxTurns : Nat := 4096

def init : BusyCore where
  issued := 0
  slotOf := fun _ => ConnSlot.new 0 0 0
  owner := fun _ => .nobody
  slots := fun _ => none
  reclaim := []
  unknownQp := 0
  panicked := false
  qp := fun _ => false
  wrs := fun _ _ => 0
  cq := fun _ => []
  counted := []
  handed := []
  released := []

variable (core : BusyCore) (i : Nat)

def setSlot (slot : ConnSlot) : BusyCore :=
  { core with slotOf := update core.slotOf i slot }

def setOwner (owner : Owner) : BusyCore :=
  { core with owner := update core.owner i owner }

def registerError (qpNum : Nat) : String :=
  "qp_num " ++ toString qpNum ++ " is already registered (previous connection not yet retired / " ++
    "quarantined); refusing reuse before the retirement barrier (§4.2)"

/-- Enter the slot of connection `i` in the routing map. -/
def register : Except String BusyCore :=
  let qpNum := (core.slotOf i).qpNum
  match core.slots qpNum with
  | some _ => .error (registerError qpNum)
  | none => .ok { core with slots := update core.slots qpNum (some i) }

def unregister (qpNum : Nat) : BusyCore :=
  { core with slots := update core.slots qpNum none }

def pushReclaim (bundle : Bundle) : BusyCore :=
  { core with
    reclaim := core.reclaim ++ [{ bundle, turns := 0 }]
    handed := core.handed ++ [bundle] }

/-- The device destroys the queue pair; its queued completions stay. -/
def destroyQp : BusyCore :=
  { core with qp := update core.qp i false }

/-- The device completes `n` requests of connection `i`. -/
def flush (d : Dir) (n : Nat) : BusyCore :=
  { core with
    wrs := update core.wrs i (update (core.wrs i) d (core.wrs i d - n))
    cq := update core.cq d
      (core.cq d ++ List.replicate n ⟨(core.slotOf i).qpNum, i⟩) }

/-- One completion of the loop of `route_into`. -/
def routeOne (d : Dir) (core : BusyCore) (wc : Cqe) : Option BusyCore :=
  match core.slots wc.qpNum with
  | some i =>
    ((core.slotOf i).decPosted d).map fun slot =>
      let core := { core with counted := core.counted ++ [(i, wc)] }
      if slot.state = .closing ∨ slot.state = .drained then core.setSlot i slot
      else
        match slot.deliver d wc with
        | some slot => core.setSlot i slot
        | none => core.setSlot i (slot.markFatal .inboxOverflow)
  | none => some { core with unknownQp := core.unknownQp + 1 }

def routeInto (d : Dir) : List Cqe → BusyCore → Option BusyCore
  | [], core => some core
  | wc :: wcs, core => (routeOne d core wc).bind (routeInto d wcs)

def failAllSlots (fault : TerminalFault) : BusyCore :=
  { core with
    slotOf := fun i =>
      if core.slots (core.slotOf i).qpNum = some i then
        (core.slotOf i).markFatal fault
      else core.slotOf i }

/-- Reap up to a batch of one queue; `none` is a failed `ibv_poll_cq`. -/
def sweep (d : Dir) : Option Nat → BusyCore
  | none => core.failAllSlots .sharedCqPollFailed
  | some n =>
    let batch := (core.cq d).take n
    let polled := { core with cq := update core.cq d ((core.cq d).drop n) }
    (routeInto d batch polled).getD { core with panicked := true }

/-- The closure that `process_reclaim` gives to `retain_mut`; an entry that is
kept goes back to the queue. -/
def reclaimEntry (budget : Nat) (core : BusyCore) (entry : ReclaimEntry) :
    BusyCore :=
  let i := entry.bundle.conn
  let slot := ((core.slotOf i).discardInbox .send).discardInbox .recv
  let turns := entry.turns + 1
  if !slot.drainComplete && decide (turns < budget) then
    { core.setSlot i slot with
      reclaim := core.reclaim ++ [{ entry with turns }] }
  else
    let freed := (core.setOwner i .nobody).destroyQp i
    let slot := slot.setState .drained
    let retired :=
      if slot.drainComplete then
        (freed.setSlot i slot.retire).unregister slot.qpNum
      else freed.setSlot i slot.abandon
    { retired with released := core.released ++ [entry.bundle] }

def processReclaim (budget : Nat) (core : BusyCore) : BusyCore :=
  core.reclaim.foldl (reclaimEntry budget) { core with reclaim := [] }

/-- `prepare_pending` up to the posted token receive: the slot of the new queue
pair is registered and the receive counted.  When the number is still in the
routing map the queue pair is destroyed again. -/
def preparePending (qpNum sendCap recvCap : Nat) : BusyCore :=
  let i := core.issued
  let made := core.setSlot i (ConnSlot.new qpNum sendCap recvCap)
  match made.register i with
  | .error _ => core
  | .ok core =>
    { (core.setSlot i ((core.slotOf i).incPosted .recv)).setOwner i
        (.pending false) with
      issued := i + 1
      qp := update core.qp i true
      wrs := update core.wrs i fun d => if d = .recv then 1 else 0 }

/-- Mark the slot `Closing` and hand the bundle to the driver. -/
def handOff (lease : Option Nat) : BusyCore :=
  ((core.setSlot i ((core.slotOf i).setState .closing)).setOwner i .driver).pushReclaim ⟨i, lease⟩

/-- `PendingReadRing::drop`.  Before the CM connection is attached the queue
pair goes to the error state, flushing `flushed` requests, and is destroyed at
once; afterwards the driver gets the bundle, and no lease. -/
def dropPending (cm : Bool) (flushed : Dir → Nat) : BusyCore :=
  if cm then core.handOff i none
  else
    let flushing := (core.flush i .send (flushed .send)).flush i .recv (flushed .recv)
    ((flushing.unregister (core.slotOf i).qpNum).destroyQp i).setOwner i .nobody

end BusyCore

inductive CoreLabel where
  | preparePending (qpNum sendCap recvCap : Nat)
  | attachCm (i : Nat)
  | commit (i : Nat)
  | setReclaimLease (i lease : Nat)
  | post (i : Nat) (d : Dir)
  | complete (i : Nat) (d : Dir)
  | pollInbox (i : Nat) (d : Dir) (out : Nat)
  | drainInbox (i : Nat) (d : Dir) (out : Nat)
  | dropPending (i : Nat) (flushed : Dir → Nat)
  | dropTransport (i : Nat)
  | sweep (d : Dir) (polled : Option Nat)
  | processReclaim

namespace BusyCore

variable (core : BusyCore)

def inUse (i : Nat) : Bool := (core.owner i).inUse

/-- The provider gives a new queue pair a number that no other has. -/
def qpNumFree (qpNum : Nat) : Bool :=
  (List.range core.issued).all fun i =>
    !core.qp i || (core.slotOf i).qpNum != qpNum

def step : CoreLabel → Option BusyCore
  | .preparePending qpNum sendCap recvCap =>
    if core.qpNumFree qpNum ∧ 0 < sendCap ∧ 0 < recvCap then
      some (core.preparePending qpNum sendCap recvCap)
    else none
  | .attachCm i =>
    if core.owner i = .pending false then
      some (core.setOwner i (.pending true))
    else none
  | .commit i =>
    if core.owner i = .pending true then
      some ((core.setSlot i ((core.slotOf i).setState .established)).setOwner i (.transport none))
    else none
  | .setReclaimLease i lease =>
    if core.owner i = .transport none then
      some (core.setOwner i (.transport (some lease)))
    else none
  | .post i d =>
    -- a queue takes no more requests than it was created for
    if core.inUse i ∧ (core.slotOf i).posted d < ((core.slotOf i).dir d).capacity then
      some
        { core.setSlot i ((core.slotOf i).incPosted d) with
          wrs := update core.wrs i
            (update (core.wrs i) d (core.wrs i d + 1)) }
    else none
  | .complete i d =>
    if core.qp i ∧ 0 < core.wrs i d then some (core.flush i d 1) else none
  | .pollInbox i d out =>
    if core.inUse i then
      some (core.setSlot i ((core.slotOf i).pollInbox d out).2)
    else none
  | .drainInbox i d out =>
    if core.inUse i then
      some (core.setSlot i ((core.slotOf i).drainInbox d out).2)
    else none
  | .dropPending i flushed =>
    match core.owner i with
    | .pending cm =>
      if ∀ d ∈ [Dir.send, Dir.recv], flushed d ≤ core.wrs i d then
        some (core.dropPending i cm flushed)
      else none
    | _ => none
  | .dropTransport i =>
    match core.owner i with
    | .transport lease => some (core.handOff i lease)
    | _ => none
  | .sweep d polled =>
    if core.panicked = false ∧ ∀ n ∈ polled, n ≤ maxCqePerCq ∧ n ≤ (core.cq d).length then
      some (core.sweep d polled)
    else none
  | .processReclaim =>
    if core.panicked then none else some (core.processReclaim reclaimMaxTurns)

/-- A connection given up before its CM connection is attached leaves none of
its completions in the shared queues. -/
def Unqueued : CoreLabel → Prop
  | .dropPending i flushed =>
    core.owner i = .pending false → ∀ d ∈ [Dir.send, Dir.recv],
        flushed d = 0 ∧ ∀ wc ∈ core.cq d, wc.poster ≠ i
  | _ => True

instance (core : BusyCore) : DecidablePred core.Unqueued := fun l =>
  match l with
  | .dropPending _ _ => inferInstanceAs (Decidable (_ → _))
  | .preparePending _ _ _ | .attachCm _ | .commit _ | .setReclaimLease _ _
  | .post _ _ | .complete _ _ | .pollInbox _ _ _ | .drainInbox _ _ _
  | .dropTransport _ | .sweep _ _ | .processReclaim => isTrue trivial

end BusyCore

end RdmaIo
