/-
Admission to the cores of a busy-poll pool.

A task holds an admission guard from the moment `try_admit` grants it.  A setup
that completes moves the guard into the transport, and the driver drops it when
the bundle is reclaimed.  A setup that fails drops the guard with its task, also
when its bundle went to the reclaim queue and its queue pair still exists.
-/
import RdmaIo.Driver.CoreDriver
import RdmaIo.Ring.ReadRing

namespace RdmaIo

/-- A cast to `i32`, and `i32` arithmetic in a release build. -/
def asI32 (n : Int) : Int := n.bmod (2 ^ 32)

structure ReadRingWrBudget where
  maxOutstanding : Nat
  sendWrs : Int
  recvWrs : Int
deriving Repr, DecidableEq

namespace ReadRingConfig

/-- Requests that a connection has room for in each direction. -/
def wrDepth (config : ReadRingConfig) (deviceLimit : Nat) (d : Dir) : Nat :=
  let maxOutstanding := clampMaxOutstanding config.ringCapacity config.maxMessageSize
    config.maxInFlight readRingSqHeadroom deviceLimit
  match d with
  | .send => maxOutstanding + readRingSqHeadroom
  | .recv => maxOutstanding + 2

def wrBudget (config : ReadRingConfig) (deviceLimit : Nat) : ReadRingWrBudget where
  maxOutstanding := clampMaxOutstanding config.ringCapacity config.maxMessageSize
    config.maxInFlight readRingSqHeadroom deviceLimit
  sendWrs := asI32 (config.wrDepth deviceLimit .send)
  recvWrs := asI32 (config.wrDepth deviceLimit .recv)

end ReadRingConfig

/-- A pinned worker: its core, the admission cap and the admission counter. -/
structure CoreWorker where
  core : BusyCore
  cap : Nat
  admitted : Nat
  /-- Calls of `try_admit` that were over the cap and have not undone it yet. -/
  overCap : Nat
  /-- Admitted tasks that have not created their queue pair. -/
  starting : Nat

inductive WorkerLabel where
  | fetchAdd
  | fetchSub
  | setupEnds
  | preparePending (qpNum : Nat) (config : ReadRingConfig)
  | setupCompletes (i : Nat)
  | setupFails (i : Nat) (flushed : Dir → Nat)
  | attachCm (i : Nat)
  | post (i : Nat) (d : Dir)
  | complete (i : Nat) (d : Dir)
  | pollInbox (i : Nat) (d : Dir) (out : Nat)
  | drainInbox (i : Nat) (d : Dir) (out : Nat)
  | appEnds (i : Nat)
  | sweep (d : Dir) (polled : Option Nat)
  | processReclaim

namespace CoreWorker

def new (cap : Nat) : CoreWorker where
  core := BusyCore.init
  cap
  admitted := 0
  overCap := 0
  starting := 0

/-- One step of a core that releases no guard. -/
def onCore (w : CoreWorker) (l : CoreLabel) : Option CoreWorker :=
  (w.core.step l).map fun core => { w with core }

def step (deviceLimit : Nat) (w : CoreWorker) : WorkerLabel → Option CoreWorker
  | .fetchAdd =>
    if w.admitted < w.cap then
      some { w with admitted := w.admitted + 1, starting := w.starting + 1 }
    else some { w with admitted := w.admitted + 1, overCap := w.overCap + 1 }
  | .fetchSub =>
    if 0 < w.overCap then
      some { w with admitted := w.admitted - 1, overCap := w.overCap - 1 }
    else none
  | .setupEnds =>
    -- the task ends before it registers a slot, and drops its guard
    if 0 < w.starting then
      some { w with admitted := w.admitted - 1, starting := w.starting - 1 }
    else none
  | .preparePending qpNum config =>
    -- a number still in the routing map ends the setup as `setupEnds` does
    if 0 < w.starting ∧ w.core.slots qpNum = none then
      (w.core.step (.preparePending qpNum (config.wrDepth deviceLimit .send)
        (config.wrDepth deviceLimit .recv))).map fun core =>
          { w with core, starting := w.starting - 1 }
    else none
  | .setupCompletes i =>
    (w.onCore (.commit i)).bind fun w => w.onCore (.setReclaimLease i i)
  | .setupFails i flushed =>
    -- the pending connection is dropped first, then the guard of the task
    (w.onCore (.dropPending i flushed)).map fun w =>
      { w with admitted := w.admitted - 1 }
  | .attachCm i => w.onCore (.attachCm i)
  | .post i d => w.onCore (.post i d)
  | .complete i d => w.onCore (.complete i d)
  | .pollInbox i d out => w.onCore (.pollInbox i d out)
  | .drainInbox i d out => w.onCore (.drainInbox i d out)
  | .appEnds i => w.onCore (.dropTransport i)
  | .sweep d polled => w.onCore (.sweep d polled)
  | .processReclaim =>
    (w.core.step .processReclaim).map fun core =>
      { w with
        core
        admitted := w.admitted -
          (core.released.drop w.core.released.length).countP fun b => b.lease.isSome }

end CoreWorker

structure BusyPool where
  deviceLimit : Nat
  sendDepth : Int
  recvDepth : Int
  workers : List CoreWorker

namespace BusyPool

/-- Depth of the shared completion queue of one direction on each core. -/
def depth (pool : BusyPool) : Dir → Int
  | .send => pool.sendDepth
  | .recv => pool.recvDepth

def withConfig (deviceLimit : Nat) (maxCqe : Int) (cores : Nat)
    (config : ReadRingConfig) (connsPerCore : Nat) : Except String BusyPool :=
  let budget := config.wrBudget deviceLimit
  let slots := asI32 ((connsPerCore + 1) % 2 ^ 64 : Nat)
  let sendDepth := asI32 (slots * budget.sendWrs)
  let recvDepth := asI32 (slots * budget.recvWrs)
  if sendDepth > maxCqe ∨ recvDepth > maxCqe then
    .error ("busy pool: conns_per_core=" ++ toString connsPerCore ++
      " needs shared CQ depth send=" ++ toString sendDepth ++ "/recv=" ++
      toString recvDepth ++ " > device max_cqe=" ++ toString maxCqe ++
      "; reduce conns_per_core / ring_capacity / max_in_flight")
  else
    .ok
      { deviceLimit, sendDepth, recvDepth
        workers := List.replicate cores (CoreWorker.new connsPerCore) }

/-- A step of the worker with index `l.1`. -/
def step (pool : BusyPool) (l : Nat × WorkerLabel) : Option BusyPool :=
  (pool.workers[l.1]?).bind fun w =>
    (w.step pool.deviceLimit l.2).map fun w =>
      { pool with workers := pool.workers.set l.1 w }

end BusyPool

namespace BusyCore

variable (core : BusyCore)

/-- The queue pair exists, or its number is neither retired nor quarantined. -/
def present (i : Nat) : Bool :=
  core.qp i || (core.slots (core.slotOf i).qpNum == some i && (core.slotOf i).state != .drained)

def presentConns : List Nat :=
  (List.range core.issued).filter core.present

/-- Completions that can be outstanding in one direction: requests posted by the
present connections and not yet reaped. -/
def outstanding (d : Dir) : Nat :=
  (core.presentConns.map fun i => (core.slotOf i).posted d).sum

/-- Bundles in the reclaim queue that hold no guard. -/
def unleased : Nat :=
  core.reclaim.countP fun e => e.bundle.lease.isNone

end BusyCore

/-- A connection is set up with the configuration of the pool, and a setup whose
CM connection is attached fails only while no bundle without a guard waits in
the reclaim queue of its core. -/
def CoreWorker.Covered (config : ReadRingConfig) (w : CoreWorker) : WorkerLabel → Prop
  | .preparePending _ c => c = config
  | .setupFails i _ => w.core.owner i = .pending true → w.core.unleased = 0
  | _ => True

instance (config : ReadRingConfig) (w : CoreWorker) : DecidablePred (w.Covered config) := fun l =>
  match l with
  | .preparePending _ _ => inferInstanceAs (Decidable (_ = _))
  | .setupFails _ _ => inferInstanceAs (Decidable (_ → _))
  | .fetchAdd | .fetchSub | .setupEnds | .setupCompletes _ | .attachCm _ | .post _ _
  | .complete _ _ | .pollInbox _ _ _ | .drainInbox _ _ _ | .appEnds _ | .sweep _ _
  | .processReclaim => isTrue trivial

def BusyPool.Covered (config : ReadRingConfig) (pool : BusyPool) (l : Nat × WorkerLabel) : Prop :=
  ∀ w ∈ pool.workers[l.1]?, w.Covered config l.2

instance (config : ReadRingConfig) (pool : BusyPool) :
    DecidablePred (pool.Covered config) := fun l =>
  inferInstanceAs (Decidable (∀ w ∈ pool.workers[l.1]?, _))

end RdmaIo
