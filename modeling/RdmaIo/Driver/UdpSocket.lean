/-
`poll_recv` of `RdmaUdpSocket`: the datagrams of all connections for the caller's buffers.

A transport is seen through its answers while the call runs, in the order in which it is
asked; it has nothing more after the last.
-/
import RdmaIo.Ring.Common

namespace RdmaIo

/-- A completion, the data in its buffer, and whether the buffer can be reposted. -/
structure UdpCompletion extends RecvCompletion where
  data : List UInt8
  reposts : Bool
deriving Repr, DecidableEq

structure UdpConnection where
  addr : Nat
  disconnected : Bool
  polls : List (Except TransportError (List UdpCompletion))

/-- What a call has done. -/
structure UdpRecv where
  /-- The sizes of the buffers that are still free. -/
  bufs : List Nat
  received : List (Nat × List UInt8)
  taken : List (Nat × UdpCompletion)
  reposted : List (Nat × Nat)
  deadAddrs : List Nat
  /-- The call has failed or panicked. -/
  failed : Bool
deriving Repr, DecidableEq

namespace UdpRecv

/-- The loop over a batch. -/
def copyBatch (addr : Nat) (r : UdpRecv) : List UdpCompletion → UdpRecv
  | [] => r
  | c :: cs =>
    match r.bufs with
    | [] => r
    | buf :: bufs =>
      -- a slice that is too short panics
      if buf < c.byteLen ∨ c.data.length < c.byteLen then { r with failed := true }
      else
        let r := { r with bufs, received := r.received ++ [(addr, c.data.take c.byteLen)] }
        if c.reposts then
          { r with reposted := r.reposted ++ [(addr, c.bufIdx)] }.copyBatch addr cs
        else { r with failed := true }

/-- The loop over the answers of one transport. -/
def pollTransport (addr : Nat) (r : UdpRecv) :
    List (Except TransportError (List UdpCompletion)) → UdpRecv
  | [] => r
  | poll :: polls =>
    if r.bufs = [] ∨ r.failed then r
    else
      match poll with
      | .error _ => { r with deadAddrs := r.deadAddrs ++ [addr] }
      | .ok cs =>
        ({ r with taken := r.taken ++ cs.map (addr, ·) }.copyBatch addr cs).pollTransport addr polls

def pollConnection (r : UdpRecv) (conn : UdpConnection) : UdpRecv :=
  if r.failed then r
  else if conn.disconnected then { r with deadAddrs := r.deadAddrs ++ [conn.addr] }
  else r.pollTransport conn.addr conn.polls

def pollRecv (bufs : List Nat) (conns : List UdpConnection) : UdpRecv :=
  conns.foldl pollConnection ⟨bufs, [], [], [], [], false⟩

/-- All that was taken is in the caller's buffers and reposted. -/
structure Kept (r : UdpRecv) : Prop where
  received : r.received = r.taken.map fun t => (t.1, t.2.data.take t.2.byteLen)
  reposted : r.reposted = r.taken.map fun t => (t.1, t.2.bufIdx)
  failed : r.failed = false

/-- A buffer is left for every completion of the batch, none is longer than its buffer or than
the data it names, and all can be reposted. -/
def batchFits : List Nat → List UdpCompletion → Bool
  | _, [] => true
  | [], _ :: _ => false
  | buf :: bufs, c :: cs =>
    c.byteLen ≤ buf && c.byteLen ≤ c.data.length && c.reposts && batchFits bufs cs

/-- The buffers left after the answers of a transport, if every batch that is taken fits. -/
def leftAfter (bufs : List Nat) : List (Except TransportError (List UdpCompletion)) →
    Option (List Nat)
  | [] => some bufs
  | poll :: polls =>
    if bufs = [] then some bufs
    else
      match poll with
      | .error _ => some bufs
      | .ok cs => if batchFits bufs cs then leftAfter (bufs.drop cs.length) polls else none

/-- The buffers left after a connection; nothing is taken from one that is disconnected. -/
def leftAfterConnection (left : Option (List Nat)) (conn : UdpConnection) : Option (List Nat) :=
  left.bind fun bufs => if conn.disconnected then some bufs else leftAfter bufs conn.polls

/-- Something that was taken is in no buffer, and the call takes no more. -/
def Lost (r : UdpRecv) : Prop :=
  r.failed = true ∨ r.bufs = [] ∧ r.received.length < r.taken.length

/-- With buffers left nothing is lost so far. -/
def Outcome (r : UdpRecv) : Option (List Nat) → Prop
  | some bufs => r.Kept ∧ r.bufs = bufs
  | none => r.Lost

variable {r : UdpRecv} {cs : List UdpCompletion}

theorem Lost.not_kept (h : r.Lost) : ¬r.Kept := by
  rintro ⟨hreceived, -, hfailed⟩
  rcases h with h | ⟨-, h⟩
  · simp [hfailed] at h
  · simp [hreceived] at h

theorem copyBatch_of_fits (addr : Nat) (hfits : batchFits r.bufs cs = true) : r.copyBatch addr cs =
      { r with
        bufs := r.bufs.drop cs.length
        received := r.received ++ cs.map fun c => (addr, c.data.take c.byteLen)
        reposted := r.reposted ++ cs.map fun c => (addr, c.bufIdx) } := by
  induction cs generalizing r with
  | nil => simp [copyBatch]
  | cons _ _ ih =>
    unfold copyBatch
    cases hbufs : r.bufs with
    | nil => simp [hbufs, batchFits] at hfits
    | cons =>
      simp only [hbufs, batchFits, Bool.and_eq_true, decide_eq_true_eq] at hfits
      obtain ⟨⟨⟨_, _⟩, hreposts⟩, hrest⟩ := hfits
      simp only
      rw [if_neg (by omega), if_pos hreposts, ih hrest]
      simp

/-- The first completion that does not fit ends the loop, with the rest of the batch lost. -/
theorem lost_copyBatch (addr : Nat) (hfits : ¬batchFits r.bufs cs = true)
    (htaken : r.received.length + cs.length ≤ r.taken.length) : (r.copyBatch addr cs).Lost := by
  induction cs generalizing r with
  | nil => simp [batchFits] at hfits
  | cons _ _ ih =>
    rw [List.length_cons] at htaken
    unfold copyBatch
    cases hbufs : r.bufs with
    | nil =>
      have hleft : r.received.length < r.taken.length := by omega
      exact .inr ⟨hbufs, hleft⟩
    | cons =>
      simp only
      split
      next => exact .inl rfl
      next hlong =>
        split
        next hreposts =>
          refine ih (fun hrest => hfits ?_) ?_
          · simp only [hbufs, batchFits, hreposts, hrest, Bool.and_true, Bool.and_eq_true,
              decide_eq_true_eq]
            omega
          · simp only [List.length_append, List.length_singleton]
            omega
        next => exact .inl rfl

theorem Lost.pollTransport (h : r.Lost) (addr : Nat)
    (polls : List (Except TransportError (List UdpCompletion))) :
    (r.pollTransport addr polls).Lost := by
  cases polls with
  | nil => exact h
  | cons =>
    have hstop : r.bufs = [] ∨ r.failed = true := h.symm.imp_left And.left
    unfold UdpRecv.pollTransport
    rwa [if_pos hstop]

theorem Kept.pollTransport (h : r.Kept) (addr : Nat)
    (polls : List (Except TransportError (List UdpCompletion))) :
    (r.pollTransport addr polls).Outcome (leftAfter r.bufs polls) := by
  induction polls generalizing r with
  | nil => exact ⟨h, rfl⟩
  | cons poll polls ih =>
    unfold UdpRecv.pollTransport leftAfter
    by_cases hbufs : r.bufs = []
    · rw [if_pos (.inl hbufs), if_pos hbufs]
      exact ⟨h, rfl⟩
    · rw [if_neg (by simp [hbufs, h.failed]), if_neg hbufs]
      cases poll with
      | error => exact ⟨{ h with }, rfl⟩
      | ok cs =>
        simp only
        split
        next hfits =>
          rw [copyBatch_of_fits (r := { r with taken := r.taken ++ cs.map (addr, ·) }) addr hfits]
          refine ih ⟨?_, ?_, h.failed⟩
          · simp [h.received, Function.comp_def]
          · simp [h.reposted, Function.comp_def]
        next hfits =>
          have hlost : ({ r with taken := r.taken ++ cs.map (addr, ·) }.copyBatch addr cs).Lost :=
            lost_copyBatch addr hfits (by simp [h.received])
          exact hlost.pollTransport addr polls

theorem Outcome.pollConnection {left : Option (List Nat)} (h : r.Outcome left)
    (conn : UdpConnection) : (r.pollConnection conn).Outcome (leftAfterConnection left conn) := by
  unfold UdpRecv.pollConnection
  cases left with
  | none =>
    split
    next => exact h
    next =>
      split
      next => exact h
      next => exact Lost.pollTransport h conn.addr conn.polls
  | some =>
    obtain ⟨hkept, rfl⟩ := h
    rw [if_neg (by simp [hkept.failed])]
    simp only [leftAfterConnection, Option.bind_some]
    split
    next => exact ⟨{ hkept with }, rfl⟩
    next => exact hkept.pollTransport conn.addr conn.polls

theorem Outcome.foldl {left : Option (List Nat)} (h : r.Outcome left)
    (conns : List UdpConnection) :
    (conns.foldl UdpRecv.pollConnection r).Outcome (conns.foldl leftAfterConnection left) := by
  induction conns generalizing r left with
  | nil => exact h
  | cons conn _ ih => exact ih (h.pollConnection conn)

/-- Nothing is lost exactly if every batch that the call takes from a live transport fits in the
buffers left for it. -/
theorem udp_recv_keeps (bufs : List Nat) (conns : List UdpConnection) : (pollRecv bufs conns).Kept ↔
      (conns.foldl leftAfterConnection (some bufs)).isSome = true := by
  have hstart : Outcome ⟨bufs, [], [], [], [], false⟩ (some bufs) := ⟨⟨rfl, rfl, rfl⟩, rfl⟩
  have houtcome : (pollRecv bufs conns).Outcome (conns.foldl leftAfterConnection (some bufs)) :=
    hstart.foldl conns
  cases hleft : conns.foldl leftAfterConnection (some bufs) with
  | none =>
    rw [hleft] at houtcome
    exact iff_of_false (Lost.not_kept houtcome) (by simp)
  | some =>
    rw [hleft] at houtcome
    exact iff_of_true houtcome.1 rfl

/-- A disconnected connection with a batch of two, and two batches of one for two buffers. -/
theorem udp_recv_keeps_two :
    (pollRecv [4, 4] [⟨3, true, [.ok [⟨⟨0, 1⟩, [5], true⟩, ⟨⟨1, 1⟩, [6], true⟩]]⟩,
      ⟨7, false, [.ok [⟨⟨0, 1⟩, [5], true⟩], .ok [⟨⟨1, 1⟩, [6], true⟩],
        .ok [⟨⟨2, 9⟩, [7], false⟩]]⟩]).Kept :=
  (udp_recv_keeps ..).mpr (by decide)

/-- A batch of two for one buffer: the second completion is taken and left behind. -/
theorem udp_recv_drops :
    let r := pollRecv [4] [⟨7, false, [.ok [⟨⟨0, 1⟩, [5], true⟩, ⟨⟨1, 1⟩, [6], true⟩]]⟩]
    (7, ⟨⟨1, 1⟩, [6], true⟩) ∈ r.taken ∧ r.received = [(7, [5])] ∧ r.reposted = [(7, 0)] ∧
      r.deadAddrs = [] ∧ r.failed = false := by
  decide

end UdpRecv

end RdmaIo
