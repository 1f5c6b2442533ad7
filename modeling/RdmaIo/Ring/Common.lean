/-
What the two ring transports share besides their rings: completions, errors,
the immediate that carries a message's place in the ring, the slot count, the
gather of the caller's slices and the search for a free virtual buffer index.
-/
import RdmaIo.Lib.Duplex
import RdmaIo.Ring.Buffer
import Mathlib.Data.Nat.Bitwise

namespace RdmaIo

inductive WcOpcode where
  | recv
  | recvRdmaWithImm
  | other
deriving Repr, DecidableEq

/-- The fields of a work completion that the transports read. -/
structure WorkCompletion where
  wrId : Nat
  status : Nat
  vendorErr : Nat
  opcode : WcOpcode
  withImm : Bool
  immData : Nat
deriving Repr, DecidableEq

def WorkCompletion.isSuccess (wc : WorkCompletion) : Bool :=
  wc.status == 0

inductive TransportError where
  | workCompletion (status vendorErr : Nat)
  | invalidArg (message : String)
  | verbs
deriving Repr, DecidableEq

/-- Status of a request flushed from a queue pair in the error state. -/
def ibvWcWrFlushErr : Nat := 5

/-- A delivered message: its virtual buffer index and its length. -/
structure RecvCompletion where
  bufIdx : Nat
  byteLen : Nat
deriving Repr, DecidableEq

def wrIdCreditFlag : Nat := 2 ^ 63
def wrIdPaddingSentinel : Nat := 2 ^ 64 - 1 - 20

/-- Offset in the high and length in the low 16 bits of a 32-bit immediate. -/
def encodeRingImm (offset len : Nat) : Nat :=
  ((offset % 2 ^ 32) <<< 16) % 2 ^ 32 ||| len % 2 ^ 32

def decodeRingImm (imm : Nat) : Nat × Nat :=
  (imm >>> 16, imm &&& 0xFFFF)

theorem decode_encodeRingImm {offset len : Nat} (ho : offset < 2 ^ 16)
    (hl : len < 2 ^ 16) : decodeRingImm (encodeRingImm offset len) = (offset, len) := by
  have hshift : offset <<< 16 < 2 ^ 32 := by
    rw [Nat.shiftLeft_eq]; omega
  have henc : encodeRingImm offset len = offset * 2 ^ 16 + len := by
    unfold encodeRingImm
    rw [Nat.mod_eq_of_lt (show offset < 2 ^ 32 by omega),
      Nat.mod_eq_of_lt hshift, Nat.mod_eq_of_lt (show len < 2 ^ 32 by omega),
      ← Nat.shiftLeft_add_eq_or_of_lt hl, Nat.shiftLeft_eq]
  have hmask : (0xFFFF : Nat) = 2 ^ 16 - 1 := by norm_num
  unfold decodeRingImm
  rw [henc, hmask, Nat.and_two_pow_sub_one_eq_mod, Nat.shiftRight_eq_div_pow]
  ext <;> simp only <;> omega

variable (ringCapacity maxMessageSize : Nat)

/-- The in-flight budget: the explicit or derived slot count, clamped to the
device queues with `headroom` slots held back, and at least one. -/
def clampMaxOutstanding (maxInFlight : Option Nat) (headroom deviceLimit : Nat) : Nat :=
  let derived := max (ringCapacity / max maxMessageSize 1) 1
  let requested := max (maxInFlight.getD derived) 1
  let reserve := max headroom 2
  let deviceCap := max (deviceLimit - reserve) 1
  max (min requested deviceCap) 1

theorem clampMaxOutstanding_pos (maxInFlight : Option Nat) (headroom deviceLimit : Nat) :
    0 < clampMaxOutstanding ringCapacity maxMessageSize maxInFlight headroom
      deviceLimit := by
  unfold clampMaxOutstanding
  exact lt_of_lt_of_le Nat.one_pos (le_max_right _ _)

/-- The bytes that a gather of `bufs` writes into `room` bytes. -/
def gatherInto (room : Nat) (bufs : List (List UInt8)) : List UInt8 :=
  bufs.foldl (fun written b => written ++ b.take (room - written.length)) []

theorem foldl_gather_length (room : Nat) (bufs : List (List UInt8))
    (written : List UInt8) (hle : written.length ≤ room) :
    (bufs.foldl (fun written b => written ++ b.take (room - written.length))
      written).length = min room (written.length + (bufs.map List.length).sum) := by
  induction bufs generalizing written with
  | nil => simp; omega
  | cons _ _ ih =>
    rw [List.foldl_cons, ih]
    · simp only [List.length_append, List.length_take, List.map_cons, List.sum_cons]
      omega
    · simp only [List.length_append, List.length_take]
      omega

theorem gatherInto_length (room : Nat) (bufs : List (List UInt8)) :
    (gatherInto room bufs).length = min room (bufs.map List.length).sum := by
  simpa [gatherInto] using foldl_gather_length room bufs [] (Nat.zero_le room)

/-- The requests of the data path, told apart by what they carry. -/
inductive WrKind where
  | read
  | padding
  | data
  | credit
deriving Repr, DecidableEq

/-- A posted send request; `payload` is what a Write puts at `remoteOffset`. -/
structure SendWr where
  kind : WrKind
  wrId : Nat
  imm : Nat
  remoteOffset : Nat
  payload : List UInt8
deriving Repr, DecidableEq

/-- The Write that announces the padding from `remoteOffset` to the ring end. -/
def paddingWr (remoteOffset : Nat) : SendWr :=
  { kind := .padding, wrId := wrIdPaddingSentinel,
    imm := encodeRingImm remoteOffset 0, remoteOffset, payload := [] }

/-- The data Write of a send of `len` bytes at `remoteOffset`; its id tells how
many bytes of the send ring its completion frees. -/
def dataWr (remoteOffset len padding : Nat) (bufs : List (List UInt8)) : SendWr :=
  { kind := .data, wrId := padding + len, imm := encodeRingImm remoteOffset len,
    remoteOffset, payload := gatherInto len bufs }

namespace SendWr

variable (wr : SendWr)

/-- A Write into the peer's receive ring. -/
def isWrite : Bool :=
  wr.kind == .padding || wr.kind == .data

/-- The completion that a Write-with-Imm or Send-with-Imm raises at the peer. -/
def arrival : WorkCompletion :=
  { wrId := 0, status := 0, vendorErr := 0,
    opcode := if wr.kind = .credit then .recv else .recvRdmaWithImm,
    withImm := true, immData := wr.imm }

/-- The completion that a request raises at its sender. -/
def completion : WorkCompletion :=
  { wrId := wr.wrId, status := 0, vendorErr := 0, opcode := .other,
    withImm := false, immData := 0 }

/-- Ring byte `b` is written by the request. -/
def Covers (b : Nat) : Prop :=
  wr.remoteOffset ≤ b ∧ b < wr.remoteOffset + wr.payload.length

end SendWr

/-- Byte ranges of the data messages among receive completions. -/
def rangesOf (wcs : List WorkCompletion) : List (Nat × Nat) :=
  ((wcs.filter fun wc => wc.opcode == .recvRdmaWithImm).map
    fun wc => decodeRingImm wc.immData).filter fun r => r.2 != 0

/-- Peer ring capacity as the setup token carries it and the peer accepts it:
a 32-bit field between 1 and 65536. -/
def acceptPeerCapacity (ringCapacity : Nat) : Except TransportError Nat :=
  let peerCap := ringCapacity % 2 ^ 32
  if peerCap = 0 then .error (.invalidArg "peer ring capacity is 0")
  else if peerCap > 65536 then
    .error (.invalidArg s!"peer ring capacity too large: {peerCap}")
  else .ok peerCap

theorem acceptPeerCapacity_ok {ringCapacity c : Nat} (h : acceptPeerCapacity ringCapacity = .ok c) :
    c = ringCapacity % 2 ^ 32 ∧ 0 < c ∧ c ≤ 65536 := by
  unfold acceptPeerCapacity at h
  simp only at h
  split at h
  · cases h
  split at h
  · cases h
  cases h
  exact ⟨rfl, by omega, by omega⟩

/-- A message held for the application: offset, length and arrival number. -/
abbrev VirtualIdxMap := List (Option (Nat × Nat × Nat))

theorem getElem?_of_getD_eq_some {map : VirtualIdxMap} {idx : Nat}
    {held : Nat × Nat × Nat} (h : map.getD idx none = some held) :
    map[idx]? = some (some held) := by
  rw [List.getD_eq_getElem?_getD] at h
  cases hcell : map[idx]? with
  | none => simp [hcell] at h
  | some =>
    rw [hcell, Option.getD_some] at h
    rw [h]

/-- The scan for a free virtual index: at most `fuel` entries from `virtIdx`. -/
def findVirtIdx (map : VirtualIdxMap) (maxOutstanding : Nat) : Nat → Nat → Option Nat
  | 0, _ => none
  | fuel + 1, virtIdx =>
    if map.getD virtIdx none = none then some virtIdx
    else findVirtIdx map maxOutstanding fuel ((virtIdx + 1) % maxOutstanding)

/-- The completions of a batch that are not processed: the first failure and all behind. -/
def unprocessed (wcs : List WorkCompletion) : List WorkCompletion :=
  wcs.dropWhile WorkCompletion.isSuccess

@[simp] theorem unprocessed_nil : unprocessed [] = [] := rfl

theorem unprocessed_cons_success {wc : WorkCompletion} (wcs : List WorkCompletion)
    (h : wc.isSuccess = true) : unprocessed (wc :: wcs) = unprocessed wcs := by
  simp [unprocessed, h]

theorem unprocessed_cons_failure {wc : WorkCompletion} (wcs : List WorkCompletion)
    (h : ¬wc.isSuccess = true) : unprocessed (wc :: wcs) = wc :: wcs := by
  simp [unprocessed, h]

end RdmaIo
