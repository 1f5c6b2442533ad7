/-
The wire protocol of the message transport (`protocol.rs`): a 12-byte header and
a DATA, CREDIT or HELLO payload, with the checks a receiver makes.

Lengths are as on a 64-bit target, where header plus a 32-bit payload length
cannot overflow.
-/
import Mathlib
import RdmaIo.Engine.Error

namespace RdmaIo.Message

def protoMagic : Nat := 0x52444D41
def protoVersion : Nat := 1
def headerSize : Nat := 12
def frameData : Nat := 0
def frameCredit : Nat := 1
def frameHello : Nat := 2
def creditPayloadSize : Nat := 4
def helloPayloadSize : Nat := 12
def ctrlRecvCount : Nat := 2
def ctrlSendCount : Nat := 2

/-- A `u32` as four little-endian bytes. -/
def toLeBytes (n : Nat) : List UInt8 :=
  [.ofNat n, .ofNat (n / 2 ^ 8), .ofNat (n / 2 ^ 16), .ofNat (n / 2 ^ 24)]

def fromLeBytes (bytes : List UInt8) : Nat :=
  bytes.foldr (fun b rest => b.toNat + 256 * rest) 0

theorem fromLeBytes_toLeBytes (n : Nat) : fromLeBytes (toLeBytes n) = n % 2 ^ 32 := by
  simp only [fromLeBytes, toLeBytes, List.foldr_cons, List.foldr_nil, UInt8.toNat_ofNat']
  omega

theorem toLeBytes_fromLeBytes {bytes : List UInt8} (h : bytes.length = 4) :
    toLeBytes (fromLeBytes bytes) = bytes := by
  match bytes, h with
  | [a, b, c, d], _ =>
    have ha := a.toNat_lt
    have hb := b.toNat_lt
    have hc := c.toNat_lt
    have hd := d.toNat_lt
    simp only [fromLeBytes, toLeBytes, List.foldr_cons, List.foldr_nil, List.cons.injEq,
      ← UInt8.toNat_inj, UInt8.toNat_ofNat', and_true]
    refine ⟨?_, ?_, ?_, ?_⟩ <;> omega

theorem fromLeBytes_lt {bytes : List UInt8} (h : bytes.length = 4) :
    fromLeBytes bytes < 2 ^ 32 := by
  rw [← toLeBytes_fromLeBytes h, fromLeBytes_toLeBytes]
  exact Nat.mod_lt _ (by decide)

/-- Text of a `u32` as `{:#010x}` prints it. -/
def hex32 (n : Nat) : String :=
  let digits := Nat.toDigits 16 n
  "0x" ++ String.ofList (List.replicate (8 - digits.length) '0' ++ digits)

def header (frameType payloadLen : Nat) : List UInt8 :=
  toLeBytes protoMagic ++ [.ofNat protoVersion, .ofNat frameType, 0, 0] ++ toLeBytes payloadLen

@[simp] theorem header_length (frameType payloadLen : Nat) :
    (header frameType payloadLen).length = headerSize := rfl

def writeDataFrame (data : List UInt8) : List UInt8 :=
  header frameData data.length ++ data

def writeCreditFrame (credits : Nat) : List UInt8 :=
  header frameCredit creditPayloadSize ++ toLeBytes credits

def writeHelloFrame (dataRecvCapacity maxMessageSize : Nat) : List UInt8 :=
  header frameHello helloPayloadSize ++
    (toLeBytes dataRecvCapacity ++ toLeBytes maxMessageSize ++ toLeBytes protoVersion)

structure FrameHeader where
  frameType : Nat
  payloadLen : Nat
deriving Repr, DecidableEq

structure HelloPayload where
  dataRecvCapacity : Nat
  maxMessageSize : Nat
deriving Repr, DecidableEq

variable (buf : List UInt8)

/-- Byte `i` of a buffer. -/
def byteAt (i : Nat) : Nat :=
  (buf.getD i 0).toNat

variable (receivedLen : Nat)

def parseHeader : Except Error FrameHeader :=
  if receivedLen < headerSize then
    .error (.protocolViolation s!"frame too short: {receivedLen} < {headerSize}")
  else
    let magic := fromLeBytes (buf.take 4)
    let version := byteAt buf 4
    let frameType := byteAt buf 5
    let payloadLen := fromLeBytes ((buf.drop 8).take 4)
    let total := headerSize + payloadLen
    if magic ≠ protoMagic then
      .error (.protocolViolation
        ("bad magic: " ++ hex32 magic ++ ", expected " ++ hex32 protoMagic))
    else if version ≠ protoVersion then
      .error (.protocolViolation s!"unsupported version: {version}, expected {protoVersion}")
    else if frameType > frameHello then
      .error (.protocolViolation s!"unknown frame type: {frameType}")
    else if total > receivedLen then
      .error (.protocolViolation
        s!"payload extends past received data: header says {total}, got {receivedLen}")
    else if total < receivedLen then
      .error (.protocolViolation
        s!"frame has trailing bytes: header says {total}, got {receivedLen}")
    else .ok { frameType, payloadLen }

def parseHello (payload : List UInt8) : Except Error HelloPayload :=
  if payload.length ≠ helloPayloadSize then
    .error (.protocolViolation
      s!"HELLO payload size mismatch: {payload.length} != {helloPayloadSize}")
  else
    let protocolVersion := fromLeBytes ((payload.drop 8).take 4)
    if protocolVersion ≠ protoVersion then
      .error (.protocolViolation
        s!"HELLO version mismatch: peer={protocolVersion}, local={protoVersion}")
    else
      .ok
        { dataRecvCapacity := fromLeBytes (payload.take 4)
          maxMessageSize := fromLeBytes ((payload.drop 4).take 4) }

def parseCredit (payload : List UInt8) : Except Error Nat :=
  if payload.length ≠ creditPayloadSize then
    .error (.protocolViolation
      s!"CREDIT payload size mismatch: {payload.length} != {creditPayloadSize}")
  else .ok (fromLeBytes (payload.take 4))

/-- What follows the header of a frame. -/
def payloadOf (header : FrameHeader) : List UInt8 :=
  (buf.drop headerSize).take header.payloadLen

/-- The payload of a received DATA frame. -/
def dataOf : Option (List UInt8) :=
  match parseHeader buf receivedLen with
  | .ok header =>
    if header.frameType = frameData then some (payloadOf buf header) else none
  | .error _ => none

/-- A header is read back from the frame it begins; the buffer may hold older
bytes behind the frame. -/
theorem parseHeader_header {frameType : Nat} (htype : frameType ≤ frameHello)
    {payload : List UInt8} (hlen : payload.length < 2 ^ 32) (rest : List UInt8) :
    parseHeader (header frameType payload.length ++ payload ++ rest)
        (header frameType payload.length ++ payload).length =
      .ok ⟨frameType, payload.length⟩ := by
  have hkind : (UInt8.ofNat frameType).toNat = frameType := by
    rw [UInt8.toNat_ofNat', Nat.mod_eq_of_lt]
    unfold frameHello at htype
    omega
  have hpayload : fromLeBytes (toLeBytes payload.length) = payload.length := by
    rw [fromLeBytes_toLeBytes, Nat.mod_eq_of_lt hlen]
  rw [List.append_assoc, List.length_append, header_length]
  simp only [parseHeader, ite_error_eq_ok, Decidable.not_not, not_lt]
  refine ⟨Nat.le_add_right _ _, (by decide : fromLeBytes (toLeBytes protoMagic) = protoMagic),
    rfl, le_trans (le_of_eq hkind) htype, ?_, ?_, ?_⟩
  · exact le_of_eq (congrArg (headerSize + ·) hpayload)
  · exact le_of_eq (congrArg (headerSize + ·) hpayload.symm)
  · exact congrArg₂ (fun t l => Except.ok (FrameHeader.mk t l)) hkind hpayload

theorem payloadOf_header (frameType : Nat) (payload rest : List UInt8) :
    payloadOf (header frameType payload.length ++ payload ++ rest)
      ⟨frameType, payload.length⟩ = payload := by
  unfold payloadOf
  rw [List.append_assoc, List.drop_left' (header_length frameType payload.length),
    List.take_left' rfl]

/-- A frame of the protocol. -/
inductive Frame where
  | data (payload : List UInt8)
  | credit (credits : Nat)
  | hello (dataRecvCapacity maxMessageSize : Nat)
deriving Repr, DecidableEq

namespace Frame

/-- The bytes that a sender writes for a frame. -/
def bytes : Frame → List UInt8
  | data payload => writeDataFrame payload
  | credit credits => writeCreditFrame credits
  | hello capacity size => writeHelloFrame capacity size

/-- The fields of a frame fit their places on the wire. -/
def Fits : Frame → Prop
  | data payload => payload.length < 2 ^ 32
  | credit credits => credits < 2 ^ 32
  | hello capacity size => capacity < 2 ^ 32 ∧ size < 2 ^ 32

def frameType : Frame → Nat
  | data _ => frameData
  | credit _ => frameCredit
  | hello _ _ => frameHello

def payload : Frame → List UInt8
  | data payload => payload
  | credit credits => toLeBytes credits
  | hello capacity size =>
    toLeBytes capacity ++ toLeBytes size ++ toLeBytes protoVersion

theorem bytes_eq (frame : Frame) :
    frame.bytes = header frame.frameType frame.payload.length ++ frame.payload := by
  cases frame <;> rfl

theorem Fits.payload_lt {frame : Frame} (h : frame.Fits) : frame.payload.length < 2 ^ 32 := by
  cases frame with
  | data => exact h
  | credit credits => simp [payload, toLeBytes]
  | hello capacity size => simp [payload, toLeBytes]

theorem parseHeader_bytes {frame : Frame} (h : frame.Fits) (rest : List UInt8) :
    parseHeader (frame.bytes ++ rest) frame.bytes.length =
      .ok ⟨frame.frameType, frame.payload.length⟩ := by
  rw [frame.bytes_eq]
  refine parseHeader_header ?_ h.payload_lt rest
  cases frame <;> simp [frameType, frameData, frameCredit, frameHello]

theorem payloadOf_bytes (frame : Frame) (rest : List UInt8) :
    payloadOf (frame.bytes ++ rest) ⟨frame.frameType, frame.payload.length⟩ =
      frame.payload := by
  rw [frame.bytes_eq]
  exact payloadOf_header _ _ rest

end Frame

theorem parseCredit_toLeBytes {credits : Nat} (h : credits < 2 ^ 32) :
    parseCredit (toLeBytes credits) = .ok credits := by
  have hbytes : fromLeBytes ((toLeBytes credits).take 4) = credits := by
    change fromLeBytes (toLeBytes credits) = credits
    rw [fromLeBytes_toLeBytes, Nat.mod_eq_of_lt h]
  unfold parseCredit
  rw [if_neg (by simp [toLeBytes, creditPayloadSize]), hbytes]

theorem parseHello_payload {capacity size : Nat} (hcap : capacity < 2 ^ 32)
    (hsize : size < 2 ^ 32) :
    parseHello (Frame.hello capacity size).payload = .ok ⟨capacity, size⟩ := by
  have hversion : fromLeBytes
      (((Frame.hello capacity size).payload.drop 8).take 4) = protoVersion := by
    change fromLeBytes (toLeBytes protoVersion) = protoVersion
    decide
  have hfirst : fromLeBytes ((Frame.hello capacity size).payload.take 4) = capacity := by
    change fromLeBytes (toLeBytes capacity) = capacity
    rw [fromLeBytes_toLeBytes, Nat.mod_eq_of_lt hcap]
  have hsecond : fromLeBytes (((Frame.hello capacity size).payload.drop 4).take 4) = size := by
    change fromLeBytes (toLeBytes size) = size
    rw [fromLeBytes_toLeBytes, Nat.mod_eq_of_lt hsize]
  unfold parseHello
  rw [if_neg (by simp [Frame.payload, toLeBytes, helloPayloadSize])]
  simp only [hversion, hfirst, hsecond]
  rw [if_neg (by simp)]

/-- The bytes of a frame outside the two reserved ones of its header. -/
def withoutReserved (bytes : List UInt8) : List UInt8 :=
  bytes.take 6 ++ bytes.drop 8

/-- A header that a receiver accepts is that of the bytes it has received. -/
theorem parseHeader_ok {buf : List UInt8} {receivedLen : Nat} {parsed : FrameHeader}
    (hbuf : receivedLen ≤ buf.length) (hparse : parseHeader buf receivedLen = .ok parsed) :
    parsed.frameType ≤ frameHello ∧ parsed.payloadLen < 2 ^ 32 ∧
      receivedLen = headerSize + parsed.payloadLen ∧
      (payloadOf buf parsed).length = parsed.payloadLen ∧
      withoutReserved (buf.take receivedLen) =
        withoutReserved (header parsed.frameType parsed.payloadLen ++ payloadOf buf parsed) := by
  simp only [parseHeader, ite_error_eq_ok] at hparse
  obtain ⟨hlong, hmagic, hversion, htype, hover, hunder, hparsed⟩ := hparse
  obtain rfl := Except.ok.inj hparsed
  match buf, le_trans (not_lt.mp hlong) hbuf with
  | m₀ :: m₁ :: m₂ :: m₃ :: version :: kind :: r₀ :: r₁ :: l₀ :: l₁ :: l₂ :: l₃ :: rest, _ =>
    have hlen : receivedLen = headerSize + fromLeBytes [l₀, l₁, l₂, l₃] :=
      le_antisymm (not_lt.mp hunder) (not_lt.mp hover)
    have hmagic : [m₀, m₁, m₂, m₃] = toLeBytes protoMagic := by
      rw [← Decidable.not_not.mp hmagic]
      exact (toLeBytes_fromLeBytes rfl).symm
    have hversion : version = .ofNat protoVersion :=
      UInt8.toNat_inj.mp (Decidable.not_not.mp hversion)
    refine ⟨not_lt.mp htype, fromLeBytes_lt rfl, hlen, ?_, ?_⟩
    · have hrest : receivedLen ≤ rest.length + headerSize := hbuf
      change (rest.take (fromLeBytes [l₀, l₁, l₂, l₃])).length = fromLeBytes [l₀, l₁, l₂, l₃]
      rw [List.length_take]
      omega
    · rw [hlen, add_comm]
      change [m₀, m₁, m₂, m₃] ++ [version, kind] ++ ([l₀, l₁, l₂, l₃] ++ rest.take _) =
        toLeBytes protoMagic ++ [.ofNat protoVersion, .ofNat kind.toNat] ++
          (toLeBytes (fromLeBytes [l₀, l₁, l₂, l₃]) ++ rest.take _)
      rw [hmagic, hversion, toLeBytes_fromLeBytes rfl, UInt8.ofNat_toNat]
      rfl

/-- What a receiver reads: the header, and the payload with the parser for its type. -/
def parseFrame : Except Error Frame :=
  (parseHeader buf receivedLen).bind fun header =>
    let payload := payloadOf buf header
    if header.frameType = frameData then .ok (.data payload)
    else if header.frameType = frameCredit then (parseCredit payload).map .credit
    else (parseHello payload).map fun hello =>
      .hello hello.dataRecvCapacity hello.maxMessageSize

theorem parseCredit_ok {payload : List UInt8} {credits : Nat}
    (h : parseCredit payload = .ok credits) : credits < 2 ^ 32 ∧ payload = toLeBytes credits := by
  simp only [parseCredit, ite_error_eq_ok, Decidable.not_not] at h
  obtain ⟨hlen, hcredits⟩ := h
  obtain rfl := Except.ok.inj hcredits
  match payload, hlen with
  | [_, _, _, _], _ => exact ⟨fromLeBytes_lt rfl, (toLeBytes_fromLeBytes rfl).symm⟩

theorem parseHello_ok {payload : List UInt8} {hello : HelloPayload}
    (h : parseHello payload = .ok hello) :
    hello.dataRecvCapacity < 2 ^ 32 ∧ hello.maxMessageSize < 2 ^ 32 ∧
      payload = (Frame.hello hello.dataRecvCapacity hello.maxMessageSize).payload := by
  simp only [parseHello, ite_error_eq_ok, Decidable.not_not] at h
  obtain ⟨hlen, hversion, hhello⟩ := h
  obtain rfl := Except.ok.inj hhello
  match payload, hlen with
  | [c₀, c₁, c₂, c₃, s₀, s₁, s₂, s₃, v₀, v₁, v₂, v₃], _ =>
    refine ⟨fromLeBytes_lt rfl, fromLeBytes_lt rfl, ?_⟩
    rw [Frame.payload, ← hversion]
    change [c₀, c₁, c₂, c₃] ++ [s₀, s₁, s₂, s₃] ++ [v₀, v₁, v₂, v₃] =
      toLeBytes (fromLeBytes [c₀, c₁, c₂, c₃]) ++ toLeBytes (fromLeBytes [s₀, s₁, s₂, s₃]) ++
        toLeBytes (fromLeBytes [v₀, v₁, v₂, v₃])
    rw [toLeBytes_fromLeBytes rfl, toLeBytes_fromLeBytes rfl, toLeBytes_fromLeBytes rfl]

theorem parseFrame_bytes {frame : Frame} (h : frame.Fits) (rest : List UInt8) :
    parseFrame (frame.bytes ++ rest) frame.bytes.length = .ok frame := by
  rw [parseFrame, frame.parseHeader_bytes h]
  simp only [Except.bind, frame.payloadOf_bytes]
  cases frame with
  | data payload => rfl
  | credit credits =>
    rw [Frame.payload, parseCredit_toLeBytes h]
    rfl
  | hello capacity size =>
    rw [parseHello_payload h.1 h.2]
    rfl

theorem parseFrame_ok {buf : List UInt8} {receivedLen : Nat} {frame : Frame}
    (hbuf : receivedLen ≤ buf.length) (hparse : parseFrame buf receivedLen = .ok frame) :
    frame.Fits ∧ receivedLen = frame.bytes.length ∧
      withoutReserved (buf.take receivedLen) = withoutReserved frame.bytes := by
  rw [parseFrame] at hparse
  cases hheader : parseHeader buf receivedLen with
  | error e =>
    rw [hheader] at hparse
    cases hparse
  | ok parsed =>
    rw [hheader] at hparse
    obtain ⟨htype, hfits, hreceived, hpayload, hbytes⟩ := parseHeader_ok hbuf hheader
    suffices hframe : frame.Fits ∧ frame.frameType = parsed.frameType ∧
        frame.payload = payloadOf buf parsed by
      obtain ⟨hfits, hkind, hsame⟩ := hframe
      rw [frame.bytes_eq, hkind, hsame, hpayload, List.length_append, header_length, hpayload]
      exact ⟨hfits, hreceived, hbytes⟩
    simp only [Except.bind] at hparse
    split at hparse
    case isTrue hkind =>
      obtain rfl := Except.ok.inj hparse
      refine ⟨?_, hkind.symm, rfl⟩
      rw [Frame.Fits, hpayload]
      exact hfits
    next hdata =>
    split at hparse
    case isTrue hkind =>
      cases hcredit : parseCredit (payloadOf buf parsed) with
      | error e =>
        rw [hcredit] at hparse
        cases hparse
      | ok credits =>
        rw [hcredit] at hparse
        obtain rfl := Except.ok.inj hparse
        obtain ⟨hlt, hbytes⟩ := parseCredit_ok hcredit
        exact ⟨hlt, hkind.symm, hbytes.symm⟩
    next hcredit =>
    cases hhello : parseHello (payloadOf buf parsed) with
    | error =>
      rw [hhello] at hparse
      cases hparse
    | ok =>
      rw [hhello] at hparse
      obtain rfl := Except.ok.inj hparse
      obtain ⟨hcapacity, hsize, hbytes⟩ := parseHello_ok hhello
      refine ⟨⟨hcapacity, hsize⟩, ?_, hbytes.symm⟩
      simp only [Frame.frameType, frameData, frameCredit, frameHello] at *
      omega

/-- The wire format is exact in both directions: the frame whose fields fit their places is
read back from its bytes, and a frame is read only from bytes that are its own outside the
reserved ones.  The bytes received are in the buffer, as `parse_header` asserts. -/
theorem frames_read_exactly : (∀ (frame : Frame) (rest : List UInt8), frame.Fits →
      parseFrame (frame.bytes ++ rest) frame.bytes.length = .ok frame) ∧
    ∀ (buf : List UInt8) (receivedLen : Nat) (frame : Frame), receivedLen ≤ buf.length →
      parseFrame buf receivedLen = .ok frame → frame.Fits ∧ receivedLen = frame.bytes.length ∧
        withoutReserved (buf.take receivedLen) = withoutReserved frame.bytes :=
  ⟨fun _ rest h => parseFrame_bytes h rest, fun _ _ _ hbuf hparse => parseFrame_ok hbuf hparse⟩

/-- The length of a payload of 2 ^ 32 bytes is truncated to zero in its header, and the
frame is refused. -/
theorem oversized_frame_refused : ¬∃ parsed, parseFrame (writeDataFrame (List.replicate (2 ^ 32) 0))
      (writeDataFrame (List.replicate (2 ^ 32) 0)).length = .ok parsed := by
  rintro ⟨parsed, hparse⟩
  obtain ⟨hfits, hlen, -⟩ := parseFrame_ok (le_refl _) hparse
  have hlt := hfits.payload_lt
  rw [parsed.bytes_eq, writeDataFrame, List.length_append, List.length_append,
    List.length_replicate, header_length, header_length] at hlen
  omega

end RdmaIo.Message
