import SafeEdge.Safety.Crc32

/-! The black channel: telegrams protected by a checksum over transmitted bytes and an
untransmitted address, the sender that numbers them, and the receiver that latches a safe
state on any transmission fault. Monotonic timestamps are integers. -/
namespace SafeEdge.Safety

inductive TransmissionFault where
  | none
  | corruption
  | unintendedRepetition
  | incorrectSequence
  | loss
  | unacceptableDelay
  | insertion
  | masquerade
  | addressingError
deriving DecidableEq, Repr

/-- The identity of a safety relationship, mixed into the checksum and never transmitted. -/
structure SafetyAddress where
  source : UInt16 := 0
  destination : UInt16 := 0
  parameterSignature : UInt32 := 0
deriving DecidableEq, Repr

def kMaxPayloadBytes : ℕ := 64

def kStatusBytes : ℕ := 1

def kConsecutiveNumberBytes : ℕ := 4

def kCrcBytes : ℕ := 4

def kOverheadBytes : ℕ := kStatusBytes + kConsecutiveNumberBytes + kCrcBytes

def kMaxTelegramBytes : ℕ := kMaxPayloadBytes + kOverheadBytes

/-- The wire buffer of one telegram, of which the first `size` bytes are meant. -/
structure Telegram where
  bytes : List UInt8 := List.replicate kMaxTelegramBytes 0
  size : ℕ := 0
  bytes_length : bytes.length = kMaxTelegramBytes := by simp

theorem blankBytes_length :
    (List.replicate kMaxTelegramBytes (0 : UInt8)).length = kMaxTelegramBytes :=
  List.length_replicate

/-- A buffer as the caller declares it. -/
def blankTelegram : Telegram := { bytes_length := blankBytes_length }

def Telegram.view (telegram : Telegram) : List UInt8 := telegram.bytes.take telegram.size

def readUint32Le (bytes : List UInt8) (offset : ℕ) : UInt32 :=
  (bytes.getD offset 0).toUInt32 ||| ((bytes.getD (offset + 1) 0).toUInt32 <<< 8) |||
    ((bytes.getD (offset + 2) 0).toUInt32 <<< 16) |||
    ((bytes.getD (offset + 3) 0).toUInt32 <<< 24)

def writeUint32Le (bytes : List UInt8) (offset : ℕ) (value : UInt32) : List UInt8 :=
  (((bytes.set offset (value &&& 0xFF).toUInt8).set (offset + 1)
    ((value >>> 8) &&& 0xFF).toUInt8).set (offset + 2)
      ((value >>> 16) &&& 0xFF).toUInt8).set (offset + 3) ((value >>> 24) &&& 0xFF).toUInt8

/-- Copy `data` over the front of `buffer`. -/
def copyTo (data buffer : List UInt8) : List UInt8 := data ++ buffer.drop data.length

@[simp] theorem length_writeUint32Le (bytes : List UInt8) (offset : ℕ) (value : UInt32) :
    (writeUint32Le bytes offset value).length = bytes.length := by
  simp [writeUint32Le]

theorem length_copyTo {data buffer : List UInt8} (h : data.length ≤ buffer.length) :
    (copyTo data buffer).length = buffer.length := by
  rw [copyTo, List.length_append, List.length_drop]
  omega

def computeTelegramCrc (address : SafetyAddress) (payload : List UInt8) (status : UInt8)
    (consecutiveNumber : UInt32) : UInt32 :=
  let crc : Crc32 := {}
  let crc := crc.update payload
  let crc := crc.updateByte status
  let crc := crc.updateUint32 consecutiveNumber
  let crc := crc.updateUint16 address.source
  let crc := crc.updateUint16 address.destination
  let crc := crc.updateUint32 address.parameterSignature
  crc.value

/-- The consecutive number after `number`: zero is never used. -/
def following (number : UInt32) : UInt32 :=
  if number + 1 = 0 then 1 else number + 1

theorem following_ne_zero (number : UInt32) : following number ≠ 0 := by
  unfold following
  split_ifs with hwrap
  · decide
  · exact hwrap

structure SafetySender where
  address : SafetyAddress
  consecutiveNumber : UInt32 := 1
deriving DecidableEq, Repr

namespace SafetySender

/-- Encode a payload into `out`: the sender afterwards, whether the payload fitted, and the
telegram buffer. -/
def encode (sender : SafetySender) (payload : List UInt8) (status : UInt8) (out : Telegram) :
    SafetySender × Bool × Telegram :=
  if h : payload.length > kMaxPayloadBytes then (sender, false, out)
  else
    let crc := computeTelegramCrc sender.address payload status sender.consecutiveNumber
    let bytes := copyTo payload out.bytes
    let bytes := bytes.set payload.length status
    let bytes := writeUint32Le bytes (payload.length + kStatusBytes) sender.consecutiveNumber
    let bytes := writeUint32Le bytes
      (payload.length + kStatusBytes + kConsecutiveNumberBytes) crc
    ({ sender with consecutiveNumber := following sender.consecutiveNumber }, true,
      { bytes, size := payload.length + kOverheadBytes,
        bytes_length := by
          have hfits : payload.length ≤ out.bytes.length := by
            rw [out.bytes_length, kMaxTelegramBytes]
            omega
          rw [length_writeUint32Le, length_writeUint32Le, List.length_set,
            length_copyTo hfits, out.bytes_length] })

def restartSequence (sender : SafetySender) (start : UInt32) : SafetySender :=
  { sender with consecutiveNumber := start }

end SafetySender

inductive ReceiveStatus where
  | valid
  | malformed
  | crcMismatch
  | repetition
  | sequenceGap
  | outOfOrder
  | timeout
  | inSafeState
deriving DecidableEq, Repr

structure ReceiverDiagnostics where
  accepted : UInt64 := 0
  rejectedMalformed : UInt64 := 0
  rejectedCrc : UInt64 := 0
  rejectedRepetition : UInt64 := 0
  rejectedSequenceGap : UInt64 := 0
  rejectedOutOfOrder : UInt64 := 0
  timeouts : UInt64 := 0
  telegramsLost : UInt64 := 0
  lastAcceptedConsecutiveNumber : UInt32 := 0
deriving DecidableEq, Repr

structure SafetyReceiver where
  address : SafetyAddress
  watchdogNs : ℤ
  lastValidNs : ℤ := 0
  lastConsecutiveNumber : UInt32 := 0
  synchronised : Bool := false
  safeState : Bool := false
  lastFault : TransmissionFault := .none
  diagnostics : ReceiverDiagnostics := {}
deriving DecidableEq, Repr

/-- What one call of `receive` hands to its caller. -/
structure Reception where
  status : ReceiveStatus
  payloadOut : List UInt8
  payloadSize : ℕ := 0
  statusOut : UInt8 := 0
deriving DecidableEq, Repr

section Fields
variable (raw : List UInt8)

def receivedPayload : List UInt8 := raw.take (raw.length - kOverheadBytes)

theorem length_receivedPayload : (receivedPayload raw).length = raw.length - kOverheadBytes := by
  rw [receivedPayload, List.length_take]
  omega

def receivedStatus : UInt8 := raw.getD (raw.length - kOverheadBytes) 0

def receivedNumber : UInt32 := readUint32Le raw (raw.length - kOverheadBytes + kStatusBytes)

def receivedCrc : UInt32 :=
  readUint32Le raw
    (raw.length - kOverheadBytes + kStatusBytes + kConsecutiveNumberBytes)

/-- The checksum the receiver expects of a frame. -/
def expectedCrc (address : SafetyAddress) : UInt32 :=
  computeTelegramCrc address (receivedPayload raw) (receivedStatus raw) (receivedNumber raw)

end Fields

namespace SafetyReceiver

def latch (receiver : SafetyReceiver) (fault : TransmissionFault) : SafetyReceiver :=
  { receiver with safeState := true, lastFault := fault }

def acknowledgeAndReset (receiver : SafetyReceiver) (nowNs : ℤ) : SafetyReceiver :=
  { receiver with
    safeState := false
    lastFault := .none
    synchronised := false
    lastConsecutiveNumber := 0
    lastValidNs := nowNs }

/-- The watchdog window since the last accepted telegram or acknowledgement has passed. -/
def Overdue (receiver : SafetyReceiver) (nowNs : ℤ) : Prop :=
  nowNs - receiver.lastValidNs > receiver.watchdogNs

instance (receiver : SafetyReceiver) (nowNs : ℤ) : Decidable (receiver.Overdue nowNs) :=
  inferInstanceAs (Decidable (_ > _))

def poll (receiver : SafetyReceiver) (nowNs : ℤ) : SafetyReceiver × ReceiveStatus :=
  if receiver.safeState then (receiver, .inSafeState)
  else if !receiver.synchronised then (receiver, .valid)
  else if receiver.Overdue nowNs then
    ({ receiver with
        diagnostics.timeouts := receiver.diagnostics.timeouts + 1 }.latch .loss, .timeout)
  else (receiver, .valid)

/-- The faults of a consecutive number other than the expected one. -/
def sequenceFault (receiver : SafetyReceiver) (consecutiveNumber : UInt32) :
    SafetyReceiver × ReceiveStatus :=
  let expected := following receiver.lastConsecutiveNumber
  let delta := (consecutiveNumber - expected).toInt32
  if consecutiveNumber = receiver.lastConsecutiveNumber then
    ({ receiver with diagnostics.rejectedRepetition :=
        receiver.diagnostics.rejectedRepetition + 1 }.latch .unintendedRepetition, .repetition)
  else if delta < 0 then
    ({ receiver with diagnostics.rejectedOutOfOrder :=
        receiver.diagnostics.rejectedOutOfOrder + 1 }.latch .incorrectSequence, .outOfOrder)
  else
    ({ receiver with
        diagnostics.telegramsLost := receiver.diagnostics.telegramsLost + delta.toInt64.toUInt64
        diagnostics.rejectedSequenceGap :=
          receiver.diagnostics.rejectedSequenceGap + 1 }.latch .loss, .sequenceGap)

/-- The receiver after accepting a telegram. -/
def accept (receiver : SafetyReceiver) (consecutiveNumber : UInt32) (nowNs : ℤ) :
    SafetyReceiver :=
  { receiver with
    synchronised := true
    lastConsecutiveNumber := consecutiveNumber
    lastValidNs := nowNs
    diagnostics.accepted := receiver.diagnostics.accepted + 1
    diagnostics.lastAcceptedConsecutiveNumber := consecutiveNumber }

def receive (receiver : SafetyReceiver) (raw : List UInt8) (nowNs : ℤ)
    (payloadOut : List UInt8) : SafetyReceiver × Reception :=
  let malformed := ({ receiver with diagnostics.rejectedMalformed :=
    receiver.diagnostics.rejectedMalformed + 1 } : SafetyReceiver)
  if receiver.safeState then (receiver, { status := .inSafeState, payloadOut })
  else if raw.length < kOverheadBytes ∨ raw.length > kMaxTelegramBytes then
    (malformed.latch .corruption, { status := .malformed, payloadOut })
  else if raw.length - kOverheadBytes > payloadOut.length then
    (malformed.latch .corruption, { status := .malformed, payloadOut })
  else if receivedCrc raw ≠ expectedCrc raw receiver.address then
    ({ receiver with diagnostics.rejectedCrc :=
        receiver.diagnostics.rejectedCrc + 1 }.latch .corruption,
      { status := .crcMismatch, payloadOut })
  else if receiver.synchronised ∧ receiver.Overdue nowNs then
    ({ receiver with diagnostics.timeouts :=
        receiver.diagnostics.timeouts + 1 }.latch .unacceptableDelay,
      { status := .timeout, payloadOut })
  else if receiver.synchronised ∧
      receivedNumber raw ≠ following receiver.lastConsecutiveNumber then
    let (faulted, status) := receiver.sequenceFault (receivedNumber raw)
    (faulted, { status, payloadOut })
  else
    (receiver.accept (receivedNumber raw) nowNs,
      { status := .valid
        payloadOut := copyTo (receivedPayload raw) payloadOut
        payloadSize := raw.length - kOverheadBytes
        statusOut := receivedStatus raw })

end SafetyReceiver
end SafeEdge.Safety
