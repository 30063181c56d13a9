import SafeEdge.Safety.BlackChannel

/-! The wire layout of telegrams: what `encode` writes, what `receive` reads back, and the
checksum register over the bytes of a frame. -/
namespace SafeEdge.Safety
open Library

/-- The little-endian bytes of a 32-bit value. -/
def uint32Le (value : UInt32) : List UInt8 :=
  [(value &&& 0xFF).toUInt8, ((value >>> 8) &&& 0xFF).toUInt8,
    ((value >>> 16) &&& 0xFF).toUInt8, ((value >>> 24) &&& 0xFF).toUInt8]

/-- The little-endian bytes of a 16-bit value. -/
def uint16Le (value : UInt16) : List UInt8 :=
  [(value &&& 0xFF).toUInt8, ((value >>> 8) &&& 0xFF).toUInt8]

/-- The bytes of the address in the order the checksum takes them. -/
def addressBytes (address : SafetyAddress) : List UInt8 :=
  uint16Le address.source ++ uint16Le address.destination ++
    uint32Le address.parameterSignature

/-- The transmitted bytes the checksum protects. -/
def dataBytes (payload : List UInt8) (status : UInt8) (number : UInt32) : List UInt8 :=
  payload ++ status :: uint32Le number

/-- The wire layout of a telegram with the given fields. -/
def wire (payload : List UInt8) (status : UInt8) (number crc : UInt32) : List UInt8 :=
  dataBytes payload status number ++ uint32Le crc

/-- The bytes of a genuine telegram on the wire. -/
def frame (address : SafetyAddress) (payload : List UInt8) (status : UInt8) (number : UInt32) :
    List UInt8 :=
  wire payload status number (computeTelegramCrc address payload status number)

@[simp] theorem length_uint32Le (value : UInt32) : (uint32Le value).length = 4 := rfl

@[simp] theorem length_dataBytes (payload : List UInt8) (status : UInt8) (number : UInt32) :
    (dataBytes payload status number).length = payload.length + 5 := by
  simp [dataBytes]

@[simp] theorem length_wire (payload : List UInt8) (status : UInt8) (number crc : UInt32) :
    (wire payload status number crc).length = payload.length + kOverheadBytes := by
  simp [wire, kOverheadBytes, kStatusBytes, kConsecutiveNumberBytes, kCrcBytes]

@[simp] theorem length_addressBytes (address : SafetyAddress) :
    (addressBytes address).length = 8 := rfl

theorem uint32Le_map_toBitVec (value : UInt32) :
    (uint32Le value).map UInt8.toBitVec = symbols 8 4 value.toBitVec := by
  have hmask : ∀ x : BitVec 8, x &&& 255#8 = x := fun x => BitVec.and_allOnes
  simp [uint32Le, symbols, ← BitVec.shiftRight_add, hmask]

theorem uint16Le_map_toBitVec (value : UInt16) :
    (uint16Le value).map UInt8.toBitVec = symbols 8 2 value.toBitVec := by
  have hmask : ∀ x : BitVec 8, x &&& 255#8 = x := fun x => BitVec.and_allOnes
  simp [uint16Le, symbols, hmask]

theorem toBitVec_map_injective : Function.Injective (List.map UInt8.toBitVec) :=
  List.map_injective_iff.mpr fun _ _ => UInt8.toBitVec_inj.mp

/-- Reading a word joins the four bytes at its offset. -/
theorem readUint32Le_append (before word after : List UInt8) (hword : word.length = 4) :
    (readUint32Le (before ++ word ++ after) before.length).toBitVec =
      joined 32 (word.map UInt8.toBitVec) := by
  obtain ⟨b0, b1, b2, b3, rfl⟩ := List.length_eq_four.mp hword
  have hread : readUint32Le (before ++ [b0, b1, b2, b3] ++ after) before.length =
      b0.toUInt32 ||| (b1.toUInt32 <<< 8) ||| (b2.toUInt32 <<< 16) ||| (b3.toUInt32 <<< 24) := by
    simp [readUint32Le]
  rw [hread]
  apply BitVec.eq_of_getLsbD_eq
  intro i hi
  simp only [List.map_cons, List.map_nil, joined, UInt32.toBitVec_or, UInt32.toBitVec_shiftLeft,
    UInt8.toBitVec_toUInt32, BitVec.getLsbD_or, BitVec.getLsbD_xor, BitVec.getLsbD_setWidth,
    BitVec.getLsbD_shiftLeft]
  interval_cases i <;> simp

theorem readUint32Le_uint32Le (before : List UInt8) (value : UInt32) (after : List UInt8) :
    readUint32Le (before ++ uint32Le value ++ after) before.length = value := by
  apply UInt32.toBitVec_inj.mp
  rw [readUint32Le_append before _ after rfl, uint32Le_map_toBitVec, joined_symbols (by decide)]

theorem uint32Le_readUint32Le (before word after : List UInt8) (hword : word.length = 4) :
    uint32Le (readUint32Le (before ++ word ++ after) before.length) = word := by
  apply toBitVec_map_injective
  have hlength : (word.map UInt8.toBitVec).length = 4 := by rw [List.length_map, hword]
  rw [uint32Le_map_toBitVec, readUint32Le_append before word after hword, ← hlength,
    symbols_joined _ (by rw [hlength])]

theorem take_writeUint32Le {bytes : List UInt8} {offset : ℕ} (h : offset + 4 ≤ bytes.length)
    (value : UInt32) :
    (writeUint32Le bytes offset value).take (offset + 4) =
      bytes.take offset ++ uint32Le value := by
  obtain ⟨before, rest, rfl, rfl⟩ : ∃ before rest, bytes = before ++ rest ∧
      offset = before.length :=
    ⟨bytes.take offset, bytes.drop offset, (List.take_append_drop _ _).symm, by simp; omega⟩
  rw [List.length_append] at h
  match rest, h with
  | b0 :: b1 :: b2 :: b3 :: rest, _ =>
    simp [writeUint32Le, uint32Le, List.take_append]
  | [], h | [_], h | [_, _], h | [_, _, _], h =>
    simp at h

theorem take_set_self {bytes : List UInt8} {n : ℕ} (h : n < bytes.length) (byte : UInt8) :
    (bytes.set n byte).take (n + 1) = bytes.take n ++ [byte] := by
  rw [List.take_succ_eq_append_getElem (by simpa using h), List.take_set_of_le le_rfl,
    List.getElem_set_self]

/-- `encode` puts exactly the wire layout of its arguments on the wire. -/
theorem encode_view (sender : SafetySender) {payload : List UInt8}
    (h : payload.length ≤ kMaxPayloadBytes) (status : UInt8) (out : Telegram) :
    (sender.encode payload status out).2.2.view =
      frame sender.address payload status sender.consecutiveNumber := by
  have hout := out.bytes_length
  have hcopy : (copyTo payload out.bytes).length = 73 := by
    rw [length_copyTo (by rw [hout]; exact h.trans (by decide)), hout]
    rfl
  have hshort : payload.length ≤ 64 := h
  rw [SafetySender.encode, dif_neg (by omega)]
  simp only [Telegram.view, kOverheadBytes, kStatusBytes, kConsecutiveNumberBytes, kCrcBytes]
  rw [← Nat.add_assoc, ← Nat.add_assoc, take_writeUint32Le (by simp; omega),
    take_writeUint32Le (by simp; omega), take_set_self (by omega), copyTo, List.take_left]
  simp [frame, wire, dataBytes]

theorem encode_fst (sender : SafetySender) {payload : List UInt8}
    (h : payload.length ≤ kMaxPayloadBytes) (status : UInt8) (out : Telegram) :
    (sender.encode payload status out).1 =
      { sender with consecutiveNumber := following sender.consecutiveNumber } := by
  rw [SafetySender.encode, dif_neg (by omega)]

section Fields
variable {payload word tail : List UInt8} {status : UInt8}

theorem receivedNumber_append (hword : word.length = 4) (htail : tail.length = 4) :
    receivedNumber (payload ++ status :: word ++ tail) =
      readUint32Le (payload ++ [status] ++ word ++ tail) (payload ++ [status]).length := by
  simp [receivedNumber, hword, htail, kOverheadBytes, kStatusBytes, kConsecutiveNumberBytes,
    kCrcBytes]

theorem receivedCrc_append (hword : word.length = 4) (htail : tail.length = 4) :
    receivedCrc (payload ++ status :: word ++ tail) =
      readUint32Le (payload ++ status :: word ++ tail ++ [])
        (payload ++ status :: word).length := by
  simp [receivedCrc, hword, htail, kOverheadBytes, kStatusBytes, kConsecutiveNumberBytes,
    kCrcBytes]

end Fields

section Wire
variable (payload : List UInt8) (status : UInt8) (number crc : UInt32)

@[simp] theorem receivedPayload_wire :
    receivedPayload (wire payload status number crc) = payload := by
  rw [receivedPayload, length_wire, Nat.add_sub_cancel, wire, dataBytes, List.append_assoc,
    List.take_left]

@[simp] theorem receivedStatus_wire : receivedStatus (wire payload status number crc) = status := by
  rw [receivedStatus, length_wire, Nat.add_sub_cancel, wire, dataBytes]
  simp

@[simp] theorem receivedNumber_wire : receivedNumber (wire payload status number crc) = number := by
  rw [wire, dataBytes, receivedNumber_append rfl rfl, readUint32Le_uint32Le]

@[simp] theorem receivedCrc_wire : receivedCrc (wire payload status number crc) = crc := by
  rw [wire, dataBytes, receivedCrc_append rfl rfl, readUint32Le_uint32Le]

@[simp] theorem expectedCrc_wire (address : SafetyAddress) :
    expectedCrc (wire payload status number crc) address =
      computeTelegramCrc address payload status number := by
  rw [expectedCrc, receivedPayload_wire, receivedStatus_wire, receivedNumber_wire]

end Wire

/-- Every frame long enough to hold the mandatory fields is laid out from the fields the
receiver reads. -/
theorem eq_wire_received {raw : List UInt8} (h : kOverheadBytes ≤ raw.length) :
    raw = wire (receivedPayload raw) (receivedStatus raw) (receivedNumber raw)
      (receivedCrc raw) := by
  have hlong : 9 ≤ raw.length := h
  obtain ⟨payload, status, word, tail, hword, htail, rfl⟩ : ∃ payload status word tail,
      word.length = 4 ∧ tail.length = 4 ∧ raw = payload ++ status :: word ++ tail := by
    refine ⟨raw.take (raw.length - 9), raw[raw.length - 9], (raw.drop (raw.length - 8)).take 4,
      raw.drop (raw.length - 4), by simp; omega, by simp; omega, ?_⟩
    have htail : raw.drop (raw.length - 4) = (raw.drop (raw.length - 8)).drop 4 := by
      rw [List.drop_drop]
      congr 1
      omega
    rw [htail, List.append_assoc, List.cons_append, List.take_append_drop,
      show raw.length - 8 = raw.length - 9 + 1 by omega, List.getElem_cons_drop,
      List.take_append_drop]
  rw [receivedNumber_append hword htail, receivedCrc_append hword htail]
  rw [wire, dataBytes, uint32Le_readUint32Le _ _ _ hword, uint32Le_readUint32Le _ _ _ htail]
  simp [receivedPayload, receivedStatus, hword, htail, kOverheadBytes, kStatusBytes,
    kConsecutiveNumberBytes, kCrcBytes]

end SafeEdge.Safety
