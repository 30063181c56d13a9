import SafeEdge.Library.BurstErrors
import SafeEdge.Library.XorElimination
import SafeEdge.Safety.Addressing

/-! Bursts on the wire: the address enters the checksum between the consecutive number and the
checksum field, so a few bursts that straddle the two fields cancel out. -/
namespace SafeEdge.Safety
open Library

/-- The checksum bits that flip with the given bits of the consecutive number. -/
def crcFlips (flips : BitVec 32) : BitVec 32 := (shift Crc32.polynomial)^[96] flips

theorem crcFlips_xor (a b : BitVec 32) : crcFlips (a ^^^ b) = crcFlips a ^^^ crcFlips b :=
  shift_iterate_xor _ _ a b

/-- The bursts of at most 32 bits that no checksum notices: the flips of the consecutive number
and those of the checksum field. -/
def aliasedBursts : List (UInt32 × UInt32) :=
  [(0x0C000000, 0x0200B593), (0x0E8EC1A8, 0x00000007), (0x18000000, 0x04016B26),
    (0x1D1D8350, 0x0000000E), (0x30000000, 0x0802D64C), (0x3A3B06A0, 0x0000001C),
    (0x4F600000, 0x00091DDF), (0x50B04600, 0x00000143), (0x60000000, 0x1005AC98),
    (0x63A20000, 0x00015559), (0x74760D40, 0x00000038), (0x9EC00000, 0x00123BBE),
    (0xA1608C00, 0x00000286), (0xC0000000, 0x200B5930), (0xC7440000, 0x0002AAB2),
    (0xD1A00000, 0x001B2661), (0xE8EC1A80, 0x00000070), (0xFDA58000, 0x0000123F)]

/-- A frame with the given bits of its consecutive number and checksum flipped. -/
def withFlips (raw : List UInt8) (flips : UInt32 × UInt32) : List UInt8 :=
  wire (receivedPayload raw) (receivedStatus raw) (receivedNumber raw ^^^ flips.1)
    (receivedCrc raw ^^^ flips.2)

section Certificate

/-- The values of `crcFlips` on single bits. -/
def crcFlipsTable : List (BitVec 32) :=
  [0xD116831F#32, 0x33936C61#32, 0x6726D8C2#32, 0xCE4DB184#32, 0x0D250957#32, 0x1A4A12AE#32,
    0x3494255C#32, 0x69284AB8#32, 0xD2509570#32, 0x351F40BF#32, 0x6A3E817E#32, 0xD47D02FC#32,
    0x39446FA7#32, 0x7288DF4E#32, 0xE511BE9C#32, 0x5B9D1767#32, 0xB73A2ECE#32, 0xFFCA37C3#32,
    0x6E2A05D9#32, 0xDC540BB2#32, 0x29167D3B#32, 0x522CFA76#32, 0xA459F4EC#32, 0xD90D8387#32,
    0x23A56D51#32, 0x474ADAA2#32, 0x8E95B544#32, 0x8C9500D7#32, 0x88946BF1#32, 0x8096BDBD#32,
    0x90931125#32, 0xB0984815#32]

theorem crcFlips_twoPow :
    ∀ j < 32, crcFlips (BitVec.twoPow 32 j) = crcFlipsTable.getD j 0#32 := by
  decide +kernel

theorem crcFlips_aliasedBursts_check : (aliasedBursts.all fun flips =>
    crcFlips flips.1.toBitVec == flips.2.toBitVec) = true := by
  decide +kernel

theorem crcFlips_aliasedBursts :
    ∀ flips ∈ aliasedBursts, crcFlips flips.1.toBitVec = flips.2.toBitVec := by
  intro flips hflips
  exact beq_iff_eq.mp (List.all_eq_true.mp crcFlips_aliasedBursts_check flips hflips)

/-- The bit `j` of the consecutive number and what it flips in the checksum from bit `p` on. -/
def numberBit (p j : ℕ) : BitVec 32 × BitVec 32 :=
  (bitsFrom p (crcFlipsTable.getD j 0#32), BitVec.twoPow 32 j)

/-- A basis for the bits of the consecutive number from `p` on. -/
def numberBasis (p : ℕ) : List (Pivot 32) :=
  eliminate ((List.range' p (32 - p)).map (numberBit p))

/-- No flip, and the flips of the consecutive number from bit `p` on that alias with flips of
the checksum below bit `p`. -/
def aliasedFrom (p : ℕ) : List (BitVec 32) :=
  0#32 :: (aliasedBursts.map fun flips => (flips.1.toBitVec, flips.2.toBitVec)).filterMap
    fun flips =>
      if bitsFrom p flips.1 = flips.1 ∧ bitsFrom p flips.2 = 0#32 then some flips.1 else none

theorem aliasedFrom_closed_check : ∀ p < 32, (aliasedFrom p).all fun a =>
    (aliasedFrom p).all fun b => (aliasedFrom p).contains (a ^^^ b) := by
  decide +kernel

theorem numberBasis_check : ∀ p < 32, ∀ j < 32, p ≤ j →
    (reduceRow (numberBasis p) (numberBit p j)).2 ∈ aliasedFrom p := by
  decide +kernel

theorem aliasedFrom_closed {p : ℕ} (hp : p < 32) :
    ∀ a ∈ aliasedFrom p, ∀ b ∈ aliasedFrom p, a ^^^ b ∈ aliasedFrom p := by
  intro a ha b hb
  have hall := List.all_eq_true.mp (aliasedFrom_closed_check p hp) a ha
  exact List.contains_iff_mem.mp (List.all_eq_true.mp hall b hb)

theorem aliased_of_mem_aliasedFrom {p : ℕ} {flips : BitVec 32} (h : flips ∈ aliasedFrom p)
    (hne : flips ≠ 0#32) : ∃ pair ∈ aliasedBursts, pair.1.toBitVec = flips := by
  rcases List.mem_cons.mp h with hzero | hmem
  · exact absurd hzero hne
  · obtain ⟨words, hwords, hsome⟩ := List.mem_filterMap.mp hmem
    obtain ⟨pair, hpair, rfl⟩ := List.mem_map.mp hwords
    split_ifs at hsome
    exact ⟨pair, hpair, Option.some.inj hsome⟩

/-- Flips of the consecutive number that all lie above those they cause in the checksum are
aliased bursts. -/
theorem exists_aliased {flips : BitVec 32} (hne : flips ≠ 0#32)
    (hbelow : ∀ i j, flips.getLsbD i = true → (crcFlips flips).getLsbD j = true → j < i) :
    ∃ pair ∈ aliasedBursts, pair.1.toBitVec = flips := by
  have hset : ∃ i, flips.getLsbD i = true := by
    by_contra hnone
    apply hne
    apply BitVec.eq_of_getLsbD_eq
    intro i _
    rw [BitVec.getLsbD_zero]
    exact Bool.not_eq_true _ ▸ not_exists.mp hnone i
  have hfirst := Nat.find_spec hset
  have hlow : ∀ i < Nat.find hset, flips.getLsbD i = false := fun i hi =>
    Bool.not_eq_true _ ▸ Nat.find_min hset hi
  have himage : ∀ j, Nat.find hset ≤ j → (crcFlips flips).getLsbD j = false := by
    intro j hj
    by_contra hbit
    exact absurd (hbelow _ j hfirst (Bool.not_eq_false _ ▸ hbit)) (by omega)
  have hp : Nat.find hset < 32 := BitVec.lt_of_getLsbD hfirst
  refine aliased_of_mem_aliasedFrom (mem_of_image_below crcFlips_xor (List.mem_cons_self ..)
    (aliasedFrom_closed hp) (numberBasis (Nat.find hset)) ?_ hlow himage) hne
  intro j hj hj32
  rw [crcFlips_twoPow j hj32]
  exact numberBasis_check _ hp j hj32 hj

end Certificate

section Fields
variable (payload : List UInt8) (status : UInt8) (number crc : UInt32)

theorem wire_eq_append : wire payload status number crc =
    (payload ++ [status]) ++ (uint32Le number ++ uint32Le crc) := by
  simp [wire, dataBytes]

theorem bitAt_wire_head {p : ℕ} (hp : p < 8 * (payload.length + 1)) :
    bitAt ((wire payload status number crc).map UInt8.toBitVec) p =
      bitAt ((payload ++ [status]).map UInt8.toBitVec) p := by
  rw [wire_eq_append, List.map_append, bitAt_append_low _ (by simpa using hp)]

theorem bitAt_wire_number {i : ℕ} (hi : i < 32) :
    bitAt ((wire payload status number crc).map UInt8.toBitVec) (8 * (payload.length + 1) + i) =
      number.toBitVec.getLsbD i := by
  have hlength : ((payload ++ [status]).map UInt8.toBitVec).length = payload.length + 1 := by simp
  rw [wire_eq_append, List.map_append, ← hlength, bitAt_append_high, List.map_append,
    bitAt_append_low _ (by simpa using hi), uint32Le_map_toBitVec, bitAt_symbols _ hi]

theorem bitAt_wire_crc {j : ℕ} (hj : j < 32) :
    bitAt ((wire payload status number crc).map UInt8.toBitVec) (8 * (payload.length + 5) + j) =
      crc.toBitVec.getLsbD j := by
  have hlength : ((dataBytes payload status number).map UInt8.toBitVec).length =
      payload.length + 5 := by simp
  rw [wire, List.map_append, ← hlength, bitAt_append_high, uint32Le_map_toBitVec,
    bitAt_symbols _ hj]

theorem computeTelegramCrc_xor (address : SafetyAddress) (number' : UInt32) :
    (computeTelegramCrc address payload status number).toBitVec ^^^
        (computeTelegramCrc address payload status number').toBitVec =
      crcFlips (number.toBitVec ^^^ number'.toBitVec) := by
  have hdata : ∀ n : UInt32, dataBytes payload status n = (payload ++ [status]) ++ uint32Le n := by
    simp [dataBytes]
  have hthrice : ∀ v, crcFlips v = (shift Crc32.polynomial)^[32]
      ((shift Crc32.polynomial)^[32] ((shift Crc32.polynomial)^[32] v)) := by
    intro v
    rw [← Function.iterate_add_apply, ← Function.iterate_add_apply]
    rfl
  rw [computeTelegramCrc_toBitVec, computeTelegramCrc_toBitVec, register_append_addressBytes,
    register_append_addressBytes, hdata, hdata, register_append_uint32Le,
    register_append_uint32Le, xor_xor_xor_comm, BitVec.xor_self, BitVec.xor_zero,
    ← shift_iterate_xor, xor_xor_xor_comm, BitVec.xor_self, BitVec.xor_zero, ← shift_iterate_xor,
    ← shift_iterate_xor, xor_xor_xor_comm, BitVec.xor_self, BitVec.zero_xor, hthrice]

end Fields

section Straddling
variable {address : SafetyAddress} {payload payload' : List UInt8} {status status' : UInt8}
  {number number' crc' : UInt32} {start : ℕ}

theorem mem_flippedBits {sent received : List UInt8} {p : ℕ} :
    p ∈ flippedBits sent received ↔ p < 8 * sent.length ∧
      bitAt (sent.map UInt8.toBitVec) p ≠ bitAt (received.map UInt8.toBitVec) p := by
  rw [flippedBits, mem_differingBits, List.length_map]

theorem mem_flippedBits_wire {crc : UInt32} {received : List UInt8} {p : ℕ}
    (hp : p < 8 * (payload.length + 9))
    (hdiffer : bitAt ((wire payload status number crc).map UInt8.toBitVec) p ≠
      bitAt (received.map UInt8.toBitVec) p) :
    p ∈ flippedBits (wire payload status number crc) received := by
  rw [mem_flippedBits, length_wire]
  exact ⟨hp, hdiffer⟩

/-- A burst that leaves the checksum field alone is noticed. -/
theorem data_eq_of_burst (hlength : payload.length = payload'.length)
    (hcrc : computeTelegramCrc address payload status number =
      computeTelegramCrc address payload' status' number')
    (hburst : ∀ p ∈ flippedBits (dataBytes payload status number)
      (dataBytes payload' status' number'), start ≤ p ∧ p < start + 32) :
    dataBytes payload status number = dataBytes payload' status' number' := by
  have hregister : register (dataBytes payload status number) =
      register (dataBytes payload' status' number') := by
    rw [← UInt32.toBitVec_inj, computeTelegramCrc_toBitVec, computeTelegramCrc_toBitVec,
      register_append_addressBytes, register_append_addressBytes, BitVec.xor_left_inj,
      (polynomial_shift_injective.iterate 32).eq_iff, BitVec.xor_left_inj,
      (polynomial_shift_injective.iterate 32).eq_iff] at hcrc
    exact hcrc
  apply toBitVec_map_injective
  exact eq_of_burst polynomial_shift_injective (by decide) (by simp [hlength]) hburst hregister

/-- A burst that reaches into the checksum field cannot reach back before the consecutive
number. -/
theorem head_eq_of_burst {crc : UInt32} (hlength : payload.length = payload'.length) {j : ℕ}
    (hj : j < 32) (hflip : crc.toBitVec.getLsbD j ≠ crc'.toBitVec.getLsbD j)
    (hburst : ∀ p ∈ flippedBits (wire payload status number crc)
      (wire payload' status' number' crc'), start ≤ p ∧ p < start + 32) :
    payload = payload' ∧ status = status' := by
  have hfield := hburst (8 * (payload.length + 5) + j) (mem_flippedBits_wire (by omega) (by
    rw [bitAt_wire_crc _ _ _ _ hj, hlength, bitAt_wire_crc _ _ _ _ hj]
    exact hflip))
  have hhead : payload ++ [status] = payload' ++ [status'] := by
    apply toBitVec_map_injective
    apply eq_of_bitAt_eq (by simp [hlength])
    intro p hp
    rw [List.length_map, List.length_append, List.length_singleton] at hp
    by_contra hdiffer
    have hinside := hburst p (mem_flippedBits_wire (by omega) (by
      rw [bitAt_wire_head _ _ _ _ hp, bitAt_wire_head _ _ _ _ (hlength ▸ hp)]
      exact hdiffer))
    omega
  obtain ⟨hpayload, hstatus⟩ := List.append_inj hhead hlength
  exact ⟨hpayload, List.singleton_inj.mp hstatus⟩

/-- The flips a burst makes in the consecutive number all lie above those it makes in the
checksum field. -/
theorem flips_below_of_burst {crc : UInt32}
    (hburst : ∀ p ∈ flippedBits (wire payload status number crc)
      (wire payload status number' crc'), start ≤ p ∧ p < start + 32) {i j : ℕ}
    (hi : (number.toBitVec ^^^ number'.toBitVec).getLsbD i = true)
    (hj : (crc.toBitVec ^^^ crc'.toBitVec).getLsbD j = true) : j < i := by
  have hi32 : i < 32 := BitVec.lt_of_getLsbD hi
  have hj32 : j < 32 := BitVec.lt_of_getLsbD hj
  rw [BitVec.getLsbD_xor, bne_iff_ne] at hi hj
  have hnumber := hburst (8 * (payload.length + 1) + i) (mem_flippedBits_wire (by omega) (by
    rw [bitAt_wire_number _ _ _ _ hi32, bitAt_wire_number _ _ _ _ hi32]
    exact hi))
  have hcrc := hburst (8 * (payload.length + 5) + j) (mem_flippedBits_wire (by omega) (by
    rw [bitAt_wire_crc _ _ _ _ hj32, bitAt_wire_crc _ _ _ _ hj32]
    exact hj))
  omega

/-- A burst after which the checksum field is still right must have flipped it. -/
theorem crc_ne_of_burst (hlength : payload.length = payload'.length)
    (hcrc : crc' = computeTelegramCrc address payload' status' number')
    (hne : wire payload' status' number' crc' ≠ frame address payload status number)
    (hburst : ∀ p ∈ flippedBits (frame address payload status number)
      (wire payload' status' number' crc'), start ≤ p ∧ p < start + 32) :
    computeTelegramCrc address payload status number ≠ crc' := by
  intro hsame
  have hdata : dataBytes payload status number = dataBytes payload' status' number' := by
    apply data_eq_of_burst hlength (hsame.trans hcrc)
    intro p hp
    apply hburst p
    obtain ⟨hin, hdiffer⟩ := mem_flippedBits.mp hp
    rw [length_dataBytes] at hin
    apply mem_flippedBits_wire (by omega)
    rw [wire, wire, List.map_append, List.map_append, bitAt_append_low _ (by simpa using hin),
      bitAt_append_low _ (by simpa [← hlength] using hin)]
    exact hdiffer
  rw [frame, hsame, wire, wire, hdata] at hne
  exact absurd rfl hne

theorem eq_xor_of_xor_eq {a b c : UInt32} (h : a.toBitVec ^^^ b.toBitVec = c.toBitVec) :
    b = a ^^^ c := by
  rw [← UInt32.toBitVec_inj, UInt32.toBitVec_xor, ← h, ← BitVec.xor_assoc, BitVec.xor_self,
    BitVec.zero_xor]

/-- A burst after which the checksum field is still right is one of the aliased ones. -/
theorem aliased_of_burst (hlength : payload.length = payload'.length)
    (hcrc : crc' = computeTelegramCrc address payload' status' number')
    (hne : wire payload' status' number' crc' ≠ frame address payload status number)
    (hburst : ∀ p ∈ flippedBits (frame address payload status number)
      (wire payload' status' number' crc'), start ≤ p ∧ p < start + 32) :
    ∃ flips ∈ aliasedBursts,
      wire payload' status' number' crc' =
        withFlips (frame address payload status number) flips := by
  have hflipped := crc_ne_of_burst hlength hcrc hne hburst
  obtain ⟨j, hj, hflip⟩ : ∃ j < 32,
      (computeTelegramCrc address payload status number).toBitVec.getLsbD j ≠
        crc'.toBitVec.getLsbD j := by
    by_contra hnone
    push Not at hnone
    exact hflipped (UInt32.toBitVec_inj.mp (BitVec.eq_of_getLsbD_eq hnone))
  obtain ⟨rfl, rfl⟩ := head_eq_of_burst hlength hj hflip hburst
  have hflips : (computeTelegramCrc address payload status number).toBitVec ^^^ crc'.toBitVec =
      crcFlips (number.toBitVec ^^^ number'.toBitVec) := by
    rw [hcrc, computeTelegramCrc_xor]
  have hnumber : number.toBitVec ^^^ number'.toBitVec ≠ 0#32 := by
    intro hzero
    rw [BitVec.xor_eq_zero_iff, UInt32.toBitVec_inj] at hzero
    rw [hcrc, hzero] at hflipped
    exact hflipped rfl
  obtain ⟨flips, hmem, hfirst⟩ := exists_aliased hnumber (by
    intro i k hi hk
    rw [← hflips] at hk
    exact flips_below_of_burst hburst hi hk)
  have hsecond := crcFlips_aliasedBursts flips hmem
  rw [hfirst, ← hflips] at hsecond
  refine ⟨flips, hmem, ?_⟩
  rw [frame, withFlips, receivedPayload_wire, receivedStatus_wire, receivedNumber_wire,
    receivedCrc_wire, ← eq_xor_of_xor_eq hfirst.symm, ← eq_xor_of_xor_eq hsecond]

theorem withFlips_frame_authentic (receiver : SafetyReceiver) (payload : List UInt8)
    (status : UInt8) (number : UInt32) {flips : UInt32 × UInt32} (h : flips ∈ aliasedBursts) :
    receiver.Authentic (withFlips (frame receiver.address payload status number) flips) := by
  rw [SafetyReceiver.Authentic, withFlips, frame, receivedPayload_wire, receivedStatus_wire,
    receivedNumber_wire, receivedCrc_wire, receivedCrc_wire, expectedCrc_wire,
    ← UInt32.toBitVec_inj, UInt32.toBitVec_xor, ← crcFlips_aliasedBursts flips h]
  have hxor := computeTelegramCrc_xor payload status number receiver.address (number ^^^ flips.1)
  rw [UInt32.toBitVec_xor, ← BitVec.xor_assoc, BitVec.xor_self, BitVec.zero_xor] at hxor
  rw [← hxor, ← BitVec.xor_assoc, BitVec.xor_self, BitVec.zero_xor]

end Straddling

namespace SafetyReceiver

/-- A frame that differs from an encoded telegram only inside a window of 32 bits is reported
as a checksum mismatch exactly when it is not the telegram under one of the aliased bursts. -/
theorem burst_rejected_iff (sender : SafetySender) (receiver : SafetyReceiver)
    (haddress : receiver.address = sender.address) (hclear : receiver.safeState = false)
    (payload : List UInt8) (hpayload : payload.length ≤ kMaxPayloadBytes) (status : UInt8)
    (out : Telegram) (raw : List UInt8)
    (hlength : raw.length = (sender.encode payload status out).2.2.view.length)
    (hne : raw ≠ (sender.encode payload status out).2.2.view) (start : ℕ)
    (hburst : ∀ p ∈ flippedBits (sender.encode payload status out).2.2.view raw,
      start ≤ p ∧ p < start + 32)
    (nowNs : ℤ) (payloadOut : List UInt8) (hbuffer : payload.length ≤ payloadOut.length) :
    (receiver.receive raw nowNs payloadOut).2.status = .crcMismatch ↔
      ∀ flips ∈ aliasedBursts,
        raw ≠ withFlips (sender.encode payload status out).2.2.view flips := by
  rw [encode_view sender hpayload status out, ← haddress] at *
  rw [frame, length_wire] at hlength
  have hsize := wellSized_of_length hlength hpayload hbuffer
  rw [receive_crcMismatch_iff hclear hsize]
  constructor
  · intro hcrc flips hmem hraw
    rw [hraw] at hcrc
    exact hcrc (withFlips_frame_authentic receiver payload status _ hmem)
  · intro hnone hcrc
    have hsame : payload.length = (receivedPayload raw).length := by
      rw [length_receivedPayload, hlength, Nat.add_sub_cancel]
    rw [eq_wire_received hsize.1] at hne hburst hnone
    obtain ⟨flips, hmem, hraw⟩ := aliased_of_burst hsame hcrc hne hburst
    exact hnone flips hmem hraw

/-- A telegram with a burst over its first four bytes. -/
def burstFrame : List UInt8 :=
  [0x5A, 0x5A, 0x00, 0x81, 0x00, 0x00, 0x00, 0x50, 0x0B, 0xA1, 0xFB]

theorem burst_rejected_iff_burstFrame :
    let address : SafetyAddress :=
      { source := 0x0011, destination := 0x2200, parameterSignature := 0xCAFEF00D }
    let telegram := (SafetySender.encode { address } [0xA5, 0x5A] 0 {}).2.2
    (∀ p ∈ flippedBits telegram.view burstFrame, 0 ≤ p ∧ p < 0 + 32) ∧
      (receive { address, watchdogNs := 50 } burstFrame 0 [0, 0]).2.status = .crcMismatch := by
  intro address telegram
  have hview : telegram.view =
      [0xA5, 0x5A, 0x00, 0x01, 0x00, 0x00, 0x00, 0x50, 0x0B, 0xA1, 0xFB] := by decide +kernel
  have hburst : ∀ p ∈ flippedBits telegram.view burstFrame, 0 ≤ p ∧ p < 0 + 32 := by
    rw [hview]
    decide +kernel
  refine ⟨hburst, (burst_rejected_iff { address } _ rfl rfl [0xA5, 0x5A] (by decide) 0 {}
    burstFrame ?_ ?_ 0 hburst 0 [0, 0] le_rfl).mpr ?_⟩
  · exact (congrArg List.length hview).symm
  · rw [show (SafetySender.encode { address } [0xA5, 0x5A] 0 {}).2.2.view = _ from hview]
    decide
  · have hall : (aliasedBursts.all fun flips =>
        burstFrame != withFlips telegram.view flips) = true := by
      rw [hview]
      decide +kernel
    intro flips hflips
    exact bne_iff_ne.mp (List.all_eq_true.mp hall flips hflips)

/-- A telegram with a burst of 32 bits that starts in the consecutive number. -/
def straddlingFrame : List UInt8 :=
  [0xA5, 0x5A, 0x00, 0x01, 0x00, 0x00, 0xC0, 0x60, 0x52, 0xAA, 0xDB]

theorem straddling_burst_accepted :
    let address : SafetyAddress :=
      { source := 0x0011, destination := 0x2200, parameterSignature := 0xCAFEF00D }
    let telegram := (SafetySender.encode { address } [0xA5, 0x5A] 0 {}).2.2
    let received := receive { address, watchdogNs := 50 } straddlingFrame 0 [0, 0]
    straddlingFrame.length = telegram.view.length ∧ straddlingFrame ≠ telegram.view ∧
      (∀ p ∈ flippedBits telegram.view straddlingFrame, 54 ≤ p ∧ p < 54 + 32) ∧
      received.2.status = .valid ∧ received.1.lastConsecutiveNumber = 0xC0000001 := by
  decide +kernel

end SafetyReceiver
end SafeEdge.Safety
