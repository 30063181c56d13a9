import SafeEdge.Ipc.SeqlockSlot

/-! What the control loop publishes for everything outside it, and its layout in the slot. -/
namespace SafeEdge.Edge
open Ipc

structure RuntimeSnapshot where
  cyclesExecuted : UInt64 := 0
  overruns : UInt64 := 0
  skippedCycles : UInt64 := 0
  allocationViolations : UInt64 := 0
  jitterP50Ns : Int64 := 0
  jitterP99Ns : Int64 := 0
  jitterP999Ns : Int64 := 0
  jitterMaxNs : Int64 := 0
  executionP50Ns : Int64 := 0
  executionP99Ns : Int64 := 0
  executionMaxNs : Int64 := 0
  safetyState : UInt32 := 0
  faultReason : UInt32 := 0
  torquePermitted : UInt32 := 0
  faultLatched : UInt32 := 0
  safetyTransitionMonotonicNs : UInt64 := 0
  safetySequence : UInt64 := 0
  safetyStateAgeNs : UInt64 := 0
  estopAsserted : UInt32 := 0
  telegramsAccepted : UInt64 := 0
  telegramsRejected : UInt64 := 0
  realtimeSchedulingGranted : UInt32 := 0
  uptimeNs : Int64 := 0
  deriving DecidableEq

/-- Two 32-bit fields in one word, the first in the low half. -/
def packHalves (low high : UInt32) : UInt64 := low.toUInt64 ||| high.toUInt64 <<< 32

theorem packHalves_low (low high : UInt32) : (packHalves low high).toUInt32 = low := by
  apply UInt32.toBitVec_inj.mp
  apply BitVec.eq_of_getLsbD_eq
  intro i hi
  simp [packHalves, hi]

theorem packHalves_high (low high : UInt32) : (packHalves low high >>> 32).toUInt32 = high := by
  apply UInt32.toBitVec_inj.mp
  apply BitVec.eq_of_getLsbD_eq
  intro i hi
  simp [packHalves, hi, show 32 + i < 64 by omega, show i < 64 by omega]

/-- The 168 bytes of the snapshot: a lone 32-bit field is followed by four bytes of padding. -/
instance : TriviallyCopyable RuntimeSnapshot where
  kWordCount := 21
  toWords s :=
    ![s.cyclesExecuted, s.overruns, s.skippedCycles, s.allocationViolations,
      s.jitterP50Ns.toUInt64, s.jitterP99Ns.toUInt64, s.jitterP999Ns.toUInt64,
      s.jitterMaxNs.toUInt64, s.executionP50Ns.toUInt64, s.executionP99Ns.toUInt64,
      s.executionMaxNs.toUInt64, packHalves s.safetyState s.faultReason,
      packHalves s.torquePermitted s.faultLatched, s.safetyTransitionMonotonicNs,
      s.safetySequence, s.safetyStateAgeNs, packHalves s.estopAsserted 0,
      s.telegramsAccepted, s.telegramsRejected, packHalves s.realtimeSchedulingGranted 0,
      s.uptimeNs.toUInt64]
  ofWords words :=
    { cyclesExecuted := words 0
      overruns := words 1
      skippedCycles := words 2
      allocationViolations := words 3
      jitterP50Ns := (words 4).toInt64
      jitterP99Ns := (words 5).toInt64
      jitterP999Ns := (words 6).toInt64
      jitterMaxNs := (words 7).toInt64
      executionP50Ns := (words 8).toInt64
      executionP99Ns := (words 9).toInt64
      executionMaxNs := (words 10).toInt64
      safetyState := (words 11).toUInt32
      faultReason := (words 11 >>> 32).toUInt32
      torquePermitted := (words 12).toUInt32
      faultLatched := (words 12 >>> 32).toUInt32
      safetyTransitionMonotonicNs := words 13
      safetySequence := words 14
      safetyStateAgeNs := words 15
      estopAsserted := (words 16).toUInt32
      telegramsAccepted := words 17
      telegramsRejected := words 18
      realtimeSchedulingGranted := (words 19).toUInt32
      uptimeNs := (words 20).toInt64 }
  ofWords_toWords s := by
    cases s
    simp only [RuntimeSnapshot.mk.injEq]
    refine ⟨rfl, rfl, rfl, rfl, rfl, rfl, rfl, rfl, rfl, rfl, rfl, packHalves_low _ _,
      packHalves_high _ _, packHalves_low _ _, packHalves_high _ _, rfl, rfl, rfl,
      packHalves_low _ _, rfl, rfl, packHalves_low _ _, rfl⟩

end SafeEdge.Edge
