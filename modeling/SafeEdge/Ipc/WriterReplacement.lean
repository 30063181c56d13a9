import SafeEdge.Ipc.WholeCalls

/-! A slot whose writer stops inside a store and is replaced: the successor takes the counter as
it finds it, so the parity the dead writer left decides what readers can load from then on. -/
namespace SafeEdge.Ipc
open Library TriviallyCopyable

namespace Execution
variable {ι T : Type*} [DecidableEq ι] [TriviallyCopyable T]

/-- The stores alternate between counters of this parity and, while they write, the other. -/
def Alternates (e : Execution ι T) (parity : ℕ) : Prop :=
  match e.writer with
  | .idle => e.slot.sequence.toNat % 2 = parity
  | .loaded _ start => start = e.slot.sequence ∧ e.slot.sequence.toNat % 2 = parity
  | .writing _ start _ => start.toNat % 2 = parity ∧ e.slot.sequence = start + 1

/-- Between stores the words are those of the latest publication. -/
def HoldsLatest (e : Execution ι T) : Prop :=
  match e.writer with
  | .idle | .loaded _ _ => e.slot.words = latestWords e.published
  | .writing value _ index => ∀ i, i.val < index → e.slot.words i = toWords value i

theorem Alternates.step {e : Execution ι T} {parity : ℕ} (h : e.Alternates parity)
    (turn : Turn ι T) : (e.step turn).1.Alternates parity := by
  cases turn with
  | reader id out maxAttempts => exact h
  | writer value =>
    have hout := e.writerStep_outcome value
    simp only [Execution.step]
    generalize e.writerStep value = result at hout
    cases hout with
    | load hidle =>
      simp only [Alternates, hidle] at h ⊢
      exact ⟨trivial, h⟩
    | mark hloaded =>
      simp only [Alternates, hloaded] at h ⊢
      obtain ⟨rfl, hparity⟩ := h
      exact ⟨hparity, trivial⟩
    | write hwriting =>
      simp only [Alternates, hwriting] at h ⊢
      exact h
    | @publish stored start index hwriting =>
      simp only [Alternates, hwriting] at h ⊢
      have htwo : (2 : UInt64).toNat = 2 := rfl
      rw [UInt64.toNat_add, htwo]
      omega

theorem HoldsLatest.step {e : Execution ι T} (h : e.HoldsLatest) (turn : Turn ι T) :
    (e.step turn).1.HoldsLatest := by
  cases turn with
  | reader id out maxAttempts => exact h
  | writer value =>
    have hout := e.writerStep_outcome value
    simp only [Execution.step]
    generalize e.writerStep value = result at hout
    cases hout with
    | load hidle => simpa only [HoldsLatest, hidle] using h
    | mark hloaded => exact fun i hi => absurd hi (Nat.not_lt_zero _)
    | write hwriting hindex =>
      simp only [HoldsLatest, hwriting] at h ⊢
      exact update_agrees hindex h
    | publish hwriting hdone =>
      simp only [HoldsLatest, hwriting] at h ⊢
      rw [latestWords_concat]
      funext i
      exact h i (by omega)

theorem sampledEven_step {e : Execution ι T} (h : ∀ id, (e.readers id).SampledEven)
    (turn : Turn ι T) (id : ι) : ((e.step turn).1.readers id).SampledEven := by
  have hout := e.step_readerOutcome turn id
  generalize (e.step turn).1.readers id = next at hout
  cases hout with
  | own out maxAttempts => exact (h id).step e.slot out maxAttempts
  | other => exact h id

section Run
variable {e : Execution ι T} (schedule : ℕ → Turn ι T)

theorem executionAt_alternates {parity : ℕ} (h : e.Alternates parity) (n : ℕ) :
    (e.executionAt schedule n).Alternates parity :=
  stateAt_invariant (fun _ (e : Execution ι T) => e.Alternates parity) h (fun _ ih => ih.step _) n

theorem executionAt_holdsLatest (h : e.HoldsLatest) (n : ℕ) :
    (e.executionAt schedule n).HoldsLatest :=
  stateAt_invariant (fun _ (e : Execution ι T) => e.HoldsLatest) h (fun _ ih => ih.step _) n

theorem executionAt_sampledEven (h : ∀ id, (e.readers id).SampledEven) (n : ℕ) (id : ι) :
    ((e.executionAt schedule n).readers id).SampledEven :=
  stateAt_invariant (fun _ (e : Execution ι T) => ∀ id, (e.readers id).SampledEven) h
    (fun _ ih => sampledEven_step ih _) n id

end Run

/-- The writer stops where it stands for good, and another takes the slot over as it is. -/
def replaceWriter (e : Execution ι T) : Execution ι T := { e with writer := .idle }

/-- The execution at the moment a writer is replaced that took part in it up to turn `m`. -/
def takenOver (outs : ι → T) (before : ℕ → Turn ι T) (m : ℕ) : Execution ι T :=
  ((initial outs).executionAt before m).replaceWriter

/-- The loads of the reader that succeed before turn `n` return the publication that is the
latest one at their last turn. -/
def LoadsWhole (e : Execution ι T) (schedule : ℕ → Turn ι T) (id : ι) (n : ℕ) : Prop :=
  ∀ k < n, e.Returns schedule id k true →
    ((e.executionAt schedule (k + 1)).readers id).out = latest (e.executionAt schedule k).published

/-- A load of the reader begun after turn `stored` returns the value stored last, if the slot
is left as it is. -/
def LoadsLast (e : Execution ι T) (schedule : ℕ → Turn ι T) (id : ι) (stored : ℕ) : Prop :=
  ∀ out maxAttempts first k, stored < first → 0 < maxAttempts →
    schedule first = .reader id out maxAttempts →
    ((e.executionAt schedule first).readers id).pc = .idle →
    (∀ i, stored < i → i < k →
      (e.executionAt schedule i).slot = (e.executionAt schedule (stored + 1)).slot) →
    kWordCount T + 3 ≤ turns schedule id first k →
    ∃ last < k, e.Calls schedule id out maxAttempts first last ∧
      e.Returns schedule id last true ∧
      ((e.executionAt schedule (last + 1)).readers id).out =
        latest (e.executionAt schedule (stored + 1)).published

/-- The turn that completes a store leaves the writer idle. -/
theorem idle_of_stored {e : Execution ι T} {turn : Turn ι T} (h : (e.step turn).2 = .stored) :
    (e.step turn).1.writer = .idle := by
  cases turn with
  | reader id out maxAttempts =>
    have hout := (e.readers id).step_outcome e.slot out maxAttempts
    have hevent : ((e.readers id).step e.slot out maxAttempts).2 = .stored := h
    generalize (e.readers id).step e.slot out maxAttempts = result at hout hevent
    cases hout with
    | call | collide | retry =>
      unfold Reader.nextAttempt at hevent
      split_ifs at hevent
    | sample | copy | accept => simp at hevent
  | writer value =>
    have hout := e.writerStep_outcome value
    simp only [step] at h ⊢
    generalize e.writerStep value = result at hout h
    cases hout with
    | publish => rfl
    | _ => simp at h

section Replaced
variable (outs : ι → T) (before : ℕ → Turn ι T) (m : ℕ)

theorem reached_alternates : ((initial outs).executionAt before m).Alternates 0 := by
  have hinitial : (initial outs).Alternates 0 := rfl
  exact executionAt_alternates before hinitial m

theorem takenOver_sampledEven (id : ι) : ((takenOver outs before m).readers id).SampledEven := by
  have hinitial : ∀ id, ((initial outs).readers id).SampledEven := fun _ => trivial
  exact executionAt_sampledEven before hinitial m id

variable {outs before m}

/-- The counter is odd exactly while a store is between its two markers. -/
theorem writeInProgress_iff_writing :
    ((initial outs).executionAt before m).slot.WriteInProgress ↔
      ∃ value start index, ((initial outs).executionAt before m).writer =
        .writing value start index := by
  have hparity := reached_alternates outs before m
  rw [writeInProgress_iff]
  cases hpc : ((initial outs).executionAt before m).writer with
  | idle =>
    simp only [Alternates, hpc] at hparity
    simp [hparity]
  | loaded value start =>
    simp only [Alternates, hpc] at hparity
    simp [hparity.2]
  | writing value start index =>
    simp only [Alternates, hpc] at hparity
    refine iff_of_true ?_ ⟨value, start, index, rfl⟩
    rw [hparity.2, UInt64.toNat_add, UInt64.toNat_one]
    omega

/-- A writer that left the counter even left the latest publication in the slot. -/
theorem takenOver_holdsLatest
    (hquiet : ¬ ((initial outs).executionAt before m).slot.WriteInProgress) :
    (takenOver outs before m).HoldsLatest := by
  have hinitial : (initial outs).HoldsLatest := rfl
  have hwords := executionAt_holdsLatest before hinitial m
  rw [writeInProgress_iff_writing] at hquiet
  rw [takenOver, replaceWriter]
  cases hpc : ((initial outs).executionAt before m).writer with
  | idle | loaded => simpa only [HoldsLatest, hpc] using hwords
  | writing value start index => exact absurd ⟨value, start, index, hpc⟩ hquiet

theorem stores_takenOver :
    ((initial outs).executionAt before m).stores ≤ (takenOver outs before m).stores + 1 := by
  rw [takenOver, replaceWriter]
  unfold stores
  split <;> simp

theorem takenOver_consistent
    (hquiet : ¬ ((initial outs).executionAt before m).slot.WriteInProgress)
    (hstores : (takenOver outs before m).stores + 1 < 2 ^ 63) :
    (takenOver outs before m).Consistent := by
  have hreached := executionAt_consistent before (initial_consistent outs)
    (stores_takenOver.trans_lt hstores)
  rw [writeInProgress_iff] at hquiet
  exact ⟨hreached.writer.of_even (by omega), hreached.readers⟩

/-- After a store completes, the counter has the parity it had at the takeover. -/
theorem sequence_of_stored {schedule : ℕ → Turn ι T} {parity stored : ℕ}
    (hparity : (takenOver outs before m).slot.sequence.toNat % 2 = parity)
    (hstored : (takenOver outs before m).eventAt schedule stored = .stored) :
    ((takenOver outs before m).executionAt schedule (stored + 1)).slot.sequence.toNat % 2 =
      parity := by
  have htaken : (takenOver outs before m).Alternates parity := hparity
  have hafter := executionAt_alternates schedule htaken (stored + 1)
  simp only [Alternates] at hafter
  rw [executionAt_succ, idle_of_stored hstored] at hafter
  exact hafter

/-- A successor that finds the counter even serves its readers as its predecessor did. -/
theorem loadsWhole_of_quiet
    (hquiet : ¬ ((initial outs).executionAt before m).slot.WriteInProgress)
    (schedule : ℕ → Turn ι T) (id : ι) {n : ℕ}
    (hstores : ((takenOver outs before m).executionAt schedule n).stores + 1 < 2 ^ 63) :
    (takenOver outs before m).LoadsWhole schedule id n := by
  intro k hk hreturns
  have hmono := (takenOver outs before m).stores_mono schedule
  have hstart : (takenOver outs before m).stores ≤ _ := hmono (Nat.zero_le n)
  have hbefore := hmono hk.le
  simp only at hbefore hstart
  exact ((takenOver_consistent hquiet (by omega)).returns (by omega) hreturns).1

theorem loadsLast_of_quiet
    (hquiet : ¬ ((initial outs).executionAt before m).slot.WriteInProgress)
    (schedule : ℕ → Turn ι T) (id : ι) {stored : ℕ}
    (hstored : (takenOver outs before m).eventAt schedule stored = .stored) :
    (takenOver outs before m).LoadsLast schedule id stored := by
  intro out maxAttempts first k hfirst hmax hstarted hidle hslot hturns
  have hwords := executionAt_holdsLatest schedule (takenOver_holdsLatest hquiet) (stored + 1)
  rw [writeInProgress_iff] at hquiet
  have heven : (takenOver outs before m).slot.sequence.toNat % 2 = 0 :=
    Nat.mod_two_ne_one.mp hquiet
  have hparity := sequence_of_stored heven hstored
  simp only [HoldsLatest] at hwords
  rw [executionAt_succ, idle_of_stored hstored, ← executionAt_succ] at hwords
  have hle : first ≤ k := by
    by_contra hgt
    rw [turns, Finset.Ico_eq_empty (by omega)] at hturns
    simp at hturns
  obtain ⟨last, hlast, hcalls, hreturns, hout⟩ := load_of_quiet hstarted hidle hmax
    (by rw [writeInProgress_iff, hparity]; decide) hle
    (fun i hi hik => hslot i (by omega) hik) hturns
  refine ⟨last, hlast, hcalls, hreturns, ?_⟩
  rw [hout, hwords, ofWords_latestWords]

end Replaced

section Inverted
variable {e : Execution ι T} {id : ι} {value : T}

/-- One store of the value, then loads of the reader with one attempt each. -/
def storeThenLoads (value : T) (id : ι) (j : ℕ) : Turn ι T :=
  if j < kWordCount T + 3 then .writer value else .reader id value 1

omit [DecidableEq ι] in
theorem storeThenLoads_load {j : ℕ} (h : kWordCount T + 3 ≤ j) :
    storeThenLoads value id j = .reader id value 1 := if_neg (by omega)

theorem storeThenLoads_stored (hidle : e.writer = .idle) (value : T) (id : ι) :
    e.eventAt (storeThenLoads value id) (kWordCount T + 2) = .stored := by
  have hturns : ∀ j < kWordCount T + 3, storeThenLoads value id (0 + j) = .writer value := by
    intro j hj
    exact if_pos (by omega)
  have hstart : (e.executionAt (storeThenLoads value id) 0).writer = .idle := hidle
  have hstored := (stored_of_idle hstart hturns).1
  rwa [Nat.zero_add] at hstored

theorem storeThenLoads_slot {j : ℕ} (hj : kWordCount T + 3 ≤ j) :
    (e.executionAt (storeThenLoads value id) j).slot =
      (e.executionAt (storeThenLoads value id) (kWordCount T + 3)).slot := by
  induction j, hj using Nat.le_induction with
  | base => rfl
  | succ j hj ih => rw [executionAt_succ, storeThenLoads_load hj, step_reader_slot, ih]

theorem storeThenLoads_turns {first : ℕ} (h : kWordCount T + 3 ≤ first) (n : ℕ) :
    turns (storeThenLoads value id) id first (first + n) = n := by
  induction n with
  | zero => simp [turns]
  | succ n ih =>
    rw [← Nat.add_assoc, turns_succ _ _ (Nat.le_add_right first n), ih,
      storeThenLoads_load (by omega)]
    simp [Turn.isReader]

/-- Under an odd counter the reader comes to the end of the call it is in. -/
theorem exists_idle (hbusy : (e.executionAt (storeThenLoads value id)
      (kWordCount T + 3)).slot.WriteInProgress) {j : ℕ} (hj : kWordCount T + 3 ≤ j) :
    ∃ first, kWordCount T + 3 ≤ first ∧
      ((e.executionAt (storeThenLoads value id) first).readers id).pc = .idle := by
  induction hpatience : ((e.executionAt (storeThenLoads value id) j).readers id).patience
      using Nat.strong_induction_on generalizing j with
  | _ patience ih =>
    by_cases hidle : ((e.executionAt (storeThenLoads value id) j).readers id).pc = .idle
    · exact ⟨j, hj, hidle⟩
    · rw [← storeThenLoads_slot hj] at hbusy
      have hless := Reader.step_patience hbusy hidle value 1
      rw [storeThenLoads_slot hj] at hbusy
      refine ih _ ?_ (hj.trans (Nat.le_succ j)) rfl
      rw [executionAt_succ, storeThenLoads_load hj, step_reader_self, ← hpatience]
      exact hless

/-- A successor that finds the counter odd leaves it odd, and nothing can be loaded. -/
theorem not_loadsLast_of_odd {outs : ι → T} {before : ℕ → Turn ι T} {m : ℕ}
    (hodd : (takenOver outs before m).slot.sequence.toNat % 2 = 1) (value : T) (id : ι) :
    ¬ (takenOver outs before m).LoadsLast (storeThenLoads value id) id (kWordCount T + 2) := by
  intro hloads
  have hfresh : (takenOver outs before m).writer = .idle := rfl
  have hstored := storeThenLoads_stored hfresh value id
  have hbusy := (writeInProgress_iff _).mpr (sequence_of_stored hodd hstored)
  obtain ⟨first, hfirst, hidle⟩ := exists_idle hbusy le_rfl
  obtain ⟨last, hlast, hcalls, ⟨⟨o, k, hturn⟩, hevent⟩, _⟩ :=
    hloads value 1 first (first + (kWordCount T + 3)) hfirst one_pos
      (storeThenLoads_load hfirst) hidle (fun i hi _ => storeThenLoads_slot hi)
      (storeThenLoads_turns hfirst _).ge
  rw [eventAt, hturn] at hevent
  refine Reader.SampledEven.not_loaded
    (executionAt_sampledEven _ (takenOver_sampledEven outs before m) last id) ?_ o k hevent
  rw [storeThenLoads_slot (hfirst.trans hcalls.le)]
  exact hbusy

end Inverted

/-- Wherever a writer stops and another takes over, under every schedule of the successor and
the readers: while fewer than `2 ^ 63` stores are begun, the abandoned one included, the loads
of a reader return whole publications, and after each store of the successor a load returns the
value stored last, exactly if the dead writer left the counter even. -/
theorem replacement_survives_iff (outs : ι → T) (before : ℕ → Turn ι T) (m : ℕ) (id : ι) :
    (∀ schedule : ℕ → Turn ι T,
      (∀ n, ((takenOver outs before m).executionAt schedule n).stores + 1 < 2 ^ 63 →
        (takenOver outs before m).LoadsWhole schedule id n) ∧
      ∀ stored, (takenOver outs before m).eventAt schedule stored = .stored →
        (takenOver outs before m).LoadsLast schedule id stored) ↔
    ¬ ((initial outs).executionAt before m).slot.WriteInProgress := by
  constructor
  · intro hsurvives hbusy
    rw [writeInProgress_iff] at hbusy
    have hfresh : (takenOver outs before m).writer = .idle := rfl
    exact not_loadsLast_of_odd hbusy (outs id) id
      ((hsurvives _).2 _ (storeThenLoads_stored hfresh (outs id) id))
  · intro hquiet schedule
    exact ⟨fun n hstores => loadsWhole_of_quiet hquiet schedule id hstores,
      fun stored hstored => loadsLast_of_quiet hquiet schedule id hstored⟩

/-- A store that completes, and one abandoned after its first word. -/
def abandoned (k : ℕ) : Turn Unit (Fin 2 → UInt64) :=
  if k < 5 then .writer ![1, 1] else .writer ![3, 3]

/-- A store of the successor with a load in the middle of it, and a load after it. -/
def successor (k : ℕ) : Turn Unit (Fin 2 → UInt64) :=
  if k < 3 ∨ k = 8 ∨ k = 9 then .writer ![7, 9] else .reader () ![0, 0] 3

/-- A store that completes, and a load that has copied one of two words. -/
def reading (k : ℕ) : Turn Unit (Fin 2 → UInt64) :=
  if k < 5 then .writer ![1, 1] else .reader () ![0, 0] 3

/-- So many stores of the successor, and the rest of the load. -/
def storing (n k : ℕ) : Turn Unit (Fin 2 → UInt64) :=
  if k < n * 5 then .writer ![7, 9] else .reader () ![0, 0] 3

/-- A load that is overtaken by exactly as many stores as wrap the counter around. -/
theorem storing_mixes {n : ℕ} (hn : 0 < n) (hwrap : UInt64.ofNat (2 * n) = 0) :
    (takenOver (fun _ => ![0, 0]) reading 8).Returns (storing n) () (n * 5 + 1) true ∧
      (((takenOver (fun _ => ![0, 0]) reading 8).executionAt (storing n)
        (n * 5 + 2)).readers ()).out = ![1, 9] := by
  have hidle : ((takenOver (fun _ => ![0, 0]) reading 8).executionAt (storing n) 0).writer =
      .idle := rfl
  have hturns : ∀ j < n * 5, storing n (0 + j) = .writer ![7, 9] := by
    intro j hj
    exact if_pos (by omega)
  obtain ⟨_, hsequence, hwords, hreaders⟩ := stores_of_idle hidle hturns
  rw [hwrap] at hsequence
  rw [Nat.zero_add] at hsequence hwords hreaders
  have hcopy : storing n (n * 5) = .reader () ![0, 0] 3 := if_neg (lt_irrefl _)
  have haccept : storing n (n * 5 + 1) = .reader () ![0, 0] 3 := if_neg (by omega)
  have hslot : ((takenOver (fun _ => ![0, 0]) reading 8).executionAt (storing n) (n * 5)).slot =
      { sequence := 2, words := ![7, 9] } :=
    congrArg₂ SeqlockSlot.mk hsequence (hwords hn)
  have hreader : ((takenOver (fun _ => ![0, 0]) reading 8).executionAt (storing n)
      (n * 5)).readers = (takenOver (fun _ => ![0, 0]) reading 8).readers := hreaders
  refine ⟨⟨⟨_, _, haccept⟩, ?_⟩, ?_⟩
  · rw [eventAt, haccept, executionAt_succ, hcopy]
    change (Reader.step _ _ _ _).2 = _
    rw [step_reader_self, step_reader_slot, hslot, hreader]
    decide
  · rw [executionAt_succ, haccept, step_reader_self, executionAt_succ, hcopy, step_reader_self,
      step_reader_slot, hslot, hreader]
    decide

/-- Two loads that mix values: one during the store of a successor that found the counter odd,
after which nothing can be loaded, and one overtaken by as many stores as wrap the counter
around. -/
theorem replacement_mixes :
    (((initial fun _ => ![0, 0]).executionAt abandoned 8).slot.WriteInProgress ∧
      (takenOver (fun _ => ![0, 0]) abandoned 8).published = [![1, 1]] ∧
      (takenOver (fun _ => ![0, 0]) abandoned 8).Returns successor () 7 true ∧
      (((takenOver (fun _ => ![0, 0]) abandoned 8).executionAt successor 8).readers ()).out =
        ![7, 1] ∧
      (takenOver (fun _ => ![0, 0]) abandoned 8).eventAt successor 9 = .stored ∧
      ((takenOver (fun _ => ![0, 0]) abandoned 8).executionAt successor 10).published =
        [![1, 1], ![7, 9]] ∧
      (((takenOver (fun _ => ![0, 0]) abandoned 8).executionAt successor 10).readers ()).pc =
        .idle ∧
      (takenOver (fun _ => ![0, 0]) abandoned 8).Returns successor () 13 false) ∧
    (takenOver (fun _ => ![0, 0]) reading 8).Returns (storing (2 ^ 63)) () (2 ^ 63 * 5 + 1) true ∧
    (((takenOver (fun _ => ![0, 0]) reading 8).executionAt (storing (2 ^ 63))
      (2 ^ 63 * 5 + 2)).readers ()).out = ![1, 9] := by
  refine ⟨⟨by decide, rfl, ⟨⟨_, _, rfl⟩, by decide⟩, ?_, by decide, rfl, rfl,
    ⟨⟨_, _, rfl⟩, by decide⟩⟩, storing_mixes (by norm_num) rfl⟩
  decide

end Execution
end SafeEdge.Ipc
