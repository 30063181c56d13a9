import SafeEdge.Ipc.SeqlockOrdering

/-! What a reader of the slot can load under the orderings of its accesses: the promises that the
writes of the counter and of the words make to whoever acquires them. -/
namespace SafeEdge.Ipc
open Library TriviallyCopyable

variable {T : Type*} [TriviallyCopyable T]

/-- The values whose store has been called, after those whose store has returned. -/
def WriterPc.begun (published : List T) : WriterPc T → List T
  | .idle => published
  | .loaded value _ | .writing value _ _ => published ++ [value]

/-- The writes made to each object when a number of stores are complete. -/
def madeBetween (count : ℕ) : View (SlotPlace (kWordCount T))
  | .sequence => 2 * count
  | .word _ => count

/-- The writes made to each object when the next store has written the words before `index`. -/
def madeWithin (count index : ℕ) : View (SlotPlace (kWordCount T))
  | .sequence => 2 * count + 1
  | .word i => if i < index then count + 1 else count

theorem madeWithin_zero (count : ℕ) : madeWithin (T := T) count 0 =
    Function.update (madeBetween (T := T) count) .sequence
      (madeBetween (T := T) count .sequence + 1) := by
  funext place
  cases place <;> simp [madeWithin, madeBetween]

theorem madeWithin_succ (count : ℕ) {index : ℕ} (h : index < kWordCount T) :
    madeWithin (T := T) count (index + 1) =
      Function.update (madeWithin (T := T) count index) (.word ⟨index, h⟩)
        (madeWithin (T := T) count index (.word ⟨index, h⟩) + 1) := by
  funext place
  cases place with
  | sequence => simp [madeWithin]
  | word i =>
    by_cases hi : i = ⟨index, h⟩
    · subst hi
      simp [madeWithin]
    · have hne : (i : ℕ) ≠ index := fun heq => hi (Fin.ext heq)
      have hlt : (i : ℕ) < index + 1 ↔ (i : ℕ) < index := by omega
      rw [Function.update_of_ne fun heq => hi (SlotPlace.word.inj heq)]
      simp only [madeWithin, hlt]

theorem madeBetween_succ (count : ℕ) {index : ℕ} (h : ¬ index < kWordCount T) :
    madeBetween (T := T) (count + 1) =
      Function.update (madeWithin (T := T) count index) .sequence
        (madeWithin (T := T) count index .sequence + 1) := by
  funext place
  cases place with
  | sequence =>
    simp only [madeBetween, madeWithin, Function.update_self]
    omega
  | word i =>
    have hi : (i : ℕ) < index := i.isLt.trans_le (not_lt.mp h)
    simp [madeBetween, madeWithin, hi]

def WriterPc.made (count : ℕ) : WriterPc T → View (SlotPlace (kWordCount T))
  | .idle | .loaded _ _ => madeBetween (T := T) count
  | .writing _ _ index => madeWithin (T := T) count index

/-- The writer has loaded its own last counter. -/
def WriterPc.Started (count : ℕ) : WriterPc T → Prop
  | .idle => True
  | .loaded _ start | .writing _ start _ => start = UInt64.ofNat (2 * count)

namespace OrderedExecution
variable {ι : Type*} (e : OrderedExecution ι T)

/-- The values whose store has been called. -/
def begun : List T := e.writer.begun e.published

/-- The writes made to each object. -/
def made : View (SlotPlace (kWordCount T)) := e.writer.made e.published.length

/-- The number of stores a thread knows to be complete. -/
def known (thread : Option ι) : ℕ := e.views thread .sequence / 2

end OrderedExecution

section Promises
variable {begun : List T} {n : ℕ}

/-- What the writes of a slot promise whoever acquires them: the counter counts its own writes and
tells of the words of all complete stores; a word is that of the store with its number and tells of
the odd counter before it. -/
def SlotPromise (begun : List T) :
    SlotPlace (kWordCount T) → ℕ → UInt64 → View (SlotPlace (kWordCount T)) → Prop
  | .sequence, number, value, view =>
    value = UInt64.ofNat number ∧ ∀ i, number / 2 ≤ view (.word i)
  | .word i, number, value, view =>
    value = latestWords (begun.take number) i ∧ 2 * number ≤ view .sequence + 1

theorem slotPromise_mono (place : SlotPlace (kWordCount T)) (number : ℕ) (value : UInt64) :
    Monotone (SlotPromise begun place number value) := by
  intro view wider hle
  cases place with
  | sequence => exact fun ⟨hvalue, hwords⟩ => ⟨hvalue, fun i => (hwords i).trans (hle _)⟩
  | word i => exact fun ⟨hvalue, hcounter⟩ => ⟨hvalue, hcounter.trans (Nat.succ_le_succ (hle _))⟩

theorem slotPromise_append {place : SlotPlace (kWordCount T)} {number : ℕ} {value : UInt64}
    {view : View (SlotPlace (kWordCount T))} (later : List T)
    (hnumber : ∀ i, place = .word i → number ≤ begun.length)
    (h : SlotPromise begun place number value view) :
    SlotPromise (begun ++ later) place number value view := by
  cases place with
  | sequence => exact h
  | word i =>
    rw [SlotPromise, List.take_append_of_le_length (hnumber i rfl)]
    exact h

/-- What a reader holds that has sampled the counter and copied some words: each word is of that
store or of a later one, and of a later one the reader knows the counter. -/
def ReaderPc.Copied (begun : List T) (view : View (SlotPlace (kWordCount T))) :
    ReaderPc T → Prop
  | .idle | .sampling _ _ => True
  | .copying _ _ before staging index =>
    ∃ number, number % 2 = 0 ∧ before = UInt64.ofNat number ∧ number ≤ view .sequence ∧
      (∀ i, number / 2 ≤ view (.word i)) ∧
      ∀ i : Fin (kWordCount T), i < index → ∃ version, number / 2 ≤ version ∧
        version ≤ begun.length ∧ staging i = latestWords (begun.take version) i ∧
        2 * version ≤ view .sequence + 1

theorem ReaderPc.Copied.mono {pc : ReaderPc T} {view wider : View (SlotPlace (kWordCount T))}
    (h : pc.Copied begun view) (hle : view ≤ wider) : pc.Copied begun wider := by
  cases pc with
  | idle | sampling => trivial
  | copying most attempt before staging index =>
    obtain ⟨number, heven, hbefore, hknown, hwords, hcopied⟩ := h
    refine ⟨number, heven, hbefore, hknown.trans (hle _), fun i => (hwords i).trans (hle _),
      fun i hi => ?_⟩
    obtain ⟨version, hversion, hbegun, hstaging, hcounter⟩ := hcopied i hi
    exact ⟨version, hversion, hbegun, hstaging, hcounter.trans (Nat.succ_le_succ (hle _))⟩

theorem ReaderPc.Copied.append {pc : ReaderPc T} {view : View (SlotPlace (kWordCount T))}
    (h : pc.Copied begun view) (later : List T) : pc.Copied (begun ++ later) view := by
  cases pc with
  | idle | sampling => trivial
  | copying most attempt before staging index =>
    obtain ⟨number, heven, hbefore, hknown, hwords, hcopied⟩ := h
    refine ⟨number, heven, hbefore, hknown, hwords, fun i hi => ?_⟩
    obtain ⟨version, hversion, hbegun, hstaging, hcounter⟩ := hcopied i hi
    refine ⟨version, hversion, ?_, ?_, hcounter⟩
    · exact hbegun.trans (by simp)
    · rw [List.take_append_of_le_length hbegun]
      exact hstaging

/-- A call that succeeds ends with the counter it has sampled and all words copied. -/
theorem Reader.step_loaded {reader : Reader T} {slot : SeqlockSlot T} {out : T} {maxAttempts : ℕ}
    (h : (reader.step slot out maxAttempts).2 = .loaded true) :
    ∃ most attempt staging index, reader.pc = .copying most attempt slot.sequence staging index ∧
      ¬ index < kWordCount T ∧
        (reader.step slot out maxAttempts).1 = { out := ofWords staging } := by
  have hout := reader.step_outcome slot out maxAttempts
  generalize reader.step slot out maxAttempts = result at hout h
  cases hout with
  | call | collide | retry => exact absurd h (Reader.nextAttempt_not_loaded _ _ _)
  | sample | copy => cases h
  | @accept most attempt staging index hcopying hdone =>
    exact ⟨most, attempt, staging, index, hcopying, hdone, rfl⟩

theorem nextAttempt_copied (out : T) (most attempt : ℕ)
    (view : View (SlotPlace (kWordCount T))) :
    (Reader.nextAttempt out most attempt).1.pc.Copied begun view := by
  unfold Reader.nextAttempt
  split_ifs <;> trivial

end Promises

namespace OrderedExecution
variable {ι : Type*} {orders : SlotOrders} {e : OrderedExecution ι T}

/-- Every write keeps its promise, no view tells of a write that was not made, and the writer knows
them all. -/
structure Consistent (e : OrderedExecution ι T) : Prop where
  last : ∀ place, (e.memory place).last = e.made place
  started : e.writer.Started e.published.length
  keeps : ∀ place, (e.memory place).Keeps (SlotPromise e.begun place)
  within : ∀ place, (e.memory place).Keeps fun _ _ view => view ≤ e.made
  views : ∀ thread, e.views thread ≤ e.made
  writer : e.made ≤ e.views none
  readers : ∀ id, (e.readers id).pc.Copied e.begun (e.views (some id))

theorem initial_consistent (outs : ι → T) : (initial outs).Consistent where
  last place := by cases place <;> rfl
  started := trivial
  keeps place := by
    cases place with
    | sequence => exact Atomic.keeps_initial ⟨rfl, fun _ => le_rfl⟩
    | word i => exact Atomic.keeps_initial ⟨rfl, Nat.zero_le _⟩
  within _ := Atomic.keeps_initial fun _ => Nat.zero_le _
  views _ _ := Nat.zero_le _
  writer place := by cases place <;> exact le_rfl
  readers _ := trivial

theorem Consistent.views_none (h : e.Consistent) : e.views none = e.made :=
  le_antisymm (h.views none) h.writer

theorem made_word_le (i : Fin (kWordCount T)) : e.made (.word i) ≤ e.begun.length := by
  unfold made begun
  cases e.writer with
  | idle | loaded => simp [WriterPc.made, WriterPc.begun, madeBetween]
  | writing stored start index =>
    simp only [WriterPc.made, WriterPc.begun, madeWithin, List.length_append,
      List.length_singleton]
    split_ifs <;> omega

theorem made_sequence_le : e.made .sequence ≤ 2 * e.begun.length := by
  unfold made begun
  cases e.writer <;> simp [WriterPc.made, WriterPc.begun, madeBetween, madeWithin]

variable [DecidableEq ι]

/-- A store by the writer that keeps its promise keeps everything. -/
theorem Consistent.write (h : e.Consistent) (horders : orders.Synchronize)
    {place : SlotPlace (kWordCount T)} {value : UInt64} {writer : WriterPc T} {published : List T}
    (hbegun : writer.begun published = e.begun) (hstarted : writer.Started published.length)
    (hmade : writer.made published.length = Function.update e.made place (e.made place + 1))
    (hpromise : SlotPromise e.begun place (e.made place + 1) value
      (Function.update e.made place (e.made place + 1))) :
    Consistent { e.write orders place value with writer, published } := by
  set grown := Function.update e.made place (e.made place + 1) with hgrown
  have hle : e.made ≤ grown := le_update_iff.mpr ⟨Nat.le_succ _, fun _ _ => le_rfl⟩
  have hstored : ((e.memory place).store place (orders.store place) (e.views none) value).2 =
      grown := by
    rw [h.views_none, Atomic.store_view value (h.last place).ge, h.last]
  have hwithin (other : SlotPlace (kWordCount T)) :
      (e.memory other).Keeps fun _ _ view => view ≤ grown :=
    (h.within other).imp fun _ _ _ _ hview => hview.trans hle
  constructor
  case last =>
    intro other
    change (Function.update e.memory place _ other).last = writer.made published.length other
    rw [hmade]
    by_cases hne : other = place
    · subst hne
      rw [Function.update_self, Atomic.last_store, h.last, hgrown, Function.update_self]
    · rw [Function.update_of_ne hne, h.last, hgrown, Function.update_of_ne hne]
  case started => exact hstarted
  case keeps =>
    intro other
    change (Function.update e.memory place _ other).Keeps
      (SlotPromise (writer.begun published) other)
    rw [hbegun]
    by_cases hne : other = place
    · subst hne
      rw [Function.update_self]
      refine (h.keeps other).store (horders.store other) ?_
      rw [hstored, h.last]
      exact hpromise
    · rw [Function.update_of_ne hne]
      exact h.keeps other
  case within =>
    intro other
    change (Function.update e.memory place _ other).Keeps
      fun _ _ view => view ≤ writer.made published.length
    rw [hmade]
    by_cases hne : other = place
    · subst hne
      rw [Function.update_self]
      exact (hwithin other).store (horders.store other) hstored.le
    · rw [Function.update_of_ne hne]
      exact hwithin other
  case views =>
    intro thread
    change Function.update e.views none _ thread ≤ writer.made published.length
    rw [hmade]
    cases thread with
    | none =>
      rw [Function.update_self]
      exact hstored.le
    | some id =>
      rw [Function.update_of_ne (Option.some_ne_none id)]
      exact (h.views _).trans hle
  case writer =>
    change writer.made published.length ≤ Function.update e.views none _ none
    rw [hmade, Function.update_self]
    exact hstored.ge
  case readers =>
    intro id
    have hreader := h.readers id
    rw [← hbegun] at hreader
    exact hreader

omit [DecidableEq ι] in
/-- A store that is called. -/
theorem Consistent.called (h : e.Consistent) (hidle : e.writer = .idle) (value : T) :
    Consistent { e with writer := .loaded value (UInt64.ofNat (2 * e.published.length)) } := by
  have hmade : e.made = madeBetween e.published.length := by
    rw [made, hidle]
    rfl
  have hbegun : e.begun = e.published := by
    rw [begun, hidle]
    rfl
  have hlength (i : Fin (kWordCount T)) : e.made (.word i) ≤ e.published.length :=
    (made_word_le i).trans_eq (congrArg List.length hbegun)
  constructor
  case last => exact fun place => (h.last place).trans (congrFun hmade place)
  case started => rfl
  case keeps =>
    intro place
    refine (h.keeps place).imp fun number hnumber stored view hpromise => ?_
    rw [hbegun] at hpromise
    refine slotPromise_append [value] (fun i hi => ?_) hpromise
    subst hi
    exact (hnumber.trans_eq (h.last _)).trans (hlength i)
  case within => exact fun place => (h.within place).imp fun _ _ _ _ hle => hle.trans_eq hmade
  case views => exact fun thread => (h.views thread).trans_eq hmade
  case writer => exact hmade.ge.trans h.writer
  case readers =>
    intro id
    have hreader := h.readers id
    rw [hbegun] at hreader
    exact hreader.append [value]

theorem Consistent.writerStep (h : e.Consistent) (horders : orders.Synchronize) (value : T)
    (choice : ℕ) : (e.writerStep orders value choice).1.Consistent := by
  have hstarted := h.started
  unfold OrderedExecution.writerStep
  split
  next hidle =>
    have hknown : e.views none .sequence = (e.memory .sequence).last := by
      rw [h.views_none, h.last]
    have hview : ((e.memory .sequence).load .sequence .relaxed (e.views none) choice).2 =
        e.views none :=
      le_antisymm ((Atomic.load_le (h.views none) (h.last _).le (h.within _) hknown.le choice).trans
        h.writer) (Atomic.le_load choice)
    have hstart : ((e.memory .sequence).load .sequence .relaxed (e.views none) choice).1 =
        UInt64.ofNat (2 * e.published.length) := by
      rw [Atomic.load_of_known hknown, (h.keeps .sequence _ le_rfl).1, h.last, made, hidle]
      rfl
    simp only [hview, hstart, Function.update_eq_self]
    exact h.called hidle value
  next stored start hloaded =>
    rw [hloaded] at hstarted
    have hmade : e.made = madeBetween e.published.length := by
      rw [made, hloaded]
      rfl
    refine h.write horders ?_ hstarted ?_ ?_
    · rw [begun, hloaded]
      rfl
    · rw [hmade]
      exact madeWithin_zero _
    · rw [hmade]
      refine ⟨?_, fun i => ?_⟩
      · rw [hstarted]
        exact (UInt64.ofNat_add _ 1).symm
      · simp only [madeBetween, ne_eq, reduceCtorEq, not_false_eq_true, Function.update_of_ne]
        omega
  next stored start index hwriting =>
    rw [hwriting] at hstarted
    have hmade : e.made = madeWithin e.published.length index := by
      rw [made, hwriting]
      rfl
    have hbegun : e.begun = e.published ++ [stored] := by
      rw [begun, hwriting]
      rfl
    split_ifs with hindex
    · refine h.write horders hbegun.symm hstarted ?_ ?_
      · rw [hmade]
        exact madeWithin_succ _ hindex
      · rw [hmade, hbegun]
        have hcount : madeWithin (T := T) e.published.length index (.word ⟨index, hindex⟩) =
            e.published.length := by
          simp [madeWithin]
        rw [hcount]
        refine ⟨?_, ?_⟩
        · rw [List.take_of_length_le (by simp)]
          simp [latestWords]
        · simp only [madeWithin, ne_eq, reduceCtorEq, not_false_eq_true, Function.update_of_ne]
          omega
    · refine h.write horders hbegun.symm trivial ?_ ?_
      · rw [hmade, List.length_append]
        exact madeBetween_succ _ hindex
      · rw [hmade]
        refine ⟨?_, fun i => ?_⟩
        · rw [hstarted]
          exact (UInt64.ofNat_add _ 2).symm
        · have hi : (i : ℕ) < index := i.isLt.trans_le (not_lt.mp hindex)
          simp only [madeWithin, ne_eq, reduceCtorEq, not_false_eq_true, Function.update_of_ne,
            if_pos hi]
          omega

omit [DecidableEq ι] in
/-- A load by a reader reads a write it may read, and leaves it with what that write promises. -/
theorem Consistent.load (h : e.Consistent) (horders : orders.Synchronize) (id : ι)
    (place : SlotPlace (kWordCount T)) (choice : ℕ) :
    let loaded := (e.memory place).load place (orders.load place) (e.views (some id)) choice
    (∃ number, e.views (some id) place ≤ number ∧ number ≤ e.made place ∧
      number ≤ loaded.2 place ∧ SlotPromise e.begun place number loaded.1 loaded.2) ∧
    e.views (some id) ≤ loaded.2 ∧ loaded.2 ≤ e.made := by
  have hknown : e.views (some id) place ≤ (e.memory place).last :=
    (h.views _ _).trans_eq (h.last place).symm
  obtain ⟨number, hfrom, hlast, hread, hpromise⟩ :=
    (h.keeps place).load hknown (slotPromise_mono place) (horders.load place) choice
  exact ⟨⟨number, hfrom, hlast.trans_eq (h.last place), hread, hpromise⟩,
    Atomic.le_load choice,
    Atomic.load_le (h.views _) (h.last _).le (h.within _) hknown choice⟩

omit [DecidableEq ι] in
theorem Consistent.copied (h : e.Consistent) (horders : orders.Synchronize) (id : ι)
    {place : SlotPlace (kWordCount T)} (hplace : (e.readers id).pc.place = some place) (out : T)
    (maxAttempts choice : ℕ) :
    let loaded := (e.memory place).load place (orders.load place) (e.views (some id)) choice
    ((e.readers id).step (.showing loaded.1) out maxAttempts).1.pc.Copied e.begun loaded.2 := by
  intro loaded
  obtain ⟨⟨number, hfrom, hmade, hread, hpromise⟩, hgrown, hwithin⟩ :=
    h.load horders id place choice
  have hreader := h.readers id
  have hout := (e.readers id).step_outcome (.showing loaded.1) out maxAttempts
  generalize (e.readers id).step (.showing loaded.1) out maxAttempts = result at hout
  cases hout with
  | call hidle => exact nextAttempt_copied _ _ _ _
  | collide hsampling hbusy => exact nextAttempt_copied _ _ _ _
  | sample hsampling hquiet =>
    rw [hsampling] at hplace
    obtain rfl : SlotPlace.sequence = place := Option.some.inj hplace
    refine ⟨number, ?_, hpromise.1, hread, hpromise.2, fun i hi => absurd hi (Nat.not_lt_zero _)⟩
    rw [writeInProgress_iff] at hquiet
    have hvalue : (SeqlockSlot.showing (T := T) loaded.1).sequence = UInt64.ofNat number :=
      hpromise.1
    rw [hvalue, UInt64.toNat_ofNat'] at hquiet
    omega
  | @copy most attempt before staging index hcopying hindex =>
    rw [hcopying, ReaderPc.place, dif_pos hindex] at hplace
    obtain rfl : SlotPlace.word ⟨index, hindex⟩ = place := Option.some.inj hplace
    rw [hcopying] at hreader
    obtain ⟨sampled, heven, hbefore, hknown, hwords, hcopied⟩ := hreader
    refine ⟨sampled, heven, hbefore, hknown.trans (hgrown _),
      fun i => (hwords i).trans (hgrown _), fun i hi => ?_⟩
    by_cases hlast : i = ⟨index, hindex⟩
    · subst hlast
      refine ⟨number, (hwords _).trans hfrom, hmade.trans (made_word_le _), ?_, hpromise.2⟩
      rw [Function.update_self]
      exact hpromise.1
    · have hearlier : (i : ℕ) < index :=
        lt_of_le_of_ne (Nat.lt_succ_iff.mp hi) fun heq => hlast (Fin.ext heq)
      obtain ⟨version, hversion, hbegun, hstaging, hcounter⟩ := hcopied i hearlier
      refine ⟨version, hversion, hbegun, ?_, hcounter.trans (Nat.succ_le_succ (hgrown _))⟩
      rw [Function.update_of_ne hlast]
      exact hstaging
  | accept hcopying hdone => trivial
  | retry hcopying hdone hmoved => exact nextAttempt_copied _ _ _ _

/-- A reader that goes on keeps everything if it keeps what it has copied. -/
theorem Consistent.reader (h : e.Consistent) {id : ι} {reader : Reader T}
    {view : View (SlotPlace (kWordCount T))} (hview : view ≤ e.made)
    (hreader : reader.pc.Copied e.begun view) :
    Consistent { e with
      readers := Function.update e.readers id reader
      views := Function.update e.views (some id) view } := by
  constructor
  case last => exact h.last
  case started => exact h.started
  case keeps => exact h.keeps
  case within => exact h.within
  case views =>
    intro thread
    change Function.update e.views (some id) view thread ≤ e.made
    by_cases hthread : thread = some id
    · subst hthread
      rw [Function.update_self]
      exact hview
    · rw [Function.update_of_ne hthread]
      exact h.views thread
  case writer =>
    change e.made ≤ Function.update e.views (some id) view none
    rw [Function.update_of_ne (Option.some_ne_none id).symm]
    exact h.writer
  case readers =>
    intro other
    change (Function.update e.readers id reader other).pc.Copied e.begun
      (Function.update e.views (some id) view (some other))
    by_cases hother : other = id
    · subst hother
      rw [Function.update_self, Function.update_self]
      exact hreader
    · rw [Function.update_of_ne hother,
        Function.update_of_ne fun heq => hother (Option.some.inj heq)]
      exact h.readers other

theorem Consistent.readerStep (h : e.Consistent) (horders : orders.Synchronize) (id : ι)
    (out : T) (maxAttempts choice : ℕ) :
    (e.readerStep orders id out maxAttempts choice).1.Consistent := by
  unfold OrderedExecution.readerStep
  split
  next hplace =>
    have hidle : (e.readers id).pc = .idle := by
      cases hpc : (e.readers id).pc with
      | idle => rfl
      | sampling => simp [hpc, ReaderPc.place] at hplace
      | copying =>
        rw [hpc, ReaderPc.place] at hplace
        split_ifs at hplace
    have hcalled : Consistent { e with
        readers := Function.update e.readers id (Reader.nextAttempt out maxAttempts 0).1
        views := Function.update e.views (some id) (e.views (some id)) } :=
      h.reader (h.views (some id)) (nextAttempt_copied _ _ _ _)
    rw [Function.update_eq_self] at hcalled
    simpa only [Reader.step, hidle] using hcalled
  next place hplace =>
    exact h.reader (h.load horders id place choice).2.2
      (h.copied horders id hplace out maxAttempts choice)

theorem Consistent.synchronize (h : e.Consistent) (source target : Option ι) :
    Consistent { e with
      views := Function.update e.views target (e.views target ⊔ e.views source) } := by
  have hwider (thread : Option ι) : e.views thread ≤
      Function.update e.views target (e.views target ⊔ e.views source) thread :=
    le_update_views le_sup_left thread
  constructor
  case last => exact h.last
  case started => exact h.started
  case keeps => exact h.keeps
  case within => exact h.within
  case views =>
    intro thread
    change Function.update e.views target (e.views target ⊔ e.views source) thread ≤ e.made
    by_cases hthread : thread = target
    · subst hthread
      rw [Function.update_self]
      exact sup_le (h.views _) (h.views _)
    · rw [Function.update_of_ne hthread]
      exact h.views thread
  case writer => exact h.writer.trans (hwider none)
  case readers => exact fun id => (h.readers id).mono (hwider (some id))

theorem Consistent.step (h : e.Consistent) (horders : orders.Synchronize)
    (turn : OrderedTurn ι T) : (e.step orders turn).1.Consistent := by
  cases turn with
  | writer value choice => exact h.writerStep horders value choice
  | reader id out maxAttempts choice => exact h.readerStep horders id out maxAttempts choice
  | synchronize source target => exact h.synchronize source target

theorem executionAt_consistent (horders : orders.Synchronize) (outs : ι → T)
    (schedule : ℕ → OrderedTurn ι T) (n : ℕ) :
    ((initial outs).executionAt orders schedule n).Consistent :=
  stateAt_invariant (fun _ (e : OrderedExecution ι T) => e.Consistent) (initial_consistent outs)
    (fun n ih => ih.step horders (schedule n)) n

theorem known_mono (schedule : ℕ → OrderedTurn ι T) (thread : Option ι) :
    Monotone fun n => (e.executionAt orders schedule n).known thread :=
  monotone_nat_of_le_succ fun _ => Nat.div_le_div_right (le_step_views _ thread _)

theorem known_le_synchronize (source target : Option ι) :
    e.known source ≤ (e.step orders (.synchronize source target)).1.known target := by
  refine Nat.div_le_div_right ?_
  change _ ≤ Function.update e.views target (e.views target ⊔ e.views source) target .sequence
  rw [Function.update_self]
  exact le_sup_right

omit [DecidableEq ι] in
theorem Consistent.known_none (h : e.Consistent) : e.known none = e.published.length := by
  rw [known, h.views_none, made]
  cases e.writer with
  | idle | loaded => simp [WriterPc.made, madeBetween]
  | writing =>
    simp only [WriterPc.made, madeWithin]
    omega

omit [DecidableEq ι] in
theorem begun_take {version : ℕ} (h : version ≤ e.published.length) :
    e.begun.take version = e.published.take version := by
  unfold begun
  cases e.writer with
  | idle => rfl
  | loaded | writing => exact List.take_append_of_le_length h

omit [DecidableEq ι] in
/-- A reader that has copied all words and reads the counter it has sampled holds the words of one
store. -/
theorem Consistent.whole (h : e.Consistent) (hcount : e.begun.length < 2 ^ 63)
    {pc : ReaderPc T} {view : View (SlotPlace (kWordCount T))} (hcopied : pc.Copied e.begun view)
    {most attempt index number : ℕ} {staging : Fin (kWordCount T) → UInt64}
    (hpc : pc = .copying most attempt (UInt64.ofNat number) staging index)
    (hdone : ¬ index < kWordCount T) (hfrom : view .sequence ≤ number)
    (hmade : number ≤ e.made .sequence) :
    number / 2 ≤ e.published.length ∧
      ofWords staging = latest (e.published.take (number / 2)) := by
  subst hpc
  obtain ⟨sampled, heven, hbefore, hknown, -, hwords⟩ := hcopied
  have hbound : number < 2 ^ 64 := by
    have := hmade.trans made_sequence_le
    omega
  obtain rfl : number = sampled := by
    have hequal := congrArg UInt64.toNat hbefore
    rwa [UInt64.toNat_ofNat', UInt64.toNat_ofNat', Nat.mod_eq_of_lt hbound,
      Nat.mod_eq_of_lt (by omega)] at hequal
  have hversion : number / 2 ≤ e.published.length := by
    have hnone := h.known_none
    rw [known, h.views_none] at hnone
    omega
  refine ⟨hversion, ?_⟩
  rw [← begun_take hversion, ← ofWords_latestWords]
  refine congrArg ofWords (funext fun i => ?_)
  obtain ⟨version, hle, -, hstaging, hcounter⟩ := hwords i (i.isLt.trans_le (not_lt.mp hdone))
  obtain rfl : version = number / 2 := by omega
  exact hstaging

/-- A load that succeeds returns one store as a whole, and none older than the reader knows. -/
theorem Consistent.accepted (h : e.Consistent) (horders : orders.Synchronize)
    (hcount : e.begun.length < 2 ^ 63) {id : ι} {out : T} {maxAttempts choice : ℕ}
    (hevent : (e.readerStep orders id out maxAttempts choice).2 = .loaded true) :
    ∃ version ≤ e.published.length,
      ((e.readerStep orders id out maxAttempts choice).1.readers id).out =
        latest (e.published.take version) ∧
      e.known (some id) ≤ version ∧
      version ≤ (e.readerStep orders id out maxAttempts choice).1.known (some id) := by
  cases hplace : (e.readers id).pc.place with
  | none =>
    rw [OrderedExecution.readerStep, hplace] at hevent
    obtain ⟨most, attempt, staging, index, hcopying, hdone, -⟩ := Reader.step_loaded hevent
    rw [hcopying, ReaderPc.place, dif_neg hdone] at hplace
    exact absurd hplace (Option.some_ne_none _)
  | some place =>
    rw [OrderedExecution.readerStep, hplace] at hevent ⊢
    obtain ⟨most, attempt, staging, index, hcopying, hdone, hresult⟩ := Reader.step_loaded hevent
    have hsequence : place = .sequence := by
      rw [hcopying, ReaderPc.place, dif_neg hdone] at hplace
      exact (Option.some.inj hplace).symm
    subst hsequence
    obtain ⟨⟨number, hfrom, hmade, hread, hvalue, -⟩, -, -⟩ :=
      h.load horders id .sequence choice
    have hcopied : (e.readers id).pc = .copying most attempt (UInt64.ofNat number) staging index :=
      hvalue ▸ hcopying
    obtain ⟨hversion, hwhole⟩ := h.whole hcount (h.readers id) hcopied hdone hfrom hmade
    refine ⟨number / 2, hversion, ?_, Nat.div_le_div_right hfrom, ?_⟩
    · simp only [Function.update_self, hresult]
      exact hwhole
    · simp only [known, Function.update_self]
      exact Nat.div_le_div_right hread

/-- However the accesses of one writer and any number of readers interleave, whichever permitted
write each load returns and however the threads synchronize besides: if the stores release and the
loads acquire, a load that succeeds returns one complete store as a whole. It is not older than
any the reader, or a thread that has synchronized with it, knew of, and the reader knows it from
then on. The writer knows its complete stores. -/
theorem loads_whole_under_orders (orders : SlotOrders) (horders : orders.Synchronize)
    (outs : ι → T) (schedule : ℕ → OrderedTurn ι T) (id : ι) (k : ℕ)
    (hcount : ((initial outs).executionAt orders schedule k).begun.length < 2 ^ 63)
    (hreturns : (initial outs).Returns orders schedule id k true) :
    (∃ version ≤ ((initial outs).executionAt orders schedule k).published.length,
      (((initial outs).executionAt orders schedule (k + 1)).readers id).out =
        latest (((initial outs).executionAt orders schedule k).published.take version) ∧
      version ≤ ((initial outs).executionAt orders schedule (k + 1)).known (some id) ∧
      (∀ j ≤ k, ((initial outs).executionAt orders schedule j).known (some id) ≤ version) ∧
      ∀ j < k, ∀ source, schedule j = .synchronize source (some id) →
        ((initial outs).executionAt orders schedule j).known source ≤ version) ∧
    ∀ j, ((initial outs).executionAt orders schedule j).known none =
      ((initial outs).executionAt orders schedule j).published.length := by
  refine ⟨?_, fun j => (executionAt_consistent horders outs schedule j).known_none⟩
  obtain ⟨⟨out, maxAttempts, choice, hturn⟩, hevent⟩ := hreturns
  rw [eventAt, hturn] at hevent
  obtain ⟨version, hversion, hout, hknown, hlearnt⟩ :=
    (executionAt_consistent horders outs schedule k).accepted horders hcount hevent
  have hnext : (initial outs).executionAt orders schedule (k + 1) =
      (((initial outs).executionAt orders schedule k).readerStep orders id out maxAttempts
        choice).1 := by
    rw [executionAt, stateAt_succ, hturn]
    rfl
  have hmono : Monotone fun n => ((initial outs).executionAt orders schedule n).known (some id) :=
    known_mono schedule (some id)
  refine ⟨version, hversion, ?_, ?_, fun j hj => (hmono hj).trans hknown,
    fun j hj source hsource => ?_⟩
  · rw [hnext, hout]
  · rw [hnext]
    exact hlearnt
  · refine le_trans ?_ ((hmono (Nat.succ_le_of_lt hj)).trans hknown)
    change _ ≤ (((initial outs).executionAt orders schedule j).step orders (schedule j)).1.known
      (some id)
    rw [hsource]
    exact known_le_synchronize source (some id)

/-- A reader that has synchronized with the writer after a store, and whose loads would rather
return the initial values. -/
def hesitantReader : ℕ → OrderedTurn Unit (Fin 2 → UInt64)
  | 0 | 1 | 2 | 3 | 4 => .writer (fun _ => 7) 0
  | 5 => .synchronize none (some ())
  | _ => .reader () (fun _ => 0) 1 0

/-- The orderings of the source. -/
theorem loads_whole_under_orders_hesitant :
    (((initial fun _ => (fun _ => 0 : Fin 2 → UInt64)).executionAt {} hesitantReader
      11).readers ()).out = fun _ => 7 := by
  have hpublished : ((initial fun _ : Unit => (fun _ => 0 : Fin 2 → UInt64)).executionAt {}
      hesitantReader 10).published = [fun _ => 7] := rfl
  have hknown : 1 ≤ ((initial fun _ : Unit => (fun _ => 0 : Fin 2 → UInt64)).executionAt {}
      hesitantReader 5).known none := by decide
  obtain ⟨⟨version, hversion, hout, -, -, hsynchronized⟩, -⟩ :=
    loads_whole_under_orders {} ⟨rfl, rfl, rfl, rfl⟩ (fun _ : Unit => (fun _ => 0))
      hesitantReader () 10 (by decide) ⟨⟨fun _ => 0, 1, 0, rfl⟩, by decide⟩
  rw [hpublished] at hversion hout
  obtain rfl : version = 1 :=
    le_antisymm hversion (hknown.trans (hsynchronized 5 (by decide) none rfl))
  exact hout

/-- A reader that comes while the first word is written, and loads it between two old counters. -/
def earlyReader : ℕ → OrderedTurn Unit (Fin 2 → UInt64)
  | 0 | 1 | 2 => .writer (fun _ => 7) 0
  | 5 => .reader () (fun _ => 0) 1 1
  | _ => .reader () (fun _ => 0) 1 0

/-- With words that are stored relaxed it returns half a store, with the orderings of the source it
fails. -/
example :
    (((initial fun _ => (fun _ => 0 : Fin 2 → UInt64)).executionAt { wordStore := .relaxed }
      earlyReader 8).readers ()).out = ![7, 0] ∧
    (initial fun _ => (fun _ => 0 : Fin 2 → UInt64)).eventAt {} earlyReader 7 = .loaded false := by
  decide

end OrderedExecution
end SafeEdge.Ipc
