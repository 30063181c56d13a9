import SafeEdge.Ipc.SharedMemory

/-! Creating and opening regions: what each call can do to the system, and that a creation that
fails leaves nothing behind. -/
namespace SafeEdge.Ipc

namespace System
variable (system : System) (name : List Char)

/-- With a new object of the given size, open under a descriptor. -/
def withObject (size descriptor : ℕ) : System :=
  { system with
    names := Function.update system.names name (some size)
    descriptors := Function.update system.descriptors descriptor (some name) }

/-- The exclusive open fails and changes nothing, or it makes the name, which was free. -/
theorem shmOpenExclusive_cases (outcome : Except Errno ℕ) :
    (∃ errno, system.shmOpenExclusive name outcome = (system, .error errno)) ∨
    ∃ descriptor, system.names name = none ∧ system.descriptors descriptor = none ∧
      system.shmOpenExclusive name outcome =
        (system.withObject name 0 descriptor, .ok descriptor) := by
  cases outcome with
  | error errno => exact Or.inl ⟨errno, rfl⟩
  | ok descriptor =>
    simp only [shmOpenExclusive]
    split_ifs with hname hdescriptor
    · exact Or.inl ⟨_, rfl⟩
    · exact Or.inl ⟨_, rfl⟩
    · exact Or.inr ⟨descriptor, by simpa using hname, by simpa using hdescriptor, rfl⟩

/-- The new object gets its size, or it stays as it is. -/
theorem ftruncate_cases (size descriptor : ℕ) (length : Int64) (outcome : Option Errno) :
    (∃ errno, (system.withObject name size descriptor).ftruncate descriptor length outcome =
      (system.withObject name size descriptor, some errno)) ∨
    ¬ length < 0 ∧ (system.withObject name size descriptor).ftruncate descriptor length outcome =
      (system.withObject name length.toInt.toNat descriptor, none) := by
  have hopen : (system.withObject name size descriptor).descriptors descriptor = some name :=
    Function.update_self ..
  cases outcome with
  | some errno =>
    simp only [ftruncate, hopen]
    exact Or.inl ⟨errno, rfl⟩
  | none =>
    simp only [ftruncate, hopen]
    split_ifs with hnegative
    · exact Or.inl ⟨_, rfl⟩
    · refine Or.inr ⟨hnegative, ?_⟩
      simp only [withObject, Function.update_idem]

theorem shmOpen_cases (outcome : Except Errno ℕ) :
    (∃ errno, system.shmOpen name outcome = (system, .error errno)) ∨
    ∃ descriptor, system.descriptors descriptor = none ∧
      system.shmOpen name outcome =
        ({ system with
            descriptors := Function.update system.descriptors descriptor (some name) },
          .ok descriptor) := by
  cases outcome with
  | error errno => exact Or.inl ⟨errno, rfl⟩
  | ok descriptor =>
    simp only [shmOpen]
    split_ifs with hname hdescriptor
    · exact Or.inl ⟨_, rfl⟩
    · exact Or.inl ⟨_, rfl⟩
    · exact Or.inr ⟨descriptor, by simpa using hdescriptor, rfl⟩

variable {system name} {descriptor : ℕ}

/-- Closing a descriptor that was free before undoes its opening. -/
theorem descriptors_restored (hfree : system.descriptors descriptor = none) (text : List Char) :
    Function.update (Function.update system.descriptors descriptor (some text)) descriptor none =
      system.descriptors := by
  rw [Function.update_idem, ← hfree, Function.update_eq_self]

/-- A successful `fstat` tells the size of the object behind the descriptor. -/
theorem fstat_ok {outcome : Option Errno} {size : ℕ}
    (hopen : system.descriptors descriptor = some name)
    (h : system.fstat descriptor outcome = .ok size) : system.names name = some size := by
  cases hfound : system.names name with
  | none =>
    simp only [fstat, hopen, Option.bind_some, hfound] at h
    exact nomatch h
  | some found =>
    cases outcome with
    | some errno =>
      simp only [fstat, hopen, Option.bind_some, hfound] at h
      exact nomatch h
    | none =>
      simp only [fstat, hopen, Option.bind_some, hfound] at h
      split_ifs at h
      exact congrArg some (Except.ok.inj h)

end System

/-- The mapping fails and changes nothing, or it is placed where none is. -/
theorem mapDescriptor_cases (system : System) (descriptor : ℕ) (bytes : UInt64)
    (outcome : Except Errno ℕ) :
    (∃ errno, mapDescriptor system descriptor bytes outcome =
      (system, 0, ⟨some .mmap, some errno⟩)) ∨
    ∃ address, address ≠ 0 ∧ system.liveAt address = none ∧
      mapDescriptor system descriptor bytes outcome =
        ({ system with
            mappings := Function.update system.mappings address
              ({ length := bytes } :: system.mappings address) }, address, {}) := by
  unfold mapDescriptor System.mmap
  cases outcome with
  | error errno => exact Or.inl ⟨errno, rfl⟩
  | ok address =>
    dsimp only
    split_ifs with hclosed hempty hplace
    · exact Or.inl ⟨_, rfl⟩
    · exact Or.inl ⟨_, rfl⟩
    · exact Or.inl ⟨_, rfl⟩
    · obtain ⟨hzero, hlive⟩ := not_or.mp hplace
      exact Or.inr ⟨address, hzero, by simpa using hlive, rfl⟩

namespace SharedMemoryRegion

theorem toInt64_toNat {bytes : UInt64} (h : ¬ bytes.toInt64 < 0) :
    bytes.toInt64.toInt.toNat = bytes.toNat := by
  have hvalue : bytes.toInt64.toInt =
      if 2 * bytes.toNat < 2 ^ 64 then (bytes.toNat : ℤ) else (bytes.toNat : ℤ) - (2 ^ 64 : ℕ) :=
    BitVec.toInt_eq_toNat_cond bytes.toBitVec
  have hlt := bytes.toNat_lt
  rw [Int64.lt_iff_toInt_lt, hvalue] at h
  rw [hvalue]
  split_ifs at h ⊢ with hsmall
  · exact Int.toNat_natCast _
  · exact absurd (show (bytes.toNat : ℤ) - (2 ^ 64 : ℕ) < 0 by omega) h

/-- A region that owns nothing and says why. -/
structure Failed (region : SharedMemoryRegion) : Prop where
  address : region.address = 0
  size : region.size = 0
  error : region.error.ok = false

theorem failedRegion_failed (operation : Operation) (errno : Errno) :
    (failedRegion operation errno).Failed :=
  ⟨rfl, rfl, rfl⟩

variable (system : System) (name : Option (List Char)) (bytes : UInt64) (outcomes : CallOutcomes)

/-- A mapping of the given length at an address where none is in place. -/
def mappedAt (address : ℕ) : System :=
  { system with
    mappings := Function.update system.mappings address
      ({ length := bytes } :: system.mappings address) }

theorem exists_of_wellFormed {name : Option (List Char)} (h : nameIsWellFormed name) :
    ∃ text, name = some text := by
  cases name with
  | none => exact nomatch h
  | some text => exact ⟨text, rfl⟩

/-- Closing the descriptor and removing the name undo the creation of an object, whatever size it
has been given. -/
theorem undo_create {text : List Char} {descriptor : ℕ} (hname : system.names text = none)
    (hdescriptor : system.descriptors descriptor = none) (size : ℕ) :
    ((system.withObject text size descriptor).close descriptor).shmUnlink text = system := by
  simp only [System.withObject, System.close, System.shmUnlink,
    System.descriptors_restored hdescriptor, Function.update_idem]
  rw [← hname, Function.update_eq_self]

/-- The new object keeps the name exactly if it is mapped. -/
theorem mapCreated_cases {text : List Char} {descriptor : ℕ} (hname : system.names text = none)
    (hdescriptor : system.descriptors descriptor = none) (size : ℕ) (outcome : Except Errno ℕ) :
    let made := mapCreated (system.withObject text size descriptor) text descriptor bytes outcome
    (made.1 = system ∧ made.2.Failed) ∨
    ∃ address, address ≠ 0 ∧ system.liveAt address = none ∧
      made = ({ mappedAt system bytes address with
          names := Function.update system.names text (some size) },
        { address, size := bytes }) := by
  intro made
  rcases mapDescriptor_cases (system.withObject text size descriptor) descriptor bytes outcome with
    ⟨errno, hmapped⟩ | ⟨address, hzero, hlive, hmapped⟩
  · refine Or.inl ?_
    simp only [made, mapCreated, hmapped]
    exact ⟨undo_create system hname hdescriptor size, rfl, rfl, rfl⟩
  · refine Or.inr ⟨address, hzero, hlive, ?_⟩
    have hregion : mappedRegion bytes address {} = { address, size := bytes } := by
      rw [mappedRegion, if_pos hzero]
    have hvalid : ({ address, size := bytes } : SharedMemoryRegion).valid = true :=
      decide_eq_true hzero
    have hclosed : Function.update (system.withObject text size descriptor).descriptors
        descriptor none = system.descriptors := System.descriptors_restored hdescriptor text
    simp only [made, mapCreated, hmapped, hregion, hvalid, if_true, System.close, hclosed]
    rfl

/-- A creation that fails leaves the system as it was, and one that succeeds adds the name, with
the requested size, and a mapping. -/
theorem create_cases :
    ((create system name bytes outcomes).1 = system ∧
      (create system name bytes outcomes).2.Failed) ∨
    ∃ text address, name = some text ∧ system.names text = none ∧
      address ≠ 0 ∧ system.liveAt address = none ∧
      create system name bytes outcomes =
        ({ mappedAt system bytes address with
            names := Function.update system.names text (some bytes.toNat) },
          { address, size := bytes }) := by
  unfold create
  split_ifs with hname hbytes
  · exact Or.inl ⟨rfl, failedRegion_failed _ _⟩
  · exact Or.inl ⟨rfl, failedRegion_failed _ _⟩
  have hformed : nameIsWellFormed name = true := by simpa using hname
  obtain ⟨text, rfl⟩ := exists_of_wellFormed hformed
  rw [Option.getD_some]
  rcases system.shmOpenExclusive_cases text outcomes.shmOpen with
    ⟨errno, hopened⟩ | ⟨descriptor, hfresh, hfree, hopened⟩
  · rw [hopened]
    exact Or.inl ⟨rfl, failedRegion_failed _ _⟩
  rw [hopened]
  dsimp only
  rcases system.ftruncate_cases text 0 descriptor bytes.toInt64 outcomes.ftruncate with
    ⟨errno, htruncated⟩ | ⟨hlength, htruncated⟩
  · rw [htruncated]
    exact Or.inl ⟨undo_create system hfresh hfree 0, failedRegion_failed _ _⟩
  rw [htruncated]
  dsimp only
  rw [toInt64_toNat hlength]
  rcases mapCreated_cases system bytes hfresh hfree bytes.toNat outcomes.mmap with
    hfailed | ⟨address, hzero, hlive, hmapped⟩
  · exact Or.inl hfailed
  · exact Or.inr ⟨text, address, rfl, hfresh, hzero, hlive, hmapped⟩

/-- Opening keeps the names and the descriptors, and it succeeds only on an object that is large
enough. -/
theorem openExisting_cases :
    ((openExisting system name bytes outcomes).1 = system ∧
      (openExisting system name bytes outcomes).2.Failed) ∨
    ∃ text size address, name = some text ∧ nameIsWellFormed name ∧
      system.names text = some size ∧ bytes.toNat ≤ size ∧
      address ≠ 0 ∧ system.liveAt address = none ∧
      openExisting system name bytes outcomes =
        (mappedAt system bytes address, { address, size := bytes }) := by
  unfold openExisting
  split_ifs with hname
  · exact Or.inl ⟨rfl, failedRegion_failed _ _⟩
  have hformed : nameIsWellFormed name = true := by simpa using hname
  obtain ⟨text, rfl⟩ := exists_of_wellFormed hformed
  rw [Option.getD_some]
  rcases system.shmOpen_cases text outcomes.shmOpen with
    ⟨errno, hopened⟩ | ⟨descriptor, hfree, hopened⟩
  · rw [hopened]
    exact Or.inl ⟨rfl, failedRegion_failed _ _⟩
  rw [hopened]
  dsimp only
  have hclosed := System.descriptors_restored hfree text
  split
  · refine Or.inl ⟨?_, failedRegion_failed _ _⟩
    simp only [System.close, hclosed]
  · rename_i size hsize
    have hfound := System.fstat_ok (Function.update_self ..) hsize
    split_ifs with hsmall
    · refine Or.inl ⟨?_, failedRegion_failed _ _⟩
      simp only [System.close, hclosed]
    · rcases mapDescriptor_cases _ descriptor bytes outcomes.mmap with
        ⟨errno, hmapped⟩ | ⟨address, hzero, hlive, hmapped⟩
      · refine Or.inl ?_
        rw [mapOpened, hmapped]
        refine ⟨?_, rfl, rfl, rfl⟩
        simp only [System.close, hclosed]
      · refine Or.inr ⟨text, size, address, rfl, hformed, hfound, not_lt.mp hsmall, hzero, hlive,
          ?_⟩
        simp only [mapOpened, hmapped, mappedRegion, if_pos hzero, System.close, hclosed]
        rfl

/-- A creation gives a valid region of the requested size and makes its name, or gives an invalid
one with an error and leaves names, descriptors and mappings as they were. Opening leaves names
and descriptors as they were, and succeeds on a well-formed name of a large enough object only. -/
theorem creation_all_or_nothing (system : System) (name : Option (List Char)) (bytes : UInt64)
    (outcomes : CallOutcomes) :
    let created := create system name bytes outcomes
    let opened := openExisting system name bytes outcomes
    ((created.2.valid = true ∧ created.2.size = bytes ∧ created.2.error.ok = true ∧
        created.1.descriptors = system.descriptors ∧
        created.1.liveAt created.2.address = some bytes ∧
        ∃ text, name = some text ∧ system.names text = none ∧
          created.1.names = Function.update system.names text (some bytes.toNat)) ∨
      (created.2.valid = false ∧ created.2.error.ok = false ∧ created.1 = system)) ∧
    (∀ other size, system.names other = some size → created.1.names other = some size) ∧
    opened.1.names = system.names ∧ opened.1.descriptors = system.descriptors ∧
    (opened.2.valid = true → nameIsWellFormed name = true ∧
      ∃ text size, name = some text ∧ system.names text = some size ∧ bytes.toNat ≤ size) := by
  intro created opened
  rw [← and_assoc]
  constructor
  · rcases create_cases system name bytes outcomes with
      ⟨hsame, hfailed⟩ | ⟨text, address, rfl, hfresh, hzero, hlive, hcreated⟩
    · refine ⟨Or.inr ⟨?_, hfailed.error, hsame⟩, fun other size hother => ?_⟩
      · exact decide_eq_false (not_not.mpr hfailed.address)
      · rw [show created.1 = system from hsame, hother]
    · rw [show created = _ from hcreated]
      refine ⟨Or.inl ⟨decide_eq_true hzero, rfl, rfl, rfl, ?_, text, rfl, hfresh, rfl⟩,
        fun other size hother => ?_⟩
      · simp [System.liveAt, mappedAt]
      · have hne : other ≠ text := by
          rintro rfl
          rw [hfresh] at hother
          exact nomatch hother
        exact (Function.update_of_ne hne ..).trans hother
  · rcases openExisting_cases system name bytes outcomes with
      ⟨hsame, hfailed⟩ | ⟨text, size, address, rfl, hformed, hfound, hle, _, _, hopened⟩
    · rw [show opened.1 = system from hsame]
      refine ⟨rfl, rfl, fun hvalid => absurd hfailed.address ?_⟩
      exact of_decide_eq_true hvalid
    · rw [show opened = _ from hopened]
      exact ⟨rfl, rfl, fun _ => ⟨hformed, text, size, rfl, hfound, hle⟩⟩

/-- A system in which `/a` exists with 64 bytes. -/
def occupied : System where
  names := Function.update (fun _ => none) "/a".toList (some 64)
  descriptors := fun _ => none

theorem creation_all_or_nothing_occupied :
    (create occupied (some "/b".toList) 32 ⟨.ok 3, none, none, .ok 4096⟩).1.names "/a".toList =
      some 64 ∧
    (openExisting occupied (some "/a".toList) 32 ⟨.ok 3, none, none, .ok 4096⟩).2.valid = true ∧
    nameIsWellFormed (some "/a".toList) = true ∧
    ∃ text size, some "/a".toList = some text ∧ occupied.names text = some size ∧
      (32 : UInt64).toNat ≤ size := by
  have hcreated := creation_all_or_nothing occupied (some "/b".toList) 32
    ⟨.ok 3, none, none, .ok 4096⟩
  have hopened := creation_all_or_nothing occupied (some "/a".toList) 32
    ⟨.ok 3, none, none, .ok 4096⟩
  exact ⟨hcreated.2.1 "/a".toList 64 (by decide), by decide, hopened.2.2.2.2 (by decide)⟩

end SharedMemoryRegion
end SafeEdge.Ipc
