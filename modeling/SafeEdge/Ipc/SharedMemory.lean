import Mathlib.Tactic

/-! The system calls behind shared-memory regions, and the regions. A call fails when the
environment says so or when POSIX does not let it succeed; addresses and descriptors are the
environment's choice. -/
namespace SafeEdge.Ipc

/-- The error numbers the model returns itself. -/
inductive Errno where
  | eexist
  | enoent
  | einval
  | emfile
  | ebadf
  | enomem
  | eoverflow
  | other (number : Int32)
  deriving DecidableEq

/-- A mapping by its length, with the lengths given to `munmap` at its address until the address
is mapped again. -/
structure Mapping where
  length : UInt64
  unmaps : List UInt64 := []
  deriving DecidableEq

/-- The shared-memory objects by name with their sizes, the objects behind the open descriptors,
the mappings ever made at an address, the latest first, and the calls of `munmap` at an address
that was never mapped. -/
structure System where
  names : List Char → Option ℕ
  descriptors : ℕ → Option (List Char)
  mappings : ℕ → List Mapping := fun _ => []
  strayUnmaps : List (ℕ × UInt64) := []

namespace System
variable (system : System)

/-- The length of the mapping that is in place at an address. -/
def liveAt (address : ℕ) : Option UInt64 :=
  match system.mappings address with
  | [] => none
  | mapping :: _ => if mapping.unmaps = [] then some mapping.length else none

/-- `shm_open` with `O_CREAT | O_EXCL`. -/
def shmOpenExclusive (name : List Char) : Except Errno ℕ → System × Except Errno ℕ
  | .error errno => (system, .error errno)
  | .ok descriptor =>
    if (system.names name).isSome then (system, .error .eexist)
    else if (system.descriptors descriptor).isSome then (system, .error .emfile)
    else
      ({ system with
          names := Function.update system.names name (some 0)
          descriptors := Function.update system.descriptors descriptor (some name) },
        .ok descriptor)

/-- `shm_open` without `O_CREAT`. -/
def shmOpen (name : List Char) : Except Errno ℕ → System × Except Errno ℕ
  | .error errno => (system, .error errno)
  | .ok descriptor =>
    if (system.names name).isNone then (system, .error .enoent)
    else if (system.descriptors descriptor).isSome then (system, .error .emfile)
    else
      ({ system with descriptors := Function.update system.descriptors descriptor (some name) },
        .ok descriptor)

def ftruncate (descriptor : ℕ) (length : Int64) (outcome : Option Errno) : System × Option Errno :=
  match system.descriptors descriptor, outcome with
  | none, _ => (system, some .ebadf)
  | some _, some errno => (system, some errno)
  | some name, none =>
    if length < 0 then (system, some .einval)
    else
      ({ system with names := Function.update system.names name (some length.toInt.toNat) }, none)

/-- The size of an object, as far as an `off_t` can tell it. -/
def fstat (descriptor : ℕ) (outcome : Option Errno) : Except Errno ℕ :=
  match (system.descriptors descriptor).bind system.names, outcome with
  | none, _ => .error .ebadf
  | some _, some errno => .error errno
  | some size, none => if size < 2 ^ 63 then .ok size else .error .eoverflow

/-- A mapping is never placed at address zero or over one that is in place. -/
def mmap (descriptor : ℕ) (length : UInt64) : Except Errno ℕ → System × Except Errno ℕ
  | .error errno => (system, .error errno)
  | .ok address =>
    if (system.descriptors descriptor).isNone then (system, .error .ebadf)
    else if length = 0 then (system, .error .einval)
    else if address = 0 ∨ (system.liveAt address).isSome then (system, .error .enomem)
    else
      ({ system with
          mappings := Function.update system.mappings address
            ({ length } :: system.mappings address) },
        .ok address)

def munmap (address : ℕ) (length : UInt64) : System :=
  match system.mappings address with
  | [] => { system with strayUnmaps := (address, length) :: system.strayUnmaps }
  | mapping :: earlier =>
    { system with
      mappings := Function.update system.mappings address
        ({ mapping with unmaps := length :: mapping.unmaps } :: earlier) }

def close (descriptor : ℕ) : System :=
  { system with descriptors := Function.update system.descriptors descriptor none }

def shmUnlink (name : List Char) : System :=
  { system with names := Function.update system.names name none }

end System

/-- What an error names: a check of the arguments or the call that failed. -/
inductive Operation where
  | name
  | size
  | shmOpen
  | ftruncate
  | fstat
  | mmap
  deriving DecidableEq

structure SharedMemoryError where
  operation : Option Operation := none
  errorNumber : Option Errno := none
  deriving DecidableEq

def SharedMemoryError.ok (error : SharedMemoryError) : Bool := error.operation.isNone

/-- A region without a mapping has address zero. -/
structure SharedMemoryRegion where
  address : ℕ := 0
  size : UInt64 := 0
  error : SharedMemoryError := {}
  deriving DecidableEq

def SharedMemoryRegion.valid (region : SharedMemoryRegion) : Bool := region.address ≠ 0

/-- A leading slash, something after it, and no further slash. A null pointer is `none`. -/
def nameIsWellFormed : Option (List Char) → Bool
  | some ('/' :: c :: rest) => '/' ∉ c :: rest
  | _ => false

/-- What the environment decides about the calls of one creation or opening. -/
structure CallOutcomes where
  shmOpen : Except Errno ℕ
  ftruncate : Option Errno := none
  fstat : Option Errno := none
  mmap : Except Errno ℕ

/-- The address, zero if the call failed, and the error. -/
def mapDescriptor (system : System) (descriptor : ℕ) (bytes : UInt64) (outcome : Except Errno ℕ) :
    System × ℕ × SharedMemoryError :=
  match system.mmap descriptor bytes outcome with
  | (system, .error errno) => (system, 0, ⟨some .mmap, some errno⟩)
  | (system, .ok address) => (system, address, {})

/-- The region of what `mapDescriptor` returned. -/
def mappedRegion (bytes : UInt64) (address : ℕ) (error : SharedMemoryError) : SharedMemoryRegion :=
  { address, size := if address ≠ 0 then bytes else 0, error }

/-- A region that failed before it was mapped. -/
def failedRegion (operation : Operation) (errno : Errno) : SharedMemoryRegion :=
  { error := ⟨some operation, some errno⟩ }

namespace SharedMemoryRegion

/-- The end of `create`: the descriptor is closed in any case, and the name is removed unless the
region is valid. -/
def mapCreated (system : System) (name : List Char) (descriptor : ℕ) (bytes : UInt64)
    (outcome : Except Errno ℕ) : System × SharedMemoryRegion :=
  let mapped := mapDescriptor system descriptor bytes outcome
  let region := mappedRegion bytes mapped.2.1 mapped.2.2
  let closed := mapped.1.close descriptor
  (if region.valid then closed else closed.shmUnlink name, region)

def create (system : System) (name : Option (List Char)) (bytes : UInt64)
    (outcomes : CallOutcomes) : System × SharedMemoryRegion :=
  if !nameIsWellFormed name then (system, failedRegion .name .einval)
  else if bytes = 0 then (system, failedRegion .size .einval)
  else
    match system.shmOpenExclusive (name.getD []) outcomes.shmOpen with
    | (system, .error errno) => (system, failedRegion .shmOpen errno)
    | (system, .ok descriptor) =>
      match system.ftruncate descriptor bytes.toInt64 outcomes.ftruncate with
      | (system, some errno) =>
        ((system.close descriptor).shmUnlink (name.getD []), failedRegion .ftruncate errno)
      | (system, none) => mapCreated system (name.getD []) descriptor bytes outcomes.mmap

/-- The end of `openExisting`. -/
def mapOpened (system : System) (descriptor : ℕ) (bytes : UInt64) (outcome : Except Errno ℕ) :
    System × SharedMemoryRegion :=
  let mapped := mapDescriptor system descriptor bytes outcome
  (mapped.1.close descriptor, mappedRegion bytes mapped.2.1 mapped.2.2)

def openExisting (system : System) (name : Option (List Char)) (bytes : UInt64)
    (outcomes : CallOutcomes) : System × SharedMemoryRegion :=
  if !nameIsWellFormed name then (system, failedRegion .name .einval)
  else
    match system.shmOpen (name.getD []) outcomes.shmOpen with
    | (system, .error errno) => (system, failedRegion .shmOpen errno)
    | (system, .ok descriptor) =>
      match system.fstat descriptor outcomes.fstat with
      | .error errno => (system.close descriptor, failedRegion .fstat errno)
      | .ok size =>
        if size < bytes.toNat then (system.close descriptor, failedRegion .size .einval)
        else mapOpened system descriptor bytes outcomes.mmap

/-- The mapping is released, and the error stays. -/
def close (system : System) (region : SharedMemoryRegion) : System × SharedMemoryRegion :=
  (if region.address ≠ 0 then system.munmap region.address region.size else system,
    { region with address := 0, size := 0 })

/-- What moving from a region leaves of it. -/
def movedFrom (region : SharedMemoryRegion) : SharedMemoryRegion :=
  { region with address := 0, size := 0 }

def unlinkName (system : System) (name : Option (List Char)) : System :=
  if nameIsWellFormed name then system.shmUnlink (name.getD []) else system

end SharedMemoryRegion
end SafeEdge.Ipc
