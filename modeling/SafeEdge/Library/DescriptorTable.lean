import SafeEdge.Library.Custody

/-! The descriptors a process has open, as its kernel sees them: calls that create, name and close
them, and a count of the calls that name one that is not open. -/
namespace Library

structure DescriptorTable where
  live : Finset ℕ := ∅
  badCalls : ℕ := 0
  deriving DecidableEq

namespace DescriptorTable
variable (table : DescriptorTable)

/-- The call names an open descriptor. -/
def Names (fd : Option ℕ) : Prop := ∃ x, fd = some x ∧ x ∈ table.live

instance (fd : Option ℕ) : Decidable (table.Names fd) :=
  match fd with
  | none => isFalse fun ⟨_, h, _⟩ => nomatch h
  | some x => decidable_of_iff (x ∈ table.live) (by simp [Names])

/-- A call creates a descriptor, if the number the kernel would give it is free. -/
def create (fd : Option ℕ) : DescriptorTable × Option ℕ :=
  match fd with
  | none => (table, none)
  | some x => if x ∈ table.live then (table, none) else
      ({ table with live := insert x table.live }, some x)

def use (fd : Option ℕ) : DescriptorTable :=
  if table.Names fd then table else { table with badCalls := table.badCalls + 1 }

def close : Option ℕ → DescriptorTable
  | none => { table with badCalls := table.badCalls + 1 }
  | some x => if x ∈ table.live then { table with live := table.live.erase x }
      else { table with badCalls := table.badCalls + 1 }

/-- What a call that creates a descriptor can do. -/
inductive Created : DescriptorTable × Option ℕ → Prop
  | failed : Created (table, none)
  | fresh {x : ℕ} (hfresh : x ∉ table.live) :
      Created ({ table with live := insert x table.live }, some x)

theorem create_created (fd : Option ℕ) : table.Created (table.create fd) := by
  unfold create
  split
  · exact .failed
  · split_ifs with hlive
    · exact .failed
    · exact .fresh hlive

end DescriptorTable

/-- No call has gone wrong, and exactly the open descriptors are held, each by one holder. -/
structure DescriptorTable.Kept {ι : Type*} (table : DescriptorTable) (held : ι → Option ℕ) :
    Prop where
  sound : table.badCalls = 0
  exclusive : Exclusive held (table.live : Set ℕ)

/-- Nothing is open and nobody holds anything. -/
theorem DescriptorTable.kept_empty {ι : Type*} {held : ι → Option ℕ} (h : ∀ i, held i = none) :
    DescriptorTable.Kept {} held where
  sound := rfl
  exclusive := ⟨fun x => by simp [h], fun {i _ x} hi => by simp [h i] at hi⟩

namespace DescriptorTable.Kept
variable {ι : Type*} {table : DescriptorTable} {held : ι → Option ℕ} {i : ι} {x : ℕ}

theorem names (h : table.Kept held) (hi : held i = some x) : table.Names (held i) :=
  ⟨x, hi, h.exclusive.mem_of_held hi⟩

/-- A holder may name what it holds. -/
theorem use_eq (h : table.Kept held) (hi : held i = some x) : table.use (held i) = table :=
  if_pos (h.names hi)

/-- If nobody holds anything, nothing is open. -/
theorem live_eq_empty (h : table.Kept held) (hnone : ∀ i, held i = none) : table.live = ∅ := by
  have hempty := h.exclusive.eq_empty hnone
  exact_mod_cast hempty

variable [DecidableEq ι]

theorem create (h : table.Kept held) (hi : held i = none) (hx : x ∉ table.live) :
    DescriptorTable.Kept { table with live := insert x table.live }
      (Function.update held i (some x)) where
  sound := h.sound
  exclusive := by
    have hacquired := h.exclusive.acquire hi (by exact_mod_cast hx)
    exact_mod_cast hacquired

theorem close (h : table.Kept held) (hi : held i = some x) :
    (table.close (held i)).Kept (Function.update held i none) := by
  have hmem : x ∈ table.live := h.exclusive.mem_of_held hi
  have hreleased := h.exclusive.release hi
  rw [hi, DescriptorTable.close, if_pos hmem]
  refine ⟨h.sound, ?_⟩
  rw [Finset.coe_erase]
  exact hreleased

end DescriptorTable.Kept
end Library
