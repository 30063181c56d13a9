import Mathlib.Tactic
import Mathlib.Data.List.MinMax

/-! A cell that any number of threads raise to the maximum of their values by a compare-exchange
loop, where the exchange may fail for no reason. -/
namespace Library

/-- Where a thread stands in the loop that raises the cell to its value. -/
inductive Raise (α : Type*) [LT α] where
  | loading (value : α)
  | exchanging (value previous : α) (above : previous < value)

namespace Raise

def value {α : Type*} [LT α] : Raise α → α
  | .loading value => value
  | .exchanging value _ _ => value

variable {α : Type*} [LinearOrder α]

/-- The head of the loop once the cell has been read. -/
def retry (value previous : α) : Option (Raise α) :=
  if above : previous < value then some (.exchanging value previous above) else none

/-- One access of the loop: what it leaves in the cell, and where the thread goes on, unless it
leaves the loop. -/
def step (cell : α) (spurious : Bool) : Raise α → α × Option (Raise α)
  | .loading value => (cell, retry value cell)
  | .exchanging value previous _ =>
    if cell = previous ∧ spurious = false then (value, none) else (cell, retry value cell)

/-- What one access of the loop can do. -/
inductive Outcome (cell : α) (raise : Raise α) : α × Option (Raise α) → Prop
  | read : Outcome cell raise (cell, retry raise.value cell)
  | exchange (above : cell < raise.value) : Outcome cell raise (raise.value, none)

theorem step_outcome (cell : α) (spurious : Bool) (raise : Raise α) :
    Outcome cell raise (raise.step cell spurious) := by
  cases raise with
  | loading value => exact .read
  | exchanging value previous above =>
    simp only [step]
    split_ifs with h
    · obtain ⟨rfl, _⟩ := h
      exact .exchange above
    · exact .read

theorem value_of_retry {value previous : α} {raise : Raise α}
    (h : retry value previous = some raise) : raise.value = value := by
  unfold retry at h
  split_ifs at h
  rw [← Option.some.inj h]
  rfl

theorem le_of_retry {value previous : α} (h : retry value previous = none) :
    value ≤ previous := by
  unfold retry at h
  split_ifs at h with above
  exact not_lt.mp above

/-- No access lowers the cell. -/
theorem le_step (cell : α) (spurious : Bool) (raise : Raise α) :
    cell ≤ (raise.step cell spurious).1 := by
  have hout := step_outcome cell spurious raise
  generalize raise.step cell spurious = result at hout
  cases hout with
  | read => exact le_rfl
  | exchange above => exact above.le

end Raise

section Cell
variable {α ι : Type*} [LinearOrder α] [OrderBot α] [DecidableEq ι]

/-- The cell holds one of the values offered, and no value is above it but those that threads
are still raising it to. -/
structure Raised (cell : α) (pending : ι → Option (Raise α)) (offered : List α) : Prop where
  source : cell = ⊥ ∨ cell ∈ offered
  covered : ∀ v ∈ offered, v ≤ cell ∨ ∃ id raise, pending id = some raise ∧ raise.value = v
  known : ∀ id raise, pending id = some raise → raise.value ∈ offered

variable {cell : α} {pending : ι → Option (Raise α)} {offered : List α}

omit [DecidableEq ι] in
theorem raised_nil : Raised (⊥ : α) (fun _ : ι => none) [] where
  source := Or.inl rfl
  covered v hv := absurd hv List.not_mem_nil
  known id raise h := by simp at h

/-- A thread outside the loop offers a value. -/
theorem Raised.offer (h : Raised cell pending offered) {id : ι} (hfree : pending id = none)
    (v : α) :
    Raised cell (Function.update pending id (some (.loading v))) (offered ++ [v]) where
  source := h.source.imp_right fun hmem => List.mem_append_left _ hmem
  covered := by
    intro w hw
    rcases List.mem_append.mp hw with hold | hnew
    · refine (h.covered w hold).imp_right ?_
      rintro ⟨other, raise, hraise, hvalue⟩
      refine ⟨other, raise, ?_, hvalue⟩
      rw [Function.update_of_ne, hraise]
      rintro rfl
      rw [hfree] at hraise
      simp at hraise
    · exact Or.inr ⟨id, .loading v, Function.update_self .., (List.mem_singleton.mp hnew).symm⟩
  known := by
    intro other raise hraise
    by_cases hself : other = id
    · subst hself
      rw [Function.update_self] at hraise
      rw [← Option.some.inj hraise]
      exact List.mem_append_right _ (List.mem_singleton.mpr rfl)
    · rw [Function.update_of_ne hself] at hraise
      exact List.mem_append_left _ (h.known other raise hraise)

/-- A thread in the loop takes its next access. -/
theorem Raised.step (h : Raised cell pending offered) {id : ι} {raise : Raise α}
    (hraise : pending id = some raise) (spurious : Bool) :
    Raised (raise.step cell spurious).1
      (Function.update pending id (raise.step cell spurious).2) offered := by
  have hle := raise.le_step cell spurious
  have hout := raise.step_outcome cell spurious
  generalize raise.step cell spurious = result at hout hle
  have hmine : raise.value ≤ result.1 ∨
      ∃ rest, result.2 = some rest ∧ rest.value = raise.value := by
    cases hout with
    | exchange => exact Or.inl le_rfl
    | read =>
      cases hretry : Raise.retry raise.value cell with
      | none => exact Or.inl (Raise.le_of_retry hretry)
      | some rest => exact Or.inr ⟨rest, rfl, Raise.value_of_retry hretry⟩
  refine ⟨?_, ?_, ?_⟩
  · cases hout with
    | read => exact h.source
    | exchange => exact Or.inr (h.known id raise hraise)
  · intro v hv
    rcases h.covered v hv with hcell | ⟨other, held, hheld, hvalue⟩
    · exact Or.inl (hcell.trans hle)
    · by_cases hself : other = id
      · subst hself
        obtain rfl : raise = held := Option.some.inj (hraise.symm.trans hheld)
        rw [← hvalue]
        exact hmine.imp_right fun ⟨rest, hrest, hsame⟩ =>
          ⟨other, rest, by rw [Function.update_self, hrest], hsame⟩
      · exact Or.inr ⟨other, held, by rw [Function.update_of_ne hself, hheld], hvalue⟩
  · intro other held hheld
    by_cases hself : other = id
    · subst hself
      rw [Function.update_self] at hheld
      cases hout with
      | exchange => simp at hheld
      | read =>
        rw [Raise.value_of_retry hheld]
        exact h.known other raise hraise
    · rw [Function.update_of_ne hself] at hheld
      exact h.known other held hheld

omit [DecidableEq ι] in
/-- Once no thread is in the loop the cell holds the maximum of all values offered. -/
theorem Raised.eq_max (h : Raised cell pending offered) (hdone : ∀ id, pending id = none) :
    cell = offered.foldr max ⊥ := by
  apply le_antisymm
  · rcases h.source with rfl | hmem
    · exact bot_le
    · exact List.le_max_of_le hmem le_rfl
  · apply List.max_le_of_forall_le
    intro v hv
    rcases h.covered v hv with hle | ⟨id, raise, hraise, _⟩
    · exact hle
    · rw [hdone id] at hraise
      simp at hraise

end Cell
end Library
