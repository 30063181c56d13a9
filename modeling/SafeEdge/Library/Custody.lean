import Mathlib.Data.Set.Insert
import Mathlib.Tactic

/-! Exclusive custody: each live resource has one holder, and acquiring, handing over and
releasing resources keep it so. -/
namespace Library

variable {ι ρ : Type*}

/-- Exactly the live resources are held, each by one holder. -/
structure Exclusive (held : ι → Option ρ) (live : Set ρ) : Prop where
  mem_iff : ∀ x, x ∈ live ↔ ∃ i, held i = some x
  unique : ∀ {i j x}, held i = some x → held j = some x → i = j

namespace Exclusive
variable {held : ι → Option ρ} {live : Set ρ} {i j : ι} {x : ρ}

theorem mem_of_held (h : Exclusive held live) (hi : held i = some x) : x ∈ live :=
  (h.mem_iff x).mpr ⟨i, hi⟩

/-- Without holders nothing is live. -/
theorem eq_empty (h : Exclusive held live) (hnone : ∀ i, held i = none) : live = ∅ := by
  apply Set.eq_empty_of_forall_notMem
  intro x hx
  obtain ⟨i, hi⟩ := (h.mem_iff x).mp hx
  rw [hnone i] at hi
  exact nomatch hi

variable [DecidableEq ι]

theorem acquire (h : Exclusive held live) (hi : held i = none) (hx : x ∉ live) :
    Exclusive (Function.update held i (some x)) (insert x live) where
  mem_iff y := by
    rw [Set.mem_insert_iff, h.mem_iff y]
    constructor
    · rintro (rfl | ⟨j, hj⟩)
      · exact ⟨i, Function.update_self ..⟩
      · have hne : j ≠ i := by
          rintro rfl
          rw [hi] at hj
          exact nomatch hj
        exact ⟨j, (Function.update_of_ne hne ..).trans hj⟩
    · rintro ⟨j, hj⟩
      by_cases hji : j = i
      · subst hji
        rw [Function.update_self, Option.some.injEq] at hj
        exact Or.inl hj.symm
      · rw [Function.update_of_ne hji] at hj
        exact Or.inr ⟨j, hj⟩
  unique {j k y} hj hk := by
    have hfresh (l : ι) (hl : held l = some x) : False := hx (h.mem_of_held hl)
    by_cases hji : j = i <;> by_cases hki : k = i
    · rw [hji, hki]
    · subst hji
      rw [Function.update_self, Option.some.injEq] at hj
      rw [Function.update_of_ne hki, ← hj] at hk
      exact (hfresh k hk).elim
    · subst hki
      rw [Function.update_self, Option.some.injEq] at hk
      rw [Function.update_of_ne hji, ← hk] at hj
      exact (hfresh j hj).elim
    · rw [Function.update_of_ne hji] at hj
      rw [Function.update_of_ne hki] at hk
      exact h.unique hj hk

theorem release (h : Exclusive held live) (hi : held i = some x) :
    Exclusive (Function.update held i none) (live \ {x}) where
  mem_iff y := by
    rw [Set.mem_sdiff, Set.mem_singleton_iff, h.mem_iff y]
    constructor
    · rintro ⟨⟨j, hj⟩, hne⟩
      have hji : j ≠ i := by
        rintro rfl
        rw [hi, Option.some.injEq] at hj
        exact hne hj.symm
      exact ⟨j, (Function.update_of_ne hji ..).trans hj⟩
    · rintro ⟨j, hj⟩
      have hji : j ≠ i := by
        rintro rfl
        rw [Function.update_self] at hj
        exact nomatch hj
      rw [Function.update_of_ne hji] at hj
      refine ⟨⟨j, hj⟩, ?_⟩
      rintro rfl
      exact hji (h.unique hj hi)
  unique {j k y} hj hk := by
    have hother (l : ι) (hl : Function.update held i none l = some y) : held l = some y := by
      by_cases hli : l = i
      · subst hli
        rw [Function.update_self] at hl
        exact nomatch hl
      · rwa [Function.update_of_ne hli] at hl
    exact h.unique (hother j hj) (hother k hk)

/-- A holder of nothing takes over what another one holds. -/
theorem transfer (h : Exclusive held live) (hj : held j = none) :
    Exclusive (Function.update (Function.update held i none) j (held i)) live := by
  cases hheld : held i with
  | none =>
    have hsame : Function.update (Function.update held i none) j none = held := by
      rw [← hheld, Function.update_eq_self, hheld, ← hj, Function.update_eq_self]
    rwa [hsame]
  | some x =>
    have hij : j ≠ i := by
      rintro rfl
      rw [hj] at hheld
      exact nomatch hheld
    have hmoved := (h.release hheld).acquire
      ((Function.update_of_ne hij ..).trans hj) (fun hx => hx.2 rfl)
    rwa [Set.insert_sdiff_singleton, Set.insert_eq_of_mem (h.mem_of_held hheld)] at hmoved

end Exclusive
end Library
