import Mathlib.Tactic

/-! A latch that trips set and releases clear, a trip prevailing over a release: the histories
that leave it set, and what has to happen before it lets go. -/
namespace Library

variable (trip release : ℕ → Bool)

/-- The latch before step `n`. -/
def latchAt : ℕ → Bool
  | 0 => false
  | n + 1 => trip n || latchAt n && !release n

/-- Step `n` goes ahead: it sees no trip and finds the latch clear. -/
def clearAt (n : ℕ) : Bool := !trip n && !latchAt trip release n

/-- The latch is set exactly if some trip has not been released since. -/
theorem latchAt_iff (n : ℕ) : latchAt trip release n = true ↔
    ∃ m < n, trip m = true ∧ ∀ j, m < j → j < n → release j = true → trip j = true := by
  induction n with
  | zero => simp [latchAt]
  | succ n ih =>
    simp only [latchAt, Bool.or_eq_true, Bool.and_eq_true, Bool.not_eq_true', ih]
    constructor
    · rintro (htrip | ⟨⟨m, hm, htrip, hkept⟩, hrelease⟩)
      · exact ⟨n, n.lt_succ_self, htrip, fun j hj hjn => by omega⟩
      · refine ⟨m, hm.trans n.lt_succ_self, htrip, fun j hj hjn => ?_⟩
        rcases Nat.lt_succ_iff_lt_or_eq.mp hjn with hlt | rfl
        · exact hkept j hj hlt
        · simp [hrelease]
    · rintro ⟨m, hm, htrip, hkept⟩
      rcases Nat.lt_succ_iff_lt_or_eq.mp hm with hlt | rfl
      · by_cases hrelease : release n = true
        · exact Or.inl (hkept n hlt n.lt_succ_self hrelease)
        · exact Or.inr ⟨⟨m, hlt, htrip, fun j hj hjn => hkept j hj (by omega)⟩,
            by simpa using hrelease⟩
      · exact Or.inl htrip

/-- A step goes ahead exactly if it sees no trip and every trip before it has been released by a
step that saw none. -/
theorem clearAt_iff (n : ℕ) : clearAt trip release n = true ↔
    trip n = false ∧ ∀ m < n, trip m = true →
      ∃ j, m < j ∧ j < n ∧ release j = true ∧ trip j = false := by
  rw [clearAt, Bool.and_eq_true, Bool.not_eq_true', Bool.not_eq_true']
  refine and_congr_right fun _ => ?_
  rw [← Bool.not_eq_true, latchAt_iff]
  push Not
  simp only [ne_eq, Bool.not_eq_true]

variable {trip release}

/-- Steps that begin to go ahead come right after a release. -/
theorem release_of_clearAt_succ {n : ℕ} (hbefore : clearAt trip release n = false)
    (hafter : clearAt trip release (n + 1) = true) : release n = true ∧ trip n = false := by
  simp only [clearAt, latchAt, Bool.and_eq_true, Bool.not_eq_true', Bool.or_eq_false_iff] at hafter
  obtain ⟨_, htrip, hlatch⟩ := hafter
  simp only [clearAt, htrip, Bool.not_false, Bool.true_and, Bool.not_eq_false'] at hbefore
  refine ⟨?_, htrip⟩
  simpa [hbefore] using hlatch

end Library
