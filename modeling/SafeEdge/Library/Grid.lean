import Mathlib.Tactic

/-! The points of a strictly increasing sequence: how many lie between two of them, and which
is the first one past a bound. -/
namespace Library

section Sequence
variable {α : Type*} [LinearOrder α] {point : ℕ → α}

theorem between_eq_image (h : StrictMono point) (a b : ℕ) :
    {t ∈ Set.range point | point a < t ∧ t < point b} = point '' Set.Ioo a b := by
  ext t
  constructor
  · rintro ⟨⟨k, rfl⟩, ha, hb⟩
    exact ⟨k, ⟨h.lt_iff_lt.mp ha, h.lt_iff_lt.mp hb⟩, rfl⟩
  · rintro ⟨k, ⟨ha, hb⟩, rfl⟩
    exact ⟨⟨k, rfl⟩, h ha, h hb⟩

theorem ncard_between (h : StrictMono point) (a b : ℕ) :
    {t ∈ Set.range point | point a < t ∧ t < point b}.ncard = b - a - 1 := by
  rw [between_eq_image h, Set.ncard_image_of_injective _ h.injective,
    Set.ncard_eq_toFinset_card', Set.toFinset_Ioo, Nat.card_Ioo]

/-- When the points after number `a` and up to a bound are those below number `c`, point `c` is
the first one past both. -/
theorem isLeast_past (h : StrictMono point) {a c : ℕ} {bound : α} (hac : a < c)
    (hbound : ∀ j, a < j → (point j ≤ bound ↔ j < c)) :
    IsLeast {t ∈ Set.range point | point a < t ∧ bound < t} (point c) := by
  refine ⟨⟨⟨c, rfl⟩, h hac, ?_⟩, ?_⟩
  · rw [← not_le, hbound c hac]
    exact lt_irrefl c
  · rintro t ⟨⟨j, rfl⟩, ha, hlate⟩
    rw [← not_le, hbound j (h.lt_iff_lt.mp ha), not_lt] at hlate
    exact h.monotone hlate

theorem between_eq_upTo (h : StrictMono point) {a c : ℕ} {bound : α}
    (hbound : ∀ j, a < j → (point j ≤ bound ↔ j < c)) :
    {t ∈ Set.range point | point a < t ∧ t < point c} =
      {t ∈ Set.range point | point a < t ∧ t ≤ bound} := by
  ext t
  refine and_congr_right ?_
  rintro ⟨j, rfl⟩
  refine and_congr_right fun ha => ?_
  rw [hbound j (h.lt_iff_lt.mp ha), h.lt_iff_lt]

end Sequence

/-- Point `k` of the grid of the given period, the first of which is one period after the
origin. -/
def gridPoint (origin period : ℤ) (k : ℕ) : ℤ := origin + period * (k + 1)

theorem gridPoint_strictMono (origin : ℤ) {period : ℤ} (h : 0 < period) :
    StrictMono (gridPoint origin period) := by
  intro a b hab
  unfold gridPoint
  gcongr

theorem gridPoint_add (origin period : ℤ) (k m : ℕ) :
    gridPoint origin period (k + m) = gridPoint origin period k + period * m := by
  unfold gridPoint
  push_cast
  ring

end Library
