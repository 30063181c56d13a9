import Mathlib.Data.Multiset.Sort
import Mathlib.Tactic

/-! The smallest, second smallest and further members of a multiset, told by counting, and the
count and the largest member of copies of one element. -/
namespace Library

variable {α : Type*}

theorem countP_replicate {p : α → Prop} [DecidablePred p] (n : ℕ) (a : α) :
    (Multiset.replicate n a).countP p = if p a then n else 0 := by
  induction n with
  | zero => simp
  | succ n ih =>
    rw [Multiset.replicate_succ, Multiset.countP_cons, ih]
    split_ifs <;> rfl

variable [LinearOrder α]

/-- In an ordered list the members with a property that passes to smaller ones stand first, so
that counting them tells which positions have it. -/
theorem getElem_iff_lt_countP {p : α → Prop} [DecidablePred p]
    (hp : ∀ a b, a ≤ b → p b → p a) {l : List α} (hl : l.Pairwise (· ≤ ·)) {i : ℕ}
    (hi : i < l.length) : p l[i] ↔ i < l.countP p := by
  induction l generalizing i with
  | nil => exact absurd hi (Nat.not_lt_zero i)
  | cons a l ih =>
    obtain ⟨ha, hl⟩ := List.pairwise_cons.mp hl
    by_cases hpa : p a
    · rw [List.countP_cons_of_pos (by simpa using hpa)]
      cases i with
      | zero => simpa using hpa
      | succ i =>
        rw [List.getElem_cons_succ, ih hl (Nat.lt_of_succ_lt_succ hi)]
        exact Nat.succ_lt_succ_iff.symm
    · have hnone : ∀ b ∈ a :: l, ¬ p b := by
        intro b hb hpb
        rcases List.mem_cons.mp hb with rfl | hb
        · exact hpa hpb
        · exact hpa (hp a b (ha b hb) hpb)
      have hzero : (a :: l).countP p = 0 := List.countP_eq_zero.mpr (by simpa using hnone)
      rw [hzero]
      exact ⟨fun h => absurd h (hnone _ (List.getElem_mem hi)),
        fun h => absurd h (Nat.not_lt_zero i)⟩

theorem sup_replicate [OrderBot α] {n : ℕ} (hn : n ≠ 0) (a : α) :
    (Multiset.replicate n a).sup = a := by
  apply le_antisymm
  · exact Multiset.sup_le.mpr fun b hb => (Multiset.eq_of_mem_replicate hb).le
  · exact Multiset.le_sup (Multiset.mem_replicate.mpr ⟨hn, rfl⟩)

section Statistic
variable [Inhabited α]

/-- Member number `r` of a multiset in increasing order, counted from one. -/
def nthSmallest (s : Multiset α) (r : ℕ) : α := s.sort.getD (r - 1) default

variable {s : Multiset α} {r : ℕ}

theorem nthSmallest_zero (r : ℕ) : nthSmallest (0 : Multiset α) r = default := by
  rw [nthSmallest, Multiset.sort_zero, List.getD_nil]

theorem nthSmallest_eq_getElem (hr : 1 ≤ r) (hrs : r ≤ s.card) :
    ∃ hlt : r - 1 < s.sort.length, nthSmallest s r = s.sort[r - 1] := by
  have hlt : r - 1 < s.sort.length := by
    rw [Multiset.length_sort]
    omega
  refine ⟨hlt, ?_⟩
  rw [nthSmallest, List.getD_eq_getElem?_getD, List.getElem?_eq_getElem hlt, Option.getD_some]

theorem nthSmallest_mem (hr : 1 ≤ r) (hrs : r ≤ s.card) : nthSmallest s r ∈ s := by
  obtain ⟨hlt, heq⟩ := nthSmallest_eq_getElem hr hrs
  rw [heq, ← Multiset.mem_sort (· ≤ ·)]
  exact List.getElem_mem hlt

/-- Number `r` has a property that passes to smaller members exactly when at least `r` members
have it. -/
theorem nthSmallest_iff {p : α → Prop} [DecidablePred p] (hp : ∀ a b, a ≤ b → p b → p a)
    (hr : 1 ≤ r) (hrs : r ≤ s.card) : p (nthSmallest s r) ↔ r ≤ s.countP p := by
  have hcount : s.countP p = s.sort.countP p := by
    conv_lhs => rw [← Multiset.sort_eq s (· ≤ ·)]
    exact Multiset.coe_countP _ _
  obtain ⟨hlt, heq⟩ := nthSmallest_eq_getElem hr hrs
  rw [heq, hcount, getElem_iff_lt_countP hp (Multiset.pairwise_sort s (· ≤ ·)) hlt]
  omega

theorem nthSmallest_mono {r' : ℕ} (hr : 1 ≤ r) (hrr' : r ≤ r') (hrs : r' ≤ s.card) :
    nthSmallest s r ≤ nthSmallest s r' := by
  have hp : ∀ a b : α, a ≤ b → b ≤ nthSmallest s r' → a ≤ nthSmallest s r' :=
    fun _ _ hab hb => hab.trans hb
  rw [nthSmallest_iff hp hr (hrr'.trans hrs)]
  exact hrr'.trans ((nthSmallest_iff hp (hr.trans hrr') hrs).mp le_rfl)

/-- The last in order is above every member. -/
theorem le_nthSmallest_card (hs : 1 ≤ s.card) {a : α} (ha : a ∈ s) : a ≤ nthSmallest s s.card := by
  have hp : ∀ a b : α, a ≤ b → b ≤ nthSmallest s s.card → a ≤ nthSmallest s s.card :=
    fun _ _ hab hb => hab.trans hb
  have hall := (nthSmallest_iff hp hs le_rfl).mp le_rfl
  exact Multiset.countP_eq_card.mp (le_antisymm (Multiset.countP_le_card _ _) hall) a ha

end Statistic
end Library
