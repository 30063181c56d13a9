import Mathlib.Tactic

/-! Runs of a deterministic step function along an input stream, and unbroken stretches of
a predicate on their indices. -/
namespace Library

variable {σ ι : Type*}

/-- The state before input `n`, starting from `s`. -/
def stateAt (step : σ → ι → σ) (s : σ) (inputs : ℕ → ι) : ℕ → σ
  | 0 => s
  | n + 1 => step (stateAt step s inputs n) (inputs n)

@[simp] theorem stateAt_succ (step : σ → ι → σ) (s : σ) (inputs : ℕ → ι) (n : ℕ) :
    stateAt step s inputs (n + 1) = step (stateAt step s inputs n) (inputs n) := rfl

/-- An invariant that each step of the run keeps, possibly reading the index, holds along
the whole run. -/
theorem stateAt_invariant {step : σ → ι → σ} {s : σ} {inputs : ℕ → ι} (P : ℕ → σ → Prop)
    (hinit : P 0 s) (hstep : ∀ n, P n (stateAt step s inputs n) →
      P (n + 1) (step (stateAt step s inputs n) (inputs n))) (n : ℕ) :
    P n (stateAt step s inputs n) := by
  induction n with
  | zero => exact hinit
  | succ n ih => exact hstep n ih

/-- Two runs side by side: a relation that each pair of steps keeps holds between them all along. -/
theorem stateAt_related {τ κ : Type*} {step : σ → ι → σ} {stepOther : τ → κ → τ} {s : σ} {t : τ}
    {inputs : ℕ → ι} {others : ℕ → κ} (R : σ → τ → Prop) (hinit : R s t)
    (hstep : ∀ n s t, R s t → R (step s (inputs n)) (stepOther t (others n))) (n : ℕ) :
    R (stateAt step s inputs n) (stateAt stepOther t others n) := by
  induction n with
  | zero => exact hinit
  | succ n ih => exact hstep n _ _ ih

/-- How often `p` holds from `m` on and before `n`. -/
def occurrences (p : ℕ → Prop) [DecidablePred p] (m n : ℕ) : ℕ :=
  ((Finset.Ico m n).filter p).card

theorem occurrences_self (p : ℕ → Prop) [DecidablePred p] (m : ℕ) : occurrences p m m = 0 := by
  simp [occurrences]

theorem occurrences_succ (p : ℕ → Prop) [DecidablePred p] {m n : ℕ} (h : m ≤ n) :
    occurrences p m (n + 1) = occurrences p m n + if p n then 1 else 0 := by
  have hset : Finset.Ico m (n + 1) = insert n (Finset.Ico m n) := by
    ext i
    simp only [Finset.mem_insert, Finset.mem_Ico]
    omega
  rw [occurrences, hset, Finset.filter_insert]
  split_ifs
  · exact Finset.card_insert_of_notMem (by simp)
  · rfl

theorem occurrences_eq_sub {p : ℕ → Prop} [DecidablePred p] {m n : ℕ}
    (h : ∀ j, m ≤ j → j < n → p j) : occurrences p m n = n - m := by
  rw [occurrences, Finset.filter_true_of_mem fun j hj =>
    h j (Finset.mem_Ico.mp hj).1 (Finset.mem_Ico.mp hj).2, Nat.card_Ico]

theorem occurrences_mono (p : ℕ → Prop) [DecidablePred p] (m : ℕ) {j n : ℕ} (h : j ≤ n) :
    occurrences p m j ≤ occurrences p m n :=
  Finset.card_le_card (Finset.filter_subset_filter _ (Finset.Ico_subset_Ico_right h))

/-- A rank that goes down at every occurrence and never up is exhausted by as many of them. -/
theorem rank_le_sub_occurrences (p : ℕ → Prop) [DecidablePred p] (rank : ℕ → ℕ) {m n : ℕ}
    (hmn : m ≤ n) (hstep : ∀ j, m ≤ j → j < n → rank (j + 1) ≤ rank j - if p j then 1 else 0) :
    rank n ≤ rank m - occurrences p m n := by
  induction n, hmn using Nat.le_induction with
  | base => simp [occurrences_self]
  | succ n hmn ih =>
    have hbefore := ih fun j hj hjn => hstep j hj (by omega)
    have hlast := hstep n hmn n.lt_succ_self
    rw [occurrences_succ p hmn]
    omega

/-- The first index of the unbroken stretch of `p` that reaches up to `n`. When `p` fails
at `n - 1` that is `n` itself. -/
def stretchStart (p : ℕ → Prop) [DecidablePred p] : ℕ → ℕ
  | 0 => 0
  | n + 1 => if p n then stretchStart p n else n + 1

theorem stretchStart_le (p : ℕ → Prop) [DecidablePred p] (n : ℕ) : stretchStart p n ≤ n := by
  induction n with
  | zero => exact le_rfl
  | succ n ih =>
    simp only [stretchStart]
    split_ifs <;> omega

/-- Between the start of a stretch and `n` the predicate holds throughout. -/
theorem stretchStart_holds (p : ℕ → Prop) [DecidablePred p] {n k : ℕ}
    (hk : stretchStart p n ≤ k) (hkn : k < n) : p k := by
  induction n with
  | zero => omega
  | succ n ih =>
    simp only [stretchStart] at hk
    split_ifs at hk with hp
    · rcases Nat.lt_succ_iff_lt_or_eq.mp hkn with hlt | rfl
      · exact ih hk hlt
      · exact hp
    · omega

/-- A stretch cannot be extended to the left. -/
theorem stretchStart_maximal (p : ℕ → Prop) [DecidablePred p] {n k : ℕ}
    (hk : k + 1 = stretchStart p n) : ¬ p k := by
  induction n with
  | zero => simp [stretchStart] at hk
  | succ n ih =>
    simp only [stretchStart] at hk
    split_ifs at hk with hp
    · exact ih hk
    · obtain rfl : k = n := by omega
      exact hp

/-- `first` begins the unbroken stretch of `p` that contains `n`. -/
def FirstOfStretch (p : ℕ → Prop) (first n : ℕ) : Prop :=
  first ≤ n ∧ (∀ j, first ≤ j → j ≤ n → p j) ∧ ∀ j, j + 1 = first → ¬ p j

theorem firstOfStretch_iff (p : ℕ → Prop) [DecidablePred p] (first n : ℕ) :
    FirstOfStretch p first n ↔ p n ∧ first = stretchStart p n := by
  constructor
  · rintro ⟨hle, hall, hmax⟩
    refine ⟨hall n hle le_rfl, ?_⟩
    rcases lt_trichotomy first (stretchStart p n) with hlt | heq | hgt
    · obtain ⟨k, hk⟩ := Nat.exists_eq_add_one_of_ne_zero (Nat.ne_zero_of_lt hlt)
      have hn := stretchStart_le p n
      exact absurd (hall k (by omega) (by omega)) (stretchStart_maximal p hk.symm)
    · exact heq
    · obtain ⟨k, hk⟩ := Nat.exists_eq_add_one_of_ne_zero (Nat.ne_zero_of_lt hgt)
      have hp : p k := stretchStart_holds p (show stretchStart p n ≤ k by omega) (by omega)
      exact absurd hp (hmax k hk.symm)
  · rintro ⟨hp, rfl⟩
    refine ⟨stretchStart_le p n, fun j hj hjn => ?_, fun j hj => stretchStart_maximal p hj⟩
    rcases hjn.lt_or_eq with hlt | rfl
    · exact stretchStart_holds p hj hlt
    · exact hp

/-- Between an index where a predicate fails and a later one where it holds, it begins to hold
somewhere. -/
theorem exists_rise {p : ℕ → Prop} {m n : ℕ} (hmn : m ≤ n) (hm : ¬ p m) (hn : p n) :
    ∃ k, m ≤ k ∧ k < n ∧ ¬ p k ∧ p (k + 1) := by
  induction n, hmn using Nat.le_induction with
  | base => exact absurd hn hm
  | succ n hmn ih =>
    by_cases hp : p n
    · obtain ⟨k, hmk, hkn, hrise⟩ := ih hp
      exact ⟨k, hmk, hkn.trans (Nat.lt_succ_self n), hrise⟩
    · exact ⟨n, hmn, Nat.lt_succ_self n, hp, hn⟩

end Library
