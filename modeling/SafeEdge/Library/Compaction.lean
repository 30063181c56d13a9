import Mathlib.Tactic

/-! Removing items from an array in place, by one index that reads and one that writes. -/
namespace Library

variable {α : Type*}

structure Compaction (α : Type*) where
  items : List α
  kept : ℕ := 0
  removed : ℕ := 0

variable (dropped : α → Bool) (blank : α)

/-- A dropped item is blanked, and another one moves down to the place after the kept ones. -/
def compactStep (state : Compaction α) (i : ℕ) : Compaction α :=
  match state.items[i]? with
  | none => state
  | some item =>
    if dropped item then
      { state with items := state.items.set i blank, removed := state.removed + 1 }
    else
      { state with
        items := if state.kept ≠ i then state.items.set state.kept item else state.items
        kept := state.kept + 1 }

/-- The state after the first `i` items. -/
def compactUpTo (items : List α) : ℕ → Compaction α
  | 0 => { items }
  | i + 1 => compactStep dropped blank (compactUpTo items i) i

def compact (items : List α) : Compaction α := compactUpTo dropped blank items items.length

/-- The kept items of the first `i` stand in front, and those not yet read are in place. -/
structure CompactedTo (items : List α) (i : ℕ) (state : Compaction α) : Prop where
  length : state.items.length = items.length
  kept_le : state.kept ≤ i
  front : state.items.take state.kept = (items.take i).filter (!dropped ·)
  rest : state.items.drop i = items.drop i
  removed : state.removed = (items.take i).countP dropped

variable {dropped blank} {items : List α} {i : ℕ} {state : Compaction α}

theorem CompactedTo.getElem?_eq (h : CompactedTo dropped items i state) :
    state.items[i]? = items[i]? := by
  calc
    state.items[i]? = (state.items.drop i)[0]? := by simp
    _ = (items.drop i)[0]? := by rw [h.rest]
    _ = items[i]? := by simp

/-- Writing below the items that are still to be read leaves them as they are. -/
theorem CompactedTo.drop_set (h : CompactedTo dropped items i state) {place : ℕ}
    (hplace : place ≤ i) (item : α) :
    (state.items.set place item).drop (i + 1) = items.drop (i + 1) := by
  rw [List.drop_set_of_lt (by omega), ← List.drop_drop, ← List.drop_drop, h.rest]

theorem filter_take_succ (hi : i < items.length) :
    (items.take (i + 1)).filter (!dropped ·) =
      (items.take i).filter (!dropped ·) ++ if dropped items[i] then [] else [items[i]] := by
  rw [List.take_succ_eq_append_getElem hi, List.filter_append]
  cases hdropped : dropped items[i] <;> simp [hdropped]

theorem countP_take_succ (hi : i < items.length) :
    (items.take (i + 1)).countP dropped =
      (items.take i).countP dropped + if dropped items[i] then 1 else 0 := by
  rw [List.take_succ_eq_append_getElem hi, List.countP_append]
  cases hdropped : dropped items[i] <;> simp [hdropped]

theorem CompactedTo.step (h : CompactedTo dropped items i state) (hi : i < items.length) :
    CompactedTo dropped items (i + 1) (compactStep dropped blank state i) := by
  have hitem : state.items[i]? = some items[i] :=
    h.getElem?_eq.trans (List.getElem?_eq_getElem hi)
  have hlength := h.length
  have hkept := h.kept_le
  simp only [compactStep, hitem]
  split_ifs with hdropped hmoved
  · exact {
      length := by simpa using h.length
      kept_le := hkept.trans i.le_succ
      front := by simp [List.take_set_of_le hkept, h.front, filter_take_succ hi, hdropped]
      rest := h.drop_set le_rfl blank
      removed := by simp [countP_take_succ hi, hdropped, h.removed] }
  · exact {
      length := by simpa using h.length
      kept_le := Nat.succ_le_succ hkept
      front := by
        have hplace : state.kept < (state.items.set state.kept items[i]).length := by
          simp only [List.length_set]
          omega
        rw [List.take_succ_eq_append_getElem hplace, List.take_set_of_le le_rfl, h.front,
          filter_take_succ hi]
        simp [hdropped]
      rest := h.drop_set hkept items[i]
      removed := by simp [countP_take_succ hi, hdropped, h.removed] }
  · have hsame : state.kept = i := not_not.mp hmoved
    have hplace : i < state.items.length := by omega
    have hread : state.items[i] = items[i] :=
      Option.some.inj ((List.getElem?_eq_getElem hplace).symm.trans hitem)
    have hfront := h.front
    rw [hsame] at hfront
    exact {
      length := h.length
      kept_le := Nat.succ_le_succ hkept
      front := by
        simp only [hsame]
        rw [List.take_succ_eq_append_getElem hplace, hfront, hread, filter_take_succ hi]
        simp [hdropped]
      rest := by rw [← List.drop_drop, ← List.drop_drop, h.rest]
      removed := by simp [countP_take_succ hi, hdropped, h.removed] }

theorem compactUpTo_compacted (hi : i ≤ items.length) :
    CompactedTo dropped items i (compactUpTo dropped blank items i) := by
  induction i with
  | zero => exact ⟨rfl, le_rfl, by simp [compactUpTo], rfl, by simp [compactUpTo]⟩
  | succ i ih => exact (ih (by omega)).step (by omega)

/-- All the items that are not dropped remain, in their order. -/
theorem take_compact (items : List α) :
    (compact dropped blank items).items.take (compact dropped blank items).kept =
      items.filter (!dropped ·) := by
  have hall : CompactedTo dropped items items.length (compact dropped blank items) :=
    compactUpTo_compacted le_rfl
  simpa using hall.front

theorem removed_compact (items : List α) :
    (compact dropped blank items).removed = items.countP dropped := by
  have hall : CompactedTo dropped items items.length (compact dropped blank items) :=
    compactUpTo_compacted le_rfl
  simpa using hall.removed

end Library
