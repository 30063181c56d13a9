import SafeEdge.Library.Run

/-! Objects shared between threads under the release and acquire orderings. An atomic object keeps
every write made to it. A thread has a view, which tells of each place the last write there that it
knows of, and a load may return that write or any later one. Each atomic object has one writer, so
the order of its writes is the order in which they are made. -/
namespace Library

/-- Of each place the number of the last write there that is known. -/
abbrev View (π : Type*) := π → ℕ

/-- The ordering named at an access. What a sequentially consistent access promises beyond
acquiring and releasing is not used. -/
inductive MemoryOrder where
  | relaxed
  | acquire
  | release
  | seqCst
  deriving DecidableEq

def MemoryOrder.acquires : MemoryOrder → Bool
  | .acquire | .seqCst => true
  | .relaxed | .release => false

def MemoryOrder.releases : MemoryOrder → Bool
  | .release | .seqCst => true
  | .relaxed | .acquire => false

/-- A write, and what a load that acquires it comes to know. -/
structure Message (π α : Type*) where
  value : α
  view : View π

/-- An atomic object. Write zero is its initial value. -/
structure Atomic (π α : Type*) where
  last : ℕ
  writes : ℕ → Message π α

variable {π α : Type*}

namespace Atomic

def initial (value : α) : Atomic π α := ⟨0, fun _ => ⟨value, 0⟩⟩

variable [DecidableEq π] (object : Atomic π α) (place : π) (order : MemoryOrder) (view : View π)

/-- The value a load returns and the view of its thread from then on. Of the writes the view
permits, the one nearest to the choice is read. -/
def load (choice : ℕ) : α × View π :=
  let number := max (view place) (min choice object.last)
  let message := object.writes number
  (message.value,
    view ⊔ (if order.acquires then message.view else 0) ⊔ Pi.single place number)

/-- The object after a store and the view of the thread that has made it. -/
def store (value : α) : Atomic π α × View π :=
  let number := object.last + 1
  let known := view ⊔ Pi.single place number
  ({ last := number
     writes := Function.update object.writes number
      ⟨value, if order.releases then known else Pi.single place number⟩ },
    known)

/-- The value of the last write. -/
def newest : α := (object.writes object.last).value

/-- Every write keeps what is promised of a write with its number, its value and its view. -/
def Keeps (P : ℕ → α → View π → Prop) : Prop :=
  ∀ number ≤ object.last, P number (object.writes number).value (object.writes number).view

variable {object place order view} {P Q : ℕ → α → View π → Prop}

omit [DecidableEq π] in
theorem keeps_initial {value : α} (h : P 0 value 0) : (initial value : Atomic π α).Keeps P := by
  intro number hnumber
  obtain rfl : number = 0 := Nat.le_zero.mp hnumber
  exact h

omit [DecidableEq π] in
theorem Keeps.imp (h : object.Keeps P)
    (himp : ∀ number ≤ object.last, ∀ value view, P number value view → Q number value view) :
    object.Keeps Q :=
  fun number hnumber => himp number hnumber _ _ (h number hnumber)

theorem single_le_iff {number : ℕ} {bound : View π} :
    (Pi.single place number : View π) ≤ bound ↔ number ≤ bound place := by
  constructor
  · intro h
    simpa using h place
  · intro h other
    by_cases hother : other = place
    · subst hother
      simpa using h
    · simp [Pi.single_eq_of_ne hother]

theorem sup_single {number : ℕ} (h : view place ≤ number) :
    view ⊔ Pi.single place number = Function.update view place number := by
  funext other
  by_cases hother : other = place
  · subst hother
    simpa using h
  · simp [hother]

/-- What a load that acquires makes of a promise that only grows with the view: it holds of the
value it returns and the view it leaves. -/
theorem Keeps.load (h : object.Keeps P) (hknown : view place ≤ object.last)
    (hmono : ∀ number value, Monotone (P number value)) (horder : order.acquires = true)
    (choice : ℕ) :
    ∃ number, view place ≤ number ∧ number ≤ object.last ∧
      number ≤ (object.load place order view choice).2 place ∧
      P number (object.load place order view choice).1
        (object.load place order view choice).2 := by
  refine ⟨max (view place) (min choice object.last), le_max_left _ _,
    max_le hknown (min_le_right _ _), ?_, ?_⟩
  · exact single_le_iff.mp le_sup_right
  · refine hmono _ _ ?_ (h _ (max_le hknown (min_le_right _ _)))
    simp only [Atomic.load, horder, if_true]
    exact le_sup_of_le_left le_sup_right

theorem le_load (choice : ℕ) : view ≤ (object.load place order view choice).2 :=
  le_sup_of_le_left le_sup_left

/-- A thread learns of no more than has been done. -/
theorem load_le {bound : View π} (hview : view ≤ bound) (hlast : object.last ≤ bound place)
    (hwrites : object.Keeps fun _ _ view => view ≤ bound) (hknown : view place ≤ object.last)
    (choice : ℕ) : (object.load place order view choice).2 ≤ bound := by
  have hnumber : max (view place) (min choice object.last) ≤ object.last :=
    max_le hknown (min_le_right _ _)
  refine sup_le (sup_le hview ?_) (single_le_iff.mpr (hnumber.trans hlast))
  split_ifs
  · exact hwrites _ hnumber
  · exact fun _ => Nat.zero_le _

/-- A thread that knows the last write reads it. -/
theorem load_of_known (h : view place = object.last) (choice : ℕ) :
    (object.load place order view choice).1 = (object.writes object.last).value := by
  have hnumber : max (view place) (min choice object.last) = object.last := by
    rw [h]
    exact max_eq_left (min_le_right _ _)
  simp only [load, hnumber]

/-- A load that asks for the last write returns it. -/
theorem load_of_le (hknown : view place ≤ object.last) {choice : ℕ} (h : object.last ≤ choice) :
    (object.load place order view choice).1 = object.newest := by
  have hnumber : max (view place) (min choice object.last) = object.last := by
    rw [min_eq_right h, max_eq_right hknown]
  simp only [load, hnumber, newest]

@[simp] theorem newest_store (value : α) :
    (object.store place order view value).1.newest = value := by
  simp [newest, store]

@[simp] theorem last_store (value : α) :
    (object.store place order view value).1.last = object.last + 1 := rfl

/-- A writer that knows its last write gets to know of nothing but the new one. -/
theorem store_view (value : α) (h : view place ≤ object.last) :
    (object.store place order view value).2 = Function.update view place (object.last + 1) :=
  sup_single (h.trans (Nat.le_succ _))

/-- A store that releases keeps the promises if its own is kept by the view it is made with. -/
theorem Keeps.store (h : object.Keeps P) {value : α} (horder : order.releases = true)
    (hnew : P (object.last + 1) value (object.store place order view value).2) :
    (object.store place order view value).1.Keeps P := by
  intro number hnumber
  simp only [Atomic.store, horder, if_true] at hnumber ⊢
  by_cases hlast : number = object.last + 1
  · subst hlast
    rw [Function.update_self]
    exact hnew
  · rw [Function.update_of_ne hlast]
    exact h number (by omega)

end Atomic

/-- An object that is not atomic, and how often it has been accessed. -/
structure Cell (α : Type*) where
  value : α
  accesses : ℕ

/-- An access that takes the value and leaves another one. With an access its thread does not know
of it races, and then it means nothing. -/
def Cell.exchange [DecidableEq π] (cell : Cell α) (place : π) (view : View π) (value : α) :
    Option (α × Cell α × View π) :=
  if view place = cell.accesses then
    some (cell.value, ⟨value, cell.accesses + 1⟩, view ⊔ Pi.single place (cell.accesses + 1))
  else none

/-- An access by a thread that knows all others before it does not race. -/
theorem Cell.exchange_of_known [DecidableEq π] {cell : Cell α} {place : π} {view : View π}
    (h : view place = cell.accesses) (value : α) :
    cell.exchange place view value =
      some (cell.value, ⟨value, cell.accesses + 1⟩,
        Function.update view place (cell.accesses + 1)) := by
  rw [Cell.exchange, if_pos h, Atomic.sup_single (h.trans_le (Nat.le_succ _))]

/-- An access that does not race takes the value that is there and leaves its own. -/
theorem Cell.values_of_exchange [DecidableEq π] {cell next : Cell α} {place : π}
    {view known : View π} {value taken : α}
    (h : cell.exchange place view value = some (taken, next, known)) :
    taken = cell.value ∧ next.value = value := by
  unfold Cell.exchange at h
  split_ifs at h
  cases h
  exact ⟨rfl, rfl⟩

theorem Cell.le_exchange [DecidableEq π] {cell next : Cell α} {place : π} {view known : View π}
    {value taken : α} (h : cell.exchange place view value = some (taken, next, known)) :
    view ≤ known := by
  unfold Cell.exchange at h
  split_ifs at h
  cases h
  exact le_sup_left

end Library
