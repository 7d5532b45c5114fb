import Mathlib.Data.List.Basic

/-!
# Bounded lists

A list that never grows past its capacity: `append` takes as many of the new
items as there is room for.  `step` and `run` are the list under a sequence of
`push` and `extend` operations.
-/

structure BoundedList (α : Type) (capacity : Nat) where
  items : List α
  bound : items.length ≤ capacity

inductive ListOp (α : Type) where
  | push (a : α)
  | extend (as : List α)

namespace BoundedList

variable {α : Type} {capacity : Nat}

def empty : BoundedList α capacity := ⟨[], Nat.zero_le _⟩

/-- Appends the first items of `as` until the list is full. -/
def append (l : BoundedList α capacity) (as : List α) : BoundedList α capacity where
  items := l.items ++ as.take (capacity - l.items.length)
  bound := by
    have := l.bound
    rw [List.length_append, List.length_take]
    omega

def step (l : BoundedList α capacity) : ListOp α → BoundedList α capacity
  | .push a => l.append [a]
  | .extend as => l.append as

def run (l : BoundedList α capacity) : List (ListOp α) → BoundedList α capacity
  | [] => l
  | op :: ops => (l.step op).run ops

@[ext] theorem ext {l l' : BoundedList α capacity} (h : l.items = l'.items) : l = l' := by
  cases l
  cases l'
  cases h
  rfl

@[simp] theorem items_append (l : BoundedList α capacity) (as : List α) :
    (l.append as).items = l.items ++ as.take (capacity - l.items.length) := rfl

theorem append_full {l : BoundedList α capacity} (h : capacity ≤ l.items.length) (as : List α) :
    l.append as = l := by
  apply ext
  rw [items_append, Nat.sub_eq_zero_of_le h, List.take_zero, List.append_nil]

theorem append_nil (l : BoundedList α capacity) : l.append [] = l := by
  apply ext
  rw [items_append, List.take_nil, List.append_nil]

theorem items_append_single {l : BoundedList α capacity} (h : l.items.length < capacity) (a : α) :
    (l.append [a]).items = l.items ++ [a] := by
  rw [items_append, List.take_of_length_le (by rw [List.length_singleton]; omega)]

/-- Appending one by one. -/
theorem append_cons (l : BoundedList α capacity) (a : α) (as : List α) :
    l.append (a :: as) = (l.append [a]).append as := by
  rcases Nat.lt_or_ge l.items.length capacity with h | h
  · apply ext
    obtain ⟨m, hm⟩ : ∃ m, capacity - l.items.length = m + 1 :=
      ⟨capacity - l.items.length - 1, by omega⟩
    have hm' : capacity - (l.append [a]).items.length = m := by
      rw [items_append_single h, List.length_append, List.length_singleton]
      omega
    rw [items_append, items_append, hm', items_append_single h, hm, List.take_succ_cons,
      List.append_assoc, List.singleton_append]
  · rw [append_full h, append_full h, append_full h]

end BoundedList
