import Mathlib.Algebra.Order.BigOperators.Group.List
import Mathlib.Algebra.Order.Ring.Nat
import Mathlib.Order.Bounds.Basic

/-!
# Entries, sums and extremes of lists

What the models' loops over lists need: the entries of a list that has grown by
one or had one replaced, entries picked from left to right, sums of counters that went up, and
running minima and maxima that started from a sentinel.
-/

namespace Lists

theorem getElem?_concat_cases {α : Type} {xs : List α} {x y : α} {i : Nat}
    (h : (xs ++ [x])[i]? = some y) : xs[i]? = some y ∨ i = xs.length ∧ x = y := by
  by_cases hlt : i < xs.length
  · rw [List.getElem?_append_left hlt] at h
    exact Or.inl h
  · obtain ⟨hi, -⟩ := List.getElem?_eq_some_iff.mp h
    rw [List.length_append, List.length_singleton] at hi
    obtain rfl : i = xs.length := by omega
    rw [List.getElem?_concat_length] at h
    exact Or.inr ⟨rfl, Option.some.inj h⟩

theorem getElem?_set_cases {α : Type} {xs : List α} {x y : α} {i j : Nat}
    (h : (xs.set i x)[j]? = some y) : j = i ∧ x = y ∨ xs[j]? = some y := by
  by_cases hij : i = j
  · subst hij
    obtain ⟨hlt, -⟩ := List.getElem?_eq_some_iff.mp h
    rw [List.length_set] at hlt
    rw [List.getElem?_set_self hlt] at h
    exact Or.inl ⟨rfl, Option.some.inj h⟩
  · rw [List.getElem?_set_ne hij] at h
    exact Or.inr h

/-- Entries at places that go up, those past the end left out. -/
theorem sublist_filterMap_getElem? {α : Type} (xs : List α) :
    ∀ {is : List Nat} (k : Nat), (∀ i ∈ is, k ≤ i) → is.Pairwise (· < ·) →
      (is.filterMap (xs[·]?)).Sublist (xs.drop k) := by
  intro is
  induction is with
  | nil =>
    intro k _ _
    exact List.nil_sublist _
  | cons i is ih =>
    intro k hk his
    obtain ⟨hi, his⟩ := List.pairwise_cons.mp his
    cases hx : xs[i]? with
    | none =>
      rw [List.filterMap_cons_none hx]
      exact ih k (fun j hj => hk j (List.mem_cons_of_mem i hj)) his
    | some x =>
      obtain ⟨hlt, rfl⟩ := List.getElem?_eq_some_iff.mp hx
      rw [List.filterMap_cons_some hx]
      refine List.Sublist.trans ?_ (List.drop_sublist_drop_left xs (hk i (List.mem_cons_self ..)))
      rw [List.drop_eq_getElem_cons hlt]
      exact (ih (i + 1) (fun j hj => hi j hj) his).cons_cons _

/-- What is found is found at the first entry that has it. -/
theorem findSome?_of_first {α β : Type} {f : α → Option β} {xs : List α} {i : Nat} {x : α} {y : β}
    (hbefore : ∀ j z, j < i → xs[j]? = some z → f z = none) (hx : xs[i]? = some x)
    (hy : f x = some y) : xs.findSome? f = some y := by
  obtain ⟨hi, rfl⟩ := List.getElem?_eq_some_iff.mp hx
  refine List.findSome?_eq_some_iff.mpr ⟨xs.take i, xs[i], xs.drop (i + 1), ?_, hy, fun z hz => ?_⟩
  · rw [← List.drop_eq_getElem_cons hi, List.take_append_drop]
  · obtain ⟨j, hj⟩ := List.mem_iff_getElem?.mp hz
    have hlt := (List.getElem?_eq_some_iff.mp hj).1
    rw [List.length_take] at hlt
    rw [List.getElem?_take_of_lt (by omega)] at hj
    exact hbefore j z (by omega) hj

/-- A loop that keeps what it finds until it has `bound` of them. -/
theorem foldl_append_bounded {α β : Type} (p : α → Prop) [DecidablePred p] (f : α → β)
    (bound : Nat) : ∀ (xs : List α) (acc : List β),
      xs.foldl (fun acc x => if p x ∧ acc.length < bound then acc ++ [f x] else acc) acc =
        acc ++ ((xs.filter p).take (bound - acc.length)).map f := by
  intro xs
  induction xs with
  | nil =>
    intro acc
    simp
  | cons x xs ih =>
    intro acc
    rw [List.foldl_cons, ih]
    by_cases hp : p x
    · by_cases hlt : acc.length < bound
      · obtain ⟨room, hroom⟩ : ∃ room, bound - acc.length = room + 1 :=
          ⟨bound - acc.length - 1, by omega⟩
        have hrest : bound - (acc ++ [f x]).length = room := by
          rw [List.length_append, List.length_singleton]
          omega
        rw [if_pos ⟨hp, hlt⟩, hrest, List.filter_cons_of_pos (by simpa using hp), hroom,
          List.take_succ_cons, List.map_cons, List.append_assoc, List.singleton_append]
      · rw [if_neg fun h => hlt h.2, Nat.sub_eq_zero_of_le (Nat.le_of_not_lt hlt), List.take_zero,
          List.take_zero]
    · rw [if_neg fun h => hp h.1, List.filter_cons_of_neg (by simpa using hp)]

/-! ## Counters -/

theorem sum_set_succ {xs : List Nat} {c x : Nat} (h : xs[c]? = some x) :
    (xs.set c (x + 1)).sum = xs.sum + 1 := by
  obtain ⟨hc, rfl⟩ := List.getElem?_eq_some_iff.mp h
  have hsum := List.sum_set xs c xs[c]
  rw [List.set_getElem_self, if_pos hc] at hsum
  rw [List.sum_set, if_pos hc, hsum]
  omega

/-- A loop that counts the items of each class. -/
theorem getElem?_foldl_modify {α : Type} (p : α → Prop) [DecidablePred p] (f : α → Nat) (b : Nat) :
    ∀ (xs : List α) (acc : List Nat),
      (xs.foldl (fun acc x => if p x then acc.modify (f x) (· + 1) else acc) acc)[b]? =
        acc[b]?.map (· + xs.countP fun x => p x ∧ f x = b) := by
  intro xs
  induction xs with
  | nil =>
    intro acc
    simp
  | cons x xs ih =>
    intro acc
    rw [List.foldl_cons, ih]
    by_cases hp : p x
    · by_cases hb : f x = b
      · rw [if_pos hp, hb, List.getElem?_modify_eq, List.countP_cons_of_pos (by simp [hp, hb]),
          Option.map_eq_map, Option.map_map]
        congr 1
        funext n
        simp only [Function.comp_apply]
        omega
      · rw [if_pos hp, List.getElem?_modify_ne _ _ hb, List.countP_cons_of_neg (by simp [hb])]
    · rw [if_neg hp, List.countP_cons_of_neg (by simp [hp])]

theorem countP_le_add {α : Type} {p q r : α → Prop} [DecidablePred p] [DecidablePred q]
    [DecidablePred r] {xs : List α} (h : ∀ x ∈ xs, p x → q x ∨ r x) :
    xs.countP p ≤ xs.countP q + xs.countP r := by
  induction xs with
  | nil => exact Nat.zero_le _
  | cons x xs ih =>
    have hrest := ih fun y hy => h y (List.mem_cons_of_mem x hy)
    have hx := h x (List.mem_cons_self ..)
    simp only [List.countP_cons, decide_eq_true_eq]
    split_ifs <;> first | omega | tauto

/-- Items in `n` classes, none of which has more than `bound` of them. -/
theorem countP_le_mul {α : Type} (p : α → Prop) [DecidablePred p] (f : α → Nat) (a bound : Nat)
    (xs : List α) (hbound : ∀ b, xs.countP (fun x => p x ∧ f x = b) ≤ bound) :
    ∀ n, xs.countP (fun x => p x ∧ a ≤ f x ∧ f x < a + n) ≤ n * bound := by
  intro n
  induction n with
  | zero =>
    rw [List.countP_eq_zero.mpr]
    · exact Nat.zero_le _
    · intro x _
      simp only [decide_eq_true_eq]
      omega
  | succ n ih =>
    have hsplit : xs.countP (fun x => p x ∧ a ≤ f x ∧ f x < a + (n + 1)) ≤
        xs.countP (fun x => p x ∧ a ≤ f x ∧ f x < a + n) +
          xs.countP fun x => p x ∧ f x = a + n := by
      apply countP_le_add
      rintro x - ⟨hp, hle, hlt⟩
      by_cases hx : f x = a + n
      · exact Or.inr ⟨hp, hx⟩
      · exact Or.inl ⟨hp, hle, by omega⟩
    have hlast := hbound (a + n)
    rw [Nat.succ_mul]
    omega

theorem sum_map_succ (xs : List Nat) : (xs.map (· + 1)).sum = xs.sum + xs.length := by
  rw [List.sum_map_add, List.map_id', List.map_const', List.sum_replicate, Nat.nsmul_eq_mul,
    Nat.mul_one]

theorem sum_le_length_mul {xs : List Nat} {bound : Nat} (h : ∀ x ∈ xs, x ≤ bound) :
    xs.sum ≤ xs.length * bound := by
  have hle := List.sum_le_card_nsmul xs bound h
  rwa [Nat.nsmul_eq_mul] at hle

/-! ## Running extremes -/

/-- The least item, if none is above the start. -/
theorem isLeast_foldl_min {xs : List Nat} {start : Nat} (hne : xs ≠ [])
    (h : ∀ x ∈ xs, x ≤ start) : IsLeast {x | x ∈ xs} (xs.foldl min start) := by
  obtain ⟨least, hleast⟩ := Option.isSome_iff_exists.mp (List.isSome_min?_of_ne_nil hne)
  obtain ⟨hmem, hle⟩ := List.min?_eq_some_iff.mp hleast
  rw [List.foldl_min, hleast, Option.getD_some, Nat.min_eq_right (h least hmem)]
  exact ⟨hmem, fun x hx => hle x hx⟩

theorem isGreatest_foldl_max {xs : List Nat} (hne : xs ≠ []) :
    IsGreatest {x | x ∈ xs} (xs.foldl max 0) := by
  obtain ⟨greatest, hgreatest⟩ := Option.isSome_iff_exists.mp (List.isSome_max?_of_ne_nil hne)
  obtain ⟨hmem, hle⟩ := List.max?_eq_some_iff.mp hgreatest
  rw [List.foldl_max, hgreatest, Option.getD_some, Nat.max_eq_right (Nat.zero_le greatest)]
  exact ⟨hmem, fun x hx => hle x hx⟩

end Lists
