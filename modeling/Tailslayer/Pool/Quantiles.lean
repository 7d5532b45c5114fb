import Mathlib.Data.List.Forall2
import Mathlib.Order.Lattice

/-!
# Order statistics of lists

In a sorted list entry `i` has at most `i` entries below it and more than `i` that
are not above it.  A list with fewer entries above every threshold has the smaller
entry at every place (`getElem_le_of_tails`), whatever the two are lists of.
-/

namespace Quantiles

theorem countP_split {α : Type} (p : α → Bool) (xs : List α) (i : Nat) :
    xs.countP p = (xs.take i).countP p + (xs.drop i).countP p := by
  rw [← List.countP_append, List.take_append_drop]

variable {α : Type} [LinearOrder α]

/-- How many entries are above `v`. -/
def tail (xs : List α) (v : α) : Nat := xs.countP (v < ·)

section
variable {xs : List α} (hsorted : xs.Pairwise (· ≤ ·))
include hsorted

theorem sorted_le {i j : Nat} (hj : j < xs.length) (hij : i ≤ j) : xs[i] ≤ xs[j] := by
  rcases Nat.eq_or_lt_of_le hij with rfl | hlt
  · exact le_refl _
  · exact List.pairwise_iff_getElem.mp hsorted i j _ hj hlt

theorem le_of_mem_take {i : Nat} (hi : i < xs.length) {x : α} (hx : x ∈ xs.take (i + 1)) :
    x ≤ xs[i] := by
  obtain ⟨j, hj, rfl⟩ := List.mem_iff_getElem.mp hx
  rw [List.length_take] at hj
  rw [List.getElem_take]
  exact sorted_le hsorted hi (by omega)

theorem le_of_mem_drop {i : Nat} (hi : i < xs.length) {x : α} (hx : x ∈ xs.drop i) :
    xs[i] ≤ x := by
  obtain ⟨j, hj, rfl⟩ := List.mem_iff_getElem.mp hx
  rw [List.length_drop] at hj
  rw [List.getElem_drop]
  exact sorted_le hsorted (by omega) (by omega)

/-- At most `i` entries are below entry `i`. -/
theorem countP_lt_le {i : Nat} (hi : i < xs.length) : xs.countP (· < xs[i]) ≤ i := by
  rw [countP_split _ xs i]
  have hrest : (xs.drop i).countP (· < xs[i]) = 0 := by
    rw [List.countP_eq_zero]
    intro x hx hlt
    exact absurd (le_of_mem_drop hsorted hi hx) (not_le.mpr (by simpa using hlt))
  have hfirst := (xs.take i).countP_le_length (p := (· < xs[i]))
  rw [List.length_take] at hfirst
  omega

/-- More than `i` entries are not above it. -/
theorem lt_countP_le {i : Nat} (hi : i < xs.length) : i < xs.countP (· ≤ xs[i]) := by
  have hfirst : (xs.take (i + 1)).countP (· ≤ xs[i]) = i + 1 := by
    rw [List.countP_eq_length.mpr]
    · rw [List.length_take]
      omega
    · intro x hx
      simpa using le_of_mem_take hsorted hi hx
  have hle := (List.take_sublist (i + 1) xs).countP_le (p := (· ≤ xs[i]))
  omega

/-- Entry `i` and those after it make up what is above a smaller threshold. -/
theorem le_tail {i : Nat} (hi : i < xs.length) {v : α} (hv : v < xs[i]) :
    xs.length - i ≤ tail xs v := by
  have hrest : (xs.drop i).countP (v < ·) = xs.length - i := by
    rw [List.countP_eq_length.mpr, List.length_drop]
    intro x hx
    simpa using hv.trans_le (le_of_mem_drop hsorted hi hx)
  rw [← hrest]
  exact (List.drop_sublist i xs).countP_le

theorem tail_getElem_lt {i : Nat} (hi : i < xs.length) :
    tail xs xs[i] < xs.length - i := by
  have hsplit := countP_split (xs[i] < ·) xs (i + 1)
  have hfirst : (xs.take (i + 1)).countP (xs[i] < ·) = 0 := by
    rw [List.countP_eq_zero]
    intro x hx hlt
    exact absurd (le_of_mem_take hsorted hi hx) (not_le.mpr (by simpa using hlt))
  have hrest := (xs.drop (i + 1)).countP_le_length (p := (xs[i] < ·))
  rw [List.length_drop] at hrest
  unfold tail
  omega

end

/-- **Smaller tails, smaller entries.** -/
theorem getElem_le_of_tails {xs ys : List α} (hxs : xs.Pairwise (· ≤ ·))
    (hys : ys.Pairwise (· ≤ ·)) (hlen : xs.length = ys.length)
    (h : ∀ v, tail xs v ≤ tail ys v) {i : Nat} (hi : i < xs.length) :
    xs[i] ≤ ys[i] := by
  by_contra hlt
  have hle := le_tail hxs hi (not_le.mp hlt)
  have hys := tail_getElem_lt hys (hlen ▸ hi)
  have htail := h ys[i]
  omega

theorem tail_perm {xs ys : List α} (h : xs.Perm ys) (v : α) : tail xs v = tail ys v :=
  h.countP_eq _

/-- Entry by entry smaller than some of the entries of another list. -/
theorem tail_le_of_forall₂ {xs ys zs : List α} (h : List.Forall₂ (· ≤ ·) xs ys)
    (hsub : ys.Sublist zs) (v : α) : tail xs v ≤ tail zs v := by
  have hxy : tail xs v ≤ tail ys v := by
    induction h with
    | nil => exact Nat.le_refl _
    | @cons x y xs ys hle _ ih =>
      have ih := ih ((List.sublist_cons_self y ys).trans hsub)
      unfold tail at ih ⊢
      rw [List.countP_cons, List.countP_cons]
      by_cases hx : v < x
      · have hy : v < y := hx.trans_le hle
        simp [hx, hy, ih]
      · simp only [hx, decide_false, Bool.false_eq_true, if_false]
        omega
  exact Nat.le_trans hxy hsub.countP_le

end Quantiles
