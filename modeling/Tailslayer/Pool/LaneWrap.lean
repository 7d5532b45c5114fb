import Tailslayer.Pool.Lanes
import Mathlib.Tactic.Linarith

/-!
# Lanes whose slots are reduced modulo `H`

`WrapsInto H R k M`: the first `k` elements of the first `R` lanes have
pairwise distinct slots modulo `H`, all below `M`.  Two ways to know it:

* without wrapping: `slot_lt_of_wrapped_lt_half` (slots that stay below half of
  `H` modulo `H` never wrapped at all) with `Spread`, the exact condition for
  distinct slots (`Spread.slot_inj`, `spread_of_inj`);
* with wrapping: `wrapsInto_iff_apart` looks at whole lanes only, at where each
  starts modulo `H` and how many of its places are filled.
-/

namespace Lanes

variable (L : Lanes)

/-- The first `k` elements of the first `R` lanes stay below `M` modulo `H`, all distinct. -/
structure WrapsInto (H R k M : Nat) : Prop where
  lt : ∀ r i, r < R → i < k → L.slot r i % H < M
  inj : ∀ r i r' i', r < R → r' < R → i < k → i' < k →
    L.slot r i % H = L.slot r' i' % H → r = r' ∧ i = i'

/-! ## Without wrapping -/

/-- One chunk is enough for `k` elements, or a chunk has room for the lanes. -/
def Spread (R k : Nat) : Prop := k ≤ L.width ∨ L.Room R

section
variable {L} {R k : Nat} (h : L.Spread R k)
include h

theorem Spread.slot_le_last {r i : Nat} (hr : r < R) (hi : i < k) :
    L.slot r i ≤ L.slot (R - 1) (k - 1) := by
  rcases h with h | h
  · rw [L.slot_first_chunk r (by omega), L.slot_first_chunk (R - 1) (by omega)]
    have := Nat.mul_le_mul_right L.width (show r ≤ R - 1 by omega)
    omega
  · exact h.slot_le (by omega) (by omega) (by omega)

theorem Spread.slot_inj {r i r' i' : Nat} (hr : r < R) (hr' : r' < R) (hi : i < k) (hi' : i' < k)
    (he : L.slot r i = L.slot r' i') : r = r' ∧ i = i' := by
  rcases h with h | h
  · rw [L.slot_first_chunk r (by omega), L.slot_first_chunk r' (by omega)] at he
    have h1 := L.place_div_width r i
    have h2 := L.place_div_width r' i'
    rw [Nat.mod_eq_of_lt (by omega)] at h1 h2
    have hr : r = r' := by rw [← h1, ← h2, he]
    subst hr
    exact ⟨rfl, Nat.add_left_cancel he⟩
  · exact h.slot_inj hr hr' he

end

/-- Distinct slots need room: lane 0 of the second chunk must miss the first chunk. -/
theorem spread_of_inj {R k : Nat} (h : ∀ r i r' i', r < R → r' < R → i < k → i' < k →
    L.slot r i = L.slot r' i' → r = r' ∧ i = i') : L.Spread R k := by
  rcases Nat.lt_or_ge L.width k with hk | hk
  · refine Or.inr (Nat.le_of_not_lt fun hlt => ?_)
    have hw := L.width_pos
    have hr : L.stride / L.width < R := Nat.div_lt_of_lt_mul (by rw [Nat.mul_comm]; exact hlt)
    have ht := Nat.mod_lt L.stride hw
    have hslot : L.slot (L.stride / L.width) (L.stride % L.width) = L.slot 0 L.width := by
      rw [L.slot_first_chunk _ ht]
      simp only [slot, Nat.div_self hw, Nat.mod_self]
      have := Nat.div_add_mod L.stride L.width
      rw [Nat.mul_comm] at this
      omega
    have := (h _ _ _ _ hr (Nat.zero_lt_of_lt hr) (by omega) hk hslot).2
    omega
  · exact Or.inl hk

/-- A sum of two numbers below half of `H` does not wrap. -/
theorem add_lt_of_mod_lt {H half x y : Nat} (hhalf : half + half ≤ H) (hx : x < half)
    (hy : y < half) (h : (x + y) % H < half) : x + y < half := by
  rwa [Nat.mod_eq_of_lt (by omega)] at h

/-- Nor do the multiples of `a < H`, one after the other. -/
theorem mul_lt_of_mod_lt {H half a n : Nat} (hhalf : half + half ≤ H) (ha : a < H)
    (h : ∀ m, m < n → m * a % H < half) : ∀ m, m < n → m * a < half := by
  intro m
  induction m with
  | zero =>
    intro hm
    have := h 0 hm
    omega
  | succ m ih =>
    intro hm
    have hstep := h (m + 1) hm
    rw [Nat.succ_mul] at hstep ⊢
    by_cases hm0 : m = 0
    · subst hm0
      rw [Nat.zero_mul, Nat.zero_add] at hstep ⊢
      rwa [Nat.mod_eq_of_lt ha] at hstep
    · have hone := h 1 (by omega)
      rw [Nat.one_mul, Nat.mod_eq_of_lt ha] at hone
      exact add_lt_of_mod_lt hhalf (ih (by omega)) hone hstep

/-- Slots that stay below half of `H` modulo `H` never wrapped: a step of at
most a lane or a stride from below the half cannot jump past `H`. -/
theorem slot_lt_of_wrapped_lt_half {H half R k : Nat} (hhalf : half + half ≤ H)
    (hwidth : L.width < H) (hstride : L.stride < H) (hk : k ≤ H)
    (h : ∀ r i, r < R → i < k → L.slot r i % H < half) {r i : Nat} (hr : r < R) (hi : i < k) :
    L.slot r i < half := by
  have hw := L.width_pos
  have hR : 0 < R := by omega
  have hlane : r * L.width < half := by
    refine mul_lt_of_mod_lt hhalf hwidth (fun m hm => ?_) r hr
    have := h m 0 hm (by omega)
    rwa [L.slot_first_chunk m hw, Nat.add_zero] at this
  have hdm := Nat.div_add_mod i L.width
  rw [Nat.mul_comm] at hdm
  have hchunk : i / L.width * L.stride < half := by
    refine mul_lt_of_mod_lt hhalf hstride (fun m hm => ?_) (i / L.width) (Nat.lt_succ_self _)
    have hle := Nat.mul_le_mul_right L.width (Nat.le_of_lt_succ hm)
    have := h 0 (m * L.width) hR (by omega)
    rwa [slot, Nat.mul_div_cancel _ hw, Nat.mul_mod_left, Nat.zero_mul, Nat.zero_add,
      Nat.add_zero] at this
  have hplace : i % L.width < half := by
    have hlt := Nat.mod_lt i hw
    have hle : i % L.width < k := by omega
    have := h 0 (i % L.width) hR hle
    rwa [L.slot_first_chunk 0 hlt, Nat.zero_mul, Nat.zero_add,
      Nat.mod_eq_of_lt (Nat.lt_of_lt_of_le hle hk)] at this
  have hoff : i / L.width * L.stride + i % L.width < half := by
    have := h 0 i hR hi
    rw [slot, Nat.zero_mul, Nat.zero_add] at this
    exact add_lt_of_mod_lt hhalf hchunk hplace this
  exact add_lt_of_mod_lt hhalf hlane hoff (h r i hr hi)

/-! ## With wrapping -/

/-- Where chunk `j` of lane `r` starts, modulo `H`. -/
def start (H r j : Nat) : Nat := (r * L.width + j * L.stride) % H

/-- Filled places of chunk `j` in a lane of `k` elements. -/
def filled (k j : Nat) : Nat := min L.width (k - j * L.width)

/-- The filled parts of the lanes end by `M` and do not overlap, modulo `H`. -/
structure Apart (H R k M : Nat) : Prop where
  end_le : ∀ r j, r < R → j * L.width < k → L.start H r j + L.filled k j ≤ M
  apart : ∀ r j r' j', r < R → r' < R → j * L.width < k → j' * L.width < k → (r, j) ≠ (r', j') →
    L.start H r j + L.filled k j ≤ L.start H r' j' ∨
      L.start H r' j' + L.filled k j' ≤ L.start H r j

theorem filled_pos {k j : Nat} (hj : j * L.width < k) : 0 < L.filled k j := by
  have := L.width_pos
  unfold filled
  omega

theorem chunk_div {j t : Nat} (ht : t < L.width) : (j * L.width + t) / L.width = j := by
  rw [Nat.mul_comm, Nat.mul_add_div L.width_pos, Nat.div_eq_of_lt ht, Nat.add_zero]

/-- Place `t` of a chunk, modulo `H`. -/
theorem slot_chunk_mod (H r j : Nat) {t : Nat} (ht : t < L.width) :
    L.slot r (j * L.width + t) % H = (L.start H r j + t) % H := by
  have hmod : (j * L.width + t) % L.width = t := by
    rw [Nat.add_comm, Nat.add_mul_mod_self_right, Nat.mod_eq_of_lt ht]
  unfold slot start
  rw [L.chunk_div ht, hmod, Nat.mod_add_mod, Nat.add_assoc]

/-- The last element is the last filled place of the last chunk. -/
theorem filled_last {k : Nat} (hk : 0 < k) :
    L.filled k ((k - 1) / L.width) = (k - 1) % L.width + 1 := by
  have hdm := Nat.div_add_mod (k - 1) L.width
  rw [Nat.mul_comm] at hdm
  have := Nat.mod_lt (k - 1) L.width_pos
  unfold filled
  omega

theorem last_slot_mod (H r : Nat) {k : Nat} (hk : 0 < k)
    (h : L.start H r ((k - 1) / L.width) + L.filled k ((k - 1) / L.width) ≤ H) :
    L.slot r (k - 1) % H + 1 =
      L.start H r ((k - 1) / L.width) + L.filled k ((k - 1) / L.width) := by
  have hdm := Nat.div_add_mod (k - 1) L.width
  rw [Nat.mul_comm] at hdm
  have hslot := L.slot_chunk_mod H r ((k - 1) / L.width) (Nat.mod_lt (k - 1) L.width_pos)
  rw [hdm] at hslot
  rw [L.filled_last hk] at h ⊢
  rw [hslot, Nat.mod_eq_of_lt (by omega)]
  omega

section
variable {L} {H R k M : Nat} (hM : M < H)
include hM

/-- Elements below `M` do not wrap inside a chunk, so the whole filled part is below `M`. -/
theorem WrapsInto.filled_lt (h : L.WrapsInto H R k M) {r j : Nat} (hr : r < R) :
    ∀ t, t < L.filled k j → L.slot r (j * L.width + t) % H = L.start H r j + t ∧
      L.start H r j + t < M := by
  intro t
  induction t with
  | zero =>
    intro ht
    unfold filled at ht
    have hlt := h.lt r (j * L.width + 0) hr (by omega)
    rw [L.slot_chunk_mod H r j L.width_pos] at hlt ⊢
    have hs : (L.start H r j + 0) % H = L.start H r j + 0 := by
      unfold start
      exact Nat.mod_mod _ _
    rw [hs] at hlt ⊢
    exact ⟨rfl, hlt⟩
  | succ t ih =>
    intro ht
    have h1 := (ih (by omega)).2
    unfold filled at ht
    have hlt := h.lt r (j * L.width + (t + 1)) hr (by omega)
    rw [L.slot_chunk_mod H r j (by omega)] at hlt ⊢
    -- the place before is below `M < H`, so this one is below `H`
    rw [Nat.mod_eq_of_lt (by omega)] at hlt ⊢
    exact ⟨rfl, hlt⟩

theorem WrapsInto.apart (h : L.WrapsInto H R k M) : L.Apart H R k M := by
  refine ⟨fun r j hr hj => ?_, fun r j r' j' hr hr' hj hj' hne => ?_⟩
  · have hpos := L.filled_pos hj
    have := (h.filled_lt hM (j := j) hr (L.filled k j - 1) (by omega)).2
    omega
  · -- a common place of the two parts would be the slot of two elements
    apply Classical.byContradiction
    intro hover
    have hpos := L.filled_pos hj
    have hpos' := L.filled_pos hj'
    obtain ⟨t, t', ht, ht', heq⟩ : ∃ t t', t < L.filled k j ∧ t' < L.filled k j' ∧
        L.start H r j + t = L.start H r' j' + t' := by
      rcases Nat.le_total (L.start H r j) (L.start H r' j') with hle | hle
      · exact ⟨L.start H r' j' - L.start H r j, 0, by omega, hpos', by omega⟩
      · exact ⟨0, L.start H r j - L.start H r' j', hpos, by omega, by omega⟩
    have hslot : L.slot r (j * L.width + t) % H = L.slot r' (j' * L.width + t') % H := by
      rw [(h.filled_lt hM hr t ht).1, (h.filled_lt hM hr' t' ht').1, heq]
    unfold filled at ht ht'
    obtain ⟨rfl, hi⟩ := h.inj r _ r' _ hr hr' (by omega) (by omega) hslot
    have hj : j = j' := by
      rw [← L.chunk_div (j := j) (t := t) (by omega), hi, L.chunk_div (by omega)]
    exact hne (by rw [hj])

theorem Apart.wrapsInto (h : L.Apart H R k M) : L.WrapsInto H R k M := by
  -- element `i` is place `i % width` of chunk `i / width`, and that place is filled
  have key : ∀ r i, r < R → i < k →
      L.slot r i % H = L.start H r (i / L.width) + i % L.width ∧
      i / L.width * L.width < k ∧ i % L.width < L.filled k (i / L.width) := by
    intro r i hr hi
    have hdm := Nat.div_add_mod i L.width
    rw [Nat.mul_comm] at hdm
    have ht := Nat.mod_lt i L.width_pos
    have hfill : i % L.width < L.filled k (i / L.width) := by
      unfold filled
      omega
    have hend := h.end_le r (i / L.width) hr (by omega)
    refine ⟨?_, by omega, hfill⟩
    have hslot := L.slot_chunk_mod H r (i / L.width) ht
    rw [hdm] at hslot
    rw [hslot, Nat.mod_eq_of_lt (by omega)]
  refine ⟨fun r i hr hi => ?_, fun r i r' i' hr hr' hi hi' he => ?_⟩
  · obtain ⟨h1, h2, h3⟩ := key r i hr hi
    have := h.end_le r _ hr h2
    omega
  · obtain ⟨h1, h2, h3⟩ := key r i hr hi
    obtain ⟨h1', h2', h3'⟩ := key r' i' hr' hi'
    rw [h1, h1'] at he
    by_cases hlane : (r, i / L.width) = (r', i' / L.width)
    · obtain ⟨rfl, hj⟩ := Prod.mk.inj hlane
      rw [hj] at he
      refine ⟨rfl, ?_⟩
      rw [← Nat.div_add_mod i L.width, ← Nat.div_add_mod i' L.width, hj, Nat.add_left_cancel he]
    · have := h.apart r _ r' _ hr hr' h2 h2' hlane
      omega

/-- **Whole lanes decide.**  Elements stay below `M` and distinct modulo `H` iff
the filled parts of the lanes do. -/
theorem wrapsInto_iff_apart : L.WrapsInto H R k M ↔ L.Apart H R k M :=
  ⟨fun h => h.apart hM, fun h => h.wrapsInto hM⟩

end

end Lanes
