import Mathlib.Data.Set.Function
import Mathlib.Tactic.Ring

/-!
# Interleaved lanes in a flat row of slots

`Lanes` cuts a row of slots into chunks of `stride` slots; in each chunk lane
`r` owns the `width` slots from `r * width`.  A lane holds a sequence: its
`i`-th element is in slot `slot r i`, chunk `i / width`, place `i % width`.

* `Room n`: a chunk has room for `n` lanes.  Then different elements of the
  first `n` lanes never share a slot (`slot_inj`), and slots grow with the lane
  and strictly with the index (`slot_le`, `slot_lt`).
* `Tight n`: `n` lanes fill a chunk.  Then every slot belongs to one of them and
  `laneOf`, `indexOf` invert `slot` on both sides (`Tight.slot_bijOn`).
-/

structure Lanes where
  width : Nat
  stride : Nat
  width_pos : 0 < width

namespace Lanes

variable (L : Lanes)

/-- Slot of the `i`-th element of lane `r`. -/
def slot (r i : Nat) : Nat := r * L.width + (i / L.width * L.stride + i % L.width)

/-- `n` lanes fit in a chunk. -/
def Room (n : Nat) : Prop := n * L.width ≤ L.stride

/-- `n` lanes fill a chunk. -/
def Tight (n : Nat) : Prop := L.stride = n * L.width

/-- Lane of slot `p`, of `n` lanes. -/
def laneOf (n p : Nat) : Nat := p / L.width % n

/-- Index of slot `p` in its lane. -/
def indexOf (p : Nat) : Nat := p / L.stride * L.width + p % L.width

theorem slot_eq (r i : Nat) :
    L.slot r i = (r * L.width + i % L.width) + L.stride * (i / L.width) := by
  unfold slot
  rw [Nat.mul_comm L.stride]
  omega

theorem place_div_width (r i : Nat) : (r * L.width + i % L.width) / L.width = r := by
  rw [Nat.mul_comm, Nat.mul_add_div L.width_pos, Nat.mod_div_self, Nat.add_zero]

/-- The first chunk does not use the stride. -/
theorem slot_first_chunk (r : Nat) {i : Nat} (hi : i < L.width) : L.slot r i = r * L.width + i := by
  unfold slot
  rw [Nat.div_eq_of_lt hi, Nat.mod_eq_of_lt hi]
  omega

theorem slot_le_slot_lane {r r' : Nat} (hr : r ≤ r') (i : Nat) : L.slot r i ≤ L.slot r' i := by
  have := Nat.mul_le_mul_right L.width hr
  unfold slot
  omega

variable {L}

theorem Tight.room {n : Nat} (h : L.Tight n) : L.Room n := Nat.le_of_eq h.symm

/-! ## Slots are distinct -/

section
variable {n : Nat} (hroom : L.Room n)
include hroom

theorem Room.lane_end_le {r : Nat} (hr : r < n) : r * L.width + L.width ≤ L.stride := by
  have := Nat.mul_le_mul_right L.width (Nat.succ_le_of_lt hr)
  rw [Nat.succ_mul] at this
  exact Nat.le_trans this hroom

/-- Within its chunk, an element of lane `r` is before the chunk's end. -/
theorem Room.place_lt {r : Nat} (hr : r < n) (i : Nat) : r * L.width + i % L.width < L.stride := by
  have := hroom.lane_end_le hr
  have := Nat.mod_lt i L.width_pos
  omega

theorem Room.slot_div_stride {r : Nat} (hr : r < n) (i : Nat) :
    L.slot r i / L.stride = i / L.width := by
  have h := hroom.place_lt hr i
  rw [slot_eq, Nat.add_mul_div_left _ _ (by omega), Nat.div_eq_of_lt h, Nat.zero_add]

theorem Room.slot_mod_stride {r : Nat} (hr : r < n) (i : Nat) :
    L.slot r i % L.stride = r * L.width + i % L.width := by
  rw [slot_eq, Nat.add_mul_mod_self_left, Nat.mod_eq_of_lt (hroom.place_lt hr i)]

theorem Room.slot_inj {r r' i i' : Nat} (hr : r < n) (hr' : r' < n)
    (h : L.slot r i = L.slot r' i') : r = r' ∧ i = i' := by
  have hchunk : i / L.width = i' / L.width := by
    rw [← hroom.slot_div_stride hr i, ← hroom.slot_div_stride hr' i', h]
  have hplace : r * L.width + i % L.width = r' * L.width + i' % L.width := by
    rw [← hroom.slot_mod_stride hr i, ← hroom.slot_mod_stride hr' i', h]
  have hlane : r = r' := by
    rw [← L.place_div_width r i, ← L.place_div_width r' i', hplace]
  subst hlane
  have hoff : i % L.width = i' % L.width := Nat.add_left_cancel hplace
  refine ⟨rfl, ?_⟩
  rw [← Nat.div_add_mod i L.width, ← Nat.div_add_mod i' L.width, hchunk, hoff]

/-! ## Slots grow -/

theorem Room.slot_lt (hn : 0 < n) (r : Nat) {i i' : Nat} (h : i < i') :
    L.slot r i < L.slot r i' := by
  have hws := hroom.lane_end_le hn
  have hdiv : i / L.width ≤ i' / L.width := Nat.div_le_div_right (Nat.le_of_lt h)
  have h1 := Nat.div_add_mod i L.width
  have h2 := Nat.div_add_mod i' L.width
  have h3 := Nat.mod_lt i L.width_pos
  unfold slot
  rcases Nat.eq_or_lt_of_le hdiv with he | hlt
  · rw [he] at h1 ⊢
    omega
  · have hs := Nat.mul_le_mul_right L.stride (Nat.succ_le_of_lt hlt)
    rw [Nat.succ_mul] at hs
    omega

theorem Room.slot_le (hn : 0 < n) {r r' i i' : Nat} (hr : r ≤ r') (hi : i ≤ i') :
    L.slot r i ≤ L.slot r' i' := by
  have hlane := L.slot_le_slot_lane hr i
  rcases Nat.eq_or_lt_of_le hi with rfl | hlt
  · exact hlane
  · exact Nat.le_trans hlane (Nat.le_of_lt (hroom.slot_lt hn r' hlt))

end

/-! ## Tight lanes: every slot is decoded -/

section
variable {n : Nat} (hT : L.Tight n)
include hT

theorem Tight.div_mod (p : Nat) : p / L.width % n = p % L.stride / L.width := by
  rw [hT, Nat.mul_comm n, Nat.mod_mul_right_div_self]

theorem Tight.laneOf_slot {r : Nat} (hr : r < n) (i : Nat) : L.laneOf n (L.slot r i) = r := by
  unfold laneOf
  rw [hT.div_mod, hT.room.slot_mod_stride hr, L.place_div_width]

theorem Tight.slot_mod_width (r i : Nat) : L.slot r i % L.width = i % L.width := by
  have hS : i / L.width * L.stride = i / L.width * n * L.width := by
    rw [show L.stride = n * L.width from hT, Nat.mul_assoc]
  unfold slot
  rw [hS, ← Nat.add_assoc, ← Nat.add_mul, Nat.add_comm, Nat.add_mul_mod_self_right, Nat.mod_mod]

theorem Tight.indexOf_slot {r : Nat} (hr : r < n) (i : Nat) : L.indexOf (L.slot r i) = i := by
  unfold indexOf
  rw [hT.room.slot_div_stride hr, hT.slot_mod_width, Nat.mul_comm]
  exact Nat.div_add_mod i L.width

theorem Tight.slot_laneOf_indexOf (p : Nat) : L.slot (L.laneOf n p) (L.indexOf p) = p := by
  have hoff : p % L.stride % L.width = p % L.width := by
    rw [hT, Nat.mod_mul_left_mod]
  have h1 : L.indexOf p / L.width = p / L.stride := by
    unfold indexOf
    rw [Nat.mul_comm, Nat.mul_add_div L.width_pos, Nat.mod_div_self, Nat.add_zero]
  have h2 : L.indexOf p % L.width = p % L.width := by
    unfold indexOf
    rw [Nat.add_comm, Nat.add_mul_mod_self_right, Nat.mod_mod]
  have h3 : p % L.stride / L.width * L.width + p % L.width = p % L.stride := by
    rw [← hoff, Nat.mul_comm]
    exact Nat.div_add_mod _ _
  have h4 := Nat.div_add_mod p L.stride
  unfold slot laneOf
  rw [h1, h2, hT.div_mod, Nat.mul_comm (p / L.stride)]
  omega

/-- **Lanes are a bijection.**  The elements of the first `k` lanes fill exactly
the slots whose lane is one of them. -/
theorem Tight.slot_bijOn {k : Nat} (hk : k ≤ n) :
    Set.BijOn (fun e : Nat × Nat => L.slot e.1 e.2) {e | e.1 < k} {p | L.laneOf n p < k} := by
  refine ⟨?_, ?_, ?_⟩
  · rintro ⟨r, i⟩ (hr : r < k)
    show L.laneOf n (L.slot r i) < k
    rwa [hT.laneOf_slot (Nat.lt_of_lt_of_le hr hk)]
  · rintro ⟨r, i⟩ (hr : r < k) ⟨r', i'⟩ (hr' : r' < k) h
    obtain ⟨rfl, rfl⟩ :=
      hT.room.slot_inj (Nat.lt_of_lt_of_le hr hk) (Nat.lt_of_lt_of_le hr' hk) h
    rfl
  · intro p hp
    exact ⟨(L.laneOf n p, L.indexOf p), hp, hT.slot_laneOf_indexOf p⟩

/-- With units of `s` places to a slot, every place of an element of lane `r`
is in the lane's byte range: no element straddles two lanes. -/
theorem Tight.unit_lane {s : Nat} {r : Nat} (hr : r < n) (i : Nat) {b : Nat}
    (h1 : L.slot r i * s ≤ b) (h2 : b < L.slot r i * s + s) : b / (L.width * s) % n = r := by
  have hs : 0 < s := by omega
  have hb : b / s = L.slot r i := by
    refine Nat.div_eq_of_lt_le h1 ?_
    rw [Nat.succ_mul]
    exact h2
  rw [Nat.mul_comm, ← Nat.div_div_eq_div_mul, hb]
  exact hT.laneOf_slot hr i

end

end Lanes
