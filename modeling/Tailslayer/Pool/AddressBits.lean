import Mathlib.Data.Nat.ModEq

/-!
# Bits of addresses placed in aligned blocks

An address space cut into pages of `2 ^ q`, each page `h` backed by the
addresses from `block h` on (`place`).  If the blocks are aligned like the
pages, bits below `q` are those of the address itself (`place_testBit_low`)
and bits from `q` on those of its page's block (`place_testBit_high`).

`testBit_ne_add_iff`: adding `y`, whose bit `b` is set, flips bit `b` of `x`
unless the bits below carry into it.
-/

namespace AddressBits

/-! ## Bits of a sum -/

theorem testBit_eq_of_div_eq {x y b : Nat} (h : x / 2 ^ b = y / 2 ^ b) :
    x.testBit b = y.testBit b := by
  rw [Nat.testBit_eq_decide_div_mod_eq, Nat.testBit_eq_decide_div_mod_eq, h]

/-- Adding `y` with bit `b` set flips that bit of `x` iff nothing carries into it. -/
theorem testBit_ne_add_iff {x y b : Nat} (hy : y.testBit b = true) :
    x.testBit b ≠ (x + y).testBit b ↔ x % 2 ^ b + y % 2 ^ b < 2 ^ b := by
  have hpos := Nat.two_pow_pos b
  rw [Nat.testBit_eq_decide_div_mod_eq, decide_eq_true_eq] at hy
  simp only [Nat.testBit_eq_decide_div_mod_eq, ne_eq, decide_eq_decide]
  rw [Nat.add_div hpos]
  split <;> omega

/-- Bits below an alignment do not see what is aligned. -/
theorem testBit_aligned_add {m b q : Nat} (hm : 2 ^ q ∣ m) (hb : b < q) (y : Nat) :
    (m + y).testBit b = y.testBit b := by
  have hmod : (m + y) % 2 ^ q = y % 2 ^ q := by
    rw [Nat.add_mod, Nat.mod_eq_zero_of_dvd hm, Nat.zero_add, Nat.mod_mod]
  have h1 := Nat.testBit_mod_two_pow (m + y) q b
  have h2 := Nat.testBit_mod_two_pow y q b
  rw [hmod, h2] at h1
  simpa [hb] using h1.symm

/-- Bits from an alignment on do not see what is below it. -/
theorem testBit_add_lt {m t b q : Nat} (hm : 2 ^ q ∣ m) (ht : t < 2 ^ q) (hb : q ≤ b) :
    (m + t).testBit b = m.testBit b := by
  obtain ⟨a, rfl⟩ := hm
  refine testBit_eq_of_div_eq ?_
  have hpow : 2 ^ b = 2 ^ q * 2 ^ (b - q) := by
    rw [← Nat.pow_add]
    congr 1
    omega
  rw [hpow, ← Nat.div_div_eq_div_mul, ← Nat.div_div_eq_div_mul,
    Nat.mul_add_div (Nat.two_pow_pos q), Nat.div_eq_of_lt ht, Nat.add_zero,
    Nat.mul_div_cancel_left _ (Nat.two_pow_pos q)]

/-! ## Placed addresses -/

section
variable {q : Nat} {block : Nat → Nat}

/-- Where the address `va` is, its page backed from `block` on. -/
def place (q : Nat) (block : Nat → Nat) (va : Nat) : Nat := block (va / 2 ^ q) + va % 2 ^ q

variable (hblock : ∀ h, 2 ^ q ∣ block h)
include hblock

theorem place_testBit_low {b : Nat} (hb : b < q) (va : Nat) :
    (place q block va).testBit b = va.testBit b := by
  unfold place
  rw [testBit_aligned_add (hblock _) hb, Nat.testBit_mod_two_pow]
  simp [hb]

theorem place_testBit_high {b : Nat} (hb : q ≤ b) (va : Nat) :
    (place q block va).testBit b = (block (va / 2 ^ q)).testBit b :=
  testBit_add_lt (hblock _) (Nat.mod_lt _ (Nat.two_pow_pos q)) hb

end

/-- The page of an offset from an aligned address, in a space of `2 ^ w`, is the
page of the offset from there. -/
theorem div_wrapped_aligned_add {m q w : Nat} (hm : 2 ^ q ∣ m) (hq : q ≤ w) (y : Nat) :
    (m + y) % 2 ^ w / 2 ^ q = (m / 2 ^ q + y / 2 ^ q) % 2 ^ (w - q) := by
  have hpow : 2 ^ w = 2 ^ q * 2 ^ (w - q) := by
    rw [← Nat.pow_add]
    congr 1
    omega
  obtain ⟨a, rfl⟩ := hm
  rw [hpow, Nat.mod_mul_right_div_self, Nat.mul_add_div (Nat.two_pow_pos q),
    Nat.mul_div_cancel_left _ (Nat.two_pow_pos q)]

end AddressBits
