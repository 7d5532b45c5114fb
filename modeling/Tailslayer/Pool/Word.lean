import Mathlib.Tactic.Ring
import Mathlib.Tactic.Linarith

/-!
# Machine words: exact and wrapping unsigned arithmetic

`Arith` says how an unsigned operation treats its exact result: kept (`exact`)
or reduced modulo `2 ^ w` (`wrap w`, an unchecked machine word).  A program
written over an `Arith` is read both ways, and the two readings agree on every
expression whose exact value fits the word (`add_eq`, `mul_eq`).

`nextMultipleOf` is the rounding of an unsigned value to a multiple.
-/

namespace Word

/-- How the exact result of an unsigned operation becomes a word. -/
inductive Arith where
  | exact
  | wrap (w : Nat)
deriving DecidableEq, Repr

namespace Arith

def norm : Arith → Nat → Nat
  | .exact, n => n
  | .wrap w, n => n % 2 ^ w

def add (A : Arith) (a b : Nat) : Nat := A.norm (a + b)

def mul (A : Arith) (a b : Nat) : Nat := A.norm (a * b)

/-- `n` is a value the arithmetic represents. -/
def Fits : Arith → Nat → Prop
  | .exact, _ => True
  | .wrap w, n => n < 2 ^ w

instance : ∀ (A : Arith) (n : Nat), Decidable (A.Fits n)
  | .exact, _ => inferInstanceAs (Decidable True)
  | .wrap w, n => inferInstanceAs (Decidable (n < 2 ^ w))

@[simp] theorem norm_exact (n : Nat) : exact.norm n = n := rfl
@[simp] theorem add_exact (a b : Nat) : exact.add a b = a + b := rfl
@[simp] theorem mul_exact (a b : Nat) : exact.mul a b = a * b := rfl

theorem norm_eq {A : Arith} {n : Nat} (h : A.Fits n) : A.norm n = n := by
  cases A with
  | exact => rfl
  | wrap w => exact Nat.mod_eq_of_lt h

theorem add_eq {A : Arith} {a b : Nat} (h : A.Fits (a + b)) : A.add a b = a + b := norm_eq h

theorem mul_eq {A : Arith} {a b : Nat} (h : A.Fits (a * b)) : A.mul a b = a * b := norm_eq h

theorem Fits.mono {A : Arith} {m n : Nat} (h : A.Fits n) (hmn : m ≤ n) : A.Fits m := by
  cases A with
  | exact => trivial
  | wrap w => exact Nat.lt_of_le_of_lt hmn h

theorem norm_add_norm (A : Arith) (a b : Nat) : A.norm (A.norm a + A.norm b) = A.norm (a + b) := by
  cases A with
  | exact => rfl
  | wrap w => exact (Nat.add_mod a b _).symm

theorem norm_add_left (A : Arith) (a b : Nat) : A.norm (A.norm a + b) = A.norm (a + b) := by
  cases A with
  | exact => rfl
  | wrap w => exact Nat.mod_add_mod a _ b

theorem norm_mul_left (A : Arith) (a b : Nat) : A.norm (A.norm a * b) = A.norm (a * b) := by
  cases A with
  | exact => rfl
  | wrap w => exact Nat.mod_mul_mod a b _

end Arith

/-! ## Rounding up -/

/-- The least multiple of `rhs` that is at least `value`, if it is a word. -/
def nextMultipleOf (A : Arith) (value rhs : Nat) : Nat :=
  if value % rhs = 0 then value else A.add value (rhs - value % rhs)

theorem dvd_nextMultipleOf_exact (value rhs : Nat) (hr : 0 < rhs) :
    rhs ∣ nextMultipleOf .exact value rhs := by
  unfold nextMultipleOf
  split
  · next h => exact Nat.dvd_of_mod_eq_zero h
  · have hlt := Nat.mod_lt value hr
    have hdm := Nat.div_add_mod value rhs
    refine ⟨value / rhs + 1, ?_⟩
    rw [Arith.add_exact, Nat.mul_add]
    omega

theorem le_nextMultipleOf_exact (value rhs : Nat) : value ≤ nextMultipleOf .exact value rhs := by
  unfold nextMultipleOf
  split
  · exact Nat.le_refl _
  · rw [Arith.add_exact]; omega

theorem nextMultipleOf_exact_lt (value rhs : Nat) (hr : 0 < rhs) :
    nextMultipleOf .exact value rhs < value + rhs := by
  unfold nextMultipleOf
  split
  · omega
  · have hlt := Nat.mod_lt value hr
    rw [Arith.add_exact]; omega

theorem nextMultipleOf_norm (A : Arith) {value : Nat} (rhs : Nat) (hv : A.Fits value) :
    nextMultipleOf A value rhs = A.norm (nextMultipleOf .exact value rhs) := by
  unfold nextMultipleOf
  split
  · exact (Arith.norm_eq hv).symm
  · rfl

/-- Two multiples of `d`, the first below the second, are a whole `d` apart. -/
theorem add_le_of_dvd_of_lt {d m n : Nat} (hm : d ∣ m) (hn : d ∣ n) (h : m < n) : m + d ≤ n := by
  obtain ⟨a, rfl⟩ := hm
  obtain ⟨b, rfl⟩ := hn
  have hab : a + 1 ≤ b := Nat.lt_of_mul_lt_mul_left h
  have := Nat.mul_le_mul_left d hab
  rw [Nat.mul_add] at this
  omega

/-- Rounding a word to a divisor of `2 ^ w` is exact unless it wraps to zero. -/
theorem nextMultipleOf_wrap {w value rhs : Nat} (hr : 0 < rhs) (hd : rhs ∣ 2 ^ w)
    (hv : value < 2 ^ w) (h0 : nextMultipleOf (.wrap w) value rhs ≠ 0) :
    nextMultipleOf (.wrap w) value rhs = nextMultipleOf .exact value rhs ∧
      nextMultipleOf .exact value rhs + rhs ≤ 2 ^ w := by
  have hnorm := nextMultipleOf_norm (.wrap w) rhs hv
  have hdvd := dvd_nextMultipleOf_exact value rhs hr
  have hlt := nextMultipleOf_exact_lt value rhs hr
  generalize nextMultipleOf .exact value rhs = m at *
  rcases Nat.lt_trichotomy m (2 ^ w) with hm | hm | hm
  · exact ⟨hnorm.trans (Nat.mod_eq_of_lt hm), add_le_of_dvd_of_lt hdvd hd hm⟩
  · rw [hnorm, hm] at h0
    exact absurd (Nat.mod_self _) h0
  · have := add_le_of_dvd_of_lt hd hdvd hm
    omega

end Word
