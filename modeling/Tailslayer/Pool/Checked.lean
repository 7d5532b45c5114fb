import Mathlib.Data.Option.Basic
import Tailslayer.Pool.Word

/-!
# Checked words

Where overflow is checked, an operation stops the program if its exact result is
not a word of `w` bits.  A checked computation is an `Option`, and `none` is
that stop.  Sums and products only grow, so a checked expression of them is the
check of its exact value alone, whatever was computed on the way:

    (word w m).bind (add w · b) = word w (m + b)            (word_bind_add)
    0 < b  →  (word w m).bind (mul w · b) = word w (m * b)  (word_bind_mul)

and where it goes through, exact and wrapping arithmetic are one
(`mul_eq_wrap`, `nextMultipleOf_eq_wrap`).
-/

namespace Checked

open Word

/-- The exact result `n`, if it is a word. -/
def word (w n : Nat) : Option Nat := if n < 2 ^ w then some n else none

def add (w a b : Nat) : Option Nat := word w (a + b)

def mul (w a b : Nat) : Option Nat := word w (a * b)

def sub (a b : Nat) : Option Nat := if b ≤ a then some (a - b) else none

def nextMultipleOf (w value rhs : Nat) : Option Nat :=
  if value % rhs = 0 then some value else add w value (rhs - value % rhs)

variable {w m n a b : Nat}

theorem word_of_lt (h : n < 2 ^ w) : word w n = some n := if_pos h

theorem word_of_le (h : 2 ^ w ≤ n) : word w n = none := if_neg (Nat.not_lt_of_le h)

@[simp] theorem word_eq_some_iff : word w n = some m ↔ n < 2 ^ w ∧ m = n := by
  unfold word
  by_cases h : n < 2 ^ w
  · rw [if_pos h, Option.some_inj]
    exact ⟨fun he => ⟨h, he.symm⟩, fun he => he.2.symm⟩
  · rw [if_neg h]
    exact ⟨fun he => (by cases he), fun he => absurd he.1 h⟩

@[simp] theorem word_eq_none_iff : word w n = none ↔ 2 ^ w ≤ n := by
  rcases Nat.lt_or_ge n (2 ^ w) with h | h
  · rw [word_of_lt h]
    exact ⟨fun he => (by cases he), fun he => absurd h (Nat.not_lt_of_le he)⟩
  · exact ⟨fun _ => h, word_of_le⟩

theorem sub_of_le (h : b ≤ a) : sub a b = some (a - b) := if_pos h

/-! ## A check of the last value is a check of all -/

/-- What comes after `m` is at least `m`, so that checking it is enough. -/
theorem word_bind {f : Nat → Option Nat} (hf : m < 2 ^ w → f m = word w n) (hmn : m ≤ n) :
    (word w m).bind f = word w n := by
  rcases Nat.lt_or_ge m (2 ^ w) with h | h
  · rw [word_of_lt h]
    exact hf h
  · rw [word_of_le h, word_of_le (Nat.le_trans h hmn)]
    rfl

theorem word_bind_add (w m b : Nat) : ((word w m).bind fun x => add w x b) = word w (m + b) :=
  word_bind (fun _ => rfl) (Nat.le_add_right m b)

theorem word_bind_add_left (w a m : Nat) :
    ((word w m).bind fun x => add w a x) = word w (a + m) :=
  word_bind (fun _ => rfl) (Nat.le_add_left m a)

theorem word_bind_mul (w m : Nat) (hb : 0 < b) :
    ((word w m).bind fun x => mul w x b) = word w (m * b) :=
  word_bind (fun _ => rfl) (Nat.le_mul_of_pos_right m hb)

theorem word_bind_nextMultipleOf (w m rhs : Nat) :
    ((word w m).bind fun x => nextMultipleOf w x rhs) =
      word w (Word.nextMultipleOf .exact m rhs) := by
  refine word_bind (fun hm => ?_) (le_nextMultipleOf_exact m rhs)
  unfold nextMultipleOf Word.nextMultipleOf
  split
  · exact (word_of_lt hm).symm
  · rfl

/-! ## A value that passes is the wrapped one -/

theorem mul_eq_wrap (h : a * b < 2 ^ w) : (Arith.wrap w).mul a b = a * b := Arith.mul_eq h

theorem nextMultipleOf_eq_wrap {value rhs : Nat}
    (h : Word.nextMultipleOf .exact value rhs < 2 ^ w) :
    Word.nextMultipleOf (.wrap w) value rhs = Word.nextMultipleOf .exact value rhs := by
  have hle := le_nextMultipleOf_exact value rhs
  rw [nextMultipleOf_norm (.wrap w) rhs (show value < 2 ^ w by omega)]
  exact Arith.norm_eq h

end Checked
