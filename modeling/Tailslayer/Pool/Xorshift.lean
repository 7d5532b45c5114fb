import Mathlib.Logic.Function.Basic

/-!
# Xorshift generators

Both shifts of a xorshift step can be undone, bit by bit from the end that was not
overwritten.  So a step is injective, and a state that is not zero never becomes zero.
-/

namespace Xorshift

variable {w : Nat}

theorem xor_shiftLeft_injective {k : Nat} (hk : 0 < k) :
    Function.Injective fun x : BitVec w => x ^^^ x <<< k := by
  intro x y h
  apply BitVec.eq_of_getLsbD_eq
  intro i hi
  -- bit `i` of the shifted word is a lower bit of the word itself
  induction i using Nat.strongRecOn with
  | _ i ih =>
    have hbit := congrArg (·.getLsbD i) h
    simp only [BitVec.getLsbD_xor, BitVec.getLsbD_shiftLeft, hi, decide_true, Bool.true_and]
      at hbit
    by_cases hik : i < k
    · simpa [hik] using hbit
    · have hlow := ih (i - k) (by omega) (by omega)
      rw [hlow] at hbit
      exact Bool.xor_left_inj.mp hbit

theorem xor_ushiftRight_injective {k : Nat} (hk : 0 < k) :
    Function.Injective fun x : BitVec w => x ^^^ x >>> k := by
  intro x y h
  apply BitVec.eq_of_getLsbD_eq
  intro i hi
  -- the other way round, from the highest bit down
  obtain ⟨d, hd⟩ : ∃ d, d = w - i := ⟨_, rfl⟩
  induction d using Nat.strongRecOn generalizing i with
  | _ d ih =>
    have hbit := congrArg (·.getLsbD i) h
    simp only [BitVec.getLsbD_xor, BitVec.getLsbD_ushiftRight] at hbit
    have hhigh : x.getLsbD (k + i) = y.getLsbD (k + i) := by
      by_cases hki : k + i < w
      · exact ih (w - (k + i)) (by omega) (k + i) hki rfl
      · rw [BitVec.getLsbD_of_ge x _ (by omega), BitVec.getLsbD_of_ge y _ (by omega)]
    rw [hhigh] at hbit
    exact Bool.xor_left_inj.mp hbit

def next (a b c : Nat) (x : BitVec w) : BitVec w :=
  let x := x ^^^ x <<< a
  let x := x ^^^ x >>> b
  x ^^^ x <<< c

section
variable {a b c : Nat} (ha : 0 < a) (hb : 0 < b) (hc : 0 < c)
include ha hb hc

theorem next_injective : Function.Injective (next a b c : BitVec w → BitVec w) :=
  (xor_shiftLeft_injective hc).comp
    ((xor_ushiftRight_injective hb).comp (xor_shiftLeft_injective ha))

/-- **A generator never gets stuck at zero.** -/
theorem next_ne_zero {x : BitVec w} (hx : x ≠ 0) : next a b c x ≠ 0 := by
  intro h
  have hzero : next a b c (0 : BitVec w) = 0 := by
    simp [next]
  exact hx (next_injective ha hb hc (h.trans hzero.symm))

end

end Xorshift
