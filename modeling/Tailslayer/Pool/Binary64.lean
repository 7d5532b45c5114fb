import Mathlib.Algebra.Order.Archimedean.Basic
import Mathlib.Algebra.Order.Field.Power
import Mathlib.Data.Int.Log
import Mathlib.Data.Rat.Floor
import Mathlib.Tactic.FieldSimp
import Mathlib.Tactic.Linarith
import Mathlib.Tactic.NormNum
import Mathlib.Tactic.Positivity
import Mathlib.Tactic.Ring

/-!
# Rounding to a double

`round64 q` is the double nearest to `q`, of two that are equally near the one with
the even significand: 53 bits, and an exponent without bounds, which is right between
`2 ^ -1022` and `2 ^ 1023`.  Every operation on doubles is the exact one and
then `round64`.

What rounding keeps is the order (`round64_mono`), and it moves a number by at most
one part in `2 ^ 53` (`abs_round64_sub_le`).
-/

namespace Binary64

/-! ## To the nearest integer -/

/-- Of two equally near the even one. -/
def roundEven (x : ℚ) : ℤ :=
  if x - ⌊x⌋ < 1 / 2 then ⌊x⌋
  else if 1 / 2 < x - ⌊x⌋ then ⌊x⌋ + 1
  else if ⌊x⌋ % 2 = 0 then ⌊x⌋
  else ⌊x⌋ + 1

theorem roundEven_cases (x : ℚ) :
    roundEven x = ⌊x⌋ ∧ x - ⌊x⌋ ≤ 1 / 2 ∨ roundEven x = ⌊x⌋ + 1 ∧ 1 / 2 ≤ x - ⌊x⌋ := by
  unfold roundEven
  split
  · next h => exact Or.inl ⟨rfl, h.le⟩
  · next h =>
    split
    · next h' => exact Or.inr ⟨rfl, h'.le⟩
    · next h' =>
      split
      · exact Or.inl ⟨rfl, not_lt.mp h'⟩
      · exact Or.inr ⟨rfl, not_lt.mp h⟩

theorem abs_roundEven_sub_le (x : ℚ) : |(roundEven x : ℚ) - x| ≤ 1 / 2 := by
  have hfloor := Int.floor_le x
  have hlt := Int.lt_floor_add_one x
  rw [abs_le]
  rcases roundEven_cases x with ⟨h, hx⟩ | ⟨h, hx⟩
  · rw [h]
    constructor
    · linarith
    · linarith
  · rw [h, Int.cast_add, Int.cast_one]
    constructor
    · linarith
    · linarith

theorem roundEven_intCast (z : ℤ) : roundEven z = z := by
  simp [roundEven]

theorem roundEven_mono {x y : ℚ} (h : x ≤ y) : roundEven x ≤ roundEven y := by
  have hle := Int.floor_mono h
  rcases Int.lt_or_eq_of_le hle with hlt | heq
  · rcases roundEven_cases x with ⟨hx, -⟩ | ⟨hx, -⟩
    · rcases roundEven_cases y with ⟨hy, -⟩ | ⟨hy, -⟩
      · omega
      · omega
    · rcases roundEven_cases y with ⟨hy, -⟩ | ⟨hy, -⟩
      · omega
      · omega
  · -- between the same two integers: only the fraction matters
    have hfrac : x - ⌊x⌋ ≤ y - ⌊y⌋ := by
      rw [heq]
      linarith
    unfold roundEven
    rw [heq] at hfrac ⊢
    split_ifs <;> first | omega | linarith

/-! ## To the nearest double -/

/-- The exponent of the last bit. -/
def exponent (q : ℚ) : ℤ := Int.log 2 q - 52

/-- One unit in the last place. -/
def ulp (q : ℚ) : ℚ := 2 ^ exponent q

def round64 (q : ℚ) : ℚ := roundEven (q / ulp q) * ulp q

theorem ulp_pos (q : ℚ) : 0 < ulp q := by
  unfold ulp
  positivity

theorem ulp_le {q : ℚ} (h : 0 < q) : ulp q * 2 ^ 52 ≤ q := by
  have hlog := Int.zpow_log_le_self (R := ℚ) one_lt_two h
  rw [ulp, exponent, zpow_sub₀ two_ne_zero]
  push_cast at hlog
  have hpow : (2 : ℚ) ^ (52 : ℤ) = 2 ^ 52 := by norm_num
  rw [hpow, div_mul_cancel₀]
  · exact hlog
  · norm_num

theorem lt_ulp_mul (q : ℚ) : q < ulp q * 2 ^ 53 := by
  have hlog := Int.lt_zpow_succ_log_self (R := ℚ) one_lt_two q
  have hpow : ulp q * 2 ^ 53 = 2 ^ (Int.log 2 q + 1) := by
    rw [ulp, exponent, show (2 : ℚ) ^ 53 = 2 ^ (53 : ℤ) by norm_num, ← zpow_add₀ two_ne_zero]
    congr 1
    ring
  rw [hpow]
  exact_mod_cast hlog

theorem round64_zero : round64 0 = 0 := by
  simp [round64, roundEven]

/-- Half a unit in the last place. -/
theorem abs_round64_sub_le_ulp (q : ℚ) : |round64 q - q| ≤ ulp q / 2 := by
  have hpos := ulp_pos q
  have hscale : round64 q - q = (roundEven (q / ulp q) - q / ulp q) * ulp q := by
    rw [round64, sub_mul, div_mul_cancel₀ q hpos.ne']
  rw [hscale, abs_mul, abs_of_pos hpos]
  have hhalf := abs_roundEven_sub_le (q / ulp q)
  calc |(roundEven (q / ulp q) : ℚ) - q / ulp q| * ulp q
      ≤ 1 / 2 * ulp q := by gcongr
    _ = ulp q / 2 := by ring

/-- **Rounding moves a number by one part in `2 ^ 53` at most.** -/
theorem abs_round64_sub_le {q : ℚ} (h : 0 ≤ q) : |round64 q - q| ≤ q / 2 ^ 53 := by
  rcases h.eq_or_lt with rfl | h
  · simp [round64_zero]
  · have hulp := ulp_le h
    refine (abs_round64_sub_le_ulp q).trans ?_
    rw [le_div_iff₀ (by positivity)]
    linarith

theorem round64_le {q : ℚ} (h : 0 ≤ q) : round64 q ≤ q * (1 + 1 / 2 ^ 53) := by
  have habs := (abs_le.mp (abs_round64_sub_le h)).2
  linarith

theorem le_round64 {q : ℚ} (h : 0 ≤ q) : q * (1 - 1 / 2 ^ 53) ≤ round64 q := by
  have habs := (abs_le.mp (abs_round64_sub_le h)).1
  linarith

theorem round64_nonneg {q : ℚ} (h : 0 ≤ q) : 0 ≤ round64 q := by
  refine le_trans ?_ (le_round64 h)
  apply mul_nonneg h
  norm_num

theorem round64_pos {q : ℚ} (h : 0 < q) : 0 < round64 q := by
  refine lt_of_lt_of_le ?_ (le_round64 h.le)
  apply mul_pos h
  norm_num

theorem ulp_mono {p q : ℚ} (hp : 0 < p) (h : p ≤ q) : exponent p ≤ exponent q := by
  have hlog := Int.log_mono_right (b := 2) hp h
  unfold exponent
  omega

/-- A rounded number does not leave the powers of two it lies between. -/
theorem round64_le_zpow (q : ℚ) : round64 q ≤ ulp q * 2 ^ 53 := by
  have hpos := ulp_pos q
  have hle : roundEven (q / ulp q) ≤ 2 ^ 53 := by
    have hlt : q / ulp q ≤ ((2 ^ 53 : ℤ) : ℚ) := by
      rw [div_le_iff₀ hpos]
      push_cast
      linarith [lt_ulp_mul q]
    have hmono := roundEven_mono hlt
    rwa [roundEven_intCast] at hmono
  have hcast : (roundEven (q / ulp q) : ℚ) ≤ 2 ^ 53 := by exact_mod_cast hle
  rw [round64, mul_comm]
  gcongr

theorem zpow_le_round64 {q : ℚ} (h : 0 < q) : ulp q * 2 ^ 52 ≤ round64 q := by
  have hpos := ulp_pos q
  have hle : 2 ^ 52 ≤ roundEven (q / ulp q) := by
    have hlt : ((2 ^ 52 : ℤ) : ℚ) ≤ q / ulp q := by
      rw [le_div_iff₀ hpos]
      push_cast
      linarith [ulp_le h]
    have hmono := roundEven_mono hlt
    rwa [roundEven_intCast] at hmono
  have hcast : (2 ^ 52 : ℚ) ≤ (roundEven (q / ulp q) : ℚ) := by exact_mod_cast hle
  rw [round64, mul_comm]
  gcongr

/-- **Rounding keeps the order.** -/
theorem round64_mono {p q : ℚ} (hp : 0 ≤ p) (h : p ≤ q) : round64 p ≤ round64 q := by
  rcases hp.eq_or_lt with rfl | hp
  · rw [round64_zero]
    exact round64_nonneg h
  · rcases Int.lt_or_eq_of_le (ulp_mono hp h) with hlt | heq
    · -- a power of two lies between them
      have hpow : ulp p * 2 ^ 53 ≤ ulp q * 2 ^ 52 := by
        have hexp : (2 : ℚ) ^ (exponent p + 1) ≤ 2 ^ exponent q :=
          zpow_le_zpow_right₀ one_le_two (by omega)
        rw [zpow_add₀ two_ne_zero, zpow_one] at hexp
        unfold ulp
        linarith
      exact (round64_le_zpow p).trans (hpow.trans (zpow_le_round64 (hp.trans_le h)))
    · have hulp : ulp p = ulp q := by rw [ulp, ulp, heq]
      have hpos := ulp_pos q
      have hdiv : p / ulp q ≤ q / ulp q := by gcongr
      have hcast : (roundEven (p / ulp q) : ℚ) ≤ roundEven (q / ulp q) := by
        exact_mod_cast roundEven_mono hdiv
      rw [round64, round64, hulp]
      gcongr

/-! ## What rounding cannot confuse -/

/-- Numbers that are further apart than one part in `2 ^ 53` of each stay in order. -/
theorem round64_lt_of_apart {p q : ℚ} (hp : 0 ≤ p) (hq : 0 ≤ q)
    (h : p * (1 + 1 / 2 ^ 53) < q * (1 - 1 / 2 ^ 53)) : round64 p < round64 q :=
  (round64_le hp).trans_lt (h.trans_le (le_round64 hq))

/-- **Small fractions are compared exactly.** -/
theorem round64_div_lt_iff {a b c d : ℕ} (hb : 0 < b) (hd : 0 < d) (h : a * d + c * b < 2 ^ 53) :
    round64 ((a : ℚ) / b) < round64 ((c : ℚ) / d) ↔ a * d < c * b := by
  have hb' : (0 : ℚ) < b := by exact_mod_cast hb
  have hd' : (0 : ℚ) < d := by exact_mod_cast hd
  constructor
  · intro hlt
    by_contra hle
    have hdiv : (c : ℚ) / d ≤ a / b := by
      rw [div_le_div_iff₀ hd' hb']
      exact_mod_cast not_lt.mp hle
    have hmono := round64_mono (by positivity) hdiv
    exact absurd hlt (not_lt.mpr hmono)
  · intro hlt
    have hgap : (a : ℚ) * d + 1 ≤ c * b := by exact_mod_cast hlt
    have hsum : (a : ℚ) * d + c * b < 2 ^ 53 := by exact_mod_cast h
    apply round64_lt_of_apart (by positivity) (by positivity)
    have hcross : (a : ℚ) * d * (1 + 1 / 2 ^ 53) < c * b * (1 - 1 / 2 ^ 53) := by
      have hscaled : ((a : ℚ) * d + c * b) / 2 ^ 53 < 1 := by
        rw [div_lt_one (by positivity)]
        exact hsum
      linarith
    rw [div_mul_eq_mul_div, div_mul_eq_mul_div, div_lt_div_iff₀ hb' hd']
    linarith

/-- A number of at most 53 bits is a double. -/
theorem round64_natCast {n : ℕ} (h : n < 2 ^ 53) : round64 n = n := by
  rcases Nat.eq_zero_or_pos n with rfl | hn
  · rw [Nat.cast_zero, round64_zero]
  · have hlog : Nat.log 2 n ≤ 52 := by
      have := Nat.log_lt_of_lt_pow hn.ne' h
      omega
    -- the last bit is not worth more than one
    have hulp : ulp (n : ℚ) * 2 ^ (52 - Nat.log 2 n) = 1 := by
      rw [ulp, exponent, Int.log_natCast, ← zpow_natCast, ← zpow_add₀ two_ne_zero,
        show (Nat.log 2 n : ℤ) - 52 + ((52 - Nat.log 2 n : ℕ) : ℤ) = 0 by omega, zpow_zero]
    have hdiv : (n : ℚ) / ulp n = ((n * 2 ^ (52 - Nat.log 2 n) : ℕ) : ℤ) := by
      rw [div_eq_iff (ulp_pos _).ne']
      push_cast
      rw [mul_assoc, mul_comm (2 ^ (52 - Nat.log 2 n) : ℚ), hulp, mul_one]
    rw [round64, hdiv, roundEven_intCast, ← hdiv, div_mul_cancel₀ _ (ulp_pos _).ne']

end Binary64
