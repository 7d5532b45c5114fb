import Tailslayer.PairSamplesRun
import Tailslayer.Pool.Binary64
import Tailslayer.Pool.Quantiles

/-!
# Percentiles

Source: `examples/hedged_read.rs`, `compute_percentiles`.

The indices are computed with doubles, so for a million samples and `0.999` the
product is rounded three times.  It stays below the length and in order all
the same; only the two percentiles next to the maximum are guarded in the source,
and none would have to be.

A `none` is an index out of bounds.
-/

namespace Tailslayer

open Binary64 Quantiles

/-- `((len as f64) * q) as usize` -/
def quantileIndex (len : Nat) (q : ℚ) : Nat := ⌊round64 (round64 len * round64 q)⌋₊

structure Percentiles where
  min : Nat
  p50 : Nat
  p90 : Nat
  p95 : Nat
  p99 : Nat
  p999 : Nat
  p9999 : Nat
  max : Nat
  mean : ℚ
deriving DecidableEq, Repr

namespace Percentiles

def default : Percentiles where
  min := 0
  p50 := 0
  p90 := 0
  p95 := 0
  p99 := 0
  p999 := 0
  p9999 := 0
  max := 0
  mean := 0

/-- The eight numbers that are samples, smallest first. -/
def values (p : Percentiles) : List Nat :=
  [p.min, p.p50, p.p90, p.p95, p.p99, p.p999, p.p9999, p.max]

end Percentiles

/-- The percentiles, and `data` as it is left behind: sorted. -/
def computePercentiles (data : List Nat) : Option (List Nat × Percentiles) :=
  if data.isEmpty then some (data, .default)
  else
    let data := data.mergeSort (· ≤ ·)
    let len := data.length
    let sum := data.sum
    do
      let min ← data[0]?
      let p50 ← data[quantileIndex len (50 / 100)]?
      let p90 ← data[quantileIndex len (90 / 100)]?
      let p95 ← data[quantileIndex len (95 / 100)]?
      let p99 ← data[quantileIndex len (99 / 100)]?
      let p999 ← data[Nat.min (len - 1) (quantileIndex len (999 / 1000))]?
      let p9999 ← data[Nat.min (len - 1) (quantileIndex len (9999 / 10000))]?
      let max ← data[len - 1]?
      some (data,
        { min, p50, p90, p95, p99, p999, p9999, max
          mean := round64 (round64 sum / round64 len) })

/-! ## The indices -/

theorem quantileIndex_mono (len : Nat) {p q : ℚ} (hp : 0 ≤ p) (h : p ≤ q) :
    quantileIndex len p ≤ quantileIndex len q := by
  have hlen : 0 ≤ round64 (len : ℚ) := round64_nonneg (Nat.cast_nonneg len)
  apply Nat.floor_mono
  apply round64_mono
  · exact mul_nonneg hlen (round64_nonneg hp)
  · have hround := round64_mono hp h
    gcongr

/-- The three roundings together. -/
theorem quantile_product (len : Nat) {q : ℚ} (hq : 0 ≤ q) :
    |round64 (round64 len * round64 q) - len * q| ≤ len * q / 2 ^ 51 := by
  have hlen : (0 : ℚ) ≤ len := Nat.cast_nonneg len
  have hq' := round64_nonneg hq
  have hlen' := round64_nonneg hlen
  have hprod := mul_nonneg hlen' hq'
  have hexact := mul_nonneg hlen hq
  have hupper : round64 len * round64 q ≤ len * q * (1 + 1 / 2 ^ 53) ^ 2 := by
    calc round64 len * round64 q
        ≤ (len * (1 + 1 / 2 ^ 53)) * (q * (1 + 1 / 2 ^ 53)) := by
          gcongr
          · exact round64_le hlen
          · exact round64_le hq
      _ = len * q * (1 + 1 / 2 ^ 53) ^ 2 := by ring
  have hlower : len * q * (1 - 1 / 2 ^ 53) ^ 2 ≤ round64 len * round64 q := by
    calc len * q * (1 - 1 / 2 ^ 53) ^ 2
        = (len * (1 - 1 / 2 ^ 53)) * (q * (1 - 1 / 2 ^ 53)) := by ring
      _ ≤ round64 len * round64 q := by
          have hpos : (0 : ℚ) ≤ 1 - 1 / 2 ^ 53 := by norm_num
          gcongr
          · exact le_round64 hlen
          · exact le_round64 hq
  have hup := round64_le hprod
  have hlow := le_round64 hprod
  rw [abs_le]
  constructor
  · have h := mul_le_mul_of_nonneg_right hlower (show (0 : ℚ) ≤ 1 - 1 / 2 ^ 53 by norm_num)
    linarith
  · have h := mul_le_mul_of_nonneg_right hupper (show (0 : ℚ) ≤ 1 + 1 / 2 ^ 53 by norm_num)
    linarith

/-- No percentile is past the last sample. -/
theorem quantileIndex_lt {len : Nat} (hlen : 0 < len) {q : ℚ} (hq : 0 ≤ q)
    (h : q ≤ 9999 / 10000) : quantileIndex len q < len := by
  have hpos : (0 : ℚ) < len := by exact_mod_cast hlen
  have habs := (abs_le.mp (quantile_product len hq)).2
  have hprod : (len : ℚ) * q ≤ len * (9999 / 10000) := by gcongr
  have hnonneg : 0 ≤ round64 (round64 (len : ℚ) * round64 q) :=
    round64_nonneg (mul_nonneg (round64_nonneg hpos.le) (round64_nonneg hq))
  rw [quantileIndex, Nat.floor_lt hnonneg]
  linarith

theorem quantileIndex_le {len : Nat} {q : ℚ} (hq : 0 ≤ q) :
    (quantileIndex len q : ℚ) ≤ len * q * (1 + 1 / 2 ^ 51) := by
  have habs := (abs_le.mp (quantile_product len hq)).2
  have hnonneg : 0 ≤ round64 (round64 (len : ℚ) * round64 q) :=
    round64_nonneg (mul_nonneg (round64_nonneg (Nat.cast_nonneg len)) (round64_nonneg hq))
  have hfloor := Nat.floor_le hnonneg
  unfold quantileIndex
  linarith

theorem lt_quantileIndex {len : Nat} {q : ℚ} (hq : 0 ≤ q) :
    len * q * (1 - 1 / 2 ^ 51) < quantileIndex len q + 1 := by
  have habs := (abs_le.mp (quantile_product len hq)).1
  have hfloor := Nat.lt_floor_add_one (round64 (round64 (len : ℚ) * round64 q))
  unfold quantileIndex
  linarith

/-- Where the eight numbers are. -/
def quantileIndices (len : Nat) : List Nat :=
  [0, quantileIndex len (50 / 100), quantileIndex len (90 / 100), quantileIndex len (95 / 100),
    quantileIndex len (99 / 100), quantileIndex len (999 / 1000),
    quantileIndex len (9999 / 10000), len - 1]

theorem quantileIndices_lt {len : Nat} (hlen : 0 < len) : ∀ i ∈ quantileIndices len, i < len := by
  intro i hi
  simp only [quantileIndices, List.mem_cons, List.not_mem_nil, or_false] at hi
  rcases hi with rfl | rfl | rfl | rfl | rfl | rfl | rfl | rfl
  · exact hlen
  · exact quantileIndex_lt hlen (by norm_num) (by norm_num)
  · exact quantileIndex_lt hlen (by norm_num) (by norm_num)
  · exact quantileIndex_lt hlen (by norm_num) (by norm_num)
  · exact quantileIndex_lt hlen (by norm_num) (by norm_num)
  · exact quantileIndex_lt hlen (by norm_num) (by norm_num)
  · exact quantileIndex_lt hlen (by norm_num) (by norm_num)
  · omega

theorem quantileIndices_sorted {len : Nat} (hlen : 0 < len) :
    (quantileIndices len).Pairwise (· ≤ ·) := by
  have hlast : quantileIndex len (9999 / 10000) ≤ len - 1 := by
    have hlt := quantileIndex_lt hlen (q := 9999 / 10000) (by norm_num) (by norm_num)
    omega
  unfold quantileIndices
  rw [← List.isChain_iff_pairwise]
  refine .cons_cons (Nat.zero_le _) (.cons_cons ?_ (.cons_cons ?_ (.cons_cons ?_ (.cons_cons ?_
    (.cons_cons ?_ (.cons_cons hlast (.singleton _)))))))
  all_goals exact quantileIndex_mono len (by norm_num) (by norm_num)

/-! ## The percentiles -/

/-- Rounded as the index is, `v` has a share `q` of the samples below it. -/
structure Quantile (data : List Nat) (q : ℚ) (v : Nat) : Prop where
  mem : v ∈ data
  below : (data.countP (· < v) : ℚ) ≤ data.length * q * (1 + 1 / 2 ^ 51)
  up_to : data.length * q * (1 - 1 / 2 ^ 51) < data.countP (· ≤ v)

structure Percentiles.Of (p : Percentiles) (data : List Nat) : Prop where
  least : IsLeast {x | x ∈ data} p.min
  greatest : IsGreatest {x | x ∈ data} p.max
  ordered : p.values.Pairwise (· ≤ ·)
  quantiles : ∀ e ∈ [((50 / 100 : ℚ), p.p50), (90 / 100, p.p90), (95 / 100, p.p95),
    (99 / 100, p.p99), (999 / 1000, p.p999), (9999 / 10000, p.p9999)], Quantile data e.1 e.2
  mean : |p.mean - data.sum / data.length| ≤ data.sum / data.length / 2 ^ 51

/-- Entry `i` of the data in order. -/
def entry (data : List Nat) (i : Nat) : Nat := (data.mergeSort (· ≤ ·)).getD i 0

theorem entry_eq {data : List Nat} {i : Nat} (hi : i < data.length) :
    (data.mergeSort (· ≤ ·))[i]? = some (entry data i) := by
  have hlt : i < (data.mergeSort (· ≤ ·)).length := by
    rwa [List.length_mergeSort]
  rw [entry, List.getD_eq_getElem?_getD, List.getElem?_eq_getElem hlt, Option.getD_some]

theorem sorted_mergeSort (data : List Nat) : (data.mergeSort (· ≤ ·)).Pairwise (· ≤ ·) := by
  have hs : (data.mergeSort (· ≤ ·)).Pairwise fun x y : Nat => decide (x ≤ y) = true :=
    List.pairwise_mergeSort (by simpa using fun a b c => Nat.le_trans) (by simpa using Nat.le_total)
      data
  simpa using hs

theorem entry_mono {data : List Nat} {i j : Nat} (hj : j < data.length) (hij : i ≤ j) :
    entry data i ≤ entry data j := by
  obtain ⟨hi', hi⟩ := List.getElem?_eq_some_iff.mp (entry_eq (Nat.lt_of_le_of_lt hij hj))
  obtain ⟨hj', hj⟩ := List.getElem?_eq_some_iff.mp (entry_eq hj)
  rw [← hi, ← hj]
  exact sorted_le (sorted_mergeSort data) hj' hij

theorem entry_mem {data : List Nat} {i : Nat} (hi : i < data.length) : entry data i ∈ data :=
  (List.mergeSort_perm data _).mem_iff.mp (List.mem_of_getElem? (entry_eq hi))

theorem exists_entry {data : List Nat} {x : Nat} (hx : x ∈ data) :
    ∃ i, i < data.length ∧ entry data i = x := by
  have hx' := (List.mergeSort_perm data (· ≤ ·)).mem_iff.mpr hx
  obtain ⟨i, hi⟩ := List.mem_iff_getElem?.mp hx'
  have hlt := (List.getElem?_eq_some_iff.mp hi).1
  rw [List.length_mergeSort] at hlt
  rw [entry_eq hlt] at hi
  exact ⟨i, hlt, Option.some.inj hi⟩

/-- No index is out of bounds, and no guard does anything. -/
theorem computePercentiles_eq {data : List Nat} (hne : data ≠ []) :
    ∃ p, computePercentiles data = some (data.mergeSort (· ≤ ·), p) ∧
      p.values = (quantileIndices data.length).map (entry data) ∧
      p.mean = round64 (round64 data.sum / round64 data.length) := by
  have hlen : 0 < data.length := List.length_pos_iff.mpr hne
  have hempty : ¬ data.isEmpty := by simpa using hne
  have hget := fun i hi => entry_eq (quantileIndices_lt hlen i hi)
  have hclamp : ∀ q : ℚ, 0 ≤ q → q ≤ 9999 / 10000 →
      Nat.min (data.length - 1) (quantileIndex data.length q) = quantileIndex data.length q := by
    intro q hq h
    have hlt := quantileIndex_lt hlen hq h
    exact Nat.min_eq_right (by omega)
  have hsum : (data.mergeSort (· ≤ ·)).sum = data.sum := (List.mergeSort_perm data _).sum_eq
  simp only [quantileIndices, List.forall_mem_cons] at hget
  obtain ⟨h0, h50, h90, h95, h99, h999, h9999, h1, -⟩ := hget
  let at' := fun q => entry data (quantileIndex data.length q)
  refine ⟨⟨entry data 0, at' (50 / 100), at' (90 / 100), at' (95 / 100), at' (99 / 100),
    at' (999 / 1000), at' (9999 / 10000), entry data (data.length - 1),
    round64 (round64 data.sum / round64 data.length)⟩, ?_, rfl, rfl⟩
  simp only [computePercentiles, if_neg hempty, List.length_mergeSort, hsum,
    hclamp (999 / 1000) (by norm_num) (by norm_num),
    hclamp (9999 / 10000) (by norm_num) (by norm_num), h0, h50, h90, h95, h99, h999, h9999, h1]
  rfl

theorem quantile_entry {data : List Nat} (hne : data ≠ []) {q : ℚ} (hq : 0 ≤ q)
    (h : q ≤ 9999 / 10000) : Quantile data q (entry data (quantileIndex data.length q)) := by
  have hperm := List.mergeSort_perm data (· ≤ ·)
  have hlt := quantileIndex_lt (List.length_pos_iff.mpr hne) hq h
  obtain ⟨hi, he⟩ := List.getElem?_eq_some_iff.mp (entry_eq hlt)
  refine ⟨entry_mem hlt, ?_, ?_⟩
  · have hbelow := countP_lt_le (sorted_mergeSort data) hi
    rw [hperm.countP_eq, he] at hbelow
    refine le_trans ?_ (quantileIndex_le hq)
    exact_mod_cast hbelow
  · have habove := lt_countP_le (sorted_mergeSort data) hi
    rw [hperm.countP_eq, he] at habove
    refine (lt_quantileIndex hq).trans_le ?_
    exact_mod_cast habove

/-- The mean is rounded three times as well. -/
theorem mean_near {sum len : Nat} (hlen : 0 < len) :
    |round64 (round64 sum / round64 len) - (sum : ℚ) / len| ≤ (sum : ℚ) / len / 2 ^ 51 := by
  have hpos : (0 : ℚ) < len := by exact_mod_cast hlen
  have hsum : (0 : ℚ) ≤ sum := Nat.cast_nonneg sum
  have hdown : (0 : ℚ) < 1 - 1 / 2 ^ 53 := by norm_num
  have hlow := le_round64 hpos.le
  have hround : 0 < round64 (len : ℚ) := (mul_pos hpos hdown).trans_le hlow
  have hquot : 0 ≤ round64 (sum : ℚ) / round64 len := div_nonneg (round64_nonneg hsum) hround.le
  have hexact : 0 ≤ (sum : ℚ) / len := div_nonneg hsum hpos.le
  have hupper : round64 (sum : ℚ) / round64 len ≤
      sum / len * ((1 + 1 / 2 ^ 53) / (1 - 1 / 2 ^ 53)) := by
    calc round64 (sum : ℚ) / round64 len
        ≤ (sum * (1 + 1 / 2 ^ 53)) / (len * (1 - 1 / 2 ^ 53)) :=
          div_le_div₀ (by positivity) (round64_le hsum) (mul_pos hpos hdown) hlow
      _ = sum / len * ((1 + 1 / 2 ^ 53) / (1 - 1 / 2 ^ 53)) := mul_div_mul_comm _ _ _ _
  have hlower : sum / len * ((1 - 1 / 2 ^ 53) / (1 + 1 / 2 ^ 53)) ≤
      round64 (sum : ℚ) / round64 len := by
    calc (sum : ℚ) / len * ((1 - 1 / 2 ^ 53) / (1 + 1 / 2 ^ 53))
        = (sum * (1 - 1 / 2 ^ 53)) / (len * (1 + 1 / 2 ^ 53)) := (mul_div_mul_comm _ _ _ _).symm
      _ ≤ round64 (sum : ℚ) / round64 len :=
          div_le_div₀ (round64_nonneg hsum) (le_round64 hsum) hround (round64_le hpos.le)
  have hup := round64_le hquot
  have hdn := le_round64 hquot
  have hup' := mul_le_mul_of_nonneg_right hupper (show (0 : ℚ) ≤ 1 + 1 / 2 ^ 53 by norm_num)
  have hdn' := mul_le_mul_of_nonneg_right hlower hdown.le
  rw [abs_le]
  constructor
  · have hnum : (1 - 1 / 2 ^ 51 : ℚ) ≤
        (1 - 1 / 2 ^ 53) / (1 + 1 / 2 ^ 53) * (1 - 1 / 2 ^ 53) := by norm_num
    have hscale := mul_le_mul_of_nonneg_left hnum hexact
    linarith
  · have hnum : (1 + 1 / 2 ^ 53) / (1 - 1 / 2 ^ 53) * (1 + 1 / 2 ^ 53) ≤
        (1 + 1 / 2 ^ 51 : ℚ) := by norm_num
    have hscale := mul_le_mul_of_nonneg_left hnum hexact
    linarith

theorem computePercentiles_returns (data : List Nat) : ∃ sorted p,
    computePercentiles data = some (sorted, p) ∧ sorted.Perm data := by
  by_cases hne : data = []
  · subst hne
    exact ⟨[], .default, rfl, .refl _⟩
  · obtain ⟨p, hp, -⟩ := computePercentiles_eq hne
    exact ⟨_, p, hp, List.mergeSort_perm data _⟩

theorem Percentiles.of_compute {data sorted : List Nat} {p : Percentiles}
    (h : computePercentiles data = some (sorted, p)) (hne : data ≠ []) : p.Of data := by
  obtain ⟨p', hp, hvalues, hmean⟩ := computePercentiles_eq hne
  rw [h] at hp
  cases hp
  have hlen : 0 < data.length := List.length_pos_iff.mpr hne
  have hordered : p.values.Pairwise (· ≤ ·) := by
    rw [hvalues, List.pairwise_map]
    refine (quantileIndices_sorted hlen).imp_of_mem fun _ hj hij => ?_
    exact entry_mono (quantileIndices_lt hlen _ hj) hij
  simp only [Percentiles.values, quantileIndices, List.map_cons, List.map_nil,
    List.cons.injEq, and_true] at hvalues
  obtain ⟨hmin, h50, h90, h95, h99, h999, h9999, hmax⟩ := hvalues
  have hlast : data.length - 1 < data.length := by omega
  refine ⟨⟨?_, fun x hx => ?_⟩, ⟨?_, fun x hx => ?_⟩, hordered, ?_, hmean ▸ mean_near hlen⟩
  · rw [hmin]
    exact entry_mem hlen
  · obtain ⟨i, hi, rfl⟩ := exists_entry hx
    rw [hmin]
    exact entry_mono hi (Nat.zero_le i)
  · rw [hmax]
    exact entry_mem hlast
  · obtain ⟨i, hi, rfl⟩ := exists_entry hx
    rw [hmax]
    exact entry_mono hlast (by omega)
  · simp only [List.forall_mem_cons, h50, h90, h95, h99, h999, h9999]
    refine ⟨?_, ?_, ?_, ?_, ?_, ?_, by simp⟩
    all_goals exact quantile_entry hne (by norm_num) (by norm_num)

/-- Where fewer are above every threshold, every percentile is smaller. -/
theorem computePercentiles_le {data data' sorted sorted' : List Nat} {p p' : Percentiles}
    (h : computePercentiles data = some (sorted, p))
    (h' : computePercentiles data' = some (sorted', p')) (hlen : data.length = data'.length)
    (htails : ∀ v, tail data v ≤ tail data' v) :
    List.Forall₂ (· ≤ ·) p.values p'.values := by
  by_cases hne : data = []
  · subst hne
    obtain rfl := List.length_eq_zero_iff.mp hlen.symm
    rw [h] at h'
    cases h'
    exact List.forall₂_same.mpr fun _ _ => Nat.le_refl _
  · have hpos : 0 < data.length := List.length_pos_iff.mpr hne
    have hne' : data' ≠ [] := List.length_pos_iff.mp (hlen ▸ hpos)
    obtain ⟨q, hq, hvalues, -⟩ := computePercentiles_eq hne
    obtain ⟨q', hq', hvalues', -⟩ := computePercentiles_eq hne'
    rw [h] at hq
    cases hq
    rw [h'] at hq'
    cases hq'
    rw [hvalues, hvalues', ← hlen, List.forall₂_map_left_iff, List.forall₂_map_right_iff]
    refine List.forall₂_same.mpr fun i hi => ?_
    have hlt := quantileIndices_lt hpos i hi
    obtain ⟨hi₁, he₁⟩ := List.getElem?_eq_some_iff.mp (entry_eq hlt)
    obtain ⟨hi₂, he₂⟩ := List.getElem?_eq_some_iff.mp (entry_eq (hlen ▸ hlt))
    rw [← he₁, ← he₂]
    refine getElem_le_of_tails (sorted_mergeSort data) (sorted_mergeSort data') ?_ (fun v => ?_) hi₁
    · rw [List.length_mergeSort, List.length_mergeSort, hlen]
    · rw [tail_perm (List.mergeSort_perm data _), tail_perm (List.mergeSort_perm data' _)]
      exact htails v

end Tailslayer
