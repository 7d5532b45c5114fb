import Tailslayer.Percentiles
import Tailslayer.Pool.Lists
import Tailslayer.TrefiProbe

/-!
# What the probe of the refresh interval finds

The threshold is above the median of the calibration, the spikes are the slow
probes in their order, and the intervals between them are exact.  Which
verdict they get is a question of whole numbers (`verdict_iff`): no rounding of the shares
can change it, and the bands around one, two and three intervals never overlap.
-/

namespace Tailslayer

open Binary64 Quantiles

namespace Trefi

/-! ## Calibration -/

/-- The percentiles are the ones of the benchmark, but of empty data there are none. -/
theorem computePercentiles_eq {data : List Nat} (hne : data ≠ []) :
    ∃ p, Tailslayer.computePercentiles data = some (data.mergeSort (· ≤ ·), p) ∧
      p.p50 = entry data (quantileIndex data.length (50 / 100)) ∧
      computePercentiles data =
        some (data.mergeSort (· ≤ ·), ⟨p.p50, p.p90, p.p99, p.p999, p.p9999⟩) := by
  obtain ⟨p, hp, hvalues, -⟩ := Tailslayer.computePercentiles_eq hne
  simp only [Percentiles.values, quantileIndices, List.map_cons, List.map_nil,
    List.cons.injEq, and_true] at hvalues
  refine ⟨p, hp, hvalues.2.1, ?_⟩
  have hempty : ¬ data.isEmpty := by simpa using hne
  simp only [Tailslayer.computePercentiles, if_neg hempty, Option.bind_eq_bind,
    Option.bind_eq_some_iff] at hp
  obtain ⟨_, -, p50, h50, p90, h90, _, -, p99, h99, p999, h999, p9999, h9999, _, -, hp⟩ := hp
  cases hp
  simp only [computePercentiles, h50, h90, h99, h999, h9999]
  rfl

theorem computePercentiles_nil : computePercentiles [] = none := by
  simp [computePercentiles]

theorem le_threshold {multiplier : ℚ} {p50 : Nat} (hmultiplier : 1 ≤ multiplier)
    (hp50 : p50 < 2 ^ 53) : p50 ≤ threshold 0 multiplier p50 := by
  have hnonneg : (0 : ℚ) ≤ p50 := Nat.cast_nonneg p50
  have hround : (p50 : ℚ) ≤ round64 (multiplier * round64 p50) := by
    rw [round64_natCast hp50]
    calc (p50 : ℚ) = round64 p50 := (round64_natCast hp50).symm
      _ ≤ round64 (multiplier * p50) := by
        apply round64_mono hnonneg
        exact le_mul_of_one_le_left hnonneg hmultiplier
  have hfloor : p50 ≤ ⌊round64 (multiplier * round64 p50)⌋₊ := Nat.le_floor hround
  have hfits : p50 ≤ 2 ^ 64 - 1 := by omega
  rw [threshold, if_neg (Nat.lt_irrefl 0)]
  exact Nat.le_min.mpr ⟨hfits, hfloor⟩

theorem tail_median {data : List Nat} (hne : data ≠ []) (hlen : data.length < 2 ^ 51) :
    2 * tail data (entry data (quantileIndex data.length (50 / 100))) ≤ data.length := by
  have hlt := quantileIndex_lt (List.length_pos_iff.mpr hne) (q := 50 / 100) (by norm_num)
    (by norm_num)
  obtain ⟨hi, he⟩ := List.getElem?_eq_some_iff.mp (entry_eq hlt)
  have htail := tail_getElem_lt (sorted_mergeSort data) hi
  rw [he, tail_perm (List.mergeSort_perm data _), List.length_mergeSort] at htail
  have hindex : data.length ≤ 2 * (quantileIndex data.length (50 / 100) + 1) := by
    have hbound := @lt_quantileIndex data.length (50 / 100) (by norm_num)
    have hsmall : (data.length : ℚ) < 2 ^ 51 := by exact_mod_cast hlen
    have hnear : (data.length : ℚ) < 2 * (quantileIndex data.length (50 / 100) + 1) + 1 := by
      linarith
    have hnat : data.length < 2 * (quantileIndex data.length (50 / 100) + 1) + 1 := by
      exact_mod_cast hnear
    omega
  omega

/-- **The calibration sets the threshold above half of its reads.**  Its percentiles
exist unless there is no data, and are percentiles of it; with no threshold
given and a multiplier of one or more, at most half of the reads are over the threshold. -/
theorem calibration_spec (calibration : List Nat) :
    (computePercentiles calibration = none ↔ calibration = []) ∧
    ∀ sorted p, computePercentiles calibration = some (sorted, p) →
      sorted.Perm calibration ∧ sorted.Pairwise (· ≤ ·) ∧
      [p.p50, p.p90, p.p99, p.p999, p.p9999].Pairwise (· ≤ ·) ∧
      (∀ e ∈ [((50 / 100 : ℚ), p.p50), (90 / 100, p.p90), (99 / 100, p.p99),
        (999 / 1000, p.p999), (9999 / 10000, p.p9999)], Quantile calibration e.1 e.2) ∧
      ∀ multiplier, 1 ≤ multiplier → p.p50 < 2 ^ 53 → calibration.length < 2 ^ 51 →
        2 * calibration.countP (threshold 0 multiplier p.p50 < ·) ≤ calibration.length := by
  by_cases hne : calibration = []
  · subst hne
    refine ⟨⟨fun _ => rfl, fun _ => computePercentiles_nil⟩, fun sorted p h => ?_⟩
    rw [computePercentiles_nil] at h
    cases h
  · obtain ⟨q, hq, hmedian, heq⟩ := computePercentiles_eq hne
    have hof := Tailslayer.Percentiles.of_compute hq hne
    rw [heq]
    refine ⟨⟨fun h => absurd h (Option.some_ne_none _), fun h => absurd h hne⟩, ?_⟩
    intro sorted p h
    cases h
    refine ⟨List.mergeSort_perm calibration _, sorted_mergeSort calibration, ?_, ?_, ?_⟩
    · refine List.Pairwise.sublist ?_ hof.ordered
      exact .cons _ (.cons_cons _ (.cons_cons _ (.cons _ (.cons_cons _ (.cons_cons _
        (.cons_cons _ (.cons _ .slnil)))))))
    · have hquantiles := hof.quantiles
      simp only [List.forall_mem_cons] at hquantiles ⊢
      tauto
    · intro multiplier hmultiplier hp50 hlen
      change 2 * calibration.countP (threshold 0 multiplier q.p50 < ·) ≤ calibration.length
      have hover : calibration.countP (threshold 0 multiplier q.p50 < ·) ≤
          tail calibration q.p50 := by
        apply List.countP_mono_left
        intro x _ hx
        have hle := le_threshold hmultiplier hp50
        simp only [decide_eq_true_eq] at hx ⊢
        exact Nat.lt_of_le_of_lt hle hx
      have hhalf := tail_median hne hlen
      rw [← hmedian] at hhalf
      omega

/-! ## Spikes -/

theorem collect_eq (threshold : Nat) (probes : List Probe) : collect threshold probes =
    ((probes.filter (threshold < ·.latency)).take maxSpikes).map Probe.spike := by
  have hfold := Lists.foldl_append_bounded (fun probe : Probe => threshold < probe.latency)
    Probe.spike maxSpikes probes []
  exact hfold

theorem length_collect_le (threshold : Nat) (probes : List Probe) :
    (collect threshold probes).length ≤ maxSpikes := by
  rw [collect_eq, List.length_map, List.length_take]
  exact Nat.min_le_left ..

theorem cycles_eq {t0 t1 : Nat} (hle : t0 ≤ t1) (hlt : t1 < t0 + 2 ^ 53) :
    cycles t0 t1 = t1 - t0 := by
  have hadd : t1 + 2 ^ 64 - t0 = t1 - t0 + 2 ^ 64 := by omega
  rw [cycles, hadd, Nat.add_mod_right, Nat.mod_eq_of_lt]
  omega

theorem length_intervals (spikes : List Spike) :
    (intervals spikes).length = spikes.length - 1 := by
  rw [intervals, List.length_map, List.length_zip, List.length_tail]
  omega

/-- In the order of the counter, which has moved less than `2 ^ 53`. -/
structure InOrder (spikes : List Spike) : Prop where
  ordered : spikes.Pairwise (·.tsc ≤ ·.tsc)
  close : ∀ a ∈ spikes, ∀ b ∈ spikes, b.tsc < a.tsc + 2 ^ 53

theorem InOrder.tail {a : Spike} {spikes : List Spike} (h : InOrder (a :: spikes)) :
    InOrder spikes where
  ordered := h.ordered.tail
  close := fun b hb c hc =>
    h.close b (List.mem_cons_of_mem a hb) c (List.mem_cons_of_mem a hc)

/-- An interval is the exact time between its spikes. -/
theorem InOrder.interval {a b : Spike} {spikes : List Spike} (h : InOrder (a :: b :: spikes)) :
    round64 (cycles a.tsc b.tsc) = (b.tsc : ℚ) - a.tsc := by
  have hb : b ∈ a :: b :: spikes := List.mem_cons_of_mem a (List.mem_cons_self ..)
  have hle := List.rel_of_pairwise_cons h.ordered (List.mem_cons_self ..)
  have hlt := h.close a (List.mem_cons_self ..) b hb
  rw [cycles_eq hle hlt, round64_natCast (by omega), Nat.cast_sub hle]

theorem InOrder.getElem?_intervals : ∀ {spikes : List Spike}, InOrder spikes → ∀ {i : Nat}
    {a b : Spike}, spikes[i]? = some a → spikes[i + 1]? = some b →
      (intervals spikes)[i]? = some ((b.tsc : ℚ) - a.tsc) := by
  intro spikes
  induction spikes with
  | nil =>
    intro _ i a b ha
    simp at ha
  | cons first rest ih =>
    intro h i a b ha hb
    cases rest with
    | nil => simp at hb
    | cons second rest =>
      cases i with
      | zero =>
        cases ha
        cases hb
        rw [← h.interval]
        rfl
      | succ i => exact ih h.tail ha hb

theorem InOrder.sum_intervals {first : Spike} : ∀ {spikes : List Spike},
    InOrder (first :: spikes) → ∀ {last : Spike}, (first :: spikes).getLast? = some last →
      (intervals (first :: spikes)).sum = (last.tsc : ℚ) - first.tsc := by
  intro spikes
  induction spikes generalizing first with
  | nil =>
    intro _ last hlast
    cases hlast
    simp [intervals]
  | cons second rest ih =>
    intro h last hlast
    have hrest := ih h.tail hlast
    have hcons : intervals (first :: second :: rest) =
        round64 (cycles first.tsc second.tsc) :: intervals (second :: rest) := rfl
    rw [hcons, List.sum_cons, hrest, h.interval]
    ring

theorem inOrder_collect {threshold : Nat} {probes : List Probe}
    (hordered : probes.Pairwise (·.t0 ≤ ·.t0))
    (hclose : ∀ p ∈ probes, ∀ q ∈ probes, q.t0 < p.t0 + 2 ^ 53) :
    InOrder (collect threshold probes) := by
  have hsub : ((probes.filter (threshold < ·.latency)).take maxSpikes).Sublist probes :=
    (List.take_sublist ..).trans List.filter_sublist
  rw [collect_eq]
  constructor
  · rw [List.pairwise_map]
    exact hordered.sublist hsub
  · intro a ha b hb
    obtain ⟨p, hp, rfl⟩ := List.mem_map.mp ha
    obtain ⟨q, hq, rfl⟩ := List.mem_map.mp hb
    exact hclose p (hsub.subset hp) q (hsub.subset hq)

/-- **The spikes are the slow probes.**  They are the first two million of the probes
over the threshold, in their order; where the counter goes up, by less than `2 ^ 53`
in all, the intervals are the exact times between neighbours and add up
to the time between the first spike and the last. -/
theorem spikes_spec (threshold : Nat) (probes : List Probe) :
    collect threshold probes =
      ((probes.filter (threshold < ·.latency)).take maxSpikes).map Probe.spike ∧
    (probes.Pairwise (·.t0 ≤ ·.t0) → (∀ p ∈ probes, ∀ q ∈ probes, q.t0 < p.t0 + 2 ^ 53) →
      (intervals (collect threshold probes)).length = (collect threshold probes).length - 1 ∧
      (∀ i a b, (collect threshold probes)[i]? = some a →
        (collect threshold probes)[i + 1]? = some b →
          (intervals (collect threshold probes))[i]? = some ((b.tsc : ℚ) - a.tsc)) ∧
      ∀ first last, (collect threshold probes).head? = some first →
        (collect threshold probes).getLast? = some last →
          (intervals (collect threshold probes)).sum = (last.tsc : ℚ) - first.tsc) := by
  refine ⟨collect_eq threshold probes, fun hordered hclose => ?_⟩
  have horder := @inOrder_collect threshold probes hordered hclose
  refine ⟨length_intervals _, fun i a b ha hb => horder.getElem?_intervals ha hb, ?_⟩
  intro first last hfirst hlast
  obtain ⟨rest, hrest⟩ := List.head?_eq_some_iff.mp hfirst
  rw [hrest] at horder hlast ⊢
  exact horder.sum_intervals hlast

/-! ## Bands -/

/-- An edge of a band is rounded twice. -/
theorem edge_near {expected a : ℚ} (he : 0 ≤ expected) (ha : 0 ≤ a) :
    |round64 (expected * round64 a) - expected * a| ≤ expected * a / 2 ^ 51 := by
  have hexact := mul_nonneg he ha
  have hprod := mul_nonneg he (round64_nonneg ha)
  have hupper : expected * round64 a ≤ expected * (a * (1 + 1 / 2 ^ 53)) := by
    gcongr
    exact round64_le ha
  have hlower : expected * (a * (1 - 1 / 2 ^ 53)) ≤ expected * round64 a := by
    gcongr
    exact le_round64 ha
  have hup := round64_le hprod
  have hlow := le_round64 hprod
  rw [abs_le]
  constructor
  · linarith
  · linarith

theorem InBand.bounds {expected lo hi interval : ℚ} (he : 0 ≤ expected) (hlo : 0 ≤ lo)
    (hhi : 0 ≤ hi) (h : InBand expected lo hi interval) :
    expected * lo * (1 - 1 / 2 ^ 51) ≤ interval ∧
      interval ≤ expected * hi * (1 + 1 / 2 ^ 51) := by
  have hlow := (abs_le.mp (edge_near he hlo)).1
  have hhigh := (abs_le.mp (edge_near he hhi)).2
  obtain ⟨hle, hge⟩ := h
  constructor
  · linarith
  · linarith

/-- No interval is in two bands. -/
theorem InBand.apart {expected lo hi lo' hi' interval : ℚ} (he : 0 < expected)
    (h : InBand expected lo hi interval) (hlo : 0 ≤ lo) (hhi : 0 ≤ hi) (hgap : hi + 1 / 2 ≤ lo')
    (hsmall : lo' ≤ 4) (hhi' : 0 ≤ hi') : ¬ InBand expected lo' hi' interval := by
  intro h'
  have hlo' : 0 ≤ lo' := by linarith
  have hle := (h.bounds he.le hlo hhi).2
  have hge := (h'.bounds he.le hlo' hhi').1
  have hmul : expected * (hi + 1 / 2) ≤ expected * lo' := by gcongr
  have hmul' : expected * lo' ≤ expected * 4 := by gcongr
  linarith

/-- Near one, two or three times the expected interval. -/
def Harmonic (expected interval : ℚ) : Prop :=
  InBand expected (85 / 100) (115 / 100) interval ∨
    InBand expected (185 / 100) (215 / 100) interval ∨
      InBand expected (285 / 100) (315 / 100) interval

instance (expected interval : ℚ) : Decidable (Harmonic expected interval) :=
  inferInstanceAs (Decidable (_ ∨ _ ∨ _))

def harmonics (expected : ℚ) (intervals : List ℚ) : Nat := intervals.countP (Harmonic expected)

/-- The order in which the bands are tried does not matter. -/
theorem foldl_countStep {expected : ℚ} (he : 0 < expected) : ∀ (intervals : List ℚ) (c : Counts),
    intervals.foldl (countStep expected) c =
      { count1t := c.count1t + intervals.countP (InBand expected (85 / 100) (115 / 100))
        count2t := c.count2t + intervals.countP (InBand expected (185 / 100) (215 / 100))
        count3t := c.count3t + intervals.countP (InBand expected (285 / 100) (315 / 100))
        countOther := c.countOther + intervals.countP fun i => ¬ Harmonic expected i } := by
  intro intervals
  induction intervals with
  | nil =>
    intro c
    rfl
  | cons i intervals ih =>
    intro c
    rw [List.foldl_cons, ih, countStep]
    by_cases h1 : InBand expected (85 / 100) (115 / 100) i
    · have h2 : ¬ InBand expected (185 / 100) (215 / 100) i := by
        apply h1.apart he <;> norm_num
      have h3 : ¬ InBand expected (285 / 100) (315 / 100) i := by
        apply h1.apart he <;> norm_num
      simp [Harmonic, h1, h2, h3]
      omega
    · by_cases h2 : InBand expected (185 / 100) (215 / 100) i
      · have h3 : ¬ InBand expected (285 / 100) (315 / 100) i := by
          apply h2.apart he <;> norm_num
        simp [Harmonic, h1, h2, h3]
        omega
      · by_cases h3 : InBand expected (285 / 100) (315 / 100) i
        · simp [Harmonic, h1, h2, h3]
          omega
        · simp [Harmonic, h1, h2, h3]
          omega

theorem foldl_countStep_total (expected : ℚ) : ∀ (intervals : List ℚ) (c : Counts),
    (intervals.foldl (countStep expected) c).total = c.total + intervals.length := by
  intro intervals
  induction intervals with
  | nil =>
    intro c
    rfl
  | cons i intervals ih =>
    intro c
    have hstep : (countStep expected c i).total = c.total + 1 := by
      unfold countStep
      split_ifs
      all_goals simp only [Counts.total]; omega
    rw [List.foldl_cons, ih, hstep, List.length_cons]
    omega

theorem count_harmonics {expected : ℚ} (he : 0 < expected) (intervals : List ℚ) :
    (count expected intervals).count1t + (count expected intervals).count2t +
      (count expected intervals).count3t = harmonics expected intervals := by
  have htotal := foldl_countStep_total expected intervals .zero
  have hother := foldl_countStep he intervals .zero
  have hlength : intervals.length = intervals.countP (Harmonic expected) +
      intervals.countP fun i => ¬ decide (Harmonic expected i) = true :=
    List.length_eq_countP_add_countP _
  rw [hother] at htotal
  rw [count, hother]
  simp only [Counts.total, Counts.zero, Nat.zero_add] at htotal ⊢
  simp only [decide_eq_true_eq, decide_not] at hlength htotal
  unfold harmonics
  omega

/-! ## Gaps -/

/-- Every gap between neighbours is from `low` to `high`. -/
def Gaps (low high : Nat) (spikes : List Spike) : Prop :=
  ∀ i a b, spikes[i]? = some a → spikes[i + 1]? = some b →
    a.tsc + low ≤ b.tsc ∧ b.tsc ≤ a.tsc + high

theorem Gaps.mem_intervals {low high : Nat} {spikes : List Spike} (h : Gaps low high spikes)
    (hhigh : high < 2 ^ 53) {interval : ℚ} (hi : interval ∈ intervals spikes) :
    (low : ℚ) ≤ interval ∧ interval ≤ high := by
  obtain ⟨⟨a, b⟩, hpair, rfl⟩ := List.mem_map.mp hi
  obtain ⟨i, hi⟩ := List.mem_iff_getElem?.mp hpair
  obtain ⟨ha, hb⟩ := List.getElem?_zip_eq_some.mp hi
  rw [List.getElem?_tail] at hb
  obtain ⟨hle, hge⟩ := h i a b ha hb
  change (low : ℚ) ≤ round64 (cycles a.tsc b.tsc) ∧ round64 (cycles a.tsc b.tsc) ≤ high
  rw [cycles_eq (by omega) (by omega), round64_natCast (by omega)]
  constructor
  · exact_mod_cast (show low ≤ b.tsc - a.tsc by omega)
  · exact_mod_cast (show b.tsc - a.tsc ≤ high by omega)

theorem inBand_of_near {expected interval : ℚ} (he : 0 < expected)
    (hlow : expected * (85 / 100) * (1 + 1 / 2 ^ 51) ≤ interval)
    (hhigh : interval ≤ expected * (115 / 100) * (1 - 1 / 2 ^ 51)) :
    InBand expected (85 / 100) (115 / 100) interval := by
  have hlo := (abs_le.mp (edge_near he.le (a := 85 / 100) (by norm_num))).2
  have hhi := (abs_le.mp (edge_near he.le (a := 115 / 100) (by norm_num))).1
  constructor
  · linarith
  · linarith

/-- Where all gaps are near the expected interval, all intervals are in its band. -/
theorem Gaps.inBand {expected : ℚ} (he : 0 < expected) {low high : Nat} {spikes : List Spike}
    (hgaps : Gaps low high spikes) (hword : high < 2 ^ 53)
    (hlow : expected * (85 / 100) * (1 + 1 / 2 ^ 51) ≤ low)
    (hhigh : high ≤ expected * (115 / 100) * (1 - 1 / 2 ^ 51)) {interval : ℚ}
    (hi : interval ∈ intervals spikes) :
    InBand expected (85 / 100) (115 / 100) interval := by
  obtain ⟨hle, hge⟩ := hgaps.mem_intervals hword hi
  exact inBand_of_near he (hlow.trans hle) (hge.trans hhigh)

theorem harmonics_of_inBand {expected : ℚ} {spikes : List Spike}
    (hband : ∀ i ∈ intervals spikes, InBand expected (85 / 100) (115 / 100) i) :
    harmonics expected (intervals spikes) = spikes.length - 1 := by
  rw [harmonics, List.countP_eq_length.mpr, length_intervals]
  intro i hi
  exact decide_eq_true (Or.inl (hband i hi))

/-! ## The verdict -/

/-- Shares of up to two million intervals are compared exactly. -/
theorem lt_harmonicFraction_iff {share total : Nat} {c : Counts} (htotal : 0 < total)
    (hshare : share ≤ 100) (hmax : total ≤ maxSpikes)
    (hle : c.count1t + c.count2t + c.count3t ≤ total) :
    round64 ((share : ℚ) / 100) < harmonicFraction c total ↔
      share * total < (c.count1t + c.count2t + c.count3t) * 100 := by
  have hmul : share * total ≤ 100 * total := Nat.mul_le_mul_right _ hshare
  unfold maxSpikes at hmax
  have hcompare := @round64_div_lt_iff share 100 (c.count1t + c.count2t + c.count3t) total
    (by omega) htotal (by omega)
  rw [harmonicFraction, round64_natCast (by omega), round64_natCast (by omega)]
  exact hcompare

theorem expectedTrefiCycles_pos {trefiUs tscGhz : ℚ} (htrefi : 0 < trefiUs) (htsc : 0 < tscGhz) :
    0 < expectedTrefiCycles trefiUs tscGhz := by
  have hns : 0 < round64 (trefiUs * 1000) := round64_pos (by positivity)
  exact round64_pos (mul_pos hns htsc)

theorem verdict_of_few {expected : ℚ} {spikes : List Spike} (h : spikes.length < 10) :
    verdict expected spikes = .insufficientData := if_pos h

theorem verdict_of_enough {expected : ℚ} (he : 0 < expected) {spikes : List Spike}
    (hmax : spikes.length ≤ maxSpikes) (henough : 10 ≤ spikes.length) :
    verdict expected spikes =
      if 3 * (spikes.length - 1) < 10 * harmonics expected (intervals spikes) then .periodic
      else if 3 * (spikes.length - 1) < 20 * harmonics expected (intervals spikes) then .weakSignal
      else .noPeriodicSignal := by
  have hcount := count_harmonics he (intervals spikes)
  have hle : harmonics expected (intervals spikes) ≤ spikes.length - 1 := by
    rw [← length_intervals]
    exact List.countP_le_length
  have hstrong := @lt_harmonicFraction_iff 30 (spikes.length - 1)
    (count expected (intervals spikes)) (by omega) (by omega) (by omega) (by omega)
  have hweak := @lt_harmonicFraction_iff 15 (spikes.length - 1)
    (count expected (intervals spikes)) (by omega) (by omega) (by omega) (by omega)
  rw [hcount] at hstrong hweak
  have hstrong' : round64 (30 / 100) <
      harmonicFraction (count expected (intervals spikes)) (spikes.length - 1) ↔
        3 * (spikes.length - 1) < 10 * harmonics expected (intervals spikes) := by
    refine hstrong.trans ?_
    omega
  have hweak' : round64 (15 / 100) <
      harmonicFraction (count expected (intervals spikes)) (spikes.length - 1) ↔
        3 * (spikes.length - 1) < 20 * harmonics expected (intervals spikes) := by
    refine hweak.trans ?_
    omega
  simp only [verdict, if_neg (Nat.not_lt.mpr henough), length_intervals, hstrong', hweak']

/-- **The verdict, in whole numbers.**  The four counts are the intervals near one, two and
three times the expected one and the others, in whichever order the bands are tried,
and the verdict compares the first three with exactly 30 and 15 percent. -/
theorem verdict_iff {trefiUs tscGhz : ℚ} (htrefi : 0 < trefiUs) (htsc : 0 < tscGhz)
    (threshold : Nat) (probes : List Probe) {expected : ℚ} {spikes : List Spike}
    (hexpected : expectedTrefiCycles trefiUs tscGhz = expected)
    (hspikes : collect threshold probes = spikes) :
    count expected (intervals spikes) =
      { count1t := (intervals spikes).countP (InBand expected (85 / 100) (115 / 100))
        count2t := (intervals spikes).countP (InBand expected (185 / 100) (215 / 100))
        count3t := (intervals spikes).countP (InBand expected (285 / 100) (315 / 100))
        countOther := (intervals spikes).countP fun i => ¬ Harmonic expected i } ∧
    (count expected (intervals spikes)).total = spikes.length - 1 ∧
    (verdict expected spikes = .insufficientData ↔ spikes.length < 10) ∧
    (verdict expected spikes = .periodic ↔ 10 ≤ spikes.length ∧
      3 * (spikes.length - 1) < 10 * harmonics expected (intervals spikes)) ∧
    (verdict expected spikes = .weakSignal ↔ 10 ≤ spikes.length ∧
      10 * harmonics expected (intervals spikes) ≤ 3 * (spikes.length - 1) ∧
      3 * (spikes.length - 1) < 20 * harmonics expected (intervals spikes)) ∧
    (verdict expected spikes = .noPeriodicSignal ↔ 10 ≤ spikes.length ∧
      20 * harmonics expected (intervals spikes) ≤ 3 * (spikes.length - 1)) := by
  have he : 0 < expected := hexpected ▸ expectedTrefiCycles_pos htrefi htsc
  have hmax : spikes.length ≤ maxSpikes := hspikes ▸ length_collect_le threshold probes
  have hcount := foldl_countStep he (intervals spikes) .zero
  have htotal := foldl_countStep_total expected (intervals spikes) .zero
  simp only [Counts.zero, Nat.zero_add, Counts.total, length_intervals] at hcount htotal
  refine ⟨hcount, htotal, ?_⟩
  rcases Nat.lt_or_ge spikes.length 10 with hfew | henough
  · have hnot : ¬ 10 ≤ spikes.length := Nat.not_le.mpr hfew
    rw [verdict_of_few hfew]
    simp [hfew, hnot]
  · have hnot : ¬ spikes.length < 10 := Nat.not_lt.mpr henough
    rw [verdict_of_enough he hmax henough]
    split_ifs with hstrong hweak
    · simp [hnot, henough, hstrong]
      omega
    · simp [hnot, hstrong, hweak, henough]
      omega
    · simp [hnot, hstrong, hweak, henough]
      omega

/-- A refresh every 8 us, on a counter of 3 GHz. -/
def everyEight : List Probe := (List.range 11).map fun k => ⟨24000 * k, 24000 * k + 600⟩

def everyEightSpikes : List Spike := (List.range 11).map fun k => ⟨24000 * k, 600⟩

theorem gaps_everyEight : Gaps 24000 24000 everyEightSpikes := by
  intro i a b ha hb
  have hget : ∀ k, k < 11 → everyEightSpikes[k]? = some ⟨24000 * k, 600⟩ := by
    intro k hk
    rw [everyEightSpikes, List.getElem?_map, List.getElem?_range hk, Option.map_some]
  have hlt : i + 1 < 11 := (List.getElem?_eq_some_iff.mp hb).1
  rw [hget i (by omega)] at ha
  rw [hget (i + 1) hlt] at hb
  cases ha
  cases hb
  simp only
  omega

theorem expectedTrefiCycles_eight : expectedTrefiCycles 8 3 = 24000 := by
  have hus : round64 ((8 : ℚ) * 1000) = 8000 := by
    have hcast := @round64_natCast 8000 (by decide)
    norm_num at hcast ⊢
    exact hcast
  have hcycles := @round64_natCast 24000 (by decide)
  rw [expectedTrefiCycles, hus]
  norm_num at hcycles ⊢
  exact hcycles

theorem collect_everyEight : collect 500 everyEight = everyEightSpikes := by decide

/-- All ten intervals are in the first band. -/
theorem verdict_iff_every_eight : (0 : ℚ) < 8 ∧ (0 : ℚ) < 3 ∧
    expectedTrefiCycles 8 3 = 24000 ∧ collect 500 everyEight = everyEightSpikes ∧
    harmonics 24000 (intervals everyEightSpikes) = 10 ∧
    verdict 24000 everyEightSpikes = .periodic := by
  have hall : harmonics 24000 (intervals everyEightSpikes) = 10 :=
    harmonics_of_inBand fun i hi =>
      gaps_everyEight.inBand (by norm_num) (by decide) (by norm_num) (by norm_num) hi
  have hverdict := verdict_iff (by norm_num) (by norm_num) 500 everyEight
    expectedTrefiCycles_eight collect_everyEight
  refine ⟨by norm_num, by norm_num, expectedTrefiCycles_eight, collect_everyEight, hall, ?_⟩
  exact hverdict.2.2.2.1.mpr ⟨by decide, by rw [hall]; decide⟩

end Trefi

end Tailslayer
