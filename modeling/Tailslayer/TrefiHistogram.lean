import Tailslayer.TrefiAnalysis

/-!
# The histogram of the intervals

`examples/trefi_probe.rs` counts the intervals between one half and one and a half
of the expected one in 200 bins and reports the middle of the fullest.  The bins are doubles,
with an error far below their width: what is near the expected interval is in
the bins 69 to 130, and the middle of a bin is near all that it counts.
-/

namespace Tailslayer

open Binary64

namespace Trefi

/-! ## Bins -/

section
variable {expected : ℚ} (he : 0 < expected)
include he

theorem binLo_near : |binLo expected - expected / 2| ≤ expected / 2 ^ 54 := by
  have hround := abs_le.mp (abs_round64_sub_le (q := expected * (1 / 2)) (by positivity))
  rw [abs_le, binLo]
  constructor
  · linarith
  · linarith

theorem binHi_near : |binHi expected - expected * 3 / 2| ≤ expected / 2 ^ 52 := by
  have hround := abs_le.mp (abs_round64_sub_le (q := expected * (3 / 2)) (by positivity))
  rw [abs_le, binHi]
  constructor
  · linarith
  · linarith

theorem binWidth_near : |binWidth expected - expected / 200| ≤ expected / 2 ^ 57 := by
  obtain ⟨hlo, hlo'⟩ := abs_le.mp (binLo_near he)
  obtain ⟨hhi, hhi'⟩ := abs_le.mp (binHi_near he)
  have hspan : 0 ≤ binHi expected - binLo expected := by linarith
  obtain ⟨hd, hd'⟩ := abs_le.mp (abs_round64_sub_le hspan)
  have hbins : round64 (histogramBins : ℚ) = 200 := round64_natCast (by decide)
  have hquot : 0 ≤ round64 (binHi expected - binLo expected) / 200 :=
    div_nonneg (round64_nonneg hspan) (by norm_num)
  obtain ⟨hw, hw'⟩ := abs_le.mp (abs_round64_sub_le hquot)
  rw [abs_le, binWidth, hbins]
  constructor
  · linarith
  · linarith

theorem binWidth_pos : 0 < binWidth expected := by
  have hnear := (abs_le.mp (binWidth_near he)).1
  linarith

/-- The bin of an interval, three roundings after it. -/
theorem binOf_bounds {interval : ℚ} (h : binLo expected ≤ interval) :
    binOf expected interval * binWidth expected ≤
        (interval - binLo expected) * (1 + 1 / 2 ^ 51) ∧
      (interval - binLo expected) * (1 - 1 / 2 ^ 51) <
        (binOf expected interval + 1) * binWidth expected := by
  have hpos := binWidth_pos he
  have hdiff : 0 ≤ interval - binLo expected := sub_nonneg.mpr h
  have hoffset := round64_nonneg hdiff
  have hquot := div_nonneg hoffset hpos.le
  have hcancel : round64 (interval - binLo expected) / binWidth expected * binWidth expected =
      round64 (interval - binLo expected) := div_mul_cancel₀ _ hpos.ne'
  have hfloor := Nat.floor_le (round64_nonneg hquot)
  have hfloor' := Nat.lt_floor_add_one
    (round64 (round64 (interval - binLo expected) / binWidth expected))
  have hup := round64_le hdiff
  have hlow := le_round64 hdiff
  constructor
  · have hmul := mul_le_mul_of_nonneg_right (hfloor.trans (round64_le hquot)) hpos.le
    rw [mul_right_comm, hcancel] at hmul
    refine hmul.trans ?_
    linarith
  · have hmul := mul_lt_mul_of_pos_right ((le_round64 hquot).trans_lt hfloor') hpos
    rw [mul_right_comm, hcancel] at hmul
    refine lt_of_le_of_lt ?_ hmul
    linarith

/-- Every interval near the expected one is in one of 62 bins. -/
theorem InBand.binned {interval : ℚ} (h : InBand expected (85 / 100) (115 / 100) interval) :
    (binLo expected ≤ interval ∧ interval < binHi expected) ∧
      69 ≤ binOf expected interval ∧ binOf expected interval < 69 + 62 := by
  obtain ⟨hge, hle⟩ := h.bounds he.le (by norm_num) (by norm_num)
  obtain ⟨hlo, hlo'⟩ := abs_le.mp (binLo_near he)
  obtain ⟨hhi, -⟩ := abs_le.mp (binHi_near he)
  obtain ⟨hw, hw'⟩ := abs_le.mp (binWidth_near he)
  have hpos := binWidth_pos he
  have hin : binLo expected ≤ interval := by linarith
  obtain ⟨hfloor, hfloor'⟩ := binOf_bounds he hin
  refine ⟨⟨hin, by linarith⟩, ?_, ?_⟩
  · by_contra hlt
    have hbin : (binOf expected interval : ℚ) + 1 ≤ 69 := by
      exact_mod_cast not_le.mp hlt
    have hmul := mul_le_mul_of_nonneg_right hbin hpos.le
    linarith
  · by_contra hlt
    have hbin : (131 : ℚ) ≤ binOf expected interval := by
      exact_mod_cast not_lt.mp hlt
    have hmul := mul_le_mul_of_nonneg_right hbin hpos.le
    linarith

theorem peakCycles_near {bin : Nat} (hbin : bin < histogramBins) :
    |peakCycles expected bin - (binLo expected + (bin + 1 / 2) * binWidth expected)| ≤
      expected / 2 ^ 45 := by
  obtain ⟨hlo, hlo'⟩ := abs_le.mp (binLo_near he)
  obtain ⟨hw, hw'⟩ := abs_le.mp (binWidth_near he)
  have hpos := binWidth_pos he
  have hsmall : (bin : ℚ) + 1 / 2 ≤ 200 := by
    have hcast : (bin : ℚ) + 1 ≤ 200 := by exact_mod_cast hbin
    linarith
  have hbig : bin < 2 ^ 53 := by
    unfold histogramBins at hbin
    omega
  have hhalf : (0 : ℚ) ≤ bin + 1 / 2 := by positivity
  have hplace := mul_le_mul_of_nonneg_right hsmall hpos.le
  have hplace' := mul_nonneg hhalf hpos.le
  have hup := mul_le_mul_of_nonneg_right (round64_le hhalf) hpos.le
  have hlow := mul_le_mul_of_nonneg_right (le_round64 hhalf) hpos.le
  have hscaled := mul_nonneg (round64_nonneg hhalf) hpos.le
  obtain ⟨hm, hm'⟩ := abs_le.mp (abs_round64_sub_le hscaled)
  have hsum : 0 ≤ binLo expected + round64 (round64 (bin + 1 / 2) * binWidth expected) := by
    have hnonneg := round64_nonneg hscaled
    linarith
  obtain ⟨hc, hc'⟩ := abs_le.mp (abs_round64_sub_le hsum)
  rw [abs_le, peakCycles, round64_natCast hbig]
  constructor
  · linarith
  · linarith

/-- The middle of a bin is within half a bin of what was counted in it. -/
theorem peakCycles_close {interval : ℚ} (h : binLo expected ≤ interval)
    (hbin : binOf expected interval < histogramBins) :
    |interval - peakCycles expected (binOf expected interval)| ≤ expected / 399 := by
  obtain ⟨hw, hw'⟩ := abs_le.mp (binWidth_near he)
  obtain ⟨hc, hc'⟩ := abs_le.mp (peakCycles_near he hbin)
  obtain ⟨hfloor, hfloor'⟩ := binOf_bounds he h
  have hpos := binWidth_pos he
  have hsmall : (binOf expected interval : ℚ) + 1 ≤ 200 := by exact_mod_cast hbin
  have hmul := mul_le_mul_of_nonneg_right hsmall hpos.le
  rw [abs_le]
  constructor
  · linarith
  · linarith

end

/-! ## The histogram -/

theorem length_histogram (expected : ℚ) (intervals : List ℚ) :
    (histogram expected intervals).length = histogramBins := by
  have hfold : ∀ (intervals : List ℚ) (bins : List Nat),
      (intervals.foldl (histogramStep expected) bins).length = bins.length := by
    intro intervals
    induction intervals with
    | nil =>
      intro bins
      rfl
    | cons i intervals ih =>
      intro bins
      have hstep : (histogramStep expected bins i).length = bins.length := by
        simp only [histogramStep]
        split_ifs
        · exact List.length_modify ..
        · rfl
        · rfl
      rw [List.foldl_cons, ih, hstep]
  rw [histogram, hfold, List.length_replicate]

theorem getElem?_histogram (expected : ℚ) (intervals : List ℚ) {bin : Nat}
    (hbin : bin < histogramBins) : (histogram expected intervals)[bin]? =
      some (intervals.countP fun i =>
        (binLo expected ≤ i ∧ i < binHi expected) ∧ binOf expected i = bin) := by
  have hstep : histogramStep expected = fun bins i =>
      if (binLo expected ≤ i ∧ i < binHi expected) ∧ binOf expected i < histogramBins then
        bins.modify (binOf expected i) (· + 1)
      else bins := by
    funext bins i
    simp only [histogramStep, ite_and]
  have hcount := Lists.getElem?_foldl_modify (fun i =>
    (binLo expected ≤ i ∧ i < binHi expected) ∧ binOf expected i < histogramBins)
    (binOf expected) bin intervals (List.replicate histogramBins 0)
  rw [List.getElem?_replicate_of_lt hbin, Option.map_some, Nat.zero_add] at hcount
  rw [histogram, hstep, hcount]
  congr 1
  apply List.countP_congr
  intro i _
  simp only [decide_eq_true_eq]
  constructor
  · rintro ⟨⟨hin, -⟩, heq⟩
    exact ⟨hin, heq⟩
  · rintro ⟨hin, heq⟩
    exact ⟨⟨hin, heq ▸ hbin⟩, heq⟩

/-- Of equal maxima the one with the highest number. -/
theorem maxByKey_spec : ∀ (entries : List (Nat × Nat)) (best : Nat × Nat),
    (best :: entries).Pairwise (·.1 < ·.1) → ∃ last, maxByKey (some best) entries = some last ∧
      last ∈ best :: entries ∧
      ∀ e ∈ best :: entries, e.2 ≤ last.2 ∧ (e.2 = last.2 → e.1 ≤ last.1) := by
  intro entries
  induction entries with
  | nil =>
    intro best _
    refine ⟨best, rfl, List.mem_singleton_self best, ?_⟩
    intro e he
    obtain rfl := List.mem_singleton.mp he
    exact ⟨Nat.le_refl _, fun _ => Nat.le_refl _⟩
  | cons entry rest ih =>
    intro best hsorted
    obtain ⟨hbest, hrest⟩ := List.pairwise_cons.mp hsorted
    have hfirst := hbest entry (List.mem_cons_self ..)
    by_cases hle : best.2 ≤ entry.2
    · obtain ⟨last, hlast, hmem, hmax⟩ := ih entry hrest
      refine ⟨last, ?_, List.mem_cons_of_mem best hmem, ?_⟩
      · rw [maxByKey, if_pos hle, hlast]
      · intro e he
        rcases List.mem_cons.mp he with rfl | he
        · obtain ⟨hentry, htie⟩ := hmax entry (List.mem_cons_self ..)
          refine ⟨Nat.le_trans hle hentry, fun heq => ?_⟩
          have hlater := htie (by omega)
          omega
        · exact hmax e he
    · have hskip : (best :: rest).Pairwise (·.1 < ·.1) :=
        List.pairwise_cons.mpr ⟨fun e he => hbest e (List.mem_cons_of_mem entry he), hrest.tail⟩
      obtain ⟨last, hlast, hmem, hmax⟩ := ih best hskip
      refine ⟨last, ?_, ?_, ?_⟩
      · rw [maxByKey, if_neg hle, hlast]
      · rcases List.mem_cons.mp hmem with rfl | hmem
        · exact List.mem_cons_self ..
        · exact List.mem_cons_of_mem best (List.mem_cons_of_mem entry hmem)
      · intro e he
        have hlarge := (hmax best (List.mem_cons_self ..)).1
        rcases List.mem_cons.mp he with rfl | he
        · exact hmax e (List.mem_cons_self ..)
        · rcases List.mem_cons.mp he with rfl | he
          · exact ⟨by omega, fun heq => by omega⟩
          · exact hmax e (List.mem_cons_of_mem best he)

theorem mem_enumerate {counts : List Nat} {e : Nat × Nat} :
    e ∈ (List.range counts.length).zip counts ↔ counts[e.1]? = some e.2 := by
  rw [List.mem_iff_getElem?]
  constructor
  · rintro ⟨i, hi⟩
    obtain ⟨hrange, hcount⟩ := List.getElem?_zip_eq_some.mp hi
    obtain ⟨hlt, heq⟩ := List.getElem?_eq_some_iff.mp hrange
    rw [List.getElem_range] at heq
    rwa [heq] at hcount
  · intro hcount
    obtain ⟨hlt, -⟩ := List.getElem?_eq_some_iff.mp hcount
    refine ⟨e.1, List.getElem?_zip_eq_some.mpr ⟨?_, hcount⟩⟩
    rw [List.getElem?_range hlt]

theorem peak_spec {counts : List Nat} (hne : counts ≠ []) :
    counts[(peak counts).1]? = some (peak counts).2 ∧ ∀ bin n, counts[bin]? = some n →
      n ≤ (peak counts).2 ∧ (n = (peak counts).2 → bin ≤ (peak counts).1) := by
  have hsorted : ((List.range counts.length).zip counts).Pairwise (·.1 < ·.1) := by
    have hfst : ((List.range counts.length).zip counts).map Prod.fst = List.range counts.length :=
      List.map_fst_zip (by rw [List.length_range])
    have hrange := List.pairwise_lt_range (n := counts.length)
    rwa [← hfst, List.pairwise_map] at hrange
  cases hentries : (List.range counts.length).zip counts with
  | nil =>
    have hlen := congrArg List.length hentries
    rw [List.length_zip, List.length_range, Nat.min_self] at hlen
    exact absurd (List.length_eq_zero_iff.mp hlen) hne
  | cons first rest =>
    rw [hentries] at hsorted
    obtain ⟨last, hlast, hmem, hmax⟩ := maxByKey_spec rest first hsorted
    have hpeak : peak counts = last := by
      rw [peak, hentries, maxByKey, hlast, Option.getD_some]
    rw [hpeak]
    rw [← hentries] at hmem hmax
    refine ⟨mem_enumerate.mp hmem, fun bin n hn => ?_⟩
    exact hmax (bin, n) (mem_enumerate.mpr hn)

theorem histogram_ne_nil (expected : ℚ) (intervals : List ℚ) :
    histogram expected intervals ≠ [] := by
  apply List.ne_nil_of_length_pos
  rw [length_histogram]
  decide

theorem peak_histogram (expected : ℚ) (intervals : List ℚ) :
    (peak (histogram expected intervals)).1 < histogramBins ∧
      (peak (histogram expected intervals)).2 = intervals.countP fun i =>
        (binLo expected ≤ i ∧ i < binHi expected) ∧
          binOf expected i = (peak (histogram expected intervals)).1 := by
  have hpeak := (peak_spec (histogram_ne_nil expected intervals)).1
  have hbin := (List.getElem?_eq_some_iff.mp hpeak).1
  rw [length_histogram] at hbin
  rw [getElem?_histogram expected intervals hbin] at hpeak
  exact ⟨hbin, (Option.some.inj hpeak).symm⟩

/-- The 62 bins around the expected interval share what is near it. -/
theorem count1t_le_peak {expected : ℚ} (he : 0 < expected) (intervals : List ℚ) :
    (count expected intervals).count1t ≤ 62 * (peak (histogram expected intervals)).2 := by
  obtain ⟨-, hmax⟩ := peak_spec (histogram_ne_nil expected intervals)
  have hclass : ∀ bin, intervals.countP (fun i =>
      InBand expected (85 / 100) (115 / 100) i ∧ binOf expected i = bin) ≤
        (peak (histogram expected intervals)).2 := by
    intro bin
    by_cases hsmall : bin < histogramBins
    · refine Nat.le_trans ?_ (hmax bin _ (getElem?_histogram expected intervals hsmall)).1
      apply List.countP_mono_left
      intro i _ hi
      simp only [decide_eq_true_eq] at hi ⊢
      exact ⟨(hi.1.binned he).1, hi.2⟩
    · refine Nat.le_trans (Nat.le_of_eq ?_) (Nat.zero_le _)
      rw [List.countP_eq_zero]
      intro i _ hi
      simp only [decide_eq_true_eq] at hi
      have hlt := (hi.1.binned he).2.2
      unfold histogramBins at hsmall
      omega
  have hall := Lists.countP_le_mul (InBand expected (85 / 100) (115 / 100)) (binOf expected) 69
    _ intervals hclass 62
  have hcount := foldl_countStep he intervals .zero
  rw [count, hcount]
  simp only [Counts.zero, Nat.zero_add]
  refine Nat.le_trans ?_ hall
  apply List.countP_mono_left
  intro i _ hi
  simp only [decide_eq_true_eq] at hi ⊢
  exact ⟨hi, (hi.binned he).2⟩

/-- **The histogram counts, and its peak is near the expected interval if many are.**
Each bin counts the intervals in it, the peak is the last of the fullest bins
and within half a bin of all that it counts; the intervals near the expected one are in 62
of the bins, so that the peak counts at least one in 62 of them. -/
theorem histogram_spec {expected : ℚ} (he : 0 < expected) (intervals : List ℚ) :
    (histogram expected intervals).length = histogramBins ∧
    (∀ bin, bin < histogramBins → (histogram expected intervals)[bin]? =
      some (intervals.countP fun i =>
        (binLo expected ≤ i ∧ i < binHi expected) ∧ binOf expected i = bin)) ∧
    (histogram expected intervals)[(peak (histogram expected intervals)).1]? =
      some (peak (histogram expected intervals)).2 ∧
    (∀ bin n, (histogram expected intervals)[bin]? = some n →
      n ≤ (peak (histogram expected intervals)).2 ∧
      (n = (peak (histogram expected intervals)).2 →
        bin ≤ (peak (histogram expected intervals)).1)) ∧
    (∀ i, binLo expected ≤ i → binOf expected i = (peak (histogram expected intervals)).1 →
      |i - peakCycles expected (peak (histogram expected intervals)).1| ≤ expected / 399) ∧
    (∀ i, InBand expected (85 / 100) (115 / 100) i →
      (binLo expected ≤ i ∧ i < binHi expected) ∧
        69 ≤ binOf expected i ∧ binOf expected i < 69 + 62) ∧
    (count expected intervals).count1t ≤ 62 * (peak (histogram expected intervals)).2 := by
  obtain ⟨hpeak, hmax⟩ := peak_spec (histogram_ne_nil expected intervals)
  refine ⟨length_histogram expected intervals,
    fun bin h => getElem?_histogram expected intervals h, hpeak, hmax, ?_,
    fun i hi => hi.binned he, count1t_le_peak he intervals⟩
  intro i hi heq
  have hbin := (peak_histogram expected intervals).1
  rw [← heq] at hbin ⊢
  exact peakCycles_close he hi hbin

theorem histogram_spec_two : (0 : ℚ) < 23400 ∧
    (count 23400 [23400, 23300]).count1t ≤ 62 * (peak (histogram 23400 [23400, 23300])).2 :=
  ⟨by norm_num, (histogram_spec (by norm_num) [23400, 23300]).2.2.2.2.2.2⟩

/-! ## A periodic signal -/

/-- **A periodic signal is found.**  Ten spikes or more, with every gap in the band around the
expected interval, get the verdict `PERIODIC`, and the peak that is reported is
among the gaps, up to one part in 399 of the expected interval. -/
theorem periodic_found {trefiUs tscGhz : ℚ} (htrefi : 0 < trefiUs) (htsc : 0 < tscGhz)
    (threshold : Nat) (probes : List Probe) {expected : ℚ} {spikes : List Spike}
    (hexpected : expectedTrefiCycles trefiUs tscGhz = expected)
    (hspikes : collect threshold probes = spikes) (henough : 10 ≤ spikes.length)
    {low high : Nat} (hgaps : Gaps low high spikes) (hword : high < 2 ^ 53)
    (hlow : expected * (85 / 100) * (1 + 1 / 2 ^ 51) ≤ low)
    (hhigh : high ≤ expected * (115 / 100) * (1 - 1 / 2 ^ 51)) :
    verdict expected spikes = .periodic ∧
      low - expected / 399 ≤
        peakCycles expected (peak (histogram expected (intervals spikes))).1 ∧
      peakCycles expected (peak (histogram expected (intervals spikes))).1 ≤
        high + expected / 399 := by
  have he : 0 < expected := hexpected ▸ expectedTrefiCycles_pos htrefi htsc
  have hmax : spikes.length ≤ maxSpikes := hspikes ▸ length_collect_le threshold probes
  have hband : ∀ i ∈ intervals spikes, InBand expected (85 / 100) (115 / 100) i :=
    fun i hi => hgaps.inBand he hword hlow hhigh hi
  have hall := harmonics_of_inBand hband
  refine ⟨?_, ?_⟩
  · rw [verdict_of_enough he hmax henough, hall, if_pos (by omega)]
  · have hcount : (count expected (intervals spikes)).count1t = spikes.length - 1 := by
      rw [count, foldl_countStep he, ← length_intervals]
      simp only [Counts.zero, Nat.zero_add]
      rw [List.countP_eq_length]
      intro i hi
      exact decide_eq_true (hband i hi)
    have hshare := count1t_le_peak he (intervals spikes)
    obtain ⟨hbin, hpeak⟩ := peak_histogram expected (intervals spikes)
    -- the peak counts one of the gaps at least
    have hpos : 0 < (peak (histogram expected (intervals spikes))).2 := by omega
    rw [hpeak] at hpos
    obtain ⟨i, hi, hin⟩ := List.countP_pos_iff.mp hpos
    obtain ⟨hrange, heq⟩ := of_decide_eq_true hin
    rw [← heq] at hbin ⊢
    have hclose := abs_le.mp (peakCycles_close he hrange.1 hbin)
    obtain ⟨hle, hge⟩ := hgaps.mem_intervals hword hi
    constructor
    · linarith
    · linarith

theorem periodic_found_every_eight :
    expectedTrefiCycles 8 3 = 24000 ∧ collect 500 everyEight = everyEightSpikes ∧
      verdict 24000 everyEightSpikes = .periodic := by
  have hfound := periodic_found (by norm_num) (by norm_num) 500 everyEight
    expectedTrefiCycles_eight collect_everyEight (by decide) gaps_everyEight (by decide)
    (by norm_num) (by norm_num)
  exact ⟨expectedTrefiCycles_eight, collect_everyEight, hfound.1⟩

end Trefi

end Tailslayer
