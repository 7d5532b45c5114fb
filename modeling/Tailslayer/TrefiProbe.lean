import Tailslayer.Percentiles

/-!
# Looking for the refresh interval

Source: `examples/trefi_probe.rs`, from the readings of the counter to the verdict.

A `Probe` is one timed read.  The rate of the counter, the expected interval and
the multiplier are doubles, here the rationals they stand for; every operation on
doubles rounds (`round64`), but for the constants `0.5` and `1.5`, which are doubles.
What is only printed is left out.
-/

namespace Tailslayer

open Binary64 Quantiles

namespace Trefi

def maxSpikes : Nat := 2000000

/-- The readings of the counter before and after a read. -/
structure Probe where
  t0 : Nat
  t1 : Nat
deriving DecidableEq, Repr

structure Spike where
  tsc : Nat
  latency : Nat
deriving DecidableEq, Repr

/-- `t1 - t0` of two `u64` values, where nothing is checked. -/
def cycles (t0 t1 : Nat) : Nat := (t1 + 2 ^ 64 - t0) % 2 ^ 64

def Probe.latency (probe : Probe) : Nat := cycles probe.t0 probe.t1

def Probe.spike (probe : Probe) : Spike where
  tsc := probe.t0
  latency := probe.latency

/-! ## Calibration -/

structure Percentiles where
  p50 : Nat
  p90 : Nat
  p99 : Nat
  p999 : Nat
  p9999 : Nat
deriving DecidableEq, Repr

/-- The percentiles, and `data` as it is left behind; a `none` is an index out of bounds. -/
def computePercentiles (data : List Nat) : Option (List Nat × Percentiles) :=
  let data := data.mergeSort (· ≤ ·)
  let len := data.length
  do
    let p50 ← data[quantileIndex len (50 / 100)]?
    let p90 ← data[quantileIndex len (90 / 100)]?
    let p99 ← data[quantileIndex len (99 / 100)]?
    let p999 ← data[Nat.min (len - 1) (quantileIndex len (999 / 1000))]?
    let p9999 ← data[Nat.min (len - 1) (quantileIndex len (9999 / 10000))]?
    some (data, { p50, p90, p99, p999, p9999 })

/-- A cast to `u64` saturates. -/
def threshold (thresholdOverride : Nat) (thresholdMultiplier : ℚ) (p50 : Nat) : Nat :=
  if 0 < thresholdOverride then thresholdOverride
  else Nat.min (2 ^ 64 - 1) ⌊round64 (thresholdMultiplier * round64 p50)⌋₊

/-! ## Spikes -/

/-- One turn of the probing loop. -/
def probeStep (threshold : Nat) (spikes : List Spike) (probe : Probe) : List Spike :=
  if threshold < probe.latency ∧ spikes.length < maxSpikes then
    spikes ++ [probe.spike]
  else spikes

def collect (threshold : Nat) (probes : List Probe) : List Spike :=
  probes.foldl (probeStep threshold) []

/-! ## Periodicity -/

def expectedTrefiCycles (trefiUs tscGhz : ℚ) : ℚ :=
  round64 (round64 (trefiUs * 1000) * tscGhz)

/-- Times between neighbours. -/
def intervals (spikes : List Spike) : List ℚ :=
  (spikes.zip spikes.tail).map fun pair => round64 (cycles pair.1.tsc pair.2.tsc)

/-- `lo * expected <= interval <= hi * expected` -/
def InBand (expected lo hi interval : ℚ) : Prop :=
  round64 (expected * round64 lo) ≤ interval ∧ interval ≤ round64 (expected * round64 hi)

instance (expected lo hi interval : ℚ) : Decidable (InBand expected lo hi interval) :=
  inferInstanceAs (Decidable (_ ∧ _))

structure Counts where
  count1t : Nat
  count2t : Nat
  count3t : Nat
  countOther : Nat
deriving DecidableEq, Repr

def Counts.zero : Counts := ⟨0, 0, 0, 0⟩

def Counts.total (counts : Counts) : Nat :=
  counts.count1t + counts.count2t + counts.count3t + counts.countOther

def countStep (expected : ℚ) (counts : Counts) (interval : ℚ) : Counts :=
  if InBand expected (85 / 100) (115 / 100) interval then
    { counts with count1t := counts.count1t + 1 }
  else if InBand expected (185 / 100) (215 / 100) interval then
    { counts with count2t := counts.count2t + 1 }
  else if InBand expected (285 / 100) (315 / 100) interval then
    { counts with count3t := counts.count3t + 1 }
  else { counts with countOther := counts.countOther + 1 }

def count (expected : ℚ) (intervals : List ℚ) : Counts :=
  intervals.foldl (countStep expected) .zero

def harmonicFraction (counts : Counts) (total : Nat) : ℚ :=
  round64 (round64 ((counts.count1t + counts.count2t + counts.count3t : ℕ) : ℚ) / round64 total)

inductive Verdict where
  | insufficientData
  | periodic
  | weakSignal
  | noPeriodicSignal
deriving DecidableEq, Repr

def verdict (expected : ℚ) (spikes : List Spike) : Verdict :=
  if spikes.length < 10 then .insufficientData
  else
    let intervals := intervals spikes
    let fraction := harmonicFraction (count expected intervals) intervals.length
    if round64 (30 / 100) < fraction then .periodic
    else if round64 (15 / 100) < fraction then .weakSignal
    else .noPeriodicSignal

/-! ## Histogram -/

def histogramBins : Nat := 200

def binLo (expected : ℚ) : ℚ := round64 (expected * (1 / 2))
def binHi (expected : ℚ) : ℚ := round64 (expected * (3 / 2))
def binWidth (expected : ℚ) : ℚ :=
  round64 (round64 (binHi expected - binLo expected) / round64 histogramBins)

def binOf (expected interval : ℚ) : Nat :=
  ⌊round64 (round64 (interval - binLo expected) / binWidth expected)⌋₊

def histogramStep (expected : ℚ) (histogram : List Nat) (interval : ℚ) : List Nat :=
  if binLo expected ≤ interval ∧ interval < binHi expected then
    let bin := binOf expected interval
    if bin < histogramBins then histogram.modify bin (· + 1) else histogram
  else histogram

def histogram (expected : ℚ) (intervals : List ℚ) : List Nat :=
  intervals.foldl (histogramStep expected) (List.replicate histogramBins 0)

/-- `max_by_key` keeps the last of equal maxima. -/
def maxByKey (best : Option (Nat × Nat)) : List (Nat × Nat) → Option (Nat × Nat)
  | [] => best
  | entry :: rest =>
    match best with
    | none => maxByKey (some entry) rest
    | some b => maxByKey (some (if b.2 ≤ entry.2 then entry else b)) rest

/-- Number and count of the peak. -/
def peak (histogram : List Nat) : Nat × Nat :=
  (maxByKey none ((List.range histogram.length).zip histogram)).getD (0, 0)

/-- The middle of a bin. -/
def peakCycles (expected : ℚ) (bin : Nat) : ℚ :=
  round64 (binLo expected + round64 (round64 (round64 bin + 1 / 2) * binWidth expected))

end Trefi

end Tailslayer
