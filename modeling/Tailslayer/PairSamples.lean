import Mathlib.Algebra.Group.Nat.Defs
import Tailslayer.Pool.Loop

/-!
# Pairing the samples of a measurement

Source: `examples/hedged_read.rs`, `pair_samples_n`.

The measurement threads record one list of samples for each channel.  The loop
walks over the heads of all lists: heads close in time make a group, otherwise
the earliest head is dropped.

An index that is out of bounds and a subtraction that underflows are results of
their own.  An index is incremented only while it is below `num_samples`, so it
never wraps.
-/

namespace Tailslayer

open Loop

/-- `u64::MAX` -/
def u64Max : Nat := 2 ^ 64 - 1

structure Sample where
  timestamp : Nat
  latency : Nat
  timestamp_le : timestamp ≤ u64Max
  latency_le : latency ≤ u64Max
deriving DecidableEq, Repr

/-- `MAX_PAIR_GAP` -/
def maxPairGap : Nat := 400

/-! ## One pass over the heads -/

structure Heads where
  minTimestamp : Nat
  maxTimestamp : Nat
  minChannel : Option Nat
  minLatency : Nat
deriving DecidableEq, Repr

def Heads.start : Heads where
  minTimestamp := u64Max
  maxTimestamp := 0
  minChannel := none
  minLatency := u64Max

def Heads.add (heads : Heads) (channel : Nat) (sample : Sample) : Heads where
  minTimestamp :=
    if sample.timestamp < heads.minTimestamp then sample.timestamp else heads.minTimestamp
  maxTimestamp :=
    if heads.maxTimestamp < sample.timestamp then sample.timestamp else heads.maxTimestamp
  minChannel :=
    if sample.timestamp < heads.minTimestamp then some channel else heads.minChannel
  minLatency := if sample.latency < heads.minLatency then sample.latency else heads.minLatency

inductive Scan where
  | found (heads : Heads)
  /-- a channel has no sample left -/
  | exhausted
  | panicked

/-- The `for` loop, from `channel` on. -/
def scan (numSamples : Nat) (indices : List Nat) :
    (channel : Nat) → Heads → List (List Sample) → Scan
  | _, heads, [] => .found heads
  | channel, heads, samples :: rest =>
    match indices[channel]? with
    | none => .panicked
    | some index =>
      if numSamples ≤ index then .exhausted
      else
        match samples[index]? with
        | none => .panicked
        | some sample => scan numSamples indices (channel + 1) (heads.add channel sample) rest

/-! ## The loop -/

structure PairState where
  indices : List Nat
  outEffective : List Nat

inductive PairResult where
  | returned (paired : Nat) (outEffective : List Nat)
  | panicked
deriving DecidableEq, Repr

def pairStep (allSamples : List (List Sample)) (numSamples : Nat) (s : PairState) :
    Flow PairState PairResult :=
  match scan numSamples s.indices 0 .start allSamples with
  | .panicked => .done .panicked
  | .exhausted => .done (.returned s.outEffective.length s.outEffective)
  | .found heads =>
    if heads.maxTimestamp < heads.minTimestamp then .done .panicked
    else if heads.maxTimestamp - heads.minTimestamp < maxPairGap then
      .next
        { indices := s.indices.map (· + 1)
          outEffective := s.outEffective ++ [heads.minLatency] }
    else
      match heads.minChannel with
      | none => .next s
      | some channel =>
        match s.indices[channel]? with
        | none => .done .panicked
        | some index => .next { s with indices := s.indices.set channel (index + 1) }

/-- `none` where `fuel` rounds of the loop are not enough. -/
def pairSamplesN (fuel : Nat) (allSamples : List (List Sample)) (numSamples : Nat)
    (outEffective : List Nat) : Option PairResult :=
  if allSamples.isEmpty then some (.returned 0 outEffective)
  else
    loop (pairStep allSamples numSamples) fuel
      { indices := List.replicate allSamples.length 0, outEffective := outEffective }

end Tailslayer
