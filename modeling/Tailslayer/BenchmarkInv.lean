import Tailslayer.Benchmark

/-!
# What a run of the benchmark keeps

`Inv` says at every moment which threads there are, which of them were joined, and how
far the others can have come, given where the main thread is.  The threads of either kind
are a crew that works in rounds, one round for each arm.

Here are its parts, and what one step of a thread can do to it.  That all steps keep the
invariant is in `BenchmarkSteps`.
-/

namespace Tailslayer

open Crews

/-! ## Where a thread is -/

/-- It has seen the signal. -/
def MeasurePc.Past : MeasurePc → Prop
  | .warmup _ | .sampling | .reading _ | .timing _ | .returned => True
  | _ => False

/-- It has seen `go`. -/
def StressPc.Past : StressPc → Prop
  | .loopTop | .touching | .returned => True
  | _ => False

def Pins (host : Host) (core : Nat) : Prop := pinToCore host core = some (.ok ())

theorem Pins.not_none {host : Host} {core : Nat} (h : Pins host core) :
    pinToCore host core ≠ none := by
  rw [show pinToCore host core = _ from h]
  simp

/-- The samples that are asked for can be a vector. -/
def Setup.SamplesFit (b : Setup) : Prop := FitsVec Benchmark.sampleBytes b.config.samples

instance (b : Setup) : Decidable b.SamplesFit := inferInstanceAs (Decidable (FitsVec _ _))

/-- A thread on `core` gets to its samples. -/
def Setup.Measures (b : Setup) (core : Nat) : Prop := Pins b.host core ∧ b.SamplesFit

/-- One sample ends before the next one begins, and the last one before `now`. -/
structure InOrder (samples : List Sample) (now : Nat) : Prop where
  pairwise : samples.Pairwise fun s t => s.timestamp + s.latency ≤ t.timestamp
  before : ∀ s ∈ samples, s.timestamp + s.latency ≤ now

theorem InOrder.mono {samples : List Sample} {now now' : Nat} (h : InOrder samples now)
    (hle : now ≤ now') : InOrder samples now' :=
  ⟨h.pairwise, fun s hs => Nat.le_trans (h.before s hs) hle⟩

theorem InOrder.nil (now : Nat) : InOrder [] now := ⟨.nil, fun _ h => by cases h⟩

theorem InOrder.sorted {samples : List Sample} {now : Nat} (h : InOrder samples now) :
    samples.Pairwise fun s t => s.timestamp ≤ t.timestamp :=
  h.pairwise.imp fun hst => Nat.le_trans (Nat.le_add_right _ _) hst

/-- What a measurement thread has done at its program point. -/
def Measurement.At (b : Setup) (now : Nat) (m : Measurement) : MeasurePc → Prop
  | .unspawned => True
  | .pinning => m.samples = []
  | .waiting | .warmup _ => Pins b.host m.core ∧ m.samples = []
  | .sampling =>
    b.Measures m.core ∧ m.samples.length ≤ b.config.samples ∧ InOrder m.samples now
  | .reading t0 | .timing t0 =>
    b.Measures m.core ∧ m.samples.length < b.config.samples ∧ InOrder m.samples t0 ∧
      t0.val ≤ now
  | .returned => b.Measures m.core ∧ m.samples.length = b.config.samples ∧ InOrder m.samples now
  | .failed e => pinToCore b.host m.core = some (.error e)
  | .panicked => Pins b.host m.core ∧ ¬ b.SamplesFit

def Stress.At (b : Setup) (m : Stress) : StressPc → Prop
  | .unspawned | .pinning => True
  | .waiting | .loopTop | .touching | .returned => Pins b.host m.core
  | .failed e => pinToCore b.host m.core = some (.error e)

theorem Measurement.At.mono {b : Setup} {now now' : Nat} {m : Measurement} {pc : MeasurePc}
    (h : m.At b now pc) (hle : now ≤ now') : m.At b now' pc := by
  cases pc with
  | sampling => exact ⟨h.1, h.2.1, h.2.2.mono hle⟩
  | returned => exact ⟨h.1, h.2.1, h.2.2.mono hle⟩
  | reading t0 | timing t0 => exact ⟨h.1, h.2.1, h.2.2.1, Nat.le_trans h.2.2.2 hle⟩
  | unspawned | pinning | waiting | warmup | failed | panicked => exact h

/-- A thread whose pinning failed ends with an error, any other one in the end returns. -/
theorem Measurement.at_returned {b : Setup} {now : Nat} {m : Measurement}
    (h : m.At b now m.pc) (hret : m.status = .returned) :
    b.Measures m.core ∧ m.samples.length = b.config.samples ∧ InOrder m.samples now := by
  cases hpc : m.pc with
  | returned =>
    rw [hpc] at h
    exact h
  | _ => simp [status, hpc] at hret

theorem Measurement.not_pins_of_failed {b : Setup} (hfit : b.SamplesFit) {now : Nat}
    {m : Measurement} {e : RunError} (h : m.At b now m.pc) (hfail : m.status = .failed e) :
    ¬ Pins b.host m.core := by
  unfold Pins
  cases hpc : m.pc with
  | failed e' =>
    rw [hpc] at h
    rw [show pinToCore b.host m.core = _ from h]
    simp
  | panicked =>
    rw [hpc] at h
    exact absurd hfit h.2
  | _ => simp [status, hpc] at hfail

theorem Stress.pins_of_returned {b : Setup} {m : Stress} (h : m.At b m.pc)
    (hret : m.status = .returned) : Pins b.host m.core := by
  cases hpc : m.pc with
  | returned =>
    rw [hpc] at h
    exact h
  | _ => simp [status, hpc] at hret

theorem Stress.not_pins_of_failed {b : Setup} {m : Stress} {e : RunError} (h : m.At b m.pc)
    (hfail : m.status = .failed e) : ¬ Pins b.host m.core := by
  unfold Pins
  cases hpc : m.pc with
  | failed e' =>
    rw [hpc] at h
    rw [show pinToCore b.host m.core = _ from h]
    simp
  | _ => simp [status, hpc] at hfail

/-! ## Steps of a thread -/

/-- How a measurement thread gets on, given the signal and the counter. -/
inductive Measurement.Move (b : Setup) (signal : Bool) (now : Fin (2 ^ 64)) (m : Measurement) :
    Measurement → Prop where
  | pinFails (e : IoError) (hpc : m.pc = .pinning)
      (hpin : pinToCore b.host m.core = some (.error e)) :
      Move b signal now m { m with pc := .failed e }
  | pins (hpc : m.pc = .pinning) (hpin : Pins b.host m.core) :
      Move b signal now m { m with pc := .waiting }
  | signalled (hpc : m.pc = .waiting) (hsignal : signal = true) :
      Move b signal now m { m with pc := .warmup 0 }
  | warms (i : Nat) (hpc : m.pc = .warmup i) (hi : i < warmupIters) :
      Move b signal now m { m with pc := .warmup (i + 1) }
  | warmedUp (i : Nat) (hpc : m.pc = .warmup i) (hfit : b.SamplesFit) :
      Move b signal now m { m with pc := .sampling }
  | overflows (i : Nat) (hpc : m.pc = .warmup i) (hbig : ¬ b.SamplesFit) :
      Move b signal now m { m with pc := .panicked }
  | starts (hpc : m.pc = .sampling) (hlen : m.samples.length < b.config.samples) :
      Move b signal now m { m with pc := .reading now }
  | returns (hpc : m.pc = .sampling) (hlen : ¬ m.samples.length < b.config.samples) :
      Move b signal now m { m with pc := .returned }
  | reads (t0 : Fin (2 ^ 64)) (hpc : m.pc = .reading t0) :
      Move b signal now m { m with pc := .timing t0 }
  | underflows (t0 : Fin (2 ^ 64)) (hpc : m.pc = .timing t0) (hlt : ¬ t0 ≤ now) :
      Move b signal now m { m with pc := .panicked }
  | records (t0 : Fin (2 ^ 64)) (sample : Sample) (hpc : m.pc = .timing t0)
      (hsample : Benchmark.sampleOf t0 now = some sample) :
      Move b signal now m { m with pc := .sampling, samples := m.samples ++ [sample] }

/-- What is still to come of a thread that has seen the signal or will. -/
def Measurement.stepsLeft (samples : Nat) (m : Measurement) : Nat :=
  match m.pc with
  | .pinning => 3 * samples + warmupIters + 4
  | .waiting => 3 * samples + warmupIters + 3
  | .warmup i => 3 * samples + (warmupIters - i) + 2
  | .sampling => 3 * (samples - m.samples.length) + 1
  | .reading _ => 3 * (samples - m.samples.length)
  | .timing _ => 3 * (samples - m.samples.length) - 1
  | .unspawned | .returned | .failed _ | .panicked => 0

namespace Measurement.Move

variable {b : Setup} {signal : Bool} {now : Fin (2 ^ 64)} {m m' : Measurement}
  (h : Move b signal now m m')
include h

theorem running : m.status = .running := by
  cases h <;> simp [status, *]

theorem present : m'.status ≠ .absent := by
  cases h <;> simp [status]

theorem addr_eq : m'.addr = m.addr := by
  cases h <;> rfl

theorem core_eq : m'.core = m.core := by
  cases h <;> rfl

theorem past (hpast : m'.pc.Past) : m.pc.Past ∨ signal = true := by
  cases h with
  | signalled hpc hsignal => exact Or.inr hsignal
  | pinFails | pins | overflows | underflows => exact hpast.elim
  | warms i hpc | warmedUp i hpc | starts hpc | returns hpc | reads t0 hpc | records t0 x hpc =>
    rw [hpc]
    exact Or.inl trivial

theorem keeps_at (hat : m.At b now m.pc) : m'.At b now m'.pc := by
  cases h with
  | pinFails e hpc hpin => exact hpin
  | pins hpc hpin =>
    rw [hpc] at hat
    exact ⟨hpin, hat⟩
  | signalled hpc | warms i hpc =>
    rw [hpc] at hat
    exact hat
  | warmedUp i hpc hfit =>
    rw [hpc] at hat
    obtain ⟨hpin, hnil⟩ := hat
    refine ⟨⟨hpin, hfit⟩, ?_⟩
    simp only [hnil]
    exact ⟨Nat.zero_le _, .nil _⟩
  | overflows i hpc hbig =>
    rw [hpc] at hat
    exact ⟨hat.1, hbig⟩
  | starts hpc hlen =>
    rw [hpc] at hat
    exact ⟨hat.1, hlen, hat.2.2, Nat.le_refl _⟩
  | returns hpc hlen =>
    rw [hpc] at hat
    exact ⟨hat.1, Nat.le_antisymm hat.2.1 (Nat.le_of_not_lt hlen), hat.2.2⟩
  | reads t0 hpc =>
    rw [hpc] at hat
    exact hat
  | underflows t0 hpc hlt =>
    -- the counter does not go back
    rw [hpc] at hat
    exact absurd hat.2.2.2 hlt
  | records t0 sample hpc hsample =>
    rw [hpc] at hat
    obtain ⟨hpin, hlen, hord, hle⟩ := hat
    rw [Benchmark.sampleOf, if_pos (show t0 ≤ now from hle)] at hsample
    cases hsample
    refine ⟨hpin, ?_, ?_, fun x hx => ?_⟩
    · simp only [List.length_append, List.length_singleton]
      omega
    · refine List.pairwise_append.mpr ⟨hord.pairwise, List.pairwise_singleton _ _, ?_⟩
      intro x hx y hy
      rw [List.mem_singleton.mp hy]
      exact hord.before x hx
    · rcases List.mem_append.mp hx with hx | hx
      · exact Nat.le_trans (hord.before x hx) hle
      · rw [List.mem_singleton.mp hx]
        show t0.val + (now.val - t0.val) ≤ now.val
        omega

theorem stepsLeft_lt (hat : m.At b now m.pc) :
    m'.stepsLeft b.config.samples < m.stepsLeft b.config.samples := by
  cases h with
  | pinFails e hpc | pins hpc | signalled hpc | warms i hpc | overflows i hpc | returns hpc
  | starts hpc =>
    simp only [Measurement.stepsLeft, hpc]
    omega
  | warmedUp i hpc =>
    rw [hpc] at hat
    simp only [Measurement.stepsLeft, hpc, hat.2, List.length_nil]
    omega
  | reads t0 hpc | underflows t0 hpc =>
    rw [hpc] at hat
    have hlen := hat.2.1
    simp only [Measurement.stepsLeft, hpc]
    omega
  | records t0 sample hpc =>
    rw [hpc] at hat
    have hlen := hat.2.1
    simp only [Measurement.stepsLeft, hpc, List.length_append, List.length_singleton]
    omega

end Measurement.Move

/-- How a stress thread gets on, given the signals of its arm. -/
inductive Stress.Move (b : Setup) (go stop : Bool) (m : Stress) : Stress → Prop where
  | pinFails (e : IoError) (hpc : m.pc = .pinning)
      (hpin : pinToCore b.host m.core = some (.error e)) :
      Move b go stop m { m with pc := .failed e }
  | pins (hpc : m.pc = .pinning) (hpin : Pins b.host m.core) :
      Move b go stop m { m with pc := .waiting }
  | goes (hpc : m.pc = .waiting) (hgo : go = true) : Move b go stop m { m with pc := .loopTop }
  | returns (hpc : m.pc = .loopTop) (hstop : stop = true) :
      Move b go stop m { m with pc := .returned }
  | chooses (hpc : m.pc = .loopTop) (hstop : ¬ stop = true) :
      Move b go stop m { m with pc := .touching, state := Benchmark.stressNext m.state }
  | touches (hpc : m.pc = .touching) : Move b go stop m { m with pc := .loopTop }

/-- What is still to come of a thread that was told to stop. -/
def Stress.stepsLeft (m : Stress) : Nat :=
  match m.pc with
  | .pinning => 4
  | .waiting => 3
  | .touching => 2
  | .loopTop => 1
  | .unspawned | .returned | .failed _ => 0

namespace Stress.Move

variable {b : Setup} {go stop : Bool} {m m' : Stress} (h : Move b go stop m m')
include h

theorem running : m.status = .running := by
  cases h <;> simp [status, *]

theorem present : m'.status ≠ .absent := by
  cases h <;> simp [status]

theorem region_eq : m'.region = m.region := by
  cases h <;> rfl

theorem core_eq : m'.core = m.core := by
  cases h <;> rfl

theorem past (hpast : m'.pc.Past) : m.pc.Past ∨ go = true := by
  cases h with
  | goes hpc hgo => exact Or.inr hgo
  | pinFails | pins => exact hpast.elim
  | returns hpc | chooses hpc | touches hpc =>
    rw [hpc]
    exact Or.inl trivial

theorem keeps_at (hat : m.At b m.pc) : m'.At b m'.pc := by
  cases h with
  | pinFails e hpc hpin => exact hpin
  | pins hpc hpin => exact hpin
  | goes hpc | returns hpc | chooses hpc | touches hpc =>
    rw [hpc] at hat
    exact hat

theorem stepsLeft_lt (hstop : stop = true) : m'.stepsLeft < m.stepsLeft := by
  cases h with
  | chooses hpc hno => exact absurd hstop hno
  | pinFails e hpc | pins hpc | goes hpc | returns hpc | touches hpc =>
    simp only [Stress.stepsLeft, hpc]
    omega

end Stress.Move

namespace Benchmark

variable {b : Setup} {s s' : Benchmark} {t : Nat × Nat}

/-- A measurement thread gets on, or reads memory that is gone. -/
theorem measureStep_cases (hs : s.measureStep b t = some s') :
    (∃ m, (s.measures t).Move b s.signal s.tsc m ∧ s' = s.setMeasure t m) ∨
    s.replicasMapped = false ∧ (s.measures t).status = .running ∧ (s.measures t).pc.Past ∧
      s' = s.crash := by
  unfold measureStep at hs
  dsimp only at hs
  split at hs
  · next hpc =>
    split at hs
    · cases hs
    · next e hpin =>
      cases hs
      exact Or.inl ⟨_, .pinFails e hpc hpin, rfl⟩
    · next hpin =>
      cases hs
      exact Or.inl ⟨_, .pins hpc hpin, rfl⟩
  · next hpc =>
    split at hs
    · next hsignal =>
      cases hs
      exact Or.inl ⟨_, .signalled hpc hsignal, rfl⟩
    · cases hs
  · next i hpc =>
    split at hs
    · next hi =>
      split at hs
      · cases hs
        exact Or.inl ⟨_, .warms i hpc hi, rfl⟩
      · next hun =>
        cases hs
        exact Or.inr ⟨by simpa using hun, by simp [Measurement.status, hpc],
          by rw [hpc]; trivial, rfl⟩
    · split at hs
      · next hfit =>
        cases hs
        exact Or.inl ⟨_, .warmedUp i hpc hfit, rfl⟩
      · next hbig =>
        cases hs
        exact Or.inl ⟨_, .overflows i hpc hbig, rfl⟩
  · next hpc =>
    split at hs
    · next hlen =>
      split at hs
      · cases hs
        exact Or.inl ⟨_, .starts hpc hlen, rfl⟩
      · next hun =>
        cases hs
        exact Or.inr ⟨by simpa using hun, by simp [Measurement.status, hpc],
          by rw [hpc]; trivial, rfl⟩
    · next hlen =>
      cases hs
      exact Or.inl ⟨_, .returns hpc hlen, rfl⟩
  · next t0 hpc =>
    split at hs
    · cases hs
      exact Or.inl ⟨_, .reads t0 hpc, rfl⟩
    · next hun =>
      cases hs
      exact Or.inr ⟨by simpa using hun, by simp [Measurement.status, hpc],
        by rw [hpc]; trivial, rfl⟩
  · next t0 hpc =>
    split at hs
    · next hnone =>
      cases hs
      refine Or.inl ⟨_, .underflows t0 hpc fun hle => ?_, rfl⟩
      rw [sampleOf, if_pos hle] at hnone
      cases hnone
    · next sample hsome =>
      cases hs
      exact Or.inl ⟨_, .records t0 sample hpc hsome, rfl⟩
  all_goals cases hs

theorem stressStep_cases (hs : s.stressStep b t = some s') :
    (∃ m, (s.stresses t).Move b (s.go t.1) (s.stop t.1) m ∧ s' = s.setStress t m) ∨
    s.stressMapped = false ∧ (s.stresses t).status = .running ∧ (s.stresses t).pc.Past ∧
      s' = s.crash := by
  unfold stressStep at hs
  dsimp only at hs
  split at hs
  · next hpc =>
    split at hs
    · cases hs
    · next e hpin =>
      cases hs
      exact Or.inl ⟨_, .pinFails e hpc hpin, rfl⟩
    · next hpin =>
      cases hs
      exact Or.inl ⟨_, .pins hpc hpin, rfl⟩
  · next hpc =>
    split at hs
    · next hgo =>
      cases hs
      exact Or.inl ⟨_, .goes hpc hgo, rfl⟩
    · cases hs
  · next hpc =>
    split at hs
    · next hstop =>
      cases hs
      exact Or.inl ⟨_, .returns hpc hstop, rfl⟩
    · next hstop =>
      cases hs
      exact Or.inl ⟨_, .chooses hpc hstop, rfl⟩
  · next hpc =>
    split at hs
    · cases hs
      exact Or.inl ⟨_, .touches hpc, rfl⟩
    · next hun =>
      cases hs
      exact Or.inr ⟨by simpa using hun, by simp [Stress.status, hpc], by rw [hpc]; trivial, rfl⟩
  all_goals cases hs

end Benchmark

/-! ## Where the main thread is -/

namespace MainPc

/-- How many of the arm's `n` measurement threads were spawned. -/
def spawned (n : Nat) : MainPc → Nat
  | .armTop | .startStress _ | .go => 0
  | .spawn i => i
  | _ => n

/-- How many of the arm's `n` measurement threads were joined and had returned. -/
def joined (n : Nat) : MainPc → Nat
  | .join i => i
  | .stop | .joinStress _ | .write _ | .reset => n
  | _ => 0

/-- How many of the arm's `m` stress threads were spawned. -/
def stressed (m : Nat) : MainPc → Nat
  | .armTop => 0
  | .startStress i => i
  | _ => m

/-- How many of the arm's `m` stress threads were joined and had returned. -/
def joinedStress (m : Nat) : MainPc → Nat
  | .joinStress i => i
  | .write _ | .reset => m
  | _ => 0

/-- In an arm. -/
def Inside : MainPc → Prop
  | .startStress _ | .go | .spawn _ | .signal | .join _ | .stop | .joinStress _ | .write _
  | .reset => True
  | _ => False

/-- `go` was stored. -/
def Gone : MainPc → Prop
  | .armTop | .startStress _ | .go => False
  | _ => True

/-- The signal was stored. -/
def Signalled : MainPc → Prop
  | .armTop | .startStress _ | .go | .spawn _ | .signal => False
  | _ => True

/-- `stop` was stored. -/
def Stopped : MainPc → Prop
  | .armTop | .startStress _ | .go | .spawn _ | .signal | .join _ | .stop => False
  | _ => True

/-- `run` has returned. -/
def result? : MainPc → Option RunResult
  | .unmapReplicas result | .unmapStress result | .leave result | .exited result => some result
  | _ => none

end MainPc

namespace Setup

variable (b : Setup)

/-- The cores of arm `k`, in the order in which its threads are joined. -/
def cores (k : Nat) : List Nat :=
  (b.targets k).map (·.2) ++ (b.stressors k).map (·.2)

/-- All cores of the arms are those that a set can name. -/
def Pinnable : Prop := ∀ k, ∀ core ∈ b.cores k, core < 1024

/-- No thread of an earlier arm fails to pin. -/
def Reached (k : Nat) : Prop :=
  k < b.config.arms.length ∧ ∀ k', k' < k → ∀ core ∈ b.cores k', Pins b.host core

/-- In an arm that is reached one pinning fails, and one of a thread joined later does not. -/
def Torn : Prop :=
  ∃ k, b.Reached k ∧ ∃ (i j ci cj : Nat), i < j ∧ (b.cores k)[i]? = some ci ∧
    (b.cores k)[j]? = some cj ∧ ¬ Pins b.host ci ∧ Pins b.host cj

end Setup

namespace Benchmark

/-- Why `run` has returned. -/
inductive Closed (b : Setup) (s : Benchmark) : RunResult → Prop where
  | done (harm : s.arm = b.config.arms.length) : Closed b s .ok
  | unwritten (e : IoError) (hraw : b.config.rawPrefix.isSome = true)
      (hm : ∀ i, i < (b.targets s.arm).length → (s.measures (s.arm, i)).status = .returned)
      (hs : ∀ i, i < (b.stressors s.arm).length → (s.stresses (s.arm, i)).status = .returned)
      (harm : s.arm < b.config.arms.length) : Closed b s (.error (.io e))
  | measure (i : Nat) (e : RunError) (hi : i < (b.targets s.arm).length)
      (hbefore : ∀ j, j < i → (s.measures (s.arm, j)).status = .returned)
      (hfail : (s.measures (s.arm, i)).status = .failed e)
      (harm : s.arm < b.config.arms.length) : Closed b s (.error e)
  | stress (i : Nat) (e : RunError) (hi : i < (b.stressors s.arm).length)
      (hm : ∀ j, j < (b.targets s.arm).length → (s.measures (s.arm, j)).status = .returned)
      (hbefore : ∀ j, j < i → (s.stresses (s.arm, j)).status = .returned)
      (hfail : (s.stresses (s.arm, i)).status = .failed e)
      (harm : s.arm < b.config.arms.length) : Closed b s (.error e)

/-- The samples of the first `n` measurement threads of an arm. -/
def samplesOf (s : Benchmark) (arm n : Nat) : List (List Sample) :=
  (List.range n).map fun i => (s.measures (arm, i)).samples

/-- The measurement threads, and what the main thread has done about them. -/
structure MeasureInv (b : Setup) (s : Benchmark) : Prop where
  crew : Crew (fun k => (b.targets k).length) s.arm (s.main.spawned (b.targets s.arm).length)
    (s.main.joined (b.targets s.arm).length) (fun t => (s.measures t).status)
  target : ∀ t, (s.measures t).status ≠ .absent →
    (b.targets t.1)[t.2]? = some ((s.measures t).addr, (s.measures t).core)
  at_pc : ∀ t, (s.measures t).At b s.tsc (s.measures t).pc
  passed : ∀ t, (s.measures t).pc.Past → t.1 < s.arm ∨ s.main.Signalled
  signal : s.signal = true → s.main.Signalled
  signal_on : s.main.Inside → s.main.Signalled → s.signal = true
  results : s.main.Inside →
    s.results = s.samplesOf s.arm (s.main.joined (b.targets s.arm).length)
  mapped : s.replicasMapped = false → ∃ result, s.main = .unmapStress result ∨
    s.main = .leave result ∨ s.main = .exited result ∨ s.main = .crashed

/-- The stress threads, and what the main thread has done about them. -/
structure StressInv (b : Setup) (s : Benchmark) : Prop where
  crew : Crew (fun k => (b.stressors k).length) s.arm (s.main.stressed (b.stressors s.arm).length)
    (s.main.joinedStress (b.stressors s.arm).length) (fun t => (s.stresses t).status)
  target : ∀ t, (s.stresses t).status ≠ .absent →
    (b.stressors t.1)[t.2]? = some ((s.stresses t).region, (s.stresses t).core)
  at_pc : ∀ t, (s.stresses t).At b (s.stresses t).pc
  passed : ∀ t, (s.stresses t).pc.Past → t.1 < s.arm ∨ s.main.Gone
  go : ∀ k, s.go k = true → k < s.arm ∨ k = s.arm ∧ s.main.Gone
  go_on : s.main.Inside → s.main.Gone → b.stressors s.arm ≠ [] → s.go s.arm = true
  stop : ∀ k, s.stop k = true → k < s.arm ∨ k = s.arm ∧ s.main.Stopped
  stop_on : s.main.Inside → s.main.Stopped → s.stop s.arm = true
  mapped : s.stressMapped = false → ∃ result, s.main = .leave result ∨ s.main = .exited result ∨
    s.main = .crashed

structure Inv (b : Setup) (s : Benchmark) : Prop where
  arm_le : s.arm ≤ b.config.arms.length
  inside : s.main.Inside → s.arm < b.config.arms.length
  spawned_le : s.main.spawned (b.targets s.arm).length ≤ (b.targets s.arm).length
  joined_le : s.main.joined (b.targets s.arm).length ≤ (b.targets s.arm).length
  stressed_le : s.main.stressed (b.stressors s.arm).length ≤ (b.stressors s.arm).length
  joinedStress_le : s.main.joinedStress (b.stressors s.arm).length ≤ (b.stressors s.arm).length
  measures : MeasureInv b s
  stresses : StressInv b s
  closed : ∀ result, s.main.result? = some result → Closed b s result
  torn : s.main = .crashed → b.SamplesFit → b.Torn

end Benchmark

end Tailslayer
