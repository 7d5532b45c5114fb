import Mathlib.Algebra.Order.BigOperators.Group.List
import Tailslayer.PairSamples
import Tailslayer.Pool.Lists

/-!
# One round of the pairing loop

A pass over the heads ends with their extreme timestamps and their least latency
(`Heads.Sums`), whatever the starting values: with at least one channel
`u64::MAX` and 0 are the extremes of some sample or have been replaced.  So a
round returns, takes the heads as a group, or drops a head (`pairStep_cases`);
the round that would change nothing does not occur.
-/

namespace Tailslayer

open Loop Lists

/-! ## What a pass finds -/

/-- `heads` sums up the samples `hs` of the first channels. -/
structure Heads.Sums (heads : Heads) (hs : List Sample) : Prop where
  minTimestamp_eq : heads.minTimestamp = (hs.map (·.timestamp)).foldl min u64Max
  maxTimestamp_eq : heads.maxTimestamp = (hs.map (·.timestamp)).foldl max 0
  minLatency_eq : heads.minLatency = (hs.map (·.latency)).foldl min u64Max
  channel : ∀ c, heads.minChannel = some c →
    ∃ s, hs[c]? = some s ∧ s.timestamp = heads.minTimestamp
  no_channel : heads.minChannel = none → heads.minTimestamp = u64Max

theorem Heads.sums_start : Heads.start.Sums [] :=
  ⟨rfl, rfl, rfl, fun c h => (by cases h), fun _ => rfl⟩

theorem Heads.Sums.add {heads : Heads} {hs : List Sample} (h : heads.Sums hs) (sample : Sample) :
    (heads.add hs.length sample).Sums (hs ++ [sample]) where
  minTimestamp_eq := by
    rw [List.map_append, List.foldl_append, ← h.minTimestamp_eq]
    show (if _ then _ else _) = min heads.minTimestamp sample.timestamp
    split <;> omega
  maxTimestamp_eq := by
    rw [List.map_append, List.foldl_append, ← h.maxTimestamp_eq]
    show (if _ then _ else _) = max heads.maxTimestamp sample.timestamp
    split <;> omega
  minLatency_eq := by
    rw [List.map_append, List.foldl_append, ← h.minLatency_eq]
    show (if _ then _ else _) = min heads.minLatency sample.latency
    split <;> omega
  channel := by
    intro c hc
    unfold Heads.add at hc ⊢
    by_cases hlt : sample.timestamp < heads.minTimestamp
    · simp only [if_pos hlt] at hc ⊢
      cases hc
      exact ⟨sample, List.getElem?_concat_length, rfl⟩
    · simp only [if_neg hlt] at hc ⊢
      obtain ⟨s, hs, ht⟩ := h.channel c hc
      obtain ⟨hc', -⟩ := List.getElem?_eq_some_iff.mp hs
      exact ⟨s, by rw [List.getElem?_append_left hc', hs], ht⟩
  no_channel := by
    intro hc
    unfold Heads.add at hc ⊢
    by_cases hlt : sample.timestamp < heads.minTimestamp
    · simp only [if_pos hlt] at hc
      cases hc
    · simp only [if_neg hlt] at hc ⊢
      exact h.no_channel hc

section
variable {heads : Heads} {hs : List Sample} (h : heads.Sums hs) (hne : hs ≠ [])
include h hne

theorem Heads.Sums.isLeast_timestamp :
    IsLeast {t | ∃ s ∈ hs, s.timestamp = t} heads.minTimestamp := by
  have hle : ∀ x ∈ hs.map (·.timestamp), x ≤ u64Max := by
    intro x hx
    obtain ⟨s, -, rfl⟩ := List.mem_map.mp hx
    exact s.timestamp_le
  have hleast := isLeast_foldl_min (by simpa using hne) hle
  rw [← h.minTimestamp_eq] at hleast
  simpa only [List.mem_map] using hleast

theorem Heads.Sums.isGreatest_timestamp :
    IsGreatest {t | ∃ s ∈ hs, s.timestamp = t} heads.maxTimestamp := by
  have hgreatest := isGreatest_foldl_max (show hs.map (·.timestamp) ≠ [] by simpa using hne)
  rw [← h.maxTimestamp_eq] at hgreatest
  simpa only [List.mem_map] using hgreatest

theorem Heads.Sums.isLeast_latency :
    IsLeast {l | ∃ s ∈ hs, s.latency = l} heads.minLatency := by
  have hle : ∀ x ∈ hs.map (·.latency), x ≤ u64Max := by
    intro x hx
    obtain ⟨s, -, rfl⟩ := List.mem_map.mp hx
    exact s.latency_le
  have hleast := isLeast_foldl_min (by simpa using hne) hle
  rw [← h.minLatency_eq] at hleast
  simpa only [List.mem_map] using hleast

theorem Heads.Sums.min_le_max : heads.minTimestamp ≤ heads.maxTimestamp := by
  obtain ⟨s, hs, ht⟩ := (h.isLeast_timestamp hne).1
  rw [← ht]
  exact (h.isGreatest_timestamp hne).2 ⟨s, hs, rfl⟩

end

/-! ## Groups -/

section
variable (allSamples : List (List Sample)) (numSamples : Nat)

/-- The head of a channel, for one index a channel. -/
def HeadAt (indices : List Nat) (channel : Nat) (sample : Sample) : Prop :=
  ∃ samples index, allSamples[channel]? = some samples ∧ indices[channel]? = some index ∧
    index < numSamples ∧ samples[index]? = some sample

/-- One sample of each channel, less than `MAX_PAIR_GAP` apart. -/
structure Genuine (group : List Nat) : Prop where
  length_eq : group.length = allSamples.length
  lt : ∀ index ∈ group, index < numSamples
  close : ∀ c d s t, HeadAt allSamples numSamples group c s →
    HeadAt allSamples numSamples group d t → s.timestamp < t.timestamp + maxPairGap

/-- The least latency of a group. -/
def LeastLatency (group : List Nat) (latency : Nat) : Prop :=
  IsLeast {l | ∃ c s, HeadAt allSamples numSamples group c s ∧ s.latency = l} latency

end

/-- One group is past the other in every channel. -/
def Before (group group' : List Nat) : Prop :=
  ∀ channel index index' : Nat, group[channel]? = some index → group'[channel]? = some index' →
    index < index'

/-- Two groups use no sample twice. -/
def Apart (group group' : List Nat) : Prop :=
  ∀ (channel index : Nat), group[channel]? = some index → group'[channel]? ≠ some index

/-! ## What a round does -/

section
variable {allSamples : List (List Sample)} {numSamples : Nat} {indices : List Nat}

/-- A pass that ends has seen the head of every channel. -/
theorem scan_found : ∀ rest (hs : List Sample) heads heads',
    (∀ c s, hs[c]? = some s → HeadAt allSamples numSamples indices c s) → heads.Sums hs →
    allSamples.drop hs.length = rest →
    scan numSamples indices hs.length heads rest = .found heads' →
    ∃ hs' : List Sample, hs'.length = hs.length + rest.length ∧
      (∀ c s, hs'[c]? = some s → HeadAt allSamples numSamples indices c s) ∧ heads'.Sums hs' := by
  intro rest
  induction rest with
  | nil =>
    intro hs heads heads' hhs hsums _ h
    cases h
    exact ⟨hs, rfl, hhs, hsums⟩
  | cons samples rest ih =>
    intro hs heads heads' hhs hsums hdrop h
    unfold scan at h
    split at h
    · cases h
    · next index hindex =>
      split at h
      · cases h
      · next hlt =>
        split at h
        · cases h
        · next sample hsample =>
          have hchannel : allSamples[hs.length]? = some samples := by
            rw [← List.head?_drop, hdrop, List.head?_cons]
          have hsucc : (hs ++ [sample]).length = hs.length + 1 := by simp
          have hdrop' : allSamples.drop (hs ++ [sample]).length = rest := by
            rw [hsucc, ← List.drop_drop, hdrop, List.drop_succ_cons, List.drop_zero]
          have hheads : ∀ c s, (hs ++ [sample])[c]? = some s →
              HeadAt allSamples numSamples indices c s := by
            intro c s hc
            rcases getElem?_concat_cases hc with hold | ⟨rfl, rfl⟩
            · exact hhs c s hold
            · exact ⟨samples, index, hchannel, hindex, Nat.lt_of_not_le hlt, hsample⟩
          rw [← hsucc] at h
          obtain ⟨hs', hlen, hhs', hsums'⟩ :=
            ih (hs ++ [sample]) _ heads' hheads (hsums.add sample) hdrop' h
          refine ⟨hs', ?_, hhs', hsums'⟩
          rw [hlen, hsucc, List.length_cons]
          omega

theorem scan_exhausted : ∀ rest channel heads,
    scan numSamples indices channel heads rest = .exhausted →
    ∃ index ∈ indices, numSamples ≤ index := by
  intro rest
  induction rest with
  | nil =>
    intro channel heads h
    cases h
  | cons samples rest ih =>
    intro channel heads h
    unfold scan at h
    split at h
    · cases h
    · next index hindex =>
      split at h
      · next hle => exact ⟨index, List.mem_of_getElem? hindex, hle⟩
      · split at h
        · cases h
        · exact ih _ _ h

/-- No index is out of bounds. -/
theorem scan_ne_panicked : ∀ rest channel heads, channel + rest.length ≤ indices.length →
    (∀ samples ∈ rest, numSamples ≤ samples.length) →
    scan numSamples indices channel heads rest ≠ .panicked := by
  intro rest
  induction rest with
  | nil =>
    intro channel heads _ _ h
    cases h
  | cons samples rest ih =>
    intro channel heads hlen hsamples h
    rw [List.length_cons] at hlen
    unfold scan at h
    rw [List.getElem?_eq_getElem (by omega)] at h
    dsimp only at h
    split at h
    · cases h
    · next hlt =>
      have hlong := hsamples samples List.mem_cons_self
      rw [List.getElem?_eq_getElem (by omega)] at h
      exact ih _ _ (by omega) (fun s hs => hsamples s (List.mem_cons_of_mem _ hs)) h

theorem HeadAt.unique {c : Nat} {s t : Sample} (hs : HeadAt allSamples numSamples indices c s)
    (ht : HeadAt allSamples numSamples indices c t) : s = t := by
  obtain ⟨samples, index, h1, h2, -, h3⟩ := hs
  obtain ⟨samples', index', h1', h2', -, h3'⟩ := ht
  rw [h1] at h1'
  cases h1'
  rw [h2] at h2'
  cases h2'
  exact Option.some.inj (h3.symm.trans h3')

theorem HeadAt.channel_lt {c : Nat} {s : Sample} (hs : HeadAt allSamples numSamples indices c s) :
    c < allSamples.length := by
  obtain ⟨samples, index, h1, -⟩ := hs
  exact (List.getElem?_eq_some_iff.mp h1).1

/-- The heads a whole pass has summed up. -/
theorem scan_heads {heads : Heads}
    (h : scan numSamples indices 0 .start allSamples = .found heads) :
    ∃ hs : List Sample, hs.length = allSamples.length ∧ heads.Sums hs ∧
      ∀ c s, hs[c]? = some s ↔ HeadAt allSamples numSamples indices c s := by
  obtain ⟨hs, hlen, hheads, hsums⟩ := scan_found allSamples [] .start heads
    (fun c s hc => by cases hc) Heads.sums_start rfl h
  rw [List.length_nil, Nat.zero_add] at hlen
  refine ⟨hs, hlen, hsums, fun c s => ⟨hheads c s, fun hhead => ?_⟩⟩
  have hget := List.getElem?_eq_getElem (hlen ▸ hhead.channel_lt)
  rw [hget, (hheads c _ hget).unique hhead]

/-- **One round.**  It returns when a channel is used up; else the heads make a
group, or the earliest one is too far from another and is dropped. -/
theorem pairStep_cases (hne : allSamples ≠ [])
    (hlong : ∀ samples ∈ allSamples, numSamples ≤ samples.length) (s : PairState)
    (hlen : s.indices.length = allSamples.length) :
    (pairStep allSamples numSamples s =
        .done (.returned s.outEffective.length s.outEffective) ∧
      ∃ index ∈ s.indices, numSamples ≤ index) ∨
    (∀ index ∈ s.indices, index < numSamples) ∧
      ((∃ latency, pairStep allSamples numSamples s =
            .next ⟨s.indices.map (· + 1), s.outEffective ++ [latency]⟩ ∧
          Genuine allSamples numSamples s.indices ∧
          LeastLatency allSamples numSamples s.indices latency) ∨
        ∃ c d index early late, pairStep allSamples numSamples s =
            .next { s with indices := s.indices.set c (index + 1) } ∧
          s.indices[c]? = some index ∧ HeadAt allSamples numSamples s.indices c early ∧
          HeadAt allSamples numSamples s.indices d late ∧
          early.timestamp + maxPairGap ≤ late.timestamp) := by
  cases hscan : scan numSamples s.indices 0 .start allSamples with
  | panicked => exact absurd hscan (scan_ne_panicked _ _ _ (by omega) hlong)
  | exhausted =>
    refine Or.inl ⟨?_, scan_exhausted _ _ _ hscan⟩
    simp only [pairStep, hscan]
  | found heads =>
    obtain ⟨hs, hhs, hsums, hheads⟩ := scan_heads hscan
    have hhs0 : hs ≠ [] := by
      rintro rfl
      exact hne (List.length_eq_zero_iff.mp hhs.symm)
    have hmem : ∀ t, t ∈ hs ↔ ∃ c, HeadAt allSamples numSamples s.indices c t := by
      intro t
      simp only [List.mem_iff_getElem?, hheads]
    have hmin := hsums.isLeast_timestamp hhs0
    have hmax := hsums.isGreatest_timestamp hhs0
    have hle := hsums.min_le_max hhs0
    have hbelow : ∀ index ∈ s.indices, index < numSamples := by
      intro index hindex
      obtain ⟨c, hc⟩ := List.mem_iff_getElem?.mp hindex
      obtain ⟨hlt, -⟩ := List.getElem?_eq_some_iff.mp hc
      obtain ⟨samples, index', -, hc', hbelow, -⟩ :=
        (hheads c _).mp (List.getElem?_eq_getElem (show c < hs.length by omega))
      rw [hc] at hc'
      cases hc'
      exact hbelow
    refine Or.inr ⟨hbelow, ?_⟩
    by_cases hclose : heads.maxTimestamp - heads.minTimestamp < maxPairGap
    · refine Or.inl ⟨heads.minLatency, ?_, ⟨hlen, hbelow, fun c d a b ha hb => ?_⟩, ?_⟩
      · simp only [pairStep, hscan, if_neg (Nat.not_lt.mpr hle), if_pos hclose]
      · have hmax' := hmax.2 ⟨a, (hmem a).mpr ⟨c, ha⟩, rfl⟩
        have hmin' := hmin.2 ⟨b, (hmem b).mpr ⟨d, hb⟩, rfl⟩
        omega
      · obtain ⟨⟨a, ha, hlatency⟩, hleast⟩ := hsums.isLeast_latency hhs0
        obtain ⟨c, hc⟩ := (hmem a).mp ha
        refine ⟨⟨c, a, hc, hlatency⟩, ?_⟩
        rintro _ ⟨d, b, hd, rfl⟩
        exact hleast ⟨b, (hmem b).mpr ⟨d, hd⟩, rfl⟩
    · right
      obtain ⟨late, hlate, hlt⟩ := hmax.1
      obtain ⟨d, hd⟩ := (hmem late).mp hlate
      cases hchannel : heads.minChannel with
      | none =>
        -- all timestamps are `u64::MAX`, so the heads are close
        have hnone := hsums.no_channel hchannel
        have := late.timestamp_le
        unfold maxPairGap at hclose
        omega
      | some c =>
        obtain ⟨early, hc, hearly⟩ := hsums.channel c hchannel
        obtain ⟨samples, index, hs1, hs2, hs3, hs4⟩ := (hheads c early).mp hc
        refine ⟨c, d, index, early, late, ?_, hs2, ⟨samples, index, hs1, hs2, hs3, hs4⟩, hd, ?_⟩
        · simp only [pairStep, hscan, if_neg (Nat.not_lt.mpr hle), if_neg hclose, hchannel, hs2]
        · omega

section
variable (hne : allSamples ≠ []) (hlong : ∀ samples ∈ allSamples, numSamples ≤ samples.length)
  {s : PairState} (hlen : s.indices.length = allSamples.length)
include hne hlong hlen

theorem pairStep_next {s' : PairState} (hstep : pairStep allSamples numSamples s = .next s') :
    (∀ index ∈ s.indices, index < numSamples) ∧
      ((∃ latency, s' = ⟨s.indices.map (· + 1), s.outEffective ++ [latency]⟩ ∧
          Genuine allSamples numSamples s.indices ∧
          LeastLatency allSamples numSamples s.indices latency) ∨
        ∃ c d index early late, s' = { s with indices := s.indices.set c (index + 1) } ∧
          s.indices[c]? = some index ∧ HeadAt allSamples numSamples s.indices c early ∧
          HeadAt allSamples numSamples s.indices d late ∧
          early.timestamp + maxPairGap ≤ late.timestamp) := by
  rcases pairStep_cases hne hlong s hlen with
    ⟨hdone, -⟩ | ⟨hbelow, ⟨latency, hnext, htaken⟩ | ⟨c, d, index, early, late, hnext, hdropped⟩⟩
  · exact absurd (hstep.symm.trans hdone) (by simp)
  · exact ⟨hbelow, Or.inl ⟨latency, Flow.next.inj (hstep.symm.trans hnext), htaken⟩⟩
  · exact ⟨hbelow, Or.inr ⟨c, d, index, early, late, Flow.next.inj (hstep.symm.trans hnext),
      hdropped⟩⟩

theorem pairStep_done {r : PairResult} (hstep : pairStep allSamples numSamples s = .done r) :
    r = .returned s.outEffective.length s.outEffective ∧
      ∃ index ∈ s.indices, numSamples ≤ index := by
  rcases pairStep_cases hne hlong s hlen with
    ⟨hdone, hend⟩ | ⟨-, ⟨latency, hnext, -⟩ | ⟨c, d, index, early, late, hnext, -⟩⟩
  · exact ⟨Flow.done.inj (hstep.symm.trans hdone), hend⟩
  · exact absurd (hstep.symm.trans hnext) (by simp)
  · exact absurd (hstep.symm.trans hnext) (by simp)

end

end

end Tailslayer
