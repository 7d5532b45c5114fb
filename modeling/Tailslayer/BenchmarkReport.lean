import Tailslayer.Percentiles
import Tailslayer.Pool.Lists

/-!
# What an arm of the benchmark reports

Source: `examples/hedged_read.rs`, `process_and_write` and what it calls, `compute_percentiles`
and `pair_samples_n` apart.

A `Chunk` is what is printed between two attempts to write a file.  The TSC
frequency, which turns cycles into the nanoseconds beside them, is left out.  A `none`
is a panic.
-/

namespace Tailslayer

open Binary64 Lists Quantiles

/-! ## Arms -/

inductive Arm where
  | hedgedQuiet
  | singleQuiet
  | hedgedStress
  | singleStress
deriving DecidableEq, Repr

namespace Arm

def label : Arm → String
  | .singleQuiet => "single_quiet"
  | .hedgedQuiet => "hedged_quiet"
  | .singleStress => "single_stress"
  | .hedgedStress => "hedged_stress"

def needsStress : Arm → Bool
  | .singleStress | .hedgedStress => true
  | .singleQuiet | .hedgedQuiet => false

end Arm

/-! ## Lines -/

inductive Line where
  /-- `report_stride` -/
  | stride (label : String) (min p50 p99 max count : Nat)
  /-- `print_percentiles` -/
  | percentiles (label : String) (n : Nat) (p : Percentiles)
  | pairing (paired samples channels : Nat)
  /-- `emit_csv_row` -/
  | csvRow (arm : String) (nSamples nPaired : Nat) (p : Percentiles)
deriving DecidableEq, Repr

structure Chunk where
  lines : List Line
  /-- the file is `{prefix}_{label}.csv` -/
  rawLabel : String
  rawLatencies : List Nat
deriving DecidableEq, Repr

/-- A `u64` subtraction, checked as in a debug build. -/
def checkedSub (x y : Nat) : Option Nat := if y ≤ x then some (x - y) else none

/-- The timestamps' differences, `samples.windows(2)`. -/
def windowStrides : List Sample → List (Option Nat)
  | s :: t :: rest => checkedSub t.timestamp s.timestamp :: windowStrides (t :: rest)
  | _ => []

/-- Nothing is reported of less than two samples. -/
def reportStride (label : String) (samples : List Sample) : Option (List Line) :=
  if samples.length < 2 then some []
  else
    let count := Nat.min (samples.length - 1) 10000
    do
      let strides ← ((windowStrides samples).take count).mapM id
      let strides := strides.mergeSort (· ≤ ·)
      let min ← strides[0]?
      let p50 ← strides[count / 2]?
      let p99 ← strides[Nat.min (count - 1) (quantileIndex count (99 / 100))]?
      let max ← strides[count - 1]?
      some [.stride label min p50 p99 max count]

/-! ## Reports -/

section
variable (configSamples : Nat) (name : String)

def channelLabel (nChannels channel : Nat) : String :=
  if nChannels = 1 then name else name ++ "_ch" ++ toString channel

/-- The stride is reported beside other channels only. -/
def channelStride (nChannels channel : Nat) (samples : List Sample) : Option (List Line) :=
  if nChannels = 1 then some []
  else reportStride (channelLabel name nChannels channel) samples

/-- One round of the `for` loop over the channels. -/
def reportChannel (nChannels channel : Nat) (samples : List Sample) : Option Chunk :=
  let label := channelLabel name nChannels channel
  do
    let stride ← channelStride name nChannels channel samples
    let (latencies, percentiles) ← computePercentiles (samples.map (·.latency))
    some
      { lines := stride ++ [.percentiles label samples.length percentiles,
          .csvRow label configSamples configSamples percentiles]
        rawLabel := label
        rawLatencies := latencies }

/-- The loop needs one round for each sample and one more. -/
def reportHedged (channelSamples : List (List Sample)) : Option Chunk :=
  match pairSamplesN (channelSamples.length * configSamples + 1) channelSamples
      configSamples [] with
  | some (.returned paired effective) => do
    let (effective, percentiles) ← computePercentiles effective
    some
      { lines := [.pairing paired configSamples channelSamples.length,
          .percentiles name paired percentiles, .csvRow name configSamples paired percentiles]
        rawLabel := name
        rawLatencies := effective }
  | _ => none

def processAndWrite (channelSamples : List (List Sample)) : Option (List Chunk) :=
  let nChannels := channelSamples.length
  do
    let chunks ← channelSamples.zipIdx.mapM fun e =>
      reportChannel configSamples name nChannels e.2 e.1
    if 1 < nChannels then
      let hedged ← reportHedged configSamples name channelSamples
      some (chunks ++ [hedged])
    else some chunks

end

/-! ## Nothing panics -/

/-- What a measurement thread has recorded: as many samples as it was told to, in order of time. -/
structure Recorded (numSamples : Nat) (samples : List Sample) : Prop where
  length_eq : samples.length = numSamples
  in_order : samples.Pairwise fun s t => s.timestamp ≤ t.timestamp

theorem exists_forall₂ {α β : Type} {R : α → β → Prop} {xs : List α}
    (h : ∀ x ∈ xs, ∃ y, R x y) : ∃ ys, List.Forall₂ R xs ys := by
  induction xs with
  | nil => exact ⟨[], .nil⟩
  | cons x xs ih =>
    obtain ⟨y, hy⟩ := h x (List.mem_cons_self ..)
    obtain ⟨ys, hys⟩ := ih fun z hz => h z (List.mem_cons_of_mem x hz)
    exact ⟨y :: ys, .cons hy hys⟩

theorem forall₂_getElem? {α β : Type} {R : α → β → Prop} {xs : List α} {ys : List β}
    (h : List.Forall₂ R xs ys) {i : Nat} {x : α} (hx : xs[i]? = some x) :
    ∃ y, ys[i]? = some y ∧ R x y := by
  obtain ⟨hi, rfl⟩ := List.getElem?_eq_some_iff.mp hx
  have hi' := h.length_eq ▸ hi
  exact ⟨ys[i], List.getElem?_eq_getElem hi', (List.forall₂_iff_get.mp h).2 i hi hi'⟩

theorem mapM_of_forall₂ {α β : Type} {f : α → Option β} {xs : List α} {ys : List β}
    (h : List.Forall₂ (fun x y => f x = some y) xs ys) : xs.mapM f = some ys := by
  induction h with
  | nil => rfl
  | @cons x y xs ys hx _ ih =>
    rw [List.mapM_cons, hx, ih]
    rfl

theorem windowStrides_length : ∀ samples : List Sample,
    (windowStrides samples).length = samples.length - 1
  | [] | [_] => rfl
  | s :: t :: rest => by
    rw [windowStrides, List.length_cons, windowStrides_length (t :: rest)]
    rfl

theorem windowStrides_some : ∀ {samples : List Sample},
    (samples.Pairwise fun s t => s.timestamp ≤ t.timestamp) →
    ∀ stride ∈ windowStrides samples, ∃ d, stride = some d
  | [], _, _, h | [_], _, _, h => by cases h
  | s :: t :: rest, hsorted, stride, h => by
    rw [windowStrides] at h
    obtain ⟨hfirst, hrest⟩ := List.pairwise_cons.mp hsorted
    rcases List.mem_cons.mp h with rfl | h
    · exact ⟨_, if_pos (hfirst t (List.mem_cons_self ..))⟩
    · exact windowStrides_some hrest stride h

theorem reportStride_returns (label : String) {samples : List Sample}
    (hsorted : samples.Pairwise fun s t => s.timestamp ≤ t.timestamp) :
    ∃ lines, reportStride label samples = some lines := by
  by_cases hfew : samples.length < 2
  · exact ⟨[], if_pos hfew⟩
  · obtain ⟨count, hcount⟩ : ∃ count, count = Nat.min (samples.length - 1) 10000 := ⟨_, rfl⟩
    have hpos : 0 < count := by
      rw [hcount]
      exact Nat.lt_min.mpr ⟨by omega, by omega⟩
    have hle : count ≤ samples.length - 1 := hcount ▸ Nat.min_le_left _ _
    have hsome : ∃ strides : List Nat,
        List.Forall₂ (fun x y => id x = some y) ((windowStrides samples).take count) strides := by
      refine ⟨((windowStrides samples).take count).map (·.getD 0), ?_⟩
      rw [List.forall₂_map_right_iff, List.forall₂_same]
      intro stride hmem
      obtain ⟨d, rfl⟩ := windowStrides_some hsorted stride (List.mem_of_mem_take hmem)
      rfl
    obtain ⟨strides, hstrides⟩ := hsome
    have hlen : (strides.mergeSort (· ≤ ·)).length = count := by
      rw [List.length_mergeSort, ← hstrides.length_eq, List.length_take, windowStrides_length]
      omega
    have hget : ∀ i, i < count → ∃ x, (strides.mergeSort (· ≤ ·))[i]? = some x :=
      fun i hi => ⟨_, List.getElem?_eq_getElem (hlen ▸ hi)⟩
    obtain ⟨x0, h0⟩ := hget 0 hpos
    obtain ⟨x50, h50⟩ := hget (count / 2) (Nat.div_lt_self hpos (by decide))
    obtain ⟨x99, h99⟩ := hget (Nat.min (count - 1) (quantileIndex count (99 / 100)))
      (Nat.lt_of_le_of_lt (Nat.min_le_left _ _) (by omega))
    obtain ⟨x1, h1⟩ := hget (count - 1) (by omega)
    refine ⟨[.stride label x0 x50 x99 x1 count], ?_⟩
    simp only [reportStride, if_neg hfew, ← hcount, mapM_of_forall₂ hstrides,
      Option.bind_eq_bind, Option.bind_some, h0, h50, h99, h1]

section
variable {n : Nat} (name : String)

theorem reportChannel_returns {samples : List Sample} (h : Recorded n samples)
    (nChannels channel : Nat) : ∃ chunk stride p,
    reportChannel n name nChannels channel samples = some chunk ∧
      chunk.lines = stride ++ [.percentiles (channelLabel name nChannels channel) n p,
        .csvRow (channelLabel name nChannels channel) n n p] ∧
      computePercentiles (samples.map (·.latency)) = some (chunk.rawLatencies, p) := by
  obtain ⟨latencies, p, hp, -⟩ := computePercentiles_returns (samples.map (·.latency))
  have hstride : ∃ lines, channelStride name nChannels channel samples = some lines := by
    unfold channelStride
    split
    · exact ⟨[], rfl⟩
    · exact reportStride_returns _ h.in_order
  obtain ⟨stride, hstride⟩ := hstride
  let label := channelLabel name nChannels channel
  refine ⟨⟨stride ++ [.percentiles label n p, .csvRow label n n p], label, latencies⟩, stride, p,
    ?_, rfl, hp⟩
  simp only [reportChannel, hstride, hp, h.length_eq, Option.bind_eq_bind, Option.bind_some]
  rfl

/-- An entry of the hedged list is no later than any channel's sample of its group, and
the groups share none. -/
theorem tail_effective_le {results : List (List Sample)} {groups : List (List Nat)}
    {effective : List Nat} (hlen : ∀ samples ∈ results, n ≤ samples.length)
    (hgenuine : List.Forall₂ (fun group latency => Genuine results n group ∧
      LeastLatency results n group latency) groups effective)
    (hbefore : groups.Pairwise Before) {channel : Nat} {samples : List Sample}
    (hchannel : results[channel]? = some samples) (v : Nat) :
    tail effective v ≤ tail (samples.map (·.latency)) v := by
  have hforward : (groups.filterMap (·[channel]?)).Pairwise (· < ·) :=
    List.pairwise_filterMap.mpr (hbefore.imp fun h i hi j hj => h channel i j hi hj)
  have hsub := sublist_filterMap_getElem? samples 0 (fun i _ => Nat.zero_le i) hforward
  rw [List.drop_zero] at hsub
  refine tail_le_of_forall₂ ?_ (hsub.map _) v
  clear hbefore hforward hsub
  induction hgenuine with
  | nil => exact .nil
  | @cons group latency groups effective hfirst _ ih =>
    obtain ⟨hgen, hleast⟩ := hfirst
    have hlt : channel < group.length := by
      rw [hgen.length_eq]
      exact (List.getElem?_eq_some_iff.mp hchannel).1
    have hi := List.getElem?_eq_getElem hlt
    have hin := hgen.lt _ (List.getElem_mem hlt)
    have hs := List.getElem?_eq_getElem
      (Nat.lt_of_lt_of_le hin (hlen samples (List.mem_of_getElem? hchannel)))
    rw [List.filterMap_cons_some (f := fun group : List Nat => group[channel]?) hi,
      List.filterMap_cons_some (f := fun i : Nat => samples[i]?) hs, List.map_cons]
    refine .cons ?_ ih
    exact hleast.2 ⟨channel, _, ⟨samples, _, hchannel, hi, hin, hs⟩, rfl⟩

theorem reportHedged_returns {results : List (List Sample)} (hne : results ≠ [])
    (hrec : ∀ samples ∈ results, Recorded n samples) : ∃ chunk p effective,
    reportHedged n name results = some chunk ∧ effective.length ≤ n ∧
      computePercentiles effective = some (chunk.rawLatencies, p) ∧
      chunk.lines = [.pairing effective.length n results.length,
        .percentiles name effective.length p, .csvRow name n effective.length p] ∧
      ∀ (channel : Nat) (samples : List Sample), results[channel]? = some samples →
        ∀ v, tail effective v ≤ tail (samples.map (·.latency)) v := by
  have hlong : ∀ samples ∈ results, n ≤ samples.length := fun samples hs =>
    (hrec samples hs).length_eq.ge
  obtain ⟨r, hr, s, groups, hpaired, rfl, -⟩ :=
    pairSamplesN_returns hne hlong (Nat.lt_succ_self (results.length * n))
  obtain ⟨sorted, p, hp, -⟩ := computePercentiles_returns s.outEffective
  have hle : s.outEffective.length ≤ n := by
    obtain ⟨samples, rest, rfl⟩ := List.exists_cons_of_ne_nil hne
    have hindices : 0 < s.indices.length := by
      rw [hpaired.length_eq, List.length_cons]
      omega
    have hmem := List.getElem_mem hindices
    exact Nat.le_trans (hpaired.pushed_le _ hmem) (hpaired.le _ hmem)
  let paired := s.outEffective.length
  refine ⟨⟨[.pairing paired n results.length, .percentiles name paired p,
    .csvRow name n paired p], name, sorted⟩, p, s.outEffective, ?_, hle, hp, rfl, ?_⟩
  · simp only [reportHedged, hr, hp, Option.bind_eq_bind, Option.bind_some]
    rfl
  · intro channel samples hchannel v
    exact tail_effective_le hlong hpaired.genuine hpaired.before hchannel v

/-- The channels' chunks, and after them that of the hedged reads if there are two or more. -/
theorem processAndWrite_returns {results : List (List Sample)}
    (hrec : ∀ samples ∈ results, Recorded n samples) : ∃ chunks,
    List.Forall₂ (fun e chunk => reportChannel n name results.length e.2 e.1 = some chunk)
      results.zipIdx chunks ∧
    (results.length ≤ 1 → processAndWrite n name results = some chunks) ∧
    (1 < results.length → ∃ hedged, reportHedged n name results = some hedged ∧
      processAndWrite n name results = some (chunks ++ [hedged])) := by
  have hchunks : ∃ chunks, List.Forall₂
      (fun e chunk => reportChannel n name results.length e.2 e.1 = some chunk)
      results.zipIdx chunks := by
    refine exists_forall₂ fun e he => ?_
    obtain ⟨chunk, -, -, hchunk, -⟩ :=
      reportChannel_returns name (hrec e.1 (List.fst_mem_of_mem_zipIdx he)) results.length e.2
    exact ⟨chunk, hchunk⟩
  obtain ⟨chunks, hchunks⟩ := hchunks
  have hmap := mapM_of_forall₂ hchunks
  refine ⟨chunks, hchunks, fun hone => ?_, fun hmany => ?_⟩
  · simp only [processAndWrite, hmap, if_neg (Nat.not_lt.mpr hone)]
    rfl
  · have hne : results ≠ [] := by
      rintro rfl
      cases hmany
    obtain ⟨hedged, -, -, hhedged, -⟩ := reportHedged_returns name hne hrec
    refine ⟨hedged, hhedged, ?_⟩
    simp only [processAndWrite, hmap, if_pos hmany, hhedged]
    rfl

end

/-- **Hedging pays.**  However the arms were timed, the report of two or more channels
ends with that of the hedged reads, whose latencies exceed no threshold
more often than those of any one channel do.  Where every sample was paired,
no percentile of the hedged reads is above that of a channel. -/
theorem hedged_report (n : Nat) (name : String) (results : List (List Sample))
    (hmany : 1 < results.length) (hrec : ∀ samples ∈ results, Recorded n samples) :
    ∃ chunks hedged effective p, processAndWrite n name results = some (chunks ++ [hedged]) ∧
      hedged.lines = [.pairing effective.length n results.length,
        .percentiles name effective.length p, .csvRow name n effective.length p] ∧
      hedged.rawLatencies.Perm effective ∧ effective.length ≤ n ∧
      (effective ≠ [] → p.Of effective) ∧
      ∀ (channel : Nat) (samples : List Sample), results[channel]? = some samples →
        (∀ v, tail effective v ≤ tail (samples.map (·.latency)) v) ∧
        ∃ chunk p', chunks[channel]? = some chunk ∧
          .csvRow (channelLabel name results.length channel) n n p' ∈ chunk.lines ∧
          chunk.rawLatencies.Perm (samples.map (·.latency)) ∧
          (effective.length = n → List.Forall₂ (· ≤ ·) p.values p'.values) := by
  have hne : results ≠ [] := by
    rintro rfl
    cases hmany
  obtain ⟨chunks, hchunks, -, hprocess⟩ := processAndWrite_returns name hrec
  obtain ⟨hedged, hhedged, hprocess⟩ := hprocess hmany
  obtain ⟨hedged', p, effective, hhedged', hle, hp, hlines, htails⟩ :=
    reportHedged_returns name hne hrec
  rw [hhedged] at hhedged'
  cases hhedged'
  obtain ⟨sorted, p₁, hp₁, hperm⟩ := computePercentiles_returns effective
  rw [hp] at hp₁
  cases hp₁
  refine ⟨chunks, hedged, effective, p, hprocess, hlines, hperm, hle, Percentiles.of_compute hp,
    fun channel samples hchannel => ⟨htails channel samples hchannel, ?_⟩⟩
  have hsamples := hrec samples (List.mem_of_getElem? hchannel)
  obtain ⟨chunk, stride, p', hchunk, hlines', hp'⟩ :=
    reportChannel_returns name hsamples results.length channel
  have hget : chunks[channel]? = some chunk := by
    have hzip : results.zipIdx[channel]? = some (samples, channel) := by
      rw [List.getElem?_zipIdx, hchannel]
      simp
    obtain ⟨chunk', hget, hreport⟩ := forall₂_getElem? hchunks hzip
    rw [hchunk] at hreport
    cases hreport
    exact hget
  obtain ⟨sorted', p₂, hp₂, hperm'⟩ := computePercentiles_returns (samples.map (·.latency))
  rw [hp'] at hp₂
  cases hp₂
  refine ⟨chunk, p', hget, ?_, hperm', fun hall => ?_⟩
  · rw [hlines']
    simp
  · refine computePercentiles_le hp hp' ?_ (htails channel samples hchannel)
    rw [List.length_map, hsamples.length_eq, hall]

/-- Three samples of two channels, of which two are paired. -/
theorem hedged_report_two : ∃ chunks hedged effective p,
    processAndWrite 3 "hedged_quiet" twoChannels = some (chunks ++ [hedged]) ∧
      hedged.lines = [.pairing effective.length 3 twoChannels.length,
        .percentiles "hedged_quiet" effective.length p,
        .csvRow "hedged_quiet" 3 effective.length p] ∧
      hedged.rawLatencies.Perm effective ∧ effective.length ≤ 3 ∧
      (effective ≠ [] → p.Of effective) ∧
      ∀ (channel : Nat) (samples : List Sample), twoChannels[channel]? = some samples →
        (∀ v, tail effective v ≤ tail (samples.map (·.latency)) v) ∧
        ∃ chunk p', chunks[channel]? = some chunk ∧
          .csvRow (channelLabel "hedged_quiet" twoChannels.length channel) 3 3 p' ∈ chunk.lines ∧
          chunk.rawLatencies.Perm (samples.map (·.latency)) ∧
          (effective.length = 3 → List.Forall₂ (· ≤ ·) p.values p'.values) := by
  refine hedged_report 3 "hedged_quiet" twoChannels (by decide) fun samples hs => ?_
  simp only [twoChannels, List.mem_cons, List.not_mem_nil, or_false] at hs
  rcases hs with rfl | rfl
  · exact ⟨rfl, by decide⟩
  · exact ⟨rfl, by decide⟩

end Tailslayer
