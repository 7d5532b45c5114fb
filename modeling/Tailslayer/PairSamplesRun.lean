import Tailslayer.PairSamplesStep
import Tailslayer.Pool.Pairing

/-!
# What the pairing returns

Every round adds to the sum of the indices, which is bounded, so the loop ends;
the groups it has taken are genuine and go forward in every channel
(`Paired.take`, `Paired.drop`).  On lists in order of time no family of groups is
larger: uncrossed, it is one that the heads never fall behind (`Keeping.next`).
-/

namespace Tailslayer

open Loop Lists Pairing

/-! ## Genuine groups -/

/-- The heads only go forward. -/
theorem Before.mono {group indices indices' : List Nat} (h : Before group indices)
    (hle : ∀ (channel index' : Nat), indices'[channel]? = some index' →
      ∃ index, indices[channel]? = some index ∧ index ≤ index') :
    Before group indices' := by
  intro channel index index' hgroup hindex'
  obtain ⟨index'', hindices, hle'⟩ := hle channel index' hindex'
  exact Nat.lt_of_lt_of_le (h channel index index'' hgroup hindices) hle'

theorem before_map_succ (indices : List Nat) : Before indices (indices.map (· + 1)) := by
  intro channel index index' hindex hindex'
  rw [List.getElem?_map, hindex] at hindex'
  exact Option.some.inj hindex' ▸ Nat.lt_succ_self index

section
variable (allSamples : List (List Sample)) (numSamples : Nat)

/-- The groups whose latencies have been pushed. -/
structure Paired (s : PairState) (groups : List (List Nat)) : Prop where
  length_eq : s.indices.length = allSamples.length
  pushed_le : ∀ index ∈ s.indices, s.outEffective.length ≤ index
  le : ∀ index ∈ s.indices, index ≤ numSamples
  genuine : List.Forall₂
    (fun group latency => Genuine allSamples numSamples group ∧
      LeastLatency allSamples numSamples group latency) groups s.outEffective
  before : groups.Pairwise Before
  before_heads : ∀ group ∈ groups, Before group s.indices

/-- The loop is on its way. -/
def Underway (s : PairState) : Prop := ∃ groups, Paired allSamples numSamples s groups

/-- The loop has returned from a state with a channel used up. -/
def Ended (r : PairResult) : Prop :=
  ∃ s groups, Paired allSamples numSamples s groups ∧
    r = .returned s.outEffective.length s.outEffective ∧ ∃ index ∈ s.indices, numSamples ≤ index

/-- How far the heads can still go. -/
def pairRank (s : PairState) : Nat := allSamples.length * numSamples - s.indices.sum

/-- Every channel at its first sample. -/
def pairStart : PairState := ⟨List.replicate allSamples.length 0, []⟩

theorem paired_start : Paired allSamples numSamples (pairStart allSamples) [] where
  length_eq := List.length_replicate
  pushed_le := fun index _ => Nat.zero_le index
  le := by
    intro index hindex
    rw [List.eq_of_mem_replicate hindex]
    exact Nat.zero_le _
  genuine := .nil
  before := .nil
  before_heads := by
    intro group hgroup
    exact absurd hgroup List.not_mem_nil

end

section
variable {allSamples : List (List Sample)} {numSamples : Nat} {s s' : PairState}
  {groups : List (List Nat)}

theorem Paired.sum_le (h : Paired allSamples numSamples s groups) :
    s.indices.sum ≤ allSamples.length * numSamples := by
  have hle := sum_le_length_mul h.le
  rwa [h.length_eq] at hle

/-- The heads are taken as a group. -/
theorem Paired.take (h : Paired allSamples numSamples s groups) {latency : Nat}
    (hbelow : ∀ index ∈ s.indices, index < numSamples)
    (hgenuine : Genuine allSamples numSamples s.indices)
    (hleast : LeastLatency allSamples numSamples s.indices latency) :
    Paired allSamples numSamples ⟨s.indices.map (· + 1), s.outEffective ++ [latency]⟩
      (groups ++ [s.indices]) where
  length_eq := by rw [List.length_map, h.length_eq]
  pushed_le := by
    intro _ hindex
    obtain ⟨index, hmem, rfl⟩ := List.mem_map.mp hindex
    have := h.pushed_le index hmem
    rw [List.length_append, List.length_singleton]
    omega
  le := by
    intro _ hindex
    obtain ⟨index, hmem, rfl⟩ := List.mem_map.mp hindex
    exact hbelow index hmem
  genuine := List.rel_append h.genuine (.cons ⟨hgenuine, hleast⟩ .nil)
  before := by
    apply List.pairwise_append.mpr
    refine ⟨h.before, List.pairwise_singleton _ _, ?_⟩
    intro group hgroup group' hgroup'
    rw [List.mem_singleton.mp hgroup']
    exact h.before_heads group hgroup
  before_heads := by
    intro group hgroup
    rcases List.mem_append.mp hgroup with hold | hnew
    · apply (h.before_heads group hold).mono
      intro channel index' hindex'
      rw [List.getElem?_map] at hindex'
      obtain ⟨index, hindex, rfl⟩ := Option.map_eq_some_iff.mp hindex'
      exact ⟨index, hindex, Nat.le_succ index⟩
    · rw [List.mem_singleton.mp hnew]
      exact before_map_succ s.indices

/-- One head is dropped. -/
theorem Paired.drop (h : Paired allSamples numSamples s groups) {c index : Nat}
    (hindex : s.indices[c]? = some index) (hlt : index < numSamples) :
    Paired allSamples numSamples ⟨s.indices.set c (index + 1), s.outEffective⟩ groups where
  length_eq := by rw [List.length_set, h.length_eq]
  pushed_le := by
    intro i hi
    rcases List.mem_or_eq_of_mem_set hi with hold | rfl
    · exact h.pushed_le i hold
    · exact Nat.le_succ_of_le (h.pushed_le index (List.mem_of_getElem? hindex))
  le := by
    intro i hi
    rcases List.mem_or_eq_of_mem_set hi with hold | rfl
    · exact h.le i hold
    · exact hlt
  genuine := h.genuine
  before := h.before
  before_heads := by
    intro group hgroup
    apply (h.before_heads group hgroup).mono
    intro channel index' hindex'
    rcases getElem?_set_cases hindex' with ⟨rfl, rfl⟩ | hold
    · exact ⟨index, hindex, Nat.le_succ index⟩
    · exact ⟨index', hold, Nat.le_refl index'⟩

section
variable (hne : allSamples ≠ []) (hlong : ∀ samples ∈ allSamples, numSamples ≤ samples.length)
include hne hlong

theorem Underway.next (h : Underway allSamples numSamples s)
    (hstep : pairStep allSamples numSamples s = .next s') :
    Underway allSamples numSamples s' ∧
      pairRank allSamples numSamples s' < pairRank allSamples numSamples s := by
  obtain ⟨groups, h⟩ := h
  have hforward : ∀ groups', Paired allSamples numSamples s' groups' →
      s.indices.sum < s'.indices.sum →
      Underway allSamples numSamples s' ∧
        pairRank allSamples numSamples s' < pairRank allSamples numSamples s := by
    intro groups' hpaired hlt
    have := hpaired.sum_le
    refine ⟨⟨groups', hpaired⟩, ?_⟩
    unfold pairRank
    omega
  obtain ⟨hbelow, ⟨latency, rfl, hgenuine, hleast⟩ | ⟨c, d, index, early, late, rfl, hindex, -⟩⟩ :=
    pairStep_next hne hlong h.length_eq hstep
  · apply hforward _ (h.take hbelow hgenuine hleast)
    have hpos := List.length_pos_iff.mpr hne
    rw [sum_map_succ, h.length_eq]
    omega
  · apply hforward _ (h.drop hindex (hbelow index (List.mem_of_getElem? hindex)))
    rw [sum_set_succ hindex]
    exact Nat.lt_succ_self _

theorem Underway.done (h : Underway allSamples numSamples s) {r : PairResult}
    (hstep : pairStep allSamples numSamples s = .done r) : Ended allSamples numSamples r := by
  obtain ⟨groups, h⟩ := h
  exact ⟨s, groups, h, pairStep_done hne hlong h.length_eq hstep⟩

omit hlong in
theorem pairSamplesN_eq (fuel : Nat) :
    pairSamplesN fuel allSamples numSamples [] =
      loop (pairStep allSamples numSamples) fuel (pairStart allSamples) := by
  have hempty : ¬ allSamples.isEmpty := by simpa using hne
  exact if_neg hempty

/-- The loop ends, out of no list's bounds and with no underflow. -/
theorem pairSamplesN_returns {fuel : Nat} (hfuel : allSamples.length * numSamples < fuel) :
    ∃ r, pairSamplesN fuel allSamples numSamples [] = some r ∧ Ended allSamples numSamples r := by
  have hstart : Underway allSamples numSamples (pairStart allSamples) :=
    ⟨[], paired_start allSamples numSamples⟩
  have hrank : pairRank allSamples numSamples (pairStart allSamples) < fuel :=
    Nat.lt_of_le_of_lt (Nat.sub_le _ _) hfuel
  rw [pairSamplesN_eq hne]
  obtain ⟨r, hr⟩ := loop_returns (Underway allSamples numSamples) _
    (fun _ _ hs hstep => hs.next hne hlong hstep) hstart hrank
  refine ⟨r, hr, ?_⟩
  exact loop_post (Underway allSamples numSamples) (Ended allSamples numSamples)
    (fun _ _ hs hstep => (hs.next hne hlong hstep).1)
    (fun _ _ hs hstep => hs.done hne hlong hstep) hstart hr

end

end

/-- **What is reported is genuine.**  The loop ends, with one round for each
sample and one more, out of no list's bounds and with no underflow.  Behind every
entry is a group of samples less than `MAX_PAIR_GAP` apart whose least latency it
is, and the groups go forward in every channel. -/
theorem pairSamplesN_genuine (allSamples : List (List Sample)) (numSamples : Nat)
    (hne : allSamples ≠ []) (hlong : ∀ samples ∈ allSamples, numSamples ≤ samples.length)
    (fuel : Nat) (hfuel : allSamples.length * numSamples < fuel) :
    ∃ out groups, pairSamplesN fuel allSamples numSamples [] = some (.returned out.length out) ∧
      out.length ≤ numSamples ∧
      List.Forall₂
        (fun group latency => Genuine allSamples numSamples group ∧
          LeastLatency allSamples numSamples group latency) groups out ∧
      groups.Pairwise Before := by
  obtain ⟨_, hret, s, groups, hs, rfl, index, hindex, -⟩ := pairSamplesN_returns hne hlong hfuel
  refine ⟨s.outEffective, groups, hret, ?_, hs.genuine, hs.before⟩
  exact Nat.le_trans (hs.pushed_le index hindex) (hs.le index hindex)

/-- Two channels whose samples are 100, 399 and 400 apart. -/
def twoChannels : List (List Sample) :=
  [[⟨0, 5, by decide, by decide⟩, ⟨1000, 7, by decide, by decide⟩,
      ⟨2000, 1, by decide, by decide⟩],
    [⟨100, 4, by decide, by decide⟩, ⟨1399, 9, by decide, by decide⟩,
      ⟨2400, 3, by decide, by decide⟩]]

example : pairSamplesN 7 twoChannels 3 [] = some (.returned 2 [4, 7]) := by decide

theorem pairSamplesN_genuine_two :
    ∃ out groups, pairSamplesN 7 twoChannels 3 [] = some (.returned out.length out) ∧
      out.length ≤ 3 ∧
      List.Forall₂
        (fun group latency => Genuine twoChannels 3 group ∧
          LeastLatency twoChannels 3 group latency) groups out ∧
      groups.Pairwise Before :=
  pairSamplesN_genuine twoChannels 3 (by decide) (by decide) 7 (by decide)

/-! ## No family of groups is larger -/

section
variable {allSamples : List (List Sample)} {numSamples : Nat}

/-- Sample `i` of `c` is not too late for sample `j` of `d`. -/
def Close (allSamples : List (List Sample)) (c d : Fin allSamples.length) (i j : Nat) : Prop :=
  ∀ s t, allSamples[c][i]? = some s → allSamples[d][j]? = some t →
    s.timestamp < t.timestamp + maxPairGap

/-- The index a group or the heads have for a channel. -/
def indexOf (indices : List Nat) (c : Fin allSamples.length) : Nat := indices.getD c 0

theorem indexOf_eq {indices : List Nat} {c : Fin allSamples.length} {index : Nat}
    (h : indices[c.val]? = some index) : indexOf indices c = index := by
  rw [indexOf, List.getD_eq_getElem?_getD, h, Option.getD_some]

theorem getElem?_indexOf {indices : List Nat} (hlen : indices.length = allSamples.length)
    (c : Fin allSamples.length) : indices[c.val]? = some (indexOf indices c) := by
  have hget := List.getElem?_eq_getElem (Nat.lt_of_lt_of_eq c.isLt hlen.symm)
  rw [hget, indexOf_eq hget]

theorem headAt_iff {indices : List Nat} (hlen : indices.length = allSamples.length)
    (c : Fin allSamples.length) (s : Sample) :
    HeadAt allSamples numSamples indices c s ↔
      indexOf indices c < numSamples ∧ allSamples[c][indexOf indices c]? = some s := by
  constructor
  · rintro ⟨samples, index, hsamples, hindex, hlt, hs⟩
    obtain ⟨_, rfl⟩ := List.getElem?_eq_some_iff.mp hsamples
    rw [indexOf_eq hindex]
    exact ⟨hlt, hs⟩
  · rintro ⟨hlt, hs⟩
    exact ⟨allSamples[c], indexOf indices c, List.getElem?_eq_getElem c.isLt,
      getElem?_indexOf hlen c, hlt, hs⟩

theorem timestamp_le {samples : List Sample}
    (hsorted : samples.Pairwise fun s t => s.timestamp ≤ t.timestamp) {i j : Nat} (hij : i ≤ j)
    {s t : Sample} (hs : samples[i]? = some s) (ht : samples[j]? = some t) :
    s.timestamp ≤ t.timestamp := by
  obtain ⟨hi, rfl⟩ := List.getElem?_eq_some_iff.mp hs
  obtain ⟨hj, rfl⟩ := List.getElem?_eq_some_iff.mp ht
  rcases Nat.eq_or_lt_of_le hij with rfl | hlt
  · exact Nat.le_refl _
  · exact List.pairwise_iff_getElem.mp hsorted i j hi hj hlt

theorem Genuine.indexOf_lt {group : List Nat} (h : Genuine allSamples numSamples group)
    (c : Fin allSamples.length) : indexOf group c < numSamples :=
  h.lt _ (List.mem_of_getElem? (getElem?_indexOf h.length_eq c))

/-- Groups that share no sample. -/
def family {groups : List (List Nat)}
    (hgenuine : ∀ group ∈ groups, Genuine allSamples numSamples group)
    (hapart : groups.Pairwise Apart) :
    Family (Close allSamples) numSamples groups.length where
  index k c := indexOf groups[k] c
  lt := fun k c => (hgenuine groups[k] (List.getElem_mem k.isLt)).indexOf_lt c
  related := by
    intro k c d s t hs ht
    have h := hgenuine groups[k] (List.getElem_mem k.isLt)
    apply h.close c d s t
    · exact (headAt_iff h.length_eq c s).mpr ⟨h.indexOf_lt c, hs⟩
    · exact (headAt_iff h.length_eq d t).mpr ⟨h.indexOf_lt d, ht⟩
  injective := by
    intro c k k' heq
    have h := (hgenuine groups[k] (List.getElem_mem k.isLt)).length_eq
    have h' := (hgenuine groups[k'] (List.getElem_mem k'.isLt)).length_eq
    by_contra hne
    have hget := getElem?_indexOf h c
    have hget' := getElem?_indexOf h' c
    rw [← show indexOf groups[k] c = indexOf groups[k'] c from heq] at hget'
    rcases Nat.lt_or_gt_of_ne (fun hval => hne (Fin.ext hval)) with hlt | hgt
    · exact List.pairwise_iff_getElem.mp hapart k k' k.isLt k'.isLt hlt _ _ hget hget'
    · exact List.pairwise_iff_getElem.mp hapart k' k k'.isLt k.isLt hgt _ _ hget' hget

/-- On lists in order of time groups can be uncrossed. -/
theorem sorted_close (hlong : ∀ samples ∈ allSamples, numSamples ≤ samples.length)
    (hsorted : ∀ samples ∈ allSamples, samples.Pairwise fun s t => s.timestamp ≤ t.timestamp) :
    Sorted (Close allSamples) numSamples := by
  intro c d i i' j j' hi hlt hj hlt' hclose s t hs ht
  have hc : i < allSamples[c].length := Nat.lt_of_lt_of_le hlt (hlong _ (List.getElem_mem c.isLt))
  have hd : j < allSamples[d].length :=
    Nat.lt_of_lt_of_le (Nat.lt_of_le_of_lt hj hlt') (hlong _ (List.getElem_mem d.isLt))
  have hs' := List.getElem?_eq_getElem hc
  have ht' := List.getElem?_eq_getElem hd
  calc s.timestamp
    _ ≤ allSamples[c][i].timestamp := timestamp_le (hsorted _ (List.getElem_mem c.isLt)) hi hs hs'
    _ < allSamples[d][j].timestamp + maxPairGap := hclose _ _ hs' ht'
    _ ≤ t.timestamp + maxPairGap :=
      Nat.add_le_add_right (timestamp_le (hsorted _ (List.getElem_mem d.isLt)) hj ht' ht) _

/-- The loop has taken as many groups as `G` has before its heads. -/
structure Keeping {m : Nat} (G : Family (Close allSamples) numSamples m) (s : PairState) :
    Prop where
  underway : Underway allSamples numSamples s
  ahead : Ahead G s.outEffective.length (indexOf s.indices)

theorem keeping_start {m : Nat} (G : Family (Close allSamples) numSamples m) :
    Keeping G (pairStart allSamples) where
  underway := ⟨[], paired_start allSamples numSamples⟩
  ahead := by
    intro hlt c
    rw [indexOf_eq (show (pairStart allSamples).indices[c.val]? = some 0 from
      List.getElem?_replicate_of_lt c.isLt)]
    exact Nat.zero_le _

section
variable (hne : allSamples ≠ []) (hlong : ∀ samples ∈ allSamples, numSamples ≤ samples.length)
  {m : Nat} {G : Family (Close allSamples) numSamples m} {s s' : PairState}
include hne hlong

theorem Keeping.next (hR : Sorted (Close allSamples) numSamples) (hG : G.Ordered)
    (h : Keeping G s) (hstep : pairStep allSamples numSamples s = .next s') : Keeping G s' := by
  refine ⟨(h.underway.next hne hlong hstep).1, ?_⟩
  obtain ⟨groups, hpaired⟩ := h.underway
  have hlen := hpaired.length_eq
  obtain ⟨-, ⟨latency, rfl, -⟩ | ⟨c, d, index, early, late, rfl, hindex, hearly, hlate, hfar⟩⟩ :=
    pairStep_next hne hlong hlen hstep
  · rw [List.length_append, List.length_singleton]
    apply h.ahead.take hG
    intro c
    apply indexOf_eq
    rw [List.getElem?_map, getElem?_indexOf hlen c, Option.map_some]
  · obtain ⟨hc, -⟩ := List.getElem?_eq_some_iff.mp hindex
    let c' : Fin allSamples.length := ⟨c, hearly.channel_lt⟩
    let d' : Fin allSamples.length := ⟨d, hlate.channel_lt⟩
    have hfar' : ¬ Close allSamples d' c' (indexOf s.indices d') (indexOf s.indices c') := by
      intro hclose
      have := hclose late early ((headAt_iff hlen d' late).mp hlate).2
        ((headAt_iff hlen c' early).mp hearly).2
      omega
    apply h.ahead.skip hR hfar'
    · intro e he
      apply indexOf_eq
      rw [List.getElem?_set_ne (fun hval => he (Fin.ext hval.symm)), getElem?_indexOf hlen e]
    · rw [indexOf_eq (show s.indices[c'.val]? = some index from hindex)]
      exact indexOf_eq (List.getElem?_set_self hc)

theorem Keeping.done (h : Keeping G s) {r : PairResult}
    (hstep : pairStep allSamples numSamples s = .done r) :
    ∃ out, r = .returned out.length out ∧ m ≤ out.length := by
  obtain ⟨groups, hpaired⟩ := h.underway
  obtain ⟨rfl, index, hindex, hend⟩ := pairStep_done hne hlong hpaired.length_eq hstep
  obtain ⟨c, hc⟩ := List.mem_iff_getElem?.mp hindex
  obtain ⟨hlt, -⟩ := List.getElem?_eq_some_iff.mp hc
  let c' : Fin allSamples.length := ⟨c, hpaired.length_eq ▸ hlt⟩
  refine ⟨s.outEffective, rfl, h.ahead.le_count (c := c') ?_⟩
  rwa [indexOf_eq (show s.indices[c'.val]? = some index from hc)]

/-- No family is larger than what the loop returns. -/
theorem family_le
    (hsorted : ∀ samples ∈ allSamples, samples.Pairwise fun s t => s.timestamp ≤ t.timestamp)
    (F : Family (Close allSamples) numSamples m) {fuel : Nat} {out : List Nat}
    (h : pairSamplesN fuel allSamples numSamples [] = some (.returned out.length out)) :
    m ≤ out.length := by
  have hR := sorted_close hlong hsorted
  obtain ⟨G, hG⟩ := F.uncross hR
  rw [pairSamplesN_eq hne] at h
  obtain ⟨out', hout, hle⟩ := loop_post (Keeping G)
    (fun r => ∃ out, r = .returned out.length out ∧ m ≤ out.length)
    (fun _ _ hs hstep => hs.next hne hlong hR hG hstep)
    (fun _ _ hs hstep => hs.done hne hlong hstep) (keeping_start G) h
  obtain ⟨-, rfl⟩ := PairResult.returned.inj hout
  exact hle

end

end

theorem Before.apart {group group' : List Nat} (h : Before group group') : Apart group group' := by
  intro channel index hgroup hgroup'
  exact Nat.lt_irrefl index (h channel index index hgroup hgroup')

/-- **The pairing is maximal.**  On lists in order of time no family of groups
that uses every sample at most once is larger than what is returned. -/
theorem pairSamplesN_maximal (allSamples : List (List Sample)) (numSamples : Nat)
    (hne : allSamples ≠ []) (hlen : ∀ samples ∈ allSamples, samples.length = numSamples)
    (hsorted : ∀ samples ∈ allSamples, samples.Pairwise fun s t => s.timestamp ≤ t.timestamp)
    (fuel : Nat) (hfuel : allSamples.length * numSamples < fuel) :
    ∃ paired out, pairSamplesN fuel allSamples numSamples [] = some (.returned paired out) ∧
      IsGreatest {m | ∃ groups : List (List Nat), groups.length = m ∧
        (∀ group ∈ groups, Genuine allSamples numSamples group) ∧ groups.Pairwise Apart}
        paired := by
  have hlong : ∀ samples ∈ allSamples, numSamples ≤ samples.length :=
    fun samples hmem => Nat.le_of_eq (hlen samples hmem).symm
  obtain ⟨_, hret, s, groups, hs, rfl, -⟩ := pairSamplesN_returns hne hlong hfuel
  refine ⟨s.outEffective.length, s.outEffective, hret, ?_, ?_⟩
  · obtain ⟨hgenuine, -⟩ := (List.forall₂_and_left _ _).mp hs.genuine
    exact ⟨groups, hs.genuine.length_eq, hgenuine, hs.before.imp Before.apart⟩
  · rintro m ⟨groups', rfl, hgenuine, hapart⟩
    exact family_le hne hlong hsorted (family hgenuine hapart) hret

theorem pairSamplesN_maximal_two :
    ∃ paired out, pairSamplesN 7 twoChannels 3 [] = some (.returned paired out) ∧
      IsGreatest {m | ∃ groups : List (List Nat), groups.length = m ∧
        (∀ group ∈ groups, Genuine twoChannels 3 group) ∧ groups.Pairwise Apart} paired :=
  pairSamplesN_maximal twoChannels 3 (by decide) (by decide) (by decide) 7 (by decide)

end Tailslayer
