import Mathlib.Data.Nat.ModEq
import Tailslayer.Pool.Lanes
import Tailslayer.Storage

/-!
# Layout plans are interleaved lanes

`Accepted.lanes` reads the plan of an accepted spec as `Lanes`; every address
the plan computes is a lane slot, reduced as the arithmetic reduces
(`replicaElementOffset_eq`, `allocationLen_eq`).  In exact arithmetic the lanes
fill their chunk, and

    replicaElementOffset r i = p  ↔  p's lane is r and its index is i  (layout_interleaves)
    allocationLen k = least bound on the slots of r < replicas, i < k (allocation_sufficient_tight)
-/

namespace Tailslayer

open Word

/-! ## Addresses as lane slots -/

section
variable {elementSize : Nat} {spec : LayoutSpec} (hacc : spec.Accepted elementSize)

/-- The lanes of a plan computed with `A`: one per channel. -/
def LayoutSpec.Accepted.lanes (A : Arith) : Lanes where
  width := spec.channelOffsetBytes / elementSize
  stride := A.mul spec.channels (spec.channelOffsetBytes / elementSize)
  width_pos := hacc.offsetElements_pos

@[simp] theorem LayoutSpec.Accepted.lanes_width (A : Arith) :
    (hacc.lanes A).width = spec.channelOffsetBytes / elementSize := rfl

@[simp] theorem LayoutSpec.Accepted.lanes_stride (A : Arith) :
    (hacc.lanes A).stride = A.mul spec.channels (spec.channelOffsetBytes / elementSize) := rfl

namespace LayoutPlan

theorem elementOffset_eq (A : Arith) (i : Nat) :
    (precompute A elementSize spec).elementOffset A i = A.norm ((hacc.lanes A).slot 0 i) := by
  simp only [elementOffset, precompute_elementsPerChunk, precompute_strideInElements, Lanes.slot,
    LayoutSpec.Accepted.lanes_width, LayoutSpec.Accepted.lanes_stride, Nat.zero_mul, Nat.zero_add]
  exact Arith.norm_add_left A _ _

theorem offset_add_eq (A : Arith) (r i : Nat) :
    A.add (A.mul r (spec.channelOffsetBytes / elementSize))
      ((precompute A elementSize spec).elementOffset A i) = A.norm ((hacc.lanes A).slot r i) := by
  have hsum : (hacc.lanes A).slot r i =
      r * (spec.channelOffsetBytes / elementSize) + (hacc.lanes A).slot 0 i := by
    simp only [Lanes.slot, Nat.zero_mul, Nat.zero_add, LayoutSpec.Accepted.lanes_width]
  rw [elementOffset_eq hacc A i, hsum]
  exact Arith.norm_add_norm A _ _

/-- Element `i` of replica `r` is in slot `slot r i` of the lanes, as far as `A` counts. -/
theorem replicaElementOffset_eq (A : Arith) {r : Nat} (hr : r < spec.replicas) (i : Nat) :
    (precompute A elementSize spec).replicaElementOffset A r i =
      .ok (A.norm ((hacc.lanes A).slot r i)) := by
  rw [replicaElementOffset_of_lt _ _ hr, precompute_channelOffsetElements, offset_add_eq hacc A r i]

/-- A positive capacity ends one past its last element's slot. -/
theorem allocationLen_eq (A : Arith) {k : Nat} (hk : 0 < k) :
    (precompute A elementSize spec).allocationLen A k =
      A.norm ((hacc.lanes A).slot (spec.replicas - 1) (k - 1) + 1) := by
  rw [allocationLen_of_pos _ _ hk, precompute_spec, precompute_channelOffsetElements,
    offset_add_eq hacc A]
  exact Arith.norm_add_left A _ _

theorem allocationBytes_eq (A : Arith) {k : Nat} (hk : 0 < k) :
    (precompute A elementSize spec).allocationBytes A k =
      A.norm (((hacc.lanes A).slot (spec.replicas - 1) (k - 1) + 1) * elementSize) := by
  unfold allocationBytes
  rw [allocationLen_eq hacc A hk, precompute_elementSize]
  exact Arith.norm_mul_left A _ _

end LayoutPlan

include hacc

theorem LayoutSpec.Accepted.tight : (hacc.lanes .exact).Tight spec.channels := rfl

/-- Counting with `A`, the plan's slots are the exact ones. -/
theorem LayoutSpec.Accepted.norm_slot (A : Arith) (r i : Nat) :
    A.norm ((hacc.lanes A).slot r i) = A.norm ((hacc.lanes .exact).slot r i) := by
  cases A with
  | exact => rfl
  | wrap w =>
    have hstride : spec.channels * (spec.channelOffsetBytes / elementSize) % 2 ^ w ≡
        spec.channels * (spec.channelOffsetBytes / elementSize) [MOD 2 ^ w] := Nat.mod_modEq _ _
    exact ((hstride.mul_left _).add_right _).add_left _

theorem LayoutSpec.Accepted.room : (hacc.lanes .exact).Room spec.channels := hacc.tight.room

end

/-- The slot `replica_slot_ptr` hands out. -/
theorem ReplicatedBuffer.Allocated.replicaSlotPtr_eq {V : Type} {host : Host} {T : CopyType V}
    {spec : LayoutSpec} {capacity : Nat} {page : HugePageSize} {b : ReplicatedBuffer V}
    (ha : Allocated host T spec capacity page b) {r i : Nat} (hr : r < b.replicas)
    (hi : i < b.capacity) :
    b.replicaSlotPtr r i = .ok ((ha.accepted.lanes usize).slot r i % 2 ^ 64) := by
  have hr' : r < spec.replicas := ha.replicas_eq ▸ hr
  unfold replicaSlotPtr
  rw [if_neg (by omega), ha.layout_eq, LayoutPlan.replicaElementOffset_eq ha.accepted usize hr' i]
  rfl

/-! ## The exact layout interleaves lanes -/

section
variable {elementSize : Nat} {spec : LayoutSpec}

/-- Past the channels, lane `channels` of a chunk is lane 0 of the next. -/
theorem LayoutPlan.lanes_collide (hacc : spec.Accepted elementSize) {replicas : Nat}
    (hr : spec.channels < replicas) :
    let wide := precompute .exact elementSize { spec with replicas := replicas }
    wide.replicaElementOffset .exact spec.channels 0 = .ok wide.strideInElements ∧
      wide.replicaElementOffset .exact 0 wide.channelOffsetElements =
        .ok wide.strideInElements := by
  have hc := hacc.offsetElements_pos
  intro wide
  rw [replicaElementOffset_of_lt _ wide hr,
    replicaElementOffset_of_lt _ wide (show 0 < replicas by omega)]
  simp [wide, elementOffset, Nat.div_self hc]

/-- **The layout is an exact interleaving of lanes.** -/
theorem layout_interleaves (elementSize : Nat) (spec : LayoutSpec) (plan : LayoutPlan)
    (h : LayoutPlan.forType .exact elementSize spec = .ok plan) :
    -- every element's slot decodes back, and none of its bytes leaves the lane
    (∀ r i, r < spec.replicas → ∃ p, plan.replicaElementOffset .exact r i = .ok p ∧
      p / plan.channelOffsetElements % spec.channels = r ∧
      p / plan.strideInElements * plan.channelOffsetElements +
        p % plan.channelOffsetElements = i ∧
      ∀ b, p * elementSize ≤ b → b < p * elementSize + elementSize →
        b / spec.channelOffsetBytes % spec.channels = r) ∧
    -- every slot of a replica's lane is the slot of the element it decodes to
    (∀ p, p / plan.channelOffsetElements % spec.channels < spec.replicas →
      plan.replicaElementOffset .exact (p / plan.channelOffsetElements % spec.channels)
        (p / plan.strideInElements * plan.channelOffsetElements +
          p % plan.channelOffsetElements) = .ok p) ∧
    Set.BijOn (fun e : Nat × Nat => plan.replicaElementOffset .exact e.1 e.2)
      {e | e.1 < spec.replicas}
      (Except.ok '' {p | p / plan.channelOffsetElements % spec.channels < spec.replicas}) ∧
    -- with more replicas than channels the same formula is not injective
    (∀ replicas, spec.channels < replicas →
      let wide := LayoutPlan.precompute .exact elementSize { spec with replicas := replicas }
      ∃ r i r' i' p, (r, i) ≠ (r', i') ∧ wide.replicaElementOffset .exact r i = .ok p ∧
        wide.replicaElementOffset .exact r' i' = .ok p) := by
  obtain ⟨hacc, rfl⟩ := (LayoutPlan.forType_ok_iff _ _ _ _).mp h
  have hT := hacc.tight
  have hoff : ∀ r i, r < spec.replicas → (LayoutPlan.precompute .exact elementSize
      spec).replicaElementOffset .exact r i = .ok ((hacc.lanes .exact).slot r i) :=
    fun r i hr => LayoutPlan.replicaElementOffset_eq hacc .exact hr i
  have hlt : ∀ r, r < spec.replicas → r < spec.channels :=
    fun r hr => Nat.lt_of_lt_of_le hr hacc.replicas_le
  refine ⟨fun r i hr => ?_, fun p hp => ?_, ?_, fun replicas hr => ?_⟩
  · refine ⟨_, hoff r i hr, hT.laneOf_slot (hlt r hr) i, hT.indexOf_slot (hlt r hr) i, ?_⟩
    intro b h1 h2
    have := hT.unit_lane (hlt r hr) i h1 h2
    rwa [show (hacc.lanes .exact).width * elementSize = spec.channelOffsetBytes from
      hacc.offset_eq] at this
  · exact (hoff _ _ hp).trans (congrArg _ (hT.slot_laneOf_indexOf p))
  · have hbij := hT.slot_bijOn hacc.replicas_le
    have hok : Set.BijOn (fun p => (.ok p : Result Nat))
        {p | p / (LayoutPlan.precompute .exact elementSize spec).channelOffsetElements %
          spec.channels < spec.replicas} _ :=
      (Set.injOn_of_injective fun a b hab => Except.ok.inj hab).bijOn_image
    exact (hok.comp hbij).congr fun e he => (hoff e.1 e.2 he).symm
  · obtain ⟨h1, h2⟩ := LayoutPlan.lanes_collide hacc hr
    refine ⟨_, _, _, _, _, fun he => ?_, h1, h2⟩
    exact absurd (Prod.mk.inj he).1 (Nat.ne_of_gt hacc.channels_pos)

/-- The default spec of one-byte elements. -/
theorem layout_interleaves_default :
    (LayoutPlan.precompute .exact 1 .default).replicaElementOffset .exact
      (768 / 256 % 2) (768 / 512 * 256 + 768 % 256) = .ok 768 :=
  (layout_interleaves 1 .default _ rfl).2.1 768 (by decide)

end

/-! ## The exact allocation is sufficient and tight -/

theorem HugePageSize.bytes_pos (page : HugePageSize) : 0 < page.bytes := by
  cases page <;> decide

theorem roundUp_exact {value alignment : Nat} (hv : 0 < value) (ha : 0 < alignment) :
    alignment ∣ roundUp .exact value alignment ∧ value ≤ roundUp .exact value alignment ∧
      roundUp .exact value alignment < value + alignment := by
  unfold roundUp
  rw [if_neg (by omega)]
  exact ⟨dvd_nextMultipleOf_exact _ _ ha, le_nextMultipleOf_exact _ _,
    nextMultipleOf_exact_lt _ _ ha⟩

section
variable {elementSize : Nat} {spec : LayoutSpec} (hacc : spec.Accepted elementSize)
include hacc

theorem LayoutPlan.allocationLen_exact {k : Nat} (hk : 0 < k) :
    (precompute .exact elementSize spec).allocationLen .exact k =
      (hacc.lanes .exact).slot (spec.replicas - 1) (k - 1) + 1 :=
  allocationLen_eq hacc .exact hk

theorem LayoutPlan.elementOffset_strictMono :
    StrictMono ((precompute .exact elementSize spec).elementOffset .exact) := by
  intro i j hij
  rw [elementOffset_eq hacc .exact i, elementOffset_eq hacc .exact j]
  exact hacc.room.slot_lt hacc.channels_pos 0 hij

theorem LayoutPlan.allocationLen_strictMonoOn :
    StrictMonoOn ((precompute .exact elementSize spec).allocationLen .exact) {k | 1 ≤ k} := by
  intro k (hk : 1 ≤ k) m (hm : 1 ≤ m) hkm
  rw [allocationLen_exact hacc hk, allocationLen_exact hacc hm]
  have := hacc.room.slot_lt hacc.channels_pos (spec.replicas - 1) (show k - 1 < m - 1 by omega)
  omega

/-- Slots of replicas `r < replicas` and indices `i < k` end before the last one. -/
theorem LayoutPlan.slot_lt_allocationLen {r i k : Nat} (hr : r < spec.replicas) (hi : i < k) :
    (hacc.lanes .exact).slot r i <
      (precompute .exact elementSize spec).allocationLen .exact k := by
  rw [allocationLen_exact hacc (by omega)]
  have := hacc.room.slot_le hacc.channels_pos (show r ≤ spec.replicas - 1 by omega)
    (show i ≤ k - 1 by omega)
  omega

/-- Bases are in the allocation whatever the capacity; with none it is just the bases. -/
theorem LayoutPlan.base_lt_allocationLen {r : Nat} (hr : r < spec.replicas) (k : Nat) :
    r * (spec.channelOffsetBytes / elementSize) <
      (precompute .exact elementSize spec).allocationLen .exact k := by
  have hc := hacc.offsetElements_pos
  rcases Nat.eq_zero_or_pos k with rfl | hk
  · show _ < spec.replicas * (spec.channelOffsetBytes / elementSize)
    exact Nat.mul_lt_mul_of_pos_right hr hc
  · have := slot_lt_allocationLen hacc hr hk
    rwa [Lanes.slot_first_chunk _ _ hc] at this

theorem LayoutPlan.allocationBytes_pos (k : Nat) :
    0 < (precompute .exact elementSize spec).allocationBytes .exact k := by
  have h := base_lt_allocationLen hacc hacc.replicas_pos k
  exact Nat.mul_pos (by omega) hacc.elementSize_pos

end

/-- **The allocation is sufficient and tight.** -/
theorem allocation_sufficient_tight (elementSize : Nat) (spec : LayoutSpec) (plan : LayoutPlan)
    (h : LayoutPlan.forType .exact elementSize spec = .ok plan) :
    -- `allocationLen k` is the least bound on the slots, and is attained
    (∀ k, 1 ≤ k →
      IsLeast {m | ∀ r i p, r < spec.replicas → i < k →
        plan.replicaElementOffset .exact r i = .ok p → p < m} (plan.allocationLen .exact k) ∧
      ∃ r i, r < spec.replicas ∧ i < k ∧
        plan.replicaElementOffset .exact r i = .ok (plan.allocationLen .exact k - 1)) ∧
    StrictMono (plan.elementOffset .exact) ∧
    StrictMonoOn (plan.allocationLen .exact) {k | 1 ≤ k} ∧
    -- every replica base is inside, also with capacity 0
    (∀ k r, r < spec.replicas → r * plan.channelOffsetElements < plan.allocationLen .exact k) ∧
    -- the mapped length
    (∀ k (page : HugePageSize),
      let mapped := roundUp .exact (plan.allocationBytes .exact k) page.bytes
      page.bytes ∣ mapped ∧ 0 < mapped ∧ plan.allocationBytes .exact k ≤ mapped ∧
        mapped < plan.allocationBytes .exact k + page.bytes) := by
  obtain ⟨hacc, rfl⟩ := (LayoutPlan.forType_ok_iff _ _ _ _).mp h
  have hR := hacc.replicas_pos
  refine ⟨fun k hk => ?_, LayoutPlan.elementOffset_strictMono hacc,
    LayoutPlan.allocationLen_strictMonoOn hacc,
    fun k r hr => LayoutPlan.base_lt_allocationLen hacc hr k, fun k page => ?_⟩
  · have hlast : ∃ r i, r < spec.replicas ∧ i < k ∧
        (LayoutPlan.precompute .exact elementSize spec).replicaElementOffset .exact r i =
          .ok ((LayoutPlan.precompute .exact elementSize spec).allocationLen .exact k - 1) := by
      refine ⟨spec.replicas - 1, k - 1, by omega, by omega, ?_⟩
      rw [LayoutPlan.replicaElementOffset_eq hacc .exact (by omega), Arith.norm_exact,
        LayoutPlan.allocationLen_exact hacc hk, Nat.add_sub_cancel]
    refine ⟨⟨fun r i p hr hi hp => ?_, fun m hm => ?_⟩, hlast⟩
    · rw [LayoutPlan.replicaElementOffset_eq hacc .exact hr i] at hp
      obtain rfl := Except.ok.inj hp
      exact LayoutPlan.slot_lt_allocationLen hacc hr hi
    · obtain ⟨r, i, hr, hi, hp⟩ := hlast
      have := hm r i _ hr hi hp
      omega
  · have hb := LayoutPlan.allocationBytes_pos hacc k
    obtain ⟨h1, h2, h3⟩ := roundUp_exact hb page.bytes_pos
    exact ⟨h1, Nat.lt_of_lt_of_le hb h2, h2, h3⟩

/-- The default spec of two-byte elements: 129 slots hold two elements. -/
theorem allocation_sufficient_tight_default :
    ∃ r i, r < 2 ∧ i < 2 ∧ (LayoutPlan.precompute .exact 2 .default).replicaElementOffset .exact r i
      = .ok ((LayoutPlan.precompute .exact 2 .default).allocationLen .exact 2 - 1) :=
  ((allocation_sufficient_tight 2 .default _ rfl).1 2 (by decide)).2

end Tailslayer
