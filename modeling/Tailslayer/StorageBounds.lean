import Tailslayer.LayoutLanes
import Tailslayer.Pool.LaneWrap

/-!
# Where a buffer's elements lie in its mapping

Nothing in the release build checks the products behind an address, nor the
size of the mapping.  `Contained b`: every element `b` can address lies in the
mapping and no two of them share a byte.  The mapping is sized by the last
element alone, and that is enough when no product wraps:

    capacity = 0  ∨  SizedExactly  ∨  WrapsHarmlessly   ↔   Contained     (contained_iff)

`WrapsHarmlessly` is about one-byte elements in more than half of the address
space.  Everywhere else the three parts of `SizedExactly` cannot be done without:
an element of two bytes or more is addressed below `2 ^ 63` slots, from where
no single step wraps.
-/

namespace Tailslayer

open Word

/-- The fields are `usize` values. -/
structure LayoutSpec.InRange (spec : LayoutSpec) : Prop where
  replicas_fits : usize.Fits spec.replicas
  channels_fits : usize.Fits spec.channels
  channelOffsetBytes_fits : usize.Fits spec.channelOffsetBytes

/-- A mapping is never empty. -/
def Host.MmapNonempty (host : Host) : Prop :=
  ∀ call bytes hugeShift ptr, host.mmap call bytes hugeShift = .ok ptr → bytes ≠ 0

variable {V : Type}

/-- Every element has its own bytes of the mapping. -/
structure ReplicatedBuffer.Contained (b : ReplicatedBuffer V) : Prop where
  in_bounds : ∀ r i, r < b.replicas → i < b.capacity → ∃ p, b.replicaSlotPtr r i = .ok p ∧
    p * b.layout.elementSize + b.layout.elementSize ≤ b.storage.bytes
  disjoint : ∀ r i r' i' p p', r < b.replicas → r' < b.replicas → i < b.capacity →
    i' < b.capacity → (r, i) ≠ (r', i') → b.replicaSlotPtr r i = .ok p →
    b.replicaSlotPtr r' i' = .ok p' →
    p * b.layout.elementSize + b.layout.elementSize ≤ p' * b.layout.elementSize ∨
      p' * b.layout.elementSize + b.layout.elementSize ≤ p * b.layout.elementSize

/-! ## The condition on the inputs -/

section
variable (elementSize : Nat) (spec : LayoutSpec) (capacity : Nat)

/-- The stride of the release build, its product perhaps wrapped. -/
def wrappedStride : Nat :=
  spec.channels * (spec.channelOffsetBytes / elementSize) % 2 ^ 64

/-- Slots up to the end of the last element of the last replica, with no product wrapped. -/
def neededLen : Nat :=
  let width := spec.channelOffsetBytes / elementSize
  (spec.replicas - 1) * width +
    ((capacity - 1) / width * wrappedStride elementSize spec + (capacity - 1) % width) + 1

/-- One chunk is enough or the stride has room for the replicas, and the size is a `usize`. -/
structure SizedExactly : Prop where
  room : capacity ≤ spec.channelOffsetBytes / elementSize ∨
    spec.replicas * (spec.channelOffsetBytes / elementSize) ≤ wrappedStride elementSize spec
  fits : neededLen elementSize spec capacity * elementSize < 2 ^ 64

/-- Where chunk `j` of replica `r` starts, reduced to 64 bits. -/
def chunkStart (r j : Nat) : Nat :=
  (r * (spec.channelOffsetBytes / elementSize) + j * wrappedStride elementSize spec) % 2 ^ 64

/-- How many elements there are in chunk `j` of a replica. -/
def chunkFilled (j : Nat) : Nat :=
  min (spec.channelOffsetBytes / elementSize)
    (capacity - j * (spec.channelOffsetBytes / elementSize))

/-- The end of the last replica's last chunk, in whole hugepages. -/
def lastChunkEnd (page : HugePageSize) : Nat :=
  let last := (capacity - 1) / (spec.channelOffsetBytes / elementSize)
  nextMultipleOf .exact (chunkStart elementSize spec (spec.replicas - 1) last +
    chunkFilled elementSize spec capacity last) page.bytes

/-- One-byte elements whose last chunk ends high in the address space, and whose
other chunks wrap into the free space below without touching. -/
structure WrapsHarmlessly (page : HugePageSize) : Prop where
  size_eq : elementSize = 1
  half_lt : 2 ^ 63 < lastChunkEnd elementSize spec capacity page
  lt : lastChunkEnd elementSize spec capacity page < 2 ^ 64
  end_le : ∀ r j, r < spec.replicas →
    j * (spec.channelOffsetBytes / elementSize) < capacity →
    chunkStart elementSize spec r j + chunkFilled elementSize spec capacity j ≤
      lastChunkEnd elementSize spec capacity page
  apart : ∀ r j r' j', r < spec.replicas → r' < spec.replicas →
    j * (spec.channelOffsetBytes / elementSize) < capacity →
    j' * (spec.channelOffsetBytes / elementSize) < capacity → (r, j) ≠ (r', j') →
    chunkStart elementSize spec r j + chunkFilled elementSize spec capacity j ≤
        chunkStart elementSize spec r' j' ∨
      chunkStart elementSize spec r' j' + chunkFilled elementSize spec capacity j' ≤
        chunkStart elementSize spec r j

end

/-! ## Offsets and mapped length, reduced to 64 bits -/

section
variable {elementSize : Nat} {spec : LayoutSpec} (hacc : spec.Accepted elementSize)
include hacc

theorem LayoutSpec.Accepted.neededLen_eq (capacity : Nat) :
    neededLen elementSize spec capacity =
      (hacc.lanes usize).slot (spec.replicas - 1) (capacity - 1) + 1 := rfl

/-- If the last chunk ends below `2 ^ 64` that is also where the last element ends. -/
theorem LayoutSpec.Accepted.neededLen_mod {capacity : Nat} (hk : 0 < capacity)
    (h : chunkStart elementSize spec (spec.replicas - 1)
        ((capacity - 1) / (spec.channelOffsetBytes / elementSize)) +
      chunkFilled elementSize spec capacity
        ((capacity - 1) / (spec.channelOffsetBytes / elementSize)) < 2 ^ 64) :
    neededLen elementSize spec capacity % 2 ^ 64 =
      chunkStart elementSize spec (spec.replicas - 1)
          ((capacity - 1) / (spec.channelOffsetBytes / elementSize)) +
        chunkFilled elementSize spec capacity
          ((capacity - 1) / (spec.channelOffsetBytes / elementSize)) := by
  have hlast := (hacc.lanes usize).last_slot_mod (2 ^ 64) (spec.replicas - 1) hk (Nat.le_of_lt h)
  have hlt : (hacc.lanes usize).slot (spec.replicas - 1) (capacity - 1) % 2 ^ 64 + 1 < 2 ^ 64 :=
    hlast ▸ h
  rw [hacc.neededLen_eq, ← Nat.mod_add_mod, Nat.mod_eq_of_lt hlt]
  exact hlast

end

namespace ReplicatedBuffer

section
variable {host : Host} {T : CopyType V} {spec : LayoutSpec} {capacity : Nat}
  {page : HugePageSize} {b : ReplicatedBuffer V} (ha : Allocated host T spec capacity page b)
include ha

/-- Containment is about the wrapped slots alone. -/
theorem Allocated.contained_iff_wrapsInto : b.Contained ↔
    (ha.accepted.lanes usize).WrapsInto (2 ^ 64) spec.replicas capacity
      (b.storage.bytes / T.size) := by
  have hR := ha.replicas_eq
  have hk := ha.capacity_eq
  have hs : b.layout.elementSize = T.size := by
    rw [ha.layout_eq, LayoutPlan.precompute_elementSize]
  have hpos := ha.accepted.elementSize_pos
  constructor
  · intro h
    refine ⟨fun r i hr hi => ?_, fun r i r' i' hr hr' hi hi' he => ?_⟩
    · obtain ⟨p, hp, hle⟩ := h.in_bounds r i (hR ▸ hr) (hk ▸ hi)
      rw [ha.replicaSlotPtr_eq (hR ▸ hr) (hk ▸ hi)] at hp
      obtain rfl := Except.ok.inj hp
      rw [hs, ← Nat.succ_mul] at hle
      exact (Nat.le_div_iff_mul_le hpos).mpr hle
    · apply Classical.byContradiction
      intro hne
      have hpair : (r, i) ≠ (r', i') := fun heq => hne (Prod.mk.inj heq)
      have h1 := ha.replicaSlotPtr_eq (r := r) (i := i) (hR ▸ hr) (hk ▸ hi)
      have h2 := ha.replicaSlotPtr_eq (r := r') (i := i') (hR ▸ hr') (hk ▸ hi')
      have := h.disjoint r i r' i' _ _ (hR ▸ hr) (hR ▸ hr') (hk ▸ hi) (hk ▸ hi') hpair h1 h2
      rw [hs, he] at this
      omega
  · intro h
    refine ⟨fun r i hr hi => ⟨_, ha.replicaSlotPtr_eq hr hi, ?_⟩,
      fun r i r' i' p p' hr hr' hi hi' hne hp hp' => ?_⟩
    · have hlt := h.lt r i (hR ▸ hr) (hk ▸ hi)
      rw [hs, ← Nat.succ_mul]
      exact (Nat.le_div_iff_mul_le hpos).mp hlt
    · rw [ha.replicaSlotPtr_eq hr hi] at hp
      rw [ha.replicaSlotPtr_eq hr' hi'] at hp'
      obtain rfl := Except.ok.inj hp
      obtain rfl := Except.ok.inj hp'
      rw [hs, ← Nat.succ_mul, ← Nat.succ_mul]
      rcases Nat.lt_trichotomy ((ha.accepted.lanes usize).slot r i % 2 ^ 64)
        ((ha.accepted.lanes usize).slot r' i' % 2 ^ 64) with hlt | he | hlt
      · exact Or.inl (Nat.mul_le_mul_right _ hlt)
      · obtain ⟨rfl, rfl⟩ :=
          h.inj r i r' i' (hR ▸ hr) (hR ▸ hr') (hk ▸ hi) (hk ▸ hi') he
        exact absurd rfl hne
      · exact Or.inr (Nat.mul_le_mul_right _ hlt)

/-- One hugepage when the byte count wraps to zero, otherwise the rounded byte count. -/
theorem Allocated.bytes_cases (hmap : host.MmapNonempty) (hk : 0 < capacity) :
    let bytes := neededLen T.size spec capacity * T.size % 2 ^ 64
    b.storage.bytes + page.bytes ≤ 2 ^ 64 ∧
      (bytes = 0 ∧ b.storage.bytes = page.bytes ∨
        bytes ≠ 0 ∧ b.storage.bytes = nextMultipleOf .exact bytes page.bytes) := by
  intro bytes
  have halloc : (LayoutPlan.precompute usize T.size spec).allocationBytes usize capacity =
      bytes := LayoutPlan.allocationBytes_eq ha.accepted usize hk
  have hbytes := ha.bytes_eq
  have hne := hmap _ _ _ _ ha.mapped
  rw [halloc, roundUp] at hbytes
  have hpage : page.bytes ∣ 2 ^ 64 ∧ page.bytes + page.bytes ≤ 2 ^ 64 := by
    cases page <;> decide
  by_cases h0 : bytes = 0
  · rw [if_pos h0] at hbytes
    exact ⟨hbytes ▸ hpage.2, Or.inl ⟨h0, hbytes⟩⟩
  · rw [if_neg h0] at hbytes
    obtain ⟨h1, h2⟩ := nextMultipleOf_wrap page.bytes_pos hpage.1
      (show bytes < 2 ^ 64 from Nat.mod_lt _ (Nat.two_pow_pos 64)) (hbytes ▸ hne)
    rw [h1] at hbytes
    exact ⟨hbytes ▸ h2, Or.inr ⟨h0, hbytes⟩⟩

/-! ## Containment -/

theorem Allocated.contained_of_sizedExactly (hmap : host.MmapNonempty) (hk : 0 < capacity)
    (h : SizedExactly T.size spec capacity) : b.Contained := by
  have hpos := ha.accepted.elementSize_pos
  have hspread : (ha.accepted.lanes usize).Spread spec.replicas capacity := h.room
  have hneeded := ha.accepted.neededLen_eq capacity
  have hfits := h.fits
  -- nothing wrapped in the byte count
  have hle : neededLen T.size spec capacity ≤ b.storage.bytes / T.size := by
    obtain ⟨-, ⟨h0, -⟩ | ⟨-, hb⟩⟩ := ha.bytes_cases hmap hk
    · rw [Nat.mod_eq_of_lt hfits] at h0
      have := Nat.mul_pos (show 0 < neededLen T.size spec capacity by omega) hpos
      omega
    · rw [Nat.mod_eq_of_lt hfits] at hb
      rw [Nat.le_div_iff_mul_le hpos, hb]
      exact le_nextMultipleOf_exact _ _
  -- nor in an offset
  have hslot : ∀ r i, r < spec.replicas → i < capacity →
      (ha.accepted.lanes usize).slot r i < neededLen T.size spec capacity ∧
      (ha.accepted.lanes usize).slot r i % 2 ^ 64 = (ha.accepted.lanes usize).slot r i := by
    intro r i hr hi
    have hlast := hspread.slot_le_last hr hi
    have hlt : (ha.accepted.lanes usize).slot r i < neededLen T.size spec capacity := by omega
    have hmul := Nat.le_mul_of_pos_right (neededLen T.size spec capacity) hpos
    exact ⟨hlt, Nat.mod_eq_of_lt (by omega)⟩
  refine ha.contained_iff_wrapsInto.mpr
    ⟨fun r i hr hi => ?_, fun r i r' i' hr hr' hi hi' he => ?_⟩
  · rw [(hslot r i hr hi).2]
    exact Nat.lt_of_lt_of_le (hslot r i hr hi).1 hle
  · rw [(hslot r i hr hi).2, (hslot r' i' hr' hi').2] at he
    exact hspread.slot_inj hr hr' hi hi' he

/-- Below half of the address space a contained buffer is sized exactly. -/
theorem Allocated.sizedExactly_of_contained (hmap : host.MmapNonempty) (hspec : spec.InRange)
    (hcap : usize.Fits capacity) (hk : 0 < capacity)
    (hhalf : b.storage.bytes / T.size ≤ 2 ^ 63) (h : b.Contained) :
    SizedExactly T.size spec capacity := by
  have hpos := ha.accepted.elementSize_pos
  have hR := ha.accepted.replicas_pos
  have hw := ha.contained_iff_wrapsInto.mp h
  have hwidth : (ha.accepted.lanes usize).width < 2 ^ 64 :=
    Nat.lt_of_le_of_lt (Nat.div_le_self _ _) hspec.channelOffsetBytes_fits
  have hlt : ∀ r i, r < spec.replicas → i < capacity →
      (ha.accepted.lanes usize).slot r i < 2 ^ 63 := fun r i hr hi =>
    Lanes.slot_lt_of_wrapped_lt_half _ (by decide) hwidth (Nat.mod_lt _ (Nat.two_pow_pos 64))
      (Nat.le_of_lt hcap) (fun r i hr hi => Nat.lt_of_lt_of_le (hw.lt r i hr hi) hhalf) hr hi
  have hmod : ∀ r i, r < spec.replicas → i < capacity →
      (ha.accepted.lanes usize).slot r i % 2 ^ 64 = (ha.accepted.lanes usize).slot r i := by
    intro r i hr hi
    have := hlt r i hr hi
    exact Nat.mod_eq_of_lt (by omega)
  refine ⟨?_, ?_⟩
  · refine Lanes.spread_of_inj (ha.accepted.lanes usize) fun r i r' i' hr hr' hi hi' he => ?_
    refine hw.inj r i r' i' hr hr' hi hi' ?_
    rw [he]
  · have hlast := hw.lt (spec.replicas - 1) (capacity - 1) (by omega) (by omega)
    rw [hmod _ _ (by omega) (by omega)] at hlast
    have hneeded := ha.accepted.neededLen_eq capacity
    have hle : neededLen T.size spec capacity ≤ b.storage.bytes / T.size := by omega
    have hbytes := (Nat.le_div_iff_mul_le hpos).mp hle
    have hroom := (ha.bytes_cases hmap hk).1
    have := page.bytes_pos
    omega

/-- The mapping reaches to the end of the last chunk. -/
theorem Allocated.bytes_eq_lastChunkEnd (hmap : host.MmapNonempty) (hk : 0 < capacity)
    (hs : T.size = 1)
    (h : chunkStart T.size spec (spec.replicas - 1)
        ((capacity - 1) / (spec.channelOffsetBytes / T.size)) +
      chunkFilled T.size spec capacity
        ((capacity - 1) / (spec.channelOffsetBytes / T.size)) < 2 ^ 64) :
    b.storage.bytes = lastChunkEnd T.size spec capacity page := by
  have hmod := ha.accepted.neededLen_mod hk h
  have hdiv := Nat.div_mul_le_self (capacity - 1) (spec.channelOffsetBytes / T.size)
  have hfilled := (ha.accepted.lanes usize).filled_pos (k := capacity)
    (j := (capacity - 1) / (spec.channelOffsetBytes / T.size))
    (show _ / (spec.channelOffsetBytes / T.size) * (spec.channelOffsetBytes / T.size) < _ by omega)
  change 0 < chunkFilled T.size spec capacity _ at hfilled
  have hmul : neededLen T.size spec capacity * T.size = neededLen T.size spec capacity := by
    rw [hs, Nat.mul_one]
  obtain ⟨-, ⟨h0, -⟩ | ⟨-, hb⟩⟩ := ha.bytes_cases hmap hk
  · rw [hmul, hmod] at h0
    omega
  · rw [hmul, hmod] at hb
    exact hb

/-- Above it, containment is what the chunks do. -/
theorem Allocated.contained_iff_wrapsHarmlessly (hmap : host.MmapNonempty) (hk : 0 < capacity)
    (hs : T.size = 1) (hhalf : 2 ^ 63 < b.storage.bytes) :
    b.Contained ↔ WrapsHarmlessly T.size spec capacity page := by
  have hR := ha.accepted.replicas_pos
  have hlt : b.storage.bytes < 2 ^ 64 := by
    have := (ha.bytes_cases hmap hk).1
    have := page.bytes_pos
    omega
  have hdiv := Nat.div_mul_le_self (capacity - 1) (spec.channelOffsetBytes / T.size)
  have hbytes : b.storage.bytes / T.size = b.storage.bytes := by rw [hs, Nat.div_one]
  rw [ha.contained_iff_wrapsInto, hbytes, Lanes.wrapsInto_iff_apart hlt]
  constructor
  · intro h
    have hend := h.end_le (spec.replicas - 1)
      ((capacity - 1) / (spec.channelOffsetBytes / T.size)) (by omega)
      (show _ / (spec.channelOffsetBytes / T.size) * (spec.channelOffsetBytes / T.size) < _ by
        omega)
    have htop := ha.bytes_eq_lastChunkEnd hmap hk hs (Nat.lt_of_le_of_lt hend hlt)
    rw [htop] at h hhalf hlt
    exact ⟨hs, hhalf, hlt, h.end_le, h.apart⟩
  · intro h
    have hend := h.end_le (spec.replicas - 1)
      ((capacity - 1) / (spec.channelOffsetBytes / T.size)) (by omega) (by omega)
    have htop := ha.bytes_eq_lastChunkEnd hmap hk hs (Nat.lt_of_le_of_lt hend h.lt)
    rw [htop]
    exact ⟨h.end_le, h.apart⟩

end

end ReplicatedBuffer

/-- Inputs on which every element has its own bytes of the mapping. -/
def ContainedWhen (elementSize : Nat) (spec : LayoutSpec) (capacity : Nat) (page : HugePageSize) :
    Prop :=
  capacity = 0 ∨ SizedExactly elementSize spec capacity ∨
    WrapsHarmlessly elementSize spec capacity page

theorem ReplicatedBuffer.Allocated.contained_of_when {host : Host} (hmap : host.MmapNonempty)
    {T : CopyType V} {spec : LayoutSpec} {capacity : Nat} {page : HugePageSize}
    {b : ReplicatedBuffer V} (ha : Allocated host T spec capacity page b)
    (h : ContainedWhen T.size spec capacity page) : b.Contained := by
  rcases Nat.eq_zero_or_pos capacity with h0 | hk
  · refine ⟨fun r i _ hi => ?_, fun r i _ _ _ _ _ _ hi => ?_⟩
    · rw [ha.capacity_eq] at hi
      omega
    · rw [ha.capacity_eq] at hi
      omega
  · rcases h with h0 | hexact | hwrap
    · omega
    · exact ha.contained_of_sizedExactly hmap hk hexact
    · have hR := ha.accepted.replicas_pos
      have hdiv := Nat.div_mul_le_self (capacity - 1) (spec.channelOffsetBytes / T.size)
      have hend := hwrap.end_le (spec.replicas - 1)
        ((capacity - 1) / (spec.channelOffsetBytes / T.size)) (by omega) (by omega)
      have htop := ha.bytes_eq_lastChunkEnd hmap hk hwrap.size_eq
        (Nat.lt_of_le_of_lt hend hwrap.lt)
      exact (ha.contained_iff_wrapsHarmlessly hmap hk hwrap.size_eq
        (htop ▸ hwrap.half_lt)).mpr hwrap

open ReplicatedBuffer in
/-- **When a buffer stays in its mapping.**  Of all the buffers that can be
built, the contained ones are those whose last element is addressed and sized
without wrapping, and the few that wrap harmlessly. -/
theorem contained_iff (host : Host) (hmap : host.MmapNonempty) (T : CopyType V) (spec : LayoutSpec)
    (hspec : spec.InRange) (capacity : Nat) (hcap : usize.Fits capacity) (page : HugePageSize)
    (validation : ChannelValidation) (b : ReplicatedBuffer V)
    (h : withOptions host T spec capacity page validation = .ok b) :
    b.Contained ↔ ContainedWhen T.size spec capacity page := by
  have ha := (withOptions_ok h).1
  refine ⟨fun hb => ?_, ha.contained_of_when hmap⟩
  rcases Nat.eq_zero_or_pos capacity with h0 | hk
  · exact Or.inl h0
  by_cases hhalf : b.storage.bytes / T.size ≤ 2 ^ 63
  · exact Or.inr (Or.inl (ha.sizedExactly_of_contained hmap hspec hcap hk hhalf hb))
  · -- two bytes or more an element leave less than half of the slots
    have hs : T.size = 1 := by
      apply Classical.byContradiction
      intro hne
      have := ha.accepted.elementSize_pos
      have hdiv : b.storage.bytes / T.size ≤ b.storage.bytes / 2 :=
        Nat.div_le_div_left (by omega) (by omega)
      have := (ha.bytes_cases hmap hk).1
      omega
    rw [hs, Nat.div_one] at hhalf
    exact Or.inr (Or.inr ((ha.contained_iff_wrapsHarmlessly hmap hk hs (by omega)).mp hb))

theorem grantingHost_mmapNonempty : grantingHost.MmapNonempty := by
  intro call bytes hugeShift ptr h h0
  subst h0
  cases h

open ReplicatedBuffer in
/-- A thousand words fit. -/
theorem contained_iff_words :
    ∃ b : ReplicatedBuffer Nat,
      withOptions grantingHost ⟨8, 0⟩ .default 1000 .size2MiB .none = .ok b ∧ b.Contained :=
  ⟨_, rfl, (contained_iff grantingHost grantingHost_mmapNonempty ⟨8, 0⟩ .default
    ⟨by decide, by decide, by decide⟩ 1000 (by decide) .size2MiB .none _ rfl).mpr
      (Or.inr (Or.inl ⟨Or.inr (by decide), by decide⟩))⟩

open ReplicatedBuffer in
/-- `2 ^ 60` words: the byte count wraps to zero, one hugepage is mapped, and
element 131072 is addressed just past it. -/
theorem not_contained_wrapped :
    grantingHost.MmapNonempty ∧ LayoutSpec.default.InRange ∧ usize.Fits (2 ^ 60) ∧
    ∃ b : ReplicatedBuffer Nat,
      withOptions grantingHost ⟨8, 0⟩ .default (2 ^ 60) .size2MiB .none = .ok b ∧
      b.storage.bytes = 2097152 ∧ b.replicaSlotPtr 0 131072 = .ok 262144 ∧ ¬ b.Contained := by
  refine ⟨grantingHost_mmapNonempty, ⟨by decide, by decide, by decide⟩, by decide, _, rfl, rfl, rfl,
    fun h => ?_⟩
  obtain ⟨p, hp, hle⟩ := h.in_bounds 0 131072 (by decide) (by decide)
  obtain rfl := Except.ok.inj hp
  exact absurd hle (by decide)

end Tailslayer
