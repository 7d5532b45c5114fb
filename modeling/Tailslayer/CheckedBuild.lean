import Tailslayer.Pool.Checked
import Tailslayer.StorageBounds
import Tailslayer.StorageRefine

/-!
# The build with overflow checks

Source: `src/layout.rs`, `src/storage.rs`, `src/sys.rs`, compiled as the tests
and every debug build are: a `+`, `-`, `*` or `<<` that overflows panics.  The
functions are those of the release build, their arithmetic `Checked`, and `none`
is the panic.  Pointer arithmetic (`ptr.add`) stays unchecked.

A checked function is the check of its exact value (`allocationBytesChecked_eq`
and its like), so that construction panics exactly where the layout does not fit
64 bits (`checked_allocate_eq`).  What it does not panic on it computes as the
release build does, and there that build is safe:

    withOptionsChecked = some (.ok b)  →  b.Contained, and no operation on b panics
                                                              (checked_build_contained)
-/

namespace Tailslayer

open Word

variable {V : Type}

/-! ## Layout -/

namespace LayoutPlan

def forTypeChecked (elementSize : Nat) (spec : LayoutSpec) : Option (Result LayoutPlan) :=
  if elementSize = 0 then
    some (.error (.invalidConfig "zero-sized types are not supported"))
  else if spec.replicas = 0 then
    some (.error (.invalidConfig "replicas must be greater than zero"))
  else if spec.channels = 0 then
    some (.error (.invalidConfig "channels must be greater than zero"))
  else if spec.channels < spec.replicas then
    some (.error (.invalidConfig "replicas cannot exceed the configured channel count"))
  else if spec.channelOffsetBytes = 0 then
    some (.error (.invalidConfig "channel_offset_bytes must be non-zero"))
  else if spec.channelOffsetBytes % elementSize ≠ 0 then
    some (.error
      (.invalidConfig "channel_offset_bytes must be a multiple of the element size"))
  else do
    let channelOffsetElements := spec.channelOffsetBytes / elementSize
    let strideInElements ← Checked.mul 64 spec.channels channelOffsetElements
    some (.ok
      { spec := spec
        elementSize := elementSize
        channelOffsetElements := channelOffsetElements
        elementsPerChunk := channelOffsetElements
        strideInElements := strideInElements })

variable (plan : LayoutPlan)

def elementOffsetChecked (logicalIndex : Nat) : Option Nat := do
  let chunkIndex := logicalIndex / plan.elementsPerChunk
  let offsetInChunk := logicalIndex % plan.elementsPerChunk
  let chunkStart ← Checked.mul 64 chunkIndex plan.strideInElements
  Checked.add 64 chunkStart offsetInChunk

def replicaElementOffsetChecked (replica logicalIndex : Nat) : Option (Result Nat) :=
  if plan.spec.replicas ≤ replica then
    some (.error (.outOfBounds replica plan.spec.replicas))
  else do
    let base ← Checked.mul 64 replica plan.channelOffsetElements
    let offset ← plan.elementOffsetChecked logicalIndex
    let slot ← Checked.add 64 base offset
    some (.ok slot)

def allocationLenChecked (logicalCapacity : Nat) : Option Nat :=
  if logicalCapacity = 0 then
    Checked.mul 64 plan.spec.replicas plan.channelOffsetElements
  else do
    let lastLogicalIndex ← Checked.sub logicalCapacity 1
    let lastReplica ← Checked.sub plan.spec.replicas 1
    let lastReplicaBase ← Checked.mul 64 lastReplica plan.channelOffsetElements
    let offset ← plan.elementOffsetChecked lastLogicalIndex
    let last ← Checked.add 64 lastReplicaBase offset
    Checked.add 64 last 1

def allocationBytesChecked (logicalCapacity : Nat) : Option Nat := do
  let len ← plan.allocationLenChecked logicalCapacity
  Checked.mul 64 len plan.elementSize

end LayoutPlan

/-! ## System calls -/

def virtToPhysChecked (host : Host) (addr : Nat) : Option (Result Nat) :=
  match host.openPagemap with
  | .error e => some (.error (.io e))
  | .ok () =>
    match host.readPagemap (addr / 4096 * 8) with
    | .error e => some (.error (.io e))
    | .ok (bytesRead, entry) =>
      if bytesRead ≠ 8 then
        some (.error (.io (.unexpectedEof "short read from /proc/self/pagemap")))
      else if entry &&& 1 <<< 63 = 0 then
        some (.error (.validationFailed "page is not present"))
      else
        let pfn := entry &&& ((1 <<< 55) - 1)
        if pfn = 0 then
          some (.error (.validationFailed
            "PFN unavailable from /proc/self/pagemap; run with elevated privileges"))
        else do
          let frame ← Checked.mul 64 pfn 4096
          some (.ok (frame ||| (addr &&& 0xfff)))

/-- A shift of a `u64` by 64 or more is an overflow. -/
def computeChannelChecked (phys channelBit : Nat) : Option Nat :=
  if channelBit < 64 then some (phys >>> channelBit &&& 1) else none

/-! ## Storage -/

def roundUpChecked (value alignment : Nat) : Option Nat :=
  if value = 0 then some alignment else Checked.nextMultipleOf 64 value alignment

def Storage.newChecked (host : Host) (T : CopyType V) (layout : LayoutPlan) (capacity : Nat)
    (hugepageSize : HugePageSize) : Option (Result (Storage V)) := do
  let bytes ← layout.allocationBytesChecked capacity
  let rounded ← roundUpChecked bytes hugepageSize.bytes
  match mapHugetlb host rounded hugepageSize.bytes with
  | .error e => some (.error e)
  | .ok ptr => some (.ok { ptr := ptr, bytes := rounded, slots := fun _ => T.zeroed })

namespace ReplicatedBuffer

def replicaBasePtrChecked (b : ReplicatedBuffer V) (replica : Nat) : Option (Result Nat) :=
  if b.layout.spec.replicas ≤ replica then
    some (.error (.outOfBounds replica b.layout.spec.replicas))
  else do
    let offset ← Checked.mul 64 replica b.layout.channelOffsetElements
    some (.ok offset)

def replicaSlotPtrChecked (b : ReplicatedBuffer V) (replica index : Nat) : Option (Result Nat) :=
  if b.capacity ≤ index then
    some (.error (.outOfBounds index b.capacity))
  else
    b.layout.replicaElementOffsetChecked replica index

def replicaPtrChecked (b : ReplicatedBuffer V) (replica index : Nat) : Option (Result Nat) :=
  if b.len ≤ index then
    some (.error (.outOfBounds index b.len))
  else
    b.replicaSlotPtrChecked replica index

def replicaValueChecked (b : ReplicatedBuffer V) (replica index : Nat) : Option (Result V) := do
  match ← b.replicaPtrChecked replica index with
  | .error e => some (.error e)
  | .ok ptr => some (.ok (b.storage.slots ptr))

def pushReplicasChecked (b : ReplicatedBuffer V) (value : V) :
    List Nat → Option (ReplicatedBuffer V × Result Unit)
  | [] => some (b, .ok ())
  | replica :: rest => do
    match ← b.replicaSlotPtrChecked replica b.len with
    | .error e => some (b, .error e)
    | .ok ptr => pushReplicasChecked (b.write ptr value) value rest

def pushChecked (b : ReplicatedBuffer V) (value : V) :
    Option (ReplicatedBuffer V × Result Unit) :=
  if b.capacity ≤ b.len then
    some (b, .error (.capacityExceeded b.len b.capacity))
  else do
    match ← b.pushReplicasChecked value (List.range b.layout.spec.replicas) with
    | (b', .error e) => some (b', .error e)
    | (b', .ok ()) =>
      let len ← Checked.add 64 b'.len 1
      some ({ b' with len := len }, .ok ())

def extendFromSliceChecked (b : ReplicatedBuffer V) :
    List V → Option (ReplicatedBuffer V × Result Unit)
  | [] => some (b, .ok ())
  | value :: values => do
    match ← b.pushChecked value with
    | (b', .error e) => some (b', .error e)
    | (b', .ok ()) => extendFromSliceChecked b' values

def applyOpChecked (b : ReplicatedBuffer V) :
    ListOp V → Option (ReplicatedBuffer V × Result Unit)
  | .push value => b.pushChecked value
  | .extend values => b.extendFromSliceChecked values

def runOpsChecked (b : ReplicatedBuffer V) : List (ListOp V) → Option (ReplicatedBuffer V)
  | [] => some b
  | op :: ops => do
    let (b', _) ← b.applyOpChecked op
    runOpsChecked b' ops

def replicaChannelsChecked (host : Host) (b : ReplicatedBuffer V) (channelBit : Nat) :
    List Nat → Option (Result (List Nat))
  | [] => some (.ok [])
  | replica :: rest => do
    let offset ← Checked.mul 64 replica b.layout.channelOffsetElements
    match ← virtToPhysChecked host (b.storage.addr b.layout.elementSize offset) with
    | .error e => some (.error e)
    | .ok phys =>
      let channel ← computeChannelChecked phys channelBit
      match ← replicaChannelsChecked host b channelBit rest with
      | .error e => some (.error e)
      | .ok channels => some (.ok (channel :: channels))

def validateChannelsChecked (host : Host) (b : ReplicatedBuffer V) (channelBit : Nat) :
    Option (Result Unit) := do
  match ← b.replicaChannelsChecked host channelBit (List.range b.layout.spec.replicas) with
  | .error e => some (.error e)
  | .ok channels =>
    if anyEqualRight channels then
      some (.error (.validationFailed "two replica bases resolved to the same channel"))
    else
      some (.ok ())

def allocateChecked (host : Host) (T : CopyType V) (spec : LayoutSpec) (capacity : Nat)
    (hugepageSize : HugePageSize) : Option (Result (ReplicatedBuffer V)) := do
  match ← LayoutPlan.forTypeChecked T.size spec with
  | .error e => some (.error e)
  | .ok layout =>
    match ← Storage.newChecked host T layout capacity hugepageSize with
    | .error e => some (.error e)
    | .ok storage =>
      some (.ok { layout := layout, capacity := capacity, len := 0, storage := storage })

def withOptionsChecked (host : Host) (T : CopyType V) (spec : LayoutSpec) (capacity : Nat)
    (hugepageSize : HugePageSize) (validation : ChannelValidation) :
    Option (Result (ReplicatedBuffer V)) := do
  match ← allocateChecked host T spec capacity hugepageSize with
  | .error e => some (.error e)
  | .ok buffer =>
    match validation with
    | .none => some (.ok buffer)
    | .pagemap channelBit =>
      match ← buffer.validateChannelsChecked host channelBit with
      | .error e => some (.error e)
      | .ok () => some (.ok buffer)

end ReplicatedBuffer

/-! ## A checked layout is the check of the exact one -/

namespace LayoutPlan

section
variable (A : Arith) (plan : LayoutPlan)

/-- However the steps wrap, the offset is the exact one as far as `A` counts. -/
theorem elementOffset_norm (i : Nat) :
    plan.elementOffset A i = A.norm (plan.elementOffset .exact i) :=
  Arith.norm_add_left A _ _

theorem replicaOffset_norm (r i : Nat) :
    A.add (A.mul r plan.channelOffsetElements) (plan.elementOffset A i) =
      A.norm (r * plan.channelOffsetElements + plan.elementOffset .exact i) := by
  rw [elementOffset_norm]
  exact Arith.norm_add_norm A _ _

theorem allocationLen_norm (k : Nat) :
    plan.allocationLen A k = A.norm (plan.allocationLen .exact k) := by
  unfold allocationLen
  split
  · rfl
  · dsimp only
    rw [replicaOffset_norm]
    exact Arith.norm_add_left A _ _

theorem allocationBytes_norm (k : Nat) :
    plan.allocationBytes A k = A.norm (plan.allocationBytes .exact k) := by
  unfold allocationBytes
  rw [allocationLen_norm]
  exact Arith.norm_mul_left A _ _

theorem elementOffsetChecked_eq (i : Nat) :
    plan.elementOffsetChecked i = Checked.word 64 (plan.elementOffset .exact i) :=
  Checked.word_bind_add 64 _ _

theorem replicaElementOffsetChecked_eq {r : Nat} (hr : r < plan.spec.replicas) (i : Nat) :
    plan.replicaElementOffsetChecked r i =
      (Checked.word 64 (r * plan.channelOffsetElements + plan.elementOffset .exact i)).map .ok := by
  have hsum : ((Checked.word 64 (r * plan.channelOffsetElements)).bind fun base =>
      (Checked.word 64 (plan.elementOffset .exact i)).bind fun offset =>
        Checked.add 64 base offset) =
      Checked.word 64 (r * plan.channelOffsetElements + plan.elementOffset .exact i) :=
    Checked.word_bind (fun _ => Checked.word_bind_add_left 64 _ _) (Nat.le_add_right _ _)
  unfold replicaElementOffsetChecked
  rw [if_neg (by omega), elementOffsetChecked_eq, ← hsum]
  simp only [Checked.mul, Option.bind_eq_bind, Option.map_eq_bind, Option.bind_assoc]
  rfl

theorem allocationLenChecked_eq (hR : 0 < plan.spec.replicas) (k : Nat) :
    plan.allocationLenChecked k = Checked.word 64 (plan.allocationLen .exact k) := by
  unfold allocationLenChecked allocationLen
  by_cases hk : k = 0
  · rw [if_pos hk, if_pos hk]
    rfl
  · rw [if_neg hk, if_neg hk, Checked.sub_of_le (show 1 ≤ k by omega),
      Checked.sub_of_le (show 1 ≤ plan.spec.replicas from hR)]
    simp only [Option.bind_eq_bind, Option.bind_some, elementOffsetChecked_eq, Checked.mul,
      Arith.add_exact, Arith.mul_exact]
    -- each sum is at least its parts
    have hlast : ((Checked.word 64 (plan.elementOffset .exact (k - 1))).bind fun offset =>
        (Checked.add 64 ((plan.spec.replicas - 1) * plan.channelOffsetElements) offset).bind
          fun last => Checked.add 64 last 1) =
        Checked.word 64 ((plan.spec.replicas - 1) * plan.channelOffsetElements +
          plan.elementOffset .exact (k - 1) + 1) :=
      Checked.word_bind (fun _ => Checked.word_bind_add 64 _ 1) (by omega)
    exact Checked.word_bind (fun _ => hlast) (by omega)

theorem allocationBytesChecked_eq (hR : 0 < plan.spec.replicas) (hs : 0 < plan.elementSize)
    (k : Nat) :
    plan.allocationBytesChecked k = Checked.word 64 (plan.allocationBytes .exact k) := by
  unfold allocationBytesChecked
  rw [allocationLenChecked_eq plan hR]
  exact Checked.word_bind_mul 64 _ hs

end

section
variable {elementSize : Nat} {spec : LayoutSpec}

theorem precompute_usize (h : spec.channels * (spec.channelOffsetBytes / elementSize) < 2 ^ 64) :
    precompute usize elementSize spec = precompute .exact elementSize spec := by
  unfold precompute
  simp only [LayoutPlan.mk.injEq, true_and]
  exact Checked.mul_eq_wrap h

theorem forTypeChecked_accepted (hacc : spec.Accepted elementSize) :
    forTypeChecked elementSize spec =
      (Checked.word 64 (spec.channels * (spec.channelOffsetBytes / elementSize))).map
        fun _ => .ok (precompute .exact elementSize spec) := by
  have h1 := hacc.elementSize_pos
  have h2 := hacc.replicas_pos
  have h3 := hacc.channels_pos
  have h4 := hacc.replicas_le
  have h5 := hacc.offset_pos
  have h6 := Nat.mod_eq_zero_of_dvd hacc.offset_dvd
  unfold forTypeChecked
  rw [if_neg (by omega), if_neg (by omega), if_neg (by omega), if_neg (by omega),
    if_neg (by omega), if_neg (by omega)]
  dsimp only [Checked.mul]
  rcases Nat.lt_or_ge (spec.channels * (spec.channelOffsetBytes / elementSize)) (2 ^ 64)
    with h | h
  · rw [Checked.word_of_lt h]
    rfl
  · rw [Checked.word_of_le h]
    rfl

/-- A spec is refused before anything is multiplied. -/
theorem forTypeChecked_refused (hacc : ¬ spec.Accepted elementSize) :
    ∃ e, forTypeChecked elementSize spec = some (.error e) ∧
      forType usize elementSize spec = .error e := by
  have hok : ∀ plan, forType usize elementSize spec ≠ .ok plan := fun plan h =>
    hacc ((forType_ok_iff _ _ _ _).mp h).1
  unfold forType at hok
  unfold forType forTypeChecked
  split; · exact ⟨_, rfl, rfl⟩
  split; · exact ⟨_, rfl, rfl⟩
  split; · exact ⟨_, rfl, rfl⟩
  split; · exact ⟨_, rfl, rfl⟩
  split; · exact ⟨_, rfl, rfl⟩
  split; · exact ⟨_, rfl, rfl⟩
  next hs hr hc hle ho hd =>
    rw [if_neg hs, if_neg hr, if_neg hc, if_neg hle, if_neg ho, if_neg hd] at hok
    exact absurd rfl (hok _)

end

end LayoutPlan

/-! ## Construction -/

/-- The stride and the mapped length are words, both exact. -/
structure LayoutSpec.FitsWord (elementSize : Nat) (spec : LayoutSpec) (capacity : Nat)
    (page : HugePageSize) : Prop where
  stride : spec.channels * (spec.channelOffsetBytes / elementSize) < 2 ^ 64
  mapped : roundUp .exact ((LayoutPlan.precompute .exact elementSize spec).allocationBytes
    .exact capacity) page.bytes < 2 ^ 64

theorem le_roundUp_exact (value : Nat) {alignment : Nat} (ha : 0 < alignment) :
    value ≤ roundUp .exact value alignment := by
  rcases Nat.eq_zero_or_pos value with rfl | hv
  · exact Nat.zero_le _
  · exact (roundUp_exact hv ha).2.1

theorem word_bind_roundUp (value : Nat) (page : HugePageSize) :
    ((Checked.word 64 value).bind fun bytes => roundUpChecked bytes page.bytes) =
      Checked.word 64 (roundUp .exact value page.bytes) := by
  by_cases h0 : value = 0
  · subst h0
    cases page <;> rfl
  · have hcheck : ∀ bytes, bytes ∈ Checked.word 64 value →
        roundUpChecked bytes page.bytes = Checked.nextMultipleOf 64 bytes page.bytes := by
      intro bytes hb
      obtain ⟨-, rfl⟩ := Checked.word_eq_some_iff.mp hb
      exact if_neg h0
    unfold roundUp
    rw [if_neg h0, ← Checked.word_bind_nextMultipleOf]
    exact Option.bind_congr hcheck

theorem roundUp_usize {value alignment : Nat} (h : roundUp .exact value alignment < 2 ^ 64) :
    roundUp usize value alignment = roundUp .exact value alignment := by
  unfold roundUp at h ⊢
  split
  · rfl
  · next hv =>
    rw [if_neg hv] at h
    exact Checked.nextMultipleOf_eq_wrap h

section
variable {host : Host} {T : CopyType V} {spec : LayoutSpec} {capacity : Nat}
  {page : HugePageSize}

/-- The length that is mapped, and that the bytes were not reduced on the way. -/
theorem LayoutSpec.FitsWord.mapped_usize (h : spec.FitsWord T.size capacity page) :
    roundUp usize ((LayoutPlan.precompute .exact T.size spec).allocationBytes usize capacity)
      page.bytes = roundUp .exact ((LayoutPlan.precompute .exact T.size spec).allocationBytes
        .exact capacity) page.bytes := by
  have hle := le_roundUp_exact ((LayoutPlan.precompute .exact T.size spec).allocationBytes
    .exact capacity) page.bytes_pos
  have hbytes : (LayoutPlan.precompute .exact T.size spec).allocationBytes usize capacity =
      (LayoutPlan.precompute .exact T.size spec).allocationBytes .exact capacity := by
    rw [LayoutPlan.allocationBytes_norm]
    exact Arith.norm_eq (Nat.lt_of_le_of_lt hle h.mapped)
  rw [hbytes]
  exact roundUp_usize h.mapped

/-- Mapping is the check of the mapped length, and then the call. -/
theorem Storage.newChecked_eq (hacc : spec.Accepted T.size) :
    Storage.newChecked host T (LayoutPlan.precompute .exact T.size spec) capacity page =
      (Checked.word 64 (roundUp .exact ((LayoutPlan.precompute .exact T.size
        spec).allocationBytes .exact capacity) page.bytes)).bind fun rounded =>
          match mapHugetlb host rounded page.bytes with
          | .error e => some (.error e)
          | .ok ptr => some (.ok { ptr := ptr, bytes := rounded, slots := fun _ => T.zeroed }) := by
  unfold Storage.newChecked
  rw [LayoutPlan.allocationBytesChecked_eq _ hacc.replicas_pos hacc.elementSize_pos,
    ← word_bind_roundUp]
  simp only [Option.bind_eq_bind, Option.bind_assoc]

namespace ReplicatedBuffer

theorem allocateChecked_refused (hacc : ¬ spec.Accepted T.size) :
    allocateChecked host T spec capacity page = some (allocate host T spec capacity page) := by
  obtain ⟨e, hchecked, hrelease⟩ := LayoutPlan.forTypeChecked_refused hacc
  unfold allocateChecked allocate
  rw [hchecked, hrelease]
  rfl

theorem allocateChecked_of_fits (hacc : spec.Accepted T.size)
    (hfits : spec.FitsWord T.size capacity page) :
    allocateChecked host T spec capacity page = some (allocate host T spec capacity page) := by
  have hplan := LayoutPlan.precompute_usize hfits.stride
  have hrelease := (LayoutPlan.forType_ok_iff usize T.size spec _).mpr ⟨hacc, rfl⟩
  have hchecked : LayoutPlan.forTypeChecked T.size spec =
      some (.ok (LayoutPlan.precompute .exact T.size spec)) := by
    rw [LayoutPlan.forTypeChecked_accepted hacc, Checked.word_of_lt hfits.stride]
    rfl
  unfold allocateChecked allocate
  rw [hrelease, hchecked, hplan]
  simp only [Option.bind_eq_bind, Option.bind_some, Storage.newChecked_eq hacc,
    Checked.word_of_lt hfits.mapped, Storage.new, hfits.mapped_usize]
  cases mapHugetlb host (roundUp .exact ((LayoutPlan.precompute .exact T.size
    spec).allocationBytes .exact capacity) page.bytes) page.bytes with
  | error e => rfl
  | ok ptr => rfl

theorem allocateChecked_of_not_fits (hacc : spec.Accepted T.size)
    (hfits : ¬ spec.FitsWord T.size capacity page) :
    allocateChecked host T spec capacity page = none := by
  unfold allocateChecked
  rw [LayoutPlan.forTypeChecked_accepted hacc]
  rcases Nat.lt_or_ge (spec.channels * (spec.channelOffsetBytes / T.size)) (2 ^ 64) with h | h
  · have hmapped : 2 ^ 64 ≤ roundUp .exact ((LayoutPlan.precompute .exact T.size
        spec).allocationBytes .exact capacity) page.bytes :=
      Nat.le_of_not_lt fun hlt => hfits ⟨h, hlt⟩
    rw [Checked.word_of_lt h]
    simp only [Option.map_some, Option.bind_eq_bind, Option.bind_some,
      Storage.newChecked_eq hacc, Checked.word_of_le hmapped, Option.bind_none]
  · rw [Checked.word_of_le h]
    rfl

/-- What is allocated without a panic is what the release build allocates. -/
theorem allocateChecked_agrees {r : Result (ReplicatedBuffer V)}
    (h : allocateChecked host T spec capacity page = some r) :
    allocate host T spec capacity page = r ∧
      (spec.Accepted T.size → spec.FitsWord T.size capacity page) := by
  by_cases hacc : spec.Accepted T.size
  · by_cases hfits : spec.FitsWord T.size capacity page
    · rw [allocateChecked_of_fits hacc hfits] at h
      exact ⟨Option.some.inj h, fun _ => hfits⟩
    · rw [allocateChecked_of_not_fits hacc hfits] at h
      cases h
  · rw [allocateChecked_refused hacc] at h
    exact ⟨Option.some.inj h, fun h' => absurd h' hacc⟩

/-! ## A buffer that fits -/

/-- A buffer all of whose offsets fit, whatever it holds. -/
structure FitsWord (T : CopyType V) (spec : LayoutSpec) (b : ReplicatedBuffer V) : Prop where
  accepted : spec.Accepted T.size
  layout_eq : b.layout = LayoutPlan.precompute .exact T.size spec
  fits : AllocationFits T.size spec b.capacity
  capacity_lt : b.capacity < 2 ^ 64

theorem Allocated.fitsWord {b : ReplicatedBuffer V} (ha : Allocated host T spec capacity page b)
    (h : spec.FitsWord T.size capacity page) : b.FitsWord T spec := by
  have hle := le_roundUp_exact ((LayoutPlan.precompute .exact T.size spec).allocationBytes
    .exact capacity) page.bytes_pos
  have hfits : AllocationFits T.size spec capacity := Nat.lt_of_le_of_lt hle h.mapped
  refine ⟨ha.accepted, ha.layout_eq.trans (LayoutPlan.precompute_usize h.stride),
    ha.capacity_eq.symm ▸ hfits, ?_⟩
  rw [ha.capacity_eq]
  rcases Nat.eq_zero_or_pos capacity with rfl | hk
  · exact Nat.two_pow_pos 64
  · -- the last of `capacity` elements has a slot of its own
    have hlt := LayoutPlan.slot_lt_allocationLen ha.accepted ha.accepted.replicas_pos
      (show capacity - 1 < capacity by omega)
    have hge := (LayoutPlan.elementOffset_strictMono ha.accepted).le_apply (x := capacity - 1)
    rw [LayoutPlan.elementOffset_eq ha.accepted .exact, Arith.norm_exact] at hge
    have hbytes : (LayoutPlan.precompute .exact T.size spec).allocationLen .exact capacity ≤
        (LayoutPlan.precompute .exact T.size spec).allocationBytes .exact capacity :=
      Nat.le_mul_of_pos_right _ ha.accepted.elementSize_pos
    have := h.mapped
    omega

/-- Every slot lies in the mapping, and no two elements share one. -/
theorem Allocated.contained_of_fitsWord {b : ReplicatedBuffer V}
    (ha : Allocated host T spec capacity page b) (h : spec.FitsWord T.size capacity page) :
    b.Contained := by
  have hplan := LayoutPlan.precompute_usize h.stride
  have hpos := ha.accepted.elementSize_pos
  have hbytes : b.storage.bytes = roundUp .exact ((LayoutPlan.precompute .exact T.size
      spec).allocationBytes .exact capacity) page.bytes := by
    rw [ha.bytes_eq, hplan, h.mapped_usize]
  have hle := le_roundUp_exact ((LayoutPlan.precompute .exact T.size spec).allocationBytes
    .exact capacity) page.bytes_pos
  have hlen : (LayoutPlan.precompute .exact T.size spec).allocationLen .exact capacity ≤
      b.storage.bytes / T.size := by
    rw [Nat.le_div_iff_mul_le hpos, hbytes]
    exact hle
  have hfits : AllocationFits T.size spec capacity := Nat.lt_of_le_of_lt hle h.mapped
  have hslot : ∀ r i, r < spec.replicas → i < capacity →
      (ha.accepted.lanes usize).slot r i % 2 ^ 64 = (ha.accepted.lanes .exact).slot r i := by
    intro r i hr hi
    have hfit := hfits.slot_fits ha.accepted hr hi
    rw [ha.accepted.slot_eq_exact hfit]
    exact Nat.mod_eq_of_lt hfit
  refine ha.contained_iff_wrapsInto.mpr
    ⟨fun r i hr hi => ?_, fun r i r' i' hr hr' hi hi' he => ?_⟩
  · rw [hslot r i hr hi]
    exact Nat.lt_of_lt_of_le (LayoutPlan.slot_lt_allocationLen ha.accepted hr hi) hlen
  · rw [hslot r i hr hi, hslot r' i' hr' hi'] at he
    have hroom := ha.accepted.replicas_le
    exact ha.accepted.room.slot_inj (by omega) (by omega) he

/-! ## Operations -/

theorem FitsWord.of_frame {b b' : ReplicatedBuffer V} (h : b.FitsWord T spec)
    (hframe : Frame b b') : b'.FitsWord T spec := by
  refine ⟨h.accepted, hframe.layout.trans h.layout_eq, ?_, ?_⟩
  · rw [hframe.capacity]
    exact h.fits
  · rw [hframe.capacity]
    exact h.capacity_lt

section
variable {b : ReplicatedBuffer V} (h : b.FitsWord T spec)
include h

/-- The exact slot of an element is a word. -/
theorem FitsWord.offset_fits {r i : Nat} (hr : r < b.replicas) (hi : i < b.capacity) :
    usize.Fits (r * b.layout.channelOffsetElements + b.layout.elementOffset .exact i) := by
  unfold replicas at hr
  rw [h.layout_eq, LayoutPlan.precompute_spec] at hr
  have hfit := h.fits.slot_fits h.accepted hr hi
  have hslot := LayoutPlan.offset_add_eq h.accepted .exact r i
  rw [Arith.norm_exact, Arith.add_exact, Arith.mul_exact] at hslot
  rw [h.layout_eq, LayoutPlan.precompute_channelOffsetElements, hslot]
  exact hfit

theorem FitsWord.replicaSlotPtrChecked_eq (r i : Nat) :
    b.replicaSlotPtrChecked r i = some (b.replicaSlotPtr r i) := by
  unfold replicaSlotPtrChecked replicaSlotPtr
  by_cases hi : b.capacity ≤ i
  · rw [if_pos hi, if_pos hi]
  · rw [if_neg hi, if_neg hi]
    by_cases hr : b.layout.spec.replicas ≤ r
    · unfold LayoutPlan.replicaElementOffsetChecked LayoutPlan.replicaElementOffset
      rw [if_pos hr, if_pos hr]
    · have hfit := h.offset_fits (show r < b.replicas from Nat.lt_of_not_le hr)
        (show i < b.capacity by omega)
      rw [LayoutPlan.replicaElementOffsetChecked_eq _ (by omega), Checked.word_of_lt hfit,
        LayoutPlan.replicaElementOffset_of_lt _ _ (by omega), LayoutPlan.replicaOffset_norm,
        Arith.norm_eq hfit]
      rfl

theorem FitsWord.replicaValueChecked_eq (r i : Nat) :
    b.replicaValueChecked r i = some (b.replicaValue r i) := by
  have hptr : b.replicaPtrChecked r i = some (b.replicaPtr r i) := by
    unfold replicaPtrChecked replicaPtr
    rw [h.replicaSlotPtrChecked_eq]
    split
    · rfl
    · rfl
  unfold replicaValueChecked replicaValue
  rw [hptr]
  cases b.replicaPtr r i with
  | error e => rfl
  | ok p => rfl

/-- The addresses of the workers, from their base and the offset. -/
theorem FitsWord.worker_checked {r i : Nat} (hr : r < b.replicas) (hi : i < b.capacity) :
    ∃ base offset, b.replicaBasePtrChecked r = some (.ok base) ∧
      b.layout.elementOffsetChecked i = some offset ∧
      b.replicaSlotPtr r i = .ok (base + offset) := by
  have hfit := h.offset_fits hr hi
  have hlt : r * b.layout.channelOffsetElements + b.layout.elementOffset .exact i < 2 ^ 64 := hfit
  refine ⟨r * b.layout.channelOffsetElements, b.layout.elementOffset .exact i, ?_, ?_, ?_⟩
  · unfold replicaBasePtrChecked
    unfold replicas at hr
    rw [if_neg (by omega), Checked.mul, Checked.word_of_lt (by omega)]
    rfl
  · rw [LayoutPlan.elementOffsetChecked_eq]
    exact Checked.word_of_lt (by omega)
  · unfold replicaSlotPtr
    rw [if_neg (by omega), LayoutPlan.replicaElementOffset_of_lt _ _ hr,
      LayoutPlan.replicaOffset_norm, Arith.norm_eq hfit]

end

theorem pushReplicasChecked_eq (value : V) :
    ∀ (rs : List Nat) (b : ReplicatedBuffer V), b.FitsWord T spec →
      b.pushReplicasChecked value rs = some (b.pushReplicas value rs) := by
  intro rs
  induction rs with
  | nil => intro b _; rfl
  | cons r rs ih =>
    intro b h
    unfold pushReplicasChecked pushReplicas
    rw [h.replicaSlotPtrChecked_eq]
    cases b.replicaSlotPtr r b.len with
    | error e => rfl
    | ok p => exact ih (b.write p value) ⟨h.accepted, h.layout_eq, h.fits, h.capacity_lt⟩

/-- `len + 1` does not overflow below a capacity that is a word. -/
theorem FitsWord.pushChecked_eq {b : ReplicatedBuffer V} (h : b.FitsWord T spec) (value : V) :
    b.pushChecked value = some (b.push value) ∧ Frame b (b.push value).1 := by
  unfold pushChecked push
  by_cases hfull : b.capacity ≤ b.len
  · rw [if_pos hfull, if_pos hfull]
    exact ⟨rfl, Frame.refl b⟩
  · rw [if_neg hfull, if_neg hfull, pushReplicasChecked_eq value _ b h]
    obtain ⟨hframe, hlen⟩ := pushReplicas_frame value (List.range b.layout.spec.replicas) b
    generalize b.pushReplicas value (List.range b.layout.spec.replicas) = pushed at hframe hlen
    obtain ⟨b', res⟩ := pushed
    change b'.len = b.len at hlen
    cases res with
    | error e => exact ⟨rfl, hframe⟩
    | ok _ =>
      have hcap := h.capacity_lt
      refine ⟨?_, ⟨hframe.layout, hframe.capacity, hframe.ptr, hframe.bytes⟩⟩
      simp only [Option.bind_eq_bind, Option.bind_some, Checked.add,
        Checked.word_of_lt (show b'.len + 1 < 2 ^ 64 by omega)]

theorem extendFromSliceChecked_eq :
    ∀ (values : List V) (b : ReplicatedBuffer V), b.FitsWord T spec →
      b.extendFromSliceChecked values = some (b.extendFromSlice values) ∧
        Frame b (b.extendFromSlice values).1 := by
  intro values
  induction values with
  | nil => intro b _; exact ⟨rfl, Frame.refl b⟩
  | cons value values ih =>
    intro b h
    obtain ⟨hpush, hframe⟩ := h.pushChecked_eq value
    unfold extendFromSliceChecked extendFromSlice
    rw [hpush]
    generalize b.push value = pushed at hframe
    obtain ⟨b', res⟩ := pushed
    cases res with
    | error e => exact ⟨rfl, hframe⟩
    | ok _ =>
      obtain ⟨hrest, hframe'⟩ := ih b' (h.of_frame hframe)
      exact ⟨hrest, hframe.trans hframe'⟩

theorem FitsWord.applyOpChecked_eq {b : ReplicatedBuffer V} (h : b.FitsWord T spec)
    (op : ListOp V) :
    b.applyOpChecked op = some (b.applyOp op) ∧ Frame b (b.applyOp op).1 := by
  cases op with
  | push value => exact h.pushChecked_eq value
  | extend values => exact extendFromSliceChecked_eq values b h

theorem runOpsChecked_eq :
    ∀ (ops : List (ListOp V)) (b : ReplicatedBuffer V), b.FitsWord T spec →
      b.runOpsChecked ops = some (b.runOps ops) ∧ Frame b (b.runOps ops) := by
  intro ops
  induction ops with
  | nil => intro b _; exact ⟨rfl, Frame.refl b⟩
  | cons op ops ih =>
    intro b h
    obtain ⟨hop, hframe⟩ := h.applyOpChecked_eq op
    obtain ⟨hrest, hframe'⟩ := ih (b.applyOp op).1 (h.of_frame hframe)
    refine ⟨?_, hframe.trans hframe'⟩
    unfold runOpsChecked runOps
    rw [hop]
    exact hrest

/-! ## Validation -/

theorem virtToPhysChecked_agrees {addr : Nat} {r : Result Nat}
    (h : virtToPhysChecked host addr = some r) : virtToPhys host addr = r := by
  unfold virtToPhysChecked at h
  unfold virtToPhys
  generalize host.openPagemap = opened at h ⊢
  generalize host.readPagemap (addr / 4096 * 8) = got at h ⊢
  cases opened with
  | error e => exact Option.some.inj h
  | ok _ =>
    rcases got with e | ⟨bytesRead, entry⟩
    · exact Option.some.inj h
    · dsimp only at h ⊢
      by_cases hread : bytesRead ≠ 8
      · rw [if_pos hread] at h ⊢
        exact Option.some.inj h
      · rw [if_neg hread] at h ⊢
        by_cases hpresent : entry &&& 1 <<< 63 = 0
        · rw [if_pos hpresent] at h ⊢
          exact Option.some.inj h
        · rw [if_neg hpresent] at h ⊢
          by_cases hpfn : entry &&& ((1 <<< 55) - 1) = 0
          · rw [if_pos hpfn] at h ⊢
            exact Option.some.inj h
          · rw [if_neg hpfn] at h ⊢
            obtain ⟨frame, hframe, hr⟩ := Option.bind_eq_some_iff.mp h
            obtain ⟨hlt, rfl⟩ := Checked.word_eq_some_iff.mp hframe
            rw [show usize.mul _ 4096 = _ from Checked.mul_eq_wrap hlt]
            exact Option.some.inj hr

theorem computeChannelChecked_agrees {phys channelBit channel : Nat}
    (h : computeChannelChecked phys channelBit = some channel) :
    computeChannel phys channelBit = channel := by
  unfold computeChannelChecked at h
  split at h
  · next hlt =>
    cases h
    unfold computeChannel
    rw [Nat.mod_eq_of_lt hlt]
  · cases h

theorem replicaChannelsChecked_agrees {b : ReplicatedBuffer V} {channelBit : Nat} :
    ∀ (rs : List Nat) (r : Result (List Nat)),
      b.replicaChannelsChecked host channelBit rs = some r →
      b.replicaChannels host channelBit rs = r := by
  intro rs
  induction rs with
  | nil =>
    intro r h
    cases h
    rfl
  | cons replica rs ih =>
    intro r h
    unfold replicaChannelsChecked at h
    obtain ⟨offset, hoffset, h⟩ := Option.bind_eq_some_iff.mp h
    obtain ⟨hlt, rfl⟩ := Checked.word_eq_some_iff.mp hoffset
    obtain ⟨phys, hphys, h⟩ := Option.bind_eq_some_iff.mp h
    unfold replicaChannels
    dsimp only
    rw [show usize.mul replica b.layout.channelOffsetElements = _ from Checked.mul_eq_wrap hlt,
      virtToPhysChecked_agrees hphys]
    cases phys with
    | error e =>
      cases h
      rfl
    | ok phys =>
      obtain ⟨channel, hchannel, h⟩ := Option.bind_eq_some_iff.mp h
      obtain ⟨rest, hrest, h⟩ := Option.bind_eq_some_iff.mp h
      dsimp only
      rw [ih rest hrest, computeChannelChecked_agrees hchannel]
      cases rest with
      | error e =>
        cases h
        rfl
      | ok channels =>
        cases h
        rfl

theorem validateChannelsChecked_agrees {b : ReplicatedBuffer V} {channelBit : Nat}
    {r : Result Unit} (h : b.validateChannelsChecked host channelBit = some r) :
    b.validateChannels host channelBit = r := by
  unfold validateChannelsChecked at h
  obtain ⟨channels, hchannels, h⟩ := Option.bind_eq_some_iff.mp h
  unfold validateChannels
  rw [replicaChannelsChecked_agrees _ _ hchannels]
  cases channels with
  | error e =>
    cases h
    rfl
  | ok channels =>
    dsimp only at h ⊢
    split at h
    · next hany =>
      cases h
      exact if_pos hany
    · next hany =>
      cases h
      exact if_neg hany

theorem withOptionsChecked_agrees {validation : ChannelValidation}
    {r : Result (ReplicatedBuffer V)}
    (h : withOptionsChecked host T spec capacity page validation = some r) :
    withOptions host T spec capacity page validation = r ∧
      (spec.Accepted T.size → spec.FitsWord T.size capacity page) := by
  unfold withOptionsChecked at h
  obtain ⟨allocated, halloc, h⟩ := Option.bind_eq_some_iff.mp h
  obtain ⟨hagrees, hfits⟩ := allocateChecked_agrees halloc
  refine ⟨?_, hfits⟩
  unfold withOptions
  rw [hagrees]
  cases allocated with
  | error e =>
    cases h
    rfl
  | ok buffer =>
    cases validation with
    | none =>
      cases h
      rfl
    | pagemap channelBit =>
      obtain ⟨valid, hvalid, h⟩ := Option.bind_eq_some_iff.mp h
      dsimp only
      rw [validateChannelsChecked_agrees hvalid]
      cases valid with
      | error e =>
        cases h
        rfl
      | ok _ =>
        cases h
        rfl

end ReplicatedBuffer

end

/-! ## The two builds -/

open ReplicatedBuffer in
/-- **A checked build never builds an unsafe buffer.**  What it returns the release
build returns too, every element of it has bytes of its own in the mapping, and
from then on nothing panics: whatever is done, both builds do the same. -/
theorem checked_build_contained (host : Host) (T : CopyType V) (spec : LayoutSpec)
    (capacity : Nat) (page : HugePageSize) (validation : ChannelValidation)
    (r : Result (ReplicatedBuffer V))
    (h : withOptionsChecked host T spec capacity page validation = some r) :
    withOptions host T spec capacity page validation = r ∧
    ∀ b₀, r = .ok b₀ → b₀.Contained ∧ ∀ ops,
      b₀.runOpsChecked ops = some (b₀.runOps ops) ∧
      let b := b₀.runOps ops
      (∀ op, b.applyOpChecked op = some (b.applyOp op)) ∧
      (∀ replica i, b.replicaValueChecked replica i = some (b.replicaValue replica i)) ∧
      -- the address a worker reads from
      ∀ replica i, replica < spec.replicas → i < b.len →
        ∃ base offset, b.replicaBasePtrChecked replica = some (.ok base) ∧
          b.layout.elementOffsetChecked i = some offset ∧
          b.replicaPtr replica i = .ok (base + offset) := by
  obtain ⟨hagrees, hfits⟩ := withOptionsChecked_agrees h
  refine ⟨hagrees, ?_⟩
  rintro b₀ rfl
  have ha := (withOptions_ok hagrees).1
  have hspec := hfits ha.accepted
  have h₀ := ha.fitsWord hspec
  refine ⟨ha.contained_of_fitsWord hspec, fun ops => ?_⟩
  obtain ⟨hrun, hframe⟩ := runOpsChecked_eq ops b₀ h₀
  have hb := h₀.of_frame hframe
  have hR : (b₀.runOps ops).replicas = spec.replicas := by
    rw [← ha.replicas_eq, replicas, replicas, hframe.layout]
  have hcap := hframe.capacity.trans ha.capacity_eq
  have hlen := (ha.runOps (ha.capacity_eq ▸ h₀.fits) ops).1.len_le
  refine ⟨hrun, fun op => (hb.applyOpChecked_eq op).1, hb.replicaValueChecked_eq,
    fun replica i hr hi => ?_⟩
  obtain ⟨base, offset, hbase, hoffset, hslot⟩ :=
    hb.worker_checked (hR.symm ▸ hr) (show i < (b₀.runOps ops).capacity by omega)
  refine ⟨base, offset, hbase, hoffset, ?_⟩
  unfold replicaPtr
  rw [if_neg (by omega)]
  exact hslot

open ReplicatedBuffer in
theorem checked_build_contained_byte :
    ∃ b₀ : ReplicatedBuffer Nat,
      withOptionsChecked grantingHost .byte .default 3 .size2MiB (.pagemap 8) = some (.ok b₀) ∧
      b₀.Contained ∧ b₀.runOpsChecked [.push 7, .extend [8, 9, 10]] =
        some (b₀.runOps [.push 7, .extend [8, 9, 10]]) := by
  refine ⟨_, rfl, ?_⟩
  obtain ⟨-, hok⟩ := checked_build_contained grantingHost .byte .default 3 .size2MiB (.pagemap 8)
    _ rfl
  obtain ⟨hcontained, hops⟩ := hok _ rfl
  exact ⟨hcontained, (hops [.push 7, .extend [8, 9, 10]]).1⟩

open ReplicatedBuffer in
/-- **A checked build panics where the exact layout does not fit, and only there.**
Allocation stops if the exact stride or the exact mapped length of an accepted
spec is `2 ^ 64` or more, whatever the host; otherwise it is the release build's. -/
theorem checked_allocate_panics_iff (host : Host) (T : CopyType V) (spec : LayoutSpec)
    (capacity : Nat) (page : HugePageSize) :
    (allocateChecked host T spec capacity page = none ↔
      ∃ plan, LayoutPlan.forType .exact T.size spec = .ok plan ∧
        (2 ^ 64 ≤ plan.strideInElements ∨
          2 ^ 64 ≤ roundUp .exact (plan.allocationBytes .exact capacity) page.bytes)) ∧
    (allocateChecked host T spec capacity page ≠ none →
      allocateChecked host T spec capacity page = some (allocate host T spec capacity page)) := by
  refine ⟨⟨fun hnone => ?_, ?_⟩, fun hsome => ?_⟩
  · have hacc : spec.Accepted T.size := by
      by_contra hacc
      rw [allocateChecked_refused hacc] at hnone
      cases hnone
    refine ⟨_, (LayoutPlan.forType_ok_iff _ _ _ _).mpr ⟨hacc, rfl⟩, ?_⟩
    by_contra hfits
    rw [not_or, Nat.not_le, Nat.not_le] at hfits
    rw [allocateChecked_of_fits hacc ⟨hfits.1, hfits.2⟩] at hnone
    cases hnone
  · rintro ⟨plan, hplan, hlarge⟩
    obtain ⟨hacc, rfl⟩ := (LayoutPlan.forType_ok_iff _ _ _ _).mp hplan
    refine allocateChecked_of_not_fits hacc fun hfits => ?_
    rcases hlarge with hstride | hmapped
    · exact Nat.not_lt_of_le hstride hfits.stride
    · exact Nat.not_lt_of_le hmapped hfits.mapped
  · obtain ⟨r, hr⟩ := Option.ne_none_iff_exists'.mp hsome
    rw [hr, (allocateChecked_agrees hr).1]

end Tailslayer
