import Mathlib.Logic.Function.Basic
import Tailslayer.Sys

/-!
# Replicated storage

Source: `src/storage.rs`.

The mapping is a flat row of `T`-sized slots; a `*mut T` into it is its slot
number, and `ptr.add(k)` is the slot `k` further.  `Storage.addr` is the byte
address behind a slot, needed only where the code looks at addresses.
-/

namespace Tailslayer

open Word

inductive HugePageSize where
  | size2MiB
  | size1GiB
deriving DecidableEq, Repr

def HugePageSize.bytes : HugePageSize → Nat
  | .size2MiB => 1 <<< 21
  | .size1GiB => 1 <<< 30

inductive ChannelValidation where
  | none
  | pagemap (channelBit : Nat)
deriving DecidableEq, Repr

/-- What the code uses of the element type `T: Copy`. -/
structure CopyType (V : Type) where
  /-- `size_of::<T>()` -/
  size : Nat
  /-- the value whose bytes are all zero -/
  zeroed : V

/-- One-byte elements. -/
def CopyType.byte : CopyType Nat := ⟨1, 0⟩

/-! ## The mapping -/

structure Storage (V : Type) where
  ptr : Nat
  bytes : Nat
  /-- what each slot holds; whether it is mapped is asked in `ReplicatedBuffer.faults` -/
  slots : Nat → V

def roundUp (A : Arith) (value alignment : Nat) : Nat :=
  if value = 0 then alignment else nextMultipleOf A value alignment

variable {V : Type}

namespace Storage

/-- `Storage::new`; `write_bytes` zeroes the whole mapping. -/
def new (host : Host) (T : CopyType V) (layout : LayoutPlan) (capacity : Nat)
    (hugepageSize : HugePageSize) : Result (Storage V) :=
  let bytes := layout.allocationBytes usize capacity
  let rounded := roundUp usize bytes hugepageSize.bytes
  match mapHugetlb host rounded hugepageSize.bytes with
  | .error e => .error e
  | .ok ptr => .ok { ptr := ptr, bytes := rounded, slots := fun _ => T.zeroed }

/-- Byte address of a slot of `elementSize` bytes. -/
def addr (st : Storage V) (elementSize slot : Nat) : Nat :=
  usize.add st.ptr (usize.mul slot elementSize)

end Storage

/-! ## The buffer -/

structure ReplicatedBuffer (V : Type) where
  layout : LayoutPlan
  capacity : Nat
  len : Nat
  storage : Storage V

namespace ReplicatedBuffer

def replicas (b : ReplicatedBuffer V) : Nat := b.layout.spec.replicas

def replicaBasePtr (b : ReplicatedBuffer V) (replica : Nat) : Result Nat :=
  if b.layout.spec.replicas ≤ replica then
    .error (.outOfBounds replica b.layout.spec.replicas)
  else
    .ok (usize.mul replica b.layout.channelOffsetElements)

theorem replicaBasePtr_ok_lt {b : ReplicatedBuffer V} {r base : Nat}
    (h : b.replicaBasePtr r = .ok base) : r < b.replicas := by
  unfold replicaBasePtr at h
  split at h
  · cases h
  · exact Nat.lt_of_not_le ‹_›

theorem replicaBasePtr_of_lt (b : ReplicatedBuffer V) {r : Nat} (h : r < b.replicas) :
    ∃ base, b.replicaBasePtr r = .ok base := by
  unfold replicas at h
  exact ⟨_, if_neg (by omega)⟩

def replicaSlotPtr (b : ReplicatedBuffer V) (replica index : Nat) : Result Nat :=
  if b.capacity ≤ index then
    .error (.outOfBounds index b.capacity)
  else
    b.layout.replicaElementOffset usize replica index

def replicaPtr (b : ReplicatedBuffer V) (replica index : Nat) : Result Nat :=
  if b.len ≤ index then
    .error (.outOfBounds index b.len)
  else
    b.replicaSlotPtr replica index

def replicaValue (b : ReplicatedBuffer V) (replica index : Nat) : Result V :=
  match b.replicaPtr replica index with
  | .error e => .error e
  | .ok ptr => .ok (b.storage.slots ptr)

def get (b : ReplicatedBuffer V) (index : Nat) : Option V := (b.replicaValue 0 index).toOption

/-- `ptr::write(ptr, value)` -/
def write (b : ReplicatedBuffer V) (ptr : Nat) (value : V) : ReplicatedBuffer V :=
  { b with storage := { b.storage with slots := Function.update b.storage.slots ptr value } }

/-- The loop of `push` over the replicas still to write. -/
def pushReplicas (b : ReplicatedBuffer V) (value : V) : List Nat → ReplicatedBuffer V × Result Unit
  | [] => (b, .ok ())
  | replica :: rest =>
    match b.replicaSlotPtr replica b.len with
    | .error e => (b, .error e)
    | .ok ptr => pushReplicas (b.write ptr value) value rest

def push (b : ReplicatedBuffer V) (value : V) : ReplicatedBuffer V × Result Unit :=
  if b.capacity ≤ b.len then
    (b, .error (.capacityExceeded b.len b.capacity))
  else
    match pushReplicas b value (List.range b.layout.spec.replicas) with
    | (b', .error e) => (b', .error e)
    | (b', .ok ()) => ({ b' with len := b'.len + 1 }, .ok ())

def extendFromSlice (b : ReplicatedBuffer V) : List V → ReplicatedBuffer V × Result Unit
  | [] => (b, .ok ())
  | value :: values =>
    match b.push value with
    | (b', .error e) => (b', .error e)
    | (b', .ok ()) => extendFromSlice b' values

/-! ## Channel validation -/

/-- Channel ids of the bases of the replicas still to look up. -/
def replicaChannels (host : Host) (b : ReplicatedBuffer V) (channelBit : Nat) :
    List Nat → Result (List Nat)
  | [] => .ok []
  | replica :: rest =>
    let base := b.storage.addr b.layout.elementSize
      (usize.mul replica b.layout.channelOffsetElements)
    match virtToPhys host base with
    | .error e => .error e
    | .ok phys =>
      match replicaChannels host b channelBit rest with
      | .error e => .error e
      | .ok channels => .ok (computeChannel phys channelBit :: channels)

/-- The double loop: some channel id occurs again further right. -/
def anyEqualRight : List Nat → Bool
  | [] => false
  | left :: rest => rest.any (left == ·) || anyEqualRight rest

def validateChannels (host : Host) (b : ReplicatedBuffer V) (channelBit : Nat) : Result Unit :=
  match b.replicaChannels host channelBit (List.range b.layout.spec.replicas) with
  | .error e => .error e
  | .ok channels =>
    if anyEqualRight channels then
      .error (.validationFailed "two replica bases resolved to the same channel")
    else
      .ok ()

/-! ## Construction -/

/-- `with_options` before validation: an empty buffer over a fresh mapping. -/
def allocate (host : Host) (T : CopyType V) (spec : LayoutSpec) (capacity : Nat)
    (hugepageSize : HugePageSize) : Result (ReplicatedBuffer V) :=
  match LayoutPlan.forType usize T.size spec with
  | .error e => .error e
  | .ok layout =>
    match Storage.new host T layout capacity hugepageSize with
    | .error e => .error e
    | .ok storage => .ok { layout := layout, capacity := capacity, len := 0, storage := storage }

def withOptions (host : Host) (T : CopyType V) (spec : LayoutSpec) (capacity : Nat)
    (hugepageSize : HugePageSize) (validation : ChannelValidation) :
    Result (ReplicatedBuffer V) :=
  match allocate host T spec capacity hugepageSize with
  | .error e => .error e
  | .ok buffer =>
    match validation with
    | .none => .ok buffer
    | .pagemap channelBit =>
      match buffer.validateChannels host channelBit with
      | .error e => .error e
      | .ok () => .ok buffer

/-! ## What a successful construction gives -/

/-- A buffer fresh from `allocate`: its plan is the accepted one, its mapping the
one `mmap` granted for the rounded size. -/
structure Allocated (host : Host) (T : CopyType V) (spec : LayoutSpec) (capacity : Nat)
    (hugepageSize : HugePageSize) (b : ReplicatedBuffer V) : Prop where
  accepted : spec.Accepted T.size
  layout_eq : b.layout = LayoutPlan.precompute usize T.size spec
  capacity_eq : b.capacity = capacity
  len_eq : b.len = 0
  bytes_eq : b.storage.bytes = roundUp usize
    ((LayoutPlan.precompute usize T.size spec).allocationBytes usize capacity) hugepageSize.bytes
  mapped : host.mmap 0 b.storage.bytes (trailingZeros 64 hugepageSize.bytes) = .ok b.storage.ptr

section
variable {host : Host} {T : CopyType V} {spec : LayoutSpec} {capacity : Nat}
  {hugepageSize : HugePageSize} {b : ReplicatedBuffer V}

theorem Allocated.replicas_eq (h : Allocated host T spec capacity hugepageSize b) :
    b.replicas = spec.replicas := by
  unfold replicas
  rw [h.layout_eq, LayoutPlan.precompute_spec]

theorem mapHugetlb_ok {bytes hugepage ptr : Nat} (h : mapHugetlb host bytes hugepage = .ok ptr) :
    host.mmap 0 bytes (trailingZeros 64 hugepage) = .ok ptr := by
  unfold mapHugetlb at h
  split at h
  · cases h
  · next p hp =>
    split at h
    · cases h
    · cases h
      exact hp

theorem allocate_ok (h : allocate host T spec capacity hugepageSize = .ok b) :
    Allocated host T spec capacity hugepageSize b := by
  unfold allocate at h
  split at h
  · cases h
  · next layout hlayout =>
    obtain ⟨hacc, rfl⟩ := (LayoutPlan.forType_ok_iff _ _ _ _).mp hlayout
    split at h
    · cases h
    · next storage hstorage =>
      cases h
      unfold Storage.new at hstorage
      dsimp only at hstorage
      split at hstorage
      · cases hstorage
      · next ptr hptr =>
        cases hstorage
        exact ⟨hacc, rfl, rfl, rfl, rfl, mapHugetlb_ok hptr⟩

theorem withOptions_ok {validation : ChannelValidation}
    (h : withOptions host T spec capacity hugepageSize validation = .ok b) :
    Allocated host T spec capacity hugepageSize b ∧
      ∀ channelBit, validation = .pagemap channelBit →
        b.validateChannels host channelBit = .ok () := by
  unfold withOptions at h
  split at h
  · cases h
  · next buffer hbuffer =>
    have halloc := allocate_ok hbuffer
    cases validation with
    | none =>
      cases h
      exact ⟨halloc, fun _ hv => by cases hv⟩
    | pagemap channelBit =>
      dsimp only at h
      split at h
      · cases h
      · next hvalid =>
        cases h
        exact ⟨halloc, fun _ hv => by cases hv; exact hvalid⟩

end

end ReplicatedBuffer

structure ReplicatedBufferBuilder where
  layout : LayoutSpec
  capacity : Nat
  hugepageSize : HugePageSize
  validation : ChannelValidation
deriving DecidableEq, Repr

namespace ReplicatedBufferBuilder

def default : ReplicatedBufferBuilder where
  layout := .default
  capacity := 1024
  hugepageSize := .size1GiB
  validation := .none

def build (host : Host) (T : CopyType V) (builder : ReplicatedBufferBuilder) :
    Result (ReplicatedBuffer V) :=
  ReplicatedBuffer.withOptions host T builder.layout builder.capacity builder.hugepageSize
    builder.validation

end ReplicatedBufferBuilder

def ReplicatedBuffer.fromSlice (host : Host) (T : CopyType V) (values : List V) :
    Result (ReplicatedBuffer V) :=
  match { ReplicatedBufferBuilder.default with capacity := values.length }.build host T with
  | .error e => .error e
  | .ok buffer =>
    match buffer.extendFromSlice values with
    | (_, .error e) => .error e
    | (buffer', .ok ()) => .ok buffer'

end Tailslayer
