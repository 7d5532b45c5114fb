import Tailslayer.Error
import Tailslayer.Pool.Word

/-!
# Layout plans

Source: `src/layout.rs`.

A `LayoutPlan` places element `i` of replica `r` at slot
`r * channelOffsetElements + elementOffset i` of one flat mapping.  Every
function takes the arithmetic `A` it computes with: `Arith.exact` is the
intended layout, `usize` the release build, where `+` and `*` wrap.
-/

namespace Tailslayer

open Word

/-- Unchecked 64-bit `usize` (and `u64`) arithmetic. -/
abbrev usize : Arith := .wrap 64

/-- `Vec::with_capacity(n)` panics unless its `n` elements are of `isize::MAX` bytes
at most. -/
def FitsVec (elementSize n : Nat) : Prop := elementSize * n < 2 ^ 63

instance (elementSize n : Nat) : Decidable (FitsVec elementSize n) :=
  inferInstanceAs (Decidable (_ < _))

structure LayoutSpec where
  replicas : Nat
  channels : Nat
  channelOffsetBytes : Nat
deriving DecidableEq, Repr

/-- `LayoutSpec::default()` -/
def LayoutSpec.default : LayoutSpec where
  replicas := 2
  channels := 2
  channelOffsetBytes := 256

structure LayoutPlan where
  spec : LayoutSpec
  elementSize : Nat
  channelOffsetElements : Nat
  elementsPerChunk : Nat
  strideInElements : Nat
deriving DecidableEq, Repr

namespace LayoutPlan

/-- The plan `for_type` returns once its checks have passed. -/
def precompute (A : Arith) (elementSize : Nat) (spec : LayoutSpec) : LayoutPlan :=
  let channelOffsetElements := spec.channelOffsetBytes / elementSize
  { spec := spec
    elementSize := elementSize
    channelOffsetElements := channelOffsetElements
    elementsPerChunk := channelOffsetElements
    strideInElements := A.mul spec.channels channelOffsetElements }

section
variable (A : Arith) (elementSize : Nat) (spec : LayoutSpec)

@[simp] theorem precompute_spec : (precompute A elementSize spec).spec = spec := rfl

@[simp] theorem precompute_elementSize :
    (precompute A elementSize spec).elementSize = elementSize := rfl

@[simp] theorem precompute_channelOffsetElements :
    (precompute A elementSize spec).channelOffsetElements =
      spec.channelOffsetBytes / elementSize := rfl

@[simp] theorem precompute_elementsPerChunk :
    (precompute A elementSize spec).elementsPerChunk = spec.channelOffsetBytes / elementSize := rfl

@[simp] theorem precompute_strideInElements :
    (precompute A elementSize spec).strideInElements =
      A.mul spec.channels (spec.channelOffsetBytes / elementSize) := rfl

end

/-- `LayoutPlan::for_type::<T>`; `elementSize` is `size_of::<T>()`. -/
def forType (A : Arith) (elementSize : Nat) (spec : LayoutSpec) : Result LayoutPlan :=
  if elementSize = 0 then
    .error (.invalidConfig "zero-sized types are not supported")
  else if spec.replicas = 0 then
    .error (.invalidConfig "replicas must be greater than zero")
  else if spec.channels = 0 then
    .error (.invalidConfig "channels must be greater than zero")
  else if spec.channels < spec.replicas then
    .error (.invalidConfig "replicas cannot exceed the configured channel count")
  else if spec.channelOffsetBytes = 0 then
    .error (.invalidConfig "channel_offset_bytes must be non-zero")
  else if spec.channelOffsetBytes % elementSize ≠ 0 then
    .error (.invalidConfig "channel_offset_bytes must be a multiple of the element size")
  else
    .ok (precompute A elementSize spec)

variable (A : Arith) (plan : LayoutPlan)

/-- Slot of a logical index within one replica base. -/
def elementOffset (logicalIndex : Nat) : Nat :=
  let chunkIndex := logicalIndex / plan.elementsPerChunk
  let offsetInChunk := logicalIndex % plan.elementsPerChunk
  A.add (A.mul chunkIndex plan.strideInElements) offsetInChunk

def replicaElementOffset (replica logicalIndex : Nat) : Result Nat :=
  if plan.spec.replicas ≤ replica then
    .error (.outOfBounds replica plan.spec.replicas)
  else
    .ok (A.add (A.mul replica plan.channelOffsetElements) (plan.elementOffset A logicalIndex))

/-- Slots needed for a logical capacity. -/
def allocationLen (logicalCapacity : Nat) : Nat :=
  if logicalCapacity = 0 then
    A.mul plan.spec.replicas plan.channelOffsetElements
  else
    let lastLogicalIndex := logicalCapacity - 1
    let lastReplicaBase := A.mul (plan.spec.replicas - 1) plan.channelOffsetElements
    A.add (A.add lastReplicaBase (plan.elementOffset A lastLogicalIndex)) 1

def allocationBytes (logicalCapacity : Nat) : Nat :=
  A.mul (plan.allocationLen A logicalCapacity) plan.elementSize

theorem replicaElementOffset_of_lt {r : Nat} (hr : r < plan.spec.replicas) (i : Nat) :
    plan.replicaElementOffset A r i =
      .ok (A.add (A.mul r plan.channelOffsetElements) (plan.elementOffset A i)) :=
  if_neg (by omega)

theorem allocationLen_of_pos {k : Nat} (hk : 0 < k) :
    plan.allocationLen A k =
      A.add (A.add (A.mul (plan.spec.replicas - 1) plan.channelOffsetElements)
        (plan.elementOffset A (k - 1))) 1 :=
  if_neg (by omega)

end LayoutPlan

/-! ## What an accepted spec satisfies -/

/-- The checks of `for_type`, in its order. -/
structure LayoutSpec.Accepted (elementSize : Nat) (spec : LayoutSpec) : Prop where
  elementSize_pos : 0 < elementSize
  replicas_pos : 0 < spec.replicas
  channels_pos : 0 < spec.channels
  replicas_le : spec.replicas ≤ spec.channels
  offset_pos : 0 < spec.channelOffsetBytes
  offset_dvd : elementSize ∣ spec.channelOffsetBytes

theorem LayoutPlan.forType_ok_iff (A : Arith) (elementSize : Nat) (spec : LayoutSpec)
    (plan : LayoutPlan) :
    forType A elementSize spec = .ok plan ↔
      spec.Accepted elementSize ∧ plan = precompute A elementSize spec := by
  unfold forType
  constructor
  · intro h
    split at h; · cases h
    split at h; · cases h
    split at h; · cases h
    split at h; · cases h
    split at h; · cases h
    split at h; · cases h
    next hs hr hc hle ho hd =>
      cases h
      exact ⟨⟨Nat.pos_of_ne_zero hs, Nat.pos_of_ne_zero hr, Nat.pos_of_ne_zero hc, by omega,
        Nat.pos_of_ne_zero ho, Nat.dvd_of_mod_eq_zero (Decidable.not_not.mp hd)⟩, rfl⟩
  · rintro ⟨hacc, rfl⟩
    have h1 := hacc.elementSize_pos
    have h2 := hacc.replicas_pos
    have h3 := hacc.channels_pos
    have h4 := hacc.replicas_le
    have h5 := hacc.offset_pos
    have h6 := Nat.mod_eq_zero_of_dvd hacc.offset_dvd
    rw [if_neg (by omega), if_neg (by omega), if_neg (by omega), if_neg (by omega),
      if_neg (by omega), if_neg (by omega)]

section
variable {elementSize : Nat} {spec : LayoutSpec} (hacc : spec.Accepted elementSize)
include hacc

/-- The channel offset is a whole positive number of elements. -/
theorem LayoutSpec.Accepted.offset_eq :
    spec.channelOffsetBytes / elementSize * elementSize = spec.channelOffsetBytes :=
  Nat.div_mul_cancel hacc.offset_dvd

theorem LayoutSpec.Accepted.offsetElements_pos : 0 < spec.channelOffsetBytes / elementSize := by
  have h := hacc.offset_eq
  have := hacc.offset_pos
  rcases Nat.eq_zero_or_pos (spec.channelOffsetBytes / elementSize) with h0 | h0
  · rw [h0] at h; omega
  · exact h0

end

end Tailslayer
