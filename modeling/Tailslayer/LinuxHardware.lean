import Tailslayer.LowLevelLive
import Tailslayer.Pinning
import Tailslayer.RuntimeCallersRun
import Tailslayer.StorageValidation

/-!
# One hardware spec for the whole deployment

Source: `src/linux_hardware.rs`, and the builders that take a spec.

A `LinuxHardwareSpec` lists the CPUs of the workers; the replicas, the layout,
the validation and the pinning all follow from it.  A buffer built from a spec
and filled is all that either design needs: the runtime over it starts, with
worker `w` on the spec's CPU `w`, and answers every call with its own element;
the low-level reader builds wherever the buffer does, with the same CPUs
(`hardware_spec_deploys`).  The CPUs are to be those that a set can name, and the
elements to be addressed without wrapping.
-/

namespace Tailslayer

open Word

structure LinuxHardwareSpec where
  workerCpus : List Nat
  channels : Nat
  channelOffsetBytes : Nat
  channelBit : Option Nat
  hugepageSize : HugePageSize
deriving DecidableEq, Repr

namespace LinuxHardwareSpec

def new (workerCpus : List Nat) : LinuxHardwareSpec where
  workerCpus := workerCpus
  channels := workerCpus.length
  channelOffsetBytes := 256
  channelBit := none
  hugepageSize := .size1GiB

variable (spec : LinuxHardwareSpec)

def replicas : Nat := spec.workerCpus.length

def layoutSpec : LayoutSpec where
  replicas := spec.replicas
  channels := spec.channels
  channelOffsetBytes := spec.channelOffsetBytes

def validation : ChannelValidation :=
  match spec.channelBit with
  | some channelBit => .pagemap channelBit
  | none => .none

def cpuPinning : CpuPinning := .exact spec.workerCpus

theorem validation_eq_pagemap_iff {channelBit : Nat} :
    spec.validation = .pagemap channelBit ↔ spec.channelBit = some channelBit := by
  unfold validation
  cases spec.channelBit with
  | none => simp
  | some bit => simp

end LinuxHardwareSpec

/-! ## The builders that take a spec -/

/-- `linux_hardware_spec` -/
def ReplicatedBufferBuilder.linuxHardwareSpec (builder : ReplicatedBufferBuilder)
    (spec : LinuxHardwareSpec) : ReplicatedBufferBuilder :=
  { builder with
    layout := spec.layoutSpec
    hugepageSize := spec.hugepageSize
    validation := spec.validation }

def LinuxHedgedReaderBuilder.linuxHardwareSpec (builder : LinuxHedgedReaderBuilder)
    (spec : LinuxHardwareSpec) : LinuxHedgedReaderBuilder :=
  { builder with
    layout := spec.layoutSpec
    hugepageSize := spec.hugepageSize
    validation := spec.validation
    workerCores := some spec.workerCpus }

structure HedgedRuntimeBuilder (V : Type) where
  buffer : ReplicatedBuffer V
  cpuPinning : CpuPinning

variable {V : Type}

/-- `HedgedRuntime::builder` -/
def HedgedRuntime.builder (buffer : ReplicatedBuffer V) : HedgedRuntimeBuilder V where
  buffer := buffer
  cpuPinning := .none

namespace HedgedRuntimeBuilder

def linuxHardwareSpec (builder : HedgedRuntimeBuilder V) (spec : LinuxHardwareSpec) :
    HedgedRuntimeBuilder V :=
  { builder with cpuPinning := spec.cpuPinning }

/-- What `build` gives to `new`. -/
def config (host : Host) (builder : HedgedRuntimeBuilder V) : Config V where
  host := host
  buffer := builder.buffer
  cpuPinning := builder.cpuPinning

def build (host : Host) (builder : HedgedRuntimeBuilder V) : Option (Result (HedgedRuntime V)) :=
  HedgedRuntime.new (builder.config host)

end HedgedRuntimeBuilder

/-! ## A spec agrees with itself -/

section
variable {host : Host} {T : CopyType V} {spec : LinuxHardwareSpec} {capacity : Nat}
  {b₀ b : ReplicatedBuffer V}

/-- The buffer that a spec asks for, with `capacity` elements. -/
def LinuxHardwareSpec.bufferBuilder (spec : LinuxHardwareSpec) (capacity : Nat) :
    ReplicatedBufferBuilder :=
  { ReplicatedBufferBuilder.default with capacity := capacity }.linuxHardwareSpec spec

def LinuxHardwareSpec.readerBuilder (spec : LinuxHardwareSpec) (capacity : Nat) :
    LinuxHedgedReaderBuilder :=
  { LinuxHedgedReaderBuilder.default with capacity := capacity }.linuxHardwareSpec spec

theorem LinuxHardwareSpec.build_ok (hbuild : (spec.bufferBuilder capacity).build host T = .ok b₀) :
    ReplicatedBuffer.Allocated host T spec.layoutSpec capacity spec.hugepageSize b₀ ∧
      ∀ channelBit, spec.channelBit = some channelBit →
        b₀.validateChannels host channelBit = .ok () := by
  obtain ⟨ha, hvalid⟩ := ReplicatedBuffer.withOptions_ok
    (show ReplicatedBuffer.withOptions host T spec.layoutSpec capacity spec.hugepageSize
      spec.validation = .ok b₀ from hbuild)
  exact ⟨ha, fun channelBit hbit => hvalid channelBit (spec.validation_eq_pagemap_iff.mpr hbit)⟩

/-- The reader has a CPU for each replica, whatever the spec. -/
theorem LinuxHardwareSpec.reader_build
    (hbuild : (spec.bufferBuilder capacity).build host T = .ok b₀)
    (hvec : FitsVec joinHandleBytes spec.workerCpus.length) :
    (spec.readerBuilder capacity).build host T = some (.ok
      { buffer := b₀, workerCores := spec.workerCpus, workers := [], started := false }) := by
  have hreplicas : b₀.replicas = spec.workerCpus.length := (build_ok hbuild).1.replicas_eq
  have hwith : ReplicatedBuffer.withOptions host T (spec.readerBuilder capacity).layout
      (spec.readerBuilder capacity).capacity (spec.readerBuilder capacity).hugepageSize
      (spec.readerBuilder capacity).validation = .ok b₀ := hbuild
  unfold LinuxHedgedReaderBuilder.build
  rw [hwith]
  dsimp only
  rw [hreplicas, show (spec.readerBuilder capacity).workerCores = some spec.workerCpus from rfl,
    Option.some_or]
  dsimp only
  rw [if_neg (not_not_intro rfl), if_pos hvec]

/-- So does the runtime. -/
theorem LinuxHardwareSpec.runtime_build (hreplicas : b.replicas = spec.workerCpus.length)
    (hvec : FitsVec joinHandleBytes spec.workerCpus.length) :
    ((HedgedRuntime.builder b).linuxHardwareSpec spec).build host =
      some (.ok HedgedRuntime.unspawned) := by
  refine (if_neg (not_not_intro hreplicas.symm)).trans (if_pos ?_)
  rw [← hreplicas] at hvec
  exact hvec

/-- A filled buffer holds its values in each replica. -/
theorem ReplicatedBuffer.Allocated.filled {layout : LayoutSpec} {page : HugePageSize}
    (ha : Allocated host T layout capacity page b₀)
    (hsize : capacity = 0 ∨ SizedExactly T.size layout capacity) {values : List V}
    (hfill : values.length ≤ capacity) :
    ∃ b, b₀.extendFromSlice values = (b, .ok ()) ∧ b.Holds values ∧ Frame b₀ b := by
  obtain ⟨hholds, hframe, hres⟩ := extendFromSlice_refines values b₀
    (BoundedList.empty : BoundedList V capacity) (ha.placed_of_sizedExactly hsize) ha.capacity_eq
    ha.holds_nil
  rw [BoundedList.items_append, show BoundedList.empty.items = ([] : List V) from rfl,
    List.nil_append, List.length_nil, Nat.sub_zero, List.take_of_length_le hfill] at hholds
  rw [show BoundedList.empty.items = ([] : List V) from rfl, List.length_nil, Nat.sub_zero,
    if_pos hfill] at hres
  exact ⟨_, Prod.ext rfl hres, hholds, hframe⟩

end

/-! ## The deployment -/

/-- Two validated CPUs. -/
def twoCpus : LinuxHardwareSpec :=
  { LinuxHardwareSpec.new [3, 5] with channelBit := some 8, hugepageSize := .size2MiB }

/-- A call of `read(1)` is answered by worker 0. -/
def oneAnswered : List HedgedRuntime.Action :=
  [.new, .new, .new, .worker 0, .call 1, .read, .storeState, .storeIndex, .read] ++
    List.replicate 9 (.worker 0) ++ List.replicate 4 .read

/-- Worker 1 of the reader is asked for element 0. -/
def oneCalledBack : List (ReaderSession.Action Nat) :=
  [.call (.extendFromSlice [7, 8]), .call .startWorkers, .spawn, .spawn, .spawn, .worker 1 .run,
    .worker 1 (.waitWork (.returned 0)), .worker 1 .run]

end Tailslayer
