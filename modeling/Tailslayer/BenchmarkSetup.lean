import Tailslayer.BenchmarkReport
import Tailslayer.Sys

/-!
# What the benchmark sets up

Source: `examples/hedged_read.rs`, `Config::from_cli` and `MemorySetup::new`.

The arguments come parsed; the parser is a package's.  The example has functions of
its own around the system calls, with errors that differ from those of `src/sys.rs`.
-/

namespace Tailslayer

open Word

/-! ## Configuration -/

def superpageSize : Nat := 1 <<< 30
def maxStressThreads : Nat := 16
def warmupIters : Nat := 5000
def stressCores : List Nat := [8, 9, 10, 13, 15, 24, 25, 26, 29, 31]

/-- What `run` prints before it exits with status 1. -/
inductive RunError where
  | invalidInput (message : String)
  | invalidData (message : String)
  | permissionDenied (message : String)
  | other (message : String)
  | io (error : IoError)
deriving DecidableEq, Repr

structure Cli where
  all : Bool
  arm : List Arm
  samples : Nat
  stressThreads : Nat
  coreA : Nat
  coreB : Nat
  coreMain : Nat
  channelBit : Nat
  channelOffset : Option Nat
  channels : Nat
  rawPrefix : Option String
  skipPhysCheck : Bool
deriving DecidableEq, Repr

structure BenchmarkConfig where
  arms : List Arm
  samples : Nat
  stressThreads : Nat
  coreA : Nat
  coreB : Nat
  coreMain : Nat
  channelBit : Nat
  channelOffset : Nat
  channels : Nat
  rawPrefix : Option String
  skipPhysCheck : Bool
deriving DecidableEq, Repr

namespace BenchmarkConfig

/-- The shift amount of a `usize` is taken modulo 64. -/
def fromCli (cli : Cli) : Except RunError BenchmarkConfig :=
  let arms :=
    if cli.all then [.singleQuiet, .hedgedQuiet, .singleStress, .hedgedStress] else cli.arm
  if arms.isEmpty then .error (.invalidInput "select at least one arm or pass --all")
  else if cli.channels = 0 then .error (.invalidInput "--channels must be greater than zero")
  else
    let channelOffset := cli.channelOffset.getD (1 <<< (cli.channelBit % 64))
    if channelOffset = 0 then
      .error (.invalidInput "channel offset must be greater than zero")
    else
      .ok
        { arms := arms
          samples := cli.samples
          stressThreads := Nat.min cli.stressThreads maxStressThreads
          coreA := cli.coreA
          coreB := cli.coreB
          coreMain := cli.coreMain
          channelBit := cli.channelBit
          channelOffset := channelOffset
          channels := cli.channels
          rawPrefix := cli.rawPrefix
          skipPhysCheck := cli.skipPhysCheck }

variable (config : BenchmarkConfig)

def requiresStressPage : Bool := config.arms.any Arm.needsStress

/-- `core_b + replica - 1`, where a sum that is no `usize` wraps. -/
def replicaCores : List Nat :=
  [config.coreA] ++ (if 1 < config.channels then [config.coreB] else []) ++
    (List.range' 2 (config.channels - 2)).map fun replica =>
      usize.add config.coreB (replica - 1)

end BenchmarkConfig

/-! ## System calls -/

/-- The example's own `pin_to_core`; `none` is the abort inside `CPU_SET`. -/
def pinToCore (host : Host) (core : Nat) : Option (Except IoError Unit) :=
  match cpuSet core (List.replicate 16 0) with
  | none => none
  | some cpuset => some (host.schedSetaffinity cpuset)

theorem pinToCore_eq_none_iff (host : Host) (core : Nat) :
    pinToCore host core = none ↔ 1024 ≤ core := by
  rw [← cpuSet_eq_none_iff, pinToCore]
  split
  · next h => simp only [h]
  · next h => simp only [h, reduceCtorEq]

/-- The example's own `virt_to_phys`. -/
def virtToPhysRaw (host : Host) (addr : Nat) : Except RunError Nat :=
  match host.openPagemap with
  | .error e => .error (.io e)
  | .ok () =>
    match host.readPagemap (addr / 4096 * 8) with
    | .error e => .error (.io e)
    | .ok (read, entry) =>
      if read ≠ 8 then .error (.io (.unexpectedEof "short read from /proc/self/pagemap"))
      else if entry &&& 1 <<< 63 = 0 then .error (.invalidData "page not present")
      else
        let pfn := entry &&& ((1 <<< 55) - 1)
        if pfn = 0 then
          .error (.permissionDenied
            "PFN unavailable from /proc/self/pagemap; run with elevated privileges")
        else .ok (usize.mul pfn 4096 ||| (addr &&& 0xfff))

/-! ## Memory -/

structure MemorySetup where
  /-- addresses of the copies -/
  replicas : List Nat
  replicaPage : Nat
  stressPage : Option Nat
deriving DecidableEq, Repr

namespace MemorySetup

/-- `MappedRegion::huge_1g`, the process's `call`-th mapping; `none` is its panic. -/
def hugePage (host : Host) (call : Nat) : Option (Except RunError Nat) :=
  match host.mmap call superpageSize 30 with
  | .error e => some (.error (.io e))
  | .ok ptr => if ptr = 0 then none else some (.ok ptr)

/-- The copy of 64 bytes is one inside of the page, and not onto itself. -/
def CopyFits (distance : Nat) : Prop := 64 ≤ distance ∧ distance + 64 ≤ superpageSize

instance (distance : Nat) : Decidable (CopyFits distance) :=
  inferInstanceAs (Decidable (_ ∧ _))

/-- How far the copies are from the first one. -/
def distances (config : BenchmarkConfig) : List Nat :=
  (List.range' 1 (config.channels - 1)).map fun replica => usize.mul replica config.channelOffset

/-- The channel of each copy, or the first error. -/
def channelsOf (host : Host) (channelBit : Nat) (replicas : List Nat) :
    Except RunError (List Nat) :=
  replicas.mapM fun addr => do
    let phys ← virtToPhysRaw host addr
    pure (computeChannel phys channelBit)

/-- The first two copies in one channel. -/
def clash (channels : List Nat) : Option (Nat × Nat × Nat) :=
  (List.range channels.length).findSome? fun left =>
    (List.range' (left + 1) (channels.length - (left + 1))).findSome? fun right =>
      match channels[left]?, channels[right]? with
      | some c, some d => if c = d then some (left, right, c) else none
      | _, _ => none

def checkChannels (host : Host) (config : BenchmarkConfig) (replicas : List Nat) :
    Except RunError Unit :=
  if config.skipPhysCheck then .ok ()
  else
    match channelsOf host config.channelBit replicas with
    | .error e => .error e
    | .ok channels =>
      match clash channels with
      | none => .ok ()
      | some (left, right, channel) =>
        .error (.invalidData ("replicas " ++ toString left ++ " and " ++ toString right ++
          " resolved to the same channel (" ++ toString channel ++ ")"))

inductive Outcome where
  | returned (result : Except RunError MemorySetup)
  | panicked
  /-- a copy was out of the page or onto itself: anything may happen then -/
  | undefined
deriving Repr

/-- The page for the stress threads comes last. -/
def withStressPage (host : Host) (config : BenchmarkConfig) (base : Nat) (replicas : List Nat) :
    Outcome :=
  if config.requiresStressPage then
    match hugePage host 1 with
    | none => .panicked
    | some (.error e) => .returned (.error e)
    | some (.ok stress) => .returned (.ok ⟨replicas, base, some stress⟩)
  else .returned (.ok ⟨replicas, base, none⟩)

/-- A `usize`: the element of the vector of addresses. -/
def addressBytes : Nat := 8

/-- Ordinary memory for vectors that can be is assumed to be there. -/
def new (host : Host) (config : BenchmarkConfig) : Outcome :=
  match hugePage host 0 with
  | none => .panicked
  | some (.error e) => .returned (.error e)
  | some (.ok base) =>
    if ¬ FitsVec addressBytes config.channels then .panicked
    else if ∀ distance ∈ distances config, CopyFits distance then
      let replicas := base :: (distances config).map fun distance => usize.add base distance
      match checkChannels host config replicas with
      | .error e => .returned (.error e)
      | .ok () => withStressPage host config base replicas
    else .undefined

end MemorySetup

end Tailslayer
