import Mathlib.Logic.Function.Basic
import Tailslayer.BenchmarkSetup
import Tailslayer.Pool.Crews
import Tailslayer.Pool.Process
import Tailslayer.Pool.Xorshift

/-!
# A run of the benchmark

Source: `examples/hedged_read.rs`, `BenchmarkRunner::run_arm`, `StressGroup`, the two kinds of
thread and the rest of `run`.

A `Benchmark` is the process after its memory is set up: the main thread, and every
thread it has spawned, by arm and number.  The threads share the memory, the
signals and the time stamp counter.  An `Action` is one access of one thread, the end of a
write to a file, or the counter going on.

Waiting for a signal takes no steps here; neither do the 50 ms that `StressGroup::start`
sleeps.  The counter is the same on all cores and does not wrap within a run.  Reading
memory that is no longer mapped kills the process.  A core that `CPU_SET` does not take
aborts it, which is a step of `Benchmark.process` only.

Assumed of the system: every `thread::spawn` gets its thread, ordinary memory is there, and
what is printed (`println!`, `eprintln!`) is accepted.  A panic of the main thread for one
of these is not modelled.  There are at most `2 ^ 24` copies (`MemorySetup.new`), so that
vectors of as many handles are never too large.
-/

namespace Tailslayer

open Crews Xorshift

/-! ## What does not change -/

structure Setup where
  host : Host
  config : BenchmarkConfig
  memory : MemorySetup

namespace Setup

variable (b : Setup)

/-- Addresses and cores of an arm's measurement threads. -/
def targetsOf : Arm → List (Nat × Nat)
  | .singleQuiet | .singleStress =>
    (b.memory.replicas.take 1).zip (b.config.replicaCores.take 1)
  | .hedgedQuiet | .hedgedStress => b.memory.replicas.zip b.config.replicaCores

/-- The region an arm puts stress on. -/
def stressRegion : Arm → Option Nat
  | .singleQuiet | .hedgedQuiet => none
  | .singleStress | .hedgedStress => b.memory.stressPage

/-- Regions and cores of an arm's stress threads. -/
def stressorsOf (arm : Arm) : List (Nat × Nat) :=
  match b.stressRegion arm with
  | none => []
  | some region => (List.range b.config.stressThreads).map fun i =>
      (region, stressCores.getD (i % stressCores.length) 0)

/-- The measurement threads of arm number `k`. -/
def targets (k : Nat) : List (Nat × Nat) :=
  match b.config.arms[k]? with
  | none => []
  | some arm => b.targetsOf arm

/-- The stress threads of arm number `k`. -/
def stressors (k : Nat) : List (Nat × Nat) :=
  match b.config.arms[k]? with
  | none => []
  | some arm => b.stressorsOf arm

end Setup

/-! ## Threads -/

inductive MeasurePc where
  | unspawned
  | pinning
  /-- spins on the signal -/
  | waiting
  | warmup (i : Nat)
  | sampling
  /-- `t0` was taken, the address is to be read -/
  | reading (t0 : Fin (2 ^ 64))
  /-- the address was read, `t1` is to be taken -/
  | timing (t0 : Fin (2 ^ 64))
  | returned
  | failed (error : IoError)
  /-- its vector of samples was too large, or the counter went back -/
  | panicked
deriving DecidableEq

structure Measurement where
  addr : Nat
  core : Nat
  pc : MeasurePc
  samples : List Sample

inductive StressPc where
  | unspawned
  | pinning
  /-- spins on `go` -/
  | waiting
  | loopTop
  /-- the target was chosen, and is to be flushed and read -/
  | touching
  | returned
  | failed (error : IoError)
deriving DecidableEq

structure Stress where
  region : Nat
  core : Nat
  pc : StressPc
  state : BitVec 64

def Measurement.absent : Measurement := ⟨0, 0, .unspawned, []⟩

def Stress.absent : Stress := ⟨0, 0, .unspawned, 0⟩

/-- With what `join` returns, and the main thread goes on. -/
def Measurement.status (m : Measurement) : Status RunError :=
  match m.pc with
  | .unspawned => .absent
  | .returned => .returned
  | .failed e => .failed (.io e)
  | .panicked => .failed (.other "measurement thread panicked")
  | _ => .running

/-- A stress thread never panics. -/
def Stress.status (m : Stress) : Status RunError :=
  match m.pc with
  | .unspawned => .absent
  | .returned => .returned
  | .failed e => .failed (.io e)
  | _ => .running

/-- `0xdead_beef_1234_5678_u64 ^ region as u64` -/
def stressSeed (region : Nat) : BitVec 64 := 0xdeadbeef12345678 ^^^ BitVec.ofNat 64 region

/-- `(region_size - 1) & !63_usize` -/
def stressMask : BitVec 64 := BitVec.ofNat 64 (superpageSize - 1) &&& ~~~63

/-- The line that a stress thread is at. -/
def Stress.target (m : Stress) : Nat := m.region + (m.state &&& stressMask).toNat

/-! ## The process -/

inductive RunResult where
  | ok
  | error (e : RunError)
  /-- a panic of the main thread -/
  | panicked
deriving DecidableEq

inductive MainPc where
  /-- before the arm, or the end if there is none left -/
  | armTop
  | startStress (i : Nat)
  | go
  | spawn (i : Nat)
  | signal
  | join (i : Nat)
  | stop
  | joinStress (i : Nat)
  | write (chunks : List Chunk)
  | reset
  /-- `run` returns, and drops what it owns -/
  | unmapReplicas (result : RunResult)
  | unmapStress (result : RunResult)
  /-- `main_impl` prints the error -/
  | leave (result : RunResult)
  | exited (result : RunResult)
  /-- killed by an access to memory that is not mapped -/
  | crashed

structure Benchmark where
  /-- number of the arm -/
  arm : Nat
  main : MainPc
  signal : Bool
  /-- each arm has stress flags of its own -/
  go : Nat → Bool
  stop : Nat → Bool
  measures : Nat × Nat → Measurement
  stresses : Nat × Nat → Stress
  /-- of this arm -/
  results : List (List Sample)
  printed : List Line
  replicasMapped : Bool
  stressMapped : Bool
  tsc : Fin (2 ^ 64)

namespace Benchmark

def start : Benchmark where
  arm := 0
  main := .armTop
  signal := false
  go := fun _ => false
  stop := fun _ => false
  measures := fun _ => .absent
  stresses := fun _ => .absent
  results := []
  printed := []
  replicasMapped := true
  stressMapped := true
  tsc := 0

def setMeasure (s : Benchmark) (t : Nat × Nat) (m : Measurement) : Benchmark :=
  { s with measures := Function.update s.measures t m }

def setStress (s : Benchmark) (t : Nat × Nat) (m : Stress) : Benchmark :=
  { s with stresses := Function.update s.stresses t m }

def close (s : Benchmark) (result : RunResult) : Benchmark :=
  { s with main := .unmapReplicas result }

def crash (s : Benchmark) : Benchmark := { s with main := .crashed }

section
variable (b : Setup)

def armTop (s : Benchmark) : Benchmark :=
  match b.config.arms[s.arm]? with
  | none => s.close .ok
  | some arm =>
    match b.stressRegion arm with
    | none => { s with main := .spawn 0, results := [] }
    | some _ => { s with main := .startStress 0, results := [] }

/-- The next `thread::spawn` of `StressGroup::start`, which is not refused. -/
def startStress (s : Benchmark) (i : Nat) : Benchmark :=
  match (b.stressors s.arm)[i]? with
  | none => { s with main := .go }
  | some (region, core) =>
    { s.setStress (s.arm, i) ⟨region, core, .pinning, stressSeed region⟩ with
      main := .startStress (i + 1) }

/-- The next `thread::spawn` of `run_arm`, which is not refused. -/
def spawn (s : Benchmark) (i : Nat) : Benchmark :=
  match (b.targets s.arm)[i]? with
  | none => { s with main := .signal }
  | some (addr, core) =>
    { s.setMeasure (s.arm, i) ⟨addr, core, .pinning, []⟩ with main := .spawn (i + 1) }

def join (s : Benchmark) (i : Nat) : Option Benchmark :=
  if i < (b.targets s.arm).length then
    let m := s.measures (s.arm, i)
    match m.status with
    | .absent | .running => none
    | .returned => some { s with results := s.results ++ [m.samples], main := .join (i + 1) }
    | .failed e => some (s.close (.error e))
  else some { s with main := .stop }

/-- `process_and_write` is called, and computes all that it will print. -/
def report (s : Benchmark) : Benchmark :=
  match b.config.arms[s.arm]? with
  | none => s.close .panicked
  | some arm =>
    match processAndWrite b.config.samples arm.label s.results with
    | none => s.close .panicked
    | some chunks => { s with main := .write chunks }

def joinStress (s : Benchmark) (i : Nat) : Option Benchmark :=
  if i < (b.stressors s.arm).length then
    match (s.stresses (s.arm, i)).status with
    | .absent | .running => none
    | .returned => some { s with main := .joinStress (i + 1) }
    | .failed e => some (s.close (.error e))
  else some (s.report b)

def mainStep (s : Benchmark) : Option Benchmark :=
  match s.main with
  | .armTop => some (s.armTop b)
  | .startStress i => some (s.startStress b i)
  | .go => some { s with go := Function.update s.go s.arm true, main := .spawn 0 }
  | .spawn i => some (s.spawn b i)
  | .signal => some { s with signal := true, main := .join 0 }
  | .join i => s.join b i
  | .stop => some { s with stop := Function.update s.stop s.arm true, main := .joinStress 0 }
  | .joinStress i => s.joinStress b i
  | .write [] => some { s with main := .reset }
  | .write (_ :: _) => none
  | .reset => some { s with signal := false, arm := s.arm + 1, main := .armTop }
  | .unmapReplicas result => some { s with replicasMapped := false, main := .unmapStress result }
  | .unmapStress result => some { s with stressMapped := false, main := .leave result }
  | .leave result => some { s with main := .exited result }
  | .exited _ | .crashed => none

/-- A chunk is printed, which is not refused, and what follows may be written to a file. -/
def writeStep (s : Benchmark) (outcome : Except IoError Unit) : Option Benchmark :=
  match s.main with
  | .write (chunk :: rest) =>
    let s := { s with printed := s.printed ++ chunk.lines }
    match outcome with
    | .ok () => some { s with main := .write rest }
    | .error e => if b.config.rawPrefix.isSome then some (s.close (.error (.io e))) else none
  | _ => none

/-- `timestamp: t0, latency: t1 - t0`, a panic in a debug build if `t1 < t0`. -/
def sampleOf (t0 t1 : Fin (2 ^ 64)) : Option Sample :=
  if t0 ≤ t1 then
    some ⟨t0.val, t1.val - t0.val, Nat.le_pred_of_lt t0.isLt,
      Nat.le_trans (Nat.sub_le _ _) (Nat.le_pred_of_lt t1.isLt)⟩
  else none

/-- A `Sample`: two words. -/
def sampleBytes : Nat := 16

def measureStep (s : Benchmark) (t : Nat × Nat) : Option Benchmark :=
  let m := s.measures t
  match m.pc with
  | .pinning =>
    match pinToCore b.host m.core with
    | none => none
    | some (.error e) => some (s.setMeasure t { m with pc := .failed e })
    | some (.ok ()) => some (s.setMeasure t { m with pc := .waiting })
  | .waiting => if s.signal then some (s.setMeasure t { m with pc := .warmup 0 }) else none
  | .warmup i =>
    if i < warmupIters then
      if s.replicasMapped then some (s.setMeasure t { m with pc := .warmup (i + 1) })
      else some s.crash
    else if FitsVec sampleBytes b.config.samples then
      some (s.setMeasure t { m with pc := .sampling })
    else
      -- `Vec::with_capacity(n_samples)` panics
      some (s.setMeasure t { m with pc := .panicked })
  | .sampling =>
    if m.samples.length < b.config.samples then
      if s.replicasMapped then some (s.setMeasure t { m with pc := .reading s.tsc })
      else some s.crash
    else some (s.setMeasure t { m with pc := .returned })
  | .reading t0 =>
    if s.replicasMapped then some (s.setMeasure t { m with pc := .timing t0 }) else some s.crash
  | .timing t0 =>
    match sampleOf t0 s.tsc with
    | none => some (s.setMeasure t { m with pc := .panicked })
    | some sample =>
      some (s.setMeasure t { m with pc := .sampling, samples := m.samples ++ [sample] })
  | .unspawned | .returned | .failed _ | .panicked => none

/-- The three shifts of the generator. -/
def stressNext (x : BitVec 64) : BitVec 64 := next 13 7 17 x

def stressStep (s : Benchmark) (t : Nat × Nat) : Option Benchmark :=
  let m := s.stresses t
  match m.pc with
  | .pinning =>
    match pinToCore b.host m.core with
    | none => none
    | some (.error e) => some (s.setStress t { m with pc := .failed e })
    | some (.ok ()) => some (s.setStress t { m with pc := .waiting })
  | .waiting => if s.go t.1 then some (s.setStress t { m with pc := .loopTop }) else none
  | .loopTop =>
    if s.stop t.1 then some (s.setStress t { m with pc := .returned })
    else some (s.setStress t { m with pc := .touching, state := stressNext m.state })
  | .touching =>
    if s.stressMapped then some (s.setStress t { m with pc := .loopTop }) else some s.crash
  | .unspawned | .returned | .failed _ => none

def tick (s : Benchmark) : Option Benchmark :=
  if h : s.tsc.val + 1 < 2 ^ 64 then some { s with tsc := ⟨s.tsc.val + 1, h⟩ } else none

/-- The process is over, with all its threads. -/
def Over (s : Benchmark) : Prop :=
  match s.main with
  | .exited _ | .crashed => True
  | _ => False

instance (s : Benchmark) : Decidable s.Over := by
  unfold Over
  split <;> infer_instance

inductive Action where
  | main
  | write (outcome : Except IoError Unit)
  /-- by arm and channel -/
  | measure (t : Nat × Nat)
  /-- by arm and number -/
  | stress (t : Nat × Nat)
  | tick

def step (s : Benchmark) (a : Action) : Option Benchmark :=
  if s.Over then none
  else
    match a with
    | .main => s.mainStep b
    | .write outcome => s.writeStep b outcome
    | .measure t => s.measureStep b t
    | .stress t => s.stressStep b t
    | .tick => s.tick

/-- The pinning of a thread aborts the process. -/
def aborts (s : Benchmark) (a : Action) : Bool :=
  if s.Over then false
  else
    match a with
    | .measure t =>
      (s.measures t).pc = .pinning && (pinToCore b.host (s.measures t).core).isNone
    | .stress t =>
      (s.stresses t).pc = .pinning && (pinToCore b.host (s.stresses t).core).isNone
    | _ => false

/-- The steps of the threads, and the abort of their process. -/
def process : Process Benchmark → Action → Option (Process Benchmark) :=
  Process.step (step b) (aborts b)

end

end Benchmark

end Tailslayer
