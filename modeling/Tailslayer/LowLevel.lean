import Tailslayer.Pool.Process
import Tailslayer.Storage

/-!
# `LinuxHedgedReader`

Source: `src/linux_low_level.rs`.

A `ReaderSession` is a reader with the threads it has spawned.  Its calls take
`&mut self` and so come one after the other; the workers run meanwhile, also
while `start_workers` is still spawning and while `join` waits.  An `Action` is
one access, or the return of one call of user code, whose outcome comes with the
action.  These are the runs of a living process; `ReaderSession.process` has its
abort too.

The 10 ms that `start_workers` sleeps decide nothing here, and every
`thread::spawn` gets its thread.  `waitCalls`, `waited` and `finalCalls` of a
worker and `returned` are for the proofs only; no step reads them.
-/

namespace Tailslayer

open Word

/-! ## The builder -/

def coreMeasA : Nat := 11
def coreMeasB : Nat := 12

/-- The loops of `default_worker_cores`; no core number wraps. -/
def defaultCores (replicas : Nat) : List Nat :=
  (if 1 ≤ replicas then [coreMeasA] else []) ++ (if 2 ≤ replicas then [coreMeasB] else []) ++
    (List.range' 2 (replicas - 2)).map fun replica => coreMeasB + replica - 1

/-- `none` is the panic of `Vec::with_capacity(replicas)`. -/
def defaultWorkerCores (replicas : Nat) : Option (List Nat) :=
  if FitsVec 8 replicas then some (defaultCores replicas) else none

structure LinuxHedgedReaderBuilder where
  layout : LayoutSpec
  capacity : Nat
  hugepageSize : HugePageSize
  validation : ChannelValidation
  workerCores : Option (List Nat)
deriving DecidableEq, Repr

structure LinuxHedgedReader (V : Type) where
  buffer : ReplicatedBuffer V
  workerCores : List Nat
  /-- the handles still to join, as numbers of threads -/
  workers : List Nat
  started : Bool

variable {V : Type}

namespace LinuxHedgedReaderBuilder

def default : LinuxHedgedReaderBuilder where
  layout := .default
  capacity := 1024
  hugepageSize := .size1GiB
  validation := .none
  workerCores := none

/-- `none` is a panic of `Vec::with_capacity(replicas)`. -/
def build (host : Host) (T : CopyType V) (builder : LinuxHedgedReaderBuilder) :
    Option (Result (LinuxHedgedReader V)) :=
  match ReplicatedBuffer.withOptions host T builder.layout builder.capacity builder.hugepageSize
    builder.validation with
  | .error e => some (.error e)
  | .ok buffer =>
    match builder.workerCores.or (defaultWorkerCores buffer.replicas) with
    | none => none
    | some workerCores =>
      if workerCores.length ≠ buffer.replicas then
        some (.error (.invalidConfig "worker_cores must provide one CPU id per replica"))
      else if FitsVec joinHandleBytes buffer.replicas then
        some (.ok { buffer := buffer, workerCores := workerCores, workers := [], started := false })
      else none

end LinuxHedgedReaderBuilder

/-! ## The reader -/

namespace LinuxHedgedReader

def ensureNotStarted (r : LinuxHedgedReader V) : Result Unit :=
  if r.started then
    .error (.invalidConfig "cannot modify or restart LinuxHedgedReader after workers have started")
  else .ok ()

/-- A change of the buffer, refused once the workers have started. -/
def modify (r : LinuxHedgedReader V)
    (change : ReplicatedBuffer V → ReplicatedBuffer V × Result Unit) :
    LinuxHedgedReader V × Result Unit :=
  match r.ensureNotStarted with
  | .error e => (r, .error e)
  | .ok () => ({ r with buffer := (change r.buffer).1 }, (change r.buffer).2)

def insert (r : LinuxHedgedReader V) (value : V) : LinuxHedgedReader V × Result Unit :=
  r.modify fun buffer => buffer.push value

def extendFromSlice (r : LinuxHedgedReader V) (values : List V) :
    LinuxHedgedReader V × Result Unit :=
  r.modify fun buffer => buffer.extendFromSlice values

end LinuxHedgedReader

/-! ## Worker threads -/

/-- How a call of user code ends. -/
inductive Outcome (α : Type) where
  | returned (value : α)
  | panicked
deriving DecidableEq, Repr

inductive CallbackPc where
  | pinning
  | waitWork
  /-- past the assertion, before the volatile read -/
  | reading (logicalIndex : Nat)
  | finalWork
  | returned
  | panicked
  /-- read memory that was no longer mapped -/
  | faulted
deriving DecidableEq, Repr

/-- What `join` on the thread's handle gives, whether it panicked; `none` while it runs. -/
def CallbackPc.joined : CallbackPc → Option Bool
  | .returned => some false
  | .panicked => some true
  | _ => none

/-- A thread with what its closure has captured. -/
structure CallbackWorker (V : Type) where
  core : Nat
  replicaBase : Nat
  layout : LayoutPlan
  logicalLen : Nat
  pc : CallbackPc
  /-- calls of `wait_work` -/
  waitCalls : Nat
  /-- how `wait_work` ended -/
  waited : Option (Outcome Nat)
  /-- what `final_work` was called with -/
  finalCalls : List V

/-- What moves a thread on: its own code, or user code that returns to it. -/
inductive WorkerEvent where
  | run
  | waitWork (outcome : Outcome Nat)
  | finalWork (outcome : Outcome Unit)

namespace CallbackWorker

def spawned (core replicaBase : Nat) (layout : LayoutPlan) (logicalLen : Nat) :
    CallbackWorker V where
  core := core
  replicaBase := replicaBase
  layout := layout
  logicalLen := logicalLen
  pc := .pinning
  waitCalls := 0
  waited := none
  finalCalls := []

/-- `memory` is what the replicas hold, `none` once it is unmapped. -/
def step (host : Host) (memory : Option (Nat → V)) (wk : CallbackWorker V) (event : WorkerEvent) :
    Option (CallbackWorker V) :=
  match wk.pc, event with
  | .pinning, .run =>
    match pinToCpu host wk.core with
    | none => none
    | some _ => some { wk with pc := .waitWork, waitCalls := wk.waitCalls + 1 }
  | .waitWork, .waitWork .panicked =>
    some { wk with pc := .panicked, waited := some .panicked }
  | .waitWork, .waitWork (.returned logicalIndex) =>
    if logicalIndex < wk.logicalLen then
      some { wk with pc := .reading logicalIndex, waited := some (.returned logicalIndex) }
    else
      some { wk with pc := .panicked, waited := some (.returned logicalIndex) }
  | .reading logicalIndex, .run =>
    match memory with
    | none => some { wk with pc := .faulted }
    | some slots =>
      let offset := wk.layout.elementOffset usize logicalIndex
      let value := slots (wk.replicaBase + offset)
      some { wk with pc := .finalWork, finalCalls := wk.finalCalls ++ [value] }
  | .finalWork, .finalWork (.returned ()) => some { wk with pc := .returned }
  | .finalWork, .finalWork .panicked => some { wk with pc := .panicked }
  | _, _ => none

/-- The thread's pinning aborts the process. -/
def aborts (host : Host) (wk : CallbackWorker V) (event : WorkerEvent) : Bool :=
  match wk.pc, event with
  | .pinning, .run => (pinToCpu host wk.core).isNone
  | _, _ => false

end CallbackWorker

/-! ## Sessions -/

inductive ReaderCall (V : Type) where
  | insert (value : V)
  | extendFromSlice (values : List V)
  | startWorkers
  | join

/-- What the thread that owns the reader is in. -/
inductive ReaderOwner where
  | idle
  /-- in `start_workers`, before the worker of `replica` -/
  | starting (replica : Nat)
  | joining (panicCount : Nat)
  | dropping
  | dropped
deriving DecidableEq, Repr

structure ReaderSession (V : Type) where
  reader : LinuxHedgedReader V
  /-- all that were spawned, oldest first -/
  threads : List (CallbackWorker V)
  owner : ReaderOwner
  returned : List (ReaderCall V × Result Unit)

namespace ReaderSession

def new (reader : LinuxHedgedReader V) : ReaderSession V where
  reader := reader
  threads := []
  owner := .idle
  returned := []

/-- A call returns. -/
def finish (s : ReaderSession V) (call : ReaderCall V) (result : Result Unit) :
    ReaderSession V :=
  { s with owner := .idle, returned := s.returned ++ [(call, result)] }

/-- A call up to its first wait or spawn; the short ones return at once. -/
def call (s : ReaderSession V) (call : ReaderCall V) : Option (ReaderSession V) :=
  if s.owner ≠ .idle then none
  else
    match call with
    | .insert value =>
      let (reader, result) := s.reader.insert value
      some ({ s with reader := reader }.finish call result)
    | .extendFromSlice values =>
      let (reader, result) := s.reader.extendFromSlice values
      some ({ s with reader := reader }.finish call result)
    | .startWorkers =>
      match s.reader.ensureNotStarted with
      | .error e => some (s.finish call (.error e))
      | .ok () => some { s with reader := { s.reader with started := true }, owner := .starting 0 }
    | .join => some { s with owner := .joining 0 }

/-- The next worker of `start_workers`, or its return. -/
def spawnStep (s : ReaderSession V) : Option (ReaderSession V) :=
  match s.owner with
  | .starting replica =>
    match s.reader.workerCores[replica]? with
    | none => some (s.finish .startWorkers (.ok ()))
    | some core =>
      match s.reader.buffer.replicaBasePtr replica with
      | .error e => some (s.finish .startWorkers (.error e))
      | .ok replicaBase =>
        some { s with
          reader := { s.reader with workers := s.reader.workers ++ [s.threads.length] }
          threads := s.threads ++
            [.spawned core replicaBase s.reader.buffer.layout s.reader.buffer.len]
          owner := .starting (replica + 1) }
  | _ => none

/-- `drain` hands out the next handle, and its thread has ended. -/
def joinNext (s : ReaderSession V) (worker : Nat) (rest : List Nat) :
    Option (ReaderSession V × Bool) :=
  match s.threads[worker]? with
  | none => none
  | some wk =>
    match wk.pc.joined with
    | none => none
    | some panicked => some ({ s with reader := { s.reader with workers := rest } }, panicked)

/-- The next handle of `join`, or its return. -/
def joinStep (s : ReaderSession V) : Option (ReaderSession V) :=
  match s.owner with
  | .joining panicCount =>
    match s.reader.workers with
    | [] =>
      if panicCount = 0 then some (s.finish .join (.ok ()))
      else some (s.finish .join (.error (.workerPanicked panicCount)))
    | worker :: rest =>
      match s.joinNext worker rest with
      | none => none
      | some (s', panicked) =>
        some { s' with owner := .joining (if panicked then panicCount + 1 else panicCount) }
  | _ => none

/-- `drop` needs the reader for itself: no call is in progress. -/
def beginDrop (s : ReaderSession V) : Option (ReaderSession V) :=
  if s.owner = .idle then some { s with owner := .dropping } else none

/-- The next handle of `drop`, and after the last one the buffer unmaps. -/
def dropStep (s : ReaderSession V) : Option (ReaderSession V) :=
  match s.owner with
  | .dropping =>
    match s.reader.workers with
    | [] => some { s with owner := .dropped }
    | worker :: rest =>
      match s.joinNext worker rest with
      | none => none
      | some (s', _) => some s'
  | _ => none

def memory (s : ReaderSession V) : Option (Nat → V) :=
  if s.owner = .dropped then none else some s.reader.buffer.storage.slots

def workerStep (host : Host) (s : ReaderSession V) (w : Nat) (event : WorkerEvent) :
    Option (ReaderSession V) :=
  match s.threads[w]? with
  | none => none
  | some wk =>
    match wk.step host s.memory event with
    | none => none
    | some wk' => some { s with threads := s.threads.set w wk' }

inductive Action (V : Type) where
  | call (call : ReaderCall V)
  | spawn
  | join
  | beginDrop
  | drop
  | worker (w : Nat) (event : WorkerEvent)

def step (host : Host) (s : ReaderSession V) : Action V → Option (ReaderSession V)
  | .call call => s.call call
  | .spawn => s.spawnStep
  | .join => s.joinStep
  | .beginDrop => s.beginDrop
  | .drop => s.dropStep
  | .worker w event => s.workerStep host w event

/-! ## The process -/

def aborts (host : Host) (s : ReaderSession V) : Action V → Bool
  | .worker w event =>
    match s.threads[w]? with
    | none => false
    | some wk => wk.aborts host event
  | _ => false

/-- The session's steps, and the abort of the process it runs in. -/
def process (host : Host) :
    Process (ReaderSession V) → Action V → Option (Process (ReaderSession V)) :=
  Process.step (step host) (aborts host)

/-- The process aborts with the last of the actions `acts`. -/
def Aborts (host : Host) (reader : LinuxHedgedReader V) (acts : List (Action V)) : Prop :=
  StepRun.run (process host) (.running (.new reader)) acts = some .aborted

end ReaderSession

end Tailslayer
