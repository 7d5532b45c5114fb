import Tailslayer.Pool.Process
import Tailslayer.Storage

/-!
# `HedgedRuntime`

Source: `src/runtime.rs`.

One state of the whole runtime: the words it shares with its workers, each
worker thread with its locals and program point, the call of `read` that holds
`request_lock`, and the thread that owns the runtime (`new`, then `drop`).  An
`Action` is one access of one of them, so a list of actions is an interleaving.
These are the runs of a living process; `HedgedRuntime.process` has its abort too.

A call waiting for the lock has no effect until it gets it, and no holder
panics, so the lock is never poisoned.  How a thread idles between two polls
does not matter here either: it may be delayed anywhere.

`winnerLog`, `returned` and the writer in a `Cell` are for the proofs only; no
step reads them.
-/

namespace Tailslayer

open Word

inductive CpuPinning where
  | none
  | exact (cpus : List Nat)
deriving DecidableEq, Repr

/-- `UnsafeCell<MaybeUninit<T>>`, with the request it was written for. -/
inductive Cell (V : Type) where
  | uninit
  /-- a write has begun -/
  | torn
  | init (writer : Nat) (value : V)
deriving DecidableEq, Repr

structure SharedState (V : Type) where
  requestId : Nat
  requestIndex : Nat
  winnerState : Nat
  shutdown : Bool
  value : Cell V
  /-- what was stored to `winner_state`, oldest first -/
  winnerLog : List Nat

def SharedState.new {V : Type} : SharedState V where
  requestId := 0
  requestIndex := 0
  winnerState := 0
  shutdown := false
  value := .uninit
  winnerLog := []

def SharedState.storeWinner {V : Type} (state : SharedState V) (tag : Nat) : SharedState V :=
  { state with winnerState := tag, winnerLog := state.winnerLog ++ [tag] }

def pending (requestId : Nat) : Nat := requestId <<< 2 % 2 ^ 64
def claimed (requestId : Nat) : Nat := pending requestId ||| 1
def ready (requestId : Nat) : Nat := pending requestId ||| 2

/-! ## Threads -/

inductive WorkerPc (V : Type) where
  | unspawned
  | pinning
  /-- the first `shutdown` load of the loop -/
  | loopTop
  | loadId
  /-- the second `shutdown` load -/
  | recheck (requestId : Nat)
  | loadIndex (requestId : Nat)
  | readMemory (requestId index : Nat)
  /-- the `compare_exchange` -/
  | claim (requestId : Nat) (value : V)
  | beginWrite (requestId : Nat) (value : V)
  | endWrite (requestId : Nat) (value : V)
  /-- the store of `ready` -/
  | publish (requestId : Nat)
  | ended
  /-- read memory that was no longer mapped -/
  | faulted

structure Worker (V : Type) where
  replicaBase : Nat
  cpu : Option Nat
  seenRequest : Nat
  pc : WorkerPc V

/-- The call of `read` that holds `request_lock`. -/
inductive ReadPc where
  | idle
  /-- before the `fetch_add` of `next_request_id` -/
  | locked (index : Nat)
  /-- before the store of `request_id`; which of the two stores are visible -/
  | publishing (index requestId : Nat) (indexStored stateStored : Bool)
  | checkShutdown (index requestId : Nat)
  | checkWinner (index requestId : Nat)
  | beginRead (index requestId : Nat)
  | endRead (index requestId : Nat)
deriving DecidableEq, Repr

/-- The thread that runs `new` and `drop`. -/
inductive Owner where
  /-- in `new`, before the worker of `replica` -/
  | spawning (replica : Nat)
  /-- in `new`, a panic drops the locals -/
  | unwinding
  | failed
  | serving
  /-- in `drop`, before the `fetch_add` of `request_id` -/
  | closing
  /-- in `drop`, before the join of worker `replica` -/
  | joining (replica : Nat)
  | dropped
deriving DecidableEq, Repr

structure ReadResult (V : Type) where
  index : Nat
  result : Result (Cell V)

/-- What `new` is given. -/
structure Config (V : Type) where
  host : Host
  buffer : ReplicatedBuffer V
  cpuPinning : CpuPinning

structure HedgedRuntime (V : Type) where
  nextRequestId : Nat
  state : SharedState V
  workers : Nat → Worker V
  reader : ReadPc
  owner : Owner
  /-- the buffer's mapping is still there -/
  mapped : Bool
  returned : List (ReadResult V)

variable {V : Type}

/-! ## A worker's loop -/

/-- The next access of a worker, from its locals and the shared words. -/
def Worker.step (c : Config V) (mapped : Bool) (state : SharedState V) (wk : Worker V) :
    Option (SharedState V × Worker V) :=
  match wk.pc with
  | .unspawned => none
  | .pinning =>
    match wk.cpu with
    | none => some (state, { wk with pc := .loopTop })
    | some cpu =>
      match pinToCpu c.host cpu with
      | none => none
      | some _ => some (state, { wk with pc := .loopTop })
  | .loopTop =>
    if state.shutdown then some (state, { wk with pc := .ended })
    else some (state, { wk with pc := .loadId })
  | .loadId =>
    if state.requestId = 0 ∨ state.requestId = wk.seenRequest then
      some (state, { wk with pc := .loopTop })
    else
      some (state, { wk with pc := .recheck state.requestId })
  | .recheck requestId =>
    if state.shutdown then some (state, { wk with pc := .ended })
    else some (state, { wk with seenRequest := requestId, pc := .loadIndex requestId })
  | .loadIndex requestId =>
    if c.buffer.len ≤ state.requestIndex then some (state, { wk with pc := .loopTop })
    else some (state, { wk with pc := .readMemory requestId state.requestIndex })
  | .readMemory requestId index =>
    if mapped then
      let offset := c.buffer.layout.elementOffset usize index
      let value := c.buffer.storage.slots (wk.replicaBase + offset)
      some (state, { wk with pc := .claim requestId value })
    else
      some (state, { wk with pc := .faulted })
  | .claim requestId value =>
    if state.winnerState = pending requestId then
      some (state.storeWinner (claimed requestId), { wk with pc := .beginWrite requestId value })
    else
      some (state, { wk with pc := .loopTop })
  | .beginWrite requestId value =>
    some ({ state with value := .torn }, { wk with pc := .endWrite requestId value })
  | .endWrite requestId value =>
    some ({ state with value := .init requestId value }, { wk with pc := .publish requestId })
  | .publish requestId =>
    some (state.storeWinner (ready requestId), { wk with pc := .loopTop })
  | .ended => none
  | .faulted => none

/-- The worker's pinning aborts the process. -/
def Worker.aborts (c : Config V) (wk : Worker V) : Bool :=
  match wk.pc, wk.cpu with
  | .pinning, some cpu => (pinToCpu c.host cpu).isNone
  | _, _ => false

namespace HedgedRuntime

def setWorker (s : HedgedRuntime V) (w : Nat) (state : SharedState V) (wk : Worker V) :
    HedgedRuntime V :=
  { s with state := state, workers := Function.update s.workers w wk }

def workerStep (c : Config V) (s : HedgedRuntime V) (w : Nat) : Option (HedgedRuntime V) :=
  match (s.workers w).step c s.mapped s.state with
  | none => none
  | some (state, wk) => some (s.setWorker w state wk)

/-! ## `read` -/

/-- The call that holds the lock returns. -/
def finish (s : HedgedRuntime V) (index : Nat) (result : Result (Cell V)) : HedgedRuntime V :=
  { s with reader := .idle, returned := s.returned ++ [⟨index, result⟩] }

/-- `read(index)` up to the lock. -/
def call (c : Config V) (s : HedgedRuntime V) (index : Nat) : Option (HedgedRuntime V) :=
  if s.owner ≠ .serving then none
  else if c.buffer.len ≤ index then
    some { s with returned := s.returned ++ [⟨index, .error (.outOfBounds index c.buffer.len)⟩] }
  else if s.reader = .idle then some { s with reader := .locked index }
  else none

/-- The Relaxed store of `request_index` becomes visible. -/
def storeIndex (s : HedgedRuntime V) : Option (HedgedRuntime V) :=
  match s.reader with
  | .publishing index requestId false stateStored =>
    some { s with
      state := { s.state with requestIndex := index }
      reader := .publishing index requestId true stateStored }
  | _ => none

/-- The Relaxed store of `winner_state` becomes visible. -/
def storeState (s : HedgedRuntime V) : Option (HedgedRuntime V) :=
  match s.reader with
  | .publishing index requestId indexStored false =>
    some { s with
      state := s.state.storeWinner (pending requestId)
      reader := .publishing index requestId indexStored true }
  | _ => none

/-- Any other access of the call that holds the lock. -/
def readStep (s : HedgedRuntime V) : Option (HedgedRuntime V) :=
  match s.reader with
  | .idle => none
  | .locked index =>
    some { s with
      nextRequestId := usize.add s.nextRequestId 1
      reader := .publishing index s.nextRequestId false false }
  | .publishing index requestId indexStored stateStored =>
    if indexStored && stateStored then
      some { s with
        state := { s.state with requestId := requestId }
        reader := .checkShutdown index requestId }
    else none
  | .checkShutdown index requestId =>
    if s.state.shutdown then some (s.finish index (.error .runtimeClosed))
    else some { s with reader := .checkWinner index requestId }
  | .checkWinner index requestId =>
    if s.state.winnerState = ready requestId then
      some { s with reader := .beginRead index requestId }
    else some { s with reader := .checkShutdown index requestId }
  | .beginRead index requestId => some { s with reader := .endRead index requestId }
  | .endRead index _ => some (s.finish index (.ok s.state.value))

/-! ## `new` and `drop` -/

/-- `cpus[replica]`; `none` is the index panicking. -/
def cpuOf (c : Config V) (replica : Nat) : Option (Option Nat) :=
  match c.cpuPinning with
  | .none => some none
  | .exact cpus =>
    match cpus[replica]? with
    | none => none
    | some cpu => some (some cpu)

/-- The next worker of `new`, or its return. -/
def newStep (c : Config V) (s : HedgedRuntime V) : Option (HedgedRuntime V) :=
  match s.owner with
  | .spawning replica =>
    if replica < c.buffer.replicas then
      match c.buffer.replicaBasePtr replica, cpuOf c replica with
      | .ok replicaBase, some cpu =>
        some { s with
          workers := Function.update s.workers replica ⟨replicaBase, cpu, 0, .pinning⟩
          owner := .spawning (replica + 1) }
      | _, _ => some { s with owner := .unwinding }
    else some { s with owner := .serving }
  | _ => none

/-- `thread::spawn` panics. -/
def spawnFails (c : Config V) (s : HedgedRuntime V) : Option (HedgedRuntime V) :=
  match s.owner with
  | .spawning replica =>
    if replica < c.buffer.replicas then some { s with owner := .unwinding } else none
  | _ => none

/-- The locals of `new` are dropped: the handles detach, the buffer unmaps. -/
def unwind (s : HedgedRuntime V) : Option (HedgedRuntime V) :=
  match s.owner with
  | .unwinding => some { s with mapped := false, owner := .failed }
  | _ => none

/-- `drop` needs the runtime for itself: no call is in progress. -/
def beginDrop (s : HedgedRuntime V) : Option (HedgedRuntime V) :=
  if s.owner = .serving ∧ s.reader = .idle then
    some { s with state := { s.state with shutdown := true }, owner := .closing }
  else none

/-- A thread that `join` returns from. -/
def Stopped : WorkerPc V → Prop
  | .ended => True
  | _ => False

instance : ∀ pc : WorkerPc V, Decidable (Stopped pc)
  | .ended => isTrue trivial
  | .unspawned | .pinning | .loopTop | .loadId | .recheck _ | .loadIndex _ | .readMemory _ _
  | .claim _ _ | .beginWrite _ _ | .endWrite _ _ | .publish _ | .faulted => isFalse id

def dropStep (c : Config V) (s : HedgedRuntime V) : Option (HedgedRuntime V) :=
  match s.owner with
  | .closing =>
    some { s with
      state := { s.state with requestId := usize.add s.state.requestId 1 }
      owner := .joining 0 }
  | .joining replica =>
    if replica < c.buffer.replicas then
      if Stopped (s.workers replica).pc then some { s with owner := .joining (replica + 1) }
      else none
    else some { s with mapped := false, owner := .dropped }
  | _ => none

/-! ## The runtime as a whole -/

inductive Action where
  | new
  | spawnFails
  | unwind
  | call (index : Nat)
  | storeIndex
  | storeState
  | read
  | worker (w : Nat)
  | beginDrop
  | drop

def step (c : Config V) (s : HedgedRuntime V) : Action → Option (HedgedRuntime V)
  | .new => s.newStep c
  | .spawnFails => s.spawnFails c
  | .unwind => s.unwind
  | .call index => s.call c index
  | .storeIndex => s.storeIndex
  | .storeState => s.storeState
  | .read => s.readStep
  | .worker w => s.workerStep c w
  | .beginDrop => s.beginDrop
  | .drop => s.dropStep c

/-- Before the first worker is spawned. -/
def unspawned : HedgedRuntime V where
  nextRequestId := 1
  state := .new
  workers := fun _ => ⟨0, none, 0, .unspawned⟩
  reader := .idle
  owner := .spawning 0
  mapped := true
  returned := []

/-- `HedgedRuntime::new` up to its spawning loop; `none` is the panic of
`Vec::with_capacity(replicas)`, before which nothing was spawned. -/
def new (c : Config V) : Option (Result (HedgedRuntime V)) :=
  match c.cpuPinning with
  | .none => if FitsVec joinHandleBytes c.buffer.replicas then some (.ok unspawned) else none
  | .exact cpus =>
    if cpus.length ≠ c.buffer.replicas then
      some (.error (.invalidConfig "CpuPinning::Exact must provide one CPU id per replica"))
    else if FitsVec joinHandleBytes c.buffer.replicas then some (.ok unspawned)
    else none

/-- The actions `acts` in this order, from the start of `new`. -/
def Reaches (c : Config V) (acts : List Action) (s : HedgedRuntime V) : Prop :=
  ∃ s₀, new c = some (.ok s₀) ∧ StepRun.run (step c) s₀ acts = some s

/-! ## The process -/

def aborts (c : Config V) (s : HedgedRuntime V) : Action → Bool
  | .worker w => (s.workers w).aborts c
  | _ => false

/-- The runtime's steps, and the abort of the process it runs in. -/
def process (c : Config V) :
    Process (HedgedRuntime V) → Action → Option (Process (HedgedRuntime V)) :=
  Process.step (step c) (aborts c)

/-- The process aborts with the last of the actions `acts`. -/
def Aborts (c : Config V) (acts : List Action) : Prop :=
  ∃ s₀, new c = some (.ok s₀) ∧ StepRun.run (process c) (.running s₀) acts = some .aborted

def Action.isCall : Action → Bool
  | .call _ => true
  | _ => false

/-- Fewer than `2 ^ 62` calls of `read`. -/
def FewReads (acts : List Action) : Prop := acts.countP Action.isCall < 2 ^ 62

instance (acts : List Action) : Decidable (FewReads acts) := inferInstanceAs (Decidable (_ < _))

end HedgedRuntime

end Tailslayer
