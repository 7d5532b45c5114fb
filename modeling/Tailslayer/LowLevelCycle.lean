import Tailslayer.LowLevel
import Tailslayer.StorageRefine

/-!
# The life cycle of `LinuxHedgedReader`

What a reader is for is a `Phase`: a bounded list is filled, workers run on it,
they are joined.  `Phase.next` and `Phase.answer` are the calls on it, and
`LifeCycle s` says that the calls, the contents and the workers of a session are
those of its phase.  The proof is in `LowLevelLife`.
-/

namespace Tailslayer

open Word

variable {V : Type}

/-! ## Phases -/

inductive Phase (V : Type) (capacity : Nat) where
  | filling (l : BoundedList V capacity)
  | running (l : BoundedList V capacity)
  | joined (l : BoundedList V capacity)

namespace Phase

variable {capacity : Nat}

def items : Phase V capacity → List V
  | .filling l | .running l | .joined l => l.items

def started : Phase V capacity → Bool
  | .filling _ => false
  | .running _ | .joined _ => true

def isJoined : Phase V capacity → Bool
  | .filling _ | .running _ => false
  | .joined _ => true

theorem started_of_isJoined {p : Phase V capacity} (h : p.isJoined = true) : p.started = true := by
  cases p with
  | joined l => rfl
  | _ => cases h

/-- The phase after a call has returned. -/
def next : Phase V capacity → ReaderCall V → Phase V capacity
  | .filling l, .insert value => .filling (l.append [value])
  | .filling l, .extendFromSlice values => .filling (l.append values)
  | .filling l, .startWorkers => .running l
  | .filling l, .join => .filling l
  | .running l, .join => .joined l
  | .running l, _ => .running l
  | .joined l, _ => .joined l

def startedError : Error :=
  .invalidConfig "cannot modify or restart LinuxHedgedReader after workers have started"

/-- What a call returns, if `panics` of the workers panicked. -/
def answer (panics : Nat) : Phase V capacity → ReaderCall V → Result Unit
  | .filling l, .insert _ =>
    if l.items.length < capacity then .ok ()
    else .error (.capacityExceeded l.items.length capacity)
  | .filling l, .extendFromSlice values =>
    if values.length ≤ capacity - l.items.length then .ok ()
    else .error (.capacityExceeded capacity capacity)
  | .filling _, .startWorkers | .filling _, .join => .ok ()
  | .running _, .join => if panics = 0 then .ok () else .error (.workerPanicked panics)
  | .joined _, .join => .ok ()
  | .running _, _ | .joined _, _ => .error startedError

/-- Each call returned the answer of its phase. -/
def Answers (panics : Nat) : Phase V capacity → List (ReaderCall V × Result Unit) → Prop
  | _, [] => True
  | p, (call, result) :: rest => result = p.answer panics call ∧ (p.next call).Answers panics rest

/-- The phase after the calls that have returned. -/
def after (p : Phase V capacity) (returned : List (ReaderCall V × Result Unit)) :
    Phase V capacity := returned.foldl (fun p e => p.next e.1) p

@[simp] theorem after_nil (p : Phase V capacity) : p.after [] = p := rfl

@[simp] theorem after_cons (p : Phase V capacity) (e : ReaderCall V × Result Unit)
    (es : List (ReaderCall V × Result Unit)) : p.after (e :: es) = (p.next e.1).after es := rfl

theorem after_concat (p : Phase V capacity) (es : List (ReaderCall V × Result Unit))
    (e : ReaderCall V × Result Unit) : p.after (es ++ [e]) = (p.after es).next e.1 := by
  simp [after]

theorem answers_concat {panics : Nat} {call : ReaderCall V} {result : Result Unit} :
    ∀ {es : List (ReaderCall V × Result Unit)} {p : Phase V capacity}, p.Answers panics es →
      result = (p.after es).answer panics call → p.Answers panics (es ++ [(call, result)]) := by
  intro es
  induction es with
  | nil =>
    intro p _ hr
    exact ⟨hr, trivial⟩
  | cons e es ih =>
    intro p h hr
    exact ⟨h.1, ih h.2 hr⟩

theorem after_joined (es : List (ReaderCall V × Result Unit)) (l : BoundedList V capacity) :
    (joined l).after es = joined l := by
  induction es with
  | nil => rfl
  | cons e es ih =>
    rw [after_cons, show (joined l).next e.1 = joined l from rfl, ih]

/-- The count matters only for the first join after the start. -/
theorem answer_congr {panics panics' : Nat} {p : Phase V capacity} {call : ReaderCall V}
    (h : (p.next call).isJoined = false) : p.answer panics call = p.answer panics' call := by
  cases p with
  | filling l => cases call <;> rfl
  | running l =>
    cases call with
    | join => cases h
    | _ => rfl
  | joined l => cases call <;> rfl

theorem isJoined_after {p : Phase V capacity} (h : p.isJoined = true)
    (es : List (ReaderCall V × Result Unit)) : (p.after es).isJoined = true := by
  cases p with
  | joined l =>
    rw [after_joined]
    rfl
  | _ => cases h

theorem answers_congr {panics panics' : Nat} :
    ∀ {es : List (ReaderCall V × Result Unit)} {p : Phase V capacity},
      (p.after es).isJoined = false → p.Answers panics es → p.Answers panics' es := by
  intro es
  induction es with
  | nil => intro p _ _; trivial
  | cons e es ih =>
    intro p hj h
    have hnext : (p.next e.1).isJoined = false := by
      by_contra hne
      rw [after_cons, isJoined_after (p := p.next e.1) (by simpa using hne)] at hj
      cases hj
    exact ⟨h.1.trans (answer_congr hnext), ih hj h.2⟩

end Phase

/-! ## What a session should have come to -/

/-- What is still to come of a thread. -/
def CallbackPc.stepsLeft : CallbackPc → Nat
  | .pinning => 4
  | .waitWork => 3
  | .reading _ => 2
  | .finalWork => 1
  | .returned | .panicked | .faulted => 0

/-- A worker on the contents `xs` calls `wait_work` once, and `final_work` once
with the element asked for; if there is none it panics instead. -/
structure CallbackWorker.ServesOnce (xs : List V) (wk : CallbackWorker V) : Prop where
  waits : wk.waitCalls ≤ 1
  finals : wk.finalCalls = [] ∨ ∃ i, ∃ h : i < xs.length,
    wk.waited = some (.returned i) ∧ wk.finalCalls = [xs[i]]
  ended : wk.pc.joined ≠ none → wk.waitCalls = 1 ∧ wk.waited ≠ none ∧
    (∀ i (h : i < xs.length), wk.waited = some (.returned i) → wk.finalCalls = [xs[i]]) ∧
    ((∀ i, wk.waited = some (.returned i) → xs.length ≤ i) →
      wk.finalCalls = [] ∧ wk.pc = .panicked)
  mapped : wk.pc ≠ .faulted

namespace ReaderSession

def phase (capacity : Nat) (s : ReaderSession V) : Phase V capacity :=
  (Phase.filling .empty).after s.returned

/-- How many workers have panicked. -/
def panics (s : ReaderSession V) : Nat := s.threads.countP (·.pc.joined == some true)

/-- A session does what its phase says. -/
structure LifeCycle (host : Host) (capacity : Nat) (s : ReaderSession V) : Prop where
  contents : s.reader.buffer.Holds (s.phase capacity).items
  answers : (Phase.filling .empty : Phase V capacity).Answers s.panics s.returned
  /-- until the start a call that fills the reader returns at once -/
  fills : (s.phase capacity).started = false → s.owner = .idle → ∀ call, call ≠ .startWorkers →
    call ≠ .join → ∃ s', s.step host (.call call) = some s' ∧ s'.owner = .idle ∧
    s'.returned = s.returned ++ [(call, (s.phase capacity).answer s.panics call)]
  /-- once started, all calls but `join` are refused without effect -/
  refused : (s.phase capacity).started = true → s.owner = .idle → ∀ call, call ≠ .join →
    s.step host (.call call) =
      some { s with returned := s.returned ++ [(call, .error Phase.startedError)] }
  /-- no worker before the start, and one for each replica after it -/
  spawned : (s.phase capacity).started = false → (∀ replica, s.owner ≠ .starting replica) →
    s.threads = []
  spawned_each : (s.phase capacity).started = true →
    s.threads.length = s.reader.buffer.replicas ∧
    ∀ w wk, s.threads[w]? = some wk → s.reader.workerCores[w]? = some wk.core ∧
      s.reader.buffer.replicaBasePtr w = .ok wk.replicaBase
  serves : ∀ wk ∈ s.threads, wk.ServesOnce (s.phase capacity).items
  /-- a worker that has not ended gets on, whatever the callbacks do -/
  goes_on : ∀ w wk, s.threads[w]? = some wk → wk.pc.joined = none → ∀ waited finished,
    ∃ event ∈ [.run, .waitWork waited, .finalWork finished], ∃ s' wk',
      s.step host (.worker w event) = some s' ∧ s'.threads[w]? = some wk' ∧
      wk'.pc.stepsLeft < wk.pc.stepsLeft
  /-- `start_workers` returns -/
  starts : ∀ replica, s.owner = .starting replica → ∃ n s',
    StepRun.run (step host) s (List.replicate n .spawn) = some s' ∧ s'.owner = .idle ∧
    s'.returned = s.returned ++ [(.startWorkers, .ok ())]
  /-- `join` returns once the workers have ended -/
  joins : ∀ panicCount, s.owner = .joining panicCount →
    (∀ wk ∈ s.threads, wk.pc.joined ≠ none) → ∃ n s',
    StepRun.run (step host) s (List.replicate n .join) = some s' ∧ s'.owner = .idle ∧
    s'.returned = s.returned ++ [(.join, (s.phase capacity).answer s.panics .join)]
  /-- a worker outlives neither a join nor the buffer -/
  ended : (s.phase capacity).isJoined = true ∨ s.owner = .dropped →
    ∀ wk ∈ s.threads, wk.pc.joined ≠ none

end ReaderSession

end Tailslayer
