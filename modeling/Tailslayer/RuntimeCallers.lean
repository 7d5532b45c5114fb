import Mathlib.Data.Finset.Insert
import Mathlib.Data.Finset.Erase
import Tailslayer.Pool.Fair
import Tailslayer.RuntimeRead

/-!
# Many callers

Source: `src/runtime.rs`, `read` called by any number of threads.

The crate's `HedgedRuntime` is neither `Send` nor `Sync`, since its storage holds a raw
pointer; so a safe program has one caller, whose runs are those of `HedgedRuntime`.  The
callers here share the runtime through a wrapper that asserts `Sync` with
`unsafe impl`.  For them `read` takes `&self` and `request_lock`.

`HedgedRuntime` has room for one call past the lock.  Here every thread has its
own call, `request_lock` is a word of its own, and a caller that has its result
still holds the guard until it returns.  A thread that holds the lock makes the
accesses of `HedgedRuntime` with its own program point.

Every run is a run of `HedgedRuntime` once the calls that wait and the guards that
are still held are forgotten (`Callers.step_refines`).
-/

namespace Tailslayer

variable {V : Type}

/-- A thread's call of `read`. -/
inductive CallPc (V : Type) where
  | outside
  /-- in `request_guard` -/
  | locking (index : Nat)
  | reading (pc : ReadPc)
  /-- before `_guard` is dropped -/
  | unlocking (result : ReadResult V)

structure Callers (V : Type) where
  /-- all but the calls; its own `reader` is not used -/
  runtime : HedgedRuntime V
  /-- who holds `request_lock` -/
  holder : Option Nat
  calls : Nat → CallPc V
  /-- who borrows the runtime; `drop` needs it for itself -/
  inside : Finset Nat
  /-- what was returned to whom, oldest first -/
  log : List (Nat × ReadResult V)

namespace Callers

open HedgedRuntime

/-- The call of thread `t` goes on to `pc`. -/
def setCall (s : Callers V) (t : Nat) (pc : CallPc V) : Callers V :=
  { s with calls := Function.update s.calls t pc }

/-- Thread `t` returns from `read`. -/
def leave (s : Callers V) (t : Nat) (result : ReadResult V) : Callers V :=
  { s.setCall t .outside with
    inside := s.inside.erase t
    log := s.log ++ [(t, result)] }

/-- Thread `t` calls `read(index)` through the wrapper that shares the runtime. -/
def enter (c : Config V) (s : Callers V) (t index : Nat) : Option (Callers V) :=
  match s.calls t with
  | .outside =>
    if s.runtime.owner ≠ .serving then none
    else if c.buffer.len ≤ index then
      let result := ⟨index, .error (.outOfBounds index c.buffer.len)⟩
      some { s with
        runtime := { s.runtime with returned := s.runtime.returned ++ [result] }
        log := s.log ++ [(t, result)] }
    else some { s.setCall t (.locking index) with inside := insert t s.inside }
  | _ => none

def lock (s : Callers V) (t : Nat) : Option (Callers V) :=
  match s.calls t with
  | .locking index =>
    if s.holder = none then some { s.setCall t (.reading (.locked index)) with holder := some t }
    else none
  | _ => none

/-- What a call that has come to `pc` does next; the last result is its own. -/
def after (pc : ReadPc) (returned : List (ReadResult V)) : CallPc V :=
  if pc = .idle then
    match returned.getLast? with
    | none => .outside
    | some result => .unlocking result
  else .reading pc

/-- An access of thread `t` between its lock and its result. -/
def access (next : HedgedRuntime V → Option (HedgedRuntime V)) (s : Callers V) (t : Nat) :
    Option (Callers V) :=
  match s.calls t with
  | .reading pc =>
    match next { s.runtime with reader := pc } with
    | none => none
    | some runtime =>
      some { s.setCall t (after runtime.reader runtime.returned) with
        runtime := { runtime with reader := .idle } }
  | _ => none

def unlock (s : Callers V) (t : Nat) : Option (Callers V) :=
  match s.calls t with
  | .unlocking result => some { s.leave t result with holder := none }
  | _ => none

/-- The owner and the workers. -/
def other (next : HedgedRuntime V → Option (HedgedRuntime V)) (s : Callers V) :
    Option (Callers V) :=
  match next s.runtime with
  | none => none
  | some runtime => some { s with runtime := runtime }

def beginDrop (s : Callers V) : Option (Callers V) :=
  if s.inside = ∅ then s.other HedgedRuntime.beginDrop else none

inductive Action where
  | enter (t index : Nat)
  | lock (t : Nat)
  | storeIndex (t : Nat)
  | storeState (t : Nat)
  | read (t : Nat)
  | unlock (t : Nat)
  | new
  | spawnFails
  | unwind
  | worker (w : Nat)
  | beginDrop
  | drop

def step (c : Config V) (s : Callers V) : Action → Option (Callers V)
  | .enter t index => s.enter c t index
  | .lock t => s.lock t
  | .storeIndex t => s.access HedgedRuntime.storeIndex t
  | .storeState t => s.access HedgedRuntime.storeState t
  | .read t => s.access HedgedRuntime.readStep t
  | .unlock t => s.unlock t
  | .new => s.other (HedgedRuntime.newStep c)
  | .spawnFails => s.other (HedgedRuntime.spawnFails c)
  | .unwind => s.other HedgedRuntime.unwind
  | .worker w => s.other fun runtime => runtime.workerStep c w
  | .beginDrop => s.beginDrop
  | .drop => s.other (HedgedRuntime.dropStep c)

/-- Nobody calls yet. -/
def start (runtime : HedgedRuntime V) : Callers V where
  runtime := runtime
  holder := none
  calls := fun _ => .outside
  inside := ∅
  log := []

def Reaches (c : Config V) (acts : List Action) (s : Callers V) : Prop :=
  ∃ s₀, HedgedRuntime.new c = some (.ok s₀) ∧ StepRun.run (step c) (start s₀) acts = some s

end Callers

/-! ## The call that holds the lock -/

/-- Index of the call. -/
def ReadPc.asked : ReadPc → List Nat
  | .idle => []
  | .locked index | .publishing index _ _ _ | .checkShutdown index _ | .checkWinner index _
  | .beginRead index _ | .endRead index _ => [index]

def CallPc.asked : CallPc V → List Nat
  | .outside => []
  | .locking index => [index]
  | .reading pc => pc.asked
  | .unlocking result => [result.index]

def CallPc.reader : CallPc V → ReadPc
  | .reading pc => pc
  | _ => .idle

def CallPc.result : CallPc V → List (ReadResult V)
  | .unlocking result => [result]
  | _ => []

/-- Past the lock. -/
def CallPc.Holds : CallPc V → Prop
  | .reading _ | .unlocking _ => True
  | _ => False

namespace Callers

open Fair HedgedRuntime

/-- The call of the thread that holds the lock. -/
def held (s : Callers V) : CallPc V :=
  match s.holder with
  | none => .outside
  | some t => s.calls t

/-- The runtime as its one call past the lock sees it. -/
def single (s : Callers V) : HedgedRuntime V := { s.runtime with reader := s.held.reader }

/-- What an action is for `single`; waiting and unlocking are nothing. -/
def absorb (c : Config V) (s : Callers V) : Action → Option HedgedRuntime.Action
  | .enter _ index => if c.buffer.len ≤ index then some (.call index) else none
  | .lock t =>
    match s.calls t with
    | .locking index => some (.call index)
    | _ => none
  | .storeIndex _ => some .storeIndex
  | .storeState _ => some .storeState
  | .read _ => some .read
  | .unlock _ => none
  | .new => some .new
  | .spawnFails => some .spawnFails
  | .unwind => some .unwind
  | .worker w => some (.worker w)
  | .beginDrop => some .beginDrop
  | .drop => some .drop

structure CallersInv (c : Config V) (s : Callers V) : Prop where
  idle : s.runtime.reader = .idle
  inside : ∀ t, t ∈ s.inside ↔ s.calls t ≠ .outside
  holds : ∀ t, (s.calls t).Holds ↔ s.holder = some t
  busy : ∀ t, s.calls t ≠ .reading .idle
  in_range : ∀ t index, s.calls t = .locking index → index < c.buffer.len
  serving : ∀ t, s.calls t ≠ .outside → s.runtime.owner = .serving
  results : s.runtime.returned.Perm (s.log.map Prod.snd ++ s.held.result)

/-! ## Accesses of the runtime -/

/-- An access of a call: the call goes on, or it has its result. -/
def CallAccess (next : HedgedRuntime V → Option (HedgedRuntime V)) : Prop :=
  ∀ s s', next s = some s' → s'.owner = s.owner ∧
    (s'.reader ≠ .idle ∧ s'.returned = s.returned ∧ s'.reader.asked = s.reader.asked ∨
      s'.reader = .idle ∧ ∃ result, s'.returned = s.returned ++ [result] ∧
        s.reader.asked = [result.index])

theorem callAccess_storeIndex : CallAccess (HedgedRuntime.storeIndex (V := V)) := by
  intro s s' hs
  unfold HedgedRuntime.storeIndex at hs
  split at hs
  · next hpc =>
    cases hs
    exact ⟨rfl, Or.inl ⟨nofun, rfl, by rw [hpc]; rfl⟩⟩
  · cases hs

theorem callAccess_storeState : CallAccess (HedgedRuntime.storeState (V := V)) := by
  intro s s' hs
  unfold HedgedRuntime.storeState at hs
  split at hs
  · next hpc =>
    cases hs
    exact ⟨rfl, Or.inl ⟨nofun, rfl, by rw [hpc]; rfl⟩⟩
  · cases hs

theorem callAccess_readStep : CallAccess (HedgedRuntime.readStep (V := V)) := by
  intro s s' hs
  unfold HedgedRuntime.readStep at hs
  cases hpc : s.reader with
  | idle =>
    rw [hpc] at hs
    cases hs
  | locked | beginRead =>
    rw [hpc] at hs
    cases hs
    exact ⟨rfl, Or.inl ⟨nofun, rfl, rfl⟩⟩
  | publishing =>
    rw [hpc] at hs
    dsimp only at hs
    split at hs
    · cases hs
      exact ⟨rfl, Or.inl ⟨nofun, rfl, rfl⟩⟩
    · cases hs
  | checkShutdown =>
    rw [hpc] at hs
    dsimp only at hs
    split at hs
    · cases hs
      exact ⟨rfl, Or.inr ⟨rfl, _, rfl, rfl⟩⟩
    · cases hs
      exact ⟨rfl, Or.inl ⟨nofun, rfl, rfl⟩⟩
  | checkWinner =>
    rw [hpc] at hs
    dsimp only at hs
    split at hs
    · cases hs
      exact ⟨rfl, Or.inl ⟨nofun, rfl, rfl⟩⟩
    · cases hs
      exact ⟨rfl, Or.inl ⟨nofun, rfl, rfl⟩⟩
  | endRead =>
    rw [hpc] at hs
    cases hs
    exact ⟨rfl, Or.inr ⟨rfl, _, rfl, rfl⟩⟩

/-- An access of the owner or a worker: no call matters to it. -/
structure OtherAccess (next : HedgedRuntime V → Option (HedgedRuntime V)) : Prop where
  reader : ∀ s pc, next { s with reader := pc } = (next s).map fun s' => { s' with reader := pc }
  frame : ∀ s s', next s = some s' → s'.reader = s.reader ∧ s'.returned = s.returned ∧
    (s.owner = .serving → s'.owner = .serving)

theorem otherAccess_worker (c : Config V) (w : Nat) :
    OtherAccess fun s : HedgedRuntime V => s.workerStep c w where
  reader := by
    intro s pc
    unfold HedgedRuntime.workerStep
    cases (s.workers w).step c s.mapped s.state <;> rfl
  frame := by
    intro s s' hs
    obtain ⟨state, wk, -, rfl⟩ := workerStep_cases hs
    exact ⟨rfl, rfl, id⟩

theorem otherAccess_newStep (c : Config V) : OtherAccess (HedgedRuntime.newStep c) where
  reader := by
    intro s pc
    unfold HedgedRuntime.newStep
    cases s.owner with
    | spawning replica =>
      dsimp only
      split
      · cases c.buffer.replicaBasePtr replica with
        | error => rfl
        | ok => cases cpuOf c replica <;> rfl
      · rfl
    | _ => rfl
  frame := by
    intro s s' hs
    unfold HedgedRuntime.newStep at hs
    split at hs
    · next ho =>
      have hno : s.owner ≠ .serving := by simp [ho]
      repeat' split at hs
      all_goals
        cases hs
        exact ⟨rfl, rfl, fun hserve => absurd hserve hno⟩
    · cases hs

theorem otherAccess_spawnFails (c : Config V) : OtherAccess (HedgedRuntime.spawnFails c) where
  reader := by
    intro s pc
    unfold HedgedRuntime.spawnFails
    cases s.owner with
    | spawning replica =>
      dsimp only
      split <;> rfl
    | _ => rfl
  frame := by
    intro s s' hs
    unfold HedgedRuntime.spawnFails at hs
    split at hs
    · next ho =>
      have hno : s.owner ≠ .serving := by simp [ho]
      split at hs
      all_goals cases hs <;> exact ⟨rfl, rfl, fun hserve => absurd hserve hno⟩
    · cases hs

theorem otherAccess_unwind : OtherAccess (HedgedRuntime.unwind (V := V)) where
  reader := by
    intro s pc
    unfold HedgedRuntime.unwind
    cases s.owner <;> rfl
  frame := by
    intro s s' hs
    unfold HedgedRuntime.unwind at hs
    split at hs
    · next ho =>
      cases hs
      exact ⟨rfl, rfl, fun hserve => absurd hserve (by simp [ho])⟩
    · cases hs

theorem otherAccess_dropStep (c : Config V) : OtherAccess (HedgedRuntime.dropStep c) where
  reader := by
    intro s pc
    unfold HedgedRuntime.dropStep
    cases s.owner with
    | joining replica =>
      dsimp only
      split
      · split <;> rfl
      · rfl
    | _ => rfl
  frame := by
    intro s s' hs
    unfold HedgedRuntime.dropStep at hs
    split at hs
    · next ho =>
      cases hs
      exact ⟨rfl, rfl, fun hserve => absurd hserve (by simp [ho])⟩
    · next ho =>
      have hno : s.owner ≠ .serving := by simp [ho]
      repeat' split at hs
      all_goals cases hs <;> exact ⟨rfl, rfl, fun hserve => absurd hserve hno⟩
    · cases hs

/-! ## Steps -/

section
variable {c : Config V} {s s' : Callers V} {t : Nat}

theorem setCall_self {pc : CallPc V} : (s.setCall t pc).calls t = pc := by
  simp [setCall]

theorem setCall_of_ne {pc : CallPc V} {u : Nat} (hu : u ≠ t) :
    (s.setCall t pc).calls u = s.calls u := by
  simp [setCall, hu]

/-- A property of every call, after one of them moved on. -/
theorem forall_call (P : Nat → CallPc V → Prop) {calls : Nat → CallPc V} (pc : CallPc V)
    (ht : P t pc) (h : ∀ u, u ≠ t → P u (calls u)) (u : Nat) :
    P u (Function.update calls t pc u) :=
  (Function.forall_update_iff calls P).mpr ⟨ht, h⟩ u

theorem held_of_holder (h : s.holder = some t) : s.held = s.calls t := by
  simp [held, h]

theorem single_of_held {pc : CallPc V} (h : s.held = pc) :
    s.single = { s.runtime with reader := pc.reader } := by
  rw [single, h]

theorem held_setCall (pc : CallPc V) (ht : s.holder ≠ some t) : (s.setCall t pc).held = s.held := by
  cases hh : s.holder with
  | none => simp [held, setCall, hh]
  | some u =>
    have hu : u ≠ t := by
      rintro rfl
      exact ht hh
    rw [held_of_holder (s := s.setCall t pc) hh, held_of_holder hh, setCall_of_ne hu]

section
variable (h : CallersInv c s)
include h

theorem CallersInv.not_holder (hpc : ¬ (s.calls t).Holds) : s.holder ≠ some t :=
  fun hh => hpc ((h.holds t).mpr hh)

theorem CallersInv.single_of_outside (hheld : s.held = .outside) : s.single = s.runtime := by
  rw [single_of_held hheld, CallPc.reader, ← h.idle]
  nofun

/-- A thread comes or goes without the lock. -/
theorem CallersInv.setCall {pc : CallPc V} {inside : Finset Nat} (hpc : ¬ (s.calls t).Holds)
    (hpc' : ¬ pc.Holds) (hrange : ∀ index, pc = .locking index → index < c.buffer.len)
    (hserve : pc ≠ .outside → s.runtime.owner = .serving)
    (hinside : ∀ u, u ∈ inside ↔ if u = t then pc ≠ .outside else u ∈ s.inside) :
    CallersInv c { s.setCall t pc with inside := inside } := by
  have hheld := held_setCall pc (h.not_holder hpc)
  refine ⟨h.idle, fun u => ?_, fun u => ?_, fun u => ?_, fun u => ?_, fun u => ?_, ?_⟩
  · show u ∈ inside ↔ (s.setCall t pc).calls u ≠ .outside
    rw [hinside]
    by_cases hu : u = t
    · rw [if_pos hu, hu, setCall_self]
    · rw [if_neg hu, setCall_of_ne hu]
      exact h.inside u
  · show ((s.setCall t pc).calls u).Holds ↔ s.holder = some u
    by_cases hu : u = t
    · rw [hu, setCall_self]
      exact iff_of_false hpc' (h.not_holder hpc)
    · rw [setCall_of_ne hu]
      exact h.holds u
  · refine forall_call (fun _ pc => pc ≠ .reading .idle) pc ?_ (fun u _ => h.busy u) u
    rintro rfl
    exact hpc' trivial
  · exact forall_call (fun _ pc => ∀ index, pc = .locking index → index < c.buffer.len) pc
      hrange (fun u _ => h.in_range u) u
  · exact forall_call (fun _ pc => pc ≠ .outside → s.runtime.owner = .serving) pc hserve
      (fun u _ => h.serving u) u
  · show s.runtime.returned.Perm (s.log.map Prod.snd ++ (s.setCall t pc).held.result)
    rw [hheld]
    exact h.results

theorem CallersInv.enter {index : Nat} (hs : s.enter c t index = some s') : CallersInv c s' ∧
    Moves (HedgedRuntime.step c) s.single (s.absorb c (.enter t index)) s'.single := by
  unfold Callers.enter at hs
  split at hs
  · next hout =>
    have hnot : ¬ (s.calls t).Holds := by
      rw [hout]
      exact id
    split at hs
    · cases hs
    · next hserve =>
      have hserve := not_not.mp hserve
      split at hs
      · next hge =>
        cases hs
        refine ⟨⟨h.idle, h.inside, h.holds, h.busy, h.in_range, h.serving, ?_⟩, ?_⟩
        · simp only [List.map_append, List.map_singleton, List.append_assoc]
          refine (h.results.append_right _).trans ?_
          rw [List.append_assoc]
          exact List.Perm.append_left _ List.perm_append_comm
        · simp only [absorb, if_pos hge, Moves, HedgedRuntime.step, HedgedRuntime.call]
          rw [if_neg (not_not_intro (show s.single.owner = .serving from hserve))]
          rfl
      · next hlt =>
        cases hs
        refine ⟨h.setCall hnot id (fun i hi => ?_) (fun _ => hserve) (fun u => ?_), ?_⟩
        · cases hi
          exact Nat.lt_of_not_le hlt
        · by_cases hu : u = t
          · simp [hu]
          · simp [hu]
        · simp only [absorb, if_neg hlt, Moves]
          show ({ s.runtime with reader := (s.setCall t (.locking index)).held.reader } :
            HedgedRuntime V) = s.single
          rw [held_setCall _ (h.not_holder hnot)]
          rfl
  · cases hs

/-- The thread that holds the lock, or takes it, has its call at `pc`. -/
theorem CallersInv.setHolder (s' : Callers V) (pc : CallPc V)
    (hother : ∀ u, u ≠ t → s.holder ≠ some u) (hin : s.calls t ≠ .outside) (hheld : pc.Holds)
    (hbusy : pc ≠ .reading .idle)
    (hcalls : s'.calls = Function.update s.calls t pc) (hholder : s'.holder = some t)
    (hinside : s'.inside = s.inside) (hidle : s'.runtime.reader = .idle)
    (howner : s'.runtime.owner = s.runtime.owner)
    (hresults : s'.runtime.returned.Perm (s'.log.map Prod.snd ++ pc.result)) :
    CallersInv c s' ∧ s'.held = pc := by
  have hpc : s'.held = pc := by
    rw [held_of_holder hholder, hcalls]
    exact Function.update_self t pc s.calls
  have hout : pc ≠ .outside := by
    rintro rfl
    exact hheld
  refine ⟨⟨hidle, fun u => ?_, fun u => ?_, fun u => ?_, fun u => ?_, fun u => ?_, ?_⟩, hpc⟩
  · rw [hinside, hcalls]
    exact forall_call (fun u pc => u ∈ s.inside ↔ pc ≠ .outside) pc
      (iff_of_true ((h.inside t).mpr hin) hout) (fun u _ => h.inside u) u
  · rw [hholder, hcalls]
    refine forall_call (fun u pc => pc.Holds ↔ some t = some u) pc (iff_of_true hheld rfl)
      (fun u hu => ?_) u
    rw [h.holds u]
    exact iff_of_false (hother u hu) (fun he => hu (Option.some.inj he).symm)
  · rw [hcalls]
    exact forall_call (fun _ pc => pc ≠ .reading .idle) pc hbusy (fun u _ => h.busy u) u
  · rw [hcalls]
    refine forall_call (fun _ pc => ∀ index, pc = .locking index → index < c.buffer.len) pc
      (fun index hi => ?_) (fun u _ => h.in_range u) u
    rw [hi] at hheld
    exact hheld.elim
  · rw [hcalls, howner]
    exact forall_call (fun _ pc => pc ≠ .outside → s.runtime.owner = .serving) pc
      (fun _ => h.serving t hin) (fun u _ => h.serving u) u
  · rw [hpc]
    exact hresults

theorem CallersInv.lock (hs : s.lock t = some s') : CallersInv c s' ∧
    Moves (HedgedRuntime.step c) s.single (s.absorb c (.lock t)) s'.single := by
  unfold Callers.lock at hs
  split at hs
  · next index hpc =>
    split at hs
    · next hfree =>
      cases hs
      have hserve := h.serving t (by simp [hpc])
      have hlt := h.in_range t index hpc
      have hnone : s.held = .outside := by simp [held, hfree]
      obtain ⟨hinv, hheld⟩ := h.setHolder (t := t)
        { s.setCall t (.reading (.locked index)) with holder := some t } (.reading (.locked index))
        (fun u _ => by simp [hfree]) (by simp [hpc]) trivial nofun rfl rfl rfl h.idle rfl
        (by simpa [hnone, CallPc.result, Callers.setCall] using h.results)
      refine ⟨hinv, ?_⟩
      have hidle : s.single.reader = .idle := by simp [single, hnone, CallPc.reader]
      simp only [absorb, hpc, Moves, HedgedRuntime.step, HedgedRuntime.call]
      rw [if_neg (not_not_intro (show s.single.owner = .serving from hserve)),
        if_neg (Nat.not_le.mpr hlt), if_pos hidle]
      exact congrArg some (single_of_held hheld).symm
    · cases hs
  · cases hs

theorem CallersInv.access {next : HedgedRuntime V → Option (HedgedRuntime V)}
    (hnext : CallAccess next) (hs : s.access next t = some s') : CallersInv c s' ∧
      next s.single = some s'.single ∧ s'.holder = s.holder ∧ s'.log = s.log ∧
      ∀ u, (s'.calls u).asked = (s.calls u).asked := by
  unfold Callers.access at hs
  split at hs
  · next pc hpc =>
    split at hs
    · cases hs
    · next runtime hrun =>
      have hholder : s.holder = some t := (h.holds t).mp (by rw [hpc]; trivial)
      have hheld : s.held = .reading pc := (held_of_holder hholder).trans hpc
      have hperm : s.runtime.returned.Perm (s.log.map Prod.snd) := by
        simpa [hheld, CallPc.result] using h.results
      obtain ⟨howner, hcase⟩ := hnext _ _ hrun
      -- where the call goes on, and that the results are still those of the log
      obtain ⟨pc', hafter, hin, hbusy, hreader, hasked, hres⟩ : ∃ pc', after runtime.reader
          runtime.returned = pc' ∧ pc'.Holds ∧ pc' ≠ .reading .idle ∧
          pc'.reader = runtime.reader ∧ pc'.asked = pc.asked ∧
          runtime.returned.Perm (s.log.map Prod.snd ++ pc'.result) := by
        rcases hcase with ⟨hbusy, hret, hasked⟩ | ⟨hidle, result, hret, hasked⟩
        · refine ⟨.reading runtime.reader, if_neg hbusy, trivial,
            fun he => hbusy (CallPc.reading.inj he), rfl, hasked, ?_⟩
          rw [hret]
          simpa [CallPc.result] using hperm
        · refine ⟨.unlocking result, ?_, trivial, nofun, hidle.symm, hasked.symm, ?_⟩
          · rw [after, if_pos hidle, hret, List.getLast?_append]
            rfl
          · rw [hret]
            exact hperm.append_right [result]
      rw [hafter] at hs
      cases hs
      obtain ⟨hinv, hheld'⟩ := h.setHolder (t := t)
        { s.setCall t pc' with runtime := { runtime with reader := .idle } } pc'
        (fun u hu => by rw [hholder]; exact fun he => hu (Option.some.inj he).symm)
        (by simp [hpc]) hin hbusy rfl hholder rfl rfl howner hres
      refine ⟨hinv, ?_, rfl, rfl, ?_⟩
      · rw [single_of_held hheld, single_of_held hheld', hreader]
        exact hrun
      · refine forall_call (fun u pc => pc.asked = (s.calls u).asked) pc' ?_ fun u _ => rfl
        rw [hpc]
        exact hasked
  · cases hs

theorem CallersInv.unlock (hs : s.unlock t = some s') : CallersInv c s' ∧
    s'.single = s.single ∧ ∃ result, s.calls t = .unlocking result ∧
      s'.log = s.log ++ [(t, result)] ∧ s'.calls = Function.update s.calls t .outside ∧
      s'.inside = s.inside.erase t ∧ s'.holder = none := by
  unfold Callers.unlock at hs
  split at hs
  · next result hpc =>
    cases hs
    have hholder : s.holder = some t := (h.holds t).mp (by rw [hpc]; trivial)
    have hheld : s.held = .unlocking result := (held_of_holder hholder).trans hpc
    have hperm := h.results
    rw [hheld] at hperm
    refine ⟨⟨h.idle, fun u => ?_, fun u => ?_, fun u => ?_, fun u => ?_, fun u => ?_, ?_⟩, ?_,
      result, hpc, rfl, rfl, rfl, rfl⟩
    · refine forall_call (fun u pc => u ∈ s.inside.erase t ↔ pc ≠ .outside) .outside
        (by simp) (fun u hu => ?_) u
      rw [Finset.mem_erase, h.inside u]
      exact and_iff_right hu
    · refine forall_call (fun u pc => pc.Holds ↔ (none : Option Nat) = some u) .outside
        (iff_of_false id nofun) (fun u hu => ?_) u
      rw [h.holds u, hholder]
      exact iff_of_false (fun he => hu (Option.some.inj he).symm) nofun
    · exact forall_call (fun _ pc => pc ≠ .reading .idle) .outside nofun (fun u _ => h.busy u) u
    · exact forall_call (fun _ pc => ∀ index, pc = .locking index → index < c.buffer.len) .outside
        (fun _ he => by cases he) (fun u _ => h.in_range u) u
    · exact forall_call (fun _ pc => pc ≠ .outside → s.runtime.owner = .serving) .outside
        (fun hne => absurd rfl hne) (fun u _ => h.serving u) u
    · show s.runtime.returned.Perm ((s.log ++ [(t, result)]).map Prod.snd ++ [])
      simpa [CallPc.result] using hperm
    · rw [single_of_held hheld]
      rfl
  · cases hs

theorem CallersInv.other {next : HedgedRuntime V → Option (HedgedRuntime V)}
    (hnext : OtherAccess next) (hs : s.other next = some s') : CallersInv c s' ∧
      next s.single = some s'.single ∧ s'.holder = s.holder ∧ s'.calls = s.calls ∧
      s'.inside = s.inside ∧ s'.log = s.log := by
  unfold Callers.other at hs
  split at hs
  · cases hs
  · next runtime hrun =>
    cases hs
    obtain ⟨hreader, hret, hserve⟩ := hnext.frame _ _ hrun
    refine ⟨⟨hreader.trans h.idle, h.inside, h.holds, h.busy, h.in_range,
      fun u hu => hserve (h.serving u hu), hret ▸ h.results⟩, ?_, rfl, rfl, rfl, rfl⟩
    rw [single, hnext.reader, hrun]
    rfl

theorem CallersInv.beginDrop (hs : s.beginDrop = some s') : CallersInv c s' ∧
    s.single.beginDrop = some s'.single ∧ s'.holder = s.holder ∧ s'.calls = s.calls ∧
      s'.inside = s.inside ∧ s'.log = s.log := by
  unfold Callers.beginDrop at hs
  split at hs
  · next hempty =>
    have hout : ∀ t, s.calls t = .outside := by
      intro t
      by_contra hne
      have hmem := (h.inside t).mpr hne
      rw [hempty] at hmem
      exact absurd hmem (Finset.notMem_empty t)
    have hheld : s.held = .outside := by
      cases hh : s.holder with
      | none => simp [held, hh]
      | some t => rw [held_of_holder hh, hout t]
    unfold Callers.other at hs
    split at hs
    · cases hs
    · next runtime hrun =>
      cases hs
      have hinv : CallersInv c { s with runtime := runtime } := by
        unfold HedgedRuntime.beginDrop at hrun
        split at hrun
        · cases hrun
          exact ⟨h.idle, h.inside, h.holds, h.busy, h.in_range,
            fun u hu => absurd (hout u) hu, h.results⟩
        · cases hrun
      refine ⟨hinv, ?_, rfl, rfl, rfl, rfl⟩
      rw [h.single_of_outside hheld, hinv.single_of_outside hheld]
      exact hrun
  · cases hs

end

end

end Callers

end Tailslayer
