import Tailslayer.Pool.Fair
import Tailslayer.Pinning
import Tailslayer.RuntimeProgress

/-!
# A staffed runtime

`new` returns a runtime with a worker for every replica (`Staffed`); one of them
is of use if it can be pinned (`Pins`).

An `Agent` is who may be scheduled.  Whatever a runtime has done, it can go on on
a path that is fair to all of them (`exists_fair_path`).
-/

namespace Tailslayer

open Fair

variable {V : Type}

/-- All ids are those of CPUs that a set can name. -/
def Config.Pinnable (c : Config V) : Prop :=
  ∀ cpus, c.cpuPinning = .exact cpus → ∀ cpu ∈ cpus, cpu < 1024

/-- Worker `w` exists and can be pinned. -/
def Config.Pins (c : Config V) (w : Nat) : Prop :=
  w < c.buffer.replicas ∧ ∀ cpus, c.cpuPinning = .exact cpus → ∀ cpu, cpus[w]? = some cpu →
    cpu < 1024

theorem Config.Pinnable.pins {c : Config V} (h : c.Pinnable) {w : Nat}
    (hw : w < c.buffer.replicas) : c.Pins w :=
  ⟨hw, fun cpus hp cpu hget => h cpus hp cpu (List.mem_of_getElem? hget)⟩

namespace HedgedRuntime

/-! ## Every worker is there -/

/-- `new` has returned. -/
def Opened : Owner → Prop
  | .serving | .closing | .joining _ | .dropped => True
  | _ => False

structure Staffed (c : Config V) (s : HedgedRuntime V) : Prop where
  spawn : SpawnInv c 0 s
  staffed : Opened s.owner → ∀ w, w < c.buffer.replicas → (s.workers w).pc ≠ .unspawned

section
variable {c : Config V} {s s' : HedgedRuntime V}

/-- Once spawned, always spawned. -/
theorem spawned_step {a : Action} (hs : s.step c a = some s') {w : Nat}
    (h : (s.workers w).pc ≠ .unspawned) : (s'.workers w).pc ≠ .unspawned := by
  cases a with
  | worker w' =>
    obtain ⟨state, wk, hstep, rfl⟩ := workerStep_cases hs
    by_cases hw : w = w'
    · subst hw
      rw [setWorker_self]
      exact (Worker.step_pc hstep).2.1
    · rw [setWorker_of_ne hw]
      exact h
  | new =>
    simp only [HedgedRuntime.step, HedgedRuntime.newStep] at hs
    split at hs
    · split at hs
      · split at hs
        · cases hs
          exact forall_worker (fun w' wk => w' = w → wk.pc ≠ .unspawned) (fun _ => by simp)
            (fun w' _ he => he ▸ h) w rfl
        · cases hs
          exact h
      · cases hs
        exact h
    · cases hs
  | spawnFails =>
    simp only [HedgedRuntime.step, HedgedRuntime.spawnFails] at hs
    repeat' split at hs
    all_goals cases hs <;> exact h
  | unwind =>
    simp only [HedgedRuntime.step, HedgedRuntime.unwind] at hs
    split at hs
    all_goals cases hs <;> exact h
  | call index =>
    simp only [HedgedRuntime.step, HedgedRuntime.call] at hs
    repeat' split at hs
    all_goals cases hs <;> exact h
  | storeIndex =>
    simp only [HedgedRuntime.step, HedgedRuntime.storeIndex] at hs
    split at hs
    all_goals cases hs <;> exact h
  | storeState =>
    simp only [HedgedRuntime.step, HedgedRuntime.storeState] at hs
    split at hs
    all_goals cases hs <;> exact h
  | read =>
    simp only [HedgedRuntime.step, HedgedRuntime.readStep] at hs
    repeat' split at hs
    all_goals cases hs <;> exact h
  | beginDrop =>
    simp only [HedgedRuntime.step, HedgedRuntime.beginDrop] at hs
    split at hs
    all_goals cases hs <;> exact h
  | drop =>
    simp only [HedgedRuntime.step, HedgedRuntime.dropStep] at hs
    repeat' split at hs
    all_goals cases hs <;> exact h

/-- A step that opens the runtime is the last one of `new`. -/
theorem opened_step {a : Action} (hs : s.step c a = some s') (hopen : Opened s'.owner) :
    Opened s.owner ∨ ∃ k, s.owner = .spawning k ∧ c.buffer.replicas ≤ k := by
  cases a with
  | worker w =>
    obtain ⟨state, wk, -, rfl⟩ := workerStep_cases hs
    exact Or.inl hopen
  | new =>
    simp only [HedgedRuntime.step, HedgedRuntime.newStep] at hs
    split at hs
    · next k ho =>
      by_cases hk : k < c.buffer.replicas
      · rw [if_pos hk] at hs
        split at hs
        · cases hs
          exact hopen.elim
        · cases hs
          exact hopen.elim
      · exact Or.inr ⟨k, ho, Nat.le_of_not_lt hk⟩
    · cases hs
  | spawnFails =>
    simp only [HedgedRuntime.step, HedgedRuntime.spawnFails] at hs
    repeat' split at hs
    all_goals cases hs <;> exact hopen.elim
  | unwind =>
    simp only [HedgedRuntime.step, HedgedRuntime.unwind] at hs
    split at hs
    all_goals cases hs <;> exact hopen.elim
  | call index =>
    simp only [HedgedRuntime.step, HedgedRuntime.call] at hs
    repeat' split at hs
    all_goals cases hs <;> exact Or.inl hopen
  | storeIndex =>
    simp only [HedgedRuntime.step, HedgedRuntime.storeIndex] at hs
    split at hs
    all_goals cases hs <;> exact Or.inl hopen
  | storeState =>
    simp only [HedgedRuntime.step, HedgedRuntime.storeState] at hs
    split at hs
    all_goals cases hs <;> exact Or.inl hopen
  | read =>
    simp only [HedgedRuntime.step, HedgedRuntime.readStep] at hs
    repeat' split at hs
    all_goals cases hs <;> exact Or.inl hopen
  | beginDrop =>
    simp only [HedgedRuntime.step, HedgedRuntime.beginDrop] at hs
    split at hs
    · next hserve =>
      rw [hserve.1]
      exact Or.inl trivial
    · cases hs
  | drop =>
    simp only [HedgedRuntime.step, HedgedRuntime.dropStep] at hs
    split at hs
    · next ho =>
      rw [ho]
      exact Or.inl trivial
    · next ho =>
      rw [ho]
      exact Or.inl trivial
    · cases hs

theorem Staffed.step (h : Staffed c s) {a : Action} (hs : s.step c a = some s') :
    Staffed c s' := by
  refine ⟨h.spawn.step hs, fun hopen w hw => spawned_step hs ?_⟩
  rcases opened_step hs hopen with hop | ⟨k, ho, hk⟩
  · exact h.staffed hop w hw
  · exact h.spawn.spawned w (Or.inr ⟨k, ho, by omega⟩)

theorem Staffed.reaches {acts : List Action} (hr : Reaches c acts s) : Staffed c s := by
  obtain ⟨s₀, h0, hrun⟩ := hr
  refine StepRun.run_preserves (fun s a s' hs => Staffed.step hs) ?_ hrun
  rw [new_ok h0]
  exact ⟨spawnInv_unspawned, fun hopen => hopen.elim⟩

section
variable {w : Nat}

theorem Staffed.cpu_lt (h : Staffed c s) (hpins : c.Pins w) (hpc : (s.workers w).pc ≠ .unspawned)
    (cpu : Nat) (hid : (s.workers w).cpu = some cpu) : cpu < 1024 := by
  have hcpu := (h.spawn.workers w).cpu_eq.resolve_left hpc
  cases hp : c.cpuPinning with
  | none =>
    simp only [cpuOf, hp, hid] at hcpu
    cases hcpu
  | exact cpus =>
    rw [cpuOf_exact hp, hid, Option.map_eq_some_iff] at hcpu
    obtain ⟨cpu', hget, he⟩ := hcpu
    cases he
    exact hpins.2 cpus hp cpu hget

/-- A worker that can be pinned is in its loop or gets there. -/
theorem Staffed.at_hand (h : Staffed c s) (hpins : c.Pins w) (hopen : Opened s.owner) :
    (s.workers w).pc = .pinning ∨ EnteredLoop (s.workers w).pc := by
  have hspawned := h.staffed hopen w hpins.1
  cases hpc : (s.workers w).pc with
  | unspawned => exact absurd hpc hspawned
  | pinning => exact Or.inl rfl
  | _ => exact Or.inr trivial

end

end

/-! ## Agents and stages -/

/-- Who may be scheduled; a store becomes visible on its own. -/
inductive Agent where
  | reader
  | indexStore
  | stateStore
  | worker (w : Nat)
  | owner

def Agent.action : Agent → Action
  | .reader => .read
  | .indexStore => .storeIndex
  | .stateStore => .storeState
  | .worker w => .worker w
  | .owner => .drop

def Agent.actions (k : Agent) : Set Action := {k.action}

/-- The agents in turn. -/
def turn : Nat → Agent
  | 0 => .reader
  | 1 => .indexStore
  | 2 => .stateStore
  | 3 => .owner
  | w + 4 => .worker w

theorem exists_turn : ∀ k : Agent, ∃ n, turn n = k
  | .reader => ⟨0, rfl⟩
  | .indexStore => ⟨1, rfl⟩
  | .stateStore => ⟨2, rfl⟩
  | .owner => ⟨3, rfl⟩
  | .worker w => ⟨w + 4, rfl⟩

/-- Whatever was done so far, the threads can go on in turn. -/
theorem exists_fair_path {c : Config V} {acts : List Action} {s : HedgedRuntime V}
    (hr : Reaches c acts s) : ∃ p : Path (step c), new c = some (.ok (p.state 0)) ∧
      p.state acts.length = s ∧ ∀ k : Agent, p.WeaklyFair k.actions := by
  obtain ⟨s₀, h0, hrun⟩ := hr
  obtain ⟨p, hstart, hend, hfair⟩ := exists_fair (fun n => (turn n).action) hrun
  refine ⟨p, hstart ▸ h0, hend, fun k => ?_⟩
  obtain ⟨n, rfl⟩ := exists_turn k
  exact hfair n

end HedgedRuntime

end Tailslayer
