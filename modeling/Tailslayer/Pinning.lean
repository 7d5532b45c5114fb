import Tailslayer.LowLevelLife
import Tailslayer.RuntimeSpawn

/-!
# What pinning to a CPU can cost

`pin_to_cpu` returns its errors, and both kinds of worker ignore them.  A CPU id
from 1024 on gives no error but a panic inside `CPU_SET`, which cannot be unwound and
aborts the process: the worker, its reader and everything else.  So for every
accepted list of CPU ids

    every worker gets past pinning  ↔  all ids are below 1024    (pinning_harmless_iff)

where the default ids of the low-level reader count as a list of their own,
which keeps below 1024 up to 1013 replicas.  With an id from 1024 on the process can end
while a read waits (`pinning_aborts`).
-/

namespace Tailslayer

open Lists Word

variable {V : Type}

/-- The panic of `CPU_SET`, whatever the system says. -/
theorem pinToCpu_eq_none_iff (host : Host) (core : Nat) :
    pinToCpu host core = none ↔ 1024 ≤ core := by
  rw [← cpuSet_eq_none_iff, pinToCpu]
  split
  · next h => simp only [h]
  · next h =>
    simp only [h]
    cases host.schedSetaffinity _ <;> simp

/-! ## The runtime -/

namespace HedgedRuntime

/-- A read waits, nobody shut the runtime down, and every worker thread is over. -/
def DeadRead (c : Config V) (s : HedgedRuntime V) : Prop :=
  s.state.shutdown = false ∧
    (∃ index requestId,
      s.reader = .checkShutdown index requestId ∨ s.reader = .checkWinner index requestId) ∧
    ∀ w, w < c.buffer.replicas → Stopped (s.workers w).pc

/-- Pinning is never fatal to the process, to a worker, or to the read that waits
for it. -/
structure PinningHarmless (c : Config V) : Prop where
  lives : ∀ acts, ¬ Aborts c acts
  gets_past : ∀ acts s w, Reaches c acts s → (s.workers w).pc = .pinning →
    ∃ s', s.step c (.worker w) = some s' ∧ (s'.workers w).pc = .loopTop
  not_dead : ∀ acts s, Reaches c acts s → ¬ DeadRead c s

section
variable {c : Config V} {s s' : HedgedRuntime V}

/-- A worker that no id or a good one was given starts polling. -/
theorem pinning_passes {w : Nat} (hpc : (s.workers w).pc = .pinning)
    (hcpu : ∀ cpu, (s.workers w).cpu = some cpu → cpu < 1024) :
    ∃ s', s.step c (.worker w) = some s' ∧ (s'.workers w).pc = .loopTop := by
  have hstep : (s.workers w).step c s.mapped s.state =
      some (s.state, { s.workers w with pc := .loopTop }) := by
    cases hid : (s.workers w).cpu with
    | none => simp only [Worker.step, hpc, hid]
    | some cpu =>
      cases hpin : pinToCpu c.host cpu with
      | none =>
        have := (pinToCpu_eq_none_iff c.host cpu).mp hpin
        have := hcpu cpu hid
        omega
      | some result => simp only [Worker.step, hpc, hid, hpin]
  refine ⟨s.setWorker w s.state { s.workers w with pc := .loopTop }, ?_, ?_⟩
  · simp only [HedgedRuntime.step, HedgedRuntime.workerStep, hstep]
  · rw [setWorker_self]

theorem aborts_iff {a : Action} : aborts c s a = true ↔ ∃ w cpu, a = .worker w ∧
    (s.workers w).pc = .pinning ∧ (s.workers w).cpu = some cpu ∧ 1024 ≤ cpu := by
  constructor
  · intro h
    cases a with
    | worker w =>
      change (s.workers w).aborts c = true at h
      unfold Worker.aborts at h
      split at h
      · next cpu hpc hid =>
        rw [Option.isNone_iff_eq_none, pinToCpu_eq_none_iff] at h
        exact ⟨w, cpu, rfl, hpc, hid, h⟩
      · cases h
    | _ => cases h
  · rintro ⟨w, cpu, rfl, hpc, hid, hcpu⟩
    simp only [aborts, Worker.aborts, hpc, hid, (pinToCpu_eq_none_iff c.host cpu).mpr hcpu,
      Option.isNone_none]

/-- Where the process aborts, the worker has no step of its own. -/
theorem step_of_aborts {a : Action} (h : aborts c s a = true) : s.step c a = none := by
  cases a with
  | worker w =>
    simp only [HedgedRuntime.step, HedgedRuntime.workerStep, Worker.step_of_aborts h]
  | _ => cases h

theorem aborts_cases {acts : List Action} (h : Aborts c acts) :
    ∃ before a s, acts = before ++ [a] ∧ Reaches c before s ∧ aborts c s a = true := by
  obtain ⟨s₀, h0, hrun⟩ := h
  obtain ⟨before, a, s, he, hbefore, ha⟩ :=
    (Process.run_aborted_iff fun _ _ => step_of_aborts).mp hrun
  exact ⟨before, a, s, he, ⟨s₀, h0, hbefore⟩, ha⟩

theorem aborts_concat {acts : List Action} {a : Action} (hr : Reaches c acts s)
    (ha : aborts c s a = true) : Aborts c (acts ++ [a]) := by
  obtain ⟨s₀, h0, hrun⟩ := hr
  exact ⟨s₀, h0, (Process.run_aborted_iff fun _ _ => step_of_aborts).mpr
    ⟨acts, a, s, rfl, hrun, ha⟩⟩

/-- A worker's id is one of the list. -/
theorem SpawnInv.cpu_mem (h : SpawnInv c 0 s) {w cpu : Nat}
    (hpc : (s.workers w).pc ≠ .unspawned) (hid : (s.workers w).cpu = some cpu) :
    ∃ cpus, c.cpuPinning = .exact cpus ∧ cpu ∈ cpus := by
  have hcpu := (h.workers w).cpu_eq.resolve_left hpc
  cases hp : c.cpuPinning with
  | none =>
    unfold cpuOf at hcpu
    rw [hp, hid] at hcpu
    cases hcpu
  | exact cpus =>
    rw [cpuOf_exact hp, hid, Option.map_eq_some_iff] at hcpu
    obtain ⟨cpu', hget, he⟩ := hcpu
    cases he
    exact ⟨cpus, rfl, List.mem_of_getElem? hget⟩

theorem pinningHarmless_iff {s₀ : HedgedRuntime V} (h0 : HedgedRuntime.new c = some (.ok s₀))
    (hpos : 0 < c.buffer.replicas) :
    PinningHarmless c ↔ ∀ cpus, c.cpuPinning = .exact cpus → ∀ cpu ∈ cpus, cpu < 1024 := by
  constructor
  · intro h cpus hp cpu hmem
    by_contra hge
    obtain ⟨w, hw, rfl⟩ := List.getElem_of_mem hmem
    have hlen := length_of_new h0 hp
    obtain ⟨s, hr, ho, hpc⟩ := spawning_reached h0 (w + 1) (by omega)
    have hpc := hpc w (Nat.lt_succ_self w)
    have hid := ((SpawnInv.reaches hr).workers w).cpu_eq.resolve_left (by rw [hpc]; simp)
    rw [cpuOf_exact hp, List.getElem?_eq_getElem hw] at hid
    exact h.lives _ (aborts_concat hr (aborts_iff.mpr
      ⟨w, _, rfl, hpc, (Option.some.inj hid).symm, Nat.le_of_not_lt hge⟩))
  · intro h
    have hgood : ∀ acts s w cpu, Reaches c acts s → (s.workers w).pc ≠ .unspawned →
        (s.workers w).cpu = some cpu → cpu < 1024 := fun acts s w cpu hr hpc hid => by
      obtain ⟨cpus, hp, hmem⟩ := (SpawnInv.reaches hr).cpu_mem hpc hid
      exact h cpus hp cpu hmem
    refine ⟨fun acts habort => ?_, fun acts s w hr hpc => ?_, ?_⟩
    · obtain ⟨before, a, s, -, hr, ha⟩ := aborts_cases habort
      obtain ⟨w, cpu, -, hpc, hid, hcpu⟩ := aborts_iff.mp ha
      have := hgood before s w cpu hr (by rw [hpc]; simp) hid
      omega
    · exact pinning_passes hpc fun cpu hid => hgood acts s w cpu hr (by rw [hpc]; simp) hid
    · -- a worker ends only when it is told to
      rintro acts s hr ⟨hup, -, hstop⟩
      have hstop := hstop 0 hpos
      cases hpc : (s.workers 0).pc with
      | ended =>
        have hdown := ((SpawnInv.reaches hr).workers 0).ended hpc
        rw [hup] at hdown
        cases hdown
      | _ =>
        rw [hpc] at hstop
        exact hstop.elim

end

end HedgedRuntime

/-! ## The low-level reader -/

/-- A thread of a session with these cores: still pinning, or past it. -/
structure CallbackWorker.Pinned (cores : List Nat) (wk : CallbackWorker V) : Prop where
  core_mem : wk.core ∈ cores
  fresh : wk.pc = .pinning → wk.waitCalls = 0
  waits : wk.pc ≠ .pinning → wk.waitCalls = 1

/-- Past pinning a thread has called `wait_work`, and keeps that. -/
theorem CallbackWorker.Pinned.moved {cores : List Nat} {wk wk' : CallbackWorker V}
    (h : wk.Pinned cores) (hpin : wk.pc ≠ .pinning) (hcore : wk'.core = wk.core)
    (hcalls : wk'.waitCalls = wk.waitCalls) (hpin' : wk'.pc ≠ .pinning) : wk'.Pinned cores :=
  ⟨hcore ▸ h.core_mem, fun hp => absurd hp hpin', fun _ => hcalls.trans (h.waits hpin)⟩

theorem CallbackWorker.Pinned.step {host : Host} {cores : List Nat} {memory : Option (Nat → V)}
    {wk wk' : CallbackWorker V} {event : WorkerEvent} (h : wk.Pinned cores)
    (hs : wk.step host memory event = some wk') : wk'.Pinned cores := by
  unfold CallbackWorker.step at hs
  split at hs
  · next hpc =>
    have hzero := h.fresh hpc
    split at hs
    · cases hs
    · cases hs
      exact ⟨h.core_mem, fun hp => (by cases hp), fun _ => congrArg (· + 1) hzero⟩
  · next hpc =>
    cases hs
    exact h.moved (by rw [hpc]; simp) rfl rfl (by simp)
  · next hpc =>
    split at hs
    all_goals cases hs
    all_goals exact h.moved (by rw [hpc]; simp) rfl rfl (by simp)
  · next hpc =>
    split at hs
    all_goals cases hs
    all_goals exact h.moved (by rw [hpc]; simp) rfl rfl (by simp)
  · next hpc =>
    cases hs
    exact h.moved (by rw [hpc]; simp) rfl rfl (by simp)
  · next hpc =>
    cases hs
    exact h.moved (by rw [hpc]; simp) rfl rfl (by simp)
  · cases hs

namespace ReaderSession

structure CoreInv (cores : List Nat) (s : ReaderSession V) : Prop where
  cores_eq : s.reader.workerCores = cores
  threads : ∀ wk ∈ s.threads, wk.Pinned cores

section
variable {host : Host} {cores : List Nat} {s s' : ReaderSession V}

theorem CoreInv.frame (h : CoreInv cores s)
    (hcores : s'.reader.workerCores = s.reader.workerCores) (hthreads : s'.threads = s.threads) :
    CoreInv cores s' :=
  ⟨hcores.trans h.cores_eq, hthreads ▸ h.threads⟩

theorem CoreInv.workerStep (h : CoreInv cores s) {w : Nat} {event : WorkerEvent}
    (hs : s.workerStep host w event = some s') : CoreInv cores s' := by
  obtain ⟨wk, wk', hw, hstep, rfl⟩ := workerStep_cases hs
  refine ⟨h.cores_eq, fun t ht => ?_⟩
  rcases List.mem_or_eq_of_mem_set ht with ht | rfl
  · exact h.threads t ht
  · exact (h.threads wk (List.mem_of_getElem? hw)).step hstep

theorem CoreInv.spawnStep (h : CoreInv cores s) (hs : s.spawnStep = some s') :
    CoreInv cores s' := by
  unfold ReaderSession.spawnStep at hs
  split at hs
  · next replica ho =>
    split at hs
    · cases hs
      exact h.frame rfl rfl
    · next core hcore =>
      split at hs
      · cases hs
        exact h.frame rfl rfl
      · cases hs
        refine ⟨h.cores_eq, fun t ht => ?_⟩
        rcases List.mem_append.mp ht with ht | ht
        · exact h.threads t ht
        · rw [List.mem_singleton.mp ht]
          exact ⟨h.cores_eq ▸ List.mem_of_getElem? hcore, fun _ => rfl, fun hp => absurd rfl hp⟩
  · cases hs

theorem modify_workerCores (r : LinuxHedgedReader V)
    (change : ReplicatedBuffer V → ReplicatedBuffer V × Result Unit) :
    (r.modify change).1.workerCores = r.workerCores := by
  unfold LinuxHedgedReader.modify
  split <;> rfl

theorem CoreInv.step (h : CoreInv cores s) {a : Action V} (hs : s.step host a = some s') :
    CoreInv cores s' := by
  cases a with
  | worker w event => exact h.workerStep hs
  | spawn => exact h.spawnStep hs
  | call call =>
    simp only [ReaderSession.step, ReaderSession.call] at hs
    split at hs
    · cases hs
    · cases call with
      | insert value =>
        cases hs
        exact h.frame (modify_workerCores _ _) rfl
      | extendFromSlice values =>
        cases hs
        exact h.frame (modify_workerCores _ _) rfl
      | startWorkers =>
        dsimp only at hs
        split at hs
        all_goals cases hs
        all_goals exact h.frame rfl rfl
      | join =>
        cases hs
        exact h.frame rfl rfl
  | join =>
    simp only [ReaderSession.step, ReaderSession.joinStep] at hs
    split at hs
    · split at hs
      · split at hs
        all_goals cases hs
        all_goals exact h.frame rfl rfl
      · split at hs
        · cases hs
        · next t panicked hnext =>
          cases hs
          obtain ⟨wk, -, -, rfl⟩ := joinNext_cases hnext
          exact h.frame rfl rfl
    · cases hs
  | beginDrop =>
    simp only [ReaderSession.step, ReaderSession.beginDrop] at hs
    split at hs
    · cases hs
      exact h.frame rfl rfl
    · cases hs
  | drop =>
    simp only [ReaderSession.step, ReaderSession.dropStep] at hs
    split at hs
    · split at hs
      · cases hs
        exact h.frame rfl rfl
      · split at hs
        · cases hs
        · next t panicked hnext =>
          cases hs
          obtain ⟨wk, -, -, rfl⟩ := joinNext_cases hnext
          exact h.frame rfl rfl
    · cases hs

/-- Pinning is never fatal to the process or to a worker: it goes on to `wait_work`,
and has called it once when it is over. -/
structure PinningHarmless (host : Host) (reader : LinuxHedgedReader V) : Prop where
  lives : ∀ acts, ¬ Aborts host reader acts
  gets_past : ∀ acts s w wk, StepRun.run (step host) (.new reader) acts = some s →
    s.threads[w]? = some wk → wk.pc = .pinning → ∃ s' wk',
      s.step host (.worker w .run) = some s' ∧ s'.threads[w]? = some wk' ∧ wk'.pc = .waitWork
  waits : ∀ acts s wk, StepRun.run (step host) (.new reader) acts = some s → wk ∈ s.threads →
    wk.pc.joined ≠ none → wk.waitCalls = 1

theorem coreInv_run {reader : LinuxHedgedReader V} {acts : List (Action V)}
    (hrun : StepRun.run (ReaderSession.step host) (.new reader) acts = some s) :
    CoreInv reader.workerCores s := by
  have hnew : CoreInv reader.workerCores (.new reader) :=
    ⟨rfl, fun wk hmem => absurd hmem (List.not_mem_nil)⟩
  exact StepRun.run_preserves (fun _ _ _ ht hs => CoreInv.step ht hs) hnew hrun

theorem run_pinned {w : Nat} {wk : CallbackWorker V} (hw : s.threads[w]? = some wk)
    (hpc : wk.pc = .pinning) (hcore : wk.core < 1024) :
    s.step host (.worker w .run) = some { s with
      threads := s.threads.set w { wk with pc := .waitWork, waitCalls := wk.waitCalls + 1 } } := by
  cases hpin : pinToCpu host wk.core with
  | none =>
    have := (pinToCpu_eq_none_iff host wk.core).mp hpin
    omega
  | some result =>
    simp only [ReaderSession.step, ReaderSession.workerStep, hw, CallbackWorker.step, hpc, hpin]

theorem aborts_iff {a : Action V} : aborts host s a = true ↔ ∃ w wk, a = .worker w .run ∧
    s.threads[w]? = some wk ∧ wk.pc = .pinning ∧ 1024 ≤ wk.core := by
  constructor
  · intro h
    cases a with
    | worker w event =>
      simp only [aborts] at h
      split at h
      · cases h
      · next wk hw =>
        unfold CallbackWorker.aborts at h
        split at h
        · next hpc =>
          rw [Option.isNone_iff_eq_none, pinToCpu_eq_none_iff] at h
          exact ⟨w, wk, rfl, hw, hpc, h⟩
        · cases h
    | _ => cases h
  · rintro ⟨w, wk, rfl, hw, hpc, hcore⟩
    simp only [aborts, hw, CallbackWorker.aborts, hpc,
      (pinToCpu_eq_none_iff host wk.core).mpr hcore, Option.isNone_none]

theorem step_of_aborts {a : Action V} (h : aborts host s a = true) : s.step host a = none := by
  obtain ⟨w, wk, rfl, hw, hpc, hcore⟩ := aborts_iff.mp h
  simp only [ReaderSession.step, ReaderSession.workerStep, hw, CallbackWorker.step, hpc,
    (pinToCpu_eq_none_iff host wk.core).mpr hcore]

theorem aborts_concat {reader : LinuxHedgedReader V} {acts : List (Action V)} {a : Action V}
    (hrun : StepRun.run (ReaderSession.step host) (.new reader) acts = some s)
    (ha : aborts host s a = true) : Aborts host reader (acts ++ [a]) :=
  (Process.run_aborted_iff fun _ _ => step_of_aborts).mpr ⟨acts, a, s, rfl, hrun, ha⟩

/-- `start_workers` gets to every core. -/
theorem starting_reached (host : Host) {reader : LinuxHedgedReader V}
    (hstarted : reader.started = false)
    (hlen : reader.workerCores.length = reader.buffer.replicas) :
    ∀ k, k ≤ reader.workerCores.length → ∃ s,
      StepRun.run (ReaderSession.step host) (.new reader)
        (.call .startWorkers :: List.replicate k .spawn) = some s ∧
      s.owner = .starting k ∧ s.reader.workerCores = reader.workerCores ∧
      s.reader.buffer = reader.buffer ∧ s.threads.length = k ∧
      ∀ (w : Nat) (wk : CallbackWorker V), s.threads[w]? = some wk →
        wk.pc = .pinning ∧ reader.workerCores[w]? = some wk.core := by
  intro k
  induction k with
  | zero =>
    intro _
    have hstart : (ReaderSession.new reader).step host (.call .startWorkers) =
        some { ReaderSession.new reader with
          reader := { reader with started := true }, owner := .starting 0 } := by
      have hopen : reader.ensureNotStarted = .ok () := by
        simp [LinuxHedgedReader.ensureNotStarted, hstarted]
      simp [ReaderSession.step, ReaderSession.call, ReaderSession.new, hopen]
    exact ⟨_, StepRun.run_cons hstart [], rfl, rfl, rfl, rfl, fun w wk hw => by cases hw⟩
  | succ k ih =>
    intro hk
    obtain ⟨s, hrun, ho, hcores, hbuffer, hthreads, hpinning⟩ := ih (by omega)
    have hlt : k < reader.workerCores.length := by omega
    obtain ⟨replicaBase, hbase⟩ := reader.buffer.replicaBasePtr_of_lt (r := k) (by omega)
    have hget : s.reader.workerCores[k]? = some reader.workerCores[k] := by
      rw [hcores, List.getElem?_eq_getElem hlt]
    have hstep : s.step host .spawn = some { s with
        reader := { s.reader with workers := s.reader.workers ++ [s.threads.length] }
        threads := s.threads ++ [.spawned reader.workerCores[k] replicaBase
          s.reader.buffer.layout s.reader.buffer.len]
        owner := .starting (k + 1) } := by
      rw [← hbuffer] at hbase
      simp only [ReaderSession.step, ReaderSession.spawnStep, ho, hget, hbase]
    rw [List.replicate_succ', ← List.cons_append]
    refine ⟨_, (StepRun.run_append hrun _).trans (StepRun.run_cons hstep []), rfl, hcores, hbuffer,
      ?_, fun w wk hw => ?_⟩
    · rw [List.length_append, hthreads, List.length_singleton]
    · rcases getElem?_concat_cases hw with hold | ⟨rfl, rfl⟩
      · exact hpinning w wk hold
      · rw [hthreads]
        exact ⟨rfl, List.getElem?_eq_getElem hlt⟩

theorem pinningHarmless_iff {reader : LinuxHedgedReader V} (hstarted : reader.started = false)
    (hlen : reader.workerCores.length = reader.buffer.replicas) :
    PinningHarmless host reader ↔ ∀ core ∈ reader.workerCores, core < 1024 := by
  constructor
  · intro h core hmem
    by_contra hge
    obtain ⟨w, hw, rfl⟩ := List.getElem_of_mem hmem
    obtain ⟨s, hrun, -, -, -, hthreads, hpinning⟩ :=
      starting_reached host hstarted hlen (w + 1) (by omega)
    have hget := List.getElem?_eq_getElem (l := s.threads) (i := w) (by omega)
    obtain ⟨hpc, hcore⟩ := hpinning w _ hget
    rw [List.getElem?_eq_getElem hw] at hcore
    exact h.lives _ (aborts_concat hrun (aborts_iff.mpr
      ⟨w, _, rfl, hget, hpc, by rw [← Option.some.inj hcore]; omega⟩))
  · intro h
    refine ⟨fun acts habort => ?_, fun acts s w wk hrun hw hpc => ?_,
      fun acts s wk hrun hmem hjoined => ?_⟩
    · obtain ⟨before, a, s, -, hrun, ha⟩ :=
        (Process.run_aborted_iff fun _ _ => step_of_aborts).mp habort
      obtain ⟨w, wk, -, hw, -, hcore⟩ := aborts_iff.mp ha
      have := h _ ((coreInv_run hrun).threads wk (List.mem_of_getElem? hw)).core_mem
      omega
    · have hmem := ((coreInv_run hrun).threads wk (List.mem_of_getElem? hw)).core_mem
      obtain ⟨hlt, -⟩ := List.getElem?_eq_some_iff.mp hw
      exact ⟨_, _, run_pinned hw hpc (h _ hmem), List.getElem?_set_self hlt, rfl⟩
    · exact ((coreInv_run hrun).threads wk hmem).waits fun hp => hjoined (by rw [hp]; rfl)

end

end ReaderSession

/-! ## Accepted lists -/

/-- The ids of a builder's list, or the default ones, are below 1024. -/
def LinuxHedgedReaderBuilder.CoresPinnable (builder : LinuxHedgedReaderBuilder) : Prop :=
  match builder.workerCores with
  | some cores => ∀ core ∈ cores, core < 1024
  | none => builder.layout.replicas ≤ 1013

/-- The last default id of `n` replicas is `n + 10`. -/
theorem defaultCores_lt_iff (n : Nat) : (∀ core ∈ defaultCores n, core < 1024) ↔ n ≤ 1013 := by
  unfold defaultCores coreMeasA coreMeasB
  constructor
  · intro h
    by_contra hn
    have hlast := h (12 + (n - 1) - 1) (List.mem_append_right _
      (List.mem_map.mpr ⟨n - 1, List.mem_range'_1.mpr (by omega), rfl⟩))
    omega
  · intro hn core hmem
    rcases List.mem_append.mp hmem with hfirst | hrest
    · rcases List.mem_append.mp hfirst with h11 | h12
      · split at h11
        · rw [List.mem_singleton.mp h11]
          decide
        · cases h11
      · split at h12
        · rw [List.mem_singleton.mp h12]
          decide
        · cases h12
    · obtain ⟨replica, hr, rfl⟩ := List.mem_map.mp hrest
      have := List.mem_range'_1.mp hr
      omega

theorem LinuxHedgedReaderBuilder.coresPinnable_iff {host : Host} {T : CopyType V}
    {builder : LinuxHedgedReaderBuilder} {reader : LinuxHedgedReader V}
    (h : builder.build host T = some (.ok reader)) :
    builder.CoresPinnable ↔ ∀ core ∈ reader.workerCores, core < 1024 := by
  have hreplicas := (build_ok h).1.replicas_eq
  have hcores : builder.workerCores.or (defaultWorkerCores reader.buffer.replicas) =
      some reader.workerCores := by
    unfold build at h
    repeat' split at h
    all_goals cases h
    assumption
  unfold CoresPinnable
  rw [hreplicas] at hcores
  cases hb : builder.workerCores with
  | some cores =>
    rw [hb] at hcores
    cases hcores
    exact Iff.rfl
  | none =>
    rw [hb, Option.none_or, defaultWorkerCores] at hcores
    split at hcores
    · rw [← Option.some.inj hcores]
      exact (defaultCores_lt_iff _).symm
    · cases hcores

/-- **Pinning is harmless exactly for ids below 1024.**  Of a runtime with an
accepted list, and of a reader with an accepted or the default list. -/
theorem pinning_harmless_iff :
    (∀ (c : Config V) (elementSize : Nat) (spec : LayoutSpec) (cpus : List Nat)
      (s₀ : HedgedRuntime V), LayoutPlan.forType usize elementSize spec = .ok c.buffer.layout →
      c.cpuPinning = .exact cpus → HedgedRuntime.new c = some (.ok s₀) →
      (HedgedRuntime.PinningHarmless c ↔ ∀ cpu ∈ cpus, cpu < 1024)) ∧
    (∀ (host : Host) (T : CopyType V) (builder : LinuxHedgedReaderBuilder)
      (reader : LinuxHedgedReader V), builder.build host T = some (.ok reader) →
      (ReaderSession.PinningHarmless host reader ↔ builder.CoresPinnable)) := by
  refine ⟨fun c elementSize spec cpus s₀ hlayout hp h0 => ?_, fun host T builder reader h => ?_⟩
  · obtain ⟨hacc, hplan⟩ := (LayoutPlan.forType_ok_iff _ _ _ _).mp hlayout
    have hpos : 0 < c.buffer.replicas := by
      unfold ReplicatedBuffer.replicas
      rw [hplan, LayoutPlan.precompute_spec]
      exact hacc.replicas_pos
    rw [HedgedRuntime.pinningHarmless_iff h0 hpos]
    constructor
    · intro hall
      exact hall cpus hp
    · intro hall cpus' hp'
      rw [hp] at hp'
      cases hp'
      exact hall
  · obtain ⟨-, hlen, -, hstarted⟩ := LinuxHedgedReaderBuilder.build_ok h
    rw [ReaderSession.pinningHarmless_iff hstarted hlen]
    exact (LinuxHedgedReaderBuilder.coresPinnable_iff h).symm

/-- `twoBytes` with workers on these CPUs. -/
def HedgedRuntime.twoBytesOn (cpus : List Nat) : Config Nat :=
  { twoBytes with cpuPinning := .exact cpus }

theorem pinning_harmless_byte :
    HedgedRuntime.PinningHarmless (HedgedRuntime.twoBytesOn [0, 1023]) ∧
    ∃ reader, threeBytes.build grantingHost .byte = some (.ok reader) ∧
      ReaderSession.PinningHarmless grantingHost reader :=
  ⟨(pinning_harmless_iff.1 (HedgedRuntime.twoBytesOn [0, 1023]) 1 .default [0, 1023] _ rfl rfl
    rfl).mpr (by decide),
  _, rfl, (pinning_harmless_iff.2 grantingHost .byte threeBytes _ rfl).mpr
    (show 2 ≤ 1013 by decide)⟩

/-- A read of element 0 waits; no worker has run yet. -/
def HedgedRuntime.waitingRead : List HedgedRuntime.Action :=
  [.new, .new, .new, .call 0, .read, .storeIndex, .storeState, .read]

open HedgedRuntime in
/-- The first worker is pinned to a CPU that no set can name while a read waits for it,
or before it calls `wait_work`: the process ends there, and nothing moves any more. -/
theorem pinning_aborts :
    (∃ s, Reaches (twoBytesOn [1024, 1025]) waitingRead s ∧ s.reader = .checkShutdown 0 1 ∧
      process (twoBytesOn [1024, 1025]) (.running s) (.worker 0) = some .aborted ∧
      (∀ a, process (twoBytesOn [1024, 1025]) .aborted a = none) ∧
      ¬ PinningHarmless (twoBytesOn [1024, 1025])) ∧
    ∃ reader s, { threeBytes with workerCores := some [1024, 11] }.build grantingHost .byte =
        some (.ok reader) ∧
      StepRun.run (ReaderSession.step grantingHost) (.new reader)
        [.call .startWorkers, .spawn, .spawn, .spawn] = some s ∧
      s.threads.map (fun wk => (wk.pc, wk.waitCalls)) = [(.pinning, 0), (.pinning, 0)] ∧
      ReaderSession.process grantingHost (.running s) (.worker 0 .run) = some .aborted ∧
      (∀ a : ReaderSession.Action Nat, ReaderSession.process grantingHost .aborted a = none) ∧
      ¬ ReaderSession.PinningHarmless grantingHost reader := by
  refine ⟨⟨_, ⟨_, rfl, rfl⟩, rfl, rfl, fun _ => rfl, fun h => ?_⟩,
    _, _, rfl, rfl, rfl, rfl, fun _ => rfl, fun h => ?_⟩
  · exact h.lives (waitingRead ++ [.worker 0]) ⟨_, rfl, rfl⟩
  · exact h.lives [.call .startWorkers, .spawn, .spawn, .spawn, .worker 0 .run] rfl

end Tailslayer
