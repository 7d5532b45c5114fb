import Tailslayer.RuntimeRead

/-!
# Starting the workers, and failing to

`SpawnInv c s` holds in every run, of any number of reads: a worker has the CPU
id of its replica, gets past its pinning only with one that can be pinned to, and
ends only after it was told to.  As long as `new` has not returned nobody is told anything,
so the workers it has spawned poll `request_id`, which stays 0.

A `thread::spawn` that panics leaves them there (`abandoned_worker`): the handles
are detached, the buffer is unmapped, and `shutdown` was never set.  Hence

    told to stop, and ended before the unmapping  ↔  none was spawned yet
                                                        (failed_new_stops_iff)
-/

namespace Tailslayer

open Word

variable {V : Type}

/-- Where a worker can be that has never seen a request. -/
def Unasked : WorkerPc V → Prop
  | .unspawned | .pinning | .loopTop | .loadId => True
  | _ => False

/-- No worker gets past what aborts. -/
theorem Worker.step_of_aborts {c : Config V} {mapped : Bool} {state : SharedState V}
    {wk : Worker V} (h : wk.aborts c = true) : wk.step c mapped state = none := by
  unfold Worker.aborts at h
  split at h
  · next cpu hpc hid =>
    rw [Option.isNone_iff_eq_none] at h
    simp only [Worker.step, hpc, hid, h]
  · cases h

/-- Where a worker's step takes it. -/
theorem Worker.step_pc {c : Config V} {mapped : Bool} {state state' : SharedState V}
    {wk wk' : Worker V} (h : wk.step c mapped state = some (state', wk')) :
    wk'.cpu = wk.cpu ∧ wk'.pc ≠ .unspawned ∧
      wk'.pc ≠ .pinning ∧
      (wk.pc = .pinning → ∀ cpu, wk.cpu = some cpu → pinToCpu c.host cpu ≠ none) ∧
      (wk'.pc = .ended → state.shutdown = true) ∧
      (Unasked wk.pc → state.shutdown = false → state.requestId = 0 → Unasked wk'.pc) := by
  unfold Worker.step at h
  cases hpc : wk.pc <;> simp only [hpc] at h
  all_goals
    repeat' split at h
    all_goals cases h
    all_goals simp_all [Unasked]

namespace HedgedRuntime

/-- `new` has not returned, or never will. -/
def Building : Owner → Prop
  | .spawning _ | .unwinding | .failed => True
  | _ => False

/-- Worker `w` has its replica's CPU id, one it can be pinned to once it is past
that, and a reason if it is over. -/
structure WorkerAt (c : Config V) (shutdown : Bool) (w : Nat) (wk : Worker V) : Prop where
  cpu_eq : wk.pc = .unspawned ∨ cpuOf c w = some wk.cpu
  pinned : wk.pc = .unspawned ∨ wk.pc = .pinning ∨
    ∀ cpu, wk.cpu = some cpu → pinToCpu c.host cpu ≠ none
  ended : wk.pc = .ended → shutdown = true

/-- What holds in every run that has spawned `n` workers by now. -/
structure SpawnInv (c : Config V) (n : Nat) (s : HedgedRuntime V) : Prop where
  workers : ∀ w, WorkerAt c s.state.shutdown w (s.workers w)
  building : Building s.owner → s.reader = .idle ∧ s.state.shutdown = false ∧
    s.state.requestId = 0 ∧ ∀ w, Unasked (s.workers w).pc
  spawned : ∀ w, w < n ∨ (∃ k, s.owner = .spawning k ∧ w < k) → (s.workers w).pc ≠ .unspawned

/-- A property of every worker, after one of them was replaced. -/
theorem forall_worker (P : Nat → Worker V → Prop) {workers : Nat → Worker V} {w : Nat}
    {wk : Worker V} (hw : P w wk) (h : ∀ w', w' ≠ w → P w' (workers w')) (w' : Nat) :
    P w' (Function.update workers w wk w') :=
  (Function.forall_update_iff workers P).mpr ⟨hw, h⟩ w'

/-! ## Steps -/

section
variable {c : Config V} {n : Nat} {s s' : HedgedRuntime V} (h : SpawnInv c n s)
include h

/-- A step of the owner or the reader: the workers stay where they are. -/
theorem SpawnInv.frame (hworkers : s'.workers = s.workers)
    (hdown : s.state.shutdown = true → s'.state.shutdown = true)
    (hbuild : Building s'.owner → Building s.owner ∧ s'.state = s.state ∧ s'.reader = s.reader)
    (hspawn : ∀ k, s'.owner = .spawning k → s.owner = .spawning k) : SpawnInv c n s' where
  workers := fun w => by
    have hw := h.workers w
    rw [hworkers]
    exact ⟨hw.cpu_eq, hw.pinned, fun he => hdown (hw.ended he)⟩
  building := fun hb => by
    obtain ⟨hb, hstate, hreader⟩ := hbuild hb
    rw [hstate, hreader, hworkers]
    exact h.building hb
  spawned := fun w hw => by
    rw [hworkers]
    exact h.spawned w (hw.imp_right fun ⟨k, hk, hlt⟩ => ⟨k, hspawn k hk, hlt⟩)

theorem SpawnInv.not_building (hbusy : s.reader ≠ .idle) : ¬ Building s.owner :=
  fun hb => hbusy (h.building hb).1

/-- A step of the call that holds the lock. -/
theorem SpawnInv.reader_frame (hbusy : s.reader ≠ .idle) (hworkers : s'.workers = s.workers)
    (hdown : s'.state.shutdown = s.state.shutdown) (howner : s'.owner = s.owner) :
    SpawnInv c n s' := by
  have hb : ¬ Building s'.owner := by
    rw [howner]
    exact h.not_building hbusy
  exact h.frame hworkers (fun hd => hdown.trans hd) (fun hb' => absurd hb' hb)
    (fun k hk => howner ▸ hk)

theorem SpawnInv.workerStep {w : Nat} (hs : s.workerStep c w = some s') : SpawnInv c n s' := by
  obtain ⟨state, wk, hstep, rfl⟩ := workerStep_cases hs
  obtain ⟨hcpu, hpc, -, hpin, hended, hunasked⟩ := Worker.step_pc hstep
  obtain ⟨-, hspawned, -, hid, -, hdown⟩ := Worker.step_frame hstep
  have hmoved : WorkerAt c state.shutdown w wk := by
    rw [hdown]
    refine ⟨Or.inr ?_, Or.inr (Or.inr ?_), hended⟩
    · rw [hcpu]
      exact (h.workers w).cpu_eq.resolve_left hspawned
    · rw [hcpu]
      rcases (h.workers w).pinned.resolve_left hspawned with hp | hpast
      · exact hpin hp
      · exact hpast
  refine ⟨forall_worker (WorkerAt c state.shutdown) hmoved fun w' _ => ?_, fun hb => ?_,
    forall_worker (fun w' wk => w' < n ∨ (∃ k, s.owner = .spawning k ∧ w' < k) →
      wk.pc ≠ .unspawned) (fun _ => hpc) fun w' _ => h.spawned w'⟩
  · rw [hdown]
    exact h.workers w'
  · obtain ⟨hidle, hup, hzero, hall⟩ := h.building hb
    exact ⟨hidle, hdown.trans hup, hid.trans hzero, forall_worker (fun _ wk => Unasked wk.pc)
      (hunasked (hall w) hup hzero) fun w' _ => hall w'⟩

/-- One worker more. -/
theorem SpawnInv.spawn {replica replicaBase : Nat} {cpu : Option Nat}
    (ho : s.owner = .spawning replica) (hcpu : cpuOf c replica = some cpu) :
    SpawnInv c n { s with
      workers := Function.update s.workers replica ⟨replicaBase, cpu, 0, .pinning⟩
      owner := .spawning (replica + 1) } := by
  obtain ⟨hidle, hup, hzero, hall⟩ := h.building (ho ▸ trivial)
  refine ⟨forall_worker (WorkerAt c s.state.shutdown)
      ⟨Or.inr hcpu, Or.inr (Or.inl rfl), fun hp => ?_⟩ fun w _ => h.workers w,
    fun _ => ⟨hidle, hup, hzero, forall_worker (fun _ wk => Unasked wk.pc) trivial
      fun w _ => hall w⟩,
    forall_worker (fun w wk => w < n ∨ (∃ k, Owner.spawning (replica + 1) = .spawning k ∧ w < k) →
      wk.pc ≠ .unspawned) (fun _ hp => ?_) fun w hne hw => h.spawned w (hw.imp_right ?_)⟩
  · cases hp
  · cases hp
  · rintro ⟨k, hk, hlt⟩
    cases hk
    exact ⟨replica, ho, by omega⟩

theorem SpawnInv.newStep (hs : s.newStep c = some s') : SpawnInv c n s' := by
  unfold HedgedRuntime.newStep at hs
  split at hs
  · next replica ho =>
    have hb : Building s.owner := ho ▸ trivial
    split at hs
    · split at hs
      · next replicaBase cpu hbase hcpu =>
        cases hs
        exact h.spawn ho hcpu
      · cases hs
        exact h.frame rfl id (fun _ => ⟨hb, rfl, rfl⟩) (fun k hk => by cases hk)
    · cases hs
      exact h.frame rfl id (fun hb' => hb'.elim) (fun k hk => by cases hk)
  · cases hs

theorem SpawnInv.step {a : Action} (hs : s.step c a = some s') : SpawnInv c n s' := by
  cases a with
  | new => exact h.newStep hs
  | worker w => exact h.workerStep hs
  | spawnFails =>
    simp only [HedgedRuntime.step, HedgedRuntime.spawnFails] at hs
    split at hs
    · next replica ho =>
      split at hs
      · cases hs
        exact h.frame rfl id (fun _ => ⟨ho ▸ trivial, rfl, rfl⟩) (fun k hk => by cases hk)
      · cases hs
    · cases hs
  | unwind =>
    simp only [HedgedRuntime.step, HedgedRuntime.unwind] at hs
    split at hs
    · next ho =>
      cases hs
      exact h.frame rfl id (fun _ => ⟨ho ▸ trivial, rfl, rfl⟩) (fun k hk => by cases hk)
    · cases hs
  | call index =>
    simp only [HedgedRuntime.step, HedgedRuntime.call] at hs
    split at hs
    · cases hs
    · next ho =>
      have ho : s.owner = .serving := Decidable.not_not.mp ho
      have hb : ¬ Building s.owner := fun hb => by rw [ho] at hb; exact hb
      repeat' split at hs
      all_goals cases hs
      all_goals exact h.frame rfl id (fun hb' => absurd hb' hb) (fun k hk => hk)
  | storeIndex =>
    simp only [HedgedRuntime.step, HedgedRuntime.storeIndex] at hs
    split at hs
    · next hpc =>
      cases hs
      exact h.reader_frame (by rw [hpc]; simp) rfl rfl rfl
    · cases hs
  | storeState =>
    simp only [HedgedRuntime.step, HedgedRuntime.storeState] at hs
    split at hs
    · next hpc =>
      cases hs
      exact h.reader_frame (by rw [hpc]; simp) rfl rfl rfl
    · cases hs
  | read =>
    have hbusy : s.reader ≠ .idle := by
      intro hidle
      simp [HedgedRuntime.step, HedgedRuntime.readStep, hidle] at hs
    simp only [HedgedRuntime.step, HedgedRuntime.readStep] at hs
    repeat' split at hs
    all_goals cases hs
    all_goals exact h.reader_frame hbusy rfl rfl rfl
  | beginDrop =>
    simp only [HedgedRuntime.step, HedgedRuntime.beginDrop] at hs
    split at hs
    · cases hs
      exact h.frame rfl (fun _ => rfl) (fun hb => hb.elim) (fun k hk => by cases hk)
    · cases hs
  | drop =>
    simp only [HedgedRuntime.step, HedgedRuntime.dropStep] at hs
    repeat' split at hs
    all_goals cases hs
    all_goals exact h.frame rfl id (fun hb => hb.elim) (fun k hk => by cases hk)

end

theorem spawnInv_unspawned {c : Config V} : SpawnInv c 0 unspawned where
  workers := fun _ => ⟨Or.inl rfl, Or.inl rfl, fun hp => (by cases hp)⟩
  building := fun _ => ⟨rfl, rfl, rfl, fun _ => trivial⟩
  spawned := by
    rintro w (hlt | ⟨k, hk, hlt⟩)
    · exact absurd hlt (Nat.not_lt_zero w)
    · cases hk
      exact absurd hlt (Nat.not_lt_zero w)

section
variable {c : Config V} {n : Nat} {s s' : HedgedRuntime V}

theorem SpawnInv.run (h : SpawnInv c n s) {acts : List Action}
    (hrun : StepRun.run (HedgedRuntime.step c) s acts = some s') : SpawnInv c n s' :=
  StepRun.run_preserves (fun _ _ _ ht hs => ht.step hs) h hrun

theorem SpawnInv.reaches {acts : List Action} (hr : Reaches c acts s) : SpawnInv c 0 s := by
  obtain ⟨s₀, h0, hrun⟩ := hr
  exact SpawnInv.run (new_ok h0 ▸ spawnInv_unspawned) hrun

/-! ## The spawning loop -/

theorem cpuOf_exact {cpus : List Nat} (h : c.cpuPinning = .exact cpus) (w : Nat) :
    cpuOf c w = (cpus[w]?).map some := by
  cases hget : cpus[w]? with
  | none => simp only [cpuOf, h, hget, Option.map_none]
  | some cpu => simp only [cpuOf, h, hget, Option.map_some]

/-- An accepted list has an id for each replica. -/
theorem length_of_new {s₀ : HedgedRuntime V} (h0 : HedgedRuntime.new c = some (.ok s₀))
    {cpus : List Nat} (h : c.cpuPinning = .exact cpus) : cpus.length = c.buffer.replicas := by
  unfold HedgedRuntime.new at h0
  rw [h] at h0
  by_contra hne
  dsimp only at h0
  rw [if_pos hne] at h0
  cases h0

theorem cpuOf_of_new {s₀ : HedgedRuntime V} (h0 : HedgedRuntime.new c = some (.ok s₀))
    {w : Nat} (hw : w < c.buffer.replicas) : ∃ cpu, cpuOf c w = some cpu := by
  cases hp : c.cpuPinning with
  | none => exact ⟨none, by simp only [cpuOf, hp]⟩
  | exact cpus =>
    have hlt : w < cpus.length := length_of_new h0 hp ▸ hw
    exact ⟨some cpus[w], by rw [cpuOf_exact hp, List.getElem?_eq_getElem hlt, Option.map_some]⟩

/-- `new` gets to every replica, unless a spawn fails. -/
theorem spawning_reached {s₀ : HedgedRuntime V} (h0 : HedgedRuntime.new c = some (.ok s₀)) :
    ∀ k, k ≤ c.buffer.replicas → ∃ s, Reaches c (List.replicate k .new) s ∧
      s.owner = .spawning k ∧ ∀ w, w < k → (s.workers w).pc = .pinning := by
  intro k
  induction k with
  | zero =>
    intro _
    rw [new_ok h0] at h0
    exact ⟨unspawned, ⟨_, h0, rfl⟩, rfl, fun w hw => absurd hw (Nat.not_lt_zero w)⟩
  | succ k ih =>
    intro hk
    obtain ⟨s, ⟨s₁, h1, hrun⟩, ho, hpc⟩ := ih (by omega)
    obtain ⟨cpu, hcpu⟩ := cpuOf_of_new h0 (w := k) (by omega)
    obtain ⟨replicaBase, hbase⟩ := c.buffer.replicaBasePtr_of_lt (r := k) (by omega)
    have hstep : s.step c .new = some { s with
        workers := Function.update s.workers k ⟨replicaBase, cpu, 0, .pinning⟩
        owner := .spawning (k + 1) } := by
      simp only [HedgedRuntime.step, HedgedRuntime.newStep, ho, hbase, hcpu]
      exact if_pos (by omega)
    rw [List.replicate_succ']
    refine ⟨_, ⟨s₁, h1, (StepRun.run_append hrun _).trans (StepRun.run_cons hstep [])⟩, rfl,
      forall_worker (fun w wk => w < k + 1 → wk.pc = .pinning) (fun _ => rfl) fun w hne hw => ?_⟩
    exact hpc w (by omega)

/-! ## A spawn that fails -/

theorem spawnFails_eq {k : Nat} (ho : s.owner = .spawning k)
    (hfail : s.step c .spawnFails = some s') : s' = { s with owner := .unwinding } := by
  simp only [HedgedRuntime.step, HedgedRuntime.spawnFails, ho] at hfail
  split at hfail
  · cases hfail
    rfl
  · cases hfail

/-- The run after a failed spawn: the workers before it are there, and polling. -/
theorem SpawnInv.spawnFails (h : SpawnInv c n s) {k : Nat} (ho : s.owner = .spawning k)
    (hfail : s.step c .spawnFails = some s') : SpawnInv c k s' := by
  have h' := h.step hfail
  obtain rfl := spawnFails_eq ho hfail
  refine ⟨h'.workers, h'.building, ?_⟩
  rintro w (hlt | ⟨_, hk, -⟩)
  · exact h.spawned w (Or.inr ⟨k, ho, hlt⟩)
  · cases hk

end

/-- **Nobody stops the workers of a failed `new`.**  As long as the process lives they
poll, also once the buffer is gone; none of them ever reads from it. -/
theorem abandoned_worker (c : Config V) (acts more : List Action) (s s₁ s' : HedgedRuntime V)
    (k w : Nat) (hr : Reaches c acts s) (ho : s.owner = .spawning k)
    (hfail : s.step c .spawnFails = some s₁) (hrun : StepRun.run (step c) s₁ more = some s')
    (hleft : s'.owner = .failed) (hw : w < k) :
    (s'.workers w).pc = .pinning ∨ (s'.workers w).pc = .loopTop ∨
      (s'.workers w).pc = .loadId := by
  have h := ((SpawnInv.reaches hr).spawnFails ho hfail).run hrun
  have hspawned := h.spawned w (Or.inl hw)
  have hunasked := (h.building (hleft ▸ trivial)).2.2.2 w
  cases hpc : (s'.workers w).pc with
  | pinning => exact Or.inl rfl
  | loopTop => exact Or.inr (Or.inl rfl)
  | loadId => exact Or.inr (Or.inr rfl)
  | unspawned => exact absurd hpc hspawned
  | _ =>
    rw [hpc] at hunasked
    exact hunasked.elim

/-- **A failed construction leaves its workers behind.**  They were told to stop,
and have ended when the buffer is unmapped, only where there are none. -/
theorem failed_new_stops_iff (c : Config V) (acts : List Action) (s s₁ : HedgedRuntime V)
    (k : Nat) (hr : Reaches c acts s) (ho : s.owner = .spawning k)
    (hfail : s.step c .spawnFails = some s₁) :
    -- in every interleaving, once `new` has been left
    (∀ more s', StepRun.run (step c) s₁ more = some s' → s'.owner = .failed →
      ((∀ w, w < k → s'.state.shutdown = true ∧ Stopped (s'.workers w).pc) ↔ k = 0)) ∧
    -- which it can be at once
    ∃ s', s₁.step c .unwind = some s' ∧ s'.owner = .failed ∧ s'.mapped = false := by
  have h := (SpawnInv.reaches hr).spawnFails ho hfail
  refine ⟨fun more s' hrun hleft => ⟨fun hstop => ?_, fun hk w hw => ?_⟩, ?_⟩
  · have hup := ((h.run hrun).building (hleft ▸ trivial)).2.1
    by_contra hk
    have hdown := (hstop 0 (Nat.pos_of_ne_zero hk)).1
    rw [hup] at hdown
    cases hdown
  · omega
  · obtain rfl := spawnFails_eq ho hfail
    exact ⟨_, rfl, rfl, rfl⟩

/-- The first worker polls when the second cannot be spawned. -/
def secondSpawnFails : List Action :=
  [.new, .worker 0, .worker 0, .spawnFails, .worker 0, .unwind, .worker 0]

theorem failed_new_stops_iff_byte :
    ∃ s s₁ s', Reaches twoBytes (secondSpawnFails.take 3) s ∧
      s.step twoBytes .spawnFails = some s₁ ∧
      StepRun.run (step twoBytes) s₁ (secondSpawnFails.drop 4) = some s' ∧
      ((∀ w, w < 1 → s'.state.shutdown = true ∧ Stopped (s'.workers w).pc) ↔ 1 = 0) :=
  ⟨_, _, _, ⟨_, rfl, rfl⟩, rfl, rfl, (failed_new_stops_iff twoBytes (secondSpawnFails.take 3) _ _ 1
    ⟨_, rfl, rfl⟩ rfl rfl).1 (secondSpawnFails.drop 4) _ rfl rfl⟩

/-- The runtime is gone, and the first worker goes on polling. -/
theorem failed_new_not_stopped :
    ∃ s, Reaches twoBytes secondSpawnFails s ∧ s.owner = .failed ∧ s.mapped = false ∧
      (s.workers 0).pc = .loadId ∧
      ¬ ∀ w, w < 1 → s.state.shutdown = true ∧ Stopped (s.workers w).pc := by
  refine ⟨_, ⟨_, rfl, rfl⟩, rfl, rfl, rfl, fun h => ?_⟩
  cases (h 0 (by decide)).1

end HedgedRuntime

end Tailslayer
