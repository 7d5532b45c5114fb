import Tailslayer.RuntimeDrop
import Tailslayer.RuntimeStaff

/-!
# Drop returns

Once `drop` has stored `shutdown`, a worker is at most four accesses away from
its end, wherever it is (`exitRank`).  So on a fair path each join returns, the
memory is unmapped, and nothing is left that could move.
-/

namespace Tailslayer

open Fair

variable {V : Type}

/-- Accesses of a worker until it ends, after `shutdown` was stored. -/
def exitRank : WorkerPc V → Nat
  | .loopTop | .recheck _ => 1
  | .pinning | .loadId | .claim _ _ => 2
  | .readMemory _ _ => 3
  | .loadIndex _ => 4
  | _ => 0

theorem exitRank_le (pc : WorkerPc V) : exitRank pc ≤ 4 := by
  cases pc <;> simp [exitRank]

namespace HedgedRuntime

/-- `drop` between its two stores, or in its joins. -/
inductive DropStage (c : Config V) (s : HedgedRuntime V) : Agent → Nat → Prop where
  | closing (ho : s.owner = .closing) : DropStage c s .owner (10 * (c.buffer.replicas + 1))
  | exiting (w : Nat) (ho : s.owner = .joining w) (hw : w < c.buffer.replicas)
      (hrun : ¬ Stopped (s.workers w).pc) :
      DropStage c s (.worker w) (10 * (c.buffer.replicas - w) + exitRank (s.workers w).pc)
  | joined (w : Nat) (ho : s.owner = .joining w) (hw : w < c.buffer.replicas)
      (hstop : Stopped (s.workers w).pc) : DropStage c s .owner (10 * (c.buffer.replicas - w))
  | last (w : Nat) (ho : s.owner = .joining w) (hw : c.buffer.replicas ≤ w) :
      DropStage c s .owner 0

section
variable {c : Config V} {s s' : HedgedRuntime V}

theorem DropStage.of_joining {w : Nat} (ho : s.owner = .joining w) :
    ∃ k n, n ≤ 10 * (c.buffer.replicas - w) + 4 ∧ DropStage c s k n := by
  by_cases hw : w < c.buffer.replicas
  · by_cases hstop : Stopped (s.workers w).pc
    · exact ⟨_, _, Nat.le_add_right _ _, .joined w ho hw hstop⟩
    · exact ⟨_, _, Nat.add_le_add_left (exitRank_le _) _, .exiting w ho hw hstop⟩
  · exact ⟨_, 0, Nat.zero_le _, .last w ho (Nat.le_of_not_lt hw)⟩

theorem DropStage.start (hcl : Closing s.owner) (hopen : s.owner ≠ .dropped) :
    ∃ k n, DropStage c s k n := by
  cases ho : s.owner with
  | closing => exact ⟨_, _, .closing ho⟩
  | joining w =>
    obtain ⟨k, n, -, hstage⟩ := DropStage.of_joining (c := c) ho
    exact ⟨k, n, hstage⟩
  | dropped => exact absurd ho hopen
  | spawning | unwinding | failed | serving =>
    rw [ho] at hcl
    exact hcl.elim

theorem DropStage.is_closing {k : Agent} {n : Nat} (h : DropStage c s k n) : Closing s.owner := by
  cases h with
  | closing ho => rw [ho]; trivial
  | exiting w ho => rw [ho]; trivial
  | joined w ho => rw [ho]; trivial
  | last w ho => rw [ho]; trivial

section
variable (h : Inv c s)
include h

theorem Inv.shutdown_of_closing (hcl : Closing s.owner) : s.state.shutdown = true := by
  have hown := h.owner
  cases ho : s.owner with
  | closing =>
    rw [ho] at hown
    exact hown.2.2
  | joining w =>
    rw [ho] at hown
    exact hown.2.2.1
  | dropped =>
    rw [ho] at hown
    exact hown.2.1
  | spawning | unwinding | failed | serving =>
    rw [ho] at hcl
    exact hcl.elim

/-- **A worker's way out.**  A worker of a runtime being dropped that has not
stopped can move, and every access brings it nearer to its end. -/
theorem Inv.worker_exits (hcl : Closing s.owner) {w : Nat}
    (hspawned : (s.workers w).pc ≠ .unspawned)
    (hcpu : ∀ cpu, (s.workers w).cpu = some cpu → cpu < 1024)
    (hrun : ¬ Stopped (s.workers w).pc) : ∃ s', s.step c (.worker w) = some s' ∧
      exitRank (s'.workers w).pc < exitRank (s.workers w).pc := by
  have hdown := h.shutdown_of_closing hcl
  have hidle := h.idle_of_closing hcl
  have hsec := h.no_section_of_none (by rw [hidle]; rfl) w
  have hat := (h.workers w).at_pc
  suffices hstep : ∃ wk, (s.workers w).step c s.mapped s.state = some (s.state, wk) ∧
      exitRank wk.pc < exitRank (s.workers w).pc by
    obtain ⟨wk, hstep, hlt⟩ := hstep
    refine ⟨s.setWorker w s.state wk, ?_, ?_⟩
    · simp [HedgedRuntime.step, HedgedRuntime.workerStep, hstep]
    · rw [setWorker_self]
      exact hlt
  cases hpc : (s.workers w).pc with
  | unspawned => exact absurd hpc hspawned
  | ended =>
    rw [hpc] at hrun
    exact absurd trivial hrun
  | faulted =>
    rw [hpc] at hat
    exact hat.elim
  | beginWrite | endWrite | publish =>
    rw [hpc] at hsec
    exact absurd trivial hsec
  | pinning =>
    simp only [Worker.step, hpc]
    split
    · exact ⟨_, rfl, by simp [exitRank]⟩
    · next cpu hid =>
      split
      · next hpin =>
        have := (pinToCpu_eq_none_iff c.host cpu).mp hpin
        have := hcpu cpu hid
        omega
      · exact ⟨_, rfl, by simp [exitRank]⟩
  | loopTop =>
    simp only [Worker.step, hpc, hdown, if_true]
    exact ⟨_, rfl, by simp [exitRank]⟩
  | loadId =>
    simp only [Worker.step, hpc]
    split
    · exact ⟨_, rfl, by simp [exitRank]⟩
    · exact ⟨_, rfl, by simp [exitRank]⟩
  | recheck requestId =>
    simp only [Worker.step, hpc, hdown, if_true]
    exact ⟨_, rfl, by simp [exitRank]⟩
  | loadIndex requestId =>
    simp only [Worker.step, hpc]
    split
    · exact ⟨_, rfl, by simp [exitRank]⟩
    · exact ⟨_, rfl, by simp [exitRank]⟩
  | readMemory requestId index =>
    simp only [Worker.step, hpc, (h.memory hpc).1, if_true]
    exact ⟨_, rfl, by simp [exitRank]⟩
  | claim requestId value =>
    -- no read waits, so no request is pending
    have hcas : s.state.winnerState ≠ pending requestId := by
      intro hcas
      have hs : s.workerStep c w = some (s.setWorker w (s.state.storeWinner (claimed requestId))
          { s.workers w with pc := .beginWrite requestId value }) := by
        simp [HedgedRuntime.workerStep, Worker.step, hpc, hcas]
      have hlen := congrArg (fun state => state.winnerLog.length) (h.worker_quiet hidle hs)
      simp [HedgedRuntime.setWorker, SharedState.storeWinner] at hlen
    simp only [Worker.step, hpc, if_neg hcas]
    exact ⟨_, rfl, by simp [exitRank]⟩

end

/-- Whoever moves while the runtime is dropped. -/
theorem Inv.closing_cases (h : Inv c s) (hcl : Closing s.owner) {a : Action}
    (hs : s.step c a = some s') : a = .drop ∨ ∃ u, a = .worker u := by
  have hidle := h.idle_of_closing hcl
  cases a with
  | drop => exact Or.inl rfl
  | worker u => exact Or.inr ⟨u, rfl⟩
  | storeIndex => simp [HedgedRuntime.step, HedgedRuntime.storeIndex, hidle] at hs
  | storeState => simp [HedgedRuntime.step, HedgedRuntime.storeState, hidle] at hs
  | read => simp [HedgedRuntime.step, HedgedRuntime.readStep, hidle] at hs
  | new | spawnFails | unwind | call | beginDrop =>
    cases ho : s.owner with
    | spawning | unwinding | failed | serving =>
      rw [ho] at hcl
      exact hcl.elim
    | closing | joining | dropped =>
      simp [HedgedRuntime.step, HedgedRuntime.newStep, HedgedRuntime.spawnFails,
        HedgedRuntime.unwind, HedgedRuntime.call, HedgedRuntime.beginDrop, ho] at hs

/-- A worker that is not joined right now does not matter. -/
theorem DropStage.worker_step (hpin : c.Pinnable) (h : Inv c s) (hstaff : Staffed c s)
    {k : Agent} {n u : Nat} (hstage : DropStage c s k n) (hs : s.step c (.worker u) = some s') :
    (∃ k' n', n' < n ∧ DropStage c s' k' n') ∨
      Action.worker u ∉ k.actions ∧ DropStage c s' k n := by
  have hcl := hstage.is_closing
  obtain ⟨state, wk, hstep, hs'⟩ := workerStep_cases hs
  have howner : s'.owner = s.owner := by
    rw [hs']
    rfl
  have hother : ∀ w, w ≠ u → s'.workers w = s.workers w := by
    intro w hw
    rw [hs', setWorker_of_ne hw]
  have hmoved : ¬ Stopped (s.workers u).pc := (Worker.step_frame hstep).2.2.1
  cases hstage with
  | closing ho => exact Or.inr ⟨by simp [Agent.actions, Agent.action], .closing (howner.trans ho)⟩
  | joined w ho hw hstop =>
    have hne : w ≠ u := by
      rintro rfl
      exact hmoved hstop
    refine Or.inr ⟨by simp [Agent.actions, Agent.action], .joined w (howner.trans ho) hw ?_⟩
    rw [hother w hne]
    exact hstop
  | last w ho hw =>
    exact Or.inr ⟨by simp [Agent.actions, Agent.action], .last w (howner.trans ho) hw⟩
  | exiting w ho hw hrun =>
    by_cases hu : w = u
    · subst hu
      have hspawned := hstaff.staffed (by rw [ho]; trivial) w hw
      obtain ⟨s₁, hs₁, hlt⟩ :=
        h.worker_exits hcl hspawned (hstaff.cpu_lt (hpin.pins hw) hspawned) hrun
      rw [hs] at hs₁
      cases hs₁
      refine Or.inl ?_
      by_cases hstop : Stopped (s'.workers w).pc
      · exact ⟨_, _, by omega, .joined w (howner.trans ho) hw hstop⟩
      · exact ⟨_, _, by omega, .exiting w (howner.trans ho) hw hstop⟩
    · have hnext : DropStage c s' (.worker w)
          (10 * (c.buffer.replicas - w) + exitRank (s'.workers w).pc) := by
        refine .exiting w (howner.trans ho) hw ?_
        rw [hother w hu]
        exact hrun
      rw [hother w hu] at hnext
      exact Or.inr ⟨by simpa [Agent.actions, Agent.action] using Ne.symm hu, hnext⟩

/-- Each access of `drop` itself is progress. -/
theorem DropStage.owner_step {k : Agent} {n : Nat} (hstage : DropStage c s k n)
    (hs : s.step c .drop = some s') : s'.owner = .dropped ∧ s'.mapped = false ∨
      ∃ k' n', n' < n ∧ DropStage c s' k' n' := by
  cases hstage with
  | closing ho =>
    simp only [HedgedRuntime.step, HedgedRuntime.dropStep, ho] at hs
    cases hs
    obtain ⟨k, n, hn, hnext⟩ := DropStage.of_joining (c := c)
      (s := { s with
        state := { s.state with requestId := usize.add s.state.requestId 1 }
        owner := .joining 0 }) rfl
    exact Or.inr ⟨k, n, by omega, hnext⟩
  | exiting w ho hw hrun => simp [HedgedRuntime.step, HedgedRuntime.dropStep, ho, hw, hrun] at hs
  | joined w ho hw hstop =>
    simp only [HedgedRuntime.step, HedgedRuntime.dropStep, ho, hw, hstop, if_true] at hs
    cases hs
    obtain ⟨k, n, hn, hnext⟩ := DropStage.of_joining (c := c)
      (s := { s with owner := .joining (w + 1) }) rfl
    exact Or.inr ⟨k, n, by omega, hnext⟩
  | last w ho hw =>
    simp only [HedgedRuntime.step, HedgedRuntime.dropStep, ho, if_neg (Nat.not_lt.mpr hw)] at hs
    cases hs
    exact Or.inl ⟨rfl, rfl⟩

theorem DropStage.enabled (hpin : c.Pinnable) (h : Inv c s) (hstaff : Staffed c s) {k : Agent}
    {n : Nat} (hstage : DropStage c s k n) : Enabled (step c) k.actions s := by
  have hcl := hstage.is_closing
  cases hstage with
  | closing ho =>
    refine ⟨.drop, rfl, ?_⟩
    simp [HedgedRuntime.step, HedgedRuntime.dropStep, ho]
  | exiting w ho hw hrun =>
    have hspawned := hstaff.staffed (by rw [ho]; trivial) w hw
    obtain ⟨s', hs, -⟩ :=
      h.worker_exits hcl hspawned (hstaff.cpu_lt (hpin.pins hw) hspawned) hrun
    exact ⟨.worker w, rfl, s', hs⟩
  | joined w ho hw hstop =>
    refine ⟨.drop, rfl, ?_⟩
    simp [HedgedRuntime.step, HedgedRuntime.dropStep, ho, hw, hstop]
  | last w ho hw =>
    refine ⟨.drop, rfl, ?_⟩
    simp [HedgedRuntime.step, HedgedRuntime.dropStep, ho, Nat.not_lt.mpr hw]

theorem drop_chain (hpin : c.Pinnable) : Chain (HedgedRuntime.step c) Agent.actions
    (fun s _ s' => (Inv c s' ∧ s'.reads = s.reads) ∧ s'.owner = .dropped ∧ s'.mapped = false)
    (fun k n s => (Inv c s ∧ Staffed c s ∧ s.reads < 2 ^ 62) ∧ DropStage c s k n) where
  enabled := fun k n s hat => hat.2.enabled hpin hat.1.1 hat.1.2.1
  step := by
    rintro k n s a s' ⟨⟨h, hstaff, hfew⟩, hstage⟩ hs
    have hreads : s'.reads = s.reads := by
      rw [reads_step hs, (h.closing_step hstage.is_closing hs).2.2.2]
      rfl
    have h' := h.step (hreads ▸ hfew) hs
    have hkept : Inv c s' ∧ Staffed c s' ∧ s'.reads < 2 ^ 62 :=
      ⟨h', hstaff.step hs, hreads ▸ hfew⟩
    rcases h.closing_cases hstage.is_closing hs with rfl | ⟨u, rfl⟩
    · rcases hstage.owner_step hs with hend | ⟨k', n', hlt, hnext⟩
      · exact Or.inl ⟨⟨h', hreads⟩, hend⟩
      · exact Or.inr (Or.inl ⟨k', n', hlt, hkept, hnext⟩)
    · rcases hstage.worker_step hpin h hstaff hs with ⟨k', n', hlt, hnext⟩ | ⟨hno, hstay⟩
      · exact Or.inr (Or.inl ⟨k', n', hlt, hkept, hnext⟩)
      · exact Or.inr (Or.inr ⟨hno, hkept, hstay⟩)

/-- Nothing moves in a runtime that was dropped. -/
theorem Inv.nothing_after (h : Inv c s) (ho : s.owner = .dropped) (a : Action) :
    s.step c a = none := by
  cases hs : s.step c a with
  | none => rfl
  | some s' =>
    have hcl : Closing s.owner := by
      rw [ho]
      trivial
    have hown := h.owner
    rw [ho] at hown
    rcases h.closing_cases hcl hs with rfl | ⟨u, rfl⟩
    · simp [HedgedRuntime.step, HedgedRuntime.dropStep, ho] at hs
    · obtain ⟨state, wk, hstep, -⟩ := workerStep_cases hs
      obtain ⟨-, hspawned, hrun, -⟩ := Worker.step_frame hstep
      rcases hown.2.2 u with hstop | hun
      · exact absurd hstop hrun
      · exact absurd hun hspawned

end

/-- **Drop returns.**  With ids that can be pinned to, a drop that has begun joins every
worker on every fair path and unmaps the memory; after it nothing can move any more. -/
theorem drop_returns_fairly (c : Config V) (hpin : c.Pinnable) (p : Path (step c))
    (h0 : new c = some (.ok (p.state 0))) (hfair : ∀ k : Agent, p.WeaklyFair k.actions) (n : Nat)
    (hfew : (p.state n).reads < 2 ^ 62)
    (hcl : Closing (p.state n).owner) (hopen : (p.state n).owner ≠ .dropped) :
    ∃ m, n < m ∧ (p.state m).owner = .dropped ∧ (p.state m).mapped = false ∧
      (∀ w, w < c.buffer.replicas → Stopped ((p.state m).workers w).pc) ∧
      ∀ a, step c (p.state m) a = none := by
  have hr : Reaches c (p.acts n) (p.state n) := ⟨_, h0, p.run_acts n⟩
  have hacts : FewReads (p.acts n) := by
    rw [reads_reaches hr] at hfew
    exact hfew
  obtain ⟨k, r, hstage⟩ := DropStage.start (c := c) hcl hopen
  obtain ⟨m, a, hnm, ha, ⟨⟨h', -⟩, ho, hun⟩, -⟩ := (drop_chain hpin).reaches_goal p
    (fun k _ _ _ => hfair k) ⟨⟨Inv.reaches hr hacts, Staffed.reaches hr, hfew⟩, hstage⟩
  have hstaff : Staffed c (p.state (m + 1)) := Staffed.reaches ⟨_, h0, p.run_acts (m + 1)⟩
  refine ⟨m + 1, by omega, ho, hun, fun w hw => ?_, h'.nothing_after ho⟩
  have hown := h'.owner
  rw [ho] at hown
  exact (hown.2.2 w).resolve_right (hstaff.staffed (by rw [ho]; trivial) w hw)

/-- Dropped while both workers are still pinning. -/
def dropBegun : List Action := [.new, .new, .new, .beginDrop]

/-- Such a drop returns on some fair path. -/
theorem drop_returns_fairly_byte : ∃ p : Path (step twoBytes), ∃ m, 4 < m ∧
    (p.state m).owner = .dropped ∧ (p.state m).mapped = false ∧
    (∀ w, w < twoBytes.buffer.replicas → Stopped ((p.state m).workers w).pc) ∧
    ∀ a, step twoBytes (p.state m) a = none := by
  have hr : ∃ s, Reaches twoBytes dropBegun s ∧ s.reads < 2 ^ 62 ∧ s.owner = .closing :=
    ⟨_, ⟨_, rfl, rfl⟩, by decide, rfl⟩
  obtain ⟨s, hr, hfew, ho⟩ := hr
  obtain ⟨p, h0, hend, hfair⟩ := exists_fair_path hr
  change p.state 4 = s at hend
  exact ⟨p, drop_returns_fairly twoBytes (fun _ hp => (by cases hp)) p h0 hfair 4 (hend ▸ hfew)
    (by rw [hend, ho]; trivial) (by rw [hend, ho]; simp)⟩

end HedgedRuntime

end Tailslayer
