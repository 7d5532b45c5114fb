import Tailslayer.LowLevelCycle

/-!
# One worker of `LinuxHedgedReader`

`Spawned r xs w wk`: thread `w` of reader `r` reads through the base of replica
`w`, and has done what its program point says (`AtPc`).  Its steps keep that, and
it gives the worker's part of the life cycle (`Spawned.servesOnce`).
-/

namespace Tailslayer

open Word

variable {V : Type}

namespace CallbackWorker

/-- What a worker on the contents `xs` has done at its program point. -/
def AtPc (xs : List V) (wk : CallbackWorker V) : CallbackPc → Prop
  | .pinning => wk.waitCalls = 0 ∧ wk.waited = none ∧ wk.finalCalls = []
  | .waitWork => wk.waitCalls = 1 ∧ wk.waited = none ∧ wk.finalCalls = []
  | .reading i =>
    wk.waitCalls = 1 ∧ wk.waited = some (.returned i) ∧ i < xs.length ∧ wk.finalCalls = []
  | .finalWork | .returned =>
    wk.waitCalls = 1 ∧ ∃ i, ∃ h : i < xs.length,
      wk.waited = some (.returned i) ∧ wk.finalCalls = [xs[i]]
  | .panicked =>
    wk.waitCalls = 1 ∧ ((∃ i, ∃ h : i < xs.length,
        wk.waited = some (.returned i) ∧ wk.finalCalls = [xs[i]]) ∨
      wk.waited ≠ none ∧ (∀ i, wk.waited = some (.returned i) → xs.length ≤ i) ∧
        wk.finalCalls = [])
  | .faulted => False

/-- Thread `w` of reader `r`, whose contents are `xs`. -/
structure Spawned (r : LinuxHedgedReader V) (xs : List V) (w : Nat) (wk : CallbackWorker V) :
    Prop where
  core_eq : r.workerCores[w]? = some wk.core
  base_eq : r.buffer.replicaBasePtr w = .ok wk.replicaBase
  layout_eq : wk.layout = r.buffer.layout
  len_eq : wk.logicalLen = xs.length
  at_pc : wk.AtPc xs wk.pc

section
variable {r : LinuxHedgedReader V} {xs : List V} {w : Nat} {wk wk' : CallbackWorker V}
  (h : wk.Spawned r xs w)
include h

theorem Spawned.servesOnce : wk.ServesOnce xs := by
  have hat := h.at_pc
  cases hpc : wk.pc with
  | faulted =>
    rw [hpc] at hat
    exact hat.elim
  | pinning | waitWork =>
    rw [hpc] at hat
    obtain ⟨h1, -, h3⟩ := hat
    exact ⟨by omega, Or.inl h3, by simp [hpc, CallbackPc.joined], by simp [hpc]⟩
  | reading i =>
    rw [hpc] at hat
    obtain ⟨h1, -, -, h4⟩ := hat
    exact ⟨by omega, Or.inl h4, by simp [hpc, CallbackPc.joined], by simp [hpc]⟩
  | finalWork =>
    rw [hpc] at hat
    obtain ⟨h1, h2⟩ := hat
    exact ⟨by omega, Or.inr h2, by simp [hpc, CallbackPc.joined], by simp [hpc]⟩
  | returned =>
    rw [hpc] at hat
    obtain ⟨h1, i, hi, hw, hf⟩ := hat
    refine ⟨by omega, Or.inr ⟨i, hi, hw, hf⟩, fun _ => ⟨h1, by simp [hw], ?_, fun hout => ?_⟩,
      by simp [hpc]⟩
    · intro j hj hw'
      rw [hw] at hw'
      cases hw'
      exact hf
    · have := hout i hw
      omega
  | panicked =>
    rw [hpc] at hat
    obtain ⟨h1, ⟨i, hi, hw, hf⟩ | ⟨hw, hout, hf⟩⟩ := hat
    · refine ⟨by omega, Or.inr ⟨i, hi, hw, hf⟩, fun _ => ⟨h1, by simp [hw], ?_, fun hout => ?_⟩,
        by simp [hpc]⟩
      · intro j hj hw'
        rw [hw] at hw'
        cases hw'
        exact hf
      · have := hout i hw
        omega
    · refine ⟨by omega, Or.inl hf, fun _ => ⟨h1, hw, ?_, fun _ => ⟨hf, hpc⟩⟩, by simp [hpc]⟩
      intro j hj hw'
      have := hout j hw'
      omega

variable {host : Host} {slots : Nat → V} {event : WorkerEvent}
  (hpin : (pinToCpu host wk.core).isSome = true)
  (hread : ∀ i (hi : i < xs.length),
    slots (wk.replicaBase + r.buffer.layout.elementOffset usize i) = xs[i])
include hpin hread

omit hpin in
/-- A step keeps what the closure captured and what is known at the program point. -/
theorem Spawned.step (hs : wk.step host (some slots) event = some wk') :
    wk'.Spawned r xs w := by
  obtain ⟨h1, h2, h3, h4, hat⟩ := h
  unfold CallbackWorker.step at hs
  split at hs
  · next hpc =>
    -- pinning, whose error does not matter
    rw [hpc] at hat
    split at hs
    · cases hs
    · cases hs
      exact ⟨h1, h2, h3, h4, by simp only [hat.1], hat.2⟩
  · next hpc =>
    rw [hpc] at hat
    cases hs
    exact ⟨h1, h2, h3, h4, hat.1, Or.inr ⟨by simp, nofun, hat.2.2⟩⟩
  · next i hpc =>
    rw [hpc] at hat
    split at hs
    · next hi =>
      cases hs
      exact ⟨h1, h2, h3, h4, hat.1, rfl, h4 ▸ hi, hat.2.2⟩
    · next hi =>
      -- the assertion fails
      cases hs
      refine ⟨h1, h2, h3, h4, hat.1, Or.inr ⟨by simp, ?_, hat.2.2⟩⟩
      intro j hj
      cases hj
      omega
  · next i hpc =>
    rw [hpc] at hat
    obtain ⟨hw, hwait, hi, hf⟩ := hat
    cases hs
    refine ⟨h1, h2, h3, h4, hw, i, hi, hwait, ?_⟩
    simp only [hf, h3, hread i hi, List.nil_append]
  · next hpc =>
    rw [hpc] at hat
    cases hs
    exact ⟨h1, h2, h3, h4, hat⟩
  · next hpc =>
    rw [hpc] at hat
    cases hs
    exact ⟨h1, h2, h3, h4, hat.1, Or.inl hat.2⟩
  · cases hs

omit hread in
/-- Whatever the callbacks do, a worker that has not ended gets on. -/
theorem Spawned.goes_on (hrun : wk.pc.joined = none) (waited : Outcome Nat)
    (finished : Outcome Unit) :
    ∃ event ∈ [.run, .waitWork waited, .finalWork finished], ∃ wk',
      wk.step host (some slots) event = some wk' ∧ wk'.pc.stepsLeft < wk.pc.stepsLeft := by
  have hat := h.at_pc
  cases hpc : wk.pc with
  | pinning =>
    obtain ⟨res, hres⟩ := Option.isSome_iff_exists.mp hpin
    have hstep : wk.step host (some slots) .run =
        some { wk with pc := .waitWork, waitCalls := wk.waitCalls + 1 } := by
      simp only [CallbackWorker.step, hpc, hres]
    exact ⟨.run, by simp, _, hstep, by simp [CallbackPc.stepsLeft]⟩
  | waitWork =>
    have hstep : ∃ pc : CallbackPc, pc.stepsLeft < CallbackPc.waitWork.stepsLeft ∧
        wk.step host (some slots) (.waitWork waited) =
          some { wk with pc := pc, waited := some waited } := by
      cases waited with
      | panicked => exact ⟨.panicked, by decide, by simp only [CallbackWorker.step, hpc]⟩
      | returned i =>
        by_cases hi : i < wk.logicalLen
        · exact ⟨.reading i, by simp [CallbackPc.stepsLeft], by
            simp only [CallbackWorker.step, hpc, if_pos hi]⟩
        · exact ⟨.panicked, by decide, by simp only [CallbackWorker.step, hpc, if_neg hi]⟩
    obtain ⟨pc, hleft, hstep⟩ := hstep
    exact ⟨.waitWork waited, by simp, _, hstep, hleft⟩
  | reading i =>
    have hstep : ∃ finals, wk.step host (some slots) .run =
        some { wk with pc := .finalWork, finalCalls := finals } :=
      ⟨_, by simp only [CallbackWorker.step, hpc]; rfl⟩
    obtain ⟨finals, hstep⟩ := hstep
    exact ⟨.run, by simp, _, hstep, by simp [CallbackPc.stepsLeft]⟩
  | finalWork =>
    have hstep : ∃ pc : CallbackPc, pc.stepsLeft < CallbackPc.finalWork.stepsLeft ∧
        wk.step host (some slots) (.finalWork finished) = some { wk with pc := pc } := by
      cases finished with
      | panicked => exact ⟨.panicked, by decide, by simp only [CallbackWorker.step, hpc]⟩
      | returned u => exact ⟨.returned, by decide, by simp only [CallbackWorker.step, hpc]⟩
    obtain ⟨pc, hleft, hstep⟩ := hstep
    exact ⟨.finalWork finished, by simp, _, hstep, hleft⟩
  | returned | panicked =>
    rw [hpc] at hrun
    cases hrun
  | faulted =>
    rw [hpc] at hat
    exact hat.elim

end

/-- Threads that have ended make no step. -/
theorem running_of_step {host : Host} {memory : Option (Nat → V)} {event : WorkerEvent}
    {wk wk' : CallbackWorker V} (hs : wk.step host memory event = some wk') :
    wk.pc.joined = none := by
  cases hpc : wk.pc with
  | returned | panicked => simp [CallbackWorker.step, hpc] at hs
  | _ => rfl

end CallbackWorker

end Tailslayer
