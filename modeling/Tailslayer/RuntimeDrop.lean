import Tailslayer.RuntimeRead

/-!
# Shutdown is clean

From `beginDrop` on no call is in progress, so no worker can be in a claim
section or win a `compare_exchange`: every step leaves `winner_state` and the
cell alone (`Inv.closing_step`).  The id that `drop` itself adds to wake the
workers is beyond those that were published, and the second shutdown load keeps
every worker from it.
-/

namespace Tailslayer

open Word

namespace HedgedRuntime

variable {V : Type}

/-- `drop` has begun. -/
def Closing : Owner → Prop
  | .closing | .joining _ | .dropped => True
  | _ => False

section
variable {c : Config V} {s s' : HedgedRuntime V} (h : Inv c s)
include h

theorem Inv.idle_of_closing (hcl : Closing s.owner) : s.reader = .idle := by
  have hown := h.owner
  cases ho : s.owner with
  | closing | joining | dropped =>
    rw [ho] at hown
    exact hown.1
  | _ =>
    rw [ho] at hcl
    exact hcl.elim

/-- Without a call in progress workers store nothing. -/
theorem Inv.worker_quiet (hidle : s.reader = .idle) {w : Nat}
    (hs : s.workerStep c w = some s') : s'.state = s.state := by
  have hnone : s.reader.current = none := by
    rw [hidle]
    rfl
  rcases h.workerStep_state (h.no_section_of_none hnone w) hs with
    hstate | ⟨requestId, value, hpc, hcas⟩
  · exact hstate
  · -- nobody waits for the request, so it is not pending
    have hat := (h.workers w).at_pc
    have hle := (h.workers w).seen_le
    have hfits := h.next_fits
    have hpub : s.view.published ≤ s.nextRequestId - 1 := Nat.sub_le _ _
    rw [hpc] at hat
    rw [hat.1] at hle
    rw [h.winner_eq] at hcas
    have hst := (lastTag_eq_pending_iff hat.2.1 (by omega) h.stage_lt).mp hcas
    obtain ⟨i, hc⟩ := h.pending_spec hle hst
    rw [hnone] at hc
    cases hc

/-- A step of a runtime being dropped. -/
theorem Inv.closing_step (hcl : Closing s.owner) {a : Action} (hs : s.step c a = some s') :
    Closing s'.owner ∧ s'.state.winnerState = s.state.winnerState ∧
      s'.state.value = s.state.value ∧ a.isCall = false := by
  have hidle := h.idle_of_closing hcl
  have hother : ∀ o, ¬ Closing o → s.owner ≠ o := fun o ho he => ho (he ▸ hcl)
  cases a with
  | new =>
    simp only [HedgedRuntime.step, HedgedRuntime.newStep] at hs
    split at hs
    · next replica ho => exact absurd ho (hother (.spawning replica) id)
    · cases hs
  | spawnFails =>
    simp only [HedgedRuntime.step, HedgedRuntime.spawnFails] at hs
    split at hs
    · next replica ho => exact absurd ho (hother (.spawning replica) id)
    · cases hs
  | unwind =>
    simp only [HedgedRuntime.step, HedgedRuntime.unwind] at hs
    split at hs
    · next ho => exact absurd ho (hother .unwinding id)
    · cases hs
  | call index =>
    simp only [HedgedRuntime.step, HedgedRuntime.call] at hs
    rw [if_pos (hother .serving id)] at hs
    cases hs
  | storeIndex =>
    simp [HedgedRuntime.step, HedgedRuntime.storeIndex, hidle] at hs
  | storeState =>
    simp [HedgedRuntime.step, HedgedRuntime.storeState, hidle] at hs
  | read =>
    simp [HedgedRuntime.step, HedgedRuntime.readStep, hidle] at hs
  | worker w =>
    have hstate := h.worker_quiet hidle hs
    have howner : s'.owner = s.owner := by
      obtain ⟨state, wk, -, rfl⟩ := workerStep_cases hs
      rfl
    rw [howner, hstate]
    exact ⟨hcl, rfl, rfl, rfl⟩
  | beginDrop =>
    simp only [HedgedRuntime.step, HedgedRuntime.beginDrop] at hs
    rw [if_neg (fun hc => hother .serving id hc.1)] at hs
    cases hs
  | drop =>
    simp only [HedgedRuntime.step, HedgedRuntime.dropStep] at hs
    split at hs
    · cases hs
      exact ⟨trivial, rfl, rfl, rfl⟩
    · split at hs
      · split at hs
        · cases hs
          exact ⟨trivial, rfl, rfl, rfl⟩
        · cases hs
      · cases hs
        exact ⟨trivial, rfl, rfl, rfl⟩
    · cases hs

/-- A whole run of a runtime being dropped. -/
theorem Inv.closing_run (hreads : s.reads < 2 ^ 62) (hcl : Closing s.owner) {more : List Action}
    (hrun : StepRun.run (HedgedRuntime.step c) s more = some s') :
    s'.state.winnerState = s.state.winnerState ∧ s'.state.value = s.state.value := by
  have hP : Inv c s' ∧ Closing s'.owner ∧ s'.reads = s.reads ∧
      s'.state.winnerState = s.state.winnerState ∧ s'.state.value = s.state.value := by
    refine StepRun.run_preserves (P := fun t => Inv c t ∧ Closing t.owner ∧
      t.reads = s.reads ∧ t.state.winnerState = s.state.winnerState ∧
      t.state.value = s.state.value) ?_ ⟨h, hcl, rfl, rfl, rfl⟩ hrun
    rintro t a t' ⟨ht, htcl, htr, htw, htv⟩ hs
    obtain ⟨h1, h2, h3, h4⟩ := ht.closing_step htcl hs
    have hr := reads_step hs
    rw [h4, Bool.toNat_false, Nat.add_zero] at hr
    exact ⟨ht.step (by omega) hs, h1, hr.trans htr, h2.trans htw, h3.trans htv⟩
  exact hP.2.2.2

end

/-- **Shutdown is clean.**  No worker takes an id that no read issued; from the
beginning of `drop` on `winner_state` and the cell stay as they are; and no
worker is left that could read the memory once it is unmapped. -/
theorem drop_clean (c : Config V) (acts : List Action) (s : HedgedRuntime V)
    (hr : Reaches c acts s) (hfew : FewReads acts) :
    (∀ w, (s.workers w).seenRequest = 0 ∨
      1 ≤ (s.workers w).seenRequest ∧ (s.workers w).seenRequest < s.nextRequestId) ∧
    (∀ s₁ more s', s.step c .beginDrop = some s₁ → StepRun.run (step c) s₁ more = some s' →
      s'.state.winnerState = s.state.winnerState ∧ s'.state.value = s.state.value) ∧
    (s.mapped = false → ∀ w requestId index, (s.workers w).pc ≠ .readMemory requestId index) ∧
    (∀ w, (s.workers w).pc ≠ .faulted) := by
  have h := Inv.reaches hr hfew
  refine ⟨fun w => ?_, fun s₁ more s' hbegin hrun => ?_, fun hun w requestId index hpc => ?_,
    fun w hpc => ?_⟩
  · have hle := (h.workers w).seen_le
    have hpos := h.next_pos
    have hpub : s.view.published ≤ s.nextRequestId - 1 := Nat.sub_le _ _
    omega
  · have hreads : s₁.reads = s.reads := by simpa [Action.isCall] using reads_step hbegin
    have hbound : s.reads < 2 ^ 62 := by
      rw [reads_reaches hr]
      exact hfew
    have hinv := h.step (hreads ▸ hbound) hbegin
    have hstart : Closing s₁.owner ∧ s₁.state.winnerState = s.state.winnerState ∧
        s₁.state.value = s.state.value := by
      simp only [step, beginDrop] at hbegin
      split at hbegin
      · cases hbegin
        exact ⟨trivial, rfl, rfl⟩
      · cases hbegin
    obtain ⟨h1, h2⟩ := hinv.closing_run (hreads ▸ hbound) hstart.1 hrun
    exact ⟨h1.trans hstart.2.1, h2.trans hstart.2.2⟩
  · rw [(h.memory hpc).1] at hun
    cases hun
  · have hat := (h.workers w).at_pc
    rw [hpc] at hat
    exact hat

/-- Both workers are joined and the memory is unmapped. -/
def closed : List Action :=
  [.beginDrop, .drop] ++ List.replicate 1 (.worker 0) ++ List.replicate 2 (.worker 1) ++
    List.replicate 3 .drop

/-- A read, and then the drop. -/
theorem drop_clean_byte :
    ∃ s, Reaches twoBytes (servedRead 1 ++ closed) s ∧ s.owner = .dropped ∧ s.mapped = false ∧
      ∀ w requestId index, (s.workers w).pc ≠ .readMemory requestId index :=
  ⟨_, ⟨_, rfl, rfl⟩, rfl, rfl, (drop_clean twoBytes (servedRead 1 ++ closed) _
    ⟨_, rfl, rfl⟩ (by decide)).2.2.1 rfl⟩

end HedgedRuntime

end Tailslayer
