import Tailslayer.BenchmarkMoves

/-!
# What the threads of the benchmark can do

A thread that is running gets on as soon as the signal that it may wait for is there; with
the memory gone it kills the process instead.  From this the schedules are put together that
take the main thread through an arm.
-/

namespace Tailslayer

open Crews StepRun

namespace Benchmark

variable {b : Setup} {s s' : Benchmark} {t : Nat × Nat}

/-! ## Turns -/

theorem not_over_iff : ¬ s.Over ↔ (∀ result, s.main ≠ .exited result) ∧ s.main ≠ .crashed := by
  unfold Over
  cases hmain : s.main <;> simp

section
variable (hover : ¬ s.Over)
include hover

theorem step_main : s.step b .main = s.mainStep b := if_neg hover

theorem step_write (outcome : Except IoError Unit) :
    s.step b (.write outcome) = s.writeStep b outcome := if_neg hover

theorem step_measure (t : Nat × Nat) : s.step b (.measure t) = s.measureStep b t := if_neg hover

theorem step_stress (t : Nat × Nat) : s.step b (.stress t) = s.stressStep b t := if_neg hover

end

/-- The measurement thread waits for nothing, and does not abort. -/
theorem measureStep_turn (hrun : (s.measures t).status = .running)
    (hlives : (s.measures t).pc = .pinning → pinToCore b.host (s.measures t).core ≠ none)
    (hwait : (s.measures t).pc = .waiting → s.signal = true) (hmapped : s.replicasMapped = true) :
    ∃ m, (s.measures t).Move b s.signal s.tsc m ∧
      s.measureStep b t = some (s.setMeasure t m) := by
  have hsome : ∃ s', s.measureStep b t = some s' := by
    unfold measureStep
    dsimp only
    cases hpc : (s.measures t).pc with
    | pinning =>
      dsimp only
      split
      · next hnone => exact absurd hnone (hlives hpc)
      all_goals exact ⟨_, rfl⟩
    | waiting => exact ⟨_, if_pos (hwait hpc)⟩
    | warmup i =>
      dsimp only
      by_cases hi : i < warmupIters
      · exact ⟨_, by rw [if_pos hi, if_pos hmapped]⟩
      · rw [if_neg hi]
        split <;> exact ⟨_, rfl⟩
    | sampling =>
      dsimp only
      by_cases hlen : (s.measures t).samples.length < b.config.samples
      · exact ⟨_, by rw [if_pos hlen, if_pos hmapped]⟩
      · exact ⟨_, if_neg hlen⟩
    | reading t0 => exact ⟨_, if_pos hmapped⟩
    | timing t0 =>
      dsimp only
      split <;> exact ⟨_, rfl⟩
    | unspawned | returned | failed | panicked => simp [Measurement.status, hpc] at hrun
  obtain ⟨s', hs⟩ := hsome
  rcases measureStep_cases hs with ⟨m, hmove, rfl⟩ | ⟨hun, -⟩
  · exact ⟨m, hmove, hs⟩
  · rw [hmapped] at hun
    cases hun

theorem stressStep_turn (hrun : (s.stresses t).status = .running)
    (hlives : (s.stresses t).pc = .pinning → pinToCore b.host (s.stresses t).core ≠ none)
    (hwait : (s.stresses t).pc = .waiting → s.go t.1 = true) (hmapped : s.stressMapped = true) :
    ∃ m, (s.stresses t).Move b (s.go t.1) (s.stop t.1) m ∧
      s.stressStep b t = some (s.setStress t m) := by
  have hsome : ∃ s', s.stressStep b t = some s' := by
    unfold stressStep
    dsimp only
    cases hpc : (s.stresses t).pc with
    | pinning =>
      dsimp only
      split
      · next hnone => exact absurd hnone (hlives hpc)
      all_goals exact ⟨_, rfl⟩
    | waiting => exact ⟨_, if_pos (hwait hpc)⟩
    | loopTop =>
      dsimp only
      split <;> exact ⟨_, rfl⟩
    | touching => exact ⟨_, if_pos hmapped⟩
    | unspawned | returned | failed => simp [Stress.status, hpc] at hrun
  obtain ⟨s', hs⟩ := hsome
  rcases stressStep_cases hs with ⟨m, hmove, rfl⟩ | ⟨hun, -⟩
  · exact ⟨m, hmove, hs⟩
  · rw [hmapped] at hun
    cases hun

section
variable {i : Nat}

theorem join_turn (hmain : s.main = .join i) (hi : i < (b.targets s.arm).length)
    (hret : (s.measures (s.arm, i)).status = .returned) : s.mainStep b =
      some { s with
        results := s.results ++ [(s.measures (s.arm, i)).samples], main := .join (i + 1) } := by
  simp only [mainStep, hmain, join, if_pos hi, hret]

theorem join_fails (hmain : s.main = .join i) (hi : i < (b.targets s.arm).length) {e : RunError}
    (hfail : (s.measures (s.arm, i)).status = .failed e) :
    s.mainStep b = some (s.close (.error e)) := by
  simp only [mainStep, hmain, join, if_pos hi, hfail]

theorem join_ends (hmain : s.main = .join (b.targets s.arm).length) :
    s.mainStep b = some { s with main := .stop } := by
  simp only [mainStep, hmain, join, Nat.lt_irrefl, if_false]

theorem joinStress_turn (hmain : s.main = .joinStress i) (hi : i < (b.stressors s.arm).length)
    (hret : (s.stresses (s.arm, i)).status = .returned) :
    s.mainStep b = some { s with main := .joinStress (i + 1) } := by
  simp only [mainStep, hmain, joinStress, if_pos hi, hret]

theorem joinStress_fails (hmain : s.main = .joinStress i) (hi : i < (b.stressors s.arm).length)
    {e : RunError} (hfail : (s.stresses (s.arm, i)).status = .failed e) :
    s.mainStep b = some (s.close (.error e)) := by
  simp only [mainStep, hmain, joinStress, if_pos hi, hfail]

theorem joinStress_ends (hmain : s.main = .joinStress (b.stressors s.arm).length) :
    s.mainStep b = some (s.report b) := by
  simp only [mainStep, hmain, joinStress, Nat.lt_irrefl, if_false]

end

/-! ## Setting up an arm -/

/-- The main thread is at `main` in arm `k`, and no thread of the arm has moved. -/
structure Fresh (b : Setup) (k : Nat) (main : MainPc) (s : Benchmark) : Prop where
  inv : Inv b s
  arm_eq : s.arm = k
  main_eq : s.main = main
  measures : ∀ i, (s.measures (k, i)).status ≠ .absent → (s.measures (k, i)).pc = .pinning
  stresses : ∀ i, (s.stresses (k, i)).status ≠ .absent → (s.stresses (k, i)).pc = .pinning

namespace Fresh

variable {k : Nat} {main : MainPc}

theorem of_armTop (h : Inv b s) (hmain : s.main = .armTop) : Fresh b s.arm .armTop s where
  inv := h
  arm_eq := rfl
  main_eq := hmain
  measures := by
    intro i hi
    have hlt := (h.measures.crew.present_iff s.arm i).mp hi
    rw [hmain] at hlt
    rcases hlt with ⟨hlt, -⟩ | ⟨-, hlt⟩
    · exact absurd hlt (Nat.lt_irrefl _)
    · exact absurd hlt (Nat.not_lt_zero _)
  stresses := by
    intro i hi
    have hlt := (h.stresses.crew.present_iff s.arm i).mp hi
    rw [hmain] at hlt
    rcases hlt with ⟨hlt, -⟩ | ⟨-, hlt⟩
    · exact absurd hlt (Nat.lt_irrefl _)
    · exact absurd hlt (Nat.not_lt_zero _)

variable (h : Fresh b k main s)
include h

/-- The main thread spawns threads that have not moved. -/
theorem main_move (hs : s.step b .main = some s') (hmove : MainMove b s s')
    (hreset : main ≠ .reset) : Fresh b k s'.main s' := by
  have h' := h.inv.step hs
  obtain rfl := h.arm_eq
  cases hmove with
  | startStress i region core hmain hi =>
    refine ⟨h', rfl, rfl, h.measures, fun j hj => ?_⟩
    change ((s.setStress _ _).stresses (s.arm, j)).status ≠ .absent at hj
    show ((s.setStress _ _).stresses (s.arm, j)).pc = .pinning
    by_cases hji : j = i
    · rw [hji, setStress_self]
    · have hne : (s.arm, j) ≠ (s.arm, i) := by simp [hji]
      rw [setStress_of_ne hne] at hj ⊢
      exact h.stresses j hj
  | spawn i addr core hmain hi =>
    refine ⟨h', rfl, rfl, fun j hj => ?_, h.stresses⟩
    change ((s.setMeasure _ _).measures (s.arm, j)).status ≠ .absent at hj
    show ((s.setMeasure _ _).measures (s.arm, j)).pc = .pinning
    by_cases hji : j = i
    · rw [hji, setMeasure_self]
    · have hne : (s.arm, j) ≠ (s.arm, i) := by simp [hji]
      rw [setMeasure_of_ne hne] at hj ⊢
      exact h.measures j hj
  | reset hmain => exact absurd (h.main_eq.symm.trans hmain) hreset
  | _ => exact ⟨h', rfl, rfl, h.measures, h.stresses⟩

theorem leads_main (s' : Benchmark) (hin : main.Inside ∨ main = .armTop) (hreset : main ≠ .reset)
    (hs : s.mainStep b = some s') {main' : MainPc} (hmain' : s'.main = main') :
    Leads (step b) s (Fresh b k main') := by
  have hover : ¬ s.Over := by
    rw [not_over_iff, h.main_eq]
    rcases hin with hin | rfl
    · constructor
      · rintro result rfl
        exact hin
      · rintro rfl
        exact hin
    · simp
  have hstep : s.step b .main = some s' := by
    rw [step_main hover]
    exact hs
  refine .next hstep (.here ?_)
  rw [← hmain']
  exact h.main_move hstep (h.inv.mainStep_cases hs) hreset

end Fresh

section
variable {k : Nat}

theorem Fresh.leads_spawned (h : Fresh b k (.spawn 0) s) :
    Leads (step b) s (Fresh b k (.join 0)) := by
  have hall : Leads (step b) s (Fresh b k (.spawn (b.targets k).length)) := by
    refine Leads.loop (P := fun i => Fresh b k (.spawn i)) (fun i u hi hu => ?_) (Nat.zero_le _) h
    refine hu.leads_main (u.spawn b i) (Or.inl trivial) (by simp) ?_ ?_
    · simp only [mainStep, hu.main_eq]
    · simp only [Benchmark.spawn, hu.arm_eq, List.getElem?_eq_getElem hi]
  refine hall.trans fun u hu => ?_
  have hsignal : Leads (step b) u (Fresh b k .signal) := by
    refine hu.leads_main (u.spawn b (b.targets k).length) (Or.inl trivial) (by simp) ?_ ?_
    · simp only [mainStep, hu.main_eq]
    · simp only [Benchmark.spawn, hu.arm_eq, List.getElem?_eq_none (Nat.le_refl _)]
  refine hsignal.trans fun v hv => ?_
  refine hv.leads_main ({ v with signal := true, main := .join 0 }) (Or.inl trivial)
    (by simp) ?_ rfl
  simp only [mainStep, hv.main_eq]

theorem Fresh.leads_started (h : Fresh b k (.startStress 0) s) :
    Leads (step b) s (Fresh b k (.spawn 0)) := by
  have hall : Leads (step b) s (Fresh b k (.startStress (b.stressors k).length)) := by
    refine Leads.loop (P := fun i => Fresh b k (.startStress i)) (fun i u hi hu => ?_)
      (Nat.zero_le _) h
    refine hu.leads_main (u.startStress b i) (Or.inl trivial) (by simp) ?_ ?_
    · simp only [mainStep, hu.main_eq]
    · simp only [Benchmark.startStress, hu.arm_eq, List.getElem?_eq_getElem hi]
  refine hall.trans fun u hu => ?_
  have hgo : Leads (step b) u (Fresh b k .go) := by
    refine hu.leads_main (u.startStress b (b.stressors k).length) (Or.inl trivial)
      (by simp) ?_ ?_
    · simp only [mainStep, hu.main_eq]
    · simp only [Benchmark.startStress, hu.arm_eq, List.getElem?_eq_none (Nat.le_refl _)]
  refine hgo.trans fun v hv => ?_
  refine hv.leads_main
    ({ v with go := Function.update v.go v.arm true, main := .spawn 0 }) (Or.inl trivial)
    (by simp) ?_ rfl
  simp only [mainStep, hv.main_eq]

/-- All threads of an arm can be spawned before one of them moves. -/
theorem Fresh.leads_joining (h : Fresh b k .armTop s) (hk : k < b.config.arms.length) :
    Leads (step b) s (Fresh b k (.join 0)) := by
  have harm := List.getElem?_eq_getElem hk
  have hs : s.mainStep b = some (s.armTop b) := by
    simp only [mainStep, h.main_eq]
  cases hregion : b.stressRegion b.config.arms[k] with
  | none =>
    have hspawn : Leads (step b) s (Fresh b k (.spawn 0)) := by
      refine h.leads_main _ (Or.inr rfl) (by simp) hs ?_
      simp only [Benchmark.armTop, h.arm_eq, harm, hregion]
    exact hspawn.trans fun u hu => hu.leads_spawned
  | some region =>
    have hstress : Leads (step b) s (Fresh b k (.startStress 0)) := by
      refine h.leads_main _ (Or.inr rfl) (by simp) hs ?_
      simp only [Benchmark.armTop, h.arm_eq, harm, hregion]
    exact (hstress.trans fun u hu => hu.leads_started).trans fun u hu => hu.leads_spawned

end

/-! ## Joining -/

/-- A measurement thread that is at its core can run until it returns. -/
theorem Inv.leads_returned (hfit : b.SamplesFit) (h : Inv b s) (hover : ¬ s.Over)
    (hpin : Pins b.host (s.measures t).core) (hpresent : (s.measures t).status ≠ .absent)
    (hsignal : s.signal = true) (hmapped : s.replicasMapped = true) :
    Leads (Benchmark.step b) s fun u => (Inv b u ∧ ∃ m, u = s.setMeasure t m) ∧
      (u.measures t).status = .returned := by
  have hself : s = s.setMeasure t (s.measures t) := by
    unfold setMeasure
    rw [Function.update_eq_self]
  have hleads : Leads (Benchmark.step b) s fun u => (Inv b u ∧ (∃ m, u = s.setMeasure t m) ∧
      Pins b.host (u.measures t).core ∧ (u.measures t).status ≠ .absent) ∧
      (u.measures t).status = .returned := by
    refine Leads.of_rank (fun u => (u.measures t).stepsLeft b.config.samples) ?_
      ⟨h, ⟨_, hself⟩, hpin, hpresent⟩
    rintro u ⟨hu, ⟨m, rfl⟩, hpin, hpresent⟩
    have hat := hu.measures.at_pc t
    cases hstatus : ((s.setMeasure t m).measures t).status with
    | absent => exact absurd hstatus hpresent
    | returned => exact Or.inl rfl
    | failed e => exact absurd hpin (Measurement.not_pins_of_failed hfit hat hstatus)
    | running =>
      obtain ⟨m', hmove, hs⟩ :=
        measureStep_turn (b := b) hstatus (fun _ => hpin.not_none) (fun _ => hsignal) hmapped
      have hstep : (s.setMeasure t m).step b (.measure t) =
          some ((s.setMeasure t m).setMeasure t m') := by
        rw [step_measure (show ¬ (s.setMeasure t m).Over from hover)]
        exact hs
      refine Or.inr ⟨_, _, hstep, ⟨hu.step hstep, ⟨m', ?_⟩, ?_, ?_⟩, ?_⟩
      · simp only [setMeasure, Function.update_idem]
      · rw [setMeasure_self, hmove.core_eq]
        exact hpin
      · rw [setMeasure_self]
        exact hmove.present
      · simp only [setMeasure_self] at hmove hat ⊢
        exact hmove.stepsLeft_lt hat
  exact hleads.trans fun u hu => .here ⟨⟨hu.1.1, hu.1.2.1⟩, hu.2⟩

theorem Inv.leads_stress_returned (h : Inv b s) (hover : ¬ s.Over)
    (hpin : Pins b.host (s.stresses t).core) (hpresent : (s.stresses t).status ≠ .absent)
    (hgo : s.go t.1 = true) (hstop : s.stop t.1 = true) (hmapped : s.stressMapped = true) :
    Leads (Benchmark.step b) s fun u => (Inv b u ∧ ∃ m, u = s.setStress t m) ∧
      (u.stresses t).status = .returned := by
  have hself : s = s.setStress t (s.stresses t) := by
    unfold setStress
    rw [Function.update_eq_self]
  have hleads : Leads (Benchmark.step b) s fun u => (Inv b u ∧ (∃ m, u = s.setStress t m) ∧
      Pins b.host (u.stresses t).core ∧ (u.stresses t).status ≠ .absent) ∧
      (u.stresses t).status = .returned := by
    refine Leads.of_rank (fun u => (u.stresses t).stepsLeft) ?_ ⟨h, ⟨_, hself⟩, hpin, hpresent⟩
    rintro u ⟨hu, ⟨m, rfl⟩, hpin, hpresent⟩
    have hat := hu.stresses.at_pc t
    cases hstatus : ((s.setStress t m).stresses t).status with
    | absent => exact absurd hstatus hpresent
    | returned => exact Or.inl rfl
    | failed e => exact absurd hpin (Stress.not_pins_of_failed hat hstatus)
    | running =>
      obtain ⟨m', hmove, hs⟩ :=
        stressStep_turn (b := b) hstatus (fun _ => hpin.not_none) (fun _ => hgo) hmapped
      have hstep : (s.setStress t m).step b (.stress t) =
          some ((s.setStress t m).setStress t m') := by
        rw [step_stress (show ¬ (s.setStress t m).Over from hover)]
        exact hs
      refine Or.inr ⟨_, _, hstep, ⟨hu.step hstep, ⟨m', ?_⟩, ?_, ?_⟩, ?_⟩
      · simp only [setStress, Function.update_idem]
      · rw [setStress_self, hmove.core_eq]
        exact hpin
      · rw [setStress_self]
        exact hmove.present
      · rw [setStress_self]
        exact hmove.stepsLeft_lt hstop
  exact hleads.trans fun u hu => .here ⟨⟨hu.1.1, hu.1.2.1⟩, hu.2⟩

/-- In arm `k` at `main`; the measurement threads from `i` on, and the stress threads from
`j` on, are as in `s₀`. -/
structure Kept (b : Setup) (s₀ : Benchmark) (k : Nat) (main : MainPc) (i j : Nat)
    (s : Benchmark) : Prop where
  inv : Inv b s
  arm_eq : s.arm = k
  main_eq : s.main = main
  measures : ∀ i', i ≤ i' → s.measures (k, i') = s₀.measures (k, i')
  stresses : ∀ j', j ≤ j' → s.stresses (k, j') = s₀.stresses (k, j')

namespace Kept

variable {s₀ : Benchmark} {k i i' j j' : Nat}

/-- Measurement threads that are pinned to their cores can all be joined. -/
theorem leads_join (hfit : b.SamplesFit) (h : Kept b s₀ k (.join i) i j s) (hle : i ≤ i')
    (hi' : i' ≤ (b.targets k).length)
    (hpins : ∀ l e, l < i' → (b.targets k)[l]? = some e → Pins b.host e.2) :
    Leads (step b) s (Kept b s₀ k (.join i') i' j) := by
  refine Leads.loop (P := fun l => Kept b s₀ k (.join l) l j) (fun l u hl hu => ?_) hle h
  obtain rfl := hu.arm_eq
  have hin : u.main.Inside := by rw [hu.main_eq]; trivial
  have hover : ¬ u.Over := by rw [not_over_iff, hu.main_eq]; simp
  have hpresent : (u.measures (u.arm, l)).status ≠ .absent := by
    rw [hu.inv.measures.crew.present_iff, hu.main_eq]
    exact Or.inr ⟨rfl, Nat.lt_of_lt_of_le hl hi'⟩
  have htarget := hu.inv.measures.target _ hpresent
  have hreturned := hu.inv.leads_returned hfit hover (hpins l _ hl htarget) hpresent
    (hu.inv.measures.signal_on hin (by rw [hu.main_eq]; trivial))
    (hu.inv.mapped_inside (Or.inl hin)).1
  refine hreturned.trans fun v ⟨⟨hv, m, hvu⟩, hret⟩ => ?_
  subst hvu
  have hs := join_turn (b := b) (s := u.setMeasure (u.arm, l) m) hu.main_eq
    (Nat.lt_of_lt_of_le hl hi') hret
  rw [← step_main (show ¬ (u.setMeasure (u.arm, l) m).Over from hover)] at hs
  refine .next hs (.here ⟨hv.step hs, rfl, rfl, fun l' hl' => ?_, hu.stresses⟩)
  show (u.setMeasure (u.arm, l) m).measures (u.arm, l') = _
  rw [setMeasure_of_ne (by simp; omega)]
  exact hu.measures l' (by omega)

theorem leads_stop (h : Kept b s₀ k (.join (b.targets k).length) i j s) :
    Leads (step b) s (Kept b s₀ k (.joinStress 0) i j) := by
  obtain rfl := h.arm_eq
  have hover : ¬ s.Over := by rw [not_over_iff, h.main_eq]; simp
  have hs := join_ends h.main_eq
  rw [← step_main hover] at hs
  refine .next hs ?_
  have hs' : ({ s with main := .stop } : Benchmark).step b .main = some
      { s with stop := Function.update s.stop s.arm true, main := .joinStress 0 } := rfl
  exact .next hs' (.here ⟨(h.inv.step hs).step hs', rfl, rfl, h.measures, h.stresses⟩)

theorem leads_joinStress (h : Kept b s₀ k (.joinStress j) i j s) (hle : j ≤ j')
    (hj' : j' ≤ (b.stressors k).length)
    (hpins : ∀ l e, l < j' → (b.stressors k)[l]? = some e → Pins b.host e.2) :
    Leads (step b) s (Kept b s₀ k (.joinStress j') i j') := by
  refine Leads.loop (P := fun l => Kept b s₀ k (.joinStress l) i l) (fun l u hl hu => ?_) hle h
  obtain rfl := hu.arm_eq
  have hin : u.main.Inside := by rw [hu.main_eq]; trivial
  have hover : ¬ u.Over := by rw [not_over_iff, hu.main_eq]; simp
  have hlt : l < (b.stressors u.arm).length := Nat.lt_of_lt_of_le hl hj'
  have hpresent : (u.stresses (u.arm, l)).status ≠ .absent := by
    rw [hu.inv.stresses.crew.present_iff, hu.main_eq]
    exact Or.inr ⟨rfl, hlt⟩
  have htarget := hu.inv.stresses.target _ hpresent
  have hne : b.stressors u.arm ≠ [] := by
    intro hnil
    rw [hnil] at hlt
    exact Nat.not_lt_zero l hlt
  have hreturned := hu.inv.leads_stress_returned hover (hpins l _ hl htarget) hpresent
    (hu.inv.stresses.go_on hin (by rw [hu.main_eq]; trivial) hne)
    (hu.inv.stresses.stop_on hin (by rw [hu.main_eq]; trivial))
    (hu.inv.mapped_inside (Or.inl hin)).2
  refine hreturned.trans fun v ⟨⟨hv, m, hvu⟩, hret⟩ => ?_
  subst hvu
  have hs := joinStress_turn (b := b) (s := u.setStress (u.arm, l) m) hu.main_eq hlt hret
  rw [← step_main (show ¬ (u.setStress (u.arm, l) m).Over from hover)] at hs
  refine .next hs (.here ⟨hv.step hs, rfl, rfl, hu.measures, fun l' hl' => ?_⟩)
  show (u.setStress (u.arm, l) m).stresses (u.arm, l') = _
  rw [setStress_of_ne (by simp; omega)]
  exact hu.stresses l' (by omega)

end Kept

/-- The report is printed, each file is written, and the next arm begins. -/
theorem Inv.leads_next_arm (h : Inv b s) {chunks : List Chunk} (hmain : s.main = .write chunks) :
    Leads (Benchmark.step b) s fun u => Inv b u ∧ u.arm = s.arm + 1 ∧ u.main = .armTop := by
  induction chunks generalizing s with
  | nil =>
    have hs : s.step b .main = some { s with main := .reset } := by
      rw [step_main (by rw [not_over_iff, hmain]; simp)]
      simp only [Benchmark.mainStep, hmain]
    have hs' : ({ s with main := .reset } : Benchmark).step b .main = some
        { s with signal := false, arm := s.arm + 1, main := .armTop } := rfl
    exact .next hs (.next hs' (.here ⟨(h.step hs).step hs', rfl, rfl⟩))
  | cons chunk rest ih =>
    have hs : s.step b (.write (.ok ())) =
        some { s with printed := s.printed ++ chunk.lines, main := .write rest } := by
      rw [step_write (by rw [not_over_iff, hmain]; simp)]
      simp only [Benchmark.writeStep, hmain]
    exact .next hs (ih (h.step hs) rfl)

/-- An arm whose threads can all be pinned can be run to its end. -/
theorem Inv.leads_arm (hfit : b.SamplesFit) (h : Inv b s) (hmain : s.main = .armTop)
    (hlt : s.arm < b.config.arms.length) (hpins : ∀ core ∈ b.cores s.arm, Pins b.host core) :
    Leads (Benchmark.step b) s fun u => Inv b u ∧ u.arm = s.arm + 1 ∧ u.main = .armTop := by
  have hpin : ∀ (l : Nat) (e : Nat × Nat), (b.targets s.arm)[l]? = some e →
      Pins b.host e.2 := fun l e he =>
    hpins _ (List.mem_append.mpr (Or.inl (List.mem_map_of_mem (List.mem_of_getElem? he))))
  have hpin' : ∀ (l : Nat) (e : Nat × Nat), (b.stressors s.arm)[l]? = some e →
      Pins b.host e.2 := fun l e he =>
    hpins _ (List.mem_append.mpr (Or.inr (List.mem_map_of_mem (List.mem_of_getElem? he))))
  refine ((Fresh.of_armTop h hmain).leads_joining hlt).trans fun u hu => ?_
  have hkept : Kept b u s.arm (.join 0) 0 0 u :=
    ⟨hu.inv, hu.arm_eq, hu.main_eq, fun _ _ => rfl, fun _ _ => rfl⟩
  refine (hkept.leads_join hfit (Nat.zero_le _) (Nat.le_refl _) fun l e _ => hpin l e).trans
    fun v hv => hv.leads_stop.trans fun w hw => ?_
  refine (hw.leads_joinStress (Nat.zero_le _) (Nat.le_refl _) fun l e _ => hpin' l e).trans
    fun x hx => ?_
  have hin : x.main.Inside := by rw [hx.main_eq]; trivial
  have hover : ¬ x.Over := by rw [not_over_iff, hx.main_eq]; simp
  have hresults := hx.inv.measures.results hin
  have hreturned := hx.inv.measures.crew.returned
  rw [hx.main_eq] at hresults hreturned
  obtain ⟨arm, chunks, -, -, hreport⟩ :=
    hx.inv.report_chunks hreturned (hx.inv.inside hin) hresults
  have hs : x.step b .main = some { x with main := .write chunks } := by
    rw [step_main hover, joinStress_ends (by rw [hx.main_eq, hx.arm_eq]), hreport]
  have hnext := (hx.inv.step hs).leads_next_arm rfl
  rw [← hx.arm_eq]
  exact .next hs hnext

/-- Every arm that is reached can be begun. -/
theorem leads_reached (hfit : b.SamplesFit) {k : Nat} (hk : b.Reached k) :
    Leads (step b) start fun u => Inv b u ∧ u.arm = k ∧ u.main = .armTop := by
  refine Leads.loop (P := fun l u => Inv b u ∧ u.arm = l ∧ u.main = .armTop)
    (fun l u hl ⟨hu, harm, hmain⟩ => ?_) (Nat.zero_le k) ⟨inv_start b, rfl, rfl⟩
  subst harm
  exact hu.leads_arm hfit hmain (Nat.lt_trans hl hk.1) (hk.2 _ hl)

end Benchmark

end Tailslayer
