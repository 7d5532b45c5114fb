import Tailslayer.BenchmarkResult

/-!
# When the benchmark crashes

`run_arm` returns at the first thread that it joins and that has failed.  It leaves the later
ones running, and then `run` unmaps the memory that they read.  A crash is possible just where
an arm is torn in this way: one thread is kept from its core, and one
that is joined later is not (`crash_iff`).  A core that no set can name aborts the process
before that, and a count of samples that no vector can have fails in every thread; both are
left out here.
-/

namespace Tailslayer

open Crews StepRun

namespace Benchmark

variable {b : Setup} {s s' : Benchmark} {t : Nat × Nat}

/-! ## A thread fails -/

theorem refused_of_not_pins {host : Host} {core : Nat} (hlow : core < 1024)
    (hpin : ¬ Pins host core) : ∃ e, pinToCore host core = some (.error e) := by
  cases hcore : pinToCore host core with
  | none =>
    have := (pinToCore_eq_none_iff host core).mp hcore
    omega
  | some answer =>
    cases answer with
    | error e => exact ⟨e, rfl⟩
    | ok => exact absurd hcore hpin

/-- A measurement thread that is kept from its core ends `run`; nobody else moves. -/
theorem leads_failed {i : Nat} (hmain : s.main = .join i)
    (hi : i < (b.targets s.arm).length) (hpc : (s.measures (s.arm, i)).pc = .pinning)
    (hlow : (s.measures (s.arm, i)).core < 1024)
    (hpin : ¬ Pins b.host (s.measures (s.arm, i)).core) :
    Leads (step b) s fun u => (∃ result, u.main = .unmapReplicas result) ∧
      (∀ t, t ≠ (s.arm, i) → u.measures t = s.measures t) ∧ u.stresses = s.stresses := by
  have hover : ¬ s.Over := by rw [not_over_iff, hmain]; simp
  obtain ⟨io, hrefused⟩ := refused_of_not_pins hlow hpin
  have hfail : ∃ m e, m.status = .failed e ∧
      s.measureStep b (s.arm, i) = some (s.setMeasure (s.arm, i) m) := by
    unfold measureStep
    simp only [hpc, hrefused]
    exact ⟨_, _, rfl, rfl⟩
  obtain ⟨m, e, hstatus, hs⟩ := hfail
  have hover' : ¬ (s.setMeasure (s.arm, i) m).Over := hover
  have hs' := join_fails (b := b) (s := s.setMeasure (s.arm, i) m) (e := e) hmain hi
    (by rw [← hstatus]; exact congrArg Measurement.status (setMeasure_self (s.arm, i) m))
  rw [← step_measure hover] at hs
  rw [← step_main hover'] at hs'
  exact .next hs (.next hs' (.here ⟨⟨_, rfl⟩, fun t ht => setMeasure_of_ne ht m, rfl⟩))

theorem leads_stress_failed {i : Nat} (hmain : s.main = .joinStress i)
    (hi : i < (b.stressors s.arm).length) (hpc : (s.stresses (s.arm, i)).pc = .pinning)
    (hlow : (s.stresses (s.arm, i)).core < 1024)
    (hpin : ¬ Pins b.host (s.stresses (s.arm, i)).core) :
    Leads (step b) s fun u => (∃ result, u.main = .unmapReplicas result) ∧
      ∀ t, t ≠ (s.arm, i) → u.stresses t = s.stresses t := by
  have hover : ¬ s.Over := by rw [not_over_iff, hmain]; simp
  obtain ⟨io, hrefused⟩ := refused_of_not_pins hlow hpin
  have hfail : ∃ m e, m.status = .failed e ∧
      s.stressStep b (s.arm, i) = some (s.setStress (s.arm, i) m) := by
    unfold stressStep
    simp only [hpc, hrefused]
    exact ⟨_, _, rfl, rfl⟩
  obtain ⟨m, e, hstatus, hs⟩ := hfail
  have hover' : ¬ (s.setStress (s.arm, i) m).Over := hover
  have hs' := joinStress_fails (b := b) (s := s.setStress (s.arm, i) m) (e := e) hmain hi
    (by rw [← hstatus]; exact congrArg Stress.status (setStress_self (s.arm, i) m))
  rw [← step_stress hover] at hs
  rw [← step_main hover'] at hs'
  exact .next hs (.next hs' (.here ⟨⟨_, rfl⟩, fun t ht => setStress_of_ne ht m⟩))

/-! ## Another one goes on -/

/-- A measurement thread is at its first read. -/
theorem Fresh.leads_warmup {k j : Nat} (h : Fresh b k (.join 0) s)
    (hj : j < (b.targets k).length) (hpin : Pins b.host (s.measures (k, j)).core) :
    Leads (step b) s fun u => Kept b u k (.join 0) 0 0 u ∧ (u.measures (k, j)).pc = .warmup 0 ∧
      (∀ t, t ≠ (k, j) → u.measures t = s.measures t) ∧ u.stresses = s.stresses := by
  obtain rfl := h.arm_eq
  have hin : s.main.Inside := by rw [h.main_eq]; trivial
  have hover : ¬ s.Over := by rw [not_over_iff, h.main_eq]; simp
  have hpresent : (s.measures (s.arm, j)).status ≠ .absent := by
    rw [h.inv.measures.crew.present_iff, h.main_eq]
    exact Or.inr ⟨rfl, hj⟩
  have hsignal := h.inv.measures.signal_on hin (by rw [h.main_eq]; trivial)
  have hcore : pinToCore b.host (s.measures (s.arm, j)).core = some (.ok ()) := hpin
  let m₁ := { s.measures (s.arm, j) with pc := .waiting }
  let m₂ := { s.measures (s.arm, j) with pc := .warmup 0 }
  have hs₁ : s.step b (.measure (s.arm, j)) = some (s.setMeasure (s.arm, j) m₁) := by
    rw [step_measure hover]
    simp only [measureStep, h.measures j hpresent, hcore]
    rfl
  have hs₂ : (s.setMeasure (s.arm, j) m₁).step b (.measure (s.arm, j)) =
      some ((s.setMeasure (s.arm, j) m₁).setMeasure (s.arm, j) m₂) := by
    rw [step_measure (show ¬ (s.setMeasure (s.arm, j) m₁).Over from hover)]
    simp only [measureStep, setMeasure_self]
    exact if_pos hsignal
  refine .next hs₁ (.next hs₂ (.here ⟨⟨(h.inv.step hs₁).step hs₂, rfl, h.main_eq, fun _ _ => rfl,
    fun _ _ => rfl⟩, ?_, fun t ht => ?_, rfl⟩))
  · rw [setMeasure_self]
  · rw [setMeasure_of_ne ht, setMeasure_of_ne ht]

/-- A stress thread has chosen a line. -/
theorem Fresh.leads_touching {k j : Nat} (h : Fresh b k (.join 0) s)
    (hj : j < (b.stressors k).length) (hpin : Pins b.host (s.stresses (k, j)).core) :
    Leads (step b) s fun u => Kept b u k (.join 0) 0 0 u ∧ (u.stresses (k, j)).pc = .touching ∧
      (∀ t, t ≠ (k, j) → u.stresses t = s.stresses t) ∧ u.measures = s.measures := by
  obtain rfl := h.arm_eq
  have hin : s.main.Inside := by rw [h.main_eq]; trivial
  have hover : ¬ s.Over := by rw [not_over_iff, h.main_eq]; simp
  have hpresent : (s.stresses (s.arm, j)).status ≠ .absent := by
    rw [h.inv.stresses.crew.present_iff, h.main_eq]
    exact Or.inr ⟨rfl, hj⟩
  have hne : b.stressors s.arm ≠ [] := by
    intro hnil
    rw [hnil] at hj
    exact Nat.not_lt_zero j hj
  have hgo := h.inv.stresses.go_on hin (by rw [h.main_eq]; trivial) hne
  have hstop : ¬ s.stop s.arm = true := by
    intro hstop
    rcases h.inv.stresses.stop _ hstop with hlt | ⟨-, hst⟩
    · exact Nat.lt_irrefl _ hlt
    · rw [h.main_eq] at hst
      exact hst
  have hcore : pinToCore b.host (s.stresses (s.arm, j)).core = some (.ok ()) := hpin
  let m₁ := { s.stresses (s.arm, j) with pc := .waiting }
  let m₂ := { s.stresses (s.arm, j) with pc := .loopTop }
  let m₃ := { s.stresses (s.arm, j) with
    pc := .touching, state := stressNext (s.stresses (s.arm, j)).state }
  let s₁ := s.setStress (s.arm, j) m₁
  let s₂ := s₁.setStress (s.arm, j) m₂
  have hs₁ : s.step b (.stress (s.arm, j)) = some s₁ := by
    rw [step_stress hover]
    simp only [stressStep, h.stresses j hpresent, hcore]
    rfl
  have hs₂ : s₁.step b (.stress (s.arm, j)) = some s₂ := by
    rw [step_stress (show ¬ s₁.Over from hover)]
    simp only [stressStep, s₁, setStress_self]
    exact if_pos hgo
  have hs₃ : s₂.step b (.stress (s.arm, j)) = some (s₂.setStress (s.arm, j) m₃) := by
    rw [step_stress (show ¬ s₂.Over from hover)]
    simp only [stressStep, s₂, setStress_self]
    exact if_neg hstop
  refine .next hs₁ (.next hs₂ (.next hs₃ (.here ⟨⟨((h.inv.step hs₁).step hs₂).step hs₃, rfl,
    h.main_eq, fun _ _ => rfl, fun _ _ => rfl⟩, ?_, fun t ht => ?_, rfl⟩)))
  · rw [setStress_self]
  · simp only [s₂, s₁, setStress_of_ne ht]

/-! ## The memory goes first -/

theorem leads_crash_of_measure {result : RunResult} (hmain : s.main = .unmapReplicas result)
    (hpc : (s.measures t).pc = .warmup 0) : Leads (step b) s fun u => u.main = .crashed := by
  have hs : s.step b .main =
      some { s with replicasMapped := false, main := .unmapStress result } := by
    rw [step_main (by rw [not_over_iff, hmain]; simp)]
    simp only [mainStep, hmain]
  refine .next hs ?_
  let s₁ : Benchmark := { s with replicasMapped := false, main := .unmapStress result }
  have hs₁ : s₁.step b (.measure t) = some s₁.crash := by
    rw [step_measure (by rw [not_over_iff]; simp [s₁])]
    have hpc₁ : (s₁.measures t).pc = .warmup 0 := hpc
    simp only [measureStep, hpc₁]
    rfl
  exact .next hs₁ (.here rfl)

theorem leads_crash_of_stress {result : RunResult} (hmain : s.main = .unmapReplicas result)
    (hpc : (s.stresses t).pc = .touching) : Leads (step b) s fun u => u.main = .crashed := by
  have hs : s.step b .main =
      some { s with replicasMapped := false, main := .unmapStress result } := by
    rw [step_main (by rw [not_over_iff, hmain]; simp)]
    simp only [mainStep, hmain]
  refine .next hs ?_
  let s₁ : Benchmark := { s with replicasMapped := false, main := .unmapStress result }
  let s₂ : Benchmark := { s₁ with stressMapped := false, main := .leave result }
  have hs₁ : s₁.step b .main = some s₂ := rfl
  have hs₂ : s₂.step b (.stress t) = some s₂.crash := by
    rw [step_stress (by rw [not_over_iff]; simp [s₂])]
    have hpc₂ : (s₂.stresses t).pc = .touching := hpc
    simp only [stressStep, hpc₂]
    rfl
  exact .next hs₁ (.next hs₂ (.here rfl))

end Benchmark

namespace Setup

variable {b : Setup} {k l : Nat}

theorem cores_of_target {e : Nat × Nat} (h : (b.targets k)[l]? = some e) :
    (b.cores k)[l]? = some e.2 := by
  have hlt := (List.getElem?_eq_some_iff.mp h).1
  rw [cores, List.getElem?_append_left (by rw [List.length_map]; exact hlt), List.getElem?_map, h]
  rfl

theorem cores_of_stressor {e : Nat × Nat} (h : (b.stressors k)[l]? = some e) :
    (b.cores k)[(b.targets k).length + l]? = some e.2 := by
  rw [cores, List.getElem?_append_right (by rw [List.length_map]; omega), List.length_map,
    show (b.targets k).length + l - (b.targets k).length = l by omega, List.getElem?_map, h]
  rfl

/-- In a torn arm there is a first thread that fails, and one after it that does not. -/
theorem Torn.first (h : b.Torn) : ∃ (k i j ci cj : Nat), b.Reached k ∧ i < j ∧
    (b.cores k)[i]? = some ci ∧ ¬ Pins b.host ci ∧ (b.cores k)[j]? = some cj ∧
    Pins b.host cj ∧ ∀ l c, l < i → (b.cores k)[l]? = some c → Pins b.host c := by
  classical
  obtain ⟨k, hk, i, j, ci, cj, hij, hi, hj, hfail, hpin⟩ := h
  have hex : ∃ i c, (b.cores k)[i]? = some c ∧ ¬ Pins b.host c := ⟨i, ci, hi, hfail⟩
  obtain ⟨c, hc, hfail'⟩ := Nat.find_spec hex
  refine ⟨k, Nat.find hex, j, c, cj, hk, ?_, hc, hfail', hj, hpin, fun l c hl hlc => ?_⟩
  · exact Nat.lt_of_le_of_lt (Nat.find_min' hex ⟨ci, hi, hfail⟩) hij
  · by_contra hbad
    exact Nat.find_min hex hl ⟨c, hlc, hbad⟩

end Setup

namespace Benchmark

variable {b : Setup} {s s' : Benchmark}

/-- The later thread measures. -/
theorem Fresh.leads_crash_of_target {k i j ci cj : Nat} (h : Fresh b k (.join 0) s) (hij : i < j)
    (hi : (b.cores k)[i]? = some ci) (hlow : ci < 1024) (hfail : ¬ Pins b.host ci)
    (hj : (b.cores k)[j]? = some cj) (hpin : Pins b.host cj) (hfit : b.SamplesFit)
    (hbefore : ∀ l c, l < i → (b.cores k)[l]? = some c → Pins b.host c)
    (hlt : j < (b.targets k).length) : Leads (step b) s fun u => u.main = .crashed := by
  obtain rfl := h.arm_eq
  have hpresent : ∀ l, l < (b.targets s.arm).length →
      (s.measures (s.arm, l)).status ≠ .absent := by
    intro l hl
    rw [h.inv.measures.crew.present_iff, h.main_eq]
    exact Or.inr ⟨rfl, hl⟩
  have hcore : ∀ l c, l < (b.targets s.arm).length → (b.cores s.arm)[l]? = some c →
      (s.measures (s.arm, l)).core = c := by
    intro l c hl hc
    have hcore := (h.inv.measure_core (hpresent l hl)).2
    rw [hc] at hcore
    exact (Option.some.inj hcore).symm
  refine (h.leads_warmup hlt (by rw [hcore j cj hlt hj]; exact hpin)).trans ?_
  rintro u ⟨hu, hpc, hmeasures, -⟩
  have hiu : u.measures (s.arm, i) = s.measures (s.arm, i) := hmeasures _ (by simp; omega)
  refine (hu.leads_join hfit (Nat.zero_le i) (by omega) fun l e hl he =>
    hbefore l e.2 hl (Setup.cores_of_target he)).trans fun v hv => ?_
  have hiv : v.measures (v.arm, i) = s.measures (s.arm, i) := by
    rw [hv.arm_eq, hv.measures i (Nat.le_refl i), hiu]
  refine (leads_failed hv.main_eq (by rw [hv.arm_eq]; omega)
    (by rw [hiv]; exact h.measures i (hpresent i (by omega)))
    (by rw [hiv, hcore i ci (by omega) hi]; exact hlow)
    (by rw [hiv, hcore i ci (by omega) hi]; exact hfail)).trans ?_
  rintro w ⟨⟨result, hmain⟩, hsame, -⟩
  refine leads_crash_of_measure (t := (s.arm, j)) hmain ?_
  rw [hsame _ (by rw [hv.arm_eq]; simp; omega), hv.measures j (by omega), hpc]

/-- The later thread is one of stress, and a measurement thread fails or another of stress. -/
theorem Fresh.leads_crash_of_stressor {k i j ci cj : Nat} (h : Fresh b k (.join 0) s)
    (hij : i < (b.targets k).length + j) (hi : (b.cores k)[i]? = some ci) (hlow : ci < 1024)
    (hfail : ¬ Pins b.host ci) (hj : (b.cores k)[(b.targets k).length + j]? = some cj)
    (hpin : Pins b.host cj) (hfit : b.SamplesFit)
    (hbefore : ∀ l c, l < i → (b.cores k)[l]? = some c → Pins b.host c)
    (hlt : j < (b.stressors k).length) : Leads (step b) s fun u => u.main = .crashed := by
  obtain rfl := h.arm_eq
  have hpresent : ∀ l, l < (b.targets s.arm).length →
      (s.measures (s.arm, l)).status ≠ .absent := by
    intro l hl
    rw [h.inv.measures.crew.present_iff, h.main_eq]
    exact Or.inr ⟨rfl, hl⟩
  have hpresent' : ∀ l, l < (b.stressors s.arm).length →
      (s.stresses (s.arm, l)).status ≠ .absent := by
    intro l hl
    rw [h.inv.stresses.crew.present_iff, h.main_eq]
    exact Or.inr ⟨rfl, hl⟩
  have hcore' : ∀ l c, l < (b.stressors s.arm).length →
      (b.cores s.arm)[(b.targets s.arm).length + l]? = some c →
      (s.stresses (s.arm, l)).core = c := by
    intro l c hl hc
    have hcore := (h.inv.stress_core (hpresent' l hl)).2
    rw [hc] at hcore
    exact (Option.some.inj hcore).symm
  refine (h.leads_touching hlt (by rw [hcore' j cj hlt hj]; exact hpin)).trans ?_
  rintro u ⟨hu, hpc, hstresses, hmeasures⟩
  by_cases hin : i < (b.targets s.arm).length
  · have hcore := (h.inv.measure_core (hpresent i hin)).2
    rw [hi] at hcore
    refine (hu.leads_join hfit (Nat.zero_le i) (by omega) fun l e hl he =>
      hbefore l e.2 hl (Setup.cores_of_target he)).trans fun v hv => ?_
    have hiv : v.measures (v.arm, i) = s.measures (s.arm, i) := by
      rw [hv.arm_eq, hv.measures i (Nat.le_refl i), hmeasures]
    refine (leads_failed hv.main_eq (by rw [hv.arm_eq]; exact hin)
      (by rw [hiv]; exact h.measures i (hpresent i hin))
      (by rw [hiv, ← Option.some.inj hcore]; exact hlow)
      (by rw [hiv, ← Option.some.inj hcore]; exact hfail)).trans ?_
    rintro w ⟨⟨result, hmain⟩, -, hsame⟩
    refine leads_crash_of_stress (t := (s.arm, j)) hmain ?_
    rw [hsame, hv.stresses j (Nat.zero_le j), hpc]
  · obtain ⟨i', rfl⟩ := Nat.exists_eq_add_of_le (Nat.le_of_not_lt hin)
    refine (hu.leads_join hfit (Nat.zero_le _) (Nat.le_refl _) fun l e hl he =>
      hbefore l e.2 (by omega) (Setup.cores_of_target he)).trans fun v hv =>
      hv.leads_stop.trans fun w hw => ?_
    refine (hw.leads_joinStress (Nat.zero_le i') (by omega) fun l e hl he =>
      hbefore _ e.2 (by omega) (Setup.cores_of_stressor he)).trans fun x hx => ?_
    have hix : x.stresses (x.arm, i') = s.stresses (s.arm, i') := by
      rw [hx.arm_eq, hx.stresses i' (Nat.le_refl i'), hstresses _ (by simp; omega)]
    refine (leads_stress_failed hx.main_eq (by rw [hx.arm_eq]; omega)
      (by rw [hix]; exact h.stresses i' (hpresent' i' (by omega)))
      (by rw [hix, hcore' i' ci (by omega) hi]; exact hlow)
      (by rw [hix, hcore' i' ci (by omega) hi]; exact hfail)).trans ?_
    rintro y ⟨⟨result, hmain⟩, hsame⟩
    refine leads_crash_of_stress (t := (s.arm, j)) hmain ?_
    rw [hsame _ (by rw [hx.arm_eq]; simp; omega), hx.stresses j (by omega), hpc]

/-- **When the benchmark crashes.**  Some interleaving kills the process with an access to
memory that `run` has already unmapped, just if the first arm whose threads are not all
pinned has a thread that is pinned and is joined after one that is not. -/
theorem crash_iff (b : Setup) (hfit : b.SamplesFit) (hpin : b.Pinnable) :
    (∃ as s, run (step b) start as = some s ∧ s.main = .crashed) ↔ b.Torn := by
  constructor
  · rintro ⟨as, s, hrun, hcrash⟩
    exact (inv_run hrun).torn hcrash hfit
  · intro htorn
    obtain ⟨k, i, j, ci, cj, hk, hij, hi, hfail, hj, hpins, hbefore⟩ := htorn.first
    have hlow : ci < 1024 := hpin k ci (List.mem_of_getElem? hi)
    refine (leads_reached hfit hk).trans ?_
    rintro u ⟨hu, rfl, hmain⟩
    refine ((Fresh.of_armTop hu hmain).leads_joining hk.1).trans fun v hv => ?_
    by_cases hlt : j < (b.targets u.arm).length
    · exact hv.leads_crash_of_target hij hi hlow hfail hj hpins hfit hbefore hlt
    · obtain ⟨j', rfl⟩ := Nat.exists_eq_add_of_le (Nat.le_of_not_lt hlt)
      have hlt' := (List.getElem?_eq_some_iff.mp hj).1
      rw [Setup.cores, List.length_append, List.length_map, List.length_map] at hlt'
      exact hv.leads_crash_of_stressor hij hi hlow hfail hj hpins hfit hbefore (by omega)

/-- The second measurement thread is pinned, and the first is not. -/
theorem crash_iff_unpinned : unpinned.Torn ∧
    ((∃ as s, run (step unpinned) start as = some s ∧ s.main = .crashed) ↔ unpinned.Torn) :=
  ⟨⟨0, ⟨by decide, fun k' hk' => absurd hk' (Nat.not_lt_zero k')⟩, 0, 1, 2, 3, by decide, rfl, rfl,
    fun hpins => (by cases hpins), rfl⟩, crash_iff unpinned (by decide) unpinned_pinnable⟩

end Benchmark

end Tailslayer
