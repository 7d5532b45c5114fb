import Tailslayer.BenchmarkInv

/-!
# Every step of the benchmark keeps its invariant

A step of the main thread changes neither kind of thread, unless it spawns one or goes
on to the next arm (`MeasureInv.goto`, `StressInv.goto`).
-/

namespace Tailslayer

open Crews

namespace Benchmark

variable {b : Setup} {s s' : Benchmark}

/-! ## The two crews -/

@[simp] theorem setMeasure_self (t : Nat × Nat) (m : Measurement) :
    (s.setMeasure t m).measures t = m := Function.update_self ..

theorem setMeasure_of_ne {t u : Nat × Nat} (h : u ≠ t) (m : Measurement) :
    (s.setMeasure t m).measures u = s.measures u := Function.update_of_ne h ..

@[simp] theorem setStress_self (t : Nat × Nat) (m : Stress) :
    (s.setStress t m).stresses t = m := Function.update_self ..

theorem setStress_of_ne {t u : Nat × Nat} (h : u ≠ t) (m : Stress) :
    (s.setStress t m).stresses u = s.stresses u := Function.update_of_ne h ..

theorem samplesOf_congr {arm n : Nat}
    (h : ∀ i, i < n → (s'.measures (arm, i)).samples = (s.measures (arm, i)).samples) :
    s'.samplesOf arm n = s.samplesOf arm n := by
  unfold samplesOf
  apply List.map_congr_left
  intro i hi
  exact h i (List.mem_range.mp hi)

/-- The measurement threads are left alone. -/
theorem MeasureInv.goto (h : MeasureInv b s) (hmeasures : s'.measures = s.measures)
    (harm : s'.arm = s.arm) (htsc : s.tsc ≤ s'.tsc)
    (hspawned : s'.main.spawned (b.targets s.arm).length =
      s.main.spawned (b.targets s.arm).length)
    (hjoined : ∀ i, i < s'.main.joined (b.targets s.arm).length →
      (s.measures (s.arm, i)).status = .returned)
    (hpassed : s.main.Signalled → s'.main.Signalled)
    (hsignal : s'.signal = true → s'.main.Signalled)
    (hon : s'.main.Inside → s'.main.Signalled → s'.signal = true)
    (hresults : s'.main.Inside →
      s'.results = s.samplesOf s.arm (s'.main.joined (b.targets s.arm).length))
    (hmapped : s'.replicasMapped = false → ∃ result, s'.main = .unmapStress result ∨
      s'.main = .leave result ∨ s'.main = .exited result ∨ s'.main = .crashed) :
    MeasureInv b s' where
  crew := by
    rw [hmeasures, harm, hspawned]
    exact ⟨h.crew.present_iff, h.crew.past, hjoined⟩
  target := by
    rw [hmeasures]
    exact h.target
  at_pc := by
    rw [hmeasures]
    exact fun t => (h.at_pc t).mono htsc
  passed := by
    rw [hmeasures, harm]
    exact fun t ht => (h.passed t ht).imp id hpassed
  signal := hsignal
  signal_on := hon
  results := by
    intro hin
    rw [hresults hin, harm]
    exact (samplesOf_congr fun i _ => by rw [hmeasures]).symm
  mapped := hmapped

theorem StressInv.goto (h : StressInv b s) (hstresses : s'.stresses = s.stresses)
    (harm : s'.arm = s.arm)
    (hstressed : s'.main.stressed (b.stressors s.arm).length =
      s.main.stressed (b.stressors s.arm).length)
    (hjoined : ∀ i, i < s'.main.joinedStress (b.stressors s.arm).length →
      (s.stresses (s.arm, i)).status = .returned)
    (hpassed : s.main.Gone → s'.main.Gone)
    (hgo : ∀ k, s'.go k = true → k < s.arm ∨ k = s.arm ∧ s'.main.Gone)
    (hgo_on : s'.main.Inside → s'.main.Gone → b.stressors s.arm ≠ [] → s'.go s.arm = true)
    (hstop : ∀ k, s'.stop k = true → k < s.arm ∨ k = s.arm ∧ s'.main.Stopped)
    (hstop_on : s'.main.Inside → s'.main.Stopped → s'.stop s.arm = true)
    (hmapped : s'.stressMapped = false → ∃ result, s'.main = .leave result ∨
      s'.main = .exited result ∨ s'.main = .crashed) : StressInv b s' where
  crew := by
    rw [hstresses, harm, hstressed]
    exact ⟨h.crew.present_iff, h.crew.past, hjoined⟩
  target := by
    rw [hstresses]
    exact h.target
  at_pc := by
    rw [hstresses]
    exact h.at_pc
  passed := by
    rw [hstresses, harm]
    exact fun t ht => (h.passed t ht).imp id hpassed
  go := by
    rw [harm]
    exact hgo
  go_on := by
    rw [harm]
    exact hgo_on
  stop := by
    rw [harm]
    exact hstop
  stop_on := by
    rw [harm]
    exact hstop_on
  mapped := hmapped

theorem MeasureInv.move (h : MeasureInv b s) {t : Nat × Nat} {m : Measurement}
    (hmove : (s.measures t).Move b s.signal s.tsc m) : MeasureInv b (s.setMeasure t m) where
  crew := by
    refine h.crew.move hmove.running ?_ fun u hu => ?_
    · show ((s.setMeasure t m).measures t).status ≠ .absent
      rw [setMeasure_self]
      exact hmove.present
    · show ((s.setMeasure t m).measures u).status = _
      rw [setMeasure_of_ne hu]
  target := by
    intro u hu
    by_cases hut : u = t
    · subst hut
      rw [setMeasure_self, hmove.addr_eq, hmove.core_eq]
      exact h.target u (by rw [hmove.running]; simp)
    · rw [setMeasure_of_ne hut] at hu ⊢
      exact h.target u hu
  at_pc := by
    intro u
    by_cases hut : u = t
    · subst hut
      rw [setMeasure_self]
      exact hmove.keeps_at (h.at_pc u)
    · rw [setMeasure_of_ne hut]
      exact h.at_pc u
  passed := by
    intro u hu
    by_cases hut : u = t
    · subst hut
      rw [setMeasure_self] at hu
      rcases hmove.past hu with hpast | hsignal
      · exact h.passed u hpast
      · exact Or.inr (h.signal hsignal)
    · rw [setMeasure_of_ne hut] at hu
      exact h.passed u hu
  signal := h.signal
  signal_on := h.signal_on
  results := by
    intro hin
    refine (h.results hin).trans (samplesOf_congr fun i hi => ?_).symm
    have hret := h.crew.returned i hi
    have hne : (s.arm, i) ≠ t := by
      rintro rfl
      rw [hmove.running] at hret
      cases hret
    show ((s.setMeasure t m).measures (s.arm, i)).samples = _
    rw [setMeasure_of_ne hne]
  mapped := h.mapped

theorem StressInv.move (h : StressInv b s) {t : Nat × Nat} {m : Stress}
    (hmove : (s.stresses t).Move b (s.go t.1) (s.stop t.1) m) : StressInv b (s.setStress t m) where
  crew := by
    refine h.crew.move hmove.running ?_ fun u hu => ?_
    · show ((s.setStress t m).stresses t).status ≠ .absent
      rw [setStress_self]
      exact hmove.present
    · show ((s.setStress t m).stresses u).status = _
      rw [setStress_of_ne hu]
  target := by
    intro u hu
    by_cases hut : u = t
    · subst hut
      rw [setStress_self, hmove.region_eq, hmove.core_eq]
      exact h.target u (by rw [hmove.running]; simp)
    · rw [setStress_of_ne hut] at hu ⊢
      exact h.target u hu
  at_pc := by
    intro u
    by_cases hut : u = t
    · subst hut
      rw [setStress_self]
      exact hmove.keeps_at (h.at_pc u)
    · rw [setStress_of_ne hut]
      exact h.at_pc u
  passed := by
    intro u hu
    by_cases hut : u = t
    · subst hut
      rw [setStress_self] at hu
      rcases hmove.past hu with hpast | hgo
      · exact h.passed u hpast
      · exact (h.go u.1 hgo).imp id And.right
    · rw [setStress_of_ne hut] at hu
      exact h.passed u hu
  go := h.go
  go_on := h.go_on
  stop := h.stop
  stop_on := h.stop_on
  mapped := h.mapped

theorem MeasureInv.spawn (h : MeasureInv b s) {i addr core : Nat} (hmain : s.main = .spawn i)
    (htarget : (b.targets s.arm)[i]? = some (addr, core)) :
    MeasureInv b { s.setMeasure (s.arm, i) ⟨addr, core, .pinning, []⟩ with
      main := .spawn (i + 1) } := by
  have hcrew := h.crew
  have hpassed := h.passed
  have hresults := h.results
  have hmapped := h.mapped
  have hsignal := h.signal
  rw [hmain] at hcrew hpassed hresults hmapped hsignal
  refine ⟨?_, fun u hu => ?_, fun u => ?_, fun u hu => ?_, hsignal, fun _ h => h.elim, fun _ => ?_,
    fun hun => ?_⟩
  · refine hcrew.spawn ?_ (fun u hu => ?_) (Nat.zero_le _)
    · show ((s.setMeasure (s.arm, i) _).measures (s.arm, i)).status ≠ .absent
      rw [setMeasure_self]
      simp [Measurement.status]
    · change u ≠ (s.arm, i) at hu
      show ((s.setMeasure (s.arm, i) _).measures u).status = _
      rw [setMeasure_of_ne hu]
  · by_cases hne : u = (s.arm, i)
    · subst hne
      show (b.targets s.arm)[i]? = some (((s.setMeasure (s.arm, i) _).measures _).addr,
        ((s.setMeasure (s.arm, i) _).measures _).core)
      rw [setMeasure_self]
      exact htarget
    · change ((s.setMeasure (s.arm, i) _).measures u).status ≠ .absent at hu
      show (b.targets u.1)[u.2]? = some (((s.setMeasure (s.arm, i) _).measures u).addr,
        ((s.setMeasure (s.arm, i) _).measures u).core)
      rw [setMeasure_of_ne hne] at hu ⊢
      exact h.target u hu
  · show ((s.setMeasure (s.arm, i) _).measures u).At b s.tsc
      ((s.setMeasure (s.arm, i) _).measures u).pc
    by_cases hne : u = (s.arm, i)
    · subst hne
      rw [setMeasure_self]
      rfl
    · rw [setMeasure_of_ne hne]
      exact h.at_pc u
  · change ((s.setMeasure (s.arm, i) _).measures u).pc.Past at hu
    by_cases hne : u = (s.arm, i)
    · subst hne
      rw [setMeasure_self] at hu
      exact hu.elim
    · rw [setMeasure_of_ne hne] at hu
      exact hpassed u hu
  · exact hresults trivial
  · obtain ⟨result, hun⟩ := hmapped hun
    simp at hun

theorem StressInv.spawn (h : StressInv b s) {i region core : Nat} (hmain : s.main = .startStress i)
    (htarget : (b.stressors s.arm)[i]? = some (region, core)) :
    StressInv b { s.setStress (s.arm, i) ⟨region, core, .pinning, stressSeed region⟩ with
      main := .startStress (i + 1) } := by
  have hcrew := h.crew
  have hpassed := h.passed
  have hmapped := h.mapped
  have hgo := h.go
  have hstop := h.stop
  rw [hmain] at hcrew hpassed hmapped hgo hstop
  refine ⟨?_, fun u hu => ?_, fun u => ?_, fun u hu => ?_, hgo, fun _ h => h.elim, hstop,
    fun _ h => h.elim, fun hun => ?_⟩
  · refine hcrew.spawn ?_ (fun u hu => ?_) (Nat.zero_le _)
    · show ((s.setStress (s.arm, i) _).stresses (s.arm, i)).status ≠ .absent
      rw [setStress_self]
      simp [Stress.status]
    · change u ≠ (s.arm, i) at hu
      show ((s.setStress (s.arm, i) _).stresses u).status = _
      rw [setStress_of_ne hu]
  · by_cases hne : u = (s.arm, i)
    · subst hne
      show (b.stressors s.arm)[i]? = some (((s.setStress (s.arm, i) _).stresses _).region,
        ((s.setStress (s.arm, i) _).stresses _).core)
      rw [setStress_self]
      exact htarget
    · change ((s.setStress (s.arm, i) _).stresses u).status ≠ .absent at hu
      show (b.stressors u.1)[u.2]? = some (((s.setStress (s.arm, i) _).stresses u).region,
        ((s.setStress (s.arm, i) _).stresses u).core)
      rw [setStress_of_ne hne] at hu ⊢
      exact h.target u hu
  · show ((s.setStress (s.arm, i) _).stresses u).At b ((s.setStress (s.arm, i) _).stresses u).pc
    by_cases hne : u = (s.arm, i)
    · subst hne
      rw [setStress_self]
      trivial
    · rw [setStress_of_ne hne]
      exact h.at_pc u
  · change ((s.setStress (s.arm, i) _).stresses u).pc.Past at hu
    by_cases hne : u = (s.arm, i)
    · subst hne
      rw [setStress_self] at hu
      exact hu.elim
    · rw [setStress_of_ne hne] at hu
      exact hpassed u hu
  · obtain ⟨result, hun⟩ := hmapped hun
    simp at hun

/-- All threads of the arm are joined, and its signals are of no use any more. -/
theorem MeasureInv.next (h : MeasureInv b s) (hmain : s.main = .reset) :
    MeasureInv b { s with signal := false, arm := s.arm + 1, main := .armTop } := by
  have hcrew := h.crew
  have hmapped := h.mapped
  rw [hmain] at hcrew hmapped
  refine ⟨hcrew.next rfl rfl, h.target, h.at_pc, fun t ht => ?_, fun h => (by cases h),
    fun h => h.elim, fun h => h.elim, fun hun => ?_⟩
  · have hle : t.1 ≤ s.arm := hcrew.round_le (by
      intro habsent
      have hpc := ht
      unfold Measurement.status at habsent
      split at habsent
      · next hpc' =>
        rw [hpc'] at hpc
        exact hpc.elim
      all_goals cases habsent)
    exact Or.inl (Nat.lt_succ_of_le hle)
  · obtain ⟨result, hun⟩ := hmapped hun
    simp at hun

theorem StressInv.next (h : StressInv b s) (hmain : s.main = .reset) :
    StressInv b { s with signal := false, arm := s.arm + 1, main := .armTop } := by
  have hcrew := h.crew
  have hmapped := h.mapped
  rw [hmain] at hcrew hmapped
  refine ⟨hcrew.next rfl rfl, h.target, h.at_pc, fun t ht => ?_, fun k hk => ?_,
    fun h => h.elim, fun k hk => ?_, fun h => h.elim, fun hun => ?_⟩
  · have hle : t.1 ≤ s.arm := hcrew.round_le (by
      intro habsent
      have hpc := ht
      unfold Stress.status at habsent
      split at habsent
      · next hpc' =>
        rw [hpc'] at hpc
        exact hpc.elim
      all_goals cases habsent)
    exact Or.inl (Nat.lt_succ_of_le hle)
  · show k < s.arm + 1 ∨ _
    rcases h.go k hk with hlt | ⟨rfl, -⟩
    · exact Or.inl (by omega)
    · exact Or.inl (by omega)
  · show k < s.arm + 1 ∨ _
    rcases h.stop k hk with hlt | ⟨rfl, -⟩
    · exact Or.inl (by omega)
    · exact Or.inl (by omega)
  · obtain ⟨result, hun⟩ := hmapped hun
    simp at hun

/-- The main thread does something that is none of the measurement threads' business. -/
theorem MeasureInv.stay (h : MeasureInv b s) (hin : s.main.Inside)
    (hmeasures : s'.measures = s.measures) (harm : s'.arm = s.arm) (htsc : s'.tsc = s.tsc)
    (hsignal : s'.signal = s.signal) (hmapped : s'.replicasMapped = s.replicasMapped)
    (hspawned : s'.main.spawned (b.targets s.arm).length =
      s.main.spawned (b.targets s.arm).length)
    (hjoined : ∀ i, i < s'.main.joined (b.targets s.arm).length →
      (s.measures (s.arm, i)).status = .returned)
    (hsignalled : s'.main.Signalled ↔ s.main.Signalled)
    (hresults : s'.results = s.samplesOf s.arm (s'.main.joined (b.targets s.arm).length)) :
    MeasureInv b s' := by
  refine h.goto hmeasures harm (Nat.le_of_eq (by rw [htsc])) hspawned hjoined hsignalled.mpr
    (fun hon => ?_) (fun _ hsig => ?_) (fun _ => hresults) (fun hun => ?_)
  · rw [hsignal] at hon
    exact hsignalled.mpr (h.signal hon)
  · rw [hsignal]
    exact h.signal_on hin (hsignalled.mp hsig)
  · obtain ⟨result, hmain | hmain | hmain | hmain⟩ := h.mapped (hmapped ▸ hun)
    all_goals
      rw [hmain] at hin
      exact hin.elim

theorem StressInv.stay (h : StressInv b s) (hin : s.main.Inside)
    (hstresses : s'.stresses = s.stresses) (harm : s'.arm = s.arm) (hgo : s'.go = s.go)
    (hstop : s'.stop = s.stop) (hmapped : s'.stressMapped = s.stressMapped)
    (hstressed : s'.main.stressed (b.stressors s.arm).length =
      s.main.stressed (b.stressors s.arm).length)
    (hjoined : ∀ i, i < s'.main.joinedStress (b.stressors s.arm).length →
      (s.stresses (s.arm, i)).status = .returned)
    (hgone : s'.main.Gone ↔ s.main.Gone) (hstopped : s'.main.Stopped ↔ s.main.Stopped) :
    StressInv b s' := by
  refine h.goto hstresses harm hstressed hjoined hgone.mpr (fun k hk => ?_)
    (fun _ hg hne => ?_) (fun k hk => ?_) (fun _ hst => ?_) (fun hun => ?_)
  · rw [hgo] at hk
    exact (h.go k hk).imp id fun hg => ⟨hg.1, hgone.mpr hg.2⟩
  · rw [hgo]
    exact h.go_on hin (hgone.mp hg) hne
  · rw [hstop] at hk
    exact (h.stop k hk).imp id fun hst => ⟨hst.1, hstopped.mpr hst.2⟩
  · rw [hstop]
    exact h.stop_on hin (hstopped.mp hst)
  · obtain ⟨result, hmain | hmain | hmain⟩ := h.mapped (hmapped ▸ hun)
    all_goals
      rw [hmain] at hin
      exact hin.elim

/-- In an arm nothing but the two crews matters. -/
theorem Inv.of_inside (hin : s.main.Inside) (hlt : s.arm < b.config.arms.length)
    (hspawned : s.main.spawned (b.targets s.arm).length ≤ (b.targets s.arm).length)
    (hjoined : s.main.joined (b.targets s.arm).length ≤ (b.targets s.arm).length)
    (hstressed : s.main.stressed (b.stressors s.arm).length ≤ (b.stressors s.arm).length)
    (hjoinedStress : s.main.joinedStress (b.stressors s.arm).length ≤ (b.stressors s.arm).length)
    (hm : MeasureInv b s) (hs : StressInv b s) : Inv b s where
  arm_le := Nat.le_of_lt hlt
  inside := fun _ => hlt
  spawned_le := hspawned
  joined_le := hjoined
  stressed_le := hstressed
  joinedStress_le := hjoinedStress
  measures := hm
  stresses := hs
  closed := by
    intro result hresult
    cases hmain : s.main <;> rw [hmain] at hin hresult <;> first | exact hin.elim | cases hresult
  torn := by
    intro hcrash
    rw [hcrash] at hin
    exact hin.elim

/-! ## Threads -/

/-- `run` has returned for the same reason whatever the threads that are left do. -/
theorem Closed.congr {result : RunResult} (h : Closed b s result) (harm : s'.arm = s.arm)
    (hm : ∀ t, (s.measures t).status ≠ .running →
      (s'.measures t).status = (s.measures t).status)
    (hs : ∀ t, (s.stresses t).status ≠ .running →
      (s'.stresses t).status = (s.stresses t).status) : Closed b s' result := by
  have hmret : ∀ t, (s.measures t).status = .returned → (s'.measures t).status = .returned := by
    intro t ht
    rw [hm t (by simp [ht]), ht]
  have hsret : ∀ t, (s.stresses t).status = .returned → (s'.stresses t).status = .returned := by
    intro t ht
    rw [hs t (by simp [ht]), ht]
  cases h with
  | done hdone => exact .done (harm.trans hdone)
  | unwritten e hraw hm' hs' hlt =>
    rw [← harm] at hm' hs' hlt
    exact .unwritten e hraw (fun i hi => hmret _ (harm ▸ hm' i hi))
      (fun i hi => hsret _ (harm ▸ hs' i hi)) hlt
  | measure i e hi hbefore hfail hlt =>
    rw [← harm] at hi hbefore hfail hlt
    refine .measure i e hi (fun j hj => hmret _ (hbefore j hj)) ?_ hlt
    rw [hm _ (by simp [hfail]), hfail]
  | stress i e hi hm' hbefore hfail hlt =>
    rw [← harm] at hi hm' hbefore hfail hlt
    refine .stress i e hi (fun j hj => hmret _ (hm' j hj)) (fun j hj => hsret _ (hbefore j hj))
      ?_ hlt
    rw [hs _ (by simp [hfail]), hfail]

section
variable (h : Inv b s)
include h

theorem Inv.measure_move {t : Nat × Nat} {m : Measurement}
    (hmove : (s.measures t).Move b s.signal s.tsc m) : Inv b (s.setMeasure t m) where
  arm_le := h.arm_le
  inside := h.inside
  spawned_le := h.spawned_le
  joined_le := h.joined_le
  stressed_le := h.stressed_le
  joinedStress_le := h.joinedStress_le
  measures := h.measures.move hmove
  stresses := ⟨h.stresses.crew, h.stresses.target, h.stresses.at_pc, h.stresses.passed,
    h.stresses.go, h.stresses.go_on, h.stresses.stop, h.stresses.stop_on, h.stresses.mapped⟩
  closed := by
    intro result hresult
    refine (h.closed result hresult).congr rfl (fun u hu => ?_) fun _ _ => rfl
    rw [setMeasure_of_ne]
    rintro rfl
    exact hu hmove.running
  torn := h.torn

theorem Inv.stress_move {t : Nat × Nat} {m : Stress}
    (hmove : (s.stresses t).Move b (s.go t.1) (s.stop t.1) m) : Inv b (s.setStress t m) where
  arm_le := h.arm_le
  inside := h.inside
  spawned_le := h.spawned_le
  joined_le := h.joined_le
  stressed_le := h.stressed_le
  joinedStress_le := h.joinedStress_le
  measures := ⟨h.measures.crew, h.measures.target, h.measures.at_pc, h.measures.passed,
    h.measures.signal, h.measures.signal_on, h.measures.results, h.measures.mapped⟩
  stresses := h.stresses.move hmove
  closed := by
    intro result hresult
    refine (h.closed result hresult).congr rfl (fun _ _ => rfl) fun u hu => ?_
    rw [setStress_of_ne]
    rintro rfl
    exact hu hmove.running
  torn := h.torn

/-! ## Crashes -/

/-- Every thread of an earlier arm could be pinned. -/
theorem Inv.reached (hlt : s.arm < b.config.arms.length) : b.Reached s.arm := by
  refine ⟨hlt, fun k hk core hcore => ?_⟩
  rcases List.mem_append.mp hcore with hcore | hcore
  · obtain ⟨e, he, rfl⟩ := List.mem_map.mp hcore
    obtain ⟨i, hi⟩ := List.mem_iff_getElem?.mp he
    have hret := h.measures.crew.past k i hk (List.getElem?_eq_some_iff.mp hi).1
    have htarget := h.measures.target (k, i) (by rw [hret]; simp)
    rw [hi] at htarget
    cases htarget
    exact (Measurement.at_returned (h.measures.at_pc (k, i)) hret).1.1
  · obtain ⟨e, he, rfl⟩ := List.mem_map.mp hcore
    obtain ⟨i, hi⟩ := List.mem_iff_getElem?.mp he
    have hret := h.stresses.crew.past k i hk (List.getElem?_eq_some_iff.mp hi).1
    have htarget := h.stresses.target (k, i) (by rw [hret]; simp)
    rw [hi] at htarget
    cases htarget
    exact Stress.pins_of_returned (h.stresses.at_pc (k, i)) hret

/-- The core of a measurement thread that there is. -/
theorem Inv.measure_core {i : Nat} (hi : (s.measures (s.arm, i)).status ≠ .absent) :
    i < (b.targets s.arm).length ∧
      (b.cores s.arm)[i]? = some (s.measures (s.arm, i)).core := by
  have htarget := h.measures.target _ hi
  have hlt := (List.getElem?_eq_some_iff.mp htarget).1
  refine ⟨hlt, ?_⟩
  rw [Setup.cores, List.getElem?_append_left (by rw [List.length_map]; exact hlt),
    List.getElem?_map, htarget]
  rfl

theorem Inv.stress_core {i : Nat} (hi : (s.stresses (s.arm, i)).status ≠ .absent) :
    i < (b.stressors s.arm).length ∧ (b.cores s.arm)[(b.targets s.arm).length + i]? =
      some (s.stresses (s.arm, i)).core := by
  have htarget := h.stresses.target _ hi
  refine ⟨(List.getElem?_eq_some_iff.mp htarget).1, ?_⟩
  rw [Setup.cores, List.getElem?_append_right (by rw [List.length_map]; omega), List.length_map,
    show (b.targets s.arm).length + i - (b.targets s.arm).length = i by omega,
    List.getElem?_map, htarget]
  rfl

/-- With samples that can be a vector, only an arm that was torn has threads left after
`run` has returned. -/
theorem Inv.torn_of_measure (hfit : b.SamplesFit) {result : RunResult}
    (hresult : s.main.result? = some result) {t : Nat × Nat}
    (hrun : (s.measures t).status = .running) (hpast : (s.measures t).pc.Past) : b.Torn := by
  obtain ⟨i, rfl, -, -⟩ := h.measures.crew.running hrun
  obtain ⟨hi, hcore⟩ := h.measure_core (by rw [hrun]; simp)
  have hpins : Pins b.host (s.measures (s.arm, i)).core := by
    have hat := h.measures.at_pc (s.arm, i)
    cases hpc : (s.measures (s.arm, i)).pc with
    | warmup =>
      rw [hpc] at hat
      exact hat.1
    | sampling | reading | timing | returned =>
      rw [hpc] at hat
      exact hat.1.1
    | unspawned | pinning | waiting | failed | panicked =>
      rw [hpc] at hpast
      exact hpast.elim
  cases h.closed result hresult with
  | done harm =>
    rw [Setup.targets, List.getElem?_eq_none (Nat.le_of_eq harm.symm)] at hi
    exact absurd hi (Nat.not_lt_zero i)
  | unwritten e _ hm =>
    have hret := hm i hi
    rw [hrun] at hret
    cases hret
  | measure j e hj hbefore hfail hlt =>
    obtain ⟨-, hcore'⟩ := h.measure_core (i := j) (by rw [hfail]; simp)
    have hji : j < i := by
      rcases Nat.lt_trichotomy i j with hij | rfl | hji
      · have hret := hbefore i hij
        rw [hrun] at hret
        cases hret
      · rw [hrun] at hfail
        cases hfail
      · exact hji
    exact ⟨s.arm, h.reached hlt, j, i, _, _, hji, hcore', hcore,
      Measurement.not_pins_of_failed hfit (h.measures.at_pc _) hfail, hpins⟩
  | stress j e hj hm =>
    have hret := hm i hi
    rw [hrun] at hret
    cases hret

theorem Inv.torn_of_stress (hfit : b.SamplesFit) {result : RunResult}
    (hresult : s.main.result? = some result) {t : Nat × Nat}
    (hrun : (s.stresses t).status = .running) (hpast : (s.stresses t).pc.Past) : b.Torn := by
  obtain ⟨i, rfl, -, -⟩ := h.stresses.crew.running hrun
  obtain ⟨hi, hcore⟩ := h.stress_core (by rw [hrun]; simp)
  have hpins : Pins b.host (s.stresses (s.arm, i)).core := by
    have hat := h.stresses.at_pc (s.arm, i)
    cases hpc : (s.stresses (s.arm, i)).pc with
    | loopTop | touching | returned =>
      rw [hpc] at hat
      exact hat
    | unspawned | pinning | waiting | failed =>
      rw [hpc] at hpast
      exact hpast.elim
  cases h.closed result hresult with
  | done harm =>
    rw [Setup.stressors, List.getElem?_eq_none (Nat.le_of_eq harm.symm)] at hi
    exact absurd hi (Nat.not_lt_zero i)
  | unwritten e _ _ hs =>
    have hret := hs i hi
    rw [hrun] at hret
    cases hret
  | measure j e hj hbefore hfail hlt =>
    obtain ⟨-, hcore'⟩ := h.measure_core (i := j) (by rw [hfail]; simp)
    exact ⟨s.arm, h.reached hlt, j, _, _, _, by omega, hcore', hcore,
      Measurement.not_pins_of_failed hfit (h.measures.at_pc _) hfail, hpins⟩
  | stress j e hj _ hbefore hfail hlt =>
    obtain ⟨-, hcore'⟩ := h.stress_core (i := j) (by rw [hfail]; simp)
    have hji : j < i := by
      rcases Nat.lt_trichotomy i j with hij | rfl | hji
      · have hret := hbefore i hij
        rw [hrun] at hret
        cases hret
      · rw [hrun] at hfail
        cases hfail
      · exact hji
    exact ⟨s.arm, h.reached hlt, _, _, _, _, by omega, hcore', hcore,
      Stress.not_pins_of_failed (h.stresses.at_pc _) hfail, hpins⟩

theorem Inv.crash (hover : ¬ s.Over) (htorn : b.SamplesFit → b.Torn)
    (hun : s.replicasMapped = false ∨ s.stressMapped = false) : Inv b s.crash := by
  have hmain : ∃ result, s.main = .unmapStress result ∨ s.main = .leave result := by
    unfold Over at hover
    rcases hun with hun | hun
    · obtain ⟨result, hmain | hmain | hmain | hmain⟩ := h.measures.mapped hun
      · exact ⟨result, Or.inl hmain⟩
      · exact ⟨result, Or.inr hmain⟩
      · simp [hmain] at hover
      · simp [hmain] at hover
    · obtain ⟨result, hmain | hmain | hmain⟩ := h.stresses.mapped hun
      · exact ⟨result, Or.inr hmain⟩
      · simp [hmain] at hover
      · simp [hmain] at hover
  obtain ⟨result, hmain⟩ := hmain
  have hspawned : s.main.spawned (b.targets s.arm).length = (b.targets s.arm).length := by
    rcases hmain with hmain | hmain <;> rw [hmain] <;> rfl
  have hstressed : s.main.stressed (b.stressors s.arm).length = (b.stressors s.arm).length := by
    rcases hmain with hmain | hmain <;> rw [hmain] <;> rfl
  exact
    { arm_le := h.arm_le
      inside := fun hin => hin.elim
      spawned_le := Nat.le_refl _
      joined_le := Nat.zero_le _
      stressed_le := Nat.le_refl _
      joinedStress_le := Nat.zero_le _
      measures := h.measures.goto rfl rfl (Nat.le_refl _) hspawned.symm
        (fun i hi => absurd hi (Nat.not_lt_zero i)) (fun _ => trivial) (fun _ => trivial)
        (fun hin => hin.elim) (fun hin => hin.elim)
        fun _ => ⟨result, Or.inr (Or.inr (Or.inr rfl))⟩
      stresses := h.stresses.goto rfl rfl hstressed.symm
        (fun i hi => absurd hi (Nat.not_lt_zero i)) (fun _ => trivial)
        (fun k hk => (h.stresses.go k hk).imp id fun hgo => ⟨hgo.1, trivial⟩)
        (fun hin => hin.elim)
        (fun k hk => (h.stresses.stop k hk).imp id fun hstop => ⟨hstop.1, trivial⟩)
        (fun hin => hin.elim) fun _ => ⟨result, Or.inr (Or.inr rfl)⟩
      closed := fun result hresult => by cases hresult
      torn := fun _ => htorn }

theorem Inv.measureStep {t : Nat × Nat} (hover : ¬ s.Over) (hs : s.measureStep b t = some s') :
    Inv b s' := by
  rcases measureStep_cases hs with ⟨m, hmove, rfl⟩ | ⟨hun, hrun, hpast, rfl⟩
  · exact h.measure_move hmove
  · refine h.crash hover ?_ (Or.inl hun)
    obtain ⟨result, hmain⟩ := h.measures.mapped hun
    have hresult : s.main.result? = some result := by
      rcases hmain with hmain | hmain | hmain | hmain
      · rw [hmain]; rfl
      · rw [hmain]; rfl
      · rw [hmain]; rfl
      · unfold Over at hover
        simp [hmain] at hover
    exact fun hfit => h.torn_of_measure hfit hresult hrun hpast

theorem Inv.stressStep {t : Nat × Nat} (hover : ¬ s.Over) (hs : s.stressStep b t = some s') :
    Inv b s' := by
  rcases stressStep_cases hs with ⟨m, hmove, rfl⟩ | ⟨hun, hrun, hpast, rfl⟩
  · exact h.stress_move hmove
  · refine h.crash hover ?_ (Or.inr hun)
    obtain ⟨result, hmain⟩ := h.stresses.mapped hun
    have hresult : s.main.result? = some result := by
      rcases hmain with hmain | hmain | hmain
      · rw [hmain]; rfl
      · rw [hmain]; rfl
      · unfold Over at hover
        simp [hmain] at hover
    exact fun hfit => h.torn_of_stress hfit hresult hrun hpast

theorem Inv.tick (hs : s.tick = some s') : Inv b s' := by
  unfold Benchmark.tick at hs
  split at hs
  · next hlt =>
    cases hs
    have htsc : s.tsc ≤ (⟨s.tsc.val + 1, hlt⟩ : Fin (2 ^ 64)) := Nat.le_succ _
    exact
      { arm_le := h.arm_le
        inside := h.inside
        spawned_le := h.spawned_le
        joined_le := h.joined_le
        stressed_le := h.stressed_le
        joinedStress_le := h.joinedStress_le
        measures := h.measures.goto rfl rfl htsc rfl h.measures.crew.returned id
          h.measures.signal h.measures.signal_on h.measures.results h.measures.mapped
        stresses := ⟨h.stresses.crew, h.stresses.target, h.stresses.at_pc, h.stresses.passed,
          h.stresses.go, h.stresses.go_on, h.stresses.stop, h.stresses.stop_on, h.stresses.mapped⟩
        closed := fun result hresult =>
          (h.closed result hresult).congr rfl (fun _ _ => rfl) fun _ _ => rfl
        torn := h.torn }
  · cases hs

/-! ## The main thread -/

theorem Inv.mapped_inside (hin : s.main.Inside ∨ s.main = .armTop) :
    s.replicasMapped = true ∧ s.stressMapped = true := by
  constructor
  · by_contra hun
    obtain ⟨result, hmain | hmain | hmain | hmain⟩ := h.measures.mapped (by simpa using hun)
    all_goals
      rw [hmain] at hin
      rcases hin with hin | hin
      · exact hin.elim
      · cases hin
  · by_contra hun
    obtain ⟨result, hmain | hmain | hmain⟩ := h.stresses.mapped (by simpa using hun)
    all_goals
      rw [hmain] at hin
      rcases hin with hin | hin
      · exact hin.elim
      · cases hin

/-- The main thread gives up an arm, or there is none left. -/
theorem Inv.close {result : RunResult} (hin : s.main.Inside ∨ s.main = .armTop)
    (hspawned : s.main.spawned (b.targets s.arm).length = (b.targets s.arm).length)
    (hstressed : s.main.stressed (b.stressors s.arm).length = (b.stressors s.arm).length)
    (hclosed : Closed b s result) : Inv b (s.close result) := by
  obtain ⟨hmapped, hstress⟩ := h.mapped_inside hin
  exact
    { arm_le := h.arm_le
      inside := fun hin => hin.elim
      spawned_le := Nat.le_refl _
      joined_le := Nat.zero_le _
      stressed_le := Nat.le_refl _
      joinedStress_le := Nat.zero_le _
      measures := h.measures.goto rfl rfl (Nat.le_refl _) hspawned.symm
        (fun i hi => absurd hi (Nat.not_lt_zero i)) (fun _ => trivial) (fun _ => trivial)
        (fun hin => hin.elim) (fun hin => hin.elim)
        fun hun => by
          rw [show (s.close result).replicasMapped = s.replicasMapped from rfl, hmapped] at hun
          cases hun
      stresses := h.stresses.goto rfl rfl hstressed.symm
        (fun i hi => absurd hi (Nat.not_lt_zero i)) (fun _ => trivial)
        (fun k hk => (h.stresses.go k hk).imp id fun hgo => ⟨hgo.1, trivial⟩)
        (fun hin => hin.elim)
        (fun k hk => (h.stresses.stop k hk).imp id fun hstop => ⟨hstop.1, trivial⟩)
        (fun hin => hin.elim)
        fun hun => by
          rw [show (s.close result).stressMapped = s.stressMapped from rfl, hstress] at hun
          cases hun
      closed := by
        intro result' hresult
        cases hresult
        exact hclosed.congr rfl (fun _ _ => rfl) fun _ _ => rfl
      torn := fun h => by cases h }

theorem Inv.armTop (hmain : s.main = .armTop) : Inv b (s.armTop b) := by
  obtain ⟨hmap, hsmap⟩ := h.mapped_inside (Or.inr hmain)
  have hm := h.measures
  have hs := h.stresses
  have hquiet : s.signal = true → False := by
    have hsignal := hm.signal
    rw [hmain] at hsignal
    exact hsignal
  have hgo : ∀ k, s.go k = true → k < s.arm := by
    intro k hk
    have hgo := hs.go k hk
    rw [hmain] at hgo
    exact hgo.resolve_right And.right
  have hstop : ∀ k, s.stop k = true → k < s.arm := by
    intro k hk
    have hstop := hs.stop k hk
    rw [hmain] at hstop
    exact hstop.resolve_right And.right
  unfold Benchmark.armTop
  cases harm : b.config.arms[s.arm]? with
  | none =>
    have hend : s.arm = b.config.arms.length :=
      Nat.le_antisymm h.arm_le (List.getElem?_eq_none_iff.mp harm)
    refine h.close (Or.inr hmain) ?_ ?_ (.done hend)
    · simp [hmain, MainPc.spawned, Setup.targets, harm]
    · simp [hmain, MainPc.stressed, Setup.stressors, harm]
  | some arm =>
    have hlt := (List.getElem?_eq_some_iff.mp harm).1
    dsimp only
    cases hregion : b.stressRegion arm with
    | none =>
      have hnone : b.stressors s.arm = [] := by
        simp [Setup.stressors, harm, Setup.stressorsOf, hregion]
      refine .of_inside trivial hlt (Nat.zero_le _) (Nat.zero_le _) (Nat.le_refl _)
        (Nat.zero_le _) ?_ ?_
      · exact hm.goto rfl rfl (Nat.le_refl _) (by rw [hmain]; rfl)
          (fun i hi => absurd hi (Nat.not_lt_zero i)) (by rw [hmain]; exact False.elim)
          (fun hon => (hquiet hon).elim) (fun _ hsig => hsig.elim) (fun _ => rfl)
          (fun hun => by cases (hmap.symm.trans hun))
      · exact hs.goto rfl rfl (show (b.stressors s.arm).length = _ by rw [hmain, hnone]; rfl)
          (fun i hi => absurd hi (Nat.not_lt_zero i)) (by rw [hmain]; exact False.elim)
          (fun k hk => Or.inl (hgo k hk)) (fun _ _ hne => absurd hnone hne)
          (fun k hk => Or.inl (hstop k hk)) (fun _ hst => hst.elim)
          (fun hun => by cases (hsmap.symm.trans hun))
    | some region =>
      refine .of_inside trivial hlt (Nat.zero_le _) (Nat.zero_le _) (Nat.zero_le _)
        (Nat.zero_le _) ?_ ?_
      · exact hm.goto rfl rfl (Nat.le_refl _) (by rw [hmain]; rfl)
          (fun i hi => absurd hi (Nat.not_lt_zero i)) (by rw [hmain]; exact False.elim)
          (fun hon => (hquiet hon).elim) (fun _ hsig => hsig.elim) (fun _ => rfl)
          (fun hun => by cases (hmap.symm.trans hun))
      · exact hs.goto rfl rfl (by rw [hmain]; rfl)
          (fun i hi => absurd hi (Nat.not_lt_zero i)) (by rw [hmain]; exact False.elim)
          (fun k hk => Or.inl (hgo k hk)) (fun _ hgone => hgone.elim)
          (fun k hk => Or.inl (hstop k hk)) (fun _ hst => hst.elim)
          (fun hun => by cases (hsmap.symm.trans hun))

/-- The stress threads of the arm are spawned. -/
theorem Inv.startStress {i : Nat} (hmain : s.main = .startStress i) :
    Inv b (s.startStress b i) := by
  have hin : s.main.Inside := by rw [hmain]; trivial
  have hle := h.stressed_le
  have hresults := h.measures.results hin
  rw [hmain] at hle hresults
  unfold Benchmark.startStress
  cases htarget : (b.stressors s.arm)[i]? with
  | none =>
    have hall : (b.stressors s.arm).length = i :=
      Nat.le_antisymm (List.getElem?_eq_none_iff.mp htarget) hle
    refine .of_inside trivial (h.inside hin) (Nat.zero_le _) (Nat.zero_le _) (Nat.le_refl _)
      (Nat.zero_le _) ?_ ?_
    · exact h.measures.stay hin rfl rfl rfl rfl rfl (by rw [hmain]; rfl)
        (fun i hi => absurd hi (Nat.not_lt_zero i)) (by rw [hmain]; rfl) hresults
    · exact h.stresses.stay hin rfl rfl rfl rfl rfl
        (show (b.stressors s.arm).length = _ by rw [hmain, hall]; rfl)
        (fun i hi => absurd hi (Nat.not_lt_zero i)) (by rw [hmain]; rfl) (by rw [hmain]; rfl)
  | some e =>
    have hlt := (List.getElem?_eq_some_iff.mp htarget).1
    refine .of_inside trivial (h.inside hin) (Nat.zero_le _) (Nat.zero_le _) hlt (Nat.zero_le _)
      ?_ (h.stresses.spawn hmain htarget)
    exact h.measures.stay hin rfl rfl rfl rfl rfl (by rw [hmain]; rfl)
      (fun i hi => absurd hi (Nat.not_lt_zero i)) (by rw [hmain]; rfl) hresults

theorem Inv.go (hmain : s.main = .go) :
    Inv b { s with go := Function.update s.go s.arm true, main := .spawn 0 } := by
  have hin : s.main.Inside := by rw [hmain]; trivial
  have hs := h.stresses
  have hresults := h.measures.results hin
  have hgo := hs.go
  have hstop := hs.stop
  rw [hmain] at hresults hgo hstop
  refine .of_inside trivial (h.inside hin) (Nat.zero_le _) (Nat.zero_le _) (Nat.le_refl _)
    (Nat.zero_le _) ?_ ?_
  · exact h.measures.stay hin rfl rfl rfl rfl rfl (by rw [hmain]; rfl)
      (fun i hi => absurd hi (Nat.not_lt_zero i)) (by rw [hmain]; rfl) hresults
  · refine hs.goto rfl rfl (by rw [hmain]; rfl) (fun i hi => absurd hi (Nat.not_lt_zero i))
      (fun _ => trivial) (fun k hk => ?_) (fun _ _ _ => Function.update_self ..) hstop
      (fun _ hst => hst.elim) (fun hun => ?_)
    · by_cases hka : k = s.arm
      · exact Or.inr ⟨hka, trivial⟩
      · change Function.update s.go s.arm true k = true at hk
        rw [Function.update_of_ne hka] at hk
        exact Or.inl ((hgo k hk).resolve_right fun h => hka h.1)
    · cases ((h.mapped_inside (Or.inl hin)).2.symm.trans hun)

theorem Inv.spawn {i : Nat} (hmain : s.main = .spawn i) : Inv b (s.spawn b i) := by
  have hin : s.main.Inside := by rw [hmain]; trivial
  have hle := h.spawned_le
  have hresults := h.measures.results hin
  rw [hmain] at hle hresults
  unfold Benchmark.spawn
  cases htarget : (b.targets s.arm)[i]? with
  | none =>
    have hall : (b.targets s.arm).length = i :=
      Nat.le_antisymm (List.getElem?_eq_none_iff.mp htarget) hle
    refine .of_inside trivial (h.inside hin) (Nat.le_refl _) (Nat.zero_le _) (Nat.le_refl _)
      (Nat.zero_le _) ?_ ?_
    · exact h.measures.stay hin rfl rfl rfl rfl rfl
        (show (b.targets s.arm).length = _ by rw [hmain, hall]; rfl)
        (fun i hi => absurd hi (Nat.not_lt_zero i)) (by rw [hmain]; rfl) hresults
    · exact h.stresses.stay hin rfl rfl rfl rfl rfl (by rw [hmain]; rfl)
        (fun i hi => absurd hi (Nat.not_lt_zero i)) (by rw [hmain]; rfl) (by rw [hmain]; rfl)
  | some e =>
    have hlt := (List.getElem?_eq_some_iff.mp htarget).1
    refine .of_inside trivial (h.inside hin) hlt (Nat.zero_le _) (Nat.le_refl _) (Nat.zero_le _)
      (h.measures.spawn hmain htarget) ?_
    exact h.stresses.stay hin rfl rfl rfl rfl rfl (by rw [hmain]; rfl)
      (fun i hi => absurd hi (Nat.not_lt_zero i)) (by rw [hmain]; rfl) (by rw [hmain]; rfl)

theorem Inv.signal (hmain : s.main = .signal) :
    Inv b { s with signal := true, main := .join 0 } := by
  have hin : s.main.Inside := by rw [hmain]; trivial
  have hresults := h.measures.results hin
  rw [hmain] at hresults
  refine .of_inside trivial (h.inside hin) (Nat.le_refl _) (Nat.zero_le _) (Nat.le_refl _)
    (Nat.zero_le _) ?_ ?_
  · refine h.measures.goto rfl rfl (Nat.le_refl _) (by rw [hmain]; rfl)
      (fun i hi => absurd hi (Nat.not_lt_zero i)) (fun _ => trivial) (fun _ => trivial)
      (fun _ _ => rfl) (fun _ => hresults) (fun hun => ?_)
    cases ((h.mapped_inside (Or.inl hin)).1.symm.trans hun)
  · exact h.stresses.stay hin rfl rfl rfl rfl rfl (by rw [hmain]; rfl)
      (fun i hi => absurd hi (Nat.not_lt_zero i)) (by rw [hmain]; rfl) (by rw [hmain]; rfl)

/-- A thread is joined: it has returned, or `run` gives up. -/
theorem Inv.join {i : Nat} (hmain : s.main = .join i) (hs : s.join b i = some s') : Inv b s' := by
  have hin : s.main.Inside := by rw [hmain]; trivial
  have hle := h.joined_le
  have hresults := h.measures.results hin
  have hreturned := h.measures.crew.returned
  rw [hmain] at hle hresults hreturned
  unfold Benchmark.join at hs
  split at hs
  · next hi =>
    dsimp only at hs
    split at hs
    · cases hs
    · cases hs
    · next hret =>
      cases hs
      refine .of_inside trivial (h.inside hin) (Nat.le_refl _) hi (Nat.le_refl _)
        (Nat.zero_le _) ?_ ?_
      · refine h.measures.stay hin rfl rfl rfl rfl rfl (by rw [hmain]; rfl) (fun j hj => ?_)
          (by rw [hmain]; rfl) ?_
        · rcases Nat.lt_succ_iff_lt_or_eq.mp hj with hlt | rfl
          · exact hreturned j hlt
          · exact hret
        · show s.results ++ _ = s.samplesOf s.arm (i + 1)
          rw [hresults]
          simp [samplesOf, MainPc.joined, List.range_succ]
      · exact h.stresses.stay hin rfl rfl rfl rfl rfl (by rw [hmain]; rfl)
          (fun i hi => absurd hi (Nat.not_lt_zero i)) (by rw [hmain]; rfl) (by rw [hmain]; rfl)
    · next e hfail =>
      cases hs
      exact h.close (Or.inl hin) (by rw [hmain]; rfl) (by rw [hmain]; rfl)
        (.measure i e hi hreturned hfail (h.inside hin))
  · next hi =>
    cases hs
    have hall : i = (b.targets s.arm).length := Nat.le_antisymm hle (Nat.le_of_not_lt hi)
    refine .of_inside trivial (h.inside hin) (Nat.le_refl _) (Nat.le_refl _) (Nat.le_refl _)
      (Nat.zero_le _) ?_ ?_
    · refine h.measures.stay hin rfl rfl rfl rfl rfl (by rw [hmain]; rfl) (fun j hj => ?_)
        (by rw [hmain]; rfl) ?_
      · exact hreturned j (hall ▸ hj)
      · show s.results = s.samplesOf s.arm (b.targets s.arm).length
        rw [hresults, ← hall]
        rfl
    · exact h.stresses.stay hin rfl rfl rfl rfl rfl (by rw [hmain]; rfl)
        (fun i hi => absurd hi (Nat.not_lt_zero i)) (by rw [hmain]; rfl) (by rw [hmain]; rfl)

theorem Inv.stop (hmain : s.main = .stop) :
    Inv b { s with stop := Function.update s.stop s.arm true, main := .joinStress 0 } := by
  have hin : s.main.Inside := by rw [hmain]; trivial
  have hs := h.stresses
  have hresults := h.measures.results hin
  have hreturned := h.measures.crew.returned
  have hgo := hs.go
  have hgo_on := hs.go_on hin
  have hstop := hs.stop
  rw [hmain] at hresults hreturned hgo hgo_on hstop
  refine .of_inside trivial (h.inside hin) (Nat.le_refl _) (Nat.le_refl _) (Nat.le_refl _)
    (Nat.zero_le _) ?_ ?_
  · exact h.measures.stay hin rfl rfl rfl rfl rfl (by rw [hmain]; rfl) hreturned
      (by rw [hmain]; rfl) hresults
  · refine hs.goto rfl rfl (by rw [hmain]; rfl) (fun i hi => absurd hi (Nat.not_lt_zero i))
      (fun _ => trivial) hgo (fun _ => hgo_on) (fun k hk => ?_)
      (fun _ _ => Function.update_self ..) (fun hun => ?_)
    · by_cases hka : k = s.arm
      · exact Or.inr ⟨hka, trivial⟩
      · change Function.update s.stop s.arm true k = true at hk
        rw [Function.update_of_ne hka] at hk
        exact Or.inl ((hstop k hk).resolve_right fun h => hka h.1)
    · cases ((h.mapped_inside (Or.inl hin)).2.symm.trans hun)

/-- The arm's samples are such that nothing in the report panics. -/
theorem Inv.recorded {arm n : Nat} (hret : ∀ i, i < n → (s.measures (arm, i)).status = .returned) :
    ∀ samples ∈ s.samplesOf arm n, Recorded b.config.samples samples := by
  intro samples hmem
  obtain ⟨i, hi, rfl⟩ := List.mem_map.mp hmem
  obtain ⟨-, hlen, hord⟩ := Measurement.at_returned (h.measures.at_pc (arm, i))
    (hret i (List.mem_range.mp hi))
  exact ⟨hlen, hord.sorted⟩

theorem Inv.process_returns {k : Nat} (name : String)
    (hret : ∀ i, i < (b.targets k).length → (s.measures (k, i)).status = .returned) :
    ∃ chunks, processAndWrite b.config.samples name (s.samplesOf k (b.targets k).length) =
      some chunks := by
  obtain ⟨chunks, -, hone, hmany⟩ := processAndWrite_returns name (h.recorded hret)
  by_cases hlen : (s.samplesOf k (b.targets k).length).length ≤ 1
  · exact ⟨chunks, hone hlen⟩
  · obtain ⟨hedged, -, hprocess⟩ := hmany (Nat.lt_of_not_le hlen)
    exact ⟨_, hprocess⟩

theorem Inv.report_chunks (hret : ∀ i, i < (b.targets s.arm).length →
      (s.measures (s.arm, i)).status = .returned) (hlt : s.arm < b.config.arms.length)
    (hresults : s.results = s.samplesOf s.arm (b.targets s.arm).length) :
    ∃ arm chunks, b.config.arms[s.arm]? = some arm ∧
      processAndWrite b.config.samples arm.label (s.samplesOf s.arm (b.targets s.arm).length) =
        some chunks ∧ s.report b = { s with main := .write chunks } := by
  have harm := List.getElem?_eq_getElem hlt
  obtain ⟨chunks, hprocess⟩ := h.process_returns (b.config.arms[s.arm]).label hret
  refine ⟨_, chunks, harm, hprocess, ?_⟩
  simp only [Benchmark.report, harm, hresults, hprocess]

theorem Inv.joinStress {i : Nat} (hmain : s.main = .joinStress i)
    (hs : s.joinStress b i = some s') : Inv b s' := by
  have hin : s.main.Inside := by rw [hmain]; trivial
  have hle := h.joinedStress_le
  have hresults := h.measures.results hin
  have hreturned := h.measures.crew.returned
  have hreturned' := h.stresses.crew.returned
  rw [hmain] at hle hresults hreturned hreturned'
  unfold Benchmark.joinStress at hs
  split at hs
  · next hi =>
    split at hs
    · cases hs
    · cases hs
    · next hret =>
      cases hs
      refine .of_inside trivial (h.inside hin) (Nat.le_refl _) (Nat.le_refl _) (Nat.le_refl _)
        hi ?_ ?_
      · exact h.measures.stay hin rfl rfl rfl rfl rfl (by rw [hmain]; rfl) hreturned
          (by rw [hmain]; rfl) hresults
      · refine h.stresses.stay hin rfl rfl rfl rfl rfl (by rw [hmain]; rfl) (fun j hj => ?_)
          (by rw [hmain]; rfl) (by rw [hmain]; rfl)
        rcases Nat.lt_succ_iff_lt_or_eq.mp hj with hlt | rfl
        · exact hreturned' j hlt
        · exact hret
    · next e hfail =>
      cases hs
      exact h.close (Or.inl hin) (by rw [hmain]; rfl) (by rw [hmain]; rfl)
        (.stress i e hi hreturned hreturned' hfail (h.inside hin))
  · next hi =>
    cases hs
    have hall : i = (b.stressors s.arm).length := Nat.le_antisymm hle (Nat.le_of_not_lt hi)
    obtain ⟨arm, chunks, -, -, hreport⟩ := h.report_chunks hreturned (h.inside hin) hresults
    rw [hreport]
    refine .of_inside trivial (h.inside hin) (Nat.le_refl _) (Nat.le_refl _) (Nat.le_refl _)
      (Nat.le_refl _) ?_ ?_
    · exact h.measures.stay hin rfl rfl rfl rfl rfl (by rw [hmain]; rfl) hreturned
        (by rw [hmain]; rfl) hresults
    · exact h.stresses.stay hin rfl rfl rfl rfl rfl (by rw [hmain]; rfl)
        (fun j hj => hreturned' j (hall ▸ hj)) (by rw [hmain]; rfl) (by rw [hmain]; rfl)

/-- A file is written, or the last one was. -/
theorem Inv.written {chunks : List Chunk} (hmain : s.main = .write chunks) {printed : List Line}
    {main : MainPc} (hnext : main = .reset ∨ ∃ rest, main = .write rest) :
    Inv b { s with printed := printed, main := main } := by
  have hin : s.main.Inside := by rw [hmain]; trivial
  have hresults := h.measures.results hin
  have hreturned := h.measures.crew.returned
  have hreturned' := h.stresses.crew.returned
  rw [hmain] at hresults hreturned hreturned'
  rcases hnext with rfl | ⟨rest, rfl⟩
  all_goals
    refine .of_inside trivial (h.inside hin) (Nat.le_refl _) (Nat.le_refl _) (Nat.le_refl _)
      (Nat.le_refl _) ?_ ?_
    · exact h.measures.stay hin rfl rfl rfl rfl rfl (by rw [hmain]; rfl) hreturned
        (by rw [hmain]; rfl) hresults
    · exact h.stresses.stay hin rfl rfl rfl rfl rfl (by rw [hmain]; rfl) hreturned'
        (by rw [hmain]; rfl) (by rw [hmain]; rfl)

theorem Inv.writeStep {outcome : Except IoError Unit} (hs : s.writeStep b outcome = some s') :
    Inv b s' := by
  unfold Benchmark.writeStep at hs
  split at hs
  · next chunk rest hmain =>
    dsimp only at hs
    split at hs
    · cases hs
      exact h.written hmain (Or.inr ⟨rest, rfl⟩)
    · next e =>
      split at hs
      · next hraw =>
        cases hs
        have hin : s.main.Inside := by rw [hmain]; trivial
        have hreturned := h.measures.crew.returned
        have hreturned' := h.stresses.crew.returned
        rw [hmain] at hreturned hreturned'
        have hclose : Inv b (s.close (.error (.io e))) := h.close (Or.inl hin)
          (by rw [hmain]; rfl) (by rw [hmain]; rfl)
          (.unwritten e hraw hreturned hreturned' (h.inside hin))
        -- what was printed is nobody's concern
        exact ⟨hclose.arm_le, hclose.inside, hclose.spawned_le, hclose.joined_le,
          hclose.stressed_le, hclose.joinedStress_le,
          hclose.measures.goto rfl rfl (Nat.le_refl _) rfl hclose.measures.crew.returned id
            hclose.measures.signal hclose.measures.signal_on hclose.measures.results
            hclose.measures.mapped,
          hclose.stresses.goto rfl rfl rfl hclose.stresses.crew.returned id hclose.stresses.go
            hclose.stresses.go_on hclose.stresses.stop hclose.stresses.stop_on
            hclose.stresses.mapped,
          fun result hresult =>
            (hclose.closed result hresult).congr rfl (fun _ _ => rfl) fun _ _ => rfl,
          hclose.torn⟩
      · cases hs
  · cases hs

theorem Inv.reset (hmain : s.main = .reset) :
    Inv b { s with signal := false, arm := s.arm + 1, main := .armTop } where
  arm_le := h.inside (by rw [hmain]; trivial)
  inside := fun hin => hin.elim
  spawned_le := Nat.zero_le _
  joined_le := Nat.zero_le _
  stressed_le := Nat.zero_le _
  joinedStress_le := Nat.zero_le _
  measures := h.measures.next hmain
  stresses := h.stresses.next hmain
  closed := fun result hresult => by cases hresult
  torn := fun hcrash => by cases hcrash

/-- `run` has returned, and goes on to drop the next thing it owns. -/
theorem Inv.unmap {result : RunResult} (hresult : s.main.result? = some result)
    (harm : s'.arm = s.arm) (hmeasures : s'.measures = s.measures)
    (hstresses : s'.stresses = s.stresses) (htsc : s'.tsc = s.tsc) (hgo : s'.go = s.go)
    (hstop : s'.stop = s.stop) (hresult' : s'.main.result? = some result)
    (hmapped : s'.replicasMapped = false → ∃ result, s'.main = .unmapStress result ∨
      s'.main = .leave result ∨ s'.main = .exited result ∨ s'.main = .crashed)
    (hstressMapped : s'.stressMapped = false → ∃ result, s'.main = .leave result ∨
      s'.main = .exited result ∨ s'.main = .crashed) : Inv b s' := by
  -- nothing is different for the threads between these program points
  have hout : ∀ main : MainPc, main.result? = some result → ∀ n,
      main.spawned n = n ∧ main.joined n = 0 ∧ main.stressed n = n ∧ main.joinedStress n = 0 ∧
      main.Gone ∧ main.Signalled ∧ main.Stopped ∧ ¬ main.Inside ∧ main ≠ .crashed := by
    intro main hmain n
    cases main with
    | unmapReplicas | unmapStress | leave | exited =>
      exact ⟨rfl, rfl, rfl, rfl, trivial, trivial, trivial, id, by simp⟩
    | _ => cases hmain
  obtain ⟨h1, -, -, -, hgone, hsig, hst, -, -⟩ := hout _ hresult (b.targets s.arm).length
  obtain ⟨h1', h2', -, -, hgone', hsig', hst', hin', hcrash'⟩ :=
    hout _ hresult' (b.targets s.arm).length
  obtain ⟨-, -, h3, -⟩ := hout _ hresult (b.stressors s.arm).length
  obtain ⟨-, -, h3', h4', -⟩ := hout _ hresult' (b.stressors s.arm).length
  exact
    { arm_le := by
        rw [harm]
        exact h.arm_le
      inside := fun hin => absurd hin hin'
      spawned_le := by rw [harm, h1']
      joined_le := by
        rw [harm, h2']
        exact Nat.zero_le _
      stressed_le := by rw [harm, h3']
      joinedStress_le := by
        rw [harm, h4']
        exact Nat.zero_le _
      measures := h.measures.goto hmeasures harm (by rw [htsc]) (by rw [h1, h1'])
        (fun i hi => by rw [h2'] at hi; exact absurd hi (Nat.not_lt_zero i)) (fun _ => hsig')
        (fun _ => hsig') (fun hin => absurd hin hin') (fun hin => absurd hin hin') hmapped
      stresses := h.stresses.goto hstresses harm (by rw [h3, h3'])
        (fun i hi => by rw [h4'] at hi; exact absurd hi (Nat.not_lt_zero i)) (fun _ => hgone')
        (fun k hk => (h.stresses.go k (hgo ▸ hk)).imp id fun h => ⟨h.1, hgone'⟩)
        (fun hin => absurd hin hin')
        (fun k hk => (h.stresses.stop k (hstop ▸ hk)).imp id fun h => ⟨h.1, hst'⟩)
        (fun hin => absurd hin hin') hstressMapped
      closed := by
        intro result₁ hresult₁
        rw [hresult'] at hresult₁
        cases hresult₁
        exact (h.closed result hresult).congr harm (fun t _ => by rw [hmeasures])
          fun t _ => by rw [hstresses]
      torn := fun hcrash => absurd hcrash hcrash' }

theorem Inv.mainStep (hs : s.mainStep b = some s') : Inv b s' := by
  unfold Benchmark.mainStep at hs
  split at hs
  · next hmain =>
    cases hs
    exact h.armTop hmain
  · next i hmain =>
    cases hs
    exact h.startStress hmain
  · next hmain =>
    cases hs
    exact h.go hmain
  · next i hmain =>
    cases hs
    exact h.spawn hmain
  · next hmain =>
    cases hs
    exact h.signal hmain
  · next i hmain => exact h.join hmain hs
  · next hmain =>
    cases hs
    exact h.stop hmain
  · next i hmain => exact h.joinStress hmain hs
  · next hmain =>
    cases hs
    exact h.written hmain (Or.inl rfl)
  · cases hs
  · next hmain =>
    cases hs
    exact h.reset hmain
  · next result hmain =>
    cases hs
    refine h.unmap (by rw [hmain]; rfl) rfl rfl rfl rfl rfl rfl rfl
      (fun _ => ⟨result, Or.inl rfl⟩) fun hun => ?_
    obtain ⟨result, hmain' | hmain' | hmain'⟩ := h.stresses.mapped hun
    all_goals
      rw [hmain] at hmain'
      cases hmain'
  · next result hmain =>
    cases hs
    exact h.unmap (by rw [hmain]; rfl) rfl rfl rfl rfl rfl rfl rfl
      (fun _ => ⟨result, Or.inr (Or.inl rfl)⟩) fun _ => ⟨result, Or.inl rfl⟩
  · next result hmain =>
    cases hs
    exact h.unmap (by rw [hmain]; rfl) rfl rfl rfl rfl rfl rfl rfl
      (fun _ => ⟨result, Or.inr (Or.inr (Or.inl rfl))⟩) fun _ => ⟨result, Or.inr (Or.inl rfl)⟩
  · cases hs
  · cases hs

/-- **Every step keeps the invariant.** -/
theorem Inv.step {a : Action} (hs : s.step b a = some s') : Inv b s' := by
  unfold Benchmark.step at hs
  split at hs
  · cases hs
  · next hover =>
    cases a with
    | main => exact h.mainStep hs
    | write outcome => exact h.writeStep hs
    | measure t => exact h.measureStep hover hs
    | stress t => exact h.stressStep hover hs
    | tick => exact h.tick hs

end

theorem inv_start (b : Setup) : Inv b start where
  arm_le := Nat.zero_le _
  inside := fun hin => hin.elim
  spawned_le := Nat.zero_le _
  joined_le := Nat.zero_le _
  stressed_le := Nat.zero_le _
  joinedStress_le := Nat.zero_le _
  measures := ⟨crew_start, fun t ht => absurd rfl ht, fun t => trivial, fun t ht => ht.elim,
    fun hon => (by cases hon), fun hin => hin.elim, fun hin => hin.elim, fun hun => (by cases hun)⟩
  stresses := ⟨crew_start, fun t ht => absurd rfl ht, fun t => trivial, fun t ht => ht.elim,
    fun k hk => (by cases hk), fun hin => hin.elim, fun k hk => (by cases hk), fun hin => hin.elim,
    fun hun => (by cases hun)⟩
  closed := fun result hresult => by cases hresult
  torn := fun hcrash => by cases hcrash

end Benchmark

end Tailslayer
