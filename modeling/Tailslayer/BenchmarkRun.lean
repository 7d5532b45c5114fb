import Tailslayer.BenchmarkTurns

/-!
# Whole runs of the benchmark

What holds after any interleaving of the threads: arms are kept apart
(`arms_kept_apart`), and their reports are printed whole and in order (`reports_printed`).
-/

namespace Tailslayer

open Crews StepRun

/-- All threads of the arm are spawned before the signal is stored. -/
theorem MainPc.Signalled.spawned_eq {main : MainPc} (h : main.Signalled) (n : Nat) :
    main.spawned n = n ∧ main.stressed n = n := by
  cases main with
  | armTop | startStress | go | spawn | signal => exact h.elim
  | _ => exact ⟨rfl, rfl⟩

theorem Measurement.present_of_past {m : Measurement} (h : m.pc.Past) : m.status ≠ .absent := by
  intro habsent
  cases hpc : m.pc with
  | unspawned =>
    rw [hpc] at h
    exact h
  | _ => simp [status, hpc] at habsent

namespace Benchmark

variable {b : Setup} {s s' : Benchmark}

/-! ## Arms do not overlap -/

/-- The stress of an arm goes on until all its measurements are over. -/
structure Stressed (b : Setup) (s : Benchmark) : Prop where
  stop_late : ∀ k, s.stop k = true → ∀ i, i < (b.targets k).length →
    (s.measures (k, i)).status = .returned
  returned_late : ∀ t, (s.stresses t).status = .returned → s.stop t.1 = true

theorem Moved.stop_cases (hmoved : Moved b s s') {k : Nat} (hk : s'.stop k = true) :
    s.stop k = true ∨ k = s.arm ∧ s.main = .stop := by
  cases hmoved with
  | main s' hmove =>
    cases hmove with
    | stop hmain =>
      by_cases hka : k = s.arm
      · exact Or.inr ⟨hka, hmain⟩
      · left
        rw [← hk]
        exact (Function.update_of_ne hka ..).symm
    | _ => exact Or.inl hk
  | wrote | unwritten | measure | stress | tick | crash => exact Or.inl hk

theorem Moved.stop_mono (hmoved : Moved b s s') {k : Nat} (hk : s.stop k = true) :
    s'.stop k = true := by
  cases hmoved with
  | main s' hmove =>
    cases hmove with
    | stop hmain =>
      show Function.update s.stop s.arm true k = true
      rw [Function.update_apply]
      split
      · rfl
      · exact hk
    | _ => exact hk
  | wrote | unwritten | measure | stress | tick | crash => exact hk

/-- Only a thread that was told to stop returns. -/
theorem Moved.stress_returned (hmoved : Moved b s s') {t : Nat × Nat}
    (hret : (s'.stresses t).status = .returned) :
    (s.stresses t).status = .returned ∨ s.stop t.1 = true := by
  cases hmoved with
  | main s' hmove =>
    cases hmove with
    | startStress i region core hmain hi =>
      by_cases ht : t = (s.arm, i)
      · subst ht
        change ((s.setStress _ _).stresses (s.arm, i)).status = .returned at hret
        rw [setStress_self] at hret
        cases hret
      · left
        rw [← hret]
        exact congrArg Stress.status (setStress_of_ne ht _).symm
    | _ => exact Or.inl hret
  | stress u m hmove =>
    by_cases ht : t = u
    · subst ht
      rw [setStress_self] at hret
      cases hmove with
      | returns hpc hstop => exact Or.inr hstop
      | _ => cases hret
    · rw [setStress_of_ne ht] at hret
      exact Or.inl hret
  | wrote | unwritten | measure | tick | crash => exact Or.inl hret

theorem Stressed.step (hst : Stressed b s) (h : Inv b s) (hmoved : Moved b s s') :
    Stressed b s' where
  stop_late := by
    intro k hk i hi
    have hret : (s.measures (k, i)).status = .returned := by
      rcases hmoved.stop_cases hk with hk | ⟨rfl, hmain⟩
      · exact hst.stop_late k hk i hi
      · have hreturned := h.measures.crew.returned
        rw [hmain] at hreturned
        exact hreturned i hi
    rw [h.returned_kept hmoved hret, hret]
  returned_late := by
    intro t ht
    apply hmoved.stop_mono
    rcases hmoved.stress_returned ht with hret | hstop
    · exact hst.returned_late t hret
    · exact hstop

/-- Threads of arm `k` that are done, with what the measurement threads recorded. -/
structure Done (b : Setup) (s : Benchmark) (k : Nat) : Prop where
  measures : ∀ i, i < (b.targets k).length → (s.measures (k, i)).status = .returned ∧
    (s.measures (k, i)).samples.length = b.config.samples ∧
    InOrder (s.measures (k, i)).samples s.tsc
  stresses : ∀ i, i < (b.stressors k).length → (s.stresses (k, i)).status = .returned

theorem Inv.done_of_lt (h : Inv b s) {k : Nat} (hk : k < s.arm) : Done b s k where
  measures := by
    intro i hi
    have hret := h.measures.crew.past k i hk hi
    exact ⟨hret, (Measurement.at_returned (h.measures.at_pc (k, i)) hret).2⟩
  stresses := fun i hi => h.stresses.crew.past k i hk hi

/-- **Arms are kept apart.**  In every interleaving, a measurement thread passes the signal
when all threads of its arm are there, the stress threads started; these return only after all
measurements of the arm; and before there is a thread of the next
arm all threads of this one have returned, with the samples they were asked for. -/
theorem arms_kept_apart (b : Setup) (as : List Action) (s : Benchmark)
    (hrun : run (step b) start as = some s) :
    (∀ t, (s.measures t).pc.Past →
      (∀ i, i < (b.targets t.1).length → (s.measures (t.1, i)).status ≠ .absent) ∧
      (∀ i, i < (b.stressors t.1).length → (s.stresses (t.1, i)).status ≠ .absent) ∧
      ∀ t', t'.1 < t.1 → (s.measures t').status ≠ .running ∧ (s.stresses t').status ≠ .running) ∧
    (∀ t, (s.stresses t).status = .returned →
      ∀ i, i < (b.targets t.1).length → (s.measures (t.1, i)).status = .returned) ∧
    ∀ t k, (s.measures t).status ≠ .absent ∨ (s.stresses t).status ≠ .absent → k < t.1 →
      Done b s k := by
  have h := inv_run hrun
  have hst : Stressed b s :=
    run_induction ⟨fun k hk => (by cases hk), fun t ht => (by cases ht)⟩
      (fun _ _ h hmoved hst => hst.step h hmoved) hrun
  have hearlier : ∀ t', t'.1 < s.arm →
      (s.measures t').status ≠ .running ∧ (s.stresses t').status ≠ .running := by
    intro t' hlt
    constructor
    · intro hrun'
      obtain ⟨i, rfl, -⟩ := h.measures.crew.running hrun'
      exact Nat.lt_irrefl _ hlt
    · intro hrun'
      obtain ⟨i, rfl, -⟩ := h.stresses.crew.running hrun'
      exact Nat.lt_irrefl _ hlt
  refine ⟨fun t ht => ?_, fun t ht => hst.stop_late t.1 (hst.returned_late t ht), ?_⟩
  · have hle := h.measures.crew.round_le (Measurement.present_of_past ht)
    refine ⟨fun i hi => ?_, fun i hi => ?_, fun t' hlt => hearlier t' (by omega)⟩
    · rw [h.measures.crew.present_iff]
      rcases h.measures.passed t ht with hlt | hsig
      · exact Or.inl ⟨hlt, hi⟩
      · by_cases hlt : t.1 < s.arm
        · exact Or.inl ⟨hlt, hi⟩
        · have heq : t.1 = s.arm := by omega
          rw [(MainPc.Signalled.spawned_eq hsig _).1, ← heq]
          exact Or.inr ⟨rfl, hi⟩
    · rw [h.stresses.crew.present_iff]
      rcases h.measures.passed t ht with hlt | hsig
      · exact Or.inl ⟨hlt, hi⟩
      · by_cases hlt : t.1 < s.arm
        · exact Or.inl ⟨hlt, hi⟩
        · have heq : t.1 = s.arm := by omega
          rw [(MainPc.Signalled.spawned_eq hsig _).2, ← heq]
          exact Or.inr ⟨rfl, hi⟩
  · intro t k ht hk
    have hle : t.1 ≤ s.arm := ht.elim h.measures.crew.round_le h.stresses.crew.round_le
    exact h.done_of_lt (by omega)

/-- Two channels and one stress thread. -/
def hedgedStressed : Setup where
  host := grantingHost
  config :=
    { arms := [.hedgedStress], samples := 1, stressThreads := 1, coreA := 2, coreB := 3,
      coreMain := 4, channelBit := 8, channelOffset := 256, channels := 2, rawPrefix := none,
      skipPhysCheck := true }
  memory := ⟨[1 <<< 40, (1 <<< 40) + 256], 1 <<< 40, some (1 <<< 41)⟩

/-- One measurement thread is past the signal, and the stress thread has chosen a line. -/
def signalled : List Action :=
  List.replicate 8 .main ++ [.measure (0, 0), .measure (0, 0), .stress (0, 0), .stress (0, 0),
    .stress (0, 0)]

/-- The same after an arm with one copy and no stress. -/
def twoArms : Setup :=
  { hedgedStressed with
    config := { hedgedStressed.config with arms := [.singleQuiet, .hedgedStress] } }

theorem twoArms_reached : twoArms.Reached 1 := by
  refine ⟨by decide, fun k hk core hcore => ?_⟩
  obtain rfl : k = 0 := by omega
  obtain rfl : core = 2 := List.mem_singleton.mp hcore
  rfl

/-- The second arm's threads are there, and those of the first have returned. -/
theorem arms_kept_apart_second : ∃ as s, run (step twoArms) start as = some s ∧
    (s.measures (1, 1)).status ≠ .absent ∧ (s.stresses (1, 0)).status ≠ .absent ∧
    Done twoArms s 0 := by
  have hjoining : Leads (step twoArms) start (Fresh twoArms 1 (.join 0)) := by
    refine (leads_reached (by decide) twoArms_reached).trans ?_
    rintro u ⟨hu, harm, hmain⟩
    exact harm ▸ (Fresh.of_armTop hu hmain).leads_joining (harm ▸ by decide)
  obtain ⟨as, s, hrun, hs⟩ := hjoining
  have hmeasure : (s.measures (1, 1)).status ≠ .absent := by
    rw [hs.inv.measures.crew.present_iff, hs.main_eq, hs.arm_eq]
    exact Or.inr ⟨rfl, by decide⟩
  have hstress : (s.stresses (1, 0)).status ≠ .absent := by
    rw [hs.inv.stresses.crew.present_iff, hs.main_eq, hs.arm_eq]
    exact Or.inr ⟨rfl, by decide⟩
  have hdone := (arms_kept_apart twoArms as s hrun).2.2 (1, 1) 0 (Or.inl hmeasure) (by decide)
  exact ⟨as, s, hrun, hmeasure, hstress, hdone⟩

/-! ## What is printed -/

/-- All that arm `k` prints, given what its measurement threads have recorded. -/
def reportOf (b : Setup) (s : Benchmark) (k : Nat) : List Line :=
  match b.config.arms[k]? with
  | none => []
  | some arm =>
    match processAndWrite b.config.samples arm.label (s.samplesOf k (b.targets k).length) with
    | none => []
    | some chunks => chunks.flatMap (·.lines)

theorem reportOf_congr {k : Nat} (hsame : ∀ i, i < (b.targets k).length →
    (s'.measures (k, i)).samples = (s.measures (k, i)).samples) :
    s'.reportOf b k = s.reportOf b k := by
  unfold reportOf
  rw [samplesOf_congr hsame]

/-- What of the current arm's report was printed. -/
def Partly (b : Setup) (s : Benchmark) (lines : List Line) : Prop :=
  match s.main with
  | .write chunks => s.reportOf b s.arm = lines ++ chunks.flatMap (·.lines)
  | .reset => lines = s.reportOf b s.arm
  | .unmapReplicas _ | .unmapStress _ | .leave _ | .exited _ | .crashed => lines = [] ∨
      (∀ i, i < (b.targets s.arm).length → (s.measures (s.arm, i)).status = .returned) ∧
        lines <+: s.reportOf b s.arm
  | _ => lines = []

/-- The reports of the arms that are over, and part of the current one. -/
def Printed (b : Setup) (s : Benchmark) : Prop :=
  ∃ lines, s.printed = (List.range s.arm).flatMap (s.reportOf b) ++ lines ∧ s.Partly b lines

theorem Inv.reports_kept (h : Inv b s) (hmoved : Moved b s s') :
    (List.range s.arm).flatMap (s'.reportOf b) = (List.range s.arm).flatMap (s.reportOf b) := by
  apply List.flatMap_congr
  intro k hk
  refine reportOf_congr fun i hi => ?_
  rw [h.returned_kept hmoved (h.measures.crew.past k i (List.mem_range.mp hk) hi)]

theorem Inv.report_kept (h : Inv b s) (hmoved : Moved b s s')
    (hret : ∀ i, i < (b.targets s.arm).length → (s.measures (s.arm, i)).status = .returned) :
    s'.reportOf b s.arm = s.reportOf b s.arm := by
  refine reportOf_congr fun i hi => ?_
  rw [h.returned_kept hmoved (hret i hi)]

/-- While a report is printed, and after that, all measurements are over. -/
theorem Inv.returned_of_joined (h : Inv b s)
    (hmain : s.main.joined (b.targets s.arm).length = (b.targets s.arm).length) :
    ∀ i, i < (b.targets s.arm).length → (s.measures (s.arm, i)).status = .returned := by
  have hreturned := h.measures.crew.returned
  rw [hmain] at hreturned
  exact hreturned

theorem Inv.partly_prefix (h : Inv b s) {lines : List Line} (hpart : s.Partly b lines) :
    lines = [] ∨ (∀ i, i < (b.targets s.arm).length →
      (s.measures (s.arm, i)).status = .returned) ∧ lines <+: s.reportOf b s.arm := by
  cases hmain : s.main with
  | write chunks =>
    simp only [Partly, hmain] at hpart
    refine Or.inr ⟨h.returned_of_joined (by rw [hmain]; rfl), ?_⟩
    exact hpart ▸ List.prefix_append _ _
  | reset =>
    simp only [Partly, hmain] at hpart
    exact Or.inr ⟨h.returned_of_joined (by rw [hmain]; rfl), hpart ▸ List.prefix_rfl⟩
  | unmapReplicas | unmapStress | leave | exited | crashed =>
    simp only [Partly, hmain] at hpart
    exact hpart
  | _ =>
    simp only [Partly, hmain] at hpart
    exact Or.inl hpart

/-- A measurement thread that moves on changes no report. -/
theorem Inv.partly_measure (h : Inv b s) {t : Nat × Nat} {m : Measurement}
    (hmove : (s.measures t).Move b s.signal s.tsc m) {lines : List Line}
    (hpart : s.Partly b lines) : (s.setMeasure t m).Partly b lines := by
  have hmoved : Moved b s (s.setMeasure t m) := .measure t m hmove
  cases hmain : s.main with
  | write chunks =>
    have hkept := h.report_kept hmoved (h.returned_of_joined (by rw [hmain]; rfl))
    simp only [Partly, hmain] at hpart
    simp only [Partly, setMeasure, hmain]
    exact hkept.trans hpart
  | reset =>
    have hkept := h.report_kept hmoved (h.returned_of_joined (by rw [hmain]; rfl))
    simp only [Partly, hmain] at hpart
    simp only [Partly, setMeasure, hmain]
    exact hpart.trans hkept.symm
  | unmapReplicas | unmapStress | leave | exited | crashed =>
    simp only [Partly, hmain] at hpart
    simp only [Partly, setMeasure, hmain]
    rcases hpart with hnil | ⟨hret, hprefix⟩
    · exact Or.inl hnil
    · refine Or.inr ⟨fun i hi => ?_, ?_⟩
      · have hkept := h.returned_kept hmoved (hret i hi)
        exact (congrArg Measurement.status hkept).trans (hret i hi)
      · exact (h.report_kept hmoved hret).symm ▸ hprefix
  | _ =>
    simp only [Partly, hmain] at hpart
    simp only [Partly, setMeasure, hmain]
    exact hpart

theorem Inv.printed_main (h : Inv b s) (hmove : MainMove b s s') (hprinted : Printed b s) :
    Printed b s' := by
  obtain ⟨lines, hlines, hpart⟩ := hprinted
  have hkept := h.reports_kept (.main s' hmove)
  cases hmove with
  | begin main hmain harm hnext =>
    refine ⟨lines, hlines, ?_⟩
    simp only [Partly, hmain] at hpart
    rcases hnext with ⟨rfl, -⟩ | rfl
    · exact hpart
    · exact hpart
  | spawn i addr core hmain hi =>
    refine ⟨lines, ?_, ?_⟩
    · rw [← hkept] at hlines
      exact hlines
    · simp only [Partly, hmain] at hpart
      exact hpart
  | finish hmain | joinFails i e hmain | joinStressFails i e hmain =>
    refine ⟨lines, hlines, ?_⟩
    simp only [Partly, hmain] at hpart
    exact Or.inl hpart
  | report arm chunks hmain harm hchunks =>
    refine ⟨lines, hlines, ?_⟩
    simp only [Partly, hmain] at hpart
    show s.reportOf b s.arm = lines ++ chunks.flatMap (·.lines)
    simp only [hpart, reportOf, harm, hchunks, List.nil_append]
  | written hmain =>
    refine ⟨lines, hlines, ?_⟩
    simp only [Partly, hmain, List.flatMap_nil, List.append_nil] at hpart
    exact hpart.symm
  | reset hmain =>
    refine ⟨[], ?_, rfl⟩
    simp only [Partly, hmain] at hpart
    rw [List.append_nil, List.range_succ, List.flatMap_append]
    show s.printed = (List.range s.arm).flatMap (s.reportOf b) ++ [s.arm].flatMap (s.reportOf b)
    rw [hlines, hpart]
    simp
  | unmapReplicas result hmain | unmapStress result hmain | leave result hmain =>
    refine ⟨lines, hlines, ?_⟩
    simp only [Partly, hmain] at hpart
    exact hpart
  | startStress i region core hmain | started hmain | go hmain | spawned hmain | signal hmain
  | join i hmain | joined hmain | stop hmain | joinStress i hmain =>
    refine ⟨lines, hlines, ?_⟩
    simp only [Partly, hmain] at hpart
    exact hpart

theorem Inv.printed_step (h : Inv b s) (hmoved : Moved b s s') (hprinted : Printed b s) :
    Printed b s' := by
  have hkept := h.reports_kept hmoved
  cases hmoved with
  | main s' hmove => exact h.printed_main hmove hprinted
  | wrote chunk rest hmain =>
    obtain ⟨lines, hlines, hpart⟩ := hprinted
    refine ⟨lines ++ chunk.lines, ?_, ?_⟩
    · show s.printed ++ chunk.lines = _
      rw [hlines, List.append_assoc]
      rfl
    · simp only [Partly, hmain, List.flatMap_cons] at hpart
      show s.reportOf b s.arm = _
      rw [hpart, List.append_assoc]
  | unwritten chunk rest e hmain hraw =>
    obtain ⟨lines, hlines, hpart⟩ := hprinted
    refine ⟨lines ++ chunk.lines, ?_, ?_⟩
    · show s.printed ++ chunk.lines = _
      rw [hlines, List.append_assoc]
      rfl
    · simp only [Partly, hmain, List.flatMap_cons] at hpart
      refine Or.inr ⟨h.returned_of_joined (by rw [hmain]; rfl), ?_⟩
      show lines ++ chunk.lines <+: s.reportOf b s.arm
      rw [hpart, ← List.append_assoc]
      exact List.prefix_append _ _
  | measure t m hmove =>
    obtain ⟨lines, hlines, hpart⟩ := hprinted
    refine ⟨lines, ?_, h.partly_measure hmove hpart⟩
    rw [← hkept] at hlines
    exact hlines
  | stress | tick => exact hprinted
  | crash hover =>
    obtain ⟨lines, hlines, hpart⟩ := hprinted
    exact ⟨lines, hlines, h.partly_prefix hpart⟩

/-- **Reports are printed whole and in order.**  In every interleaving, the reports of the
arms that are over were printed one after the other, each what `process_and_write`
makes of the samples that its threads recorded, and of the current one a
prefix.  The main thread does not panic, and if `run` returns `Ok` everything was printed. -/
theorem reports_printed (b : Setup) (as : List Action) (s : Benchmark)
    (hrun : run (step b) start as = some s) :
    (∃ lines, s.printed = (List.range s.arm).flatMap (s.reportOf b) ++ lines ∧
      lines <+: s.reportOf b s.arm) ∧
    (∀ k, k < s.arm → ∃ arm chunks, b.config.arms[k]? = some arm ∧
      processAndWrite b.config.samples arm.label (s.samplesOf k (b.targets k).length) =
        some chunks ∧ s.reportOf b k = chunks.flatMap (·.lines) ∧
      ∀ samples ∈ s.samplesOf k (b.targets k).length, Recorded b.config.samples samples) ∧
    s.main.result? ≠ some .panicked ∧
    (s.main.result? = some .ok →
      s.printed = (List.range b.config.arms.length).flatMap (s.reportOf b)) := by
  have h := inv_run hrun
  have hprinted : Printed b s :=
    run_induction ⟨[], rfl, rfl⟩ (fun _ _ h hmoved hp => h.printed_step hmoved hp) hrun
  obtain ⟨lines, hlines, hpart⟩ := hprinted
  have hprefix := h.partly_prefix hpart
  refine ⟨⟨lines, hlines, ?_⟩, fun k hk => ?_, fun hpanic => ?_, fun hok => ?_⟩
  · rcases hprefix with rfl | ⟨-, hprefix⟩
    · exact List.nil_prefix
    · exact hprefix
  · have hret : ∀ i, i < (b.targets k).length → (s.measures (k, i)).status = .returned :=
      fun i hi => h.measures.crew.past k i hk hi
    have hlt := Nat.lt_of_lt_of_le hk h.arm_le
    have harm := List.getElem?_eq_getElem hlt
    obtain ⟨chunks, hchunks⟩ := h.process_returns (b.config.arms[k]).label hret
    refine ⟨_, chunks, harm, hchunks, ?_, h.recorded hret⟩
    simp only [reportOf, harm, hchunks]
  · cases h.closed _ hpanic
  · obtain ⟨hall⟩ := h.closed _ hok
    have hnone : s.reportOf b s.arm = [] := by
      simp only [reportOf, hall, List.getElem?_eq_none (Nat.le_refl _)]
    rw [hnone, List.prefix_nil] at hprefix
    have hnil : lines = [] := hprefix.elim id (·.2)
    rw [hlines, hnil, List.append_nil, hall]

/-- A run to the end of the arm. -/
theorem reports_printed_hedged : ∃ as s, run (step hedgedStressed) start as = some s ∧
    s.arm = 1 ∧
    (∃ lines, s.printed = (List.range s.arm).flatMap (s.reportOf hedgedStressed) ++ lines ∧
      lines <+: s.reportOf hedgedStressed s.arm) ∧
    (∀ k, k < s.arm → ∃ arm chunks, hedgedStressed.config.arms[k]? = some arm ∧
      processAndWrite hedgedStressed.config.samples arm.label
        (s.samplesOf k (hedgedStressed.targets k).length) = some chunks ∧
      s.reportOf hedgedStressed k = chunks.flatMap (·.lines) ∧
      ∀ samples ∈ s.samplesOf k (hedgedStressed.targets k).length,
        Recorded hedgedStressed.config.samples samples) ∧
    s.main.result? ≠ some .panicked ∧
    (s.main.result? = some .ok →
      s.printed = (List.range hedgedStressed.config.arms.length).flatMap
        (s.reportOf hedgedStressed)) := by
  have hpins : ∀ core ∈ hedgedStressed.cores 0, Pins hedgedStressed.host core := by
    intro core hcore
    change core ∈ [2, 3, 8] at hcore
    simp only [List.mem_cons, List.not_mem_nil, or_false] at hcore
    rcases hcore with rfl | rfl | rfl <;> rfl
  obtain ⟨as, s, hrun, -, harm, -⟩ :=
    (inv_start hedgedStressed).leads_arm (by decide) rfl (Nat.succ_pos 0) hpins
  exact ⟨as, s, hrun, harm, reports_printed hedgedStressed as s hrun⟩

end Benchmark

end Tailslayer
