import Tailslayer.BenchmarkSteps

/-!
# Steps of the benchmark, one case each

`MainMove` lists what the main thread can do next and `Moved` what anybody can.  What the
cases keep, given the invariant, holds after every schedule (`run_induction`).
-/

namespace Tailslayer

open Crews StepRun Xorshift

namespace Benchmark

variable {b : Setup} {s s' : Benchmark}

/-- What the main thread does next: one case for each way through its code. -/
inductive MainMove (b : Setup) (s : Benchmark) : Benchmark → Prop where
  | finish (hmain : s.main = .armTop) (harm : b.config.arms.length ≤ s.arm) :
      MainMove b s (s.close .ok)
  | begin (main : MainPc) (hmain : s.main = .armTop) (harm : s.arm < b.config.arms.length)
      (hnext : main = .spawn 0 ∧ b.stressors s.arm = [] ∨ main = .startStress 0) :
      MainMove b s { s with main := main, results := [] }
  | startStress (i region core : Nat) (hmain : s.main = .startStress i)
      (hi : (b.stressors s.arm)[i]? = some (region, core)) :
      MainMove b s { s.setStress (s.arm, i) ⟨region, core, .pinning, stressSeed region⟩ with
        main := .startStress (i + 1) }
  | started (hmain : s.main = .startStress (b.stressors s.arm).length) :
      MainMove b s { s with main := .go }
  | go (hmain : s.main = .go) :
      MainMove b s { s with go := Function.update s.go s.arm true, main := .spawn 0 }
  | spawn (i addr core : Nat) (hmain : s.main = .spawn i)
      (hi : (b.targets s.arm)[i]? = some (addr, core)) :
      MainMove b s { s.setMeasure (s.arm, i) ⟨addr, core, .pinning, []⟩ with
        main := .spawn (i + 1) }
  | spawned (hmain : s.main = .spawn (b.targets s.arm).length) :
      MainMove b s { s with main := .signal }
  | signal (hmain : s.main = .signal) :
      MainMove b s { s with signal := true, main := .join 0 }
  | join (i : Nat) (hmain : s.main = .join i) (hi : i < (b.targets s.arm).length)
      (hret : (s.measures (s.arm, i)).status = .returned) :
      MainMove b s { s with
        results := s.results ++ [(s.measures (s.arm, i)).samples], main := .join (i + 1) }
  | joinFails (i : Nat) (e : RunError) (hmain : s.main = .join i)
      (hi : i < (b.targets s.arm).length) (hfail : (s.measures (s.arm, i)).status = .failed e) :
      MainMove b s (s.close (.error e))
  | joined (hmain : s.main = .join (b.targets s.arm).length) :
      MainMove b s { s with main := .stop }
  | stop (hmain : s.main = .stop) :
      MainMove b s { s with stop := Function.update s.stop s.arm true, main := .joinStress 0 }
  | joinStress (i : Nat) (hmain : s.main = .joinStress i) (hi : i < (b.stressors s.arm).length)
      (hret : (s.stresses (s.arm, i)).status = .returned) :
      MainMove b s { s with main := .joinStress (i + 1) }
  | joinStressFails (i : Nat) (e : RunError) (hmain : s.main = .joinStress i)
      (hi : i < (b.stressors s.arm).length)
      (hfail : (s.stresses (s.arm, i)).status = .failed e) :
      MainMove b s (s.close (.error e))
  | report (arm : Arm) (chunks : List Chunk)
      (hmain : s.main = .joinStress (b.stressors s.arm).length)
      (harm : b.config.arms[s.arm]? = some arm)
      (hchunks : processAndWrite b.config.samples arm.label
        (s.samplesOf s.arm (b.targets s.arm).length) = some chunks) :
      MainMove b s { s with main := .write chunks }
  | written (hmain : s.main = .write []) : MainMove b s { s with main := .reset }
  | reset (hmain : s.main = .reset) :
      MainMove b s { s with signal := false, arm := s.arm + 1, main := .armTop }
  | unmapReplicas (result : RunResult) (hmain : s.main = .unmapReplicas result) :
      MainMove b s { s with replicasMapped := false, main := .unmapStress result }
  | unmapStress (result : RunResult) (hmain : s.main = .unmapStress result) :
      MainMove b s { s with stressMapped := false, main := .leave result }
  | leave (result : RunResult) (hmain : s.main = .leave result) :
      MainMove b s { s with main := .exited result }

section
variable (h : Inv b s)
include h

theorem Inv.mainStep_cases (hs : s.mainStep b = some s') : MainMove b s s' := by
  unfold Benchmark.mainStep at hs
  split at hs
  · next hmain =>
    cases hs
    unfold Benchmark.armTop
    split
    · next hnone => exact .finish hmain (List.getElem?_eq_none_iff.mp hnone)
    · next arm harm =>
      have hlt := (List.getElem?_eq_some_iff.mp harm).1
      split
      · next hregion =>
        refine .begin _ hmain hlt (Or.inl ⟨rfl, ?_⟩)
        simp only [Setup.stressors, harm, Setup.stressorsOf, hregion]
      · exact .begin _ hmain hlt (Or.inr rfl)
  · next i hmain =>
    cases hs
    unfold Benchmark.startStress
    split
    · next hnone =>
      have hle := h.stressed_le
      rw [hmain] at hle
      have hall : i = (b.stressors s.arm).length :=
        Nat.le_antisymm hle (List.getElem?_eq_none_iff.mp hnone)
      exact .started (hall ▸ hmain)
    · next hi => exact .startStress i _ _ hmain hi
  · next hmain =>
    cases hs
    exact .go hmain
  · next i hmain =>
    cases hs
    unfold Benchmark.spawn
    split
    · next hnone =>
      have hle := h.spawned_le
      rw [hmain] at hle
      have hall : i = (b.targets s.arm).length :=
        Nat.le_antisymm hle (List.getElem?_eq_none_iff.mp hnone)
      exact .spawned (hall ▸ hmain)
    · next hi => exact .spawn i _ _ hmain hi
  · next hmain =>
    cases hs
    exact .signal hmain
  · next i hmain =>
    unfold Benchmark.join at hs
    split at hs
    · next hi =>
      dsimp only at hs
      split at hs
      · cases hs
      · cases hs
      · next hret =>
        cases hs
        exact .join i hmain hi hret
      · next e hfail =>
        cases hs
        exact .joinFails i e hmain hi hfail
    · next hi =>
      cases hs
      have hle := h.joined_le
      rw [hmain] at hle
      have hall : i = (b.targets s.arm).length := Nat.le_antisymm hle (Nat.le_of_not_lt hi)
      exact .joined (hall ▸ hmain)
  · next hmain =>
    cases hs
    exact .stop hmain
  · next i hmain =>
    unfold Benchmark.joinStress at hs
    split at hs
    · next hi =>
      split at hs
      · cases hs
      · cases hs
      · next hret =>
        cases hs
        exact .joinStress i hmain hi hret
      · next e hfail =>
        cases hs
        exact .joinStressFails i e hmain hi hfail
    · next hi =>
      cases hs
      have hin : s.main.Inside := by rw [hmain]; trivial
      have hle := h.joinedStress_le
      have hresults := h.measures.results hin
      have hreturned := h.measures.crew.returned
      rw [hmain] at hle hresults hreturned
      have hall : i = (b.stressors s.arm).length := Nat.le_antisymm hle (Nat.le_of_not_lt hi)
      obtain ⟨arm, chunks, harm, hchunks, hreport⟩ :=
        h.report_chunks hreturned (h.inside hin) hresults
      rw [hreport]
      exact .report arm chunks (hall ▸ hmain) harm hchunks
  · next hmain =>
    cases hs
    exact .written hmain
  · cases hs
  · next hmain =>
    cases hs
    exact .reset hmain
  · next result hmain =>
    cases hs
    exact .unmapReplicas result hmain
  · next result hmain =>
    cases hs
    exact .unmapStress result hmain
  · next result hmain =>
    cases hs
    exact .leave result hmain
  · cases hs
  · cases hs

end

/-- A chunk was printed; writing its file may have failed. -/
theorem writeStep_cases {outcome : Except IoError Unit}
    (hs : s.writeStep b outcome = some s') : ∃ chunk rest, s.main = .write (chunk :: rest) ∧
      (s' = { s with printed := s.printed ++ chunk.lines, main := .write rest } ∨
        ∃ e, b.config.rawPrefix.isSome = true ∧
          s' = { s with printed := s.printed ++ chunk.lines }.close (.error (.io e))) := by
  unfold writeStep at hs
  split at hs
  · next chunk rest hmain =>
    refine ⟨chunk, rest, hmain, ?_⟩
    dsimp only at hs
    split at hs
    · cases hs
      exact Or.inl rfl
    · next e =>
      split at hs
      · next hraw =>
        cases hs
        exact Or.inr ⟨e, hraw, rfl⟩
      · cases hs
  · cases hs

/-- What a step of anybody does. -/
inductive Moved (b : Setup) (s : Benchmark) : Benchmark → Prop where
  | main (s' : Benchmark) (hmove : MainMove b s s') : Moved b s s'
  | wrote (chunk : Chunk) (rest : List Chunk) (hmain : s.main = .write (chunk :: rest)) :
      Moved b s { s with printed := s.printed ++ chunk.lines, main := .write rest }
  | unwritten (chunk : Chunk) (rest : List Chunk) (e : IoError)
      (hmain : s.main = .write (chunk :: rest)) (hraw : b.config.rawPrefix.isSome = true) :
      Moved b s ({ s with printed := s.printed ++ chunk.lines }.close (.error (.io e)))
  | measure (t : Nat × Nat) (m : Measurement)
      (hmove : (s.measures t).Move b s.signal s.tsc m) : Moved b s (s.setMeasure t m)
  | stress (t : Nat × Nat) (m : Stress)
      (hmove : (s.stresses t).Move b (s.go t.1) (s.stop t.1) m) : Moved b s (s.setStress t m)
  | tick (now : Fin (2 ^ 64)) (hlt : s.tsc ≤ now) : Moved b s { s with tsc := now }
  | crash (hover : ¬ s.Over) : Moved b s s.crash

theorem Inv.step_cases (h : Inv b s) {a : Action} (hs : s.step b a = some s') : Moved b s s' := by
  unfold Benchmark.step at hs
  split at hs
  · cases hs
  · next hover =>
    cases a with
    | main => exact .main s' (h.mainStep_cases hs)
    | write outcome =>
      obtain ⟨chunk, rest, hmain, rfl | ⟨e, hraw, rfl⟩⟩ := writeStep_cases hs
      · exact .wrote chunk rest hmain
      · exact .unwritten chunk rest e hmain hraw
    | measure t =>
      obtain ⟨m, hmove, rfl⟩ | ⟨-, -, -, rfl⟩ := measureStep_cases hs
      · exact .measure t m hmove
      · exact .crash hover
    | stress t =>
      obtain ⟨m, hmove, rfl⟩ | ⟨-, -, -, rfl⟩ := stressStep_cases hs
      · exact .stress t m hmove
      · exact .crash hover
    | tick =>
      change s.tick = some s' at hs
      unfold Benchmark.tick at hs
      split at hs
      · cases hs
        exact .tick _ (Nat.le_succ s.tsc.val)
      · cases hs

/-- The state after any schedule. -/
theorem inv_run {as : List Action} (hrun : run (step b) start as = some s) : Inv b s :=
  run_preserves (fun _ _ _ h hs => h.step hs) (inv_start b) hrun

/-- What the steps keep, given the invariant, holds after any schedule. -/
theorem run_induction {P : Benchmark → Prop} (hstart : P start)
    (hstep : ∀ s s', Inv b s → Moved b s s' → P s → P s') {as : List Action}
    (hrun : run (step b) start as = some s) : P s := by
  have hboth : Inv b s ∧ P s :=
    run_preserves (P := fun s => Inv b s ∧ P s)
      (fun s _ s' h hs => ⟨h.1.step hs, hstep s s' h.1 (h.1.step_cases hs) h.2⟩)
      ⟨inv_start b, hstart⟩ hrun
  exact hboth.2

/-- A thread that has returned is left alone. -/
theorem Inv.returned_kept (h : Inv b s) (hmoved : Moved b s s') {t : Nat × Nat}
    (hret : (s.measures t).status = .returned) : s'.measures t = s.measures t := by
  cases hmoved with
  | main s' hmove =>
    cases hmove with
    | spawn i addr core hmain hi =>
      apply setMeasure_of_ne
      rintro rfl
      -- there is no such thread yet
      have hlt := (h.measures.crew.present_iff s.arm i).mp (by simp [hret])
      rw [hmain] at hlt
      rcases hlt with ⟨hlt, -⟩ | ⟨-, hlt⟩
      · exact Nat.lt_irrefl _ hlt
      · exact Nat.lt_irrefl _ hlt
    | _ => rfl
  | measure u m hmove =>
    apply setMeasure_of_ne
    rintro rfl
    rw [hmove.running] at hret
    cases hret
  | wrote | unwritten | stress | tick | crash => rfl

end Benchmark

end Tailslayer
