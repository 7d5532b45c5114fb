import Mathlib.Data.Prod.Lex
import Tailslayer.BenchmarkResult
import Tailslayer.Pool.Fair

/-!
# The benchmark ends

On every fair path of its process: the main thread and each other thread get their turn, and a
write to a file comes to an end.  The rank counts the arms, the main thread's stages in an
arm, and what is left of the stage or of the thread that is waited for.
-/

namespace Tailslayer

open Crews Fair StepRun

namespace Benchmark

variable {b : Setup} {s s' : Benchmark}

inductive Agent where
  | main
  | measure (t : Nat × Nat)
  | stress (t : Nat × Nat)

def Agent.actions : Agent → Set Action
  | .main => {a | a = .main ∨ ∃ outcome, a = .write outcome}
  | .measure t => {.measure t}
  | .stress t => {.stress t}

theorem Agent.measure_mem_iff {k : Agent} {t : Nat × Nat} :
    .measure t ∈ k.actions ↔ k = .measure t := by
  cases k <;> simp [actions, eq_comm]

theorem Agent.stress_mem_iff {k : Agent} {t : Nat × Nat} :
    .stress t ∈ k.actions ↔ k = .stress t := by
  cases k <;> simp [actions, eq_comm]

theorem Agent.tick_notMem (k : Agent) : Action.tick ∉ k.actions := by
  cases k <;> simp [actions]

/-! ## Ranks -/

/-- More than any measurement thread has left. -/
def stint (b : Setup) : Nat := 3 * b.config.samples + warmupIters + 5

theorem stepsLeft_lt_stint (m : Measurement) : m.stepsLeft b.config.samples < stint b := by
  unfold Measurement.stepsLeft stint
  split <;> omega

theorem stress_stepsLeft_lt (m : Stress) : m.stepsLeft < 5 := by
  unfold Stress.stepsLeft
  split <;> omega

def place (arms stage count : Nat) : Nat ×ₗ Nat ×ₗ Nat := toLex (arms, toLex (stage, count))

section
variable {arms stage count arms' stage' count' : Nat}

theorem place_lt_of_arms (h : arms < arms') : place arms stage count < place arms' stage' count' :=
  Prod.Lex.toLex_lt_toLex.mpr (Or.inl h)

theorem place_lt_of_stage (h : stage < stage') :
    place arms stage count < place arms stage' count' :=
  Prod.Lex.toLex_lt_toLex.mpr (Or.inr ⟨rfl, Prod.Lex.toLex_lt_toLex.mpr (Or.inl h)⟩)

theorem place_lt_of_count (h : count < count') : place arms stage count < place arms stage count' :=
  Prod.Lex.toLex_lt_toLex.mpr
    (Or.inr ⟨rfl, Prod.Lex.toLex_lt_toLex.mpr (Or.inr ⟨rfl, h⟩)⟩)

end

/-- Arms that are not over, the current one included. -/
def armsLeft (b : Setup) (s : Benchmark) : Nat := b.config.arms.length - s.arm + 1

def rank (b : Setup) (s : Benchmark) : Nat ×ₗ Nat ×ₗ Nat :=
  match s.main with
  | .armTop => place (s.armsLeft b) 11 0
  | .startStress i => place (s.armsLeft b) 10 ((b.stressors s.arm).length - i)
  | .go => place (s.armsLeft b) 9 0
  | .spawn i => place (s.armsLeft b) 8 ((b.targets s.arm).length - i)
  | .signal => place (s.armsLeft b) 7 0
  | .join i => place (s.armsLeft b) 6 (((b.targets s.arm).length - i) * stint b +
      (s.measures (s.arm, i)).stepsLeft b.config.samples)
  | .stop => place (s.armsLeft b) 5 0
  | .joinStress i => place (s.armsLeft b) 4 (((b.stressors s.arm).length - i) * 5 +
      (s.stresses (s.arm, i)).stepsLeft)
  | .write chunks => place (s.armsLeft b) 3 chunks.length
  | .reset => place (s.armsLeft b) 2 0
  | .unmapReplicas _ => place 0 3 0
  | .unmapStress _ => place 0 2 0
  | .leave _ => place 0 1 0
  | .exited _ | .crashed => place 0 0 0

/-- Whose turn the main thread waits for. -/
def needed (s : Benchmark) : Agent :=
  match s.main with
  | .join i =>
    match (s.measures (s.arm, i)).status with
    | .running => .measure (s.arm, i)
    | _ => .main
  | .joinStress i =>
    match (s.stresses (s.arm, i)).status with
    | .running => .stress (s.arm, i)
    | _ => .main
  | _ => .main

/-- A step of the main thread leaves its place behind. -/
theorem MainMove.rank_lt (h : Inv b s) (hmove : MainMove b s s') (hover : ¬ s'.Over) :
    s'.rank b < s.rank b := by
  cases hmove with
  | finish hmain =>
    simp only [rank, hmain]
    exact place_lt_of_arms (Nat.succ_pos _)
  | begin main hmain harm hnext =>
    rcases hnext with ⟨rfl, -⟩ | rfl
    · simp only [rank, hmain]
      exact place_lt_of_stage (by decide)
    · simp only [rank, hmain]
      exact place_lt_of_stage (by decide)
  | startStress i region core hmain hi =>
    have hlt := (List.getElem?_eq_some_iff.mp hi).1
    simp only [rank, hmain]
    refine place_lt_of_count ?_
    show (b.stressors s.arm).length - (i + 1) < (b.stressors s.arm).length - i
    omega
  | spawn i addr core hmain hi =>
    have hlt := (List.getElem?_eq_some_iff.mp hi).1
    simp only [rank, hmain]
    refine place_lt_of_count ?_
    show (b.targets s.arm).length - (i + 1) < (b.targets s.arm).length - i
    omega
  | started hmain | go hmain | spawned hmain | signal hmain | joined hmain | stop hmain
  | report arm chunks hmain | written hmain =>
    simp only [rank, hmain]
    exact place_lt_of_stage (by decide)
  | join i hmain hi hret =>
    simp only [rank, hmain]
    refine place_lt_of_count ?_
    have hlt := stepsLeft_lt_stint (b := b) (s.measures (s.arm, i + 1))
    have hmul : ((b.targets s.arm).length - i) * stint b =
        ((b.targets s.arm).length - (i + 1)) * stint b + stint b := by
      rw [← Nat.succ_mul]
      congr 1
      omega
    omega
  | joinStress i hmain hi hret =>
    simp only [rank, hmain]
    refine place_lt_of_count ?_
    have hlt := stress_stepsLeft_lt (s.stresses (s.arm, i + 1))
    omega
  | joinFails i e hmain | joinStressFails i e hmain =>
    simp only [rank, hmain]
    exact place_lt_of_arms (Nat.succ_pos _)
  | reset hmain =>
    have hlt := h.inside (by rw [hmain]; trivial)
    simp only [rank, hmain]
    refine place_lt_of_arms ?_
    show b.config.arms.length - (s.arm + 1) + 1 < b.config.arms.length - s.arm + 1
    omega
  | unmapReplicas result hmain | unmapStress result hmain =>
    simp only [rank, hmain]
    exact place_lt_of_stage (by decide)
  | leave result hmain => exact absurd trivial hover

/-! ## Turns -/

theorem lives_of_measure {t : Nat × Nat} (hover : ¬ s.Over)
    (hlives : s.aborts b (.measure t) = false) (hpc : (s.measures t).pc = .pinning) :
    pinToCore b.host (s.measures t).core ≠ none := by
  intro hnone
  simp [aborts, hover, hpc, hnone] at hlives

theorem lives_of_stress {t : Nat × Nat} (hover : ¬ s.Over)
    (hlives : s.aborts b (.stress t) = false) (hpc : (s.stresses t).pc = .pinning) :
    pinToCore b.host (s.stresses t).core ≠ none := by
  intro hnone
  simp [aborts, hover, hpc, hnone] at hlives

section
variable (h : Inv b s)
include h

/-- Nobody that is to be joined has yet to be spawned. -/
theorem Inv.join_status {i : Nat} (hmain : s.main = .join i) (hi : i < (b.targets s.arm).length) :
    (s.measures (s.arm, i)).status ≠ .absent := by
  rw [h.measures.crew.present_iff, hmain]
  exact Or.inr ⟨rfl, hi⟩

theorem Inv.joinStress_status {i : Nat} (hmain : s.main = .joinStress i)
    (hi : i < (b.stressors s.arm).length) : (s.stresses (s.arm, i)).status ≠ .absent := by
  rw [h.stresses.crew.present_iff, hmain]
  exact Or.inr ⟨rfl, hi⟩

/-- The main thread can go on if it waits for nobody that is running. -/
theorem Inv.main_turn (hover : ¬ s.Over) (hneed : s.needed = .main)
    (hwrite : ∀ chunk rest, s.main ≠ .write (chunk :: rest)) : ∃ s', s.mainStep b = some s' := by
  obtain ⟨hexit, hcrash⟩ := not_over_iff.mp hover
  cases hmain : s.main with
  | join i =>
    by_cases hi : i < (b.targets s.arm).length
    · cases hstatus : (s.measures (s.arm, i)).status with
      | absent => exact absurd hstatus (h.join_status hmain hi)
      | running =>
        simp only [needed, hmain, hstatus] at hneed
        cases hneed
      | returned => exact ⟨_, join_turn hmain hi hstatus⟩
      | failed e => exact ⟨_, join_fails hmain hi hstatus⟩
    · exact ⟨_, by simp only [Benchmark.mainStep, hmain, Benchmark.join, if_neg hi]; rfl⟩
  | joinStress i =>
    by_cases hi : i < (b.stressors s.arm).length
    · cases hstatus : (s.stresses (s.arm, i)).status with
      | absent => exact absurd hstatus (h.joinStress_status hmain hi)
      | running =>
        simp only [needed, hmain, hstatus] at hneed
        cases hneed
      | returned => exact ⟨_, joinStress_turn hmain hi hstatus⟩
      | failed e => exact ⟨_, joinStress_fails hmain hi hstatus⟩
    · exact ⟨_, by simp only [Benchmark.mainStep, hmain, Benchmark.joinStress, if_neg hi]; rfl⟩
  | write chunks =>
    cases chunks with
    | nil => exact ⟨_, by simp only [Benchmark.mainStep, hmain]; rfl⟩
    | cons chunk rest => exact absurd hmain (hwrite chunk rest)
  | exited result => exact absurd hmain (hexit result)
  | crashed => exact absurd hmain hcrash
  | armTop | startStress | go | spawn | signal | stop | reset | unmapReplicas | unmapStress
  | leave => exact ⟨_, by simp only [Benchmark.mainStep, hmain]; rfl⟩

/-- Whoever is needed can make a step, or aborts the process. -/
theorem Inv.enabled (hover : ¬ s.Over) : ∃ a ∈ s.needed.actions,
    s.aborts b a = true ∨ ∃ s', s.step b a = some s' := by
  cases hneed : s.needed with
  | main =>
    by_cases hwrite : ∃ chunk rest, s.main = .write (chunk :: rest)
    · obtain ⟨chunk, rest, hmain⟩ := hwrite
      refine ⟨.write (.ok ()), Or.inr ⟨_, rfl⟩, Or.inr
        ⟨{ s with printed := s.printed ++ chunk.lines, main := .write rest }, ?_⟩⟩
      rw [step_write hover]
      simp only [Benchmark.writeStep, hmain]
    · simp only [not_exists] at hwrite
      obtain ⟨s', hs⟩ := h.main_turn hover hneed hwrite
      exact ⟨.main, Or.inl rfl, Or.inr ⟨s', by rw [step_main hover]; exact hs⟩⟩
  | measure t =>
    unfold needed at hneed
    split at hneed
    · next i hmain =>
      split at hneed
      · next hrun =>
        cases hneed
        have hin : s.main.Inside := by rw [hmain]; trivial
        refine ⟨.measure (s.arm, i), rfl, ?_⟩
        cases hlives : s.aborts b (.measure (s.arm, i)) with
        | true => exact Or.inl rfl
        | false =>
          obtain ⟨m, -, hs⟩ := measureStep_turn hrun (lives_of_measure hover hlives)
            (fun _ => h.measures.signal_on hin (by rw [hmain]; trivial))
            (h.mapped_inside (Or.inl hin)).1
          exact Or.inr ⟨_, by rw [step_measure hover]; exact hs⟩
      · cases hneed
    · split at hneed <;> cases hneed
    · cases hneed
  | stress t =>
    unfold needed at hneed
    split at hneed
    · split at hneed <;> cases hneed
    · next i hmain =>
      split at hneed
      · next hrun =>
        cases hneed
        have hin : s.main.Inside := by rw [hmain]; trivial
        obtain ⟨hi, -⟩ := h.stress_core (i := i) (by rw [hrun]; simp)
        have hne : b.stressors s.arm ≠ [] := by
          intro hnil
          rw [hnil] at hi
          exact Nat.not_lt_zero i hi
        refine ⟨.stress (s.arm, i), rfl, ?_⟩
        cases hlives : s.aborts b (.stress (s.arm, i)) with
        | true => exact Or.inl rfl
        | false =>
          obtain ⟨m, -, hs⟩ := stressStep_turn (b := b) hrun (lives_of_stress hover hlives)
            (fun _ => h.stresses.go_on hin (by rw [hmain]; trivial) hne)
            (h.mapped_inside (Or.inl hin)).2
          exact Or.inr ⟨_, by rw [step_stress hover]; exact hs⟩
      · cases hneed
    · cases hneed

/-- Only a core that no set can name aborts the process. -/
theorem Inv.not_pinnable {a : Action} (ha : s.aborts b a = true) : ¬ b.Pinnable := by
  intro hpin
  unfold aborts at ha
  split at ha
  · cases ha
  cases a with
  | measure t =>
    simp only [Bool.and_eq_true, decide_eq_true_eq, Option.isNone_iff_eq_none] at ha
    obtain ⟨i, rfl, -⟩ := h.measures.crew.running (t := t) (by simp [Measurement.status, ha.1])
    obtain ⟨-, hcore⟩ := h.measure_core (i := i) (by simp [Measurement.status, ha.1])
    have hlow := hpin _ _ (List.mem_of_getElem? hcore)
    have hhigh := (pinToCore_eq_none_iff _ _).mp ha.2
    omega
  | stress t =>
    simp only [Bool.and_eq_true, decide_eq_true_eq, Option.isNone_iff_eq_none] at ha
    obtain ⟨i, rfl, -⟩ := h.stresses.crew.running (t := t) (by simp [Stress.status, ha.1])
    obtain ⟨-, hcore⟩ := h.stress_core (i := i) (by simp [Stress.status, ha.1])
    have hlow := hpin _ _ (List.mem_of_getElem? hcore)
    have hhigh := (pinToCore_eq_none_iff _ _).mp ha.2
    omega
  | main | write | tick => cases ha

/-- A measurement thread's step brings the rank down if the main thread waits for it, and
changes nothing about that otherwise. -/
theorem Inv.measure_rank {t : Nat × Nat} {m : Measurement}
    (hmove : (s.measures t).Move b s.signal s.tsc m) :
    (s.setMeasure t m).rank b < s.rank b ∨
    s.needed ≠ .measure t ∧ (s.setMeasure t m).rank b = s.rank b ∧
      (s.setMeasure t m).needed = s.needed := by
  cases hmain : s.main with
  | join i =>
    by_cases ht : t = (s.arm, i)
    · subst ht
      left
      simp only [rank, setMeasure, hmain]
      refine place_lt_of_count ?_
      have hlt := hmove.stepsLeft_lt (h.measures.at_pc (s.arm, i))
      rw [Function.update_self]
      exact Nat.add_lt_add_left hlt _
    · right
      have hsame : (s.setMeasure t m).measures (s.arm, i) = s.measures (s.arm, i) :=
        setMeasure_of_ne (Ne.symm ht) m
      refine ⟨?_, ?_, ?_⟩
      · intro hneed
        simp only [needed, hmain] at hneed
        split at hneed
        · cases hneed
          exact ht rfl
        · cases hneed
      · simp only [setMeasure] at hsame
        simp only [rank, armsLeft, setMeasure, hmain, hsame]
      · simp only [setMeasure] at hsame
        simp only [needed, setMeasure, hmain, hsame]
  | joinStress i =>
    right
    refine ⟨?_, ?_, ?_⟩
    · intro hneed
      simp only [needed, hmain] at hneed
      split at hneed <;> cases hneed
    · simp only [rank, armsLeft, setMeasure, hmain]
    · simp only [needed, setMeasure, hmain]
  | _ =>
    right
    refine ⟨?_, ?_, ?_⟩
    · intro hneed
      simp only [needed, hmain] at hneed
      cases hneed
    · simp only [rank, armsLeft, setMeasure, hmain]
    · simp only [needed, setMeasure, hmain]

theorem Inv.stress_rank {t : Nat × Nat} {m : Stress}
    (hmove : (s.stresses t).Move b (s.go t.1) (s.stop t.1) m) :
    (s.setStress t m).rank b < s.rank b ∨
    s.needed ≠ .stress t ∧ (s.setStress t m).rank b = s.rank b ∧
      (s.setStress t m).needed = s.needed := by
  cases hmain : s.main with
  | joinStress i =>
    by_cases ht : t = (s.arm, i)
    · subst ht
      left
      have hstop := h.stresses.stop_on (by rw [hmain]; trivial) (by rw [hmain]; trivial)
      simp only [rank, setStress, hmain]
      refine place_lt_of_count ?_
      have hlt := hmove.stepsLeft_lt hstop
      rw [Function.update_self]
      exact Nat.add_lt_add_left hlt _
    · right
      have hsame : (s.setStress t m).stresses (s.arm, i) = s.stresses (s.arm, i) :=
        setStress_of_ne (Ne.symm ht) m
      refine ⟨?_, ?_, ?_⟩
      · intro hneed
        simp only [needed, hmain] at hneed
        split at hneed
        · cases hneed
          exact ht rfl
        · cases hneed
      · simp only [setStress] at hsame
        simp only [rank, armsLeft, setStress, hmain, hsame]
      · simp only [setStress] at hsame
        simp only [needed, setStress, hmain, hsame]
  | join i =>
    right
    refine ⟨?_, ?_, ?_⟩
    · intro hneed
      simp only [needed, hmain] at hneed
      split at hneed <;> cases hneed
    · simp only [rank, armsLeft, setStress, hmain]
    · simp only [needed, setStress, hmain]
  | _ =>
    right
    refine ⟨?_, ?_, ?_⟩
    · intro hneed
      simp only [needed, hmain] at hneed
      cases hneed
    · simp only [rank, armsLeft, setStress, hmain]
    · simp only [needed, setStress, hmain]

end

/-- A step of anybody brings the rank down, or is not of the one who is needed. -/
theorem Inv.step_ranks {a : Action} (h : Inv b s) (hover : ¬ s.Over)
    (hs : s.step b a = some s') : (Inv b s' ∧ s'.Over) ∨
      (∃ k' r', r' < s.rank b ∧ Inv b s' ∧ ¬ s'.Over ∧ s'.needed = k' ∧ s'.rank b = r') ∨
      a ∉ s.needed.actions ∧ Inv b s' ∧ ¬ s'.Over ∧ s'.needed = s.needed ∧
        s'.rank b = s.rank b := by
  have h' := h.step hs
  by_cases hover' : s'.Over
  · exact Or.inl ⟨h', hover'⟩
  have hlower : s'.rank b < s.rank b → ∃ k' r', r' < s.rank b ∧ Inv b s' ∧ ¬ s'.Over ∧
      s'.needed = k' ∧ s'.rank b = r' :=
    fun hlt => ⟨_, _, hlt, h', hover', rfl, rfl⟩
  right
  cases a with
  | main =>
    rw [step_main hover] at hs
    exact Or.inl (hlower ((h.mainStep_cases hs).rank_lt h hover'))
  | write outcome =>
    rw [step_write hover] at hs
    obtain ⟨chunk, rest, hmain, rfl | ⟨e, -, rfl⟩⟩ := writeStep_cases hs
    · refine Or.inl (hlower ?_)
      simp only [rank, hmain]
      exact place_lt_of_count (Nat.lt_succ_self _)
    · refine Or.inl (hlower ?_)
      simp only [rank, hmain]
      exact place_lt_of_arms (Nat.succ_pos _)
  | measure t =>
    rw [step_measure hover] at hs
    obtain ⟨m, hmove, rfl⟩ | ⟨-, -, -, rfl⟩ := measureStep_cases hs
    · rcases h.measure_rank hmove with hlt | ⟨hne, hrank, hneed⟩
      · exact Or.inl (hlower hlt)
      · exact Or.inr ⟨fun hmem => hne (Agent.measure_mem_iff.mp hmem), h', hover', hneed, hrank⟩
    · exact absurd trivial hover'
  | stress t =>
    rw [step_stress hover] at hs
    obtain ⟨m, hmove, rfl⟩ | ⟨-, -, -, rfl⟩ := stressStep_cases hs
    · rcases h.stress_rank hmove with hlt | ⟨hne, hrank, hneed⟩
      · exact Or.inl (hlower hlt)
      · exact Or.inr ⟨fun hmem => hne (Agent.stress_mem_iff.mp hmem), h', hover', hneed, hrank⟩
    · exact absurd trivial hover'
  | tick =>
    have htick : s.tick = some s' := by
      rw [← hs]
      exact (if_neg hover).symm
    unfold Benchmark.tick at htick
    split at htick
    · cases htick
      exact Or.inr ⟨s.needed.tick_notMem, h', hover', rfl, rfl⟩
    · cases htick

/-- The process ends, or aborts before. -/
theorem ends_chain (b : Setup) : Chain (process b) Agent.actions
    (Process.Ends (aborts b) fun _ _ s' => Inv b s' ∧ s'.Over)
    (fun k r p => ∃ s, p = .running s ∧ Inv b s ∧ ¬ s.Over ∧ s.needed = k ∧ s.rank b = r) := by
  refine Process.chain ?_ ?_
  · rintro k r s ⟨h, hover, rfl, rfl⟩
    exact h.enabled hover
  · rintro k r s a s' ⟨h, hover, rfl, rfl⟩ - hs
    exact h.step_ranks hover hs

/-- Nothing moves after the end. -/
theorem over_still (hover : s.Over) (a : Action) : process b (.running s) a = none := by
  have hlives : s.aborts b a = false := if_pos hover
  have hstill : s.step b a = none := if_pos hover
  simp [process, Process.step, hlives, hstill]

/-- **The benchmark ends.**  On every path on which each thread gets its turn and no write to a
file goes on for ever, the process comes to where nothing moves: `run` has returned
what the cores make it return, or a file was not written; or it crashed, where it can; or it
aborted, which takes a core that no set can name. -/
theorem benchmark_ends (b : Setup) (p : Path (process b)) (hstart : p.state 0 = .running start)
    (hfair : ∀ k : Agent, p.WeaklyFair k.actions) :
    ∃ n, (∀ a, process b (p.state n) a = none) ∧
      ((∃ s, p.state n = .running s ∧
        ((∃ result, s.main = .exited result ∧ (result = b.result ∨
          ∃ e, result = .error (.io e) ∧ b.config.rawPrefix.isSome = true ∧
            ∀ k, k ≤ s.arm → b.failure k = none)) ∨
          s.main = .crashed ∧ (b.SamplesFit → b.Torn))) ∨
        p.state n = .aborted ∧ ¬ b.Pinnable) := by
  have hnot : ¬ start.Over := by
    rw [not_over_iff]
    simp [start]
  obtain ⟨m, a, -, -, ⟨s, hs, hends⟩, hon⟩ := (ends_chain b).reaches_goal p
    (fun k _ _ _ => hfair k) (n := 0) ⟨start, hstart, inv_start b, hnot, rfl, rfl⟩
  refine ⟨m + 1, ?_⟩
  rcases hends with ⟨haborts, hnext⟩ | ⟨s', hnext, h, hover⟩
  · obtain ⟨-, -, t, ht, h, -⟩ := hon m (Nat.zero_le m) (Nat.le_refl m)
    rw [hs] at ht
    cases ht
    rw [hnext]
    exact ⟨Process.step_aborted, Or.inr ⟨rfl, h.not_pinnable haborts⟩⟩
  · rw [hnext]
    refine ⟨over_still hover, Or.inl ⟨s', rfl, ?_⟩⟩
    cases hmain : s'.main with
    | exited result => exact Or.inl ⟨result, rfl, h.result_cases (by rw [hmain]; rfl)⟩
    | crashed => exact Or.inr ⟨rfl, h.torn hmain⟩
    | _ =>
      rw [Over, hmain] at hover
      exact hover.elim

theorem benchmark_ends_unpinned : ∃ p : Path (process unpinned), p.state 0 = .running start ∧
    ∃ n, (∀ a, process unpinned (p.state n) a = none) ∧
      ((∃ s, p.state n = .running s ∧
        ((∃ result, s.main = .exited result ∧ (result = unpinned.result ∨
          ∃ e, result = .error (.io e) ∧ unpinned.config.rawPrefix.isSome = true ∧
            ∀ k, k ≤ s.arm → unpinned.failure k = none)) ∨
          s.main = .crashed ∧ (unpinned.SamplesFit → unpinned.Torn))) ∨
        p.state n = .aborted ∧ ¬ unpinned.Pinnable) := by
  have hruns : ∃ s e, run (process unpinned) (.running start) unpinnedJoined = some s ∧
      run (process unpinned) s (List.replicate 3 .main) = some (.running e) ∧ e.Over :=
    ⟨_, _, rfl, rfl, trivial⟩
  obtain ⟨s, e, hrun, hrun', hover⟩ := hruns
  obtain ⟨p, hstart, -, hfair⟩ := exists_ending hrun hrun' fun a => over_still hover a
  exact ⟨p, hstart, benchmark_ends unpinned p hstart fun k => (hfair k.actions).1⟩

end Benchmark

end Tailslayer
