import Tailslayer.Pool.Fair

/-!
# A process that may abort

The threads of a process take the steps of `step`; an action of `aborts` is
the end of all of them (`step_aborted`).  While the process lives its runs are those of the
threads (`run_running`), and it aborts where a run has come to such an action
(`run_aborted_iff`).

An agent whose next action aborts, whatever the others do, aborts a process that
is fair to it (`aborts_fairly`); and what fair threads come to, a fair process comes to
unless it aborts before (`chain`).
-/

inductive Process (σ : Type) where
  | running (s : σ)
  | aborted

namespace Process

open StepRun Fair

variable {σ α : Type} (threads : σ → α → Option σ) (aborts : σ → α → Bool)

def step : Process σ → α → Option (Process σ)
  | .running s, a => if aborts s a then some .aborted else (threads s a).map .running
  | .aborted, _ => none

variable {threads aborts}

/-- Nothing moves afterwards. -/
theorem step_aborted (a : α) : step threads aborts .aborted a = none := rfl

theorem step_of_aborts {s : σ} {a : α} (h : aborts s a = true) :
    step threads aborts (.running s) a = some .aborted := if_pos h

theorem step_running_iff {s s' : σ} {a : α} :
    step threads aborts (.running s) a = some (.running s') ↔
      aborts s a = false ∧ threads s a = some s' := by
  cases h : aborts s a <;> simp [step, h]

theorem step_aborted_iff {s : σ} {a : α} :
    step threads aborts (.running s) a = some .aborted ↔ aborts s a = true := by
  cases h : aborts s a <;> simp [step, h]

/-- **A process that lives has done what its threads did.** -/
theorem run_running {acts : List α} : ∀ {s s' : σ},
    run (step threads aborts) (.running s) acts = some (.running s') →
      run threads s acts = some s' := by
  induction acts with
  | nil =>
    intro s s' h
    cases h
    rfl
  | cons a acts ih =>
    intro s s' h
    obtain ⟨p, hstep, hrest⟩ := run_cons_eq_some h
    cases p with
    | running t =>
      obtain ⟨-, ht⟩ := step_running_iff.mp hstep
      rw [run_cons ht]
      exact ih hrest
    | aborted =>
      cases acts with
      | nil => cases hrest
      | cons b bs => simp [run, step] at hrest

/-- Threads that do not get past what aborts do not abort the process. -/
theorem run_of_threads (hstuck : ∀ s a, aborts s a = true → threads s a = none) {acts : List α} :
    ∀ {s s' : σ}, run threads s acts = some s' →
      run (step threads aborts) (.running s) acts = some (.running s') := by
  induction acts with
  | nil =>
    intro s s' h
    cases h
    rfl
  | cons a acts ih =>
    intro s s' h
    obtain ⟨t, ht, hrest⟩ := run_cons_eq_some h
    have hlives : aborts s a = false := by
      by_contra hbad
      rw [hstuck s a (by simpa using hbad)] at ht
      cases ht
    rw [run_cons (step_running_iff.mpr ⟨hlives, ht⟩)]
    exact ih hrest

/-- The last action of a process that aborted is the one that aborts. -/
theorem run_aborted {acts : List α} : ∀ {s : σ},
    run (step threads aborts) (.running s) acts = some .aborted →
      ∃ before a t, acts = before ++ [a] ∧ run threads s before = some t ∧
        aborts t a = true := by
  induction acts with
  | nil =>
    intro s h
    cases h
  | cons a acts ih =>
    intro s h
    obtain ⟨p, hstep, hrest⟩ := run_cons_eq_some h
    cases p with
    | running t =>
      obtain ⟨-, ht⟩ := step_running_iff.mp hstep
      obtain ⟨before, b, u, rfl, hrun, hu⟩ := ih hrest
      exact ⟨a :: before, b, u, rfl, by rw [run_cons ht, hrun], hu⟩
    | aborted =>
      have ha := step_aborted_iff.mp hstep
      cases acts with
      | nil => exact ⟨[], a, _, rfl, rfl, ha⟩
      | cons b bs => simp [run, step] at hrest

theorem run_aborted_iff (hstuck : ∀ s a, aborts s a = true → threads s a = none) {s : σ}
    {acts : List α} : run (step threads aborts) (.running s) acts = some .aborted ↔
      ∃ before a t, acts = before ++ [a] ∧ run threads s before = some t ∧ aborts t a = true := by
  constructor
  · exact run_aborted
  · rintro ⟨before, a, t, rfl, hrun, ha⟩
    rw [run_append (run_of_threads hstuck hrun), run_cons (step_of_aborts ha), run_nil]

section
variable {ι ρ : Type} [LT ρ] {agent : ι → Set α} {Goal : σ → α → σ → Prop}
  {At : ι → ρ → σ → Prop}

/-- The step that aborts the process, or brings its threads to the goal. -/
def Ends (aborts : σ → α → Bool) (Goal : σ → α → σ → Prop) (p : Process σ) (a : α)
    (p' : Process σ) : Prop :=
  ∃ s, p = .running s ∧
    (aborts s a = true ∧ p' = .aborted ∨ ∃ s', p' = .running s' ∧ Goal s a s')

/-- What the threads come to is what the process comes to, unless it aborts before. -/
theorem chain
    (henabled : ∀ k r s, At k r s → ∃ a ∈ agent k, aborts s a = true ∨ ∃ s', threads s a = some s')
    (hstep : ∀ k r s a s', At k r s → aborts s a = false → threads s a = some s' →
      Goal s a s' ∨ (∃ k' r', r' < r ∧ At k' r' s') ∨ a ∉ agent k ∧ At k r s') :
    Chain (step threads aborts) agent (Ends aborts Goal)
      (fun k r p => ∃ s, p = .running s ∧ At k r s) where
  enabled := by
    rintro k r - ⟨s, rfl, h⟩
    obtain ⟨a, ha, hends⟩ := henabled k r s h
    cases hlives : aborts s a with
    | true => exact ⟨a, ha, _, step_of_aborts hlives⟩
    | false =>
      obtain ⟨s', hs⟩ := hends.resolve_left (by rw [hlives]; simp)
      exact ⟨a, ha, _, step_running_iff.mpr ⟨hlives, hs⟩⟩
  step := by
    rintro k r - a p' ⟨s, rfl, h⟩ hs
    cases p' with
    | aborted => exact Or.inl ⟨s, rfl, Or.inl ⟨step_aborted_iff.mp hs, rfl⟩⟩
    | running s' =>
      obtain ⟨hlives, hs'⟩ := step_running_iff.mp hs
      rcases hstep k r s a s' h hlives hs' with hgoal | ⟨k', r', hlt, hat⟩ | ⟨hne, hat⟩
      · exact Or.inl ⟨s, rfl, Or.inr ⟨s', rfl, hgoal⟩⟩
      · exact Or.inr (Or.inl ⟨k', r', hlt, s', rfl, hat⟩)
      · exact Or.inr (Or.inr ⟨hne, s', rfl, hat⟩)

end

/-- **A fair process aborts** where an agent has come to what aborts and nobody
else takes it away. -/
theorem aborts_fairly {P : σ → Prop} {a : α} (hat : ∀ s, P s → aborts s a = true)
    (hstay : ∀ s b s', P s → threads s b = some s' → P s') (p : Path (step threads aborts))
    (hfair : p.WeaklyFair {a}) {n : Nat} {s : σ} (hn : p.state n = .running s) (h : P s) :
    ∃ m, n ≤ m ∧ p.state m = .aborted := by
  have hchain : Chain (step threads aborts) (fun _ : Unit => {a})
      (Ends aborts fun _ _ _ => False) (fun _ (_ : Nat) p => ∃ s, p = .running s ∧ P s) := by
    refine chain (fun _ _ s h => ⟨a, rfl, Or.inl (hat s h)⟩) fun _ _ s b s' h hlives hs => ?_
    refine Or.inr (Or.inr ⟨?_, hstay s b s' h hs⟩)
    rintro rfl
    rw [hat s h] at hlives
    cases hlives
  obtain ⟨m, b, hnm, -, ⟨t, -, ⟨-, hgoal⟩ | ⟨t', -, hfalse⟩⟩, -⟩ :=
    hchain.reaches_goal p (fun _ _ _ _ => hfair) (k := ()) (r := 0) ⟨s, hn, h⟩
  · exact ⟨m + 1, by omega, hgoal⟩
  · exact hfalse.elim

end Process
