import Mathlib.Data.Nat.Find
import Mathlib.Data.Nat.Pairing
import Mathlib.Order.RelClasses
import Mathlib.Order.SetNotation
import Tailslayer.Pool.StepRun

/-!
# Fair paths

A `Path` goes on for ever: at each moment one action of the step function, or
none if only the rest of the world moves.  An agent is the set of its actions;
`WeaklyFair` says that it takes one if it always could.

A `Chain` ranks the states on the way to a goal, and names at each of them the
agent that is needed next.  Where that agent can move and brings the rank down,
and nobody else brings it up, the goal is reached (`reaches_goal`).

Whatever was done so far can be continued fairly (`exists_fair`).  `Moves` is also
what a step of one step function may do to the state of another that it
simulates, and `run_simulates` carries whole runs over.
-/

namespace Fair

variable {σ α : Type}

/-- What a moment does. -/
def Moves (step : σ → α → Option σ) (s : σ) : Option α → σ → Prop
  | none, s' => s' = s
  | some a, s' => step s a = some s'

structure Path (step : σ → α → Option σ) where
  state : Nat → σ
  act : Nat → Option α
  moves : ∀ n, Moves step (state n) (act n) (state (n + 1))

def Enabled (step : σ → α → Option σ) (agent : Set α) (s : σ) : Prop :=
  ∃ a ∈ agent, ∃ s', step s a = some s'

variable {step : σ → α → Option σ}

namespace Path

def WeaklyFair (p : Path step) (agent : Set α) : Prop :=
  ∀ n, (∀ m, n ≤ m → Enabled step agent (p.state m)) →
    ∃ m, n ≤ m ∧ ∃ a ∈ agent, p.act m = some a

/-- It takes one also if it could only now and then. -/
def StronglyFair (p : Path step) (agent : Set α) : Prop :=
  ∀ n, (∀ m, n ≤ m → ∃ k, m ≤ k ∧ Enabled step agent (p.state k)) →
    ∃ m, n ≤ m ∧ ∃ a ∈ agent, p.act m = some a

/-- The actions before moment `n`. -/
def acts (p : Path step) (n : Nat) : List α := (List.range n).filterMap p.act

variable (p : Path step)

theorem state_of_none {n : Nat} (h : p.act n = none) : p.state (n + 1) = p.state n := by
  have hm := p.moves n
  rw [h] at hm
  exact hm

theorem step_of_some {n : Nat} {a : α} (h : p.act n = some a) :
    step (p.state n) a = some (p.state (n + 1)) := by
  have hm := p.moves n
  rw [h] at hm
  exact hm

/-- Every state of a path is reached by a run. -/
theorem run_acts (n : Nat) : StepRun.run step (p.state 0) (p.acts n) = some (p.state n) := by
  induction n with
  | zero => rfl
  | succ n ih =>
    have hacts : p.acts (n + 1) = p.acts n ++ [n].filterMap p.act := by
      rw [acts, List.range_succ, List.filterMap_append]
      rfl
    rw [hacts, StepRun.run_append ih]
    cases h : p.act n with
    | none => simp [h, p.state_of_none h]
    | some a => simp [h, StepRun.run, p.step_of_some h]

end Path

/-! ## Chains -/

/-- `At k r s`: on the way, agent `k` is needed, and `r` is how far it still is. -/
structure Chain {ι ρ : Type} [LT ρ] (step : σ → α → Option σ) (agent : ι → Set α)
    (Goal : σ → α → σ → Prop) (At : ι → ρ → σ → Prop) : Prop where
  enabled : ∀ k r s, At k r s → Enabled step (agent k) s
  step : ∀ k r s a s', At k r s → step s a = some s' →
    Goal s a s' ∨ (∃ k' r', r' < r ∧ At k' r' s') ∨ a ∉ agent k ∧ At k r s'

section
variable {ι ρ : Type} [LT ρ] {agent : ι → Set α} {Goal : σ → α → σ → Prop}
  {At : ι → ρ → σ → Prop} (hchain : Chain step agent Goal At) (p : Path step)
include hchain

/-- A stage is left by a step that reaches the goal or lowers the rank. -/
theorem Chain.leaves {n : Nat} {k : ι} {r : ρ} (h : At k r (p.state n))
    (hout : ∃ m, n ≤ m ∧ ¬ At k r (p.state m)) : ∃ m a, n ≤ m ∧ p.act m = some a ∧
      (Goal (p.state m) a (p.state (m + 1)) ∨ ∃ k' r', r' < r ∧ At k' r' (p.state (m + 1))) ∧
      ∀ j, n ≤ j → j ≤ m → At k r (p.state j) := by
  classical
  obtain ⟨hn, hfirst⟩ := Nat.find_spec hout
  have hbefore : ∀ j, n ≤ j → j < Nat.find hout → At k r (p.state j) := by
    intro j hnj hj
    by_contra hbad
    exact Nat.find_min hout hj ⟨hnj, hbad⟩
  obtain ⟨m, hm⟩ : ∃ m, Nat.find hout = m + 1 := by
    apply Nat.exists_eq_succ_of_ne_zero
    intro hzero
    rw [hzero] at hn hfirst
    exact hfirst (Nat.le_zero.mp hn ▸ h)
  rw [hm] at hn hfirst hbefore
  have hnm : n ≤ m := by
    by_contra hlt
    have heq : n = m + 1 := by omega
    exact hfirst (heq ▸ h)
  have hat := hbefore m hnm (Nat.lt_succ_self m)
  cases ha : p.act m with
  | none =>
    rw [p.state_of_none ha] at hfirst
    exact absurd hat hfirst
  | some a =>
    refine ⟨m, a, hnm, ha, ?_, fun j hnj hj => hbefore j hnj (by omega)⟩
    rcases hchain.step k r _ a _ hat (p.step_of_some ha) with hgoal | hlow | ⟨-, hstay⟩
    · exact Or.inl hgoal
    · exact Or.inr hlow
    · exact absurd hstay hfirst

/-- A fair agent does not leave its stage for ever. -/
theorem Chain.left {n : Nat} {k : ι} {r : ρ} (hfair : p.WeaklyFair (agent k))
    (h : At k r (p.state n)) : ∃ m a, n ≤ m ∧ p.act m = some a ∧
      (Goal (p.state m) a (p.state (m + 1)) ∨ ∃ k' r', r' < r ∧ At k' r' (p.state (m + 1))) ∧
      ∀ j, n ≤ j → j ≤ m → ∃ k' r', At k' r' (p.state j) := by
  by_cases hall : ∀ m, n ≤ m → At k r (p.state m)
  · obtain ⟨m, hnm, a, hmem, ha⟩ := hfair n fun m hm => hchain.enabled k r _ (hall m hm)
    refine ⟨m, a, hnm, ha, ?_, fun j hnj _ => ⟨k, r, hall j hnj⟩⟩
    rcases hchain.step k r _ a _ (hall m hnm) (p.step_of_some ha) with hgoal | hlow | ⟨hno, -⟩
    · exact Or.inl hgoal
    · exact Or.inr hlow
    · exact absurd hmem hno
  · simp only [not_forall] at hall
    obtain ⟨m, hnm, hbad⟩ := hall
    obtain ⟨m', a, hnm', ha, hend, hbefore⟩ := hchain.leaves p h ⟨m, hnm, hbad⟩
    exact ⟨m', a, hnm', ha, hend, fun j hnj hj => ⟨k, r, hbefore j hnj hj⟩⟩

/-- **Fair agents reach the goal.**  Until then the path stays on the chain. -/
theorem Chain.reaches_goal [WellFoundedLT ρ]
    (hfair : ∀ k r s, At k r s → p.WeaklyFair (agent k)) {n : Nat} {k : ι} {r : ρ}
    (h : At k r (p.state n)) : ∃ m a, n ≤ m ∧ p.act m = some a ∧
      Goal (p.state m) a (p.state (m + 1)) ∧
      ∀ j, n ≤ j → j ≤ m → ∃ k' r', At k' r' (p.state j) := by
  induction r using WellFoundedLT.induction generalizing n k with
  | _ r ih =>
    obtain ⟨m, a, hnm, ha, hgoal | ⟨k', r', hlt, hat⟩, hbefore⟩ := hchain.left p (hfair k r _ h) h
    · exact ⟨m, a, hnm, ha, hgoal, hbefore⟩
    · obtain ⟨m', a', hmm', ha', hgoal, hon⟩ := ih r' hlt hat
      refine ⟨m', a', by omega, ha', hgoal, fun j hnj hj => ?_⟩
      by_cases hjm : j ≤ m
      · exact hbefore j hnj hjm
      · exact hon j (by omega) hj

end

/-! ## There are fair paths -/

/-- Trying one action a moment. -/
def trying (step : σ → α → Option σ) (s : σ) (schedule : Nat → α) : Nat → σ
  | 0 => s
  | n + 1 => (step (trying step s schedule n) (schedule n)).getD (trying step s schedule n)

def Path.ofSchedule (step : σ → α → Option σ) (s : σ) (schedule : Nat → α) : Path step where
  state := trying step s schedule
  act := fun n =>
    if (step (trying step s schedule n) (schedule n)).isSome then some (schedule n) else none
  moves := fun n => by
    rw [trying]
    cases h : step (trying step s schedule n) (schedule n) with
    | none => rfl
    | some s' => exact h

/-- An action that is tried again and again is taken if it stays possible. -/
theorem Path.ofSchedule_fair (s : σ) {schedule : Nat → α} {a : α}
    (htried : ∀ n, ∃ m, n ≤ m ∧ schedule m = a) :
    (Path.ofSchedule step s schedule).WeaklyFair {a} := by
  intro n hall
  obtain ⟨m, hnm, hm⟩ := htried n
  obtain ⟨b, hb, s', hs⟩ := hall m hnm
  rw [Set.mem_singleton_iff.mp hb] at hs
  refine ⟨m, hnm, a, rfl, ?_⟩
  change step (trying step s schedule m) a = some s' at hs
  simp only [ofSchedule, hm, hs, Option.isSome_some, if_true]

/-- One step before a path. -/
def Path.cons (s : σ) (a : α) (p : Path step) (h : step s a = some (p.state 0)) : Path step where
  state
    | 0 => s
    | n + 1 => p.state n
  act
    | 0 => some a
    | n + 1 => p.act n
  moves
    | 0 => h
    | n + 1 => p.moves n

theorem Path.WeaklyFair.cons {p : Path step} {agent : Set α} (hfair : p.WeaklyFair agent) {s : σ}
    {a : α} (h : step s a = some (p.state 0)) : (p.cons s a h).WeaklyFair agent := by
  intro n hall
  obtain ⟨m, hnm, hm⟩ := hfair n fun m hm => hall (m + 1) (by omega)
  exact ⟨m + 1, by omega, hm⟩

theorem Path.StronglyFair.cons {p : Path step} {agent : Set α} (hfair : p.StronglyFair agent)
    {s : σ} {a : α} (h : step s a = some (p.state 0)) : (p.cons s a h).StronglyFair agent := by
  intro n hall
  obtain ⟨m, hnm, hm⟩ := hfair n fun m hm => by
    obtain ⟨k, hmk, hk⟩ := hall (m + 1) (by omega)
    obtain ⟨k, rfl⟩ := Nat.exists_eq_add_of_le' (show 1 ≤ k by omega)
    exact ⟨k, by omega, hk⟩
  exact ⟨m + 1, by omega, hm⟩

/-- A run before a path; fairness is a matter of what comes late. -/
theorem Path.exists_before (p : Path step) {as : List α} :
    ∀ {s₀ : σ}, StepRun.run step s₀ as = some (p.state 0) → ∃ q : Path step, q.state 0 = s₀ ∧
      q.state as.length = p.state 0 ∧ ∀ agent, (p.WeaklyFair agent → q.WeaklyFair agent) ∧
        (p.StronglyFair agent → q.StronglyFair agent) := by
  induction as with
  | nil =>
    intro s₀ h
    cases h
    exact ⟨p, rfl, rfl, fun _ => ⟨id, id⟩⟩
  | cons a as ih =>
    intro s₀ h
    obtain ⟨s₁, hs, hrun⟩ := StepRun.run_cons_eq_some h
    obtain ⟨q, rfl, hend, hfair⟩ := ih hrun
    exact ⟨q.cons s₀ a hs, rfl, hend, fun agent => ⟨fun hp => ((hfair agent).1 hp).cons hs,
      fun hp => ((hfair agent).2 hp).cons hs⟩⟩

/-- **Fairness excludes no run.**  Whatever was done so far, it can go on fairly. -/
theorem exists_fair (actions : Nat → α) {s₀ s : σ} {as : List α}
    (h : StepRun.run step s₀ as = some s) : ∃ p : Path step, p.state 0 = s₀ ∧
      p.state as.length = s ∧ ∀ k, p.WeaklyFair {actions k} := by
  obtain ⟨q, hstart, hend, hfair⟩ :=
    (Path.ofSchedule step s fun n => actions n.unpair.1).exists_before h
  refine ⟨q, hstart, hend, fun k => (hfair _).1 (Path.ofSchedule_fair s fun n => ?_)⟩
  exact ⟨Nat.pair k n, Nat.right_le_pair k n, by rw [Nat.unpair_pair]⟩

/-- For ever in one state. -/
def Path.still (s : σ) : Path step where
  state := fun _ => s
  act := fun _ => none
  moves := fun _ => rfl

/-- A run that gets to where nothing is possible is fair to everybody. -/
theorem exists_ending {s₀ s e : σ} {as bs : List α} (h : StepRun.run step s₀ as = some s)
    (h' : StepRun.run step s bs = some e) (hend : ∀ a, step e a = none) :
    ∃ p : Path step, p.state 0 = s₀ ∧ p.state as.length = s ∧
      ∀ agent, p.WeaklyFair agent ∧ p.StronglyFair agent := by
  have hnone : ∀ agent, ¬ Enabled step agent e := by
    rintro agent ⟨a, -, s', hs⟩
    rw [hend a] at hs
    cases hs
  have hstill : ∀ agent, (Path.still e : Path step).WeaklyFair agent ∧
      (Path.still e : Path step).StronglyFair agent := by
    refine fun agent => ⟨fun n hall => ?_, fun n hall => ?_⟩
    · exact absurd (hall n (Nat.le_refl n)) (hnone agent)
    · obtain ⟨k, -, hk⟩ := hall n (Nat.le_refl n)
      exact absurd hk (hnone agent)
  obtain ⟨q, rfl, -, hfair⟩ := (Path.still e : Path step).exists_before h'
  obtain ⟨p, hstart, hmid, hfair'⟩ := q.exists_before h
  refine ⟨p, hstart, hmid, fun agent => ⟨?_, ?_⟩⟩
  · exact (hfair' agent).1 ((hfair agent).1 (hstill agent).1)
  · exact (hfair' agent).2 ((hfair agent).2 (hstill agent).2)

/-! ## Simulations -/

/-- A run whose steps are moves of another step function is a run of that one. -/
theorem run_simulates {σ' α' : Type} {step' : σ' → α' → Option σ'} {P : σ → Prop} (f : σ → σ')
    (g : σ → α → Option α') (hstep : ∀ s a s', P s → step s a = some s' →
      P s' ∧ Moves step' (f s) (g s a) (f s')) {as : List α} :
    ∀ {s s' : σ}, P s → StepRun.run step s as = some s' →
      P s' ∧ ∃ as', StepRun.run step' (f s) as' = some (f s') := by
  induction as with
  | nil =>
    intro s s' hs h
    cases h
    exact ⟨hs, [], rfl⟩
  | cons a as ih =>
    intro s s' hs h
    obtain ⟨t, ht, hrest⟩ := StepRun.run_cons_eq_some h
    obtain ⟨hPt, hmoves⟩ := hstep s a t hs ht
    obtain ⟨hPs', as', hrun⟩ := ih hPt hrest
    refine ⟨hPs', ?_⟩
    cases hg : g s a with
    | none =>
      rw [hg] at hmoves
      change f t = f s at hmoves
      exact ⟨as', hmoves ▸ hrun⟩
    | some a' =>
      rw [hg] at hmoves
      exact ⟨a' :: as', by rw [StepRun.run_cons hmoves, hrun]⟩

end Fair
