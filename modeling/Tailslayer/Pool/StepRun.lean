/-!
# Runs of a partial step function

`step s a` is the state after action `a`, `none` where `a` is not possible.
`run step s as` takes the actions one after the other; any list of actions is a
schedule, and what the steps preserve holds after every run (`run_preserves`).

Counted actions: `run_count` adds them up, and `run_preserves_below` is for
what is preserved as long as a count stays below a bound.

`run_replicate_of_rank`: an action that lowers a rank until its goal is reached,
repeated, reaches it.  `Leads` is for schedules that are put together from parts.
-/

namespace StepRun

variable {σ α : Type} (step : σ → α → Option σ)

def run (s : σ) : List α → Option σ
  | [] => some s
  | a :: as =>
    match step s a with
    | none => none
    | some s' => run s' as

@[simp] theorem run_nil (s : σ) : run step s [] = some s := rfl

variable {step}

theorem run_cons {s s' : σ} {a : α} (h : step s a = some s') (as : List α) :
    run step s (a :: as) = run step s' as := by
  simp [run, h]

theorem run_cons_eq_some {s u : σ} {a : α} {as : List α} (h : run step s (a :: as) = some u) :
    ∃ t, step s a = some t ∧ run step t as = some u := by
  unfold run at h
  split at h
  · cases h
  · next t ht => exact ⟨t, ht, h⟩

/-- A run goes on from where another one ended. -/
theorem run_append {s t : σ} {as : List α} (h : run step s as = some t) (bs : List α) :
    run step s (as ++ bs) = run step t bs := by
  induction as generalizing s with
  | nil =>
    cases h
    rfl
  | cons a as ih =>
    obtain ⟨u, hu, hrest⟩ := run_cons_eq_some h
    rw [List.cons_append, run_cons hu, ih hrest]

/-- What every step preserves, a run does. -/
theorem run_preserves {P : σ → Prop} (hstep : ∀ s a s', P s → step s a = some s' → P s') :
    ∀ {as : List α} {s s' : σ}, P s → run step s as = some s' → P s' := by
  intro as
  induction as with
  | nil =>
    intro s s' hs h
    cases h
    exact hs
  | cons a as ih =>
    intro s s' hs h
    obtain ⟨t, ht, hrest⟩ := run_cons_eq_some h
    exact ih (hstep s a t hs ht) hrest

/-- Each step that counts adds one. -/
theorem run_count {count : σ → Nat} {counts : α → Bool}
    (hstep : ∀ s a s', step s a = some s' → count s' = count s + (counts a).toNat) :
    ∀ {as : List α} {s s' : σ}, run step s as = some s' →
      count s' = count s + as.countP counts := by
  intro as
  induction as with
  | nil =>
    intro s s' h
    cases h
    rfl
  | cons a as ih =>
    intro s s' h
    obtain ⟨t, ht, hrest⟩ := run_cons_eq_some h
    rw [ih hrest, hstep s a t ht, List.countP_cons]
    cases counts a with
    | false => rfl
    | true =>
      simp only [Bool.toNat_true, if_true]
      omega

/-- Each step adds what it emits to a trace. -/
theorem run_trace {β : Type} {P : σ → Prop} {trace : σ → List β} {emits : α → List β}
    (hstep : ∀ s a s', P s → step s a = some s' → P s' ∧ trace s' = trace s ++ emits a) :
    ∀ {as : List α} {s s' : σ}, P s → run step s as = some s' →
      trace s' = trace s ++ as.flatMap emits := by
  intro as
  induction as with
  | nil =>
    intro s s' _ h
    cases h
    simp
  | cons a as ih =>
    intro s s' hs h
    obtain ⟨t, ht, hrest⟩ := run_cons_eq_some h
    obtain ⟨hPt, htrace⟩ := hstep s a t hs ht
    rw [ih hPt hrest, htrace, List.flatMap_cons, List.append_assoc]

theorem run_mono {count : σ → Nat} (hmono : ∀ s a s', step s a = some s' → count s ≤ count s') :
    ∀ {as : List α} {s s' : σ}, run step s as = some s' → count s ≤ count s' := by
  intro as
  induction as with
  | nil =>
    intro s s' h
    cases h
    exact Nat.le_refl _
  | cons a as ih =>
    intro s s' h
    obtain ⟨t, ht, hrest⟩ := run_cons_eq_some h
    exact Nat.le_trans (hmono s a t ht) (ih hrest)

/-- What a step preserves while the count is below `bound`, a run does. -/
theorem run_preserves_below {P : σ → Prop} {count : σ → Nat} {bound : Nat}
    (hmono : ∀ s a s', step s a = some s' → count s ≤ count s')
    (hstep : ∀ s a s', P s → count s' < bound → step s a = some s' → P s') :
    ∀ {as : List α} {s s' : σ}, P s → run step s as = some s' → count s' < bound → P s' := by
  intro as
  induction as with
  | nil =>
    intro s s' hs h _
    cases h
    exact hs
  | cons a as ih =>
    intro s s' hs h hlt
    obtain ⟨t, ht, hrest⟩ := run_cons_eq_some h
    exact ih (hstep s a t hs (Nat.lt_of_le_of_lt (run_mono hmono hrest) hlt) ht) hrest hlt

/-- An action that lowers `rank` until `Goal`, repeated, gets there. -/
theorem run_replicate_of_rank {P Goal : σ → Prop} (rank : σ → Nat) {a : α}
    (hstep : ∀ s, P s → Goal s ∨
      ∃ s', step s a = some s' ∧ (Goal s' ∨ P s' ∧ rank s' < rank s)) :
    ∀ {s : σ}, P s → ∃ n s', n ≤ rank s + 1 ∧ run step s (List.replicate n a) = some s' ∧
      Goal s' := by
  have key : ∀ n s, rank s = n → P s → ∃ m s', m ≤ n + 1 ∧
      run step s (List.replicate m a) = some s' ∧ Goal s' := by
    intro n
    induction n using Nat.strongRecOn with
    | _ n ih =>
      intro s hn hP
      rcases hstep s hP with hgoal | ⟨t, ht, hgoal | ⟨hPt, hlt⟩⟩
      · exact ⟨0, s, Nat.zero_le _, rfl, hgoal⟩
      · exact ⟨1, t, by omega, by simp [run, ht], hgoal⟩
      · obtain ⟨m, u, hm, hrun, hgoal⟩ := ih (rank t) (hn ▸ hlt) t rfl hPt
        refine ⟨m + 1, u, by omega, ?_, hgoal⟩
        rw [List.replicate_succ, run_cons ht, hrun]
  intro s hP
  exact key (rank s) s rfl hP

/-- Some schedule gets to where `Q` holds. -/
def Leads (step : σ → α → Option σ) (s : σ) (Q : σ → Prop) : Prop :=
  ∃ as s', run step s as = some s' ∧ Q s'

namespace Leads

variable {Q R : σ → Prop} {s s' : σ}

theorem here (h : Q s) : Leads step s Q := ⟨[], s, rfl, h⟩

theorem next {a : α} (hs : step s a = some s') (h : Leads step s' Q) : Leads step s Q := by
  obtain ⟨as, u, hrun, hQ⟩ := h
  exact ⟨a :: as, u, by rw [run_cons hs, hrun], hQ⟩

theorem trans (h : Leads step s Q) (hQ : ∀ t, Q t → Leads step t R) : Leads step s R := by
  obtain ⟨as, t, hrun, ht⟩ := h
  obtain ⟨bs, u, hrun', hR⟩ := hQ t ht
  exact ⟨as ++ bs, u, by rw [run_append hrun, hrun'], hR⟩

/-- A loop, round by round. -/
theorem loop {P : Nat → σ → Prop} {n : Nat}
    (hround : ∀ i t, i < n → P i t → Leads step t (P (i + 1))) :
    ∀ {i : Nat} {t : σ}, i ≤ n → P i t → Leads step t (P n) := by
  intro i t hi
  obtain ⟨d, rfl⟩ := Nat.exists_eq_add_of_le hi
  clear hi
  induction d generalizing i t with
  | zero => exact here
  | succ d ih =>
    intro ht
    refine (hround i t (by omega) ht).trans fun u hu => ?_
    have hrest := ih (i := i + 1) (t := u) (fun j => by rw [Nat.add_right_comm]; exact hround j)
    rw [Nat.add_right_comm, Nat.add_assoc] at hrest
    exact hrest hu

/-- Until the goal is reached some action brings the rank down. -/
theorem of_rank {P Goal : σ → Prop} (rank : σ → Nat)
    (hstep : ∀ t, P t → Goal t ∨ ∃ a t', step t a = some t' ∧ P t' ∧ rank t' < rank t)
    (h : P s) : Leads step s fun t => P t ∧ Goal t := by
  obtain ⟨n, hn⟩ : ∃ n, n = rank s := ⟨_, rfl⟩
  induction n using Nat.strongRecOn generalizing s with
  | _ n ih =>
    rcases hstep s h with hgoal | ⟨a, t, ht, hPt, hlt⟩
    · exact here ⟨h, hgoal⟩
    · exact next ht (ih (rank t) (hn ▸ hlt) hPt rfl)

end Leads

end StepRun
