/-!
# Loops that return

`loop body fuel s` is `loop { .. }` around a body that either goes on with a new
state or returns.  What the body keeps until it returns is known of the result
(`loop_post`); a rank that every further round lowers is enough fuel
(`loop_returns`).
-/

namespace Loop

/-- How one round ends. -/
inductive Flow (σ ρ : Type) where
  | next (s : σ)
  | done (r : ρ)

variable {σ ρ : Type} (body : σ → Flow σ ρ)

/-- At most `fuel` rounds; `none` if none of them returned. -/
def loop : Nat → σ → Option ρ
  | 0, _ => none
  | fuel + 1, s =>
    match body s with
    | .next s' => loop fuel s'
    | .done r => some r

variable {body}

theorem loop_next {s s' : σ} (h : body s = .next s') (fuel : Nat) :
    loop body (fuel + 1) s = loop body fuel s' := by
  simp only [loop, h]

theorem loop_done {s : σ} {r : ρ} (h : body s = .done r) (fuel : Nat) :
    loop body (fuel + 1) s = some r := by
  simp only [loop, h]

/-- What every round keeps holds where the loop returns. -/
theorem loop_post (Inv : σ → Prop) (Post : ρ → Prop)
    (hnext : ∀ s s', Inv s → body s = .next s' → Inv s')
    (hdone : ∀ s r, Inv s → body s = .done r → Post r) :
    ∀ {fuel : Nat} {s : σ} {r : ρ}, Inv s → loop body fuel s = some r → Post r := by
  intro fuel
  induction fuel with
  | zero =>
    intro s r _ h
    cases h
  | succ fuel ih =>
    intro s r hs h
    cases hb : body s with
    | next s' =>
      rw [loop_next hb] at h
      exact ih (hnext s s' hs hb) h
    | done r' =>
      rw [loop_done hb] at h
      cases h
      exact hdone s r hs hb

/-- The loop returns within as many rounds as its rank allows. -/
theorem loop_returns (Inv : σ → Prop) (rank : σ → Nat)
    (hnext : ∀ s s', Inv s → body s = .next s' → Inv s' ∧ rank s' < rank s) :
    ∀ {fuel : Nat} {s : σ}, Inv s → rank s < fuel → ∃ r, loop body fuel s = some r := by
  intro fuel
  induction fuel with
  | zero =>
    intro s _ hlt
    exact absurd hlt (Nat.not_lt_zero _)
  | succ fuel ih =>
    intro s hs hlt
    cases hb : body s with
    | next s' =>
      obtain ⟨hs', hrank⟩ := hnext s s' hs hb
      rw [loop_next hb]
      exact ih hs' (by omega)
    | done r => exact ⟨r, loop_done hb fuel⟩

end Loop
