import Mathlib.Logic.Function.Basic

/-!
# Threads that work in rounds

In every round a thread spawns a crew, one after the other, and joins all of them in
that order before the next round.  `Crew` says which threads there are and which of them
are known to have returned, by round and number; a thread that moves or is spawned
keeps it, and so does the next round.
-/

namespace Crews

/-- What others see of a thread. -/
inductive Status (ε : Type) where
  | absent
  | running
  | returned
  | failed (e : ε)

variable {ε : Type}

/-- In round `round` there are `spawned` threads, and `joined` of them were joined. -/
structure Crew (size : Nat → Nat) (round spawned joined : Nat)
    (status : Nat × Nat → Status ε) : Prop where
  present_iff : ∀ k i, status (k, i) ≠ .absent ↔ k < round ∧ i < size k ∨ k = round ∧ i < spawned
  past : ∀ k i, k < round → i < size k → status (k, i) = .returned
  returned : ∀ i, i < joined → status (round, i) = .returned

variable {size : Nat → Nat} {round spawned joined : Nat} {status status' : Nat × Nat → Status ε}

theorem crew_start : Crew size 0 0 0 (fun _ => .absent : Nat × Nat → Status ε) where
  present_iff := by simp
  past := fun k _ hk => absurd hk (Nat.not_lt_zero k)
  returned := fun i hi => absurd hi (Nat.not_lt_zero i)

namespace Crew

variable (h : Crew size round spawned joined status)
include h

theorem round_le {t : Nat × Nat} (ht : status t ≠ .absent) : t.1 ≤ round := by
  rcases (h.present_iff t.1 t.2).mp ht with ⟨hlt, -⟩ | ⟨heq, -⟩
  · exact Nat.le_of_lt hlt
  · exact Nat.le_of_eq heq

/-- Whoever is still running is of this round, and was not joined. -/
theorem running {t : Nat × Nat} (ht : status t = .running) :
    ∃ i, t = (round, i) ∧ joined ≤ i ∧ i < spawned := by
  have hpresent : status t ≠ .absent := by
    rw [ht]
    simp
  rcases (h.present_iff t.1 t.2).mp hpresent with ⟨hlt, hi⟩ | ⟨heq, hi⟩
  · have hret := h.past t.1 t.2 hlt hi
    rw [ht] at hret
    cases hret
  · refine ⟨t.2, by rw [← heq], ?_, hi⟩
    by_contra hj
    have hret := h.returned t.2 (Nat.lt_of_not_le hj)
    rw [← heq, ht] at hret
    cases hret

theorem spawn (hsize : status' (round, spawned) ≠ .absent)
    (hsame : ∀ t, t ≠ (round, spawned) → status' t = status t) (hjoined : joined ≤ spawned) :
    Crew size round (spawned + 1) joined status' where
  present_iff := by
    intro k i
    by_cases ht : (k, i) = (round, spawned)
    · obtain ⟨rfl, rfl⟩ := Prod.mk.inj ht
      simp [hsize]
    · rw [hsame _ ht, h.present_iff]
      have hne : k = round → i ≠ spawned := by
        rintro rfl rfl
        exact ht rfl
      omega
  past := by
    intro k i hk hi
    rw [hsame _ (by simp; omega)]
    exact h.past k i hk hi
  returned := by
    intro i hi
    rw [hsame _ (by simp; omega)]
    exact h.returned i hi

/-- A running thread makes a step. -/
theorem move {t : Nat × Nat} (ht : status t = .running) (ht' : status' t ≠ .absent)
    (hsame : ∀ u, u ≠ t → status' u = status u) : Crew size round spawned joined status' where
  present_iff := by
    intro k i
    by_cases hki : (k, i) = t
    · subst hki
      rw [← h.present_iff, ht]
      simp [ht']
    · rw [hsame _ hki, h.present_iff]
  past := by
    intro k i hk hi
    have hret := h.past k i hk hi
    rw [hsame _ (fun he => by rw [he, ht] at hret; cases hret), hret]
  returned := by
    intro i hi
    have hret := h.returned i hi
    rw [hsame _ (fun he => by rw [he, ht] at hret; cases hret), hret]

/-- **The next round** begins with everybody joined. -/
theorem next (hspawned : spawned = size round) (hjoined : joined = size round) :
    Crew size (round + 1) 0 0 status where
  present_iff := by
    intro k i
    rw [h.present_iff, hspawned]
    constructor
    · rintro (⟨hk, hi⟩ | ⟨rfl, hi⟩)
      · exact Or.inl ⟨by omega, hi⟩
      · exact Or.inl ⟨by omega, hi⟩
    · rintro (⟨hk, hi⟩ | ⟨-, hi⟩)
      · rcases Nat.lt_succ_iff_lt_or_eq.mp hk with hlt | rfl
        · exact Or.inl ⟨hlt, hi⟩
        · exact Or.inr ⟨rfl, hi⟩
      · exact absurd hi (Nat.not_lt_zero i)
  past := by
    intro k i hk hi
    rcases Nat.lt_succ_iff_lt_or_eq.mp hk with hlt | rfl
    · exact h.past k i hlt hi
    · exact h.returned i (hjoined ▸ hi)
  returned := fun i hi => absurd hi (Nat.not_lt_zero i)

end Crew

end Crews
