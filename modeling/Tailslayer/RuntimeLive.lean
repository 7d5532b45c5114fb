import Tailslayer.RuntimeStages

/-!
# A read returns

On a fair path every thread that can move does so again, and a store does not
stay invisible.  Then a read that has got the lock returns its element if all CPU
ids can be pinned to.  If one of them cannot, its worker aborts the process.
-/

namespace Tailslayer

open Fair Word

variable {V : Type}

namespace HedgedRuntime

section
variable {c : Config V} {s s' : HedgedRuntime V}

/-- A worker with an id that no set can name stays where it is pinned. -/
theorem Staffed.aborts_at {w cpu : Nat} (h : Staffed c s) (hid : cpuOf c w = some (some cpu))
    (hcpu : 1024 ≤ cpu) (hpc : (s.workers w).pc ≠ .unspawned) :
    aborts c s (.worker w) = true := by
  have hat := h.spawn.workers w
  have hown := hat.cpu_eq.resolve_left hpc
  rw [hid, Option.some_inj] at hown
  have hpin := (hat.pinned.resolve_left hpc).resolve_right fun hpast =>
    hpast cpu hown.symm ((pinToCpu_eq_none_iff c.host cpu).mpr hcpu)
  exact aborts_iff.mpr ⟨w, cpu, rfl, hpin, hown.symm, hcpu⟩

/-- The owner is not waited for. -/
theorem ReadStage.ne_owner {i w n : Nat} {k : Agent} (h : ReadStage c i w s k n) : k ≠ .owner := by
  cases h with
  | publishing r a b => cases a <;> cases b <;> simp [publisher]
  | _ => simp

end

/-- **A read returns.**  With ids that can be pinned to, every call that has got the lock
returns its element on every path that is fair to the call, its stores and the workers,
unless the runtime is called `2 ^ 62` times before.  With another id, every such path of
the process on which `new` has spawned its worker ends in an abort. -/
theorem read_returns_fairly (c : Config V) (hpos : 0 < c.buffer.replicas) :
    (c.Pinnable → ∀ p : Path (step c), new c = some (.ok (p.state 0)) →
      (∀ k : Agent, k ≠ .owner → p.WeaklyFair k.actions) →
      ∀ n i, (p.state n).reads < 2 ^ 62 → (p.state n).reader = .locked i →
      ∃ m a, n ≤ m ∧ p.act m = some a ∧
        (a = .read ∧ Returns c i (p.state m) (p.state (m + 1)) ∨
          2 ^ 62 ≤ (p.state (m + 1)).reads) ∧
        ∀ j, n ≤ j → j ≤ m → (p.state j).reader ≠ .idle) ∧
    ∀ w cpu, cpuOf c w = some (some cpu) → 1024 ≤ cpu → ∀ p : Path (process c), ∀ s₀,
      new c = some (.ok s₀) → p.state 0 = .running s₀ → p.WeaklyFair (Agent.worker w).actions →
      ∀ n s, p.state n = .running s → (s.workers w).pc ≠ .unspawned →
      ∃ m, n ≤ m ∧ p.state m = .aborted := by
  refine ⟨fun hpin p h0 hfair n i hfew hlock => ?_,
    fun w cpu hid hcpu p s₀ h0 hstart hfair n s hn hpc => ?_⟩
  · have hr : Reaches c (p.acts n) (p.state n) := ⟨_, h0, p.run_acts n⟩
    have hacts : FewReads (p.acts n) := by
      rw [reads_reaches hr] at hfew
      exact hfew
    obtain ⟨m, a, hnm, ha, hgoal, hon⟩ := (read_chain (hpin.pins hpos)).reaches_goal p
      (fun k _ _ hat => hfair k hat.2.ne_owner)
      ⟨⟨Inv.reaches hr hacts, Staffed.reaches hr⟩, ReadStage.locked hlock⟩
    refine ⟨m, a, hnm, ha, hgoal, fun j hnj hj => ?_⟩
    obtain ⟨k, r, -, hstage⟩ := hon j hnj hj
    exact hstage.busy
  · have hrun := p.run_acts n
    rw [hstart, hn] at hrun
    have hstaff : Staffed c s := Staffed.reaches ⟨s₀, h0, Process.run_running hrun⟩
    exact Process.aborts_fairly (P := fun s => Staffed c s ∧ (s.workers w).pc ≠ .unspawned)
      (fun s h => h.1.aborts_at hid hcpu h.2)
      (fun s a s' h hs => ⟨h.1.step hs, spawned_step hs h.2⟩) p hfair hn ⟨hstaff, hpc⟩

/-- Both workers are spawned and a read of `index` has the lock. -/
def lockedRead (index : Nat) : List Action := [.new, .new, .new, .call index]

/-- The read of a byte returns on some fair path; with an id that no set can name some
fair path aborts while such a read has the lock. -/
theorem read_returns_fairly_byte :
    (∃ p : Path (step twoBytes), ∃ m a, 4 ≤ m ∧ p.act m = some a ∧
      (a = .read ∧ Returns twoBytes 1 (p.state m) (p.state (m + 1)) ∨
        2 ^ 62 ≤ (p.state (m + 1)).reads) ∧
      ∀ j, 4 ≤ j → j ≤ m → (p.state j).reader ≠ .idle) ∧
    ∃ p : Path (process (twoBytesOn [0, 1024])), ∃ s m, p.state 4 = .running s ∧
      s.reader = .locked 1 ∧ 4 ≤ m ∧ p.state m = .aborted := by
  constructor
  · have hr : ∃ s, Reaches twoBytes (lockedRead 1) s ∧ s.reads < 2 ^ 62 ∧ s.reader = .locked 1 :=
      ⟨_, ⟨_, rfl, rfl⟩, by decide, rfl⟩
    obtain ⟨s, hr, hfew, hlock⟩ := hr
    obtain ⟨p, h0, hend, hfair⟩ := exists_fair_path hr
    change p.state 4 = s at hend
    exact ⟨p, (read_returns_fairly twoBytes (by decide)).1 (fun _ hp => (by cases hp)) p h0
      (fun k _ => hfair k) 4 1 (hend ▸ hfew) (hend ▸ hlock)⟩
  · have hr : ∃ s₀ s, new (twoBytesOn [0, 1024]) = some (.ok s₀) ∧
        StepRun.run (process (twoBytesOn [0, 1024])) (.running s₀) (lockedRead 1) =
          some (.running s) ∧ s.reader = .locked 1 ∧ (s.workers 1).pc ≠ .unspawned :=
      ⟨_, _, rfl, rfl, rfl, nofun⟩
    obtain ⟨s₀, s, h0, hrun, hlock, hpc⟩ := hr
    obtain ⟨p, hstart, hend, hfair⟩ := exists_fair (fun _ => Action.worker 1) hrun
    change p.state 4 = .running s at hend
    obtain ⟨m, hm, habort⟩ := (read_returns_fairly (twoBytesOn [0, 1024]) (by decide)).2 1 1024 rfl
      (by decide) p s₀ h0 hstart (hfair 0) 4 s hend hpc
    exact ⟨p, s, m, hend, hlock, hm, habort⟩

end HedgedRuntime

end Tailslayer
