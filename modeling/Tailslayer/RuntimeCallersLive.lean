import Tailslayer.RuntimeCallersRun
import Tailslayer.RuntimeClose
import Tailslayer.RuntimeStages

/-!
# Every call returns

A thread that holds the lock returns its element and gives the lock back
(`call_chain`), by the stages of the single runtime.  So the lock is free again
and again, and a thread that is not kept from it for ever gets it
(`every_call_returns`).
-/

namespace Tailslayer

open Fair

variable {V : Type}

namespace Callers

open HedgedRuntime

/-- Whose action it is, of the callers. -/
def Action.caller : Action → Option Nat
  | .enter t _ | .lock t | .storeIndex t | .storeState t | .read t | .unlock t => some t
  | _ => none

/-- What the threads do on their own; nobody has to call, to drop or to fail. -/
def Action.Driven : Action → Prop
  | .enter _ _ | .spawnFails | .beginDrop => False
  | _ => True

/-- The action that thread `t` makes for an agent of the single runtime. -/
def actionBy (t : Nat) : Agent → Action
  | .reader => .read t
  | .indexStore => .storeIndex t
  | .stateStore => .storeState t
  | .worker w => .worker w
  | .owner => .drop

section
variable {c : Config V} {s s' : Callers V} {t : Nat}

/-- Nobody else moves a thread's call. -/
theorem calls_frame {a : Action} (hs : s.step c a = some s') (ha : a.caller ≠ some t) :
    s'.calls t = s.calls t := by
  have hother : ∀ {next : HedgedRuntime V → Option (HedgedRuntime V)},
      s.other next = some s' → s'.calls t = s.calls t := by
    intro next hs
    unfold other at hs
    split at hs
    · cases hs
    · cases hs
      rfl
  have haccess : ∀ {next : HedgedRuntime V → Option (HedgedRuntime V)} {u : Nat}, u ≠ t →
      s.access next u = some s' → s'.calls t = s.calls t := by
    intro next u hu hs
    unfold access at hs
    repeat' split at hs
    all_goals cases hs
    exact setCall_of_ne (Ne.symm hu)
  cases a with
  | enter u index =>
    have hu : t ≠ u := fun he => ha (he ▸ rfl)
    simp only [step, enter] at hs
    repeat' split at hs
    all_goals cases hs
    · rfl
    · exact setCall_of_ne hu
  | lock u =>
    have hu : t ≠ u := fun he => ha (he ▸ rfl)
    simp only [step, lock] at hs
    repeat' split at hs
    all_goals cases hs
    exact setCall_of_ne hu
  | unlock u =>
    have hu : t ≠ u := fun he => ha (he ▸ rfl)
    simp only [step, unlock] at hs
    split at hs
    all_goals cases hs
    exact setCall_of_ne hu
  | storeIndex u => exact haccess (fun he => ha (he ▸ rfl)) hs
  | storeState u => exact haccess (fun he => ha (he ▸ rfl)) hs
  | read u => exact haccess (fun he => ha (he ▸ rfl)) hs
  | new => exact hother hs
  | spawnFails => exact hother hs
  | unwind => exact hother hs
  | worker w => exact @hother (fun runtime => runtime.workerStep c w) hs
  | drop => exact hother hs
  | beginDrop =>
    simp only [step, beginDrop] at hs
    split at hs
    · exact hother hs
    · cases hs

/-- The lock stays with a call that is still reading. -/
theorem CallersInv.holder_stays (h : CallersInv c s) (hholder : s.holder = some t)
    (hreading : s.single.reader ≠ .idle) {a : Action} (hs : s.step c a = some s') :
    s'.holder = some t := by
  cases a with
  | enter u index =>
    simp only [Callers.step, Callers.enter] at hs
    repeat' split at hs
    all_goals cases hs <;> exact hholder
  | lock u =>
    simp only [Callers.step, Callers.lock, hholder] at hs
    split at hs
    · cases hs
    · cases hs
  | unlock u =>
    obtain ⟨-, -, result, hpc, -⟩ := h.unlock hs
    have hu : s.holder = some u := (h.holds u).mp (by rw [hpc]; trivial)
    rw [single_of_held (held_of_holder hu), hpc] at hreading
    exact absurd rfl hreading
  | storeIndex u => exact (h.access callAccess_storeIndex hs).2.2.1.trans hholder
  | storeState u => exact (h.access callAccess_storeState hs).2.2.1.trans hholder
  | read u => exact (h.access callAccess_readStep hs).2.2.1.trans hholder
  | new => exact (h.other (otherAccess_newStep c) hs).2.2.1.trans hholder
  | spawnFails => exact (h.other (otherAccess_spawnFails c) hs).2.2.1.trans hholder
  | unwind => exact (h.other otherAccess_unwind hs).2.2.1.trans hholder
  | worker w => exact (h.other (otherAccess_worker c w) hs).2.2.1.trans hholder
  | drop => exact (h.other (otherAccess_dropStep c) hs).2.2.1.trans hholder
  | beginDrop => exact (h.beginDrop hs).2.2.1.trans hholder

/-! ## From the lock to the return -/

/-- What every moment of a run has. -/
structure Sound (c : Config V) (s : Callers V) : Prop where
  callers : CallersInv c s
  single : Inv c s.single
  staffed : Staffed c s.single

/-- The call of thread `t` for `i`, past the lock. -/
inductive CallStage (c : Config V) (i w t : Nat) (s : Callers V) : Action → Nat → Prop where
  | reading (k : Agent) (n : Nat) (hholder : s.holder = some t)
      (hstage : ReadStage c i w s.single k n) : CallStage c i w t s (actionBy t k) (n + 1)
  | unlocking (result : ReadResult V) (hpc : s.calls t = .unlocking result)
      (hindex : result.index = i) : CallStage c i w t s (.unlock t) 0

theorem asked_of_stage {s : HedgedRuntime V} {i w n : Nat} {k : Agent}
    (h : ReadStage c i w s k n) : s.reader.asked = [i] := by
  cases h with
  | locked hpc => rw [hpc]; rfl
  | publishing r a b hpc => rw [hpc]; rfl
  | pinning r hpoll => rcases hpoll with hp | hp <;> (rw [hp]; rfl)
  | serving r v hun => rcases hun.polling with hp | hp <;> (rw [hp]; rfl)
  | answered r hc =>
    cases hp : s.reader with
    | idle | locked | publishing =>
      rw [hp] at hc
      cases hc
    | _ =>
      rw [hp] at hc
      cases hc
      rfl

/-- A call that has the lock and is not reading any more has its result. -/
theorem CallersInv.unlocking_of_idle (h : CallersInv c s) (hholder : s.holder = some t)
    (hidle : s.single.reader = .idle) : ∃ result, s.calls t = .unlocking result := by
  have hheld := held_of_holder hholder
  have hholds := (h.holds t).mpr hholder
  rw [single_of_held hheld] at hidle
  cases hpc : s.calls t with
  | outside | locking =>
    rw [hpc] at hholds
    exact hholds.elim
  | reading pc =>
    rw [hpc] at hidle
    change pc = .idle at hidle
    exact absurd (hidle ▸ hpc) (h.busy t)
  | unlocking result => exact ⟨result, rfl⟩

/-- An action of the single runtime that thread `t` makes is made for its agent. -/
theorem absorb_actionBy (k : Agent) : s.absorb c (actionBy t k) = some k.action := by
  cases k <;> rfl

theorem read_of_absorb {a : Action} (h : s.absorb c a = some .read) : ∃ u, a = .read u := by
  cases a with
  | read u => exact ⟨u, rfl⟩
  | enter u index =>
    simp only [absorb] at h
    split at h <;> cases h
  | lock u =>
    simp only [absorb] at h
    split at h <;> cases h
  | _ => cases h

theorem CallersInv.asked_of_reading (h : CallersInv c s) (hholder : s.holder = some t)
    (hreading : s.single.reader ≠ .idle) : (s.calls t).asked = s.single.reader.asked := by
  have hheld := single_of_held (held_of_holder hholder)
  have hholds := (h.holds t).mpr hholder
  rw [hheld] at hreading ⊢
  cases hpc : s.calls t with
  | outside | locking =>
    rw [hpc] at hholds
    exact hholds.elim
  | reading pc => rfl
  | unlocking result =>
    rw [hpc] at hreading
    exact absurd rfl hreading

/-- With its result a thread can only unlock. -/
theorem own_action_of_unlocking {result : ReadResult V} (hpc : s.calls t = .unlocking result)
    {a : Action} (ha : a.caller = some t) (hs : s.step c a = some s') : a = .unlock t := by
  cases a with
  | unlock u =>
    cases ha
    rfl
  | enter u | lock u | storeIndex u | storeState u | read u =>
    cases ha
    simp [Callers.step, Callers.enter, Callers.lock, Callers.access, hpc] at hs
  | _ => cases ha

/-- A thread that asks for the lock can only take it. -/
theorem own_action_of_locking {i : Nat} (hpc : s.calls t = .locking i) {a : Action}
    (ha : a.caller = some t) (hs : s.step c a = some s') : a = .lock t := by
  cases a with
  | lock u =>
    cases ha
    rfl
  | enter u | unlock u | storeIndex u | storeState u | read u =>
    cases ha
    simp [Callers.step, Callers.enter, Callers.unlock, Callers.access, hpc] at hs
  | _ => cases ha

/-- **One step of a call past the lock.** -/
theorem CallStage.step {i w : Nat} (hpins : c.Pins w) (h : Sound c s) (h' : Sound c s')
    {b : Action} {n : Nat} (hstage : CallStage c i w t s b n) {a : Action}
    (hs : s.step c a = some s') :
    (a = .unlock t ∧ ∃ result, s.calls t = .unlocking result ∧ result.index = i ∧
      s'.log = s.log ++ [(t, result)]) ∨
    (∃ b' n', n' < n ∧ CallStage c i w t s' b' n') ∨ a ≠ b ∧ CallStage c i w t s' b n := by
  cases hstage with
  | reading k n hholder hstage =>
    have hholder' := h.callers.holder_stays hholder hstage.busy hs
    obtain ⟨-, hmoves, hhistory⟩ := h.callers.step hs
    have hheld := single_of_held (held_of_holder hholder)
    cases habs : s.absorb c a with
    | none =>
      rw [habs] at hmoves
      change s'.single = s.single at hmoves
      refine Or.inr (Or.inr ⟨?_, .reading k n hholder' (hmoves ▸ hstage)⟩)
      rintro rfl
      rw [absorb_actionBy] at habs
      cases habs
    | some a' =>
      rw [habs] at hmoves
      rcases hstage.step h.single h'.single h.staffed hpins hmoves with
        ⟨rfl, hreturn⟩ | ⟨k', n', hlt, hnext⟩ | ⟨hno, hstay⟩
      · obtain ⟨result, hpc⟩ := h'.callers.unlocking_of_idle hholder' hreturn.1
        refine Or.inr (Or.inl ⟨_, 0, Nat.succ_pos n, .unlocking result hpc ?_⟩)
        obtain ⟨u, rfl⟩ := read_of_absorb habs
        have hasked := (h.callers.access callAccess_readStep hs).2.2.2.2 t
        rw [hpc, h.callers.asked_of_reading hholder hstage.busy, asked_of_stage hstage] at hasked
        exact List.singleton_inj.mp hasked
      · exact Or.inr (Or.inl ⟨_, n' + 1, by omega, .reading k' n' hholder' hnext⟩)
      · refine Or.inr (Or.inr ⟨?_, .reading k n hholder' hstay⟩)
        rintro rfl
        rw [absorb_actionBy] at habs
        exact hno (Option.some.inj habs).symm
  | unlocking result hpc hindex =>
    by_cases hcaller : a.caller = some t
    · rcases own_action_of_unlocking hpc hcaller hs with rfl
      obtain ⟨-, -, result', hpc', hlog, -⟩ := h.callers.unlock hs
      rw [hpc] at hpc'
      cases hpc'
      exact Or.inl ⟨rfl, result, hpc, hindex, hlog⟩
    · refine Or.inr (Or.inr ⟨?_, .unlocking result ((calls_frame hs hcaller).trans hpc) hindex⟩)
      rintro rfl
      exact hcaller rfl

/-- The action that a call past the lock needs can be made. -/
theorem CallStage.enabled {i w : Nat} (hpins : c.Pins w) (h : Sound c s) {b : Action} {n : Nat}
    (hstage : CallStage c i w t s b n) : Enabled (Callers.step c) {b} s := by
  refine ⟨b, rfl, ?_⟩
  cases hstage with
  | unlocking result hpc =>
    simp [Callers.step, Callers.unlock, hpc]
  | reading k n hholder hstage =>
    obtain ⟨a, rfl, u, hu⟩ := hstage.enabled h.staffed hpins
    have hheld := held_of_holder hholder
    have hsingle := single_of_held hheld
    have hholds := (h.callers.holds t).mpr hholder
    obtain ⟨pc, hpc⟩ : ∃ pc, s.calls t = .reading pc := by
      have hbusy := hstage.busy
      rw [hsingle] at hbusy
      cases hpc : s.calls t with
      | outside | locking =>
        rw [hpc] at hholds
        exact hholds.elim
      | reading pc => exact ⟨pc, rfl⟩
      | unlocking result =>
        rw [hpc] at hbusy
        exact absurd rfl hbusy
    rw [hpc] at hsingle
    have haccess : ∀ {next : HedgedRuntime V → Option (HedgedRuntime V)},
        next s.single = some u → ∃ s', s.access next t = some s' := by
      intro next hnext
      rw [hsingle] at hnext
      change next { s.runtime with reader := pc } = some u at hnext
      simp [Callers.access, hpc, hnext]
    cases k with
    | reader => exact haccess hu
    | indexStore => exact haccess hu
    | stateStore => exact haccess hu
    | owner =>
      have hserve := (h.single.serving_of_busy hstage.busy).1
      simp [Agent.action, HedgedRuntime.step, HedgedRuntime.dropStep, hserve] at hu
    | worker v =>
      change s.single.workerStep c v = some u at hu
      rw [hsingle, (otherAccess_worker c v).reader, Option.map_eq_some_iff] at hu
      obtain ⟨runtime, hrun, -⟩ := hu
      exact ⟨{ s with runtime := runtime },
        by simp [actionBy, Callers.step, Callers.other, hrun]⟩

/-- A call past the lock is at one of the stages. -/
theorem CallStage.of_holder {w : Nat} (hpins : c.Pins w) (h : Sound c s)
    (hholder : s.holder = some t) : ∃ i b n, CallStage c i w t s b n := by
  by_cases hidle : s.single.reader = .idle
  · obtain ⟨result, hpc⟩ := h.callers.unlocking_of_idle hholder hidle
    exact ⟨result.index, _, 0, .unlocking result hpc rfl⟩
  · obtain ⟨i, k, n, hstage⟩ := ReadStage.of_busy h.single h.staffed hpins hidle
    exact ⟨i, _, n + 1, .reading k n hholder hstage⟩

theorem CallStage.driven {i w n : Nat} {b : Action} (h : CallStage c i w t s b n) : b.Driven := by
  cases h with
  | unlocking => trivial
  | reading k => cases k <;> trivial

theorem Sound.step (h : Sound c s) {a : Action} (hs : s.step c a = some s')
    (hfew : s'.entered < 2 ^ 62) : Sound c s' := by
  obtain ⟨hcallers, hmoves, -⟩ := h.callers.step hs
  have hreads := hcallers.reads_le
  cases habs : s.absorb c a with
  | none =>
    rw [habs] at hmoves
    change s'.single = s.single at hmoves
    exact ⟨hcallers, hmoves ▸ h.single, hmoves ▸ h.staffed⟩
  | some a' =>
    rw [habs] at hmoves
    exact ⟨hcallers, h.single.step (by omega) hmoves, h.staffed.step hmoves⟩

theorem Sound.reaches {acts : List Action} (hr : Reaches c acts s) (hfew : s.entered < 2 ^ 62) :
    Sound c s := by
  obtain ⟨h, ⟨acts', hr'⟩, -⟩ := refines_single hr
  exact ⟨h, h.single_inv hr' hfew, Staffed.reaches hr'⟩

/-- The stages of a call past the lock, as long as there were fewer than `2 ^ 62` calls. -/
theorem call_chain {i w : Nat} (hpins : c.Pins w) : Chain (Callers.step c)
    (fun b : {b : Action // b.Driven} => {b.1})
    (fun s a s' => (a = .unlock t ∧ ∃ result, s.calls t = .unlocking result ∧ result.index = i ∧
      s'.log = s.log ++ [(t, result)]) ∨ 2 ^ 62 ≤ s'.entered)
    (fun b n s => Sound c s ∧ CallStage c i w t s b.1 n) where
  enabled := fun b n s hat => hat.2.enabled hpins hat.1
  step := by
    rintro b n s a s' ⟨h, hstage⟩ hs
    by_cases hfew : s'.entered < 2 ^ 62
    · have h' := h.step hs hfew
      rcases hstage.step hpins h h' hs with hgoal | ⟨b', n', hlt, hnext⟩ | ⟨hne, hstay⟩
      · exact Or.inl (Or.inl hgoal)
      · exact Or.inr (Or.inl ⟨⟨b', hnext.driven⟩, n', hlt, h', hnext⟩)
      · exact Or.inr (Or.inr ⟨hne, h', hstay⟩)
    · exact Or.inl (Or.inr (Nat.le_of_not_lt hfew))

theorem CallStage.inside {i w n : Nat} {b : Action} (h : CallStage c i w t s b n)
    (hinv : CallersInv c s) : s.calls t ≠ .outside := by
  cases h with
  | unlocking result hpc => simp [hpc]
  | reading k n hholder =>
    intro hout
    have hholds := (hinv.holds t).mpr hholder
    rw [hout] at hholds
    exact hholds

end

/-! ## Paths -/

/-- Everybody is scheduled, and nobody is kept from the lock for ever. -/
structure FairPath (c : Config V) (p : Path (step c)) : Prop where
  start : ∃ s₀, HedgedRuntime.new c = some (.ok s₀) ∧ p.state 0 = start s₀
  driven : ∀ a : Action, a.Driven → p.WeaklyFair {a}
  lock : ∀ t, p.StronglyFair {.lock t}

section
variable {c : Config V}

/-- Until it gets the lock a thread keeps asking for it. -/
theorem keeps_locking (p : Path (step c)) {n t i : Nat} (hpc : (p.state n).calls t = .locking i) :
    ∀ m, n ≤ m → (∀ j, n ≤ j → j < m → p.act j ≠ some (.lock t)) →
      (p.state m).calls t = .locking i := by
  intro m hnm
  induction hnm with
  | refl => exact fun _ => hpc
  | @step m hnm ih =>
    intro hno
    have hm := ih fun j hnj hj => hno j hnj (by omega)
    cases ha : p.act m with
    | none =>
      rw [p.state_of_none ha]
      exact hm
    | some a =>
      by_cases hcaller : a.caller = some t
      · have hlock := own_action_of_locking hm hcaller (p.step_of_some ha)
        rw [hlock] at ha
        exact absurd ha (hno m hnm (by omega))
      · rw [calls_frame (p.step_of_some ha) hcaller]
        exact hm

variable {p : Path (step c)} (hp : FairPath c p) {w : Nat} (hpins : c.Pins w)
include hp

theorem FairPath.sound {n : Nat} (hfew : (p.state n).entered < 2 ^ 62) : Sound c (p.state n) := by
  obtain ⟨s₀, h0, hstart⟩ := hp.start
  exact Sound.reaches ⟨s₀, h0, hstart ▸ p.run_acts n⟩ hfew

include hpins

/-- A thread that has the lock returns. -/
theorem FairPath.holder_returns {n t i : Nat} {b : Action} {r : Nat}
    (hfew : (p.state n).entered < 2 ^ 62) (hstage : CallStage c i w t (p.state n) b r) :
    ∃ m, n ≤ m ∧ (2 ^ 62 ≤ (p.state (m + 1)).entered ∨ p.act m = some (.unlock t) ∧
      ∃ result, result.index = i ∧ (p.state m).calls t = .unlocking result ∧
        (p.state (m + 1)).log = (p.state m).log ++ [(t, result)]) ∧
      ∀ j, n ≤ j → j ≤ m → (p.state j).calls t ≠ .outside := by
  obtain ⟨m, a, hnm, ha, hgoal, hon⟩ := (call_chain (t := t) (i := i) hpins).reaches_goal p
    (fun b _ _ _ => hp.driven b.1 b.2) (k := ⟨b, hstage.driven⟩) ⟨hp.sound hfew, hstage⟩
  refine ⟨m, hnm, ?_, fun j hnj hj => ?_⟩
  · rcases hgoal with ⟨rfl, result, hpc, hindex, hlog⟩ | hmany
    · exact Or.inr ⟨ha, result, hindex, hpc, hlog⟩
    · exact Or.inl hmany
  · obtain ⟨k, r, hsound, hat⟩ := hon j hnj hj
    exact hat.inside hsound.callers

/-- A thread gets the lock that it asks for. -/
theorem FairPath.gets_lock {n t i : Nat} (hfew : ∀ m, n ≤ m → (p.state m).entered < 2 ^ 62)
    (hpc : (p.state n).calls t = .locking i) : ∃ m, n ≤ m ∧ p.act m = some (.lock t) ∧
      ∀ j, n ≤ j → j ≤ m → (p.state j).calls t = .locking i := by
  classical
  have htaken : ∃ m, n ≤ m ∧ p.act m = some (.lock t) := by
    by_contra hnever
    have hlocking : ∀ m, n ≤ m → (p.state m).calls t = .locking i := fun m hnm =>
      keeps_locking p hpc m hnm fun j hnj _ hj => hnever ⟨j, hnj, hj⟩
    have hfree : ∀ m, n ≤ m → (p.state m).holder = none →
        Enabled (step c) {.lock t} (p.state m) := by
      intro m hnm hnone
      refine ⟨.lock t, rfl, ?_⟩
      simp [Callers.step, Callers.lock, hlocking m hnm, hnone]
    obtain ⟨m, hnm, a, hmem, ha⟩ := hp.lock t n fun m hnm => by
      cases hh : (p.state m).holder with
      | none => exact ⟨m, Nat.le_refl m, hfree m hnm hh⟩
      | some u =>
        -- whoever has the lock gives it back
        obtain ⟨i', b, r, hstage⟩ := CallStage.of_holder hpins (hp.sound (hfew m hnm)) hh
        obtain ⟨m', hmm', hend, -⟩ := hp.holder_returns hpins (hfew m hnm) hstage
        rcases hend with hmany | ⟨hact, -⟩
        · have := hfew (m' + 1) (by omega)
          omega
        · obtain ⟨-, -, -, -, -, -, -, hnone⟩ :=
            (hp.sound (hfew m' (by omega))).callers.unlock (p.step_of_some hact)
          exact ⟨m' + 1, by omega, hfree _ (by omega) hnone⟩
    rw [Set.mem_singleton_iff.mp hmem] at ha
    exact hnever ⟨m, hnm, ha⟩
  obtain ⟨hn, hact⟩ := Nat.find_spec htaken
  refine ⟨Nat.find htaken, hn, hact, fun j hnj hj => keeps_locking p hpc j hnj ?_⟩
  intro k hnk hk hlock
  exact Nat.find_min htaken (by omega) ⟨hnk, hlock⟩

end

/-- **Every call returns.**  On a path on which every thread is scheduled and none
is kept from the lock for ever, a thread that calls `read` gets the element it
asked for, if all CPU ids can be pinned to: whatever the other callers do, unless they
call `2 ^ 62` times. -/
theorem every_call_returns (c : Config V) (xs : List V) (hb : c.buffer.Holds xs)
    (hpos : 0 < c.buffer.replicas) (hpin : c.Pinnable) (p : Path (step c)) (hp : FairPath c p)
    (n t i : Nat) (hpc : (p.state n).calls t = .locking i) :
    (∃ m, n ≤ m ∧ 2 ^ 62 ≤ (p.state m).entered) ∨
    ∃ m result, n ≤ m ∧ p.act m = some (.unlock t) ∧ result.index = i ∧ Served xs result ∧
      (p.state (m + 1)).log = (p.state m).log ++ [(t, result)] ∧
      ∀ j, n ≤ j → j ≤ m → (p.state j).calls t ≠ .outside := by
  have hpins : c.Pins 0 := hpin.pins hpos
  by_cases hmany : ∃ m, n ≤ m ∧ 2 ^ 62 ≤ (p.state m).entered
  · exact Or.inl hmany
  have hfew : ∀ m, n ≤ m → (p.state m).entered < 2 ^ 62 := by
    intro m hnm
    by_contra hge
    exact hmany ⟨m, hnm, Nat.le_of_not_lt hge⟩
  obtain ⟨k, hnk, hlock, hbefore⟩ := hp.gets_lock hpins hfew hpc
  obtain ⟨hholder, hreading⟩ : (p.state (k + 1)).holder = some t ∧
      (p.state (k + 1)).calls t = .reading (.locked i) := by
    have hs := p.step_of_some hlock
    simp only [Callers.step, Callers.lock, hbefore k hnk (Nat.le_refl k)] at hs
    split at hs
    · rw [← Option.some.inj hs]
      exact ⟨rfl, setCall_self⟩
    · cases hs
  have hreader : (p.state (k + 1)).single.reader = .locked i := by
    rw [single_of_held (held_of_holder hholder), hreading]
    rfl
  obtain ⟨m, hkm, hend, hinside⟩ := hp.holder_returns hpins (hfew (k + 1) (by omega))
    (.reading (w := 0) .reader 27 hholder (.locked hreader))
  rcases hend with hmany' | ⟨hact, result, hindex, hresult, hlog⟩
  · exact absurd ⟨m + 1, by omega, hmany'⟩ hmany
  · have hsound := hp.sound (hfew m (by omega))
    have hheld := held_of_holder ((hsound.callers.holds t).mp (by rw [hresult]; trivial))
    have hmem : result ∈ (p.state m).runtime.returned := by
      refine hsound.callers.results.mem_iff.mpr (List.mem_append_right _ ?_)
      rw [hheld, hresult]
      exact List.mem_singleton.mpr rfl
    refine Or.inr ⟨m, result, by omega, hact, hindex,
      served_of_returnOk hb (hsound.single.returned result hmem), hlog, fun j hnj hj => ?_⟩
    by_cases hjk : j ≤ k
    · rw [hbefore j hnj hjk]
      simp
    · exact hinside j (by omega) hj

/-- Nobody can move once the runtime was dropped. -/
theorem Sound.nothing_after {c : Config V} {s : Callers V} (h : Sound c s)
    (ho : s.runtime.owner = .dropped) (a : Action) : s.step c a = none := by
  have hno : s.runtime.owner ≠ .serving := by simp [ho]
  have hout : ∀ t, s.calls t = .outside := by
    intro t
    by_contra hin
    exact hno (h.callers.serving t hin)
  cases hs : s.step c a with
  | none => rfl
  | some s' =>
    have hmoves := (h.callers.step hs).2.1
    cases habs : s.absorb c a with
    | some a' =>
      rw [habs] at hmoves
      change s.single.step c a' = some s'.single at hmoves
      rw [h.single.nothing_after ho a'] at hmoves
      cases hmoves
    | none =>
      cases a with
      | enter t index =>
        change s.enter c t index = some s' at hs
        simp [Callers.enter, hout t, hno] at hs
      | lock t =>
        change s.lock t = some s' at hs
        simp [Callers.lock, hout t] at hs
      | unlock t =>
        change s.unlock t = some s' at hs
        simp [Callers.unlock, hout t] at hs
      | _ => cases habs

/-- Thread 0 has called `read(1)`. -/
def called : List Action := [.new, .new, .new, .worker 0, .enter 0 1]

/-- It is served and returns, and then the runtime is dropped. -/
def servedAndDropped : List Action :=
  [.lock 0, .read 0, .storeState 0, .storeIndex 0, .read 0] ++ List.replicate 9 (.worker 0) ++
    List.replicate 4 (.read 0) ++ [.unlock 0, .beginDrop, .drop, .worker 0, .worker 1, .worker 1] ++
    List.replicate 3 .drop

/-- The path of this run is fair, so the call returns on it. -/
theorem every_call_returns_byte : ∃ p : Path (step twoBytes),
    (∃ m, 5 ≤ m ∧ 2 ^ 62 ≤ (p.state m).entered) ∨
    ∃ m result, 5 ≤ m ∧ p.act m = some (.unlock 0) ∧ result.index = 1 ∧ Served [7, 8] result ∧
      (p.state (m + 1)).log = (p.state m).log ++ [(0, result)] ∧
      ∀ j, 5 ≤ j → j ≤ m → (p.state j).calls 0 ≠ .outside := by
  have hrun : ∃ s e, StepRun.run (step twoBytes) (start unspawned) called = some s ∧
      StepRun.run (step twoBytes) s servedAndDropped = some e ∧
      s.calls 0 = .locking 1 ∧ e.runtime.owner = .dropped ∧ e.entered < 2 ^ 62 :=
    ⟨_, _, rfl, rfl, rfl, rfl, by decide⟩
  obtain ⟨s, e, hcalled, hserved, hpc, ho, hfew⟩ := hrun
  have hall : Reaches twoBytes (called ++ servedAndDropped) e :=
    ⟨_, rfl, (StepRun.run_append hcalled _).trans hserved⟩
  obtain ⟨p, hstart, hmid, hfair⟩ :=
    exists_ending hcalled hserved ((Sound.reaches hall hfew).nothing_after ho)
  change p.state 5 = s at hmid
  exact ⟨p, every_call_returns twoBytes [7, 8] twoBytes_holds (by decide)
    (fun _ hp => (by cases hp)) p ⟨⟨_, rfl, hstart⟩, fun a _ => (hfair _).1,
      fun t => (hfair _).2⟩ 5 0 1 (hmid ▸ hpc)⟩

end Callers

end Tailslayer
