import Tailslayer.RuntimeStaff

/-!
# From the lock to the return

`ReadStage` ranks the states of a read that has got the lock, and names the agent
that has to move next.  No worker lets go of a request, so it does not matter
which of them serves it: the rank falls whenever another one claims it first.
Every step goes on along the stages (`ReadStage.step`).
-/

namespace Tailslayer

open Fair Word

variable {V : Type}

/-- Accesses that an answered call still makes. -/
def ReadPc.left : ReadPc → Nat
  | .checkShutdown _ _ => 4
  | .checkWinner _ _ => 3
  | .beginRead _ _ => 2
  | .endRead _ _ => 1
  | _ => 0

namespace HedgedRuntime

/-! ## Stages -/

/-- Which agent a publishing call waits for. -/
def publisher : (indexStored stateStored : Bool) → Agent
  | false, _ => .indexStore
  | true, false => .stateStore
  | true, true => .reader

/-- The call for `i` that holds the lock, while worker `w` is at hand. -/
inductive ReadStage (c : Config V) (i w : Nat) (s : HedgedRuntime V) : Agent → Nat → Prop where
  | locked (hpc : s.reader = .locked i) : ReadStage c i w s .reader 27
  | publishing (r : Nat) (indexStored stateStored : Bool)
      (hpc : s.reader = .publishing i r indexStored stateStored) :
      ReadStage c i w s (publisher indexStored stateStored)
        (26 - indexStored.toNat - stateStored.toNat)
  | pinning (r : Nat) (hpoll : s.reader = .checkShutdown i r ∨ s.reader = .checkWinner i r)
      (hst : s.stage + 2 = 3 * r) (hpc : (s.workers w).pc = .pinning) :
      ReadStage c i w s (.worker w) 20
  | serving (r v : Nat) (h : Unclaimed c i r v s) :
      ReadStage c i w s (.worker v) (rank r (s.workers v).pc + 5)
  | answered (r : Nat) (hc : s.reader.current = some (i, r)) (hst : s.stage = 3 * r) :
      ReadStage c i w s .reader s.reader.left

/-- The call returns the element it was asked for. -/
def Returns (c : Config V) (i : Nat) (s s' : HedgedRuntime V) : Prop :=
  s'.reader = .idle ∧ ∃ writer value, c.Element i value ∧
    s'.returned = s.returned ++ [⟨i, .ok (.init writer value)⟩]

/-! ## What the steps of others do -/

section
variable {c : Config V} {s s' : HedgedRuntime V} (h : Inv c s)
include h

/-- Whoever moves while a call holds the lock. -/
theorem Inv.busy_cases (hbusy : s.reader ≠ .idle) {a : Action} (hs : s.step c a = some s') :
    a = .storeIndex ∨ a = .storeState ∨ a = .read ∨ (∃ u, a = .worker u) ∨
      s'.reader = s.reader ∧ s'.state = s.state ∧ s'.workers = s.workers ∧
        ∃ index, a = .call index := by
  have ho := (h.serving_of_busy hbusy).1
  cases a with
  | storeIndex => exact Or.inl rfl
  | storeState => exact Or.inr (Or.inl rfl)
  | read => exact Or.inr (Or.inr (Or.inl rfl))
  | worker u => exact Or.inr (Or.inr (Or.inr (Or.inl ⟨u, rfl⟩)))
  | call index =>
    simp only [HedgedRuntime.step, HedgedRuntime.call, if_neg hbusy] at hs
    repeat' split at hs
    all_goals cases hs
    exact Or.inr (Or.inr (Or.inr (Or.inr ⟨rfl, rfl, rfl, index, rfl⟩)))
  | new => simp [HedgedRuntime.step, HedgedRuntime.newStep, ho] at hs
  | spawnFails => simp [HedgedRuntime.step, HedgedRuntime.spawnFails, ho] at hs
  | unwind => simp [HedgedRuntime.step, HedgedRuntime.unwind, ho] at hs
  | beginDrop => simp [HedgedRuntime.step, HedgedRuntime.beginDrop, hbusy] at hs
  | drop => simp [HedgedRuntime.step, HedgedRuntime.dropStep, ho] at hs

/-- A `compare_exchange` succeeds only for the request that a read waits for. -/
theorem Inv.claim_current {u requestId : Nat} {value : V}
    (hpc : (s.workers u).pc = .claim requestId value)
    (hcas : s.state.winnerState = pending requestId) :
    s.stage + 2 = 3 * requestId ∧ ∃ i, s.reader.current = some (i, requestId) := by
  have hat := (h.workers u).at_pc
  have hle := (h.workers u).seen_le
  have hfits := h.next_fits
  have hpub : s.view.published ≤ s.nextRequestId - 1 := Nat.sub_le _ _
  rw [hpc] at hat
  rw [hat.1] at hle
  rw [h.winner_eq] at hcas
  have hst := (lastTag_eq_pending_iff hat.2.1 (by omega) h.stage_lt).mp hcas
  exact ⟨hst, h.pending_spec hle hst⟩

/-- A worker outside the section leaves the words alone, or claims the request. -/
theorem Inv.worker_claims {u : Nat} (hsec : ¬ InSection (s.workers u).pc)
    (hs : s.workerStep c u = some s') : s'.state = s.state ∨
      ∃ i r, s.reader.current = some (i, r) ∧ s.stage + 2 = 3 * r ∧ s'.stage + 1 = 3 * r ∧
        InSection (s'.workers u).pc := by
  rcases h.workerStep_state hsec hs with hstate | ⟨r, value, hpc, hcas⟩
  · exact Or.inl hstate
  · obtain ⟨hst, i, hc⟩ := h.claim_current hpc hcas
    obtain ⟨state, wk, hstep, rfl⟩ := workerStep_cases hs
    simp only [Worker.step, hpc, hcas, if_true] at hstep
    cases hstep
    refine Or.inr ⟨i, r, hc, hst, ?_, ?_⟩
    · simp [stage, HedgedRuntime.setWorker, SharedState.storeWinner] at hst ⊢
      omega
    · rw [setWorker_self]
      trivial

/-- A worker outside the section leaves a request alone that is not pending. -/
theorem Inv.worker_quiet_at {u i r : Nat} (hsec : ¬ InSection (s.workers u).pc)
    (hc : s.reader.current = some (i, r)) (hst : s.stage + 2 ≠ 3 * r)
    (hs : s.workerStep c u = some s') : s'.state = s.state := by
  rcases h.worker_claims hsec hs with hstate | ⟨i', r', hc', hst', -⟩
  · exact hstate
  · rw [hc] at hc'
    cases hc'
    exact absurd hst' hst

/-- A call that is not answered polls on. -/
theorem Inv.polls_on {i r : Nat} (hpoll : s.reader = .checkShutdown i r ∨
    s.reader = .checkWinner i r) (hst : s.stage ≠ 3 * r) (hs : s.readStep = some s') :
    (s'.reader = .checkShutdown i r ∨ s'.reader = .checkWinner i r) ∧ s'.state = s.state ∧
      s'.workers = s.workers := by
  have hup := (h.serving_of_busy (by rcases hpoll with hp | hp <;> simp [hp])).2.2
  rcases hpoll with hp | hp
  · simp only [HedgedRuntime.readStep, hp, hup] at hs
    cases hs
    exact ⟨Or.inr rfl, rfl, rfl⟩
  · have hcur : s.reader.current = some (i, r) := by
      rw [hp]
      rfl
    have hwait := (h.current_spec hcur).1
    have hne : s.state.winnerState ≠ ready r := by
      intro hready
      have hfits := h.next_fits
      have hnext := hwait.next_eq
      rw [h.winner_eq] at hready
      exact hst ((lastTag_eq_ready_iff (by omega) h.stage_lt).mp hready).2
    simp only [HedgedRuntime.readStep, hp, if_neg hne] at hs
    cases hs
    exact ⟨Or.inl rfl, rfl, rfl⟩

end

/-! ## Stage by stage -/

section
variable {c : Config V} {s s' : HedgedRuntime V} {i w : Nat}

/-- A read that polls for a pending request is at one of the stages. -/
theorem ReadStage.of_pending (h : Inv c s) (hstaff : Staffed c s) (hpins : c.Pins w) {r : Nat}
    (hpoll : s.reader = .checkShutdown i r ∨ s.reader = .checkWinner i r)
    (hst : s.stage + 2 = 3 * r) : ∃ k n, n ≤ 20 ∧ ReadStage c i w s k n := by
  have ho := (h.serving_of_busy (by rcases hpoll with hp | hp <;> simp [hp])).1
  rcases hstaff.at_hand hpins (ho ▸ trivial) with hpc | hentered
  · exact ⟨_, _, Nat.le_refl _, .pinning r hpoll hst hpc⟩
  · have hle := rank_le r (s.workers w).pc
    exact ⟨_, _, by omega, .serving r w ⟨h, hpoll, hentered, Or.inl hst⟩⟩

/-- A pending request is still four accesses of any worker away. -/
theorem Unclaimed.rank_pending {r v : Nat} (h : Unclaimed c i r v s)
    (hsec : ¬ InSection (s.workers v).pc) : 4 ≤ rank r (s.workers v).pc := by
  have hat := (h.inv.workers v).at_pc
  have hentered := h.entered
  cases hpc : (s.workers v).pc with
  | unspawned | pinning =>
    rw [hpc] at hentered
    exact hentered.elim
  | beginWrite | endWrite | publish =>
    rw [hpc] at hsec
    exact absurd trivial hsec
  | faulted =>
    rw [hpc] at hat
    exact hat.elim
  | ended =>
    rw [hpc] at hat
    have hup := h.up
    change s.state.shutdown = true at hat
    rw [hup] at hat
    cases hat
  | loopTop | loadId => simp [rank]
  | recheck | loadIndex | readMemory | claim =>
    simp only [rank]
    split <;> omega

/-- The worker that has just claimed the request serves it. -/
theorem ReadStage.of_claim (h : Inv c s) {r u : Nat}
    (hpoll : s.reader = .checkShutdown i r ∨ s.reader = .checkWinner i r)
    (hst : s.stage + 1 = 3 * r) (hsec : InSection (s.workers u).pc) :
    ∃ n, n ≤ 8 ∧ ReadStage c i w s (.worker u) n := by
  refine ⟨_, ?_, .serving r u ⟨h, hpoll, hsec.entered, Or.inr ⟨hst, hsec⟩⟩⟩
  cases hpc : (s.workers u).pc with
  | beginWrite | endWrite | publish => simp [rank]
  | _ =>
    rw [hpc] at hsec
    exact hsec.elim

/-- What a step may do at stage `k`, `n`. -/
def Onward (c : Config V) (i w : Nat) (k : Agent) (n : Nat) (a : Action) (s s' : HedgedRuntime V) :
    Prop :=
  (a = .read ∧ Returns c i s s') ∨ (∃ k' n', n' < n ∧ ReadStage c i w s' k' n') ∨
    a ∉ k.actions ∧ ReadStage c i w s' k n

section
variable (h : Inv c s) (h' : Inv c s')
include h h'

theorem ReadStage.locked_step {a : Action} (hs : s.step c a = some s')
    (hpc : s.reader = .locked i) : Onward c i w .reader 27 a s s' := by
  have hread : s'.reader = s.reader → a ≠ .read → Onward c i w .reader 27 a s s' :=
    fun heq hne => Or.inr (Or.inr ⟨hne, .locked (heq.trans hpc)⟩)
  rcases h.busy_cases (by simp [hpc]) hs with rfl | rfl | rfl | ⟨u, rfl⟩ | ⟨heq, -, -, index, rfl⟩
  · simp [HedgedRuntime.step, HedgedRuntime.storeIndex, hpc] at hs
  · simp [HedgedRuntime.step, HedgedRuntime.storeState, hpc] at hs
  · simp only [HedgedRuntime.step, readStep, hpc] at hs
    cases hs
    exact Or.inr (Or.inl ⟨_, 26, by omega, .publishing s.nextRequestId false false rfl⟩)
  · obtain ⟨state, wk, -, rfl⟩ := workerStep_cases hs
    exact hread rfl (by simp)
  · exact hread heq (by simp)

theorem ReadStage.publishing_step (hstaff : Staffed c s') (hpins : c.Pins w) {a : Action}
    (hs : s.step c a = some s') {r : Nat} {indexStored stateStored : Bool}
    (hpc : s.reader = .publishing i r indexStored stateStored) :
    Onward c i w (publisher indexStored stateStored)
      (26 - indexStored.toNat - stateStored.toNat) a s s' := by
  have hother : s'.reader = s.reader → a ∉ (publisher indexStored stateStored).actions →
      Onward c i w (publisher indexStored stateStored)
        (26 - indexStored.toNat - stateStored.toNat) a s s' :=
    fun heq hno => Or.inr (Or.inr ⟨hno, .publishing r _ _ (heq.trans hpc)⟩)
  have hlower : ∀ b b' : Bool, s'.reader = .publishing i r b b' →
      indexStored.toNat + stateStored.toNat < b.toNat + b'.toNat →
      Onward c i w (publisher indexStored stateStored)
        (26 - indexStored.toNat - stateStored.toNat) a s s' := by
    intro b b' hpc' hlt
    have := b.toNat_le
    have := b'.toNat_le
    exact Or.inr (Or.inl ⟨_, _, by omega, .publishing r b b' hpc'⟩)
  rcases h.busy_cases (by simp [hpc]) hs with rfl | rfl | rfl | ⟨u, rfl⟩ | ⟨heq, -, -, index, rfl⟩
  · cases indexStored with
    | true => simp [HedgedRuntime.step, HedgedRuntime.storeIndex, hpc] at hs
    | false =>
      simp only [HedgedRuntime.step, HedgedRuntime.storeIndex, hpc] at hs
      cases hs
      exact hlower true stateStored rfl (by simp)
  · cases stateStored with
    | true => simp [HedgedRuntime.step, HedgedRuntime.storeState, hpc] at hs
    | false =>
      simp only [HedgedRuntime.step, HedgedRuntime.storeState, hpc] at hs
      cases hs
      exact hlower indexStored true rfl (by simp)
  · simp only [HedgedRuntime.step, readStep, hpc] at hs
    split at hs
    · next hboth =>
      obtain ⟨rfl, rfl⟩ := Bool.and_eq_true_iff.mp hboth
      have hst : s.stage + 3 = 3 * r + 1 := by
        have hread := h.reader
        rw [hpc] at hread
        exact hread.2.2.2.2
      cases hs
      obtain ⟨k, n, hn, hstage⟩ := ReadStage.of_pending h' hstaff hpins (Or.inl rfl)
        (show s.stage + 2 = 3 * r by omega)
      exact Or.inr (Or.inl ⟨k, n, by simp; omega, hstage⟩)
    · cases hs
  · obtain ⟨state, wk, -, rfl⟩ := workerStep_cases hs
    refine hother rfl ?_
    cases indexStored <;> cases stateStored <;> simp [publisher, Agent.actions, Agent.action]
  · refine hother heq ?_
    cases indexStored <;> cases stateStored <;> simp [publisher, Agent.actions, Agent.action]

/-- While worker `w` is still pinning, another one may claim the request. -/
theorem ReadStage.pinning_step (hstaff : Staffed c s) (hpins : c.Pins w) {a : Action}
    (hs : s.step c a = some s') {r : Nat}
    (hpoll : s.reader = .checkShutdown i r ∨ s.reader = .checkWinner i r)
    (hst : s.stage + 2 = 3 * r) (hpc : (s.workers w).pc = .pinning) :
    Onward c i w (.worker w) 20 a s s' := by
  have hbusy : s.reader ≠ .idle := by rcases hpoll with hp | hp <;> simp [hp]
  have hcur : s.reader.current = some (i, r) := by
    rcases hpoll with hp | hp <;> (rw [hp]; rfl)
  have hstay : (s'.reader = .checkShutdown i r ∨ s'.reader = .checkWinner i r) →
      s'.state = s.state → s'.workers w = s.workers w → a ≠ .worker w →
      Onward c i w (.worker w) 20 a s s' := by
    intro hpoll' hstate hw hne
    refine Or.inr (Or.inr ⟨hne, .pinning r hpoll' ?_ (hw ▸ hpc)⟩)
    rw [stage, hstate]
    exact hst
  rcases h.busy_cases hbusy hs with rfl | rfl | rfl | ⟨u, rfl⟩ | ⟨heq, hstate, hw, index, rfl⟩
  · rcases hpoll with hp | hp <;> simp [HedgedRuntime.step, HedgedRuntime.storeIndex, hp] at hs
  · rcases hpoll with hp | hp <;> simp [HedgedRuntime.step, HedgedRuntime.storeState, hp] at hs
  · obtain ⟨hpoll', hstate, hw⟩ := h.polls_on hpoll (by omega) hs
    exact hstay hpoll' hstate (by rw [hw]) (by simp)
  · have hsec : ¬ InSection (s.workers u).pc := by
      intro hsec
      obtain ⟨i', r', hc', hst'⟩ := h.section_spec hsec
      rw [hcur] at hc'
      cases hc'
      omega
    by_cases hu : u = w
    · -- it gets past its pinning
      subst hu
      obtain ⟨s₁, hs₁, hpc₁⟩ := pinning_passes hpc (hstaff.cpu_lt hpins (by simp [hpc]))
      rw [hs] at hs₁
      cases hs₁
      have hreader : s'.reader = s.reader := by
        obtain ⟨state, wk, -, rfl⟩ := workerStep_cases hs
        rfl
      have hstage : s'.stage + 2 = 3 * r := by
        rcases h.worker_claims hsec hs with hstate | ⟨-, -, -, -, -, hsec'⟩
        · rw [stage, hstate]
          exact hst
        · rw [hpc₁] at hsec'
          exact hsec'.elim
      have hun : Unclaimed c i r u s' :=
        ⟨h', by rw [hreader]; exact hpoll, by rw [hpc₁]; trivial, Or.inl hstage⟩
      have hstage' := ReadStage.serving (w := u) r u hun
      rw [hpc₁] at hstage'
      exact Or.inr (Or.inl ⟨_, _, by simp [rank], hstage'⟩)
    · have hreader : s'.reader = s.reader ∧ s'.workers w = s.workers w := by
        obtain ⟨state, wk, -, rfl⟩ := workerStep_cases hs
        exact ⟨rfl, setWorker_of_ne (Ne.symm hu)⟩
      rcases h.worker_claims hsec hs with hstate | ⟨i', r', hc', -, hst', hsec'⟩
      · exact hstay (by rw [hreader.1]; exact hpoll) hstate hreader.2 (by simpa using hu)
      · rw [hcur] at hc'
        cases hc'
        obtain ⟨n, hn, hstage⟩ := ReadStage.of_claim (w := w) h' (by rw [hreader.1]; exact hpoll)
          hst' hsec'
        exact Or.inr (Or.inl ⟨_, n, by omega, hstage⟩)
  · exact hstay (by rw [heq]; exact hpoll) hstate (by rw [hw]) (by simp)

/-- The worker that serves the request goes on, unless another one claims it first. -/
theorem ReadStage.serving_step {a : Action} (hs : s.step c a = some s') {r v : Nat}
    (hun : Unclaimed c i r v s) :
    Onward c i w (.worker v) (rank r (s.workers v).pc + 5) a s s' := by
  have hpoll := hun.polling
  have hcur := hun.current
  have hbusy : s.reader ≠ .idle := by rcases hpoll with hp | hp <;> simp [hp]
  have hstage : s.stage ≠ 3 * r := by
    rcases hun.stage_eq with hst | ⟨hst, -⟩
    · omega
    · omega
  have hstay : (s'.reader = .checkShutdown i r ∨ s'.reader = .checkWinner i r) →
      s'.state = s.state → s'.workers v = s.workers v → a ≠ .worker v →
      Onward c i w (.worker v) (rank r (s.workers v).pc + 5) a s s' := by
    intro hpoll' hstate hw hne
    have hun' : Unclaimed c i r v s' := by
      refine ⟨h', hpoll', by rw [hw]; exact hun.entered, ?_⟩
      rw [stage, hstate, hw]
      exact hun.stage_eq
    have hnext := ReadStage.serving (w := w) r v hun'
    rw [hw] at hnext
    exact Or.inr (Or.inr ⟨hne, hnext⟩)
  rcases h.busy_cases hbusy hs with rfl | rfl | rfl | ⟨u, rfl⟩ | ⟨heq, hstate, hw, index, rfl⟩
  · rcases hpoll with hp | hp <;> simp [HedgedRuntime.step, HedgedRuntime.storeIndex, hp] at hs
  · rcases hpoll with hp | hp <;> simp [HedgedRuntime.step, HedgedRuntime.storeState, hp] at hs
  · obtain ⟨hpoll', hstate, hw⟩ := h.polls_on hpoll hstage hs
    exact hstay hpoll' hstate (by rw [hw]) (by simp)
  · have hreader : s'.reader = s.reader := by
      obtain ⟨state, wk, -, rfl⟩ := workerStep_cases hs
      rfl
    by_cases hu : u = v
    · subst hu
      obtain ⟨s₁, hs₁, hready | ⟨hun', hlt⟩⟩ := hun.step
      · rw [hs] at hs₁
        cases hs₁
        have hwait := (h'.current_spec (by rw [hreader]; exact hcur)).1
        have hfits := h'.next_fits
        have hnext := hwait.next_eq
        rw [h'.winner_eq] at hready
        have hst := ((lastTag_eq_ready_iff (by omega) h'.stage_lt).mp hready).2
        have hanswered := ReadStage.answered (c := c) (w := w) r (hreader ▸ hcur) hst
        refine Or.inr (Or.inl ⟨_, _, ?_, hanswered⟩)
        rw [hreader]
        rcases hpoll with hp | hp <;> simp [hp, ReadPc.left]
      · rw [hs] at hs₁
        cases hs₁
        exact Or.inr (Or.inl ⟨_, _, by omega, .serving r u hun'⟩)
    · have hother : s'.workers v = s.workers v := by
        obtain ⟨state, wk, -, rfl⟩ := workerStep_cases hs
        exact setWorker_of_ne (Ne.symm hu)
      have hsec : ¬ InSection (s.workers u).pc := by
        -- only one worker is in its claim section, and then it is `v`
        intro hsec
        obtain ⟨i', r', hc', hst'⟩ := h.section_spec hsec
        rw [hcur] at hc'
        cases hc'
        rcases hun.stage_eq with hst | ⟨-, hv⟩
        · omega
        · exact hu (h.alone u v hsec hv)
      rcases h.worker_claims hsec hs with hstate | ⟨i', r', hc', hst, hst', hsec'⟩
      · exact hstay (by rw [hreader]; exact hpoll) hstate hother (by simpa using hu)
      · rw [hcur] at hc'
        cases hc'
        obtain ⟨n, hn, hnext⟩ := ReadStage.of_claim (w := w) h' (by rw [hreader]; exact hpoll)
          hst' hsec'
        have hfar : 4 ≤ rank r (s.workers v).pc := by
          apply hun.rank_pending
          intro hv
          have := hun.claimed_of hv
          omega
        exact Or.inr (Or.inl ⟨_, n, by omega, hnext⟩)
  · exact hstay (by rw [heq]; exact hpoll) hstate (by rw [hw]) (by simp)

/-- Once there is an answer only the call itself moves on. -/
theorem ReadStage.answered_step {a : Action} (hs : s.step c a = some s') {r : Nat}
    (hcur : s.reader.current = some (i, r)) (hst : s.stage = 3 * r) :
    Onward c i w .reader s.reader.left a s s' := by
  have hbusy : s.reader ≠ .idle := by
    intro hidle
    rw [hidle] at hcur
    cases hcur
  have hstay : s'.reader = s.reader → s'.state = s.state → a ≠ .read →
      Onward c i w .reader s.reader.left a s s' := by
    intro hreader hstate hne
    have hnext := ReadStage.answered (c := c) (w := w) (s := s') (i := i) r
      (by rw [hreader]; exact hcur) (by rw [stage, hstate]; exact hst)
    rw [hreader] at hnext
    exact Or.inr (Or.inr ⟨hne, hnext⟩)
  have hlower : s'.reader.current = some (i, r) → s'.state = s.state →
      s'.reader.left < s.reader.left → Onward c i w .reader s.reader.left a s s' := by
    intro hcur' hstate hlt
    exact Or.inr (Or.inl ⟨_, _, hlt, .answered r hcur' (by rw [stage, hstate]; exact hst)⟩)
  obtain ⟨hwait, hanswer⟩ := h.current_spec hcur
  rcases h.busy_cases hbusy hs with rfl | rfl | rfl | ⟨u, rfl⟩ | ⟨heq, hstate, hw, index, rfl⟩
  · cases hp : s.reader with
    | publishing => rw [hp] at hcur; cases hcur
    | _ => simp [HedgedRuntime.step, HedgedRuntime.storeIndex, hp] at hs
  · cases hp : s.reader with
    | publishing => rw [hp] at hcur; cases hcur
    | _ => simp [HedgedRuntime.step, HedgedRuntime.storeState, hp] at hs
  · have hup := (h.serving_of_busy hbusy).2.2
    cases hp : s.reader with
    | idle | locked | publishing =>
      rw [hp] at hcur
      cases hcur
    | checkShutdown index requestId =>
      rw [hp] at hcur hlower
      cases hcur
      simp only [HedgedRuntime.step, HedgedRuntime.readStep, hp, hup] at hs
      cases hs
      exact hlower rfl rfl (by simp [ReadPc.left])
    | checkWinner index requestId =>
      rw [hp] at hcur hlower
      cases hcur
      have hready : s.state.winnerState = ready r := by
        rw [h.winner_eq]
        exact lastTag_ready hwait.id_pos hst
      simp only [HedgedRuntime.step, HedgedRuntime.readStep, hp, hready, if_true] at hs
      cases hs
      exact hlower rfl rfl (by simp [ReadPc.left])
    | beginRead index requestId =>
      rw [hp] at hcur hlower
      cases hcur
      simp only [HedgedRuntime.step, HedgedRuntime.readStep, hp] at hs
      cases hs
      exact hlower rfl rfl (by simp [ReadPc.left])
    | endRead index requestId =>
      rw [hp] at hcur
      cases hcur
      simp only [HedgedRuntime.step, HedgedRuntime.readStep, hp] at hs
      cases hs
      obtain ⟨-, value, hvalue, hcell⟩ : s.Answered c i r := by
        rcases hanswer with hst' | ⟨hst', -⟩ | hanswer
        · omega
        · omega
        · exact hanswer
      exact Or.inl ⟨rfl, rfl, r, value, hvalue, by simp [finish, hcell]⟩
  · have hsec : ¬ InSection (s.workers u).pc := by
      intro hsec
      obtain ⟨i', r', hc', hst'⟩ := h.section_spec hsec
      rw [hcur] at hc'
      cases hc'
      omega
    have hstate := h.worker_quiet_at hsec hcur (by omega) hs
    obtain ⟨state, wk, -, rfl⟩ := workerStep_cases hs
    exact hstay rfl hstate (by simp)
  · exact hstay heq hstate (by simp)

end

theorem ReadStage.busy {k : Agent} {n : Nat} (h : ReadStage c i w s k n) : s.reader ≠ .idle := by
  cases h with
  | locked hpc => simp [hpc]
  | publishing r a b hpc => simp [hpc]
  | pinning r hpoll => rcases hpoll with hp | hp <;> simp [hp]
  | serving r v hun => rcases hun.polling with hp | hp <;> simp [hp]
  | answered r hc =>
    intro hidle
    rw [hidle] at hc
    cases hc

/-- A call that holds the lock is at one of the stages. -/
theorem ReadStage.of_busy (h : Inv c s) (hstaff : Staffed c s) (hpins : c.Pins w)
    (hbusy : s.reader ≠ .idle) : ∃ i k n, ReadStage c i w s k n := by
  have hwaiting : ∀ i r, s.reader = .checkShutdown i r ∨ s.reader = .checkWinner i r →
      s.reader.current = some (i, r) → ∃ i k n, ReadStage c i w s k n := by
    intro i r hpoll hcur
    rcases (h.current_spec hcur).2 with hst | ⟨hst, u, hsec⟩ | hanswer
    · obtain ⟨k, n, -, hstage⟩ := ReadStage.of_pending h hstaff hpins hpoll hst
      exact ⟨i, k, n, hstage⟩
    · obtain ⟨n, -, hstage⟩ := ReadStage.of_claim (w := w) h hpoll hst hsec
      exact ⟨i, _, n, hstage⟩
    · exact ⟨i, _, _, .answered r hcur hanswer.1⟩
  have hread := h.reader
  cases hpc : s.reader with
  | idle => exact absurd hpc hbusy
  | locked i => exact ⟨i, _, _, .locked hpc⟩
  | publishing i r a b => exact ⟨i, _, _, .publishing r a b hpc⟩
  | checkShutdown i r => exact hwaiting i r (Or.inl hpc) (by rw [hpc]; rfl)
  | checkWinner i r => exact hwaiting i r (Or.inr hpc) (by rw [hpc]; rfl)
  | beginRead i r | endRead i r =>
    rw [hpc] at hread
    exact ⟨i, _, _, .answered r (by rw [hpc]; rfl) hread.2.1⟩

/-- The agent that is needed can move. -/
theorem ReadStage.enabled (hstaff : Staffed c s) (hpins : c.Pins w) {k : Agent} {n : Nat}
    (h : ReadStage c i w s k n) : Enabled (step c) k.actions s := by
  cases h with
  | locked hpc =>
    refine ⟨.read, rfl, ?_⟩
    simp [HedgedRuntime.step, readStep, hpc]
  | publishing r a b hpc =>
    cases a with
    | false =>
      refine ⟨.storeIndex, rfl, ?_⟩
      simp [HedgedRuntime.step, storeIndex, hpc]
    | true =>
      cases b with
      | false =>
        refine ⟨.storeState, rfl, ?_⟩
        simp [HedgedRuntime.step, storeState, hpc]
      | true =>
        refine ⟨.read, rfl, ?_⟩
        simp [HedgedRuntime.step, readStep, hpc]
  | pinning r hpoll hst hpc =>
    obtain ⟨s', hs, -⟩ := pinning_passes hpc (hstaff.cpu_lt hpins (by simp [hpc]))
    exact ⟨.worker w, rfl, s', hs⟩
  | serving r v hun =>
    obtain ⟨s', hs, -⟩ := hun.step
    exact ⟨.worker v, rfl, s', hs⟩
  | answered r hc hst =>
    refine ⟨.read, rfl, ?_⟩
    cases hp : s.reader with
    | idle | locked | publishing =>
      rw [hp] at hc
      cases hc
    | _ =>
      simp only [HedgedRuntime.step, readStep, hp]
      try split
      all_goals exact ⟨_, rfl⟩

/-- One step, at any of the stages. -/
theorem ReadStage.step (h : Inv c s) (h' : Inv c s') (hstaff : Staffed c s) (hpins : c.Pins w)
    {k : Agent} {n : Nat} (hstage : ReadStage c i w s k n) {a : Action}
    (hs : s.step c a = some s') : Onward c i w k n a s s' := by
  cases hstage with
  | locked hpc => exact ReadStage.locked_step h h' hs hpc
  | publishing r a b hpc => exact ReadStage.publishing_step h h' (hstaff.step hs) hpins hs hpc
  | pinning r hpoll hst hpc => exact ReadStage.pinning_step h h' hstaff hpins hs hpoll hst hpc
  | serving r v hun => exact ReadStage.serving_step h h' hs hun
  | answered r hc hst => exact ReadStage.answered_step h h' hs hc hst

/-- The stages of a read, as long as there were fewer than `2 ^ 62` calls. -/
theorem read_chain (hpins : c.Pins w) : Chain (HedgedRuntime.step c) Agent.actions
    (fun s a s' => a = .read ∧ Returns c i s s' ∨ 2 ^ 62 ≤ s'.reads)
    (fun k n s => (Inv c s ∧ Staffed c s) ∧ ReadStage c i w s k n) where
  enabled := fun k n s hat => hat.2.enabled hat.1.2 hpins
  step := by
    rintro k n s a s' ⟨⟨h, hstaff⟩, hstage⟩ hs
    by_cases hfew : s'.reads < 2 ^ 62
    · have h' := h.step hfew hs
      have hstaff' := hstaff.step hs
      rcases hstage.step h h' hstaff hpins hs with hgoal | ⟨k', n', hlt, hnext⟩ | ⟨hno, hstay⟩
      · exact Or.inl (Or.inl hgoal)
      · exact Or.inr (Or.inl ⟨k', n', hlt, ⟨h', hstaff'⟩, hnext⟩)
      · exact Or.inr (Or.inr ⟨hno, ⟨h', hstaff'⟩, hstay⟩)
    · exact Or.inl (Or.inr (Nat.le_of_not_lt hfew))

end

end HedgedRuntime

end Tailslayer
