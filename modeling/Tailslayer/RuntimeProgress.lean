import Tailslayer.RuntimeRead

/-!
# Any worker suffices

`Unclaimed w`: a read waits for request `r`, which no worker but `w` has claimed.
Then `w` always has a next access, and it answers the request or brings `w`
nearer to doing so (`Unclaimed.step`, by `rank`); so `w` alone answers it
(`any_worker_suffices`).
-/

namespace Tailslayer

open Word

variable {V : Type}

/-- Past its pinning. -/
def EnteredLoop : WorkerPc V → Prop
  | .unspawned | .pinning => False
  | _ => True

theorem InSection.entered {pc : WorkerPc V} (h : InSection pc) : EnteredLoop pc := by
  cases pc with
  | beginWrite | endWrite | publish => trivial
  | _ => exact h.elim

/-- Accesses until a worker that runs alone answers `r`; those that serve an
older request come first. -/
def rank (r : Nat) : WorkerPc V → Nat
  | .recheck requestId => if requestId = r then 7 else 13
  | .loadIndex requestId => if requestId = r then 6 else 12
  | .readMemory requestId _ => if requestId = r then 5 else 11
  | .claim requestId _ => if requestId = r then 4 else 10
  | .loopTop => 9
  | .loadId => 8
  | .beginWrite _ _ => 3
  | .endWrite _ _ => 2
  | .publish _ => 1
  | _ => 0

theorem rank_le (r : Nat) (pc : WorkerPc V) : rank r pc ≤ 13 := by
  cases pc <;> simp only [rank] <;> (try split) <;> omega

namespace HedgedRuntime

structure Unclaimed (c : Config V) (i r w : Nat) (s : HedgedRuntime V) : Prop where
  inv : Inv c s
  polling : s.reader = .checkShutdown i r ∨ s.reader = .checkWinner i r
  entered : EnteredLoop (s.workers w).pc
  stage_eq : s.stage + 2 = 3 * r ∨ s.stage + 1 = 3 * r ∧ InSection (s.workers w).pc

section
variable {c : Config V} {s : HedgedRuntime V} {i r w : Nat}
  (h : Unclaimed c i r w s)
include h

theorem Unclaimed.current : s.reader.current = some (i, r) := by
  rcases h.polling with hp | hp
  · rw [hp]
    rfl
  · rw [hp]
    rfl

theorem Unclaimed.up : s.state.shutdown = false := by
  refine (h.inv.serving_of_busy ?_).2.2
  rcases h.polling with hp | hp
  · simp [hp]
  · simp [hp]

/-- A worker that starts a poll finds the id. -/
theorem Unclaimed.requestId_eq : s.state.requestId = r := by
  have hw := (h.inv.current_spec h.current).1.next_eq
  have hup := h.up
  have hpub : s.view.published = s.nextRequestId - 1 := by
    rcases h.polling with hp | hp
    · simp [view, hp, ReadPc.unpublished]
    · simp [view, hp, ReadPc.unpublished]
  rcases h.inv.requestId_eq with hid | hdown
  · omega
  · rw [hup] at hdown
    cases hdown

/-- Outside its claim section `w` has the request still before it. -/
theorem Unclaimed.pending_of (hsec : ¬ InSection (s.workers w).pc) : s.stage + 2 = 3 * r :=
  h.stage_eq.resolve_right fun hp => hsec hp.2

theorem Unclaimed.claimed_of (hsec : InSection (s.workers w).pc) : s.stage + 1 = 3 * r := by
  obtain ⟨i', r', hc, hst⟩ := h.inv.section_spec hsec
  rw [h.current] at hc
  cases hc
  exact hst

/-- `w` makes a step that stores nothing. -/
theorem Unclaimed.quiet {wk : Worker V} (hsec : ¬ InSection (s.workers w).pc)
    (hstep : (s.workers w).step c s.mapped s.state = some (s.state, wk))
    (hentered : EnteredLoop wk.pc) (hrank : rank r wk.pc < rank r (s.workers w).pc) :
    ∃ s', s.step c (.worker w) = some s' ∧ (s'.state.winnerState = ready r ∨
      Unclaimed c i r w s' ∧ rank r (s'.workers w).pc < rank r (s.workers w).pc) := by
  have hs : s.step c (.worker w) = some (s.setWorker w s.state wk) := by
    simp [HedgedRuntime.step, HedgedRuntime.workerStep, hstep]
  refine ⟨_, hs, Or.inr ⟨⟨h.inv.workerStep hs, h.polling, ?_, Or.inl (h.pending_of hsec)⟩, ?_⟩⟩
  · rw [setWorker_self]
    exact hentered
  · rw [setWorker_self]
    exact hrank

/-- `w` makes a step in its claim section. -/
theorem Unclaimed.store {state : SharedState V} {wk : Worker V}
    (hstep : (s.workers w).step c s.mapped s.state = some (state, wk))
    (hstage : state.winnerLog.length + 1 = 3 * r) (hsec : InSection wk.pc)
    (hrank : rank r wk.pc < rank r (s.workers w).pc) :
    ∃ s', s.step c (.worker w) = some s' ∧ (s'.state.winnerState = ready r ∨
      Unclaimed c i r w s' ∧ rank r (s'.workers w).pc < rank r (s.workers w).pc) := by
  have hs : s.step c (.worker w) = some (s.setWorker w state wk) := by
    simp [HedgedRuntime.step, HedgedRuntime.workerStep, hstep]
  refine ⟨_, hs, Or.inr ⟨⟨h.inv.workerStep hs, h.polling, ?_, Or.inr ⟨hstage, ?_⟩⟩, ?_⟩⟩
  · rw [setWorker_self]
    exact hsec.entered
  · rw [setWorker_self]
    exact hsec
  · rw [setWorker_self]
    exact hrank

/-- Had a polling worker seen the id it would be serving it. -/
theorem Unclaimed.not_seen (hpc : (s.workers w).pc = .loadId) : (s.workers w).seenRequest ≠ r := by
  intro hr
  have hst := h.pending_of (by simp [hpc, InSection])
  have hserves := (h.inv.workers w).settled i r h.current hst hr
  rw [hpc] at hserves
  exact hserves

/-- Only one `compare_exchange` can succeed, that for `r`. -/
theorem Unclaimed.winner_eq_iff {requestId : Nat} {value : V}
    (hpc : (s.workers w).pc = .claim requestId value) :
    s.state.winnerState = pending requestId ↔ requestId = r := by
  have hst := h.pending_of (by simp [hpc, InSection])
  have hat := (h.inv.workers w).at_pc
  have hseen := (h.inv.workers w).seen_le
  have hfits := h.inv.next_fits
  have hpub : s.view.published ≤ s.nextRequestId - 1 := Nat.sub_le _ _
  rw [hpc] at hat
  have hle : requestId ≤ s.view.published := hat.1 ▸ hseen
  rw [h.inv.winner_eq, lastTag_eq_pending_iff hat.2.1 (by omega) h.inv.stage_lt]
  omega

/-- The `compare_exchange` for `r` claims it, that for an older request fails
and the loop starts over. -/
theorem Unclaimed.claim {requestId : Nat} {value : V}
    (hpc : (s.workers w).pc = .claim requestId value) :
    ∃ s', s.step c (.worker w) = some s' ∧ (s'.state.winnerState = ready r ∨
      Unclaimed c i r w s' ∧ rank r (s'.workers w).pc < rank r (s.workers w).pc) := by
  have hsec : ¬ InSection (s.workers w).pc := by simp [hpc, InSection]
  by_cases hr : requestId = r
  · have hst := h.pending_of hsec
    have hcas := (h.winner_eq_iff hpc).mpr hr
    have hstep : (s.workers w).step c s.mapped s.state =
        some (s.state.storeWinner (claimed requestId),
          { s.workers w with pc := .beginWrite requestId value }) := by
      simp [Worker.step, hpc, hcas]
    refine h.store hstep ?_ trivial (by simp [hpc, rank, hr])
    simp [SharedState.storeWinner, stage] at hst ⊢
    omega
  · have hcas := mt (h.winner_eq_iff hpc).mp hr
    have hstep : (s.workers w).step c s.mapped s.state =
        some (s.state, { s.workers w with pc := .loopTop }) := by
      simp [Worker.step, hpc, hcas]
    exact h.quiet hsec hstep trivial (by simp [hpc, rank, hr])

/-- The `ready` store answers `r`, for no other request can be in the section. -/
theorem Unclaimed.publish {requestId : Nat} (hpc : (s.workers w).pc = .publish requestId) :
    ∃ s', s.step c (.worker w) = some s' ∧ s'.state.winnerState = ready r := by
  have hat := (h.inv.workers w).at_pc
  rw [hpc] at hat
  obtain ⟨-, -, i', value, hcur, -⟩ := hat
  have hr : requestId = r := by
    change s.reader.current = some (i', requestId) at hcur
    rw [h.current] at hcur
    cases hcur
    rfl
  refine ⟨s.setWorker w (s.state.storeWinner (ready requestId))
    { s.workers w with pc := .loopTop }, ?_, ?_⟩
  · simp [HedgedRuntime.step, HedgedRuntime.workerStep, Worker.step, hpc]
  · rw [hr]
    rfl

/-- **One access nearer.** -/
theorem Unclaimed.step :
    ∃ s', s.step c (.worker w) = some s' ∧ (s'.state.winnerState = ready r ∨
      Unclaimed c i r w s' ∧ rank r (s'.workers w).pc < rank r (s.workers w).pc) := by
  have hwait := (h.inv.current_spec h.current).1
  have hup := h.up
  have hat := (h.inv.workers w).at_pc
  have hentered := h.entered
  cases hpc : (s.workers w).pc with
  | unspawned | pinning =>
    rw [hpc] at hentered
    exact hentered.elim
  | faulted =>
    rw [hpc] at hat
    exact hat.elim
  | ended =>
    rw [hpc] at hat
    change s.state.shutdown = true at hat
    rw [hup] at hat
    cases hat
  | loopTop =>
    have hstep : (s.workers w).step c s.mapped s.state =
        some (s.state, { s.workers w with pc := .loadId }) := by
      simp [Worker.step, hpc, hup]
    rw [← hpc]
    exact h.quiet (by simp [hpc, InSection]) hstep trivial (by simp [hpc, rank])
  | loadId =>
    have hnew := h.not_seen hpc
    have hpos := hwait.id_pos
    have hstep : (s.workers w).step c s.mapped s.state =
        some (s.state, { s.workers w with pc := .recheck r }) := by
      simp only [Worker.step, hpc, h.requestId_eq]
      rw [if_neg (by omega)]
    rw [← hpc]
    exact h.quiet (by simp [hpc, InSection]) hstep trivial (by simp [hpc, rank])
  | recheck requestId =>
    have hstep : (s.workers w).step c s.mapped s.state = some (s.state,
        { s.workers w with seenRequest := requestId, pc := .loadIndex requestId }) := by
      simp [Worker.step, hpc, hup]
    rw [← hpc]
    refine h.quiet (by simp [hpc, InSection]) hstep trivial ?_
    simp only [hpc, rank]
    split <;> omega
  | loadIndex requestId =>
    have hidx := hwait.index_eq
    have hlt := hwait.index_lt
    have hstep : (s.workers w).step c s.mapped s.state = some (s.state,
        { s.workers w with pc := .readMemory requestId s.state.requestIndex }) := by
      simp only [Worker.step, hpc]
      rw [if_neg (by omega)]
    rw [← hpc]
    refine h.quiet (by simp [hpc, InSection]) hstep trivial ?_
    simp only [hpc, rank]
    split <;> omega
  | readMemory requestId index =>
    have hmapped := (h.inv.memory hpc).1
    have hstep : ∃ value, (s.workers w).step c s.mapped s.state =
        some (s.state, { s.workers w with pc := .claim requestId value }) := by
      simp [Worker.step, hpc, hmapped]
    obtain ⟨value, hstep⟩ := hstep
    rw [← hpc]
    refine h.quiet (by simp [hpc, InSection]) hstep trivial ?_
    simp only [hpc, rank]
    split <;> omega
  | claim requestId value =>
    rw [← hpc]
    exact h.claim hpc
  | beginWrite requestId value =>
    have hstep : (s.workers w).step c s.mapped s.state = some ({ s.state with value := .torn },
        { s.workers w with pc := .endWrite requestId value }) := by
      simp [Worker.step, hpc]
    rw [← hpc]
    refine h.store hstep ?_ trivial (by simp [hpc, rank])
    exact h.claimed_of (by simp [hpc, InSection])
  | endWrite requestId value =>
    have hstep : (s.workers w).step c s.mapped s.state =
        some ({ s.state with value := .init requestId value },
          { s.workers w with pc := .publish requestId }) := by
      simp [Worker.step, hpc]
    rw [← hpc]
    refine h.store hstep ?_ trivial (by simp [hpc, rank])
    exact h.claimed_of (by simp [hpc, InSection])
  | publish requestId =>
    obtain ⟨s', hs, hready⟩ := h.publish hpc
    exact ⟨s', hs, Or.inl hready⟩

end

/-- **Any worker suffices.**  Whatever the others do, a worker in its loop that
runs alone answers the request a read waits for, unless another one has claimed
it; no worker lets go of a request that is still pending. -/
theorem any_worker_suffices (c : Config V) (acts : List Action) (s : HedgedRuntime V)
    (hr : Reaches c acts s) (hfew : FewReads acts) :
    (∀ i r w, s.reader = .checkShutdown i r ∨ s.reader = .checkWinner i r →
      EnteredLoop (s.workers w).pc →
      (∃ w', w' ≠ w ∧ InSection (s.workers w').pc ∧ s.state.winnerState = claimed r) ∨
      ∃ n s', n ≤ 14 ∧ StepRun.run (step c) s (List.replicate n (.worker w)) = some s' ∧
        s'.state.winnerState = ready r) ∧
    -- a request that is pending was not dropped by a worker back at the top
    (∀ w r, 1 ≤ r → s.state.winnerState = pending r → (s.workers w).pc = .loopTop →
      (s.workers w).seenRequest ≠ r) ∧
    -- nor is its index out of range for one
    (∀ i r w, s.reader = .checkShutdown i r ∨ s.reader = .checkWinner i r →
      (s.workers w).pc = .loadIndex r → s.state.requestIndex < c.buffer.len) := by
  have h := Inv.reaches hr hfew
  have hcurrent : ∀ i r, s.reader = .checkShutdown i r ∨ s.reader = .checkWinner i r →
      s.reader.current = some (i, r) := by
    rintro i r (hp | hp)
    · rw [hp]
      rfl
    · rw [hp]
      rfl
  refine ⟨fun i r w hpoll hloop => ?_, fun w r hpos hpend hpc hseen => ?_,
    fun i r w hpoll _ => ?_⟩
  · obtain ⟨hwait, hst⟩ := h.current_spec (hcurrent i r hpoll)
    have halone : (s.stage + 2 = 3 * r ∨ s.stage + 1 = 3 * r ∧ InSection (s.workers w).pc) →
        ∃ n s', n ≤ 14 ∧ StepRun.run (step c) s (List.replicate n (.worker w)) = some s' ∧
          s'.state.winnerState = ready r := by
      intro hst
      obtain ⟨n, s', hn, hrun, hgoal⟩ := StepRun.run_replicate_of_rank
        (fun s => rank r (s.workers w).pc) (fun s hs => Or.inr hs.step)
        (show Unclaimed c i r w s from ⟨h, hpoll, hloop, hst⟩)
      have := rank_le r (s.workers w).pc
      exact ⟨n, s', by omega, hrun, hgoal⟩
    rcases hst with hst | ⟨hst, w', hw'⟩ | ⟨hst, -⟩
    · exact Or.inr (halone (Or.inl hst))
    · by_cases hw : w' = w
      · exact Or.inr (halone (Or.inr ⟨hst, hw ▸ hw'⟩))
      · exact Or.inl ⟨w', hw, hw', h.winner_eq.trans (lastTag_claimed hst)⟩
    · exact Or.inr ⟨0, s, Nat.zero_le _, rfl,
        h.winner_eq.trans (lastTag_ready hwait.id_pos hst)⟩
  · have hle := (h.workers w).seen_le
    have hfits := h.next_fits
    have hpub : s.view.published ≤ s.nextRequestId - 1 := Nat.sub_le _ _
    rw [hseen] at hle
    rw [h.winner_eq] at hpend
    have hst := (lastTag_eq_pending_iff hpos (by omega) h.stage_lt).mp hpend
    obtain ⟨i, hc⟩ := h.pending_spec hle hst
    have := (h.workers w).settled i r hc hst hseen
    rw [hpc] at this
    exact this
  · obtain ⟨hwait, -⟩ := h.current_spec (hcurrent i r hpoll)
    rw [hwait.index_eq]
    exact hwait.index_lt

/-- Worker 0 alone answers a read that both workers could. -/
theorem any_worker_suffices_byte :
    ∃ s, Reaches twoBytes (askedRead 1) s ∧
      ((∃ w', w' ≠ 0 ∧ InSection (s.workers w').pc ∧ s.state.winnerState = claimed 1) ∨
      ∃ n s', n ≤ 14 ∧
        StepRun.run (step twoBytes) s (List.replicate n (.worker 0)) = some s' ∧
          s'.state.winnerState = ready 1) :=
  ⟨_, ⟨_, rfl, rfl⟩, (any_worker_suffices twoBytes (askedRead 1) _
    ⟨_, rfl, rfl⟩ (by decide)).1 1 1 0 (Or.inl rfl) trivial⟩

end HedgedRuntime

end Tailslayer
