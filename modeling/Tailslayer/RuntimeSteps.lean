import Tailslayer.RuntimeInv

/-!
# Every step keeps the invariant of the runtime

First the worker steps (`Inv.workerStep`), one lemma for each store of the claim
section; then the reading call; then `new` and `drop`.  `Inv.step` puts them
together and `Inv.reaches` runs them.
-/

namespace Tailslayer

open Word

namespace HedgedRuntime

variable {V : Type} {c : Config V} {s s' : HedgedRuntime V}

/-! ## Workers -/

section
variable {w : Nat} {state' : SharedState V} {wk' : Worker V}

theorem workerStep_cases (hs : s.workerStep c w = some s') :
    ∃ state wk, (s.workers w).step c s.mapped s.state = some (state, wk) ∧
      s' = s.setWorker w state wk := by
  unfold HedgedRuntime.workerStep at hs
  split at hs
  · cases hs
  · next state wk hstep => exact ⟨state, wk, hstep, (Option.some.inj hs).symm⟩

theorem setWorker_self : (s.setWorker w state' wk').workers w = wk' := by
  simp [HedgedRuntime.setWorker]

theorem setWorker_of_ne {w' : Nat} (hw : w' ≠ w) :
    (s.setWorker w state' wk').workers w' = s.workers w' := by
  simp [HedgedRuntime.setWorker, hw]

section
variable (h : Inv c s)
include h

/-- Workers that were joined do not step. -/
theorem Inv.owner_setWorker (hstep : (s.workers w).step c s.mapped s.state = some (state', wk')) :
    (s.setWorker w state' wk').OwnerAt s.owner := by
  obtain ⟨-, hspawned, hstop, -, -, hdown⟩ := Worker.step_frame hstep
  have hown := h.owner
  cases ho : s.owner with
  | spawning | unwinding =>
    rw [ho] at hown
    exact ⟨hown.1, hown.2.1, hown.2.2.1, hdown.trans hown.2.2.2⟩
  | failed =>
    rw [ho] at hown
    exact ⟨hown.1, hown.2.1, hdown.trans hown.2.2⟩
  | serving =>
    rw [ho] at hown
    exact ⟨hown.1, hdown.trans hown.2⟩
  | closing =>
    rw [ho] at hown
    exact ⟨hown.1, hown.2.1, hdown.trans hown.2.2⟩
  | joining replica =>
    rw [ho] at hown
    obtain ⟨h1, h2, h3, h4⟩ := hown
    refine ⟨h1, h2, hdown.trans h3, fun w' hw' => ?_⟩
    by_cases hw : w' = w
    · subst hw
      exact absurd (h4 w' hw') hstop
    · rw [setWorker_of_ne hw]
      exact h4 w' hw'
  | dropped =>
    rw [ho] at hown
    obtain ⟨h1, h2, h3⟩ := hown
    refine ⟨h1, hdown.trans h2, fun w' => ?_⟩
    by_cases hw : w' = w
    · subst hw
      exact absurd (h3 w') (fun hor => hor.elim hstop hspawned)
    · rw [setWorker_of_ne hw]
      exact h3 w'

/-- A step of worker `w` keeps the invariant if what it stores fits the log and
the read, and no other worker minds. -/
theorem Inv.setWorker (hstep : (s.workers w).step c s.mapped s.state = some (state', wk'))
    (hle : s.view.Le (s.setWorker w state' wk').view)
    (hother : ∀ w', w' ≠ w → InSection (s.workers w').pc → state' = s.state)
    (halone : InSection wk'.pc → ∀ w', w' ≠ w → ¬ InSection (s.workers w').pc)
    (hlog : state'.winnerLog = (List.range state'.winnerLog.length).map tagAt ∧
      state'.winnerState = lastTag state'.winnerLog.length)
    (hreader : (s.setWorker w state' wk').ReaderAt c s.reader)
    (hwk : WorkerInv c (s.setWorker w state' wk').view wk') :
    Inv c (s.setWorker w state' wk') := by
  obtain ⟨hbase, hspawned, hstop, hid, -, hdown⟩ := Worker.step_frame hstep
  refine ⟨hlog.1, hlog.2, h.next_pos, h.next_le, h.next_fits, hreader, fun w' => ?_,
    fun w₁ w₂ h1 h2 => ?_, fun w' => ?_, ?_, ?_, h.returned⟩
  · by_cases hw : w' = w
    · subst hw
      rw [setWorker_self]
      exact hwk
    · rw [setWorker_of_ne hw]
      refine (h.workers w').frame hle fun hsec => ?_
      obtain rfl := hother w' hw hsec
      exact ⟨rfl, rfl, rfl⟩
  · by_cases hw1 : w₁ = w
    · subst hw1
      rw [setWorker_self] at h1
      apply Classical.byContradiction
      intro hw2
      rw [setWorker_of_ne (Ne.symm hw2)] at h2
      exact halone h1 w₂ (Ne.symm hw2) h2
    · by_cases hw2 : w₂ = w
      · subst hw2
        rw [setWorker_self] at h2
        rw [setWorker_of_ne hw1] at h1
        exact absurd h1 (halone h2 w₁ hw1)
      · rw [setWorker_of_ne hw1] at h1
        rw [setWorker_of_ne hw2] at h2
        exact h.alone w₁ w₂ h1 h2
  · by_cases hw : w' = w
    · subst hw
      rw [setWorker_self, hbase]
      exact Or.inr ((h.base w').resolve_left hspawned)
    · rw [setWorker_of_ne hw]
      exact h.base w'
  · exact h.owner_setWorker hstep
  · show state'.requestId = s.view.published ∨ state'.shutdown = true
    rw [hid, hdown]
    exact h.requestId_eq

/-- Until the request is answered, its read only polls. -/
theorem Inv.readerAt_of_current {i r : Nat} (hc : s.reader.current = some (i, r))
    (hst : s.stage ≠ 3 * r) (hidx : state'.requestIndex = s.state.requestIndex)
    (hnew : (s.setWorker w state' wk').stage + 2 = 3 * r ∨
      (s.setWorker w state' wk').stage + 1 = 3 * r ∧ (s.setWorker w state' wk').Claimed ∨
      (s.setWorker w state' wk').Answered c i r) :
    (s.setWorker w state' wk').ReaderAt c s.reader := by
  have hread := h.reader
  cases hpc : s.reader with
  | idle | locked | publishing =>
    rw [hpc] at hc
    cases hc
  | checkShutdown index r' | checkWinner index r' =>
    rw [hpc] at hc hread
    cases hc
    refine ⟨?_, hnew⟩
    show Waiting c s.nextRequestId state'.requestIndex i r
    exact hidx ▸ hread.1
  | beginRead index r' | endRead index r' =>
    rw [hpc] at hc hread
    cases hc
    exact absurd hread.2.1 hst

/-- A step outside the claim section that stores nothing. -/
theorem Inv.readerAt_quiet (hsec : ¬ InSection (s.workers w).pc) :
    (s.setWorker w s.state wk').ReaderAt c s.reader := by
  have hread := h.reader
  cases hpc : s.reader with
  | idle | locked | publishing | beginRead | endRead =>
    rw [hpc] at hread
    exact hread
  | checkShutdown index r | checkWinner index r =>
    rw [hpc] at hread
    refine ⟨hread.1, hread.2.imp id (Or.imp (And.imp id ?_) id)⟩
    rintro ⟨w', hw'⟩
    have hw : w' ≠ w := fun hw => hsec (hw ▸ hw')
    exact ⟨w', by rwa [setWorker_of_ne hw]⟩

theorem Inv.claim {requestId : Nat} {value : V} (hpc : (s.workers w).pc = .claim requestId value)
    (hcas : s.state.winnerState = pending requestId)
    (hstep : (s.workers w).step c s.mapped s.state = some (s.state.storeWinner (claimed requestId),
      { s.workers w with pc := .beginWrite requestId value })) :
    Inv c (s.setWorker w (s.state.storeWinner (claimed requestId))
      { s.workers w with pc := .beginWrite requestId value }) := by
  have hat := (h.workers w).at_pc
  have hseen := (h.workers w).seen_le
  rw [hpc] at hat
  obtain ⟨hid, hpos, hfresh⟩ := hat
  rw [hid] at hseen
  have hfits : requestId < 2 ^ 62 := by
    have := h.next_fits
    have : s.view.published ≤ s.nextRequestId - 1 := Nat.sub_le _ _
    omega
  -- the compare_exchange succeeds in the one stage of its request
  have hst : s.stage + 2 = 3 * requestId := by
    rw [h.winner_eq] at hcas
    exact (lastTag_eq_pending_iff hpos hfits h.stage_lt).mp hcas
  obtain ⟨i, hc⟩ := h.pending_spec hseen hst
  have hnone : ∀ w', ¬ InSection (s.workers w').pc := by
    intro w' hw'
    obtain ⟨i', r', hc', hst'⟩ := h.section_spec hw'
    rw [hc] at hc'
    cases hc'
    omega
  have hstage : (s.state.storeWinner (claimed requestId)).winnerLog.length = s.stage + 1 := by
    simp [SharedState.storeWinner, stage]
  refine h.setWorker hstep ⟨Nat.le_refl _, id, fun i r hc _ => hc, fun i' r hc' hst' _ => ?_⟩
    (fun w' _ hw' => absurd hw' (hnone w')) (fun _ w' _ => hnone w')
    (h.storeWinner (tagAt_claimed hst)) (h.readerAt_of_current hc (by omega) rfl ?_) ⟨?_, ?_, ?_⟩
  · change (s.state.storeWinner (claimed requestId)).winnerLog.length + 2 = 3 * r at hst'
    change s.reader.current = some (i', r) at hc'
    rw [hc] at hc'
    cases hc'
    omega
  · right
    left
    refine ⟨?_, w, setWorker_self ▸ trivial⟩
    change (s.state.storeWinner (claimed requestId)).winnerLog.length + 1 = 3 * requestId
    omega
  · exact hid ▸ hseen
  · refine ⟨hid, ?_, i, hc, hfresh i hc⟩
    change (s.state.storeWinner (claimed requestId)).winnerLog.length + 1 = 3 * requestId
    omega
  · intro i' r hc' hst' _
    change (s.state.storeWinner (claimed requestId)).winnerLog.length + 2 = 3 * r at hst'
    change s.reader.current = some (i', r) at hc'
    rw [hc] at hc'
    cases hc'
    omega

theorem Inv.beginWrite {requestId : Nat} {value : V}
    (hpc : (s.workers w).pc = .beginWrite requestId value)
    (hstep : (s.workers w).step c s.mapped s.state = some ({ s.state with value := .torn },
      { s.workers w with pc := .endWrite requestId value })) :
    Inv c (s.setWorker w { s.state with value := .torn }
      { s.workers w with pc := .endWrite requestId value }) := by
  have hat := (h.workers w).at_pc
  have hsec : InSection (s.workers w).pc := by
    rw [hpc]
    trivial
  rw [hpc] at hat
  obtain ⟨hid, hst, i, hc, hx⟩ := hat
  change s.stage + 1 = 3 * requestId at hst
  have hnone : ∀ w', w' ≠ w → ¬ InSection (s.workers w').pc :=
    fun w' hw hw' => hw (h.alone w' w hw' hsec)
  refine h.setWorker hstep (View.le_of_eq rfl rfl rfl rfl)
    (fun w' hw hw' => absurd hw' (hnone w' hw))
    (fun _ => hnone) ⟨h.log_eq, h.winner_eq⟩
    (h.readerAt_of_current hc (by omega) rfl (Or.inr (Or.inl ⟨hst, w, setWorker_self ▸ trivial⟩)))
    ⟨(h.workers w).seen_le, ⟨hid, hst, rfl, i, hc, hx⟩, fun i' r _ hst' _ => ?_⟩
  change s.stage + 2 = 3 * r at hst'
  omega

theorem Inv.endWrite {requestId : Nat} {value : V}
    (hpc : (s.workers w).pc = .endWrite requestId value)
    (hstep : (s.workers w).step c s.mapped s.state =
      some ({ s.state with value := .init requestId value },
        { s.workers w with pc := .publish requestId })) :
    Inv c (s.setWorker w { s.state with value := .init requestId value }
      { s.workers w with pc := .publish requestId }) := by
  have hat := (h.workers w).at_pc
  have hsec : InSection (s.workers w).pc := by
    rw [hpc]
    trivial
  rw [hpc] at hat
  obtain ⟨hid, hst, -, i, hc, hx⟩ := hat
  change s.stage + 1 = 3 * requestId at hst
  have hnone : ∀ w', w' ≠ w → ¬ InSection (s.workers w').pc :=
    fun w' hw hw' => hw (h.alone w' w hw' hsec)
  refine h.setWorker hstep (View.le_of_eq rfl rfl rfl rfl)
    (fun w' hw hw' => absurd hw' (hnone w' hw))
    (fun _ => hnone) ⟨h.log_eq, h.winner_eq⟩
    (h.readerAt_of_current hc (by omega) rfl (Or.inr (Or.inl ⟨hst, w, setWorker_self ▸ trivial⟩)))
    ⟨(h.workers w).seen_le, ⟨hid, hst, i, value, hc, hx, rfl⟩, fun i' r _ hst' _ => ?_⟩
  change s.stage + 2 = 3 * r at hst'
  omega

theorem Inv.publish {requestId : Nat} (hpc : (s.workers w).pc = .publish requestId)
    (hstep : (s.workers w).step c s.mapped s.state = some (s.state.storeWinner (ready requestId),
      { s.workers w with pc := .loopTop })) :
    Inv c (s.setWorker w (s.state.storeWinner (ready requestId))
      { s.workers w with pc := .loopTop }) := by
  have hat := (h.workers w).at_pc
  have hsec : InSection (s.workers w).pc := by
    rw [hpc]
    trivial
  rw [hpc] at hat
  obtain ⟨hid, hst, i, value, hc, hx, hv⟩ := hat
  change s.stage + 1 = 3 * requestId at hst
  have hnone : ∀ w', w' ≠ w → ¬ InSection (s.workers w').pc :=
    fun w' hw hw' => hw (h.alone w' w hw' hsec)
  have hstage : (s.setWorker w (s.state.storeWinner (ready requestId))
      { s.workers w with pc := .loopTop }).stage = s.stage + 1 := by
    simp [HedgedRuntime.setWorker, SharedState.storeWinner, stage]
  -- the request is answered, so it is not pending either
  have hle : s.view.Le (s.setWorker w (s.state.storeWinner (ready requestId))
      { s.workers w with pc := .loopTop }).view := by
    refine ⟨Nat.le_refl _, id, fun i r hc _ => hc, fun i' r _ hst' _ => ?_⟩
    change (HedgedRuntime.stage _) + 2 = 3 * r at hst'
    omega
  refine h.setWorker hstep hle (fun w' hw hw' => absurd hw' (hnone w' hw)) (fun _ => hnone)
    (h.storeWinner (tagAt_ready hst))
    (h.readerAt_of_current hc (by omega) rfl (Or.inr (Or.inr ⟨by omega, value, hx, hv⟩)))
    ⟨(h.workers w).seen_le, trivial, fun i' r _ hst' _ => ?_⟩
  change (HedgedRuntime.stage _) + 2 = 3 * r at hst'
  omega

theorem Inv.workerStep (hs : s.workerStep c w = some s') : Inv c s' := by
  obtain ⟨state, wk, hstep, rfl⟩ := workerStep_cases hs
  have hstore : Worker.Stores s.state (s.workers w) state wk →
      Inv c (s.setWorker w state wk) := by
    intro hstore
    cases hstore with
    | claim requestId value hpc hcas => exact h.claim hpc hcas hstep
    | beginWrite requestId value hpc => exact h.beginWrite hpc hstep
    | endWrite requestId value hpc => exact h.endWrite hpc hstep
    | publish requestId hpc => exact h.publish hpc hstep
  by_cases hsec : InSection (s.workers w).pc
  · exact hstore (Worker.stores_of_section hsec hstep)
  · rcases (h.workers w).step h.finds (fun _ _ hpc => h.memory hpc) hstep with
      hst | ⟨rfl, hwk, hsec'⟩
    · exact hstore hst
    · exact h.setWorker hstep (View.le_of_eq rfl rfl rfl rfl) (fun _ _ _ => rfl)
        (fun hw => absurd hw hsec') ⟨h.log_eq, h.winner_eq⟩ (h.readerAt_quiet hsec) hwk

/-- Outside its claim section a worker stores at most a claim. -/
theorem Inv.workerStep_state (hsec : ¬ InSection (s.workers w).pc)
    (hs : s.workerStep c w = some s') :
    s'.state = s.state ∨ ∃ requestId value, (s.workers w).pc = .claim requestId value ∧
      s.state.winnerState = pending requestId := by
  obtain ⟨state, wk, hstep, rfl⟩ := workerStep_cases hs
  rcases (h.workers w).step h.finds (fun _ _ hpc => h.memory hpc) hstep with hstore | ⟨rfl, -⟩
  · cases hstore with
    | claim requestId value hpc hcas => exact Or.inr ⟨requestId, value, hpc, hcas⟩
    | beginWrite requestId value hpc =>
      rw [hpc] at hsec
      exact absurd trivial hsec
    | endWrite requestId value hpc =>
      rw [hpc] at hsec
      exact absurd trivial hsec
    | publish requestId hpc =>
      rw [hpc] at hsec
      exact absurd trivial hsec
  · exact Or.inl rfl

end

end

/-! ## The reading call -/

section
variable (h : Inv c s)
include h

theorem Inv.no_section_of_none (hc : s.reader.current = none) (w : Nat) :
    ¬ InSection (s.workers w).pc := by
  intro hw
  obtain ⟨i, r, hc', -⟩ := h.section_spec hw
  rw [hc] at hc'
  cases hc'

/-- Workers do not mind a later view, in the claim section the same one. -/
theorem Inv.workers_frame (hw : s'.workers = s.workers) (hle : s.view.Le s'.view)
    (hsec : (∀ w, ¬ InSection (s.workers w).pc) ∨
      s'.view.current = s.view.current ∧ s'.view.stage = s.view.stage ∧
        s'.view.value = s.view.value) (w : Nat) : WorkerInv c s'.view (s'.workers w) := by
  rw [hw]
  exact (h.workers w).frame hle fun hin => hsec.elim (fun hno => absurd hin (hno w)) id

/-- The owner of a runtime that a call is in progress on. -/
theorem Inv.serving_of_busy (hbusy : s.reader ≠ .idle) :
    s.owner = .serving ∧ s.mapped = true ∧ s.state.shutdown = false := by
  have hown := h.owner
  cases ho : s.owner with
  | serving =>
    rw [ho] at hown
    exact ⟨rfl, hown⟩
  | spawning | unwinding | failed =>
    rw [ho] at hown
    exact absurd hown.2.1 hbusy
  | closing | joining | dropped =>
    rw [ho] at hown
    exact absurd hown.1 hbusy

/-- A step of the call leaves the owner serving. -/
theorem Inv.ownerAt_busy (hbusy : s.reader ≠ .idle) (howner : s'.owner = s.owner)
    (hmapped : s'.mapped = s.mapped) (hdown : s'.state.shutdown = s.state.shutdown) :
    s'.OwnerAt s'.owner := by
  obtain ⟨ho, hm, hup⟩ := h.serving_of_busy hbusy
  rw [howner, ho]
  exact ⟨hmapped.trans hm, hdown.trans hup⟩

theorem Inv.call {index : Nat} (hs : s.call c index = some s') : Inv c s' := by
  unfold HedgedRuntime.call at hs
  by_cases ho : s.owner = .serving
  · rw [if_neg (not_not_intro ho)] at hs
    by_cases hi : c.buffer.len ≤ index
    · -- out of bounds: one more return, and nothing else
      rw [if_pos hi] at hs
      cases hs
      refine { h with next_le := ?_, returned := ?_ }
      · have := h.next_le
        simp only [List.length_append, List.length_singleton]
        omega
      · intro e he
        rcases List.mem_append.mp he with he | he
        · exact h.returned e he
        · rw [List.mem_singleton.mp he]
          exact ⟨fun hlt => absurd hlt (by simp only; omega), fun _ => rfl⟩
    · rw [if_neg hi] at hs
      by_cases hidle : s.reader = .idle
      · rw [if_pos hidle] at hs
        cases hs
        have hread := h.reader
        have hle := h.next_le
        have hown := h.owner
        rw [hidle] at hread hle
        rw [ho] at hown
        have hview : ({ s with reader := .locked index } : HedgedRuntime V).view = s.view := by
          simp [view, hidle, ReadPc.current, ReadPc.unpublished, stage]
        refine { h with
          reader := ⟨by omega, hread⟩, workers := ?_, owner := ?_, next_le := hle
          requestId_eq := ?_ }
        · rw [hview]
          exact h.workers
        · show OwnerAt _ s.owner
          rw [ho]
          exact hown
        · rw [hview]
          exact h.requestId_eq
      · rw [if_neg hidle] at hs
        cases hs
  · rw [if_pos ho] at hs
    cases hs

/-- The call moves on, and the view stays. -/
theorem Inv.moveReader {pc : ReadPc} {nextRequestId requestIndex : Nat} (hbusy : s.reader ≠ .idle)
    (hpos : 1 ≤ nextRequestId) (hle : nextRequestId ≤ s.returned.length + 1 + pc.issued)
    (hfits : nextRequestId ≤ 2 ^ 62)
    (hread : ({ s with
      nextRequestId := nextRequestId
      state := { s.state with requestIndex := requestIndex }
      reader := pc } : HedgedRuntime V).ReaderAt c pc)
    (hview : ({ s with
      nextRequestId := nextRequestId
      state := { s.state with requestIndex := requestIndex }
      reader := pc } : HedgedRuntime V).view = s.view) :
    Inv c { s with
      nextRequestId := nextRequestId
      state := { s.state with requestIndex := requestIndex }
      reader := pc } := by
  refine { h with
    next_pos := hpos, next_le := hle, next_fits := hfits, reader := hread, workers := ?_
    owner := h.ownerAt_busy hbusy rfl rfl rfl, requestId_eq := ?_ }
  · rw [hview]
    exact h.workers
  · rw [hview]
    exact h.requestId_eq

/-- Only the call itself moves on. -/
theorem Inv.setReader {pc : ReadPc} (hbusy : s.reader ≠ .idle) (hread : s.ReaderAt c pc)
    (hissued : pc.issued = s.reader.issued)
    (hview : ({ s with reader := pc } : HedgedRuntime V).view = s.view) :
    Inv c { s with reader := pc } := by
  have hle := h.next_le
  rw [← hissued] at hle
  exact h.moveReader hbusy h.next_pos hle h.next_fits hread hview

theorem Inv.storeIndex (hs : s.storeIndex = some s') : Inv c s' := by
  unfold HedgedRuntime.storeIndex at hs
  split at hs
  · next index r stateStored hpc =>
    cases hs
    obtain ⟨hi, hr, hn, -, hst⟩ : s.ReaderAt c (.publishing index r false stateStored) :=
      hpc ▸ h.reader
    have hle := h.next_le
    rw [hpc] at hle
    refine h.moveReader (by rw [hpc]; simp) h.next_pos hle h.next_fits
      ⟨hi, hr, hn, fun _ => rfl, hst⟩ ?_
    simp [view, hpc, ReadPc.current, ReadPc.unpublished, stage]
  · cases hs

/-- The `pending` store: no worker has the id yet. -/
theorem Inv.storeState (hs : s.storeState = some s') : Inv c s' := by
  unfold HedgedRuntime.storeState at hs
  split at hs
  · next index r indexStored hpc =>
    cases hs
    obtain ⟨hi, hr, hn, hidx, hst⟩ : s.ReaderAt c (.publishing index r indexStored false) :=
      hpc ▸ h.reader
    rw [Bool.toNat_false, Nat.add_zero] at hst
    have hle := h.next_le
    have hreq := h.requestId_eq
    rw [hpc] at hle
    have hlog := h.storeWinner (tagAt_pending hst)
    refine { h with
      log_eq := hlog.1, winner_eq := hlog.2, reader := ⟨hi, hr, hn, hidx, ?_⟩
      workers := h.workers_frame rfl ?_ (Or.inl (h.no_section_of_none (by rw [hpc]; rfl)))
      owner := h.ownerAt_busy (by rw [hpc]; simp) rfl rfl rfl
      next_le := hle, requestId_eq := ?_ }
    · simp [stage, SharedState.storeWinner] at hst ⊢
      omega
    · refine ⟨?_, id, fun i r hc => ?_, fun i r hc => ?_⟩
      · simp [view, hpc, ReadPc.unpublished]
      · cases hc
      · cases hc
    · simpa [view, hpc, ReadPc.unpublished, SharedState.storeWinner] using hreq
  · cases hs

/-- `next_request_id` is counted up. -/
theorem Inv.issue (hreads : s.reads < 2 ^ 62) {index : Nat} (hpc : s.reader = .locked index) :
    Inv c { s with
      nextRequestId := usize.add s.nextRequestId 1
      reader := .publishing index s.nextRequestId false false } := by
  obtain ⟨hi, hst⟩ : s.ReaderAt c (.locked index) := hpc ▸ h.reader
  have hpos := h.next_pos
  have hle := h.next_le
  have hfits : s.nextRequestId + 1 ≤ 2 ^ 62 := by
    simp only [reads, hpc, ReadPc.issued] at hreads hle
    simp at hreads
    omega
  have hadd : usize.add s.nextRequestId 1 = s.nextRequestId + 1 := by
    refine Arith.add_eq (show s.nextRequestId + 1 < 2 ^ 64 from ?_)
    omega
  rw [hadd]
  refine h.moveReader (by rw [hpc]; simp) (Nat.succ_pos _) ?_ hfits
    ⟨hi, hpos, rfl, fun hf => absurd hf Bool.false_ne_true, hst⟩ ?_
  · rw [hpc] at hle
    simp only [ReadPc.issued] at hle ⊢
    omega
  · simp [view, hpc, ReadPc.current, ReadPc.unpublished, stage]

/-- The store of `request_id` makes the request visible. -/
theorem Inv.publishId {index r : Nat} (hpc : s.reader = .publishing index r true true) :
    Inv c { s with
      state := { s.state with requestId := r }
      reader := .checkShutdown index r } := by
  obtain ⟨hi, hr, hn, hidx, hst⟩ : s.ReaderAt c (.publishing index r true true) := hpc ▸ h.reader
  rw [Bool.toNat_true] at hst
  have hle := h.next_le
  rw [hpc] at hle
  have hpub : s.view.published + 1 = r := by
    simp only [view, hpc, ReadPc.unpublished]
    omega
  refine { h with
    reader := ⟨⟨hi, hr, hn, hidx rfl⟩, Or.inl ?_⟩
    workers := h.workers_frame rfl ?_ (Or.inl (h.no_section_of_none (by rw [hpc]; rfl)))
    owner := h.ownerAt_busy (by rw [hpc]; simp) rfl rfl rfl
    next_le := hle, requestId_eq := Or.inl ?_ }
  · show s.stage + 2 = 3 * r
    omega
  · refine ⟨?_, id, fun i' r' hc hle' => ?_, fun i' r' hc _ hle' => ?_⟩
    · show _ ≤ s.nextRequestId - 1 - 0
      omega
    · cases hc
      omega
    · cases hc
      omega
  · show r = s.nextRequestId - 1 - 0
    omega

/-- The call returns what its request was answered with. -/
theorem Inv.finishRead {index r : Nat} (hpc : s.reader = .endRead index r) :
    Inv c (s.finish index (.ok s.state.value)) := by
  obtain ⟨hw, hst, x, hx, hv⟩ : s.ReaderAt c (.endRead index r) := hpc ▸ h.reader
  have hn := hw.next_eq
  have hle := h.next_le
  have hreq := h.requestId_eq
  rw [hpc] at hle
  have hnone : ∀ w, ¬ InSection (s.workers w).pc := by
    intro w hin
    obtain ⟨i', r', -, hst'⟩ := h.section_spec hin
    omega
  refine { h with
    next_le := ?_, reader := ?_, workers := h.workers_frame rfl ?_ (Or.inl hnone)
    owner := h.ownerAt_busy (by rw [hpc]; simp) rfl rfl rfl
    requestId_eq := ?_, returned := ?_ }
  · simp only [finish, ReadPc.issued, List.length_append, List.length_singleton] at hle ⊢
    omega
  · show s.stage + 3 = 3 * s.nextRequestId
    omega
  · refine ⟨?_, id, fun i' r' hc => ?_, fun i' r' hc => ?_⟩
    · simp [view, finish, hpc, ReadPc.unpublished]
    · cases hc
    · cases hc
  · simpa [view, finish, hpc, ReadPc.unpublished] using hreq
  · intro e he
    rcases List.mem_append.mp he with he | he
    · exact h.returned e he
    · rw [List.mem_singleton.mp he]
      exact ⟨fun _ => ⟨r, x, by rw [hv], hx⟩, fun hge => absurd hge (Nat.not_le_of_lt hx.1)⟩

theorem Inv.readStep (hreads : s.reads < 2 ^ 62) (hs : s.readStep = some s') : Inv c s' := by
  have hread := h.reader
  unfold HedgedRuntime.readStep at hs
  cases hpc : s.reader with
  | idle =>
    rw [hpc] at hs
    cases hs
  | locked index =>
    rw [hpc] at hs
    cases hs
    exact h.issue hreads hpc
  | publishing index r indexStored stateStored =>
    rw [hpc] at hs
    dsimp only at hs
    split at hs
    · next hboth =>
      cases hs
      obtain ⟨rfl, rfl⟩ := Bool.and_eq_true_iff.mp hboth
      exact h.publishId hpc
    · cases hs
  | checkShutdown index r =>
    rw [hpc] at hs hread
    dsimp only at hs
    split at hs
    · next hdown =>
      -- nobody drops a runtime that is being read
      have := (h.serving_of_busy (by rw [hpc]; simp)).2.2
      rw [hdown] at this
      cases this
    · cases hs
      refine h.setReader (by rw [hpc]; simp) hread (by rw [hpc]; rfl) ?_
      simp [view, hpc, ReadPc.current, ReadPc.unpublished, stage]
  | checkWinner index r =>
    rw [hpc] at hs hread
    dsimp only at hs
    split at hs
    · next hready =>
      cases hs
      refine h.setReader (by rw [hpc]; simp) ⟨hread.1, ?_⟩ (by rw [hpc]; rfl) ?_
      · have hfits := h.next_fits
        have hn := hread.1.next_eq
        rw [h.winner_eq] at hready
        have hst := ((lastTag_eq_ready_iff (by omega) h.stage_lt).mp hready).2
        rcases hread.2 with h2 | h2 | h2
        · omega
        · omega
        · exact h2
      · simp [view, hpc, ReadPc.current, ReadPc.unpublished, stage]
    · cases hs
      refine h.setReader (by rw [hpc]; simp) hread (by rw [hpc]; rfl) ?_
      simp [view, hpc, ReadPc.current, ReadPc.unpublished, stage]
  | beginRead index r =>
    rw [hpc] at hs hread
    cases hs
    refine h.setReader (by rw [hpc]; simp) hread (by rw [hpc]; rfl) ?_
    simp [view, hpc, ReadPc.current, ReadPc.unpublished, stage]
  | endRead index r =>
    rw [hpc] at hs
    cases hs
    exact h.finishRead hpc

end

/-! ## `new` and `drop` -/

section
variable (h : Inv c s)
include h

/-- Only the owner's phase and the mapping change. -/
theorem Inv.setOwner {mapped : Bool} {owner : Owner}
    (hown : OwnerAt { s with mapped := mapped, owner := owner } owner) :
    Inv c { s with mapped := mapped, owner := owner } :=
  { h with
    reader := by
      have hread := h.reader
      cases hpc : s.reader with
      | _ =>
        rw [hpc] at hread
        exact hread
    owner := hown }

theorem Inv.spawn {replica replicaBase : Nat} {cpu : Option Nat} (ho : s.owner = .spawning replica)
    (hbase : c.buffer.replicaBasePtr replica = .ok replicaBase) :
    Inv c { s with
      workers := Function.update s.workers replica ⟨replicaBase, cpu, 0, .pinning⟩
      owner := .spawning (replica + 1) } := by
  have hown := h.owner
  rw [ho] at hown
  have hread := h.reader
  rw [hown.2.1] at hread
  have hnone := h.no_section_of_none (by rw [hown.2.1]; rfl)
  refine { h with
    reader := ?_, workers := fun w => ?_, alone := fun w w' hw _ => ?_, base := fun w => ?_
    owner := hown }
  · show ReaderAt c _ s.reader
    rw [hown.2.1]
    exact hread
  · by_cases hw : w = replica
    · subst hw
      simp only [Function.update_self]
      refine ⟨Nat.zero_le _, trivial, fun i r hc => ?_⟩
      change s.reader.current = some (i, r) at hc
      rw [hown.2.1] at hc
      cases hc
    · simp only [Function.update_of_ne hw]
      exact h.workers w
  · by_cases hw' : w = replica
    · subst hw'
      simp only [Function.update_self] at hw
      exact hw.elim
    · simp only [Function.update_of_ne hw'] at hw
      exact absurd hw (hnone w)
  · by_cases hw : w = replica
    · subst hw
      simp only [Function.update_self]
      exact Or.inr hbase
    · simp only [Function.update_of_ne hw]
      exact h.base w

theorem Inv.newStep (hs : s.newStep c = some s') : Inv c s' := by
  unfold HedgedRuntime.newStep at hs
  split at hs
  · next replica ho =>
    have hown := h.owner
    rw [ho] at hown
    split at hs
    · split at hs
      · next replicaBase cpu hbase hcpu =>
        cases hs
        exact h.spawn ho hbase
      · cases hs
        exact h.setOwner hown
    · cases hs
      exact h.setOwner hown.2.2
  · cases hs

theorem Inv.spawnFails (hs : s.spawnFails c = some s') : Inv c s' := by
  unfold HedgedRuntime.spawnFails at hs
  split at hs
  · next replica ho =>
    have hown := h.owner
    rw [ho] at hown
    split at hs
    · cases hs
      exact h.setOwner hown
    · cases hs
  · cases hs

theorem Inv.unwind (hs : s.unwind = some s') : Inv c s' := by
  unfold HedgedRuntime.unwind at hs
  split at hs
  · next ho =>
    have hown := h.owner
    rw [ho] at hown
    cases hs
    exact h.setOwner ⟨hown.1, hown.2.1, hown.2.2.2⟩
  · cases hs

/-- The shutdown store: workers do not mind it. -/
theorem Inv.beginDrop (hs : s.beginDrop = some s') : Inv c s' := by
  unfold HedgedRuntime.beginDrop at hs
  split at hs
  · next hcond =>
    obtain ⟨ho, hidle⟩ := hcond
    have hown := h.owner
    have hread := h.reader
    rw [ho] at hown
    rw [hidle] at hread
    cases hs
    refine { h with
      reader := ?_, workers := h.workers_frame rfl ?_ (Or.inr ⟨rfl, rfl, rfl⟩)
      owner := ⟨hidle, hown.1, rfl⟩, requestId_eq := Or.inr rfl }
    · show ReaderAt c _ s.reader
      rw [hidle]
      exact hread
    · exact ⟨Nat.le_refl _, fun _ => rfl, fun i r hc _ => hc, fun i r _ hst _ => hst⟩
  · cases hs

theorem Inv.dropStep (hs : s.dropStep c = some s') : Inv c s' := by
  have hown := h.owner
  have hread := h.reader
  unfold HedgedRuntime.dropStep at hs
  split at hs
  · next ho =>
    rw [ho] at hown
    obtain ⟨hidle, hmapped, hdown⟩ := hown
    rw [hidle] at hread
    cases hs
    refine { h with
      reader := ?_, owner := ⟨hidle, hmapped, hdown, nofun⟩, requestId_eq := Or.inr hdown }
    show ReaderAt c _ s.reader
    rw [hidle]
    exact hread
  · next replica ho =>
    rw [ho] at hown
    obtain ⟨hidle, hmapped, hdown, hjoined⟩ := hown
    split at hs
    · split at hs
      · next hstop =>
        cases hs
        refine h.setOwner ⟨hidle, hmapped, hdown, fun w hw => ?_⟩
        rcases Nat.lt_succ_iff_lt_or_eq.mp hw with hw | rfl
        · exact hjoined w hw
        · exact hstop
      · cases hs
    · -- every worker was joined, so the mapping can go
      next hall =>
      cases hs
      refine h.setOwner ⟨hidle, hdown, fun w => ?_⟩
      rcases h.base w with hun | hbase
      · exact Or.inr hun
      · have := ReplicatedBuffer.replicaBasePtr_ok_lt hbase
        exact Or.inl (hjoined w (by omega))
  · cases hs

end

/-! ## Runs -/

/-- A call in progress or returned is one more read. -/
theorem reads_step {a : Action} (hs : s.step c a = some s') :
    s'.reads = s.reads + a.isCall.toNat := by
  cases a with
  | new =>
    simp only [step, HedgedRuntime.newStep] at hs
    repeat' split at hs
    all_goals cases hs <;> rfl
  | spawnFails =>
    simp only [step, HedgedRuntime.spawnFails] at hs
    repeat' split at hs
    all_goals cases hs <;> rfl
  | unwind =>
    simp only [step, HedgedRuntime.unwind] at hs
    split at hs
    all_goals cases hs <;> rfl
  | beginDrop =>
    simp only [step, HedgedRuntime.beginDrop] at hs
    split at hs
    all_goals cases hs <;> rfl
  | drop =>
    simp only [step, HedgedRuntime.dropStep] at hs
    repeat' split at hs
    all_goals cases hs <;> rfl
  | worker w =>
    obtain ⟨state, wk, -, rfl⟩ := workerStep_cases hs
    rfl
  | call index =>
    simp only [step, HedgedRuntime.call] at hs
    split at hs
    · cases hs
    · split at hs
      · cases hs
        simp [reads, Action.isCall]
        omega
      · split at hs
        · next hidle =>
          cases hs
          simp [reads, Action.isCall, hidle]
        · cases hs
  | storeIndex =>
    simp only [step, HedgedRuntime.storeIndex] at hs
    split at hs
    · next hpc =>
      cases hs
      simp [reads, Action.isCall, hpc]
    · cases hs
  | storeState =>
    simp only [step, HedgedRuntime.storeState] at hs
    split at hs
    · next hpc =>
      cases hs
      simp [reads, Action.isCall, hpc]
    · cases hs
  | read =>
    simp only [step, HedgedRuntime.readStep] at hs
    repeat' split at hs
    all_goals cases hs <;> simp [reads, finish, Action.isCall, *]

/-- **Every step keeps the invariant.** -/
theorem Inv.step {a : Action} (h : Inv c s) (hreads : s'.reads < 2 ^ 62)
    (hs : s.step c a = some s') : Inv c s' := by
  have hle : s.reads ≤ s'.reads := by
    rw [reads_step hs]
    omega
  cases a with
  | new => exact h.newStep hs
  | spawnFails => exact h.spawnFails hs
  | unwind => exact h.unwind hs
  | call index => exact h.call hs
  | storeIndex => exact h.storeIndex hs
  | storeState => exact h.storeState hs
  | read => exact h.readStep (by omega) hs
  | worker w => exact h.workerStep hs
  | beginDrop => exact h.beginDrop hs
  | drop => exact h.dropStep hs

theorem inv_unspawned : Inv c unspawned where
  log_eq := rfl
  winner_eq := rfl
  next_pos := Nat.le_refl _
  next_le := Nat.le_refl _
  next_fits := Nat.one_le_two_pow
  reader := rfl
  workers := fun _ => ⟨Nat.le_refl _, trivial, nofun⟩
  alone := fun _ _ hw => hw.elim
  base := fun _ => Or.inl rfl
  owner := ⟨rfl, rfl, rfl, rfl⟩
  requestId_eq := Or.inl rfl
  returned := nofun

theorem new_ok {s₀ : HedgedRuntime V} (h : HedgedRuntime.new c = some (.ok s₀)) :
    s₀ = unspawned := by
  unfold HedgedRuntime.new at h
  repeat' split at h
  all_goals cases h
  all_goals rfl

theorem reads_reaches {acts : List Action} (hr : Reaches c acts s) :
    s.reads = acts.countP Action.isCall := by
  obtain ⟨s₀, h0, hrun⟩ := hr
  have hcount := StepRun.run_count (fun s a s' hs => reads_step (c := c) hs) hrun
  rw [hcount, new_ok h0, show (unspawned : HedgedRuntime V).reads = 0 from rfl, Nat.zero_add]

/-- **Every run keeps the invariant.** -/
theorem Inv.reaches {acts : List Action} (hr : Reaches c acts s)
    (hfew : FewReads acts) : Inv c s := by
  have hreads := reads_reaches hr
  obtain ⟨s₀, h0, hrun⟩ := hr
  refine StepRun.run_preserves_below (fun s a s' hs => ?_)
    (fun s a s' h hlt hs => h.step hlt hs) (new_ok h0 ▸ inv_unspawned) hrun (hreads ▸ hfew)
  rw [reads_step hs]
  exact Nat.le_add_right _ _

end HedgedRuntime

end Tailslayer
