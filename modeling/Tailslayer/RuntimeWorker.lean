import Tailslayer.Runtime

/-!
# What a worker of the runtime knows

`winner_state` goes through `tagAt 0, tagAt 1, …`: `pending`, `claimed`, `ready`
of request 1, of request 2, and so on.  The number of tags stored so far, the
`stage`, says where the protocol is:

    stage + 2 = 3 r   pending r          stage + 1 = 3 r   claimed r
    stage     = 3 r   ready r, the request is answered

`WorkerInv` says what a worker knows at each program point.  It looks at the rest
of the runtime through a `View` only, and `WorkerInv.frame` is how it survives
the steps of others: all that a worker between two accesses relies on is that the
view does not go back (`View.Le`), and inside its claim section that nobody else
touches it.  `WorkerInv.step` is how it survives the worker's own steps, those
aside that store something (`Worker.Stores`).
-/

namespace Tailslayer

open Word

/-! ## Tags -/

/-- The tag stored after `k` others. -/
def tagAt (k : Nat) : Nat :=
  match k % 3 with
  | 0 => pending (k / 3 + 1)
  | 1 => claimed (k / 3 + 1)
  | _ => ready (k / 3 + 1)

/-- `winner_state` after `n` stores. -/
def lastTag : Nat → Nat
  | 0 => 0
  | k + 1 => tagAt k

theorem pending_eq {r : Nat} (h : r < 2 ^ 62) : pending r = 4 * r := by
  unfold pending
  rw [Nat.shiftLeft_eq]
  omega

theorem claimed_eq {r : Nat} (h : r < 2 ^ 62) : claimed r = 4 * r + 1 := by
  unfold claimed
  rw [pending_eq h]
  exact (Nat.two_pow_add_eq_or_of_lt (i := 2) (b := 1) (by decide) r).symm

theorem ready_eq {r : Nat} (h : r < 2 ^ 62) : ready r = 4 * r + 2 := by
  unfold ready
  rw [pending_eq h]
  exact (Nat.two_pow_add_eq_or_of_lt (i := 2) (b := 2) (by decide) r).symm

theorem tagAt_pending {k r : Nat} (h : k + 3 = 3 * r) : tagAt k = pending r := by
  simp only [tagAt, show k % 3 = 0 by omega, show k / 3 + 1 = r by omega]

theorem tagAt_claimed {k r : Nat} (h : k + 2 = 3 * r) : tagAt k = claimed r := by
  simp only [tagAt, show k % 3 = 1 by omega, show k / 3 + 1 = r by omega]

theorem tagAt_ready {k r : Nat} (h : k + 1 = 3 * r) : tagAt k = ready r := by
  simp only [tagAt, show k % 3 = 2 by omega, show k / 3 + 1 = r by omega]

/-- While the request ids fit their 62 bits, tags are numbers in order. -/
theorem tagAt_eq {k : Nat} (h : k / 3 + 1 < 2 ^ 62) : tagAt k = 4 * (k / 3 + 1) + k % 3 := by
  have hk : k % 3 = 0 ∨ k % 3 = 1 ∨ k % 3 = 2 := by omega
  unfold tagAt
  rcases hk with hk | hk | hk
  · simp only [hk]
    exact pending_eq h
  · simp only [hk]
    exact claimed_eq h
  · simp only [hk]
    exact ready_eq h

theorem tagAt_lt {j k : Nat} (hjk : j < k) (h : k / 3 + 1 < 2 ^ 62) : tagAt j < tagAt k := by
  rw [tagAt_eq h, tagAt_eq (by omega)]
  omega

theorem lastTag_pending {n r : Nat} (h : n + 2 = 3 * r) : lastTag n = pending r := by
  cases n with
  | zero => omega
  | succ k => exact tagAt_pending h

theorem lastTag_claimed {n r : Nat} (h : n + 1 = 3 * r) : lastTag n = claimed r := by
  cases n with
  | zero => omega
  | succ k => exact tagAt_claimed h

theorem lastTag_ready {n r : Nat} (hr : 1 ≤ r) (h : n = 3 * r) : lastTag n = ready r := by
  cases n with
  | zero => omega
  | succ k => exact tagAt_ready h

/-- `winner_state` is `pending r` only in the stage for it. -/
theorem lastTag_eq_pending_iff {n r : Nat} (hr : 1 ≤ r) (hr' : r < 2 ^ 62)
    (hn : n < 3 * 2 ^ 62 - 2) : lastTag n = pending r ↔ n + 2 = 3 * r := by
  cases n with
  | zero =>
    rw [pending_eq hr', lastTag]
    omega
  | succ k =>
    rw [lastTag, tagAt_eq (by omega), pending_eq hr']
    omega

theorem lastTag_eq_ready_iff {n r : Nat} (hr' : r < 2 ^ 62) (hn : n < 3 * 2 ^ 62 - 2) :
    lastTag n = ready r ↔ 1 ≤ r ∧ n = 3 * r := by
  cases n with
  | zero =>
    rw [ready_eq hr', lastTag]
    omega
  | succ k =>
    rw [lastTag, tagAt_eq (by omega), ready_eq hr']
    omega

/-! ## What a worker knows -/

variable {V : Type}

/-- The runtime as far as a worker depends on it. -/
structure View (V : Type) where
  /-- the last request whose id was stored to `request_id` by a read -/
  published : Nat
  /-- index and id of the request whose read is waiting -/
  current : Option (Nat × Nat)
  /-- how many tags `winner_state` was given -/
  stage : Nat
  value : Cell V
  shutdown : Bool

/-- Between a successful `compare_exchange` and the `ready` store. -/
def InSection : WorkerPc V → Prop
  | .beginWrite _ _ | .endWrite _ _ | .publish _ => True
  | _ => False

/-- On its way to claim request `r`. -/
def Serves (r : Nat) : WorkerPc V → Prop
  | .loadIndex requestId => requestId = r
  | .readMemory requestId _ => requestId = r
  | .claim requestId _ => requestId = r
  | _ => False

/-- `value` is what some replica holds as element `index`. -/
def Config.Element (c : Config V) (index : Nat) (value : V) : Prop :=
  index < c.buffer.len ∧ ∃ replica base, c.buffer.replicaBasePtr replica = .ok base ∧
    c.buffer.storage.slots (base + c.buffer.layout.elementOffset usize index) = value

/-- What a worker that has seen request `seen` knows at its program point. -/
def AtPc (c : Config V) (v : View V) (seen : Nat) : WorkerPc V → Prop
  | .unspawned | .pinning | .loopTop | .loadId => True
  | .ended => v.shutdown = true
  | .faulted => False
  | .recheck requestId => 1 ≤ requestId ∧ (requestId ≤ v.published ∨ v.shutdown = true)
  | .loadIndex requestId => seen = requestId ∧ 1 ≤ requestId
  | .readMemory requestId index =>
    seen = requestId ∧ 1 ≤ requestId ∧ index < c.buffer.len ∧
      ∀ i, v.current = some (i, requestId) → index = i
  | .claim requestId value =>
    seen = requestId ∧ 1 ≤ requestId ∧ ∀ i, v.current = some (i, requestId) → c.Element i value
  | .beginWrite requestId value =>
    seen = requestId ∧ v.stage + 1 = 3 * requestId ∧
      ∃ i, v.current = some (i, requestId) ∧ c.Element i value
  | .endWrite requestId value =>
    seen = requestId ∧ v.stage + 1 = 3 * requestId ∧ v.value = .torn ∧
      ∃ i, v.current = some (i, requestId) ∧ c.Element i value
  | .publish requestId =>
    seen = requestId ∧ v.stage + 1 = 3 * requestId ∧
      ∃ i value, v.current = some (i, requestId) ∧ c.Element i value ∧
        v.value = .init requestId value

structure WorkerInv (c : Config V) (v : View V) (wk : Worker V) : Prop where
  seen_le : wk.seenRequest ≤ v.published
  at_pc : AtPc c v wk.seenRequest wk.pc
  /-- a pending request that the worker has seen is one it still serves -/
  settled : ∀ i r, v.current = some (i, r) → v.stage + 2 = 3 * r → wk.seenRequest = r →
    Serves r wk.pc

/-- `v'` is `v` or later: a waiting request that `v` knew is still the same. -/
structure View.Le (v v' : View V) : Prop where
  published : v.published ≤ v'.published
  shutdown : v.shutdown = true → v'.shutdown = true
  fresh : ∀ i r, v'.current = some (i, r) → r ≤ v.published → v.current = some (i, r)
  settled : ∀ i r, v'.current = some (i, r) → v'.stage + 2 = 3 * r → r ≤ v.published →
    v.stage + 2 = 3 * r

/-- The cell does not count. -/
theorem View.le_of_eq {v v' : View V} (hp : v'.published = v.published)
    (hc : v'.current = v.current) (hs : v'.stage = v.stage) (hd : v'.shutdown = v.shutdown) :
    v.Le v' :=
  ⟨Nat.le_of_eq hp.symm, fun h => hd.trans h, fun _ _ h _ => hc ▸ h, fun _ _ _ h _ => hs ▸ h⟩

section
variable {c : Config V} {v v' : View V} (hle : v.Le v')
include hle

theorem AtPc.frame {seen : Nat} {pc : WorkerPc V} (hseen : seen ≤ v.published)
    (hsec : InSection pc → v'.current = v.current ∧ v'.stage = v.stage ∧ v'.value = v.value)
    (h : AtPc c v seen pc) : AtPc c v' seen pc := by
  cases pc with
  | unspawned | pinning | loopTop | loadId => trivial
  | ended => exact hle.shutdown h
  | faulted => exact h
  | recheck requestId =>
    exact ⟨h.1, h.2.imp (fun h => Nat.le_trans h hle.published) hle.shutdown⟩
  | loadIndex requestId => exact h
  | readMemory requestId index =>
    obtain ⟨h1, h2, h3, h4⟩ := h
    exact ⟨h1, h2, h3, fun i hc => h4 i (hle.fresh i _ hc (h1 ▸ hseen))⟩
  | claim requestId value =>
    obtain ⟨h1, h2, h3⟩ := h
    exact ⟨h1, h2, fun i hc => h3 i (hle.fresh i _ hc (h1 ▸ hseen))⟩
  | beginWrite | endWrite | publish =>
    obtain ⟨hcur, hstage, hvalue⟩ := hsec trivial
    simpa only [AtPc, hcur, hstage, hvalue] using h

/-- **The steps of others.**  A worker's knowledge survives a later view, its
claim section one that shows the same there. -/
theorem WorkerInv.frame {wk : Worker V}
    (hsec : InSection wk.pc → v'.current = v.current ∧ v'.stage = v.stage ∧ v'.value = v.value)
    (h : WorkerInv c v wk) : WorkerInv c v' wk := by
  refine ⟨Nat.le_trans h.seen_le hle.published, h.at_pc.frame hle h.seen_le hsec,
    fun i r hc hst hr => ?_⟩
  have hseen : r ≤ v.published := hr ▸ h.seen_le
  exact h.settled i r (hle.fresh i r hc hseen) (hle.settled i r hc hst hseen) hr

end

/-! ## A worker's own step -/

/-- The accesses of a worker that change what is shared. -/
inductive Worker.Stores (state : SharedState V) (wk : Worker V) :
    SharedState V → Worker V → Prop where
  | claim (requestId : Nat) (value : V) (hpc : wk.pc = .claim requestId value)
      (hcas : state.winnerState = pending requestId) :
      Stores state wk (state.storeWinner (claimed requestId))
        { wk with pc := .beginWrite requestId value }
  | beginWrite (requestId : Nat) (value : V) (hpc : wk.pc = .beginWrite requestId value) :
      Stores state wk { state with value := .torn } { wk with pc := .endWrite requestId value }
  | endWrite (requestId : Nat) (value : V) (hpc : wk.pc = .endWrite requestId value) :
      Stores state wk { state with value := .init requestId value }
        { wk with pc := .publish requestId }
  | publish (requestId : Nat) (hpc : wk.pc = .publish requestId) :
      Stores state wk (state.storeWinner (ready requestId)) { wk with pc := .loopTop }

/-- What a worker finds in the shared words, seen from its view. -/
structure Finds (c : Config V) (v : View V) (state : SharedState V) : Prop where
  requestId_eq : state.requestId = v.published ∨ v.shutdown = true
  shutdown_eq : state.shutdown = v.shutdown
  index_eq : ∀ i r, v.current = some (i, r) → state.requestIndex = i ∧ i < c.buffer.len
  winner_eq : ∀ i r, v.current = some (i, r) → v.stage + 2 = 3 * r →
    state.winnerState = pending r

section
variable {c : Config V} {v : View V} {mapped : Bool} {state state' : SharedState V}
  {wk wk' : Worker V}

/-- What any step of a worker leaves alone. -/
theorem Worker.step_frame (h : wk.step c mapped state = some (state', wk')) :
    wk'.replicaBase = wk.replicaBase ∧ wk.pc ≠ .unspawned ∧ ¬ HedgedRuntime.Stopped wk.pc ∧
      state'.requestId = state.requestId ∧ state'.requestIndex = state.requestIndex ∧
      state'.shutdown = state.shutdown := by
  unfold Worker.step at h
  cases hpc : wk.pc <;> simp only [hpc] at h
  all_goals
    repeat' split at h
    all_goals cases h <;> exact ⟨rfl, by simp, id, rfl, rfl, rfl⟩

/-- In its claim section a worker does nothing but store. -/
theorem Worker.stores_of_section (hsec : InSection wk.pc)
    (h : wk.step c mapped state = some (state', wk')) : Worker.Stores state wk state' wk' := by
  unfold Worker.step at h
  cases hpc : wk.pc with
  | beginWrite requestId value =>
    rw [hpc] at h
    cases h
    exact .beginWrite requestId value hpc
  | endWrite requestId value =>
    rw [hpc] at h
    cases h
    exact .endWrite requestId value hpc
  | publish requestId =>
    rw [hpc] at h
    cases h
    exact .publish requestId hpc
  | _ =>
    rw [hpc] at hsec
    exact hsec.elim

/-- A worker that serves no request has seen no pending one, so it may go anywhere. -/
theorem WorkerInv.moveTo (h : WorkerInv c v wk) (hpc : ∀ r, ¬ Serves r wk.pc) {pc : WorkerPc V}
    (hat : AtPc c v wk.seenRequest pc) : WorkerInv c v { wk with pc := pc } :=
  ⟨h.seen_le, hat, fun i r hc hst hr => absurd (h.settled i r hc hst hr) (hpc r)⟩

/-- A step that stores nothing keeps the worker's knowledge. -/
theorem WorkerInv.step (hfind : Finds c v state)
    (hmem : ∀ requestId index, wk.pc = .readMemory requestId index → mapped = true ∧
      ∃ replica, c.buffer.replicaBasePtr replica = .ok wk.replicaBase)
    (h : WorkerInv c v wk) (hstep : wk.step c mapped state = some (state', wk')) :
    Worker.Stores state wk state' wk' ∨
      state' = state ∧ WorkerInv c v wk' ∧ ¬ InSection wk'.pc := by
  have hat := h.at_pc
  have hseen := h.seen_le
  have hset := h.settled
  have hsection := fun hsec => Worker.stores_of_section hsec hstep
  unfold Worker.step at hstep
  cases hpc : wk.pc with
  | unspawned | ended | faulted =>
    simp [hpc] at hstep
  | pinning =>
    have hidle : ∀ r, ¬ Serves r wk.pc := by simp [hpc, Serves]
    rw [hpc] at hstep
    dsimp only at hstep
    right
    split at hstep
    · cases hstep
      exact ⟨rfl, h.moveTo hidle trivial, id⟩
    · split at hstep
      · cases hstep
      · cases hstep
        exact ⟨rfl, h.moveTo hidle trivial, id⟩
  | loopTop =>
    have hidle : ∀ r, ¬ Serves r wk.pc := by simp [hpc, Serves]
    rw [hpc] at hstep
    dsimp only at hstep
    right
    split at hstep
    · next hdown =>
      cases hstep
      exact ⟨rfl, h.moveTo hidle (hfind.shutdown_eq.symm.trans hdown), id⟩
    · cases hstep
      exact ⟨rfl, h.moveTo hidle trivial, id⟩
  | loadId =>
    have hidle : ∀ r, ¬ Serves r wk.pc := by simp [hpc, Serves]
    rw [hpc] at hstep
    dsimp only at hstep
    right
    split at hstep
    · cases hstep
      exact ⟨rfl, h.moveTo hidle trivial, id⟩
    · cases hstep
      refine ⟨rfl, h.moveTo hidle ⟨by omega, hfind.requestId_eq.imp Nat.le_of_eq id⟩, id⟩
  | recheck requestId =>
    have hidle : ∀ r, ¬ Serves r wk.pc := by simp [hpc, Serves]
    rw [hpc] at hstep hat
    dsimp only at hstep
    right
    split at hstep
    · next hdown =>
      cases hstep
      exact ⟨rfl, h.moveTo hidle (hfind.shutdown_eq.symm.trans hdown), id⟩
    · next hup =>
      -- the second load saw no shutdown, so the id is a read's
      cases hstep
      rw [hfind.shutdown_eq] at hup
      have hle : requestId ≤ v.published := hat.2.resolve_right hup
      exact ⟨rfl, ⟨hle, ⟨rfl, hat.1⟩, fun i r _ _ hr => hr⟩, id⟩
  | loadIndex requestId =>
    rw [hpc] at hstep hat hset
    dsimp only at hstep
    right
    split at hstep
    · next hskip =>
      -- the index of a waiting request is in range
      cases hstep
      refine ⟨rfl, ⟨hseen, trivial, fun i r hc hst hr => ?_⟩, id⟩
      have := hfind.index_eq i r hc
      omega
    · next hidx =>
      cases hstep
      refine ⟨rfl, ⟨hseen, ⟨hat.1, hat.2, by omega, fun i hc => (hfind.index_eq i _ hc).1⟩,
        hset⟩, id⟩
  | readMemory requestId index =>
    rw [hpc] at hstep hat hset
    obtain ⟨h1, h2, h3, h4⟩ := hat
    obtain ⟨hmapped, replica, hbase⟩ := hmem requestId index hpc
    dsimp only at hstep
    right
    rw [if_pos hmapped] at hstep
    cases hstep
    refine ⟨rfl, ⟨hseen, ⟨h1, h2, fun i hc => ?_⟩, hset⟩, id⟩
    rw [← h4 i hc]
    exact ⟨h3, replica, _, hbase, rfl⟩
  | claim requestId value =>
    rw [hpc] at hstep hset
    dsimp only at hstep
    split at hstep
    · next hcas =>
      cases hstep
      exact Or.inl (.claim requestId value hpc hcas)
    · next hcas =>
      -- the request is pending for someone else only
      cases hstep
      refine Or.inr ⟨rfl, ⟨hseen, trivial, fun i r hc hst hr => ?_⟩, id⟩
      have hserve : requestId = r := hset i r hc hst hr
      exact absurd (hserve ▸ hfind.winner_eq i r hc hst) hcas
  | beginWrite | endWrite | publish =>
    exact Or.inl (hsection (by rw [hpc]; trivial))

end

end Tailslayer
