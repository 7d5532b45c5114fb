import Tailslayer.RuntimeWorker

/-!
# The invariant of the runtime

`Inv c s`: what holds in every state of a runtime, whatever the schedule, as long
as the request ids fit their 62 bits.
Every step keeps it (`Inv.step`), hence every run does (`Inv.reaches`).

The read that holds the lock moves the stage by one `pending`, the one worker in
its claim section by `claimed` and `ready`; `ReaderAt` says at which stage the
read may be at each of its program points.
-/

namespace Tailslayer

open Word

variable {V : Type}

/-! ## Definitions -/

/-- Index and id of the request whose read is waiting. -/
def ReadPc.current : ReadPc → Option (Nat × Nat)
  | .checkShutdown index requestId => some (index, requestId)
  | .checkWinner index requestId => some (index, requestId)
  | .beginRead index requestId => some (index, requestId)
  | .endRead index requestId => some (index, requestId)
  | _ => none

/-- How many of the requests before `nextRequestId` still have to be published. -/
def ReadPc.unpublished : ReadPc → Nat
  | .publishing _ _ _ _ => 1
  | _ => 0

/-- Whether `nextRequestId` already counts the call that holds the lock. -/
def ReadPc.issued : ReadPc → Nat
  | .idle => 0
  | .locked _ => 0
  | _ => 1

namespace HedgedRuntime

def stage (s : HedgedRuntime V) : Nat := s.state.winnerLog.length

def view (s : HedgedRuntime V) : View V where
  published := s.nextRequestId - 1 - s.reader.unpublished
  current := s.reader.current
  stage := s.stage
  value := s.state.value
  shutdown := s.state.shutdown

/-- Calls of `read` so far. -/
def reads (s : HedgedRuntime V) : Nat := s.returned.length + if s.reader = .idle then 0 else 1

/-- Request `r` for `index` is the newest and visible. -/
structure Waiting (c : Config V) (nextRequestId requestIndex index r : Nat) : Prop where
  index_lt : index < c.buffer.len
  id_pos : 1 ≤ r
  next_eq : nextRequestId = r + 1
  index_eq : requestIndex = index

/-- Request `r` is answered with the value at `index`. -/
def Answered (c : Config V) (s : HedgedRuntime V) (index r : Nat) : Prop :=
  s.stage = 3 * r ∧ ∃ value, c.Element index value ∧ s.state.value = .init r value

/-- Some worker is in its claim section. -/
def Claimed (s : HedgedRuntime V) : Prop := ∃ w, InSection (s.workers w).pc

def ReaderAt (c : Config V) (s : HedgedRuntime V) : ReadPc → Prop
  | .idle => s.stage + 3 = 3 * s.nextRequestId
  | .locked index => index < c.buffer.len ∧ s.stage + 3 = 3 * s.nextRequestId
  | .publishing index r indexStored stateStored =>
    index < c.buffer.len ∧ 1 ≤ r ∧ s.nextRequestId = r + 1 ∧
      (indexStored = true → s.state.requestIndex = index) ∧
      s.stage + 3 = 3 * r + stateStored.toNat
  | .checkShutdown index r | .checkWinner index r =>
    Waiting c s.nextRequestId s.state.requestIndex index r ∧
      (s.stage + 2 = 3 * r ∨ s.stage + 1 = 3 * r ∧ s.Claimed ∨ s.Answered c index r)
  | .beginRead index r | .endRead index r =>
    Waiting c s.nextRequestId s.state.requestIndex index r ∧ s.Answered c index r

def OwnerAt (s : HedgedRuntime V) : Owner → Prop
  | .spawning _ | .unwinding =>
    s.nextRequestId = 1 ∧ s.reader = .idle ∧ s.mapped = true ∧ s.state.shutdown = false
  | .failed => s.nextRequestId = 1 ∧ s.reader = .idle ∧ s.state.shutdown = false
  | .serving => s.mapped = true ∧ s.state.shutdown = false
  | .closing => s.reader = .idle ∧ s.mapped = true ∧ s.state.shutdown = true
  | .joining replica =>
    s.reader = .idle ∧ s.mapped = true ∧ s.state.shutdown = true ∧
      ∀ w, w < replica → Stopped (s.workers w).pc
  | .dropped =>
    s.reader = .idle ∧ s.state.shutdown = true ∧
      ∀ w, Stopped (s.workers w).pc ∨ (s.workers w).pc = .unspawned

/-- A call returned its own element, or that there is none. -/
def ReturnOk (c : Config V) (e : ReadResult V) : Prop :=
  (e.index < c.buffer.len →
    ∃ writer value, e.result = .ok (.init writer value) ∧ c.Element e.index value) ∧
  (c.buffer.len ≤ e.index → e.result = .error (.outOfBounds e.index c.buffer.len))

structure Inv (c : Config V) (s : HedgedRuntime V) : Prop where
  log_eq : s.state.winnerLog = (List.range s.stage).map tagAt
  winner_eq : s.state.winnerState = lastTag s.stage
  next_pos : 1 ≤ s.nextRequestId
  next_le : s.nextRequestId ≤ s.returned.length + 1 + s.reader.issued
  next_fits : s.nextRequestId ≤ 2 ^ 62
  reader : s.ReaderAt c s.reader
  workers : ∀ w, WorkerInv c s.view (s.workers w)
  alone : ∀ w w', InSection (s.workers w).pc → InSection (s.workers w').pc → w = w'
  base : ∀ w, (s.workers w).pc = .unspawned ∨
    c.buffer.replicaBasePtr w = .ok (s.workers w).replicaBase
  owner : s.OwnerAt s.owner
  requestId_eq : s.state.requestId = s.view.published ∨ s.state.shutdown = true
  returned : ∀ e ∈ s.returned, ReturnOk c e

/-! ## What follows from it -/

section
variable {c : Config V} {s : HedgedRuntime V} (h : Inv c s)
include h

theorem Inv.current_spec {i r : Nat} (hc : s.reader.current = some (i, r)) :
    Waiting c s.nextRequestId s.state.requestIndex i r ∧
      (s.stage + 2 = 3 * r ∨ s.stage + 1 = 3 * r ∧ s.Claimed ∨ s.Answered c i r) := by
  have hr := h.reader
  cases hpc : s.reader with
  | idle | locked | publishing =>
    rw [hpc] at hc
    cases hc
  | checkShutdown | checkWinner =>
    rw [hpc] at hc hr
    cases hc
    exact hr
  | beginRead | endRead =>
    rw [hpc] at hc hr
    cases hc
    exact ⟨hr.1, Or.inr (Or.inr hr.2)⟩

/-- The stage never runs ahead of the ids that were handed out. -/
theorem Inv.stage_lt : s.stage < 3 * 2 ^ 62 - 2 := by
  have hr := h.reader
  have hfits := h.next_fits
  have hpos := h.next_pos
  cases hpc : s.reader with
  | idle =>
    rw [hpc] at hr
    simp only [ReaderAt] at hr
    omega
  | locked index =>
    rw [hpc] at hr
    obtain ⟨-, hst⟩ := hr
    omega
  | publishing index r indexStored stateStored =>
    rw [hpc] at hr
    obtain ⟨-, -, hnext, -, hst⟩ := hr
    have := stateStored.toNat_le
    omega
  | checkShutdown index r | checkWinner index r | beginRead index r | endRead index r =>
    obtain ⟨hw, hst⟩ := h.current_spec (by rw [hpc]; rfl)
    have := hw.next_eq
    rcases hst with hst | hst | hst
    · omega
    · omega
    · have := hst.1
      omega

/-- A published request that is pending is the one a read waits for. -/
theorem Inv.pending_spec {r : Nat} (hr : r ≤ s.view.published) (hst : s.stage + 2 = 3 * r) :
    ∃ i, s.reader.current = some (i, r) := by
  have hread := h.reader
  have hpos := h.next_pos
  cases hpc : s.reader with
  | idle =>
    rw [hpc] at hread
    simp only [ReaderAt] at hread
    omega
  | locked index =>
    rw [hpc] at hread
    have := hread.2
    omega
  | publishing index r' indexStored stateStored =>
    -- `pending r'` may be visible already, but `r'` itself is not
    rw [hpc] at hread
    obtain ⟨-, -, hnext, -, hst'⟩ := hread
    simp only [view, hpc, ReadPc.unpublished] at hr
    have := stateStored.toNat_le
    omega
  | checkShutdown index r' | checkWinner index r' | beginRead index r' | endRead index r' =>
    obtain ⟨hw, hst'⟩ := h.current_spec (by rw [hpc]; rfl)
    refine ⟨index, ?_⟩
    rcases hst' with hst' | hst' | hst'
    · rw [show r = r' by omega]
      rfl
    · omega
    · have := hst'.1
      omega

/-- A worker in its claim section has the request that a read waits for. -/
theorem Inv.section_spec {w : Nat} (hw : InSection (s.workers w).pc) :
    ∃ i r, s.reader.current = some (i, r) ∧ s.stage + 1 = 3 * r := by
  have hat := (h.workers w).at_pc
  cases hpc : (s.workers w).pc with
  | beginWrite requestId value =>
    rw [hpc] at hat
    obtain ⟨-, hst, i, hc, -⟩ := hat
    exact ⟨i, requestId, hc, hst⟩
  | endWrite requestId value =>
    rw [hpc] at hat
    obtain ⟨-, hst, -, i, hc, -⟩ := hat
    exact ⟨i, requestId, hc, hst⟩
  | publish requestId =>
    rw [hpc] at hat
    obtain ⟨-, hst, i, value, hc, -⟩ := hat
    exact ⟨i, requestId, hc, hst⟩
  | _ =>
    rw [hpc] at hw
    exact hw.elim

theorem Inv.finds : Finds c s.view s.state where
  requestId_eq := h.requestId_eq
  shutdown_eq := rfl
  index_eq := fun _ _ hc => ⟨(h.current_spec hc).1.index_eq, (h.current_spec hc).1.index_lt⟩
  winner_eq := fun _ _ _ hst => h.winner_eq.trans (lastTag_pending hst)

/-- Storing the next tag. -/
theorem Inv.storeWinner {tag : Nat} (ht : tagAt s.stage = tag) :
    (s.state.storeWinner tag).winnerLog =
        (List.range (s.state.storeWinner tag).winnerLog.length).map tagAt ∧
      (s.state.storeWinner tag).winnerState =
        lastTag (s.state.storeWinner tag).winnerLog.length := by
  have hlen : (s.state.storeWinner tag).winnerLog.length = s.stage + 1 := by
    simp [SharedState.storeWinner, stage]
  rw [hlen, List.range_succ, List.map_append, ← h.log_eq]
  subst ht
  exact ⟨rfl, rfl⟩

/-- A worker about to read memory finds it mapped, and has its replica's base. -/
theorem Inv.memory {w requestId index : Nat}
    (hpc : (s.workers w).pc = .readMemory requestId index) : s.mapped = true ∧
      ∃ replica, c.buffer.replicaBasePtr replica = .ok (s.workers w).replicaBase := by
  have hat := (h.workers w).at_pc
  have hseen := (h.workers w).seen_le
  have hown := h.owner
  rw [hpc] at hat
  constructor
  · cases ho : s.owner with
    | spawning | unwinding =>
      rw [ho] at hown
      exact hown.2.2.1
    | serving =>
      rw [ho] at hown
      exact hown.1
    | closing | joining =>
      rw [ho] at hown
      exact hown.2.1
    | failed =>
      -- no request was ever issued
      rw [ho] at hown
      obtain ⟨hseenId, hpos, -⟩ := hat
      simp only [view, hown.1] at hseen
      omega
    | dropped =>
      rw [ho] at hown
      rcases hown.2.2 w with hstop | hpc'
      · rw [hpc] at hstop
        exact hstop.elim
      · rw [hpc] at hpc'
        cases hpc'
  · rcases h.base w with hun | hbase
    · rw [hpc] at hun
      cases hun
    · exact ⟨w, hbase⟩

end

end HedgedRuntime

end Tailslayer
