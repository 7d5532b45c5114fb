import Mathlib.Data.List.Nodup
import Tailslayer.RuntimeSteps
import Tailslayer.StorageRefine

/-!
# What `read` returns

In every run over a buffer that holds `xs`, a returned read of `index` carries
`xs[index]` (`read_returns_own_value`), because the cell belongs to one request
at a time (`cell_exclusive`): the tags go `pending`, `claimed`, `ready` from one
request to the next, one worker is between the last two, and the read looks at
the cell after them.
-/

namespace Tailslayer

open Word

namespace HedgedRuntime

variable {V : Type}

/-! ## The order of tags -/

theorem pairwise_tags {n : Nat} (hn : n < 3 * 2 ^ 62 - 2) :
    ((List.range n).map tagAt).Pairwise (· < ·) := by
  rw [List.pairwise_map]
  refine List.pairwise_lt_range.imp_of_mem fun _ hk hlt => tagAt_lt hlt ?_
  have := List.mem_range.mp hk
  omega

/-- Each tag is stored once. -/
theorem count_tag {n k : Nat} (hn : n < 3 * 2 ^ 62 - 2) (hk : k < n) :
    ((List.range n).map tagAt).count (tagAt k) = 1 := by
  refine List.count_eq_one_of_mem ?_ (List.mem_map.mpr ⟨k, List.mem_range.mpr hk, rfl⟩)
  exact (pairwise_tags hn).imp Nat.ne_of_lt

section
variable {c : Config V} {s : HedgedRuntime V} (h : Inv c s)
include h

/-- Once its read has seen `ready`, all three tags of a request are stored. -/
theorem Inv.answered_le {r : Nat} (hr : r < s.nextRequestId)
    (hpub : ∀ index indexStored stateStored,
      s.reader ≠ .publishing index r indexStored stateStored)
    (hwait : ∀ index, s.reader ≠ .checkShutdown index r ∧ s.reader ≠ .checkWinner index r) :
    3 * r ≤ s.stage := by
  have hread := h.reader
  cases hpc : s.reader with
  | idle =>
    rw [hpc] at hread
    simp only [ReaderAt] at hread
    omega
  | locked index =>
    rw [hpc] at hread
    have := hread.2
    omega
  | publishing index r' indexStored stateStored =>
    rw [hpc] at hread
    obtain ⟨-, -, hn, -, hst⟩ := hread
    have hne : r ≠ r' := by
      intro he
      exact hpub index indexStored stateStored (he ▸ hpc)
    omega
  | checkShutdown index r' | checkWinner index r' =>
    rw [hpc] at hread
    have hn := hread.1.next_eq
    have hne : r ≠ r' := by
      intro he
      first
        | exact (hwait index).1 (he ▸ hpc)
        | exact (hwait index).2 (he ▸ hpc)
    rcases hread.2 with hst | hst | hst
    · omega
    · omega
    · have := hst.1
      omega
  | beginRead index r' | endRead index r' =>
    rw [hpc] at hread
    have hn := hread.1.next_eq
    have hst := hread.2.1
    omega

/-- No worker changes `winner_state` once it is `ready`. -/
theorem Inv.ready_stays {r w : Nat} {s' : HedgedRuntime V}
    (hr : r < s.nextRequestId) (hready : s.state.winnerState = ready r)
    (hs : s.step c (.worker w) = some s') : s'.state.winnerState = ready r := by
  have hfits := h.next_fits
  have hst : s.stage = 3 * r := by
    rw [h.winner_eq] at hready
    exact ((lastTag_eq_ready_iff (by omega) h.stage_lt).mp hready).2
  have hnone : ¬ InSection (s.workers w).pc := by
    intro hw
    obtain ⟨i, r', -, hst'⟩ := h.section_spec hw
    omega
  rcases h.workerStep_state hnone hs with hstate | ⟨requestId, value, -, hcas⟩
  · rw [hstate]
    exact hready
  · -- `pending` has other low bits than `ready`
    have hp : pending requestId % 4 = 0 := by
      unfold pending
      rw [Nat.shiftLeft_eq]
      omega
    rw [hcas, ready_eq (by omega)] at hready
    omega

end

/-! ## A run -/

/-- Two replicas of the bytes 7 and 8. -/
def twoBytes : Config Nat where
  host := grantingHost
  buffer := (ReplicatedBuffer.extendFromSlice
    { layout := .precompute usize 1 .default
      capacity := 2
      len := 0
      storage := ⟨1 <<< 40, 1 <<< 21, fun _ => 0⟩ } [7, 8]).1
  cpuPinning := .none

theorem twoBytes_holds : twoBytes.buffer.Holds [7, 8] := by
  have hacc : LayoutSpec.default.Accepted 1 :=
    ⟨by decide, by decide, by decide, by decide, by decide, by decide⟩
  refine (ReplicatedBuffer.extendFromSlice_refines [7, 8] _ (BoundedList.empty : BoundedList Nat 2)
    (ReplicatedBuffer.placed_of_fits hacc rfl (by decide)) rfl ⟨rfl, by decide, ?_, ?_⟩).1
  · intro r i hi
    cases hi
  · intro r i hi
    cases hi

/-- Both workers are spawned and a read of `index` is published. -/
def askedRead (index : Nat) : List Action :=
  [.new, .new, .new, .worker 0, .call index, .read, .storeState, .storeIndex, .read]

/-- Worker 0 serves the read in full. -/
def servedRead (index : Nat) : List Action :=
  askedRead index ++ List.replicate 9 (.worker 0) ++ List.replicate 4 .read

/-! ## Reads -/

/-- **`read` returns its own element.**  In range it returns the value at its
index, which the cell holds in full; out of range an error, and nothing else
happens. -/
theorem read_returns_own_value (c : Config V) (xs : List V) (hb : c.buffer.Holds xs)
    (acts : List Action) (s : HedgedRuntime V) (hr : Reaches c acts s) (hfew : FewReads acts) :
    (∀ e ∈ s.returned,
      (∀ h : e.index < xs.length, ∃ writer, e.result = .ok (.init writer xs[e.index])) ∧
      (xs.length ≤ e.index → e.result = .error (.outOfBounds e.index xs.length))) ∧
    (∀ index s', xs.length ≤ index → s.step c (.call index) = some s' →
      s' = { s with
        returned := s.returned ++ [⟨index, .error (.outOfBounds index xs.length)⟩] }) := by
  have h := Inv.reaches hr hfew
  refine ⟨fun e he => ?_, fun index s' hi hs => ?_⟩
  · obtain ⟨hin, hout⟩ := h.returned e he
    rw [← hb.len_eq] at hin hout
    refine ⟨fun hlt => ?_, hout⟩
    obtain ⟨writer, value, hres, -, replica, base, hbase, hslot⟩ := hin hlt
    obtain ⟨base', hbase', hslot'⟩ :=
      hb.worker replica e.index hlt (ReplicatedBuffer.replicaBasePtr_ok_lt hbase)
    rw [hbase] at hbase'
    cases hbase'
    exact ⟨writer, by rw [hres, ← hslot, hslot']⟩
  · simp only [step, call] at hs
    split at hs
    · cases hs
    · rw [if_pos (by rw [← hb.len_eq]; exact hi)] at hs
      cases hs
      rw [hb.len_eq]

/-- Worker 0 answers a read of index 1. -/
theorem read_returns_own_value_byte :
    ∃ s, Reaches twoBytes (servedRead 1) s ∧ s.returned.map (·.index) = [1] ∧
      ∀ e ∈ s.returned, ∀ h : e.index < 2,
        ∃ writer, e.result = .ok (.init writer ([7, 8] : List Nat)[e.index]) :=
  ⟨_, ⟨_, rfl, rfl⟩, rfl, fun e he h => ((read_returns_own_value twoBytes [7, 8] twoBytes_holds
    (servedRead 1) _ ⟨_, rfl, rfl⟩ (by decide)).1 e he).1 h⟩

/-- **One request has the cell at a time.** -/
theorem cell_exclusive (c : Config V) (acts : List Action) (s : HedgedRuntime V)
    (hr : Reaches c acts s) (hfew : FewReads acts) :
    -- between its compare_exchange and its `ready` store a worker is alone
    (∀ w w', InSection (s.workers w).pc → InSection (s.workers w').pc → w = w') ∧
    -- a read that looks at the cell finds it written for it, and no worker there
    (∀ index r, s.reader = .beginRead index r ∨ s.reader = .endRead index r →
      (∀ w, ¬ InSection (s.workers w).pc) ∧
      ∃ value, s.state.value = .init r value) ∧
    -- the tags are those of request 1, of request 2, and so on, in increasing order
    s.state.winnerLog = (List.range s.state.winnerLog.length).map tagAt ∧
    s.state.winnerLog.Pairwise (· < ·) ∧
    s.state.winnerState = lastTag s.state.winnerLog.length ∧
    -- a request is claimed once before its read returns, and answered once
    (∀ r, 1 ≤ r → r < s.nextRequestId →
      (∀ index indexStored stateStored,
        s.reader ≠ .publishing index r indexStored stateStored) →
      (∀ index, s.reader ≠ .checkShutdown index r ∧ s.reader ≠ .checkWinner index r) →
      s.state.winnerLog.count (claimed r) = 1 ∧ s.state.winnerLog.count (ready r) = 1) ∧
    -- no worker overwrites a `ready` mark
    (∀ r w s', r < s.nextRequestId → s.state.winnerState = ready r →
      s.step c (.worker w) = some s' → s'.state.winnerState = ready r) := by
  have h := Inv.reaches hr hfew
  have hlt := h.stage_lt
  refine ⟨h.alone, fun index r hpc => ?_, h.log_eq, h.log_eq ▸ pairwise_tags hlt, h.winner_eq,
    fun r hr hn hpub hwait => ?_, fun r w s' hr => h.ready_stays hr⟩
  · have hread : Waiting c s.nextRequestId s.state.requestIndex index r ∧ s.Answered c index r := by
      have := h.reader
      rcases hpc with hpc | hpc
      · rwa [hpc] at this
      · rwa [hpc] at this
    obtain ⟨-, hst, hvalue⟩ := hread
    refine ⟨fun w hw => ?_, hvalue.imp fun _ hv => hv.2⟩
    obtain ⟨i, r', -, hst'⟩ := h.section_spec hw
    omega
  · have hle := h.answered_le hn hpub hwait
    have hclaimed := count_tag hlt (show 3 * r - 2 < s.stage by omega)
    have hready := count_tag hlt (show 3 * r - 1 < s.stage by omega)
    rw [tagAt_claimed (by omega : 3 * r - 2 + 2 = 3 * r), ← h.log_eq] at hclaimed
    rw [tagAt_ready (by omega : 3 * r - 1 + 1 = 3 * r), ← h.log_eq] at hready
    exact ⟨hclaimed, hready⟩

/-- The tags of a read that worker 0 answers. -/
theorem cell_exclusive_byte :
    ∃ s, Reaches twoBytes (servedRead 1) s ∧ s.state.winnerLog.length = 3 ∧
      s.state.winnerLog = (List.range s.state.winnerLog.length).map tagAt :=
  ⟨_, ⟨_, rfl, rfl⟩, rfl, (cell_exclusive twoBytes (servedRead 1) _
    ⟨_, rfl, rfl⟩ (by decide)).2.2.1⟩

end HedgedRuntime

end Tailslayer
