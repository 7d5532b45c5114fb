import Tailslayer.LowLevelSteps
import Tailslayer.StorageBounds

/-!
# The life cycle holds for every reader that is sized exactly

Addresses that do not wrap are all that the life cycle asks of the layout:

    SizedExactly, s reached from the built reader  →  LifeCycle s   (reader_life_cycle)

Where the stride wraps, elements share slots and a worker hands out another one.
-/

namespace Tailslayer

open Word

variable {V : Type}

namespace ReaderSession

section
variable {host : Host} {σ : Nat → Nat → Nat} {capacity : Nat} {s : ReaderSession V}
  (h : Inv host σ capacity s)
include h

/-! ## Calls return -/

theorem Inv.starts {replica : Nat} (ho : s.owner = .starting replica) : ∃ n s',
    StepRun.run (ReaderSession.step host) s (List.replicate n .spawn) = some s' ∧
      s'.owner = .idle ∧ s'.returned = s.returned ++ [(.startWorkers, .ok ())] := by
  have hrun : ∃ n s', n ≤ s.reader.buffer.replicas - s.threads.length + 1 ∧
      StepRun.run (ReaderSession.step host) s (List.replicate n .spawn) = some s' ∧
      (s'.owner = .idle ∧ s'.returned = s.returned ++ [(.startWorkers, .ok ())]) := by
    refine StepRun.run_replicate_of_rank (P := fun t => Inv host σ capacity t ∧
      t.returned = s.returned ∧ ∃ replica, t.owner = .starting replica)
      (fun t => t.reader.buffer.replicas - t.threads.length) ?_ ⟨h, rfl, _, ho⟩
    rintro t ⟨ht, hret, replica, ho⟩
    right
    have hlen : t.threads.length = replica := by
      have hown := ht.owner
      rw [ho] at hown
      exact hown.2.2.1
    rcases ht.spawn_cases ho with ⟨-, hstep⟩ | ⟨core, base, hcore, hbase, hlt, hstep⟩
    · refine ⟨_, hstep, Or.inl ⟨rfl, ?_⟩⟩
      rw [← hret]
      rfl
    · refine ⟨_, hstep, Or.inr ⟨⟨ht.spawnStep hstep, hret, _, rfl⟩, ?_⟩⟩
      simp only [List.length_append, List.length_singleton]
      omega
  obtain ⟨n, s', -, hrun⟩ := hrun
  exact ⟨n, s', hrun⟩

theorem Inv.joins {panicCount : Nat} (ho : s.owner = .joining panicCount)
    (hended : ∀ wk ∈ s.threads, wk.pc.joined ≠ none) : ∃ n s',
    StepRun.run (ReaderSession.step host) s (List.replicate n .join) = some s' ∧
      s'.owner = .idle ∧
      s'.returned = s.returned ++ [(.join, (s.phase capacity).answer s.panics .join)] := by
  have hrun : ∃ n s', n ≤ s.reader.workers.length + 1 ∧
      StepRun.run (ReaderSession.step host) s (List.replicate n .join) = some s' ∧
      (s'.owner = .idle ∧
        s'.returned = s.returned ++ [(.join, (s.phase capacity).answer s.panics .join)]) := by
    refine StepRun.run_replicate_of_rank (P := fun t => Inv host σ capacity t ∧
      t.returned = s.returned ∧ t.threads = s.threads ∧
      ∃ panicCount, t.owner = .joining panicCount)
      (fun t => t.reader.workers.length) ?_ ⟨h, rfl, rfl, _, ho⟩
    rintro t ⟨ht, hret, hthreads, panicCount, ho⟩
    right
    cases hw : t.reader.workers with
    | nil =>
      have hanswer := ht.join_answer ho hw
      have hsame : (t.phase capacity).answer t.panics .join =
          (s.phase capacity).answer s.panics .join := by
        rw [phase, phase, hret, panics, panics, hthreads]
      refine ⟨t.finish .join ((t.phase capacity).answer t.panics .join), ?_, Or.inl ⟨rfl, ?_⟩⟩
      · rw [hanswer]
        simp only [ReaderSession.step, ReaderSession.joinStep, ho, hw]
        split
        · rfl
        · rfl
      · rw [hsame, ← hret]
        rfl
    | cons worker rest =>
      have hown := ht.owner
      rw [ho] at hown
      obtain ⟨-, -, k, hk, -, -⟩ := hown
      obtain ⟨panicked, hnext⟩ := hk.joinNext_some hw (hthreads ▸ hended)
      have hstep : t.joinStep = some { t with
          reader := { t.reader with workers := rest }
          owner := .joining (if panicked then panicCount + 1 else panicCount) } := by
        simp only [ReaderSession.joinStep, ho, hw, hnext]
      exact ⟨_, hstep, Or.inr ⟨⟨ht.joinStep hstep, hret, hthreads, _, rfl⟩, Nat.lt_succ_self _⟩⟩
  obtain ⟨n, s', -, hrun⟩ := hrun
  exact ⟨n, s', hrun⟩

/-- **The invariant is the life cycle.** -/
theorem Inv.lifeCycle : LifeCycle host capacity s where
  contents := h.contents
  answers := h.answers
  fills := by
    intro _ hidle call hstart hjoin
    cases call with
    | insert value =>
      refine ⟨_, if_neg (not_not_intro hidle), rfl, ?_⟩
      rw [← (h.insert hidle value).1]
      rfl
    | extendFromSlice values =>
      refine ⟨_, if_neg (not_not_intro hidle), rfl, ?_⟩
      rw [← (h.extendFromSlice hidle values).1]
      rfl
    | startWorkers => exact absurd rfl hstart
    | join => exact absurd rfl hjoin
  refused := by
    intro hst hidle call hjoin
    have hstarted := (h.started_of_idle hidle).trans hst
    refine (if_neg (not_not_intro hidle)).trans ?_
    cases call with
    | insert value =>
      simp [LinuxHedgedReader.insert, LinuxHedgedReader.modify_refused hstarted, finish, hidle]
    | extendFromSlice values =>
      simp [LinuxHedgedReader.extendFromSlice, LinuxHedgedReader.modify_refused hstarted, finish,
        hidle]
    | startWorkers =>
      simp [LinuxHedgedReader.ensureNotStarted_refused hstarted, finish, hidle]
    | join => exact absurd rfl hjoin
  spawned := by
    intro hst hnot
    have hlen := h.length_eq hnot
    rw [spawnedIn, hst] at hlen
    exact List.length_eq_zero_iff.mp hlen
  spawned_each := by
    intro hst
    have hlen := h.length_eq (h.not_starting hst)
    rw [spawnedIn, if_pos hst] at hlen
    exact ⟨hlen, fun w wk hw => ⟨(h.threads w wk hw).core_eq, (h.threads w wk hw).base_eq⟩⟩
  serves := by
    intro wk hwk
    obtain ⟨w, hw⟩ := List.mem_iff_getElem?.mp hwk
    exact (h.threads w wk hw).servesOnce
  goes_on := by
    intro w wk hw hrun waited finished
    have hlt : w < s.threads.length := (List.getElem?_eq_some_iff.mp hw).1
    have hgo : ∃ event ∈ [.run, .waitWork waited, .finalWork finished], ∃ wk',
        wk.step host (some s.reader.buffer.storage.slots) event = some wk' ∧
          wk'.pc.stepsLeft < wk.pc.stepsLeft :=
      (h.threads w wk hw).goes_on (h.pin hw) hrun waited finished
    obtain ⟨event, hevent, wk', hstep, hleft⟩ := hgo
    refine ⟨event, hevent, { s with threads := s.threads.set w wk' }, wk', ?_,
      List.getElem?_set_self hlt, hleft⟩
    simp only [ReaderSession.step, ReaderSession.workerStep, hw, h.memory_eq hw hrun, hstep]
  starts := fun replica ho => h.starts ho
  joins := fun panicCount ho hended => h.joins ho hended
  ended := by
    intro hall wk hwk
    obtain ⟨w, hw⟩ := List.mem_iff_getElem?.mp hwk
    exact h.ended hall w wk hw

end

end ReaderSession

/-! ## From construction -/

/-- Without wrapping both address computations agree, and no two elements share a slot. -/
theorem ReplicatedBuffer.Allocated.placed_of_sizedExactly {host : Host} {T : CopyType V}
    {spec : LayoutSpec} {capacity : Nat} {page : HugePageSize} {b : ReplicatedBuffer V}
    (ha : Allocated host T spec capacity page b)
    (h : capacity = 0 ∨ SizedExactly T.size spec capacity) :
    b.Placed (ha.accepted.lanes usize).slot := by
  have hk := ha.capacity_eq
  rcases h with h0 | h
  · refine placed_of_slots ha.accepted ha.layout_eq (fun r i _ hi => ?_)
      fun r i r' i' _ _ hi => ?_
    · omega
    · omega
  · have hspread : (ha.accepted.lanes usize).Spread spec.replicas capacity := h.room
    refine placed_of_slots ha.accepted ha.layout_eq (fun r i hr hi => ?_)
      fun r i r' i' hr hr' hi hi' he => ?_
    · have hlast := hspread.slot_le_last hr (hk ▸ hi)
      have hneeded := ha.accepted.neededLen_eq capacity
      have hmul := Nat.le_mul_of_pos_right (neededLen T.size spec capacity)
        ha.accepted.elementSize_pos
      have hfits := h.fits
      show _ < 2 ^ 64
      omega
    · exact hspread.slot_inj hr hr' (hk ▸ hi) (hk ▸ hi') he

theorem LinuxHedgedReaderBuilder.build_ok {host : Host} {T : CopyType V}
    {builder : LinuxHedgedReaderBuilder} {reader : LinuxHedgedReader V}
    (h : builder.build host T = some (.ok reader)) :
    ReplicatedBuffer.Allocated host T builder.layout builder.capacity builder.hugepageSize
      reader.buffer ∧ reader.workerCores.length = reader.buffer.replicas ∧
      reader.workers = [] ∧ reader.started = false := by
  unfold build at h
  split at h
  · cases h
  · next buffer hbuffer =>
    split at h
    · cases h
    · split at h
      · cases h
      · next hcores =>
        split at h
        · cases h
          exact ⟨(ReplicatedBuffer.withOptions_ok hbuffer).1, not_not.mp hcores, rfl, rfl⟩
        · cases h

open ReaderSession in
/-- **The life cycle of a reader.**  In every run of a reader whose elements are
addressed without wrapping, calls, contents and workers are those of its phase. -/
theorem reader_life_cycle (host : Host) (T : CopyType V) (builder : LinuxHedgedReaderBuilder)
    (hsize : builder.capacity = 0 ∨ SizedExactly T.size builder.layout builder.capacity)
    (reader : LinuxHedgedReader V) (hbuild : builder.build host T = some (.ok reader))
    (hpin : ∀ core ∈ reader.workerCores, (pinToCpu host core).isSome = true)
    (acts : List (Action V)) (s : ReaderSession V)
    (hrun : StepRun.run (step host) (.new reader) acts = some s) :
    LifeCycle host builder.capacity s := by
  obtain ⟨halloc, hcores, hworkers, hstarted⟩ := LinuxHedgedReaderBuilder.build_ok hbuild
  have hnew : Inv host (halloc.accepted.lanes usize).slot builder.capacity (.new reader) := by
    refine ⟨halloc.placed_of_sizedExactly hsize, halloc.capacity_eq, hcores, hpin, halloc.holds_nil,
      trivial, ⟨hstarted, rfl, Nat.le_refl _, hworkers, fun w wk hw => ?_⟩, fun w wk hw => ?_⟩
    · exact absurd hw (Nat.not_lt_zero w)
    · cases hw
  exact (StepRun.run_preserves (fun s a s' h hs => h.step hs) hnew hrun).lifeCycle

/-- Three bytes in two replicas. -/
def threeBytes : LinuxHedgedReaderBuilder :=
  { LinuxHedgedReaderBuilder.default with capacity := 3, hugepageSize := .size2MiB }

/-- The worker of replica 0 reads element 1, the other one's `wait_work` panics. -/
def oneServed : List (ReaderSession.Action Nat) :=
  [.call (.insert 7), .call (.extendFromSlice [8, 9]), .call .startWorkers, .spawn, .spawn, .spawn,
    .call (.insert 10), .worker 0 .run, .worker 1 .run, .worker 0 (.waitWork (.returned 1)),
    .worker 1 (.waitWork .panicked), .worker 0 .run, .worker 0 (.finalWork (.returned ())),
    .call .join, .join, .join, .join]

open ReaderSession in
theorem reader_life_cycle_byte :
    ∃ reader s, threeBytes.build grantingHost .byte = some (.ok reader) ∧
      StepRun.run (step grantingHost) (.new reader) oneServed = some s ∧
      s.returned.getLast? = some (.join, .error (.workerPanicked 1)) ∧
      LifeCycle grantingHost 3 s :=
  ⟨_, _, rfl, rfl, rfl, reader_life_cycle grantingHost .byte threeBytes
    (Or.inr ⟨Or.inl (by decide), by decide⟩) _ rfl (by decide) oneServed _ rfl⟩

/-- A stride of `2 ^ 63` chunks of two bytes wraps to zero. -/
def wrappedBytes : LinuxHedgedReaderBuilder :=
  { threeBytes with layout := ⟨1, 2 ^ 63, 2⟩ }

/-- The worker is asked for element 0. -/
def firstServed : List (ReaderSession.Action Nat) :=
  [.call (.extendFromSlice [7, 8, 9]), .call .startWorkers, .spawn, .spawn, .worker 0 .run,
    .worker 0 (.waitWork (.returned 0)), .worker 0 .run]

open ReaderSession in
/-- Elements 0 and 2 share a slot, and `final_work` gets the wrong one. -/
theorem reader_life_cycle_wrapped :
    ∃ reader s, wrappedBytes.build grantingHost .byte = some (.ok reader) ∧
      (∀ core ∈ reader.workerCores, (pinToCpu grantingHost core).isSome = true) ∧
      StepRun.run (step grantingHost) (.new reader) firstServed = some s ∧
      (s.phase 3).items = [7, 8, 9] ∧ s.threads.map (·.waited) = [some (.returned 0)] ∧
      s.threads.map (·.finalCalls) = [[9]] ∧ ¬ LifeCycle grantingHost 3 s := by
  refine ⟨_, _, rfl, by decide, rfl, rfl, rfl, rfl, fun h => ?_⟩
  obtain hnone | ⟨i, hi, hwaited, hfinal⟩ := (h.serves _ (List.mem_singleton.mpr rfl)).finals
  · cases hnone
  · cases hwaited
    cases hfinal

end Tailslayer
