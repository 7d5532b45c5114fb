import Tailslayer.LowLevelWorker
import Tailslayer.Pool.Lists

/-!
# Every step of a session keeps its invariant

`Inv` adds to the phase what is true between the steps of a call: which threads
are spawned, and which handles are left (`OwnerAt`).  Threads are joined in the
order they were spawned, so `Handles k` says it all with the number `k` of those
already joined.
-/

namespace Tailslayer

open Lists Word

variable {V : Type}

/-! ## The guard -/

namespace LinuxHedgedReader

variable {r : LinuxHedgedReader V}
  {change : ReplicatedBuffer V → ReplicatedBuffer V × Result Unit}

theorem ensureNotStarted_refused (h : r.started = true) :
    r.ensureNotStarted = .error Phase.startedError := if_pos h

theorem modify_open (h : r.started = false) :
    r.modify change = ({ r with buffer := (change r.buffer).1 }, (change r.buffer).2) := by
  simp [modify, ensureNotStarted, h]

theorem modify_refused (h : r.started = true) :
    r.modify change = (r, .error Phase.startedError) := by
  simp [modify, ensureNotStarted_refused h]

end LinuxHedgedReader

/-! ## The invariant of a session -/

namespace ReaderSession

/-- `k` of the threads are joined and have ended, the handles of the others are left. -/
structure Handles (s : ReaderSession V) (k : Nat) : Prop where
  le : k ≤ s.threads.length
  workers_eq : s.reader.workers = List.range' k (s.threads.length - k)
  ended : ∀ w wk, w < k → s.threads[w]? = some wk → wk.pc.joined ≠ none

/-- How many of the first `k` workers have panicked. -/
def panicsBelow (s : ReaderSession V) (k : Nat) : Nat :=
  (s.threads.take k).countP (·.pc.joined == some true)

/-- How many workers a phase has. -/
def spawnedIn {capacity : Nat} (s : ReaderSession V) (p : Phase V capacity) : Nat :=
  if p.started then s.reader.buffer.replicas else 0

def OwnerAt {capacity : Nat} (s : ReaderSession V) (p : Phase V capacity) : ReaderOwner → Prop
  | .idle =>
    s.reader.started = p.started ∧ s.threads.length = s.spawnedIn p ∧
      s.Handles (if p.isJoined then s.threads.length else 0)
  | .starting replica =>
    s.reader.started = true ∧ p.started = false ∧ s.threads.length = replica ∧
      replica ≤ s.reader.buffer.replicas ∧ s.Handles 0
  | .joining panicCount =>
    s.reader.started = p.started ∧ s.threads.length = s.spawnedIn p ∧ ∃ k, s.Handles k ∧
      (p.isJoined = true → k = s.threads.length) ∧
      panicCount = if p.isJoined then 0 else s.panicsBelow k
  | .dropping =>
    s.threads.length = s.spawnedIn p ∧ ∃ k, s.Handles k ∧
      (p.isJoined = true → k = s.threads.length)
  | .dropped => s.threads.length = s.spawnedIn p ∧ s.Handles s.threads.length

structure Inv (host : Host) (σ : Nat → Nat → Nat) (capacity : Nat) (s : ReaderSession V) :
    Prop where
  placed : s.reader.buffer.Placed σ
  capacity_eq : s.reader.buffer.capacity = capacity
  cores_length : s.reader.workerCores.length = s.reader.buffer.replicas
  pins : ∀ core ∈ s.reader.workerCores, (pinToCpu host core).isSome = true
  contents : s.reader.buffer.Holds (s.phase capacity).items
  answers : (Phase.filling .empty : Phase V capacity).Answers s.panics s.returned
  owner : s.OwnerAt (s.phase capacity) s.owner
  threads : ∀ (w : Nat) (wk : CallbackWorker V), s.threads[w]? = some wk →
    wk.Spawned s.reader (s.phase capacity).items w

section
variable {host : Host} {σ : Nat → Nat → Nat} {capacity : Nat} {s s' : ReaderSession V}

theorem workerStep_cases {w : Nat} {event : WorkerEvent}
    (hs : s.workerStep host w event = some s') :
    ∃ wk wk', s.threads[w]? = some wk ∧ wk.step host s.memory event = some wk' ∧
      s' = { s with threads := s.threads.set w wk' } := by
  unfold ReaderSession.workerStep at hs
  split at hs
  · cases hs
  · next wk hw =>
    split at hs
    · cases hs
    · next wk' hstep => exact ⟨wk, wk', hw, hstep, (Option.some.inj hs).symm⟩

theorem joinNext_cases {worker : Nat} {rest : List Nat} {panicked : Bool}
    (hs : s.joinNext worker rest = some (s', panicked)) :
    ∃ wk, s.threads[worker]? = some wk ∧ wk.pc.joined = some panicked ∧
      s' = { s with reader := { s.reader with workers := rest } } := by
  unfold ReaderSession.joinNext at hs
  split at hs
  · cases hs
  · next wk hw =>
    split at hs
    · cases hs
    · next hpc =>
      cases hs
      exact ⟨wk, hw, hpc, rfl⟩

theorem phase_finish (call : ReaderCall V) (result : Result Unit) :
    (s.finish call result).phase capacity = (s.phase capacity).next call :=
  Phase.after_concat _ _ _

/-- With no handle left all threads were joined. -/
theorem Handles.eq_length {k : Nat} (h : s.Handles k) (hnil : s.reader.workers = []) :
    k = s.threads.length := by
  have hw := h.workers_eq
  have hle := h.le
  rw [hnil] at hw
  have := congrArg List.length hw
  rw [List.length_range', List.length_nil] at this
  omega

/-- The next handle is that of thread `k`. -/
theorem Handles.cons {k worker : Nat} {rest : List Nat} (h : s.Handles k)
    (hcons : s.reader.workers = worker :: rest) :
    worker = k ∧ k < s.threads.length ∧
      rest = List.range' (k + 1) (s.threads.length - (k + 1)) := by
  have hw := h.workers_eq
  have hlt : k < s.threads.length := by
    by_contra hge
    rw [hcons, show s.threads.length - k = 0 by omega] at hw
    cases hw
  rw [hcons, show s.threads.length - k = (s.threads.length - (k + 1)) + 1 by omega,
    List.range'_succ] at hw
  cases hw
  exact ⟨rfl, hlt, rfl⟩

/-- Where the owner is does not depend on what a running thread does. -/
theorem OwnerAt.set {w : Nat} {wk wk' : CallbackWorker V} (hw : s.threads[w]? = some wk)
    (hrun : wk.pc.joined = none) {p : Phase V capacity} {o : ReaderOwner}
    (ho : s.OwnerAt p o) : OwnerAt { s with threads := s.threads.set w wk' } p o := by
  have hhandles : ∀ k, s.Handles k →
      Handles { s with threads := s.threads.set w wk' } k ∧ k ≤ w := by
    intro k hk
    have hkw : k ≤ w := by
      by_contra hlt
      exact hk.ended w wk (by omega) hw hrun
    refine ⟨⟨?_, ?_, fun w' wk'' hw' hwk => ?_⟩, hkw⟩
    · simpa using hk.le
    · simpa using hk.workers_eq
    · rw [List.getElem?_set_ne (by omega)] at hwk
      exact hk.ended w' wk'' hw' hwk
  cases o with
  | idle =>
    obtain ⟨h1, h2, h3⟩ := ho
    refine ⟨h1, by simpa [spawnedIn] using h2, ?_⟩
    simpa using (hhandles _ h3).1
  | starting replica =>
    obtain ⟨h1, h2, h3, h4, h5⟩ := ho
    exact ⟨h1, h2, by simpa using h3, h4, (hhandles _ h5).1⟩
  | joining panicCount =>
    obtain ⟨h1, h2, k, h3, h4, h5⟩ := ho
    refine ⟨h1, by simpa [spawnedIn] using h2, k, (hhandles k h3).1, by simpa using h4, ?_⟩
    rw [h5]
    simp only [panicsBelow]
    rw [List.take_set_of_le (hhandles k h3).2]
  | dropping =>
    obtain ⟨h1, k, h2, h3⟩ := ho
    exact ⟨by simpa [spawnedIn] using h1, k, (hhandles k h2).1, by simpa using h3⟩
  | dropped =>
    obtain ⟨h1, h2⟩ := ho
    refine ⟨by simpa [spawnedIn] using h1, ?_⟩
    simpa using (hhandles _ h2).1

/-- Handing out the next handle: its thread is the next one, and has ended. -/
theorem Handles.joinNext {k worker : Nat} {rest : List Nat} {panicked : Bool}
    (h : s.Handles k) (hcons : s.reader.workers = worker :: rest)
    (hs : s.joinNext worker rest = some (s', panicked)) :
    s' = { s with reader := { s.reader with workers := rest } } ∧ s'.Handles (k + 1) ∧
      s.panicsBelow (k + 1) = s.panicsBelow k + panicked.toNat := by
  obtain ⟨rfl, hlt, hrest⟩ := h.cons hcons
  obtain ⟨wk, hw, hpc, rfl⟩ := joinNext_cases hs
  refine ⟨rfl, ⟨hlt, hrest, fun w wk' hw' hwk => ?_⟩, ?_⟩
  · rcases Nat.lt_succ_iff_lt_or_eq.mp hw' with hw' | rfl
    · exact h.ended w wk' hw' hwk
    · change s.threads[w]? = some wk' at hwk
      rw [hw] at hwk
      cases hwk
      simp [hpc]
  · rw [panicsBelow, panicsBelow, List.take_add_one, hw, List.countP_append]
    cases panicked <;> simp [hpc]

/-- Once its thread has ended the next handle can be joined. -/
theorem Handles.joinNext_some {k worker : Nat} {rest : List Nat} (hk : s.Handles k)
    (hcons : s.reader.workers = worker :: rest)
    (hended : ∀ wk ∈ s.threads, wk.pc.joined ≠ none) :
    ∃ panicked, s.joinNext worker rest =
      some ({ s with reader := { s.reader with workers := rest } }, panicked) := by
  obtain ⟨rfl, hlt, -⟩ := hk.cons hcons
  have hw := List.getElem?_eq_getElem hlt
  obtain ⟨panicked, hpc⟩ := Option.ne_none_iff_exists'.mp
    (hended s.threads[worker] (List.getElem_mem hlt))
  exact ⟨panicked, by simp only [ReaderSession.joinNext, hw, hpc]⟩

section
variable (h : Inv host σ capacity s)
include h

theorem Inv.not_starting (hst : (s.phase capacity).started = true) (replica : Nat) :
    s.owner ≠ .starting replica := by
  intro ho
  have hown := h.owner
  rw [ho] at hown
  rw [hown.2.1] at hst
  cases hst

/-- Outside of `start_workers` all workers of the phase are there. -/
theorem Inv.length_eq (hnot : ∀ replica, s.owner ≠ .starting replica) :
    s.threads.length = s.spawnedIn (s.phase capacity) := by
  have hown := h.owner
  cases ho : s.owner with
  | starting replica => exact absurd ho (hnot replica)
  | idle | joining =>
    rw [ho] at hown
    exact hown.2.1
  | dropping | dropped =>
    rw [ho] at hown
    exact hown.1

theorem Inv.ended (hall : (s.phase capacity).isJoined = true ∨ s.owner = .dropped) (w : Nat)
    (wk : CallbackWorker V) (hw : s.threads[w]? = some wk) : wk.pc.joined ≠ none := by
  have hlt : w < s.threads.length := (List.getElem?_eq_some_iff.mp hw).1
  have hown := h.owner
  have hhandles : s.Handles s.threads.length := by
    rcases hall with hj | hd
    · cases ho : s.owner with
      | starting replica =>
        exact absurd ho (h.not_starting (Phase.started_of_isJoined hj) replica)
      | idle =>
        rw [ho] at hown
        have := hown.2.2
        rwa [if_pos hj] at this
      | joining panicCount =>
        rw [ho] at hown
        obtain ⟨-, -, k, hk, hjoined, -⟩ := hown
        exact hjoined hj ▸ hk
      | dropping =>
        rw [ho] at hown
        obtain ⟨-, k, hk, hjoined⟩ := hown
        exact hjoined hj ▸ hk
      | dropped =>
        rw [ho] at hown
        exact hown.2
    · rw [hd] at hown
      exact hown.2
  exact hhandles.ended w wk hlt hw

/-- What a worker reads is the element it was asked for. -/
theorem Inv.reads {w : Nat} {wk : CallbackWorker V} (hw : s.threads[w]? = some wk) (i : Nat)
    (hi : i < (s.phase capacity).items.length) :
    s.reader.buffer.storage.slots (wk.replicaBase +
      s.reader.buffer.layout.elementOffset usize i) = (s.phase capacity).items[i] := by
  have hbase := (h.threads w wk hw).base_eq
  obtain ⟨base, hbase', hslot⟩ :=
    h.contents.worker w i hi (ReplicatedBuffer.replicaBasePtr_ok_lt hbase)
  rw [hbase] at hbase'
  cases hbase'
  exact hslot

theorem Inv.pin {w : Nat} {wk : CallbackWorker V} (hw : s.threads[w]? = some wk) :
    (pinToCpu host wk.core).isSome = true :=
  h.pins wk.core (List.mem_of_getElem? (h.threads w wk hw).core_eq)

theorem Inv.memory_eq {w : Nat} {wk : CallbackWorker V} (hw : s.threads[w]? = some wk)
    (hrun : wk.pc.joined = none) : s.memory = some s.reader.buffer.storage.slots :=
  if_neg fun hd => h.ended (Or.inr hd) w wk hw hrun

theorem Inv.workerStep {w : Nat} {event : WorkerEvent}
    (hs : s.workerStep host w event = some s') : Inv host σ capacity s' := by
  obtain ⟨wk, wk', hw, hstep, rfl⟩ := workerStep_cases hs
  have hrun := CallbackWorker.running_of_step hstep
  rw [h.memory_eq hw hrun] at hstep
  have hwk' := (h.threads w wk hw).step (h.reads hw) hstep
  refine ⟨h.placed, h.capacity_eq, h.cores_length, h.pins, h.contents, ?_,
    OwnerAt.set hw hrun h.owner, fun w' wk'' hw' => ?_⟩
  · -- the first join is yet to return
    have hj : (s.phase capacity).isJoined = false :=
      Bool.eq_false_iff.mpr fun hj => h.ended (Or.inl hj) w wk hw hrun
    exact Phase.answers_congr hj h.answers
  · rcases getElem?_set_cases hw' with ⟨rfl, rfl⟩ | hold
    · exact hwk'
    · exact h.threads w' wk'' hold

/-! ## Calls -/

/-- A call on a reader that is still being filled. -/
theorem Inv.fill (hidle : s.owner = .idle) {l l' : BoundedList V capacity}
    (hp : s.phase capacity = .filling l) {call : ReaderCall V} {b' : ReplicatedBuffer V}
    {result : Result Unit} (hnext : (Phase.filling l).next call = .filling l')
    (hframe : s.reader.buffer.Frame b') (hholds : b'.Holds l'.items)
    (hresult : result = (Phase.filling l).answer s.panics call) :
    Inv host σ capacity
      ({ s with reader := { s.reader with buffer := b' } }.finish call result) := by
  have hown := h.owner
  rw [hidle, hp] at hown
  obtain ⟨hstarted, hlen, hhandles⟩ := hown
  have hnil : s.threads = [] := List.length_eq_zero_iff.mp hlen
  have hphase : ({ s with reader := { s.reader with buffer := b' } }.finish call result).phase
      capacity = .filling l' := by
    rw [phase_finish, ← hnext, ← hp]
    rfl
  refine ⟨hframe.placed h.placed, hframe.capacity.trans h.capacity_eq, ?_, h.pins, ?_, ?_, ?_,
    fun w wk hw => ?_⟩
  · refine h.cores_length.trans ?_
    show s.reader.buffer.layout.spec.replicas = b'.layout.spec.replicas
    rw [hframe.layout]
  · rw [hphase]
    exact hholds
  · exact Phase.answers_concat h.answers (hresult.trans (hp ▸ rfl))
  · rw [hphase]
    exact ⟨hstarted, hlen, hhandles.le, hhandles.workers_eq, hhandles.ended⟩
  · change s.threads[w]? = some wk at hw
    rw [hnil] at hw
    cases hw

theorem Inv.started_of_idle (hidle : s.owner = .idle) :
    s.reader.started = (s.phase capacity).started := by
  have hown := h.owner
  rw [hidle] at hown
  exact hown.1

/-- A call that has no effect. -/
theorem Inv.refuse (hidle : s.owner = .idle) {call : ReaderCall V} {result : Result Unit}
    (hnext : (s.phase capacity).next call = s.phase capacity)
    (hresult : result = (s.phase capacity).answer s.panics call) :
    Inv host σ capacity (s.finish call result) := by
  have hown := h.owner
  have hphase : (s.finish call result).phase capacity = s.phase capacity := by
    rw [phase_finish, hnext]
  rw [hidle] at hown
  obtain ⟨hstarted, hlen, hhandles⟩ := hown
  refine ⟨h.placed, h.capacity_eq, h.cores_length, h.pins, ?_,
    Phase.answers_concat h.answers hresult, ?_, ?_⟩
  · rw [hphase]
    exact h.contents
  · rw [hphase]
    exact ⟨hstarted, hlen, hhandles.le, hhandles.workers_eq, hhandles.ended⟩
  · rw [hphase]
    exact h.threads

/-- A call that changes the buffer returns the answer of its phase and keeps the
invariant, if it does to the buffer what it does to the bounded list. -/
theorem Inv.modify (hidle : s.owner = .idle) (call : ReaderCall V)
    {change : ReplicatedBuffer V → ReplicatedBuffer V × Result Unit}
    (hfill : ∀ l, s.phase capacity = .filling l → ∃ l', (Phase.filling l).next call = .filling l' ∧
      s.reader.buffer.Frame (change s.reader.buffer).1 ∧ (change s.reader.buffer).1.Holds l'.items ∧
      (change s.reader.buffer).2 = (Phase.filling l).answer s.panics call)
    (hrefuse : ∀ p : Phase V capacity, p.started = true →
      p.next call = p ∧ p.answer s.panics call = .error Phase.startedError) :
    (s.reader.modify change).2 = (s.phase capacity).answer s.panics call ∧
      Inv host σ capacity ({ s with reader := (s.reader.modify change).1 }.finish call
        (s.reader.modify change).2) := by
  have hst := h.started_of_idle hidle
  cases hp : (s.phase capacity).started with
  | false =>
    cases hph : s.phase capacity with
    | filling l =>
      obtain ⟨l', hnext, hframe, hholds, hresult⟩ := hfill l hph
      rw [LinuxHedgedReader.modify_open (hst.trans hp)]
      exact ⟨hresult, h.fill hidle hph hnext hframe hholds hresult⟩
    | running l | joined l =>
      rw [hph] at hp
      cases hp
  | true =>
    obtain ⟨hnext, hanswer⟩ := hrefuse _ hp
    rw [LinuxHedgedReader.modify_refused (hst.trans hp)]
    exact ⟨hanswer.symm, h.refuse hidle hnext hanswer.symm⟩

theorem Inv.insert (hidle : s.owner = .idle) (value : V) :
    (s.reader.insert value).2 = (s.phase capacity).answer s.panics (.insert value) ∧
      Inv host σ capacity ({ s with reader := (s.reader.insert value).1 }.finish (.insert value)
        (s.reader.insert value).2) := by
  refine h.modify hidle (.insert value) (fun l hp => ?_) (fun p hp => ?_)
  · have hcontents := h.contents
    rw [hp] at hcontents
    obtain ⟨h1, h2, h3⟩ :=
      ReplicatedBuffer.push_refines h.placed h.capacity_eq (l := l) hcontents value
    rw [← hcontents.len_eq] at h3
    exact ⟨l.append [value], rfl, h2, h1, h3⟩
  · cases p with
    | filling l => cases hp
    | running l | joined l => exact ⟨rfl, rfl⟩

theorem Inv.extendFromSlice (hidle : s.owner = .idle) (values : List V) :
    (s.reader.extendFromSlice values).2 =
        (s.phase capacity).answer s.panics (.extendFromSlice values) ∧
      Inv host σ capacity ({ s with reader := (s.reader.extendFromSlice values).1 }.finish
        (.extendFromSlice values) (s.reader.extendFromSlice values).2) := by
  refine h.modify hidle (.extendFromSlice values) (fun l hp => ?_) (fun p hp => ?_)
  · have hcontents := h.contents
    rw [hp] at hcontents
    obtain ⟨h1, h2, h3⟩ :=
      ReplicatedBuffer.extendFromSlice_refines values _ l h.placed h.capacity_eq hcontents
    exact ⟨l.append values, rfl, h2, h1, h3⟩
  · cases p with
    | filling l => cases hp
    | running l | joined l => exact ⟨rfl, rfl⟩

/-- Until the start there is no thread and no handle. -/
theorem Inv.nothing_spawned (hidle : s.owner = .idle) (hp : (s.phase capacity).started = false) :
    s.threads = [] ∧ s.Handles 0 := by
  have hown := h.owner
  rw [hidle] at hown
  obtain ⟨-, hlen, hhandles⟩ := hown
  rw [spawnedIn, hp] at hlen
  have hnil : s.threads = [] := List.length_eq_zero_iff.mp hlen
  rw [hnil] at hhandles
  refine ⟨hnil, ?_⟩
  simpa using hhandles

theorem Inv.startWorkers (hidle : s.owner = .idle) (hp : (s.phase capacity).started = false) :
    Inv host σ capacity
      { s with reader := { s.reader with started := true }, owner := .starting 0 } := by
  obtain ⟨hnil, hhandles⟩ := h.nothing_spawned hidle hp
  refine { h with owner := ⟨rfl, hp, ?_, Nat.zero_le _, ?_⟩, threads := ?_ }
  · rw [hnil]
    rfl
  · exact ⟨hhandles.le, hhandles.workers_eq, hhandles.ended⟩
  · intro w wk hw
    change s.threads[w]? = some wk at hw
    rw [hnil] at hw
    cases hw

theorem Inv.beginJoin (hidle : s.owner = .idle) :
    Inv host σ capacity { s with owner := .joining 0 } := by
  have hown := h.owner
  rw [hidle] at hown
  obtain ⟨hst, hlen, hhandles⟩ := hown
  by_cases hj : (s.phase capacity).isJoined = true
  · rw [if_pos hj] at hhandles
    exact { h with owner := ⟨hst, hlen, s.threads.length,
      ⟨hhandles.le, hhandles.workers_eq, hhandles.ended⟩, fun _ => rfl, (if_pos hj).symm⟩ }
  · rw [if_neg hj] at hhandles
    exact { h with owner := ⟨hst, hlen, 0,
      ⟨hhandles.le, hhandles.workers_eq, hhandles.ended⟩, fun hj' => absurd hj' hj,
      (if_neg hj).symm⟩ }

theorem Inv.call {call : ReaderCall V} (hs : s.call call = some s') : Inv host σ capacity s' := by
  unfold ReaderSession.call at hs
  by_cases hidle : s.owner = .idle
  · rw [if_neg (not_not_intro hidle)] at hs
    cases call with
    | insert value =>
      cases hs
      exact (h.insert hidle value).2
    | extendFromSlice values =>
      cases hs
      exact (h.extendFromSlice hidle values).2
    | startWorkers =>
      have hst := h.started_of_idle hidle
      cases hp : (s.phase capacity).started with
      | true =>
        simp only [LinuxHedgedReader.ensureNotStarted_refused (hst.trans hp)] at hs
        cases hs
        cases hph : s.phase capacity with
        | filling l =>
          rw [hph] at hp
          cases hp
        | running l | joined l => exact h.refuse hidle (by rw [hph]; rfl) (by rw [hph]; rfl)
      | false =>
        rw [hp] at hst
        simp [LinuxHedgedReader.ensureNotStarted, hst] at hs
        subst hs
        exact h.startWorkers hidle hp
    | join =>
      cases hs
      exact h.beginJoin hidle
  · rw [if_pos hidle] at hs
    cases hs

/-! ## Spawning -/

/-- What `start_workers` does next. -/
theorem Inv.spawn_cases {replica : Nat} (ho : s.owner = .starting replica) :
    replica = s.reader.buffer.replicas ∧
      s.spawnStep = some (s.finish .startWorkers (.ok ())) ∨
    ∃ core replicaBase, s.reader.workerCores[replica]? = some core ∧
      s.reader.buffer.replicaBasePtr replica = .ok replicaBase ∧
      replica < s.reader.buffer.replicas ∧
      s.spawnStep = some { s with
        reader := { s.reader with workers := s.reader.workers ++ [s.threads.length] }
        threads := s.threads ++
          [.spawned core replicaBase s.reader.buffer.layout s.reader.buffer.len]
        owner := .starting (replica + 1) } := by
  have hown := h.owner
  have hcores := h.cores_length
  rw [ho] at hown
  obtain ⟨-, -, -, hle, -⟩ := hown
  by_cases hlt : replica < s.reader.buffer.replicas
  · right
    have hcore : s.reader.workerCores[replica]? = some s.reader.workerCores[replica] :=
      List.getElem?_eq_getElem (by omega)
    have hbase : s.reader.buffer.replicaBasePtr replica =
        .ok (usize.mul replica s.reader.buffer.layout.channelOffsetElements) :=
      if_neg (Nat.not_le_of_lt hlt)
    refine ⟨_, _, hcore, hbase, hlt, ?_⟩
    simp only [ReaderSession.spawnStep, ho, hcore, hbase]
  · left
    have hcore : s.reader.workerCores[replica]? = none :=
      List.getElem?_eq_none (by omega)
    refine ⟨by omega, ?_⟩
    simp only [ReaderSession.spawnStep, ho, hcore]

/-- `start_workers` returns with a worker for each replica. -/
theorem Inv.finish_start {replica : Nat} (ho : s.owner = .starting replica)
    (hall : replica = s.reader.buffer.replicas) :
    Inv host σ capacity (s.finish .startWorkers (.ok ())) := by
  have hown := h.owner
  rw [ho] at hown
  obtain ⟨hstarted, hp, hlen, -, hhandles⟩ := hown
  cases hph : s.phase capacity with
  | filling l =>
    have hphase : (s.finish .startWorkers (.ok ())).phase capacity = .running l := by
      rw [phase_finish, hph]
      rfl
    have hcontents := h.contents
    have hthreads := h.threads
    rw [hph] at hcontents hthreads
    refine ⟨h.placed, h.capacity_eq, h.cores_length, h.pins, ?_,
      Phase.answers_concat h.answers ?_, ?_, ?_⟩
    · rw [hphase]
      exact hcontents
    · show .ok () = (s.phase capacity).answer _ .startWorkers
      rw [hph]
      rfl
    · rw [hphase]
      exact ⟨hstarted, hlen.trans hall, hhandles.le, hhandles.workers_eq, hhandles.ended⟩
    · rw [hphase]
      exact hthreads
  | running l | joined l =>
    rw [hph] at hp
    cases hp

theorem Inv.spawnNext {replica core replicaBase : Nat} (ho : s.owner = .starting replica)
    (hcore : s.reader.workerCores[replica]? = some core)
    (hbase : s.reader.buffer.replicaBasePtr replica = .ok replicaBase)
    (hlt : replica < s.reader.buffer.replicas) :
    Inv host σ capacity { s with
      reader := { s.reader with workers := s.reader.workers ++ [s.threads.length] }
      threads := s.threads ++
        [.spawned core replicaBase s.reader.buffer.layout s.reader.buffer.len]
      owner := .starting (replica + 1) } := by
  have hown := h.owner
  rw [ho] at hown
  obtain ⟨hstarted, hp, hlen, -, hhandles⟩ := hown
  refine { h with answers := ?_, owner := ⟨hstarted, hp, ?_, hlt, ?_⟩, threads := ?_ }
  · have hpanics := h.answers
    simpa [panics, CallbackWorker.spawned, CallbackPc.joined] using hpanics
  · simpa using hlen
  · refine ⟨Nat.zero_le _, ?_, fun w wk hw => absurd hw (Nat.not_lt_zero w)⟩
    simp [hhandles.workers_eq, List.range'_concat]
  · intro w wk hw
    rcases getElem?_concat_cases hw with hold | ⟨rfl, rfl⟩
    · obtain ⟨h1, h2, h3, h4, h5⟩ := h.threads w wk hold
      exact ⟨h1, h2, h3, h4, h5⟩
    · exact ⟨hlen ▸ hcore, hlen ▸ hbase, rfl, h.contents.len_eq.symm, rfl, rfl, rfl⟩

theorem Inv.spawnStep (hs : s.spawnStep = some s') : Inv host σ capacity s' := by
  cases ho : s.owner with
  | starting replica =>
    rcases h.spawn_cases ho with ⟨hall, hstep⟩ | ⟨core, base, hcore, hbase, hlt, hstep⟩
    · rw [hstep] at hs
      cases hs
      exact h.finish_start ho hall
    · rw [hstep] at hs
      cases hs
      exact h.spawnNext ho hcore hbase hlt
  | _ => simp [ReaderSession.spawnStep, ho] at hs

/-! ## Joining -/

/-- With the handles used up the count is what the phase answers. -/
theorem Inv.join_answer {panicCount : Nat} (ho : s.owner = .joining panicCount)
    (hnil : s.reader.workers = []) :
    (s.phase capacity).answer s.panics .join =
      (if panicCount = 0 then .ok () else .error (.workerPanicked panicCount)) := by
  have hown := h.owner
  rw [ho] at hown
  obtain ⟨-, hlen, k, hk, -, hcount⟩ := hown
  obtain rfl := hk.eq_length hnil
  rw [panicsBelow, List.take_length] at hcount
  cases hph : s.phase capacity with
  | filling l =>
    rw [hph] at hcount hlen
    have hthreads : s.threads = [] := List.length_eq_zero_iff.mp hlen
    rw [if_neg (show ¬ (Phase.filling l).isJoined = true from Bool.false_ne_true), hthreads,
      List.countP_nil] at hcount
    rw [hcount]
    rfl
  | running l =>
    rw [hph] at hcount
    rw [hcount]
    rfl
  | joined l =>
    rw [hph] at hcount
    rw [hcount]
    rfl

theorem Inv.finish_join {panicCount : Nat} (ho : s.owner = .joining panicCount)
    (hnil : s.reader.workers = []) :
    Inv host σ capacity (s.finish .join ((s.phase capacity).answer s.panics .join)) := by
  have hown := h.owner
  have hcontents := h.contents
  have hthreads := h.threads
  rw [ho] at hown
  obtain ⟨hstarted, hlen, k, hk, -, -⟩ := hown
  obtain rfl := hk.eq_length hnil
  have hphase : (s.finish .join ((s.phase capacity).answer s.panics .join)).phase capacity =
      (s.phase capacity).next .join := phase_finish _ _
  have hnext : ((s.phase capacity).next .join).items = (s.phase capacity).items ∧
      ((s.phase capacity).next .join).started = (s.phase capacity).started ∧
      ((s.phase capacity).started = true → ((s.phase capacity).next .join).isJoined = true) := by
    cases s.phase capacity with
    | filling l => exact ⟨rfl, rfl, nofun⟩
    | running l | joined l => exact ⟨rfl, rfl, fun _ => rfl⟩
  refine ⟨h.placed, h.capacity_eq, h.cores_length, h.pins, ?_,
    Phase.answers_concat h.answers rfl, ?_, ?_⟩
  · rw [hphase, hnext.1]
    exact hcontents
  · rw [hphase]
    refine ⟨hstarted.trans hnext.2.1.symm, ?_, ?_⟩
    · rw [spawnedIn, hnext.2.1]
      exact hlen
    · split
      · exact ⟨hk.le, hk.workers_eq, hk.ended⟩
      · next hj =>
        -- nothing was started, so nothing was spawned
        have hst : ¬ (s.phase capacity).started = true := fun hst => hj (hnext.2.2 hst)
        rw [spawnedIn, if_neg hst] at hlen
        rw [hlen] at hk
        exact ⟨hk.le, hk.workers_eq, hk.ended⟩
  · rw [hphase, hnext.1]
    exact hthreads

theorem Inv.joinStep (hs : s.joinStep = some s') : Inv host σ capacity s' := by
  unfold ReaderSession.joinStep at hs
  split at hs
  · next panicCount ho =>
    split at hs
    · next hnil =>
      have hfinish := h.finish_join ho hnil
      rw [h.join_answer ho hnil] at hfinish
      split at hs
      · next h0 =>
        cases hs
        rwa [if_pos h0] at hfinish
      · next h0 =>
        cases hs
        rwa [if_neg h0] at hfinish
    · next worker rest hcons =>
      split at hs
      · cases hs
      · next s₁ panicked hnext =>
        cases hs
        have hown := h.owner
        rw [ho] at hown
        obtain ⟨hstarted, hlen, k, hk, hjoined, hcount⟩ := hown
        obtain ⟨rfl, hk', hpanics⟩ := hk.joinNext hcons hnext
        have hlt := (hk.cons hcons).2.1
        have hj : ¬ (s.phase capacity).isJoined = true := fun hj => by
          have := hjoined hj
          omega
        refine { h with
          owner := ⟨hstarted, hlen, k + 1, ⟨hk'.le, hk'.workers_eq, hk'.ended⟩,
            fun hj' => absurd hj' hj, ?_⟩
          threads := fun w wk hw => ?_ }
        · rw [if_neg hj] at hcount
          refine Eq.trans ?_ (if_neg hj).symm
          change _ = s.panicsBelow (k + 1)
          rw [hpanics, ← hcount]
          cases panicked <;> rfl
        · obtain ⟨h1, h2, h3, h4, h5⟩ := h.threads w wk hw
          exact ⟨h1, h2, h3, h4, h5⟩
  · cases hs

theorem Inv.beginDrop (hs : s.beginDrop = some s') : Inv host σ capacity s' := by
  unfold ReaderSession.beginDrop at hs
  split at hs
  · next hidle =>
    cases hs
    have hown := h.owner
    rw [hidle] at hown
    obtain ⟨-, hlen, hk⟩ := hown
    exact { h with owner := ⟨hlen, _, ⟨hk.le, hk.workers_eq, hk.ended⟩, fun hj => if_pos hj⟩ }
  · cases hs

theorem Inv.dropStep (hs : s.dropStep = some s') : Inv host σ capacity s' := by
  unfold ReaderSession.dropStep at hs
  split at hs
  · next ho =>
    have hown := h.owner
    rw [ho] at hown
    obtain ⟨hlen, k, hk, hjoined⟩ := hown
    split at hs
    · next hnil =>
      cases hs
      obtain rfl := hk.eq_length hnil
      exact { h with owner := ⟨hlen, ⟨hk.le, hk.workers_eq, hk.ended⟩⟩ }
    · next worker rest hcons =>
      split at hs
      · cases hs
      · next s₁ panicked hnext =>
        cases hs
        obtain ⟨rfl, hk', -⟩ := hk.joinNext hcons hnext
        have hlt := (hk.cons hcons).2.1
        refine { h with
          owner := ?_
          threads := fun w wk hw => ?_ }
        · show OwnerAt _ _ s.owner
          rw [ho]
          refine ⟨hlen, k + 1, ⟨hk'.le, hk'.workers_eq, hk'.ended⟩, fun hj => ?_⟩
          have := hjoined hj
          omega
        · obtain ⟨h1, h2, h3, h4, h5⟩ := h.threads w wk hw
          exact ⟨h1, h2, h3, h4, h5⟩
  · cases hs

/-- **Every step keeps the invariant.** -/
theorem Inv.step {a : Action V} (hs : s.step host a = some s') : Inv host σ capacity s' := by
  cases a with
  | call call => exact h.call hs
  | spawn => exact h.spawnStep hs
  | join => exact h.joinStep hs
  | beginDrop => exact h.beginDrop hs
  | drop => exact h.dropStep hs
  | worker w event => exact h.workerStep hs

end

end

end ReaderSession

end Tailslayer
