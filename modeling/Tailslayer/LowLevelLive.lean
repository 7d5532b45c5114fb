import Tailslayer.LowLevelLife
import Tailslayer.Pool.Fair

/-!
# The calls of `LinuxHedgedReader` return

Nothing but the callbacks can hold a reader up.  Where each callback returns or
panics sooner or later, and every thread gets its turn, `start_workers`, `join` and
`drop` return; the last two then leave no worker behind.
-/

namespace Tailslayer

open Fair

variable {V : Type}

/-- Every step of a thread brings it nearer to its end, also where it goes wrong. -/
theorem CallbackWorker.stepsLeft_step {host : Host} {memory : Option (Nat → V)}
    {event : WorkerEvent} {wk wk' : CallbackWorker V} (hs : wk.step host memory event = some wk') :
    wk'.pc.stepsLeft < wk.pc.stepsLeft := by
  unfold CallbackWorker.step at hs
  split at hs
  · next hpc =>
    rw [hpc]
    split at hs
    · cases hs
    · cases hs
      simp [CallbackPc.stepsLeft]
  · next hpc =>
    rw [hpc]
    cases hs
    simp [CallbackPc.stepsLeft]
  · next i hpc =>
    rw [hpc]
    split at hs
    · cases hs
      simp [CallbackPc.stepsLeft]
    · cases hs
      simp [CallbackPc.stepsLeft]
  · next i hpc =>
    rw [hpc]
    split at hs
    · cases hs
      simp [CallbackPc.stepsLeft]
    · cases hs
      simp [CallbackPc.stepsLeft]
  · next hpc =>
    rw [hpc]
    cases hs
    simp [CallbackPc.stepsLeft]
  · next hpc =>
    rw [hpc]
    cases hs
    simp [CallbackPc.stepsLeft]
  · cases hs

/-- Who is scheduled: the thread that owns the reader, in a call, and each worker. -/
inductive ReaderAgent where
  | owner
  | thread (w : Nat)

open ReaderSession in
/-- A worker is given its turn, and its callbacks return to it. -/
def ReaderAgent.actions : ReaderAgent → Set (Action V)
  | .owner => {.spawn, .join, .drop}
  | .thread w => {a | ∃ event, a = .worker w event}

/-- Which call the owner is in, however far. -/
def ReaderOwner.kind : ReaderOwner → ReaderOwner
  | .starting _ => .starting 0
  | .joining _ => .joining 0
  | o => o

/-- In `join` or `drop`, which wait for the workers. -/
def ReaderOwner.Waits : ReaderOwner → Prop
  | .joining _ | .dropping => True
  | _ => False

theorem ReaderOwner.Waits.busy {o : ReaderOwner} (h : o.Waits) : o ≠ .idle ∧ o ≠ .dropped ∧
    ∀ replica, o ≠ .starting replica := by
  cases o with
  | joining panicCount | dropping => exact ⟨by simp, by simp, by simp⟩
  | idle | starting replica | dropped => exact h.elim

namespace ReaderSession

/-- The thread of the next handle, if there is one, has ended. -/
def NextEnded (s : ReaderSession V) : Prop :=
  ∀ w rest, s.reader.workers = w :: rest → ∃ wk panicked,
    s.threads[w]? = some wk ∧ wk.pc.joined = some panicked

/-- Which step the owner's call needs next, and how many there may be after it. -/
inductive CallsStage (s : ReaderSession V) : ReaderAgent → Nat → Prop where
  | starting (replica : Nat) (ho : s.owner = .starting replica) :
      CallsStage s .owner (s.reader.buffer.replicas - replica)
  /-- the thread of the next handle is running -/
  | running (w : Nat) (rest : List Nat) (wk : CallbackWorker V) (ho : s.owner.Waits)
      (hcons : s.reader.workers = w :: rest) (hw : s.threads[w]? = some wk)
      (hrun : wk.pc.joined = none) :
      CallsStage s (.thread w) (5 * s.reader.workers.length + wk.pc.stepsLeft)
  /-- it has ended, or there is no handle left -/
  | ended (ho : s.owner.Waits) (hend : s.NextEnded) :
      CallsStage s .owner (5 * s.reader.workers.length)

/-- How the call of `s` should end: `s'` is the state in which it has returned. -/
def Ends (capacity : Nat) (s s' : ReaderSession V) : Prop :=
  match s.owner with
  | .idle | .dropped => False
  | .starting _ => s'.owner = .idle ∧ s'.returned = s.returned ++ [(.startWorkers, .ok ())]
  | .joining _ =>
    s'.owner = .idle ∧
      s'.returned = s.returned ++ [(.join, (s.phase capacity).answer s'.panics .join)]
  | .dropping => s'.owner = .dropped ∧ s'.returned = s.returned

section
variable {host : Host} {σ : Nat → Nat → Nat} {capacity : Nat} {s s' : ReaderSession V}

/-- The end of a call does not depend on how far it was. -/
theorem Ends.of_kind {s₀ : ReaderSession V} (hret : s.returned = s₀.returned)
    (hkind : s.owner.kind = s₀.owner.kind) (h : Ends capacity s s') : Ends capacity s₀ s' := by
  have hphase : s.phase capacity = s₀.phase capacity := by
    rw [phase, phase, hret]
  cases ho : s.owner with
  | idle | dropped => simp only [Ends, ho] at h
  | starting replica | joining panicCount | dropping =>
    simp only [Ends, ho, hret, hphase] at h
    cases ho₀ : s₀.owner with
    | idle | dropped | starting replica₀ | joining panicCount₀ | dropping =>
      first
        | simpa only [Ends, ho₀] using h
        | (rw [ho, ho₀] at hkind
           cases hkind)

section
variable (h : Inv host σ capacity s)
include h

/-- The thread of the next handle exists. -/
theorem Inv.next_thread (ho : s.owner.Waits) {w : Nat} {rest : List Nat}
    (hcons : s.reader.workers = w :: rest) : ∃ wk, s.threads[w]? = some wk := by
  have hown := h.owner
  have hhandles : ∃ k, s.Handles k := by
    cases how : s.owner with
    | joining panicCount =>
      rw [how] at hown
      obtain ⟨-, -, k, hk, -⟩ := hown
      exact ⟨k, hk⟩
    | dropping =>
      rw [how] at hown
      obtain ⟨-, k, hk, -⟩ := hown
      exact ⟨k, hk⟩
    | idle | starting replica | dropped =>
      rw [how] at ho
      exact ho.elim
  obtain ⟨k, hk⟩ := hhandles
  obtain ⟨rfl, hlt, -⟩ := hk.cons hcons
  exact ⟨_, List.getElem?_eq_getElem hlt⟩

theorem Inv.waiting_stage (ho : s.owner.Waits) :
    ∃ k r, r ≤ 5 * s.reader.workers.length + 4 ∧ CallsStage s k r := by
  by_cases hend : s.NextEnded
  · exact ⟨_, _, Nat.le_add_right _ _, .ended ho hend⟩
  · simp only [NextEnded, not_forall] at hend
    obtain ⟨w, rest, hcons, hnot⟩ := hend
    obtain ⟨wk, hw⟩ := h.next_thread ho hcons
    have hrun : wk.pc.joined = none := by
      cases hj : wk.pc.joined with
      | none => rfl
      | some panicked => exact absurd ⟨wk, panicked, hw, hj⟩ hnot
    have hleft : wk.pc.stepsLeft ≤ 4 := by
      cases wk.pc <;> simp [CallbackPc.stepsLeft]
    exact ⟨_, _, Nat.add_le_add_left hleft _, .running w rest wk ho hcons hw hrun⟩

theorem Inv.calls_stage (hidle : s.owner ≠ .idle) (hopen : s.owner ≠ .dropped) :
    ∃ k r, CallsStage s k r := by
  cases ho : s.owner with
  | idle => exact absurd ho hidle
  | dropped => exact absurd ho hopen
  | starting replica => exact ⟨_, _, .starting replica ho⟩
  | joining panicCount | dropping =>
    obtain ⟨k, r, -, hstage⟩ := h.waiting_stage (by rw [ho]; trivial)
    exact ⟨k, r, hstage⟩

end

theorem CallsStage.busy {k : ReaderAgent} {r : Nat} (h : CallsStage s k r) :
    s.owner ≠ .idle ∧ s.owner ≠ .dropped := by
  cases h with
  | starting replica ho => simp [ho]
  | running w rest wk ho => exact ⟨ho.busy.1, ho.busy.2.1⟩
  | ended ho => exact ⟨ho.busy.1, ho.busy.2.1⟩

/-- Whoever moves while a call is in progress. -/
theorem busy_cases (hidle : s.owner ≠ .idle) {a : Action V} (hs : s.step host a = some s') :
    a = .spawn ∨ a = .join ∨ a = .drop ∨ ∃ u event, a = .worker u event := by
  cases a with
  | call call => simp [ReaderSession.step, ReaderSession.call, hidle] at hs
  | beginDrop => simp [ReaderSession.step, ReaderSession.beginDrop, hidle] at hs
  | spawn => exact Or.inl rfl
  | join => exact Or.inr (Or.inl rfl)
  | drop => exact Or.inr (Or.inr (Or.inl rfl))
  | worker u event => exact Or.inr (Or.inr (Or.inr ⟨u, event, rfl⟩))

theorem NextEnded.joinNext (hend : s.NextEnded) {w : Nat} {rest : List Nat}
    (hcons : s.reader.workers = w :: rest) : ∃ panicked, s.joinNext w rest =
      some ({ s with reader := { s.reader with workers := rest } }, panicked) := by
  obtain ⟨wk, panicked, hw, hj⟩ := hend w rest hcons
  exact ⟨panicked, by simp only [ReaderSession.joinNext, hw, hj]⟩

theorem Inv.join_ended (h : Inv host σ capacity s) {panicCount : Nat}
    (ho : s.owner = .joining panicCount) (hend : s.NextEnded) :
    s.reader.workers = [] ∧
      s.joinStep = some (s.finish .join ((s.phase capacity).answer s.panics .join)) ∨
    ∃ w rest panicCount', s.reader.workers = w :: rest ∧ s.joinStep = some { s with
      reader := { s.reader with workers := rest }
      owner := .joining panicCount' } := by
  cases hcons : s.reader.workers with
  | nil =>
    refine Or.inl ⟨rfl, ?_⟩
    rw [h.join_answer ho hcons]
    simp only [ReaderSession.joinStep, ho, hcons]
    split
    · rfl
    · rfl
  | cons w rest =>
    obtain ⟨panicked, hnext⟩ := hend.joinNext hcons
    refine Or.inr ⟨w, rest, if panicked then panicCount + 1 else panicCount, rfl, ?_⟩
    simp only [ReaderSession.joinStep, ho, hcons, hnext]

theorem drop_ended (ho : s.owner = .dropping) (hend : s.NextEnded) :
    s.reader.workers = [] ∧ s.dropStep = some { s with owner := .dropped } ∨
    ∃ w rest, s.reader.workers = w :: rest ∧
      s.dropStep = some { s with reader := { s.reader with workers := rest } } := by
  cases hcons : s.reader.workers with
  | nil =>
    refine Or.inl ⟨rfl, ?_⟩
    simp only [ReaderSession.dropStep, ho, hcons]
  | cons w rest =>
    obtain ⟨panicked, hnext⟩ := hend.joinNext hcons
    refine Or.inr ⟨w, rest, rfl, ?_⟩
    simp only [ReaderSession.dropStep, ho, hcons, hnext]

theorem CallsStage.enabled (h : Inv host σ capacity s) {k : ReaderAgent} {r : Nat}
    (hstage : CallsStage s k r) : Enabled (step host) k.actions s := by
  cases hstage with
  | starting replica ho =>
    refine ⟨.spawn, Or.inl rfl, ?_⟩
    rcases h.spawn_cases ho with ⟨-, hstep⟩ | ⟨core, base, -, -, -, hstep⟩
    · exact ⟨_, hstep⟩
    · exact ⟨_, hstep⟩
  | running w rest wk ho hcons hw hrun =>
    obtain ⟨event, -, s', -, hs, -⟩ := h.lifeCycle.goes_on w wk hw hrun .panicked .panicked
    exact ⟨.worker w event, ⟨event, rfl⟩, s', hs⟩
  | ended ho hend =>
    cases how : s.owner with
    | joining panicCount =>
      refine ⟨.join, Or.inr (Or.inl rfl), ?_⟩
      rcases h.join_ended how hend with ⟨-, hstep⟩ | ⟨w, rest, n, -, hstep⟩
      · exact ⟨_, hstep⟩
      · exact ⟨_, hstep⟩
    | dropping =>
      refine ⟨.drop, Or.inr (Or.inr rfl), ?_⟩
      rcases drop_ended how hend with ⟨-, hstep⟩ | ⟨w, rest, -, hstep⟩
      · exact ⟨_, hstep⟩
      · exact ⟨_, hstep⟩
    | idle | starting replica | dropped =>
      rw [how] at ho
      exact ho.elim

/-- A worker's step is progress where its handle is the next one, and else does not matter. -/
theorem CallsStage.worker_step {k : ReaderAgent} {r u : Nat} {event : WorkerEvent}
    (hstage : CallsStage s k r) (hs : s.step host (.worker u event) = some s') :
    (∃ k' r', r' < r ∧ CallsStage s' k' r') ∨
      (.worker u event : Action V) ∉ k.actions ∧ CallsStage s' k r := by
  obtain ⟨wk, wk', hu, hstep, rfl⟩ := workerStep_cases hs
  have hmoved := CallbackWorker.running_of_step hstep
  have hlt : u < s.threads.length := (List.getElem?_eq_some_iff.mp hu).1
  cases hstage with
  | starting replica ho =>
    exact Or.inr ⟨by simp [ReaderAgent.actions], .starting replica ho⟩
  | ended ho hend =>
    refine Or.inr ⟨by simp [ReaderAgent.actions], .ended ho fun w rest hcons => ?_⟩
    obtain ⟨wk₁, panicked, hw, hj⟩ := hend w rest hcons
    have hne : u ≠ w := by
      rintro rfl
      rw [hu] at hw
      cases hw
      rw [hmoved] at hj
      cases hj
    refine ⟨wk₁, panicked, ?_, hj⟩
    show (s.threads.set u wk')[w]? = some wk₁
    rw [List.getElem?_set_ne hne, hw]
  | running w rest wk₁ ho hcons hw hrun =>
    by_cases huw : u = w
    · subst huw
      rw [hu] at hw
      cases hw
      have hleft := CallbackWorker.stepsLeft_step hstep
      refine Or.inl ?_
      cases hj : wk'.pc.joined with
      | none =>
        refine ⟨_, _, Nat.add_lt_add_left hleft _, .running u rest wk' ho hcons ?_ hj⟩
        exact List.getElem?_set_self hlt
      | some panicked =>
        refine ⟨.owner, 5 * s.reader.workers.length, by omega, .ended ho fun w rest' hcons' => ?_⟩
        change s.reader.workers = w :: rest' at hcons'
        rw [hcons] at hcons'
        cases hcons'
        exact ⟨wk', panicked, List.getElem?_set_self hlt, hj⟩
    · refine Or.inr ⟨?_, .running w rest wk₁ ho hcons ?_ hrun⟩
      · rintro ⟨event', he⟩
        cases he
        exact huw rfl
      · show (s.threads.set u wk')[w]? = some wk₁
        rw [List.getElem?_set_ne huw, hw]

/-- Each step of a call itself is progress, and the last one ends it as it should. -/
theorem CallsStage.owner_step (h : Inv host σ capacity s) {k : ReaderAgent} {r : Nat}
    (hstage : CallsStage s k r) {a : Action V} (ha : a ∈ ReaderAgent.owner.actions)
    (hs : s.step host a = some s') : Ends capacity s s' ∨
      (∃ k' r', r' < r ∧ CallsStage s' k' r') ∧ s'.returned = s.returned ∧
        s'.owner.kind = s.owner.kind := by
  have h' := h.step hs
  have hmine : (∀ replica, s.owner = .starting replica → a = .spawn) ∧
      (∀ panicCount, s.owner = .joining panicCount → a = .join) ∧
      (s.owner = .dropping → a = .drop) := by
    rcases ha with rfl | rfl | rfl
    · refine ⟨fun _ _ => rfl, fun n ho => ?_, fun ho => ?_⟩
      · simp [ReaderSession.step, ReaderSession.spawnStep, ho] at hs
      · simp [ReaderSession.step, ReaderSession.spawnStep, ho] at hs
    · refine ⟨fun n ho => ?_, fun _ _ => rfl, fun ho => ?_⟩
      · simp [ReaderSession.step, ReaderSession.joinStep, ho] at hs
      · simp [ReaderSession.step, ReaderSession.joinStep, ho] at hs
    · refine ⟨fun n ho => ?_, fun n ho => ?_, fun _ => rfl⟩
      · simp [ReaderSession.step, ReaderSession.dropStep, ho] at hs
      · simp [ReaderSession.step, ReaderSession.dropStep, ho] at hs
  cases hstage with
  | starting replica ho =>
    obtain rfl := hmine.1 replica ho
    rcases h.spawn_cases ho with ⟨-, hstep⟩ | ⟨core, base, -, -, hlt, hstep⟩
    · rw [show s.step host .spawn = s.spawnStep from rfl, hstep] at hs
      cases hs
      left
      simp [Ends, ho, finish]
    · rw [show s.step host .spawn = s.spawnStep from rfl, hstep] at hs
      cases hs
      refine Or.inr ⟨⟨_, _, ?_, .starting (replica + 1) rfl⟩, rfl, by rw [ho]; rfl⟩
      show s.reader.buffer.replicas - (replica + 1) < s.reader.buffer.replicas - replica
      omega
  | running w rest wk ho hcons hw hrun =>
    -- its thread has not ended, so the handle cannot be joined
    have hnext : s.joinNext w rest = none := by
      simp only [ReaderSession.joinNext, hw, hrun]
    cases how : s.owner with
    | joining panicCount =>
      obtain rfl := hmine.2.1 panicCount how
      simp only [ReaderSession.step, ReaderSession.joinStep, how, hcons, hnext] at hs
      cases hs
    | dropping =>
      obtain rfl := hmine.2.2 how
      simp only [ReaderSession.step, ReaderSession.dropStep, how, hcons, hnext] at hs
      cases hs
    | idle | starting replica | dropped =>
      rw [how] at ho
      exact ho.elim
  | ended ho hend =>
    cases how : s.owner with
    | joining panicCount =>
      obtain rfl := hmine.2.1 panicCount how
      rcases h.join_ended how hend with ⟨-, hstep⟩ | ⟨w, rest, n, hcons, hstep⟩
      · rw [show s.step host .join = s.joinStep from rfl, hstep] at hs
        cases hs
        left
        simp [Ends, how, finish, panics]
      · rw [show s.step host .join = s.joinStep from rfl, hstep] at hs
        cases hs
        obtain ⟨k', r', hle, hstage⟩ := h'.waiting_stage trivial
        refine Or.inr ⟨⟨k', r', ?_, hstage⟩, rfl, rfl⟩
        change r' ≤ 5 * rest.length + 4 at hle
        rw [hcons, List.length_cons]
        omega
    | dropping =>
      obtain rfl := hmine.2.2 how
      rcases drop_ended how hend with ⟨-, hstep⟩ | ⟨w, rest, hcons, hstep⟩
      · rw [show s.step host .drop = s.dropStep from rfl, hstep] at hs
        cases hs
        left
        simp [Ends, how]
      · rw [show s.step host .drop = s.dropStep from rfl, hstep] at hs
        cases hs
        obtain ⟨k', r', hle, hstage⟩ := h'.waiting_stage ho
        refine Or.inr ⟨⟨k', r', ?_, hstage⟩, rfl, by rw [← how]⟩
        change r' ≤ 5 * rest.length + 4 at hle
        rw [hcons, List.length_cons]
        omega
    | idle | starting replica | dropped =>
      rw [how] at ho
      exact ho.elim

theorem calls_chain (host : Host) (σ : Nat → Nat → Nat) (s₀ : ReaderSession V) :
    Chain (step host) ReaderAgent.actions
      (fun _ _ s' => Inv host σ capacity s' ∧ Ends capacity s₀ s')
      (fun k r s => Inv host σ capacity s ∧ (s.returned = s₀.returned ∧
        s.owner.kind = s₀.owner.kind) ∧ CallsStage s k r) where
  enabled := fun k r s hat => hat.2.2.enabled hat.1
  step := by
    rintro k r s a s' ⟨h, ⟨hret, hkind⟩, hstage⟩ hs
    have h' := h.step hs
    by_cases ha : a ∈ ReaderAgent.owner.actions
    · rcases hstage.owner_step h ha hs with hends | ⟨⟨k', r', hlt, hnext⟩, hret', hkind'⟩
      · exact Or.inl ⟨h', hends.of_kind hret hkind⟩
      · exact Or.inr (Or.inl ⟨k', r', hlt, h', ⟨hret'.trans hret, hkind'.trans hkind⟩, hnext⟩)
    · obtain ⟨u, event, rfl⟩ : ∃ u event, a = .worker u event := by
        rcases busy_cases hstage.busy.1 hs with rfl | rfl | rfl | hw
        · exact absurd (Or.inl rfl) ha
        · exact absurd (Or.inr (Or.inl rfl)) ha
        · exact absurd (Or.inr (Or.inr rfl)) ha
        · exact hw
      have hsame : s'.returned = s.returned ∧ s'.owner = s.owner := by
        obtain ⟨wk, wk', -, -, rfl⟩ := workerStep_cases hs
        exact ⟨rfl, rfl⟩
      have hkept : s'.returned = s₀.returned ∧ s'.owner.kind = s₀.owner.kind :=
        ⟨hsame.1.trans hret, by rw [hsame.2, hkind]⟩
      rcases hstage.worker_step hs with ⟨k', r', hlt, hnext⟩ | ⟨hno, hstay⟩
      · exact Or.inr (Or.inl ⟨k', r', hlt, h', hkept, hnext⟩)
      · exact Or.inr (Or.inr ⟨hno, h', hkept, hstay⟩)

/-- Nothing moves once the reader is dropped. -/
theorem Inv.nothing_after (h : Inv host σ capacity s) (ho : s.owner = .dropped) (a : Action V) :
    s.step host a = none := by
  cases hs : s.step host a with
  | none => rfl
  | some s' =>
    rcases busy_cases (by simp [ho]) hs with rfl | rfl | rfl | ⟨u, event, rfl⟩
    · simp [ReaderSession.step, ReaderSession.spawnStep, ho] at hs
    · simp [ReaderSession.step, ReaderSession.joinStep, ho] at hs
    · simp [ReaderSession.step, ReaderSession.dropStep, ho] at hs
    · obtain ⟨wk, wk', hu, hstep, -⟩ := workerStep_cases hs
      exact absurd (CallbackWorker.running_of_step hstep) (h.ended (Or.inr ho) u wk hu)

end

/-- With all handles joined no thread is left running. -/
theorem Inv.ended_after {host : Host} {σ : Nat → Nat → Nat} {capacity : Nat}
    {s s' : ReaderSession V} (h' : Inv host σ capacity s') (hwaits : s.owner.Waits)
    (hends : Ends capacity s s') : ∀ wk ∈ s'.threads, wk.pc.joined ≠ none := by
  intro wk hwk
  obtain ⟨w, hw⟩ := List.mem_iff_getElem?.mp hwk
  cases ho : s.owner with
  | joining panicCount =>
    simp only [Ends, ho] at hends
    obtain ⟨hidle, hret⟩ := hends
    have hphase : s'.phase capacity = (s.phase capacity).next .join := by
      rw [phase, hret]
      exact Phase.after_concat _ _ _
    by_cases hst : (s'.phase capacity).started = true
    · refine h'.ended (Or.inl ?_) w wk hw
      rw [hphase] at hst ⊢
      cases hp : s.phase capacity with
      | filling l =>
        rw [hp] at hst
        cases hst
      | running l | joined l => rfl
    · -- a join before the start finds no thread
      have hnone := (h'.nothing_spawned hidle (Bool.eq_false_iff.mpr hst)).1
      rw [hnone] at hw
      cases hw
  | dropping =>
    simp only [Ends, ho] at hends
    exact h'.ended (Or.inr hends.1) w wk hw
  | idle | starting replica | dropped =>
    rw [ho] at hwaits
    exact hwaits.elim

end ReaderSession

/-! ## From construction -/

open ReaderSession in
theorem LinuxHedgedReaderBuilder.build_inv {host : Host} {T : CopyType V}
    {builder : LinuxHedgedReaderBuilder} {reader : LinuxHedgedReader V}
    (hsize : builder.capacity = 0 ∨ SizedExactly T.size builder.layout builder.capacity)
    (hbuild : builder.build host T = some (.ok reader))
    (hpin : ∀ core ∈ reader.workerCores, (pinToCpu host core).isSome = true) :
    ∃ σ, Inv host σ builder.capacity (.new reader) := by
  obtain ⟨halloc, hcores, hworkers, hstarted⟩ := build_ok hbuild
  refine ⟨(halloc.accepted.lanes usize).slot, halloc.placed_of_sizedExactly hsize,
    halloc.capacity_eq, hcores, hpin, halloc.holds_nil, trivial,
    ⟨hstarted, rfl, Nat.le_refl _, hworkers, fun w wk hw => ?_⟩, fun w wk hw => ?_⟩
  · exact absurd hw (Nat.not_lt_zero w)
  · cases hw

open ReaderSession in
/-- **The calls return.**  On every path that gives each thread its turn, and on which
each callback returns or panics, a call in progress ends with the answer of its phase;
`join` and `drop` leave no thread running, and after `drop` nothing moves. -/
theorem reader_calls_return (host : Host) (T : CopyType V) (builder : LinuxHedgedReaderBuilder)
    (hsize : builder.capacity = 0 ∨ SizedExactly T.size builder.layout builder.capacity)
    (reader : LinuxHedgedReader V) (hbuild : builder.build host T = some (.ok reader))
    (hpin : ∀ core ∈ reader.workerCores, (pinToCpu host core).isSome = true)
    (p : Path (step host)) (h0 : p.state 0 = .new reader)
    (hfair : ∀ k : ReaderAgent, p.WeaklyFair k.actions) (n : Nat)
    (hidle : (p.state n).owner ≠ .idle) (hopen : (p.state n).owner ≠ .dropped) :
    ∃ m, n < m ∧ Ends builder.capacity (p.state n) (p.state m) ∧
      LifeCycle host builder.capacity (p.state m) ∧
      ((p.state n).owner.Waits → ∀ wk ∈ (p.state m).threads, wk.pc.joined ≠ none) ∧
      ((p.state n).owner = .dropping → ∀ a, step host (p.state m) a = none) := by
  obtain ⟨σ, hnew⟩ := LinuxHedgedReaderBuilder.build_inv hsize hbuild hpin
  have hrun := p.run_acts n
  rw [h0] at hrun
  have h : Inv host σ builder.capacity (p.state n) :=
    StepRun.run_preserves (fun s a s' h hs => h.step hs) hnew hrun
  obtain ⟨k, r, hstage⟩ := h.calls_stage hidle hopen
  obtain ⟨m, a, hnm, -, ⟨h', hends⟩, -⟩ := (calls_chain host σ (p.state n)).reaches_goal p
    (fun k _ _ _ => hfair k) ⟨h, ⟨rfl, rfl⟩, hstage⟩
  refine ⟨m + 1, by omega, hends, h'.lifeCycle, fun hwaits => h'.ended_after hwaits hends,
    fun ho => ?_⟩
  simp only [Ends, ho] at hends
  exact h'.nothing_after hends.1

/-- `drop` is called while neither worker has run. -/
def droppedEarly : List (ReaderSession.Action Nat) :=
  [.call (.extendFromSlice [7, 8, 9]), .call .startWorkers, .spawn, .spawn, .spawn, .beginDrop]

/-- The workers are served one after the other, and joined. -/
def droppedLate : List (ReaderSession.Action Nat) :=
  [.worker 0 .run, .worker 0 (.waitWork (.returned 1)), .worker 0 .run,
    .worker 0 (.finalWork (.returned ())), .worker 1 .run, .worker 1 (.waitWork (.returned 5)),
    .drop, .drop, .drop]

open ReaderSession in
/-- Some fair path joins both workers in such a drop. -/
theorem reader_calls_return_byte :
    ∃ reader, threeBytes.build grantingHost .byte = some (.ok reader) ∧
      ∃ p : Path (step grantingHost), p.state 0 = .new reader ∧ ∃ m, 6 < m ∧
        Ends 3 (p.state 6) (p.state m) ∧ LifeCycle grantingHost 3 (p.state m) ∧
        ((p.state 6).owner.Waits → ∀ wk ∈ (p.state m).threads, wk.pc.joined ≠ none) ∧
        ((p.state 6).owner = .dropping → ∀ a, step grantingHost (p.state m) a = none) := by
  obtain ⟨reader, hbuild⟩ : ∃ reader, threeBytes.build grantingHost .byte = some (.ok reader) :=
    ⟨_, rfl⟩
  have hpin : ∀ core ∈ reader.workerCores, (pinToCpu grantingHost core).isSome = true := by
    cases hbuild
    decide
  have hsize : threeBytes.capacity = 0 ∨ SizedExactly CopyType.byte.size threeBytes.layout
      threeBytes.capacity := Or.inr ⟨Or.inl (by decide), by decide⟩
  have hruns : ∃ s e, StepRun.run (step grantingHost) (.new reader) droppedEarly = some s ∧
      StepRun.run (step grantingHost) s droppedLate = some e ∧ s.owner = .dropping ∧
      e.owner = .dropped := by
    cases hbuild
    exact ⟨_, _, rfl, rfl, rfl, rfl⟩
  obtain ⟨s, e, hs, he, ho, hend⟩ := hruns
  obtain ⟨σ, hnew⟩ := LinuxHedgedReaderBuilder.build_inv hsize hbuild hpin
  have hinv : Inv grantingHost σ 3 e := StepRun.run_preserves (fun s a s' h hs => h.step hs)
    (StepRun.run_preserves (fun s a s' h hs => h.step hs) hnew hs) he
  obtain ⟨p, h0, hmid, hfair⟩ := exists_ending hs he (hinv.nothing_after hend)
  change p.state 6 = s at hmid
  exact ⟨reader, hbuild, p, h0, reader_calls_return grantingHost .byte threeBytes hsize reader
    hbuild hpin p h0 (fun k => (hfair k.actions).1) 6 (by rw [hmid, ho]; simp)
    (by rw [hmid, ho]; simp)⟩

end Tailslayer
