import Mathlib.Data.Finset.Card
import Tailslayer.RuntimeCallers

/-!
# What many callers get

`request_lock` lets one call through at a time, and every run of the callers is a
run of `HedgedRuntime` (`CallersInv.step`).  So each thread gets, for each of its
calls and in their order, the element it asked for (`callers_served`).
-/

namespace Tailslayer

open Fair

variable {V : Type}

namespace Callers

open HedgedRuntime

/-- What thread `t` asks for by an action. -/
def Action.asks (t : Nat) : Action → List Nat
  | .enter u index => if u = t then [index] else []
  | _ => []

/-- The indices that `t` was answered or still asks for, in this order. -/
def history (s : Callers V) (t : Nat) : List Nat :=
  (s.log.filter (·.1 = t)).map (·.2.index) ++ (s.calls t).asked

/-- Calls so far, returned or in progress. -/
def entered (s : Callers V) : Nat := s.log.length + s.inside.card

section
variable {c : Config V} {s s' : Callers V}

/-- A step that neither starts a call nor returns from one. -/
theorem history_of_asked (hlog : s'.log = s.log)
    (hasked : ∀ t, (s'.calls t).asked = (s.calls t).asked) (t : Nat) :
    s'.history t = s.history t ++ [] := by
  rw [history, history, hlog, hasked t, List.append_nil]

/-- The call of an unlocking thread is returned; nothing is asked or forgotten. -/
theorem history_unlock {t : Nat} {result : ReadResult V} (hpc : s.calls t = .unlocking result)
    (hlog : s'.log = s.log ++ [(t, result)])
    (hcalls : s'.calls = Function.update s.calls t .outside) (u : Nat) :
    s'.history u = s.history u := by
  rw [history, history, hlog, hcalls, List.filter_append, List.map_append]
  by_cases hu : t = u
  · subst hu
    simp [hpc, CallPc.asked]
  · simp [hu, Ne.symm hu]

theorem history_enter {t index : Nat} (hs : s.enter c t index = some s') (u : Nat) :
    s'.history u = s.history u ++ (Action.enter t index).asks u := by
  unfold Callers.enter at hs
  split at hs
  · next hout =>
    split at hs
    · cases hs
    · split at hs
      · cases hs
        simp only [history, Action.asks, List.filter_append, List.map_append]
        by_cases hu : t = u
        · subst hu
          simp [hout, CallPc.asked]
        · simp [hu]
      · cases hs
        simp only [history, Action.asks, Callers.setCall]
        by_cases hu : t = u
        · subst hu
          simp [hout, CallPc.asked]
        · simp [hu, Ne.symm hu]
  · cases hs

/-- **Every step is one of the single runtime**, or nothing to it; no call is lost
or answered twice. -/
theorem CallersInv.step (h : CallersInv c s) {a : Action} (hs : s.step c a = some s') :
    CallersInv c s' ∧ Moves (HedgedRuntime.step c) s.single (s.absorb c a) s'.single ∧
      ∀ t, s'.history t = s.history t ++ a.asks t := by
  cases a with
  | enter t index =>
    obtain ⟨hinv, hmoves⟩ := h.enter hs
    exact ⟨hinv, hmoves, history_enter hs⟩
  | lock t =>
    obtain ⟨hinv, hmoves⟩ := h.lock hs
    refine ⟨hinv, hmoves, ?_⟩
    change s.lock t = some s' at hs
    unfold Callers.lock at hs
    split at hs
    · next index hpc =>
      split at hs
      · cases hs
        refine history_of_asked rfl (forall_call (fun u pc => pc.asked = (s.calls u).asked)
          (.reading (.locked index)) ?_ fun u _ => rfl)
        rw [hpc]
        rfl
      · cases hs
    · cases hs
  | unlock t =>
    obtain ⟨hinv, hsingle, result, hpc, hlog, hcalls, -, -⟩ := h.unlock hs
    refine ⟨hinv, hsingle, fun u => ?_⟩
    rw [show (Action.unlock t).asks u = [] from rfl, List.append_nil]
    exact history_unlock hpc hlog hcalls u
  | storeIndex t =>
    obtain ⟨hinv, hrun, -, hlog, hasked⟩ := h.access callAccess_storeIndex hs
    exact ⟨hinv, hrun, history_of_asked hlog hasked⟩
  | storeState t =>
    obtain ⟨hinv, hrun, -, hlog, hasked⟩ := h.access callAccess_storeState hs
    exact ⟨hinv, hrun, history_of_asked hlog hasked⟩
  | read t =>
    obtain ⟨hinv, hrun, -, hlog, hasked⟩ := h.access callAccess_readStep hs
    exact ⟨hinv, hrun, history_of_asked hlog hasked⟩
  | new =>
    obtain ⟨hinv, hrun, -, hcalls, -, hlog⟩ := h.other (otherAccess_newStep c) hs
    exact ⟨hinv, hrun, history_of_asked hlog fun t => by rw [hcalls]⟩
  | spawnFails =>
    obtain ⟨hinv, hrun, -, hcalls, -, hlog⟩ := h.other (otherAccess_spawnFails c) hs
    exact ⟨hinv, hrun, history_of_asked hlog fun t => by rw [hcalls]⟩
  | unwind =>
    obtain ⟨hinv, hrun, -, hcalls, -, hlog⟩ := h.other otherAccess_unwind hs
    exact ⟨hinv, hrun, history_of_asked hlog fun t => by rw [hcalls]⟩
  | worker w =>
    obtain ⟨hinv, hrun, -, hcalls, -, hlog⟩ := h.other (otherAccess_worker c w) hs
    exact ⟨hinv, hrun, history_of_asked hlog fun t => by rw [hcalls]⟩
  | drop =>
    obtain ⟨hinv, hrun, -, hcalls, -, hlog⟩ := h.other (otherAccess_dropStep c) hs
    exact ⟨hinv, hrun, history_of_asked hlog fun t => by rw [hcalls]⟩
  | beginDrop =>
    obtain ⟨hinv, hrun, -, hcalls, -, hlog⟩ := h.beginDrop hs
    exact ⟨hinv, hrun, history_of_asked hlog fun t => by rw [hcalls]⟩

/-! ## Runs -/

theorem callersInv_start : CallersInv c (start unspawned) where
  idle := rfl
  inside := fun _ => iff_of_false (Finset.notMem_empty _) (fun hne => hne rfl)
  holds := fun _ => iff_of_false id nofun
  busy := fun _ => nofun
  in_range := fun _ _ he => by cases he
  serving := fun _ hne => absurd rfl hne
  results := List.Perm.refl _

/-- **The callers refine the single runtime.** -/
theorem refines_single {acts : List Action} (hr : Reaches c acts s) : CallersInv c s ∧
    (∃ acts', HedgedRuntime.Reaches c acts' s.single) ∧
    ∀ t, s.history t = acts.flatMap (Action.asks t) := by
  obtain ⟨s₀, h0, hrun⟩ := hr
  rw [new_ok h0] at hrun h0
  obtain ⟨hinv, acts', hrun'⟩ := run_simulates single (absorb c)
    (fun s a s' (h : CallersInv c s) hs => ⟨(h.step hs).1, (h.step hs).2.1⟩) callersInv_start hrun
  refine ⟨hinv, ⟨acts', unspawned, h0, hrun'⟩, fun t => ?_⟩
  have hstep : ∀ s a s', CallersInv c s → step c s a = some s' →
      CallersInv c s' ∧ s'.history t = s.history t ++ a.asks t :=
    fun s a s' h hs => ⟨(h.step hs).1, (h.step hs).2.2 t⟩
  rw [StepRun.run_trace hstep callersInv_start hrun]
  rfl

/-- A call past the lock is in progress, or it has its result. -/
theorem CallPc.result_add_reader {pc : CallPc V} (hpc : pc.Holds) (hbusy : pc ≠ .reading .idle) :
    pc.result.length + (if pc.reader = .idle then 0 else 1) = 1 := by
  cases pc with
  | outside | locking => exact hpc.elim
  | reading pc =>
    have hne : pc ≠ .idle := fun he => hbusy (he ▸ rfl)
    simp [CallPc.reader, CallPc.result, hne]
  | unlocking result => rfl

theorem CallersInv.reads_le (h : CallersInv c s) : s.single.reads ≤ s.entered := by
  have hlen := h.results.length_eq
  rw [List.length_append, List.length_map] at hlen
  change s.runtime.returned.length + (if s.held.reader = .idle then 0 else 1) ≤ s.entered
  rw [hlen, entered]
  cases hh : s.holder with
  | none => simp [held, hh, CallPc.reader, CallPc.result]
  | some t =>
    have hholds := (h.holds t).mpr hh
    have hpos : 0 < s.inside.card := by
      refine Finset.card_pos.mpr ⟨t, (h.inside t).mpr fun hout => ?_⟩
      rw [hout] at hholds
      exact hholds
    have hone := CallPc.result_add_reader hholds (h.busy t)
    rw [held_of_holder hh]
    omega

/-- The single runtime keeps its invariant. -/
theorem CallersInv.single_inv (h : CallersInv c s) {acts : List HedgedRuntime.Action}
    (hr : HedgedRuntime.Reaches c acts s.single) (hfew : s.entered < 2 ^ 62) : Inv c s.single := by
  have hle := h.reads_le
  refine Inv.reaches hr ?_
  rw [FewReads, ← reads_reaches hr]
  omega

/-- What a call returns, in terms of the list the buffer holds. -/
def Served (xs : List V) (e : ReadResult V) : Prop :=
  (∀ h : e.index < xs.length, ∃ writer, e.result = .ok (.init writer xs[e.index])) ∧
    (xs.length ≤ e.index → e.result = .error (.outOfBounds e.index xs.length))

theorem served_of_returnOk {xs : List V} (hb : c.buffer.Holds xs) {e : ReadResult V}
    (h : ReturnOk c e) : Served xs e := by
  obtain ⟨hin, hout⟩ := h
  rw [← hb.len_eq] at hin hout
  refine ⟨fun hlt => ?_, hout⟩
  obtain ⟨writer, value, hres, -, replica, base, hbase, hslot⟩ := hin hlt
  obtain ⟨base', hbase', hslot'⟩ :=
    hb.worker replica e.index hlt (ReplicatedBuffer.replicaBasePtr_ok_lt hbase)
  rw [hbase] at hbase'
  cases hbase'
  exact ⟨writer, by rw [hres, ← hslot, hslot']⟩

end

/-- **Every caller is served.**  Any number of threads that share the runtime may call at
any time, fewer than `2 ^ 62` times: at most one is past the lock; each gets an answer to each
of its calls in turn, and the answer is the element it asked for; and while a call is in
progress the runtime is not being dropped. -/
theorem callers_served (c : Config V) (xs : List V) (hb : c.buffer.Holds xs) (acts : List Action)
    (s : Callers V) (hr : Reaches c acts s) (hfew : s.entered < 2 ^ 62) :
    (∀ t u, (s.calls t).Holds → (s.calls u).Holds → t = u) ∧
    (∀ t, (s.log.filter (·.1 = t)).map (·.2.index) ++ (s.calls t).asked =
      acts.flatMap (Action.asks t)) ∧
    (∀ t e, (t, e) ∈ s.log → Served xs e) ∧
    (∀ t, s.calls t ≠ .outside → s.runtime.owner = .serving ∧ s.runtime.mapped = true ∧
      s.runtime.state.shutdown = false) := by
  obtain ⟨h, ⟨acts', hr'⟩, hhistory⟩ := refines_single hr
  have hinv := h.single_inv hr' hfew
  refine ⟨fun t u ht hu => ?_, hhistory, fun t e he => ?_, fun t ht => ?_⟩
  · have htu := ((h.holds t).mp ht).symm.trans ((h.holds u).mp hu)
    exact Option.some.inj htu
  · have hmem : e ∈ s.runtime.returned :=
      h.results.mem_iff.mpr (List.mem_append_left _ (List.mem_map_of_mem he))
    exact served_of_returnOk hb (hinv.returned e hmem)
  · have hserve := h.serving t ht
    have hown := hinv.owner
    change OwnerAt s.single s.runtime.owner at hown
    rw [hserve] at hown
    exact ⟨hserve, hown⟩

/-- Two threads ask for different bytes at the same time; the second one to ask
gets the lock first. -/
def crossedCalls : List Action :=
  [.new, .new, .new, .worker 0, .enter 0 0, .enter 1 1, .lock 1, .read 1, .storeState 1,
    .storeIndex 1, .read 1] ++ List.replicate 9 (.worker 0) ++ List.replicate 4 (.read 1) ++
    [.unlock 1, .lock 0]

/-- The byte of thread 1 is the one it asked for, and thread 0 comes next. -/
theorem callers_served_bytes : ∃ s, Reaches twoBytes crossedCalls s ∧
    s.log.map (fun e => (e.1, e.2.index)) = [(1, 1)] ∧ s.holder = some 0 ∧
    ∀ t e, (t, e) ∈ s.log → Served [7, 8] e := by
  have hr : ∃ s, Reaches twoBytes crossedCalls s ∧ s.entered < 2 ^ 62 ∧
      s.log.map (fun e => (e.1, e.2.index)) = [(1, 1)] ∧ s.holder = some 0 :=
    ⟨_, ⟨_, rfl, rfl⟩, by decide, rfl, rfl⟩
  obtain ⟨s, hr, hfew, hlog, hholder⟩ := hr
  exact ⟨s, hr, hlog, hholder,
    (callers_served twoBytes [7, 8] twoBytes_holds crossedCalls s hr hfew).2.2.1⟩

end Callers

end Tailslayer
