import Tailslayer.BenchmarkRun

/-!
# How the benchmark ends, and where it puts stress

After any interleaving, what `run` returns is a matter of the cores only (`run_result`), and
the stress threads are at lines of their page (`stress_lines`).
-/

namespace Tailslayer

open Crews StepRun Xorshift

/-! ## How `run` ends -/

/-- What a stress thread that is to be pinned to `core` fails with; one that aborts the
process is not joined by anybody. -/
def pinFailure (host : Host) (core : Nat) : Option RunError :=
  match pinToCore host core with
  | some (.error e) => some (.io e)
  | none | some (.ok ()) => none

namespace Setup

variable (b : Setup)

/-- A measurement thread also fails if its samples cannot be a vector. -/
def measureFailure (core : Nat) : Option RunError :=
  match pinToCore b.host core with
  | none => none
  | some (.error e) => some (.io e)
  | some (.ok ()) =>
    if FitsVec Benchmark.sampleBytes b.config.samples then none
    else some (.other "measurement thread panicked")

/-- The first error in the order in which the threads of arm `k` are joined. -/
def failure (k : Nat) : Option RunError :=
  ((b.targets k).findSome? fun t => b.measureFailure t.2).or
    ((b.stressors k).findSome? fun t => pinFailure b.host t.2)

def firstFailure : Option RunError := (List.range b.config.arms.length).findSome? b.failure

/-- What `run` returns if it comes to that and every file is written. -/
def result : RunResult :=
  match b.firstFailure with
  | none => .ok
  | some e => .error e

end Setup

theorem Measurement.measureFailure_of_returned {b : Setup} {now : Nat} {m : Measurement}
    (h : m.At b now m.pc) (hret : m.status = .returned) : b.measureFailure m.core = none := by
  obtain ⟨⟨hpin, hfit⟩, -⟩ := at_returned h hret
  simp only [Setup.measureFailure, show pinToCore b.host m.core = _ from hpin]
  exact if_pos hfit

theorem Measurement.measureFailure_of_failed {b : Setup} {now : Nat} {m : Measurement}
    {e : RunError} (h : m.At b now m.pc) (hfail : m.status = .failed e) :
    b.measureFailure m.core = some e := by
  cases hpc : m.pc with
  | failed e' =>
    rw [hpc] at h
    simp only [status, hpc, Status.failed.injEq] at hfail
    simp only [Setup.measureFailure, show pinToCore b.host m.core = _ from h, hfail]
  | panicked =>
    rw [hpc] at h
    simp only [status, hpc, Status.failed.injEq] at hfail
    simp only [Setup.measureFailure, show pinToCore b.host m.core = _ from h.1, ← hfail]
    exact if_neg h.2
  | _ => simp [status, hpc] at hfail

theorem Stress.pinFailure_of_returned {b : Setup} {m : Stress} (h : m.At b m.pc)
    (hret : m.status = .returned) : pinFailure b.host m.core = none := by
  have hpin : pinToCore b.host m.core = some (.ok ()) := pins_of_returned h hret
  simp only [pinFailure, hpin]

theorem Stress.pinFailure_of_failed {b : Setup} {m : Stress} {e : RunError} (h : m.At b m.pc)
    (hfail : m.status = .failed e) : pinFailure b.host m.core = some e := by
  cases hpc : m.pc with
  | failed e' =>
    rw [hpc] at h
    simp only [status, hpc, Status.failed.injEq] at hfail
    simp only [pinFailure, show pinToCore b.host m.core = _ from h, hfail]
  | _ => simp [status, hpc] at hfail

namespace Benchmark

variable {b : Setup} {s s' : Benchmark}

section
variable (h : Inv b s)
include h

/-- A measurement thread that has returned was not kept from its core. -/
theorem Inv.measure_pinned {k i : Nat} (hret : (s.measures (k, i)).status = .returned)
    {t : Nat × Nat} (ht : (b.targets k)[i]? = some t) :
    b.measureFailure t.2 = none := by
  have htarget := h.measures.target (k, i) (by simp [hret])
  rw [ht] at htarget
  cases htarget
  exact Measurement.measureFailure_of_returned (h.measures.at_pc (k, i)) hret

theorem Inv.stress_pinned {k i : Nat} (hret : (s.stresses (k, i)).status = .returned)
    {t : Nat × Nat} (ht : (b.stressors k)[i]? = some t) :
    pinFailure b.host t.2 = none := by
  have htarget := h.stresses.target (k, i) (by simp [hret])
  rw [ht] at htarget
  cases htarget
  exact Stress.pinFailure_of_returned (h.stresses.at_pc (k, i)) hret

theorem Inv.targets_pinned {k : Nat}
    (hret : ∀ i, i < (b.targets k).length → (s.measures (k, i)).status = .returned) :
    (b.targets k).findSome? (fun t => b.measureFailure t.2) = none := by
  rw [List.findSome?_eq_none_iff]
  intro t ht
  obtain ⟨i, hi⟩ := List.mem_iff_getElem?.mp ht
  exact h.measure_pinned (hret i (List.getElem?_eq_some_iff.mp hi).1) hi

theorem Inv.stressors_pinned {k : Nat}
    (hret : ∀ i, i < (b.stressors k).length → (s.stresses (k, i)).status = .returned) :
    (b.stressors k).findSome? (fun t => pinFailure b.host t.2) = none := by
  rw [List.findSome?_eq_none_iff]
  intro t ht
  obtain ⟨i, hi⟩ := List.mem_iff_getElem?.mp ht
  exact h.stress_pinned (hret i (List.getElem?_eq_some_iff.mp hi).1) hi

theorem Inv.failure_of_lt {k : Nat} (hk : k < s.arm) : b.failure k = none := by
  unfold Setup.failure
  rw [h.targets_pinned fun i hi => h.measures.crew.past k i hk hi,
    h.stressors_pinned fun i hi => h.stresses.crew.past k i hk hi]
  rfl

/-- The first arm with a failure decides. -/
theorem Inv.firstFailure_eq {e : RunError} (hlt : s.arm < b.config.arms.length)
    (hfail : b.failure s.arm = some e) : b.firstFailure = some e := by
  refine Lists.findSome?_of_first (fun j k hj hk => ?_) (List.getElem?_range hlt) hfail
  obtain ⟨-, rfl⟩ := List.getElem?_eq_some_iff.mp hk
  rw [List.getElem_range]
  exact h.failure_of_lt hj

/-- The error of the first thread that fails, or of a file that was not written. -/
theorem Inv.result_cases {result : RunResult} (hresult : s.main.result? = some result) :
    result = b.result ∨
    ∃ e, result = .error (.io e) ∧ b.config.rawPrefix.isSome = true ∧
      ∀ k, k ≤ s.arm → b.failure k = none := by
  have hbefore : ∀ k, k < s.arm → b.failure k = none := fun k hk => h.failure_of_lt hk
  cases h.closed result hresult with
  | done harm =>
    left
    have hnone : b.firstFailure = none := by
      unfold Setup.firstFailure
      rw [List.findSome?_eq_none_iff]
      intro k hk
      exact hbefore k (harm ▸ List.mem_range.mp hk)
    rw [Setup.result, hnone]
  | unwritten e hraw hm hs hlt =>
    refine Or.inr ⟨e, rfl, hraw, fun k hk => ?_⟩
    rcases Nat.lt_or_eq_of_le hk with hk | rfl
    · exact hbefore k hk
    · unfold Setup.failure
      rw [h.targets_pinned hm, h.stressors_pinned hs]
      rfl
  | measure i e hi hearlier hfail hlt =>
    left
    have htarget := h.measures.target (s.arm, i) (by simp [hfail])
    have hfound : b.failure s.arm = some e := by
      unfold Setup.failure
      rw [Lists.findSome?_of_first
        (fun j t hj ht => h.measure_pinned (hearlier j hj) ht) htarget
        (Measurement.measureFailure_of_failed (h.measures.at_pc (s.arm, i)) hfail)]
      rfl
    rw [Setup.result, h.firstFailure_eq hlt hfound]
  | stress i e hi hm hearlier hfail hlt =>
    left
    have htarget := h.stresses.target (s.arm, i) (by simp [hfail])
    have hfound : b.failure s.arm = some e := by
      unfold Setup.failure
      rw [h.targets_pinned hm, Lists.findSome?_of_first
        (fun j t hj ht => h.stress_pinned (hearlier j hj) ht) htarget
        (Stress.pinFailure_of_failed (h.stresses.at_pc (s.arm, i)) hfail)]
      rfl
    rw [Setup.result, h.firstFailure_eq hlt hfound]

end

/-- A host that refuses core 2 only. -/
def refusingHost : Host :=
  { grantingHost with
    schedSetaffinity := fun cpuset =>
      if cpuset.head? = some (1 <<< 2) then .error (.osError 22) else .ok () }

/-- The first measurement thread is kept from its core. -/
def unpinned : Setup := { hedgedStressed with host := refusingHost }

theorem unpinned_pinnable : unpinned.Pinnable := by
  intro k core hcore
  cases k with
  | zero => exact (by decide : ∀ core ∈ unpinned.cores 0, core < 1024) core hcore
  | succ k => cases hcore

def unpinnedJoined : List Action := List.replicate 8 .main ++ [.measure (0, 0), .main]

end Benchmark

/-! ## The lines under stress -/

/-- Offsets are those of the lines of 64 bytes of the page. -/
theorem Stress.target_of_mask (m : Stress) : ∃ line, m.target = m.region + 64 * line ∧
    64 * line + 64 ≤ superpageSize := by
  have hmask : stressMask.toNat = 64 * (2 ^ 24 - 1) := by decide
  have hdvd : 64 ∣ (m.state &&& stressMask).toNat := by
    apply Nat.dvd_of_mod_eq_zero
    rw [BitVec.toNat_and, hmask]
    show (m.state.toNat &&& 64 * (2 ^ 24 - 1)) % 2 ^ 6 = 0
    rw [Nat.and_mod_two_pow]
    simp
  obtain ⟨line, hline⟩ := hdvd
  refine ⟨line, by rw [target, hline], ?_⟩
  have hle : (m.state &&& stressMask).toNat ≤ stressMask.toNat := by
    rw [BitVec.toNat_and]
    exact Nat.and_le_right
  have hsize : superpageSize = 64 * 2 ^ 24 := by decide
  omega

theorem stressSeed_ne_zero {region : Nat} (haligned : superpageSize ∣ region) :
    stressSeed region ≠ 0 := by
  intro hzero
  have heq : BitVec.ofNat 64 region = 0xdeadbeef12345678 := (BitVec.xor_eq_zero_iff.mp hzero).symm
  obtain ⟨q, rfl⟩ := haligned
  have hnat := congrArg BitVec.toNat heq
  rw [BitVec.toNat_ofNat] at hnat
  have hsize : superpageSize = 2 ^ 30 := by decide
  have hval : BitVec.toNat (0xdeadbeef12345678 : BitVec 64) = 0xdeadbeef12345678 := by decide
  rw [hsize, hval] at hnat
  omega

namespace Benchmark

variable {b : Setup} {s s' : Benchmark}

theorem iterate_stressNext_ne_zero {x : BitVec 64} (hx : x ≠ 0) (n : Nat) :
    stressNext^[n] x ≠ 0 := by
  induction n with
  | zero => exact hx
  | succ n ih =>
    rw [Function.iterate_succ_apply']
    exact next_ne_zero (by decide) (by decide) (by decide) ih

/-- The generator of a thread that there is comes from its seed. -/
def Seeded (s : Benchmark) : Prop :=
  ∀ t, (s.stresses t).status ≠ .absent →
    ∃ n, (s.stresses t).state = stressNext^[n] (stressSeed (s.stresses t).region)

theorem Moved.seeded (hmoved : Moved b s s') (hseeded : s.Seeded) : s'.Seeded := by
  cases hmoved with
  | main s' hmove =>
    cases hmove with
    | startStress i region core hmain hi =>
      intro t ht
      change ((s.setStress _ _).stresses t).status ≠ .absent at ht
      show ∃ n, ((s.setStress _ _).stresses t).state =
        stressNext^[n] (stressSeed ((s.setStress _ _).stresses t).region)
      by_cases hts : t = (s.arm, i)
      · subst hts
        rw [setStress_self]
        exact ⟨0, rfl⟩
      · rw [setStress_of_ne hts] at ht ⊢
        exact hseeded t ht
    | _ => exact hseeded
  | stress u m hmove =>
    intro t ht
    by_cases htu : t = u
    · subst htu
      obtain ⟨n, hn⟩ := hseeded t (by rw [hmove.running]; simp)
      rw [setStress_self, hmove.region_eq]
      cases hmove with
      | chooses hpc hstop =>
        refine ⟨n + 1, ?_⟩
        rw [Function.iterate_succ_apply', ← hn]
      | _ => exact ⟨n, hn⟩
    · rw [setStress_of_ne htu] at ht ⊢
      exact hseeded t ht
  | wrote | unwritten | measure | tick | crash => exact hseeded

/-- **Stress stays on the lines of its page.**  In every interleaving, a stress thread's
target is one of the lines of its page, and its generator, which began with its seed, never
gets stuck at zero; until `run` returns the page is mapped. -/
theorem stress_lines (b : Setup) (as : List Action) (s : Benchmark)
    (haligned : ∀ region, b.memory.stressPage = some region → superpageSize ∣ region)
    (hrun : run (step b) start as = some s) (t : Nat × Nat)
    (ht : (s.stresses t).status ≠ .absent) : ∃ region n line,
      b.memory.stressPage = some region ∧
      (s.stresses t).state = stressNext^[n] (stressSeed region) ∧ (s.stresses t).state ≠ 0 ∧
      (s.stresses t).target = region + 64 * line ∧ 64 * line + 64 ≤ superpageSize ∧
      64 ∣ (s.stresses t).target ∧
      (s.main.result? = none → s.main ≠ .crashed → s.stressMapped = true) := by
  have h := inv_run hrun
  have hseeded : s.Seeded :=
    run_induction (fun t ht => absurd rfl ht) (fun _ _ _ hmoved hs => hmoved.seeded hs) hrun
  have hregion : b.memory.stressPage = some (s.stresses t).region := by
    have htarget := h.stresses.target t ht
    unfold Setup.stressors at htarget
    split at htarget
    · cases htarget
    · next arm harm =>
      cases hstress : b.stressRegion arm with
      | none =>
        simp only [Setup.stressorsOf, hstress] at htarget
        cases htarget
      | some region =>
        simp only [Setup.stressorsOf, hstress] at htarget
        obtain ⟨i, -, hi⟩ := List.mem_map.mp (List.mem_of_getElem? htarget)
        rw [← (Prod.mk.inj hi).1]
        cases arm with
        | singleQuiet | hedgedQuiet => cases hstress
        | singleStress | hedgedStress => exact hstress
  obtain ⟨n, hn⟩ := hseeded t ht
  obtain ⟨line, htarget, hline⟩ := (s.stresses t).target_of_mask
  refine ⟨_, n, line, hregion, hn, ?_, htarget, hline, ?_, fun hresult hcrash => ?_⟩
  · rw [hn]
    exact iterate_stressNext_ne_zero (stressSeed_ne_zero (haligned _ hregion)) n
  · rw [htarget]
    refine Nat.dvd_add ?_ (Nat.dvd_mul_right 64 line)
    exact Nat.dvd_trans (by decide) (haligned _ hregion)
  · by_contra hun
    rw [Bool.not_eq_true] at hun
    obtain ⟨result, hmain | hmain | hmain⟩ := h.stresses.mapped hun
    · rw [hmain] at hresult
      cases hresult
    · rw [hmain] at hresult
      cases hresult
    · exact hcrash hmain

theorem stress_lines_signalled : ∃ s, run (step hedgedStressed) start signalled = some s ∧
    (s.stresses (0, 0)).pc = .touching ∧ ∃ region n line,
      hedgedStressed.memory.stressPage = some region ∧
      (s.stresses (0, 0)).state = stressNext^[n] (stressSeed region) ∧
      (s.stresses (0, 0)).state ≠ 0 ∧
      (s.stresses (0, 0)).target = region + 64 * line ∧ 64 * line + 64 ≤ superpageSize ∧
      64 ∣ (s.stresses (0, 0)).target ∧
      (s.main.result? = none → s.main ≠ .crashed → s.stressMapped = true) := by
  refine ⟨_, rfl, rfl, stress_lines hedgedStressed signalled _ (fun region hregion => ?_) rfl
    (0, 0) (fun habsent => ?_)⟩
  · cases hregion
    decide
  · cases habsent

end Benchmark

end Tailslayer
