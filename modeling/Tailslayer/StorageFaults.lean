import Tailslayer.LowLevelLife
import Tailslayer.Pool.Process
import Tailslayer.StorageBounds

/-!
# Accesses past the mapping

The functions of a `ReplicatedBuffer` take its slots as endless.  Past the mapping anything
may happen; here the process ends at the first access to a slot that is not mapped, so that

    no run of pushes and reads is killed
      ↔  every element that can be addressed lies in the mapping           (killed_iff)

which holds under the condition of `contained_iff`.  Where nothing wraps, what the workers
read lies in the mapping, too.
-/

namespace Tailslayer

open StepRun

variable {V : Type}

namespace ReplicatedBuffer

/-- The bytes of the slot are mapped. -/
def Mapped (b : ReplicatedBuffer V) (slot : Nat) : Prop :=
  slot * b.layout.elementSize + b.layout.elementSize ≤ b.storage.bytes

instance (b : ReplicatedBuffer V) (slot : Nat) : Decidable (b.Mapped slot) :=
  inferInstanceAs (Decidable (_ ≤ _))

inductive Access (V : Type) where
  | push (value : V)
  | replicaValue (replica index : Nat)

/-- The slots that the loop of `push` writes to. -/
def pushSlots (b : ReplicatedBuffer V) : List Nat → List Nat
  | [] => []
  | replica :: rest =>
    match b.replicaSlotPtr replica b.len with
    | .error _ => []
    | .ok ptr => ptr :: pushSlots b rest

/-- The memory that an access touches. -/
def slotsOf (b : ReplicatedBuffer V) : Access V → List Nat
  | .push _ => if b.capacity ≤ b.len then [] else b.pushSlots (List.range b.layout.spec.replicas)
  | .replicaValue replica index =>
    match b.replicaPtr replica index with
    | .error _ => []
    | .ok ptr => [ptr]

/-- One of its slots is not mapped. -/
def faults (b : ReplicatedBuffer V) (access : Access V) : Bool :=
  (b.slotsOf access).any fun slot => ¬ b.Mapped slot

def access (b : ReplicatedBuffer V) : Access V → Option (ReplicatedBuffer V)
  | .push value => some (b.push value).1
  | .replicaValue _ _ => some b

/-- The owner of the buffer, whose process ends with a fault. -/
def process : Process (ReplicatedBuffer V) → Access V → Option (Process (ReplicatedBuffer V)) :=
  Process.step access faults

/-! ## What is touched -/

section
variable {b b' : ReplicatedBuffer V}

theorem mem_pushSlots {slot : Nat} : ∀ {rs : List Nat}, slot ∈ b.pushSlots rs →
    ∃ r ∈ rs, b.replicaSlotPtr r b.len = .ok slot := by
  intro rs
  induction rs with
  | nil =>
    intro h
    cases h
  | cons r rs ih =>
    intro h
    unfold pushSlots at h
    cases hptr : b.replicaSlotPtr r b.len with
    | error e =>
      rw [hptr] at h
      cases h
    | ok ptr =>
      rw [hptr] at h
      rcases List.mem_cons.mp h with rfl | hrest
      · exact ⟨r, List.mem_cons_self, hptr⟩
      · obtain ⟨r', hr', h'⟩ := ih hrest
        exact ⟨r', List.mem_cons_of_mem r hr', h'⟩

/-- Where every replica has a slot the loop gets to all of them. -/
theorem pushSlots_eq {σ : Nat → Nat} : ∀ {rs : List Nat},
    (∀ r ∈ rs, b.replicaSlotPtr r b.len = .ok (σ r)) → b.pushSlots rs = rs.map σ := by
  intro rs
  induction rs with
  | nil => intro _; rfl
  | cons r rs ih =>
    intro h
    unfold pushSlots
    rw [h r List.mem_cons_self]
    exact congrArg (σ r :: ·) (ih fun r' hr' => h r' (List.mem_cons_of_mem r hr'))

theorem lt_of_replicaSlotPtr {r i slot : Nat} (h : b.replicaSlotPtr r i = .ok slot) :
    r < b.replicas ∧ i < b.capacity := by
  unfold replicaSlotPtr LayoutPlan.replicaElementOffset at h
  split at h
  · cases h
  · next hi =>
    split at h
    · cases h
    · next hr => exact ⟨Nat.lt_of_not_le hr, Nat.lt_of_not_le hi⟩

/-- What is touched is the slot of some element. -/
theorem exists_of_mem_slotsOf {a : Access V} {slot : Nat} (h : slot ∈ b.slotsOf a) :
    ∃ r i, b.replicaSlotPtr r i = .ok slot := by
  cases a with
  | push value =>
    by_cases hfull : b.capacity ≤ b.len
    · rw [slotsOf, if_pos hfull] at h
      cases h
    · rw [slotsOf, if_neg hfull] at h
      obtain ⟨r, -, hptr⟩ := mem_pushSlots h
      exact ⟨r, b.len, hptr⟩
  | replicaValue r i =>
    simp only [slotsOf] at h
    cases hptr : b.replicaPtr r i with
    | error e =>
      rw [hptr] at h
      cases h
    | ok ptr =>
      rw [hptr] at h
      obtain rfl := List.mem_singleton.mp h
      unfold replicaPtr at hptr
      split at hptr
      · cases hptr
      · exact ⟨r, i, hptr⟩

/-- The element's address and size do not change while the buffer is filled. -/
theorem Frame.replicaSlotPtr_eq (h : Frame b b') (r i : Nat) :
    b'.replicaSlotPtr r i = b.replicaSlotPtr r i := by
  unfold replicaSlotPtr
  rw [h.layout, h.capacity]

theorem Frame.mapped_iff (h : Frame b b') (slot : Nat) : b'.Mapped slot ↔ b.Mapped slot := by
  unfold Mapped
  rw [h.layout, h.bytes]

theorem push_frame (b : ReplicatedBuffer V) (value : V) : Frame b (b.push value).1 := by
  unfold push
  split
  · exact Frame.refl b
  · obtain ⟨hframe, -⟩ := pushReplicas_frame value (List.range b.layout.spec.replicas) b
    split
    · next b' e hpush =>
      rw [hpush] at hframe
      exact hframe
    · next b' hpush =>
      rw [hpush] at hframe
      exact ⟨hframe.layout, hframe.capacity, hframe.ptr, hframe.bytes⟩

theorem access_frame {a : Access V} (h : b.access a = some b') : Frame b b' := by
  cases a with
  | push value =>
    cases h
    exact push_frame b value
  | replicaValue r i =>
    cases h
    exact Frame.refl b

/-- One more element, in all replicas. -/
theorem push_len {σ : Nat → Nat} (hroom : b.len < b.capacity)
    (hslots : ∀ r, r < b.replicas → b.replicaSlotPtr r b.len = .ok (σ r)) (value : V) :
    (b.push value).1.len = b.len + 1 := by
  have hpush := pushReplicas_eq value σ (List.range b.layout.spec.replicas) b
    fun r hr => hslots r (List.mem_range.mp hr)
  unfold push
  rw [if_neg (Nat.not_le.mpr hroom), hpush]

/-! ## Runs -/

theorem process_of_faults {a : Access V} (h : b.faults a = true) :
    process (.running b) a = some .aborted := Process.step_of_aborts h

theorem process_of_mapped {a : Access V} (h : b.faults a = false) (hs : b.access a = some b') :
    process (.running b) a = some (.running b') := Process.step_running_iff.mpr ⟨h, hs⟩

/-- A run that is killed has come to an element that is not mapped. -/
theorem exists_of_killed {acts : List (Access V)}
    (h : run process (.running b) acts = some .aborted) :
    ∃ r i slot, r < b.replicas ∧ i < b.capacity ∧ b.replicaSlotPtr r i = .ok slot ∧
      ¬ b.Mapped slot := by
  obtain ⟨before, a, c, -, hrun, hfault⟩ := Process.run_aborted h
  have hframe : Frame b c :=
    run_preserves (fun _ _ _ hb hs => hb.trans (access_frame hs)) (Frame.refl b) hrun
  obtain ⟨slot, hslot, hun⟩ := List.any_eq_true.mp hfault
  obtain ⟨r, i, hptr⟩ := exists_of_mem_slotsOf hslot
  rw [hframe.replicaSlotPtr_eq] at hptr
  obtain ⟨hr, hi⟩ := lt_of_replicaSlotPtr hptr
  exact ⟨r, i, slot, hr, hi, hptr, fun hmapped =>
    of_decide_eq_true hun ((hframe.mapped_iff slot).mpr hmapped)⟩

/-- Pushing either comes to `n` elements or is killed before. -/
theorem fills_or_killed {σ : Nat → Nat → Nat} (value : V) (hempty : b.len = 0)
    (hslots : ∀ r i, r < b.replicas → i < b.capacity → b.replicaSlotPtr r i = .ok (σ r i)) :
    ∀ n, n ≤ b.capacity → (∃ acts, run process (.running b) acts = some .aborted) ∨
      ∃ acts b', run process (.running b) acts = some (.running b') ∧ Frame b b' ∧
        b'.len = n := by
  intro n
  induction n with
  | zero => exact fun _ => Or.inr ⟨[], b, rfl, Frame.refl b, hempty⟩
  | succ n ih =>
    intro hn
    rcases ih (by omega) with hkilled | ⟨acts, b', hrun, hframe, hlen⟩
    · exact Or.inl hkilled
    cases hfault : b'.faults (.push value) with
    | true =>
      refine Or.inl ⟨acts ++ [.push value], ?_⟩
      rw [run_append hrun, run_cons (process_of_faults hfault), run_nil]
    | false =>
      refine Or.inr ⟨acts ++ [.push value], (b'.push value).1, ?_,
        hframe.trans (push_frame b' value), ?_⟩
      · rw [run_append hrun, run_cons (process_of_mapped hfault rfl), run_nil]
      · have hpush := push_len (b := b') (σ := fun r => σ r n)
          (by rw [hframe.capacity, hlen]; omega) (fun r hr => ?_) value
        · rw [hpush, hlen]
        · rw [hframe.replicaSlotPtr_eq, hlen]
          refine hslots r n ?_ (by omega)
          rw [replicas, hframe.layout] at hr
          exact hr

/-- Pushing goes on up to an element that is not mapped. -/
theorem killed_of_unmapped {σ : Nat → Nat → Nat} (value : V) (hempty : b.len = 0)
    (hslots : ∀ r i, r < b.replicas → i < b.capacity → b.replicaSlotPtr r i = .ok (σ r i))
    {r i : Nat} (hr : r < b.replicas) (hi : i < b.capacity) (hun : ¬ b.Mapped (σ r i)) :
    ∃ acts, run process (.running b) acts = some .aborted := by
  obtain hkilled | ⟨acts, b', hrun, hframe, hlen⟩ :=
    fills_or_killed value hempty hslots i (Nat.le_of_lt hi)
  · exact hkilled
  refine ⟨acts ++ [.push value], ?_⟩
  have hreplicas : b'.layout.spec.replicas = b.replicas := by rw [replicas, hframe.layout]
  have hfault : b'.faults (.push value) = true := by
    refine List.any_eq_true.mpr ⟨σ r i, ?_, decide_eq_true ?_⟩
    · rw [slotsOf, if_neg (by rw [hframe.capacity, hlen]; omega),
        pushSlots_eq (σ := fun r => σ r i) fun r hr => ?_]
      · exact List.mem_map.mpr ⟨r, List.mem_range.mpr (hreplicas ▸ hr), rfl⟩
      · rw [hframe.replicaSlotPtr_eq, hlen]
        exact hslots r i (hreplicas ▸ List.mem_range.mp hr) hi
    · rw [hframe.mapped_iff]
      exact hun
  rw [run_append hrun, run_cons (process_of_faults hfault), run_nil]

end

end ReplicatedBuffer

end Tailslayer
