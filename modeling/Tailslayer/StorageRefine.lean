import Tailslayer.LayoutLanes
import Tailslayer.Spec.BoundedList

/-!
# `ReplicatedBuffer` refines a bounded list

`Placed b σ`: replica `r` keeps element `i` in slot `σ r i`, by both of the
code's address computations, and no two elements share a slot.  It says all
that the operations need of the layout; `placed_of_fits` gets it for every
buffer whose exact allocation fits `usize` (`AllocationFits`).

`Holds b xs`: every replica of `b` reads `xs`.  Under `Placed`, `push` and
`extendFromSlice` do to it what `BoundedList` does to its items
(`push_refines`, `extendFromSlice_refines`), hence

    b₀ fresh, b = run b₀ ops  →  Holds b (BoundedList.empty.run ops).items   (runOps_holds)
-/

namespace Tailslayer

open Word

variable {V : Type}

/-! ## Addresses -/

/-- The exact number of bytes needed for `capacity` elements is a `usize`. -/
def AllocationFits (elementSize : Nat) (spec : LayoutSpec) (capacity : Nat) : Prop :=
  usize.Fits ((LayoutPlan.precompute .exact elementSize spec).allocationBytes .exact capacity)

instance (elementSize : Nat) (spec : LayoutSpec) (capacity : Nat) :
    Decidable (AllocationFits elementSize spec capacity) :=
  inferInstanceAs (Decidable (usize.Fits _))

section
variable {elementSize : Nat} {spec : LayoutSpec} (hacc : spec.Accepted elementSize) {A : Arith}
include hacc

/-- The wrapped stride only differs from the exact one if a second chunk does not fit. -/
theorem LayoutSpec.Accepted.slot_eq_exact {r i : Nat}
    (hfit : A.Fits ((hacc.lanes .exact).slot r i)) :
    (hacc.lanes A).slot r i = (hacc.lanes .exact).slot r i := by
  rcases Nat.lt_or_ge i (spec.channelOffsetBytes / elementSize) with hi | hi
  · rw [Lanes.slot_first_chunk _ _ hi, Lanes.slot_first_chunk _ _ hi]
    rfl
  · have hdiv : 1 ≤ i / (spec.channelOffsetBytes / elementSize) :=
      (Nat.one_le_div_iff hacc.offsetElements_pos).mpr hi
    have hstride : spec.channels * (spec.channelOffsetBytes / elementSize) ≤
        (hacc.lanes .exact).slot r i := by
      have := Nat.mul_le_mul_right (spec.channels * (spec.channelOffsetBytes / elementSize)) hdiv
      rw [Nat.one_mul] at this
      simp only [Lanes.slot, lanes_width, lanes_stride, Arith.mul_exact]
      omega
    have hmul := Arith.mul_eq (hfit.mono hstride)
    simp only [Lanes.slot, lanes_width, lanes_stride, Arith.mul_exact, hmul]

/-- A capacity that fits has every element's slot in range. -/
theorem AllocationFits.slot_fits {capacity : Nat}
    (h : AllocationFits elementSize spec capacity) {r i : Nat} (hr : r < spec.replicas)
    (hi : i < capacity) : usize.Fits ((hacc.lanes .exact).slot r i) := by
  refine Arith.Fits.mono h ?_
  have hlt := LayoutPlan.slot_lt_allocationLen hacc hr hi
  have hs := hacc.elementSize_pos
  exact Nat.le_trans (Nat.le_of_lt hlt) (Nat.le_mul_of_pos_right _ hs)

end

namespace ReplicatedBuffer

/-- Both address computations of `b` are the injective `σ`. -/
structure Placed (b : ReplicatedBuffer V) (σ : Nat → Nat → Nat) : Prop where
  slot : ∀ r i, r < b.replicas → i < b.capacity →
    b.layout.replicaElementOffset usize r i = .ok (σ r i)
  worker : ∀ r i, r < b.replicas → i < b.capacity →
    usize.mul r b.layout.channelOffsetElements + b.layout.elementOffset usize i = σ r i
  inj : ∀ r i r' i', r < b.replicas → r' < b.replicas → i < b.capacity → i' < b.capacity →
    σ r i = σ r' i' → r = r' ∧ i = i'

/-- Slots that do not wrap are what both computations give. -/
theorem placed_of_slots {b : ReplicatedBuffer V} {elementSize : Nat} {spec : LayoutSpec}
    (hacc : spec.Accepted elementSize)
    (hl : b.layout = LayoutPlan.precompute usize elementSize spec)
    (hfit : ∀ r i, r < spec.replicas → i < b.capacity →
      usize.Fits ((hacc.lanes usize).slot r i))
    (hinj : ∀ r i r' i', r < spec.replicas → r' < spec.replicas → i < b.capacity →
      i' < b.capacity → (hacc.lanes usize).slot r i = (hacc.lanes usize).slot r' i' →
      r = r' ∧ i = i') :
    b.Placed (hacc.lanes usize).slot := by
  have hR : b.replicas = spec.replicas := by
    unfold replicas
    rw [hl, LayoutPlan.precompute_spec]
  refine ⟨fun r i hr hi => ?_, fun r i hr hi => ?_, fun r i r' i' hr hr' hi hi' he => ?_⟩
  · rw [hl, LayoutPlan.replicaElementOffset_eq hacc usize (hR ▸ hr) i,
      Arith.norm_eq (hfit r i (hR ▸ hr) hi)]
  · have hfull := hfit r i (hR ▸ hr) hi
    have hsum : (hacc.lanes usize).slot r i =
        r * (spec.channelOffsetBytes / elementSize) + (hacc.lanes usize).slot 0 i := by
      simp only [Lanes.slot, Nat.zero_mul, Nat.zero_add, LayoutSpec.Accepted.lanes_width]
    have h0 : usize.Fits ((hacc.lanes usize).slot 0 i) := hfull.mono (by omega)
    rw [hl, LayoutPlan.precompute_channelOffsetElements, LayoutPlan.elementOffset_eq hacc usize i,
      Arith.norm_eq h0, hsum, Arith.mul_eq (hfull.mono (by omega))]
  · exact hinj r i r' i' (hR ▸ hr) (hR ▸ hr') hi hi' he

theorem placed_of_fits {b : ReplicatedBuffer V} {elementSize : Nat} {spec : LayoutSpec}
    (hacc : spec.Accepted elementSize)
    (hl : b.layout = LayoutPlan.precompute usize elementSize spec)
    (hfit : AllocationFits elementSize spec b.capacity) :
    b.Placed (hacc.lanes usize).slot := by
  have hslot : ∀ r i, r < spec.replicas → i < b.capacity →
      (hacc.lanes usize).slot r i = (hacc.lanes .exact).slot r i :=
    fun r i hr hi => hacc.slot_eq_exact (hfit.slot_fits hacc hr hi)
  refine placed_of_slots hacc hl (fun r i hr hi => ?_) fun r i r' i' hr hr' hi hi' he => ?_
  · rw [hslot r i hr hi]
    exact hfit.slot_fits hacc hr hi
  · rw [hslot r i hr hi, hslot r' i' hr' hi'] at he
    have hle := hacc.replicas_le
    exact hacc.room.slot_inj (by omega) (by omega) he

/-! ## What a buffer holds -/

/-- Every replica of `b` holds the list `xs`, for the reader and for the workers. -/
structure Holds (b : ReplicatedBuffer V) (xs : List V) : Prop where
  len_eq : xs.length = b.len
  len_le : b.len ≤ b.capacity
  value : ∀ r i (h : i < xs.length), r < b.replicas → b.replicaValue r i = .ok xs[i]
  worker : ∀ r i (h : i < xs.length), r < b.replicas →
    ∃ base, b.replicaBasePtr r = .ok base ∧
      b.storage.slots (base + b.layout.elementOffset usize i) = xs[i]

section
variable {b : ReplicatedBuffer V} {σ : Nat → Nat → Nat} (hp : b.Placed σ)
include hp

theorem Placed.replicaValue_eq {r i : Nat} (hr : r < b.replicas) (hi : i < b.len)
    (hle : b.len ≤ b.capacity) : b.replicaValue r i = .ok (b.storage.slots (σ r i)) := by
  unfold replicaValue replicaPtr replicaSlotPtr
  rw [if_neg (by omega), if_neg (by omega), hp.slot r i hr (by omega)]

theorem Placed.worker_slot {r i : Nat} (hr : r < b.replicas) (hi : i < b.capacity) :
    ∃ base, b.replicaBasePtr r = .ok base ∧ base + b.layout.elementOffset usize i = σ r i :=
  ⟨_, if_neg (show ¬ b.layout.spec.replicas ≤ r by unfold replicas at hr; omega),
    hp.worker r i hr hi⟩

/-- With placed addresses only the slots matter. -/
theorem Placed.holds_iff (xs : List V) :
    b.Holds xs ↔ xs.length = b.len ∧ b.len ≤ b.capacity ∧
      ∀ r i (h : i < xs.length), r < b.replicas → b.storage.slots (σ r i) = xs[i] := by
  constructor
  · intro hb
    refine ⟨hb.len_eq, hb.len_le, fun r i h hr => ?_⟩
    have hv := hb.value r i h hr
    rw [hp.replicaValue_eq hr (hb.len_eq ▸ h) hb.len_le] at hv
    exact Except.ok.inj hv
  · rintro ⟨hlen, hle, hslots⟩
    refine ⟨hlen, hle, fun r i h hr => ?_, fun r i h hr => ?_⟩
    · rw [hp.replicaValue_eq hr (hlen ▸ h) hle, hslots r i h hr]
    · obtain ⟨base, hbase, heq⟩ := hp.worker_slot hr (show i < b.capacity by omega)
      exact ⟨base, hbase, by rw [heq]; exact hslots r i h hr⟩

end

section
variable {b : ReplicatedBuffer V} {xs : List V} (hb : b.Holds xs)
include hb

theorem Holds.get_eq (hR : 0 < b.replicas) {i : Nat} (h : i < xs.length) :
    b.get i = some xs[i] := by
  unfold get
  rw [hb.value 0 i h hR]
  rfl

/-- Outside the list `replicaValue` is an `OutOfBounds` error, the index first. -/
theorem Holds.replicaValue_outside {r i : Nat} (h : b.len ≤ i ∨ b.replicas ≤ r) :
    b.replicaValue r i = .error (if b.len ≤ i then .outOfBounds i b.len
      else .outOfBounds r b.replicas) := by
  unfold replicaValue replicaPtr
  by_cases hi : b.len ≤ i
  · rw [if_pos hi, if_pos hi]
  · have hr : b.layout.spec.replicas ≤ r := h.resolve_left hi
    have hcap : ¬ b.capacity ≤ i := by
      have := hb.len_le
      omega
    unfold replicaSlotPtr LayoutPlan.replicaElementOffset
    rw [if_neg hi, if_neg hi, if_neg hcap, if_pos hr]
    rfl

theorem Holds.get_outside {i : Nat} (h : b.len ≤ i) : b.get i = none := by
  unfold get
  rw [hb.replicaValue_outside (Or.inl h)]
  rfl

end

/-! ## Operations -/

/-- `b` after its replica slots `σ r len` took `value`. -/
def pushed (b : ReplicatedBuffer V) (σ : Nat → Nat → Nat) (value : V) : ReplicatedBuffer V :=
  { b with
    len := b.len + 1
    storage := { b.storage with
      slots := fun p => if p ∈ (List.range b.replicas).map (σ · b.len) then value
        else b.storage.slots p } }

theorem pushReplicas_eq (value : V) (σ : Nat → Nat) :
    ∀ (rs : List Nat) (b : ReplicatedBuffer V),
      (∀ r ∈ rs, b.replicaSlotPtr r b.len = .ok (σ r)) →
      b.pushReplicas value rs = ({ b with storage := { b.storage with
        slots := fun p => if p ∈ rs.map σ then value else b.storage.slots p } }, .ok ()) := by
  intro rs
  induction rs with
  | nil =>
    intro b _
    simp [pushReplicas]
  | cons r rs ih =>
    intro b h
    unfold pushReplicas
    rw [h r List.mem_cons_self]
    have hrest : ∀ r' ∈ rs, (b.write (σ r) value).replicaSlotPtr r' (b.write (σ r) value).len =
        .ok (σ r') := fun r' hr' => h r' (List.mem_cons_of_mem _ hr')
    have hslots : (fun p => if p ∈ rs.map σ then value
          else Function.update b.storage.slots (σ r) value p) =
        fun p => if p ∈ (r :: rs).map σ then value else b.storage.slots p := by
      funext p
      simp only [List.map_cons, List.mem_cons, Function.update_apply]
      by_cases hp : p = σ r <;> by_cases hm : p ∈ rs.map σ <;> simp [hp, hm]
    show pushReplicas (b.write (σ r) value) value rs = _
    rw [ih _ hrest]
    simp only [write, hslots]

section
variable {b : ReplicatedBuffer V} {σ : Nat → Nat → Nat} (hp : b.Placed σ)
include hp

theorem Placed.pushed (value : V) : (b.pushed σ value).Placed σ := ⟨hp.slot, hp.worker, hp.inj⟩

theorem Placed.push_eq (hlt : b.len < b.capacity) (value : V) :
    b.push value = (b.pushed σ value, .ok ()) := by
  have hslot : ∀ r ∈ List.range b.layout.spec.replicas,
      b.replicaSlotPtr r b.len = .ok (σ r b.len) := by
    intro r hr
    unfold replicaSlotPtr
    rw [if_neg (by omega)]
    exact hp.slot r b.len (List.mem_range.mp hr) hlt
  unfold push
  rw [if_neg (by omega), pushReplicas_eq value (σ · b.len) _ b hslot]
  rfl

/-- A push writes the new element everywhere and disturbs no earlier one. -/
theorem Placed.holds_pushed {xs : List V} (hb : b.Holds xs) (hlt : b.len < b.capacity)
    (value : V) : (b.pushed σ value).Holds (xs ++ [value]) := by
  obtain ⟨hlen, hle, hslots⟩ := (hp.holds_iff xs).mp hb
  refine ((hp.pushed value).holds_iff _).mpr ⟨?_, hlt, fun r i h hr => ?_⟩
  · rw [List.length_append, List.length_singleton, hlen]
    rfl
  · rw [List.length_append, List.length_singleton] at h
    have hmem : σ r i ∈ (List.range b.replicas).map (σ · b.len) ↔ i = b.len := by
      rw [List.mem_map]
      constructor
      · rintro ⟨r', hr', he⟩
        exact (hp.inj r' b.len r i (List.mem_range.mp hr') hr hlt (by omega) he).2.symm
      · rintro rfl
        exact ⟨r, List.mem_range.mpr hr, rfl⟩
    show (if σ r i ∈ _ then value else b.storage.slots (σ r i)) = _
    by_cases hi : i = b.len
    · rw [if_pos (hmem.mpr hi)]
      simp [hi, ← hlen]
    · rw [if_neg (fun h' => hi (hmem.mp h')), hslots r i (by omega) hr,
        List.getElem_append_left (by omega)]

end

theorem push_full {b : ReplicatedBuffer V} (h : b.capacity ≤ b.len) (value : V) :
    b.push value = (b, .error (.capacityExceeded b.len b.capacity)) := if_pos h

/-- What stays the same while a buffer is filled. -/
structure Frame (b b' : ReplicatedBuffer V) : Prop where
  layout : b'.layout = b.layout
  capacity : b'.capacity = b.capacity
  ptr : b'.storage.ptr = b.storage.ptr
  bytes : b'.storage.bytes = b.storage.bytes

theorem Frame.refl (b : ReplicatedBuffer V) : Frame b b := ⟨rfl, rfl, rfl, rfl⟩

theorem Frame.trans {b b' b'' : ReplicatedBuffer V} (h : Frame b b') (h' : Frame b' b'') :
    Frame b b'' :=
  ⟨h'.layout.trans h.layout, h'.capacity.trans h.capacity, h'.ptr.trans h.ptr,
    h'.bytes.trans h.bytes⟩

/-- Writing changes slots only, also where it stops at an error. -/
theorem pushReplicas_frame (value : V) :
    ∀ (rs : List Nat) (b : ReplicatedBuffer V),
      Frame b (b.pushReplicas value rs).1 ∧ (b.pushReplicas value rs).1.len = b.len := by
  intro rs
  induction rs with
  | nil => intro b; exact ⟨Frame.refl b, rfl⟩
  | cons r rs ih =>
    intro b
    unfold pushReplicas
    cases b.replicaSlotPtr r b.len with
    | error e => exact ⟨Frame.refl b, rfl⟩
    | ok p =>
      obtain ⟨hframe, hlen⟩ := ih (b.write p value)
      exact ⟨⟨hframe.layout, hframe.capacity, hframe.ptr, hframe.bytes⟩, hlen⟩

theorem frame_pushed (b : ReplicatedBuffer V) (σ : Nat → Nat → Nat) (value : V) :
    Frame b (b.pushed σ value) := ⟨rfl, rfl, rfl, rfl⟩

theorem Frame.placed {b b' : ReplicatedBuffer V} (h : Frame b b') {σ : Nat → Nat → Nat}
    (hp : b.Placed σ) : b'.Placed σ := by
  obtain ⟨layout', capacity', len', storage'⟩ := b'
  obtain ⟨rfl, rfl, -, -⟩ := h
  exact ⟨hp.slot, hp.worker, hp.inj⟩

/-! ## Refinement -/

section
variable {capacity : Nat} {b : ReplicatedBuffer V} {σ : Nat → Nat → Nat} (hp : b.Placed σ)
  (hcap : b.capacity = capacity) {l : BoundedList V capacity} (hb : b.Holds l.items)
include hp hcap hb

/-- `push` is `append` of one value: taken, or refused with the buffer unchanged. -/
theorem push_refines (value : V) :
    (b.push value).1.Holds (l.append [value]).items ∧ Frame b (b.push value).1 ∧
      (b.push value).2 = (if l.items.length < capacity then .ok ()
        else .error (.capacityExceeded b.len capacity)) := by
  have hlen := hb.len_eq
  by_cases hlt : l.items.length < capacity
  · have hlt' : b.len < b.capacity := by omega
    rw [hp.push_eq hlt', if_pos hlt, BoundedList.items_append_single hlt]
    exact ⟨hp.holds_pushed hb hlt' value, frame_pushed b σ value, rfl⟩
  · rw [push_full (by omega), if_neg hlt, BoundedList.append_full (by omega), hcap]
    exact ⟨hb, Frame.refl b, rfl⟩

end

theorem extendFromSlice_cons_ok {b b' : ReplicatedBuffer V} {value : V}
    (h : b.push value = (b', .ok ())) (values : List V) :
    b.extendFromSlice (value :: values) = b'.extendFromSlice values := by
  rw [extendFromSlice, h]

theorem extendFromSlice_cons_error {b b' : ReplicatedBuffer V} {value : V} {e : Error}
    (h : b.push value = (b', .error e)) (values : List V) :
    b.extendFromSlice (value :: values) = (b', .error e) := by
  rw [extendFromSlice, h]

/-- `extendFromSlice` is `append` of the slice; it fails iff some value does not fit. -/
theorem extendFromSlice_refines {capacity : Nat} {σ : Nat → Nat → Nat} :
    ∀ (values : List V) (b : ReplicatedBuffer V) (l : BoundedList V capacity), b.Placed σ →
      b.capacity = capacity → b.Holds l.items →
      (b.extendFromSlice values).1.Holds (l.append values).items ∧
        Frame b (b.extendFromSlice values).1 ∧
        (b.extendFromSlice values).2 =
          (if values.length ≤ capacity - l.items.length then .ok ()
            else .error (.capacityExceeded capacity capacity)) := by
  intro values
  induction values with
  | nil =>
    intro b l hp hcap hb
    rw [BoundedList.append_nil]
    exact ⟨hb, Frame.refl b, (if_pos (Nat.zero_le _)).symm⟩
  | cons value values ih =>
    intro b l hp hcap hb
    have hlen := hb.len_eq
    have hbound := l.bound
    by_cases hlt : l.items.length < capacity
    · have hlt' : b.len < b.capacity := by omega
      rw [BoundedList.append_cons, extendFromSlice_cons_ok (hp.push_eq hlt' value)]
      have hholds := hp.holds_pushed hb hlt' value
      rw [← BoundedList.items_append_single hlt] at hholds
      obtain ⟨h1, h2, h3⟩ := ih (b.pushed σ value) (l.append [value]) (hp.pushed value) hcap hholds
      refine ⟨h1, (frame_pushed b σ value).trans h2, h3.trans (if_congr ?_ rfl rfl)⟩
      rw [BoundedList.items_append_single hlt, List.length_append, List.length_singleton,
        List.length_cons]
      omega
    · have hfull : capacity ≤ l.items.length := by omega
      rw [extendFromSlice_cons_error (push_full (by omega) value), BoundedList.append_full hfull,
        if_neg (by rw [List.length_cons]; omega), show b.len = capacity by omega, hcap]
      exact ⟨hb, Frame.refl b, rfl⟩

def applyOp (b : ReplicatedBuffer V) : ListOp V → ReplicatedBuffer V × Result Unit
  | .push value => b.push value
  | .extend values => b.extendFromSlice values

def runOps (b : ReplicatedBuffer V) : List (ListOp V) → ReplicatedBuffer V
  | [] => b
  | op :: ops => (b.applyOp op).1.runOps ops

theorem applyOp_refines {capacity : Nat} {b : ReplicatedBuffer V} {σ : Nat → Nat → Nat}
    {l : BoundedList V capacity} (hp : b.Placed σ) (hcap : b.capacity = capacity)
    (hb : b.Holds l.items) (op : ListOp V) :
    (b.applyOp op).1.Holds (l.step op).items ∧ Frame b (b.applyOp op).1 := by
  cases op with
  | push value =>
    have h := push_refines hp hcap hb value
    exact ⟨h.1, h.2.1⟩
  | extend values =>
    have h := extendFromSlice_refines values b l hp hcap hb
    exact ⟨h.1, h.2.1⟩

/-- **Runs refine.**  After any operations the buffer holds the bounded list's items. -/
theorem runOps_holds {capacity : Nat} {σ : Nat → Nat → Nat} :
    ∀ (ops : List (ListOp V)) (b : ReplicatedBuffer V) (l : BoundedList V capacity), b.Placed σ →
      b.capacity = capacity → b.Holds l.items →
      (b.runOps ops).Holds (l.run ops).items ∧ Frame b (b.runOps ops) := by
  intro ops
  induction ops with
  | nil => intro b l _ _ hb; exact ⟨hb, Frame.refl b⟩
  | cons op ops ih =>
    intro b l hp hcap hb
    obtain ⟨h1, h2⟩ := applyOp_refines hp hcap hb op
    obtain ⟨h3, h4⟩ := ih _ _ (h2.placed hp) (h2.capacity.trans hcap) h1
    exact ⟨h3, h2.trans h4⟩

/-! ## From construction -/

section
variable {host : Host} {T : CopyType V} {spec : LayoutSpec} {capacity : Nat}
  {page : HugePageSize} {b : ReplicatedBuffer V}

theorem Allocated.placed (h : Allocated host T spec capacity page b)
    (hfit : AllocationFits T.size spec capacity) :
    b.Placed (h.accepted.lanes usize).slot :=
  placed_of_fits h.accepted h.layout_eq (h.capacity_eq.symm ▸ hfit)

theorem Allocated.holds_nil (h : Allocated host T spec capacity page b) : b.Holds [] where
  len_eq := h.len_eq.symm
  len_le := by rw [h.len_eq]; exact Nat.zero_le _
  value := fun _ _ hi _ => by cases hi
  worker := fun _ _ hi _ => by cases hi

/-- A fresh buffer and then any operations. -/
theorem Allocated.runOps (h : Allocated host T spec capacity page b)
    (hfit : AllocationFits T.size spec capacity) (ops : List (ListOp V)) :
    (b.runOps ops).Holds ((BoundedList.empty : BoundedList V capacity).run ops).items ∧
      Frame b (b.runOps ops) :=
  runOps_holds ops b BoundedList.empty (h.placed hfit) h.capacity_eq h.holds_nil

theorem extendFromSlice_ok_iff {σ : Nat → Nat → Nat} (hp : b.Placed σ)
    {l : BoundedList V capacity} (hcap : b.capacity = capacity) (hb : b.Holds l.items)
    (values : List V) :
    (b.extendFromSlice values).2 = .ok () ↔ values.length ≤ capacity - b.len := by
  rw [(extendFromSlice_refines values b l hp hcap hb).2.2, ← hb.len_eq]
  split <;> simp [*]

/-- A granted mapping is all that an accepted spec needs. -/
theorem withOptions_none_ok (hacc : spec.Accepted T.size) {ptr : Nat}
    (hmap : mapHugetlb host (roundUp usize ((LayoutPlan.precompute usize T.size
      spec).allocationBytes usize capacity) page.bytes) page.bytes = .ok ptr) :
    ∃ b, withOptions host T spec capacity page .none = .ok b := by
  have hplan := (LayoutPlan.forType_ok_iff usize T.size spec _).mpr ⟨hacc, rfl⟩
  simp only [withOptions, allocate, Storage.new, hplan, hmap]
  exact ⟨_, rfl⟩

theorem fromSlice_eq {values : List V}
    (hnew : withOptions host T .default values.length .size1GiB .none = .ok b)
    (hfill : (b.extendFromSlice values).2 = .ok ()) :
    fromSlice host T values = .ok (b.extendFromSlice values).1 := by
  have hbuild : { ReplicatedBufferBuilder.default with capacity := values.length }.build host T =
      .ok b := hnew
  unfold fromSlice
  rw [hbuild]
  dsimp only
  generalize b.extendFromSlice values = pr at hfill ⊢
  obtain ⟨b', res⟩ := pr
  cases hfill
  rfl

end

end ReplicatedBuffer

open ReplicatedBuffer in
/-- **`ReplicatedBuffer` refines a bounded list.** -/
theorem replicatedBuffer_refines (host : Host) (T : CopyType V) :
    (∀ spec capacity page validation b₀,
      withOptions host T spec capacity page validation = .ok b₀ →
      AllocationFits T.size spec capacity →
      ∀ ops, let b := b₀.runOps ops
        ∃ xs, xs = ((BoundedList.empty : BoundedList V capacity).run ops).items ∧
          xs.length = b.len ∧ b.len ≤ capacity ∧
          -- every replica, by both address paths
          (∀ r i (h : i < xs.length), r < spec.replicas →
            b.replicaValue r i = .ok xs[i] ∧ b.get i = some xs[i] ∧
            ∃ base, b.replicaBasePtr r = .ok base ∧
              b.storage.slots (base + b.layout.elementOffset usize i) = xs[i]) ∧
          (∀ r i, b.len ≤ i ∨ spec.replicas ≤ r →
            ∃ index len, b.replicaValue r i = .error (.outOfBounds index len)) ∧
          (∀ i, b.len ≤ i → b.get i = none) ∧
          (∀ v, b.len < capacity → (b.push v).2 = .ok () ∧ (b.push v).1.Holds (xs ++ [v])) ∧
          (∀ v, ¬ b.len < capacity →
            b.push v = (b, .error (.capacityExceeded b.len capacity))) ∧
          (∀ vs, (b.extendFromSlice vs).1.Holds
              (xs ++ vs.take (min vs.length (capacity - b.len))) ∧
            ((b.extendFromSlice vs).2 = .ok () ↔ vs.length ≤ capacity - b.len))) ∧
    (∀ values ptr, 0 < T.size → T.size ∣ 256 → AllocationFits T.size .default values.length →
      mapHugetlb host (roundUp usize ((LayoutPlan.precompute usize T.size
        .default).allocationBytes usize values.length) HugePageSize.size1GiB.bytes)
        HugePageSize.size1GiB.bytes = .ok ptr →
      ∃ b, fromSlice host T values = .ok b ∧ b.Holds values ∧ b.capacity = values.length) := by
  refine ⟨fun spec capacity page validation b₀ hnew hfit ops => ?_,
    fun values ptr hs hd hfit hmap => ?_⟩
  · have halloc := (withOptions_ok hnew).1
    obtain ⟨hb, hframe⟩ := halloc.runOps hfit ops
    have hp := hframe.placed (halloc.placed hfit)
    have hcap := hframe.capacity.trans halloc.capacity_eq
    have hR : (b₀.runOps ops).replicas = spec.replicas := by
      rw [← halloc.replicas_eq, replicas, replicas, hframe.layout]
    generalize (BoundedList.empty : BoundedList V capacity).run ops = l at hb
    generalize b₀.runOps ops = b at *
    have hlen := hb.len_eq
    refine ⟨l.items, rfl, hlen, hcap ▸ hb.len_le, fun r i h hr => ?_, fun r i h => ?_,
      fun i h => hb.get_outside h, fun v hlt => ?_, fun v hlt => ?_, fun vs => ⟨?_, ?_⟩⟩
    · rw [← hR] at hr
      exact ⟨hb.value r i h hr, hb.get_eq (by omega) h, hb.worker r i h hr⟩
    · rw [hb.replicaValue_outside (hR ▸ h)]
      split
      · exact ⟨_, _, rfl⟩
      · exact ⟨_, _, rfl⟩
    · obtain ⟨h1, -, h3⟩ := push_refines hp hcap hb v
      rw [BoundedList.items_append_single (by omega)] at h1
      exact ⟨h3.trans (if_pos (by omega)), h1⟩
    · rw [push_full (by omega), hcap]
    · have h := (extendFromSlice_refines vs b l hp hcap hb).1
      rwa [BoundedList.items_append, hlen, List.take_eq_take_min, Nat.min_comm] at h
    · exact extendFromSlice_ok_iff hp hcap hb vs
  · have hacc : LayoutSpec.default.Accepted T.size :=
      ⟨hs, by decide, by decide, by decide, by decide, hd⟩
    obtain ⟨b₀, hb₀⟩ := withOptions_none_ok (T := T) hacc hmap
    have halloc := (withOptions_ok hb₀).1
    have hp := halloc.placed hfit
    obtain ⟨h1, h2, h3⟩ :=
      extendFromSlice_refines values b₀ (BoundedList.empty : BoundedList V values.length) hp
        halloc.capacity_eq halloc.holds_nil
    refine ⟨_, fromSlice_eq hb₀ (h3.trans (if_pos (Nat.le_refl _))), ?_,
      h2.capacity.trans halloc.capacity_eq⟩
    rwa [BoundedList.items_append, show BoundedList.empty.items = ([] : List V) from rfl,
      List.nil_append, List.length_nil, Nat.sub_zero, List.take_length] at h1

open ReplicatedBuffer in
/-- Three bytes fit, the fourth does not. -/
theorem replicatedBuffer_refines_byte :
    ∃ b₀, withOptions grantingHost .byte .default 3 .size2MiB .none = .ok b₀ ∧
      ∃ xs, xs = ((BoundedList.empty : BoundedList Nat 3).run
          [.push 7, .extend [8, 9, 10]]).items ∧
        xs.length = (b₀.runOps [.push 7, .extend [8, 9, 10]]).len := by
  refine ⟨_, rfl, ?_⟩
  obtain ⟨xs, h1, h2, -⟩ := (replicatedBuffer_refines grantingHost .byte).1 .default 3 .size2MiB
    .none _ rfl (by decide) [.push 7, .extend [8, 9, 10]]
  exact ⟨xs, h1, h2⟩

end Tailslayer
