import Mathlib.Data.List.Nodup
import Tailslayer.LayoutLanes
import Tailslayer.Pool.AddressBits

/-!
# What channel validation says of the elements

`validate_channels` looks up the replica bases only.  With aligned hugepages
(`Host.BacksHugepages`) the channel of an address is

* its own bit `channelBit`, when that bit is below the hugepage size;
* a bit of its hugepage's block otherwise.

A validated buffer has at most two replicas, whose bases differ in that bit.
Element `i` is `elementBytes i` past either base, hence (`validated_channels`)
its replicas differ in the bit iff nothing carries into it, and a bit from the
hugepage size on only shows the hugepages of the bases.
-/

namespace Tailslayer

open Word AddressBits

/-- `2 ^ shift` is the hugepage size. -/
def HugePageSize.shift : HugePageSize → Nat
  | .size2MiB => 21
  | .size1GiB => 30

theorem HugePageSize.bytes_eq (page : HugePageSize) : page.bytes = 2 ^ page.shift := by
  cases page <;> decide

theorem HugePageSize.trailingZeros_bytes (page : HugePageSize) :
    trailingZeros 64 page.bytes = page.shift := by
  cases page <;> decide

theorem HugePageSize.le_shift (page : HugePageSize) : 12 ≤ page.shift ∧ page.shift ≤ 64 := by
  cases page <;> decide

/-- Hugepages of `2 ^ q` bytes: a mapping starts with one, and hugepage `h` is
backed by the contiguous block from `block h` on, aligned alike. -/
structure Host.BacksHugepages (host : Host) (q : Nat) (block : Nat → Nat) : Prop where
  mmap_aligned : ∀ call bytes ptr, host.mmap call bytes q = .ok ptr → 2 ^ q ∣ ptr
  block_aligned : ∀ h, 2 ^ q ∣ block h
  frame : ∀ va entry, va < 2 ^ 64 → host.readPagemap (va / 4096 * 8) = .ok (8, entry) →
    entry &&& 1 <<< 63 ≠ 0 → entry &&& ((1 <<< 55) - 1) ≠ 0 →
    (entry &&& ((1 <<< 55) - 1)) * 4096 = place q block (va / 4096 * 4096)

/-! ## Channels of addresses -/

theorem computeChannel_eq {channelBit : Nat} (h : channelBit < 64) (phys : Nat) :
    computeChannel phys channelBit = (phys.testBit channelBit).toNat := by
  unfold computeChannel
  rw [Nat.mod_eq_of_lt h, Nat.toNat_testBit, Nat.and_one_is_mod, Nat.shiftRight_eq_div_pow]

theorem computeChannel_ne_iff {channelBit : Nat} (h : channelBit < 64) (phys phys' : Nat) :
    computeChannel phys channelBit ≠ computeChannel phys' channelBit ↔
      phys.testBit channelBit ≠ phys'.testBit channelBit := by
  rw [computeChannel_eq h, computeChannel_eq h]
  cases phys.testBit channelBit <;> cases phys'.testBit channelBit <;> decide

/-- Pages of 4096 bytes do not show in a larger page's addresses. -/
theorem place_page {q : Nat} (hq : 12 ≤ q) (block : Nat → Nat) (va : Nat) :
    place q block (va / 4096 * 4096) + va % 4096 = place q block va := by
  obtain ⟨n, hn⟩ : ∃ n, 2 ^ q = 4096 * n := by
    refine ⟨2 ^ (q - 12), ?_⟩
    rw [show (4096 : Nat) = 2 ^ 12 by decide, ← Nat.pow_add]
    congr 1
    omega
  have hdiv : va / 4096 * 4096 / (4096 * n) = va / (4096 * n) := by
    rw [← Nat.div_div_eq_div_mul, ← Nat.div_div_eq_div_mul, Nat.mul_div_cancel _ (by decide)]
  have h1 := Nat.div_add_mod (va / 4096 * 4096) (4096 * n)
  have h2 := Nat.div_add_mod va (4096 * n)
  have h3 := Nat.div_add_mod va 4096
  rw [hdiv] at h1
  unfold place
  rw [hn, hdiv]
  omega

theorem virtToPhys_ok {host : Host} {q : Nat} {block : Nat → Nat}
    (hhost : host.BacksHugepages q block) (hq : 12 ≤ q) {va phys : Nat} (hva : va < 2 ^ 64)
    (h : virtToPhys host va = .ok phys) : phys = place q block va % 2 ^ 64 := by
  unfold virtToPhys at h
  split at h
  · cases h
  · split at h
    · cases h
    · next read entry hread =>
      by_cases h8 : read = 8
      · subst h8
        rw [if_neg (by omega)] at h
        by_cases hp : entry &&& 1 <<< 63 = 0
        · rw [if_pos hp] at h
          cases h
        · rw [if_neg hp] at h
          dsimp only at h
          by_cases hf : entry &&& ((1 <<< 55) - 1) = 0
          · rw [if_pos hf] at h
            cases h
          · rw [if_neg hf] at h
            have hframe := hhost.frame va entry hva hread hp hf
            have hplace := place_page hq block va
            -- the frame number and the offset in the page have no common bits
            have hlow : va &&& 0xfff = va % 4096 := Nat.and_two_pow_sub_one_eq_mod va 12
            have hmul : usize.mul (entry &&& ((1 <<< 55) - 1)) 4096 =
                2 ^ 12 * (place q block (va / 4096 * 4096) % 2 ^ 64 / 4096) := by
              have hd : 4096 ∣ place q block (va / 4096 * 4096) % 2 ^ 64 := by
                rw [← hframe]
                exact (Nat.dvd_mod_iff (by decide)).mpr (Nat.dvd_mul_left _ _)
              show _ * 4096 % 2 ^ 64 = _
              rw [hframe]
              exact (Nat.mul_div_cancel' hd).symm
            rw [hlow, hmul, ← Nat.two_pow_add_eq_or_of_lt (Nat.mod_lt va (by decide))] at h
            have := Except.ok.inj h
            omega
      · rw [if_pos h8] at h
        cases h

variable {V : Type}

theorem Storage.addr_eq (st : Storage V) (elementSize n : Nat) :
    st.addr elementSize (n % 2 ^ 64) = (st.ptr + n * elementSize) % 2 ^ 64 := by
  show (st.ptr + n % 2 ^ 64 * elementSize % 2 ^ 64) % 2 ^ 64 = _
  rw [Nat.mod_mul_mod, Nat.add_mod_mod]

/-! ## What validation computes -/

namespace ReplicatedBuffer

theorem anyEqualRight_eq_false_iff (l : List Nat) : anyEqualRight l = false ↔ l.Nodup := by
  induction l with
  | nil => simp [anyEqualRight]
  | cons left rest ih =>
    have hany : rest.any (left == ·) = false ↔ left ∉ rest := by
      simp [List.any_eq_false, List.forall_mem_ne]
    rw [anyEqualRight, Bool.or_eq_false_iff, hany, ih, List.nodup_cons]

/-- The list of channels, given each base's channel. -/
theorem replicaChannels_eq_map {host : Host} {b : ReplicatedBuffer V} {channelBit : Nat}
    {channel : Nat → Nat}
    (hc : ∀ r phys, virtToPhys host (b.storage.addr b.layout.elementSize
      (usize.mul r b.layout.channelOffsetElements)) = .ok phys →
      computeChannel phys channelBit = channel r) :
    ∀ rs channels, b.replicaChannels host channelBit rs = .ok channels →
      channels = rs.map channel := by
  intro rs
  induction rs with
  | nil =>
    intro channels h
    cases h
    rfl
  | cons r rs ih =>
    intro channels h
    unfold replicaChannels at h
    dsimp only at h
    split at h
    · cases h
    · next phys hphys =>
      split at h
      · cases h
      · next rest hrest =>
        cases h
        rw [ih _ hrest, hc r phys hphys, List.map_cons]

/-- Validated bases have distinct channels. -/
theorem validateChannels_ok {host : Host} {b : ReplicatedBuffer V} {channelBit : Nat}
    (channel : Nat → Nat)
    (hc : ∀ r phys, virtToPhys host (b.storage.addr b.layout.elementSize
      (usize.mul r b.layout.channelOffsetElements)) = .ok phys →
      computeChannel phys channelBit = channel r)
    (h : b.validateChannels host channelBit = .ok ()) {r r' : Nat} (hr : r < b.replicas)
    (hr' : r' < b.replicas) (hne : r ≠ r') : channel r ≠ channel r' := by
  unfold validateChannels at h
  split at h
  · cases h
  · next channels hchannels =>
    obtain rfl := replicaChannels_eq_map hc _ _ hchannels
    split at h
    · cases h
    · next hany =>
      have hnodup := (anyEqualRight_eq_false_iff _).mp (Bool.eq_false_iff.mpr hany)
      have hinj := List.inj_on_of_nodup_map hnodup
      exact fun heq => hne (hinj (List.mem_range.mpr hr) (List.mem_range.mpr hr') heq)

/-! ## Elements -/

/-- How many bytes past its replica's base element `i` is. -/
def elementBytes (elementSize : Nat) (spec : LayoutSpec) (i : Nat) : Nat :=
  (LayoutPlan.precompute .exact elementSize spec).elementOffset .exact i * elementSize

/-- The replicas of element `i` are on different channels, `phys` being the
physical address behind an address. -/
def ChannelsDistinct (b : ReplicatedBuffer V) (phys : Nat → Nat) (channelBit i : Nat) : Prop :=
  ∀ r r' p p', r < b.replicas → r' < b.replicas → r ≠ r' →
    b.replicaSlotPtr r i = .ok p → b.replicaSlotPtr r' i = .ok p' →
    computeChannel (phys (b.storage.addr b.layout.elementSize p)) channelBit ≠
      computeChannel (phys (b.storage.addr b.layout.elementSize p')) channelBit

section
variable {host : Host} {T : CopyType V} {spec : LayoutSpec} {capacity : Nat}
  {page : HugePageSize} {b : ReplicatedBuffer V} (ha : Allocated host T spec capacity page b)
include ha

theorem Allocated.base_addr (r : Nat) :
    b.storage.addr b.layout.elementSize (usize.mul r b.layout.channelOffsetElements) =
      (b.storage.ptr + r * spec.channelOffsetBytes) % 2 ^ 64 := by
  have h := b.storage.addr_eq T.size (r * (spec.channelOffsetBytes / T.size))
  rw [Nat.mul_assoc, ha.accepted.offset_eq] at h
  rw [ha.layout_eq]
  exact h

theorem Allocated.slot_addr {r i : Nat} (hr : r < b.replicas) (hi : i < b.capacity) :
    ∃ p, b.replicaSlotPtr r i = .ok p ∧ b.storage.addr b.layout.elementSize p =
      (b.storage.ptr + (elementBytes T.size spec i + r * spec.channelOffsetBytes)) % 2 ^ 64 := by
  refine ⟨_, ha.replicaSlotPtr_eq hr hi, ?_⟩
  have hslot : (ha.accepted.lanes .exact).slot r i * T.size =
      elementBytes T.size spec i + r * spec.channelOffsetBytes := by
    unfold elementBytes
    rw [LayoutPlan.elementOffset_eq ha.accepted .exact i, Arith.norm_exact]
    simp only [Lanes.slot, LayoutSpec.Accepted.lanes_width, Nat.zero_mul, Nat.zero_add]
    rw [Nat.add_mul, Nat.mul_assoc r, ha.accepted.offset_eq, Nat.add_comm]
  have hnorm : (ha.accepted.lanes usize).slot r i % 2 ^ 64 =
      (ha.accepted.lanes .exact).slot r i % 2 ^ 64 := ha.accepted.norm_slot usize r i
  rw [ha.layout_eq, LayoutPlan.precompute_elementSize, hnorm, Storage.addr_eq, hslot]

/-- With two replicas there is one pair to look at. -/
theorem Allocated.channelsDistinct_iff (hR : spec.replicas ≤ 2) {channelBit : Nat}
    (hbit : channelBit < 64) {i : Nat} (hi : i < capacity) (phys : Nat → Nat) :
    b.ChannelsDistinct phys channelBit i ↔ spec.replicas = 1 ∨
      (phys ((b.storage.ptr + elementBytes T.size spec i) % 2 ^ 64)).testBit channelBit ≠
        (phys ((b.storage.ptr + (elementBytes T.size spec i + spec.channelOffsetBytes)) %
          2 ^ 64)).testBit channelBit := by
  have hpos := ha.accepted.replicas_pos
  have hrep := ha.replicas_eq
  have hi' : i < b.capacity := ha.capacity_eq.symm ▸ hi
  constructor
  · intro h
    by_cases h1 : spec.replicas = 1
    · exact Or.inl h1
    · right
      obtain ⟨p, hp, hap⟩ := ha.slot_addr (r := 0) (by omega) hi'
      obtain ⟨q, hq, haq⟩ := ha.slot_addr (r := 1) (by omega) hi'
      have := h 0 1 p q (by omega) (by omega) (by decide) hp hq
      rwa [hap, haq, computeChannel_ne_iff hbit, Nat.zero_mul, Nat.one_mul, Nat.add_zero] at this
  · rintro h r r' p p' hr hr' hne hp hp'
    obtain ⟨q, hq, haq⟩ := ha.slot_addr hr hi'
    obtain ⟨q', hq', haq'⟩ := ha.slot_addr hr' hi'
    rw [hq] at hp
    rw [hq'] at hp'
    obtain rfl := Except.ok.inj hp
    obtain rfl := Except.ok.inj hp'
    rw [haq, haq', computeChannel_ne_iff hbit]
    rcases h with h | h
    · omega
    · rcases (show r = 0 ∧ r' = 1 ∨ r = 1 ∧ r' = 0 by omega) with ⟨rfl, rfl⟩ | ⟨rfl, rfl⟩
      · simpa using h
      · simpa using Ne.symm h

section
variable {block : Nat → Nat} (hhost : host.BacksHugepages page.shift block)
include hhost

theorem Allocated.ptr_aligned : 2 ^ page.shift ∣ b.storage.ptr := by
  have := ha.mapped
  rw [page.trailingZeros_bytes] at this
  exact hhost.mmap_aligned _ _ _ this

/-- A bit inside the hugepage is the offset's own. -/
theorem Allocated.bit_low {channelBit : Nat} (hb : channelBit < page.shift) (y : Nat) :
    (place page.shift block ((b.storage.ptr + y) % 2 ^ 64)).testBit channelBit =
      y.testBit channelBit := by
  have hw := page.le_shift.2
  rw [place_testBit_low hhost.block_aligned hb, Nat.testBit_mod_two_pow,
    testBit_aligned_add (ha.ptr_aligned hhost) hb, decide_eq_true (by omega), Bool.true_and]

/-- Any other bit is one of the hugepage's. -/
theorem Allocated.bit_high {channelBit : Nat} (hb : page.shift ≤ channelBit) {y y' : Nat}
    (h : y / 2 ^ page.shift = y' / 2 ^ page.shift) :
    (place page.shift block ((b.storage.ptr + y) % 2 ^ 64)).testBit channelBit =
      (place page.shift block ((b.storage.ptr + y') % 2 ^ 64)).testBit channelBit := by
  have hm := ha.ptr_aligned hhost
  rw [place_testBit_high hhost.block_aligned hb, place_testBit_high hhost.block_aligned hb,
    div_wrapped_aligned_add hm page.le_shift.2, div_wrapped_aligned_add hm page.le_shift.2, h]

/-- The bases of a validated buffer differ in the channel bit. -/
theorem Allocated.bases_differ {channelBit : Nat} (hbit : channelBit < 64)
    (h : b.validateChannels host channelBit = .ok ()) {r r' : Nat} (hr : r < spec.replicas)
    (hr' : r' < spec.replicas) (hne : r ≠ r') :
    (place page.shift block
      ((b.storage.ptr + r * spec.channelOffsetBytes) % 2 ^ 64)).testBit channelBit ≠
    (place page.shift block
      ((b.storage.ptr + r' * spec.channelOffsetBytes) % 2 ^ 64)).testBit channelBit := by
  rw [← computeChannel_ne_iff hbit]
  rw [← ha.replicas_eq] at hr hr'
  refine validateChannels_ok (fun r => computeChannel (place page.shift block
    ((b.storage.ptr + r * spec.channelOffsetBytes) % 2 ^ 64)) channelBit) ?_ h hr hr' hne
  intro r phys hphys
  rw [ha.base_addr] at hphys
  rw [virtToPhys_ok hhost page.le_shift.1 (Nat.mod_lt _ (Nat.two_pow_pos 64)) hphys,
    computeChannel_eq hbit, computeChannel_eq hbit, Nat.testBit_mod_two_pow,
    decide_eq_true hbit, Bool.true_and]

/-- One bit tells two replicas apart, not three. -/
theorem Allocated.replicas_le_two {channelBit : Nat} (hbit : channelBit < 64)
    (h : b.validateChannels host channelBit = .ok ()) : spec.replicas ≤ 2 := by
  refine Nat.le_of_not_lt fun h3 => ?_
  have h01 := ha.bases_differ hhost hbit h (show 0 < _ by omega) (show 1 < _ by omega) (by decide)
  have h02 := ha.bases_differ hhost hbit h (show 0 < _ by omega) (show 2 < _ by omega) (by decide)
  have h12 := ha.bases_differ hhost hbit h (show 1 < _ by omega) (show 2 < _ by omega) (by decide)
  generalize Nat.testBit _ _ = b0 at h01 h02
  generalize Nat.testBit _ _ = b1 at h01 h12
  generalize Nat.testBit _ _ = b2 at h02 h12
  cases b0 <;> cases b1 <;> cases b2 <;> simp at h01 h02 h12

end

end

end ReplicatedBuffer

/-- `grantingHost`, except that the 2 MiB hugepage `h` is the `number h`-th physical one. -/
def blockHost (number : Nat → Nat) : Host :=
  { grantingHost with
    readPagemap := fun offset =>
      .ok (8, 1 <<< 63 ||| (number (offset / 8 / 512) * 512 + offset / 8 % 512)) }

theorem blockHost_backs {number : Nat → Nat} (hn : ∀ h, h < 2 ^ 43 → number h < 2 ^ 45) :
    (blockHost number).BacksHugepages 21 (fun h => number h * 2 ^ 21) where
  mmap_aligned := by
    intro call bytes ptr h
    change (if bytes = 0 then .error (IoError.osError 22) else .ok ((call + 1) <<< 40)) =
      Except.ok ptr at h
    split at h
    · cases h
    · obtain rfl := Except.ok.inj h
      have hdvd : 2 ^ 21 ∣ 2 ^ 40 := Nat.pow_dvd_pow 2 (show 21 ≤ 40 by decide)
      rw [Nat.shiftLeft_eq]
      exact hdvd.mul_left (call + 1)
  block_aligned := fun h => Nat.dvd_mul_left _ _
  frame := by
    intro va entry hva h _ _
    have hnum := hn (va / 4096 / 512) (by omega)
    have he : entry = 1 <<< 63 ||| (number (va / 4096 / 512) * 512 + va / 4096 % 512) := by
      cases h
      rw [Nat.mul_div_cancel _ (by decide)]
    have hlow : number (va / 4096 / 512) * 512 + va / 4096 % 512 < 2 ^ 55 := by omega
    have hframe : entry &&& ((1 <<< 55) - 1) =
        number (va / 4096 / 512) * 512 + va / 4096 % 512 := by
      rw [he, show (1 <<< 63 : Nat) = 2 ^ 63 * 1 by decide,
        ← Nat.two_pow_add_eq_or_of_lt (by omega)]
      exact (Nat.and_two_pow_sub_one_eq_mod _ 55).trans (by omega)
    rw [hframe]
    show _ = number (va / 4096 * 4096 / 2 ^ 21) * 2 ^ 21 + va / 4096 * 4096 % 2 ^ 21
    rw [show va / 4096 * 4096 / 2 ^ 21 = va / 4096 / 512 by omega]
    omega

end Tailslayer
