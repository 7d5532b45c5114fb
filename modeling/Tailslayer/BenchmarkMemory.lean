import Tailslayer.BenchmarkSetup
import Tailslayer.Pool.AddressBits
import Tailslayer.Pool.Lists
import Tailslayer.StorageValidation

/-!
# Where the benchmark's copies lie

Source: `examples/hedged_read.rs`, `Config::from_cli` and `MemorySetup::new`.

Nothing checks that the copies fit the page: `new` copies 64 bytes to
`r * channel_offset` behind its start, a product that may wrap.  It never wraps
into the page, so that

    no copy leaves the page or overlaps another
      ↔  channels = 1  ∨  64 ≤ offset ∧ (channels - 1) * offset + 64 ≤ 2 ^ 30      (CopiesFit)

and then the copies are where they should be (`memory_setup_spec`).  More addresses than a
vector can have panic before the first copy.  On a page that is one piece of physical memory
the check of the channels is decided by the bit `channel_bit` of the offset
(`physical_check_iff`).
-/

namespace Tailslayer

open AddressBits Word

/-! ## Copies -/

/-- The last copy ends inside the page, and a copy has room before the next. -/
def BenchmarkConfig.CopiesFit (config : BenchmarkConfig) : Prop :=
  config.channels = 1 ∨
    64 ≤ config.channelOffset ∧
      (config.channels - 1) * config.channelOffset + 64 ≤ superpageSize

instance (config : BenchmarkConfig) : Decidable config.CopiesFit :=
  inferInstanceAs (Decidable (_ ∨ _))

/-- What `from_cli` has checked. -/
structure BenchmarkConfig.Checked (config : BenchmarkConfig) : Prop where
  arms_ne : config.arms ≠ []
  channels_pos : 0 < config.channels
  offset_pos : 0 < config.channelOffset
  stressThreads_le : config.stressThreads ≤ maxStressThreads

theorem BenchmarkConfig.fromCli_ok {cli : Cli} {config : BenchmarkConfig}
    (h : fromCli cli = .ok config) : config.Checked ∧
      config.channelOffset = cli.channelOffset.getD (1 <<< (cli.channelBit % 64)) ∧
      config.channelBit = cli.channelBit ∧ config.skipPhysCheck = cli.skipPhysCheck := by
  unfold fromCli at h
  dsimp only at h
  generalize (if cli.all then
    [.singleQuiet, .hedgedQuiet, .singleStress, .hedgedStress] else cli.arm) = arms at h
  split at h
  · cases h
  · next harms =>
    split at h
    · cases h
    · next hchannels =>
      split at h
      · cases h
      · next hoffset =>
        cases h
        refine ⟨⟨?_, Nat.pos_of_ne_zero hchannels, Nat.pos_of_ne_zero hoffset,
          Nat.min_le_right _ _⟩, rfl, rfl, rfl⟩
        rintro rfl
        exact harms rfl

section
variable {config : BenchmarkConfig}

theorem BenchmarkConfig.CopiesFit.copy_le (h : config.CopiesFit) {r : Nat}
    (hr : r < config.channels) : r * config.channelOffset + 64 ≤ superpageSize := by
  rcases h with h1 | ⟨-, hlast⟩
  · obtain rfl : r = 0 := by omega
    rw [Nat.zero_mul]
    decide
  · have hle := Nat.mul_le_mul_right config.channelOffset (show r ≤ config.channels - 1 by omega)
    omega

/-- The page has room for `2 ^ 24` copies. -/
theorem BenchmarkConfig.CopiesFit.fitsVec (h : config.CopiesFit) :
    FitsVec MemorySetup.addressBytes config.channels := by
  have hsize : superpageSize = 2 ^ 30 := Nat.one_shiftLeft 30
  unfold FitsVec MemorySetup.addressBytes
  rcases h with h1 | ⟨hroom, hlast⟩
  · omega
  · have hle := Nat.mul_le_mul_left (config.channels - 1) hroom
    omega

theorem BenchmarkConfig.CopiesFit.apart (h : config.CopiesFit) {r r' : Nat} (hlt : r < r')
    (hr : r' < config.channels) :
    r * config.channelOffset + 64 ≤ r' * config.channelOffset := by
  rcases h with h1 | ⟨hroom, -⟩
  · omega
  · have hle := Nat.mul_le_mul_right config.channelOffset hlt
    rw [Nat.succ_mul] at hle
    omega

theorem superpageSize_lt : superpageSize + superpageSize < 2 ^ 64 := by decide

/-- In the page nothing wraps. -/
theorem BenchmarkConfig.CopiesFit.distance_eq (h : config.CopiesFit) {r : Nat}
    (hr : r < config.channels) :
    usize.mul r config.channelOffset = r * config.channelOffset := by
  have hle := h.copy_le hr
  have hsize := superpageSize_lt
  refine Arith.mul_eq ?_
  show r * config.channelOffset < 2 ^ 64
  omega

theorem mem_distances {distance : Nat} : distance ∈ MemorySetup.distances config ↔
    ∃ r, 1 ≤ r ∧ r < config.channels ∧ usize.mul r config.channelOffset = distance := by
  unfold MemorySetup.distances
  simp only [List.mem_map, List.mem_range'_1]
  constructor
  · rintro ⟨r, ⟨h1, h2⟩, rfl⟩
    exact ⟨r, h1, by omega, rfl⟩
  · rintro ⟨r, h1, h2, rfl⟩
    exact ⟨r, ⟨h1, by omega⟩, rfl⟩

/-- Copies that fit are copied to where there is room. -/
theorem BenchmarkConfig.CopiesFit.copies (h : config.CopiesFit) :
    ∀ distance ∈ MemorySetup.distances config, MemorySetup.CopyFits distance := by
  intro distance hmem
  obtain ⟨r, h1, hr, rfl⟩ := mem_distances.mp hmem
  rw [h.distance_eq hr]
  have hroom := h.apart h1 hr
  rw [Nat.zero_mul, Nat.zero_add] at hroom
  exact ⟨hroom, h.copy_le hr⟩

/-- A product that has wrapped is never in the page: the one before it had left it. -/
theorem copiesFit_of_copies (hpos : 0 < config.channels) (hoff : config.channelOffset < 2 ^ 64)
    (h : ∀ distance ∈ MemorySetup.distances config, MemorySetup.CopyFits distance) :
    config.CopiesFit := by
  have hmul : ∀ r, r * config.channelOffset < 2 ^ 64 →
      usize.mul r config.channelOffset = r * config.channelOffset :=
    fun _ hlt => Nat.mod_eq_of_lt hlt
  have hfits : ∀ r, 1 ≤ r → r < config.channels →
      MemorySetup.CopyFits (usize.mul r config.channelOffset) :=
    fun r h1 hr => h _ (mem_distances.mpr ⟨r, h1, hr, rfl⟩)
  rcases Nat.eq_or_lt_of_le (Nat.succ_le_of_lt hpos) with h1 | h2
  · exact Or.inl h1.symm
  have hone := hfits 1 (Nat.le_refl 1) h2
  rw [hmul 1 (by omega), Nat.one_mul] at hone
  have hsize := superpageSize_lt
  have hexact : ∀ r, r + 1 < config.channels →
      (r + 1) * config.channelOffset + 64 ≤ superpageSize := by
    intro r
    induction r with
    | zero =>
      intro _
      rw [Nat.zero_add, Nat.one_mul]
      exact hone.2
    | succ r ih =>
      intro hr
      have hprev := ih (by omega)
      have hstep : (r + 2) * config.channelOffset =
          (r + 1) * config.channelOffset + config.channelOffset := Nat.succ_mul (r + 1) _
      have hnext := hfits (r + 2) (by omega) hr
      have hroom := hone.2
      rw [hmul (r + 2) (by omega)] at hnext
      exact hnext.2
  refine Or.inr ⟨hone.1, ?_⟩
  have hlast := hexact (config.channels - 2) (by omega)
  rwa [show config.channels - 2 + 1 = config.channels - 1 by omega] at hlast

/-- The addresses of the copies. -/
theorem BenchmarkConfig.CopiesFit.replicas_eq (h : config.CopiesFit) (hpos : 0 < config.channels)
    {base : Nat} (hbase : base + superpageSize ≤ 2 ^ 64) :
    base :: (MemorySetup.distances config).map (fun distance => usize.add base distance) =
      (List.range config.channels).map fun r => base + r * config.channelOffset := by
  obtain ⟨n, hn⟩ := Nat.exists_eq_succ_of_ne_zero (Nat.ne_of_gt hpos)
  have hcopy : ∀ r ∈ List.range' 1 (config.channels - 1),
      ((fun distance => usize.add base distance) ∘ fun replica =>
        usize.mul replica config.channelOffset) r = base + r * config.channelOffset := by
    intro r hr
    have hlt : r < config.channels := by
      have := (List.mem_range'_1.mp hr).2
      omega
    have hle := h.copy_le hlt
    dsimp only [Function.comp_apply]
    rw [h.distance_eq hlt]
    refine Arith.add_eq ?_
    show base + r * config.channelOffset < 2 ^ 64
    omega
  unfold MemorySetup.distances
  rw [List.map_map, List.map_congr_left hcopy, List.range_eq_range', hn, Nat.succ_sub_one,
    List.range'_succ, List.map_cons, Nat.zero_mul, Nat.add_zero]

end

/-! ## Clashes -/

namespace MemorySetup

/-- The error of the first two copies in one channel. -/
def clashError (left right channel : Nat) : RunError :=
  .invalidData ("replicas " ++ toString left ++ " and " ++ toString right ++
    " resolved to the same channel (" ++ toString channel ++ ")")

/-- No clash is found iff there is none. -/
theorem clash_eq_none_iff (channels : List Nat) : clash channels = none ↔ channels.Nodup := by
  unfold clash
  rw [List.findSome?_eq_none_iff, List.nodup_iff_getElem?_ne_getElem?]
  constructor
  · intro h i j hij hj he
    have hi := h i (List.mem_range.mpr (by omega))
    rw [List.findSome?_eq_none_iff] at hi
    have hij := hi j (List.mem_range'_1.mpr ⟨hij, by omega⟩)
    rw [← he, List.getElem?_eq_getElem (show i < channels.length by omega)] at hij
    simp at hij
  · intro h i hi
    rw [List.findSome?_eq_none_iff]
    intro j hj
    have hmem := List.mem_range'_1.mp hj
    have hlt : j < channels.length := by omega
    have hne := h i j hmem.1 hlt
    rw [List.getElem?_eq_getElem (show i < channels.length by omega),
      List.getElem?_eq_getElem hlt] at hne ⊢
    exact if_neg fun he => hne (congrArg some he)

/-- A copy in the first one's channel is reported before any other pair. -/
theorem clash_eq_some {channels : List Nat} {c j : Nat} (hj : 1 ≤ j) (h0 : channels[0]? = some c)
    (hc : channels[j]? = some c)
    (hbefore : ∀ i, 1 ≤ i → i < j → ∀ d, channels[i]? = some d → c ≠ d) :
    clash channels = some (0, j, c) := by
  obtain ⟨hlt, -⟩ := List.getElem?_eq_some_iff.mp hc
  have hright : ∀ k, k < channels.length - 1 →
      (List.range' (0 + 1) (channels.length - (0 + 1)))[k]? = some (k + 1) := by
    intro k hk
    rw [List.getElem?_range' (by omega)]
    congr 1
    omega
  unfold clash
  refine Lists.findSome?_of_first (fun j z hj _ => absurd hj (Nat.not_lt_zero j))
    (List.getElem?_range (show 0 < channels.length by omega))
    (Lists.findSome?_of_first (fun k z hk hz => ?_) (hright (j - 1) (by omega)) ?_)
  · rw [hright k (by omega)] at hz
    obtain rfl := Option.some.inj hz
    have hget : channels[k + 1]? = some channels[k + 1] := List.getElem?_eq_getElem (by omega)
    rw [h0, hget]
    exact if_neg (hbefore (k + 1) (by omega) (by omega) _ hget)
  · rw [Nat.sub_add_cancel hj, h0, hc]
    exact if_pos rfl

theorem clash_map_range {ch : Nat → Nat} {n j : Nat} (hj : 1 ≤ j) (hlt : j < n)
    (hclash : ch 0 = ch j) (hbefore : ∀ i, 1 ≤ i → i < j → ch 0 ≠ ch i) :
    clash ((List.range n).map ch) = some (0, j, ch 0) := by
  have hget : ∀ i, i < n → ((List.range n).map ch)[i]? = some (ch i) := by
    intro i hi
    rw [List.getElem?_map, List.getElem?_range hi, Option.map_some]
  refine clash_eq_some hj (hget 0 (by omega)) (hclash ▸ hget j hlt) fun i h1 hij d hd => ?_
  rw [hget i (by omega)] at hd
  exact Option.some.inj hd ▸ hbefore i h1 hij

/-! ## The check of the channels -/

section
variable {host : Host} {config : BenchmarkConfig} {channelBit : Nat}

/-- One channel, of two, for each copy. -/
theorem channelsOf_ok : ∀ (replicas channels : List Nat),
    channelsOf host channelBit replicas = .ok channels →
      channels.length = replicas.length ∧ channels ⊆ List.range 2 := by
  intro replicas
  induction replicas with
  | nil =>
    intro channels h
    cases h
    exact ⟨rfl, List.nil_subset _⟩
  | cons addr replicas ih =>
    intro channels h
    unfold channelsOf at h
    rw [List.mapM_cons] at h
    cases hphys : virtToPhysRaw host addr with
    | error e =>
      rw [hphys] at h
      cases h
    | ok phys =>
      cases hrest : channelsOf host channelBit replicas with
      | error e =>
        unfold channelsOf at hrest
        rw [hphys, hrest] at h
        cases h
      | ok rest =>
        obtain ⟨hlen, hsub⟩ := ih rest hrest
        unfold channelsOf at hrest
        rw [hphys, hrest] at h
        cases h
        have hbit := List.mem_range.mpr (computeChannel_lt phys channelBit)
        exact ⟨congrArg (· + 1) hlen, List.cons_subset.mpr ⟨hbit, hsub⟩⟩

theorem channelsOf_eq_map {phys : Nat → Nat} : ∀ (replicas : List Nat),
    (∀ addr ∈ replicas, virtToPhysRaw host addr = .ok (phys addr)) →
      channelsOf host channelBit replicas =
        .ok (replicas.map fun addr => computeChannel (phys addr) channelBit) := by
  intro replicas
  induction replicas with
  | nil => intro _; rfl
  | cons addr replicas ih =>
    intro h
    have hrest := ih fun a ha => h a (List.mem_cons_of_mem addr ha)
    unfold channelsOf at hrest ⊢
    rw [List.mapM_cons, h addr List.mem_cons_self, hrest]
    rfl

theorem checkChannels_of_ok (hskip : config.skipPhysCheck = false) {replicas channels : List Nat}
    (h : channelsOf host config.channelBit replicas = .ok channels) :
    (channels.Nodup → checkChannels host config replicas = .ok ()) ∧
      ∀ left right channel, clash channels = some (left, right, channel) →
        checkChannels host config replicas = .error (clashError left right channel) := by
  unfold checkChannels
  rw [hskip, h]
  refine ⟨fun hnodup => ?_, fun left right channel hclash => ?_⟩
  · simp only [Bool.false_eq_true, if_false, (clash_eq_none_iff channels).mpr hnodup]
  · simp only [Bool.false_eq_true, if_false, hclash]
    rfl

theorem checkChannels_ok (hskip : config.skipPhysCheck = false) {replicas : List Nat}
    (h : checkChannels host config replicas = .ok ()) : replicas.length ≤ 2 ∧
      ∃ channels, channelsOf host config.channelBit replicas = .ok channels ∧ channels.Nodup := by
  unfold checkChannels at h
  rw [hskip] at h
  cases hchannels : channelsOf host config.channelBit replicas with
  | error e =>
    rw [hchannels] at h
    cases h
  | ok channels =>
    have hnodup : channels.Nodup := by
      rw [← clash_eq_none_iff]
      cases hclash : clash channels with
      | none => rfl
      | some found =>
        rw [hchannels] at h
        simp only [Bool.false_eq_true, if_false, hclash] at h
        cases h
    -- a channel is a bit, so there are no three different ones
    obtain ⟨hlen, hsub⟩ := channelsOf_ok replicas channels hchannels
    have hle := (hnodup.subperm hsub).length_le
    rw [List.length_range] at hle
    exact ⟨by omega, channels, rfl, hnodup⟩

/-! ## Setting up -/

/-- Where the copies are to lie. -/
def copies (config : BenchmarkConfig) (base : Nat) : List Nat :=
  (List.range config.channels).map fun r => base + r * config.channelOffset

/-- Once the copies are made, the channels decide. -/
theorem new_of_fits {base : Nat} (hpos : 0 < config.channels)
    (hpage : hugePage host 0 = some (.ok base)) (hbase : base + superpageSize ≤ 2 ^ 64)
    (hfit : config.CopiesFit) :
    (∀ e, checkChannels host config (copies config base) = .error e →
      new host config = .returned (.error e)) ∧
    (checkChannels host config (copies config base) = .ok () →
      new host config = withStressPage host config base (copies config base)) := by
  unfold new copies
  rw [hpage]
  dsimp only
  rw [if_neg (not_not_intro hfit.fitsVec), if_pos hfit.copies, hfit.replicas_eq hpos hbase]
  refine ⟨fun e hcheck => ?_, fun hcheck => ?_⟩
  · rw [hcheck]
  · rw [hcheck]

theorem withStressPage_ok {base : Nat} {replicas : List Nat} {memory : MemorySetup}
    (h : withStressPage host config base replicas = .returned (.ok memory)) :
    memory.replicas = replicas ∧ memory.replicaPage = base ∧
      (memory.stressPage.isSome = true ↔ ∃ arm ∈ config.arms, arm.needsStress = true) ∧
      ∀ page, memory.stressPage = some page → hugePage host 1 = some (.ok page) := by
  have hneeds : (∃ arm ∈ config.arms, arm.needsStress = true) ↔
      config.requiresStressPage = true := List.any_eq_true.symm
  rw [hneeds]
  unfold withStressPage at h
  split at h
  · next hreq =>
    split at h
    · cases h
    · cases h
    · next stress hstress =>
      cases h
      refine ⟨rfl, rfl, ⟨fun _ => hreq, fun _ => rfl⟩, fun page hpage => ?_⟩
      obtain rfl := Option.some.inj hpage
      exact hstress
  · next hreq =>
    cases h
    exact ⟨rfl, rfl, ⟨fun h => (by cases h), fun h => absurd h hreq⟩, fun _ h => (by cases h)⟩

theorem withStressPage_ne {base : Nat} {replicas : List Nat} :
    withStressPage host config base replicas ≠ .undefined := by
  unfold withStressPage
  split
  · split <;> simp
  · simp

end

end MemorySetup

open MemorySetup in
/-- **The copies lie where they should, or nobody can say what happens.**  For
arguments that `from_cli` accepts, `new` copies out of the page or onto itself iff it has
the page and the vector for the addresses, and the copies do not fit.  In a setup that it
returns each copy has 64 bytes of the page to itself, the
pages that are needed are there, and if the channels were checked there are at
most two copies, in different channels. -/
theorem memory_setup_spec (host : Host) (cli : Cli) (config : BenchmarkConfig)
    (hcli : BenchmarkConfig.fromCli cli = .ok config)
    (hoff : ∀ offset, cli.channelOffset = some offset → offset < 2 ^ 64)
    (hmapped : ∀ base, hugePage host 0 = some (.ok base) → base + superpageSize ≤ 2 ^ 64) :
    (MemorySetup.new host config = .undefined ↔
      (∃ base, hugePage host 0 = some (.ok base)) ∧ config.channels < 2 ^ 60 ∧
        ¬ config.CopiesFit) ∧
    ∀ memory, MemorySetup.new host config = .returned (.ok memory) →
      hugePage host 0 = some (.ok memory.replicaPage) ∧
      memory.replicas = (List.range config.channels).map (fun r =>
        memory.replicaPage + r * config.channelOffset) ∧
      (∀ r, r < config.channels → r * config.channelOffset + 64 ≤ superpageSize) ∧
      (∀ r r', r < r' → r' < config.channels →
        r * config.channelOffset + 64 ≤ r' * config.channelOffset) ∧
      (memory.stressPage.isSome = true ↔ ∃ arm ∈ config.arms, arm.needsStress = true) ∧
      (∀ page, memory.stressPage = some page → hugePage host 1 = some (.ok page)) ∧
      (cli.skipPhysCheck = false → config.channels ≤ 2 ∧ ∃ channels,
        channelsOf host cli.channelBit memory.replicas = .ok channels ∧ channels.Nodup) := by
  obtain ⟨hchecked, hoffset, hbit, hskip⟩ := BenchmarkConfig.fromCli_ok hcli
  have hpos := hchecked.channels_pos
  have hlt : config.channelOffset < 2 ^ 64 := by
    rw [hoffset]
    cases ho : cli.channelOffset with
    | none =>
      rw [Option.getD_none, Nat.one_shiftLeft]
      exact Nat.pow_lt_pow_right (by decide) (Nat.mod_lt _ (by decide))
    | some offset => exact hoff offset ho
  cases hpage : hugePage host 0 with
  | none =>
    have hnew : MemorySetup.new host config = .panicked := by
      unfold MemorySetup.new
      rw [hpage]
    rw [hnew]
    refine ⟨⟨fun h => (by cases h), ?_⟩, fun memory h => (by cases h)⟩
    rintro ⟨⟨base, h⟩, -⟩
    cases h
  | some answer =>
    cases answer with
    | error e =>
      have hnew : MemorySetup.new host config = .returned (.error e) := by
        unfold MemorySetup.new
        rw [hpage]
      rw [hnew]
      refine ⟨⟨fun h => (by cases h), ?_⟩, fun memory h => (by cases h)⟩
      rintro ⟨⟨base, h⟩, -⟩
      cases h
    | ok base =>
      by_cases hfit : config.CopiesFit
      · obtain ⟨hbad, hgood⟩ := new_of_fits hpos hpage (hmapped base hpage) hfit
        cases hcheck : checkChannels host config (copies config base) with
        | error e =>
          rw [hbad e hcheck]
          exact ⟨⟨fun h => (by cases h), fun h => absurd hfit h.2.2⟩, fun memory h => (by cases h)⟩
        | ok _ =>
          rw [hgood hcheck]
          refine ⟨⟨fun h => absurd h withStressPage_ne, fun h => absurd hfit h.2.2⟩,
            fun memory h => ?_⟩
          obtain ⟨hreplicas, rfl, hstress, hsecond⟩ := withStressPage_ok h
          refine ⟨rfl, hreplicas, fun r hr => hfit.copy_le hr, fun r r' hr hr' => hfit.apart hr hr',
            hstress, hsecond, fun hcheckPhys => ?_⟩
          obtain ⟨hlen, hchannels⟩ := checkChannels_ok (hskip.trans hcheckPhys) hcheck
          rw [← hreplicas] at hlen hchannels
          rw [hreplicas, copies, List.length_map, List.length_range] at hlen
          exact ⟨hlen, hbit ▸ hchannels⟩
      · have hcopies : ¬ ∀ distance ∈ distances config, CopyFits distance :=
          fun h => hfit (copiesFit_of_copies hpos hlt h)
        by_cases hvec : FitsVec addressBytes config.channels
        · have hnew : MemorySetup.new host config = .undefined := by
            unfold MemorySetup.new
            rw [hpage]
            dsimp only
            rw [if_neg (not_not_intro hvec), if_neg hcopies]
          rw [hnew]
          unfold FitsVec addressBytes at hvec
          exact ⟨⟨fun _ => ⟨⟨base, rfl⟩, by omega, hfit⟩, fun _ => rfl⟩,
            fun memory h => (by cases h)⟩
        · have hnew : MemorySetup.new host config = .panicked := by
            unfold MemorySetup.new
            rw [hpage]
            exact if_pos hvec
          rw [hnew]
          unfold FitsVec addressBytes at hvec
          exact ⟨⟨fun h => (by cases h), fun h => absurd h.2.1 (by omega)⟩,
            fun memory h => (by cases h)⟩

/-- `hedged_read --all` -/
def allArms : Cli where
  all := true
  arm := []
  samples := 5000000
  stressThreads := 4
  coreA := 11
  coreB := 12
  coreMain := 14
  channelBit := 8
  channelOffset := none
  channels := 2
  rawPrefix := none
  skipPhysCheck := false

open MemorySetup in
theorem memory_setup_spec_all : ∃ config memory, BenchmarkConfig.fromCli allArms = .ok config ∧
    MemorySetup.new grantingHost config = .returned (.ok memory) ∧
    memory.replicas = [2 ^ 40, 2 ^ 40 + 256] ∧ memory.stressPage = some (2 ^ 41) ∧
    config.channels ≤ 2 := by
  refine ⟨_, _, rfl, rfl, rfl, rfl, ?_⟩
  have hspec := memory_setup_spec grantingHost allArms _ rfl (fun _ h => by cases h)
    fun base h => by cases h; decide
  exact ((hspec.2 _ rfl).2.2.2.2.2.2 rfl).1

/-! ## On a page of contiguous memory -/

namespace MemorySetup

/-- The page at `base` is one aligned piece of physical memory, and can be looked up. -/
structure Contiguous (host : Host) (base phys : Nat) : Prop where
  aligned : superpageSize ∣ phys
  lookup : ∀ distance, distance < superpageSize →
    virtToPhysRaw host (base + distance) = .ok (phys + distance)

/-- A distance shows in the channel iff its own bit is set. -/
theorem channel_ne_iff {phys distance : Nat} (channelBit : Nat) (haligned : superpageSize ∣ phys)
    (hlt : distance < superpageSize) :
    computeChannel phys channelBit ≠ computeChannel (phys + distance) channelBit ↔
      distance.testBit (channelBit % 64) = true := by
  have hpage : superpageSize = 2 ^ 30 := Nat.one_shiftLeft 30
  rw [hpage] at haligned hlt
  have hmod : ∀ p, computeChannel p channelBit = computeChannel p (channelBit % 64) := by
    intro p
    unfold computeChannel
    rw [Nat.mod_mod]
  rw [hmod, hmod, computeChannel_ne_iff (Nat.mod_lt _ (by decide))]
  by_cases hlow : channelBit % 64 < 30
  · have hzero := testBit_aligned_add haligned hlow 0
    rw [Nat.add_zero, Nat.zero_testBit] at hzero
    rw [hzero, testBit_aligned_add haligned hlow]
    cases distance.testBit (channelBit % 64) <;> simp
  · rw [testBit_add_lt haligned hlt (Nat.le_of_not_lt hlow), Nat.testBit_lt_two_pow
      (Nat.lt_of_lt_of_le hlt (Nat.pow_le_pow_right (by decide) (Nat.le_of_not_lt hlow)))]
    simp

section
variable {host : Host} {config : BenchmarkConfig} {base phys : Nat}

theorem channelsOf_copied (hcontig : Contiguous host base phys) (hfit : config.CopiesFit) :
    channelsOf host config.channelBit (copies config base) =
      .ok ((List.range config.channels).map fun r =>
        computeChannel (phys + r * config.channelOffset) config.channelBit) := by
  have hlookup : ∀ addr ∈ (copies config base),
      virtToPhysRaw host addr = .ok (phys + (addr - base)) := by
    intro addr haddr
    obtain ⟨r, hr, rfl⟩ := List.mem_map.mp haddr
    have hle := hfit.copy_le (List.mem_range.mp hr)
    rw [Nat.add_sub_cancel_left]
    exact hcontig.lookup _ (by omega)
  rw [channelsOf_eq_map _ hlookup]
  unfold copies
  rw [List.map_map]
  congr 1
  refine List.map_congr_left fun r _ => ?_
  dsimp only [Function.comp_apply]
  rw [Nat.add_sub_cancel_left]

/-- The channel of copy `r` is that of the first one iff the bit of its distance is clear. -/
theorem copy_channel_eq_iff (hcontig : Contiguous host base phys) (hfit : config.CopiesFit)
    {r : Nat} (hr : r < config.channels) :
    computeChannel phys config.channelBit =
        computeChannel (phys + r * config.channelOffset) config.channelBit ↔
      (r * config.channelOffset).testBit (config.channelBit % 64) = false := by
  have hle := hfit.copy_le hr
  have hne := channel_ne_iff config.channelBit hcontig.aligned
    (show r * config.channelOffset < superpageSize by omega)
  rw [← Bool.not_eq_true, ← hne, not_not]

end

end MemorySetup

open MemorySetup in
/-- **What the check of the channels finds.**  On contiguous memory the check of
copies that fit passes iff there is one, or there are two and the bit `channel_bit`
of the offset is set.  Where it is clear the first two copies share a channel; with
the default offset the first and the third do; and the error, which `new` returns, names
them. -/
theorem physical_check_iff (host : Host) (cli : Cli) (config : BenchmarkConfig)
    (hcli : BenchmarkConfig.fromCli cli = .ok config) (hskip : cli.skipPhysCheck = false)
    (hfit : config.CopiesFit) (base phys : Nat) (hpage : hugePage host 0 = some (.ok base))
    (hbase : base + superpageSize ≤ 2 ^ 64) (hcontig : Contiguous host base phys) :
    (checkChannels host config (copies config base) = .ok () ↔ config.channels = 1 ∨
      config.channels = 2 ∧ config.channelOffset.testBit (cli.channelBit % 64) = true) ∧
    (2 ≤ config.channels → config.channelOffset.testBit (cli.channelBit % 64) = false →
      ∃ channel, MemorySetup.new host config = .returned (.error (clashError 0 1 channel))) ∧
    (3 ≤ config.channels → cli.channelOffset = none →
      ∃ channel, MemorySetup.new host config = .returned (.error (clashError 0 2 channel))) := by
  obtain ⟨hchecked, hoffset, hbit, hskip'⟩ := BenchmarkConfig.fromCli_ok hcli
  have hpos := hchecked.channels_pos
  have hskip := hskip'.trans hskip
  have hchannels := channelsOf_copied hcontig hfit
  have hcheck := checkChannels_of_ok hskip hchannels
  have hnew := (new_of_fits hpos hpage hbase hfit).1
  have heq := fun {r} (hr : r < config.channels) => copy_channel_eq_iff hcontig hfit hr
  rw [hbit] at heq hchannels hcheck
  generalize hch : (fun r => computeChannel (phys + r * config.channelOffset) cli.channelBit) = ch
    at hchannels hcheck
  have hzero : ch 0 = computeChannel phys cli.channelBit := by
    rw [← hch]
    simp only [Nat.zero_mul, Nat.add_zero]
  -- in terms of the channels found
  have hsame : ∀ {r}, r < config.channels → (ch 0 = ch r ↔
      (r * config.channelOffset).testBit (cli.channelBit % 64) = false) := by
    intro r hr
    rw [← heq hr, hzero, ← hch]
  have herror : ∀ {j}, 1 ≤ j → j < config.channels → ch 0 = ch j →
      (∀ i, 1 ≤ i → i < j → ch 0 ≠ ch i) →
      ∃ channel, checkChannels host config (copies config base) =
        .error (clashError 0 j channel) := by
    intro j hj hlt hclash hbefore
    exact ⟨ch 0, hcheck.2 0 j (ch 0) (clash_map_range hj hlt hclash hbefore)⟩
  have hfirst : 2 ≤ config.channels →
      config.channelOffset.testBit (cli.channelBit % 64) = false →
      ∃ channel, checkChannels host config (copies config base) =
        .error (clashError 0 1 channel) := by
    intro h2 hclear
    exact herror (Nat.le_refl 1) (by omega)
      ((hsame (by omega)).mpr ((Nat.one_mul config.channelOffset).symm ▸ hclear))
      fun i h1 hi => by omega
  refine ⟨⟨fun hpass => ?_, fun h => ?_⟩, fun h2 hclear => ?_, fun h3 hdefault => ?_⟩
  · have hlen := (checkChannels_ok hskip hpass).1
    rw [copies, List.length_map, List.length_range] at hlen
    rcases (show config.channels = 1 ∨ config.channels = 2 by omega) with h1 | h2
    · exact Or.inl h1
    · refine Or.inr ⟨h2, ?_⟩
      by_contra hclear
      rw [Bool.not_eq_true] at hclear
      obtain ⟨channel, he⟩ := hfirst (by omega) hclear
      rw [he] at hpass
      cases hpass
  · have hnodup : ((List.range config.channels).map ch).Nodup := by
      rcases h with h1 | ⟨h2, hset⟩
      · rw [h1]
        exact List.nodup_singleton _
      · have hne : ch 0 ≠ ch 1 := by
          rw [ne_eq, hsame (by omega), Nat.one_mul, hset]
          decide
        rw [h2]
        simpa [List.range_succ] using hne
    exact hcheck.1 hnodup
  · obtain ⟨channel, he⟩ := hfirst h2 hclear
    exact ⟨channel, hnew _ he⟩
  · have hpow : config.channelOffset = 2 ^ (cli.channelBit % 64) := by
      rw [hoffset, hdefault, Option.getD_none, Nat.one_shiftLeft]
    obtain ⟨channel, he⟩ := herror (j := 2) (by decide) (by omega) ((hsame (by omega)).mpr (by
      rw [hpow, Nat.mul_comm, ← Nat.pow_succ, Nat.testBit_two_pow]
      exact decide_eq_false (by omega))) fun i h1 hi => by
        obtain rfl : i = 1 := by omega
        rw [ne_eq, hsame (by omega), Nat.one_mul, hpow, Nat.testBit_two_pow_self]
        decide
    exact ⟨channel, hnew _ he⟩

theorem grantingHost_lookup {addr : Nat} (h1 : 4096 ≤ addr) (h2 : addr < 2 ^ 63) :
    virtToPhysRaw grantingHost addr = .ok addr := by
  have hn : addr / 4096 < 2 ^ 51 := by omega
  have hentry : 1 <<< 63 ||| addr / 4096 * 8 / 8 = 2 ^ 63 + addr / 4096 := by
    rw [Nat.mul_div_cancel _ (show 0 < 8 by decide), Nat.one_shiftLeft]
    have hor := Nat.two_pow_add_eq_or_of_lt (show addr / 4096 < 2 ^ 63 by omega) 1
    rw [Nat.mul_one] at hor
    exact hor.symm
  have hpresent : (2 ^ 63 + addr / 4096) &&& 1 <<< 63 ≠ 0 := by
    intro h0
    have hbit := congrArg (·.testBit 63) h0
    simp only [Nat.one_shiftLeft, Nat.testBit_and, Nat.testBit_two_pow_self, Bool.and_true,
      Nat.zero_testBit, Nat.testBit_two_pow_add_eq,
      Nat.testBit_lt_two_pow (show addr / 4096 < 2 ^ 63 by omega)] at hbit
    cases hbit
  have hpfn : (2 ^ 63 + addr / 4096) &&& ((1 <<< 55) - 1) = addr / 4096 := by
    rw [Nat.one_shiftLeft, Nat.and_two_pow_sub_one_eq_mod]
    omega
  have hlow : addr &&& 0xfff = addr % 2 ^ 12 := Nat.and_two_pow_sub_one_eq_mod addr 12
  unfold virtToPhysRaw
  simp only [grantingHost, hentry, hpfn, hlow]
  rw [if_neg (by decide), if_neg hpresent, if_neg (by omega)]
  congr 1
  have hor := Nat.two_pow_add_eq_or_of_lt (Nat.mod_lt addr (show 0 < 2 ^ 12 by decide))
    (addr / 4096)
  rw [show usize.mul (addr / 4096) 4096 = 2 ^ 12 * (addr / 4096) by
    rw [Nat.mul_comm]; exact Nat.mod_eq_of_lt (by omega), ← hor]
  omega

/-- The default offset passes. -/
theorem physical_check_iff_all : ∃ config, BenchmarkConfig.fromCli allArms = .ok config ∧
    config.channels = 2 ∧
    MemorySetup.checkChannels grantingHost config (MemorySetup.copies config (2 ^ 40)) =
      .ok () := by
  have hsize : superpageSize = 2 ^ 30 := Nat.one_shiftLeft 30
  have hcontig : MemorySetup.Contiguous grantingHost (2 ^ 40) (2 ^ 40) :=
    ⟨by decide, fun distance hlt => grantingHost_lookup (by omega) (by omega)⟩
  have hspec := physical_check_iff grantingHost allArms _ rfl rfl (Or.inr (by decide)) (2 ^ 40)
    (2 ^ 40) rfl (by decide) hcontig
  exact ⟨_, rfl, rfl, hspec.1.mpr (Or.inr ⟨rfl, by decide⟩)⟩

end Tailslayer
