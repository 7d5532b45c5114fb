import Mathlib.Data.Fin.Tuple.Sort
import Mathlib.Data.Finset.Card
import Mathlib.Order.Interval.Finset.Fin

/-!
# Disjoint groups, one item from each stream

A `Family` of `m` groups takes one item from every stream `c : ι`, each item at
most once, such that the items of a group are related: `R c d i j` for item `i`
of `c` and item `j` of `d`.  If `R` only gets easier with an earlier `i` and a
later `j` (`Sorted`), as "`i` is not much later than `j`" does on streams in
order of time,

* the groups can be reordered to go forward in every stream at once
  (`Family.uncross`);
* a greedy walk over the heads of the streams never falls behind such a family
  (`Ahead.take`, `Ahead.skip`), so it ends with at least as many groups
  (`Ahead.le_count`).
-/

namespace Pairing

/-! ## Two sorted copies of one family -/

/-- From place `k` on in one order and up to it in another, something is common. -/
theorem exists_common {m : Nat} (σ τ : Equiv.Perm (Fin m)) (k : Fin m) :
    ∃ p q, k ≤ p ∧ q ≤ k ∧ σ p = τ q := by
  have hcard : (Finset.univ : Finset (Fin m)).card <
      ((Finset.Ici k).map σ.toEmbedding).card + ((Finset.Iic k).map τ.toEmbedding).card := by
    rw [Finset.card_map, Finset.card_map, Fin.card_Ici, Fin.card_Iic, Finset.card_univ,
      Fintype.card_fin]
    omega
  obtain ⟨x, hx⟩ := Finset.inter_nonempty_of_card_lt_card_add_card (Finset.subset_univ _)
    (Finset.subset_univ _) hcard
  obtain ⟨hσ, hτ⟩ := Finset.mem_inter.mp hx
  obtain ⟨p, hp, rfl⟩ := Finset.mem_map.mp hσ
  obtain ⟨q, hq, hqp⟩ := Finset.mem_map.mp hτ
  exact ⟨p, q, Finset.mem_Ici.mp hp, Finset.mem_Iic.mp hq, hqp.symm⟩

section
variable {m : Nat} {α β : Type} [LinearOrder α] [LinearOrder β]

def sorted (f : Fin m → α) (k : Fin m) : α := f (Tuple.sort f k)

theorem sorted_strictMono {f : Fin m → α} (hf : Function.Injective f) : StrictMono (sorted f) :=
  (Tuple.monotone_sort f).strictMono_of_injective (hf.comp (Tuple.sort f).injective)

/-- **Uncrossing.**  What holds of every pair `f t`, `g t` holds of the `k`-th of
the one and the `k`-th of the other. -/
theorem sorted_rel {f : Fin m → α} {g : Fin m → β} {R : α → β → Prop}
    (hR : ∀ x x' y y', f x' ≤ f x → g y ≤ g y' → R (f x) (g y) → R (f x') (g y'))
    (h : ∀ t, R (f t) (g t)) (k : Fin m) : R (sorted f k) (sorted g k) := by
  obtain ⟨p, q, hp, hq, hcommon⟩ := exists_common (Tuple.sort f) (Tuple.sort g) k
  have hfp : f (Tuple.sort f k) ≤ f (Tuple.sort f p) := Tuple.monotone_sort f hp
  have hgq : g (Tuple.sort g q) ≤ g (Tuple.sort g k) := Tuple.monotone_sort g hq
  have hpair := h (Tuple.sort f p)
  rw [hcommon] at hpair hfp
  exact hR _ _ _ _ hfp hgq hpair

end

/-! ## Families -/

variable {ι : Type} {R : ι → ι → Nat → Nat → Prop} {size m : Nat}

/-- Earlier on the left and later on the right keeps items related. -/
def Sorted (R : ι → ι → Nat → Nat → Prop) (size : Nat) : Prop :=
  ∀ c d i i' j j', i' ≤ i → i < size → j ≤ j' → j' < size → R c d i j → R c d i' j'

/-- `m` groups that share no item. -/
structure Family (R : ι → ι → Nat → Nat → Prop) (size m : Nat) where
  index : Fin m → ι → Nat
  lt : ∀ k c, index k c < size
  related : ∀ k c d, R c d (index k c) (index k d)
  injective : ∀ c, Function.Injective fun k => index k c

/-- Every group is past the one before in every stream. -/
def Family.Ordered (F : Family R size m) : Prop := ∀ c, StrictMono fun k => F.index k c

theorem Family.uncross (hR : Sorted R size) (F : Family R size m) :
    ∃ G : Family R size m, G.Ordered := by
  refine ⟨⟨fun k c => sorted (fun k => F.index k c) k, fun k c => F.lt _ c, fun k c d => ?_,
    fun c => (sorted_strictMono (F.injective c)).injective⟩,
    fun c => sorted_strictMono (F.injective c)⟩
  exact sorted_rel (fun x x' y y' hx hy => hR c d _ _ _ _ hx (F.lt x c) hy (F.lt y' d))
    (fun t => F.related t c d) k

/-! ## The greedy walk -/

/-- With `count` groups taken, the heads are not past group `count` of `G`. -/
def Ahead (G : Family R size m) (count : Nat) (head : ι → Nat) : Prop :=
  ∀ h : count < m, ∀ c, head c ≤ G.index ⟨count, h⟩ c

variable {G : Family R size m} {count : Nat} {head head' : ι → Nat}

/-- All the heads make a group. -/
theorem Ahead.take (hG : G.Ordered) (h : Ahead G count head)
    (hhead : ∀ c, head' c = head c + 1) : Ahead G (count + 1) head' := by
  intro hlt c
  have hle := h (by omega) c
  have hstep : G.index ⟨count, by omega⟩ c < G.index ⟨count + 1, hlt⟩ c :=
    hG c (Nat.lt_succ_self count)
  rw [hhead]
  omega

/-- The head of `c` is too early for the head of `d`, so no group has it. -/
theorem Ahead.skip (hR : Sorted R size) (h : Ahead G count head) {c d : ι}
    (hfar : ¬ R d c (head d) (head c)) (hhead : ∀ e, e ≠ c → head' e = head e)
    (hc : head' c = head c + 1) : Ahead G count head' := by
  intro hlt e
  by_cases he : e = c
  · subst he
    have hle := h hlt e
    have hne : head e ≠ G.index ⟨count, hlt⟩ e := by
      intro heq
      have hrel := G.related ⟨count, hlt⟩ d e
      rw [← heq] at hrel
      exact hfar (hR d e _ _ _ _ (h hlt d) (G.lt _ d) (Nat.le_refl _) (heq ▸ G.lt _ e) hrel)
    omega
  · rw [hhead e he]
    exact h hlt e

/-- With a stream used up every group of the family was matched. -/
theorem Ahead.le_count (h : Ahead G count head) {c : ι} (hc : size ≤ head c) : m ≤ count := by
  by_contra hlt
  have hle := h (by omega) c
  have := G.lt ⟨count, by omega⟩ c
  omega

end Pairing
