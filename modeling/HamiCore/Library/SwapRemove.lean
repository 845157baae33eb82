import Mathlib.Algebra.Order.BigOperators.Group.Finset
import Mathlib.Algebra.BigOperators.Intervals
import Mathlib.Order.Interval.Finset.Nat

/-!
# Swap-removal from an array segment

An array is a function `f : ℕ → α`, and its live part is a segment `[a, b)`.  Removing entry `h` by
overwriting it with the last entry and shrinking the segment is the usual constant-time deletion
from an unordered table.  It keeps no order, so its specification is about *multisets*: the segment
loses exactly the entry at `h` (`window_succ_eq_cons`).

`window f a b` is that multiset.  Entries outside the segment never enter it (`window_congr`), which
is what lets a caller leave stale copies past the end.

A reader that walks up the array while entries are removed under it is not so lucky.  What it will
still meet is a sum of weights over the positions ahead of it, past the end of the live part too.
`moveWeight` is what one removal makes of the weights, `MoveBenign` says where the reader may stand,
and `MoveBenign.sum_Ico_le` and `MoveBenign.sum_Ico_eq` say that there the sum ahead of it loses at
most the removed entry.
-/

namespace HamiCore

variable {α β : Type*}

/-- The entries of `f` at the positions `[a, b)`, as a multiset. -/
def window (f : ℕ → α) (a b : ℕ) : Multiset α :=
  (Finset.Ico a b).val.map f

@[simp] theorem window_self (f : ℕ → α) (a : ℕ) : window f a a = 0 := by
  simp [window]

@[simp] theorem card_window (f : ℕ → α) (a b : ℕ) : Multiset.card (window f a b) = b - a := by
  simp [window]

theorem mem_window {f : ℕ → α} {a b : ℕ} {x : α} :
    x ∈ window f a b ↔ ∃ i, a ≤ i ∧ i < b ∧ f i = x := by
  simp [window, and_assoc]

/-- Only the entries inside the segment count. -/
theorem window_congr {f g : ℕ → α} {a b : ℕ} (h : ∀ i, a ≤ i → i < b → f i = g i) :
    window f a b = window g a b := by
  refine Multiset.map_congr rfl fun i hi => ?_
  have hi' : i ∈ Finset.Ico a b := hi
  rw [Finset.mem_Ico] at hi'
  exact h i hi'.1 hi'.2

theorem window_succ {f : ℕ → α} {a b : ℕ} (hab : a ≤ b) :
    window f a (b + 1) = f b ::ₘ window f a b := by
  rw [window, ← Finset.insert_Ico_right_eq_Ico_add_one hab,
    Finset.insert_val_of_notMem Finset.right_notMem_Ico, Multiset.map_cons, window]

/-- A segment splits at any position inside it. -/
theorem window_add_window {f : ℕ → α} {a b c : ℕ} (hab : a ≤ b) (hbc : b ≤ c) :
    window f a b + window f b c = window f a c := by
  induction c, hbc using Nat.le_induction with
  | base => simp
  | succ c hbc ih =>
    rw [window_succ hbc, window_succ (hab.trans hbc), Multiset.add_cons, ih]

/-- The first entry of a segment. -/
theorem window_eq_cons {f : ℕ → α} {a b : ℕ} (hab : a < b) :
    window f a b = f a ::ₘ window f (a + 1) b := by
  rw [← window_add_window (Nat.le_succ a) hab, window_succ le_rfl, window_self]
  rfl

/-- **Swap-removal.**  Overwriting position `h` by the last entry and dropping the last position
removes exactly the entry at `h`. -/
theorem window_succ_eq_cons {f : ℕ → α} {a b h : ℕ} (hah : a ≤ h) (hhb : h ≤ b) :
    window f a (b + 1) = f h ::ₘ window (Function.update f h (f b)) a b := by
  rw [window_succ (hah.trans hhb)]
  rcases hhb.eq_or_lt with rfl | hlt
  · rw [Function.update_eq_self]
  · have hupd : window (Function.update f h (f b)) a h = window f a h :=
      window_congr fun i _ hi => Function.update_of_ne hi.ne _ _
    have hupd' : window (Function.update f h (f b)) (h + 1) b = window f (h + 1) b :=
      window_congr fun i hi _ => Function.update_of_ne (Nat.lt_of_succ_le hi).ne' _ _
    rw [← window_add_window hah hlt.le, ← window_add_window hah hlt.le, window_eq_cons hlt,
      window_eq_cons hlt, hupd, hupd', Function.update_self, Multiset.add_cons, Multiset.add_cons,
      Multiset.cons_swap]

/-- Sums over a segment are sums over its multiset. -/
theorem sum_map_window [AddCommMonoid β] (f : ℕ → α) (g : α → β) (n : ℕ) :
    ((window f 0 n).map g).sum = ∑ i ∈ Finset.range n, g (f i) := by
  rw [window, Multiset.map_map, Finset.range_eq_Ico]
  rfl

/-! ## Weights -/

section MoveWeight

variable {M : Type*} [AddCommMonoid M] {p q : ℕ → M} {a b h k : ℕ} {cleared : Prop}

/-- The weights of the entries once entry `h` is a copy of the last entry `k`.  The vacated entry
keeps its weight as a stale copy, unless it is cleared. -/
def moveWeight (p : ℕ → M) (h k : ℕ) (cleared : Prop) [Decidable cleared] (j : ℕ) : M :=
  if j = k then if cleared then 0 else p k else if j = h then p k else p j

/-- A cursor at `a` walks up the table, and entry `k` of weight `w` moves into the hole `h` without
waiting for it.  The cursor meets that weight once all the same: it has passed both entries, or
nothing moves, or it stands between them and the vacated entry stays, or it stands below them and
the vacated entry is cleared, or there is no weight to meet. -/
def MoveBenign (a : ℕ) (w : M) (h k : ℕ) (cleared : Prop) : Prop :=
  k < a ∨ h = k ∨ (h < a ∧ ¬ cleared) ∨ (a ≤ h ∧ cleared) ∨ w = 0

/-- A move that is benign for one weight is benign for a smaller one. -/
theorem MoveBenign.imp {w w' : M} (hw : w = 0 → w' = 0) (hben : MoveBenign a w h k cleared) :
    MoveBenign a w' h k cleared :=
  hben.imp_right (Or.imp_right (Or.imp_right (Or.imp_right hw)))

variable [Decidable cleared]

/-- Away from the vacated entry a move is a transposition. -/
theorem moveWeight_of_ne {j : ℕ} (hj : j ≠ k) :
    moveWeight p h k cleared j = p (Equiv.swap h k j) := by
  unfold moveWeight
  rw [if_neg hj]
  by_cases hjh : j = h
  · rw [if_pos hjh, hjh, Equiv.swap_apply_left]
  · rw [if_neg hjh, Equiv.swap_apply_of_ne_of_ne hjh hj]

theorem moveWeight_cleared (hc : cleared) : moveWeight p h k cleared k = 0 := by
  unfold moveWeight
  rw [if_pos rfl, if_pos hc]

theorem moveWeight_stale (hc : ¬ cleared) : moveWeight p h k cleared k = p k := by
  unfold moveWeight
  rw [if_pos rfl, if_neg hc]

/-- A move does not look at the entry it overwrites. -/
theorem moveWeight_congr (hk : p k = q k) (hne : ∀ j, j ≠ h → p j = q j) (j : ℕ) :
    moveWeight p h k cleared j = moveWeight q h k cleared j := by
  unfold moveWeight
  split_ifs with hjk hc hjh
  · rfl
  · exact hk
  · exact hk
  · exact hne j hjh

/-- A transposition inside a set of positions does not change the weight of the set. -/
theorem sum_comp_swap {s : Finset ℕ} (hh : h ∈ s) (hk : k ∈ s) :
    ∑ j ∈ s, p (Equiv.swap h k j) = ∑ j ∈ s, p j := by
  refine Equiv.Perm.sum_comp (Equiv.swap h k) s p fun j hj => ?_
  by_contra hjs
  have hjh : j ≠ h := fun hjh => hjs (hjh ▸ hh)
  have hjk : j ≠ k := fun hjk => hjs (hjk ▸ hk)
  exact hj (Equiv.swap_apply_of_ne_of_ne hjh hjk)

/-- **Swap-removal, in weights**: without its last position the segment has lost the weight of the
removed entry. -/
theorem sum_range_moveWeight (hk : h ≤ k) :
    ∑ j ∈ Finset.range k, moveWeight p h k cleared j + p h = ∑ j ∈ Finset.range (k + 1), p j := by
  have hswap : ∑ j ∈ Finset.range k, moveWeight p h k cleared j =
      ∑ j ∈ Finset.range k, p (Equiv.swap h k j) :=
    Finset.sum_congr rfl fun j hj => moveWeight_of_ne (Finset.mem_range.mp hj).ne
  have hhs : h ∈ Finset.range (k + 1) := Finset.mem_range.mpr (Nat.lt_succ_of_le hk)
  rw [hswap, ← sum_comp_swap hhs (Finset.self_mem_range_succ k), Finset.sum_range_succ,
    Equiv.swap_apply_right]

/-- A benign move as the cursor sees it: a rearrangement of the weights ahead of it, except that the
weight of the removed entry may be gone. -/
theorem MoveBenign.exists_perm (hben : MoveBenign a (p k) h k cleared) (hhk : h ≤ k) (hkb : k < b) :
    ∃ σ : Equiv.Perm ℕ, ∑ j ∈ Finset.Ico a b, p (σ j) = ∑ j ∈ Finset.Ico a b, p j ∧
      ∀ j ∈ Finset.Ico a b, moveWeight p h k cleared j = p (σ j) ∨
        moveWeight p h k cleared j = 0 ∧ (σ j = h ∨ p (σ j) = 0) := by
  rcases hben with hpast | rfl | ⟨hbetween, hstale⟩ | ⟨hbelow, hcleared⟩ | hzero
  · refine ⟨Equiv.refl ℕ, rfl, fun j hj => Or.inl ?_⟩
    have haj : a ≤ j := (Finset.mem_Ico.mp hj).1
    rw [moveWeight_of_ne (by omega), Equiv.swap_apply_of_ne_of_ne (by omega) (by omega)]
    rfl
  · refine ⟨Equiv.refl ℕ, rfl, fun j _ => ?_⟩
    by_cases hjh : j = h
    · subst hjh
      by_cases hc : cleared
      · exact Or.inr ⟨moveWeight_cleared hc, Or.inl rfl⟩
      · exact Or.inl (moveWeight_stale hc)
    · rw [moveWeight_of_ne hjh, Equiv.swap_self]
      exact Or.inl rfl
  · refine ⟨Equiv.refl ℕ, rfl, fun j hj => Or.inl ?_⟩
    have haj : a ≤ j := (Finset.mem_Ico.mp hj).1
    by_cases hjk : j = k
    · subst hjk
      exact moveWeight_stale hstale
    · rw [moveWeight_of_ne hjk, Equiv.swap_apply_of_ne_of_ne (by omega) hjk]
      rfl
  · -- the weight ahead of the cursor goes from `k` to `h`, both ahead of it
    have hh : h ∈ Finset.Ico a b := Finset.mem_Ico.mpr ⟨hbelow, hhk.trans_lt hkb⟩
    have hk : k ∈ Finset.Ico a b := Finset.mem_Ico.mpr ⟨hbelow.trans hhk, hkb⟩
    refine ⟨Equiv.swap h k, sum_comp_swap hh hk, fun j _ => ?_⟩
    by_cases hjk : j = k
    · subst hjk
      exact Or.inr ⟨moveWeight_cleared hcleared, Or.inl (Equiv.swap_apply_right h j)⟩
    · exact Or.inl (moveWeight_of_ne hjk)
  · refine ⟨Equiv.refl ℕ, rfl, fun j _ => ?_⟩
    by_cases hjk : j = k
    · subst hjk
      by_cases hc : cleared
      · exact Or.inr ⟨moveWeight_cleared hc, Or.inr hzero⟩
      · exact Or.inl (moveWeight_stale hc)
    · rw [moveWeight_of_ne hjk]
      by_cases hjh : j = h
      · subst hjh
        rw [Equiv.swap_apply_left]
        exact Or.inr ⟨hzero, Or.inl rfl⟩
      · rw [Equiv.swap_apply_of_ne_of_ne hjh hjk]
        exact Or.inl rfl

/-- Behind a benign move, a removed entry of no weight leaves the weight ahead of the cursor as it
was. -/
theorem MoveBenign.sum_Ico_eq (hben : MoveBenign a (p k) h k cleared) (hhk : h ≤ k) (hkb : k < b)
    (hh : p h = 0) :
    ∑ j ∈ Finset.Ico a b, moveWeight p h k cleared j = ∑ j ∈ Finset.Ico a b, p j := by
  obtain ⟨σ, hsum, hσ⟩ := hben.exists_perm hhk hkb
  rw [← hsum]
  refine Finset.sum_congr rfl fun j hj => ?_
  rcases hσ j hj with heq | ⟨hzero, hjh | hpj⟩
  · exact heq
  · rw [hzero, hjh, hh]
  · rw [hzero, hpj]

theorem moveWeight_mono [Preorder M] (hpq : ∀ j, p j ≤ q j) (j : ℕ) :
    moveWeight p h k cleared j ≤ moveWeight q h k cleared j := by
  unfold moveWeight
  split_ifs
  · exact le_rfl
  · exact hpq k
  · exact hpq k
  · exact hpq j

section Order

variable [PartialOrder M] [IsOrderedAddMonoid M] [CanonicallyOrderedAdd M]

/-- Behind a benign move the weight ahead of the cursor has not grown. -/
theorem MoveBenign.sum_Ico_le (hben : MoveBenign a (p k) h k cleared) (hhk : h ≤ k) (hkb : k < b) :
    ∑ j ∈ Finset.Ico a b, moveWeight p h k cleared j ≤ ∑ j ∈ Finset.Ico a b, p j := by
  obtain ⟨σ, hsum, hσ⟩ := hben.exists_perm hhk hkb
  rw [← hsum]
  refine Finset.sum_le_sum fun j hj => ?_
  rcases hσ j hj with heq | ⟨hzero, -⟩
  · exact heq.le
  · rw [hzero]
    exact zero_le

end Order

end MoveWeight

end HamiCore
