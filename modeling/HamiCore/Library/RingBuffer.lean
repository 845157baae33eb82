import Mathlib.Data.List.Nodup
import Mathlib.Data.Nat.ModEq
import Mathlib.Logic.Function.Basic
import Mathlib.Order.Lattice.Nat

/-!
# Ring buffers

Entries written one after the other into `n` cells, the next one behind the last and the first cell
again after the last.  Such a ring holds the last `n` entries of its history:

* `RingHolds.write`: one more entry;
* `RingHolds.exists_cell_iff`: the cells in use hold the recent entries and no others;
* `RingHolds.cell_inj`: no two of them hold the same entry, if the recent ones are distinct.
-/

namespace HamiCore

variable {α : Type*} {n : ℕ} {cells : ℕ → α} {history : List α}

/-- The last `n` entries of a history, all of them if they are fewer. -/
def recent (n : ℕ) (history : List α) : List α := history.drop (history.length - n)

/-- Each of the last `n` entries is in the cell its position points to. -/
def RingHolds (n : ℕ) (cells : ℕ → α) (history : List α) : Prop :=
  ∀ (j : ℕ) (hj : j < history.length), history.length ≤ j + n → cells (j % n) = history[j]

theorem RingHolds.nil : RingHolds n cells [] := fun _ hj => absurd hj (Nat.not_lt_zero _)

/-- **One more entry**, over the oldest one if the ring is full. -/
theorem RingHolds.write (h : RingHolds n cells history) (x : α) :
    RingHolds n (Function.update cells (history.length % n) x) (history ++ [x]) := by
  intro j hj hrecent
  rw [List.length_append, List.length_singleton] at hj hrecent
  rcases Nat.lt_succ_iff_lt_or_eq.mp hj with hlt | rfl
  · -- another position in the same cell is at least `n` entries older
    have hne : j % n ≠ history.length % n := by
      intro heq
      have hdvd : n ∣ history.length - j := (Nat.modEq_iff_dvd' hlt.le).mp heq
      have := Nat.le_of_dvd (Nat.sub_pos_of_lt hlt) hdvd
      omega
    rw [Function.update_of_ne hne, List.getElem_append_left hlt]
    exact h j hlt (by omega)
  · rw [Function.update_self, List.getElem_concat_length rfl]

/-- The position whose entry a cell in use holds. -/
theorem exists_mod_eq {m i : ℕ} (hi : i < min m n) :
    ∃ j < m, m ≤ j + n ∧ j % n = i := by
  -- the last position below `m` that points to the cell
  have hn : 0 < n := by omega
  refine ⟨i + (m - 1 - i) / n * n, ?_, ?_, ?_⟩
  · have := Nat.div_mul_le_self (m - 1 - i) n
    omega
  · have := Nat.lt_div_mul_add (a := m - 1 - i) hn
    omega
  · rw [Nat.add_mul_mod_self_right, Nat.mod_eq_of_lt (by omega)]

theorem mem_recent_iff {x : α} :
    x ∈ recent n history ↔
      ∃ (j : ℕ) (hj : j < history.length), history.length ≤ j + n ∧ history[j] = x := by
  rw [recent, List.mem_drop_iff_getElem]
  constructor
  · rintro ⟨i, hi, rfl⟩
    exact ⟨_, hi, by omega, by simp only [Nat.add_comm]⟩
  · rintro ⟨j, hj, hrecent, rfl⟩
    refine ⟨j - (history.length - n), by omega, ?_⟩
    congr 1
    omega

/-- **The cells in use hold the recent entries.** -/
theorem RingHolds.exists_cell_iff (h : RingHolds n cells history) (hn : 0 < n) {x : α} :
    (∃ i < min history.length n, cells i = x) ↔ x ∈ recent n history := by
  rw [mem_recent_iff]
  constructor
  · rintro ⟨i, hi, rfl⟩
    obtain ⟨j, hj, hrecent, rfl⟩ := exists_mod_eq hi
    exact ⟨j, hj, hrecent, (h j hj hrecent).symm⟩
  · rintro ⟨j, hj, hrecent, rfl⟩
    refine ⟨j % n, lt_min ?_ (Nat.mod_lt j hn), h j hj hrecent⟩
    exact (Nat.mod_le j n).trans_lt hj

/-- **Distinct recent entries are in distinct cells**, and no cell in use repeats another. -/
theorem RingHolds.cell_inj (h : RingHolds n cells history) (hnodup : (recent n history).Nodup)
    {i i' : ℕ} (hi : i < min history.length n) (hi' : i' < min history.length n)
    (heq : cells i = cells i') : i = i' := by
  obtain ⟨j, hj, hrecent, rfl⟩ := exists_mod_eq hi
  obtain ⟨j', hj', hrecent', rfl⟩ := exists_mod_eq hi'
  rw [h j hj hrecent, h j' hj' hrecent'] at heq
  have hlen : (recent n history).length = history.length - (history.length - n) := List.length_drop
  have hk : j - (history.length - n) < (recent n history).length := by omega
  have hk' : j' - (history.length - n) < (recent n history).length := by omega
  have hget : (recent n history)[j - (history.length - n)]
      = (recent n history)[j' - (history.length - n)] := by
    have h₁ : history.length - n + (j - (history.length - n)) = j := by omega
    have h₂ : history.length - n + (j' - (history.length - n)) = j' := by omega
    simp only [recent, List.getElem_drop, h₁, h₂, heq]
  have hpos := hnodup.getElem_inj_iff.mp hget
  rw [show j = j' by omega]

/-- One more entry pushes at most the oldest one out. -/
theorem recent_concat (hn : 0 < n) (x : α) :
    recent n (history ++ [x]) = history.drop (history.length + 1 - n) ++ [x] := by
  rw [recent, List.length_append, List.length_singleton,
    List.drop_append_of_le_length (by omega)]

theorem nodup_recent_concat {x : α} (hnodup : (recent n history).Nodup) (hn : 0 < n)
    (hx : x ∉ recent n history) : (recent n (history ++ [x])).Nodup := by
  have hsub : history.drop (history.length + 1 - n) ⊆ recent n history :=
    List.drop_subset_drop_left history (by omega)
  have hnodup' : (history.drop (history.length + 1 - n)).Nodup :=
    hnodup.sublist (List.drop_sublist_drop_left history (by omega))
  rw [recent_concat hn, List.nodup_append]
  refine ⟨hnodup', List.nodup_singleton x, ?_⟩
  intro a ha b hb heq
  obtain rfl := List.mem_singleton.mp hb
  exact hx (heq ▸ hsub ha)

end HamiCore
