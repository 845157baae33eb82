import Mathlib.Data.Nat.Notation

/-!
# The token of a semaphore

A semaphore that starts at one and is posted only by those who have got past a wait hands out one
token: it is in the semaphore, or with the one who is inside.  What happens to those inside, or
whether they ever post, does not matter; who is killed inside stays inside.

The three moves are `take`, `give` and everything else (`stay`).  Each says how the predicate
"inside" changes with the move, and nothing about the states behind it.
-/

namespace HamiCore

variable {ι : Type*} {sem : ℕ} {inside inside' : ι → Prop}

/-- The token is in the semaphore, or with the one who is inside. -/
structure TokenKept (sem : ℕ) (inside : ι → Prop) : Prop where
  sem_le : sem ≤ 1
  zero_iff : sem = 0 ↔ ∃ i, inside i
  unique : ∀ i j, inside i → inside j → i = j

namespace TokenKept

/-- At the start nobody is inside. -/
theorem start (h : ∀ i, ¬ inside i) : TokenKept 1 inside where
  sem_le := Nat.le_refl 1
  zero_iff := iff_of_false (by decide) fun ⟨i, hi⟩ => h i hi
  unique i _ hi := absurd hi (h i)

/-- Nobody comes or goes. -/
theorem stay (h : TokenKept sem inside) (hiff : ∀ i, inside' i ↔ inside i) :
    TokenKept sem inside' where
  sem_le := h.sem_le
  zero_iff := h.zero_iff.trans (exists_congr fun i => (hiff i).symm)
  unique i j hi hj := h.unique i j ((hiff i).mp hi) ((hiff j).mp hj)

/-- A wait that succeeds. -/
theorem take (h : TokenKept (sem + 1) inside) {i : ι} (hiff : ∀ j, inside' j ↔ j = i ∨ inside j) :
    TokenKept sem inside' := by
  have hempty : ∀ j, ¬ inside j := fun j hj => absurd (h.zero_iff.mpr ⟨j, hj⟩) (by simp)
  have honly : ∀ j, inside' j → j = i := by
    intro j hj
    rcases (hiff j).mp hj with hji | hin
    · exact hji
    · exact absurd hin (hempty j)
  have hzero : sem = 0 := by
    have hle := h.sem_le
    omega
  refine ⟨by omega, iff_of_true hzero ⟨i, (hiff i).mpr (Or.inl rfl)⟩, fun j k hj hk => ?_⟩
  rw [honly j hj, honly k hk]

/-- A post by the one who is inside. -/
theorem give (h : TokenKept sem inside) {i : ι} (hi : inside i)
    (hiff : ∀ j, inside' j ↔ j ≠ i ∧ inside j) : TokenKept (sem + 1) inside' := by
  have hempty : ∀ j, ¬ inside' j := by
    intro j hj
    obtain ⟨hji, hin⟩ := (hiff j).mp hj
    exact hji (h.unique j i hin hi)
  have hzero : sem = 0 := h.zero_iff.mpr ⟨i, hi⟩
  rw [hzero]
  exact start hempty

end TokenKept

end HamiCore
