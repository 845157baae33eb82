import Mathlib.Algebra.BigOperators.Group.Finset.Basic
import Mathlib.Data.Fintype.Basic
import Mathlib.Tactic.Abel

/-!
# What the threads of a system have under way

In a machine with finitely many threads, what their unfinished calls stand for is a sum with one
summand for each thread, read off where it is.  A step moves one thread, so it exchanges one
summand; the conservation laws of the development come down to this.
-/

namespace HamiCore

open Finset

variable {T α M : Type*} [DecidableEq T] [Fintype T]

/-- **One thread moves.** -/
theorem sum_update_add [AddCommMonoid M] (g : α → M) (p : T → α) (t : T) (a : α) :
    (∑ u, g (Function.update p t a u)) + g (p t) = (∑ u, g (p u)) + g a := by
  have hothers : ∑ u ∈ univ.erase t, g (Function.update p t a u) =
      ∑ u ∈ univ.erase t, g (p u) := by
    refine Finset.sum_congr rfl fun u hu => ?_
    rw [Function.update_of_ne (Finset.ne_of_mem_erase hu)]
  rw [← Finset.add_sum_erase univ _ (mem_univ t), hothers, Function.update_self,
    ← Finset.add_sum_erase univ (fun u => g (p u)) (mem_univ t)]
  abel

end HamiCore
