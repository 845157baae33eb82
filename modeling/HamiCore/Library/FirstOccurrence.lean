import Mathlib.Data.List.Dedup
import Mathlib.Data.List.Induction
import Mathlib.Data.List.Infix
import Mathlib.Data.List.Nodup

/-!
# The distinct members of a list, by first occurrence

A list merged into an empty one, an element at a time and only when it is new, becomes the list of
its distinct members in the order in which they first occur.  (`List.dedup` keeps the last
occurrences instead.)  An element comes to stand behind as many others as there are distinct members
before its first occurrence, which is its own position exactly when none of these is repeated.
-/

namespace HamiCore

variable {α : Type*} [DecidableEq α]

/-- Append an element, unless it is there. -/
def insertNew (l : List α) (a : α) : List α := if a ∈ l then l else l ++ [a]

/-- The distinct members of a list, in the order of their first occurrences. -/
def firstOccurrences (l : List α) : List α := l.foldl insertNew []

theorem firstOccurrences_concat (l : List α) (a : α) :
    firstOccurrences (l ++ [a]) = insertNew (firstOccurrences l) a := by
  simp [firstOccurrences]

@[simp] theorem mem_insertNew {l : List α} {a b : α} : b ∈ insertNew l a ↔ b ∈ l ∨ b = a := by
  unfold insertNew
  by_cases ha : a ∈ l
  · rw [if_pos ha]
    exact ⟨Or.inl, fun h => h.elim id fun hb => hb ▸ ha⟩
  · rw [if_neg ha, List.mem_append, List.mem_singleton]

@[simp] theorem mem_firstOccurrences {l : List α} {b : α} : b ∈ firstOccurrences l ↔ b ∈ l := by
  induction l using List.reverseRecOn with
  | nil => rfl
  | append_singleton l a ih => simp [firstOccurrences_concat, ih]

/-- They stand in the order of their first positions in the list. -/
theorem pairwise_firstOccurrences (l : List α) :
    (firstOccurrences l).Pairwise fun a b => l.idxOf a < l.idxOf b := by
  induction l using List.reverseRecOn with
  | nil => exact List.Pairwise.nil
  | append_singleton l a ih =>
    -- the members seen so far keep their positions
    have hold : (firstOccurrences l).Pairwise fun b c =>
        (l ++ [a]).idxOf b < (l ++ [a]).idxOf c := by
      apply ih.imp_of_mem
      intro b c hb hc hlt
      rwa [List.idxOf_append_of_mem (mem_firstOccurrences.mp hb),
        List.idxOf_append_of_mem (mem_firstOccurrences.mp hc)]
    rw [firstOccurrences_concat, insertNew]
    by_cases ha : a ∈ firstOccurrences l
    · rwa [if_pos ha]
    · rw [if_neg ha, List.pairwise_append]
      refine ⟨hold, List.pairwise_singleton _ _, fun b hb c hc => ?_⟩
      obtain rfl := List.mem_singleton.mp hc
      have hb' := mem_firstOccurrences.mp hb
      have hc' : c ∉ l := fun h => ha (mem_firstOccurrences.mpr h)
      rw [List.idxOf_append_of_mem hb', List.idxOf_append_of_notMem hc']
      exact Nat.lt_add_right _ (List.idxOf_lt_length_iff.mpr hb')

theorem nodup_firstOccurrences (l : List α) : (firstOccurrences l).Nodup :=
  (pairwise_firstOccurrences l).imp fun hlt heq => by
    rw [heq] at hlt
    exact Nat.lt_irrefl _ hlt

/-- There are as many as there are distinct members. -/
theorem length_firstOccurrences (l : List α) : (firstOccurrences l).length = l.dedup.length := by
  refine List.Perm.length_eq ((List.perm_ext_iff_of_nodup ?_ ?_).mpr fun a => ?_)
  · exact nodup_firstOccurrences l
  · exact List.nodup_dedup l
  · rw [mem_firstOccurrences, List.mem_dedup]

/-- A search through them finds what a search through the list finds. -/
theorem find?_firstOccurrences (l : List α) (p : α → Bool) :
    (firstOccurrences l).find? p = l.find? p := by
  induction l using List.reverseRecOn with
  | nil => rfl
  | append_singleton l a ih =>
    rw [firstOccurrences_concat, insertNew, List.find?_append]
    by_cases ha : a ∈ firstOccurrences l
    · rw [if_pos ha, ih]
      cases hfind : l.find? p with
      | none =>
        have hpa := List.find?_eq_none.mp hfind a (mem_firstOccurrences.mp ha)
        rw [List.find?_singleton, if_neg hpa]
        rfl
      | some b => rfl
    · rw [if_neg ha, List.find?_append, ih]

/-- What comes later in the list does not move what is there. -/
theorem firstOccurrences_isPrefix (l m : List α) :
    firstOccurrences l <+: firstOccurrences (l ++ m) := by
  induction m using List.reverseRecOn with
  | nil => rw [List.append_nil]
  | append_singleton m a ih =>
    rw [← List.append_assoc, firstOccurrences_concat]
    refine ih.trans ?_
    unfold insertNew
    split_ifs
    · exact List.prefix_rfl
    · exact List.prefix_append _ _

/-- An element stands behind the distinct members that come before it. -/
theorem idxOf_firstOccurrences {l m : List α} {a : α} (ha : a ∉ l) :
    (firstOccurrences (l ++ a :: m)).idxOf a = l.dedup.length := by
  have hnew : firstOccurrences (l ++ [a]) = firstOccurrences l ++ [a] := by
    rw [firstOccurrences_concat, insertNew, if_neg (by rwa [mem_firstOccurrences])]
  obtain ⟨rest, hrest⟩ := firstOccurrences_isPrefix (l ++ [a]) m
  rw [List.append_assoc, List.singleton_append] at hrest
  rw [← hrest, hnew, List.append_assoc,
    List.idxOf_append_of_notMem (by rwa [mem_firstOccurrences]), List.singleton_append,
    List.idxOf_cons_self, Nat.add_zero, length_firstOccurrences]

end HamiCore
