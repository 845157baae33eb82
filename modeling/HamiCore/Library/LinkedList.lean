import Mathlib.Data.List.Induction
import Mathlib.Data.List.Nodup
import Mathlib.Logic.Function.Basic

/-!
# Doubly linked lists in memory

A list of nodes, each with an entry and pointers to its neighbours, and a record with a head, a tail
and a length.  Appending and removing are the usual pointer updates, done on a memory of nodes;
following a pointer to a node that is not there has no result.

`Represents` says that such a list holds the nodes of a mathematical list, in order.  On a
represented list the operations succeed and do what they do to the mathematical list:

* `LinkedList.Represents.add`: a node appended;
* `LinkedList.Represents.remove`: a node taken out, wherever it stands;
* `LinkedList.Represents.cell_eq`: what a walk finds at a node;
* `LinkedList.Segment.search`: the node at which a walk ends.
-/

namespace HamiCore

variable {α : Type*}

/-- A node. -/
structure ListNode (α : Type*) where
  entry : α
  next : Option ℕ
  prev : Option ℕ

/-- The record of a list, with the memory its nodes live in. -/
structure LinkedList (α : Type*) where
  cell : ℕ → Option (ListNode α)
  head : Option ℕ
  tail : Option ℕ
  length : ℕ

namespace LinkedList

/-- The empty list. -/
def empty : LinkedList α := ⟨fun _ => none, none, none, 0⟩

/-- Store into the `next` pointer of a node, if there is a node to store into. -/
def setNext (cell : ℕ → Option (ListNode α)) (node value : Option ℕ) :
    Option (ℕ → Option (ListNode α)) :=
  match node with
  | none => some cell
  | some q => (cell q).map fun n => Function.update cell q (some { n with next := value })

/-- Store into the `prev` pointer of a node, if there is a node to store into. -/
def setPrev (cell : ℕ → Option (ListNode α)) (node value : Option ℕ) :
    Option (ℕ → Option (ListNode α)) :=
  match node with
  | none => some cell
  | some q => (cell q).map fun n => Function.update cell q (some { n with prev := value })

/-- Reset the record; the nodes stay where they are. -/
def init (l : LinkedList α) : LinkedList α := { l with head := none, tail := none, length := 0 }

/-- Append the entry `x` in the new node `p`. -/
def add (l : LinkedList α) (p : ℕ) (x : α) : Option (LinkedList α) :=
  match l.head, l.tail with
  | none, _ => some ⟨Function.update l.cell p (some ⟨x, none, none⟩), some p, some p, 1⟩
  | some _, none => none
  | some _, some q =>
    (setNext (Function.update l.cell p (some ⟨x, none, some q⟩)) (some q) (some p)).map fun cell =>
      { l with cell := cell, tail := some p, length := l.length + 1 }

/-- Unlink the node `p` and free it. -/
def remove (l : LinkedList α) (p : ℕ) : Option (LinkedList α) :=
  (l.cell p).bind fun val =>
    (setNext l.cell val.prev val.next).bind fun cell₁ =>
      (setPrev cell₁ val.next val.prev).map fun cell₂ =>
        { cell := Function.update cell₂ p none
          head := if l.head = some p then val.next else l.head
          tail := if l.tail = some p then val.prev else l.tail
          length := l.length - 1 }

/-- A walk along `next` that stops at the first entry with a property, at that node or at the end.
It has no result when the fuel runs out or a node is not there. -/
def search (cell : ℕ → Option (ListNode α)) (q : α → Bool) : ℕ → Option ℕ → Option (Option ℕ)
  | _, none => some none
  | 0, some _ => none
  | fuel + 1, some p =>
    (cell p).bind fun val => if q val.entry then some (some p) else search cell q fuel val.next

/-- The nodes met from a pointer on, along one of the two links, are those of `l`, up to the end. -/
def Reads (link : ListNode α → Option ℕ) (cell : ℕ → Option (ListNode α)) :
    Option ℕ → List (ℕ × α) → Prop
  | node, [] => node = none
  | node, (p, x) :: l =>
    node = some p ∧ ∃ val, cell p = some val ∧ val.entry = x ∧ Reads link cell (link val) l

/-! ## Segments -/

/-- The first node of a segment, or what comes after it. -/
def first : List (ℕ × α) → Option ℕ → Option ℕ
  | [], after => after
  | (p, _) :: _, _ => some p

/-- The last node of a segment, or what comes before it. -/
def last : Option ℕ → List (ℕ × α) → Option ℕ
  | before, [] => before
  | _, (p, _) :: l => last (some p) l

/-- The nodes of `l` are chained, between the nodes `before` and `after`. -/
def Segment (cell : ℕ → Option (ListNode α)) : Option ℕ → List (ℕ × α) → Option ℕ → Prop
  | _, [], _ => True
  | before, (p, x) :: l, after =>
    cell p = some ⟨x, first l after, before⟩ ∧ Segment cell (some p) l after

section Segments

variable {cell : ℕ → Option (ListNode α)} {l l' : List (ℕ × α)} {before after : Option ℕ}

theorem first_append (l l' : List (ℕ × α)) (after : Option ℕ) :
    first (l ++ l') after = first l (first l' after) := by
  cases l <;> rfl

theorem last_append (l l' : List (ℕ × α)) (before : Option ℕ) :
    last before (l ++ l') = last (last before l) l' := by
  induction l generalizing before with
  | nil => rfl
  | cons n l ih => exact ih (some n.1)

theorem segment_append :
    Segment cell before (l ++ l') after ↔
      Segment cell before l (first l' after) ∧ Segment cell (last before l) l' after := by
  induction l generalizing before with
  | nil => simp [Segment, last]
  | cons n l ih =>
    rw [List.cons_append, Segment, Segment, ih, first_append, and_assoc]
    rfl

/-- A segment does not depend on other nodes. -/
theorem Segment.frame {cell' : ℕ → Option (ListNode α)} (h : Segment cell before l after)
    (hsame : ∀ p ∈ l.map Prod.fst, cell' p = cell p) : Segment cell' before l after := by
  induction l generalizing before with
  | nil => trivial
  | cons n l ih =>
    refine ⟨(hsame n.1 (by simp)).trans h.1, ih h.2 fun p hp => hsame p ?_⟩
    rw [List.map_cons]
    exact List.mem_cons_of_mem _ hp

/-- Along `next`, the nodes are met in order. -/
theorem Segment.reads_next (h : Segment cell before l none) :
    Reads ListNode.next cell (first l none) l := by
  induction l generalizing before with
  | nil => rfl
  | cons n l ih => exact ⟨rfl, _, h.1, rfl, ih h.2⟩

/-- Along `prev`, they are met in the opposite order. -/
theorem Segment.reads_prev (h : Segment cell none l after) :
    Reads ListNode.prev cell (last none l) l.reverse := by
  induction l using List.reverseRecOn generalizing after with
  | nil => rfl
  | append_singleton l n ih =>
    obtain ⟨hl, hn, -⟩ := segment_append.mp h
    rw [List.reverse_append, List.reverse_singleton, List.singleton_append, last_append]
    exact ⟨rfl, _, hn, rfl, ih hl⟩

/-- **A walk finds the first entry with the property**, and ends where there is none. -/
theorem Segment.search (h : Segment cell before l none) (q : α → Bool) {fuel : ℕ}
    (hfuel : l.length ≤ fuel) :
    LinkedList.search cell q fuel (first l none)
      = some ((l.find? fun n => q n.2).map Prod.fst) := by
  induction l generalizing before fuel with
  | nil => cases fuel <;> rfl
  | cons n l ih =>
    obtain ⟨fuel, rfl⟩ : ∃ m, fuel = m + 1 := Nat.exists_eq_add_one.mpr (by simp at hfuel; omega)
    have hstep : LinkedList.search cell q (fuel + 1) (first (n :: l) none)
        = if q n.2 then some (some n.1) else LinkedList.search cell q fuel (first l none) := by
      show (cell n.1).bind _ = _
      rw [h.1]
      rfl
    rw [hstep, ih h.2 (Nat.le_of_succ_le_succ hfuel), List.find?_cons]
    cases q n.2 <;> rfl

/-- The last node of a segment may be given another successor. -/
theorem Segment.setNext (hnodup : (l.map Prod.fst).Nodup) (h : Segment cell none l after)
    (value : Option ℕ) :
    ∃ cell', LinkedList.setNext cell (last none l) value = some cell' ∧
      Segment cell' none l value ∧ ∀ p ∉ l.map Prod.fst, cell' p = cell p := by
  cases l using List.reverseRecOn with
  | nil => exact ⟨cell, rfl, trivial, fun _ _ => rfl⟩
  | append_singleton l n =>
    obtain ⟨hl, hn, -⟩ := segment_append.mp h
    rw [List.map_append, List.map_singleton] at hnodup
    have hnotin : n.1 ∉ l.map Prod.fst := fun hmem =>
      (List.disjoint_of_nodup_append hnodup) hmem (by simp)
    have hlast : last none (l ++ [n]) = some n.1 := by
      rw [last_append]
      rfl
    refine ⟨Function.update cell n.1 (some ⟨n.2, value, last none l⟩), ?_, ?_, ?_⟩
    · rw [hlast, LinkedList.setNext, hn]
      rfl
    · refine segment_append.mpr ⟨hl.frame fun p hp => ?_, Function.update_self _ _ _, trivial⟩
      refine Function.update_of_ne ?_ _ _
      rintro rfl
      exact hnotin hp
    · intro p hp
      refine Function.update_of_ne ?_ _ _
      rintro rfl
      exact hp (by simp)

/-- The first node of a segment may be given another predecessor. -/
theorem Segment.setPrev (hnodup : (l.map Prod.fst).Nodup) (h : Segment cell before l none)
    (value : Option ℕ) :
    ∃ cell', LinkedList.setPrev cell (first l none) value = some cell' ∧
      Segment cell' value l none ∧ ∀ p ∉ l.map Prod.fst, cell' p = cell p := by
  cases l with
  | nil => exact ⟨cell, rfl, trivial, fun _ _ => rfl⟩
  | cons n l =>
    rw [List.map_cons, List.nodup_cons] at hnodup
    refine ⟨Function.update cell n.1 (some ⟨n.2, first l none, value⟩), ?_, ?_, ?_⟩
    · show (cell n.1).map _ = _
      rw [h.1]
      rfl
    · refine ⟨Function.update_self _ _ _, h.2.frame fun p hp => ?_⟩
      refine Function.update_of_ne ?_ _ _
      rintro rfl
      exact hnodup.1 hp
    · intro p hp
      refine Function.update_of_ne ?_ _ _
      rintro rfl
      exact hp (by simp)

end Segments

/-! ## Represented lists -/

/-- The list in memory holds the nodes of `l`, in order. -/
structure Represents (d : LinkedList α) (l : List (ℕ × α)) : Prop where
  nodup : (l.map Prod.fst).Nodup
  segment : Segment d.cell none l none
  head_eq : d.head = first l none
  tail_eq : d.tail = last none l
  length_eq : d.length = l.length

section Represents

variable {d : LinkedList α} {l l₁ l₂ : List (ℕ × α)} {p : ℕ} {x : α}

/-- What a walk finds at a node. -/
theorem Represents.cell_eq (h : d.Represents (l₁ ++ (p, x) :: l₂)) :
    d.cell p = some ⟨x, first l₂ none, last none l₁⟩ :=
  (segment_append.mp h.segment).2.1

theorem Represents.init (d : LinkedList α) : d.init.Represents [] :=
  ⟨List.nodup_nil, trivial, rfl, rfl, rfl⟩

/-- New memory is not a node of the list. -/
theorem Represents.fresh (h : d.Represents l) (hp : (d.cell p).isNone = true) :
    p ∉ l.map Prod.fst := by
  intro hmem
  obtain ⟨n, hn, rfl⟩ := List.mem_map.mp hmem
  obtain ⟨l₁, l₂, rfl⟩ := List.append_of_mem hn
  rw [h.cell_eq] at hp
  exact absurd hp (by simp)

/-- **Appending.** -/
theorem Represents.add (h : d.Represents l) (hp : p ∉ l.map Prod.fst) (x : α) :
    ∃ d', d.add p x = some d' ∧ d'.Represents (l ++ [(p, x)]) := by
  have hnodup : ((l ++ [(p, x)]).map Prod.fst).Nodup := by
    rw [List.map_append, List.map_singleton]
    exact List.Nodup.append h.nodup (List.nodup_singleton p) (by simpa using hp)
  cases l using List.reverseRecOn with
  | nil =>
    have hhead : d.head = none := h.head_eq
    refine ⟨_, by rw [LinkedList.add, hhead], hnodup, ⟨Function.update_self _ _ _, trivial⟩,
      rfl, rfl,
      rfl⟩
  | append_singleton l n =>
    have htail : d.tail = some n.1 := by
      rw [h.tail_eq, last_append]
      rfl
    obtain ⟨q, hhead⟩ : ∃ q, d.head = some q := by
      rw [h.head_eq, first_append]
      cases l with
      | nil => exact ⟨_, rfl⟩
      | cons m l => exact ⟨_, rfl⟩
    have hframe :
        Segment (Function.update d.cell p (some ⟨x, none, some n.1⟩)) none (l ++ [n]) none :=
      h.segment.frame fun r hr => Function.update_of_ne (by rintro rfl; exact hp hr) _ _
    obtain ⟨cell', hset, hseg, hout⟩ := hframe.setNext h.nodup (some p)
    have hlast : last none (l ++ [n]) = some n.1 := by rw [← h.tail_eq, htail]
    rw [hlast] at hset
    refine ⟨_, by rw [LinkedList.add, hhead, htail]; simp only [hset]; rfl, hnodup, ?_, ?_, ?_, ?_⟩
    · refine segment_append.mpr ⟨hseg, ?_, trivial⟩
      rw [hlast]
      dsimp only
      rw [hout p hp, Function.update_self]
      rfl
    · dsimp only
      rw [← hhead, h.head_eq, first_append, first_append, first_append]
      cases l <;> rfl
    · rw [last_append]
      rfl
    · dsimp only
      rw [h.length_eq]
      simp

/-- **Removing.** -/
theorem Represents.remove (h : d.Represents (l₁ ++ (p, x) :: l₂)) :
    ∃ d', d.remove p = some d' ∧ d'.Represents (l₁ ++ l₂) := by
  obtain ⟨hseg₁, -, hseg₂⟩ := segment_append.mp h.segment
  have hnodup := h.nodup
  rw [List.map_append, List.map_cons, List.nodup_append, List.nodup_cons] at hnodup
  obtain ⟨hnodup₁, ⟨hp₂, hnodup₂⟩, hdisj⟩ := hnodup
  have hp₁ : p ∉ l₁.map Prod.fst := fun hmem => hdisj p hmem p (by simp) rfl
  have hdisj' : ∀ r ∈ l₂.map Prod.fst, r ∉ l₁.map Prod.fst := fun r hr hr' =>
    hdisj r hr' r (List.mem_cons_of_mem _ hr) rfl
  -- the two neighbours are linked to each other, and the node is freed
  obtain ⟨cell₁, hset₁, hseg₁', hout₁⟩ := hseg₁.setNext hnodup₁ (first l₂ none)
  have hseg₂' : Segment cell₁ (some p) l₂ none := hseg₂.frame fun r hr => hout₁ r (hdisj' r hr)
  obtain ⟨cell₂, hset₂, hseg₂'', hout₂⟩ := hseg₂'.setPrev hnodup₂ (last none l₁)
  refine ⟨_,
    by rw [LinkedList.remove, h.cell_eq, Option.bind_some, hset₁, Option.bind_some, hset₂]; rfl,
    ?_, ?_, ?_, ?_, ?_⟩
  · rw [List.map_append, List.nodup_append]
    exact ⟨hnodup₁, hnodup₂, fun a ha b hb hab => hdisj' b hb (hab ▸ ha)⟩
  · refine segment_append.mpr ⟨hseg₁'.frame fun r hr => ?_, hseg₂''.frame fun r hr => ?_⟩
    · dsimp only
      rw [Function.update_of_ne (by rintro rfl; exact hp₁ hr), hout₂ r fun hr' => hdisj' r hr' hr]
    · exact Function.update_of_ne (by rintro rfl; exact hp₂ hr) _ _
  · dsimp only
    rw [h.head_eq, first_append, first_append]
    cases l₁ with
    | nil => exact if_pos rfl
    | cons n l =>
      refine if_neg fun heq => hp₁ ?_
      obtain rfl : n.1 = p := Option.some.inj heq
      simp
  · dsimp only
    rw [h.tail_eq, last_append, last_append]
    cases l₂ using List.reverseRecOn with
    | nil => exact if_pos rfl
    | append_singleton l n =>
      rw [← List.cons_append, last_append, last_append]
      refine if_neg fun heq => hp₂ ?_
      obtain rfl : n.1 = p := Option.some.inj heq
      simp
  · dsimp only
    rw [h.length_eq, List.length_append, List.length_cons, List.length_append]
    omega

end Represents

end LinkedList

end HamiCore
