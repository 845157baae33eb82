import HamiCore.Library.LinkedList

/-!
# The pointer updates of a doubly linked list, one access at a time

`LinkedList.add` and `LinkedList.remove` are sequences of loads and stores.  Where other threads may
move in between, each of them is a step: `appendAccess` and `unlinkAccess`, with the place a thread
has come to (`AppendPc`, `UnlinkPc`) and what it has loaded so far.  An access to a node that is not
there has no result.

A thread that is let alone goes through known stages, one for each place (`AppendPc.Holds`,
`UnlinkPc.Holds`).

* `AppendPc.Holds.access`, `UnlinkPc.Holds.access`: an access leads from stage to stage, and the
  last one to the list with the node appended, or without it.
* `AppendPc.Holds.reads`, `UnlinkPc.Holds.reads`: in every stage whoever follows `next` from the
  head meets the old list or the new one, in order and up to the end.

Nothing is said about accesses of two threads that interleave.
-/

namespace HamiCore

namespace LinkedList

variable {α : Type*}

/-! ## The accesses -/

/-- Where a thread is that appends a node. -/
inductive AppendPc where
  /-- Is the list empty? -/
  | test
  | emptyHead
  | emptyTail
  | emptyLength
  /-- The `prev` pointer of the new node. -/
  | back
  /-- The load of the tail, whose `next` pointer is stored to next. -/
  | link
  | storeNext (q : ℕ)
  | storeTail
  | count
  | storeLength (n : ℕ)
  deriving DecidableEq

/-- One access of a thread that appends the node `p`, and where the thread is then; `none` is past
the last access. -/
def appendAccess (d : LinkedList α) (p : ℕ) : AppendPc → Option (Option AppendPc × LinkedList α)
  | .test => some (some (if d.head.isNone then .emptyHead else .back), d)
  | .emptyHead => some (some .emptyTail, { d with head := some p })
  | .emptyTail => some (some .emptyLength, { d with tail := some p })
  | .emptyLength => some (none, { d with length := 1 })
  | .back => (setPrev d.cell (some p) d.tail).map fun cell => (some .link, { d with cell := cell })
  | .link => d.tail.map fun q => (some (.storeNext q), d)
  | .storeNext q =>
    (setNext d.cell (some q) (some p)).map fun cell => (some .storeTail, { d with cell := cell })
  | .storeTail => some (some .count, { d with tail := some p })
  | .count => some (some (.storeLength (d.length + 1)), d)
  | .storeLength n => some (none, { d with length := n })

/-- Where a thread is that unlinks and frees a node. -/
inductive UnlinkPc where
  /-- The node before. -/
  | back
  | storeNext (q : ℕ) (value : Option ℕ)
  /-- The node after. -/
  | ahead
  | storePrev (q : ℕ) (value : Option ℕ)
  | tail
  | storeTail (value : Option ℕ)
  | head
  | storeHead (value : Option ℕ)
  | free
  | count
  | storeLength (n : ℕ)
  deriving DecidableEq

/-- One access of a thread that unlinks the node `p`, and where the thread is then. -/
def unlinkAccess (d : LinkedList α) (p : ℕ) : UnlinkPc → Option (Option UnlinkPc × LinkedList α)
  | .back => (d.cell p).map fun val =>
      (some (match val.prev with | none => .ahead | some q => .storeNext q val.next), d)
  | .storeNext q value =>
    (setNext d.cell (some q) value).map fun cell => (some .ahead, { d with cell := cell })
  | .ahead => (d.cell p).map fun val =>
      (some (match val.next with | none => .tail | some q => .storePrev q val.prev), d)
  | .storePrev q value =>
    (setPrev d.cell (some q) value).map fun cell => (some .tail, { d with cell := cell })
  | .tail =>
    if d.tail = some p then (d.cell p).map fun val => (some (.storeTail val.prev), d)
    else some (some .head, d)
  | .storeTail value => some (some .head, { d with tail := value })
  | .head =>
    if d.head = some p then (d.cell p).map fun val => (some (.storeHead val.next), d)
    else some (some .free, d)
  | .storeHead value => some (some .free, { d with head := value })
  | .free => (d.cell p).map fun _ => (some .count, { d with cell := Function.update d.cell p none })
  | .count => some (some (.storeLength (d.length - 1)), d)
  | .storeLength n => some (none, { d with length := n })

/-- The nodes met along `next`, when the end is reached within the fuel. -/
def collect (cell : ℕ → Option (ListNode α)) : ℕ → Option ℕ → Option (List (ℕ × α))
  | _, none => some []
  | 0, some _ => none
  | fuel + 1, some p =>
    (cell p).bind fun val => (collect cell fuel val.next).map fun l => (p, val.entry) :: l

/-! ## Reading -/

section Reading

variable {cell : ℕ → Option (ListNode α)} {l l' : List (ℕ × α)} {before after node : Option ℕ}

/-- Along `next`, a segment is met before what comes after it. -/
theorem Segment.reads_append (h : Segment cell before l after)
    (h' : Reads ListNode.next cell after l') :
    Reads ListNode.next cell (first l after) (l ++ l') := by
  induction l generalizing before with
  | nil => exact h'
  | cons n l ih => exact ⟨rfl, _, h.1, rfl, ih h.2⟩

/-- What is met is determined. -/
theorem Reads.unique {link : ListNode α → Option ℕ} (h : Reads link cell node l)
    (h' : Reads link cell node l') : l = l' := by
  induction l generalizing node l' with
  | nil =>
    cases l' with
    | nil => rfl
    | cons n l' => exact absurd (h.symm.trans h'.1) (by simp)
  | cons n l ih =>
    cases l' with
    | nil => exact absurd (h'.symm.trans h.1) (by simp)
    | cons n' l' =>
      obtain ⟨hnode, val, hval, hentry, hrest⟩ := h
      obtain ⟨hnode', val', hval', hentry', hrest'⟩ := h'
      obtain hp : n.1 = n'.1 := Option.some.inj (hnode.symm.trans hnode')
      rw [← hp, hval] at hval'
      obtain rfl := Option.some.inj hval'
      rw [ih hrest hrest', Prod.ext hp (hentry.symm.trans hentry')]

/-- A walk that has come to the end has met what there is. -/
theorem reads_of_collect {fuel : ℕ} (h : collect cell fuel node = some l) :
    Reads ListNode.next cell node l := by
  induction fuel generalizing node l with
  | zero =>
    cases node with
    | none =>
      obtain rfl := Option.some.inj h
      rfl
    | some p => exact absurd h (by simp [collect])
  | succ fuel ih =>
    cases node with
    | none =>
      obtain rfl := Option.some.inj h
      rfl
    | some p =>
      obtain ⟨val, hval, h⟩ := Option.bind_eq_some_iff.mp h
      obtain ⟨rest, hrest, rfl⟩ := Option.map_eq_some_iff.mp h
      exact ⟨rfl, val, hval, rfl, ih hrest⟩

theorem Represents.reads_next {d : LinkedList α} (h : d.Represents l) :
    Reads ListNode.next d.cell d.head l := by
  rw [h.head_eq]
  exact h.segment.reads_next

/-- The first node of a list that is not empty does not depend on what comes after. -/
theorem first_congr (hl : l ≠ []) (after after' : Option ℕ) : first l after = first l after' := by
  cases l with
  | nil => exact absurd rfl hl
  | cons n l => rfl

theorem last_congr (hl : l ≠ []) (before before' : Option ℕ) : last before l = last before' l := by
  cases l with
  | nil => exact absurd rfl hl
  | cons n l => rfl

/-- The last of several nodes is one of them. -/
theorem exists_last (hl : l ≠ []) (before : Option ℕ) :
    ∃ p ∈ l.map Prod.fst, last before l = some p := by
  induction l generalizing before with
  | nil => exact absurd rfl hl
  | cons n l ih =>
    by_cases hrest : l = []
    · subst hrest
      exact ⟨n.1, by simp, rfl⟩
    · obtain ⟨p, hp, hlast⟩ := ih hrest (some n.1)
      exact ⟨p, List.mem_cons_of_mem _ hp, hlast⟩

theorem exists_first (hl : l ≠ []) (after : Option ℕ) :
    ∃ p ∈ l.map Prod.fst, first l after = some p := by
  cases l with
  | nil => exact absurd rfl hl
  | cons n l => exact ⟨n.1, by simp, rfl⟩

end Reading

/-! ## Appending -/

/-- A chain whose tail and length are not yet, or no longer, those of the chain. -/
structure Chain (d : LinkedList α) (l : List (ℕ × α)) (tail : Option ℕ) (length : ℕ) : Prop where
  nodup : (l.map Prod.fst).Nodup
  segment : Segment d.cell none l none
  head_eq : d.head = first l none
  tail_eq : d.tail = tail
  length_eq : d.length = length

/-- A list and, in memory of its own, the node that is to be appended. -/
structure Beside (d : LinkedList α) (l : List (ℕ × α)) (p : ℕ) (x : α) (prev : Option ℕ) :
    Prop where
  list : d.Represents l
  fresh : p ∉ l.map Prod.fst
  node : d.cell p = some ⟨x, none, prev⟩

/-- The stage a thread that appends the node `p` to `l` has come to. -/
def AppendPc.Holds (d : LinkedList α) (l : List (ℕ × α)) (p : ℕ) (x : α) : AppendPc → Prop
  | .test => d.Beside l p x none
  | .emptyHead => l = [] ∧ d.Beside l p x none
  | .emptyTail => l = [] ∧ d.Chain [(p, x)] none 0
  | .emptyLength => l = [] ∧ d.Chain [(p, x)] (some p) 0
  | .back => l ≠ [] ∧ d.Beside l p x none
  | .link => l ≠ [] ∧ d.Beside l p x (last none l)
  | .storeNext q => last none l = some q ∧ d.Beside l p x (last none l)
  | .storeTail => d.Chain (l ++ [(p, x)]) (last none l) l.length
  | .count => d.Chain (l ++ [(p, x)]) (some p) l.length
  | .storeLength n => n = l.length + 1 ∧ d.Chain (l ++ [(p, x)]) (some p) l.length

section Append

variable {d : LinkedList α} {l : List (ℕ × α)} {p : ℕ} {x : α} {pc : AppendPc}

/-- New memory, filled in, is beside the list. -/
theorem Represents.beside (h : d.Represents l) (hp : (d.cell p).isNone = true) (x : α) :
    Beside { d with cell := Function.update d.cell p (some ⟨x, none, none⟩) } l p x none := by
  have hfresh := h.fresh hp
  refine ⟨⟨h.nodup, h.segment.frame fun r hr => Function.update_of_ne ?_ _ _, h.head_eq, h.tail_eq,
    h.length_eq⟩, hfresh, Function.update_self _ _ _⟩
  rintro rfl
  exact hfresh hr

/-- A store into the entry of the last node. -/
theorem Represents.setEntry (h : d.Represents (l ++ [(p, x)])) (y : α) :
    Represents { d with cell := Function.update d.cell p (some ⟨y, none, last none l⟩) }
      (l ++ [(p, y)]) := by
  have hfresh : p ∉ l.map Prod.fst := by
    have hnodup := h.nodup
    rw [List.map_append, List.map_singleton] at hnodup
    exact fun hmem => List.disjoint_of_nodup_append hnodup hmem (List.mem_singleton_self p)
  refine ⟨by simpa using h.nodup, ?_, ?_, ?_, by simpa using h.length_eq⟩
  · refine segment_append.mpr ⟨(segment_append.mp h.segment).1.frame fun r hr => ?_,
      Function.update_self _ _ _, trivial⟩
    refine Function.update_of_ne ?_ _ _
    rintro rfl
    exact hfresh hr
  · rw [first_append]
    exact h.head_eq.trans (first_append _ _ _)
  · rw [last_append]
    exact h.tail_eq.trans (last_append _ _ _)

theorem Chain.reads {tail : Option ℕ} {length : ℕ} (h : d.Chain l tail length) :
    Reads ListNode.next d.cell d.head l := by
  rw [h.head_eq]
  exact h.segment.reads_next

/-- A chain whose tail and length are right is a list. -/
theorem Chain.represents {tail : Option ℕ} {length : ℕ} (h : d.Chain l tail length)
    (htail : tail = last none l) (hlength : length = l.length) : d.Represents l :=
  ⟨h.nodup, h.segment, h.head_eq, h.tail_eq.trans htail, h.length_eq.trans hlength⟩

/-- **The link to the new node.** -/
theorem Beside.storeNext (h : d.Beside l p x (last none l)) {q : ℕ} (hq : last none l = some q) :
    ∃ cell, setNext d.cell (some q) (some p) = some cell ∧
      Chain { d with cell := cell } (l ++ [(p, x)]) (last none l) l.length := by
  obtain ⟨cell, hset, hseg, hout⟩ := h.list.segment.setNext h.list.nodup (some p)
  rw [hq] at hset
  refine ⟨cell, hset, ?_, ?_, ?_, h.list.tail_eq, h.list.length_eq⟩
  · rw [List.map_append, List.map_singleton]
    exact List.Nodup.append h.list.nodup (List.nodup_singleton p) (by simpa using h.fresh)
  · refine segment_append.mpr ⟨hseg, ?_, trivial⟩
    dsimp only
    rw [hout p h.fresh, h.node]
    rfl
  · rw [first_append]
    exact h.list.head_eq.trans (first_congr (by rintro rfl; simp [last] at hq) _ _)

/-- **An access of a thread that appends a node** leads on to the next stage, the last one to the
list with the node. -/
theorem AppendPc.Holds.access (h : pc.Holds d l p x) :
    ∃ next d', d.appendAccess p pc = some (next, d') ∧
      next.elim (d'.Represents (l ++ [(p, x)])) fun pc' => pc'.Holds d' l p x := by
  cases pc with
  | test =>
    refine ⟨_, d, rfl, ?_⟩
    by_cases hl : l = []
    · have hhead : d.head.isNone = true := by
        rw [h.list.head_eq, hl]
        rfl
      rw [if_pos hhead]
      exact ⟨hl, h⟩
    · obtain ⟨q, -, hq⟩ := exists_first hl none
      have hhead : ¬ d.head.isNone = true := by
        rw [h.list.head_eq, hq]
        simp
      rw [if_neg hhead]
      exact ⟨hl, h⟩
  | emptyHead =>
    obtain ⟨rfl, h⟩ := h
    exact ⟨_, _, rfl, rfl, List.nodup_singleton _, ⟨h.node, trivial⟩, rfl, h.list.tail_eq,
      h.list.length_eq⟩
  | emptyTail =>
    obtain ⟨rfl, h⟩ := h
    exact ⟨_, _, rfl, rfl, h.nodup, h.segment, h.head_eq, rfl, h.length_eq⟩
  | emptyLength =>
    obtain ⟨rfl, h⟩ := h
    exact ⟨_, _, rfl, h.nodup, h.segment, h.head_eq, h.tail_eq, rfl⟩
  | back =>
    obtain ⟨hl, h⟩ := h
    refine ⟨some .link, { d with cell := Function.update d.cell p (some ⟨x, none, d.tail⟩) },
      by rw [appendAccess, setPrev, h.node]; rfl, hl, ⟨h.list.nodup, ?_, h.list.head_eq,
      h.list.tail_eq, h.list.length_eq⟩, h.fresh, ?_⟩
    · refine h.list.segment.frame fun r hr => Function.update_of_ne ?_ _ _
      rintro rfl
      exact h.fresh hr
    · dsimp only
      rw [Function.update_self, h.list.tail_eq]
  | link =>
    obtain ⟨hl, h⟩ := h
    obtain ⟨q, -, hq⟩ := exists_last hl none
    exact ⟨some (.storeNext q), d, by rw [appendAccess, h.list.tail_eq, hq]; rfl, hq, h⟩
  | storeNext q =>
    obtain ⟨hq, h⟩ := h
    obtain ⟨cell, hset, h'⟩ := h.storeNext hq
    exact ⟨some .storeTail, _, by rw [appendAccess, hset]; rfl, h'⟩
  | storeTail =>
    exact ⟨_, _, rfl, h.nodup, h.segment, h.head_eq, rfl, h.length_eq⟩
  | count =>
    exact ⟨_, d, rfl, by rw [h.length_eq], h⟩
  | storeLength n =>
    obtain ⟨rfl, h⟩ := h
    refine ⟨_, _, rfl, h.nodup, h.segment, h.head_eq, ?_, ?_⟩
    · rw [last_append]
      exact h.tail_eq
    · dsimp only
      rw [List.length_append, List.length_singleton]

/-- In every stage the old list is read, or the new one. -/
theorem AppendPc.Holds.reads (h : pc.Holds d l p x) :
    ∃ l', Reads ListNode.next d.cell d.head l' ∧ (l' = l ∨ l' = l ++ [(p, x)]) := by
  cases pc with
  | test => exact ⟨l, h.list.reads_next, Or.inl rfl⟩
  | emptyHead => exact ⟨l, h.2.list.reads_next, Or.inl rfl⟩
  | emptyTail =>
    obtain ⟨rfl, h⟩ := h
    exact ⟨_, h.reads, Or.inr rfl⟩
  | emptyLength =>
    obtain ⟨rfl, h⟩ := h
    exact ⟨_, h.reads, Or.inr rfl⟩
  | back => exact ⟨l, h.2.list.reads_next, Or.inl rfl⟩
  | link => exact ⟨l, h.2.list.reads_next, Or.inl rfl⟩
  | storeNext q => exact ⟨l, h.2.list.reads_next, Or.inl rfl⟩
  | storeTail => exact ⟨_, Chain.reads h, Or.inr rfl⟩
  | count => exact ⟨_, Chain.reads h, Or.inr rfl⟩
  | storeLength n => exact ⟨_, h.2.reads, Or.inr rfl⟩

/-- The length is that of the old list until the end. -/
theorem AppendPc.Holds.length_eq (h : pc.Holds d l p x) : d.length = l.length := by
  cases pc with
  | test => exact h.list.length_eq
  | emptyHead => exact h.2.list.length_eq
  | emptyTail =>
    obtain ⟨rfl, h⟩ := h
    exact h.length_eq
  | emptyLength =>
    obtain ⟨rfl, h⟩ := h
    exact h.length_eq
  | back => exact h.2.list.length_eq
  | link => exact h.2.list.length_eq
  | storeNext q => exact h.2.list.length_eq
  | storeTail => exact Chain.length_eq h
  | count => exact Chain.length_eq h
  | storeLength n => exact h.2.length_eq

end Append

/-! ## Unlinking -/

/-- A list on its way from `l₁ ++ (p, x) :: l₂` to `l₁ ++ l₂`: what the nodes before `p` are linked
to, what the nodes after it are linked to, and what the record has for a list without nodes on that
side. -/
structure Cut (d : LinkedList α) (l₁ : List (ℕ × α)) (p : ℕ) (x : α) (l₂ : List (ℕ × α))
    (after before head tail : Option ℕ) : Prop where
  nodup : ((l₁ ++ (p, x) :: l₂).map Prod.fst).Nodup
  left : Segment d.cell none l₁ after
  right : Segment d.cell before l₂ none
  node : d.cell p = some ⟨x, first l₂ none, last none l₁⟩
  head_eq : d.head = first l₁ head
  tail_eq : d.tail = last tail l₂
  length_eq : d.length = l₁.length + l₂.length + 1

/-- The stage a thread that unlinks the node `p` has come to. -/
def UnlinkPc.Holds (d : LinkedList α) (l₁ : List (ℕ × α)) (p : ℕ) (x : α) (l₂ : List (ℕ × α)) :
    UnlinkPc → Prop
  | .back => d.Cut l₁ p x l₂ (some p) (some p) (some p) (some p)
  | .storeNext q value => last none l₁ = some q ∧ value = first l₂ none ∧
      d.Cut l₁ p x l₂ (some p) (some p) (some p) (some p)
  | .ahead => d.Cut l₁ p x l₂ (first l₂ none) (some p) (some p) (some p)
  | .storePrev q value => first l₂ none = some q ∧ value = last none l₁ ∧
      d.Cut l₁ p x l₂ (first l₂ none) (some p) (some p) (some p)
  | .tail => d.Cut l₁ p x l₂ (first l₂ none) (last none l₁) (some p) (some p)
  | .storeTail value => l₂ = [] ∧ value = last none l₁ ∧
      d.Cut l₁ p x l₂ (first l₂ none) (last none l₁) (some p) (some p)
  | .head => d.Cut l₁ p x l₂ (first l₂ none) (last none l₁) (some p) (last none l₁)
  | .storeHead value => l₁ = [] ∧ value = first l₂ none ∧
      d.Cut l₁ p x l₂ (first l₂ none) (last none l₁) (some p) (last none l₁)
  | .free => d.Cut l₁ p x l₂ (first l₂ none) (last none l₁) (first l₂ none) (last none l₁)
  | .count => d.Chain (l₁ ++ l₂) (last none (l₁ ++ l₂)) (l₁.length + l₂.length + 1)
  | .storeLength n => n = l₁.length + l₂.length ∧
      d.Chain (l₁ ++ l₂) (last none (l₁ ++ l₂)) (l₁.length + l₂.length + 1)

section Unlink

variable {d : LinkedList α} {l₁ l₂ : List (ℕ × α)} {p : ℕ} {x : α} {pc : UnlinkPc}
  {after before head tail : Option ℕ}

/-- The node is neither before nor after itself, and no node is on both sides. -/
theorem Cut.disjoint (h : d.Cut l₁ p x l₂ after before head tail) :
    (l₁.map Prod.fst).Nodup ∧ (l₂.map Prod.fst).Nodup ∧ p ∉ l₁.map Prod.fst ∧
      p ∉ l₂.map Prod.fst ∧ ∀ r ∈ l₂.map Prod.fst, r ∉ l₁.map Prod.fst := by
  have hnodup := h.nodup
  rw [List.map_append, List.map_cons, List.nodup_append, List.nodup_cons] at hnodup
  obtain ⟨hnodup₁, ⟨hp₂, hnodup₂⟩, hdisj⟩ := hnodup
  exact ⟨hnodup₁, hnodup₂, fun hmem => hdisj p hmem p (by simp) rfl, hp₂,
    fun r hr hr' => hdisj r hr' r (List.mem_cons_of_mem _ hr) rfl⟩

/-- The list as it is found. -/
theorem Represents.cut (h : d.Represents (l₁ ++ (p, x) :: l₂)) :
    d.Cut l₁ p x l₂ (some p) (some p) (some p) (some p) := by
  obtain ⟨hseg₁, hnode, hseg₂⟩ := segment_append.mp h.segment
  refine ⟨h.nodup, hseg₁, hseg₂, hnode, ?_, ?_, ?_⟩
  · rw [h.head_eq, first_append]
    rfl
  · rw [h.tail_eq, last_append]
    rfl
  · rw [h.length_eq, List.length_append, List.length_cons, Nat.add_assoc]

/-- The node before is linked to the node after. -/
theorem Cut.storeNext (h : d.Cut l₁ p x l₂ after before head tail) (value : Option ℕ) :
    ∃ cell, setNext d.cell (last none l₁) value = some cell ∧
      Cut { d with cell := cell } l₁ p x l₂ value before head tail := by
  obtain ⟨hnodup₁, -, hp₁, -, hdisj⟩ := h.disjoint
  obtain ⟨cell, hset, hseg, hout⟩ := h.left.setNext hnodup₁ value
  refine ⟨cell, hset, h.nodup, hseg, h.right.frame fun r hr => hout r (hdisj r hr), ?_, h.head_eq,
    h.tail_eq, h.length_eq⟩
  dsimp only
  rw [hout p hp₁, h.node]

/-- The node after is linked to the node before. -/
theorem Cut.storePrev (h : d.Cut l₁ p x l₂ after before head tail) (value : Option ℕ) :
    ∃ cell, setPrev d.cell (first l₂ none) value = some cell ∧
      Cut { d with cell := cell } l₁ p x l₂ after value head tail := by
  obtain ⟨-, hnodup₂, -, hp₂, hdisj⟩ := h.disjoint
  obtain ⟨cell, hset, hseg, hout⟩ := h.right.setPrev hnodup₂ value
  refine ⟨cell, hset, h.nodup, h.left.frame fun r hr => hout r fun hr' => hdisj r hr' hr, hseg, ?_,
    h.head_eq, h.tail_eq, h.length_eq⟩
  dsimp only
  rw [hout p hp₂, h.node]

/-- With nodes after `p`, the tail is one of them. -/
theorem Cut.tail_ne (h : d.Cut l₁ p x l₂ after before head tail) (hl₂ : l₂ ≠ []) :
    d.tail ≠ some p := by
  obtain ⟨q, hq, hlast⟩ := exists_last hl₂ tail
  rw [h.tail_eq, hlast]
  intro heq
  obtain rfl := Option.some.inj heq
  exact h.disjoint.2.2.2.1 hq

/-- With nodes before `p`, the head is one of them. -/
theorem Cut.head_ne (h : d.Cut l₁ p x l₂ after before head tail) (hl₁ : l₁ ≠ []) :
    d.head ≠ some p := by
  obtain ⟨q, hq, hfirst⟩ := exists_first hl₁ head
  rw [h.head_eq, hfirst]
  intro heq
  obtain rfl := Option.some.inj heq
  exact h.disjoint.2.2.1 hq

/-- The node is freed. -/
theorem Cut.free (h : d.Cut l₁ p x l₂ (first l₂ none) (last none l₁) (first l₂ none)
    (last none l₁)) :
    Chain { d with cell := Function.update d.cell p none } (l₁ ++ l₂) (last none (l₁ ++ l₂))
      (l₁.length + l₂.length + 1) := by
  obtain ⟨hnodup₁, hnodup₂, hp₁, hp₂, hdisj⟩ := h.disjoint
  refine ⟨?_, segment_append.mpr ⟨h.left.frame fun r hr => ?_, h.right.frame fun r hr => ?_⟩,
    ?_, ?_, h.length_eq⟩
  · rw [List.map_append, List.nodup_append]
    exact ⟨hnodup₁, hnodup₂, fun a ha b hb hab => hdisj b hb (hab ▸ ha)⟩
  · exact Function.update_of_ne (by rintro rfl; exact hp₁ hr) _ _
  · exact Function.update_of_ne (by rintro rfl; exact hp₂ hr) _ _
  · rw [first_append]
    exact h.head_eq
  · rw [last_append]
    exact h.tail_eq

/-- **An access of a thread that unlinks a node** leads on to the next stage, the last one to the
list without the node. -/
theorem UnlinkPc.Holds.access (h : pc.Holds d l₁ p x l₂) :
    ∃ next d', d.unlinkAccess p pc = some (next, d') ∧
      next.elim (d'.Represents (l₁ ++ l₂)) fun pc' => pc'.Holds d' l₁ p x l₂ := by
  cases pc with
  | back =>
    refine ⟨_, d, by rw [unlinkAccess, Cut.node h]; rfl, ?_⟩
    dsimp only
    cases hlast : last none l₁ with
    | none =>
      obtain rfl : l₁ = [] := by
        by_contra hl₁
        obtain ⟨q, -, hq⟩ := exists_last hl₁ none
        rw [hlast] at hq
        exact absurd hq (by simp)
      exact ⟨h.nodup, trivial, h.right, h.node, h.head_eq, h.tail_eq, h.length_eq⟩
    | some q => exact ⟨hlast, rfl, h⟩
  | storeNext q value =>
    obtain ⟨hq, rfl, h⟩ := h
    obtain ⟨cell, hset, h'⟩ := h.storeNext (first l₂ none)
    rw [hq] at hset
    exact ⟨some .ahead, _, by rw [unlinkAccess, hset]; rfl, h'⟩
  | ahead =>
    refine ⟨_, d, by rw [unlinkAccess, Cut.node h]; rfl, ?_⟩
    dsimp only
    cases hfirst : first l₂ none with
    | none =>
      obtain rfl : l₂ = [] := by
        by_contra hl₂
        obtain ⟨q, -, hq⟩ := exists_first hl₂ none
        rw [hfirst] at hq
        exact absurd hq (by simp)
      exact ⟨h.nodup, h.left, trivial, h.node, h.head_eq, h.tail_eq, h.length_eq⟩
    | some q => exact ⟨hfirst, rfl, h⟩
  | storePrev q value =>
    obtain ⟨hq, rfl, h⟩ := h
    obtain ⟨cell, hset, h'⟩ := h.storePrev (last none l₁)
    rw [hq] at hset
    exact ⟨some .tail, _, by rw [unlinkAccess, hset]; rfl, h'⟩
  | tail =>
    by_cases hl₂ : l₂ = []
    · have htail : d.tail = some p := by
        rw [Cut.tail_eq h, hl₂]
        rfl
      exact ⟨some (.storeTail (last none l₁)), d,
        by rw [unlinkAccess, if_pos htail, Cut.node h]; rfl, hl₂, rfl, h⟩
    · refine ⟨some .head, d, if_neg (Cut.tail_ne h hl₂), h.nodup, h.left, h.right, h.node,
        h.head_eq, ?_, h.length_eq⟩
      exact h.tail_eq.trans (last_congr hl₂ _ _)
  | storeTail value =>
    obtain ⟨rfl, rfl, h⟩ := h
    exact ⟨_, _, rfl, h.nodup, h.left, h.right, h.node, h.head_eq, rfl, h.length_eq⟩
  | head =>
    by_cases hl₁ : l₁ = []
    · have hhead : d.head = some p := by
        rw [Cut.head_eq h, hl₁]
        rfl
      exact ⟨some (.storeHead (first l₂ none)), d,
        by rw [unlinkAccess, if_pos hhead, Cut.node h]; rfl, hl₁, rfl, h⟩
    · refine ⟨some .free, d, if_neg (Cut.head_ne h hl₁), h.nodup, h.left, h.right, h.node, ?_,
        h.tail_eq, h.length_eq⟩
      exact h.head_eq.trans (first_congr hl₁ _ _)
  | storeHead value =>
    obtain ⟨rfl, rfl, h⟩ := h
    exact ⟨_, _, rfl, h.nodup, h.left, h.right, h.node, rfl, h.tail_eq, h.length_eq⟩
  | free => exact ⟨some .count, _, by rw [unlinkAccess, Cut.node h]; rfl, Cut.free h⟩
  | count => exact ⟨_, d, rfl, by rw [Chain.length_eq h]; rfl, h⟩
  | storeLength n =>
    obtain ⟨rfl, h⟩ := h
    exact ⟨_, _, rfl, h.nodup, h.segment, h.head_eq, h.tail_eq, List.length_append.symm⟩

/-- Whatever is linked already, the list with the node is read, or the list without it. -/
theorem Cut.reads (h : d.Cut l₁ p x l₂ after before head tail)
    (hafter : after = some p ∨ after = first l₂ none)
    (hhead : head = some p ∨ head = first l₂ none) :
    ∃ l', Reads ListNode.next d.cell d.head l' ∧
      (l' = l₁ ++ (p, x) :: l₂ ∨ l' = l₁ ++ l₂) := by
  have hright : Reads ListNode.next d.cell (first l₂ none) l₂ := h.right.reads_next
  have hnode : Reads ListNode.next d.cell (some p) ((p, x) :: l₂) :=
    ⟨rfl, _, h.node, rfl, hright⟩
  -- what is read from either pointer on
  have hread : ∀ node, node = some p ∨ node = first l₂ none →
      ∃ l', Reads ListNode.next d.cell node l' ∧ (l' = (p, x) :: l₂ ∨ l' = l₂) := by
    rintro node (rfl | rfl)
    · exact ⟨_, hnode, Or.inl rfl⟩
    · exact ⟨_, hright, Or.inr rfl⟩
  rw [h.head_eq]
  by_cases hl₁ : l₁ = []
  · subst hl₁
    exact hread head hhead
  · obtain ⟨l', hl', heq⟩ := hread after hafter
    refine ⟨l₁ ++ l', ?_, ?_⟩
    · rw [first_congr hl₁ head after]
      exact h.left.reads_append hl'
    · rcases heq with rfl | rfl
      · exact Or.inl rfl
      · exact Or.inr rfl

/-- In every stage the list with the node is read, or the list without it. -/
theorem UnlinkPc.Holds.reads (h : pc.Holds d l₁ p x l₂) :
    ∃ l', Reads ListNode.next d.cell d.head l' ∧
      (l' = l₁ ++ (p, x) :: l₂ ∨ l' = l₁ ++ l₂) := by
  cases pc with
  | back => exact Cut.reads h (Or.inl rfl) (Or.inl rfl)
  | storeNext q value => exact h.2.2.reads (Or.inl rfl) (Or.inl rfl)
  | ahead => exact Cut.reads h (Or.inr rfl) (Or.inl rfl)
  | storePrev q value => exact h.2.2.reads (Or.inr rfl) (Or.inl rfl)
  | tail => exact Cut.reads h (Or.inr rfl) (Or.inl rfl)
  | storeTail value => exact h.2.2.reads (Or.inr rfl) (Or.inl rfl)
  | head => exact Cut.reads h (Or.inr rfl) (Or.inl rfl)
  | storeHead value => exact h.2.2.reads (Or.inr rfl) (Or.inl rfl)
  | free => exact Cut.reads h (Or.inr rfl) (Or.inr rfl)
  | count => exact ⟨_, Chain.reads h, Or.inr rfl⟩
  | storeLength n => exact ⟨_, h.2.reads, Or.inr rfl⟩

/-- The length is that of the list with the node until the end. -/
theorem UnlinkPc.Holds.length_eq (h : pc.Holds d l₁ p x l₂) :
    d.length = l₁.length + l₂.length + 1 := by
  cases pc with
  | back => exact Cut.length_eq h
  | storeNext q value => exact h.2.2.length_eq
  | ahead => exact Cut.length_eq h
  | storePrev q value => exact h.2.2.length_eq
  | tail => exact Cut.length_eq h
  | storeTail value => exact h.2.2.length_eq
  | head => exact Cut.length_eq h
  | storeHead value => exact h.2.2.length_eq
  | free => exact Cut.length_eq h
  | count => exact Chain.length_eq h
  | storeLength n => exact h.2.length_eq

end Unlink

end LinkedList

end HamiCore
