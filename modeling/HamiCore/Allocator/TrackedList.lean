import HamiCore.Allocator.Async
import HamiCore.Library.LinkedList

/-!
# The lists of tracked memory

`allocator.h` keeps the tracked allocations in doubly linked lists, by three macros: `LIST_INIT`,
`LIST_ADD` and `LIST_REMOVE`.  Whatever the order of insertions and removals, the record and the
nodes describe one chain with the nodes added and not removed, in the order in which they were added
(`trackedList_spec`), and the loops of `remove_chunk`, `remove_chunk_only` and `remove_chunk_async`
do to it what the operations on plain lists do (`removeChunk_represents`,
`removeChunkOnly_represents`, `removeChunkAsync_represents`).  The field `limit`, which `LIST_INIT`
resets too, belongs to the stream-ordered allocator and not to the chain.
-/

namespace HamiCore

/-- A use of one of the macros. -/
inductive ListOp where
  | listInit
  /-- `LIST_ADD` of a node that `INIT_ALLOCATED_LIST_ENTRY` has filled in. -/
  | listAdd (node : ℕ) (entry : AllocatedDeviceMemory)
  | listRemove (node : ℕ)

/-- What the macro does in memory. -/
def ListOp.apply (d : LinkedList AllocatedDeviceMemory) :
    ListOp → Option (LinkedList AllocatedDeviceMemory)
  | .listInit => some d.init
  | .listAdd node entry => d.add node entry
  | .listRemove node => d.remove node

/-- The macros one after the other. -/
def listRun (d : LinkedList AllocatedDeviceMemory) :
    List ListOp → Option (LinkedList AllocatedDeviceMemory)
  | [] => some d
  | op :: ops => (op.apply d).bind fun d' => listRun d' ops

/-- What the macro does to the sequence of nodes added and not removed. -/
def ListOp.nodes (l : List (ℕ × AllocatedDeviceMemory)) :
    ListOp → List (ℕ × AllocatedDeviceMemory)
  | .listInit => []
  | .listAdd node entry => l ++ [(node, entry)]
  | .listRemove node => l.eraseP fun n => n.1 = node

/-- The nodes added and not removed, in the order in which they were added. -/
def addedNodes (ops : List ListOp) : List (ℕ × AllocatedDeviceMemory) := ops.foldl ListOp.nodes []

/-- A node to be added is new memory, and a node to be removed is in the list. -/
def ListOp.Legal (d : LinkedList AllocatedDeviceMemory) (l : List (ℕ × AllocatedDeviceMemory)) :
    ListOp → Prop
  | .listInit => True
  | .listAdd node _ => (d.cell node).isNone = true
  | .listRemove node => node ∈ l.map Prod.fst

/-- Each macro is legal where it is used. -/
def LegalRun (d : LinkedList AllocatedDeviceMemory) (l : List (ℕ × AllocatedDeviceMemory)) :
    List ListOp → Prop
  | [] => True
  | op :: ops => op.Legal d l ∧ ∀ d', op.apply d = some d' → LegalRun d' (op.nodes l) ops

/-- What `remove_chunk`, `remove_chunk_only` and `remove_chunk_async` do to their list: the test of
the length, the loop, and `LIST_REMOVE` of the node it finds, with the entry of that node. -/
def removeFirst (fuel : ℕ) (dptr : UInt64) (d : LinkedList AllocatedDeviceMemory) :
    Option (Option AllocatedDeviceMemory × LinkedList AllocatedDeviceMemory) :=
  if d.length = 0 then some (none, d)
  else
    (LinkedList.search d.cell (fun e => e.address = dptr) fuel d.head).bind fun
      | none => some (none, d)
      | some p => (d.cell p).bind fun val => (d.remove p).map fun d' => (some val.entry, d')

/-! ## The chain -/

section Chain

variable {d : LinkedList AllocatedDeviceMemory} {l : List (ℕ × AllocatedDeviceMemory)}

/-- The step lemma: a legal macro keeps the chain. -/
theorem ListOp.Legal.represents {op : ListOp} (hlegal : op.Legal d l) (h : d.Represents l) :
    ∃ d', op.apply d = some d' ∧ d'.Represents (op.nodes l) := by
  cases op with
  | listInit => exact ⟨d.init, rfl, LinkedList.Represents.init d⟩
  | listAdd node entry => exact h.add (h.fresh hlegal) entry
  | listRemove node =>
    obtain ⟨⟨p, e⟩, hmem, rfl⟩ := List.mem_map.mp hlegal
    obtain ⟨l₁, l₂, rfl⟩ := List.append_of_mem hmem
    have hp : ∀ n ∈ l₁, ¬ decide (n.1 = p) = true := by
      have hnodup := h.nodup
      rw [List.map_append, List.map_cons, List.nodup_append] at hnodup
      intro n hn heq
      exact hnodup.2.2 n.1 (List.mem_map_of_mem hn) p (by simp) (of_decide_eq_true heq)
    have hnodes : ListOp.nodes (l₁ ++ (p, e) :: l₂) (.listRemove p) = l₁ ++ l₂ := by
      rw [ListOp.nodes, List.eraseP_append_right _ hp, List.eraseP_cons_of_pos (by simp)]
    rw [hnodes]
    exact h.remove

/-- The run lemma. -/
theorem LegalRun.represents {ops : List ListOp} (hlegal : LegalRun d l ops)
    (h : d.Represents l) :
    ∃ d', listRun d ops = some d' ∧ d'.Represents (ops.foldl ListOp.nodes l) := by
  induction ops generalizing d l with
  | nil => exact ⟨d, rfl, h⟩
  | cons op ops ih =>
    obtain ⟨d₁, hop, h₁⟩ := hlegal.1.represents h
    obtain ⟨d₂, hrun, h₂⟩ := ih (hlegal.2 d₁ hop) h₁
    exact ⟨d₂, by rw [listRun, hop]; exact hrun, h₂⟩

/-- The loops end, at the first node with the address. -/
theorem removeFirst_of_represents (h : d.Represents l) {fuel : ℕ} (hfuel : l.length ≤ fuel)
    (dptr : UInt64) :
    ∃ d', removeFirst fuel dptr d
        = some ((l.find? fun n => n.2.address = dptr).map Prod.snd, d') ∧
      d'.Represents (l.eraseP fun n => n.2.address = dptr) := by
  have hsearch := h.segment.search (fun e => decide (e.address = dptr)) hfuel
  rw [← h.head_eq] at hsearch
  unfold removeFirst
  by_cases hzero : d.length = 0
  · obtain rfl : l = [] := List.length_eq_zero_iff.mp (h.length_eq ▸ hzero)
    exact ⟨d, if_pos hzero, h⟩
  rw [if_neg hzero, hsearch, Option.bind_some]
  cases hfind : l.find? fun n => n.2.address = dptr with
  | none =>
    refine ⟨d, rfl, ?_⟩
    rwa [List.eraseP_of_forall_not (List.find?_eq_none.mp hfind)]
  | some n =>
    obtain ⟨hn, l₁, l₂, rfl, hbefore⟩ := List.find?_eq_some_iff_append.mp hfind
    obtain ⟨d', hremove, h'⟩ := h.remove
    refine ⟨d', ?_, ?_⟩
    · show (d.cell n.1).bind _ = _
      rw [h.cell_eq, Option.bind_some, hremove]
      rfl
    · have hhead : (n :: l₂).eraseP (fun m => m.2.address = dptr) = l₂ := by
        rw [List.eraseP_cons, hn]
        rfl
      rwa [List.eraseP_append_right _ fun m hm => by simpa using hbefore m hm, hhead]

/-- **The list of tracked nodes is one doubly linked chain.**  After every sequence of macros that
starts with `LIST_INIT` and in which new nodes are added and nodes of the list removed: along `next`
from the head the nodes added and not removed are met in the order in which they were added, along
`prev` from the tail in the opposite order, and the length is their number.  So the search loops
terminate, each with the first node that has the address and without it in the list, if there is
one. -/
theorem trackedList_spec (d₀ : LinkedList AllocatedDeviceMemory) {ops : List ListOp}
    (hlegal : LegalRun d₀.init [] ops) :
    ∃ d, listRun d₀.init ops = some d ∧
      ((addedNodes ops).map Prod.fst).Nodup ∧
      LinkedList.Reads ListNode.next d.cell d.head (addedNodes ops) ∧
      LinkedList.Reads ListNode.prev d.cell d.tail (addedNodes ops).reverse ∧
      d.length = (addedNodes ops).length ∧
      ∀ (dptr : UInt64) (fuel : ℕ), (addedNodes ops).length ≤ fuel →
        LinkedList.search d.cell (fun e => e.address = dptr) fuel d.head
            = some (((addedNodes ops).find? fun n => n.2.address = dptr).map Prod.fst) ∧
          ∃ d', removeFirst fuel dptr d
              = some (((addedNodes ops).find? fun n => n.2.address = dptr).map Prod.snd, d') ∧
            d'.Represents ((addedNodes ops).eraseP fun n => n.2.address = dptr) := by
  obtain ⟨d, hrun, h⟩ := hlegal.represents (LinkedList.Represents.init d₀)
  have hnext := h.segment.reads_next
  have hprev := h.segment.reads_prev
  rw [← h.head_eq] at hnext
  rw [← h.tail_eq] at hprev
  refine ⟨d, hrun, h.nodup, hnext, hprev, h.length_eq, ?_⟩
  intro dptr fuel hfuel
  refine ⟨?_, removeFirst_of_represents h hfuel dptr⟩
  rw [h.head_eq]
  exact h.segment.search _ hfuel

/-- Three nodes added, and the one in the middle removed. -/
theorem trackedList_three :
    ∃ d, listRun LinkedList.empty.init [.listAdd 5 ⟨50, 1, 0⟩, .listAdd 6 ⟨60, 2, 0⟩,
        .listAdd 7 ⟨70, 3, 0⟩, .listRemove 6] = some d ∧
      LinkedList.Reads ListNode.next d.cell d.head [(5, ⟨50, 1, 0⟩), (7, ⟨70, 3, 0⟩)] ∧
      LinkedList.Reads ListNode.prev d.cell d.tail [(7, ⟨70, 3, 0⟩), (5, ⟨50, 1, 0⟩)] ∧
      d.length = 2 := by
  have hlegal : LegalRun LinkedList.empty.init [] [.listAdd 5 ⟨50, 1, 0⟩, .listAdd 6 ⟨60, 2, 0⟩,
      .listAdd 7 ⟨70, 3, 0⟩, .listRemove 6] := by
    refine ⟨rfl, ?_⟩
    rintro d₁ ⟨⟩
    refine ⟨rfl, ?_⟩
    rintro d₂ ⟨⟩
    refine ⟨rfl, ?_⟩
    rintro d₃ ⟨⟩
    exact ⟨show 6 ∈ [5, 6, 7] by decide, fun _ _ => trivial⟩
  obtain ⟨d, hrun, -, hnext, hprev, hlength, -⟩ := trackedList_spec LinkedList.empty hlegal
  exact ⟨d, hrun, hnext, hprev, hlength⟩

end Chain

/-! ## The plain lists -/

section Plain

variable {d : LinkedList AllocatedDeviceMemory} {l : List (ℕ × AllocatedDeviceMemory)} {fuel : ℕ}
  (cudaToNvmlMap : Dev → Dev) (dptr : UInt64)

/-- On the entries alone, a search and a removal. -/
theorem removeFirst_entries (h : d.Represents l) (hfuel : l.length ≤ fuel) :
    ∃ d' l', removeFirst fuel dptr d
        = some ((l.map Prod.snd).find? fun e => e.address = dptr, d') ∧
      d'.Represents l' ∧
      l'.map Prod.snd = (l.map Prod.snd).eraseP fun e => e.address = dptr := by
  obtain ⟨d', hremove, h'⟩ := removeFirst_of_represents h hfuel dptr
  refine ⟨d', _, ?_, h', ?_⟩
  · rw [hremove, List.find?_map]
    rfl
  · rw [List.eraseP_map]
    rfl

/-- A search that finds nothing removes nothing, and one that finds something does not fail the test
of the length. -/
theorem find?_address_cases (l : List AllocatedDeviceMemory) (dptr : UInt64) :
    ((l.find? fun e => e.address = dptr) = none ∧ (l.eraseP fun e => e.address = dptr) = l) ∨
      ∃ e, (l.find? fun e => e.address = dptr) = some e ∧ l.length ≠ 0 := by
  cases hfind : l.find? fun e => e.address = dptr with
  | none => exact Or.inl ⟨rfl, List.eraseP_of_forall_not (List.find?_eq_none.mp hfind)⟩
  | some e =>
    refine Or.inr ⟨e, rfl, fun hzero => ?_⟩
    rw [List.length_eq_zero_iff.mp hzero] at hfind
    cases hfind

/-- **`remove_chunk_only` on the nodes** does what it does on the list of their entries. -/
theorem removeChunkOnly_represents {a : Allocator} (h : d.Represents l)
    (hfuel : l.length ≤ fuel) (hlist : a.deviceOverallocated = l.map Prod.snd) :
    ∃ e d' l' a', removeFirst fuel dptr d = some (e, d') ∧ d'.Represents l' ∧
      removeChunkOnly cudaToNvmlMap dptr a = some (if e.isSome then 0 else -1, a') ∧
      a'.deviceOverallocated = l'.map Prod.snd := by
  obtain ⟨d', l', hremove, h', hl'⟩ := removeFirst_entries dptr h hfuel
  rw [← hlist] at hremove hl'
  unfold removeChunkOnly
  rcases find?_address_cases a.deviceOverallocated dptr with ⟨hfind, hsame⟩ | ⟨e, hfind, hne⟩
  · rw [hfind] at hremove ⊢
    exact ⟨none, d', l', a, hremove, h', ite_self _, by rw [hl', hsame]⟩
  · rw [hfind] at hremove ⊢
    exact ⟨some e, d', l', _, hremove, h', if_neg hne, hl'.symm⟩

/-- **`remove_chunk` on the nodes**, when the mutex is free. -/
theorem removeChunk_represents {a : Allocator} (memFree : Bool) (h : d.Represents l)
    (hfuel : l.length ≤ fuel) (hlist : a.deviceOverallocated = l.map Prod.snd)
    (hfree : a.mutexHeld = false) :
    ∃ e d' l' a', removeFirst fuel dptr d = some (e, d') ∧ d'.Represents l' ∧
      removeChunk cudaToNvmlMap memFree dptr a = some (if e.isSome then 0 else -1, a') ∧
      a'.deviceOverallocated = l'.map Prod.snd := by
  obtain ⟨d', l', hremove, h', hl'⟩ := removeFirst_entries dptr h hfuel
  rw [← hlist] at hremove hl'
  have hlock : a.lock = some { a with mutexHeld := true } := by simp [Allocator.lock, hfree]
  unfold removeChunk
  rw [hlock, Option.bind_some]
  dsimp only
  rcases find?_address_cases a.deviceOverallocated dptr with ⟨hfind, hsame⟩ | ⟨e, hfind, hne⟩
  · have hunlock : ({ a with mutexHeld := true } : Allocator).unlock = a := by
      rw [Allocator.unlock, ← hfree]
    rw [hfind] at hremove ⊢
    refine ⟨none, d', l', a, hremove, h', ?_, by rw [hl', hsame]⟩
    rw [hunlock]
    exact ite_self _
  · rw [hfind] at hremove ⊢
    refine ⟨some e, d', l', _, hremove, h', if_neg hne, ?_⟩
    rw [hl', Allocator.driverFree]
    split_ifs <;> rfl

/-- **`remove_chunk_async` on the nodes** does what it does on the list of their entries. -/
theorem removeChunkAsync_represents {a : AsyncAllocator} (dev : Dev) (h : d.Represents l)
    (hfuel : l.length ≤ fuel) (hlist : a.deviceAllocasync = l.map Prod.snd) :
    ∃ e d' l', removeFirst fuel dptr d = some (e, d') ∧ d'.Represents l' ∧
      (removeChunkAsync cudaToNvmlMap dev dptr a).1 = (if e.isSome then 0 else -1) ∧
      (removeChunkAsync cudaToNvmlMap dev dptr a).2.deviceAllocasync = l'.map Prod.snd := by
  obtain ⟨d', l', hremove, h', hl'⟩ := removeFirst_entries dptr h hfuel
  rw [← hlist] at hremove hl'
  unfold removeChunkAsync
  rcases find?_address_cases a.deviceAllocasync dptr with ⟨hfind, hsame⟩ | ⟨e, hfind, hne⟩
  · rw [hfind] at hremove ⊢
    refine ⟨none, d', l', hremove, h', ?_, ?_⟩
    · exact congrArg Prod.fst (ite_self (-1, a))
    · rw [hl', hsame]
      exact congrArg (fun r => r.2.deviceAllocasync) (ite_self (-1, a))
  · rw [hfind] at hremove ⊢
    refine ⟨some e, d', l', hremove, h', ?_, ?_⟩
    · rw [if_neg hne]
      rfl
    · rw [if_neg hne, hl']

end Plain

end HamiCore
