import HamiCore.Access.Sequential

/-!
# A usage scan during a compaction

`get_gpu_memory_usage` loads `proc_num` once and then walks up the slots; `clear_proc_slot_nolock`
of another process moves the last slot into a hole meanwhile.  Nobody charges or releases, and every
sequence number is even, so the seqlock has nothing to say: a move copies the sequence number along
with the counters, and the reader accepts what it finds.

Whether the sum is right depends on where the reader stands at each move.  A slot that moves down
while the reader is below the hole is met twice, in the hole and as the stale copy its former place
keeps; a slot that is zeroed behind the move while the reader is between the two is not met at all
(`usage_scan_counts_twice` is the first of the two).  Where no move happens at such a place, and no
counter is read between the decision to move and the store that carries it out, the sum lies between
what the live processes hold and what all registered ones do (`usage_scan_bounds`).

The argument gives every slot of the array two weights, one for each bound, that run ahead of the
stores: at the decrement they already are what the table will be once the copy and the zeroing are
through.  `ClearPc.Planned` says how they relate to the table from point to point, `UsagePc.Scans`
what the reader has made of them, and `MoveBenign` is what a decrement needs.
-/

namespace HamiCore

/-! ## The two operations side by side -/

/-- The table, the compacting process's `my_slot` and program counter, and the reader's program
counter. -/
structure ScanState where
  table : SlotTable
  mySlot : Option ℕ
  clear : ClearPc
  usage : UsagePc

/-- Who makes the next access.  The label of the compaction carries what `proc_alive` answers,
should it be asked. -/
inductive ScanLabel where
  | clear (answer : ProcState)
  | usage

/-- One access of `clear_proc_slot_nolock(do_clear)` or of `get_gpu_memory_usage(dev)`. -/
def ScanState.step (doClear : ℤ) (dev : Dev) (s : ScanState) : ScanLabel → Option ScanState
  | .clear answer => (clearAccess doClear answer s.table s.mySlot s.clear).map fun out =>
    { s with table := out.1, mySlot := out.2.1, clear := out.2.2 }
  | .usage => (usageAccess dev s.table s.usage).map fun pc => { s with usage := pc }

/-- Both operations are about to begin, with no charge or release in progress. -/
structure ScanState.Start (s : ScanState) : Prop where
  clear : s.clear = .test ⟨0, 0, 0, 0⟩
  usage : s.usage = .loadNum
  procNum : 0 ≤ s.table.procNum
  even : ∀ i : ℕ, (i : ℤ) < s.table.procNum → (s.table.procs i).seqlock % 2 = 0

section Usage

variable (procAlive : Pid → ProcState) (dev : Dev)

/-- `used[dev].total` of a slot. -/
def ShrregProcSlot.usedOn (x : ShrregProcSlot) : ℕ := (x.used dev).total.toNat

/-- The same, with nothing for a process that has left or may be found dead. -/
def ShrregProcSlot.liveOn (x : ShrregProcSlot) : ℕ :=
  if x.Droppable procAlive then 0 else x.usedOn dev

/-- The sum over all registered slots. -/
def SlotTable.allUsage (m : SlotTable) : ℕ :=
  ∑ j ∈ Finset.range m.procNum.toNat, (m.procs j).usedOn dev

/-- The sum over the registered slots of live processes. -/
def SlotTable.liveUsage (m : SlotTable) : ℕ :=
  ∑ j ∈ Finset.range m.procNum.toNat, (m.procs j).liveOn procAlive dev

/-- The value returned counts every live process of the table once and every other one at most once,
in the 64 bits it has. -/
def SlotTable.CountedBy (m : SlotTable) (v : UInt64) : Prop :=
  ∃ total : ℕ, v = UInt64.ofNat total ∧ m.liveUsage procAlive dev ≤ total ∧ total ≤ m.allUsage dev

/-- `proc_alive` calls nobody dead who is not. -/
def ScanState.Honest (s : ScanState) : ScanLabel → Prop
  | .clear answer =>
    ∀ l pid, s.clear = .probe l pid → answer = .nonalive → procAlive pid = .nonalive
  | .usage => True

end Usage

/-! ## Where the reader may stand -/

/-- The slots at which the reader may go on: behind the second load of the sequence number it
retries or moves to the next slot. -/
def UsagePc.positions : UsagePc → List ℕ
  | .loadSeq1 _ i _ | .loadTotal _ i _ _ => [i]
  | .loadSeq2 _ i _ _ _ => [i, i + 1]
  | _ => []

/-- Slot `i` has its counter decided but not stored while `proc_num`, already decremented, moves to
the hole `h`: it is the hole and the copy, with `todo` ahead of it, has not come to the counter, or
it is the compacting process's own slot, which will be zeroed. -/
def MovePending (dev : Dev) (procNum : ℤ) (mySlot : Option ℕ) (i h : ℕ) (todo : List SlotField) :
    Prop :=
  (i = h ∧ (i : ℤ) ≠ procNum ∧ .used dev .total ∈ todo) ∨ ((i : ℤ) = procNum ∧ mySlot = some i)

/-- The same at each program point of the compaction. -/
def ClearPc.Pending (dev : Dev) (procNum : ℤ) (mySlot : Option ℕ) (i : ℕ) : ClearPc → Prop
  | .loadTail l => MovePending dev procNum mySlot i l.slot copyFields
  | .copyLoad l _ f fs => MovePending dev procNum mySlot i l.slot (f :: fs)
  | .copyStore l _ f fs _ => MovePending dev procNum mySlot i l.slot (f :: fs)
  | .compare l => MovePending dev procNum mySlot i l.slot []
  | .zeroLoad _ f fs | .zeroStore _ _ f fs => (i : ℤ) = procNum ∧ .used dev .total ∈ f :: fs
  | _ => False

/-- **Compaction and reader keep out of each other's way.**  A decrement is taken where the move is
benign for the reader, and no counter is read that is decided but not stored. -/
def ScanState.InStep (dev : Dev) (s : ScanState) : ScanLabel → Prop
  | .clear _ => ∀ l, s.clear = .decrement l → ∀ k : ℕ, s.table.procNum = k + 1 →
      ∀ i ∈ s.usage.positions,
        MoveBenign i ((s.table.procs k).usedOn dev) l.slot k (s.mySlot = some k)
  | .usage => ∀ num i total seq, s.usage = .loadTotal num i total seq →
      ¬ s.clear.Pending dev s.table.procNum s.mySlot i

/-! ## What the reader has made of the weights -/

section Scans

variable (lower upper n : ℕ) (f g : ℕ → ℕ)

/-- The reader is about to add slot `i` of `bound` and has summed up to `total`.  With the weights
`g` still ahead of it, it gets to `lower` at least; with the weights `f`, to `upper` at most. -/
def Summed (bound i : ℕ) (total : UInt64) : Prop :=
  ∃ sum : ℕ, total = UInt64.ofNat sum ∧ lower ≤ sum + ∑ j ∈ Finset.Ico i bound, g j ∧
    sum + ∑ j ∈ Finset.Ico i bound, f j ≤ upper

/-- The same at each program point of the reader, whose bound is a former `proc_num`. -/
def UsagePc.Scans : UsagePc → Prop
  | .loadNum => True
  | .loadSeq1 procNum i total | .loadTotal procNum i total _ =>
    ∃ bound : ℕ, procNum = bound ∧ n ≤ bound ∧ i < bound ∧ Summed lower upper f g bound i total
  | .loadSeq2 procNum i total _ procUsage =>
    ∃ bound : ℕ, procNum = bound ∧ n ≤ bound ∧ i < bound ∧ Summed lower upper f g bound i total ∧
      Summed lower upper f g bound (i + 1) (total + procUsage)
  | .returned total => ∃ sum : ℕ, total = UInt64.ofNat sum ∧ lower ≤ sum ∧ sum ≤ upper

variable {lower upper n f g} {bound i : ℕ} {total procUsage : UInt64}

/-- Adding the weight of the next slot. -/
theorem Summed.add (h : Summed lower upper f g bound i total) (hi : i < bound) (hgf : g i ≤ f i)
    (hread : procUsage.toNat = f i) :
    Summed lower upper f g bound (i + 1) (total + procUsage) := by
  obtain ⟨sum, rfl, hlower, hupper⟩ := h
  rw [Finset.sum_eq_sum_Ico_succ_bot hi] at hlower hupper
  refine ⟨sum + f i, ?_, by omega, by omega⟩
  rw [← hread, UInt64.ofNat_add, UInt64.ofNat_toNat]

/-- Back at the head of the loop. -/
theorem Summed.next (h : Summed lower upper f g bound i total) (hn : n ≤ bound) (hi : i ≤ bound) :
    (UsagePc.next bound i total).Scans lower upper n f g := by
  unfold UsagePc.next
  by_cases hlt : (i : ℤ) < bound
  · rw [if_pos hlt]
    exact ⟨bound, rfl, hn, by exact_mod_cast hlt, h⟩
  · rw [if_neg hlt]
    obtain ⟨sum, rfl, hlower, hupper⟩ := h
    obtain rfl : i = bound := by omega
    rw [Finset.Ico_self, Finset.sum_empty] at hlower hupper
    refine ⟨sum, ?_, by omega, by omega⟩
    rw [initialOffset, add_zero]

/-- **One access of the reader**, where the counter it loads is the weight of its slot. -/
theorem UsagePc.Scans.access {dev : Dev} {m : SlotTable} {pc pc' : UsagePc}
    (h : pc.Scans lower upper n f g) (hnum : m.procNum = n) (hgf : ∀ j, g j ≤ f j)
    (hlower : lower ≤ ∑ j ∈ Finset.range n, g j) (hupper : ∑ j ∈ Finset.range n, f j ≤ upper)
    (hread : ∀ num i total seq, pc = .loadTotal num i total seq →
      f i = (m.procs i).usedOn dev)
    (hstep : usageAccess dev m pc = some pc') : pc'.Scans lower upper n f g := by
  cases pc with
  | loadNum =>
    cases hstep
    rw [hnum]
    refine Summed.next ⟨0, rfl, ?_, ?_⟩ le_rfl (Nat.zero_le n)
    · rwa [zero_add, ← Finset.range_eq_Ico]
    · rwa [zero_add, ← Finset.range_eq_Ico]
  | loadSeq1 num i total =>
    simp only [usageAccess] at hstep
    split_ifs at hstep <;> cases hstep <;> exact h
  | loadTotal num i total seq =>
    cases hstep
    obtain ⟨bound, hb, hn, hi, hsum⟩ := h
    exact ⟨bound, hb, hn, hi, hsum, hsum.add hi (hgf i) (hread num i total seq rfl).symm⟩
  | loadSeq2 num i total seq procUsage =>
    obtain ⟨bound, rfl, hn, hi, hsum, hsum'⟩ := h
    simp only [usageAccess] at hstep
    split_ifs at hstep <;> cases hstep
    · exact hsum'.next hn hi
    · exact ⟨bound, rfl, hn, hi, hsum⟩
  | returned total => exact absurd hstep (by simp [usageAccess])

/-- **A move, as the reader sees it.**  Where it is benign, and the entry removed had no lower
weight, the bounds stand. -/
theorem UsagePc.Scans.move {pc : UsagePc} {h k : ℕ} {cleared : Prop} [Decidable cleared]
    (hscan : pc.Scans lower upper (k + 1) f g) (hhk : h ≤ k) (hgf : ∀ j, g j ≤ f j) (hh : g h = 0)
    (hben : ∀ i ∈ pc.positions, MoveBenign i (f k) h k cleared) :
    pc.Scans lower upper k (moveWeight f h k cleared) (moveWeight g h k cleared) := by
  have hsum : ∀ bound i total, k < bound → i ∈ pc.positions → Summed lower upper f g bound i total →
      Summed lower upper (moveWeight f h k cleared) (moveWeight g h k cleared) bound i total := by
    rintro bound i total hkb hi ⟨sum, htotal, hlower, hupper⟩
    have hbenf := hben i hi
    have hbeng : MoveBenign i (g k) h k cleared :=
      hbenf.imp fun hfk => Nat.eq_zero_of_le_zero (hfk ▸ hgf k)
    refine ⟨sum, htotal, ?_, ?_⟩
    · rwa [hbeng.sum_Ico_eq hhk hkb hh]
    · have hle := hbenf.sum_Ico_le hhk hkb
      omega
  cases pc with
  | loadNum => trivial
  | loadSeq1 num i total =>
    obtain ⟨bound, hb, hn, hi, hacc⟩ := hscan
    exact ⟨bound, hb, by omega, hi, hsum bound i total hn List.mem_cons_self hacc⟩
  | loadTotal num i total seq =>
    obtain ⟨bound, hb, hn, hi, hacc⟩ := hscan
    exact ⟨bound, hb, by omega, hi, hsum bound i total hn List.mem_cons_self hacc⟩
  | loadSeq2 num i total seq procUsage =>
    obtain ⟨bound, hb, hn, hi, hacc, hacc'⟩ := hscan
    refine ⟨bound, hb, by omega, hi, hsum bound i total hn List.mem_cons_self hacc, ?_⟩
    exact hsum bound (i + 1) _ hn (List.mem_cons_of_mem i List.mem_cons_self) hacc'
  | returned total => exact hscan

end Scans

/-! ## The weights that run ahead of the table -/

section Planned

variable (procAlive : Pid → ProcState) (dev : Dev) (procs : ℕ → ShrregProcSlot) (my : Option ℕ)
  (n : ℕ) (f g : ℕ → ℕ)

/-- Outside a removal the upper weights are the counters.  The lower weights are those of the live
processes; a stale copy past `proc_num` may have any. -/
structure AtRest : Prop where
  upper : ∀ j, f j = (procs j).usedOn dev
  lower : ∀ j < n, g j = (procs j).liveOn procAlive dev

/-- Between the decrement and the comparison with `my_slot` the weights are those of the finished
removal, and copying the fields `todo` will finish the copy. -/
structure Moving (h : ℕ) (todo : List SlotField) : Prop where
  hole_le : h ≤ n
  upper : ∀ j, f j = moveWeight (fun j => (procs j).usedOn dev) h n (my = some n) j
  lower : ∀ j < n, g j = moveWeight (fun j => (procs j).liveOn procAlive dev) h n (my = some n) j
  rest : copyInto (procs n) todo (procs h) = procs n

/-- While the vacated slot is zeroed, with the fields `todo` ahead, it already has no weight. -/
structure Vacating (todo : List SlotField) : Prop where
  upper : ∀ j, j ≠ n → f j = (procs j).usedOn dev
  vacated : f n = 0
  stored : .used dev .total ∉ todo → (procs n).usedOn dev = 0
  lower : ∀ j < n, g j = (procs j).liveOn procAlive dev

/-- How the weights relate to the table at each program point of the compaction. -/
def ClearPc.Planned : ClearPc → Prop
  | .test _ | .returned _ => AtRest procAlive dev procs n f g
  | .loadPid l => AtRest procAlive dev procs n f g ∧ l.slot < n
  | .probe l pid => AtRest procAlive dev procs n f g ∧ l.slot < n ∧ pid = (procs l.slot).pid
  | .decrement l =>
    AtRest procAlive dev procs n f g ∧ l.slot < n ∧ (procs l.slot).Droppable procAlive
  | .loadTail l => Moving procAlive dev procs my n f g l.slot copyFields
  | .copyLoad l tail fd fs => Moving procAlive dev procs my n f g l.slot (fd :: fs) ∧ tail = n
  | .copyStore l tail fd fs v =>
    Moving procAlive dev procs my n f g l.slot (fd :: fs) ∧ tail = n ∧ v = fd.get (procs n)
  | .compare l => Moving procAlive dev procs my n f g l.slot []
  | .zeroLoad _ fd fs => Vacating procAlive dev procs n f g (fd :: fs)
  | .zeroStore _ i fd fs => Vacating procAlive dev procs n f g (fd :: fs) ∧ i = n

variable {procAlive dev procs my n f g} {h : ℕ} {todo : List SlotField}

/-- A finished copy, in any weight of slots: away from the vacated slot the plan is the table. -/
theorem moveWeight_of_copied {w : ShrregProcSlot → ℕ} {cleared : Prop} [Decidable cleared] {j : ℕ}
    (hcopy : w (procs h) = w (procs n)) (hj : j ≠ n) :
    moveWeight (fun j => w (procs j)) h n cleared j = w (procs j) := by
  rw [moveWeight_of_ne hj]
  by_cases hjh : j = h
  · rw [hjh, Equiv.swap_apply_left, hcopy]
  · rw [Equiv.swap_apply_of_ne_of_ne hjh hj]

/-- Once the copy has passed the counter, the hole holds the counter of the last slot. -/
theorem Moving.usedOn_hole (hm : Moving procAlive dev procs my n f g h todo)
    (htodo : .used dev .total ∉ todo) : (procs h).usedOn dev = (procs n).usedOn dev := by
  have hget := get_copyInto (procs n) (procs h) todo (.used dev .total)
  rw [hm.rest, if_neg htodo] at hget
  exact (congrArg UInt64.toNat hget).symm

/-- **A counter that is not pending is the weight of its slot.** -/
theorem Moving.read {i : ℕ} (hm : Moving procAlive dev procs my n f g h todo)
    (hpend : ¬ MovePending dev n my i h todo) : f i = (procs i).usedOn dev := by
  rw [hm.upper]
  by_cases hin : i = n
  · subst hin
    exact moveWeight_stale fun hmy => hpend (Or.inr ⟨rfl, hmy⟩)
  · by_cases hih : i = h
    · subst hih
      have htodo : .used dev .total ∉ todo := fun hmem =>
        hpend (Or.inl ⟨rfl, fun hcast => hin (Nat.cast_inj.mp hcast), hmem⟩)
      exact moveWeight_of_copied (w := fun x => x.usedOn dev) (hm.usedOn_hole htodo) hin
    · rw [moveWeight_of_ne hin, Equiv.swap_apply_of_ne_of_ne hih hin]

theorem ClearPc.Planned.read {pc : ClearPc} {i : ℕ}
    (hplan : pc.Planned procAlive dev procs my n f g) (hpend : ¬ pc.Pending dev n my i) :
    f i = (procs i).usedOn dev := by
  have hclear : ∀ fs, Vacating procAlive dev procs n f g fs →
      ¬ ((i : ℤ) = n ∧ .used dev .total ∈ fs) → f i = (procs i).usedOn dev := by
    intro fs hc hnot
    by_cases hin : i = n
    · subst hin
      rw [hc.vacated, hc.stored fun hmem => hnot ⟨rfl, hmem⟩]
    · exact hc.upper i hin
  cases pc with
  | test l => exact hplan.upper i
  | loadPid l => exact hplan.1.upper i
  | probe l pid => exact hplan.1.upper i
  | decrement l => exact hplan.1.upper i
  | loadTail l => exact Moving.read hplan hpend
  | copyLoad l tail fd fs => exact hplan.1.read hpend
  | copyStore l tail fd fs v => exact hplan.1.read hpend
  | compare l => exact Moving.read hplan hpend
  | zeroLoad l fd fs => exact hclear _ hplan hpend
  | zeroStore l j fd fs => exact hclear _ hplan.1 hpend
  | returned res => exact hplan.upper i

/-- **The decrement** is where the plan is made. -/
theorem AtRest.moving {k : ℕ} (hrest : AtRest procAlive dev procs (k + 1) f g) (hh : h < k + 1) :
    Moving procAlive dev procs my k (moveWeight f h k (my = some k))
      (moveWeight g h k (my = some k)) h copyFields := by
  refine ⟨Nat.le_of_lt_succ hh, fun j => ?_, fun j hj => ?_, copyInto_copyFields _ _⟩
  · exact moveWeight_congr (hrest.upper k) (fun i _ => hrest.upper i) j
  · rw [moveWeight_of_ne hj.ne, moveWeight_of_ne hj.ne]
    refine hrest.lower _ ?_
    by_cases hjh : j = h
    · rw [hjh, Equiv.swap_apply_left]
      exact Nat.lt_succ_self k
    · rw [Equiv.swap_apply_of_ne_of_ne hjh hj.ne]
      exact hj.trans (Nat.lt_succ_self k)

/-- One store of the copy. -/
theorem Moving.copyStore {m : SlotTable} {fd : SlotField}
    (hm : Moving procAlive dev m.procs my n f g h (fd :: todo)) :
    Moving procAlive dev (m.setField h fd (fd.get (m.procs n))).procs my n f g h todo := by
  have hn : (m.setField h fd (fd.get (m.procs n))).procs n = m.procs n :=
    SlotTable.setField_get m h n fd
  have hne : ∀ j, j ≠ h → (m.setField h fd (fd.get (m.procs n))).procs j = m.procs j :=
    fun j hj => SlotTable.setField_procs_of_ne m hj fd _
  refine ⟨hm.hole_le, fun j => ?_, fun j hj => ?_, ?_⟩
  · rw [hm.upper]
    exact moveWeight_congr (by rw [hn]) (fun i hi => by rw [hne i hi]) j
  · rw [hm.lower j hj]
    exact moveWeight_congr (by rw [hn]) (fun i hi => by rw [hne i hi]) j
  · rw [hn, SlotTable.setField_procs_self]
    exact hm.rest

/-- A finished copy: away from the vacated slot the weights are those of the table. -/
theorem Moving.copied (hm : Moving procAlive dev procs my n f g h []) :
    (∀ j, j ≠ n → f j = (procs j).usedOn dev) ∧ ∀ j < n, g j = (procs j).liveOn procAlive dev := by
  have hcopy : procs h = procs n := hm.rest
  constructor
  · intro j hj
    rw [hm.upper]
    exact moveWeight_of_copied (w := fun x => x.usedOn dev) (by rw [hcopy]) hj
  · intro j hj
    rw [hm.lower j hj]
    exact moveWeight_of_copied (w := fun x => x.liveOn procAlive dev) (by rw [hcopy]) hj.ne

/-- The vacated slot is somebody else's: it keeps a stale copy, and the removal is over. -/
theorem Moving.atRest (hm : Moving procAlive dev procs my n f g h []) (hmy : my ≠ some n) :
    AtRest procAlive dev procs n f g := by
  obtain ⟨hupper, hlower⟩ := hm.copied
  refine ⟨fun j => ?_, hlower⟩
  by_cases hj : j = n
  · rw [hj, hm.upper]
    exact moveWeight_stale hmy
  · exact hupper j hj

/-- The vacated slot is the compacting process's own: the zeroing begins. -/
theorem Moving.vacating (hm : Moving procAlive dev procs my n f g h []) (hmy : my = some n) :
    Vacating procAlive dev procs n f g zeroFields := by
  obtain ⟨hupper, hlower⟩ := hm.copied
  refine ⟨hupper, ?_, fun hnot => absurd ?_ hnot, hlower⟩
  · rw [hm.upper]
    exact moveWeight_cleared hmy
  · simp [zeroFields, zeroDeviceFields]

/-- One store of the zeroing. -/
theorem Vacating.zeroStore {m : SlotTable} {fd : SlotField}
    (hv : Vacating procAlive dev m.procs n f g (fd :: todo)) :
    Vacating procAlive dev (m.setField n fd fd.zero).procs n f g todo := by
  have hne : ∀ j, j ≠ n → (m.setField n fd fd.zero).procs j = m.procs j :=
    fun j hj => SlotTable.setField_procs_of_ne m hj fd _
  refine ⟨fun j hj => ?_, hv.vacated, fun hnot => ?_, fun j hj => ?_⟩
  · rw [hne j hj]
    exact hv.upper j hj
  · show ((SlotField.used dev .total).get _).toNat = 0
    rw [SlotTable.setField_procs_self]
    by_cases hfd : .used dev .total = fd
    · subst hfd
      rw [SlotField.get_set_self]
      rfl
    · rw [SlotField.get_set_of_ne hfd]
      exact hv.stored fun hmem => (List.mem_cons.mp hmem).elim hfd hnot
  · rw [hne j hj.ne]
    exact hv.lower j hj

theorem Vacating.atRest (hv : Vacating procAlive dev procs n f g []) :
    AtRest procAlive dev procs n f g := by
  refine ⟨fun j => ?_, hv.lower⟩
  by_cases hj : j = n
  · rw [hj, hv.vacated, hv.stored List.not_mem_nil]
  · exact hv.upper j hj

theorem Moving.planned {l : ClearLocals} (hm : Moving procAlive dev procs my n f g l.slot todo) :
    (ClearPc.copying l n todo).Planned procAlive dev procs my n f g := by
  cases todo with
  | nil => exact hm
  | cons fd fs => exact ⟨hm, rfl⟩

theorem Vacating.planned {l : ClearLocals} (hv : Vacating procAlive dev procs n f g todo) :
    (ClearPc.zeroing l todo).Planned procAlive dev procs my n f g := by
  cases todo with
  | nil => exact hv.atRest
  | cons fd fs => exact hv

/-- **One access of the compaction**, the decrement apart, leaves `proc_num` and the weights as they
are. -/
theorem ClearPc.Planned.access {doClear : ℤ} {answer : ProcState} {m m' : SlotTable}
    {my' : Option ℕ} {pc pc' : ClearPc} (hplan : pc.Planned procAlive dev m.procs my n f g)
    (hnum : m.procNum = n)
    (hhonest : ∀ l pid, pc = .probe l pid → answer = .nonalive → procAlive pid = .nonalive)
    (hdec : ∀ l, pc ≠ .decrement l)
    (hstep : clearAccess doClear answer m my pc = some (m', my', pc')) :
    m'.procNum = n ∧ pc'.Planned procAlive dev m'.procs my' n f g := by
  cases pc with
  | test l =>
    cases hstep
    refine ⟨hnum, ?_⟩
    split_ifs with hlt
    · rw [hnum] at hlt
      exact ⟨hplan, by exact_mod_cast hlt⟩
    · exact hplan
  | loadPid l =>
    obtain ⟨hrest, hl⟩ := hplan
    simp only [clearAccess] at hstep
    split_ifs at hstep with h0 hask <;> cases hstep
    · exact ⟨hnum, hrest, hl, Or.inl h0⟩
    · exact ⟨hnum, hrest, hl, rfl⟩
    · exact ⟨hnum, hrest⟩
  | probe l pid =>
    obtain ⟨hrest, hl, rfl⟩ := hplan
    simp only [clearAccess] at hstep
    split_ifs at hstep with hdead <;> cases hstep
    · exact ⟨hnum, hrest, hl, Or.inr (hhonest l _ rfl hdead)⟩
    · exact ⟨hnum, hrest⟩
  | decrement l => exact absurd rfl (hdec l)
  | loadTail l =>
    obtain ⟨tail, htail, hout⟩ := Option.map_eq_some_iff.mp hstep
    obtain rfl : tail = n := Nat.cast_inj.mp ((Int.mem_toNat?.mp htail).symm.trans hnum)
    cases hout
    exact ⟨hnum, Moving.planned hplan⟩
  | copyLoad l tail fd fs =>
    obtain ⟨hm, rfl⟩ := hplan
    cases hstep
    exact ⟨hnum, hm, rfl, rfl⟩
  | copyStore l tail fd fs v =>
    obtain ⟨hm, rfl, rfl⟩ := hplan
    cases hstep
    exact ⟨hnum, hm.copyStore.planned⟩
  | compare l =>
    simp only [clearAccess] at hstep
    split_ifs at hstep with hown <;> cases hstep
    · obtain ⟨i, hi, hin⟩ := hown
      obtain rfl : i = n := Nat.cast_inj.mp (hin.trans hnum)
      exact ⟨hnum, (Moving.vacating hplan hi).planned⟩
    · exact ⟨hnum, Moving.atRest hplan fun hmy => hown ⟨n, hmy, hnum.symm⟩⟩
  | zeroLoad l fd fs =>
    obtain ⟨i, hi, hout⟩ := Option.map_eq_some_iff.mp hstep
    obtain rfl : i = n := Nat.cast_inj.mp ((Int.mem_toNat?.mp hi).symm.trans hnum)
    cases hout
    exact ⟨hnum, hplan, rfl⟩
  | zeroStore l i fd fs =>
    obtain ⟨hv, rfl⟩ := hplan
    cases hstep
    exact ⟨hnum, hv.zeroStore.planned⟩
  | returned res => exact absurd hstep (by simp [clearAccess])

end Planned

/-! ## Whole runs -/

section Run

variable (procAlive : Pid → ProcState) (dev : Dev) (lower upper : ℕ)

/-- A plan for the state: the registered part of the weights keeps the bounds, the compaction
carries the weights out and the reader adds them up. -/
structure ScanPlan (s : ScanState) (n : ℕ) (f g : ℕ → ℕ) : Prop where
  procNum : s.table.procNum = n
  le : ∀ j, g j ≤ f j
  lower_le : lower ≤ ∑ j ∈ Finset.range n, g j
  le_upper : ∑ j ∈ Finset.range n, f j ≤ upper
  planned : s.clear.Planned procAlive dev s.table.procs s.mySlot n f g
  scans : s.usage.Scans lower upper n f g

variable {procAlive dev lower upper} {doClear : ℤ} {s s' : ScanState} {n : ℕ} {f g : ℕ → ℕ}

/-- **The decrement**: the removed slot gives up its weight, and the last one takes its place. -/
theorem ScanPlan.decrement {l : ClearLocals}
    (hplan : ScanPlan procAlive dev lower upper s n f g) (hclear : s.clear = .decrement l)
    (hben : ∀ k : ℕ, s.table.procNum = k + 1 → ∀ i ∈ s.usage.positions,
      MoveBenign i ((s.table.procs k).usedOn dev) l.slot k (s.mySlot = some k)) :
    ∃ k, ScanPlan procAlive dev lower upper
      { s with table := { s.table with procNum := s.table.procNum - 1 }, clear := .loadTail l } k
      (moveWeight f l.slot k (s.mySlot = some k)) (moveWeight g l.slot k (s.mySlot = some k)) := by
  have hstart := hplan.planned
  rw [hclear] at hstart
  obtain ⟨hrest, hlt, hdrop⟩ := hstart
  obtain ⟨k, rfl⟩ : ∃ k, n = k + 1 := Nat.exists_eq_succ_of_ne_zero (by omega)
  have hslot : l.slot ≤ k := Nat.le_of_lt_succ hlt
  have hzero : g l.slot = 0 := by
    rw [hrest.lower l.slot hlt]
    exact if_pos hdrop
  have hnum : s.table.procNum = (k : ℤ) + 1 := by
    rw [hplan.procNum, Nat.cast_succ]
  have hben' : ∀ i ∈ s.usage.positions, MoveBenign i (f k) l.slot k (s.mySlot = some k) := by
    intro i hi
    rw [hrest.upper k]
    exact hben k hnum i hi
  refine ⟨k, ?_, moveWeight_mono hplan.le, ?_, ?_, hrest.moving hlt,
    hplan.scans.move hslot hplan.le hzero hben'⟩
  · show s.table.procNum - 1 = k
    rw [hnum, add_sub_cancel_right]
  · have hsum : ∑ j ∈ Finset.range k, moveWeight g l.slot k (s.mySlot = some k) j + g l.slot =
        ∑ j ∈ Finset.range (k + 1), g j := sum_range_moveWeight hslot
    have hlower := hplan.lower_le
    omega
  · have hsum : ∑ j ∈ Finset.range k, moveWeight f l.slot k (s.mySlot = some k) j + f l.slot =
        ∑ j ∈ Finset.range (k + 1), f j := sum_range_moveWeight hslot
    have hupper := hplan.le_upper
    omega

/-- **One access of either side**, in step with the other, leads from a plan to a plan. -/
theorem ScanPlan.step {a : ScanLabel} (hplan : ScanPlan procAlive dev lower upper s n f g)
    (hhonest : s.Honest procAlive a) (hin : s.InStep dev a)
    (hstep : s.step doClear dev a = some s') :
    ∃ n f g, ScanPlan procAlive dev lower upper s' n f g := by
  cases a with
  | clear answer =>
    obtain ⟨⟨m', my', pc'⟩, hout, rfl⟩ := Option.map_eq_some_iff.mp hstep
    by_cases hdec : ∃ l, s.clear = .decrement l
    · obtain ⟨l, hl⟩ := hdec
      rw [hl] at hout
      cases hout
      obtain ⟨k, hk⟩ := hplan.decrement hl (hin l hl)
      exact ⟨k, _, _, hk⟩
    · obtain ⟨hnum, hplanned⟩ := hplan.planned.access hplan.procNum hhonest
        (fun l hl => hdec ⟨l, hl⟩) hout
      exact ⟨n, f, g, hnum, hplan.le, hplan.lower_le, hplan.le_upper, hplanned, hplan.scans⟩
  | usage =>
    obtain ⟨pc', hout, rfl⟩ := Option.map_eq_some_iff.mp hstep
    refine ⟨n, f, g, hplan.procNum, hplan.le, hplan.lower_le, hplan.le_upper, hplan.planned, ?_⟩
    refine hplan.scans.access hplan.procNum hplan.le hplan.lower_le hplan.le_upper ?_ hout
    intro num i total seq hpc
    have hpend := hin num i total seq hpc
    rw [hplan.procNum] at hpend
    exact hplan.planned.read hpend

/-- At the start the weights are the counters and those of the live processes. -/
theorem ScanState.Start.scanPlan (h : s.Start) :
    ScanPlan procAlive dev (s.table.liveUsage procAlive dev) (s.table.allUsage dev) s
      s.table.procNum.toNat (fun j => (s.table.procs j).usedOn dev)
      (fun j => (s.table.procs j).liveOn procAlive dev) := by
  refine ⟨(Int.toNat_of_nonneg h.procNum).symm, fun j => ?_, le_rfl, le_rfl, ?_, ?_⟩
  · show (if _ then 0 else _) ≤ _
    split_ifs
    · exact Nat.zero_le _
    · exact le_rfl
  · rw [h.clear]
    exact ⟨fun _ => rfl, fun _ _ => rfl⟩
  · rw [h.usage]
    trivial

end Run


/-! ## Runs of one side while the other stands still -/

section Alone

variable {procAlive : Pid → ProcState} {doClear : ℤ} {dev : Dev}

/-- The compaction runs on while the reader stands at `pc`. -/
theorem ClearRun.beside {atDecrement : SlotTable → ClearLocals → Prop} {x y : ClearConfig}
    (h : ClearRun procAlive atDecrement doClear x y) (pc : UsagePc)
    {ok : ScanState → ScanLabel → Prop}
    (hok : ∀ (z : ClearConfig) (answer : ProcState),
      z.2.2.Allowed procAlive atDecrement z.1 answer →
        ok ⟨z.1, z.2.1, z.2.2, pc⟩ (.clear answer)) :
    GuardedRun (ScanState.step doClear dev) ok ⟨x.1, x.2.1, x.2.2, pc⟩
      ⟨y.1, y.2.1, y.2.2, pc⟩ := by
  refine h.map (fun z => (⟨z.1, z.2.1, z.2.2, pc⟩ : ScanState)) ScanLabel.clear hok
    fun z answer z' hz => ?_
  show (clearAccess doClear answer z.1 z.2.1 z.2.2).map _ = _
  rw [show clearAccess doClear answer z.1 z.2.1 z.2.2 = some z' from hz]
  rfl

/-- The reader runs on while the compaction stands at `pc`. -/
theorem UsageRun.beside {m : SlotTable} {x y : UsagePc} (h : UsageRun dev m x y) (my : Option ℕ)
    (pc : ClearPc) {ok : ScanState → ScanLabel → Prop} (hok : ∀ z, ok ⟨m, my, pc, z⟩ .usage) :
    GuardedRun (ScanState.step doClear dev) ok ⟨m, my, pc, x⟩ ⟨m, my, pc, y⟩ := by
  refine h.map (fun z => (⟨m, my, pc, z⟩ : ScanState)) (fun _ => ScanLabel.usage)
    (fun z _ _ => hok z) fun z _ z' hz => ?_
  show (usageAccess dev m z).map _ = _
  rw [show usageAccess dev m z = some z' from hz]
  rfl

/-- A compaction whose `proc_alive` answers as it should is honest. -/
theorem ClearPc.Allowed.honest {atDecrement : SlotTable → ClearLocals → Prop} {m : SlotTable}
    {my : Option ℕ} {pc : ClearPc} {answer : ProcState}
    (h : pc.Allowed procAlive atDecrement m answer) (r : UsagePc) :
    ScanState.Honest procAlive ⟨m, my, pc, r⟩ (.clear answer) := by
  rintro l pid rfl hdead
  rw [← hdead]
  exact Eq.symm h

/-- Away from its decrements a compaction is in step with any reader. -/
theorem ClearPc.Allowed.inStep {m : SlotTable} {my : Option ℕ} {pc : ClearPc} {answer : ProcState}
    (h : pc.Allowed procAlive (fun _ _ => False) m answer) (r : UsagePc) :
    ScanState.InStep dev ⟨m, my, pc, r⟩ (.clear answer) := by
  rintro l rfl
  exact h.elim

end Alone

/-! ## Three slots -/

/-- A slot with the given pid and `total` on every device. -/
def scanSlot (pid : Pid) (total : UInt64) : ShrregProcSlot :=
  { ShrregProcSlot.blank with pid := pid, used := fun _ => ⟨0, 0, 0, 0, total⟩ }

/-- Process `2` on a region with three registered slots: one whose process has left, its own, and
that of process `3`. -/
def scanRegion : RegionInfo where
  pid := 2
  mySlot := some 1
  sharedRegion :=
    { limit := fun _ => 0
      procs := fun
        | 1 => scanSlot 2 20
        | 2 => scanSlot 3 50
        | _ => .blank
      procNum := 3 }

/-- Both operations about to begin on it. -/
def scanStart : ScanState := ⟨scanRegion.sharedRegion.table, some 1, .test ⟨0, 0, 0, 0⟩, .loadNum⟩

theorem scanStart_start : scanStart.Start := by
  refine ⟨rfl, rfl, by decide, fun i _ => ?_⟩
  match i with
  | 0 | 1 | 2 => rfl
  | i + 3 => rfl

/-! ## The sum -/

/-- **A usage scan during a compaction.**  In every interleaving, access by access, in which the two
keep in step and `proc_alive` calls nobody dead who is not, the value `get_gpu_memory_usage` returns
counts every live process once and every other registered one at most once. -/
theorem usage_scan_bounds {procAlive : Pid → ProcState} {dev : Dev} {doClear : ℤ} {s s' : ScanState}
    (hstart : s.Start)
    (hrun : GuardedRun (ScanState.step doClear dev)
      (fun t a => t.Honest procAlive a ∧ t.InStep dev a) s s')
    {v : UInt64} (hv : s'.usage = .returned v) : s.table.CountedBy procAlive dev v := by
  have hinv : ∃ n f g, ScanPlan procAlive dev (s.table.liveUsage procAlive dev)
      (s.table.allUsage dev) s' n f g := by
    refine hrun.invariant (P := fun t => ∃ n f g, ScanPlan procAlive dev
      (s.table.liveUsage procAlive dev) (s.table.allUsage dev) t n f g) ?_
      ⟨_, _, _, hstart.scanPlan⟩
    rintro t a t' ⟨n, f, g, hplan⟩ ⟨hhonest, hin⟩ hstep
    exact hplan.step hhonest hin hstep
  obtain ⟨n, f, g, hplan⟩ := hinv
  have hscan := hplan.scans
  rw [hv] at hscan
  exact hscan

/-- The reader has passed the first slot when process `2` drops it; it meets process `3`'s bytes in
the stale copy only. -/
theorem usage_scan_bounds_reader_ahead :
    ∃ s', GuardedRun (ScanState.step 0 0)
        (fun t a => t.Honest (fun _ => .alive) a ∧ t.InStep 0 a) scanStart s' ∧
      s'.usage = .returned 70 ∧ scanStart.table.CountedBy (fun _ => .alive) 0 70 := by
  let l : ClearLocals := ⟨0, 1, 1, 0⟩
  let m : SlotTable := { scanStart.table with procNum := 2 }
  let m' : SlotTable := m.setSlot 0 (copyInto (m.procs 2) copyFields (m.procs 0))
  have hfirst : UsageRun 0 scanStart.table .loadNum (.loadSeq1 3 1 0) :=
    GuardedRun.of_exec (fun _ _ _ _ => trivial)
      (rfl : exec _ (fun _ _ => true) (List.replicate 4 ()) _ = some _)
  have htest : ClearRun (fun _ => .alive) (fun _ _ => False) 0
      (scanStart.table, some 1, .test ⟨0, 0, 0, 0⟩) (scanStart.table, some 1, .decrement l) :=
    GuardedRun.head (a := .alive) trivial rfl
      (GuardedRun.head (a := .alive) trivial rfl (GuardedRun.refl _))
  have hcopy : ClearRun (fun _ => .alive) (fun _ _ => False) 0 (m, some 1, .loadTail l)
      (m', some 1, .test l) :=
    GuardedRun.head (a := .alive) trivial rfl
      ((run_copying _ _ 0 m (some 1) l 2 copyFields).tail (a := .alive) trivial rfl)
  have hrest : UsageRun 0 m' (.loadSeq1 3 1 0) (.returned 70) :=
    GuardedRun.of_exec (fun _ _ _ _ => trivial)
      (rfl : exec _ (fun _ _ => true) (List.replicate 6 ()) _ = some _)
  -- process `3` moves past the reader, and its former place keeps the copy
  have hben : ScanState.InStep 0
      ⟨scanStart.table, some 1, .decrement l, .loadSeq1 3 1 0⟩ (.clear .alive) := by
    rintro _ ⟨⟩ k hk i hi
    obtain rfl : k = 2 := by
      have hnum : (3 : ℤ) = k + 1 := hk
      omega
    obtain rfl : i = 1 := List.mem_singleton.mp hi
    exact Or.inr (Or.inr (Or.inl ⟨by decide, by decide⟩))
  have hrun : GuardedRun (ScanState.step 0 0)
      (fun t a => t.Honest (fun _ => .alive) a ∧ t.InStep 0 a) scanStart
      ⟨m', some 1, .test l, .returned 70⟩ := by
    refine (hfirst.beside (some 1) _ fun _ => ⟨trivial, fun _ _ _ _ _ hpend => hpend⟩).trans ?_
    refine (htest.beside _ fun _ _ hz => ⟨hz.honest _, hz.inStep _⟩).trans ?_
    refine GuardedRun.head (a := .clear .alive) ⟨?_, hben⟩ rfl ?_
    · intro _ _ hpc
      exact ClearPc.noConfusion hpc
    refine (hcopy.beside _ fun _ _ hz => ⟨hz.honest _, hz.inStep _⟩).trans ?_
    exact hrest.beside _ _ fun _ => ⟨trivial, fun _ _ _ _ _ hpend => hpend⟩
  exact ⟨_, hrun, rfl, usage_scan_bounds scanStart_start hrun rfl⟩

/-- The region after the whole call, in which nobody with a pid is found dead. -/
def scanCompacted : SlotTable :=
  (clearProcSlotNolock (fun _ => .alive) 0 scanRegion).1.sharedRegion.table

/-- **A slot that moves ahead of the reader is counted twice.**  Process `2` drops the first slot
while the reader, which has loaded `proc_num`, stands below it.  Process `3`'s `50` bytes move there
and stay behind as a stale copy, and the reader returns `120` where `70` are in use. -/
theorem usage_scan_counts_twice :
    ¬ ∀ (procAlive : Pid → ProcState) (doClear : ℤ) (dev : Dev) (s s' : ScanState) (v : UInt64),
      s.Start → GuardedRun (ScanState.step doClear dev) (fun t a => t.Honest procAlive a) s s' →
        s'.usage = .returned v → s.table.CountedBy procAlive dev v := by
  intro hall
  have hcompact : GuardedRun (ScanState.step 0 0) (fun t a => t.Honest (fun _ => .alive) a)
      ⟨scanRegion.sharedRegion.table, some 1, .test ⟨0, 0, 0, 0⟩, .loadSeq1 3 0 0⟩ _ :=
    (run_clearProcSlotNolock (fun _ => .alive) 0 scanRegion).beside _ fun _ _ hz => hz.honest _
  have hread : UsageRun 0 scanCompacted (.loadSeq1 3 0 0) (.returned 120) :=
    GuardedRun.of_exec (fun _ _ _ _ => trivial)
      (rfl : exec _ (fun _ _ => true) (List.replicate 9 ()) _ = some _)
  have hrun := (GuardedRun.head (s := scanStart) (a := .usage) trivial rfl hcompact).trans
    (hread.beside _ _ fun _ => trivial)
  obtain ⟨total, hv, -, hle⟩ := hall _ 0 0 _ _ 120 scanStart_start hrun rfl
  have hall : scanStart.table.allUsage 0 = 70 := by decide +kernel
  have htotal : (120 : UInt64).toNat = total % 2 ^ 64 := by
    rw [hv, UInt64.toNat_ofNat']
  rw [hall] at hle
  have h120 : (120 : UInt64).toNat = 120 := rfl
  omega

end HamiCore
