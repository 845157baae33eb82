import HamiCore.Library.GuardedRun
import HamiCore.Access.Field
import HamiCore.Region.Usage

/-!
# The lock-free operations, one atomic access at a time

`clear_proc_slot_nolock`, `add_gpu_device_memory_usage`, `rm_gpu_device_memory_usage` and
`get_gpu_memory_usage` run without a lock (`oom_check` calls the first of them outside
`lock_shrreg`), so what a process does between two of its accesses is visible to nobody and what the
others do between them is not excluded.  Here each operation is a program counter that carries its
locals, and one step is one atomic access of shared memory together with the local computation up to
the next one.

Three things deserve attention when reading against the source.

* `region->proc_num` is an `_Atomic int` that is loaded anew at every mention: by the loop test, for
  the source of the copy, for the comparison with `my_slot`, and before each single zeroing store.
* The decrement `region->proc_num--` is one read-modify-write, but the decision to take it rests on
  a `pid` loaded earlier.
* Two overlapping decrements can take `proc_num` below zero, so it is an integer here; indexing the
  array by a negative value is outside the array, and the step is not defined.

A process may be killed between any two accesses.  Its threads then stop where they are.
-/

namespace HamiCore

/-- The part of the region the lock-free operations race on. -/
structure SlotTable where
  procs : ℕ → ShrregProcSlot
  procNum : ℤ

/-- Overwrite one slot. -/
def SlotTable.setSlot (m : SlotTable) (i : ℕ) (x : ShrregProcSlot) : SlotTable :=
  { m with procs := Function.update m.procs i x }

/-- One atomic store. -/
def SlotTable.setField (m : SlotTable) (i : ℕ) (f : SlotField) (v : f.Val) : SlotTable :=
  m.setSlot i (f.set v (m.procs i))

@[simp] theorem SlotTable.setField_procNum (m : SlotTable) (i : ℕ) (f : SlotField) (v : f.Val) :
    (m.setField i f v).procNum = m.procNum := rfl

@[simp] theorem SlotTable.setField_procs_self (m : SlotTable) (i : ℕ) (f : SlotField) (v : f.Val) :
    (m.setField i f v).procs i = f.set v (m.procs i) := Function.update_self _ _ _

theorem SlotTable.setField_procs_of_ne (m : SlotTable) {i j : ℕ} (h : j ≠ i) (f : SlotField)
    (v : f.Val) : (m.setField i f v).procs j = m.procs j := Function.update_of_ne h _ _

/-- Storing into a slot what was loaded from a slot leaves the latter as it was, also when the two
are the same. -/
theorem SlotTable.setField_get (m : SlotTable) (i j : ℕ) (f : SlotField) :
    (m.setField i f (f.get (m.procs j))).procs j = m.procs j := by
  by_cases hji : j = i
  · subst hji
    rw [setField_procs_self, SlotField.set_get]
  · exact setField_procs_of_ne m hji _ _

/-- Two stores into one slot. -/
theorem SlotTable.setSlot_setField (m : SlotTable) (i : ℕ) (f : SlotField) (v : f.Val)
    (x : ShrregProcSlot) : (m.setField i f v).setSlot i x = m.setSlot i x := by
  show (⟨Function.update (Function.update m.procs i _) i x, m.procNum⟩ : SlotTable) = _
  rw [Function.update_idem]
  rfl

theorem SlotTable.setSlot_self (m : SlotTable) (i : ℕ) : m.setSlot i (m.procs i) = m := by
  show (⟨Function.update m.procs i (m.procs i), m.procNum⟩ : SlotTable) = m
  rw [Function.update_eq_self]

/-! ## `clear_proc_slot_nolock` -/

/-- Where a call of `clear_proc_slot_nolock` stands. -/
inductive ClearPc where
  /-- about to evaluate `slot < region->proc_num` -/
  | test (l : ClearLocals)
  /-- about to load `procs[slot].pid` -/
  | loadPid (l : ClearLocals)
  /-- inside `proc_alive(pid)` -/
  | probe (l : ClearLocals) (pid : Pid)
  /-- decided to drop the slot; about to run `region->proc_num--` -/
  | decrement (l : ClearLocals)
  /-- about to load `proc_num` for the source of the copy -/
  | loadTail (l : ClearLocals)
  /-- inside `copy_proc_slot_atomic`, about to load a field of the source -/
  | copyLoad (l : ClearLocals) (tail : ℕ) (f : SlotField) (fs : List SlotField)
  /-- inside `copy_proc_slot_atomic`, about to store the loaded value -/
  | copyStore (l : ClearLocals) (tail : ℕ) (f : SlotField) (fs : List SlotField) (v : f.Val)
  /-- about to compare `my_slot` with `&procs[proc_num]` -/
  | compare (l : ClearLocals)
  /-- about to load `proc_num` for a zeroing store -/
  | zeroLoad (l : ClearLocals) (f : SlotField) (fs : List SlotField)
  /-- about to store the zero -/
  | zeroStore (l : ClearLocals) (i : ℕ) (f : SlotField) (fs : List SlotField)
  | returned (res : ℕ)

/-- The copy with the fields `fs` still to do. -/
def ClearPc.copying (l : ClearLocals) (tail : ℕ) : List SlotField → ClearPc
  | [] => .compare l
  | f :: fs => .copyLoad l tail f fs

/-- The zeroing with the fields `fs` still to do.  After it comes `continue`. -/
def ClearPc.zeroing (l : ClearLocals) : List SlotField → ClearPc
  | [] => .test l
  | f :: fs => .zeroLoad l f fs

/-- One access of `clear_proc_slot_nolock(do_clear)` by a process with the given `my_slot`.
`answer` is what `proc_alive` returns, should it be asked. -/
def clearAccess (doClear : ℤ) (answer : ProcState) (m : SlotTable) (mySlot : Option ℕ) :
    ClearPc → Option (SlotTable × Option ℕ × ClearPc)
  | .test l =>
    some (m, mySlot, if (l.slot : ℤ) < m.procNum then .loadPid l else .returned l.res)
  | .loadPid l =>
    let pid := (m.procs l.slot).pid
    if pid = 0 then
      some (m, mySlot, .decrement { l with cleanedPidZero := l.cleanedPidZero + 1, res := 1 })
    else if 0 < doClear ∧ l.cleanedDead < 10 then
      some (m, mySlot, .probe l pid)
    else
      some (m, mySlot, .test { l with slot := l.slot + 1 })
  | .probe l _ =>
    if answer = .nonalive then
      some (m, mySlot, .decrement { l with cleanedDead := l.cleanedDead + 1, res := 1 })
    else
      some (m, mySlot, .test { l with slot := l.slot + 1 })
  | .decrement l => some ({ m with procNum := m.procNum - 1 }, mySlot, .loadTail l)
  | .loadTail l => m.procNum.toNat?.map fun tail => (m, mySlot, .copying l tail copyFields)
  | .copyLoad l tail f fs => some (m, mySlot, .copyStore l tail f fs (f.get (m.procs tail)))
  | .copyStore l tail f fs v => some (m.setField l.slot f v, mySlot, .copying l tail fs)
  | .compare l =>
    if ∃ i ∈ mySlot, (i : ℤ) = m.procNum then
      some (m, some l.slot, .zeroing l zeroFields)
    else
      some (m, mySlot, .test l)
  | .zeroLoad l f fs => m.procNum.toNat?.map fun i => (m, mySlot, .zeroStore l i f fs)
  | .zeroStore l i f fs => some (m.setField i f f.zero, mySlot, .zeroing l fs)
  | .returned _ => none

/-- The program points outside the copy and the zeroing. -/
def ClearPc.Outside : ClearPc → Prop
  | .loadTail _ | .copyLoad _ _ _ _ | .copyStore _ _ _ _ _ | .zeroStore _ _ _ _ => False
  | _ => True

/-- What an access of a compaction can do to the table. -/
inductive ClearMove (m : SlotTable) : ClearPc → SlotTable → ClearPc → Prop where
  /-- It looks at the table, or asks `proc_alive`, and goes on outside the copy and the zeroing. -/
  | look {pc pc' : ClearPc} (h : pc.Outside) (h' : pc'.Outside) : ClearMove m pc m pc'
  | decrement (l : ClearLocals) :
      ClearMove m (.decrement l) { m with procNum := m.procNum - 1 } (.loadTail l)
  | loadTail (l : ClearLocals) {tail : ℕ} (h : m.procNum = tail) :
      ClearMove m (.loadTail l) m (.copying l tail copyFields)
  | copyLoad (l : ClearLocals) (tail : ℕ) (f : SlotField) (fs : List SlotField) :
      ClearMove m (.copyLoad l tail f fs) m (.copyStore l tail f fs (f.get (m.procs tail)))
  | copyStore (l : ClearLocals) (tail : ℕ) (f : SlotField) (fs : List SlotField) (v : f.Val) :
      ClearMove m (.copyStore l tail f fs v) (m.setField l.slot f v) (.copying l tail fs)
  | zeroLoad (l : ClearLocals) {i : ℕ} (f : SlotField) (fs : List SlotField) (h : m.procNum = i) :
      ClearMove m (.zeroLoad l f fs) m (.zeroStore l i f fs)
  | zeroStore (l : ClearLocals) (i : ℕ) (f : SlotField) (fs : List SlotField) :
      ClearMove m (.zeroStore l i f fs) (m.setField i f f.zero) (.zeroing l fs)

theorem clearMove_of_clearAccess {doClear : ℤ} {answer : ProcState} {m m' : SlotTable}
    {my my' : Option ℕ} {pc pc' : ClearPc}
    (h : clearAccess doClear answer m my pc = some (m', my', pc')) : ClearMove m pc m' pc' := by
  cases pc with
  | test l =>
    cases h
    refine .look trivial ?_
    split_ifs <;> trivial
  | loadPid l =>
    simp only [clearAccess] at h
    split_ifs at h <;> cases h <;> exact .look trivial trivial
  | probe l pid =>
    simp only [clearAccess] at h
    split_ifs at h <;> cases h <;> exact .look trivial trivial
  | decrement l =>
    cases h
    exact .decrement l
  | loadTail l =>
    obtain ⟨tail, htail, hout⟩ := Option.map_eq_some_iff.mp h
    cases hout
    exact .loadTail l (Int.mem_toNat?.mp htail)
  | copyLoad l tail f fs =>
    cases h
    exact .copyLoad l tail f fs
  | copyStore l tail f fs v =>
    cases h
    exact .copyStore l tail f fs v
  | compare l =>
    simp only [clearAccess] at h
    split_ifs at h <;> cases h <;> exact .look trivial trivial
  | zeroLoad l f fs =>
    obtain ⟨i, hi, hout⟩ := Option.map_eq_some_iff.mp h
    cases hout
    exact .zeroLoad l f fs (Int.mem_toNat?.mp hi)
  | zeroStore l i f fs =>
    cases h
    exact .zeroStore l i f fs
  | returned res => exact absurd h (by simp [clearAccess])

/-! ## Charging and releasing -/

/-- A call of `add_gpu_device_memory_usage` or `rm_gpu_device_memory_usage`: `op` is the machine
operation, and `dev` is `cuda_to_nvml_map(cudadev)`. -/
structure UsageUpdate where
  op : UInt64 → UInt64 → UInt64
  pid : Pid
  dev : Dev
  usage : UInt64
  type : ℤ

/-- The counter the `type` argument selects. -/
def UsageUpdate.counter (u : UsageUpdate) : Option MemField :=
  match u.type with
  | 0 => some .contextSize
  | 1 => some .moduleSize
  | 2 => some .dataSize
  | _ => none

/-- Where a charge or a release stands. -/
inductive UpdatePc where
  /-- about to choose between the cached pointer and the scan -/
  | start (u : UsageUpdate)
  /-- slow path, about to load `proc_num` -/
  | loadNum (u : UsageUpdate)
  /-- slow path, about to look at slot `i` of `procNum` -/
  | scan (u : UsageUpdate) (procNum : ℤ) (i : ℕ)
  /-- about to make the sequence number odd -/
  | enter (u : UsageUpdate) (i : ℕ)
  /-- about to change `used[dev].total` -/
  | total (u : UsageUpdate) (i : ℕ)
  /-- about to change the counter selected by `type` -/
  | counter (u : UsageUpdate) (i : ℕ)
  /-- about to make the sequence number even -/
  | leave (u : UsageUpdate) (i : ℕ)
  | returned (res : ℤ)

/-- `atomic_fetch_add` or `atomic_fetch_sub` on a counter of slot `i`. -/
def SlotTable.fetchUsed (m : SlotTable) (i : ℕ) (u : UsageUpdate) (f : MemField) : SlotTable :=
  m.setField i (.used u.dev f) (u.op (f.get ((m.procs i).used u.dev)) u.usage)

/-- `atomic_fetch_add(&slot->seqlock, 1)`. -/
def SlotTable.fetchSeqlock (m : SlotTable) (i : ℕ) : SlotTable :=
  m.setField i .seqlock ((m.procs i).seqlock + 1)

/-- One access of a charge or a release by the process `self` with the given `my_slot`. -/
def updateAccess (self : Pid) (m : SlotTable) (mySlot : Option ℕ) :
    UpdatePc → Option (SlotTable × UpdatePc)
  | .start u =>
    match (if u.pid = self then mySlot else none) with
    | some i => some (m, .enter u i)
    | none => some (m, .loadNum u)
  | .loadNum u => some (m, .scan u m.procNum 0)
  | .scan u procNum i =>
    if (i : ℤ) < procNum then
      if (m.procs i).pid = u.pid then some (m, .enter u i) else some (m, .scan u procNum (i + 1))
    else some (m, .returned (-1))
  | .enter u i => some (m.fetchSeqlock i, .total u i)
  | .total u i => some (m.fetchUsed i u .total, .counter u i)
  | .counter u i =>
    match u.counter with
    | some f => some (m.fetchUsed i u f, .leave u i)
    | none => some (m, .leave u i)
  | .leave _ i => some (m.fetchSeqlock i, .returned 0)
  | .returned _ => none

/-- The slot on which the operation is between its two seqlock increments. -/
def UpdatePc.sectionAt : UpdatePc → Option ℕ
  | .total _ i => some i
  | .counter _ i => some i
  | .leave _ i => some i
  | _ => none

/-! ## Reading -/

/-- Where a call of `get_gpu_memory_usage` stands.  The wait for an even sequence number and the
retry after a changed one both go back to `loadSeq1`. -/
inductive UsagePc where
  | loadNum
  | loadSeq1 (procNum : ℤ) (i : ℕ) (total : UInt64)
  | loadTotal (procNum : ℤ) (i : ℕ) (total seq1 : UInt64)
  | loadSeq2 (procNum : ℤ) (i : ℕ) (total seq1 procUsage : UInt64)
  | returned (total : UInt64)

/-- The head of the loop over the slots. -/
def UsagePc.next (procNum : ℤ) (i : ℕ) (total : UInt64) : UsagePc :=
  if (i : ℤ) < procNum then .loadSeq1 procNum i total else .returned (total + initialOffset)

/-- One access of `get_gpu_memory_usage(dev)`. -/
def usageAccess (dev : Dev) (m : SlotTable) : UsagePc → Option UsagePc
  | .loadNum => some (.next m.procNum 0 0)
  | .loadSeq1 procNum i total =>
    if (m.procs i).seqlock % 2 = 1 then some (.loadSeq1 procNum i total)
    else some (.loadTotal procNum i total (m.procs i).seqlock)
  | .loadTotal procNum i total seq1 =>
    some (.loadSeq2 procNum i total seq1 ((m.procs i).used dev).total)
  | .loadSeq2 procNum i total seq1 procUsage =>
    if seq1 = (m.procs i).seqlock then some (.next procNum (i + 1) (total + procUsage))
    else some (.loadSeq1 procNum i total)
  | .returned _ => none

/-! ## The machine -/

/-- The calls a thread may make. -/
inductive AccessCall where
  | clear (doClear : ℤ)
  | update (u : UsageUpdate)
  | usage (dev : Dev)

/-- Where a thread stands. -/
inductive AccessPc where
  | idle
  | clear (doClear : ℤ) (pc : ClearPc)
  | update (pc : UpdatePc)
  | usage (dev : Dev) (pc : UsagePc)

/-- The thread is inside none of the operations. -/
def AccessPc.finished : AccessPc → Bool
  | .idle => true
  | .clear _ (.returned _) => true
  | .update (.returned _) => true
  | .usage _ (.returned _) => true
  | _ => false

/-- The first program point of a call. -/
def AccessCall.entry : AccessCall → AccessPc
  | .clear doClear => .clear doClear (.test ⟨0, 0, 0, 0⟩)
  | .update u => .update (.start u)
  | .usage dev => .usage dev .loadNum

/-- One access of a thread of the process `self`. -/
def threadAccess (self : Pid) (answer : ProcState) (m : SlotTable) (mySlot : Option ℕ) :
    AccessPc → Option (SlotTable × Option ℕ × AccessPc)
  | .idle => none
  | .clear doClear pc => (clearAccess doClear answer m mySlot pc).map fun out =>
    (out.1, out.2.1, .clear doClear out.2.2)
  | .update pc => (updateAccess self m mySlot pc).map fun out => (out.1, mySlot, .update out.2)
  | .usage dev pc => (usageAccess dev m pc).map fun pc' => (m, mySlot, .usage dev pc')

/-- An access belongs to the operation the thread is in. -/
theorem threadAccess_eq_some {self : Pid} {answer : ProcState} {m m' : SlotTable}
    {my my' : Option ℕ} {pc pc' : AccessPc}
    (h : threadAccess self answer m my pc = some (m', my', pc')) :
    (∃ d c c', pc = .clear d c ∧ pc' = .clear d c' ∧
        clearAccess d answer m my c = some (m', my', c')) ∨
      (∃ u u', pc = .update u ∧ pc' = .update u' ∧ updateAccess self m my u = some (m', u')) ∨
      ∃ dev r r', pc = .usage dev r ∧ pc' = .usage dev r' ∧ m' = m := by
  cases pc with
  | idle => exact absurd h (by simp [threadAccess])
  | clear d c =>
    obtain ⟨⟨m₁, my₁, c'⟩, hc, hout⟩ := Option.map_eq_some_iff.mp h
    cases hout
    exact Or.inl ⟨d, c, c', rfl, rfl, hc⟩
  | update u =>
    obtain ⟨⟨m₁, u'⟩, hu, hout⟩ := Option.map_eq_some_iff.mp h
    cases hout
    exact Or.inr (Or.inl ⟨u, u', rfl, rfl, hu⟩)
  | usage dev r =>
    obtain ⟨r', -, hout⟩ := Option.map_eq_some_iff.mp h
    cases hout
    exact Or.inr (Or.inr ⟨dev, r, r', rfl, rfl, rfl⟩)

/-- A thread inside none of the operations makes no access. -/
theorem threadAccess_of_finished {pc : AccessPc} (h : pc.finished = true) (self : Pid)
    (answer : ProcState) (m : SlotTable) (my : Option ℕ) :
    threadAccess self answer m my pc = none := by
  cases pc with
  | idle => rfl
  | clear d c =>
    cases c with
    | returned res => rfl
    | _ => exact absurd h (by simp [AccessPc.finished])
  | update u =>
    cases u with
    | returned res => rfl
    | _ => exact absurd h (by simp [AccessPc.finished])
  | usage dev r =>
    cases r with
    | returned total => rfl
    | _ => exact absurd h (by simp [AccessPc.finished])

variable {T : Type*}

/-- The shared table, the `my_slot` of each process, who is alive, and where each thread stands. -/
structure AccessState (T : Type*) where
  table : SlotTable
  mySlot : Pid → Option ℕ
  alive : Pid → Bool
  pc : T → AccessPc

/-- What can happen next: a thread calls one of the operations, a thread makes one access (with the
answer of `proc_alive`, should it be asked), a process is killed. -/
inductive AccessLabel (T : Type*) where
  | call (t : T) (c : AccessCall)
  | access (t : T) (answer : ProcState)
  | kill (p : Pid)

section

variable [DecidableEq T] (pidOf : T → Pid)

/-- The interleaving semantics: thread `t` runs in process `pidOf t`. -/
def AccessState.step (s : AccessState T) : AccessLabel T → Option (AccessState T)
  | .call t c =>
    if s.alive (pidOf t) ∧ (s.pc t).finished then
      some { s with pc := Function.update s.pc t c.entry }
    else none
  | .access t answer =>
    if s.alive (pidOf t) then
      (threadAccess (pidOf t) answer s.table (s.mySlot (pidOf t)) (s.pc t)).map fun out =>
        { s with
          table := out.1
          mySlot := Function.update s.mySlot (pidOf t) out.2.1
          pc := Function.update s.pc t out.2.2 }
    else none
  | .kill p => if s.alive p then some { s with alive := Function.update s.alive p false } else none

variable {pidOf}

/-- The three kinds of step, spelled out. -/
theorem AccessState.step_eq_some {s s' : AccessState T} {a : AccessLabel T}
    (h : s.step pidOf a = some s') :
    (∃ t c, a = .call t c ∧ s.alive (pidOf t) = true ∧ (s.pc t).finished = true ∧
        s' = { s with pc := Function.update s.pc t c.entry }) ∨
      (∃ t answer m my pc, a = .access t answer ∧ s.alive (pidOf t) = true ∧
        threadAccess (pidOf t) answer s.table (s.mySlot (pidOf t)) (s.pc t) = some (m, my, pc) ∧
        s' = ⟨m, Function.update s.mySlot (pidOf t) my, s.alive, Function.update s.pc t pc⟩) ∨
      ∃ p, a = .kill p ∧ s.alive p = true ∧
        s' = { s with alive := Function.update s.alive p false } := by
  cases a with
  | call t c =>
    obtain ⟨hc, ⟨⟩⟩ := Option.ite_none_right_eq_some.mp h
    exact Or.inl ⟨t, c, rfl, hc.1, hc.2, rfl⟩
  | access t answer =>
    obtain ⟨hlive, hmap⟩ := Option.ite_none_right_eq_some.mp h
    obtain ⟨⟨m, my, pc⟩, hout, ⟨⟩⟩ := Option.map_eq_some_iff.mp hmap
    exact Or.inr (Or.inl ⟨t, answer, m, my, pc, rfl, hlive, hout, rfl⟩)
  | kill p =>
    obtain ⟨hlive, ⟨⟩⟩ := Option.ite_none_right_eq_some.mp h
    exact Or.inr (Or.inr ⟨p, rfl, hlive, rfl⟩)

end

end HamiCore
