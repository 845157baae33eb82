import HamiCore.Access.Counted
import HamiCore.Access.Sequential
import HamiCore.Region.Registration

/-!
# Registration, store by store

`init_proc_slot_withlock` holds the region lock.  That keeps other registrations away, and none of
the lock-free operations: while the new slot is written, in some hundred stores, other processes
charge, release and read.  What makes a registration safe for them is the order of the stores.  The
slot at `proc_num` is written completely before `proc_num` is incremented, so that nobody looks at
it earlier, and a process killed on the way leaves nothing behind that anybody would look at.

The registrar is added here to the machine of `Access.Machine`, one access a step.  For a process
that has no leftover slot the whole registration is atomic for everybody else
(`registration_atomic`): each run of the store-by-store machine is a run of the machine in which
`claimSlot` is one step, with the increment of `proc_num` as the moment it happens.  On its own the
registrar does what `claimSlot` says, whichever branch it takes (`run_claimSlot`).
-/

namespace HamiCore

/-! ## The accesses of `init_proc_slot_withlock` -/

/-- The values that a registration stores. -/
def ShrregProcSlot.registered (currentPid : Pid) : ShrregProcSlot :=
  { blank with pid := currentPid, status := 1 }

/-- The stores into a leftover slot. -/
def resetFields : List SlotField :=
  .seqlock :: .status :: (List.finRange cudaDeviceMaxCount).flatMap zeroDeviceFields

/-- The stores into a new slot. -/
def initFields : List SlotField :=
  .seqlock :: .pid :: .hostpid :: .status ::
    (List.finRange cudaDeviceMaxCount).flatMap zeroDeviceFields

/-- Where a call of `init_proc_slot_withlock` stands, up to its compaction. -/
inductive RegisterPc where
  /-- about to load `proc_num` -/
  | loadNum
  /-- about to load `procs[i].pid` -/
  | search (procNum i : ℕ)
  /-- about to store a field of slot `i`, which is a leftover one or the new one -/
  | store (i : ℕ) (f : SlotField) (fs : List SlotField) (found : Bool)
  /-- about to increment `proc_num` -/
  | publish (i : ℕ)
  | registered (i : ℕ)
  /-- in `exit_withlock(-1)` -/
  | exited

/-- The stores into slot `i` with the fields `fs` still to do. -/
def RegisterPc.storing (i : ℕ) (found : Bool) : List SlotField → RegisterPc
  | [] => if found then .registered i else .publish i
  | f :: fs => .store i f fs found

/-- The head of the search loop. -/
def RegisterPc.next (procNum i : ℕ) : RegisterPc :=
  if i < procNum then .search procNum i else .storing procNum false initFields

/-- One access of `init_proc_slot_withlock` by a process with the given `my_slot`.  The assignment
of `my_slot` comes with the last access, which follows it in the one branch and precedes it in the
other. -/
def registerAccess (currentPid : Pid) (m : SlotTable) (mySlot : Option ℕ) :
    RegisterPc → Option (SlotTable × Option ℕ × RegisterPc)
  | .loadNum =>
    if (sharedRegionMaxProcessNum : ℤ) ≤ m.procNum then some (m, mySlot, .exited)
    else m.procNum.toNat?.map fun procNum => (m, mySlot, .next procNum 0)
  | .search procNum i =>
    if (m.procs i).pid = currentPid then some (m, mySlot, .storing i true resetFields)
    else some (m, mySlot, .next procNum (i + 1))
  | .store i f fs found =>
    some (m.setField i f (f.get (.registered currentPid)),
      if found ∧ fs = [] then some i else mySlot, .storing i found fs)
  | .publish i => some ({ m with procNum := m.procNum + 1 }, some i, .registered i)
  | .registered _ => none
  | .exited => none

/-- All stores into a leftover slot. -/
theorem copyInto_resetFields (currentPid : Pid) (s : ShrregProcSlot) :
    copyInto (.registered currentPid) resetFields s = s.reset := by
  refine SlotField.ext_get fun f => ?_
  rw [get_copyInto]
  cases f with
  | used d m =>
    cases m with
    | offset => rw [if_neg (by simp [resetFields, zeroDeviceFields])]; rfl
    | _ => rw [if_pos (by simp [resetFields, zeroDeviceFields])]; rfl
  | deviceUtil d u =>
    cases u with
    | smUtil => rw [if_pos (by simp [resetFields, zeroDeviceFields])]; rfl
    | _ => rw [if_neg (by simp [resetFields, zeroDeviceFields])]; rfl
  | pid => rw [if_neg (by simp [resetFields, zeroDeviceFields])]; rfl
  | hostpid => rw [if_neg (by simp [resetFields, zeroDeviceFields])]; rfl
  | _ => rw [if_pos (by simp [resetFields, zeroDeviceFields])]; rfl

/-- All stores into a new slot. -/
theorem copyInto_initFields (currentPid : Pid) (s : ShrregProcSlot) :
    copyInto (.registered currentPid) initFields s = s.initSlot currentPid := by
  refine SlotField.ext_get fun f => ?_
  rw [get_copyInto]
  cases f with
  | used d m =>
    cases m with
    | offset => rw [if_neg (by simp [initFields, zeroDeviceFields])]; rfl
    | _ => rw [if_pos (by simp [initFields, zeroDeviceFields])]; rfl
  | deviceUtil d u =>
    cases u with
    | smUtil => rw [if_pos (by simp [initFields, zeroDeviceFields])]; rfl
    | _ => rw [if_neg (by simp [initFields, zeroDeviceFields])]; rfl
  | _ => rw [if_pos (by simp [initFields, zeroDeviceFields])]; rfl

/-! ## The registrar alone -/

/-- An uninterrupted run of a registration. -/
abbrev RegisterRun (currentPid : Pid) :
    SlotTable × Option ℕ × RegisterPc → SlotTable × Option ℕ × RegisterPc → Prop :=
  GuardedRun (fun x (_ : Unit) => registerAccess currentPid x.1 x.2.1 x.2.2) fun _ _ => True

/-- The stores, from any of the fields on. -/
theorem run_storing (currentPid : Pid) (m : SlotTable) (my : Option ℕ) (i : ℕ) (found : Bool)
    (f : SlotField) (fs : List SlotField) :
    RegisterRun currentPid (m, my, .store i f fs found)
      (m.setSlot i (copyInto (.registered currentPid) (f :: fs) (m.procs i)),
        if found then some i else my, .storing i found []) := by
  induction fs generalizing m f with
  | nil =>
    refine GuardedRun.head (a := ()) trivial rfl ?_
    cases found <;> exact GuardedRun.refl _
  | cons g fs ih =>
    refine GuardedRun.head (a := ()) trivial rfl ?_
    have hrest := ih (m.setField i f (f.get (.registered currentPid))) g
    rw [SlotTable.setSlot_setField, SlotTable.setField_procs_self] at hrest
    have hmy : (if found = true ∧ g :: fs = [] then some i else my) = my := by simp
    rw [hmy]
    exact hrest

/-- The search up to a slot before which nobody carries the pid. -/
theorem run_search (currentPid : Pid) {m : SlotTable} {my : Option ℕ} {procNum i : ℕ}
    (hi : i ≤ procNum) (hne : ∀ j < i, (m.procs j).pid ≠ currentPid) :
    RegisterRun currentPid (m, my, .next procNum 0) (m, my, .next procNum i) := by
  induction i with
  | zero => exact GuardedRun.refl _
  | succ i ih =>
    refine (ih (by omega) fun j hj => hne j (by omega)).tail (a := ()) trivial ?_
    have hlt : i < procNum := by omega
    simp [RegisterPc.next, hlt, registerAccess, hne i (Nat.lt_succ_self i)]

/-- **A registration that nobody interrupts** is `claimSlot`. -/
theorem run_claimSlot {info : RegionInfo}
    (hroom : info.sharedRegion.procNum < sharedRegionMaxProcessNum) :
    ∃ i, (claimSlot info).mySlot = some i ∧
      RegisterRun info.pid (info.sharedRegion.table, info.mySlot, .loadNum)
        ((claimSlot info).sharedRegion.table, (claimSlot info).mySlot, .registered i) := by
  obtain ⟨pid, r, my⟩ := info
  have hload : registerAccess pid r.table my .loadNum = some (r.table, my, .next r.procNum 0) := by
    have hnot : ¬ (sharedRegionMaxProcessNum : ℤ) ≤ (r.procNum : ℤ) := by
      have hlt : r.procNum < sharedRegionMaxProcessNum := hroom
      omega
    exact (if_neg hnot).trans rfl
  unfold claimSlot
  dsimp only
  cases hfind : r.findSlot pid with
  | some i =>
    obtain ⟨hi, hpid⟩ := SharedRegion.scan_eq_some hfind
    have hbefore : ∀ j < i, (r.table.procs j).pid ≠ pid :=
      fun j hj hp => absurd (SharedRegion.scan_le hfind hp) (by omega)
    have hfound : registerAccess pid r.table my (.next r.procNum i) =
        some (r.table, my, .storing i true resetFields) := by
      rw [RegisterPc.next, if_pos hi]
      exact if_pos hpid
    refine ⟨i, rfl, GuardedRun.head (a := ()) trivial hload ?_⟩
    refine (run_search pid hi.le hbefore).trans (GuardedRun.head (a := ()) trivial hfound ?_)
    have hstore := run_storing pid r.table my i true .seqlock resetFields.tail
    rw [show SlotField.seqlock :: resetFields.tail = resetFields from rfl,
      copyInto_resetFields] at hstore
    exact hstore
  | none =>
    have hbefore : ∀ j < r.procNum, (r.table.procs j).pid ≠ pid :=
      fun j hj => SharedRegion.scan_eq_none hfind hj
    have hnext : RegisterPc.next r.procNum r.procNum = .storing r.procNum false initFields :=
      if_neg (lt_irrefl _)
    refine ⟨r.procNum, rfl, GuardedRun.head (a := ()) trivial hload ?_⟩
    refine (run_search pid le_rfl hbefore).trans ?_
    rw [hnext]
    have hstore := run_storing pid r.table my r.procNum false .seqlock initFields.tail
    rw [show SlotField.seqlock :: initFields.tail = initFields from rfl,
      copyInto_initFields] at hstore
    exact hstore.tail (a := ()) trivial rfl

/-- Process 3 finds the slot it has left behind. -/
theorem run_claimSlot_deadAndExited :
    ∃ i, (claimSlot deadAndExited).mySlot = some i ∧
      RegisterRun 3 (deadAndExited.sharedRegion.table, deadAndExited.mySlot, .loadNum)
        ((claimSlot deadAndExited).sharedRegion.table, (claimSlot deadAndExited).mySlot,
          .registered i) := by
  have hroom : deadAndExited.sharedRegion.procNum < sharedRegionMaxProcessNum := by decide
  exact run_claimSlot hroom

/-! ## The machine with a registrar -/

variable {T : Type*}

/-- The machine, and where the registrar stands. -/
structure RegisterState (T : Type*) where
  access : AccessState T
  registrar : RegisterPc

/-- Something else happens, or the registrar makes an access. -/
inductive RegisterLabel (T : Type*) where
  | other (a : AccessLabel T)
  | register

/-- There is no compaction. -/
def RegisterLabel.UsageOnly : RegisterLabel T → Prop
  | .other a => a.UsageOnly
  | .register => True

section Machines

variable [DecidableEq T] (pidOf : T → Pid) (currentPid : Pid)

/-- The machine in which the process `currentPid` registers, store by store. -/
def RegisterState.step (s : RegisterState T) : RegisterLabel T → Option (RegisterState T)
  | .other a => (s.access.step pidOf a).map fun u => { s with access := u }
  | .register =>
    if s.access.alive currentPid then
      (registerAccess currentPid s.access.table (s.access.mySlot currentPid) s.registrar).map
        fun out => ⟨{ s.access with
          table := out.1
          mySlot := Function.update s.access.mySlot currentPid out.2.1 }, out.2.2⟩
    else none

/-- The machine as one process sees it at the region level. -/
def AccessState.info (s : AccessState T) (procNum : ℕ) : RegionInfo :=
  ⟨currentPid, ⟨fun _ => 0, s.table.procs, procNum⟩, s.mySlot currentPid⟩

/-- The machine in which `claimSlot` is one step, which the process `currentPid` takes once. -/
def claimStep (x : AccessState T × Bool) : RegisterLabel T → Option (AccessState T × Bool)
  | .other a => (x.1.step pidOf a).map fun u => (u, x.2)
  | .register =>
    if x.1.alive currentPid ∧ x.2 = false then
      x.1.table.procNum.toNat?.map fun procNum =>
        let info := claimSlot (x.1.info currentPid procNum)
        ({ x.1 with
            table := info.sharedRegion.table
            mySlot := Function.update x.1.mySlot currentPid info.mySlot }, true)
    else none

end Machines

/-! ## Nobody looks beyond `proc_num` -/

/-- A charge or release stays below `n`. -/
def UpdatePc.Below (n : ℤ) : UpdatePc → Prop
  | .scan _ procNum _ => procNum ≤ n
  | .enter _ i | .total _ i | .counter _ i | .leave _ i => (i : ℤ) < n
  | _ => True

/-- A reader stays below `n`. -/
def UsagePc.Below (n : ℤ) : UsagePc → Prop
  | .loadSeq1 procNum i _ | .loadTotal procNum i _ _ | .loadSeq2 procNum i _ _ _ =>
    procNum ≤ n ∧ (i : ℤ) < n
  | _ => True

/-- A thread stays below `n`. -/
def AccessPc.Below (n : ℤ) : AccessPc → Prop
  | .update pc => pc.Below n
  | .usage _ pc => pc.Below n
  | _ => True

/-- No thread looks beyond the registered slots, now or through its `my_slot`, and there is no
compaction. -/
structure AccessState.Below (pidOf : T → Pid) (s : AccessState T) : Prop where
  usageOnly : ∀ t, (s.pc t).UsageOnly
  pcs : ∀ t, (s.pc t).Below s.table.procNum
  pointers : ∀ t i, s.mySlot (pidOf t) = some i → (i : ℤ) < s.table.procNum

theorem AccessPc.Below.mono {pc : AccessPc} {n n' : ℤ} (h : pc.Below n) (hn : n ≤ n') :
    pc.Below n' := by
  cases pc with
  | update u =>
    cases u with
    | scan v procNum i => exact le_trans (show procNum ≤ n from h) hn
    | enter v i => exact lt_of_lt_of_le (show (i : ℤ) < n from h) hn
    | total v i => exact lt_of_lt_of_le (show (i : ℤ) < n from h) hn
    | counter v i => exact lt_of_lt_of_le (show (i : ℤ) < n from h) hn
    | leave v i => exact lt_of_lt_of_le (show (i : ℤ) < n from h) hn
    | _ => trivial
  | usage dev r =>
    cases r with
    | loadNum => trivial
    | returned total => trivial
    | _ => exact ⟨h.1.trans hn, h.2.trans_le hn⟩
  | _ => trivial

/-- Two stores into different slots commute. -/
theorem SlotTable.setSlot_setField_comm (m : SlotTable) {i n : ℕ} (h : i ≠ n) (x : ShrregProcSlot)
    (f : SlotField) (v : f.Val) :
    (m.setSlot n x).setField i f v = (m.setField i f v).setSlot n x := by
  have hi : (m.setSlot n x).procs i = m.procs i := Function.update_of_ne h _ _
  rw [setField, hi, setField, setSlot, setSlot, setSlot, setSlot]
  dsimp only
  rw [Function.update_comm h.symm]

/-- **A charge or release does not see the slot that is being written.** -/
theorem updateAccess_setSlot {self : Pid} {m : SlotTable} {my : Option ℕ} {pc : UpdatePc} {n : ℕ}
    (hpc : pc.Below n) (x : ShrregProcSlot) :
    updateAccess self (m.setSlot n x) my pc =
      (updateAccess self m my pc).map fun out => (out.1.setSlot n x, out.2) := by
  have hother : ∀ i : ℕ, (i : ℤ) < n → i ≠ n ∧ (m.setSlot n x).procs i = m.procs i := by
    intro i hi
    have hne : i ≠ n := by omega
    exact ⟨hne, Function.update_of_ne hne _ _⟩
  cases pc with
  | start u =>
    simp only [updateAccess]
    split <;> rfl
  | loadNum u => rfl
  | scan u procNum i =>
    simp only [updateAccess]
    by_cases hi : (i : ℤ) < procNum
    · have hi' : (i : ℤ) < n := lt_of_lt_of_le hi hpc
      rw [if_pos hi, if_pos hi, (hother i hi').2]
      split_ifs <;> rfl
    · rw [if_neg hi, if_neg hi]
      rfl
  | enter u i =>
    obtain ⟨hne, hget⟩ := hother i hpc
    simp only [updateAccess, SlotTable.fetchSeqlock, hget, Option.map_some,
      SlotTable.setSlot_setField_comm m hne]
  | total u i =>
    obtain ⟨hne, hget⟩ := hother i hpc
    simp only [updateAccess, SlotTable.fetchUsed, hget, Option.map_some,
      SlotTable.setSlot_setField_comm m hne]
  | counter u i =>
    obtain ⟨hne, hget⟩ := hother i hpc
    simp only [updateAccess]
    split
    · simp only [SlotTable.fetchUsed, hget, Option.map_some, SlotTable.setSlot_setField_comm m hne]
    · rfl
  | leave u i =>
    obtain ⟨hne, hget⟩ := hother i hpc
    simp only [updateAccess, SlotTable.fetchSeqlock, hget, Option.map_some,
      SlotTable.setSlot_setField_comm m hne]
  | returned res => rfl

/-- Nor does a reader. -/
theorem usageAccess_setSlot {dev : Dev} {m : SlotTable} {pc : UsagePc} {n : ℕ}
    (hpc : pc.Below n) (x : ShrregProcSlot) :
    usageAccess dev (m.setSlot n x) pc = usageAccess dev m pc := by
  have hother : ∀ i : ℕ, (i : ℤ) < n → (m.setSlot n x).procs i = m.procs i :=
    fun i hi => Function.update_of_ne (by omega) _ _
  cases pc with
  | loadNum => rfl
  | loadSeq1 procNum i total => simp only [usageAccess, hother i hpc.2]
  | loadTotal procNum i total seq1 => simp only [usageAccess, hother i hpc.2]
  | loadSeq2 procNum i total seq1 procUsage => simp only [usageAccess, hother i hpc.2]
  | returned total => rfl

/-- The second table has the same `proc_num`, the same pids, and the same slots from `n` on. -/
structure SlotTable.Keeps (n : ℤ) (m m' : SlotTable) : Prop where
  procNum : m'.procNum = m.procNum
  pid : ∀ i, (m'.procs i).pid = (m.procs i).pid
  beyond : ∀ i : ℕ, n ≤ i → m'.procs i = m.procs i

theorem SlotTable.Keeps.refl (n : ℤ) (m : SlotTable) : m.Keeps n m :=
  ⟨rfl, fun _ => rfl, fun _ _ => rfl⟩

/-- A store below `n`. -/
theorem SlotTable.keeps_setField (m : SlotTable) {i : ℕ} {n : ℤ} (hi : (i : ℤ) < n) {f : SlotField}
    (hf : f ≠ .pid) (v : f.Val) : m.Keeps n (m.setField i f v) where
  procNum := rfl
  pid := by
    intro j
    by_cases hji : j = i
    · subst hji
      rw [setField_procs_self]
      exact SlotField.get_set_of_ne (Ne.symm hf) v _
    · rw [setField_procs_of_ne m hji]
  beyond := by
    intro j hj
    have hji : j ≠ i := by
      rintro rfl
      omega
    rw [setField_procs_of_ne m hji]

/-- An access of a charge or release, where the registered slots are those below `n`. -/
theorem updateAccess_below {self : Pid} {m m' : SlotTable} {my : Option ℕ} {pc pc' : UpdatePc}
    {n : ℤ} (hn : m.procNum = n) (hmy : ∀ i ∈ my, (i : ℤ) < n) (hpc : pc.Below n)
    (h : updateAccess self m my pc = some (m', pc')) : m.Keeps n m' ∧ pc'.Below n := by
  have hsame := SlotTable.Keeps.refl n m
  cases pc with
  | start u =>
    simp only [updateAccess] at h
    split at h
    · next i hi =>
      cases h
      refine ⟨hsame, hmy i ?_⟩
      split_ifs at hi
      exact hi
    · cases h
      exact ⟨hsame, trivial⟩
  | loadNum u =>
    cases h
    exact ⟨hsame, hn.le⟩
  | scan u procNum i =>
    simp only [updateAccess] at h
    split_ifs at h with hi hp
    · cases h
      exact ⟨hsame, lt_of_lt_of_le hi hpc⟩
    · cases h
      exact ⟨hsame, hpc⟩
    · cases h
      exact ⟨hsame, trivial⟩
  | enter u i =>
    cases h
    exact ⟨m.keeps_setField hpc (by simp) _, hpc⟩
  | total u i =>
    cases h
    exact ⟨m.keeps_setField hpc (by simp) _, hpc⟩
  | counter u i =>
    simp only [updateAccess] at h
    split at h
    · cases h
      exact ⟨m.keeps_setField hpc (by simp) _, hpc⟩
    · cases h
      exact ⟨hsame, hpc⟩
  | leave u i =>
    cases h
    exact ⟨m.keeps_setField hpc (by simp) _, trivial⟩
  | returned res => exact absurd h (by simp [updateAccess])

/-- The same for a reader. -/
theorem usageAccess_below {dev : Dev} {m : SlotTable} {pc pc' : UsagePc} {n : ℤ}
    (hn : m.procNum = n) (hpc : pc.Below n) (h : usageAccess dev m pc = some pc') :
    pc'.Below n := by
  have hnext : ∀ (procNum : ℤ) i total, procNum ≤ n → (UsagePc.next procNum i total).Below n := by
    intro procNum i total hle
    unfold UsagePc.next
    split_ifs with hi
    · exact ⟨hle, hi.trans_le hle⟩
    · trivial
  cases pc with
  | loadNum =>
    cases h
    exact hnext _ _ _ hn.le
  | loadSeq1 procNum i total =>
    simp only [usageAccess] at h
    split_ifs at h <;> cases h <;> exact hpc
  | loadTotal procNum i total seq1 =>
    cases h
    exact hpc
  | loadSeq2 procNum i total seq1 procUsage =>
    simp only [usageAccess] at h
    split_ifs at h
    · cases h
      exact hnext _ _ _ hpc.1
    · cases h
      exact hpc
  | returned total => exact absurd h (by simp [usageAccess])

section Below

variable [DecidableEq T] {pidOf : T → Pid} {s s' : AccessState T}

/-- The state with another table. -/
def AccessState.onTable (s : AccessState T) (m : SlotTable) : AccessState T := { s with table := m }

omit [DecidableEq T] in
/-- No access of a thread sees the slot that is being written. -/
theorem threadAccess_setSlot {self : Pid} {answer : ProcState} {m : SlotTable} {my : Option ℕ}
    {pc : AccessPc} {n : ℕ} (honly : pc.UsageOnly) (hpc : pc.Below n) (x : ShrregProcSlot) :
    threadAccess self answer (m.setSlot n x) my pc =
      (threadAccess self answer m my pc).map fun out => (out.1.setSlot n x, out.2) := by
  cases pc with
  | idle => rfl
  | clear d c =>
    obtain ⟨res, rfl⟩ := honly
    rfl
  | update u =>
    simp only [threadAccess, updateAccess_setSlot hpc x, Option.map_map]
    rfl
  | usage dev r =>
    simp only [threadAccess, usageAccess_setSlot hpc x, Option.map_map]
    rfl

/-- **What the slot at `proc_num` holds makes no difference to anybody.** -/
theorem AccessState.Below.step_setSlot (h : s.Below pidOf) {n : ℕ} (hn : s.table.procNum = n)
    (x : ShrregProcSlot) (a : AccessLabel T) :
    (s.onTable (s.table.setSlot n x)).step pidOf a =
      (s.step pidOf a).map fun s' => s'.onTable (s'.table.setSlot n x) := by
  cases a with
  | call t c =>
    by_cases hc : s.alive (pidOf t) = true ∧ (s.pc t).finished = true
    · rw [show s.step pidOf (.call t c) = some _ from if_pos hc]
      exact if_pos hc
    · rw [show s.step pidOf (.call t c) = none from if_neg hc]
      exact if_neg hc
  | access t answer =>
    have hpc := h.pcs t
    rw [hn] at hpc
    have hacc : threadAccess (pidOf t) answer (s.table.setSlot n x) (s.mySlot (pidOf t)) (s.pc t) =
        _ := threadAccess_setSlot (h.usageOnly t) hpc x
    by_cases hlive : s.alive (pidOf t) = true
    · rw [show s.step pidOf (.access t answer) = Option.map _ _ from if_pos hlive, Option.map_map]
      refine (if_pos hlive).trans ((congrArg (Option.map _) hacc).trans ?_)
      rw [Option.map_map]
      rfl
    · rw [show s.step pidOf (.access t answer) = none from if_neg hlive]
      exact if_neg hlive
  | kill p =>
    by_cases hp : s.alive p = true
    · rw [show s.step pidOf (.kill p) = some _ from if_pos hp]
      exact if_pos hp
    · rw [show s.step pidOf (.kill p) = none from if_neg hp]
      exact if_neg hp

/-- One thread moves, below `proc_num`. -/
theorem AccessState.Below.move (h : s.Below pidOf) {t : T} {m : SlotTable} {pc : AccessPc}
    (hm : m.procNum = s.table.procNum) (hpc : pc.Below s.table.procNum)
    (honly : ∀ u, (Function.update s.pc t pc u).UsageOnly) :
    AccessState.Below pidOf ⟨m, Function.update s.mySlot (pidOf t) (s.mySlot (pidOf t)), s.alive,
      Function.update s.pc t pc⟩ where
  usageOnly := honly
  pcs := by
    intro u
    show (Function.update s.pc t pc u).Below m.procNum
    rw [hm]
    by_cases hut : u = t
    · rwa [hut, Function.update_self]
    · rw [Function.update_of_ne hut]
      exact h.pcs u
  pointers := by
    intro u i hi
    rw [Function.update_eq_self] at hi
    show (i : ℤ) < m.procNum
    rw [hm]
    exact h.pointers u i hi

/-- **One step** stays below `proc_num`. -/
theorem AccessState.Below.step (h : s.Below pidOf) {a : AccessLabel T} (ha : a.UsageOnly)
    (hst : s.step pidOf a = some s') :
    s'.Below pidOf ∧ s.table.Keeps s.table.procNum s'.table := by
  have honly := AccessState.usageOnly_step h.usageOnly ha hst
  have hsame := SlotTable.Keeps.refl s.table.procNum s.table
  rcases AccessState.step_eq_some hst with ⟨t, c, rfl, -, -, rfl⟩ |
    ⟨t, answer, m, my, pc, rfl, -, hacc, rfl⟩ | ⟨p, rfl, -, rfl⟩
  · have hentry : c.entry.Below s.table.procNum := by
      cases c <;> trivial
    have hmove := h.move (t := t) (m := s.table) rfl hentry honly
    rw [Function.update_eq_self] at hmove
    exact ⟨hmove, hsame⟩
  · have hpcs := h.pcs t
    rcases threadAccess_eq_some hacc with ⟨d, c, c', hpc, rfl, hclr⟩ | ⟨u, u', hpc, rfl, hupd⟩ |
      ⟨dev, r, r', hpc, rfl, rfl⟩
    · have hclear := h.usageOnly t
      rw [hpc] at hclear
      obtain ⟨res, rfl⟩ := hclear
      exact absurd hclr (by simp [clearAccess])
    · rw [hpc] at hpcs hacc
      obtain ⟨out, -, hmy⟩ := Option.map_eq_some_iff.mp hacc
      cases hmy
      obtain ⟨hkeeps, hbelow⟩ := updateAccess_below rfl (fun i hi => h.pointers t i hi) hpcs hupd
      exact ⟨h.move hkeeps.procNum hbelow honly, hkeeps⟩
    · rw [hpc] at hpcs hacc
      obtain ⟨out, hout, hmy⟩ := Option.map_eq_some_iff.mp hacc
      cases hmy
      exact ⟨h.move rfl (usageAccess_below rfl hpcs hout) honly, hsame⟩
  · exact ⟨⟨h.usageOnly, h.pcs, h.pointers⟩, hsame⟩

end Below

/-! ## Registration is atomic -/

section Atomic

variable {currentPid : Pid}

/-- No registered slot carries the pid. -/
def SlotTable.Fresh (m : SlotTable) (pid : Pid) : Prop :=
  ∀ i : ℕ, (i : ℤ) < m.procNum → (m.procs i).pid ≠ pid

theorem SlotTable.Fresh.keeps {m m' : SlotTable} {n : ℤ} (h : m.Fresh currentPid)
    (hk : m.Keeps n m') : m'.Fresh currentPid := by
  intro i hi
  rw [hk.pid]
  exact h i (hk.procNum ▸ hi)

/-- How far the registrar is: `m` is the table it works on, `m'` the one in which registration is
one step, and `done` says whether that step has been taken. -/
def RegisterPc.Ahead (currentPid : Pid) (m m' : SlotTable) (done : Bool) : RegisterPc → Prop
  | .loadNum => m = m' ∧ done = false ∧ m'.Fresh currentPid
  | .search procNum i =>
    m = m' ∧ done = false ∧ m'.Fresh currentPid ∧ m'.procNum = procNum ∧ i < procNum
  | .store n f fs found =>
    (found = false ∧ done = false ∧ m'.Fresh currentPid ∧ m'.procNum = n) ∧
      ∃ stored, stored ++ f :: fs = initFields ∧
        m = m'.setSlot n (copyInto (.registered currentPid) stored (m'.procs n))
  | .publish n =>
    (done = false ∧ m'.Fresh currentPid ∧ m'.procNum = n) ∧
      m = m'.setSlot n ((m'.procs n).initSlot currentPid)
  | .registered _ => m = m' ∧ done = true
  | .exited => m = m' ∧ done = false

/-- The two tables differ at `proc_num` at most, and what others do below it leaves the registrar
where it is. -/
theorem RegisterPc.Ahead.others {pc : RegisterPc} {m m' : SlotTable} {done : Bool}
    (h : pc.Ahead currentPid m m' done) :
    (m = m' ∧ ∀ w, m'.Keeps m'.procNum w → pc.Ahead currentPid w w done) ∨
      ∃ (n : ℕ) (x : ShrregProcSlot), m'.procNum = n ∧ m = m'.setSlot n x ∧
        ∀ w, m'.Keeps m'.procNum w → pc.Ahead currentPid (w.setSlot n x) w done := by
  cases pc with
  | loadNum => exact Or.inl ⟨h.1, fun w hw => ⟨rfl, h.2.1, h.2.2.keeps hw⟩⟩
  | search procNum i =>
    obtain ⟨hm, hdone, hfresh, hn, hi⟩ := h
    exact Or.inl ⟨hm, fun w hw => ⟨rfl, hdone, hfresh.keeps hw, hw.procNum.trans hn, hi⟩⟩
  | store n f fs found =>
    obtain ⟨⟨hfound, hdone, hfresh, hn⟩, stored, hstored, hm⟩ := h
    refine Or.inr ⟨n, _, hn, hm, fun w hw => ⟨⟨hfound, hdone, hfresh.keeps hw,
      hw.procNum.trans hn⟩, stored, hstored, ?_⟩⟩
    rw [hw.beyond n hn.le]
  | publish n =>
    obtain ⟨⟨hdone, hfresh, hn⟩, hm⟩ := h
    refine Or.inr ⟨n, _, hn, hm, fun w hw => ⟨⟨hdone, hfresh.keeps hw,
      hw.procNum.trans hn⟩, ?_⟩⟩
    rw [hw.beyond n hn.le]
  | registered i => exact Or.inl ⟨h.1, fun w _ => ⟨rfl, h.2⟩⟩
  | exited => exact Or.inl ⟨h.1, fun w _ => ⟨rfl, h.2⟩⟩

/-- Where the two tables agree. -/
theorem RegisterPc.Ahead.agree {pc : RegisterPc} {m m' : SlotTable} {done : Bool}
    (h : pc.Ahead currentPid m m' done) :
    (m'.procNum = m.procNum ∧ ∀ i : ℕ, (i : ℤ) < m'.procNum → m'.procs i = m.procs i) ∧
      (done = true ↔ ∃ i, pc = .registered i) ∧ (done = true → m' = m) := by
  refine ⟨?_, ?_, ?_⟩
  · rcases h.others with ⟨rfl, -⟩ | ⟨n, x, hn, rfl, -⟩
    · exact ⟨rfl, fun _ _ => rfl⟩
    · refine ⟨rfl, fun i hi => (Function.update_of_ne ?_ _ _).symm⟩
      omega
  · cases pc with
    | loadNum => simp [h.2.1]
    | search procNum i => simp [h.2.1]
    | store n f fs found => simp [h.1.2.1]
    | publish n => simp [h.1.1]
    | registered i => simp [h.2]
    | exited => simp [h.2]
  · intro hdone
    cases pc with
    | store n f fs found => exact absurd (h.1.2.1.symm.trans hdone) (by simp)
    | publish n => exact absurd (h.1.1.symm.trans hdone) (by simp)
    | _ => exact h.1.symm

/-- The first of the stores into the new slot. -/
theorem RegisterPc.ahead_storing {m : SlotTable} {n : ℕ} (hfresh : m.Fresh currentPid)
    (hn : m.procNum = n) :
    (RegisterPc.storing n false initFields).Ahead currentPid m m false :=
  ⟨⟨rfl, rfl, hfresh, hn⟩, [], rfl, by rw [copyInto_nil, SlotTable.setSlot_self]⟩

/-- The head of the search. -/
theorem RegisterPc.ahead_next {m : SlotTable} {n i : ℕ} (hfresh : m.Fresh currentPid)
    (hn : m.procNum = n) : (RegisterPc.next n i).Ahead currentPid m m false := by
  unfold next
  split_ifs with hi
  · exact ⟨rfl, rfl, hfresh, hn, hi⟩
  · exact ahead_storing hfresh hn

variable [DecidableEq T] {pidOf : T → Pid}

omit [DecidableEq T] in
/-- `claimSlot` for a process without a leftover slot. -/
theorem claimSlot_of_fresh {s : AccessState T} {n : ℕ} (hfresh : s.table.Fresh currentPid)
    (hn : s.table.procNum = n) :
    (claimSlot (s.info currentPid n)).sharedRegion.table =
        ⟨(s.table.setSlot n ((s.table.procs n).initSlot currentPid)).procs, s.table.procNum + 1⟩ ∧
      (claimSlot (s.info currentPid n)).mySlot = some n := by
  have hnone : (s.info currentPid n).sharedRegion.findSlot currentPid = none := by
    refine List.find?_eq_none.mpr fun i hi hp => ?_
    have hlt : (i : ℤ) < s.table.procNum := by
      have hin : i < n := List.mem_range.mp hi
      omega
    exact hfresh i hlt (of_decide_eq_true hp)
  have hfind : (s.info currentPid n).sharedRegion.findSlot (s.info currentPid n).pid = none := hnone
  rw [claimSlot, hfind, hn]
  exact ⟨rfl, rfl⟩

/-- The two machines side by side. -/
structure RegisterState.Matches (pidOf : T → Pid) (currentPid : Pid) (c : RegisterState T)
    (a : AccessState T × Bool) : Prop where
  below : a.1.Below pidOf
  access : c.access = a.1.onTable c.access.table
  ahead : c.registrar.Ahead currentPid c.access.table a.1.table a.2

variable {c c' : RegisterState T} {a : AccessState T × Bool}

/-- **A step of somebody else** is the same step in both machines. -/
theorem RegisterState.Matches.other (h : c.Matches pidOf currentPid a) {l : AccessLabel T}
    (hl : l.UsageOnly) (hst : c.step pidOf currentPid (.other l) = some c') :
    ∃ a', claimStep pidOf currentPid a (.other l) = some a' ∧ c'.Matches pidOf currentPid a' := by
  obtain ⟨u, hu, rfl⟩ := Option.map_eq_some_iff.mp hst
  rcases h.ahead.others with ⟨hm, hkeep⟩ | ⟨n, x, hn, hm, hkeep⟩
  · rw [h.access, hm] at hu
    have hu' : a.1.step pidOf l = some u := hu
    obtain ⟨hbelow, hkeeps⟩ := h.below.step hl hu'
    exact ⟨(u, a.2), by rw [claimStep, hu']; rfl, hbelow, rfl, hkeep _ hkeeps⟩
  · rw [h.access, hm, h.below.step_setSlot hn x l] at hu
    obtain ⟨s', hs', rfl⟩ := Option.map_eq_some_iff.mp hu
    obtain ⟨hbelow, hkeeps⟩ := h.below.step hl hs'
    exact ⟨(s', a.2), by rw [claimStep, hs']; rfl, hbelow, rfl, hkeep _ hkeeps⟩

/-- The registrar's own access, on the state that the two machines share. -/
theorem RegisterState.step_register {m m' : SlotTable} {my : Option ℕ} {pc pc' : RegisterPc}
    {s : AccessState T}
    (hst : RegisterState.step pidOf currentPid ⟨s.onTable m, pc⟩ .register = some c')
    (hacc : registerAccess currentPid m (s.mySlot currentPid) pc = some (m', my, pc')) :
    s.alive currentPid = true ∧
      c' = ⟨⟨m', Function.update s.mySlot currentPid my, s.alive, s.pc⟩, pc'⟩ := by
  obtain ⟨hlive, hmap⟩ := Option.ite_none_right_eq_some.mp hst
  obtain ⟨out, hout, rfl⟩ := Option.map_eq_some_iff.mp hmap
  obtain rfl := Option.some.inj (hacc.symm.trans hout)
  exact ⟨hlive, rfl⟩

/-- Where the registrar makes no access. -/
theorem RegisterState.not_step_register {m : SlotTable} {pc : RegisterPc} {s : AccessState T}
    (hnone : registerAccess currentPid m (s.mySlot currentPid) pc = none) :
    RegisterState.step pidOf currentPid ⟨s.onTable m, pc⟩ .register ≠ some c' := by
  intro hst
  obtain ⟨-, hmap⟩ := Option.ite_none_right_eq_some.mp hst
  obtain ⟨out, hout, -⟩ := Option.map_eq_some_iff.mp hmap
  exact absurd (hnone.symm.trans hout) (by simp)

omit [DecidableEq T] in
/-- One store more. -/
theorem RegisterPc.Ahead.store {m m' : SlotTable} {done found : Bool} {n : ℕ} {f : SlotField}
    {fs : List SlotField} (h : (RegisterPc.store n f fs found).Ahead currentPid m m' done) :
    (RegisterPc.storing n found fs).Ahead currentPid
      (m.setField n f (f.get (.registered currentPid))) m' done := by
  obtain ⟨⟨rfl, hdone, hfresh, hn⟩, stored, hstored, rfl⟩ := h
  have hmore : (m'.setSlot n (copyInto (.registered currentPid) stored (m'.procs n))).setField n f
      (f.get (.registered currentPid)) =
      m'.setSlot n (copyInto (.registered currentPid) (stored ++ [f]) (m'.procs n)) := by
    have hself : (m'.setSlot n (copyInto (.registered currentPid) stored (m'.procs n))).procs n =
        copyInto (.registered currentPid) stored (m'.procs n) := Function.update_self _ _ _
    rw [SlotTable.setField, hself, copyInto, copyInto, List.foldl_append]
    simp only [SlotTable.setSlot, Function.update_idem]
    rfl
  rw [hmore]
  have happend : (stored ++ [f]) ++ fs = initFields := by
    rw [List.append_assoc]
    exact hstored
  cases fs with
  | nil =>
    rw [List.append_nil] at happend
    refine ⟨⟨hdone, hfresh, hn⟩, ?_⟩
    rw [happend, copyInto_initFields]
  | cons g fs => exact ⟨⟨rfl, hdone, hfresh, hn⟩, stored ++ [f], happend, rfl⟩

/-- **An access of the registrar** is no step of the other machine, and the increment of `proc_num`
is its registration. -/
theorem RegisterState.Matches.register (h : c.Matches pidOf currentPid a)
    (hst : c.step pidOf currentPid .register = some c') :
    c'.Matches pidOf currentPid a ∨
      ∃ a', claimStep pidOf currentPid a .register = some a' ∧ c'.Matches pidOf currentPid a' := by
  obtain ⟨access, registrar⟩ := c
  obtain ⟨hbelow, haccess, hahead⟩ := h
  dsimp only at haccess hahead
  rw [haccess] at hst
  generalize access.table = m at hst hahead
  -- an access that leaves the other machine where it is
  have hstutter : ∀ {m' pc'},
      registerAccess currentPid m (a.1.mySlot currentPid) registrar =
        some (m', a.1.mySlot currentPid, pc') →
      pc'.Ahead currentPid m' a.1.table a.2 → c'.Matches pidOf currentPid a := by
    intro m' pc' hacc hnew
    obtain ⟨-, rfl⟩ := step_register hst hacc
    rw [Function.update_eq_self]
    exact ⟨hbelow, rfl, hnew⟩
  cases registrar with
  | loadNum =>
    obtain ⟨rfl, hdone, hfresh⟩ := hahead
    left
    by_cases hfull : (sharedRegionMaxProcessNum : ℤ) ≤ a.1.table.procNum
    · exact hstutter (if_pos hfull) ⟨rfl, hdone⟩
    · cases hn : a.1.table.procNum.toNat? with
      | none =>
        refine absurd hst (not_step_register ?_)
        rw [registerAccess, if_neg hfull, hn]
        rfl
      | some n =>
        have hload : registerAccess currentPid a.1.table (a.1.mySlot currentPid) .loadNum =
            some (a.1.table, a.1.mySlot currentPid, .next n 0) := by
          rw [registerAccess, if_neg hfull, hn]
          rfl
        refine hstutter hload ?_
        rw [hdone]
        exact RegisterPc.ahead_next hfresh (Int.mem_toNat?.mp hn)
  | search procNum i =>
    obtain ⟨rfl, hdone, hfresh, hn, hi⟩ := hahead
    left
    have hne : (a.1.table.procs i).pid ≠ currentPid := hfresh i (by omega)
    refine hstutter (if_neg hne) ?_
    rw [hdone]
    exact RegisterPc.ahead_next hfresh hn
  | store n f fs found =>
    left
    have hnew := hahead.store
    obtain ⟨⟨rfl, -⟩, -⟩ := hahead
    exact hstutter rfl hnew
  | publish n =>
    obtain ⟨⟨hdone, hfresh, hn⟩, hm⟩ := hahead
    right
    obtain ⟨hlive, rfl⟩ := step_register hst rfl
    obtain ⟨htable, hmy⟩ := claimSlot_of_fresh hfresh hn
    have hclaim : claimStep pidOf currentPid a .register =
        some (⟨{ m with procNum := m.procNum + 1 },
          Function.update a.1.mySlot currentPid (some n), a.1.alive, a.1.pc⟩, true) := by
      rw [claimStep, if_pos ⟨hlive, hdone⟩, Int.mem_toNat?.mpr hn]
      dsimp only [Option.map_some]
      rw [htable, hmy, hm]
      rfl
    refine ⟨_, hclaim, ⟨hbelow.usageOnly, fun t => ?_, fun t i hi => ?_⟩, rfl, rfl, rfl⟩
    · refine (hbelow.pcs t).mono ?_
      show a.1.table.procNum ≤ m.procNum + 1
      rw [hm]
      show a.1.table.procNum ≤ a.1.table.procNum + 1
      omega
    · have hi' : Function.update a.1.mySlot currentPid (some n) (pidOf t) = some i := hi
      show (i : ℤ) < m.procNum + 1
      have hnum : m.procNum = n := by
        rw [hm]
        exact hn
      by_cases ht : pidOf t = currentPid
      · rw [ht, Function.update_self] at hi'
        cases hi'
        omega
      · rw [Function.update_of_ne ht] at hi'
        have hlt := hbelow.pointers t i hi'
        omega
  | registered i => exact absurd hst (not_step_register rfl)
  | exited => exact absurd hst (not_step_register rfl)

/-- **Registration is atomic for everybody else.**  In every interleaving of a registration of a
process without a leftover slot with charges, releases, reads and kills, there is a run of the
machine in which `claimSlot` is one step, at the end of which every thread stands where it does
here, with the same results, the same processes are alive and the registered slots are the same.
The one step has been taken where `proc_num` has been incremented, and then the whole table is the
same; until then the new slot is not there. -/
theorem registration_atomic {s : AccessState T} {c : RegisterState T} (hs : s.Below pidOf)
    (hfresh : ∀ i : ℕ, (i : ℤ) < s.table.procNum → (s.table.procs i).pid ≠ currentPid)
    (hrun : GuardedRun (RegisterState.step pidOf currentPid) (fun _ l => l.UsageOnly)
      ⟨s, .loadNum⟩ c) :
    ∃ (u : AccessState T) (done : Bool),
      GuardedRun (claimStep pidOf currentPid) (fun _ l => l.UsageOnly) (s, false) (u, done) ∧
        u.pc = c.access.pc ∧ u.alive = c.access.alive ∧ u.mySlot = c.access.mySlot ∧
        u.table.procNum = c.access.table.procNum ∧
        (∀ i : ℕ, (i : ℤ) < u.table.procNum → u.table.procs i = c.access.table.procs i) ∧
        (done = true ↔ ∃ i, c.registrar = .registered i) ∧
        (done = true → u.table = c.access.table) := by
  have hstart : RegisterState.Matches pidOf currentPid ⟨s, .loadNum⟩ (s, false) :=
    ⟨hs, rfl, rfl, rfl, hfresh⟩
  obtain ⟨⟨u, done⟩, hclaim, hbelow, haccess, hahead⟩ :
      ∃ a, GuardedRun (claimStep pidOf currentPid) (fun _ l => l.UsageOnly) (s, false) a ∧
        c.Matches pidOf currentPid a := by
    refine hrun.simulate (fun c l c' a h hl hst => ?_) hstart
    cases l with
    | other l =>
      obtain ⟨a', hstep, ha'⟩ := h.other hl hst
      exact Or.inr ⟨.other l, a', hl, hstep, ha'⟩
    | register =>
      rcases h.register hst with hstutter | ⟨a', hstep, ha'⟩
      · exact Or.inl hstutter
      · exact Or.inr ⟨.register, a', trivial, hstep, ha'⟩
  obtain ⟨hsame, hdone, htable⟩ := hahead.agree
  refine ⟨u, done, hclaim, ?_, ?_, ?_, hsame.1, hsame.2, hdone, htable⟩
  · rw [haccess]
    rfl
  · rw [haccess]
    rfl
  · rw [haccess]
    rfl

end Atomic

/-! ## A charge during a registration -/

/-- Process 2 has looked for a leftover slot and begins to write the new one; process 1 charges 5
bytes meanwhile. -/
def chargeAndRegister : List (RegisterLabel Bool) :=
  .register :: .register :: .register :: .other (.call false (.update ⟨(· + ·), 1, 0, 5, 2⟩)) ::
    List.replicate 5 (.other (.access false .alive)) ++ List.replicate 100 .register

theorem chargeAndRegister_usageOnly : ∀ l ∈ chargeAndRegister, l.UsageOnly := by
  intro l hl
  simp only [chargeAndRegister, List.cons_append, List.mem_cons, List.mem_append,
    List.mem_replicate] at hl
  rcases hl with rfl | rfl | rfl | rfl | ⟨-, rfl⟩ | ⟨-, rfl⟩
  case inr.inr.inr.inl => exact Or.inl rfl
  all_goals trivial

set_option maxRecDepth 4000 in
/-- Both have an effect, and the same as if the registration had been one step. -/
theorem registration_atomic_chargeAndRegister :
    ∃ (c : RegisterState Bool) (u : AccessState Bool), c.access.table.procNum = 2 ∧
      ((c.access.table.procs 0).used 0).total = 5 ∧
      GuardedRun (claimStep writerAndBystander 2) (fun _ l => l.UsageOnly) (oneRegistered, false)
        (u, true) ∧ u.table = c.access.table := by
  obtain ⟨c, hexec, hreg, hnum, hfive⟩ : ∃ c, exec (RegisterState.step writerAndBystander 2)
      (fun _ _ => true) chargeAndRegister ⟨oneRegistered, .loadNum⟩ = some c ∧
      c.registrar = .registered 1 ∧ c.access.table.procNum = 2 ∧
      ((c.access.table.procs 0).used 0).total = 5 := ⟨_, rfl, rfl, rfl, rfl⟩
  have hbelow : oneRegistered.Below writerAndBystander := by
    refine ⟨fun _ => trivial, fun _ => trivial, fun t i hi => ?_⟩
    cases t with
    | false =>
      cases hi
      decide
    | true => cases hi
  have hfresh : ∀ i : ℕ, (i : ℤ) < oneRegistered.table.procNum →
      (oneRegistered.table.procs i).pid ≠ 2 := by
    intro i hi
    obtain rfl : i = 0 := by
      have hone : (i : ℤ) < 1 := hi
      omega
    decide
  obtain ⟨u, done, hrun, -, -, -, -, -, hdone, htable⟩ := registration_atomic hbelow hfresh
    (GuardedRun.of_exec (fun l hl _ _ => chargeAndRegister_usageOnly l hl) hexec)
  obtain rfl : done = true := hdone.mpr ⟨1, hreg⟩
  exact ⟨c, u, hnum, hfive, hrun, htable rfl⟩

end HamiCore
