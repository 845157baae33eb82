import HamiCore.Library.GuardedRun
import HamiCore.Region.Registration

/-!
# The slot table over the life of its processes

Processes start, fork, register, run their exit handler, are killed, and compact the table; a pid is
free again as soon as its process is gone.  Each operation is one step, taken under the region's
lock where the source takes it, and `proc_alive` may answer anything except that a live process is
dead.

A process is its copy of `region_info`.  A child inherits the parent's copy, so that its `my_slot`
points at the parent's slot and its `pid` is the parent's, until it registers under its own pid;
`child_reinit_flag` has reset `init_status` by then, and that keeps the exit handler of a child that
never registers from touching the slot of its parent.

`Container` follows the cached pointers and drops a process when it leaves the table; here the
pointers may be stale, and the result is about the table alone.  `slot_table_invariant`: in every
reachable state the table has room for its entries, no pid is registered twice, every live process
that has registered and not run its exit handler has exactly one registered slot, and no step
changes a registered slot of a live process other than the one that moves.
-/

namespace HamiCore

/-- `region_info` of one process.  `exited` records that `exit_handler` has marked the slot. -/
structure ProcessInfo where
  initialized : Bool
  attached : Bool
  pid : Pid
  mySlot : Option ℕ
  exited : Bool
  deriving DecidableEq

/-- The region and the live processes, by pid. -/
structure ProcessTable where
  region : SharedRegion
  process : Pid → Option ProcessInfo

/-- What a process, or the kernel on its behalf, can do. -/
inductive ProcessOp where
  /-- A program is started under a pid no live process has. -/
  | start (p : Pid)
  /-- `fork`, with `child_reinit_flag` in the child. -/
  | fork (parent child : Pid)
  /-- The first `ensure_initialized`: `try_create_shrreg` and `init_proc_slot_withlock`. -/
  | register (p : Pid) (procAlive : Pid → ProcState)
  | exitHandler (p : Pid)
  | kill (p : Pid)
  | clear (p : Pid) (procAlive : Pid → ProcState)

namespace ProcessInfo

/-- Static data of a program that has not called the library: `region_info` is zero. -/
def fresh : ProcessInfo := ⟨false, false, 0, none, false⟩

/-- The child's copy: `child_reinit_flag` sets `init_status` back. -/
def childReinitFlag (info : ProcessInfo) : ProcessInfo :=
  { info with initialized := false, exited := false }

end ProcessInfo

namespace ProcessTable

/-- Give pid `p` a process, or take it away. -/
def set (t : ProcessTable) (p : Pid) (info : Option ProcessInfo) : ProcessTable :=
  { t with process := Function.update t.process p info }

/-- The process of pid `p` registers.  On a full table `exit_withlock` ends it, and its exit handler
runs. -/
def register (t : ProcessTable) (p : Pid) (info : ProcessInfo) (procAlive : Pid → ProcState) :
    ProcessTable :=
  match initProcSlotWithlock procAlive ⟨p, t.region, info.mySlot⟩ with
  | some view =>
    { t with region := view.sharedRegion }.set p
      (some { info with initialized := true, attached := true, pid := p, mySlot := view.mySlot })
  | none => { t with region := HamiCore.exitHandler p t.region }.set p none

/-- One operation. -/
def step (t : ProcessTable) : ProcessOp → Option ProcessTable
  | .start p =>
    if p ≠ 0 ∧ t.process p = none then some (t.set p (some .fresh)) else none
  | .fork parent child =>
    match t.process parent with
    | some info =>
      if child ≠ 0 ∧ t.process child = none then some (t.set child (some info.childReinitFlag))
      else none
    | none => none
  | .register p procAlive =>
    match t.process p with
    | some info => if info.initialized then none else some (t.register p info procAlive)
    | none => none
  | .exitHandler p =>
    match t.process p with
    | some info =>
      if info.initialized = false ∨ info.attached = false then some t
      else some ({ t with region := HamiCore.exitHandler info.pid t.region }.set p
        (some { info with exited := true }))
    | none => none
  | .kill p =>
    match t.process p with
    | some _ => some (t.set p none)
    | none => none
  | .clear p procAlive =>
    match t.process p with
    | some info =>
      if info.attached then
        let view := (clearProcSlotNolock procAlive 1 ⟨info.pid, t.region, info.mySlot⟩).1
        some ({ t with region := view.sharedRegion }.set p
          (some { info with mySlot := view.mySlot }))
      else none
    | none => none

/-- The process of pid `p` is live. -/
def Alive (t : ProcessTable) (p : Pid) : Prop := (t.process p).isSome

/-- The process of pid `p` is live, has registered, and has not run its exit handler. -/
def Registered (t : ProcessTable) (p : Pid) : Prop :=
  ∃ info, t.process p = some info ∧ info.initialized = true ∧ info.exited = false

/-- A region just created, and no process. -/
def Fresh (t : ProcessTable) : Prop := t.region.procNum = 0 ∧ ∀ p, t.process p = none

end ProcessTable

/-- The pid an operation is made by. -/
def ProcessOp.actor : ProcessOp → Pid
  | .start p | .fork p _ | .register p _ | .exitHandler p | .kill p | .clear p _ => p

/-- `proc_alive` never reports a live process dead. -/
def ProcessOp.Sound (t : ProcessTable) : ProcessOp → Prop
  | .register _ procAlive => ∀ q, t.Alive q → procAlive q ≠ .nonalive
  | .clear _ procAlive => ∀ q, t.Alive q → procAlive q ≠ .nonalive
  | _ => True

/-! ## Registered contents -/

/-- Some registered slot has exactly these contents. -/
def SharedRegion.Holds (r : SharedRegion) (s : ShrregProcSlot) : Prop :=
  ∃ i < r.procNum, r.procs i = s

/-- A compaction loses no slot that is not droppable. -/
theorem SharedRegion.Holds.clear {procAlive : Pid → ProcState} {doClear : ℤ} {info : RegionInfo}
    {s : ShrregProcSlot} (h : info.sharedRegion.Holds s) (hkeep : ¬ s.Droppable procAlive) :
    (clearProcSlotNolock procAlive doClear info).1.sharedRegion.Holds s := by
  refine clearProcSlotNolock_induction (P := fun i => i.sharedRegion.Holds s)
    (fun i slot hi hlt hdrop => ?_) h
  obtain ⟨k, hk, rfl⟩ := hi
  have hne : k ≠ slot := by
    rintro rfl
    exact hkeep hdrop
  by_cases htail : k = i.sharedRegion.procNum - 1
  · refine ⟨slot, ?_, ?_⟩
    · rw [removeSlot_procNum]
      omega
    · rw [removeSlot_procs_self _ _ (by omega), ← htail]
  · refine ⟨k, ?_, ?_⟩
    · rw [removeSlot_procNum]
      omega
    · exact removeSlot_procs_of_ne _ _ (by omega) hne

/-- Claiming a slot leaves the registered slots of other pids as they are. -/
theorem SharedRegion.Holds.claimSlot {info : RegionInfo} {s : ShrregProcSlot}
    (h : info.sharedRegion.Holds s) (hs : s.pid ≠ info.pid) :
    (claimSlot info).sharedRegion.Holds s := by
  obtain ⟨i, hi, rfl⟩ := h
  exact ⟨i, hi.trans_le (claimSlot_procNum_ge info), claimSlot_procs hi hs⟩

theorem SharedRegion.Holds.exitHandler {r : SharedRegion} {s : ShrregProcSlot} {p : Pid}
    (h : r.Holds s) (hs : s.pid ≠ p) : (HamiCore.exitHandler p r).Holds s := by
  obtain ⟨i, hi, rfl⟩ := h
  exact ⟨i, by rwa [exitHandler_procNum], exitHandler_procs hs⟩

/-! ## The invariant -/

namespace ProcessTable

/-- What every operation preserves.  Nothing is said about `my_slot`: a stale pointer makes a
compaction clear an entry past `proc_num`, and no registered one. -/
structure Inv (t : ProcessTable) : Prop where
  procNum_le : t.region.procNum ≤ sharedRegionMaxProcessNum
  distinct : t.region.PidsDistinct
  zero_free : t.process 0 = none
  pid_eq : ∀ p info, t.process p = some info → info.initialized = true → info.pid = p
  registered : ∀ p, t.Registered p → ∃ s : ShrregProcSlot, t.region.Holds s ∧ s.pid = p

/-- **What a step does to the table.**  The registered slots of every live process but the actor are
still registered, with the same contents. -/
def KeepsOthers (t : ProcessTable) (actor : Pid) (r' : SharedRegion) : Prop :=
  ∀ s : ShrregProcSlot, t.region.Holds s → t.Alive s.pid → s.pid ≠ actor → r'.Holds s

theorem Fresh.inv {t : ProcessTable} (h : t.Fresh) : t.Inv where
  procNum_le := by
    rw [h.1]
    exact Nat.zero_le _
  distinct i j hi := by
    rw [h.1] at hi
    exact absurd hi (Nat.not_lt_zero i)
  zero_free := h.2 0
  pid_eq p info hp := by
    rw [h.2 p] at hp
    exact absurd hp (by simp)
  registered p hp := by
    obtain ⟨info, hinfo, -⟩ := hp
    rw [h.2 p] at hinfo
    exact absurd hinfo (by simp)

@[simp] theorem set_process_self (t : ProcessTable) (p : Pid) (info : Option ProcessInfo) :
    (t.set p info).process p = info := Function.update_self _ _ _

theorem set_process_of_ne (t : ProcessTable) {p q : Pid} (h : q ≠ p) (info : Option ProcessInfo) :
    (t.set p info).process q = t.process q := Function.update_of_ne h _ _

theorem Registered.alive {t : ProcessTable} {p : Pid} (h : t.Registered p) : t.Alive p := by
  obtain ⟨info, hinfo, -⟩ := h
  rw [Alive, hinfo]
  rfl

theorem Inv.ne_zero_of_alive {t : ProcessTable} (h : t.Inv) {p : Pid} (hp : t.Alive p) :
    p ≠ 0 := by
  rintro rfl
  rw [Alive, h.zero_free] at hp
  exact absurd hp (by simp)

theorem alive_of_process {t : ProcessTable} {p : Pid} {info : ProcessInfo}
    (h : t.process p = some info) : t.Alive p := by
  rw [Alive, h]
  rfl

/-- **One step of one process.**  A new region that is in order and keeps the slots of the others,
and a new record for one pid that is in order, keep the invariant and the slots of the others. -/
theorem Inv.set {t : ProcessTable} (h : t.Inv) {r' : SharedRegion} {p : Pid}
    {info : Option ProcessInfo} (hnum : r'.procNum ≤ sharedRegionMaxProcessNum)
    (hdistinct : r'.PidsDistinct) (h0 : info ≠ none → p ≠ 0) (hkeep : t.KeepsOthers p r')
    (hpid : ∀ i, info = some i → i.initialized = true → i.pid = p)
    (hslot : ∀ i, info = some i → i.initialized = true → i.exited = false →
      ∃ s : ShrregProcSlot, r'.Holds s ∧ s.pid = p) :
    Inv ({ t with region := r' }.set p info) ∧
      t.KeepsOthers p ({ t with region := r' }.set p info).region := by
  refine ⟨⟨hnum, hdistinct, ?_, fun q i hq => ?_, fun q hq => ?_⟩, hkeep⟩
  · by_cases hp : (0 : Pid) = p
    · have hnone : info = none := by
        by_contra hsome
        exact h0 hsome hp.symm
      rw [hp, set_process_self, hnone]
    · rw [set_process_of_ne _ hp]
      exact h.zero_free
  · by_cases hqp : q = p
    · rw [hqp, set_process_self] at hq
      rw [hqp]
      exact hpid i hq
    · rw [set_process_of_ne _ hqp] at hq
      exact h.pid_eq q i hq
  · obtain ⟨i, hi, hinit, hexit⟩ := hq
    by_cases hqp : q = p
    · rw [hqp, set_process_self] at hi
      rw [hqp]
      exact hslot i hi hinit hexit
    · rw [set_process_of_ne _ hqp] at hi
      obtain ⟨s, hs, hsq⟩ := h.registered q ⟨i, hi, hinit, hexit⟩
      exact ⟨s, hkeep s hs (by rw [hsq]; exact alive_of_process hi) (by rwa [hsq]), hsq⟩

theorem KeepsOthers.refl (t : ProcessTable) (p : Pid) : t.KeepsOthers p t.region :=
  fun _ hs _ _ => hs

/-- A live process's slot is not droppable under a sound oracle. -/
theorem Inv.not_droppable {t : ProcessTable} (h : t.Inv) {procAlive : Pid → ProcState}
    (hsound : ∀ q, t.Alive q → procAlive q ≠ .nonalive) {s : ShrregProcSlot} (hs : t.Alive s.pid) :
    ¬ s.Droppable procAlive := by
  rintro (h0 | hdead)
  · exact h.ne_zero_of_alive hs h0
  · exact hsound _ hs hdead

theorem Inv.keepsOthers_clear {t : ProcessTable} (h : t.Inv) {procAlive : Pid → ProcState}
    (hsound : ∀ q, t.Alive q → procAlive q ≠ .nonalive) (p pid : Pid) (mySlot : Option ℕ) :
    t.KeepsOthers p (clearProcSlotNolock procAlive 1 ⟨pid, t.region, mySlot⟩).1.sharedRegion :=
  fun _ hs halive _ => SharedRegion.Holds.clear hs (h.not_droppable hsound halive)

theorem keepsOthers_exitHandler (t : ProcessTable) (p : Pid) :
    t.KeepsOthers p (HamiCore.exitHandler p t.region) :=
  fun _ hs _ hne => hs.exitHandler hne

/-- `proc_num` never grows in a compaction. -/
theorem clear_procNum_le (procAlive : Pid → ProcState) (info : RegionInfo) :
    (clearProcSlotNolock procAlive 1 info).1.sharedRegion.procNum ≤ info.sharedRegion.procNum :=
  clearLoop_procNum_le _ _ _ _ _

/-- **Registration.** -/
theorem Inv.register {t : ProcessTable} (h : t.Inv) {procAlive : Pid → ProcState} {p : Pid}
    {info : ProcessInfo} (hp : t.process p = some info)
    (hsound : ∀ q, t.Alive q → procAlive q ≠ .nonalive) :
    (t.register p info procAlive).Inv ∧ t.KeepsOthers p (t.register p info procAlive).region := by
  have h0 := h.ne_zero_of_alive (alive_of_process hp)
  unfold ProcessTable.register initProcSlotWithlock
  split_ifs with hfull
  · refine h.set ?_ (exitHandler_pidsDistinct h.distinct) (fun hnone => absurd rfl hnone)
      (keepsOthers_exitHandler t p) ?_ ?_
    · rw [exitHandler_procNum]
      exact h.procNum_le
    · intro i hi
      exact absurd hi (by simp)
    · intro i hi
      exact absurd hi (by simp)
  · dsimp only at hfull ⊢
    have hkeep : t.KeepsOthers p (clearProcSlotNolock procAlive 1
        (claimSlot ⟨p, t.region, info.mySlot⟩)).1.sharedRegion := fun s hs halive hne =>
      SharedRegion.Holds.clear (SharedRegion.Holds.claimSlot hs hne) (h.not_droppable hsound halive)
    refine h.set ?_ ?_ (fun _ => h0) hkeep ?_ ?_
    · have hclear := clear_procNum_le procAlive (claimSlot ⟨p, t.region, info.mySlot⟩)
      have hclaim := claimSlot_procNum_le ⟨p, t.region, info.mySlot⟩
      dsimp only at hclaim
      omega
    · exact clearProcSlotNolock_pidsDistinct (claimSlot_pidsDistinct h.distinct)
    · intro i hi _
      rw [← Option.some.inj hi]
    · intro i _ _ _
      obtain ⟨k, -, hk, hkp⟩ := claimSlot_mySlot ⟨p, t.region, info.mySlot⟩
      refine ⟨_, SharedRegion.Holds.clear ⟨k, hk, rfl⟩ ?_, hkp⟩
      refine h.not_droppable hsound ?_
      rw [hkp]
      exact alive_of_process hp

/-- A process that has not registered needs nothing of the region. -/
theorem Inv.unregistered {t : ProcessTable} (h : t.Inv) {p : Pid} {info : ProcessInfo} (h0 : p ≠ 0)
    (hinit : info.initialized = false) : (t.set p (some info)).Inv := by
  refine (h.set h.procNum_le h.distinct (fun _ => h0) (KeepsOthers.refl t p) ?_ ?_).1
  · intro i hi hi'
    rw [← Option.some.inj hi, hinit] at hi'
    exact absurd hi' (by simp)
  · intro i hi hi'
    rw [← Option.some.inj hi, hinit] at hi'
    exact absurd hi' (by simp)

/-- The exit handler of a live process. -/
theorem Inv.exitHandler {t : ProcessTable} (h : t.Inv) {p : Pid} {info : ProcessInfo}
    (hp : t.process p = some info) (hpid : info.pid = p) {r' : SharedRegion}
    (hr : HamiCore.exitHandler info.pid t.region = r') :
    ({ t with region := r' }.set p (some { info with exited := true })).Inv ∧
      t.KeepsOthers p r' := by
  rw [hpid] at hr
  refine h.set ?_ ?_ (fun _ => h.ne_zero_of_alive (alive_of_process hp)) ?_ ?_ ?_
  · rw [← hr, exitHandler_procNum]
    exact h.procNum_le
  · rw [← hr]
    exact exitHandler_pidsDistinct h.distinct
  · rw [← hr]
    exact keepsOthers_exitHandler t p
  · intro i hi _
    rw [← Option.some.inj hi]
    exact hpid
  · intro i hi _ hexit
    rw [← Option.some.inj hi] at hexit
    exact absurd hexit (by simp)

/-- A compaction by a live process. -/
theorem Inv.clear {t : ProcessTable} (h : t.Inv) {p : Pid} {procAlive : Pid → ProcState}
    (hsound : (ProcessOp.clear p procAlive).Sound t) {info : ProcessInfo}
    (hp : t.process p = some info) :
    let view := (clearProcSlotNolock procAlive 1 ⟨info.pid, t.region, info.mySlot⟩).1
    ({ t with region := view.sharedRegion }.set p (some { info with mySlot := view.mySlot })).Inv ∧
      t.KeepsOthers p view.sharedRegion := by
  refine h.set ?_ (clearProcSlotNolock_pidsDistinct h.distinct)
    (fun _ => h.ne_zero_of_alive (alive_of_process hp))
    (h.keepsOthers_clear hsound p info.pid info.mySlot) ?_ ?_
  · exact (clear_procNum_le procAlive ⟨info.pid, t.region, info.mySlot⟩).trans h.procNum_le
  · intro i hi hinit
    rw [← Option.some.inj hi] at hinit ⊢
    exact h.pid_eq p info hp hinit
  · intro i hi hinit hexit
    rw [← Option.some.inj hi] at hinit hexit
    obtain ⟨s, hs, hsp⟩ := h.registered p ⟨info, hp, hinit, hexit⟩
    refine ⟨s, SharedRegion.Holds.clear hs (h.not_droppable hsound ?_), hsp⟩
    rw [hsp]
    exact alive_of_process hp

/-- **One operation** keeps the invariant and the slots of everybody else. -/
theorem Inv.step {t t' : ProcessTable} (h : t.Inv) {op : ProcessOp} (hsound : op.Sound t)
    (hst : t.step op = some t') : t'.Inv ∧ t.KeepsOthers op.actor t'.region := by
  cases op with
  | start p =>
    simp only [ProcessTable.step] at hst
    split_ifs at hst with hfree
    · cases hst
      exact ⟨h.unregistered hfree.1 rfl, KeepsOthers.refl t _⟩
  | fork parent child =>
    simp only [ProcessTable.step] at hst
    split at hst
    · split_ifs at hst with hfree
      · cases hst
        exact ⟨h.unregistered hfree.1 rfl, KeepsOthers.refl t _⟩
    · exact absurd hst (by simp)
  | register p procAlive =>
    simp only [ProcessTable.step] at hst
    split at hst
    · next info hp =>
      split_ifs at hst
      cases hst
      exact h.register hp hsound
    · exact absurd hst (by simp)
  | exitHandler p =>
    simp only [ProcessTable.step] at hst
    split at hst
    · next info hp =>
      split_ifs at hst with hguard
      · cases hst
        exact ⟨h, KeepsOthers.refl t _⟩
      · rw [not_or] at hguard
        have hpid : info.pid = p := h.pid_eq p info hp (by simpa using hguard.1)
        generalize hr : HamiCore.exitHandler info.pid t.region = r' at hst
        rw [← Option.some.inj hst]
        exact h.exitHandler hp hpid hr
    · exact absurd hst (by simp)
  | kill p =>
    simp only [ProcessTable.step] at hst
    split at hst
    · cases hst
      refine h.set h.procNum_le h.distinct (fun hnone => absurd rfl hnone) (KeepsOthers.refl t p)
        ?_ ?_
      · intro i hi
        exact absurd hi (by simp)
      · intro i hi
        exact absurd hi (by simp)
    · exact absurd hst (by simp)
  | clear p procAlive =>
    simp only [ProcessTable.step] at hst
    split at hst
    · next info hp =>
      split_ifs at hst
      cases hst
      exact h.clear hsound hp
    · exact absurd hst (by simp)

end ProcessTable

/-! ## Whole runs -/

/-- **The slot table.**  In every state reached from an empty table by starts, forks, registrations,
exit handlers, kills and compactions of any number of processes, in any order, under an oracle that
reports no live process dead: `proc_num` is at most 1024, registered non-zero pids are pairwise
distinct, every live process that has registered and not run its exit handler has exactly one
registered slot, and whatever the next operation is, every registered slot of another live process
is still registered after it with the same contents, at the same or another place. -/
theorem slot_table_invariant {t t' : ProcessTable} (ht : t.Fresh)
    (hrun : GuardedRun ProcessTable.step (fun t op => op.Sound t) t t') :
    t'.region.procNum ≤ sharedRegionMaxProcessNum ∧ t'.region.PidsDistinct ∧
      (∀ p, t'.Registered p → ∃! i, i < t'.region.procNum ∧ (t'.region.procs i).pid = p) ∧
      ∀ (op : ProcessOp) (t'' : ProcessTable), op.Sound t' → t'.step op = some t'' →
        ∀ i < t'.region.procNum, t'.Alive (t'.region.procs i).pid →
          (t'.region.procs i).pid ≠ op.actor →
          ∃ j < t''.region.procNum, t''.region.procs j = t'.region.procs i := by
  have hinv : t'.Inv := hrun.invariant (P := ProcessTable.Inv)
    (fun _ _ _ hI hok hst => (hI.step hok hst).1) ht.inv
  refine ⟨hinv.procNum_le, hinv.distinct, fun p hp => ?_,
    fun op t'' hsound hst i hi halive hne => ?_⟩
  · obtain ⟨s, ⟨i, hi, rfl⟩, hip⟩ := hinv.registered p hp
    refine ⟨i, ⟨hi, hip⟩, fun j hj => ?_⟩
    have hj0 : (t'.region.procs j).pid ≠ 0 := by
      rw [hj.2]
      exact hinv.ne_zero_of_alive hp.alive
    exact hinv.distinct j i hj.1 hi hj0 (hj.2.trans hip.symm)
  · exact (hinv.step hsound hst).2 _ ⟨i, hi, rfl⟩ halive hne

/-- No process, and the region as the first one finds it. -/
def ProcessTable.empty : ProcessTable := ⟨⟨fun _ => 0, fun _ => .blank, 0⟩, fun _ => none⟩

/-- Process 7 registers, forks 8 and is killed; 8 registers, a new process 7 finds the slot of the
old one, 8 exits, and 7 compacts. -/
def forkKillReuse : List ProcessOp :=
  [.start 7, .register 7 fun _ => .alive, .fork 7 8, .kill 7, .register 8 fun _ => .alive, .start 7,
    .register 7 fun _ => .unknown, .exitHandler 8, .clear 7 fun _ => .alive]

theorem exec_forkKillReuse :
    (exec ProcessTable.step (fun _ _ => true) forkKillReuse ProcessTable.empty).map
      (fun t => (t.region.procNum, t.process 7)) =
    some (1, some ⟨true, true, 7, some 0, false⟩) := by
  decide +kernel

theorem forkKillReuse_sound : ∀ op ∈ forkKillReuse, ∀ t, op.Sound t := by
  simp only [forkKillReuse, List.forall_mem_cons]
  simp [ProcessOp.Sound]

/-- In that run the reused pid ends up with its one slot. -/
theorem slot_table_invariant_forkKillReuse :
    ∃ t : ProcessTable, t.region.procNum = 1 ∧ t.Registered 7 ∧
      ∃! i, i < t.region.procNum ∧ (t.region.procs i).pid = 7 := by
  obtain ⟨t, hexec, ht⟩ := Option.map_eq_some_iff.mp exec_forkKillReuse
  have hrun : GuardedRun ProcessTable.step (fun t op => op.Sound t) ProcessTable.empty t :=
    GuardedRun.of_exec (fun op hop t _ => forkKillReuse_sound op hop t) hexec
  have hreg : t.Registered 7 := ⟨_, congrArg Prod.snd ht, rfl, rfl⟩
  obtain ⟨-, -, hslot, -⟩ := slot_table_invariant ⟨rfl, fun _ => rfl⟩ hrun
  exact ⟨t, congrArg Prod.fst ht, hreg, hslot 7 hreg⟩

end HamiCore
