import HamiCore.Region.Registration

/-!
# Getting a slot

Two promises of `init_proc_slot_withlock`.  The slot it hands out is a fresh one: that fails for a
leftover slot of the same pid, which is reset except for its `hostpid` (`freshSlot_iff`).  And there
is a slot as long as there is room for the living: that fails for a table filled up by processes
that have left, because the table is tested before it is compacted (`registers_iff`).
-/

namespace HamiCore

/-- A slot as a new process of the given pid should find it. -/
structure ShrregProcSlot.Fresh (s : ShrregProcSlot) (pid : Pid) : Prop where
  pid_eq : s.pid = pid
  hostpid : s.hostpid = 0
  status : s.status = 1
  seqlock : s.seqlock = 0
  total : ∀ d, (s.used d).total = 0
  contextSize : ∀ d, (s.used d).contextSize = 0
  moduleSize : ∀ d, (s.used d).moduleSize = 0
  dataSize : ∀ d, (s.used d).dataSize = 0
  smUtil : ∀ d, (s.deviceUtil d).smUtil = 0
  monitorused : ∀ d, s.monitorused d = 0

/-- The claimed slot is fresh, but for the host pid of a leftover. -/
theorem claimedSlot_fresh_iff (info : RegionInfo) :
    (claimedSlot info).Fresh info.pid ↔
      ∀ i, info.sharedRegion.findSlot info.pid = some i →
        (info.sharedRegion.procs i).hostpid = 0 := by
  have hpid := claimedSlot_pid info
  unfold claimedSlot at hpid ⊢
  cases hfind : info.sharedRegion.findSlot info.pid with
  | none =>
    refine iff_of_true ?_ (fun i hi => by cases hi)
    exact ⟨rfl, rfl, rfl, rfl, fun _ => rfl, fun _ => rfl, fun _ => rfl, fun _ => rfl,
      fun _ => rfl, fun _ => rfl⟩
  | some i =>
    rw [hfind] at hpid
    constructor
    · intro h j hj
      cases hj
      exact h.hostpid
    · intro h
      exact ⟨hpid, h i rfl, rfl, rfl, fun _ => rfl, fun _ => rfl, fun _ => rfl, fun _ => rfl,
        fun _ => rfl, fun _ => rfl⟩

/-- **When the slot is fresh.**  For every region, whatever the slots below and above `proc_num`
hold, and every answer of `proc_alive` that does not give the caller up: the caller's pointer is at
a registered slot that is fresh exactly when the leftover slot that was reused, if there was one,
had no host pid. -/
theorem freshSlot_iff {procAlive : Pid → ProcState} {info info' : RegionInfo}
    (h0 : info.pid ≠ 0) (hself : procAlive info.pid ≠ .nonalive)
    (h : initProcSlotWithlock procAlive info = some info') :
    (∃ i, info'.mySlot = some i ∧ i < info'.sharedRegion.procNum ∧
        (info'.sharedRegion.procs i).Fresh info.pid) ↔
      ∀ i, info.sharedRegion.findSlot info.pid = some i →
        (info.sharedRegion.procs i).hostpid = 0 := by
  obtain ⟨i, hi, hlt, hslot⟩ := initProcSlotWithlock_pointsAt h h0 hself
  rw [← claimedSlot_fresh_iff, ← hslot]
  constructor
  · rintro ⟨j, hj, -, hfresh⟩
    obtain rfl := Option.some.inj (hi.symm.trans hj)
    exact hfresh
  · exact fun hfresh => ⟨i, hi, hlt, hfresh⟩

/-- Process 7, in a region with one slot left over from an earlier process 7. -/
def leftoverInfo (hostpid : Pid) : RegionInfo :=
  ⟨7, ⟨fun _ => 0, fun _ => { ShrregProcSlot.blank with pid := 7, hostpid := hostpid }, 1⟩, none⟩

theorem leftoverInfo_registers (hostpid : Pid) :
    ∃ info', initProcSlotWithlock (fun _ => .alive) (leftoverInfo hostpid) = some info' :=
  ⟨_, if_neg (show ¬ sharedRegionMaxProcessNum ≤ 1 by decide)⟩

/-- A leftover without a host pid becomes a fresh slot. -/
theorem freshSlot_of_leftover_without_hostpid :
    ∃ info', initProcSlotWithlock (fun _ => .alive) (leftoverInfo 0) = some info' ∧
      ∃ i, info'.mySlot = some i ∧ i < info'.sharedRegion.procNum ∧
        (info'.sharedRegion.procs i).Fresh 7 := by
  obtain ⟨info', h⟩ := leftoverInfo_registers 0
  exact ⟨info', h, (freshSlot_iff (by decide) (by decide) h).mpr fun i _ => rfl⟩

/-- A leftover of host pid 4242 passes it on to the new process. -/
theorem leftover_hostpid_survives :
    ∃ info', initProcSlotWithlock (fun _ => .alive) (leftoverInfo 4242) = some info' ∧
      ¬ ∃ i, info'.mySlot = some i ∧ i < info'.sharedRegion.procNum ∧
        (info'.sharedRegion.procs i).Fresh 7 := by
  obtain ⟨info', h⟩ := leftoverInfo_registers 4242
  refine ⟨info', h, ?_⟩
  rintro ⟨j, hj, -, hfresh⟩
  obtain ⟨i, hi, -, hslot⟩ := initProcSlotWithlock_pointsAt h (by decide) (by decide)
  obtain rfl := Option.some.inj (hi.symm.trans hj)
  rw [hslot] at hfresh
  exact absurd hfresh.hostpid (by decide)

/-! ### Room in the table -/

/-- How many of the registered slots belong to live processes. -/
def SharedRegion.liveCount (procAlive : Pid → ProcState) (r : SharedRegion) : ℕ :=
  (List.range r.procNum).countP fun i =>
    (r.procs i).pid ≠ 0 ∧ procAlive (r.procs i).pid ≠ .nonalive

/-- The call returns with the caller registered and no more than 1024 slots in use.  (A caller that
`proc_alive` itself reports dead may lose its slot again to the compaction.) -/
def Registers (procAlive : Pid → ProcState) (info : RegionInfo) : Prop :=
  ∃ info', initProcSlotWithlock procAlive info = some info' ∧
    info'.sharedRegion.procNum ≤ sharedRegionMaxProcessNum ∧
    (info.pid ≠ 0 → procAlive info.pid ≠ .nonalive →
      ∃ i, info'.mySlot = some i ∧ i < info'.sharedRegion.procNum ∧
        (info'.sharedRegion.procs i).pid = info.pid)

/-- With an entry left in the table, the call does what it is for. -/
theorem registers_of_lt (procAlive : Pid → ProcState) {info : RegionInfo}
    (hlt : info.sharedRegion.procNum < sharedRegionMaxProcessNum) : Registers procAlive info := by
  have hinit : initProcSlotWithlock procAlive info
      = some (clearProcSlotNolock procAlive 1 (claimSlot info)).1 := if_neg (not_le.mpr hlt)
  refine ⟨_, hinit, ?_, fun h0 hself => ?_⟩
  · have hclear : (clearProcSlotNolock procAlive 1 (claimSlot info)).1.sharedRegion.procNum
        ≤ (claimSlot info).sharedRegion.procNum := clearLoop_procNum_le _ _ _ _ _
    have hclaim := claimSlot_procNum_le info
    omega
  · obtain ⟨i, hi, hi', hslot⟩ := initProcSlotWithlock_pointsAt hinit h0 hself
    exact ⟨i, hi, hi', by rw [hslot, claimedSlot_pid]⟩

/-- **When there is room for the living.**  A caller is registered whenever fewer than 1024 live
processes are, exactly when the table has an entry left without any compaction, or there is indeed
no room for the living. -/
theorem registers_iff (procAlive : Pid → ProcState) (info : RegionInfo) :
    (info.sharedRegion.liveCount procAlive < sharedRegionMaxProcessNum →
        Registers procAlive info) ↔
      info.sharedRegion.procNum < sharedRegionMaxProcessNum ∨
        sharedRegionMaxProcessNum ≤ info.sharedRegion.liveCount procAlive := by
  constructor
  · intro h
    by_contra hno
    obtain ⟨hfull, hroom⟩ := not_or.mp hno
    obtain ⟨info', hinit, -⟩ := h (not_le.mp hroom)
    rw [initProcSlotWithlock, if_pos (not_lt.mp hfull)] at hinit
    cases hinit
  · rintro (hlt | hfull) hroom
    · exact registers_of_lt procAlive hlt
    · exact absurd hroom (not_lt.mpr hfull)

/-- A table filled up by processes that have left. -/
def exitedTable : RegionInfo :=
  ⟨7, ⟨fun _ => 0, fun _ => ShrregProcSlot.blank, sharedRegionMaxProcessNum⟩, none⟩

/-- Nobody lives in the table, and the caller is turned away. -/
theorem registration_refused_without_live_process :
    exitedTable.sharedRegion.liveCount (fun _ => .alive) = 0 ∧
      ¬ (exitedTable.sharedRegion.liveCount (fun _ => .alive) < sharedRegionMaxProcessNum →
        Registers (fun _ => .alive) exitedTable) := by
  have hlive : exitedTable.sharedRegion.liveCount (fun _ => .alive) = 0 := by
    refine List.countP_eq_zero.mpr fun i _ => ?_
    simp [exitedTable, ShrregProcSlot.blank]
  refine ⟨hlive, fun h => ?_⟩
  obtain ⟨info', hinit, -⟩ := h (by rw [hlive]; decide)
  have hfull : sharedRegionMaxProcessNum ≤ exitedTable.sharedRegion.procNum := le_rfl
  rw [initProcSlotWithlock, if_pos hfull] at hinit
  cases hinit

end HamiCore
