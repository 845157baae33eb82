import HamiCore.Region.Usage

/-!
# Registration and exit

`init_proc_slot_withlock` gives the calling process a slot.  A slot below `proc_num` that already
carries the caller's pid is a leftover of an earlier process of the same pid and is reset in place;
otherwise the caller takes the slot at `proc_num`.  Either way `my_slot` is set to it and the table
is compacted before the lock is released.  A full table sends the caller to `exit_withlock`.

`exit_handler` runs when a process ends in good order.  It marks the first slot with the caller's
pid among all 1024, registered or not, by storing pid `0` and status `0`; the slot itself is removed
by somebody's later compaction.
-/

namespace HamiCore

/-- The stores into a leftover slot: `hostpid` keeps its old value. -/
def ShrregProcSlot.reset (s : ShrregProcSlot) : ShrregProcSlot :=
  { s with seqlock := 0, status := 1 }.zeroAtomics

/-- The stores into a fresh slot. -/
def ShrregProcSlot.initSlot (s : ShrregProcSlot) (currentPid : Pid) : ShrregProcSlot :=
  { s with seqlock := 0, pid := currentPid, hostpid := 0, status := 1 }.zeroAtomics

/-- `init_proc_slot_withlock` up to its compaction: reset the leftover slot or append a new one, and
cache the pointer. -/
def claimSlot (info : RegionInfo) : RegionInfo :=
  let region := info.sharedRegion
  match region.findSlot info.pid with
  | some i =>
    { info with sharedRegion := region.setSlot i (region.procs i).reset, mySlot := some i }
  | none =>
    { info with
      sharedRegion :=
        { region.setSlot region.procNum ((region.procs region.procNum).initSlot info.pid) with
          procNum := region.procNum + 1 }
      mySlot := some region.procNum }

/-- `init_proc_slot_withlock`, under the lock.  `none` is the call of `exit_withlock` on a full
table. -/
def initProcSlotWithlock (procAlive : Pid → ProcState) (info : RegionInfo) : Option RegionInfo :=
  if sharedRegionMaxProcessNum ≤ info.sharedRegion.procNum then none
  else some (clearProcSlotNolock procAlive 1 (claimSlot info)).1

/-- The slot part of `exit_handler`. -/
def exitHandler (myPid : Pid) (region : SharedRegion) : SharedRegion :=
  match region.scan myPid sharedRegionMaxProcessNum with
  | some i => region.setSlot i { region.procs i with pid := 0, status := 0 }
  | none => region

@[simp] theorem ShrregProcSlot.reset_pid (s : ShrregProcSlot) : s.reset.pid = s.pid := rfl

@[simp] theorem ShrregProcSlot.initSlot_pid (s : ShrregProcSlot) (p : Pid) :
    (s.initSlot p).pid = p := rfl

@[simp] theorem claimSlot_pid (info : RegionInfo) : (claimSlot info).pid = info.pid := by
  unfold claimSlot
  dsimp only
  split <;> rfl

/-- After claiming, the caller's pointer is at a registered slot of its own pid. -/
theorem claimSlot_mySlot (info : RegionInfo) :
    ∃ i, (claimSlot info).mySlot = some i ∧ i < (claimSlot info).sharedRegion.procNum ∧
      ((claimSlot info).sharedRegion.procs i).pid = info.pid := by
  unfold claimSlot
  dsimp only
  split
  · next i hi =>
    obtain ⟨hlt, hp⟩ := SharedRegion.scan_eq_some hi
    exact ⟨i, rfl, hlt, by simp [hp]⟩
  · refine ⟨info.sharedRegion.procNum, rfl, Nat.lt_succ_self _, ?_⟩
    dsimp only
    rw [SharedRegion.setSlot_procs_self, ShrregProcSlot.initSlot_pid]

/-- What the caller's slot holds when it has been claimed. -/
def claimedSlot (info : RegionInfo) : ShrregProcSlot :=
  match info.sharedRegion.findSlot info.pid with
  | some i => (info.sharedRegion.procs i).reset
  | none => (info.sharedRegion.procs info.sharedRegion.procNum).initSlot info.pid

theorem claimedSlot_pid (info : RegionInfo) : (claimedSlot info).pid = info.pid := by
  unfold claimedSlot
  split
  · next i hi => exact (SharedRegion.scan_eq_some hi).2
  · rfl

theorem claimSlot_pointsAt (info : RegionInfo) :
    (claimSlot info).PointsAt (claimedSlot info) := by
  unfold claimSlot claimedSlot
  dsimp only
  split
  · next i hi =>
    exact ⟨i, rfl, (SharedRegion.scan_eq_some hi).1, SharedRegion.setSlot_procs_self _ _ _⟩
  · exact ⟨_, rfl, Nat.lt_succ_self _, SharedRegion.setSlot_procs_self _ _ _⟩

/-- **Registration, for a caller that is not reported dead.**  The compaction may move the claimed
slot, and the caller's pointer with it, but leaves its contents as they are. -/
theorem initProcSlotWithlock_pointsAt {procAlive : Pid → ProcState} {info info' : RegionInfo}
    (h : initProcSlotWithlock procAlive info = some info') (h0 : info.pid ≠ 0)
    (hself : procAlive info.pid ≠ .nonalive) : info'.PointsAt (claimedSlot info) := by
  obtain ⟨-, h⟩ := Option.ite_none_left_eq_some.mp h
  obtain rfl := Option.some.inj h
  refine clearProcSlotNolock_pointsAt ?_ (claimSlot_pointsAt info)
  rintro (hz | hdead)
  · exact h0 ((claimedSlot_pid info).symm.trans hz)
  · rw [claimedSlot_pid] at hdead
    exact hself hdead

theorem initProcSlotWithlock_pid {procAlive : Pid → ProcState} {info info' : RegionInfo}
    (h : initProcSlotWithlock procAlive info = some info') : info'.pid = info.pid := by
  obtain ⟨-, h⟩ := Option.ite_none_left_eq_some.mp h
  rw [← Option.some.inj h, clearProcSlotNolock_pid, claimSlot_pid]

/-- Claiming leaves the registered slots of other pids alone. -/
theorem claimSlot_procs {info : RegionInfo} {j : ℕ} (hj : j < info.sharedRegion.procNum)
    (hp : (info.sharedRegion.procs j).pid ≠ info.pid) :
    (claimSlot info).sharedRegion.procs j = info.sharedRegion.procs j := by
  unfold claimSlot
  dsimp only
  split
  · next i hi =>
    refine SharedRegion.setSlot_procs_of_ne _ (fun hji => hp ?_) _
    rw [hji]
    exact (SharedRegion.scan_eq_some hi).2
  · exact SharedRegion.setSlot_procs_of_ne _ hj.ne _

theorem claimSlot_procNum_ge (info : RegionInfo) :
    info.sharedRegion.procNum ≤ (claimSlot info).sharedRegion.procNum := by
  unfold claimSlot
  dsimp only
  split
  · exact le_rfl
  · exact Nat.le_succ _

theorem claimSlot_procNum_le (info : RegionInfo) :
    (claimSlot info).sharedRegion.procNum ≤ info.sharedRegion.procNum + 1 := by
  unfold claimSlot
  dsimp only
  split
  · exact Nat.le_succ _
  · exact le_rfl

/-- Claiming keeps the registered pids distinct: a second slot of the same pid is only appended when
there is none. -/
theorem claimSlot_pidsDistinct {info : RegionInfo} (h : info.sharedRegion.PidsDistinct) :
    (claimSlot info).sharedRegion.PidsDistinct := by
  unfold claimSlot
  dsimp only
  split
  · next i hi =>
    -- the reset slot keeps its pid, so the pids are what they were
    have hpid : ∀ k, ((info.sharedRegion.setSlot i (info.sharedRegion.procs i).reset).procs k).pid =
        (info.sharedRegion.procs k).pid := by
      intro k
      by_cases hk : k = i
      · rw [hk, SharedRegion.setSlot_procs_self, ShrregProcSlot.reset_pid]
      · rw [SharedRegion.setSlot_procs_of_ne _ hk]
    intro a b ha hb h0 hab
    rw [hpid] at h0 hab
    rw [hpid] at hab
    exact h a b ha hb h0 hab
  · next hnone =>
    intro a b ha hb h0 hab
    dsimp only at ha hb h0 hab
    by_cases han : a = info.sharedRegion.procNum
    · by_cases hbn : b = info.sharedRegion.procNum
      · rw [han, hbn]
      · rw [han, SharedRegion.setSlot_procs_self, SharedRegion.setSlot_procs_of_ne _ hbn] at hab
        exact absurd hab.symm (SharedRegion.scan_eq_none hnone (by omega))
    · rw [SharedRegion.setSlot_procs_of_ne _ han] at h0 hab
      by_cases hbn : b = info.sharedRegion.procNum
      · rw [hbn, SharedRegion.setSlot_procs_self] at hab
        exact absurd hab (SharedRegion.scan_eq_none hnone (by omega))
      · rw [SharedRegion.setSlot_procs_of_ne _ hbn] at hab
        exact h a b (by omega) (by omega) h0 hab

@[simp] theorem exitHandler_procNum (p : Pid) (r : SharedRegion) :
    (exitHandler p r).procNum = r.procNum := by
  unfold exitHandler
  split <;> rfl

/-- The exit handler touches no slot of another pid. -/
theorem exitHandler_procs {p : Pid} {r : SharedRegion} {j : ℕ} (hj : (r.procs j).pid ≠ p) :
    (exitHandler p r).procs j = r.procs j := by
  unfold exitHandler
  split
  · next i hi =>
    refine SharedRegion.setSlot_procs_of_ne _ (fun hji => hj ?_) _
    rw [hji]
    exact (SharedRegion.scan_eq_some hi).2
  · rfl

/-- After the exit handler a slot has its old pid or pid `0`. -/
theorem exitHandler_pid (p : Pid) (r : SharedRegion) (j : ℕ) :
    ((exitHandler p r).procs j).pid = (r.procs j).pid ∨ ((exitHandler p r).procs j).pid = 0 := by
  unfold exitHandler
  split
  · next i hi =>
    by_cases hji : j = i
    · right
      rw [hji, SharedRegion.setSlot_procs_self]
    · left
      rw [SharedRegion.setSlot_procs_of_ne _ hji]
  · exact Or.inl rfl

theorem exitHandler_pidsDistinct {p : Pid} {r : SharedRegion} (h : r.PidsDistinct) :
    (exitHandler p r).PidsDistinct := by
  intro a b ha hb h0 hab
  rw [exitHandler_procNum] at ha hb
  have haa := (exitHandler_pid p r a).resolve_right h0
  have hbb := (exitHandler_pid p r b).resolve_right (hab ▸ h0)
  exact h a b ha hb (haa ▸ h0) (by rw [← haa, ← hbb, hab])

end HamiCore
