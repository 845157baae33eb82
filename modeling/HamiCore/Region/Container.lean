import HamiCore.Library.GuardedRun
import HamiCore.Region.Registration

/-!
# The processes of a container over one region

Any number of processes share the region.  They register, end in good order, are killed, and compact
the table, each operation taken as one step; `proc_alive` may answer anything, except that it never
reports a live process dead (`ContainerOp.Sound`).

Every process caches a pointer to its slot, and the fast paths of the accounting trust it.  A
compaction moves slots of *other* processes, and only the caller's own pointer is moved along, so
the pointers are right for as long as no compaction moves somebody else's slot.  Which slots a
compaction moves is decided by where they lie: `droppedCount` slots go, so exactly the slots at the
`droppedCount` last positions move or go, and the condition `ContainerOp.OthersStay` says that no
other live process has its slot there.

`cached_slots_coherent` is the result: under that condition every cached pointer stays at a
registered slot of its owner, so that fast and slow path are the same function, and the first step
that fails the condition is the step that breaks a pointer.
-/

namespace HamiCore

/-- The region and, for each live registered process, its `region_info.my_slot`.  A pid without a
pointer belongs to no live process: it has not registered, or has ended. -/
structure Container where
  region : SharedRegion
  mySlot : Pid → Option ℕ

/-- The operations of the processes.  `exit` and `kill` end the process; a registration and a
compaction carry the answers `proc_alive` gives while they run. -/
inductive ContainerOp where
  | register (p : Pid) (procAlive : Pid → ProcState)
  | exit (p : Pid)
  | kill (p : Pid)
  | clear (p : Pid) (procAlive : Pid → ProcState)

namespace Container

/-- What process `p` holds on the region. -/
def view (c : Container) (p : Pid) : RegionInfo := ⟨p, c.region, c.mySlot p⟩

/-- Write a process's view back. -/
def put (c : Container) (info : RegionInfo) : Container :=
  ⟨info.sharedRegion, Function.update c.mySlot info.pid info.mySlot⟩

/-- The process of pid `p` is live and registered. -/
def Live (c : Container) (p : Pid) : Prop := (c.mySlot p).isSome

instance (c : Container) (p : Pid) : Decidable (c.Live p) := inferInstanceAs (Decidable (_ = _))

/-- One operation.  Registering needs a pid no live process has; on a full table the process exits
at once, through `exit_handler`. -/
def step (c : Container) : ContainerOp → Option Container
  | .register p procAlive =>
    if p = 0 ∨ c.Live p then none
    else
      match initProcSlotWithlock procAlive (c.view p) with
      | some info => some (c.put info)
      | none => some { c with region := exitHandler p c.region }
  | .exit p =>
    if c.Live p then some ⟨exitHandler p c.region, Function.update c.mySlot p none⟩ else none
  | .kill p =>
    if c.Live p then some { c with mySlot := Function.update c.mySlot p none } else none
  | .clear p procAlive =>
    if c.Live p then some (c.put (clearProcSlotNolock procAlive 1 (c.view p)).1) else none

/-- Every live registered process caches a registered slot of its own pid. -/
def Coherent (c : Container) : Prop :=
  ∀ p i, c.mySlot p = some i → i < c.region.procNum ∧ (c.region.procs i).pid = p

/-- A region just created: no slot is registered and no process has attached. -/
def Fresh (c : Container) : Prop := c.region.procNum = 0 ∧ ∀ p, c.mySlot p = none

end Container

/-- The oracle never reports a live process dead: neither a registered one nor the one that is
registering. -/
def ContainerOp.Sound (c : Container) : ContainerOp → Prop
  | .register p procAlive => procAlive p ≠ .nonalive ∧ ∀ q, c.Live q → procAlive q ≠ .nonalive
  | .clear _ procAlive => ∀ q, c.Live q → procAlive q ≠ .nonalive
  | _ => True

/-- In the region `r`, a compaction under `procAlive` leaves the slot of every live process other
than `p` where it is: none of them lies among the last `droppedCount` registered positions. -/
def Container.OthersBelow (c : Container) (p : Pid) (procAlive : Pid → ProcState)
    (r : SharedRegion) : Prop :=
  ∀ j < r.procNum, c.Live (r.procs j).pid → (r.procs j).pid ≠ p →
    j + droppedCount procAlive r < r.procNum

/-- The compaction an operation runs moves no slot of another live process. -/
def ContainerOp.OthersStay (c : Container) : ContainerOp → Prop
  | .register p procAlive => c.region.procNum < sharedRegionMaxProcessNum →
      c.OthersBelow p procAlive (claimSlot (c.view p)).sharedRegion
  | .clear p procAlive => c.OthersBelow p procAlive c.region
  | _ => True

/-! ## The invariant -/

namespace Container

/-- What every operation preserves as long as the condition is met. -/
structure Inv (c : Container) : Prop where
  coherent : c.Coherent
  distinct : c.region.PidsDistinct
  procNum_le : c.region.procNum ≤ sharedRegionMaxProcessNum
  zero_free : c.mySlot 0 = none

theorem Fresh.inv {c : Container} (h : c.Fresh) : c.Inv where
  coherent p i hi := by
    rw [h.2 p] at hi
    exact absurd hi (by simp)
  distinct i j hi := by
    rw [h.1] at hi
    exact absurd hi (Nat.not_lt_zero i)
  procNum_le := by
    rw [h.1]
    exact Nat.zero_le _
  zero_free := h.2 0

theorem Inv.ne_zero_of_live {c : Container} (h : c.Inv) {p : Pid} (hp : c.Live p) : p ≠ 0 := by
  rintro rfl
  rw [Live, h.zero_free] at hp
  exact absurd hp (by simp)

@[simp] theorem put_mySlot_self (c : Container) (info : RegionInfo) :
    (c.put info).mySlot info.pid = info.mySlot := Function.update_self _ _ _

theorem put_mySlot_of_ne (c : Container) {info : RegionInfo} {q : Pid} (h : q ≠ info.pid) :
    (c.put info).mySlot q = c.mySlot q := Function.update_of_ne h _ _

/-- Dropping a process from the table, without touching the region, keeps the invariant. -/
theorem Inv.forget {c : Container} (h : c.Inv) (p : Pid) :
    Inv { c with mySlot := Function.update c.mySlot p none } where
  coherent q i hi := by
    by_cases hq : q = p
    · subst hq
      simp at hi
    · dsimp only at hi
      rw [Function.update_of_ne hq] at hi
      exact h.coherent q i hi
  distinct := h.distinct
  procNum_le := h.procNum_le
  zero_free := by
    by_cases h0 : (0 : Pid) = p
    · subst h0
      simp
    · dsimp only
      rw [Function.update_of_ne h0]
      exact h.zero_free

/-- The exit handler of a process that is not in the table keeps the invariant. -/
theorem Inv.of_exitHandler {c : Container} (h : c.Inv) {p : Pid} (hp : ¬ c.Live p) :
    Inv ⟨exitHandler p c.region, c.mySlot⟩ := by
  refine ⟨fun q i hi => ?_, ?_, ?_, h.zero_free⟩
  · obtain ⟨hlt, hq⟩ := h.coherent q i hi
    have hqp : (c.region.procs i).pid ≠ p := by
      rw [hq]
      rintro rfl
      exact hp (Option.isSome_iff_exists.mpr ⟨i, hi⟩)
    dsimp only
    rw [exitHandler_procNum, exitHandler_procs hqp]
    exact ⟨hlt, hq⟩
  · dsimp only
    exact exitHandler_pidsDistinct h.distinct
  · dsimp only
    rw [exitHandler_procNum]
    exact h.procNum_le

/-- Claiming a slot keeps the invariant. -/
theorem Inv.put_claimSlot {c : Container} (h : c.Inv) {p : Pid} (h0 : p ≠ 0) (hp : ¬ c.Live p)
    (hroom : c.region.procNum < sharedRegionMaxProcessNum) :
    (c.put (claimSlot (c.view p))).Inv where
  coherent q i hi := by
    by_cases hq : q = p
    · subst hq
      have hself : (c.put (claimSlot (c.view q))).mySlot q =
          (claimSlot (c.view q)).mySlot := by
        have := put_mySlot_self c (claimSlot (c.view q))
        rwa [claimSlot_pid] at this
      obtain ⟨k, hk, hlt, hpid⟩ := claimSlot_mySlot (c.view q)
      rw [hself, hk, Option.some.injEq] at hi
      subst hi
      exact ⟨hlt, hpid⟩
    · rw [put_mySlot_of_ne _ (by rwa [claimSlot_pid])] at hi
      obtain ⟨hlt, hpid⟩ := h.coherent q i hi
      refine ⟨hlt.trans_le (claimSlot_procNum_ge (c.view p)), ?_⟩
      have hne : ((c.view p).sharedRegion.procs i).pid ≠ (c.view p).pid := by
        intro hc
        exact hq (hpid.symm.trans hc)
      exact (congrArg ShrregProcSlot.pid (claimSlot_procs hlt hne)).trans hpid
  distinct := claimSlot_pidsDistinct h.distinct
  procNum_le := (claimSlot_procNum_le (c.view p)).trans hroom
  zero_free := by
    rw [put_mySlot_of_ne _ (by rw [claimSlot_pid]; exact h0.symm)]
    exact h.zero_free

/-- The slot of a live process is not droppable under a sound oracle. -/
theorem Inv.not_droppable {c : Container} (h : c.Inv) {procAlive : Pid → ProcState}
    (hsound : ∀ q, c.Live q → procAlive q ≠ .nonalive) {q : Pid} {i : ℕ}
    (hi : c.mySlot q = some i) : ¬ (c.region.procs i).Droppable procAlive := by
  have hlive : c.Live q := by rw [Live, hi]; rfl
  rintro (h0 | hd)
  · rw [(h.coherent q i hi).2] at h0
    exact h.ne_zero_of_live hlive h0
  · rw [(h.coherent q i hi).2] at hd
    exact hsound q hlive hd

/-- **One compaction.**  If no other live process has its slot among the positions that go, every
pointer is still right afterwards. -/
theorem Inv.put_clear {c : Container} (h : c.Inv) {p : Pid} {procAlive : Pid → ProcState}
    (hp : c.Live p) (hsound : ∀ q, c.Live q → procAlive q ≠ .nonalive)
    (hstay : c.OthersBelow p procAlive c.region) :
    (c.put (clearProcSlotNolock procAlive 1 (c.view p)).1).Inv where
  coherent q j hj := by
    by_cases hq : q = p
    · -- the caller follows its own slot
      subst hq
      obtain ⟨i, hi⟩ := Option.isSome_iff_exists.mp hp
      obtain ⟨hlt, hpid⟩ := h.coherent q i hi
      have hpoint : (clearProcSlotNolock procAlive 1 (c.view q)).1.PointsAt (c.region.procs i) :=
        clearProcSlotNolock_pointsAt (h.not_droppable hsound hi) ⟨i, hi, hlt, rfl⟩
      obtain ⟨k, hk, hkn, hks⟩ := hpoint
      have hself := put_mySlot_self c (clearProcSlotNolock procAlive 1 (c.view q)).1
      rw [clearProcSlotNolock_pid] at hself
      have hjk : j = k := Option.some.inj (hj.symm.trans (hself.trans hk))
      rw [hjk]
      exact ⟨hkn, (congrArg ShrregProcSlot.pid hks).trans hpid⟩
    · -- every other slot lies below the new `proc_num`, so it has not moved
      rw [put_mySlot_of_ne _ (by rwa [clearProcSlotNolock_pid])] at hj
      obtain ⟨hlt, hpid⟩ := h.coherent q j hj
      have hlive : c.Live q := by rw [Live, hj]; rfl
      have hbelow := hstay j hlt (by rwa [hpid]) (by rwa [hpid])
      have hn := clearProcSlotNolock_procNum procAlive (c.view p)
      have hjn : j < (clearProcSlotNolock procAlive 1 (c.view p)).1.sharedRegion.procNum := by
        have hv : (c.view p).sharedRegion = c.region := rfl
        rw [hv] at hn
        omega
      have hkept := clearProcSlotNolock_procs_of_lt (c.view p) hjn (h.not_droppable hsound hj)
      exact ⟨hjn, (congrArg ShrregProcSlot.pid hkept).trans hpid⟩
  distinct := clearProcSlotNolock_pidsDistinct h.distinct
  procNum_le := by
    have hn := clearProcSlotNolock_procNum procAlive (c.view p)
    have hle := h.procNum_le
    have hv : (c.view p).sharedRegion = c.region := rfl
    rw [hv] at hn
    simp only [put]
    omega
  zero_free := by
    have h0 := h.ne_zero_of_live hp
    rw [put_mySlot_of_ne _ (by rw [clearProcSlotNolock_pid]; exact h0.symm)]
    exact h.zero_free

/-- **The condition is exact.**  A compaction that moves a slot of another live process leaves that
process with a pointer past the new `proc_num`. -/
theorem Inv.not_coherent_put_clear {c : Container} (h : c.Inv) {p : Pid}
    {procAlive : Pid → ProcState} (hn : ¬ c.OthersBelow p procAlive c.region) :
    ¬ (c.put (clearProcSlotNolock procAlive 1 (c.view p)).1).Coherent := by
  unfold OthersBelow at hn
  push Not at hn
  obtain ⟨j, hj, hlive, hne, hge⟩ := hn
  obtain ⟨i, hi⟩ := Option.isSome_iff_exists.mp hlive
  obtain ⟨hin, hip⟩ := h.coherent _ i hi
  have hij : i = j := h.distinct i j hin hj (hip ▸ h.ne_zero_of_live hlive) hip
  intro hcoh
  have hslot : (c.put (clearProcSlotNolock procAlive 1 (c.view p)).1).mySlot
      (c.region.procs j).pid = c.mySlot (c.region.procs j).pid :=
    put_mySlot_of_ne c (by rwa [clearProcSlotNolock_pid])
  have hlt := (hcoh _ i (hslot.trans hi)).1
  have hnum := clearProcSlotNolock_procNum procAlive (c.view p)
  have hv : (c.view p).sharedRegion = c.region := rfl
  rw [hv] at hnum
  simp only [put] at hlt
  omega

/-! ## One operation -/

theorem view_put (c : Container) (info : RegionInfo) : (c.put info).view info.pid = info := by
  rw [view, put_mySlot_self]
  rfl

theorem put_put (c : Container) {info info' : RegionInfo} (h : info'.pid = info.pid) :
    (c.put info).put info' = c.put info' := by
  rw [put, put, put]
  dsimp only
  rw [h, Function.update_idem]

/-- Registration with room in the table is a claim followed by a compaction of the claimed table. -/
theorem put_initProcSlot (c : Container) (p : Pid) (procAlive : Pid → ProcState) :
    c.put (clearProcSlotNolock procAlive 1 (claimSlot (c.view p))).1 =
      (c.put (claimSlot (c.view p))).put
        (clearProcSlotNolock procAlive 1 ((c.put (claimSlot (c.view p))).view p)).1 := by
  have hpid : (claimSlot (c.view p)).pid = p := claimSlot_pid (c.view p)
  have hview : (c.put (claimSlot (c.view p))).view p = claimSlot (c.view p) := by
    have := view_put c (claimSlot (c.view p))
    rwa [hpid] at this
  rw [hview, put_put c (clearProcSlotNolock_pid _)]

/-- The live processes of a claimed table: the claimant and those from before. -/
theorem live_put_claimSlot {c : Container} {p q : Pid} :
    (c.put (claimSlot (c.view p))).Live q ↔ q = p ∨ c.Live q := by
  have hpid : (claimSlot (c.view p)).pid = p := claimSlot_pid (c.view p)
  by_cases hq : q = p
  · subst hq
    obtain ⟨i, hi, -⟩ := claimSlot_mySlot (c.view q)
    have hself := put_mySlot_self c (claimSlot (c.view q))
    rw [hpid] at hself
    simp [Live, hself, hi]
  · simp only [hq, false_or]
    rw [Live, put_mySlot_of_ne _ (by rwa [hpid]), Live]

/-- What a registration asks of the old table is what its compaction asks of the claimed one. -/
theorem othersBelow_put_claimSlot {c : Container} {p : Pid} {procAlive : Pid → ProcState} :
    (c.put (claimSlot (c.view p))).OthersBelow p procAlive (c.put (claimSlot (c.view p))).region ↔
      c.OthersBelow p procAlive (claimSlot (c.view p)).sharedRegion := by
  unfold OthersBelow
  refine forall₂_congr fun j hj => ?_
  constructor
  · intro h hlive hne
    exact h (live_put_claimSlot.mpr (Or.inr hlive)) hne
  · intro h hlive hne
    exact h ((live_put_claimSlot.mp hlive).resolve_left hne) hne

/-- The four operations, spelled out. -/
theorem step_eq_some {c c' : Container} {op : ContainerOp} (h : c.step op = some c') :
    (∃ p procAlive, op = .register p procAlive ∧ p ≠ 0 ∧ ¬ c.Live p ∧
        c.region.procNum < sharedRegionMaxProcessNum ∧
        c' = c.put (clearProcSlotNolock procAlive 1 (claimSlot (c.view p))).1) ∨
      (∃ p procAlive, op = .register p procAlive ∧ ¬ c.Live p ∧
        sharedRegionMaxProcessNum ≤ c.region.procNum ∧
        c' = ⟨exitHandler p c.region, c.mySlot⟩) ∨
      (∃ p, op = .exit p ∧ c' = ⟨exitHandler p c.region, Function.update c.mySlot p none⟩) ∨
      (∃ p, op = .kill p ∧ c' = { c with mySlot := Function.update c.mySlot p none }) ∨
      (∃ p procAlive, op = .clear p procAlive ∧ c.Live p ∧
        c' = c.put (clearProcSlotNolock procAlive 1 (c.view p)).1) := by
  cases op with
  | register p procAlive =>
    simp only [step] at h
    split at h
    · exact absurd h (by simp)
    · next hno =>
      rw [not_or] at hno
      by_cases hroom : sharedRegionMaxProcessNum ≤ c.region.procNum
      · have hinit : initProcSlotWithlock procAlive (c.view p) = none := if_pos hroom
        rw [hinit] at h
        exact Or.inr (Or.inl ⟨p, procAlive, rfl, hno.2, hroom, (Option.some.inj h).symm⟩)
      · have hinit : initProcSlotWithlock procAlive (c.view p) =
            some (clearProcSlotNolock procAlive 1 (claimSlot (c.view p))).1 := if_neg hroom
        rw [hinit] at h
        exact Or.inl ⟨p, procAlive, rfl, hno.1, hno.2, by omega, (Option.some.inj h).symm⟩
  | exit p =>
    simp only [step] at h
    split at h
    · exact Or.inr (Or.inr (Or.inl ⟨p, rfl, (Option.some.inj h).symm⟩))
    · exact absurd h (by simp)
  | kill p =>
    simp only [step] at h
    split at h
    · exact Or.inr (Or.inr (Or.inr (Or.inl ⟨p, rfl, (Option.some.inj h).symm⟩)))
    · exact absurd h (by simp)
  | clear p procAlive =>
    simp only [step] at h
    split at h
    · next hp =>
      exact Or.inr (Or.inr (Or.inr (Or.inr ⟨p, procAlive, rfl, hp, (Option.some.inj h).symm⟩)))
    · exact absurd h (by simp)

/-- **One step.**  From a state that satisfies the invariant, an operation under a sound oracle
keeps the pointers coherent exactly when it moves no slot of another live process, and then it keeps
the whole invariant. -/
theorem Inv.step_iff {c c' : Container} {op : ContainerOp} (h : c.Inv) (hsound : op.Sound c)
    (hst : c.step op = some c') :
    (c'.Coherent ↔ op.OthersStay c) ∧ (op.OthersStay c → c'.Inv) := by
  have key : (op.OthersStay c → c'.Inv) → (¬ op.OthersStay c → ¬ c'.Coherent) →
      (c'.Coherent ↔ op.OthersStay c) ∧ (op.OthersStay c → c'.Inv) := fun h1 h2 =>
    ⟨⟨fun hc => by_contra fun hno => h2 hno hc, fun hs => (h1 hs).coherent⟩, h1⟩
  rcases step_eq_some hst with ⟨p, procAlive, rfl, h0, hp, hroom, rfl⟩ |
    ⟨p, procAlive, rfl, hp, hfull, rfl⟩ | ⟨p, rfl, rfl⟩ | ⟨p, rfl, rfl⟩ |
    ⟨p, procAlive, rfl, hp, rfl⟩
  · -- registration with room: claim, then compact
    have hclaim := h.put_claimSlot h0 hp hroom
    rw [put_initProcSlot] at key ⊢
    refine key (fun hstay => ?_) (fun hno => ?_)
    · refine hclaim.put_clear (live_put_claimSlot.mpr (Or.inl rfl)) (fun q hq => ?_)
        (othersBelow_put_claimSlot.mpr (hstay hroom))
      rcases live_put_claimSlot.mp hq with rfl | hq
      · exact hsound.1
      · exact hsound.2 q hq
    · refine hclaim.not_coherent_put_clear fun hbelow => hno fun _ => ?_
      exact othersBelow_put_claimSlot.mp hbelow
  · exact key (fun _ => h.of_exitHandler hp)
      (fun hno => absurd (fun hlt => absurd hlt (by omega)) hno)
  · refine key (fun _ => ?_) (fun hno => absurd trivial hno)
    have hgone : ¬ Live { c with mySlot := Function.update c.mySlot p none } p := by simp [Live]
    exact (h.forget p).of_exitHandler hgone
  · exact key (fun _ => h.forget p) (fun hno => absurd trivial hno)
  · exact key (fun hstay => h.put_clear hp hsound hstay) (fun hno => h.not_coherent_put_clear hno)

end Container

/-! ## Fast path and slow path -/

/-- The view of a process whose pointer is not cached, so that every access scans. -/
def RegionInfo.uncached (info : RegionInfo) : RegionInfo := { info with mySlot := none }

/-- The fast path of the four accessors does to the region, and returns, what the slow path does. -/
def RegionInfo.FastPathAgrees (info : RegionInfo) : Prop :=
  (∀ cudaToNvmlMap cudadev usage type,
      ((addGpuDeviceMemoryUsage cudaToNvmlMap info info.pid cudadev usage type).1.sharedRegion =
        (addGpuDeviceMemoryUsage cudaToNvmlMap info.uncached info.pid cudadev usage
          type).1.sharedRegion
        ∧ (addGpuDeviceMemoryUsage cudaToNvmlMap info info.pid cudadev usage type).2 =
          (addGpuDeviceMemoryUsage cudaToNvmlMap info.uncached info.pid cudadev usage type).2) ∧
      (rmGpuDeviceMemoryUsage cudaToNvmlMap info info.pid cudadev usage type).1.sharedRegion =
        (rmGpuDeviceMemoryUsage cudaToNvmlMap info.uncached info.pid cudadev usage
          type).1.sharedRegion
        ∧ (rmGpuDeviceMemoryUsage cudaToNvmlMap info info.pid cudadev usage type).2 =
          (rmGpuDeviceMemoryUsage cudaToNvmlMap info.uncached info.pid cudadev usage type).2) ∧
    ∀ status,
      (setCurrentGpuStatus info status).sharedRegion =
        (setCurrentGpuStatus info.uncached status).sharedRegion ∧
      waitStatusSelf info status = waitStatusSelf info.uncached status

/-- A charge or a release through the pointer is the one the scan makes, when the scan finds the
slot the pointer is at. -/
theorem updateGpuDeviceMemoryUsage_uncached {op : UInt64 → UInt64 → UInt64} {info : RegionInfo}
    {i : ℕ} (hi : info.mySlot = some i) (hfind : info.sharedRegion.findSlot info.pid = some i)
    (cudaToNvmlMap : Dev → Dev) (cudadev : Dev) (usage : UInt64) (type : ℤ) :
    (updateGpuDeviceMemoryUsage op cudaToNvmlMap info info.pid cudadev usage type).1.sharedRegion =
        (updateGpuDeviceMemoryUsage op cudaToNvmlMap info.uncached info.pid cudadev usage
          type).1.sharedRegion ∧
      (updateGpuDeviceMemoryUsage op cudaToNvmlMap info info.pid cudadev usage type).2 =
        (updateGpuDeviceMemoryUsage op cudaToNvmlMap info.uncached info.pid cudadev usage
          type).2 := by
  have hslow :
      updateGpuDeviceMemoryUsage op cudaToNvmlMap info.uncached info.pid cudadev usage type =
      (info.uncached.modifySlot i (·.update op (cudaToNvmlMap cudadev) usage type), 0) := by
    simp [updateGpuDeviceMemoryUsage, RegionInfo.uncached, hfind]
  rw [updateGpuDeviceMemoryUsage_of_mySlot hi, hslow]
  exact ⟨rfl, rfl⟩

theorem RegionInfo.fastPathAgrees_of_findSlot {info : RegionInfo} {i : ℕ}
    (hi : info.mySlot = some i) (hfind : info.sharedRegion.findSlot info.pid = some i) :
    info.FastPathAgrees := by
  refine ⟨fun cudaToNvmlMap cudadev usage type => ⟨?_, ?_⟩, fun status => ⟨?_, ?_⟩⟩
  · exact updateGpuDeviceMemoryUsage_uncached hi hfind cudaToNvmlMap cudadev usage type
  · exact updateGpuDeviceMemoryUsage_uncached hi hfind cudaToNvmlMap cudadev usage type
  · simp only [setCurrentGpuStatus, RegionInfo.uncached, hi, hfind]
    rfl
  · simp only [waitStatusSelf, RegionInfo.uncached, hi, hfind]
    rfl

theorem Container.Inv.fastPathAgrees {c : Container} (h : c.Inv) {p : Pid} (hp : c.Live p) :
    (c.view p).FastPathAgrees := by
  obtain ⟨i, hi⟩ := Option.isSome_iff_exists.mp hp
  obtain ⟨hlt, hpid⟩ := h.coherent p i hi
  exact RegionInfo.fastPathAgrees_of_findSlot hi
    (SharedRegion.findSlot_of_pidsDistinct h.distinct hlt hpid (h.ne_zero_of_live hp))

/-! ## Whole runs -/

/-- **Cached pointers stay right exactly as long as no compaction moves somebody else's slot.**  In
every run whose compactions leave the slots of the other live processes below the new `proc_num`,
every live registered process caches a registered slot of its own pid, and its fast paths do what
the slow paths do.  The first operation that fails the condition breaks a pointer. -/
theorem cached_slots_coherent {c c' : Container} (hc : c.Fresh)
    (h : GuardedRun Container.step (fun c op => op.Sound c ∧ op.OthersStay c) c c') :
    c'.Coherent ∧ (∀ p, c'.Live p → (c'.view p).FastPathAgrees) ∧
      ∀ op c'', op.Sound c' → c'.step op = some c'' → (c''.Coherent ↔ op.OthersStay c') := by
  have hinv : c'.Inv := h.invariant (fun _ _ _ hI hok hst => (hI.step_iff hok.1 hst).2 hok.2) hc.inv
  exact ⟨hinv.coherent, fun p hp => hinv.fastPathAgrees hp,
    fun op c'' hsound hst => (hinv.step_iff hsound hst).1⟩

/-- A region as the first process finds it. -/
def Container.empty : Container :=
  ⟨⟨fun _ => 0, fun _ => .blank, 0⟩, fun _ => none⟩

/-- `OthersBelow`, evaluated. -/
def Container.othersBelow (c : Container) (p : Pid) (procAlive : Pid → ProcState)
    (r : SharedRegion) : Bool :=
  (List.range r.procNum).all fun j =>
    !decide (c.Live (r.procs j).pid) || (r.procs j).pid = p ||
      decide (j + droppedCount procAlive r < r.procNum)

/-- `OthersStay`, evaluated. -/
def ContainerOp.othersStay (c : Container) : ContainerOp → Bool
  | .register p procAlive => c.othersBelow p procAlive (claimSlot (c.view p)).sharedRegion
  | .clear p procAlive => c.othersBelow p procAlive c.region
  | _ => true

theorem ContainerOp.othersStay_of_eval {c : Container} {op : ContainerOp}
    (h : op.othersStay c = true) : op.OthersStay c := by
  have key : ∀ p procAlive r, c.othersBelow p procAlive r = true →
      c.OthersBelow p procAlive r := by
    intro p procAlive r hb j hj hlive hne
    have := List.all_eq_true.mp hb j (List.mem_range.mpr hj)
    simpa [hlive, hne] using this
  cases op with
  | register p procAlive => exact fun _ => key _ _ _ h
  | clear p procAlive => exact key _ _ _ h
  | exit p => trivial
  | kill p => trivial

/-- Three processes register, the last one exits, and the first one compacts: nobody else's slot
lies behind the hole. -/
def compactedFromTheEnd : List ContainerOp :=
  [.register 1 fun _ => .alive, .register 2 fun _ => .alive, .register 3 fun _ => .alive,
    .exit 3, .clear 1 fun _ => .alive]

theorem exec_compactedFromTheEnd :
    (exec Container.step (fun c op => op.othersStay c) compactedFromTheEnd Container.empty).map
      (fun c => (c.mySlot 2, c.region.procNum)) = some (some 1, 2) := by
  decide +kernel

theorem compactedFromTheEnd_sound : ∀ op ∈ compactedFromTheEnd, ∀ c, op.Sound c := by
  simp only [compactedFromTheEnd, List.forall_mem_cons]
  simp [ContainerOp.Sound]

/-- The condition is met along a run that compacts. -/
theorem cached_slots_coherent_compactedFromTheEnd :
    ∃ c' : Container, c'.mySlot 2 = some 1 ∧ c'.region.procNum = 2 ∧ c'.Coherent ∧
      (c'.view 2).FastPathAgrees := by
  obtain ⟨c', hexec, hc'⟩ := Option.map_eq_some_iff.mp exec_compactedFromTheEnd
  have hrun : GuardedRun Container.step (fun c op => op.Sound c ∧ op.OthersStay c)
      Container.empty c' :=
    GuardedRun.of_exec (fun op hop c hc =>
      ⟨compactedFromTheEnd_sound op hop c, ContainerOp.othersStay_of_eval hc⟩) hexec
  have hslot : c'.mySlot 2 = some 1 := congrArg Prod.fst hc'
  obtain ⟨hcoh, hfast, -⟩ := cached_slots_coherent ⟨rfl, fun _ => rfl⟩ hrun
  exact ⟨c', hslot, congrArg Prod.snd hc', hcoh, hfast 2 (by rw [Container.Live, hslot]; rfl)⟩

/-- Three processes register, the first one exits, and the second one compacts: the slot of the
third moves from position 2 to position 0. -/
def movedByAnother : List ContainerOp :=
  [.register 1 fun _ => .alive, .register 2 fun _ => .alive, .register 3 fun _ => .alive,
    .exit 1, .clear 2 fun _ => .alive]

theorem exec_movedByAnother :
    (exec Container.step (fun _ _ => true) movedByAnother Container.empty).map
      (fun c => (c.mySlot 3, c.region.procNum)) = some (some 2, 2) := by
  decide +kernel

theorem movedByAnother_sound : ∀ op ∈ movedByAnother, ∀ c, op.Sound c := by
  simp only [movedByAnother, List.forall_mem_cons]
  simp [ContainerOp.Sound]

/-- Without the condition a pointer is left past `proc_num`. -/
theorem cached_slot_left_behind :
    ¬ ∀ c c' : Container, c.Fresh → GuardedRun Container.step (fun c op => op.Sound c) c c' →
      c'.Coherent := by
  intro hall
  obtain ⟨c', hexec, hc'⟩ := Option.map_eq_some_iff.mp exec_movedByAnother
  have hrun : GuardedRun Container.step (fun c op => op.Sound c) Container.empty c' :=
    GuardedRun.of_exec (fun op hop c _ => movedByAnother_sound op hop c) hexec
  have hcoh := hall _ c' ⟨rfl, fun _ => rfl⟩ hrun
  have hslot : c'.mySlot 3 = some 2 := congrArg Prod.fst hc'
  have hnum : c'.region.procNum = 2 := congrArg Prod.snd hc'
  have := (hcoh 3 2 hslot).1
  omega

end HamiCore
