import HamiCore.Region.Compaction

/-!
# Charging, releasing and reading memory usage

The accounting entry points of `multiprocess_memory_limit.c`, each run without interruption.  A
process charges its own slot: through the cached pointer `my_slot` when it has one (the *fast
path*), and otherwise by scanning the registered slots for its pid (the *slow path*).  Charging and
releasing differ in one machine operation, `atomic_fetch_add` or `atomic_fetch_sub`, so both are
`updateGpuDeviceMemoryUsage` at that operation.

`get_gpu_memory_usage` is a seqlock reader.  With no writer running it returns the sum of the
registered totals (`getGpuMemoryUsage_eq_some`), and on a slot whose sequence number is odd it waits
for a writer that never comes, which is `none` here.
-/

namespace HamiCore

open Finset

/-! ## Writers -/

/-- The counters of one device after a charge or a release: the total, and the counter the `type`
argument selects. -/
def DeviceMemory.update (op : UInt64 → UInt64 → UInt64) (usage : UInt64) (type : ℤ)
    (m : DeviceMemory) : DeviceMemory :=
  match type with
  | 0 => { m with total := op m.total usage, contextSize := op m.contextSize usage }
  | 1 => { m with total := op m.total usage, moduleSize := op m.moduleSize usage }
  | 2 => { m with total := op m.total usage, dataSize := op m.dataSize usage }
  | _ => { m with total := op m.total usage }

/-- The whole seqlock section on one slot: the sequence number becomes odd, the counters move, the
sequence number becomes even again. -/
def ShrregProcSlot.update (op : UInt64 → UInt64 → UInt64) (dev : Dev) (usage : UInt64) (type : ℤ)
    (s : ShrregProcSlot) : ShrregProcSlot :=
  { s with
    seqlock := s.seqlock + 1 + 1
    used := Function.update s.used dev ((s.used dev).update op usage type) }

@[simp] theorem DeviceMemory.total_update (op : UInt64 → UInt64 → UInt64) (usage : UInt64)
    (type : ℤ)
    (m : DeviceMemory) : (m.update op usage type).total = op m.total usage := by
  unfold DeviceMemory.update
  split <;> rfl

theorem ShrregProcSlot.used_update (op : UInt64 → UInt64 → UInt64) (dev : Dev) (usage : UInt64)
    (type : ℤ) (s : ShrregProcSlot) :
    (s.update op dev usage type).used =
      Function.update s.used dev ((s.used dev).update op usage type) := rfl

/-- Apply a writer to one slot of the region. -/
def RegionInfo.modifySlot (info : RegionInfo) (i : ℕ) (f : ShrregProcSlot → ShrregProcSlot) :
    RegionInfo :=
  { info with sharedRegion := info.sharedRegion.setSlot i (f (info.sharedRegion.procs i)) }

/-- The common body of `add_gpu_device_memory_usage` and `rm_gpu_device_memory_usage`.  `info.pid`
is `getpid()`: `ensure_initialized` has run. -/
def updateGpuDeviceMemoryUsage (op : UInt64 → UInt64 → UInt64) (cudaToNvmlMap : Dev → Dev)
    (info : RegionInfo) (pid : Pid) (cudadev : Dev) (usage : UInt64) (type : ℤ) :
    RegionInfo × ℤ :=
  let dev := cudaToNvmlMap cudadev
  match (if pid = info.pid then info.mySlot else none) with
  | some i => (info.modifySlot i (·.update op dev usage type), 0)
  | none =>
    match info.sharedRegion.findSlot pid with
    | some i => (info.modifySlot i (·.update op dev usage type), 0)
    | none => (info, -1)

/-- `add_gpu_device_memory_usage`. -/
def addGpuDeviceMemoryUsage : (Dev → Dev) → RegionInfo → Pid → Dev → UInt64 → ℤ → RegionInfo × ℤ :=
  updateGpuDeviceMemoryUsage (· + ·)

/-- `rm_gpu_device_memory_usage`. -/
def rmGpuDeviceMemoryUsage : (Dev → Dev) → RegionInfo → Pid → Dev → UInt64 → ℤ → RegionInfo × ℤ :=
  updateGpuDeviceMemoryUsage (· - ·)

/-- `set_current_gpu_status`. -/
def setCurrentGpuStatus (info : RegionInfo) (status : ℤ) : RegionInfo :=
  match info.mySlot with
  | some i => info.modifySlot i ({ · with status := status })
  | none =>
    match info.sharedRegion.findSlot info.pid with
    | some i => info.modifySlot i ({ · with status := status })
    | none => info

/-- `wait_status_self`: `1` or `0` for the status of the caller's slot, `-1` when the scan finds
none. -/
def waitStatusSelf (info : RegionInfo) (status : ℤ) : ℤ :=
  match info.mySlot with
  | some i => if (info.sharedRegion.procs i).status = status then 1 else 0
  | none =>
    match info.sharedRegion.findSlot info.pid with
    | some i => if (info.sharedRegion.procs i).status = status then 1 else 0
    | none => -1

@[simp] theorem RegionInfo.modifySlot_mySlot (info : RegionInfo) (i : ℕ)
    (f : ShrregProcSlot → ShrregProcSlot) : (info.modifySlot i f).mySlot = info.mySlot := rfl

@[simp] theorem RegionInfo.modifySlot_pid (info : RegionInfo) (i : ℕ)
    (f : ShrregProcSlot → ShrregProcSlot) : (info.modifySlot i f).pid = info.pid := rfl

@[simp] theorem RegionInfo.modifySlot_procNum (info : RegionInfo) (i : ℕ)
    (f : ShrregProcSlot → ShrregProcSlot) :
    (info.modifySlot i f).sharedRegion.procNum = info.sharedRegion.procNum := rfl

@[simp] theorem RegionInfo.modifySlot_limit (info : RegionInfo) (i : ℕ)
    (f : ShrregProcSlot → ShrregProcSlot) :
    (info.modifySlot i f).sharedRegion.limit = info.sharedRegion.limit := rfl

@[simp] theorem RegionInfo.modifySlot_procs_self (info : RegionInfo) (i : ℕ)
    (f : ShrregProcSlot → ShrregProcSlot) :
    (info.modifySlot i f).sharedRegion.procs i = f (info.sharedRegion.procs i) :=
  SharedRegion.setSlot_procs_self _ _ _

theorem RegionInfo.modifySlot_procs_of_ne (info : RegionInfo) {i j : ℕ} (h : j ≠ i)
    (f : ShrregProcSlot → ShrregProcSlot) :
    (info.modifySlot i f).sharedRegion.procs j = info.sharedRegion.procs j :=
  SharedRegion.setSlot_procs_of_ne _ h _

/-- A process with a cached pointer charges and releases through it. -/
theorem updateGpuDeviceMemoryUsage_of_mySlot {op : UInt64 → UInt64 → UInt64}
    {cudaToNvmlMap : Dev → Dev} {info : RegionInfo} {i : ℕ} (h : info.mySlot = some i)
    (cudadev : Dev) (usage : UInt64) (type : ℤ) :
    updateGpuDeviceMemoryUsage op cudaToNvmlMap info info.pid cudadev usage type =
      (info.modifySlot i (·.update op (cudaToNvmlMap cudadev) usage type), 0) := by
  simp [updateGpuDeviceMemoryUsage, h]

/-- Charging and releasing leave the limits alone. -/
theorem updateGpuDeviceMemoryUsage_limit (op : UInt64 → UInt64 → UInt64) (cudaToNvmlMap : Dev → Dev)
    (info : RegionInfo) (pid : Pid) (cudadev : Dev) (usage : UInt64) (type : ℤ) :
    (updateGpuDeviceMemoryUsage op cudaToNvmlMap info pid cudadev usage type).1.sharedRegion.limit =
      info.sharedRegion.limit := by
  unfold updateGpuDeviceMemoryUsage
  dsimp only
  split
  · rfl
  · split
    · rfl
    · rfl

/-! ## Readers -/

/-- The loop of `get_gpu_memory_usage` over the first `n` slots.  With no other thread running, an
odd sequence number never changes and the inner wait never ends. -/
def usageLoop (procs : ℕ → ShrregProcSlot) (dev : Dev) : ℕ → Option UInt64
  | 0 => some 0
  | n + 1 => (usageLoop procs dev n).bind fun total =>
    if (procs n).seqlock % 2 = 1 then none else some (total + ((procs n).used dev).total)

/-- `initial_offset`, which is never assigned. -/
def initialOffset : UInt64 := 0

/-- `get_gpu_memory_usage`. -/
def getGpuMemoryUsage (r : SharedRegion) (dev : Dev) : Option UInt64 :=
  (usageLoop r.procs dev r.procNum).map (· + initialOffset)

/-- `get_current_device_memory_limit`. -/
def getCurrentDeviceMemoryLimit (r : SharedRegion) (dev : Dev) : UInt64 := r.limit dev

/-- `get_current_device_memory_usage`. -/
def getCurrentDeviceMemoryUsage (r : SharedRegion) (dev : Dev) : Option UInt64 :=
  getGpuMemoryUsage r dev

namespace SharedRegion

/-- No writer is inside its seqlock section: every registered sequence number is even. -/
def SeqlocksEven (r : SharedRegion) : Prop :=
  ∀ i < r.procNum, (r.procs i).seqlock % 2 ≠ 1

/-- The registered usage of a device, as a natural number. -/
def usageSum (r : SharedRegion) (dev : Dev) : ℕ :=
  ∑ i ∈ range r.procNum, ((r.procs i).used dev).total.toNat

end SharedRegion

theorem usageLoop_eq_some {procs : ℕ → ShrregProcSlot} {dev : Dev} {n : ℕ} {v : UInt64}
    (h : usageLoop procs dev n = some v) :
    v.toNat = (∑ i ∈ range n, ((procs i).used dev).total.toNat) % 2 ^ 64 := by
  induction n generalizing v with
  | zero =>
    simp only [usageLoop, Option.some.injEq] at h
    simp [← h]
  | succ n ih =>
    obtain ⟨t, ht, hv⟩ := Option.bind_eq_some_iff.mp h
    split_ifs at hv
    rw [Option.some.injEq] at hv
    rw [← hv, UInt64.toNat_add, ih ht, sum_range_succ, Nat.mod_add_mod]

theorem usageLoop_ne_none {procs : ℕ → ShrregProcSlot} (dev : Dev) {n : ℕ}
    (h : ∀ i < n, (procs i).seqlock % 2 ≠ 1) : ∃ v, usageLoop procs dev n = some v := by
  induction n with
  | zero => exact ⟨0, rfl⟩
  | succ n ih =>
    obtain ⟨v, hv⟩ := ih fun i hi => h i (by omega)
    exact ⟨v + ((procs n).used dev).total, by simp [usageLoop, hv, h n (Nat.lt_succ_self n)]⟩

/-- **What a reader sees.**  The returned value is the registered usage modulo the machine word. -/
theorem getGpuMemoryUsage_toNat {r : SharedRegion} {dev : Dev} {v : UInt64}
    (h : getGpuMemoryUsage r dev = some v) : v.toNat = r.usageSum dev % 2 ^ 64 := by
  obtain ⟨t, ht, hv⟩ := Option.map_eq_some_iff.mp h
  have h0 : t + initialOffset = t := by simp [initialOffset]
  rw [← hv, h0, usageLoop_eq_some ht]
  rfl

/-- A reader returns when no writer is inside its section. -/
theorem getGpuMemoryUsage_ne_none {r : SharedRegion} (h : r.SeqlocksEven) (dev : Dev) :
    ∃ v, getGpuMemoryUsage r dev = some v := by
  obtain ⟨v, hv⟩ := usageLoop_ne_none dev h
  exact ⟨v + initialOffset, by rw [getGpuMemoryUsage, hv]; rfl⟩

theorem seqlock_add_two_mod (x : UInt64) : (x + 1 + 1) % 2 = x % 2 := by
  rw [← UInt64.toNat_inj]
  simp only [UInt64.toNat_mod, UInt64.toNat_add, UInt64.reduceToNat]
  omega

/-- A completed writer leaves every sequence number as even as it was. -/
theorem updateGpuDeviceMemoryUsage_seqlocksEven (op : UInt64 → UInt64 → UInt64)
    (cudaToNvmlMap : Dev → Dev) {info : RegionInfo} (pid : Pid) (cudadev : Dev) (usage : UInt64)
    (type : ℤ) (h : info.sharedRegion.SeqlocksEven) :
    (updateGpuDeviceMemoryUsage op cudaToNvmlMap info pid cudadev usage
      type).1.sharedRegion.SeqlocksEven := by
  have key : ∀ i, (info.modifySlot i
      (·.update op (cudaToNvmlMap cudadev) usage type)).sharedRegion.SeqlocksEven := by
    intro i j hj
    by_cases hji : j = i
    · subst hji
      rw [RegionInfo.modifySlot_procs_self]
      show ((info.sharedRegion.procs j).seqlock + 1 + 1) % 2 ≠ 1
      rw [seqlock_add_two_mod]
      exact h j hj
    · rw [RegionInfo.modifySlot_procs_of_ne info hji]
      exact h j hj
  unfold updateGpuDeviceMemoryUsage
  dsimp only
  split
  · exact key _
  · split
    · exact key _
    · exact h

/-- The loop after one slot has been charged. -/
theorem usageLoop_update (procs : ℕ → ShrregProcSlot) (i : ℕ) (cudadev dev : Dev) (usage : UInt64)
    (type : ℤ) (n : ℕ) :
    usageLoop (Function.update procs i ((procs i).update (· + ·) cudadev usage type)) dev n =
      if i < n ∧ cudadev = dev then (usageLoop procs dev n).map (· + usage)
      else usageLoop procs dev n := by
  induction n with
  | zero => simp [usageLoop]
  | succ n ih =>
    rw [usageLoop, usageLoop, ih]
    by_cases hni : n = i
    · -- the charged slot itself: the slots before it are not changed
      subst hni
      rw [if_neg fun h => lt_irrefl n h.1, Function.update_self]
      have hseq : ((procs n).update (· + ·) cudadev usage type).seqlock % 2 =
          (procs n).seqlock % 2 := seqlock_add_two_mod _
      rw [hseq, ShrregProcSlot.used_update]
      by_cases hdev : cudadev = dev
      · subst hdev
        rw [if_pos ⟨Nat.lt_succ_self n, rfl⟩, Function.update_self, DeviceMemory.total_update]
        cases usageLoop procs cudadev n with
        | none => rfl
        | some total =>
          simp only [Option.bind_some]
          split_ifs
          · rfl
          · rw [Option.map_some, add_assoc]
      · rw [if_neg fun h => hdev h.2, Function.update_of_ne (Ne.symm hdev)]
    · rw [Function.update_of_ne hni]
      have hiff : (i < n + 1 ∧ cudadev = dev) ↔ (i < n ∧ cudadev = dev) :=
        and_congr_left fun _ => by omega
      by_cases hcond : i < n ∧ cudadev = dev
      · rw [if_pos hcond, if_pos (hiff.mpr hcond)]
        cases usageLoop procs dev n with
        | none => rfl
        | some total =>
          simp only [Option.map_some, Option.bind_some]
          split_ifs
          · rfl
          · rw [Option.map_some, add_right_comm]
      · rw [if_neg hcond, if_neg (hiff.not.mpr hcond)]

/-- **What a reader sees after a charge** through a registered pointer: the bytes on the device that
was charged, and nothing on any other device. -/
theorem getGpuMemoryUsage_add {cudaToNvmlMap : Dev → Dev} {info : RegionInfo} {i : ℕ}
    (hi : info.mySlot = some i) (hlt : i < info.sharedRegion.procNum) (cudadev dev : Dev)
    (usage : UInt64) (type : ℤ) :
    getGpuMemoryUsage
        (addGpuDeviceMemoryUsage cudaToNvmlMap info info.pid cudadev usage
          type).1.sharedRegion dev =
      if cudaToNvmlMap cudadev = dev then (getGpuMemoryUsage info.sharedRegion dev).map (· + usage)
      else getGpuMemoryUsage info.sharedRegion dev := by
  rw [addGpuDeviceMemoryUsage, updateGpuDeviceMemoryUsage_of_mySlot hi]
  have hloop := usageLoop_update info.sharedRegion.procs i (cudaToNvmlMap cudadev) dev usage type
    info.sharedRegion.procNum
  simp only [hlt, true_and] at hloop
  show (usageLoop _ dev info.sharedRegion.procNum).map (· + initialOffset) = _
  rw [show (info.modifySlot i (·.update (· + ·) (cudaToNvmlMap cudadev) usage
    type)).sharedRegion.procs = Function.update info.sharedRegion.procs i
      ((info.sharedRegion.procs i).update (· + ·) (cudaToNvmlMap cudadev) usage type) from rfl,
      hloop]
  split_ifs
  · rw [getGpuMemoryUsage, Option.map_map, Option.map_map]
    congr 1
    funext total
    simp only [Function.comp_apply]
    rw [add_right_comm]
  · rfl

/-- The registered usage is a sum over the multiset of registered slots. -/
theorem SharedRegion.usageSum_eq_sum_slots (r : SharedRegion) (dev : Dev) :
    r.usageSum dev = ((r.slotsFrom 0).map fun s => (s.used dev).total.toNat).sum := by
  rw [slotsFrom, sum_map_window]
  rfl

/-- A charge raises the registered usage of its own device by at most the bytes charged, and that of
no other device. -/
theorem addGpuDeviceMemoryUsage_usageSum_le (cudaToNvmlMap : Dev → Dev) (info : RegionInfo)
    (pid : Pid) (cudadev : Dev) (usage : UInt64) (type : ℤ) (dev : Dev) :
    (addGpuDeviceMemoryUsage cudaToNvmlMap info pid cudadev usage
      type).1.sharedRegion.usageSum dev ≤
      info.sharedRegion.usageSum dev + if cudaToNvmlMap cudadev = dev then usage.toNat else 0 := by
  -- one slot, through the pointer or found by the scan
  have key : ∀ i, (info.modifySlot i
      (·.update (· + ·) (cudaToNvmlMap cudadev) usage type)).sharedRegion.usageSum dev ≤
        info.sharedRegion.usageSum dev +
          if cudaToNvmlMap cudadev = dev then usage.toNat else 0 := by
    intro i
    have hslot : ∀ j ∈ range info.sharedRegion.procNum, (((info.modifySlot i
        (·.update (· + ·) (cudaToNvmlMap cudadev) usage type)).sharedRegion.procs j).used
          dev).total.toNat ≤ ((info.sharedRegion.procs j).used dev).total.toNat +
            if j = i then (if cudaToNvmlMap cudadev = dev then usage.toNat else 0) else 0 := by
      intro j _
      by_cases hji : j = i
      · subst hji
        rw [RegionInfo.modifySlot_procs_self, if_pos rfl, ShrregProcSlot.used_update]
        by_cases hdev : dev = cudaToNvmlMap cudadev
        · subst hdev
          rw [Function.update_self, if_pos rfl, DeviceMemory.total_update, UInt64.toNat_add]
          exact Nat.mod_le _ _
        · rw [Function.update_of_ne hdev]
          exact Nat.le_add_right _ _
      · rw [RegionInfo.modifySlot_procs_of_ne info hji, if_neg hji, add_zero]
    refine (sum_le_sum hslot).trans ?_
    rw [sum_add_distrib, sum_ite_eq']
    refine Nat.add_le_add_left ?_ _
    split_ifs <;> omega
  unfold addGpuDeviceMemoryUsage updateGpuDeviceMemoryUsage
  dsimp only
  split
  · exact key _
  · split
    · exact key _
    · exact Nat.le_add_right _ _

/-- **Compaction never raises the registered usage.** -/
theorem clearProcSlotNolock_usageSum_le (procAlive : Pid → ProcState) (doClear : ℤ)
    (info : RegionInfo) (dev : Dev) :
    (clearProcSlotNolock procAlive doClear info).1.sharedRegion.usageSum dev ≤
      info.sharedRegion.usageSum dev := by
  rw [SharedRegion.usageSum_eq_sum_slots, SharedRegion.usageSum_eq_sum_slots]
  obtain ⟨rest, hrest⟩ := Multiset.le_iff_exists_add.mp
    (clearProcSlotNolock_slots_le procAlive doClear info)
  rw [hrest, Multiset.map_add, Multiset.sum_add]
  exact Nat.le_add_right _ _

/-- Compaction keeps the sequence numbers even. -/
theorem clearProcSlotNolock_seqlocksEven {procAlive : Pid → ProcState} {doClear : ℤ}
    {info : RegionInfo} (h : info.sharedRegion.SeqlocksEven) :
    (clearProcSlotNolock procAlive doClear info).1.sharedRegion.SeqlocksEven := by
  intro i hi
  have hmem : (clearProcSlotNolock procAlive doClear info).1.sharedRegion.procs i ∈
      (clearProcSlotNolock procAlive doClear info).1.sharedRegion.slotsFrom 0 :=
    mem_window.mpr ⟨i, Nat.zero_le i, hi, rfl⟩
  obtain ⟨j, -, hj, hjs⟩ :=
    mem_window.mp (Multiset.mem_of_le (clearProcSlotNolock_slots_le procAlive doClear info) hmem)
  rw [← hjs]
  exact h j hj

end HamiCore
