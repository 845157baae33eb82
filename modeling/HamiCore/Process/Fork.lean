import Mathlib.Algebra.BigOperators.Group.Finset.Basic
import Mathlib.Algebra.BigOperators.Fin
import HamiCore.Region.Registration
import HamiCore.Allocator.Async

/-!
# Accounting across fork

A process keeps its accounting in two places.  In its own memory are the two lists, the device map,
`context_size` and the flags `ctx_activate`; in the shared region is its slot with the counters.  A
fork copies the memory and not the slot: the child takes a new slot, zeroed, when its first hooked
call reaches `ensure_initialized`, and it empties the lists only when a later call reaches
`postInit`, which does not reset `context_size` and the flags at all.

The model is one process with its memory, followed through hooked calls and forks; after a fork it
is the child that is followed.  `ensure_initialized` runs where the source has it, inside the calls,
so that every order of first calls in the child is a run.  `underflow` remembers whether a release
has made a counter wrap below zero.

`fork_accounting`: the counters of the slot are what the memory says, in every run that forks only
when nothing is charged, lets `postInit` run only when nothing is tracked, and meets no change of
`context_size` or of the device map while a context is charged.  A child that registers with
something inherited is out of step from the start.
-/

namespace HamiCore

/-- The memory of one process. -/
structure Process extends Allocator where
  /-- `device_allocasync`, from head to tail. -/
  deviceAllocasync : List AllocatedDeviceMemory
  /-- `device_allocasync->limit`. -/
  limit : UInt64
  /-- `region_info.init_status`: `initialized` has run. -/
  registered : Bool
  /-- `post_cuinit_flag`: `postInit` has run. -/
  postInited : Bool
  cudaToNvmlMap : Dev → Dev
  contextSize : UInt64
  ctxActivate : Dev → Bool
  /-- A release has made a counter wrap below zero. -/
  underflow : Bool

/-- How `set_task_pid` ends: before the context is retained, after that and before the host pid is
known, with `context_size` as it was, or with the size it has measured. -/
inductive SetTaskPid where
  | early
  | retained
  | kept
  | measured (contextSize : UInt64)

/-- What can happen next; `procAlive` is for the compaction in `init_proc_slot_withlock`. -/
inductive ForkLabel where
  | ensureInitialized (procAlive : Pid → ProcState)
  | oomCheck (procAlive : Pid → ProcState) (alive : ℕ → Pid → ProcState) (dev : Dev)
      (addon : UInt64)
  | chunk (procAlive : Pid → ProcState) (c : ChunkCall)
  | async (procAlive : Pid → ProcState) (c : AsyncCall)
  | primaryCtxRetain (procAlive : Pid → ProcState) (dev : Dev)
  | primaryCtxRelease (procAlive : Pid → ProcState) (dev : Dev)
  /-- `cuInit` or a kernel launch; `cudaToNvmlMap` is what `map_cuda_visible_devices` finds. -/
  | ensurePostInit (procAlive : Pid → ProcState) (cudaToNvmlMap : Dev → Dev) (result : SetTaskPid)
  | fork (child : Pid)
  /-- Other processes, the parent among them, change the region. -/
  | others (region : SharedRegion)

/-- The subtraction makes a counter of the device wrap below zero. -/
def DeviceMemory.wraps (m : DeviceMemory) (usage : UInt64) (type : ℤ) : Bool :=
  m.total < usage ||
    match type with
    | 0 => m.contextSize < usage
    | 1 => m.moduleSize < usage
    | 2 => m.dataSize < usage
    | _ => false

/-- The same of a release through the cached pointer. -/
def RegionInfo.wraps (info : RegionInfo) (k : Dev) (usage : UInt64) (type : ℤ) : Bool :=
  match info.mySlot with
  | some i => ((info.sharedRegion.procs i).used k).wraps usage type
  | none => false

namespace Process

/-- `ensure_initialized`.  `none` is the exit of a process that finds the table full. -/
def ensureInitialized (p : Process) (procAlive : Pid → ProcState) : Option Process :=
  if p.registered then some p
  else (initProcSlotWithlock procAlive p.info).map fun info =>
    { p with info := info, registered := true }

/-- `add_gpu_device_memory_usage(getpid(), ...)`. -/
def charge (p : Process) (procAlive : Pid → ProcState) (dev : Dev) (usage : UInt64) (type : ℤ) :
    Option Process :=
  (p.ensureInitialized procAlive).map fun p₁ =>
    { p₁ with
      info := (addGpuDeviceMemoryUsage p₁.cudaToNvmlMap p₁.info p₁.info.pid dev usage type).1 }

/-- `rm_gpu_device_memory_usage(getpid(), ...)`. -/
def discharge (p : Process) (procAlive : Pid → ProcState) (dev : Dev) (usage : UInt64) (type : ℤ) :
    Option Process :=
  (p.ensureInitialized procAlive).map fun p₁ =>
    { p₁ with
      info := (rmGpuDeviceMemoryUsage p₁.cudaToNvmlMap p₁.info p₁.info.pid dev usage type).1
      underflow := p₁.underflow || p₁.info.wraps (p₁.cudaToNvmlMap dev) usage type }

/-- A call that adds a chunk starts with `oom_check`, which runs `ensure_initialized`.  A call that
removes one runs it in the release, after `LIST_REMOVE` and only if it finds its chunk; the two
touch different memory, and the order between them is not visible. -/
def chunk (p : Process) (procAlive : Pid → ProcState) (c : ChunkCall) : Option Process :=
  match c.freed with
  | none =>
    (p.ensureInitialized procAlive).bind fun p₁ =>
      (p₁.toAllocator.step p₁.cudaToNvmlMap c).map fun a => { p₁ with toAllocator := a }
  | some dptr =>
    match p.deviceOverallocated.find? fun val => val.address = dptr with
    | none => (p.toAllocator.step p.cudaToNvmlMap c).map fun a => { p with toAllocator := a }
    | some e =>
      (p.ensureInitialized procAlive).bind fun p₁ =>
        (p₁.toAllocator.step p₁.cudaToNvmlMap c).map fun a =>
          { p₁ with
            toAllocator := a
            underflow := p₁.underflow || p₁.info.wraps (p₁.cudaToNvmlMap e.dev) e.length 2 }

/-- The stream-ordered part of the memory. -/
def asyncAllocator (p : Process) : AsyncAllocator := ⟨p.info, p.deviceAllocasync, p.limit⟩

/-- The memory after a stream-ordered call. -/
def setAsync (p : Process) (a : AsyncAllocator) : Process :=
  { p with info := a.info, deviceAllocasync := a.deviceAllocasync, limit := a.limit }

/-- A stream-ordered call. -/
def async (p : Process) (procAlive : Pid → ProcState) : AsyncCall → Option Process
  | .allocateAsyncRaw env size =>
    (p.ensureInitialized procAlive).bind fun p₁ =>
      (p₁.asyncAllocator.step p₁.cudaToNvmlMap (.allocateAsyncRaw env size)).map p₁.setAsync
  | .freeRawAsync dev dptr =>
    match p.deviceAllocasync.find? fun val => val.address = dptr with
    | none => some p
    | some e =>
      (p.ensureInitialized procAlive).bind fun p₁ =>
        (p₁.asyncAllocator.step p₁.cudaToNvmlMap (.freeRawAsync dev dptr)).map fun a =>
          { p₁.setAsync a with
            underflow := p₁.underflow || p₁.info.wraps (p₁.cudaToNvmlMap dev) e.length 2 }

/-- `cuDevicePrimaryCtxRetain`. -/
def primaryCtxRetain (p : Process) (procAlive : Pid → ProcState) (dev : Dev) : Option Process :=
  (if p.ctxActivate dev then some p else p.charge procAlive dev p.contextSize 0).map fun p₁ =>
    if 0 < p₁.contextSize then
      { p₁ with ctxActivate := Function.update p₁.ctxActivate dev true }
    else p₁

/-- `cuDevicePrimaryCtxRelease_v2`. -/
def primaryCtxRelease (p : Process) (procAlive : Pid → ProcState) (dev : Dev) : Option Process :=
  (if p.ctxActivate dev then p.discharge procAlive dev p.contextSize 0 else some p).map fun p₁ =>
    { p₁ with ctxActivate := Function.update p₁.ctxActivate dev false }

/-- `set_task_pid`, as far as the accounting sees it. -/
def setTaskPid (p : Process) (procAlive : Pid → ProcState) : SetTaskPid → Option Process
  | .early => some p
  | .retained => p.primaryCtxRetain procAlive 0
  | .kept => (p.primaryCtxRetain procAlive 0).bind fun p₁ => p₁.primaryCtxRelease procAlive 0
  | .measured contextSize =>
    (p.primaryCtxRetain procAlive 0).bind fun p₁ =>
      { p₁ with contextSize := contextSize }.primaryCtxRelease procAlive 0

/-- `allocator_init` and `map_cuda_visible_devices`. -/
def resetLists (p : Process) (cudaToNvmlMap : Dev → Dev) : Process :=
  { p with
    deviceOverallocated := []
    mutexHeld := false
    deviceAllocasync := []
    limit := 0
    cudaToNvmlMap := cudaToNvmlMap
    postInited := true }

/-- `ensure_initialized` and `ensure_post_init`, the beginning of `cuInit` and of a kernel
launch. -/
def ensurePostInit (p : Process) (procAlive : Pid → ProcState) (cudaToNvmlMap : Dev → Dev)
    (result : SetTaskPid) : Option Process :=
  (p.ensureInitialized procAlive).bind fun p₁ =>
    if p₁.postInited then some p₁ else (p₁.resetLists cudaToNvmlMap).setTaskPid procAlive result

/-- `fork` as the child sees it, after `child_reinit_flag` and `childReinitPostInit`. -/
def fork (p : Process) (child : Pid) : Process :=
  { p with
    info := { p.info with pid := child }
    registered := false
    postInited := false
    underflow := false }

/-- One step. -/
def step (p : Process) : ForkLabel → Option Process
  | .ensureInitialized procAlive => p.ensureInitialized procAlive
  | .oomCheck procAlive alive dev addon =>
    (p.ensureInitialized procAlive).bind fun p₁ =>
      (HamiCore.oomCheck alive dev addon p₁.info).map fun out => { p₁ with info := out.2 }
  | .chunk procAlive c => p.chunk procAlive c
  | .async procAlive c => p.async procAlive c
  | .primaryCtxRetain procAlive dev => p.primaryCtxRetain procAlive dev
  | .primaryCtxRelease procAlive dev => p.primaryCtxRelease procAlive dev
  | .ensurePostInit procAlive cudaToNvmlMap result =>
    p.ensurePostInit procAlive cudaToNvmlMap result
  | .fork child => some (p.fork child)
  | .others region => some { p with info := { p.info with sharedRegion := region } }

end Process

/-! ## What is to hold -/

/-- The devices that map to `k` and have an active context. -/
@[irreducible]
def activeOn (cudaToNvmlMap : Dev → Dev) (ctxActivate : Dev → Bool) (k : Dev) : ℕ :=
  ∑ d, if cudaToNvmlMap d = k ∧ ctxActivate d = true then 1 else 0

namespace Process

/-- The bytes the memory of the process accounts to data on `k`. -/
def dataOn (p : Process) (k : Dev) : ℕ := trackedBytesOn p.cudaToNvmlMap p.deviceOverallocated k

/-- The bytes it accounts to contexts on `k`. -/
def contextOn (p : Process) (k : Dev) : ℕ :=
  p.contextSize.toNat * activeOn p.cudaToNvmlMap p.ctxActivate k

/-- **The accounting is coherent**: the caller's pointer is at a slot of its own whose counters are
what the memory of the process says. -/
def Coherent (p : Process) : Prop :=
  ∃ slot, p.info.PointsAt slot ∧ slot.pid = p.info.pid ∧ ∀ k,
    (slot.used k).dataSize.toNat = p.dataOn k ∧ (slot.used k).contextSize.toNat = p.contextOn k

/-- Nothing is accounted to any device. -/
def Uncharged (p : Process) : Prop := ∀ k, p.dataOn k = 0 ∧ p.contextOn k = 0

/-- The counters of `k` have room for `usage` bytes more. -/
def RoomFor (p : Process) (k : Dev) (usage : UInt64) : Prop :=
  p.registered = true → ∀ slot, p.info.PointsAt slot →
    (slot.used k).total.toNat + usage.toNat < 2 ^ 64

/-- No context is active. -/
def NoContext (p : Process) : Prop := ∀ d, p.ctxActivate d = false

end Process

/-- `proc_alive` does not report the caller dead, `INIT_ALLOCATED_LIST_ENTRY` succeeds, and the
others leave the slot of a registered process where it is. -/
def ForkLabel.Regular (p : Process) : ForkLabel → Prop
  | .ensureInitialized procAlive => procAlive p.info.pid ≠ .nonalive
  | .oomCheck procAlive alive _ _ => procAlive p.info.pid ≠ .nonalive ∧
      ∀ n, alive n p.info.pid ≠ .nonalive
  | .chunk procAlive c => procAlive p.info.pid ≠ .nonalive ∧ c.Regular p.toAllocator
  | .async procAlive c => procAlive p.info.pid ≠ .nonalive ∧ c.Regular p.asyncAllocator
  | .primaryCtxRetain procAlive _ => procAlive p.info.pid ≠ .nonalive
  | .primaryCtxRelease procAlive _ => procAlive p.info.pid ≠ .nonalive
  | .ensurePostInit procAlive _ _ => procAlive p.info.pid ≠ .nonalive
  | .fork child => child ≠ 0
  | .others region => p.registered = true → ∀ i, p.info.mySlot = some i →
      i < region.procNum ∧ region.procs i = p.info.sharedRegion.procs i

/-- What `set_task_pid` may do: `context_size` changes only when it was `0` and no context is
active. -/
def SetTaskPid.Keeps (p : Process) (cudaToNvmlMap : Dev → Dev) : SetTaskPid → Prop
  | .early => True
  | .retained => p.RoomFor (cudaToNvmlMap 0) p.contextSize
  | .kept => p.RoomFor (cudaToNvmlMap 0) p.contextSize
  | .measured contextSize =>
    (contextSize = p.contextSize ∧ p.RoomFor (cudaToNvmlMap 0) p.contextSize) ∨
      (p.contextSize = 0 ∧ p.NoContext)

/-- The condition.  A fork happens when nothing is charged.  `postInit` runs when nothing is
tracked, and neither `context_size` nor the device map changes under a charged context.
Stream-ordered calls charge and release nothing.  The counters have room for what is charged. -/
def ForkLabel.Keeps (p : Process) : ForkLabel → Prop
  | .chunk _ c => ∀ dev size, c.request = some (dev, size) → p.RoomFor (p.cudaToNvmlMap dev) size
  | .async procAlive (.allocateAsyncRaw env size) =>
    ∀ p₁, p.ensureInitialized procAlive = some p₁ → env.Admits size p₁.asyncAllocator →
      ∀ poollimit, env.memPoolGetAttribute = .ok poollimit →
        poollimit = 0 ∨ poollimit ≤ p.limit ∨ size = 0
  | .async _ (.freeRawAsync _ dptr) =>
    ∀ e, (p.deviceAllocasync.find? fun val => val.address = dptr) = some e → e.length = 0
  | .primaryCtxRetain _ dev =>
    p.ctxActivate dev = false → p.RoomFor (p.cudaToNvmlMap dev) p.contextSize
  | .ensurePostInit _ cudaToNvmlMap result => p.postInited = false →
      (∀ k, p.dataOn k = 0) ∧
      (cudaToNvmlMap = p.cudaToNvmlMap ∨ p.contextSize = 0 ∨ p.NoContext) ∧
      result.Keeps p cudaToNvmlMap
  | .fork _ => p.Uncharged
  | _ => True

/-! ## The counters of a slot -/

/-- The counters of one device are `data` and `context`, and nothing else. -/
def DeviceMemory.Holds (m : DeviceMemory) (data context : ℕ) : Prop :=
  m.dataSize.toNat = data ∧ m.contextSize.toNat = context ∧ m.total.toNat = data + context

section Holds

variable {m : DeviceMemory} {data context : ℕ} {usage : UInt64}

theorem DeviceMemory.Holds.addData (h : m.Holds data context)
    (hroom : data + context + usage.toNat < 2 ^ 64) :
    (m.update (· + ·) usage 2).Holds (data + usage.toNat) context := by
  obtain ⟨hdata, hcontext, htotal⟩ := h
  refine ⟨?_, hcontext, ?_⟩
  · show (m.dataSize + usage).toNat = _
    rw [UInt64.toNat_add]
    omega
  · show (m.total + usage).toNat = _
    rw [UInt64.toNat_add]
    omega

theorem DeviceMemory.Holds.addContext (h : m.Holds data context)
    (hroom : data + context + usage.toNat < 2 ^ 64) :
    (m.update (· + ·) usage 0).Holds data (context + usage.toNat) := by
  obtain ⟨hdata, hcontext, htotal⟩ := h
  refine ⟨hdata, ?_, ?_⟩
  · show (m.contextSize + usage).toNat = _
    rw [UInt64.toNat_add]
    omega
  · show (m.total + usage).toNat = _
    rw [UInt64.toNat_add]
    omega

theorem DeviceMemory.Holds.subData (h : m.Holds (data + usage.toNat) context) :
    (m.update (· - ·) usage 2).Holds data context ∧ m.wraps usage 2 = false := by
  obtain ⟨hdata, hcontext, htotal⟩ := h
  have hle : usage ≤ m.dataSize := UInt64.le_iff_toNat_le.mpr (by omega)
  have hle' : usage ≤ m.total := UInt64.le_iff_toNat_le.mpr (by omega)
  refine ⟨⟨?_, hcontext, ?_⟩, ?_⟩
  · show (m.dataSize - usage).toNat = _
    rw [UInt64.toNat_sub_of_le _ _ hle]
    omega
  · show (m.total - usage).toNat = _
    rw [UInt64.toNat_sub_of_le _ _ hle']
    omega
  · simp [DeviceMemory.wraps, hle, hle']

theorem DeviceMemory.Holds.subContext (h : m.Holds data (context + usage.toNat)) :
    (m.update (· - ·) usage 0).Holds data context ∧ m.wraps usage 0 = false := by
  obtain ⟨hdata, hcontext, htotal⟩ := h
  have hle : usage ≤ m.contextSize := UInt64.le_iff_toNat_le.mpr (by omega)
  have hle' : usage ≤ m.total := UInt64.le_iff_toNat_le.mpr (by omega)
  refine ⟨⟨hdata, ?_, ?_⟩, ?_⟩
  · show (m.contextSize - usage).toNat = _
    rw [UInt64.toNat_sub_of_le _ _ hle]
    omega
  · show (m.total - usage).toNat = _
    rw [UInt64.toNat_sub_of_le _ _ hle']
    omega
  · simp [DeviceMemory.wraps, hle, hle']

end Holds

/-- The caller's pointer is at a slot of its own that counts `data` and `context`. -/
def RegionInfo.Counts (info : RegionInfo) (data context : Dev → ℕ) : Prop :=
  ∃ slot, info.PointsAt slot ∧ slot.pid = info.pid ∧ ∀ k, (slot.used k).Holds (data k) (context k)

section Counts

variable {info info' : RegionInfo} {data context data' context' : Dev → ℕ}
  {cudaToNvmlMap : Dev → Dev} {dev : Dev} {usage : UInt64} {type : ℤ}
  {op : UInt64 → UInt64 → UInt64}

theorem RegionInfo.Counts.selfCompacts (h : info.Counts data context)
    (hcomp : SelfCompacts info info') (h0 : info.pid ≠ 0) : info'.Counts data context := by
  obtain ⟨slot, hslot, hpid, hused⟩ := h
  exact ⟨slot, hcomp.pointsAt hpid h0 hslot, by rw [hcomp.pid_eq, hpid], hused⟩

/-- A writer changes the counters of one device. -/
theorem RegionInfo.Counts.updated (h : info.Counts data context)
    (hself : ∀ m : DeviceMemory, m.Holds (data (cudaToNvmlMap dev)) (context (cudaToNvmlMap dev)) →
      (m.update op usage type).Holds (data' (cudaToNvmlMap dev)) (context' (cudaToNvmlMap dev)))
    (hother : ∀ k, k ≠ cudaToNvmlMap dev → data' k = data k ∧ context' k = context k) :
    (updateGpuDeviceMemoryUsage op cudaToNvmlMap info info.pid dev usage type).1.Counts data'
      context' := by
  obtain ⟨slot, hslot, hpid, hused⟩ := h
  obtain ⟨hpts, hpid'⟩ := hslot.updateType cudaToNvmlMap op dev usage type
  refine ⟨_, hpts, by rw [hpid']; exact hpid, fun k => ?_⟩
  rw [ShrregProcSlot.used_update]
  by_cases hk : k = cudaToNvmlMap dev
  · subst hk
    rw [Function.update_self]
    exact hself _ (hused _)
  · obtain ⟨hdata, hcontext⟩ := hother k hk
    rw [Function.update_of_ne hk, hdata, hcontext]
    exact hused k

theorem RegionInfo.Counts.wraps_eq (h : info.Counts data context) {k : Dev}
    (hno : ∀ m : DeviceMemory, m.Holds (data k) (context k) → m.wraps usage type = false) :
    info.wraps k usage type = false := by
  obtain ⟨slot, ⟨i, hi, -, hs⟩, -, hused⟩ := h
  rw [RegionInfo.wraps, hi]
  exact hno _ (hs ▸ hused k)

/-- Charging no bytes. -/
theorem RegionInfo.Counts.chargeNothing (h : info.Counts data context) (cudaToNvmlMap : Dev → Dev)
    (dev : Dev) :
    (addGpuDeviceMemoryUsage cudaToNvmlMap info info.pid dev 0 2).1.Counts data context := by
  refine h.updated (fun m hm => ?_) fun k _ => ⟨rfl, rfl⟩
  refine hm.addData ?_
  rw [← hm.2.2]
  exact m.total.toNat_lt

/-- Releasing no bytes. -/
theorem RegionInfo.Counts.releaseNothing (h : info.Counts data context) (cudaToNvmlMap : Dev → Dev)
    (dev : Dev) :
    (rmGpuDeviceMemoryUsage cudaToNvmlMap info info.pid dev 0 2).1.Counts data context ∧
      info.wraps (cudaToNvmlMap dev) 0 2 = false := by
  refine ⟨h.updated (fun m hm => ?_) fun k _ => ⟨rfl, rfl⟩, h.wraps_eq fun m hm => ?_⟩
  · exact DeviceMemory.Holds.subData hm |>.1
  · exact DeviceMemory.Holds.subData hm |>.2

theorem RegionInfo.Counts.pid_update (h : info.Counts data context) :
    (updateGpuDeviceMemoryUsage op cudaToNvmlMap info info.pid dev usage type).1.pid =
      info.pid := by
  obtain ⟨slot, hslot, -, -⟩ := h
  exact (hslot.updateType cudaToNvmlMap op dev usage type).2

/-- A slot that has just been claimed counts nothing. -/
theorem initProcSlotWithlock_counts {procAlive : Pid → ProcState}
    (h : initProcSlotWithlock procAlive info = some info') (h0 : info.pid ≠ 0)
    (hself : procAlive info.pid ≠ .nonalive) :
    info'.pid = info.pid ∧ info'.Counts (fun _ => 0) fun _ => 0 := by
  have hpid := initProcSlotWithlock_pid h
  refine ⟨hpid, claimedSlot info, initProcSlotWithlock_pointsAt h h0 hself, ?_, fun k => ?_⟩
  · rw [claimedSlot_pid, hpid]
  · unfold claimedSlot
    split
    · exact ⟨rfl, rfl, rfl⟩
    · exact ⟨rfl, rfl, rfl⟩

end Counts

/-! ## The flags -/

/-- Setting one flag. -/
theorem activeOn_update (cudaToNvmlMap : Dev → Dev) (ctxActivate : Dev → Bool) (dev : Dev)
    (b : Bool)
    (k : Dev) :
    activeOn cudaToNvmlMap (Function.update ctxActivate dev b) k +
        (if cudaToNvmlMap dev = k ∧ ctxActivate dev = true then 1 else 0) =
      activeOn cudaToNvmlMap ctxActivate k + if cudaToNvmlMap dev = k ∧ b = true then 1 else 0 := by
  have hothers : ∑ d ∈ Finset.univ.erase dev,
        (if cudaToNvmlMap d = k ∧ Function.update ctxActivate dev b d = true then 1 else 0) =
      ∑ d ∈ Finset.univ.erase dev,
        if cudaToNvmlMap d = k ∧ ctxActivate d = true then 1 else 0 := by
    refine Finset.sum_congr rfl fun d hd => ?_
    rw [Function.update_of_ne (Finset.ne_of_mem_erase hd)]
  rw [activeOn, activeOn, ← Finset.sum_erase_add _ _ (Finset.mem_univ dev), hothers,
    ← Finset.sum_erase_add Finset.univ _ (Finset.mem_univ dev), Function.update_self]
  omega

/-- What is accounted to contexts grows on one device when a flag is set. -/
theorem contexts_activate (cudaToNvmlMap : Dev → Dev) {ctxActivate : Dev → Bool} {dev : Dev}
    (hoff : ctxActivate dev = false) (contextSize : ℕ) :
    (fun k => contextSize * activeOn cudaToNvmlMap (Function.update ctxActivate dev true) k) =
      Function.update (fun k => contextSize * activeOn cudaToNvmlMap ctxActivate k)
        (cudaToNvmlMap dev)
        (contextSize * activeOn cudaToNvmlMap ctxActivate (cudaToNvmlMap dev) + contextSize) := by
  funext k
  have hactive := activeOn_update cudaToNvmlMap ctxActivate dev true k
  rw [hoff] at hactive
  by_cases hk : k = cudaToNvmlMap dev
  · subst hk
    rw [if_neg (by simp), if_pos ⟨rfl, rfl⟩] at hactive
    rw [Function.update_self, ← Nat.mul_succ]
    exact congrArg (contextSize * ·) hactive
  · rw [if_neg (by simp), if_neg fun hand => hk hand.1.symm] at hactive
    rw [Function.update_of_ne hk]
    exact congrArg (contextSize * ·) hactive

/-- What is accounted to contexts shrinks on one device when a flag is cleared. -/
theorem contexts_deactivate (cudaToNvmlMap : Dev → Dev) {ctxActivate : Dev → Bool} {dev : Dev}
    (hon : ctxActivate dev = true) (contextSize : ℕ) :
    (fun k => contextSize * activeOn cudaToNvmlMap ctxActivate k) =
      Function.update
        (fun k => contextSize * activeOn cudaToNvmlMap (Function.update ctxActivate dev false) k)
        (cudaToNvmlMap dev)
        (contextSize * activeOn cudaToNvmlMap (Function.update ctxActivate dev false)
          (cudaToNvmlMap dev) + contextSize) := by
  have hback : Function.update (Function.update ctxActivate dev false) dev true = ctxActivate := by
    rw [Function.update_idem, ← hon, Function.update_eq_self]
  rw [← contexts_activate cudaToNvmlMap (Function.update_self _ _ _) contextSize, hback]

namespace Process

/-- **The invariant.**  Before a process registers, its memory accounts for nothing; afterwards its
slot counts what the memory accounts for. -/
structure Inv (p : Process) : Prop where
  pid_ne_zero : p.info.pid ≠ 0
  no_underflow : p.underflow = false
  uncharged : p.registered = false → p.Uncharged
  counts : p.registered = true → p.info.Counts p.dataOn p.contextOn

section Inv

variable {p p₁ p' : Process} {procAlive : Pid → ProcState} {dev k : Dev} {usage : UInt64}

theorem Inv.of_counts (h0 : p.info.pid ≠ 0) (hunderflow : p.underflow = false)
    (hreg : p.registered = true) (hcounts : p.info.Counts p.dataOn p.contextOn) : p.Inv :=
  ⟨h0, hunderflow, fun hno => absurd (hreg.symm.trans hno) (by simp), fun _ => hcounts⟩

theorem Inv.room (h : p.Inv) (hroom : p.RoomFor k usage) :
    p.dataOn k + p.contextOn k + usage.toNat < 2 ^ 64 := by
  cases hreg : p.registered with
  | false =>
    obtain ⟨hdata, hcontext⟩ := h.uncharged hreg k
    rw [hdata, hcontext]
    have := usage.toNat_lt
    omega
  | true =>
    obtain ⟨slot, hslot, -, hused⟩ := h.counts hreg
    rw [← (hused k).2.2]
    exact hroom hreg slot hslot

/-- **Registration.**  Nothing else in the memory changes, and the slot counts what the memory
accounts for. -/
theorem Inv.ensureInitialized (h : p.Inv) (hself : procAlive p.info.pid ≠ .nonalive)
    (hp : p.ensureInitialized procAlive = some p₁) :
    ∃ info, p₁ = { p with info := info, registered := true } ∧ info.pid = p.info.pid ∧
      info.Counts p.dataOn p.contextOn := by
  rw [Process.ensureInitialized] at hp
  split_ifs at hp with hreg
  · obtain rfl := Option.some.inj hp
    refine ⟨p.info, ?_, rfl, h.counts hreg⟩
    rw [← hreg]
  · obtain ⟨info, hinit, rfl⟩ := Option.map_eq_some_iff.mp hp
    obtain ⟨hpid, hcounts⟩ := initProcSlotWithlock_counts hinit h.pid_ne_zero hself
    have hzero := h.uncharged (by simpa using hreg)
    have hdata : p.dataOn = fun _ => 0 := funext fun k => (hzero k).1
    have hcontext : p.contextOn = fun _ => 0 := funext fun k => (hzero k).2
    exact ⟨info, rfl, hpid, by rw [hdata, hcontext]; exact hcounts⟩

/-- A process after registration, with a region that counts what its memory accounts for. -/
theorem Inv.registered (h : p.Inv) {info : RegionInfo} (hpid : info.pid = p.info.pid)
    (hcounts : info.Counts p.dataOn p.contextOn) :
    Process.Inv { p with info := info, registered := true } :=
  .of_counts (by rw [show _ = info.pid from rfl, hpid]; exact h.pid_ne_zero) h.no_underflow
    rfl hcounts

/-! ## Contexts -/

theorem contextOn_of_noContext (h : p.NoContext) (k : Dev) : p.contextOn k = 0 := by
  rw [contextOn, activeOn, Finset.sum_eq_zero fun d _ => by rw [h d]; simp]
  rfl

/-- `cuDevicePrimaryCtxRetain`. -/
theorem Inv.primaryCtxRetain (h : p.Inv) (hself : procAlive p.info.pid ≠ .nonalive)
    (hroom : p.ctxActivate dev = false → p.dataOn (p.cudaToNvmlMap dev) +
      p.contextOn (p.cudaToNvmlMap dev) + p.contextSize.toNat < 2 ^ 64)
    (hp : p.primaryCtxRetain procAlive dev = some p') :
    p'.Inv ∧ p'.info.pid = p.info.pid ∧ p'.contextSize = p.contextSize ∧
      (p.contextSize = 0 → p'.ctxActivate = p.ctxActivate) := by
  obtain ⟨p₁, hp₁, rfl⟩ := Option.map_eq_some_iff.mp hp
  split_ifs at hp₁ with hon
  · obtain rfl := Option.some.inj hp₁
    have hsame : Function.update p.ctxActivate dev true = p.ctxActivate := by
      rw [← hon, Function.update_eq_self]
    split_ifs
    · rw [hsame]
      exact ⟨h, rfl, rfl, fun _ => rfl⟩
    · exact ⟨h, rfl, rfl, fun _ => rfl⟩
  · have hoff : p.ctxActivate dev = false := by simpa using hon
    obtain ⟨p₂, hp₂, rfl⟩ := Option.map_eq_some_iff.mp hp₁
    obtain ⟨info, rfl, hpid, hcounts⟩ := h.ensureInitialized hself hp₂
    have hcharged :
        (addGpuDeviceMemoryUsage p.cudaToNvmlMap info info.pid dev p.contextSize 0).1.Counts
        p.dataOn (Function.update p.contextOn (p.cudaToNvmlMap dev)
          (p.contextOn (p.cudaToNvmlMap dev) + p.contextSize.toNat)) := by
      refine hcounts.updated (fun m hm => ?_) fun k hk => ⟨rfl, Function.update_of_ne hk _ _⟩
      rw [Function.update_self]
      exact hm.addContext (hroom hoff)
    have hpid' : (addGpuDeviceMemoryUsage p.cudaToNvmlMap info info.pid dev p.contextSize 0).1.pid =
        p.info.pid := by
      obtain ⟨slot, hslot, -, -⟩ := hcounts
      exact (hslot.updateType _ _ _ _ _).2.trans hpid
    have hne :
        (addGpuDeviceMemoryUsage p.cudaToNvmlMap info info.pid dev p.contextSize 0).1.pid ≠ 0 :=
      hpid'.symm ▸ h.pid_ne_zero
    split_ifs with hpos
    · have hcontext : Function.update p.contextOn (p.cudaToNvmlMap dev)
          (p.contextOn (p.cudaToNvmlMap dev) + p.contextSize.toNat) =
          fun k => p.contextSize.toNat *
            activeOn p.cudaToNvmlMap (Function.update p.ctxActivate dev true) k :=
        (contexts_activate p.cudaToNvmlMap hoff p.contextSize.toNat).symm
      rw [hcontext] at hcharged
      refine ⟨.of_counts hne h.no_underflow rfl hcharged, hpid', rfl, fun hzero => ?_⟩
      exact absurd hpos (by rw [hzero]; simp)
    · obtain hzero : p.contextSize = 0 := by simpa using hpos
      refine ⟨.of_counts hne h.no_underflow rfl ?_, hpid', rfl, fun _ => rfl⟩
      rw [hzero, UInt64.toNat_zero, add_zero, Function.update_eq_self] at hcharged
      rw [← hzero] at hcharged
      exact hcharged

/-- `cuDevicePrimaryCtxRelease_v2`. -/
theorem Inv.primaryCtxRelease (h : p.Inv) (hself : procAlive p.info.pid ≠ .nonalive)
    (hp : p.primaryCtxRelease procAlive dev = some p') : p'.Inv := by
  obtain ⟨p₁, hp₁, rfl⟩ := Option.map_eq_some_iff.mp hp
  split_ifs at hp₁ with hon
  · obtain ⟨p₂, hp₂, rfl⟩ := Option.map_eq_some_iff.mp hp₁
    obtain ⟨info, rfl, hpid, hcounts⟩ := h.ensureInitialized hself hp₂
    have hcontext : p.contextOn = _ := contexts_deactivate p.cudaToNvmlMap hon p.contextSize.toNat
    rw [hcontext] at hcounts
    have hpid' : (rmGpuDeviceMemoryUsage p.cudaToNvmlMap info info.pid dev p.contextSize 0).1.pid =
        p.info.pid := by
      obtain ⟨slot, hslot, -, -⟩ := hcounts
      exact (hslot.updateType _ _ _ _ _).2.trans hpid
    have hreleased :
        (rmGpuDeviceMemoryUsage p.cudaToNvmlMap info info.pid dev p.contextSize 0).1.Counts
        p.dataOn fun k => p.contextSize.toNat *
          activeOn p.cudaToNvmlMap (Function.update p.ctxActivate dev false) k := by
      refine hcounts.updated (fun m hm => ?_) fun k hk => ⟨rfl, ?_⟩
      · rw [Function.update_self] at hm
        exact hm.subContext.1
      · rw [Function.update_of_ne hk]
    refine .of_counts (hpid'.symm ▸ h.pid_ne_zero) ?_ rfl hreleased
    · have hwraps : info.wraps (p.cudaToNvmlMap dev) p.contextSize 0 = false := by
        refine hcounts.wraps_eq fun m hm => ?_
        rw [Function.update_self] at hm
        exact hm.subContext.2
      show (p.underflow || info.wraps (p.cudaToNvmlMap dev) p.contextSize 0) = false
      rw [h.no_underflow, hwraps]
      rfl
  · obtain rfl := Option.some.inj hp₁
    have hoff : p.ctxActivate dev = false := by simpa using hon
    have hsame : Function.update p.ctxActivate dev false = p.ctxActivate := by
      rw [← hoff, Function.update_eq_self]
    rw [hsame]
    exact h

/-! ## Chunks -/

/-- A chunk appended. -/
theorem dataOn_append (p : Process) (e : AllocatedDeviceMemory) (k : Dev) :
    trackedBytesOn p.cudaToNvmlMap (p.deviceOverallocated ++ [e]) k =
      p.dataOn k + if p.cudaToNvmlMap e.dev = k then e.length.toNat else 0 := by
  rw [trackedBytesOn_append, trackedBytesOn_singleton]
  rfl

/-- A call that adds a chunk. -/
theorem Inv.request (h : p.Inv) {c : ChunkCall} (hself : procAlive p.info.pid ≠ .nonalive)
    (hreg : c.Regular p.toAllocator) (hfreed : c.freed = none)
    (hroom : ∀ dev size, c.request = some (dev, size) → p.RoomFor (p.cudaToNvmlMap dev) size)
    (hp : p.ensureInitialized procAlive = some p₁) {a : Allocator}
    (ha : p₁.toAllocator.step p₁.cudaToNvmlMap c = some a) :
    Process.Inv { p₁ with toAllocator := a } := by
  obtain ⟨info, rfl, hpid, hcounts⟩ := h.ensureInitialized hself hp
  have hreg' : c.Regular ({ p.toAllocator with info := info }) := hreg.congr hpid.symm
  obtain ⟨⟨dev, size, hrequest, info', hcomp, hbooks⟩ | ⟨dptr, hdptr, -⟩, -⟩ :=
    Allocator.step_cases hreg' ha
  · have h0 : info.pid ≠ 0 := hpid.symm ▸ h.pid_ne_zero
    have hcounts' := hcounts.selfCompacts hcomp h0
    have hpid' : info'.pid ≠ 0 := hcomp.pid_eq.symm ▸ h0
    rcases hbooks with hbooks | ⟨address, hbooks⟩
    · obtain ⟨hinfo, hlist⟩ := Prod.mk.inj hbooks
      refine .of_counts (hinfo ▸ hpid') h.no_underflow rfl ?_
      show a.info.Counts (fun k => trackedBytesOn p.cudaToNvmlMap a.deviceOverallocated k)
        p.contextOn
      rw [hinfo, hlist]
      exact hcounts'
    · obtain ⟨hinfo, hlist⟩ := Prod.mk.inj hbooks
      have hpid'' : a.info.pid ≠ 0 := by
        obtain ⟨slot, hslot, -, -⟩ := hcounts'
        rw [hinfo, addGpuDeviceMemoryUsage, (hslot.updateType _ _ _ _ _).2]
        exact hpid'
      refine .of_counts hpid'' h.no_underflow rfl ?_
      show a.info.Counts (fun k => trackedBytesOn p.cudaToNvmlMap a.deviceOverallocated k)
        p.contextOn
      rw [hinfo, hlist]
      refine hcounts'.updated (fun m hm => ?_) fun k hk => ⟨?_, rfl⟩
      · rw [p.dataOn_append, if_pos rfl]
        exact hm.addData (h.room (hroom dev size hrequest))
      · rw [p.dataOn_append, if_neg fun heq => hk heq.symm, add_zero]
  · exact absurd (hfreed.symm.trans hdptr) (by simp)

/-- A call that removes a chunk. -/
theorem Inv.free (h : p.Inv) {c : ChunkCall} (hself : procAlive p.info.pid ≠ .nonalive)
    {dptr : UInt64} (hfreed : c.freed = some dptr) {e : AllocatedDeviceMemory}
    (he : (p.deviceOverallocated.find? fun val => val.address = dptr) = some e)
    (hp : p.ensureInitialized procAlive = some p₁) {a : Allocator}
    (ha : p₁.toAllocator.step p₁.cudaToNvmlMap c = some a) :
    Process.Inv { p₁ with
      toAllocator := a
      underflow := p₁.underflow || p₁.info.wraps (p₁.cudaToNvmlMap e.dev) e.length 2 } := by
  obtain ⟨info, rfl, hpid, hcounts⟩ := h.ensureInitialized hself hp
  have h0 : info.pid ≠ 0 := hpid.symm ▸ h.pid_ne_zero
  -- the bytes of the device before the call are those after it and the length of the entry
  have hbytes : ∀ k, p.dataOn k = _ := trackedBytesOn_eraseP p.cudaToNvmlMap he
  have hown : p.dataOn (p.cudaToNvmlMap e.dev) = trackedBytesOn p.cudaToNvmlMap
      (p.deviceOverallocated.eraseP fun val => val.address = dptr) (p.cudaToNvmlMap e.dev) +
        e.length.toNat := by
    rw [hbytes, if_pos rfl]
  rcases Allocator.freed_of_step hfreed ha with ⟨hnone, -⟩ | ⟨e', he', hbooks⟩
  · exact absurd (he.symm.trans hnone) (by simp)
  · obtain rfl : e' = e := Option.some.inj (he'.symm.trans he)
    obtain ⟨hinfo, hlist⟩ := Prod.mk.inj hbooks
    have hpid' : a.info.pid ≠ 0 := by
      obtain ⟨slot, hslot, -, -⟩ := hcounts
      rw [hinfo, rmGpuDeviceMemoryUsage, (hslot.updateType _ _ _ _ _).2]
      exact h0
    refine .of_counts hpid' ?_ rfl ?_
    · have hwraps : info.wraps (p.cudaToNvmlMap e'.dev) e'.length 2 = false := by
        refine hcounts.wraps_eq fun m hm => ?_
        rw [hown] at hm
        exact hm.subData.2
      show (p.underflow || info.wraps (p.cudaToNvmlMap e'.dev) e'.length 2) = false
      rw [h.no_underflow, hwraps]
      rfl
    · show a.info.Counts (fun k => trackedBytesOn p.cudaToNvmlMap a.deviceOverallocated k)
        p.contextOn
      rw [hinfo, hlist]
      refine hcounts.updated (fun m hm => ?_) fun k hk => ⟨?_, rfl⟩
      · rw [hown] at hm
        exact hm.subData.1
      · rw [hbytes, if_neg fun heq => hk heq.symm, add_zero]

/-- A call for a chunk. -/
theorem Inv.chunk (h : p.Inv) {c : ChunkCall} (hself : procAlive p.info.pid ≠ .nonalive)
    (hreg : c.Regular p.toAllocator)
    (hroom : ∀ dev size, c.request = some (dev, size) → p.RoomFor (p.cudaToNvmlMap dev) size)
    (hp : p.chunk procAlive c = some p') : p'.Inv := by
  unfold Process.chunk at hp
  split at hp
  · next hfreed =>
    obtain ⟨p₁, hp₁, hp⟩ := Option.bind_eq_some_iff.mp hp
    obtain ⟨a, ha, rfl⟩ := Option.map_eq_some_iff.mp hp
    exact h.request hself hreg hfreed hroom hp₁ ha
  · next dptr hfreed =>
    split at hp
    · next hnone =>
      obtain ⟨a, ha, rfl⟩ := Option.map_eq_some_iff.mp hp
      rcases Allocator.freed_of_step hfreed ha with ⟨-, hbooks⟩ | ⟨e, he, -⟩
      · obtain ⟨hinfo, hlist⟩ := Prod.mk.inj hbooks
        refine ⟨hinfo ▸ h.pid_ne_zero, h.no_underflow, fun hno => ?_, fun hyes => ?_⟩
        · intro k
          show trackedBytesOn p.cudaToNvmlMap a.deviceOverallocated k = 0 ∧ p.contextOn k = 0
          rw [hlist]
          exact h.uncharged hno k
        · show a.info.Counts (fun k => trackedBytesOn p.cudaToNvmlMap a.deviceOverallocated k)
            p.contextOn
          rw [hinfo, hlist]
          exact h.counts hyes
      · exact absurd (he.symm.trans hnone) (by simp)
    · next e he =>
      obtain ⟨p₁, hp₁, hp⟩ := Option.bind_eq_some_iff.mp hp
      obtain ⟨a, ha, rfl⟩ := Option.map_eq_some_iff.mp hp
      exact h.free hself hfreed he hp₁ ha

/-! ## Stream-ordered calls -/

/-- A watermark that `limit` covers charges nothing. -/
theorem record_info {a : AsyncAllocator} {cudaToNvmlMap : Dev → Dev} {dev : Dev}
    {address size poollimit : UInt64} (h : poollimit = 0 ∨ poollimit ≤ a.limit ∨ size = 0) :
    (a.record cudaToNvmlMap dev address size poollimit).info = a.info ∨
      (a.record cudaToNvmlMap dev address size poollimit).info =
        (addGpuDeviceMemoryUsage cudaToNvmlMap a.info a.info.pid dev 0 2).1 := by
  unfold AsyncAllocator.record
  split_ifs with hpool hroom hsmall
  · rcases h with h | h | rfl
    · exact absurd h hpool
    · exact absurd hroom (UInt64.not_lt.mpr h)
    · exact absurd hsmall (by simp)
  · rcases h with h | h | rfl
    · exact absurd h hpool
    · exact absurd hroom (UInt64.not_lt.mpr h)
    · exact Or.inr rfl
  · exact Or.inl rfl
  · exact Or.inl rfl

/-- The memory after a stream-ordered call, with a region that counts what was counted before. -/
theorem Inv.setAsync (h : p.Inv) {a : AsyncAllocator} (hpid : a.info.pid = p.info.pid)
    (hcounts : a.info.Counts p.dataOn p.contextOn) {b : Bool} (hb : b = false) (info : RegionInfo) :
    Process.Inv { ({ p with info := info, registered := true } : Process).setAsync a with
      underflow := p.underflow || b } :=
  .of_counts (hpid.symm ▸ h.pid_ne_zero)
    (show (p.underflow || b) = false by rw [h.no_underflow, hb]; rfl) rfl hcounts

/-- A stream-ordered call that charges and releases nothing. -/
theorem Inv.async (h : p.Inv) {c : AsyncCall} (hreg : (ForkLabel.async procAlive c).Regular p)
    (hkeeps : (ForkLabel.async procAlive c).Keeps p) (hp : p.async procAlive c = some p') :
    p'.Inv := by
  obtain ⟨hself, hreg⟩ := hreg
  cases c with
  | allocateAsyncRaw env size =>
    obtain ⟨p₁, hp₁, hp⟩ := Option.bind_eq_some_iff.mp hp
    obtain ⟨a, ha, rfl⟩ := Option.map_eq_some_iff.mp hp
    obtain ⟨out, hout, rfl⟩ := Option.map_eq_some_iff.mp ha
    have hadmits := hkeeps p₁ hp₁
    obtain ⟨info, rfl, hpid, hcounts⟩ := h.ensureInitialized hself hp₁
    have h0 : info.pid ≠ 0 := hpid.symm ▸ h.pid_ne_zero
    have hreg' : ∀ n, env.procAlive n info.pid ≠ .nonalive := hpid.symm ▸ hreg
    obtain ⟨info', hcomp, hcases⟩ := addChunkAsync_cases hout
    have hcomp' : SelfCompacts info info' := hcomp.selfCompacts hreg'
    have hcounts' := hcounts.selfCompacts hcomp' h0
    have hpid' : info'.pid = p.info.pid := hcomp'.pid_eq.trans hpid
    rcases hcases with heq | ⟨address, poollimit, hadm, hattr, -, -, heq⟩
    · rw [heq]
      exact h.registered hpid' hcounts'
    · have hcover : poollimit = 0 ∨ poollimit ≤ p.limit ∨ size = 0 := hadmits hadm poollimit hattr
      have hinv := fun ha₁ ha₂ => h.setAsync (a := out.2) ha₁ ha₂ rfl info
      rw [Bool.or_false] at hinv
      have hinfo : out.2.info = info' ∨ out.2.info =
          (addGpuDeviceMemoryUsage p.cudaToNvmlMap info' info'.pid env.dev 0 2).1 := by
        rw [heq]
        exact record_info hcover
      rcases hinfo with hinfo | hinfo
      · exact hinv (hinfo ▸ hpid') (hinfo ▸ hcounts')
      · exact hinv (hinfo ▸ hcounts'.pid_update.trans hpid')
          (hinfo ▸ hcounts'.chargeNothing p.cudaToNvmlMap env.dev)
  | freeRawAsync dev dptr =>
    unfold Process.async at hp
    dsimp only at hp
    split at hp
    · obtain rfl := Option.some.inj hp
      exact h
    · next e he =>
      obtain ⟨p₁, hp₁, hp⟩ := Option.bind_eq_some_iff.mp hp
      obtain ⟨a, ha, rfl⟩ := Option.map_eq_some_iff.mp hp
      obtain rfl := Option.some.inj ha
      obtain ⟨info, rfl, hpid, hcounts⟩ := h.ensureInitialized hself hp₁
      have hzero : e.length = 0 := hkeeps e he
      rcases removeChunkAsync_cases p.cudaToNvmlMap ⟨info, p.deviceAllocasync, p.limit⟩
        dev dptr with
        ⟨e', he', heq⟩ | ⟨hnone, -⟩
      · obtain rfl : e' = e := Option.some.inj (he'.symm.trans he)
        obtain ⟨hreleased, hwraps⟩ := hcounts.releaseNothing p.cudaToNvmlMap dev
        rw [← hzero] at hreleased hwraps
        have hinfo : (removeChunkAsync p.cudaToNvmlMap dev dptr
            ⟨info, p.deviceAllocasync, p.limit⟩).2.info = _ := congrArg AsyncAllocator.info heq
        exact h.setAsync (hinfo ▸ hcounts.pid_update.trans hpid) (hinfo ▸ hreleased) hwraps info
      · exact absurd (he.symm.trans hnone) (by simp)

/-! ## Starting up -/

/-- The lists are emptied and the device map is read again. -/
theorem Inv.resetLists (h : p.Inv) (hreg : p.registered = true) (cudaToNvmlMap : Dev → Dev)
    (hdata : ∀ k, p.dataOn k = 0)
    (hmap : cudaToNvmlMap = p.cudaToNvmlMap ∨ p.contextSize = 0 ∨ p.NoContext) :
    (p.resetLists cudaToNvmlMap).Inv ∧ (p.resetLists cudaToNvmlMap).dataOn = p.dataOn ∧
      (p.resetLists cudaToNvmlMap).contextOn = p.contextOn := by
  have hdata' : (p.resetLists cudaToNvmlMap).dataOn = p.dataOn := by
    funext k
    rw [hdata k]
    rfl
  have hcontext : (p.resetLists cudaToNvmlMap).contextOn = p.contextOn := by
    rcases hmap with rfl | hzero | hno
    · rfl
    · funext k
      show p.contextSize.toNat * _ = p.contextSize.toNat * _
      rw [hzero, UInt64.toNat_zero, zero_mul, zero_mul]
    · funext k
      have hno' : (p.resetLists cudaToNvmlMap).NoContext := hno
      rw [contextOn_of_noContext hno, contextOn_of_noContext hno']
  refine ⟨.of_counts h.pid_ne_zero h.no_underflow hreg ?_, hdata', hcontext⟩
  rw [hdata', hcontext]
  exact h.counts hreg

/-- `set_task_pid`. -/
theorem Inv.setTaskPid (h : p.Inv) (hself : procAlive p.info.pid ≠ .nonalive) {result : SetTaskPid}
    (hroom : result ≠ .early → p.dataOn (p.cudaToNvmlMap 0) + p.contextOn (p.cudaToNvmlMap 0) +
      p.contextSize.toNat < 2 ^ 64)
    (hsize : ∀ n, result = .measured n → n = p.contextSize ∨ (p.contextSize = 0 ∧ p.NoContext))
    (hp : p.setTaskPid procAlive result = some p') : p'.Inv := by
  cases result with
  | early =>
    obtain rfl := Option.some.inj hp
    exact h
  | retained => exact (h.primaryCtxRetain hself (fun _ => hroom (by simp)) hp).1
  | kept =>
    obtain ⟨p₁, hp₁, hp⟩ := Option.bind_eq_some_iff.mp hp
    obtain ⟨h₁, hpid, -, -⟩ := h.primaryCtxRetain hself (fun _ => hroom (by simp)) hp₁
    exact h₁.primaryCtxRelease (hpid.symm ▸ hself) hp
  | measured n =>
    obtain ⟨p₁, hp₁, hp⟩ := Option.bind_eq_some_iff.mp hp
    obtain ⟨h₁, hpid, hcontext, hflags⟩ := h.primaryCtxRetain hself (fun _ => hroom (by simp)) hp₁
    refine Inv.primaryCtxRelease (p := { p₁ with contextSize := n }) ?_ (hpid.symm ▸ hself) hp
    rcases hsize n rfl with rfl | ⟨hzero, hno⟩
    · rw [← hcontext]
      exact h₁
    · -- no context is active, so that nothing depends on its size
      have hno₁ : p₁.NoContext := by
        intro d
        rw [hflags hzero]
        exact hno d
      have hno' : Process.NoContext { p₁ with contextSize := n } := hno₁
      have hsame : Process.contextOn { p₁ with contextSize := n } = p₁.contextOn := by
        funext k
        rw [contextOn_of_noContext hno₁, contextOn_of_noContext hno']
      refine ⟨h₁.pid_ne_zero, h₁.no_underflow, fun hreg k => ?_, fun hreg => ?_⟩
      · rw [hsame]
        exact h₁.uncharged hreg k
      · rw [hsame]
        exact h₁.counts hreg

/-- `cuInit` or a kernel launch. -/
theorem Inv.ensurePostInit (h : p.Inv) (hself : procAlive p.info.pid ≠ .nonalive)
    {cudaToNvmlMap : Dev → Dev} {result : SetTaskPid}
    (hkeeps : (ForkLabel.ensurePostInit procAlive cudaToNvmlMap result).Keeps p)
    (hp : p.ensurePostInit procAlive cudaToNvmlMap result = some p') : p'.Inv := by
  obtain ⟨p₁, hp₁, hp⟩ := Option.bind_eq_some_iff.mp hp
  obtain ⟨info, rfl, hpid, hcounts⟩ := h.ensureInitialized hself hp₁
  have h₁ := h.registered hpid hcounts
  split_ifs at hp with hdone
  · obtain rfl := Option.some.inj hp
    exact h₁
  · obtain ⟨hdata, hmap, hresult⟩ := hkeeps (by simpa using hdone)
    obtain ⟨h₂, hdata₂, hcontext₂⟩ := h₁.resetLists rfl cudaToNvmlMap hdata hmap
    refine h₂.setTaskPid (hpid.symm ▸ hself) (fun hne => ?_) (fun n hn => ?_) hp
    · rw [hdata₂, hcontext₂]
      cases result with
      | early => exact absurd rfl hne
      | retained => exact h.room hresult
      | kept => exact h.room hresult
      | measured n =>
        rcases hresult with ⟨-, hroom⟩ | ⟨hzero, hno⟩
        · exact h.room hroom
        · show p.dataOn _ + p.contextOn _ + p.contextSize.toNat < 2 ^ 64
          rw [hdata, contextOn_of_noContext hno, hzero]
          decide
    · subst hn
      rcases hresult with ⟨hsame, -⟩ | hzero
      · exact Or.inl hsame
      · exact Or.inr hzero

/-- **One step that meets the condition.** -/
theorem Inv.step (h : p.Inv) {a : ForkLabel} (hreg : a.Regular p) (hkeeps : a.Keeps p)
    (hp : p.step a = some p') : p'.Inv := by
  cases a with
  | ensureInitialized procAlive =>
    obtain ⟨info, rfl, hpid, hcounts⟩ := h.ensureInitialized hreg hp
    exact h.registered hpid hcounts
  | oomCheck procAlive alive dev addon =>
    obtain ⟨p₁, hp₁, hp⟩ := Option.bind_eq_some_iff.mp hp
    obtain ⟨⟨oom, info'⟩, hoom, rfl⟩ := Option.map_eq_some_iff.mp hp
    obtain ⟨info, rfl, hpid, hcounts⟩ := h.ensureInitialized hreg.1 hp₁
    have hcomp : SelfCompacts info info' :=
      (oomCheck_spec hoom).1.selfCompacts (hpid.symm ▸ hreg.2)
    exact h.registered (hcomp.pid_eq.trans hpid)
      (hcounts.selfCompacts hcomp (hpid.symm ▸ h.pid_ne_zero))
  | chunk procAlive c => exact h.chunk hreg.1 hreg.2 hkeeps hp
  | async procAlive c => exact h.async hreg hkeeps hp
  | primaryCtxRetain procAlive dev =>
    exact (h.primaryCtxRetain hreg (fun hoff => h.room (hkeeps hoff)) hp).1
  | primaryCtxRelease procAlive dev => exact h.primaryCtxRelease hreg hp
  | ensurePostInit procAlive cudaToNvmlMap result => exact h.ensurePostInit hreg hkeeps hp
  | fork child =>
    obtain rfl := Option.some.inj hp
    exact ⟨hreg, rfl, fun _ => hkeeps, fun hno => absurd hno (by simp [Process.fork])⟩
  | others region =>
    obtain rfl := Option.some.inj hp
    refine ⟨h.pid_ne_zero, h.no_underflow, h.uncharged, fun hyes => ?_⟩
    obtain ⟨slot, ⟨i, hi, -, hs⟩, hpid, hused⟩ := h.counts hyes
    obtain ⟨hlt, hsame⟩ := hreg hyes i hi
    exact ⟨slot, ⟨i, hi, hlt, hsame.trans hs⟩, hpid, hused⟩

end Inv

/-! ## Whole runs -/

/-- A process at its start: it has not registered, and its memory accounts for nothing. -/
structure Fresh (p : Process) : Prop where
  pid_ne_zero : p.info.pid ≠ 0
  unregistered : p.registered = false
  untracked : p.deviceOverallocated = []
  noContext : p.NoContext
  no_underflow : p.underflow = false

section Runs

variable {p p' : Process}

theorem Fresh.inv (h : p.Fresh) : p.Inv := by
  refine ⟨h.pid_ne_zero, h.no_underflow, fun _ k => ⟨?_, contextOn_of_noContext h.noContext k⟩,
    fun hno => absurd (h.unregistered.symm.trans hno) (by simp)⟩
  rw [dataOn, h.untracked]
  rfl

theorem Inv.coherent (h : p.Inv) (hreg : p.registered = true) : p.Coherent := by
  obtain ⟨slot, hslot, hpid, hused⟩ := h.counts hreg
  exact ⟨slot, hslot, hpid, fun k => ⟨(hused k).1, (hused k).2.1⟩⟩

/-- **A child that registers** is coherent exactly when it inherits nothing. -/
theorem coherent_fork_iff {child : Pid} {procAlive : Pid → ProcState} (h0 : child ≠ 0)
    (hself : procAlive child ≠ .nonalive)
    (hp : (p.fork child).ensureInitialized procAlive = some p') : p'.Coherent ↔ p.Uncharged := by
  obtain ⟨info, hinit, rfl⟩ := Option.map_eq_some_iff.mp hp
  obtain ⟨hpid, hcounts⟩ := initProcSlotWithlock_counts hinit h0 hself
  obtain ⟨slot, hslot, hown, hused⟩ := hcounts
  constructor
  · rintro ⟨slot', hslot', -, hused'⟩ k
    obtain rfl : slot' = slot := hslot'.eq hslot
    exact ⟨(hused' k).1.symm.trans (hused k).1, (hused' k).2.symm.trans (hused k).2.1⟩
  · intro huncharged
    refine ⟨slot, hslot, hown, fun k => ?_⟩
    exact ⟨(hused k).1.trans (huncharged k).1.symm, (hused k).2.1.trans (huncharged k).2.symm⟩

end Runs

end Process

/-- **Accounting across fork.**  Every run of a process and of the children it becomes, through any
order of hooked calls and forks, with any sizes, devices, driver outcomes and measured context
sizes, and other processes at work on the region: if every step meets the condition, then after
`ensure_initialized` the counters of the process's slot are what its lists and flags say, and no
release has made a counter wrap.  A child of any process reached so is coherent after it registers
if and only if the process had nothing charged when it forked. -/
theorem fork_accounting {p p' : Process} (hfresh : p.Fresh)
    (hrun : GuardedRun Process.step (fun p a => a.Regular p ∧ a.Keeps p) p p') :
    (p'.registered = true → p'.Coherent) ∧ p'.underflow = false ∧
      ∀ (child : Pid) (procAlive : Pid → ProcState) (p₁ : Process), child ≠ 0 →
        procAlive child ≠ .nonalive → (p'.fork child).ensureInitialized procAlive = some p₁ →
        (p₁.Coherent ↔ p'.Uncharged) := by
  have hinv : p'.Inv := hrun.invariant (P := Process.Inv)
    (fun _ _ _ hI hok hst => hI.step hok.1 hok.2 hst) hfresh.inv
  exact ⟨hinv.coherent, hinv.no_underflow,
    fun _ _ _ h0 hself hp => Process.coherent_fork_iff h0 hself hp⟩

/-- `RoomFor`, evaluated. -/
def Process.roomFor (p : Process) (k : Dev) (usage : UInt64) : Bool :=
  p.info.mySlot.all fun i =>
    ((p.info.sharedRegion.procs i).used k).total.toNat + usage.toNat < 2 ^ 64

theorem Process.roomFor_of_eval {p : Process} {k : Dev} {usage : UInt64}
    (h : p.roomFor k usage = true) : p.RoomFor k usage := by
  rintro - slot ⟨i, hi, -, rfl⟩
  rw [Process.roomFor, hi] at h
  exact of_decide_eq_true h

/-- `Keeps` without stream-ordered calls and with a first `postInit`, evaluated. -/
def ForkLabel.keeps (p : Process) : ForkLabel → Bool
  | .chunk _ c => c.request.all fun r => p.roomFor (p.cudaToNvmlMap r.1) r.2
  | .async _ _ => false
  | .primaryCtxRetain _ dev => p.roomFor (p.cudaToNvmlMap dev) p.contextSize
  | .ensurePostInit _ _ (.measured _) =>
    decide (∀ k, p.dataOn k = 0) && p.contextSize == 0 && decide (∀ d, p.ctxActivate d = false)
  | .ensurePostInit _ _ _ => false
  | .fork _ => decide (∀ k, p.dataOn k = 0 ∧ p.contextOn k = 0)
  | _ => true

theorem ForkLabel.keeps_of_eval {p : Process} {a : ForkLabel} (h : a.keeps p = true) :
    a.Keeps p := by
  cases a with
  | chunk procAlive c =>
    intro dev size hrequest
    rw [ForkLabel.keeps, hrequest] at h
    exact Process.roomFor_of_eval h
  | async procAlive c => exact absurd h (by simp [ForkLabel.keeps])
  | primaryCtxRetain procAlive dev => exact fun _ => Process.roomFor_of_eval h
  | ensurePostInit procAlive cudaToNvmlMap result =>
    cases result with
    | measured n =>
      rw [ForkLabel.keeps, Bool.and_eq_true, Bool.and_eq_true, beq_iff_eq] at h
      obtain ⟨⟨hdata, hzero⟩, hno⟩ := h
      have hno' : ∀ d, p.ctxActivate d = false := of_decide_eq_true hno
      exact fun _ => ⟨of_decide_eq_true hdata, Or.inr (Or.inl hzero), Or.inr ⟨hzero, hno'⟩⟩
    | _ => exact absurd h (by simp [ForkLabel.keeps])
  | fork child => exact of_decide_eq_true (p := ∀ k, p.dataOn k = 0 ∧ p.contextOn k = 0) h
  | _ => trivial

/-- Process `7` at its start, in an empty region. -/
def freshProcess : Process where
  info := ⟨7, ⟨fun _ => 0, fun _ => .blank, 0⟩, none⟩
  deviceOverallocated := []
  driverLive := []
  mutexHeld := false
  deviceAllocasync := []
  limit := 0
  registered := false
  postInited := false
  cudaToNvmlMap := id
  contextSize := 0
  ctxActivate := fun _ => false
  underflow := false

theorem freshProcess_fresh : freshProcess.Fresh :=
  ⟨show (7 : Pid) ≠ 0 by decide, rfl, rfl, fun _ => rfl, rfl⟩

/-- The parent starts up, allocates 5 bytes and forks. -/
def forkWithChunk : List ForkLabel :=
  [.ensurePostInit (fun _ => .alive) id (.measured 10),
    .chunk (fun _ => .alive) (.addChunk (.succeeds 0 100) 5), .fork 8]

/-- The same, with the chunk freed before the fork; then the child starts up, retains a context and
allocates 3 bytes. -/
def forkWithout : List ForkLabel :=
  [.ensurePostInit (fun _ => .alive) id (.measured 10),
    .chunk (fun _ => .alive) (.addChunk (.succeeds 0 100) 5),
    .chunk (fun _ => .alive) (.removeChunk true 100), .fork 8,
    .primaryCtxRetain (fun _ => .alive) 0, .chunk (fun _ => .alive) (.addChunk (.succeeds 0 200) 3)]

theorem forked_regular :
    ∀ a ∈ forkWithChunk ++ [.chunk (fun _ => .alive) (.removeChunk true 100)] ++ forkWithout,
      ∀ p : Process, a.Regular p := by
  rw [List.forall_mem_append, List.forall_mem_append]
  simp only [forkWithChunk, forkWithout, List.forall_mem_cons]
  simp [ForkLabel.Regular, ChunkCall.Regular, AddChunkEnv.succeeds]

theorem exec_forkWithout :
    (exec Process.step (fun p a => a.keeps p) forkWithout freshProcess).map
      (fun p => (p.registered, p.dataOn 0, p.contextOn 0)) = some (true, 3, 10) := by
  decide +kernel

/-- The child's slot counts its own 3 bytes and its own context. -/
theorem fork_accounting_forkWithout :
    ∃ p : Process, p.Coherent ∧ p.dataOn 0 = 3 ∧ p.contextOn 0 = 10 ∧ p.underflow = false := by
  obtain ⟨p, hexec, hp⟩ := Option.map_eq_some_iff.mp exec_forkWithout
  have hrun : GuardedRun Process.step (fun p a => a.Regular p ∧ a.Keeps p) freshProcess p :=
    GuardedRun.of_exec (fun a ha _ hkeeps =>
      ⟨forked_regular a (List.mem_append_right _ ha) _, ForkLabel.keeps_of_eval hkeeps⟩) hexec
  obtain ⟨hcoherent, hunderflow, -⟩ := fork_accounting freshProcess_fresh hrun
  simp only [Prod.mk.injEq] at hp
  obtain ⟨hreg, hdata, hcontext⟩ := hp
  exact ⟨p, hcoherent hreg, hdata, hcontext, hunderflow⟩

theorem exec_forkWithChunk :
    (exec Process.step (fun _ _ => true)
      (forkWithChunk ++ [.chunk (fun _ => .alive) (.removeChunk true 100)]) freshProcess).map
      Process.underflow = some true := by
  decide +kernel

/-- A child that frees the 5 bytes it has inherited takes them from a counter that is `0`. -/
theorem fork_accounting_broken_by_inherited_chunk :
    ¬ ∀ p p' : Process, p.Fresh → GuardedRun Process.step (fun p a => a.Regular p) p p' →
      (p'.registered = true → p'.Coherent) ∧ p'.underflow = false := by
  intro hall
  obtain ⟨p, hexec, hp⟩ := Option.map_eq_some_iff.mp exec_forkWithChunk
  have hrun : GuardedRun Process.step (fun p a => a.Regular p) freshProcess p :=
    GuardedRun.of_exec (fun a ha _ _ => forked_regular a (List.mem_append_left _ ha) _) hexec
  obtain ⟨-, hunderflow⟩ := hall freshProcess p freshProcess_fresh hrun
  rw [hunderflow] at hp
  exact absurd hp (by simp)

end HamiCore
