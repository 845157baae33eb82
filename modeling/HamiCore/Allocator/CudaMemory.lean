import HamiCore.Allocator.Async
import HamiCore.Allocator.Hooks

/-!
# The memory hooks, call by call

One process, one thread: each hook of `memory.c` that allocates or frees device memory is a function
on the state of the allocator, with everything the driver and the C library answer as an argument.
The state has both lists, `device_overallocated` and `device_allocasync`, the mutex they share, and
two records of what the driver did: the memory it has handed out and not taken back, and the calls
of its two free functions.

Between the two checks of an allocation other processes may move; what they may do to the region is
an `Interlude`.  `add_chunk_only` and `remove_chunk_only` are those of `HamiCore.Allocator.Chunk`;
the other operations are written out again, because the driver's part in them is what counts here,
and each projects to the operation it repeats (`addChunk_quiet`, `removeChunk_toAllocator`,
`addChunkAsync_async`, `removeChunkAsync_async`).
-/

namespace HamiCore

/-- What other processes do to the region between two checks of an allocation.  The caller keeps its
slot, and nobody stays inside a seqlock section. -/
structure Interlude where
  move : RegionInfo → RegionInfo
  pid_eq : ∀ info, (move info).pid = info.pid
  pointsAt : ∀ info s, info.PointsAt s → (move info).PointsAt s
  seqlocksEven : ∀ info, info.sharedRegion.SeqlocksEven → (move info).sharedRegion.SeqlocksEven

/-- Nothing happens. -/
def Interlude.quiet : Interlude := ⟨id, fun _ => rfl, fun _ _ => id, fun _ => id⟩

/-- The device memory of a process. -/
structure CudaMemory extends Allocator where
  /-- The entries of `device_allocasync`, from head to tail. -/
  deviceAllocasync : List AllocatedDeviceMemory
  /-- `device_allocasync->limit`. -/
  asyncLimit : UInt64
  /-- The calls of the driver's `cuMemFree_v2` and `cuMemFreeAsync`, the latest first. -/
  driverFrees : List UInt64

/-- What `cuMemAllocManaged`, `cuMemAllocPitch_v2` and `cuMemCreate` learn from outside. -/
structure AllocOnlyEnv where
  /-- `cuCtxGetDevice`. -/
  ctxDevice : Except CudaError Dev
  procAlive₁ : ℕ → Pid → ProcState
  procAlive₂ : ℕ → Pid → ProcState
  others : Interlude
  /-- The driver's allocation: an address or a handle. -/
  driver : Except CudaError UInt64
  entryOk : Bool

namespace CudaMemory

/-- `pthread_mutex_lock(&mutex)`. -/
def lock (m : CudaMemory) : Option CudaMemory :=
  if m.mutexHeld then none else some { m with mutexHeld := true }

/-- `pthread_mutex_unlock(&mutex)`. -/
def unlock (m : CudaMemory) : CudaMemory := { m with mutexHeld := false }

/-- The driver hands out an address or a handle. -/
def driverAlloc (m : CudaMemory) (address : UInt64) : CudaMemory :=
  { m with driverLive := address :: m.driverLive }

/-- A call of the driver's `cuMemFree_v2` or `cuMemFreeAsync`. -/
def driverFree (m : CudaMemory) (ok : Bool) (address : UInt64) : CudaMemory :=
  { m with
    driverLive := if ok then m.driverLive.erase address else m.driverLive
    driverFrees := address :: m.driverFrees }

/-- The part of the state that `HamiCore.Allocator.Async` is about. -/
def async (m : CudaMemory) : AsyncAllocator := ⟨m.info, m.deviceAllocasync, m.asyncLimit⟩

def setAsync (m : CudaMemory) (a : AsyncAllocator) : CudaMemory :=
  { m with info := a.info, deviceAllocasync := a.deviceAllocasync, asyncLimit := a.limit }

section Operations

variable (cudaToNvmlMap : Dev → Dev)

/-- `add_chunk(&address, size)`, with the other processes moving between its two checks. -/
def addChunk (others : Interlude) (env : AddChunkEnv) (size : UInt64) (m : CudaMemory) :
    Option (ℤ × CudaMemory) :=
  (oomCheck env.procAlive₁ env.dev size m.info).bind fun (oom₁, info₁) =>
    if oom₁ ≠ 0 then some (cudaErrorOutOfMemory, { m with info := info₁ })
    else
      match env.memAlloc with
      | .error res => some (res, { m with info := info₁ })
      | .ok address =>
        (driverAlloc { m with info := others.move info₁ } address).lock.bind fun m₂ =>
          (oomCheck env.procAlive₂ env.dev size m₂.info).bind fun (oom₂, info₂) =>
            let m₃ := { m₂ with info := info₂ }
            if oom₂ ≠ 0 then some (cudaErrorOutOfMemory, m₃.unlock.driverFree env.memFree address)
            else if env.entryOk then
              some (0, unlock
                { m₃ with toAllocator := m₃.track cudaToNvmlMap ⟨address, size, env.dev⟩ })
            else some (-1, m₃)

/-- `add_chunk_only(address, size, dev)`. -/
def addChunkOnly (procAlive : ℕ → Pid → ProcState) (entryOk : Bool) (address size : UInt64)
    (dev : Dev) (m : CudaMemory) : Option (ℤ × CudaMemory) :=
  (HamiCore.addChunkOnly cudaToNvmlMap procAlive entryOk address size dev m.toAllocator).map
    fun (ret, a) => (ret, { m with toAllocator := a })

/-- `remove_chunk(device_overallocated, dptr)`. -/
def removeChunk (memFree : Bool) (dptr : UInt64) (m : CudaMemory) : Option (ℤ × CudaMemory) :=
  if m.deviceOverallocated.length = 0 then some (-1, m)
  else
    m.lock.bind fun m₁ =>
      match m₁.deviceOverallocated.find? fun val => val.address = dptr with
      | some e =>
        some (0, (unlock { m₁ with toAllocator := m₁.untrack cudaToNvmlMap dptr e }).driverFree
          memFree dptr)
      | none => some (-1, m₁.unlock)

/-- `remove_chunk_only(dptr)`. -/
def removeChunkOnly (dptr : UInt64) (m : CudaMemory) : Option (ℤ × CudaMemory) :=
  (HamiCore.removeChunkOnly cudaToNvmlMap dptr m.toAllocator).map
    fun (ret, a) => (ret, { m with toAllocator := a })

/-- `add_chunk_async`. -/
def addChunkAsync (env : AllocAsyncEnv) (size : UInt64) (m : CudaMemory) :
    Option (ℤ × CudaMemory) :=
  (oomCheck env.procAlive env.dev size m.info).map fun (oom, info) =>
    let m₁ := { m with info := info }
    if oom ≠ 0 then (-1, m₁)
    else if env.entryOk then
      match env.memAllocAsync with
      | .error res => (res, m₁)
      | .ok address =>
        match env.deviceGetMemPool with
        | .error res => (res, m₁.driverAlloc address)
        | .ok _ =>
          match env.memPoolGetAttribute with
          | .error res => (res, m₁.driverAlloc address)
          | .ok poollimit =>
            (0, (m₁.driverAlloc address).setAsync
              (m₁.async.record cudaToNvmlMap env.dev address size poollimit))
    else (-1, m₁)

/-- `remove_chunk_async(device_allocasync, dptr, hStream)`; `dev` is the current device. -/
def removeChunkAsync (memFree : Bool) (dev : Dev) (dptr : UInt64) (m : CudaMemory) :
    ℤ × CudaMemory :=
  if m.deviceAllocasync.length = 0 then (-1, m)
  else
    match m.deviceAllocasync.find? fun val => val.address = dptr with
    | some e =>
      let m₁ := m.driverFree memFree dptr
      (0, { m₁ with
        info := (rmGpuDeviceMemoryUsage cudaToNvmlMap m₁.info m₁.info.pid dev e.length 2).1
        asyncLimit := m₁.asyncLimit - e.length
        deviceAllocasync := m₁.deviceAllocasync.eraseP fun val => val.address = dptr })
    | none => (-1, m)

/-- `allocate_raw`. -/
def allocateRaw : Interlude → AddChunkEnv → UInt64 → CudaMemory → Option (ℤ × CudaMemory) :=
  addChunk cudaToNvmlMap

/-- `free_raw`. -/
def freeRaw : Bool → UInt64 → CudaMemory → Option (ℤ × CudaMemory) :=
  removeChunk cudaToNvmlMap

/-- `allocate_async_raw`. -/
def allocateAsyncRaw (env : AllocAsyncEnv) (size : UInt64) (m : CudaMemory) :
    Option (ℤ × CudaMemory) :=
  m.lock.bind fun m₁ =>
    (addChunkAsync cudaToNvmlMap env size m₁).map fun (ret, m₂) => (ret, m₂.unlock)

/-- `free_raw_async`. -/
def freeRawAsync (memFree : Bool) (dev : Dev) (dptr : UInt64) (m : CudaMemory) :
    Option (ℤ × CudaMemory) :=
  m.lock.map fun m₁ =>
    ((removeChunkAsync cudaToNvmlMap memFree dev dptr m₁).1,
      (removeChunkAsync cudaToNvmlMap memFree dev dptr m₁).2.unlock)

end Operations

/-! ## The operations they repeat -/

section Projections

variable (cudaToNvmlMap : Dev → Dev)

theorem lock_of_free {m : CudaMemory} (h : m.mutexHeld = false) :
    m.lock = some { m with mutexHeld := true } := by
  rw [lock, h]
  rfl

/-- The driver's free, without the record of calls. -/
theorem driverFree_toAllocator (m : CudaMemory) (ok : Bool) (address : UInt64) :
    (m.driverFree ok address).toAllocator = m.toAllocator.driverFree ok address := by
  unfold driverFree Allocator.driverFree
  split_ifs <;> rfl

/-- With nobody moving in between, `add_chunk` is the one of `HamiCore.Allocator.Chunk`. -/
theorem addChunk_quiet (env : AddChunkEnv) (size : UInt64) (m : CudaMemory) :
    (addChunk cudaToNvmlMap .quiet env size m).map (fun out => (out.1, out.2.toAllocator)) =
      HamiCore.addChunk cudaToNvmlMap env size m.toAllocator := by
  obtain ⟨dev, procAlive₁, procAlive₂, memAlloc, entryOk, memFree⟩ := env
  obtain ⟨⟨info, list, live, mutex⟩, asyncs, asyncLimit, frees⟩ := m
  unfold addChunk HamiCore.addChunk
  rw [Option.map_bind]
  congr 1
  funext ⟨oom₁, info₁⟩
  dsimp only [Function.comp_apply]
  by_cases h₁ : oom₁ ≠ 0
  · rw [if_pos h₁, if_pos h₁]
    rfl
  · rw [if_neg h₁, if_neg h₁]
    cases memAlloc with
    | error res => rfl
    | ok address =>
      cases mutex with
      | true => rfl
      | false =>
        show Option.map _ (Option.bind (oomCheck procAlive₂ dev size info₁) _) =
          Option.bind (oomCheck procAlive₂ dev size info₁) _
        rw [Option.map_bind]
        congr 1
        funext ⟨oom₂, info₂⟩
        dsimp only [Function.comp_apply]
        split_ifs
        · rw [Option.map_some, driverFree_toAllocator]
          rfl
        · rfl
        · rfl

theorem removeChunk_toAllocator (memFree : Bool) (dptr : UInt64) (m : CudaMemory) :
    (removeChunk cudaToNvmlMap memFree dptr m).map (fun out => (out.1, out.2.toAllocator)) =
      HamiCore.removeChunk cudaToNvmlMap memFree dptr m.toAllocator := by
  obtain ⟨⟨info, list, live, mutex⟩, asyncs, asyncLimit, frees⟩ := m
  unfold removeChunk HamiCore.removeChunk
  split_ifs with hempty
  · rfl
  · cases mutex with
    | true => rfl
    | false =>
      rw [lock_of_free rfl]
      show Option.map _ (match list.find? fun val => val.address = dptr with
          | some e => _
          | none => _) =
        match list.find? fun val => val.address = dptr with
        | some e => _
        | none => _
      cases list.find? fun val => val.address = dptr with
      | none => rfl
      | some e =>
        dsimp only
        rw [Option.map_some, driverFree_toAllocator]
        rfl

theorem addChunkAsync_async (env : AllocAsyncEnv) (size : UInt64) (m : CudaMemory) :
    (addChunkAsync cudaToNvmlMap env size m).map (fun out => (out.1, out.2.async)) =
      HamiCore.addChunkAsync cudaToNvmlMap env size m.async := by
  obtain ⟨dev, procAlive, entryOk, memAllocAsync, deviceGetMemPool, memPoolGetAttribute⟩ := env
  unfold addChunkAsync HamiCore.addChunkAsync
  rw [Option.map_map]
  congr 1
  funext ⟨oom, info⟩
  dsimp only [Function.comp_apply]
  split_ifs
  · rfl
  · cases memAllocAsync with
    | error res => rfl
    | ok address =>
      cases deviceGetMemPool with
      | error res => rfl
      | ok _ =>
        cases memPoolGetAttribute with
        | error res => rfl
        | ok poollimit => rfl
  · rfl

theorem removeChunkAsync_async (memFree : Bool) (dev : Dev) (dptr : UInt64) (m : CudaMemory) :
    ((removeChunkAsync cudaToNvmlMap memFree dev dptr m).1,
        (removeChunkAsync cudaToNvmlMap memFree dev dptr m).2.async) =
      HamiCore.removeChunkAsync cudaToNvmlMap dev dptr m.async := by
  obtain ⟨⟨info, list, live, mutex⟩, asyncs, asyncLimit, frees⟩ := m
  unfold removeChunkAsync HamiCore.removeChunkAsync
  show _ = if asyncs.length = 0 then _ else
    match asyncs.find? fun val => val.address = dptr with
    | some e => _
    | none => _
  dsimp only
  split_ifs with hempty
  · rfl
  · cases asyncs.find? fun val => val.address = dptr with
    | none => rfl
    | some e => rfl

end Projections

end CudaMemory

/-! ## The hooks -/

section Hooks

open CudaMemory

variable (cudaToNvmlMap : Dev → Dev)

/-- `cuMemAlloc_v2`. -/
def cuMemAllocV2 (others : Interlude) (env : AddChunkEnv) (bytesize : UInt64) (m : CudaMemory) :
    Option (ℤ × CudaMemory) :=
  allocateRaw cudaToNvmlMap others env bytesize m

/-- The common end of the hooks over `add_chunk_only`: the check on `dev`, the driver's allocation,
and `add_chunk_only`, whose return value is dropped. -/
def allocOnly (env : AllocOnlyEnv) (dev : Dev) (size : UInt64) (m : CudaMemory) :
    Option (ℤ × CudaMemory) :=
  (oomCheck env.procAlive₁ dev size m.info).bind fun (oom, info) =>
    if oom ≠ 0 then some (cudaErrorOutOfMemory, { m with info := info })
    else
      match env.driver with
      | .error res => some (res, { m with info := info })
      | .ok address =>
        (CudaMemory.addChunkOnly cudaToNvmlMap env.procAlive₂ env.entryOk address size dev
          (driverAlloc { m with info := env.others.move info } address)).map
            fun (_, m₁) => (0, m₁)

/-- `cuMemAllocManaged`. -/
def cuMemAllocManaged (env : AllocOnlyEnv) (bytesize : UInt64) (m : CudaMemory) :
    Option (ℤ × CudaMemory) :=
  match env.ctxDevice with
  | .error res => some (res, m)
  | .ok dev => allocOnly cudaToNvmlMap env dev bytesize m

/-- `cuMemAllocPitch_v2`.  `none` may also be a division by zero. -/
def cuMemAllocPitchV2 (env : AllocOnlyEnv) (widthInBytes height : UInt64)
    (elementSizeBytes : UInt32) (m : CudaMemory) : Option (ℤ × CudaMemory) :=
  if elementSizeBytes = 0 then none
  else
    match env.ctxDevice with
    | .error res => some (res, m)
    | .ok dev =>
      allocOnly cudaToNvmlMap env dev (guessPitchBytes widthInBytes height elementSizeBytes) m

/-- `cuMemCreate`; `location` is the device id of a device location, and `none` for any other. -/
def cuMemCreate (env : AllocOnlyEnv) (location : Option Dev) (size : UInt64) (m : CudaMemory) :
    Option (ℤ × CudaMemory) :=
  match location with
  | some id =>
    match env.ctxDevice with
    | .ok dev => allocOnly cudaToNvmlMap env dev size m
    | .error _ => allocOnly cudaToNvmlMap env id size m
  | none =>
    match env.driver with
    | .error res => some (res, m)
    | .ok handle => some (0, m.driverAlloc handle)

/-- `cuMemFree_v2`. -/
def cuMemFreeV2 (memFree : Except CudaError Unit) (dptr : UInt64) (m : CudaMemory) :
    Option (ℤ × CudaMemory) :=
  if dptr = 0 then some (0, m)
  else freeRaw cudaToNvmlMap memFree.isOk dptr m

/-- `cuMemRelease`. -/
def cuMemRelease (release : Except CudaError Unit) (handle : UInt64) (m : CudaMemory) :
    Option (ℤ × CudaMemory) :=
  match release with
  | .error res => some (res, m)
  | .ok _ =>
    (CudaMemory.removeChunkOnly cudaToNvmlMap handle
      { m with driverLive := m.driverLive.erase handle }).map fun (_, m₁) => (0, m₁)

/-- `cuMemAllocAsync`. -/
def cuMemAllocAsync (env : AllocAsyncEnv) (bytesize : UInt64) (m : CudaMemory) :
    Option (ℤ × CudaMemory) :=
  allocateAsyncRaw cudaToNvmlMap env bytesize m

/-- `cuMemFreeAsync`, on the current device `dev`. -/
def cuMemFreeAsync (memFree : Except CudaError Unit) (dev : Dev) (dptr : UInt64)
    (m : CudaMemory) : Option (ℤ × CudaMemory) :=
  if dptr = 0 then some (0, m)
  else freeRawAsync cudaToNvmlMap memFree.isOk dev dptr m

/-- `cuMemAllocFromPoolAsync`, which goes straight to the driver. -/
def cuMemAllocFromPoolAsync (driver : Except CudaError UInt64) (m : CudaMemory) :
    ℤ × CudaMemory :=
  match driver with
  | .error res => (res, m)
  | .ok address => (0, m.driverAlloc address)

end Hooks

/-! ## The ways out of a hook over `add_chunk_only` -/

/-- The five ways out of `allocOnly`.  In the last three the driver has allocated and the hook
returns `CUDA_SUCCESS`. -/
inductive AllocOnlyExit (cudaToNvmlMap : Dev → Dev) (env : AllocOnlyEnv) (dev : Dev)
    (size : UInt64) (m : CudaMemory) : ℤ → CudaMemory → Prop where
  | refused {oom : ℤ} {info : RegionInfo}
      (hcheck : oomCheck env.procAlive₁ dev size m.info = some (oom, info)) (hoom : oom ≠ 0) :
      AllocOnlyExit cudaToNvmlMap env dev size m cudaErrorOutOfMemory { m with info := info }
  | notAllocated {info : RegionInfo} {res : CudaError}
      (hcheck : oomCheck env.procAlive₁ dev size m.info = some (0, info))
      (halloc : env.driver = .error res) :
      AllocOnlyExit cudaToNvmlMap env dev size m res { m with info := info }
  | unrecorded {info₁ info₂ : RegionInfo} {address : UInt64} {oom : ℤ}
      (hcheck : oomCheck env.procAlive₁ dev size m.info = some (0, info₁))
      (halloc : env.driver = .ok address)
      (hcheck₂ : oomCheck env.procAlive₂ dev size (env.others.move info₁) = some (oom, info₂))
      (hoom : oom ≠ 0) :
      AllocOnlyExit cudaToNvmlMap env dev size m 0 { m with
        info := info₂
        driverLive := address :: m.driverLive
        mutexHeld := false }
  | recorded {info₁ info₂ : RegionInfo} {address : UInt64}
      (hcheck : oomCheck env.procAlive₁ dev size m.info = some (0, info₁))
      (halloc : env.driver = .ok address)
      (hcheck₂ : oomCheck env.procAlive₂ dev size (env.others.move info₁) = some (0, info₂))
      (hentry : env.entryOk = true) :
      AllocOnlyExit cudaToNvmlMap env dev size m 0 { m with
        info := (addGpuDeviceMemoryUsage cudaToNvmlMap info₂ info₂.pid dev size 2).1
        deviceOverallocated := m.deviceOverallocated ++ [⟨address, size, dev⟩]
        driverLive := address :: m.driverLive
        mutexHeld := false }
  | abandoned {info₁ info₂ : RegionInfo} {address : UInt64}
      (hcheck : oomCheck env.procAlive₁ dev size m.info = some (0, info₁))
      (halloc : env.driver = .ok address)
      (hcheck₂ : oomCheck env.procAlive₂ dev size (env.others.move info₁) = some (0, info₂))
      (hentry : env.entryOk = false) :
      AllocOnlyExit cudaToNvmlMap env dev size m 0 { m with
        info := info₂
        driverLive := address :: m.driverLive
        mutexHeld := true }

/-- **Reading a hook over `add_chunk_only`.** -/
theorem allocOnly_exit {cudaToNvmlMap : Dev → Dev} {env : AllocOnlyEnv} {dev : Dev} {size : UInt64}
    {m m' : CudaMemory} {ret : ℤ} (h : allocOnly cudaToNvmlMap env dev size m = some (ret, m')) :
    AllocOnlyExit cudaToNvmlMap env dev size m ret m' := by
  obtain ⟨⟨oom₁, info₁⟩, hcheck, h⟩ := Option.bind_eq_some_iff.mp h
  dsimp only at h
  by_cases hoom₁ : oom₁ ≠ 0
  · rw [if_pos hoom₁] at h
    cases h
    exact .refused hcheck hoom₁
  · rw [if_neg hoom₁] at h
    obtain rfl : oom₁ = 0 := not_not.mp hoom₁
    split at h
    · next res halloc =>
      cases h
      exact .notAllocated hcheck halloc
    · next address halloc =>
      obtain ⟨⟨ret₂, m₂⟩, honly, hout⟩ := Option.map_eq_some_iff.mp h
      cases hout
      obtain ⟨⟨ret₃, a⟩, hchunk, hout⟩ := Option.map_eq_some_iff.mp honly
      cases hout
      obtain ⟨a₁, hlock, hchunk⟩ := Option.bind_eq_some_iff.mp hchunk
      obtain ⟨-, hlock⟩ := Option.ite_none_left_eq_some.mp hlock
      cases hlock
      obtain ⟨⟨oom₂, info₂⟩, hcheck₂, hchunk⟩ := Option.bind_eq_some_iff.mp hchunk
      dsimp only at hchunk
      split_ifs at hchunk with hoom₂ hentry
      · cases hchunk
        exact .unrecorded hcheck halloc hcheck₂ hoom₂
      · cases hchunk
        obtain rfl : oom₂ = 0 := not_not.mp hoom₂
        exact .recorded hcheck halloc hcheck₂ hentry
      · cases hchunk
        obtain rfl : oom₂ = 0 := not_not.mp hoom₂
        exact .abandoned hcheck halloc hcheck₂ (Bool.not_eq_true _ ▸ hentry)

/-- Memory that the driver has allocated is recorded: the second check passes, and the entry can be
made. -/
def AllocOnlyEnv.Records (env : AllocOnlyEnv) (dev : Dev) (size : UInt64) (info : RegionInfo) :
    Prop :=
  ∀ info₁ address oom info₂, oomCheck env.procAlive₁ dev size info = some (0, info₁) →
    env.driver = .ok address →
    oomCheck env.procAlive₂ dev size (env.others.move info₁) = some (oom, info₂) →
    oom = 0 ∧ env.entryOk = true

end HamiCore
