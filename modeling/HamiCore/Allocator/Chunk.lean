import HamiCore.Allocator.OomCheck

/-!
# Tracked device memory

`allocator.c` keeps the device memory of a process in a list, `device_overallocated`, next to the
usage counters in the process's slot.  This file models the four operations that touch both:
`add_chunk` and `add_chunk_only` append an entry and charge it, `remove_chunk` and
`remove_chunk_only` take the first entry with an address out and release it.

A call is run by one thread without interruption.  What the driver and the C library answer is part
of the call: the device of the current context, the outcome of the allocation and of the free, and
whether `INIT_ALLOCATED_LIST_ENTRY` gets its context and its memory.  When it does not, its `return`
leaves the mutex locked, and the next caller that locks it waits for ever; a call that does not
return is `none`.
-/

namespace HamiCore

/-- `allocated_device_memory`, without the context and the handle, which nothing reads back. -/
structure AllocatedDeviceMemory where
  address : UInt64
  length : UInt64
  dev : Dev
  deriving DecidableEq

/-- The allocator of one process. -/
structure Allocator where
  info : RegionInfo
  /-- `device_overallocated`, from head to tail. -/
  deviceOverallocated : List AllocatedDeviceMemory
  /-- The addresses the driver has handed out and not taken back. -/
  driverLive : List UInt64
  /-- `mutex` is locked. -/
  mutexHeld : Bool

/-- A `CUresult` other than `CUDA_SUCCESS`. -/
abbrev CudaError := {code : ℤ // code ≠ 0}

/-- `CUDA_ERROR_OUT_OF_MEMORY`. -/
def cudaErrorOutOfMemory : ℤ := 2

/-- What `add_chunk` learns from outside. -/
structure AddChunkEnv where
  /-- `cuCtxGetDevice`. -/
  dev : Dev
  /-- `proc_alive` during the first and the second `oom_check`. -/
  procAlive₁ : ℕ → Pid → ProcState
  procAlive₂ : ℕ → Pid → ProcState
  /-- `cuMemAlloc_v2`, called directly or through `cuMemoryAllocate`. -/
  memAlloc : Except CudaError UInt64
  /-- `cuCtxGetCurrent` and `malloc` in `INIT_ALLOCATED_LIST_ENTRY` succeed. -/
  entryOk : Bool
  /-- `cuMemFree_v2` of the rollback succeeds. -/
  memFree : Bool

namespace Allocator

/-- `pthread_mutex_lock(&mutex)`. -/
def lock (a : Allocator) : Option Allocator :=
  if a.mutexHeld then none else some { a with mutexHeld := true }

/-- `pthread_mutex_unlock(&mutex)`. -/
def unlock (a : Allocator) : Allocator := { a with mutexHeld := false }

/-- The driver's `cuMemFree_v2`, whose result is not looked at. -/
def driverFree (a : Allocator) (ok : Bool) (address : UInt64) : Allocator :=
  if ok then { a with driverLive := a.driverLive.erase address } else a

/-- `LIST_ADD` of a new entry and the charge for it. -/
def track (cudaToNvmlMap : Dev → Dev) (a : Allocator) (e : AllocatedDeviceMemory) : Allocator :=
  { a with
    deviceOverallocated := a.deviceOverallocated ++ [e]
    info := (addGpuDeviceMemoryUsage cudaToNvmlMap a.info a.info.pid e.dev e.length 2).1 }

/-- `LIST_REMOVE` of the first entry with the address `dptr`, which is `e`, and the release. -/
def untrack (cudaToNvmlMap : Dev → Dev) (a : Allocator) (dptr : UInt64)
    (e : AllocatedDeviceMemory) : Allocator :=
  { a with
    deviceOverallocated := a.deviceOverallocated.eraseP fun val => val.address = dptr
    info := (rmGpuDeviceMemoryUsage cudaToNvmlMap a.info a.info.pid e.dev e.length 2).1 }

end Allocator

section Operations

variable (cudaToNvmlMap : Dev → Dev)

/-- `add_chunk(&address, size)`. -/
def addChunk (env : AddChunkEnv) (size : UInt64) (a : Allocator) : Option (ℤ × Allocator) :=
  (oomCheck env.procAlive₁ env.dev size a.info).bind fun (oom₁, info₁) =>
    let a₁ := { a with info := info₁ }
    if oom₁ ≠ 0 then some (cudaErrorOutOfMemory, a₁)
    else
      match env.memAlloc with
      | .error res => some (res, a₁)
      | .ok address =>
        ({ a₁ with driverLive := address :: a₁.driverLive }).lock.bind fun a₂ =>
          (oomCheck env.procAlive₂ env.dev size a₂.info).bind fun (oom₂, info₂) =>
            let a₃ := { a₂ with info := info₂ }
            if oom₂ ≠ 0 then some (cudaErrorOutOfMemory, a₃.unlock.driverFree env.memFree address)
            else if env.entryOk then
              some (0, (a₃.track cudaToNvmlMap ⟨address, size, env.dev⟩).unlock)
            else some (-1, a₃)

/-- `add_chunk_only(address, size, dev)`. -/
def addChunkOnly (procAlive : ℕ → Pid → ProcState) (entryOk : Bool) (address size : UInt64)
    (dev : Dev) (a : Allocator) : Option (ℤ × Allocator) :=
  a.lock.bind fun a₁ =>
    (oomCheck procAlive dev size a₁.info).bind fun (oom, info) =>
      let a₂ := { a₁ with info := info }
      if oom ≠ 0 then some (-1, a₂.unlock)
      else if entryOk then some (0, (a₂.track cudaToNvmlMap ⟨address, size, dev⟩).unlock)
      else some (-1, a₂)

/-- `remove_chunk(device_overallocated, dptr)`. -/
def removeChunk (memFree : Bool) (dptr : UInt64) (a : Allocator) : Option (ℤ × Allocator) :=
  if a.deviceOverallocated.length = 0 then some (-1, a)
  else
    a.lock.bind fun a₁ =>
      match a₁.deviceOverallocated.find? fun val => val.address = dptr with
      | some e => some (0, (a₁.untrack cudaToNvmlMap dptr e).unlock.driverFree memFree dptr)
      | none => some (-1, a₁.unlock)

/-- `remove_chunk_only(dptr)`, which does not lock. -/
def removeChunkOnly (dptr : UInt64) (a : Allocator) : Option (ℤ × Allocator) :=
  if a.deviceOverallocated.length = 0 then some (-1, a)
  else
    match a.deviceOverallocated.find? fun val => val.address = dptr with
    | some e => some (0, a.untrack cudaToNvmlMap dptr e)
    | none => some (-1, a)

/-- A call, with what it learns from outside. -/
inductive ChunkCall where
  | addChunk (env : AddChunkEnv) (size : UInt64)
  | addChunkOnly (procAlive : ℕ → Pid → ProcState) (entryOk : Bool) (address size : UInt64)
      (dev : Dev)
  | removeChunk (memFree : Bool) (dptr : UInt64)
  | removeChunkOnly (dptr : UInt64)

/-- Make a call. -/
def Allocator.call (a : Allocator) : ChunkCall → Option (ℤ × Allocator)
  | .addChunk env size => HamiCore.addChunk cudaToNvmlMap env size a
  | .addChunkOnly procAlive entryOk address size dev =>
    HamiCore.addChunkOnly cudaToNvmlMap procAlive entryOk address size dev a
  | .removeChunk memFree dptr => HamiCore.removeChunk cudaToNvmlMap memFree dptr a
  | .removeChunkOnly dptr => HamiCore.removeChunkOnly cudaToNvmlMap dptr a

/-- The state after a call. -/
def Allocator.step (a : Allocator) (c : ChunkCall) : Option Allocator :=
  (a.call cudaToNvmlMap c).map Prod.snd

end Operations

/-- `INIT_ALLOCATED_LIST_ENTRY` succeeds, and `proc_alive` does not report the caller dead. -/
def ChunkCall.Regular (a : Allocator) : ChunkCall → Prop
  | .addChunk env _ => env.entryOk = true ∧
      ∀ n, env.procAlive₁ n a.info.pid ≠ .nonalive ∧ env.procAlive₂ n a.info.pid ≠ .nonalive
  | .addChunkOnly procAlive entryOk _ _ _ =>
    entryOk = true ∧ ∀ n, procAlive n a.info.pid ≠ .nonalive
  | .removeChunk _ _ => True
  | .removeChunkOnly _ => True

end HamiCore
