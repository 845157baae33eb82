import HamiCore.Allocator.Ledger

/-!
# The synchronous allocation hooks of one process

The threads of a process run `cuMemAlloc_v2`, `cuMemAllocManaged`, `cuMemAllocPitch_v2`,
`cuMemCreate`, `cuMemFree_v2` and `cuMemRelease`.  All four allocations have the same shape: a
check, the driver call, and a section under `mutex` that checks again and records.  They differ in
who runs the section.  `cuMemAlloc_v2` leaves everything to `add_chunk`, and when the second check
fails `add_chunk` gives the memory back and returns an error.  The other three call the driver
themselves and then `add_chunk_only`, whose return value they drop: when its check fails the memory
is neither recorded nor given back, and the caller is told `CUDA_SUCCESS`.

A section is two steps here, the second check under the mutex and the recording, so that whatever
else happens in between is part of a run; `remove_chunk` is one section, and `remove_chunk_only`,
which takes no mutex, is one step.  Other processes may change the region at any time (`others`).
`held` is what callers believe they have: it grows when a hook returns `CUDA_SUCCESS` and shrinks at
the matching free.

This is the grain at which the limit of a single process is looked at (`HookLimit`).  Whether what
is held is tracked depends on the single loads and stores of the list as well (`Tracking`).
-/

namespace HamiCore

/-- The two functions that record an allocation. -/
inductive Recorder where
  | addChunk
  | addChunkOnly
  deriving DecidableEq

/-- What the hook returns when its recorder returns `ret`, the driver having succeeded.  The hooks
over `add_chunk_only` return the driver's result. -/
def Recorder.hookResult (r : Recorder) (ret : ℤ) : ℤ :=
  match r with
  | .addChunk => ret
  | .addChunkOnly => 0

/-- Where a thread is. -/
inductive HookPc where
  | idle
  /-- The first check has passed; the driver is next. -/
  | allocating (r : Recorder) (dev : Dev) (size : UInt64)
  /-- The driver has allocated; `mutex` is next. -/
  | tracking (r : Recorder) (dev : Dev) (size address : UInt64)
  /-- The second check has passed, under the mutex. -/
  | passed (r : Recorder) (dev : Dev) (size address : UInt64)
  /-- `remove_chunk`, past the test of the length; `mutex` is next. -/
  | removing (dptr : UInt64)
  /-- `cuMemRelease`, before the driver call. -/
  | releasing (handle : UInt64)
  /-- `cuMemRelease`, before `remove_chunk_only`. -/
  | untracking (handle : UInt64)
  deriving DecidableEq

/-- A process and its threads. -/
structure HookState (T : Type*) where
  info : RegionInfo
  deviceOverallocated : List AllocatedDeviceMemory
  /-- The thread that has `mutex`. -/
  mutex : Option T
  pc : T → HookPc
  /-- The allocations a hook has returned `CUDA_SUCCESS` for and no free has taken back. -/
  held : List AllocatedDeviceMemory

/-- The hooks.  `ctxDevice` is what `cuCtxGetDevice` answers; `add_chunk` does not look at its
result. -/
inductive HookCall where
  | cuMemAllocV2 (dev : Dev) (bytesize : UInt64)
  | cuMemAllocManaged (ctxDevice : Except CudaError Dev) (bytesize : UInt64)
  | cuMemAllocPitchV2 (ctxDevice : Except CudaError Dev) (widthInBytes height : UInt64)
      (elementSizeBytes : UInt32)
  /-- `location` is the device id of a device location, and `none` for any other. -/
  | cuMemCreate (ctxDevice : Except CudaError Dev) (location : Option Dev) (size : UInt64)
  | cuMemFreeV2 (dptr : UInt64)
  | cuMemRelease (handle : UInt64)

/-- What can happen next. -/
inductive HookLabel (T : Type*) where
  /-- Thread `t` calls a hook, which runs up to its driver call or its mutex. -/
  | call (t : T) (c : HookCall) (procAlive : ℕ → Pid → ProcState)
  | driverAlloc (t : T) (result : Except CudaError UInt64)
  | secondCheck (t : T) (procAlive : ℕ → Pid → ProcState)
  /-- The rest of the section; `entryOk` is the outcome of `INIT_ALLOCATED_LIST_ENTRY`. -/
  | record (t : T) (entryOk : Bool)
  | removeChunk (t : T)
  | driverRelease (t : T) (ok : Bool)
  | removeChunkOnly (t : T)
  /-- Other processes. -/
  | others (region : SharedRegion)

/-- `bytesize` in `cuMemAllocPitch_v2`. -/
def guessPitchBytes (widthInBytes height : UInt64) (elementSizeBytes : UInt32) : UInt64 :=
  ((widthInBytes - 1) / elementSizeBytes.toUInt64 + 1) * elementSizeBytes.toUInt64 * height

section Machine

variable {T : Type*} [DecidableEq T] (cudaToNvmlMap : Dev → Dev)

namespace HookState

/-- Move thread `t`. -/
def goto (s : HookState T) (t : T) (pc : HookPc) : HookState T :=
  { s with pc := Function.update s.pc t pc }

/-- The hook of thread `t` returns, its recorder with `ret`. -/
def hookReturn (s : HookState T) (t : T) (r : Recorder) (e : AllocatedDeviceMemory) (ret : ℤ) :
    HookState T :=
  { s.goto t .idle with held := if r.hookResult ret = 0 then s.held ++ [e] else s.held }

/-- The first check. -/
def firstCheck (s : HookState T) (t : T) (r : Recorder) (dev : Dev) (size : UInt64)
    (procAlive : ℕ → Pid → ProcState) : Option (HookState T) :=
  (oomCheck procAlive dev size s.info).map fun (oom, info) =>
    { s.goto t (if oom ≠ 0 then .idle else .allocating r dev size) with info := info }

/-- A hook up to its driver call or its mutex.  `none` is a division by zero, or a check that waits
for ever. -/
def call (s : HookState T) (t : T) (procAlive : ℕ → Pid → ProcState) :
    HookCall → Option (HookState T)
  | .cuMemAllocV2 dev bytesize => s.firstCheck t .addChunk dev bytesize procAlive
  | .cuMemAllocManaged ctxDevice bytesize =>
    match ctxDevice with
    | .error _ => some s
    | .ok dev => s.firstCheck t .addChunkOnly dev bytesize procAlive
  | .cuMemAllocPitchV2 ctxDevice widthInBytes height elementSizeBytes =>
    if elementSizeBytes = 0 then none
    else
      match ctxDevice with
      | .error _ => some s
      | .ok dev => s.firstCheck t .addChunkOnly dev
          (guessPitchBytes widthInBytes height elementSizeBytes) procAlive
  | .cuMemCreate ctxDevice location size =>
    match location, ctxDevice with
    | some _, .ok dev => s.firstCheck t .addChunkOnly dev size procAlive
    | some id, .error _ => s.firstCheck t .addChunkOnly id size procAlive
    | none, _ => some s
  | .cuMemFreeV2 dptr =>
    if dptr = 0 then some s
    else if s.deviceOverallocated.length = 0 then some s
    else some (s.goto t (.removing dptr))
  | .cuMemRelease handle => some (s.goto t (.releasing handle))

/-- `LIST_REMOVE` of the first entry with the address, and the release. -/
def untrack (s : HookState T) (dptr : UInt64) (e : AllocatedDeviceMemory) : HookState T :=
  { s with
    info := (rmGpuDeviceMemoryUsage cudaToNvmlMap s.info s.info.pid e.dev e.length 2).1
    deviceOverallocated := s.deviceOverallocated.eraseP fun val => val.address = dptr
    held := s.held.eraseP fun val => val.address = dptr }

/-- One step. -/
def step (s : HookState T) : HookLabel T → Option (HookState T)
  | .call t c procAlive =>
    match s.pc t with
    | .idle => s.call t procAlive c
    | _ => none
  | .driverAlloc t result =>
    match s.pc t, result with
    | .allocating r dev size, .ok address => some (s.goto t (.tracking r dev size address))
    | .allocating _ _ _, .error _ => some (s.goto t .idle)
    | _, _ => none
  | .secondCheck t procAlive =>
    match s.pc t, s.mutex with
    | .tracking r dev size address, none =>
      (oomCheck procAlive dev size s.info).map fun (oom, info) =>
        if oom ≠ 0 then
          { s.hookReturn t r ⟨address, size, dev⟩
              (match r with | .addChunk => cudaErrorOutOfMemory | .addChunkOnly => -1) with
            info := info }
        else { s.goto t (.passed r dev size address) with info := info, mutex := some t }
    | _, _ => none
  | .record t entryOk =>
    match s.pc t with
    | .passed r dev size address =>
      if entryOk then
        some { s.hookReturn t r ⟨address, size, dev⟩ 0 with
          info := (addGpuDeviceMemoryUsage cudaToNvmlMap s.info s.info.pid dev size 2).1
          deviceOverallocated := s.deviceOverallocated ++ [⟨address, size, dev⟩]
          mutex := none }
      else some (s.hookReturn t r ⟨address, size, dev⟩ (-1))
    | _ => none
  | .removeChunk t =>
    match s.pc t, s.mutex with
    | .removing dptr, none =>
      match s.deviceOverallocated.find? fun val => val.address = dptr with
      | some e => some ((s.untrack cudaToNvmlMap dptr e).goto t .idle)
      | none => some (s.goto t .idle)
    | _, _ => none
  | .driverRelease t ok =>
    match s.pc t with
    | .releasing handle => some (s.goto t (if ok then .untracking handle else .idle))
    | _ => none
  | .removeChunkOnly t =>
    match s.pc t with
    | .untracking handle =>
      match s.deviceOverallocated.find? fun val => val.address = handle with
      | some e => some ((s.untrack cudaToNvmlMap handle e).goto t .idle)
      | none => some { s.goto t .idle with held := s.held.eraseP fun val => val.address = handle }
    | _ => none
  | .others region => some { s with info := { s.info with sharedRegion := region } }

end HookState

end Machine

/-! ## Assumptions -/

/-- `proc_alive` does not report the caller dead, and other processes leave the caller's slot where
and as it is. -/
def HookLabel.Regular {T : Type*} (s : HookState T) : HookLabel T → Prop
  | .call _ _ procAlive => ∀ n, procAlive n s.info.pid ≠ .nonalive
  | .secondCheck _ procAlive => ∀ n, procAlive n s.info.pid ≠ .nonalive
  | .others region => ∀ i, s.info.mySlot = some i →
      i < region.procNum ∧ region.procs i = s.info.sharedRegion.procs i
  | _ => True

/-- The threads of a process with two. -/
inductive Worker where
  | one
  | two
  deriving DecidableEq

instance : Fintype Worker := ⟨{.one, .two}, fun t => by cases t <;> simp⟩

end HamiCore
