import Mathlib.Data.List.Perm.Subperm
import HamiCore.Allocator.Hooks
import HamiCore.Library.ListAccess
import HamiCore.Library.Threads

/-!
# The synchronous hooks and the links of their list

The threads of a process run the six synchronous hooks (`Hooks`) on `device_overallocated` as it is
in memory.  Every load and every store of `LIST_ADD` and `LIST_REMOVE` is a step, and so are the two
loads of a turn of the search loops, the check under the mutex, the charge and the release; other
processes may change the region at any time.  A check reads one slot after the other; what it finds
in the slots of others while they change, it finds in one step between two such changes.
`remove_chunk` searches and unlinks under `mutex`, `remove_chunk_only` does not, and nothing stops
another thread in the middle of it.  Using a node that has been freed is `corrupted`.

`held` is what callers believe they have: it grows when a hook returns `CUDA_SUCCESS`, and shrinks
when a free finds its node.  `Accounted` says that whoever follows the links from the head meets
everything that is held, and that `data_size` counts it.

Two things may break this, and each has its condition.  `add_chunk_only` may fail its second check,
and its three callers return `CUDA_SUCCESS` all the same (`Records` excludes it).  And
`remove_chunk_only` may unlink a node while another thread is in the list, or be in the list while
another thread appends or unlinks (`Alone` excludes it).
-/

namespace HamiCore

open LinkedList

/-- The two functions that take an allocation out of the list. -/
inductive Remover where
  | removeChunk
  | removeChunkOnly
  deriving DecidableEq

/-- Where a thread is. -/
inductive TrackPc where
  | idle
  /-- The first check has passed; the driver is next. -/
  | allocating (r : Recorder) (dev : Dev) (size : UInt64)
  /-- The driver has allocated; `mutex` is next. -/
  | tracking (r : Recorder) (dev : Dev) (size address : UInt64)
  /-- The second check has passed, under the mutex; `INIT_ALLOCATED_LIST_ENTRY` is next. -/
  | passed (r : Recorder) (dev : Dev) (size address : UInt64)
  /-- Inside `LIST_ADD` of `node`. -/
  | appending (r : Recorder) (node : ℕ) (e : AllocatedDeviceMemory) (pc : AppendPc)
  /-- `add_chunk_only` stores the address last. -/
  | addressing (node : ℕ) (e : AllocatedDeviceMemory)
  | charging (r : Recorder) (e : AllocatedDeviceMemory)
  /-- Charged; the end of the section is next. -/
  | returning (r : Recorder) (e : AllocatedDeviceMemory)
  /-- `remove_chunk`, past the test of the length; `mutex` is next. -/
  | removing (dptr : UInt64)
  /-- `cuMemRelease`, before the driver call. -/
  | releasing (handle : UInt64)
  /-- `cuMemRelease`, before `remove_chunk_only`. -/
  | untracking (handle : UInt64)
  /-- Before the load of the head. -/
  | starting (w : Remover) (dptr : UInt64)
  /-- At the head of the loop, with `val`. -/
  | comparing (w : Remover) (dptr : UInt64) (val : Option ℕ)
  /-- `val` has another address; its link is next. -/
  | following (w : Remover) (dptr : UInt64) (val : ℕ)
  /-- Inside `LIST_REMOVE` of `val`. -/
  | unlinking (w : Remover) (val : ℕ) (e : AllocatedDeviceMemory) (pc : UnlinkPc)
  /-- `LIST_REMOVE` is over; the release of the usage is next. -/
  | uncharging (w : Remover) (e : AllocatedDeviceMemory)
  deriving DecidableEq

namespace TrackPc

/-- The thread has `mutex`. -/
def inSection : TrackPc → Bool
  | .passed _ _ _ _ => true
  | .appending _ _ _ _ => true
  | .addressing _ _ => true
  | .charging _ _ => true
  | .returning _ _ => true
  | .starting w _ => w = .removeChunk
  | .comparing w _ _ => w = .removeChunk
  | .following w _ _ => w = .removeChunk
  | .unlinking w _ _ _ => w = .removeChunk
  | .uncharging w _ => w = .removeChunk
  | _ => false

/-- The thread has begun to change the list: it unlinks a node, or it appends one and its section is
not over. -/
def writing : TrackPc → Bool
  | .appending _ _ _ _ => true
  | .addressing _ _ => true
  | .charging _ _ => true
  | .returning _ _ => true
  | .unlinking _ _ _ _ => true
  | _ => false

/-- The thread is in the list: it searches, or has begun to change it. -/
def usesList : TrackPc → Bool
  | .comparing _ _ _ => true
  | .following _ _ _ => true
  | pc => pc.writing

/-- What a thread has charged and not handed out yet, or taken back and not released yet. -/
def inFlight : TrackPc → List AllocatedDeviceMemory
  | .returning _ e => [e]
  | .unlinking _ _ e _ => [e]
  | .uncharging _ e => [e]
  | _ => []

end TrackPc

/-- The entry as `LIST_ADD` appends it: `add_chunk_only` has not stored the address yet. -/
def Recorder.listed (r : Recorder) (e : AllocatedDeviceMemory) : AllocatedDeviceMemory :=
  match r with
  | .addChunk => e
  | .addChunkOnly => { e with address := 0 }

/-- What follows `LIST_ADD`. -/
def Recorder.added (r : Recorder) (node : ℕ) (e : AllocatedDeviceMemory) : TrackPc :=
  match r with
  | .addChunk => .charging r e
  | .addChunkOnly => .addressing node e

/-- A process and its threads. -/
structure TrackState (T : Type*) where
  info : RegionInfo
  deviceOverallocated : LinkedList AllocatedDeviceMemory
  /-- The thread that has `mutex`. -/
  mutex : Option T
  pc : T → TrackPc
  /-- The allocations a hook has returned `CUDA_SUCCESS` for and no free has taken back. -/
  held : List AllocatedDeviceMemory
  /-- A freed node, or none, has been used as a node. -/
  corrupted : Bool

/-- What can happen next. -/
inductive TrackLabel (T : Type*) where
  /-- Thread `t` calls a hook, which runs up to its driver call or its mutex. -/
  | call (t : T) (c : HookCall) (procAlive : ℕ → Pid → ProcState)
  | driverAlloc (t : T) (result : Except CudaError UInt64)
  /-- Thread `t` takes `mutex` and checks again. -/
  | secondCheck (t : T) (procAlive : ℕ → Pid → ProcState)
  /-- `node` is the memory `INIT_ALLOCATED_LIST_ENTRY` gets, or `none` when it returns. -/
  | record (t : T) (node : Option ℕ)
  | driverRelease (t : T) (ok : Bool)
  /-- The next access of thread `t`. -/
  | access (t : T)
  /-- Other processes. -/
  | others (region : SharedRegion)

section Machine

variable {T : Type*} [DecidableEq T] (cudaToNvmlMap : Dev → Dev)

namespace TrackState

/-- Move thread `t`. -/
def goto (s : TrackState T) (t : T) (pc : TrackPc) : TrackState T :=
  { s with pc := Function.update s.pc t pc }

/-- The hook of thread `t` returns, its recorder with `ret`. -/
def hookReturn (s : TrackState T) (t : T) (r : Recorder) (e : AllocatedDeviceMemory) (ret : ℤ) :
    TrackState T :=
  { s.goto t .idle with held := if r.hookResult ret = 0 then s.held ++ [e] else s.held }

/-- The first check. -/
def firstCheck (s : TrackState T) (t : T) (r : Recorder) (dev : Dev) (size : UInt64)
    (procAlive : ℕ → Pid → ProcState) : Option (TrackState T) :=
  (oomCheck procAlive dev size s.info).map fun (oom, info) =>
    { s.goto t (if oom ≠ 0 then .idle else .allocating r dev size) with info := info }

/-- A hook up to its driver call or its mutex. -/
def call (s : TrackState T) (t : T) (procAlive : ℕ → Pid → ProcState) :
    HookCall → Option (TrackState T)
  | .cuMemAllocV2 dev bytesize => s.firstCheck t .addChunk dev bytesize procAlive
  | .cuMemAllocManaged ctxDevice bytesize =>
    match ctxDevice with
    | .error _ => some s
    | .ok dev => s.firstCheck t .addChunkOnly dev bytesize procAlive
  | .cuMemAllocPitchV2 ctxDevice widthInBytes height elementSizeBytes =>
    if elementSizeBytes = 0 then none
    else
      match ctxDevice with
      | .error _ => some s
      | .ok dev => s.firstCheck t .addChunkOnly dev
          (guessPitchBytes widthInBytes height elementSizeBytes) procAlive
  | .cuMemCreate ctxDevice location size =>
    match location, ctxDevice with
    | some _, .ok dev => s.firstCheck t .addChunkOnly dev size procAlive
    | some id, .error _ => s.firstCheck t .addChunkOnly id size procAlive
    | none, _ => some s
  | .cuMemFreeV2 dptr =>
    if dptr = 0 then some s
    else if s.deviceOverallocated.length = 0 then some s
    else some (s.goto t (.removing dptr))
  | .cuMemRelease handle => some (s.goto t (.releasing handle))

/-- The mutex after a removal: `remove_chunk_only` did not take it. -/
def mutexAfter (s : TrackState T) : Remover → Option T
  | .removeChunk => none
  | .removeChunkOnly => s.mutex

/-- An access of `LIST_ADD`. -/
def append (s : TrackState T) (t : T) (r : Recorder) (node : ℕ) (e : AllocatedDeviceMemory)
    (pc : AppendPc) : TrackState T :=
  match s.deviceOverallocated.appendAccess node pc with
  | none => { s with corrupted := true }
  | some (next, l) =>
    { s.goto t (match next with | none => r.added node e | some pc => .appending r node e pc) with
      deviceOverallocated := l }

/-- An access of `LIST_REMOVE`. -/
def unlink (s : TrackState T) (t : T) (w : Remover) (val : ℕ) (e : AllocatedDeviceMemory)
    (pc : UnlinkPc) : TrackState T :=
  match s.deviceOverallocated.unlinkAccess val pc with
  | none => { s with corrupted := true }
  | some (next, l) =>
    { s.goto t (match next with | none => .uncharging w e | some pc => .unlinking w val e pc) with
      deviceOverallocated := l }

/-- `e->entry->address = address`. -/
def storeAddress (s : TrackState T) (t : T) (node : ℕ) (e : AllocatedDeviceMemory) : TrackState T :=
  match s.deviceOverallocated.cell node with
  | none => { s with corrupted := true }
  | some n =>
    { s.goto t (.charging .addChunkOnly e) with
      deviceOverallocated := { s.deviceOverallocated with
        cell := Function.update s.deviceOverallocated.cell node
          (some { n with entry := { n.entry with address := e.address } }) } }

/-- The head of the loop: the end of the list, or the comparison of the address. -/
def compare (s : TrackState T) (t : T) (w : Remover) (dptr : UInt64) (val : Option ℕ) :
    TrackState T :=
  match val with
  | none =>
    { s.goto t .idle with
      mutex := s.mutexAfter w
      -- the driver has released the handle
      held := match w with
        | .removeChunk => s.held
        | .removeChunkOnly => s.held.eraseP fun e => e.address = dptr }
  | some p =>
    match s.deviceOverallocated.cell p with
    | none => { s with corrupted := true }
    | some n =>
      if n.entry.address = dptr then
        { s.goto t (.unlinking w p n.entry .back) with
          held := s.held.eraseP fun e => e.address = dptr }
      else s.goto t (.following w dptr p)

/-- The next access of thread `t`. -/
def access (s : TrackState T) (t : T) : Option (TrackState T) :=
  match s.pc t with
  | .appending r node e pc => some (s.append t r node e pc)
  | .addressing node e => some (s.storeAddress t node e)
  | .charging r e =>
    some { s.goto t (.returning r e) with
      info := (addGpuDeviceMemoryUsage cudaToNvmlMap s.info s.info.pid e.dev e.length 2).1 }
  | .returning r e => some { s.hookReturn t r e 0 with mutex := none }
  | .removing dptr =>
    match s.mutex with
    | none => some { s.goto t (.starting .removeChunk dptr) with mutex := some t }
    | some _ => none
  | .untracking handle =>
    if s.deviceOverallocated.length = 0 then
      some { s.goto t .idle with held := s.held.eraseP fun e => e.address = handle }
    else some (s.goto t (.starting .removeChunkOnly handle))
  | .starting w dptr => some (s.goto t (.comparing w dptr s.deviceOverallocated.head))
  | .comparing w dptr val => some (s.compare t w dptr val)
  | .following w dptr val =>
    match s.deviceOverallocated.cell val with
    | none => some { s with corrupted := true }
    | some n => some (s.goto t (.comparing w dptr n.next))
  | .unlinking w val e pc => some (s.unlink t w val e pc)
  | .uncharging w e =>
    some { s.goto t .idle with
      info := (rmGpuDeviceMemoryUsage cudaToNvmlMap s.info s.info.pid e.dev e.length 2).1
      mutex := s.mutexAfter w }
  | _ => none

/-- One step. -/
def step (s : TrackState T) : TrackLabel T → Option (TrackState T)
  | .call t c procAlive =>
    match s.pc t with
    | .idle => s.call t procAlive c
    | _ => none
  | .driverAlloc t result =>
    match s.pc t, result with
    | .allocating r dev size, .ok address => some (s.goto t (.tracking r dev size address))
    | .allocating _ _ _, .error _ => some (s.goto t .idle)
    | _, _ => none
  | .secondCheck t procAlive =>
    match s.pc t, s.mutex with
    | .tracking r dev size address, none =>
      (oomCheck procAlive dev size s.info).map fun (oom, info) =>
        if oom ≠ 0 then
          { s.hookReturn t r ⟨address, size, dev⟩
              (match r with | .addChunk => cudaErrorOutOfMemory | .addChunkOnly => -1) with
            info := info }
        else { s.goto t (.passed r dev size address) with info := info, mutex := some t }
    | _, _ => none
  | .record t node =>
    match s.pc t, node with
    | .passed r dev size address, some p =>
      if (s.deviceOverallocated.cell p).isNone then
        some { s.goto t (.appending r p ⟨address, size, dev⟩ .test) with
          deviceOverallocated := { s.deviceOverallocated with
            cell := Function.update s.deviceOverallocated.cell p
              (some ⟨r.listed ⟨address, size, dev⟩, none, none⟩) } }
      else none
    | .passed r dev size address, none => some (s.hookReturn t r ⟨address, size, dev⟩ (-1))
    | _, _ => none
  | .driverRelease t ok =>
    match s.pc t with
    | .releasing handle => some (s.goto t (if ok then .untracking handle else .idle))
    | _ => none
  | .access t => s.access cudaToNvmlMap t
  | .others region => some { s with info := { s.info with sharedRegion := region } }

end TrackState

end Machine

/-! ## Assumptions and the condition -/

section Condition

variable {T : Type*}

/-- `proc_alive` does not report the caller dead, and other processes leave the caller's slot where
and as it is. -/
def TrackLabel.Regular (s : TrackState T) : TrackLabel T → Prop
  | .call _ _ procAlive => ∀ n, procAlive n s.info.pid ≠ .nonalive
  | .secondCheck _ procAlive => ∀ n, procAlive n s.info.pid ≠ .nonalive
  | .others region => ∀ i, s.info.mySlot = some i →
      i < region.procNum ∧ region.procs i = s.info.sharedRegion.procs i
  | _ => True

/-- No other thread is `busy`, except that `mutex` is left to do its work between two threads that
both use it. -/
def TrackState.Undisturbed (s : TrackState T) (t : T) (busy : TrackPc → Bool) : Prop :=
  ∀ u, u ≠ t → busy (s.pc u) = true → (s.pc t).inSection = true ∧ (s.pc u).inSection = true

/-- The first condition: a search begins while no other thread changes the list, and a change begins
while no other thread is in the list. -/
def TrackLabel.Alone (s : TrackState T) : TrackLabel T → Prop
  | .record t (some _) => s.Undisturbed t TrackPc.usesList
  | .access t =>
    match s.pc t with
    | .starting _ _ => s.Undisturbed t TrackPc.writing
    | .comparing _ dptr (some p) => ∀ n, s.deviceOverallocated.cell p = some n →
        n.entry.address = dptr → s.Undisturbed t TrackPc.usesList
    | _ => True
  | _ => True

/-- The second condition: the second check of `add_chunk_only` passes, and the entry can be made. -/
def TrackLabel.Records (s : TrackState T) : TrackLabel T → Prop
  | .secondCheck t procAlive =>
    ∀ dev size address, s.pc t = .tracking .addChunkOnly dev size address →
      ∀ out, oomCheck procAlive dev size s.info = some out → out.1 = 0
  | .record t node => ∀ dev size address, s.pc t = .passed .addChunkOnly dev size address →
      node ≠ none
  | _ => True

variable [Fintype T]

/-- Following the links from the head, everything held is met, with the size that was checked; and
`data_size` of the caller's slot is that of `base` and the bytes of what is held and of what threads
have under way.  No freed node has been used. -/
def TrackState.Accounted (cudaToNvmlMap : Dev → Dev) (base : Dev → DeviceMemory)
    (s : TrackState T) : Prop :=
  (∃ l, Reads ListNode.next s.deviceOverallocated.cell s.deviceOverallocated.head l ∧
    s.held.Subperm (l.map Prod.snd)) ∧
  (∃ slot, s.info.PointsAt slot ∧ slot.pid = s.info.pid ∧ ∀ k, (slot.used k).dataSize =
    (base k).dataSize + (trackedLength cudaToNvmlMap s.held k +
      ∑ t, trackedLength cudaToNvmlMap (s.pc t).inFlight k)) ∧
  s.corrupted = false

end Condition

end HamiCore
