import Mathlib.Data.Multiset.AddSub
import HamiCore.Library.LinkedList
import HamiCore.Allocator.Async
import HamiCore.Allocator.Hooks

/-!
# The two lists and the allocator mutex

`device_overallocated` and `device_allocasync` are linked lists that all threads of a process share,
and `mutex` is there to protect them.  Six hooks reach them: `cuMemAlloc_v2`, `cuMemFree_v2`,
`cuMemCreate`, `cuMemRelease`, `cuMemAllocAsync` and `cuMemFreeAsync`.  Here the lists are what they
are in memory, nodes with pointers, and a thread takes one step to look at one node: it loads the
head, compares an address and follows a link, unlinks a node, or appends one.  Using a node that has
been freed is `corrupted`.

Five of the hooks do all of this under the mutex.  `cuMemRelease` calls `remove_chunk_only`, which
does not take it, so that a walk through `device_overallocated` may meet nodes another thread has
freed.  `list_steps_under_mutex`: as long as `remove_chunk_only` finds the list empty, every step
that touches a list is made by the thread that holds the mutex, nothing is corrupted, and after
everything has been released both lists and the counters are what they were --- given that the
stream-ordered calls keep their books (`Async`).  The first `remove_chunk_only` that finds a list to
walk is a walk without the mutex.
-/

namespace HamiCore

/-- The three walks that look for an address. -/
inductive Walk where
  | removeChunk
  | removeChunkOnly
  | removeChunkAsync
  deriving DecidableEq

/-- Where a thread is. -/
inductive ListPc where
  | idle
  /-- The first check has passed; the driver is next. -/
  | allocating (r : Recorder) (dev : Dev) (size : UInt64)
  /-- The driver has allocated; `mutex` is next. -/
  | tracking (r : Recorder) (dev : Dev) (size address : UInt64)
  /-- Under the mutex, past the second check: `LIST_ADD` is next. -/
  | passed (r : Recorder) (dev : Dev) (size address : UInt64)
  /-- `remove_chunk`, past the test of the length; `mutex` is next. -/
  | removing (dptr : UInt64)
  /-- `cuMemRelease`, before the driver call. -/
  | releasing (handle : UInt64)
  /-- `remove_chunk_only`, before the test of the length. -/
  | untracking (handle : UInt64)
  /-- `allocate_async_raw`; `mutex` is next. -/
  | allocatingAsync (env : AllocAsyncEnv) (size : UInt64)
  /-- Under the mutex, with the watermark: the charge and `LIST_ADD` are next. -/
  | passedAsync (dev : Dev) (address size poollimit : UInt64)
  /-- `free_raw_async`; `mutex` is next. -/
  | removingAsync (dptr : UInt64)
  /-- `for (val = a_list->head; ...`. -/
  | starting (w : Walk) (dptr : UInt64)
  /-- In the loop, with the cursor. -/
  | walking (w : Walk) (dptr : UInt64) (val : Option ℕ)

/-- The threads of a process and the lists they share. -/
structure ListState (T : Type*) where
  info : RegionInfo
  deviceOverallocated : LinkedList AllocatedDeviceMemory
  deviceAllocasync : LinkedList AllocatedDeviceMemory
  /-- `device_allocasync->limit`. -/
  limit : UInt64
  mutex : Option T
  pc : T → ListPc
  /-- The addresses and handles a synchronous hook has returned and nobody has released. -/
  created : Multiset UInt64
  /-- The addresses `cuMemAllocAsync` has returned and nobody has released. -/
  createdAsync : Multiset UInt64
  /-- A freed node, or none, has been used as a node. -/
  corrupted : Bool

/-- The hooks. -/
inductive ListCall where
  | cuMemAllocV2 (dev : Dev) (bytesize : UInt64)
  | cuMemFreeV2 (dptr : UInt64)
  | cuMemCreate (ctxDevice : Except CudaError Dev) (location : Option Dev) (size : UInt64)
  | cuMemRelease (handle : UInt64)
  | cuMemAllocAsync (env : AllocAsyncEnv) (bytesize : UInt64)
  | cuMemFreeAsync (dptr : UInt64)

/-- What can happen next. -/
inductive ListLabel (T : Type*) where
  | call (t : T) (c : ListCall) (procAlive : ℕ → Pid → ProcState)
  | driverAlloc (t : T) (result : Except CudaError UInt64)
  | secondCheck (t : T) (procAlive : ℕ → Pid → ProcState)
  /-- `node` is the memory `INIT_ALLOCATED_LIST_ENTRY` gets, or `none` when it returns. -/
  | record (t : T) (node : Option ℕ)
  /-- `allocate_async_raw` locks and runs up to the watermark. -/
  | checkAsync (t : T)
  | recordAsync (t : T) (node : ℕ)
  | driverRelease (t : T) (ok : Bool)
  /-- `remove_chunk_only` tests the length. -/
  | removeChunkOnly (t : T)
  /-- `remove_chunk` or `free_raw_async` locks. -/
  | lock (t : T)
  /-- A walk loads the head; `remove_chunk_async` tests the length first. -/
  | start (t : T)
  /-- One turn of a walk; `dev` is the current device. -/
  | walk (t : T) (dev : Dev)

/-- `add_chunk_async` once the watermark is known: the region and `limit` after the charge, and the
length the entry gets. -/
def chargeAsync (cudaToNvmlMap : Dev → Dev) (info : RegionInfo) (limit : UInt64) (dev : Dev)
    (size poollimit : UInt64) : RegionInfo × UInt64 × UInt64 :=
  if poollimit ≠ 0 then
    if limit < poollimit then
      let allocsize := if poollimit - limit < size then poollimit - limit else size
      ((addGpuDeviceMemoryUsage cudaToNvmlMap info info.pid dev allocsize 2).1, limit + allocsize,
        allocsize)
    else (info, limit, 0)
  else (info, limit, size)

section Machine

variable {T : Type*} [DecidableEq T] (cudaToNvmlMap : Dev → Dev)

namespace ListState

/-- Move thread `t`. -/
def goto (s : ListState T) (t : T) (pc : ListPc) : ListState T :=
  { s with pc := Function.update s.pc t pc }

/-- The list a walk goes through. -/
def listOf (s : ListState T) : Walk → LinkedList AllocatedDeviceMemory
  | .removeChunkAsync => s.deviceAllocasync
  | _ => s.deviceOverallocated

/-- The mutex after a walk has ended: `remove_chunk_only` did not take it. -/
def mutexAfter (s : ListState T) : Walk → Option T
  | .removeChunkOnly => s.mutex
  | _ => none

/-- The first check. -/
def firstCheck (s : ListState T) (t : T) (r : Recorder) (dev : Dev) (size : UInt64)
    (procAlive : ℕ → Pid → ProcState) : Option (ListState T) :=
  (oomCheck procAlive dev size s.info).map fun (oom, info) =>
    { s.goto t (if oom ≠ 0 then .idle else .allocating r dev size) with info := info }

/-- A hook up to its driver call or its mutex. -/
def call (s : ListState T) (t : T) (procAlive : ℕ → Pid → ProcState) :
    ListCall → Option (ListState T)
  | .cuMemAllocV2 dev bytesize => s.firstCheck t .addChunk dev bytesize procAlive
  | .cuMemFreeV2 dptr =>
    if dptr = 0 then some s
    else if s.deviceOverallocated.length = 0 then some s
    else some (s.goto t (.removing dptr))
  | .cuMemCreate ctxDevice location size =>
    match location, ctxDevice with
    | some _, .ok dev => s.firstCheck t .addChunkOnly dev size procAlive
    | some id, .error _ => s.firstCheck t .addChunkOnly id size procAlive
    | none, _ => some s
  | .cuMemRelease handle => some (s.goto t (.releasing handle))
  | .cuMemAllocAsync env bytesize => some (s.goto t (.allocatingAsync env bytesize))
  | .cuMemFreeAsync dptr => if dptr = 0 then some s else some (s.goto t (.removingAsync dptr))

/-- `allocate_async_raw` under the mutex, up to the watermark. -/
def checkAsync (s : ListState T) (t : T) (env : AllocAsyncEnv) (size : UInt64) :
    Option (ListState T) :=
  (oomCheck env.procAlive env.dev size s.info).map fun (oom, info) =>
    if oom ≠ 0 ∨ env.entryOk = false then { s.goto t .idle with info := info }
    else
      match env.memAllocAsync, env.deviceGetMemPool, env.memPoolGetAttribute with
      | .ok address, .ok _, .ok poollimit =>
        { s.goto t (.passedAsync env.dev address size poollimit) with
          info := info
          mutex := some t }
      | _, _, _ => { s.goto t .idle with info := info }

/-- `LIST_REMOVE` of the node `p` with the entry `e`, and the release. -/
def unlink (s : ListState T) (w : Walk) (dev : Dev) (p : ℕ) (e : AllocatedDeviceMemory) :
    Option (ListState T) :=
  match w with
  | .removeChunkAsync =>
    (s.deviceAllocasync.remove p).map fun l =>
      { s with
        deviceAllocasync := l
        limit := s.limit - e.length
        info := (rmGpuDeviceMemoryUsage cudaToNvmlMap s.info s.info.pid dev e.length 2).1
        createdAsync := s.createdAsync.erase e.address }
  | _ =>
    (s.deviceOverallocated.remove p).map fun l =>
      { s with
        deviceOverallocated := l
        info := (rmGpuDeviceMemoryUsage cudaToNvmlMap s.info s.info.pid e.dev e.length 2).1
        created := s.created.erase e.address }

/-- One turn of a walk. -/
def walkTurn (s : ListState T) (t : T) (dev : Dev) (w : Walk) (dptr : UInt64) (val : Option ℕ) :
    ListState T :=
  match val with
  | none =>
    { s.goto t .idle with
      mutex := s.mutexAfter w
      created := if w = .removeChunkOnly then s.created.erase dptr else s.created }
  | some p =>
    match (s.listOf w).cell p with
    | none => { s with corrupted := true }
    | some n =>
      if n.entry.address = dptr then
        match s.unlink cudaToNvmlMap w dev p n.entry with
        | none => { s with corrupted := true }
        | some s' => { s'.goto t .idle with mutex := s.mutexAfter w }
      else s.goto t (.walking w dptr n.next)

/-- One step. -/
def step (s : ListState T) : ListLabel T → Option (ListState T)
  | .call t c procAlive =>
    match s.pc t with
    | .idle => s.call t procAlive c
    | _ => none
  | .driverAlloc t result =>
    match s.pc t, result with
    | .allocating r dev size, .ok address => some (s.goto t (.tracking r dev size address))
    | .allocating _ _ _, .error _ => some (s.goto t .idle)
    | _, _ => none
  | .secondCheck t procAlive =>
    match s.pc t, s.mutex with
    | .tracking r dev size address, none =>
      (oomCheck procAlive dev size s.info).map fun (oom, info) =>
        if oom ≠ 0 then
          -- `cuMemCreate` has told its caller that the memory is there
          { s.goto t .idle with
            info := info
            created := if r = .addChunkOnly then address ::ₘ s.created else s.created }
        else { s.goto t (.passed r dev size address) with info := info, mutex := some t }
    | _, _ => none
  | .record t node =>
    match s.pc t, node with
    | .passed _ dev size address, some p =>
      if (s.deviceOverallocated.cell p).isNone then
        match s.deviceOverallocated.add p ⟨address, size, dev⟩ with
        | none => some { s with corrupted := true }
        | some l =>
          some { s.goto t .idle with
            deviceOverallocated := l
            info := (addGpuDeviceMemoryUsage cudaToNvmlMap s.info s.info.pid dev size 2).1
            created := address ::ₘ s.created
            mutex := none }
      else none
    | .passed r _ _ address, none =>
      some { s.goto t .idle with
        created := if r = .addChunkOnly then address ::ₘ s.created else s.created }
    | _, _ => none
  | .checkAsync t =>
    match s.pc t, s.mutex with
    | .allocatingAsync env size, none => s.checkAsync t env size
    | _, _ => none
  | .recordAsync t p =>
    match s.pc t with
    | .passedAsync dev address size poollimit =>
      if (s.deviceAllocasync.cell p).isNone then
        let (info, limit, length) := chargeAsync cudaToNvmlMap s.info s.limit dev size poollimit
        match s.deviceAllocasync.add p ⟨address, length, dev⟩ with
        | none => some { s with corrupted := true }
        | some l =>
          some { s.goto t .idle with
            deviceAllocasync := l
            info := info
            limit := limit
            createdAsync := address ::ₘ s.createdAsync
            mutex := none }
      else none
    | _ => none
  | .driverRelease t ok =>
    match s.pc t with
    | .releasing handle => some (s.goto t (if ok then .untracking handle else .idle))
    | _ => none
  | .removeChunkOnly t =>
    match s.pc t with
    | .untracking handle =>
      if s.deviceOverallocated.length = 0 then
        some { s.goto t .idle with created := s.created.erase handle }
      else some (s.goto t (.starting .removeChunkOnly handle))
    | _ => none
  | .lock t =>
    match s.pc t, s.mutex with
    | .removing dptr, none =>
      some { s.goto t (.starting .removeChunk dptr) with mutex := some t }
    | .removingAsync dptr, none =>
      some { s.goto t (.starting .removeChunkAsync dptr) with mutex := some t }
    | _, _ => none
  | .start t =>
    match s.pc t with
    | .starting w dptr =>
      if w = .removeChunkAsync ∧ s.deviceAllocasync.length = 0 then
        some { s.goto t .idle with mutex := none }
      else some (s.goto t (.walking w dptr (s.listOf w).head))
    | _ => none
  | .walk t dev =>
    match s.pc t with
    | .walking w dptr val => some (s.walkTurn cudaToNvmlMap t dev w dptr val)
    | _ => none

end ListState

end Machine

/-- The thread that uses a list in a step: it loads a head, looks at a node or follows its link,
unlinks a node, or appends one. -/
def ListLabel.usesList {T : Type*} (s : ListState T) : ListLabel T → Option T
  | .record t (some _) => some t
  | .recordAsync t _ => some t
  | .start t => some t
  | .walk t _ =>
    match s.pc t with
    | .walking _ _ (some _) => some t
    | _ => none
  | _ => none

/-- `proc_alive` does not report the caller dead, and `INIT_ALLOCATED_LIST_ENTRY` gets its
memory. -/
def ListLabel.Regular {T : Type*} (s : ListState T) : ListLabel T → Prop
  | .call _ _ procAlive => ∀ n, procAlive n s.info.pid ≠ .nonalive
  | .secondCheck _ procAlive => ∀ n, procAlive n s.info.pid ≠ .nonalive
  | .checkAsync t => ∀ env size, s.pc t = .allocatingAsync env size →
      ∀ n, env.procAlive n s.info.pid ≠ .nonalive
  | .record _ node => node ≠ none
  | _ => True

/-- The condition: `remove_chunk_only` finds `device_overallocated` empty, no stream-ordered request
of bytes meets a watermark of `0`, and a stream-ordered free is made on a device that maps where the
entry's device does, unless nothing was charged for the entry. -/
def ListLabel.Guarded {T : Type*} (cudaToNvmlMap : Dev → Dev) (s : ListState T) : ListLabel T → Prop
  | .removeChunkOnly _ => s.deviceOverallocated.length = 0
  | .recordAsync t _ => ∀ dev address size, s.pc t = .passedAsync dev address size 0 → size = 0
  | .walk t dev => ∀ dptr p n, s.pc t = .walking .removeChunkAsync dptr (some p) →
      s.deviceAllocasync.cell p = some n → n.entry.address = dptr →
      cudaToNvmlMap dev = cudaToNvmlMap n.entry.dev ∨ n.entry.length = 0
  | _ => True

/-! ## The invariant -/

/-- Nodes with their entries, in order. -/
abbrev Nodes := List (ℕ × AllocatedDeviceMemory)

/-- The entries of a list of nodes. -/
def entries (l : Nodes) : List AllocatedDeviceMemory := l.map Prod.snd

/-- The thread is inside a section of the mutex. -/
def ListPc.InSection : ListPc → Prop
  | .passed _ _ _ _ => True
  | .passedAsync _ _ _ _ => True
  | .starting w _ => w ≠ .removeChunkOnly
  | .walking w _ _ => w ≠ .removeChunkOnly
  | _ => False

/-- The cursor of a walk is in the list, and nothing before it has the address looked for; nobody
walks without the mutex. -/
def ListPc.CursorOk (nodes nodesAsync : Nodes) : ListPc → Prop
  | .starting .removeChunkOnly _ => False
  | .walking .removeChunkOnly _ _ => False
  | .walking .removeChunk dptr val => ∃ l₁ l₂, nodes = l₁ ++ l₂ ∧ val = LinkedList.first l₂ none ∧
      ∀ n ∈ l₁, n.2.address ≠ dptr
  | .walking .removeChunkAsync dptr val => ∃ l₁ l₂, nodesAsync = l₁ ++ l₂ ∧
      val = LinkedList.first l₂ none ∧ ∀ n ∈ l₁, n.2.address ≠ dptr
  | _ => True

/-- The lists, the counters and what has been handed out. -/
structure ListState.Data {T : Type*} (cudaToNvmlMap : Dev → Dev) (base : Dev → DeviceMemory)
    (s : ListState T) (nodes nodesAsync : Nodes) : Prop where
  overallocated : s.deviceOverallocated.Represents nodes
  allocasync : s.deviceAllocasync.Represents nodesAsync
  ledger : Ledger cudaToNvmlMap base (s.info, entries nodes ++ entries nodesAsync)
  limit_eq : s.limit.toNat = trackedBytes (entries nodesAsync)
  created : ((entries nodes).map AllocatedDeviceMemory.address : Multiset UInt64) ≤ s.created
  createdAsync :
    ((entries nodesAsync).map AllocatedDeviceMemory.address : Multiset UInt64) ≤ s.createdAsync
  intact : s.corrupted = false

/-- The threads and the mutex. -/
structure ListState.Threads {T : Type*} (s : ListState T) (nodes nodesAsync : Nodes) : Prop where
  mutex_iff : ∀ t, s.mutex = some t ↔ (s.pc t).InSection
  cursor : ∀ t, (s.pc t).CursorOk nodes nodesAsync

section Inv

variable {T : Type*} [DecidableEq T] {cudaToNvmlMap : Dev → Dev} {base : Dev → DeviceMemory}
  {s s' : ListState T} {nodes nodesAsync nodes' nodesAsync' : Nodes} {t : T} {pc : ListPc}

/-- What a thread's move does to the mutex. -/
inductive MutexMove (s s' : ListState T) (t : T) (pc : ListPc) : Prop where
  | keep (hmutex : s'.mutex = s.mutex) (hsection : pc.InSection ↔ (s.pc t).InSection)
  | take (hfree : s.mutex = none) (hmutex : s'.mutex = some t) (hsection : pc.InSection)
  | give (hmine : s.mutex = some t) (hmutex : s'.mutex = none) (hsection : ¬ pc.InSection)

/-- **The mutex.**  Thread `t` moves; the lists change only when it has the mutex, and then nobody
else has a cursor in them. -/
theorem ListState.Threads.move (h : s.Threads nodes nodesAsync) (pc : ListPc)
    (hpc : s'.pc = Function.update s.pc t pc) (hm : MutexMove s s' t pc)
    (hnodes : (nodes' = nodes ∧ nodesAsync' = nodesAsync) ∨ s.mutex = some t)
    (hcursor : pc.CursorOk nodes' nodesAsync') : s'.Threads nodes' nodesAsync' := by
  refine ⟨fun u => ?_, fun u => ?_⟩
  · rw [hpc]
    by_cases hu : u = t
    · rw [hu, Function.update_self]
      cases hm with
      | keep hmutex hsection => rw [hmutex, hsection, h.mutex_iff t]
      | take hfree hmutex hsection => exact iff_of_true hmutex hsection
      | give hmine hmutex hsection =>
        refine iff_of_false (fun hsome => ?_) hsection
        rw [hmutex] at hsome
        exact absurd hsome (by simp)
    · rw [Function.update_of_ne hu, ← h.mutex_iff u]
      cases hm with
      | keep hmutex hsection => rw [hmutex]
      | take hfree hmutex hsection =>
        rw [hmutex, hfree]
        simp [Ne.symm hu]
      | give hmine hmutex hsection =>
        rw [hmutex, hmine]
        simp [Ne.symm hu]
  · rw [hpc]
    by_cases hu : u = t
    · rw [hu, Function.update_self]
      exact hcursor
    · rw [Function.update_of_ne hu]
      rcases hnodes with ⟨rfl, rfl⟩ | hmine
      · exact h.cursor u
      · -- everybody else is outside, where there are no cursors
        have hout : ¬ (s.pc u).InSection := by
          rw [← h.mutex_iff u, hmine]
          simp [Ne.symm hu]
        have hold := h.cursor u
        generalize s.pc u = q at hout hold
        cases q with
        | starting w dptr =>
          cases w with
          | removeChunkOnly => exact hold.elim
          | removeChunk => trivial
          | removeChunkAsync => trivial
        | walking w dptr val =>
          cases w with
          | removeChunkOnly => exact hold.elim
          | removeChunk => exact absurd (by simp [ListPc.InSection]) hout
          | removeChunkAsync => exact absurd (by simp [ListPc.InSection]) hout
        | _ => trivial

/-! ## The lists and the counters -/

/-- The books may list the entries in any order. -/
theorem Ledger.of_tracked {info : RegionInfo} {l l' : List AllocatedDeviceMemory}
    (h : Ledger cudaToNvmlMap base (info, l))
    (heq : ∀ k, trackedLength cudaToNvmlMap l' k = trackedLength cudaToNvmlMap l k) :
    Ledger cudaToNvmlMap base (info, l') := by
  obtain ⟨slot, hslot, hpid, hused⟩ := h.slot
  refine ⟨h.pid_ne_zero, slot, hslot, hpid, fun k => ?_⟩
  rw [hused k, heq k]

/-- The entries of the first list may be counted among what was there before. -/
theorem ledger_append_iff {info : RegionInfo} {l l' : List AllocatedDeviceMemory} :
    Ledger cudaToNvmlMap base (info, l ++ l') ↔
      Ledger cudaToNvmlMap (fun k => (base k).grown (trackedLength cudaToNvmlMap l k))
        (info, l') := by
  have hgrown : ∀ k, (base k).grown (trackedLength cudaToNvmlMap (l ++ l') k) =
      ((base k).grown (trackedLength cudaToNvmlMap l k)).grown
        (trackedLength cudaToNvmlMap l' k) := by
    intro k
    rw [trackedLength_append]
    simp [DeviceMemory.grown, add_assoc]
  refine ⟨fun h => ⟨h.pid_ne_zero, ?_⟩, fun h => ⟨h.pid_ne_zero, ?_⟩⟩
  · obtain ⟨slot, hslot, hpid, hused⟩ := h.slot
    exact ⟨slot, hslot, hpid, fun k => (hused k).trans (hgrown k)⟩
  · obtain ⟨slot, hslot, hpid, hused⟩ := h.slot
    exact ⟨slot, hslot, hpid, fun k => (hused k).trans (hgrown k).symm⟩

/-- `chargeAsync` is the charge of `AsyncAllocator.record`. -/
theorem AsyncAllocator.record_eq (a : AsyncAllocator) (dev : Dev)
    (address size poollimit : UInt64) :
    a.record cudaToNvmlMap dev address size poollimit =
      { info := (chargeAsync cudaToNvmlMap a.info a.limit dev size poollimit).1
        limit := (chargeAsync cudaToNvmlMap a.info a.limit dev size poollimit).2.1
        deviceAllocasync := a.deviceAllocasync ++
          [⟨address, (chargeAsync cudaToNvmlMap a.info a.limit dev size poollimit).2.2,
            dev⟩] } := by
  unfold AsyncAllocator.record chargeAsync
  split_ifs <;> rfl

theorem entries_append (l l' : Nodes) : entries (l ++ l') = entries l ++ entries l' :=
  List.map_append

/-- The node a walk stops at has the first entry with its address. -/
theorem find_entries {l₁ : Nodes} {e : AllocatedDeviceMemory} (p : ℕ) (l₂ : Nodes)
    (hl₁ : ∀ n ∈ l₁, n.2.address ≠ e.address) :
    ((entries (l₁ ++ (p, e) :: l₂)).find? fun val => val.address = e.address) = some e ∧
      ((entries (l₁ ++ (p, e) :: l₂)).eraseP fun val => val.address = e.address) =
        entries (l₁ ++ l₂) := by
  have hno : ∀ b ∈ entries l₁, ¬ decide (b.address = e.address) = true := by
    intro b hb
    obtain ⟨n, hn, rfl⟩ := List.mem_map.mp hb
    simpa using hl₁ n hn
  have hsplit : entries (l₁ ++ (p, e) :: l₂) = entries l₁ ++ e :: entries l₂ := entries_append _ _
  constructor
  · rw [hsplit, List.find?_append, List.find?_eq_none.mpr hno, Option.none_or,
      List.find?_cons_of_pos (by simp)]
  · rw [hsplit, List.eraseP_append_right _ hno, List.eraseP_cons_of_pos (by simp), entries_append]

/-- Taking a node out takes its address out of what has been handed out. -/
theorem addresses_erase {l₁ l₂ : Nodes} {p : ℕ} {e : AllocatedDeviceMemory} {m : Multiset UInt64}
    (h : ((entries (l₁ ++ (p, e) :: l₂)).map AllocatedDeviceMemory.address : Multiset UInt64) ≤ m) :
    ((entries (l₁ ++ l₂)).map AllocatedDeviceMemory.address : Multiset UInt64) ≤
      m.erase e.address := by
  have hcons :
      ((entries (l₁ ++ (p, e) :: l₂)).map AllocatedDeviceMemory.address : Multiset UInt64) =
      e.address ::ₘ ((entries (l₁ ++ l₂)).map AllocatedDeviceMemory.address : Multiset UInt64) := by
    rw [Multiset.cons_coe, Multiset.coe_eq_coe, entries_append, entries_append, List.map_append,
      List.map_append]
    exact List.perm_middle
  rw [hcons] at h
  have herase := Multiset.erase_le_erase e.address h
  rwa [Multiset.erase_cons_head] at herase

/-- A new node adds its address. -/
theorem addresses_append {l : Nodes} {p : ℕ} {e : AllocatedDeviceMemory} {m : Multiset UInt64}
    (h : ((entries l).map AllocatedDeviceMemory.address : Multiset UInt64) ≤ m) :
    ((entries (l ++ [(p, e)])).map AllocatedDeviceMemory.address : Multiset UInt64) ≤
      e.address ::ₘ m := by
  rw [entries_append, List.map_append, ← Multiset.coe_add, add_comm]
  exact Multiset.cons_le_cons e.address h

/-- What a step keeps when it leaves the lists alone. -/
structure ListState.Leaves (s s' : ListState T) : Prop where
  info : SelfCompacts s.info s'.info
  overallocated : s'.deviceOverallocated = s.deviceOverallocated
  allocasync : s'.deviceAllocasync = s.deviceAllocasync
  limit : s'.limit = s.limit
  created : s.created ≤ s'.created
  createdAsync : s'.createdAsync = s.createdAsync
  corrupted : s'.corrupted = s.corrupted

omit [DecidableEq T] in
theorem ListState.Data.leave (h : s.Data cudaToNvmlMap base nodes nodesAsync) (hl : s.Leaves s') :
    s'.Data cudaToNvmlMap base nodes nodesAsync where
  overallocated := by rw [hl.overallocated]; exact h.overallocated
  allocasync := by rw [hl.allocasync]; exact h.allocasync
  ledger := h.ledger.keep hl.info
  limit_eq := by rw [hl.limit]; exact h.limit_eq
  created := h.created.trans hl.created
  createdAsync := by rw [hl.createdAsync]; exact h.createdAsync
  intact := by rw [hl.corrupted]; exact h.intact

omit [DecidableEq T] in
theorem ListState.Data.setThreads (h : s.Data cudaToNvmlMap base nodes nodesAsync) (pc : T → ListPc)
    (mutex : Option T) :
    ListState.Data cudaToNvmlMap base { s with pc := pc, mutex := mutex } nodes nodesAsync :=
  h.leave ⟨Relation.ReflTransGen.refl, rfl, rfl, rfl, le_rfl, rfl, rfl⟩

omit [DecidableEq T] in
/-- `LIST_ADD` on `device_overallocated`, and the charge. -/
theorem ListState.Data.record (h : s.Data cudaToNvmlMap base nodes nodesAsync) {p : ℕ}
    (hp : (s.deviceOverallocated.cell p).isNone = true) (e : AllocatedDeviceMemory) :
    ∃ l, s.deviceOverallocated.add p e = some l ∧ ∀ (pc : T → ListPc) (mutex : Option T),
      ListState.Data cudaToNvmlMap base
        { s with
          pc := pc
          mutex := mutex
          deviceOverallocated := l
          info := (addGpuDeviceMemoryUsage cudaToNvmlMap s.info s.info.pid e.dev e.length 2).1
          created := e.address ::ₘ s.created } (nodes ++ [(p, e)]) nodesAsync := by
  obtain ⟨l, hadd, hrep⟩ := h.overallocated.add (h.overallocated.fresh hp) e
  refine ⟨l, hadd, fun pc mutex => ⟨hrep, h.allocasync, ?_, h.limit_eq, addresses_append h.created,
    h.createdAsync, h.intact⟩⟩
  refine (h.ledger.add e).of_tracked fun k => ?_
  have hsplit : entries (nodes ++ [(p, e)]) = entries nodes ++ [e] := entries_append _ _
  rw [hsplit, trackedLength_append, trackedLength_append, trackedLength_append,
    trackedLength_append]
  exact add_right_comm _ _ _

omit [DecidableEq T] in
/-- `LIST_ADD` on `device_allocasync`, and the charge the watermark asks for. -/
theorem ListState.Data.recordAsync (h : s.Data cudaToNvmlMap base nodes nodesAsync) {p : ℕ}
    (hp : (s.deviceAllocasync.cell p).isNone = true) (dev : Dev) (address : UInt64)
    {size poollimit : UInt64} (hzero : poollimit = 0 → size = 0) :
    ∃ l, s.deviceAllocasync.add p
        ⟨address, (chargeAsync cudaToNvmlMap s.info s.limit dev size poollimit).2.2, dev⟩ = some l ∧
      ∀ (pc : T → ListPc) (mutex : Option T), ListState.Data cudaToNvmlMap base
        { s with
          pc := pc
          mutex := mutex
          deviceAllocasync := l
          info := (chargeAsync cudaToNvmlMap s.info s.limit dev size poollimit).1
          limit := (chargeAsync cudaToNvmlMap s.info s.limit dev size poollimit).2.1
          createdAsync := address ::ₘ s.createdAsync } nodes
        (nodesAsync ++
          [(p, ⟨address, (chargeAsync cudaToNvmlMap s.info s.limit dev size poollimit).2.2,
            dev⟩)]) := by
  obtain ⟨l, hadd, hrep⟩ := h.allocasync.add (h.allocasync.fresh hp)
    ⟨address, (chargeAsync cudaToNvmlMap s.info s.limit dev size poollimit).2.2, dev⟩
  have hinv : AsyncAllocator.Inv cudaToNvmlMap _ ⟨s.info, entries nodesAsync, s.limit⟩ :=
    ⟨ledger_append_iff.mp h.ledger, h.limit_eq⟩
  have hrec : (AsyncAllocator.record cudaToNvmlMap ⟨s.info, entries nodesAsync, s.limit⟩ dev address
      size poollimit).Inv cudaToNvmlMap _ := hinv.record hzero
  rw [AsyncAllocator.record_eq] at hrec
  refine ⟨l, hadd, fun pc mutex => ⟨h.overallocated, hrep, ?_, ?_, h.created,
    addresses_append h.createdAsync, h.intact⟩⟩
  · rw [entries_append]
    exact ledger_append_iff.mpr hrec.ledger
  · rw [entries_append]
    exact hrec.limit_eq

omit [DecidableEq T] in
/-- `LIST_REMOVE` on `device_overallocated`, and the release. -/
theorem ListState.Data.unlink {l₁ l₂ : Nodes} {p : ℕ} {e : AllocatedDeviceMemory}
    (h : s.Data cudaToNvmlMap base (l₁ ++ (p, e) :: l₂) nodesAsync)
    (hl₁ : ∀ n ∈ l₁, n.2.address ≠ e.address) (dev : Dev) :
    ∃ s', s.unlink cudaToNvmlMap .removeChunk dev p e = some s' ∧ s'.pc = s.pc ∧
      s'.Data cudaToNvmlMap base (l₁ ++ l₂) nodesAsync := by
  obtain ⟨l, hremove, hrep⟩ := h.overallocated.remove
  obtain ⟨hfind, herase⟩ := find_entries p l₂ hl₁
  have hfind' : ((entries (l₁ ++ (p, e) :: l₂) ++ entries nodesAsync).find?
      fun val => val.address = e.address) = some e := by
    rw [List.find?_append, hfind, Option.some_or]
  have hled := h.ledger.remove hfind'
  have herase' : ((entries (l₁ ++ (p, e) :: l₂) ++ entries nodesAsync).eraseP
      fun val => val.address = e.address) = entries (l₁ ++ l₂) ++ entries nodesAsync := by
    rw [List.eraseP_append_left (by simp) _ (List.mem_of_find?_eq_some hfind), herase]
  dsimp only at hled
  rw [herase'] at hled
  refine ⟨{ s with
      deviceOverallocated := l
      info := (rmGpuDeviceMemoryUsage cudaToNvmlMap s.info s.info.pid e.dev e.length 2).1
      created := s.created.erase e.address }, ?_, rfl, ?_⟩
  · show (s.deviceOverallocated.remove p).map _ = _
    rw [hremove]
    rfl
  · exact ⟨hrep, h.allocasync, hled, h.limit_eq, addresses_erase h.created, h.createdAsync,
      h.intact⟩

omit [DecidableEq T] in
/-- `LIST_REMOVE` on `device_allocasync`, and the release. -/
theorem ListState.Data.unlinkAsync {l₁ l₂ : Nodes} {p : ℕ} {e : AllocatedDeviceMemory}
    (h : s.Data cudaToNvmlMap base nodes (l₁ ++ (p, e) :: l₂))
    (hl₁ : ∀ n ∈ l₁, n.2.address ≠ e.address) {dev : Dev}
    (hdev : cudaToNvmlMap dev = cudaToNvmlMap e.dev ∨ e.length = 0) :
    ∃ s', s.unlink cudaToNvmlMap .removeChunkAsync dev p e = some s' ∧ s'.pc = s.pc ∧
      s'.Data cudaToNvmlMap base nodes (l₁ ++ l₂) := by
  obtain ⟨l, hremove, hrep⟩ := h.allocasync.remove
  obtain ⟨hfind, herase⟩ := find_entries p l₂ hl₁
  have hinv : AsyncAllocator.Inv cudaToNvmlMap _ ⟨s.info, entries (l₁ ++ (p, e) :: l₂), s.limit⟩ :=
    ⟨ledger_append_iff.mp h.ledger, h.limit_eq⟩
  have hstep := hinv.step (c := .freeRawAsync dev e.address) trivial
    (fun e' he' => Option.some.inj (hfind.symm.trans he') ▸ hdev) rfl
  rcases removeChunkAsync_cases cudaToNvmlMap ⟨s.info, entries (l₁ ++ (p, e) :: l₂), s.limit⟩ dev
    e.address with ⟨e', he', heq⟩ | ⟨hnone, -⟩
  · obtain rfl : e' = e := Option.some.inj (he'.symm.trans hfind)
    rw [heq] at hstep
    dsimp only at hstep
    rw [herase] at hstep
    refine ⟨{ s with
        deviceAllocasync := l
        limit := s.limit - e'.length
        info := (rmGpuDeviceMemoryUsage cudaToNvmlMap s.info s.info.pid dev e'.length 2).1
        createdAsync := s.createdAsync.erase e'.address },
      by rw [ListState.unlink, hremove]; rfl, rfl, ?_⟩
    exact ⟨h.overallocated, hrep, ledger_append_iff.mpr hstep.ledger, hstep.limit_eq, h.created,
      addresses_erase h.createdAsync, h.intact⟩
  · exact absurd (hfind.symm.trans hnone) (by simp)

/-! ## One step -/

/-- **The invariant.** -/
def ListState.Inv (cudaToNvmlMap : Dev → Dev) (base : Dev → DeviceMemory) (s : ListState T) :
    Prop :=
  ∃ nodes nodesAsync, s.Data cudaToNvmlMap base nodes nodesAsync ∧ s.Threads nodes nodesAsync

/-- The thread is outside the sections of the mutex, and not in a walk. -/
def ListPc.Outside : ListPc → Prop
  | .passed _ _ _ _ => False
  | .passedAsync _ _ _ _ => False
  | .starting _ _ => False
  | .walking _ _ _ => False
  | _ => True

theorem ListPc.Outside.not_inSection (h : pc.Outside) : ¬ pc.InSection := by
  cases pc with
  | passed r dev size address => exact h.elim
  | passedAsync dev address size poollimit => exact h.elim
  | starting w dptr => exact h.elim
  | walking w dptr val => exact h.elim
  | _ => exact id

theorem ListPc.Outside.cursorOk (h : pc.Outside) : pc.CursorOk nodes nodesAsync := by
  cases pc with
  | starting w dptr => exact h.elim
  | walking w dptr val => exact h.elim
  | _ => trivial

@[simp] theorem ListState.goto_pc_self (s : ListState T) (t : T) (pc : ListPc) :
    (s.goto t pc).pc t = pc :=
  Function.update_self _ _ _

/-- A move outside the sections. -/
theorem ListState.Inv.outside (h : s.Inv cudaToNvmlMap base) (pc : ListPc) (hold : (s.pc t).Outside)
    (hnew : pc.Outside) (hl : s.Leaves s') (hpc : s'.pc = Function.update s.pc t pc)
    (hmutex : s'.mutex = s.mutex) : s'.Inv cudaToNvmlMap base := by
  obtain ⟨nodes, nodesAsync, hdata, hthreads⟩ := h
  exact ⟨nodes, nodesAsync, hdata.leave hl, hthreads.move pc hpc
    (.keep hmutex (iff_of_false hnew.not_inSection hold.not_inSection)) (Or.inl ⟨rfl, rfl⟩)
    hnew.cursorOk⟩

/-- A thread takes the mutex and starts a section. -/
theorem ListState.Inv.take (h : s.Inv cudaToNvmlMap base) (pc : ListPc) (hfree : s.mutex = none)
    (hsection : pc.InSection) (hcursor : ∀ nodes nodesAsync, pc.CursorOk nodes nodesAsync)
    (hl : s.Leaves s') (hpc : s'.pc = Function.update s.pc t pc) (hmutex : s'.mutex = some t) :
    s'.Inv cudaToNvmlMap base := by
  obtain ⟨nodes, nodesAsync, hdata, hthreads⟩ := h
  exact ⟨nodes, nodesAsync, hdata.leave hl, hthreads.move pc hpc (.take hfree hmutex hsection)
    (Or.inl ⟨rfl, rfl⟩) (hcursor _ _)⟩

theorem ListState.Inv.goto (h : s.Inv cudaToNvmlMap base) (hold : (s.pc t).Outside)
    (hnew : pc.Outside) : (s.goto t pc).Inv cudaToNvmlMap base :=
  h.outside pc hold hnew ⟨Relation.ReflTransGen.refl, rfl, rfl, rfl, le_rfl, rfl, rfl⟩ rfl rfl

theorem ListState.Inv.firstCheck (h : s.Inv cudaToNvmlMap base) (hold : (s.pc t).Outside)
    {r : Recorder} {dev : Dev} {size : UInt64} {procAlive : ℕ → Pid → ProcState}
    (hself : ∀ n, procAlive n s.info.pid ≠ .nonalive)
    (hst : s.firstCheck t r dev size procAlive = some s') : s'.Inv cudaToNvmlMap base := by
  obtain ⟨⟨oom, info⟩, hoom, rfl⟩ := Option.map_eq_some_iff.mp hst
  have hcomp : SelfCompacts s.info info := (oomCheck_spec hoom).1.selfCompacts hself
  refine h.outside (if oom ≠ 0 then .idle else .allocating r dev size) hold ?_
    ⟨hcomp, rfl, rfl, rfl, le_rfl, rfl, rfl⟩ rfl rfl
  split_ifs <;> trivial

theorem ListState.Inv.call (h : s.Inv cudaToNvmlMap base) (hidle : s.pc t = .idle) {c : ListCall}
    {procAlive : ℕ → Pid → ProcState} (hself : ∀ n, procAlive n s.info.pid ≠ .nonalive)
    (hst : s.call t procAlive c = some s') : s'.Inv cudaToNvmlMap base := by
  have hold : (s.pc t).Outside := by
    rw [hidle]
    trivial
  cases c with
  | cuMemAllocV2 dev bytesize => exact h.firstCheck hold hself hst
  | cuMemFreeV2 dptr =>
    rw [ListState.call] at hst
    split_ifs at hst
    · cases hst
      exact h
    · cases hst
      exact h
    · cases hst
      exact h.goto hold trivial
  | cuMemCreate ctxDevice location size =>
    cases location with
    | none =>
      cases hst
      exact h
    | some id =>
      cases ctxDevice with
      | ok dev => exact h.firstCheck hold hself hst
      | error res => exact h.firstCheck hold hself hst
  | cuMemRelease handle =>
    cases hst
    exact h.goto hold trivial
  | cuMemAllocAsync env bytesize =>
    cases hst
    exact h.goto hold trivial
  | cuMemFreeAsync dptr =>
    rw [ListState.call] at hst
    split_ifs at hst
    · cases hst
      exact h
    · cases hst
      exact h.goto hold trivial

/-- The second check. -/
theorem ListState.Inv.secondCheck (h : s.Inv cudaToNvmlMap base) {procAlive : ℕ → Pid → ProcState}
    (hself : ∀ n, procAlive n s.info.pid ≠ .nonalive)
    (hst : s.step cudaToNvmlMap (.secondCheck t procAlive) = some s') :
    s'.Inv cudaToNvmlMap base := by
  rw [ListState.step] at hst
  split at hst
  · next r dev size address hpc hfree =>
    obtain ⟨⟨oom, info⟩, hoom, rfl⟩ := Option.map_eq_some_iff.mp hst
    have hcomp : SelfCompacts s.info info := (oomCheck_spec hoom).1.selfCompacts hself
    dsimp only
    split_ifs with hne hcreate
    · exact h.outside .idle (by rw [hpc]; trivial) trivial
        ⟨hcomp, rfl, rfl, rfl, Multiset.le_cons_self _ _, rfl, rfl⟩ rfl rfl
    · exact h.outside .idle (by rw [hpc]; trivial) trivial
        ⟨hcomp, rfl, rfl, rfl, le_rfl, rfl, rfl⟩ rfl rfl
    · exact h.take (.passed r dev size address) hfree trivial (fun _ _ => trivial)
        ⟨hcomp, rfl, rfl, rfl, le_rfl, rfl, rfl⟩ rfl rfl
  · exact absurd hst (by simp)

/-- `allocate_async_raw` up to the watermark. -/
theorem ListState.Inv.checkAsync (h : s.Inv cudaToNvmlMap base)
    (hreg : (ListLabel.checkAsync t).Regular s)
    (hst : s.step cudaToNvmlMap (.checkAsync t) = some s') : s'.Inv cudaToNvmlMap base := by
  rw [ListState.step] at hst
  split at hst
  · next env size hpc hfree =>
    obtain ⟨⟨oom, info⟩, hoom, rfl⟩ := Option.map_eq_some_iff.mp hst
    have hcomp : SelfCompacts s.info info :=
      (oomCheck_spec hoom).1.selfCompacts (hreg env size hpc)
    have hidle : ListState.Inv cudaToNvmlMap base { s.goto t .idle with info := info } :=
      h.outside .idle (by rw [hpc]; trivial) trivial
        ⟨hcomp, rfl, rfl, rfl, le_rfl, rfl, rfl⟩ rfl rfl
    dsimp only
    split_ifs
    · exact hidle
    · split
      · next address pool poollimit _ _ _ =>
        exact h.take (.passedAsync env.dev address size poollimit) hfree trivial
          (fun _ _ => trivial) ⟨hcomp, rfl, rfl, rfl, le_rfl, rfl, rfl⟩ rfl rfl
      · exact hidle
  · exact absurd hst (by simp)

/-- `LIST_ADD` on `device_overallocated`. -/
theorem ListState.Inv.record (h : s.Inv cudaToNvmlMap base) {node : Option ℕ} (hreg : node ≠ none)
    (hst : s.step cudaToNvmlMap (.record t node) = some s') : s'.Inv cudaToNvmlMap base := by
  obtain ⟨nodes, nodesAsync, hdata, hthreads⟩ := h
  obtain ⟨p, rfl⟩ := Option.ne_none_iff_exists'.mp hreg
  unfold ListState.step at hst
  dsimp only at hst
  split at hst
  · next r dev size address p' hpc hp =>
    obtain rfl := Option.some.inj hp
    obtain ⟨hfresh, hst⟩ := Option.ite_none_right_eq_some.mp hst
    obtain ⟨l, hadd, hdata'⟩ := hdata.record hfresh ⟨address, size, dev⟩
    rw [hadd] at hst
    obtain rfl := Option.some.inj hst
    have hmine : s.mutex = some t := (hthreads.mutex_iff t).mpr (by rw [hpc]; trivial)
    exact ⟨_, nodesAsync, hdata' _ _, hthreads.move .idle rfl (.give hmine rfl id)
      (Or.inr hmine) trivial⟩
  · next hnone => exact absurd hnone (by simp)
  · exact absurd hst (by simp)

/-- `LIST_ADD` on `device_allocasync`. -/
theorem ListState.Inv.recordAsync (h : s.Inv cudaToNvmlMap base) {p : ℕ}
    (hguard : (ListLabel.recordAsync t p).Guarded cudaToNvmlMap s)
    (hst : s.step cudaToNvmlMap (.recordAsync t p) = some s') : s'.Inv cudaToNvmlMap base := by
  obtain ⟨nodes, nodesAsync, hdata, hthreads⟩ := h
  rw [ListState.step] at hst
  split at hst
  · next dev address size poollimit hpc =>
    obtain ⟨hfresh, hst⟩ := Option.ite_none_right_eq_some.mp hst
    have hzero : poollimit = 0 → size = 0 := by
      rintro rfl
      exact hguard dev address size hpc
    obtain ⟨l, hadd, hdata'⟩ := hdata.recordAsync hfresh dev address hzero
    dsimp only at hst
    rw [hadd] at hst
    obtain rfl := Option.some.inj hst
    have hmine : s.mutex = some t := (hthreads.mutex_iff t).mpr (by rw [hpc]; trivial)
    exact ⟨nodes, _, hdata' _ _, hthreads.move .idle rfl (.give hmine rfl id)
      (Or.inr hmine) trivial⟩
  · exact absurd hst (by simp)

omit [DecidableEq T] in
/-- Nobody is in `remove_chunk_only`'s loop. -/
theorem ListState.Threads.walk_ne (h : s.Threads nodes nodesAsync) {w : Walk} {dptr : UInt64}
    (hpc : s.pc t = .starting w dptr ∨ ∃ val, s.pc t = .walking w dptr val) :
    w ≠ .removeChunkOnly := by
  rintro rfl
  have hcursor := h.cursor t
  rcases hpc with hpc | ⟨val, hpc⟩
  · rw [hpc] at hcursor
    exact hcursor
  · rw [hpc] at hcursor
    exact hcursor

/-- A walk that ends, with `nodes'` and `nodesAsync'` left in the lists. -/
theorem ListState.Threads.endWalk (h : s.Threads nodes nodesAsync) (hmine : s.mutex = some t)
    {s₁ : ListState T} (hpc : s₁.pc = s.pc) (hmutex : s'.mutex = none)
    (hpc' : s'.pc = Function.update s₁.pc t .idle) : s'.Threads nodes' nodesAsync' :=
  h.move .idle (by rw [hpc', hpc]) (.give hmine hmutex id) (Or.inr hmine) trivial

/-- A walk loads the head, or `remove_chunk_async` finds its list empty. -/
theorem ListState.Inv.start (h : s.Inv cudaToNvmlMap base)
    (hst : s.step cudaToNvmlMap (.start t) = some s') : s'.Inv cudaToNvmlMap base := by
  obtain ⟨nodes, nodesAsync, hdata, hthreads⟩ := h
  rw [ListState.step] at hst
  split at hst
  · next w dptr hpc =>
    have hw : w ≠ .removeChunkOnly := hthreads.walk_ne (Or.inl hpc)
    have hin : (s.pc t).InSection := by
      rw [hpc]
      exact hw
    split_ifs at hst
    · cases hst
      exact ⟨nodes, nodesAsync, hdata.setThreads _ _,
        hthreads.endWalk ((hthreads.mutex_iff t).mpr hin) rfl rfl rfl⟩
    · cases hst
      refine ⟨nodes, nodesAsync, hdata.setThreads _ _, hthreads.move _ rfl
        (.keep rfl (iff_of_true hw hin)) (Or.inl ⟨rfl, rfl⟩) ?_⟩
      cases w with
      | removeChunk => exact ⟨[], nodes, rfl, hdata.overallocated.head_eq, by simp⟩
      | removeChunkOnly => exact absurd rfl hw
      | removeChunkAsync => exact ⟨[], nodesAsync, rfl, hdata.allocasync.head_eq, by simp⟩
  · exact absurd hst (by simp)

/-- **One turn of a walk**, with the cursor between `l₁` and `l₂`. -/
theorem ListState.walkTurn_cases (cudaToNvmlMap : Dev → Dev) (t : T) (w : Walk) (dev : Dev)
    (dptr : UInt64) {l₁ l₂ : Nodes} (hrep : (s.listOf w).Represents (l₁ ++ l₂)) :
    (l₂ = [] ∧ s.walkTurn cudaToNvmlMap t dev w dptr (LinkedList.first l₂ none) =
        { s.goto t .idle with
          mutex := s.mutexAfter w
          created := if w = .removeChunkOnly then s.created.erase dptr else s.created }) ∨
      (∃ p e l₃, l₂ = (p, e) :: l₃ ∧ e.address = dptr ∧
        ∀ s₁, s.unlink cudaToNvmlMap w dev p e = some s₁ →
          s.walkTurn cudaToNvmlMap t dev w dptr (LinkedList.first l₂ none) =
            { s₁.goto t .idle with mutex := s.mutexAfter w }) ∨
      ∃ p e l₃, l₂ = (p, e) :: l₃ ∧ e.address ≠ dptr ∧
        s.walkTurn cudaToNvmlMap t dev w dptr (LinkedList.first l₂ none) =
          s.goto t (.walking w dptr (LinkedList.first l₃ none)) := by
  cases l₂ with
  | nil => exact Or.inl ⟨rfl, rfl⟩
  | cons n l₃ =>
    obtain ⟨p, e⟩ := n
    have hcell := hrep.cell_eq
    refine Or.inr ?_
    by_cases haddr : e.address = dptr
    · refine Or.inl ⟨p, e, l₃, rfl, haddr, fun s₁ hs₁ => ?_⟩
      rw [LinkedList.first, ListState.walkTurn]
      simp only [hcell, if_pos haddr, hs₁]
    · refine Or.inr ⟨p, e, l₃, rfl, haddr, ?_⟩
      rw [LinkedList.first, ListState.walkTurn]
      simp only [hcell, if_neg haddr]

/-- The cursor moves past a node with another address. -/
theorem forall_address_ne_append {l₁ : Nodes} {p : ℕ} {e : AllocatedDeviceMemory} {dptr : UInt64}
    (hl₁ : ∀ n ∈ l₁, n.2.address ≠ dptr) (hne : e.address ≠ dptr) :
    ∀ n ∈ l₁ ++ [(p, e)], n.2.address ≠ dptr := by
  rw [List.forall_mem_append, List.forall_mem_singleton]
  exact ⟨hl₁, hne⟩

/-- A turn of a walk under the mutex leaves the cursor at the next node, or the node taken out, or
the list as it is. -/
theorem ListState.Inv.walk (h : s.Inv cudaToNvmlMap base) {dev : Dev}
    (hguard : (ListLabel.walk t dev).Guarded cudaToNvmlMap s)
    (hst : s.step cudaToNvmlMap (.walk t dev) = some s') : s'.Inv cudaToNvmlMap base := by
  obtain ⟨nodes, nodesAsync, hdata, hthreads⟩ := h
  rw [ListState.step] at hst
  split at hst
  · next w dptr val hpc =>
    obtain rfl := Option.some.inj hst
    have hw : w ≠ .removeChunkOnly := hthreads.walk_ne (Or.inr ⟨val, hpc⟩)
    have hin : (s.pc t).InSection := by
      rw [hpc]
      exact hw
    have hmine : s.mutex = some t := (hthreads.mutex_iff t).mpr hin
    have hcursor := hthreads.cursor t
    rw [hpc] at hcursor
    cases w with
    | removeChunkOnly => exact absurd rfl hw
    | removeChunk =>
      obtain ⟨l₁, l₂, rfl, rfl, hl₁⟩ := hcursor
      rcases ListState.walkTurn_cases cudaToNvmlMap t .removeChunk dev dptr
        hdata.overallocated with
        ⟨rfl, hturn⟩ | ⟨p, e, l₃, rfl, rfl, hturn⟩ | ⟨p, e, l₃, rfl, hne, hturn⟩
      · rw [hturn]
        exact ⟨_, _, hdata.setThreads _ _, hthreads.endWalk hmine rfl rfl rfl⟩
      · obtain ⟨s₁, hs₁, hpc₁, hdata₁⟩ := hdata.unlink hl₁ dev
        rw [hturn s₁ hs₁]
        exact ⟨_, _, hdata₁.setThreads _ _, hthreads.endWalk hmine hpc₁ rfl rfl⟩
      · rw [hturn]
        exact ⟨_, _, hdata.setThreads _ _, hthreads.move _ rfl (.keep rfl (iff_of_true hw hin))
          (Or.inl ⟨rfl, rfl⟩)
          ⟨_, l₃, List.append_cons _ _ _, rfl, forall_address_ne_append hl₁ hne⟩⟩
    | removeChunkAsync =>
      obtain ⟨l₁, l₂, rfl, rfl, hl₁⟩ := hcursor
      rcases ListState.walkTurn_cases cudaToNvmlMap t .removeChunkAsync dev dptr
        hdata.allocasync with
        ⟨rfl, hturn⟩ | ⟨p, e, l₃, rfl, rfl, hturn⟩ | ⟨p, e, l₃, rfl, hne, hturn⟩
      · rw [hturn]
        exact ⟨_, _, hdata.setThreads _ _, hthreads.endWalk hmine rfl rfl rfl⟩
      · obtain ⟨s₁, hs₁, hpc₁, hdata₁⟩ := hdata.unlinkAsync hl₁
          (hguard _ p _ hpc hdata.allocasync.cell_eq rfl)
        rw [hturn s₁ hs₁]
        exact ⟨_, _, hdata₁.setThreads _ _, hthreads.endWalk hmine hpc₁ rfl rfl⟩
      · rw [hturn]
        exact ⟨_, _, hdata.setThreads _ _, hthreads.move _ rfl (.keep rfl (iff_of_true hw hin))
          (Or.inl ⟨rfl, rfl⟩)
          ⟨_, l₃, List.append_cons _ _ _, rfl, forall_address_ne_append hl₁ hne⟩⟩
  · exact absurd hst (by simp)

/-- `remove_chunk_only` on an empty list. -/
theorem ListState.Inv.removeChunkOnly (h : s.Inv cudaToNvmlMap base)
    (hguard : s.deviceOverallocated.length = 0)
    (hst : s.step cudaToNvmlMap (.removeChunkOnly t) = some s') : s'.Inv cudaToNvmlMap base := by
  obtain ⟨nodes, nodesAsync, hdata, hthreads⟩ := h
  rw [ListState.step] at hst
  split at hst
  · next handle hpc =>
    rw [if_pos hguard] at hst
    cases hst
    have hnil : nodes = [] := by
      rw [← List.length_eq_zero_iff, ← hdata.overallocated.length_eq, hguard]
    subst hnil
    have hout : ¬ (s.pc t).InSection := by
      rw [hpc]
      exact id
    exact ⟨[], nodesAsync, ⟨hdata.overallocated, hdata.allocasync, hdata.ledger, hdata.limit_eq,
      Multiset.zero_le _, hdata.createdAsync, hdata.intact⟩, hthreads.move .idle rfl
      (.keep rfl (iff_of_false id hout)) (Or.inl ⟨rfl, rfl⟩) trivial⟩
  · exact absurd hst (by simp)

/-- **One step that meets the condition.** -/
theorem ListState.Inv.step (h : s.Inv cudaToNvmlMap base) {a : ListLabel T} (hreg : a.Regular s)
    (hguard : a.Guarded cudaToNvmlMap s) (hst : s.step cudaToNvmlMap a = some s') :
    s'.Inv cudaToNvmlMap base := by
  cases a with
  | call t c procAlive =>
    rw [ListState.step] at hst
    split at hst
    · next hidle => exact h.call hidle hreg hst
    · exact absurd hst (by simp)
  | driverAlloc t result =>
    unfold ListState.step at hst
    dsimp only at hst
    split at hst
    · next hpc =>
      cases hst
      exact h.goto (by rw [hpc]; trivial) trivial
    · next hpc =>
      cases hst
      exact h.goto (by rw [hpc]; trivial) trivial
    · exact absurd hst (by simp)
  | secondCheck t procAlive => exact h.secondCheck hreg hst
  | record t node => exact h.record hreg hst
  | checkAsync t => exact h.checkAsync hreg hst
  | recordAsync t p => exact h.recordAsync hguard hst
  | driverRelease t ok =>
    rw [ListState.step] at hst
    split at hst
    · next hpc =>
      cases hst
      refine h.goto (by rw [hpc]; trivial) ?_
      cases ok <;> trivial
    · exact absurd hst (by simp)
  | removeChunkOnly t => exact h.removeChunkOnly hguard hst
  | lock t =>
    rw [ListState.step] at hst
    split at hst
    · next dptr hpc hfree =>
      cases hst
      exact h.take (.starting .removeChunk dptr) hfree (by simp [ListPc.InSection])
        (fun _ _ => trivial) ⟨Relation.ReflTransGen.refl, rfl, rfl, rfl, le_rfl, rfl, rfl⟩ rfl rfl
    · next dptr hpc hfree =>
      cases hst
      exact h.take (.starting .removeChunkAsync dptr) hfree (by simp [ListPc.InSection])
        (fun _ _ => trivial) ⟨Relation.ReflTransGen.refl, rfl, rfl, rfl, le_rfl, rfl, rfl⟩ rfl rfl
    · exact absurd hst (by simp)
  | start t => exact h.start hst
  | walk t dev => exact h.walk hguard hst

end Inv

/-! ## Whole runs -/

/-- The lists are empty, and the counters are those of `slot`. -/
structure ListState.Initial {T : Type*} (s : ListState T) (slot : ShrregProcSlot) : Prop where
  overallocated : s.deviceOverallocated.head = none ∧ s.deviceOverallocated.tail = none ∧
    s.deviceOverallocated.length = 0
  allocasync : s.deviceAllocasync.head = none ∧ s.deviceAllocasync.tail = none ∧
    s.deviceAllocasync.length = 0
  limit : s.limit = 0
  counters : ∃ own, s.info.PointsAt own ∧ own.pid = s.info.pid ∧ own.used = slot.used

/-- A process whose threads have not called a hook yet: `allocator_init` has run, and `slot` is its
slot. -/
structure ListState.Start {T : Type*} (s : ListState T) (slot : ShrregProcSlot) : Prop
    extends s.Initial slot where
  pid_ne_zero : s.info.pid ≠ 0
  unlocked : s.mutex = none
  idle : ∀ t, s.pc t = .idle
  created : s.created = 0
  createdAsync : s.createdAsync = 0
  intact : s.corrupted = false

section Runs

variable {T : Type*} [DecidableEq T] {cudaToNvmlMap : Dev → Dev} {s s' : ListState T} {t : T}
  {slot : ShrregProcSlot} {base : Dev → DeviceMemory}

omit [DecidableEq T] in
theorem ListState.Start.inv (h : s.Start slot) : s.Inv cudaToNvmlMap slot.used := by
  refine ⟨[], [], ⟨?_, ?_, ?_, ?_, ?_, ?_, h.intact⟩, fun t => ?_, fun t => ?_⟩
  · exact ⟨List.nodup_nil, trivial, h.overallocated.1, h.overallocated.2.1, h.overallocated.2.2⟩
  · exact ⟨List.nodup_nil, trivial, h.allocasync.1, h.allocasync.2.1, h.allocasync.2.2⟩
  · obtain ⟨own, hown, hpid, hused⟩ := h.counters
    refine ⟨h.pid_ne_zero, own, hown, hpid, fun k => ?_⟩
    rw [hused]
    simp [entries, DeviceMemory.grown]
  · rw [h.limit]
    rfl
  · exact Multiset.zero_le _
  · exact Multiset.zero_le _
  · rw [h.unlocked, h.idle t]
    simp [ListPc.InSection]
  · rw [h.idle t]
    trivial

omit [DecidableEq T] in
/-- Nothing is handed out, so nothing is in the lists. -/
theorem entries_eq_nil {l : Nodes} {m : Multiset UInt64}
    (h : ((entries l).map AllocatedDeviceMemory.address : Multiset UInt64) ≤ m) (hm : m = 0) :
    l = [] := by
  rw [hm, Multiset.le_zero, Multiset.coe_eq_zero, List.map_eq_nil_iff] at h
  exact List.map_eq_nil_iff.mp h

omit [DecidableEq T] in
theorem ListState.Inv.initial (h : s.Inv cudaToNvmlMap slot.used) (hcreated : s.created = 0)
    (hcreatedAsync : s.createdAsync = 0) : s.Initial slot := by
  obtain ⟨nodes, nodesAsync, hdata, -⟩ := h
  obtain rfl := entries_eq_nil hdata.created hcreated
  obtain rfl := entries_eq_nil hdata.createdAsync hcreatedAsync
  have ho := hdata.overallocated
  have ha := hdata.allocasync
  refine ⟨⟨ho.head_eq, ho.tail_eq, ho.length_eq⟩, ⟨ha.head_eq, ha.tail_eq, ha.length_eq⟩, ?_, ?_⟩
  · exact UInt64.toNat_inj.mp hdata.limit_eq
  · obtain ⟨own, hown, hpid, hused⟩ := hdata.ledger.slot
    refine ⟨own, hown, hpid, funext fun k => ?_⟩
    rw [hused k]
    simp [entries, DeviceMemory.grown]

/-- Whoever uses a list is inside a section of the mutex. -/
theorem ListState.Inv.mutex_of_usesList (h : s.Inv cudaToNvmlMap base) {a : ListLabel T}
    (huses : a.usesList s = some t) (hst : s.step cudaToNvmlMap a = some s') :
    s.mutex = some t := by
  obtain ⟨nodes, nodesAsync, -, hthreads⟩ := h
  rw [hthreads.mutex_iff t]
  cases a with
  | record u node =>
    cases node with
    | none => exact absurd huses (by simp [ListLabel.usesList])
    | some p =>
      obtain rfl : u = t := Option.some.inj huses
      unfold ListState.step at hst
      dsimp only at hst
      split at hst
      · next hpc _ => rw [hpc]; trivial
      · next hpc _ => rw [hpc]; trivial
      · exact absurd hst (by simp)
  | recordAsync u p =>
    obtain rfl : u = t := Option.some.inj huses
    rw [ListState.step] at hst
    split at hst
    · next hpc => rw [hpc]; trivial
    · exact absurd hst (by simp)
  | start u =>
    obtain rfl : u = t := Option.some.inj huses
    rw [ListState.step] at hst
    split at hst
    · next w dptr hpc =>
      rw [hpc]
      exact hthreads.walk_ne (Or.inl hpc)
    · exact absurd hst (by simp)
  | walk u dev =>
    rw [ListLabel.usesList] at huses
    split at huses
    · next w dptr p hpc =>
      obtain rfl : u = t := Option.some.inj huses
      rw [hpc]
      exact hthreads.walk_ne (Or.inr ⟨_, hpc⟩)
    · exact absurd huses (by simp)
  | _ => exact absurd huses (by simp [ListLabel.usesList])

/-- **`remove_chunk_only` on a list with nodes** goes on to look at a node without the mutex. -/
theorem ListState.Inv.removeChunkOnly_unlocked (h : s.Inv cudaToNvmlMap base)
    (hlength : s.deviceOverallocated.length ≠ 0)
    (hst : s.step cudaToNvmlMap (.removeChunkOnly t) = some s') :
    ∃ s'', s'.step cudaToNvmlMap (.start t) = some s'' ∧ s''.mutex ≠ some t ∧
      ∀ dev, (ListLabel.walk t dev).usesList s'' = some t ∧
        ∃ s₃, s''.step cudaToNvmlMap (.walk t dev) = some s₃ := by
  obtain ⟨nodes, nodesAsync, hdata, hthreads⟩ := h
  rw [ListState.step] at hst
  split at hst
  · next handle hpc =>
    rw [if_neg hlength] at hst
    cases hst
    obtain ⟨p, hhead⟩ : ∃ p, s.deviceOverallocated.head = some p := by
      rw [hdata.overallocated.head_eq]
      cases nodes with
      | nil => exact absurd hdata.overallocated.length_eq hlength
      | cons n l => exact ⟨n.1, rfl⟩
    have hout : s.mutex ≠ some t := by
      rw [Ne, hthreads.mutex_iff t, hpc]
      exact id
    refine ⟨(s.goto t (.starting .removeChunkOnly handle)).goto t
      (.walking .removeChunkOnly handle (some p)), ?_, hout, fun dev => ?_⟩
    · have hlist : (s.goto t (.starting .removeChunkOnly handle)).listOf .removeChunkOnly =
          s.deviceOverallocated := rfl
      simp [ListState.step, hlist, hhead]
    · simp [ListLabel.usesList, ListState.step]
  · exact absurd hst (by simp)

end Runs

/-- `Guarded` with devices that map to themselves, evaluated. -/
def ListLabel.guarded {T : Type*} (s : ListState T) : ListLabel T → Bool
  | .removeChunkOnly _ => s.deviceOverallocated.length = 0
  | .recordAsync t _ =>
    match s.pc t with
    | .passedAsync _ _ size poollimit => poollimit ≠ 0 ∨ size = 0
    | _ => true
  | .walk t dev =>
    match s.pc t with
    | .walking .removeChunkAsync _ (some p) =>
      (s.deviceAllocasync.cell p).all fun n => n.entry.dev = dev
    | _ => true
  | _ => true

theorem ListLabel.guarded_of_eval {T : Type*} {s : ListState T} {a : ListLabel T}
    (h : a.guarded s = true) : a.Guarded id s := by
  cases a with
  | removeChunkOnly t =>
    show s.deviceOverallocated.length = 0
    exact of_decide_eq_true h
  | recordAsync t p =>
    intro dev address size hpc
    rw [ListLabel.guarded, hpc] at h
    simpa using h
  | walk t dev =>
    intro dptr p n hpc hcell _
    rw [ListLabel.guarded, hpc] at h
    change ((s.deviceAllocasync.cell p).all fun n => decide (n.entry.dev = dev)) = true at h
    rw [hcell] at h
    exact Or.inl (of_decide_eq_true h).symm
  | _ => trivial

/-- Process `7` with two threads, registered alone. -/
def twoThreadsListed : ListState Worker where
  info := ⟨7, ⟨fun _ => 0, fun _ => { ShrregProcSlot.blank with pid := 7 }, 1⟩, some 0⟩
  deviceOverallocated := .empty
  deviceAllocasync := .empty
  limit := 0
  mutex := none
  pc := fun _ => .idle
  created := 0
  createdAsync := 0
  corrupted := false

theorem twoThreadsListed_start : twoThreadsListed.Start { ShrregProcSlot.blank with pid := 7 } where
  overallocated := ⟨rfl, rfl, rfl⟩
  allocasync := ⟨rfl, rfl, rfl⟩
  limit := rfl
  counters := ⟨_, ⟨0, rfl, Nat.one_pos, rfl⟩, rfl, rfl⟩
  pid_ne_zero := show (7 : Pid) ≠ 0 by decide
  unlocked := rfl
  idle := fun _ => rfl
  created := rfl
  createdAsync := rfl
  intact := rfl

/-- One thread allocates 5 bytes and frees them, and releases a handle that is not tracked, while
the other frees a pointer of a stream that is not tracked. -/
def allReleased : List (ListLabel Worker) :=
  [.call .one (.cuMemAllocV2 0 5) fun _ _ => .alive,
    .call .two (.cuMemFreeAsync 200) fun _ _ => .alive,
    .driverAlloc .one (.ok 100), .lock .two, .start .two,
    .secondCheck .one fun _ _ => .alive, .record .one (some 1),
    .call .one (.cuMemFreeV2 100) fun _ _ => .alive, .lock .one, .start .one, .walk .one 0,
    .call .one (.cuMemRelease 300) fun _ _ => .alive, .driverRelease .one true,
    .removeChunkOnly .one]

/-- Two chunks are created; then both threads release, and the first has its cursor at the node the
second is about to unlink. -/
def bothRelease : List (ListLabel Worker) :=
  [.call .one (.cuMemCreate (.ok 0) (some 0) 5) fun _ _ => .alive, .driverAlloc .one (.ok 100),
    .secondCheck .one fun _ _ => .alive, .record .one (some 1),
    .call .two (.cuMemCreate (.ok 0) (some 0) 5) fun _ _ => .alive, .driverAlloc .two (.ok 200),
    .secondCheck .two fun _ _ => .alive, .record .two (some 2),
    .call .one (.cuMemRelease 200) fun _ _ => .alive,
    .call .two (.cuMemRelease 100) fun _ _ => .alive,
    .driverRelease .one true, .driverRelease .two true, .removeChunkOnly .one,
    .removeChunkOnly .two, .start .one, .start .two]

theorem listed_regular :
    ∀ a ∈ allReleased ++ bothRelease, ∀ s : ListState Worker, a.Regular s := by
  rw [List.forall_mem_append]
  simp only [allReleased, bothRelease, List.forall_mem_cons]
  simp [ListLabel.Regular]

theorem exec_allReleased :
    (exec (ListState.step id) (fun s a => a.guarded s) allReleased twoThreadsListed).map
      (fun s => (s.created, s.createdAsync)) = some (0, 0) := by
  decide +kernel

theorem exec_bothRelease :
    (exec (ListState.step id) (fun _ _ => true) bothRelease twoThreadsListed).map
      (fun s => (s.mutex, (ListLabel.walk .two 0).usesList s, (s.step id (.walk .two 0)).isSome,
        ((s.step id (.walk .two 0)).bind fun s' => s'.step id (.walk .one 0)).map
          ListState.corrupted)) =
      some (none, some .two, true, some true) := by
  decide +kernel

end HamiCore
