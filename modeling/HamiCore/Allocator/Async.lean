import HamiCore.Allocator.Ledger

/-!
# The ledger of stream-ordered allocations

`cuMemAllocAsync` takes memory out of a pool of the device, and the driver reports how far the pool
has ever grown, its watermark.  `add_chunk_async` charges only what pushes the watermark up: the
smaller of the request and the part of the watermark that `device_allocasync->limit` does not cover
yet, and it records that amount as the entry's length.  `remove_chunk_async` releases the recorded
length, from the entry, from the counter `limit` and from the slot.

Two branches do not fit.  With a watermark of `0` nothing is charged, and the entry keeps the length
`size` it was initialised with.  And the release goes to the device that is current at the time of
the free, while `remove_chunk` next to it takes the device that the entry recorded.
`AsyncCall.Keeps` says of a call that neither happens; `async_ledger` says that the books agree as
long as every call keeps them, and that the first one that does not breaks them.

`allocate_async_raw` and `free_raw_async` hold the mutex around the whole of a call, and every path
releases it, so a call is one step.
-/

namespace HamiCore

/-- `device_allocasync`, with what the process holds on the region. -/
structure AsyncAllocator where
  info : RegionInfo
  /-- The entries of `device_allocasync`, from head to tail. -/
  deviceAllocasync : List AllocatedDeviceMemory
  /-- `device_allocasync->limit`. -/
  limit : UInt64

/-- What `add_chunk_async` learns from outside. -/
structure AllocAsyncEnv where
  /-- `cuCtxGetDevice`. -/
  dev : Dev
  procAlive : ℕ → Pid → ProcState
  /-- `INIT_ALLOCATED_LIST_ENTRY` gets its context and its memory. -/
  entryOk : Bool
  memAllocAsync : Except CudaError UInt64
  deviceGetMemPool : Except CudaError Unit
  /-- The watermark `CU_MEMPOOL_ATTR_RESERVED_MEM_HIGH`. -/
  memPoolGetAttribute : Except CudaError UInt64

section Operations

variable (cudaToNvmlMap : Dev → Dev)

/-- The end of `add_chunk_async`, once the watermark is known. -/
def AsyncAllocator.record (a : AsyncAllocator) (dev : Dev) (address size poollimit : UInt64) :
    AsyncAllocator :=
  if poollimit ≠ 0 then
    if a.limit < poollimit then
      let allocsize := if poollimit - a.limit < size then poollimit - a.limit else size
      { info := (addGpuDeviceMemoryUsage cudaToNvmlMap a.info a.info.pid dev allocsize 2).1
        limit := a.limit + allocsize
        deviceAllocasync := a.deviceAllocasync ++ [⟨address, allocsize, dev⟩] }
    else { a with deviceAllocasync := a.deviceAllocasync ++ [⟨address, 0, dev⟩] }
  else { a with deviceAllocasync := a.deviceAllocasync ++ [⟨address, size, dev⟩] }

/-- `add_chunk_async`.  `none` is a check that waits for ever. -/
def addChunkAsync (env : AllocAsyncEnv) (size : UInt64) (a : AsyncAllocator) :
    Option (ℤ × AsyncAllocator) :=
  (oomCheck env.procAlive env.dev size a.info).map fun (oom, info) =>
    let a₁ := { a with info := info }
    if oom ≠ 0 then (-1, a₁)
    else if env.entryOk then
      match env.memAllocAsync with
      | .error res => (res, a₁)
      | .ok address =>
        match env.deviceGetMemPool with
        | .error res => (res, a₁)
        | .ok _ =>
          match env.memPoolGetAttribute with
          | .error res => (res, a₁)
          | .ok poollimit => (0, a₁.record cudaToNvmlMap env.dev address size poollimit)
    else (-1, a₁)

/-- `remove_chunk_async(device_allocasync, dptr, hStream)`; `dev` is the current device. -/
def removeChunkAsync (dev : Dev) (dptr : UInt64) (a : AsyncAllocator) : ℤ × AsyncAllocator :=
  if a.deviceAllocasync.length = 0 then (-1, a)
  else
    match a.deviceAllocasync.find? fun val => val.address = dptr with
    | some e =>
      (0, { info := (rmGpuDeviceMemoryUsage cudaToNvmlMap a.info a.info.pid dev e.length 2).1
            limit := a.limit - e.length
            deviceAllocasync := a.deviceAllocasync.eraseP fun val => val.address = dptr })
    | none => (-1, a)

/-- A call, with what it learns from outside. -/
inductive AsyncCall where
  | allocateAsyncRaw (env : AllocAsyncEnv) (size : UInt64)
  | freeRawAsync (dev : Dev) (dptr : UInt64)

/-- The state after a call. -/
def AsyncAllocator.step (a : AsyncAllocator) : AsyncCall → Option AsyncAllocator
  | .allocateAsyncRaw env size => (addChunkAsync cudaToNvmlMap env size a).map Prod.snd
  | .freeRawAsync dev dptr => some (removeChunkAsync cudaToNvmlMap dev dptr a).2

end Operations

/-- `proc_alive` does not report the caller dead. -/
def AsyncCall.Regular (a : AsyncAllocator) : AsyncCall → Prop
  | .allocateAsyncRaw env _ => ∀ n, env.procAlive n a.info.pid ≠ .nonalive
  | .freeRawAsync _ _ => True

/-- The allocation is let through: the check passes and the calls before the watermark succeed. -/
def AllocAsyncEnv.Admits (env : AllocAsyncEnv) (size : UInt64) (a : AsyncAllocator) : Prop :=
  (∃ info, oomCheck env.procAlive env.dev size a.info = some (0, info)) ∧ env.entryOk = true ∧
    (∃ address, env.memAllocAsync = .ok address) ∧ env.deviceGetMemPool = .ok ()

/-- The condition.  An allocation that is let through does not meet a watermark of `0`, unless it is
of no bytes; and a free is made on a device that maps where the entry's device does, unless nothing
was charged for the entry. -/
def AsyncCall.Keeps (cudaToNvmlMap : Dev → Dev) (a : AsyncAllocator) : AsyncCall → Prop
  | .allocateAsyncRaw env size => env.Admits size a → env.memPoolGetAttribute = .ok 0 → size = 0
  | .freeRawAsync dev dptr =>
    ∀ e, (a.deviceAllocasync.find? fun val => val.address = dptr) = some e →
      cudaToNvmlMap dev = cudaToNvmlMap e.dev ∨ e.length = 0

/-! ## The books -/

/-- **The books agree.**  For every device index `k`, what has been added to `data_size` over the
counters `base` is the bytes of the entries that map to `k`, and `limit` is the bytes of all
entries. -/
def AsyncAllocator.Agrees (cudaToNvmlMap : Dev → Dev) (base : Dev → DeviceMemory)
    (a : AsyncAllocator) : Prop :=
  (∃ s, a.info.PointsAt s ∧ s.pid = a.info.pid ∧ ∀ k,
      ((s.used k).dataSize - (base k).dataSize).toNat =
        trackedBytesOn cudaToNvmlMap a.deviceAllocasync k) ∧
    a.limit.toNat = trackedBytes a.deviceAllocasync

/-- No subtraction a free of `dptr` makes goes below zero: the entry's length is covered by what was
charged to the device it is released from, and by `limit`. -/
def AsyncAllocator.Covers (cudaToNvmlMap : Dev → Dev) (base : Dev → DeviceMemory)
    (a : AsyncAllocator) (dev : Dev) (dptr : UInt64) : Prop :=
  ∀ e, (a.deviceAllocasync.find? fun val => val.address = dptr) = some e →
    (∃ s, a.info.PointsAt s ∧ e.length.toNat ≤
      ((s.used (cudaToNvmlMap dev)).dataSize - (base (cudaToNvmlMap dev)).dataSize).toNat) ∧
    e.length.toNat ≤ a.limit.toNat

/-! ## The invariant -/

/-- The ledger of the entries, and `limit` as their bytes. -/
structure AsyncAllocator.Inv (cudaToNvmlMap : Dev → Dev) (base : Dev → DeviceMemory)
    (a : AsyncAllocator) : Prop where
  ledger : Ledger cudaToNvmlMap base (a.info, a.deviceAllocasync)
  limit_eq : a.limit.toNat = trackedBytes a.deviceAllocasync

section Inv

variable {cudaToNvmlMap : Dev → Dev} {base : Dev → DeviceMemory} {a a' : AsyncAllocator}

theorem DeviceMemory.dataSize_grown_sub (m : DeviceMemory) (n : UInt64) :
    (m.grown n).dataSize - m.dataSize = n := by
  show m.dataSize + n - m.dataSize = n
  rw [UInt64.add_comm, UInt64.add_sub_cancel]

theorem AsyncAllocator.Inv.agrees (h : a.Inv cudaToNvmlMap base) : a.Agrees cudaToNvmlMap base := by
  obtain ⟨s, hs, hpid, hused⟩ := h.ledger.slot
  refine ⟨⟨s, hs, hpid, fun k => ?_⟩, h.limit_eq⟩
  rw [hused k, DeviceMemory.dataSize_grown_sub]
  refine toNat_trackedLength_eq ?_ k
  rw [← h.limit_eq]
  exact a.limit.toNat_lt

/-- Two descriptions of the slot a pointer is at are the same slot. -/
theorem RegionInfo.PointsAt.eq {info : RegionInfo} {s t : ShrregProcSlot} (hs : info.PointsAt s)
    (ht : info.PointsAt t) : s = t := by
  obtain ⟨i, hi, -, rfl⟩ := hs
  obtain ⟨j, hj, -, rfl⟩ := ht
  rw [Option.some.inj (hi.symm.trans hj)]

/-- A check by a live caller keeps the books. -/
theorem AsyncAllocator.Inv.check (h : a.Inv cudaToNvmlMap base) {info : RegionInfo}
    (hcomp : SelfCompacts a.info info) : Inv cudaToNvmlMap base { a with info := info } :=
  ⟨h.ledger.keep hcomp, h.limit_eq⟩

/-- An entry of length `0` needs no charge. -/
theorem Ledger.append_zero {b : Books} (h : Ledger cudaToNvmlMap base b) (address : UInt64)
    (dev : Dev) : Ledger cudaToNvmlMap base (b.1, b.2 ++ [⟨address, 0, dev⟩]) := by
  obtain ⟨s, hs, hpid, hused⟩ := h.slot
  refine ⟨h.pid_ne_zero, s, hs, hpid, fun k => ?_⟩
  rw [hused k, trackedLength_append, trackedLength_cons, ite_self, trackedLength_nil, add_zero,
    add_zero]

/-- An entry of length `0` may be released from any device. -/
theorem Ledger.remove_zero {b : Books} (h : Ledger cudaToNvmlMap base b) {dptr : UInt64}
    {e : AllocatedDeviceMemory} (he : (b.2.find? fun val => val.address = dptr) = some e)
    (hzero : e.length = 0) (dev : Dev) :
    Ledger cudaToNvmlMap base
      ((rmGpuDeviceMemoryUsage cudaToNvmlMap b.1 b.1.pid dev e.length 2).1,
        b.2.eraseP fun val => val.address = dptr) := by
  obtain ⟨s, hs, hpid, hused⟩ := h.slot
  obtain ⟨hpts, hpid'⟩ := hs.update cudaToNvmlMap (· - ·) dev e.length
  refine ⟨by rw [rmGpuDeviceMemoryUsage, hpid']; exact h.pid_ne_zero, _, hpts,
    by rw [rmGpuDeviceMemoryUsage, hpid']; exact hpid, fun k => ?_⟩
  have hlen := trackedLength_eraseP cudaToNvmlMap he k
  rw [hzero, ite_self, add_zero] at hlen
  show Function.update s.used (cudaToNvmlMap dev) _ k = _
  rw [← hlen, ← hused k, hzero]
  by_cases hk : k = cudaToNvmlMap dev
  · rw [hk, Function.update_self]
    simp [DeviceMemory.update]
  · rw [Function.update_of_ne hk]

/-- **The charge for a watermark.**  It is at most what the watermark has above `limit`, so `limit`
does not wrap around. -/
theorem AsyncAllocator.Inv.record (h : a.Inv cudaToNvmlMap base) {dev : Dev}
    {address size poollimit : UInt64} (hzero : poollimit = 0 → size = 0) :
    (a.record cudaToNvmlMap dev address size poollimit).Inv cudaToNvmlMap base := by
  unfold AsyncAllocator.record
  split_ifs with hpool hroom hsmall
  · have hlt := UInt64.lt_iff_toNat_lt.mp hroom
    have hbound := poollimit.toNat_lt
    refine ⟨h.ledger.add ⟨address, poollimit - a.limit, dev⟩, ?_⟩
    dsimp only
    rw [trackedBytes_append, trackedBytes_singleton, UInt64.toNat_add,
      UInt64.toNat_sub_of_le _ _ (UInt64.le_of_lt hroom), h.limit_eq]
    have hlimit := h.limit_eq
    omega
  · have hlt := UInt64.lt_iff_toNat_lt.mp hroom
    have hbound := poollimit.toNat_lt
    have hsize := UInt64.le_iff_toNat_le.mp (UInt64.not_lt.mp hsmall)
    rw [UInt64.toNat_sub_of_le _ _ (UInt64.le_of_lt hroom)] at hsize
    refine ⟨h.ledger.add ⟨address, size, dev⟩, ?_⟩
    dsimp only
    rw [trackedBytes_append, trackedBytes_singleton, UInt64.toNat_add, h.limit_eq]
    have hlimit := h.limit_eq
    dsimp only
    omega
  · refine ⟨h.ledger.append_zero address dev, ?_⟩
    dsimp only
    rw [trackedBytes_append, trackedBytes_singleton, h.limit_eq]
    rfl
  · obtain rfl := hzero (not_not.mp hpool)
    refine ⟨h.ledger.append_zero address dev, ?_⟩
    dsimp only
    rw [trackedBytes_append, trackedBytes_singleton, h.limit_eq]
    rfl

/-- What an allocation does: a check, and then nothing or a record. -/
theorem addChunkAsync_cases {env : AllocAsyncEnv} {size : UInt64} {out : ℤ × AsyncAllocator}
    (h : addChunkAsync cudaToNvmlMap env size a = some out) :
    ∃ info, Compacts env.procAlive a.info info ∧
      (out.2 = { a with info := info } ∨
        ∃ address poollimit, env.Admits size a ∧ env.memPoolGetAttribute = .ok poollimit ∧
          oomCheck env.procAlive env.dev size a.info = some (0, info) ∧
          env.memAllocAsync = .ok address ∧
          out.2 = AsyncAllocator.record cudaToNvmlMap { a with info := info } env.dev address size
            poollimit) := by
  obtain ⟨⟨oom, info⟩, hoom, rfl⟩ := Option.map_eq_some_iff.mp h
  refine ⟨info, (oomCheck_spec hoom).1, ?_⟩
  dsimp only
  split_ifs with hne hentry
  · exact Or.inl rfl
  · obtain rfl : oom = 0 := not_not.mp hne
    split
    · exact Or.inl rfl
    · next address haddr =>
      split
      · exact Or.inl rfl
      · next hpool =>
        split
        · exact Or.inl rfl
        · next poollimit hattr =>
          exact Or.inr ⟨address, poollimit, ⟨⟨info, hoom⟩, hentry, ⟨address, haddr⟩, hpool⟩, hattr,
            hoom, haddr, rfl⟩
  · exact Or.inl rfl

/-- What a free does. -/
theorem removeChunkAsync_cases (cudaToNvmlMap : Dev → Dev) (a : AsyncAllocator) (dev : Dev)
    (dptr : UInt64) :
    (∃ e, (a.deviceAllocasync.find? fun val => val.address = dptr) = some e ∧
        (removeChunkAsync cudaToNvmlMap dev dptr a).2 =
          { info := (rmGpuDeviceMemoryUsage cudaToNvmlMap a.info a.info.pid dev e.length 2).1
            limit := a.limit - e.length
            deviceAllocasync := a.deviceAllocasync.eraseP fun val => val.address = dptr }) ∨
      ((a.deviceAllocasync.find? fun val => val.address = dptr) = none ∧
        (removeChunkAsync cudaToNvmlMap dev dptr a).2 = a) := by
  unfold removeChunkAsync
  split_ifs with hempty
  · refine Or.inr ⟨?_, rfl⟩
    rw [List.eq_nil_of_length_eq_zero hempty]
    rfl
  · cases hfind : a.deviceAllocasync.find? fun val => val.address = dptr with
    | some e => exact Or.inl ⟨e, rfl, rfl⟩
    | none => exact Or.inr ⟨rfl, rfl⟩

/-- Releasing an entry takes its bytes out of `limit`. -/
theorem AsyncAllocator.Inv.limit_sub (h : a.Inv cudaToNvmlMap base) {dptr : UInt64}
    {e : AllocatedDeviceMemory}
    (he : (a.deviceAllocasync.find? fun val => val.address = dptr) = some e) :
    (a.limit - e.length).toNat =
      trackedBytes (a.deviceAllocasync.eraseP fun val => val.address = dptr) := by
  have hbytes := trackedBytes_eraseP he
  have hlimit := h.limit_eq
  rw [UInt64.toNat_sub_of_le _ _ (UInt64.le_iff_toNat_le.mpr (by omega))]
  omega

/-- **One call that meets the condition.** -/
theorem AsyncAllocator.Inv.step (h : a.Inv cudaToNvmlMap base) {c : AsyncCall} (hreg : c.Regular a)
    (hkeeps : c.Keeps cudaToNvmlMap a) (hst : a.step cudaToNvmlMap c = some a') :
    a'.Inv cudaToNvmlMap base := by
  cases c with
  | allocateAsyncRaw env size =>
    obtain ⟨out, hout, rfl⟩ := Option.map_eq_some_iff.mp hst
    obtain ⟨info, hcomp, heq | ⟨address, poollimit, hadm, hattr, -, -, heq⟩⟩ :=
      addChunkAsync_cases hout
    · rw [heq]
      exact h.check (hcomp.selfCompacts hreg)
    · rw [heq]
      refine (h.check (hcomp.selfCompacts hreg)).record fun hzero => hkeeps hadm ?_
      rw [hattr, hzero]
  | freeRawAsync dev dptr =>
    obtain rfl := Option.some.inj hst
    rcases removeChunkAsync_cases cudaToNvmlMap a dev dptr with ⟨e, he, heq⟩ | ⟨-, heq⟩
    · rw [heq]
      refine ⟨?_, h.limit_sub he⟩
      rcases hkeeps e he with hdev | hzero
      · have hsame : rmGpuDeviceMemoryUsage cudaToNvmlMap a.info a.info.pid dev e.length 2 =
            rmGpuDeviceMemoryUsage cudaToNvmlMap a.info a.info.pid e.dev e.length 2 := by
          rw [rmGpuDeviceMemoryUsage, updateGpuDeviceMemoryUsage, updateGpuDeviceMemoryUsage, hdev]
        rw [hsame]
        exact h.ledger.remove he
      · exact h.ledger.remove_zero he hzero dev
    · rw [heq]
      exact h

/-- **A watermark of `0` breaks the books**: the entry has bytes nobody was charged for. -/
theorem AsyncAllocator.Inv.not_agrees_record (h : a.Inv cudaToNvmlMap base) {dev : Dev}
    {address size : UInt64} (hsize : size ≠ 0) :
    ¬ (a.record cudaToNvmlMap dev address size 0).Agrees cudaToNvmlMap base := by
  rintro ⟨-, hlimit⟩
  have hlimit' := h.limit_eq
  have hpos : size.toNat ≠ 0 := fun h0 => hsize (UInt64.toNat_inj.mp h0)
  change a.limit.toNat = trackedBytes (a.deviceAllocasync ++ [⟨address, size, dev⟩]) at hlimit
  rw [trackedBytes_append, trackedBytes_singleton] at hlimit
  dsimp only at hlimit
  omega

/-- **A free on another device breaks the books**: the entry's own device keeps the charge. -/
theorem AsyncAllocator.Inv.not_agrees_free (h : a.Inv cudaToNvmlMap base) {dev : Dev}
    {dptr : UInt64} {e : AllocatedDeviceMemory}
    (he : (a.deviceAllocasync.find? fun val => val.address = dptr) = some e)
    (hdev : cudaToNvmlMap dev ≠ cudaToNvmlMap e.dev) (hlen : e.length ≠ 0) :
    ¬ AsyncAllocator.Agrees cudaToNvmlMap base
      { info := (rmGpuDeviceMemoryUsage cudaToNvmlMap a.info a.info.pid dev e.length 2).1
        limit := a.limit - e.length
        deviceAllocasync := a.deviceAllocasync.eraseP fun val => val.address = dptr } := by
  rintro ⟨⟨t, ht, -, hcharged⟩, -⟩
  obtain ⟨s, hs, -, hold⟩ := h.agrees.1
  obtain ⟨hpts, -⟩ := hs.update cudaToNvmlMap (· - ·) dev e.length
  have hpos : e.length.toNat ≠ 0 := fun h0 => hlen (UInt64.toNat_inj.mp h0)
  have hnew := hcharged (cudaToNvmlMap e.dev)
  rw [RegionInfo.PointsAt.eq ht hpts, ShrregProcSlot.used_update, Function.update_of_ne hdev.symm,
    hold] at hnew
  have hsplit := trackedBytesOn_eraseP cudaToNvmlMap he (cudaToNvmlMap e.dev)
  rw [if_pos rfl] at hsplit
  dsimp only at hnew
  omega

/-- **One call**: the books agree afterwards exactly when the call meets the condition. -/
theorem AsyncAllocator.Inv.step_iff (h : a.Inv cudaToNvmlMap base) {c : AsyncCall}
    (hreg : c.Regular a) (hst : a.step cudaToNvmlMap c = some a') :
    a'.Agrees cudaToNvmlMap base ↔ c.Keeps cudaToNvmlMap a := by
  refine ⟨fun hagrees => ?_, fun hkeeps => (h.step hreg hkeeps hst).agrees⟩
  cases c with
  | allocateAsyncRaw env size =>
    intro hadm hzero
    obtain ⟨out, hout, rfl⟩ := Option.map_eq_some_iff.mp hst
    obtain ⟨info, hcomp, heq | ⟨address, poollimit, -, hattr, -, -, heq⟩⟩ :=
      addChunkAsync_cases hout
    · -- an allocation that is let through does record its entry
      obtain ⟨⟨info', hoom⟩, hentry, ⟨address, haddr⟩, hpool⟩ := hadm
      rw [addChunkAsync, hoom, Option.map_some, Option.some.injEq] at hout
      rw [← hout] at hagrees
      simp only [ne_eq, not_true_eq_false, if_false, hentry, if_true, haddr, hpool,
        hzero] at hagrees
      by_contra hsize
      exact (h.check ((oomCheck_spec hoom).1.selfCompacts hreg)).not_agrees_record hsize hagrees
    · obtain rfl : poollimit = 0 := by
        rw [hattr] at hzero
        exact Except.ok.inj hzero
      rw [heq] at hagrees
      by_contra hsize
      exact (h.check (hcomp.selfCompacts hreg)).not_agrees_record hsize hagrees
  | freeRawAsync dev dptr =>
    intro e he
    obtain rfl := Option.some.inj hst
    rcases removeChunkAsync_cases cudaToNvmlMap a dev dptr with ⟨e', he', heq⟩ | ⟨hnone, -⟩
    · obtain rfl : e' = e := Option.some.inj (he'.symm.trans he)
      rw [heq] at hagrees
      by_contra hno
      rw [not_or] at hno
      exact h.not_agrees_free he hno.1 hno.2 hagrees
    · rw [hnone] at he
      exact absurd he (by simp)

/-- The subtractions of a free that meets the condition. -/
theorem AsyncAllocator.Inv.covers (h : a.Inv cudaToNvmlMap base) {dev : Dev} {dptr : UInt64}
    (hkeeps : (AsyncCall.freeRawAsync dev dptr).Keeps cudaToNvmlMap a) :
    a.Covers cudaToNvmlMap base dev dptr := by
  intro e he
  obtain ⟨⟨s, hs, -, hcharged⟩, -⟩ := h.agrees
  have hbytes := trackedBytes_eraseP he
  have hon := trackedBytesOn_eraseP cudaToNvmlMap he (cudaToNvmlMap e.dev)
  have hlimit := h.limit_eq
  rw [if_pos rfl] at hon
  refine ⟨⟨s, hs, ?_⟩, by omega⟩
  rcases hkeeps e he with hdev | hzero
  · rw [hdev, hcharged]
    omega
  · rw [hzero]
    exact Nat.zero_le _

end Inv

/-! ## Whole runs -/

/-- A process with a coherent pointer and no stream-ordered allocations; `s` is its slot. -/
structure AsyncAllocator.Start (a : AsyncAllocator) (s : ShrregProcSlot) : Prop where
  pointsAt : a.info.PointsAt s
  pid_eq : s.pid = a.info.pid
  pid_ne_zero : a.info.pid ≠ 0
  untracked : a.deviceAllocasync = []
  limit_zero : a.limit = 0

section Runs

variable {cudaToNvmlMap : Dev → Dev} {a a' : AsyncAllocator} {s : ShrregProcSlot}

theorem AsyncAllocator.Start.inv (h : a.Start s) : a.Inv cudaToNvmlMap s.used := by
  refine ⟨⟨h.pid_ne_zero, s, h.pointsAt, h.pid_eq, fun k => ?_⟩, ?_⟩
  · rw [h.untracked, trackedLength_nil]
    simp [DeviceMemory.grown]
  · rw [h.limit_zero, h.untracked]
    rfl

/-- **The ledger of stream-ordered allocations.**  For every run of `allocate_async_raw` and
`free_raw_async` whose calls meet the condition, with any sizes, devices, watermarks, driver
outcomes and answers of `proc_alive`: the bytes charged to each device are the bytes of the entries
that map to it, `limit` is the bytes of all entries, and no subtraction goes below zero.  After any
further call the books agree if and only if that call meets the condition too. -/
theorem async_ledger (hstart : a.Start s)
    (hrun : GuardedRun (AsyncAllocator.step cudaToNvmlMap)
      (fun a c => c.Regular a ∧ c.Keeps cudaToNvmlMap a) a a') :
    a'.Agrees cudaToNvmlMap s.used ∧
      (∀ dev dptr, (AsyncCall.freeRawAsync dev dptr).Keeps cudaToNvmlMap a' →
        a'.Covers cudaToNvmlMap s.used dev dptr) ∧
      ∀ (c : AsyncCall) (a'' : AsyncAllocator), c.Regular a' → a'.step cudaToNvmlMap c = some a'' →
        (a''.Agrees cudaToNvmlMap s.used ↔ c.Keeps cudaToNvmlMap a') := by
  have hinv : a'.Inv cudaToNvmlMap s.used := hrun.invariant
    (P := fun a => a.Inv cudaToNvmlMap s.used)
    (fun _ _ _ hI hok hst => hI.step hok.1 hok.2 hst) hstart.inv
  exact ⟨hinv.agrees, fun _ _ hkeeps => hinv.covers hkeeps,
    fun _ _ hreg hst => hinv.step_iff hreg hst⟩

end Runs

/-- Process `7`, registered alone, with no stream-ordered allocations. -/
def asyncRegistered : AsyncAllocator where
  info := ⟨7, ⟨fun _ => 0, fun _ => { ShrregProcSlot.blank with pid := 7 }, 1⟩, some 0⟩
  deviceAllocasync := []
  limit := 0

/-- An allocation all of whose driver calls succeed, with the given watermark. -/
def AllocAsyncEnv.succeeds (dev : Dev) (address poollimit : UInt64) : AllocAsyncEnv where
  dev := dev
  procAlive := fun _ _ => .alive
  entryOk := true
  memAllocAsync := .ok address
  deviceGetMemPool := .ok ()
  memPoolGetAttribute := .ok poollimit

theorem asyncRegistered_start : asyncRegistered.Start { ShrregProcSlot.blank with pid := 7 } :=
  ⟨⟨0, rfl, by decide, rfl⟩, rfl, by decide, rfl, rfl⟩

/-- A request of 100 bytes that pushes the watermark to 60, one the watermark covers, and a free of
the first on the device it was made on. -/
def coveredByWatermark : List AsyncCall :=
  [.allocateAsyncRaw (.succeeds 1 100 60) 100, .allocateAsyncRaw (.succeeds 1 200 60) 50,
    .freeRawAsync 1 100]

/-- `Keeps` for the calls of that run: no watermark is `0`, and there is one device. -/
def AsyncCall.keepsOnOne (a : AsyncAllocator) : AsyncCall → Bool
  | .allocateAsyncRaw env _ =>
    match env.memPoolGetAttribute with
    | .ok poollimit => poollimit != 0
    | .error _ => true
  | .freeRawAsync dev _ => a.deviceAllocasync.all fun e => e.dev = dev

theorem AsyncCall.keeps_of_keepsOnOne {a : AsyncAllocator} {c : AsyncCall}
    (h : c.keepsOnOne a = true) : c.Keeps id a := by
  cases c with
  | allocateAsyncRaw env size =>
    intro _ hzero
    rw [AsyncCall.keepsOnOne, hzero] at h
    exact absurd h (by simp)
  | freeRawAsync dev dptr =>
    intro e he
    have hdev := List.all_eq_true.mp h e (List.mem_of_find?_eq_some he)
    exact Or.inl (of_decide_eq_true hdev).symm

theorem exec_coveredByWatermark :
    (exec (AsyncAllocator.step id) (fun a c => c.keepsOnOne a) coveredByWatermark
      asyncRegistered).map (fun a => (a.deviceAllocasync, a.limit)) = some ([⟨200, 0, 1⟩], 0) := by
  decide +kernel

/-- After that run the covered request is left, with nothing charged for it. -/
theorem async_ledger_coveredByWatermark :
    ∃ a : AsyncAllocator, a.deviceAllocasync = [⟨200, 0, 1⟩] ∧ a.limit = 0 ∧
      a.Agrees id ShrregProcSlot.blank.used := by
  obtain ⟨a, hexec, ha⟩ := Option.map_eq_some_iff.mp exec_coveredByWatermark
  have hrun : GuardedRun (AsyncAllocator.step id) (fun a c => c.Regular a ∧ c.Keeps id a)
      asyncRegistered a := by
    refine GuardedRun.of_exec (fun c hc b hb => ⟨?_, AsyncCall.keeps_of_keepsOnOne hb⟩) hexec
    simp only [coveredByWatermark, List.mem_cons, List.not_mem_nil, or_false] at hc
    rcases hc with rfl | rfl | rfl <;> simp [AsyncCall.Regular, AllocAsyncEnv.succeeds]
  exact ⟨a, congrArg Prod.fst ha, congrArg Prod.snd ha, (async_ledger asyncRegistered_start hrun).1⟩

theorem exec_watermarkZero :
    (exec (AsyncAllocator.step id) (fun _ _ => true)
      [.allocateAsyncRaw (.succeeds 0 100 0) 5] asyncRegistered).map
      (fun a => (a.deviceAllocasync, a.limit)) = some ([⟨100, 5, 0⟩], 0) := by
  decide +kernel

/-- With a watermark of `0` a request of 5 bytes is recorded and not charged. -/
theorem async_ledger_broken_by_watermark_zero :
    ¬ ∀ (a a' : AsyncAllocator) (s : ShrregProcSlot), a.Start s →
      GuardedRun (AsyncAllocator.step id) (fun a c => c.Regular a) a a' → a'.Agrees id s.used := by
  intro hall
  obtain ⟨a, hexec, ha⟩ := Option.map_eq_some_iff.mp exec_watermarkZero
  have hrun : GuardedRun (AsyncAllocator.step id) (fun a c => c.Regular a) asyncRegistered a := by
    refine GuardedRun.of_exec (fun c hc b _ => ?_) hexec
    rw [List.mem_singleton.mp hc]
    simp [AsyncCall.Regular, AllocAsyncEnv.succeeds]
  obtain ⟨-, hlimit⟩ := hall _ a _ asyncRegistered_start hrun
  obtain ⟨hlist, hzero⟩ := Prod.mk.inj ha
  rw [hlist, hzero] at hlimit
  exact absurd hlimit (by decide)

end HamiCore
