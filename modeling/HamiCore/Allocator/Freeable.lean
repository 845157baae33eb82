import HamiCore.Allocator.Failure

/-!
# What was allocated can be freed

The free hooks reach the driver only through a lookup: `cuMemFree_v2` looks in
`device_overallocated` and `cuMemFreeAsync` in `device_allocasync`, and a pointer that is not found
there is not freed.  So every hook that hands out a pointer has to put it into the list its free
looks in.  `cuMemAllocFromPoolAsync` puts it into none.  `cuMemAllocManaged` and
`cuMemAllocPitch_v2` drop the return value of `add_chunk_only` and hand out a pointer that may not
have been recorded.  An `INIT_ALLOCATED_LIST_ENTRY` that fails leaves the mutex locked, and no free
gets past it.  And `cuMemRelease` looks its handle up among the pointers.

A run is a sequence of hook calls of one thread, with other processes changing the region between
and inside the calls.  `held` and `heldAsync` are the pointers the caller has been given and has not
freed.  `held_freeable`: as long as no call does any of the above, a free of whatever is held gets
to the driver, once, and returns `CUDA_SUCCESS`.
-/

namespace HamiCore

open Multiset

/-- A call of one of the memory hooks, or a move of other processes. -/
inductive MemoryCall where
  | cuMemAllocV2 (between : Interlude) (env : AddChunkEnv) (bytesize : UInt64)
  | cuMemAllocManaged (env : AllocOnlyEnv) (bytesize : UInt64)
  | cuMemAllocPitchV2 (env : AllocOnlyEnv) (widthInBytes height : UInt64)
      (elementSizeBytes : UInt32)
  | cuMemCreate (env : AllocOnlyEnv) (location : Option Dev) (size : UInt64)
  | cuMemFreeV2 (memFree : Except CudaError Unit) (dptr : UInt64)
  | cuMemRelease (release : Except CudaError Unit) (handle : UInt64)
  | cuMemAllocAsync (env : AllocAsyncEnv) (bytesize : UInt64)
  | cuMemFreeAsync (memFree : Except CudaError Unit) (dev : Dev) (dptr : UInt64)
  | cuMemAllocFromPoolAsync (driver : Except CudaError UInt64)
  | others (region : SharedRegion)

/-- A process and what its caller holds. -/
structure HeldMemory where
  mem : CudaMemory
  /-- Returned with `CUDA_SUCCESS` by `cuMemAlloc_v2`, `cuMemAllocManaged` or `cuMemAllocPitch_v2`,
  and not freed with `cuMemFree_v2`. -/
  held : Multiset UInt64
  /-- Returned with `CUDA_SUCCESS` by `cuMemAllocAsync` or `cuMemAllocFromPoolAsync`, and not freed
  with `cuMemFreeAsync`. -/
  heldAsync : Multiset UInt64

/-- The pointers held after a hook over the driver call `driver` has returned `ret`. -/
def heldAfterAlloc (ret : ℤ) (driver : Except CudaError UInt64) (held : Multiset UInt64) :
    Multiset UInt64 :=
  match driver with
  | .ok address => if ret = 0 then address ::ₘ held else held
  | .error _ => held

/-- The pointers held after a free has returned `ret`. -/
def heldAfterFree (ret : ℤ) (dptr : UInt64) (held : Multiset UInt64) : Multiset UInt64 :=
  if ret = 0 then held.erase dptr else held

namespace MemoryCall

/-- Make a call. -/
def run (cudaToNvmlMap : Dev → Dev) (m : CudaMemory) : MemoryCall → Option (ℤ × CudaMemory)
  | .cuMemAllocV2 between env bytesize => HamiCore.cuMemAllocV2 cudaToNvmlMap between env bytesize m
  | .cuMemAllocManaged env bytesize => HamiCore.cuMemAllocManaged cudaToNvmlMap env bytesize m
  | .cuMemAllocPitchV2 env widthInBytes height elementSizeBytes =>
    HamiCore.cuMemAllocPitchV2 cudaToNvmlMap env widthInBytes height elementSizeBytes m
  | .cuMemCreate env location size => HamiCore.cuMemCreate cudaToNvmlMap env location size m
  | .cuMemFreeV2 memFree dptr => HamiCore.cuMemFreeV2 cudaToNvmlMap memFree dptr m
  | .cuMemRelease release handle => HamiCore.cuMemRelease cudaToNvmlMap release handle m
  | .cuMemAllocAsync env bytesize => HamiCore.cuMemAllocAsync cudaToNvmlMap env bytesize m
  | .cuMemFreeAsync memFree dev dptr => HamiCore.cuMemFreeAsync cudaToNvmlMap memFree dev dptr m
  | .cuMemAllocFromPoolAsync driver => some (HamiCore.cuMemAllocFromPoolAsync driver m)
  | .others region => some (0, { m with info := { m.info with sharedRegion := region } })

def heldAfter (ret : ℤ) (held : Multiset UInt64) : MemoryCall → Multiset UInt64
  | .cuMemAllocV2 _ env _ => heldAfterAlloc ret env.memAlloc held
  | .cuMemAllocManaged env _ => heldAfterAlloc ret env.driver held
  | .cuMemAllocPitchV2 env _ _ _ => heldAfterAlloc ret env.driver held
  | .cuMemFreeV2 _ dptr => heldAfterFree ret dptr held
  | _ => held

def heldAsyncAfter (ret : ℤ) (held : Multiset UInt64) : MemoryCall → Multiset UInt64
  | .cuMemAllocAsync env _ => heldAfterAlloc ret env.memAllocAsync held
  | .cuMemAllocFromPoolAsync driver => heldAfterAlloc ret driver held
  | .cuMemFreeAsync _ _ dptr => heldAfterFree ret dptr held
  | _ => held

end MemoryCall

/-- The state after a call. -/
def HeldMemory.step (cudaToNvmlMap : Dev → Dev) (s : HeldMemory) (c : MemoryCall) :
    Option HeldMemory :=
  (c.run cudaToNvmlMap s.mem).map fun (ret, m) =>
    ⟨m, c.heldAfter ret s.held, c.heldAsyncAfter ret s.heldAsync⟩

/-- The addresses in a list. -/
def addresses (l : List AllocatedDeviceMemory) : Multiset UInt64 :=
  (l.map AllocatedDeviceMemory.address : List UInt64)

/-! ## Assumptions and the condition -/

/-- The driver does not allocate at the null pointer. -/
def MemoryCall.Regular : MemoryCall → Prop
  | .cuMemAllocV2 _ env _ => env.memAlloc ≠ .ok 0
  | .cuMemAllocManaged env _ => env.driver ≠ .ok 0
  | .cuMemAllocPitchV2 env _ _ _ => env.driver ≠ .ok 0
  | .cuMemAllocAsync env _ => env.memAllocAsync ≠ .ok 0
  | .cuMemAllocFromPoolAsync driver => driver ≠ .ok 0
  | _ => True

/-- The entry can be made when it is reached. -/
def AllocOnlyEnv.MakesEntry (env : AllocOnlyEnv) (dev : Dev) (size : UInt64) (info : RegionInfo) :
    Prop :=
  ∀ info₁ address info₂, oomCheck env.procAlive₁ dev size info = some (0, info₁) →
    env.driver = .ok address →
    oomCheck env.procAlive₂ dev size (env.others.move info₁) = some (0, info₂) →
    env.entryOk = true

/-- The condition.  No entry fails to be made once its check has passed; what `cuMemAllocManaged`
and `cuMemAllocPitch_v2` hand out is recorded; `cuMemAllocFromPoolAsync` does not succeed; and a
handle that the driver releases is not the number of a held pointer, unless the list has an entry
more for it. -/
def MemoryCall.Keeps (s : HeldMemory) : MemoryCall → Prop
  | .cuMemAllocV2 between env bytesize => ∀ info₁ address info₂,
      oomCheck env.procAlive₁ env.dev bytesize s.mem.info = some (0, info₁) →
      env.memAlloc = .ok address →
      oomCheck env.procAlive₂ env.dev bytesize (between.move info₁) = some (0, info₂) →
      env.entryOk = true
  | .cuMemAllocManaged env bytesize =>
    ∀ dev, env.ctxDevice = .ok dev → env.Records dev bytesize s.mem.info
  | .cuMemAllocPitchV2 env widthInBytes height elementSizeBytes =>
    ∀ dev, env.ctxDevice = .ok dev →
      env.Records dev (guessPitchBytes widthInBytes height elementSizeBytes) s.mem.info
  | .cuMemCreate env location size => ∀ id, location = some id →
      env.MakesEntry (env.ctxDevice.toOption.getD id) size s.mem.info
  | .cuMemRelease release handle => release = .ok () → handle ∈ s.held →
      s.held.count handle < (addresses s.mem.deviceOverallocated).count handle
  | .cuMemAllocFromPoolAsync driver => ∀ address, driver ≠ .ok address
  | _ => True

/-- **Everything held can be freed.**  Whatever the driver answers, the free of a held pointer calls
the driver's free for it, once, and returns `CUDA_SUCCESS`. -/
structure HeldMemory.Freeable (cudaToNvmlMap : Dev → Dev) (s : HeldMemory) : Prop where
  sync : ∀ p ∈ s.held, ∀ memFree, ∃ m, cuMemFreeV2 cudaToNvmlMap memFree p s.mem = some (0, m) ∧
    m.driverFrees = p :: s.mem.driverFrees
  async : ∀ p ∈ s.heldAsync, ∀ memFree dev, ∃ m,
    cuMemFreeAsync cudaToNvmlMap memFree dev p s.mem = some (0, m) ∧
      m.driverFrees = p :: s.mem.driverFrees

/-! ## The invariant -/

/-- The mutex is free, and what is held is tracked in the list its free looks in. -/
structure HeldMemory.Tracked (s : HeldMemory) : Prop where
  unlocked : s.mem.mutexHeld = false
  held_le : s.held ≤ addresses s.mem.deviceOverallocated
  heldAsync_le : s.heldAsync ≤ addresses s.mem.deviceAllocasync
  nonzero : 0 ∉ s.held ∧ 0 ∉ s.heldAsync

section Addresses

variable {l : List AllocatedDeviceMemory} {dptr : UInt64} {e : AllocatedDeviceMemory}

theorem addresses_append_singleton (l : List AllocatedDeviceMemory) (e : AllocatedDeviceMemory) :
    addresses (l ++ [e]) = e.address ::ₘ addresses l := by
  rw [addresses, List.map_append, ← coe_add, add_comm]
  rfl

theorem addresses_of_find (he : (l.find? fun val => val.address = dptr) = some e) :
    addresses l = dptr ::ₘ addresses (l.eraseP fun val => val.address = dptr) := by
  obtain ⟨rfl, hperm⟩ := perm_cons_eraseP he
  exact coe_eq_coe.mpr (hperm.map AllocatedDeviceMemory.address)

theorem not_mem_addresses_of_find (he : (l.find? fun val => val.address = dptr) = none) :
    dptr ∉ addresses l := by
  intro hmem
  obtain ⟨e, hel, haddr⟩ := List.mem_map.mp (mem_coe.mp hmem)
  have hne := List.find?_eq_none.mp he e hel
  simp [haddr] at hne

/-- A pointer that is tracked is found. -/
theorem find_of_mem_addresses (h : dptr ∈ addresses l) :
    ∃ e, (l.find? fun val => val.address = dptr) = some e := by
  cases he : l.find? fun val => val.address = dptr with
  | some e => exact ⟨e, rfl⟩
  | none => exact absurd h (not_mem_addresses_of_find he)

end Addresses

/-- The invariant is enough. -/
theorem HeldMemory.Tracked.freeable {s : HeldMemory} (h : s.Tracked) (cudaToNvmlMap : Dev → Dev) :
    s.Freeable cudaToNvmlMap where
  sync p hp memFree := by
    obtain ⟨e, he⟩ := find_of_mem_addresses (mem_of_le h.held_le hp)
    have h0 : p ≠ 0 := fun hzero => h.nonzero.1 (hzero ▸ hp)
    exact ⟨_, cuMemFreeV2_of_tracked memFree h.unlocked h0 he, rfl⟩
  async p hp memFree dev := by
    obtain ⟨e, he⟩ := find_of_mem_addresses (mem_of_le h.heldAsync_le hp)
    have h0 : p ≠ 0 := fun hzero => h.nonzero.2 (hzero ▸ hp)
    exact ⟨_, cuMemFreeAsync_of_tracked memFree dev h.unlocked h0 he, rfl⟩

/-! ## What a call keeps -/

theorem heldAfterAlloc_of_ne {ret : ℤ} (h : ret ≠ 0) (driver : Except CudaError UInt64)
    (held : Multiset UInt64) : heldAfterAlloc ret driver held = held := by
  cases driver with
  | error res => rfl
  | ok address => exact if_neg h

theorem heldAfterAlloc_zero {driver : Except CudaError UInt64} {address : UInt64}
    (h : driver = .ok address) (held : Multiset UInt64) :
    heldAfterAlloc 0 driver held = address ::ₘ held := by
  rw [h]
  rfl

section HeldLe

variable {l : List AllocatedDeviceMemory} {held : Multiset UInt64} {dptr : UInt64}
  {e : AllocatedDeviceMemory}

theorem le_addresses_append (h : held ≤ addresses l) (e : AllocatedDeviceMemory) :
    held ≤ addresses (l ++ [e]) := by
  rw [addresses_append_singleton]
  exact h.trans (le_cons_self _ _)

theorem cons_le_addresses_append (h : held ≤ addresses l) (e : AllocatedDeviceMemory) :
    e.address ::ₘ held ≤ addresses (l ++ [e]) := by
  rw [addresses_append_singleton]
  exact cons_le_cons _ h

theorem erase_le_addresses_eraseP (h : held ≤ addresses l)
    (he : (l.find? fun val => val.address = dptr) = some e) :
    held.erase dptr ≤ addresses (l.eraseP fun val => val.address = dptr) := by
  rw [addresses_of_find he] at h
  have herase := erase_le_erase dptr h
  rwa [erase_cons_head] at herase

/-- An entry more than is held can go. -/
theorem le_addresses_eraseP (h : held ≤ addresses l)
    (he : (l.find? fun val => val.address = dptr) = some e)
    (hmore : dptr ∈ held → held.count dptr < (addresses l).count dptr) :
    held ≤ addresses (l.eraseP fun val => val.address = dptr) := by
  rw [addresses_of_find he] at h hmore
  refine le_iff_count.mpr fun p => ?_
  have hcount := le_iff_count.mp h p
  by_cases hp : p = dptr
  · subst hp
    by_cases hheld : p ∈ held
    · have hlt := hmore hheld
      rw [count_cons_self] at hlt
      omega
    · rw [count_eq_zero_of_notMem hheld]
      exact Nat.zero_le _
  · rwa [count_cons_of_ne hp] at hcount

theorem zero_notMem_cons {address : UInt64} (h : 0 ∉ held) (h0 : address ≠ 0) :
    0 ∉ address ::ₘ held := by
  rw [mem_cons, not_or]
  exact ⟨Ne.symm h0, h⟩

end HeldLe

namespace HeldMemory.Tracked

variable {cudaToNvmlMap : Dev → Dev} {s : HeldMemory} {m : CudaMemory} {ret : ℤ}

/-- A call that changes neither list nor the mutex. -/
theorem keep (h : s.Tracked) (hmutex : m.mutexHeld = s.mem.mutexHeld)
    (hlist : m.deviceOverallocated = s.mem.deviceOverallocated)
    (hasync : m.deviceAllocasync = s.mem.deviceAllocasync) :
    Tracked ⟨m, s.held, s.heldAsync⟩ :=
  ⟨hmutex.trans h.unlocked, hlist ▸ h.held_le, hasync ▸ h.heldAsync_le, h.nonzero⟩

/-- A pointer is handed out and recorded. -/
theorem add (h : s.Tracked) {e : AllocatedDeviceMemory} (h0 : e.address ≠ 0)
    (hmutex : m.mutexHeld = false)
    (hlist : m.deviceOverallocated = s.mem.deviceOverallocated ++ [e])
    (hasync : m.deviceAllocasync = s.mem.deviceAllocasync) :
    Tracked ⟨m, e.address ::ₘ s.held, s.heldAsync⟩ :=
  ⟨hmutex, hlist ▸ cons_le_addresses_append h.held_le e, hasync ▸ h.heldAsync_le,
    zero_notMem_cons h.nonzero.1 h0, h.nonzero.2⟩

theorem cuMemAllocV2 (h : s.Tracked) {between : Interlude} {env : AddChunkEnv} {bytesize : UInt64}
    (hreg : (MemoryCall.cuMemAllocV2 between env bytesize).Regular)
    (hkeeps : (MemoryCall.cuMemAllocV2 between env bytesize).Keeps s)
    (hcall : HamiCore.cuMemAllocV2 cudaToNvmlMap between env bytesize s.mem = some (ret, m)) :
    Tracked ⟨m, heldAfterAlloc ret env.memAlloc s.held, s.heldAsync⟩ := by
  cases (addChunk_eq_some_iff h.unlocked).mp hcall with
  | refused hcheck hoom =>
    rw [heldAfterAlloc_of_ne (by decide)]
    exact h.keep rfl rfl rfl
  | @notAllocated info res hcheck halloc =>
    rw [heldAfterAlloc_of_ne res.2]
    exact h.keep rfl rfl rfl
  | rolledBack hcheck halloc hcheck₂ hoom =>
    rw [heldAfterAlloc_of_ne (by decide)]
    exact h.keep h.unlocked.symm rfl rfl
  | recorded hcheck halloc hcheck₂ hentry =>
    rw [heldAfterAlloc_zero halloc]
    refine h.add (e := ⟨_, bytesize, env.dev⟩) (fun hzero => hreg ?_) rfl rfl rfl
    rw [halloc]
    exact congrArg Except.ok hzero
  | abandoned hcheck halloc hcheck₂ hentry =>
    rw [hkeeps _ _ _ hcheck halloc hcheck₂] at hentry
    exact absurd hentry (by decide)

/-- `cuMemAllocManaged` and `cuMemAllocPitch_v2`, on the device of the context. -/
theorem allocOnly (h : s.Tracked) {env : AllocOnlyEnv} {dev : Dev} {size : UInt64}
    (hreg : env.driver ≠ .ok 0) (hrec : env.Records dev size s.mem.info)
    (hcall : HamiCore.allocOnly cudaToNvmlMap env dev size s.mem = some (ret, m)) :
    Tracked ⟨m, heldAfterAlloc ret env.driver s.held, s.heldAsync⟩ := by
  cases allocOnly_exit hcall with
  | refused hcheck hoom =>
    rw [heldAfterAlloc_of_ne (by decide)]
    exact h.keep rfl rfl rfl
  | @notAllocated info res hcheck halloc =>
    rw [heldAfterAlloc_of_ne res.2]
    exact h.keep rfl rfl rfl
  | unrecorded hcheck halloc hcheck₂ hoom =>
    exact absurd (hrec _ _ _ _ hcheck halloc hcheck₂).1 hoom
  | recorded hcheck halloc hcheck₂ hentry =>
    rw [heldAfterAlloc_zero halloc]
    refine h.add (e := ⟨_, size, dev⟩) (fun hzero => hreg ?_) rfl rfl rfl
    rw [halloc]
    exact congrArg Except.ok hzero
  | abandoned hcheck halloc hcheck₂ hentry =>
    rw [(hrec _ _ _ _ hcheck halloc hcheck₂).2] at hentry
    exact absurd hentry (by decide)

/-- `cuMemCreate` of a device location: a handle is recorded, or not. -/
theorem createOnly (h : s.Tracked) {env : AllocOnlyEnv} {dev : Dev} {size : UInt64}
    (hentry : env.MakesEntry dev size s.mem.info)
    (hcall : HamiCore.allocOnly cudaToNvmlMap env dev size s.mem = some (ret, m)) :
    Tracked ⟨m, s.held, s.heldAsync⟩ := by
  cases allocOnly_exit hcall with
  | refused hcheck hoom => exact h.keep rfl rfl rfl
  | notAllocated hcheck halloc => exact h.keep rfl rfl rfl
  | unrecorded hcheck halloc hcheck₂ hoom => exact h.keep h.unlocked.symm rfl rfl
  | recorded hcheck halloc hcheck₂ _ =>
    exact ⟨rfl, le_addresses_append h.held_le _, h.heldAsync_le, h.nonzero⟩
  | abandoned hcheck halloc hcheck₂ hfail =>
    rw [hentry _ _ _ hcheck halloc hcheck₂] at hfail
    exact absurd hfail (by decide)

theorem cuMemFreeV2 (h : s.Tracked) {memFree : Except CudaError Unit} {dptr : UInt64}
    (hcall : HamiCore.cuMemFreeV2 cudaToNvmlMap memFree dptr s.mem = some (ret, m)) :
    Tracked ⟨m, heldAfterFree ret dptr s.held, s.heldAsync⟩ := by
  by_cases h0 : dptr = 0
  · rw [HamiCore.cuMemFreeV2, if_pos h0] at hcall
    cases hcall
    rw [heldAfterFree, if_pos rfl, h0, erase_of_notMem h.nonzero.1]
    exact h
  · cases he : s.mem.deviceOverallocated.find? fun val => val.address = dptr with
    | some e =>
      rw [cuMemFreeV2_of_tracked memFree h.unlocked h0 he] at hcall
      cases hcall
      exact ⟨rfl, erase_le_addresses_eraseP h.held_le he, h.heldAsync_le,
        fun hmem => h.nonzero.1 (mem_of_mem_erase hmem), h.nonzero.2⟩
    | none =>
      rw [cuMemFreeV2_of_untracked memFree h.unlocked h0 he] at hcall
      cases hcall
      exact h.keep rfl rfl rfl

theorem cuMemFreeAsync (h : s.Tracked) {memFree : Except CudaError Unit} {dev : Dev}
    {dptr : UInt64}
    (hcall : HamiCore.cuMemFreeAsync cudaToNvmlMap memFree dev dptr s.mem = some (ret, m)) :
    Tracked ⟨m, s.held, heldAfterFree ret dptr s.heldAsync⟩ := by
  by_cases h0 : dptr = 0
  · rw [HamiCore.cuMemFreeAsync, if_pos h0] at hcall
    cases hcall
    rw [heldAfterFree, if_pos rfl, h0, erase_of_notMem h.nonzero.2]
    exact h
  · cases he : s.mem.deviceAllocasync.find? fun val => val.address = dptr with
    | some e =>
      rw [cuMemFreeAsync_of_tracked memFree dev h.unlocked h0 he] at hcall
      cases hcall
      exact ⟨rfl, h.held_le, erase_le_addresses_eraseP h.heldAsync_le he, h.nonzero.1,
        fun hmem => h.nonzero.2 (mem_of_mem_erase hmem)⟩
    | none =>
      rw [cuMemFreeAsync_of_untracked memFree dev h.unlocked h0 he] at hcall
      cases hcall
      exact h.keep rfl rfl rfl

theorem cuMemRelease (h : s.Tracked) {release : Except CudaError Unit} {handle : UInt64}
    (hkeeps : (MemoryCall.cuMemRelease release handle).Keeps s)
    (hcall : HamiCore.cuMemRelease cudaToNvmlMap release handle s.mem = some (ret, m)) :
    Tracked ⟨m, s.held, s.heldAsync⟩ := by
  cases release with
  | error res =>
    cases hcall
    exact h
  | ok _ =>
    obtain ⟨⟨ret₁, m₁⟩, honly, hout⟩ := Option.map_eq_some_iff.mp hcall
    cases hout
    obtain ⟨⟨ret₂, a⟩, hchunk, hout⟩ := Option.map_eq_some_iff.mp honly
    cases hout
    obtain ⟨hfreed, hmutex⟩ := removeChunkOnly_freed hchunk
    refine ⟨hmutex h.unlocked, ?_, h.heldAsync_le, h.nonzero⟩
    rcases hfreed with ⟨-, hbooks⟩ | ⟨e, he, hbooks⟩
    · have hlist : a.deviceOverallocated = s.mem.deviceOverallocated := congrArg Prod.snd hbooks
      exact hlist ▸ h.held_le
    · have hlist : a.deviceOverallocated =
          s.mem.deviceOverallocated.eraseP fun val => val.address = handle :=
        congrArg Prod.snd hbooks
      exact hlist ▸ le_addresses_eraseP h.held_le he (hkeeps rfl)

theorem cuMemAllocAsync (h : s.Tracked) {env : AllocAsyncEnv} {bytesize : UInt64}
    (hreg : (MemoryCall.cuMemAllocAsync env bytesize).Regular)
    (hcall : HamiCore.cuMemAllocAsync cudaToNvmlMap env bytesize s.mem = some (ret, m)) :
    Tracked ⟨m, s.held, heldAfterAlloc ret env.memAllocAsync s.heldAsync⟩ := by
  obtain ⟨m₁, rfl, hexit⟩ := allocateAsyncRaw_exit hcall
  cases hexit with
  | notAllocated _ hne _ =>
    rw [heldAfterAlloc_of_ne hne]
    exact h.keep h.unlocked.symm rfl rfl
  | leaked _ hne _ _ _ =>
    rw [heldAfterAlloc_of_ne hne]
    exact h.keep h.unlocked.symm rfl rfl
  | @recorded _ e _ halloc hlist hother =>
    rw [heldAfterAlloc_zero halloc]
    have h0 : e.address ≠ 0 := fun hzero => hreg (by rw [halloc, hzero])
    have hlist' : m₁.unlock.deviceAllocasync = s.mem.deviceAllocasync ++ [e] := hlist
    have hother' : m₁.unlock.deviceOverallocated = s.mem.deviceOverallocated := hother
    exact ⟨rfl, hother' ▸ h.held_le, hlist' ▸ cons_le_addresses_append h.heldAsync_le e,
      h.nonzero.1, zero_notMem_cons h.nonzero.2 h0⟩

/-- **One call.** -/
theorem step (h : s.Tracked) {c : MemoryCall} {t : HeldMemory} (hreg : c.Regular)
    (hkeeps : c.Keeps s) (hst : s.step cudaToNvmlMap c = some t) : t.Tracked := by
  obtain ⟨⟨ret, m⟩, hcall, rfl⟩ := Option.map_eq_some_iff.mp hst
  cases c with
  | cuMemAllocV2 between env bytesize => exact h.cuMemAllocV2 hreg hkeeps hcall
  | cuMemAllocManaged env bytesize =>
    simp only [MemoryCall.run, HamiCore.cuMemAllocManaged] at hcall
    split at hcall
    · next res _ =>
      cases hcall
      dsimp only [MemoryCall.heldAfter]
      rw [heldAfterAlloc_of_ne res.2]
      exact h.keep rfl rfl rfl
    · next dev hdev => exact h.allocOnly hreg (hkeeps dev hdev) hcall
  | cuMemAllocPitchV2 env widthInBytes height elementSizeBytes =>
    simp only [MemoryCall.run, HamiCore.cuMemAllocPitchV2] at hcall
    obtain ⟨-, hcall⟩ := Option.ite_none_left_eq_some.mp hcall
    split at hcall
    · next res _ =>
      cases hcall
      dsimp only [MemoryCall.heldAfter]
      rw [heldAfterAlloc_of_ne res.2]
      exact h.keep rfl rfl rfl
    · next dev hdev => exact h.allocOnly hreg (hkeeps dev hdev) hcall
  | cuMemCreate env location size =>
    simp only [MemoryCall.run, HamiCore.cuMemCreate] at hcall
    split at hcall
    · next id =>
      have hentry := hkeeps id rfl
      split at hcall
      · next dev hdev =>
        rw [hdev] at hentry
        exact h.createOnly hentry hcall
      · next res hdev =>
        rw [hdev] at hentry
        exact h.createOnly hentry hcall
    · split at hcall
      · cases hcall
        exact h.keep rfl rfl rfl
      · cases hcall
        exact h.keep rfl rfl rfl
  | cuMemFreeV2 memFree dptr => exact h.cuMemFreeV2 hcall
  | cuMemRelease release handle => exact h.cuMemRelease hkeeps hcall
  | cuMemAllocAsync env bytesize => exact h.cuMemAllocAsync hreg hcall
  | cuMemFreeAsync memFree dev dptr => exact h.cuMemFreeAsync hcall
  | cuMemAllocFromPoolAsync driver =>
    cases driver with
    | error res =>
      cases hcall
      exact h
    | ok address => exact absurd rfl (hkeeps address)
  | others region =>
    cases hcall
    exact h.keep rfl rfl rfl

end HeldMemory.Tracked

/-- A process that holds nothing and whose mutex is free.  Its lists may have entries. -/
structure HeldMemory.Fresh (s : HeldMemory) : Prop where
  unlocked : s.mem.mutexHeld = false
  held_eq : s.held = 0
  heldAsync_eq : s.heldAsync = 0

theorem HeldMemory.Fresh.tracked {s : HeldMemory} (h : s.Fresh) : s.Tracked where
  unlocked := h.unlocked
  held_le := h.held_eq ▸ Multiset.zero_le _
  heldAsync_le := h.heldAsync_eq ▸ Multiset.zero_le _
  nonzero := by simp [h.held_eq, h.heldAsync_eq]

/-- **What was allocated can be freed.**  Along every run of hook calls that all keep the condition,
a free of any pointer that is held calls the driver's free for it exactly once and returns
`CUDA_SUCCESS`. -/
theorem held_freeable (cudaToNvmlMap : Dev → Dev) {s t : HeldMemory} (h : s.Fresh)
    (hrun : GuardedRun (HeldMemory.step cudaToNvmlMap) (fun u c => c.Regular ∧ c.Keeps u) s t) :
    t.Freeable cudaToNvmlMap := by
  have htracked : t.Tracked := hrun.invariant (P := HeldMemory.Tracked)
    (fun _ _ _ hu hok hst => hu.step hok.1 hok.2 hst) h.tracked
  exact htracked.freeable cudaToNvmlMap

/-- A process alone in a region without limits, before its first allocation. -/
def holdsNothing : HeldMemory := ⟨aloneUnlimited, 0, 0⟩

/-- A pointer out of a pool is held, but its free does not reach the driver. -/
theorem pool_pointer_not_freeable :
    ∃ t, GuardedRun (HeldMemory.step id) (fun _ c => c.Regular) holdsNothing t ∧
      4096 ∈ t.heldAsync ∧
      cuMemFreeAsync id (.ok ()) 0 4096 t.mem = some (-1, t.mem) ∧ t.mem.driverFrees = [] := by
  refine ⟨⟨aloneUnlimited.driverAlloc 4096, 0, {4096}⟩, ?_, by simp, rfl, rfl⟩
  refine GuardedRun.head (a := .cuMemAllocFromPoolAsync (.ok 4096)) ?_ rfl (GuardedRun.refl _)
  simp [MemoryCall.Regular]

/-- The state after the allocation of `allocatesAt4096`. -/
def holds4096 : HeldMemory where
  mem := { aloneUnlimited with
    info := (addGpuDeviceMemoryUsage id aloneUnlimited.info 1 0 64 2).1
    deviceOverallocated := [⟨4096, 64, 0⟩]
    driverLive := [4096] }
  held := {4096}
  heldAsync := 0

theorem held_freeable_holds4096 :
    holdsNothing.Fresh ∧ 4096 ∈ holds4096.held ∧ holds4096.Freeable id := by
  have hfresh : holdsNothing.Fresh := ⟨rfl, rfl, rfl⟩
  refine ⟨hfresh, by simp [holds4096], held_freeable id hfresh ?_⟩
  refine GuardedRun.head (a := .cuMemAllocV2 .quiet (allocatesAt4096 true) 64) ⟨?_, ?_⟩ rfl
    (GuardedRun.refl _)
  · simp [MemoryCall.Regular, allocatesAt4096]
  · exact fun _ _ _ _ _ _ => rfl

end HamiCore
