import HamiCore.Allocator.CudaMemory
import HamiCore.Allocator.OomExact

/-!
# Calls that fail

An allocation that fails should leave nothing behind, and a free that fails should leave everything
in place.  Whether the hooks do so depends on where the failure comes from.

* `add_chunk` can fail in five places.  A refused check and a driver that does not allocate leave
  nothing behind.  When the second check refuses, the memory is given back, and it is gone if the
  driver takes it.  But `INIT_ALLOCATED_LIST_ENTRY` returns from the middle of the locked section:
  the memory is lost and the mutex stays locked (`allocateRaw_clean_iff`).
* `add_chunk_async` asks the driver two more things after the memory exists, and returns on a
  failure of either without giving the memory back (`allocateAsyncRaw_clean_iff`).
* `remove_chunk` and `remove_chunk_async` do not look at what the driver's free returns: the entry
  and the charge are gone and the hook reports success, whatever the driver said.  `cuMemRelease`
  next to them calls the driver first (`free_settled_iff`).
-/

namespace HamiCore

/-- The caller is registered, at the slot `s`. -/
structure CudaMemory.Registered (m : CudaMemory) (s : ShrregProcSlot) : Prop where
  pointsAt : m.info.PointsAt s
  pid_eq : s.pid = m.info.pid
  pid_ne_zero : m.info.pid ≠ 0

/-- A check by a caller that is not reported dead leaves the caller's slot as it is. -/
theorem oomCheck_pointsAt {procAlive : ℕ → Pid → ProcState} {dev : Dev} {size : UInt64}
    {info : RegionInfo} {s : ShrregProcSlot} {out : ℤ × RegionInfo}
    (h : oomCheck procAlive dev size info = some out) (hs : info.PointsAt s)
    (hpid : s.pid = info.pid) (h0 : info.pid ≠ 0)
    (hself : ∀ n, procAlive n info.pid ≠ .nonalive) :
    out.2.PointsAt s ∧ out.2.pid = info.pid := by
  have hcomp := (oomCheck_spec h).1.selfCompacts hself
  exact ⟨hcomp.pointsAt hpid h0 hs, hcomp.pid_eq⟩

/-! ## `allocate_raw` -/

/-- The five ways out of `add_chunk`, entered with the mutex free. -/
inductive AddChunkExit (cudaToNvmlMap : Dev → Dev) (others : Interlude) (env : AddChunkEnv)
    (size : UInt64) (m : CudaMemory) : ℤ → CudaMemory → Prop where
  | refused {oom : ℤ} {info : RegionInfo}
      (hcheck : oomCheck env.procAlive₁ env.dev size m.info = some (oom, info)) (hoom : oom ≠ 0) :
      AddChunkExit cudaToNvmlMap others env size m cudaErrorOutOfMemory { m with info := info }
  | notAllocated {info : RegionInfo} {res : CudaError}
      (hcheck : oomCheck env.procAlive₁ env.dev size m.info = some (0, info))
      (halloc : env.memAlloc = .error res) :
      AddChunkExit cudaToNvmlMap others env size m res { m with info := info }
  | rolledBack {info₁ info₂ : RegionInfo} {address : UInt64} {oom : ℤ}
      (hcheck : oomCheck env.procAlive₁ env.dev size m.info = some (0, info₁))
      (halloc : env.memAlloc = .ok address)
      (hcheck₂ : oomCheck env.procAlive₂ env.dev size (others.move info₁) = some (oom, info₂))
      (hoom : oom ≠ 0) :
      AddChunkExit cudaToNvmlMap others env size m cudaErrorOutOfMemory
        (CudaMemory.driverFree { m with
          info := info₂
          driverLive := address :: m.driverLive
          mutexHeld := false } env.memFree address)
  | recorded {info₁ info₂ : RegionInfo} {address : UInt64}
      (hcheck : oomCheck env.procAlive₁ env.dev size m.info = some (0, info₁))
      (halloc : env.memAlloc = .ok address)
      (hcheck₂ : oomCheck env.procAlive₂ env.dev size (others.move info₁) = some (0, info₂))
      (hentry : env.entryOk = true) :
      AddChunkExit cudaToNvmlMap others env size m 0 { m with
        info := (addGpuDeviceMemoryUsage cudaToNvmlMap info₂ info₂.pid env.dev size 2).1
        deviceOverallocated := m.deviceOverallocated ++ [⟨address, size, env.dev⟩]
        driverLive := address :: m.driverLive
        mutexHeld := false }
  | abandoned {info₁ info₂ : RegionInfo} {address : UInt64}
      (hcheck : oomCheck env.procAlive₁ env.dev size m.info = some (0, info₁))
      (halloc : env.memAlloc = .ok address)
      (hcheck₂ : oomCheck env.procAlive₂ env.dev size (others.move info₁) = some (0, info₂))
      (hentry : env.entryOk = false) :
      AddChunkExit cudaToNvmlMap others env size m (-1) { m with
        info := info₂
        driverLive := address :: m.driverLive
        mutexHeld := true }

section AllocateRaw

variable {cudaToNvmlMap : Dev → Dev} {others : Interlude} {env : AddChunkEnv} {size : UInt64}
  {m m' : CudaMemory} {ret : ℤ} {s : ShrregProcSlot}

/-- The section under the mutex. -/
theorem addChunk_of_allocated (hfree : m.mutexHeld = false) {info₁ info₂ : RegionInfo}
    {address : UInt64} {oom : ℤ}
    (hcheck : oomCheck env.procAlive₁ env.dev size m.info = some (0, info₁))
    (halloc : env.memAlloc = .ok address)
    (hcheck₂ : oomCheck env.procAlive₂ env.dev size (others.move info₁) = some (oom, info₂)) :
    CudaMemory.addChunk cudaToNvmlMap others env size m =
      if oom ≠ 0 then
        some (cudaErrorOutOfMemory, CudaMemory.driverFree { m with
          info := info₂
          driverLive := address :: m.driverLive
          mutexHeld := false } env.memFree address)
      else if env.entryOk then
        some (0, { m with
          info := (addGpuDeviceMemoryUsage cudaToNvmlMap info₂ info₂.pid env.dev size 2).1
          deviceOverallocated := m.deviceOverallocated ++ [⟨address, size, env.dev⟩]
          driverLive := address :: m.driverLive
          mutexHeld := false })
      else some (-1, { m with
        info := info₂
        driverLive := address :: m.driverLive
        mutexHeld := true }) := by
  have hlock : (CudaMemory.driverAlloc { m with info := others.move info₁ } address).lock =
      some { m with
        info := others.move info₁
        driverLive := address :: m.driverLive
        mutexHeld := true } :=
    CudaMemory.lock_of_free hfree
  unfold CudaMemory.addChunk
  rw [hcheck, Option.bind_some]
  dsimp only
  rw [if_neg (not_not.mpr rfl), halloc]
  dsimp only
  rw [hlock, Option.bind_some, hcheck₂, Option.bind_some]
  rfl

/-- **Reading a call of `add_chunk`.** -/
theorem addChunk_eq_some_iff (hfree : m.mutexHeld = false) :
    CudaMemory.addChunk cudaToNvmlMap others env size m = some (ret, m') ↔
      AddChunkExit cudaToNvmlMap others env size m ret m' := by
  constructor
  · intro h
    have hcall := h
    obtain ⟨⟨oom₁, info₁⟩, hcheck, h⟩ := Option.bind_eq_some_iff.mp h
    dsimp only at h
    by_cases hoom₁ : oom₁ ≠ 0
    · rw [if_pos hoom₁] at h
      cases h
      exact .refused hcheck hoom₁
    · rw [if_neg hoom₁] at h
      obtain rfl : oom₁ = 0 := not_not.mp hoom₁
      split at h
      · next res halloc =>
        cases h
        exact .notAllocated hcheck halloc
      · next address halloc =>
        obtain ⟨m₂, hlock, h⟩ := Option.bind_eq_some_iff.mp h
        obtain ⟨⟨oom₂, info₂⟩, hcheck₂, -⟩ := Option.bind_eq_some_iff.mp h
        obtain ⟨-, hlock⟩ := Option.ite_none_left_eq_some.mp hlock
        cases hlock
        rw [addChunk_of_allocated hfree hcheck halloc hcheck₂] at hcall
        split_ifs at hcall with hoom₂ hentry
        · cases hcall
          exact .rolledBack hcheck halloc hcheck₂ hoom₂
        · cases hcall
          obtain rfl : oom₂ = 0 := not_not.mp hoom₂
          exact .recorded hcheck halloc hcheck₂ hentry
        · cases hcall
          obtain rfl : oom₂ = 0 := not_not.mp hoom₂
          exact .abandoned hcheck halloc hcheck₂ (Bool.not_eq_true _ ▸ hentry)
  · intro h
    cases h with
    | refused hcheck hoom =>
      rw [CudaMemory.addChunk, hcheck, Option.bind_some]
      exact if_pos hoom
    | notAllocated hcheck halloc =>
      rw [CudaMemory.addChunk, hcheck, Option.bind_some]
      dsimp only
      rw [if_neg (not_not.mpr rfl), halloc]
    | rolledBack hcheck halloc hcheck₂ hoom =>
      rw [addChunk_of_allocated hfree hcheck halloc hcheck₂, if_pos hoom]
    | recorded hcheck halloc hcheck₂ hentry =>
      rw [addChunk_of_allocated hfree hcheck halloc hcheck₂, if_neg (not_not.mpr rfl),
        if_pos hentry]
    | abandoned hcheck halloc hcheck₂ hentry =>
      rw [addChunk_of_allocated hfree hcheck halloc hcheck₂, if_neg (not_not.mpr rfl), hentry]
      rfl

/-- With no writer inside its seqlock section, `add_chunk` returns. -/
theorem addChunk_ne_none (hfree : m.mutexHeld = false)
    (heven : m.info.sharedRegion.SeqlocksEven) :
    ∃ out, CudaMemory.addChunk cudaToNvmlMap others env size m = some out := by
  obtain ⟨⟨oom₁, info₁⟩, hcheck⟩ := oomCheck_ne_none env.procAlive₁ env.dev size heven
  by_cases hoom₁ : oom₁ = 0
  · subst hoom₁
    cases halloc : env.memAlloc with
    | error res => exact ⟨_, (addChunk_eq_some_iff hfree).mpr (.notAllocated hcheck halloc)⟩
    | ok address =>
      have heven₁ : info₁.sharedRegion.SeqlocksEven := (oomCheck_spec hcheck).1.seqlocksEven heven
      obtain ⟨⟨oom₂, info₂⟩, hcheck₂⟩ :=
        oomCheck_ne_none env.procAlive₂ env.dev size (others.seqlocksEven info₁ heven₁)
      rw [addChunk_of_allocated hfree hcheck halloc hcheck₂]
      split_ifs
      · exact ⟨_, rfl⟩
      · exact ⟨_, rfl⟩
      · exact ⟨_, rfl⟩
  · exact ⟨_, (addChunk_eq_some_iff hfree).mpr (.refused hcheck hoom₁)⟩

/-- The region after the checks of a call, and nothing of the caller's besides. -/
def AddChunkEnv.OnlyChecked (env : AddChunkEnv) (others : Interlude) (info info' : RegionInfo) :
    Prop :=
  ∃ info₁, Compacts env.procAlive₁ info info₁ ∧
    (info' = info₁ ∨ Compacts env.procAlive₂ (others.move info₁) info')

/-- What a call of `allocate_raw` should leave.  The mutex is free; and either the call returns `0`,
the address is tracked and its size charged, or it returns something else and the list, the
caller's counters and the driver's memory are as before. -/
def AddChunkEnv.Clean (cudaToNvmlMap : Dev → Dev) (env : AddChunkEnv) (others : Interlude)
    (size : UInt64) (s : ShrregProcSlot) (m : CudaMemory) (ret : ℤ) (m' : CudaMemory) : Prop :=
  m'.mutexHeld = false ∧
    ((ret = 0 ∧ ∃ address, env.memAlloc = .ok address ∧
        m'.deviceOverallocated = m.deviceOverallocated ++ [⟨address, size, env.dev⟩] ∧
        m'.info.PointsAt (s.update (· + ·) (cudaToNvmlMap env.dev) size 2)) ∨
      (ret ≠ 0 ∧ m'.deviceOverallocated = m.deviceOverallocated ∧ m'.info.PointsAt s ∧
        env.OnlyChecked others m.info m'.info ∧ m'.driverLive = m.driverLive))

/-- The condition.  Once the driver has allocated, a second check that passes is followed by an
entry that can be made, and one that refuses by a free that succeeds. -/
def AddChunkEnv.Undoes (env : AddChunkEnv) (others : Interlude) (size : UInt64)
    (info : RegionInfo) : Prop :=
  ∀ info₁ address oom info₂, oomCheck env.procAlive₁ env.dev size info = some (0, info₁) →
    env.memAlloc = .ok address →
    oomCheck env.procAlive₂ env.dev size (others.move info₁) = some (oom, info₂) →
    (oom = 0 → env.entryOk = true) ∧ (oom ≠ 0 → env.memFree = true)

/-- **A failed `cuMemAlloc_v2`.**  Whatever the checks, the driver and the C library answer,
`allocate_raw` returns, and it leaves nothing behind on failure if and only if the entry can be made
whenever it is reached, and the driver takes the memory back whenever that is tried. -/
theorem allocateRaw_clean_iff (cudaToNvmlMap : Dev → Dev) (others : Interlude) (env : AddChunkEnv)
    (size : UInt64) (hreg : m.Registered s) (hfree : m.mutexHeld = false)
    (hself : ∀ n, env.procAlive₁ n m.info.pid ≠ .nonalive ∧
      env.procAlive₂ n m.info.pid ≠ .nonalive) :
    (m.info.sharedRegion.SeqlocksEven →
        ∃ out, CudaMemory.allocateRaw cudaToNvmlMap others env size m = some out) ∧
      ((∀ ret m', CudaMemory.allocateRaw cudaToNvmlMap others env size m = some (ret, m') →
          env.Clean cudaToNvmlMap others size s m ret m') ↔
        env.Undoes others size m.info) := by
  refine ⟨fun heven => addChunk_ne_none hfree heven, ?_, ?_⟩
  · intro hclean info₁ address oom info₂ hcheck halloc hcheck₂
    constructor
    · rintro rfl
      by_contra hentry
      have hout := hclean _ _ ((addChunk_eq_some_iff hfree).mpr
        (.abandoned hcheck halloc hcheck₂ (Bool.not_eq_true _ ▸ hentry)))
      exact absurd hout.1 (by simp)
    · intro hoom
      by_contra hkept
      obtain ⟨-, ⟨hzero, -⟩ | ⟨-, -, -, -, hlive⟩⟩ := hclean _ _
        ((addChunk_eq_some_iff hfree).mpr (.rolledBack hcheck halloc hcheck₂ hoom))
      · exact absurd hzero (by decide)
      · rw [Bool.not_eq_true] at hkept
        simp [CudaMemory.driverFree, hkept] at hlive
  · intro hundo ret m' hcall
    have hslot := fun {info oom} (h : oomCheck env.procAlive₁ env.dev size m.info =
        some (oom, info)) =>
      oomCheck_pointsAt h hreg.pointsAt hreg.pid_eq hreg.pid_ne_zero fun n => (hself n).1
    have hslot₂ := fun {info₁ info₂ oom} (h : oomCheck env.procAlive₁ env.dev size m.info =
        some (0, info₁)) (h₂ : oomCheck env.procAlive₂ env.dev size (others.move info₁) =
          some (oom, info₂)) => by
      have hpid : (others.move info₁).pid = m.info.pid := (others.pid_eq _).trans (hslot h).2
      exact oomCheck_pointsAt h₂ (others.pointsAt _ _ (hslot h).1) (hreg.pid_eq.trans hpid.symm)
        (hpid ▸ hreg.pid_ne_zero) fun n => hpid ▸ (hself n).2
    cases (addChunk_eq_some_iff hfree).mp hcall with
    | refused hcheck hoom =>
      exact ⟨hfree, Or.inr ⟨by decide, rfl, (hslot hcheck).1,
        ⟨_, (oomCheck_spec hcheck).1, Or.inl rfl⟩, rfl⟩⟩
    | @notAllocated info res hcheck halloc =>
      exact ⟨hfree, Or.inr ⟨res.2, rfl, (hslot hcheck).1,
        ⟨_, (oomCheck_spec hcheck).1, Or.inl rfl⟩, rfl⟩⟩
    | rolledBack hcheck halloc hcheck₂ hoom =>
      have hfreed := (hundo _ _ _ _ hcheck halloc hcheck₂).2 hoom
      refine ⟨rfl, Or.inr ⟨by decide, rfl, (hslot₂ hcheck hcheck₂).1,
        ⟨_, (oomCheck_spec hcheck).1, Or.inr (oomCheck_spec hcheck₂).1⟩, ?_⟩⟩
      simp [CudaMemory.driverFree, hfreed]
    | recorded hcheck halloc hcheck₂ hentry =>
      have hcharged := (hslot₂ hcheck hcheck₂).1.update cudaToNvmlMap (· + ·) env.dev size
      exact ⟨rfl, Or.inl ⟨rfl, _, halloc, rfl, hcharged.1⟩⟩
    | abandoned hcheck halloc hcheck₂ hentry =>
      have hmade := (hundo _ _ _ _ hcheck halloc hcheck₂).1 rfl
      rw [hentry] at hmade
      exact absurd hmade (by decide)

end AllocateRaw

/-- A process alone in a region without limits, with nothing allocated. -/
def aloneUnlimited : CudaMemory where
  info :=
    { pid := 1
      sharedRegion := { limit := fun _ => 0, procs := fun _ => slotHolding 1 0, procNum := 1 }
      mySlot := some 0 }
  deviceOverallocated := []
  driverLive := []
  mutexHeld := false
  deviceAllocasync := []
  asyncLimit := 0
  driverFrees := []

theorem aloneUnlimited_registered : aloneUnlimited.Registered (slotHolding 1 0) :=
  ⟨⟨0, rfl, by decide, rfl⟩, rfl, by decide⟩

/-- The driver allocates at `4096`, everybody is alive, and the entry can be made or not. -/
def allocatesAt4096 (entryOk : Bool) : AddChunkEnv where
  dev := 0
  procAlive₁ := fun _ _ => .alive
  procAlive₂ := fun _ _ => .alive
  memAlloc := .ok 4096
  entryOk := entryOk
  memFree := true

/-- Without an entry the memory is lost and the mutex stays locked. -/
theorem allocateRaw_abandons :
    ∃ ret m', CudaMemory.allocateRaw id .quiet (allocatesAt4096 false) 64 aloneUnlimited =
        some (ret, m') ∧
      ret ≠ 0 ∧ m'.mutexHeld = true ∧ m'.driverLive ≠ aloneUnlimited.driverLive :=
  ⟨-1, _, rfl, by decide, rfl, by decide⟩

theorem allocateRaw_clean_alone :
    aloneUnlimited.mutexHeld = false ∧
      ∀ ret m', CudaMemory.allocateRaw id .quiet (allocatesAt4096 true) 64 aloneUnlimited =
          some (ret, m') →
        (allocatesAt4096 true).Clean id .quiet 64 (slotHolding 1 0) aloneUnlimited ret m' := by
  refine ⟨rfl, (allocateRaw_clean_iff id .quiet (allocatesAt4096 true) 64
    aloneUnlimited_registered rfl fun _ => by simp [allocatesAt4096]).2.mpr ?_⟩
  exact fun _ _ _ _ _ _ _ => ⟨fun _ => rfl, fun _ => rfl⟩

/-! ## `allocate_async_raw` -/

/-- What a call of `allocate_async_raw` should leave: the address in `device_allocasync`, or the
list, its limit, the caller's counters and the driver's memory as before. -/
def AllocAsyncEnv.Clean (env : AllocAsyncEnv) (s : ShrregProcSlot) (m : CudaMemory) (ret : ℤ)
    (m' : CudaMemory) : Prop :=
  (ret = 0 ∧ ∃ e, env.memAllocAsync = .ok e.address ∧
      m'.deviceAllocasync = m.deviceAllocasync ++ [e]) ∨
    (ret ≠ 0 ∧ m'.deviceAllocasync = m.deviceAllocasync ∧ m'.asyncLimit = m.asyncLimit ∧
      m'.info.PointsAt s ∧ Compacts env.procAlive m.info m'.info ∧ m'.driverLive = m.driverLive)

/-- The condition.  Once the driver has allocated, it also names the pool and its watermark. -/
def AllocAsyncEnv.PoolAnswers (env : AllocAsyncEnv) (size : UInt64) (info : RegionInfo) : Prop :=
  ∀ info₁ address, oomCheck env.procAlive env.dev size info = some (0, info₁) →
    env.entryOk = true → env.memAllocAsync = .ok address →
    env.deviceGetMemPool = .ok () ∧ ∃ poollimit, env.memPoolGetAttribute = .ok poollimit

section AllocateAsyncRaw

variable {cudaToNvmlMap : Dev → Dev} {env : AllocAsyncEnv} {size : UInt64} {m m' : CudaMemory}
  {ret : ℤ} {s : ShrregProcSlot}

/-- The new entry is appended whatever the watermark is. -/
theorem AsyncAllocator.record_deviceAllocasync (cudaToNvmlMap : Dev → Dev) (a : AsyncAllocator)
    (dev : Dev) (address size poollimit : UInt64) :
    ∃ e : AllocatedDeviceMemory, e.address = address ∧
      (a.record cudaToNvmlMap dev address size poollimit).deviceAllocasync =
        a.deviceAllocasync ++ [e] := by
  unfold AsyncAllocator.record
  split_ifs
  · exact ⟨⟨address, poollimit - a.limit, dev⟩, rfl, rfl⟩
  · exact ⟨⟨address, size, dev⟩, rfl, rfl⟩
  · exact ⟨⟨address, 0, dev⟩, rfl, rfl⟩
  · exact ⟨⟨address, size, dev⟩, rfl, rfl⟩

/-- The ways out of `add_chunk_async`: nothing was allocated, the pool did not answer, or the
address is recorded. -/
inductive AddChunkAsyncExit (env : AllocAsyncEnv) (size : UInt64) (m : CudaMemory) :
    ℤ → CudaMemory → Prop where
  | notAllocated {oom ret : ℤ} {info : RegionInfo}
      (hcheck : oomCheck env.procAlive env.dev size m.info = some (oom, info)) (hret : ret ≠ 0)
      (hnot : ¬ (oom = 0 ∧ env.entryOk = true ∧ ∃ address, env.memAllocAsync = .ok address)) :
      AddChunkAsyncExit env size m ret { m with info := info }
  | leaked {ret : ℤ} {info : RegionInfo} {address : UInt64}
      (hcheck : oomCheck env.procAlive env.dev size m.info = some (0, info)) (hret : ret ≠ 0)
      (hentry : env.entryOk = true) (halloc : env.memAllocAsync = .ok address)
      (hpool : ¬ (env.deviceGetMemPool = .ok () ∧ ∃ w, env.memPoolGetAttribute = .ok w)) :
      AddChunkAsyncExit env size m ret
        { m with info := info, driverLive := address :: m.driverLive }
  | recorded {m' : CudaMemory} {e : AllocatedDeviceMemory}
      (hpool : env.deviceGetMemPool = .ok () ∧ ∃ w, env.memPoolGetAttribute = .ok w)
      (halloc : env.memAllocAsync = .ok e.address)
      (hlist : m'.deviceAllocasync = m.deviceAllocasync ++ [e])
      (hother : m'.deviceOverallocated = m.deviceOverallocated) :
      AddChunkAsyncExit env size m 0 m'

/-- After its check `add_chunk_async` returns, in one of these ways. -/
theorem addChunkAsync_exit (cudaToNvmlMap : Dev → Dev) (m : CudaMemory) {info : RegionInfo}
    {oom : ℤ} (hcheck : oomCheck env.procAlive env.dev size m.info = some (oom, info)) :
    ∃ ret m', CudaMemory.addChunkAsync cudaToNvmlMap env size m = some (ret, m') ∧
      AddChunkAsyncExit env size m ret m' := by
  obtain ⟨dev, procAlive, entryOk, memAllocAsync, deviceGetMemPool, memPoolGetAttribute⟩ := env
  rw [CudaMemory.addChunkAsync, hcheck, Option.map_some]
  dsimp only
  by_cases hoom : oom ≠ 0
  · rw [if_pos hoom]
    exact ⟨_, _, rfl, .notAllocated hcheck (by decide) fun h => hoom h.1⟩
  · rw [if_neg hoom]
    obtain rfl : oom = 0 := not_not.mp hoom
    cases entryOk with
    | false =>
      exact ⟨_, _, rfl, .notAllocated hcheck (by decide) fun h => Bool.noConfusion h.2.1⟩
    | true =>
      cases memAllocAsync with
      | error res => exact ⟨_, _, rfl, .notAllocated hcheck res.2 (by simp)⟩
      | ok address =>
        cases deviceGetMemPool with
        | error res => exact ⟨_, _, rfl, .leaked hcheck res.2 rfl rfl (by simp)⟩
        | ok _ =>
          cases memPoolGetAttribute with
          | error res => exact ⟨_, _, rfl, .leaked hcheck res.2 rfl rfl (by simp)⟩
          | ok poollimit =>
            obtain ⟨e, rfl, hlist⟩ := AsyncAllocator.record_deviceAllocasync cudaToNvmlMap
              (CudaMemory.async { m with info := info }) dev address size poollimit
            exact ⟨_, _, rfl, .recorded ⟨rfl, poollimit, rfl⟩ rfl hlist rfl⟩

/-- **Reading a call of `allocate_async_raw`.** -/
theorem allocateAsyncRaw_exit
    (h : CudaMemory.allocateAsyncRaw cudaToNvmlMap env size m = some (ret, m')) :
    ∃ m₁, m' = m₁.unlock ∧ AddChunkAsyncExit env size { m with mutexHeld := true } ret m₁ := by
  obtain ⟨m₀, hlock, h⟩ := Option.bind_eq_some_iff.mp h
  obtain ⟨-, hlock⟩ := Option.ite_none_left_eq_some.mp hlock
  cases hlock
  obtain ⟨⟨ret₁, m₁⟩, hadd, hout⟩ := Option.map_eq_some_iff.mp h
  cases hout
  obtain ⟨⟨oom, info⟩, hcheck, -⟩ := Option.map_eq_some_iff.mp hadd
  obtain ⟨ret', m₁', hadd', hexit⟩ := addChunkAsync_exit cudaToNvmlMap _ hcheck
  rw [hadd] at hadd'
  cases hadd'
  exact ⟨m₁, rfl, hexit⟩

/-- When its check returns, `allocate_async_raw` does. -/
theorem allocateAsyncRaw_of_check (cudaToNvmlMap : Dev → Dev) (hfree : m.mutexHeld = false)
    {oom : ℤ} {info : RegionInfo}
    (hcheck : oomCheck env.procAlive env.dev size m.info = some (oom, info)) :
    ∃ ret m₁, CudaMemory.allocateAsyncRaw cudaToNvmlMap env size m = some (ret, m₁.unlock) ∧
      AddChunkAsyncExit env size { m with mutexHeld := true } ret m₁ := by
  obtain ⟨ret, m₁, hadd, hexit⟩ :=
    addChunkAsync_exit cudaToNvmlMap { m with mutexHeld := true } hcheck
  refine ⟨ret, m₁, ?_, hexit⟩
  rw [CudaMemory.allocateAsyncRaw, CudaMemory.lock_of_free hfree, Option.bind_some, hadd,
    Option.map_some]

/-- **A failed `cuMemAllocAsync`.**  `allocate_async_raw` returns, and it leaves nothing behind on
failure if and only if, once the driver has allocated, it also answers the two questions about its
pool. -/
theorem allocateAsyncRaw_clean_iff (cudaToNvmlMap : Dev → Dev) (env : AllocAsyncEnv)
    (size : UInt64) (hreg : m.Registered s) (hfree : m.mutexHeld = false)
    (hself : ∀ n, env.procAlive n m.info.pid ≠ .nonalive) :
    (m.info.sharedRegion.SeqlocksEven →
        ∃ out, CudaMemory.allocateAsyncRaw cudaToNvmlMap env size m = some out) ∧
      ((∀ ret m', CudaMemory.allocateAsyncRaw cudaToNvmlMap env size m = some (ret, m') →
          env.Clean s m ret m') ↔
        env.PoolAnswers size m.info) := by
  refine ⟨fun heven => ?_, fun hclean info₁ address hcheck hentry halloc => ?_,
    fun hpool ret m' hret => ?_⟩
  · obtain ⟨⟨oom, info⟩, hcheck⟩ := oomCheck_ne_none env.procAlive env.dev size heven
    obtain ⟨ret, m₁, hcall, -⟩ := allocateAsyncRaw_of_check cudaToNvmlMap hfree hcheck
    exact ⟨_, hcall⟩
  · obtain ⟨ret, m₁, hcall, hexit⟩ := allocateAsyncRaw_of_check cudaToNvmlMap hfree hcheck
    cases hexit with
    | notAllocated hcheck' hne hnot =>
      rw [hcheck] at hcheck'
      cases hcheck'
      exact absurd ⟨rfl, hentry, address, halloc⟩ hnot
    | leaked _ hne _ _ _ =>
      -- the pool did not answer: the memory is still there
      obtain ⟨hzero, -⟩ | ⟨-, -, -, -, -, hlive⟩ := hclean _ _ hcall
      · exact absurd hzero hne
      · exact absurd hlive (List.cons_ne_self _ _)
    | recorded hanswer _ _ _ => exact hanswer
  · obtain ⟨m₁, rfl, hexit⟩ := allocateAsyncRaw_exit hret
    cases hexit with
    | notAllocated hcheck hne _ =>
      exact Or.inr ⟨hne, rfl, rfl, (oomCheck_pointsAt hcheck hreg.pointsAt hreg.pid_eq
        hreg.pid_ne_zero hself).1, (oomCheck_spec hcheck).1, rfl⟩
    | leaked hcheck _ hentry halloc hno => exact absurd (hpool _ _ hcheck hentry halloc) hno
    | recorded _ halloc hlist _ => exact Or.inl ⟨rfl, _, halloc, hlist⟩

end AllocateAsyncRaw

/-- The driver allocates at `4096`; its pool answers or not. -/
def allocatesAsyncAt4096 (deviceGetMemPool : Except CudaError Unit) : AllocAsyncEnv where
  dev := 0
  procAlive := fun _ _ => .alive
  entryOk := true
  memAllocAsync := .ok 4096
  deviceGetMemPool := deviceGetMemPool
  memPoolGetAttribute := .ok 64

/-- `CUDA_ERROR_NOT_SUPPORTED`. -/
def cudaErrorNotSupported : CudaError := ⟨801, by decide⟩

/-- When the pool is not named the call fails and the memory stays allocated. -/
theorem allocateAsyncRaw_leaks :
    ∃ ret m', CudaMemory.allocateAsyncRaw id (allocatesAsyncAt4096 (.error cudaErrorNotSupported))
        64 aloneUnlimited = some (ret, m') ∧
      ret ≠ 0 ∧ m'.driverLive ≠ aloneUnlimited.driverLive :=
  ⟨801, _, rfl, by decide, by decide⟩

theorem allocateAsyncRaw_clean_alone :
    aloneUnlimited.mutexHeld = false ∧
      ∀ ret m', CudaMemory.allocateAsyncRaw id (allocatesAsyncAt4096 (.ok ())) 64
          aloneUnlimited = some (ret, m') →
        (allocatesAsyncAt4096 (.ok ())).Clean (slotHolding 1 0) aloneUnlimited ret m' := by
  refine ⟨rfl, (allocateAsyncRaw_clean_iff id (allocatesAsyncAt4096 (.ok ())) 64
    aloneUnlimited_registered rfl fun _ => by simp [allocatesAsyncAt4096]).2.mpr ?_⟩
  exact fun _ _ _ _ _ => ⟨rfl, 64, rfl⟩

/-! ## `cuMemFree_v2` and `cuMemFreeAsync` -/

section Free

variable {cudaToNvmlMap : Dev → Dev} {m : CudaMemory} {dptr : UInt64} {e : AllocatedDeviceMemory}
  {s : ShrregProcSlot}

/-- **A free of a tracked pointer.** -/
theorem cuMemFreeV2_of_tracked (memFree : Except CudaError Unit) (hfree : m.mutexHeld = false)
    (h0 : dptr ≠ 0) (he : (m.deviceOverallocated.find? fun val => val.address = dptr) = some e) :
    cuMemFreeV2 cudaToNvmlMap memFree dptr m =
      some (0, CudaMemory.driverFree { m with
        info := (rmGpuDeviceMemoryUsage cudaToNvmlMap m.info m.info.pid e.dev e.length 2).1
        deviceOverallocated := m.deviceOverallocated.eraseP fun val => val.address = dptr
        mutexHeld := false } memFree.isOk dptr) := by
  have hne : ¬ m.deviceOverallocated.length = 0 := by
    intro hlen
    rw [List.eq_nil_of_length_eq_zero hlen] at he
    exact absurd he (by simp)
  rw [cuMemFreeV2, if_neg h0, CudaMemory.freeRaw, CudaMemory.removeChunk, if_neg hne,
    CudaMemory.lock_of_free hfree, Option.bind_some]
  dsimp only
  rw [he]
  rfl

/-- **A free of a tracked stream-ordered pointer.** -/
theorem cuMemFreeAsync_of_tracked (memFree : Except CudaError Unit) (dev : Dev)
    (hfree : m.mutexHeld = false) (h0 : dptr ≠ 0)
    (he : (m.deviceAllocasync.find? fun val => val.address = dptr) = some e) :
    cuMemFreeAsync cudaToNvmlMap memFree dev dptr m =
      some (0, CudaMemory.driverFree { m with
        info := (rmGpuDeviceMemoryUsage cudaToNvmlMap m.info m.info.pid dev e.length 2).1
        asyncLimit := m.asyncLimit - e.length
        deviceAllocasync := m.deviceAllocasync.eraseP fun val => val.address = dptr
        mutexHeld := false } memFree.isOk dptr) := by
  have hne : ¬ m.deviceAllocasync.length = 0 := by
    intro hlen
    rw [List.eq_nil_of_length_eq_zero hlen] at he
    exact absurd he (by simp)
  rw [cuMemFreeAsync, if_neg h0, CudaMemory.freeRawAsync, CudaMemory.lock_of_free hfree,
    Option.map_some, CudaMemory.removeChunkAsync, if_neg hne]
  dsimp only
  rw [he]
  rfl

/-- A pointer that is not tracked is not freed. -/
theorem cuMemFreeV2_of_untracked (memFree : Except CudaError Unit) (hfree : m.mutexHeld = false)
    (h0 : dptr ≠ 0) (he : (m.deviceOverallocated.find? fun val => val.address = dptr) = none) :
    cuMemFreeV2 cudaToNvmlMap memFree dptr m = some (-1, m) := by
  rw [cuMemFreeV2, if_neg h0, CudaMemory.freeRaw, CudaMemory.removeChunk]
  split_ifs with hempty
  · rfl
  · rw [CudaMemory.lock_of_free hfree, Option.bind_some]
    dsimp only
    rw [he]
    simp only [CudaMemory.unlock, ← hfree]

theorem cuMemFreeAsync_of_untracked (memFree : Except CudaError Unit) (dev : Dev)
    (hfree : m.mutexHeld = false) (h0 : dptr ≠ 0)
    (he : (m.deviceAllocasync.find? fun val => val.address = dptr) = none) :
    cuMemFreeAsync cudaToNvmlMap memFree dev dptr m = some (-1, m) := by
  rw [cuMemFreeAsync, if_neg h0, CudaMemory.freeRawAsync, CudaMemory.lock_of_free hfree,
    Option.map_some, CudaMemory.removeChunkAsync]
  dsimp only
  split_ifs with hempty
  · simp only [CudaMemory.unlock, ← hfree]
  · rw [he]
    simp only [CudaMemory.unlock, ← hfree]

/-- What a free of a pointer tracked in one of the lists should do.  If the driver refuses, the hook
returns the driver's error and changes nothing.  If the driver frees, one entry with the address
leaves the list and its length is released from the device it was charged to. -/
def FreeSettled (cudaToNvmlMap : Dev → Dev) (memFree : Except CudaError Unit) (dptr : UInt64)
    (s : ShrregProcSlot) (tracked other : CudaMemory → List AllocatedDeviceMemory)
    (m : CudaMemory) (ret : ℤ) (m' : CudaMemory) : Prop :=
  match memFree with
  | .error res => ret = res ∧ tracked m' = tracked m ∧ other m' = other m ∧
      m'.asyncLimit = m.asyncLimit ∧ m'.info = m.info
  | .ok _ => ret = 0 ∧ other m' = other m ∧ ∃ e, e.address = dptr ∧
      (tracked m).Perm (e :: tracked m') ∧
      m'.info.PointsAt (s.update (· - ·) (cudaToNvmlMap e.dev) e.length 2)

/-- A hook that returns `0` and drops an entry, or does nothing, never reports a failure. -/
theorem FreeSettled.ok {memFree : Except CudaError Unit}
    {tracked other : CudaMemory → List AllocatedDeviceMemory} {m' : CudaMemory}
    (h : FreeSettled cudaToNvmlMap memFree dptr s tracked other m 0 m') : memFree = .ok () := by
  cases memFree with
  | ok _ => rfl
  | error res => exact absurd h.1.symm res.2

/-- Doing nothing is not a free. -/
theorem FreeSettled.ne_self {memFree : Except CudaError Unit}
    {tracked other : CudaMemory → List AllocatedDeviceMemory}
    (h : FreeSettled cudaToNvmlMap memFree dptr s tracked other m 0 m) : False := by
  obtain rfl := h.ok
  obtain ⟨-, -, e, -, hperm, -⟩ := h
  have hlen := hperm.length_eq
  rw [List.length_cons] at hlen
  omega

/-- First-match removal takes one entry with the address out. -/
theorem perm_cons_eraseP {l : List AllocatedDeviceMemory}
    (he : (l.find? fun val => val.address = dptr) = some e) :
    e.address = dptr ∧ l.Perm (e :: l.eraseP fun val => val.address = dptr) := by
  obtain ⟨l₁, l₂, rfl, herase, haddr⟩ := exists_split_of_find he
  rw [herase]
  exact ⟨haddr, List.perm_middle⟩

/-- A release of some bytes from one device is not a release from another. -/
theorem ShrregProcSlot.update_sub_device {d d' : Dev} {usage : UInt64}
    (h : s.update (· - ·) d usage 2 = s.update (· - ·) d' usage 2) : d = d' ∨ usage = 0 := by
  by_contra hne
  rw [not_or] at hne
  have hused := congrArg (fun t => (t.used d').total) h
  simp only [ShrregProcSlot.used_update, Function.update_self, DeviceMemory.total_update] at hused
  rw [Function.update_of_ne (Ne.symm hne.1)] at hused
  exact hne.2 (sub_eq_self.mp hused.symm)

/-- A release of no bytes is the same on every device. -/
theorem ShrregProcSlot.update_sub_zero (s : ShrregProcSlot) (d d' : Dev) :
    s.update (· - ·) d 0 2 = s.update (· - ·) d' 0 2 := by
  have hsame : ∀ k, Function.update s.used k ((s.used k).update (· - ·) 0 2) = s.used := by
    intro k
    have hk : (s.used k).update (· - ·) 0 2 = s.used k := by
      simp [DeviceMemory.update]
    rw [hk, Function.update_eq_self]
  unfold ShrregProcSlot.update
  rw [hsame, hsame]

/-- `cuMemFree_v2`. -/
theorem cuMemFreeV2_settled_iff (cudaToNvmlMap : Dev → Dev) (memFree : Except CudaError Unit)
    (hs : m.info.PointsAt s) (hfree : m.mutexHeld = false)
    (he : (m.deviceOverallocated.find? fun val => val.address = dptr) = some e) :
    (∃ ret m', cuMemFreeV2 cudaToNvmlMap memFree dptr m = some (ret, m') ∧
        FreeSettled cudaToNvmlMap memFree dptr s (·.deviceOverallocated) (·.deviceAllocasync)
          m ret m') ↔
      dptr ≠ 0 ∧ memFree = .ok () := by
  constructor
  · rintro ⟨ret, m', hcall, hsettled⟩
    by_cases h0 : dptr = 0
    · rw [cuMemFreeV2, if_pos h0] at hcall
      cases hcall
      exact hsettled.ne_self.elim
    · rw [cuMemFreeV2_of_tracked memFree hfree h0 he] at hcall
      cases hcall
      exact ⟨h0, hsettled.ok⟩
  · rintro ⟨h0, rfl⟩
    obtain ⟨haddr, hperm⟩ := perm_cons_eraseP he
    refine ⟨_, _, cuMemFreeV2_of_tracked (.ok ()) hfree h0 he, rfl, rfl, e, haddr, hperm, ?_⟩
    exact (hs.update cudaToNvmlMap (· - ·) e.dev e.length).1

/-- `cuMemFreeAsync`, which releases from the current device. -/
theorem cuMemFreeAsync_settled_iff (cudaToNvmlMap : Dev → Dev) (memFree : Except CudaError Unit)
    (hs : m.info.PointsAt s) (hfree : m.mutexHeld = false) (dev : Dev)
    (he : (m.deviceAllocasync.find? fun val => val.address = dptr) = some e) :
    (∃ ret m', cuMemFreeAsync cudaToNvmlMap memFree dev dptr m = some (ret, m') ∧
        FreeSettled cudaToNvmlMap memFree dptr s (·.deviceAllocasync) (·.deviceOverallocated)
          m ret m') ↔
      dptr ≠ 0 ∧ memFree = .ok () ∧
        (cudaToNvmlMap dev = cudaToNvmlMap e.dev ∨ e.length = 0) := by
  constructor
  · rintro ⟨ret, m', hcall, hsettled⟩
    by_cases h0 : dptr = 0
    · rw [cuMemFreeAsync, if_pos h0] at hcall
      cases hcall
      exact hsettled.ne_self.elim
    · rw [cuMemFreeAsync_of_tracked memFree dev hfree h0 he] at hcall
      cases hcall
      obtain rfl := hsettled.ok
      obtain ⟨-, -, e', -, hperm, hpts⟩ := hsettled
      -- the entry that is gone is the first one with the address
      have hcons : (e :: m.deviceAllocasync.eraseP fun val => val.address = dptr).Perm
          (e' :: m.deviceAllocasync.eraseP fun val => val.address = dptr) :=
        (perm_cons_eraseP he).2.symm.trans hperm
      rw [← Multiset.coe_eq_coe, ← Multiset.cons_coe, ← Multiset.cons_coe,
        Multiset.cons_inj_left] at hcons
      subst hcons
      have hslot := (hs.update cudaToNvmlMap (· - ·) dev e.length).1.eq hpts
      exact ⟨h0, rfl, ShrregProcSlot.update_sub_device hslot⟩
  · rintro ⟨h0, rfl, hdev⟩
    obtain ⟨haddr, hperm⟩ := perm_cons_eraseP he
    refine ⟨_, _, cuMemFreeAsync_of_tracked (.ok ()) dev hfree h0 he, rfl, rfl, e, haddr, hperm,
      ?_⟩
    have hpts := (hs.update cudaToNvmlMap (· - ·) dev e.length).1
    rcases hdev with hdev | hzero
    · rw [← hdev]
      exact hpts
    · rw [hzero] at hpts ⊢
      rw [s.update_sub_zero (cudaToNvmlMap e.dev) (cudaToNvmlMap dev)]
      exact hpts

/-- **A failed free.**  For a pointer that is tracked, `cuMemFree_v2` settles the free if and only
if the pointer is not null and the driver frees it; `cuMemFreeAsync` moreover only on a device that
maps where the one it was charged to does, unless nothing was charged. -/
theorem free_settled_iff (cudaToNvmlMap : Dev → Dev) (memFree : Except CudaError Unit)
    (dptr : UInt64) (hs : m.info.PointsAt s) (hfree : m.mutexHeld = false) :
    (∀ e, (m.deviceOverallocated.find? fun val => val.address = dptr) = some e →
        ((∃ ret m', cuMemFreeV2 cudaToNvmlMap memFree dptr m = some (ret, m') ∧
            FreeSettled cudaToNvmlMap memFree dptr s (·.deviceOverallocated) (·.deviceAllocasync)
              m ret m') ↔
          dptr ≠ 0 ∧ memFree = .ok ())) ∧
      ∀ dev e, (m.deviceAllocasync.find? fun val => val.address = dptr) = some e →
        ((∃ ret m', cuMemFreeAsync cudaToNvmlMap memFree dev dptr m = some (ret, m') ∧
            FreeSettled cudaToNvmlMap memFree dptr s (·.deviceAllocasync) (·.deviceOverallocated)
              m ret m') ↔
          dptr ≠ 0 ∧ memFree = .ok () ∧
            (cudaToNvmlMap dev = cudaToNvmlMap e.dev ∨ e.length = 0)) := by
  exact ⟨fun e he => cuMemFreeV2_settled_iff cudaToNvmlMap memFree hs hfree he,
    fun dev e he => cuMemFreeAsync_settled_iff cudaToNvmlMap memFree hs hfree dev he⟩

end Free

/-- A pointer of sixty-four bytes tracked in each list. -/
def twoTracked : CudaMemory :=
  { aloneUnlimited with
    deviceOverallocated := [⟨4096, 64, 0⟩]
    deviceAllocasync := [⟨8192, 64, 0⟩]
    asyncLimit := 64
    driverLive := [4096, 8192] }

/-- The driver refuses both frees; both hooks return `0`, and both lists are empty afterwards. -/
theorem free_failure_lost :
    (∃ m', cuMemFreeV2 id (.error cudaErrorNotSupported) 4096 twoTracked = some (0, m') ∧
        m'.deviceOverallocated = []) ∧
      ∃ m', cuMemFreeAsync id (.error cudaErrorNotSupported) 0 8192 twoTracked = some (0, m') ∧
        m'.deviceAllocasync = [] :=
  ⟨⟨_, rfl, rfl⟩, ⟨_, rfl, rfl⟩⟩

/-- Both hooks settle a free that the driver does not refuse. -/
theorem free_settled_twoTracked :
    twoTracked.info.PointsAt (slotHolding 1 0) ∧ twoTracked.mutexHeld = false ∧
      (∃ ret m', cuMemFreeV2 id (.ok ()) 4096 twoTracked = some (ret, m') ∧
        FreeSettled id (.ok ()) 4096 (slotHolding 1 0) (·.deviceOverallocated)
          (·.deviceAllocasync) twoTracked ret m') ∧
      ∃ ret m', cuMemFreeAsync id (.ok ()) 0 8192 twoTracked = some (ret, m') ∧
        FreeSettled id (.ok ()) 8192 (slotHolding 1 0) (·.deviceAllocasync)
          (·.deviceOverallocated) twoTracked ret m' := by
  have hs : twoTracked.info.PointsAt (slotHolding 1 0) := ⟨0, rfl, by decide, rfl⟩
  refine ⟨hs, rfl, ?_, ?_⟩
  · exact ((free_settled_iff id (.ok ()) 4096 hs rfl).1 ⟨4096, 64, 0⟩ rfl).mpr ⟨by decide, rfl⟩
  · exact ((free_settled_iff id (.ok ()) 8192 hs rfl).2 0 ⟨8192, 64, 0⟩ rfl).mpr
      ⟨by decide, rfl, Or.inl rfl⟩

end HamiCore
