import Mathlib.Logic.Equiv.Basic
import HamiCore.Allocator.Chunk

/-!
# Which device index is read

`used[]` and `limit[]` are indexed by device, and a device has two numbers: the ordinal CUDA gives
it among the visible devices and the index NVML gives it among all of them.  `cuda_to_nvml_map`
takes the first to the second and `nvml_to_cuda_map` searches for the way back.

Charging stores under the NVML index.  `cuMemGetInfo_v2` reads under the NVML index too, but
`oom_check` reads under the CUDA ordinal, and so does `_nvmlDeviceGetMemoryInfo`, which translates
the index it is asked about back.  The five functions agree about a device exactly when the map does
not move it (`device_index_coherent_iff`).

What a function reads is a `DeviceReads`; the functions themselves are defined from it, so that what
is said about the reads is said about them.
-/

namespace HamiCore

/-- What a function reads about a device. -/
structure DeviceReads where
  /-- `none` for a reader that waits for ever. -/
  usage : Option UInt64
  limit : UInt64

/-- The usage and the limit `oom_check(dev, …)` reads. -/
def oomCheckReads (r : SharedRegion) (dev : Dev) : DeviceReads :=
  ⟨getGpuMemoryUsage r dev, getCurrentDeviceMemoryLimit r dev⟩

/-- `oom_check`, from what it reads. -/
theorem oomCheck_eq_reads (procAlive : ℕ → Pid → ProcState) (dev : Dev) (addon : UInt64)
    (info : RegionInfo) :
    oomCheck procAlive dev addon info =
      (oomCheckReads info.sharedRegion dev).usage.bind fun usage =>
        if (oomCheckReads info.sharedRegion dev).limit = 0 then some (0, info)
        else if (oomCheckReads info.sharedRegion dev).limit < usage + addon then
          if 0 < (clearProcSlotNolock (procAlive 0) 1 info).2 then
            oomCheck (fun n => procAlive (n + 1)) dev addon
              (clearProcSlotNolock (procAlive 0) 1 info).1
          else some (1, (clearProcSlotNolock (procAlive 0) 1 info).1)
        else some (0, info) :=
  oomCheck_eq procAlive dev addon info

/-- The usage and the limit `cuMemGetInfo_v2` reads with current device `dev`. -/
def cuMemGetInfoReads (cudaToNvmlMap : Dev → Dev) (r : SharedRegion) (dev : Dev) : DeviceReads :=
  ⟨getCurrentDeviceMemoryUsage r (cudaToNvmlMap dev),
    getCurrentDeviceMemoryLimit r (cudaToNvmlMap dev)⟩

/-- `CUDA_ERROR_INVALID_VALUE`. -/
def cudaErrorInvalidValue : ℤ := 1

/-- What `cuMemGetInfo_v2` makes of the usage, the limit and the physical total: the reported free
and total memory. -/
def reportMemInfo (usage limit total : UInt64) : Except ℤ (UInt64 × UInt64) :=
  if limit = 0 then .ok (total - usage, total)
  else if limit < usage then .error cudaErrorInvalidValue
  else
    let actualLimit := if total < limit then total else limit
    .ok (if usage < actualLimit then actualLimit - usage else 0, actualLimit)

/-- `cuMemGetInfo_v2` with current device `dev`, where the driver reports the physical `total`. -/
def cuMemGetInfoV2 (cudaToNvmlMap : Dev → Dev) (r : SharedRegion) (dev : Dev) (total : UInt64) :
    Option (Except ℤ (UInt64 × UInt64)) :=
  let reads := cuMemGetInfoReads cudaToNvmlMap r dev
  reads.usage.map fun usage => reportMemInfo usage reads.limit total

/-- `nvml_to_cuda_map`: the first ordinal below the number of NVML devices that maps to the
index. -/
def nvmlToCudaMap (cudaToNvmlMap : Dev → Dev) (devcount : ℕ) (nvmldev : Dev) : Option Dev :=
  (List.finRange cudaDeviceMaxCount).find? fun i => i.val < devcount ∧ cudaToNvmlMap i = nvmldev

/-- The usage and the limit `_nvmlDeviceGetMemoryInfo` reads for the NVML device of the given index;
`none` when no ordinal maps to it. -/
def nvmlMemoryInfoReads (cudaToNvmlMap : Dev → Dev) (devcount : ℕ) (r : SharedRegion)
    (index : Dev) :
    Option DeviceReads :=
  (nvmlToCudaMap cudaToNvmlMap devcount index).map fun cudadev =>
    ⟨getCurrentDeviceMemoryUsage r cudadev, getCurrentDeviceMemoryLimit r cudadev⟩

/-- `nvmlMemory_t` and the three fields of `nvmlMemory_v2_t` the hook writes. -/
structure NvmlMemory where
  total : UInt64
  free : UInt64
  used : UInt64
  deriving DecidableEq

/-- `_nvmlDeviceGetMemoryInfo`, either version, over what the driver has filled in. -/
def nvmlDeviceGetMemoryInfo (cudaToNvmlMap : Dev → Dev) (devcount : ℕ) (r : SharedRegion)
    (index : Dev) (memory : NvmlMemory) : Option NvmlMemory :=
  match nvmlMemoryInfoReads cudaToNvmlMap devcount r index with
  | none => some memory
  | some reads => reads.usage.map fun usage =>
    if reads.limit = 0 then { memory with used := usage }
    else ⟨reads.limit, reads.limit - usage, usage⟩

/-- The inverse lookup finds the ordinal itself or nothing when the map is injective. -/
theorem eq_of_nvmlToCudaMap {σ : Equiv.Perm Dev} {devcount : ℕ} {c i : Dev}
    (h : nvmlToCudaMap σ devcount (σ c) = some i) : i = c := by
  have hi := List.find?_some h
  simp only [EmbeddingLike.apply_eq_iff_eq, decide_eq_true_eq] at hi
  exact hi.2

theorem nvmlToCudaMap_apply (σ : Equiv.Perm Dev) {devcount : ℕ} {c : Dev} (hc : c.val < devcount) :
    nvmlToCudaMap σ devcount (σ c) = some c := by
  obtain ⟨i, hi⟩ : ∃ i, nvmlToCudaMap σ devcount (σ c) = some i :=
    Option.isSome_iff_exists.mp (List.find?_isSome.mpr ⟨c, List.mem_finRange c, by simp [hc]⟩)
  rw [hi, eq_of_nvmlToCudaMap hi]

/-- A call of `add_chunk` or `add_chunk_only` that charges `n` bytes to the CUDA ordinal `c` and
leaves the allocator `a'`.  `info` is the caller's view when the last `oom_check` has passed, which
is what the charge is made to; the caller is alive. -/
inductive ChargedBy (cudaToNvmlMap : Dev → Dev) (c : Dev) (n : UInt64) (a : Allocator) :
    RegionInfo → Allocator → Prop where
  | addChunk {env : AddChunkEnv} {info₁ info : RegionInfo} {a' : Allocator} (hdev : env.dev = c)
      (hregular : (ChunkCall.addChunk env n).Regular a)
      (h₁ : oomCheck env.procAlive₁ env.dev n a.info = some (0, info₁))
      (h₂ : oomCheck env.procAlive₂ env.dev n info₁ = some (0, info))
      (hcall : a.call cudaToNvmlMap (.addChunk env n) = some (0, a')) :
      ChargedBy cudaToNvmlMap c n a info a'
  | addChunkOnly {procAlive : ℕ → Pid → ProcState} {entryOk : Bool} {address : UInt64}
      {info : RegionInfo} {a' : Allocator}
      (hregular : (ChunkCall.addChunkOnly procAlive entryOk address n c).Regular a)
      (h : oomCheck procAlive c n a.info = some (0, info))
      (hcall : a.call cudaToNvmlMap (.addChunkOnly procAlive entryOk address n c) = some (0, a')) :
      ChargedBy cudaToNvmlMap c n a info a'

/-- Every `add_chunk` that returns `0` charges. -/
theorem exists_chargedBy_addChunk {cudaToNvmlMap : Dev → Dev} {env : AddChunkEnv} {n : UInt64}
    {a a' : Allocator} (hregular : (ChunkCall.addChunk env n).Regular a)
    (hcall : a.call cudaToNvmlMap (.addChunk env n) = some (0, a')) :
    ∃ info, ChargedBy cudaToNvmlMap env.dev n a info a' := by
  obtain ⟨⟨oom₁, info₁⟩, h₁, h⟩ := Option.bind_eq_some_iff.mp hcall
  dsimp only at h
  by_cases hne₁ : oom₁ ≠ 0
  · rw [if_pos hne₁] at h
    exact absurd (congrArg Prod.fst (Option.some.inj h)) (by simp [cudaErrorOutOfMemory])
  · rw [if_neg hne₁] at h
    obtain rfl : oom₁ = 0 := not_not.mp hne₁
    split at h
    · next res _ => exact absurd (congrArg Prod.fst (Option.some.inj h)) res.2
    · next address _ =>
      obtain ⟨a₂, hlock, h⟩ := Option.bind_eq_some_iff.mp h
      obtain ⟨-, ⟨⟩⟩ := Option.ite_none_left_eq_some.mp hlock
      obtain ⟨⟨oom₂, info₂⟩, h₂, h⟩ := Option.bind_eq_some_iff.mp h
      dsimp only at h
      by_cases hne₂ : oom₂ ≠ 0
      · rw [if_pos hne₂] at h
        exact absurd (congrArg Prod.fst (Option.some.inj h)) (by simp [cudaErrorOutOfMemory])
      · obtain rfl : oom₂ = 0 := not_not.mp hne₂
        exact ⟨info₂, .addChunk rfl hregular h₁ h₂ hcall⟩

/-- So does every `add_chunk_only`. -/
theorem exists_chargedBy_addChunkOnly {cudaToNvmlMap : Dev → Dev}
    {procAlive : ℕ → Pid → ProcState} {entryOk : Bool} {address n : UInt64} {c : Dev}
    {a a' : Allocator}
    (hregular : (ChunkCall.addChunkOnly procAlive entryOk address n c).Regular a)
    (hcall : a.call cudaToNvmlMap (.addChunkOnly procAlive entryOk address n c) = some (0, a')) :
    ∃ info, ChargedBy cudaToNvmlMap c n a info a' := by
  obtain ⟨a₁, hlock, h⟩ := Option.bind_eq_some_iff.mp hcall
  obtain ⟨-, ⟨⟩⟩ := Option.ite_none_left_eq_some.mp hlock
  obtain ⟨⟨oom, info⟩, hcheck, h⟩ := Option.bind_eq_some_iff.mp h
  dsimp only at h
  by_cases hne : oom ≠ 0
  · rw [if_pos hne] at h
    exact absurd (congrArg Prod.fst (Option.some.inj h)) (by simp)
  · obtain rfl : oom = 0 := not_not.mp hne
    exact ⟨info, .addChunkOnly hregular hcheck hcall⟩

/-- **What a charging call does to the region**: compactions that keep the caller's slot, and then
`add_gpu_device_memory_usage`. -/
theorem ChargedBy.charge {cudaToNvmlMap : Dev → Dev} {c : Dev} {n : UInt64} {a a' : Allocator}
    {info : RegionInfo} (h : ChargedBy cudaToNvmlMap c n a info a') {s : ShrregProcSlot}
    (hs : a.info.PointsAt s) (hpid : s.pid = a.info.pid) (h0 : s.pid ≠ 0) :
    info.PointsAt s ∧
      a'.info = (addGpuDeviceMemoryUsage cudaToNvmlMap info info.pid c n 2).1 := by
  cases h with
  | @addChunk env info₁ info a' hdev hregular h₁ h₂ hcall =>
    subst hdev
    have hkeep₁ : ∀ k, ¬ s.Droppable (env.procAlive₁ k) := by
      rintro k (hzero | hdead)
      · exact h0 hzero
      · exact (hregular.2 k).1 (hpid ▸ hdead)
    have hkeep₂ : ∀ k, ¬ s.Droppable (env.procAlive₂ k) := by
      rintro k (hzero | hdead)
      · exact h0 hzero
      · exact (hregular.2 k).2 (hpid ▸ hdead)
    refine ⟨(oomCheck_spec h₂).1.pointsAt hkeep₂ ((oomCheck_spec h₁).1.pointsAt hkeep₁ hs), ?_⟩
    simp only [Allocator.call, HamiCore.addChunk, h₁, Option.bind_some, ne_eq, not_true, if_false]
      at hcall
    split at hcall
    · next res _ => exact absurd (congrArg Prod.fst (Option.some.inj hcall)) res.2
    · obtain ⟨a₂, hlock, hcall⟩ := Option.bind_eq_some_iff.mp hcall
      obtain ⟨-, ⟨⟩⟩ := Option.ite_none_left_eq_some.mp hlock
      simp only [h₂, Option.bind_some, not_true, if_false, hregular.1, if_true] at hcall
      obtain rfl := congrArg Prod.snd (Option.some.inj hcall)
      rfl
  | @addChunkOnly procAlive entryOk address info a' hregular hcheck hcall =>
    have hkeep : ∀ k, ¬ s.Droppable (procAlive k) := by
      rintro k (hzero | hdead)
      · exact h0 hzero
      · exact hregular.2 k (hpid ▸ hdead)
    refine ⟨(oomCheck_spec hcheck).1.pointsAt hkeep hs, ?_⟩
    obtain ⟨a₁, hlock, hcall⟩ := Option.bind_eq_some_iff.mp hcall
    obtain ⟨-, ⟨⟩⟩ := Option.ite_none_left_eq_some.mp hlock
    simp only [hcheck, Option.bind_some, ne_eq, not_true, if_false, hregular.1, if_true] at hcall
    obtain rfl := congrArg Prod.snd (Option.some.inj hcall)
    rfl

/-! ## Agreement about a device -/

/-- The three readers agree with the charge of `n` bytes to the CUDA ordinal `c`: what each reads
for `c` grows by `n`, what each reads for another ordinal does not change, and all three read the
same limit for `c`.  The NVML reader is asked about the index the map gives. -/
structure ReadsFollowCharge (cudaToNvmlMap : Dev → Dev) (devcount : ℕ) (c : Dev) (n : UInt64)
    (r r' : SharedRegion) : Prop where
  oom_grows : (oomCheckReads r' c).usage = (oomCheckReads r c).usage.map (· + n)
  cuda_grows : (cuMemGetInfoReads cudaToNvmlMap r' c).usage =
    (cuMemGetInfoReads cudaToNvmlMap r c).usage.map (· + n)
  nvml_grows : (nvmlMemoryInfoReads cudaToNvmlMap devcount r' (cudaToNvmlMap c)).map
      DeviceReads.usage =
    (nvmlMemoryInfoReads cudaToNvmlMap devcount r (cudaToNvmlMap c)).map
      fun reads => reads.usage.map (· + n)
  others : ∀ c', c' ≠ c → (oomCheckReads r' c').usage = (oomCheckReads r c').usage ∧
    (cuMemGetInfoReads cudaToNvmlMap r' c').usage = (cuMemGetInfoReads cudaToNvmlMap r c').usage ∧
    (nvmlMemoryInfoReads cudaToNvmlMap devcount r' (cudaToNvmlMap c')).map DeviceReads.usage =
      (nvmlMemoryInfoReads cudaToNvmlMap devcount r (cudaToNvmlMap c')).map DeviceReads.usage
  limits : (oomCheckReads r c).limit = (cuMemGetInfoReads cudaToNvmlMap r c).limit ∧
    (nvmlMemoryInfoReads cudaToNvmlMap devcount r (cudaToNvmlMap c)).map DeviceReads.limit =
      some (oomCheckReads r c).limit

/-- The readers agree with every charge of `n` bytes to `c` by a registered process. -/
def DeviceIndexCoherent (cudaToNvmlMap : Dev → Dev) (devcount : ℕ) (c : Dev) (n : UInt64) : Prop :=
  ∀ (a a' : Allocator) (s : ShrregProcSlot) (info : RegionInfo), a.info.PointsAt s →
    s.pid = a.info.pid → s.pid ≠ 0 → ChargedBy cudaToNvmlMap c n a info a' →
    ReadsFollowCharge cudaToNvmlMap devcount c n info.sharedRegion a'.info.sharedRegion

/-- A limit on one index only, in a region with one registered process. -/
def limitAt (k : Dev) : Allocator where
  info := ⟨1, ⟨fun d => if d = k then 1 else 0, fun _ => { ShrregProcSlot.blank with pid := 1 }, 1⟩,
    some 0⟩
  deviceOverallocated := []
  driverLive := []
  mutexHeld := false

theorem limitAt_pointsAt (k : Dev) :
    (limitAt k).info.PointsAt { ShrregProcSlot.blank with pid := 1 } :=
  ⟨0, rfl, Nat.one_pos, rfl⟩

/-- On any other index `add_chunk_only` passes its check there at once. -/
theorem limitAt_chargedBy {cudaToNvmlMap : Dev → Dev} {c k : Dev} (hck : c ≠ k) (n : UInt64) :
    ChargedBy cudaToNvmlMap c n (limitAt k) (limitAt k).info
      ((limitAt k).track cudaToNvmlMap ⟨0, n, c⟩) := by
  have hcheck : oomCheck (fun _ _ => .alive) c n (limitAt k).info = some (0, (limitAt k).info) := by
    have hlimit : getCurrentDeviceMemoryLimit (limitAt k).info.sharedRegion c = 0 := if_neg hck
    have husage : getGpuMemoryUsage (limitAt k).info.sharedRegion c = some 0 := rfl
    rw [oomCheck_eq, husage, Option.bind_some, if_pos hlimit]
  have hregular : (ChunkCall.addChunkOnly (fun _ _ => .alive) true 0 n c).Regular (limitAt k) :=
    ⟨rfl, fun _ => by simp⟩
  refine .addChunkOnly hregular hcheck ?_
  show (oomCheck (fun _ _ => .alive) c n (limitAt k).info).bind _ = _
  rw [hcheck]
  rfl

/-- An ordinal past the NVML devices is not found by the inverse lookup, so the NVML reader consults
no limit for it. -/
theorem DeviceIndexCoherent.lt_devcount {σ : Equiv.Perm Dev} {devcount : ℕ} {c : Dev} {n : UInt64}
    (h : DeviceIndexCoherent σ devcount c n) : c.val < devcount := by
  by_contra hc
  obtain ⟨k, hck⟩ : ∃ k : Dev, c ≠ k := by
    by_cases h0 : c = 0
    · exact ⟨1, by rw [h0]; decide⟩
    · exact ⟨0, h0⟩
  have hlimit := (h (limitAt k) _ _ _ (limitAt_pointsAt k) rfl (by decide)
    (limitAt_chargedBy hck n)).limits.2
  have hnone : nvmlToCudaMap σ devcount (σ c) = none := by
    cases hlook : nvmlToCudaMap σ devcount (σ c) with
    | none => rfl
    | some i =>
      obtain rfl := eq_of_nvmlToCudaMap hlook
      have hi := List.find?_some hlook
      simp only [decide_eq_true_eq] at hi
      exact absurd hi.1 hc
  rw [nvmlMemoryInfoReads, hnone] at hlimit
  exact absurd hlimit (by simp)

/-- On an ordinal the map moves, `oom_check` and `cuMemGetInfo_v2` consult different limits. -/
theorem DeviceIndexCoherent.map_eq {σ : Equiv.Perm Dev} {devcount : ℕ} {c : Dev} {n : UInt64}
    (h : DeviceIndexCoherent σ devcount c n) : σ c = c := by
  by_contra hne
  -- a limit on the index the map gives, and none on the ordinal itself
  have hlimit := (h (limitAt (σ c)) _ _ _ (limitAt_pointsAt (σ c)) rfl (by decide)
    (limitAt_chargedBy (Ne.symm hne) n)).limits.1
  simp only [oomCheckReads, cuMemGetInfoReads, getCurrentDeviceMemoryLimit, limitAt, if_pos,
    if_neg (Ne.symm hne)] at hlimit
  exact absurd hlimit (by decide)

/-- On an ordinal the map does not move, the three readers follow every charge. -/
theorem deviceIndexCoherent_of_map_eq {σ : Equiv.Perm Dev} {devcount : ℕ} {c : Dev}
    (hc : c.val < devcount) (hfix : σ c = c) (n : UInt64) : DeviceIndexCoherent σ devcount c n := by
  intro a a' s info hs hpid h0 hcall
  obtain ⟨⟨i, hi, hlt, -⟩, hcharge⟩ := hcall.charge hs hpid h0
  have hself : nvmlToCudaMap σ devcount (σ c) = some c := nvmlToCudaMap_apply σ hc
  have hread : ∀ dev, getGpuMemoryUsage a'.info.sharedRegion dev =
      if c = dev then (getGpuMemoryUsage info.sharedRegion dev).map (· + n)
      else getGpuMemoryUsage info.sharedRegion dev := by
    intro dev
    rw [hcharge, getGpuMemoryUsage_add hi hlt, hfix]
  refine ⟨?_, ?_, ?_, ?_, ?_⟩
  · show getGpuMemoryUsage _ c = _
    rw [hread, if_pos rfl]
    rfl
  · show getGpuMemoryUsage _ (σ c) = _
    rw [hread, if_pos hfix.symm]
    rfl
  · simp only [nvmlMemoryInfoReads, hself, Option.map_some, getCurrentDeviceMemoryUsage]
    rw [hread, if_pos rfl]
  · intro c' hne
    refine ⟨?_, ?_, ?_⟩
    · show getGpuMemoryUsage _ c' = _
      rw [hread, if_neg (Ne.symm hne)]
      rfl
    · -- the map moves no other ordinal onto `c`
      have hne' : c ≠ σ c' := by
        rw [← hfix]
        exact fun heq => hne (σ.injective heq).symm
      show getGpuMemoryUsage _ (σ c') = _
      rw [hread, if_neg hne']
      rfl
    · cases hlook : nvmlToCudaMap σ devcount (σ c') with
      | none => simp only [nvmlMemoryInfoReads, hlook, Option.map_none]
      | some i =>
        simp only [nvmlMemoryInfoReads, hlook, Option.map_some, getCurrentDeviceMemoryUsage]
        rw [eq_of_nvmlToCudaMap hlook, hread, if_neg (Ne.symm hne)]
  · constructor
    · show info.sharedRegion.limit c = info.sharedRegion.limit (σ c)
      rw [hfix]
    · simp only [nvmlMemoryInfoReads, hself, Option.map_some]
      rfl

/-- **The device indices agree exactly on the devices the map does not move.**  For every
permutation of the device indices, every ordinal and every number of bytes; the NVML reader knows
the ordinals below the number of NVML devices. -/
theorem device_index_coherent_iff (σ : Equiv.Perm Dev) (devcount : ℕ) (c : Dev) (n : UInt64) :
    DeviceIndexCoherent σ devcount c n ↔ c.val < devcount ∧ σ c = c := by
  constructor
  · intro h
    exact ⟨h.lt_devcount, h.map_eq⟩
  · rintro ⟨hc, hfix⟩
    exact deviceIndexCoherent_of_map_eq hc hfix n

/-- With devices `0` and `1` swapped, a byte charged to ordinal `0` is not seen by `oom_check`. -/
theorem device_index_incoherent_swap : ¬ DeviceIndexCoherent (Equiv.swap 0 1) 2 0 1 := by
  intro h
  have hgrows := (h (limitAt 1) _ _ _ (limitAt_pointsAt 1) rfl (by decide)
    (limitAt_chargedBy (by decide) 1)).oom_grows
  exact absurd hgrows (by decide +kernel)

end HamiCore
