import HamiCore.Device.Index

/-!
# What the reporting functions say about one device

Three files answer the question how much memory a device has: `cuMemGetInfo_v2` in `cuda/memory.c`,
the two versions of `nvmlDeviceGetMemoryInfo` in `nvml/hook.c` and `cuDeviceTotalMem_v2` in
`cuda/device.c`.  Each of them combines the limit, the registered usage and the physical size in its
own way.

`cuMemGetInfo_v2` caps the limit by the physical size and falls back to the physical size where
there is no limit.  The other two do neither: the NVML hook reports the limit as it is, and keeps
the driver's free memory where there is none; `cuDeviceTotalMem_v2` reports the limit in every case.
So they agree when a limit is set and lies within the physical size, and on hardly anything else
(`reports_agree_iff`).
-/

namespace HamiCore

/-- `cuDeviceTotalMem_v2`. -/
def cuDeviceTotalMemV2 (r : SharedRegion) (dev : Dev) : UInt64 :=
  getCurrentDeviceMemoryLimit r dev

/-- `nvmlDeviceGetMemoryInfo_v2`: version 2 of `_nvmlDeviceGetMemoryInfo` writes the same three
fields of its larger record. -/
def nvmlDeviceGetMemoryInfoV2 :
    (Dev → Dev) → ℕ → SharedRegion → Dev → NvmlMemory → Option NvmlMemory :=
  nvmlDeviceGetMemoryInfo

/-- Whatever `cuMemGetInfo_v2` reports for the device on success, the other three functions report
too, and NVML reports the usage `u` as used.  `total` is the physical size, `memory₁` and `memory₂`
what the driver fills in for the two versions of the NVML call. -/
def ReportsAgree (devcount : ℕ) (r : SharedRegion) (dev : Dev) (u total : UInt64)
    (memory₁ memory₂ : NvmlMemory) : Prop :=
  ∀ freeBytes totalBytes,
    cuMemGetInfoV2 id r dev total = some (.ok (freeBytes, totalBytes)) →
      nvmlDeviceGetMemoryInfo id devcount r dev memory₁ = some ⟨totalBytes, freeBytes, u⟩ ∧
        nvmlDeviceGetMemoryInfoV2 id devcount r dev memory₂ = some ⟨totalBytes, freeBytes, u⟩ ∧
        cuDeviceTotalMemV2 r dev = totalBytes

section Report

variable {devcount : ℕ} {r : SharedRegion} {dev : Dev} {u total : UInt64}

/-- `cuMemGetInfo_v2` under the identity map. -/
theorem cuMemGetInfoV2_id (hu : getCurrentDeviceMemoryUsage r dev = some u) (total : UInt64) :
    cuMemGetInfoV2 id r dev total = some (reportMemInfo u (r.limit dev) total) := by
  show (getCurrentDeviceMemoryUsage r (id dev)).map _ = _
  rw [id, hu]
  rfl

/-- The NVML hook under the identity map, on a device NVML knows. -/
theorem nvmlDeviceGetMemoryInfo_id (hdev : dev.val < devcount)
    (hu : getCurrentDeviceMemoryUsage r dev = some u) (memory : NvmlMemory) :
    nvmlDeviceGetMemoryInfo id devcount r dev memory =
      some (if r.limit dev = 0 then { memory with used := u }
        else ⟨r.limit dev, r.limit dev - u, u⟩) := by
  have hself : nvmlToCudaMap id devcount dev = some dev :=
    nvmlToCudaMap_apply (Equiv.refl Dev) hdev
  rw [nvmlDeviceGetMemoryInfo, nvmlMemoryInfoReads, hself]
  show (getCurrentDeviceMemoryUsage r dev).map _ = _
  rw [hu]
  rfl

/-- Without a limit `cuDeviceTotalMem_v2` says `0` and NVML keeps what the driver filled in. -/
theorem reportsAgree_of_no_limit (hdev : dev.val < devcount)
    (hu : getCurrentDeviceMemoryUsage r dev = some u) (hlimit : r.limit dev = 0)
    (memory₁ memory₂ : NvmlMemory) (h₁ : memory₁.total = total) (h₂ : memory₂.total = total) :
    ReportsAgree devcount r dev u total memory₁ memory₂ ↔
      total = 0 ∧ memory₁.free = total - u ∧ memory₂.free = total - u := by
  have hcuda : cuMemGetInfoV2 id r dev total = some (.ok (total - u, total)) := by
    rw [cuMemGetInfoV2_id hu, reportMemInfo, if_pos hlimit]
  have hnvml : ∀ memory : NvmlMemory, memory.total = total →
      (nvmlDeviceGetMemoryInfo id devcount r dev memory = some ⟨total, total - u, u⟩ ↔
        memory.free = total - u) := by
    rintro ⟨t, f, w⟩ rfl
    rw [nvmlDeviceGetMemoryInfo_id hdev hu, if_pos hlimit]
    simp
  constructor
  · intro h
    obtain ⟨hv1, hv2, htotal⟩ := h _ _ hcuda
    refine ⟨?_, (hnvml memory₁ h₁).mp hv1, (hnvml memory₂ h₂).mp hv2⟩
    rw [← htotal]
    exact hlimit
  · rintro ⟨hzero, hfree₁, hfree₂⟩ freeBytes totalBytes hok
    obtain ⟨rfl, rfl⟩ : total - u = freeBytes ∧ total = totalBytes := by
      rw [hcuda] at hok
      simpa using hok
    refine ⟨(hnvml memory₁ h₁).mpr hfree₁, (hnvml memory₂ h₂).mpr hfree₂, ?_⟩
    rw [hzero]
    exact hlimit

/-- With a limit, the other functions report it uncapped. -/
theorem reportsAgree_of_limit (hdev : dev.val < devcount)
    (hu : getCurrentDeviceMemoryUsage r dev = some u) (hlimit : r.limit dev ≠ 0)
    (memory₁ memory₂ : NvmlMemory) :
    ReportsAgree devcount r dev u total memory₁ memory₂ ↔
      r.limit dev < u ∨ r.limit dev ≤ total := by
  have hnvml : ∀ memory, nvmlDeviceGetMemoryInfo id devcount r dev memory =
      some ⟨r.limit dev, r.limit dev - u, u⟩ := by
    intro memory
    rw [nvmlDeviceGetMemoryInfo_id hdev hu, if_neg hlimit]
  by_cases hover : r.limit dev < u
  · -- `cuMemGetInfo_v2` fails, and nothing is asked of the others
    have hcuda : cuMemGetInfoV2 id r dev total = some (.error cudaErrorInvalidValue) := by
      rw [cuMemGetInfoV2_id hu, reportMemInfo, if_neg hlimit, if_pos hover]
    refine iff_of_true (fun freeBytes totalBytes hok => ?_) (Or.inl hover)
    rw [hcuda] at hok
    exact absurd hok (by simp)
  · have hcuda : cuMemGetInfoV2 id r dev total =
        some (.ok (if u < (if total < r.limit dev then total else r.limit dev) then
            (if total < r.limit dev then total else r.limit dev) - u else 0,
          if total < r.limit dev then total else r.limit dev)) := by
      rw [cuMemGetInfoV2_id hu, reportMemInfo, if_neg hlimit, if_neg hover]
    by_cases hphys : r.limit dev ≤ total
    · have hcap : (if total < r.limit dev then total else r.limit dev) = r.limit dev :=
        if_neg (UInt64.not_lt.mpr hphys)
      have hfree : (if u < r.limit dev then r.limit dev - u else 0) = r.limit dev - u := by
        split_ifs with hlt
        · rfl
        · obtain rfl : u = r.limit dev :=
            UInt64.le_antisymm (UInt64.not_lt.mp hover) (UInt64.not_lt.mp hlt)
          simp
      rw [hcap, hfree] at hcuda
      refine iff_of_true (fun freeBytes totalBytes hok => ?_) (Or.inr hphys)
      obtain ⟨rfl, rfl⟩ : r.limit dev - u = freeBytes ∧ r.limit dev = totalBytes := by
        rw [hcuda] at hok
        simpa using hok
      exact ⟨hnvml memory₁, hnvml memory₂, rfl⟩
    · have hcap : (if total < r.limit dev then total else r.limit dev) = total :=
        if_pos (UInt64.not_le.mp hphys)
      rw [hcap] at hcuda
      refine iff_of_false (fun h => ?_) (not_or.mpr ⟨hover, hphys⟩)
      have htotal : r.limit dev = total := (h _ _ hcuda).2.2
      exact hphys (by rw [htotal]; exact UInt64.le_refl total)

/-- **The reporting functions agree exactly on limits within the physical size.**  For every usage,
limit and physical size, on a device NVML knows: whatever `cuMemGetInfo_v2` reports on success the
others report, if and only if a limit is set that is below the usage (then `cuMemGetInfo_v2` fails)
or at most the physical size --- or, without a limit, if the device has no memory and the driver's
own numbers happen to be those. -/
theorem reports_agree_iff (hdev : dev.val < devcount)
    (hu : getCurrentDeviceMemoryUsage r dev = some u) (memory₁ memory₂ : NvmlMemory)
    (h₁ : memory₁.total = total) (h₂ : memory₂.total = total) :
    ReportsAgree devcount r dev u total memory₁ memory₂ ↔
      (r.limit dev ≠ 0 ∧ (r.limit dev < u ∨ r.limit dev ≤ total)) ∨
        (r.limit dev = 0 ∧ total = 0 ∧ memory₁.free = total - u ∧ memory₂.free = total - u) := by
  by_cases hlimit : r.limit dev = 0
  · rw [reportsAgree_of_no_limit hdev hu hlimit memory₁ memory₂ h₁ h₂]
    simp [hlimit]
  · rw [reportsAgree_of_limit hdev hu hlimit]
    simp [hlimit]

end Report

/-- One registered process with `usage` bytes on device `0`, under the given limit. -/
def oneProcessUsing (limit usage : UInt64) : SharedRegion where
  limit := fun _ => limit
  procs := fun _ => { ShrregProcSlot.blank with pid := 1, used := fun _ => ⟨0, 0, usage, 0, usage⟩ }
  procNum := 1

/-- A limit of 100 bytes on a device of 200, of which 30 are used. -/
theorem reports_agree_within_physical :
    ReportsAgree 1 (oneProcessUsing 100 30) 0 30 200 ⟨200, 200, 0⟩ ⟨200, 150, 50⟩ := by
  have hu : getCurrentDeviceMemoryUsage (oneProcessUsing 100 30) 0 = some 30 := by decide +kernel
  have hdev : (0 : Dev).val < 1 := by decide
  refine (reports_agree_iff hdev hu ⟨200, 200, 0⟩ ⟨200, 150, 50⟩ rfl rfl).mpr
    (Or.inl ⟨?_, Or.inr ?_⟩)
  · decide
  · decide

/-- With a limit of 200 bytes on a device of 100, `cuMemGetInfo_v2` says 100 and the others say
200. -/
theorem reports_differ_above_physical :
    ¬ ∀ (limit u total : UInt64) (memory₁ memory₂ : NvmlMemory),
      memory₁.total = total → memory₂.total = total →
      getCurrentDeviceMemoryUsage (oneProcessUsing limit u) 0 = some u →
      ReportsAgree 1 (oneProcessUsing limit u) 0 u total memory₁ memory₂ := by
  intro hall
  have hu : getCurrentDeviceMemoryUsage (oneProcessUsing 200 0) 0 = some 0 := by decide +kernel
  have hagree := hall 200 0 100 ⟨100, 100, 0⟩ ⟨100, 100, 0⟩ rfl rfl hu
  have hcuda : cuMemGetInfoV2 id (oneProcessUsing 200 0) 0 100 = some (.ok (100, 100)) := by
    rw [cuMemGetInfoV2_id hu]
    rfl
  have htotal : cuDeviceTotalMemV2 (oneProcessUsing 200 0) 0 = 100 := (hagree _ _ hcuda).2.2
  exact absurd htotal (by decide)

end HamiCore
