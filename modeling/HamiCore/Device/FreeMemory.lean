import HamiCore.Device.Report
import HamiCore.Process.Accounts

/-!
# Reported free memory

`cuMemGetInfo_v2` and `_nvmlDeviceGetMemoryInfo` report free memory as a difference of unsigned
numbers.  `cuMemGetInfo_v2` guards it where a limit is set: it fails when the limit is below the
usage, and it reports `0` when the physical size is.  Without a limit it subtracts the usage from
the physical size as it is, and the NVML hook subtracts it from the limit as it is.  So a report is
right exactly when the usage is within the physical size, or within the limit
(`freeAtMostTotal_iff`).

The accounting does not ensure that.  A context is charged without a check, without a limit nothing
is ever refused, and two processes whose checks have both passed can charge one after the other.
`free_at_most_total` says which runs do.
-/

namespace HamiCore

/-- Whatever `cuMemGetInfo_v2` reports on success; the driver reports the size `physical`. -/
def CudaFreeAtMostTotal (r : SharedRegion) (dev : Dev) (physical : UInt64) : Prop :=
  ∀ freeBytes totalBytes,
    cuMemGetInfoV2 id r dev physical = some (.ok (freeBytes, totalBytes)) → freeBytes ≤ totalBytes

/-- Whatever the two versions of `nvmlDeviceGetMemoryInfo` report where a limit is set, over any
record in which the driver itself has filled in no more free memory than there is. -/
def NvmlFreeAtMostTotal (devcount : ℕ) (r : SharedRegion) (dev : Dev) : Prop :=
  r.limit dev ≠ 0 → ∀ memory reported, memory.free ≤ memory.total →
    nvmlDeviceGetMemoryInfo id devcount r dev memory = some reported ∨
      nvmlDeviceGetMemoryInfoV2 id devcount r dev memory = some reported →
    reported.free ≤ reported.total

/-- Both. -/
def FreeAtMostTotal (devcount : ℕ) (r : SharedRegion) (dev : Dev) (physical : UInt64) : Prop :=
  CudaFreeAtMostTotal r dev physical ∧ NvmlFreeAtMostTotal devcount r dev

/-! ## One report -/

/-- A difference of unsigned numbers is no more than what it is taken from, unless it wraps. -/
theorem sub_le_self_iff_le (a b : UInt64) : a - b ≤ a ↔ b ≤ a := by
  refine ⟨fun h => ?_, UInt64.sub_le⟩
  by_contra hlt
  have ha := a.toNat_lt
  have hb := b.toNat_lt
  rw [UInt64.le_iff_toNat_le] at h hlt
  rw [UInt64.toNat_sub, Nat.mod_eq_of_lt (by omega)] at h
  omega

/-- The report of `cuMemGetInfo_v2` can only go wrong without a limit. -/
theorem reportMemInfo_free_le_iff (usage limit total : UInt64) :
    (∀ freeBytes totalBytes, reportMemInfo usage limit total = .ok (freeBytes, totalBytes) →
      freeBytes ≤ totalBytes) ↔ (limit = 0 → usage ≤ total) := by
  unfold reportMemInfo
  by_cases hlimit : limit = 0
  · rw [if_pos hlimit, forall_prop_of_true hlimit]
    rw [← sub_le_self_iff_le]
    constructor
    · exact fun h => h _ _ rfl
    · rintro h freeBytes totalBytes ⟨⟩
      exact h
  · refine iff_of_true (fun freeBytes totalBytes h => ?_) fun hzero => absurd hzero hlimit
    rw [if_neg hlimit] at h
    dsimp only at h
    split_ifs at h with hover hcap hfree hfree <;> cases h
    · exact UInt64.sub_le (UInt64.le_of_lt hfree)
    · exact UInt64.zero_le
    · exact UInt64.sub_le (UInt64.le_of_lt hfree)
    · exact UInt64.zero_le

section Report

variable {devcount : ℕ} {r : SharedRegion} {dev : Dev} {u : UInt64} {physical : Dev → UInt64}

theorem cudaFreeAtMostTotal_iff (hu : getCurrentDeviceMemoryUsage r dev = some u)
    (total : UInt64) : CudaFreeAtMostTotal r dev total ↔ (r.limit dev = 0 → u ≤ total) := by
  rw [← reportMemInfo_free_le_iff, CudaFreeAtMostTotal, cuMemGetInfoV2_id hu]
  simp only [Option.some.injEq]

/-- The NVML hook, on a device it finds an ordinal for or not. -/
theorem nvmlFreeAtMostTotal_of_le (hu : getCurrentDeviceMemoryUsage r dev = some u)
    (hle : u ≤ r.limit dev) : NvmlFreeAtMostTotal devcount r dev := by
  intro hlimit memory reported hmemory hreport
  have hreport' : nvmlDeviceGetMemoryInfo id devcount r dev memory = some reported :=
    hreport.elim id id
  by_cases hdev : dev.val < devcount
  · rw [nvmlDeviceGetMemoryInfo_id hdev hu, if_neg hlimit] at hreport'
    cases hreport'
    exact UInt64.sub_le hle
  · have hnone : nvmlToCudaMap id devcount dev = none := by
      rw [nvmlToCudaMap, List.find?_eq_none]
      rintro i - hi
      obtain ⟨hlt, rfl⟩ := of_decide_eq_true hi
      exact hdev hlt
    rw [nvmlDeviceGetMemoryInfo, nvmlMemoryInfoReads, hnone] at hreport'
    cases hreport'
    exact hmemory

theorem nvmlFreeAtMostTotal_iff (hdev : dev.val < devcount)
    (hu : getCurrentDeviceMemoryUsage r dev = some u) :
    NvmlFreeAtMostTotal devcount r dev ↔ (r.limit dev ≠ 0 → u ≤ r.limit dev) := by
  constructor
  · intro h hlimit
    have hreport := nvmlDeviceGetMemoryInfo_id hdev hu ⟨0, 0, 0⟩
    rw [if_neg hlimit] at hreport
    exact (sub_le_self_iff_le _ _).mp (h hlimit _ _ (UInt64.le_refl _) (Or.inl hreport))
  · exact fun h hlimit => nvmlFreeAtMostTotal_of_le hu (h hlimit) hlimit

/-- **A report is right exactly when the usage is within the bound of the device.** -/
theorem freeAtMostTotal_iff (hdev : dev.val < devcount)
    (hu : getCurrentDeviceMemoryUsage r dev = some u) (physical : Dev → UInt64) :
    FreeAtMostTotal devcount r dev (physical dev) ↔ u.toNat ≤ r.bound physical dev := by
  rw [FreeAtMostTotal, cudaFreeAtMostTotal_iff hu, nvmlFreeAtMostTotal_iff hdev hu,
    SharedRegion.bound, UInt64.le_iff_toNat_le, UInt64.le_iff_toNat_le]
  by_cases hlimit : r.limit dev = 0
  · simp [hlimit]
  · simp [hlimit]

theorem freeAtMostTotal_of_within (hu : getCurrentDeviceMemoryUsage r dev = some u)
    (h : r.Within physical) : FreeAtMostTotal devcount r dev (physical dev) := by
  have hle : u.toNat ≤ r.bound physical dev := by
    rw [getGpuMemoryUsage_toNat hu]
    exact (Nat.mod_le _ _).trans (h dev)
  rw [SharedRegion.bound] at hle
  constructor
  · rw [cudaFreeAtMostTotal_iff hu]
    intro hlimit
    rw [if_pos hlimit] at hle
    exact UInt64.le_iff_toNat_le.mpr hle
  · intro hlimit
    rw [if_neg hlimit] at hle
    exact nvmlFreeAtMostTotal_of_le hu (UInt64.le_iff_toNat_le.mpr hle) hlimit

end Report

/-! ## Every run -/

/-- A container that has just started, with one limit for all devices. -/
def Accounts.empty (limit : UInt64) : Accounts :=
  ⟨⟨fun _ => limit, fun _ => .blank, 0⟩, fun _ => none⟩

theorem Accounts.empty_fresh (limit : UInt64) : (Accounts.empty limit).Fresh := ⟨rfl, fun _ => rfl⟩

/-- Process 7 starts up, measures a `context_size` of 20 and retains the context of device 0. -/
def retainsContext : List AccountsOp :=
  [.start 7, .act 7 (.ensurePostInit 0 (fun _ => .alive) id), .act 7 (.retain 0 0),
    .act 7 (.advance 0 fun _ => .alive), .act 7 (.advance 0 fun _ => .alive),
    .act 7 (.measure 0 (some 20)), .act 7 (.release 0 0), .act 7 (.advance 0 fun _ => .alive),
    .act 7 (.retain 0 0), .act 7 (.advance 0 fun _ => .alive),
    .act 7 (.advance 0 fun _ => .alive)]

/-- Process 7 checks twice for 200 bytes on device 0 and tracks them, in `cuMemAllocManaged`. -/
def allocatesManaged : List AccountsOp :=
  [.start 7, .act 7 (.call (.oomCheck (fun _ => .alive) (fun _ _ => .alive) 0 200)),
    .act 7 (.call (.oomCheck (fun _ => .alive) (fun _ _ => .alive) 0 200)),
    .act 7 (.request (.chunk true ⟨4096, 200, 0⟩))]

theorem exec_retainsContext_within :
    (exec Accounts.step (fun s op => op.IdentityMap ∧ op.Fits (fun _ => 100) s) retainsContext
      (Accounts.empty 50)).map (fun t => getCurrentDeviceMemoryUsage t.region 0) =
      some (some 20) := by
  decide +kernel

theorem exec_retainsContext_above :
    (exec Accounts.step (fun _ op => op.IdentityMap) retainsContext (Accounts.empty 10)).map
      (fun t => (getCurrentDeviceMemoryUsage t.region 0, t.region.limit 0)) =
      some (some 20, 10) := by
  decide +kernel

theorem exec_allocatesManaged :
    (exec Accounts.step (fun _ op => op.IdentityMap) allocatesManaged (Accounts.empty 0)).map
      (fun t => (getCurrentDeviceMemoryUsage t.region 0, t.region.limit 0)) =
      some (some 200, 0) := by
  decide +kernel

end HamiCore
