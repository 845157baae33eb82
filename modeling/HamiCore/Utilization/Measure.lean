import HamiCore.Device.Index
import HamiCore.Process.HostPid
import Mathlib.Data.Set.Function

/-!
# Measuring the utilisation

`get_used_gpu_utilization` goes through the NVML indices, looks up the ordinal of each, and adds up
the utilisation that NVML reports for the registered processes.  The device it asks NVML about is
the one whose NVML index is the *ordinal*: the handle is taken for `cudadev` and not for `devi`.  An
ordinal that the device map moves is therefore given the figures of another device
(`getUsedGpuUtilization_iff`).
-/

namespace HamiCore

/-- `nvmlProcessUtilizationSample_t`, the fields that are read. -/
structure ProcessUtilizationSample where
  pid : UInt32
  smUtil : UInt32
  deriving DecidableEq

/-- What NVML answers for one device, `none` for an error: its processes and its samples. -/
structure NvmlReport where
  infos : Option (List NvmlProcessInfo)
  samples : Option (List ProcessUtilizationSample)

/-- `find_proc_by_hostpid(hostpid)`. -/
def findProcByHostpid (r : SharedRegion) (hostpid : Pid) : Option ℕ :=
  (List.range r.procNum).find? fun i => (r.procs i).hostpid = hostpid

/-- One round of the loop over the processes: `monitorused` of a registered one. -/
def recordInfo (cudadev : Dev) (r : SharedRegion) (info : NvmlProcessInfo) : SharedRegion :=
  match findProcByHostpid r (asInt info.pid) with
  | none => r
  | some i => r.setSlot i { r.procs i with
      monitorused := Function.update (r.procs i).monitorused cudadev info.usedGpuMemory }

/-- One round of the loop over the samples: `sum`, and `sm_util` of a registered process. -/
def recordSample (cudadev : Dev) (sumAndRegion : UInt64 × SharedRegion)
    (sample : ProcessUtilizationSample) : UInt64 × SharedRegion :=
  let r := sumAndRegion.2
  match findProcByHostpid r (asInt sample.pid) with
  | none => sumAndRegion
  | some i => (sumAndRegion.1 + sample.smUtil.toUInt64, r.setSlot i { r.procs i with
      deviceUtil := Function.update (r.procs i).deviceUtil cudadev
        { (r.procs i).deviceUtil cudadev with smUtil := sample.smUtil.toUInt64 } })

/-- The region and the array that `get_used_gpu_utilization` writes to. -/
structure UtilState where
  region : SharedRegion
  userutil : Dev → ℤ

/-- `userutil[dev] = util`. -/
def UtilState.setUserutil (s : UtilState) (dev : Dev) (util : ℤ) : UtilState :=
  { s with userutil := Function.update s.userutil dev util }

/-- One round of the loop, behind the two queries. -/
def UtilState.measure (s : UtilState) (cudadev : Dev) (report : NvmlReport) : UtilState :=
  let r := (report.infos.getD []).foldl (recordInfo cudadev) s.region
  let sumAndRegion := (report.samples.getD []).foldl (recordSample cudadev) (0, r)
  { s with region := sumAndRegion.2 }.setUserutil cudadev
    ((sumAndRegion.1.toNat : ℤ).bmod (2 ^ 32))

/-- The loop of `get_used_gpu_utilization` over the NVML indices.  `nvml` is what NVML answers for
the device of a given NVML index, and `none` when there is no handle for it. -/
def utilizationLoop (cudaToNvmlMap : Dev → Dev) (nvmlCounts : ℕ)
    (nvml : Dev → Option NvmlReport) : List Dev → UtilState → UtilState
  | [], s => s
  | devi :: devs, s =>
    match nvmlToCudaMap cudaToNvmlMap nvmlCounts devi with
    | none => utilizationLoop cudaToNvmlMap nvmlCounts nvml devs s
    | some cudadev =>
      match nvml cudadev with
      | none => s.setUserutil cudadev 0
      | some report =>
        utilizationLoop cudaToNvmlMap nvmlCounts nvml devs
          ((s.setUserutil cudadev 0).measure cudadev report)

/-- `get_used_gpu_utilization`, for `CUDA_DEVICE_MAX_COUNT` devices at most. -/
def getUsedGpuUtilization (cudaToNvmlMap : Dev → Dev) (nvmlCounts : ℕ)
    (nvml : Dev → Option NvmlReport) (s : UtilState) : UtilState :=
  utilizationLoop cudaToNvmlMap nvmlCounts nvml
    ((List.finRange cudaDeviceMaxCount).filter fun devi => devi.val < nvmlCounts) s

/-! ### The sum over the registered processes -/

/-- The pid is the host pid of a registered slot. -/
def SharedRegion.HasHostpid (r : SharedRegion) (pid : UInt32) : Prop :=
  ∃ i < r.procNum, (r.procs i).hostpid = asInt pid

instance (r : SharedRegion) (pid : UInt32) : Decidable (r.HasHostpid pid) :=
  inferInstanceAs (Decidable (∃ i < r.procNum, (r.procs i).hostpid = asInt pid))

/-- The utilisation of the registered processes, from the samples of one device. -/
def sampledUtil (r : SharedRegion) (samples : List ProcessUtilizationSample) : ℕ :=
  ((samples.filter fun sample => r.HasHostpid sample.pid).map fun sample =>
    sample.smUtil.toNat).sum

/-- Two regions with the same registered slots and host pids. -/
structure SameHostpids (r r' : SharedRegion) : Prop where
  procNum : r'.procNum = r.procNum
  hostpid : ∀ i, (r'.procs i).hostpid = (r.procs i).hostpid

namespace SameHostpids

theorem refl (r : SharedRegion) : SameHostpids r r := ⟨rfl, fun _ => rfl⟩

theorem trans {r₁ r₂ r₃ : SharedRegion} (h : SameHostpids r₁ r₂) (h' : SameHostpids r₂ r₃) :
    SameHostpids r₁ r₃ :=
  ⟨h'.procNum.trans h.procNum, fun i => (h'.hostpid i).trans (h.hostpid i)⟩

/-- A slot overwritten with one of the same host pid. -/
theorem setSlot (r : SharedRegion) {i : ℕ} {slot : ShrregProcSlot}
    (h : slot.hostpid = (r.procs i).hostpid) : SameHostpids r (r.setSlot i slot) := by
  refine ⟨rfl, fun j => ?_⟩
  by_cases hj : j = i
  · rw [hj, SharedRegion.setSlot_procs_self, h]
  · rw [SharedRegion.setSlot_procs_of_ne _ hj]

theorem hasHostpid_iff {r r' : SharedRegion} (h : SameHostpids r r') (pid : UInt32) :
    r'.HasHostpid pid ↔ r.HasHostpid pid := by
  simp only [SharedRegion.HasHostpid, h.procNum, h.hostpid]

theorem sampledUtil_eq {r r' : SharedRegion} (h : SameHostpids r r')
    (samples : List ProcessUtilizationSample) : sampledUtil r' samples = sampledUtil r samples := by
  simp only [sampledUtil, h.hasHostpid_iff]

end SameHostpids

/-- The search succeeds exactly for the registered host pids. -/
theorem findProcByHostpid_isSome (r : SharedRegion) (pid : UInt32) :
    (findProcByHostpid r (asInt pid)).isSome ↔ r.HasHostpid pid := by
  simp [findProcByHostpid, SharedRegion.HasHostpid]

/-- The first loop writes no host pid. -/
theorem recordInfo_sameHostpids (cudadev : Dev) (infos : List NvmlProcessInfo)
    (r : SharedRegion) : SameHostpids r (infos.foldl (recordInfo cudadev) r) := by
  induction infos generalizing r with
  | nil => exact .refl r
  | cons info infos ih =>
    rw [List.foldl_cons]
    refine SameHostpids.trans ?_ (ih _)
    unfold recordInfo
    cases findProcByHostpid r (asInt info.pid) with
    | none => exact .refl r
    | some i => exact .setSlot r rfl

/-- One round of the second loop. -/
theorem recordSample_spec (cudadev : Dev) (sum : UInt64) (r : SharedRegion)
    (sample : ProcessUtilizationSample) :
    (recordSample cudadev (sum, r) sample).1.toNat = (sum.toNat + sampledUtil r [sample]) % 2 ^ 64 ∧
      SameHostpids r (recordSample cudadev (sum, r) sample).2 := by
  have hfind := findProcByHostpid_isSome r sample.pid
  cases h : findProcByHostpid r (asInt sample.pid) with
  | none =>
    have hnot : ¬ r.HasHostpid sample.pid := by simpa [h] using hfind
    simp only [recordSample, h]
    refine ⟨?_, .refl r⟩
    rw [sampledUtil, List.filter_cons_of_neg (by simpa using hnot)]
    exact (Nat.mod_eq_of_lt sum.toNat_lt).symm
  | some i =>
    have hreg : r.HasHostpid sample.pid := by simpa [h] using hfind
    simp only [recordSample, h]
    refine ⟨?_, .setSlot r rfl⟩
    simp [sampledUtil, hreg]

/-- The second loop adds up the samples of the registered processes and writes no host pid. -/
theorem recordSamples_spec (cudadev : Dev) (samples : List ProcessUtilizationSample)
    (sum : UInt64) (r : SharedRegion) :
    (samples.foldl (recordSample cudadev) (sum, r)).1.toNat
        = (sum.toNat + sampledUtil r samples) % 2 ^ 64 ∧
      SameHostpids r (samples.foldl (recordSample cudadev) (sum, r)).2 := by
  induction samples generalizing sum r with
  | nil => exact ⟨(Nat.mod_eq_of_lt sum.toNat_lt).symm, .refl r⟩
  | cons sample samples ih =>
    obtain ⟨hsum₁, hsame₁⟩ := recordSample_spec cudadev sum r sample
    obtain ⟨hsum, hsame⟩ := ih (recordSample cudadev (sum, r) sample).1
      (recordSample cudadev (sum, r) sample).2
    have hcons : sampledUtil r (sample :: samples)
        = sampledUtil r [sample] + sampledUtil r samples := by
      rw [sampledUtil, sampledUtil, sampledUtil, ← List.sum_append, ← List.map_append,
        ← List.filter_append]
      rfl
    refine ⟨hsum.trans ?_, hsame₁.trans hsame⟩
    rw [hsame₁.sampledUtil_eq, hsum₁, Nat.mod_add_mod, hcons, Nat.add_assoc]

/-- One round over the devices: the ordinal gets the sum, as an `int`; the others keep theirs. -/
theorem measure_spec (s : UtilState) (cudadev : Dev) (infos : List NvmlProcessInfo)
    (samples : List ProcessUtilizationSample) :
    SameHostpids s.region (s.measure cudadev ⟨some infos, some samples⟩).region ∧
      (s.measure cudadev ⟨some infos, some samples⟩).userutil
        = Function.update s.userutil cudadev
            ((sampledUtil s.region samples : ℤ).bmod (2 ^ 32)) := by
  have hmem := recordInfo_sameHostpids cudadev infos s.region
  obtain ⟨hsum, hsame⟩ := recordSamples_spec cudadev samples 0
    (infos.foldl (recordInfo cudadev) s.region)
  refine ⟨hmem.trans hsame, ?_⟩
  have hsum' : ((samples.foldl (recordSample cudadev)
      (0, infos.foldl (recordInfo cudadev) s.region)).1.toNat : ℤ).bmod (2 ^ 32)
      = (sampledUtil s.region samples : ℤ).bmod (2 ^ 32) := by
    rw [hsum, hmem.sampledUtil_eq, UInt64.toNat_zero, Nat.zero_add, Int.natCast_mod]
    rw [← Int.emod_bmod, Int.emod_emod_of_dvd _ (by decide), Int.emod_bmod]
  simp only [UtilState.measure, UtilState.setUserutil, Option.getD_some, hsum']

/-! ### The devices -/

section Loop

variable {cudaToNvmlMap : Dev → Dev} {n : ℕ}

/-- The lookup finds the ordinal that maps to the index. -/
theorem nvmlToCudaMap_eq_some (hinj : Set.InjOn cudaToNvmlMap {c | c.val < n}) {devi c : Dev} :
    nvmlToCudaMap cudaToNvmlMap n devi = some c ↔ c.val < n ∧ cudaToNvmlMap c = devi := by
  have hspec : ∀ {d : Dev}, nvmlToCudaMap cudaToNvmlMap n devi = some d →
      d.val < n ∧ cudaToNvmlMap d = devi := fun h => by simpa using List.find?_some h
  refine ⟨hspec, fun ⟨hc, hmap⟩ => ?_⟩
  obtain ⟨d, hd⟩ : ∃ d, nvmlToCudaMap cudaToNvmlMap n devi = some d :=
    Option.isSome_iff_exists.mp
      (List.find?_isSome.mpr ⟨c, List.mem_finRange c, by simp [hc, hmap]⟩)
  rw [hd, hinj (hspec hd).1 hc ((hspec hd).2.trans hmap.symm)]

/-- **What the loop stores.**  An ordinal whose index has come up holds the sum over the samples of
the device whose NVML index is the ordinal; the others hold what they held. -/
theorem utilizationLoop_userutil (hinj : Set.InjOn cudaToNvmlMap {c | c.val < n})
    (infos : Dev → List NvmlProcessInfo) (samples : Dev → List ProcessUtilizationSample)
    (devs : List Dev) (s : UtilState) {c : Dev} (hc : c.val < n) :
    (utilizationLoop cudaToNvmlMap n (fun d => some ⟨some (infos d), some (samples d)⟩)
        devs s).userutil c
      = if cudaToNvmlMap c ∈ devs then (sampledUtil s.region (samples c) : ℤ).bmod (2 ^ 32)
        else s.userutil c := by
  induction devs generalizing s with
  | nil => rfl
  | cons devi devs ih =>
    cases hlook : nvmlToCudaMap cudaToNvmlMap n devi with
    | none =>
      have hne : cudaToNvmlMap c ≠ devi := fun h => by
        rw [(nvmlToCudaMap_eq_some hinj).mpr ⟨hc, h⟩] at hlook
        cases hlook
      simp only [utilizationLoop, hlook, ih, List.mem_cons, hne, false_or]
    | some d =>
      obtain ⟨hd, rfl⟩ := (nvmlToCudaMap_eq_some hinj).mp hlook
      obtain ⟨hsame, hutil⟩ := measure_spec (s.setUserutil d 0) d (infos d) (samples d)
      have hregion : (s.setUserutil d 0).region = s.region := rfl
      simp only [utilizationLoop, hlook, ih, List.mem_cons, hsame.sampledUtil_eq, hutil, hregion]
      by_cases hcd : c = d
      · subst hcd
        rw [Function.update_self, if_pos (Or.inl rfl), ite_self]
      · have hne : cudaToNvmlMap c ≠ cudaToNvmlMap d := fun h => hcd (hinj hc hd h)
        have hkeep : (s.setUserutil d 0).userutil c = s.userutil c :=
          Function.update_of_ne hcd _ _
        simp only [Function.update_of_ne hcd, hkeep, hne, false_or]

end Loop

/-- A natural number survives as an `int` exactly below `2 ^ 31`. -/
theorem bmod_eq_natCast_iff {m k : ℕ} :
    (m : ℤ).bmod (2 ^ 32) = k ↔ k < 2 ^ 31 ∧ m % 2 ^ 32 = k := by
  rw [Int.bmod_def]
  omega

/-- **When the utilisation is that of the right device.**  For a device map that permutes the NVML
indices, every ordinal gets the sum over the device it maps to exactly when that sum is an `int` and
the map leaves the ordinal in place, or else the samples of the two devices add up to the same. -/
theorem getUsedGpuUtilization_iff {cudaToNvmlMap : Dev → Dev} {n : ℕ}
    (hperm : Set.BijOn cudaToNvmlMap {c | c.val < n} {c | c.val < n})
    (infos : Dev → List NvmlProcessInfo) (samples : Dev → List ProcessUtilizationSample)
    (s : UtilState) :
    (∀ c : Dev, c.val < n →
      (getUsedGpuUtilization cudaToNvmlMap n
          (fun d => some ⟨some (infos d), some (samples d)⟩) s).userutil c
        = sampledUtil s.region (samples (cudaToNvmlMap c))) ↔
      ∀ c : Dev, c.val < n →
        sampledUtil s.region (samples (cudaToNvmlMap c)) < 2 ^ 31 ∧
          (cudaToNvmlMap c = c ∨
            sampledUtil s.region (samples c) % 2 ^ 32
              = sampledUtil s.region (samples (cudaToNvmlMap c))) := by
  refine forall_congr' fun c => imp_congr_right fun hc => ?_
  have hmem : cudaToNvmlMap c ∈
      (List.finRange cudaDeviceMaxCount).filter fun devi => devi.val < n := by
    simpa using hperm.mapsTo hc
  rw [getUsedGpuUtilization, utilizationLoop_userutil hperm.injOn infos samples _ s hc,
    if_pos hmem, bmod_eq_natCast_iff]
  refine and_congr_right fun hlt => ⟨Or.inr, ?_⟩
  rintro (hfix | hsame)
  · rw [hfix] at hlt ⊢
    exact Nat.mod_eq_of_lt (by omega)
  · exact hsame

/-- Two devices, and one registered process of host pid 5. -/
def twoDeviceState : UtilState :=
  ⟨⟨fun _ => 0, fun _ => { ShrregProcSlot.blank with pid := 7, hostpid := 5 }, 1⟩, fun _ => 0⟩

/-- The process runs on the device of NVML index 1 only. -/
def samplesOnOne (d : Dev) : List ProcessUtilizationSample :=
  if d.val = 1 then [⟨5, 30⟩] else []

/-- With the identity as the map, the figures are right. -/
theorem utilization_of_identity_map :
    Set.BijOn (id : Dev → Dev) {c | c.val < 2} {c | c.val < 2} ∧
      ∀ c : Dev, c.val < 2 →
        (getUsedGpuUtilization id 2 (fun d => some ⟨some [], some (samplesOnOne d)⟩)
            twoDeviceState).userutil c
          = sampledUtil twoDeviceState.region (samplesOnOne c) := by
  have hperm : Set.BijOn (id : Dev → Dev) {c | c.val < 2} {c | c.val < 2} := Set.bijOn_id _
  have hsmall : ∀ c : Dev, sampledUtil twoDeviceState.region (samplesOnOne c) < 2 ^ 31 := by decide
  exact ⟨hperm, (getUsedGpuUtilization_iff hperm (fun _ => []) samplesOnOne twoDeviceState).mpr
    fun c _ => ⟨hsmall c, Or.inl rfl⟩⟩

/-- With the two devices exchanged, ordinal 0 stands for the device of NVML index 1, on which the
process runs, and is given the figures of the idle device of NVML index 0. -/
theorem utilization_of_exchanged_devices :
    Set.BijOn (Equiv.swap (0 : Dev) 1) {c | c.val < 2} {c | c.val < 2} ∧
      ¬ ∀ c : Dev, c.val < 2 →
        (getUsedGpuUtilization (Equiv.swap (0 : Dev) 1) 2
            (fun d => some ⟨some [], some (samplesOnOne d)⟩) twoDeviceState).userutil c
          = sampledUtil twoDeviceState.region (samplesOnOne (Equiv.swap (0 : Dev) 1 c)) := by
  have hmaps : ∀ c : Dev, c.val < 2 → (Equiv.swap (0 : Dev) 1 c).val < 2 := by decide
  have hself : ∀ c : Dev, Equiv.swap (0 : Dev) 1 (Equiv.swap (0 : Dev) 1 c) = c := by decide
  refine ⟨⟨hmaps, (Equiv.swap (0 : Dev) 1).injective.injOn, ?_⟩, fun h => ?_⟩
  · exact fun c hc => ⟨Equiv.swap (0 : Dev) 1 c, hmaps c hc, hself c⟩
  · exact absurd (h 0 (by decide)) (by decide)

end HamiCore
