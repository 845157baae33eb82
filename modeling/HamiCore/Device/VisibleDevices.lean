import HamiCore.Library.CString
import HamiCore.Region.Slot

/-!
# The device map at start-up

`cuda_to_nvml_map_array` is written in two places.  `postInit`, run once by the first successful
`cuInit`, sets it from `CUDA_VISIBLE_DEVICES`; `nvml_preInit`, run once by the first `nvmlInit`,
sets it to the identity.  And `postInit` itself comes to `nvmlInit`, through `set_task_pid` and
again through `init_utilization_watcher`, after it has set the map.  So the map of the environment
survives exactly when the NVML initialiser has run before, or has nothing to undo
(`device_map_after_cuInit_iff`).

`nvml_preInit` also fills in `nvml_library_entry`, the functions of the NVML library, which are
taken to be there.  Where neither an earlier call nor `set_task_pid` has come to it,
`init_utilization_watcher` calls a pointer that is `NULL`, and `cuInit` does not return.
-/

namespace HamiCore

/-- `cuda_to_nvml_map_array`. -/
abbrev DeviceMap := Dev → ℤ

/-- The loop that sets entry `i` to `i`. -/
def DeviceMap.identity : DeviceMap := fun i => i.val

/-- `getenvcount()` for a given value of `CUDA_VISIBLE_DEVICES`. -/
def getenvcount (value : Option (List Char)) : ℤ :=
  match value with
  | none => -1
  | some s => if s.length = 0 then -1 else (s.count ',' : ℤ) + 1

/-- `need_cuda_virtualize()`, where `deviceCount` is what the driver's `cuDeviceGetCount` reports
and `none` stands for its failure. -/
def needCudaVirtualize (value : Option (List Char)) (deviceCount : Option ℤ) : Bool :=
  match value with
  | none => false
  | some s =>
    if s.length = 0 then false
    else
      match deviceCount with
      | none => true
      | some count1 => getenvcount value = count1

/-- The numbers the loop of `parse_cuda_visible_env` stores, one after the other, from position `i`
of the string on: at the start of the string, and after each comma that is not there. -/
def visibleDevices : ℕ → List Char → List ℤ
  | _, [] => []
  | i, c :: cs =>
    if c = ',' ∨ i = 0 then
      (if i = 0 then atoi (c :: cs) else atoi cs) :: visibleDevices (i + 1) cs
    else visibleDevices (i + 1) cs

/-- The array after the loop: the stored numbers, and behind them the entries' own indices. -/
def DeviceMap.ofDevices (devices : List ℤ) : DeviceMap := fun i => devices.getD i.val i.val

/-- `parse_cuda_visible_env()`: the array and the return value; `none` when a number is stored past
the end of the array. -/
def parseCudaVisibleEnv (value : Option (List Char)) (deviceCount : Option ℤ) :
    Option (DeviceMap × ℕ) :=
  if needCudaVirtualize value deviceCount then
    let devices := visibleDevices 0 (value.getD [])
    if devices.length ≤ cudaDeviceMaxCount then
      some (DeviceMap.ofDevices devices, devices.length)
    else none
  else some (DeviceMap.identity, 0)

/-- No more numbers are stored than `getenvcount` counts. -/
theorem length_visibleDevices_succ_le (i : ℕ) (s : List Char) :
    (visibleDevices (i + 1) s).length ≤ s.count ',' := by
  induction s generalizing i with
  | nil => exact le_rfl
  | cons c cs ih =>
    rw [visibleDevices, List.count_cons]
    by_cases hc : c = ','
    · rw [if_pos (Or.inl hc), List.length_cons, if_pos (by simp [hc])]
      exact Nat.succ_le_succ (ih (i + 1))
    · rw [if_neg (by simp [hc])]
      exact (ih (i + 1)).trans (Nat.le_add_right _ _)

theorem length_visibleDevices_le {s : List Char} (hs : s.length ≠ 0) :
    ((visibleDevices 0 s).length : ℤ) ≤ getenvcount (some s) := by
  rw [getenvcount, if_neg hs]
  cases s with
  | nil => exact absurd rfl hs
  | cons c cs =>
    rw [visibleDevices, if_pos (Or.inr rfl), List.length_cons]
    have hle : (visibleDevices (0 + 1) cs).length ≤ (c :: cs).count ',' :=
      (length_visibleDevices_succ_le 0 cs).trans List.count_le_count_cons
    omega

/-- With at most 16 fields the parse stays inside the array, and does not depend on the count the
driver reported. -/
theorem parseCudaVisibleEnv_eq {s : List Char} {deviceCount : Option ℤ}
    (hfields : getenvcount (some s) ≤ cudaDeviceMaxCount)
    (hvirt : needCudaVirtualize (some s) deviceCount = true) :
    parseCudaVisibleEnv (some s) deviceCount =
      some (DeviceMap.ofDevices (visibleDevices 0 s), (visibleDevices 0 s).length) := by
  have hs : s.length ≠ 0 := by
    intro hzero
    simp [needCudaVirtualize, hzero] at hvirt
  have hlen : (visibleDevices 0 s).length ≤ cudaDeviceMaxCount := by
    have := length_visibleDevices_le hs
    omega
  rw [parseCudaVisibleEnv, if_pos hvirt]
  exact if_pos hlen

/-! ## The two run-once initialisers -/

/-- The map and the two `pthread_once` flags that guard its writers. -/
structure StartupState where
  cudaToNvmlMapArray : DeviceMap
  /-- `init_virtual_map_pre_flag`; `nvml_library_entry` is filled in with it. -/
  initVirtualMapPre : Bool
  /-- `post_cuinit_flag`. -/
  postCuinit : Bool

/-- Before any call: a zeroed array and no initialiser run. -/
def StartupState.start : StartupState := ⟨fun _ => 0, false, false⟩

/-- What a call of `cuInit` meets. -/
structure CuInitEnv where
  /-- The driver's `cuInit` succeeds. -/
  driverOk : Bool
  /-- `cuDeviceGetCount`, as `need_cuda_virtualize` sees it. -/
  deviceCount : Option ℤ
  /-- `lock_postinit` returns `1`. -/
  lockAcquired : Bool
  /-- `nvmlDeviceGetCount` succeeds in `init_utilization_watcher`. -/
  nvmlDeviceGetCountOk : Bool

/-- The calls an application can make. -/
inductive StartupCall where
  | nvmlInit
  | nvmlInitV2
  | nvmlInitWithFlags (flags : ℕ)
  | cuInit (env : CuInitEnv)

section Startup

variable (value : Option (List Char))

/-- `pthread_once(&init_virtual_map_pre_flag, nvml_preInit)`, the common part of the three NVML
entry points. -/
def StartupState.nvmlInit (s : StartupState) : StartupState :=
  if s.initVirtualMapPre then s
  else { s with cudaToNvmlMapArray := DeviceMap.identity, initVirtualMapPre := true }

/-- `postInit`: the map, then `set_task_pid` under the lock, then `init_utilization_watcher`.
`none` is a call through a pointer that is `NULL`. -/
def StartupState.postInit (env : CuInitEnv) (s : StartupState) : Option StartupState :=
  (parseCudaVisibleEnv value env.deviceCount).bind fun (array, _) =>
    let s₁ := { s with cudaToNvmlMapArray := array }
    let s₂ := if env.lockAcquired then s₁.nvmlInit else s₁
    -- `nvmlDeviceGetCount` goes through `nvml_library_entry`, and `setspec` after it to `nvmlInit`
    if s₂.initVirtualMapPre then some (if env.nvmlDeviceGetCountOk then s₂.nvmlInit else s₂)
    else none

/-- `cuInit`. -/
def StartupState.cuInit (env : CuInitEnv) (s : StartupState) : Option StartupState :=
  if env.driverOk then
    if s.postCuinit then some s
    else (s.postInit value env).map fun s' => { s' with postCuinit := true }
  else some s

/-- One call of the application. -/
def StartupState.step (s : StartupState) : StartupCall → Option StartupState
  | .nvmlInit => some s.nvmlInit
  | .nvmlInitV2 => some s.nvmlInit
  | .nvmlInitWithFlags _ => some s.nvmlInit
  | .cuInit env => s.cuInit value env

/-- The calls of an application, one after the other. -/
def StartupState.run (s : StartupState) : List StartupCall → Option StartupState
  | [] => some s
  | c :: cs => (s.step value c).bind fun s' => StartupState.run s' cs

end Startup

/-- A call of one of the three NVML entry points. -/
def StartupCall.IsNvmlInit : StartupCall → Prop
  | .nvmlInit | .nvmlInitV2 | .nvmlInitWithFlags _ => True
  | .cuInit _ => False

/-- A call of `cuInit` that returns `CUDA_SUCCESS`. -/
def StartupCall.IsCuInit : StartupCall → Prop
  | .cuInit env => env.driverOk = true
  | _ => False

instance : DecidablePred StartupCall.IsNvmlInit
  | .nvmlInit | .nvmlInitV2 | .nvmlInitWithFlags _ => .isTrue trivial
  | .cuInit _ => .isFalse id

section Runs

variable {value : Option (List Char)} {s : StartupState}

theorem StartupState.run_append (cs cs' : List StartupCall) :
    s.run value (cs ++ cs') = (s.run value cs).bind fun s' => s'.run value cs' := by
  induction cs generalizing s with
  | nil => rfl
  | cons c cs ih =>
    rw [List.cons_append, StartupState.run, StartupState.run, Option.bind_assoc]
    congr 1
    funext s'
    exact ih

theorem StartupState.nvmlInit_postCuinit (s : StartupState) :
    s.nvmlInit.postCuinit = s.postCuinit := by
  rw [StartupState.nvmlInit]
  split_ifs <;> rfl

theorem StartupState.nvmlInit_initVirtualMapPre (s : StartupState) :
    s.nvmlInit.initVirtualMapPre = true := by
  rw [StartupState.nvmlInit]
  split_ifs with h
  · exact h
  · rfl

theorem StartupState.nvmlInit_array (s : StartupState) :
    s.nvmlInit.cudaToNvmlMapArray =
      if s.initVirtualMapPre = false then DeviceMap.identity else s.cudaToNvmlMapArray := by
  rw [StartupState.nvmlInit]
  cases s.initVirtualMapPre <;> rfl

/-- A call that does not come to `postInit` does at most what `nvmlInit` does. -/
theorem StartupState.step_of_not_postInit {c : StartupCall} (h : c.IsCuInit → s.postCuinit = true) :
    s.step value c = some (if c.IsNvmlInit then s.nvmlInit else s) := by
  cases c with
  | cuInit env =>
    show s.cuInit value env = some s
    rw [StartupState.cuInit]
    by_cases hok : env.driverOk = true
    · rw [if_pos hok, if_pos (h hok)]
    · rw [if_neg hok]
  | nvmlInit => rfl
  | nvmlInitV2 => rfl
  | nvmlInitWithFlags flags => rfl

/-- **Calls that do not come to `postInit`**: before the first successful `cuInit`, or after it.
They reset the map if the NVML initialiser had not run and one of them runs it. -/
theorem StartupState.run_of_not_postInit {cs : List StartupCall}
    (h : ∀ c ∈ cs, c.IsCuInit → s.postCuinit = true) :
    ∃ s', s.run value cs = some s' ∧ s'.postCuinit = s.postCuinit ∧
      (s'.initVirtualMapPre = true ↔ s.initVirtualMapPre = true ∨ ∃ c ∈ cs, c.IsNvmlInit) ∧
      s'.cudaToNvmlMapArray =
        if s.initVirtualMapPre = false ∧ ∃ c ∈ cs, c.IsNvmlInit then DeviceMap.identity
        else s.cudaToNvmlMapArray := by
  induction cs generalizing s with
  | nil => exact ⟨s, rfl, rfl, by simp, by simp⟩
  | cons c cs ih =>
    have hstep : s.step value c = some (if c.IsNvmlInit then s.nvmlInit else s) :=
      StartupState.step_of_not_postInit (h c List.mem_cons_self)
    by_cases hc : c.IsNvmlInit
    · rw [if_pos hc] at hstep
      have hrest : ∀ c ∈ cs, c.IsCuInit → s.nvmlInit.postCuinit = true := by
        intro c' hc' hcu
        rw [StartupState.nvmlInit_postCuinit]
        exact h c' (List.mem_cons_of_mem _ hc') hcu
      obtain ⟨s', hrun, hpost, hpre, harray⟩ := ih hrest
      refine ⟨s', by rw [StartupState.run, hstep]; exact hrun,
        hpost.trans (StartupState.nvmlInit_postCuinit s), ?_, ?_⟩
      · rw [hpre]
        exact iff_of_true (Or.inl (StartupState.nvmlInit_initVirtualMapPre s))
          (Or.inr ⟨c, List.mem_cons_self, hc⟩)
      · rw [harray, StartupState.nvmlInit_initVirtualMapPre, StartupState.nvmlInit_array]
        simp [hc]
    · rw [if_neg hc] at hstep
      obtain ⟨s', hrun, hpost, hpre, harray⟩ := ih fun c' hc' => h c' (List.mem_cons_of_mem _ hc')
      refine ⟨s', by rw [StartupState.run, hstep]; exact hrun, hpost, ?_, ?_⟩
      · rw [hpre]
        simp [hc]
      · rw [harray]
        simp [hc]

theorem StartupState.nvmlInit_of_initVirtualMapPre (h : s.initVirtualMapPre = true) :
    s.nvmlInit = s := by
  rw [StartupState.nvmlInit, if_pos h]

/-- The first successful `cuInit` does not return where NVML is not initialised before and the lock
is not taken. -/
theorem StartupState.cuInit_first_eq_none {env : CuInitEnv} (hok : env.driverOk = true)
    (hfirst : s.postCuinit = false) (hpre : s.initVirtualMapPre = false)
    (hlock : env.lockAcquired = false) : s.step value (.cuInit env) = none := by
  rw [StartupState.step, StartupState.cuInit, if_pos hok, hfirst, StartupState.postInit, hlock]
  cases parseCudaVisibleEnv value env.deviceCount with
  | none => rfl
  | some out => simp [hpre]

/-- The first successful `cuInit`, where it returns: the parsed map, which the NVML initialiser then
overwrites unless it has run before. -/
theorem StartupState.cuInit_first {env : CuInitEnv} {array : DeviceMap} {n : ℕ}
    (hok : env.driverOk = true) (hfirst : s.postCuinit = false)
    (hparse : parseCudaVisibleEnv value env.deviceCount = some (array, n))
    (hreturns : s.initVirtualMapPre = true ∨ env.lockAcquired = true) :
    ∃ s', s.step value (.cuInit env) = some s' ∧ s'.postCuinit = true ∧
      s'.initVirtualMapPre = true ∧
      s'.cudaToNvmlMapArray =
        if s.initVirtualMapPre = false then DeviceMap.identity else array := by
  have hstep : s.step value (.cuInit env) = (s.postInit value env).map fun s' =>
      { s' with postCuinit := true } := by
    rw [StartupState.step, StartupState.cuInit, if_pos hok, hfirst]
    rfl
  -- the second `nvmlInit` finds the first one done
  obtain ⟨s₂, hpost, hpre₂, harray₂⟩ : ∃ s₂, s.postInit value env = some s₂ ∧
      s₂.initVirtualMapPre = true ∧ s₂.cudaToNvmlMapArray =
        if s.initVirtualMapPre = false then DeviceMap.identity else array := by
    rw [StartupState.postInit, hparse, Option.bind_some]
    dsimp only
    by_cases hlock : env.lockAcquired = true
    · have hpre := StartupState.nvmlInit_initVirtualMapPre { s with cudaToNvmlMapArray := array }
      rw [if_pos hlock, if_pos hpre, StartupState.nvmlInit_of_initVirtualMapPre hpre, ite_self]
      exact ⟨_, rfl, hpre, StartupState.nvmlInit_array _⟩
    · have hpre : s.initVirtualMapPre = true := hreturns.resolve_right hlock
      have hsame : StartupState.nvmlInit { s with cudaToNvmlMapArray := array } =
          { s with cudaToNvmlMapArray := array } :=
        StartupState.nvmlInit_of_initVirtualMapPre hpre
      rw [if_neg hlock, if_pos hpre, hsame, ite_self]
      exact ⟨_, rfl, hpre, by rw [hpre]; rfl⟩
  exact ⟨{ s₂ with postCuinit := true }, by rw [hstep, hpost]; rfl, rfl, hpre₂, harray₂⟩

/-- **The device map after `cuInit`.**  For every value of `CUDA_VISIBLE_DEVICES` with at most 16
fields that is to be virtualised, and every sequence of calls with a first successful `cuInit` in
it: `cuInit` returns unless no NVML initialisation came first and the lock is not taken, and where
it has returned the map is the parsed one exactly when an NVML initialisation came first, or the
parsed map is the identity anyway. -/
theorem device_map_after_cuInit_iff {text : List Char} {env : CuInitEnv}
    (before after : List StartupCall) (hfields : getenvcount (some text) ≤ cudaDeviceMaxCount)
    (hvirt : needCudaVirtualize (some text) env.deviceCount = true)
    (hbefore : ∀ c ∈ before, ¬ c.IsCuInit) (hok : env.driverOk = true) :
    ∃ array n, parseCudaVisibleEnv (some text) env.deviceCount = some (array, n) ∧
      (StartupState.start.run (some text) (before ++ .cuInit env :: after) = none ↔
        (∀ c ∈ before, ¬ c.IsNvmlInit) ∧ env.lockAcquired = false) ∧
      ∀ s, StartupState.start.run (some text) (before ++ .cuInit env :: after) = some s →
        (s.cudaToNvmlMapArray = array ↔
          (∃ c ∈ before, c.IsNvmlInit) ∨ array = DeviceMap.identity) := by
  have hparse := parseCudaVisibleEnv_eq hfields hvirt
  obtain ⟨s₁, hrun₁, hpost₁, hpre₁, -⟩ : ∃ s₁, StartupState.start.run (some text) before = some s₁ ∧
      _ ∧ _ ∧ _ := StartupState.run_of_not_postInit fun c hc hcu => absurd hcu (hbefore c hc)
  have hpre₁' : s₁.initVirtualMapPre = true ↔ ∃ c ∈ before, c.IsNvmlInit := by
    rw [hpre₁]
    simp [StartupState.start]
  have hpre₁_false : s₁.initVirtualMapPre = false ↔ ∀ c ∈ before, ¬ c.IsNvmlInit := by
    rw [← Bool.not_eq_true, hpre₁']
    simp
  refine ⟨_, _, hparse, ?_⟩
  rw [StartupState.run_append, hrun₁, Option.bind_some, StartupState.run]
  by_cases hreturns : s₁.initVirtualMapPre = true ∨ env.lockAcquired = true
  · obtain ⟨s₂, hst₂, hpost₂, hpre₂, harray₂⟩ :=
      StartupState.cuInit_first hok hpost₁ hparse hreturns
    obtain ⟨s₃, hrun₃, -, -, harray₃⟩ : ∃ s₃, s₂.run (some text) after = some s₃ ∧ _ ∧ _ ∧ _ :=
      StartupState.run_of_not_postInit fun _ _ _ => hpost₂
    rw [hst₂, Option.bind_some, hrun₃]
    refine ⟨iff_of_false (by simp) ?_, ?_⟩
    · rintro ⟨hnone, hlock⟩
      rcases hreturns with hpre | hlock'
      · rw [hpre₁_false.mpr hnone] at hpre
        exact absurd hpre (by simp)
      · rw [hlock] at hlock'
        exact absurd hlock' (by simp)
    · rintro s ⟨⟩
      rw [harray₃, if_neg (by simp [hpre₂]), harray₂]
      by_cases hearly : ∃ c ∈ before, c.IsNvmlInit
      · rw [if_neg (by simp [hpre₁'.mpr hearly])]
        exact iff_of_true rfl (Or.inl hearly)
      · rw [if_pos (hpre₁_false.mpr (by simpa using hearly))]
        constructor
        · intro heq
          exact Or.inr heq.symm
        · rintro (h | h)
          · exact absurd h hearly
          · exact h.symm
  · obtain ⟨hpre, hlock⟩ : s₁.initVirtualMapPre = false ∧ env.lockAcquired = false := by
      simpa using hreturns
    rw [StartupState.cuInit_first_eq_none hok hpost₁ hpre hlock]
    exact ⟨iff_of_true rfl ⟨hpre₁_false.mp hpre, hlock⟩, fun s hs => absurd hs (by simp)⟩

end Runs

/-- Two visible devices, in the other order. -/
def swappedDevices : List Char := ['1', ',', '0']

/-- A `cuInit` of which every part succeeds. -/
def CuInitEnv.succeeds : CuInitEnv := ⟨true, some 2, true, true⟩

theorem parse_swappedDevices :
    parseCudaVisibleEnv (some swappedDevices) (some 2) = some (DeviceMap.ofDevices [1, 0], 2) := by
  have hdevices : visibleDevices 0 swappedDevices = [1, 0] := by decide +kernel
  rw [parseCudaVisibleEnv_eq (by decide) (by decide), hdevices]
  rfl

/-- With `nvmlInit` first, `1,0` is what the map says after `cuInit`. -/
theorem device_map_after_nvmlInit_cuInit :
    ∃ s, StartupState.start.run (some swappedDevices) [.nvmlInit, .cuInit .succeeds] = some s ∧
      s.cudaToNvmlMapArray = DeviceMap.ofDevices [1, 0] := by
  have hfields : getenvcount (some swappedDevices) ≤ cudaDeviceMaxCount := by decide
  have hvirt : needCudaVirtualize (some swappedDevices) CuInitEnv.succeeds.deviceCount = true := by
    decide
  have hbefore : ∀ c ∈ [StartupCall.nvmlInit], ¬ c.IsCuInit := by simp [StartupCall.IsCuInit]
  obtain ⟨array, n, hparse, hnone, hiff⟩ :=
    device_map_after_cuInit_iff [.nvmlInit] [] hfields hvirt hbefore rfl
  obtain ⟨rfl, -⟩ := Prod.mk.inj (Option.some.inj (parse_swappedDevices.symm.trans hparse))
  obtain ⟨s, hrun⟩ := Option.ne_none_iff_exists'.mp fun h =>
    absurd (hnone.mp h).2 (by simp [CuInitEnv.succeeds])
  exact ⟨s, hrun, (hiff s hrun).mpr (Or.inl ⟨.nvmlInit, List.mem_cons_self, trivial⟩)⟩

/-- With `cuInit` alone the map is the identity, not `1,0`. -/
theorem device_map_reset_by_cuInit :
    ¬ ∀ (calls : List StartupCall) (s : StartupState), (∃ c ∈ calls, c.IsCuInit) →
      StartupState.start.run (some swappedDevices) calls = some s →
      ∀ array n, parseCudaVisibleEnv (some swappedDevices) (some 2) = some (array, n) →
        s.cudaToNvmlMapArray = array := by
  intro hall
  have h := hall [.cuInit .succeeds] ⟨DeviceMap.identity, true, true⟩
    ⟨_, List.mem_cons_self, rfl⟩ rfl _ _ parse_swappedDevices
  exact absurd (congrFun h 0) (by decide)

end HamiCore
