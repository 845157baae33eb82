import HamiCore.Process.PostInit
import HamiCore.Utilization.Measure

/-!
# Processes outside the container are not seen

NVML reports the processes of all containers on a device.  `get_used_gpu_utilization` tells its own
apart by their host pids, which `postInit` has put into the slots.  A slot without a host pid has 0
there, and one of a process that has exited keeps the host pid until it is dropped.

`outside_unseen` is what comes of both together.  As long as `set_task_pid` is not disturbed and a
pid keeps its host pid, a slot only ever has the host pid of a process of the container; so two
reports that agree on what is not outside it lead to the same utilisation of every device and to the
same figures in the slots.  The
pid 0 belongs to no process outside: an entry for it would be found in the first slot without a host
pid.
-/

namespace HamiCore

/-- A report without the entries of some pids. -/
def NvmlReport.without (outside : UInt32 → Bool) (report : NvmlReport) : NvmlReport where
  infos := report.infos.map (List.filter fun info => !outside info.pid)
  samples := report.samples.map (List.filter fun sample => !outside sample.pid)

/-- Every slot has a host pid of the container, or none. -/
def SharedRegion.KnowsOwn (hostPidOf : Pid → UInt32) (r : SharedRegion) : Prop :=
  ∀ i < r.procNum, (r.procs i).hostpid = 0 ∨ ∃ p, (r.procs i).hostpid = asInt (hostPidOf p)

/-- A pid that is no process's of the container, nor 0. -/
def OutsidePid (hostPidOf : Pid → UInt32) (pid : UInt32) : Prop :=
  pid ≠ 0 ∧ ∀ p, pid ≠ hostPidOf p

/-- A fold over a list can leave out what it skips. -/
theorem foldl_filter_of_skip {α β : Type*} {f : β → α → β} {keep : α → Bool} {I : β → Prop}
    (hkeep : ∀ b a, I b → I (f b a)) (hskip : ∀ b a, I b → keep a = false → f b a = b)
    {b : β} (hb : I b) (l : List α) : (l.filter keep).foldl f b = l.foldl f b := by
  induction l generalizing b with
  | nil => rfl
  | cons a l ih =>
    rw [List.foldl_cons]
    cases ha : keep a with
    | true =>
      rw [List.filter_cons_of_pos ha, List.foldl_cons]
      exact ih (hkeep b a hb)
    | false =>
      rw [List.filter_cons_of_neg (by rw [ha]; exact Bool.false_ne_true), hskip b a hb ha]
      exact ih hb

section Attribution

variable {hostPidOf : Pid → UInt32} {outside : UInt32 → Bool} {r r' : SharedRegion}

/-- The conversion to `int` loses nothing. -/
theorem asInt_injective : Function.Injective asInt := by
  intro p q h
  have hmod : (p.toNat : ℤ).bmod (2 ^ 32) = (q.toNat : ℤ).bmod (2 ^ 32) := h
  have hp := p.toNat_lt
  have hq := q.toNat_lt
  rw [Int.bmod_def, Int.bmod_def] at hmod
  exact UInt32.toNat_inj.mp (by omega)

theorem asInt_zero : asInt 0 = 0 := Int.zero_bmod

theorem SameHostpids.knowsOwn (h : SameHostpids r r') (hr : r.KnowsOwn hostPidOf) :
    r'.KnowsOwn hostPidOf := by
  intro i hi
  rw [h.hostpid i]
  exact hr i (h.procNum ▸ hi)

/-- No slot has the host pid of a process outside. -/
theorem SharedRegion.KnowsOwn.not_hasHostpid (hr : r.KnowsOwn hostPidOf) {pid : UInt32}
    (hpid : OutsidePid hostPidOf pid) : ¬ r.HasHostpid pid := by
  rintro ⟨i, hi, hhost⟩
  rcases hr i hi with hzero | ⟨p, hown⟩
  · exact hpid.1 (asInt_injective (hhost.symm.trans (hzero.trans asInt_zero.symm)))
  · exact hpid.2 p (asInt_injective (hhost.symm.trans hown))

theorem SharedRegion.KnowsOwn.findProcByHostpid (hr : r.KnowsOwn hostPidOf) {pid : UInt32}
    (hpid : OutsidePid hostPidOf pid) : findProcByHostpid r (asInt pid) = none := by
  rw [← Option.not_isSome_iff_eq_none, findProcByHostpid_isSome]
  exact hr.not_hasHostpid hpid

/-- **A round over a device.**  What is outside is passed over in both loops. -/
theorem measure_without (hout : ∀ pid, outside pid = true → OutsidePid hostPidOf pid)
    {s : UtilState} (hs : s.region.KnowsOwn hostPidOf) (cudadev : Dev) (report : NvmlReport) :
    s.measure cudadev (report.without outside) = s.measure cudadev report ∧
      (s.measure cudadev report).region.KnowsOwn hostPidOf := by
  have hinfos : ∀ infos : List NvmlProcessInfo,
      (infos.filter fun info => !outside info.pid).foldl (recordInfo cudadev) s.region
        = infos.foldl (recordInfo cudadev) s.region := by
    refine foldl_filter_of_skip (I := SharedRegion.KnowsOwn hostPidOf) (fun r info hr => ?_)
      (fun r info hr hskip => ?_) hs
    · exact (recordInfo_sameHostpids cudadev [info] r).knowsOwn hr
    · rw [recordInfo, hr.findProcByHostpid (hout _ (by simpa using hskip))]
  have hsamples : ∀ (samples : List ProcessUtilizationSample) (x : UInt64 × SharedRegion),
      x.2.KnowsOwn hostPidOf →
      (samples.filter fun sample => !outside sample.pid).foldl (recordSample cudadev) x
        = samples.foldl (recordSample cudadev) x := by
    refine fun samples x hx => foldl_filter_of_skip
      (I := fun x : UInt64 × SharedRegion => x.2.KnowsOwn hostPidOf) (fun x sample hr => ?_)
      (fun x sample hr hskip => ?_) hx samples
    · exact (recordSamples_spec cudadev [sample] x.1 x.2).2.knowsOwn hr
    · simp only [recordSample, hr.findProcByHostpid (hout _ (by simpa using hskip))]
  have hmem : SharedRegion.KnowsOwn hostPidOf
      ((0 : UInt64), (report.infos.getD []).foldl (recordInfo cudadev) s.region).2 :=
    (recordInfo_sameHostpids cudadev (report.infos.getD []) s.region).knowsOwn hs
  have hgetD : ∀ {α : Type} (l : Option (List α)) (keep : α → Bool),
      (l.map (List.filter keep)).getD [] = (l.getD []).filter keep := by
    intro α l keep
    cases l <;> rfl
  constructor
  · simp only [UtilState.measure, NvmlReport.without, hgetD, hinfos, hsamples _ _ hmem]
  · exact (recordSamples_spec cudadev (report.samples.getD []) 0 _).2.knowsOwn hmem

/-- **The loop over the devices.** -/
theorem utilizationLoop_without (hout : ∀ pid, outside pid = true → OutsidePid hostPidOf pid)
    (cudaToNvmlMap : Dev → Dev) (n : ℕ) (nvml : Dev → Option NvmlReport) (devs : List Dev)
    {s : UtilState} (hs : s.region.KnowsOwn hostPidOf) :
    utilizationLoop cudaToNvmlMap n (fun d => (nvml d).map (NvmlReport.without outside)) devs s
      = utilizationLoop cudaToNvmlMap n nvml devs s := by
  induction devs generalizing s with
  | nil => rfl
  | cons devi devs ih =>
    rw [utilizationLoop, utilizationLoop]
    cases nvmlToCudaMap cudaToNvmlMap n devi with
    | none => exact ih hs
    | some cudadev =>
      dsimp only
      cases nvml cudadev with
      | none => rfl
      | some report =>
        obtain ⟨hsame, hnext⟩ :=
          measure_without hout (s := s.setUserutil cudadev 0) hs cudadev report
        dsimp only [Option.map_some]
        rw [hsame]
        exact ih hnext

/-- What `postInit` puts into the slots. -/
theorem PostInitState.Inv.knowsOwn {s : PostInitState} (h : s.Inv hostPidOf) :
    s.region.KnowsOwn hostPidOf := by
  intro i hi
  rcases h.region i hi with hzero | ⟨p, hown, -⟩
  · exact Or.inl hzero
  · exact Or.inr ⟨p, hown⟩

/-- **Processes outside the container are not seen.**  In every state that the processes of a
container reach under the conditions of `hostpid_own_or_zero`, calling `postInit`, failing, exiting
and being killed in any interleaving: two answers of NVML that agree but for the entries of
processes outside the container lead to the same utilisation of every device and leave the same
region behind. -/
theorem outside_unseen {s s' : PostInitState} (hs : s.Start hostPidOf)
    (hrun : GuardedRun PostInitState.step (PostInitState.Undisturbed hostPidOf) s s')
    (hout : ∀ pid, outside pid = true → OutsidePid hostPidOf pid) (cudaToNvmlMap : Dev → Dev)
    (n : ℕ) (nvml nvml' : Dev → Option NvmlReport)
    (hagree : ∀ d, (nvml d).map (NvmlReport.without outside)
      = (nvml' d).map (NvmlReport.without outside)) (userutil : Dev → ℤ) :
    getUsedGpuUtilization cudaToNvmlMap n nvml ⟨s'.region, userutil⟩
      = getUsedGpuUtilization cudaToNvmlMap n nvml' ⟨s'.region, userutil⟩ := by
  have hown : s'.region.KnowsOwn hostPidOf := (hs.inv.run hrun).knowsOwn
  rw [getUsedGpuUtilization, getUsedGpuUtilization,
    ← utilizationLoop_without hout cudaToNvmlMap n nvml _ hown,
    ← utilizationLoop_without hout cudaToNvmlMap n nvml' _ hown, funext hagree]

end Attribution

/-- The process outside the container has host pid 500. -/
def neighbourPid (pid : UInt32) : Bool := pid = 500

/-- It is idle, and then it is busy. -/
def busyOutside (smUtil : UInt32) (_ : Dev) : Option NvmlReport :=
  some ⟨some [⟨1001, 64⟩, ⟨500, 32⟩], some [⟨500, smUtil⟩, ⟨1001, 30⟩]⟩

/-- Both times the container's two processes are at 30 percent. -/
theorem outside_unseen_oneAfterTheOther :
    ∃ s : PostInitState, (s.region.procs 0).hostpid = 1001 ∧
      getUsedGpuUtilization id 1 (busyOutside 0) ⟨s.region, fun _ => 0⟩
        = getUsedGpuUtilization id 1 (busyOutside 70) ⟨s.region, fun _ => 0⟩ := by
  obtain ⟨s, hexec, hs⟩ := Option.map_eq_some_iff.mp exec_oneAfterTheOther
  simp only [Prod.mk.injEq] at hs
  have hout : ∀ pid, neighbourPid pid = true → OutsidePid outsidePid pid := by
    intro pid hpid
    obtain rfl : pid = 500 := of_decide_eq_true hpid
    refine ⟨by decide, fun p => ?_⟩
    rw [outsidePid]
    split_ifs <;> decide
  exact ⟨s, hs.2.1, outside_unseen twoAtPostInit_start
    (GuardedRun.of_exec (fun _ _ _ => undisturbed_of_eval) hexec) hout id 1
    (busyOutside 0) (busyOutside 70) (fun _ => rfl) fun _ => 0⟩

end HamiCore
