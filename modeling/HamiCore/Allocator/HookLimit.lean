import HamiCore.Allocator.Hooks

/-!
# The limit within one process

One process is registered, and its threads run the six hooks.  Every allocation is charged inside a
section under `mutex`, after a second check in the same section, so between that check and the
charge the usage of the process can only go down; frees take the mutex (`remove_chunk`) or do not
(`remove_chunk_only`), but they only release what is tracked.  The invariant is `Within`: the total
of the device covers what is tracked and stays within the limit, and if some thread has passed its
second check, that thread has the mutex and the limit has room for what it is about to charge.

`single_process_limit` is the result.  What a section's own thread does in two steps here, check and
record, is one step for everybody else who needs the mutex.
-/

namespace HamiCore

/-! ## A region with one registered process -/

/-- The process is the only one registered, at slot `0`. -/
structure RegionInfo.Alone (info : RegionInfo) : Prop where
  procNum_eq : info.sharedRegion.procNum = 1
  mySlot_eq : info.mySlot = some 0
  pid_eq : (info.sharedRegion.procs 0).pid = info.pid
  pid_ne_zero : info.pid ≠ 0

/-- `used[d].total` of slot `0`, as a number. -/
def RegionInfo.total (info : RegionInfo) (d : Dev) : ℕ :=
  ((info.sharedRegion.procs 0).used d).total.toNat

/-- `limit[d]`, as a number. -/
def RegionInfo.limit (info : RegionInfo) (d : Dev) : ℕ := (info.sharedRegion.limit d).toNat

section Alone

variable {info info' : RegionInfo} {d : Dev}

theorem SelfCompacts.limit_eq (h : SelfCompacts info info') :
    info'.sharedRegion.limit = info.sharedRegion.limit := by
  induction h with
  | refl => rfl
  | tail _ hstep ih =>
    obtain ⟨procAlive, -, rfl⟩ := hstep
    rw [clearProcSlotNolock_limit, ih]

theorem SelfCompacts.procNum_le (h : SelfCompacts info info') :
    info'.sharedRegion.procNum ≤ info.sharedRegion.procNum := by
  induction h with
  | refl => exact le_rfl
  | tail _ hstep ih =>
    obtain ⟨procAlive, -, rfl⟩ := hstep
    exact (clearLoop_procNum_le _ _ _ _ _).trans ih

/-- A compaction finds nothing to drop. -/
theorem RegionInfo.Alone.selfCompacts (h : info.Alone) (hcomp : SelfCompacts info info') :
    info'.Alone ∧ info'.sharedRegion.procs 0 = info.sharedRegion.procs 0 := by
  have hpts : info.PointsAt (info.sharedRegion.procs 0) :=
    ⟨0, h.mySlot_eq, by rw [h.procNum_eq]; exact Nat.one_pos, rfl⟩
  obtain ⟨i, hi, hlt, hslot⟩ := hcomp.pointsAt h.pid_eq h.pid_ne_zero hpts
  have hle := hcomp.procNum_le
  rw [h.procNum_eq] at hle
  obtain rfl : i = 0 := by omega
  refine ⟨⟨by omega, hi, ?_, ?_⟩, hslot⟩
  · rw [hslot, hcomp.pid_eq]
    exact h.pid_eq
  · rw [hcomp.pid_eq]
    exact h.pid_ne_zero

/-- A charge or a release of the process. -/
theorem RegionInfo.Alone.update (h : info.Alone) (op : UInt64 → UInt64 → UInt64) (dev : Dev)
    (usage : UInt64) {out : RegionInfo × ℤ}
    (hout : updateGpuDeviceMemoryUsage op id info info.pid dev usage 2 = out) :
    out.1.Alone ∧ out.1.limit d = info.limit d ∧
      out.1.total d =
        if dev = d then (op ((info.sharedRegion.procs 0).used d).total usage).toNat
        else info.total d := by
  rw [updateGpuDeviceMemoryUsage_of_mySlot h.mySlot_eq] at hout
  subst hout
  refine ⟨⟨h.procNum_eq, h.mySlot_eq, ?_, h.pid_ne_zero⟩, rfl, ?_⟩
  · rw [RegionInfo.modifySlot_procs_self]
    exact h.pid_eq
  · rw [RegionInfo.total, RegionInfo.modifySlot_procs_self, ShrregProcSlot.used_update, id_eq]
    by_cases hd : dev = d
    · subst hd
      rw [if_pos rfl, Function.update_self, DeviceMemory.total_update]
    · rw [if_neg hd, Function.update_of_ne (Ne.symm hd)]
      rfl

/-- What a reader sees is the process's own total. -/
theorem RegionInfo.Alone.usage_toNat (h : info.Alone) {v : UInt64}
    (hv : getGpuMemoryUsage info.sharedRegion d = some v) : v.toNat = info.total d := by
  rw [getGpuMemoryUsage_toNat hv, SharedRegion.usageSum, h.procNum_eq, Finset.sum_range_one]
  exact Nat.mod_eq_of_lt (UInt64.toNat_lt _)

end Alone

/-! ## The total of the device -/

/-- The total covers what is tracked for the device and is within its limit. -/
structure TotalWithin (d : Dev) (info : RegionInfo) (l : List AllocatedDeviceMemory) : Prop where
  alone : info.Alone
  limit_pos : 0 < info.limit d
  covered : trackedBytesOn id l d ≤ info.total d
  le_limit : info.total d ≤ info.limit d

section Total

variable {d : Dev} {info info' : RegionInfo} {l : List AllocatedDeviceMemory}

theorem TotalWithin.keep (h : TotalWithin d info l) (hcomp : SelfCompacts info info') :
    TotalWithin d info' l ∧ info'.total d = info.total d ∧ info'.limit d = info.limit d := by
  obtain ⟨halone, hslot⟩ := h.alone.selfCompacts hcomp
  have htotal : info'.total d = info.total d := by
    rw [RegionInfo.total, hslot, RegionInfo.total]
  have hlimit : info'.limit d = info.limit d := by
    rw [RegionInfo.limit, hcomp.limit_eq, RegionInfo.limit]
  exact ⟨⟨halone, by rw [hlimit]; exact h.limit_pos, by rw [htotal]; exact h.covered,
    by rw [htotal, hlimit]; exact h.le_limit⟩, htotal, hlimit⟩

/-- A charge that the limit has room for. -/
theorem TotalWithin.add (h : TotalWithin d info l) (e : AllocatedDeviceMemory)
    (hroom : e.dev = d → info.total d + e.length.toNat ≤ info.limit d) :
    TotalWithin d (addGpuDeviceMemoryUsage id info info.pid e.dev e.length 2).1 (l ++ [e]) := by
  obtain ⟨halone, hlimit, htotal⟩ := h.alone.update (d := d) (· + ·) e.dev e.length rfl
  have hcovered := h.covered
  have hle := h.le_limit
  have htotal' : (addGpuDeviceMemoryUsage id info info.pid e.dev e.length 2).1.total d =
      info.total d + if e.dev = d then e.length.toNat else 0 := by
    rw [addGpuDeviceMemoryUsage, htotal]
    split_ifs with hd
    · have hroom := hroom hd
      have hlt : info.limit d < 2 ^ 64 := UInt64.toNat_lt _
      rw [UInt64.toNat_add]
      exact Nat.mod_eq_of_lt (hroom.trans_lt hlt)
    · rfl
  have hlimit' : (addGpuDeviceMemoryUsage id info info.pid e.dev e.length 2).1.limit d =
      info.limit d := hlimit
  refine ⟨halone, by rw [hlimit']; exact h.limit_pos, ?_, ?_⟩
  · rw [htotal', trackedBytesOn_append, trackedBytesOn_singleton, id_eq]
    omega
  · rw [htotal', hlimit']
    split_ifs with hd
    · exact hroom hd
    · exact hle

/-- **A release never goes below zero**: the total covers the entry that is taken out. -/
theorem TotalWithin.remove (h : TotalWithin d info l) {dptr : UInt64} {e : AllocatedDeviceMemory}
    (he : (l.find? fun val => val.address = dptr) = some e) :
    TotalWithin d (rmGpuDeviceMemoryUsage id info info.pid e.dev e.length 2).1
        (l.eraseP fun val => val.address = dptr) ∧
      (rmGpuDeviceMemoryUsage id info info.pid e.dev e.length 2).1.total d ≤ info.total d ∧
      (rmGpuDeviceMemoryUsage id info info.pid e.dev e.length 2).1.limit d = info.limit d := by
  obtain ⟨halone, hlimit, htotal⟩ := h.alone.update (d := d) (· - ·) e.dev e.length rfl
  have hcovered := h.covered
  have hle := h.le_limit
  have hbytes := trackedBytesOn_eraseP id he d
  rw [id_eq] at hbytes
  have htotal' : (rmGpuDeviceMemoryUsage id info info.pid e.dev e.length 2).1.total d =
      info.total d - if e.dev = d then e.length.toNat else 0 := by
    rw [rmGpuDeviceMemoryUsage, htotal]
    split_ifs with hd
    · rw [if_pos hd] at hbytes
      have hcover : e.length.toNat ≤ info.total d := by omega
      exact UInt64.toNat_sub_of_le _ _ (UInt64.le_iff_toNat_le.mpr hcover)
    · rfl
  have hlimit' : (rmGpuDeviceMemoryUsage id info info.pid e.dev e.length 2).1.limit d =
      info.limit d := hlimit
  refine ⟨⟨halone, by rw [hlimit']; exact h.limit_pos, ?_, ?_⟩, ?_, hlimit'⟩
  · rw [htotal']
    omega
  · rw [htotal', hlimit']
    omega
  · rw [htotal']
    omega

/-- What a passed check has established. -/
theorem TotalWithin.room_of_passed (h : TotalWithin d info l) {size : UInt64}
    (hpass : OomPassed d size info.sharedRegion) (hwrap : info.total d + size.toNat < 2 ^ 64) :
    info.total d + size.toNat ≤ info.limit d := by
  rcases hpass with hzero | ⟨usage, husage, hsum⟩
  · have hpos := h.limit_pos
    rw [RegionInfo.limit, hzero] at hpos
    exact absurd hpos (by decide)
  · have hval := h.alone.usage_toNat husage
    have hsum' := UInt64.le_iff_toNat_le.mp hsum
    rw [UInt64.toNat_add, hval, Nat.mod_eq_of_lt hwrap] at hsum'
    exact hsum'

end Total

/-! ## The threads -/

/-- No other process takes part. -/
def HookLabel.SingleProcess {T : Type*} : HookLabel T → Prop
  | .others _ => False
  | _ => True

/-- The sum a second check forms on device `d` stays below `2 ^ 64`. -/
def HookLabel.NoWrap {T : Type*} (d : Dev) (s : HookState T) : HookLabel T → Prop
  | .secondCheck t _ => ∀ r size address, s.pc t = .tracking r d size address →
      s.info.total d + size.toNat < 2 ^ 64
  | _ => True

/-- The invariant. -/
structure HookState.Within {T : Type*} (d : Dev) (s : HookState T) : Prop where
  total : TotalWithin d s.info s.deviceOverallocated
  passed : ∀ t r dev size address, s.pc t = .passed r dev size address →
    s.mutex = some t ∧ (dev = d → s.info.total d + size.toNat ≤ s.info.limit d)

section Threads

variable {T : Type*} [DecidableEq T] {d : Dev} {s s' : HookState T} {t : T}

omit [DecidableEq T] in
/-- Who is past its second check stays within the limit when the total does not go up. -/
theorem HookState.Within.of_le (h : s.Within d)
    (htotal : TotalWithin d s'.info s'.deviceOverallocated)
    (hle : s'.info.total d ≤ s.info.total d) (hlimit : s'.info.limit d = s.info.limit d)
    (hmutex : s'.mutex = s.mutex)
    (hpc : ∀ u r dev size address, s'.pc u = .passed r dev size address →
      s.pc u = .passed r dev size address) : s'.Within d := by
  refine ⟨htotal, fun u r dev size address hu => ?_⟩
  obtain ⟨howner, hroom⟩ := h.passed u r dev size address (hpc u r dev size address hu)
  refine ⟨by rw [hmutex, howner], fun hdev => ?_⟩
  have hroom := hroom hdev
  omega

/-- Moving a thread to a place outside its section puts nobody past a second check. -/
theorem HookState.pc_passed_of_goto (s : HookState T) (t : T) (pc : HookPc)
    (hpc : ∀ r dev size address, pc ≠ .passed r dev size address) {u : T} {r : Recorder} {dev : Dev}
    {size address : UInt64} (h : (s.goto t pc).pc u = .passed r dev size address) :
    s.pc u = .passed r dev size address := by
  dsimp only [HookState.goto] at h
  by_cases hu : u = t
  · rw [hu, Function.update_self] at h
    exact absurd h (hpc r dev size address)
  · rw [Function.update_of_ne hu] at h
    exact h

/-- A step that checks at most, and leaves the thread outside its section. -/
theorem HookState.Within.leave (h : s.Within d) (t : T) (pc : HookPc)
    (hpc : ∀ r dev size address, pc ≠ .passed r dev size address)
    (hcomp : SelfCompacts s.info s'.info) (hlist : s'.deviceOverallocated = s.deviceOverallocated)
    (hmutex : s'.mutex = s.mutex) (hgoto : s'.pc = (s.goto t pc).pc) : s'.Within d := by
  obtain ⟨htotal, heq, hlimit⟩ := h.total.keep hcomp
  refine h.of_le (by rw [hlist]; exact htotal) heq.le hlimit hmutex
    fun u r dev size address hu => ?_
  rw [hgoto] at hu
  exact HookState.pc_passed_of_goto s t pc hpc hu

theorem HookState.Within.firstCheck (h : s.Within d) {r : Recorder} {dev : Dev} {size : UInt64}
    {procAlive : ℕ → Pid → ProcState} (hself : ∀ n, procAlive n s.info.pid ≠ .nonalive)
    (hst : s.firstCheck t r dev size procAlive = some s') : s'.Within d := by
  obtain ⟨⟨oom, info⟩, hoom, rfl⟩ := Option.map_eq_some_iff.mp hst
  have hcomp := (oomCheck_spec hoom).1.selfCompacts hself
  dsimp only
  split_ifs
  · exact h.leave t .idle (fun _ _ _ _ => by simp) hcomp rfl rfl rfl
  · exact h.leave t (.allocating r dev size) (fun _ _ _ _ => by simp) hcomp rfl rfl rfl

/-- A thread that moves on without touching the region or the list. -/
theorem HookState.Within.goto (h : s.Within d) {pc : HookPc}
    (hpc : ∀ r dev size address, pc ≠ .passed r dev size address) : (s.goto t pc).Within d :=
  h.leave t pc hpc Relation.ReflTransGen.refl rfl rfl rfl

theorem HookState.Within.call (h : s.Within d) {c : HookCall} {procAlive : ℕ → Pid → ProcState}
    (hself : ∀ n, procAlive n s.info.pid ≠ .nonalive) (hst : s.call t procAlive c = some s') :
    s'.Within d := by
  cases c with
  | cuMemAllocV2 dev bytesize => exact h.firstCheck hself hst
  | cuMemAllocManaged ctxDevice bytesize =>
    simp only [HookState.call] at hst
    split at hst
    · cases hst
      exact h
    · exact h.firstCheck hself hst
  | cuMemAllocPitchV2 ctxDevice widthInBytes height elementSizeBytes =>
    simp only [HookState.call] at hst
    split_ifs at hst
    split at hst
    · cases hst
      exact h
    · exact h.firstCheck hself hst
  | cuMemCreate ctxDevice location size =>
    simp only [HookState.call] at hst
    split at hst
    · exact h.firstCheck hself hst
    · exact h.firstCheck hself hst
    · cases hst
      exact h
  | cuMemFreeV2 dptr =>
    simp only [HookState.call] at hst
    split_ifs at hst
    · cases hst
      exact h
    · cases hst
      exact h
    · cases hst
      exact h.goto fun _ _ _ _ => by simp
  | cuMemRelease handle =>
    cases hst
    exact h.goto fun _ _ _ _ => by simp

/-- **The second check.**  The mutex was free, so nobody else is past a second check. -/
theorem HookState.Within.secondCheck (h : s.Within d) {procAlive : ℕ → Pid → ProcState}
    (hself : ∀ n, procAlive n s.info.pid ≠ .nonalive)
    (hwrap : (HookLabel.secondCheck t procAlive).NoWrap d s)
    (hst : s.step id (.secondCheck t procAlive) = some s') : s'.Within d := by
  simp only [HookState.step] at hst
  split at hst
  · next r dev size address hpc hfree =>
    obtain ⟨⟨oom, info⟩, hoom, rfl⟩ := Option.map_eq_some_iff.mp hst
    have hcomp := (oomCheck_spec hoom).1.selfCompacts hself
    dsimp only
    split_ifs with hne
    · exact h.leave t .idle (fun _ _ _ _ => by simp) hcomp rfl rfl rfl
    · obtain ⟨htotal, heq, hlimit⟩ := h.total.keep hcomp
      refine ⟨htotal, fun u r' dev' size' address' hu => ?_⟩
      dsimp only [HookState.goto] at hu
      by_cases hut : u = t
      · rw [hut, Function.update_self, HookPc.passed.injEq] at hu
        obtain ⟨-, rfl, rfl, -⟩ := hu
        refine ⟨by rw [hut], fun hdev => ?_⟩
        subst hdev
        have hwrap := hwrap r size address hpc
        obtain rfl : oom = 0 := not_not.mp hne
        refine htotal.room_of_passed (oomCheck_passed hoom) ?_
        rw [heq]
        exact hwrap
      · rw [Function.update_of_ne hut] at hu
        have howner := (h.passed u r' dev' size' address' hu).1
        rw [hfree] at howner
        exact absurd howner (by simp)
  · exact absurd hst (by simp)

/-- **The charge.**  It was made room for, and its thread is the only one past a second check. -/
theorem HookState.Within.record (h : s.Within d) {entryOk : Bool}
    (hst : s.step id (.record t entryOk) = some s') : s'.Within d := by
  simp only [HookState.step] at hst
  split at hst
  · next r dev size address hpc =>
    obtain ⟨howner, hroom⟩ := h.passed t r dev size address hpc
    split_ifs at hst
    · cases hst
      refine ⟨h.total.add ⟨address, size, dev⟩ hroom, fun u r' dev' size' address' hu => ?_⟩
      have hu' := s.pc_passed_of_goto t .idle
        (fun _ _ _ _ => by simp) hu
      have howner' := (h.passed u r' dev' size' address' hu').1
      obtain rfl : t = u := Option.some.inj (howner.symm.trans howner')
      -- the thread itself has left its section
      dsimp only [HookState.hookReturn, HookState.goto] at hu
      rw [Function.update_self] at hu
      exact absurd hu (by simp)
    · cases hst
      exact h.leave t .idle (fun _ _ _ _ => by simp) Relation.ReflTransGen.refl rfl
        rfl rfl
  · exact absurd hst (by simp)

/-- A release, under the mutex or not. -/
theorem HookState.Within.untrack (h : s.Within d) {dptr : UInt64} {e : AllocatedDeviceMemory}
    (he : (s.deviceOverallocated.find? fun val => val.address = dptr) = some e) :
    ((s.untrack id dptr e).goto t .idle).Within d := by
  obtain ⟨htotal, hle, hlimit⟩ := h.total.remove he
  exact h.of_le htotal hle hlimit rfl fun u r dev size address hu =>
    s.pc_passed_of_goto t .idle (fun _ _ _ _ => by simp) hu

/-- **One step.** -/
theorem HookState.Within.step (h : s.Within d) {a : HookLabel T} (hreg : a.Regular s)
    (hsingle : a.SingleProcess) (hwrap : a.NoWrap d s) (hst : s.step id a = some s') :
    s'.Within d := by
  cases a with
  | call t c procAlive =>
    simp only [HookState.step] at hst
    split at hst
    · exact h.call hreg hst
    · exact absurd hst (by simp)
  | driverAlloc t result =>
    simp only [HookState.step] at hst
    split at hst
    · cases hst
      exact h.goto fun _ _ _ _ => by simp
    · cases hst
      exact h.goto fun _ _ _ _ => by simp
    · exact absurd hst (by simp)
  | secondCheck t procAlive => exact h.secondCheck hreg hwrap hst
  | record t entryOk => exact h.record hst
  | removeChunk t =>
    simp only [HookState.step] at hst
    split at hst
    · split at hst
      · next he =>
        cases hst
        exact h.untrack he
      · cases hst
        exact h.goto fun _ _ _ _ => by simp
    · exact absurd hst (by simp)
  | driverRelease t ok =>
    simp only [HookState.step] at hst
    split at hst
    · cases hst
      refine h.goto fun _ _ _ _ => ?_
      cases ok <;> simp
    · exact absurd hst (by simp)
  | removeChunkOnly t =>
    simp only [HookState.step] at hst
    split at hst
    · split at hst
      · next he =>
        cases hst
        exact h.untrack he
      · cases hst
        exact h.leave t .idle (fun _ _ _ _ => by simp) Relation.ReflTransGen.refl rfl
          rfl rfl
    · exact absurd hst (by simp)
  | others region => exact absurd hsingle (by simp [HookLabel.SingleProcess])

/-- **The limit within one process.**  One registered process, the identity device map, any number
of threads in any interleaving of the six hooks, any driver outcomes: if the total of device `d`
covers what is tracked and is within a limit that is set, it stays within the limit. -/
theorem single_process_limit (halone : s.info.Alone) (hidle : ∀ t, s.pc t = .idle)
    (hlimit : 0 < s.info.limit d)
    (hcovered : trackedBytesOn id s.deviceOverallocated d ≤ s.info.total d)
    (hle : s.info.total d ≤ s.info.limit d)
    (hrun : GuardedRun (HookState.step id)
      (fun s a => a.Regular s ∧ a.SingleProcess ∧ a.NoWrap d s) s s') :
    s'.info.total d ≤ s'.info.limit d := by
  have hstart : s.Within d := by
    refine ⟨⟨halone, hlimit, hcovered, hle⟩, fun t r dev size address ht => ?_⟩
    rw [hidle t] at ht
    exact absurd ht (by simp)
  have hend : s'.Within d := hrun.invariant (P := fun s => s.Within d)
    (fun _ _ _ hw hok hst => hw.step hok.1 hok.2.1 hok.2.2 hst) hstart
  exact hend.total.le_limit

end Threads

/-- `NoWrap`, evaluated; nobody else takes part. -/
def HookLabel.noWrap {T : Type*} (d : Dev) (s : HookState T) : HookLabel T → Bool
  | .secondCheck t _ =>
    match s.pc t with
    | .tracking _ _ size _ => decide (s.info.total d + size.toNat < 2 ^ 64)
    | _ => true
  | .others _ => false
  | _ => true

theorem HookLabel.noWrap_of_eval {T : Type*} {d : Dev} {s : HookState T} {a : HookLabel T}
    (h : a.noWrap d s = true) : a.SingleProcess ∧ a.NoWrap d s := by
  cases a with
  | secondCheck t procAlive =>
    refine ⟨trivial, fun r size address hpc => ?_⟩
    rw [HookLabel.noWrap, hpc] at h
    exact of_decide_eq_true h
  | others region => exact absurd h (by simp [HookLabel.noWrap])
  | _ => exact ⟨trivial, trivial⟩

/-- Process `7` with two threads, registered alone under a limit on device `0`. -/
def twoThreads (limit : UInt64) : HookState Worker where
  info := ⟨7, ⟨fun _ => limit, fun _ => { ShrregProcSlot.blank with pid := 7 }, 1⟩, some 0⟩
  deviceOverallocated := []
  mutex := none
  pc := fun _ => .idle
  held := []

/-- Both threads pass their first check for 6 bytes of managed memory before either records. -/
def bothManaged : List (HookLabel Worker) :=
  [.call .one (.cuMemAllocManaged (.ok 0) 6) fun _ _ => .alive,
    .call .two (.cuMemAllocManaged (.ok 0) 6) fun _ _ => .alive,
    .driverAlloc .one (.ok 100), .driverAlloc .two (.ok 200),
    .secondCheck .one fun _ _ => .alive, .record .one true, .secondCheck .two fun _ _ => .alive]

theorem bothManaged_regular :
    ∀ a ∈ bothManaged, ∀ s : HookState Worker, a.Regular s := by
  simp only [bothManaged, List.forall_mem_cons]
  simp [HookLabel.Regular]

theorem exec_bothManaged_limit :
    (exec (HookState.step id) (fun s a => a.noWrap 0 s) bothManaged (twoThreads 10)).map
      (fun s => (s.info.total 0, s.info.limit 0)) = some (6, 10) := by
  decide +kernel

/-- Two threads that both ask for 6 bytes under a limit of 10: one of them is charged. -/
theorem single_process_limit_bothManaged :
    ∃ s : HookState Worker, s.info.total 0 = 6 ∧ s.info.total 0 ≤ s.info.limit 0 := by
  obtain ⟨s, hexec, hs⟩ := Option.map_eq_some_iff.mp exec_bothManaged_limit
  have hrun : GuardedRun (HookState.step id)
      (fun s a => a.Regular s ∧ a.SingleProcess ∧ a.NoWrap 0 s) (twoThreads 10) s :=
    GuardedRun.of_exec (fun a ha _ hchk =>
      ⟨bothManaged_regular a ha _, HookLabel.noWrap_of_eval hchk⟩) hexec
  have halone : (twoThreads 10).info.Alone := ⟨rfl, rfl, rfl, by decide⟩
  exact ⟨s, congrArg Prod.fst hs,
    single_process_limit halone (fun _ => rfl) (by decide) (by decide) (by decide) hrun⟩

end HamiCore
