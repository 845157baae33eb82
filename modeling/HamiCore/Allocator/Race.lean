import Mathlib.Data.Fin.VecNotation
import HamiCore.Library.GuardedRun
import HamiCore.Region.Container
import HamiCore.Allocator.Chunk

/-!
# The limit under concurrent allocations

`add_chunk` checks the limit twice, before the driver allocates and again under the allocator mutex,
and charges the bytes afterwards.  The mutex belongs to one process, the counters to all of them:
between the second check and the charge of one process, another process may pass its own second
check on the same counters.

The model runs any number of threads of any number of processes through `add_chunk`, one step for
each of its parts, with the identity device map.  The bytes a thread has passed its second check for
and not charged yet are *pending*.  The registered usage together with the pending bytes stays
within the limit as long as every second check that passes while others are pending would have left
room for them (`limit_respected`); a check that does not is where the limit is lost.
-/

namespace HamiCore

/-- Where a thread is in `add_chunk`. -/
inductive AddChunkPc where
  /-- Not in `add_chunk`. -/
  | idle
  /-- The first `oom_check` has passed. -/
  | checked (dev : Dev) (size : UInt64)
  /-- The driver has allocated. -/
  | allocated (dev : Dev) (size address : UInt64)
  /-- `mutex` is locked. -/
  | locked (dev : Dev) (size address : UInt64)
  /-- The second `oom_check` has passed; the entry and the charge are next. -/
  | passed (dev : Dev) (size address : UInt64)
  deriving DecidableEq

/-- The labels: thread `t` takes its next step, with what it learns from outside. -/
inductive AddChunkLabel (T : Type*) where
  | firstCheck (t : T) (dev : Dev) (size : UInt64) (procAlive : ℕ → Pid → ProcState)
  | driverAlloc (t : T) (memAlloc : Except CudaError UInt64)
  | lock (t : T)
  | secondCheck (t : T) (procAlive : ℕ → Pid → ProcState)
  | charge (t : T) (entryOk : Bool)

/-- The shared region with the processes' pointers, each process's `mutex` and
`device_overallocated`, and every thread's place. -/
structure AddChunkState (T : Type*) where
  container : Container
  mutex : Pid → Option T
  tracked : Pid → List AllocatedDeviceMemory
  pc : T → AddChunkPc

namespace AddChunkState

variable {T : Type*} [DecidableEq T]

/-- Move thread `t`. -/
def goto (s : AddChunkState T) (t : T) (pc : AddChunkPc) : AddChunkState T :=
  { s with pc := Function.update s.pc t pc }

/-- `oom_check` as run by process `p`. -/
def oomCheck (s : AddChunkState T) (p : Pid) (procAlive : ℕ → Pid → ProcState) (dev : Dev)
    (size : UInt64) : Option (ℤ × RegionInfo) :=
  HamiCore.oomCheck procAlive dev size (s.container.view p)

/-- Write the view of a process back. -/
def put (s : AddChunkState T) (info : RegionInfo) : AddChunkState T :=
  { s with container := s.container.put info }

/-- `pthread_mutex_unlock` by process `p`. -/
def unlock (s : AddChunkState T) (p : Pid) : AddChunkState T :=
  { s with mutex := Function.update s.mutex p none }

/-- `LIST_ADD` and `add_gpu_device_memory_usage` by process `p`. -/
def track (s : AddChunkState T) (p : Pid) (e : AllocatedDeviceMemory) : AddChunkState T :=
  { s with
    container :=
      s.container.put (addGpuDeviceMemoryUsage id (s.container.view p) p e.dev e.length 2).1
    tracked := Function.update s.tracked p (s.tracked p ++ [e]) }

/-- One step of one thread.  A check that does not return is not enabled, and neither is a lock that
another thread of the process holds.  A thread whose `INIT_ALLOCATED_LIST_ENTRY` fails returns with
the mutex locked. -/
def step (pidOf : T → Pid) (s : AddChunkState T) : AddChunkLabel T → Option (AddChunkState T)
  | .firstCheck t dev size procAlive =>
    match s.pc t with
    | .idle =>
      (s.oomCheck (pidOf t) procAlive dev size).map fun (oom, info) =>
        if oom ≠ 0 then (s.put info).goto t .idle else (s.put info).goto t (.checked dev size)
    | _ => none
  | .driverAlloc t memAlloc =>
    match s.pc t, memAlloc with
    | .checked _ _, .error _ => some (s.goto t .idle)
    | .checked dev size, .ok address => some (s.goto t (.allocated dev size address))
    | _, _ => none
  | .lock t =>
    match s.pc t, s.mutex (pidOf t) with
    | .allocated dev size address, none =>
      some ({ s with mutex := Function.update s.mutex (pidOf t) (some t) }.goto t
        (.locked dev size address))
    | _, _ => none
  | .secondCheck t procAlive =>
    match s.pc t with
    | .locked dev size address =>
      (s.oomCheck (pidOf t) procAlive dev size).map fun (oom, info) =>
        if oom ≠ 0 then ((s.put info).unlock (pidOf t)).goto t .idle
        else (s.put info).goto t (.passed dev size address)
    | _ => none
  | .charge t entryOk =>
    match s.pc t with
    | .passed dev size address =>
      if entryOk then
        some (((s.track (pidOf t) ⟨address, size, dev⟩).unlock (pidOf t)).goto t .idle)
      else some (s.goto t .idle)
    | _ => none

end AddChunkState

/-- The bytes for device `d` that a thread has passed its second check for and not charged yet. -/
def AddChunkPc.pending (d : Dev) : AddChunkPc → ℕ
  | .passed dev size _ => if dev = d then size.toNat else 0
  | _ => 0

/-- The device and the size a thread is about to check again. -/
def AddChunkPc.toCheck : AddChunkPc → Option (Dev × UInt64)
  | .locked dev size _ => some (dev, size)
  | _ => none

namespace AddChunkState

variable {T : Type*} [DecidableEq T] [Fintype T]

/-- The pending bytes of all threads but `t`. -/
def pendingOthers (s : AddChunkState T) (t : T) (d : Dev) : ℕ :=
  ∑ u ∈ Finset.univ.erase t, (s.pc u).pending d

/-- The pending bytes. -/
def pending (s : AddChunkState T) (d : Dev) : ℕ := ∑ u, (s.pc u).pending d

/-- The registered usage of device `d`. -/
def usage (s : AddChunkState T) (d : Dev) : ℕ := s.container.region.usageSum d

/-- The limit of device `d`. -/
def limit (s : AddChunkState T) (d : Dev) : ℕ := (s.container.region.limit d).toNat

end AddChunkState

namespace AddChunkLabel

variable {T : Type*}

/-- A second check computes the new usage without wrapping around. -/
def NoWrap (s : AddChunkState T) : AddChunkLabel T → Prop
  | .secondCheck t _ => ∀ q ∈ (s.pc t).toCheck,
      s.container.region.usageSum q.1 + q.2.toNat < 2 ^ 64
  | _ => True

/-- A second check that passes while other threads have bytes pending on the same device leaves room
for them. -/
def LeavesRoom [DecidableEq T] [Fintype T] (pidOf : T → Pid) (s : AddChunkState T) :
    AddChunkLabel T → Prop
  | .secondCheck t procAlive => ∀ q ∈ (s.pc t).toCheck, 0 < s.pendingOthers t q.1 →
      ∀ out ∈ s.oomCheck (pidOf t) procAlive q.1 q.2, out.1 = 0 →
        out.2.sharedRegion.usageSum q.1 + q.2.toNat + s.pendingOthers t q.1 ≤ s.limit q.1
  | _ => True

instance (s : AddChunkState T) (a : AddChunkLabel T) : Decidable (a.NoWrap s) :=
  match a with
  | .secondCheck t _ => show Decidable (∀ q ∈ (s.pc t).toCheck,
      s.container.region.usageSum q.1 + q.2.toNat < 2 ^ 64) from
    Option.decidableForallMem (s.pc t).toCheck
  | .firstCheck _ _ _ _ | .driverAlloc _ _ | .lock _ | .charge _ _ => .isTrue trivial

instance [DecidableEq T] [Fintype T] (pidOf : T → Pid) (s : AddChunkState T)
    (a : AddChunkLabel T) : Decidable (a.LeavesRoom pidOf s) :=
  match a with
  | .secondCheck t procAlive => show Decidable (∀ q ∈ (s.pc t).toCheck,
      0 < s.pendingOthers t q.1 → ∀ out ∈ s.oomCheck (pidOf t) procAlive q.1 q.2, out.1 = 0 →
        out.2.sharedRegion.usageSum q.1 + q.2.toNat + s.pendingOthers t q.1 ≤ s.limit q.1) from
    Option.decidableForallMem (s.pc t).toCheck
  | .firstCheck _ _ _ _ | .driverAlloc _ _ | .lock _ | .charge _ _ => .isTrue trivial

end AddChunkLabel

/-! ## One step -/

namespace AddChunkState

variable {T : Type*} [DecidableEq T] [Fintype T] {pidOf : T → Pid} {s s' : AddChunkState T}
  {d : Dev}

omit [Fintype T] in
@[simp] theorem goto_pc_self (s : AddChunkState T) (t : T) (pc : AddChunkPc) :
    (s.goto t pc).pc t = pc := Function.update_self _ _ _

omit [Fintype T] in
theorem goto_pc_of_ne (s : AddChunkState T) {t u : T} (h : u ≠ t) (pc : AddChunkPc) :
    (s.goto t pc).pc u = s.pc u := Function.update_of_ne h _ _

/-- The registered usage and the pending bytes of device `d` are together within its limit. -/
structure Within (s : AddChunkState T) (d : Dev) : Prop where
  limit_ne_zero : s.container.region.limit d ≠ 0
  le_limit : s.usage d + s.pending d ≤ s.limit d

theorem pending_eq (s : AddChunkState T) (t : T) (d : Dev) :
    s.pending d = s.pendingOthers t d + (s.pc t).pending d :=
  (Finset.sum_erase_add _ _ (Finset.mem_univ t)).symm

/-- The others are not moved. -/
theorem pendingOthers_congr {t : T} (h : ∀ u ≠ t, s'.pc u = s.pc u) :
    s'.pendingOthers t d = s.pendingOthers t d := by
  refine Finset.sum_congr rfl fun u hu => ?_
  rw [h u (Finset.ne_of_mem_erase hu)]

/-- A step of thread `t` that raises the registered usage by at most what `t` has no longer
pending. -/
theorem Within.of_le (h : s.Within d) {t : T} (hpc : ∀ u ≠ t, s'.pc u = s.pc u)
    (hlimit : s'.container.region.limit d = s.container.region.limit d)
    (hle : s'.usage d + (s'.pc t).pending d ≤ s.usage d + (s.pc t).pending d) : s'.Within d := by
  refine ⟨by rw [hlimit]; exact h.limit_ne_zero, ?_⟩
  have hw := h.le_limit
  rw [pending_eq s t] at hw
  rw [pending_eq s' t, pendingOthers_congr hpc]
  have hlim : s'.limit d = s.limit d := by rw [limit, limit, hlimit]
  omega

/-- A step of thread `t` that leaves the container alone and after which `t` has nothing pending. -/
theorem Within.of_same_container (h : s.Within d) {t : T} (hpc : ∀ u ≠ t, s'.pc u = s.pc u)
    (hcontainer : s'.container = s.container) (hnone : (s'.pc t).pending d = 0) :
    s'.Within d := by
  refine h.of_le hpc (by rw [hcontainer]) ?_
  rw [hnone, usage, usage, hcontainer]
  exact Nat.add_le_add_left (Nat.zero_le _) _

omit [DecidableEq T] [Fintype T] in
theorem limit_track (s : AddChunkState T) (p : Pid) (e : AllocatedDeviceMemory) (d : Dev) :
    (s.track p e).container.region.limit d = s.container.region.limit d :=
  congrFun (updateGpuDeviceMemoryUsage_limit _ _ (s.container.view p) p e.dev e.length 2) d

omit [DecidableEq T] [Fintype T] in
theorem usage_track_le (s : AddChunkState T) (p : Pid) (e : AllocatedDeviceMemory) (d : Dev) :
    (s.track p e).usage d ≤ s.usage d + if e.dev = d then e.length.toNat else 0 :=
  addGpuDeviceMemoryUsage_usageSum_le id (s.container.view p) p e.dev e.length 2 d

/-- A check that a thread with nothing pending runs, and after which it has nothing pending. -/
theorem Within.of_check (h : s.Within d) {t : T} (hpc : ∀ u ≠ t, s'.pc u = s.pc u) {p : Pid}
    {procAlive : ℕ → Pid → ProcState} {dev : Dev} {size : UInt64} {out : ℤ × RegionInfo}
    (hout : s.oomCheck p procAlive dev size = some out)
    (hregion : s'.container.region = out.2.sharedRegion) (hnone : (s'.pc t).pending d = 0) :
    s'.Within d := by
  obtain ⟨hcomp, -⟩ := oomCheck_spec hout
  refine h.of_le hpc (by rw [hregion, hcomp.limit_eq]; rfl) ?_
  have hle : out.2.sharedRegion.usageSum d ≤ s.usage d := hcomp.usageSum_le d
  rw [hnone, usage, hregion]
  omega

/-- A second check that passes. -/
theorem Within.of_pass (h : s.Within d) {t : T} (hpc : ∀ u ≠ t, s'.pc u = s.pc u)
    {procAlive : ℕ → Pid → ProcState} {dev : Dev} {size address : UInt64} {info : RegionInfo}
    (hlocked : s.pc t = .locked dev size address)
    (hout : s.oomCheck (pidOf t) procAlive dev size = some (0, info))
    (hregion : s'.container.region = info.sharedRegion)
    (hpassed : s'.pc t = .passed dev size address)
    (hwrap : (AddChunkLabel.secondCheck t procAlive).NoWrap s)
    (hroom : (AddChunkLabel.secondCheck t procAlive).LeavesRoom pidOf s) : s'.Within d := by
  by_cases hdev : dev = d
  · subst hdev
    have hcomp := (oomCheck_spec hout).1
    dsimp only at hcomp
    have hcheck : (dev, size) ∈ (s.pc t).toCheck := by
      rw [hlocked]
      rfl
    have hwrap : s.container.region.usageSum dev + size.toNat < 2 ^ 64 := hwrap (dev, size) hcheck
    have hroom : 0 < s.pendingOthers t dev → ∀ out ∈ s.oomCheck (pidOf t) procAlive dev size,
        out.1 = 0 → out.2.sharedRegion.usageSum dev + size.toNat + s.pendingOthers t dev ≤
          s.limit dev := hroom (dev, size) hcheck
    have hlimit : info.sharedRegion.limit dev = s.container.region.limit dev := by
      rw [hcomp.limit_eq]
      rfl
    have hle : info.sharedRegion.usageSum dev ≤ s.container.region.usageSum dev :=
      hcomp.usageSum_le dev
    -- the check itself: the usage it read and the size are within the limit
    have hfits : info.sharedRegion.usageSum dev + size.toNat ≤ s.limit dev := by
      have hpass := (oomCheck_passed hout).usageSum_le (by rw [hlimit]; exact h.limit_ne_zero)
        (by omega)
      rwa [hlimit] at hpass
    have hothers : info.sharedRegion.usageSum dev + size.toNat + s.pendingOthers t dev ≤
        s.limit dev := by
      rcases Nat.eq_zero_or_pos (s.pendingOthers t dev) with hnone | hpos
      · rw [hnone]
        exact hfits
      · exact hroom hpos (0, info) hout rfl
    refine ⟨by rw [hregion, hlimit]; exact h.limit_ne_zero, ?_⟩
    have hlim : s'.limit dev = s.limit dev := by rw [limit, limit, hregion, hlimit]
    rw [pending_eq s' t, pendingOthers_congr hpc, hpassed, usage, hregion, hlim]
    simp only [AddChunkPc.pending, if_pos]
    omega
  · refine h.of_check hpc hout hregion ?_
    rw [hpassed]
    exact if_neg hdev

/-- **One step keeps the limit**, under the two conditions on second checks. -/
theorem Within.step (h : s.Within d) {a : AddChunkLabel T} (hwrap : a.NoWrap s)
    (hroom : a.LeavesRoom pidOf s) (hst : s.step pidOf a = some s') : s'.Within d := by
  cases a with
  | firstCheck t dev size procAlive =>
    simp only [AddChunkState.step] at hst
    split at hst
    · obtain ⟨⟨oom, info⟩, hout, rfl⟩ := Option.map_eq_some_iff.mp hst
      dsimp only
      split_ifs
      · exact h.of_check (fun u hu => goto_pc_of_ne _ hu _) hout rfl
          (by rw [goto_pc_self]; rfl)
      · exact h.of_check (fun u hu => goto_pc_of_ne _ hu _) hout rfl
          (by rw [goto_pc_self]; rfl)
    · exact absurd hst (by simp)
  | driverAlloc t memAlloc =>
    simp only [AddChunkState.step] at hst
    split at hst
    · cases hst
      exact h.of_same_container (fun u hu => goto_pc_of_ne _ hu _) rfl
        (by rw [goto_pc_self]; rfl)
    · cases hst
      exact h.of_same_container (fun u hu => goto_pc_of_ne _ hu _) rfl
        (by rw [goto_pc_self]; rfl)
    · exact absurd hst (by simp)
  | lock t =>
    simp only [AddChunkState.step] at hst
    split at hst
    · cases hst
      exact h.of_same_container (fun u hu => goto_pc_of_ne _ hu _) rfl
        (by rw [goto_pc_self]; rfl)
    · exact absurd hst (by simp)
  | secondCheck t procAlive =>
    have hst' := hst
    simp only [AddChunkState.step] at hst'
    split at hst'
    · next dev size address hlocked =>
      obtain ⟨⟨oom, info⟩, hout, rfl⟩ := Option.map_eq_some_iff.mp hst'
      dsimp only
      split_ifs with hne
      · exact h.of_check (fun u hu => goto_pc_of_ne _ hu _) hout rfl
          (by rw [goto_pc_self]; rfl)
      · obtain rfl : oom = 0 := not_not.mp hne
        exact h.of_pass (fun u hu => goto_pc_of_ne _ hu _) hlocked hout rfl
          (goto_pc_self _ _ _) hwrap hroom
    · exact absurd hst' (by simp)
  | charge t entryOk =>
    simp only [AddChunkState.step] at hst
    split at hst
    · next dev size address hpassed =>
      split_ifs at hst
      · cases hst
        refine h.of_le (fun u hu => goto_pc_of_ne _ hu _) ?_ ?_
        · exact limit_track s (pidOf t) ⟨address, size, dev⟩ d
        · rw [goto_pc_self, hpassed]
          exact usage_track_le s (pidOf t) ⟨address, size, dev⟩ d
      · cases hst
        exact h.of_same_container (fun u hu => goto_pc_of_ne _ hu _) rfl
          (by rw [goto_pc_self]; rfl)
    · exact absurd hst (by simp)

end AddChunkState

/-! ## Whole runs -/

section Runs

variable {T : Type*} [DecidableEq T] [Fintype T] {pidOf : T → Pid} {s s' : AddChunkState T}
  {d : Dev}

/-- **The limit across processes.**  Any number of processes and threads in `add_chunk`, any
interleaving of its parts, any driver outcomes: if every second check that passes while other
threads have bytes pending on the device leaves room for these, the registered usage never passes
the limit. -/
theorem limit_respected (hidle : ∀ t, s.pc t = .idle) (hlimit : 0 < s.limit d)
    (hle : s.usage d ≤ s.limit d)
    (hrun : GuardedRun (AddChunkState.step pidOf)
      (fun s a => a.NoWrap s ∧ a.LeavesRoom pidOf s) s s') :
    s'.usage d ≤ s'.limit d := by
  have hnone : s.pending d = 0 := Finset.sum_eq_zero fun t _ => by rw [hidle t]; rfl
  have hstart : s.Within d := by
    refine ⟨fun hzero => ?_, by omega⟩
    rw [AddChunkState.limit, hzero] at hlimit
    exact absurd hlimit (by decide)
  have hend : s'.Within d := hrun.invariant (P := fun s => s.Within d)
    (fun _ _ _ hw hok hst => hw.step hok.1 hok.2 hst) hstart
  have := hend.le_limit
  omega

end Runs

/-- Processes `1` and `2`, registered with nothing charged, under a limit on device `0`. -/
def twoRegistered (limit : UInt64) : AddChunkState (Fin 2) where
  container :=
    ⟨⟨fun d => if d = 0 then limit else 0,
        fun i => { ShrregProcSlot.blank with pid := if i = 0 then 1 else 2 }, 2⟩,
      fun p => if p = 1 then some 0 else if p = 2 then some 1 else none⟩
  mutex := fun _ => none
  tracked := fun _ => []
  pc := fun _ => .idle

/-- Thread `0` belongs to process `1`, thread `1` to process `2`. -/
def oneThreadEach : Fin 2 → Pid := ![1, 2]

/-- One allocation of one byte, each part of which succeeds, up to the second check. -/
def allocateUpToCheck (t : Fin 2) (address : UInt64) : List (AddChunkLabel (Fin 2)) :=
  [.firstCheck t 0 1 fun _ _ => .alive, .driverAlloc t (.ok address), .lock t,
    .secondCheck t fun _ _ => .alive]

theorem exec_roomForBoth :
    (exec (AddChunkState.step oneThreadEach)
      (fun s a => decide (a.NoWrap s ∧ a.LeavesRoom oneThreadEach s))
      (allocateUpToCheck 0 100 ++ allocateUpToCheck 1 200 ++ [.charge 0 true, .charge 1 true])
      (twoRegistered 2)).map (fun s => s.usage 0) = some 2 := by
  decide +kernel

/-- Two processes that are pending at the same time, with room for both. -/
theorem limit_respected_roomForBoth :
    ∃ s : AddChunkState (Fin 2), s.usage 0 = 2 ∧ s.usage 0 ≤ s.limit 0 := by
  obtain ⟨s, hs, husage⟩ := Option.map_eq_some_iff.mp exec_roomForBoth
  have hrun : GuardedRun (AddChunkState.step oneThreadEach)
      (fun s a => a.NoWrap s ∧ a.LeavesRoom oneThreadEach s) (twoRegistered 2) s :=
    GuardedRun.of_exec (fun _ _ _ => of_decide_eq_true) hs
  exact ⟨s, husage, limit_respected (fun _ => rfl) (by decide) (by decide) hrun⟩

theorem exec_bothPass :
    (exec (AddChunkState.step oneThreadEach) (fun s a => decide (a.NoWrap s))
      (allocateUpToCheck 0 100 ++ allocateUpToCheck 1 200 ++ [.charge 0 true, .charge 1 true])
      (twoRegistered 1)).map (fun s => (s.usage 0, s.limit 0)) = some (2, 1) := by
  decide +kernel

/-- Under a limit of one byte, two processes pass their second checks before either has charged. -/
theorem limit_passed_by_two_processes :
    ¬ ∀ s s' : AddChunkState (Fin 2), (∀ t, s.pc t = .idle) → 0 < s.limit 0 →
      s.usage 0 ≤ s.limit 0 →
      GuardedRun (AddChunkState.step oneThreadEach) (fun s a => a.NoWrap s) s s' →
      s'.usage 0 ≤ s'.limit 0 := by
  intro hall
  obtain ⟨s, hs, heq⟩ := Option.map_eq_some_iff.mp exec_bothPass
  have hrun : GuardedRun (AddChunkState.step oneThreadEach) (fun s a => a.NoWrap s)
      (twoRegistered 1) s := GuardedRun.of_exec (fun _ _ _ => of_decide_eq_true) hs
  have hle := hall _ s (fun _ => rfl) (by decide) (by decide) hrun
  obtain ⟨husage, hlimit⟩ := Prod.mk.inj heq
  omega

end HamiCore
