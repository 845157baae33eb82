import HamiCore.Library.GuardedRun
import HamiCore.Library.Threads
import HamiCore.Allocator.OomCheck
import HamiCore.Allocator.Chunk
import Mathlib.Algebra.Order.Group.Multiset
import Mathlib.Data.Fin.VecNotation

/-!
# Host memory and mipmapped arrays

Pinned host memory, registered host memory and mipmapped arrays are charged to nobody.  The four
hooks that create them do it the other way round from `cuMemAlloc_v2`: the driver creates first,
then `check_oom` asks whether the usage of the current device has passed its limit, and where it
has, the object is given back and the caller is told `CUDA_ERROR_OUT_OF_MEMORY`.  Between the three
steps other threads make their own calls and other processes change the region; the check itself is
one step here.

`host_objects_accounted` is the ledger: whatever interleaves, what the driver has live is what the
application holds, what the calls under way have created and not yet decided about, and what could
not be given back, as long as the application has nothing destroyed that it does not hold.
`nothing_over_limit`: while the devices are over their limits no check passes.
-/

namespace HamiCore

open Multiset

/-- The kinds of objects, each with its function of the driver that destroys it. -/
inductive HostKind where
  /-- `cuMemFreeHost`. -/
  | pinned
  /-- `cuMemHostUnregister`. -/
  | registered
  /-- `cuMipmappedArrayDestroy`. -/
  | mipmapped
  deriving DecidableEq

/-- An object of the driver: a host pointer or an array handle. -/
structure HostObject where
  kind : HostKind
  handle : UInt64
  deriving DecidableEq

/-- A hook that creates: what it creates, and whether it sets the caller's variable to `NULL` when
it has given the object back. -/
structure HostHook where
  kind : HostKind
  clears : Bool
  deriving DecidableEq

def cuMemAllocHostV2 : HostHook := ⟨.pinned, false⟩

def cuMemHostAlloc : HostHook := ⟨.pinned, true⟩

def cuMemHostRegisterV2 : HostHook := ⟨.registered, false⟩

def cuMipmappedArrayCreate : HostHook := ⟨.mipmapped, false⟩

/-- What `cuMemFreeHost(hptr)` destroys. -/
def cuMemFreeHost (hptr : UInt64) : HostObject := ⟨.pinned, hptr⟩

/-- What `cuMemHostUnregister(hptr)` destroys. -/
def cuMemHostUnregister (hptr : UInt64) : HostObject := ⟨.registered, hptr⟩

/-- What `cuMipmappedArrayDestroy(hMipmappedArray)` destroys. -/
def cuMipmappedArrayDestroy (hMipmappedArray : UInt64) : HostObject := ⟨.mipmapped, hMipmappedArray⟩

/-- `check_oom()`.  A driver that cannot tell the current device makes it return the error. -/
def checkOom (procAlive : ℕ → Pid → ProcState) (ctxGetDevice : Except CudaError Dev)
    (info : RegionInfo) : Option (ℤ × RegionInfo) :=
  match ctxGetDevice with
  | .error status => some (status, info)
  | .ok dev => oomCheck procAlive dev 0 info

/-- Where a thread is in a hook. -/
inductive HostPc where
  /-- In none; with what the last call has returned and left in the caller's variable. -/
  | outside (result : Option (ℤ × UInt64))
  /-- The driver has created; `check_oom` comes next. -/
  | created (hook : HostHook) (handle : UInt64)
  /-- `check_oom` has not returned `0`; the object is to be given back. -/
  | rejected (hook : HostHook) (handle : UInt64)
  deriving DecidableEq

/-- The labels. -/
inductive HostLabel (T : Type*) where
  /-- Thread `t` calls a hook with `hptr` in its variable, and the driver answers. -/
  | create (t : T) (hook : HostHook) (hptr : UInt64) (driver : Except CudaError UInt64)
  | check (t : T) (procAlive : ℕ → Pid → ProcState) (ctxGetDevice : Except CudaError Dev)
  | giveBack (t : T) (ok : Bool)
  /-- Thread `t` has an object destroyed. -/
  | destroy (t : T) (object : HostObject) (driver : Except CudaError Unit)
  | others (region : SharedRegion)

/-- The view of the region, what the driver has live, what the application has been given and has
not had destroyed, and the place of each thread. -/
structure HostState (T : Type*) where
  info : RegionInfo
  live : Multiset HostObject
  held : Multiset HostObject
  pc : T → HostPc

/-- The object of a call: a registration is of the pointer it is called with, and the other hooks
get a handle from the driver. -/
def HostHook.objectHandle (hook : HostHook) (hptr handle : UInt64) : UInt64 :=
  if hook.kind = .registered then hptr else handle

namespace HostState

variable {T : Type*} [DecidableEq T]

/-- Move thread `t`. -/
def goto (s : HostState T) (t : T) (pc : HostPc) : HostState T :=
  { s with pc := Function.update s.pc t pc }

/-- One step of one thread, or a change of the region by other processes.  A check that waits for a
writer is not enabled, and the result of giving back is not looked at. -/
def step (s : HostState T) : HostLabel T → Option (HostState T)
  | .create t hook hptr driver =>
    match s.pc t, driver with
    | .outside _, .error status => some (s.goto t (.outside (some (status, hptr))))
    | .outside _, .ok handle =>
      let handle := hook.objectHandle hptr handle
      some ({ s with live := ⟨hook.kind, handle⟩ ::ₘ s.live }.goto t (.created hook handle))
    | _, _ => none
  | .check t procAlive ctxGetDevice =>
    match s.pc t with
    | .created hook handle =>
      (checkOom procAlive ctxGetDevice s.info).map fun (oom, info) =>
        if oom ≠ 0 then { s with info := info }.goto t (.rejected hook handle)
        else { s with info := info, held := ⟨hook.kind, handle⟩ ::ₘ s.held }.goto t
          (.outside (some (0, handle)))
    | _ => none
  | .giveBack t ok =>
    match s.pc t with
    | .rejected hook handle =>
      let hptr := if hook.clears then 0 else handle
      some ({ s with live := if ok then s.live.erase ⟨hook.kind, handle⟩ else s.live }.goto t
        (.outside (some (cudaErrorOutOfMemory, hptr))))
    | _ => none
  | .destroy t object driver =>
    match s.pc t, driver with
    | .outside _, .error status => some (s.goto t (.outside (some (status, object.handle))))
    | .outside _, .ok () =>
      some ({ s with live := s.live.erase object, held := s.held.erase object }.goto t
        (.outside (some (0, object.handle))))
    | _, _ => none
  | .others region => some { s with info := { s.info with sharedRegion := region } }

/-- What a step leaves behind with the driver: an object that it refuses to take back. -/
def stranded (s : HostState T) : HostLabel T → List HostObject
  | .giveBack t ok =>
    match s.pc t with
    | .rejected hook handle => if ok then [] else [⟨hook.kind, handle⟩]
    | _ => []
  | .create .. | .check .. | .destroy .. | .others _ => []

end HostState

/-- What is destroyed is the application's. -/
def HostLabel.Owned {T : Type*} (s : HostState T) : HostLabel T → Prop
  | .destroy _ object (.ok ()) => object ∈ s.held
  | _ => True

/-- The current device is one of the `count` devices of the driver. -/
def HostLabel.DeviceBelow {T : Type*} (count : ℕ) : HostLabel T → Prop
  | .check _ _ (.ok dev) => dev.val < count
  | _ => True

/-- What a call under way has created and not yet decided about. -/
def HostPc.inFlight : HostPc → Multiset HostObject
  | .outside _ => 0
  | .created hook handle | .rejected hook handle => {⟨hook.kind, handle⟩}

/-! ## The ledger -/

namespace HostState

variable {T : Type*} [DecidableEq T] [Fintype T] {s s' : HostState T} {log log' : List HostObject}

/-- What the calls under way have created and not yet decided about. -/
def inFlight (s : HostState T) : Multiset HostObject := ∑ t, (s.pc t).inFlight

/-- **The invariant.**  The driver has live what the application holds, what is in flight, and what
has been stranded. -/
def Accounted (x : HostState T × List HostObject) : Prop :=
  x.1.live = x.1.held + x.1.inFlight + x.2

/-- A move of one thread that changes both sides alike. -/
theorem Accounted.goto (h : Accounted (s, log)) {info : RegionInfo}
    {live held : Multiset HostObject} {t : T} {pc : HostPc}
    (heq : live + (s.held + (s.pc t).inFlight + log) = s.live + (held + pc.inFlight + log')) :
    Accounted ((⟨info, live, held, s.pc⟩ : HostState T).goto t pc, log') := by
  have hmove : (∑ u, (Function.update s.pc t pc u).inFlight) + (s.pc t).inFlight
      = s.inFlight + pc.inFlight := sum_update_add HostPc.inFlight s.pc t pc
  have hlive : s.live = s.held + s.inFlight + log := h
  rw [hlive] at heq
  refine add_right_cancel (b := s.held + (s.pc t).inFlight + (log : Multiset HostObject)) ?_
  calc live + (s.held + (s.pc t).inFlight + log)
      = s.held + log + (held + log') + (s.inFlight + pc.inFlight) := by
        rw [heq]
        abel
    _ = s.held + log + (held + log')
          + ((∑ u, (Function.update s.pc t pc u).inFlight) + (s.pc t).inFlight) := by rw [hmove]
    _ = held + (∑ u, (Function.update s.pc t pc u).inFlight) + log'
          + (s.held + (s.pc t).inFlight + log) := by abel

omit [DecidableEq T] in
/-- What is in flight is live. -/
theorem Accounted.mem_live (h : Accounted (s, log)) {t : T} {object : HostObject}
    (hobject : object ∈ (s.pc t).inFlight) : object ∈ s.live := by
  have hlive : s.live = s.held + s.inFlight + log := h
  have hle : (s.pc t).inFlight ≤ s.inFlight :=
    Finset.single_le_sum (fun _ _ => Multiset.zero_le _) (Finset.mem_univ t)
  rw [hlive]
  exact mem_add.mpr (Or.inl (mem_add.mpr (Or.inr (mem_of_le hle hobject))))

omit [DecidableEq T] in
/-- What is held is live. -/
theorem Accounted.held_live (h : Accounted (s, log)) {object : HostObject}
    (hobject : object ∈ s.held) : object ∈ s.live := by
  have hlive : s.live = s.held + s.inFlight + log := h
  rw [hlive]
  exact mem_add.mpr (Or.inl (mem_add.mpr (Or.inl hobject)))

/-- **One step.** -/
theorem Accounted.step {a : HostLabel T} (h : Accounted (s, log)) (hown : a.Owned s)
    (hst : s.step a = some s') : Accounted (s', log ++ s.stranded a) := by
  cases a with
  | create t hook hptr driver =>
    rw [stranded, List.append_nil]
    simp only [HostState.step] at hst
    split at hst
    · next hpc =>
      cases hst
      exact h.goto (by rw [hpc]; rfl)
    · next handle hpc =>
      cases hst
      refine h.goto ?_
      rw [hpc, HostPc.inFlight, HostPc.inFlight, ← singleton_add]
      abel
    · cases hst
  | check t procAlive ctxGetDevice =>
    rw [stranded, List.append_nil]
    simp only [HostState.step] at hst
    split at hst
    · next hook handle hpc =>
      obtain ⟨⟨oom, info⟩, -, rfl⟩ := Option.map_eq_some_iff.mp hst
      dsimp only
      split_ifs with hoom
      · exact h.goto (by rw [hpc]; rfl)
      · refine h.goto ?_
        rw [hpc, HostPc.inFlight, HostPc.inFlight, ← singleton_add]
        abel
    · cases hst
  | giveBack t ok =>
    simp only [HostState.step] at hst
    split at hst
    · next hook handle hpc =>
      cases hst
      cases ok with
      | true =>
        have hmem : (⟨hook.kind, handle⟩ : HostObject) ∈ s.live :=
          h.mem_live (t := t) (by rw [hpc]; exact mem_singleton_self _)
        simp only [stranded, hpc, if_true, List.append_nil]
        refine h.goto ?_
        rw [hpc, HostPc.inFlight, HostPc.inFlight]
        conv_rhs => rw [← cons_erase hmem, ← singleton_add]
        abel
      | false =>
        simp only [stranded, hpc, if_neg Bool.false_ne_true]
        refine h.goto ?_
        rw [hpc, HostPc.inFlight, HostPc.inFlight, ← coe_add, coe_singleton]
        abel
    · cases hst
  | destroy t object driver =>
    rw [stranded, List.append_nil]
    simp only [HostState.step] at hst
    split at hst
    · next hpc =>
      cases hst
      exact h.goto (by rw [hpc]; rfl)
    · next hpc =>
      cases hst
      have hheld : object ∈ s.held := hown
      refine h.goto ?_
      rw [hpc, HostPc.inFlight, HostPc.inFlight]
      conv_lhs => rw [← cons_erase hheld, ← singleton_add]
      conv_rhs => rw [← cons_erase (h.held_live hheld), ← singleton_add]
      abel
    · cases hst
  | others region =>
    cases hst
    rw [stranded, List.append_nil]
    exact h

/-- At the start no call is under way, and what is live is what is held. -/
structure Start (s : HostState T) : Prop where
  outside : ∀ t, ∃ result, s.pc t = .outside result
  live : s.live = s.held

omit [DecidableEq T] in
theorem Start.accounted (hs : s.Start) : Accounted (s, []) := by
  have hzero : s.inFlight = 0 := Finset.sum_eq_zero fun t _ => by
    obtain ⟨result, hresult⟩ := hs.outside t
    rw [hresult, HostPc.inFlight]
  show s.live = s.held + s.inFlight + ([] : List HostObject)
  rw [hs.live, hzero, coe_nil, add_zero, add_zero]

/-- **The driver has live what is accounted for.**  In every interleaving of the calls of any number
of threads that have only objects destroyed which the application holds, whatever the driver answers
and other processes do: the objects that the driver has live are those the application holds, those
of calls between their creation and their decision, and those that a failed call was to give back
and the driver did not take. -/
theorem host_objects_accounted (hs : s.Start)
    (hrun : GuardedRun (logged HostState.step stranded) (fun x a => a.Owned x.1) (s, [])
      (s', log)) :
    s'.live = s'.held + s'.inFlight + log := by
  refine hrun.invariant (P := Accounted) (fun x a y h hown hst => ?_) hs.accounted
  obtain ⟨hstep, hlog⟩ := step_of_logged hst
  have hnext := h.step hown hstep
  rwa [← hlog] at hnext

end HostState

/-! ## Over the limit -/

/-- A `check_oom` that returned `0` has passed for the current device. -/
theorem checkOom_passed {procAlive : ℕ → Pid → ProcState} {ctxGetDevice : Except CudaError Dev}
    {info info' : RegionInfo} (h : checkOom procAlive ctxGetDevice info = some (0, info')) :
    ∃ dev, ctxGetDevice = .ok dev ∧ OomPassed dev 0 info'.sharedRegion := by
  cases ctxGetDevice with
  | error status => exact absurd (congrArg Prod.fst (Option.some.inj h)) status.property
  | ok dev => exact ⟨dev, rfl, oomCheck_passed h⟩

namespace HostState

variable {T : Type*} [DecidableEq T] {s s' : HostState T}

/-- Each of the driver's `count` devices has a limit, and its registered usage has passed it. -/
def OverLimit (count : ℕ) (s : HostState T) : Prop :=
  ∀ dev : Dev, dev.val < count → s.info.sharedRegion.limit dev ≠ 0 ∧
    (s.info.sharedRegion.limit dev).toNat < s.info.sharedRegion.usageSum dev ∧
    s.info.sharedRegion.usageSum dev < 2 ^ 64

instance (count : ℕ) (s : HostState T) : Decidable (s.OverLimit count) :=
  inferInstanceAs (Decidable (∀ dev : Dev, dev.val < count → _ ∧ _ ∧ _))

/-- A step that leaves every device over its limit hands nothing out. -/
theorem held_le_of_step {count : ℕ} {a : HostLabel T} (hover : s'.OverLimit count)
    (hdevice : a.DeviceBelow count) (hst : s.step a = some s') : s'.held ≤ s.held := by
  cases a with
  | create t hook hptr driver =>
    simp only [HostState.step] at hst
    split at hst <;> cases hst <;> exact le_rfl
  | check t procAlive ctxGetDevice =>
    simp only [HostState.step] at hst
    split at hst
    · obtain ⟨⟨oom, info⟩, hcheck, rfl⟩ := Option.map_eq_some_iff.mp hst
      dsimp only at hover ⊢
      split_ifs at hover ⊢ with hoom
      · exact le_rfl
      · rw [not_not.mp hoom] at hcheck
        obtain ⟨dev, rfl, hpassed⟩ := checkOom_passed hcheck
        obtain ⟨hlim, hlt, hfit⟩ := hover dev hdevice
        exact absurd (hpassed.usageSum_le hlim hfit) (not_le.mpr hlt)
    · cases hst
  | giveBack t ok =>
    simp only [HostState.step] at hst
    split at hst <;> cases hst
    exact le_rfl
  | destroy t object driver =>
    simp only [HostState.step] at hst
    split at hst <;> cases hst
    · exact le_rfl
    · exact erase_le object s.held
  | others region =>
    cases hst
    exact le_rfl

/-- **Over the limit nothing is handed out.**  In every run, with each check in one step, in which
all the devices of the driver stay over their limits and their usage sums within the machine word,
whatever is compacted and whatever other processes do, the application gets no pinned or registered
host memory and no mipmapped array that it did not have. -/
theorem nothing_over_limit {count : ℕ} (hrun : GuardedRun HostState.step
      (fun u a => u.OverLimit count ∧ a.DeviceBelow count) s s')
    (hover : s'.OverLimit count) : s'.held ≤ s.held := by
  induction hrun with
  | refl => exact le_rfl
  | tail _ hok hst ih => exact (held_le_of_step hover hok.2 hst).trans (ih hok.1)

end HostState

/-! ## A registration that has to be taken back -/

/-- A region in which process `7` is registered alone, with `total` bytes under a limit of ten. -/
def holdsUnderTen (total : UInt64) : SharedRegion where
  limit := fun _ => 10
  procs := fun _ =>
    { ShrregProcSlot.blank with pid := 7, used := fun _ => ⟨0, 0, 0, 0, total⟩ }
  procNum := 1

/-- Two threads of process `7` before their first call. -/
def beforeFirstCall (total : UInt64) : HostState Bool where
  info := ⟨7, holdsUnderTen total, some 0⟩
  live := 0
  held := 0
  pc := fun _ => .outside none

theorem beforeFirstCall_start (total : UInt64) : (beforeFirstCall total).Start :=
  ⟨fun _ => ⟨none, rfl⟩, rfl⟩

/-- One thread gets pinned memory.  Then another process has the usage pass the limit, and the
driver does not take the registration of the other thread back. -/
def limitPassedBetween : List (HostLabel Bool) :=
  [.create true cuMemHostAlloc 0 (.ok 4096), .create false cuMemHostRegisterV2 8192 (.ok 0),
    .check true (fun _ _ => .alive) (.ok 0), .others (holdsUnderTen 12),
    .check false (fun _ _ => .alive) (.ok 0), .giveBack false false]

theorem exec_limitPassedBetween :
    (exec (logged HostState.step HostState.stranded) (fun _ _ => true) limitPassedBetween
      (beforeFirstCall 3, [])).map
        (fun x => (x.1.live, x.1.held, x.1.pc true, x.1.pc false, x.2)) =
      some ({cuMemHostUnregister 8192, cuMemFreeHost 4096}, {cuMemFreeHost 4096},
        .outside (some (0, 4096)), .outside (some (cudaErrorOutOfMemory, 8192)),
        [cuMemHostUnregister 8192]) := by
  decide +kernel

/-- The driver has the pinned memory and the stranded registration. -/
theorem host_objects_accounted_limitPassedBetween :
    ∃ (s : HostState Bool) (log : List HostObject), s.held = {cuMemFreeHost 4096} ∧
      log = [cuMemHostUnregister 8192] ∧ s.live = s.held + s.inFlight + log := by
  obtain ⟨⟨s, log⟩, hexec, hs⟩ := Option.map_eq_some_iff.mp exec_limitPassedBetween
  simp only [Prod.mk.injEq] at hs
  have hrun : GuardedRun (logged HostState.step HostState.stranded) (fun x a => a.Owned x.1)
      (beforeFirstCall 3, []) (s, log) := by
    refine GuardedRun.of_exec (fun a ha x _ => ?_) hexec
    simp only [limitPassedBetween, List.mem_cons, List.not_mem_nil, or_false] at ha
    rcases ha with rfl | rfl | rfl | rfl | rfl | rfl <;> trivial
  exact ⟨s, log, hs.2.1, hs.2.2.2.2, HostState.host_objects_accounted
    (beforeFirstCall_start 3) hrun⟩

/-- A thread asks for pinned memory when the limit has been passed. -/
def askedOverLimit : List (HostLabel Bool) :=
  [.create true cuMemHostAlloc 0 (.ok 4096), .check true (fun _ _ => .alive) (.ok 0),
    .giveBack true true]

theorem exec_askedOverLimit :
    (exec HostState.step (fun u _ => u.OverLimit 1) askedOverLimit (beforeFirstCall 12)).map
      (fun s => (decide (s.OverLimit 1), s.pc true)) =
      some (true, .outside (some (cudaErrorOutOfMemory, 0))) := by
  decide +kernel

/-- It does not get it. -/
theorem nothing_over_limit_askedOverLimit :
    ∃ s : HostState Bool, s.pc true = .outside (some (cudaErrorOutOfMemory, 0)) ∧
      s.held ≤ 0 := by
  obtain ⟨s, hexec, hs⟩ := Option.map_eq_some_iff.mp exec_askedOverLimit
  obtain ⟨hover, hpc⟩ := Prod.mk.inj hs
  have hrun : GuardedRun HostState.step (fun u a => u.OverLimit 1 ∧ a.DeviceBelow 1)
      (beforeFirstCall 12) s := by
    refine GuardedRun.of_exec (fun a ha u hchk => ⟨of_decide_eq_true hchk, ?_⟩) hexec
    simp only [askedOverLimit, List.mem_cons, List.not_mem_nil, or_false] at ha
    rcases ha with rfl | rfl | rfl
    · trivial
    · exact Nat.zero_lt_one
    · trivial
  exact ⟨s, hpc, HostState.nothing_over_limit hrun (of_decide_eq_true hover)⟩

end HamiCore
