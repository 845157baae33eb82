import Mathlib.Data.UInt
import Mathlib.Data.Fintype.Pi
import Mathlib.Logic.Function.Basic

/-!
# The shared region and its process slots

`shared_region_t` lives in a file mapped by every process of a container.  Its `procs` array holds
one slot for each registered process; the entries below `proc_num` are registered, the ones above
are whatever an earlier occupant left there.  This file is the data of
`multiprocess_memory_limit.h`: the slot, the region, and the process-local `region_info` with the
cached slot pointer `my_slot`.

Counters are the source's `uint64_t`, so `UInt64` with its wrap-around.  A `pid` is an integer; `0`
marks a slot whose process has left through `exit_handler`.  The array is a function on `ℕ`, and a
`my_slot` pointer into it is the index it points at.
-/

namespace HamiCore

/-- `CUDA_DEVICE_MAX_COUNT`. -/
abbrev cudaDeviceMaxCount : ℕ := 16

/-- `SHARED_REGION_MAX_PROCESS_NUM`. -/
abbrev sharedRegionMaxProcessNum : ℕ := 1024

instance : NeZero cudaDeviceMaxCount := ⟨by decide⟩

/-- An index into the per-device arrays. -/
abbrev Dev := Fin cudaDeviceMaxCount

/-- `int32_t pid`. -/
abbrev Pid := ℤ

/-- The answers of `proc_alive`: `PROC_STATE_ALIVE`, `PROC_STATE_NONALIVE`, `PROC_STATE_UNKNOWN`. -/
inductive ProcState where
  | alive
  | nonalive
  | unknown
  deriving DecidableEq, Repr

/-- `device_memory_t`. -/
structure DeviceMemory where
  contextSize : UInt64
  moduleSize : UInt64
  dataSize : UInt64
  offset : UInt64
  total : UInt64
  deriving DecidableEq

/-- `device_util_t`. -/
structure DeviceUtil where
  decUtil : UInt64
  encUtil : UInt64
  smUtil : UInt64
  deriving DecidableEq

/-- `shrreg_proc_slot_t`. -/
@[ext] structure ShrregProcSlot where
  pid : Pid
  hostpid : Pid
  used : Dev → DeviceMemory
  monitorused : Dev → UInt64
  deviceUtil : Dev → DeviceUtil
  status : ℤ
  seqlock : UInt64
  deriving DecidableEq

/-- The part of `shared_region_t` the accounting reads and writes. -/
structure SharedRegion where
  limit : Dev → UInt64
  procs : ℕ → ShrregProcSlot
  procNum : ℕ

/-- `shared_region_info_t`: what one process holds on the region.  `mySlot` is `none` for `NULL`. -/
structure RegionInfo where
  pid : Pid
  sharedRegion : SharedRegion
  mySlot : Option ℕ

namespace ShrregProcSlot

/-- The loop `for dev < CUDA_DEVICE_MAX_COUNT` that zeroes a slot's usage, utilisation and monitor
counters.  `offset`, `dec_util` and `enc_util` are not touched. -/
def zeroAtomics (s : ShrregProcSlot) : ShrregProcSlot :=
  { s with
    used := fun d => { s.used d with total := 0, contextSize := 0, moduleSize := 0, dataSize := 0 }
    deviceUtil := fun d => { s.deviceUtil d with smUtil := 0 }
    monitorused := fun _ => 0 }

@[simp] theorem zeroAtomics_pid (s : ShrregProcSlot) : s.zeroAtomics.pid = s.pid := rfl

@[simp] theorem zeroAtomics_seqlock (s : ShrregProcSlot) : s.zeroAtomics.seqlock = s.seqlock := rfl

@[simp] theorem zeroAtomics_total (s : ShrregProcSlot) (d : Dev) :
    (s.zeroAtomics.used d).total = 0 := rfl

/-- A slot no process has ever used: the mapped file starts out as zero bytes. -/
def blank : ShrregProcSlot where
  pid := 0
  hostpid := 0
  used := fun _ => ⟨0, 0, 0, 0, 0⟩
  monitorused := fun _ => 0
  deviceUtil := fun _ => ⟨0, 0, 0⟩
  status := 0
  seqlock := 0

end ShrregProcSlot

namespace SharedRegion

/-- The first of the slots below `bound` that carries the given pid: the loop
`for (i = 0; i < bound; i++) if (procs[i].pid == pid)`. -/
def scan (r : SharedRegion) (pid : Pid) (bound : ℕ) : Option ℕ :=
  (List.range bound).find? fun i => (r.procs i).pid = pid

/-- The scan over the registered slots that the slow paths share. -/
def findSlot (r : SharedRegion) (pid : Pid) : Option ℕ :=
  r.scan pid r.procNum

/-- Overwrite one slot. -/
def setSlot (r : SharedRegion) (i : ℕ) (s : ShrregProcSlot) : SharedRegion :=
  { r with procs := Function.update r.procs i s }

@[simp] theorem setSlot_procNum (r : SharedRegion) (i : ℕ) (s : ShrregProcSlot) :
    (r.setSlot i s).procNum = r.procNum := rfl

@[simp] theorem setSlot_limit (r : SharedRegion) (i : ℕ) (s : ShrregProcSlot) :
    (r.setSlot i s).limit = r.limit := rfl

@[simp] theorem setSlot_procs_self (r : SharedRegion) (i : ℕ) (s : ShrregProcSlot) :
    (r.setSlot i s).procs i = s := Function.update_self _ _ _

theorem setSlot_procs_of_ne (r : SharedRegion) {i j : ℕ} (h : j ≠ i) (s : ShrregProcSlot) :
    (r.setSlot i s).procs j = r.procs j := Function.update_of_ne h _ _

/-- The registered slots of non-zero pid carry pairwise distinct pids. -/
def PidsDistinct (r : SharedRegion) : Prop :=
  ∀ i j, i < r.procNum → j < r.procNum → (r.procs i).pid ≠ 0 →
    (r.procs i).pid = (r.procs j).pid → i = j

/-- A scan finds a slot that carries the pid. -/
theorem scan_eq_some {r : SharedRegion} {pid : Pid} {bound i : ℕ} (h : r.scan pid bound = some i) :
    i < bound ∧ (r.procs i).pid = pid := by
  have hmem := List.mem_of_find?_eq_some h
  have hp := List.find?_some h
  exact ⟨List.mem_range.mp hmem, by simpa using hp⟩

theorem scan_eq_none {r : SharedRegion} {pid : Pid} {bound : ℕ} (h : r.scan pid bound = none)
    {i : ℕ} (hi : i < bound) : (r.procs i).pid ≠ pid := by
  have := List.find?_eq_none.mp h i (List.mem_range.mpr hi)
  simpa using this

/-- No slot before the one a scan finds carries the pid. -/
theorem scan_le {r : SharedRegion} {pid : Pid} {bound i : ℕ} (h : r.scan pid bound = some i)
    {j : ℕ} (hj : (r.procs j).pid = pid) : i ≤ j := by
  by_contra hlt
  obtain ⟨-, l₁, l₂, hl, hl₁⟩ := List.find?_eq_some_iff_append.mp h
  have hget : (l₁ ++ i :: l₂)[l₁.length]? = some i := by simp
  rw [← hl, List.getElem?_range] at hget
  · have hlen : l₁.length = i := by simpa using hget
    have hmem : j ∈ l₁ := by
      have hj' : (l₁ ++ i :: l₂)[j]? = some j := by
        rw [← hl, List.getElem?_range]
        have hi := (scan_eq_some h).1
        omega
      rw [List.getElem?_append_left (by omega)] at hj'
      exact List.mem_of_getElem? hj'
    simpa [hj] using hl₁ j hmem
  · have := congrArg List.length hl
    simp only [List.length_range, List.length_append, List.length_cons] at this
    omega

/-- Where registered pids are distinct, a scan that reaches past the registered slots finds the one
registered slot that carries the pid. -/
theorem scan_of_pidsDistinct {r : SharedRegion} (hd : r.PidsDistinct) {pid : Pid} {bound i : ℕ}
    (hb : r.procNum ≤ bound) (hi : i < r.procNum) (hp : (r.procs i).pid = pid) (h0 : pid ≠ 0) :
    r.scan pid bound = some i := by
  cases hf : r.scan pid bound with
  | none => exact absurd hp (scan_eq_none hf (hi.trans_le hb))
  | some j =>
    have hjp := (scan_eq_some hf).2
    have hji := scan_le hf hp
    rw [hd j i (hji.trans_lt hi) hi (hjp ▸ h0) (hjp.trans hp.symm)]

theorem findSlot_of_pidsDistinct {r : SharedRegion} (hd : r.PidsDistinct) {pid : Pid} {i : ℕ}
    (hi : i < r.procNum) (hp : (r.procs i).pid = pid) (h0 : pid ≠ 0) :
    r.findSlot pid = some i :=
  scan_of_pidsDistinct hd le_rfl hi hp h0

end SharedRegion

end HamiCore
