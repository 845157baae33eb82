import HamiCore.Library.FirstOccurrence
import HamiCore.Region.Slot
import Mathlib.Data.List.TakeWhile

/-!
# The pid outside the container

A process does not see its pid on the host.  `set_task_pid` finds it by comparing the processes that
NVML lists before and after the primary context is retained: `mergepid` makes each list free of
repeats, `getextrapid` looks for a pid that is new, and the memory NVML reports for that process
becomes `context_size`.

Two things are not as they look.  `getextrapid` gives up when the two lists are equally long, which
they also are when another process has gone in between (`hostPidDetected_iff`).  And `context_size`
is read from the list as reported, at a position of the list without repeats
(`setTaskPid_contextSize_iff`).
-/

namespace HamiCore

/-- `nvmlProcessInfo_v1_t`. -/
structure NvmlProcessInfo where
  pid : UInt32
  usedGpuMemory : UInt64
  deriving DecidableEq

/-- `mergepid(prev, current, sub, merged)`, with the counts as the lengths of the lists.  Only the
pids of `merged` are written. -/
def mergepid (sub : List NvmlProcessInfo) (merged : List UInt32) : List UInt32 :=
  sub.foldl (fun merged e => if e.pid ∈ merged then merged else merged ++ [e.pid]) merged

/-- `getextrapid(prev, current, pre_pids_on_device, pids_on_device)`. -/
def getextrapid (prePidsOnDevice pidsOnDevice : List UInt32) : UInt32 :=
  if UInt32.ofNat pidsOnDevice.length - UInt32.ofNat prePidsOnDevice.length ≤ 0 then 0
  else (pidsOnDevice.find? fun pid => pid ∉ prePidsOnDevice).getD 0

/-- The pid that `set_task_pid` detects from the two lists. -/
def detectedPid (before after : List NvmlProcessInfo) : UInt32 :=
  getextrapid (mergepid before []) (mergepid after [])

/-- The pids of a list, as reported. -/
def reportedPids (l : List NvmlProcessInfo) : List UInt32 := l.map NvmlProcessInfo.pid

/-- `mergepid` into an empty list keeps the first occurrences. -/
theorem mergepid_nil (l : List NvmlProcessInfo) :
    mergepid l [] = firstOccurrences (reportedPids l) := by
  rw [firstOccurrences, reportedPids, List.foldl_map]
  rfl

/-! ### Detecting the pid -/

/-- What the detection is for.  The merged lists hold the distinct pids in the order in which they
were first reported; a pid that is new is found whenever there is one, and 0 says that there is
none; and a process that is the only new one is found. -/
structure HostPidDetected (before after : List NvmlProcessInfo) : Prop where
  mem_before : ∀ p, p ∈ mergepid before [] ↔ p ∈ reportedPids before
  order_before : (mergepid before []).Pairwise fun p q =>
    (reportedPids before).idxOf p < (reportedPids before).idxOf q
  mem_after : ∀ p, p ∈ mergepid after [] ↔ p ∈ reportedPids after
  order_after : (mergepid after []).Pairwise fun p q =>
    (reportedPids after).idxOf p < (reportedPids after).idxOf q
  new : (∃ p ∈ reportedPids after, p ∉ reportedPids before) →
    detectedPid before after ∈ reportedPids after ∧ detectedPid before after ∉ reportedPids before
  zero : detectedPid before after = 0 ↔ ∀ p ∈ reportedPids after, p ∈ reportedPids before
  own : ∀ p ∈ reportedPids after, p ∉ reportedPids before →
    (∀ q ∈ reportedPids after, q ∉ reportedPids before → q = p) → detectedPid before after = p

/-- The early exit is taken exactly when the merged lists are equally long. -/
theorem sub_le_zero_iff {m n : ℕ} (hm : m ≤ 1024) (hn : n ≤ 1024) :
    UInt32.ofNat m - UInt32.ofNat n ≤ 0 ↔ m = n := by
  rw [UInt32.le_iff_toNat_le, UInt32.toNat_sub, UInt32.toNat_ofNat', UInt32.toNat_ofNat',
    UInt32.toNat_zero]
  omega

/-- The detected pid, in terms of the lists as reported. -/
theorem detectedPid_eq {before after : List NvmlProcessInfo} (hbefore : before.length ≤ 1024)
    (hafter : after.length ≤ 1024) :
    detectedPid before after
      = if (reportedPids before).dedup.length = (reportedPids after).dedup.length then 0
        else ((reportedPids after).find? fun p => p ∉ reportedPids before).getD 0 := by
  have hle : ∀ l : List NvmlProcessInfo, l.length ≤ 1024 → (reportedPids l).dedup.length ≤ 1024 :=
    fun l hl => le_trans (List.dedup_sublist _).length_le (by rwa [reportedPids, List.length_map])
  rw [detectedPid, getextrapid, mergepid_nil, mergepid_nil, length_firstOccurrences,
    length_firstOccurrences, find?_firstOccurrences]
  simp only [sub_le_zero_iff (hle _ hafter) (hle _ hbefore), mem_firstOccurrences,
    eq_comm (a := (reportedPids after).dedup.length)]

/-- The merged lists are always what they should be, so only the detected pid is left to look at. -/
theorem hostPidDetected_of {before after : List NvmlProcessInfo}
    (hnew : (∃ p ∈ reportedPids after, p ∉ reportedPids before) →
      detectedPid before after ∈ reportedPids after ∧
        detectedPid before after ∉ reportedPids before)
    (hzero : detectedPid before after = 0 ↔ ∀ p ∈ reportedPids after, p ∈ reportedPids before) :
    HostPidDetected before after where
  mem_before p := by rw [mergepid_nil, mem_firstOccurrences]
  order_before := by
    rw [mergepid_nil]
    exact pairwise_firstOccurrences _
  mem_after p := by rw [mergepid_nil, mem_firstOccurrences]
  order_after := by
    rw [mergepid_nil]
    exact pairwise_firstOccurrences _
  new := hnew
  zero := hzero
  own p hp hp' honly := by
    obtain ⟨hmem, hnotMem⟩ := hnew ⟨p, hp, hp'⟩
    exact honly _ hmem hnotMem

/-- **When the host pid is detected.**  Where a pid is new, it takes that the two lists have
different numbers of distinct pids and that the first of the new ones is not 0. -/
theorem hostPidDetected_iff {before after : List NvmlProcessInfo} (hbefore : before.length ≤ 1024)
    (hafter : after.length ≤ 1024) :
    HostPidDetected before after ↔
      (∀ p ∈ reportedPids after, p ∈ reportedPids before) ∨
        (reportedPids before).dedup.length ≠ (reportedPids after).dedup.length ∧
          ((reportedPids after).find? fun p => p ∉ reportedPids before) ≠ some 0 := by
  have heq := detectedPid_eq hbefore hafter
  cases hfind : (reportedPids after).find? fun p => p ∉ reportedPids before with
  | none =>
    have hold : ∀ p ∈ reportedPids after, p ∈ reportedPids before := by
      simpa using List.find?_eq_none.mp hfind
    rw [hfind, Option.getD_none, ite_self] at heq
    refine iff_of_true (hostPidDetected_of ?_ (iff_of_true heq hold)) (Or.inl hold)
    rintro ⟨p, hp, hnew⟩
    exact absurd (hold p hp) hnew
  | some q =>
    have hq : q ∈ reportedPids after := List.mem_of_find?_eq_some hfind
    have hq' : q ∉ reportedPids before := by simpa using List.find?_some hfind
    have hnot : ¬ ∀ p ∈ reportedPids after, p ∈ reportedPids before := fun h => hq' (h q hq)
    rw [hfind, Option.getD_some] at heq
    constructor
    · intro h
      have hne : detectedPid before after ≠ 0 := fun h0 => hnot (h.zero.mp h0)
      rw [heq] at hne
      refine Or.inr ⟨fun hcount => hne (if_pos hcount), fun h0 => ?_⟩
      rw [Option.some.inj h0, ite_self] at hne
      exact hne rfl
    · rintro (h | ⟨hcount, h0⟩)
      · exact absurd h hnot
      · rw [if_neg hcount] at heq
        refine hostPidDetected_of (fun _ => by rw [heq]; exact ⟨hq, hq'⟩) (iff_of_false ?_ hnot)
        rw [heq]
        exact fun h => h0 (congrArg some h)

/-- One process more, and it is found. -/
theorem hostPidDetected_of_one_more :
    HostPidDetected [⟨10, 0⟩, ⟨11, 0⟩] [⟨10, 0⟩, ⟨12, 0⟩, ⟨11, 0⟩] :=
  (hostPidDetected_iff (by decide) (by decide)).mpr (Or.inr (by decide))

/-- Process 10 has gone while process 12 came, and process 12 is not found. -/
theorem hostPid_missed_when_another_exits :
    ¬ HostPidDetected [⟨10, 0⟩, ⟨11, 0⟩] [⟨11, 0⟩, ⟨12, 0⟩] := by
  intro h
  have honly : ∀ q ∈ reportedPids [⟨11, 0⟩, ⟨12, 0⟩], q ∉ reportedPids [⟨10, 0⟩, ⟨11, 0⟩] →
      q = 12 := by
    simp [reportedPids]
  exact absurd (h.own 12 (by decide) (by decide) honly) (by decide)

/-! ### The size of a context -/

/-- An `unsigned int` passed as an `int`. -/
def asInt (pid : UInt32) : Pid := (pid.toNat : ℤ).bmod (2 ^ 32)

/-- `set_host_pid(hostpid)`: every registered slot of the caller gets the pid and its monitor
counters back to zero; `none` when there is no such slot. -/
def setHostPid (self : Pid) (hostpid : Pid) (r : SharedRegion) : Option SharedRegion :=
  if ∃ i < r.procNum, (r.procs i).pid = self then
    some { r with
      procs := fun i =>
        if i < r.procNum ∧ (r.procs i).pid = self then
          { r.procs i with hostpid := hostpid, monitorused := fun _ => 0 }
        else r.procs i }
  else none

/-- The loop that looks for the pid in one list and takes `context_size` from the other, at the
position it has come to. -/
def contextSizeAt : List NvmlProcessInfo → List UInt32 → UInt32 → Option UInt64
  | tmp :: tmpPidsOnDevice, pid :: pidsOnDevice, hostpid =>
    if pid = hostpid then some tmp.usedGpuMemory
    else contextSizeAt tmpPidsOnDevice pidsOnDevice hostpid
  | _, _, _ => none

/-- What `set_task_pid` writes: the region and `context_size`. -/
structure TaskState where
  region : SharedRegion
  contextSize : UInt64

/-- `set_task_pid()` where the calls of NVML and of the driver succeed, and `before` and `after` are
what NVML lists for the first device that has an ordinal.  The flag says whether it returns
`NVML_SUCCESS`. -/
def setTaskPid (self : Pid) (before after : List NvmlProcessInfo) (s : TaskState) :
    Bool × TaskState :=
  let pidsOnDevice := mergepid after []
  let hostpid := getextrapid (mergepid before []) pidsOnDevice
  if hostpid = 0 then (false, s)
  else
    match setHostPid self (asInt hostpid) s.region with
    | none => (true, s)
    | some region =>
      (true, ⟨region, (contextSizeAt after pidsOnDevice hostpid).getD s.contextSize⟩)

/-- The entries in front of the first one of a pid. -/
def entriesBefore (l : List NvmlProcessInfo) (pid : UInt32) : List NvmlProcessInfo :=
  l.takeWhile fun e => e.pid ≠ pid

/-- How many distinct pids they have. -/
def distinctBefore (l : List NvmlProcessInfo) (pid : UInt32) : ℕ :=
  (reportedPids (entriesBefore l pid)).dedup.length

/-- The loop stops at the first position of the pid. -/
theorem contextSizeAt_eq {pids : List UInt32} {hostpid : UInt32} (h : hostpid ∈ pids)
    (tmp : List NvmlProcessInfo) :
    contextSizeAt tmp pids hostpid
      = tmp[pids.idxOf hostpid]?.map NvmlProcessInfo.usedGpuMemory := by
  induction pids generalizing tmp with
  | nil => cases h
  | cons p pids ih =>
    cases tmp with
    | nil => rfl
    | cons e tmp =>
      by_cases hp : p = hostpid
      · rw [contextSizeAt, if_pos hp, hp, List.idxOf_cons_self]
        rfl
      · have h' : hostpid ∈ pids := (List.mem_cons.mp h).resolve_left (Ne.symm hp)
        rw [contextSizeAt, if_neg hp, ih h', List.idxOf_cons_ne _ hp, List.getElem?_cons_succ]

/-- A reported pid has a first entry. -/
theorem exists_first_entry {l : List NvmlProcessInfo} {pid : UInt32} (h : pid ∈ reportedPids l) :
    ∃ e rest, l = entriesBefore l pid ++ e :: rest ∧ e.pid = pid := by
  induction l with
  | nil => cases h
  | cons e l ih =>
    by_cases he : e.pid = pid
    · refine ⟨e, l, ?_, he⟩
      rw [entriesBefore, List.takeWhile_cons_of_neg (by simp [he]), List.nil_append]
    · obtain ⟨e', rest, hl, he'⟩ := ih ((List.mem_cons.mp h).resolve_left (Ne.symm he))
      refine ⟨e', rest, ?_, he'⟩
      rw [entriesBefore, List.takeWhile_cons_of_pos (by simp [he]), List.cons_append]
      exact congrArg _ hl

/-- The position in the merged list is the number of distinct pids in front. -/
theorem idxOf_mergepid {l : List NvmlProcessInfo} {pid : UInt32} (h : pid ∈ reportedPids l) :
    (mergepid l []).idxOf pid = distinctBefore l pid := by
  obtain ⟨e, rest, hl, rfl⟩ := exists_first_entry h
  have hnot : e.pid ∉ reportedPids (entriesBefore l e.pid) := by
    intro hmem
    obtain ⟨e', he', heq⟩ := List.mem_map.mp hmem
    have := List.mem_takeWhile_imp he'
    simp [heq] at this
  have hsplit : reportedPids l
      = reportedPids (entriesBefore l e.pid) ++ e.pid :: reportedPids rest := by
    conv_lhs => rw [hl]
    rw [reportedPids, List.map_append, List.map_cons]
    rfl
  rw [mergepid_nil, hsplit, idxOf_firstOccurrences hnot, distinctBefore]

/-- A pid other than 0 comes from the second list. -/
theorem detectedPid_mem {before after : List NvmlProcessInfo}
    (h : detectedPid before after ≠ 0) : detectedPid before after ∈ reportedPids after := by
  unfold detectedPid getextrapid at h ⊢
  split_ifs at h ⊢ with hcount
  · exact absurd rfl h
  · cases hfind : (mergepid after []).find? fun pid => pid ∉ mergepid before [] with
    | none =>
      rw [hfind] at h
      exact absurd rfl h
    | some pid =>
      have hmem := List.mem_of_find?_eq_some hfind
      rwa [mergepid_nil, mem_firstOccurrences] at hmem

/-- What `set_task_pid` stores: the memory of the entry at that position. -/
theorem setTaskPid_contextSize {self : Pid} {before after : List NvmlProcessInfo} {s : TaskState}
    (hdetected : detectedPid before after ≠ 0)
    (hset : ∃ i < s.region.procNum, (s.region.procs i).pid = self) :
    after[distinctBefore after (detectedPid before after)]?.map NvmlProcessInfo.usedGpuMemory
      = some (setTaskPid self before after s).2.contextSize := by
  have hmem := detectedPid_mem hdetected
  have hmem' : detectedPid before after ∈ mergepid after [] := by
    rwa [mergepid_nil, mem_firstOccurrences]
  -- the position is one of the reported list
  obtain ⟨e, rest, hafter, -⟩ := exists_first_entry hmem
  have hlt : distinctBefore after (detectedPid before after) < after.length := by
    have hle : distinctBefore after (detectedPid before after)
        ≤ (entriesBefore after (detectedPid before after)).length := by
      rw [distinctBefore, ← List.length_map (f := NvmlProcessInfo.pid)]
      exact (List.dedup_sublist _).length_le
    have hlen := congrArg List.length hafter
    rw [List.length_append, List.length_cons] at hlen
    omega
  have hsize : contextSizeAt after (mergepid after []) (detectedPid before after)
      = some (after.get ⟨_, hlt⟩).usedGpuMemory := by
    rw [contextSizeAt_eq hmem', idxOf_mergepid hmem, List.getElem?_eq_getElem hlt]
    rfl
  have hreg : setHostPid self (asInt (detectedPid before after)) s.region = some _ := if_pos hset
  have hrun : (setTaskPid self before after s).2.contextSize
      = (contextSizeAt after (mergepid after [])
          (detectedPid before after)).getD s.contextSize := by
    have hd : getextrapid (mergepid before []) (mergepid after []) = detectedPid before after := rfl
    simp only [setTaskPid, hd, if_neg hdetected, hreg]
  rw [hrun, hsize, List.getElem?_eq_getElem hlt]
  rfl

/-- **When `context_size` is that of the detected process.**  It is read at the position that counts
the distinct pids in front of the first entry of the process.  That is the first entry of the
process exactly when no pid is repeated in front of it; otherwise it is an entry of another process,
and only a coincidence of the two sizes saves the result. -/
theorem setTaskPid_contextSize_iff {self : Pid} {before after : List NvmlProcessInfo}
    {s : TaskState} (hdetected : detectedPid before after ≠ 0)
    (hset : ∃ i < s.region.procNum, (s.region.procs i).pid = self) :
    (∃ e ∈ after, e.pid = detectedPid before after ∧
        (setTaskPid self before after s).2.contextSize = e.usedGpuMemory) ↔
      (reportedPids (entriesBefore after (detectedPid before after))).Nodup ∨
        ∃ e ∈ after, e.pid = detectedPid before after ∧
          after[distinctBefore after (detectedPid before after)]?.map NvmlProcessInfo.usedGpuMemory
            = some e.usedGpuMemory := by
  rw [setTaskPid_contextSize hdetected hset]
  simp only [Option.some.injEq]
  refine ⟨Or.inr, ?_⟩
  rintro (hnodup | hsame)
  · obtain ⟨e, rest, hafter, he⟩ := exists_first_entry (detectedPid_mem hdetected)
    have hentry : after[distinctBefore after (detectedPid before after)]? = some e := by
      rw [distinctBefore, hnodup.dedup, reportedPids, List.length_map]
      generalize entriesBefore after (detectedPid before after) = front at hafter
      rw [hafter]
      simp
    have hsize := setTaskPid_contextSize hdetected hset
    rw [hentry] at hsize
    have hmem : e ∈ after := by
      rw [hafter]
      simp
    exact ⟨e, hmem, he, (Option.some.inj hsize).symm⟩
  · exact hsame

/-- A region in which process 7 is registered, for the two lists below. -/
def taskStateOfSeven : TaskState :=
  ⟨⟨fun _ => 0, fun _ => { ShrregProcSlot.blank with pid := 7 }, 1⟩, 0⟩

/-- Another process is listed once, and the size is right. -/
theorem contextSize_of_distinct_list :
    ∃ e ∈ ([⟨1, 100⟩, ⟨2, 200⟩] : List NvmlProcessInfo),
      e.pid = detectedPid [⟨1, 100⟩] [⟨1, 100⟩, ⟨2, 200⟩] ∧
      (setTaskPid 7 [⟨1, 100⟩] [⟨1, 100⟩, ⟨2, 200⟩] taskStateOfSeven).2.contextSize
        = e.usedGpuMemory :=
  (setTaskPid_contextSize_iff (by decide) ⟨0, by decide, rfl⟩).mpr (Or.inl (by decide))

/-- Process 1 is listed twice in front of process 2, and its second entry is read for process 2. -/
theorem contextSize_of_another_process :
    detectedPid [⟨1, 100⟩] [⟨1, 100⟩, ⟨1, 50⟩, ⟨2, 200⟩] = 2 ∧
      (∃ i < taskStateOfSeven.region.procNum, (taskStateOfSeven.region.procs i).pid = 7) ∧
      ¬ ∃ e ∈ ([⟨1, 100⟩, ⟨1, 50⟩, ⟨2, 200⟩] : List NvmlProcessInfo),
        e.pid = detectedPid [⟨1, 100⟩] [⟨1, 100⟩, ⟨1, 50⟩, ⟨2, 200⟩] ∧
        (setTaskPid 7 [⟨1, 100⟩] [⟨1, 100⟩, ⟨1, 50⟩, ⟨2, 200⟩] taskStateOfSeven).2.contextSize
          = e.usedGpuMemory :=
  ⟨by decide, ⟨0, by decide, rfl⟩, by decide⟩

end HamiCore
