import HamiCore.Region.Processes
import Mathlib.Data.List.Induction
import Mathlib.Data.List.Nodup

/-!
# Suspending and resuming all processes

`shrreg_tool` suspends the processes of a region with `suspend_all`, which sends a signal to the pid
of every slot, and then calls `wait_status_all` until every slot but its own has the status that the
signal handlers store.  A process that has run its exit handler leaves a slot of pid `0` and
status `0` behind, until somebody compacts the table; one that was killed leaves its slot as it was.
The first kind makes `suspend_all` call `kill(0, …)`, which signals the caller's own process group,
and keeps `wait_status_all` from returning `1`, and so may the second.  The handshake is right
exactly without them (`handshakeCorrect_iff`), which after a compaction is the case for the first
kind (`handshakeCorrect_of_compacted`).  Each of the three loops sees one state of the table; the
exits come before it.
-/

namespace HamiCore

/-- The signals of the handshake. -/
inductive GpuSignal where
  | sigusr1
  | sigusr2
  deriving DecidableEq

/-- What `kill(pid, …)` sends to. -/
inductive KillTarget where
  | process (pid : Pid)
  /-- The caller's process group. -/
  | callersGroup
  /-- Every process the caller may signal. -/
  | everyone
  | group (pgid : Pid)
  deriving DecidableEq

/-- The target of `kill(pid, …)`. -/
def killTarget (pid : Pid) : KillTarget :=
  if 0 < pid then .process pid
  else if pid = 0 then .callersGroup
  else if pid = -1 then .everyone
  else .group (-pid)

/-- The loop of `suspend_all` and `resume_all`: what is sent, in order. -/
def killAll (signal : GpuSignal) (r : SharedRegion) : List (KillTarget × GpuSignal) :=
  (List.range r.procNum).map fun i => (killTarget (r.procs i).pid, signal)

/-- `suspend_all()`. -/
def suspendAll : SharedRegion → List (KillTarget × GpuSignal) := killAll .sigusr2

/-- `resume_all()`. -/
def resumeAll : SharedRegion → List (KillTarget × GpuSignal) := killAll .sigusr1

/-- `wait_status_all(status)`, called by the process of pid `caller`. -/
def waitStatusAll (r : SharedRegion) (caller : Pid) (status : ℤ) : ℤ :=
  (List.range r.procNum).foldl (fun released i =>
    if (r.procs i).status ≠ status ∧ (r.procs i).pid ≠ caller then 0 else released) 1

/-- The status that the handler of a signal stores, `sig_restore_stub` and `sig_swap_stub`. -/
def GpuSignal.status : GpuSignal → ℤ
  | .sigusr1 => 1
  | .sigusr2 => 2

/-- What happens to a region: the operations of its processes, and their signal handlers. -/
inductive HandshakeOp where
  | process (op : ProcessOp)
  /-- The handler of a signal runs in the process of pid `p`. -/
  | handler (p : Pid) (signal : GpuSignal)

/-- One operation.  The handlers are installed by `init_proc_slot_withlock`, and a child has those
of its parent. -/
def ProcessTable.handshakeStep (t : ProcessTable) : HandshakeOp → Option ProcessTable
  | .process op => t.step op
  | .handler p signal =>
    match t.process p with
    | some info =>
      if info.attached then
        some { t with
          region := (setCurrentGpuStatus ⟨p, t.region, info.mySlot⟩ signal.status).sharedRegion }
      else none
    | none => none

/-- The system gives positive pids. -/
def HandshakeOp.PositivePid : HandshakeOp → Prop
  | .process (.start p) => 0 < p
  | .process (.fork _ child) => 0 < child
  | _ => True

/-- `signal` is sent once to each positive pid registered below `proc_num`, and nothing else is
sent. -/
structure SharedRegion.SignalsEachOnce (r : SharedRegion) (signal : GpuSignal)
    (sent : List (KillTarget × GpuSignal)) : Prop where
  once : ∀ i < r.procNum, 0 < (r.procs i).pid →
    sent.count (.process (r.procs i).pid, signal) = 1
  only : ∀ x ∈ sent, ∃ i < r.procNum, 0 < (r.procs i).pid ∧
    x = (.process (r.procs i).pid, signal)

/-- The handshake covers the processes that have not exited.  A process that has run its exit
handler has; `exited` are the other pids in the table that count as such, of killed processes. -/
structure SharedRegion.HandshakeCorrect (r : SharedRegion) (caller : Pid) (status : ℤ)
    (exited : Pid → Prop) : Prop where
  suspend : r.SignalsEachOnce .sigusr2 (suspendAll r)
  resume : r.SignalsEachOnce .sigusr1 (resumeAll r)
  wait : waitStatusAll r caller status = 1 ↔
    ∀ i < r.procNum, (r.procs i).pid ≠ 0 → ¬ exited (r.procs i).pid → (r.procs i).pid ≠ caller →
      (r.procs i).status = status

/-! ## Reachable tables -/

/-- What the operations preserve. -/
structure ProcessTable.Positive (t : ProcessTable) : Prop where
  distinct : t.region.PidsDistinct
  nonneg : ∀ i < t.region.procNum, 0 ≤ (t.region.procs i).pid
  alive_pos : ∀ p, t.Alive p → 0 < p

section Reachable

variable {t t' : ProcessTable}

theorem ProcessTable.Fresh.positive (h : t.Fresh) : t.Positive where
  distinct := h.inv.distinct
  nonneg i hi := by
    rw [h.1] at hi
    exact absurd hi (Nat.not_lt_zero i)
  alive_pos p hp := by
    rw [ProcessTable.Alive, h.2 p] at hp
    exact absurd hp (by simp)

theorem claimSlot_pid_nonneg {info : RegionInfo} (h0 : 0 ≤ info.pid)
    (h : ∀ i < info.sharedRegion.procNum, 0 ≤ (info.sharedRegion.procs i).pid) :
    ∀ i < (claimSlot info).sharedRegion.procNum,
      0 ≤ ((claimSlot info).sharedRegion.procs i).pid := by
  intro i hi
  unfold claimSlot at hi ⊢
  dsimp only at hi ⊢
  split at hi
  · next k hk =>
    by_cases hik : i = k
    · rw [hik, SharedRegion.setSlot_procs_self, ShrregProcSlot.reset_pid]
      exact h k (SharedRegion.scan_eq_some hk).1
    · rw [SharedRegion.setSlot_procs_of_ne _ hik]
      exact h i hi
  · dsimp only at hi ⊢
    by_cases hik : i = info.sharedRegion.procNum
    · rw [hik, SharedRegion.setSlot_procs_self, ShrregProcSlot.initSlot_pid]
      exact h0
    · rw [SharedRegion.setSlot_procs_of_ne _ hik]
      exact h i (by omega)

theorem clearProcSlotNolock_pid_nonneg {procAlive : Pid → ProcState} {info : RegionInfo}
    (h : ∀ i < info.sharedRegion.procNum, 0 ≤ (info.sharedRegion.procs i).pid) :
    ∀ i < (clearProcSlotNolock procAlive 1 info).1.sharedRegion.procNum,
      0 ≤ ((clearProcSlotNolock procAlive 1 info).1.sharedRegion.procs i).pid := by
  refine clearProcSlotNolock_induction
    (P := fun info => ∀ i < info.sharedRegion.procNum, 0 ≤ (info.sharedRegion.procs i).pid)
    (fun info slot h hlt _ => ?_) h
  intro i hi
  rw [removeSlot_procNum] at hi
  rw [removeSlot_procs _ _ hi]
  by_cases his : i = slot
  · rw [his, Function.update_self]
    exact h _ (by omega)
  · rw [Function.update_of_ne his]
    exact h i (by omega)

theorem exitHandler_pid_nonneg {p : Pid} {r : SharedRegion}
    (h : ∀ i < r.procNum, 0 ≤ (r.procs i).pid) :
    ∀ i < (exitHandler p r).procNum, 0 ≤ ((exitHandler p r).procs i).pid := by
  intro i hi
  rw [exitHandler_procNum] at hi
  rcases exitHandler_pid p r i with hold | hzero
  · rw [hold]
    exact h i hi
  · rw [hzero]

/-- A signal handler changes no pid. -/
theorem setCurrentGpuStatus_pid (info : RegionInfo) (status : ℤ) (i : ℕ) :
    ((setCurrentGpuStatus info status).sharedRegion.procs i).pid
      = (info.sharedRegion.procs i).pid := by
  have hmodify : ∀ k, ((info.modifySlot k ({ · with status := status })).sharedRegion.procs i).pid
      = (info.sharedRegion.procs i).pid := by
    intro k
    by_cases hik : i = k
    · rw [hik, RegionInfo.modifySlot_procs_self]
    · rw [RegionInfo.modifySlot_procs_of_ne _ hik]
  unfold setCurrentGpuStatus
  split
  · exact hmodify _
  · split
    · exact hmodify _
    · rfl

theorem setCurrentGpuStatus_procNum (info : RegionInfo) (status : ℤ) :
    (setCurrentGpuStatus info status).sharedRegion.procNum = info.sharedRegion.procNum := by
  unfold setCurrentGpuStatus
  split
  · rfl
  · split <;> rfl

/-- A new region in order, and a new record for one pid. -/
theorem ProcessTable.Positive.set (h : t.Positive) {r' : SharedRegion} {p : Pid}
    {info : Option ProcessInfo} (hdistinct : r'.PidsDistinct)
    (hnonneg : ∀ i < r'.procNum, 0 ≤ (r'.procs i).pid) (hp : info ≠ none → 0 < p) :
    Positive ({ t with region := r' }.set p info) := by
  refine ⟨hdistinct, hnonneg, fun q hq => ?_⟩
  by_cases hqp : q = p
  · rw [hqp]
    refine hp fun hnone => ?_
    rw [hqp, ProcessTable.Alive, ProcessTable.set_process_self, hnone] at hq
    cases hq
  · rw [ProcessTable.Alive, ProcessTable.set_process_of_ne _ hqp] at hq
    exact h.alive_pos q hq

theorem ProcessTable.Positive.register (h : t.Positive) {p : Pid} {info : ProcessInfo}
    (hp : t.process p = some info) (procAlive : Pid → ProcState) :
    (t.register p info procAlive).Positive := by
  have hpos := h.alive_pos p (ProcessTable.alive_of_process hp)
  unfold ProcessTable.register initProcSlotWithlock
  split_ifs
  · exact h.set (exitHandler_pidsDistinct h.distinct) (exitHandler_pid_nonneg h.nonneg)
      (fun _ => hpos)
  · exact h.set (clearProcSlotNolock_pidsDistinct (claimSlot_pidsDistinct h.distinct))
      (clearProcSlotNolock_pid_nonneg (claimSlot_pid_nonneg hpos.le h.nonneg)) (fun _ => hpos)

/-- **One operation of a process.** -/
theorem ProcessTable.Positive.step (h : t.Positive) {op : ProcessOp}
    (hpos : (HandshakeOp.process op).PositivePid) (hst : t.step op = some t') : t'.Positive := by
  cases op with
  | start p =>
    obtain ⟨-, hst⟩ := Option.ite_none_right_eq_some.mp hst
    cases hst
    exact h.set h.distinct h.nonneg fun _ => hpos
  | fork parent child =>
    simp only [ProcessTable.step] at hst
    split at hst
    · obtain ⟨-, hst⟩ := Option.ite_none_right_eq_some.mp hst
      cases hst
      exact h.set h.distinct h.nonneg fun _ => hpos
    · cases hst
  | register p procAlive =>
    simp only [ProcessTable.step] at hst
    split at hst
    · next info hp =>
      obtain ⟨-, hst⟩ := Option.ite_none_left_eq_some.mp hst
      cases hst
      exact h.register hp procAlive
    · cases hst
  | exitHandler p =>
    simp only [ProcessTable.step] at hst
    split at hst
    · next info hp =>
      split_ifs at hst
      · cases hst
        exact h
      · rw [← Option.some.inj hst]
        exact h.set (exitHandler_pidsDistinct h.distinct) (exitHandler_pid_nonneg h.nonneg)
          fun _ => h.alive_pos p (ProcessTable.alive_of_process hp)
    · cases hst
  | kill p =>
    simp only [ProcessTable.step] at hst
    split at hst
    · cases hst
      exact h.set h.distinct h.nonneg fun hne => absurd rfl hne
    · cases hst
  | clear p procAlive =>
    simp only [ProcessTable.step] at hst
    split at hst
    · next info hp =>
      obtain ⟨-, hst⟩ := Option.ite_none_right_eq_some.mp hst
      cases hst
      exact h.set (clearProcSlotNolock_pidsDistinct h.distinct)
        (clearProcSlotNolock_pid_nonneg h.nonneg)
        fun _ => h.alive_pos p (ProcessTable.alive_of_process hp)
    · cases hst

/-- The step lemma. -/
theorem ProcessTable.Positive.handshakeStep (h : t.Positive) {op : HandshakeOp}
    (hpos : op.PositivePid) (hst : t.handshakeStep op = some t') : t'.Positive := by
  cases op with
  | process op => exact h.step hpos hst
  | handler p signal =>
    simp only [ProcessTable.handshakeStep] at hst
    split at hst
    · next info hp =>
      obtain ⟨-, hst⟩ := Option.ite_none_right_eq_some.mp hst
      cases hst
      refine ⟨?_, ?_, h.alive_pos⟩
      · intro i j hi hj
        rw [setCurrentGpuStatus_procNum] at hi hj
        rw [setCurrentGpuStatus_pid, setCurrentGpuStatus_pid]
        exact h.distinct i j hi hj
      · intro i hi
        rw [setCurrentGpuStatus_procNum] at hi
        rw [setCurrentGpuStatus_pid]
        exact h.nonneg i hi
    · cases hst

/-- The run lemma. -/
theorem ProcessTable.Fresh.positive_of_run (ht : t.Fresh)
    (hrun : GuardedRun ProcessTable.handshakeStep (fun _ op => op.PositivePid) t t') :
    t'.Positive :=
  hrun.invariant (P := ProcessTable.Positive)
    (fun _ _ _ hpos hop hst => hpos.handshakeStep hop hst) ht.positive

end Reachable

/-! ## The handshake -/

section Handshake

variable {r : SharedRegion} {caller : Pid} {status : ℤ} {exited : Pid → Prop}

theorem killTarget_of_pos {pid : Pid} (h : 0 < pid) : killTarget pid = .process pid := if_pos h

/-- The signals go where they should exactly if no slot is marked. -/
theorem signalsEachOnce_killAll_iff (hdistinct : r.PidsDistinct)
    (hnonneg : ∀ i < r.procNum, 0 ≤ (r.procs i).pid) (signal : GpuSignal) :
    r.SignalsEachOnce signal (killAll signal r) ↔ ∀ i < r.procNum, (r.procs i).pid ≠ 0 := by
  constructor
  · intro h i hi hzero
    have hmem : (KillTarget.callersGroup, signal) ∈ killAll signal r :=
      List.mem_map.mpr ⟨i, List.mem_range.mpr hi, by rw [hzero]; rfl⟩
    obtain ⟨j, -, -, heq⟩ := h.only _ hmem
    exact KillTarget.noConfusion (congrArg Prod.fst heq)
  · intro hne
    have hpos : ∀ i < r.procNum, 0 < (r.procs i).pid := fun i hi =>
      lt_of_le_of_ne (hnonneg i hi) (hne i hi).symm
    have hnodup : (killAll signal r).Nodup := by
      apply List.Nodup.map_on _ List.nodup_range
      intro i hi j hj heq
      rw [List.mem_range] at hi hj
      rw [killTarget_of_pos (hpos i hi), killTarget_of_pos (hpos j hj)] at heq
      exact hdistinct i j hi hj (hne i hi) (KillTarget.process.inj (congrArg Prod.fst heq))
    refine ⟨fun i hi hi0 => List.count_eq_one_of_mem hnodup ?_, fun x hx => ?_⟩
    · exact List.mem_map.mpr ⟨i, List.mem_range.mpr hi, by rw [killTarget_of_pos hi0]⟩
    · obtain ⟨i, hi, rfl⟩ := List.mem_map.mp hx
      have hi' := List.mem_range.mp hi
      exact ⟨i, hi', hpos i hi', by rw [killTarget_of_pos (hpos i hi')]⟩

/-- The loop of `wait_status_all`. -/
theorem waitStatusAll_eq_one_iff :
    waitStatusAll r caller status = 1 ↔
      ∀ i < r.procNum, (r.procs i).pid ≠ caller → (r.procs i).status = status := by
  have hloop : ∀ l : List ℕ, l.foldl (fun released i =>
      if (r.procs i).status ≠ status ∧ (r.procs i).pid ≠ caller then (0 : ℤ) else released) 1 = 1 ↔
      ∀ i ∈ l, (r.procs i).pid ≠ caller → (r.procs i).status = status := by
    intro l
    induction l using List.reverseRecOn with
    | nil => simp
    | append_singleton l i ih =>
      rw [List.foldl_concat, List.forall_mem_append, List.forall_mem_singleton]
      split_ifs with h
      · exact iff_of_false (by decide) fun hall => h.1 (hall.2 h.2)
      · rw [ih, and_iff_left]
        exact fun hcaller => not_not.mp fun hne => h ⟨hne, hcaller⟩
  rw [waitStatusAll, hloop]
  exact forall_congr' fun i => by rw [List.mem_range]

/-- **The handshake of a table in order.** -/
theorem handshakeCorrect_iff_of_distinct (hdistinct : r.PidsDistinct)
    (hnonneg : ∀ i < r.procNum, 0 ≤ (r.procs i).pid) :
    r.HandshakeCorrect caller status exited ↔
      (∀ i < r.procNum, (r.procs i).pid ≠ 0) ∧
        ((∀ i < r.procNum, exited (r.procs i).pid → (r.procs i).pid ≠ caller →
            (r.procs i).status = status) ∨
          ∃ i < r.procNum, ¬ exited (r.procs i).pid ∧ (r.procs i).pid ≠ caller ∧
            (r.procs i).status ≠ status) := by
  have hsignals := signalsEachOnce_killAll_iff hdistinct hnonneg
  constructor
  · intro h
    have hne := (hsignals .sigusr2).mp h.suspend
    refine ⟨hne, or_iff_not_imp_right.mpr fun hnone i hi _ => ?_⟩
    refine waitStatusAll_eq_one_iff.mp (h.wait.mpr fun j hj _ hexited hcaller => ?_) i hi
    exact not_not.mp fun hstatus => hnone ⟨j, hj, hexited, hcaller, hstatus⟩
  · rintro ⟨hne, hexited⟩
    refine ⟨(hsignals .sigusr2).mpr hne, (hsignals .sigusr1).mpr hne, ?_⟩
    rw [waitStatusAll_eq_one_iff]
    constructor
    · intro h i hi _ _ hcaller
      exact h i hi hcaller
    · intro h i hi hcaller
      rcases hexited with hstatus | ⟨j, hj, hj', hcaller', hstatus⟩
      · by_cases hi' : exited (r.procs i).pid
        · exact hstatus i hi hi' hcaller
        · exact h i hi (hne i hi) hi' hcaller
      · exact absurd (h j hj (hne j hj) hj' hcaller') hstatus

/-- **The handshake is right exactly in the tables without marked slots**, in which moreover the
slots of killed processes, if they count as exited, have the status waited for, or some other
process does not have it yet.  For every table reached by starts, forks, registrations, exits,
kills, compactions and signal handlers, in any order, every caller and every status. -/
theorem handshakeCorrect_iff {t t' : ProcessTable} (ht : t.Fresh)
    (hrun : GuardedRun ProcessTable.handshakeStep (fun _ op => op.PositivePid) t t') :
    t'.region.HandshakeCorrect caller status exited ↔
      (∀ i < t'.region.procNum, (t'.region.procs i).pid ≠ 0) ∧
        ((∀ i < t'.region.procNum, exited (t'.region.procs i).pid →
            (t'.region.procs i).pid ≠ caller → (t'.region.procs i).status = status) ∨
          ∃ i < t'.region.procNum, ¬ exited (t'.region.procs i).pid ∧
            (t'.region.procs i).pid ≠ caller ∧ (t'.region.procs i).status ≠ status) := by
  have hpos := ht.positive_of_run hrun
  exact handshakeCorrect_iff_of_distinct hpos.distinct hpos.nonneg

/-- **After a compaction** there are no marked slots, and the handshake is right for the processes
that are still registered. -/
theorem handshakeCorrect_of_compacted {t t' u : ProcessTable} (ht : t.Fresh)
    (hrun : GuardedRun ProcessTable.handshakeStep (fun _ op => op.PositivePid) t t') {p : Pid}
    {procAlive : Pid → ProcState}
    (hst : t'.handshakeStep (.process (.clear p procAlive)) = some u) :
    u.region.HandshakeCorrect caller status fun _ => False := by
  have hpos := ht.positive_of_run (hrun.tail (a := .process (.clear p procAlive)) trivial hst)
  refine (handshakeCorrect_iff_of_distinct hpos.distinct hpos.nonneg).mpr
    ⟨?_, Or.inl fun _ _ hfalse => hfalse.elim⟩
  simp only [ProcessTable.handshakeStep, ProcessTable.step] at hst
  split at hst
  · obtain ⟨-, hst⟩ := Option.ite_none_right_eq_some.mp hst
    cases hst
    exact fun i => clearProcSlotNolock_pid_ne_zero _ _ _
  · cases hst

end Handshake

/-! ## An exit before the handshake -/

/-- Processes 7 and 8 register. -/
def twoRegister : List HandshakeOp :=
  [.process (.start 7), .process (.register 7 fun _ => .alive), .process (.start 8),
    .process (.register 8 fun _ => .alive)]

/-- What the handshake sees of a table: the slots' pids and statuses, what `suspend_all` sends, and
what `wait_status_all(2)` returns to process 8. -/
def handshakeView (t : ProcessTable) :
    List (Pid × ℤ) × List (KillTarget × GpuSignal) × ℤ :=
  ((List.range t.region.procNum).map fun i => ((t.region.procs i).pid, (t.region.procs i).status),
    suspendAll t.region, waitStatusAll t.region 8 2)

theorem slot_mem_of_handshakeView {t : ProcessTable} {slots : List (Pid × ℤ)}
    {rest : List (KillTarget × GpuSignal) × ℤ} (h : handshakeView t = (slots, rest)) {i : ℕ}
    (hi : i < t.region.procNum) : ((t.region.procs i).pid, (t.region.procs i).status) ∈ slots := by
  rw [← (Prod.mk.inj h).1]
  exact List.mem_map.mpr ⟨i, List.mem_range.mpr hi, rfl⟩

theorem handshakeOps_run {ops : List HandshakeOp} {t : ProcessTable}
    (hpos : ∀ op ∈ ops, op.PositivePid)
    (hexec : exec ProcessTable.handshakeStep (fun _ _ => true) ops ProcessTable.empty = some t) :
    GuardedRun ProcessTable.handshakeStep (fun _ op => op.PositivePid) ProcessTable.empty t :=
  GuardedRun.of_exec (fun op hop _ _ => hpos op hop) hexec

/-- Both are there and 7 has handled its signal: the handshake is right. -/
theorem handshakeCorrect_twoRegister :
    ∃ t, GuardedRun ProcessTable.handshakeStep (fun _ op => op.PositivePid)
        ProcessTable.empty t ∧
      t.region.HandshakeCorrect 8 2 fun _ => False := by
  have hview : (exec ProcessTable.handshakeStep (fun _ _ => true)
      (twoRegister ++ [.handler 7 .sigusr2]) ProcessTable.empty).map handshakeView
      = some ([(7, 2), (8, 1)],
          [(.process 7, .sigusr2), (.process 8, .sigusr2)], 1) := by decide +kernel
  obtain ⟨t, hexec, ht⟩ := Option.map_eq_some_iff.mp hview
  have hrun := handshakeOps_run (by simp [twoRegister, HandshakeOp.PositivePid]) hexec
  refine ⟨t, hrun, (handshakeCorrect_iff ⟨rfl, fun _ => rfl⟩ hrun).mpr
    ⟨fun i hi hzero => ?_, Or.inl fun _ _ hfalse => hfalse.elim⟩⟩
  have hmem := slot_mem_of_handshakeView ht hi
  rw [hzero] at hmem
  simp at hmem

/-- Process 7 exits: `suspend_all` signals the caller's process group, and `wait_status_all(2)`
returns `0` to process 8, which is alone. -/
theorem handshake_after_exit :
    ∃ t, GuardedRun ProcessTable.handshakeStep (fun _ op => op.PositivePid)
        ProcessTable.empty t ∧
      (.callersGroup, .sigusr2) ∈ suspendAll t.region ∧ waitStatusAll t.region 8 2 = 0 ∧
      (∀ i < t.region.procNum, (t.region.procs i).pid ≠ 0 → (t.region.procs i).pid = 8) ∧
      ∀ exited, ¬ t.region.HandshakeCorrect 8 2 exited := by
  have hview : (exec ProcessTable.handshakeStep (fun _ _ => true)
      (twoRegister ++ [.process (.exitHandler 7)]) ProcessTable.empty).map handshakeView
      = some ([(0, 0), (8, 1)], [(.callersGroup, .sigusr2), (.process 8, .sigusr2)], 0) := by
    decide +kernel
  obtain ⟨t, hexec, ht⟩ := Option.map_eq_some_iff.mp hview
  have hrun := handshakeOps_run (by simp [twoRegister, HandshakeOp.PositivePid]) hexec
  have hgroup : (.callersGroup, .sigusr2) ∈ suspendAll t.region := by
    rw [show suspendAll t.region = _ from congrArg (fun v => v.2.1) ht]
    decide
  refine ⟨t, hrun, hgroup, congrArg (fun v => v.2.2) ht, fun i hi hne => ?_, fun exited h => ?_⟩
  · have hmem := slot_mem_of_handshakeView ht hi
    simp only [List.mem_cons, Prod.mk.injEq, List.not_mem_nil, or_false] at hmem
    exact hmem.elim (fun h => absurd h.1 hne) And.left
  · obtain ⟨i, -, -, heq⟩ := h.suspend.only _ hgroup
    exact KillTarget.noConfusion (congrArg Prod.fst heq)

end HamiCore
