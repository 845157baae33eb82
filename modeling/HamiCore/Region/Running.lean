import HamiCore.Region.Handshake

/-!
# Suspended processes stay out

Every hooked call begins with `ENSURE_RUNNING`, which registers the process if that has not happened
yet and then waits for as long as `wait_status_self(1)` returns `0`.  A process reads its status
where its cached `my_slot` points, and so does its signal handler write it; the tool that suspends
it reads the slot in the table.  These are the same slot when `wait_status_all(2)` has seen it, but
a compaction by somebody else may move the slot later, and the process goes on looking at the old
place.

`suspended_until_resumed` says what keeps it waiting nevertheless.  The old place still holds the
status that was there, whether it is now the vacated entry behind the table or not, until a process
registers in exactly that entry, or a handler whose own `my_slot` points there stores something
else.
-/

namespace HamiCore

/-- The loop of `ENSURE_RUNNING` lets the process of pid `p` through. -/
def ProcessTable.Running (t : ProcessTable) (p : Pid) : Prop :=
  ∃ info, t.process p = some info ∧ info.initialized = true ∧
    waitStatusSelf ⟨p, t.region, info.mySlot⟩ 1 ≠ 0

/-- The slot that process `q` claims when it registers. -/
def ProcessTable.claims (t : ProcessTable) (q : Pid) : Option ℕ :=
  (claimSlot ⟨q, t.region, none⟩).mySlot

/-- What may happen while process `p` is to stay suspended: nobody registers in the slot it
remembers, and `p` is not resumed, nor is anybody else who remembers that slot.  `proc_alive` never
reports a live process dead. -/
def HandshakeOp.KeepsSuspended (p : Pid) (t : ProcessTable) : HandshakeOp → Prop
  | .process (.register q procAlive) =>
    (∀ r, t.Alive r → procAlive r ≠ .nonalive) ∧ q ≠ p ∧
      ∀ info, t.process p = some info → t.claims q ≠ info.mySlot
  | .process (.clear _ procAlive) => ∀ r, t.Alive r → procAlive r ≠ .nonalive
  | .handler q .sigusr1 =>
    q ≠ p ∧ ∀ info info', t.process p = some info → t.process q = some info' →
      info'.mySlot ≠ info.mySlot
  | _ => True

/-! ## The remembered slot -/

/-- The entry does not let anybody through, and it is the slot of process `p` if it is one. -/
def SharedRegion.Blocked (r : SharedRegion) (p : Pid) (i : ℕ) : Prop :=
  (r.procs i).status ≠ 1 ∧ (i < r.procNum → (r.procs i).pid = p)

section Blocked

variable {p q : Pid} {i : ℕ} {r : SharedRegion} {info : RegionInfo}

/-- What a move leaves in an entry other than the hole: what was there, or, in the vacated one,
nothing. -/
theorem removeSlot_procs_or_vacate (info : RegionInfo) {slot : ℕ} (hne : i ≠ slot) :
    (removeSlot info slot).sharedRegion.procs i = info.sharedRegion.procs i ∨
      i = info.sharedRegion.procNum - 1 ∧
        (removeSlot info slot).sharedRegion.procs i = (info.sharedRegion.procs i).vacate := by
  have hcopy : (copyProcSlotAtomic
      { info.sharedRegion with procNum := info.sharedRegion.procNum - 1 } slot
      (info.sharedRegion.procNum - 1)).procs i = info.sharedRegion.procs i :=
    SharedRegion.setSlot_procs_of_ne _ hne _
  unfold removeSlot
  dsimp only
  split_ifs
  · by_cases hi : i = info.sharedRegion.procNum - 1
    · subst hi
      refine Or.inr ⟨rfl, ?_⟩
      rw [SharedRegion.setSlot_procs_self]
      exact congrArg ShrregProcSlot.vacate hcopy
    · rw [SharedRegion.setSlot_procs_of_ne _ hi]
      exact Or.inl hcopy
  · exact Or.inl hcopy

/-- A slot of somebody else is dropped. -/
theorem SharedRegion.Blocked.removeSlot (h : info.sharedRegion.Blocked p i) {slot : ℕ}
    (hslot : slot < info.sharedRegion.procNum) (hother : (info.sharedRegion.procs slot).pid ≠ p) :
    (removeSlot info slot).sharedRegion.Blocked p i := by
  have hne : i ≠ slot := by
    rintro rfl
    exact hother (h.2 hslot)
  rcases removeSlot_procs_or_vacate info hne with heq | ⟨hi, heq⟩
  · rw [Blocked, heq, removeSlot_procNum]
    exact ⟨h.1, fun hlt => h.2 (by omega)⟩
  · rw [Blocked, heq, removeSlot_procNum]
    refine ⟨?_, fun hlt => by omega⟩
    show (0 : ℤ) ≠ 1
    decide

/-- Where the pointer of `p` itself moves, it moves to a copy of the same slot. -/
theorem SharedRegion.Blocked.removeSlot_mySlot (h : info.sharedRegion.Blocked p i)
    (hmy : info.mySlot = some i) {slot : ℕ} (hslot : slot < info.sharedRegion.procNum)
    (hother : (info.sharedRegion.procs slot).pid ≠ p) :
    ∃ j, (HamiCore.removeSlot info slot).mySlot = some j ∧
      (HamiCore.removeSlot info slot).sharedRegion.Blocked p j := by
  rw [HamiCore.removeSlot_mySlot, hmy]
  split_ifs with htail
  · have hi := Option.some.inj htail
    have hlt : i < info.sharedRegion.procNum := by omega
    have hne : slot ≠ i := by
      rintro rfl
      exact hother (h.2 hlt)
    refine ⟨slot, rfl, ?_⟩
    have hcopied := removeSlot_procs_self info slot (by omega)
    rw [Blocked, hcopied, ← hi]
    exact ⟨h.1, fun _ => h.2 hlt⟩
  · exact ⟨i, rfl, h.removeSlot hslot hother⟩

/-- A compaction. -/
theorem SharedRegion.Blocked.clear (info : RegionInfo) {procAlive : Pid → ProcState}
    (h : info.sharedRegion.Blocked p i) (h0 : p ≠ 0) (halive : procAlive p ≠ .nonalive) :
    (clearProcSlotNolock procAlive 1 info).1.sharedRegion.Blocked p i := by
  refine clearProcSlotNolock_induction (P := fun info => info.sharedRegion.Blocked p i)
    (fun info slot h hslot hdrop => h.removeSlot hslot ?_) h
  rintro rfl
  exact hdrop.elim h0 halive

theorem SharedRegion.Blocked.clear_mySlot (info : RegionInfo) {procAlive : Pid → ProcState}
    (h : info.sharedRegion.Blocked p i) (hmy : info.mySlot = some i) (h0 : p ≠ 0)
    (halive : procAlive p ≠ .nonalive) :
    ∃ j, (clearProcSlotNolock procAlive 1 info).1.mySlot = some j ∧
      (clearProcSlotNolock procAlive 1 info).1.sharedRegion.Blocked p j := by
  refine clearProcSlotNolock_induction
    (P := fun info => ∃ j, info.mySlot = some j ∧ info.sharedRegion.Blocked p j)
    (fun info slot hview hslot hdrop => ?_) ⟨i, hmy, h⟩
  obtain ⟨j, hj, hblocked⟩ := hview
  refine hblocked.removeSlot_mySlot hj hslot ?_
  rintro rfl
  exact hdrop.elim h0 halive

/-- Somebody else claims another entry. -/
theorem SharedRegion.Blocked.claimSlot (info : RegionInfo) (h : info.sharedRegion.Blocked p i)
    (hne : (claimSlot info).mySlot ≠ some i) :
    (HamiCore.claimSlot info).sharedRegion.Blocked p i := by
  unfold HamiCore.claimSlot at hne ⊢
  dsimp only at hne ⊢
  split at hne
  · next k hk =>
    have hki : i ≠ k := fun heq => hne (by rw [heq])
    rw [Blocked, SharedRegion.setSlot_procs_of_ne _ hki]
    exact h
  · have hki : i ≠ info.sharedRegion.procNum := fun heq => hne (by rw [heq])
    have hsame : (info.sharedRegion.setSlot info.sharedRegion.procNum
        ((info.sharedRegion.procs info.sharedRegion.procNum).initSlot info.pid)).procs i
        = info.sharedRegion.procs i := SharedRegion.setSlot_procs_of_ne _ hki _
    refine ⟨by rw [hsame]; exact h.1, fun hlt => ?_⟩
    rw [hsame]
    exact h.2 (by
      dsimp only at hlt
      omega)

/-- The exit handler of somebody else. -/
theorem SharedRegion.Blocked.exitHandler (h : r.Blocked p i) (hne : q ≠ p) :
    (exitHandler q r).Blocked p i := by
  refine ⟨?_, fun hlt => ?_⟩
  · unfold HamiCore.exitHandler
    split
    · next k hk =>
      by_cases hik : i = k
      · rw [hik, SharedRegion.setSlot_procs_self]
        show (0 : ℤ) ≠ 1
        decide
      · rw [SharedRegion.setSlot_procs_of_ne _ hik]
        exact h.1
    · exact h.1
  · rw [exitHandler_procNum] at hlt
    have hpid := h.2 hlt
    rw [exitHandler_procs (by rw [hpid]; exact Ne.symm hne), hpid]

/-- A signal handler that stores another status, or stores it somewhere else. -/
theorem SharedRegion.Blocked.setCurrentGpuStatus (info : RegionInfo)
    (h : info.sharedRegion.Blocked p i) {status : ℤ}
    (hstatus : status = 1 → info.mySlot ≠ some i ∧ info.pid ≠ p) :
    (setCurrentGpuStatus info status).sharedRegion.Blocked p i := by
  refine ⟨?_, fun hlt => ?_⟩
  · have hmodify : ∀ k, (status = 1 → i ≠ k) →
        ((info.modifySlot k ({ · with status := status })).sharedRegion.procs i).status ≠ 1 := by
      intro k hk
      by_cases hik : i = k
      · rw [hik, RegionInfo.modifySlot_procs_self]
        exact fun hone => hk hone hik
      · rw [RegionInfo.modifySlot_procs_of_ne _ hik]
        exact h.1
    unfold HamiCore.setCurrentGpuStatus
    split
    · next k hk =>
      refine hmodify k fun hone hik => (hstatus hone).1 ?_
      rw [hk, hik]
    · split
      · next k hk =>
        obtain ⟨hlt, hpid⟩ := SharedRegion.scan_eq_some hk
        refine hmodify k fun hone hik => (hstatus hone).2 ?_
        rw [← hpid, ← hik]
        exact h.2 (by omega)
      · exact h.1
  · rw [setCurrentGpuStatus_procNum] at hlt
    rw [setCurrentGpuStatus_pid]
    exact h.2 hlt

end Blocked

/-! ## Runs -/

namespace ProcessTable

variable {t t' : ProcessTable} {p : Pid}

/-- A signal handler changes no pid, and so nothing that the table's invariant is about. -/
theorem Inv.handler (h : t.Inv) (info : RegionInfo) (hregion : info.sharedRegion = t.region)
    (status : ℤ) : Inv { t with region := (setCurrentGpuStatus info status).sharedRegion } where
  procNum_le := by
    rw [setCurrentGpuStatus_procNum, hregion]
    exact h.procNum_le
  distinct i j hi hj := by
    rw [setCurrentGpuStatus_procNum, hregion] at hi hj
    rw [setCurrentGpuStatus_pid, setCurrentGpuStatus_pid, hregion]
    exact h.distinct i j hi hj
  zero_free := h.zero_free
  pid_eq := h.pid_eq
  registered q hq := by
    obtain ⟨s, ⟨i, hi, rfl⟩, hpid⟩ := h.registered q hq
    refine ⟨_, ⟨i, ?_, rfl⟩, ?_⟩
    · rw [setCurrentGpuStatus_procNum, hregion]
      exact hi
    · rw [setCurrentGpuStatus_pid, hregion, hpid]

/-- **The invariant.**  As long as `p` has not run its exit handler, the slot it remembers does not
let it through. -/
structure Suspended (p : Pid) (t : ProcessTable) : Prop where
  inv : t.Inv
  remembered : ∀ info, t.process p = some info → info.initialized = true → info.exited = false →
    ∃ i, info.mySlot = some i ∧ t.region.Blocked p i

/-- A new region, and a new record for another process. -/
theorem Suspended.set_of_ne (h : t.Suspended p) {r' : SharedRegion} {q : Pid}
    {info' : Option ProcessInfo} (hq : q ≠ p) (hinv : Inv ({ t with region := r' }.set q info'))
    (hblocked : ∀ i info, t.process p = some info → info.mySlot = some i →
      t.region.Blocked p i → r'.Blocked p i) :
    Suspended p ({ t with region := r' }.set q info') := by
  refine ⟨hinv, fun info hp hinit hexit => ?_⟩
  rw [set_process_of_ne _ (Ne.symm hq)] at hp
  obtain ⟨i, hi, hold⟩ := h.remembered info hp hinit hexit
  exact ⟨i, hi, hblocked i info hp hi hold⟩

/-- A process `p` that is no registered one has nothing to remember. -/
theorem Inv.suspended_of_unregistered (hinv : t.Inv)
    (hgone : ∀ info, t.process p = some info → info.initialized = true → info.exited = true) :
    Suspended p t :=
  ⟨hinv, fun info hp hinit hexit => absurd (hgone info hp hinit) (by simp [hexit])⟩

/-- The registration of somebody else. -/
theorem Suspended.register (h : t.Suspended p) {q : Pid} {info : ProcessInfo}
    {procAlive : Pid → ProcState} (hq : t.process q = some info)
    (hok : (HandshakeOp.process (.register q procAlive)).KeepsSuspended p t) :
    Suspended p (t.register q info procAlive) := by
  obtain ⟨hsound, hne, hclaims⟩ := hok
  have hinv := (h.inv.register hq hsound).1
  unfold ProcessTable.register initProcSlotWithlock at hinv ⊢
  split_ifs at hinv ⊢ with hfull
  · exact h.set_of_ne hne hinv fun i _ _ _ hblocked => hblocked.exitHandler hne
  · refine h.set_of_ne hne hinv fun i info' hp hi hblocked => ?_
    have hfree : (claimSlot ⟨q, t.region, info.mySlot⟩).mySlot ≠ some i := by
      have hclaim : t.claims q = (claimSlot ⟨q, t.region, info.mySlot⟩).mySlot := by
        rw [claims, claimSlot, claimSlot]
      rw [← hclaim, ← hi]
      exact hclaims info' hp
    have halive : t.Alive p := alive_of_process hp
    have hclaimed := SharedRegion.Blocked.claimSlot ⟨q, t.region, info.mySlot⟩ hblocked hfree
    exact SharedRegion.Blocked.clear _ hclaimed (h.inv.ne_zero_of_alive halive) (hsound p halive)

/-- **One step.** -/
theorem Suspended.step (h : t.Suspended p) {op : HandshakeOp} (hok : op.KeepsSuspended p t)
    (hst : t.handshakeStep op = some t') : t'.Suspended p := by
  cases op with
  | handler q signal =>
    simp only [handshakeStep] at hst
    split at hst
    · next info hq =>
      obtain ⟨-, hst⟩ := Option.ite_none_right_eq_some.mp hst
      cases hst
      refine ⟨h.inv.handler _ rfl _, fun info' hp hinit hexit => ?_⟩
      obtain ⟨i, hi, hblocked⟩ := h.remembered info' hp hinit hexit
      refine ⟨i, hi, SharedRegion.Blocked.setCurrentGpuStatus
        ⟨q, t.region, info.mySlot⟩ hblocked fun hone => ?_⟩
      cases signal with
      | sigusr1 => exact ⟨fun hmy => hok.2 info' info hp hq (by rw [hi]; exact hmy), hok.1⟩
      | sigusr2 => cases hone
    · cases hst
  | process op =>
    have hsound : op.Sound t := by
      cases op with
      | register q procAlive => exact hok.1
      | clear q procAlive => exact hok
      | _ => trivial
    have hinv : t'.Inv := (h.inv.step hsound hst).1
    cases op with
    | start q =>
      simp only [handshakeStep, ProcessTable.step] at hst
      obtain ⟨hfree, hst⟩ := Option.ite_none_right_eq_some.mp hst
      cases hst
      by_cases hqp : q = p
      · subst hqp
        refine hinv.suspended_of_unregistered fun info hp hinit => ?_
        rw [set_process_self] at hp
        rw [← Option.some.inj hp] at hinit
        cases hinit
      · exact h.set_of_ne hqp hinv fun _ _ _ _ hblocked => hblocked
    | fork parent child =>
      simp only [handshakeStep, ProcessTable.step] at hst
      split at hst
      · obtain ⟨hfree, hst⟩ := Option.ite_none_right_eq_some.mp hst
        cases hst
        by_cases hqp : child = p
        · subst hqp
          refine hinv.suspended_of_unregistered fun info hp hinit => ?_
          rw [set_process_self] at hp
          rw [← Option.some.inj hp] at hinit
          cases hinit
        · exact h.set_of_ne hqp hinv fun _ _ _ _ hblocked => hblocked
      · cases hst
    | register q procAlive =>
      simp only [handshakeStep, ProcessTable.step] at hst
      split at hst
      · next info hq =>
        obtain ⟨-, hst⟩ := Option.ite_none_left_eq_some.mp hst
        cases hst
        exact h.register hq hok
      · cases hst
    | exitHandler q =>
      simp only [handshakeStep, ProcessTable.step] at hst
      split at hst
      · next info hq =>
        split_ifs at hst with hguard
        · cases hst
          exact h
        · rw [not_or] at hguard
          have hpid : info.pid = q := h.inv.pid_eq q info hq (by simpa using hguard.1)
          rw [← Option.some.inj hst] at hinv ⊢
          by_cases hqp : q = p
          · subst hqp
            refine hinv.suspended_of_unregistered fun info' hp _ => ?_
            rw [set_process_self] at hp
            rw [← Option.some.inj hp]
          · refine h.set_of_ne hqp hinv fun _ _ _ _ hblocked => ?_
            rw [hpid]
            exact hblocked.exitHandler hqp
      · cases hst
    | kill q =>
      simp only [handshakeStep, ProcessTable.step] at hst
      split at hst
      · cases hst
        by_cases hqp : q = p
        · subst hqp
          refine hinv.suspended_of_unregistered fun info hp _ => ?_
          rw [set_process_self] at hp
          cases hp
        · exact h.set_of_ne hqp hinv fun _ _ _ _ hblocked => hblocked
      · cases hst
    | clear q procAlive =>
      simp only [handshakeStep, ProcessTable.step] at hst
      split at hst
      · next info hq =>
        obtain ⟨-, hst⟩ := Option.ite_none_right_eq_some.mp hst
        cases hst
        by_cases hqp : q = p
        · -- its own compaction takes its pointer along
          subst hqp
          refine ⟨hinv, fun info' hp hinit hexit => ?_⟩
          rw [set_process_self] at hp
          obtain rfl := Option.some.inj hp
          obtain ⟨i, hi, hblocked⟩ := h.remembered info hq hinit hexit
          have halive := alive_of_process hq
          exact SharedRegion.Blocked.clear_mySlot ⟨info.pid, t.region, info.mySlot⟩
            hblocked hi (h.inv.ne_zero_of_alive halive) (hok q halive)
        · refine h.set_of_ne hqp hinv fun i info' hp _ hblocked => ?_
          have halive := alive_of_process hp
          exact SharedRegion.Blocked.clear ⟨info.pid, t.region, info.mySlot⟩ hblocked
            (h.inv.ne_zero_of_alive halive) (hok p halive)
      · cases hst

end ProcessTable

/-- The operation is one of those that the table's invariant is about, or a signal handler. -/
def HandshakeOp.Sound (t : ProcessTable) : HandshakeOp → Prop
  | .process op => op.Sound t
  | .handler _ _ => True

/-- The table's invariant, with signal handlers. -/
theorem ProcessTable.Fresh.inv_of_run {t t' : ProcessTable} (ht : t.Fresh)
    (hrun : GuardedRun ProcessTable.handshakeStep (fun t op => op.Sound t) t t') : t'.Inv := by
  refine hrun.invariant (P := ProcessTable.Inv) (fun t op t' hinv hok hst => ?_) ht.inv
  cases op with
  | process op => exact (hinv.step hok hst).1
  | handler q signal =>
    simp only [ProcessTable.handshakeStep] at hst
    split at hst
    · obtain ⟨-, hst⟩ := Option.ite_none_right_eq_some.mp hst
      cases hst
      exact hinv.handler _ rfl _
    · cases hst

/-- **A suspended process stays out until it is resumed.**  Let `wait_status_all(2)` return `1` in
any table that is reached with compactions in one step each and a `proc_alive` that reports no live
process dead, and let `p` be a process of it that remembers its own slot.  Whatever happens then, to
this process and the others, including compactions that move the slot of `p` and leave it with a
stale pointer: as long as nobody registers in the entry that `p` remembers, and no handler of
`SIGUSR1` stores into it, `ENSURE_RUNNING` does not let `p` through. -/
theorem suspended_until_resumed {t₀ t t' : ProcessTable} {p caller : Pid} (ht₀ : t₀.Fresh)
    (hreach : GuardedRun ProcessTable.handshakeStep (fun t op => op.Sound t) t₀ t)
    {info : ProcessInfo} (hp : t.process p = some info) {i : ℕ} (hmy : info.mySlot = some i)
    (hi : i < t.region.procNum) (hpid : (t.region.procs i).pid = p) (hcaller : p ≠ caller)
    (hwait : waitStatusAll t.region caller 2 = 1)
    (hrun : GuardedRun ProcessTable.handshakeStep (fun t op => op.KeepsSuspended p t) t t')
    (hregistered : t'.Registered p) : ¬ t'.Running p := by
  have hstatus := waitStatusAll_eq_one_iff.mp hwait i hi (by rwa [hpid])
  have hfirst : t.Suspended p := by
    refine ⟨ht₀.inv_of_run hreach, fun info' hp' _ _ => ?_⟩
    rw [hp] at hp'
    obtain rfl := Option.some.inj hp'
    exact ⟨i, hmy, by rw [hstatus]; decide, fun _ => hpid⟩
  have hlast : t'.Suspended p := hrun.invariant (P := ProcessTable.Suspended p)
    (fun _ _ _ h hok hst => h.step hok hst) hfirst
  rintro ⟨info', hp', hinit, hpasses⟩
  obtain ⟨info'', hp'', -, hexit⟩ := hregistered
  rw [hp'] at hp''
  obtain rfl := Option.some.inj hp''
  obtain ⟨j, hj, hblocked, -⟩ := hlast.remembered info' hp' hinit hexit
  apply hpasses
  show waitStatusSelf ⟨p, t'.region, info'.mySlot⟩ 1 = 0
  rw [waitStatusSelf, hj]
  exact if_neg hblocked

/-- Processes 6, 8 and 7 register, in this order, and 6 and 7 are suspended. -/
def suspendTwo : List HandshakeOp :=
  [.process (.start 6), .process (.register 6 fun _ => .alive), .process (.start 8),
    .process (.register 8 fun _ => .alive), .process (.start 7),
    .process (.register 7 fun _ => .alive), .handler 6 .sigusr2, .handler 7 .sigusr2]

/-- Then 6 is killed, and the compaction of 8 moves the slot of 7. -/
def moveSuspended : List HandshakeOp :=
  [.process (.kill 6), .process (.clear 8 fun q => if q = 6 then .nonalive else .alive)]

/-- What is looked at of a table: the slots' pids and statuses, where 7 looks, and what
`wait_status_all(2)` returns to 8. -/
def suspendView (t : ProcessTable) : List (Pid × ℤ) × Option ProcessInfo × ℤ :=
  ((List.range t.region.procNum).map fun i => ((t.region.procs i).pid, (t.region.procs i).status),
    t.process 7, waitStatusAll t.region 8 2)

/-- In `moveSuspended` the compaction comes when 6 is gone. -/
def sixGone (t : ProcessTable) : HandshakeOp → Bool
  | .process (.clear _ _) => (t.process 6).isNone
  | _ => true

/-- The slot of 7 is now the first one, and 7 still looks at the third. -/
theorem suspended_until_resumed_moved :
    ∃ t' : ProcessTable, suspendView t'
        = ([(7, 2), (8, 1)], some ⟨true, true, 7, some 2, false⟩, 1) ∧ ¬ t'.Running 7 := by
  have hfirst : (exec ProcessTable.handshakeStep (fun _ _ => true) suspendTwo
      ProcessTable.empty).map suspendView
      = some ([(6, 2), (8, 1), (7, 2)], some ⟨true, true, 7, some 2, false⟩, 1) := by
    decide +kernel
  have hsecond : ((exec ProcessTable.handshakeStep (fun _ _ => true) suspendTwo
      ProcessTable.empty).bind (exec ProcessTable.handshakeStep sixGone moveSuspended)).map
        suspendView
      = some ([(7, 2), (8, 1)], some ⟨true, true, 7, some 2, false⟩, 1) := by
    decide +kernel
  obtain ⟨t, ht, hview⟩ := Option.map_eq_some_iff.mp hfirst
  rw [ht] at hsecond
  obtain ⟨t', ht', hview'⟩ := Option.map_eq_some_iff.mp hsecond
  refine ⟨t', hview', ?_⟩
  have hslots : (List.range t.region.procNum).map
      (fun i => ((t.region.procs i).pid, (t.region.procs i).status)) = [(6, 2), (8, 1), (7, 2)] :=
    congrArg Prod.fst hview
  have hnum : t.region.procNum = 3 := by simpa using congrArg List.length hslots
  have hpid : (t.region.procs 2).pid = 7 := by
    have hthird := congrArg (fun l => l[2]?) hslots
    rw [hnum] at hthird
    exact congrArg Prod.fst (Option.some.inj hthird)
  have hreach : GuardedRun ProcessTable.handshakeStep (fun t op => op.Sound t)
      ProcessTable.empty t := by
    refine GuardedRun.of_exec (fun op hop t _ => ?_) ht
    revert op
    simp [suspendTwo, HandshakeOp.Sound, ProcessOp.Sound]
  have hrun : GuardedRun ProcessTable.handshakeStep (fun t op => op.KeepsSuspended 7 t) t t' := by
    refine GuardedRun.of_exec (fun op hop t hchk => ?_) ht'
    simp only [moveSuspended, List.mem_cons, List.not_mem_nil, or_false] at hop
    rcases hop with rfl | rfl
    · trivial
    · intro r halive hdead
      by_cases hr : r = 6
      · rw [hr, ProcessTable.Alive, Option.isNone_iff_eq_none.mp hchk] at halive
        cases halive
      · exact ProcState.noConfusion ((if_neg hr).symm.trans hdead)
  exact suspended_until_resumed ⟨rfl, fun _ => rfl⟩ hreach (congrArg (fun v => v.2.1) hview) rfl
    (by omega) hpid (by decide) (congrArg (fun v => v.2.2) hview) hrun
    ⟨_, congrArg (fun v => v.2.1) hview', rfl, rfl⟩

end HamiCore
