import HamiCore.Access.Machine

/-!
# The accesses of one thread, uninterrupted

The region-level functions of `HamiCore.Region` describe an operation as a whole.  This file
connects them to the access-level programs: a thread that makes all accesses of an operation with
nobody in between does to the table, and returns, what the region-level function says
(`run_clearProcSlotNolock`, `run_updateGpuDeviceMemoryUsage`, `run_getGpuMemoryUsage`).  So whatever
goes wrong at the access level goes wrong because of an interleaving.

`lift` puts such a run into the machine, with all the other threads standing still.
-/

namespace HamiCore

/-- A region, as the table the accesses work on. -/
def SharedRegion.table (r : SharedRegion) : SlotTable := ⟨r.procs, r.procNum⟩

@[simp] theorem SharedRegion.table_procs (r : SharedRegion) : r.table.procs = r.procs := rfl

@[simp] theorem SharedRegion.table_procNum (r : SharedRegion) : r.table.procNum = r.procNum := rfl

/-! ## Compaction -/

/-- The table, the caller's `my_slot` and its program counter. -/
abbrev ClearConfig := SlotTable × Option ℕ × ClearPc

/-- `clearAccess` as a step function whose label is the answer of `proc_alive`. -/
def ClearConfig.step (doClear : ℤ) (x : ClearConfig) (answer : ProcState) : Option ClearConfig :=
  clearAccess doClear answer x.1 x.2.1 x.2.2

/-- What is asked of an access of `clear_proc_slot_nolock`: `proc_alive` answers as the given oracle
does, and a decrement is taken only where `atDecrement` holds. -/
def ClearPc.Allowed (procAlive : Pid → ProcState) (atDecrement : SlotTable → ClearLocals → Prop)
    (m : SlotTable) (answer : ProcState) : ClearPc → Prop
  | .probe _ pid => answer = procAlive pid
  | .decrement l => atDecrement m l
  | _ => True

/-- An uninterrupted run of `clear_proc_slot_nolock` from one program point to another. -/
abbrev ClearRun (procAlive : Pid → ProcState) (atDecrement : SlotTable → ClearLocals → Prop)
    (doClear : ℤ) : ClearConfig → ClearConfig → Prop :=
  GuardedRun (ClearConfig.step doClear) fun x answer =>
    x.2.2.Allowed procAlive atDecrement x.1 answer

/-- The slot about to be dropped is registered and droppable. -/
def SlotTable.Drops (procAlive : Pid → ProcState) (m : SlotTable) (l : ClearLocals) : Prop :=
  (l.slot : ℤ) < m.procNum ∧ (m.procs l.slot).Droppable procAlive

section Compaction

variable (procAlive : Pid → ProcState) (atDecrement : SlotTable → ClearLocals → Prop) (doClear : ℤ)

/-- The copy loop, from any of its fields on. -/
theorem run_copying (m : SlotTable) (my : Option ℕ) (l : ClearLocals) (tail : ℕ)
    (fs : List SlotField) :
    ClearRun procAlive atDecrement doClear (m, my, .copying l tail fs)
      (m.setSlot l.slot (copyInto (m.procs tail) fs (m.procs l.slot)), my, .compare l) := by
  induction fs generalizing m with
  | nil =>
    rw [copyInto_nil, SlotTable.setSlot_self]
    exact GuardedRun.refl _
  | cons f fs ih =>
    have hrest := ih (m.setField l.slot f (f.get (m.procs tail)))
    rw [SlotTable.setField_get, SlotTable.setField_procs_self, SlotTable.setSlot_setField] at hrest
    have hload : ClearConfig.step doClear (m, my, .copyLoad l tail f fs) .alive =
        some (m, my, .copyStore l tail f fs (f.get (m.procs tail))) := rfl
    exact GuardedRun.head trivial hload (GuardedRun.head (a := .alive) trivial rfl hrest)

/-- The zeroing loop, from any of its fields on. -/
theorem run_zeroing {m : SlotTable} {n : ℕ} (hn : m.procNum = n) (my : Option ℕ) (l : ClearLocals)
    (fs : List SlotField) :
    ClearRun procAlive atDecrement doClear (m, my, .zeroing l fs)
      (m.setSlot n (zeroInto fs (m.procs n)), my, .test l) := by
  induction fs generalizing m with
  | nil =>
    rw [zeroInto, copyInto_nil, SlotTable.setSlot_self]
    exact GuardedRun.refl _
  | cons f fs ih =>
    have hrest := ih (m := m.setField n f f.zero) hn
    rw [SlotTable.setField_procs_self, SlotTable.setSlot_setField] at hrest
    have hload : ClearConfig.step doClear (m, my, .zeroLoad l f fs) .alive =
        some (m, my, .zeroStore l n f fs) := by
      show (m.procNum.toNat?.map fun i => (m, my, ClearPc.zeroStore l i f fs)) = _
      rw [hn]
      rfl
    exact GuardedRun.head trivial hload (GuardedRun.head (a := .alive) trivial rfl hrest)

/-- **One removal**: the decrement, the copy, the comparison and the zeroing are `removeSlot`. -/
theorem run_removeSlot {info : RegionInfo} {l : ClearLocals} (h : 0 < info.sharedRegion.procNum)
    (hdrop : atDecrement info.sharedRegion.table l) :
    ClearRun procAlive atDecrement doClear (info.sharedRegion.table, info.mySlot, .decrement l)
      ((removeSlot info l.slot).sharedRegion.table, (removeSlot info l.slot).mySlot, .test l) := by
  obtain ⟨n, hn⟩ : ∃ n, info.sharedRegion.procNum = n + 1 := ⟨_, (Nat.succ_pred_eq_of_pos h).symm⟩
  let m : SlotTable := ⟨info.sharedRegion.procs, n⟩
  let m' : SlotTable :=
    ⟨Function.update info.sharedRegion.procs l.slot (info.sharedRegion.procs n), n⟩
  have hdec : ClearConfig.step doClear (info.sharedRegion.table, info.mySlot, .decrement l) .alive =
      some (m, info.mySlot, .loadTail l) := by
    show some ((⟨info.sharedRegion.procs, (info.sharedRegion.procNum : ℤ) - 1⟩ : SlotTable),
      info.mySlot, ClearPc.loadTail l) = _
    rw [hn, Nat.cast_succ, add_sub_cancel_right]
  have hcopy := run_copying procAlive atDecrement doClear m info.mySlot l n copyFields
  rw [copyInto_copyFields] at hcopy
  have htocompare : ClearRun procAlive atDecrement doClear
      (info.sharedRegion.table, info.mySlot, .decrement l) (m', info.mySlot, .compare l) :=
    GuardedRun.head (a := .alive) hdrop hdec (GuardedRun.head (a := .alive) trivial rfl hcopy)
  have htail : info.sharedRegion.procNum - 1 = n := by omega
  by_cases hmy : info.mySlot = some n
  · -- the caller's own slot has moved: re-point and zero
    have hzero := run_zeroing procAlive atDecrement doClear (m := m') rfl (some l.slot) l zeroFields
    rw [zeroInto_zeroFields] at hzero
    have hcmp : ClearConfig.step doClear (m', info.mySlot, .compare l) .alive =
        some (m', some l.slot, .zeroing l zeroFields) :=
      if_pos ⟨n, hmy, rfl⟩
    have hout : removeSlot info l.slot = ⟨info.pid, ⟨info.sharedRegion.limit,
        Function.update m'.procs n (m'.procs n).vacate, n⟩, some l.slot⟩ := by
      unfold removeSlot
      rw [htail, if_pos hmy]
      rfl
    rw [hout]
    exact (htocompare.tail (a := .alive) trivial hcmp).trans hzero
  · have hcmp : ClearConfig.step doClear (m', info.mySlot, .compare l) .alive =
        some (m', info.mySlot, .test l) := by
      refine if_neg ?_
      rintro ⟨i, hi, hin⟩
      obtain rfl : i = n := Nat.cast_inj.mp hin
      exact hmy hi
    have hout : removeSlot info l.slot =
        ⟨info.pid, ⟨info.sharedRegion.limit, m'.procs, n⟩, info.mySlot⟩ := by
      unfold removeSlot
      rw [htail, if_neg hmy]
      rfl
    rw [hout]
    exact htocompare.tail (a := .alive) trivial hcmp

/-- **One turn of the loop**, from its test to its test.  What it drops is registered and
droppable. -/
theorem run_clearStep {info : RegionInfo} {l : ClearLocals}
    (h : l.slot < info.sharedRegion.procNum) :
    ClearRun procAlive (SlotTable.Drops procAlive) doClear
      (info.sharedRegion.table, info.mySlot, .test l)
      ((clearStep procAlive doClear info l).1.sharedRegion.table,
        (clearStep procAlive doClear info l).1.mySlot,
        .test (clearStep procAlive doClear info l).2) := by
  have hpos : 0 < info.sharedRegion.procNum := by omega
  have hlt : (l.slot : ℤ) < info.sharedRegion.procNum := by exact_mod_cast h
  have htest : ClearConfig.step doClear (info.sharedRegion.table, info.mySlot, .test l) .alive =
      some (info.sharedRegion.table, info.mySlot, .loadPid l) := by
    show some (_, _, if (l.slot : ℤ) < info.sharedRegion.procNum then _ else _) = _
    rw [if_pos hlt]
  refine GuardedRun.head trivial htest ?_
  unfold clearStep
  dsimp only
  by_cases h0 : (info.sharedRegion.procs l.slot).pid = 0
  · rw [if_pos h0]
    exact GuardedRun.head (a := .alive) trivial (if_pos h0)
      (run_removeSlot procAlive _ doClear hpos ⟨hlt, Or.inl h0⟩)
  · rw [if_neg h0]
    by_cases hask : 0 < doClear ∧ l.cleanedDead < 10
    · have hload : ClearConfig.step doClear (info.sharedRegion.table, info.mySlot, .loadPid l)
          .alive = some (info.sharedRegion.table, info.mySlot,
            .probe l (info.sharedRegion.procs l.slot).pid) :=
        (if_neg h0).trans (if_pos hask)
      refine GuardedRun.head trivial hload ?_
      by_cases hdead : procAlive (info.sharedRegion.procs l.slot).pid = .nonalive
      · rw [if_pos ⟨hask.1, hask.2, hdead⟩]
        exact GuardedRun.head (a := procAlive _) rfl (if_pos hdead)
          (run_removeSlot procAlive _ doClear hpos ⟨hlt, Or.inr hdead⟩)
      · rw [if_neg fun hall => hdead hall.2.2]
        exact GuardedRun.head (a := procAlive _) rfl (if_neg hdead) (GuardedRun.refl _)
    · rw [if_neg fun hall => hask ⟨hall.1, hall.2.1⟩]
      exact GuardedRun.head (a := .alive) trivial ((if_neg h0).trans (if_neg hask))
        (GuardedRun.refl _)

theorem run_clearLoop (fuel : ℕ) (info : RegionInfo) (l : ClearLocals) :
    ClearRun procAlive (SlotTable.Drops procAlive) doClear
      (info.sharedRegion.table, info.mySlot, .test l)
      ((clearLoop procAlive doClear fuel info l).1.sharedRegion.table,
        (clearLoop procAlive doClear fuel info l).1.mySlot,
        .test (clearLoop procAlive doClear fuel info l).2) := by
  induction fuel generalizing info l with
  | zero => exact GuardedRun.refl _
  | succ fuel ih =>
    by_cases h : l.slot < info.sharedRegion.procNum
    · rw [clearLoop_of_lt fuel h]
      exact (run_clearStep procAlive doClear h).trans (ih _ _)
    · rw [clearLoop_of_not_lt _ h]
      exact GuardedRun.refl _

/-- The loop and the return, with enough fuel. -/
theorem run_clearLoop_returned {fuel : ℕ} {info : RegionInfo} {l : ClearLocals}
    (hf : info.sharedRegion.procNum - l.slot ≤ fuel) :
    ClearRun procAlive (SlotTable.Drops procAlive) doClear
      (info.sharedRegion.table, info.mySlot, .test l)
      ((clearLoop procAlive doClear fuel info l).1.sharedRegion.table,
        (clearLoop procAlive doClear fuel info l).1.mySlot,
        .returned (clearLoop procAlive doClear fuel info l).2.res) := by
  refine (run_clearLoop procAlive doClear fuel info l).tail (a := .alive) trivial ?_
  have hexit : (clearLoop procAlive doClear fuel info l).1.sharedRegion.procNum ≤
      (clearLoop procAlive doClear fuel info l).2.slot := clearLoop_exit _ _ _ hf
  have hstop : ¬ ((clearLoop procAlive doClear fuel info l).2.slot : ℤ) <
      (clearLoop procAlive doClear fuel info l).1.sharedRegion.table.procNum := by
    rw [SharedRegion.table_procNum]
    exact_mod_cast not_lt.mpr hexit
  show some (_, _, if (_ : ℤ) < _ then _ else _) = _
  rw [if_neg hstop]

/-- **An uninterrupted compaction** is `clearProcSlotNolock`, its return value included. -/
theorem run_clearProcSlotNolock (info : RegionInfo) :
    ClearRun procAlive (SlotTable.Drops procAlive) doClear
      (info.sharedRegion.table, info.mySlot, .test ⟨0, 0, 0, 0⟩)
      ((clearProcSlotNolock procAlive doClear info).1.sharedRegion.table,
        (clearProcSlotNolock procAlive doClear info).1.mySlot,
        .returned (clearProcSlotNolock procAlive doClear info).2) :=
  run_clearLoop_returned procAlive doClear (Nat.sub_le _ _)

end Compaction

/-- Thread `t` at the given point of a compaction, everybody else where they stand in `s`. -/
def AccessState.withClear {T : Type*} [DecidableEq T] (s : AccessState T) (pidOf : T → Pid) (t : T)
    (doClear : ℤ) (x : ClearConfig) : AccessState T :=
  ⟨x.1, Function.update s.mySlot (pidOf t) x.2.1, s.alive,
    Function.update s.pc t (.clear doClear x.2.2)⟩

theorem AccessState.withClear_self {T : Type*} [DecidableEq T] {s : AccessState T}
    (pidOf : T → Pid) {t : T} {doClear : ℤ} {pc : ClearPc} (h : s.pc t = .clear doClear pc) :
    s.withClear pidOf t doClear (s.table, s.mySlot (pidOf t), pc) = s := by
  unfold withClear
  rw [← h, Function.update_eq_self, Function.update_eq_self]

/-- **An uninterrupted stretch of a compaction, inside the machine.** -/
theorem ClearRun.lift {T : Type*} [DecidableEq T] {pidOf : T → Pid} {procAlive : Pid → ProcState}
    {atDecrement : SlotTable → ClearLocals → Prop} {doClear : ℤ} {x y : ClearConfig}
    (h : ClearRun procAlive atDecrement doClear x y) {s : AccessState T} {t : T}
    (hlive : s.alive (pidOf t) = true) {ok : AccessState T → AccessLabel T → Prop}
    (hok : ∀ z answer, z.2.2.Allowed procAlive atDecrement z.1 answer →
      ok (s.withClear pidOf t doClear z) (.access t answer)) :
    GuardedRun (AccessState.step pidOf) ok (s.withClear pidOf t doClear x)
      (s.withClear pidOf t doClear y) := by
  refine h.map (s.withClear pidOf t doClear) (.access t) hok fun z answer z' hz => ?_
  obtain ⟨m, my, pc⟩ := z
  have hpc : (s.withClear pidOf t doClear (m, my, pc)).pc t = .clear doClear pc :=
    Function.update_self _ _ _
  have hmy : (s.withClear pidOf t doClear (m, my, pc)).mySlot (pidOf t) = my :=
    Function.update_self _ _ _
  have hacc : threadAccess (pidOf t) answer m my (.clear doClear pc) =
      some (z'.1, z'.2.1, .clear doClear z'.2.2) := by
    show (clearAccess doClear answer m my pc).map _ = _
    rw [show clearAccess doClear answer m my pc = some z' from hz]
    rfl
  show (if s.alive (pidOf t) = true then _ else _) = _
  rw [if_pos hlive, hpc, hmy]
  show (threadAccess (pidOf t) answer m my (.clear doClear pc)).map _ = _
  rw [hacc, Option.map_some]
  simp only [AccessState.withClear, Function.update_idem]

/-- The same, from a state in which the thread stands at the given point. -/
theorem ClearRun.lift_of_pc {T : Type*} [DecidableEq T] {pidOf : T → Pid}
    {procAlive : Pid → ProcState} {atDecrement : SlotTable → ClearLocals → Prop} {doClear : ℤ}
    {m : SlotTable} {my : Option ℕ} {pc : ClearPc} {y : ClearConfig}
    (h : ClearRun procAlive atDecrement doClear (m, my, pc) y) {s : AccessState T} {t : T}
    (hlive : s.alive (pidOf t) = true) (htable : s.table = m) (hmy : s.mySlot (pidOf t) = my)
    (hpc : s.pc t = .clear doClear pc) {ok : AccessState T → AccessLabel T → Prop}
    (hok : ∀ z answer, z.2.2.Allowed procAlive atDecrement z.1 answer →
      ok (s.withClear pidOf t doClear z) (.access t answer)) :
    GuardedRun (AccessState.step pidOf) ok s (s.withClear pidOf t doClear y) := by
  have hrun := ClearRun.lift h hlive hok
  rw [← htable, ← hmy, AccessState.withClear_self pidOf hpc] at hrun
  exact hrun

/-- Asking less of the decrements. -/
theorem ClearRun.mono {procAlive : Pid → ProcState} {P Q : SlotTable → ClearLocals → Prop}
    {doClear : ℤ} {x y : ClearConfig} (hPQ : ∀ m l, P m l → Q m l)
    (h : ClearRun procAlive P doClear x y) : ClearRun procAlive Q doClear x y := by
  refine GuardedRun.mono (fun z answer hz => ?_) h
  obtain ⟨m, my, pc⟩ := z
  cases pc with
  | decrement l => exact hPQ m l hz
  | probe l pid => exact hz
  | _ => trivial

/-- The oracle leaves an access no choice. -/
theorem ClearConfig.step_congr {procAlive : Pid → ProcState}
    {atDecrement : SlotTable → ClearLocals → Prop} {doClear : ℤ} {x : ClearConfig}
    {answer answer' : ProcState} (h : x.2.2.Allowed procAlive atDecrement x.1 answer)
    (h' : x.2.2.Allowed procAlive atDecrement x.1 answer') :
    ClearConfig.step doClear x answer = ClearConfig.step doClear x answer' := by
  obtain ⟨m, my, pc⟩ := x
  cases pc with
  | probe l pid =>
    have hsame : answer = answer' := (show answer = procAlive pid from h).trans h'.symm
    rw [hsame]
  | _ => rfl

/-- **What a call of `clear_proc_slot_nolock` does.**  With `do_clear > 0` and an oracle that does
not change its mind, the accesses of a call come to a return, and no other run of them is possible.
The registered slots have then lost all slots of pid `0` and, of the dead ones, ten or all if there
are fewer; the call returns `1` when it dropped something and `0` otherwise; and a caller whose
slot is not itself dropped still has its pointer at that slot. -/
theorem clearProcSlotNolock_spec (procAlive : Pid → ProcState) {doClear : ℤ} (hdo : 0 < doClear)
    (info : RegionInfo) :
    ∃ (info' : RegionInfo) (res : ℕ) (R : Multiset ShrregProcSlot),
      ClearRun procAlive (fun _ _ => True) doClear
          (info.sharedRegion.table, info.mySlot, .test ⟨0, 0, 0, 0⟩)
          (info'.sharedRegion.table, info'.mySlot, .returned res) ∧
        (∀ x, ClearRun procAlive (fun _ _ => True) doClear
            (info.sharedRegion.table, info.mySlot, .test ⟨0, 0, 0, 0⟩) x →
          ClearRun procAlive (fun _ _ => True) doClear x
            (info'.sharedRegion.table, info'.mySlot, .returned res)) ∧
        (∀ i < info'.sharedRegion.procNum, (info'.sharedRegion.procs i).pid ≠ 0) ∧
        R ≤ (info.sharedRegion.slotsFrom 0).filter (ShrregProcSlot.Dead procAlive) ∧
        Multiset.card R = min 10 (Multiset.card
          ((info.sharedRegion.slotsFrom 0).filter (ShrregProcSlot.Dead procAlive))) ∧
        info.sharedRegion.slotsFrom 0 = info'.sharedRegion.slotsFrom 0 +
          ((info.sharedRegion.slotsFrom 0).filter ShrregProcSlot.Exited + R) ∧
        (res = 1 ↔ (info.sharedRegion.slotsFrom 0).filter ShrregProcSlot.Exited + R ≠ 0) ∧
        (res = 0 ∨ res = 1) ∧
        ∀ s, info.PointsAt s → s.pid ≠ 0 → procAlive s.pid ≠ .nonalive → info'.PointsAt s := by
  obtain ⟨R, hR, hcard, hslots⟩ := (clearProcSlotNolock_clearedFrom procAlive doClear info).slots
  have hbudget : clearBudget doClear 0 = 10 := if_pos hdo
  rw [hbudget] at hcard
  have hrun := ClearRun.mono (fun _ _ _ => trivial)
    (run_clearProcSlotNolock procAlive doClear info)
  -- the dropped slots, counted, are what `proc_num` went down by
  have hcount := congrArg Multiset.card hslots
  rw [Multiset.card_add] at hcount
  simp only [SharedRegion.slotsFrom, card_window, Nat.sub_zero] at hcount
  refine ⟨(clearProcSlotNolock procAlive doClear info).1,
    (clearProcSlotNolock procAlive doClear info).2, R, hrun, fun x hx => ?_,
    fun i hi => clearProcSlotNolock_pid_ne_zero procAlive doClear info hi, hR, hcard, hslots,
    ?_, ?_, fun s hs h0 hnd => ?_⟩
  · exact GuardedRun.complete (fun _ _ _ h h' => ClearConfig.step_congr h h') (fun _ => rfl) hrun hx
  · rw [← Multiset.card_pos]
    simp only [SharedRegion.slotsFrom]
    rcases clearProcSlotNolock_res procAlive doClear info with hsame | ⟨hres, hlt⟩
    · rw [hsame] at hcount ⊢
      dsimp only at hcount ⊢
      constructor
      · intro h
        exact absurd h Nat.zero_ne_one
      · intro h
        omega
    · rw [hres]
      constructor
      · intro _
        omega
      · intro _
        rfl
  · rcases clearProcSlotNolock_res procAlive doClear info with hsame | ⟨hres, -⟩
    · exact Or.inl (congrArg Prod.snd hsame)
    · exact Or.inr hres
  · refine clearProcSlotNolock_pointsAt (fun hdrop => ?_) hs
    rcases hdrop with hzero | hdead
    · exact h0 hzero
    · exact hnd hdead

/-- A region with a dead slot, an exited one and the caller's own. -/
def deadAndExited : RegionInfo where
  pid := 3
  sharedRegion :=
    { limit := fun _ => 0
      procs := fun i =>
        { ShrregProcSlot.blank with pid := if i = 0 then 7 else if i = 1 then 0 else 3 }
      procNum := 3 }
  mySlot := some 2

/-- Pid `7` is dead and everybody else alive. -/
def onlySevenDead (pid : Pid) : ProcState := if pid = 7 then .nonalive else .alive

theorem clearProcSlotNolock_spec_deadAndExited :
    (0 : ℤ) < 1 ∧ ∃ (info' : RegionInfo) (res : ℕ),
      ClearRun onlySevenDead (fun _ _ => True) 1
        (deadAndExited.sharedRegion.table, deadAndExited.mySlot, .test ⟨0, 0, 0, 0⟩)
        (info'.sharedRegion.table, info'.mySlot, .returned res) ∧
      ∃ s, s.pid = 3 ∧ info'.PointsAt s := by
  obtain ⟨info', res, R, hrun, -, -, -, -, -, -, -, hpoints⟩ :=
    clearProcSlotNolock_spec onlySevenDead (by decide : (0 : ℤ) < 1) deadAndExited
  refine ⟨by decide, info', res, hrun, { ShrregProcSlot.blank with pid := 3 }, rfl, ?_⟩
  exact hpoints _ ⟨2, rfl, by decide, rfl⟩ (by decide) (by decide)

/-! ## Charging and releasing -/

/-- An uninterrupted run of a charge or a release by the process `self`. -/
abbrev UpdateRun (self : Pid) (mySlot : Option ℕ) :
    SlotTable × UpdatePc → SlotTable × UpdatePc → Prop :=
  GuardedRun (fun x (_ : Unit) => updateAccess self x.1 mySlot x.2) fun _ _ => True

section Update

variable {self : Pid} {mySlot : Option ℕ}

/-- The table after the counters of `u` have been changed on slot `i`. -/
def SlotTable.fetchCounters (m : SlotTable) (i : ℕ) (u : UsageUpdate) : SlotTable :=
  match u.counter with
  | some f => (m.fetchUsed i u .total).fetchUsed i u f
  | none => m.fetchUsed i u .total

/-- The two increments and the counters between them are `ShrregProcSlot.update`. -/
theorem fetchSeqlock_fetchCounters (m : SlotTable) (i : ℕ) (u : UsageUpdate) :
    ((m.fetchSeqlock i).fetchCounters i u).fetchSeqlock i =
      m.setSlot i ((m.procs i).update u.op u.dev u.usage u.type) := by
  obtain ⟨op, pid, dev, usage, type⟩ := u
  unfold ShrregProcSlot.update DeviceMemory.update
  dsimp only
  split <;> simp [SlotTable.fetchCounters, UsageUpdate.counter, SlotTable.fetchSeqlock,
    SlotTable.fetchUsed, SlotTable.setField, SlotTable.setSlot, SlotField.set, MemField.get,
    MemField.set, *]

/-- **One seqlock section.** -/
theorem run_section (m : SlotTable) (u : UsageUpdate) (i : ℕ) :
    UpdateRun self mySlot (m, .enter u i)
      (m.setSlot i ((m.procs i).update u.op u.dev u.usage u.type), .returned 0) := by
  rw [← fetchSeqlock_fetchCounters]
  refine GuardedRun.tail (a := ()) (t := ((m.fetchSeqlock i).fetchCounters i u, .leave u i))
    ?_ trivial rfl
  refine GuardedRun.head (a := ()) (t := (m.fetchSeqlock i, .total u i)) trivial rfl ?_
  refine GuardedRun.head (a := ()) trivial rfl
    (GuardedRun.tail (a := ()) (GuardedRun.refl _) trivial ?_)
  unfold SlotTable.fetchCounters updateAccess
  dsimp only
  cases u.counter with
  | some f => rfl
  | none => rfl

/-- The scan passes over slots of other pids. -/
theorem run_scan {r : SharedRegion} {u : UsageUpdate} {i : ℕ} (hi : i ≤ r.procNum)
    (hne : ∀ j < i, (r.procs j).pid ≠ u.pid) :
    UpdateRun self mySlot (r.table, .loadNum u) (r.table, .scan u r.procNum i) := by
  induction i with
  | zero => exact GuardedRun.head (a := ()) trivial rfl (GuardedRun.refl _)
  | succ i ih =>
    refine (ih (by omega) fun j hj => hne j (by omega)).tail (a := ()) trivial ?_
    have hlt : (i : ℤ) < r.procNum := by omega
    show (if (i : ℤ) < r.procNum then _ else _) = _
    rw [if_pos hlt]
    exact if_neg (hne i (Nat.lt_succ_self i))

/-- **The slow path** ends at the slot `findSlot` names, or nowhere. -/
theorem run_slow (r : SharedRegion) (u : UsageUpdate) :
    UpdateRun self mySlot (r.table, .loadNum u)
      (match r.findSlot u.pid with
        | some i => (r.table, .enter u i)
        | none => (r.table, .returned (-1))) := by
  cases hf : r.findSlot u.pid with
  | some i =>
    obtain ⟨hi, hp⟩ := SharedRegion.scan_eq_some hf
    refine (run_scan hi.le fun j hj hjp => ?_).tail (a := ()) trivial ?_
    · exact absurd (SharedRegion.scan_le hf hjp) (by omega)
    · have hlt : (i : ℤ) < r.procNum := by exact_mod_cast hi
      show (if (i : ℤ) < r.procNum then _ else _) = _
      rw [if_pos hlt]
      exact if_pos hp
  | none =>
    refine (run_scan le_rfl fun j hj => SharedRegion.scan_eq_none hf hj).tail (a := ()) trivial ?_
    exact if_neg (lt_irrefl _)

/-- **An uninterrupted charge or release** is `updateGpuDeviceMemoryUsage`, its return value
included. -/
theorem run_updateGpuDeviceMemoryUsage (op : UInt64 → UInt64 → UInt64) (cudaToNvmlMap : Dev → Dev)
    (info : RegionInfo) (pid : Pid) (cudadev : Dev) (usage : UInt64) (type : ℤ) :
    UpdateRun info.pid info.mySlot
      (info.sharedRegion.table, .start ⟨op, pid, cudaToNvmlMap cudadev, usage, type⟩)
      ((updateGpuDeviceMemoryUsage op cudaToNvmlMap info pid cudadev usage
          type).1.sharedRegion.table,
        .returned (updateGpuDeviceMemoryUsage op cudaToNvmlMap info pid cudadev usage type).2) := by
  have hsection : ∀ i, UpdateRun info.pid info.mySlot
      (info.sharedRegion.table, .enter ⟨op, pid, cudaToNvmlMap cudadev, usage, type⟩ i)
      ((info.modifySlot i (·.update op (cudaToNvmlMap cudadev) usage type)).sharedRegion.table,
        .returned 0) :=
    fun i => run_section info.sharedRegion.table ⟨op, pid, cudaToNvmlMap cudadev, usage, type⟩ i
  have hslow : UpdateRun info.pid info.mySlot
      (info.sharedRegion.table, .loadNum ⟨op, pid, cudaToNvmlMap cudadev, usage, type⟩)
      (match info.sharedRegion.findSlot pid with
        | some i =>
          (info.sharedRegion.table, .enter ⟨op, pid, cudaToNvmlMap cudadev, usage, type⟩ i)
        | none => (info.sharedRegion.table, .returned (-1))) :=
    run_slow info.sharedRegion ⟨op, pid, cudaToNvmlMap cudadev, usage, type⟩
  unfold updateGpuDeviceMemoryUsage
  dsimp only
  cases hfast : (if pid = info.pid then info.mySlot else none) with
  | some i =>
    refine GuardedRun.head (a := ()) trivial ?_ (hsection i)
    simp only [updateAccess, hfast]
  | none =>
    refine GuardedRun.head (a := ()) (t := (info.sharedRegion.table,
      .loadNum ⟨op, pid, cudaToNvmlMap cudadev, usage, type⟩)) trivial ?_ ?_
    · simp only [updateAccess, hfast]
    · cases hf : info.sharedRegion.findSlot pid with
      | some i =>
        rw [hf] at hslow
        exact hslow.trans (hsection i)
      | none =>
        rw [hf] at hslow
        exact hslow

end Update

/-! ## Reading -/

/-- An uninterrupted run of `get_gpu_memory_usage(dev)`: nobody changes the table. -/
abbrev UsageRun (dev : Dev) (m : SlotTable) : UsagePc → UsagePc → Prop :=
  GuardedRun (fun pc (_ : Unit) => usageAccess dev m pc) fun _ _ => True

/-- The loop over the first `i` slots. -/
theorem run_usageLoop {r : SharedRegion} {dev : Dev} {i : ℕ} (hi : i ≤ r.procNum) {total : UInt64}
    (h : usageLoop r.procs dev i = some total) :
    UsageRun dev r.table .loadNum (.next r.procNum i total) := by
  induction i generalizing total with
  | zero =>
    obtain rfl : 0 = total := Option.some.inj h
    exact GuardedRun.head (a := ()) trivial rfl (GuardedRun.refl _)
  | succ i ih =>
    obtain ⟨before, hbefore, hi'⟩ := Option.bind_eq_some_iff.mp h
    obtain ⟨heven, htotal⟩ := Option.ite_none_left_eq_some.mp hi'
    obtain rfl := Option.some.inj htotal
    have hnext : UsagePc.next r.procNum i before = .loadSeq1 r.procNum i before := by
      refine if_pos ?_
      exact_mod_cast hi
    have hrun := ih (by omega) hbefore
    rw [hnext] at hrun
    refine ((hrun.tail (a := ()) trivial (if_neg heven)).tail (a := ()) trivial rfl).tail (a := ())
      trivial (if_pos rfl)

/-- **An uninterrupted reader** returns what `getGpuMemoryUsage` says. -/
theorem run_getGpuMemoryUsage {r : SharedRegion} {dev : Dev} {v : UInt64}
    (h : getGpuMemoryUsage r dev = some v) :
    UsageRun dev r.table .loadNum (.returned v) := by
  obtain ⟨total, htotal, rfl⟩ := Option.map_eq_some_iff.mp h
  have hrun := run_usageLoop le_rfl htotal
  have hnext : UsagePc.next r.procNum r.procNum total = .returned (total + initialOffset) :=
    if_neg (lt_irrefl _)
  rwa [hnext] at hrun

end HamiCore
