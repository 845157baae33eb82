import HamiCore.Library.SwapRemove
import HamiCore.Region.Slot

/-!
# Compaction of the slot table

`clear_proc_slot_nolock` walks the registered slots, drops those whose process has left (`pid == 0`)
or is found dead by `proc_alive`, and fills each hole with the last registered slot.  The moved
element is examined again before the walk goes on, and at most ten dead processes are dropped in one
call.  When the slot that moves is the caller's own, its `my_slot` pointer moves along and the
vacated entry is zeroed; for every other process the vacated entry keeps a stale copy and the
pointer that process holds is not touched.

`removeSlot` is one such move and `clearStep` one turn of the loop.  What a whole call does is read
off three results:

* `clearProcSlotNolock_induction`: whatever dropping one droppable slot preserves, a call preserves;
* `clearProcSlotNolock_window`: as multisets, the registered slots lose all slots of pid `0` and
  exactly `min 10 k` of the `k` dead ones --- so `proc_num` afterwards is known beforehand;
* `clearProcSlotNolock_procs_of_lt`: a slot that is kept and still lies below the new `proc_num` has
  not moved.
-/

namespace HamiCore

/-- `copy_proc_slot_atomic(dst, src)`, run without interruption: every member of the slot is
copied. -/
def copyProcSlotAtomic (r : SharedRegion) (dst src : ℕ) : SharedRegion :=
  r.setSlot dst (r.procs src)

/-- The stores into the vacated tail entry. -/
def ShrregProcSlot.vacate (s : ShrregProcSlot) : ShrregProcSlot :=
  { s with seqlock := 0, pid := 0, hostpid := 0, status := 0 }.zeroAtomics

/-- Fill the hole at `slot` with the last registered slot: `proc_num--`, the copy, and, when the
copied slot was the caller's own, the move of `my_slot` and the zeroing of the vacated entry. -/
def removeSlot (info : RegionInfo) (slot : ℕ) : RegionInfo :=
  let tail := info.sharedRegion.procNum - 1
  let region := copyProcSlotAtomic { info.sharedRegion with procNum := tail } slot tail
  if info.mySlot = some tail then
    { info with
      sharedRegion := region.setSlot tail (region.procs tail).vacate
      mySlot := some slot }
  else
    { info with sharedRegion := region }

/-- The locals of `clear_proc_slot_nolock`. -/
structure ClearLocals where
  slot : ℕ
  res : ℕ
  cleanedPidZero : ℕ
  cleanedDead : ℕ

section

variable (procAlive : Pid → ProcState) (doClear : ℤ)

/-- One turn of the `while (slot < region->proc_num)` loop. -/
def clearStep (info : RegionInfo) (l : ClearLocals) : RegionInfo × ClearLocals :=
  let pid := (info.sharedRegion.procs l.slot).pid
  if pid = 0 then
    (removeSlot info l.slot, { l with cleanedPidZero := l.cleanedPidZero + 1, res := 1 })
  else if 0 < doClear ∧ l.cleanedDead < 10 ∧ procAlive pid = .nonalive then
    (removeSlot info l.slot, { l with cleanedDead := l.cleanedDead + 1, res := 1 })
  else
    (info, { l with slot := l.slot + 1 })

/-- The loop.  Each turn shrinks `proc_num - slot` by one, so `proc_num` turns are enough
(`clearLoop_exit`). -/
def clearLoop : ℕ → RegionInfo → ClearLocals → RegionInfo × ClearLocals
  | 0, info, l => (info, l)
  | fuel + 1, info, l =>
    if l.slot < info.sharedRegion.procNum then
      clearLoop fuel (clearStep procAlive doClear info l).1 (clearStep procAlive doClear info l).2
    else (info, l)

/-- `clear_proc_slot_nolock(do_clear)` with its return value. -/
def clearProcSlotNolock (info : RegionInfo) : RegionInfo × ℕ :=
  let out := clearLoop procAlive doClear info.sharedRegion.procNum info ⟨0, 0, 0, 0⟩
  (out.1, out.2.res)

end

/-! ## One move -/

/-- A slot the walk may drop: its process has left, or is reported dead. -/
def ShrregProcSlot.Droppable (procAlive : Pid → ProcState) (s : ShrregProcSlot) : Prop :=
  s.pid = 0 ∨ procAlive s.pid = .nonalive

instance (procAlive : Pid → ProcState) (s : ShrregProcSlot) :
    Decidable (s.Droppable procAlive) :=
  inferInstanceAs (Decidable (_ ∨ _))

section RemoveSlot

variable (info : RegionInfo) (slot : ℕ)

@[simp] theorem removeSlot_pid : (removeSlot info slot).pid = info.pid := by
  unfold removeSlot
  dsimp only
  split_ifs <;> rfl

@[simp] theorem removeSlot_procNum :
    (removeSlot info slot).sharedRegion.procNum = info.sharedRegion.procNum - 1 := by
  unfold removeSlot
  dsimp only
  split_ifs <;> rfl

@[simp] theorem removeSlot_limit :
    (removeSlot info slot).sharedRegion.limit = info.sharedRegion.limit := by
  unfold removeSlot
  dsimp only
  split_ifs <;> rfl

/-- The pointer moves along exactly when the caller's own slot was the last one. -/
theorem removeSlot_mySlot :
    (removeSlot info slot).mySlot =
      if info.mySlot = some (info.sharedRegion.procNum - 1) then some slot else info.mySlot := by
  unfold removeSlot
  dsimp only
  split_ifs <;> rfl

/-- Below the new `proc_num` a move changes the hole and nothing else. -/
theorem removeSlot_procs {i : ℕ} (hi : i < info.sharedRegion.procNum - 1) :
    (removeSlot info slot).sharedRegion.procs i =
      Function.update info.sharedRegion.procs slot
        (info.sharedRegion.procs (info.sharedRegion.procNum - 1)) i := by
  unfold removeSlot
  dsimp only
  split_ifs
  · rw [SharedRegion.setSlot_procs_of_ne _ hi.ne]
    rfl
  · rfl

theorem removeSlot_procs_of_ne {i : ℕ} (hi : i < info.sharedRegion.procNum - 1) (hne : i ≠ slot) :
    (removeSlot info slot).sharedRegion.procs i = info.sharedRegion.procs i := by
  rw [removeSlot_procs info slot hi, Function.update_of_ne hne]

theorem removeSlot_procs_self (hi : slot < info.sharedRegion.procNum - 1) :
    (removeSlot info slot).sharedRegion.procs slot =
      info.sharedRegion.procs (info.sharedRegion.procNum - 1) := by
  rw [removeSlot_procs info slot hi, Function.update_self]

/-- **A move drops exactly the slot at the hole.** -/
theorem window_removeSlot {a : ℕ} (ha : a ≤ slot) (hs : slot < info.sharedRegion.procNum) :
    window info.sharedRegion.procs a info.sharedRegion.procNum =
      info.sharedRegion.procs slot ::ₘ
        window (removeSlot info slot).sharedRegion.procs a
          (removeSlot info slot).sharedRegion.procNum := by
  have hn : info.sharedRegion.procNum = info.sharedRegion.procNum - 1 + 1 := by omega
  rw [removeSlot_procNum, window_congr fun i _ hi => removeSlot_procs info slot hi]
  conv_lhs => rw [hn]
  exact window_succ_eq_cons ha (by omega)

end RemoveSlot

/-! ## One turn of the loop -/

section Loop

variable {procAlive : Pid → ProcState} {doClear : ℤ}

/-- The three things a turn can do: drop a slot of pid `0`, drop a dead one, or go on. -/
theorem clearStep_cases (procAlive : Pid → ProcState) (doClear : ℤ) (info : RegionInfo)
    (l : ClearLocals) :
    ((info.sharedRegion.procs l.slot).pid = 0 ∧
        clearStep procAlive doClear info l =
          (removeSlot info l.slot, { l with cleanedPidZero := l.cleanedPidZero + 1, res := 1 })) ∨
      ((info.sharedRegion.procs l.slot).pid ≠ 0 ∧
        procAlive (info.sharedRegion.procs l.slot).pid = .nonalive ∧
        0 < doClear ∧ l.cleanedDead < 10 ∧
        clearStep procAlive doClear info l =
          (removeSlot info l.slot, { l with cleanedDead := l.cleanedDead + 1, res := 1 })) ∨
      ((info.sharedRegion.procs l.slot).pid ≠ 0 ∧
        ¬ (0 < doClear ∧ l.cleanedDead < 10 ∧
          procAlive (info.sharedRegion.procs l.slot).pid = .nonalive) ∧
        clearStep procAlive doClear info l = (info, { l with slot := l.slot + 1 })) := by
  unfold clearStep
  by_cases h0 : (info.sharedRegion.procs l.slot).pid = 0
  · exact Or.inl ⟨h0, by simp [h0]⟩
  · by_cases hd : 0 < doClear ∧ l.cleanedDead < 10 ∧
        procAlive (info.sharedRegion.procs l.slot).pid = .nonalive
    · exact Or.inr (Or.inl ⟨h0, hd.2.2, hd.1, hd.2.1, by simp [h0, hd]⟩)
    · exact Or.inr (Or.inr ⟨h0, hd, by simp [h0, hd]⟩)

theorem clearLoop_zero (info : RegionInfo) (l : ClearLocals) :
    clearLoop procAlive doClear 0 info l = (info, l) := rfl

theorem clearLoop_of_lt {info : RegionInfo} {l : ClearLocals} (fuel : ℕ)
    (h : l.slot < info.sharedRegion.procNum) :
    clearLoop procAlive doClear (fuel + 1) info l =
      clearLoop procAlive doClear fuel (clearStep procAlive doClear info l).1
        (clearStep procAlive doClear info l).2 := by
  rw [clearLoop, if_pos h]

theorem clearLoop_of_not_lt {info : RegionInfo} {l : ClearLocals} (fuel : ℕ)
    (h : ¬ l.slot < info.sharedRegion.procNum) :
    clearLoop procAlive doClear fuel info l = (info, l) := by
  cases fuel with
  | zero => rfl
  | succ fuel => rw [clearLoop, if_neg h]

/-- A turn uses up one unit of `proc_num - slot`. -/
theorem clearStep_measure (procAlive : Pid → ProcState) (doClear : ℤ) {info : RegionInfo}
    {l : ClearLocals} (h : l.slot < info.sharedRegion.procNum) :
    (clearStep procAlive doClear info l).1.sharedRegion.procNum -
        (clearStep procAlive doClear info l).2.slot + 1 =
      info.sharedRegion.procNum - l.slot := by
  rcases clearStep_cases procAlive doClear info l with ⟨-, he⟩ | ⟨-, -, -, -, he⟩ | ⟨-, -, he⟩
  · rw [he]
    simp only [removeSlot_procNum]
    omega
  · rw [he]
    simp only [removeSlot_procNum]
    omega
  · rw [he]
    dsimp only
    omega

/-- **The walk ends.**  With fuel `proc_num - slot` the loop leaves through its own test. -/
theorem clearLoop_exit (fuel : ℕ) (info : RegionInfo) (l : ClearLocals)
    (hf : info.sharedRegion.procNum - l.slot ≤ fuel) :
    (clearLoop procAlive doClear fuel info l).1.sharedRegion.procNum ≤
      (clearLoop procAlive doClear fuel info l).2.slot := by
  induction fuel generalizing info l with
  | zero =>
    rw [clearLoop_zero]
    dsimp only
    omega
  | succ fuel ih =>
    by_cases h : l.slot < info.sharedRegion.procNum
    · rw [clearLoop_of_lt fuel h]
      refine ih _ _ ?_
      have := clearStep_measure procAlive doClear h
      omega
    · rw [clearLoop_of_not_lt _ h]
      dsimp only
      omega

/-- **The induction rule for compaction.**  A property of the process's view that survives every
single move into a hole left by a droppable slot survives the loop. -/
theorem clearLoop_induction {P : RegionInfo → Prop}
    (hP : ∀ info slot, P info → slot < info.sharedRegion.procNum →
      (info.sharedRegion.procs slot).Droppable procAlive → P (removeSlot info slot))
    (fuel : ℕ) (info : RegionInfo) (l : ClearLocals) (h : P info) :
    P (clearLoop procAlive doClear fuel info l).1 := by
  induction fuel generalizing info l with
  | zero => exact h
  | succ fuel ih =>
    by_cases hlt : l.slot < info.sharedRegion.procNum
    · rw [clearLoop_of_lt fuel hlt]
      refine ih _ _ ?_
      rcases clearStep_cases procAlive doClear info l with
        ⟨h0, he⟩ | ⟨-, hd, -, -, he⟩ | ⟨-, -, he⟩
      · rw [he]
        exact hP info l.slot h hlt (Or.inl h0)
      · rw [he]
        exact hP info l.slot h hlt (Or.inr hd)
      · rw [he]
        exact h
    · rw [clearLoop_of_not_lt _ hlt]
      exact h

theorem clearProcSlotNolock_induction {P : RegionInfo → Prop}
    (hP : ∀ info slot, P info → slot < info.sharedRegion.procNum →
      (info.sharedRegion.procs slot).Droppable procAlive → P (removeSlot info slot))
    {info : RegionInfo} (h : P info) : P (clearProcSlotNolock procAlive doClear info).1 :=
  clearLoop_induction hP _ _ _ h

end Loop

/-! ## What a whole call drops -/

/-- The slot has been given up by `exit_handler`. -/
def ShrregProcSlot.Exited (s : ShrregProcSlot) : Prop := s.pid = 0

instance (s : ShrregProcSlot) : Decidable s.Exited := inferInstanceAs (Decidable (_ = _))

/-- The slot is still carried by a pid, but `proc_alive` reports that pid dead. -/
def ShrregProcSlot.Dead (procAlive : Pid → ProcState) (s : ShrregProcSlot) : Prop :=
  s.pid ≠ 0 ∧ procAlive s.pid = .nonalive

instance (procAlive : Pid → ProcState) (s : ShrregProcSlot) : Decidable (s.Dead procAlive) :=
  inferInstanceAs (Decidable (_ ∧ _))

/-- The registered slots from position `a` on. -/
def SharedRegion.slotsFrom (r : SharedRegion) (a : ℕ) : Multiset ShrregProcSlot :=
  window r.procs a r.procNum

/-- What the walk does from position `a` on, with `budget` dead slots still to drop: the slots
before `a` stay, and the slots from `a` on lose all those of pid `0` and, of the dead ones, as many
as the budget allows. -/
structure ClearedFrom (procAlive : Pid → ProcState) (budget a : ℕ) (r r' : SharedRegion) :
    Prop where
  before : ∀ i < a, r'.procs i = r.procs i
  le_procNum : a ≤ r'.procNum
  slots : ∃ R ≤ (r.slotsFrom a).filter (ShrregProcSlot.Dead procAlive),
    Multiset.card R =
        min budget (Multiset.card ((r.slotsFrom a).filter (ShrregProcSlot.Dead procAlive))) ∧
      r.slotsFrom a = r'.slotsFrom a + ((r.slotsFrom a).filter ShrregProcSlot.Exited + R)

section Call

variable {procAlive : Pid → ProcState} {doClear : ℤ}

/-- Nothing is left to walk over. -/
theorem ClearedFrom.done {budget a : ℕ} {r : SharedRegion} (ha : a = r.procNum) :
    ClearedFrom procAlive budget a r r where
  before _ _ := rfl
  le_procNum := ha.le
  slots := by
    have h0 : r.slotsFrom a = 0 := by rw [SharedRegion.slotsFrom, ha, window_self]
    exact ⟨0, Multiset.zero_le _, by simp [h0], by simp [h0]⟩

theorem slotsFrom_removeSlot {info : RegionInfo} {slot : ℕ}
    (hs : slot < info.sharedRegion.procNum) :
    info.sharedRegion.slotsFrom slot =
      info.sharedRegion.procs slot ::ₘ (removeSlot info slot).sharedRegion.slotsFrom slot :=
  window_removeSlot info slot le_rfl hs

theorem removeSlot_before {info : RegionInfo} {slot : ℕ} (hs : slot < info.sharedRegion.procNum)
    {i : ℕ} (hi : i < slot) :
    (removeSlot info slot).sharedRegion.procs i = info.sharedRegion.procs i :=
  removeSlot_procs_of_ne info slot (by omega) hi.ne

/-- A slot of pid `0` goes; the moved slot is examined at the same position. -/
theorem ClearedFrom.dropExited {budget slot : ℕ} {info : RegionInfo} {r' : SharedRegion}
    (hs : slot < info.sharedRegion.procNum) (h0 : (info.sharedRegion.procs slot).Exited)
    (h : ClearedFrom procAlive budget slot (removeSlot info slot).sharedRegion r') :
    ClearedFrom procAlive budget slot info.sharedRegion r' where
  before i hi := (h.before i hi).trans (removeSlot_before hs hi)
  le_procNum := h.le_procNum
  slots := by
    obtain ⟨R, hR, hcard, hwin⟩ := h.slots
    have hnd : ¬ (info.sharedRegion.procs slot).Dead procAlive := fun hd => hd.1 h0
    rw [slotsFrom_removeSlot hs, Multiset.filter_cons_of_neg _ hnd,
      Multiset.filter_cons_of_pos _ h0]
    refine ⟨R, hR, hcard, ?_⟩
    conv_lhs => rw [hwin]
    rw [Multiset.cons_add, Multiset.add_cons]

/-- A dead slot goes, at the cost of one unit of the budget. -/
theorem ClearedFrom.dropDead {budget slot : ℕ} {info : RegionInfo} {r' : SharedRegion}
    (hs : slot < info.sharedRegion.procNum) (hd : (info.sharedRegion.procs slot).Dead procAlive)
    (h : ClearedFrom procAlive budget slot (removeSlot info slot).sharedRegion r') :
    ClearedFrom procAlive (budget + 1) slot info.sharedRegion r' where
  before i hi := (h.before i hi).trans (removeSlot_before hs hi)
  le_procNum := h.le_procNum
  slots := by
    obtain ⟨R, hR, hcard, hwin⟩ := h.slots
    have h0 : ¬ (info.sharedRegion.procs slot).Exited := hd.1
    rw [slotsFrom_removeSlot hs, Multiset.filter_cons_of_pos _ hd,
      Multiset.filter_cons_of_neg _ h0]
    refine ⟨info.sharedRegion.procs slot ::ₘ R, Multiset.cons_le_cons _ hR, ?_, ?_⟩
    · rw [Multiset.card_cons, hcard, Multiset.card_cons]
      omega
    · conv_lhs => rw [hwin]
      rw [Multiset.add_cons, Multiset.add_cons]

/-- The slot stays: it is not of pid `0`, and either not dead or beyond the budget. -/
theorem ClearedFrom.keep {budget slot : ℕ} {r r' : SharedRegion} (hs : slot < r.procNum)
    (h0 : ¬ (r.procs slot).Exited) (hd : (r.procs slot).Dead procAlive → budget = 0)
    (h : ClearedFrom procAlive budget (slot + 1) r r') :
    ClearedFrom procAlive budget slot r r' where
  before i hi := h.before i (by omega)
  le_procNum := (Nat.le_succ slot).trans h.le_procNum
  slots := by
    obtain ⟨R, hR, hcard, hwin⟩ := h.slots
    have hr : r.slotsFrom slot = r.procs slot ::ₘ r.slotsFrom (slot + 1) := window_eq_cons hs
    have hr' : r'.slotsFrom slot = r.procs slot ::ₘ r'.slotsFrom (slot + 1) := by
      rw [← h.before slot (Nat.lt_succ_self slot)]
      exact window_eq_cons h.le_procNum
    rw [hr, hr', Multiset.filter_cons_of_neg _ h0]
    refine ⟨R, hR.trans (Multiset.filter_le_filter _ (Multiset.le_cons_self _ _)), ?_, ?_⟩
    · by_cases hdead : (r.procs slot).Dead procAlive
      · rw [hcard, hd hdead, Nat.zero_min, Nat.zero_min]
      · rw [hcard, Multiset.filter_cons_of_neg _ hdead]
    · rw [Multiset.cons_add, ← hwin]

/-- How many dead slots the rest of the call may still drop. -/
def clearBudget (doClear : ℤ) (cleanedDead : ℕ) : ℕ :=
  if 0 < doClear then 10 - cleanedDead else 0

/-- **What the loop drops**, from any of its turns on. -/
theorem clearLoop_clearedFrom (fuel : ℕ) (info : RegionInfo) (l : ClearLocals)
    (hs : l.slot ≤ info.sharedRegion.procNum)
    (hf : info.sharedRegion.procNum - l.slot ≤ fuel) :
    ClearedFrom procAlive (clearBudget doClear l.cleanedDead) l.slot info.sharedRegion
      (clearLoop procAlive doClear fuel info l).1.sharedRegion := by
  induction fuel generalizing info l with
  | zero => exact ClearedFrom.done (by omega)
  | succ fuel ih =>
    by_cases hlt : l.slot < info.sharedRegion.procNum
    · rw [clearLoop_of_lt fuel hlt]
      have hn := removeSlot_procNum info l.slot
      rcases clearStep_cases procAlive doClear info l with
        ⟨h0, he⟩ | ⟨h0, hd, hdc, hc, he⟩ | ⟨h0, hnd, he⟩
      · rw [he]
        exact ClearedFrom.dropExited hlt h0
          (ih _ { l with cleanedPidZero := l.cleanedPidZero + 1, res := 1 }
            (by dsimp only; omega) (by dsimp only; omega))
      · rw [he]
        have hb : clearBudget doClear l.cleanedDead =
            clearBudget doClear (l.cleanedDead + 1) + 1 := by
          simp only [clearBudget, if_pos hdc]
          omega
        rw [hb]
        exact ClearedFrom.dropDead hlt ⟨h0, hd⟩
          (ih _ { l with cleanedDead := l.cleanedDead + 1, res := 1 }
            (by dsimp only; omega) (by dsimp only; omega))
      · rw [he]
        refine ClearedFrom.keep hlt h0 (fun hdead => ?_)
          (ih _ { l with slot := l.slot + 1 } (by dsimp only; omega) (by dsimp only; omega))
        unfold clearBudget
        split_ifs with hdc
        · by_contra hne
          exact hnd ⟨hdc, by omega, hdead.2⟩
        · rfl
    · rw [clearLoop_of_not_lt _ hlt]
      exact ClearedFrom.done (by omega)

/-- **What a call drops.** -/
theorem clearProcSlotNolock_clearedFrom (procAlive : Pid → ProcState) (doClear : ℤ)
    (info : RegionInfo) :
    ClearedFrom procAlive (clearBudget doClear 0) 0 info.sharedRegion
      (clearProcSlotNolock procAlive doClear info).1.sharedRegion :=
  clearLoop_clearedFrom _ info ⟨0, 0, 0, 0⟩ (Nat.zero_le _) (Nat.sub_le _ _)

/-- How many slots `clear_proc_slot_nolock(1)` drops: all of pid `0` and at most ten dead ones. -/
def droppedCount (procAlive : Pid → ProcState) (r : SharedRegion) : ℕ :=
  Multiset.card ((r.slotsFrom 0).filter ShrregProcSlot.Exited) +
    min 10 (Multiset.card ((r.slotsFrom 0).filter (ShrregProcSlot.Dead procAlive)))

/-- **`proc_num` after a call is known beforehand.** -/
theorem clearProcSlotNolock_procNum (procAlive : Pid → ProcState) (info : RegionInfo) :
    (clearProcSlotNolock procAlive 1 info).1.sharedRegion.procNum +
      droppedCount procAlive info.sharedRegion = info.sharedRegion.procNum := by
  obtain ⟨R, -, hcard, hwin⟩ := (clearProcSlotNolock_clearedFrom procAlive 1 info).slots
  have h := congrArg Multiset.card hwin
  rw [Multiset.card_add, Multiset.card_add, hcard] at h
  simp only [SharedRegion.slotsFrom, card_window, Nat.sub_zero] at h
  simp only [droppedCount, SharedRegion.slotsFrom]
  have hb : clearBudget 1 0 = 10 := rfl
  rw [hb] at h
  omega

/-- **A call leaves no slot of pid `0`.** -/
theorem clearProcSlotNolock_pid_ne_zero (procAlive : Pid → ProcState) (doClear : ℤ)
    (info : RegionInfo) {i : ℕ}
    (hi : i < (clearProcSlotNolock procAlive doClear info).1.sharedRegion.procNum) :
    ((clearProcSlotNolock procAlive doClear info).1.sharedRegion.procs i).pid ≠ 0 := by
  obtain ⟨R, -, -, hwin⟩ := (clearProcSlotNolock_clearedFrom procAlive doClear info).slots
  have hfilter := congrArg (Multiset.filter ShrregProcSlot.Exited) hwin
  have hall : ((info.sharedRegion.slotsFrom 0).filter ShrregProcSlot.Exited).filter
      ShrregProcSlot.Exited = (info.sharedRegion.slotsFrom 0).filter ShrregProcSlot.Exited :=
    Multiset.filter_eq_self.mpr fun _ h => (Multiset.mem_filter.mp h).2
  rw [Multiset.filter_add, Multiset.filter_add, hall] at hfilter
  have hcard := congrArg Multiset.card hfilter
  rw [Multiset.card_add, Multiset.card_add] at hcard
  have hnone : ((clearProcSlotNolock procAlive doClear info).1.sharedRegion.slotsFrom 0).filter
      ShrregProcSlot.Exited = 0 := Multiset.card_eq_zero.mp (by omega)
  exact Multiset.filter_eq_nil.mp hnone _ (mem_window.mpr ⟨i, Nat.zero_le i, hi, rfl⟩)

/-- A call only takes slots away. -/
theorem clearProcSlotNolock_slots_le (procAlive : Pid → ProcState) (doClear : ℤ)
    (info : RegionInfo) :
    (clearProcSlotNolock procAlive doClear info).1.sharedRegion.slotsFrom 0 ≤
      info.sharedRegion.slotsFrom 0 := by
  obtain ⟨R, -, -, hwin⟩ := (clearProcSlotNolock_clearedFrom procAlive doClear info).slots
  rw [hwin]
  exact Multiset.le_add_right _ _

end Call

/-! ## What a call leaves in place -/

section Kept

variable {procAlive : Pid → ProcState} {doClear : ℤ}

theorem clearLoop_procNum_le (procAlive : Pid → ProcState) (doClear : ℤ) (fuel : ℕ)
    (info : RegionInfo) (l : ClearLocals) :
    (clearLoop procAlive doClear fuel info l).1.sharedRegion.procNum ≤
      info.sharedRegion.procNum := by
  refine clearLoop_induction (P := fun i => i.sharedRegion.procNum ≤ info.sharedRegion.procNum)
    (fun i slot hi _ _ => ?_) fuel info l le_rfl
  rw [removeSlot_procNum]
  omega

/-- The loop either changes nothing, or sets `res` and makes `proc_num` smaller. -/
theorem clearLoop_res (fuel : ℕ) (info : RegionInfo) (l : ClearLocals) :
    ((clearLoop procAlive doClear fuel info l).2.res = l.res ∧
        (clearLoop procAlive doClear fuel info l).1 = info) ∨
      ((clearLoop procAlive doClear fuel info l).2.res = 1 ∧
        (clearLoop procAlive doClear fuel info l).1.sharedRegion.procNum <
          info.sharedRegion.procNum) := by
  induction fuel generalizing info l with
  | zero => exact Or.inl ⟨rfl, rfl⟩
  | succ fuel ih =>
    by_cases hlt : l.slot < info.sharedRegion.procNum
    · rw [clearLoop_of_lt fuel hlt]
      -- a turn that drops a slot settles the second alternative, whatever the rest does
      have drop : ∀ l' : ClearLocals, l'.res = 1 →
          (clearLoop procAlive doClear fuel (removeSlot info l.slot) l').2.res = 1 ∧
            (clearLoop procAlive doClear fuel (removeSlot info l.slot) l').1.sharedRegion.procNum <
              info.sharedRegion.procNum := by
        intro l' hl'
        have hn := removeSlot_procNum info l.slot
        rcases ih (removeSlot info l.slot) l' with ⟨hres, hinfo⟩ | ⟨hres, hle⟩
        · exact ⟨hres.trans hl', by rw [hinfo, hn]; omega⟩
        · exact ⟨hres, by omega⟩
      rcases clearStep_cases procAlive doClear info l with
        ⟨-, he⟩ | ⟨-, -, -, -, he⟩ | ⟨-, -, he⟩
      · rw [he]
        exact Or.inr (drop _ rfl)
      · rw [he]
        exact Or.inr (drop _ rfl)
      · rw [he]
        exact ih info { l with slot := l.slot + 1 }
    · rw [clearLoop_of_not_lt _ hlt]
      exact Or.inl ⟨rfl, rfl⟩

/-- **The return value of a call.**  `0` when nothing was dropped, `1` when `proc_num` went down. -/
theorem clearProcSlotNolock_res (procAlive : Pid → ProcState) (doClear : ℤ) (info : RegionInfo) :
    clearProcSlotNolock procAlive doClear info = (info, 0) ∨
      ((clearProcSlotNolock procAlive doClear info).2 = 1 ∧
        (clearProcSlotNolock procAlive doClear info).1.sharedRegion.procNum <
          info.sharedRegion.procNum) := by
  rcases clearLoop_res info.sharedRegion.procNum info ⟨0, 0, 0, 0⟩ with ⟨hres, hinfo⟩ | h
  · exact Or.inl (Prod.ext hinfo hres)
  · exact Or.inr h

@[simp] theorem clearProcSlotNolock_limit (info : RegionInfo) :
    (clearProcSlotNolock procAlive doClear info).1.sharedRegion.limit =
      info.sharedRegion.limit := by
  refine clearProcSlotNolock_induction
    (P := fun i => i.sharedRegion.limit = info.sharedRegion.limit) (fun i slot hi _ _ => ?_) rfl
  rw [removeSlot_limit, hi]

@[simp] theorem clearProcSlotNolock_pid (info : RegionInfo) :
    (clearProcSlotNolock procAlive doClear info).1.pid = info.pid := by
  refine clearProcSlotNolock_induction (P := fun i => i.pid = info.pid)
    (fun i slot hi _ _ => ?_) rfl
  rw [removeSlot_pid, hi]

/-- **A kept slot below the new `proc_num` has not moved.**  Only holes are written, and a hole is
droppable. -/
theorem clearLoop_procs_of_lt (fuel : ℕ) (info : RegionInfo) (l : ClearLocals) {j : ℕ}
    (hj : j < (clearLoop procAlive doClear fuel info l).1.sharedRegion.procNum)
    (hkeep : ¬ (info.sharedRegion.procs j).Droppable procAlive) :
    (clearLoop procAlive doClear fuel info l).1.sharedRegion.procs j =
      info.sharedRegion.procs j := by
  induction fuel generalizing info l with
  | zero => rfl
  | succ fuel ih =>
    by_cases hlt : l.slot < info.sharedRegion.procNum
    · rw [clearLoop_of_lt fuel hlt] at hj ⊢
      have key : (info.sharedRegion.procs l.slot).Droppable procAlive →
          j < (removeSlot info l.slot).sharedRegion.procNum →
          (removeSlot info l.slot).sharedRegion.procs j = info.sharedRegion.procs j := by
        intro hdrop hjn
        rw [removeSlot_procNum] at hjn
        refine removeSlot_procs_of_ne _ _ hjn fun hjs => hkeep ?_
        rw [hjs]
        exact hdrop
      have hle := clearLoop_procNum_le procAlive doClear fuel
        (clearStep procAlive doClear info l).1 (clearStep procAlive doClear info l).2
      rcases clearStep_cases procAlive doClear info l with
        ⟨h0, he⟩ | ⟨-, hd, -, -, he⟩ | ⟨-, -, he⟩
      · rw [he] at hj hle ⊢
        have hproc := key (Or.inl h0) (hj.trans_le hle)
        rw [ih _ _ hj (by rwa [hproc]), hproc]
      · rw [he] at hj hle ⊢
        have hproc := key (Or.inr hd) (hj.trans_le hle)
        rw [ih _ _ hj (by rwa [hproc]), hproc]
      · rw [he] at hj ⊢
        exact ih _ _ hj hkeep
    · rw [clearLoop_of_not_lt _ hlt]

theorem clearProcSlotNolock_procs_of_lt (info : RegionInfo) {j : ℕ}
    (hj : j < (clearProcSlotNolock procAlive doClear info).1.sharedRegion.procNum)
    (hkeep : ¬ (info.sharedRegion.procs j).Droppable procAlive) :
    (clearProcSlotNolock procAlive doClear info).1.sharedRegion.procs j =
      info.sharedRegion.procs j :=
  clearLoop_procs_of_lt _ _ _ hj hkeep

/-- The caller's pointer is at a registered slot with the given contents. -/
def RegionInfo.PointsAt (info : RegionInfo) (s : ShrregProcSlot) : Prop :=
  ∃ i, info.mySlot = some i ∧ i < info.sharedRegion.procNum ∧ info.sharedRegion.procs i = s

/-- **The caller keeps track of its own slot.**  A call never loses the slot the caller's pointer is
at, unless that slot is itself droppable. -/
theorem clearProcSlotNolock_pointsAt {info : RegionInfo} {s : ShrregProcSlot}
    (hkeep : ¬ s.Droppable procAlive) (h : info.PointsAt s) :
    (clearProcSlotNolock procAlive doClear info).1.PointsAt s := by
  refine clearProcSlotNolock_induction (P := fun i => i.PointsAt s)
    (fun i slot hi hlt hdrop => ?_) h
  obtain ⟨k, hk, hkn, hks⟩ := hi
  have hne : k ≠ slot := by
    rintro rfl
    exact hkeep (hks ▸ hdrop)
  by_cases htail : k = i.sharedRegion.procNum - 1
  · refine ⟨slot, ?_, ?_, ?_⟩
    · rw [removeSlot_mySlot, hk, if_pos (by rw [htail])]
    · rw [removeSlot_procNum]
      omega
    · rw [removeSlot_procs_self _ _ (by omega), ← htail, hks]
  · refine ⟨k, ?_, ?_, ?_⟩
    · rw [removeSlot_mySlot, hk, if_neg (by simpa using htail)]
    · rw [removeSlot_procNum]
      omega
    · rw [removeSlot_procs_of_ne _ _ (by omega) hne, hks]

/-- Distinct pids stay distinct. -/
theorem clearProcSlotNolock_pidsDistinct {info : RegionInfo}
    (h : info.sharedRegion.PidsDistinct) :
    (clearProcSlotNolock procAlive doClear info).1.sharedRegion.PidsDistinct := by
  refine clearProcSlotNolock_induction (P := fun i => i.sharedRegion.PidsDistinct)
    (fun i slot hi hlt _ => ?_) h
  intro a b ha hb h0 hab
  rw [removeSlot_procNum] at ha hb
  rw [removeSlot_procs _ _ ha] at h0 hab
  rw [removeSlot_procs _ _ hb] at hab
  by_cases has : a = slot
  · by_cases hbs : b = slot
    · rw [has, hbs]
    · rw [has, Function.update_self] at h0 hab
      rw [Function.update_of_ne hbs] at hab
      have := hi _ b (by omega) (by omega) h0 hab
      omega
  · rw [Function.update_of_ne has] at h0 hab
    by_cases hbs : b = slot
    · rw [hbs, Function.update_self] at hab
      have := hi a _ (by omega) (by omega) h0 hab
      omega
    · rw [Function.update_of_ne hbs] at hab
      exact hi a b (by omega) (by omega) h0 hab

end Kept

end HamiCore
