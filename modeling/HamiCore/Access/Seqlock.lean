import HamiCore.Access.Machine
import Mathlib.Algebra.Group.Nat.Even
import Mathlib.Data.Fintype.Basic

/-!
# Who is inside a seqlock section

A reader of `get_gpu_memory_usage` that finds an odd sequence number waits, because *if odd, writer
is in progress*.  The sequence number of a slot is shared by all threads that write the slot, so
what its parity really tells is the parity of the number of writers.  Every access of a charge or a
release keeps the two in step.  Two things do not: a kill, which takes a writer away and leaves its
increment behind, and a compaction, which copies a sequence number from one slot to another.

`SectionsKept` says when these two are harmless, `SeqlockInv` is the agreement of the parities, and
`odd_seqlock_has_writer` draws the conclusion for whole runs: an odd sequence number of a registered
slot has a live writer, so no reader waits in vain.  A process killed between its two increments
breaks it (`odd_seqlock_without_writer`).
-/

namespace HamiCore

variable {T : Type*}

/-- The slot on which the thread is between its two seqlock increments. -/
def AccessPc.sectionAt : AccessPc → Option ℕ
  | .update pc => pc.sectionAt
  | _ => none

/-- A thread outside the operations is in no section. -/
theorem AccessPc.sectionAt_of_finished {pc : AccessPc} (h : pc.finished = true) :
    pc.sectionAt = none := by
  cases pc with
  | update u =>
    cases u with
    | returned res => rfl
    | _ => exact absurd h (by simp [finished])
  | _ => rfl

namespace AccessState

/-- An odd sequence number of a registered slot has a live process between its two increments on
that very slot. -/
def OddHasWriter (pidOf : T → Pid) (s : AccessState T) : Prop :=
  ∀ i : ℕ, (i : ℤ) < s.table.procNum → (s.table.procs i).seqlock % 2 = 1 →
    ∃ t, s.alive (pidOf t) = true ∧ (s.pc t).sectionAt = some i

/-- Every thread is outside the operations, and no registered slot has an odd sequence number. -/
def SeqlocksAtRest (s : AccessState T) : Prop :=
  (∀ t, (s.pc t).finished = true) ∧
    ∀ i : ℕ, (i : ℤ) < s.table.procNum → (s.table.procs i).seqlock % 2 ≠ 1

section

variable [Fintype T] (pidOf : T → Pid)

/-- The live threads between their two increments on slot `i`. -/
def writers (s : AccessState T) (i : ℕ) : Finset T :=
  {t | s.alive (pidOf t) = true ∧ (s.pc t).sectionAt = some i}

/-- **Kills and copies respect the sections.**  A process is killed only when an even number of its
threads (as a rule none) is inside a section on each registered slot, and a compaction stores into a
registered slot an odd sequence number only where an odd number of live threads is inside a section,
and an even one only where an even number is. -/
def SectionsKept (s : AccessState T) : AccessLabel T → Prop
  | .call _ _ => True
  | .access t _ =>
    match s.pc t with
    | .clear _ (.copyStore l _ .seqlock _ v) =>
      (l.slot : ℤ) < s.table.procNum →
        UInt64.toNat v % 2 = (s.writers pidOf l.slot).card % 2
    | _ => True
  | .kill p => ∀ i : ℕ, (i : ℤ) < s.table.procNum →
      Even ((s.writers pidOf i).filter fun t => pidOf t = p).card

/-- **The invariant**: parities agree on the registered slots, and a zeroing store goes past
them. -/
structure SeqlockInv (s : AccessState T) : Prop where
  parity : ∀ i : ℕ, (i : ℤ) < s.table.procNum →
    (s.table.procs i).seqlock.toNat % 2 = (s.writers pidOf i).card % 2
  zeroing : ∀ t d l i f fs, s.pc t = .clear d (.zeroStore l i f fs) → s.table.procNum ≤ i

end

end AccessState

theorem seqlock_odd_iff (x : UInt64) : x % 2 = 1 ↔ x.toNat % 2 = 1 := by
  rw [← UInt64.toNat_inj, UInt64.toNat_mod]
  rfl

theorem seqlock_add_one_toNat (x : UInt64) : (x + 1).toNat % 2 = (x.toNat + 1) % 2 := by
  rw [UInt64.toNat_add]
  simp only [UInt64.reduceToNat]
  omega

/-! ## What one access does to the parities -/

section Step

variable [Fintype T] [DecidableEq T] {pidOf : T → Pid} {s : AccessState T}

omit [DecidableEq T] in
/-- A live thread is a writer of the slot it is in a section on. -/
theorem AccessState.mem_writers {t : T} (hlive : s.alive (pidOf t) = true) (i : ℕ) :
    t ∈ s.writers pidOf i ↔ (s.pc t).sectionAt = some i := by
  rw [writers, Finset.mem_filter]
  simp [hlive]

/-- The writers of a slot, the moving thread counted apart. -/
theorem AccessState.card_writers {t : T} (hlive : s.alive (pidOf t) = true) (i : ℕ) :
    (s.writers pidOf i).card = ((s.writers pidOf i).erase t).card +
      if (s.pc t).sectionAt = some i then 1 else 0 := by
  by_cases ht : (s.pc t).sectionAt = some i
  · rw [if_pos ht, Finset.card_erase_add_one ((mem_writers hlive i).mpr ht)]
  · rw [if_neg ht, Finset.erase_eq_of_notMem fun hmem => ht ((mem_writers hlive i).mp hmem),
      add_zero]

/-- **One thread moves**: the others stay in or out of their sections. -/
theorem AccessState.card_writers_update {t : T} (hlive : s.alive (pidOf t) = true) (m : SlotTable)
    (my : Pid → Option ℕ) (pc : AccessPc) (i : ℕ) :
    (AccessState.writers pidOf ⟨m, my, s.alive, Function.update s.pc t pc⟩ i).card +
        (if (s.pc t).sectionAt = some i then 1 else 0) =
      (s.writers pidOf i).card + if pc.sectionAt = some i then 1 else 0 := by
  have herase : (AccessState.writers pidOf ⟨m, my, s.alive, Function.update s.pc t pc⟩ i).erase t =
      (s.writers pidOf i).erase t := by
    ext u
    rw [Finset.mem_erase, Finset.mem_erase]
    refine and_congr_right fun hu => ?_
    rw [writers, writers, Finset.mem_filter, Finset.mem_filter]
    dsimp only
    rw [Function.update_of_ne hu]
  have hnew := card_writers (s := ⟨m, my, s.alive, Function.update s.pc t pc⟩) (t := t) hlive i
  have hold := card_writers hlive i
  rw [herase] at hnew
  simp only [Function.update_self] at hnew
  omega

/-- The invariant from the parities of the moving thread's section: each registered slot must keep
its balance. -/
theorem AccessState.SeqlockInv.update (h : s.SeqlockInv pidOf) {t : T}
    (hlive : s.alive (pidOf t) = true) {m : SlotTable} {my : Pid → Option ℕ} {pc : AccessPc}
    (hnum : m.procNum ≤ s.table.procNum)
    (hzero : ∀ d l i f fs, pc = .clear d (.zeroStore l i f fs) → m.procNum ≤ i)
    (hparity : ∀ i : ℕ, (i : ℤ) < m.procNum →
      ((m.procs i).seqlock.toNat + if (s.pc t).sectionAt = some i then 1 else 0) % 2 =
        ((s.table.procs i).seqlock.toNat + if pc.sectionAt = some i then 1 else 0) % 2) :
    AccessState.SeqlockInv pidOf ⟨m, my, s.alive, Function.update s.pc t pc⟩ where
  parity := by
    intro i hi
    have hi' : (i : ℤ) < m.procNum := hi
    have hbalance := hparity i hi'
    have hold := h.parity i (hi'.trans_le hnum)
    have hcard := card_writers_update hlive m my pc i
    show (m.procs i).seqlock.toNat % 2 = _
    omega
  zeroing := by
    intro u d l i f fs hu
    have hu' : Function.update s.pc t pc u = .clear d (.zeroStore l i f fs) := hu
    by_cases hut : u = t
    · rw [hut, Function.update_self] at hu'
      exact hzero d l i f fs hu'
    · rw [Function.update_of_ne hut] at hu'
      exact hnum.trans (h.zeroing u d l i f fs hu')

/-- An access that enters or leaves no section and changes no registered sequence number. -/
theorem AccessState.SeqlockInv.of_frame (h : s.SeqlockInv pidOf) {t : T}
    (hlive : s.alive (pidOf t) = true) {m : SlotTable} {my : Pid → Option ℕ} {pc : AccessPc}
    (hsec : pc.sectionAt = (s.pc t).sectionAt) (hnum : m.procNum ≤ s.table.procNum)
    (hzero : ∀ d l i f fs, pc = .clear d (.zeroStore l i f fs) → m.procNum ≤ i)
    (hseq : ∀ i : ℕ, (i : ℤ) < m.procNum → (m.procs i).seqlock = (s.table.procs i).seqlock) :
    AccessState.SeqlockInv pidOf ⟨m, my, s.alive, Function.update s.pc t pc⟩ := by
  refine h.update hlive hnum hzero fun i hi => ?_
  rw [hseq i hi, hsec]

/-- A store to another field leaves every sequence number alone. -/
theorem SlotTable.setField_seqlock {m : SlotTable} {f : SlotField} (hf : f ≠ .seqlock) (i j : ℕ)
    (v : f.Val) : ((m.setField i f v).procs j).seqlock = (m.procs j).seqlock := by
  by_cases hji : j = i
  · subst hji
    rw [setField_procs_self]
    exact SlotField.get_set_of_ne (Ne.symm hf) v _
  · rw [setField_procs_of_ne m hji]

/-- **An access of a compaction** keeps the parities, under the condition on the copied sequence
number. -/
theorem AccessState.SeqlockInv.clearMove (h : s.SeqlockInv pidOf) {t : T} {answer : ProcState}
    (hlive : s.alive (pidOf t) = true) {d : ℤ} {pc pc' : ClearPc} {m : SlotTable}
    (hpc : s.pc t = .clear d pc) (hok : s.SectionsKept pidOf (.access t answer))
    (hmove : ClearMove s.table pc m pc') (my : Pid → Option ℕ) :
    AccessState.SeqlockInv pidOf ⟨m, my, s.alive, Function.update s.pc t (.clear d pc')⟩ := by
  have hsec : (AccessPc.clear d pc').sectionAt = (s.pc t).sectionAt := by
    rw [hpc]
    rfl
  cases hmove with
  | look _ hout =>
    refine h.of_frame hlive hsec le_rfl ?_ fun _ _ => rfl
    rintro _ _ _ _ _ ⟨⟩
    exact absurd hout id
  | decrement l =>
    refine h.of_frame hlive hsec ?_ (by rintro _ _ _ _ _ ⟨⟩) fun _ _ => rfl
    show s.table.procNum - 1 ≤ s.table.procNum
    omega
  | loadTail l _ => exact h.of_frame hlive hsec le_rfl (by rintro _ _ _ _ _ ⟨⟩) fun _ _ => rfl
  | copyLoad l tail f fs =>
    exact h.of_frame hlive hsec le_rfl (by rintro _ _ _ _ _ ⟨⟩) fun _ _ => rfl
  | copyStore l tail f fs v =>
    have hzero : ∀ d' l' i g gs, AccessPc.clear d (.copying l tail fs) =
        .clear d' (.zeroStore l' i g gs) → s.table.procNum ≤ i := by
      intro d' l' i g gs he
      cases fs <;> cases he
    by_cases hf : f = .seqlock
    · subst hf
      -- the one store that puts a sequence number into another slot
      simp only [SectionsKept, hpc] at hok
      refine h.update hlive le_rfl hzero fun i hi => ?_
      rw [hsec, hpc]
      show (((s.table.setField l.slot .seqlock v).procs i).seqlock.toNat + 0) % 2 =
        ((s.table.procs i).seqlock.toNat + 0) % 2
      by_cases hil : i = l.slot
      · subst hil
        rw [SlotTable.setField_procs_self, add_zero, add_zero, h.parity _ hi]
        exact hok hi
      · rw [SlotTable.setField_procs_of_ne _ hil]
    · exact h.of_frame hlive hsec le_rfl hzero fun i _ => SlotTable.setField_seqlock hf _ i v
  | zeroLoad l f fs hi =>
    refine h.of_frame hlive hsec le_rfl ?_ fun _ _ => rfl
    rintro _ _ _ _ _ ⟨⟩
    exact hi.le
  | zeroStore l i f fs =>
    have hi := h.zeroing t d l i f fs hpc
    refine h.of_frame hlive hsec le_rfl ?_ fun j hj => ?_
    · intro d' l' j g gs he
      cases fs <;> cases he
    · have hj' : (j : ℤ) < s.table.procNum := hj
      have hji : j ≠ i := by
        rintro rfl
        omega
      rw [SlotTable.setField_procs_of_ne _ hji]

/-- An increment of one sequence number. -/
theorem SlotTable.fetchSeqlock_toNat (m : SlotTable) (i j : ℕ) :
    ((m.fetchSeqlock i).procs j).seqlock.toNat % 2 =
      ((m.procs j).seqlock.toNat + if i = j then 1 else 0) % 2 := by
  by_cases hij : i = j
  · subst hij
    rw [fetchSeqlock, setField_procs_self, if_pos rfl]
    exact seqlock_add_one_toNat _
  · rw [fetchSeqlock, setField_procs_of_ne m (Ne.symm hij), if_neg hij, add_zero]

/-- **An access of a charge or a release** keeps the parities: the sequence number and the number of
writers change together. -/
theorem AccessState.SeqlockInv.updateAccess (h : s.SeqlockInv pidOf) {t : T}
    (hlive : s.alive (pidOf t) = true) {pc pc' : UpdatePc} {m : SlotTable} {my : Option ℕ}
    (hpc : s.pc t = .update pc) (hacc : updateAccess (pidOf t) s.table my pc = some (m, pc'))
    (my' : Pid → Option ℕ) :
    AccessState.SeqlockInv pidOf ⟨m, my', s.alive, Function.update s.pc t (.update pc')⟩ := by
  have hzero : ∀ d l i f fs, AccessPc.update pc' = .clear d (.zeroStore l i f fs) →
      m.procNum ≤ i := by rintro _ _ _ _ _ ⟨⟩
  -- the accesses outside the increments
  have hframe : pc'.sectionAt = pc.sectionAt → m.procNum = s.table.procNum →
      (∀ i, (m.procs i).seqlock = (s.table.procs i).seqlock) →
      AccessState.SeqlockInv pidOf ⟨m, my', s.alive, Function.update s.pc t (.update pc')⟩ := by
    intro hsec hnum hseq
    refine h.of_frame hlive ?_ hnum.le hzero fun i _ => hseq i
    rw [hpc]
    exact hsec
  cases pc with
  | start u =>
    simp only [HamiCore.updateAccess] at hacc
    split at hacc <;> cases hacc <;> exact hframe rfl rfl fun _ => rfl
  | loadNum u =>
    cases hacc
    exact hframe rfl rfl fun _ => rfl
  | scan u procNum i =>
    simp only [HamiCore.updateAccess] at hacc
    split_ifs at hacc <;> cases hacc <;> exact hframe rfl rfl fun _ => rfl
  | enter u i =>
    cases hacc
    refine h.update hlive le_rfl hzero fun j _ => ?_
    rw [hpc]
    have hinc := s.table.fetchSeqlock_toNat i j
    simp only [AccessPc.sectionAt, UpdatePc.sectionAt, Option.some.injEq, reduceCtorEq, if_false]
    omega
  | total u i =>
    cases hacc
    exact hframe rfl rfl fun j => SlotTable.setField_seqlock (by simp) i j _
  | counter u i =>
    simp only [HamiCore.updateAccess] at hacc
    split at hacc
    · cases hacc
      exact hframe rfl rfl fun j => SlotTable.setField_seqlock (by simp) i j _
    · cases hacc
      exact hframe rfl rfl fun _ => rfl
  | leave u i =>
    cases hacc
    refine h.update hlive le_rfl hzero fun j _ => ?_
    rw [hpc]
    have hinc := s.table.fetchSeqlock_toNat i j
    simp only [AccessPc.sectionAt, UpdatePc.sectionAt, Option.some.injEq, reduceCtorEq, if_false]
    split_ifs at hinc ⊢ <;> omega
  | returned res => exact absurd hacc (by simp [HamiCore.updateAccess])

omit [DecidableEq T] in
/-- **A kill** takes away as many writers as the process has threads inside. -/
theorem AccessState.SeqlockInv.kill (h : s.SeqlockInv pidOf) {p : Pid}
    (hok : s.SectionsKept pidOf (.kill p)) :
    AccessState.SeqlockInv pidOf { s with alive := Function.update s.alive p false } where
  parity := by
    intro i hi
    have hsplit : AccessState.writers pidOf { s with alive := Function.update s.alive p false } i =
        (s.writers pidOf i).filter fun t => ¬ pidOf t = p := by
      ext t
      rw [Finset.mem_filter, writers, writers, Finset.mem_filter, Finset.mem_filter]
      dsimp only
      by_cases ht : pidOf t = p
      · simp [ht]
      · simp [ht]
    have hcard := Finset.card_filter_add_card_filter_not (s := s.writers pidOf i)
      fun t => pidOf t = p
    obtain ⟨k, hk⟩ := hok i hi
    have hold := h.parity i hi
    show (s.table.procs i).seqlock.toNat % 2 = _
    rw [hsplit]
    omega
  zeroing := h.zeroing

/-- **One step** of the machine keeps the parities. -/
theorem AccessState.SeqlockInv.step (h : s.SeqlockInv pidOf) {a : AccessLabel T}
    {s' : AccessState T} (hok : s.SectionsKept pidOf a) (hst : s.step pidOf a = some s') :
    s'.SeqlockInv pidOf := by
  rcases AccessState.step_eq_some hst with ⟨t, c, rfl, hlive, hfin, rfl⟩ |
    ⟨t, answer, m, my, pc, rfl, hlive, hacc, rfl⟩ | ⟨p, rfl, -, rfl⟩
  · refine h.of_frame hlive ?_ le_rfl ?_ fun _ _ => rfl
    · rw [AccessPc.sectionAt_of_finished hfin]
      cases c <;> rfl
    · intro d l i f fs he
      cases c <;> cases he
  · rcases threadAccess_eq_some hacc with ⟨d, c, c', hpc, rfl, hclr⟩ | ⟨u, u', hpc, rfl, hupd⟩ |
      ⟨dev, r, r', hpc, rfl, rfl⟩
    · exact h.clearMove hlive hpc hok (clearMove_of_clearAccess hclr) _
    · exact h.updateAccess hlive hpc hupd _
    · refine h.of_frame hlive ?_ le_rfl (by rintro _ _ _ _ _ ⟨⟩) fun _ _ => rfl
      rw [hpc]
      rfl
  · exact h.kill hok

end Step

/-! ## Whole runs -/

section Run

variable [Fintype T] {pidOf : T → Pid}

theorem AccessState.SeqlocksAtRest.seqlockInv {s : AccessState T} (h : s.SeqlocksAtRest) :
    s.SeqlockInv pidOf where
  parity := by
    intro i hi
    have hnone : s.writers pidOf i = ∅ := by
      refine Finset.filter_eq_empty_iff.mpr fun t _ hsec => ?_
      rw [AccessPc.sectionAt_of_finished (h.1 t)] at hsec
      exact absurd hsec.2 (by simp)
    have heven := h.2 i hi
    rw [Ne, seqlock_odd_iff] at heven
    rw [hnone, Finset.card_empty]
    omega
  zeroing := by
    intro t d l i f fs hpc
    have hfin := h.1 t
    rw [hpc] at hfin
    exact absurd hfin (by simp [AccessPc.finished])

/-- An odd number of writers is at least one. -/
theorem AccessState.SeqlockInv.oddHasWriter {s : AccessState T} (h : s.SeqlockInv pidOf) :
    s.OddHasWriter pidOf := by
  intro i hi hodd
  rw [seqlock_odd_iff, h.parity i hi] at hodd
  have hpos : 0 < (s.writers pidOf i).card := by omega
  obtain ⟨t, ht⟩ := Finset.card_pos.mp hpos
  have hmem := (Finset.mem_filter.mp ht).2
  exact ⟨t, hmem.1, hmem.2⟩

/-- **No reader waits in vain.**  In every run of charges, releases, reads, compactions and kills in
which kills and copies respect the sections, an odd sequence number of a registered slot has a live
process between its two increments on that slot. -/
theorem odd_seqlock_has_writer [DecidableEq T] {s s' : AccessState T} (hs : s.SeqlocksAtRest)
    (h : GuardedRun (AccessState.step pidOf) (AccessState.SectionsKept pidOf) s s') :
    s'.OddHasWriter pidOf := by
  have hinv : s'.SeqlockInv pidOf :=
    h.invariant (fun _ _ _ hI hok hst => hI.step hok hst) hs.seqlockInv
  exact hinv.oddHasWriter

end Run

/-- One registered process, pid 1, at rest; pid 2 runs beside it without a slot. -/
def oneRegistered : AccessState Bool where
  table := ⟨fun i => { ShrregProcSlot.blank with pid := if i = 0 then 1 else 0 }, 1⟩
  mySlot := fun p => if p = 1 then some 0 else none
  alive := fun _ => true
  pc := fun _ => .idle

/-- A thread of process 1, which writes, and one of process 2, which does not. -/
def writerAndBystander : Bool → Pid
  | false => 1
  | true => 2

/-- Process 1 charges one byte on device 0 up to its first increment. -/
def enterSection : List (AccessLabel Bool) :=
  [.call false (.update ⟨(· + ·), 1, 0, 1, 2⟩), .access false .alive, .access false .alive]

/-- `SectionsKept` where no compaction runs, evaluated. -/
def sectionsKept (s : AccessState Bool) : AccessLabel Bool → Bool
  | .call _ _ => true
  | .access t _ => match s.pc t with
    | .update _ => true
    | _ => false
  | .kill p => decide (∀ t, writerAndBystander t = p → (s.pc t).sectionAt = none)

theorem sectionsKept_of_eval {s : AccessState Bool} {a : AccessLabel Bool}
    (h : sectionsKept s a = true) : s.SectionsKept writerAndBystander a := by
  cases a with
  | call t c => trivial
  | access t answer =>
    cases hpc : s.pc t with
    | update pc => simp only [AccessState.SectionsKept, hpc]
    | _ => simp [sectionsKept, hpc] at h
  | kill p =>
    intro i _
    have hout : ∀ t, writerAndBystander t = p → (s.pc t).sectionAt = none := of_decide_eq_true h
    have hnone :
        ((s.writers writerAndBystander i).filter fun t => writerAndBystander t = p) = ∅ := by
      refine Finset.filter_eq_empty_iff.mpr fun t ht htp => ?_
      have hsec := (Finset.mem_filter.mp ht).2.2
      rw [hout t htp] at hsec
      exact absurd hsec (by simp)
    rw [hnone]
    exact Even.zero

theorem exec_otherKilled :
    (exec (AccessState.step writerAndBystander) sectionsKept (enterSection ++ [.kill 2])
      oneRegistered).map (fun s => (s.table.procNum, (s.table.procs 0).seqlock)) =
      some (1, 1) := by
  decide +kernel

theorem oneRegistered_atRest : oneRegistered.SeqlocksAtRest := by
  refine ⟨fun _ => rfl, fun i _ => ?_⟩
  show (0 : UInt64) % 2 ≠ 1
  decide

/-- Somebody else is killed while process 1 is inside its section: the odd number has a live
writer. -/
theorem odd_seqlock_has_writer_otherKilled :
    ∃ s : AccessState Bool, (s.table.procs 0).seqlock = 1 ∧
      ∃ t, s.alive (writerAndBystander t) = true ∧ (s.pc t).sectionAt = some 0 := by
  obtain ⟨s, hexec, hs⟩ := Option.map_eq_some_iff.mp exec_otherKilled
  have hnum : s.table.procNum = 1 := congrArg Prod.fst hs
  have hseq : (s.table.procs 0).seqlock = 1 := congrArg Prod.snd hs
  have hrun : GuardedRun (AccessState.step writerAndBystander)
      (AccessState.SectionsKept writerAndBystander)
      oneRegistered s := GuardedRun.of_exec (fun _ _ _ => sectionsKept_of_eval) hexec
  refine ⟨s, hseq, odd_seqlock_has_writer oneRegistered_atRest hrun 0 ?_ ?_⟩
  · rw [hnum]
    decide
  · rw [hseq]
    decide

theorem exec_writerKilled :
    (exec (AccessState.step writerAndBystander) (fun _ _ => true) (enterSection ++ [.kill 1])
      oneRegistered).map (fun s => (s.table.procNum, (s.table.procs 0).seqlock, s.alive 1,
        (s.pc true).sectionAt)) = some (1, 1, false, none) := by
  decide +kernel

/-- **A process killed between its two increments** leaves an odd sequence number that nobody will
ever make even. -/
theorem odd_seqlock_without_writer :
    ¬ ∀ s s' : AccessState Bool, s.SeqlocksAtRest →
      GuardedRun (AccessState.step writerAndBystander) (fun _ _ => True) s s' →
      s'.OddHasWriter writerAndBystander := by
  intro hall
  obtain ⟨s, hexec, hs⟩ := Option.map_eq_some_iff.mp exec_writerKilled
  simp only [Prod.mk.injEq] at hs
  obtain ⟨hnum, hseq, hdead, hother⟩ := hs
  have hrun : GuardedRun (AccessState.step writerAndBystander) (fun _ _ => True) oneRegistered s :=
    GuardedRun.of_exec (fun _ _ _ _ => trivial) hexec
  obtain ⟨t, hlive, hsec⟩ := hall _ s oneRegistered_atRest hrun 0 (by rw [hnum]; decide)
    (by rw [hseq]; decide)
  cases t with
  | false => exact absurd (hlive.symm.trans hdead) (by simp)
  | true => exact absurd (hsec.symm.trans hother) (by simp)

end HamiCore
