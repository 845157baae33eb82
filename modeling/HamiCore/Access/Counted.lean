import HamiCore.Access.Seqlock
import HamiCore.Library.Threads

/-!
# No update is lost

The usage counters of a slot are changed by all threads that charge or release, in `fetch_add` and
`fetch_sub` accesses that other threads' accesses may come between; the sequence number keeps the
readers out of a section, and not the writers.  So what a counter holds has to be read off all calls
at once.  `usage_updates_counted` does: at any moment a counter is what it was, changed by all calls
that have returned, and by what the calls under way have done so far.  Where nobody is inside a
section nothing is under way, and the total has moved by as much as its three parts
(`total_moves_with_parts`).

A process that is killed inside a section leaves what it has done so far; it stays under way for
good.
-/

namespace HamiCore

open Finset

/-! ## What a call does to a counter -/

/-- A call of `add_gpu_device_memory_usage` or of `rm_gpu_device_memory_usage`. -/
def UsageUpdate.IsAddOrRm (u : UsageUpdate) : Prop := u.op = (· + ·) ∨ u.op = (· - ·)

/-- What a call adds to a counter, modulo the machine word. -/
def UsageUpdate.amount (u : UsageUpdate) : UInt64 := u.op 0 u.usage

/-- What a call on slot `i` adds to counter `f` of device `d` in slot `j` by the time it returns. -/
def UsageUpdate.share (u : UsageUpdate) (i j : ℕ) (d : Dev) (f : MemField) : UInt64 :=
  if i = j ∧ u.dev = d ∧ (f = .total ∨ u.counter = some f) then u.amount else 0

/-- What a call under way has added so far. -/
def UpdatePc.share (pc : UpdatePc) (j : ℕ) (d : Dev) (f : MemField) : UInt64 :=
  match pc with
  | .counter u i => if i = j ∧ u.dev = d ∧ f = .total then u.amount else 0
  | .leave u i => u.share i j d f
  | _ => 0

/-- What a thread's call under way has added so far. -/
def AccessPc.share (pc : AccessPc) (j : ℕ) (d : Dev) (f : MemField) : UInt64 :=
  match pc with
  | .update pc => pc.share j d f
  | _ => 0

/-- The call that a place belongs to. -/
def UpdatePc.call : UpdatePc → Option UsageUpdate
  | .start u | .loadNum u | .scan u _ _ | .enter u _ | .total u _ | .counter u _ | .leave u _ =>
    some u
  | .returned _ => none

theorem UsageUpdate.IsAddOrRm.op_eq {u : UsageUpdate} (h : u.IsAddOrRm) (x : UInt64) :
    u.op x u.usage = x + u.amount := by
  obtain ⟨op, pid, dev, usage, type⟩ := u
  rcases h with rfl | rfl
  · show x + usage = x + (0 + usage)
    rw [zero_add]
  · show x - usage = x + (0 - usage)
    rw [zero_sub, sub_eq_add_neg]

theorem UsageUpdate.counter_ne_total (u : UsageUpdate) : u.counter ≠ some .total := by
  unfold counter
  split <;> simp

/-! ## The machine, with what has returned -/

variable {T : Type*}

/-- The calls that return with a step, with their slots. -/
def AccessState.returns (s : AccessState T) : AccessLabel T → List (ℕ × UsageUpdate)
  | .access t _ =>
    match s.pc t with
    | .update (.leave u i) => [(i, u)]
    | _ => []
  | _ => []

/-- A step, with the list of the calls that have returned. -/
def countedStep [DecidableEq T] (pidOf : T → Pid) (x : AccessState T × List (ℕ × UsageUpdate))
    (a : AccessLabel T) : Option (AccessState T × List (ℕ × UsageUpdate)) :=
  (x.1.step pidOf a).map fun s' => (s', x.2 ++ x.1.returns a)

/-- The calls made are charges, releases and reads, and no compactions. -/
def AccessLabel.UsageOnly : AccessLabel T → Prop
  | .call _ (.update u) => u.IsAddOrRm
  | .call _ (.clear _) => False
  | _ => True

/-- A thread is in none of the operations, in a charge or release, or reading. -/
def AccessPc.UsageOnly : AccessPc → Prop
  | .clear _ pc => ∃ res, pc = .returned res
  | .update pc => ∀ u ∈ pc.call, u.IsAddOrRm
  | _ => True

theorem AccessPc.usageOnly_of_finished {pc : AccessPc} (h : pc.finished = true) :
    pc.UsageOnly := by
  cases pc with
  | idle => trivial
  | clear d c =>
    cases c with
    | returned res => exact ⟨res, rfl⟩
    | _ => exact absurd h (by simp [finished])
  | update u =>
    cases u with
    | returned res => exact fun u hu => absurd hu (by simp [UpdatePc.call])
    | _ => exact absurd h (by simp [finished])
  | usage d r => trivial

/-- A thread inside none of the operations has nothing under way. -/
theorem AccessPc.share_of_finished {pc : AccessPc} (h : pc.finished = true) (j : ℕ) (d : Dev)
    (f : MemField) : pc.share j d f = 0 := by
  cases pc with
  | update u =>
    cases u with
    | returned res => rfl
    | _ => exact absurd h (by simp [finished])
  | _ => rfl

/-! ## One access -/

/-- A fetch moves one counter of one slot. -/
theorem SlotTable.get_fetchUsed (m : SlotTable) (i : ℕ) {u : UsageUpdate} (hu : u.IsAddOrRm)
    (g : MemField) (j : ℕ) (d : Dev) (f : MemField) :
    f.get (((m.fetchUsed i u g).procs j).used d) =
      f.get ((m.procs j).used d) + if i = j ∧ u.dev = d ∧ f = g then u.amount else 0 := by
  by_cases hij : i = j
  · subst hij
    rw [fetchUsed, setField_procs_self]
    by_cases hfield : SlotField.used d f = .used u.dev g
    · obtain ⟨rfl, rfl⟩ := SlotField.used.inj hfield
      rw [if_pos ⟨rfl, rfl, rfl⟩, ← hu.op_eq]
      exact SlotField.get_set_self (.used u.dev f) _ _
    · have hcond : ¬ (i = i ∧ u.dev = d ∧ f = g) := by
        rintro ⟨-, rfl, rfl⟩
        exact hfield rfl
      rw [if_neg hcond, add_zero]
      exact SlotField.get_set_of_ne hfield _ _
  · rw [fetchUsed, setField_procs_of_ne m (Ne.symm hij), if_neg fun h => hij h.1, add_zero]

/-- An increment of a sequence number moves no counter. -/
theorem SlotTable.used_fetchSeqlock (m : SlotTable) (i j : ℕ) :
    ((m.fetchSeqlock i).procs j).used = (m.procs j).used := by
  by_cases hij : j = i
  · subst hij
    rw [fetchSeqlock, setField_procs_self]
    rfl
  · rw [fetchSeqlock, setField_procs_of_ne m hij]

/-- What a step hands over from the calls under way to those that have returned. -/
def UpdatePc.returnedShare (pc : UpdatePc) (j : ℕ) (d : Dev) (f : MemField) : UInt64 :=
  match pc with
  | .leave u i => u.share i j d f
  | _ => 0

/-- **One access of a charge or a release**: what the counter gains is what the call has done
more. -/
theorem updateAccess_share {self : Pid} {m m' : SlotTable} {my : Option ℕ} {pc pc' : UpdatePc}
    (hpc : ∀ u ∈ pc.call, u.IsAddOrRm) (h : updateAccess self m my pc = some (m', pc')) (j : ℕ)
    (d : Dev) (f : MemField) :
    f.get ((m'.procs j).used d) + pc.share j d f =
      f.get ((m.procs j).used d) + pc'.share j d f + pc.returnedShare j d f := by
  cases pc with
  | start u =>
    simp only [updateAccess] at h
    split at h <;> cases h <;> simp [UpdatePc.share, UpdatePc.returnedShare]
  | loadNum u =>
    cases h
    simp [UpdatePc.share, UpdatePc.returnedShare]
  | scan u procNum i =>
    simp only [updateAccess] at h
    split_ifs at h <;> cases h <;> simp [UpdatePc.share, UpdatePc.returnedShare]
  | enter u i =>
    cases h
    simp [UpdatePc.share, UpdatePc.returnedShare, SlotTable.used_fetchSeqlock]
  | total u i =>
    cases h
    rw [SlotTable.get_fetchUsed m i (hpc u rfl)]
    simp [UpdatePc.share, UpdatePc.returnedShare]
  | counter u i =>
    simp only [updateAccess] at h
    cases hc : u.counter with
    | none =>
      rw [hc] at h
      cases h
      simp [UpdatePc.share, UpdatePc.returnedShare, UsageUpdate.share, hc]
    | some c =>
      rw [hc] at h
      cases h
      have hne : c ≠ .total := fun hct => u.counter_ne_total (hct ▸ hc)
      rw [SlotTable.get_fetchUsed m i (hpc u rfl)]
      simp only [UpdatePc.share, UpdatePc.returnedShare, UsageUpdate.share, hc, add_zero,
        Option.some.injEq]
      rw [add_assoc]
      congr 1
      -- the total has been moved before, and the counter of the call is another one
      by_cases hslot : i = j ∧ u.dev = d
      · by_cases hf : f = .total
        · subst hf
          simp [hslot, hne, Ne.symm hne]
        · by_cases hfc : f = c
          · subst hfc
            simp [hslot, hf]
          · simp [hf, hfc, Ne.symm hfc]
      · rw [if_neg fun hall => hslot ⟨hall.1, hall.2.1⟩,
          if_neg fun hall => hslot ⟨hall.1, hall.2.1⟩,
          if_neg fun hall => hslot ⟨hall.1, hall.2.1⟩, add_zero]
  | leave u i =>
    cases h
    simp [UpdatePc.share, UpdatePc.returnedShare, SlotTable.used_fetchSeqlock]
  | returned res => exact absurd h (by simp [updateAccess])

/-- The call stays the same up to its return. -/
theorem updateAccess_call {self : Pid} {m m' : SlotTable} {my : Option ℕ} {pc pc' : UpdatePc}
    (h : updateAccess self m my pc = some (m', pc')) {u : UsageUpdate} (hu : u ∈ pc'.call) :
    u ∈ pc.call := by
  cases pc with
  | returned res => exact absurd h (by simp [updateAccess])
  | start v =>
    simp only [updateAccess] at h
    split at h <;> cases h <;> exact hu
  | scan v procNum i =>
    simp only [updateAccess] at h
    split_ifs at h <;> cases h
    · exact hu
    · exact hu
    · exact absurd hu (by simp [UpdatePc.call])
  | counter v i =>
    simp only [updateAccess] at h
    split at h <;> cases h <;> exact hu
  | leave v i =>
    cases h
    exact absurd hu (by simp [UpdatePc.call])
  | _ =>
    cases h
    exact hu

/-! ## Whole runs -/

section Run

variable [Fintype T]

/-- What the calls under way have added to a counter so far. -/
def AccessState.underWay (s : AccessState T) (j : ℕ) (d : Dev) (f : MemField) : UInt64 :=
  ∑ t, (s.pc t).share j d f

/-- What a list of calls has added to a counter. -/
def returnedShares (log : List (ℕ × UsageUpdate)) (j : ℕ) (d : Dev) (f : MemField) : UInt64 :=
  (log.map fun e => e.2.share e.1 j d f).sum

theorem returnedShares_append (log log' : List (ℕ × UsageUpdate)) (j : ℕ) (d : Dev)
    (f : MemField) :
    returnedShares (log ++ log') j d f = returnedShares log j d f + returnedShares log' j d f := by
  rw [returnedShares, List.map_append, List.sum_append]
  rfl

/-- **The invariant.**  Every counter is what it was at the start, changed by the calls that have
returned and by what those under way have done. -/
structure AccessState.Counted (s₀ : AccessState T) (x : AccessState T × List (ℕ × UsageUpdate)) :
    Prop where
  usageOnly : ∀ t, (x.1.pc t).UsageOnly
  counters : ∀ j d f, f.get ((x.1.table.procs j).used d) =
    f.get ((s₀.table.procs j).used d) + returnedShares x.2 j d f + x.1.underWay j d f

variable [DecidableEq T] {pidOf : T → Pid} {s₀ : AccessState T}
  {x x' : AccessState T × List (ℕ × UsageUpdate)}

/-- One thread moves; what the others have under way stays. -/
theorem AccessState.underWay_update (s : AccessState T) (t : T) (m : SlotTable)
    (my : Pid → Option ℕ) (pc : AccessPc) (j : ℕ) (d : Dev) (f : MemField) :
    AccessState.underWay ⟨m, my, s.alive, Function.update s.pc t pc⟩ j d f + (s.pc t).share j d f =
      s.underWay j d f + pc.share j d f :=
  sum_update_add (fun pc : AccessPc => pc.share j d f) s.pc t pc

omit [Fintype T] in
/-- One thread moves on. -/
theorem AccessPc.usageOnly_update {pcs : T → AccessPc} (h : ∀ u, (pcs u).UsageOnly) {t : T}
    {pc : AccessPc} (hpc : pc.UsageOnly) (u : T) : (Function.update pcs t pc u).UsageOnly := by
  by_cases hut : u = t
  · subst hut
    rwa [Function.update_self]
  · rw [Function.update_of_ne hut]
    exact h u

omit [Fintype T] in
/-- Threads that charge, release and read stay at that. -/
theorem AccessState.usageOnly_step {s s' : AccessState T} (h : ∀ t, (s.pc t).UsageOnly)
    {a : AccessLabel T} (ha : a.UsageOnly) (hst : s.step pidOf a = some s') :
    ∀ t, (s'.pc t).UsageOnly := by
  rcases AccessState.step_eq_some hst with ⟨t, c, rfl, -, -, rfl⟩ |
    ⟨t, answer, m, my, pc, rfl, -, hacc, rfl⟩ | ⟨p, rfl, -, rfl⟩
  · refine AccessPc.usageOnly_update h ?_
    cases c with
    | clear d => exact absurd ha id
    | update u => exact fun v hv => Option.some.inj hv ▸ ha
    | usage dev => trivial
  · refine AccessPc.usageOnly_update h ?_
    have hpc := h t
    rcases threadAccess_eq_some hacc with ⟨d, c, c', hc, rfl, hclr⟩ | ⟨u, u', hu, rfl, hupd⟩ |
      ⟨dev, r, r', hr, rfl, rfl⟩
    · rw [hc] at hpc
      obtain ⟨res, rfl⟩ := hpc
      exact absurd hclr (by simp [clearAccess])
    · rw [hu] at hpc
      exact fun v hv => hpc v (updateAccess_call hupd hv)
    · trivial
  · exact h

/-- A step that changes no counter and no thread's share, and returns no call. -/
theorem AccessState.Counted.of_frame (h : s₀.Counted x) {t : T} {my : Pid → Option ℕ}
    {pc : AccessPc} (hshare : ∀ j d f, pc.share j d f = (x.1.pc t).share j d f)
    (honly : ∀ u, (Function.update x.1.pc t pc u).UsageOnly) :
    s₀.Counted (⟨x.1.table, my, x.1.alive, Function.update x.1.pc t pc⟩, x.2 ++ []) where
  usageOnly := honly
  counters := by
    intro j d f
    have hmove := x.1.underWay_update t x.1.table my pc j d f
    rw [hshare] at hmove
    rw [List.append_nil, add_right_cancel hmove]
    exact h.counters j d f

/-- An access of a charge or a release. -/
theorem AccessState.Counted.update (h : s₀.Counted x) {t : T} {my : Pid → Option ℕ}
    {self : Pid} {mySlot : Option ℕ} {m : SlotTable} {pc pc' : UpdatePc}
    (hpc : x.1.pc t = .update pc)
    (hacc : updateAccess self x.1.table mySlot pc = some (m, pc')) (answer : ProcState)
    (honly : ∀ u, (Function.update x.1.pc t (.update pc') u).UsageOnly) :
    s₀.Counted (⟨m, my, x.1.alive, Function.update x.1.pc t (.update pc')⟩,
      x.2 ++ x.1.returns (.access t answer)) where
  usageOnly := honly
  counters := by
    intro j d f
    have hregular : ∀ u ∈ pc.call, u.IsAddOrRm := by
      have hall := h.usageOnly t
      rwa [hpc] at hall
    have hmove := x.1.underWay_update t m my (.update pc') j d f
    have hcounter := updateAccess_share hregular hacc j d f
    have hreturned : returnedShares (x.1.returns (.access t answer)) j d f =
        pc.returnedShare j d f := by
      simp only [returns, hpc]
      cases pc <;> simp [returnedShares, UpdatePc.returnedShare]
    rw [hpc] at hmove
    rw [h.counters] at hcounter
    rw [returnedShares_append, hreturned]
    refine add_right_cancel (b := pc.share j d f) ?_
    calc f.get ((m.procs j).used d) + pc.share j d f
        = f.get ((s₀.table.procs j).used d) + returnedShares x.2 j d f
            + (x.1.underWay j d f + pc'.share j d f) + pc.returnedShare j d f := by
          rw [hcounter]
          abel
      _ = _ := by
          rw [show x.1.underWay j d f + pc'.share j d f = _ from hmove.symm]
          simp only [AccessPc.share]
          abel

/-- **One step.** -/
theorem AccessState.Counted.step (h : s₀.Counted x) {a : AccessLabel T} (ha : a.UsageOnly)
    (hst : countedStep pidOf x a = some x') : s₀.Counted x' := by
  obtain ⟨s', hs', rfl⟩ := Option.map_eq_some_iff.mp hst
  have honly := AccessState.usageOnly_step h.usageOnly ha hs'
  rcases AccessState.step_eq_some hs' with ⟨t, c, rfl, -, hfin, rfl⟩ |
    ⟨t, answer, m, my, pc, rfl, -, hacc, rfl⟩ | ⟨p, rfl, -, rfl⟩
  · refine h.of_frame (fun j d f => ?_) honly
    rw [AccessPc.share_of_finished hfin]
    cases c <;> rfl
  · rcases threadAccess_eq_some hacc with ⟨d, c, c', hpc, rfl, hclr⟩ | ⟨u, u', hpc, rfl, hupd⟩ |
      ⟨dev, r, r', hpc, rfl, rfl⟩
    · have hclear := h.usageOnly t
      rw [hpc] at hclear
      obtain ⟨res, rfl⟩ := hclear
      exact absurd hclr (by simp [clearAccess])
    · exact h.update hpc hupd answer honly
    · have hnone : x.1.returns (.access t answer) = [] := by simp [returns, hpc]
      rw [hnone]
      exact h.of_frame (fun j d f => by rw [hpc]; rfl) honly
  · refine ⟨h.usageOnly, fun j d f => ?_⟩
    show _ = _ + returnedShares (x.2 ++ []) j d f + _
    rw [List.append_nil]
    exact h.counters j d f

omit [DecidableEq T] in
/-- Nothing is under way where every thread is outside the operations. -/
theorem AccessState.counted_of_finished {s : AccessState T}
    (hs : ∀ t, (s.pc t).finished = true) : s.Counted (s, []) where
  usageOnly t := AccessPc.usageOnly_of_finished (hs t)
  counters j d f := by
    have hzero : s.underWay j d f = 0 :=
      Finset.sum_eq_zero fun t _ => AccessPc.share_of_finished (hs t) j d f
    show _ = _ + returnedShares [] j d f + s.underWay j d f
    rw [hzero, returnedShares, List.map_nil, List.sum_nil, add_zero, add_zero]

/-- **No update is lost, and none counts twice.**  In every interleaving of the accesses of charges,
releases and reads, with kills anywhere, every counter of every slot holds what it held at the
start, changed by every call that has returned and by what the calls under way have done so far. -/
theorem usage_updates_counted {s s' : AccessState T} {log : List (ℕ × UsageUpdate)}
    (hs : ∀ t, (s.pc t).finished = true)
    (hrun : GuardedRun (countedStep pidOf) (fun _ a => a.UsageOnly) (s, []) (s', log)) (i : ℕ)
    (d : Dev) (f : MemField) :
    f.get ((s'.table.procs i).used d) =
      f.get ((s.table.procs i).used d) + returnedShares log i d f + s'.underWay i d f :=
  (hrun.invariant (P := s.Counted) (fun _ _ _ hu ha hst => hu.step ha hst)
    (AccessState.counted_of_finished hs)).counters i d f

/-! ## The total and its parts -/

/-- The calls made move the context, the module or the data counter. -/
def AccessLabel.Typed : AccessLabel T → Prop
  | .call _ (.update u) => u.IsAddOrRm ∧ u.counter.isSome
  | .call _ (.clear _) => False
  | _ => True

omit [Fintype T] [DecidableEq T] in
theorem AccessLabel.Typed.usageOnly {a : AccessLabel T} (h : a.Typed) : a.UsageOnly := by
  cases a with
  | call t c =>
    cases c with
    | update u => exact h.1
    | clear d => exact h
    | usage dev => trivial
  | access t answer => trivial
  | kill p => trivial

/-- The calls under way and the calls that have returned have a counter. -/
def CallsTyped (x : AccessState T × List (ℕ × UsageUpdate)) : Prop :=
  (∀ t pc, x.1.pc t = .update pc → ∀ u ∈ pc.call, u.counter.isSome) ∧
    ∀ e ∈ x.2, e.2.counter.isSome

omit [Fintype T] in
theorem CallsTyped.step (h : CallsTyped x) {a : AccessLabel T} (ha : a.Typed)
    (hst : countedStep pidOf x a = some x') : CallsTyped x' := by
  obtain ⟨s', hs', rfl⟩ := Option.map_eq_some_iff.mp hst
  -- a thread that moves to `new`, and the others
  have hpcs : ∀ {t : T} {new : AccessPc} {m : SlotTable} {my : Pid → Option ℕ},
      (∀ pc, new = .update pc → ∀ u ∈ pc.call, u.counter.isSome) → ∀ t' pc,
      (AccessState.pc ⟨m, my, x.1.alive, Function.update x.1.pc t new⟩ : T → AccessPc) t' =
        .update pc → ∀ u ∈ pc.call, u.counter.isSome := by
    intro t new m my hnew t' pc hpc
    have hpc' : Function.update x.1.pc t new t' = .update pc := hpc
    by_cases htt : t' = t
    · rw [htt, Function.update_self] at hpc'
      exact hnew pc hpc'
    · rw [Function.update_of_ne htt] at hpc'
      exact h.1 t' pc hpc'
  rcases AccessState.step_eq_some hs' with ⟨t, c, rfl, -, -, rfl⟩ |
    ⟨t, answer, m, my, pc, rfl, -, hacc, rfl⟩ | ⟨p, rfl, -, rfl⟩
  · refine ⟨hpcs fun pc hpc u hu => ?_, fun e he => h.2 e (by simpa [AccessState.returns] using he)⟩
    cases c with
    | update v =>
      cases hpc
      cases hu
      exact ha.2
    | _ => cases hpc
  · rcases threadAccess_eq_some hacc with ⟨d, c, c', hpc, rfl, -⟩ | ⟨u, u', hpc, rfl, hupd⟩ |
      ⟨dev, r, r', hpc, rfl, rfl⟩
    · refine ⟨hpcs (by rintro _ ⟨⟩), fun e he => h.2 e ?_⟩
      simpa [AccessState.returns, hpc] using he
    · refine ⟨hpcs ?_, fun e he => ?_⟩
      · rintro _ ⟨⟩ v hv
        exact h.1 t u hpc v (updateAccess_call hupd hv)
      · rcases List.mem_append.mp he with hold | hnew
        · exact h.2 e hold
        · cases u with
          | leave v i =>
            rw [AccessState.returns, hpc] at hnew
            rw [List.mem_singleton.mp hnew]
            exact h.1 t _ hpc v rfl
          | _ => exact absurd hnew (by simp [AccessState.returns, hpc])
    · refine ⟨hpcs (by rintro _ ⟨⟩), fun e he => h.2 e ?_⟩
      simpa [AccessState.returns, hpc] using he
  · exact ⟨h.1, fun e he => h.2 e (by simpa [AccessState.returns] using he)⟩

/-- A call moves the total by as much as the three parts together. -/
theorem UsageUpdate.share_total {u : UsageUpdate} (hu : u.counter.isSome) (i j : ℕ) (d : Dev) :
    u.share i j d .total =
      u.share i j d .contextSize + u.share i j d .moduleSize + u.share i j d .dataSize := by
  by_cases hslot : i = j ∧ u.dev = d
  · unfold counter at hu
    simp only [share, hslot, true_and, true_or, if_true, reduceCtorEq, false_or]
    unfold counter
    split at hu <;> simp_all
  · have hzero : ∀ f, u.share i j d f = 0 := fun f => if_neg fun h => hslot ⟨h.1, h.2.1⟩
    rw [hzero, hzero, hzero, hzero, add_zero, add_zero]

/-- A thread outside the sections has nothing under way. -/
theorem AccessPc.share_of_sectionAt {pc : AccessPc} (h : pc.sectionAt = none) (j : ℕ) (d : Dev)
    (f : MemField) : pc.share j d f = 0 := by
  cases pc with
  | update u =>
    cases u with
    | counter v i => exact absurd h (by simp [sectionAt, UpdatePc.sectionAt])
    | leave v i => exact absurd h (by simp [sectionAt, UpdatePc.sectionAt])
    | _ => rfl
  | _ => rfl

/-- What calls with a counter have added to the total, they have added to the parts. -/
theorem returnedShares_total {log : List (ℕ × UsageUpdate)} (h : ∀ e ∈ log, e.2.counter.isSome)
    (j : ℕ) (d : Dev) :
    returnedShares log j d .total = returnedShares log j d .contextSize +
      returnedShares log j d .moduleSize + returnedShares log j d .dataSize := by
  induction log with
  | nil => simp [returnedShares]
  | cons e log ih =>
    have hcons : ∀ f, returnedShares (e :: log) j d f =
        e.2.share e.1 j d f + returnedShares log j d f := fun f => by simp [returnedShares]
    have hhead := UsageUpdate.share_total (h e List.mem_cons_self) e.1 j d
    rw [hcons, hcons, hcons, hcons, hhead, ih fun e' he' => h e' (List.mem_cons_of_mem e he')]
    abel

/-- **The total moves with its parts.**  In every interleaving of charges and releases of the three
kinds, wherever no thread is inside a section, the total of a slot has moved by as much as its
context, module and data counters together. -/
theorem total_moves_with_parts {s s' : AccessState T} {log : List (ℕ × UsageUpdate)}
    (hs : ∀ t, (s.pc t).finished = true)
    (hrun : GuardedRun (countedStep pidOf) (fun _ a => a.Typed) (s, []) (s', log))
    (hrest : ∀ t, (s'.pc t).sectionAt = none) (i : ℕ) (d : Dev) :
    ((s'.table.procs i).used d).total + (((s.table.procs i).used d).contextSize +
        ((s.table.procs i).used d).moduleSize + ((s.table.procs i).used d).dataSize) =
      ((s.table.procs i).used d).total + (((s'.table.procs i).used d).contextSize +
        ((s'.table.procs i).used d).moduleSize + ((s'.table.procs i).used d).dataSize) := by
  have hcounted : s.Counted (s', log) :=
    hrun.invariant (P := s.Counted) (fun _ _ _ hu ha hst => hu.step ha.usageOnly hst)
      (AccessState.counted_of_finished hs)
  have htyped : CallsTyped (s', log) := by
    refine hrun.invariant (P := CallsTyped) (fun _ _ _ hu ha hst => hu.step ha hst) ⟨?_, by simp⟩
    intro t pc hpc u hu
    have hfin := hs t
    rw [show s.pc t = _ from hpc] at hfin
    cases pc with
    | returned res => exact absurd hu (by simp [UpdatePc.call])
    | _ => exact absurd hfin (by simp [AccessPc.finished])
  have hcounter : ∀ f : MemField, f.get ((s'.table.procs i).used d) =
      f.get ((s.table.procs i).used d) + returnedShares log i d f := by
    intro f
    have hzero : s'.underWay i d f = 0 :=
      Finset.sum_eq_zero fun t _ => AccessPc.share_of_sectionAt (hrest t) i d f
    rw [hcounted.counters, hzero, add_zero]
  have htotal := hcounter .total
  have hcontext := hcounter .contextSize
  have hmodule := hcounter .moduleSize
  have hdata := hcounter .dataSize
  simp only [MemField.get] at htotal hcontext hmodule hdata
  rw [htotal, hcontext, hmodule, hdata, returnedShares_total htyped.2]
  abel

end Run

/-! ## Two threads of one process -/

/-- Two threads of process 1 charge device 0 with 5 and with 7 bytes, each access of one between two
of the other; the first has returned, and the second has its last increment before it. -/
def twoCharges : List (AccessLabel Bool) :=
  [.call false (.update ⟨(· + ·), 1, 0, 5, 2⟩), .call true (.update ⟨(· + ·), 1, 0, 7, 2⟩),
    .access false .alive, .access true .alive, .access false .alive, .access true .alive,
    .access false .alive, .access true .alive, .access false .alive, .access true .alive,
    .access false .alive]

theorem twoCharges_typed : ∀ a ∈ twoCharges, a.Typed := by
  intro a ha
  simp only [twoCharges, List.mem_cons, List.not_mem_nil, or_false] at ha
  rcases ha with rfl | rfl | rfl | rfl | rfl | rfl | rfl | rfl | rfl | rfl | rfl
  · exact ⟨Or.inl rfl, rfl⟩
  · exact ⟨Or.inl rfl, rfl⟩
  all_goals trivial

/-- The counters of that run. -/
theorem usage_updates_counted_twoCharges :
    ∃ (s : AccessState Bool) (log : List (ℕ × UsageUpdate)),
      GuardedRun (countedStep fun _ => 1) (fun _ a => a.UsageOnly) (oneRegistered, []) (s, log) ∧
        log.length = 1 ∧ ((s.table.procs 0).used 0).total =
          0 + returnedShares log 0 0 .total + s.underWay 0 0 .total ∧
        ((s.table.procs 0).used 0).total = 12 := by
  obtain ⟨⟨s, log⟩, hexec, hlog, htotal⟩ : ∃ x, exec (countedStep fun _ : Bool => 1)
      (fun _ _ => true) twoCharges (oneRegistered, []) = some x ∧ x.2.length = 1 ∧
      ((x.1.table.procs 0).used 0).total = 12 := ⟨_, rfl, rfl, by decide⟩
  have hrun : GuardedRun (countedStep fun _ : Bool => 1) (fun _ a => a.UsageOnly)
      (oneRegistered, []) (s, log) :=
    GuardedRun.of_exec (fun a ha _ _ => (twoCharges_typed a ha).usageOnly) hexec
  exact ⟨s, log, hrun, hlog, usage_updates_counted (fun _ => rfl) hrun 0 0 .total, htotal⟩

/-- When the second has returned too, all 12 bytes are in the total and in the data counter. -/
theorem total_moves_with_parts_twoCharges :
    ∃ s : AccessState Bool, ((s.table.procs 0).used 0).total = 12 ∧
      ((s.table.procs 0).used 0).total + (0 + 0 + 0) =
        0 + (((s.table.procs 0).used 0).contextSize + ((s.table.procs 0).used 0).moduleSize +
          ((s.table.procs 0).used 0).dataSize) := by
  obtain ⟨⟨s, log⟩, hexec, htotal, hfalse, htrue⟩ : ∃ x, exec (countedStep fun _ : Bool => 1)
      (fun _ _ => true) (twoCharges ++ [.access true .alive]) (oneRegistered, []) = some x ∧
      ((x.1.table.procs 0).used 0).total = 12 ∧ (x.1.pc false).sectionAt = none ∧
      (x.1.pc true).sectionAt = none := ⟨_, rfl, by decide, rfl, rfl⟩
  have hrun : GuardedRun (countedStep fun _ : Bool => 1) (fun _ a => a.Typed)
      (oneRegistered, []) (s, log) := by
    refine GuardedRun.of_exec (fun a ha _ _ => ?_) hexec
    rcases List.mem_append.mp ha with hold | hlast
    · exact twoCharges_typed a hold
    · rw [List.mem_singleton.mp hlast]
      trivial
  have hrest : ∀ t, (s.pc t).sectionAt = none := fun t => by cases t <;> assumption
  exact ⟨s, htotal, total_moves_with_parts (fun _ => rfl) hrun hrest 0 0⟩

end HamiCore
