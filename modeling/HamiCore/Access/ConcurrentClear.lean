import HamiCore.Access.Sequential

/-!
# Concurrent compactions

`oom_check` calls `clear_proc_slot_nolock` without `lock_shrreg`, so several processes may compact
the same table at once.  One removal is a decrement of `proc_num`, a copy of some three hundred
accesses from the slot thereby vacated into the hole, and possibly a zeroing of the vacated slot.
Nothing ties these together, nor the decrement to the `pid` it was decided on.

The right way to look at overlapping removals is the *intended table*: the array as it would be if
every copy under way were already complete.  As long as removals do not get in each other's way
(`Undisturbed`), the intended table loses exactly one droppable slot at each decrement and is not
changed by any other access, and every hole that is still being filled will in the end hold what the
intended table says (`ClearInv`).  When all calls have returned, the array is the intended table, so
no live slot is lost or doubled (`live_slots_kept`).

Without the condition, two processes that both decide on the same hole lose a live slot
(`live_slot_lost`).
-/

namespace HamiCore

variable {T : Type*}

/-- A copy under way: into the slot `hole`, from the slot `tail`, with the fields `todo` left. -/
structure SlotMove where
  hole : ℕ
  tail : ℕ
  todo : List SlotField

namespace AccessPc

/-- The copy a thread is committed to: from its decrement of `proc_num` to its last store.  Before
it has loaded the tail, that is the current `proc_num`. -/
def move (n : ℕ) : AccessPc → Option SlotMove
  | .clear _ (.loadTail l) => some ⟨l.slot, n, copyFields⟩
  | .clear _ (.copyLoad l tail f fs) => some ⟨l.slot, tail, f :: fs⟩
  | .clear _ (.copyStore l tail f fs _) => some ⟨l.slot, tail, f :: fs⟩
  | _ => none

/-- The thread has decremented `proc_num` and not loaded it again yet. -/
def atLoadTail : AccessPc → Prop
  | .clear _ (.loadTail _) => True
  | _ => False

end AccessPc

namespace AccessState

/-- Only compactions run, nobody is killed, and `proc_alive` answers as the given oracle does. -/
def ClearOnly (procAlive : Pid → ProcState) (s : AccessState T) : AccessLabel T → Prop
  | .call _ (.clear _) => True
  | .access t answer =>
    match s.pc t with
    | .clear _ pc => pc.Allowed procAlive (fun _ _ => True) s.table answer
    | _ => True
  | _ => False

/-- **Removals stay out of each other's way.**  A decrement drops a slot that is still registered
and droppable, while nobody has yet to load a tail and nobody copies into the hole or into the slot
that is vacated; a zeroing store does not hit a slot somebody copies from. -/
def Undisturbed (procAlive : Pid → ProcState) (s : AccessState T) : AccessLabel T → Prop
  | .access t _ =>
    match s.pc t with
    | .clear _ (.decrement l) =>
      s.table.Drops procAlive l ∧ ∀ t', ¬ (s.pc t').atLoadTail ∧
        ∀ x ∈ (s.pc t').move s.table.procNum.toNat,
          x.hole ≠ l.slot ∧ (x.hole : ℤ) ≠ s.table.procNum - 1
    | .clear _ (.zeroStore _ i _ _) =>
      ∀ t', ∀ x ∈ (s.pc t').move s.table.procNum.toNat, x.tail ≠ i
    | _ => True
  | _ => True

/-- Nobody is inside one of the operations. -/
def Quiet (s : AccessState T) : Prop := ∀ t, (s.pc t).finished = true

/-- The registered slots. -/
def slots (s : AccessState T) : Multiset ShrregProcSlot :=
  window s.table.procs 0 s.table.procNum.toNat

end AccessState

/-! ## The intended table -/

/-- A copy under way agrees with the intended table `V` of the `n` registered slots: it goes into a
registered slot (or onto itself) from a vacated one, the hole is meant to hold what the tail holds,
and the stores still to come achieve that. -/
structure SlotMove.Ok (n : ℕ) (V procs : ℕ → ShrregProcSlot) (x : SlotMove) : Prop where
  le_tail : n ≤ x.tail
  hole_lt : x.hole < n ∨ x.hole = x.tail
  target : x.hole < n → V x.hole = procs x.tail
  todo : copyInto (procs x.tail) x.todo (procs x.hole) = procs x.tail

/-- Two copies that do not touch each other's slots. -/
structure SlotMove.Apart (x y : SlotMove) : Prop where
  hole : x.hole ≠ y.hole
  left : x.hole ≠ y.tail
  right : y.hole ≠ x.tail

/-- What a thread's own position promises: a loaded value is still the current one, a zeroing store
goes past the registered slots, and no other operation than a compaction is running. -/
def AccessPc.Local (n : ℕ) (procs : ℕ → ShrregProcSlot) : AccessPc → Prop
  | .clear _ (.copyStore _ tail f _ v) => v = f.get (procs tail)
  | .clear _ (.zeroStore _ i _ _) => n ≤ i
  | .clear _ _ => True
  | .idle => True
  | .update pc => (AccessPc.update pc).finished = true
  | .usage dev pc => (AccessPc.usage dev pc).finished = true

/-- **The invariant**, for `n` registered slots, the intended table `V` and the multiset `R` of
slots dropped so far. -/
structure ClearInv (procAlive : Pid → ProcState) (M : Multiset ShrregProcSlot) (s : AccessState T)
    (n : ℕ) (V : ℕ → ShrregProcSlot) (R : Multiset ShrregProcSlot) : Prop where
  procNum : s.table.procNum = n
  dropped : ∀ x ∈ R, ShrregProcSlot.Droppable procAlive x
  slots : window V 0 n + R = M
  settled : ∀ i < n, (∀ t, ∀ x ∈ (s.pc t).move n, x.hole ≠ i) → V i = s.table.procs i
  moving : ∀ t, ∀ x ∈ (s.pc t).move n, x.Ok n V s.table.procs
  apart : ∀ t t', t ≠ t' → ∀ x ∈ (s.pc t).move n, ∀ y ∈ (s.pc t').move n, x.Apart y
  locals : ∀ t, (s.pc t).Local n s.table.procs

theorem SlotMove.Apart.symm {x y : SlotMove} (h : x.Apart y) : y.Apart x :=
  ⟨h.hole.symm, h.right, h.left⟩

/-- An agreeing copy stays so when its two slots, and what is intended for its hole, stay. -/
theorem SlotMove.Ok.frame {n n' : ℕ} {V V' procs procs' : ℕ → ShrregProcSlot} {x : SlotMove}
    (h : x.Ok n V procs) (hn : n' ≤ n) (hhole : x.hole < n → x.hole < n')
    (hV : x.hole < n' → V' x.hole = V x.hole) (hh : procs' x.hole = procs x.hole)
    (ht : procs' x.tail = procs x.tail) : x.Ok n' V' procs' where
  le_tail := hn.trans h.le_tail
  hole_lt := h.hole_lt.imp hhole id
  target := by
    intro hlt
    rw [hV hlt, ht]
    exact h.target (hlt.trans_le hn)
  todo := by
    rw [hh, ht]
    exact h.todo

theorem AccessPc.Local.frame {n n' : ℕ} {procs procs' : ℕ → ShrregProcSlot} {pc : AccessPc}
    (h : pc.Local n procs) (hn : n' ≤ n)
    (ht : ∀ x ∈ pc.move n, procs' x.tail = procs x.tail) : pc.Local n' procs' := by
  cases pc with
  | clear d pc =>
    cases pc with
    | copyStore l tail f fs v =>
      have htail : procs' tail = procs tail := ht ⟨l.slot, tail, f :: fs⟩ rfl
      show v = f.get (procs' tail)
      rw [htail]
      exact h
    | zeroStore l i f fs => exact hn.trans h
    | _ => trivial
  | _ => exact h

/-- A thread that has loaded its tail is committed to the same copy whatever `proc_num` is. -/
theorem AccessPc.move_of_not_atLoadTail {pc : AccessPc} (h : ¬ pc.atLoadTail) (n n' : ℕ) :
    pc.move n' = pc.move n := by
  cases pc with
  | clear d pc =>
    cases pc with
    | loadTail l => exact absurd trivial h
    | _ => rfl
  | _ => rfl

/-- Outside the copy and the zeroing a thread is committed to nothing. -/
theorem AccessPc.move_of_outside {d : ℤ} {pc : ClearPc} (h : pc.Outside) (n : ℕ) :
    (AccessPc.clear d pc).move n = none := by
  cases pc <;> first | rfl | exact absurd h id

theorem AccessPc.local_of_outside {d : ℤ} {pc : ClearPc} (h : pc.Outside) {n : ℕ}
    {procs : ℕ → ShrregProcSlot} : (AccessPc.clear d pc).Local n procs := by
  cases pc <;> trivial

/-- The copy with the fields `fs` still to do is under way as long as there are any. -/
theorem AccessPc.mem_move_copying {d : ℤ} {l : ClearLocals} {tail n : ℕ} {fs : List SlotField}
    {x : SlotMove} (h : x ∈ (AccessPc.clear d (.copying l tail fs)).move n) :
    x = ⟨l.slot, tail, fs⟩ := by
  cases fs with
  | nil => exact absurd h (by simp [ClearPc.copying, move])
  | cons f fs => exact (Option.some.inj h).symm

theorem AccessPc.local_copying {d : ℤ} {l : ClearLocals} {tail n : ℕ} {fs : List SlotField}
    {procs : ℕ → ShrregProcSlot} : (AccessPc.clear d (.copying l tail fs)).Local n procs := by
  cases fs <;> trivial

theorem ClearPc.zeroing_outside (l : ClearLocals) (fs : List SlotField) :
    (ClearPc.zeroing l fs).Outside := by
  cases fs <;> trivial

section Step

variable [DecidableEq T] {procAlive : Pid → ProcState} {M : Multiset ShrregProcSlot}
  {s : AccessState T} {n : ℕ} {V : ℕ → ShrregProcSlot} {R : Multiset ShrregProcSlot}

/-- Moving one thread: what has to be shown for it and for the others. -/
theorem ClearInv.update (h : ClearInv procAlive M s n V R) (t : T) {n' : ℕ}
    {V' : ℕ → ShrregProcSlot} {R' : Multiset ShrregProcSlot} {m : SlotTable}
    {my : Pid → Option ℕ} {pc : AccessPc} (hnum : m.procNum = n')
    (hdropped : ∀ x ∈ R', ShrregProcSlot.Droppable procAlive x) (hslots : window V' 0 n' + R' = M)
    (hlocal : pc.Local n' m.procs) (hmove : ∀ x ∈ pc.move n', x.Ok n' V' m.procs)
    (hothers : ∀ t', t' ≠ t → (s.pc t').move n' = (s.pc t').move n ∧ (s.pc t').Local n' m.procs ∧
      ∀ y ∈ (s.pc t').move n, y.Ok n' V' m.procs ∧ ∀ x ∈ pc.move n', x.Apart y)
    (hsettled : ∀ i < n', (∀ x ∈ pc.move n', x.hole ≠ i) →
      (∀ t', t' ≠ t → ∀ x ∈ (s.pc t').move n, x.hole ≠ i) → V' i = m.procs i) :
    ClearInv procAlive M ⟨m, my, s.alive, Function.update s.pc t pc⟩ n' V' R' where
  procNum := hnum
  dropped := hdropped
  slots := hslots
  settled := by
    intro i hi hfree
    refine hsettled i hi (fun x hx => hfree t x ?_) fun t' ht' x hx => hfree t' x ?_
    · show x ∈ (Function.update s.pc t pc t).move n'
      rwa [Function.update_self]
    · show x ∈ (Function.update s.pc t pc t').move n'
      rwa [Function.update_of_ne ht', (hothers t' ht').1]
  moving := by
    intro t' x hx
    by_cases ht' : t' = t
    · subst ht'
      have hx' : x ∈ (Function.update s.pc t' pc t').move n' := hx
      rw [Function.update_self] at hx'
      exact hmove x hx'
    · have hx' : x ∈ (Function.update s.pc t pc t').move n' := hx
      rw [Function.update_of_ne ht', (hothers t' ht').1] at hx'
      exact ((hothers t' ht').2.2 x hx').1
  apart := by
    intro t₁ t₂ hne x hx y hy
    have hx' : x ∈ (Function.update s.pc t pc t₁).move n' := hx
    have hy' : y ∈ (Function.update s.pc t pc t₂).move n' := hy
    by_cases h₁ : t₁ = t
    · have h₂ : t₂ ≠ t := fun h₂ => hne (h₁.trans h₂.symm)
      rw [h₁, Function.update_self] at hx'
      rw [Function.update_of_ne h₂, (hothers t₂ h₂).1] at hy'
      exact ((hothers t₂ h₂).2.2 y hy').2 x hx'
    · rw [Function.update_of_ne h₁, (hothers t₁ h₁).1] at hx'
      by_cases h₂ : t₂ = t
      · rw [h₂, Function.update_self] at hy'
        exact (((hothers t₁ h₁).2.2 x hx').2 y hy').symm
      · rw [Function.update_of_ne h₂, (hothers t₂ h₂).1] at hy'
        exact h.apart t₁ t₂ hne x hx' y hy'
  locals := by
    intro t'
    show (Function.update s.pc t pc t').Local n' m.procs
    by_cases ht' : t' = t
    · rw [ht', Function.update_self]
      exact hlocal
    · rw [Function.update_of_ne ht']
      exact (hothers t' ht').2.1

/-- An access that changes neither the table nor the thread's copy. -/
theorem ClearInv.of_move_eq (h : ClearInv procAlive M s n V R) {t : T} {my : Pid → Option ℕ}
    {pc : AccessPc} (hmove : pc.move n = (s.pc t).move n) (hlocal : pc.Local n s.table.procs) :
    ClearInv procAlive M ⟨s.table, my, s.alive, Function.update s.pc t pc⟩ n V R := by
  refine h.update t h.procNum h.dropped h.slots hlocal ?_ ?_ ?_
  · rw [hmove]
    exact h.moving t
  · intro t' ht'
    refine ⟨rfl, h.locals t', fun y hy => ⟨h.moving t' y hy, fun x hx => ?_⟩⟩
    rw [hmove] at hx
    exact h.apart t t' ht'.symm x hx y hy
  · intro i hi hself hothers
    refine h.settled i hi fun t' => ?_
    by_cases ht' : t' = t
    · rw [ht', ← hmove]
      exact hself
    · exact hothers t' ht'

/-- **The decrement**: the intended table drops the hole. -/
theorem ClearInv.decrement (h : ClearInv procAlive M s n V R) {t : T} {d : ℤ} {l : ClearLocals}
    (hpc : s.pc t = .clear d (.decrement l)) (hdrop : s.table.Drops procAlive l)
    (hfree : ∀ t', ¬ (s.pc t').atLoadTail ∧ ∀ x ∈ (s.pc t').move s.table.procNum.toNat,
      x.hole ≠ l.slot ∧ (x.hole : ℤ) ≠ s.table.procNum - 1) (my : Pid → Option ℕ) :
    ∃ n' V' R', ClearInv procAlive M ⟨{ s.table with procNum := s.table.procNum - 1 }, my, s.alive,
      Function.update s.pc t (.clear d (.loadTail l))⟩ n' V' R' := by
  obtain ⟨hlt, hdroppable⟩ := hdrop
  rw [h.procNum] at hlt hfree
  have hlt' : l.slot < n := by exact_mod_cast hlt
  obtain ⟨k, rfl⟩ : ∃ k, n = k + 1 := ⟨n - 1, by omega⟩
  have hhole : ∀ t', ∀ x ∈ (s.pc t').move (k + 1), x.hole ≠ l.slot ∧ x.hole ≠ k := by
    intro t' x hx
    obtain ⟨hslot, htail⟩ := (hfree t').2 x hx
    refine ⟨hslot, fun hk => htail ?_⟩
    rw [hk]
    push_cast
    omega
  have hVslot : V l.slot = s.table.procs l.slot :=
    h.settled _ hlt' fun t' x hx => (hhole t' x hx).1
  have hVtail : V k = s.table.procs k :=
    h.settled k (Nat.lt_succ_self k) fun t' x hx => (hhole t' x hx).2
  refine ⟨k, Function.update V l.slot (V k), s.table.procs l.slot ::ₘ R,
    h.update t ?_ ?_ ?_ trivial ?_ ?_ ?_⟩
  · show s.table.procNum - 1 = k
    rw [h.procNum]
    push_cast
    omega
  · intro x hx
    rcases Multiset.mem_cons.mp hx with rfl | hx
    · exact hdroppable
    · exact h.dropped x hx
  · rw [← h.slots, window_succ_eq_cons (Nat.zero_le _) (Nat.le_of_lt_succ hlt'), hVslot,
      Multiset.add_cons, Multiset.cons_add]
  · rintro x ⟨⟩
    refine ⟨le_rfl, (Nat.le_of_lt_succ hlt').lt_or_eq, fun _ => ?_, copyInto_copyFields _ _⟩
    show Function.update V l.slot (V k) l.slot = _
    rw [Function.update_self, hVtail]
  · intro t' ht'
    refine ⟨AccessPc.move_of_not_atLoadTail (hfree t').1 _ _,
      (h.locals t').frame (Nat.le_succ k) fun _ _ => rfl, fun y hy => ⟨?_, ?_⟩⟩
    · refine (h.moving t' y hy).frame (Nat.le_succ k) (fun hyk => ?_) (fun _ => ?_) rfl rfl
      · have := (hhole t' y hy).2
        omega
      · exact Function.update_of_ne (hhole t' y hy).1 _ _
    · rintro x ⟨⟩
      have hy' := (h.moving t' y hy).le_tail
      refine ⟨fun he => (hhole t' y hy).1 he.symm, ?_, (hhole t' y hy).2⟩
      show l.slot ≠ y.tail
      omega
  · intro i hi hself hothers
    have hil : i ≠ l.slot := fun he => hself ⟨l.slot, k, copyFields⟩ rfl he.symm
    rw [Function.update_of_ne hil]
    refine h.settled i (by omega) fun t' x hx => ?_
    by_cases ht' : t' = t
    · rw [ht', hpc] at hx
      exact absurd hx (by simp [AccessPc.move])
    · exact hothers t' ht' x hx

/-- **A store of the copy**: one field less to do, the intended table unchanged. -/
theorem ClearInv.copyStore (h : ClearInv procAlive M s n V R) {t : T} {d : ℤ} {l : ClearLocals}
    {tail : ℕ} {f : SlotField} {fs : List SlotField} {v : f.Val}
    (hpc : s.pc t = .clear d (.copyStore l tail f fs v)) (my : Pid → Option ℕ) :
    ClearInv procAlive M ⟨s.table.setField l.slot f v, my, s.alive,
      Function.update s.pc t (.clear d (.copying l tail fs))⟩ n V R := by
  have hx : (⟨l.slot, tail, f :: fs⟩ : SlotMove) ∈ (s.pc t).move n := by rw [hpc]; rfl
  have hok := h.moving t _ hx
  have hv : v = f.get (s.table.procs tail) := by
    have := h.locals t
    rwa [hpc] at this
  subst hv
  have htail := SlotTable.setField_get s.table l.slot tail f
  have htodo : copyInto (s.table.procs tail) fs
      ((s.table.setField l.slot f (f.get (s.table.procs tail))).procs l.slot) =
        s.table.procs tail := by
    rw [SlotTable.setField_procs_self]
    exact hok.todo
  have hframe : ∀ i, i ≠ l.slot →
      (s.table.setField l.slot f (f.get (s.table.procs tail))).procs i = s.table.procs i :=
    fun i hi => SlotTable.setField_procs_of_ne _ hi _ _
  refine h.update t h.procNum h.dropped h.slots AccessPc.local_copying ?_ ?_ ?_
  · intro y hy
    obtain rfl := AccessPc.mem_move_copying hy
    refine ⟨hok.le_tail, hok.hole_lt, ?_, ?_⟩
    · rw [htail]
      exact hok.target
    · rw [htail]
      exact htodo
  · intro t' ht'
    have hap : ∀ y ∈ (s.pc t').move n, SlotMove.Apart ⟨l.slot, tail, f :: fs⟩ y :=
      fun y hy => h.apart t t' ht'.symm _ hx y hy
    refine ⟨rfl, (h.locals t').frame le_rfl fun y hy => hframe _ (hap y hy).left.symm,
      fun y hy => ⟨?_, fun z hz => ?_⟩⟩
    · exact (h.moving t' y hy).frame le_rfl id (fun _ => rfl) (hframe _ (hap y hy).hole.symm)
        (hframe _ (hap y hy).left.symm)
    · obtain rfl := AccessPc.mem_move_copying hz
      exact ⟨(hap y hy).hole, (hap y hy).left, (hap y hy).right⟩
  · intro i hi hself hothers
    by_cases hil : i = l.slot
    · -- the hole is settled only when the copy is complete
      subst hil
      cases fs with
      | cons g gs => exact absurd rfl (hself ⟨l.slot, tail, g :: gs⟩ rfl)
      | nil =>
        rw [hok.target hi]
        exact htodo.symm
    · rw [hframe i hil]
      refine h.settled i hi fun t' y hy => ?_
      by_cases ht' : t' = t
      · rw [ht', hpc] at hy
        obtain rfl : (⟨l.slot, tail, f :: fs⟩ : SlotMove) = y := Option.some.inj hy
        exact fun he => hil he.symm
      · exact hothers t' ht' y hy

/-- **A zeroing store** hits no registered slot and no slot of a copy under way. -/
theorem ClearInv.zeroStore (h : ClearInv procAlive M s n V R) {t : T} {d : ℤ} {l : ClearLocals}
    {i : ℕ} {f : SlotField} {fs : List SlotField} (hpc : s.pc t = .clear d (.zeroStore l i f fs))
    (hfree : ∀ t', ∀ x ∈ (s.pc t').move s.table.procNum.toNat, x.tail ≠ i) (my : Pid → Option ℕ) :
    ClearInv procAlive M ⟨s.table.setField i f f.zero, my, s.alive,
      Function.update s.pc t (.clear d (.zeroing l fs))⟩ n V R := by
  rw [h.procNum] at hfree
  have hni : n ≤ i := by
    have := h.locals t
    rwa [hpc] at this
  have hhole : ∀ t', ∀ x ∈ (s.pc t').move n, x.hole ≠ i := by
    intro t' x hx
    rcases (h.moving t' x hx).hole_lt with hlt | he
    · omega
    · rw [he]
      exact hfree t' x hx
  have hframe : ∀ j, j ≠ i → (s.table.setField i f f.zero).procs j = s.table.procs j :=
    fun j hj => SlotTable.setField_procs_of_ne _ hj _ _
  have hnone : (AccessPc.clear d (.zeroing l fs)).move n = none :=
    AccessPc.move_of_outside (ClearPc.zeroing_outside l fs) n
  have hold : (s.pc t).move n = none := by
    rw [hpc]
    rfl
  refine h.update t h.procNum h.dropped h.slots
    (AccessPc.local_of_outside (ClearPc.zeroing_outside l fs)) ?_ ?_ ?_
  · rw [hnone]
    rintro x ⟨⟩
  · intro t' _
    refine ⟨rfl, (h.locals t').frame le_rfl fun y hy => hframe _ (hfree t' y hy),
      fun y hy => ⟨?_, ?_⟩⟩
    · exact (h.moving t' y hy).frame le_rfl id (fun _ => rfl) (hframe _ (hhole t' y hy))
        (hframe _ (hfree t' y hy))
    · rw [hnone]
      rintro x ⟨⟩
  · intro j hj _ hothers
    rw [hframe j (by omega)]
    refine h.settled j hj fun t' x hx => ?_
    by_cases ht' : t' = t
    · rw [ht', hold] at hx
      exact absurd hx (by simp)
    · exact hothers t' ht' x hx

/-- **One access of a compaction** keeps the invariant. -/
theorem ClearInv.access (h : ClearInv procAlive M s n V R) {t : T} {answer : ProcState} {d : ℤ}
    {pc pc' : ClearPc} {m : SlotTable} (hpc : s.pc t = .clear d pc)
    (hok : s.Undisturbed procAlive (.access t answer)) (hmove : ClearMove s.table pc m pc')
    (my : Pid → Option ℕ) :
    ∃ n' V' R', ClearInv procAlive M ⟨m, my, s.alive, Function.update s.pc t (.clear d pc')⟩
      n' V' R' := by
  have hnum := h.procNum
  cases hmove with
  | look hout hout' =>
    refine ⟨n, V, R, h.of_move_eq ?_ (AccessPc.local_of_outside hout')⟩
    rw [hpc, AccessPc.move_of_outside hout, AccessPc.move_of_outside hout']
  | decrement l =>
    simp only [AccessState.Undisturbed, hpc] at hok
    exact h.decrement hpc hok.1 hok.2 my
  | loadTail l htail =>
    obtain rfl : n = _ := Nat.cast_inj.mp (hnum.symm.trans htail)
    exact ⟨n, V, R, h.of_move_eq (by rw [hpc]; rfl) trivial⟩
  | copyLoad l tail f fs => exact ⟨n, V, R, h.of_move_eq (by rw [hpc]; rfl) rfl⟩
  | copyStore l tail f fs v => exact ⟨n, V, R, h.copyStore hpc my⟩
  | zeroLoad l f fs hi =>
    obtain rfl : n = _ := Nat.cast_inj.mp (hnum.symm.trans hi)
    exact ⟨n, V, R, h.of_move_eq (by rw [hpc]; rfl) le_rfl⟩
  | zeroStore l i f fs =>
    simp only [AccessState.Undisturbed, hpc] at hok
    exact ⟨n, V, R, h.zeroStore hpc hok my⟩

/-- A thread outside the operations is committed to no copy. -/
theorem AccessPc.move_of_finished {pc : AccessPc} (h : pc.finished = true) (k : ℕ) :
    pc.move k = none := by
  cases pc with
  | clear d pc =>
    cases pc with
    | loadTail l => exact absurd h (by simp [finished])
    | copyLoad l tail f fs => exact absurd h (by simp [finished])
    | copyStore l tail f fs v => exact absurd h (by simp [finished])
    | _ => rfl
  | _ => rfl

/-- **One step** of the machine keeps the invariant. -/
theorem ClearInv.step {pidOf : T → Pid} {s' : AccessState T} {a : AccessLabel T}
    (h : ClearInv procAlive M s n V R) (hclear : s.ClearOnly procAlive a)
    (hok : s.Undisturbed procAlive a) (hst : s.step pidOf a = some s') :
    ∃ n' V' R', ClearInv procAlive M s' n' V' R' := by
  rcases AccessState.step_eq_some hst with ⟨t, c, rfl, -, hfin, rfl⟩ |
    ⟨t, answer, m, my, pc, rfl, -, hacc, rfl⟩ | ⟨p, rfl, -, -⟩
  · cases c with
    | clear d =>
      refine ⟨n, V, R, h.of_move_eq ?_ trivial⟩
      rw [AccessPc.move_of_finished hfin]
      rfl
    | update u => exact absurd hclear id
    | usage dev => exact absurd hclear id
  · have hlocal := h.locals t
    -- another operation has returned, so it makes no access
    have hdone : (s.pc t).finished = true → False := fun hfin => by
      rw [threadAccess_of_finished hfin] at hacc
      exact absurd hacc (by simp)
    rcases threadAccess_eq_some hacc with ⟨d, c, c', hpc, rfl, hclr⟩ | ⟨u, u', hpc, -, -⟩ |
      ⟨dev, r, r', hpc, -, -⟩
    · exact h.access hpc hok (clearMove_of_clearAccess hclr) _
    · rw [hpc] at hlocal hdone
      exact absurd hlocal hdone
    · rw [hpc] at hlocal hdone
      exact absurd hlocal hdone
  · exact absurd hclear id

omit [DecidableEq T] in
/-- Before anybody calls, the table is the intended one. -/
theorem AccessState.Quiet.clearInv (hs : s.Quiet) (hnum : 0 ≤ s.table.procNum) :
    ClearInv procAlive s.slots s s.table.procNum.toNat s.table.procs 0 where
  procNum := (Int.toNat_of_nonneg hnum).symm
  dropped := by simp
  slots := by simp [slots]
  settled _ _ _ := rfl
  moving := by
    intro t x hx
    rw [AccessPc.move_of_finished (hs t)] at hx
    exact absurd hx (by simp)
  apart := by
    intro t t' _ x hx
    rw [AccessPc.move_of_finished (hs t)] at hx
    exact absurd hx (by simp)
  locals := by
    intro t
    have ht := hs t
    cases hpc : s.pc t with
    | clear d pc =>
      cases pc with
      | returned res => trivial
      | _ =>
        rw [hpc] at ht
        exact absurd ht (by simp [AccessPc.finished])
    | idle => trivial
    | update pc => rwa [hpc] at ht
    | usage dev pc => rwa [hpc] at ht

end Step

/-! ## Whole runs -/

/-- **No live slot is lost.**  The slots that are neither exited nor dead are all still registered,
unchanged and as often as before; what is gone was droppable, and `proc_num` counts what is left. -/
structure AccessState.LiveSlotsKept (procAlive : Pid → ProcState) (s s' : AccessState T) :
    Prop where
  live : s'.slots.filter (fun x => ¬ x.Droppable procAlive) =
    s.slots.filter fun x => ¬ x.Droppable procAlive
  dropped : ∃ R, (∀ x ∈ R, ShrregProcSlot.Droppable procAlive x) ∧ s'.slots + R = s.slots
  procNum : s'.table.procNum = Multiset.card s'.slots

/-- When everybody has returned, the array is the intended table. -/
theorem ClearInv.liveSlotsKept {procAlive : Pid → ProcState} {s s' : AccessState T} {n : ℕ}
    {V : ℕ → ShrregProcSlot} {R : Multiset ShrregProcSlot}
    (h : ClearInv procAlive s.slots s' n V R) (hquiet : s'.Quiet) :
    s.LiveSlotsKept procAlive s' := by
  have hV : window V 0 n = s'.slots := by
    have hn : s'.table.procNum.toNat = n := by
      rw [h.procNum]
      rfl
    rw [AccessState.slots, hn]
    refine window_congr fun i _ hi => h.settled i hi fun t x hx => ?_
    rw [AccessPc.move_of_finished (hquiet t)] at hx
    exact absurd hx (by simp)
  have hslots := h.slots
  rw [hV] at hslots
  refine ⟨?_, ⟨R, h.dropped, hslots⟩, ?_⟩
  · rw [← hslots, Multiset.filter_add]
    have hR : R.filter (fun x => ¬ x.Droppable procAlive) = 0 :=
      Multiset.filter_eq_nil.mpr fun x hx => not_not.mpr (h.dropped x hx)
    rw [hR, add_zero]
  · rw [← hV, card_window, Nat.sub_zero, h.procNum]

section Run

variable [DecidableEq T]

/-- **Concurrent compactions keep every live slot as long as they stay out of each other's way.** -/
theorem live_slots_kept {pidOf : T → Pid} {procAlive : Pid → ProcState} {s s' : AccessState T}
    (hs : s.Quiet) (hnum : 0 ≤ s.table.procNum)
    (hrun : GuardedRun (AccessState.step pidOf)
      (fun s a => s.ClearOnly procAlive a ∧ s.Undisturbed procAlive a) s s')
    (hs' : s'.Quiet) : s.LiveSlotsKept procAlive s' := by
  have hinv : ∃ n V R, ClearInv procAlive s.slots s' n V R := by
    refine GuardedRun.invariant (P := fun u => ∃ n V R, ClearInv procAlive s.slots u n V R)
      (fun u a u' hI hok hst => ?_) hrun ⟨_, _, _, hs.clearInv hnum⟩
    obtain ⟨n, V, R, hI⟩ := hI
    exact hI.step hok.1 hok.2 hst
  obtain ⟨n, V, R, hI⟩ := hinv
  exact hI.liveSlotsKept hs'

/-- A stretch of a compaction by one thread meets the condition when nobody else is in the middle of
a removal. -/
theorem AccessState.undisturbed_withClear {s : AccessState T} {pidOf : T → Pid} {t : T}
    {procAlive : Pid → ProcState} {d : ℤ} {x : ClearConfig} {answer : ProcState}
    (hothers : ∀ t', t' ≠ t → ∀ k, (s.pc t').move k = none)
    (h : x.2.2.Allowed procAlive (SlotTable.Drops procAlive) x.1 answer) :
    (s.withClear pidOf t d x).ClearOnly procAlive (.access t answer) ∧
      (s.withClear pidOf t d x).Undisturbed procAlive (.access t answer) := by
  obtain ⟨m, my, pc⟩ := x
  have hpc : (s.withClear pidOf t d (m, my, pc)).pc t = .clear d pc := Function.update_self _ _ _
  have hpc' : ∀ t', t' ≠ t → (s.withClear pidOf t d (m, my, pc)).pc t' = s.pc t' :=
    fun t' ht' => Function.update_of_ne ht' _ _
  -- `t` itself is committed to no copy where the condition asks something of it
  have hnone : (AccessPc.clear d pc).move m.procNum.toNat = none → ∀ t',
      ((s.withClear pidOf t d (m, my, pc)).pc t').move m.procNum.toNat = none := by
    intro hself t'
    by_cases ht' : t' = t
    · rw [ht', hpc]
      exact hself
    · rw [hpc' t' ht']
      exact hothers t' ht' _
  have hload : ∀ {pc' : AccessPc} {k : ℕ}, pc'.move k = none → ¬ pc'.atLoadTail := by
    intro pc' k hk
    cases pc' with
    | clear d' pc' =>
      cases pc' with
      | loadTail l => exact absurd hk (by simp [AccessPc.move])
      | _ => exact id
    | _ => exact id
  constructor
  · simp only [ClearOnly, hpc]
    cases pc with
    | probe l pid => exact h
    | _ => trivial
  · simp only [Undisturbed, hpc]
    cases pc with
    | decrement l =>
      refine ⟨h, fun t' => ?_⟩
      have ht' := hnone rfl t'
      refine ⟨hload ht', fun x hx => ?_⟩
      exact absurd (ht' ▸ hx) (by simp)
    | zeroStore l i f fs =>
      intro t' x hx
      exact absurd (hnone rfl t' ▸ hx) (by simp)
    | _ => trivial

/-- **A call that nobody else's removal overlaps meets the condition throughout**, and does what the
region-level function says. -/
theorem AccessState.run_clear (pidOf : T → Pid) (procAlive : Pid → ProcState) (s : AccessState T)
    (t : T) (d : ℤ) (info : RegionInfo) (hlive : s.alive (pidOf t) = true)
    (hothers : ∀ t', t' ≠ t → ∀ k, (s.pc t').move k = none)
    (hpc : s.pc t = .clear d (.test ⟨0, 0, 0, 0⟩)) (htable : s.table = info.sharedRegion.table)
    (hmy : s.mySlot (pidOf t) = info.mySlot) :
    GuardedRun (AccessState.step pidOf)
      (fun s a => s.ClearOnly procAlive a ∧ s.Undisturbed procAlive a) s
      (s.withClear pidOf t d ((clearProcSlotNolock procAlive d info).1.sharedRegion.table,
        (clearProcSlotNolock procAlive d info).1.mySlot,
        .returned (clearProcSlotNolock procAlive d info).2)) := by
  refine ClearRun.lift_of_pc (run_clearProcSlotNolock procAlive d info) hlive htable hmy hpc ?_
  intro z answer hz
  exact AccessState.undisturbed_withClear hothers hz

end Run

/-- A table whose first process has exited, with processes 2 and 3 behind it. -/
def exitedFirst : SharedRegion where
  limit := fun _ => 0
  procs := fun i => { ShrregProcSlot.blank with
    pid := if i = 1 then 2 else if i = 2 then 3 else 0
    status := if i = 1 ∨ i = 2 then 1 else 0 }
  procNum := 3

/-- Two threads, one in process 2 and one in process 3. -/
def twoCallers : Bool → Pid
  | false => 2
  | true => 3

/-- The machine over that table, before anybody calls. -/
def exitedFirstState : AccessState Bool where
  table := exitedFirst.table
  mySlot := fun p => if p = 2 then some 1 else if p = 3 then some 2 else none
  alive := fun _ => true
  pc := fun _ => .idle

/-- Both of them have entered a compaction. -/
def bothEntered : AccessState Bool :=
  { exitedFirstState with pc := fun _ => .clear 1 (.test ⟨0, 0, 0, 0⟩) }

theorem run_bothEntered : GuardedRun (AccessState.step twoCallers)
    (fun s a => s.ClearOnly (fun _ => .alive) a ∧ s.Undisturbed (fun _ => .alive) a)
    exitedFirstState bothEntered := by
  refine ((GuardedRun.refl _).tail (a := .call false (.clear 1)) ⟨trivial, trivial⟩ rfl).tail
    (a := .call true (.clear 1)) ⟨trivial, trivial⟩ ?_
  refine congrArg some (congrArg (AccessState.mk _ _ _) (funext fun t => ?_))
  cases t <;> rfl

/-- What process 2 leaves when it compacts first, as process 3 then sees it. -/
def compactedByFirst : RegionInfo :=
  ⟨3, (clearProcSlotNolock (fun _ => .alive) 1 ⟨2, exitedFirst, some 1⟩).1.sharedRegion, some 2⟩

/-- Both processes are inside the call at the same time, but their removals do not overlap. -/
theorem live_slots_kept_oneAfterTheOther :
    ∃ s' : AccessState Bool, s'.table.procNum = 2 ∧ s'.Quiet ∧
      exitedFirstState.LiveSlotsKept (fun _ => .alive) s' := by
  have hfirst := AccessState.run_clear twoCallers (fun _ => .alive) bothEntered false 1
    ⟨2, exitedFirst, some 1⟩ rfl (fun _ _ _ => rfl) rfl rfl rfl
  have hsecond := AccessState.run_clear twoCallers (fun _ => .alive)
    (bothEntered.withClear twoCallers false 1 (compactedByFirst.sharedRegion.table,
      (clearProcSlotNolock (fun _ => .alive) 1 ⟨2, exitedFirst, some 1⟩).1.mySlot,
      .returned (clearProcSlotNolock (fun _ => .alive) 1 ⟨2, exitedFirst, some 1⟩).2))
    true 1 compactedByFirst rfl (fun t' _ _ => by cases t' <;> rfl) rfl rfl rfl
  have hquiet : ∀ {s : AccessState Bool} {x y : ClearConfig} {i j : ℕ}, x.2.2 = .returned i →
      y.2.2 = .returned j →
      ((s.withClear twoCallers false 1 x).withClear twoCallers true 1 y).Quiet := by
    rintro s ⟨m, my, pc⟩ ⟨m', my', pc'⟩ i j ⟨⟩ ⟨⟩ t
    cases t <;> rfl
  refine ⟨_, ?_, hquiet rfl rfl, live_slots_kept (fun _ => rfl) (by decide)
    (run_bothEntered.trans (hfirst.trans hsecond)) (hquiet rfl rfl)⟩
  show ((clearProcSlotNolock (fun _ => .alive) 1 compactedByFirst).1.sharedRegion.procNum : ℤ) = 2
  decide +kernel

/-- The locals of a call that has found a slot of pid `0` at position `0`. -/
def foundExited : ClearLocals := ⟨0, 1, 1, 0⟩

/-- Both processes have loaded the pid of slot `0` and decided to drop it. -/
def bothDecided : AccessState Bool :=
  (bothEntered.withClear twoCallers false 1
    (exitedFirst.table, some 1, .decrement foundExited)).withClear twoCallers true 1
      (exitedFirst.table, some 2, .decrement foundExited)

/-- A removal that was decided on, and the rest of the call. -/
def removeAndFinish (info : RegionInfo) : RegionInfo × ClearLocals :=
  clearLoop (fun _ => .alive) 1 (removeSlot info 0).sharedRegion.procNum (removeSlot info 0)
    foundExited

theorem run_removeAndFinish (info : RegionInfo) (h : 0 < info.sharedRegion.procNum) :
    ClearRun (fun _ => .alive) (fun _ _ => True) 1
      (info.sharedRegion.table, info.mySlot, .decrement foundExited)
      ((removeAndFinish info).1.sharedRegion.table, (removeAndFinish info).1.mySlot,
        .returned (removeAndFinish info).2.res) := by
  refine (run_removeSlot (fun _ => .alive) _ 1 h trivial).trans ?_
  exact ClearRun.mono (fun _ _ _ => trivial)
    (run_clearLoop_returned (fun _ => .alive) 1 (Nat.sub_le _ _))

/-- The table once process 2 has finished, as process 3 sees it. -/
def removedByFirst : RegionInfo :=
  ⟨3, (removeAndFinish ⟨2, exitedFirst, some 1⟩).1.sharedRegion, some 2⟩

/-- And once process 3 has dropped the same position again. -/
def removedTwice : AccessState Bool :=
  (bothDecided.withClear twoCallers false 1 (removedByFirst.sharedRegion.table,
    (removeAndFinish ⟨2, exitedFirst, some 1⟩).1.mySlot,
    .returned (removeAndFinish ⟨2, exitedFirst, some 1⟩).2.res)).withClear twoCallers true 1
      ((removeAndFinish removedByFirst).1.sharedRegion.table,
        (removeAndFinish removedByFirst).1.mySlot, .returned (removeAndFinish removedByFirst).2.res)

theorem run_removedTwice : GuardedRun (AccessState.step twoCallers)
    (fun s a => s.ClearOnly (fun _ => .alive) a) exitedFirstState removedTwice := by
  have hok : ∀ (s : AccessState Bool) (t : Bool) (z : ClearConfig) (answer : ProcState),
      z.2.2.Allowed (fun _ => .alive) (fun _ _ => True) z.1 answer →
      (s.withClear twoCallers t 1 z).ClearOnly (fun _ => .alive) (.access t answer) := by
    intro s t z answer hz
    have hpc : (s.withClear twoCallers t 1 z).pc t = .clear 1 z.2.2 := Function.update_self _ _ _
    simp only [AccessState.ClearOnly, hpc]
    exact hz
  have hdecide : ∀ my : Option ℕ, ClearRun (fun _ => .alive) (fun _ _ => True) 1
      (exitedFirst.table, my, .test ⟨0, 0, 0, 0⟩)
      (exitedFirst.table, my, .decrement foundExited) := by
    intro my
    have htest : ClearConfig.step 1 (exitedFirst.table, my, .test ⟨0, 0, 0, 0⟩) .alive =
        some (exitedFirst.table, my, .loadPid ⟨0, 0, 0, 0⟩) := rfl
    exact ((GuardedRun.refl _).tail trivial htest).tail (a := .alive) trivial rfl
  have hentered := run_bothEntered.mono fun _ _ h => h.1
  refine hentered.trans (GuardedRun.trans (t := bothDecided) ?_ ?_)
  · refine (ClearRun.lift_of_pc (hdecide (some 1)) (t := false) rfl rfl rfl rfl
      (hok _ false)).trans ?_
    exact ClearRun.lift_of_pc (hdecide (some 2)) (t := true) rfl rfl rfl rfl (hok _ true)
  · have hfirst : 0 < exitedFirst.procNum := by decide
    have hsecond : 0 < removedByFirst.sharedRegion.procNum := by decide +kernel
    refine (ClearRun.lift_of_pc (run_removeAndFinish ⟨2, exitedFirst, some 1⟩ hfirst)
      (t := false) rfl rfl rfl rfl (hok _ false)).trans ?_
    exact ClearRun.lift_of_pc (run_removeAndFinish removedByFirst hsecond) (t := true) rfl rfl rfl
      rfl (hok _ true)

/-- **Two processes that decide on the same hole lose a live slot.**  Of the two live slots of the
table one is left. -/
theorem live_slot_lost :
    ¬ ∀ s s' : AccessState Bool, s.Quiet → 0 ≤ s.table.procNum →
      GuardedRun (AccessState.step twoCallers) (fun s a => s.ClearOnly (fun _ => .alive) a) s s' →
      s'.Quiet → s.LiveSlotsKept (fun _ => .alive) s' := by
  intro hall
  have hquiet : removedTwice.Quiet := by
    intro t
    cases t <;> rfl
  have hkept := hall _ _ (fun _ => rfl) (by decide) run_removedTwice hquiet
  have hcard := congrArg Multiset.card hkept.live
  have hbefore : Multiset.card (exitedFirstState.slots.filter
      fun x => ¬ x.Droppable fun _ => .alive) = 2 := by
    decide +kernel
  have hafter : Multiset.card removedTwice.slots = 1 := by
    rw [AccessState.slots, card_window]
    decide +kernel
  rw [hbefore] at hcard
  have hle := Multiset.card_le_card (Multiset.filter_le
    (fun x => ¬ x.Droppable fun _ => ProcState.alive) removedTwice.slots)
  omega

end HamiCore
