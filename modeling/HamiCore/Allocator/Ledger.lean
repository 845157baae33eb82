import Mathlib.Algebra.BigOperators.Group.List.Basic
import HamiCore.Library.GuardedRun
import HamiCore.Allocator.Chunk

/-!
# The ledger of tracked memory

A process keeps two records of its device memory: the list of tracked chunks and the counters of its
slot.  The counters are what other processes see, the list is what a free is looked up in, and four
operations with early returns, a rollback and a first-match removal have to keep them in step.

What a call can do to the two records is said once, by `BooksMove`: compact the slot table around
the caller, append an entry and charge it, or take the first entry with an address out and release
it.  `Ledger` is the invariant: over the counters at the start, each device has grown by the lengths
of the tracked entries that map to it, in the arithmetic of the machine.
-/

namespace HamiCore

/-- The compactions a live caller makes: none of them drops the caller. -/
def SelfCompacts : RegionInfo → RegionInfo → Prop :=
  Relation.ReflTransGen fun info info' =>
    ∃ procAlive : Pid → ProcState, procAlive info.pid ≠ .nonalive ∧
      info' = (clearProcSlotNolock procAlive 1 info).1

theorem SelfCompacts.pid_eq {info info' : RegionInfo} (h : SelfCompacts info info') :
    info'.pid = info.pid := by
  induction h with
  | refl => rfl
  | tail _ hstep ih =>
    obtain ⟨procAlive, -, rfl⟩ := hstep
    rw [clearProcSlotNolock_pid, ih]

theorem Compacts.selfCompacts {procAlive : ℕ → Pid → ProcState} {info info' : RegionInfo}
    (h : Compacts procAlive info info') (hself : ∀ n, procAlive n info.pid ≠ .nonalive) :
    SelfCompacts info info' := by
  induction h with
  | refl => exact Relation.ReflTransGen.refl
  | tail _ hstep ih =>
    obtain ⟨n, rfl⟩ := hstep
    refine Relation.ReflTransGen.tail ih ⟨procAlive n, ?_, rfl⟩
    rw [SelfCompacts.pid_eq ih]
    exact hself n

/-- The caller keeps its slot. -/
theorem SelfCompacts.pointsAt {info info' : RegionInfo} (h : SelfCompacts info info')
    {s : ShrregProcSlot} (hpid : s.pid = info.pid) (h0 : info.pid ≠ 0) (hs : info.PointsAt s) :
    info'.PointsAt s := by
  induction h with
  | refl => exact hs
  | tail hrun hstep ih =>
    obtain ⟨procAlive, hself, rfl⟩ := hstep
    rw [SelfCompacts.pid_eq hrun, ← hpid] at hself
    refine clearProcSlotNolock_pointsAt ?_ ih
    rintro (hzero | hdead)
    · exact h0 (hpid.symm.trans hzero)
    · exact hself hdead

theorem SelfCompacts.seqlocksEven {info info' : RegionInfo} (h : SelfCompacts info info')
    (heven : info.sharedRegion.SeqlocksEven) : info'.sharedRegion.SeqlocksEven := by
  induction h with
  | refl => exact heven
  | tail _ hstep ih =>
    obtain ⟨procAlive, -, rfl⟩ := hstep
    exact clearProcSlotNolock_seqlocksEven ih

/-! ## What a call does to the books -/

/-- The two records of a process. -/
abbrev Books := RegionInfo × List AllocatedDeviceMemory

/-- The two records in an allocator state. -/
def Allocator.books (a : Allocator) : Books := (a.info, a.deviceOverallocated)

/-- What a call can do to the two records. -/
inductive BooksMove (cudaToNvmlMap : Dev → Dev) (b : Books) : Books → Prop where
  | keep {info : RegionInfo} : SelfCompacts b.1 info → BooksMove cudaToNvmlMap b (info, b.2)
  | add {info : RegionInfo} (e : AllocatedDeviceMemory) : SelfCompacts b.1 info →
      BooksMove cudaToNvmlMap b
        ((addGpuDeviceMemoryUsage cudaToNvmlMap info info.pid e.dev e.length 2).1, b.2 ++ [e])
  | remove (dptr : UInt64) (e : AllocatedDeviceMemory) :
      (b.2.find? fun val => val.address = dptr) = some e →
      BooksMove cudaToNvmlMap b
        ((rmGpuDeviceMemoryUsage cudaToNvmlMap b.1 b.1.pid e.dev e.length 2).1,
          b.2.eraseP fun val => val.address = dptr)

section Calls

variable {cudaToNvmlMap : Dev → Dev} {a a' : Allocator} {ret : ℤ}

@[simp] theorem Allocator.books_unlock (a : Allocator) : a.unlock.books = a.books := rfl

@[simp] theorem Allocator.books_driverFree (a : Allocator) (ok : Bool) (address : UInt64) :
    (a.driverFree ok address).books = a.books := by
  unfold Allocator.driverFree
  split_ifs <;> rfl

@[simp] theorem Allocator.mutexHeld_driverFree (a : Allocator) (ok : Bool) (address : UInt64) :
    (a.driverFree ok address).mutexHeld = a.mutexHeld := by
  unfold Allocator.driverFree
  split_ifs <;> rfl

/-- What a regular call leaves: a move of the books, and the mutex as free as before. -/
def Settled (cudaToNvmlMap : Dev → Dev) (a a' : Allocator) : Prop :=
  BooksMove cudaToNvmlMap a.books a'.books ∧ (a.mutexHeld = false → a'.mutexHeld = false)

/-- The device and the size of a request for a chunk. -/
def ChunkCall.request : ChunkCall → Option (Dev × UInt64)
  | .addChunk env size => some (env.dev, size)
  | .addChunkOnly _ _ _ size dev => some (dev, size)
  | _ => none

/-- The address a call frees. -/
def ChunkCall.freed : ChunkCall → Option UInt64
  | .removeChunk _ dptr => some dptr
  | .removeChunkOnly dptr => some dptr
  | _ => none

/-- The books after a request: compactions, and then nothing or a chunk of that size on that
device. -/
def Requested (cudaToNvmlMap : Dev → Dev) (dev : Dev) (size : UInt64) (a a' : Allocator) : Prop :=
  ∃ info, SelfCompacts a.info info ∧
    (a'.books = (info, a.deviceOverallocated) ∨ ∃ address,
      a'.books = ((addGpuDeviceMemoryUsage cudaToNvmlMap info info.pid dev size 2).1,
        a.deviceOverallocated ++ [⟨address, size, dev⟩]))

/-- The books after a free: nothing, or the first chunk with the address taken out. -/
def Freed (cudaToNvmlMap : Dev → Dev) (dptr : UInt64) (a a' : Allocator) : Prop :=
  ((a.deviceOverallocated.find? fun val => val.address = dptr) = none ∧ a'.books = a.books) ∨
    ∃ e, (a.deviceOverallocated.find? fun val => val.address = dptr) = some e ∧
      a'.books = ((rmGpuDeviceMemoryUsage cudaToNvmlMap a.info a.info.pid e.dev e.length 2).1,
        a.deviceOverallocated.eraseP fun val => val.address = dptr)

theorem addChunk_requested {env : AddChunkEnv} {size : UInt64} (hentry : env.entryOk = true)
    (hself : ∀ n, env.procAlive₁ n a.info.pid ≠ .nonalive ∧
      env.procAlive₂ n a.info.pid ≠ .nonalive)
    (h : addChunk cudaToNvmlMap env size a = some (ret, a')) :
    Requested cudaToNvmlMap env.dev size a a' ∧ (a.mutexHeld = false → a'.mutexHeld = false) := by
  obtain ⟨⟨oom₁, info₁⟩, hoom₁, h⟩ := Option.bind_eq_some_iff.mp h
  have hcomp₁ : SelfCompacts a.info info₁ :=
    (oomCheck_spec hoom₁).1.selfCompacts fun n => (hself n).1
  dsimp only at h
  split_ifs at h with hne₁
  · cases h
    exact ⟨⟨info₁, hcomp₁, Or.inl rfl⟩, id⟩
  · split at h
    · cases h
      exact ⟨⟨info₁, hcomp₁, Or.inl rfl⟩, id⟩
    · next address _ =>
      obtain ⟨a₂, hlock, h⟩ := Option.bind_eq_some_iff.mp h
      obtain ⟨⟨oom₂, info₂⟩, hoom₂, h⟩ := Option.bind_eq_some_iff.mp h
      obtain ⟨-, hlock⟩ := Option.ite_none_left_eq_some.mp hlock
      cases hlock
      have hcomp : SelfCompacts a.info info₂ := by
        refine Relation.ReflTransGen.trans hcomp₁ ((oomCheck_spec hoom₂).1.selfCompacts fun n => ?_)
        show env.procAlive₂ n info₁.pid ≠ .nonalive
        rw [hcomp₁.pid_eq]
        exact (hself n).2
      split_ifs at h with hne₂
      · cases h
        refine ⟨⟨info₂, hcomp, Or.inl ?_⟩, fun _ => ?_⟩
        · rw [Allocator.books_driverFree, Allocator.books_unlock]
          rfl
        · rw [Allocator.mutexHeld_driverFree]
          rfl
      · cases h
        exact ⟨⟨info₂, hcomp, Or.inr ⟨address, rfl⟩⟩, fun _ => rfl⟩

theorem addChunkOnly_requested {procAlive : ℕ → Pid → ProcState} {entryOk : Bool}
    {address size : UInt64} {dev : Dev} (hentry : entryOk = true)
    (hself : ∀ n, procAlive n a.info.pid ≠ .nonalive)
    (h : addChunkOnly cudaToNvmlMap procAlive entryOk address size dev a = some (ret, a')) :
    Requested cudaToNvmlMap dev size a a' ∧ (a.mutexHeld = false → a'.mutexHeld = false) := by
  obtain ⟨a₁, hlock, h⟩ := Option.bind_eq_some_iff.mp h
  obtain ⟨⟨oom, info⟩, hoom, h⟩ := Option.bind_eq_some_iff.mp h
  obtain ⟨-, hlock⟩ := Option.ite_none_left_eq_some.mp hlock
  cases hlock
  have hcomp : SelfCompacts a.info info := (oomCheck_spec hoom).1.selfCompacts hself
  dsimp only at h
  split_ifs at h with hne
  · cases h
    exact ⟨⟨info, hcomp, Or.inl rfl⟩, fun _ => rfl⟩
  · cases h
    exact ⟨⟨info, hcomp, Or.inr ⟨address, rfl⟩⟩, fun _ => rfl⟩

theorem removeChunk_freed {memFree : Bool} {dptr : UInt64}
    (h : removeChunk cudaToNvmlMap memFree dptr a = some (ret, a')) :
    Freed cudaToNvmlMap dptr a a' ∧ (a.mutexHeld = false → a'.mutexHeld = false) := by
  rw [removeChunk] at h
  split_ifs at h with hempty
  · cases h
    refine ⟨Or.inl ⟨?_, rfl⟩, id⟩
    rw [List.eq_nil_of_length_eq_zero hempty]
    rfl
  · obtain ⟨a₁, hlock, h⟩ := Option.bind_eq_some_iff.mp h
    obtain ⟨-, hlock⟩ := Option.ite_none_left_eq_some.mp hlock
    cases hlock
    split at h
    · next e he =>
      cases h
      refine ⟨Or.inr ⟨e, he, ?_⟩, fun _ => ?_⟩
      · rw [Allocator.books_driverFree, Allocator.books_unlock]
        rfl
      · rw [Allocator.mutexHeld_driverFree]
        rfl
    · next he =>
      cases h
      exact ⟨Or.inl ⟨he, rfl⟩, fun _ => rfl⟩

theorem removeChunkOnly_freed {dptr : UInt64}
    (h : removeChunkOnly cudaToNvmlMap dptr a = some (ret, a')) :
    Freed cudaToNvmlMap dptr a a' ∧ (a.mutexHeld = false → a'.mutexHeld = false) := by
  rw [removeChunkOnly] at h
  split_ifs at h with hempty
  · cases h
    refine ⟨Or.inl ⟨?_, rfl⟩, id⟩
    rw [List.eq_nil_of_length_eq_zero hempty]
    rfl
  · split at h
    · next e he =>
      cases h
      exact ⟨Or.inr ⟨e, he, rfl⟩, id⟩
    · next he =>
      cases h
      exact ⟨Or.inl ⟨he, rfl⟩, id⟩

/-- Whether a call is regular depends on the caller's pid only. -/
theorem ChunkCall.Regular.congr {c : ChunkCall} (h : c.Regular a)
    (hpid : a.info.pid = a'.info.pid) :
    c.Regular a' := by
  cases c with
  | addChunk env size => exact ⟨h.1, hpid ▸ h.2⟩
  | addChunkOnly procAlive entryOk address size dev => exact ⟨h.1, hpid ▸ h.2⟩
  | removeChunk memFree dptr => trivial
  | removeChunkOnly dptr => trivial

/-- **Reading a call** by what it asks for or frees. -/
theorem Allocator.step_cases {c : ChunkCall} (hreg : c.Regular a)
    (h : a.step cudaToNvmlMap c = some a') :
    ((∃ dev size, c.request = some (dev, size) ∧ Requested cudaToNvmlMap dev size a a') ∨
      ∃ dptr, c.freed = some dptr ∧ Freed cudaToNvmlMap dptr a a') ∧
    (a.mutexHeld = false → a'.mutexHeld = false) := by
  obtain ⟨⟨ret, _⟩, hcall, rfl⟩ := Option.map_eq_some_iff.mp h
  cases c with
  | addChunk env size =>
    obtain ⟨hbooks, hmutex⟩ := addChunk_requested hreg.1 hreg.2 hcall
    exact ⟨Or.inl ⟨env.dev, size, rfl, hbooks⟩, hmutex⟩
  | addChunkOnly procAlive entryOk address size dev =>
    obtain ⟨hbooks, hmutex⟩ := addChunkOnly_requested hreg.1 hreg.2 hcall
    exact ⟨Or.inl ⟨dev, size, rfl, hbooks⟩, hmutex⟩
  | removeChunk memFree dptr =>
    obtain ⟨hbooks, hmutex⟩ := removeChunk_freed hcall
    exact ⟨Or.inr ⟨dptr, rfl, hbooks⟩, hmutex⟩
  | removeChunkOnly dptr =>
    obtain ⟨hbooks, hmutex⟩ := removeChunkOnly_freed hcall
    exact ⟨Or.inr ⟨dptr, rfl, hbooks⟩, hmutex⟩

/-- **Reading a call** as a move of the books. -/
theorem Allocator.step_settled {c : ChunkCall} (hreg : c.Regular a)
    (h : a.step cudaToNvmlMap c = some a') : Settled cudaToNvmlMap a a' := by
  obtain ⟨hbooks, hmutex⟩ := Allocator.step_cases hreg h
  refine ⟨?_, hmutex⟩
  rcases hbooks with ⟨dev, size, -, info, hcomp, heq | ⟨address, heq⟩⟩ |
    ⟨dptr, -, ⟨-, heq⟩ | ⟨e, he, heq⟩⟩
  · rw [heq]
    exact .keep hcomp
  · rw [heq]
    exact .add ⟨address, size, dev⟩ hcomp
  · rw [heq]
    exact .keep Relation.ReflTransGen.refl
  · rw [heq]
    exact .remove dptr e he

end Calls

/-! ## The invariant -/

/-- The counters of a device after `n` bytes of data. -/
def DeviceMemory.grown (m : DeviceMemory) (n : UInt64) : DeviceMemory :=
  { m with dataSize := m.dataSize + n, total := m.total + n }

theorem DeviceMemory.update_add_grown (m : DeviceMemory) (n x : UInt64) :
    (m.grown n).update (· + ·) x 2 = m.grown (n + x) := by
  simp [DeviceMemory.update, DeviceMemory.grown, add_assoc]

theorem DeviceMemory.update_sub_grown (m : DeviceMemory) (n x : UInt64) :
    (m.grown (n + x)).update (· - ·) x 2 = m.grown n := by
  simp [DeviceMemory.update, DeviceMemory.grown, ← add_assoc]

/-- The bytes tracked for the device index `k`. -/
def trackedLength (cudaToNvmlMap : Dev → Dev) (l : List AllocatedDeviceMemory) (k : Dev) : UInt64 :=
  ((l.filter fun e => cudaToNvmlMap e.dev = k).map AllocatedDeviceMemory.length).sum

/-- First-match removal. -/
theorem exists_split_of_find {l : List AllocatedDeviceMemory} {dptr : UInt64}
    {e : AllocatedDeviceMemory} (h : (l.find? fun val => val.address = dptr) = some e) :
    ∃ l₁ l₂, l = l₁ ++ e :: l₂ ∧ (l.eraseP fun val => val.address = dptr) = l₁ ++ l₂ ∧
      e.address = dptr := by
  obtain ⟨he, l₁, l₂, rfl, hl₁⟩ := List.find?_eq_some_iff_append.mp h
  have hl₁' : ∀ b ∈ l₁, ¬ (decide (b.address = dptr)) = true := by
    intro b hb
    simpa using hl₁ b hb
  refine ⟨l₁, l₂, rfl, ?_, of_decide_eq_true he⟩
  rw [List.eraseP_append_right _ hl₁', List.eraseP_cons, he, cond_true]

section Tracked

variable (cudaToNvmlMap : Dev → Dev)

theorem trackedLength_append (l l' : List AllocatedDeviceMemory) (k : Dev) :
    trackedLength cudaToNvmlMap (l ++ l') k =
      trackedLength cudaToNvmlMap l k + trackedLength cudaToNvmlMap l' k := by
  simp only [trackedLength, List.filter_append, List.map_append, List.sum_append]

@[simp] theorem trackedLength_nil (k : Dev) : trackedLength cudaToNvmlMap [] k = 0 := rfl

theorem trackedLength_cons (e : AllocatedDeviceMemory) (l : List AllocatedDeviceMemory) (k : Dev) :
    trackedLength cudaToNvmlMap (e :: l) k =
      (if cudaToNvmlMap e.dev = k then e.length else 0) + trackedLength cudaToNvmlMap l k := by
  by_cases hk : cudaToNvmlMap e.dev = k
  · simp [trackedLength, hk]
  · simp [trackedLength, hk]

/-- The entry that is taken out is the one whose length is released. -/
theorem trackedLength_eraseP {l : List AllocatedDeviceMemory} {dptr : UInt64}
    {e : AllocatedDeviceMemory} (h : (l.find? fun val => val.address = dptr) = some e) (k : Dev) :
    trackedLength cudaToNvmlMap l k =
      trackedLength cudaToNvmlMap (l.eraseP fun val => val.address = dptr) k +
        if cudaToNvmlMap e.dev = k then e.length else 0 := by
  obtain ⟨l₁, l₂, rfl, herase, -⟩ := exists_split_of_find h
  rw [herase, trackedLength_append, trackedLength_append, trackedLength_cons, add_assoc,
    add_comm (trackedLength _ l₂ k)]

/-- In natural numbers: the sum of the lengths, modulo the machine word. -/
theorem toNat_trackedLength (l : List AllocatedDeviceMemory) (k : Dev) :
    (trackedLength cudaToNvmlMap l k).toNat =
      ((l.filter fun e => cudaToNvmlMap e.dev = k).map fun e => e.length.toNat).sum % 2 ^ 64 := by
  unfold trackedLength
  induction l.filter fun e => cudaToNvmlMap e.dev = k with
  | nil => rfl
  | cons e l ih =>
    rw [List.map_cons, List.sum_cons, List.map_cons, List.sum_cons, UInt64.toNat_add, ih,
      Nat.add_mod_mod]

end Tracked

/-- The bytes the entries of `l` account for. -/
def trackedBytes (l : List AllocatedDeviceMemory) : ℕ := (l.map fun e => e.length.toNat).sum

/-- The bytes of the entries whose device maps to `k`. -/
def trackedBytesOn (cudaToNvmlMap : Dev → Dev) (l : List AllocatedDeviceMemory) (k : Dev) : ℕ :=
  trackedBytes (l.filter fun e => cudaToNvmlMap e.dev = k)

section Bytes

variable {cudaToNvmlMap : Dev → Dev} {l : List AllocatedDeviceMemory} {dptr : UInt64}
  {e : AllocatedDeviceMemory}

theorem trackedBytes_append (l l' : List AllocatedDeviceMemory) :
    trackedBytes (l ++ l') = trackedBytes l + trackedBytes l' := by
  simp only [trackedBytes, List.map_append, List.sum_append]

theorem trackedBytes_singleton (e : AllocatedDeviceMemory) : trackedBytes [e] = e.length.toNat := by
  simp [trackedBytes]

theorem trackedBytesOn_append (l l' : List AllocatedDeviceMemory) (k : Dev) :
    trackedBytesOn cudaToNvmlMap (l ++ l') k =
      trackedBytesOn cudaToNvmlMap l k + trackedBytesOn cudaToNvmlMap l' k := by
  rw [trackedBytesOn, List.filter_append, trackedBytes_append, trackedBytesOn, trackedBytesOn]

theorem trackedBytesOn_singleton (e : AllocatedDeviceMemory) (k : Dev) :
    trackedBytesOn cudaToNvmlMap [e] k = if cudaToNvmlMap e.dev = k then e.length.toNat else 0 := by
  by_cases hk : cudaToNvmlMap e.dev = k <;> simp [trackedBytesOn, trackedBytes, hk]

theorem trackedBytesOn_le (cudaToNvmlMap : Dev → Dev) (l : List AllocatedDeviceMemory) (k : Dev) :
    trackedBytesOn cudaToNvmlMap l k ≤ trackedBytes l :=
  ((List.filter_sublist (l := l)).map _).sum_le_sum fun _ _ => Nat.zero_le _

/-- The first match leaves the list with its bytes. -/
theorem trackedBytes_eraseP (h : (l.find? fun val => val.address = dptr) = some e) :
    trackedBytes l = trackedBytes (l.eraseP fun val => val.address = dptr) + e.length.toNat := by
  obtain ⟨l₁, l₂, rfl, herase, -⟩ := exists_split_of_find h
  rw [herase, List.append_cons, trackedBytes_append, trackedBytes_append, trackedBytes_append,
    trackedBytes_singleton]
  omega

theorem trackedBytesOn_eraseP (cudaToNvmlMap : Dev → Dev)
    (h : (l.find? fun val => val.address = dptr) = some e) (k : Dev) :
    trackedBytesOn cudaToNvmlMap l k =
      trackedBytesOn cudaToNvmlMap (l.eraseP fun val => val.address = dptr) k +
        if cudaToNvmlMap e.dev = k then e.length.toNat else 0 := by
  obtain ⟨l₁, l₂, rfl, herase, -⟩ := exists_split_of_find h
  rw [herase, List.append_cons, trackedBytesOn_append, trackedBytesOn_append, trackedBytesOn_append,
    trackedBytesOn_singleton]
  omega

/-- In the machine's arithmetic the tracked length is the bytes, when these fit. -/
theorem toNat_trackedLength_eq (h : trackedBytes l < 2 ^ 64) (k : Dev) :
    (trackedLength cudaToNvmlMap l k).toNat = trackedBytesOn cudaToNvmlMap l k := by
  rw [toNat_trackedLength]
  exact Nat.mod_eq_of_lt ((trackedBytesOn_le cudaToNvmlMap l k).trans_lt h)

end Bytes

/-- The books agree: the caller's pointer is at a slot of its own whose counters are those of `base`
plus what the list tracks. -/
structure Ledger (cudaToNvmlMap : Dev → Dev) (base : Dev → DeviceMemory) (b : Books) : Prop where
  pid_ne_zero : b.1.pid ≠ 0
  slot : ∃ s, b.1.PointsAt s ∧ s.pid = b.1.pid ∧
    ∀ k, s.used k = (base k).grown (trackedLength cudaToNvmlMap b.2 k)

/-- The caller's pointer is at a slot of its own whose counters are those of `base` plus `n` bytes
of data. -/
structure RegionInfo.Charged (base : Dev → DeviceMemory) (n : Dev → UInt64) (info : RegionInfo) :
    Prop where
  pid_ne_zero : info.pid ≠ 0
  slot : ∃ s, info.PointsAt s ∧ s.pid = info.pid ∧ ∀ k, s.used k = (base k).grown (n k)

section Moves

variable {cudaToNvmlMap : Dev → Dev} {base : Dev → DeviceMemory} {b b' : Books}
  {info info' : RegionInfo} {n : Dev → UInt64}

theorem Ledger.charged (h : Ledger cudaToNvmlMap base b) :
    b.1.Charged base (trackedLength cudaToNvmlMap b.2) :=
  ⟨h.pid_ne_zero, h.slot⟩

theorem RegionInfo.Charged.ledger (h : info.Charged base n) {l : List AllocatedDeviceMemory}
    (hl : ∀ k, trackedLength cudaToNvmlMap l k = n k) : Ledger cudaToNvmlMap base (info, l) := by
  obtain ⟨s, hs, hpid, hused⟩ := h.slot
  exact ⟨h.pid_ne_zero, s, hs, hpid, fun k => by rw [hused k, hl k]⟩

/-- A writer that goes through the pointer changes the slot the pointer is at. -/
theorem RegionInfo.PointsAt.updateType {info : RegionInfo} {s : ShrregProcSlot}
    (h : info.PointsAt s)
    (cudaToNvmlMap : Dev → Dev) (op : UInt64 → UInt64 → UInt64) (cudadev : Dev)
    (usage : UInt64) (type : ℤ) :
    (updateGpuDeviceMemoryUsage op cudaToNvmlMap info info.pid cudadev usage type).1.PointsAt
      (s.update op (cudaToNvmlMap cudadev) usage type) ∧
      (updateGpuDeviceMemoryUsage op cudaToNvmlMap info info.pid cudadev usage type).1.pid =
        info.pid := by
  obtain ⟨i, hi, hlt, rfl⟩ := h
  rw [updateGpuDeviceMemoryUsage_of_mySlot hi]
  exact ⟨⟨i, hi, hlt, RegionInfo.modifySlot_procs_self _ _ _⟩, rfl⟩

theorem RegionInfo.PointsAt.update {info : RegionInfo} {s : ShrregProcSlot} (h : info.PointsAt s)
    (cudaToNvmlMap : Dev → Dev) (op : UInt64 → UInt64 → UInt64) (cudadev : Dev)
    (usage : UInt64) :
    (updateGpuDeviceMemoryUsage op cudaToNvmlMap info info.pid cudadev usage 2).1.PointsAt
      (s.update op (cudaToNvmlMap cudadev) usage 2) ∧
      (updateGpuDeviceMemoryUsage op cudaToNvmlMap info info.pid cudadev usage 2).1.pid =
        info.pid :=
  h.updateType cudaToNvmlMap op cudadev usage 2

theorem RegionInfo.Charged.keep (h : info.Charged base n) (hcomp : SelfCompacts info info') :
    info'.Charged base n := by
  obtain ⟨s, hs, hpid, hused⟩ := h.slot
  have hpid' : info'.pid = info.pid := hcomp.pid_eq
  refine ⟨by rw [hpid']; exact h.pid_ne_zero, s, ?_, by rw [hpid, hpid'], hused⟩
  exact hcomp.pointsAt hpid h.pid_ne_zero hs

/-- A region in which the caller's slot is as it was. -/
theorem RegionInfo.Charged.others (h : info.Charged base n) {region : SharedRegion}
    (hslot : ∀ i, info.mySlot = some i →
      i < region.procNum ∧ region.procs i = info.sharedRegion.procs i) :
    RegionInfo.Charged base n { info with sharedRegion := region } := by
  obtain ⟨s, ⟨i, hi, -, hs⟩, hpid, hused⟩ := h.slot
  obtain ⟨hlt, hsame⟩ := hslot i hi
  exact ⟨h.pid_ne_zero, s, ⟨i, hi, hlt, hsame.trans hs⟩, hpid, hused⟩

/-- A charge. -/
theorem RegionInfo.Charged.add (h : info.Charged base n) (cudaToNvmlMap : Dev → Dev) (dev : Dev)
    (length : UInt64) :
    (addGpuDeviceMemoryUsage cudaToNvmlMap info info.pid dev length 2).1.Charged base
      fun k => n k + if cudaToNvmlMap dev = k then length else 0 := by
  obtain ⟨s, hs, hpid, hused⟩ := h.slot
  obtain ⟨hpts, hpid'⟩ := hs.update cudaToNvmlMap (· + ·) dev length
  refine ⟨by rw [addGpuDeviceMemoryUsage, hpid']; exact h.pid_ne_zero, _, hpts,
    by rw [addGpuDeviceMemoryUsage, hpid']; exact hpid, fun k => ?_⟩
  show Function.update s.used (cudaToNvmlMap dev) _ k = _
  by_cases hk : k = cudaToNvmlMap dev
  · subst hk
    rw [Function.update_self, hused, DeviceMemory.update_add_grown, if_pos rfl]
  · rw [Function.update_of_ne hk, hused, if_neg fun heq => hk heq.symm, add_zero]

/-- A release of what was charged. -/
theorem RegionInfo.Charged.rm {n' : Dev → UInt64} {dev : Dev} {length : UInt64}
    (h : info.Charged base n)
    (hn : ∀ k, n k = n' k + if cudaToNvmlMap dev = k then length else 0) :
    (rmGpuDeviceMemoryUsage cudaToNvmlMap info info.pid dev length 2).1.Charged base n' := by
  obtain ⟨s, hs, hpid, hused⟩ := h.slot
  obtain ⟨hpts, hpid'⟩ := hs.update cudaToNvmlMap (· - ·) dev length
  refine ⟨by rw [rmGpuDeviceMemoryUsage, hpid']; exact h.pid_ne_zero, _, hpts,
    by rw [rmGpuDeviceMemoryUsage, hpid']; exact hpid, fun k => ?_⟩
  show Function.update s.used (cudaToNvmlMap dev) _ k = _
  by_cases hk : k = cudaToNvmlMap dev
  · subst hk
    rw [Function.update_self, hused, hn, if_pos rfl, DeviceMemory.update_sub_grown]
  · rw [Function.update_of_ne hk, hused, hn, if_neg fun heq => hk heq.symm, add_zero]

theorem Ledger.keep (h : Ledger cudaToNvmlMap base b) {info : RegionInfo}
    (hcomp : SelfCompacts b.1 info) : Ledger cudaToNvmlMap base (info, b.2) :=
  (h.charged.keep hcomp).ledger fun _ => rfl

theorem Ledger.add (h : Ledger cudaToNvmlMap base b) (e : AllocatedDeviceMemory) :
    Ledger cudaToNvmlMap base
      ((addGpuDeviceMemoryUsage cudaToNvmlMap b.1 b.1.pid e.dev e.length 2).1, b.2 ++ [e]) := by
  refine (h.charged.add cudaToNvmlMap e.dev e.length).ledger fun k => ?_
  rw [trackedLength_append, trackedLength_cons, trackedLength_nil, add_zero]

theorem Ledger.remove (h : Ledger cudaToNvmlMap base b) {dptr : UInt64}
    {e : AllocatedDeviceMemory} (he : (b.2.find? fun val => val.address = dptr) = some e) :
    Ledger cudaToNvmlMap base
      ((rmGpuDeviceMemoryUsage cudaToNvmlMap b.1 b.1.pid e.dev e.length 2).1,
        b.2.eraseP fun val => val.address = dptr) :=
  (h.charged.rm (trackedLength_eraseP cudaToNvmlMap he)).ledger fun _ => rfl

theorem Ledger.move (h : Ledger cudaToNvmlMap base b) (hm : BooksMove cudaToNvmlMap b b') :
    Ledger cudaToNvmlMap base b' := by
  cases hm with
  | keep hcomp => exact h.keep hcomp
  | add e hcomp => exact (h.keep hcomp).add e
  | remove dptr e he => exact h.remove he

end Moves

/-! ## Whole runs -/

/-- A process that has just registered: its pointer is at a slot `s` of its own with zeroed
counters, nothing is tracked, and the mutex is free. -/
structure Allocator.Fresh (a : Allocator) (s : ShrregProcSlot) : Prop where
  pointsAt : a.info.PointsAt s
  pid_eq : s.pid = a.info.pid
  pid_ne_zero : a.info.pid ≠ 0
  zeroed : ∀ k, (s.used k).total = 0 ∧ (s.used k).contextSize = 0 ∧ (s.used k).moduleSize = 0 ∧
    (s.used k).dataSize = 0
  untracked : a.deviceOverallocated = []
  unlocked : a.mutexHeld = false

section Runs

variable {cudaToNvmlMap : Dev → Dev} {a a' : Allocator} {s : ShrregProcSlot}

theorem Allocator.Fresh.ledger (h : a.Fresh s) : Ledger cudaToNvmlMap s.used a.books := by
  refine ⟨h.pid_ne_zero, s, h.pointsAt, h.pid_eq, fun k => ?_⟩
  have hnil : a.books.2 = [] := h.untracked
  rw [hnil, trackedLength_nil]
  simp [DeviceMemory.grown]

/-- The books agree and the mutex is free after every call. -/
theorem Allocator.Fresh.run (h : a.Fresh s)
    (hrun : GuardedRun (Allocator.step cudaToNvmlMap) (fun a c => c.Regular a) a a') :
    Ledger cudaToNvmlMap s.used a'.books ∧ a'.mutexHeld = false := by
  refine hrun.invariant (P := fun a => Ledger cudaToNvmlMap s.used a.books ∧ a.mutexHeld = false)
    ?_ ⟨h.ledger, h.unlocked⟩
  rintro a₁ c a₂ ⟨hled, hfree⟩ hreg hst
  obtain ⟨hmove, hmutex⟩ := Allocator.step_settled hreg hst
  exact ⟨hled.move hmove, hmutex hfree⟩

theorem BooksMove.seqlocksEven {b b' : Books} (hm : BooksMove cudaToNvmlMap b b')
    (h : b.1.sharedRegion.SeqlocksEven) : b'.1.sharedRegion.SeqlocksEven := by
  cases hm with
  | keep hcomp => exact hcomp.seqlocksEven h
  | add e hcomp => exact updateGpuDeviceMemoryUsage_seqlocksEven _ _ _ _ _ _ (hcomp.seqlocksEven h)
  | remove dptr e he => exact updateGpuDeviceMemoryUsage_seqlocksEven _ _ _ _ _ _ h

theorem Allocator.lock_of_free (h : a.mutexHeld = false) :
    a.lock = some { a with mutexHeld := true } := by
  simp [Allocator.lock, h]

/-- **Every call returns**, with the mutex free and no writer inside its seqlock section. -/
theorem Allocator.step_ne_none (hfree : a.mutexHeld = false)
    (heven : a.info.sharedRegion.SeqlocksEven) (c : ChunkCall) :
    ∃ a', a.step cudaToNvmlMap c = some a' := by
  suffices h : ∃ out, a.call cudaToNvmlMap c = some out by
    obtain ⟨out, hout⟩ := h
    exact ⟨out.2, by rw [Allocator.step, hout]; rfl⟩
  cases c with
  | addChunk env size =>
    obtain ⟨⟨oom₁, info₁⟩, hoom₁⟩ := oomCheck_ne_none env.procAlive₁ env.dev size heven
    have heven₁ : info₁.sharedRegion.SeqlocksEven := (oomCheck_spec hoom₁).1.seqlocksEven heven
    obtain ⟨⟨oom₂, info₂⟩, hoom₂⟩ := oomCheck_ne_none env.procAlive₂ env.dev size heven₁
    rw [Allocator.call, HamiCore.addChunk, hoom₁, Option.bind_some]
    dsimp only
    by_cases hne : oom₁ ≠ 0
    · rw [if_pos hne]
      exact ⟨_, rfl⟩
    · rw [if_neg hne]
      cases env.memAlloc with
      | error res => exact ⟨_, rfl⟩
      | ok address =>
        dsimp only
        rw [Allocator.lock_of_free (by exact hfree), Option.bind_some, hoom₂, Option.bind_some]
        dsimp only
        split_ifs
        · exact ⟨_, rfl⟩
        · exact ⟨_, rfl⟩
        · exact ⟨_, rfl⟩
  | addChunkOnly procAlive entryOk address size dev =>
    obtain ⟨⟨oom, info⟩, hoom⟩ := oomCheck_ne_none procAlive dev size heven
    rw [Allocator.call, HamiCore.addChunkOnly, Allocator.lock_of_free hfree, Option.bind_some, hoom,
      Option.bind_some]
    dsimp only
    split_ifs
    · exact ⟨_, rfl⟩
    · exact ⟨_, rfl⟩
    · exact ⟨_, rfl⟩
  | removeChunk memFree dptr =>
    rw [Allocator.call, HamiCore.removeChunk]
    split_ifs
    · exact ⟨_, rfl⟩
    · rw [Allocator.lock_of_free hfree, Option.bind_some]
      split
      · exact ⟨_, rfl⟩
      · exact ⟨_, rfl⟩
  | removeChunkOnly dptr =>
    rw [Allocator.call, HamiCore.removeChunkOnly]
    split_ifs
    · exact ⟨_, rfl⟩
    · split
      · exact ⟨_, rfl⟩
      · exact ⟨_, rfl⟩

/-- A free of a tracked address returns and takes the first entry with that address out. -/
theorem Allocator.step_freed {c : ChunkCall} {dptr : UInt64} {e : AllocatedDeviceMemory}
    (hfree : a.mutexHeld = false) (hc : c.freed = some dptr)
    (he : (a.deviceOverallocated.find? fun val => val.address = dptr) = some e) :
    ∃ a', a.step cudaToNvmlMap c = some a' ∧ a'.mutexHeld = false ∧
      a'.deviceOverallocated = a.deviceOverallocated.eraseP fun val => val.address = dptr := by
  have hne : ¬ a.deviceOverallocated.length = 0 := by
    intro hnil
    rw [List.eq_nil_of_length_eq_zero hnil] at he
    exact absurd he (by simp)
  cases c with
  | removeChunk memFree d =>
    obtain rfl : d = dptr := Option.some.inj hc
    refine ⟨(({ a with mutexHeld := true } : Allocator).untrack cudaToNvmlMap d
      e).unlock.driverFree memFree d, ?_, ?_, ?_⟩
    · rw [Allocator.step, Allocator.call, HamiCore.removeChunk, if_neg hne,
        Allocator.lock_of_free hfree, Option.bind_some]
      dsimp only
      rw [he]
      rfl
    · rw [Allocator.mutexHeld_driverFree]
      rfl
    · exact congrArg Prod.snd (Allocator.books_driverFree _ _ _)
  | removeChunkOnly d =>
    obtain rfl : d = dptr := Option.some.inj hc
    refine ⟨a.untrack cudaToNvmlMap d e, ?_, hfree, rfl⟩
    rw [Allocator.step, Allocator.call, HamiCore.removeChunkOnly, if_neg hne, he]
    rfl
  | addChunk env size => exact absurd hc (by simp [ChunkCall.freed])
  | addChunkOnly procAlive entryOk address size dev => exact absurd hc (by simp [ChunkCall.freed])

/-- **Freeing everything, in any order, empties the list.** -/
theorem Allocator.exec_frees (frees : List ChunkCall) (hfree : a.mutexHeld = false)
    (hperm : (frees.map ChunkCall.freed).Perm
      (a.deviceOverallocated.map fun e => some e.address)) :
    ∃ a', exec (Allocator.step cudaToNvmlMap) (fun _ _ => true) frees a = some a' ∧
      a'.deviceOverallocated = [] := by
  induction frees generalizing a with
  | nil =>
    refine ⟨a, rfl, ?_⟩
    simpa using hperm.nil_eq
  | cons c frees ih =>
    rw [List.map_cons] at hperm
    obtain ⟨e₀, he₀, hc⟩ := List.mem_map.mp (hperm.subset List.mem_cons_self)
    obtain ⟨e, he⟩ :
        ∃ e, (a.deviceOverallocated.find? fun val => val.address = e₀.address) = some e :=
      Option.isSome_iff_exists.mp (List.find?_isSome.mpr ⟨e₀, he₀, by simp⟩)
    obtain ⟨a₁, hst, hfree₁, hlist⟩ : ∃ a₁, a.step cudaToNvmlMap c = some a₁ ∧ _ ∧ _ :=
      Allocator.step_freed hfree hc.symm he
    obtain ⟨l₁, l₂, hl, herase, haddr⟩ := exists_split_of_find he
    have hperm₁ : (frees.map ChunkCall.freed).Perm
        (a₁.deviceOverallocated.map fun e => some e.address) := by
      -- one occurrence of the freed address has gone from both sides
      rw [hlist, herase, List.map_append]
      rw [hl, ← hc, List.map_append, List.map_cons, haddr] at hperm
      exact (hperm.trans List.perm_middle).cons_inv
    obtain ⟨a', hexec, hnil⟩ := ih hfree₁ hperm₁
    refine ⟨a', ?_, hnil⟩
    rw [exec, if_pos rfl, hst]
    exact hexec

theorem Allocator.seqlocksEven_run (heven : a.info.sharedRegion.SeqlocksEven)
    (hrun : GuardedRun (Allocator.step cudaToNvmlMap) (fun a c => c.Regular a) a a') :
    a'.info.sharedRegion.SeqlocksEven :=
  hrun.invariant (P := fun a => a.info.sharedRegion.SeqlocksEven)
    (fun _ _ _ h hreg hst => (Allocator.step_settled hreg hst).1.seqlocksEven h) heven

theorem ChunkCall.regular_of_freed {c : ChunkCall} {dptr : UInt64} (h : c.freed = some dptr)
    (a : Allocator) : c.Regular a := by
  cases c with
  | addChunk env size => exact absurd h (by simp [ChunkCall.freed])
  | addChunkOnly procAlive entryOk address size dev => exact absurd h (by simp [ChunkCall.freed])
  | removeChunk memFree dptr => trivial
  | removeChunkOnly dptr => trivial

/-- A call that frees takes its entry out of the books, or leaves them. -/
theorem Allocator.freed_of_step {c : ChunkCall} {dptr : UInt64}
    (hfreed : c.freed = some dptr) (h : a.step cudaToNvmlMap c = some a') :
    Freed cudaToNvmlMap dptr a a' := by
  obtain ⟨⟨dev, size, hrequest, -⟩ | ⟨dptr', hdptr', hbooks⟩, -⟩ :=
    Allocator.step_cases (ChunkCall.regular_of_freed hfreed a) h
  · cases c <;> simp [ChunkCall.request, ChunkCall.freed] at hrequest hfreed
  · rwa [Option.some.inj (hdptr'.symm.trans hfreed)] at hbooks

/-- **The ledger of tracked memory.**  After every sequence of calls, with any sizes, devices,
addresses and driver outcomes: each device's `data_size` is the sum of the tracked lengths that map
to it, modulo the machine word, and its `total` is the sum of its three parts.  The calls return,
unless a reader was already waiting at the start; and freeing everything that is tracked, in any
order and by either function, leaves the counters the process started with. -/
theorem allocation_ledger (hfresh : a.Fresh s)
    (hrun : GuardedRun (Allocator.step cudaToNvmlMap) (fun a c => c.Regular a) a a') :
    (∃ t, a'.info.PointsAt t ∧ t.pid = a'.info.pid ∧ ∀ k,
        (t.used k).dataSize.toNat =
          ((a'.deviceOverallocated.filter fun e => cudaToNvmlMap e.dev = k).map
            fun e => e.length.toNat).sum % 2 ^ 64 ∧
        (t.used k).total = (t.used k).contextSize + (t.used k).moduleSize + (t.used k).dataSize) ∧
      (a.info.sharedRegion.SeqlocksEven → ∀ c, ∃ a'', a'.step cudaToNvmlMap c = some a'') ∧
      ∀ frees : List ChunkCall,
        (frees.map ChunkCall.freed).Perm (a'.deviceOverallocated.map fun e => some e.address) →
        ∃ a'' t, exec (Allocator.step cudaToNvmlMap) (fun _ _ => true) frees a' = some a'' ∧
          a''.deviceOverallocated = [] ∧ a''.info.PointsAt t ∧ ∀ k, t.used k = s.used k := by
  obtain ⟨hled, hfree⟩ := hfresh.run hrun
  refine ⟨?_, ?_, ?_⟩
  · obtain ⟨t, ht, hpid, hused⟩ := hled.slot
    refine ⟨t, ht, hpid, fun k => ?_⟩
    obtain ⟨htotal, hctx, hmod, hdata⟩ := hfresh.zeroed k
    rw [hused k]
    simp only [DeviceMemory.grown, htotal, hctx, hmod, hdata, zero_add]
    exact ⟨toNat_trackedLength cudaToNvmlMap a'.deviceOverallocated k, trivial⟩
  · intro heven c
    exact Allocator.step_ne_none hfree (Allocator.seqlocksEven_run heven hrun) c
  · intro frees hperm
    obtain ⟨a'', hexec, hnil⟩ :
        ∃ a'', exec (Allocator.step cudaToNvmlMap) (fun _ _ => true) frees a' = some a'' ∧
          a''.deviceOverallocated = [] := Allocator.exec_frees frees hfree hperm
    have hrun' : GuardedRun (Allocator.step cudaToNvmlMap) (fun a c => c.Regular a) a' a'' := by
      refine GuardedRun.of_exec (fun c hc b _ => ?_) hexec
      obtain ⟨e, -, he⟩ := List.mem_map.mp (hperm.subset (List.mem_map_of_mem hc))
      exact ChunkCall.regular_of_freed he.symm b
    obtain ⟨hled'', -⟩ := hfresh.run (hrun.trans hrun')
    obtain ⟨t, ht, -, hused⟩ := hled''.slot
    refine ⟨a'', t, hexec, hnil, ht, fun k => ?_⟩
    have hnil' : a''.books.2 = [] := hnil
    rw [hused k, hnil', trackedLength_nil]
    simp [DeviceMemory.grown]

end Runs

/-- Process `7`, registered alone. -/
def registeredAlone : Allocator where
  info := ⟨7, ⟨fun _ => 0, fun _ => { ShrregProcSlot.blank with pid := 7 }, 1⟩, some 0⟩
  deviceOverallocated := []
  driverLive := []
  mutexHeld := false

/-- The outcomes of an allocation of which every part succeeds. -/
def AddChunkEnv.succeeds (dev : Dev) (address : UInt64) : AddChunkEnv where
  dev := dev
  procAlive₁ := fun _ _ => .alive
  procAlive₂ := fun _ _ => .alive
  memAlloc := .ok address
  entryOk := true
  memFree := true

/-- Two chunks at the same address on two devices, and one free. -/
def repeatedAddress : List ChunkCall :=
  [.addChunk (.succeeds 0 100) 5, .addChunkOnly (fun _ _ => .alive) true 100 8 1,
    .removeChunk true 100]

theorem exec_repeatedAddress :
    (exec (Allocator.step id) (fun _ _ => true) repeatedAddress registeredAlone).map
      Allocator.deviceOverallocated = some [⟨100, 8, 1⟩] := by
  decide +kernel

/-- After that run the first chunk is gone from device `0`, and the second one counts on device
`1`. -/
theorem allocation_ledger_repeatedAddress :
    ∃ (a : Allocator) (t : ShrregProcSlot), a.deviceOverallocated = [⟨100, 8, 1⟩] ∧
      a.info.PointsAt t ∧ (t.used 0).dataSize.toNat = 0 ∧ (t.used 1).dataSize.toNat = 8 := by
  obtain ⟨a, hexec, hlist⟩ := Option.map_eq_some_iff.mp exec_repeatedAddress
  have hrun : GuardedRun (Allocator.step id) (fun a c => c.Regular a) registeredAlone a := by
    refine GuardedRun.of_exec (fun c hc b _ => ?_) hexec
    simp only [repeatedAddress, List.mem_cons, List.not_mem_nil, or_false] at hc
    rcases hc with rfl | rfl | rfl <;> simp [ChunkCall.Regular, AddChunkEnv.succeeds]
  have hfresh : registeredAlone.Fresh { ShrregProcSlot.blank with pid := 7 } :=
    ⟨⟨0, rfl, by decide, rfl⟩, rfl, by decide, fun _ => ⟨rfl, rfl, rfl, rfl⟩, rfl, rfl⟩
  obtain ⟨⟨t, ht, -, hused⟩, -, -⟩ := allocation_ledger hfresh hrun
  refine ⟨a, t, hlist, ht, ?_, ?_⟩
  · rw [(hused 0).1, hlist]
    decide
  · rw [(hused 1).1, hlist]
    decide

end HamiCore
