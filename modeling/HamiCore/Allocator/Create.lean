import HamiCore.Allocator.Failure

/-!
# Which device `cuMemCreate` charges

`cuMemCreate` allocates on the device that its property names, the location.  The hook checks the
limit of another device and charges the memory to it: the device of the current context, and the
location only when there is no current context.  `cuMemRelease` gives back what the entry recorded,
so the two agree with each other, and what is wrong is wrong from the first call on.

A run is a sequence of calls of the two hooks; every call finds the context that is current then.
`created` is the list of allocations that have been made and not been released, with their
locations.  `created_charged`: as long as the context's device is the location, or there is no
context, each device is charged with the allocations located on it.
-/

namespace HamiCore

/-- An allocation made by `cuMemCreate` and not yet released. -/
structure Creation where
  handle : UInt64
  size : UInt64
  location : Dev

/-- The entry of an allocation that was charged to its location. -/
def Creation.entry (c : Creation) : AllocatedDeviceMemory := ⟨c.handle, c.size, c.location⟩

/-- The bytes of the allocations located on `d`. -/
def createdOn (l : List Creation) (d : Dev) : ℕ :=
  ((l.filter fun c => c.location = d).map fun c => c.size.toNat).sum

/-- A process and its allocations. -/
structure CreatedMemory where
  mem : CudaMemory
  created : List Creation

/-- The calls: an allocation on a device location, in whatever context is current, and a release. -/
inductive CreateCall where
  | cuMemCreate (env : AllocOnlyEnv) (location : Dev) (size : UInt64)
  | cuMemRelease (release : Except CudaError Unit) (handle : UInt64)

/-- The allocations after a call of `cuMemCreate` has returned `ret`. -/
def createdAfter (ret : ℤ) (driver : Except CudaError UInt64) (size : UInt64) (location : Dev)
    (created : List Creation) : List Creation :=
  match driver with
  | .ok handle => if ret = 0 then created ++ [⟨handle, size, location⟩] else created
  | .error _ => created

/-- The state after a call. -/
def CreatedMemory.step (cudaToNvmlMap : Dev → Dev) (s : CreatedMemory) :
    CreateCall → Option CreatedMemory
  | .cuMemCreate env location size =>
    (cuMemCreate cudaToNvmlMap env (some location) size s.mem).map fun (ret, m) =>
      ⟨m, createdAfter ret env.driver size location s.created⟩
  | .cuMemRelease release handle =>
    (cuMemRelease cudaToNvmlMap release handle s.mem).map fun (ret, m) =>
      ⟨m, if ret = 0 then s.created.eraseP fun c => c.handle = handle else s.created⟩

/-! ## Assumptions and the condition -/

/-- `proc_alive` does not report the caller dead. -/
def CreateCall.Regular (s : CreatedMemory) : CreateCall → Prop
  | .cuMemCreate env _ _ => ∀ n, env.procAlive₁ n s.mem.info.pid ≠ .nonalive ∧
      env.procAlive₂ n s.mem.info.pid ≠ .nonalive
  | .cuMemRelease _ _ => True

/-- The condition.  The device of the current context, if there is one, is the location, and what
the driver allocates is recorded. -/
def CreateCall.Keeps (s : CreatedMemory) : CreateCall → Prop
  | .cuMemCreate env location size =>
    (∀ dev, env.ctxDevice = .ok dev → dev = location) ∧ env.Records location size s.mem.info
  | .cuMemRelease _ _ => True

/-- **The charges follow the locations.**  For every device, what has been added to its counters
over `base` is the bytes of the allocations located on it, in the machine's arithmetic. -/
def CreatedMemory.Charged (base : Dev → DeviceMemory) (s : CreatedMemory) : Prop :=
  ∃ slot, s.mem.info.PointsAt slot ∧ slot.pid = s.mem.info.pid ∧ ∀ d,
    ((slot.used d).total - (base d).total).toNat = createdOn s.created d % 2 ^ 64 ∧
      ((slot.used d).dataSize - (base d).dataSize).toNat = createdOn s.created d % 2 ^ 64

/-! ## The invariant -/

/-- The list tracks the allocations, in their order and at their locations; the ledger is right and
the mutex free. -/
structure CreatedMemory.Inv (base : Dev → DeviceMemory) (s : CreatedMemory) : Prop where
  list_eq : s.mem.deviceOverallocated = s.created.map Creation.entry
  ledger : Ledger id base s.mem.books
  unlocked : s.mem.mutexHeld = false

section Inv

variable {base : Dev → DeviceMemory} {s t : CreatedMemory}

/-- What is tracked for a device is what is located on it. -/
theorem toNat_trackedLength_created (l : List Creation) (d : Dev) :
    (trackedLength id (l.map Creation.entry) d).toNat = createdOn l d % 2 ^ 64 := by
  rw [toNat_trackedLength, List.filter_map, List.map_map]
  rfl

theorem CreatedMemory.Inv.charged (h : s.Inv base) : s.Charged base := by
  obtain ⟨slot, hpts, hpid, hused⟩ := h.ledger.slot
  refine ⟨slot, hpts, hpid, fun d => ?_⟩
  have hlist : s.mem.books.2 = s.created.map Creation.entry := h.list_eq
  rw [hused d, hlist, ← toNat_trackedLength_created]
  constructor
  · show ((base d).total + _ - (base d).total).toNat = _
    rw [UInt64.add_comm, UInt64.add_sub_cancel]
  · rw [DeviceMemory.dataSize_grown_sub]

/-- Other processes do not touch the books. -/
theorem Ledger.interlude {b : Books} (h : Ledger id base b) (others : Interlude) :
    Ledger id base (others.move b.1, b.2) := by
  obtain ⟨slot, hpts, hpid, hused⟩ := h.slot
  refine ⟨by rw [others.pid_eq]; exact h.pid_ne_zero, slot, others.pointsAt _ _ hpts, ?_, hused⟩
  rw [others.pid_eq]
  exact hpid

/-- A check by a live caller. -/
theorem Ledger.check {b : Books} (h : Ledger id base b) {procAlive : ℕ → Pid → ProcState}
    {dev : Dev} {size : UInt64} {out : ℤ × RegionInfo}
    (hcheck : oomCheck procAlive dev size b.1 = some out)
    (hself : ∀ n, procAlive n b.1.pid ≠ .nonalive) : Ledger id base (out.2, b.2) :=
  h.keep ((oomCheck_spec hcheck).1.selfCompacts hself)

theorem createdAfter_of_ne {ret : ℤ} (h : ret ≠ 0) (driver : Except CudaError UInt64)
    (size : UInt64) (location : Dev) (created : List Creation) :
    createdAfter ret driver size location created = created := by
  cases driver with
  | error res => rfl
  | ok handle => exact if_neg h

/-- With no other context's device in the way, the whole call is made for the location. -/
theorem cuMemCreate_of_keeps {env : AllocOnlyEnv} {location : Dev} {size : UInt64}
    (hdev : ∀ dev, env.ctxDevice = .ok dev → dev = location) (cudaToNvmlMap : Dev → Dev)
    (m : CudaMemory) :
    cuMemCreate cudaToNvmlMap env (some location) size m =
      allocOnly cudaToNvmlMap env location size m := by
  unfold cuMemCreate
  dsimp only
  split
  · next dev hctx => rw [hdev dev hctx]
  · rfl

/-- **One allocation.** -/
theorem CreatedMemory.Inv.create (h : s.Inv base) {env : AllocOnlyEnv} {location : Dev}
    {size : UInt64} (hreg : (CreateCall.cuMemCreate env location size).Regular s)
    (hkeeps : (CreateCall.cuMemCreate env location size).Keeps s)
    (hst : s.step id (.cuMemCreate env location size) = some t) : t.Inv base := by
  obtain ⟨⟨ret, m⟩, hcall, rfl⟩ := Option.map_eq_some_iff.mp hst
  dsimp only
  rw [cuMemCreate_of_keeps hkeeps.1] at hcall
  cases allocOnly_exit hcall with
  | refused hcheck hoom =>
    rw [createdAfter_of_ne (by decide)]
    exact ⟨h.list_eq, h.ledger.check hcheck fun n => (hreg n).1, h.unlocked⟩
  | @notAllocated info res hcheck halloc =>
    rw [createdAfter_of_ne res.2]
    exact ⟨h.list_eq, h.ledger.check hcheck fun n => (hreg n).1, h.unlocked⟩
  | unrecorded hcheck halloc hcheck₂ hoom =>
    exact absurd (hkeeps.2 _ _ _ _ hcheck halloc hcheck₂).1 hoom
  | @recorded info₁ info₂ address hcheck halloc hcheck₂ hentry =>
    have hpid₁ : info₁.pid = s.mem.info.pid := (oomCheck_spec hcheck).1.pid_eq
    have hbetween := (h.ledger.check hcheck fun n => (hreg n).1).interlude env.others
    have hledger := hbetween.check hcheck₂ fun n => by
      show env.procAlive₂ n (env.others.move info₁).pid ≠ .nonalive
      rw [env.others.pid_eq, hpid₁]
      exact (hreg n).2
    refine ⟨?_, hledger.add ⟨address, size, location⟩, rfl⟩
    show s.mem.deviceOverallocated ++ [_] = _
    rw [h.list_eq, halloc]
    show _ = (s.created ++ [_]).map Creation.entry
    rw [List.map_append]
    rfl
  | abandoned hcheck halloc hcheck₂ hentry =>
    rw [(hkeeps.2 _ _ _ _ hcheck halloc hcheck₂).2] at hentry
    exact absurd hentry (by decide)

/-- **One release.**  The first entry with the handle and the first allocation with it are the same
one. -/
theorem CreatedMemory.Inv.release (h : s.Inv base) {release : Except CudaError Unit}
    {handle : UInt64} (hst : s.step id (.cuMemRelease release handle) = some t) : t.Inv base := by
  obtain ⟨⟨ret, m⟩, hcall, rfl⟩ := Option.map_eq_some_iff.mp hst
  dsimp only
  cases release with
  | error res =>
    cases hcall
    rw [if_neg res.2]
    exact h
  | ok _ =>
    obtain ⟨⟨ret₁, m₁⟩, honly, hout⟩ := Option.map_eq_some_iff.mp hcall
    cases hout
    obtain ⟨⟨ret₂, a⟩, hchunk, hout⟩ := Option.map_eq_some_iff.mp honly
    cases hout
    obtain ⟨hfreed, hmutex⟩ := removeChunkOnly_freed hchunk
    have herase : (s.created.map Creation.entry).eraseP (fun val => val.address = handle) =
        (s.created.eraseP fun c => c.handle = handle).map Creation.entry :=
      List.eraseP_map
    rw [if_pos rfl]
    rcases hfreed with ⟨hnone, hbooks⟩ | ⟨e, he, hbooks⟩
    · have hlist : a.deviceOverallocated = s.mem.deviceOverallocated := congrArg Prod.snd hbooks
      have hsame : (s.created.map Creation.entry).eraseP (fun val => val.address = handle) =
          s.created.map Creation.entry := by
        rw [← h.list_eq]
        exact List.eraseP_of_forall_not (List.find?_eq_none.mp hnone)
      refine ⟨?_, ?_, hmutex h.unlocked⟩
      · rw [← herase, hsame, ← h.list_eq]
        exact hlist
      · show Ledger id base a.books
        rw [hbooks]
        exact h.ledger
    · have hlist : a.deviceOverallocated =
          s.mem.deviceOverallocated.eraseP fun val => val.address = handle :=
        congrArg Prod.snd hbooks
      refine ⟨?_, ?_, hmutex h.unlocked⟩
      · rw [← herase, ← h.list_eq]
        exact hlist
      · show Ledger id base a.books
        rw [hbooks]
        exact h.ledger.remove he

theorem CreatedMemory.Inv.step (h : s.Inv base) {c : CreateCall} (hreg : c.Regular s)
    (hkeeps : c.Keeps s) (hst : s.step id c = some t) : t.Inv base := by
  cases c with
  | cuMemCreate env location size => exact h.create hreg hkeeps hst
  | cuMemRelease release handle => exact h.release hst

end Inv

/-- A registered process that has not allocated anything, at the slot `slot`. -/
structure CreatedMemory.Fresh (s : CreatedMemory) (slot : ShrregProcSlot) : Prop where
  registered : s.mem.Registered slot
  untracked : s.mem.deviceOverallocated = []
  created_eq : s.created = []
  unlocked : s.mem.mutexHeld = false

theorem CreatedMemory.Fresh.inv {s : CreatedMemory} {slot : ShrregProcSlot} (h : s.Fresh slot) :
    s.Inv slot.used where
  list_eq := by
    rw [h.untracked, h.created_eq]
    rfl
  ledger := by
    refine ⟨h.registered.pid_ne_zero, slot, h.registered.pointsAt, h.registered.pid_eq,
      fun k => ?_⟩
    have hnil : s.mem.books.2 = [] := h.untracked
    rw [hnil, trackedLength_nil]
    simp [DeviceMemory.grown]
  unlocked := h.unlocked

/-- **`cuMemCreate` charges the device that holds the memory**, along every run whose calls are made
in a context of the location's device or in no context, and whose allocations are recorded: each
device is charged with the unreleased allocations located on it, and the next such call checks the
limit of its location, the whole call being the one made for that device. -/
theorem created_charged {s t : CreatedMemory} {slot : ShrregProcSlot} (h : s.Fresh slot)
    (hrun : GuardedRun (CreatedMemory.step id) (fun u c => c.Regular u ∧ c.Keeps u) s t) :
    t.Charged slot.used ∧
      ∀ env location size, (CreateCall.cuMemCreate env location size).Keeps t →
        cuMemCreate id env (some location) size t.mem =
          allocOnly id env location size t.mem := by
  have hinv : t.Inv slot.used := hrun.invariant (P := CreatedMemory.Inv slot.used)
    (fun _ _ _ hu hok hst => hu.step hok.1 hok.2 hst) h.inv
  exact ⟨hinv.charged, fun env location size hkeeps => cuMemCreate_of_keeps hkeeps.1 id t.mem⟩

theorem AllocOnlyEnv.records_of_quiet {env : AllocOnlyEnv} (hquiet : env.others = .quiet)
    (hentry : env.entryOk = true) (dev : Dev) (size : UInt64) (info : RegionInfo) :
    env.Records dev size info := by
  intro info₁ address oom info₂ hcheck _ hcheck₂
  rw [hquiet] at hcheck₂
  exact ⟨oomCheck_again hcheck hcheck₂, hentry⟩

/-- A process alone in a region without limits, before its first allocation. -/
def createsNothing : CreatedMemory := ⟨aloneUnlimited, []⟩

theorem createsNothing_fresh : createsNothing.Fresh (slotHolding 1 0) :=
  ⟨aloneUnlimited_registered, rfl, rfl, rfl⟩

/-- The context's device is `dev`, the driver hands out the handle `4096`, and everything works. -/
def createsIn (dev : Dev) : AllocOnlyEnv where
  ctxDevice := .ok dev
  procAlive₁ := fun _ _ => .alive
  procAlive₂ := fun _ _ => .alive
  others := .quiet
  driver := .ok 4096
  entryOk := true

/-- Sixty-four bytes created on device `1` in a context of device `0` are charged to device `0`. -/
theorem created_charged_elsewhere :
    ∃ t slot, GuardedRun (CreatedMemory.step id) (fun u c => c.Regular u) createsNothing t ∧
      createdOn t.created 1 = 64 ∧ t.mem.info.PointsAt slot ∧
      (slot.used 1).total = 0 ∧ (slot.used 0).total = 64 := by
  refine ⟨_, (slotHolding 1 0).update (· + ·) 0 64 2,
    GuardedRun.head (a := .cuMemCreate (createsIn 0) 1 64) ?_ rfl (GuardedRun.refl _), by decide,
    ⟨0, rfl, by decide, rfl⟩, by decide, by decide⟩
  exact fun _ => by simp [createsIn]

/-- In a context of device `1` they are charged to device `1`. -/
theorem created_charged_on_location :
    ∃ t : CreatedMemory, createsNothing.Fresh (slotHolding 1 0) ∧ createdOn t.created 1 = 64 ∧
      t.Charged (slotHolding 1 0).used := by
  refine ⟨_, createsNothing_fresh, ?_, (created_charged createsNothing_fresh
    (GuardedRun.head (a := .cuMemCreate (createsIn 1) 1 64) ⟨?_, ?_, ?_⟩ rfl
      (GuardedRun.refl _))).1⟩
  · decide
  · exact fun _ => by simp [createsIn]
  · rintro dev hdev
    cases hdev
    rfl
  · exact AllocOnlyEnv.records_of_quiet rfl rfl 1 64 _

end HamiCore
