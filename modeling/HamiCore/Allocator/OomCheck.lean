import Mathlib.Logic.Relation
import HamiCore.Region.Usage

/-!
# The memory check

`oom_check` compares the registered usage of a device, plus the bytes asked for, with the limit.
When the limit would be passed it compacts the slot table, and as long as that drops a slot it
starts over: memory charged to processes that are gone is not held against the living ones.

A recursive call is made only after `proc_num` went down, so `proc_num + 1` levels are enough
(`oomCheck_eq`), and with no writer inside its seqlock section the check returns
(`oomCheck_ne_none`).  What it does to the region is a sequence of compactions (`Compacts`); what it
promises when it returns `0` is `OomPassed`, about the region it leaves.
-/

namespace HamiCore

/-- `oom_check(dev, addon)` with at most `fuel` levels of recursion, the `n`-th level asking
`procAlive n` who is alive.  The result is the return value and the caller's view afterwards; `none`
is a reader that waits for ever. -/
def oomCheckFuel (dev : Dev) (addon : UInt64) :
    ℕ → (ℕ → Pid → ProcState) → RegionInfo → Option (ℤ × RegionInfo)
  | 0, _, _ => none
  | fuel + 1, procAlive, info =>
    let limit := getCurrentDeviceMemoryLimit info.sharedRegion dev
    (getGpuMemoryUsage info.sharedRegion dev).bind fun usage =>
      if limit = 0 then some (0, info)
      else
        let newAllocated := usage + addon
        if limit < newAllocated then
          let cleared := clearProcSlotNolock (procAlive 0) 1 info
          if 0 < cleared.2 then oomCheckFuel dev addon fuel (fun n => procAlive (n + 1)) cleared.1
          else some (1, cleared.1)
        else some (0, info)

/-- `oom_check`. -/
def oomCheck (procAlive : ℕ → Pid → ProcState) (dev : Dev) (addon : UInt64) (info : RegionInfo) :
    Option (ℤ × RegionInfo) :=
  oomCheckFuel dev addon (info.sharedRegion.procNum + 1) procAlive info

/-- Any two amounts of fuel above `proc_num` give the same result. -/
theorem oomCheckFuel_congr (dev : Dev) (addon : UInt64) {fuel fuel' : ℕ}
    (procAlive : ℕ → Pid → ProcState) (info : RegionInfo)
    (h : info.sharedRegion.procNum < fuel) (h' : info.sharedRegion.procNum < fuel') :
    oomCheckFuel dev addon fuel procAlive info = oomCheckFuel dev addon fuel' procAlive info := by
  induction fuel generalizing fuel' procAlive info with
  | zero => omega
  | succ fuel ih =>
    cases fuel' with
    | zero => omega
    | succ fuel' =>
      rw [oomCheckFuel, oomCheckFuel]
      dsimp only
      congr 1
      funext usage
      split_ifs with hlim hover hpos
      · rfl
      · -- a recursive call: the slot table has become smaller
        rcases clearProcSlotNolock_res (procAlive 0) 1 info with hnone | ⟨-, hlt⟩
        · rw [hnone] at hpos
          exact absurd hpos (lt_irrefl 0)
        · exact ih _ _ (by omega) (by omega)
      · rfl
      · rfl

/-- **`oom_check` unfolds as it is written.** -/
theorem oomCheck_eq (procAlive : ℕ → Pid → ProcState) (dev : Dev) (addon : UInt64)
    (info : RegionInfo) :
    oomCheck procAlive dev addon info =
      (getGpuMemoryUsage info.sharedRegion dev).bind fun usage =>
        if getCurrentDeviceMemoryLimit info.sharedRegion dev = 0 then some (0, info)
        else if getCurrentDeviceMemoryLimit info.sharedRegion dev < usage + addon then
          if 0 < (clearProcSlotNolock (procAlive 0) 1 info).2 then
            oomCheck (fun n => procAlive (n + 1)) dev addon
              (clearProcSlotNolock (procAlive 0) 1 info).1
          else some (1, (clearProcSlotNolock (procAlive 0) 1 info).1)
        else some (0, info) := by
  rw [oomCheck, oomCheckFuel]
  dsimp only
  congr 1
  funext usage
  split_ifs with hlim hover hpos
  · rfl
  · rcases clearProcSlotNolock_res (procAlive 0) 1 info with hnone | ⟨-, hlt⟩
    · rw [hnone] at hpos
      exact absurd hpos (lt_irrefl 0)
    · exact oomCheckFuel_congr dev addon _ _ (by omega) (by omega)
  · rfl
  · rfl

/-- One compaction made by the check. -/
def CompactsOnce (procAlive : ℕ → Pid → ProcState) (info info' : RegionInfo) : Prop :=
  ∃ n, info' = (clearProcSlotNolock (procAlive n) 1 info).1

/-- What the check may do to the caller's view: a sequence of compactions. -/
def Compacts (procAlive : ℕ → Pid → ProcState) : RegionInfo → RegionInfo → Prop :=
  Relation.ReflTransGen (CompactsOnce procAlive)

/-- What a check that returned `0` has established: no limit is set, or the usage it read and the
bytes asked for stay within it.  The sum is the machine's. -/
def OomPassed (dev : Dev) (addon : UInt64) (r : SharedRegion) : Prop :=
  r.limit dev = 0 ∨ ∃ usage, getGpuMemoryUsage r dev = some usage ∧ usage + addon ≤ r.limit dev

theorem CompactsOnce.of_succ {procAlive : ℕ → Pid → ProcState} {info info' : RegionInfo}
    (h : CompactsOnce (fun n => procAlive (n + 1)) info info') :
    CompactsOnce procAlive info info' := by
  obtain ⟨n, hn⟩ := h
  exact ⟨n + 1, hn⟩

/-- **What `oom_check` does.**  It compacts, possibly several times, and returns `0` only when the
check passes on the region it leaves behind, and `1` otherwise. -/
theorem oomCheck_spec {procAlive : ℕ → Pid → ProcState} {dev : Dev} {addon : UInt64}
    {info : RegionInfo} {out : ℤ × RegionInfo} (h : oomCheck procAlive dev addon info = some out) :
    Compacts procAlive info out.2 ∧
      ((out.1 = 0 ∧ OomPassed dev addon out.2.sharedRegion) ∨ out.1 = 1) := by
  -- on the size of the slot table, which every recursive call finds smaller
  induction hn : info.sharedRegion.procNum using Nat.strong_induction_on
    generalizing procAlive info with
  | _ n ih =>
    rw [oomCheck_eq] at h
    obtain ⟨usage, husage, hout⟩ := Option.bind_eq_some_iff.mp h
    have hstep : CompactsOnce procAlive info (clearProcSlotNolock (procAlive 0) 1 info).1 :=
      ⟨0, rfl⟩
    split_ifs at hout with hlim hover hpos
    · rw [← Option.some.inj hout]
      exact ⟨Relation.ReflTransGen.refl, Or.inl ⟨rfl, Or.inl hlim⟩⟩
    · rcases clearProcSlotNolock_res (procAlive 0) 1 info with hnone | ⟨-, hlt⟩
      · rw [hnone] at hpos
        exact absurd hpos (lt_irrefl 0)
      · obtain ⟨hcomp, hret⟩ := ih _ (hn ▸ hlt) hout rfl
        refine ⟨Relation.ReflTransGen.head hstep ?_, hret⟩
        exact Relation.ReflTransGen.mono (p := CompactsOnce procAlive)
          (fun _ _ => CompactsOnce.of_succ) _ _ hcomp
    · rw [← Option.some.inj hout]
      exact ⟨Relation.ReflTransGen.single hstep, Or.inr rfl⟩
    · rw [← Option.some.inj hout]
      exact ⟨Relation.ReflTransGen.refl,
        Or.inl ⟨rfl, Or.inr ⟨usage, husage, UInt64.not_lt.mp hover⟩⟩⟩

/-- A check that returned `0` has passed on the region it leaves behind. -/
theorem oomCheck_passed {procAlive : ℕ → Pid → ProcState} {dev : Dev} {addon : UInt64}
    {info info' : RegionInfo} (h : oomCheck procAlive dev addon info = some (0, info')) :
    OomPassed dev addon info'.sharedRegion := by
  obtain ⟨-, ⟨-, hpassed⟩ | hone⟩ := oomCheck_spec h
  · exact hpassed
  · exact absurd hone Int.zero_ne_one

/-- What a passed check says about the registered usage, where a limit is set and the sum it formed
did not wrap. -/
theorem OomPassed.usageSum_le {dev : Dev} {addon : UInt64} {r : SharedRegion}
    (h : OomPassed dev addon r) (hlim : r.limit dev ≠ 0)
    (hwrap : r.usageSum dev + addon.toNat < 2 ^ 64) :
    r.usageSum dev + addon.toNat ≤ (r.limit dev).toNat := by
  rcases h with hzero | ⟨usage, husage, hsum⟩
  · exact absurd hzero hlim
  · have hsum' := UInt64.le_iff_toNat_le.mp hsum
    rwa [UInt64.toNat_add, getGpuMemoryUsage_toNat husage, Nat.mod_add_mod,
      Nat.mod_eq_of_lt hwrap] at hsum'

/-- When nobody else moves, a second check passes where the first did. -/
theorem oomCheck_again {procAlive procAlive' : ℕ → Pid → ProcState} {dev : Dev} {size : UInt64}
    {info info' : RegionInfo} {out : ℤ × RegionInfo}
    (h : oomCheck procAlive dev size info = some (0, info'))
    (h' : oomCheck procAlive' dev size info' = some out) : out.1 = 0 := by
  rw [oomCheck_eq] at h'
  obtain ⟨usage, husage, hout⟩ := Option.bind_eq_some_iff.mp h'
  rcases oomCheck_passed h with hlim | ⟨usage', husage', hle⟩
  · have hlim' : getCurrentDeviceMemoryLimit info'.sharedRegion dev = 0 := hlim
    rw [if_pos hlim'] at hout
    cases hout
    rfl
  · obtain rfl : usage' = usage := Option.some.inj (husage'.symm.trans husage)
    split_ifs at hout with hlim hover hpos
    · cases hout
      rfl
    · exact absurd hover (UInt64.not_lt.mpr hle)
    · exact absurd hover (UInt64.not_lt.mpr hle)
    · cases hout
      rfl

/-- **The check returns** when no writer is inside its seqlock section. -/
theorem oomCheck_ne_none (procAlive : ℕ → Pid → ProcState) (dev : Dev) (addon : UInt64)
    {info : RegionInfo} (h : info.sharedRegion.SeqlocksEven) :
    ∃ out, oomCheck procAlive dev addon info = some out := by
  induction hn : info.sharedRegion.procNum using Nat.strong_induction_on
    generalizing procAlive info with
  | _ n ih =>
    obtain ⟨usage, husage⟩ := getGpuMemoryUsage_ne_none h dev
    rw [oomCheck_eq, husage, Option.bind_some]
    split_ifs with hlim hover hpos
    · exact ⟨_, rfl⟩
    · rcases clearProcSlotNolock_res (procAlive 0) 1 info with hnone | ⟨-, hlt⟩
      · rw [hnone] at hpos
        exact absurd hpos (lt_irrefl 0)
      · exact ih _ (hn ▸ hlt) _ (clearProcSlotNolock_seqlocksEven h) rfl
    · exact ⟨_, rfl⟩
    · exact ⟨_, rfl⟩

/-- **The induction rule for the check.**  What every compaction keeps, the check keeps. -/
theorem Compacts.invariant {procAlive : ℕ → Pid → ProcState} {P : RegionInfo → Prop}
    (hP : ∀ info n, P info → P (clearProcSlotNolock (procAlive n) 1 info).1)
    {info info' : RegionInfo}
    (h : Compacts procAlive info info') (hinfo : P info) : P info' := by
  induction h with
  | refl => exact hinfo
  | tail _ hstep ih =>
    obtain ⟨n, rfl⟩ := hstep
    exact hP _ n ih

section Frame

variable {procAlive : ℕ → Pid → ProcState} {info info' : RegionInfo}

theorem Compacts.pid_eq (h : Compacts procAlive info info') : info'.pid = info.pid :=
  h.invariant (P := fun i => i.pid = info.pid)
    (fun _ _ hi => (clearProcSlotNolock_pid _).trans hi) rfl

theorem Compacts.limit_eq (h : Compacts procAlive info info') :
    info'.sharedRegion.limit = info.sharedRegion.limit :=
  h.invariant (P := fun i => i.sharedRegion.limit = info.sharedRegion.limit)
    (fun _ _ hi => (clearProcSlotNolock_limit _).trans hi) rfl

theorem Compacts.usageSum_le (h : Compacts procAlive info info') (dev : Dev) :
    info'.sharedRegion.usageSum dev ≤ info.sharedRegion.usageSum dev :=
  h.invariant (P := fun i => i.sharedRegion.usageSum dev ≤ info.sharedRegion.usageSum dev)
    (fun i n hi => (clearProcSlotNolock_usageSum_le (procAlive n) 1 i dev).trans hi) le_rfl

theorem Compacts.seqlocksEven (h : Compacts procAlive info info')
    (heven : info.sharedRegion.SeqlocksEven) : info'.sharedRegion.SeqlocksEven :=
  h.invariant (P := fun i => i.sharedRegion.SeqlocksEven)
    (fun _ _ hi => clearProcSlotNolock_seqlocksEven hi) heven

/-- The caller keeps track of its own slot through the compactions. -/
theorem Compacts.pointsAt (h : Compacts procAlive info info') {s : ShrregProcSlot}
    (hkeep : ∀ n, ¬ s.Droppable (procAlive n)) (hs : info.PointsAt s) : info'.PointsAt s :=
  h.invariant (P := fun i => i.PointsAt s)
    (fun _ n hi => clearProcSlotNolock_pointsAt (hkeep n) hi) hs

end Frame

end HamiCore
