import HamiCore.Allocator.OomCheck

/-!
# What the memory check decides

`oom_check` adds up the registered usage and the bytes asked for in 64-bit arithmetic, and compares
the result with the limit.  Two questions are settled here.

Where the sum does not reach `2 ^ 64`, the check is exact (`oomCheck_exact`): a request is refused
if and only if it does not fit beside what the living processes hold.  Memory charged to the dead is
not held against it, although the check may let a request pass while dead slots are still counted,
and although one round drops ten of them at most.

Where the sum does reach `2 ^ 64` it wraps, and the check may pass a request that is far above the
limit.  The check returns `0` in the first round whose wrapped sum is within the limit
(`oomCheck_eq_zero_iff`), so it is unsound exactly when one of the rounds has a sum that is too
large to be represented and small after wrapping (`oomCheck_sound_iff`).
-/

namespace HamiCore

open Multiset

/-- The registered slots whose process has neither left nor died. -/
def SharedRegion.liveSlots (procAlive : Pid → ProcState) (r : SharedRegion) :
    Multiset ShrregProcSlot :=
  (r.slotsFrom 0).filter fun s => ¬ s.Droppable procAlive

/-- What the living hold of a device. -/
def SharedRegion.liveSum (procAlive : Pid → ProcState) (r : SharedRegion) (dev : Dev) : ℕ :=
  ((r.liveSlots procAlive).map fun s => (s.used dev).total.toNat).sum

theorem SharedRegion.liveSum_le_usageSum (procAlive : Pid → ProcState) (r : SharedRegion)
    (dev : Dev) : r.liveSum procAlive dev ≤ r.usageSum dev := by
  obtain ⟨rest, hrest⟩ := Multiset.le_iff_exists_add.mp
    (filter_le (fun s => ¬ s.Droppable procAlive) (r.slotsFrom 0))
  rw [r.usageSum_eq_sum_slots, hrest, Multiset.map_add, Multiset.sum_add]
  exact Nat.le_add_right _ _

/-- What a compaction takes away is not alive. -/
theorem clearProcSlotNolock_liveSlots (procAlive : Pid → ProcState) (doClear : ℤ)
    (info : RegionInfo) :
    (clearProcSlotNolock procAlive doClear info).1.sharedRegion.liveSlots procAlive =
      info.sharedRegion.liveSlots procAlive := by
  obtain ⟨R, hR, -, hslots⟩ := (clearProcSlotNolock_clearedFrom procAlive doClear info).slots
  have hgone : ((info.sharedRegion.slotsFrom 0).filter ShrregProcSlot.Exited + R).filter
      (fun s => ¬ s.Droppable procAlive) = 0 := by
    refine filter_eq_nil.mpr fun s hs hkeep => ?_
    rcases mem_add.mp hs with hexited | hdead
    · exact hkeep (Or.inl (mem_filter.mp hexited).2)
    · exact hkeep (Or.inr (mem_filter.mp (mem_of_le hR hdead)).2.2)
  unfold SharedRegion.liveSlots
  conv_rhs => rw [hslots]
  rw [filter_add, hgone, add_zero]

/-- A compaction that finds nothing to drop finds nobody but the living. -/
theorem liveSum_of_nothing_dropped {procAlive : Pid → ProcState} {info : RegionInfo}
    (h : clearProcSlotNolock procAlive 1 info = (info, 0)) (dev : Dev) :
    info.sharedRegion.liveSum procAlive dev = info.sharedRegion.usageSum dev := by
  have hcount := clearProcSlotNolock_procNum procAlive info
  rw [h] at hcount
  have hnone : droppedCount procAlive info.sharedRegion = 0 := by
    dsimp only at hcount
    omega
  unfold droppedCount at hnone
  have hexited : (info.sharedRegion.slotsFrom 0).filter ShrregProcSlot.Exited = 0 :=
    card_eq_zero.mp (by omega)
  have hdead : (info.sharedRegion.slotsFrom 0).filter (ShrregProcSlot.Dead procAlive) = 0 :=
    card_eq_zero.mp (by omega)
  have hall : info.sharedRegion.liveSlots procAlive = info.sharedRegion.slotsFrom 0 := by
    refine filter_eq_self.mpr fun s hs hdrop => ?_
    by_cases h0 : s.pid = 0
    · exact filter_eq_nil.mp hexited s hs h0
    · exact filter_eq_nil.mp hdead s hs ⟨h0, hdrop.resolve_left h0⟩
  rw [SharedRegion.liveSum, hall, SharedRegion.usageSum_eq_sum_slots]

/-! ## One round -/

/-- The registered usage and the bytes asked for, as a natural number. -/
def RegionInfo.requested (dev : Dev) (addon : UInt64) (info : RegionInfo) : ℕ :=
  addon.toNat + info.sharedRegion.usageSum dev

/-- A round of the check passes: the sum, as the machine computes it, is within the limit. -/
def RegionInfo.Passes (dev : Dev) (addon : UInt64) (info : RegionInfo) : Prop :=
  info.requested dev addon % 2 ^ 64 ≤ (info.sharedRegion.limit dev).toNat

/-- The comparison of the source, on natural numbers. -/
theorem limit_lt_iff_not_passes {dev : Dev} {addon usage : UInt64} {info : RegionInfo}
    (h : getGpuMemoryUsage info.sharedRegion dev = some usage) :
    getCurrentDeviceMemoryLimit info.sharedRegion dev < usage + addon ↔
      ¬ info.Passes dev addon := by
  rw [UInt64.lt_iff_toNat_lt, UInt64.toNat_add, getGpuMemoryUsage_toNat h, Nat.mod_add_mod,
    RegionInfo.Passes, RegionInfo.requested, Nat.add_comm, not_le]
  rfl

/-- **The check, round by round**, on a device with a limit and with no writer inside its seqlock
section. -/
theorem oomCheck_cases (procAlive : ℕ → Pid → ProcState) {dev : Dev} (addon : UInt64)
    {info : RegionInfo} (heven : info.sharedRegion.SeqlocksEven)
    (hlim : info.sharedRegion.limit dev ≠ 0) :
    (info.Passes dev addon ∧ oomCheck procAlive dev addon info = some (0, info)) ∨
      (¬ info.Passes dev addon ∧ (clearProcSlotNolock (procAlive 0) 1 info).2 = 1 ∧
        (clearProcSlotNolock (procAlive 0) 1 info).1.sharedRegion.procNum <
          info.sharedRegion.procNum ∧
        oomCheck procAlive dev addon info = oomCheck (fun n => procAlive (n + 1)) dev addon
          (clearProcSlotNolock (procAlive 0) 1 info).1) ∨
      (¬ info.Passes dev addon ∧ clearProcSlotNolock (procAlive 0) 1 info = (info, 0) ∧
        oomCheck procAlive dev addon info = some (1, info)) := by
  obtain ⟨usage, husage⟩ := getGpuMemoryUsage_ne_none heven dev
  have hlim' : ¬ getCurrentDeviceMemoryLimit info.sharedRegion dev = 0 := hlim
  rw [oomCheck_eq, husage, Option.bind_some, if_neg hlim']
  by_cases hpass : info.Passes dev addon
  · rw [if_neg ((limit_lt_iff_not_passes husage).not.mpr (not_not.mpr hpass))]
    exact Or.inl ⟨hpass, rfl⟩
  · rw [if_pos ((limit_lt_iff_not_passes husage).mpr hpass)]
    rcases clearProcSlotNolock_res (procAlive 0) 1 info with hnone | ⟨hres, hlt⟩
    · rw [hnone, if_neg (lt_irrefl 0)]
      exact Or.inr (Or.inr ⟨hpass, rfl, rfl⟩)
    · rw [if_pos (hres.symm ▸ Nat.zero_lt_one)]
      exact Or.inr (Or.inl ⟨hpass, hres, hlt, rfl⟩)

/-! ## Sums that fit -/

/-- **The check is exact.**  On a device with a limit, with no writer inside its seqlock section,
an oracle that does not change its mind and a sum below `2 ^ 64`, the check returns; it returns `1`
if and only if the request does not fit beside what the living hold, and `0` otherwise.  The slots
of the living keep their contents. -/
theorem oomCheck_exact (procAlive : Pid → ProcState) {dev : Dev} {addon : UInt64}
    {info : RegionInfo} (heven : info.sharedRegion.SeqlocksEven)
    (hlim : info.sharedRegion.limit dev ≠ 0)
    (hfit : addon.toNat + info.sharedRegion.usageSum dev < 2 ^ 64) :
    ∃ res info', oomCheck (fun _ => procAlive) dev addon info = some (res, info') ∧
      (res = 1 ↔ (info.sharedRegion.limit dev).toNat <
        addon.toNat + info.sharedRegion.liveSum procAlive dev) ∧
      (res = 0 ∨ res = 1) ∧
      info'.sharedRegion.liveSlots procAlive = info.sharedRegion.liveSlots procAlive := by
  induction hn : info.sharedRegion.procNum using Nat.strong_induction_on generalizing info with
  | _ n ih =>
    have hmod : info.requested dev addon % 2 ^ 64 = info.requested dev addon :=
      Nat.mod_eq_of_lt hfit
    have hlive := info.sharedRegion.liveSum_le_usageSum procAlive dev
    rcases oomCheck_cases (fun _ => procAlive) addon heven hlim with
      ⟨hpass, hout⟩ | ⟨-, -, hlt, hout⟩ | ⟨hpass, hnone, hout⟩
    · -- within the limit, the dead still counted
      rw [RegionInfo.Passes, hmod, RegionInfo.requested] at hpass
      refine ⟨0, info, hout, ⟨fun h => absurd h (by decide), fun h => ?_⟩, Or.inl rfl, rfl⟩
      omega
    · have hle := clearProcSlotNolock_usageSum_le procAlive 1 info dev
      have hslots := clearProcSlotNolock_liveSlots procAlive 1 info
      have hlimit : (clearProcSlotNolock procAlive 1 info).1.sharedRegion.limit dev =
          info.sharedRegion.limit dev := by rw [clearProcSlotNolock_limit]
      obtain ⟨res, info', hrec, hres, hbool, hkept⟩ := ih _ (hn ▸ hlt)
        (clearProcSlotNolock_seqlocksEven heven) (hlimit ▸ hlim) (by omega) rfl
      refine ⟨res, info', hout.trans hrec, ?_, hbool, hkept.trans hslots⟩
      rw [hres, hlimit, SharedRegion.liveSum, SharedRegion.liveSum, hslots]
    · -- above the limit, and nobody to drop
      rw [RegionInfo.Passes, hmod, RegionInfo.requested] at hpass
      have hsum := liveSum_of_nothing_dropped hnone dev
      refine ⟨1, info, hout, ⟨fun _ => ?_, fun _ => rfl⟩, Or.inr rfl, rfl⟩
      omega

/-- A slot of `pid` with `total` bytes on every device. -/
def slotHolding (pid : Pid) (total : UInt64) : ShrregProcSlot :=
  { ShrregProcSlot.blank with pid := pid, used := fun _ => ⟨0, 0, 0, 0, total⟩ }

/-- A limit of ten bytes, of which process `1` holds three and process `7` nine. -/
def threeAndNine : RegionInfo where
  pid := 1
  sharedRegion :=
    { limit := fun _ => 10
      procs := fun i => if i = 0 then slotHolding 1 3 else slotHolding 7 9
      procNum := 2 }
  mySlot := some 0

theorem threeAndNine_seqlocksEven : threeAndNine.sharedRegion.SeqlocksEven := by
  intro i _
  show (if i = 0 then slotHolding 1 3 else slotHolding 7 9).seqlock % 2 ≠ 1
  split_ifs <;> decide

/-- Five bytes more fit once process `7` is found dead. -/
theorem oomCheck_exact_threeAndNine :
    ∃ info', oomCheck (fun _ pid => if pid = 7 then .nonalive else .alive) 0 5 threeAndNine =
      some (0, info') := by
  have hfit : (5 : UInt64).toNat + threeAndNine.sharedRegion.usageSum 0 < 2 ^ 64 := by decide
  obtain ⟨res, info', hout, hres, hbool, -⟩ := oomCheck_exact
    (fun pid => if pid = 7 then .nonalive else .alive) threeAndNine_seqlocksEven (by decide) hfit
  have hlive : threeAndNine.sharedRegion.liveSum
      (fun pid => if pid = 7 then .nonalive else .alive) 0 = 3 := by decide
  rw [hlive] at hres
  have h0 : res = 0 := hbool.resolve_right (hres.not.mpr (by decide))
  exact ⟨info', h0 ▸ hout⟩

/-! ## Sums that wrap -/

/-- The region after `k` rounds of `clear_proc_slot_nolock(1)`, or after fewer if a round finds
nothing to drop. -/
def clearRounds : ℕ → (ℕ → Pid → ProcState) → RegionInfo → RegionInfo
  | 0, _, info => info
  | k + 1, procAlive, info =>
    if 0 < (clearProcSlotNolock (procAlive 0) 1 info).2 then
      clearRounds k (fun n => procAlive (n + 1)) (clearProcSlotNolock (procAlive 0) 1 info).1
    else info

/-- The bytes asked for and the registered usage are together too large for the machine, and what
is left of them after wrapping is within the limit. -/
def RegionInfo.WrapsBelowLimit (dev : Dev) (addon : UInt64) (info : RegionInfo) : Prop :=
  2 ^ 64 ≤ info.requested dev addon ∧ info.Passes dev addon

section Rounds

variable {procAlive : ℕ → Pid → ProcState} {info : RegionInfo}

theorem clearRounds_succ_of_dropped (k : ℕ)
    (h : (clearProcSlotNolock (procAlive 0) 1 info).2 = 1) :
    clearRounds (k + 1) procAlive info =
      clearRounds k (fun n => procAlive (n + 1)) (clearProcSlotNolock (procAlive 0) 1 info).1 := by
  rw [clearRounds, h, if_pos Nat.zero_lt_one]

theorem clearRounds_of_nothing_dropped (k : ℕ)
    (h : clearProcSlotNolock (procAlive 0) 1 info = (info, 0)) :
    clearRounds k procAlive info = info := by
  cases k with
  | zero => rfl
  | succ k => rw [clearRounds, h, if_neg (lt_irrefl 0)]

theorem clearRounds_limit (k : ℕ) :
    (clearRounds k procAlive info).sharedRegion.limit = info.sharedRegion.limit := by
  induction k generalizing procAlive info with
  | zero => rfl
  | succ k ih =>
    rw [clearRounds]
    split_ifs
    · rw [ih, clearProcSlotNolock_limit]
    · rfl

theorem clearRounds_usageSum_le (k : ℕ) (procAlive : ℕ → Pid → ProcState) (info : RegionInfo)
    (dev : Dev) :
    (clearRounds k procAlive info).sharedRegion.usageSum dev ≤ info.sharedRegion.usageSum dev := by
  induction k generalizing procAlive info with
  | zero => exact le_rfl
  | succ k ih =>
    rw [clearRounds]
    split_ifs
    · exact (ih _ _).trans (clearProcSlotNolock_usageSum_le _ 1 info dev)
    · exact le_rfl

/-- Later rounds register less. -/
theorem clearRounds_usageSum_anti (procAlive : ℕ → Pid → ProcState) (info : RegionInfo) {j k : ℕ}
    (hjk : j ≤ k) (dev : Dev) :
    (clearRounds k procAlive info).sharedRegion.usageSum dev ≤
      (clearRounds j procAlive info).sharedRegion.usageSum dev := by
  induction j generalizing k procAlive info with
  | zero => exact clearRounds_usageSum_le k procAlive info dev
  | succ j ih =>
    obtain ⟨k, rfl⟩ : ∃ k', k = k' + 1 := ⟨k - 1, by omega⟩
    rw [clearRounds, clearRounds]
    split_ifs
    · exact ih _ _ (by omega)
    · exact le_rfl

/-- **The first round that passes.**  The check returns `0` after as many rounds as are needed for
the sum, as the machine computes it, to come within the limit. -/
theorem oomCheck_eq_zero_iff {dev : Dev} {addon : UInt64} (heven : info.sharedRegion.SeqlocksEven)
    (hlim : info.sharedRegion.limit dev ≠ 0) {info' : RegionInfo} :
    oomCheck procAlive dev addon info = some (0, info') ↔
      ∃ k, clearRounds k procAlive info = info' ∧ info'.Passes dev addon ∧
        ∀ j < k, ¬ (clearRounds j procAlive info).Passes dev addon := by
  induction hn : info.sharedRegion.procNum using Nat.strong_induction_on
    generalizing procAlive info with
  | _ n ih =>
    rcases oomCheck_cases procAlive addon heven hlim with
      ⟨hpass, hout⟩ | ⟨hpass, hres, hlt, hout⟩ | ⟨hpass, hnone, hout⟩
    · rw [hout]
      constructor
      · intro h
        cases h
        exact ⟨0, rfl, hpass, fun j hj => absurd hj (Nat.not_lt_zero j)⟩
      · rintro ⟨k, rfl, -, hfirst⟩
        cases k with
        | zero => rfl
        | succ k => exact absurd hpass (hfirst 0 k.succ_pos)
    · have hlimit : (clearProcSlotNolock (procAlive 0) 1 info).1.sharedRegion.limit dev =
          info.sharedRegion.limit dev := by rw [clearProcSlotNolock_limit]
      rw [hout, ih _ (hn ▸ hlt) (clearProcSlotNolock_seqlocksEven heven) (hlimit ▸ hlim) rfl]
      constructor
      · rintro ⟨k, hk, hpassk, hfirst⟩
        refine ⟨k + 1, (clearRounds_succ_of_dropped k hres).trans hk, hpassk, fun j hj => ?_⟩
        cases j with
        | zero => exact hpass
        | succ j =>
          rw [clearRounds_succ_of_dropped j hres]
          exact hfirst j (by omega)
      · rintro ⟨k, hk, hpassk, hfirst⟩
        cases k with
        | zero =>
          have hsame : info = info' := hk
          exact absurd (hsame ▸ hpassk) hpass
        | succ k =>
          refine ⟨k, (clearRounds_succ_of_dropped k hres).symm.trans hk, hpassk, fun j hj => ?_⟩
          rw [← clearRounds_succ_of_dropped j hres]
          exact hfirst (j + 1) (by omega)
    · rw [hout]
      constructor
      · intro h
        cases h
      · rintro ⟨k, rfl, hpassk, -⟩
        rw [clearRounds_of_nothing_dropped k hnone] at hpassk
        exact absurd hpassk hpass

end Rounds

theorem usageLoop_seqlocksEven {procs : ℕ → ShrregProcSlot} {dev : Dev} {n : ℕ} {v : UInt64}
    (h : usageLoop procs dev n = some v) : ∀ i < n, (procs i).seqlock % 2 ≠ 1 := by
  induction n generalizing v with
  | zero => exact fun i hi => absurd hi (Nat.not_lt_zero i)
  | succ n ih =>
    obtain ⟨before, hbefore, hrest⟩ := Option.bind_eq_some_iff.mp h
    obtain ⟨heven, -⟩ := Option.ite_none_left_eq_some.mp hrest
    intro i hi
    rcases Nat.lt_succ_iff_lt_or_eq.mp hi with hlt | rfl
    · exact ih hbefore i hlt
    · exact heven

/-- A check that returns has found no writer inside its seqlock section. -/
theorem seqlocksEven_of_oomCheck {procAlive : ℕ → Pid → ProcState} {dev : Dev} {addon : UInt64}
    {info : RegionInfo} {out : ℤ × RegionInfo} (h : oomCheck procAlive dev addon info = some out) :
    info.sharedRegion.SeqlocksEven := by
  rw [oomCheck_eq] at h
  obtain ⟨usage, husage, -⟩ := Option.bind_eq_some_iff.mp h
  obtain ⟨total, htotal, -⟩ := Option.map_eq_some_iff.mp husage
  exact usageLoop_seqlocksEven htotal

/-- **When the check is sound.**  On a device with a limit, a check that returns `0` leaves the
request within the limit, as natural numbers, if and only if no round of compaction brings the sum
to a value that is too large for the machine and within the limit after wrapping.  (With a writer
inside its seqlock section the check does not return.) -/
theorem oomCheck_sound_iff (procAlive : ℕ → Pid → ProcState) {dev : Dev} (addon : UInt64)
    (info : RegionInfo) (hlim : info.sharedRegion.limit dev ≠ 0) :
    (∀ info', oomCheck procAlive dev addon info = some (0, info') →
        addon.toNat + info'.sharedRegion.usageSum dev ≤ (info.sharedRegion.limit dev).toNat) ↔
      (info.sharedRegion.SeqlocksEven →
        ∀ k, ¬ (clearRounds k procAlive info).WrapsBelowLimit dev addon) := by
  constructor
  · intro h heven k hwrap
    -- the first round that passes comes no later than the one that wraps, so its sum is no smaller
    classical
    have hex : ∃ j, (clearRounds j procAlive info).Passes dev addon := ⟨k, hwrap.2⟩
    have hle := h _ ((oomCheck_eq_zero_iff heven hlim).mpr
      ⟨Nat.find hex, rfl, Nat.find_spec hex, fun j hj => Nat.find_min hex hj⟩)
    have hanti := clearRounds_usageSum_anti procAlive info (Nat.find_min' hex hwrap.2) dev
    have hbig := hwrap.1
    rw [RegionInfo.requested] at hbig
    have hlt := (info.sharedRegion.limit dev).toNat_lt
    omega
  · intro h info' hout
    have heven := seqlocksEven_of_oomCheck hout
    obtain ⟨k, rfl, hpass, -⟩ := (oomCheck_eq_zero_iff heven hlim).mp hout
    by_contra hover
    refine h heven k ⟨?_, hpass⟩
    by_contra hsmall
    rw [RegionInfo.Passes, Nat.mod_eq_of_lt (not_le.mp hsmall), clearRounds_limit] at hpass
    exact hover hpass

/-- With twelve bytes registered, a request of three bytes short of `2 ^ 64` wraps to nine and is
let through. -/
theorem oomCheck_wraps_threeAndNine :
    threeAndNine.sharedRegion.limit 0 ≠ 0 ∧
      ∃ info', oomCheck (fun _ _ => .alive) 0 (0 - 3) threeAndNine = some (0, info') ∧
        (threeAndNine.sharedRegion.limit 0).toNat <
          (0 - 3 : UInt64).toNat + info'.sharedRegion.usageSum 0 :=
  ⟨by decide, threeAndNine, rfl, by decide⟩

/-- A request of five bytes does not wrap, and is refused while process `7` lives. -/
theorem oomCheck_sound_threeAndNine :
    threeAndNine.sharedRegion.limit 0 ≠ 0 ∧
      ∀ info', oomCheck (fun _ _ => .alive) 0 5 threeAndNine = some (0, info') →
        (5 : UInt64).toNat + info'.sharedRegion.usageSum 0 ≤
          (threeAndNine.sharedRegion.limit 0).toNat := by
  refine ⟨by decide, (oomCheck_sound_iff _ 5 threeAndNine (by decide)).mpr fun _ k hwrap => ?_⟩
  have hle := clearRounds_usageSum_le k (fun _ _ => .alive) threeAndNine 0
  have hsum : threeAndNine.sharedRegion.usageSum 0 = 12 := by decide
  have hbig := hwrap.1
  rw [RegionInfo.requested] at hbig
  have hfive : (5 : UInt64).toNat = 5 := rfl
  omega

end HamiCore
