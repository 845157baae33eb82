import HamiCore.Allocator.Create
import Mathlib.Order.Bounds.Defs

/-!
# The size of a pitched allocation

`cuMemAllocPitch_v2` cannot know the pitch the driver will choose, and charges for rows rounded up
to a multiple of the element size.  The three numbers come from the application, and the product is
computed in 64 bits: it is the size meant exactly when the element size is not zero and nothing
wraps around (`pitchSizeExact_iff`).
-/

namespace HamiCore

/-- The smallest multiple of `e` that is at least `w`. -/
def roundUp (w e : ℕ) : ℕ := (w + e - 1) / e * e

theorem isLeast_roundUp (w : ℕ) {e : ℕ} (he : 0 < e) :
    IsLeast {n | e ∣ n ∧ w ≤ n} (roundUp w e) := by
  refine ⟨⟨Nat.dvd_mul_left e _, ?_⟩, ?_⟩
  · have := Nat.lt_div_mul_add (a := w + e - 1) he
    rw [roundUp]
    omega
  · rintro _ ⟨⟨k, rfl⟩, hk⟩
    rw [roundUp, Nat.mul_comm e k]
    refine Nat.mul_le_mul_right e (Nat.lt_succ_iff.mp ?_)
    rw [Nat.div_lt_iff_lt_mul he, Nat.succ_mul, Nat.mul_comm k e]
    omega

/-- `n` bytes are `height` rows of `widthInBytes` bytes, each rounded up to whole elements. -/
def IsPitchSize (widthInBytes height : UInt64) (elementSizeBytes : UInt32) (n : ℕ) : Prop :=
  ∃ pitch, IsLeast {k | elementSizeBytes.toNat ∣ k ∧ widthInBytes.toNat ≤ k} pitch ∧
    n = pitch * height.toNat

/-- `bytesize` in `cuMemAllocPitch_v2`; `none` is a division by zero. -/
def pitchBytesize (widthInBytes height : UInt64) (elementSizeBytes : UInt32) : Option UInt64 :=
  if elementSizeBytes = 0 then none else some (guessPitchBytes widthInBytes height elementSizeBytes)

section Pitch

variable (cudaToNvmlMap : Dev → Dev) {widthInBytes height : UInt64} {elementSizeBytes : UInt32}

/-- The hook computes its size first. -/
theorem cuMemAllocPitchV2_eq (env : AllocOnlyEnv) (m : CudaMemory) :
    cuMemAllocPitchV2 cudaToNvmlMap env widthInBytes height elementSizeBytes m =
      (pitchBytesize widthInBytes height elementSizeBytes).bind fun bytesize =>
        match env.ctxDevice with
        | .error res => some (res.val, m)
        | .ok dev => allocOnly cudaToNvmlMap env dev bytesize m := by
  rw [cuMemAllocPitchV2, pitchBytesize]
  split_ifs <;> rfl

/-- The sizes in `cuMemAllocPitch_v2` are those of the rows: the size is computed, it is the one
checked on the way to the driver call, and the one recorded and charged afterwards. -/
structure PitchSizeExact (widthInBytes height : UInt64) (elementSizeBytes : UInt32) : Prop where
  noDivisionByZero : pitchBytesize widthInBytes height elementSizeBytes ≠ none
  checked : ∀ (env : AllocOnlyEnv) (m : CudaMemory) (dev : Dev) (info : RegionInfo)
    (bytesize : UInt64), pitchBytesize widthInBytes height elementSizeBytes = some bytesize →
    env.ctxDevice = .ok dev → oomCheck env.procAlive₁ dev bytesize m.info = some (0, info) →
    IsPitchSize widthInBytes height elementSizeBytes bytesize.toNat
  charged : ∀ (env : AllocOnlyEnv) (m m' : CudaMemory) (ret : ℤ),
    cuMemAllocPitchV2 cudaToNvmlMap env widthInBytes height elementSizeBytes m = some (ret, m') →
    m'.deviceOverallocated = m.deviceOverallocated ∨
      ∃ address bytesize dev info,
        m'.deviceOverallocated = m.deviceOverallocated ++ [⟨address, bytesize, dev⟩] ∧
        m'.info = (addGpuDeviceMemoryUsage cudaToNvmlMap info info.pid dev bytesize 2).1 ∧
        IsPitchSize widthInBytes height elementSizeBytes bytesize.toNat

/-- The size as a natural number: a width of `0` counts as `2 ^ 64`, and the product is reduced. -/
theorem toNat_guessPitchBytes (widthInBytes height : UInt64) {elementSizeBytes : UInt32}
    (he : elementSizeBytes ≠ 0) :
    (guessPitchBytes widthInBytes height elementSizeBytes).toNat
      = roundUp (if widthInBytes = 0 then 2 ^ 64 else widthInBytes.toNat) elementSizeBytes.toNat
          * height.toNat % 2 ^ 64 := by
  have hpos : 0 < elementSizeBytes.toNat := by
    rw [Nat.pos_iff_ne_zero]
    exact fun h => he (UInt32.toNat_inj.mp h)
  -- one less than the width, divided, is one row element short of the rounded quotient
  have hwidth : (widthInBytes - 1).toNat + 1
      = if widthInBytes = 0 then 2 ^ 64 else widthInBytes.toNat := by
    by_cases hw : widthInBytes = 0
    · rw [if_pos hw, hw]
      rfl
    · have hw' : widthInBytes.toNat ≠ 0 := fun h => hw (UInt64.toNat_inj.mp h)
      have hle : (1 : UInt64) ≤ widthInBytes := by
        rw [UInt64.le_iff_toNat_le]
        exact Nat.one_le_iff_ne_zero.mpr hw'
      rw [if_neg hw, UInt64.toNat_sub_of_le _ _ hle]
      exact Nat.succ_pred_eq_of_ne_zero hw'
  have hdiv : (widthInBytes - 1).toNat / elementSizeBytes.toNat + 1
      = ((widthInBytes - 1).toNat + 1 + elementSizeBytes.toNat - 1) / elementSizeBytes.toNat := by
    rw [← Nat.add_div_right _ hpos]
    congr 1
    omega
  rw [guessPitchBytes, UInt64.toNat_mul, UInt64.toNat_mul, UInt64.toNat_add, UInt64.toNat_div,
    UInt32.toNat_toUInt64, ← hwidth, roundUp, ← hdiv]
  show (((_ + 1) % 2 ^ 64 * _) % 2 ^ 64 * _) % 2 ^ 64 = _
  rw [Nat.mod_mul_mod, Nat.mul_assoc, Nat.mod_mul_mod, Nat.mul_assoc]

/-- The condition. -/
def PitchInRange (widthInBytes height : UInt64) (elementSizeBytes : UInt32) : Prop :=
  if widthInBytes = 0 then 2 ^ 64 ∣ roundUp (2 ^ 64) elementSizeBytes.toNat * height.toNat
  else roundUp widthInBytes.toNat elementSizeBytes.toNat * height.toNat < 2 ^ 64

/-- The size computed is that of the rows if nothing wraps around. -/
theorem isPitchSize_guessPitchBytes_iff (widthInBytes height : UInt64) {elementSizeBytes : UInt32}
    (he : elementSizeBytes ≠ 0) :
    IsPitchSize widthInBytes height elementSizeBytes
        (guessPitchBytes widthInBytes height elementSizeBytes).toNat ↔
      PitchInRange widthInBytes height elementSizeBytes := by
  have hpos : 0 < elementSizeBytes.toNat := by
    rw [Nat.pos_iff_ne_zero]
    exact fun h => he (UInt32.toNat_inj.mp h)
  have hsize : ∀ n, IsPitchSize widthInBytes height elementSizeBytes n ↔
      n = roundUp widthInBytes.toNat elementSizeBytes.toNat * height.toNat := by
    intro n
    constructor
    · rintro ⟨pitch, hpitch, rfl⟩
      rw [hpitch.unique (isLeast_roundUp _ hpos)]
    · intro h
      exact ⟨_, isLeast_roundUp _ hpos, h⟩
  rw [hsize, toNat_guessPitchBytes _ _ he, PitchInRange]
  by_cases hw : widthInBytes = 0
  · have hzero : roundUp 0 elementSizeBytes.toNat = 0 := by
      rw [roundUp, Nat.div_eq_of_lt (by omega), Nat.zero_mul]
    rw [if_pos hw, if_pos hw, hw, UInt64.toNat_zero, hzero, Nat.zero_mul]
    exact (Nat.dvd_iff_mod_eq_zero).symm
  · rw [if_neg hw, if_neg hw, Nat.mod_eq_iff_lt (by decide)]

/-- Without a limit the driver is always reached. -/
theorem PitchSizeExact.inRange (h : PitchSizeExact cudaToNvmlMap widthInBytes height
    elementSizeBytes) :
    elementSizeBytes ≠ 0 ∧ PitchInRange widthInBytes height elementSizeBytes := by
  have he : elementSizeBytes ≠ 0 := fun he => h.noDivisionByZero (if_pos he)
  refine ⟨he, (isPitchSize_guessPitchBytes_iff _ _ he).mp ?_⟩
  exact h.checked (createsIn 0) aloneUnlimited 0 aloneUnlimited.info _ (if_neg he) rfl
    (by rw [oomCheck_eq]; rfl)

/-- **The size of a pitched allocation is exact exactly if the element size is not zero and the
product is in range.**  For all widths, heights and element sizes. -/
theorem pitchSizeExact_iff (widthInBytes height : UInt64) (elementSizeBytes : UInt32) :
    PitchSizeExact cudaToNvmlMap widthInBytes height elementSizeBytes ↔
      elementSizeBytes ≠ 0 ∧ PitchInRange widthInBytes height elementSizeBytes := by
  constructor
  · exact PitchSizeExact.inRange cudaToNvmlMap
  · rintro ⟨he, hrange⟩
    have hexact := (isPitchSize_guessPitchBytes_iff _ _ he).mpr hrange
    have hsize : pitchBytesize widthInBytes height elementSizeBytes
        = some (guessPitchBytes widthInBytes height elementSizeBytes) := if_neg he
    refine ⟨by simp [hsize], ?_, ?_⟩
    · intro env m dev info bytesize hbytes _ _
      obtain rfl := Option.some.inj (hsize.symm.trans hbytes)
      exact hexact
    · intro env m m' ret hcall
      rw [cuMemAllocPitchV2_eq, hsize, Option.bind_some] at hcall
      split at hcall
      · cases hcall
        exact Or.inl rfl
      · cases allocOnly_exit hcall with
        | refused | notAllocated | unrecorded | abandoned => exact Or.inl rfl
        | recorded => exact Or.inr ⟨_, _, _, _, rfl, rfl, hexact⟩

/-- Rows of `2 ^ 32` bytes, and `2 ^ 32` of them, are checked and charged as nothing; and elements
of no bytes are divided by. -/
theorem pitchSize_wraps :
    (pitchBytesize (2 ^ 32) (2 ^ 32) 4 = some 0 ∧ ¬ PitchSizeExact id (2 ^ 32) (2 ^ 32) 4) ∧
      pitchBytesize 64 64 0 = none ∧ ¬ PitchSizeExact id 64 64 0 := by
  refine ⟨⟨by decide, ?_⟩, rfl, ?_⟩
  · intro h
    have hrange := (PitchSizeExact.inRange id h).2
    rw [PitchInRange, if_neg (by decide)] at hrange
    exact absurd hrange (by decide)
  · intro h
    exact (PitchSizeExact.inRange id h).1 rfl

end Pitch

end HamiCore
