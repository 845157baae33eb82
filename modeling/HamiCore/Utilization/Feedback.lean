import HamiCore.Utilization.TokenPool

/-!
# The feedback step

`delta` moves a share by an increment that grows with the distance of the measured utilisation from
its limit.  The distance counts as at least 5, the divisions truncate, and from half the limit on
the increment is accelerated.  All of it is monotone, across the switch too, because twice a
distance above half the limit is more than the limit.  So the new share falls as the utilisation
rises, and stays between 0 and the total.

The one thing that can go wrong is the sum of the share and the increment, which is formed before it
is compared with the total and may wrap around (`feedbackStep_iff`).
-/

namespace HamiCore

/-- The increment as the formula has it, for `cores` the square of the number of multiprocessors
times the threads of each. -/
def exactIncrement (cores upLimit diff : ℤ) : ℤ :=
  if upLimit / 2 < diff then cores * diff / 2560 * diff * 2 / (upLimit + 1)
  else cores * diff / 2560

section Increment

variable {cores upLimit diff diff₁ diff₂ : ℤ}

theorem exactIncrement_nonneg (hcores : 0 ≤ cores) (hlimit : 0 ≤ upLimit) (hdiff : 0 ≤ diff) :
    0 ≤ exactIncrement cores upLimit diff := by
  have hbase : 0 ≤ cores * diff / 2560 :=
    Int.ediv_nonneg (mul_nonneg hcores hdiff) (by decide)
  unfold exactIncrement
  split_ifs
  · exact Int.ediv_nonneg (mul_nonneg (mul_nonneg hbase hdiff) (by decide)) (by omega)
  · exact hbase

/-- A larger distance gives a larger increment, also from one side of the switch to the other. -/
theorem exactIncrement_mono (hcores : 0 ≤ cores) (hlimit : 0 ≤ upLimit) (hdiff : 0 ≤ diff₁)
    (hle : diff₁ ≤ diff₂) :
    exactIncrement cores upLimit diff₁ ≤ exactIncrement cores upLimit diff₂ := by
  have hbase₁ : 0 ≤ cores * diff₁ / 2560 :=
    Int.ediv_nonneg (mul_nonneg hcores hdiff) (by decide)
  have hbase : cores * diff₁ / 2560 ≤ cores * diff₂ / 2560 :=
    Int.ediv_le_ediv (by decide) (mul_le_mul_of_nonneg_left hle hcores)
  unfold exactIncrement
  by_cases hfast₁ : upLimit / 2 < diff₁
  · rw [if_pos hfast₁, if_pos (lt_of_lt_of_le hfast₁ hle)]
    apply Int.ediv_le_ediv (by omega)
    apply mul_le_mul_of_nonneg_right _ (by decide)
    exact mul_le_mul hbase hle hdiff (hbase₁.trans hbase)
  · rw [if_neg hfast₁]
    by_cases hfast₂ : upLimit / 2 < diff₂
    · rw [if_pos hfast₂]
      -- twice a distance above half the limit is at least the limit and one
      have htwice : upLimit + 1 ≤ diff₂ * 2 := by omega
      apply hbase.trans
      apply Int.le_ediv_of_mul_le (by omega)
      rw [mul_assoc]
      exact mul_le_mul_of_nonneg_left htwice (hbase₁.trans hbase)
    · rw [if_neg hfast₂]
      exact hbase

end Increment

section Step

variable {smNum maxThreadPerSm totalCudaCores upLimit userCurrent share : ℤ}

/-- Where the products fit, the increment is the one of the formula, and fits too. -/
theorem shareIncrement_eq (hsm : 0 ≤ smNum) (hthread : 0 ≤ maxThreadPerSm) (hlimit : 0 ≤ upLimit)
    (h : ProductsFit smNum maxThreadPerSm upLimit userCurrent) :
    shareIncrement smNum maxThreadPerSm upLimit userCurrent
        = exactIncrement (smNum * smNum * maxThreadPerSm) upLimit
            (utilizationDiff upLimit userCurrent) ∧
      shareIncrement smNum maxThreadPerSm upLimit userCurrent < 2 ^ 63 := by
  have hdiff := utilizationDiff_pos upLimit userCurrent
  have hall := h.diff
  have hprod : 0 ≤ smNum * smNum * maxThreadPerSm * utilizationDiff upLimit userCurrent :=
    mul_nonneg (mul_nonneg (mul_nonneg hsm hsm) hthread) (by omega)
  have haccel := h.accelerated
  rw [shareIncrement_of_fit hsm hthread h, exactIncrement]
  rw [Int.tdiv_eq_ediv_of_nonneg hprod, Int.tdiv_eq_ediv_of_nonneg hlimit] at *
  have hbase : 0 ≤ smNum * smNum * maxThreadPerSm * utilizationDiff upLimit userCurrent / 2560 :=
    Int.ediv_nonneg hprod (by decide)
  by_cases hfast : upLimit / 2 < utilizationDiff upLimit userCurrent
  · have hmul := mul_nonneg hbase (b := utilizationDiff upLimit userCurrent) (by omega)
    rw [if_pos hfast, if_pos hfast, Int.tdiv_eq_ediv_of_nonneg (by omega)]
    exact ⟨rfl, lt_of_le_of_lt (Int.ediv_le_self _ (by omega)) (haccel hfast)⟩
  · rw [if_neg hfast, if_neg hfast]
    exact ⟨rfl, lt_of_le_of_lt (Int.ediv_le_self _ hprod) hall⟩

theorem utilizationDiff_of_le (h : userCurrent ≤ upLimit) :
    utilizationDiff upLimit userCurrent = max 5 (upLimit - userCurrent) := by
  rw [utilizationDiff, abs_of_nonneg (by omega)]
  split_ifs <;> omega

theorem utilizationDiff_of_lt (h : upLimit < userCurrent) :
    utilizationDiff upLimit userCurrent = max 5 (userCurrent - upLimit) := by
  rw [utilizationDiff, abs_of_nonpos (by omega)]
  split_ifs <;> omega

/-- Below the limit the share rises, up to the total. -/
theorem delta_of_le (h : userCurrent ≤ upLimit) (h0 : 0 ≤ share)
    (hinc : 0 ≤ shareIncrement smNum maxThreadPerSm upLimit userCurrent)
    (hsum : share + shareIncrement smNum maxThreadPerSm upLimit userCurrent < 2 ^ 63) :
    delta smNum maxThreadPerSm totalCudaCores upLimit userCurrent share
      = min totalCudaCores (share + shareIncrement smNum maxThreadPerSm upLimit userCurrent) := by
  simp only [delta, if_pos h]
  rw [toInt64_of_bounds (by omega) hsum]
  split_ifs <;> omega

/-- Above the limit it falls, down to 0. -/
theorem delta_of_lt (h : upLimit < userCurrent) (h0 : 0 ≤ share) (hshare : share < 2 ^ 63)
    (hinc : 0 ≤ shareIncrement smNum maxThreadPerSm upLimit userCurrent)
    (hinc' : shareIncrement smNum maxThreadPerSm upLimit userCurrent < 2 ^ 63) :
    delta smNum maxThreadPerSm totalCudaCores upLimit userCurrent share
      = max 0 (share - shareIncrement smNum maxThreadPerSm upLimit userCurrent) := by
  simp only [delta, if_neg (not_le.mpr h)]
  rw [toInt64_of_bounds (by omega) (by omega)]
  split_ifs <;> omega

/-- A sum that wraps around makes the share negative. -/
theorem delta_neg_of_overflow (h : userCurrent ≤ upLimit) (hshare : share < 2 ^ 63)
    (htotal : 0 ≤ totalCudaCores)
    (hinc : shareIncrement smNum maxThreadPerSm upLimit userCurrent < 2 ^ 63)
    (hsum : 2 ^ 63 ≤ share + shareIncrement smNum maxThreadPerSm upLimit userCurrent) :
    delta smNum maxThreadPerSm totalCudaCores upLimit userCurrent share < 0 := by
  have hwrap : toInt64 (share + shareIncrement smNum maxThreadPerSm upLimit userCurrent)
      = share + shareIncrement smNum maxThreadPerSm upLimit userCurrent - 2 ^ 64 := by
    rw [toInt64, Int.bmod_def]
    omega
  simp only [delta, if_pos h, hwrap]
  split_ifs <;> omega

end Step

/-- What the feedback step is for, at every measured utilisation from 0 to 100: the new share is
between 0 and the total, it is not below the share up to the limit and not above it beyond, and it
falls as the utilisation rises. -/
structure FeedbackStep (smNum maxThreadPerSm totalCudaCores upLimit share : ℤ) : Prop where
  nonneg : ∀ u, 0 ≤ u → u ≤ 100 →
    0 ≤ delta smNum maxThreadPerSm totalCudaCores upLimit u share
  le_total : ∀ u, 0 ≤ u → u ≤ 100 →
    delta smNum maxThreadPerSm totalCudaCores upLimit u share ≤ totalCudaCores
  rises : ∀ u, 0 ≤ u → u ≤ 100 → u ≤ upLimit →
    share ≤ delta smNum maxThreadPerSm totalCudaCores upLimit u share
  falls : ∀ u, 0 ≤ u → u ≤ 100 → upLimit < u →
    delta smNum maxThreadPerSm totalCudaCores upLimit u share ≤ share
  antitone : ∀ u₁ u₂, 0 ≤ u₁ → u₁ ≤ u₂ → u₂ ≤ 100 →
    delta smNum maxThreadPerSm totalCudaCores upLimit u₂ share
      ≤ delta smNum maxThreadPerSm totalCudaCores upLimit u₁ share

section Feedback

variable {smNum maxThreadPerSm totalCudaCores upLimit share : ℤ}

/-- The increment of an idle device: the distance is the whole limit, and accelerated. -/
theorem exactIncrement_idle (cores : ℤ) (hlimit : 1 ≤ upLimit) :
    exactIncrement cores upLimit (utilizationDiff upLimit 0)
      = cores * max 5 upLimit / 2560 * max 5 upLimit * 2 / (upLimit + 1) := by
  rw [utilizationDiff_of_le (by omega), sub_zero, exactIncrement, if_pos (by omega)]

section Increments

variable (hsm : 0 ≤ smNum) (hthread : 0 ≤ maxThreadPerSm) (hlimit : 1 ≤ upLimit)
  (hfit : ∀ u, 0 ≤ u → u ≤ 100 → ProductsFit smNum maxThreadPerSm upLimit u)

include hsm hthread hlimit hfit

theorem shareIncrement_nonneg {u : ℤ} (hu : 0 ≤ u) (hu' : u ≤ 100) :
    0 ≤ shareIncrement smNum maxThreadPerSm upLimit u := by
  have hdiff := utilizationDiff_pos upLimit u
  rw [(shareIncrement_eq hsm hthread (by omega) (hfit u hu hu')).1]
  exact exactIncrement_nonneg (mul_nonneg (mul_nonneg hsm hsm) hthread) (by omega) (by omega)

/-- The increments are ordered as the distances are. -/
theorem shareIncrement_mono {u₁ u₂ : ℤ} (hu₁ : 0 ≤ u₁) (hu₁' : u₁ ≤ 100) (hu₂ : 0 ≤ u₂)
    (hu₂' : u₂ ≤ 100) (hle : utilizationDiff upLimit u₁ ≤ utilizationDiff upLimit u₂) :
    shareIncrement smNum maxThreadPerSm upLimit u₁
      ≤ shareIncrement smNum maxThreadPerSm upLimit u₂ := by
  have hdiff := utilizationDiff_pos upLimit u₁
  rw [(shareIncrement_eq hsm hthread (by omega) (hfit u₁ hu₁ hu₁')).1,
    (shareIncrement_eq hsm hthread (by omega) (hfit u₂ hu₂ hu₂')).1]
  exact exactIncrement_mono (mul_nonneg (mul_nonneg hsm hsm) hthread) (by omega) (by omega) hle

/-- Without overflow in the largest sum, the step below the limit is `min total (share + inc)`. -/
theorem delta_below (h0 : 0 ≤ share)
    (hsum : share + shareIncrement smNum maxThreadPerSm upLimit 0 < 2 ^ 63) {u : ℤ} (hu : 0 ≤ u)
    (hu' : u ≤ 100) (hle : u ≤ upLimit) :
    delta smNum maxThreadPerSm totalCudaCores upLimit u share
      = min totalCudaCores (share + shareIncrement smNum maxThreadPerSm upLimit u) := by
  have hmono := shareIncrement_mono hsm hthread hlimit hfit hu hu' le_rfl (by decide) (by
    rw [utilizationDiff_of_le hle, utilizationDiff_of_le (by omega)]
    omega)
  exact delta_of_le hle h0 (shareIncrement_nonneg hsm hthread hlimit hfit hu hu') (by omega)

/-- The step above the limit is `max 0 (share - inc)`. -/
theorem delta_above (h0 : 0 ≤ share) (hshare : share < 2 ^ 63) {u : ℤ} (hu : 0 ≤ u)
    (hu' : u ≤ 100) (hlt : upLimit < u) :
    delta smNum maxThreadPerSm totalCudaCores upLimit u share
      = max 0 (share - shareIncrement smNum maxThreadPerSm upLimit u) :=
  delta_of_lt hlt h0 hshare (shareIncrement_nonneg hsm hthread hlimit hfit hu hu')
    (shareIncrement_eq hsm hthread (by omega) (hfit u hu hu')).2

/-- Without overflow in the largest sum, the step does what it is for. -/
theorem feedbackStep_of_sum (h0 : 0 ≤ share) (hle : share ≤ totalCudaCores)
    (htotal : totalCudaCores < 2 ^ 63)
    (hsum : share + shareIncrement smNum maxThreadPerSm upLimit 0 < 2 ^ 63) :
    FeedbackStep smNum maxThreadPerSm totalCudaCores upLimit share := by
  have hnonneg {u : ℤ} := shareIncrement_nonneg hsm hthread hlimit hfit (u := u)
  have hbelow : ∀ {u : ℤ}, 0 ≤ u → u ≤ 100 → u ≤ upLimit →
      delta smNum maxThreadPerSm totalCudaCores upLimit u share
        = min totalCudaCores (share + shareIncrement smNum maxThreadPerSm upLimit u) :=
    fun hu hu' hup => delta_below hsm hthread hlimit hfit h0 hsum hu hu' hup
  have habove : ∀ {u : ℤ}, 0 ≤ u → u ≤ 100 → upLimit < u →
      delta smNum maxThreadPerSm totalCudaCores upLimit u share
        = max 0 (share - shareIncrement smNum maxThreadPerSm upLimit u) :=
    fun hu hu' hup => delta_above hsm hthread hlimit hfit h0 (by omega) hu hu' hup
  have hrises : ∀ u, 0 ≤ u → u ≤ 100 → u ≤ upLimit →
      share ≤ delta smNum maxThreadPerSm totalCudaCores upLimit u share := by
    intro u hu hu' hup
    have := hnonneg hu hu'
    rw [hbelow hu hu' hup]
    omega
  have hfalls : ∀ u, 0 ≤ u → u ≤ 100 → upLimit < u →
      delta smNum maxThreadPerSm totalCudaCores upLimit u share ≤ share := by
    intro u hu hu' hup
    have := hnonneg hu hu'
    rw [habove hu hu' hup]
    omega
  refine ⟨fun u hu hu' => ?_, fun u hu hu' => ?_, hrises, hfalls, fun u₁ u₂ hu₁ hu hu₂ => ?_⟩
  · rcases le_or_gt u upLimit with hup | hup
    · exact h0.trans (hrises u hu hu' hup)
    · rw [habove hu hu' hup]
      exact le_max_left _ _
  · rcases le_or_gt u upLimit with hup | hup
    · rw [hbelow hu hu' hup]
      exact min_le_left _ _
    · exact (hfalls u hu hu' hup).trans hle
  · rcases le_or_gt u₂ upLimit with hup₂ | hup₂
    · have hmono := shareIncrement_mono hsm hthread hlimit hfit (hu₁.trans hu) hu₂ hu₁
        (hu.trans hu₂) (by
          rw [utilizationDiff_of_le hup₂, utilizationDiff_of_le (hu.trans hup₂)]
          omega)
      rw [hbelow hu₁ (hu.trans hu₂) (hu.trans hup₂), hbelow (hu₁.trans hu) hu₂ hup₂]
      omega
    · rcases le_or_gt u₁ upLimit with hup₁ | hup₁
      · exact (hfalls u₂ (hu₁.trans hu) hu₂ hup₂).trans (hrises u₁ hu₁ (hu.trans hu₂) hup₁)
      · have hmono := shareIncrement_mono hsm hthread hlimit hfit hu₁ (hu.trans hu₂)
          (hu₁.trans hu) hu₂ (by
            rw [utilizationDiff_of_lt hup₁, utilizationDiff_of_lt hup₂]
            omega)
        rw [habove hu₁ (hu.trans hu₂) hup₁, habove (hu₁.trans hu) hu₂ hup₂]
        omega

end Increments

/-- **When the feedback step is bounded and antitone.**  With no overflow in the products, it is so
exactly when the sum of the share and the largest increment, that of an idle device, does not
overflow either. -/
theorem feedbackStep_iff (hsm : 0 ≤ smNum) (hthread : 0 ≤ maxThreadPerSm) (hlimit : 1 ≤ upLimit)
    (h0 : 0 ≤ share) (hle : share ≤ totalCudaCores) (htotal : totalCudaCores < 2 ^ 63)
    (hfit : ∀ u, 0 ≤ u → u ≤ 100 → ProductsFit smNum maxThreadPerSm upLimit u) :
    FeedbackStep smNum maxThreadPerSm totalCudaCores upLimit share ↔
      share + smNum * smNum * maxThreadPerSm * max 5 upLimit / 2560 * max 5 upLimit * 2
        / (upLimit + 1) < 2 ^ 63 := by
  obtain ⟨hidle, hlt⟩ := shareIncrement_eq hsm hthread (by omega) (hfit 0 le_rfl (by decide))
  rw [← exactIncrement_idle _ hlimit, ← hidle]
  refine ⟨fun h => ?_, feedbackStep_of_sum hsm hthread hlimit hfit h0 hle htotal⟩
  by_contra hsum
  have hneg : delta smNum maxThreadPerSm totalCudaCores upLimit 0 share < 0 :=
    delta_neg_of_overflow (by omega) (by omega) (by omega) hlt (by omega)
  exact absurd (h.nonneg 0 le_rfl (by decide)) (not_le.mpr hneg)

/-- With half of the device granted, the products fit up to `2 ^ 53` for the first three factors. -/
theorem productsFit_of_half (hsm : 0 ≤ smNum) (hthread : 0 ≤ maxThreadPerSm)
    (hsquare : smNum * smNum < 2 ^ 53) (hcores : smNum * smNum * maxThreadPerSm < 2 ^ 53) {u : ℤ}
    (hu : 0 ≤ u) (hu' : u ≤ 100) : ProductsFit smNum maxThreadPerSm 50 u := by
  have hdiff := utilizationDiff_pos 50 u
  have hdiff' : utilizationDiff 50 u ≤ 50 := by
    rcases le_or_gt u 50 with h | h
    · rw [utilizationDiff_of_le h]
      omega
    · rw [utilizationDiff_of_lt h]
      omega
  have hcores' : 0 ≤ smNum * smNum * maxThreadPerSm := mul_nonneg (mul_nonneg hsm hsm) hthread
  have hprod : 0 ≤ smNum * smNum * maxThreadPerSm * utilizationDiff 50 u :=
    mul_nonneg hcores' (by omega)
  have hprod' : smNum * smNum * maxThreadPerSm * utilizationDiff 50 u ≤ 2 ^ 53 * 50 :=
    mul_le_mul hcores.le hdiff' (by omega) (by decide)
  refine ⟨by omega, by omega, by omega, fun _ => ?_⟩
  rw [Int.tdiv_eq_ediv_of_nonneg hprod]
  have hbase : smNum * smNum * maxThreadPerSm * utilizationDiff 50 u / 2560 ≤ 2 ^ 53 := by omega
  have haccel := mul_le_mul hbase hdiff' (by omega) (by decide)
  omega

/-- From a share of 0 the step is as it should be, on 64 multiprocessors of 2048 threads. -/
theorem feedbackStep_of_half :
    (∀ u, 0 ≤ u → u ≤ 100 → ProductsFit 64 2048 50 u) ∧ FeedbackStep 64 2048 4194304 50 0 := by
  have hfit : ∀ u, 0 ≤ u → u ≤ 100 → ProductsFit 64 2048 50 u := fun _ =>
    productsFit_of_half (by decide) (by decide) (by decide) (by decide)
  exact ⟨hfit, (feedbackStep_iff (by decide) (by decide) (by decide) (by decide) (by decide)
    (by decide) hfit).mpr (by decide)⟩

/-- A total that has doubled 32 times, from what `setspec` computes for `2 ^ 26 - 1` multiprocessors
of one thread.  The share has reached it, the sum wraps around, and the new share is negative. -/
theorem feedbackStep_wraps :
    (∀ u, 0 ≤ u → u ≤ 100 → ProductsFit 67108863 1 50 u) ∧
      ¬ FeedbackStep 67108863 1 (67108863 * 32 * 2 ^ 32) 50 (67108863 * 32 * 2 ^ 32) := by
  refine ⟨fun _ => productsFit_of_half (by decide) (by decide) (by decide) (by decide), fun h => ?_⟩
  exact absurd (h.nonneg 0 (by decide) (by decide)) (by decide)

end Feedback

end HamiCore
