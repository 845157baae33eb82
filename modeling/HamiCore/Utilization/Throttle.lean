import Mathlib.Algebra.Order.BigOperators.Group.List
import HamiCore.Utilization.Admitted
import HamiCore.Utilization.Feedback

/-!
# A device over its limit is cut off

The watcher measures, moves the share by `delta`, and refills the pool with the share.  Here the
loop is closed: as long as every measurement finds a device over its limit, each round takes at
least a fixed step off the share, and the cap can double at most once, before the first step.  So
the refills become smaller until they stop, and what is launched from then on is what is left in the
pool (`throttled`).

The step is the increment for the least distance that `delta` counts.  It must not be zero, which
the division by 2560 makes it on a device with few threads.  Nor may a measurement be above 100:
the watcher then leaves the share as it is, and the cap can double in every round.
-/

namespace HamiCore

/-- The increment for the least distance there is. -/
def PoolSpec.leastIncrement (spec : PoolSpec) (d : Dev) : ℤ :=
  exactIncrement (spec.smNum d * spec.smNum d * spec.maxThreadPerSm d) (spec.cachedSmLimit d) 5

/-- Device `d` is measured over its limit. -/
def PoolSpec.OverLimit (spec : PoolSpec) (d : Dev) (userutil : Dev → ℤ) : Prop :=
  spec.cachedSmLimit d < userutil d ∧ userutil d ≤ 100

/-- Every measurement finds device `d` over its limit. -/
def PoolLabel.OverLimit {T : Type*} (spec : PoolSpec) (d : Dev) : PoolLabel T → Prop
  | .measure _ userutil => spec.OverLimit d userutil
  | _ => True

/-- A refill of device `d`. -/
def PoolEvent.isRefill (d : Dev) : PoolEvent → Bool
  | .launched _ _ => false
  | .refilled dev _ => dev = d

/-- How many refills of device `d` there have been. -/
def refills (d : Dev) (log : List PoolEvent) : ℕ := log.countP (PoolEvent.isRefill d)

/-! ## The share -/

section Falling

variable {spec : PoolSpec} {d : Dev} {p p' : DevicePool} {cap c u : ℤ} {n : ℕ}

/-- What `n` adjustments have made of a share, for a cap and a step. -/
structure DevicePool.Falling (cap c : ℤ) (n : ℕ) (p : DevicePool) : Prop where
  total_le : p.totalCudaCores ≤ 2 * cap
  share_le : p.share ≤ max 0 (2 * cap - n * c)
  /-- The cap is as it was before the first adjustment. -/
  first : n = 0 → p.totalCudaCores ≤ cap
  /-- After it, the share does not reach the cap again. -/
  below : n ≠ 0 → p.share < p.totalCudaCores ∨ p.totalCudaCores = 0

theorem DevicePool.Falling.congr (h : p.Falling cap c n) (hshare : p'.share = p.share)
    (htotal : p'.totalCudaCores = p.totalCudaCores) : p'.Falling cap c n where
  total_le := htotal ▸ h.total_le
  share_le := hshare ▸ h.share_le
  first := htotal ▸ h.first
  below := by
    rw [hshare, htotal]
    exact h.below

/-- The cap doubles before the first adjustment only. -/
theorem DevicePool.Falling.raiseCap (h : p.Falling cap c n) (hp : p.Ok)
    (hok : p.raiseCap.Ok) :
    p.raiseCap.totalCudaCores ≤ 2 * cap ∧ p.raiseCap.share ≤ max 0 (2 * cap - n * c) := by
  have hle := hok.share_le
  obtain ⟨h₁, h₂, h₃, h₄, h₅⟩ := hp
  by_cases hn : n = 0
  · have hfirst := h.first hn
    have htotal : p.raiseCap.totalCudaCores ≤ 2 * cap := by
      unfold DevicePool.raiseCap
      rw [toInt64_of_bounds (by omega) (by omega)]
      split_ifs
      · show p.totalCudaCores * 2 ≤ 2 * cap
        omega
      · omega
    subst hn
    refine ⟨htotal, ?_⟩
    push_cast
    omega
  · have hbelow := h.below hn
    have hsame : p.raiseCap = p := by
      unfold DevicePool.raiseCap
      rw [toInt64_of_bounds (by omega) (by omega)]
      split_ifs with hfull
      · obtain ⟨share, cur, total⟩ := p
        dsimp only at hfull hbelow ⊢
        obtain rfl : total = 0 := by omega
        obtain rfl : share = 0 := hfull.1
        rfl
      · rfl
    rw [hsame]
    exact ⟨h.total_le, h.share_le⟩

/-- An adjustment over the limit takes off the least increment, or all there is. -/
theorem adjust_share_le (hspec : spec.Regular) (hp : p.Ok) (hlimit : 0 ≤ spec.cachedSmLimit d)
    (hsmall : ProductsSmall (spec.smNum d) (spec.maxThreadPerSm d) (spec.cachedSmLimit d) u)
    (hover : spec.cachedSmLimit d < u) :
    (p.adjust spec d u).share ≤ max 0 (p.share - spec.leastIncrement d) := by
  have hsm := hspec.smNum_nonneg d
  have hthread := hspec.maxThreadPerSm_nonneg d
  have hlt := hp.total_lt
  have hle := hp.share_le
  obtain ⟨hinc, hinc'⟩ := shareIncrement_bounds hsm hthread hlimit hsmall
  have hmono := exactIncrement_mono (mul_nonneg (mul_nonneg hsm hsm) hthread) hlimit (by decide)
    (utilizationDiff_pos (spec.cachedSmLimit d) u)
  rw [← (shareIncrement_eq hsm hthread hlimit hsmall.fit).1] at hmono
  show delta _ _ _ _ _ _ ≤ _
  rw [delta_of_lt hover hp.share_nonneg (by omega) hinc (by omega), PoolSpec.leastIncrement]
  omega

/-- One more adjustment. -/
theorem DevicePool.Falling.adjust (hspec : spec.Regular) (hpos : 0 < spec.leastIncrement d)
    (h : p.Falling cap (spec.leastIncrement d) n) (hp : p.Ok) (hlimit : 0 ≤ spec.cachedSmLimit d)
    (hcap : p.raiseCap.totalCudaCores < 2 ^ 62)
    (hsmall : ProductsSmall (spec.smNum d) (spec.maxThreadPerSm d) (spec.cachedSmLimit d) u)
    (hover : spec.cachedSmLimit d < u) :
    (p.raiseCap.adjust spec d u).Falling cap (spec.leastIncrement d) (n + 1) := by
  have hok := (hp.raiseCap hcap).1
  obtain ⟨htotal, hshare⟩ := h.raiseCap hp hok
  have hadjust := adjust_share_le hspec hok hlimit hsmall hover
  have hnonneg := hok.share_nonneg
  have hle := hok.share_le
  have hstep : ((n + 1 : ℕ) : ℤ) * spec.leastIncrement d
      = n * spec.leastIncrement d + spec.leastIncrement d := by
    rw [Nat.cast_add, Nat.cast_one, add_mul, one_mul]
  refine ⟨htotal, ?_, fun hzero => absurd hzero n.succ_ne_zero, fun _ => ?_⟩
  · rw [hstep]
    omega
  · show _ < p.raiseCap.totalCudaCores ∨ p.raiseCap.totalCudaCores = 0
    omega

/-- `change_token` puts in no more than the share. -/
theorem DevicePool.Ok.refilled_sub_le (h : p.Ok) : p.refilled - p.curCudaCores ≤ p.share := by
  obtain ⟨h₁, h₂, h₃, h₄, h₅⟩ := h
  unfold DevicePool.refilled
  rw [toInt64_of_bounds (by omega) (by omega)]
  split_ifs <;> omega

end Falling

/-! ## The run -/

/-- Whether the watcher has adjusted the share of device `d` and not refilled its pool yet. -/
def WatcherPc.adjusted (d : Dev) : WatcherPc → ℕ
  | .load dev _ => if dev = d then 1 else 0
  | .cas dev _ _ _ => if dev = d then 1 else 0
  | _ => 0

/-- What the watcher carries while device `d` is over its limit. -/
def WatcherPc.Throttling (spec : PoolSpec) (d : Dev) (p : DevicePool) : WatcherPc → Prop
  | .wait => True
  | .device _ userutil => spec.OverLimit d userutil
  | .load _ userutil => spec.OverLimit d userutil
  | .cas dev userutil before after =>
    spec.OverLimit d userutil ∧ (dev = d → after - before ≤ p.share)

/-- What holds of an event of device `d` behind the events `earlier`. -/
def ThrottledEvent (start : Dev → DevicePool) (c : ℤ) (d : Dev) (earlier : List PoolEvent)
    (e : PoolEvent) : Prop :=
  tokensAfter start earlier d ≤ 2 * (start d).totalCudaCores ∧ ∀ tokens, e = .refilled d tokens →
    tokens ≤ max 0 (2 * (start d).totalCudaCores - (refills d earlier + 1 : ℕ) * c)

theorem WatcherPc.Throttling.congr {spec : PoolSpec} {d : Dev} {p p' : DevicePool} {pc : WatcherPc}
    (h : pc.Throttling spec d p) (hshare : p'.share = p.share) : pc.Throttling spec d p' := by
  cases pc with
  | cas dev userutil before after => exact ⟨h.1, fun hd => hshare ▸ h.2 hd⟩
  | _ => exact h

theorem refills_launched (d dev : Dev) (blocks : ℤ) (log : List PoolEvent) :
    refills d (log ++ [.launched dev blocks]) = refills d log := by
  simp [refills, PoolEvent.isRefill]

theorem refills_refilled (d dev : Dev) (tokens : ℤ) (log : List PoolEvent) :
    refills d (log ++ [.refilled dev tokens]) = refills d log + if dev = d then 1 else 0 := by
  simp [refills, PoolEvent.isRefill]

theorem refills_le_append (d : Dev) (earlier later : List PoolEvent) :
    refills d earlier ≤ refills d (earlier ++ later) := by
  rw [refills, refills, List.countP_append]
  exact Nat.le_add_right _ _

section Throttle

variable {T : Type*} [DecidableEq T] {spec : PoolSpec} {s s' : PoolState T} {a : PoolLabel T}
  {d : Dev} {start : Dev → DevicePool} {log : List PoolEvent}

/-- **The invariant.** -/
structure Throttled (spec : PoolSpec) (d : Dev) (start : Dev → DevicePool) (s : PoolState T)
    (log : List PoolEvent) : Prop where
  accounted : Accounted start s log
  watcher : s.watcher.Throttling spec d (s.pool d)
  falling : (s.pool d).Falling (start d).totalCudaCores (spec.leastIncrement d)
    (refills d log + s.watcher.adjusted d)
  each : AtEach (ThrottledEvent start (spec.leastIncrement d) d) log

omit [DecidableEq T] in
/-- Writing the tokens of a device leaves share and cap alone. -/
theorem PoolState.setCur_keeps (s : PoolState T) (dev d : Dev) (v : ℤ) :
    ((s.setPool dev { s.pool dev with curCudaCores := v }).pool d).share = (s.pool d).share ∧
      ((s.setPool dev { s.pool dev with curCudaCores := v }).pool d).totalCudaCores
        = (s.pool d).totalCudaCores := by
  by_cases hd : d = dev
  · subst hd
    simp only [setPool, Function.update_self, and_self]
  · simp only [setPool, Function.update_of_ne hd, and_self]

namespace Throttled

omit [DecidableEq T] in
/-- A step without an event and without an adjustment of device `d`. -/
theorem frame (h : Throttled spec d start s log) (hevent : a.event s = [])
    (haccounted : Accounted start s' (log ++ a.event s)) (hpool : s'.pool d = s.pool d)
    (hwatcher : s'.watcher.Throttling spec d (s.pool d))
    (hadjusted : s'.watcher.adjusted d = s.watcher.adjusted d) :
    Throttled spec d start s' (log ++ a.event s) := by
  rw [hevent, List.append_nil] at haccounted ⊢
  refine ⟨haccounted, hpool ▸ hwatcher, ?_, h.each⟩
  rw [hpool, hadjusted]
  exact h.falling

omit [DecidableEq T] in
theorem tokens_le (h : Throttled spec d start s log) :
    tokensAfter start log d ≤ 2 * (start d).totalCudaCores := by
  have hle := (h.accounted.inv.pool d).cur_le
  rw [← h.accounted.tokens]
  exact hle.trans h.falling.total_le

omit [DecidableEq T] in
/-- A step with an event changes the tokens only. -/
theorem concat (h : Throttled spec d start s log) {e : PoolEvent} (hevent : a.event s = [e])
    (haccounted : Accounted start s' (log ++ a.event s))
    (hshare : (s'.pool d).share = (s.pool d).share)
    (htotal : (s'.pool d).totalCudaCores = (s.pool d).totalCudaCores)
    (hwatcher : s'.watcher.Throttling spec d (s'.pool d))
    (hadjusted : refills d (log ++ [e]) + s'.watcher.adjusted d
      = refills d log + s.watcher.adjusted d)
    (hrefill : ∀ tokens, e = .refilled d tokens →
      tokens ≤ (s.pool d).share ∧ s.watcher.adjusted d = 1) :
    Throttled spec d start s' (log ++ a.event s) := by
  rw [hevent] at haccounted ⊢
  refine ⟨haccounted, hwatcher, ?_, h.each.concat ⟨h.tokens_le, fun tokens he => ?_⟩⟩
  · rw [hadjusted]
    exact h.falling.congr hshare htotal
  · obtain ⟨htokens, hone⟩ := hrefill tokens he
    rw [← hone]
    exact htokens.trans h.falling.share_le

/-- **One step.** -/
theorem step (hspec : spec.Regular) (hpos : 0 < spec.leastIncrement d)
    (h : Throttled spec d start s log) (hok : a.NoOverflow spec s) (hover : a.OverLimit spec d)
    (hst : s.step spec a = some s') : Throttled spec d start s' (log ++ a.event s) := by
  have haccounted := h.accounted.step hspec hok hst
  have hwatcher := h.watcher
  have hne : ∀ {dev : Dev} (p : DevicePool), dev ≠ d → Function.update s.pool dev p d = s.pool d :=
    fun p hd => Function.update_of_ne (Ne.symm hd) _ _
  cases poolMove_of_step hst with
  | unlimited _ _ | enter _ _ _ | sleep _ _ | proceed _ _ | pidNotFound _ =>
    exact h.frame rfl haccounted rfl hwatcher rfl
  | drained hpc _ | load hpc _ =>
    exact h.frame (by simp only [PoolLabel.event, hpc]) haccounted rfl hwatcher rfl
  | retry hpc hlost =>
    exact h.frame (by simp only [PoolLabel.event, hpc, if_neg hlost]) haccounted rfl hwatcher rfl
  | measure hpc => exact h.frame rfl haccounted rfl hover (by rw [hpc]; rfl)
  | skip hpc _ _ =>
    rw [hpc] at hwatcher
    exact h.frame (by simp only [PoolLabel.event, hpc]) haccounted rfl hwatcher (by rw [hpc]; rfl)
  | endRound hpc _ =>
    exact h.frame (by simp only [PoolLabel.event, hpc]) haccounted rfl trivial (by rw [hpc]; rfl)
  | @adjust n userutil hpc hn hlimit hutil =>
    rw [hpc] at hwatcher
    have hevent : PoolLabel.event s (.watcher : PoolLabel T) = [] := by
      simp only [PoolLabel.event, hpc]
    by_cases hd : (⟨n, hn.2⟩ : Dev) = d
    · subst hd
      have hlimited := PoolSpec.limited_of_guards hn hlimit
      obtain ⟨hcap, hsmall⟩ := hok ⟨n, hn.2⟩ userutil hpc hlimited
      have hfalling := h.falling
      rw [hpc] at hfalling
      have hnext := hfalling.adjust hspec hpos (h.accounted.inv.pool _) hlimited.2.1.le hcap
        (hsmall hutil) hwatcher.1
      rw [hevent, List.append_nil] at haccounted ⊢
      refine ⟨haccounted, hwatcher, ?_, h.each⟩
      simpa [WatcherPc.adjusted, PoolState.setPool] using hnext
    · refine h.frame hevent haccounted (hne _ hd) hwatcher ?_
      rw [hpc]
      exact if_neg hd
  | @unmeasured n userutil hpc hn hlimit hutil =>
    rw [hpc] at hwatcher
    have hd : (⟨n, hn.2⟩ : Dev) ≠ d := by
      rintro rfl
      obtain ⟨hlow, hhigh⟩ := hwatcher
      exact hutil ⟨hhigh, by omega⟩
    exact h.frame (by simp only [PoolLabel.event, hpc]) haccounted (hne _ hd) hwatcher
      (by rw [hpc]; rfl)
  | @loadPool dev userutil hpc =>
    rw [hpc] at hwatcher
    refine h.frame (by simp only [PoolLabel.event, hpc]) haccounted rfl ⟨hwatcher, ?_⟩
      (by rw [hpc]; rfl)
    rintro rfl
    exact (h.accounted.inv.pool dev).refilled_sub_le
  | reload hpc hlost =>
    rw [hpc] at hwatcher
    exact h.frame (by simp only [PoolLabel.event, hpc, if_neg hlost]) haccounted rfl hwatcher.1
      (by rw [hpc]; rfl)
  | @debit t dev kernelSize before hpc heq =>
    obtain ⟨hshare, htotal⟩ := s.setCur_keeps dev d (toInt64 (before - kernelSize))
    refine h.concat (e := .launched dev kernelSize)
      (by simp only [PoolLabel.event, hpc, if_pos heq]) haccounted hshare htotal
      (hwatcher.congr hshare) (congrArg (· + _) (refills_launched d dev kernelSize log)) ?_
    rintro tokens ⟨⟩
  | @refill dev userutil before after hpc heq =>
    obtain ⟨hshare, htotal⟩ := s.setCur_keeps dev d after
    rw [hpc] at hwatcher
    refine h.concat (e := .refilled dev (after - before))
      (by simp only [PoolLabel.event, hpc, if_pos heq]) haccounted hshare htotal hwatcher.1 ?_ ?_
    · rw [refills_refilled, hpc]
      simp only [WatcherPc.adjusted, add_zero]
    · rintro tokens ⟨⟩
      rw [hpc]
      exact ⟨hwatcher.2 rfl, if_pos rfl⟩

/-- **A whole run.** -/
theorem of_run (hspec : spec.Regular) (hpos : 0 < spec.leastIncrement d) {s₀ : PoolState T}
    (hstart : s₀.Start)
    (hreach : GuardedRun (PoolState.step spec) (fun s a => a.NoOverflow spec s) s₀ s)
    (hwait : s.watcher = .wait)
    (hrun : GuardedRun (logged (PoolState.step spec) PoolLabel.event)
      (fun x a => a.NoOverflow spec x.1 ∧ a.OverLimit spec d) (s, []) (s', log)) :
    Throttled spec d s.pool s' log := by
  have haccounted : Accounted s.pool s [] :=
    Accounted.of_run hspec hstart hreach (GuardedRun.refl _)
  have hok := haccounted.inv.pool d
  have hnonneg := hok.share_nonneg
  have hle := hok.share_le
  have hfirst : (s.pool d).Falling (s.pool d).totalCudaCores (spec.leastIncrement d) 0 := by
    refine ⟨by omega, ?_, fun _ => le_rfl, fun hne => absurd rfl hne⟩
    rw [Nat.cast_zero, zero_mul]
    omega
  refine hrun.invariant (P := fun x => Throttled spec d s.pool x.1 x.2) (fun x a y h hok hst => ?_)
    ⟨haccounted, by rw [hwait]; trivial, by rw [hwait]; exact hfirst, atEach_nil _⟩
  obtain ⟨hstep, hlog⟩ := step_of_logged hst
  rw [hlog]
  exact h.step hspec hpos hok.1 hok.2 hstep

end Throttled

/-- **A device over its limit is cut off.**  The least increment of device `d` is not zero, kernel
sizes are not negative, and nothing comes near the end of the machine word.  From the head of a
round on, let every measurement find the device over its limit, and at 100 percent at most.  Then,
in any interleaving with the launching threads, the `n`-th refill puts in no more than twice the cap
less `n` times the least increment.  After so many refills that this is nothing, all the launches
but the last one together get no more than twice the cap. -/
theorem throttled (hspec : spec.Regular) (hpos : 0 < spec.leastIncrement d) {s₀ : PoolState T}
    (hstart : s₀.Start)
    (hreach : GuardedRun (PoolState.step spec) (fun s a => a.NoOverflow spec s) s₀ s)
    (hwait : s.watcher = .wait)
    (hrun : GuardedRun (logged (PoolState.step spec) PoolLabel.event)
      (fun x a => a.NoOverflow spec x.1 ∧ a.OverLimit spec d) (s, []) (s', log)) :
    (∀ earlier tokens later, log = earlier ++ .refilled d tokens :: later →
        tokens ≤ max 0 (2 * (s.pool d).totalCudaCores
          - (refills d earlier + 1 : ℕ) * spec.leastIncrement d)) ∧
      ∀ earlier between blocks later, log = earlier ++ (between ++ .launched d blocks :: later) →
        2 * (s.pool d).totalCudaCores ≤ (refills d earlier + 1 : ℕ) * spec.leastIncrement d →
          launchedSum d between ≤ 2 * (s.pool d).totalCudaCores := by
  have h := Throttled.of_run hspec hpos hstart hreach hwait hrun
  have hrefill : ∀ earlier tokens later, log = earlier ++ .refilled d tokens :: later →
      tokens ≤ max 0 (2 * (s.pool d).totalCudaCores
        - (refills d earlier + 1 : ℕ) * spec.leastIncrement d) :=
    fun earlier tokens later hlog => (h.each earlier _ later hlog).2 tokens rfl
  refine ⟨hrefill, fun earlier between blocks later hlog hcut => ?_⟩
  -- no refill between puts anything in
  have hnone : refilledSum d between ≤ 0 := by
    refine (List.sum_le_card_nsmul _ 0 fun x hx => ?_).trans_eq (nsmul_zero _)
    obtain ⟨e, he, rfl⟩ := List.mem_map.mp hx
    obtain ⟨before, after, rfl⟩ := List.append_of_mem he
    cases e with
    | launched dev blocks => exact le_rfl
    | refilled dev tokens =>
      rw [PoolEvent.refilledOn]
      split_ifs with hd
      · subst hd
        have htokens := hrefill (earlier ++ before) tokens
          (after ++ .launched dev blocks :: later) (by simpa using hlog)
        have hmore : ((refills dev earlier + 1 : ℕ) : ℤ) * spec.leastIncrement dev
            ≤ (refills dev (earlier ++ before) + 1 : ℕ) * spec.leastIncrement dev := by
          have hcount := refills_le_append dev earlier before
          exact mul_le_mul_of_nonneg_right (by omega) hpos.le
        omega
      · exact le_rfl
  have hat : tokensAfter s.pool earlier d ≤ 2 * (s.pool d).totalCudaCores := by
    cases between with
    | nil => exact (h.each earlier _ later hlog).1
    | cons e between => exact (h.each earlier e _ hlog).1
  have hcovered := h.accounted.covered (earlier ++ between) d blocks later (by simpa using hlog)
  simp only [tokensAfter, refilledSum, launchedSum, List.map_append, List.sum_append] at *
  omega

end Throttle

/-- One device, with as many processors as it takes for one step to be all that the cap can
become. -/
def largeDevices : PoolSpec := ⟨1, firstOnly 16384, firstOnly 64, firstOnly 50⟩

theorem largeDevices_regular : largeDevices.Regular where
  smNum_nonneg := by decide
  maxThreadPerSm_nonneg := by decide

/-- A round below the limit, which fills the pool. -/
def roundBelow : List (PoolLabel Unit) :=
  .measure 1 (fun _ => 30) :: List.replicate 4 .watcher

/-- A launch on device `0` by the only thread. -/
def launchOf (grids : ℤ) : List (PoolLabel Unit) :=
  [.rateLimiter () (some 0) grids 32, .recentKernel () 2, .limiter (), .limiter ()]

/-- A round over the limit, and two launches. -/
def roundOver : List (PoolLabel Unit) :=
  .measure 1 (fun _ => 60) :: List.replicate 3 .watcher ++ (launchOf 5 ++ launchOf 7)

theorem roundOver_overLimit : ∀ a ∈ roundOver, a.OverLimit largeDevices 0 := by
  intro a ha
  simp only [roundOver, launchOf, List.cons_append, List.nil_append, List.mem_cons,
    List.mem_append, List.mem_replicate, List.not_mem_nil, or_false] at ha
  rcases ha with rfl | ⟨-, rfl⟩ | rfl | rfl | rfl | rfl | rfl | rfl | rfl | rfl
  · exact ⟨show (50 : ℤ) < 60 by decide, show (60 : ℤ) ≤ 100 by decide⟩
  all_goals trivial

/-- The watcher is at the head of its loop. -/
def WatcherPc.atHead : WatcherPc → Bool
  | .wait => true
  | _ => false

theorem exec_roundBelow_roundOver :
    (exec (PoolState.step largeDevices) (fun s a => a.noOverflow largeDevices s) roundBelow
      (PoolState.initial largeDevices 1)).map (fun s => (s.pool 0, s.watcher.atHead,
        (exec (logged (PoolState.step largeDevices) PoolLabel.event)
          (fun x a => a.noOverflow largeDevices x.1) roundOver (s, [])).map Prod.snd))
      = some (⟨2 ^ 25, 2 ^ 25, 2 ^ 25⟩, true,
          some [.refilled 0 0, .launched 0 5, .launched 0 7]) := by
  decide +kernel

/-- The refill over the limit puts nothing in, and the first launch is within the bound. -/
theorem throttled_roundOver :
    ∃ s : PoolState Unit, s.pool 0 = ⟨2 ^ 25, 2 ^ 25, 2 ^ 25⟩ ∧
      (0 : ℤ) ≤ max 0 (2 * (s.pool 0).totalCudaCores
        - (refills 0 [] + 1 : ℕ) * largeDevices.leastIncrement 0) ∧
      launchedSum 0 [.launched 0 5] ≤ 2 * (s.pool 0).totalCudaCores := by
  obtain ⟨s, hexec, hs⟩ := Option.map_eq_some_iff.mp exec_roundBelow_roundOver
  simp only [Prod.mk.injEq] at hs
  obtain ⟨hpool, hhead, hover⟩ := hs
  obtain ⟨⟨s', log⟩, hexec', rfl⟩ := Option.map_eq_some_iff.mp hover
  have hreach : GuardedRun (PoolState.step largeDevices)
      (fun s a => a.NoOverflow largeDevices s) (PoolState.initial largeDevices 1) s :=
    GuardedRun.of_exec (fun _ _ _ => PoolLabel.noOverflow_of_eval) hexec
  have hrun : GuardedRun (logged (PoolState.step largeDevices) PoolLabel.event)
      (fun x a => a.NoOverflow largeDevices x.1 ∧ a.OverLimit largeDevices 0) (s, [])
      (s', [.refilled 0 0, .launched 0 5, .launched 0 7]) :=
    GuardedRun.of_exec (fun a ha x hchk =>
      ⟨PoolLabel.noOverflow_of_eval hchk, roundOver_overLimit a ha⟩) hexec'
  have hwait : s.watcher = .wait := by
    cases hpc : s.watcher with
    | wait => rfl
    | _ =>
      rw [hpc] at hhead
      exact absurd hhead Bool.false_ne_true
  have hstart : (PoolState.initial (T := Unit) largeDevices 1).Start :=
    PoolState.start_initial largeDevices_regular (by decide) 1
  obtain ⟨hrefill, hcut⟩ :=
    throttled largeDevices_regular (by decide) hstart hreach hwait hrun
  refine ⟨s, hpool, hrefill [] 0 _ rfl, hcut [.refilled 0 0] [.launched 0 5] 7 [] rfl ?_⟩
  rw [hpool]
  decide

end HamiCore
