import Mathlib.Algebra.Order.Group.Unbundled.Abs
import Mathlib.Algebra.Order.Ring.Int
import Mathlib.Logic.Function.Basic
import HamiCore.Library.GuardedRun
import HamiCore.Region.Slot

/-!
# The token pools of the utilisation limiter

Each device has a pool of tokens, `g_cur_cuda_cores`.  A kernel launch takes its grid size out of
the pool of the current device (`rate_limiter`), waiting while the pool is negative; the watcher
thread puts tokens back (`change_token`), up to the cap `g_total_cuda_cores`.  How many it puts back
is the `share` of the device, which a feedback formula moves up or down after each measurement
(`delta`).  A share that has reached the cap while the pool is negative doubles the cap.

Launching threads and the watcher meet in the pool only, and both change it by compare-and-swap.
One step here is one load or one compare-and-swap of a pool, with the local computation after it.
Numbers are the machine's: `int64_t` results are reduced by `toInt64`, and `NoOverflow` says of a
step that the products it forms stay below `2 ^ 62`.

`token_pool_invariant` is the result: for every run the shares, the pools and the caps of all
devices keep their bounds, and a step touches one device.
-/

namespace HamiCore

/-- A result stored as `int64_t`. -/
def toInt64 (x : ℤ) : ℤ := x.bmod (2 ^ 64)

theorem toInt64_of_bounds {x : ℤ} (hlo : -2 ^ 63 ≤ x) (hhi : x < 2 ^ 63) : toInt64 x = x :=
  Int.bmod_eq_of_le (by omega) (by omega)

/-! ## The feedback formula -/

/-- How far the measured utilisation is from its limit, but at least 5. -/
def utilizationDiff (upLimit userCurrent : ℤ) : ℤ :=
  if |upLimit - userCurrent| < 5 then 5 else |upLimit - userCurrent|

/-- `increment`, before it is accelerated. -/
def baseIncrement (smNum maxThreadPerSm upLimit userCurrent : ℤ) : ℤ :=
  (toInt64 (toInt64 (toInt64 (smNum * smNum) * maxThreadPerSm) *
    utilizationDiff upLimit userCurrent)).tdiv 2560

/-- `increment`: accelerated when the utilisation is far from its limit. -/
def shareIncrement (smNum maxThreadPerSm upLimit userCurrent : ℤ) : ℤ :=
  let increment := baseIncrement smNum maxThreadPerSm upLimit userCurrent
  if upLimit.tdiv 2 < utilizationDiff upLimit userCurrent then
    (toInt64 (toInt64 (increment * utilizationDiff upLimit userCurrent) * 2)).tdiv (upLimit + 1)
  else increment

/-- `delta`: the new share. -/
def delta (smNum maxThreadPerSm totalCudaCores upLimit userCurrent share : ℤ) : ℤ :=
  let increment := shareIncrement smNum maxThreadPerSm upLimit userCurrent
  if userCurrent ≤ upLimit then
    if totalCudaCores < toInt64 (share + increment) then totalCudaCores
    else toInt64 (share + increment)
  else if toInt64 (share - increment) < 0 then 0
  else toInt64 (share - increment)

/-- The products `delta` forms are below `2 ^ 62`. -/
structure ProductsSmall (smNum maxThreadPerSm upLimit userCurrent : ℤ) : Prop where
  square : smNum * smNum < 2 ^ 62
  threads : smNum * smNum * maxThreadPerSm < 2 ^ 62
  diff : smNum * smNum * maxThreadPerSm * utilizationDiff upLimit userCurrent < 2 ^ 62
  accelerated : upLimit.tdiv 2 < utilizationDiff upLimit userCurrent →
    (smNum * smNum * maxThreadPerSm * utilizationDiff upLimit userCurrent).tdiv 2560 *
      utilizationDiff upLimit userCurrent * 2 < 2 ^ 62

/-- No product that `delta` forms leaves the 64-bit range. -/
structure ProductsFit (smNum maxThreadPerSm upLimit userCurrent : ℤ) : Prop where
  square : smNum * smNum < 2 ^ 63
  threads : smNum * smNum * maxThreadPerSm < 2 ^ 63
  diff : smNum * smNum * maxThreadPerSm * utilizationDiff upLimit userCurrent < 2 ^ 63
  accelerated : upLimit.tdiv 2 < utilizationDiff upLimit userCurrent →
    (smNum * smNum * maxThreadPerSm * utilizationDiff upLimit userCurrent).tdiv 2560 *
      utilizationDiff upLimit userCurrent * 2 < 2 ^ 63

section Delta

variable {smNum maxThreadPerSm totalCudaCores upLimit userCurrent share : ℤ}

theorem utilizationDiff_pos (upLimit userCurrent : ℤ) :
    5 ≤ utilizationDiff upLimit userCurrent := by
  unfold utilizationDiff
  split_ifs
  · exact le_rfl
  · omega

theorem ProductsSmall.fit (h : ProductsSmall smNum maxThreadPerSm upLimit userCurrent) :
    ProductsFit smNum maxThreadPerSm upLimit userCurrent where
  square := h.square.trans (by decide)
  threads := h.threads.trans (by decide)
  diff := h.diff.trans (by decide)
  accelerated hfast := (h.accelerated hfast).trans (by decide)

theorem baseIncrement_eq (hsm : 0 ≤ smNum) (hthread : 0 ≤ maxThreadPerSm)
    (h : ProductsFit smNum maxThreadPerSm upLimit userCurrent) :
    baseIncrement smNum maxThreadPerSm upLimit userCurrent =
      (smNum * smNum * maxThreadPerSm * utilizationDiff upLimit userCurrent).tdiv 2560 := by
  have hdiff := utilizationDiff_pos upLimit userCurrent
  have h₁ : 0 ≤ smNum * smNum := mul_nonneg hsm hsm
  have h₂ : 0 ≤ smNum * smNum * maxThreadPerSm := mul_nonneg h₁ hthread
  have h₃ : 0 ≤ smNum * smNum * maxThreadPerSm * utilizationDiff upLimit userCurrent :=
    mul_nonneg h₂ (by omega)
  have hsquare := h.square
  have hthreads := h.threads
  have hall := h.diff
  rw [baseIncrement, toInt64_of_bounds (x := smNum * smNum) (by omega) (by omega),
    toInt64_of_bounds (x := smNum * smNum * maxThreadPerSm) (by omega) (by omega),
    toInt64_of_bounds (by omega) (by omega)]

/-- Where the products fit, nothing wraps around in the increment. -/
theorem shareIncrement_of_fit (hsm : 0 ≤ smNum) (hthread : 0 ≤ maxThreadPerSm)
    (h : ProductsFit smNum maxThreadPerSm upLimit userCurrent) :
    shareIncrement smNum maxThreadPerSm upLimit userCurrent =
      if upLimit.tdiv 2 < utilizationDiff upLimit userCurrent then
        ((smNum * smNum * maxThreadPerSm * utilizationDiff upLimit userCurrent).tdiv 2560 *
          utilizationDiff upLimit userCurrent * 2).tdiv (upLimit + 1)
      else (smNum * smNum * maxThreadPerSm * utilizationDiff upLimit userCurrent).tdiv 2560 := by
  have hdiff := utilizationDiff_pos upLimit userCurrent
  have hprod : 0 ≤ smNum * smNum * maxThreadPerSm * utilizationDiff upLimit userCurrent :=
    mul_nonneg (mul_nonneg (mul_nonneg hsm hsm) hthread) (by omega)
  unfold shareIncrement
  rw [baseIncrement_eq hsm hthread h]
  dsimp only
  split_ifs with hfar
  · have hacc := h.accelerated hfar
    have hmul : 0 ≤ (smNum * smNum * maxThreadPerSm *
        utilizationDiff upLimit userCurrent).tdiv 2560 * utilizationDiff upLimit userCurrent :=
      mul_nonneg (Int.tdiv_nonneg hprod (by omega)) (by omega)
    rw [toInt64_of_bounds (x := (smNum * smNum * maxThreadPerSm *
        utilizationDiff upLimit userCurrent).tdiv 2560 * utilizationDiff upLimit userCurrent)
        (by omega) (by omega), toInt64_of_bounds (by omega) (by omega)]
  · rfl

/-- The increment neither wraps around nor is negative. -/
theorem shareIncrement_bounds (hsm : 0 ≤ smNum) (hthread : 0 ≤ maxThreadPerSm)
    (hlimit : 0 ≤ upLimit)
    (h : ProductsSmall smNum maxThreadPerSm upLimit userCurrent) :
    0 ≤ shareIncrement smNum maxThreadPerSm upLimit userCurrent ∧
      shareIncrement smNum maxThreadPerSm upLimit userCurrent < 2 ^ 62 := by
  have hdiff := utilizationDiff_pos upLimit userCurrent
  have hprod : 0 ≤ smNum * smNum * maxThreadPerSm * utilizationDiff upLimit userCurrent :=
    mul_nonneg (mul_nonneg (mul_nonneg hsm hsm) hthread) (by omega)
  have hbase : 0 ≤ (smNum * smNum * maxThreadPerSm *
      utilizationDiff upLimit userCurrent).tdiv 2560 := Int.tdiv_nonneg hprod (by omega)
  rw [shareIncrement_of_fit hsm hthread h.fit]
  split_ifs with hfar
  · have hmul := mul_nonneg hbase (b := utilizationDiff upLimit userCurrent) (by omega)
    refine ⟨Int.tdiv_nonneg (by omega) (by omega), ?_⟩
    exact lt_of_le_of_lt (Int.tdiv_le_self _ (by omega)) (h.accelerated hfar)
  · exact ⟨hbase, lt_of_le_of_lt (Int.tdiv_le_self _ hprod) h.diff⟩

/-- **The feedback formula keeps the share between `0` and the cap.** -/
theorem delta_bounds (hsm : 0 ≤ smNum) (hthread : 0 ≤ maxThreadPerSm) (hlimit : 0 ≤ upLimit)
    (h : ProductsSmall smNum maxThreadPerSm upLimit userCurrent) (h0 : 0 ≤ share)
    (hle : share ≤ totalCudaCores) (hcap : totalCudaCores < 2 ^ 62) :
    0 ≤ delta smNum maxThreadPerSm totalCudaCores upLimit userCurrent share ∧
      delta smNum maxThreadPerSm totalCudaCores upLimit userCurrent share ≤ totalCudaCores := by
  obtain ⟨hinc, hinc'⟩ := shareIncrement_bounds hsm hthread hlimit h
  unfold delta
  dsimp only
  rw [toInt64_of_bounds (x := share + _) (by omega) (by omega),
    toInt64_of_bounds (x := share - _) (by omega) (by omega)]
  split_ifs <;> omega

end Delta

/-! ## The machine -/

/-- What `setspec` and `init_utilization_watcher` fix before the watcher starts. -/
structure PoolSpec where
  deviceCount : ℕ
  smNum : Dev → ℤ
  maxThreadPerSm : Dev → ℤ
  cachedSmLimit : Dev → ℤ

/-- The pool of one device and the watcher's share of it. -/
structure DevicePool where
  share : ℤ
  curCudaCores : ℤ
  totalCudaCores : ℤ
  deriving DecidableEq

/-- Where a thread is in `rate_limiter`. -/
inductive LimiterPc where
  | idle
  /-- In `while (get_recent_kernel() < 0)`. -/
  | recent (dev : Dev) (kernelSize : ℤ)
  /-- At `CHECK`, about to load the pool. -/
  | check (dev : Dev) (kernelSize : ℤ)
  /-- About to compare and swap. -/
  | cas (dev : Dev) (kernelSize before : ℤ)
  deriving DecidableEq

/-- Where the watcher is in its loop. -/
inductive WatcherPc where
  /-- At the head of `while (1)`. -/
  | wait
  /-- At the head of the device loop, with the measured utilisations. -/
  | device (n : ℕ) (userutil : Dev → ℤ)
  /-- In `change_token`, about to load the pool. -/
  | load (dev : Dev) (userutil : Dev → ℤ)
  /-- In `change_token`, about to compare and swap. -/
  | cas (dev : Dev) (userutil : Dev → ℤ) (before after : ℤ)

/-- The pools, `cached_util_switch`, and where everybody stands. -/
structure PoolState (T : Type*) where
  pool : Dev → DevicePool
  cachedUtilSwitch : ℤ
  limiter : T → LimiterPc
  watcher : WatcherPc

/-- What can happen next. -/
inductive PoolLabel (T : Type*) where
  /-- Thread `t` calls `rate_limiter(grids, blocks)`; `none` is a failing `cuCtxGetDevice`. -/
  | rateLimiter (t : T) (currentDevice : Option Dev) (grids blocks : ℤ)
  /-- `get_recent_kernel` returns to thread `t`. -/
  | recentKernel (t : T) (value : ℤ)
  /-- The next access of thread `t`. -/
  | limiter (t : T)
  /-- The watcher finds `pidfound == 0`. -/
  | pidNotFound
  /-- The watcher reads the switch and measures. -/
  | measure (utilSwitch : ℤ) (userutil : Dev → ℤ)
  /-- The next access of the watcher. -/
  | watcher

namespace DevicePool

/-- The cap doubles when the share has reached it and the pool is negative. -/
def raiseCap (p : DevicePool) : DevicePool :=
  if p.share = p.totalCudaCores ∧ p.curCudaCores < 0 then
    { p with
      totalCudaCores := toInt64 (p.totalCudaCores * 2)
      share := toInt64 (p.totalCudaCores * 2) }
  else p

/-- `share[dev] = delta(...)`. -/
def adjust (spec : PoolSpec) (dev : Dev) (userCurrent : ℤ) (p : DevicePool) : DevicePool :=
  { p with
    share := delta (spec.smNum dev) (spec.maxThreadPerSm dev) p.totalCudaCores
      (spec.cachedSmLimit dev) userCurrent p.share }

/-- `cuda_cores_after` in `change_token(share[dev], dev)`. -/
def refilled (p : DevicePool) : ℤ :=
  if p.totalCudaCores < toInt64 (p.curCudaCores + p.share) then p.totalCudaCores
  else toInt64 (p.curCudaCores + p.share)

end DevicePool

section Machine

variable {T : Type*} [DecidableEq T] (spec : PoolSpec)

/-- Move thread `t`. -/
def PoolState.goto (s : PoolState T) (t : T) (pc : LimiterPc) : PoolState T :=
  { s with limiter := Function.update s.limiter t pc }

/-- Write the pool of one device. -/
def PoolState.setPool (s : PoolState T) (dev : Dev) (p : DevicePool) : PoolState T :=
  { s with pool := Function.update s.pool dev p }

/-- One access of `rate_limiter`. -/
def limiterStep (s : PoolState T) (t : T) : Option (PoolState T) :=
  match s.limiter t with
  | .check dev kernelSize =>
    if (s.pool dev).curCudaCores < 0 then some s
    else some (s.goto t (.cas dev kernelSize (s.pool dev).curCudaCores))
  | .cas dev kernelSize before =>
    if (s.pool dev).curCudaCores = before then
      some ((s.setPool dev { s.pool dev with curCudaCores := toInt64 (before - kernelSize) }).goto t
        .idle)
    else some (s.goto t (.check dev kernelSize))
  | _ => none

/-- One access of the watcher. -/
def watcherStep (s : PoolState T) : Option (PoolState T) :=
  match s.watcher with
  | .wait => none
  | .device n userutil =>
    if h : n < spec.deviceCount ∧ n < cudaDeviceMaxCount then
      let dev : Dev := ⟨n, h.2⟩
      if spec.cachedSmLimit dev ≤ 0 ∨ 100 ≤ spec.cachedSmLimit dev then
        some { s with watcher := .device (n + 1) userutil }
      else if userutil dev ≤ 100 ∧ 0 ≤ userutil dev then
        some { s.setPool dev ((s.pool dev).raiseCap.adjust spec dev (userutil dev)) with
          watcher := .load dev userutil }
      else
        some { s.setPool dev (s.pool dev).raiseCap with watcher := .device (n + 1) userutil }
    else some { s with watcher := .wait }
  | .load dev userutil =>
    some { s with
      watcher := .cas dev userutil (s.pool dev).curCudaCores (s.pool dev).refilled }
  | .cas dev userutil before after =>
    if (s.pool dev).curCudaCores = before then
      some { s.setPool dev { s.pool dev with curCudaCores := after } with
        watcher := .device (dev.val + 1) userutil }
    else some { s with watcher := .load dev userutil }

/-- The interleaving semantics. -/
def PoolState.step (s : PoolState T) : PoolLabel T → Option (PoolState T)
  | .rateLimiter t currentDevice grids _ =>
    match s.limiter t with
    | .idle =>
      let deviceId := currentDevice.getD 0
      if 100 ≤ spec.cachedSmLimit deviceId ∨ spec.cachedSmLimit deviceId = 0 then some s
      else if s.cachedUtilSwitch = 0 then some s
      else some (s.goto t (.recent deviceId grids))
    | _ => none
  | .recentKernel t value =>
    match s.limiter t with
    | .recent dev kernelSize =>
      if value < 0 then some s else some (s.goto t (.check dev kernelSize))
    | _ => none
  | .limiter t => limiterStep s t
  | .pidNotFound =>
    match s.watcher with
    | .wait => some s
    | _ => none
  | .measure utilSwitch userutil =>
    match s.watcher with
    | .wait => some { s with cachedUtilSwitch := utilSwitch, watcher := .device 0 userutil }
    | _ => none
  | .watcher => watcherStep spec s

/-- What a step can do, with the guards of the branch it takes. -/
inductive PoolMove (s : PoolState T) : PoolLabel T → PoolState T → Prop where
  | unlimited {t : T} {currentDevice : Option Dev} {grids blocks : ℤ} (hidle : s.limiter t = .idle)
      (hfree : (100 ≤ spec.cachedSmLimit (currentDevice.getD 0) ∨
        spec.cachedSmLimit (currentDevice.getD 0) = 0) ∨ s.cachedUtilSwitch = 0) :
      PoolMove s (.rateLimiter t currentDevice grids blocks) s
  | enter {t : T} {currentDevice : Option Dev} {grids blocks : ℤ} (hidle : s.limiter t = .idle)
      (hlimit : ¬ (100 ≤ spec.cachedSmLimit (currentDevice.getD 0) ∨
        spec.cachedSmLimit (currentDevice.getD 0) = 0)) (hswitch : s.cachedUtilSwitch ≠ 0) :
      PoolMove s (.rateLimiter t currentDevice grids blocks)
        (s.goto t (.recent (currentDevice.getD 0) grids))
  | sleep {t : T} {value kernelSize : ℤ} {dev : Dev} (hpc : s.limiter t = .recent dev kernelSize)
      (hneg : value < 0) : PoolMove s (.recentKernel t value) s
  | proceed {t : T} {value kernelSize : ℤ} {dev : Dev} (hpc : s.limiter t = .recent dev kernelSize)
      (h0 : 0 ≤ value) : PoolMove s (.recentKernel t value) (s.goto t (.check dev kernelSize))
  | drained {t : T} {dev : Dev} {kernelSize : ℤ} (hpc : s.limiter t = .check dev kernelSize)
      (hneg : (s.pool dev).curCudaCores < 0) : PoolMove s (.limiter t) s
  | load {t : T} {dev : Dev} {kernelSize : ℤ} (hpc : s.limiter t = .check dev kernelSize)
      (h0 : 0 ≤ (s.pool dev).curCudaCores) :
      PoolMove s (.limiter t) (s.goto t (.cas dev kernelSize (s.pool dev).curCudaCores))
  | debit {t : T} {dev : Dev} {kernelSize before : ℤ}
      (hpc : s.limiter t = .cas dev kernelSize before)
      (heq : (s.pool dev).curCudaCores = before) :
      PoolMove s (.limiter t) ((s.setPool dev
        { s.pool dev with curCudaCores := toInt64 (before - kernelSize) }).goto t .idle)
  | retry {t : T} {dev : Dev} {kernelSize before : ℤ}
      (hpc : s.limiter t = .cas dev kernelSize before)
      (hne : (s.pool dev).curCudaCores ≠ before) :
      PoolMove s (.limiter t) (s.goto t (.check dev kernelSize))
  | pidNotFound (hpc : s.watcher = .wait) : PoolMove s .pidNotFound s
  | measure {utilSwitch : ℤ} {userutil : Dev → ℤ} (hpc : s.watcher = .wait) :
      PoolMove s (.measure utilSwitch userutil)
        { s with cachedUtilSwitch := utilSwitch, watcher := .device 0 userutil }
  | skip {n : ℕ} {userutil : Dev → ℤ} (hpc : s.watcher = .device n userutil)
      (hn : n < spec.deviceCount ∧ n < cudaDeviceMaxCount)
      (hlimit : spec.cachedSmLimit ⟨n, hn.2⟩ ≤ 0 ∨ 100 ≤ spec.cachedSmLimit ⟨n, hn.2⟩) :
      PoolMove s .watcher { s with watcher := .device (n + 1) userutil }
  | adjust {n : ℕ} {userutil : Dev → ℤ} (hpc : s.watcher = .device n userutil)
      (hn : n < spec.deviceCount ∧ n < cudaDeviceMaxCount)
      (hlimit : ¬ (spec.cachedSmLimit ⟨n, hn.2⟩ ≤ 0 ∨ 100 ≤ spec.cachedSmLimit ⟨n, hn.2⟩))
      (hutil : userutil ⟨n, hn.2⟩ ≤ 100 ∧ 0 ≤ userutil ⟨n, hn.2⟩) :
      PoolMove s .watcher
        { s.setPool ⟨n, hn.2⟩
            ((s.pool ⟨n, hn.2⟩).raiseCap.adjust spec ⟨n, hn.2⟩ (userutil ⟨n, hn.2⟩)) with
          watcher := .load ⟨n, hn.2⟩ userutil }
  | unmeasured {n : ℕ} {userutil : Dev → ℤ} (hpc : s.watcher = .device n userutil)
      (hn : n < spec.deviceCount ∧ n < cudaDeviceMaxCount)
      (hlimit : ¬ (spec.cachedSmLimit ⟨n, hn.2⟩ ≤ 0 ∨ 100 ≤ spec.cachedSmLimit ⟨n, hn.2⟩))
      (hutil : ¬ (userutil ⟨n, hn.2⟩ ≤ 100 ∧ 0 ≤ userutil ⟨n, hn.2⟩)) :
      PoolMove s .watcher { s.setPool ⟨n, hn.2⟩ (s.pool ⟨n, hn.2⟩).raiseCap with
        watcher := .device (n + 1) userutil }
  | endRound {n : ℕ} {userutil : Dev → ℤ} (hpc : s.watcher = .device n userutil)
      (hn : ¬ (n < spec.deviceCount ∧ n < cudaDeviceMaxCount)) :
      PoolMove s .watcher { s with watcher := .wait }
  | loadPool {dev : Dev} {userutil : Dev → ℤ} (hpc : s.watcher = .load dev userutil) :
      PoolMove s .watcher { s with
        watcher := .cas dev userutil (s.pool dev).curCudaCores (s.pool dev).refilled }
  | refill {dev : Dev} {userutil : Dev → ℤ} {before after : ℤ}
      (hpc : s.watcher = .cas dev userutil before after)
      (heq : (s.pool dev).curCudaCores = before) :
      PoolMove s .watcher { s.setPool dev { s.pool dev with curCudaCores := after } with
        watcher := .device (dev.val + 1) userutil }
  | reload {dev : Dev} {userutil : Dev → ℤ} {before after : ℤ}
      (hpc : s.watcher = .cas dev userutil before after)
      (hne : (s.pool dev).curCudaCores ≠ before) :
      PoolMove s .watcher { s with watcher := .load dev userutil }

variable {spec} {s s' : PoolState T}

theorem poolMove_of_limiterStep {t : T} (hst : limiterStep s t = some s') :
    PoolMove spec s (.limiter t) s' := by
  unfold limiterStep at hst
  split at hst
  · next dev kernelSize hpc =>
    split_ifs at hst with hneg
    · cases hst
      exact .drained hpc hneg
    · cases hst
      exact .load hpc (not_lt.mp hneg)
  · next dev kernelSize before hpc =>
    split_ifs at hst with heq
    · cases hst
      exact .debit hpc heq
    · cases hst
      exact .retry hpc heq
  · exact absurd hst (by simp)

theorem poolMove_of_watcherStep (hst : watcherStep spec s = some s') :
    PoolMove spec s .watcher s' := by
  unfold watcherStep at hst
  split at hst
  · exact absurd hst (by simp)
  · next n userutil hpc =>
    split at hst
    · next hn =>
      dsimp only at hst
      split_ifs at hst with hlimit hutil
      · cases hst
        exact .skip hpc hn hlimit
      · cases hst
        exact .adjust hpc hn hlimit hutil
      · cases hst
        exact .unmeasured hpc hn hlimit hutil
    · next hn =>
      cases hst
      exact .endRound hpc hn
  · next dev userutil hpc =>
    cases hst
    exact .loadPool hpc
  · next dev userutil before after hpc =>
    split_ifs at hst with heq
    · cases hst
      exact .refill hpc heq
    · cases hst
      exact .reload hpc heq

/-- **Reading a step.**  Every step is one of the moves. -/
theorem poolMove_of_step {a : PoolLabel T} (hst : s.step spec a = some s') :
    PoolMove spec s a s' := by
  cases a with
  | rateLimiter t currentDevice grids blocks =>
    simp only [PoolState.step] at hst
    split at hst
    · next hidle =>
      split_ifs at hst with hlimit hswitch
      · cases hst
        exact .unlimited hidle (Or.inl hlimit)
      · cases hst
        exact .unlimited hidle (Or.inr hswitch)
      · cases hst
        exact .enter hidle hlimit hswitch
    · exact absurd hst (by simp)
  | recentKernel t value =>
    simp only [PoolState.step] at hst
    split at hst
    · next dev kernelSize hpc =>
      split_ifs at hst with hneg
      · cases hst
        exact .sleep hpc hneg
      · cases hst
        exact .proceed hpc (not_lt.mp hneg)
    · exact absurd hst (by simp)
  | limiter t => exact poolMove_of_limiterStep hst
  | pidNotFound =>
    simp only [PoolState.step] at hst
    split at hst
    · next hpc =>
      cases hst
      exact .pidNotFound hpc
    · exact absurd hst (by simp)
  | measure utilSwitch userutil =>
    simp only [PoolState.step] at hst
    split at hst
    · next hpc =>
      cases hst
      exact .measure hpc
    · exact absurd hst (by simp)
  | watcher => exact poolMove_of_watcherStep hst

end Machine

/-! ## Assumptions on a run -/

/-- The counts are not negative.  They are 0 where there is no device, as the limits are. -/
structure PoolSpec.Regular (spec : PoolSpec) : Prop where
  smNum_nonneg : ∀ d, 0 ≤ spec.smNum d
  maxThreadPerSm_nonneg : ∀ d, 0 ≤ spec.maxThreadPerSm d

/-- The watcher comes to device `d`, and `d` has a limit. -/
def PoolSpec.Limited (spec : PoolSpec) (d : Dev) : Prop :=
  d.val < spec.deviceCount ∧ 0 < spec.cachedSmLimit d ∧ spec.cachedSmLimit d < 100

instance (spec : PoolSpec) (d : Dev) : Decidable (spec.Limited d) :=
  inferInstanceAs (Decidable (_ ∧ _))

/-- Kernel sizes are `int`s that are not negative; the products that the watcher forms and the cap
it sets stay below `2 ^ 62`. -/
def PoolLabel.NoOverflow {T : Type*} (spec : PoolSpec) (s : PoolState T) : PoolLabel T → Prop
  | .rateLimiter _ _ grids _ => 0 ≤ grids ∧ grids < 2 ^ 31
  | .watcher => ∀ (dev : Dev) (userutil : Dev → ℤ), s.watcher = .device dev.val userutil →
      spec.Limited dev → (s.pool dev).raiseCap.totalCudaCores < 2 ^ 62 ∧
        (userutil dev ≤ 100 ∧ 0 ≤ userutil dev →
          ProductsSmall (spec.smNum dev) (spec.maxThreadPerSm dev) (spec.cachedSmLimit dev)
            (userutil dev))
  | _ => True

/-- The device a step is on; `none` for a step that is on no device. -/
def PoolLabel.device {T : Type*} (s : PoolState T) : PoolLabel T → Option Dev
  | .limiter t =>
    match s.limiter t with
    | .cas dev _ _ => some dev
    | .check dev _ => some dev
    | _ => none
  | .watcher =>
    match s.watcher with
    | .device n _ => if h : n < cudaDeviceMaxCount then some ⟨n, h⟩ else none
    | .load dev _ => some dev
    | .cas dev _ _ _ => some dev
    | .wait => none
  | _ => none

/-- `g_total_cuda_cores[dev]` as `setspec` computes it, in `int`; `FACTOR` is 32. -/
def initialTotal (spec : PoolSpec) (dev : Dev) : ℤ :=
  ((spec.maxThreadPerSm dev * spec.smNum dev).bmod (2 ^ 32) * 32).bmod (2 ^ 32)

/-- The state `init_utilization_watcher` starts the watcher in. -/
def PoolState.initial {T : Type*} (spec : PoolSpec) (utilSwitch : ℤ) : PoolState T where
  pool := fun dev => ⟨0, 0, initialTotal spec dev⟩
  cachedUtilSwitch := utilSwitch
  limiter := fun _ => .idle
  watcher := .wait

/-- Empty pools, shares of `0`, and caps that are not negative: every state `setspec` leaves without
an overflow is one. -/
structure PoolState.Start {T : Type*} (s : PoolState T) : Prop where
  share : ∀ d, (s.pool d).share = 0
  cur : ∀ d, (s.pool d).curCudaCores = 0
  total_nonneg : ∀ d, 0 ≤ (s.pool d).totalCudaCores
  total_lt : ∀ d, (s.pool d).totalCudaCores < 2 ^ 62
  limiter : ∀ t, s.limiter t = .idle
  watcher : s.watcher = .wait

/-! ## The invariant -/

/-- The bounds on one device. -/
structure DevicePool.Ok (p : DevicePool) : Prop where
  share_nonneg : 0 ≤ p.share
  share_le : p.share ≤ p.totalCudaCores
  total_lt : p.totalCudaCores < 2 ^ 62
  cur_le : p.curCudaCores ≤ p.totalCudaCores
  cur_gt : -2 ^ 31 < p.curCudaCores

/-- What a thread inside `rate_limiter` carries: an `int` kernel size, and a value of the pool that
was not negative when it was loaded. -/
def LimiterPc.Ok (pool : Dev → DevicePool) : LimiterPc → Prop
  | .idle => True
  | .recent _ kernelSize => 0 ≤ kernelSize ∧ kernelSize < 2 ^ 31
  | .check _ kernelSize => 0 ≤ kernelSize ∧ kernelSize < 2 ^ 31
  | .cas dev kernelSize before =>
    (0 ≤ kernelSize ∧ kernelSize < 2 ^ 31) ∧ 0 ≤ before ∧ before ≤ (pool dev).totalCudaCores

/-- What the watcher carries: a new value within the bounds. -/
def WatcherPc.Ok (pool : Dev → DevicePool) : WatcherPc → Prop
  | .cas dev _ _ after => -2 ^ 31 < after ∧ after ≤ (pool dev).totalCudaCores
  | _ => True

/-- **The invariant.** -/
structure PoolState.Inv {T : Type*} (s : PoolState T) : Prop where
  pool : ∀ d, (s.pool d).Ok
  limiter : ∀ t, (s.limiter t).Ok s.pool
  watcher : s.watcher.Ok s.pool

section Inv

variable {T : Type*} [DecidableEq T] {spec : PoolSpec} {s s' : PoolState T}

omit [DecidableEq T] in
theorem PoolState.Start.inv (h : s.Start) : s.Inv where
  pool d := by
    have hshare := h.share d
    have hcur := h.cur d
    have hnonneg := h.total_nonneg d
    have hlt := h.total_lt d
    exact ⟨by omega, by omega, hlt, by omega, by omega⟩
  limiter t := by
    rw [h.limiter t]
    trivial
  watcher := by
    rw [h.watcher]
    trivial

/-- A bound on a loaded value survives as long as the caps do not go down. -/
theorem LimiterPc.Ok.mono {pool pool' : Dev → DevicePool} {pc : LimiterPc} (h : pc.Ok pool)
    (hle : ∀ d, (pool d).totalCudaCores ≤ (pool' d).totalCudaCores) : pc.Ok pool' := by
  cases pc with
  | cas dev kernelSize before => exact ⟨h.1, h.2.1, h.2.2.trans (hle dev)⟩
  | _ => exact h

/-- Doubling the cap keeps the bounds and does not lower it. -/
theorem DevicePool.Ok.raiseCap {p : DevicePool} (h : p.Ok)
    (hcap : p.raiseCap.totalCudaCores < 2 ^ 62) :
    p.raiseCap.Ok ∧ p.totalCudaCores ≤ p.raiseCap.totalCudaCores := by
  obtain ⟨h₁, h₂, h₃, h₄, h₅⟩ := h
  unfold DevicePool.raiseCap at hcap ⊢
  rw [toInt64_of_bounds (by omega) (by omega)] at hcap ⊢
  split_ifs at hcap ⊢ with hdouble
  · have hle : p.totalCudaCores ≤ p.totalCudaCores * 2 := by omega
    have hnonneg : 0 ≤ p.totalCudaCores * 2 := by omega
    exact ⟨⟨hnonneg, le_rfl, hcap, h₄.trans hle, h₅⟩, hle⟩
  · exact ⟨⟨h₁, h₂, h₃, h₄, h₅⟩, le_rfl⟩

theorem DevicePool.Ok.adjust (hspec : spec.Regular) {dev : Dev} {userCurrent : ℤ} {p : DevicePool}
    (h : p.Ok) (hlimit : 0 ≤ spec.cachedSmLimit dev)
    (hsmall : ProductsSmall (spec.smNum dev) (spec.maxThreadPerSm dev) (spec.cachedSmLimit dev)
      userCurrent) : (p.adjust spec dev userCurrent).Ok := by
  obtain ⟨h0, hle⟩ := delta_bounds (hspec.smNum_nonneg dev) (hspec.maxThreadPerSm_nonneg dev)
    hlimit hsmall h.share_nonneg h.share_le h.total_lt
  exact ⟨h0, hle, h.total_lt, h.cur_le, h.cur_gt⟩

/-- What `change_token` is about to store is within the bounds. -/
theorem DevicePool.Ok.refilled {p : DevicePool} (h : p.Ok) :
    -2 ^ 31 < p.refilled ∧ p.refilled ≤ p.totalCudaCores := by
  obtain ⟨h₁, h₂, h₃, h₄, h₅⟩ := h
  unfold DevicePool.refilled
  rw [toInt64_of_bounds (by omega) (by omega)]
  split_ifs <;> omega

omit [DecidableEq T] in
/-- Writing one pool: the bounds of that device, and caps that do not go down. -/
theorem PoolState.Inv.setPool (h : s.Inv) {dev : Dev} {p : DevicePool} (hp : p.Ok)
    (hcap : (s.pool dev).totalCudaCores ≤ p.totalCudaCores) {pc : WatcherPc}
    (hpc : pc.Ok (Function.update s.pool dev p)) :
    PoolState.Inv { s.setPool dev p with watcher := pc } := by
  have hle : ∀ d, (s.pool d).totalCudaCores ≤ (Function.update s.pool dev p d).totalCudaCores := by
    intro d
    by_cases hd : d = dev
    · rw [hd, Function.update_self]
      exact hcap
    · rw [Function.update_of_ne hd]
  refine ⟨fun d => ?_, fun t => (h.limiter t).mono hle, hpc⟩
  show (Function.update s.pool dev p d).Ok
  by_cases hd : d = dev
  · rw [hd, Function.update_self]
    exact hp
  · rw [Function.update_of_ne hd]
    exact h.pool d

theorem PoolState.Inv.goto (h : s.Inv) {t : T} {pc : LimiterPc} (hpc : pc.Ok s.pool) :
    (s.goto t pc).Inv := by
  refine ⟨h.pool, fun u => ?_, h.watcher⟩
  show (Function.update s.limiter t pc u).Ok s.pool
  by_cases hu : u = t
  · rw [hu, Function.update_self]
    exact hpc
  · rw [Function.update_of_ne hu]
    exact h.limiter u

omit [DecidableEq T] in
/-- Changing the tokens of one device within the bounds. -/
theorem PoolState.Inv.setCur (h : s.Inv) {dev : Dev} {v : ℤ} (hgt : -2 ^ 31 < v)
    (hle : v ≤ (s.pool dev).totalCudaCores) {pc : WatcherPc}
    (hpc : pc.Ok (Function.update s.pool dev { s.pool dev with curCudaCores := v })) :
    PoolState.Inv { s.setPool dev { s.pool dev with curCudaCores := v } with watcher := pc } := by
  have hok := h.pool dev
  have hnew : DevicePool.Ok { s.pool dev with curCudaCores := v } :=
    ⟨hok.share_nonneg, hok.share_le, hok.total_lt, hle, hgt⟩
  exact h.setPool hnew le_rfl hpc

omit [DecidableEq T] in
theorem WatcherPc.Ok.setCur (h : s.Inv) {dev : Dev} (v : ℤ) :
    s.watcher.Ok (Function.update s.pool dev { s.pool dev with curCudaCores := v }) := by
  have hw := h.watcher
  cases hpc : s.watcher with
  | cas d userutil before after =>
    rw [hpc] at hw
    refine ⟨hw.1, hw.2.trans (le_of_eq ?_)⟩
    by_cases hd : d = dev
    · rw [hd, Function.update_self]
    · rw [Function.update_of_ne hd]
  | _ => trivial

/-- The guards of the watcher let a limited device through. -/
theorem PoolSpec.limited_of_guards {n : ℕ} (hn : n < spec.deviceCount ∧ n < cudaDeviceMaxCount)
    (hlimit : ¬ (spec.cachedSmLimit ⟨n, hn.2⟩ ≤ 0 ∨ 100 ≤ spec.cachedSmLimit ⟨n, hn.2⟩)) :
    spec.Limited ⟨n, hn.2⟩ :=
  ⟨hn.1, by omega, by omega⟩

/-- **One step.**  A launching thread swaps out a pool that was not negative and takes an `int` off
it; the watcher stores what `delta` and `change_token` bound. -/
theorem PoolState.Inv.step (hspec : spec.Regular) (h : s.Inv) {a : PoolLabel T}
    (hok : a.NoOverflow spec s) (hst : s.step spec a = some s') : s'.Inv := by
  have hlimiter : ∀ {t : T} {pc : LimiterPc}, s.limiter t = pc → pc.Ok s.pool :=
    fun hpc => hpc ▸ h.limiter _
  have hwatcher : ∀ {pc : WatcherPc}, s.watcher = pc → pc.Ok s.pool := fun hpc => hpc ▸ h.watcher
  cases poolMove_of_step hst with
  | unlimited _ _ => exact h
  | enter _ _ _ => exact h.goto hok
  | sleep _ _ => exact h
  | proceed hpc _ =>
    have hsize := hlimiter hpc
    exact h.goto hsize
  | drained _ _ => exact h
  | load hpc h0 => exact h.goto ⟨hlimiter hpc, h0, (h.pool _).cur_le⟩
  | @debit _ dev _ _ hpc heq =>
    obtain ⟨⟨hk0, hk⟩, hb0, hb⟩ := hlimiter hpc
    have hlt := (h.pool dev).total_lt
    rw [toInt64_of_bounds (by omega) (by omega)]
    exact (h.setCur (by omega) (by omega) (WatcherPc.Ok.setCur h _)).goto trivial
  | retry hpc _ =>
    obtain ⟨hsize, -⟩ := hlimiter hpc
    exact h.goto hsize
  | pidNotFound _ => exact h
  | measure _ => exact ⟨h.pool, h.limiter, trivial⟩
  | skip _ _ _ => exact ⟨h.pool, h.limiter, trivial⟩
  | adjust hpc hn hlimit hutil =>
    have hlimited := PoolSpec.limited_of_guards hn hlimit
    obtain ⟨hcap, hsmall⟩ := hok ⟨_, hn.2⟩ _ hpc hlimited
    obtain ⟨hraise, hle⟩ := (h.pool ⟨_, hn.2⟩).raiseCap hcap
    exact h.setPool (hraise.adjust hspec hlimited.2.1.le (hsmall hutil)) hle trivial
  | unmeasured hpc hn hlimit _ =>
    obtain ⟨hcap, -⟩ := hok ⟨_, hn.2⟩ _ hpc (PoolSpec.limited_of_guards hn hlimit)
    obtain ⟨hraise, hle⟩ := (h.pool ⟨_, hn.2⟩).raiseCap hcap
    exact h.setPool hraise hle trivial
  | endRound _ _ => exact ⟨h.pool, h.limiter, trivial⟩
  | loadPool _ => exact ⟨h.pool, h.limiter, (h.pool _).refilled⟩
  | refill hpc _ => exact h.setCur (hwatcher hpc).1 (hwatcher hpc).2 trivial
  | reload _ _ => exact ⟨h.pool, h.limiter, trivial⟩

/-- **A step on one device leaves the others alone.** -/
theorem PoolState.step_pool_of_ne {a : PoolLabel T} (hst : s.step spec a = some s') {d : Dev}
    (hd : a.device s ≠ some d) : s'.pool d = s.pool d := by
  have hupdate : ∀ {dev : Dev} {p : DevicePool}, some dev ≠ some d →
      Function.update s.pool dev p d = s.pool d := fun hne =>
    Function.update_of_ne (fun heq => hne (by rw [heq])) _ _
  cases poolMove_of_step hst with
  | debit hpc _ =>
    simp only [PoolLabel.device, hpc] at hd
    exact hupdate hd
  | adjust hpc hn _ _ =>
    simp only [PoolLabel.device, hpc, dif_pos hn.2] at hd
    exact hupdate hd
  | unmeasured hpc hn _ _ =>
    simp only [PoolLabel.device, hpc, dif_pos hn.2] at hd
    exact hupdate hd
  | refill hpc _ =>
    simp only [PoolLabel.device, hpc] at hd
    exact hupdate hd
  | _ => rfl

/-- **The token pools.**  Any number of launching threads and the watcher, any interleaving of their
accesses, any measured utilisations: on every device the share lies between `0` and the cap, the
pool is at most the cap and above `-2 ^ 31`; and a step on one device leaves share, pool and cap of
every other device as they were. -/
theorem token_pool_invariant (hspec : spec.Regular) (hstart : s.Start)
    (hrun : GuardedRun (PoolState.step spec) (fun s a => a.NoOverflow spec s) s s') :
    (∀ d, 0 ≤ (s'.pool d).share ∧ (s'.pool d).share ≤ (s'.pool d).totalCudaCores ∧
        (s'.pool d).curCudaCores ≤ (s'.pool d).totalCudaCores ∧
        -2 ^ 31 < (s'.pool d).curCudaCores) ∧
      ∀ (a : PoolLabel T) (s'' : PoolState T), s'.step spec a = some s'' →
        ∀ d, a.device s' ≠ some d → s''.pool d = s'.pool d := by
  have hinv : s'.Inv := hrun.invariant (P := PoolState.Inv)
    (fun _ _ _ hI hok hst => hI.step hspec hok hst) hstart.inv
  refine ⟨fun d => ?_, fun a s'' hst d hd => PoolState.step_pool_of_ne hst hd⟩
  obtain ⟨h0, hle, -, hcur, hgt⟩ := hinv.pool d
  exact ⟨h0, hle, hcur, hgt⟩

end Inv

/-- What `setspec` leaves is a start, when its product fits an `int`. -/
theorem PoolState.start_initial {T : Type*} {spec : PoolSpec} (hspec : spec.Regular)
    (hfit : ∀ d, spec.maxThreadPerSm d * spec.smNum d * 32 < 2 ^ 31) (utilSwitch : ℤ) :
    (PoolState.initial (T := T) spec utilSwitch).Start := by
  have htotal : ∀ d, initialTotal spec d = spec.maxThreadPerSm d * spec.smNum d * 32 := by
    intro d
    have hfit := hfit d
    have hnonneg : 0 ≤ spec.maxThreadPerSm d * spec.smNum d :=
      mul_nonneg (hspec.maxThreadPerSm_nonneg d) (hspec.smNum_nonneg d)
    rw [initialTotal, Int.bmod_eq_of_le (n := spec.maxThreadPerSm d * spec.smNum d) (by omega)
      (by omega), Int.bmod_eq_of_le (by omega) (by omega)]
  refine ⟨fun _ => rfl, fun _ => rfl, fun d => ?_, fun d => ?_, fun _ => rfl, rfl⟩
  · show 0 ≤ initialTotal spec d
    rw [htotal]
    exact mul_nonneg (mul_nonneg (hspec.maxThreadPerSm_nonneg d) (hspec.smNum_nonneg d)) (by omega)
  · show initialTotal spec d < 2 ^ 62
    have := hfit d
    rw [htotal]
    omega

instance (smNum maxThreadPerSm upLimit userCurrent : ℤ) :
    Decidable (ProductsSmall smNum maxThreadPerSm upLimit userCurrent) :=
  decidable_of_iff (smNum * smNum < 2 ^ 62 ∧ smNum * smNum * maxThreadPerSm < 2 ^ 62 ∧
      smNum * smNum * maxThreadPerSm * utilizationDiff upLimit userCurrent < 2 ^ 62 ∧
      (upLimit.tdiv 2 < utilizationDiff upLimit userCurrent →
        (smNum * smNum * maxThreadPerSm * utilizationDiff upLimit userCurrent).tdiv 2560 *
          utilizationDiff upLimit userCurrent * 2 < 2 ^ 62))
    ⟨fun h => ⟨h.1, h.2.1, h.2.2.1, h.2.2.2⟩, fun h => ⟨h.1, h.2, h.3, h.4⟩⟩

/-- `NoOverflow`, evaluated. -/
def PoolLabel.noOverflow {T : Type*} (spec : PoolSpec) (s : PoolState T) : PoolLabel T → Bool
  | .rateLimiter _ _ grids _ => decide (0 ≤ grids) && decide (grids < 2 ^ 31)
  | .watcher =>
    match s.watcher with
    | .device n userutil =>
      if h : n < cudaDeviceMaxCount then
        decide (spec.Limited ⟨n, h⟩ → (s.pool ⟨n, h⟩).raiseCap.totalCudaCores < 2 ^ 62 ∧
          (userutil ⟨n, h⟩ ≤ 100 ∧ 0 ≤ userutil ⟨n, h⟩ →
            ProductsSmall (spec.smNum ⟨n, h⟩) (spec.maxThreadPerSm ⟨n, h⟩)
              (spec.cachedSmLimit ⟨n, h⟩) (userutil ⟨n, h⟩)))
      else true
    | _ => true
  | _ => true

theorem PoolLabel.noOverflow_of_eval {T : Type*} {spec : PoolSpec} {s : PoolState T}
    {a : PoolLabel T} (h : a.noOverflow spec s = true) : a.NoOverflow spec s := by
  cases a with
  | rateLimiter t currentDevice grids blocks =>
    simp only [PoolLabel.noOverflow, Bool.and_eq_true, decide_eq_true_eq] at h
    exact h
  | watcher =>
    intro dev userutil hdevice
    simp only [PoolLabel.noOverflow, hdevice, dif_pos dev.isLt, decide_eq_true_eq] at h
    exact h
  | _ => trivial

/-- What is read of the only device, and the zeros of the others. -/
def firstOnly (value : ℤ) (d : Dev) : ℤ := if d = 0 then value else 0

/-- One device, with two processors of 64 threads each and a limit of 50 percent. -/
def smallDevices : PoolSpec := ⟨1, firstOnly 2, firstOnly 64, firstOnly 50⟩

theorem smallDevices_regular : smallDevices.Regular where
  smNum_nonneg := by decide
  maxThreadPerSm_nonneg := by decide

theorem smallDevices_start : (PoolState.initial (T := Unit) smallDevices 1).Start :=
  PoolState.start_initial smallDevices_regular (by decide) 1

/-- The watcher measures 30 percent and refills device `0`; a launch of 5 blocks then empties it. -/
def refillAndLaunch : List (PoolLabel Unit) :=
  [.measure 1 fun _ => 30, .watcher, .watcher, .watcher, .rateLimiter () (some 0) 5 32,
    .recentKernel () 2, .limiter (), .limiter ()]

theorem exec_refillAndLaunch :
    (exec (PoolState.step smallDevices) (fun s a => a.noOverflow smallDevices s) refillAndLaunch
      (PoolState.initial smallDevices 1)).map (fun s => s.pool 0) = some ⟨2, -3, 4096⟩ := by
  decide +kernel

/-- In that run the share has gone from `0` to `2` and the pool is at `-3`. -/
theorem token_pool_invariant_refillAndLaunch :
    ∃ s : PoolState Unit, s.pool 0 = ⟨2, -3, 4096⟩ ∧ 0 ≤ (s.pool 0).share ∧
      (s.pool 0).share ≤ (s.pool 0).totalCudaCores ∧
      (s.pool 0).curCudaCores ≤ (s.pool 0).totalCudaCores ∧ -2 ^ 31 < (s.pool 0).curCudaCores := by
  obtain ⟨s, hexec, hpool⟩ := Option.map_eq_some_iff.mp exec_refillAndLaunch
  have hrun : GuardedRun (PoolState.step smallDevices) (fun s a => a.NoOverflow smallDevices s)
      (PoolState.initial smallDevices 1) s :=
    GuardedRun.of_exec (fun _ _ _ => PoolLabel.noOverflow_of_eval) hexec
  exact ⟨s, hpool, (token_pool_invariant smallDevices_regular smallDevices_start hrun).1 0⟩

end HamiCore
