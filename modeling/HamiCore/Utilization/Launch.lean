import HamiCore.Process.HostPid
import HamiCore.Utilization.TokenPool

/-!
# What a launch takes off the pool

`cuLaunchKernel` and `cuLaunchKernelEx` hand the number of blocks of the grid to `rate_limiter`,
which takes it off the pool of the current device in a compare-and-swap loop.  The loop is right:
whatever the other threads and the watcher do in between, one swap of this thread succeeds, and it
starts from a value that is not negative.  The number is not: it is formed in 32 bits without a sign
and passed as an `int`, so that a grid of `2 ^ 31` blocks and more counts as something else
(`launch_debit_iff`).
-/

namespace HamiCore

/-- The dimensions of a launch, as `CUlaunchConfig` has them. -/
structure LaunchConfig where
  gridDimX : UInt32
  gridDimY : UInt32
  gridDimZ : UInt32
  blockDimX : UInt32
  blockDimY : UInt32
  blockDimZ : UInt32

/-- The number of blocks of the grid. -/
def LaunchConfig.blocks (config : LaunchConfig) : ℕ :=
  config.gridDimX.toNat * config.gridDimY.toNat * config.gridDimZ.toNat

section Calls

variable {T : Type*}

/-- The call of `rate_limiter` that both hooks make, once the host pid is known. -/
def launch (pidfound : ℤ) (t : T) (currentDevice : Option Dev) (config : LaunchConfig) :
    Option (PoolLabel T) :=
  if pidfound = 1 then
    some (.rateLimiter t currentDevice
      (asInt (config.gridDimX * config.gridDimY * config.gridDimZ))
      (asInt (config.blockDimX * config.blockDimY * config.blockDimZ)))
  else none

/-- `cuLaunchKernel`, up to the call of `rate_limiter`. -/
def cuLaunchKernel (pidfound : ℤ) (t : T) (currentDevice : Option Dev)
    (gridDimX gridDimY gridDimZ blockDimX blockDimY blockDimZ : UInt32) : Option (PoolLabel T) :=
  launch pidfound t currentDevice ⟨gridDimX, gridDimY, gridDimZ, blockDimX, blockDimY, blockDimZ⟩

/-- `cuLaunchKernelEx`, up to the call of `rate_limiter`. -/
def cuLaunchKernelEx (pidfound : ℤ) (t : T) (currentDevice : Option Dev) (config : LaunchConfig) :
    Option (PoolLabel T) :=
  launch pidfound t currentDevice config

end Calls

/-! ### Runs of one call -/

/-- A successful compare-and-swap on a pool. -/
structure PoolSwap where
  dev : Dev
  before : ℤ
  after : ℤ
  deriving DecidableEq

section Runs

variable {T : Type*} [DecidableEq T] {spec : PoolSpec}

/-- The successful swap of thread `t` in the step from `s` to `s'`, if there is one, with what the
pool held before and after the step. -/
def PoolLabel.swap (t : T) (s s' : PoolState T) : PoolLabel T → List PoolSwap
  | .limiter t' =>
    if t' = t then
      match s.limiter t with
      | .cas dev _ before =>
        if (s.pool dev).curCudaCores = before then
          [⟨dev, (s.pool dev).curCudaCores, (s'.pool dev).curCudaCores⟩]
        else []
      | _ => []
    else []
  | _ => []

/-- The runs from a call of `rate_limiter` by thread `t` on, for as long as it is in the function,
with the successful swaps the thread has made. -/
inductive CallRun (spec : PoolSpec) (t : T) (call : PoolLabel T) (s : PoolState T) :
    List PoolSwap → PoolState T → Prop where
  | enter {s' : PoolState T} (hidle : s.limiter t = .idle) (hst : s.step spec call = some s') :
      CallRun spec t call s [] s'
  | step {u v : PoolState T} {swaps : List PoolSwap} {a : PoolLabel T}
      (hrun : CallRun spec t call s swaps u) (hin : u.limiter t ≠ .idle)
      (hst : u.step spec a = some v) : CallRun spec t call s (swaps ++ a.swap t u v) v

/-- The thread a label belongs to; `none` for the watcher. -/
def PoolLabel.thread : PoolLabel T → Option T
  | .rateLimiter t _ _ _ => some t
  | .recentKernel t _ => some t
  | .limiter t => some t
  | _ => none

/-- Where a thread stands, only its own steps change. -/
theorem PoolState.step_limiter_of_ne {s s' : PoolState T} {a : PoolLabel T} {t : T}
    (hst : s.step spec a = some s') (ht : a.thread ≠ some t) : s'.limiter t = s.limiter t := by
  have hgoto : ∀ {u : T} (pc : LimiterPc), some u ≠ some t →
      Function.update s.limiter u pc t = s.limiter t := fun pc hne =>
    Function.update_of_ne (fun heq => hne (by rw [heq])) _ _
  cases poolMove_of_step hst with
  | enter _ _ _ => exact hgoto _ ht
  | proceed _ _ => exact hgoto _ ht
  | load _ _ => exact hgoto _ ht
  | debit _ _ => exact hgoto _ ht
  | retry _ _ => exact hgoto _ ht
  | _ => rfl

/-- A thread changes the pools by its successful swaps only. -/
theorem PoolState.step_pool_of_swap_nil {s s' : PoolState T} {a : PoolLabel T} {t : T}
    (hst : s.step spec a = some s') (ht : a.thread = some t) (hswap : a.swap t s s' = []) :
    s'.pool = s.pool := by
  cases poolMove_of_step hst with
  | debit hpc heq =>
    cases ht
    simp [PoolLabel.swap, hpc, heq] at hswap
  | adjust _ _ _ _ => cases ht
  | unmeasured _ _ _ _ => cases ht
  | refill _ _ => cases ht
  | _ => rfl

/-- A value of an `int64_t`. -/
def InInt64 (x : ℤ) : Prop := -2 ^ 63 ≤ x ∧ x < 2 ^ 63

theorem inInt64_toInt64 (x : ℤ) : InInt64 (toInt64 x) :=
  ⟨Int.le_bmod (by decide), Int.bmod_lt (by decide)⟩

/-- What the watcher is about to store is a value of the type. -/
def WatcherPc.InRange : WatcherPc → Prop
  | .cas _ _ _ after => InInt64 after
  | _ => True

omit [DecidableEq T] in
/-- The variables hold values of their type. -/
structure PoolState.InRange (s : PoolState T) : Prop where
  cur : ∀ d, InInt64 (s.pool d).curCudaCores
  total : ∀ d, InInt64 (s.pool d).totalCudaCores
  watcher : s.watcher.InRange

section InRange

variable {s s' : PoolState T}

omit [DecidableEq T] in
theorem PoolState.InRange.setPool (h : s.InRange) {dev : Dev} {p : DevicePool}
    (hcur : InInt64 p.curCudaCores) (htotal : InInt64 p.totalCudaCores) {pc : WatcherPc}
    (hpc : pc.InRange) : PoolState.InRange { s.setPool dev p with watcher := pc } := by
  refine ⟨fun d => ?_, fun d => ?_, hpc⟩
  · show InInt64 (Function.update s.pool dev p d).curCudaCores
    by_cases hd : d = dev
    · rwa [hd, Function.update_self]
    · rw [Function.update_of_ne hd]
      exact h.cur d
  · show InInt64 (Function.update s.pool dev p d).totalCudaCores
    by_cases hd : d = dev
    · rwa [hd, Function.update_self]
    · rw [Function.update_of_ne hd]
      exact h.total d

theorem DevicePool.raiseCap_inInt64 {p : DevicePool} (hcur : InInt64 p.curCudaCores)
    (htotal : InInt64 p.totalCudaCores) :
    InInt64 p.raiseCap.curCudaCores ∧ InInt64 p.raiseCap.totalCudaCores := by
  unfold DevicePool.raiseCap
  split_ifs
  · exact ⟨hcur, inInt64_toInt64 _⟩
  · exact ⟨hcur, htotal⟩

theorem DevicePool.refilled_inInt64 {p : DevicePool} (htotal : InInt64 p.totalCudaCores) :
    InInt64 p.refilled := by
  unfold DevicePool.refilled
  split_ifs
  · exact htotal
  · exact inInt64_toInt64 _

/-- **A step stores values of the type.** -/
theorem PoolState.InRange.step (h : s.InRange) {a : PoolLabel T}
    (hst : s.step spec a = some s') : s'.InRange := by
  have hraise (dev : Dev) := DevicePool.raiseCap_inInt64 (h.cur dev) (h.total dev)
  cases poolMove_of_step hst with
  | unlimited _ _ => exact h
  | enter _ _ _ => exact ⟨h.cur, h.total, h.watcher⟩
  | sleep _ _ => exact h
  | proceed _ _ => exact ⟨h.cur, h.total, h.watcher⟩
  | drained _ _ => exact h
  | load _ _ => exact ⟨h.cur, h.total, h.watcher⟩
  | @debit t dev kernelSize before _ _ =>
    have hset : (s.setPool dev
        { s.pool dev with curCudaCores := toInt64 (before - kernelSize) }).InRange := by
      refine h.setPool ?_ ?_ h.watcher
      · exact inInt64_toInt64 _
      · exact h.total dev
    exact ⟨hset.cur, hset.total, hset.watcher⟩
  | retry _ _ => exact ⟨h.cur, h.total, h.watcher⟩
  | pidNotFound _ => exact h
  | measure _ => exact ⟨h.cur, h.total, trivial⟩
  | skip _ _ _ => exact ⟨h.cur, h.total, trivial⟩
  | adjust _ hn _ _ =>
    refine h.setPool ?_ ?_ ?_
    · exact (hraise ⟨_, hn.2⟩).1
    · exact (hraise ⟨_, hn.2⟩).2
    · trivial
  | unmeasured _ hn _ _ => exact h.setPool (hraise ⟨_, hn.2⟩).1 (hraise ⟨_, hn.2⟩).2 trivial
  | endRound _ _ => exact ⟨h.cur, h.total, trivial⟩
  | loadPool _ => exact ⟨h.cur, h.total, DevicePool.refilled_inInt64 (h.total _)⟩
  | @refill dev _ _ _ hpc _ =>
    have hafter := h.watcher
    rw [hpc] at hafter
    refine h.setPool ?_ ?_ ?_
    · exact hafter
    · exact h.total dev
    · trivial
  | reload _ _ => exact ⟨h.cur, h.total, trivial⟩

end InRange

/-- Where a thread can be in its call, and the swaps it has made by then: none as long as it is in
the function, and one when it returns, from a value that was not negative. -/
inductive InCall (dev : Dev) (kernelSize : ℤ) : LimiterPc → List PoolSwap → Prop where
  | recent : InCall dev kernelSize (.recent dev kernelSize) []
  | check : InCall dev kernelSize (.check dev kernelSize) []
  | cas {before : ℤ} (h0 : 0 ≤ before) : InCall dev kernelSize (.cas dev kernelSize before) []
  | returned {before : ℤ} (h0 : 0 ≤ before) (hlt : before < 2 ^ 63) :
      InCall dev kernelSize .idle [⟨dev, before, toInt64 (before - kernelSize)⟩]

/-- One step, of whichever thread, while the thread is in its call. -/
theorem InCall.step {u v : PoolState T} {t : T} {dev : Dev} {kernelSize : ℤ}
    {swaps : List PoolSwap} {a : PoolLabel T} (h : InCall dev kernelSize (u.limiter t) swaps)
    (hrange : u.InRange) (hin : u.limiter t ≠ .idle) (hst : u.step spec a = some v) :
    InCall dev kernelSize (v.limiter t) (swaps ++ a.swap t u v) := by
  have hgoto : ∀ (w : PoolState T) (pc : LimiterPc), (w.goto t pc).limiter t = pc :=
    fun w pc => Function.update_self _ _ _
  by_cases ht : a.thread = some t
  · cases poolMove_of_step hst with
    | unlimited hidle _ =>
      cases ht
      exact absurd hidle hin
    | enter hidle _ _ =>
      cases ht
      exact absurd hidle hin
    | sleep _ _ => simpa only [PoolLabel.swap, List.append_nil] using h
    | proceed hpc _ =>
      cases ht
      rw [hpc] at h
      cases h
      rw [hgoto]
      exact .check
    | drained hpc _ =>
      cases ht
      simpa [PoolLabel.swap, hpc] using h
    | load hpc h0 =>
      cases ht
      rw [hpc] at h
      cases h
      rw [hgoto]
      simpa [PoolLabel.swap, hpc] using InCall.cas h0
    | debit hpc heq =>
      cases ht
      rw [hpc] at h
      cases h with
      | cas h0 =>
        rw [hgoto]
        have hreturned : InCall dev kernelSize .idle
            [⟨dev, _, toInt64 (_ - kernelSize)⟩] := .returned h0 (heq ▸ (hrange.cur dev).2)
        simpa [PoolLabel.swap, hpc, heq, PoolState.goto, PoolState.setPool] using hreturned
    | retry hpc hne =>
      cases ht
      rw [hpc] at h
      cases h
      rw [hgoto]
      simpa [PoolLabel.swap, hpc, hne] using InCall.check
    | _ => cases ht
  · have hswap : a.swap t u v = [] := by
      cases a with
      | limiter t' => exact if_neg fun heq => ht (congrArg some heq)
      | _ => rfl
    rwa [hswap, List.append_nil, PoolState.step_limiter_of_ne hst ht]

/-- **A whole call.**  Whatever the others do, the thread is where its call can be, and the pools
hold values of their type. -/
theorem CallRun.inCall {t : T} {currentDevice : Option Dev} {grids blocks : ℤ}
    {s s' : PoolState T} {swaps : List PoolSwap}
    (hlimit : spec.cachedSmLimit (currentDevice.getD 0) ≠ 0)
    (hlimit' : spec.cachedSmLimit (currentDevice.getD 0) < 100) (hswitch : s.cachedUtilSwitch ≠ 0)
    (hrange : s.InRange)
    (hrun : CallRun spec t (.rateLimiter t currentDevice grids blocks) s swaps s') :
    s'.InRange ∧ InCall (currentDevice.getD 0) grids (s'.limiter t) swaps := by
  induction hrun with
  | enter hidle hst =>
    refine ⟨hrange.step hst, ?_⟩
    simp only [PoolState.step, hidle, if_neg (not_or.mpr ⟨not_le.mpr hlimit', hlimit⟩),
      if_neg hswitch, Option.some.injEq] at hst
    subst hst
    show InCall _ grids (Function.update s.limiter t _ t) []
    rw [Function.update_self]
    exact .recent
  | step _ hin hst ih => exact ⟨ih.1.step hst, ih.2.step ih.1 hin hst⟩

/-- Below `2 ^ 31` the number of blocks is what `rate_limiter` gets; a larger one is not, and taking
off what it gets is not taking off the number. -/
theorem toInt64_sub_grids_iff {config : LaunchConfig} {before : ℤ} (h0 : 0 ≤ before)
    (hlt : before < 2 ^ 63) (hblocks : config.blocks < 2 ^ 63) :
    toInt64 (before - asInt (config.gridDimX * config.gridDimY * config.gridDimZ))
        = before - config.blocks ↔ config.blocks < 2 ^ 31 := by
  have hmod : (config.gridDimX * config.gridDimY * config.gridDimZ).toNat
      = config.blocks % 2 ^ 32 := by
    simp only [UInt32.toNat_mul, LaunchConfig.blocks, Nat.mod_mul_mod]
  have hgrids : asInt (config.gridDimX * config.gridDimY * config.gridDimZ)
      = (config.blocks : ℤ).bmod (2 ^ 32) := by
    unfold asInt
    rw [hmod, Int.natCast_mod, Int.emod_bmod]
  rw [hgrids, toInt64, Int.bmod_def, Int.bmod_def]
  omega

/-- The grid of a launch the driver takes has less than `2 ^ 63` blocks. -/
theorem LaunchConfig.blocks_lt {config : LaunchConfig} (hx : config.gridDimX.toNat ≤ 2 ^ 31 - 1)
    (hy : config.gridDimY.toNat ≤ 65535) (hz : config.gridDimZ.toNat ≤ 65535) :
    config.blocks < 2 ^ 63 := by
  have hle : config.blocks ≤ (2 ^ 31 - 1) * 65535 * 65535 :=
    Nat.mul_le_mul (Nat.mul_le_mul hx hy) hz
  omega

/-- **When a launch takes its blocks off the pool.**  In every interleaving, a launch that returns
from `rate_limiter` has made one successful swap, on the pool of the current device and from a value
that was not negative.  It took off the number of blocks exactly when that number is below
`2 ^ 31`. -/
theorem launch_debit_iff {t : T} {currentDevice : Option Dev} {config : LaunchConfig}
    {call : PoolLabel T} {s s' : PoolState T} {swaps : List PoolSwap}
    (hx : 1 ≤ config.gridDimX.toNat ∧ config.gridDimX.toNat ≤ 2 ^ 31 - 1)
    (hy : 1 ≤ config.gridDimY.toNat ∧ config.gridDimY.toNat ≤ 65535)
    (hz : 1 ≤ config.gridDimZ.toNat ∧ config.gridDimZ.toNat ≤ 65535)
    (hcall : cuLaunchKernel 1 t currentDevice config.gridDimX config.gridDimY config.gridDimZ
        config.blockDimX config.blockDimY config.blockDimZ = some call ∨
      cuLaunchKernelEx 1 t currentDevice config = some call)
    (hlimit : 1 ≤ spec.cachedSmLimit (currentDevice.getD 0))
    (hlimit' : spec.cachedSmLimit (currentDevice.getD 0) ≤ 99)
    (hswitch : s.cachedUtilSwitch ≠ 0) (hrange : s.InRange)
    (hrun : CallRun spec t call s swaps s') (hreturned : s'.limiter t = .idle) :
    (∃ before, 0 ≤ before ∧
        swaps = [⟨currentDevice.getD 0, before, before - config.blocks⟩]) ↔
      config.blocks < 2 ^ 31 := by
  obtain rfl : call = .rateLimiter t currentDevice
      (asInt (config.gridDimX * config.gridDimY * config.gridDimZ))
      (asInt (config.blockDimX * config.blockDimY * config.blockDimZ)) := by
    rcases hcall with h | h
    · exact (Option.some.inj h).symm
    · exact (Option.some.inj h).symm
  obtain ⟨-, hin⟩ := hrun.inCall (by omega) (by omega) hswitch hrange
  rw [hreturned] at hin
  cases hin with
  | returned h0 hlt =>
    rename_i before
    rw [← toInt64_sub_grids_iff h0 hlt (LaunchConfig.blocks_lt hx.2 hy.2 hz.2)]
    constructor
    · rintro ⟨before', -, heq⟩
      simp only [List.cons.injEq, PoolSwap.mk.injEq, true_and, and_true] at heq
      rw [heq.2, heq.1]
    · intro h
      exact ⟨before, h0, by rw [h]⟩

/-- A thread that nobody disturbs returns after three more steps, when the pool is not negative. -/
theorem CallRun.undisturbed {t : T} {currentDevice : Option Dev} {grids blocks : ℤ}
    {s : PoolState T} (hidle : s.limiter t = .idle)
    (hlimit : spec.cachedSmLimit (currentDevice.getD 0) ≠ 0)
    (hlimit' : spec.cachedSmLimit (currentDevice.getD 0) < 100) (hswitch : s.cachedUtilSwitch ≠ 0)
    (h0 : 0 ≤ (s.pool (currentDevice.getD 0)).curCudaCores) :
    ∃ s', CallRun spec t (.rateLimiter t currentDevice grids blocks) s
        [⟨currentDevice.getD 0, (s.pool (currentDevice.getD 0)).curCudaCores,
          toInt64 ((s.pool (currentDevice.getD 0)).curCudaCores - grids)⟩] s' ∧
      s'.limiter t = .idle := by
  have hgoto : ∀ (w : PoolState T) (pc : LimiterPc), (w.goto t pc).limiter t = pc :=
    fun w pc => Function.update_self _ _ _
  generalize hdev : currentDevice.getD 0 = dev at *
  generalize hcur : (s.pool dev).curCudaCores = cur at *
  have henter : s.step spec (.rateLimiter t currentDevice grids blocks)
      = some (s.goto t (.recent dev grids)) := by
    simp only [PoolState.step, hidle, hdev, if_neg (not_or.mpr ⟨not_le.mpr hlimit', hlimit⟩),
      if_neg hswitch]
  have hrecent : (s.goto t (.recent dev grids)).step spec (.recentKernel t 0)
      = some ((s.goto t (.recent dev grids)).goto t (.check dev grids)) := by
    simp only [PoolState.step, hgoto, lt_irrefl, if_false]
  have hcheck : ((s.goto t (.recent dev grids)).goto t (.check dev grids)).step spec (.limiter t)
      = some (((s.goto t (.recent dev grids)).goto t (.check dev grids)).goto t
          (.cas dev grids cur)) := by
    simp only [PoolState.step, limiterStep, hgoto]
    rw [if_neg (by simpa [PoolState.goto, hcur] using h0)]
    simp only [PoolState.goto, hcur]
  generalize hs : ((s.goto t (.recent dev grids)).goto t (.check dev grids)).goto t
    (.cas dev grids cur) = u at hcheck
  have hpc : u.limiter t = .cas dev grids cur := by rw [← hs, hgoto]
  have hpool : (u.pool dev).curCudaCores = cur := by rw [← hs, ← hcur]; rfl
  have hswap : u.step spec (.limiter t) = some
      ((u.setPool dev { u.pool dev with curCudaCores := toInt64 (cur - grids) }).goto t .idle) := by
    simp only [PoolState.step, limiterStep, hpc, if_pos hpool]
  generalize hv : (u.setPool dev { u.pool dev with curCudaCores := toInt64 (cur - grids) }).goto t
    .idle = v at hswap
  have hvpc : v.limiter t = .idle := by rw [← hv, hgoto]
  have hvpool : (v.pool dev).curCudaCores = toInt64 (cur - grids) := by
    simp [← hv, PoolState.goto, PoolState.setPool]
  refine ⟨v, ?_, hvpc⟩
  have hrun := (((CallRun.enter hidle henter).step (by rw [hgoto]; simp) hrecent).step
    (by rw [hgoto]; simp) hcheck).step (by rw [hpc]; simp) hswap
  simpa [PoolLabel.swap, hgoto, hpc, hpool, hvpool] using hrun

end Runs

/-- One thread, idle, and a pool of `cur` on every device. -/
def idleState (cur : ℤ) : PoolState Unit where
  pool := fun _ => ⟨0, cur, 2 ^ 40⟩
  cachedUtilSwitch := 1
  limiter := fun _ => .idle
  watcher := .wait

theorem idleState_inRange {cur : ℤ} (h : InInt64 cur) : (idleState cur).InRange :=
  ⟨fun _ => h, fun _ => show InInt64 (2 ^ 40) from ⟨by decide, by decide⟩, trivial⟩

/-- A launch of 64 blocks takes 64 off the pool. -/
theorem launch_of_64_blocks :
    ∃ (call : PoolLabel Unit) (swaps : List PoolSwap) (s' : PoolState Unit),
      cuLaunchKernelEx 1 () none ⟨4, 4, 4, 32, 1, 1⟩ = some call ∧
      CallRun smallDevices () call (idleState 100) swaps s' ∧ s'.limiter () = .idle ∧
      ∃ before, 0 ≤ before ∧
        swaps = [⟨0, before, before - (LaunchConfig.mk 4 4 4 32 1 1).blocks⟩] := by
  obtain ⟨call, hcall⟩ : ∃ call : PoolLabel Unit,
      cuLaunchKernelEx 1 () none ⟨4, 4, 4, 32, 1, 1⟩ = some call := ⟨_, rfl⟩
  have hlabel : call = .rateLimiter () none (asInt (4 * 4 * 4)) (asInt (32 * 1 * 1)) :=
    (Option.some.inj hcall).symm
  obtain ⟨s', hrun, hret⟩ : ∃ s', CallRun smallDevices () call (idleState 100) _ s' ∧
      s'.limiter () = .idle := by
    rw [hlabel]
    exact CallRun.undisturbed rfl (by decide) (by decide) (by decide) (by decide)
  refine ⟨call, _, s', hcall, hrun, hret, ?_⟩
  exact (launch_debit_iff (by decide) (by decide) (by decide) (Or.inr hcall) (by decide) (by decide)
    (by decide) (idleState_inRange ⟨by decide, by decide⟩) hrun hret).mpr (by decide)

/-- A launch of `2 ^ 31` blocks, on an empty pool, puts `2 ^ 31` into it. -/
theorem launch_raises_pool :
    ∃ (call : PoolLabel Unit) (swaps : List PoolSwap) (s' : PoolState Unit),
      cuLaunchKernel 1 () none 1073741824 2 1 32 1 1 = some call ∧
      CallRun smallDevices () call (idleState 0) swaps s' ∧ s'.limiter () = .idle ∧
      swaps = [⟨0, 0, 2 ^ 31⟩] ∧
      ¬ ∃ before, 0 ≤ before ∧
        swaps = [⟨0, before, before - (LaunchConfig.mk 1073741824 2 1 32 1 1).blocks⟩] := by
  obtain ⟨call, hcall⟩ : ∃ call : PoolLabel Unit,
      cuLaunchKernel 1 () none 1073741824 2 1 32 1 1 = some call := ⟨_, rfl⟩
  have hlabel : call = .rateLimiter () none (asInt (1073741824 * 2 * 1)) (asInt (32 * 1 * 1)) :=
    (Option.some.inj hcall).symm
  obtain ⟨s', hrun, hret⟩ : ∃ s', CallRun smallDevices () call (idleState 0)
      [⟨0, 0, toInt64 (0 - asInt (1073741824 * 2 * 1))⟩] s' ∧ s'.limiter () = .idle := by
    rw [hlabel]
    exact CallRun.undisturbed rfl (by decide) (by decide) (by decide) (by decide)
  have hafter : toInt64 (0 - asInt (1073741824 * 2 * 1)) = 2 ^ 31 := by decide
  rw [hafter] at hrun
  refine ⟨call, _, s', hcall, hrun, hret, rfl, ?_⟩
  rintro ⟨before, -, heq⟩
  have hblocks : (LaunchConfig.mk 1073741824 2 1 32 1 1).blocks = 2 ^ 31 := by decide
  simp only [List.cons.injEq, PoolSwap.mk.injEq, true_and, and_true] at heq
  rw [hblocks] at heq
  omega

end HamiCore
