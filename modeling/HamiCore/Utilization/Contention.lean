import Mathlib.Algebra.Order.BigOperators.Group.Finset
import HamiCore.Library.Threads
import HamiCore.Utilization.Admitted

/-!
# How often a compare-and-swap of a pool fails

`rate_limiter` and `change_token` repeat their compare-and-swap until it goes through.  Neither can
starve the others: a swap fails only when the pool has been written since it was loaded.  Whoever is
about to swap with a value that the pool no longer has is *stale*.  A failing swap takes one away
from the stale ones, a successful one leaves at most the others stale, and nothing else makes any
(`stale_step`).  So the failures are paid for by the successes (`lost_swaps_covered`), and among any
number of attempts a fixed share goes through.
-/

namespace HamiCore

open Finset

/-- A compare-and-swap of the pool of `dev`, and whether it goes through. -/
structure SwapAttempt where
  dev : Dev
  success : Bool
  deriving DecidableEq

/-- A launching thread that is about to fail on device `d`. -/
def LimiterPc.stale (pool : Dev → DevicePool) (d : Dev) : LimiterPc → ℕ
  | .cas dev _ before => if dev = d ∧ (pool dev).curCudaCores ≠ before then 1 else 0
  | _ => 0

/-- The watcher, about to fail on device `d`. -/
def WatcherPc.stale (pool : Dev → DevicePool) (d : Dev) : WatcherPc → ℕ
  | .cas dev _ before _ => if dev = d ∧ (pool dev).curCudaCores ≠ before then 1 else 0
  | _ => 0

section Contention

variable {T : Type*} [DecidableEq T] {spec : PoolSpec}

/-- The compare-and-swap that a step is. -/
def PoolLabel.attempts (s : PoolState T) : PoolLabel T → List SwapAttempt
  | .limiter t =>
    match s.limiter t with
    | .cas dev _ before => [⟨dev, (s.pool dev).curCudaCores = before⟩]
    | _ => []
  | .watcher =>
    match s.watcher with
    | .cas dev _ before _ => [⟨dev, (s.pool dev).curCudaCores = before⟩]
    | _ => []
  | _ => []

theorem count_attempt (dev d : Dev) (b b' : Bool) :
    [SwapAttempt.mk dev b].count ⟨d, b'⟩ = if dev = d ∧ b = b' then 1 else 0 := by
  simp [List.count_singleton]

variable {s s' : PoolState T} {a : PoolLabel T} {pool pool' : Dev → DevicePool} {d : Dev}

theorem LimiterPc.stale_le (pc : LimiterPc) : pc.stale pool d ≤ 1 := by
  cases pc with
  | cas dev kernelSize before =>
    rw [stale]
    split_ifs <;> omega
  | _ => exact Nat.zero_le 1

theorem WatcherPc.stale_le (pc : WatcherPc) : pc.stale pool d ≤ 1 := by
  cases pc with
  | cas dev userutil before after =>
    rw [stale]
    split_ifs <;> omega
  | _ => exact Nat.zero_le 1

/-- Only the tokens of the device count. -/
theorem LimiterPc.stale_congr (h : (pool' d).curCudaCores = (pool d).curCudaCores)
    (pc : LimiterPc) : pc.stale pool' d = pc.stale pool d := by
  cases pc with
  | cas dev kernelSize before =>
    by_cases hd : dev = d
    · subst hd
      rw [stale, stale, h]
    · rw [stale, stale, if_neg (hd ·.1), if_neg (hd ·.1)]
  | _ => rfl

theorem WatcherPc.stale_congr (h : (pool' d).curCudaCores = (pool d).curCudaCores)
    (pc : WatcherPc) : pc.stale pool' d = pc.stale pool d := by
  cases pc with
  | cas dev userutil before after =>
    by_cases hd : dev = d
    · subst hd
      rw [stale, stale, h]
    · rw [stale, stale, if_neg (hd ·.1), if_neg (hd ·.1)]
  | _ => rfl

variable [Fintype T]

/-- **The potential**: how many are about to fail on device `d`. -/
def PoolState.stale (s : PoolState T) (d : Dev) : ℕ :=
  (∑ t, (s.limiter t).stale s.pool d) + s.watcher.stale s.pool d

namespace PoolState

omit [DecidableEq T] in
/-- The watcher moves, or nobody. -/
theorem stale_watcher (hpool : (s'.pool d).curCudaCores = (s.pool d).curCudaCores)
    (hlimiter : s'.limiter = s.limiter) :
    s'.stale d + s.watcher.stale s.pool d = s.stale d + s'.watcher.stale s.pool d := by
  have hsum : ∑ t, (s.limiter t).stale s'.pool d = ∑ t, (s.limiter t).stale s.pool d :=
    Finset.sum_congr rfl fun t _ => LimiterPc.stale_congr hpool _
  rw [stale, stale, hlimiter, hsum, WatcherPc.stale_congr hpool]
  omega

/-- A thread moves. -/
theorem stale_goto (t : T) (pc : LimiterPc) :
    (s.goto t pc).stale d + (s.limiter t).stale s.pool d = s.stale d + pc.stale s.pool d := by
  have hsum := sum_update_add (LimiterPc.stale s.pool d) s.limiter t pc
  show (∑ u, (Function.update s.limiter t pc u).stale s.pool d) + s.watcher.stale s.pool d
    + (s.limiter t).stale s.pool d = _
  rw [stale]
  omega

/-- A thread that is not stale where it goes. -/
theorem stale_goto_le (t : T) {pc : LimiterPc} (hpc : pc.stale s.pool d = 0) :
    (s.goto t pc).stale d ≤ s.stale d := by
  have hgoto := s.stale_goto t pc (d := d)
  omega

omit [DecidableEq T] in
theorem sum_stale_le (s : PoolState T) (d : Dev) :
    ∑ t, (s.limiter t).stale s.pool d ≤ Fintype.card T := by
  simpa using Finset.sum_le_card_nsmul univ (fun t => (s.limiter t).stale s.pool d) 1
    fun t _ => LimiterPc.stale_le _

omit [DecidableEq T] in
/-- All the threads and the watcher. -/
theorem stale_le (s : PoolState T) (d : Dev) : s.stale d ≤ Fintype.card T + 1 :=
  Nat.add_le_add (s.sum_stale_le d) (WatcherPc.stale_le _)

omit [DecidableEq T] in
/-- All but one. -/
theorem stale_le_of_idle {t : T} (h : s.limiter t = .idle) (d : Dev) :
    s.stale d ≤ Fintype.card T := by
  have hlt : ∑ u, (s.limiter u).stale s.pool d < ∑ _u : T, 1 := by
    refine Finset.sum_lt_sum (fun u _ => LimiterPc.stale_le _) ⟨t, mem_univ t, ?_⟩
    rw [h]
    exact Nat.zero_lt_one
  have hwatcher : s.watcher.stale s.pool d ≤ 1 := WatcherPc.stale_le _
  rw [sum_const, card_univ, Nat.nsmul_eq_mul, mul_one] at hlt
  rw [stale]
  omega

omit [DecidableEq T] in
/-- At the start nobody is. -/
theorem Start.stale_eq (h : s.Start) (d : Dev) : s.stale d = 0 := by
  rw [stale, h.watcher, Finset.sum_eq_zero fun t _ => by rw [h.limiter t]; rfl]
  rfl

/-- A thread writes the pool of `dev` and is done. -/
theorem stale_debit (p : DevicePool) (t : T) (dev d : Dev) :
    ((s.setPool dev p).goto t .idle).stale d
      ≤ s.stale d + Fintype.card T * if dev = d then 1 else 0 := by
  by_cases hd : dev = d
  · rw [if_pos hd, mul_one]
    exact (stale_le_of_idle (Function.update_self t _ _) d).trans (Nat.le_add_left _ _)
  · have hcur : ((s.setPool dev p).pool d).curCudaCores = (s.pool d).curCudaCores := by
      rw [setPool_curCudaCores, if_neg hd]
    have hset : (s.setPool dev p).stale d + s.watcher.stale s.pool d
        = s.stale d + s.watcher.stale s.pool d := stale_watcher hcur rfl
    have hgoto : ((s.setPool dev p).goto t .idle).stale d ≤ (s.setPool dev p).stale d :=
      stale_goto_le t rfl
    omega

omit [DecidableEq T] in
/-- The watcher writes the pool of `dev` and goes on. -/
theorem stale_refill (p : DevicePool) (n : ℕ) (userutil : Dev → ℤ) (dev d : Dev) :
    PoolState.stale { s.setPool dev p with watcher := .device n userutil } d
      ≤ s.stale d + Fintype.card T * if dev = d then 1 else 0 := by
  by_cases hd : dev = d
  · rw [if_pos hd, mul_one]
    exact ((s.setPool dev p).sum_stale_le d).trans (Nat.le_add_left _ _)
  · have hcur : ((s.setPool dev p).pool d).curCudaCores = (s.pool d).curCudaCores := by
      rw [setPool_curCudaCores, if_neg hd]
    have hset : PoolState.stale { s.setPool dev p with watcher := .device n userutil } d
        + s.watcher.stale s.pool d = s.stale d + 0 := stale_watcher hcur rfl
    omega

omit [DecidableEq T] in
/-- The watcher moves, and is not stale before or after. -/
theorem stale_frame (hpool : (s'.pool d).curCudaCores = (s.pool d).curCudaCores)
    (hlimiter : s'.limiter = s.limiter) (hold : s.watcher.stale s.pool d = 0)
    (hnew : s'.watcher.stale s.pool d = 0) : s'.stale d ≤ s.stale d := by
  have hset := stale_watcher hpool hlimiter
  omega

omit [DecidableEq T] in
/-- A step that attempts nothing. -/
theorem stale_step_of_no_attempt (hnone : a.attempts s = []) (hle : s'.stale d ≤ s.stale d) :
    (a.attempts s).count ⟨d, false⟩ + s'.stale d
      ≤ s.stale d + Fintype.card T * (a.attempts s).count ⟨d, true⟩ := by
  rw [hnone, List.count_nil, List.count_nil]
  omega

/-- **One step.**  A failing swap takes one away from the stale ones; a successful one leaves at
most the others. -/
theorem stale_step (hst : s.step spec a = some s') (d : Dev) :
    (a.attempts s).count ⟨d, false⟩ + s'.stale d
      ≤ s.stale d + Fintype.card T * (a.attempts s).count ⟨d, true⟩ := by
  cases poolMove_of_step hst with
  | unlimited _ _ | sleep _ _ | pidNotFound _ => exact stale_step_of_no_attempt rfl le_rfl
  | drained hpc _ =>
    exact stale_step_of_no_attempt (by simp only [PoolLabel.attempts, hpc]) le_rfl
  | @enter t _ _ _ _ _ _ | @proceed t _ _ _ _ _ =>
    exact stale_step_of_no_attempt rfl (s.stale_goto_le t rfl)
  | @load t _ _ hpc _ =>
    refine stale_step_of_no_attempt (by simp only [PoolLabel.attempts, hpc]) (s.stale_goto_le t ?_)
    simp only [LimiterPc.stale, ne_eq, not_true_eq_false, and_false, if_false]
  | @retry t dev kernelSize before hpc hne =>
    have hgoto := stale_goto (s := s) (d := d) t (.check dev kernelSize)
    simp only [hpc, LimiterPc.stale, ne_eq, hne, not_false_eq_true, and_true] at hgoto
    simp only [PoolLabel.attempts, hpc, hne, decide_false, count_attempt, and_true, reduceCtorEq,
      and_false, if_false]
    omega
  | @debit t dev kernelSize before hpc heq =>
    simp only [PoolLabel.attempts, hpc, heq, decide_true, count_attempt, reduceCtorEq, and_true,
      and_false, if_false]
    exact (Nat.zero_add _).trans_le (stale_debit _ t dev d)
  | @refill dev userutil before after hpc heq =>
    simp only [PoolLabel.attempts, hpc, heq, decide_true, count_attempt, reduceCtorEq, and_true,
      and_false, if_false]
    exact (Nat.zero_add _).trans_le (stale_refill _ _ userutil dev d)
  | @reload dev userutil before after hpc hne =>
    have hset : PoolState.stale { s with watcher := .load dev userutil } d
        + s.watcher.stale s.pool d = s.stale d + 0 := stale_watcher rfl rfl
    simp only [WatcherPc.stale, hpc, ne_eq, hne, not_false_eq_true, and_true] at hset
    simp only [PoolLabel.attempts, hpc, hne, decide_false, count_attempt, and_true, reduceCtorEq,
      and_false, if_false]
    omega
  | measure hpc =>
    exact stale_step_of_no_attempt rfl (stale_frame rfl rfl (by rw [hpc]; rfl) rfl)
  | skip hpc _ _ | endRound hpc _ =>
    exact stale_step_of_no_attempt (by simp only [PoolLabel.attempts, hpc])
      (stale_frame rfl rfl (by rw [hpc]; rfl) rfl)
  | adjust hpc _ _ _ | unmeasured hpc _ _ _ =>
    refine stale_step_of_no_attempt (by simp only [PoolLabel.attempts, hpc])
      (stale_frame (s.setPool_keeps ?_ d) rfl (by rw [hpc]; rfl) rfl)
    exact DevicePool.raiseCap_curCudaCores _
  | loadPool hpc =>
    refine stale_step_of_no_attempt (by simp only [PoolLabel.attempts, hpc])
      (stale_frame rfl rfl (by rw [hpc]; rfl) ?_)
    simp only [WatcherPc.stale, ne_eq, not_true_eq_false, and_false, if_false]

/-- **A whole run.** -/
theorem stale_run {ok : PoolState T × List SwapAttempt → PoolLabel T → Prop}
    {log : List SwapAttempt}
    (hrun : GuardedRun (logged (PoolState.step spec) PoolLabel.attempts) ok (s, []) (s', log))
    (d : Dev) : log.count ⟨d, false⟩ + s'.stale d
      ≤ s.stale d + Fintype.card T * log.count ⟨d, true⟩ := by
  refine hrun.invariant (P := fun x => x.2.count ⟨d, false⟩ + x.1.stale d
    ≤ s.stale d + Fintype.card T * x.2.count ⟨d, true⟩) (fun x a y h _ hst => ?_) (by simp)
  obtain ⟨hstep, hlog⟩ := step_of_logged hst
  have hone := stale_step hstep d
  rw [hlog, List.count_append, List.count_append, mul_add]
  omega

end PoolState

/-- **Failing swaps are paid for by successful ones.**  Any number of launching threads and the
watcher, any interleaving, from any state: on every device, the compare-and-swaps that fail are at
most the threads times those that go through, and one for each thread and the watcher that may have
loaded the pool before.  From the start of the watcher the latter do not count. -/
theorem lost_swaps_covered {ok : PoolState T × List SwapAttempt → PoolLabel T → Prop}
    {log : List SwapAttempt}
    (hrun : GuardedRun (logged (PoolState.step spec) PoolLabel.attempts) ok (s, []) (s', log)) :
    (∀ d, log.count ⟨d, false⟩
        ≤ Fintype.card T * log.count ⟨d, true⟩ + (Fintype.card T + 1)) ∧
      (s.Start → ∀ d, log.count ⟨d, false⟩ ≤ Fintype.card T * log.count ⟨d, true⟩) := by
  refine ⟨fun d => ?_, fun hstart d => ?_⟩
  · have hbound := PoolState.stale_run hrun d
    have hle := s.stale_le d
    omega
  · have hbound := PoolState.stale_run hrun d
    rw [hstart.stale_eq] at hbound
    omega

end Contention

/-- The watcher loads the pool, a launch of 5 blocks is let through, and the watcher has to load the
pool again. -/
def launchBetween : List (PoolLabel Unit) :=
  [.measure 1 fun _ => 30, .rateLimiter () (some 0) 5 32, .recentKernel () 2, .limiter (),
    .watcher, .watcher, .limiter (), .watcher, .watcher, .watcher]

theorem exec_launchBetween :
    (exec (logged (PoolState.step smallDevices) PoolLabel.attempts) (fun _ _ => true) launchBetween
      (PoolState.initial smallDevices 1, [])).map (fun x => (x.1.pool 0, x.2))
      = some (⟨2, -3, 4096⟩, [⟨0, true⟩, ⟨0, false⟩, ⟨0, true⟩]) := by
  decide +kernel

/-- One failure, and two successes by one thread and the watcher. -/
theorem lost_swaps_covered_launchBetween :
    ∃ log : List SwapAttempt, log = [⟨0, true⟩, ⟨0, false⟩, ⟨0, true⟩] ∧
      log.count ⟨0, false⟩ ≤ Fintype.card Unit * log.count ⟨0, true⟩ := by
  obtain ⟨⟨s, log⟩, hexec, hpair⟩ := Option.map_eq_some_iff.mp exec_launchBetween
  obtain ⟨-, rfl⟩ := Prod.mk.inj hpair
  have hrun : GuardedRun (logged (PoolState.step smallDevices) PoolLabel.attempts)
      (fun _ _ => True) (PoolState.initial smallDevices 1, [])
      (s, [⟨0, true⟩, ⟨0, false⟩, ⟨0, true⟩]) := GuardedRun.of_exec (fun _ _ _ _ => trivial) hexec
  exact ⟨_, rfl, (lost_swaps_covered hrun).2 smallDevices_start 0⟩

end HamiCore
