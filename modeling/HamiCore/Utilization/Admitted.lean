import Mathlib.Data.Int.ModEq
import HamiCore.Utilization.TokenPool

/-!
# How many blocks the limiter lets through

The bounds of `token_pool_invariant` hold in every state.  Here the launches and the refills of a
whole stretch of a run are added up.  The pool is changed by compare-and-swap only, so nothing is
lost between the launching threads and the watcher: the tokens of a device are those it had, and
what was put in, and without what was taken out, as far as a machine word can tell
(`tokens_conserved`).  A launch that finds a token in the pool takes as many as it has blocks, and
the pool may go below zero by that.  Therefore the blocks that are let through on a device are
covered by the tokens there have been, except for those of the last launch (`launches_covered`).
-/

namespace HamiCore

/-- A successful compare-and-swap of a pool. -/
inductive PoolEvent where
  /-- `rate_limiter` takes the blocks of a launch. -/
  | launched (dev : Dev) (blocks : ℤ)
  /-- `change_token` puts tokens in. -/
  | refilled (dev : Dev) (tokens : ℤ)
  deriving DecidableEq

namespace PoolEvent

/-- The blocks launched on device `d`. -/
def launchedOn (d : Dev) : PoolEvent → ℤ
  | .launched dev blocks => if dev = d then blocks else 0
  | .refilled _ _ => 0

/-- The tokens put into the pool of device `d`. -/
def refilledOn (d : Dev) : PoolEvent → ℤ
  | .launched _ _ => 0
  | .refilled dev tokens => if dev = d then tokens else 0

end PoolEvent

/-- All the blocks launched on device `d`. -/
def launchedSum (d : Dev) (log : List PoolEvent) : ℤ := (log.map (PoolEvent.launchedOn d)).sum

/-- All the tokens put into the pool of device `d`. -/
def refilledSum (d : Dev) (log : List PoolEvent) : ℤ := (log.map (PoolEvent.refilledOn d)).sum

@[simp] theorem launchedSum_concat (d : Dev) (log : List PoolEvent) (e : PoolEvent) :
    launchedSum d (log ++ [e]) = launchedSum d log + e.launchedOn d := by
  simp [launchedSum]

@[simp] theorem refilledSum_concat (d : Dev) (log : List PoolEvent) (e : PoolEvent) :
    refilledSum d (log ++ [e]) = refilledSum d log + e.refilledOn d := by
  simp [refilledSum]

section Admitted

variable {T : Type*} [DecidableEq T] {spec : PoolSpec}

/-- What a step does to the pools. -/
def PoolLabel.event (s : PoolState T) : PoolLabel T → List PoolEvent
  | .limiter t =>
    match s.limiter t with
    | .cas dev kernelSize before =>
      if (s.pool dev).curCudaCores = before then [.launched dev kernelSize] else []
    | _ => []
  | .watcher =>
    match s.watcher with
    | .cas dev _ before after =>
      if (s.pool dev).curCudaCores = before then [.refilled dev (after - before)] else []
    | _ => []
  | _ => []

variable {s s' : PoolState T} {a : PoolLabel T}

/-- Doubling the cap leaves the tokens alone. -/
theorem DevicePool.raiseCap_curCudaCores (p : DevicePool) :
    p.raiseCap.curCudaCores = p.curCudaCores := by
  unfold raiseCap
  split_ifs <;> rfl

/-- Adding a share that is not negative, up to the cap, takes nothing out. -/
theorem DevicePool.Ok.le_refilled {p : DevicePool} (h : p.Ok) : p.curCudaCores ≤ p.refilled := by
  obtain ⟨h₁, h₂, h₃, h₄, h₅⟩ := h
  unfold DevicePool.refilled
  rw [toInt64_of_bounds (by omega) (by omega)]
  split_ifs <;> omega

omit [DecidableEq T] in
/-- Writing the pool of one device. -/
theorem PoolState.setPool_curCudaCores (s : PoolState T) (dev d : Dev) (p : DevicePool) :
    ((s.setPool dev p).pool d).curCudaCores
      = if dev = d then p.curCudaCores else (s.pool d).curCudaCores := by
  show (Function.update s.pool dev p d).curCudaCores = _
  split_ifs with hd
  · rw [hd, Function.update_self]
  · rw [Function.update_of_ne (Ne.symm hd)]

omit [DecidableEq T] in
/-- Writing the pool of one device with the tokens it has. -/
theorem PoolState.setPool_keeps (s : PoolState T) {dev : Dev} {p : DevicePool}
    (hp : p.curCudaCores = (s.pool dev).curCudaCores) (d : Dev) :
    ((s.setPool dev p).pool d).curCudaCores = (s.pool d).curCudaCores := by
  rw [setPool_curCudaCores]
  split_ifs with hd
  · rw [hp, hd]
  · rfl

/-- **What a step does to the tokens**: a launch takes its blocks from a pool that is as it was when
the thread loaded it, the watcher stores its new value in one that is, and no other step touches
them. -/
theorem PoolState.step_tokens (hst : s.step spec a = some s') :
    (∃ t dev kernelSize before, s.limiter t = .cas dev kernelSize before ∧
      (s.pool dev).curCudaCores = before ∧ a.event s = [.launched dev kernelSize] ∧
      ∀ d, (s'.pool d).curCudaCores
        = if dev = d then toInt64 (before - kernelSize) else (s.pool d).curCudaCores) ∨
    (∃ dev userutil before after, s.watcher = .cas dev userutil before after ∧
      (s.pool dev).curCudaCores = before ∧ a.event s = [.refilled dev (after - before)] ∧
      ∀ d, (s'.pool d).curCudaCores = if dev = d then after else (s.pool d).curCudaCores) ∨
    a.event s = [] ∧ ∀ d, (s'.pool d).curCudaCores = (s.pool d).curCudaCores := by
  cases poolMove_of_step hst with
  | debit hpc heq =>
    exact Or.inl ⟨_, _, _, _, hpc, heq, by simp only [PoolLabel.event, hpc, if_pos heq],
      fun d => s.setPool_curCudaCores _ d _⟩
  | refill hpc heq =>
    exact Or.inr (Or.inl ⟨_, _, _, _, hpc, heq, by simp only [PoolLabel.event, hpc, if_pos heq],
      fun d => s.setPool_curCudaCores _ d _⟩)
  | retry hpc hne | reload hpc hne =>
    exact Or.inr (Or.inr ⟨by simp only [PoolLabel.event, hpc, if_neg hne], fun _ => rfl⟩)
  | adjust hpc _ _ _ | unmeasured hpc _ _ _ =>
    exact Or.inr (Or.inr ⟨by simp only [PoolLabel.event, hpc],
      s.setPool_keeps (DevicePool.raiseCap_curCudaCores _)⟩)
  | drained hpc _ | load hpc _ | skip hpc _ _ | endRound hpc _ | loadPool hpc =>
    exact Or.inr (Or.inr ⟨by simp only [PoolLabel.event, hpc], fun _ => rfl⟩)
  | unlimited _ _ | enter _ _ _ | sleep _ _ | proceed _ _ | pidNotFound _ | measure _ =>
    exact Or.inr (Or.inr ⟨rfl, fun _ => rfl⟩)

/-- What the watcher is about to store is no less than what it has loaded. -/
def PoolState.Adding (s : PoolState T) : Prop :=
  ∀ dev userutil before after, s.watcher = .cas dev userutil before after → before ≤ after

theorem PoolState.Adding.step (hinv : s.Inv) (h : s.Adding) (hst : s.step spec a = some s') :
    s'.Adding := by
  cases poolMove_of_step hst with
  | @loadPool dev userutil hpc =>
    rintro dev' userutil' before after ⟨⟩
    exact (hinv.pool dev).le_refilled
  | measure _ | skip _ _ _ | adjust _ _ _ _ | unmeasured _ _ _ _ | endRound _ _ | refill _ _
  | reload _ _ => exact nofun
  | _ => exact h

/-- The tokens that the log accounts for, from those there were at its beginning. -/
def tokensAfter (start : Dev → DevicePool) (log : List PoolEvent) (d : Dev) : ℤ :=
  (start d).curCudaCores + refilledSum d log - launchedSum d log

theorem toInt64_modEq (x : ℤ) : toInt64 x ≡ x [ZMOD 2 ^ 64] := Int.bmod_emod

/-- **Modulo the machine word** the log accounts for the pools, in every run. -/
theorem tokens_modEq {ok : PoolState T × List PoolEvent → PoolLabel T → Prop}
    {log : List PoolEvent} (hrun : GuardedRun (logged (PoolState.step spec) PoolLabel.event) ok
      (s, []) (s', log)) (d : Dev) :
    (s'.pool d).curCudaCores ≡ tokensAfter s.pool log d [ZMOD 2 ^ 64] := by
  refine hrun.invariant (P := fun x => (x.1.pool d).curCudaCores ≡ tokensAfter s.pool x.2 d
    [ZMOD 2 ^ 64]) (fun x a y h _ hst => ?_) ?_
  · obtain ⟨hstep, hlog⟩ := step_of_logged hst
    rw [hlog, tokensAfter]
    rcases PoolState.step_tokens hstep with
      ⟨t, dev, kernelSize, before, -, heq, hevent, htokens⟩ |
      ⟨dev, userutil, before, after, -, heq, hevent, htokens⟩ | ⟨hevent, htokens⟩
    · rw [hevent, htokens, launchedSum_concat, refilledSum_concat, PoolEvent.refilledOn,
        PoolEvent.launchedOn, add_zero, ← sub_sub]
      split_ifs with hd
      · subst hd
        rw [heq] at h
        exact (toInt64_modEq _).trans (h.sub_right kernelSize)
      · rw [sub_zero]
        exact h
    · rw [hevent, htokens, launchedSum_concat, refilledSum_concat, PoolEvent.refilledOn,
        PoolEvent.launchedOn, add_zero, ← add_assoc, add_sub_right_comm]
      split_ifs with hd
      · subst hd
        rw [heq] at h
        have hadd := h.add_right (after - before)
        rw [add_sub_cancel] at hadd
        exact hadd
      · rw [add_zero]
        exact h
    · rw [hevent, htokens, List.append_nil]
      exact h
  · simp [tokensAfter, refilledSum, launchedSum]

/-- **The invariant.**  The log accounts for the pools, and it did so at each launch. -/
structure Accounted (start : Dev → DevicePool) (s : PoolState T) (log : List PoolEvent) : Prop where
  inv : s.Inv
  adding : s.Adding
  tokens : ∀ d, (s.pool d).curCudaCores = tokensAfter start log d
  /-- A refill takes nothing out. -/
  refilled_nonneg : ∀ dev tokens, .refilled dev tokens ∈ log → 0 ≤ tokens
  covered : ∀ earlier dev blocks later, log = earlier ++ .launched dev blocks :: later →
    0 ≤ tokensAfter start earlier dev

variable {start : Dev → DevicePool} {log : List PoolEvent}

omit [DecidableEq T] in
/-- One more event. -/
theorem Accounted.concat (h : Accounted start s log) {e : PoolEvent}
    (hrefill : ∀ dev tokens, e = .refilled dev tokens → 0 ≤ tokens)
    (hcovered : ∀ dev blocks, e = .launched dev blocks → 0 ≤ (s.pool dev).curCudaCores)
    (hinv : s'.Inv) (hadding : s'.Adding)
    (htokens : ∀ d, (s'.pool d).curCudaCores
      = (s.pool d).curCudaCores + e.refilledOn d - e.launchedOn d) :
    Accounted start s' (log ++ [e]) where
  inv := hinv
  adding := hadding
  tokens d := by
    have hold := h.tokens d
    rw [tokensAfter] at hold ⊢
    rw [htokens, launchedSum_concat, refilledSum_concat]
    omega
  refilled_nonneg dev tokens hmem := by
    rcases List.mem_append.mp hmem with hold | hnew
    · exact h.refilled_nonneg dev tokens hold
    · exact hrefill dev tokens (List.mem_singleton.mp hnew).symm
  covered earlier dev blocks later hlog := by
    have hall : AtEach (fun earlier e => ∀ dev blocks, e = .launched dev blocks →
        0 ≤ tokensAfter start earlier dev) log := by
      rintro earlier _ later hlog dev blocks rfl
      exact h.covered earlier dev blocks later hlog
    refine hall.concat (fun dev blocks he => ?_) earlier _ later hlog dev blocks rfl
    rw [← h.tokens]
    exact hcovered dev blocks he

/-- **One step.** -/
theorem Accounted.step (hspec : spec.Regular) (h : Accounted start s log)
    (hok : a.NoOverflow spec s) (hst : s.step spec a = some s') :
    Accounted start s' (log ++ a.event s) := by
  have hinv := h.inv.step hspec hok hst
  have hadding := h.adding.step h.inv hst
  rcases PoolState.step_tokens hst with ⟨t, dev, kernelSize, before, hpc, heq, hevent, htokens⟩ |
    ⟨dev, userutil, before, after, hpc, heq, hevent, htokens⟩ | ⟨hevent, htokens⟩
  · have hcas := h.inv.limiter t
    rw [hpc] at hcas
    obtain ⟨hsize, h0, hle⟩ := hcas
    have hlt := (h.inv.pool dev).total_lt
    rw [toInt64_of_bounds (by omega) (by omega)] at htokens
    rw [hevent]
    refine h.concat nofun ?_ hinv hadding fun d => ?_
    · rintro dev' blocks ⟨⟩
      rw [heq]
      exact h0
    · rw [htokens, PoolEvent.refilledOn, PoolEvent.launchedOn]
      split_ifs with hd
      · rw [← hd, heq, add_zero]
      · rw [add_zero, sub_zero]
  · rw [hevent]
    refine h.concat ?_ nofun hinv hadding fun d => ?_
    · rintro dev' tokens ⟨⟩
      exact sub_nonneg.mpr (h.adding _ _ _ _ hpc)
    · rw [htokens, PoolEvent.refilledOn, PoolEvent.launchedOn]
      split_ifs with hd
      · rw [← hd, heq]
        omega
      · rw [add_zero, sub_zero]
  · rw [hevent, List.append_nil]
    exact ⟨hinv, hadding, fun d => (htokens d).trans (h.tokens d), h.refilled_nonneg, h.covered⟩

/-- A whole stretch of a run. -/
theorem Accounted.of_run (hspec : spec.Regular) {s₀ : PoolState T} (hstart : s₀.Start)
    (hreach : GuardedRun (PoolState.step spec) (fun s a => a.NoOverflow spec s) s₀ s)
    (hrun : GuardedRun (logged (PoolState.step spec) PoolLabel.event)
      (fun x a => a.NoOverflow spec x.1) (s, []) (s', log)) : Accounted s.pool s' log := by
  have hfirst : s.Inv ∧ s.Adding := hreach.invariant (P := fun s => s.Inv ∧ s.Adding)
    (fun _ _ _ h hok hst => ⟨h.1.step hspec hok hst, h.2.step h.1 hst⟩)
    ⟨hstart.inv, fun dev userutil before after h => by
      rw [hstart.watcher] at h
      cases h⟩
  refine hrun.invariant (P := fun x => Accounted s.pool x.1 x.2) (fun x a y h hok hst => ?_)
    ⟨hfirst.1, hfirst.2, fun d => by simp [tokensAfter, refilledSum, launchedSum], nofun, ?_⟩
  · obtain ⟨hstep, hlog⟩ := step_of_logged hst
    rw [hlog]
    exact h.step hspec hok hstep
  · intro earlier dev blocks later hnil
    exact absurd hnil.symm (by simp)

/-- **No token is lost or made up.**  Along any stretch of any run, whoever wins each
compare-and-swap, the tokens of a device change by the sum of its refills less the sum of its
launches, modulo the machine word.  Where kernel sizes are not negative and nothing comes near the
end of the word, from the start on, they change by exactly that, and no refill takes anything
out. -/
theorem tokens_conserved
    (hrun : GuardedRun (logged (PoolState.step spec) PoolLabel.event) (fun _ _ => True) (s, [])
      (s', log)) :
    (∀ d, (s'.pool d).curCudaCores
      ≡ (s.pool d).curCudaCores + refilledSum d log - launchedSum d log [ZMOD 2 ^ 64]) ∧
    (spec.Regular → ∀ s₀ : PoolState T, s₀.Start →
      GuardedRun (PoolState.step spec) (fun s a => a.NoOverflow spec s) s₀ s →
      GuardedRun (logged (PoolState.step spec) PoolLabel.event)
        (fun x a => a.NoOverflow spec x.1) (s, []) (s', log) →
      (∀ d, (s'.pool d).curCudaCores
        = (s.pool d).curCudaCores + refilledSum d log - launchedSum d log) ∧
        ∀ dev tokens, .refilled dev tokens ∈ log → 0 ≤ tokens) := by
  refine ⟨tokens_modEq hrun, fun hspec s₀ hstart hreach hsmall => ?_⟩
  have h := Accounted.of_run hspec hstart hreach hsmall
  exact ⟨h.tokens, h.refilled_nonneg⟩

/-- **What is let through is covered.**  Kernel sizes are not negative, and nothing comes near the
end of the machine word.  When a launch is let through on a device, the launches before it on that
device have not taken more tokens than there were and have been put in since.  So between two
refills the launches of a device take its cap at most, apart from the last one. -/
theorem launches_covered (hspec : spec.Regular) {s₀ : PoolState T} (hstart : s₀.Start)
    (hreach : GuardedRun (PoolState.step spec) (fun s a => a.NoOverflow spec s) s₀ s)
    {earlier later : List PoolEvent} {dev : Dev} {blocks : ℤ}
    (hrun : GuardedRun (logged (PoolState.step spec) PoolLabel.event)
      (fun x a => a.NoOverflow spec x.1) (s, []) (s', earlier ++ .launched dev blocks :: later)) :
    launchedSum dev earlier ≤ (s.pool dev).curCudaCores + refilledSum dev earlier ∧
      ((∀ e ∈ earlier, e.refilledOn dev = 0) →
        launchedSum dev earlier ≤ (s.pool dev).totalCudaCores) := by
  have h := (Accounted.of_run hspec hstart hreach hrun).covered earlier dev blocks later rfl
  rw [tokensAfter] at h
  have hcovered : launchedSum dev earlier
      ≤ (s.pool dev).curCudaCores + refilledSum dev earlier := by omega
  refine ⟨hcovered, fun hnone => ?_⟩
  have hinv : s.Inv := hreach.invariant (P := PoolState.Inv)
    (fun _ _ _ h hok hst => h.step hspec hok hst) hstart.inv
  have hcap := (hinv.pool dev).cur_le
  have hzero : refilledSum dev earlier = 0 := by
    apply List.sum_eq_zero
    intro x hx
    obtain ⟨e, he, rfl⟩ := List.mem_map.mp hx
    exact hnone e he
  omega

end Admitted

/-- The trace `refillAndLaunch`, with its log. -/
theorem exec_refillAndLaunch_logged :
    (exec (logged (PoolState.step smallDevices) PoolLabel.event)
      (fun x a => a.noOverflow smallDevices x.1) refillAndLaunch
      (PoolState.initial smallDevices 1, [])).map (fun x => ((x.1.pool 0).curCudaCores, x.2))
      = some (-3, [.refilled 0 2, .launched 0 5]) := by
  decide +kernel

/-- Two tokens are put in and five taken out. -/
theorem tokens_conserved_refillAndLaunch :
    ∃ (s : PoolState Unit) (log : List PoolEvent), log = [.refilled 0 2, .launched 0 5] ∧
      (s.pool 0).curCudaCores ≡ 0 + refilledSum 0 log - launchedSum 0 log [ZMOD 2 ^ 64] ∧
      (s.pool 0).curCudaCores = 0 + refilledSum 0 log - launchedSum 0 log ∧
      ∀ dev tokens, .refilled dev tokens ∈ log → 0 ≤ tokens := by
  obtain ⟨⟨s, log⟩, hexec, hpair⟩ := Option.map_eq_some_iff.mp exec_refillAndLaunch_logged
  obtain ⟨-, rfl⟩ := Prod.mk.inj hpair
  have hrun : GuardedRun (logged (PoolState.step smallDevices) PoolLabel.event)
      (fun x a => a.NoOverflow smallDevices x.1) (PoolState.initial smallDevices 1, [])
      (s, [.refilled 0 2, .launched 0 5]) :=
    GuardedRun.of_exec (fun _ _ _ => PoolLabel.noOverflow_of_eval) hexec
  obtain ⟨hmod, hexact⟩ := tokens_conserved (hrun.mono fun _ _ _ => trivial)
  obtain ⟨htokens, hrefill⟩ :=
    hexact smallDevices_regular _ smallDevices_start (GuardedRun.refl _) hrun
  exact ⟨s, _, rfl, hmod 0, htokens 0, hrefill⟩

/-- The launch of five blocks is let through behind a refill of two tokens. -/
theorem launches_covered_refillAndLaunch :
    launchedSum 0 [.refilled 0 2] ≤ 0 + refilledSum 0 [.refilled 0 2] := by
  obtain ⟨⟨s, log⟩, hexec, hpair⟩ := Option.map_eq_some_iff.mp exec_refillAndLaunch_logged
  obtain ⟨-, rfl⟩ := Prod.mk.inj hpair
  have hrun : GuardedRun (logged (PoolState.step smallDevices) PoolLabel.event)
      (fun x a => a.NoOverflow smallDevices x.1) (PoolState.initial smallDevices 1, [])
      (s, [.refilled 0 2] ++ .launched 0 5 :: []) :=
    GuardedRun.of_exec (fun _ _ _ => PoolLabel.noOverflow_of_eval) hexec
  exact (launches_covered smallDevices_regular smallDevices_start (GuardedRun.refl _) hrun).1

end HamiCore
