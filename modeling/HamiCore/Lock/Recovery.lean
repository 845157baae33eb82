import HamiCore.Lock.Exclusion

/-!
# Recovering the lock from a killed owner

A waiter recovers the lock by reading in `owner_pid` who died with it.  The semaphore and
`owner_pid` are written in separate steps, so there are three windows in which the token is with a
thread that `owner_pid` does not name: after the wait and before the store, after the reset and
before the post, and after a recovery's compare-exchange and before its post.  A kill outside these
windows leaves the lock recoverable, a kill inside loses the token for good.

`RecoverInv` is an invariant of its own: unlike mutual exclusion, recoverability does not need a
sound `proc_alive`.
-/

namespace HamiCore

namespace LockState

variable {T : Type*} [DecidableEq T] {pidOf : T → Pid} {s s' : LockState T}

/-- A lock that is taken is with a live thread, which is inside or about to post for a dead owner,
or `owner_pid` names a dead process. -/
def Recoverable (pidOf : T → Pid) (s : LockState T) : Prop :=
  s.sem = 0 →
    (∃ t, s.InSection pidOf t ∨ (s.alive (pidOf t) = true ∧ ∃ trials, s.pc t = .recovered trials)) ∨
      (s.ownerPid ≠ 0 ∧ s.alive s.ownerPid = false)

/-- The invariant behind recoverability. -/
structure RecoverInv (pidOf : T → Pid) (s : LockState T) : Prop where
  /-- The token is in the semaphore, with a live thread, or written down. -/
  accounted : 0 < s.sem ∨ (∃ t, s.alive (pidOf t) = true ∧ (s.pc t).HasToken) ∨ s.ownerPid ≠ 0
  /-- A process in `owner_pid` has a thread that got as far as the section. -/
  owning_of_owner : s.ownerPid ≠ 0 → ∃ t, pidOf t = s.ownerPid ∧ s.pc t = .owning
  /-- `exit_handler` has released nothing. -/
  no_exitPost : ∀ t, s.pc t ≠ .exitPost

omit [DecidableEq T] in
theorem Initial.recoverInv (h : s.Initial) : s.RecoverInv pidOf := by
  obtain ⟨hsem, howner, hpc⟩ := h
  refine ⟨Or.inl (by omega), fun hne => absurd howner hne, fun t => ?_⟩
  rw [hpc t]
  simp

omit [DecidableEq T] in
theorem RecoverInv.recoverable (h : s.RecoverInv pidOf) : s.Recoverable pidOf := by
  intro hsem
  rcases h.accounted with hpos | ⟨t, hlive, htok⟩ | hne
  · omega
  · -- a live thread with the token
    refine Or.inl ⟨t, ?_⟩
    cases hpc : s.pc t with
    | acquired => exact Or.inl ⟨hlive, Or.inl hpc⟩
    | released => exact Or.inl ⟨hlive, Or.inr (Or.inr hpc)⟩
    | recovered trials => exact Or.inr ⟨hlive, trials, rfl⟩
    | exitPost => exact absurd hpc (h.no_exitPost t)
    | _ =>
      rw [hpc] at htok
      exact htok.elim
  · -- an owner, alive or dead
    obtain ⟨t, ht, hown⟩ := h.owning_of_owner hne
    cases hlive : s.alive s.ownerPid with
    | true => exact Or.inl ⟨t, Or.inl ⟨by rw [ht, hlive], Or.inr (Or.inl hown)⟩⟩
    | false => exact Or.inr ⟨hne, rfl⟩

theorem no_exitPost_goto {t : T} {pc : LockPc} (h : ∀ t, s.pc t ≠ .exitPost)
    (hpc : pc ≠ .exitPost) (t' : T) : (s.goto t pc).pc t' ≠ .exitPost := by
  by_cases ht : t' = t
  · rw [ht, goto_pc_self]
    exact hpc
  · rw [goto_pc_of_ne s ht]
    exact h t'

/-- The thread behind `owner_pid` stays where it is while another thread moves. -/
theorem owning_goto {t : T} {pc : LockPc} (h : s.ownerPid ≠ 0 → ∃ t, pidOf t = s.ownerPid ∧
    s.pc t = .owning) (hpc : s.pc t ≠ .owning) (hne : (s.goto t pc).ownerPid ≠ 0) :
    ∃ t', pidOf t' = (s.goto t pc).ownerPid ∧ (s.goto t pc).pc t' = .owning := by
  obtain ⟨o, ho, hown⟩ := h hne
  have hot : o ≠ t := by
    rintro rfl
    exact hpc hown
  exact ⟨o, ho, by rwa [goto_pc_of_ne s hot]⟩

/-- Every step of `lock_shrreg` and `unlock_shrreg`, and every kill outside the windows, keeps the
invariant. -/
theorem RecoverInv.move (h0 : ∀ t, pidOf t ≠ 0) (h : s.RecoverInv pidOf) {a : LockLabel T}
    (hlock : a.LockOnly s) (hkill : a.KillSafe pidOf s) (hm : LockMove pidOf s a s') :
    s'.RecoverInv pidOf := by
  cases hm with
  | @quiet t pc _ hq hq' _ =>
    have hpost : pc ≠ .exitPost := by
      rintro rfl
      exact hq'
    refine ⟨?_, owning_goto h.owning_of_owner hq.ne_owning, no_exitPost_goto h.no_exitPost hpost⟩
    rcases h.accounted with hpos | ⟨u, hlive, htok⟩ | hne
    · exact Or.inl hpos
    · have hut : u ≠ t := by
        rintro rfl
        exact hq.not_hasToken htok
      exact Or.inr (Or.inl ⟨u, hlive, by rwa [goto_pc_of_ne s hut]⟩)
    · exact Or.inr (Or.inr hne)
  | @take t trials sem hlive hpc hsem =>
    refine ⟨Or.inr (Or.inl ⟨t, hlive, by rw [goto_pc_self]; trivial⟩),
      owning_goto h.owning_of_owner ?_, no_exitPost_goto h.no_exitPost (by simp)⟩
    rw [hpc]
    simp
  | @store t hlive hpc =>
    exact ⟨Or.inr (Or.inr (h0 t)), fun _ => ⟨t, rfl, goto_pc_self _ _ _⟩,
      no_exitPost_goto h.no_exitPost (by simp)⟩
  | @reset t _ hlive hpc =>
    exact ⟨Or.inr (Or.inl ⟨t, hlive, by rw [goto_pc_self]; trivial⟩), fun hne => absurd rfl hne,
      no_exitPost_goto h.no_exitPost (by simp)⟩
  | @give t pc hlive htok hq _ =>
    have hpost : pc ≠ .exitPost := by
      rintro rfl
      exact hq
    exact ⟨Or.inl (Nat.succ_pos _), owning_goto h.owning_of_owner htok.ne_owning,
      no_exitPost_goto h.no_exitPost hpost⟩
  | @steal t trials _ hlive hpc =>
    exact ⟨Or.inr (Or.inl ⟨t, hlive, by rw [goto_pc_self]; trivial⟩), fun hne => absurd rfl hne,
      no_exitPost_goto h.no_exitPost (by simp)⟩
  | @exitSwap t ha _ hpc _ =>
    subst ha
    have hnot : ¬ (s.pc t).Exiting := hlock
    rw [hpc] at hnot
    exact absurd trivial hnot
  | @kill p ha _ =>
    subst ha
    refine ⟨?_, h.owning_of_owner, h.no_exitPost⟩
    rcases h.accounted with hpos | ⟨u, hlive, htok⟩ | hne
    · exact Or.inl hpos
    · -- the kill is outside the windows, so `u` survives it
      have hup : pidOf u ≠ p := fun hup => hkill u hup htok
      exact Or.inr (Or.inl ⟨u, by rw [← hlive]; exact Function.update_of_ne hup _ _, htok⟩)
    · exact Or.inr (Or.inr hne)

/-- The invariant holds along every run of `lock_shrreg`, `unlock_shrreg` and kills outside the
windows. -/
theorem RecoverInv.run (h0 : ∀ t, pidOf t ≠ 0) (h : s.RecoverInv pidOf)
    (hrun : GuardedRun (step pidOf) (fun s a => a.LockOnly s ∧ a.KillSafe pidOf s) s s') :
    s'.RecoverInv pidOf :=
  hrun.invariant (fun _ _ _ hinv hok hst => hinv.move h0 hok.1 hok.2 (lockMove_of_step hst)) h

/-- The recovery branch: a waiter that times out while `owner_pid` names a dead process puts the
token back, given the right answer of `proc_alive`. -/
theorem exists_recovery (hne : s.ownerPid ≠ 0) (hdead : s.alive s.ownerPid = false) {u : T}
    {trials : ℕ} (hlive : s.alive (pidOf u) = true) (hu : s.pc u = .waiting trials) :
    ∃ s'', GuardedRun (step pidOf) (fun s a => a.LockOnly s ∧ a.ProbeSound s ∧ a.KillSafe pidOf s)
      s s'' ∧ s''.sem = s.sem + 1 ∧ s''.pc u = .waiting (trials + 1) := by
  let s₁ : LockState T := s.goto u (.timedOut (trials + 1))
  let s₂ : LockState T := s₁.goto u (.probing (trials + 1) s.ownerPid)
  let s₃ : LockState T := s₂.goto u (.recovering (trials + 1) s.ownerPid)
  let s₄ : LockState T := { s₃ with ownerPid := 0 }.goto u (.recovered (trials + 1))
  let s₅ : LockState T := { s₄ with sem := s₄.sem + 1 }.goto u (.waiting (trials + 1))
  have hpc₁ : s₁.pc u = .timedOut (trials + 1) := goto_pc_self _ _ _
  have hpc₂ : s₂.pc u = .probing (trials + 1) s.ownerPid := goto_pc_self _ _ _
  have hpc₃ : s₃.pc u = .recovering (trials + 1) s.ownerPid := goto_pc_self _ _ _
  have hpc₄ : s₄.pc u = .recovered (trials + 1) := goto_pc_self _ _ _
  have h₁ : s.step pidOf (.wait u .timedOut) = some s₁ := by
    simp only [step, if_pos hlive, wait, hu]
    rfl
  have h₂ : s₁.step pidOf (.access u) = some s₂ := by
    simp only [step, access, hpc₁]
    rw [if_pos (by exact hlive), if_pos (by exact hne)]
    rfl
  have h₃ : s₂.step pidOf (.probe u .nonalive) = some s₃ := by
    simp only [step, probe, hpc₂]
    exact if_pos hlive
  have h₄ : s₃.step pidOf (.access u) = some s₄ := by
    simp only [step, access, hpc₃]
    rw [if_pos (by exact hlive), if_pos (by rfl)]
  have h₅ : s₄.step pidOf (.access u) = some s₅ := by
    simp only [step, access, hpc₄]
    exact if_pos hlive
  refine ⟨s₅, (((((GuardedRun.refl s).tail ?_ h₁).tail ?_ h₂).tail ?_ h₃).tail ?_ h₄).tail ?_ h₅,
    rfl, goto_pc_self _ _ _⟩
  · exact ⟨trivial, trivial, trivial⟩
  · exact ⟨by rw [LockLabel.LockOnly, hpc₁]; exact id, trivial, trivial⟩
  · refine ⟨trivial, fun owner howner hlive' => ?_, trivial⟩
    rw [hpc₂] at howner
    obtain rfl : s.ownerPid = owner := Option.some.inj howner
    exact absurd (hdead.symm.trans hlive') (by simp)
  · exact ⟨by rw [LockLabel.LockOnly, hpc₃]; exact id, trivial, trivial⟩
  · exact ⟨by rw [LockLabel.LockOnly, hpc₄]; exact id, trivial, trivial⟩

omit [DecidableEq T] in
/-- While the token is with a thread outside the section, that thread's death loses it. -/
theorem TokenInv.not_recoverable_kill (h : s.TokenInv pidOf) {t : T} (htok : (s.pc t).HasToken) :
    ¬ ({ s with alive := Function.update s.alive (pidOf t) false } : LockState T).Recoverable
      pidOf := by
  intro hrec
  have hhold : s.Holds pidOf t := Or.inl htok
  have hsurvive : ∀ u, Function.update s.alive (pidOf t) false (pidOf u) = true →
      ¬ s.Holds pidOf u := by
    intro u hlive hu
    rw [h.unique u t hu hhold, Function.update_self] at hlive
    exact absurd hlive (by simp)
  rcases hrec (h.sem_zero hhold) with ⟨u, hin | ⟨hlive, trials, hpc⟩⟩ | ⟨hne, -⟩
  · exact hsurvive u hin.1 (h.holds_of_inSection ⟨alive_of_kill hin.1, hin.2⟩)
  · refine hsurvive u hlive (Or.inl ?_)
    show (s.pc u).HasToken
    rw [show s.pc u = .recovered trials from hpc]
    trivial
  · exact hne (h.owner_eq_zero htok)

omit [DecidableEq T] in
/-- Runs of `lock_shrreg` and `unlock_shrreg` alone do not reach `exit_handler`'s
compare-exchange. -/
theorem exitSafe_of_lockOnly {a : LockLabel T} (h : a.LockOnly s) : a.ExitSafe pidOf s := by
  cases a with
  | access t =>
    intro hpc
    have hnot : ¬ (s.pc t).Exiting := h
    rw [hpc] at hnot
    exact absurd trivial hnot
  | _ => trivial

end LockState

section Recovery

variable {T : Type*} [DecidableEq T] {pidOf : T → Pid} {s s' : LockState T}

/-- **A held lock is recoverable as long as no kill hits a window.**  In every run of `lock_shrreg`,
`unlock_shrreg` and kills in which no process is killed while a thread of it has the token and
`owner_pid` does not name it, a taken lock is with a live thread or `owner_pid` names a dead
process; and in the second case any live waiter can put the token back. -/
theorem held_lock_recoverable (h0 : ∀ t, pidOf t ≠ 0) (hinit : s.Initial)
    (hrun : GuardedRun (LockState.step pidOf) (fun s a => a.LockOnly s ∧ a.KillSafe pidOf s) s s') :
    s'.Recoverable pidOf ∧
      ∀ u trials, s'.ownerPid ≠ 0 → s'.alive s'.ownerPid = false → s'.alive (pidOf u) = true →
        s'.pc u = .waiting trials →
        ∃ s'', GuardedRun (LockState.step pidOf)
            (fun s a => a.LockOnly s ∧ a.ProbeSound s ∧ a.KillSafe pidOf s) s' s'' ∧
          s''.sem = s'.sem + 1 ∧ s''.pc u = .waiting (trials + 1) := by
  have hinv : s'.RecoverInv pidOf := hinit.recoverInv.run h0 hrun
  refine ⟨hinv.recoverable, ?_⟩
  intro u trials hne hdead hlive hu
  exact LockState.exists_recovery hne hdead hlive hu

/-- The first process dies inside the section and the second one waits. -/
def killedInside : List (LockLabel (Fin 2)) :=
  [.enter holder, .wait holder .acquired, .access holder, .kill 1, .enter waiter]

theorem exec_killedInside :
    (lockTrace twoProcesses (fun s a => a.LockOnly s ∧ a.KillSafe twoProcesses s)
      killedInside).map (fun s => (s.sem, s.ownerPid, s.alive 1, s.alive 2, s.pc 1)) =
      some (0, 1, false, true, .waiting 0) := by
  decide +kernel

/-- Such a run exists, and the waiter then gets the token back into the semaphore. -/
theorem held_lock_recoverable_killedInside :
    ∃ s s'' : LockState (Fin 2), s.sem = 0 ∧ s.Recoverable twoProcesses ∧
      GuardedRun (LockState.step twoProcesses)
        (fun s a => a.LockOnly s ∧ a.ProbeSound s ∧ a.KillSafe twoProcesses s) s s'' ∧
      s''.sem = 1 := by
  obtain ⟨s, hs, heq⟩ := Option.map_eq_some_iff.mp exec_killedInside
  simp only [Prod.mk.injEq] at heq
  obtain ⟨hsem, howner, hdead, hlive, hpc⟩ := heq
  obtain ⟨hrec, hback⟩ := held_lock_recoverable (by decide) ⟨rfl, rfl, fun _ => rfl⟩
    (guardedRun_of_lockTrace hs)
  obtain ⟨s'', hrun, hsem'', -⟩ := hback 1 0 (by rw [howner]; decide) (by rw [howner, hdead])
    hlive hpc
  exact ⟨s, s'', hsem, hrec, hrun, by rw [hsem'', hsem]⟩

/-- The condition on kills is exact: with a sound `proc_alive`, the first kill that fails it leaves
a lock that nobody can release. -/
theorem recoverable_kill_iff (h0 : ∀ t, pidOf t ≠ 0) (hinit : s.Initial)
    (hrun : GuardedRun (LockState.step pidOf)
      (fun s a => a.LockOnly s ∧ a.ProbeSound s ∧ a.KillSafe pidOf s) s s') {p : Pid}
    {s'' : LockState T} (hst : s'.step pidOf (.kill p) = some s'') :
    s''.Recoverable pidOf ↔ (LockLabel.kill p).KillSafe pidOf s' := by
  have hinv : s'.TokenInv pidOf := hinit.tokenInv.run h0
    (hrun.mono fun _ _ hok => ⟨hok.2.1, LockState.exitSafe_of_lockOnly hok.1⟩)
  have hrun' : GuardedRun (LockState.step pidOf) (fun s a => a.LockOnly s ∧ a.KillSafe pidOf s)
      s s' := hrun.mono fun _ _ hok => ⟨hok.1, hok.2.2⟩
  constructor
  · intro hrec t ht htok
    obtain ⟨-, ⟨⟩⟩ := Option.ite_none_right_eq_some.mp hst
    subst ht
    exact hinv.not_recoverable_kill htok hrec
  · intro hkill
    have hinv' : s'.RecoverInv pidOf := hinit.recoverInv.run h0 hrun'
    have hlock : (LockLabel.kill p).LockOnly s' := trivial
    exact (hinv'.move h0 hlock hkill (LockState.lockMove_of_step hst)).recoverable

/-- A process is killed after its wait and before its store. -/
def killedBeforeStore : List (LockLabel (Fin 2)) :=
  [.enter holder, .wait holder .acquired, .kill 1]

theorem exec_killedBeforeStore :
    (lockTrace twoProcesses (fun s a => a.LockOnly s ∧ a.ProbeSound s) killedBeforeStore).map
      (fun s => (s.sem, s.ownerPid, s.alive 1, s.pc 1)) = some (0, 0, false, .idle) := by
  decide +kernel

/-- Without the condition the token is lost. -/
theorem held_lock_lost :
    ¬ ∀ s s' : LockState (Fin 2), s.Initial →
      GuardedRun (LockState.step twoProcesses) (fun s a => a.LockOnly s ∧ a.ProbeSound s) s s' →
      s'.Recoverable twoProcesses := by
  intro hall
  obtain ⟨s, hs, heq⟩ := Option.map_eq_some_iff.mp exec_killedBeforeStore
  simp only [Prod.mk.injEq] at heq
  obtain ⟨hsem, howner, hdead, hpc⟩ := heq
  rcases hall _ s ⟨rfl, rfl, fun _ => rfl⟩ (guardedRun_of_lockTrace hs) hsem with
    ⟨t, ht⟩ | ⟨hne, -⟩
  · have hlive : s.alive (twoProcesses t) = true := by
      rcases ht with hin | hrec
      · exact hin.1
      · exact hrec.1
    obtain rfl : t = 1 := by
      by_contra hne
      obtain rfl : t = 0 := by omega
      exact absurd (hdead.symm.trans hlive) (by simp)
    rcases ht with ⟨-, h | h | h⟩ | ⟨-, trials, h⟩ <;> exact absurd (hpc.symm.trans h) (by simp)
  · exact hne howner

end Recovery

end HamiCore
